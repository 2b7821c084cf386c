/-
# Marks in place

The collector with its mark bits where the source keeps them (`src/store/gc_collect.rs`,
`src/store/gc.rs`): in a bitmap of the heap itself, set before an object is traced.  A trace that
fails leaves bits behind, which `clear_marks` takes away again, so that the next collection finds
a clean bitmap and is the collection of `StoreInner.collect`.
-/
import SubmilliWasm.Lib.Effects
import SubmilliWasm.Store.Collect

namespace SubmilliWasm

open Effects

/-! ## The collector -/

/-- A store with the mark bitmap of its object heap. -/
structure MarkedStore where
  inner : StoreInner
  marks : List ℕ

/-- A trace under way: the store, and the two sets beside it. -/
structure Traversal where
  store : MarkedStore
  externSeen : Finset ℕ
  exnSeen : Finset ℕ

abbrev TraceM (α : Type) := EStateM InternalError Traversal α

namespace MarkedStore

/-- `gc.mark`: sets the bit of an object; whether it was not set before. -/
def mark (s : MarkedStore) (i : ℕ) : Bool × MarkedStore :=
  if marked s.marks i then (false, s) else (true, { s with marks := setMark s.marks i })

/-- One iteration of `trace_reachable`: an entry is recorded before it is traced. -/
def visit (n : Reached) : TraceM (List Reached) := fun t =>
  match n with
  | .gc i =>
    match t.store.inner.gc.arena.get i with
    | none => .error (.gcMetadata "dangling GC root") t
    | some _ =>
      match t.store.mark i with
      | (false, _) => .ok [] t
      | (true, store) => attempt (t.store.inner.traceGc i) { t with store }
  | .extern_ i =>
    if i ∈ t.externSeen then .ok [] t
    else
      attempt (t.store.inner.traceExtern i) { t with externSeen := insert i t.externSeen }
  | .exn i =>
    if i ∈ t.exnSeen then .ok [] t
    else attempt (t.store.inner.traceExn i) { t with exnSeen := insert i t.exnSeen }

/-- `trace_reachable`; `none` if the fuel runs out first. -/
def traceReachable : ℕ → List Reached → Traversal →
    Option (EStateM.Result InternalError Traversal Unit)
  | _, [], t => some (.ok () t)
  | 0, _ :: _, _ => none
  | fuel + 1, n :: work, t =>
    match visit n t with
    | .error e t => some (.error e t)
    | .ok pushed t => traceReachable fuel (pushed.reverse ++ work) t

/-- `clear_marks`. -/
def clearMarks (s : MarkedStore) : MarkedStore := { s with marks := [] }

/-- The three sweeps, the last of which clears the bitmap. -/
def sweep (t : Traversal) : MarkedStore :=
  ⟨t.store.inner.sweepAll ⟨t.store.marks, t.externSeen, t.exnSeen⟩, []⟩

def collect (s : MarkedStore) (stackRoots : List (ℕ × RefKind)) :
    Option (Except InternalError Unit × MarkedStore) :=
  if s.inner.gc.collecting = false then some (.ok (), s)
  else
    let work := s.inner.initialWork stackRoots
    match traceReachable (s.inner.traceFuel work) work ⟨s, ∅, ∅⟩ with
    | none => none
    | some (.error e t) => some (.error e, t.store.clearMarks)
    | some (.ok () t) => some (.ok (), sweep t)

end MarkedStore

/-! ## What a visit does -/

namespace Traversal

/-- What the trace has recorded. -/
def tracing (t : Traversal) : Tracing := ⟨t.store.marks, t.externSeen, t.exnSeen⟩

/-- The trace with other records. -/
def record (t : Traversal) (r : Tracing) : Traversal :=
  ⟨{ t.store with marks := r.marks }, r.externSeen, r.exnSeen⟩

end Traversal

/-- Two results of one visit: recorded in place, and handed on. -/
def SameVisit (t : Traversal) (x : Except InternalError (List Reached × Tracing))
    (y : EStateM.Result InternalError Traversal (List Reached)) : Prop :=
  (∃ pushed r, x = .ok (pushed, r) ∧ y = .ok pushed (t.record r)) ∨
    ∃ e r, x = .error e ∧ y = .error e (t.record r)

theorem sameVisit_attempt (t : Traversal) (x : Except InternalError (List Reached))
    (r : Tracing) :
    SameVisit t (do let pushed ← x; return (pushed, r)) (attempt x (t.record r)) := by
  cases x with
  | error e => exact Or.inr ⟨e, r, rfl, rfl⟩
  | ok pushed => exact Or.inl ⟨pushed, r, rfl, rfl⟩

/-- A visit records what a step of the tracer does and touches nothing else; it fails with the
step. -/
theorem visit_same (n : Reached) (t : Traversal) :
    SameVisit t (t.store.inner.traceStep t.tracing n) (MarkedStore.visit n t) := by
  have hskip : SameVisit t (.ok ([], t.tracing)) (.ok [] t) := Or.inl ⟨[], t.tracing, rfl, rfl⟩
  unfold MarkedStore.visit StoreInner.traceStep
  cases n with
  | gc i =>
    cases hget : t.store.inner.gc.arena.get i with
    | none =>
      simp only [hget]
      exact Or.inr ⟨_, t.tracing, rfl, rfl⟩
    | some obj =>
      simp only [hget]
      by_cases hm : marked t.store.marks i = true
      · rw [show t.store.mark i = (false, t.store) from if_pos hm]
        rw [if_pos (show marked t.tracing.marks i = true from hm)]
        exact hskip
      · rw [show t.store.mark i = (true, { t.store with marks := setMark t.store.marks i }) from
          if_neg hm]
        rw [if_neg (show ¬ marked t.tracing.marks i = true from hm)]
        exact sameVisit_attempt t _ ⟨setMark t.store.marks i, t.externSeen, t.exnSeen⟩
  | extern_ i =>
    dsimp only
    by_cases hseen : i ∈ t.externSeen
    · rw [if_pos hseen, if_pos (show i ∈ t.tracing.externSeen from hseen)]
      exact hskip
    · rw [if_neg hseen, if_neg (show ¬ i ∈ t.tracing.externSeen from hseen)]
      exact sameVisit_attempt t _ ⟨t.store.marks, insert i t.externSeen, t.exnSeen⟩
  | exn i =>
    dsimp only
    by_cases hseen : i ∈ t.exnSeen
    · rw [if_pos hseen, if_pos (show i ∈ t.tracing.exnSeen from hseen)]
      exact hskip
    · rw [if_neg hseen, if_neg (show ¬ i ∈ t.tracing.exnSeen from hseen)]
      exact sameVisit_attempt t _ ⟨t.store.marks, t.externSeen, insert i t.exnSeen⟩

/-- Two ends of one trace. -/
inductive SameTrace (t : Traversal) : Option (Except InternalError Tracing) →
    Option (EStateM.Result InternalError Traversal Unit) → Prop where
  | fuel : SameTrace t none none
  | ok (r : Tracing) : SameTrace t (some (.ok r)) (some (.ok () (t.record r)))
  | error (e : InternalError) (r : Tracing) :
      SameTrace t (some (.error e)) (some (.error e (t.record r)))

theorem SameTrace.record {t : Traversal} {r : Tracing} {x : Option (Except InternalError Tracing)}
    {y : Option (EStateM.Result InternalError Traversal Unit)} (h : SameTrace (t.record r) x y) :
    SameTrace t x y := by
  cases h with
  | fuel => exact .fuel
  | ok r' => exact .ok r'
  | error e r' => exact .error e r'

/-- The trace in place is the tracer's, but for where its records are. -/
theorem traceReachable_same (fuel : ℕ) (work : List Reached) (t : Traversal) :
    SameTrace t (Worklist.run t.store.inner.traceStep fuel t.tracing work)
      (MarkedStore.traceReachable fuel work t) := by
  induction fuel generalizing work t with
  | zero =>
    cases work with
    | nil => exact .ok t.tracing
    | cons n work => exact .fuel
  | succ fuel ih =>
    cases work with
    | nil => exact .ok t.tracing
    | cons n work =>
      rw [Worklist.run, MarkedStore.traceReachable]
      rcases visit_same n t with ⟨pushed, r, hstep, hvisit⟩ | ⟨e, r, hstep, hvisit⟩
      · rw [hstep, hvisit]
        exact (ih (pushed.reverse ++ work) (t.record r)).record
      · rw [hstep, hvisit]
        exact .error e r

/-! ## Collections -/

namespace MarkedStore

/-- How a collection of `s` that is computed apart ends in place. -/
def ending (s : StoreInner) :
    Except InternalError StoreInner → Except InternalError Unit × MarkedStore
  | .ok s' => (.ok (), ⟨s', []⟩)
  | .error e => (.error e, ⟨s, []⟩)

/-- With a clean bitmap the collection in place is the one that computes its marks apart. -/
theorem collect_clean (s : StoreInner) (stackRoots : List (ℕ × RefKind)) :
    collect ⟨s, []⟩ stackRoots = (s.collect stackRoots).map (ending s) := by
  unfold collect StoreInner.collect
  dsimp only
  split
  · rfl
  · have hsame := traceReachable_same (s.traceFuel (s.initialWork stackRoots))
      (s.initialWork stackRoots) ⟨⟨s, []⟩, ∅, ∅⟩
    change SameTrace _ (s.traceReachable (s.initialWork stackRoots)) _ at hsame
    generalize s.traceReachable (s.initialWork stackRoots) = x at hsame ⊢
    generalize traceReachable (s.traceFuel (s.initialWork stackRoots)) (s.initialWork stackRoots)
      ⟨⟨s, []⟩, ∅, ∅⟩ = y at hsame ⊢
    cases hsame with
    | fuel => rfl
    | ok r => rfl
    | error e r => rfl

/-- **A collection that fails has done nothing.**  The arenas and the budget are those from before
and no mark is set, so that any later collection is one of that very store from scratch. -/
theorem collect_error_atomic {s s' : MarkedStore} {stackRoots : List (ℕ × RefKind)}
    {e : InternalError} (h : s.collect stackRoots = some (.error e, s')) :
    s'.inner = s.inner ∧ (∀ i, marked s'.marks i = false) ∧
      ∀ roots, s'.collect roots = (s.inner.collect roots).map (ending s.inner) := by
  unfold collect at h
  dsimp only at h
  split at h
  · cases h
  · have hsame := traceReachable_same (s.inner.traceFuel (s.inner.initialWork stackRoots))
      (s.inner.initialWork stackRoots) ⟨s, ∅, ∅⟩
    generalize traceReachable (s.inner.traceFuel (s.inner.initialWork stackRoots))
      (s.inner.initialWork stackRoots) ⟨s, ∅, ∅⟩ = y at h hsame
    generalize Worklist.run _ _ _ (s.inner.initialWork stackRoots) = x at hsame
    cases hsame with
    | fuel => cases h
    | ok r => cases h
    | error e r =>
      obtain rfl := (Prod.mk.inj (Option.some.inj h)).2
      refine ⟨rfl, fun i => ?_, fun roots => collect_clean s.inner roots⟩
      unfold marked
      rw [List.getD_eq_getElem?_getD]
      exact Nat.zero_testBit _

/-- A collecting store with two host roots: an exception that is not there, and an array without a
type, which is popped first and marked before its trace fails. -/
def brokenStore : StoreInner :=
  { nullStore with
    gc := { nullStore.gc with collecting := true }
    gcRoots := [(0, .exn), (0, .any)] }

theorem collect_error_atomic_broken :
    ∃ e s', collect ⟨brokenStore, []⟩ [] = some (.error e, s') ∧ s'.inner = brokenStore ∧
      (∀ i, marked s'.marks i = false) :=
  have hrun : collect ⟨brokenStore, []⟩ [] =
      some (.error (.gcMetadata "array type metadata is missing"), ⟨brokenStore, []⟩) := rfl
  have h := collect_error_atomic hrun
  ⟨_, _, hrun, h.1, h.2.1⟩

end MarkedStore

end SubmilliWasm
