/-
# Roots, records and books

What is compared at the two ends of a nested call (`gc_roots_truncate`,
`recover_cancelled_async_calls` and the pending exception in `src/store/inner.rs` and
`src/store/managed.rs`): the roots below a scope, what the records of dropped calls restore, and
the books of the pending exception, which say what was installed since a given state and stands.
-/
import SubmilliWasm.Exec.Moves

namespace SubmilliWasm

open Runs StoreState

variable {σ : Type}

/-! ## The roots below a scope -/

/-- A mark in the roots, with the pending exception that was rooted there. -/
structure RootMark where
  mark : ℕ
  pending : Option ℕ

/-- The roots are those a list of marks was made on, innermost first, down to `base`. -/
def RootsOn (base : List (ℕ × RefKind)) : List RootMark → List (ℕ × RefKind) → Prop
  | [], roots => base <+: roots
  | m :: ms, roots => ∃ below, RootsOn base ms below ∧ m.mark = below.length ∧
      below ++ pendingRoot m.pending <+: roots

namespace RootsOn

variable {base roots roots' : List (ℕ × RefKind)} {ms : List RootMark} {m : RootMark}

theorem grow (h : RootsOn base ms roots) (hroots : roots <+: roots') : RootsOn base ms roots' := by
  cases ms with
  | nil => exact List.IsPrefix.trans h hroots
  | cons m ms =>
    obtain ⟨below, hbelow, hmark, hprefix⟩ := h
    exact ⟨below, hbelow, hmark, hprefix.trans hroots⟩

/-- A scope is opened on top. -/
theorem open_ (h : RootsOn base ms roots) (pending : Option ℕ)
    (hroots : roots ++ pendingRoot pending <+: roots') :
    RootsOn base (⟨roots.length, pending⟩ :: ms) roots' :=
  ⟨roots, h, rfl, hroots⟩

/-- Cut to a mark, the roots are those it was made on. -/
theorem cut (h : RootsOn base (m :: ms) roots) : RootsOn base ms (roots.take m.mark) := by
  obtain ⟨below, hbelow, hmark, hprefix⟩ := h
  have hcut : roots.take m.mark = below := by
    rw [hmark]
    exact (List.prefix_iff_eq_take.mp ((List.prefix_append _ _).trans hprefix)).symm
  rw [hcut]
  exact hbelow

theorem tail (h : RootsOn base (m :: ms) roots) : RootsOn base ms roots := by
  obtain ⟨below, hbelow, -, hprefix⟩ := h
  exact hbelow.grow ((List.prefix_append _ _).trans hprefix)

theorem base_le (h : RootsOn base ms roots) : base <+: roots := by
  induction ms generalizing roots with
  | nil => exact h
  | cons m ms ih =>
    obtain ⟨below, hbelow, -, hprefix⟩ := h
    exact (ih hbelow).trans ((List.prefix_append _ _).trans hprefix)

theorem mark_le (h : RootsOn base (m :: ms) roots) : m.mark ≤ roots.length := by
  obtain ⟨below, -, hmark, hprefix⟩ := h
  rw [hmark]
  exact ((List.prefix_append _ _).trans hprefix).length_le

/-- A cut to an outer mark goes through the inner ones. -/
theorem cut_outer {inner : List RootMark} (h : RootsOn base (inner ++ m :: ms) roots) :
    RootsOn base ms (roots.take m.mark) ∧ m.mark ≤ roots.length := by
  induction inner generalizing roots with
  | nil => exact ⟨h.cut, h.mark_le⟩
  | cons k inner ih =>
    obtain ⟨below, hbelow, hmark, hprefix⟩ := h
    obtain ⟨hcut, hle⟩ := ih hbelow
    have hbelow' : below <+: roots := (List.prefix_append _ _).trans hprefix
    refine ⟨?_, hle.trans hbelow'.length_le⟩
    obtain ⟨more, rfl⟩ := hbelow'
    rw [List.take_append_of_le_length hle]
    exact hcut

/-- What was pending when a scope was opened is rooted while it is open. -/
theorem rooted (h : RootsOn base ms roots) (hm : m ∈ ms) {exn : ℕ} (hexn : m.pending = some exn) :
    (exn, RefKind.exn) ∈ roots := by
  induction ms generalizing roots with
  | nil => exact nomatch hm
  | cons k ms ih =>
    obtain ⟨below, hbelow, -, hprefix⟩ := h
    rcases List.mem_cons.mp hm with rfl | hm
    · refine hprefix.subset (List.mem_append_right _ ?_)
      rw [hexn]
      exact List.mem_singleton_self _
    · exact hprefix.subset (List.mem_append_left _ (ih hbelow hm))

end RootsOn

/-! ## Recovery -/

/-- What does not change is the rest of the store, whatever error it holds. -/
def StoreState.withError (st : StoreState σ) (err : Option ExecError) : StoreState σ :=
  { st with internalError := err }

theorem latchInternalError_eq (st : StoreState σ) (err : ExecError) :
    ∃ e, st.latchInternalError err = st.withError e := by
  unfold latchInternalError
  split
  · exact ⟨st.internalError, rfl⟩
  · exact ⟨some err, rfl⟩

namespace AsyncCallCleanup

/-- What a record restores does not depend on the error latched. -/
theorem restore_withError (r : AsyncCallCleanup) (st : StoreState σ) (slot : Execution)
    (err : Option ExecError) : ∃ e, r.restore (st.withError err) slot =
      ((r.restore st slot).1.withError e, (r.restore st slot).2) := by
  unfold restore
  cases r.boundary with
  | none => exact ⟨err, rfl⟩
  | some b =>
    obtain ⟨valueBase, stopDepth⟩ := b
    simp only
    rcases slot.discardTo valueBase stopDepth with cleanup | e
    · simp only
      split
      · obtain ⟨e, he⟩ := latchInternalError_eq (st.withError err) cleanup
        obtain ⟨e', he'⟩ := latchInternalError_eq st cleanup
        rw [he, he']
        exact ⟨e, rfl⟩
      · exact ⟨err, rfl⟩
    · exact ⟨err, rfl⟩

/-- Nor on roots above its mark. -/
theorem restore_roots (r : AsyncCallCleanup) (st : StoreState σ) (slot : Execution)
    {roots more : List (ℕ × RefKind)} (hle : r.scope.rootsMark ≤ roots.length) :
    r.restore { st with gcRoots := roots ++ more } slot =
      r.restore { st with gcRoots := roots } slot := by
  have hcut : (roots ++ more).take r.scope.rootsMark = roots.take r.scope.rootsMark :=
    List.take_append_of_le_length hle
  unfold restore
  cases r.boundary with
  | none =>
    simp only [truncateRoots, restorePending, hcut]
  | some b =>
    obtain ⟨valueBase, stopDepth⟩ := b
    simp only
    rcases slot.discardTo valueBase stopDepth with cleanup | e
    · simp only
      split
      · obtain ⟨e, he⟩ := latchInternalError_eq { st with gcRoots := roots ++ more } cleanup
        unfold latchInternalError
        simp only
        split
        · simp only [truncateRoots, restorePending, hcut]
        · simp only [truncateRoots, restorePending, hcut]
      · simp only [truncateRoots, restorePending, hcut]
    · simp only [truncateRoots, restorePending, hcut]

/-- The roots a record leaves. -/
theorem restore_gcRoots (r : AsyncCallCleanup) (st : StoreState σ) (slot : Execution) :
    (r.restore st slot).1.gcRoots = st.gcRoots.take r.scope.rootsMark ∧
      (r.restore st slot).1.pending = r.scope.pending ∧
      (r.restore st slot).1.pendingGeneration = r.scope.pendingGeneration := by
  unfold restore
  cases r.boundary with
  | none => exact ⟨rfl, rfl, rfl⟩
  | some b =>
    obtain ⟨valueBase, stopDepth⟩ := b
    simp only
    rcases slot.discardTo valueBase stopDepth with cleanup | e
    · simp only
      split
      · obtain ⟨e, he⟩ := latchInternalError_eq st cleanup
        rw [he]
        exact ⟨rfl, rfl, rfl⟩
      · exact ⟨rfl, rfl, rfl⟩
    · exact ⟨rfl, rfl, rfl⟩

end AsyncCallCleanup

namespace Nest

/-- Restores what the records saved, in order. -/
def restored (cs : List AsyncCallCleanup) (x : StoreState σ × Execution) :
    StoreState σ × Execution :=
  cs.foldl (fun x r => r.restore x.1 x.2) x

theorem recoverFrom_cons (W : Nest σ) (r : AsyncCallCleanup) (rs : List AsyncCallCleanup) :
    W.recoverFrom (r :: rs) = if r.cancelled then
        { W with
          store := (r.restore W.store W.slot).1
          slot := (r.restore W.store W.slot).2 }.recoverFrom rs
      else { W with cleanups := r :: rs } := rfl

/-- Where the last begun call is live there is nothing to recover. -/
theorem recoverFrom_live {rs : List AsyncCallCleanup} (hrs : ∀ r ∈ rs.head?, r.cancelled = false)
    (W : Nest σ) : W.recoverFrom rs = { W with cleanups := rs } := by
  cases rs with
  | nil => rfl
  | cons r rs =>
    have hr : r.cancelled = false := hrs r rfl
    rw [recoverFrom_cons, hr]
    rfl

/-- Recovery restores the records of dropped calls, up to the first of a live call. -/
theorem recoverFrom_eq {cs rs : List AsyncCallCleanup} (hcs : ∀ r ∈ cs, r.cancelled = true)
    (hrs : ∀ r ∈ rs.head?, r.cancelled = false) (W : Nest σ) :
    W.recoverFrom (cs ++ rs) = { W with
      store := (restored cs (W.store, W.slot)).1
      slot := (restored cs (W.store, W.slot)).2
      cleanups := rs } := by
  induction cs generalizing W with
  | nil => exact recoverFrom_live hrs W
  | cons r cs ih =>
    rw [List.cons_append, recoverFrom_cons, if_pos (hcs r List.mem_cons_self)]
    exact ih (fun r hr => hcs r (List.mem_cons_of_mem _ hr)) _

theorem restored_concat (cs : List AsyncCallCleanup) (r : AsyncCallCleanup)
    (x : StoreState σ × Execution) :
    restored (cs ++ [r]) x = r.restore (restored cs x).1 (restored cs x).2 := by
  unfold restored
  rw [List.foldl_append]
  rfl

/-- Recovery does not depend on the error that is latched. -/
theorem recover_withError (W : Nest σ) (err : Option ExecError) :
    ∃ e, { W with store := W.store.withError err }.recover =
      { W.recover with store := W.recover.store.withError e } := by
  have hfrom : ∀ (rs : List AsyncCallCleanup) (W : Nest σ) (err : Option ExecError),
      ∃ e, { W with store := W.store.withError err }.recoverFrom rs =
        { W.recoverFrom rs with store := (W.recoverFrom rs).store.withError e } := by
    intro rs
    induction rs with
    | nil => exact fun W err => ⟨err, rfl⟩
    | cons r rs ih =>
      intro W err
      rw [recoverFrom_cons, recoverFrom_cons]
      split
      · obtain ⟨e, he⟩ := r.restore_withError W.store W.slot err
        simp only [he]
        exact ih { W with
          store := (r.restore W.store W.slot).1
          slot := (r.restore W.store W.slot).2 } e
      · exact ⟨err, rfl⟩
  exact hfrom W.cleanups W err

end Nest

/-! ## What an activity has open -/

namespace Activity

/-- The record of an async call. -/
def cleanup : Activity → Option AsyncCallCleanup
  | .wasm d token => d.scope.map fun scope =>
    ⟨token, false, scope, some (d.boundary.valueBase, d.boundary.stopDepth)⟩
  | .direct b => b.token.map fun token => ⟨token, false, b.scope, none⟩
  | .rootScope _ => none

/-- The scopes that saved the pending exception, innermost first. -/
def scopes : Activity → List Parked
  | .wasm d _ => d.pc.scope.toList ++ d.scope.toList
  | .direct b => [b.scope]
  | .rootScope _ => []

def marks : Activity → List RootMark
  | .rootScope mark => [⟨mark, none⟩]
  | a => a.scopes.map fun scope => ⟨scope.rootsMark, scope.pending⟩

theorem marks_wasm (d : Drive) (token : ℕ) : (wasm d token).marks =
    (wasm d token).scopes.map fun scope => ⟨scope.rootsMark, scope.pending⟩ := rfl

theorem marks_async {a : Activity} {r : AsyncCallCleanup} (h : a.cleanup = some r) :
    a.marks = a.scopes.map fun scope => ⟨scope.rootsMark, scope.pending⟩ := by
  cases a with
  | wasm d token => rfl
  | direct b => rfl
  | rootScope mark => exact nomatch h

def drive : Activity → Option Drive
  | .wasm d _ => some d
  | _ => none

end Activity

/-! ## Books of the pending exception -/

/-- The exceptions installed that stand, oldest first, and whether the slot was emptied since. -/
structure Tally where
  installed : List ℕ
  taken : Bool
  deriving DecidableEq, Repr

namespace Tally

/-- What the slot holds, if it held `before` at first. -/
def slot (t : Tally) (before : Option ℕ) : Option ℕ :=
  if t.taken then none else t.installed.getLast?.or before

/-- The tally of a slot and its generation. -/
structure Tells (t : Tally) (st : StoreState σ) (pending : Option ℕ) (generation : ℕ) : Prop where
  pending : pending = t.slot st.pending
  generation : generation = (st.pendingGeneration + t.installed.length) % 2 ^ 64

end Tally

/-- Books an event.  The first tally is that of the slot; the others are saved by the scopes that
are open. -/
def PendingEvent.post : PendingEvent → List Tally → List Tally
  | .installed exn, t :: ts => ⟨t.installed ++ [exn], false⟩ :: ts
  | .taken, t :: ts => { t with taken := true } :: ts
  | .opened, t :: ts => t :: t :: ts
  | .kept, t :: _ :: ts => t :: ts
  | .undone, _ :: t :: ts => t :: ts
  | _, ts => ts

def postAll (evs : List PendingEvent) (ts : List Tally) : List Tally :=
  evs.foldl (fun ts ev => ev.post ts) ts

/-- The books agree with the slot, and with what the scopes have saved. -/
def Booked (st₀ st : StoreState σ) (scopes : List Parked) (ts : List Tally) : Prop :=
  ∃ t saved, ts = t :: saved ∧ t.Tells st₀ st.pending st.pendingGeneration ∧
    List.Forall₂ (fun (p : Parked) (t : Tally) => t.Tells st₀ p.pending p.pendingGeneration)
      scopes saved

namespace Booked

variable {st₀ st st' : StoreState σ} {scopes : List Parked} {scope : Parked} {ts : List Tally}

theorem same (h : Booked st₀ st scopes ts) (hpending : st'.pending = st.pending)
    (hgeneration : st'.pendingGeneration = st.pendingGeneration) :
    Booked st₀ st' scopes ts := by
  obtain ⟨t, saved, rfl, htells, hsaved⟩ := h
  rw [← hpending, ← hgeneration] at htells
  exact ⟨t, saved, rfl, htells, hsaved⟩

theorem opened (h : Booked st₀ st scopes ts) (hopens : Opens st st' scope) :
    Booked st₀ st' (scope :: scopes) (postAll [.opened] ts) := by
  obtain ⟨t, saved, rfl, htells, hsaved⟩ := h
  refine ⟨t, t :: saved, rfl, ?_, .cons ?_ hsaved⟩
  · rw [hopens.pending, hopens.generation]
    exact htells
  · rw [hopens.scope_eq]
    exact htells

theorem installs {evs : List PendingEvent} (h : Booked st₀ st scopes ts)
    (hinstalls : Installs st st' evs) : Booked st₀ st' scopes (postAll evs ts) := by
  unfold Installs at hinstalls
  split at hinstalls
  · exact h.same hinstalls.1 hinstalls.2
  · rename_i exn
    obtain ⟨t, saved, rfl, htells, hsaved⟩ := h
    refine ⟨⟨t.installed ++ [exn], false⟩, saved, rfl, ⟨?_, ?_⟩, hsaved⟩
    · rw [hinstalls.1, Tally.slot, if_neg Bool.false_ne_true, List.getLast?_concat]
      rfl
    · rw [hinstalls.2, htells.generation, List.length_append, List.length_singleton]
      omega
  · exact hinstalls.elim

theorem closes {ev : PendingEvent} (h : Booked st₀ st (scope :: scopes) ts)
    (hcloses : Closes scope st st' ev) : Booked st₀ st' scopes (postAll [ev] ts) := by
  obtain ⟨t, saved, rfl, htells, hsaved⟩ := h
  obtain ⟨t', saved', hscope, hsaved', rfl⟩ := List.forall₂_cons_left_iff.mp hsaved
  cases ev with
  | kept =>
    refine ⟨t, saved', rfl, ?_, hsaved'⟩
    rw [hcloses.1, hcloses.2]
    exact htells
  | undone =>
    refine ⟨t', saved', rfl, ?_, hsaved'⟩
    rw [hcloses.1, hcloses.2]
    exact hscope
  | installed _ | taken | opened => exact hcloses.elim

/-- An outer scope restores the slot whatever the inner ones did. -/
theorem undone {inner : List Parked} (h : Booked st₀ st (inner ++ scope :: scopes) ts)
    (hpending : st'.pending = scope.pending)
    (hgeneration : st'.pendingGeneration = scope.pendingGeneration) :
    Booked st₀ st' scopes (postAll (List.replicate (inner.length + 1) .undone) ts) := by
  induction inner generalizing ts st with
  | nil => exact h.closes ⟨hpending, hgeneration⟩
  | cons p inner ih =>
    have hfirst : Booked st₀ (st.restorePending p) (inner ++ scope :: scopes)
        (postAll [.undone] ts) := h.closes ⟨rfl, rfl⟩
    exact ih hfirst

end Booked

end SubmilliWasm
