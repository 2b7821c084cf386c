/-
# Events of the managed arenas

Whatever a store does to its three managed arenas is a sequence of a few events: an entry is
placed and charged, a body is overwritten, a collection runs, or the arenas stay as they are.
The accounting invariant is stated and carried over events here; that the operations of a store
are made of events is shown where the operations are.
-/
import SubmilliWasm.Store.Managed

namespace SubmilliWasm

open Slots

/-- Replaces a body by one of the same length. -/
def GcObject.rewrite (data : List UInt8) (o : GcObject) : GcObject :=
  if data.length = o.data.length then { o with data } else o

theorem GcObject.rewrite_byteSize (data : List UInt8) (o : GcObject) :
    (o.rewrite data).byteSize = o.byteSize := by
  unfold rewrite byteSize
  split
  · rename_i h
    rw [← h]
  · rfl

/-! ## Events -/

/-- `s'` has the arenas of `s` and the same bytes in use. -/
structure SameArenas (s s' : StoreInner) : Prop where
  arena : s'.gc.arena = s.gc.arena
  externrefs : s'.externrefs = s.externrefs
  exns : s'.exns = s.exns
  used : s'.gc.used = s.gc.used
  reservation : s'.gc.reservation = s.gc.reservation
  collecting : s'.gc.collecting = s.gc.collecting

/-- One event, with the entry it places. -/
inductive Event : StoreInner → Option Reached → StoreInner → Prop where
  | object {s : StoreInner} (o : GcObject) :
      s.gc.used + o.byteSize ≤ usizeMax →
      Event s (some (.gc (s.gc.arena.alloc o).1))
        { s with gc := { s.gc with
            arena := (s.gc.arena.alloc o).2
            used := s.gc.used + o.byteSize } }
  | externref {s : StoreInner} (e : ExternEntry) :
      s.gc.used + e.byteSize ≤ usizeMax →
      Event s (some (.extern_ (s.externrefs.alloc e).1))
        { s with
          gc := { s.gc with used := s.gc.used + e.byteSize }
          externrefs := (s.externrefs.alloc e).2 }
  | exn {s : StoreInner} (e : ExnEntity) :
      s.gc.used + e.byteSize ≤ usizeMax →
      Event s (some (.exn (s.exns.alloc e).1))
        { s with
          gc := { s.gc with used := s.gc.used + e.byteSize }
          exns := (s.exns.alloc e).2 }
  | write {s : StoreInner} (index : ℕ) (data : List UInt8) :
      Event s none
        { s with gc := { s.gc with arena := s.gc.arena.update index (GcObject.rewrite data) } }
  | collect {s s' : StoreInner} (stackRoots : List (ℕ × RefKind)) :
      s.collect stackRoots = some (.ok s') → Event s none s'
  | other {s s' : StoreInner} : SameArenas s s' → Event s none s'

/-- Any number of events. -/
def Events : StoreInner → StoreInner → Prop :=
  Relation.ReflTransGen fun s s' => ∃ n, Event s n s'

theorem Events.refl (s : StoreInner) : Events s s := Relation.ReflTransGen.refl

variable {h : GcHeap} {s s' : StoreInner}

theorem Events.single {n : Option Reached} (h : Event s n s') : Events s s' :=
  Relation.ReflTransGen.single ⟨n, h⟩

theorem Events.trans {s'' : StoreInner} (h : Events s s') (h' : Events s' s'') : Events s s'' :=
  Relation.ReflTransGen.trans h h'

/-! ## The accounting invariant -/

/-- The bytes in use are what the live entries are charged for.  The free budget stays under the
abort cap, so a grant within it covers what it is made for. -/
structure Accounted (s : StoreInner) : Prop where
  used : s.gc.used = s.charged
  reservation : s.gc.reservation ≤ abortSafetyCap

theorem accounted_new (engine : TypeRegistry) (collecting : Bool) (reservation : ℕ) :
    Accounted (StoreInner.new engine collecting reservation) :=
  ⟨rfl, min_le_right _ _⟩

/-- The bytes the three sweeps of a collection free. -/
def StoreInner.freedExtern (s : StoreInner) (t : Tracing) : ℕ :=
  (s.externrefs.sweep (· ∈ t.externSeen) ExternEntry.byteSize).2

def StoreInner.freedExn (s : StoreInner) (t : Tracing) : ℕ :=
  (s.exns.sweep (· ∈ t.exnSeen) ExnEntity.byteSize).2

def StoreInner.freedGc (s : StoreInner) (t : Tracing) : ℕ :=
  (s.gc.arena.sweep (marked t.marks) GcObject.byteSize).2

theorem sweepAll_charged (s : StoreInner) (t : Tracing) :
    (s.sweepAll t).charged + (s.freedExtern t + s.freedExn t + s.freedGc t) = s.charged := by
  have hextern := s.externrefs.sweep_total (· ∈ t.externSeen) ExternEntry.byteSize
  have hexn := s.exns.sweep_total (· ∈ t.exnSeen) ExnEntity.byteSize
  have hgc := s.gc.arena.sweep_total (marked t.marks) GcObject.byteSize
  simp only [StoreInner.charged, StoreInner.sweepAll, StoreInner.freedExtern, StoreInner.freedExn,
    StoreInner.freedGc]
  omega

theorem sweepAll_used (s : StoreInner) (t : Tracing) :
    (s.sweepAll t).gc.used = s.gc.used - s.freedExtern t - s.freedExn t - s.freedGc t :=
  rfl

theorem Accounted.sweepAll (hs : Accounted s) (t : Tracing) : Accounted (s.sweepAll t) := by
  refine ⟨?_, hs.reservation⟩
  have hc := sweepAll_charged s t
  rw [sweepAll_used, hs.used]
  omega

theorem Accounted.collect {s s' : StoreInner} {stackRoots : List (ℕ × RefKind)}
    (hs : Accounted s) (h : s.collect stackRoots = some (.ok s')) : Accounted s' := by
  by_cases hc : s.gc.collecting = true
  · obtain ⟨t, -, rfl⟩ := collect_ok hc h
    exact hs.sweepAll t
  · rw [StoreInner.collect, if_pos (by simpa using hc)] at h
    exact Except.ok.inj (Option.some.inj h) ▸ hs

/-- Events keep the accounts. -/
theorem Event.accounted {n : Option Reached} (h : Event s n s') (hs : Accounted s) :
    Accounted s' := by
  have hused := hs.used
  unfold StoreInner.charged at hused
  cases h with
  | object o _ =>
    refine ⟨?_, hs.reservation⟩
    have := s.gc.arena.alloc_total GcObject.byteSize o
    simp only [StoreInner.charged]
    omega
  | externref e _ =>
    refine ⟨?_, hs.reservation⟩
    have := s.externrefs.alloc_total ExternEntry.byteSize e
    simp only [StoreInner.charged]
    omega
  | exn e _ =>
    refine ⟨?_, hs.reservation⟩
    have := s.exns.alloc_total ExnEntity.byteSize e
    simp only [StoreInner.charged]
    omega
  | write index data =>
    refine ⟨?_, hs.reservation⟩
    have := s.gc.arena.update_total index (GcObject.rewrite_byteSize data)
    simp only [StoreInner.charged]
    omega
  | collect stackRoots h => exact hs.collect h
  | other h =>
    refine ⟨?_, h.reservation ▸ hs.reservation⟩
    rw [StoreInner.charged, h.arena, h.externrefs, h.exns, h.used]
    exact hused

theorem Events.accounted (h : Events s s') (hs : Accounted s) : Accounted s' := by
  induction h with
  | refl => exact hs
  | tail _ hlast ih =>
    obtain ⟨n, hn⟩ := hlast
    exact hn.accounted ih

/-! ## The sweep of the object heap, object by object -/

/-- One iteration of the heap's sweep: a freed object's size leaves `used` at once. -/
def GcHeap.sweepSlot (marks : List ℕ) (h : GcHeap) (i : ℕ) : GcHeap :=
  match ho : entry h.arena.slots i with
  | none => h
  | some o =>
    if marked marks i then h
    else { h with arena := h.arena.freeSlot i ho, used := h.used - o.byteSize }

/-- The heap after the sweep's loop has passed the slots below `k`. -/
def GcHeap.sweepUpTo (h : GcHeap) (marks : List ℕ) (k : ℕ) : GcHeap :=
  (List.range k).foldl (GcHeap.sweepSlot marks) h

theorem GcHeap.sweepSlot_empty {i : ℕ} (marks : List ℕ) (ho : entry h.arena.slots i = none) :
    GcHeap.sweepSlot marks h i = h := by
  unfold GcHeap.sweepSlot
  split
  · rfl
  · rename_i o ho'
    nomatch ho.symm.trans ho'

theorem GcHeap.sweepSlot_kept {marks : List ℕ} {i : ℕ} (hm : marked marks i = true) :
    GcHeap.sweepSlot marks h i = h := by
  unfold GcHeap.sweepSlot
  split
  · rfl
  · rw [if_pos hm]

theorem GcHeap.sweepSlot_freed {marks : List ℕ} {i : ℕ} {o : GcObject}
    (ho : entry h.arena.slots i = some o) (hm : ¬ marked marks i = true) :
    GcHeap.sweepSlot marks h i =
      { h with arena := h.arena.freeSlot i ho, used := h.used - o.byteSize } := by
  unfold GcHeap.sweepSlot
  split
  · rename_i ho'
    cases ho.symm.trans ho'
  · rename_i o' ho'
    obtain rfl := Option.some.inj (ho.symm.trans ho')
    rw [if_neg hm]

/-- The two loops make the same step: what one adds to the freed bytes, the other takes off
`used`. -/
theorem GcHeap.sweepSlot_eq (marks : List ℕ) (h : GcHeap) (i : ℕ) (freed : ℕ) :
    GcHeap.sweepSlot marks { h with used := h.used - freed } i =
      { h with
        arena := (ReclaimArena.sweepSlot (marked marks) GcObject.byteSize (h.arena, freed) i).1
        used := h.used -
          (ReclaimArena.sweepSlot (marked marks) GcObject.byteSize (h.arena, freed) i).2 } := by
  rcases ho : entry h.arena.slots i with _ | o
  · rw [ReclaimArena.sweepSlot_empty (p := (h.arena, freed)) _ _ ho,
      GcHeap.sweepSlot_empty (h := { h with used := h.used - freed }) _ ho]
  · by_cases hm : marked marks i = true
    · rw [ReclaimArena.sweepSlot_kept (p := (h.arena, freed)) _ hm,
        GcHeap.sweepSlot_kept (h := { h with used := h.used - freed }) hm]
    · rw [ReclaimArena.sweepSlot_freed (p := (h.arena, freed)) _ ho hm,
        GcHeap.sweepSlot_freed (h := { h with used := h.used - freed }) ho hm, Nat.sub_sub]

/-- The two sweeps free the same slots and the same bytes. -/
theorem GcHeap.foldl_sweepSlot_eq (marks : List ℕ) (h : GcHeap) (is : List ℕ)
    (p : ReclaimArena GcObject × ℕ) :
    is.foldl (GcHeap.sweepSlot marks) { h with arena := p.1, used := h.used - p.2 } =
      { h with
        arena := (is.foldl (ReclaimArena.sweepSlot (marked marks) GcObject.byteSize) p).1
        used := h.used -
          (is.foldl (ReclaimArena.sweepSlot (marked marks) GcObject.byteSize) p).2 } := by
  induction is generalizing p with
  | nil => rfl
  | cons i is ih =>
    rw [List.foldl_cons, List.foldl_cons, ← ih]
    congr 1
    exact GcHeap.sweepSlot_eq marks { h with arena := p.1 } i p.2

theorem GcHeap.sweepUpTo_eq (h : GcHeap) (marks : List ℕ) (k : ℕ) :
    h.sweepUpTo marks k =
      { h with
        arena := ((List.range k).foldl
          (ReclaimArena.sweepSlot (marked marks) GcObject.byteSize) (h.arena, 0)).1
        used := h.used - ((List.range k).foldl
          (ReclaimArena.sweepSlot (marked marks) GcObject.byteSize) (h.arena, 0)).2 } :=
  GcHeap.foldl_sweepSlot_eq marks h (List.range k) (h.arena, 0)

/-- The subtractions a collection with marks and visited sets `t` makes never saturate: neither
the credits of the two reference arenas nor that of any object the heap's sweep frees. -/
structure SweepExact (s : StoreInner) (t : Tracing) : Prop where
  extern_ : s.freedExtern t ≤ s.gc.used
  exn : s.freedExn t ≤ s.gc.used - s.freedExtern t
  object : ∀ k o,
    entry
      ((((s.gc.credit (s.freedExtern t)).credit (s.freedExn t)).sweepUpTo t.marks k).arena.slots)
      k = some o → marked t.marks k = false →
    o.byteSize ≤ (((s.gc.credit (s.freedExtern t)).credit (s.freedExn t)).sweepUpTo t.marks k).used

/-- What is in use covers every entry that is still there, so no subtraction saturates. -/
theorem Accounted.sweepExact (hs : Accounted s) (t : Tracing) : SweepExact s t := by
  have hextern := s.externrefs.sweep_total (· ∈ t.externSeen) ExternEntry.byteSize
  have hexn := s.exns.sweep_total (· ∈ t.exnSeen) ExnEntity.byteSize
  have hused := hs.used
  unfold StoreInner.charged at hused
  refine ⟨?_, ?_, fun k o ho _ => ?_⟩
  · unfold StoreInner.freedExtern
    omega
  · unfold StoreInner.freedExtern StoreInner.freedExn
    omega
  · rw [GcHeap.sweepUpTo_eq] at ho ⊢
    have htotal := ReclaimArena.foldl_sweepSlot_total (marked t.marks) GcObject.byteSize
      (List.range k) (s.gc.arena, 0)
    have hle := le_total GcObject.byteSize ho
    simp only [GcHeap.credit, StoreInner.freedExtern, StoreInner.freedExn] at htotal hle ⊢
    omega

end SubmilliWasm
