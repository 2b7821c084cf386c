/-
# The space of handles

A handle is a 32-bit index in which the top bit marks an `i31` and one value, the null sentinel,
stands for no reference (`src/store/gc_codec.rs`).  The object heap refuses a fresh slot at the
sentinel (`src/store/gc.rs`); the two reference arenas do not (`src/store/reclaim.rs`), but every
entry of theirs is charged to the byte budget, which is meant to keep their indices well under it.

A fresh slot is taken only while every other slot is occupied, so a budget below 2^37 bytes, that
of 2^31 entries, does keep them there.  The budget grows with what the limiter approves, and a
limiter that approves 2^37 bytes lets an arena hand out the sentinel.
-/
import SubmilliWasm.Exec.Growth
import SubmilliWasm.Store.Codecs

namespace SubmilliWasm

open Slots Fallible

/-! ## What is asked of a store -/

/-- The index of an entry, which is also its handle. -/
def Reached.index : Reached → ℕ
  | .gc i | .extern_ i | .exn i => i

/-- The hierarchy whose handles refer to an entry. -/
def Reached.kind : Reached → RefKind
  | .gc _ => .any
  | .extern_ _ => .extern_
  | .exn _ => .exn

/-- A placement leaves the store as it was, or the new entry has a handle of its own below the
sentinel. -/
def Store.PlacesBelow (s : Store) (entry : ℕ → Reached) (r : Store.Outcome ℕ) : Prop :=
  (∃ e, r = (s, .error e)) ∨
    ∃ i s', r = (s', .ok i) ∧ i < nullRef ∧ ¬ s.inner.Live (entry i) ∧ s'.inner.Live (entry i)

/-- Every live entry has a handle below the sentinel, which reads back as the entry, and the next
placement keeps that. -/
structure Store.HandlesApart (s : Store) : Prop where
  below : ∀ n, s.inner.Live n → n.index < nullRef
  decoded : ∀ n, s.inner.Live n → handleReferent n.kind n.index = some n
  stored : ∀ n, s.inner.Live n →
    readRef n.kind (leNat (leBytes refWidth n.index)) = refVal n.kind (some n.index)
  object : ∀ o, s.PlacesBelow .gc (s.onInner (s.inner.allocGc o))
  objectUnreserved : ∀ o, s.PlacesBelow .gc (s.onInner (s.inner.allocGcUnreserved o))
  externref : ∀ e, s.PlacesBelow .extern_ (s.onInner (s.inner.pushExtern e))
  exn : ∀ e, s.PlacesBelow .exn (s.onInner (s.inner.allocExn e))

/-- The bytes 2^31 entries of a reference arena are charged for. -/
def handleBudget : ℕ := 2 ^ 37

/-- Every reservation the limiter has approved is below the budget. -/
def Store.Affordable (s : Store) : Prop :=
  ∀ c ∈ s.consulted, c.approved = true → c.target < handleBudget

/-! ## What every operation is made of -/

namespace Store

/-- An entry is placed. -/
inductive Placement (s s' : StoreInner) : Reached → Prop where
  | object {o : GcObject} {i : ℕ} (h : s.allocGc o = .ok (i, s')) : Placement s s' (.gc i)
  | externref {e : ExternEntry} {i : ℕ} (h : s.pushExtern e = .ok (i, s')) :
      Placement s s' (.extern_ i)
  | exn {e : ExnEntity} {i : ℕ} (h : s.allocExn e = .ok (i, s')) : Placement s s' (.exn i)

/-- A property of stores that each part of an operation keeps. -/
structure Kept (I : Store → Prop) : Prop where
  collect : ∀ {s : Store} {roots : List (ℕ × RefKind)} {inner : StoreInner}, I s →
    s.inner.collect roots = some (.ok inner) → I { s with inner }
  grant : ∀ {s : Store} {target : ℕ}, I s →
    target ≤ s.inner.gc.reservation ∨ target ≤ abortSafetyCap → I (s.grant target).2
  denied : ∀ {s : Store} (target : ℕ), I s →
    I { s with consulted := ⟨target, false⟩ :: s.consulted }
  approved : ∀ {s : Store} (target : ℕ), I s →
    I (Store.grant { s with consulted := ⟨target, true⟩ :: s.consulted } target).2
  place : ∀ {s : Store} {inner : StoreInner} {n : Reached}, I s → Accounted s.inner →
    Placement s.inner inner n → Event s.inner (some n) inner → I { s with inner }
  write : ∀ {s : Store} (index : ℕ) (data : List UInt8), I s →
    I { s with inner := { s.inner with gc := { s.inner.gc with
      arena := s.inner.gc.arena.update index (GcObject.rewrite data) } } }
  other : ∀ {s : Store} {inner : StoreInner}, I s → inner.gc = s.inner.gc →
    inner.externrefs = s.inner.externrefs → inner.exns = s.inner.exns → I { s with inner }

theorem keeps_andThen {I : Store → Prop} {α β : Type} {r : Outcome α}
    {f : Store → α → Outcome β} (hr : I r.1) (hf : ∀ a, r.2 = .ok a → I (f r.1 a).1) :
    I (r.andThen f).1 := by
  obtain ⟨s', e | a⟩ := r
  · exact hr
  · exact hf a rfl

theorem keeps_onInner {I : Store → Prop} {s : Store} {α : Type} (hs : I s)
    {r : Except StoreError (α × StoreInner)}
    (h : ∀ a inner, r = .ok (a, inner) → I { s with inner }) : I (s.onInner r).1 := by
  rcases r with e | ⟨a, inner⟩
  · exact hs
  · exact h a inner rfl

namespace Kept

variable {I : Store → Prop} (hI : Kept I) {s : Store}

include hI

theorem gcCollect (hs : I s) (roots : List (ℕ × RefKind)) : I (s.gcCollect roots).1 := by
  unfold Store.gcCollect
  split
  · rename_i inner h
    exact hI.collect hs (gcCollect_inner h)
  · exact hs

theorem growWith (hs : I s) (target bytesNeeded : ℕ) (answer : Except StoreError (Option Bool)) :
    I (s.growWith target bytesNeeded answer).1 := by
  unfold Store.growWith
  split
  · exact hs
  · split
    · rename_i hcap
      exact hI.grant hs (Or.inr hcap)
    · exact hs
  · rename_i approved
    cases approved with
    | true => exact hI.approved target hs
    | false => exact hI.denied target hs

theorem growGcReservation (hs : I s) (target bytesNeeded : ℕ) (limiter : Limiter) :
    I (s.growGcReservation target bytesNeeded limiter).1 := by
  unfold Store.growGcReservation
  split
  · exact hs
  · exact hI.growWith hs _ _ _

/-- The flow behind the three reservations. -/
theorem reserveVia {α : Type} (hs : I s) (roots : List (ℕ × RefKind)) (charge : ℕ) (done : α)
    {grow : Store → Outcome α} (hgrow : ∀ {s : Store}, I s → I (grow s).1) :
    I (s.reserveVia roots charge done grow).1 := by
  have hfree : ∀ {s : Store}, I s →
      s.inner.gc.isFreeGrant (s.desiredReservation charge) = true →
        I (s.grant (s.desiredReservation charge)).2 := by
    intro s hs hgranted
    exact hI.grant hs (Or.inl (by simpa [GcHeap.isFreeGrant] using hgranted))
  unfold Store.reserveVia
  split
  · exact hs
  · split
    · rename_i hgranted
      exact hfree hs hgranted
    · refine keeps_andThen (hI.gcCollect hs roots) fun _ _ => ?_
      have hc := hI.gcCollect hs roots
      split
      · exact hc
      · split
        · rename_i hgranted
          exact hfree hc hgranted
        · exact hgrow hc

theorem gcReserve (hs : I s) (roots : List (ℕ × RefKind)) (charge : ℕ) :
    I (s.gcReserve roots charge).1 := by
  rw [gcReserve_eq]
  exact hI.reserveVia hs roots charge none fun h => h

theorem gcReserveHost (hs : I s) (roots : List (ℕ × RefKind)) (charge : ℕ) (limiter : Limiter) :
    I (s.gcReserveHost roots charge limiter).1 := by
  rw [gcReserveHost_eq]
  exact hI.reserveVia hs roots charge () fun h => hI.growGcReservation h _ _ _

theorem gcReserveHostAsync (hs : I s) (roots : List (ℕ × RefKind)) (charge : ℕ)
    (limiter : Limiter) : I (s.gcReserveHostAsync roots charge limiter).1 := by
  rw [gcReserveHostAsync_eq]
  exact hI.reserveVia hs roots charge () fun h => hI.growWith h _ _ _

/-! ### Placements -/

variable {inner : StoreInner}

variable {i : ℕ}

theorem allocGc (hs : I s) (ha : Accounted s.inner) {o : GcObject}
    (hfit : s.inner.gc.used + o.byteSize ≤ usizeMax) (h : s.inner.allocGc o = .ok (i, inner)) :
    I { s with inner } :=
  hI.place hs ha (.object h) (StoreInner.allocGc_event h hfit)

theorem allocGcUnreserved (hs : I s) (ha : Accounted s.inner) {o : GcObject}
    (h : s.inner.allocGcUnreserved o = .ok (i, inner)) : I { s with inner } := by
  have hevent := StoreInner.allocGcUnreserved_event h
  unfold StoreInner.allocGcUnreserved GcHeap.allocUnreserved at h
  split at h
  · exact hI.place hs ha (.object h) hevent
  · nomatch h

theorem pushExtern (hs : I s) (ha : Accounted s.inner) {e : ExternEntry}
    (h : s.inner.pushExtern e = .ok (i, inner)) : I { s with inner } :=
  hI.place hs ha (.externref h) (StoreInner.pushExtern_event h)

theorem allocExn (hs : I s) (ha : Accounted s.inner) {e : ExnEntity}
    (h : s.inner.allocExn e = .ok (i, inner)) : I { s with inner } :=
  hI.place hs ha (.exn h) (StoreInner.allocExn_event h)

/-- An instruction that allocates once its charge is reserved. -/
theorem reserved (hs : I s) (ha : Accounted s.inner) (roots : List (ℕ × RefKind)) {charge : ℕ}
    {f : Store → Outcome ℕ} (hf : ∀ s' : Store, I s' → Accounted s'.inner →
      s'.inner.gc.fits charge = true → I (f s').1) :
    I (Store.reserved (s.gcReserve roots charge) f).1 := by
  have hr := hI.gcReserve hs roots charge
  have hspec := gcReserve_spec ha roots charge
  unfold Store.reserved
  refine keeps_andThen hr fun grow hgrow => ?_
  cases grow with
  | some grow => exact hr
  | none =>
    have hplaced := hf _ hr (hspec.1.accounted ha) (hspec.2 hgrow)
    exact keeps_andThen hplaced fun _ _ => hplaced

theorem guestNew (hs : I s) (ha : Accounted s.inner) (roots : List (ℕ × RefKind)) (op : AllocOp) :
    I (s.guestNew roots op).1 := by
  unfold Store.guestNew
  split
  · exact hs
  · rename_i charge hcharge
    refine hI.reserved hs ha roots fun s' hs' ha' hfits => keeps_onInner hs' fun i inner h => ?_
    obtain ⟨o, ho, hp⟩ := bind_ok_iff.mp h
    rw [← charge_eq_byteSize hcharge ho] at hfits
    exact hI.allocGc hs' ha' (GcHeap.fits_iff.mp hfits).1 hp

theorem guestThrow (hs : I s) (ha : Accounted s.inner) (roots : List (ℕ × RefKind))
    (entity : ExnEntity) : I (s.guestThrow roots entity).1 := by
  unfold Store.guestThrow
  refine hI.reserved hs ha roots fun s' hs' ha' _ => keeps_onInner hs' fun i inner h => ?_
  exact hI.allocExn hs' ha' h

theorem hostNew (hs : I s) (ha : Accounted s.inner) (isAsync : Bool)
    (roots : List (ℕ × RefKind)) (typeId : CanonicalTypeId) (kind : ObjKind) (data : List UInt8)
    (limiter : Limiter) : I (s.hostNew isAsync roots typeId kind data limiter).1 := by
  unfold Store.hostNew
  have hreserve : I (if isAsync = true then
      s.gcReserveHostAsync roots (objectCharge data.length) limiter else
      s.gcReserveHost roots (objectCharge data.length) limiter).1 ∧
      Accounted (if isAsync = true then
      s.gcReserveHostAsync roots (objectCharge data.length) limiter else
      s.gcReserveHost roots (objectCharge data.length) limiter).1.inner := by
    split
    · exact ⟨hI.gcReserveHostAsync hs _ _ _, (s.gcReserveHostAsync_events _ _ _).accounted ha⟩
    · exact ⟨hI.gcReserveHost hs _ _ _, (s.gcReserveHost_events _ _ _).accounted ha⟩
  refine keeps_andThen hreserve.1 fun _ _ => keeps_onInner hreserve.1 fun i inner h => ?_
  obtain ⟨body, hb, hp⟩ := bind_ok_iff.mp h
  obtain ⟨rfl, hroom⟩ := hostBody_ok hb
  refine hI.allocGc hreserve.1 hreserve.2 ?_ hp
  rw [hreserve.2.used, GcObject.byteSize, ← Nat.add_assoc]
  exact hroom

/-- What each part of an operation keeps, the operation keeps. -/
theorem run (hs : I s) (ha : Accounted s.inner) (op : StoreOp) : I (s.run op).1 := by
  have hskip : ∀ {α : Type} {r : Outcome α} {b : Option Alloc}, I r.1 →
      I (r.andThen fun s _ => (s, .ok b)).1 :=
    fun h => keeps_andThen h fun _ _ => h
  cases op with
  | guestNew stackRoots op =>
    have h := hI.guestNew hs ha stackRoots op
    exact keeps_andThen h fun _ _ => h
  | guestThrow stackRoots entity =>
    have h := hI.guestThrow hs ha stackRoots entity
    exact keeps_andThen h fun _ _ => h
  | externConvertAny v =>
    refine hskip (keeps_onInner hs fun v' inner h => ?_)
    rcases StoreInner.externConvertAny_cases h with rfl | ⟨e, i, hp⟩
    · exact hs
    · exact hI.pushExtern hs ha hp
  | anyConvertExtern v =>
    refine hskip (keeps_onInner hs fun v' inner h => ?_)
    rcases StoreInner.anyConvertExtern_cases h with rfl | ⟨o, i, hp⟩
    · exact hs
    · exact hI.allocGcUnreserved hs ha hp
  | growGc grow limiter => exact hskip (hI.growGcReservation hs _ _ _)
  | hostNew isAsync execRoots typeId kind data limiter =>
    exact hskip (hI.hostNew hs ha isAsync execRoots typeId kind data limiter)
  | hostExtern execRoots payload limiter =>
    have h := hI.gcReserveHost hs execRoots arenaEntryOverhead limiter
    have ha' := (s.gcReserveHost_events execRoots arenaEntryOverhead limiter).accounted ha
    exact hskip (keeps_andThen h fun _ _ => keeps_onInner h fun i inner hp =>
      hI.pushExtern h ha' hp)
  | hostExn execRoots entity limiter =>
    have h := hI.gcReserveHost hs execRoots entity.byteSize limiter
    have ha' := (s.gcReserveHost_events execRoots entity.byteSize limiter).accounted ha
    exact hskip (keeps_andThen h fun _ _ => keeps_onInner h fun i inner hp => hI.allocExn h ha' hp)
  | constNew object =>
    exact hskip (keeps_onInner hs fun i inner hp => hI.allocGcUnreserved hs ha hp)
  | writeBody index data => exact hI.write index data hs
  | collect stackRoots => exact hskip (hI.gcCollect hs stackRoots)
  | pushGcRoot handle kind => exact hI.other hs rfl rfl rfl
  | truncateGcRoots mark => exact hI.other hs rfl rfl rfl
  | setEntities engine globals tables elems pendingException => exact hI.other hs rfl rfl rfl

theorem runAll (hs : I s) (ha : Accounted s.inner) (ops : List StoreOp) : I (s.runAll ops) := by
  induction ops generalizing s with
  | nil => exact hs
  | cons op ops ih => exact ih (hI.run hs ha op) ((run_events ha op).accounted ha)

end Kept

/-! ## The budget bounds the indices -/

end Store

namespace ReclaimArena

variable {E : Type}

/-- An allocation takes a fresh slot only if no slot is free. -/
theorem alloc_length (a : ReclaimArena E) (e : E) :
    (a.free ≠ [] → (a.alloc e).2.slots.length = a.slots.length) ∧
      (a.free = [] → (a.alloc e).2.slots.length = a.slots.length + 1) := by
  unfold alloc
  split
  · rename_i index rest hf
    constructor
    · intro _
      exact List.length_set
    · intro hnil
      nomatch hf.symm.trans hnil
  · rename_i hf
    constructor
    · intro hne
      exact absurd hf hne
    · intro _
      exact List.length_append

/-- With no slot free every slot is occupied, so the entries weigh that much at least. -/
theorem le_total_of_full {a : ReclaimArena E} (hfree : a.free = []) {f : E → ℕ} {w : ℕ}
    (hf : ∀ e, w ≤ f e) : a.slots.length * w ≤ total f a.slots := by
  have hfull : ∀ o ∈ a.slots, o ≠ none := by
    intro o ho hnone
    obtain ⟨i, hi, rfl⟩ := List.getElem_of_mem ho
    have hvacant : entry a.slots i = none := by
      rw [entry, List.getElem?_eq_getElem hi, hnone]
      rfl
    have hmem := (a.freeList.mem_iff i).mpr ⟨hi, hvacant⟩
    rw [hfree] at hmem
    cases hmem
  have hweigh : ∀ l : List (Option E), (∀ o ∈ l, o ≠ none) → l.length * w ≤ total f l := by
    intro l hl
    induction l with
    | nil => simp
    | cons o l ih =>
      have hrest := ih fun p hp => hl p (List.mem_cons_of_mem _ hp)
      rw [List.length_cons, Nat.succ_mul, total_cons]
      cases o with
      | none => exact absurd rfl (hl none List.mem_cons_self)
      | some e =>
        have he := hf e
        rw [Option.elim_some]
        omega
  exact hweigh a.slots hfull

theorem sweep_length (a : ReclaimArena E) (live : ℕ → Bool) (w : E → ℕ) :
    (a.sweep live w).1.slots.length = a.slots.length :=
  (foldl_sweepSlot_room live w (List.range a.slots.length) (a, 0)).1

theorem update_length (a : ReclaimArena E) (i : ℕ) (f : E → E) :
    (a.update i f).slots.length = a.slots.length := by
  unfold update
  split
  · rfl
  · exact List.length_set

theorem lt_length_of_get {a : ReclaimArena E} {i : ℕ} (h : a.get i ≠ none) :
    i < a.slots.length := by
  by_contra hlt
  exact h (entry_of_length_le (Nat.le_of_not_lt hlt))

end ReclaimArena

namespace Store

/-- No arena has a slot at the sentinel, and the reservation is below the budget. -/
structure Roomy (s : Store) : Prop where
  gc : s.inner.gc.arena.slots.length ≤ nullRef
  externrefs : s.inner.externrefs.slots.length ≤ nullRef
  exns : s.inner.exns.slots.length ≤ nullRef
  reserved : s.inner.gc.reserved < handleBudget
  reservation : s.inner.gc.reservation ≤ abortSafetyCap

variable {n : Reached} {s : Store} {inner : StoreInner}

theorem Roomy.ceiling (hs : s.Roomy) : s.inner.gc.unreservedCeiling < handleBudget := by
  have hreserved := hs.reserved
  have hreservation := hs.reservation
  unfold GcHeap.unreservedCeiling handleBudget abortSafetyCap at *
  omega

variable {i : ℕ}

/-- An object is placed below the sentinel. -/
theorem Roomy.alloc (hs : s.Roomy) {o : GcObject} (h : s.inner.allocGc o = .ok (i, inner)) :
    inner.gc.arena.slots.length ≤ nullRef := by
  unfold StoreInner.allocGc at h
  cases halloc : s.inner.gc.alloc o with
  | error e =>
    rw [halloc] at h
    nomatch h
  | ok p =>
    rw [halloc] at h
    obtain ⟨-, rfl⟩ := Prod.mk.inj (Except.ok.inj h)
    unfold GcHeap.alloc at halloc
    split at halloc
    · nomatch halloc
    · rename_i hroom
      obtain rfl := Except.ok.inj halloc
      obtain ⟨hkept, hfresh⟩ := s.inner.gc.arena.alloc_length o
      show (s.inner.gc.arena.alloc o).2.slots.length ≤ nullRef
      by_cases hfree : s.inner.gc.arena.free = []
      · rw [hfresh hfree]
        by_contra hlt
        exact hroom ⟨hfree, by omega⟩
      · rw [hkept hfree]
        exact hs.gc

/-- An arena whose entries are charged at least 64 bytes each has fewer than 2^31 of them. -/
theorem arena_room {E : Type} {a : ReclaimArena E} {f : E → ℕ}
    (hf : ∀ e, arenaEntryOverhead ≤ f e) {e : E} (used : ℕ) (hused : total f a.slots ≤ used)
    (hfit : used + f e < handleBudget) (hlen : a.slots.length ≤ nullRef) :
    (a.alloc e).2.slots.length ≤ nullRef := by
  obtain ⟨hkept, hfresh⟩ := a.alloc_length e
  by_cases hfree : a.free = []
  · have hfull := a.le_total_of_full hfree hf
    have he := hf e
    rw [hfresh hfree]
    unfold handleBudget at hfit
    unfold arenaEntryOverhead at hfull he
    unfold nullRef
    omega
  · rw [hkept hfree]
    exact hlen

theorem Roomy.pushExtern (hs : s.Roomy) (ha : Accounted s.inner) {e : ExternEntry}
    (h : s.inner.pushExtern e = .ok (i, inner)) : inner.externrefs.slots.length ≤ nullRef := by
  unfold StoreInner.pushExtern at h
  split at h
  · rename_i hfit
    obtain ⟨-, rfl⟩ := Prod.mk.inj (Except.ok.inj h)
    have hcharged := ha.used
    unfold StoreInner.charged at hcharged
    refine arena_room (f := ExternEntry.byteSize) (fun _ => le_rfl) s.inner.gc.used
      (by omega) ?_ hs.externrefs
    exact lt_of_le_of_lt (GcHeap.canFitLimit_iff.mp hfit).2 hs.ceiling
  · nomatch h

theorem Roomy.allocExn (hs : s.Roomy) (ha : Accounted s.inner) {e : ExnEntity}
    (h : s.inner.allocExn e = .ok (i, inner)) : inner.exns.slots.length ≤ nullRef := by
  unfold StoreInner.allocExn at h
  split at h
  · rename_i hfit
    obtain ⟨-, rfl⟩ := Prod.mk.inj (Except.ok.inj h)
    have hcharged := ha.used
    unfold StoreInner.charged at hcharged
    refine arena_room (f := ExnEntity.byteSize) (fun _ => Nat.le_add_right _ _)
      s.inner.gc.used (by omega) ?_ hs.exns
    exact lt_of_le_of_lt (GcHeap.canFitLimit_iff.mp hfit).2 hs.ceiling
  · nomatch h

/-- An event leaves the lengths of the arenas it does not place in. -/
theorem Roomy.placed (hs : s.Roomy) (ha : Accounted s.inner) (hp : Placement s.inner inner n)
    (hevent : Event s.inner (some n) inner) : Roomy { s with inner } := by
  have hbudget := hevent.sameBudget
  have hreserved : inner.gc.reserved < handleBudget := by
    rw [hbudget.reserved]
    exact hs.reserved
  have hreservation : inner.gc.reservation ≤ abortSafetyCap := by
    rw [hbudget.reservation]
    exact hs.reservation
  cases hp with
  | object h =>
    have hgc := hs.alloc h
    cases hevent with
    | object o _ => exact ⟨hgc, hs.externrefs, hs.exns, hreserved, hreservation⟩
  | externref h =>
    have hexterns := hs.pushExtern ha h
    cases hevent with
    | externref e _ => exact ⟨hs.gc, hexterns, hs.exns, hreserved, hreservation⟩
  | exn h =>
    have hexns := hs.allocExn ha h
    cases hevent with
    | exn e _ => exact ⟨hs.gc, hs.externrefs, hexns, hreserved, hreservation⟩

/-- A collection frees slots and takes none away. -/
theorem Roomy.collect {s : Store} (hs : s.Roomy) {roots : List (ℕ × RefKind)}
    {inner : StoreInner} (h : s.inner.collect roots = some (.ok inner)) :
    Roomy { s with inner } := by
  by_cases hc : s.inner.gc.collecting = true
  · obtain ⟨t, -, rfl⟩ := collect_ok hc h
    refine ⟨?_, ?_, ?_, hs.reserved, hs.reservation⟩
    · exact le_trans (le_of_eq (ReclaimArena.sweep_length _ _ _)) hs.gc
    · exact le_trans (le_of_eq (ReclaimArena.sweep_length _ _ _)) hs.externrefs
    · exact le_trans (le_of_eq (ReclaimArena.sweep_length _ _ _)) hs.exns
  · rw [StoreInner.collect, if_pos (by simpa using hc)] at h
    exact Except.ok.inj (Option.some.inj h) ▸ hs

/-- As long as the limiter approves no reservation beyond the budget, the arenas have room. -/
theorem kept_roomy : Kept fun s => s.Affordable → s.Roomy where
  collect hs h := fun hc => (hs hc).collect h
  grant {s target} hs htarget := fun hc => by
    have hroom := hs hc
    have hcap := hroom.reservation
    refine ⟨hroom.gc, hroom.externrefs, hroom.exns, ?_, hcap⟩
    show target < handleBudget
    unfold abortSafetyCap at hcap htarget
    unfold handleBudget
    omega
  denied target hs := fun hc => by
    have hroom := hs fun c hmem => hc c (List.mem_cons_of_mem _ hmem)
    exact ⟨hroom.gc, hroom.externrefs, hroom.exns, hroom.reserved, hroom.reservation⟩
  approved target hs := fun hc => by
    have hroom := hs fun c hmem => hc c (List.mem_cons_of_mem _ hmem)
    have htarget : target < handleBudget := hc ⟨target, true⟩ List.mem_cons_self rfl
    exact ⟨hroom.gc, hroom.externrefs, hroom.exns, htarget, hroom.reservation⟩
  place hs ha hp hevent := fun hc => (hs hc).placed ha hp hevent
  write index data hs := fun hc => by
    have hroom := hs hc
    refine ⟨?_, hroom.externrefs, hroom.exns, hroom.reserved, hroom.reservation⟩
    exact le_trans (le_of_eq (ReclaimArena.update_length _ _ _)) hroom.gc
  other {s inner} hs hgc hexterns hexns := fun hc => by
    have hroom := hs hc
    constructor
    · rw [hgc]
      exact hroom.gc
    · rw [hexterns]
      exact hroom.externrefs
    · rw [hexns]
      exact hroom.exns
    · rw [hgc]
      exact hroom.reserved
    · rw [hgc]
      exact hroom.reservation

/-! ## What room is good for -/

theorem Roomy.below (hs : s.Roomy) (h : s.inner.Live n) : n.index < nullRef := by
  cases n with
  | gc i => exact lt_of_lt_of_le (ReclaimArena.lt_length_of_get h) hs.gc
  | extern_ i => exact lt_of_lt_of_le (ReclaimArena.lt_length_of_get h) hs.externrefs
  | exn i => exact lt_of_lt_of_le (ReclaimArena.lt_length_of_get h) hs.exns

/-- A handle below the sentinel is decoded to its entry. -/
theorem handleReferent_index (h : n.index < nullRef) : handleReferent n.kind n.index = some n := by
  have hne : n.index ≠ nullRef := Nat.ne_of_lt h
  unfold handleReferent
  rw [if_neg hne]
  cases n with
  | gc i =>
    have htag : i < i31Tag := lt_trans h (by decide)
    have hslot : decodeAnyrefHandle i = .slot i := if_pos htag
    dsimp only [Reached.kind, Reached.index]
    rw [hslot]
  | extern_ i => rfl
  | exn i => rfl

/-- A handle below the sentinel survives being stored. -/
theorem readRef_index (h : n.index < nullRef) :
    readRef n.kind (leNat (leBytes refWidth n.index)) = refVal n.kind (some n.index) := by
  refine readRef_handle (r := some n.index) fun x hx => ?_
  obtain rfl := Option.some.inj hx
  exact ⟨lt_trans h (by decide), Nat.ne_of_lt h⟩

theorem placesBelow {entry : ℕ → Reached} {r : Except StoreError (ℕ × StoreInner)}
    (h : ∀ i inner, r = .ok (i, inner) →
      i < nullRef ∧ ¬ s.inner.Live (entry i) ∧ inner.Live (entry i)) :
    s.PlacesBelow entry (s.onInner r) := by
  rcases hr : r with e | ⟨i, inner⟩
  · exact Or.inl ⟨e, rfl⟩
  · exact Or.inr ⟨i, _, rfl, h i inner hr⟩

/-- A placement fills a slot that was empty. -/
theorem Event.places {s s' : StoreInner} (h : Event s (some n) s') : ¬ s.Live n ∧ s'.Live n := by
  cases h.change n with
  | filled _ hfree hlive _ => exact ⟨hfree, hlive⟩
  | freed hn _ _ _ => exact absurd rfl hn
  | kept hn _ _ => exact absurd rfl hn

theorem allocGc_places {s s' : StoreInner} {o : GcObject} (h : s.allocGc o = .ok (i, s')) :
    ¬ s.Live (.gc i) ∧ s'.Live (.gc i) := by
  unfold StoreInner.allocGc at h
  cases halloc : s.gc.alloc o with
  | error e =>
    rw [halloc] at h
    nomatch h
  | ok p =>
    obtain ⟨index, gc⟩ := p
    rw [halloc] at h
    obtain ⟨rfl, rfl⟩ := Prod.mk.inj (Except.ok.inj h)
    obtain ⟨rfl, rfl⟩ := GcHeap.alloc_ok halloc
    constructor
    · exact not_not.mpr (s.gc.arena.alloc_fresh o)
    · exact (alloc_live _ o _).mpr (Or.inl rfl)

/-- In a store with room the handles are apart. -/
theorem Roomy.apart (hs : s.Roomy) (ha : Accounted s.inner) : s.HandlesApart where
  below _ := hs.below
  decoded _ h := handleReferent_index (hs.below h)
  stored _ h := readRef_index (hs.below h)
  object o := by
    refine placesBelow fun i inner h => ?_
    obtain ⟨hfree, hlive⟩ := allocGc_places h
    exact ⟨lt_of_lt_of_le (ReclaimArena.lt_length_of_get hlive) (hs.alloc h), hfree, hlive⟩
  objectUnreserved o := by
    refine placesBelow fun i inner h => ?_
    unfold StoreInner.allocGcUnreserved GcHeap.allocUnreserved at h
    split at h
    · obtain ⟨hfree, hlive⟩ := allocGc_places h
      exact ⟨lt_of_lt_of_le (ReclaimArena.lt_length_of_get hlive) (hs.alloc h), hfree, hlive⟩
    · nomatch h
  externref e := by
    refine placesBelow fun i inner h => ?_
    obtain ⟨hfree, hlive⟩ := Event.places (StoreInner.pushExtern_event h)
    exact ⟨lt_of_lt_of_le (ReclaimArena.lt_length_of_get hlive) (hs.pushExtern ha h), hfree, hlive⟩
  exn e := by
    refine placesBelow fun i inner h => ?_
    obtain ⟨hfree, hlive⟩ := Event.places (StoreInner.allocExn_event h)
    exact ⟨lt_of_lt_of_le (ReclaimArena.lt_length_of_get hlive) (hs.allocExn ha h), hfree, hlive⟩

theorem roomy_new (engine : TypeRegistry) (collecting : Bool) (reservation : ℕ) :
    (Store.new engine collecting reservation).Roomy :=
  ⟨Nat.zero_le _, Nat.zero_le _, Nat.zero_le _, Nat.two_pow_pos 37, min_le_right _ _⟩

/-! ## A limiter that approves 2^37 bytes -/

/-- The embedder makes an externref, and the limiter approves what it takes. -/
def approvedExtern : StoreOp := .hostExtern [] 0 (.sync (.ok true))

/-- An allocate-only store with `n` externrefs and nothing else, whose reservation covers `m` of
them and is a whole number of growth steps, the last of which they need. -/
structure Filled (n m : ℕ) (s : Store) : Prop where
  slots : s.inner.externrefs.slots.length = n
  free : s.inner.externrefs.free = []
  used : s.inner.gc.used = n * 64
  collecting : s.inner.gc.collecting = false
  reservation : s.inner.gc.reservation = 0
  nextGrow : s.nextGrow = 65536
  steps : ∃ k, s.inner.gc.reserved = k * 65536
  covers : m * 64 ≤ s.inner.gc.reserved
  least : s.inner.gc.reserved < m * 64 + 65536
  approved : ∀ c ∈ s.consulted, c.approved = true ∧ c.target ≤ s.inner.gc.reserved

theorem filled_new (engine : TypeRegistry) : Filled 0 0 (Store.new engine false 0) where
  slots := rfl
  free := rfl
  used := rfl
  collecting := rfl
  reservation := rfl
  nextGrow := rfl
  steps := ⟨0, rfl⟩
  covers := Nat.zero_le _
  least := show 0 < 0 * 64 + 65536 by decide
  approved c hc := (nomatch hc)

/-- The reservation for one more entry: it fits, or one growth step is approved. -/
theorem Filled.reserve {n : ℕ} (hs : Filled n n s) (hn : n < 2 ^ 31) :
    ∃ s', s.gcReserveHost [] arenaEntryOverhead (.sync (.ok true)) = (s', .ok ()) ∧
      Filled n (n + 1) s' := by
  obtain ⟨k, hk⟩ := hs.steps
  have hcovers := hs.covers
  have hleast := hs.least
  have hused := hs.used
  have hstep := hs.nextGrow
  rw [show arenaEntryOverhead = 64 from rfl, gcReserveHost_eq, Store.reserveVia]
  by_cases hfits : s.inner.gc.fits 64 = true
  · have hfit := (GcHeap.fits_iff.mp hfits).2
    rw [if_pos hfits]
    refine ⟨s, rfl, hs.slots, hs.free, hs.used, hs.collecting, hs.reservation, hs.nextGrow,
      hs.steps, ?_, ?_, hs.approved⟩
    · omega
    · omega
  · -- All of the reservation is used, so the limiter is asked for one step more.
    have hfull : s.inner.gc.reserved = n * 64 := by
      have hno : ¬ (s.inner.gc.used + 64 ≤ usizeMax ∧
          s.inner.gc.used + 64 ≤ s.inner.gc.reserved) := fun h => hfits (GcHeap.fits_iff.mpr h)
      unfold usizeMax at hno
      omega
    have htarget : s.desiredReservation 64 = n * 64 + 65536 := by
      unfold desiredReservation saturatingAdd usizeMax
      omega
    have hbeyond : ¬ s.inner.gc.isFreeGrant (n * 64 + 65536) = true := by
      unfold GcHeap.isFreeGrant
      rw [hs.reservation, decide_eq_true_iff]
      omega
    have hgrow : ¬ n * 64 + 65536 ≤ s.inner.gc.reserved := by omega
    have hdouble : min (saturatingMul s.nextGrow 2) (max s.inner.gc.reservation reserveBatch) =
        65536 := by
      rw [hstep, hs.reservation]
      decide
    rw [if_neg hfits, htarget, if_neg hbeyond, gcCollect_null hs.collecting]
    dsimp only [Outcome.andThen]
    rw [if_neg hfits, htarget, if_neg hbeyond, growGcReservation, if_neg hgrow]
    refine ⟨_, rfl, hs.slots, hs.free, hs.used, hs.collecting, hs.reservation, hdouble,
      ⟨k + 1, ?_⟩, ?_, ?_, ?_⟩
    · show n * 64 + 65536 = (k + 1) * 65536
      omega
    · show (n + 1) * 64 ≤ n * 64 + 65536
      omega
    · show n * 64 + 65536 < (n + 1) * 64 + 65536
      omega
    · intro c hc
      show c.approved = true ∧ c.target ≤ n * 64 + 65536
      rcases List.mem_cons.mp hc with rfl | hc
      · exact ⟨rfl, le_rfl⟩
      · obtain ⟨happroved, hle⟩ := hs.approved c hc
        exact ⟨happroved, by omega⟩

/-- One more externref takes the next index. -/
theorem Filled.next {n : ℕ} (hs : Filled n n s) (hn : n < 2 ^ 31) :
    Filled (n + 1) (n + 1) (s.run approvedExtern).1 ∧
      (s.run approvedExtern).1.inner.Live (.extern_ n) := by
  obtain ⟨s', hreserve, hs'⟩ := hs.reserve hn
  have hfit : s'.inner.gc.canFitLimit 64 = true := by
    have hcovers := hs'.covers
    have hused := hs'.used
    rw [GcHeap.canFitLimit_iff]
    unfold GcHeap.unreservedCeiling usizeMax
    omega
  have hcharge : saturatingAdd s'.inner.gc.used 64 = (n + 1) * 64 := by
    have hused := hs'.used
    unfold saturatingAdd usizeMax
    omega
  have hplaced : (s.run approvedExtern).1 =
      { s' with inner := { s'.inner with
          gc := s'.inner.gc.charge 64
          externrefs := (s'.inner.externrefs.alloc (.host 0)).2 } } := by
    show ((s.gcAllocExternref [] 0 (.sync (.ok true))).andThen _).1 = _
    rw [gcAllocExternref, hreserve]
    show ((s'.onInner (s'.inner.pushExtern (.host 0))).andThen _).1 = _
    rw [StoreInner.pushExtern]
    have hcan : s'.inner.gc.canFitLimit (ExternEntry.byteSize (.host 0)) = true := hfit
    rw [if_pos hcan]
    rfl
  have hindex : (s'.inner.externrefs.alloc (.host 0)).1 = n ∧
      (s'.inner.externrefs.alloc (.host 0)).2.free = [] := by
    unfold ReclaimArena.alloc
    split
    · rename_i index rest hf
      nomatch hs'.free.symm.trans hf
    · exact ⟨hs'.slots, hs'.free⟩
  rw [hplaced]
  constructor
  · refine ⟨?_, hindex.2, hcharge, hs'.collecting, hs'.reservation, hs'.nextGrow, hs'.steps,
      hs'.covers, hs'.least, hs'.approved⟩
    show (s'.inner.externrefs.alloc (.host 0)).2.slots.length = n + 1
    rw [(s'.inner.externrefs.alloc_length (.host 0)).2 hs'.free, hs'.slots]
  · show (s'.inner.externrefs.alloc (.host 0)).2.get n ≠ none
    rw [ReclaimArena.alloc_get, if_pos hindex.1.symm]
    exact Option.some_ne_none _

/-- The store after `n` externrefs. -/
theorem filled_run (engine : TypeRegistry) {n : ℕ} (hn : n ≤ 2 ^ 31) :
    Filled n n ((Store.new engine false 0).runAll (List.replicate n approvedExtern)) := by
  induction n with
  | zero => exact filled_new engine
  | succ n ih =>
    have hstep := (ih (by omega)).next (by omega)
    rw [List.replicate_succ', runAll, List.foldl_append]
    exact hstep.1

theorem Filled.reserved_le {n : ℕ} (hs : Filled n n s) (hn : n ≤ 2 ^ 31) :
    s.inner.gc.reserved ≤ handleBudget := by
  obtain ⟨k, hk⟩ := hs.steps
  have hleast := hs.least
  unfold handleBudget
  omega

/-- The last of them is live, at the index they number. -/
theorem last_live (engine : TypeRegistry) {n : ℕ} (hn : n < 2 ^ 31) :
    ((Store.new engine false 0).runAll (List.replicate (n + 1) approvedExtern)).inner.Live
      (.extern_ n) := by
  have hs := filled_run engine (Nat.le_of_lt hn)
  rw [List.replicate_succ', runAll, List.foldl_append]
  exact (hs.next hn).2

/-- The 2^31-st externref gets the null sentinel for a handle; the limiter has approved nothing
beyond 2^37 bytes. -/
theorem sentinel_live (engine : TypeRegistry) :
    ∃ ops : List StoreOp,
      (∀ c ∈ ((Store.new engine false 0).runAll ops).consulted,
        c.approved = true ∧ c.target ≤ handleBudget) ∧
      ((Store.new engine false 0).runAll ops).inner.Live (.extern_ nullRef) := by
  have hcount : nullRef < 2 ^ 31 := by decide
  refine ⟨List.replicate (nullRef + 1) approvedExtern, ?_, last_live engine hcount⟩
  have hs := filled_run engine hcount
  intro c hc
  obtain ⟨happroved, hle⟩ := hs.approved c hc
  exact ⟨happroved, le_trans hle (hs.reserved_le hcount)⟩

/-! ## The space of handles -/

/-- **The handles stay apart within the budget.**  In every state of a history in which the limiter
approves no reservation of 2^37 bytes or more, every live entry has a handle of its own below the
sentinel; and no larger bound on what a limiter approves would do. -/
theorem handles_apart (engine : TypeRegistry) :
    (∀ (collecting : Bool) (reservation : ℕ) (ops : List StoreOp),
      ((Store.new engine collecting reservation).runAll ops).Affordable →
        ((Store.new engine collecting reservation).runAll ops).HandlesApart) ∧
    ∀ limit, handleBudget ≤ limit → ∃ ops : List StoreOp,
      (∀ c ∈ ((Store.new engine false 0).runAll ops).consulted,
        c.approved = decide (c.target ≤ limit)) ∧
      ¬ ((Store.new engine false 0).runAll ops).HandlesApart := by
  constructor
  · intro collecting reservation ops hafford
    have hnew : Accounted (Store.new engine collecting reservation).inner :=
      accounted_new engine collecting reservation
    have hroom := kept_roomy.runAll (fun _ => roomy_new engine collecting reservation) hnew ops
    exact (hroom hafford).apart ((runAll_events hnew ops).accounted hnew)
  · intro limit hlimit
    obtain ⟨ops, hconsulted, hlive⟩ := sentinel_live engine
    refine ⟨ops, fun c hc => ?_, fun h => absurd (h.below _ hlive) (lt_irrefl nullRef)⟩
    obtain ⟨happroved, hle⟩ := hconsulted c hc
    rw [happroved, decide_eq_true (le_trans hle hlimit)]

instance (s : Store) : Decidable s.Affordable := inferInstanceAs (Decidable (∀ c ∈ _, _))

theorem handles_apart_two :
    ((Store.new TypeRegistry.empty false 0).runAll
      [approvedExtern, approvedExtern]).HandlesApart :=
  (handles_apart TypeRegistry.empty).1 _ _ _ (by decide +kernel)

/-- Not in every history: a limiter may approve as much as 2^31 externrefs take. -/
theorem not_handles_apart : ¬ ∀ (engine : TypeRegistry) (collecting : Bool) (reservation : ℕ)
    (ops : List StoreOp),
    ((Store.new engine collecting reservation).runAll ops).HandlesApart := by
  intro h
  obtain ⟨ops, -, hlive⟩ := sentinel_live TypeRegistry.empty
  exact absurd ((h TypeRegistry.empty false 0 ops).below _ hlive) (lt_irrefl nullRef)

end Store

end SubmilliWasm
