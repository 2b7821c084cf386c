/-
# Growth against a bound

The reservation of a store is bounded by the abort cap, or by a limiter that approves exactly the
reservations up to some limit.  The three reservation flows (`gc_reserve` of
`src/exec/collect.rs`, `gc_reserve_host` and `gc_reserve_host_async` of `src/store/grow.rs`) are
one flow with different ends, and what they ask for is a step beyond the current reservation, not
the bytes needed.  So an allocation that the bound admits goes through exactly when the charge
fits the reservation after a collection, or that step is within the free budget or the bound.
-/
import SubmilliWasm.Exec.Gating

namespace SubmilliWasm

open Fallible

/-! ## A free handle survives a collection -/

namespace ReclaimArena

variable {E : Type}

theorem sweepSlot_room (live : ℕ → Bool) (w : E → ℕ) (p : ReclaimArena E × ℕ) (i : ℕ) :
    (sweepSlot live w p i).1.slots.length = p.1.slots.length ∧
    (p.1.free ≠ [] → (sweepSlot live w p i).1.free ≠ []) := by
  rcases h : Slots.entry p.1.slots i with _ | e
  · rw [sweepSlot_empty live w h]
    exact ⟨rfl, id⟩
  · by_cases hl : live i = true
    · rw [sweepSlot_kept w hl]
      exact ⟨rfl, id⟩
    · rw [sweepSlot_freed w h hl]
      exact ⟨freeSlot_length _ _ h, fun _ => List.cons_ne_nil _ _⟩

theorem foldl_sweepSlot_room (live : ℕ → Bool) (w : E → ℕ) (is : List ℕ)
    (p : ReclaimArena E × ℕ) :
    (is.foldl (sweepSlot live w) p).1.slots.length = p.1.slots.length ∧
    (p.1.free ≠ [] → (is.foldl (sweepSlot live w) p).1.free ≠ []) := by
  induction is generalizing p with
  | nil => exact ⟨rfl, id⟩
  | cons i is ih =>
    obtain ⟨hlen, hfree⟩ := sweepSlot_room live w p i
    obtain ⟨hlen', hfree'⟩ := ih (sweepSlot live w p i)
    exact ⟨hlen'.trans hlen, fun h => hfree' (hfree h)⟩

end ReclaimArena

/-- An object can still be given a handle. -/
def StoreInner.HandleLeft (s : StoreInner) : Prop :=
  s.gc.arena.free ≠ [] ∨ s.gc.arena.slots.length < nullRef

instance (s : StoreInner) : Decidable s.HandleLeft := inferInstanceAs (Decidable (_ ∨ _))

theorem StoreInner.HandleLeft.collect {s s' : StoreInner} {stackRoots : List (ℕ × RefKind)}
    (hs : s.HandleLeft) (h : s.collect stackRoots = some (.ok s')) : s'.HandleLeft := by
  by_cases hc : s.gc.collecting = true
  · obtain ⟨t, -, rfl⟩ := collect_ok hc h
    have hroom := ReclaimArena.foldl_sweepSlot_room (marked t.marks) GcObject.byteSize
      (List.range s.gc.arena.slots.length) (s.gc.arena, 0)
    change (s.gc.arena.sweep (marked t.marks) GcObject.byteSize).1.slots.length =
      s.gc.arena.slots.length ∧ (s.gc.arena.free ≠ [] →
        (s.gc.arena.sweep (marked t.marks) GcObject.byteSize).1.free ≠ []) at hroom
    exact hs.imp hroom.2 fun hlt => hroom.1.trans_lt hlt
  · rw [StoreInner.collect, if_pos (by simpa using hc)] at h
    exact Except.ok.inj (Option.some.inj h) ▸ hs

namespace Store

/-! ## Bounds -/

/-- What bounds the reservation of a store: the abort cap, without a limiter, or a limiter that
approves exactly the reservations up to `limit`. -/
inductive Bound where
  | abortCap
  | limiter (isAsync : Bool) (limit : ℕ)
  deriving DecidableEq, Repr

def Bound.limit : Bound → ℕ
  | .abortCap => abortSafetyCap
  | .limiter _ limit => limit

/-- The store's limiter, with its answer to a request for `target` bytes. -/
def Bound.asked (target : ℕ) : Bound → Limiter
  | .abortCap => .none
  | .limiter false limit => .sync (.ok (target ≤ limit))
  | .limiter true limit => .async (.ok (target ≤ limit))

/-- Whether a synchronous path can consult the limiter. -/
def Bound.isSync : Bound → Bool
  | .limiter true _ => false
  | _ => true

/-! ## Allocations -/

/-- An allocation that reserves first: an instruction or a host constructor, once its operands
are checked. -/
inductive Allocation where
  | guestNew (op : AllocOp)
  | guestThrow (entity : ExnEntity)
  | hostNew (isAsync : Bool) (typeId : CanonicalTypeId) (kind : ObjKind) (data : List UInt8)
  | hostExtern (payload : ℕ)
  | hostExn (entity : ExnEntity)

namespace Allocation

/-- The bytes reserved. -/
def charge : Allocation → Except StoreError ℕ
  | .guestNew op => op.charge
  | .guestThrow entity => .ok (exnCharge entity.args.length)
  | .hostNew _ _ _ data => .ok (objectCharge data.length)
  | .hostExtern _ => .ok arenaEntryOverhead
  | .hostExn entity => .ok entity.byteSize

/-- What is done once the charge is reserved. -/
def place (s : Store) : Allocation → Outcome ℕ
  | .guestNew op => s.onInner (s.inner.buildObject op >>= s.inner.allocGc)
  | .guestThrow entity => s.onInner (s.inner.allocExn entity)
  | .hostNew _ typeId kind data =>
    s.onInner (s.hostBody data >>= fun data => s.inner.allocGc ⟨typeId, kind, data⟩)
  | .hostExtern payload => s.onInner (s.inner.allocExternref payload)
  | .hostExn entity => s.onInner (s.inner.allocExn entity)

/-- Whether the limiter can be consulted on the allocation's path: an async limiter only by the
constructors that await it. -/
def canAsk (b : Bound) : Allocation → Bool
  | .hostNew true _ _ _ => true
  | _ => b.isSync

end Allocation

/-- The driver around an allocating instruction: a suspended growth is put to the limiter and the
instruction executed again.  `none` when `fuel` runs out. -/
def driveAlloc (b : Bound) (attempt : Store → Outcome Alloc) : ℕ → Store → Option (Outcome ℕ)
  | 0, _ => none
  | fuel + 1, s =>
    match attempt s with
    | (s, .error e) => some (s, .error e)
    | (s, .ok (.placed index)) => some (s, .ok index)
    | (s, .ok (.gcGrow grow)) =>
      match s.growGcReservation grow.reservedTarget grow.bytesNeeded
          (b.asked grow.reservedTarget) with
      | (s, .error e) => some (s, .error e)
      | (s, .ok ()) => driveAlloc b attempt fuel s

/-- What a host constructor's reservation asks for when it asks: it has collected by then. -/
def askedTarget (s : Store) (roots : List (ℕ × RefKind)) (charge : ℕ) : ℕ :=
  (s.gcCollect roots).1.desiredReservation charge

/-- The whole of an allocation in a store bounded by `b`; `roots` are the references the
execution holds. -/
def allocate (s : Store) (b : Bound) (roots : List (ℕ × RefKind)) (fuel : ℕ) :
    Allocation → Option (Outcome ℕ)
  | .guestNew op => driveAlloc b (·.guestNew roots op) fuel s
  | .guestThrow entity => driveAlloc b (·.guestThrow roots entity) fuel s
  | .hostNew isAsync typeId kind data =>
    some (s.hostNew isAsync roots typeId kind data
      (b.asked (s.askedTarget roots (objectCharge data.length))))
  | .hostExtern payload =>
    some (s.gcAllocExternref roots payload (b.asked (s.askedTarget roots arenaEntryOverhead)))
  | .hostExn entity =>
    some (s.gcAllocExn roots entity (b.asked (s.askedTarget roots entity.byteSize)))

/-! ## The one flow behind the three reservations -/

/-- What the reservations have in common: the charge fits or is granted within the free budget,
before a collection or after it; what else is left to `grow`. -/
def reserveVia {α : Type} (s : Store) (roots : List (ℕ × RefKind)) (charge : ℕ) (done : α)
    (grow : Store → Outcome α) : Outcome α :=
  if s.inner.gc.fits charge then (s, .ok done)
  else if s.inner.gc.isFreeGrant (s.desiredReservation charge) then
    ((s.grant (s.desiredReservation charge)).2, .ok done)
  else (s.gcCollect roots).andThen fun s _ =>
    if s.inner.gc.fits charge then (s, .ok done)
    else if s.inner.gc.isFreeGrant (s.desiredReservation charge) then
      ((s.grant (s.desiredReservation charge)).2, .ok done)
    else grow s

variable {s : Store} {charge : ℕ}

/-- An allocate-only store collects nothing. -/
theorem gcCollect_null (hc : s.inner.gc.collecting = false) (roots : List (ℕ × RefKind)) :
    s.gcCollect roots = (s, .ok ()) := by
  have h : s.inner.gcCollect roots = .ok s.inner := by
    have h := StoreInner.collect_eq_gcCollect s.inner roots
    rw [StoreInner.collect, if_pos hc] at h
    exact (Option.some.inj h).symm
  unfold gcCollect
  rw [h]

/-- A reservation written with the collector's guard is the common flow. -/
theorem reserveVia_eq {α : Type} (s : Store) (roots : List (ℕ × RefKind)) (charge : ℕ) (done : α)
    (grow : Store → Outcome α) (finish : Store → Outcome α)
    (hfinish : ∀ s : Store, finish s =
      if s.inner.gc.isFreeGrant (s.desiredReservation charge) then
        ((s.grant (s.desiredReservation charge)).2, .ok done)
      else grow s) :
    (if s.inner.gc.fits charge then (s, .ok done)
      else if !s.inner.gc.isFreeGrant (s.desiredReservation charge) && s.inner.gc.collecting then
        (s.gcCollect roots).andThen fun s _ =>
          if s.inner.gc.fits charge then (s, .ok done) else finish s
      else finish s) = s.reserveVia roots charge done grow := by
  unfold reserveVia
  by_cases hfits : s.inner.gc.fits charge = true
  · rw [if_pos hfits, if_pos hfits]
  · rw [if_neg hfits, if_neg hfits]
    by_cases hfree : s.inner.gc.isFreeGrant (s.desiredReservation charge) = true
    · rw [if_neg (by simp [hfree]), if_pos hfree, hfinish, if_pos hfree]
    · rw [if_neg hfree]
      by_cases hc : s.inner.gc.collecting = true
      · rw [if_pos (by simp [hfree, hc])]
        congr 1
        funext s' _
        rw [hfinish]
      · rw [if_neg (by simp [hc]), gcCollect_null (by simpa using hc)]
        show finish s = if s.inner.gc.fits charge = true then _ else _
        rw [if_neg hfits, hfinish]

theorem gcReserve_eq (s : Store) (roots : List (ℕ × RefKind)) (charge : ℕ) :
    s.gcReserve roots charge = s.reserveVia roots charge none
      fun s => (s, .ok (some ⟨s.desiredReservation charge, charge⟩)) :=
  s.reserveVia_eq roots charge none _ (·.reserveGrow charge) fun _ => rfl

theorem gcReserveHost_eq (s : Store) (roots : List (ℕ × RefKind)) (charge : ℕ)
    (limiter : Limiter) :
    s.gcReserveHost roots charge limiter = s.reserveVia roots charge ()
      fun s => s.growGcReservation (s.desiredReservation charge) charge limiter :=
  s.reserveVia_eq roots charge () _ (·.reserveHostGrow charge limiter) fun _ => rfl

theorem gcReserveHostAsync_eq (s : Store) (roots : List (ℕ × RefKind)) (charge : ℕ)
    (limiter : Limiter) :
    s.gcReserveHostAsync roots charge limiter = s.reserveVia roots charge ()
      fun s => s.growWith (s.desiredReservation charge) charge limiter.askAsync :=
  s.reserveVia_eq roots charge () _ (·.reserveHostGrowAsync charge limiter) fun _ => rfl

/-! ## What the flow comes to -/

/-- The next reservation a store would ask for, were its charge small. -/
def nextStep (s : Store) : ℕ := saturatingAdd s.inner.gc.reserved s.nextGrow

/-- `s'` is `s` after a collection or a grant, with room for `charge` bytes. -/
structure Reserved (charge : ℕ) (s s' : Store) : Prop where
  fits : s'.inner.gc.fits charge = true
  events : Events s.inner s'.inner
  handleLeft : s.inner.HandleLeft → s'.inner.HandleLeft

/-- The charge goes through without the limiter: it fits the reservation beside the `live` bytes,
or the next step is within the free budget and covers it or it does. -/
def WithinBudget (s : Store) (live charge : ℕ) : Prop :=
  live + charge ≤ s.inner.gc.reserved ∨
    (s.nextStep ≤ s.inner.gc.reservation ∧ live + charge ≤ s.inner.gc.reservation)

section

variable {s : Store} {roots : List (ℕ × RefKind)} {charge : ℕ} {inner : StoreInner}

theorem isFreeGrant_iff (hsum : s.inner.gc.used + charge ≤ usizeMax) :
    s.inner.gc.isFreeGrant (s.desiredReservation charge) = true ↔
      s.nextStep ≤ s.inner.gc.reservation ∧
      s.inner.gc.used + charge ≤ s.inner.gc.reservation := by
  unfold GcHeap.isFreeGrant desiredReservation
  rw [saturatingAdd_eq hsum, decide_eq_true_iff]
  exact max_le_iff

theorem reserved_grant (hs : Accounted s.inner)
    (h : s.inner.gc.isFreeGrant (s.desiredReservation charge) = true) :
    Reserved charge s (s.grant (s.desiredReservation charge)).2 :=
  ⟨fits_of_isFreeGrant hs h, s.grant_events _, id⟩

/-- A free grant covers the charge, so its sum has not saturated. -/
theorem sum_le_of_isFreeGrant (hs : Accounted s.inner)
    (h : s.inner.gc.isFreeGrant (s.desiredReservation charge) = true) :
    s.inner.gc.used + charge ≤ usizeMax :=
  (GcHeap.fits_iff.mp (fits_of_isFreeGrant hs h)).1

/-- Within the budget the flow ends without its growth. -/
theorem reserveVia_within {α : Type} (hs : Accounted s.inner)
    (hlive : s.inner.gcCollect roots = .ok inner) (hsum : inner.gc.used + charge ≤ usizeMax)
    (hw : s.WithinBudget inner.gc.used charge) (done : α) (grow : Store → Outcome α) :
    ∃ s', s.reserveVia roots charge done grow = (s', .ok done) ∧ Reserved charge s s' := by
  unfold reserveVia
  by_cases hfits : s.inner.gc.fits charge = true
  · rw [if_pos hfits]
    exact ⟨s, rfl, hfits, Events.refl _, id⟩
  · rw [if_neg hfits]
    by_cases hfree : s.inner.gc.isFreeGrant (s.desiredReservation charge) = true
    · rw [if_pos hfree]
      exact ⟨_, rfl, reserved_grant hs hfree⟩
    · rw [if_neg hfree]
      have hcollect := gcCollect_inner hlive
      have hbudget := collect_sameBudget hcollect
      have hevents : Events s.inner inner := Events.single (Event.collect roots hcollect)
      have hc : s.gcCollect roots = ({ s with inner }, .ok ()) := by
        unfold gcCollect
        rw [hlive]
      rw [hc]
      show ∃ s', (if inner.gc.fits charge = true then _ else _) = _ ∧ _
      by_cases hfits' : inner.gc.fits charge = true
      · rw [if_pos hfits']
        exact ⟨_, rfl, hfits', hevents, fun h => h.collect hcollect⟩
      · rw [if_neg hfits']
        -- It does not fit the reservation, so the next step is free.
        have hfree' : inner.gc.isFreeGrant
            (desiredReservation { s with inner } charge) = true := by
          refine (isFreeGrant_iff (s := { s with inner }) hsum).mpr ?_
          rcases hw with hw | hw
          · refine absurd (GcHeap.fits_iff.mpr ⟨hsum, ?_⟩) hfits'
            rw [hbudget.reserved]
            exact hw
          · unfold nextStep at hw ⊢
            show saturatingAdd inner.gc.reserved s.nextGrow ≤ inner.gc.reservation ∧
              inner.gc.used + charge ≤ inner.gc.reservation
            rw [hbudget.reserved, hbudget.reservation]
            exact hw
        rw [if_pos hfree']
        have hr := reserved_grant (s := { s with inner }) (hevents.accounted hs) hfree'
        exact ⟨_, rfl, hr.fits, hevents.trans hr.events,
          fun h => hr.handleLeft (h.collect hcollect)⟩

/-- Beyond the budget the flow collects and leaves the growth to its end. -/
theorem reserveVia_beyond {α : Type} (hs : Accounted s.inner)
    (hlive : s.inner.gcCollect roots = .ok inner) (hsum : inner.gc.used + charge ≤ usizeMax)
    (hw : ¬ s.WithinBudget inner.gc.used charge) (done : α) (grow : Store → Outcome α) :
    s.reserveVia roots charge done grow = grow { s with inner } := by
  have hcollect := gcCollect_inner hlive
  have hbudget := collect_sameBudget hcollect
  have hle := collect_used_le hcollect
  -- What fits or is free before the collection is so after it.
  have hfits : ¬ s.inner.gc.fits charge = true := fun h => hw <| Or.inl <| by
    have := (GcHeap.fits_iff.mp h).2
    omega
  have hfree : ¬ s.inner.gc.isFreeGrant (s.desiredReservation charge) = true := fun h =>
    hw <| Or.inr <| by
      obtain ⟨h1, h2⟩ := (isFreeGrant_iff (sum_le_of_isFreeGrant hs h)).mp h
      exact ⟨h1, by omega⟩
  have hfits' : ¬ inner.gc.fits charge = true := fun h => hw <| Or.inl <| by
    rw [← hbudget.reserved]
    exact (GcHeap.fits_iff.mp h).2
  have hfree' : ¬ inner.gc.isFreeGrant (desiredReservation { s with inner } charge) = true :=
    fun h => hw <| Or.inr <| by
      have h := (isFreeGrant_iff (s := { s with inner }) hsum).mp h
      unfold nextStep at h ⊢
      rw [← hbudget.reserved, ← hbudget.reservation]
      exact h
  have hc : s.gcCollect roots = ({ s with inner }, .ok ()) := by
    unfold gcCollect
    rw [hlive]
  unfold reserveVia
  rw [if_neg hfits, if_neg hfree, hc]
  show (if inner.gc.fits charge = true then _ else _) = _
  rw [if_neg hfits', if_neg hfree']

end

/-! ## The bound's decision -/

/-- A limiter's answer, on a path that can consult it, that decides by the bound. -/
inductive Decides (b : Bound) (target : ℕ) : Except StoreError (Option Bool) → Prop where
  | cap : b = .abortCap → Decides b target (.ok none)
  | limiter : Decides b target (.ok (some (target ≤ b.limit)))

theorem growWith_approved {s : Store} {b : Bound} {target bytesNeeded : ℕ}
    {answer : Except StoreError (Option Bool)} (ha : Decides b target answer)
    (h : target ≤ b.limit) :
    ∃ s', s.growWith target bytesNeeded answer = (s', .ok ()) ∧
      s'.inner = (s.grant target).2.inner := by
  unfold growWith
  cases ha with
  | cap hb =>
    subst hb
    exact ⟨(s.grant target).2, if_pos h, rfl⟩
  | limiter =>
    simp only [decide_eq_true h, if_true]
    exact ⟨_, rfl, rfl⟩

theorem growWith_denied {s : Store} {b : Bound} {target bytesNeeded : ℕ}
    {answer : Except StoreError (Option Bool)} (ha : Decides b target answer)
    (h : ¬ target ≤ b.limit) :
    ∃ s', s.growWith target bytesNeeded answer =
      (s', .error (.gcHeapOutOfMemory bytesNeeded)) := by
  unfold growWith
  cases ha with
  | cap hb =>
    subst hb
    exact ⟨s, if_neg h⟩
  | limiter =>
    simp only [decide_eq_false h]
    exact ⟨_, rfl⟩

/-- An error that stands for a growth that was refused. -/
def Refusal (charge : ℕ) (e : StoreError) : Prop := e = .gcHeapOutOfMemory charge ∨ e = .limiter

/-- The growth asked for at the end of the flow, where the charge does not fit: it is approved
exactly when the limiter can be asked and the next step is within the bound. -/
theorem growWith_spec {b : Bound} {ask : Bool} {answer : Except StoreError (Option Bool)}
    (hask :
      if ask then Decides b (s.desiredReservation charge) answer else answer = .error .limiter)
    (hsum : s.inner.gc.used + charge ≤ usizeMax) (hle : s.inner.gc.used + charge ≤ b.limit) :
    (ask = true ∧ s.nextStep ≤ b.limit →
      ∃ s', s.growWith (s.desiredReservation charge) charge answer = (s', .ok ()) ∧
        Reserved charge s s') ∧
    (¬ (ask = true ∧ s.nextStep ≤ b.limit) →
      ∃ s' e, s.growWith (s.desiredReservation charge) charge answer = (s', .error e) ∧
        Refusal charge e) := by
  have htarget : s.desiredReservation charge ≤ b.limit ↔ s.nextStep ≤ b.limit := by
    unfold desiredReservation
    rw [saturatingAdd_eq hsum, max_le_iff]
    exact and_iff_left hle
  constructor
  · rintro ⟨rfl, hstep⟩
    obtain ⟨s', hgrow, hinner⟩ :=
      @growWith_approved s b _ charge answer hask (htarget.mpr hstep)
    refine ⟨s', hgrow, ?_, ?_, ?_⟩
    · rw [hinner]
      refine GcHeap.fits_iff.mpr ⟨hsum, ?_⟩
      show s.inner.gc.used + charge ≤ s.desiredReservation charge
      unfold desiredReservation
      rw [saturatingAdd_eq hsum]
      exact le_max_right _ _
    · rw [hinner]
      exact s.grant_events _
    · rw [hinner]
      exact id
  · intro hno
    cases ask with
    | false =>
      obtain rfl : answer = .error .limiter := hask
      exact ⟨s, .limiter, rfl, Or.inr rfl⟩
    | true =>
      have hstep : ¬ s.desiredReservation charge ≤ b.limit :=
        fun h => hno ⟨rfl, htarget.mp h⟩
      obtain ⟨s', hgrow⟩ := @growWith_denied s b _ charge _ hask hstep
      exact ⟨s', _, hgrow, Or.inl rfl⟩

/-- A limiter awaited or asked directly decides by the bound. -/
theorem decides_asked {b : Bound} {target : ℕ} : Decides b target (b.asked target).askAsync := by
  rcases b with _ | ⟨_ | _, limit⟩
  · exact .cap rfl
  · exact .limiter
  · exact .limiter

theorem ask_asked {b : Bound} {target : ℕ} :
    if b.isSync then Decides b target (b.asked target).ask
    else (b.asked target).ask = .error .limiter := by
  rcases b with _ | ⟨_ | _, limit⟩
  · exact .cap rfl
  · exact .limiter
  · rfl

/-- Where the charge does not fit, the target is beyond the reservation and the limiter decides. -/
theorem growGcReservation_eq (limiter : Limiter) (hsum : s.inner.gc.used + charge ≤ usizeMax)
    (hfits : ¬ s.inner.gc.used + charge ≤ s.inner.gc.reserved) :
    s.growGcReservation (s.desiredReservation charge) charge limiter =
      s.growWith (s.desiredReservation charge) charge limiter.ask := by
  unfold growGcReservation
  refine if_neg fun h => hfits (le_trans ?_ h)
  unfold desiredReservation
  rw [saturatingAdd_eq hsum]
  exact le_max_right _ _

/-! ## The reservation of a host constructor -/

/-- When an allocation of `charge` bytes beside `live` ones goes through: within the budget, or
with a limiter that can be asked and a next step within the bound. -/
def StepAdmitted (s : Store) (live charge : ℕ) (b : Bound) (ask : Bool) : Prop :=
  s.WithinBudget live charge ∨ (ask = true ∧ s.nextStep ≤ b.limit)

/-- What a reservation comes to: room for the charge exactly when its step is admitted, else a
refusal. -/
structure ReservedWhen (admitted : Prop) (charge : ℕ) (s : Store) (r : Outcome Unit) : Prop where
  granted : admitted → ∃ s', r = (s', .ok ()) ∧ Reserved charge s s'
  refused : ¬ admitted → ∃ s' e, r = (s', .error e) ∧ Refusal charge e

section

variable {s : Store} {roots : List (ℕ × RefKind)} {charge : ℕ} {inner : StoreInner} {b : Bound}

theorem askedTarget_eq (hlive : s.inner.gcCollect roots = .ok inner) :
    s.askedTarget roots charge = desiredReservation { s with inner } charge := by
  unfold askedTarget gcCollect
  rw [hlive]

theorem nextStep_collected (hlive : s.inner.gcCollect roots = .ok inner) :
    nextStep { s with inner } = s.nextStep := by
  unfold nextStep
  rw [(collect_sameBudget (gcCollect_inner hlive)).reserved]

/-- Beyond the budget the charge does not fit the reservation after the collection either. -/
theorem not_fits_collected (hlive : s.inner.gcCollect roots = .ok inner)
    (hw : ¬ s.WithinBudget inner.gc.used charge) :
    ¬ inner.gc.used + charge ≤ inner.gc.reserved := by
  rw [(collect_sameBudget (gcCollect_inner hlive)).reserved]
  exact fun h => hw (Or.inl h)

theorem Reserved.collected {s' : Store} (hlive : s.inner.gcCollect roots = .ok inner)
    (h : Reserved charge { s with inner } s') : Reserved charge s s' :=
  have hcollect := gcCollect_inner hlive
  ⟨h.fits, (Events.single (Event.collect roots hcollect)).trans h.events,
    fun hl => h.handleLeft (hl.collect hcollect)⟩

/-- A flow whose growth asks the limiter. -/
theorem reserveVia_spec (hs : Accounted s.inner) (hlive : s.inner.gcCollect roots = .ok inner)
    (hsum : inner.gc.used + charge ≤ usizeMax) (hle : inner.gc.used + charge ≤ b.limit)
    {grow : Store → Outcome Unit} {ask : Bool} {answer : Except StoreError (Option Bool)}
    (hask : if ask then Decides b (desiredReservation { s with inner } charge) answer
      else answer = .error .limiter)
    (hgrow : ¬ s.WithinBudget inner.gc.used charge → grow { s with inner } =
      growWith { s with inner } (desiredReservation { s with inner } charge) charge answer) :
    ReservedWhen (s.StepAdmitted inner.gc.used charge b ask) charge s
      (s.reserveVia roots charge () grow) := by
  by_cases hw : s.WithinBudget inner.gc.used charge
  · exact ⟨fun _ => reserveVia_within hs hlive hsum hw () grow,
      fun h => absurd (Or.inl hw) h⟩
  · rw [reserveVia_beyond hs hlive hsum hw, hgrow hw]
    have hspec := growWith_spec (s := { s with inner }) hask hsum hle
    rw [nextStep_collected hlive] at hspec
    refine ⟨fun h => ?_, fun h => hspec.2 fun h' => h (Or.inr h')⟩
    obtain ⟨s', hr, hres⟩ := hspec.1 (h.resolve_left hw)
    exact ⟨s', hr, hres.collected hlive⟩

theorem gcReserveHost_reserved (hs : Accounted s.inner)
    (hlive : s.inner.gcCollect roots = .ok inner) (hsum : inner.gc.used + charge ≤ usizeMax)
    (hle : inner.gc.used + charge ≤ b.limit) :
    ReservedWhen (s.StepAdmitted inner.gc.used charge b b.isSync) charge s
      (s.gcReserveHost roots charge (b.asked (s.askedTarget roots charge))) := by
  rw [gcReserveHost_eq, askedTarget_eq hlive]
  exact reserveVia_spec hs hlive hsum hle ask_asked fun hw =>
    growGcReservation_eq (s := { s with inner }) _ hsum (not_fits_collected hlive hw)

theorem gcReserveHostAsync_reserved (hs : Accounted s.inner)
    (hlive : s.inner.gcCollect roots = .ok inner) (hsum : inner.gc.used + charge ≤ usizeMax)
    (hle : inner.gc.used + charge ≤ b.limit) :
    ReservedWhen (s.StepAdmitted inner.gc.used charge b true) charge s
      (s.gcReserveHostAsync roots charge (b.asked (s.askedTarget roots charge))) := by
  rw [gcReserveHostAsync_eq, askedTarget_eq hlive]
  exact reserveVia_spec hs hlive hsum hle decides_asked fun _ => rfl

/-! ## The reservation of an instruction -/

/-- What an allocation comes to: its placing, in a store with room for the charge, exactly when
its step is admitted; else a refusal. -/
structure PlacedWhen (admitted : Prop) (charge : ℕ) (s : Store) (place : Store → Outcome ℕ)
    (r : Option (Outcome ℕ)) : Prop where
  granted : admitted → ∃ s', r = some (place s') ∧ Reserved charge s s'
  refused : ¬ admitted → ∃ s' e, r = some (s', .error e) ∧ Refusal charge e

/-- An instruction whose reservation goes through places its entry. -/
theorem driveAlloc_placed {place : Store → Outcome ℕ} {s' : Store} {fuel : ℕ}
    (h : s.gcReserve roots charge = (s', .ok none)) :
    driveAlloc b (fun s => reserved (s.gcReserve roots charge) place) (fuel + 1) s =
      some (place s') := by
  unfold driveAlloc reserved
  rw [h]
  simp only [Outcome.andThen]
  rcases place s' with ⟨s'', e | i⟩ <;> rfl

/-- A suspended growth that is approved executes the instruction again, which then fits. -/
theorem driveAlloc_spec (hs : Accounted s.inner) (hlive : s.inner.gcCollect roots = .ok inner)
    (hsum : inner.gc.used + charge ≤ usizeMax) (hle : inner.gc.used + charge ≤ b.limit)
    (place : Store → Outcome ℕ) (fuel : ℕ) :
    PlacedWhen (s.StepAdmitted inner.gc.used charge b b.isSync) charge s place
      (driveAlloc b (fun s => reserved (s.gcReserve roots charge) place) (fuel + 2) s) := by
  by_cases hw : s.WithinBudget inner.gc.used charge
  · obtain ⟨s', hr, hres⟩ := reserveVia_within hs hlive hsum hw none
      fun s => (s, .ok (some (GcGrow.mk (s.desiredReservation charge) charge)))
    rw [← gcReserve_eq] at hr
    exact ⟨fun _ => ⟨s', driveAlloc_placed hr, hres⟩, fun h => absurd (Or.inl hw) h⟩
  · have hr := reserveVia_beyond hs hlive hsum hw none
      fun s => (s, .ok (some (GcGrow.mk (s.desiredReservation charge) charge)))
    rw [← gcReserve_eq] at hr
    have hgrow := growGcReservation_eq (s := { s with inner })
      (b.asked (desiredReservation { s with inner } charge)) hsum (not_fits_collected hlive hw)
    have hspec := growWith_spec (s := { s with inner }) (b := b) ask_asked hsum hle
    rw [← hgrow, nextStep_collected hlive] at hspec
    have hstep : driveAlloc b (fun s => reserved (s.gcReserve roots charge) place) (fuel + 2) s =
        match growGcReservation { s with inner } (desiredReservation { s with inner } charge)
          charge (b.asked (desiredReservation { s with inner } charge)) with
        | (s, .error e) => some (s, .error e)
        | (s, .ok ()) =>
          driveAlloc b (fun s => reserved (s.gcReserve roots charge) place) (fuel + 1) s := by
      rw [driveAlloc, hr]
      rfl
    constructor
    · intro h
      obtain ⟨s', hg, hres⟩ := hspec.1 (h.resolve_left hw)
      have hfits : s'.gcReserve roots charge = (s', .ok none) := by
        unfold gcReserve
        rw [if_pos hres.fits]
      refine ⟨s', ?_, hres.collected hlive⟩
      rw [hstep, hg]
      exact driveAlloc_placed hfits
    · intro h
      obtain ⟨s', e, hg, href⟩ := hspec.2 fun h' => h (Or.inr h')
      refine ⟨s', e, ?_, href⟩
      rw [hstep, hg]

end

/-! ## Placing an entry -/

/-- A computation that no refused growth makes fail. -/
def Unrefused {α : Type} (r : Except StoreError α) : Prop :=
  ∀ charge e, r = .error e → ¬ Refusal charge e

theorem Unrefused.ok {α : Type} (a : α) : Unrefused (.ok a) := fun _ _ h => (nomatch h)

theorem Unrefused.trap {α : Type} (t : Trap) : Unrefused (α := α) (.error (.trap t)) := by
  rintro charge e h (rfl | rfl)
  · nomatch h
  · nomatch h

theorem Unrefused.panic {α : Type} : Unrefused (α := α) (.error .panic) := by
  rintro charge e h (rfl | rfl)
  · nomatch h
  · nomatch h

theorem Unrefused.bind {α β : Type} {x : Except StoreError α} {f : α → Except StoreError β}
    (hx : Unrefused x) (hf : ∀ a, Unrefused (f a)) : Unrefused (x >>= f) := by
  rcases x with e | a
  · exact fun charge e' h => hx charge e' (Except.error.inj h ▸ rfl)
  · exact hf a

theorem Unrefused.ite {α : Type} {p : Prop} [Decidable p] {x y : Except StoreError α}
    (hx : Unrefused x) (hy : Unrefused y) : Unrefused (if p then x else y) := by
  by_cases h : p
  · rw [if_pos h]
    exact hx
  · rw [if_neg h]
    exact hy

theorem unrefused_boxed (data : List UInt8) : Unrefused (boxed data) :=
  .ite (.ok _) .panic

theorem unrefused_writeSlots (data : List UInt8) (ws : List (Slot × Val)) :
    Unrefused (writeSlots data ws) := by
  induction ws generalizing data with
  | nil => exact .ok _
  | cons w ws ih =>
    unfold writeSlots
    split
    · exact .panic
    · exact ih _

theorem unrefused_arrayBytes (count stride : ℕ) : Unrefused (arrayBytes count stride) := by
  unfold arrayBytes
  split
  · exact .ok _
  · exact .trap _

theorem unrefused_checkRange (start len total : ℕ) (t : Trap) :
    Unrefused (checkRange start len total t) := by
  unfold checkRange
  split
  · exact .ite (.ok _) (.trap _)
  · exact .trap _

theorem unrefused_buildObject (s : StoreInner) (op : AllocOp) : Unrefused (s.buildObject op) := by
  have hcapacity : ∀ n, Unrefused (s.gcCheckCapacity n) := fun _ => .ite (.ok _) (.trap _)
  cases op with
  | structNew typeId layout fields =>
    exact .bind (unrefused_boxed _) fun _ => .bind (unrefused_writeSlots _ _) fun _ => .ok _
  | arrayNew typeId layout count fill =>
    exact .bind (unrefused_arrayBytes _ _) fun _ => .bind (unrefused_boxed _) fun _ =>
      .bind (unrefused_writeSlots _ _) fun _ => .ok _
  | arrayNewFixed typeId layout elems =>
    exact .bind (unrefused_boxed _) fun _ => .bind (unrefused_writeSlots _ _) fun _ => .ok _
  | arrayNewData typeId layout seg dropped offset count =>
    exact .bind (unrefused_arrayBytes _ _) fun _ => .bind (unrefused_checkRange _ _ _ _) fun _ =>
      .bind (hcapacity _) fun _ => .bind (unrefused_boxed _) fun _ => .ok _
  | arrayNewElem typeId layout seg offset count =>
    exact .bind (unrefused_checkRange _ _ _ _) fun _ => .bind (unrefused_arrayBytes _ _) fun _ =>
      .bind (hcapacity _) fun _ => .bind (unrefused_boxed _) fun _ =>
        .bind (unrefused_writeSlots _ _) fun _ => .ok _

theorem unrefused_allocGc (s : StoreInner) (o : GcObject) : Unrefused (s.allocGc o) := by
  unfold StoreInner.allocGc GcHeap.alloc
  split
  · exact .trap _
  · exact .ok _

theorem unrefused_allocExn (s : StoreInner) (entity : ExnEntity) :
    Unrefused (s.allocExn entity) := .ite (.ok _) (.trap _)

theorem unrefused_onInner {α : Type} {r : Except StoreError (α × StoreInner)} (h : Unrefused r) :
    Unrefused (s.onInner r).2 := by
  rcases r with e | ⟨a, inner⟩
  · exact fun charge e' h' => h charge e' (Except.error.inj h' ▸ rfl)
  · exact .ok a

/-- Placing an entry is never refused for its growth. -/
theorem unrefused_place (a : Allocation) (s : Store) : Unrefused (a.place s).2 := by
  cases a with
  | guestNew op =>
    exact unrefused_onInner (.bind (unrefused_buildObject _ _) fun _ => unrefused_allocGc _ _)
  | guestThrow entity => exact unrefused_onInner (unrefused_allocExn _ _)
  | hostNew isAsync typeId kind data =>
    refine unrefused_onInner (.bind ?_ fun _ => unrefused_allocGc _ _)
    exact .ite (unrefused_boxed _) .panic
  | hostExtern payload => exact unrefused_onInner (.ite (.ok _) (.trap _))
  | hostExn entity => exact unrefused_onInner (unrefused_allocExn _ _)

/-- What an allocation needs besides its growth: operands its object can be built from, and a
handle for the object. -/
def Allocation.Sound (s : Store) : Allocation → Prop
  | .guestNew op => (∃ s₀ o, StoreInner.buildObject s₀ op = .ok o) ∧ s.inner.HandleLeft
  | .hostNew _ _ _ data => data.length ≤ isizeMax ∧ s.inner.HandleLeft
  | _ => True

theorem canFitLimit_of_fits {h : GcHeap} {size : ℕ} (hf : h.fits charge = true)
    (hle : size ≤ charge) : h.canFitLimit size = true := by
  obtain ⟨hsum, hres⟩ := GcHeap.fits_iff.mp hf
  refine GcHeap.canFitLimit_iff.mpr ⟨by omega, ?_⟩
  have : h.reserved ≤ h.unreservedCeiling :=
    (le_max_left _ _).trans (le_max_left _ _)
  omega

/-- An object built in one store is built in any that has room for it. -/
theorem buildObject_of_fits {s₀ s : StoreInner} {op : AllocOp} {o : GcObject}
    (ho : s₀.buildObject op = .ok o) (hc : op.charge = .ok charge) (hf : s.gc.fits charge = true) :
    s.buildObject op = .ok o := by
  have hsize := charge_eq_byteSize hc ho
  have hcapacity : ∀ {n}, n = o.data.length → s.gcCheckCapacity n = .ok () := by
    rintro n rfl
    refine if_pos (canFitLimit_of_fits hf ?_)
    unfold GcObject.byteSize at hsize
    omega
  cases op with
  | structNew typeId layout fields => exact ho
  | arrayNew typeId layout count fill => exact ho
  | arrayNewFixed typeId layout elems => exact ho
  | arrayNewData typeId layout seg dropped offset count =>
    simp only [StoreInner.buildObject, bind_ok_iff] at ho ⊢
    obtain ⟨n, hn, _, hr, _, -, data, hb, ho⟩ := ho
    refine ⟨n, hn, (), hr, (), hcapacity ?_, data, hb, ho⟩
    have hrange := checkRange_ok hr
    have hseg : segLen seg dropped ≤ seg.length := by
      unfold segLen
      split <;> omega
    rw [← Except.ok.inj ho, (boxed_ok hb).1, List.length_take, List.length_drop]
    omega
  | arrayNewElem typeId layout seg offset count =>
    simp only [StoreInner.buildObject, bind_ok_iff] at ho ⊢
    obtain ⟨_, hr, n, hn, _, -, data, hz, out, hw, ho⟩ := ho
    refine ⟨(), hr, n, hn, (), hcapacity ?_, data, hz, out, hw, ho⟩
    rw [← Except.ok.inj ho]
    exact (arrayBytes_ok hn).1.trans ((zeroedBody_ok hz).1.symm.trans (writeSlots_length hw).symm)

theorem allocGc_of_handleLeft {s : StoreInner} (h : s.HandleLeft) (o : GcObject) :
    ∃ i s', s.allocGc o = .ok (i, s') := by
  unfold StoreInner.allocGc GcHeap.alloc
  rw [if_neg]
  · exact ⟨_, _, rfl⟩
  · rintro ⟨hfree, hle⟩
    exact h.elim (· hfree) fun hlt => absurd hlt (by omega)

theorem onInner_ok {α : Type} {r : Except StoreError (α × StoreInner)} {a : α} {inner : StoreInner}
    (h : r = .ok (a, inner)) : (s.onInner r).2 = .ok a := by
  rw [h]
  rfl

/-- With room for its charge a sound allocation is placed. -/
theorem place_ok {a : Allocation} {s' : Store} (hc : a.charge = .ok charge) (ha : a.Sound s)
    (hs : Accounted s.inner) (hr : Reserved charge s s') : ∃ i, (a.place s').2 = .ok i := by
  have hexn : ∀ entity : ExnEntity, entity.byteSize = charge →
      ∃ i, (s'.onInner (s'.inner.allocExn entity)).2 = .ok i := by
    rintro entity rfl
    unfold StoreInner.allocExn
    rw [if_pos (canFitLimit_of_fits hr.fits le_rfl)]
    exact ⟨_, rfl⟩
  cases a with
  | guestNew op =>
    obtain ⟨⟨s₀, o, ho⟩, hleft⟩ := ha
    obtain ⟨i, inner, hp⟩ := allocGc_of_handleLeft (hr.handleLeft hleft) o
    refine ⟨i, onInner_ok (bind_ok_iff.mpr ⟨o, buildObject_of_fits ho hc hr.fits, hp⟩)⟩
  | guestThrow entity => exact hexn entity (Except.ok.inj hc)
  | hostNew isAsync typeId kind data =>
    obtain ⟨hlen, hleft⟩ := ha
    obtain ⟨i, inner, hp⟩ := allocGc_of_handleLeft (hr.handleLeft hleft) ⟨typeId, kind, data⟩
    refine ⟨i, onInner_ok (bind_ok_iff.mpr ⟨data, ?_, hp⟩)⟩
    obtain rfl : objectCharge data.length = charge := Except.ok.inj hc
    have hsum := (GcHeap.fits_iff.mp hr.fits).1
    rw [(hr.events.accounted hs).used, objectCharge_eq hlen, ← Nat.add_assoc] at hsum
    unfold hostBody boxed
    rw [if_pos hsum, if_pos hlen]
  | hostExtern payload =>
    obtain rfl : arenaEntryOverhead = charge := Except.ok.inj hc
    have hp : s'.inner.allocExternref payload = .ok _ :=
      if_pos (canFitLimit_of_fits hr.fits le_rfl)
    exact ⟨_, onInner_ok hp⟩
  | hostExn entity => exact hexn entity (Except.ok.inj hc)

/-! ## Exactness of a refusal -/

/-- A constructor that places its entry once the reservation is done. -/
theorem placedWhen_andThen {admitted : Prop} {r : Outcome Unit}
    (h : ReservedWhen admitted charge s r) (place : Store → Outcome ℕ) :
    PlacedWhen admitted charge s place (some (r.andThen fun s _ => place s)) := by
  constructor
  · intro ha
    obtain ⟨s', rfl, hres⟩ := h.granted ha
    exact ⟨s', rfl, hres⟩
  · intro ha
    obtain ⟨s', e, rfl, href⟩ := h.refused ha
    exact ⟨s', e, rfl, href⟩

theorem allocate_spec (hs : Accounted s.inner) {b : Bound} {roots : List (ℕ × RefKind)}
    {inner : StoreInner} (hlive : s.inner.gcCollect roots = .ok inner) {a : Allocation}
    (hc : a.charge = .ok charge) (hsum : inner.gc.used + charge ≤ usizeMax)
    (hle : inner.gc.used + charge ≤ b.limit) (fuel : ℕ) :
    PlacedWhen (s.StepAdmitted inner.gc.used charge b (a.canAsk b)) charge s a.place
      (s.allocate b roots (fuel + 2) a) := by
  cases a with
  | guestNew op =>
    have h := driveAlloc_spec hs hlive hsum hle (Allocation.place · (.guestNew op)) fuel
    have hattempt : (fun s : Store => s.guestNew roots op) =
        fun s => reserved (s.gcReserve roots charge) (Allocation.place · (.guestNew op)) := by
      funext s
      have hc : op.charge = .ok charge := hc
      unfold guestNew
      rw [hc]
      rfl
    rw [← hattempt] at h
    exact h
  | guestThrow entity =>
    obtain rfl : exnCharge entity.args.length = charge := Except.ok.inj hc
    exact driveAlloc_spec hs hlive hsum hle (Allocation.place · (.guestThrow entity)) fuel
  | hostNew isAsync typeId kind data =>
    obtain rfl : objectCharge data.length = charge := Except.ok.inj hc
    cases isAsync with
    | true => exact placedWhen_andThen (gcReserveHostAsync_reserved hs hlive hsum hle) _
    | false => exact placedWhen_andThen (gcReserveHost_reserved hs hlive hsum hle) _
  | hostExtern payload =>
    obtain rfl : arenaEntryOverhead = charge := Except.ok.inj hc
    exact placedWhen_andThen (gcReserveHost_reserved hs hlive hsum hle) _
  | hostExn entity =>
    obtain rfl : entity.byteSize = charge := Except.ok.inj hc
    exact placedWhen_andThen (gcReserveHost_reserved hs hlive hsum hle) _

/-- **Growth against a bound.**  After every history of a store, take an allocation whose charge
the bound admits beside the bytes that are live after a collection.  It goes on to place its
entry, and succeeds if nothing but growth stands against it, exactly when its step is admitted:
the charge fits the reservation, or is covered by the free budget that the next step does not
exceed, or the next step is within the bound of a limiter that can be asked. -/
theorem growth_admitted_iff (engine : TypeRegistry) (collecting : Bool) (reservation : ℕ)
    (ops : List StoreOp) (b : Bound) (hb : b.limit ≤ usizeMax) (a : Allocation) {charge : ℕ}
    (hc : a.charge = .ok charge) (roots : List (ℕ × RefKind)) {inner : StoreInner}
    (hlive : ((Store.new engine collecting reservation).runAll ops).inner.gcCollect roots =
      .ok inner)
    (hle : inner.gc.used + charge ≤ b.limit) (fuel : ℕ) :
    ((∃ s', ((Store.new engine collecting reservation).runAll ops).allocate b roots (fuel + 2) a =
        some (a.place s')) ↔
      ((Store.new engine collecting reservation).runAll ops).StepAdmitted inner.gc.used charge b
        (a.canAsk b)) ∧
    (a.Sound ((Store.new engine collecting reservation).runAll ops) →
      ((∃ s' i, ((Store.new engine collecting reservation).runAll ops).allocate b roots
          (fuel + 2) a = some (s', .ok i)) ↔
        ((Store.new engine collecting reservation).runAll ops).StepAdmitted inner.gc.used charge b
          (a.canAsk b))) := by
  have hnew : Accounted (Store.new engine collecting reservation).inner :=
    accounted_new engine collecting reservation
  have hs := (runAll_events hnew ops).accounted hnew
  generalize (Store.new engine collecting reservation).runAll ops = s at hs hlive
  have hspec := allocate_spec hs hlive hc (hle.trans hb) hle fuel
  -- What is not admitted is refused, and a refusal is neither a placing nor a success.
  constructor
  · constructor
    · rintro ⟨s', hr⟩
      by_contra hno
      obtain ⟨s'', e, hr', href⟩ := hspec.refused hno
      rw [hr] at hr'
      exact unrefused_place a s' charge e (congrArg Prod.snd (Option.some.inj hr')) href
    · intro h
      obtain ⟨s', hr, -⟩ := hspec.granted h
      exact ⟨s', hr⟩
  · intro hsound
    constructor
    · rintro ⟨s', i, hr⟩
      by_contra hno
      obtain ⟨s'', e, hr', -⟩ := hspec.refused hno
      rw [hr] at hr'
      exact (nomatch congrArg Prod.snd (Option.some.inj hr'))
    · intro h
      obtain ⟨s', hr, hres⟩ := hspec.granted h
      obtain ⟨i, hi⟩ := place_ok hc hsound hs hres
      exact ⟨(a.place s').1, i, hr.trans (congrArg some (Prod.ext rfl hi))⟩

/-- A new store with no free budget whose limiter approves one batch. -/
theorem growth_admitted_iff_batch :
    ∃ s' i, (Store.new .empty true 0).allocate (.limiter false 65536) [] 2 (.hostExtern 7) =
      some (s', .ok i) :=
  ((growth_admitted_iff .empty true 0 [] (.limiter false 65536) (by decide) (.hostExtern 7) rfl []
    rfl (by decide) 0).2 trivial).mpr (Or.inr (by decide))

/-- One byte less, and the same entry of 64 bytes is refused in an empty heap. -/
theorem not_growth_exact_shortBatch :
    ∃ inner, (Store.new .empty true 0).inner.gcCollect [] = .ok inner ∧
      inner.gc.used + arenaEntryOverhead ≤ Bound.limit (.limiter false 65535) ∧
      ∀ fuel s' i, (Store.new .empty true 0).allocate (.limiter false 65535) [] fuel
        (.hostExtern 7) ≠ some (s', .ok i) :=
  ⟨_, rfl, by decide, fun fuel s' i h => (nomatch h)⟩

end Store

end SubmilliWasm
