/-
# The limiter gates guest allocation

In a store with a resource limiter, the reservation never exceeds the pre-authorised budget or
what the limiter approved last, and an allocating instruction stays within the reservation: it is
placed there, or it collects and suspends for the limiter, or it fails.  The two conversions
between `externref` and `anyref` are not gated: the source bounds them by the hard ceiling, which
is never below the abort cap, and leaves what they allocate to the next collection.
-/
import SubmilliWasm.Exec.Account

namespace SubmilliWasm

open Fallible

/-! ## Allocations and collections leave the budget alone -/

/-- `s'` differs from `s` in its entries only. -/
structure SameBudget (s s' : StoreInner) : Prop where
  reserved : s'.gc.reserved = s.gc.reserved
  reservation : s'.gc.reservation = s.gc.reservation

theorem SameBudget.refl (s : StoreInner) : SameBudget s s := ⟨rfl, rfl⟩

variable {s s' : StoreInner}

theorem Event.sameBudget {n : Reached} (h : Event s (some n) s') : SameBudget s s' := by
  cases h <;> exact ⟨rfl, rfl⟩

theorem collect_sameBudget {stackRoots : List (ℕ × RefKind)}
    (h : s.collect stackRoots = some (.ok s')) : SameBudget s s' := by
  by_cases hc : s.gc.collecting = true
  · obtain ⟨t, -, rfl⟩ := collect_ok hc h
    exact ⟨rfl, rfl⟩
  · rw [StoreInner.collect, if_pos (by simpa using hc)] at h
    exact Except.ok.inj (Option.some.inj h) ▸ SameBudget.refl s

/-- A collection never raises the bytes in use. -/
theorem collect_used_le {stackRoots : List (ℕ × RefKind)}
    (h : s.collect stackRoots = some (.ok s')) : s'.gc.used ≤ s.gc.used := by
  by_cases hc : s.gc.collecting = true
  · obtain ⟨t, -, rfl⟩ := collect_ok hc h
    rw [sweepAll_used]
    omega
  · rw [StoreInner.collect, if_pos (by simpa using hc)] at h
    exact Except.ok.inj (Option.some.inj h) ▸ le_rfl

namespace Store

/-! ## What the limiter has approved -/

/-- The last reservation the limiter approved. -/
def approved (s : Store) : ℕ := ((s.consulted.find? Consultation.approved).map (·.target)).getD 0

/-- What the embedder has authorised: the free budget or the last approved reservation. -/
def allowance (s : Store) : ℕ := max s.inner.gc.reservation s.approved

/-- A limiter answers whatever the operation asks. -/
def StoreOp.Limited : StoreOp → Prop
  | .growGc _ limiter | .hostNew _ _ _ _ _ limiter | .hostExtern _ _ limiter
  | .hostExn _ _ limiter => limiter ≠ .none
  | _ => True

/-- The reservation stays within the allowance, and the growth step is positive. -/
structure Gated (s : Store) : Prop where
  reserved : s.inner.gc.reserved ≤ s.allowance
  nextGrow : 0 < s.nextGrow

theorem gated_new (engine : TypeRegistry) (collecting : Bool) (reservation : ℕ) :
    Gated (Store.new engine collecting reservation) :=
  ⟨Nat.zero_le _, show 0 < reserveBatch by decide⟩

variable {limiter : Limiter} {s : Store} {charge : ℕ}

theorem Gated.sameBudget {inner : StoreInner} (hs : Gated s) (h : SameBudget s.inner inner) :
    Gated { s with inner } := by
  refine ⟨?_, hs.nextGrow⟩
  have := hs.reserved
  unfold allowance at this ⊢
  change inner.gc.reserved ≤ max inner.gc.reservation s.approved
  rw [h.reserved, h.reservation]
  exact this

/-- A grant of an authorised target. -/
theorem Gated.grant {s : Store} (hs : Gated s) {target : ℕ} (h : target ≤ s.allowance) :
    Gated (s.grant target).2 := by
  refine ⟨h, ?_⟩
  have := hs.nextGrow
  change 0 < min (saturatingMul s.nextGrow 2) (max s.inner.gc.reservation reserveBatch)
  unfold saturatingMul usizeMax reserveBatch
  omega

/-! ## Every operation keeps the reservation gated -/

theorem gated_andThen {α β : Type} {r : Outcome α} {f : Store → α → Outcome β} (hr : Gated r.1)
    (hf : ∀ a, r.2 = .ok a → Gated (f r.1 a).1) : Gated (r.andThen f).1 := by
  obtain ⟨s', e | a⟩ := r
  · exact hr
  · exact hf _ rfl

theorem gated_onInner {α : Type} (hs : Gated s) {r : Except StoreError (α × StoreInner)}
    (h : ∀ a inner, r = .ok (a, inner) → SameBudget s.inner inner) : Gated (s.onInner r).1 := by
  rcases r with e | ⟨a, inner⟩
  · exact hs
  · exact hs.sameBudget (h a inner rfl)

theorem gcCollect_inner {stackRoots : List (ℕ × RefKind)} {inner : StoreInner}
    (h : s.inner.gcCollect stackRoots = .ok inner) :
    s.inner.collect stackRoots = some (.ok inner) := by
  rw [StoreInner.collect_eq_gcCollect, h]

theorem gated_gcCollect (hs : Gated s) (stackRoots : List (ℕ × RefKind)) :
    Gated (s.gcCollect stackRoots).1 := by
  unfold gcCollect
  split
  · rename_i inner h
    exact hs.sameBudget (collect_sameBudget (gcCollect_inner h))
  · exact hs

/-- A decision of the limiter: approved, it is the last approved reservation; denied, it changes
nothing. -/
theorem gated_growWith (hs : Gated s) (target bytesNeeded : ℕ)
    {answer : Except StoreError (Option Bool)} (ha : answer ≠ .ok none) :
    Gated (s.growWith target bytesNeeded answer).1 := by
  rcases answer with e | d
  · exact hs
  · rcases d with _ | b
    · exact absurd rfl ha
    · cases b with
      | true =>
        refine ⟨le_max_right _ target, ?_⟩
        have := hs.nextGrow
        change 0 < min (saturatingMul s.nextGrow 2) (max s.inner.gc.reservation reserveBatch)
        unfold saturatingMul usizeMax reserveBatch
        omega
      | false => exact ⟨hs.reserved, hs.nextGrow⟩

theorem ask_ne_none (h : limiter ≠ .none) : limiter.ask ≠ .ok none := by
  cases limiter with
  | none => exact absurd rfl h
  | sync answer => cases answer <;> exact (nomatch ·)
  | async answer => exact (nomatch ·)

theorem askAsync_ne_none (h : limiter ≠ .none) : limiter.askAsync ≠ .ok none := by
  cases limiter with
  | none => exact absurd rfl h
  | sync answer => cases answer <;> exact (nomatch ·)
  | async answer => cases answer <;> exact (nomatch ·)

theorem gated_growGcReservation (hs : Gated s) (target bytesNeeded : ℕ) (hl : limiter ≠ .none) :
    Gated (s.growGcReservation target bytesNeeded limiter).1 := by
  unfold growGcReservation
  split
  · exact hs
  · exact gated_growWith hs _ _ (ask_ne_none hl)

/-- A grant within the free budget. -/
theorem Gated.freeGrant (hs : Gated s) {target : ℕ} (h : s.inner.gc.isFreeGrant target = true) :
    Gated (s.grant target).2 := by
  have htarget : target ≤ s.inner.gc.reservation := by simpa [GcHeap.isFreeGrant] using h
  exact hs.grant (htarget.trans (le_max_left _ _))

theorem gated_reserveGrow (hs : Gated s) (charge : ℕ) : Gated (s.reserveGrow charge).1 := by
  unfold reserveGrow
  simp only
  split
  · rename_i h
    exact hs.freeGrant h
  · exact hs

theorem gated_gcReserve (hs : Gated s) (stackRoots : List (ℕ × RefKind)) (charge : ℕ) :
    Gated (s.gcReserve stackRoots charge).1 := by
  unfold gcReserve
  split
  · exact hs
  · split
    · have hc := gated_gcCollect hs stackRoots
      refine gated_andThen hc fun _ _ => ?_
      split
      · exact hc
      · exact gated_reserveGrow hc charge
    · exact gated_reserveGrow hs charge

theorem gated_gcReserveHost (hs : Gated s) (execRoots : List (ℕ × RefKind)) (charge : ℕ)
    (hl : limiter ≠ .none) : Gated (s.gcReserveHost execRoots charge limiter).1 := by
  have hgrow : ∀ {s : Store}, Gated s → Gated (s.reserveHostGrow charge limiter).1 := by
    intro s hs
    unfold reserveHostGrow
    simp only
    split
    · rename_i h
      exact hs.freeGrant h
    · exact gated_growGcReservation hs _ _ hl
  unfold gcReserveHost
  split
  · exact hs
  · split
    · have hc := gated_gcCollect hs execRoots
      refine gated_andThen hc fun _ _ => ?_
      split
      · exact hc
      · exact hgrow hc
    · exact hgrow hs

theorem gated_gcReserveHostAsync (hs : Gated s) (execRoots : List (ℕ × RefKind)) (charge : ℕ)
    (hl : limiter ≠ .none) : Gated (s.gcReserveHostAsync execRoots charge limiter).1 := by
  have hgrow : ∀ {s : Store}, Gated s → Gated (s.reserveHostGrowAsync charge limiter).1 := by
    intro s hs
    unfold reserveHostGrowAsync
    simp only
    split
    · rename_i h
      exact hs.freeGrant h
    · exact gated_growWith hs _ _ (askAsync_ne_none hl)
  unfold gcReserveHostAsync
  split
  · exact hs
  · split
    · have hc := gated_gcCollect hs execRoots
      refine gated_andThen hc fun _ _ => ?_
      split
      · exact hc
      · exact hgrow hc
    · exact hgrow hs

theorem gated_reserved (hs : Gated s) (ha : Accounted s.inner) (stackRoots : List (ℕ × RefKind))
    {f : Store → Outcome ℕ}
    (hf : ∀ s' : Store, Gated s' → s'.inner.gc.fits charge = true → Gated (f s').1) :
    Gated (reserved (s.gcReserve stackRoots charge) f).1 := by
  have hr := gated_gcReserve hs stackRoots charge
  unfold reserved
  refine gated_andThen hr fun grow hgrow => ?_
  cases grow with
  | some grow => exact hr
  | none =>
    have hplaced := hf _ hr ((gcReserve_spec ha stackRoots charge).2 hgrow)
    exact gated_andThen hplaced fun _ _ => hplaced

theorem gated_guestNew (hs : Gated s) (ha : Accounted s.inner) (stackRoots : List (ℕ × RefKind))
    (op : AllocOp) : Gated (s.guestNew stackRoots op).1 := by
  unfold guestNew
  split
  · exact hs
  · rename_i charge hcharge
    refine gated_reserved hs ha stackRoots fun s' hs' hfits => ?_
    refine gated_onInner hs' fun i inner h => ?_
    obtain ⟨o, ho, hp⟩ := bind_ok_iff.mp h
    rw [← charge_eq_byteSize hcharge ho] at hfits
    exact (StoreInner.allocGc_event hp (GcHeap.fits_iff.mp hfits).1).sameBudget

theorem gated_guestThrow (hs : Gated s) (ha : Accounted s.inner) (stackRoots : List (ℕ × RefKind))
    (entity : ExnEntity) : Gated (s.guestThrow stackRoots entity).1 := by
  unfold guestThrow
  refine gated_reserved hs ha stackRoots fun s' hs' _ => ?_
  exact gated_onInner hs' fun i inner h => (StoreInner.allocExn_event h).sameBudget

theorem gated_hostNew (hs : Gated s) (ha : Accounted s.inner) (isAsync : Bool)
    (execRoots : List (ℕ × RefKind)) (typeId : CanonicalTypeId) (kind : ObjKind) (data : List UInt8)
    (hl : limiter ≠ .none) : Gated (s.hostNew isAsync execRoots typeId kind data limiter).1 := by
  unfold hostNew
  have hreserve : Gated (if isAsync = true then
      s.gcReserveHostAsync execRoots (objectCharge data.length) limiter else
      s.gcReserveHost execRoots (objectCharge data.length) limiter).1 ∧
      Events s.inner (if isAsync = true then
      s.gcReserveHostAsync execRoots (objectCharge data.length) limiter else
      s.gcReserveHost execRoots (objectCharge data.length) limiter).1.inner := by
    split
    · exact ⟨gated_gcReserveHostAsync hs _ _ hl, s.gcReserveHostAsync_events _ _ _⟩
    · exact ⟨gated_gcReserveHost hs _ _ hl, s.gcReserveHost_events _ _ _⟩
  refine gated_andThen hreserve.1 fun _ _ => gated_onInner hreserve.1 fun i inner h => ?_
  obtain ⟨body, hb, hp⟩ := bind_ok_iff.mp h
  obtain ⟨rfl, hroom⟩ := hostBody_ok hb
  refine (StoreInner.allocGc_event hp ?_).sameBudget
  rw [(hreserve.2.accounted ha).used, GcObject.byteSize, ← Nat.add_assoc]
  exact hroom

/-- The reservation stays gated through every operation a limiter answers. -/
theorem gated_run (hs : Gated s) (ha : Accounted s.inner) {op : StoreOp} (hl : op.Limited) :
    Gated (s.run op).1 := by
  have hskip : ∀ {α : Type} {r : Outcome α} {b : Option Alloc}, Gated r.1 →
      Gated (r.andThen fun s _ => (s, .ok b)).1 :=
    fun h => gated_andThen h fun _ _ => h
  cases op with
  | guestNew stackRoots op =>
    have h := gated_guestNew hs ha stackRoots op
    exact gated_andThen h fun _ _ => h
  | guestThrow stackRoots entity =>
    have h := gated_guestThrow hs ha stackRoots entity
    exact gated_andThen h fun _ _ => h
  | externConvertAny v =>
    refine hskip (gated_onInner hs fun v' inner h => ?_)
    rcases StoreInner.externConvertAny_cases h with rfl | ⟨e, i, hp⟩
    · exact SameBudget.refl _
    · exact (StoreInner.pushExtern_event hp).sameBudget
  | anyConvertExtern v =>
    refine hskip (gated_onInner hs fun v' inner h => ?_)
    rcases StoreInner.anyConvertExtern_cases h with rfl | ⟨o, i, hp⟩
    · exact SameBudget.refl _
    · exact (StoreInner.allocGcUnreserved_event hp).sameBudget
  | growGc grow limiter => exact hskip (gated_growGcReservation hs _ _ hl)
  | hostNew isAsync execRoots typeId kind data limiter =>
    exact hskip (gated_hostNew hs ha isAsync execRoots typeId kind data hl)
  | hostExtern execRoots payload limiter =>
    have h := gated_gcReserveHost hs execRoots arenaEntryOverhead hl
    refine hskip (gated_andThen h fun _ _ => gated_onInner h fun i inner hp => ?_)
    exact (StoreInner.pushExtern_event hp).sameBudget
  | hostExn execRoots entity limiter =>
    have h := gated_gcReserveHost hs execRoots entity.byteSize hl
    refine hskip (gated_andThen h fun _ _ => gated_onInner h fun i inner hp => ?_)
    exact (StoreInner.allocExn_event hp).sameBudget
  | constNew object =>
    refine hskip (gated_onInner hs fun i inner hp => ?_)
    exact (StoreInner.allocGcUnreserved_event hp).sameBudget
  | writeBody index data => exact hs.sameBudget ⟨rfl, rfl⟩
  | collect stackRoots => exact hskip (gated_gcCollect hs stackRoots)
  | pushGcRoot handle kind => exact hs.sameBudget ⟨rfl, rfl⟩
  | truncateGcRoots mark => exact hs.sameBudget ⟨rfl, rfl⟩
  | setEntities engine globals tables elems pendingException => exact hs.sameBudget ⟨rfl, rfl⟩

theorem gated_runAll (hs : Gated s) (ha : Accounted s.inner) {ops : List StoreOp}
    (hl : ∀ op ∈ ops, op.Limited) : Gated (s.runAll ops) ∧ Accounted (s.runAll ops).inner := by
  induction ops generalizing s with
  | nil => exact ⟨hs, ha⟩
  | cons op ops ih =>
    refine ih (gated_run hs ha (hl op List.mem_cons_self)) ((run_events ha op).accounted ha) ?_
    exact fun op hop => hl op (List.mem_cons_of_mem _ hop)

/-! ## What an allocating instruction comes to -/

/-- The three ways an instruction that charges `charge` can go.  Placed, its entry is within the
reservation, and the limiter was not asked.  Suspended, the charge does not fit even after the
collection a tracing collector has run, and the growth to ask for is beyond both the free budget
and the reservation.  Failed, nothing was placed. -/
inductive Disposed (s : Store) (stackRoots : List (ℕ × RefKind)) (charge : ℕ)
    (r : Outcome Alloc) : Prop where
  | placed {index : ℕ} (hr : r.2 = .ok (.placed index))
      (hused : r.1.inner.gc.used ≤ r.1.inner.gc.reserved) (hlog : r.1.consulted = s.consulted)
  | suspended {grow : GcGrow} (hr : r.2 = .ok (.gcGrow grow))
      (hused : r.1.inner.gc.used ≤ s.inner.gc.used) (hlog : r.1.consulted = s.consulted)
      (hfits : r.1.inner.gc.fits charge = false)
      (hcollect : s.inner.gc.collecting = true →
        s.inner.collect stackRoots = some (.ok r.1.inner))
      (hfree : r.1.inner.gc.reservation < grow.reservedTarget)
      (hgrow : r.1.inner.gc.reserved < grow.reservedTarget ∨ usizeMax ≤ r.1.inner.gc.reserved)
  | failed {e : StoreError} (hr : r.2 = .error e)
      (hused : r.1.inner.gc.used ≤ s.inner.gc.used) (hlog : r.1.consulted = s.consulted)

/-- What `reserveGrow` leaves to the driver. -/
theorem reserveGrow_some (hs : Gated s) {grow : GcGrow}
    (h : (s.reserveGrow charge).2 = .ok (some grow)) :
    (s.reserveGrow charge).1 = s ∧ s.inner.gc.reservation < grow.reservedTarget ∧
    (s.inner.gc.reserved < grow.reservedTarget ∨ usizeMax ≤ s.inner.gc.reserved) := by
  unfold reserveGrow at h ⊢
  simp only at h ⊢
  split at h
  · nomatch Except.ok.inj h
  · rename_i hfree
    rw [if_neg hfree]
    obtain rfl := Option.some.inj (Except.ok.inj h)
    refine ⟨rfl, by simpa [GcHeap.isFreeGrant] using hfree, ?_⟩
    have hstep : saturatingAdd s.inner.gc.reserved s.nextGrow ≤ s.desiredReservation charge :=
      le_max_left _ _
    have := hs.nextGrow
    unfold saturatingAdd at hstep
    simp only
    omega

theorem reserveGrow_frame (s : Store) (charge : ℕ) :
    (s.reserveGrow charge).1.inner.gc.used = s.inner.gc.used ∧
    (s.reserveGrow charge).1.consulted = s.consulted ∧
    ∀ e, (s.reserveGrow charge).2 ≠ .error e := by
  unfold reserveGrow
  simp only
  split
  · exact ⟨rfl, rfl, fun e h => (nomatch h)⟩
  · exact ⟨rfl, rfl, fun e h => (nomatch h)⟩

theorem gcCollect_frame (s : Store) (stackRoots : List (ℕ × RefKind)) :
    (s.gcCollect stackRoots).1.inner.gc.used ≤ s.inner.gc.used ∧
    (s.gcCollect stackRoots).1.consulted = s.consulted := by
  unfold gcCollect
  split
  · rename_i inner h
    exact ⟨collect_used_le (gcCollect_inner h), rfl⟩
  · exact ⟨le_rfl, rfl⟩

theorem gcReserve_frame (s : Store) (stackRoots : List (ℕ × RefKind)) (charge : ℕ) :
    (s.gcReserve stackRoots charge).1.inner.gc.used ≤ s.inner.gc.used ∧
    (s.gcReserve stackRoots charge).1.consulted = s.consulted := by
  unfold gcReserve
  split
  · exact ⟨le_rfl, rfl⟩
  · split
    · have hc := s.gcCollect_frame stackRoots
      rcases hr : s.gcCollect stackRoots with ⟨s', e | _⟩
      · rw [hr] at hc
        exact hc
      · rw [hr] at hc
        simp only [Outcome.andThen]
        split
        · exact hc
        · have hg := reserveGrow_frame s' charge
          exact ⟨hg.1.trans_le hc.1, hg.2.1.trans hc.2⟩
    · have hg := reserveGrow_frame s charge
      exact ⟨hg.1.le, hg.2.1⟩

/-- A reservation that suspends has collected before, if the collector traces. -/
theorem gcReserve_some {s : Store} (hs : Gated s) {stackRoots : List (ℕ × RefKind)}
    {charge : ℕ} {grow : GcGrow} (h : (s.gcReserve stackRoots charge).2 = .ok (some grow)) :
    (s.gcReserve stackRoots charge).1.inner.gc.fits charge = false ∧
    (s.inner.gc.collecting = true →
      s.inner.collect stackRoots = some (.ok (s.gcReserve stackRoots charge).1.inner)) ∧
    (s.gcReserve stackRoots charge).1.inner.gc.reservation < grow.reservedTarget ∧
    ((s.gcReserve stackRoots charge).1.inner.gc.reserved < grow.reservedTarget ∨
      usizeMax ≤ (s.gcReserve stackRoots charge).1.inner.gc.reserved) := by
  unfold gcReserve at h ⊢
  split at h
  · cases Except.ok.inj h
  · rename_i hfits
    rw [if_neg hfits]
    split at h
    · rename_i hcond
      rw [if_pos hcond]
      have hg := gated_gcCollect hs stackRoots
      unfold gcCollect at h hg ⊢
      split at h
      · rename_i inner hinner
        rw [hinner] at hg
        simp only [Outcome.andThen] at h ⊢
        split at h
        · cases Except.ok.inj h
        · rename_i hfits'
          rw [if_neg hfits']
          obtain ⟨hsame, hfree, hgrow⟩ := reserveGrow_some hg h
          rw [hsame]
          exact ⟨by simpa using hfits', fun _ => gcCollect_inner hinner, hfree, hgrow⟩
      · cases h
    · rename_i hcond
      rw [if_neg hcond]
      obtain ⟨hsame, hfree, hgrow⟩ := reserveGrow_some hs h
      rw [hsame]
      refine ⟨by simpa using hfits, fun hc => ?_, hfree, hgrow⟩
      -- Without a collection the growth was within the free budget, which needs no driver.
      exfalso
      have hfreeGrant : s.inner.gc.isFreeGrant (s.desiredReservation charge) = true := by
        simpa [hc] using hcond
      unfold reserveGrow at h
      simp only [hfreeGrant, if_true] at h
      cases Except.ok.inj h

/-- The disposition of an instruction whose entry weighs what was reserved for it. -/
theorem reserved_disposed (hs : Gated s) (ha : Accounted s.inner) (stackRoots : List (ℕ × RefKind))
    {f : StoreInner → Except StoreError (ℕ × StoreInner)}
    (hplace : ∀ (s' : StoreInner) i inner, s'.gc.fits charge = true →
      f s' = .ok (i, inner) →
      SameBudget s' inner ∧ inner.gc.used = s'.gc.used + charge) :
    Disposed s stackRoots charge
      (reserved (s.gcReserve stackRoots charge) fun s => s.onInner (f s.inner)) := by
  have hframe := s.gcReserve_frame stackRoots charge
  have hfits := (gcReserve_spec ha stackRoots charge).2
  have hsome := @gcReserve_some s hs stackRoots charge
  rcases hr : s.gcReserve stackRoots charge with ⟨s', e | grow⟩
  · rw [hr] at hframe
    exact .failed rfl hframe.1 hframe.2
  · rw [hr] at hframe hfits hsome
    cases grow with
    | some grow =>
      obtain ⟨h1, h2, h3, h4⟩ := hsome rfl
      exact .suspended rfl hframe.1 hframe.2 h1 h2 h3 h4
    | none =>
      have hf := hfits rfl
      unfold reserved
      simp only [Outcome.andThen]
      rcases halloc : f s'.inner with e | ⟨i, inner⟩
      · exact .failed rfl hframe.1 hframe.2
      · obtain ⟨hsame, hused⟩ := hplace _ _ _ hf halloc
        refine .placed rfl ?_ hframe.2
        change inner.gc.used ≤ inner.gc.reserved
        rw [hused, hsame.reserved]
        exact (GcHeap.fits_iff.mp hf).2

theorem guestNew_disposed (hs : Gated s) (ha : Accounted s.inner) (stackRoots : List (ℕ × RefKind))
    {op : AllocOp} (hc : op.charge = .ok charge) :
    Disposed s stackRoots charge (s.guestNew stackRoots op) := by
  unfold guestNew
  rw [hc]
  refine reserved_disposed hs ha stackRoots
    (f := fun s => s.buildObject op >>= s.allocGc) fun s' i inner hfits h => ?_
  obtain ⟨o, ho, hp⟩ := bind_ok_iff.mp h
  have hsize := charge_eq_byteSize hc ho
  rw [← hsize] at hfits ⊢
  have hevent := StoreInner.allocGc_event hp (GcHeap.fits_iff.mp hfits).1
  refine ⟨hevent.sameBudget, ?_⟩
  have hle := (GcHeap.fits_iff.mp hfits).1
  unfold StoreInner.allocGc at hp
  cases hg : s'.gc.alloc o with
  | error e => simp [hg, Except.map] at hp
  | ok p =>
    obtain ⟨index, gc⟩ := p
    obtain ⟨-, rfl⟩ := GcHeap.alloc_ok hg
    rw [hg] at hp
    obtain ⟨-, rfl⟩ := Prod.mk.inj (Except.ok.inj hp)
    exact saturatingAdd_eq hle

theorem guestThrow_disposed (hs : Gated s) (ha : Accounted s.inner)
    (stackRoots : List (ℕ × RefKind)) (entity : ExnEntity) :
    Disposed s stackRoots entity.byteSize (s.guestThrow stackRoots entity) := by
  unfold guestThrow
  refine reserved_disposed hs ha stackRoots
    (f := fun s => s.allocExn entity) fun s' i inner hfits hp => ?_
  refine ⟨(StoreInner.allocExn_event hp).sameBudget, ?_⟩
  have hle := (GcHeap.fits_iff.mp hfits).1
  unfold StoreInner.allocExn at hp
  split at hp
  · obtain ⟨-, rfl⟩ := Prod.mk.inj (Except.ok.inj hp)
    exact saturatingAdd_eq hle
  · nomatch hp

/-! ## Guest instructions -/

/-- From `s` to `s'` the bytes in use do not rise above `bound`. -/
def StaysWithin (s s' : Store) (bound : ℕ) : Prop :=
  s'.inner.gc.used ≤ s.inner.gc.used ∨ s'.inner.gc.used ≤ bound

instance (s s' : Store) (bound : ℕ) : Decidable (StaysWithin s s' bound) :=
  inferInstanceAs (Decidable (_ ∨ _))

theorem Disposed.staysWithin {stackRoots : List (ℕ × RefKind)} {r : Outcome Alloc}
    (h : Disposed s stackRoots charge r) (hr : Gated r.1) : StaysWithin s r.1 r.1.allowance := by
  cases h with
  | placed _ hused _ => exact Or.inr (hused.trans hr.reserved)
  | suspended _ hused => exact Or.inl hused
  | failed _ hused => exact Or.inl hused

/-- What the driver makes of a suspended growth, with a synchronous limiter that decides `b`. -/
structure Consulted (s : Store) (grow : GcGrow) (b : Bool) (r : Outcome Unit) : Prop where
  log : r.1.consulted = ⟨grow.reservedTarget, b⟩ :: s.consulted
  used : r.1.inner.gc.used = s.inner.gc.used
  approved : b = true → r.2 = .ok () ∧ r.1.inner.gc.reserved = grow.reservedTarget
  denied : b = false → r.2 = .error (.gcHeapOutOfMemory grow.bytesNeeded) ∧ r.1.inner = s.inner

theorem growGc_consulted {grow : GcGrow} (h : s.inner.gc.reserved < grow.reservedTarget)
    (b : Bool) :
    Consulted s grow b
      (s.growGcReservation grow.reservedTarget grow.bytesNeeded (.sync (.ok b))) := by
  unfold growGcReservation
  rw [if_neg (by omega)]
  cases b with
  | true => exact ⟨rfl, rfl, fun _ => ⟨rfl, rfl⟩, nofun⟩
  | false => exact ⟨rfl, rfl, nofun, fun _ => ⟨rfl, rfl⟩⟩

/-- A conversion stays under the hard ceiling, or fails and changes nothing. -/
theorem pushExtern_used_le {s s' : StoreInner} {e : ExternEntry} {i : ℕ}
    (h : s.pushExtern e = .ok (i, s')) : s'.gc.used ≤ s.gc.unreservedCeiling := by
  unfold StoreInner.pushExtern at h
  split at h
  · rename_i hc
    have hfit := GcHeap.canFitLimit_iff.mp hc
    obtain ⟨-, rfl⟩ := Prod.mk.inj (Except.ok.inj h)
    exact (saturatingAdd_eq hfit.1).trans_le hfit.2
  · nomatch h

theorem allocGcUnreserved_used_le {s s' : StoreInner} {o : GcObject} {i : ℕ}
    (h : s.allocGcUnreserved o = .ok (i, s')) : s'.gc.used ≤ s.gc.unreservedCeiling := by
  unfold StoreInner.allocGcUnreserved GcHeap.allocUnreserved at h
  split at h
  · rename_i hc
    have hfit := GcHeap.canFitLimit_iff.mp hc
    cases ha : s.gc.alloc o with
    | error e => simp [ha, Except.map] at h
    | ok p =>
      obtain ⟨index, gc⟩ := p
      obtain ⟨-, rfl⟩ := GcHeap.alloc_ok ha
      rw [ha] at h
      obtain ⟨-, rfl⟩ := Prod.mk.inj (Except.ok.inj h)
      exact (saturatingAdd_eq hfit.1).trans_le hfit.2
  · nomatch h

theorem onInner_staysWithin {α : Type} {bound : ℕ} {r : Except StoreError (α × StoreInner)}
    (h : ∀ a inner, r = .ok (a, inner) → inner.gc.used ≤ s.inner.gc.used ∨ inner.gc.used ≤ bound) :
    StaysWithin s (s.onInner r).1 bound := by
  rcases r with e | ⟨a, inner⟩
  · exact Or.inl le_rfl
  · exact h a inner rfl

theorem run_externConvertAny_fst (s : Store) (v : Val) :
    (s.run (.externConvertAny v)).1 = (s.onInner (s.inner.externConvertAny v)).1 := by
  change (Outcome.andThen (s.onInner (s.inner.externConvertAny v)) _).1 = _
  rcases s.onInner (s.inner.externConvertAny v) with ⟨s', e | a⟩ <;> rfl

theorem run_anyConvertExtern_fst (s : Store) (v : Val) :
    (s.run (.anyConvertExtern v)).1 = (s.onInner (s.inner.anyConvertExtern v)).1 := by
  change (Outcome.andThen (s.onInner (s.inner.anyConvertExtern v)) _).1 = _
  rcases s.onInner (s.inner.anyConvertExtern v) with ⟨s', e | a⟩ <;> rfl

theorem externConvertAny_staysWithin (s : Store) (v : Val) :
    StaysWithin s (s.run (.externConvertAny v)).1 s.inner.gc.unreservedCeiling := by
  rw [run_externConvertAny_fst]
  refine onInner_staysWithin fun v' inner h => ?_
  rcases StoreInner.externConvertAny_cases h with rfl | ⟨e, i, hp⟩
  · exact Or.inl le_rfl
  · exact Or.inr (pushExtern_used_le hp)

theorem anyConvertExtern_staysWithin (s : Store) (v : Val) :
    StaysWithin s (s.run (.anyConvertExtern v)).1 s.inner.gc.unreservedCeiling := by
  rw [run_anyConvertExtern_fst]
  refine onInner_staysWithin fun v' inner h => ?_
  rcases StoreInner.anyConvertExtern_cases h with rfl | ⟨o, i, hp⟩
  · exact Or.inl le_rfl
  · exact Or.inr (allocGcUnreserved_used_le hp)

/-- What a limiter guarantees of the instructions executed in a store. -/
structure GuestGated (s : Store) : Prop where
  /-- The reservation is authorised. -/
  reserved : s.inner.gc.reserved ≤ s.allowance
  /-- An allocating instruction is placed within it, suspends for the limiter or fails. -/
  new : ∀ stackRoots op charge, op.charge = .ok charge →
    Disposed s stackRoots charge (s.guestNew stackRoots op) ∧
    StaysWithin s (s.guestNew stackRoots op).1 (s.guestNew stackRoots op).1.allowance
  newTrap : ∀ stackRoots op e, op.charge = .error e → s.guestNew stackRoots op = (s, .error e)
  throw : ∀ stackRoots entity,
    Disposed s stackRoots entity.byteSize (s.guestThrow stackRoots entity) ∧
    StaysWithin s (s.guestThrow stackRoots entity).1 (s.guestThrow stackRoots entity).1.allowance
  /-- A suspended growth asks the limiter for exactly its target. -/
  grow : ∀ (grow : GcGrow) (b : Bool), s.inner.gc.reserved < grow.reservedTarget →
    Consulted s grow b
      (s.growGcReservation grow.reservedTarget grow.bytesNeeded (.sync (.ok b)))
  /-- A conversion is bounded by the hard ceiling alone. -/
  externConvert : ∀ v, StaysWithin s (s.run (.externConvertAny v)).1
    (max s.allowance abortSafetyCap)
  anyConvert : ∀ v, StaysWithin s (s.run (.anyConvertExtern v)).1
    (max s.allowance abortSafetyCap)

/-- **Limiter gating.**  After every history of a store whose operations a limiter answers, no
allocating instruction raises the bytes in use above what was authorised: each is placed within
the reservation, or collects and asks the limiter, or fails. -/
theorem guest_gated (engine : TypeRegistry) (collecting : Bool) (reservation : ℕ)
    {ops : List StoreOp} (hl : ∀ op ∈ ops, op.Limited) :
    GuestGated ((Store.new engine collecting reservation).runAll ops) := by
  obtain ⟨hs, ha⟩ := gated_runAll (gated_new engine collecting reservation)
    (accounted_new engine collecting reservation) hl
  generalize (Store.new engine collecting reservation).runAll ops = s at hs ha
  have hceiling : s.inner.gc.unreservedCeiling ≤ max s.allowance abortSafetyCap := by
    have := hs.reserved
    unfold GcHeap.unreservedCeiling
    unfold allowance at this ⊢
    omega
  have hle : ∀ {s' : Store}, StaysWithin s s' s.inner.gc.unreservedCeiling →
      StaysWithin s s' (max s.allowance abortSafetyCap) :=
    fun h => h.imp id fun h => h.trans hceiling
  refine ⟨hs.reserved, fun stackRoots op charge hc => ?_, fun stackRoots op e he => ?_,
    fun stackRoots entity => ?_, fun grow b h => growGc_consulted h b,
    fun v => hle (externConvertAny_staysWithin s v),
    fun v => hle (anyConvertExtern_staysWithin s v)⟩
  · have hd := guestNew_disposed hs ha stackRoots hc
    exact ⟨hd, hd.staysWithin (gated_guestNew hs ha stackRoots op)⟩
  · unfold guestNew
    rw [he]
  · have hd := guestThrow_disposed hs ha stackRoots entity
    exact ⟨hd, hd.staysWithin (gated_guestThrow hs ha stackRoots entity)⟩

/-- A store with no free budget whose limiter has approved one reservation. -/
theorem guest_gated_oneApproval :
    GuestGated ((Store.new .empty true 0).runAll
      [.growGc ⟨65536, 44⟩ (.sync (.ok true)), .externConvertAny (.anyRef (some i31Tag))]) := by
  refine guest_gated .empty true 0 fun op hop => ?_
  rcases List.mem_cons.mp hop with rfl | hop
  · exact (nomatch ·)
  · rcases List.mem_cons.mp hop with rfl | hop
    · exact trivial
    · nomatch hop

/-- `extern.convert_any` on an `i31` raises the bytes in use of a store whose limiter has approved
nothing. -/
theorem not_staysWithin_externConvertAny :
    ¬ StaysWithin (Store.new .empty true 0)
      ((Store.new .empty true 0).run (.externConvertAny (.anyRef (some i31Tag)))).1
      ((Store.new .empty true 0).run (.externConvertAny (.anyRef (some i31Tag)))).1.allowance := by
  decide

end Store

end SubmilliWasm
