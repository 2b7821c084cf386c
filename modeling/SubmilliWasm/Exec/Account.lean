/-
# Accounting of the managed heap

Every operation on the managed side of a store is a sequence of events, whatever it fails with;
so the accounting invariant holds after every history.  The one addition of the source that no
earlier check keeps from saturating, the one for an object built by the host, is covered by the
memory the object's body has just been given.
-/
import SubmilliWasm.Exec.Reserve
import SubmilliWasm.Store.Handles

namespace SubmilliWasm

open Fallible

/-! ## The allocators are events -/

theorem GcHeap.alloc_ok {h h' : GcHeap} {o : GcObject} {i : ℕ} (ha : h.alloc o = .ok (i, h')) :
    i = (h.arena.alloc o).1 ∧
    h' = { h with arena := (h.arena.alloc o).2, used := saturatingAdd h.used o.byteSize } := by
  unfold GcHeap.alloc at ha
  split at ha
  · nomatch ha
  · obtain ⟨rfl, rfl⟩ := Prod.mk.inj (Except.ok.inj ha)
    exact ⟨rfl, rfl⟩

namespace StoreInner

variable {s s' : StoreInner} {v v' : Val}

theorem allocGc_event {o : GcObject} {i : ℕ} (h : s.allocGc o = .ok (i, s'))
    (hfit : s.gc.used + o.byteSize ≤ usizeMax) : Event s (some (.gc i)) s' := by
  unfold allocGc at h
  cases ha : s.gc.alloc o with
  | error e => simp [ha, Except.map] at h
  | ok p =>
    obtain ⟨index, gc⟩ := p
    obtain ⟨rfl, rfl⟩ := GcHeap.alloc_ok ha
    rw [ha] at h
    obtain ⟨rfl, rfl⟩ := Prod.mk.inj (Except.ok.inj h)
    rw [saturatingAdd_eq hfit]
    exact Event.object o hfit

theorem allocGcUnreserved_event {o : GcObject} {i : ℕ} (h : s.allocGcUnreserved o = .ok (i, s')) :
    Event s (some (.gc i)) s' := by
  unfold allocGcUnreserved GcHeap.allocUnreserved at h
  split at h
  · rename_i hfit
    exact allocGc_event h (GcHeap.canFitLimit_iff.mp hfit).1
  · nomatch h

theorem pushExtern_event {e : ExternEntry} {i : ℕ} (h : s.pushExtern e = .ok (i, s')) :
    Event s (some (.extern_ i)) s' := by
  unfold pushExtern at h
  split at h
  · rename_i hc
    have hfit := (GcHeap.canFitLimit_iff.mp hc).1
    obtain ⟨rfl, rfl⟩ := Prod.mk.inj (Except.ok.inj h)
    rw [GcHeap.charge, saturatingAdd_eq hfit]
    exact Event.externref e hfit
  · nomatch h

theorem allocExn_event {e : ExnEntity} {i : ℕ} (h : s.allocExn e = .ok (i, s')) :
    Event s (some (.exn i)) s' := by
  unfold allocExn at h
  split at h
  · rename_i hc
    have hfit := (GcHeap.canFitLimit_iff.mp hc).1
    obtain ⟨rfl, rfl⟩ := Prod.mk.inj (Except.ok.inj h)
    rw [GcHeap.charge, saturatingAdd_eq hfit]
    exact Event.exn e hfit
  · nomatch h

/-- A conversion hands its operand over as it is or internalizes it in a fresh entry. -/
theorem externConvertAny_cases (h : s.externConvertAny v = .ok (v', s')) :
    s' = s ∨ ∃ e i, s.pushExtern e = .ok (i, s') := by
  have hhandle : ∀ {handle i : ℕ} {s'' : StoreInner},
      s.externConvertHandle handle = .ok (i, s'') →
      s'' = s ∨ ∃ e i, s.pushExtern e = .ok (i, s'') := by
    intro handle i s'' h
    unfold externConvertHandle at h
    split at h
    · split at h
      · nomatch h
      · split at h
        · exact Or.inl (Prod.mk.inj (Except.ok.inj h)).2.symm
        · exact Or.inr ⟨_, _, h⟩
    · exact Or.inr ⟨_, _, h⟩
  unfold externConvertAny at h
  split at h
  · exact Or.inl (Prod.mk.inj (Except.ok.inj h)).2.symm
  · rename_i handle
    cases hc : s.externConvertHandle handle with
    | error e => simp [hc, Except.map] at h
    | ok p =>
      rw [hc] at h
      obtain ⟨-, rfl⟩ := Prod.mk.inj (Except.ok.inj h)
      exact hhandle hc
  · exact Or.inl (Prod.mk.inj (Except.ok.inj h)).2.symm

/-- A conversion recovers an internalized reference or wraps its operand in a fresh object. -/
theorem anyConvertExtern_cases (h : s.anyConvertExtern v = .ok (v', s')) :
    s' = s ∨ ∃ o i, s.allocGcUnreserved o = .ok (i, s') := by
  have hindex : ∀ {idx i : ℕ} {s'' : StoreInner}, s.anyConvertIndex idx = .ok (i, s'') →
      s'' = s ∨ ∃ o i, s.allocGcUnreserved o = .ok (i, s'') := by
    intro idx i s'' h
    unfold anyConvertIndex at h
    split at h
    · exact Or.inl (Prod.mk.inj (Except.ok.inj h)).2.symm
    · exact Or.inr ⟨_, _, h⟩
    · nomatch h
  unfold anyConvertExtern at h
  split at h
  · exact Or.inl (Prod.mk.inj (Except.ok.inj h)).2.symm
  · rename_i idx
    cases hc : s.anyConvertIndex idx with
    | error e => simp [hc, Except.map] at h
    | ok p =>
      rw [hc] at h
      obtain ⟨-, rfl⟩ := Prod.mk.inj (Except.ok.inj h)
      exact hindex hc
  · exact Or.inl (Prod.mk.inj (Except.ok.inj h)).2.symm

theorem externConvertAny_events (h : s.externConvertAny v = .ok (v', s')) : Events s s' := by
  rcases externConvertAny_cases h with rfl | ⟨e, i, hpush⟩
  · exact Events.refl _
  · exact Events.single (pushExtern_event hpush)

theorem anyConvertExtern_events (h : s.anyConvertExtern v = .ok (v', s')) : Events s s' := by
  rcases anyConvertExtern_cases h with rfl | ⟨o, i, halloc⟩
  · exact Events.refl _
  · exact Events.single (allocGcUnreserved_event halloc)

end StoreInner

namespace Store

/-! ## The reservation flow only collects -/

variable {s : Store}

theorem events_andThen {α β : Type} {r : Outcome α} {f : Store → α → Outcome β}
    (hr : Events s.inner r.1.inner) (hf : ∀ a, r.2 = .ok a → Events r.1.inner (f r.1 a).1.inner) :
    Events s.inner (r.andThen f).1.inner := by
  obtain ⟨s', e | a⟩ := r
  · exact hr
  · exact hr.trans (hf _ rfl)

theorem events_onInner {α : Type} {r : Except StoreError (α × StoreInner)}
    (h : ∀ a inner, r = .ok (a, inner) → Events s.inner inner) :
    Events s.inner (s.onInner r).1.inner := by
  rcases r with e | ⟨a, inner⟩
  · exact Events.refl _
  · exact h a inner rfl

theorem grant_events (s : Store) (target : ℕ) : Events s.inner (s.grant target).2.inner :=
  Events.single (Event.other ⟨rfl, rfl, rfl, rfl, rfl, rfl⟩)

theorem gcCollect_events (s : Store) (stackRoots : List (ℕ × RefKind)) :
    Events s.inner (s.gcCollect stackRoots).1.inner := by
  unfold gcCollect
  split
  · rename_i inner h
    refine Events.single (Event.collect stackRoots ?_)
    rw [StoreInner.collect_eq_gcCollect, h]
  · exact Events.refl _

theorem growWith_events (s : Store) (target bytesNeeded : ℕ)
    (answer : Except StoreError (Option Bool)) :
    Events s.inner (s.growWith target bytesNeeded answer).1.inner := by
  unfold growWith
  split
  · exact Events.refl _
  · split
    · exact s.grant_events target
    · exact Events.refl _
  · simp only
    split
    · exact grant_events { s with consulted := _ } target
    · exact Events.refl _

theorem growGcReservation_events (s : Store) (target bytesNeeded : ℕ) (limiter : Limiter) :
    Events s.inner (s.growGcReservation target bytesNeeded limiter).1.inner := by
  unfold growGcReservation
  split
  · exact Events.refl _
  · exact s.growWith_events _ _ _

/-- A grant within the free budget covers what it is made for. -/
theorem fits_of_isFreeGrant {charge : ℕ} (hs : Accounted s.inner)
    (h : s.inner.gc.isFreeGrant (s.desiredReservation charge) = true) :
    (s.grant (s.desiredReservation charge)).2.inner.gc.fits charge = true := by
  have htarget : s.desiredReservation charge ≤ s.inner.gc.reservation := by
    simpa [GcHeap.isFreeGrant] using h
  have hneed : saturatingAdd s.inner.gc.used charge ≤ s.desiredReservation charge :=
    le_max_right _ _
  have hcap := hs.reservation
  -- Under the abort cap the sum has not saturated.
  have hsum : s.inner.gc.used + charge = saturatingAdd s.inner.gc.used charge := by
    unfold saturatingAdd at hneed ⊢
    unfold abortSafetyCap at hcap
    unfold usizeMax at hneed ⊢
    omega
  rw [GcHeap.fits_iff]
  change s.inner.gc.used + charge ≤ usizeMax ∧
    s.inner.gc.used + charge ≤ s.desiredReservation charge
  unfold abortSafetyCap at hcap
  unfold usizeMax
  omega

theorem reserveGrow_spec (hs : Accounted s.inner) (charge : ℕ) :
    Events s.inner (s.reserveGrow charge).1.inner ∧
    ((s.reserveGrow charge).2 = .ok none →
      (s.reserveGrow charge).1.inner.gc.fits charge = true) := by
  unfold reserveGrow
  simp only
  split
  · rename_i h
    exact ⟨s.grant_events _, fun _ => fits_of_isFreeGrant hs h⟩
  · refine ⟨Events.refl _, fun h => ?_⟩
    nomatch Except.ok.inj h

/-- A reservation collects at most, and when it lets the allocation go on, the charge fits. -/
theorem gcReserve_spec (hs : Accounted s.inner) (stackRoots : List (ℕ × RefKind)) (charge : ℕ) :
    Events s.inner (s.gcReserve stackRoots charge).1.inner ∧
    ((s.gcReserve stackRoots charge).2 = .ok none →
      (s.gcReserve stackRoots charge).1.inner.gc.fits charge = true) := by
  unfold gcReserve
  split
  · rename_i hfits
    exact ⟨Events.refl _, fun _ => hfits⟩
  · split
    · have hcollect := s.gcCollect_events stackRoots
      rcases hr : s.gcCollect stackRoots with ⟨s', e | _⟩
      · rw [hr] at hcollect
        exact ⟨hcollect, nofun⟩
      · rw [hr] at hcollect
        simp only [Outcome.andThen]
        split
        · rename_i hfits
          exact ⟨hcollect, fun _ => hfits⟩
        · have hgrow := reserveGrow_spec (hcollect.accounted hs) charge
          exact ⟨hcollect.trans hgrow.1, hgrow.2⟩
    · exact reserveGrow_spec hs charge

theorem reserveHostGrow_events (s : Store) (charge : ℕ) (limiter : Limiter) :
    Events s.inner (s.reserveHostGrow charge limiter).1.inner := by
  unfold reserveHostGrow
  simp only
  split
  · exact s.grant_events _
  · exact s.growGcReservation_events _ _ _

theorem gcReserveHost_events (s : Store) (execRoots : List (ℕ × RefKind)) (charge : ℕ)
    (limiter : Limiter) : Events s.inner (s.gcReserveHost execRoots charge limiter).1.inner := by
  unfold gcReserveHost
  split
  · exact Events.refl _
  · split
    · refine events_andThen (s.gcCollect_events execRoots) fun _ _ => ?_
      split
      · exact Events.refl _
      · exact reserveHostGrow_events _ _ _
    · exact s.reserveHostGrow_events _ _

theorem gcReserveHostAsync_events (s : Store) (execRoots : List (ℕ × RefKind)) (charge : ℕ)
    (limiter : Limiter) :
    Events s.inner (s.gcReserveHostAsync execRoots charge limiter).1.inner := by
  have hgrow : ∀ s : Store, Events s.inner (s.reserveHostGrowAsync charge limiter).1.inner := by
    intro s
    unfold reserveHostGrowAsync
    simp only
    split
    · exact s.grant_events _
    · exact s.growWith_events _ _ _
  unfold gcReserveHostAsync
  split
  · exact Events.refl _
  · split
    · refine events_andThen (s.gcCollect_events execRoots) fun _ _ => ?_
      split
      · exact Events.refl _
      · exact hgrow _
    · exact hgrow s

/-! ## Operations are events -/

/-- An instruction that allocates after its reservation. -/
theorem reserved_events (hs : Accounted s.inner) (stackRoots : List (ℕ × RefKind)) {charge : ℕ}
    {f : Store → Outcome ℕ}
    (hf : ∀ s' : Store, Accounted s'.inner → s'.inner.gc.fits charge = true →
      Events s'.inner (f s').1.inner) :
    Events s.inner (reserved (s.gcReserve stackRoots charge) f).1.inner := by
  have hr := gcReserve_spec hs stackRoots charge
  unfold reserved
  refine events_andThen hr.1 fun grow hgrow => ?_
  cases grow with
  | some grow => exact Events.refl _
  | none =>
    refine events_andThen (hf _ (hr.1.accounted hs) (hr.2 hgrow)) fun index _ => ?_
    exact Events.refl _

theorem guestNew_events (hs : Accounted s.inner) (stackRoots : List (ℕ × RefKind)) (op : AllocOp) :
    Events s.inner (s.guestNew stackRoots op).1.inner := by
  unfold guestNew
  split
  · exact Events.refl _
  · rename_i charge hcharge
    refine reserved_events hs stackRoots fun s' _ hfits => events_onInner fun i inner h => ?_
    obtain ⟨o, ho, ha⟩ := bind_ok_iff.mp h
    rw [← charge_eq_byteSize hcharge ho] at hfits
    exact Events.single (StoreInner.allocGc_event ha (GcHeap.fits_iff.mp hfits).1)

theorem guestThrow_events (hs : Accounted s.inner) (stackRoots : List (ℕ × RefKind))
    (entity : ExnEntity) : Events s.inner (s.guestThrow stackRoots entity).1.inner := by
  unfold guestThrow
  refine reserved_events hs stackRoots fun s' _ _ => events_onInner fun i inner h => ?_
  exact Events.single (StoreInner.allocExn_event h)

theorem hostBody_ok {data body : List UInt8} (h : s.hostBody data = .ok body) :
    body = data ∧ s.inner.charged + objectOverhead + data.length ≤ usizeMax := by
  unfold hostBody at h
  split at h
  · rename_i hroom
    exact ⟨(boxed_ok h).1, hroom⟩
  · nomatch h

theorem hostNew_events (hs : Accounted s.inner) (isAsync : Bool) (execRoots : List (ℕ × RefKind))
    (typeId : CanonicalTypeId) (kind : ObjKind) (data : List UInt8) (limiter : Limiter) :
    Events s.inner (s.hostNew isAsync execRoots typeId kind data limiter).1.inner := by
  unfold hostNew
  have hreserve : Events s.inner (if isAsync = true then
      s.gcReserveHostAsync execRoots (objectCharge data.length) limiter else
      s.gcReserveHost execRoots (objectCharge data.length) limiter).1.inner := by
    split
    · exact s.gcReserveHostAsync_events _ _ _
    · exact s.gcReserveHost_events _ _ _
  refine events_andThen hreserve fun _ _ => events_onInner fun i inner h => ?_
  obtain ⟨body, hb, ha⟩ := bind_ok_iff.mp h
  obtain ⟨rfl, hroom⟩ := hostBody_ok hb
  refine Events.single (StoreInner.allocGc_event ha ?_)
  rw [(hreserve.accounted hs).used, GcObject.byteSize, ← Nat.add_assoc]
  exact hroom

/-- **Every operation is a sequence of events**, also one that fails. -/
theorem run_events (hs : Accounted s.inner) (op : StoreOp) : Events s.inner (s.run op).1.inner := by
  have hskip : ∀ {α : Type} {r : Outcome α} {b : Option Alloc}, Events s.inner r.1.inner →
      Events s.inner (r.andThen fun s _ => (s, .ok b)).1.inner :=
    fun h => events_andThen h fun _ _ => Events.refl _
  cases op with
  | guestNew stackRoots op =>
    exact events_andThen (guestNew_events hs stackRoots op) fun _ _ => Events.refl _
  | guestThrow stackRoots entity =>
    exact events_andThen (guestThrow_events hs stackRoots entity) fun _ _ => Events.refl _
  | externConvertAny v =>
    exact hskip (events_onInner fun _ _ h => StoreInner.externConvertAny_events h)
  | anyConvertExtern v =>
    exact hskip (events_onInner fun _ _ h => StoreInner.anyConvertExtern_events h)
  | growGc grow limiter => exact hskip (s.growGcReservation_events _ _ _)
  | hostNew isAsync execRoots typeId kind data limiter =>
    exact hskip (hostNew_events hs isAsync execRoots typeId kind data limiter)
  | hostExtern execRoots payload limiter =>
    refine hskip (events_andThen (s.gcReserveHost_events _ _ _) fun _ _ => ?_)
    exact events_onInner fun _ _ h => Events.single (StoreInner.pushExtern_event h)
  | hostExn execRoots entity limiter =>
    refine hskip (events_andThen (s.gcReserveHost_events _ _ _) fun _ _ => ?_)
    exact events_onInner fun _ _ h => Events.single (StoreInner.allocExn_event h)
  | constNew object =>
    refine hskip (events_onInner fun _ _ h => ?_)
    exact Events.single (StoreInner.allocGcUnreserved_event h)
  | writeBody index data => exact Events.single (Event.write index data)
  | collect stackRoots => exact hskip (s.gcCollect_events stackRoots)
  | pushGcRoot handle kind =>
    exact Events.single (Event.other ⟨rfl, rfl, rfl, rfl, rfl, rfl⟩)
  | truncateGcRoots mark =>
    exact Events.single (Event.other ⟨rfl, rfl, rfl, rfl, rfl, rfl⟩)
  | setEntities engine globals tables elems pendingException =>
    exact Events.single (Event.other ⟨rfl, rfl, rfl, rfl, rfl, rfl⟩)

theorem runAll_events (hs : Accounted s.inner) (ops : List StoreOp) :
    Events s.inner (s.runAll ops).inner := by
  induction ops generalizing s with
  | nil => exact Events.refl _
  | cons op ops ih =>
    have hstep := run_events hs op
    exact hstep.trans (ih (hstep.accounted hs))

/-- **A handle is good for as long as its entry lives.**  Every history of operations is an observed
run, and a handle stamped after `ops` finds its entry after `ops'` if and only if the slot has not
been freed in between, short of a whole cycle of generations. -/
theorem handle_lifetime (engine : TypeRegistry) (collecting : Bool) (reservation : ℕ)
    (ops ops' : List StoreOp) :
    ∃ w w' : Watched, (Watched.new engine collecting reservation).Run w ∧ w.Run w' ∧
      w.store = ((Store.new engine collecting reservation).runAll ops).inner ∧
      w'.store = ((Store.new engine collecting reservation).runAll (ops ++ ops')).inner ∧
      ∀ storeId h n, w.store.Stamped storeId h n → w'.freed n - w.freed n < 2 ^ 32 - 1 →
        (w'.store.resolve storeId h = .ok (some n) ↔ w'.freed n = w.freed n) := by
  have hnew := accounted_new engine collecting reservation
  have hfirst := runAll_events (s := Store.new engine collecting reservation) hnew ops
  obtain ⟨w, hw, hstore⟩ := exists_run hfirst (.new engine collecting reservation) rfl
  obtain ⟨w', hrun, hstore'⟩ := exists_run (runAll_events (hfirst.accounted hnew) ops') w hstore
  refine ⟨w, w', hw, hrun, hstore, ?_, fun storeId h n hs hfew => ?_⟩
  · rw [hstore', runAll, runAll, runAll, List.foldl_append]
  · have hg := hw.generationsChecked (generationsChecked_new engine collecting reservation) n _
      hs.generation
    have ht := hrun.tracks hs.live hs.generation hg
    constructor
    · intro hr
      have hgen := (resolve_ok hs.referent (Nat.ne_of_lt hg) hr).2
      have hzero := eq_zero_of_generation_eq hfew (Option.some.inj (ht.generation.symm.trans hgen))
      have := ht.le
      omega
    · intro hsame
      refine StoreInner.Stamped.resolves ⟨hs.referent, (ht.same hsame).1, hs.store, ?_⟩
      rw [ht.generation, hsame, Nat.sub_self, Nat.add_zero, Nat.mod_eq_of_lt hg]

/-- **Accounting.**  After every history of a new store the bytes in use are exactly what the
live entries of the three arenas are charged for, and no subtraction of a further collection can
saturate, whatever it marks. -/
theorem used_eq_charged (engine : TypeRegistry) (collecting : Bool) (reservation : ℕ)
    (ops : List StoreOp) :
    ((Store.new engine collecting reservation).runAll ops).inner.gc.used =
      ((Store.new engine collecting reservation).runAll ops).inner.charged ∧
    ∀ t, SweepExact ((Store.new engine collecting reservation).runAll ops).inner t := by
  have hnew : Accounted (Store.new engine collecting reservation).inner :=
    accounted_new engine collecting reservation
  have hs := (runAll_events hnew ops).accounted hnew
  exact ⟨hs.used, hs.sweepExact⟩

end Store

end SubmilliWasm
