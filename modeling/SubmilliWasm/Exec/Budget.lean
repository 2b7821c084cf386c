/-
# The pre-authorised budget

An embedder authorises a byte budget with `gc_heap_reservation`; within it the reservation flow is
meant to grant growth directly, without a collection and without the limiter (`gc_reserve` of
`src/exec/collect.rs`, `gc_reserve_host` and its async sibling of `src/store/grow.rs`).  Whether a
growth is granted so is decided on its target, which is one growth step beyond the current
reservation, not on the bytes needed.  So an allocation within the budget is let through quietly
exactly when it fits the current reservation or that step stays within the budget too.
-/
import SubmilliWasm.Exec.Growth

namespace SubmilliWasm

theorem Event.reservation {s s' : StoreInner} {n : Option Reached} (h : Event s n s') :
    s'.gc.reservation = s.gc.reservation := by
  cases h with
  | object o _ => rfl
  | externref e _ => rfl
  | exn e _ => rfl
  | write index data => rfl
  | collect stackRoots h => exact (collect_sameBudget h).reservation
  | other h => exact h.reservation

theorem Events.reservation {s s' : StoreInner} (h : Events s s') :
    s'.gc.reservation = s.gc.reservation := by
  induction h with
  | refl => rfl
  | tail _ hlast ih =>
    obtain ⟨n, hn⟩ := hlast
    rw [hn.reservation, ih]

namespace Store

/-! ## The flow with its two ways out -/

section

variable {α : Type}

/-- The reservation flow: `collect` is what it calls to reclaim memory, and `grow` what it leaves
a growth beyond the budget to. -/
def reserveWith (collect : Store → Outcome Unit) (grow : Store → Outcome α) (done : α) (charge : ℕ)
    (s : Store) : Outcome α :=
  let finish := fun s : Store =>
    if s.inner.gc.isFreeGrant (s.desiredReservation charge) then
      ((s.grant (s.desiredReservation charge)).2, .ok done)
    else grow s
  if s.inner.gc.fits charge then (s, .ok done)
  else if !s.inner.gc.isFreeGrant (s.desiredReservation charge) && s.inner.gc.collecting then
    (collect s).andThen fun s _ =>
      if s.inner.gc.fits charge then (s, .ok done) else finish s
  else finish s

end

/-- An instruction leaves the growth to the driver, which asks the limiter. -/
theorem gcReserve_eq_reserveWith (s : Store) (roots : List (ℕ × RefKind)) (charge : ℕ) :
    s.gcReserve roots charge = s.reserveWith (·.gcCollect roots)
      (fun s => (s, .ok (some ⟨s.desiredReservation charge, charge⟩))) none charge := rfl

theorem gcReserveHost_eq_reserveWith (s : Store) (roots : List (ℕ × RefKind)) (charge : ℕ)
    (limiter : Limiter) :
    s.gcReserveHost roots charge limiter = s.reserveWith (·.gcCollect roots)
      (fun s => s.growGcReservation (s.desiredReservation charge) charge limiter) () charge := rfl

theorem gcReserveHostAsync_eq_reserveWith (s : Store) (roots : List (ℕ × RefKind)) (charge : ℕ)
    (limiter : Limiter) :
    s.gcReserveHostAsync roots charge limiter = s.reserveWith (·.gcCollect roots)
      (fun s => s.growWith (s.desiredReservation charge) charge limiter.askAsync) () charge := rfl

/-! ## Quiet reservations -/

/-- The flow lets `charge` bytes through on all its paths, whatever stands in the place of the
collection and of the limiter: it calls neither and does not fail. -/
structure Lets (s : Store) (charge : ℕ) (s' : Store) : Prop where
  flow : ∀ (α : Type) (done : α) (collect : Store → Outcome Unit) (grow : Store → Outcome α),
    s.reserveWith collect grow done charge = (s', .ok done)
  guest : ∀ roots, s.gcReserve roots charge = (s', .ok none)
  host : ∀ roots limiter, s.gcReserveHost roots charge limiter = (s', .ok ())
  hostAsync : ∀ roots limiter, s.gcReserveHostAsync roots charge limiter = (s', .ok ())
  consulted : s'.consulted = s.consulted

def Quiet (s : Store) (charge : ℕ) : Prop := ∃ s', s.Lets charge s'

theorem Lets.of_flow {s s' : Store} {charge : ℕ}
    (h : ∀ (α : Type) (done : α) (collect : Store → Outcome Unit) (grow : Store → Outcome α),
      s.reserveWith collect grow done charge = (s', .ok done))
    (hc : s'.consulted = s.consulted) : s.Lets charge s' := by
  refine ⟨h, fun roots => ?_, fun roots limiter => ?_, fun roots limiter => ?_, hc⟩
  · rw [gcReserve_eq_reserveWith]
    apply h
  · rw [gcReserveHost_eq_reserveWith]
    apply h
  · rw [gcReserveHostAsync_eq_reserveWith]
    apply h

/-- The flow is quiet exactly when the charge fits or the target is within the free budget. -/
theorem quiet_iff {s : Store} {charge : ℕ} :
    s.Quiet charge ↔ s.inner.gc.fits charge = true ∨
      s.inner.gc.isFreeGrant (s.desiredReservation charge) = true := by
  constructor
  · rintro ⟨s', h⟩
    by_contra hno
    obtain ⟨hfits, hfree⟩ := not_or.mp hno
    -- With a collection and a limiter that fail, the flow fails.
    have hflow := h.flow Unit () (fun s => (s, .error .panic)) (fun s => (s, .error .panic))
    unfold reserveWith at hflow
    rw [if_neg hfits] at hflow
    by_cases hc : s.inner.gc.collecting = true
    · rw [if_pos (by simp [hfree, hc])] at hflow
      nomatch congrArg Prod.snd hflow
    · rw [if_neg (by simp [hc])] at hflow
      simp only [if_neg hfree] at hflow
      nomatch congrArg Prod.snd hflow
  · rintro (hfits | hfree)
    · refine ⟨s, .of_flow (fun α done collect grow => ?_) rfl⟩
      unfold reserveWith
      rw [if_pos hfits]
    · by_cases hfits : s.inner.gc.fits charge = true
      · refine ⟨s, .of_flow (fun α done collect grow => ?_) rfl⟩
        unfold reserveWith
        rw [if_pos hfits]
      · refine ⟨(s.grant (s.desiredReservation charge)).2,
          .of_flow (fun α done collect grow => ?_) rfl⟩
        unfold reserveWith
        rw [if_neg hfits, if_neg (by simp [hfree])]
        simp only [if_pos hfree]

/-! ## Within the budget -/

/-- The budget that `gc_heap_reservation = R` comes to. -/
def budget (R : ℕ) : ℕ := min R abortSafetyCap

/-- **The pre-authorised budget.**  In every state that a store with `gc_heap_reservation = R`
reaches, an allocation that the budget covers beside the bytes in use is let through without a
collection and without the limiter exactly when it fits the current reservation, or the current
reservation with the next growth step stays within the budget. -/
theorem quiet_within_budget_iff (engine : TypeRegistry) (collecting : Bool) (R : ℕ)
    (hR : R ≤ usizeMax) (ops : List StoreOp) (charge : ℕ) (s : Store)
    (hs : s = (Store.new engine collecting R).runAll ops)
    (h : s.inner.gc.used + charge ≤ R) :
    s.Quiet charge ↔ s.inner.gc.used + charge ≤ s.inner.gc.reserved ∨
      (s.inner.gc.used + charge ≤ budget R ∧
        saturatingAdd s.inner.gc.reserved s.nextGrow ≤ budget R) := by
  have hnew : Accounted (Store.new engine collecting R).inner := accounted_new engine collecting R
  have hevents := runAll_events hnew ops
  rw [← hs] at hevents
  have hbudget : s.inner.gc.reservation = budget R := hevents.reservation
  have hsum : s.inner.gc.used + charge ≤ usizeMax := h.trans hR
  rw [quiet_iff, GcHeap.fits_iff, isFreeGrant_iff hsum, hbudget]
  constructor
  · rintro (⟨-, hfits⟩ | ⟨hstep, hle⟩)
    · exact Or.inl hfits
    · exact Or.inr ⟨hle, hstep⟩
  · rintro (hfits | ⟨hle, hstep⟩)
    · exact Or.inl ⟨hsum, hfits⟩
    · exact Or.inr ⟨hstep, hle⟩

/-- The first allocation in a store whose budget is one growth step. -/
theorem quiet_within_budget_iff_step : (Store.new .empty true 65536).Quiet 65536 :=
  (quiet_within_budget_iff .empty true 65536 (by decide) [] 65536 _ rfl (by decide)).mpr
    (Or.inr (by decide))

/-- With a budget of 1000 bytes, the first entry of 64 bytes collects. -/
theorem not_quiet_within_budget :
    ¬ ∀ (engine : TypeRegistry) (collecting : Bool) (R : ℕ) (ops : List StoreOp) (charge : ℕ),
      R ≤ usizeMax →
      ((Store.new engine collecting R).runAll ops).inner.gc.used + charge ≤ R →
      ((Store.new engine collecting R).runAll ops).Quiet charge := by
  intro h
  have hquiet := quiet_iff.mp (h .empty true 1000 [] 64 (by decide) (by decide))
  revert hquiet
  decide

end Store

end SubmilliWasm
