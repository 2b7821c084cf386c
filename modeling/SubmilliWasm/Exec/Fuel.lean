/-
# Fuel counters

The fuel of a store (`src/store/inner.rs`): an active slice that ops are charged to, and a reserve
that is moved into it one yield interval at a time.  The fuel a store has is the sum of the two,
which only charges and `set_fuel` change.
-/
import SubmilliWasm.Store.Resources

namespace SubmilliWasm

/-- The counters and the yield interval, a `NonZeroU64`. -/
structure Fuel where
  fuel : ℕ
  fuelReserve : ℕ
  fuelYieldInterval : Option ℕ+
  deriving DecidableEq, Repr

inductive FuelStep where
  | ran
  | needYield
  | exhausted
  deriving DecidableEq, Repr

namespace Fuel

def zero : Fuel := ⟨0, 0, none⟩

/-- The fuel a store has (`fuel`). -/
def total (f : Fuel) : ℕ := f.fuel + f.fuelReserve

/-- Splits `total` by the yield interval; all of it is active without one. -/
def setFuel (f : Fuel) (total : ℕ) : Fuel :=
  let active := match f.fuelYieldInterval with
    | some i => min total i
    | none => total
  { f with fuel := active, fuelReserve := total - active }

/-- An interval of zero is none. -/
def setFuelYieldInterval (f : Fuel) (interval : Option ℕ) : Fuel :=
  let i : Option ℕ+ := interval.bind fun n => if h : 0 < n then some ⟨n, h⟩ else none
  { f with fuelYieldInterval := i }.setFuel f.total

/-- Charges one unit. -/
def consumeFuelStep (f : Fuel) : FuelStep × Fuel :=
  if 0 < f.fuel then (.ran, { f with fuel := f.fuel - 1 })
  else if 0 < f.fuelReserve then (.needYield, f)
  else (.exhausted, f)

/-- Moves one interval's fuel from the reserve into the active slice. -/
def refuelFromReserve (f : Fuel) : Fuel :=
  let interval := match f.fuelYieldInterval with
    | some i => (i : ℕ)
    | none => 0
  let take := min interval f.fuelReserve
  { f with fuel := f.fuel + take, fuelReserve := f.fuelReserve - take }

/-! ## What each operation does to the sum -/

@[simp] theorem total_setFuel (f : Fuel) (n : ℕ) : (f.setFuel n).total = n := by
  unfold setFuel total
  rcases f.fuelYieldInterval with _ | i
  · exact Nat.add_sub_cancel' (le_refl n)
  · exact Nat.add_sub_cancel' (min_le_left n i)

@[simp] theorem total_setFuelYieldInterval (f : Fuel) (i : Option ℕ) :
    (f.setFuelYieldInterval i).total = f.total := total_setFuel _ _

@[simp] theorem total_refuelFromReserve (f : Fuel) : f.refuelFromReserve.total = f.total := by
  simp only [refuelFromReserve, total]
  omega

/-- The three answers of a charge: a unit is taken iff there is one in the active slice. -/
theorem consumeFuelStep_cases (f : Fuel) :
    (∃ f', f.consumeFuelStep = (.ran, f') ∧ f.total = f'.total + 1 ∧
      f'.fuelReserve = f.fuelReserve ∧ f'.fuelYieldInterval = f.fuelYieldInterval) ∨
    (f.consumeFuelStep = (.needYield, f) ∧ f.fuel = 0 ∧ 0 < f.fuelReserve) ∨
    (f.consumeFuelStep = (.exhausted, f) ∧ f.total = 0) := by
  unfold consumeFuelStep total
  by_cases hf : 0 < f.fuel
  · rw [if_pos hf]
    exact Or.inl ⟨_, rfl, by simp only; omega, rfl, rfl⟩
  · rw [if_neg hf]
    by_cases hr : 0 < f.fuelReserve
    · rw [if_pos hr]
      exact Or.inr (Or.inl ⟨rfl, by omega, hr⟩)
    · rw [if_neg hr]
      exact Or.inr (Or.inr ⟨rfl, by omega⟩)

/-! ## Histories -/

/-- A counter of a store: it is a `u64`, and there is a reserve only while there is an interval. -/
structure Sound (f : Fuel) : Prop where
  bounded : f.total ≤ u64Max
  interval : 0 < f.fuelReserve → f.fuelYieldInterval ≠ none

theorem sound_zero : Sound zero := ⟨Nat.zero_le _, fun h => absurd h (lt_irrefl 0)⟩

theorem sound_setFuel (f : Fuel) {n : ℕ} (hn : n ≤ u64Max) : Sound (f.setFuel n) := by
  refine ⟨by rw [total_setFuel]; exact hn, fun hr => ?_⟩
  intro hnone
  have hi : f.fuelYieldInterval = none := hnone
  simp only [setFuel, hi, Nat.sub_self, lt_irrefl] at hr

theorem Sound.setFuelYieldInterval {f : Fuel} (hf : Sound f) (i : Option ℕ) :
    Sound (f.setFuelYieldInterval i) := sound_setFuel _ hf.bounded

theorem Sound.consumeFuelStep {f : Fuel} (hf : Sound f) : Sound f.consumeFuelStep.2 := by
  rcases consumeFuelStep_cases f with ⟨f', h, ht, hr, hi⟩ | ⟨h, -⟩ | ⟨h, -⟩
  · rw [h]
    refine ⟨?_, fun h0 => ?_⟩
    · have := hf.bounded
      show f'.total ≤ u64Max
      omega
    · show f'.fuelYieldInterval ≠ none
      rw [hi]
      exact hf.interval (hr ▸ h0)
  · rw [h]
    exact hf
  · rw [h]
    exact hf

theorem Sound.refuelFromReserve {f : Fuel} (hf : Sound f) : Sound f.refuelFromReserve := by
  refine ⟨by rw [total_refuelFromReserve]; exact hf.bounded, fun h0 => hf.interval ?_⟩
  simp only [Fuel.refuelFromReserve] at h0
  omega

/-- After the refuel that follows a `NeedYield` the next charge is taken. -/
theorem Sound.ran_after_refuel {f : Fuel} (hf : Sound f)
    (h : f.consumeFuelStep.1 = .needYield) : f.refuelFromReserve.consumeFuelStep.1 = .ran := by
  have hr : f.fuel = 0 ∧ 0 < f.fuelReserve := by
    rcases consumeFuelStep_cases f with ⟨f', h', -⟩ | ⟨-, h0, hr⟩ | ⟨h', -⟩
    · rw [h'] at h
      nomatch h
    · exact ⟨h0, hr⟩
    · rw [h'] at h
      nomatch h
  obtain ⟨i, hi⟩ := Option.ne_none_iff_exists'.mp (hf.interval hr.2)
  have hpos := i.pos
  have hfuel : 0 < f.refuelFromReserve.fuel := by
    simp only [Fuel.refuelFromReserve, hi]
    omega
  rw [Fuel.consumeFuelStep, if_pos hfuel]

/-- An operation on the counters; the amount of a `set_fuel` is a `u64`. -/
inductive FuelOp where
  | setFuel (total : BitVec 64)
  | setFuelYieldInterval (interval : Option (BitVec 64))
  | consumeFuelStep
  | refuelFromReserve
  deriving DecidableEq

def apply (f : Fuel) : FuelOp → Fuel
  | .setFuel n => f.setFuel n.toNat
  | .setFuelYieldInterval i => f.setFuelYieldInterval (i.map BitVec.toNat)
  | .consumeFuelStep => f.consumeFuelStep.2
  | .refuelFromReserve => f.refuelFromReserve

theorem Sound.apply {f : Fuel} (hf : Sound f) (op : FuelOp) : Sound (f.apply op) := by
  cases op with
  | setFuel n =>
    have := n.isLt
    exact sound_setFuel f (by unfold u64Max; omega)
  | setFuelYieldInterval i => exact hf.setFuelYieldInterval _
  | consumeFuelStep => exact hf.consumeFuelStep
  | refuelFromReserve => exact hf.refuelFromReserve

/-- The counters after any history are sound. -/
theorem sound_foldl (ops : List FuelOp) : Sound (ops.foldl Fuel.apply zero) := by
  have hgen : ∀ (ops : List FuelOp) (f : Fuel), Sound f → Sound (ops.foldl Fuel.apply f) := by
    intro ops
    induction ops with
    | nil => exact fun f hf => hf
    | cons op ops ih => exact fun f hf => ih _ (hf.apply op)
  exact hgen ops zero sound_zero

/-- What one operation does to the fuel a store has: `set_fuel` sets it, a charge that is taken
lowers it by one, and nothing else changes it. -/
def Ledger (f f' : Fuel) : FuelOp → Prop
  | .setFuel n => f'.total = n.toNat
  | .setFuelYieldInterval _ | .refuelFromReserve => f'.total = f.total
  | .consumeFuelStep =>
    if f.consumeFuelStep.1 = .ran then f.total = f'.total + 1 else f'.total = f.total

theorem ledger_apply (f : Fuel) (op : FuelOp) : Ledger f (f.apply op) op := by
  cases op with
  | setFuel n => exact total_setFuel f _
  | setFuelYieldInterval i => exact total_setFuelYieldInterval f _
  | refuelFromReserve => exact total_refuelFromReserve f
  | consumeFuelStep =>
    unfold Ledger apply
    rcases consumeFuelStep_cases f with ⟨f', h, ht, -⟩ | ⟨h, -⟩ | ⟨h, -⟩
    · rw [h, if_pos rfl]
      exact ht
    · rw [h, if_neg nofun]
    · rw [h, if_neg nofun]

end Fuel

end SubmilliWasm
