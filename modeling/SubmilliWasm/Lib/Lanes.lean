/-
# Lanes

A number as a row of lanes of `W` bits, the low one first: reading one (`laneOf`), putting a row
together (`ofLanes`), and lanes that are rows of smaller lanes themselves.
-/
import Mathlib.Algebra.Order.Ring.Nat
import Mathlib.Tactic.Common
import Mathlib.Tactic.Ring

namespace Lanes

/-- The lane `i`. -/
def laneOf (W i v : ℕ) : ℕ := v / 2 ^ (W * i) % 2 ^ W

/-- The number of the lanes below `M`. -/
def ofLanes (W : ℕ) (f : ℕ → ℕ) : ℕ → ℕ
  | 0 => 0
  | M + 1 => ofLanes W f M + f M * 2 ^ (W * M)

variable {W : ℕ}

theorem laneOf_lt (W i v : ℕ) : laneOf W i v < 2 ^ W := Nat.mod_lt _ (Nat.two_pow_pos W)

theorem ofLanes_congr {f g : ℕ → ℕ} {M : ℕ} (h : ∀ i < M, f i = g i) :
    ofLanes W f M = ofLanes W g M := by
  induction M with
  | zero => rfl
  | succ M ih =>
    rw [ofLanes, ofLanes, ih fun i hi => h i (by omega), h M (Nat.lt_succ_self M)]

theorem ofLanes_lt {f : ℕ → ℕ} {M : ℕ} (h : ∀ i < M, f i < 2 ^ W) :
    ofLanes W f M < 2 ^ (W * M) := by
  induction M with
  | zero => exact Nat.one_pos
  | succ M ih =>
    have hlow := ih fun i hi => h i (by omega)
    have htop : (f M + 1) * 2 ^ (W * M) ≤ 2 ^ W * 2 ^ (W * M) :=
      Nat.mul_le_mul_right _ (h M (Nat.lt_succ_self M))
    calc ofLanes W f M + f M * 2 ^ (W * M)
        < 2 ^ (W * M) + f M * 2 ^ (W * M) := by omega
      _ = (f M + 1) * 2 ^ (W * M) := by ring
      _ ≤ 2 ^ W * 2 ^ (W * M) := htop
      _ = 2 ^ (W * (M + 1)) := by rw [← pow_add]; congr 1; ring

/-- The lanes of a number make it up again. -/
theorem ofLanes_laneOf (v M : ℕ) : ofLanes W (laneOf W · v) M = v % 2 ^ (W * M) := by
  induction M with
  | zero => simp [ofLanes, Nat.mod_one]
  | succ M ih =>
    rw [ofLanes, ih, laneOf, Nat.mul_succ, pow_add, Nat.mod_mul, mul_comm (2 ^ (W * M))]

/-- The lanes of a number of no more bits. -/
theorem ofLanes_laneOf_of_lt {v M n : ℕ} (hv : v < 2 ^ n) (hn : n = W * M) :
    v = ofLanes W (laneOf W · v) M := by
  rw [ofLanes_laneOf, Nat.mod_eq_of_lt (hn ▸ hv)]

theorem testBit_laneOf (i v k : ℕ) :
    (laneOf W i v).testBit k = (decide (k < W) && v.testBit (W * i + k)) := by
  rw [laneOf, Nat.testBit_mod_two_pow, Nat.testBit_div_two_pow, Nat.add_comm]

theorem laneOf_and (i a b : ℕ) : laneOf W i (a &&& b) = laneOf W i a &&& laneOf W i b := by
  apply Nat.eq_of_testBit_eq
  intro k
  simp only [testBit_laneOf, Nat.testBit_and]
  cases decide (k < W) <;> rfl

theorem laneOf_or (i a b : ℕ) : laneOf W i (a ||| b) = laneOf W i a ||| laneOf W i b := by
  apply Nat.eq_of_testBit_eq
  intro k
  simp only [testBit_laneOf, Nat.testBit_or]
  cases decide (k < W) <;> rfl

/-- The lanes of a complement of `n` bits. -/
theorem laneOf_not {n i v : ℕ} (hv : v < 2 ^ n) (hn : W * (i + 1) ≤ n) :
    laneOf W i (2 ^ n - 1 - v) = 2 ^ W - 1 - laneOf W i v := by
  apply Nat.eq_of_testBit_eq
  intro k
  rw [Nat.sub_sub, Nat.sub_sub, Nat.add_comm 1, Nat.add_comm 1, testBit_laneOf,
    Nat.testBit_two_pow_sub_succ hv, Nat.testBit_two_pow_sub_succ (laneOf_lt _ _ _), testBit_laneOf]
  rw [Nat.mul_succ] at hn
  by_cases hk : k < W
  · have hlt : W * i + k < n := by omega
    simp [hk, hlt]
  · simp [hk]

/-- A lane of a lane. -/
theorem laneOf_laneOf {k i j v : ℕ} (hj : j < k) :
    laneOf W j (laneOf (W * k) i v) = laneOf W (i * k + j) v := by
  unfold laneOf
  have hsplit : (2 : ℕ) ^ (W * k) = 2 ^ (W * j) * 2 ^ (W * (k - j)) := by
    rw [← pow_add, ← Nat.mul_add]
    congr 2
    omega
  have hdvd : (2 : ℕ) ^ W ∣ 2 ^ (W * (k - j)) :=
    pow_dvd_pow 2 (Nat.le_mul_of_pos_right W (by omega))
  rw [hsplit, Nat.mod_mul_right_div_self, Nat.mod_mod_of_dvd _ hdvd, Nat.div_div_eq_div_mul,
    ← pow_add]
  congr 3
  ring

/-- A row of rows. -/
theorem ofLanes_ofLanes (f : ℕ → ℕ) (k M : ℕ) :
    ofLanes (W * k) (fun i => ofLanes W (fun j => f (i * k + j)) k) M = ofLanes W f (M * k) := by
  have hshift : ∀ (n m : ℕ),
      ofLanes W f (m + n) = ofLanes W f m + ofLanes W (fun j => f (m + j)) n * 2 ^ (W * m) := by
    intro n m
    induction n with
    | zero => simp [ofLanes]
    | succ n ih =>
      rw [← Nat.add_assoc, ofLanes, ih, ofLanes, Nat.add_mul, Nat.add_assoc, mul_assoc, ← pow_add,
        Nat.mul_add, Nat.add_comm (W * n)]
  induction M with
  | zero => rw [Nat.zero_mul]; rfl
  | succ M ih =>
    rw [ofLanes, ih, Nat.succ_mul, hshift]
    congr 3
    ring

end Lanes
