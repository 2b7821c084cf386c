/-
# The integer operators of the WebAssembly specification

Integers of `N` bits are the numbers below `2 ^ N`; an operator that reads its operands signed goes
through `signed` and comes back modulo `2 ^ N` (`ofInt`).  An operator without a result traps.

Each operator is what the machine's computes on the bits of its operands.
-/
import Mathlib.Algebra.Order.Ring.Abs
import Mathlib.Data.List.Range
import SubmilliWasm.Lib.MachineInt

namespace WasmNumerics

/-! ## Operators -/

/-- Why an operator has no result. -/
inductive NumTrap where
  | divByZero
  | overflow
  deriving DecidableEq, Repr

def signed (N i : ℕ) : ℤ := if i < 2 ^ (N - 1) then i else i - 2 ^ N

/-- The inverse of `signed`, modulo `2 ^ N` for any integer. -/
def ofInt (N : ℕ) (x : ℤ) : ℕ := (x % 2 ^ N).toNat

/-- The bits of an integer, the most significant first. -/
def ibits (N i : ℕ) : List Bool := (List.range N).reverse.map i.testBit

/-- The nearest unsigned integer. -/
def satU (N : ℕ) (x : ℤ) : ℕ := (max 0 (min x (2 ^ N - 1))).toNat

/-- The nearest signed integer. -/
def satS (N : ℕ) (x : ℤ) : ℕ := ofInt N (max (-2 ^ (N - 1)) (min x (2 ^ (N - 1) - 1)))

/-- The number of a test. -/
def ofBool (p : Prop) [Decidable p] : ℕ := if p then 1 else 0

def iadd (N i j : ℕ) : ℕ := (i + j) % 2 ^ N

def isub (N i j : ℕ) : ℕ := (i + (2 ^ N - j)) % 2 ^ N

def imul (N i j : ℕ) : ℕ := i * j % 2 ^ N

def idivU (i j : ℕ) : Except NumTrap ℕ := if j = 0 then .error .divByZero else .ok (i / j)

def idivS (N i j : ℕ) : Except NumTrap ℕ :=
  if j = 0 then .error .divByZero
  else if (signed N i).tdiv (signed N j) = 2 ^ (N - 1) then .error .overflow
  else .ok (ofInt N ((signed N i).tdiv (signed N j)))

def iremU (i j : ℕ) : Except NumTrap ℕ :=
  if j = 0 then .error .divByZero else .ok (i - j * (i / j))

def iremS (N i j : ℕ) : Except NumTrap ℕ :=
  if j = 0 then .error .divByZero
  else .ok (ofInt N (signed N i - signed N j * (signed N i).tdiv (signed N j)))

def inot (N i : ℕ) : ℕ := 2 ^ N - 1 - i

/-- The bits of the first operand where the third has ones, and of the second elsewhere. -/
def ibitselect (N i j k : ℕ) : ℕ := i &&& k ||| j &&& inot N k

def ishl (N i k : ℕ) : ℕ := i * 2 ^ (k % N) % 2 ^ N

def ishrU (N i k : ℕ) : ℕ := i / 2 ^ (k % N)

def ishrS (N i k : ℕ) : ℕ := ofInt N (signed N i / 2 ^ (k % N))

/-- The bits shifted out come back on the other side. -/
def irotl (N i k : ℕ) : ℕ := ishl N i k ||| i / 2 ^ (N - k % N)

def irotr (N i k : ℕ) : ℕ := ishrU N i k ||| i * 2 ^ (N - k % N) % 2 ^ N

def iclz (N i : ℕ) : ℕ := ((ibits N i).takeWhile (! ·)).length

def ictz (N i : ℕ) : ℕ := ((ibits N i).reverse.takeWhile (! ·)).length

def ipopcnt (N i : ℕ) : ℕ := (ibits N i).count true

def iabs (N i : ℕ) : ℕ := ofInt N |signed N i|

def ineg (N i : ℕ) : ℕ := (2 ^ N - i) % 2 ^ N

def iminS (N i j : ℕ) : ℕ := if signed N i ≤ signed N j then i else j

def imaxS (N i j : ℕ) : ℕ := if signed N j ≤ signed N i then i else j

def iaddSatU (N i j : ℕ) : ℕ := satU N ((i : ℤ) + j)

def iaddSatS (N i j : ℕ) : ℕ := satS N (signed N i + signed N j)

def isubSatU (N i j : ℕ) : ℕ := satU N ((i : ℤ) - j)

def isubSatS (N i j : ℕ) : ℕ := satS N (signed N i - signed N j)

/-- The rounding average. -/
def iavgrU (i j : ℕ) : ℕ := (i + j + 1) / 2

/-- The rounding product of fixed-point numbers. -/
def iq15mulr (N i j : ℕ) : ℤ := (signed N i * signed N j + 2 ^ 14) / 2 ^ 15

def extendS (M N i : ℕ) : ℕ := ofInt N (signed M i)

def narrowU (M N i : ℕ) : ℕ := satU N (signed M i)

def narrowS (M N i : ℕ) : ℕ := satS N (signed M i)

/-! ## Reading and writing integers -/

theorem natCast_ofInt (N : ℕ) (x : ℤ) : (ofInt N x : ℤ) = x % 2 ^ N :=
  Int.toNat_of_nonneg (Int.emod_nonneg x (by positivity))

theorem ofInt_natCast (N n : ℕ) : ofInt N n = n % 2 ^ N := by
  have h := natCast_ofInt N n
  exact_mod_cast h

/-- Integers that differ by a multiple of `2 ^ N` are written the same. -/
theorem ofInt_eq_of_emod {N : ℕ} {x y : ℤ} (h : x % 2 ^ N = y % 2 ^ N) : ofInt N x = ofInt N y :=
  congrArg Int.toNat h

section Machine

variable {sg : Bool} {w : ℕ} (a b : MachineInt sg w)

theorem toNat_wrap (x : ℤ) : (MachineInt.wrap x : MachineInt sg w).bits.toNat = ofInt w x := by
  have h := @MachineInt.toNat_wrap sg w x
  rw [← natCast_ofInt] at h
  exact_mod_cast h

theorem ofInt_val : ofInt w a.val = a.bits.toNat := by
  have h := natCast_ofInt w a.val
  rw [a.val_emod] at h
  exact_mod_cast h

theorem signed_toNat (a : MachineInt true w) : signed w a.bits.toNat = a.val := by
  rw [MachineInt.val_signed, BitVec.toInt_eq_toNat_cond, signed]
  obtain _ | k := w
  · rw [BitVec.toNat_of_zero_length rfl]
    rfl
  · rw [Nat.add_sub_cancel]
    have hpow : 2 ^ (k + 1) = 2 * 2 ^ k := by ring
    by_cases h : a.bits.toNat < 2 ^ k
    · rw [if_pos h, if_pos (by omega)]
    · rw [if_neg h, if_neg (by omega)]
      push_cast
      rfl

/-- A signed integer is read back. -/
theorem signed_ofInt (hw : 0 < w) {x : ℤ} (hlo : -2 ^ (w - 1) ≤ x) (hhi : x ≤ 2 ^ (w - 1) - 1) :
    signed w (ofInt w x) = x := by
  rw [← @toNat_wrap true, signed_toNat]
  exact MachineInt.val_wrap hw hlo hhi

/-! ## Arithmetic -/

theorem wrappingAdd_toNat : (a.wrappingAdd b).bits.toNat = iadd w a.bits.toNat b.bits.toNat := by
  rw [MachineInt.wrappingAdd, toNat_wrap, iadd, ← ofInt_natCast]
  apply ofInt_eq_of_emod
  rw [Int.add_emod, a.val_emod, b.val_emod]
  push_cast
  rfl

theorem wrappingSub_toNat : (a.wrappingSub b).bits.toNat = isub w a.bits.toNat b.bits.toNat := by
  have hb : b.bits.toNat ≤ 2 ^ w := b.bits.isLt.le
  rw [MachineInt.wrappingSub, toNat_wrap, isub, ← ofInt_natCast]
  apply ofInt_eq_of_emod
  rw [Int.sub_emod, a.val_emod, b.val_emod]
  push_cast [hb]
  rw [show (a.bits.toNat : ℤ) + (2 ^ w - b.bits.toNat)
    = a.bits.toNat - b.bits.toNat + 2 ^ w by ring,
    Int.add_emod_right]

theorem wrappingMul_toNat : (a.wrappingMul b).bits.toNat = imul w a.bits.toNat b.bits.toNat := by
  rw [MachineInt.wrappingMul, toNat_wrap, imul, ← ofInt_natCast]
  apply ofInt_eq_of_emod
  rw [Int.mul_emod, a.val_emod, b.val_emod]
  push_cast
  rfl

theorem wrappingNeg_toNat : a.wrappingNeg.bits.toNat = ineg w a.bits.toNat := by
  have ha : a.bits.toNat ≤ 2 ^ w := a.bits.isLt.le
  rw [MachineInt.wrappingNeg, toNat_wrap, ineg, ← ofInt_natCast]
  apply ofInt_eq_of_emod
  push_cast [ha]
  rw [← Int.neg_emod_eq_sub_emod, ← a.val_emod, ← zero_sub, ← zero_sub, Int.sub_emod_emod]

theorem wrappingAbs_toNat (a : MachineInt true w) :
    a.wrappingAbs.bits.toNat = iabs w a.bits.toNat := by
  rw [MachineInt.wrappingAbs, toNat_wrap, iabs, signed_toNat]

/-- Between its bounds, an unsigned saturation is the number itself. -/
theorem saturate_toNat_unsigned (x : ℤ) :
    (MachineInt.saturate x : MachineInt false w).bits.toNat = satU w x := by
  have h := natCast_ofInt w (max 0 (min x (2 ^ w - 1)))
  rw [Int.emod_eq_of_lt (by omega) (by
    have hpos : (0 : ℤ) < 2 ^ w := by positivity
    omega)] at h
  rw [MachineInt.saturate, toNat_wrap, satU]
  exact (Int.toNat_natCast _).symm.trans (congrArg Int.toNat h)

theorem saturate_toNat_signed (x : ℤ) :
    (MachineInt.saturate x : MachineInt true w).bits.toNat = satS w x :=
  toNat_wrap _

theorem saturatingAdd_toNat_unsigned (a b : MachineInt false w) :
    (a.saturatingAdd b).bits.toNat = iaddSatU w a.bits.toNat b.bits.toNat :=
  saturate_toNat_unsigned _

theorem saturatingSub_toNat_unsigned (a b : MachineInt false w) :
    (a.saturatingSub b).bits.toNat = isubSatU w a.bits.toNat b.bits.toNat :=
  saturate_toNat_unsigned _

theorem saturatingAdd_toNat_signed (a b : MachineInt true w) :
    (a.saturatingAdd b).bits.toNat = iaddSatS w a.bits.toNat b.bits.toNat := by
  rw [MachineInt.saturatingAdd, saturate_toNat_signed, iaddSatS, signed_toNat, signed_toNat]

theorem saturatingSub_toNat_signed (a b : MachineInt true w) :
    (a.saturatingSub b).bits.toNat = isubSatS w a.bits.toNat b.bits.toNat := by
  rw [MachineInt.saturatingSub, saturate_toNat_signed, isubSatS, signed_toNat, signed_toNat]

/-! ## Comparisons -/

theorem lt_unsigned (a b : MachineInt false w) : a < b ↔ a.bits.toNat < b.bits.toNat :=
  Int.ofNat_lt

theorem le_unsigned (a b : MachineInt false w) : a ≤ b ↔ a.bits.toNat ≤ b.bits.toNat :=
  Int.ofNat_le

theorem lt_signed (a b : MachineInt true w) :
    a < b ↔ signed w a.bits.toNat < signed w b.bits.toNat := by
  rw [signed_toNat, signed_toNat]
  rfl

theorem le_signed (a b : MachineInt true w) :
    a ≤ b ↔ signed w a.bits.toNat ≤ signed w b.bits.toNat := by
  rw [signed_toNat, signed_toNat]
  rfl

theorem eq_iff : a = b ↔ a.bits.toNat = b.bits.toNat := by
  rw [MachineInt.ext_iff, BitVec.toNat_inj]

theorem min_toNat_unsigned (a b : MachineInt false w) :
    (a.min b).bits.toNat = min a.bits.toNat b.bits.toNat := by
  rw [MachineInt.min, apply_ite MachineInt.bits, apply_ite BitVec.toNat,
    if_congr (lt_unsigned b a) rfl rfl]
  split <;> omega

theorem max_toNat_unsigned (a b : MachineInt false w) :
    (a.max b).bits.toNat = max a.bits.toNat b.bits.toNat := by
  rw [MachineInt.max, apply_ite MachineInt.bits, apply_ite BitVec.toNat,
    if_congr (lt_unsigned b a) rfl rfl]
  split <;> omega

theorem min_toNat_signed (a b : MachineInt true w) :
    (a.min b).bits.toNat = iminS w a.bits.toNat b.bits.toNat := by
  rw [MachineInt.min, iminS, apply_ite MachineInt.bits, apply_ite BitVec.toNat,
    if_congr ((lt_signed b a).trans not_le.symm) rfl rfl, ite_not]

theorem max_toNat_signed (a b : MachineInt true w) :
    (a.max b).bits.toNat = imaxS w a.bits.toNat b.bits.toNat := by
  rw [MachineInt.max, imaxS, apply_ite MachineInt.bits, apply_ite BitVec.toNat]
  by_cases h : b < a
  · rw [if_pos h, if_pos ((lt_signed b a).mp h).le]
  · rw [if_neg h]
    by_cases hle : signed w b.bits.toNat ≤ signed w a.bits.toNat
    · -- neither is larger: the bits are the same
      have heq : signed w b.bits.toNat = signed w a.bits.toNat :=
        le_antisymm hle (not_lt.mp (h ∘ (lt_signed b a).mpr))
      rw [signed_toNat, signed_toNat] at heq
      rw [if_pos hle, ← ofInt_val a, ← ofInt_val b, heq]
    · rw [if_neg hle]

/-! ## Shifts and bits -/

theorem wrappingShl_toNat (k : ℕ) : (a.wrappingShl k).bits.toNat = ishl w a.bits.toNat k := by
  show (a.bits <<< (k % w)).toNat = _
  rw [BitVec.toNat_shiftLeft, Nat.shiftLeft_eq, ishl]

theorem wrappingShr_toNat_unsigned (a : MachineInt false w) (k : ℕ) :
    (a.wrappingShr k).bits.toNat = ishrU w a.bits.toNat k := by
  show (a.bits >>> (k % w)).toNat = _
  rw [BitVec.toNat_ushiftRight, Nat.shiftRight_eq_div_pow, ishrU]

theorem wrappingShr_toNat_signed (a : MachineInt true w) (k : ℕ) :
    (a.wrappingShr k).bits.toNat = ishrS w a.bits.toNat k := by
  rw [ishrS, signed_toNat, ← ofInt_val, MachineInt.val_signed, MachineInt.val_signed]
  show ofInt w (a.bits.sshiftRight (k % w)).toInt = _
  rw [BitVec.toInt_sshiftRight, Int.shiftRight_eq_div_pow]
  push_cast
  rfl

theorem rotateLeft_toNat (k : ℕ) : (a.rotateLeft k).bits.toNat = irotl w a.bits.toNat k := by
  show (a.bits.rotateLeft k).toNat = _
  rw [BitVec.toNat_rotateLeft, Nat.shiftLeft_eq, Nat.shiftRight_eq_div_pow, irotl, ishl]

theorem rotateRight_toNat (k : ℕ) : (a.rotateRight k).bits.toNat = irotr w a.bits.toNat k := by
  show (a.bits.rotateRight k).toNat = _
  rw [BitVec.toNat_rotateRight, Nat.shiftLeft_eq, Nat.shiftRight_eq_div_pow, irotr, ishrU]

/-! ## Counts -/

theorem lt_two_pow_of_le {n : ℕ} (h : n ≤ w) : n < 2 ^ w := h.trans_lt Nat.lt_two_pow_self

/-- The count below bit `n`, from the bits left of it. -/
theorem clzAuxRec_toNat (x : BitVec w) (n : ℕ) (h : n < w) :
    (x.clzAuxRec n).toNat =
      w - 1 - n + (((List.range (n + 1)).reverse.map x.getLsbD).takeWhile (! ·)).length := by
  induction n with
  | zero =>
    rw [BitVec.clzAuxRec]
    by_cases hbit : x.getLsbD 0
    · rw [if_pos hbit, BitVec.toNat_ofNat, Nat.mod_eq_of_lt (lt_two_pow_of_le (by omega))]
      simp [hbit]
    · rw [if_neg hbit, BitVec.toNat_ofNat, Nat.mod_eq_of_lt (lt_two_pow_of_le le_rfl)]
      simp [hbit]
      omega
  | succ n ih =>
    rw [BitVec.clzAuxRec, List.range_succ, List.reverse_append, List.reverse_singleton,
      List.singleton_append, List.map_cons]
    by_cases hbit : x.getLsbD (n + 1)
    · rw [if_pos hbit, BitVec.toNat_ofNat, Nat.mod_eq_of_lt (lt_two_pow_of_le (by omega))]
      simp [hbit]
    · rw [if_neg hbit, ih (by omega), List.takeWhile_cons_of_pos (by simpa using hbit),
        List.length_cons]
      omega

theorem clz_toNat (x : BitVec w) (hw : 0 < w) : x.clz.toNat = iclz w x.toNat := by
  obtain ⟨n, rfl⟩ : ∃ n, w = n + 1 := ⟨w - 1, by omega⟩
  have h := clzAuxRec_toNat x n (Nat.lt_succ_self n)
  rw [Nat.add_sub_cancel, Nat.sub_self, zero_add] at h
  exact h

/-- The bits of the reverse. -/
theorem ibits_reverse (x : BitVec w) : ibits w x.reverse.toNat = (ibits w x.toNat).reverse := by
  apply List.ext_getElem
  · simp [ibits]
  · intro i h _
    have hi : i < w := by simpa [ibits] using h
    simp only [ibits, List.getElem_map, List.getElem_reverse, List.getElem_range, List.length_map,
      List.length_reverse, List.length_range]
    show x.reverse.getLsbD _ = x.getLsbD _
    rw [BitVec.getLsbD_reverse, BitVec.getMsbD_eq_getLsbD, decide_eq_true (by omega), Bool.true_and]

theorem leadingZeros_eq (hw : 0 < w) : a.leadingZeros = iclz w a.bits.toNat := clz_toNat a.bits hw

theorem trailingZeros_eq (hw : 0 < w) : a.trailingZeros = ictz w a.bits.toNat := by
  rw [MachineInt.trailingZeros, BitVec.ctz, clz_toNat _ hw, iclz, ibits_reverse]
  rfl

theorem cpopNatRec_eq_count (x : BitVec w) (n acc : ℕ) :
    x.cpopNatRec n acc = acc + ((List.range n).reverse.map x.getLsbD).count true := by
  induction n generalizing acc with
  | zero => rfl
  | succ n ih =>
    rw [BitVec.cpopNatRec, ih, List.range_succ, List.reverse_append, List.reverse_singleton,
      List.singleton_append, List.map_cons, List.count_cons]
    cases x.getLsbD n with
    | false => simp
    | true =>
      simp
      omega

theorem countOnes_eq : a.countOnes = ipopcnt w a.bits.toNat := by
  rw [MachineInt.countOnes, cpopNatRec_eq_count, zero_add]
  rfl

theorem ibits_length (N i : ℕ) : (ibits N i).length = N := by simp [ibits]

theorem iclz_le (N i : ℕ) : iclz N i ≤ N :=
  (List.takeWhile_prefix _).length_le.trans_eq (ibits_length N i)

theorem ictz_le (N i : ℕ) : ictz N i ≤ N :=
  (List.takeWhile_prefix _).length_le.trans_eq ((List.length_reverse).trans (ibits_length N i))

theorem ipopcnt_le (N i : ℕ) : ipopcnt N i ≤ N := List.count_le_length.trans_eq (ibits_length N i)

/-! ## Division -/

theorem val_eq_zero : a.val = 0 ↔ a.bits.toNat = 0 := by
  constructor
  · intro h
    rw [← ofInt_val a, h]
    rfl
  · intro h
    have hbits : a.bits = 0#w := BitVec.eq_of_toNat_eq (by rw [h, BitVec.toNat_zero])
    rw [MachineInt.val, hbits]
    simp

/-- An integer of the type is the only one of its value. -/
theorem eq_wrap_iff (hw : 0 < w) {x : ℤ} (hmin : MachineInt.minValue sg w ≤ x)
    (hmax : x ≤ MachineInt.maxValue sg w) : a = .wrap x ↔ a.val = x := by
  constructor
  · rintro rfl
    exact MachineInt.val_wrap hw hmin hmax
  · intro h
    rw [eq_iff, toNat_wrap, ← ofInt_val, h]

/-- A quotient of signed integers is one, that of the least one by `-1` apart. -/
theorem tdiv_bounds {m x y : ℤ} (hm : 0 < m) (hx : -m ≤ x) (hx' : x ≤ m - 1) (hy : y ≠ 0) :
    -m ≤ x.tdiv y ∧ x.tdiv y ≤ m ∧ (x.tdiv y = m ↔ x = -m ∧ y = -1) := by
  by_cases hone : y = 1
  · subst hone
    rw [Int.tdiv_one]
    omega
  · by_cases hneg : y = -1
    · subst hneg
      rw [Int.tdiv_neg, Int.tdiv_one]
      omega
    · -- the quotient is at most half as far from zero
      have habs : (x.tdiv y).natAbs = x.natAbs / y.natAbs := Int.natAbs_tdiv x y
      have hhalf : x.natAbs / y.natAbs ≤ x.natAbs / 2 := Nat.div_le_div_left (by omega) (by omega)
      omega

theorem exact_eq {x : ℤ} (hmin : MachineInt.minValue sg w ≤ x)
    (hmax : x ≤ MachineInt.maxValue sg w) :
    (MachineInt.exact x : Option (MachineInt sg w)) = some (MachineInt.wrap x) :=
  if_pos ⟨hmin, hmax⟩

theorem tdiv_val_bounds (a b : MachineInt true w) (hb : b.val ≠ 0) :
    -2 ^ (w - 1) ≤ a.val.tdiv b.val ∧ a.val.tdiv b.val ≤ 2 ^ (w - 1) ∧
      (a.val.tdiv b.val = 2 ^ (w - 1) ↔ a.val = -2 ^ (w - 1) ∧ b.val = -1) :=
  tdiv_bounds (by positivity) a.minValue_le a.le_maxValue hb

theorem div_signed (a b : MachineInt true w) (hb : b.val ≠ 0)
    (h : ¬(a.val = -2 ^ (w - 1) ∧ b.val = -1)) :
    a.div b = some (MachineInt.wrap (a.val.tdiv b.val)) := by
  obtain ⟨hlo, hhi, heq⟩ := tdiv_val_bounds a b hb
  rw [MachineInt.div, if_neg hb]
  refine exact_eq hlo (Int.le_sub_one_of_lt (lt_of_le_of_ne hhi ?_))
  exact fun hover => h (heq.mp hover)

theorem natCast_le_maxValue {n : ℕ} (h : n < 2 ^ w) : (n : ℤ) ≤ MachineInt.maxValue false w := by
  have h' : (n : ℤ) < 2 ^ w := by exact_mod_cast h
  exact Int.le_sub_one_of_lt h'

theorem div_unsigned (a b : MachineInt false w) (hb : b.val ≠ 0) :
    a.div b = some (MachineInt.wrap (a.bits.toNat / b.bits.toNat : ℕ)) := by
  rw [MachineInt.div, if_neg hb, MachineInt.val_unsigned, MachineInt.val_unsigned, ← Int.ofNat_tdiv]
  exact exact_eq (Int.natCast_nonneg _)
    (natCast_le_maxValue ((Nat.div_le_self _ _).trans_lt a.bits.isLt))

theorem rem_unsigned (a b : MachineInt false w) (hb : b.val ≠ 0) :
    a.rem b = some (MachineInt.wrap (a.bits.toNat % b.bits.toNat : ℕ)) := by
  rw [MachineInt.rem, div_unsigned a b hb, MachineInt.val_unsigned, MachineInt.val_unsigned,
    ← Int.ofNat_tmod]
  exact exact_eq (Int.natCast_nonneg _)
    (natCast_le_maxValue ((Nat.mod_le _ _).trans_lt a.bits.isLt))

theorem wrap_natCast_toNat {n : ℕ} (h : n < 2 ^ w) :
    (MachineInt.wrap n : MachineInt sg w).bits.toNat = n := by
  rw [toNat_wrap, ofInt_natCast, Nat.mod_eq_of_lt h]

/-! ## Casts -/

variable {sg' : Bool} {w' : ℕ}

theorem cast_toNat : (a.cast : MachineInt sg' w').bits.toNat = ofInt w' a.val := toNat_wrap _

/-- A cast to a narrower type takes the low bits. -/
theorem cast_toNat_of_le (h : w' ≤ w) :
    (a.cast : MachineInt sg' w').bits.toNat = a.bits.toNat % 2 ^ w' := by
  rw [cast_toNat, ← ofInt_natCast]
  apply ofInt_eq_of_emod
  rw [← a.val_emod, Int.emod_emod_of_dvd _ (pow_dvd_pow 2 h)]

/-- A cast of an unsigned integer to a type as wide has its bits. -/
theorem cast_toNat_unsigned (a : MachineInt false w) (h : w ≤ w') :
    (a.cast : MachineInt sg' w').bits.toNat = a.bits.toNat := by
  rw [cast_toNat, MachineInt.val_unsigned, ofInt_natCast]
  exact Nat.mod_eq_of_lt (a.bits.isLt.trans_le (Nat.pow_le_pow_right Nat.two_pos h))

theorem cast_toNat_signed (a : MachineInt true w) :
    (a.cast : MachineInt sg' w').bits.toNat = extendS w w' a.bits.toNat := by
  rw [cast_toNat, extendS, signed_toNat]

/-- A cast to a wider type keeps the value. -/
theorem cast_val (h : w ≤ w') (hw : 0 < w) : (a.cast : MachineInt sg w').val = a.val := by
  have hlo := a.minValue_le
  have hhi := a.le_maxValue
  have hpow : (2 : ℤ) ^ w ≤ 2 ^ w' := pow_le_pow_right₀ (by decide) h
  have hpow' : (2 : ℤ) ^ (w - 1) ≤ 2 ^ (w' - 1) := pow_le_pow_right₀ (by decide) (by omega)
  refine MachineInt.val_wrap (by omega) ?_ ?_
  · cases sg with
    | false => exact hlo
    | true => exact (neg_le_neg hpow').trans hlo
  · cases sg with
    | false => exact hhi.trans (sub_le_sub_right hpow 1)
    | true => exact hhi.trans (sub_le_sub_right hpow' 1)

/-- A cast of an unsigned integer to a wider type, signed or not, keeps the value. -/
theorem cast_val_unsigned (a : MachineInt false w) (h : w < w') :
    (a.cast : MachineInt sg' w').val = a.val := by
  have hlo : (0 : ℤ) ≤ a.val := a.minValue_le
  have hhi : a.val ≤ 2 ^ w - 1 := a.le_maxValue
  have hpow : (2 : ℤ) ^ w ≤ 2 ^ (w' - 1) := pow_le_pow_right₀ (by decide) (by omega)
  have hpow' : (2 : ℤ) ^ (w' - 1) ≤ 2 ^ w' := pow_le_pow_right₀ (by decide) (by omega)
  refine MachineInt.val_wrap (by omega) ?_ ?_
  · cases sg' with
    | false => exact hlo
    | true =>
      have hpos : (0 : ℤ) < 2 ^ (w' - 1) := by positivity
      exact (neg_nonpos.mpr hpos.le).trans hlo
  · cases sg' with
    | false => exact hhi.trans (sub_le_sub_right (hpow.trans hpow') 1)
    | true => exact hhi.trans (sub_le_sub_right hpow 1)

/-! ## Wider products and sums -/

theorem abs_mul_val_le (a b : MachineInt true w) :
    |a.val * b.val| ≤ 2 ^ (w - 1) * 2 ^ (w - 1) := by
  have ha : -2 ^ (w - 1) ≤ a.val := a.minValue_le
  have hb : -2 ^ (w - 1) ≤ b.val := b.minValue_le
  have ha' : a.val ≤ 2 ^ (w - 1) - 1 := a.le_maxValue
  have hb' : b.val ≤ 2 ^ (w - 1) - 1 := b.le_maxValue
  rw [abs_mul]
  exact mul_le_mul (abs_le.mpr ⟨ha, by omega⟩) (abs_le.mpr ⟨hb, by omega⟩) (abs_nonneg _)
    (by positivity)

/-- A product of integers fits in twice their width. -/
theorem mul_bounds (hw : 0 < w) :
    MachineInt.minValue sg (2 * w) ≤ a.val * b.val ∧
      a.val * b.val ≤ MachineInt.maxValue sg (2 * w) := by
  have ha := a.minValue_le
  have hb := b.minValue_le
  have ha' := a.le_maxValue
  have hb' := b.le_maxValue
  cases sg with
  | false =>
    have hsq : (2 : ℤ) ^ (2 * w) = 2 ^ w * 2 ^ w := by rw [two_mul, pow_add]
    have hpos : (0 : ℤ) < 2 ^ w := by positivity
    simp only [MachineInt.minValue, MachineInt.maxValue, Bool.false_eq_true,
      if_false] at ha hb ha' hb' ⊢
    rw [hsq]
    constructor
    · exact mul_nonneg ha hb
    · nlinarith [mul_nonneg (sub_nonneg.mpr ha') hb, mul_nonneg hpos.le (sub_nonneg.mpr hb')]
  | true =>
    have hsq : (2 : ℤ) ^ (2 * w - 1) = 2 * (2 ^ (w - 1) * 2 ^ (w - 1)) := by
      rw [← pow_add, ← pow_succ']
      congr 1
      omega
    have hpos : (0 : ℤ) < 2 ^ (w - 1) := by positivity
    have hsqpos : (0 : ℤ) < 2 ^ (w - 1) * 2 ^ (w - 1) := mul_pos hpos hpos
    obtain ⟨hlo, hhi⟩ := abs_le.mp (abs_mul_val_le a b)
    simp only [MachineInt.minValue, MachineInt.maxValue, if_true]
    rw [hsq]
    constructor <;> omega

theorem add_bounds (hw : 0 < w) :
    MachineInt.minValue sg (2 * w) ≤ a.val + b.val ∧
      a.val + b.val ≤ MachineInt.maxValue sg (2 * w) := by
  have ha := a.minValue_le
  have hb := b.minValue_le
  have ha' := a.le_maxValue
  have hb' := b.le_maxValue
  cases sg with
  | false =>
    have hpow : (2 : ℤ) * 2 ^ w ≤ 2 ^ (2 * w) := by
      rw [← pow_succ']
      exact pow_le_pow_right₀ (by decide) (by omega)
    simp only [MachineInt.minValue, MachineInt.maxValue, Bool.false_eq_true,
      if_false] at ha hb ha' hb' ⊢
    constructor <;> omega
  | true =>
    have hpow : (2 : ℤ) * 2 ^ (w - 1) ≤ 2 ^ (2 * w - 1) := by
      rw [← pow_succ']
      exact pow_le_pow_right₀ (by decide) (by omega)
    simp only [MachineInt.minValue, MachineInt.maxValue, if_true] at ha hb ha' hb' ⊢
    constructor <;> omega

theorem mul_cast (hw : 0 < w) :
    (a.cast : MachineInt sg (2 * w)).mul b.cast =
      some ((a.cast : MachineInt sg (2 * w)).wrappingMul b.cast) := by
  have h := mul_bounds a b hw
  rw [MachineInt.mul, MachineInt.wrappingMul, cast_val a (by omega) hw, cast_val b (by omega) hw]
  exact exact_eq h.1 h.2

theorem add_cast (hw : 0 < w) :
    (a.cast : MachineInt sg (2 * w)).add b.cast =
      some ((a.cast : MachineInt sg (2 * w)).wrappingAdd b.cast) := by
  have h := add_bounds a b hw
  rw [MachineInt.add, MachineInt.wrappingAdd, cast_val a (by omega) hw, cast_val b (by omega) hw]
  exact exact_eq h.1 h.2

/-! ## Narrowing -/

/-- A clamp between two values of the type. -/
theorem clamp_val (hw : 0 < w) {lo hi : ℤ} (hlo : MachineInt.minValue sg w ≤ lo) (hle : lo ≤ hi)
    (hhi : hi ≤ MachineInt.maxValue sg w) : (a.clamp lo hi).val = max lo (min a.val hi) := by
  unfold MachineInt.clamp
  split
  · rw [MachineInt.val_wrap hw hlo (hle.trans hhi)]
    omega
  · split
    · rw [MachineInt.val_wrap hw (hlo.trans hle) hhi]
      omega
    · omega

/-- The nearest signed integer of `M` bits. -/
theorem narrowS_toNat {M : ℕ} (a : MachineInt true w) (hM : 0 < M) (h : M ≤ w) {lo hi : ℤ}
    (hlo : lo = -2 ^ (M - 1)) (hhi : hi = 2 ^ (M - 1) - 1) :
    ((a.clamp lo hi).cast : MachineInt sg' M).bits.toNat = narrowS w M a.bits.toNat := by
  subst hlo hhi
  have hpow : (2 : ℤ) ^ (M - 1) ≤ 2 ^ (w - 1) := pow_le_pow_right₀ (by decide) (by omega)
  have hpos : (0 : ℤ) < 2 ^ (M - 1) := by positivity
  rw [cast_toNat, clamp_val a (by omega) (neg_le_neg hpow) (by omega) (sub_le_sub_right hpow 1),
    narrowS, satS, signed_toNat]

/-- The nearest unsigned one. -/
theorem narrowU_toNat {M : ℕ} (a : MachineInt true w) (h : M < w) {hi : ℤ} (hhi : hi = 2 ^ M - 1) :
    ((a.clamp 0 hi).cast : MachineInt sg' M).bits.toNat = narrowU w M a.bits.toNat := by
  subst hhi
  have hpow : (2 : ℤ) ^ M ≤ 2 ^ (w - 1) := pow_le_pow_right₀ (by decide) (by omega)
  have hpos : (0 : ℤ) < 2 ^ M := by positivity
  have hpos' : (0 : ℤ) < 2 ^ (w - 1) := by positivity
  rw [cast_toNat, clamp_val a (by omega) (neg_nonpos.mpr hpos'.le) (by omega)
    (sub_le_sub_right hpow 1),
    narrowU, signed_toNat]
  have hsat := saturate_toNat_unsigned (w := M) a.val
  rwa [MachineInt.saturate, toNat_wrap] at hsat

end Machine

end WasmNumerics
