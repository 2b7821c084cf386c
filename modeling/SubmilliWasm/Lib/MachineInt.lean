/-
# Machine integers

Two's complement integers of a fixed width whose type says how the bits are read (`MachineInt`),
with the operations of a language that has both kinds: wrapping and saturating ones, casts, shifts,
and the plain operators, which fail where the exact result does not fit (`exact`).
-/
import Mathlib.Data.Int.Basic
import Mathlib.Tactic.Common
import Mathlib.Tactic.Linarith
import Mathlib.Tactic.Ring

/-- An integer of `w` bits, signed or not. -/
@[ext]
structure MachineInt (sg : Bool) (w : ℕ) where
  bits : BitVec w
  deriving DecidableEq, Repr

namespace MachineInt

variable {sg : Bool} {w : ℕ}

/-- The integer the bits stand for. -/
def val (a : MachineInt sg w) : ℤ := if sg then a.bits.toInt else a.bits.toNat

def minValue (sg : Bool) (w : ℕ) : ℤ := if sg then -2 ^ (w - 1) else 0

def maxValue (sg : Bool) (w : ℕ) : ℤ := if sg then 2 ^ (w - 1) - 1 else 2 ^ w - 1

/-- The integer modulo `2 ^ w`. -/
def wrap (x : ℤ) : MachineInt sg w := ⟨BitVec.ofInt w x⟩

/-- The integer itself, if the type has it. -/
def exact (x : ℤ) : Option (MachineInt sg w) :=
  if minValue sg w ≤ x ∧ x ≤ maxValue sg w then some (wrap x) else none

/-- The nearest integer of the type. -/
def saturate (x : ℤ) : MachineInt sg w := wrap (max (minValue sg w) (min x (maxValue sg w)))

instance : LT (MachineInt sg w) := ⟨fun a b => a.val < b.val⟩

instance : LE (MachineInt sg w) := ⟨fun a b => a.val ≤ b.val⟩

instance (a b : MachineInt sg w) : Decidable (a < b) := inferInstanceAs (Decidable (a.val < b.val))

instance (a b : MachineInt sg w) : Decidable (a ≤ b) := inferInstanceAs (Decidable (a.val ≤ b.val))

/-! ## Operations -/

/-- A cast: the value modulo the width of the other type. -/
def cast {sg' : Bool} {w' : ℕ} (a : MachineInt sg w) : MachineInt sg' w' := wrap a.val

/-- The integer of a test. -/
def ofBool (p : Prop) [Decidable p] : MachineInt sg w := wrap (if p then 1 else 0)

/-- A cast to a count of 32 bits. -/
def asU32 (a : MachineInt sg w) : ℕ := (a.cast : MachineInt false 32).bits.toNat

def wrappingAdd (a b : MachineInt sg w) : MachineInt sg w := wrap (a.val + b.val)

def wrappingSub (a b : MachineInt sg w) : MachineInt sg w := wrap (a.val - b.val)

def wrappingMul (a b : MachineInt sg w) : MachineInt sg w := wrap (a.val * b.val)

def wrappingNeg (a : MachineInt sg w) : MachineInt sg w := wrap (-a.val)

def wrappingAbs (a : MachineInt sg w) : MachineInt sg w := wrap |a.val|

def saturatingAdd (a b : MachineInt sg w) : MachineInt sg w := saturate (a.val + b.val)

def saturatingSub (a b : MachineInt sg w) : MachineInt sg w := saturate (a.val - b.val)

/-- `a + b`. -/
def add (a b : MachineInt sg w) : Option (MachineInt sg w) := exact (a.val + b.val)

/-- `a * b`. -/
def mul (a b : MachineInt sg w) : Option (MachineInt sg w) := exact (a.val * b.val)

/-- `a / b`, towards zero. -/
def div (a b : MachineInt sg w) : Option (MachineInt sg w) :=
  if b.val = 0 then none else exact (a.val.tdiv b.val)

/-- `a % b`: it fails with the division. -/
def rem (a b : MachineInt sg w) : Option (MachineInt sg w) := do
  let _ ← a.div b
  exact (a.val.tmod b.val)

/-- The remainder also where the quotient does not fit. -/
def wrappingRem (a b : MachineInt sg w) : Option (MachineInt sg w) :=
  if b.val = 0 then none else some (wrap (a.val.tmod b.val))

/-- The quotient towards positive infinity. -/
def divCeil (a b : MachineInt sg w) : Option (MachineInt sg w) :=
  if b.val = 0 then none else exact (a.val / b.val + if a.val % b.val = 0 then 0 else 1)

/-- `a >> k`. -/
def shr (a : MachineInt sg w) (k : ℕ) : Option (MachineInt sg w) :=
  if k < w then some (wrap (a.val / 2 ^ k)) else none

def wrappingShl (a : MachineInt sg w) (k : ℕ) : MachineInt sg w := ⟨a.bits <<< (k % w)⟩

/-- `a << k`. -/
def shl (a : MachineInt sg w) (k : ℕ) : Option (MachineInt sg w) :=
  if k < w then some ⟨a.bits <<< k⟩ else none

/-- An arithmetic shift of a signed integer, a logical one of an unsigned. -/
def wrappingShr (a : MachineInt sg w) (k : ℕ) : MachineInt sg w :=
  ⟨if sg then a.bits.sshiftRight (k % w) else a.bits >>> (k % w)⟩

def rotateLeft (a : MachineInt sg w) (k : ℕ) : MachineInt sg w := ⟨a.bits.rotateLeft k⟩

def rotateRight (a : MachineInt sg w) (k : ℕ) : MachineInt sg w := ⟨a.bits.rotateRight k⟩

def leadingZeros (a : MachineInt sg w) : ℕ := a.bits.clz.toNat

def trailingZeros (a : MachineInt sg w) : ℕ := a.bits.ctz.toNat

def countOnes (a : MachineInt sg w) : ℕ := a.bits.cpopNatRec w 0

def and (a b : MachineInt sg w) : MachineInt sg w := ⟨a.bits &&& b.bits⟩

def or (a b : MachineInt sg w) : MachineInt sg w := ⟨a.bits ||| b.bits⟩

def xor (a b : MachineInt sg w) : MachineInt sg w := ⟨a.bits ^^^ b.bits⟩

protected def min (a b : MachineInt sg w) : MachineInt sg w := if b < a then b else a

protected def max (a b : MachineInt sg w) : MachineInt sg w := if b < a then a else b

/-- The nearest integer between two bounds, given as the literals they are. -/
def clamp (a : MachineInt sg w) (lo hi : ℤ) : MachineInt sg w :=
  if a.val < lo then wrap lo else if hi < a.val then wrap hi else a

/-! ## Values -/

theorem val_signed (a : MachineInt true w) : a.val = a.bits.toInt := rfl

theorem val_unsigned (a : MachineInt false w) : a.val = a.bits.toNat := rfl

theorem val_emod (a : MachineInt sg w) : a.val % 2 ^ w = a.bits.toNat := by
  have hmod : (a.bits.toNat : ℤ) % 2 ^ w = a.bits.toNat := by
    exact_mod_cast Nat.mod_eq_of_lt a.bits.isLt
  cases sg with
  | false => exact hmod
  | true =>
    rw [val_signed, BitVec.toInt_eq_toNat_bmod]
    have h := Int.bmod_emod (x := (a.bits.toNat : ℤ)) (m := 2 ^ w)
    push_cast at h
    rw [h, hmod]

theorem toNat_wrap (x : ℤ) : ((wrap x : MachineInt sg w).bits.toNat : ℤ) = x % 2 ^ w := by
  show ((BitVec.ofInt w x).toNat : ℤ) = _
  rw [BitVec.toNat_ofInt]
  push_cast
  exact Int.toNat_of_nonneg (Int.emod_nonneg x (by positivity))

theorem minValue_le (a : MachineInt sg w) : minValue sg w ≤ a.val := by
  cases sg with
  | false => exact Int.natCast_nonneg _
  | true => exact BitVec.le_toInt a.bits

theorem le_maxValue (a : MachineInt sg w) : a.val ≤ maxValue sg w := by
  cases sg with
  | false =>
    have h := a.bits.isLt
    show (a.bits.toNat : ℤ) ≤ 2 ^ w - 1
    have h' : (a.bits.toNat : ℤ) < 2 ^ w := by exact_mod_cast h
    omega
  | true =>
    have h := BitVec.toInt_lt (x := a.bits)
    show a.bits.toInt ≤ 2 ^ (w - 1) - 1
    omega

/-- An integer of the type is the value of its bits. -/
theorem val_wrap (hw : 0 < w) {x : ℤ} (hmin : minValue sg w ≤ x) (hmax : x ≤ maxValue sg w) :
    (wrap x : MachineInt sg w).val = x := by
  cases sg with
  | false =>
    rw [val_unsigned, toNat_wrap]
    refine Int.emod_eq_of_lt hmin ?_
    have h : x ≤ 2 ^ w - 1 := hmax
    omega
  | true =>
    show (BitVec.ofInt w x).toInt = x
    rw [BitVec.toInt_ofInt]
    have hlo : -2 ^ (w - 1) ≤ x := hmin
    have hhi : x ≤ 2 ^ (w - 1) - 1 := hmax
    obtain ⟨k, rfl⟩ : ∃ k, w = k + 1 := ⟨w - 1, by omega⟩
    rw [Nat.add_sub_cancel] at hlo hhi
    apply Int.bmod_eq_of_le_mul_two
    · push_cast
      rw [pow_succ]
      omega
    · push_cast
      rw [pow_succ]
      omega

end MachineInt
