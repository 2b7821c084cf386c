/-
# Operand cells

A slot of the operand stack is a fixed number of bytes without a tag (`src/exec/cell.rs`): eight,
or sixteen with the `simd` feature.  A value is encoded with the codec of a packed body at offset
0; the host boundary and the defaults of locals take shortcuts of their own (`src/exec/stack.rs`).
The shortcuts agree with the codec, the codec is undone by decoding at the value's type, and the
stack of 64-bit words that the interpreter runs on is the default build of it.
-/
import SubmilliWasm.Exec.Stack
import SubmilliWasm.Store.Codecs

namespace SubmilliWasm

open Ranges (window)

/-! ## Cells -/

/-- `SLOT_BYTES`. -/
def cellWidth (simd : Bool) : ℕ := if simd then 16 else 8

/-- One operand-stack slot. -/
structure RawCell (simd : Bool) where
  bytes : List UInt8
  width : bytes.length = cellWidth simd

namespace RawCell

variable {simd : Bool}

@[ext] theorem ext {a b : RawCell simd} (h : a.bytes = b.bytes) : a = b := by
  obtain ⟨x, hx⟩ := a
  obtain ⟨y, hy⟩ := b
  obtain rfl : x = y := h
  rfl

def zero (simd : Bool) : RawCell simd := ⟨List.replicate (cellWidth simd) 0, List.length_replicate⟩

/-- A cell holding `x` in its low `n` bytes, the rest zero (`of_bytes`). -/
def ofBytes (simd : Bool) (n x : ℕ) (h : n ≤ cellWidth simd) : RawCell simd where
  bytes := leBytes n x ++ List.replicate (cellWidth simd - n) 0
  width := by
    rw [List.length_append, leBytes_length, List.length_replicate]
    omega

/-- The number in the low `n` bytes. -/
def lo (c : RawCell simd) (n : ℕ) : ℕ := leNat (c.bytes.take n)

def unwrapI32 (c : RawCell simd) : BitVec 32 := BitVec.ofNat 32 (c.lo 4)

def unwrapI64 (c : RawCell simd) : BitVec 64 := BitVec.ofNat 64 (c.lo 8)

theorem four_le (simd : Bool) : 4 ≤ cellWidth simd := by cases simd <;> decide

theorem eight_le (simd : Bool) : 8 ≤ cellWidth simd := by cases simd <;> decide

/-! ## The codec -/

/-- The slot kind of a tagged value; a `v128` without the feature is unreachable. -/
def slotForVal (simd : Bool) : Val → Option Slot
  | .i32 _ => some (.scalar 0 .i32)
  | .i64 _ => some (.scalar 0 .i64)
  | .f32 _ => some (.scalar 0 .f32)
  | .f64 _ => some (.scalar 0 .f64)
  | .v128 _ => if simd then some (.scalar 0 .v128) else none
  | .funcRef _ => some (.ref 0 .func)
  | .externRef _ => some (.ref 0 .extern_)
  | .anyRef _ => some (.ref 0 .any)
  | .exnRef _ => some (.ref 0 .exn)

def slotForValtype (simd : Bool) : ValType → Option Slot
  | .i32 => some (.scalar 0 .i32)
  | .i64 => some (.scalar 0 .i64)
  | .f32 => some (.scalar 0 .f32)
  | .f64 => some (.scalar 0 .f64)
  | .v128 => if simd then some (.scalar 0 .v128) else none
  | .ref _ heap => some (.ref 0 (pubRefKind heap))

/-- Writes a value into a slot of a zeroed cell. -/
def write (slot : Slot) (v : Val) : Option (RawCell simd) :=
  match h : writeSlot slot (zero simd).bytes v with
  | none => none
  | some bytes => some ⟨bytes, by rw [writeSlot_length h]; exact (zero simd).width⟩

/-- Encodes a value into a fresh zeroed cell. -/
def encode (v : Val) : Option (RawCell simd) := (slotForVal simd v).bind fun slot => write slot v

/-- Decodes a cell at its statically known type. -/
def decode (c : RawCell simd) (ty : ValType) : Option Val :=
  (slotForValtype simd ty).bind fun slot => readSlot slot c.bytes

/-! ## The shortcuts -/

/-- `decode_val`, of the host boundary. -/
def decodeVal (c : RawCell simd) (ty : ValType) : Option Val :=
  match ty with
  | .i32 => some (.i32 c.unwrapI32)
  | .i64 => some (.i64 c.unwrapI64)
  | .f32 => some (.f32 c.unwrapI32)
  | .f64 => some (.f64 c.unwrapI64)
  | ty => c.decode ty

/-- `encode_val`. -/
def encodeVal (v : Val) : Option (RawCell simd) :=
  match v with
  | .i32 x => some (ofBytes simd 4 x.toNat (four_le simd))
  | .i64 x => some (ofBytes simd 8 x.toNat (eight_le simd))
  | .f32 bits => some (ofBytes simd 4 bits.toNat (four_le simd))
  | .f64 bits => some (ofBytes simd 8 bits.toNat (eight_le simd))
  | v => encode v

/-- What a local starts with (`push_default`): the cell and its tag. -/
def pushDefault (simd : Bool) (ty : IrVal) : RawCell simd × RefTag :=
  match ty with
  | .ref _ heap => (ofBytes simd 4 nullRef (four_le simd), RefTag.ofRefkind (refkindOfIrheap heap))
  | _ => (zero simd, .none)

/-- `Val::default_for`. -/
def defaultFor : IrVal → Val
  | .i32 => .i32 0
  | .i64 => .i64 0
  | .f32 => .f32 0
  | .f64 => .f64 0
  | .v128 => .v128 0
  | .ref _ heap => refVal (refkindOfIrheap heap) none

/-- The generic push: the cell and the tag of a value. -/
def push (v : Val) : Option (RawCell simd × RefTag) := (encode v).map fun c => (c, RefTag.ofVal v)

end RawCell

/-! ## Handles of `anyref` -/

/-- A decoded handle; the value of an `i31` is sign-extended. -/
inductive AnyRefWord where
  | i31 (value : BitVec 32)
  | slot (index : BitVec 32)
  deriving DecidableEq, Repr

/-- The tag bit of an unboxed `i31`. -/
def i31Bit : BitVec 32 := 1#32 <<< 31

def anyrefHandleI31 (value : BitVec 32) : BitVec 32 := i31Bit ||| (value &&& ~~~i31Bit)

def anyrefHandleSlot (index : BitVec 32) : BitVec 32 := index

/-- Decodes an `anyref` handle. -/
def decodeAnyrefWord (handle : BitVec 32) : AnyRefWord :=
  if handle &&& i31Bit = 0 then .slot handle
  else .i31 (((handle &&& ~~~i31Bit) <<< 1).sshiftRight 1)

theorem i31Bit_getLsbD (i : ℕ) : i31Bit.getLsbD i = decide (i = 31) := by
  have htwo : i31Bit = BitVec.twoPow 32 31 := by decide
  rw [htwo, BitVec.getLsbD_twoPow]
  by_cases hi : i = 31
  · subst hi
    decide
  · simp [hi, Ne.symm hi]

/-- The tag bit is clear in the handles below the tag. -/
theorem i31Bit_iff (handle : BitVec 32) : handle &&& i31Bit = 0 ↔ handle.toNat < i31Tag := by
  have hlt : handle.msb = false ↔ handle.toNat < i31Tag := by
    rw [BitVec.msb_eq_false_iff_two_mul_lt]
    unfold i31Tag
    omega
  rw [← hlt, BitVec.msb_eq_getLsbD_last]
  constructor
  · intro h
    have hbit : (handle &&& i31Bit).getLsbD 31 = (0 : BitVec 32).getLsbD 31 := by rw [h]
    rw [BitVec.getLsbD_and, i31Bit_getLsbD, decide_eq_true rfl, Bool.and_true] at hbit
    rw [hbit]
    rfl
  · intro h
    apply BitVec.eq_of_getLsbD_eq
    intro i hi
    rw [BitVec.getLsbD_and, i31Bit_getLsbD]
    by_cases hlast : i = 31
    · subst hlast
      rw [h, Bool.false_and]
      rfl
    · rw [decide_eq_false hlast, Bool.and_false]
      simp

theorem masked_getLsbD (value : BitVec 32) {j : ℕ} (hj : j < 31) :
    ((i31Bit ||| (value &&& ~~~i31Bit)) &&& ~~~i31Bit).getLsbD j = value.getLsbD j := by
  have hbit : i31Bit.getLsbD j = false := by
    rw [i31Bit_getLsbD]
    exact decide_eq_false (by omega)
  rw [BitVec.getLsbD_and, BitVec.getLsbD_or, BitVec.getLsbD_and, BitVec.getLsbD_not, hbit]
  simp [show j < 32 by omega]

theorem anyrefHandleI31_tagged (value : BitVec 32) : i31Tag ≤ (anyrefHandleI31 value).toNat := by
  apply Nat.le_of_not_lt
  rw [← i31Bit_iff]
  intro h
  have hbit : (anyrefHandleI31 value &&& i31Bit).getLsbD 31 = (0 : BitVec 32).getLsbD 31 := by
    rw [h]
  rw [anyrefHandleI31, BitVec.getLsbD_and, BitVec.getLsbD_or, i31Bit_getLsbD,
    decide_eq_true rfl, Bool.true_or] at hbit
  exact absurd hbit (by decide)

/-- An `i31` comes back with its 31 bits sign-extended. -/
theorem decodeAnyrefWord_i31 (value : BitVec 32) :
    decodeAnyrefWord (anyrefHandleI31 value) = .i31 ((value.setWidth 31).signExtend 32) := by
  have htag : ¬anyrefHandleI31 value &&& i31Bit = 0 := by
    rw [i31Bit_iff]
    exact Nat.not_lt.mpr (anyrefHandleI31_tagged value)
  rw [decodeAnyrefWord, if_neg htag, anyrefHandleI31]
  congr 1
  apply BitVec.eq_of_getLsbD_eq
  intro i hi
  rw [BitVec.getLsbD_sshiftRight, BitVec.getLsbD_signExtend]
  by_cases hlow : i < 31
  · rw [if_pos (by omega), if_pos hlow, BitVec.getLsbD_shiftLeft, show 1 + i - 1 = i by omega,
      masked_getLsbD value hlow, BitVec.getLsbD_setWidth]
    simp [hlow, show i < 32 by omega, show 1 + i < 32 by omega]
  · -- the bit above the payload repeats its highest one
    have h31 : i = 31 := by omega
    subst h31
    rw [if_neg (by omega), if_neg (by omega), BitVec.msb_eq_getLsbD_last,
      BitVec.msb_eq_getLsbD_last, BitVec.getLsbD_shiftLeft, masked_getLsbD value (by omega),
      BitVec.getLsbD_setWidth]
    simp

theorem decodeAnyrefWord_slot {index : BitVec 32} (h : index.toNat < i31Tag) :
    decodeAnyrefWord (anyrefHandleSlot index) = .slot index := by
  rw [decodeAnyrefWord, anyrefHandleSlot, if_pos ((i31Bit_iff index).mpr h)]

/-! ## The codec of cells -/

/-- `v` is a value of type `ty`, as far as the encoding goes: a reference is one of the type's
hierarchy. -/
def Val.IsA (v : Val) (ty : ValType) : Prop := slotAccepts (pubValSlot ty 0) v = true

/-- The types a build has cells for. -/
def Supported (simd : Bool) (ty : ValType) : Prop := simd = true ∨ ty ≠ .v128

namespace RawCell

variable {simd : Bool}

variable {v : Val} {ty : ValType} {n : ℕ}

theorem slotForValtype_eq (h : Supported simd ty) :
    slotForValtype simd ty = some (pubValSlot ty 0) := by
  cases ty with
  | v128 =>
    rcases h with rfl | h
    · rfl
    · exact absurd rfl h
  | _ => rfl

/-- A value and its type name the same slot. -/
theorem slotForVal_eq (hv : v.IsA ty) : slotForVal simd v = slotForValtype simd ty := by
  cases ty with
  | ref nullable heap =>
    have hk : slotAccepts (.ref 0 (pubRefKind heap)) v = true := hv
    show _ = some (Slot.ref 0 (pubRefKind heap))
    generalize pubRefKind heap = kind at hk ⊢
    cases kind <;> cases v <;> first
      | rfl
      | cases hk
  | _ =>
    cases v <;> first
      | rfl
      | cases hv

theorem pubValSlot_fits (h : Supported simd ty) :
    (pubValSlot ty 0).offset + (pubValSlot ty 0).width ≤ (zero simd).bytes.length := by
  rw [(zero simd).width]
  cases ty with
  | v128 =>
    rcases h with rfl | h
    · decide
    · exact absurd rfl h
  | ref nullable heap =>
    show 0 + 4 ≤ cellWidth simd
    rw [Nat.zero_add]
    exact four_le simd
  | _ => cases simd <;> decide

theorem pubValSlot_held (ty : ValType) (o : ℕ) (v : Val) : (pubValSlot ty o).held v = v := by
  cases ty <;> cases v <;> rfl

theorem write_some {slot : Slot} {bytes : List UInt8}
    (h : writeSlot slot (zero simd).bytes v = some bytes) :
    ∃ c : RawCell simd, write slot v = some c ∧ c.bytes = bytes := by
  unfold write
  split
  · rename_i hn
    rw [h] at hn
    nomatch hn
  · rename_i b hb
    rw [h] at hb
    exact ⟨_, rfl, (Option.some.inj hb).symm⟩

/-- Decoding undoes encoding at the value's type. -/
theorem decode_encode (hty : Supported simd ty) (hv : v.IsA ty) (he : v.Encodable) :
    ∃ c : RawCell simd, encode v = some c ∧ c.decode ty = some v := by
  obtain ⟨bytes, hw, -⟩ := writeSlot_within (pubValSlot_fits hty) hv
  obtain ⟨c, hc, hb⟩ := write_some hw
  refine ⟨c, ?_, ?_⟩
  · rw [encode, slotForVal_eq hv, slotForValtype_eq hty, Option.bind_some, hc]
  · rw [decode, slotForValtype_eq hty, Option.bind_some, hb, readSlot_writeSlot hw hv he,
      pubValSlot_held]

/-! ## The shortcuts agree with the codec -/

/-- A write at offset 0 of a zeroed cell leaves the bytes of the value and zeros. -/
theorem write_ofBytes {slot : Slot} {x : ℕ} (h : n ≤ cellWidth simd) (ho : slot.offset = 0)
    (hb : slotBytes slot v = some (leBytes n x)) : write slot v = some (ofBytes simd n x h) := by
  have hw : writeSlot slot (zero simd).bytes v = some (ofBytes simd n x h).bytes := by
    rw [writeSlot_eq, hb, Option.bind_some, ho]
    refine splice_eq_some.mpr ⟨?_, ?_⟩
    · rw [(zero simd).width, leBytes_length, Nat.zero_add]
      exact h
    · rw [Ranges.overwrite, leBytes_length, Nat.zero_add, List.take_zero, List.nil_append]
      show _ = leBytes n x ++ (List.replicate (cellWidth simd) (0 : UInt8)).drop n
      rw [List.drop_replicate]
      rfl
  obtain ⟨c, hc, hbytes⟩ := write_some hw
  rw [hc]
  exact congrArg some (RawCell.ext hbytes)

theorem leBytes_zero (n : ℕ) : leBytes n 0 = List.replicate n 0 := by
  induction n with
  | zero => rfl
  | succ n ih =>
    rw [leBytes, List.replicate_succ, Nat.zero_div, ih]
    rfl

theorem ofBytes_zero (h : n ≤ cellWidth simd) : ofBytes simd n 0 h = zero simd := by
  apply RawCell.ext
  show leBytes n 0 ++ List.replicate (cellWidth simd - n) 0 = List.replicate (cellWidth simd) 0
  rw [leBytes_zero, List.replicate_append_replicate, Nat.add_sub_cancel' h]

theorem encodeVal_eq (v : Val) : (encodeVal v : Option (RawCell simd)) = encode v := by
  cases v with
  | i32 x => exact (write_ofBytes (four_le simd) rfl rfl).symm
  | i64 x => exact (write_ofBytes (eight_le simd) rfl rfl).symm
  | f32 x => exact (write_ofBytes (four_le simd) rfl rfl).symm
  | f64 x => exact (write_ofBytes (eight_le simd) rfl rfl).symm
  | _ => rfl

/-- The low bytes of a cell are a slot at offset 0. -/
theorem slice_zero (c : RawCell simd) (h : n ≤ cellWidth simd) :
    slice c.bytes 0 n = some (c.bytes.take n) := by
  rw [slice, if_pos (by rw [c.width, Nat.zero_add]; exact h), List.drop_zero]

theorem decodeVal_eq (c : RawCell simd) (ty : ValType) : c.decodeVal ty = c.decode ty := by
  cases ty with
  | i32 => exact (congrArg (Option.map (readScalar .i32)) (c.slice_zero (four_le simd))).symm
  | i64 => exact (congrArg (Option.map (readScalar .i64)) (c.slice_zero (eight_le simd))).symm
  | f32 => exact (congrArg (Option.map (readScalar .f32)) (c.slice_zero (four_le simd))).symm
  | f64 => exact (congrArg (Option.map (readScalar .f64)) (c.slice_zero (eight_le simd))).symm
  | _ => rfl

/-- A null reference is the sentinel in four bytes. -/
theorem push_null (kind : RefKind) :
    push (refVal kind none) =
      some (ofBytes simd 4 nullRef (four_le simd), RefTag.ofRefkind kind) := by
  cases kind <;>
    exact congrArg (Option.map _) (write_ofBytes (four_le simd) rfl rfl)

theorem pushDefault_eq {ty : IrVal} (h : simd = true ∨ ty ≠ .v128) :
    push (defaultFor ty) = some (pushDefault simd ty) := by
  have hzero : ∀ {slot v n} (hn : n ≤ cellWidth simd) (_ : slot.offset = 0)
      (_ : slotBytes slot v = some (leBytes n 0)), write slot v = some (zero simd) := by
    intro slot v n hn ho hb
    rw [write_ofBytes hn ho hb, ofBytes_zero]
  cases ty with
  | i32 => exact congrArg (Option.map _) (hzero (four_le simd) rfl rfl)
  | i64 => exact congrArg (Option.map _) (hzero (eight_le simd) rfl rfl)
  | f32 => exact congrArg (Option.map _) (hzero (four_le simd) rfl rfl)
  | f64 => exact congrArg (Option.map _) (hzero (eight_le simd) rfl rfl)
  | v128 =>
    rcases h with rfl | h
    · have hw : write (.scalar 0 .v128) (.v128 0) = some (zero true) :=
        hzero (n := 16) (by decide) rfl rfl
      exact congrArg (Option.map _) hw
    · exact absurd rfl h
  | ref nullable heap => exact push_null _

/-! ## The default build -/

/-- A cell of eight bytes as the word the interpreter's stack holds. -/
def word (c : RawCell false) : Cell := BitVec.ofNat 64 (leNat c.bytes)

theorem word_ofBytes {x : ℕ} (h : n ≤ cellWidth false) :
    (ofBytes false n x h).word = BitVec.ofNat 64 (x % 256 ^ n) := by
  show BitVec.ofNat 64 (leNat (leBytes n x ++ List.replicate (cellWidth false - n) 0)) = _
  rw [leNat_append, leNat_zeros, Nat.mul_zero, Nat.add_zero, leNat_leBytes]

/-- The low half of a word is what the low bytes of its cell stand for. -/
theorem word_unwrapI32 (c : RawCell false) : c.word.unwrapI32 = c.unwrapI32 := by
  have hlen : (c.bytes.take 4).length = 4 := by
    rw [List.length_take, c.width]
    rfl
  have hsplit : leNat c.bytes = c.lo 4 + 256 ^ 4 * leNat (c.bytes.drop 4) := by
    have happ := leNat_append (c.bytes.take 4) (c.bytes.drop 4)
    rw [List.take_append_drop, hlen] at happ
    exact happ
  apply BitVec.eq_of_toNat_eq
  rw [Cell.unwrapI32, word, unwrapI32, BitVec.toNat_setWidth, BitVec.toNat_ofNat,
    BitVec.toNat_ofNat, hsplit]
  omega

theorem word_i32 {x : BitVec 32} (h : 4 ≤ cellWidth false) :
    (ofBytes false 4 x.toNat h).word = x.setWidth 64 := by
  rw [word_ofBytes]
  apply BitVec.eq_of_toNat_eq
  have hx := x.isLt
  rw [BitVec.toNat_ofNat, BitVec.toNat_setWidth]
  omega

theorem word_i64 {x : BitVec 64} (h : 8 ≤ cellWidth false) :
    (ofBytes false 8 x.toNat h).word = x := by
  rw [word_ofBytes]
  apply BitVec.eq_of_toNat_eq
  have hx := x.isLt
  rw [BitVec.toNat_ofNat]
  omega

theorem word_ref {r : Option ℕ} (h : ∀ x, r = some x → x < 2 ^ 32) (hn : 4 ≤ cellWidth false) :
    (ofBytes false 4 (r.getD nullRef) hn).word = BitVec.ofNat 64 (r.getD nullRef) := by
  have hlt : r.getD nullRef < 256 ^ 4 := by
    cases r with
    | none => decide
    | some x => exact h x rfl
  rw [word_ofBytes, Nat.mod_eq_of_lt hlt]

/-- The cell of a reference. -/
theorem encode_ref (kind : RefKind) (r : Option ℕ) :
    encode (refVal kind r) = some (ofBytes simd 4 (r.getD nullRef) (four_le simd)) := by
  cases kind <;> exact write_ofBytes (four_le simd) rfl rfl

/-- The interpreter's words are the cells of the default build. -/
theorem word_encode (he : v.Encodable) {c : RawCell false} (h : encode v = some c) :
    c.word = SubmilliWasm.encode v := by
  have href : ∀ kind r, (∀ x, r = some x → x < 2 ^ 32) → encode (refVal kind r) = some c →
      c.word = BitVec.ofNat 64 (r.getD nullRef) := by
    intro kind r hr hc
    rw [encode_ref] at hc
    obtain rfl := Option.some.inj hc
    exact word_ref hr _
  cases v with
  | i32 x =>
    rw [← encodeVal_eq] at h
    obtain rfl := Option.some.inj h
    exact word_i32 _
  | i64 x =>
    rw [← encodeVal_eq] at h
    obtain rfl := Option.some.inj h
    exact word_i64 _
  | f32 x =>
    rw [← encodeVal_eq] at h
    obtain rfl := Option.some.inj h
    exact word_i32 _
  | f64 x =>
    rw [← encodeVal_eq] at h
    obtain rfl := Option.some.inj h
    exact word_i64 _
  | v128 x => nomatch h
  | funcRef r => exact href .func r (fun x hx => by subst hx; exact he.1) h
  | externRef r => exact href .extern_ r (fun x hx => by subst hx; exact he.1) h
  | anyRef r => exact href .any r (fun x hx => by subst hx; exact he.1) h
  | exnRef r => exact href .exn r (fun x hx => by subst hx; exact he.1) h

theorem word_default (ty : IrVal) :
    Operand.default ty = ⟨(pushDefault false ty).1.word, (pushDefault false ty).2⟩ := by
  have hzero : (zero false).word = 0 := by decide
  cases ty with
  | ref nullable heap =>
    show Operand.mk _ _ = Operand.mk (ofBytes false 4 nullRef (four_le false)).word _
    rw [word_ofBytes]
    rfl
  | _ => exact congrArg (Operand.mk · RefTag.none) hzero.symm

end RawCell

/-! ## The references of one hierarchy -/

namespace AnyRefWord

/-- The handle of an internal reference or an `i31`. -/
def handle : AnyRefWord → BitVec 32
  | .i31 value => anyrefHandleI31 value
  | .slot index => anyrefHandleSlot index

/-- An `i31` is a number of 31 bits, and a slot lies below the null sentinel. -/
def Valid : AnyRefWord → Prop
  | .i31 value => (value.setWidth 31).signExtend 32 = value
  | .slot index => index.toNat < nullRef

theorem decode_handle {a : AnyRefWord} (h : a.Valid) : decodeAnyrefWord a.handle = a := by
  cases a with
  | i31 value =>
    rw [handle, decodeAnyrefWord_i31]
    exact congrArg _ h
  | slot index => exact decodeAnyrefWord_slot (lt_trans h (by decide))

/-- No handle is the null sentinel. -/
theorem handle_encodable {a : AnyRefWord} (h : a.Valid) :
    (Val.anyRef (some a.handle.toNat)).Encodable := by
  refine ⟨a.handle.isLt, ?_⟩
  cases a with
  | i31 value =>
    have htag := anyrefHandleI31_tagged value
    have hnull : nullRef < i31Tag := by decide
    exact fun heq => absurd (lt_of_le_of_lt (heq ▸ htag) hnull) (lt_irrefl _)
  | slot index => exact Nat.ne_of_lt h

end AnyRefWord

/-! ## The codecs together -/

/-- What the codecs of a build give. -/
structure CodecsInverse (simd : Bool) : Prop where
  /-- A slot reads as what was written, narrowed and extended where it is packed, and no other
  byte has changed. -/
  slots : ∀ slot data v, slotAccepts slot v = true → v.Encodable →
    slot.offset + slot.width ≤ data.length →
    ∃ data', writeSlot slot data v = some data' ∧ data'.length = data.length ∧
      readSlot slot data' = some (slot.held v) ∧
      (∀ x signed, v = .i32 x →
        TestStore.readSlotPacked slot data' signed = some (slot.widened x signed)) ∧
      ∀ j, j < slot.offset ∨ slot.offset + slot.width ≤ j → data'[j]? = data[j]?
  /-- The other fields and elements keep their bytes. -/
  others : ∀ (layout : Layout) slot other data data' v, layout.Laid → layout.Apart slot other →
    slotAccepts slot v = true → writeSlot slot data v = some data' →
    window data' other.offset other.width = window data other.offset other.width
  cells : ∀ v ty, Supported simd ty → v.IsA ty → v.Encodable →
    ∃ c : RawCell simd, RawCell.encode v = some c ∧ c.decode ty = some v
  hostDecode : ∀ (c : RawCell simd) ty, c.decodeVal ty = c.decode ty
  hostEncode : ∀ v, (RawCell.encodeVal v : Option (RawCell simd)) = RawCell.encode v
  defaults : ∀ ty, simd = true ∨ ty ≠ .v128 →
    RawCell.push (RawCell.defaultFor ty) = some (RawCell.pushDefault simd ty)
  references : ∀ kind r r', (refVal kind r).Encodable → (refVal kind r').Encodable → r ≠ r' →
    (RawCell.encode (refVal kind r) : Option (RawCell simd)) ≠ RawCell.encode (refVal kind r') ∧
      ∀ o, slotBytes (.ref o kind) (refVal kind r) ≠ slotBytes (.ref o kind) (refVal kind r')
  /-- The handles of `i31`s and of slots are handles of their own, and sign extension gives an
  `i31` back. -/
  anyrefs : ∀ a : AnyRefWord, a.Valid →
    decodeAnyrefWord a.handle = a ∧ (Val.anyRef (some a.handle.toNat)).Encodable

/-- The words of the interpreter's stack are the cells of the default build. -/
structure WordsAreCells : Prop where
  encode : ∀ v (c : RawCell false), v.Encodable → RawCell.encode v = some c →
    c.word = SubmilliWasm.encode v
  default : ∀ ty, Operand.default ty =
    ⟨(RawCell.pushDefault false ty).1.word, (RawCell.pushDefault false ty).2⟩
  decode : ∀ c : RawCell false, c.word.unwrapI32 = c.unwrapI32

theorem refHandle_refVal (kind : RefKind) (r : Option ℕ) :
    refHandle (refVal kind r) = some (r.getD nullRef) := by cases kind <;> rfl

/-- A handle is told by its four bytes. -/
theorem refBytes_injective {kind : RefKind} {r r' : Option ℕ} (hr : (refVal kind r).Encodable)
    (hr' : (refVal kind r').Encodable)
    (h : leBytes refWidth (r.getD nullRef) = leBytes refWidth (r'.getD nullRef)) : r = r' := by
  have hread : ∀ {o}, (refVal kind o).Encodable →
      readRef kind (leNat (leBytes refWidth (o.getD nullRef))) = refVal kind o := by
    intro o ho
    refine readRef_handle fun x hx => ?_
    subst hx
    cases kind <;> exact ho
  have hval : refVal kind r = refVal kind r' := by rw [← hread hr, h, hread hr']
  cases kind <;> injection hval

theorem value_codecs : (∀ simd, CodecsInverse simd) ∧ WordsAreCells := by
  constructor
  · intro simd
    refine
      { slots := fun slot data v hv he hle => ?_
        others := fun layout slot other data data' v hl ha hv hw =>
          writeSlot_disjoint hw hv (ha.disjoint hl)
        cells := fun v ty hty hv he => RawCell.decode_encode hty hv he
        hostDecode := RawCell.decodeVal_eq
        hostEncode := RawCell.encodeVal_eq
        defaults := fun ty h => RawCell.pushDefault_eq h
        references := fun kind r r' hr hr' hne => ?_
        anyrefs := fun a ha => ⟨a.decode_handle ha, a.handle_encodable ha⟩ }
    · obtain ⟨data', hw, hlen⟩ := writeSlot_within hle hv
      refine ⟨data', hw, hlen, readSlot_writeSlot hw hv he, ?_, writeSlot_frame hw hv⟩
      rintro x signed rfl
      exact readSlotPacked_writeSlot signed hw hv
    · have hslot : ∀ o, slotBytes (.ref o kind) (refVal kind r) ≠
          slotBytes (.ref o kind) (refVal kind r') := by
        intro o h
        rw [slotBytes, slotBytes, refHandle_refVal, refHandle_refVal] at h
        exact hne (refBytes_injective hr hr' (Option.some.inj h))
      refine ⟨fun h => ?_, hslot⟩
      rw [RawCell.encode_ref, RawCell.encode_ref] at h
      have hbytes := congrArg RawCell.bytes (Option.some.inj h)
      exact hne (refBytes_injective hr hr' (List.append_cancel_right hbytes))
  · exact
      { encode := fun v c he h => RawCell.word_encode he h
        default := RawCell.word_default
        decode := RawCell.word_unwrapI32 }

end SubmilliWasm
