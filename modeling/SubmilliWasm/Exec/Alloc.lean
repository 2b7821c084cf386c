/-
# Allocating instructions

What a `struct.new*` or `array.new*` charges before it runs (`gc_alloc_charge` of
`src/exec/collect.rs`) and the object it then builds (`src/exec/gc.rs`, `src/exec/gc_array.rs`).
An instruction is given with what it reads: its type's canonical id and layout, the operands it
pops and the segment it copies from.
-/
import SubmilliWasm.Lib.Fallible
import SubmilliWasm.Store.Managed

namespace SubmilliWasm

open Fallible

/-! ## Instructions -/

/-- The zero or null value of a slot. -/
def defaultForSlot : Slot → Val
  | .scalar _ .i8 | .scalar _ .i16 | .scalar _ .i32 => .i32 0
  | .scalar _ .i64 => .i64 0
  | .scalar _ .f32 => .f32 0
  | .scalar _ .f64 => .f64 0
  | .scalar _ .v128 => .v128 0
  | .ref _ kind => refVal kind none

/-- An allocating instruction with its operands; `none` stands for the `_default` form. -/
inductive AllocOp where
  | structNew (typeId : CanonicalTypeId) (layout : StructLayout) (fields : Option (List Val))
  | arrayNew (typeId : CanonicalTypeId) (layout : ArrayLayout) (count : ℕ) (fill : Option Val)
  | arrayNewFixed (typeId : CanonicalTypeId) (layout : ArrayLayout) (elems : List Val)
  | arrayNewData (typeId : CanonicalTypeId) (layout : ArrayLayout) (seg : List UInt8)
      (dropped : Bool) (offset count : ℕ)
  | arrayNewElem (typeId : CanonicalTypeId) (layout : ArrayLayout) (seg : List Ref)
      (offset count : ℕ)

/-! ## The charge -/

def objectCharge (dataLen : ℕ) : ℕ := saturatingAdd objectOverhead dataLen

/-- `count * stride`, a trap if it overflows. -/
def arrayBytes (count stride : ℕ) : Except StoreError ℕ :=
  match checkedMul count stride with
  | some n => .ok n
  | none => .error (.trap .allocationTooLarge)

/-- The size by count, clamped to the length of the source segment. -/
def segClampedCharge (count stride segBytes : ℕ) : ℕ :=
  (checkedMul count stride).elim segBytes (min · segBytes)

/-- The bytes of a data segment an instruction may read. -/
def segLen (seg : List UInt8) (dropped : Bool) : ℕ := if dropped then 0 else seg.length

/-- The bytes reserved before the instruction pops an operand. -/
def AllocOp.charge : AllocOp → Except StoreError ℕ
  | .structNew _ layout _ => .ok (objectCharge layout.size)
  | .arrayNew _ layout count _ => (arrayBytes count layout.stride).map objectCharge
  | .arrayNewFixed _ layout elems => .ok (objectCharge (layout.bodySize elems.length))
  | .arrayNewData _ layout seg dropped _ count =>
    .ok (objectCharge (segClampedCharge count layout.stride (segLen seg dropped)))
  | .arrayNewElem _ layout seg _ count =>
    .ok (objectCharge (segClampedCharge count layout.stride
      (saturatingMul seg.length layout.stride)))

/-! ## The object -/

def isizeMax : ℕ := 2 ^ 63 - 1

/-- A buffer of its own for some bytes; a vector longer than `isize::MAX` panics. -/
def boxed (data : List UInt8) : Except StoreError (List UInt8) :=
  if data.length ≤ isizeMax then .ok data else .error .panic

def zeroedBody (n : ℕ) : Except StoreError (List UInt8) := boxed (List.replicate n 0)

/-- Writes values at slots, in order; a write that panics is an error. -/
def writeSlots (data : List UInt8) : List (Slot × Val) → Except StoreError (List UInt8)
  | [] => .ok data
  | (slot, v) :: rest =>
    match writeSlot slot data v with
    | none => .error .panic
    | some data => writeSlots data rest

/-- The elements of an array of `count` slots, paired with what is written there. -/
def elemWrites (layout : ArrayLayout) (values : List Val) : List (Slot × Val) :=
  (List.range values.length).map layout.elemAt |>.zip values

/-- Bounds-checks `[start, start + len)` against `total`. -/
def checkRange (start len total : ℕ) (t : Trap) : Except StoreError Unit :=
  match checkedAdd start len with
  | some stop => if stop ≤ total then .ok () else .error (.trap t)
  | none => .error (.trap t)

def StoreInner.gcCheckCapacity (s : StoreInner) (extraBytes : ℕ) : Except StoreError Unit :=
  if s.gc.canFitLimit extraBytes then .ok () else .error (.trap .allocationTooLarge)

/-- The object an instruction builds once its charge is reserved. -/
def StoreInner.buildObject (s : StoreInner) : AllocOp → Except StoreError GcObject
  | .structNew typeId layout fields => do
    let values := fields.getD (layout.fields.map defaultForSlot)
    let data ← zeroedBody layout.size
    let data ← writeSlots data (layout.fields.zip values)
    return ⟨typeId, .struct, data⟩
  | .arrayNew typeId layout count fill => do
    let byteLen ← arrayBytes count layout.stride
    let data ← zeroedBody byteLen
    let v := fill.getD (defaultForSlot (layout.elemAt 0))
    let data ← writeSlots data (elemWrites layout (List.replicate count v))
    return ⟨typeId, .array, data⟩
  | .arrayNewFixed typeId layout elems => do
    let data ← zeroedBody (layout.bodySize elems.length)
    let data ← writeSlots data (elemWrites layout elems)
    return ⟨typeId, .array, data⟩
  | .arrayNewData typeId layout seg dropped offset count => do
    let byteLen ← arrayBytes count layout.stride
    checkRange offset byteLen (segLen seg dropped) .memoryOutOfBounds
    s.gcCheckCapacity byteLen
    let data ← boxed ((seg.drop offset).take byteLen)
    return ⟨typeId, .array, data⟩
  | .arrayNewElem typeId layout seg offset count => do
    checkRange offset count seg.length .tableOutOfBounds
    let byteLen ← arrayBytes count layout.stride
    s.gcCheckCapacity byteLen
    let data ← zeroedBody (layout.bodySize count)
    let values := ((seg.drop offset).take count).map Ref.toVal
    let data ← writeSlots data (elemWrites layout values)
    return ⟨typeId, .array, data⟩

/-! ## The charge is the object's size -/

theorem writeSlots_length {ws : List (Slot × Val)} {data out : List UInt8}
    (h : writeSlots data ws = .ok out) : out.length = data.length := by
  induction ws generalizing data with
  | nil => rw [Except.ok.inj h]
  | cons w ws ih =>
    obtain ⟨slot, v⟩ := w
    simp only [writeSlots] at h
    split at h
    · nomatch h
    · rename_i data' hw
      exact (ih h).trans (writeSlot_length hw)

theorem arrayBytes_ok {count stride n : ℕ} (h : arrayBytes count stride = .ok n) :
    n = count * stride ∧ count * stride ≤ usizeMax := by
  unfold arrayBytes checkedMul at h
  split at h
  · rename_i m hm
    split at hm
    · rename_i hle
      exact ⟨(Except.ok.inj h).symm.trans (Option.some.inj hm).symm, hle⟩
    · nomatch hm
  · nomatch h

theorem checkRange_ok {start len total : ℕ} {t : Trap} (h : checkRange start len total t = .ok ()) :
    start + len ≤ total := by
  unfold checkRange checkedAdd at h
  split at h
  · rename_i stop hs
    split at hs
    · obtain rfl := Option.some.inj hs
      split at h
      · assumption
      · nomatch h
    · nomatch hs
  · nomatch h

theorem segClampedCharge_eq {count stride segBytes : ℕ} (hmul : count * stride ≤ usizeMax)
    (h : count * stride ≤ segBytes) : segClampedCharge count stride segBytes = count * stride := by
  unfold segClampedCharge checkedMul
  rw [if_pos hmul, Option.elim_some, min_eq_left h]

theorem boxed_ok {data out : List UInt8} (h : boxed data = .ok out) :
    out = data ∧ data.length ≤ isizeMax := by
  unfold boxed at h
  split at h
  · rename_i hle
    exact ⟨(Except.ok.inj h).symm, hle⟩
  · nomatch h

theorem zeroedBody_ok {n : ℕ} {out : List UInt8} (h : zeroedBody n = .ok out) :
    out.length = n ∧ n ≤ isizeMax := by
  obtain ⟨rfl, hle⟩ := boxed_ok h
  rw [List.length_replicate] at hle ⊢
  exact ⟨rfl, hle⟩

theorem objectCharge_eq {n : ℕ} (h : n ≤ isizeMax) : objectCharge n = objectOverhead + n := by
  apply saturatingAdd_eq
  unfold isizeMax at h
  unfold objectOverhead usizeMax
  omega

/-- **The charge is exact.**  What is reserved for an instruction that completes is the size the
heap then charges. -/
theorem charge_eq_byteSize {s : StoreInner} {op : AllocOp} {c : ℕ} {o : GcObject}
    (hc : op.charge = .ok c) (ho : s.buildObject op = .ok o) : o.byteSize = c := by
  cases op with
  | structNew typeId layout fields =>
    simp only [AllocOp.charge, Except.ok.injEq] at hc
    simp only [StoreInner.buildObject, bind_ok_iff] at ho
    obtain ⟨data, hz, out, hw, ho⟩ := ho
    obtain ⟨hlen, hle⟩ := zeroedBody_ok hz
    obtain rfl := Except.ok.inj ho
    rw [← hc, objectCharge_eq hle, GcObject.byteSize, writeSlots_length hw, hlen]
  | arrayNew typeId layout count fill =>
    simp only [AllocOp.charge, arrayBytes] at hc
    simp only [StoreInner.buildObject, bind_ok_iff] at ho
    obtain ⟨n, hn, data, hz, out, hw, ho⟩ := ho
    obtain ⟨hlen, hle⟩ := zeroedBody_ok hz
    obtain rfl := Except.ok.inj ho
    change (arrayBytes count layout.stride).map objectCharge = _ at hc
    rw [hn] at hc
    obtain rfl : objectCharge n = c := Except.ok.inj hc
    rw [objectCharge_eq hle, GcObject.byteSize, writeSlots_length hw, hlen]
  | arrayNewFixed typeId layout elems =>
    simp only [AllocOp.charge, Except.ok.injEq] at hc
    simp only [StoreInner.buildObject, bind_ok_iff] at ho
    obtain ⟨data, hz, out, hw, ho⟩ := ho
    obtain ⟨hlen, hle⟩ := zeroedBody_ok hz
    obtain rfl := Except.ok.inj ho
    rw [← hc, objectCharge_eq hle, GcObject.byteSize, writeSlots_length hw, hlen]
  | arrayNewData typeId layout seg dropped offset count =>
    simp only [AllocOp.charge, Except.ok.injEq] at hc
    simp only [StoreInner.buildObject, bind_ok_iff] at ho
    obtain ⟨n, hn, _, hr, _, -, data, hb, ho⟩ := ho
    obtain ⟨rfl, hmul⟩ := arrayBytes_ok hn
    obtain ⟨rfl, hle⟩ := boxed_ok hb
    obtain rfl := Except.ok.inj ho
    have hrange := checkRange_ok hr
    -- The range lies in what is left of the segment, so the clamp does not bite.
    have hseg : segLen seg dropped ≤ seg.length := by
      unfold segLen
      split <;> omega
    have hlen : ((seg.drop offset).take (count * layout.stride)).length =
        count * layout.stride := by
      rw [List.length_take, List.length_drop]
      omega
    rw [hlen] at hle
    rw [← hc, segClampedCharge_eq hmul (by omega), objectCharge_eq hle, GcObject.byteSize, hlen]
  | arrayNewElem typeId layout seg offset count =>
    simp only [AllocOp.charge, Except.ok.injEq] at hc
    simp only [StoreInner.buildObject, bind_ok_iff] at ho
    obtain ⟨_, hr, n, hn, _, -, data, hz, out, hw, ho⟩ := ho
    obtain ⟨rfl, hmul⟩ := arrayBytes_ok hn
    obtain ⟨hlen, hle⟩ := zeroedBody_ok hz
    obtain rfl := Except.ok.inj ho
    have hcount : count ≤ seg.length := by
      have := checkRange_ok hr
      omega
    have hseg : count * layout.stride ≤ saturatingMul seg.length layout.stride :=
      le_min (Nat.mul_le_mul_right _ hcount) hmul
    have hbody : layout.bodySize count = count * layout.stride := rfl
    rw [hbody] at hlen hle
    rw [← hc, segClampedCharge_eq hmul hseg, objectCharge_eq hle, GcObject.byteSize,
      writeSlots_length hw, hlen]

end SubmilliWasm
