/-
# Reading back what was written

The codecs of a packed body undo each other (`src/store/gc_codec.rs`): a number is what its
little-endian bytes stand for, a slot reads as the value last written to it, narrowed to what the
slot can hold and widened as the access asks, and a write to one slot touches no byte of another.

A handle is a value of its own below the null sentinel, and an `i31` has the top bit set, so the
references of one hierarchy never share an encoding.
-/
import SubmilliWasm.Lib.Ranges
import SubmilliWasm.Store.TypeTests

namespace SubmilliWasm

open Ranges (window overwrite)

/-! ## Numbers as bytes -/

/-- The bytes of a number stand for it, up to their count. -/
theorem leNat_leBytes (n x : ℕ) : leNat (leBytes n x) = x % 256 ^ n := by
  induction n generalizing x with
  | zero => rw [leBytes, leNat, pow_zero, Nat.mod_one]
  | succ n ih =>
    have hbyte : (UInt8.ofNat x).toNat = x % 256 := UInt8.toNat_ofNat'
    rw [leBytes, leNat, ih, hbyte, pow_succ', Nat.mod_mul]

theorem leNat_lt (bytes : List UInt8) : leNat bytes < 256 ^ bytes.length := by
  induction bytes with
  | nil => exact Nat.one_pos
  | cons b bytes ih =>
    have hb : b.toNat < 256 := b.toNat_lt
    rw [leNat, List.length_cons, pow_succ]
    omega

/-- A number is told by its bytes. -/
theorem leBytes_leNat (bytes : List UInt8) : leBytes bytes.length (leNat bytes) = bytes := by
  induction bytes with
  | nil => rfl
  | cons b bytes ih =>
    have hb : b.toNat < 256 := b.toNat_lt
    have hlow : UInt8.ofNat (b.toNat + 256 * leNat bytes) = b := by
      apply UInt8.toNat_inj.mp
      rw [UInt8.toNat_ofNat', Nat.add_mul_mod_self_left, Nat.mod_eq_of_lt hb]
    have hhigh : (b.toNat + 256 * leNat bytes) / 256 = leNat bytes := by omega
    rw [List.length_cons, leNat, leBytes, hlow, hhigh, ih]

theorem leNat_append (a b : List UInt8) : leNat (a ++ b) = leNat a + 256 ^ a.length * leNat b := by
  induction a with
  | nil => rw [List.nil_append, leNat, List.length_nil, pow_zero, one_mul, zero_add]
  | cons x a ih =>
    rw [List.cons_append, leNat, leNat, ih, List.length_cons, pow_succ]
    ring

theorem leNat_zeros (n : ℕ) : leNat (List.replicate n 0) = 0 := by
  induction n with
  | zero => rfl
  | succ n ih =>
    rw [List.replicate_succ, leNat, ih]
    rfl

variable {data data' bytes : List UInt8} {slot : Slot} {v : Val} {n o w : ℕ}

/-- A bitvector of whole bytes is told by its bytes. -/
theorem ofNat_leBytes (v : BitVec w) (h : 256 ^ n = 2 ^ w) :
    BitVec.ofNat w (leNat (leBytes n v.toNat)) = v := by
  apply BitVec.eq_of_toNat_eq
  rw [leNat_leBytes, BitVec.toNat_ofNat, h, Nat.mod_mod, Nat.mod_eq_of_lt v.isLt]

/-! ## Ranges of a body -/

theorem slice_eq_window (h : o + n ≤ data.length) :
    slice data o n = some (window data o n) := if_pos h

theorem splice_eq_some :
    splice data o bytes = some data' ↔
      o + bytes.length ≤ data.length ∧ data' = overwrite data o bytes := by
  unfold splice overwrite
  constructor
  · intro h
    split at h
    · rename_i hle
      exact ⟨hle, (Option.some.inj h).symm⟩
    · nomatch h
  · rintro ⟨hle, rfl⟩
    rw [if_pos hle]

/-- What was written is read. -/
theorem slice_splice (h : splice data o bytes = some data') :
    slice data' o bytes.length = some bytes := by
  obtain ⟨hle, rfl⟩ := splice_eq_some.mp h
  rw [slice_eq_window (by rw [Ranges.overwrite_length hle]; exact hle),
    Ranges.window_overwrite_self hle]

/-! ## Slots -/

/-- Two slots of a body that share no byte. -/
def Slot.Disjoint (a b : Slot) : Prop :=
  a.offset + a.width ≤ b.offset ∨ b.offset + b.width ≤ a.offset

/-- A reference whose handle is a word of its own; a scalar is any. -/
def Val.Encodable : Val → Prop
  | .funcRef (some r) | .externRef (some r) | .anyRef (some r) | .exnRef (some r) =>
    r < 2 ^ 32 ∧ r ≠ nullRef
  | _ => True

/-- The value a slot holds once `v` is written: a packed slot keeps its low bits. -/
def Slot.held (slot : Slot) (v : Val) : Val :=
  match slot, v with
  | .scalar _ .i8, .i32 x => .i32 ((x.setWidth 8).setWidth 32)
  | .scalar _ .i16, .i32 x => .i32 ((x.setWidth 16).setWidth 32)
  | _, v => v

/-- The `i32` that `get_s` (`signed`) and `get_u` find in a slot once `x` is written. -/
def Slot.widened (slot : Slot) (x : BitVec 32) (signed : Bool) : BitVec 32 :=
  match slot with
  | .scalar _ .i8 => if signed then (x.setWidth 8).signExtend 32 else (x.setWidth 8).setWidth 32
  | .scalar _ .i16 =>
    if signed then (x.setWidth 16).signExtend 32 else (x.setWidth 16).setWidth 32
  | _ => x

/-- The bytes a slot stores a value as. -/
def slotBytes (slot : Slot) (v : Val) : Option (List UInt8) :=
  match slot with
  | .scalar _ kind => scalarBytes kind v
  | .ref _ _ => (refHandle v).map (leBytes refWidth)

theorem writeSlot_eq (slot : Slot) (data : List UInt8) (v : Val) :
    writeSlot slot data v = (slotBytes slot v).bind (splice data slot.offset) := by
  cases slot with
  | scalar offset kind => rfl
  | ref offset kind =>
    rw [writeSlot, slotBytes, Option.bind_map]
    rfl

theorem slotBytes_length (h : slotBytes slot v = some bytes) (hv : slotAccepts slot v = true) :
    bytes.length = slot.width := by
  cases slot with
  | scalar offset kind =>
    cases kind <;> cases v <;> first
      | (obtain rfl := Option.some.inj h; exact leBytes_length _ _)
      | cases hv
  | ref offset kind =>
    obtain ⟨r, -, rfl⟩ := Option.map_eq_some_iff.mp h
    exact leBytes_length _ _

/-- A write in terms of the body it leaves. -/
theorem writeSlot_some (h : writeSlot slot data v = some data') (hv : slotAccepts slot v = true) :
    ∃ bytes, slotBytes slot v = some bytes ∧ bytes.length = slot.width ∧
      slot.offset + slot.width ≤ data.length ∧ data' = overwrite data slot.offset bytes := by
  rw [writeSlot_eq] at h
  obtain ⟨bytes, hbytes, hs⟩ := Option.bind_eq_some_iff.mp h
  have hlen := slotBytes_length hbytes hv
  obtain ⟨hle, hdata⟩ := splice_eq_some.mp hs
  rw [hlen] at hle
  exact ⟨bytes, hbytes, hlen, hle, hdata⟩

/-- Every byte outside of the slot is left. -/
theorem writeSlot_frame (h : writeSlot slot data v = some data') (hv : slotAccepts slot v = true)
    (j : ℕ) (hj : j < slot.offset ∨ slot.offset + slot.width ≤ j) : data'[j]? = data[j]? := by
  obtain ⟨bytes, -, hlen, hle, rfl⟩ := writeSlot_some h hv
  rw [Ranges.overwrite_getElem? (by rw [hlen]; exact hle), if_neg (by rw [hlen]; omega)]

/-- Another slot keeps its bytes. -/
theorem writeSlot_disjoint {other : Slot} (h : writeSlot slot data v = some data')
    (hv : slotAccepts slot v = true) (hd : slot.Disjoint other) :
    window data' other.offset other.width = window data other.offset other.width := by
  obtain ⟨bytes, -, hlen, hle, rfl⟩ := writeSlot_some h hv
  rw [Slot.Disjoint] at hd
  exact Ranges.window_overwrite_disjoint (by rw [hlen]; exact hle) (by rw [hlen]; omega)

/-! ## Reading a slot back -/

theorem readRef_handle {kind : RefKind} {r : Option ℕ}
    (h : ∀ x, r = some x → x < 2 ^ 32 ∧ x ≠ nullRef) :
    readRef kind (leNat (leBytes refWidth (r.getD nullRef))) = refVal kind r := by
  have hlt : r.getD nullRef < 256 ^ refWidth := by
    cases r with
    | none => decide
    | some x => exact (h x rfl).1
  rw [leNat_leBytes, Nat.mod_eq_of_lt hlt, readRef]
  cases r with
  | none => rw [Option.getD_none, if_pos rfl]
  | some x => rw [Option.getD_some, if_neg (h x rfl).2]

/-- A number cut to its low bits is the number its low bytes stand for. -/
theorem ofNat_leBytes_low (x : BitVec 32) (h : 256 ^ n = 2 ^ w) :
    BitVec.ofNat w (leNat (leBytes n x.toNat)) = x.setWidth w := by
  apply BitVec.eq_of_toNat_eq
  rw [leNat_leBytes, BitVec.toNat_ofNat, BitVec.toNat_setWidth, h, Nat.mod_mod]

theorem ofNat_leBytes_wide (x : BitVec 32) (h : 256 ^ n = 2 ^ w) :
    BitVec.ofNat 32 (leNat (leBytes n x.toNat)) = (x.setWidth w).setWidth 32 := by
  apply BitVec.eq_of_toNat_eq
  rw [leNat_leBytes, BitVec.toNat_ofNat, BitVec.toNat_setWidth, BitVec.toNat_setWidth, h]

/-- The bytes of a scalar decode to what the slot holds of it. -/
theorem readScalar_scalarBytes {offset : ℕ} {kind : ScalarKind}
    (h : scalarBytes kind v = some bytes) :
    readScalar kind bytes = (Slot.scalar offset kind).held v := by
  cases v with
  | i32 x =>
    cases kind with
    | i8 =>
      obtain rfl := Option.some.inj h
      exact congrArg Val.i32 (ofNat_leBytes_wide (w := 8) (n := 1) x (by norm_num))
    | i16 =>
      obtain rfl := Option.some.inj h
      exact congrArg Val.i32 (ofNat_leBytes_wide (w := 16) (n := 2) x (by norm_num))
    | i32 =>
      obtain rfl := Option.some.inj h
      exact congrArg Val.i32 (ofNat_leBytes (n := 4) x (by norm_num))
    | _ => nomatch h
  | i64 x =>
    cases kind with
    | i64 =>
      obtain rfl := Option.some.inj h
      exact congrArg Val.i64 (ofNat_leBytes (n := 8) x (by norm_num))
    | _ => nomatch h
  | f32 x =>
    cases kind with
    | f32 =>
      obtain rfl := Option.some.inj h
      exact congrArg Val.f32 (ofNat_leBytes (n := 4) x (by norm_num))
    | _ => nomatch h
  | f64 x =>
    cases kind with
    | f64 =>
      obtain rfl := Option.some.inj h
      exact congrArg Val.f64 (ofNat_leBytes (n := 8) x (by norm_num))
    | _ => nomatch h
  | v128 x =>
    cases kind with
    | v128 =>
      obtain rfl := Option.some.inj h
      exact congrArg Val.v128 (ofNat_leBytes (n := 16) x (by norm_num))
    | _ => nomatch h
  | _ => nomatch h

/-- The handle of a reference decodes to the reference. -/
theorem readRef_refHandle {offset : ℕ} {kind : RefKind} {r : ℕ} (h : refHandle v = some r)
    (hv : slotAccepts (.ref offset kind) v = true) (he : v.Encodable) :
    readRef kind (leNat (leBytes refWidth r)) = v := by
  obtain ⟨o, rfl⟩ : ∃ o, v = refVal kind o := by
    cases kind <;> cases v <;> first
      | exact ⟨_, rfl⟩
      | cases hv
  have hr : r = o.getD nullRef := by
    cases kind <;> exact (Option.some.inj h).symm
  rw [hr]
  refine readRef_handle fun x hx => ?_
  subst hx
  cases kind <;> exact he

/-- A slot reads as what it holds of the value written to it. -/
theorem readSlot_writeSlot (h : writeSlot slot data v = some data') (hv : slotAccepts slot v = true)
    (he : v.Encodable) : readSlot slot data' = some (slot.held v) := by
  rw [writeSlot_eq] at h
  obtain ⟨bytes, hbytes, hs⟩ := Option.bind_eq_some_iff.mp h
  have hread := slice_splice hs
  rw [slotBytes_length hbytes hv] at hread
  cases slot with
  | scalar offset kind =>
    rw [readSlot, show slice data' offset kind.width = some bytes from hread, Option.map_some]
    exact congrArg some (readScalar_scalarBytes hbytes)
  | ref offset kind =>
    obtain ⟨r, hr, rfl⟩ := Option.map_eq_some_iff.mp hbytes
    rw [readSlot, show slice data' offset refWidth = some _ from hread, Option.map_some]
    exact congrArg some (readRef_refHandle hr hv he)

/-- A packed slot reads as the low bits of what was written, extended as the access asks. -/
theorem readSlotPacked_writeSlot {x : BitVec 32} (signed : Bool)
    (h : writeSlot slot data (.i32 x) = some data') (hv : slotAccepts slot (.i32 x) = true) :
    TestStore.readSlotPacked slot data' signed = some (slot.widened x signed) := by
  rw [writeSlot_eq] at h
  obtain ⟨bytes, hbytes, hs⟩ := Option.bind_eq_some_iff.mp h
  have hread := slice_splice hs
  rw [slotBytes_length hbytes hv] at hread
  cases slot with
  | ref offset kind => cases kind <;> cases hv
  | scalar offset kind =>
    rw [TestStore.readSlotPacked, show slice data' offset kind.width = some bytes from hread]
    cases kind with
    | i8 =>
      obtain rfl := Option.some.inj hbytes
      cases signed with
      | true =>
        exact congrArg (fun b => some (BitVec.signExtend 32 b))
          (ofNat_leBytes_low (w := 8) (n := 1) x (by norm_num))
      | false => exact congrArg some (ofNat_leBytes_wide (w := 8) (n := 1) x (by norm_num))
    | i16 =>
      obtain rfl := Option.some.inj hbytes
      cases signed with
      | true =>
        exact congrArg (fun b => some (BitVec.signExtend 32 b))
          (ofNat_leBytes_low (w := 16) (n := 2) x (by norm_num))
      | false => exact congrArg some (ofNat_leBytes_wide (w := 16) (n := 2) x (by norm_num))
    | i32 =>
      obtain rfl := Option.some.inj hbytes
      exact congrArg some (ofNat_leBytes (n := 4) x (by norm_num))
    | _ => cases hv

/-! ## The slots of a layout -/

/-- Slots laid back to back come one after the other. -/
theorem layFields_disjoint {l : List (ℕ → Slot)} (h : ∀ f ∈ l, ∀ o, (f o).offset = o) (size : ℕ) :
    (∀ slot ∈ (layFields size l).fields, size ≤ slot.offset) ∧
      (layFields size l).fields.Pairwise fun a b => a.offset + a.width ≤ b.offset := by
  induction l generalizing size with
  | nil => exact ⟨fun slot hs => (nomatch hs), List.Pairwise.nil⟩
  | cons f l ih =>
    obtain ⟨hlow, hpairs⟩ :=
      ih (fun g hg => h g (List.mem_cons_of_mem _ hg)) (size + (f size).width)
    have hoff : (f size).offset = size := h f List.mem_cons_self size
    constructor
    · intro slot hs
      rcases List.mem_cons.mp hs with rfl | hs
      · exact le_of_eq hoff.symm
      · exact le_trans (Nat.le_add_right _ _) (hlow slot hs)
    · apply List.Pairwise.cons
      · intro slot hs
        rw [hoff]
        exact hlow slot hs
      · exact hpairs

theorem fieldSlot_offset (f : IrField) (o : ℕ) : (fieldSlot f o).offset = o := by
  obtain ⟨m, s⟩ := f
  cases s with
  | val v => cases v <;> rfl
  | _ => rfl

/-- Two fields of a layout share no byte. -/
theorem fields_disjoint {l : List (ℕ → Slot)} (h : ∀ f ∈ l, ∀ o, (f o).offset = o) {i j : ℕ}
    {a b : Slot} (ha : (StructLayout.of l).fields[i]? = some a)
    (hb : (StructLayout.of l).fields[j]? = some b) (hij : i ≠ j) : a.Disjoint b := by
  have hpairs := List.pairwise_iff_getElem.mp (layFields_disjoint h 0).2
  obtain ⟨hi, rfl⟩ := List.getElem?_eq_some_iff.mp ha
  obtain ⟨hj, rfl⟩ := List.getElem?_eq_some_iff.mp hb
  rcases Nat.lt_or_gt_of_ne hij with hlt | hlt
  · exact Or.inl (hpairs i j hi hj hlt)
  · exact Or.inr (hpairs j i hj hi hlt)

/-- Two elements of an array share no byte. -/
theorem elems_disjoint (elem : Slot) {i j : ℕ} (hij : i ≠ j) :
    ((ArrayLayout.of elem).elemAt i).Disjoint ((ArrayLayout.of elem).elemAt j) := by
  have hstep : ∀ a b : ℕ, a < b → a * elem.width + elem.width ≤ b * elem.width := by
    intro a b hab
    calc a * elem.width + elem.width = (a + 1) * elem.width := by ring
      _ ≤ b * elem.width := Nat.mul_le_mul_right _ hab
  unfold Slot.Disjoint ArrayLayout.elemAt
  rw [withOffset_offset, withOffset_offset, withOffset_width, withOffset_width]
  rcases Nat.lt_or_gt_of_ne hij with hlt | hlt
  · exact Or.inl (hstep i j hlt)
  · exact Or.inr (hstep j i hlt)

/-- The slots at two places of the layout of a type. -/
inductive Layout.Apart : Layout → Slot → Slot → Prop where
  | field {layout : StructLayout} {i j : ℕ} {a b : Slot} (ha : layout.fields[i]? = some a)
      (hb : layout.fields[j]? = some b) (hij : i ≠ j) : Apart (.struct layout) a b
  | elem {layout : ArrayLayout} {i j : ℕ} (hij : i ≠ j) :
      Apart (.array layout) (layout.elemAt i) (layout.elemAt j)

/-- The layouts there are: of a type of a module, and of a registered type. -/
inductive Layout.Laid : Layout → Prop where
  | body {body : CompositeBody} {layout : Layout} (h : Layout.fromBody body = some layout) :
      Laid layout
  | struct (fields : List FieldType) : Laid (.struct (Layout.forStruct fields))
  | array (field : FieldType) : Laid (.array (Layout.forArray field))

/-- In every layout different places share no byte. -/
theorem Layout.Apart.disjoint {layout : Layout} {a b : Slot} (h : layout.Apart a b)
    (hl : layout.Laid) : a.Disjoint b := by
  cases hl with
  | struct fields =>
    cases h with
    | field ha hb hij =>
      refine fields_disjoint (fun f hf o => ?_) ha hb hij
      obtain ⟨field, -, rfl⟩ := List.mem_map.mp hf
      exact pubFieldSlot_offset field o
  | array field =>
    cases h with
    | elem hij => exact elems_disjoint _ hij
  | @body body layout hl =>
    cases body with
    | func ps rs => nomatch hl
    | struct fields =>
      obtain rfl := Option.some.inj hl
      cases h with
      | field ha hb hij =>
        refine fields_disjoint (fun f hf o => ?_) ha hb hij
        obtain ⟨field, -, rfl⟩ := List.mem_map.mp hf
        exact fieldSlot_offset field o
    | array field =>
      obtain rfl := Option.some.inj hl
      cases h with
      | elem hij => exact elems_disjoint _ hij

end SubmilliWasm
