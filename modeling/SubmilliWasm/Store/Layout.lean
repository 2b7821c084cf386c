/-
# Packed bodies of GC objects

The byte layout of an aggregate type (`src/canon/layout.rs`), the materialization of a
registered type it is computed from (`src/canon/materialize.rs`), and the codecs that read
and write a value at a slot of a body (`src/store/gc_codec.rs`).  A body is a list of bytes,
a reference in it is a four-byte handle, and an access out of range, a panic in the source,
is `none`.
-/
import SubmilliWasm.Canon.Registry

namespace SubmilliWasm

/-! ## Slots -/

inductive ScalarKind where
  | i8
  | i16
  | i32
  | i64
  | f32
  | f64
  | v128
  deriving DecidableEq, Repr

def ScalarKind.width : ScalarKind → ℕ
  | .i8 => 1
  | .i16 => 2
  | .i32 | .f32 => 4
  | .i64 | .f64 => 8
  | .v128 => 16

/-- The reference hierarchies. -/
inductive RefKind where
  | func
  | extern_
  | any
  | exn
  deriving DecidableEq, Repr

/-- The width of a reference handle in a packed body. -/
def refWidth : ℕ := 4

inductive Slot where
  | scalar (offset : ℕ) (kind : ScalarKind)
  | ref (offset : ℕ) (kind : RefKind)
  deriving DecidableEq, Repr

def Slot.offset : Slot → ℕ
  | .scalar o _ => o
  | .ref o _ => o

def Slot.width : Slot → ℕ
  | .scalar _ k => k.width
  | .ref _ _ => refWidth

theorem Slot.width_le (slot : Slot) : slot.width ≤ 16 := by
  cases slot with
  | scalar o kind =>
    show kind.width ≤ 16
    cases kind <;> decide
  | ref o kind =>
    show refWidth ≤ 16
    decide

def Slot.withOffset (offset : ℕ) : Slot → Slot
  | .scalar _ k => .scalar offset k
  | .ref _ k => .ref offset k

/-! ## Layouts -/

structure StructLayout where
  fields : List Slot
  size : ℕ
  deriving DecidableEq, Repr

structure ArrayLayout where
  elem : Slot
  stride : ℕ
  deriving DecidableEq, Repr

/-- Lays slots out back to back from offset `size` on. -/
def layFields : ℕ → List (ℕ → Slot) → StructLayout
  | size, [] => ⟨[], size⟩
  | size, slotAt :: rest =>
    let slot := slotAt size
    let layout := layFields (size + slot.width) rest
    ⟨slot :: layout.fields, layout.size⟩

def StructLayout.of (slotAt : List (ℕ → Slot)) : StructLayout := layFields 0 slotAt

def ArrayLayout.of (elem : Slot) : ArrayLayout := ⟨elem, elem.width⟩

def ArrayLayout.elemAt (l : ArrayLayout) (i : ℕ) : Slot := l.elem.withOffset (i * l.stride)

def ArrayLayout.bodySize (l : ArrayLayout) (len : ℕ) : ℕ := len * l.stride

def pubRefKind : HeapType → RefKind
  | .func | .noFunc | .concreteFunc _ => .func
  | .extern_ | .noExtern => .extern_
  | .exn | .noExn => .exn
  | _ => .any

def pubValSlot (v : ValType) (offset : ℕ) : Slot :=
  match v with
  | .i32 => .scalar offset .i32
  | .i64 => .scalar offset .i64
  | .f32 => .scalar offset .f32
  | .f64 => .scalar offset .f64
  | .v128 => .scalar offset .v128
  | .ref _ heap => .ref offset (pubRefKind heap)

def pubFieldSlot (f : FieldType) (offset : ℕ) : Slot :=
  match f.elementType with
  | .i8 => .scalar offset .i8
  | .i16 => .scalar offset .i16
  | .valType v => pubValSlot v offset

/-- The reference hierarchy of a heap type of the module IR. -/
def refKind : IrHeap → RefKind
  | .func | .noFunc | .concrete _ .func => .func
  | .extern_ | .noExtern => .extern_
  | .exn | .noExn => .exn
  | _ => .any

def valSlot (v : IrVal) (offset : ℕ) : Slot :=
  match v with
  | .i32 => .scalar offset .i32
  | .i64 => .scalar offset .i64
  | .f32 => .scalar offset .f32
  | .f64 => .scalar offset .f64
  | .v128 => .scalar offset .v128
  | .ref _ heap => .ref offset (refKind heap)

def fieldSlot (f : IrField) (offset : ℕ) : Slot :=
  match f.storage with
  | .i8 => .scalar offset .i8
  | .i16 => .scalar offset .i16
  | .val v => valSlot v offset

inductive Layout where
  | struct (layout : StructLayout)
  | array (layout : ArrayLayout)
  deriving DecidableEq, Repr

/-- The layout of a type of the module IR; a function type has none. -/
def Layout.fromBody : CompositeBody → Option Layout
  | .func _ _ => none
  | .struct fields => some (.struct (StructLayout.of (fields.map fieldSlot)))
  | .array f => some (.array (ArrayLayout.of (fieldSlot f 0)))

def Layout.forStruct (fields : List FieldType) : StructLayout :=
  StructLayout.of (fields.map pubFieldSlot)

def Layout.forArray (field : FieldType) : ArrayLayout := ArrayLayout.of (pubFieldSlot field 0)

/-! ## Materialization -/

def numDecode : ℕ → ValType
  | 0 => .i32
  | 1 => .i64
  | 2 => .f32
  | 3 => .f64
  | _ => .v128

def absDecode : ℕ → HeapType
  | 0 => .func
  | 1 => .noFunc
  | 2 => .extern_
  | 3 => .noExtern
  | 4 => .any
  | 5 => .eq
  | 6 => .i31
  | 7 => .struct
  | 8 => .array
  | 9 => .exn
  | 10 => .noExn
  | _ => .none

/-- A relative reference is `unreachable!` in the source: stored bodies hold absolute ids. -/
def matHeap : CHeap CanonRef → HeapType
  | .abs c => absDecode c
  | .concrete .func (.canon id) => .concreteFunc id
  | .concrete .struct (.canon id) => .concreteStruct id
  | .concrete .array (.canon id) => .concreteArray id
  | .concrete _ (.rel _) => .none

def matVal : CVal CanonRef → ValType
  | .num c => numDecode c
  | .ref nullable h => .ref nullable (matHeap h)

def matField (f : CField CanonRef) : FieldType where
  mutability := if f.mutable then .var else .const
  elementType :=
    match f.storage with
    | .packed 0 => .i8
    | .packed _ => .i16
    | .val v => .valType (matVal v)

/-- The parameters and results of a live function type. -/
def TypeRegistry.funcSig (r : TypeRegistry) (id : CanonicalTypeId) :
    Option (List ValType × List ValType) :=
  match (r.type? id).map CanonType.body with
  | some (.func params results) => some (params.map matVal, results.map matVal)
  | _ => none

/-- The fields of a live struct type. -/
def TypeRegistry.structFields (r : TypeRegistry) (id : CanonicalTypeId) :
    Option (List FieldType) :=
  match (r.type? id).map CanonType.body with
  | some (.struct fields) => some (fields.map matField)
  | _ => none

/-- The element of a live array type. -/
def TypeRegistry.arrayField (r : TypeRegistry) (id : CanonicalTypeId) : Option FieldType :=
  match (r.type? id).map CanonType.body with
  | some (.array field) => some (matField field)
  | _ => none

/-! ## Values and handles -/

/-- A value; a reference is its raw handle, `none` for null. -/
inductive Val where
  | i32 (v : BitVec 32)
  | i64 (v : BitVec 64)
  | f32 (bits : BitVec 32)
  | f64 (bits : BitVec 64)
  | v128 (v : BitVec 128)
  | funcRef (r : Option ℕ)
  | externRef (r : Option ℕ)
  | anyRef (r : Option ℕ)
  | exnRef (r : Option ℕ)
  deriving DecidableEq, Repr

/-- A table element or an element of a segment. -/
inductive Ref where
  | func (r : Option ℕ)
  | extern_ (r : Option ℕ)
  | any (r : Option ℕ)
  | exn (r : Option ℕ)
  deriving DecidableEq, Repr

/-- The null handle of a packed body. -/
def nullRef : ℕ := 0x7FFFFFFF

/-- The tag of an unboxed `i31` in an `anyref` handle. -/
def i31Tag : ℕ := 2 ^ 31

inductive AnyRefHandle where
  | i31 (payload : ℕ)
  | slot (i : ℕ)
  deriving DecidableEq, Repr

/-- Handles are 32 bits wide, so the tag is set iff the handle is at least the tag. -/
def decodeAnyrefHandle (handle : ℕ) : AnyRefHandle :=
  if handle < i31Tag then .slot handle else .i31 (handle - i31Tag)

/-! ## Codecs -/

/-- The number little-endian bytes stand for. -/
def leNat : List UInt8 → ℕ
  | [] => 0
  | b :: bs => b.toNat + 256 * leNat bs

def leBytes : ℕ → ℕ → List UInt8
  | 0, _ => []
  | n + 1, x => UInt8.ofNat x :: leBytes n (x / 256)

/-- `data[offset .. offset + n]`. -/
def slice (data : List UInt8) (offset n : ℕ) : Option (List UInt8) :=
  if offset + n ≤ data.length then some ((data.drop offset).take n) else none

/-- Overwrites `data[offset ..]` with `bytes`. -/
def splice (data : List UInt8) (offset : ℕ) (bytes : List UInt8) : Option (List UInt8) :=
  if offset + bytes.length ≤ data.length then
    some (data.take offset ++ bytes ++ data.drop (offset + bytes.length))
  else none

def readScalar (kind : ScalarKind) (bytes : List UInt8) : Val :=
  match kind with
  | .i8 | .i16 | .i32 => .i32 (BitVec.ofNat 32 (leNat bytes))
  | .i64 => .i64 (BitVec.ofNat 64 (leNat bytes))
  | .f32 => .f32 (BitVec.ofNat 32 (leNat bytes))
  | .f64 => .f64 (BitVec.ofNat 64 (leNat bytes))
  | .v128 => .v128 (BitVec.ofNat 128 (leNat bytes))

/-- The reference a handle stands for in hierarchy `kind`. -/
def refVal (kind : RefKind) (r : Option ℕ) : Val :=
  match kind with
  | .func => .funcRef r
  | .extern_ => .externRef r
  | .any => .anyRef r
  | .exn => .exnRef r

def readRef (kind : RefKind) (handle : ℕ) : Val :=
  refVal kind (if handle = nullRef then none else some handle)

def readSlot (slot : Slot) (data : List UInt8) : Option Val :=
  match slot with
  | .scalar offset kind => (slice data offset kind.width).map (readScalar kind)
  | .ref offset kind => (slice data offset refWidth).map fun b => readRef kind (leNat b)

/-- The bytes a value is stored as in a scalar slot; `none` if it is of another kind. -/
def scalarBytes (kind : ScalarKind) : Val → Option (List UInt8)
  | .i32 v =>
    match kind with
    | .i8 | .i16 | .i32 => some (leBytes kind.width v.toNat)
    | _ => none
  | .i64 v => if kind = .i64 then some (leBytes 8 v.toNat) else none
  | .f32 v => if kind = .f32 then some (leBytes 4 v.toNat) else none
  | .f64 v => if kind = .f64 then some (leBytes 8 v.toNat) else none
  | .v128 v => if kind = .v128 then some (leBytes 16 v.toNat) else none
  | _ => none

/-- The stored handle of a reference value. -/
def refHandle : Val → Option ℕ
  | .funcRef r | .externRef r | .anyRef r | .exnRef r => some (r.getD nullRef)
  | _ => none

/-- Whether a value is of the kind a slot stores. -/
def slotAccepts : Slot → Val → Bool
  | .scalar _ .i8, .i32 _ | .scalar _ .i16, .i32 _ | .scalar _ .i32, .i32 _ => true
  | .scalar _ .i64, .i64 _ => true
  | .scalar _ .f32, .f32 _ => true
  | .scalar _ .f64, .f64 _ => true
  | .scalar _ .v128, .v128 _ => true
  | .ref _ .func, .funcRef _ => true
  | .ref _ .extern_, .externRef _ => true
  | .ref _ .any, .anyRef _ => true
  | .ref _ .exn, .exnRef _ => true
  | _, _ => false

def writeSlot (slot : Slot) (data : List UInt8) (v : Val) : Option (List UInt8) :=
  match slot with
  | .scalar offset kind => (scalarBytes kind v).bind (splice data offset)
  | .ref offset _ => (refHandle v).bind fun h => splice data offset (leBytes refWidth h)

/-! ## What layouts and codecs give -/

theorem layFields_append (size : ℕ) (l m : List (ℕ → Slot)) :
    (layFields size (l ++ m)).fields =
      (layFields size l).fields ++ (layFields (layFields size l).size m).fields := by
  induction l generalizing size with
  | nil => rfl
  | cons f l ih => exact congrArg (f size :: ·) (ih _)

/-- Slots laid at their own offsets end before the body does. -/
theorem layFields_within {l : List (ℕ → Slot)} (h : ∀ f ∈ l, ∀ o, (f o).offset = o) (size : ℕ) :
    size ≤ (layFields size l).size ∧
      ∀ slot ∈ (layFields size l).fields, slot.offset + slot.width ≤ (layFields size l).size := by
  induction l generalizing size with
  | nil => exact ⟨le_rfl, fun slot hs => absurd hs (by simp [layFields])⟩
  | cons f l ih =>
    obtain ⟨hsize, hfields⟩ := ih (fun g hg => h g (List.mem_cons_of_mem _ hg))
      (size + (f size).width)
    have hoff : (f size).offset = size := h f List.mem_cons_self size
    constructor
    · exact le_trans (Nat.le_add_right _ _) hsize
    · intro slot hs
      rcases List.mem_cons.mp hs with rfl | hs
      · rw [hoff]
        exact hsize
      · exact hfields slot hs

theorem pubFieldSlot_offset (f : FieldType) (o : ℕ) : (pubFieldSlot f o).offset = o := by
  obtain ⟨m, s⟩ := f
  cases s with
  | valType v => cases v <;> rfl
  | _ => rfl

theorem withOffset_width (o : ℕ) (slot : Slot) : (slot.withOffset o).width = slot.width := by
  cases slot <;> rfl

theorem withOffset_offset (o : ℕ) (slot : Slot) : (slot.withOffset o).offset = o := by
  cases slot <;> rfl

variable {data : List UInt8} {slot : Slot}

/-- A slot inside a body decodes to a value of the slot's kind. -/
theorem readSlot_within (h : slot.offset + slot.width ≤ data.length) :
    ∃ v, readSlot slot data = some v ∧ slotAccepts slot v = true := by
  cases slot with
  | scalar o k =>
    have hs : slice data o k.width = some ((data.drop o).take k.width) := if_pos h
    refine ⟨_, by rw [readSlot, hs, Option.map_some], ?_⟩
    cases k <;> rfl
  | ref o k =>
    have hs : slice data o refWidth = some ((data.drop o).take refWidth) := if_pos h
    refine ⟨_, by rw [readSlot, hs, Option.map_some], ?_⟩
    cases k
    all_goals
      unfold readRef refVal
      rfl

theorem leBytes_length (n x : ℕ) : (leBytes n x).length = n := by
  induction n generalizing x with
  | zero => rfl
  | succ n ih => rw [leBytes, List.length_cons, ih]

theorem splice_length {bytes out : List UInt8} {offset : ℕ}
    (h : splice data offset bytes = some out) : out.length = data.length := by
  unfold splice at h
  split at h
  · rename_i hle
    obtain rfl := Option.some.inj h
    simp only [List.length_append, List.length_take, List.length_drop]
    omega
  · nomatch h

theorem writeSlot_length {out : List UInt8} {v : Val} (h : writeSlot slot data v = some out) :
    out.length = data.length := by
  cases slot with
  | scalar offset kind =>
    obtain ⟨bytes, -, hb⟩ := Option.bind_eq_some_iff.mp h
    exact splice_length hb
  | ref offset kind =>
    obtain ⟨bytes, -, hb⟩ := Option.bind_eq_some_iff.mp h
    exact splice_length hb

theorem splice_within {bytes : List UInt8} {o : ℕ} (h : o + bytes.length ≤ data.length) :
    ∃ data', splice data o bytes = some data' := ⟨_, if_pos h⟩

/-- A value of the slot's kind can be written to a slot inside a body, whose length stays. -/
theorem writeSlot_within {v : Val} (h : slot.offset + slot.width ≤ data.length)
    (hv : slotAccepts slot v = true) :
    ∃ data', writeSlot slot data v = some data' ∧ data'.length = data.length := by
  suffices ∃ data', writeSlot slot data v = some data' by
    obtain ⟨data', hw⟩ := this
    exact ⟨data', hw, writeSlot_length hw⟩
  cases slot with
  | scalar o k =>
    obtain ⟨bytes, hb, hlen⟩ : ∃ bytes, scalarBytes k v = some bytes ∧ bytes.length = k.width := by
      cases k <;> cases v <;> first
        | exact ⟨_, rfl, leBytes_length _ _⟩
        | cases hv
    rw [writeSlot, hb, Option.bind_some]
    exact splice_within (by rw [hlen]; exact h)
  | ref o k =>
    obtain ⟨n, hn⟩ : ∃ n, refHandle v = some n := by
      cases k <;> cases v <;> first
        | exact ⟨_, rfl⟩
        | cases hv
    rw [writeSlot, hn, Option.bind_some]
    exact splice_within (by rw [leBytes_length]; exact h)

end SubmilliWasm
