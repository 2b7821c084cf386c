/-
# Compiled artifacts

The codec of compiled modules (`module/serialize.rs`): a magic, a version and the fields of the
module one after the other, each enum behind the positional index of its variant.  A build without
the `simd` feature has neither `ConstOp::V128`, the fifth variant of its type, nor `Op::Simd`, the
last of its: it counts the variants behind the missing one by other indices, under the same version.

What no feature changes is a parameter (`Plain`), with the codec serde derives for it.
-/
import Mathlib.Tactic.Common
import Mathlib.Tactic.IntervalCases
import SubmilliWasm.Canon.Keys
import SubmilliWasm.Lib.Wire

namespace SubmilliWasm

open Wire

namespace Artifact

/-! ## Constant operators -/

/-- A signed number, zigzag. -/
def zigzag (v : ℤ) : ℕ := if 0 ≤ v then 2 * v.toNat else 2 * (-v).toNat - 1

def unzigzag (n : ℕ) : ℤ := if n % 2 = 0 then (n / 2 : ℕ) else -((n / 2 + 1 : ℕ) : ℤ)

theorem unzigzag_zigzag (v : ℤ) : unzigzag (zigzag v) = v := by
  unfold unzigzag zigzag
  split <;> split <;> omega

def i32 : Codec ℤ := u32.iso unzigzag zigzag unzigzag_zigzag

def i64 : Codec ℤ := u64.iso unzigzag zigzag unzigzag_zigzag

/-- `ConstOp`; floats and vectors are bits. -/
inductive ConstOp where
  | i32 (v : ℤ)
  | i64 (v : ℤ)
  | f32 (bits : ℕ)
  | f64 (bits : ℕ)
  | v128 (bits : ℕ)
  | refNull (heap : IrHeap)
  | refFunc (f : ℕ)
  | globalGet (g : ℕ)
  | i32Add
  | i32Sub
  | i32Mul
  | i64Add
  | i64Sub
  | i64Mul
  | refI31
  | structNew (ty : ℕ)
  | structNewDefault (ty : ℕ)
  | arrayNew (ty : ℕ)
  | arrayNewDefault (ty : ℕ)
  | arrayNewFixed (ty n : ℕ)
  | arrayNewData (ty data : ℕ)
  | arrayNewElem (ty elem : ℕ)
  | anyConvertExtern
  | externConvertAny
deriving DecidableEq, Repr

/-- The position of a variant with all features. -/
def ConstOp.number : ConstOp → ℕ
  | .i32 _ => 0
  | .i64 _ => 1
  | .f32 _ => 2
  | .f64 _ => 3
  | .v128 _ => 4
  | .refNull _ => 5
  | .refFunc _ => 6
  | .globalGet _ => 7
  | .i32Add => 8
  | .i32Sub => 9
  | .i32Mul => 10
  | .i64Add => 11
  | .i64Sub => 12
  | .i64Mul => 13
  | .refI31 => 14
  | .structNew _ => 15
  | .structNewDefault _ => 16
  | .arrayNew _ => 17
  | .arrayNewDefault _ => 18
  | .arrayNewFixed _ _ => 19
  | .arrayNewData _ _ => 20
  | .arrayNewElem _ _ => 21
  | .anyConvertExtern => 22
  | .externConvertAny => 23

/-- Whether the payload can be written. -/
def ConstOp.validPayload (heap : Codec IrHeap) : ConstOp → Prop
  | .i32 v => Artifact.i32.valid v
  | .i64 v => Artifact.i64.valid v
  | .f32 bits => u32.valid bits
  | .f64 bits => u64.valid bits
  | .v128 bits => u128.valid bits
  | .refNull h => heap.valid h
  | .refFunc x | .globalGet x | .structNew x | .structNewDefault x | .arrayNew x |
    .arrayNewDefault x => u32.valid x
  | .arrayNewFixed x y | .arrayNewData x y | .arrayNewElem x y => u32.valid x ∧ u32.valid y
  | _ => True

def ConstOp.payload (heap : Codec IrHeap) : ConstOp → List UInt8
  | .i32 v => Artifact.i32.encode v
  | .i64 v => Artifact.i64.encode v
  | .f32 bits => u32.encode bits
  | .f64 bits => u64.encode bits
  | .v128 bits => u128.encode bits
  | .refNull h => heap.encode h
  | .refFunc x | .globalGet x | .structNew x | .structNewDefault x | .arrayNew x |
    .arrayNewDefault x => u32.encode x
  | .arrayNewFixed x y | .arrayNewData x y | .arrayNewElem x y => u32.encode x ++ u32.encode y
  | _ => []

/-- The readers of all variants, in order. -/
def ConstOp.readers (heap : Codec IrHeap) : List (Reader ConstOp) :=
  [readAs Artifact.i32 .i32, readAs Artifact.i64 .i64, readAs u32 .f32, readAs u64 .f64,
    readAs u128 .v128, readAs heap .refNull, readAs u32 .refFunc, readAs u32 .globalGet,
    readAs unit (fun _ => .i32Add), readAs unit (fun _ => .i32Sub), readAs unit (fun _ => .i32Mul),
    readAs unit (fun _ => .i64Add), readAs unit (fun _ => .i64Sub), readAs unit (fun _ => .i64Mul),
    readAs unit (fun _ => .refI31), readAs u32 .structNew, readAs u32 .structNewDefault,
    readAs u32 .arrayNew, readAs u32 .arrayNewDefault,
    readAs (u32.pair u32) (fun p => .arrayNewFixed p.1 p.2),
    readAs (u32.pair u32) (fun p => .arrayNewData p.1 p.2),
    readAs (u32.pair u32) (fun p => .arrayNewElem p.1 p.2),
    readAs unit (fun _ => .anyConvertExtern), readAs unit (fun _ => .externConvertAny)]

/-- The reader of an operator's own number reads it. -/
theorem ConstOp.readers_payload (heap : Codec IrHeap) (c : ConstOp) (hc : c.validPayload heap)
    (rest : List UInt8) :
    readTable (ConstOp.readers heap) c.number (c.payload heap ++ rest) = some (c, rest) := by
  cases c with
  | i32 v => exact readAs_encode _ hc rest
  | i64 v => exact readAs_encode _ hc rest
  | f32 bits => exact readAs_encode _ hc rest
  | f64 bits => exact readAs_encode _ hc rest
  | v128 bits => exact readAs_encode _ hc rest
  | refNull h => exact readAs_encode _ hc rest
  | refFunc x => exact readAs_encode _ hc rest
  | globalGet x => exact readAs_encode _ hc rest
  | structNew x => exact readAs_encode _ hc rest
  | structNewDefault x => exact readAs_encode _ hc rest
  | arrayNew x => exact readAs_encode _ hc rest
  | arrayNewDefault x => exact readAs_encode _ hc rest
  | arrayNewFixed x y =>
    exact readAs_encode (A := u32.pair u32) (fun p => ConstOp.arrayNewFixed p.1 p.2)
      (b := (x, y)) hc rest
  | arrayNewData x y =>
    exact readAs_encode (A := u32.pair u32) (fun p => ConstOp.arrayNewData p.1 p.2)
      (b := (x, y)) hc rest
  | arrayNewElem x y =>
    exact readAs_encode (A := u32.pair u32) (fun p => ConstOp.arrayNewElem p.1 p.2)
      (b := (x, y)) hc rest
  | _ => rfl

/-- The reader at a number reads no operator of another. -/
theorem ConstOp.readers_number {heap : Codec IrHeap} {k : ℕ} {bytes rest : List UInt8} {c : ConstOp}
    (h : readTable (ConstOp.readers heap) k bytes = some (c, rest)) : c.number = k := by
  obtain ⟨read, hread, hc⟩ := Option.bind_eq_some_iff.mp h
  obtain ⟨hk, -⟩ := List.getElem?_eq_some_iff.mp hread
  have hlt : k < 24 := hk
  interval_cases k
  all_goals
    obtain rfl := Option.some.inj hread
    obtain ⟨b, rfl⟩ := readAs_eq hc
    rfl

/-- The variants of a build: without `simd`, `V128` is missing and those behind it move up. -/
def ConstOp.variants (heap : Codec IrHeap) (simd : Bool) : Variants ConstOp where
  valid c := c.validPayload heap ∧ (simd = false → c.number ≠ 4)
  index c := if simd = true ∨ c.number < 4 then c.number else c.number - 1
  payload := ConstOp.payload heap
  read := readTable (if simd then ConstOp.readers heap else (ConstOp.readers heap).eraseIdx 4)
  reads c rest hc := by
    have hread := ConstOp.readers_payload heap c hc.1 rest
    cases simd with
    | true =>
      rw [if_pos rfl, if_pos (Or.inl rfl)]
      exact hread
    | false =>
      have hne := hc.2 rfl
      rw [if_neg Bool.false_ne_true]
      unfold readTable at hread ⊢
      rw [List.getElem?_eraseIdx]
      by_cases hlt : c.number < 4
      · rw [if_pos (Or.inr hlt), if_pos hlt]
        exact hread
      · have hback : c.number - 1 + 1 = c.number := by omega
        have hge : ¬ c.number - 1 < 4 := by omega
        have hmoved : ¬ (false = true ∨ c.number < 4) := by simp [hlt]
        rw [if_neg hmoved, if_neg hge, hback]
        exact hread

/-- An operator with the same index in every build: a constant of `i32`, `i64`, `f32` or `f64`. -/
def ConstOp.Unmoved (c : ConstOp) : Prop := c.number < 4

/-- **A build reads the constants of another, and none of the operators that moved.** -/
theorem ConstOp.bridge (heap : Codec IrHeap) {simd simd' : Bool} (hne : simd ≠ simd') :
    Bridge (ConstOp.variants heap simd).codec (ConstOp.variants heap simd').codec ConstOp.Unmoved
      Eq := by
  apply VariantBridge.codec
  constructor
  · intro c rest hc hp
    have hlt : c.number < 4 := hp
    have hindex : ∀ b, (ConstOp.variants heap b).index c = c.number := by
      intro b
      exact if_pos (Or.inr hlt)
    have hreads := (ConstOp.variants heap simd').reads c rest
      ⟨hc.1, fun _ => Nat.ne_of_lt hlt⟩
    rw [hindex] at hreads ⊢
    exact hreads
  · rintro c _ rest rest' hc hread rfl
    by_contra hmoved
    have hge : ¬ c.number < 4 := hmoved
    cases simd with
    | true =>
      -- the shorter table reads the next operator at this number
      obtain rfl : simd' = false := by simpa using hne.symm
      change readTable ((ConstOp.readers heap).eraseIdx 4)
        (if true = true ∨ c.number < 4 then c.number else c.number - 1) _ = _ at hread
      rw [if_pos (Or.inl rfl)] at hread
      unfold readTable at hread
      rw [List.getElem?_eraseIdx, if_neg hge] at hread
      have hnumber := ConstOp.readers_number (k := c.number + 1) hread
      omega
    | false =>
      -- the longer table reads the operator in front
      obtain rfl : simd' = true := by simpa using hne.symm
      change readTable (ConstOp.readers heap)
        (if false = true ∨ c.number < 4 then c.number else c.number - 1) _ = _ at hread
      rw [if_neg (by simp [hge])] at hread
      have hnumber := ConstOp.readers_number hread
      omega

/-! ## Modules -/

/-- The parts of a module that no feature changes, with the codecs derived for them: the type
section, the functions, the side tables of the code, imports, exports and memories, the types of
tables and globals, the tags, the debug sections, heap types, and the instructions in front of
`Op::Simd`. -/
structure Plain where
  Types : Type
  Functions : Type
  CodeTables : Type
  Interface : Type
  TableType : Type
  GlobalType : Type
  Tags : Type
  Debug : Type
  Scalar : Type
  Vector : Type
  types : Codec Types
  functions : Codec Functions
  codeTables : Codec CodeTables
  interface : Codec Interface
  tableType : Codec TableType
  globalType : Codec GlobalType
  tags : Codec Tags
  debug : Codec Debug
  heap : Codec IrHeap
  /-- The instructions in front of `Op::Simd`, and how many they are. -/
  scalar : Variants Scalar
  scalars : ℕ
  scalar_lt : ∀ op, scalar.valid op → scalar.index op < scalars
  /-- `SimdOp`. -/
  vector : Codec Vector

variable (D : Plain)

/-- `Op`. -/
inductive Op where
  | scalar (op : D.Scalar)
  | simd (op : D.Vector)

abbrev ConstExpr : Type := List ConstOp

/-- `DataMode`: passive, or active with its memory and offset. -/
abbrev DataMode : Type := Unit ⊕ ℕ × ConstExpr

/-- `ElemMode`: passive, declared, or active with its table and offset. -/
abbrev ElemMode : Type := Unit ⊕ Unit ⊕ ℕ × ConstExpr

/-- `ElemItems`: functions or expressions. -/
abbrev ElemItems : Type := List ℕ ⊕ List ConstExpr

/-- The serialized fields of a module, in order. -/
structure ModuleInner where
  types : D.Types
  functions : D.Functions
  ops : List (Op D)
  codeTables : D.CodeTables
  interface : D.Interface
  tables : List (D.TableType × Option ConstExpr)
  globals : List (D.GlobalType × ConstExpr)
  tags : D.Tags
  datas : List (DataMode × List ℕ)
  elems : List (ElemMode × ElemItems)
  start : Option ℕ
  debug : D.Debug

/-- A byte, as it is. -/
def byte : Codec ℕ where
  valid b := b < 256
  encode b := [UInt8.ofNat b]
  decode
    | [] => none
    | b :: bytes => some (b.toNat, bytes)
  roundtrip b rest hb := by
    show some ((UInt8.ofNat b).toNat, rest) = _
    rw [UInt8.toNat_ofNat', Nat.mod_eq_of_lt hb]

/-- The instructions of a build: without `simd` the last variant is missing. -/
def Op.variants (simd : Bool) : Variants (Op D) where
  valid
    | .scalar op => D.scalar.valid op
    | .simd op => simd = true ∧ D.vector.valid op
  index
    | .scalar op => D.scalar.index op
    | .simd _ => D.scalars
  payload
    | .scalar op => D.scalar.payload op
    | .simd op => D.vector.encode op
  read k bytes :=
    if k < D.scalars then (D.scalar.read k bytes).map (fun p => (.scalar p.1, p.2))
    else if simd ∧ k = D.scalars then (D.vector.decode bytes).map (fun p => (.simd p.1, p.2))
    else none
  reads op rest hop := by
    cases op with
    | scalar op => rw [if_pos (D.scalar_lt op hop), D.scalar.reads op rest hop, Option.map_some]
    | simd op =>
      rw [if_neg (Nat.lt_irrefl _), if_pos ⟨hop.1, rfl⟩, D.vector.roundtrip op rest hop.2,
        Option.map_some]

variable {D}

/-- An instruction every build has. -/
def Op.Common : Op D → Prop
  | .scalar _ => True
  | .simd _ => False

variable (D)

/-- A build without vectors reads the instructions it has, and no vector at all. -/
theorem Op.bridge {simd simd' : Bool} (hne : simd ≠ simd') :
    Bridge (Op.variants D simd).codec (Op.variants D simd').codec Op.Common (fun _ _ => True) := by
  apply VariantBridge.codec
  constructor
  · intro op rest hop hcommon
    cases op with
    | scalar op => exact (Op.variants D simd').reads (.scalar op) rest hop
    | simd op => exact absurd hcommon id
  · intro op op' rest rest' hop hread _
    cases op with
    | scalar op => exact trivial
    | simd op =>
      obtain rfl : simd = true := hop.1
      obtain rfl : simd' = false := by simpa using hne.symm
      change (if D.scalars < D.scalars then _ else if false = true ∧ D.scalars = D.scalars then _
        else none) = some _ at hread
      rw [if_neg (Nat.lt_irrefl _), if_neg (by simp)] at hread
      cases hread

def constExpr (simd : Bool) : Codec ConstExpr := (ConstOp.variants D.heap simd).codec.list

def dataMode (simd : Bool) : Codec DataMode :=
  (Variants.cons unit (.one (u32.pair (constExpr D simd)))).codec

def elemMode (simd : Bool) : Codec ElemMode :=
  (Variants.cons unit (.cons unit (.one (u32.pair (constExpr D simd))))).codec

def elemItems (simd : Bool) : Codec ElemItems :=
  (Variants.cons u32.list (.one (constExpr D simd).list)).codec

/-- The fields as nested pairs, the form in which they are written. -/
abbrev Fields : Type :=
  D.Types × D.Functions × List (Op D) × D.CodeTables × D.Interface ×
    List (D.TableType × Option ConstExpr) × List (D.GlobalType × ConstExpr) × D.Tags ×
    List (DataMode × List ℕ) × List (ElemMode × ElemItems) × Option ℕ × D.Debug

def fields (simd : Bool) : Codec (Fields D) :=
  D.types.pair <| D.functions.pair <| (Op.variants D simd).codec.list.pair <|
    D.codeTables.pair <| D.interface.pair <|
    (D.tableType.pair (constExpr D simd).option).list.pair <|
    (D.globalType.pair (constExpr D simd)).list.pair <| D.tags.pair <|
    ((dataMode D simd).pair byte.list).list.pair <|
    ((elemMode D simd).pair (elemItems D simd)).list.pair <| u32.option.pair D.debug

variable {D}

def ModuleInner.toFields (m : ModuleInner D) : Fields D :=
  ⟨m.types, m.functions, m.ops, m.codeTables, m.interface, m.tables, m.globals, m.tags, m.datas,
    m.elems, m.start, m.debug⟩

def ModuleInner.ofFields (f : Fields D) : ModuleInner D :=
  let ⟨types, functions, ops, codeTables, interface, tables, globals, tags, datas, elems, start,
    debug⟩ := f
  ⟨types, functions, ops, codeTables, interface, tables, globals, tags, datas, elems, start, debug⟩

theorem ModuleInner.ofFields_toFields (m : ModuleInner D) : ofFields m.toFields = m := rfl

theorem ModuleInner.toFields_ofFields (f : Fields D) : (ofFields f).toFields = f := rfl

variable (D)

def moduleCodec (simd : Bool) : Codec (ModuleInner D) :=
  (fields D simd).iso ModuleInner.ofFields ModuleInner.toFields ModuleInner.ofFields_toFields

/-! ## Artifacts -/

/-- `MAGIC`: `submwc01`. -/
def magic : List UInt8 := [0x73, 0x75, 0x62, 0x6d, 0x77, 0x63, 0x30, 0x31]

/-- `ARTIFACT_VERSION`, in little-endian bytes. -/
def version : List UInt8 := [12, 0, 0, 0]

variable {D}

/-- `encode`. -/
def encode (simd : Bool) (m : ModuleInner D) : List UInt8 :=
  magic ++ version ++ (moduleCodec D simd).encode m

/-- `decode`; what follows the module is not looked at. -/
def decode (simd : Bool) (bytes : List UInt8) : Except String (ModuleInner D) :=
  if bytes.take 8 ≠ magic then .error "not a submilli serialized module"
  else if bytes.length < 12 then .error "truncated serialized module header"
  else if (bytes.drop 8).take 4 ≠ version then
    .error "incompatible serialized module (version mismatch)"
  else
    match (moduleCodec D simd).decode (bytes.drop 12) with
    | none => .error "failed to deserialize module"
    | some (m, _) => .ok m

/-! ## What another build reads -/

/-- A constant expression of operators that have not moved. -/
def ExprUnmoved (e : ConstExpr) : Prop := ∀ c ∈ e, ConstOp.Unmoved c

/-- The constant expressions of a segment's mode and items. -/
def dataExprs : DataMode → List ConstExpr := Sum.elim (fun _ => []) (fun p => [p.2])

def elemModeExprs : ElemMode → List ConstExpr :=
  Sum.elim (fun _ => []) (Sum.elim (fun _ => []) (fun p => [p.2]))

def elemItemsExprs : ElemItems → List ConstExpr := Sum.elim (fun _ => []) id

/-- Every build has the module's instructions, and the operators of its constant expressions by the
same indices. -/
structure ModuleInner.Unmoved (m : ModuleInner D) : Prop where
  ops : ∀ op ∈ m.ops, Op.Common op
  tables : ∀ t ∈ m.tables, ∀ e ∈ t.2, ExprUnmoved e
  globals : ∀ g ∈ m.globals, ExprUnmoved g.2
  datas : ∀ d ∈ m.datas, ∀ e ∈ dataExprs d.1, ExprUnmoved e
  elems : ∀ s ∈ m.elems, (∀ e ∈ elemModeExprs s.1, ExprUnmoved e) ∧
    ∀ e ∈ elemItemsExprs s.2, ExprUnmoved e

/-- The same instructions and constant expressions. -/
structure SameCode (m m' : ModuleInner D) : Prop where
  ops : m.ops = m'.ops
  tables : m.tables.map Prod.snd = m'.tables.map Prod.snd
  globals : m.globals.map Prod.snd = m'.globals.map Prod.snd
  datas : m.datas.map (fun d => dataExprs d.1) = m'.datas.map (fun d => dataExprs d.1)
  elems : m.elems.map (fun s => (elemModeExprs s.1, elemItemsExprs s.2)) =
    m'.elems.map (fun s => (elemModeExprs s.1, elemItemsExprs s.2))

theorem SameCode.refl (m : ModuleInner D) : SameCode m m := ⟨rfl, rfl, rfl, rfl, rfl⟩

/-- Lists with the same images are related by them. -/
theorem forall₂_of_map_eq {α γ : Type} {f : α → γ} {l l' : List α} (h : l.map f = l'.map f) :
    List.Forall₂ (fun a a' => f a = f a') l l' := by
  induction l generalizing l' with
  | nil =>
    obtain rfl := List.map_eq_nil_iff.mp h.symm
    exact .nil
  | cons a l ih =>
    obtain ⟨a', l'', rfl, ha, hl⟩ := List.map_eq_cons_iff.mp h.symm
    exact .cons ha.symm (ih hl.symm)

section Bridges

variable {simd simd' : Bool}

theorem constExpr_bridge (hne : simd ≠ simd') :
    Bridge (constExpr D simd) (constExpr D simd') ExprUnmoved Eq := by
  refine (ConstOp.bridge D.heap hne).list.mono (fun _ => Iff.rfl) ?_
  rintro e _ rfl
  rw [List.forall₂_eq_eq_eq]

theorem dataMode_bridge (hne : simd ≠ simd') :
    Bridge (dataMode D simd) (dataMode D simd') (fun d => ∀ e ∈ dataExprs d, ExprUnmoved e)
      (fun d d' => dataExprs d = dataExprs d') := by
  refine (VariantBridge.cons (.same unit)
    (.one ((Bridge.same u32).pair (constExpr_bridge hne)))).codec.mono ?_ ?_
  · rintro (u | p)
    · simp [dataExprs]
    · simp [dataExprs]
  · rintro (u | p) (u' | p') h
    · exact trivial
    · exact trivial
    · exact trivial
    · exact ⟨trivial, by simpa [dataExprs] using h⟩

theorem elemMode_bridge (hne : simd ≠ simd') :
    Bridge (elemMode D simd) (elemMode D simd') (fun d => ∀ e ∈ elemModeExprs d, ExprUnmoved e)
      (fun d d' => elemModeExprs d = elemModeExprs d') := by
  refine (VariantBridge.cons (.same unit) (VariantBridge.cons (.same unit)
    (.one ((Bridge.same u32).pair (constExpr_bridge hne))))).codec.mono ?_ ?_
  · rintro (u | u | p)
    · simp [elemModeExprs]
    · simp [elemModeExprs]
    · simp [elemModeExprs]
  · rintro (u | u | p) (u' | u' | p') h
    · exact trivial
    · exact trivial
    · exact trivial
    · exact trivial
    · exact trivial
    · exact trivial
    · exact trivial
    · exact trivial
    · exact ⟨trivial, by simpa [elemModeExprs] using h⟩

theorem elemItems_bridge (hne : simd ≠ simd') :
    Bridge (elemItems D simd) (elemItems D simd') (fun d => ∀ e ∈ elemItemsExprs d, ExprUnmoved e)
      (fun d d' => elemItemsExprs d = elemItemsExprs d') := by
  refine (VariantBridge.cons (.same u32.list) (.one (constExpr_bridge hne).list)).codec.mono ?_ ?_
  · rintro (fs | es)
    · simp [elemItemsExprs]
    · exact Iff.rfl
  · rintro (fs | es) (fs' | es') h
    · exact trivial
    · exact trivial
    · exact trivial
    · obtain rfl : es = es' := h
      show List.Forall₂ Eq es es
      rw [List.forall₂_eq_eq_eq]

/-- **A build reads the modules of another whose code has not moved, and reads the code of no other
module right.** -/
theorem module_bridge (hne : simd ≠ simd') :
    Bridge (moduleCodec D simd) (moduleCodec D simd') ModuleInner.Unmoved SameCode := by
  have hops := (Op.bridge D hne).list
  have htables := ((Bridge.same D.tableType).pair (constExpr_bridge (D := D) hne).option).list
  have hglobals := ((Bridge.same D.globalType).pair (constExpr_bridge (D := D) hne)).list
  have hdatas := ((dataMode_bridge (D := D) hne).pair (Bridge.same byte.list)).list
  have helems := ((elemMode_bridge (D := D) hne).pair (elemItems_bridge (D := D) hne)).list
  have hfields := (Bridge.same D.types).pair <| (Bridge.same D.functions).pair <| hops.pair <|
    (Bridge.same D.codeTables).pair <| (Bridge.same D.interface).pair <| htables.pair <|
    hglobals.pair <| (Bridge.same D.tags).pair <| hdatas.pair <| helems.pair <|
    (Bridge.same u32.option).pair (Bridge.same D.debug)
  refine (hfields.iso ModuleInner.ofFields_toFields ModuleInner.toFields_ofFields).mono ?_ ?_
  · intro m
    constructor
    · intro h
      exact ⟨trivial, trivial, h.ops, trivial, trivial, fun t ht => ⟨trivial, h.tables t ht⟩,
        fun g hg => ⟨trivial, h.globals g hg⟩, trivial, fun d hd => ⟨h.datas d hd, trivial⟩,
        h.elems, trivial, trivial⟩
    · rintro ⟨-, -, hops, -, -, htables, hglobals, -, hdatas, helems, -, -⟩
      exact ⟨hops, fun t ht => (htables t ht).2, fun g hg => (hglobals g hg).2,
        fun d hd => (hdatas d hd).1, helems⟩
  · intro m m' h
    refine ⟨trivial, trivial, ?_, trivial, trivial, ?_, ?_, trivial, ?_, ?_, trivial, trivial⟩
    · show List.Forall₂ _ m.ops m'.ops
      rw [h.ops]
      exact List.forall₂_same.mpr (fun _ _ => trivial)
    · refine (forall₂_of_map_eq h.tables).imp ?_
      intro t t' hsame
      refine ⟨trivial, ?_⟩
      rw [← hsame]
      exact fun e he => ⟨e, he, rfl⟩
    · exact (forall₂_of_map_eq h.globals).imp (fun _ _ hsame => ⟨trivial, hsame⟩)
    · exact (forall₂_of_map_eq h.datas).imp (fun _ _ hsame => ⟨hsame, trivial⟩)
    · exact (forall₂_of_map_eq h.elems).imp (fun _ _ hsame => Prod.mk.inj hsame)

end Bridges

/-- Behind the header the module is read. -/
theorem decode_encode (simd simd' : Bool) (m : ModuleInner D) :
    decode simd' (encode simd m) =
      match (moduleCodec D simd').decode ((moduleCodec D simd).encode m) with
      | none => .error "failed to deserialize module"
      | some (m', _) => .ok m' := by
  have htake : (encode simd m).take 8 = magic := rfl
  have hversion : ((encode simd m).drop 8).take 4 = version := rfl
  have hlength : ¬ (encode simd m).length < 12 := by
    show ¬ (magic ++ version ++ (moduleCodec D simd).encode m).length < 12
    rw [List.length_append]
    have hheader : (magic ++ version).length = 12 := rfl
    omega
  unfold decode
  rw [if_neg (not_not_intro htake), if_neg hlength, if_neg (not_not_intro hversion)]
  rfl

/-- A build reads its own modules. -/
theorem decode_own (simd : Bool) {m : ModuleInner D} (hm : (moduleCodec D simd).valid m) :
    decode simd (encode simd m) = .ok m := by
  have hread := (moduleCodec D simd).roundtrip m [] hm
  rw [List.append_nil] at hread
  rw [decode_encode, hread]

section Builds

variable {simd simd' : Bool} {m m' : ModuleInner D}

/-- A module whose code has not moved is read as it was written. -/
theorem decode_unmoved (hne : simd ≠ simd') (hm : (moduleCodec D simd).valid m) (h : m.Unmoved) :
    decode simd' (encode simd m) = .ok m := by
  have hread := (module_bridge hne).agrees m [] hm h
  rw [List.append_nil] at hread
  rw [decode_encode, hread]

/-- What was read behind a header. -/
theorem decode_ok (h : decode simd' (encode simd m) = .ok m') :
    ∃ rest, (moduleCodec D simd').decode ((moduleCodec D simd).encode m ++ [])
      = some (m', rest) := by
  rw [decode_encode] at h
  rw [List.append_nil]
  cases hread : (moduleCodec D simd').decode ((moduleCodec D simd).encode m) with
  | none =>
    rw [hread] at h
    cases h
  | some p =>
    rw [hread] at h
    cases h
    exact ⟨p.2, rfl⟩

/-- A module read right had not moved. -/
theorem unmoved_of_decode (hne : simd ≠ simd') (hm : (moduleCodec D simd).valid m)
    (h : decode simd' (encode simd m) = .ok m') (hsame : SameCode m m') : m.Unmoved := by
  obtain ⟨rest, hread⟩ := decode_ok h
  exact (module_bridge hne).detects m m' [] rest hm hread hsame

/-- A module that is read has no vector instruction. -/
theorem common_of_decode (hne : simd ≠ simd') (hm : (moduleCodec D simd).valid m)
    (h : decode simd' (encode simd m) = .ok m') : ∀ op ∈ m.ops, Op.Common op := by
  obtain ⟨rest, hread⟩ := decode_ok h
  obtain ⟨⟨f, r⟩, hfields, -⟩ := Option.map_eq_some_iff.mp hread
  -- the type section and the functions are read as written, and the instructions behind them
  obtain ⟨r₁, htypes, hfields⟩ := Codec.pair_first hfields
  obtain ⟨-, rfl⟩ := Prod.mk.inj (Option.some.inj (htypes.symm.trans (D.types.roundtrip _ _ hm.1)))
  obtain ⟨r₂, hfunctions, hfields⟩ := Codec.pair_first hfields
  obtain ⟨-, rfl⟩ := Prod.mk.inj
    (Option.some.inj (hfunctions.symm.trans (D.functions.roundtrip _ _ hm.2.1)))
  obtain ⟨r₃, hops, -⟩ := Codec.pair_first hfields
  exact (Op.bridge D hne).list_all hm.2.2.1 hops

end Builds

/-- The artifact is an error to another build. -/
def Refused (simd simd' : Bool) (m : ModuleInner D) : Prop :=
  ∃ e, (decode simd' (encode simd m) : Except String (ModuleInner D)) = .error e

/-- What another build reads, if it reads the artifact at all, is the same code. -/
def Compatible (simd simd' : Bool) (m : ModuleInner D) : Prop :=
  ∀ m', decode simd' (encode simd m) = .ok m' → SameCode m m'

/-- The code has a vector instruction, and the reader has none. -/
def VectorUnknown (simd' : Bool) (m : ModuleInner D) : Prop :=
  simd' = false ∧ ∃ op ∈ m.ops, ¬ Op.Common op

section Builds

variable {simd simd' : Bool} {m m' : ModuleInner D}

/-- A build reads what it wrote itself, and a module whose code has not moved. -/
theorem decode_sound (hm : (moduleCodec D simd).valid m) (h : simd = simd' ∨ m.Unmoved) :
    decode simd' (encode simd m) = .ok m := by
  by_cases heq : simd = simd'
  · subst heq
    exact decode_own simd hm
  · exact decode_unmoved heq hm (h.resolve_left heq)

/-- A module with a vector instruction was written by a build with `simd`. -/
theorem vector_simd (hm : (moduleCodec D simd).valid m) (h : ∃ op ∈ m.ops, ¬ Op.Common op) :
    simd = true := by
  obtain ⟨op, hop, hvector⟩ := h
  cases op with
  | scalar op => exact absurd trivial hvector
  | simd op =>
    have hvalid := hm.2.2.1.2 _ hop
    exact hvalid.2.1

/-- A vector instruction is refused by a build without `simd`. -/
theorem refused_of_vector (hm : (moduleCodec D simd).valid m) (h : VectorUnknown simd' m) :
    Refused simd simd' m := by
  obtain ⟨rfl, hvector⟩ := h
  have hne : simd ≠ false := by
    rw [vector_simd hm hvector]
    decide
  cases hread : decode false (encode simd m) with
  | error e => exact ⟨e, hread⟩
  | ok m' =>
    obtain ⟨op, hop, hop'⟩ := hvector
    exact absurd (common_of_decode hne hm hread op hop) hop'

end Builds

/-- **A module is read as other code only by a build with another `simd`, and only if its code has
moved.**  Equal builds, a module whose code has not moved, and a vector instruction for a reader
without `simd` are compatible; and wherever the artifact is read, the code is the same exactly in
the first two cases. -/
theorem decode_compatible (simd simd' : Bool) (m : ModuleInner D)
    (hm : (moduleCodec D simd).valid m) :
    (simd = simd' ∨ m.Unmoved → decode simd' (encode simd m) = .ok m) ∧
    (VectorUnknown simd' m → Refused simd simd' m) ∧
    (simd = simd' ∨ m.Unmoved ∨ VectorUnknown simd' m → Compatible simd simd' m) ∧
    ∀ m', decode simd' (encode simd m) = .ok m' →
      (SameCode m m' ↔ simd = simd' ∨ m.Unmoved) := by
  refine ⟨decode_sound hm, refused_of_vector hm, ?_, ?_⟩
  · rintro h m' hread
    rw [← or_assoc] at h
    obtain h | h := h
    · rw [decode_sound hm h] at hread
      cases hread
      exact SameCode.refl m
    · obtain ⟨e, he⟩ := refused_of_vector hm h
      rw [he] at hread
      cases hread
  · intro m' hread
    constructor
    · intro hsame
      by_cases heq : simd = simd'
      · exact Or.inl heq
      · exact Or.inr (unmoved_of_decode heq hm hread hsame)
    · intro h
      rw [decode_sound hm h] at hread
      cases hread
      exact SameCode.refl m

/-- Parts kept as the bytes of their codecs, in a module without heap types. -/
def bytesOnly : Plain where
  Types := List ℕ
  Functions := List ℕ
  CodeTables := List ℕ
  Interface := List ℕ
  TableType := ℕ
  GlobalType := ℕ
  Tags := List ℕ
  Debug := List ℕ
  Scalar := ℕ
  Vector := ℕ
  types := byte.list
  functions := byte.list
  codeTables := byte.list
  interface := byte.list
  tableType := byte
  globalType := byte
  tags := byte.list
  debug := byte.list
  heap := ⟨fun _ => False, fun _ => [], fun _ => none, fun _ _ h => h.elim⟩
  scalar :=
    ⟨fun op => op < 235, id, fun _ => [], fun k bytes => some (k, bytes), fun _ _ _ => rfl⟩
  scalars := 235
  scalar_lt _ h := h
  vector := byte

/-- The import of an `i32` as `m.g`, no exports and no memories. -/
def importGlobal : List ℕ := [1, 1, 0x6d, 1, 0x67, 3, 0, 0, 0, 0]

/-- A module with an imported global and one with an initialiser. -/
def ofGlobal (init : ConstOp) : ModuleInner bytesOnly :=
  ⟨[], [], [], [], importGlobal, [], [((0 : ℕ), [init])], [], [], [], none, []⟩

theorem ofGlobal_valid (simd : Bool) {init : ConstOp}
    (h : (ConstOp.variants bytesOnly.heap simd).codec.valid init) :
    (moduleCodec bytesOnly simd).valid (ofGlobal init) := by
  have hbytes := Codec.list_nil byte
  have hglobal : ((bytesOnly.globalType.pair (constExpr bytesOnly simd))).valid
    ((0 : ℕ), [init]) := by
    refine ⟨?_, Codec.list_singleton h⟩
    show 0 < 256
    decide
  have himport : byte.list.valid importGlobal := by
    refine ⟨?_, fun b hb => ?_⟩
    · show 10 < 128 ^ 9 * (1 + 1)
      decide
    · have hsmall : ∀ b ∈ importGlobal, b < 256 := by decide
      exact hsmall b hb
  exact ⟨hbytes, hbytes, Codec.list_nil _, hbytes, himport, Codec.list_nil _,
    Codec.list_singleton hglobal, hbytes, Codec.list_nil _, Codec.list_nil _,
    ⟨fun _ hstart => absurd hstart (Option.not_mem_none _), hbytes⟩⟩

/-- A constant is read by both builds. -/
theorem decode_compatible_const :
    decode true (encode false (ofGlobal (.i32 7))) = .ok (ofGlobal (.i32 7)) := by
  have hsmall : ∀ n, n < 16 → u32.valid n := by
    intro n hn
    show n < 128 ^ 4 * (15 + 1)
    omega
  have hvalid : (ConstOp.variants bytesOnly.heap false).codec.valid (.i32 7) :=
    ⟨hsmall 0 (by decide), hsmall 14 (by decide), fun _ => by decide⟩
  refine (decode_compatible false true _ (ofGlobal_valid false hvalid)).1 (Or.inr ?_)
  have hexpr : ExprUnmoved [.i32 7] := by
    intro c hc
    obtain rfl := List.mem_singleton.mp hc
    show 0 < 4
    decide
  constructor
  · intro op hop
    cases hop
  · intro t ht
    cases ht
  · intro g hg
    obtain rfl := List.mem_singleton.mp hg
    exact hexpr
  · intro d hd
    cases hd
  · intro e he
    cases he

theorem globalGet_valid (simd : Bool) :
    (ConstOp.variants bytesOnly.heap simd).codec.valid (.globalGet 0) := by
  have hzero : u32.valid 0 := by
    show 0 < 128 ^ 4 * (15 + 1)
    decide
  refine ⟨?_, hzero, fun _ => by decide⟩
  cases simd
  · show 6 < 128 ^ 4 * (15 + 1)
    decide
  · show 7 < 128 ^ 4 * (15 + 1)
    decide

/-- A global that copies another is read as a reference to a function. -/
theorem decode_globalGet :
    decode true (encode false (ofGlobal (.globalGet 0))) = .ok (ofGlobal (.refFunc 0)) := by
  rfl

theorem not_compatible : ¬ ∀ (D : Plain) (simd simd' : Bool) (m : ModuleInner D),
    (moduleCodec D simd).valid m → Compatible simd simd' m := by
  intro h
  have hsame := h bytesOnly false true _ (ofGlobal_valid false (globalGet_valid false)) _
    decode_globalGet
  have hglobals := hsame.globals
  cases hglobals

end Artifact

end SubmilliWasm
