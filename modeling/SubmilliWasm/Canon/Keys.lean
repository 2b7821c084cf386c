/-
# The canonical form of a recursion group

Two representations of a composite type meet here (`src/canon/mod.rs`,
`src/canon/keys.rs`):

* the module IR, where a concrete reference is a module-relative type index, and the
  public types an embedder builds, where it is a handle carrying a canonical id;
* the position-independent key of a whole recursion group, where a reference to a
  sibling is a position in the group and a reference out of the group is the
  canonical id of a type that is already registered.

The key types take the kind of reference they hold as a parameter, so that one
definition serves the key itself (`CanonRef`) and the structural trees of
`Canon.Identity`, and `map`/`refs` say once how references sit in a type.
-/
import Mathlib.Tactic

namespace SubmilliWasm

/-! ## Identifiers and the module IR -/

/-- An engine-canonical type id: an index into the registry's per-type arena. -/
abbrev CanonicalTypeId := ℕ

/-- An interned recursion-group id: an index into the registry's per-group arena. -/
abbrev GroupId := ℕ

/-- Which of the three hierarchies a defined type belongs to. -/
inductive AggKind where
  | func
  | struct
  | array
  deriving DecidableEq, Repr

inductive Finality where
  | final
  | nonFinal
  deriving DecidableEq, Repr

/-- A heap type in the module IR; `concrete` holds a module-relative type index. -/
inductive IrHeap where
  | func
  | noFunc
  | extern_
  | noExtern
  | any
  | eq
  | i31
  | struct
  | array
  | exn
  | noExn
  | none
  | concrete (idx : ℕ) (kind : AggKind)
  deriving DecidableEq, Repr

inductive IrVal where
  | i32
  | i64
  | f32
  | f64
  | v128
  | ref (nullable : Bool) (heap : IrHeap)
  deriving DecidableEq, Repr

inductive IrStorage where
  | i8
  | i16
  | val (v : IrVal)
  deriving DecidableEq, Repr

structure IrField where
  mutable : Bool
  storage : IrStorage
  deriving DecidableEq, Repr

inductive CompositeBody where
  | func (params results : List IrVal)
  | struct (fields : List IrField)
  | array (field : IrField)
  deriving DecidableEq, Repr

/-- One module-relative type definition; members of a recursion group share `group` and are
contiguous in the type section. -/
structure ModuleType where
  group : ℕ
  finality : Finality
  supertype : Option ℕ
  body : CompositeBody
  deriving DecidableEq, Repr

/-! ## The public types of the embedder -/

/-- A heap type as the embedder writes it: a concrete type is a handle, of which only the
canonical id matters here. -/
inductive HeapType where
  | func
  | noFunc
  | extern_
  | noExtern
  | any
  | eq
  | i31
  | struct
  | array
  | exn
  | noExn
  | none
  | concreteFunc (id : CanonicalTypeId)
  | concreteStruct (id : CanonicalTypeId)
  | concreteArray (id : CanonicalTypeId)
  deriving DecidableEq, Repr

inductive ValType where
  | i32
  | i64
  | f32
  | f64
  | v128
  | ref (nullable : Bool) (heap : HeapType)
  deriving DecidableEq, Repr

inductive StorageType where
  | i8
  | i16
  | valType (v : ValType)
  deriving DecidableEq, Repr

inductive Mutability where
  | const
  | var
  deriving DecidableEq, Repr

structure FieldType where
  mutability : Mutability
  elementType : StorageType
  deriving DecidableEq, Repr

/-! ## The key -/

/-- A reference inside a canonical group: a position in the same group, or an absolute id. -/
inductive CanonRef where
  | rel (pos : ℕ)
  | canon (id : CanonicalTypeId)
  deriving DecidableEq, Repr

inductive CHeap (ρ : Type) where
  | abs (code : ℕ)
  | concrete (kind : AggKind) (r : ρ)
  deriving DecidableEq, Repr

inductive CVal (ρ : Type) where
  | num (code : ℕ)
  | ref (nullable : Bool) (heap : CHeap ρ)
  deriving DecidableEq, Repr

inductive CStore (ρ : Type) where
  | packed (code : ℕ)
  | val (v : CVal ρ)
  deriving DecidableEq, Repr

structure CField (ρ : Type) where
  mutable : Bool
  storage : CStore ρ
  deriving DecidableEq, Repr

inductive CBody (ρ : Type) where
  | func (params results : List (CVal ρ))
  | struct (fields : List (CField ρ))
  | array (field : CField ρ)
  deriving DecidableEq, Repr

structure CType (ρ : Type) where
  finality : Finality
  supertype : Option ρ
  body : CBody ρ
  deriving DecidableEq, Repr

/-- A canonicalised recursion group: the hash-cons key. -/
abbrev CGroup := List (CType CanonRef)

/-! ## Module IR to key -/

/-- The code of an abstract heap type of the IR.  The source's concrete arm is
`unreachable!`; it is never asked for one. -/
def irAbsCode : IrHeap → ℕ
  | .func => 0
  | .noFunc => 1
  | .extern_ => 2
  | .noExtern => 3
  | .any => 4
  | .eq => 5
  | .i31 => 6
  | .struct => 7
  | .array => 8
  | .exn => 9
  | .noExn => 10
  | .none => 11
  | .concrete _ _ => 12

def heapKey (cref : ℕ → CanonRef) : IrHeap → CHeap CanonRef
  | .concrete id kind => .concrete kind (cref id)
  | other => .abs (irAbsCode other)

def valKey (cref : ℕ → CanonRef) : IrVal → CVal CanonRef
  | .i32 => .num 0
  | .i64 => .num 1
  | .f32 => .num 2
  | .f64 => .num 3
  | .v128 => .num 4
  | .ref nullable heap => .ref nullable (heapKey cref heap)

def fieldKey (cref : ℕ → CanonRef) (f : IrField) : CField CanonRef where
  mutable := f.mutable
  storage :=
    match f.storage with
    | .i8 => .packed 0
    | .i16 => .packed 1
    | .val v => .val (valKey cref v)

def bodyKey (cref : ℕ → CanonRef) : CompositeBody → CBody CanonRef
  | .func params results => .func (params.map (valKey cref)) (results.map (valKey cref))
  | .struct fields => .struct (fields.map (fieldKey cref))
  | .array f => .array (fieldKey cref f)

/-- The key of one group member, given how its type indices resolve. -/
def typeKey (cref : ℕ → CanonRef) (t : ModuleType) : CType CanonRef where
  finality := t.finality
  supertype := t.supertype.map cref
  body := bodyKey cref t.body

/-! ## Public types to bodies -/

def absCode : HeapType → ℕ
  | .func => 0
  | .noFunc => 1
  | .extern_ => 2
  | .noExtern => 3
  | .any => 4
  | .eq => 5
  | .i31 => 6
  | .struct => 7
  | .array => 8
  | .exn => 9
  | .noExn => 10
  | _ => 11

def pubHeap : HeapType → CHeap CanonRef
  | .concreteFunc id => .concrete .func (.canon id)
  | .concreteStruct id => .concrete .struct (.canon id)
  | .concreteArray id => .concrete .array (.canon id)
  | other => .abs (absCode other)

def pubVal : ValType → CVal CanonRef
  | .i32 => .num 0
  | .i64 => .num 1
  | .f32 => .num 2
  | .f64 => .num 3
  | .v128 => .num 4
  | .ref nullable heap => .ref nullable (pubHeap heap)

def pubField (f : FieldType) : CField CanonRef where
  mutable := f.mutability == .var
  storage :=
    match f.elementType with
    | .i8 => .packed 0
    | .i16 => .packed 1
    | .valType v => .val (pubVal v)

def funcBody (params results : List ValType) : CBody CanonRef :=
  .func (params.map pubVal) (results.map pubVal)

def structBody (fields : List FieldType) : CBody CanonRef := .struct (fields.map pubField)

def arrayBody (field : FieldType) : CBody CanonRef := .array (pubField field)

/-! ## Resolution and kind -/

/-- Resolves a key reference to an absolute id.  A position past the group's end is an index
panic in the source; `internGroup` checks `WellScoped` before it resolves anything, so the
default is never read. -/
def resolve (members : List CanonicalTypeId) : CanonRef → CanonicalTypeId
  | .rel p => members.getD p 0
  | .canon c => c

def CHeap.map {ρ σ : Type} (f : ρ → σ) : CHeap ρ → CHeap σ
  | .abs c => .abs c
  | .concrete k r => .concrete k (f r)

def CVal.map {ρ σ : Type} (f : ρ → σ) : CVal ρ → CVal σ
  | .num c => .num c
  | .ref n h => .ref n (h.map f)

def CStore.map {ρ σ : Type} (f : ρ → σ) : CStore ρ → CStore σ
  | .packed c => .packed c
  | .val v => .val (v.map f)

def CField.map {ρ σ : Type} (f : ρ → σ) (c : CField ρ) : CField σ :=
  ⟨c.mutable, c.storage.map f⟩

def CBody.map {ρ σ : Type} (f : ρ → σ) : CBody ρ → CBody σ
  | .func p r => .func (p.map (CVal.map f)) (r.map (CVal.map f))
  | .struct fs => .struct (fs.map (CField.map f))
  | .array c => .array (c.map f)

def CType.map {ρ σ : Type} (f : ρ → σ) (t : CType ρ) : CType σ :=
  ⟨t.finality, t.supertype.map f, t.body.map f⟩

/-- The stored body: every reference made absolute. -/
def resolveBody (members : List CanonicalTypeId) (b : CBody CanonRef) : CBody CanonRef :=
  b.map fun r => .canon (resolve members r)

def bodyKind {ρ : Type} : CBody ρ → AggKind
  | .func _ _ => .func
  | .struct _ => .struct
  | .array _ => .array

/-! ## The references of a type -/

def CHeap.refs {ρ : Type} : CHeap ρ → List ρ
  | .abs _ => []
  | .concrete _ r => [r]

def CVal.refs {ρ : Type} : CVal ρ → List ρ
  | .num _ => []
  | .ref _ h => h.refs

def CStore.refs {ρ : Type} : CStore ρ → List ρ
  | .packed _ => []
  | .val v => v.refs

def CField.refs {ρ : Type} (c : CField ρ) : List ρ := c.storage.refs

def CBody.refs {ρ : Type} : CBody ρ → List ρ
  | .func p r => (p ++ r).flatMap CVal.refs
  | .struct fs => fs.flatMap CField.refs
  | .array c => c.refs

def CType.refs {ρ : Type} (t : CType ρ) : List ρ := t.supertype.toList ++ t.body.refs

/-- Renaming the references of a body renames each of its occurrences. -/
theorem CBody.refs_map {ρ σ : Type} (f : ρ → σ) (b : CBody ρ) : (b.map f).refs = b.refs.map f := by
  have hval (v : CVal ρ) : (v.map f).refs = v.refs.map f := by
    rcases v with c | ⟨n, c | ⟨k, r⟩⟩ <;> rfl
  have hfield (c : CField ρ) : (c.map f).refs = c.refs.map f := by
    rcases c with ⟨m, c | v⟩
    · rfl
    · exact hval v
  cases b with
  | func p r =>
    simp only [CBody.map, CBody.refs, ← List.map_append, List.flatMap_map, List.map_flatMap, hval]
  | struct fs => simp only [CBody.map, CBody.refs, List.flatMap_map, List.map_flatMap, hfield]
  | array c => exact hfield c

/-- The absolute id a reference names, if it leaves the group. -/
def CanonRef.canon? : CanonRef → Option CanonicalTypeId
  | .rel _ => none
  | .canon id => some id

/-- The ids a key mentions outside its own group, one per occurrence: the supertype's, then
the body's in declaration order. -/
def edgeCanonIds (key : CGroup) : List CanonicalTypeId :=
  (key.flatMap CType.refs).filterMap CanonRef.canon?

theorem mem_edgeCanonIds {key : CGroup} {id : CanonicalTypeId} :
    id ∈ edgeCanonIds key ↔ ∃ t ∈ key, CanonRef.canon id ∈ t.refs := by
  unfold edgeCanonIds
  simp only [List.mem_filterMap, List.mem_flatMap]
  constructor
  · rintro ⟨r, ⟨t, ht, hr⟩, hid⟩
    cases r with
    | rel p => cases hid
    | canon c =>
      obtain rfl : c = id := by simpa [CanonRef.canon?] using hid
      exact ⟨t, ht, hr⟩
  · rintro ⟨t, ht, hr⟩
    exact ⟨.canon id, ⟨t, ht, hr⟩, rfl⟩

/-- Whether a reference is safe to resolve in a group of `len` members. -/
def CanonRef.inScope (len : ℕ) : CanonRef → Bool
  | .rel p => p < len
  | .canon _ => true

/-- Every sibling reference of the key is a position of a group of `len` members. -/
def WellScoped (key : CGroup) (len : ℕ) : Prop :=
  ∀ t ∈ key, ∀ r ∈ t.refs, r.inScope len = true

instance (key : CGroup) (len : ℕ) : Decidable (WellScoped key len) :=
  inferInstanceAs (Decidable (∀ t ∈ key, ∀ r ∈ t.refs, r.inScope len = true))

end SubmilliWasm
