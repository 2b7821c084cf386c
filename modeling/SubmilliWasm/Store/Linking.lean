/-
# Import linking

The import check of an instantiation (`link_imports` and the five checks of
`src/instance/init.rs`): each provided item against the import it is provided for.  A module
writes its types with indices into its own type section, which are materialized to canonical
ids first.

What the check should accept is stated beside it, as the matching of external types over the
subtyping of heap types.  The check decides it but for an immutable global whose type is declared
a subtype of the import's: the check of a global uses the abstract lattice, where two concrete
types match only if they are the same.
-/
import SubmilliWasm.Canon.Matches
import SubmilliWasm.Lib.Fallible
import SubmilliWasm.Store.Resources

namespace SubmilliWasm

open Fallible

/-! ## The types of a module and of a store -/

structure RefType where
  nullable : Bool
  heap : HeapType
  deriving DecidableEq, Repr

structure GlobalType where
  content : ValType
  mutability : Mutability
  deriving DecidableEq, Repr

structure IrGlobalType where
  content : IrVal
  mutable : Bool
  deriving DecidableEq, Repr

/-- A table type of a module; the validator bounds the limits of a 32-bit table. -/
structure IrTableType where
  nullable : Bool
  heap : IrHeap
  min : ℕ
  max : Option ℕ
  table64 : Bool
  min_lt : table64 = false → min < 2 ^ 32
  max_lt : table64 = false → ∀ m ∈ max, m < 2 ^ 32

/-- What a module imports; functions and tags name a type of the module. -/
inductive ImportKind where
  | func (type : ℕ)
  | memory (ty : MemoryType)
  | global (ty : IrGlobalType)
  | table (ty : IrTableType)
  | tag (type : ℕ)

/-- The parts of a module that linking reads. -/
structure LinkModule where
  typeIds : List CanonicalTypeId
  funcTypes : List ℕ
  imports : List ImportKind

/-- A function of a store; `HostAsync` is a host function here. -/
inductive FuncEntity where
  | wasm (inst funcIndex : ℕ)
  | host (ty : CanonicalTypeId)

/-- The parts of a store that linking reads. -/
structure LinkStore where
  engine : TypeRegistry
  instances : List LinkModule
  funcs : List FuncEntity
  memories : List MemoryEntity
  globals : List GlobalType
  tables : List (RefType × TableEntity)
  tags : List CanonicalTypeId

/-- An item of the store, by its index. -/
inductive Extern where
  | func (f : ℕ)
  | memory (m : ℕ)
  | global (g : ℕ)
  | table (t : ℕ)
  | tag (t : ℕ)
  deriving DecidableEq, Repr

/-- A link error, or the panic of an index out of bounds. -/
inductive LinkError where
  | msg (text : String)
  | panic
  deriving DecidableEq, Repr

def index {α : Type} (o : Option α) : Except LinkError α :=
  match o with
  | some a => .ok a
  | none => .error .panic

def require (b : Bool) (text : String) : Except LinkError Unit :=
  if b then .ok () else .error (.msg text)

theorem index_ok {α : Type} {o : Option α} {a : α} : index o = .ok a ↔ o = some a := by
  cases o with
  | none => exact ⟨nofun, nofun⟩
  | some b =>
    exact ⟨fun h => congrArg some (Except.ok.inj h), fun h => congrArg _ (Option.some.inj h)⟩

theorem require_ok {b : Bool} {text : String} {u : Unit} :
    require b text = .ok u ↔ b = true := by
  cases b with
  | false => exact ⟨nofun, nofun⟩
  | true => exact ⟨fun _ => rfl, fun _ => rfl⟩

/-! ## Materialization -/

def materializeHeap (typeIds : List CanonicalTypeId) : IrHeap → Except LinkError HeapType
  | .func => .ok .func
  | .noFunc => .ok .noFunc
  | .extern_ => .ok .extern_
  | .noExtern => .ok .noExtern
  | .any => .ok .any
  | .eq => .ok .eq
  | .i31 => .ok .i31
  | .struct => .ok .struct
  | .array => .ok .array
  | .exn => .ok .exn
  | .noExn => .ok .noExn
  | .none => .ok .none
  | .concrete idx kind => do
    let id ← index typeIds[idx]?
    match kind with
    | .func => return .concreteFunc id
    | .struct => return .concreteStruct id
    | .array => return .concreteArray id

def materializeVal (typeIds : List CanonicalTypeId) : IrVal → Except LinkError ValType
  | .i32 => .ok .i32
  | .i64 => .ok .i64
  | .f32 => .ok .f32
  | .f64 => .ok .f64
  | .v128 => .ok .v128
  | .ref nullable heap => do return .ref nullable (← materializeHeap typeIds heap)

def materializeGlobal (typeIds : List CanonicalTypeId) (g : IrGlobalType) :
    Except LinkError GlobalType := do
  let mutability := if g.mutable then Mutability.var else .const
  return ⟨← materializeVal typeIds g.content, mutability⟩

/-- The limits of a 32-bit table pass through `u32`. -/
def materializeTable (typeIds : List CanonicalTypeId) (t : IrTableType) :
    Except LinkError (RefType × TableType) := do
  let element := ⟨t.nullable, ← materializeHeap typeIds t.heap⟩
  if t.table64 then return (element, ⟨t.min, t.max, true⟩)
  else return (element, ⟨t.min % 2 ^ 32, t.max.map (· % 2 ^ 32), false⟩)

/-! ## The check -/

/-- An actual `{amin, amax}` satisfies an import requiring `{imin, imax}`. -/
def limitsOk (amin : ℕ) (amax : Option ℕ) (imin : ℕ) (imax : Option ℕ) : Bool :=
  decide (imin ≤ amin) && imax.all fun im => amax.any fun am => am ≤ im

namespace LinkStore

def checkTag (s : LinkStore) (m : LinkModule) (type tag : ℕ) : Except LinkError Unit := do
  let expectedId ← index m.typeIds[type]?
  let actualId ← index s.tags[tag]?
  require (actualId = expectedId) "imported tag type mismatch"

/-- The canonical type of a function: a wasm function's is its module's, a host function's its
own. -/
def funcType (s : LinkStore) : FuncEntity → Except LinkError CanonicalTypeId
  | .wasm inst funcIndex => do
    let pmod ← index s.instances[inst]?
    let type ← index pmod.funcTypes[funcIndex]?
    index pmod.typeIds[type]?
  | .host ty => .ok ty

def checkFunc (s : LinkStore) (m : LinkModule) (type f : ℕ) : Except LinkError Unit := do
  let expectedId ← index m.typeIds[type]?
  let entity ← index s.funcs[f]?
  let actualId ← s.funcType entity
  require (s.engine.isSubtype actualId expectedId) "imported function signature mismatch"

def checkMemory (s : LinkStore) (declared : MemoryType) (mem : ℕ) : Except LinkError Unit := do
  let entity ← index s.memories[mem]?
  require (entity.ty.memory64 = declared.memory64 &&
    limitsOk entity.sizePages entity.ty.maximum declared.minimum declared.maximum)
    "imported memory limits mismatch"

def checkTable (s : LinkStore) (m : LinkModule) (declared : IrTableType) (t : ℕ) :
    Except LinkError Unit := do
  let (element, entity) ← index s.tables[t]?
  let (declaredElement, declared) ← materializeTable m.typeIds declared
  require (element = declaredElement && (entity.ty.table64 = declared.table64 &&
    limitsOk entity.size entity.ty.maximum declared.minimum declared.maximum))
    "imported table type mismatch"

def checkGlobal (s : LinkStore) (m : LinkModule) (declared : IrGlobalType) (g : ℕ) :
    Except LinkError Unit := do
  let actual ← index s.globals[g]?
  let declared ← materializeGlobal m.typeIds declared
  require (actual.mutability = declared.mutability &&
    match declared.mutability with
    | .const => actual.content.matches declared.content
    | .var => actual.content = declared.content)
    "imported global type mismatch"

/-- One import against the item provided for it. -/
def linkImport (s : LinkStore) (m : LinkModule) : ImportKind → Extern → Except LinkError Unit
  | .func type, .func f => s.checkFunc m type f
  | .memory ty, .memory mem => s.checkMemory ty mem
  | .global ty, .global g => s.checkGlobal m ty g
  | .table ty, .table t => s.checkTable m ty t
  | .tag type, .tag t => s.checkTag m type t
  | _, _ => .error (.msg "import kind mismatch")

/-- The imports in order, up to the first that fails. -/
def linkImports (s : LinkStore) (m : LinkModule) :
    List (ImportKind × Extern) → Except LinkError Unit
  | [] => .ok ()
  | (imp, ext) :: rest => do
    s.linkImport m imp ext
    s.linkImports m rest

/-- The checks an instantiation begins with. -/
def checkImports (s : LinkStore) (m : LinkModule) (imports : List Extern) :
    Except LinkError Unit := do
  require (m.imports.length = imports.length) "wrong number of imports"
  s.linkImports m (m.imports.zip imports)

end LinkStore

/-! ## Subtyping of heap types -/

/-- Subtyping of heap types, rule by rule: each hierarchy with its top and its bottom, the
defined types between them by their kind, and the declared subtypes among these. -/
inductive HeapSub (le : CanonicalTypeId → CanonicalTypeId → Prop) : HeapType → HeapType → Prop where
  | refl (h : HeapType) : HeapSub le h h
  | trans {h h' h'' : HeapType} : HeapSub le h h' → HeapSub le h' h'' → HeapSub le h h''
  | eqAny : HeapSub le .eq .any
  | i31Eq : HeapSub le .i31 .eq
  | structEq : HeapSub le .struct .eq
  | arrayEq : HeapSub le .array .eq
  | definedStruct (a : CanonicalTypeId) : HeapSub le (.concreteStruct a) .struct
  | definedArray (a : CanonicalTypeId) : HeapSub le (.concreteArray a) .array
  | definedFunc (a : CanonicalTypeId) : HeapSub le (.concreteFunc a) .func
  | declaredStruct {a b : CanonicalTypeId} : le a b →
      HeapSub le (.concreteStruct a) (.concreteStruct b)
  | declaredArray {a b : CanonicalTypeId} : le a b →
      HeapSub le (.concreteArray a) (.concreteArray b)
  | declaredFunc {a b : CanonicalTypeId} : le a b →
      HeapSub le (.concreteFunc a) (.concreteFunc b)
  | bottomAny {h : HeapType} : HeapSub le h .any → HeapSub le .none h
  | bottomFunc {h : HeapType} : HeapSub le h .func → HeapSub le .noFunc h
  | bottomExtern {h : HeapType} : HeapSub le h .extern_ → HeapSub le .noExtern h
  | bottomExn {h : HeapType} : HeapSub le h .exn → HeapSub le .noExn h

section

variable {le : CanonicalTypeId → CanonicalTypeId → Prop}

/-- The abstract lattice is made of the rules. -/
theorem HeapSub.of_matches {x y : HeapType} (h : x.matches y = true) : HeapSub le x y := by
  by_cases hxy : x = y
  · subst hxy
    exact .refl x
  have hstruct : HeapSub le .struct .any := .trans .structEq .eqAny
  have harray : HeapSub le .array .any := .trans .arrayEq .eqAny
  have hi31 : HeapSub le .i31 .any := .trans .i31Eq .eqAny
  have hs : ∀ a, HeapSub le (.concreteStruct a) .any := fun a => .trans (.definedStruct a) hstruct
  have ha : ∀ a, HeapSub le (.concreteArray a) .any := fun a => .trans (.definedArray a) harray
  -- The pairs the lattice relates, by what is above.
  cases x <;> cases y <;> try simp [HeapType.matches, hxy] at h
  case noFunc.func => exact .bottomFunc (.refl _)
  case noFunc.concreteFunc a => exact .bottomFunc (.definedFunc a)
  case concreteFunc.func a => exact .definedFunc a
  case noExtern.extern_ => exact .bottomExtern (.refl _)
  case noExn.exn => exact .bottomExn (.refl _)
  case eq.any => exact .eqAny
  case i31.any => exact hi31
  case i31.eq => exact .i31Eq
  case struct.any => exact hstruct
  case struct.eq => exact .structEq
  case array.any => exact harray
  case array.eq => exact .arrayEq
  case concreteStruct.struct a => exact .definedStruct a
  case concreteStruct.eq a => exact .trans (.definedStruct a) .structEq
  case concreteStruct.any a => exact hs a
  case concreteArray.array a => exact .definedArray a
  case concreteArray.eq a => exact .trans (.definedArray a) .arrayEq
  case concreteArray.any a => exact ha a
  case none.any => exact .bottomAny (.refl _)
  case none.eq => exact .bottomAny .eqAny
  case none.i31 => exact .bottomAny hi31
  case none.struct => exact .bottomAny hstruct
  case none.array => exact .bottomAny harray
  case none.concreteStruct a => exact .bottomAny (hs a)
  case none.concreteArray a => exact .bottomAny (ha a)
  all_goals exact absurd rfl hxy

/-- The bottom of a hierarchy is below whatever is below its top. -/
theorem HeapType.bottom_matches {h : HeapType} :
    (h.matches .any = true → HeapType.none.matches h = true) ∧
    (h.matches .func = true → HeapType.noFunc.matches h = true) ∧
    (h.matches .extern_ = true → HeapType.noExtern.matches h = true) ∧
    (h.matches .exn = true → HeapType.noExn.matches h = true) := by
  refine ⟨?_, ?_, ?_, ?_⟩ <;> intro hm <;> cases h <;> first | rfl | simp [HeapType.matches] at hm

/-- **The rules are the lattice with the declared subtypes.** -/
theorem heapSub_iff (htrans : ∀ a b c, le a b → le b c → le a c)
    {x y : HeapType} : HeapSub le x y ↔ HeapLe le x y := by
  have hbottom : ∀ {h top : HeapType}, HeapLe le h top →
      (∀ b, top ≠ .concreteStruct b ∧ top ≠ .concreteArray b ∧ top ≠ .concreteFunc b) →
      h.matches top = true := by
    intro h top hle htop
    cases hle with
    | lattice hm => exact hm
    | struct _ => exact absurd rfl (htop _).1
    | array _ => exact absurd rfl (htop _).2.1
    | func _ => exact absurd rfl (htop _).2.2
  constructor
  · intro h
    induction h with
    | refl h => exact .lattice h.matches_self
    | trans _ _ ih ih' => exact HeapLe.trans htrans ih ih'
    | eqAny | i31Eq | structEq | arrayEq | definedStruct _ | definedArray _ | definedFunc _ =>
      exact .lattice rfl
    | declaredStruct h => exact .struct h
    | declaredArray h => exact .array h
    | declaredFunc h => exact .func h
    | bottomAny _ ih => exact .lattice (HeapType.bottom_matches.1 (hbottom ih (by simp)))
    | bottomFunc _ ih => exact .lattice (HeapType.bottom_matches.2.1 (hbottom ih (by simp)))
    | bottomExtern _ ih => exact .lattice (HeapType.bottom_matches.2.2.1 (hbottom ih (by simp)))
    | bottomExn _ ih => exact .lattice (HeapType.bottom_matches.2.2.2 (hbottom ih (by simp)))
  · intro h
    cases h with
    | lattice h => exact .of_matches h
    | struct h => exact .declaredStruct h
    | array h => exact .declaredArray h
    | func h => exact .declaredFunc h

end

/-! ## Matching of external types -/

/-- Subtyping of value types: equal, or references with a smaller heap type and no more nulls. -/
inductive ValSub (le : CanonicalTypeId → CanonicalTypeId → Prop) : ValType → ValType → Prop where
  | same (v : ValType) : ValSub le v v
  | ref {n n' : Bool} {h h' : HeapType} : (n = true → n' = true) → HeapSub le h h' →
      ValSub le (.ref n h) (.ref n' h')

structure Limits where
  min : ℕ
  max : Option ℕ
  deriving DecidableEq, Repr

/-- Limits inclusion. -/
structure Limits.Included (actual declared : Limits) : Prop where
  min : declared.min ≤ actual.min
  max : ∀ m ∈ declared.max, ∃ a ∈ actual.max, a ≤ m

/-- The type of an external item. -/
inductive ExternType where
  | func (id : CanonicalTypeId)
  | memory (is64 : Bool) (limits : Limits)
  | global (ty : GlobalType)
  | table (element : RefType) (is64 : Bool) (limits : Limits)
  | tag (id : CanonicalTypeId)
  deriving DecidableEq, Repr

/-- When an item of type `actual` may be imported as `declared`. -/
inductive ExternMatches (le : CanonicalTypeId → CanonicalTypeId → Prop) :
    ExternType → ExternType → Prop where
  | func {a b : CanonicalTypeId} : le a b → ExternMatches le (.func a) (.func b)
  | memory {is64 : Bool} {l l' : Limits} : l.Included l' →
      ExternMatches le (.memory is64 l) (.memory is64 l')
  | const {v v' : ValType} : ValSub le v v' →
      ExternMatches le (.global ⟨v, .const⟩) (.global ⟨v', .const⟩)
  | var (v : ValType) : ExternMatches le (.global ⟨v, .var⟩) (.global ⟨v, .var⟩)
  | table {element : RefType} {is64 : Bool} {l l' : Limits} : l.Included l' →
      ExternMatches le (.table element is64 l) (.table element is64 l')
  | tag (id : CanonicalTypeId) : ExternMatches le (.tag id) (.tag id)

/-- The canonical type a function has: that of its definition in the module of its instance, or
the one the host gave it. -/
def LinkStore.definedType (s : LinkStore) : FuncEntity → Option CanonicalTypeId
  | .wasm inst funcIndex =>
    s.instances[inst]?.bind fun pmod =>
      pmod.funcTypes[funcIndex]?.bind fun type => pmod.typeIds[type]?
  | .host ty => some ty

/-- The type an item has now; memories and tables count with their current size. -/
def LinkStore.externType (s : LinkStore) : Extern → Option ExternType
  | .func f => do
    let entity ← s.funcs[f]?
    return .func (← s.definedType entity)
  | .memory m => do
    let entity ← s.memories[m]?
    return .memory entity.ty.memory64 ⟨entity.sizePages, entity.ty.maximum⟩
  | .global g => do return .global (← s.globals[g]?)
  | .table t => do
    let (element, entity) ← s.tables[t]?
    return .table element entity.ty.table64 ⟨entity.size, entity.ty.maximum⟩
  | .tag t => do return .tag (← s.tags[t]?)

/-- The type an import asks for. -/
def LinkModule.importType (m : LinkModule) : ImportKind → Option ExternType
  | .func type => do return .func (← m.typeIds[type]?)
  | .memory ty => some (.memory ty.memory64 ⟨ty.minimum, ty.maximum⟩)
  | .global ty => do
    let ty ← (materializeGlobal m.typeIds ty).toOption
    return .global ty
  | .table ty => do
    let heap ← (materializeHeap m.typeIds ty.heap).toOption
    return .table ⟨ty.nullable, heap⟩ ty.table64 ⟨ty.min, ty.max⟩
  | .tag type => do return .tag (← m.typeIds[type]?)

/-- An item may be imported: both types are there and match. -/
def LinkStore.Importable (s : LinkStore) (m : LinkModule) (imp : ImportKind) (ext : Extern) :
    Prop :=
  ∃ actual declared, s.externType ext = some actual ∧ m.importType imp = some declared ∧
    ExternMatches s.engine.Declared actual declared

/-! ## What each check decides -/

theorem limitsOk_iff {amin imin : ℕ} {amax imax : Option ℕ} :
    limitsOk amin amax imin imax = true ↔ Limits.Included ⟨amin, amax⟩ ⟨imin, imax⟩ := by
  unfold limitsOk
  rw [Bool.and_eq_true, decide_eq_true_iff]
  constructor
  · rintro ⟨hmin, hmax⟩
    refine ⟨hmin, ?_⟩
    rintro m rfl
    rw [Option.all_some] at hmax
    cases amax with
    | none => nomatch hmax
    | some a => exact ⟨a, rfl, of_decide_eq_true hmax⟩
  · rintro ⟨hmin, hmax⟩
    refine ⟨hmin, ?_⟩
    cases imax with
    | none => rfl
    | some m =>
      obtain ⟨a, rfl, hle⟩ := hmax m rfl
      exact decide_eq_true hle

theorem toOption_eq_some {α : Type} {x : Except LinkError α} {a : α} :
    x.toOption = some a ↔ x = .ok a := by
  cases x with
  | error e => exact ⟨nofun, nofun⟩
  | ok b =>
    exact ⟨fun h => congrArg _ (Option.some.inj h), fun h => congrArg some (Except.ok.inj h)⟩

/-- Materializing a table type that the validator let through keeps its limits. -/
theorem materializeTable_ok {typeIds : List CanonicalTypeId} {t : IrTableType}
    {r : RefType × TableType} :
    materializeTable typeIds t = .ok r ↔ ∃ heap, materializeHeap typeIds t.heap = .ok heap ∧
      r = (⟨t.nullable, heap⟩, ⟨t.min, t.max, t.table64⟩) := by
  have hmax : t.table64 = false → t.max.map (· % 2 ^ 32) = t.max := by
    intro h64
    cases hm : t.max with
    | none => rfl
    | some m => exact congrArg some (Nat.mod_eq_of_lt (t.max_lt h64 m hm))
  unfold materializeTable
  simp only [bind_ok_iff]
  constructor
  · rintro ⟨heap, hh, h⟩
    refine ⟨heap, hh, ?_⟩
    cases h64 : t.table64 with
    | true =>
      rw [h64] at h
      exact (Except.ok.inj h).symm
    | false =>
      rw [h64] at h
      rw [← Except.ok.inj h, hmax h64, Nat.mod_eq_of_lt (t.min_lt h64)]
  · rintro ⟨heap, hh, rfl⟩
    refine ⟨heap, hh, ?_⟩
    cases h64 : t.table64 with
    | true => rfl
    | false =>
      show Except.ok _ = _
      rw [hmax h64, Nat.mod_eq_of_lt (t.min_lt h64)]

namespace LinkStore

variable {s : LinkStore} {m : LinkModule}

theorem funcType_ok {entity : FuncEntity} {id : CanonicalTypeId} :
    s.funcType entity = .ok id ↔ s.definedType entity = some id := by
  cases entity with
  | host ty =>
    exact ⟨fun h => congrArg some (Except.ok.inj h), fun h => congrArg _ (Option.some.inj h)⟩
  | wasm inst funcIndex =>
    simp only [funcType, definedType, bind_ok_iff, index_ok, Option.bind_eq_some_iff]

theorem checkFunc_iff {type f : ℕ} :
    s.checkFunc m type f = .ok () ↔ Importable s m (.func type) (.func f) := by
  unfold checkFunc Importable
  simp only [bind_ok_iff, index_ok, require_ok, funcType_ok]
  constructor
  · rintro ⟨b, hb, entity, he, a, ha, hsub⟩
    refine ⟨.func a, .func b, ?_, ?_, .func hsub⟩
    · simp only [externType, Option.bind_eq_bind, Option.bind_eq_some_iff]
      exact ⟨entity, he, a, ha, rfl⟩
    · simp only [LinkModule.importType, Option.bind_eq_bind, Option.bind_eq_some_iff]
      exact ⟨b, hb, rfl⟩
  · rintro ⟨actual, declared, hactual, hdeclared, hmatch⟩
    simp only [externType, Option.bind_eq_bind, Option.bind_eq_some_iff] at hactual
    simp only [LinkModule.importType, Option.bind_eq_bind, Option.bind_eq_some_iff] at hdeclared
    obtain ⟨entity, he, a, ha, hactual⟩ := hactual
    obtain ⟨b, hb, hdeclared⟩ := hdeclared
    obtain rfl := Option.some.inj hactual
    obtain rfl := Option.some.inj hdeclared
    cases hmatch with
    | func hsub => exact ⟨b, hb, entity, he, a, ha, hsub⟩

theorem checkTag_iff {type t : ℕ} :
    s.checkTag m type t = .ok () ↔ Importable s m (.tag type) (.tag t) := by
  unfold checkTag Importable
  simp only [bind_ok_iff, index_ok, require_ok, decide_eq_true_iff]
  constructor
  · rintro ⟨b, hb, a, ha, rfl⟩
    refine ⟨.tag a, .tag a, ?_, ?_, .tag a⟩
    · simp only [externType, Option.bind_eq_bind, Option.bind_eq_some_iff]
      exact ⟨a, ha, rfl⟩
    · simp only [LinkModule.importType, Option.bind_eq_bind, Option.bind_eq_some_iff]
      exact ⟨a, hb, rfl⟩
  · rintro ⟨actual, declared, hactual, hdeclared, hmatch⟩
    simp only [externType, Option.bind_eq_bind, Option.bind_eq_some_iff] at hactual
    simp only [LinkModule.importType, Option.bind_eq_bind, Option.bind_eq_some_iff] at hdeclared
    obtain ⟨a, ha, hactual⟩ := hactual
    obtain ⟨b, hb, hdeclared⟩ := hdeclared
    obtain rfl := Option.some.inj hactual
    obtain rfl := Option.some.inj hdeclared
    cases hmatch with
    | tag => exact ⟨a, hb, a, ha, rfl⟩

theorem checkMemory_iff {ty : MemoryType} {mem : ℕ} :
    s.checkMemory ty mem = .ok () ↔ Importable s m (.memory ty) (.memory mem) := by
  unfold checkMemory Importable
  simp only [bind_ok_iff, index_ok, require_ok, Bool.and_eq_true, decide_eq_true_iff,
    limitsOk_iff]
  constructor
  · rintro ⟨entity, he, h64, hl⟩
    refine ⟨.memory ty.memory64 _, _, ?_, rfl, .memory hl⟩
    simp only [externType, Option.bind_eq_bind, Option.bind_eq_some_iff]
    exact ⟨entity, he, congrArg (fun b => some (ExternType.memory b _)) h64⟩
  · rintro ⟨actual, declared, hactual, hdeclared, hmatch⟩
    simp only [externType, Option.bind_eq_bind, Option.bind_eq_some_iff] at hactual
    obtain ⟨entity, he, hactual⟩ := hactual
    refine ⟨entity, he, ?_⟩
    cases hmatch with
    | memory hl =>
      obtain ⟨h64, rfl⟩ := ExternType.memory.inj (Option.some.inj hactual)
      obtain ⟨h64', rfl⟩ := ExternType.memory.inj (Option.some.inj hdeclared)
      exact ⟨h64.trans h64'.symm, hl⟩
    | _ => nomatch Option.some.inj hdeclared

theorem checkTable_iff {ty : IrTableType} {t : ℕ} :
    s.checkTable m ty t = .ok () ↔ Importable s m (.table ty) (.table t) := by
  unfold checkTable Importable
  simp only [bind_ok_iff, index_ok, materializeTable_ok, require_ok, Bool.and_eq_true,
    decide_eq_true_iff, limitsOk_iff]
  constructor
  · rintro ⟨⟨element, entity⟩, he, _, ⟨heap, hh, rfl⟩, rfl, h64, hl⟩
    refine ⟨.table ⟨ty.nullable, heap⟩ ty.table64 _, _, ?_, ?_, .table hl⟩
    · simp only [externType, Option.bind_eq_bind, Option.bind_eq_some_iff]
      exact ⟨_, he, congrArg (fun b => some (ExternType.table _ b _)) h64⟩
    · simp only [LinkModule.importType, Option.bind_eq_bind, Option.bind_eq_some_iff,
        toOption_eq_some]
      exact ⟨heap, hh, rfl⟩
  · rintro ⟨actual, declared, hactual, hdeclared, hmatch⟩
    simp only [externType, Option.bind_eq_bind, Option.bind_eq_some_iff] at hactual
    simp only [LinkModule.importType, Option.bind_eq_bind, Option.bind_eq_some_iff,
      toOption_eq_some] at hdeclared
    obtain ⟨⟨element, entity⟩, he, hactual⟩ := hactual
    obtain ⟨heap, hh, hdeclared⟩ := hdeclared
    refine ⟨_, he, _, ⟨heap, hh, rfl⟩, ?_⟩
    cases hmatch with
    | table hl =>
      obtain ⟨hel, h64, rfl⟩ := ExternType.table.inj (Option.some.inj hactual)
      obtain ⟨hel', h64', rfl⟩ := ExternType.table.inj (Option.some.inj hdeclared)
      exact ⟨hel.trans hel'.symm, h64.trans h64'.symm, hl⟩
    | _ => nomatch Option.some.inj hdeclared

/-- What the check of a global decides: a mutable one by equality, an immutable one by the
abstract lattice. -/
theorem checkGlobal_iff {ty : IrGlobalType} {g : ℕ} :
    s.checkGlobal m ty g = .ok () ↔ ∃ actual declared, s.globals[g]? = some actual ∧
      materializeGlobal m.typeIds ty = .ok declared ∧
      actual.mutability = declared.mutability ∧
      (declared.mutability = .const → actual.content.matches declared.content = true) ∧
      (declared.mutability = .var → actual.content = declared.content) := by
  unfold checkGlobal
  simp only [bind_ok_iff, index_ok, require_ok, Bool.and_eq_true, decide_eq_true_iff]
  constructor
  · rintro ⟨actual, ha, declared, hd, hmut, hc⟩
    refine ⟨actual, declared, ha, hd, hmut, ?_, ?_⟩
    · intro h
      rw [h] at hc
      exact hc
    · intro h
      rw [h] at hc
      exact of_decide_eq_true hc
  · rintro ⟨actual, declared, ha, hd, hmut, hconst, hvar⟩
    refine ⟨actual, ha, declared, hd, hmut, ?_⟩
    cases h : declared.mutability with
    | const => exact hconst h
    | var => exact decide_eq_true (hvar h)

end LinkStore

/-! ## Globals and the lattice -/

/-- An immutable global whose type is a reference to a declared proper subtype of what the import
refers to: a match that only the registry knows of. -/
inductive DeclaredOnly (le : CanonicalTypeId → CanonicalTypeId → Prop) :
    ExternType → ExternType → Prop where
  | struct {n n' : Bool} {a b : CanonicalTypeId} : (n = true → n' = true) → a ≠ b → le a b →
      DeclaredOnly le (.global ⟨.ref n (.concreteStruct a), .const⟩)
        (.global ⟨.ref n' (.concreteStruct b), .const⟩)
  | array {n n' : Bool} {a b : CanonicalTypeId} : (n = true → n' = true) → a ≠ b → le a b →
      DeclaredOnly le (.global ⟨.ref n (.concreteArray a), .const⟩)
        (.global ⟨.ref n' (.concreteArray b), .const⟩)
  | func {n n' : Bool} {a b : CanonicalTypeId} : (n = true → n' = true) → a ≠ b → le a b →
      DeclaredOnly le (.global ⟨.ref n (.concreteFunc a), .const⟩)
        (.global ⟨.ref n' (.concreteFunc b), .const⟩)

section

variable {le : CanonicalTypeId → CanonicalTypeId → Prop}

theorem DeclaredOnly.matches {actual declared : ExternType} (h : DeclaredOnly le actual declared) :
    ExternMatches le actual declared := by
  cases h with
  | struct hn _ hle => exact .const (.ref hn (.declaredStruct hle))
  | array hn _ hle => exact .const (.ref hn (.declaredArray hle))
  | func hn _ hle => exact .const (.ref hn (.declaredFunc hle))

/-- Subtyping of value types is the lattice and the declared subtypes it does not see. -/
theorem valSub_iff (htrans : ∀ a b c, le a b → le b c → le a c) {v w : ValType} :
    ValSub le v w ↔ v.matches w = true ∨
      DeclaredOnly le (.global ⟨v, .const⟩) (.global ⟨w, .const⟩) := by
  constructor
  · intro h
    cases h with
    | same => exact Or.inl v.matches_self
    | @ref n n' x y hn h =>
      have hnull : (!n || n') = true := by
        cases n with
        | false => rfl
        | true => exact hn rfl
      have hlattice : x.matches y = true → (ValType.ref n x).matches (.ref n' y) = true := by
        intro hm
        rw [ValType.matches, refMatches, hnull, hm]
        rfl
      cases (heapSub_iff htrans).mp h with
      | lattice hm => exact Or.inl (hlattice hm)
      | @struct a b hle =>
        by_cases hab : a = b
        · exact Or.inl (hlattice (hab ▸ HeapType.matches_self _))
        · exact Or.inr (.struct hn hab hle)
      | @array a b hle =>
        by_cases hab : a = b
        · exact Or.inl (hlattice (hab ▸ HeapType.matches_self _))
        · exact Or.inr (.array hn hab hle)
      | @func a b hle =>
        by_cases hab : a = b
        · exact Or.inl (hlattice (hab ▸ HeapType.matches_self _))
        · exact Or.inr (.func hn hab hle)
  · rintro (h | h)
    · rcases ValType.matches_cases h with rfl | ⟨n, a, n', b, rfl, rfl, hn, hm⟩
      · exact .same v
      · exact .ref hn (.of_matches hm)
    · cases h.matches with
      | const h => exact h

/-- The declared subtypes that count are not in the lattice. -/
theorem DeclaredOnly.not_matches {v w : ValType}
    (h : DeclaredOnly le (.global ⟨v, .const⟩) (.global ⟨w, .const⟩)) :
    ¬ v.matches w = true := by
  cases h with
  | struct _ hab _ => simp [ValType.matches, refMatches, HeapType.matches, hab]
  | array _ hab _ => simp [ValType.matches, refMatches, HeapType.matches, hab]
  | func _ hab _ => simp [ValType.matches, refMatches, HeapType.matches, hab]

end

/-! ## Exactness -/

namespace LinkStore

variable {s : LinkStore} {m : LinkModule}

/-- Whether a match can only be seen in the registry. -/
def RegistryOnly (s : LinkStore) (m : LinkModule) (imp : ImportKind) (ext : Extern) : Prop :=
  ∃ actual declared, s.externType ext = some actual ∧ m.importType imp = some declared ∧
    DeclaredOnly s.engine.Declared actual declared

variable {ext : Extern} {imp : ImportKind}

theorem RegistryOnly.importable (h : s.RegistryOnly m imp ext) : s.Importable m imp ext := by
  obtain ⟨actual, declared, ha, hd, h⟩ := h
  exact ⟨actual, declared, ha, hd, h.matches⟩

theorem not_registryOnly (h : ∀ ty, imp ≠ .global ty) : ¬ s.RegistryOnly m imp ext := by
  rintro ⟨actual, declared, -, hd, h'⟩
  cases imp with
  | global ty => exact h ty rfl
  | func type =>
    simp only [LinkModule.importType, Option.bind_eq_bind, Option.bind_eq_some_iff] at hd
    obtain ⟨b, -, hd⟩ := hd
    obtain rfl := Option.some.inj hd
    cases h'
  | memory ty =>
    obtain rfl := Option.some.inj hd
    cases h'
  | table ty =>
    simp only [LinkModule.importType, Option.bind_eq_bind, Option.bind_eq_some_iff] at hd
    obtain ⟨b, -, hd⟩ := hd
    obtain rfl := Option.some.inj hd
    cases h'
  | tag type =>
    simp only [LinkModule.importType, Option.bind_eq_bind, Option.bind_eq_some_iff] at hd
    obtain ⟨b, -, hd⟩ := hd
    obtain rfl := Option.some.inj hd
    cases h'

/-- The check of a global decides the matches that the lattice sees. -/
theorem checkGlobal_importable {ty : IrGlobalType} {g : ℕ} :
    s.checkGlobal m ty g = .ok () ↔
      s.Importable m (.global ty) (.global g) ∧ ¬ s.RegistryOnly m (.global ty) (.global g) := by
  rw [checkGlobal_iff]
  have hactual : ∀ {actual}, s.globals[g]? = some actual →
      s.externType (.global g) = some (.global actual) := by
    intro actual ha
    simp only [externType, Option.bind_eq_bind, Option.bind_eq_some_iff]
    exact ⟨actual, ha, rfl⟩
  have hdeclared : ∀ {declared}, materializeGlobal m.typeIds ty = .ok declared →
      m.importType (.global ty) = some (.global declared) := by
    intro declared hd
    simp only [LinkModule.importType, Option.bind_eq_bind, Option.bind_eq_some_iff,
      toOption_eq_some]
    exact ⟨declared, hd, rfl⟩
  constructor
  · rintro ⟨⟨v, μ⟩, ⟨w, μ'⟩, ha, hd, rfl, hconst, hvar⟩
    cases μ with
    | const =>
      have hm : v.matches w = true := hconst rfl
      refine ⟨⟨_, _, hactual ha, hdeclared hd,
        .const ((valSub_iff TypeRegistry.Declared.trans).mpr (Or.inl hm))⟩, ?_⟩
      rintro ⟨actual, declared, ha', hd', h⟩
      obtain rfl := Option.some.inj ((hactual ha).symm.trans ha')
      obtain rfl := Option.some.inj ((hdeclared hd).symm.trans hd')
      exact h.not_matches hm
    | var =>
      obtain rfl : v = w := hvar rfl
      refine ⟨⟨_, _, hactual ha, hdeclared hd, .var v⟩, ?_⟩
      rintro ⟨actual, declared, ha', hd', h⟩
      obtain rfl := Option.some.inj ((hactual ha).symm.trans ha')
      cases h
  · rintro ⟨⟨actual, declared, ha, hd, hmatch⟩, hno⟩
    have hno' : ¬ DeclaredOnly s.engine.Declared actual declared :=
      fun h => hno ⟨actual, declared, ha, hd, h⟩
    simp only [externType, Option.bind_eq_bind, Option.bind_eq_some_iff] at ha
    simp only [LinkModule.importType, Option.bind_eq_bind, Option.bind_eq_some_iff,
      toOption_eq_some] at hd
    obtain ⟨a, ha, hactual'⟩ := ha
    obtain ⟨d, hd, hdeclared'⟩ := hd
    obtain rfl := Option.some.inj hactual'
    obtain rfl := Option.some.inj hdeclared'
    refine ⟨a, d, ha, hd, ?_⟩
    cases hmatch with
    | const hsub =>
      have hm := ((valSub_iff TypeRegistry.Declared.trans).mp hsub).resolve_right hno'
      exact ⟨rfl, fun _ => hm, nofun⟩
    | var => exact ⟨rfl, nofun, fun _ => rfl⟩

/-- Items of different kinds do not match. -/
theorem linkImport_iff :
    s.linkImport m imp ext = .ok () ↔ s.Importable m imp ext ∧ ¬ s.RegistryOnly m imp ext := by
  have hand : ∀ {p : Prop}, (∀ ty, imp ≠ .global ty) → (p ↔ s.Importable m imp ext) →
      (p ↔ s.Importable m imp ext ∧ ¬ s.RegistryOnly m imp ext) :=
    fun h hp => hp.trans (and_iff_left (not_registryOnly h)).symm
  have hkind : (∀ actual declared, s.externType ext = some actual →
      m.importType imp = some declared → ¬ ExternMatches s.engine.Declared actual declared) →
      s.linkImport m imp ext = .error (.msg "import kind mismatch") →
      (s.linkImport m imp ext = .ok () ↔
        s.Importable m imp ext ∧ ¬ s.RegistryOnly m imp ext) := by
    intro hno herr
    rw [herr]
    constructor
    · exact nofun
    · rintro ⟨⟨actual, declared, ha, hd, h⟩, -⟩
      exact absurd h (hno actual declared ha hd)
  cases imp <;> cases ext
  case func.func => exact hand (fun _ h => (nomatch h)) checkFunc_iff
  case memory.memory => exact hand (fun _ h => (nomatch h)) checkMemory_iff
  case global.global => exact checkGlobal_importable
  case table.table => exact hand (fun _ h => (nomatch h)) checkTable_iff
  case tag.tag => exact hand (fun _ h => (nomatch h)) checkTag_iff
  all_goals
    refine hkind (fun actual declared ha hd h => ?_) rfl
    simp only [externType, Option.bind_eq_bind, Option.bind_eq_some_iff] at ha
    simp only [LinkModule.importType, Option.bind_eq_bind, Option.bind_eq_some_iff,
      Option.some.injEq] at hd
    cases h <;> simp at ha hd

theorem linkImports_iff {pairs : List (ImportKind × Extern)} :
    s.linkImports m pairs = .ok () ↔ ∀ p ∈ pairs, s.linkImport m p.1 p.2 = .ok () := by
  induction pairs with
  | nil => exact ⟨fun _ p hp => (nomatch hp), fun _ => rfl⟩
  | cons p pairs ih =>
    obtain ⟨imp, ext⟩ := p
    rw [List.forall_mem_cons, ← ih]
    show (s.linkImport m imp ext >>= fun _ => s.linkImports m pairs) = .ok () ↔ _
    rw [bind_ok_iff]
    exact ⟨fun ⟨_, h, h'⟩ => ⟨h, h'⟩, fun ⟨h, h'⟩ => ⟨(), h, h'⟩⟩

/-- The check of an instantiation is the check of each of its imports. -/
theorem checkImports_iff {imports : List Extern} :
    s.checkImports m imports = .ok () ↔ m.imports.length = imports.length ∧
      ∀ p ∈ m.imports.zip imports, s.linkImport m p.1 p.2 = .ok () := by
  unfold checkImports
  rw [bind_ok_iff]
  simp only [require_ok, decide_eq_true_iff, linkImports_iff]
  exact ⟨fun ⟨_, h, h'⟩ => ⟨h, h'⟩, fun ⟨h, h'⟩ => ⟨(), h, h'⟩⟩

/-- **Import linking.**  The check of an import accepts exactly the items that match it, unless the
match is one that only the registry knows of: a declared proper subtype in an immutable global,
which it rejects.  An instantiation accepts its imports exactly when each of them matches, unless
all match and one of them in that way. -/
theorem import_check_exact_iff (s : LinkStore) (m : LinkModule) :
    (∀ imp ext, (s.linkImport m imp ext = .ok () ↔ s.Importable m imp ext) ↔
      ¬ s.RegistryOnly m imp ext) ∧
    ∀ imports : List Extern,
      (s.checkImports m imports = .ok () ↔ m.imports.length = imports.length ∧
        ∀ p ∈ m.imports.zip imports, s.Importable m p.1 p.2) ↔
      ¬ ((m.imports.length = imports.length ∧
        ∀ p ∈ m.imports.zip imports, s.Importable m p.1 p.2) ∧
        ∃ p ∈ m.imports.zip imports, s.RegistryOnly m p.1 p.2) := by
  constructor
  · intro imp ext
    rw [linkImport_iff]
    constructor
    · intro h hr
      exact (h.mpr hr.importable).2 hr
    · exact fun h => and_iff_left h
  · intro imports
    rw [checkImports_iff]
    constructor
    · rintro h ⟨hall, p, hp, hr⟩
      exact (linkImport_iff.mp ((h.mpr hall).2 p hp)).2 hr
    · intro hno
      constructor
      · exact fun ⟨hlen, h⟩ => ⟨hlen, fun p hp => (linkImport_iff.mp (h p hp)).1⟩
      · intro hall
        refine ⟨hall.1, fun p hp => linkImport_iff.mpr ⟨hall.2 p hp, fun hr => ?_⟩⟩
        exact hno ⟨hall, p, hp, hr⟩

/-! ## A declared subtype -/

/-- An open struct type and a subtype of it. -/
def subtypePair : List ModuleType :=
  [⟨0, .nonFinal, none, .struct []⟩, ⟨1, .final, some 0, .struct []⟩]

/-- A store of an engine with these types, and an immutable global that refers to the second. -/
def subtypeStore : LinkStore where
  engine := ((TypeRegistry.empty.internModule subtypePair).map Prod.snd).getD .empty
  instances := []
  funcs := []
  memories := []
  globals := [⟨.ref true (.concreteStruct 1), .const⟩]
  tables := []
  tags := []

/-- A module with the same types that imports an immutable global referring to the first. -/
def superImport : LinkModule where
  typeIds := [0, 1]
  funcTypes := []
  imports := [.global ⟨.ref true (.concrete 0 .struct), false⟩]

theorem not_import_check_exact_subtype :
    subtypeStore.Importable superImport (.global ⟨.ref true (.concrete 0 .struct), false⟩)
      (.global 0) ∧
    subtypeStore.checkImports superImport [.global 0] =
      .error (.msg "imported global type mismatch") := by
  refine ⟨⟨_, _, rfl, rfl, .const (.ref id (.declaredStruct ?_))⟩, by decide⟩
  show subtypeStore.engine.isSubtype 1 0 = true
  decide

end LinkStore

end SubmilliWasm
