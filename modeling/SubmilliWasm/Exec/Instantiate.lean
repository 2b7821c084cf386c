/-
# Instantiation

Building an instance (`src/instance/init.rs`, `src/instance/mod.rs`): the imports are checked, the
entities the module defines are allocated, the element segments are evaluated and the instance is
created; then the active segments are applied in order and the start function is called.  Nothing
is undone when a step fails.

The limiter's and the allocator's answers are parameters, and so is the call of the start function.
-/
import SubmilliWasm.Exec.ConstEval
import SubmilliWasm.Store.Linking

namespace SubmilliWasm

open Effects
open Store (Limiter)

/-! ## Modules -/

inductive ElemMode where
  | passive
  | active (table : ℕ) (offset : ConstExpr)
  | declared

structure ElemSegment where
  items : ElemItems
  mode : ElemMode

inductive DataMode where
  | passive
  | active (memory : ℕ) (offset : ConstExpr)

structure DataSegment where
  bytes : List UInt8
  mode : DataMode

def ImportKind.isFunc : ImportKind → Bool
  | .func _ => true
  | _ => false

/-- The parts of a module that its instantiation reads; the types of the imported functions are
the first of `funcTypes`. -/
structure InitModule extends LinkModule where
  types : List CompositeBody
  memories : List MemoryType
  tags : List ℕ
  tables : List (IrTableType × Option ConstExpr)
  globals : List (IrGlobalType × ConstExpr)
  elems : List ElemSegment
  datas : List DataSegment
  start : Option ℕ

namespace InitModule

variable (m : InitModule)

def numImportedFuncs : ℕ := m.imports.countP ImportKind.isFunc

/-- The number of functions the module defines. -/
def numFunctions : ℕ := m.funcTypes.length - m.numImportedFuncs

def allocModule : AllocModule := ⟨m.types, m.typeIds, m.datas.map (·.bytes)⟩

end InitModule

/-! ## Stores -/

/-- The index spaces of an instance, by the handles of the store. -/
structure Spaces where
  funcs : List ℕ
  memories : List ℕ
  globals : List ℕ
  tables : List ℕ
  tags : List ℕ

structure InitInstance where
  module : InitModule
  spaces : Spaces
  droppedData : List Bool

/-- A store with all its entities; the element instances are those of the managed side. -/
structure InitStore extends StoreInner where
  instances : List InitInstance
  funcs : List FuncEntity
  memories : List MemoryEntity
  globalTypes : List GlobalType
  tableTypes : List (RefType × TableType)
  tags : List CanonicalTypeId

/-- What linking reads of a store. -/
def InitStore.linkStore (s : InitStore) : LinkStore where
  engine := s.engine
  instances := s.instances.map (·.module.toLinkModule)
  funcs := s.funcs
  memories := s.memories
  globals := s.globalTypes
  tables := (s.tableTypes.zip s.tables).map fun ((element, ty), elems) => (element, ⟨elems, ty⟩)
  tags := s.tags

inductive InitError where
  | msg (text : String)
  | link (e : LinkError)
  | op (e : OpError)
  deriving DecidableEq, Repr

abbrev InitM (α : Type) := EStateM InitError InitStore α

/-- A step on the managed side. -/
def inInner {α : Type} (x : ConstM α) : InitM α := fun s =>
  match x s.toStoreInner with
  | .ok a t => .ok a { s with toStoreInner := t }
  | .error e t => .error (.op e) { s with toStoreInner := t }

def ofLink {α : Type} (x : Except LinkError α) : InitM α := Effects.attempt (x.mapError .link)

def ofOp {α : Type} (x : Except OpError α) : InitM α := Effects.attempt (x.mapError .op)

/-! ## What an instantiation is told -/

/-- The limiter's caps on the numbers of entities. -/
structure EntityCaps where
  instances : Option ℕ
  memories : Option ℕ
  tables : Option ℕ

/-- The answers of the limiter and of the allocator, by their number, and what calling a function
without arguments does. -/
structure InitEnv where
  isAsync : Bool
  answers : ℕ → Limiter
  caps : EntityCaps
  memoryAllocator : ℕ → Bool
  tableAllocator : ℕ → Bool
  call : ℕ → InitM Unit

def allocErr : InitError := .msg "failed to allocate the initial memory or table"

def requireInit (b : Bool) (text : String) : InitM Unit :=
  if b then pure () else throw (.msg text)

/-- Whether `n` is within a cap. -/
def within (cap : Option ℕ) (n : ℕ) : Bool := cap.all fun max => n ≤ max

def toTableType (ty : IrTableType) : TableType := ⟨ty.min, ty.max, ty.table64⟩

/-- One of the two halves of `check_initial_sizes`. -/
def checkSizes {α : Type} (text : String) :
    Except StoreError (Option (List (α × Authority))) → InitM Unit
  | .error e => throw (.op (.store e))
  | .ok none => throw (.msg text)
  | .ok (some _) => pure ()

namespace InitEnv

variable (env : InitEnv) (m : InitModule)

def checkInitialSizes : InitM Unit := do
  checkSizes "memory minimum size exceeds the store limit"
    (Resources.authorizeAll (fun ty l => limiterAllowsMemory l env.isAsync ty) env.answers 0
      m.memories)
  checkSizes "table minimum size exceeds the store limit"
    (Resources.authorizeAll (fun ty l => limiterAllowsTable l env.isAsync ty) env.answers
      m.memories.length (m.tables.map fun td => toTableType td.1))

def checkLimits : InitM Unit := do
  let s ← get
  requireInit (within env.caps.instances (s.instances.length + 1))
    "instance count exceeds the store limit"
  requireInit (within env.caps.memories (s.memories.length + m.memories.length))
    "memory count exceeds the store limit"
  requireInit (within env.caps.tables (s.tables.length + m.tables.length))
    "table count exceeds the store limit"

end InitEnv

/-! ## The index spaces -/

/-- The handles of the imports, by their kind; `link_imports` sorts them as it checks them. -/
def Spaces.ofImports (imports : List Extern) : Spaces where
  funcs := imports.filterMap fun | .func f => some f | _ => none
  memories := imports.filterMap fun | .memory mem => some mem | _ => none
  globals := imports.filterMap fun | .global g => some g | _ => none
  tables := imports.filterMap fun | .table t => some t | _ => none
  tags := imports.filterMap fun | .tag t => some t | _ => none

def newMemory (allocator : Bool) (ty : MemoryType) : InitM ℕ := do
  match MemoryEntity.new ty allocator with
  | none => throw allocErr
  | some entity =>
    let s ← get
    set { s with memories := s.memories ++ [entity] }
    return s.memories.length

def newTag (m : InitModule) (type : ℕ) : InitM ℕ := do
  let ty ← ofLink (index m.typeIds[type]?)
  let s ← get
  set { s with tags := s.tags ++ [ty] }
  return s.tags.length

def newFunc (entity : FuncEntity) : InitM ℕ := do
  let s ← get
  set { s with funcs := s.funcs ++ [entity] }
  return s.funcs.length

/-- The null reference of a heap type. -/
def nullOf (heap : IrHeap) : Ref :=
  match refKind heap with
  | .func => .func none
  | .extern_ => .extern_ none
  | .any => .any none
  | .exn => .exn none

def newTable (m : InitModule) (ctx : ConstCtx) (allocator : Bool)
    (td : IrTableType × Option ConstExpr) : InitM ℕ := do
  let init ← match td.2 with
    | some e => inInner (ctx.evalConstRef e)
    | none => pure (nullOf td.1.heap)
  let (element, ty) ← ofLink (materializeTable m.typeIds td.1)
  match TableEntity.new ty init allocator with
  | none => throw allocErr
  | some entity =>
    let s ← get
    set { s with
      tables := s.tables ++ [entity.elems], tableTypes := s.tableTypes ++ [(element, ty)] }
    return s.tables.length

def newGlobal (ty : GlobalType) (value : Val) : InitM ℕ := do
  let s ← get
  set { s with globals := s.globals ++ [value], globalTypes := s.globalTypes ++ [ty] }
  return s.globals.length

/-- The globals of the module in order; each sees those in front of it. -/
def initGlobals (m : InitModule) (ctx : ConstCtx) :
    List (IrGlobalType × ConstExpr) → InitM (List ℕ)
  | [] => pure ctx.globals
  | (ty, init) :: rest => do
    let value ← inInner (ctx.evalConst init)
    let ty ← ofLink (materializeGlobal m.typeIds ty)
    let g ← newGlobal ty value
    initGlobals m { ctx with globals := ctx.globals ++ [g] } rest

/-- Everything of an instantiation before the instance: its index spaces and the references of
its element segments. -/
def prepare (env : InitEnv) (m : InitModule) (imports : List Extern) :
    InitM (Spaces × List (List Ref)) := do
  ofLink ((← get).linkStore.checkImports m.toLinkModule imports)
  let imported := Spaces.ofImports imports
  let memories ← collect (fun p => newMemory (env.memoryAllocator p.2) p.1) m.memories.zipIdx
  let tags ← collect (newTag m) m.tags
  let inst := (← get).instances.length
  let funcs ← collect (fun k => newFunc (.wasm inst (m.numImportedFuncs + k)))
    (List.range m.numFunctions)
  let funcs := imported.funcs ++ funcs
  let ctx : ConstCtx := ⟨m.allocModule, funcs, imported.globals⟩
  let tables ← collect (fun p => newTable m ctx (env.tableAllocator p.2) p.1) m.tables.zipIdx
  let globals ← initGlobals m ctx m.globals
  let evaluated ← collect (fun seg : ElemSegment =>
    inInner ({ ctx with globals := globals }.elemRefs seg.items)) m.elems
  return (⟨funcs, imported.memories ++ memories, globals, imported.tables ++ tables,
    imported.tags ++ tags⟩, evaluated)

/-! ## The instance -/

/-- The element instances of a fresh instance: those of the passive segments. -/
def passiveElemInstances (m : InitModule) (evaluated : List (List Ref)) : List (List Ref) :=
  (m.elems.zip evaluated).map fun (seg, refs) =>
    match seg.mode with
    | .passive => refs
    | .active .. | .declared => []

/-- The instance as it is created: no data segment is dropped. -/
def freshInstance (m : InitModule) (spaces : Spaces) : InitInstance :=
  ⟨m, spaces, m.datas.map fun _ => false⟩

def allocInstance (m : InitModule) (spaces : Spaces) (evaluated : List (List Ref)) : InitM ℕ := do
  let s ← get
  set { s with
    instances := s.instances ++ [freshInstance m spaces]
    elems := s.elems ++ [passiveElemInstances m evaluated] }
  return s.instances.length

/-- `const_to_usize`. -/
def constToUsize (v : Val) : Except OpError ℕ :=
  match v with
  | .i32 x => .ok x.toNat
  | .i64 x => .ok x.toNat
  | _ => .error (.exec (.msg "segment offset is not an integer"))

/-- Writes an active element segment's references into a table. -/
def applyActiveElem (handle dst : ℕ) (refs : List Ref) : InitM Unit := do
  let s ← get
  let slots ← ofOp (indexed s.tables handle)
  if slots.length < dst + refs.length then
    throw (.op (.store (.trap .tableOutOfBounds)))
  else
    set { s with tables := s.tables.set handle (Ranges.setFrom slots dst refs) }

/-- One element segment, with its references. -/
def activeElemTurn (m : InitModule) (spaces : Spaces) : ElemSegment × List Ref → InitM Unit
  | (seg, refs) =>
    match seg.mode with
    | .active table offset => do
      let v ← inInner ((⟨m.allocModule, spaces.funcs, spaces.globals⟩ : ConstCtx).evalConst offset)
      let dst ← ofOp (constToUsize v)
      let handle ← ofOp (indexed spaces.tables table)
      applyActiveElem handle dst refs
    | .passive | .declared => pure ()

def applyActiveElems (m : InitModule) (spaces : Spaces) (evaluated : List (List Ref)) :
    InitM Unit :=
  each (activeElemTurn m spaces) (m.elems.zip evaluated)

/-- One data segment, with its number; its offset sees no functions. -/
def initDataTurn (m : InitModule) (spaces : Spaces) (inst : ℕ) : DataSegment × ℕ → InitM Unit
  | (seg, segIdx) =>
    match seg.mode with
    | .active memory offset => do
      let v ← inInner ((⟨m.allocModule, [], spaces.globals⟩ : ConstCtx).evalConst offset)
      let dst ← ofOp (constToUsize v)
      let handle ← ofOp (indexed spaces.memories memory)
      let s ← get
      let mem ← ofOp (indexed s.memories handle)
      if mem.bytes.length < dst + seg.bytes.length then
        throw (.op (.store (.trap .memoryOutOfBounds)))
      else
        set { s with
          memories := s.memories.set handle
            { mem with bytes := Ranges.overwrite mem.bytes dst seg.bytes }
          instances := s.instances.modify inst fun i =>
            { i with droppedData := i.droppedData.set segIdx true } }
    | .passive => pure ()

def initDatas (m : InitModule) (spaces : Spaces) (inst : ℕ) : InitM Unit :=
  each (initDataTurn m spaces inst) m.datas.zipIdx

/-- `instantiate`. -/
def instantiate (env : InitEnv) (m : InitModule) (imports : List Extern) : InitM (ℕ × Spaces) := do
  let (spaces, evaluated) ← prepare env m imports
  let inst ← allocInstance m spaces evaluated
  applyActiveElems m spaces evaluated
  initDatas m spaces inst
  return (inst, spaces)

/-- The call of the start function, if there is one. -/
def runStart (env : InitEnv) (m : InitModule) (spaces : Spaces) : InitM Unit :=
  match m.start with
  | none => pure ()
  | some idx => do
    let f ← ofOp (indexed spaces.funcs idx)
    env.call f

/-- `Instance::new` and `Instance::new_async`. -/
def instanceNew (env : InitEnv) (m : InitModule) (imports : List Extern) : InitM ℕ := do
  env.checkInitialSizes m
  env.checkLimits m
  let (inst, spaces) ← instantiate env m imports
  runStart env m spaces
  return inst

end SubmilliWasm
