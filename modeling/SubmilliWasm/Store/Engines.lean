/-
# Several engines

A process with several engines, each with its stores, types, modules and linkers, and what an
embedder may do there.  A canonical id is a number that means a type only in the engine that
gave it, so each entry point has to keep the engines apart.

Most entry points compare engines, or reject a handle of another store.  An instantiation
compares no engine, a linker compares none either, and a reference rebuilt from a bare cell
carries no store to compare.
-/
import Mathlib.Data.List.ReduceOption
import SubmilliWasm.Canon.Keys
import SubmilliWasm.Lib.Runs
import SubmilliWasm.Lib.Slots

namespace SubmilliWasm
namespace Engines

/-! ## Handles, types and values -/

/-- A handle: the store that handed it out, whether it carries the id of that store (a reference
rebuilt from a cell carries `0`), and an index in an arena. -/
structure Handle where
  home : ℕ
  stamped : Bool
  index : ℕ
  deriving DecidableEq, Repr

/-- A type handle: a canonical id and the engine that gave it. -/
structure TypeHandle where
  engine : ℕ
  id : CanonicalTypeId
  deriving DecidableEq, Repr

/-- A value type; numbers and abstract references belong to every engine. -/
inductive HostValType where
  | plain
  | concrete (ty : TypeHandle)
  deriving DecidableEq, Repr

def HostValType.types : HostValType → List TypeHandle
  | .plain => []
  | .concrete ty => [ty]

def valTypeBelongsToEngine (ty : HostValType) (engine : ℕ) : Bool :=
  match ty with
  | .plain => true
  | .concrete ty => ty.engine = engine

/-- A value: the reference it is, or none for a number and a null. -/
abbrev HostVal := Option Handle

/-- A handle of another store is rejected; one without a store passes. -/
def checkHandle (store : ℕ) (h : Handle) : Bool := !h.stamped || decide (h.home = store)

def checkVal (store : ℕ) (v : HostVal) : Bool := v.all (checkHandle store)

/-! ## Modules, stores, linkers -/

inductive ExternKind where
  | func
  | memory
  | global
  | table
  | tag
  deriving DecidableEq, Repr

structure Import where
  module : String
  name : String
  kind : ExternKind
  deriving DecidableEq, Repr

/-- An operator of a constant expression, as far as it makes references. -/
inductive ConstOp where
  | plain
  | refFunc (f : ℕ)
  | globalGet (g : ℕ)
  | newObject (type arity : ℕ)
  deriving DecidableEq, Repr

/-- A table of a module: the type of its elements in the type section, if they are of one, its
size and its initial value. -/
structure TableDef where
  element : Option ℕ
  min : ℕ
  init : List ConstOp
  deriving DecidableEq, Repr

inductive ElemMode where
  | active (table offset : ℕ)
  | passive
  | declared
  deriving DecidableEq, Repr

structure ElemSegment where
  mode : ElemMode
  items : List (List ConstOp)
  deriving DecidableEq, Repr

/-- A compiled module: the canonical ids of its type section are those of its engine. -/
structure Module where
  engine : ℕ
  typeIds : List CanonicalTypeId
  imports : List Import
  memories : ℕ
  tags : List ℕ
  functions : ℕ
  tables : List TableDef
  globals : List (Option ℕ × List ConstOp)
  elems : List ElemSegment
  exports : List (String × ExternKind × ℕ)
  deriving DecidableEq, Repr

inductive Entity where
  | memory
  | tag (ty : TypeHandle)
  | wasm (inst : ℕ)
  | host (ty : TypeHandle)
  | table (element : HostValType) (elems : List HostVal)
  | global (content : HostValType) (value : HostVal)
  | object (ty : TypeHandle) (fields : List HostVal)
  | exn (tag : Handle) (args : List HostVal)
  deriving DecidableEq, Repr

structure InstanceEntity where
  module : Module
  funcs : List Handle
  memories : List Handle
  globals : List Handle
  tables : List Handle
  tags : List Handle
  elems : List (List HostVal)
  deriving DecidableEq, Repr

/-- A store; its arenas but for that of the instances are one list, and the values a call keeps
on the stack another. -/
structure Store where
  engine : ℕ
  entities : List Entity
  instances : List InstanceEntity
  operands : List HostVal
  deriving DecidableEq, Repr

inductive Def where
  | extern_ (h : Handle)
  | host (ty : TypeHandle)
  deriving DecidableEq, Repr

structure Linker where
  engine : ℕ
  allowShadowing : Bool
  map : List ((String × String) × Def)
  deriving DecidableEq, Repr

/-- A `StructRefPre`, `ArrayRefPre` or `ExnRefPre`. -/
structure Pre where
  store : ℕ
  ty : TypeHandle
  deriving DecidableEq, Repr

/-- The stores, the type handles with the types they are built from, the pre-allocation handles
and the linkers of the process. -/
structure World where
  stores : List Store
  types : List (TypeHandle × List HostValType)
  pres : List Pre
  linkers : List Linker
  deriving DecidableEq, Repr

inductive Outcome where
  | ok
  | rejected
  deriving DecidableEq, Repr

def World.empty : World := ⟨[], [], [], []⟩

def World.engineOf (w : World) (store : ℕ) : Option ℕ := (w.stores[store]?).map Store.engine

def World.linkerEngine (w : World) (l : ℕ) : Option ℕ := (w.linkers[l]?).map Linker.engine

/-! ## Allocation in a store -/

def Store.alloc (s : Store) (e : Entity) : Store := { s with entities := s.entities ++ [e] }

/-- The handle of the entity that is allocated next. -/
def Store.next (s : Store) (store : ℕ) : Handle := ⟨store, true, s.entities.length⟩

/-- The values `vs` from position `k` on; beyond the end they are appended. -/
def splice (xs : List HostVal) (k : ℕ) (vs : List HostVal) : List HostVal :=
  xs.take k ++ vs ++ xs.drop (k + vs.length)

/-- Values written into a table, a global or an object. -/
def Entity.write (k : ℕ) (vs : List HostVal) (e : Entity) : Entity :=
  match e with
  | .table element elems => .table element (splice elems k vs)
  | .global content value => .global content (vs.headD value)
  | .object ty fields => .object ty (splice fields k vs)
  | _ => e

def Store.write (s : Store) (index k : ℕ) (vs : List HostVal) : Store :=
  { s with entities := s.entities.modify index (Entity.write k vs) }

/-- The references an entity holds. -/
def Entity.values : Entity → List HostVal
  | .table _ elems => elems
  | .global _ value => [value]
  | .object _ fields => fields
  | .exn t args => some t :: args
  | .memory => []
  | .tag _ => []
  | .wasm _ => []
  | .host _ => []

/-- The types an entity holds. -/
def Entity.types : Entity → List TypeHandle
  | .tag ty => [ty]
  | .host ty => [ty]
  | .object ty _ => [ty]
  | .table element _ => element.types
  | .global content _ => content.types
  | .memory => []
  | .wasm _ => []
  | .exn _ _ => []

/-- The value of a global of the store. -/
def Store.globalValue (s : Store) (h : Handle) : HostVal :=
  match s.entities[h.index]? with
  | some (.global _ value) => value
  | _ => none

def InstanceEntity.handles (i : InstanceEntity) : List Handle :=
  i.funcs ++ i.memories ++ i.globals ++ i.tables ++ i.tags

/-- The change if the checks pass. -/
def guarded (checks : Bool) (s s' : Store) : Store × Outcome :=
  if checks then (s', .ok) else (s, .rejected)

/-! ## Instantiation -/

def Module.typeHandle (m : Module) (type : ℕ) : Option TypeHandle :=
  (m.typeIds[type]?).map fun id => ⟨m.engine, id⟩

/-- The type a table or a global of the module is allocated with. -/
def Module.valType (m : Module) (type : Option ℕ) : HostValType :=
  match type.bind m.typeHandle with
  | some ty => .concrete ty
  | none => .plain

/-- An instantiation on its way: the store, and the index spaces of the instance to be. -/
structure Building where
  store : Store
  funcs : List Handle
  memories : List Handle
  globals : List Handle
  tables : List Handle
  tags : List Handle
  elems : List (List HostVal)

/-- One operator on the stack of a constant expression. -/
def Building.evalOp (m : Module) (st : ℕ) (bs : Building × List HostVal) :
    ConstOp → Building × List HostVal
  | .plain => (bs.1, none :: bs.2)
  | .refFunc f => (bs.1, bs.1.funcs[f]? :: bs.2)
  | .globalGet g => (bs.1, (bs.1.globals[g]?).bind bs.1.store.globalValue :: bs.2)
  | .newObject type arity =>
    match m.typeHandle type with
    | some ty =>
      ({ bs.1 with store := bs.1.store.alloc (.object ty (bs.2.take arity)) },
        some ⟨st, false, bs.1.store.entities.length⟩ :: bs.2.drop arity)
    | none => bs

def Building.evalConst (m : Module) (st : ℕ) (b : Building) (e : List ConstOp) :
    Building × HostVal :=
  let (b, stack) := e.foldl (evalOp m st) (b, [])
  (b, stack.head?.join)

/-- The items of an element segment. -/
def Building.evalElem (m : Module) (st : ℕ) (b : Building) :
    List (List ConstOp) → Building × List HostVal
  | [] => (b, [])
  | e :: rest =>
    let (b, v) := b.evalConst m st e
    let (b, vs) := b.evalElem m st rest
    (b, v :: vs)

/-- What an instantiation does after the import check, piece by piece. -/
inductive BuildStep where
  | memory
  | tag (type : ℕ)
  | func
  | table (t : TableDef)
  | global (content : Option ℕ) (init : List ConstOp)
  | evalElem (items : List (List ConstOp))
  | inst
  | applyElem (segment table offset : ℕ)

/-- The segments an instance keeps: those that are not passive are dropped. -/
def passiveElemInstances (m : Module) (evaluated : List (List HostVal)) : List (List HostVal) :=
  (m.elems.zip evaluated).map fun (segment, values) =>
    if segment.mode = .passive then values else []

/-- The step that copies an active segment. -/
def ElemSegment.applyStep (e : ElemSegment) (i : ℕ) : Option BuildStep :=
  match e.mode with
  | .active table offset => some (.applyElem i table offset)
  | _ => none

def Building.step (m : Module) (st : ℕ) (b : Building) : BuildStep → Building
  | .memory =>
    { b with store := b.store.alloc .memory, memories := b.memories ++ [b.store.next st] }
  | .tag type =>
    match m.typeHandle type with
    | some ty => { b with store := b.store.alloc (.tag ty), tags := b.tags ++ [b.store.next st] }
    | none => b
  | .func =>
    -- the index that the instance is going to have
    { b with
      store := b.store.alloc (.wasm b.store.instances.length)
      funcs := b.funcs ++ [b.store.next st] }
  | .table t =>
    let (b, value) := b.evalConst m st t.init
    { b with
      store := b.store.alloc (.table (m.valType t.element) (List.replicate t.min value))
      tables := b.tables ++ [b.store.next st] }
  | .global content init =>
    let (b, value) := b.evalConst m st init
    { b with
      store := b.store.alloc (.global (m.valType content) value)
      globals := b.globals ++ [b.store.next st] }
  | .evalElem items =>
    let (b, values) := b.evalElem m st items
    { b with elems := b.elems ++ [values] }
  | .inst =>
    let i := ⟨m, b.funcs, b.memories, b.globals, b.tables, b.tags, passiveElemInstances m b.elems⟩
    { b with store := { b.store with instances := b.store.instances ++ [i] } }
  | .applyElem segment table offset =>
    match b.elems[segment]?, b.tables[table]? with
    | some values, some h => { b with store := b.store.write h.index offset values }
    | _, _ => b

def Module.buildSteps (m : Module) : List BuildStep :=
  List.replicate m.memories .memory ++ m.tags.map .tag ++ List.replicate m.functions .func ++
    m.tables.map .table ++ m.globals.map (fun g => .global g.1 g.2) ++
    m.elems.map (fun e => .evalElem e.items) ++ [.inst] ++
    m.elems.zipIdx.filterMap fun (e, i) => e.applyStep i

/-- The imports of one kind, in order. -/
def Module.imported (m : Module) (imports : List Handle) (k : ExternKind) : List Handle :=
  (m.imports.zip imports).filterMap fun (i, h) => if i.kind = k then some h else none

/-- An instantiation: the imports are looked up in the store and compared, with the result
`linked`, before anything is allocated; then the pieces follow, up to the one that fails. -/
def instantiate (st : ℕ) (m : Module) (imports : List Handle) (linked : Bool) (upTo : ℕ)
    (s : Store) : Store × Outcome :=
  if m.imports.length = imports.length && imports.all (checkHandle st) && linked then
    let b : Building := ⟨s, m.imported imports .func, m.imported imports .memory,
      m.imported imports .global, m.imported imports .table, m.imported imports .tag, []⟩
    let done := m.buildSteps.take upTo
    ((done.foldl (Building.step m st) b).store,
      if m.buildSteps.length ≤ upTo then .ok else .rejected)
  else (s, .rejected)

/-! ## Linkers -/

def Linker.get (l : Linker) (module name : String) : Option Def :=
  (l.map.find? fun d => d.1 = (module, name)).map Prod.snd

/-- A definition, unless one is there and must not be shadowed. -/
def Linker.insert (l : Linker) (module name : String) (d : Def) : Option Linker :=
  if !l.allowShadowing && (l.get module name).isSome then none
  else some { l with map := ((module, name), d) :: l.map }

/-- The definitions one after the other, up to the first that is refused. -/
def Linker.insertAll (l : Linker) (module : String) : List (String × Def) → Linker × Outcome
  | [] => (l, .ok)
  | (name, d) :: rest =>
    match l.insert module name d with
    | none => (l, .rejected)
    | some l => l.insertAll module rest

/-- A definition in a store: a host function is materialized there. -/
def Linker.resolve (l : Linker) (st : ℕ) (s : Store) (module name : String) :
    Option Handle × Store :=
  match l.get module name with
  | some (.extern_ h) => (some h, s)
  | some (.host ty) => (some (s.next st), s.alloc (.host ty))
  | none => (none, s)

def Linker.resolveAll (l : Linker) (st : ℕ) : List Import → Store → Option (List Handle) × Store
  | [], s => (some [], s)
  | i :: rest, s =>
    match l.resolve st s i.module i.name with
    | (none, s) => (none, s)
    | (some h, s) =>
      let (hs, s) := l.resolveAll st rest s
      (hs.map (h :: ·), s)

def Linker.instantiate (l : Linker) (st : ℕ) (m : Module) (linked : Bool) (upTo : ℕ)
    (s : Store) : Store × Outcome :=
  match l.resolveAll st m.imports s with
  | (none, s) => (s, .rejected)
  | (some imports, s) => Engines.instantiate st m imports linked upTo s

/-- An export, through the index spaces of the instance. -/
def InstanceEntity.exportAt (i : InstanceEntity) (k : ExternKind) (index : ℕ) : Option Handle :=
  match k with
  | .func => i.funcs[index]?
  | .memory => i.memories[index]?
  | .global => i.globals[index]?
  | .table => i.tables[index]?
  | .tag => i.tags[index]?

def InstanceEntity.exports (i : InstanceEntity) : List (String × Def) :=
  i.module.exports.filterMap fun (name, k, index) =>
    (i.exportAt k index).map fun h => (name, .extern_ h)

/-! ## The operations -/

/-- What happens in the process, operation by operation: the entry points of the embedder, and
what a running guest does with the references and types of its store.  `fits` stands for the
checks that have nothing to do with engines or stores. -/
inductive Op where
  | newStore (engine : ℕ)
  | newType (engine : ℕ) (id : CanonicalTypeId) (parts : List HostValType)
  | funcNew (st : ℕ) (ty : TypeHandle)
  | funcWrap (st : ℕ) (id : CanonicalTypeId)
  | memoryNew (st : ℕ) (fits : Bool)
  | globalNew (st : ℕ) (ty : HostValType) (v : HostVal) (fits : Bool)
  | tableNew (st : ℕ) (ty : HostValType) (min : ℕ) (v : HostVal) (fits : Bool)
  | tagNew (st : ℕ) (ty : TypeHandle)
  | preNew (st : ℕ) (ty : TypeHandle)
  | objectNew (st pre : ℕ) (fields : List HostVal) (fits : Bool)
  | exnNew (st pre : ℕ) (tag : Handle) (fields : List HostVal) (fits : Bool)
  | read (st : ℕ) (h : Handle)
  | matchesTy (st : ℕ) (h : Handle) (ty : TypeHandle)
  | write (st : ℕ) (h : Handle) (k : ℕ) (vs : List HostVal) (fits : Bool)
  | call (st : ℕ) (f : Handle) (args : List HostVal) (fits : Bool)
  | hostReturn (st : ℕ) (results : List HostVal) (fits : Bool)
  | instanceNew (st : ℕ) (m : Module) (imports : List Handle) (linked : Bool) (upTo : ℕ)
  | linkerNew (engine : ℕ)
  | linkerShadowing (l : ℕ) (allow : Bool)
  | linkerDefine (l st : ℕ) (module name : String) (h : Handle)
  | linkerFuncNew (l : ℕ) (module name : String) (ty : TypeHandle)
  | linkerFuncWrap (l : ℕ) (module name : String) (id : CanonicalTypeId)
  | linkerInstance (l st : ℕ) (module : String) (inst : Handle)
  | linkerAlias (l : ℕ) (module name asModule asName : String)
  | linkerInstantiate (l st : ℕ) (m : Module) (linked : Bool) (upTo : ℕ)
  | linkerGet (l st : ℕ) (module name : String)
  | guestLoad (st src k : ℕ)
  | guestExtern (st inst : ℕ) (k : ExternKind) (index : ℕ)
  | guestStore (st dst k : ℕ) (operands : List ℕ)
  | guestNew (st inst type : ℕ) (operands : List ℕ)
  | guestThrow (st inst tag : ℕ) (operands : List ℕ)

/-- An operation inside one store. -/
def World.onStore (w : World) (st : ℕ) (f : Store → Store × Outcome) : World × Outcome :=
  match w.stores[st]? with
  | none => (w, .rejected)
  | some s => ({ w with stores := w.stores.set st (f s).1 }, (f s).2)

/-- An operation on one linker; `none` where it fails. -/
def World.onLinker (w : World) (l : ℕ) (f : Linker → Linker × Outcome) : World × Outcome :=
  match w.linkers[l]? with
  | none => (w, .rejected)
  | some k => ({ w with linkers := w.linkers.set l (f k).1 }, (f k).2)

/-- The values at positions of the operand stack. -/
def Store.picked (s : Store) (operands : List ℕ) : List HostVal :=
  operands.map fun i => (s.operands[i]?).join

def Store.push (s : Store) (vs : List HostVal) : Store := { s with operands := s.operands ++ vs }

/-- A reference rebuilt from a cell carries no store. -/
def unstamp (v : HostVal) : HostVal := v.map fun h => { h with stamped := false }

def step (op : Op) (w : World) : World × Outcome :=
  match op with
  | .newStore engine => ({ w with stores := w.stores ++ [⟨engine, [], [], []⟩] }, .ok)
  | .newType engine id parts =>
    if parts.all (valTypeBelongsToEngine · engine) then
      ({ w with types := w.types ++ [(⟨engine, id⟩, parts)] }, .ok)
    else (w, .rejected)
  | .funcNew st ty =>
    w.onStore st fun s => guarded (ty.engine = s.engine) s (s.alloc (.host ty))
  | .funcWrap st id => w.onStore st fun s => (s.alloc (.host ⟨s.engine, id⟩), .ok)
  | .memoryNew st fits => w.onStore st fun s => guarded fits s (s.alloc .memory)
  | .globalNew st ty v fits =>
    w.onStore st fun s => guarded (valTypeBelongsToEngine ty s.engine && checkVal st v && fits) s
      (s.alloc (.global ty v))
  | .tableNew st ty min v fits =>
    w.onStore st fun s => guarded (valTypeBelongsToEngine ty s.engine && checkVal st v && fits) s
      (s.alloc (.table ty (List.replicate min v)))
  | .tagNew st ty =>
    w.onStore st fun s => guarded (ty.engine = s.engine) s (s.alloc (.tag ty))
  | .preNew st ty =>
    match w.stores[st]? with
    | none => (w, .rejected)
    | some s =>
      if ty.engine = s.engine then ({ w with pres := w.pres ++ [⟨st, ty⟩] }, .ok)
      else (w, .rejected)
  | .objectNew st pre fields fits =>
    match w.pres[pre]? with
    | none => (w, .rejected)
    | some p => w.onStore st fun s =>
      guarded (p.store = st && fields.all (checkVal st) && fits) s (s.alloc (.object p.ty fields))
  | .exnNew st pre tag fields fits =>
    match w.pres[pre]? with
    | none => (w, .rejected)
    | some p => w.onStore st fun s =>
      guarded (p.store = st && checkHandle st tag && fields.all (checkVal st) && fits) s
        (s.alloc (.exn tag fields))
  | .read st h => w.onStore st fun s => guarded (checkHandle st h) s s
  | .matchesTy st h ty =>
    w.onStore st fun s => guarded (checkHandle st h && decide (ty.engine = s.engine)) s s
  | .write st h k vs fits =>
    w.onStore st fun s => guarded (checkHandle st h && vs.all (checkVal st) && fits) s
      (s.write h.index k vs)
  | .call st f args fits =>
    w.onStore st fun s => guarded (checkHandle st f && args.all (checkVal st) && fits) s
      (s.push args)
  | .hostReturn st results fits =>
    w.onStore st fun s => guarded (results.all (checkVal st) && fits) s (s.push results)
  | .instanceNew st m imports linked upTo => w.onStore st (instantiate st m imports linked upTo)
  | .linkerNew engine => ({ w with linkers := w.linkers ++ [⟨engine, false, []⟩] }, .ok)
  | .linkerShadowing l allow =>
    w.onLinker l fun k => ({ k with allowShadowing := allow }, .ok)
  | .linkerDefine l _ module name h =>
    w.onLinker l fun k => k.insertAll module [(name, .extern_ h)]
  | .linkerFuncNew l module name ty => w.onLinker l fun k => k.insertAll module [(name, .host ty)]
  | .linkerFuncWrap l module name id =>
    w.onLinker l fun k => k.insertAll module [(name, .host ⟨k.engine, id⟩)]
  | .linkerInstance l st module inst =>
    match w.stores[st]? with
    | none => (w, .rejected)
    | some s =>
      match checkHandle st inst, s.instances[inst.index]? with
      | true, some i => w.onLinker l fun k => k.insertAll module i.exports
      | _, _ => (w, .rejected)
  | .linkerAlias l module name asModule asName =>
    w.onLinker l fun k =>
      match k.get module name with
      | none => (k, .rejected)
      | some d => k.insertAll asModule [(asName, d)]
  | .linkerInstantiate l st m linked upTo =>
    match w.linkers[l]? with
    | none => (w, .rejected)
    | some k => w.onStore st (k.instantiate st m linked upTo)
  | .linkerGet l st module name =>
    match w.linkers[l]? with
    | none => (w, .rejected)
    | some k => w.onStore st fun s =>
      ((k.resolve st s module name).2,
        if (k.resolve st s module name).1.isSome then .ok else .rejected)
  | .guestLoad st src k =>
    w.onStore st fun s =>
      (s.push [unstamp (((s.entities[src]?).bind fun e => e.values[k]?).join)], .ok)
  | .guestExtern st inst k index =>
    w.onStore st fun s =>
      (s.push [unstamp ((s.instances[inst]?).bind fun i => i.exportAt k index)], .ok)
  | .guestStore st dst k operands =>
    w.onStore st fun s => (s.write dst k (s.picked operands), .ok)
  | .guestNew st inst type operands =>
    w.onStore st fun s =>
      match (s.instances[inst]?).bind fun i => i.module.typeHandle type with
      | none => (s, .rejected)
      | some ty => (s.alloc (.object ty (s.picked operands)), .ok)
  | .guestThrow st inst tag operands =>
    w.onStore st fun s =>
      match (s.instances[inst]?).bind fun i => i.tags[tag]? with
      | none => (s, .rejected)
      | some t => (s.alloc (.exn t (s.picked operands)), .ok)

/-! ## What an operation mixes -/

def World.preEngine (w : World) (pre : ℕ) : Option ℕ := (w.pres[pre]?).map fun p => p.ty.engine

/-- The handles an operation is given. -/
def Op.handles : Op → List Handle
  | .globalNew _ _ v _ => v.toList
  | .tableNew _ _ _ v _ => v.toList
  | .objectNew _ _ fields _ => fields.reduceOption
  | .exnNew _ _ tag fields _ => tag :: fields.reduceOption
  | .read _ h => [h]
  | .matchesTy _ h _ => [h]
  | .write _ h _ vs _ => h :: vs.reduceOption
  | .call _ f args _ => f :: args.reduceOption
  | .hostReturn _ results _ => results.reduceOption
  | .instanceNew _ _ imports _ _ => imports
  | .linkerDefine _ _ _ _ h => [h]
  | .linkerInstance _ _ _ inst => [inst]
  | _ => []

/-- The engines of the other things an operation is given; `none` for what is not there. -/
def Op.given (w : World) : Op → List (Option ℕ)
  | .newType engine _ parts => some engine :: (parts.flatMap HostValType.types).map (some ·.engine)
  | .funcNew st ty => [w.engineOf st, some ty.engine]
  | .globalNew st ty _ _ => w.engineOf st :: ty.types.map (some ·.engine)
  | .tableNew st ty _ _ _ => w.engineOf st :: ty.types.map (some ·.engine)
  | .tagNew st ty => [w.engineOf st, some ty.engine]
  | .preNew st ty => [w.engineOf st, some ty.engine]
  | .objectNew st pre _ _ => [w.engineOf st, w.preEngine pre]
  | .exnNew st pre _ _ _ => [w.engineOf st, w.preEngine pre]
  | .read st _ => [w.engineOf st]
  | .matchesTy st _ ty => [w.engineOf st, some ty.engine]
  | .write st _ _ _ _ => [w.engineOf st]
  | .call st _ _ _ => [w.engineOf st]
  | .hostReturn st _ _ => [w.engineOf st]
  | .instanceNew st m _ _ _ => [w.engineOf st, some m.engine]
  | .linkerDefine l st _ _ _ => [w.linkerEngine l, w.engineOf st]
  | .linkerFuncNew l _ _ ty => [w.linkerEngine l, some ty.engine]
  | .linkerInstance l st _ _ => [w.linkerEngine l, w.engineOf st]
  | .linkerInstantiate l st m _ _ => [w.linkerEngine l, w.engineOf st, some m.engine]
  | .linkerGet l st _ _ => [w.linkerEngine l, w.engineOf st]
  | _ => []

def Op.engines (w : World) (op : Op) : List (Option ℕ) :=
  op.given w ++ op.handles.map fun h => w.engineOf h.home

/-- Everything the operation is given belongs to the engine `e`. -/
def Agree (w : World) (op : Op) (e : ℕ) : Prop := ∀ x ∈ op.engines w, x = some e

/-- The operation is given things of two engines. -/
def Mixes (w : World) (op : Op) : Prop := ∃ x ∈ op.engines w, ∃ y ∈ op.engines w, x ≠ y

instance (w : World) (op : Op) : Decidable (Mixes w op) := by unfold Mixes; infer_instance

/-- The entry points that compare no engine. -/
def Op.unchecked : Op → Bool
  | .instanceNew _ _ _ _ _ => true
  | .linkerDefine _ _ _ _ _ => true
  | .linkerFuncNew _ _ _ _ => true
  | .linkerInstance _ _ _ _ => true
  | .linkerInstantiate _ _ _ _ _ => true
  | .linkerGet _ _ _ _ => true
  | _ => false

/-- A mix of engines that nothing looks for: at an entry point that compares none, or by a handle
that carries no store. -/
def Slips (w : World) (op : Op) : Prop :=
  Mixes w op ∧ (op.unchecked || op.handles.any (!·.stamped)) = true

instance (w : World) (op : Op) : Decidable (Slips w op) := by unfold Slips; infer_instance

/-! ## Bound to one engine -/

/-- The references are of stores of the engine `e`, `own` being the engine of a store. -/
def Of (own : ℕ → Option ℕ) (e : ℕ) (vs : List HostVal) : Prop :=
  ∀ h : Handle, some h ∈ vs → own h.home = some e

def HandlesOf (own : ℕ → Option ℕ) (e : ℕ) (hs : List Handle) : Prop :=
  ∀ h ∈ hs, own h.home = some e

/-- Every module, type and handle a store holds is of its engine. -/
structure Store.Bound (own : ℕ → Option ℕ) (s : Store) : Prop where
  types : ∀ e ∈ s.entities, ∀ ty ∈ e.types, ty.engine = s.engine
  values : ∀ e ∈ s.entities, Of own s.engine e.values
  modules : ∀ i ∈ s.instances, i.module.engine = s.engine
  externs : ∀ i ∈ s.instances, HandlesOf own s.engine i.handles
  elems : ∀ i ∈ s.instances, ∀ vs ∈ i.elems, Of own s.engine vs
  operands : Of own s.engine s.operands

def Def.Bound (own : ℕ → Option ℕ) (e : ℕ) : Def → Prop
  | .extern_ h => own h.home = some e
  | .host ty => ty.engine = e

/-- Every definition of a linker is of its engine. -/
def Linker.Bound (own : ℕ → Option ℕ) (l : Linker) : Prop :=
  ∀ d ∈ l.map, d.2.Bound own l.engine

/-- What the stores, the types, the pre-allocation handles and the linkers hold is of one engine
each. -/
structure World.Bound (w : World) : Prop where
  stores : ∀ s ∈ w.stores, s.Bound w.engineOf
  types : ∀ t ∈ w.types, ∀ part ∈ t.2, valTypeBelongsToEngine part t.1.engine = true
  pres : ∀ p ∈ w.pres, w.engineOf p.store = some p.ty.engine
  linkers : ∀ k ∈ w.linkers, k.Bound w.engineOf

theorem World.empty_bound : World.empty.Bound where
  stores _ hs := nomatch hs
  types _ ht := nomatch ht
  pres _ hp := nomatch hp
  linkers _ hk := nomatch hk

variable {own : ℕ → Option ℕ} {e : ℕ}

variable {fits : Bool} {v : HostVal} {vs fields : List HostVal} {s : Store} {c : Store → Bool}
  {ty : TypeHandle} {l pre : ℕ}

theorem Of.append {us : List HostVal} (hv : Of own e vs) (hu : Of own e us) :
    Of own e (vs ++ us) := by
  intro h hmem
  rcases List.mem_append.mp hmem with hmem | hmem
  · exact hv h hmem
  · exact hu h hmem

theorem Of.subset {us : List HostVal} (hv : Of own e vs) (h : us ⊆ vs) : Of own e us :=
  fun x hx => hv x (h hx)

theorem Of.nil : Of own e [] := fun _ h => nomatch h

theorem Of.cons {v : HostVal} {vs : List HostVal} (hv : ∀ h ∈ v, own h.home = some e)
    (hvs : Of own e vs) : Of own e (v :: vs) := by
  intro h hmem
  rcases List.mem_cons.mp hmem with rfl | hmem
  · exact hv h rfl
  · exact hvs h hmem

theorem Of.replicate (hv : ∀ h ∈ v, own h.home = some e) (n : ℕ) :
    Of own e (List.replicate n v) := by
  intro h hmem
  obtain rfl := (List.eq_of_mem_replicate hmem).symm
  exact hv h rfl

theorem Of.splice {xs : List HostVal} (hx : Of own e xs) (hv : Of own e vs) (k : ℕ) :
    Of own e (splice xs k vs) :=
  ((hx.subset (List.take_subset k xs)).append hv).append (hx.subset (List.drop_subset _ xs))

theorem Of.reduceOption (h : HandlesOf own e vs.reduceOption) : Of own e vs :=
  fun x hx => h x (List.reduceOption_mem_iff.mpr hx)

theorem HandlesOf.append {hs hs' : List Handle} (h : HandlesOf own e hs)
    (h' : HandlesOf own e hs') : HandlesOf own e (hs ++ hs') := by
  intro x hx
  rcases List.mem_append.mp hx with hx | hx
  · exact h x hx
  · exact h' x hx

theorem HandlesOf.single {h : Handle} (hh : own h.home = some e) : HandlesOf own e [h] := by
  intro x hx
  rw [List.mem_singleton.mp hx]
  exact hh

/-! ## Bound stores -/

namespace Store

variable {s : Store}

theorem Bound.alloc {x : Entity} (hs : s.Bound own) (ht : ∀ ty ∈ x.types, ty.engine = s.engine)
    (hv : Of own s.engine x.values) : (s.alloc x).Bound own where
  types y hy := by
    rcases List.mem_append.mp hy with hy | hy
    · exact hs.types y hy
    · rw [List.mem_singleton.mp hy]
      exact ht
  values y hy := by
    rcases List.mem_append.mp hy with hy | hy
    · exact hs.values y hy
    · rw [List.mem_singleton.mp hy]
      exact hv
  modules := hs.modules
  externs := hs.externs
  elems := hs.elems
  operands := hs.operands

variable {vs : List HostVal}

theorem Bound.push (hs : s.Bound own) (hv : Of own s.engine vs) :
    (s.push vs).Bound own where
  types := hs.types
  values := hs.values
  modules := hs.modules
  externs := hs.externs
  elems := hs.elems
  operands := hs.operands.append hv

theorem write_types (k : ℕ) (vs : List HostVal) (x : Entity) : (x.write k vs).types = x.types := by
  cases x <;> rfl

theorem write_values {x : Entity} {k : ℕ} (hx : Of own e x.values) (hv : Of own e vs) :
    Of own e (x.write k vs).values := by
  cases x with
  | table element elems => exact hx.splice hv k
  | object ty fields => exact hx.splice hv k
  | global content value =>
    cases vs with
    | nil => exact hx
    | cons v vs => exact hv.subset (List.cons_subset.mpr ⟨List.mem_cons_self, fun _ h => nomatch h⟩)
  | memory => exact hx
  | tag ty => exact hx
  | wasm inst => exact hx
  | host ty => exact hx
  | exn t args => exact hx

theorem Bound.write (hs : s.Bound own) (hv : Of own s.engine vs) (i k : ℕ) :
    (s.write i k vs).Bound own where
  types y hy := by
    obtain hx | ⟨x, hx, rfl⟩ := Slots.of_mem_modify hy
    · exact hs.types y hx
    · rw [write_types]
      exact hs.types x hx
  values y hy := by
    obtain hx | ⟨x, hx, rfl⟩ := Slots.of_mem_modify hy
    · exact hs.values y hx
    · exact write_values (hs.values x hx) hv
  modules := hs.modules
  externs := hs.externs
  elems := hs.elems
  operands := hs.operands

theorem Bound.addInstance {i : InstanceEntity} (hs : s.Bound own)
    (hm : i.module.engine = s.engine) (hh : HandlesOf own s.engine i.handles)
    (he : ∀ vs ∈ i.elems, Of own s.engine vs) :
    Bound own { s with instances := s.instances ++ [i] } where
  types := hs.types
  values := hs.values
  modules j hj := by
    rcases List.mem_append.mp hj with hj | hj
    · exact hs.modules j hj
    · rw [List.mem_singleton.mp hj]
      exact hm
  externs j hj := by
    rcases List.mem_append.mp hj with hj | hj
    · exact hs.externs j hj
    · rw [List.mem_singleton.mp hj]
      exact hh
  elems j hj := by
    rcases List.mem_append.mp hj with hj | hj
    · exact hs.elems j hj
    · rw [List.mem_singleton.mp hj]
      exact he
  operands := hs.operands

theorem Bound.picked (hs : s.Bound own) (operands : List ℕ) :
    Of own s.engine (s.picked operands) := by
  intro h hmem
  obtain ⟨i, _, hi⟩ := List.mem_map.mp hmem
  exact hs.operands h (List.mem_of_getElem? (Option.join_eq_some_iff.mp hi))

theorem Bound.globalValue (hs : s.Bound own) {g h : Handle} (hg : s.globalValue g = some h) :
    own h.home = some s.engine := by
  unfold Store.globalValue at hg
  split at hg
  · rename_i content value hx
    exact hs.values _ (List.mem_of_getElem? hx) h (List.mem_singleton.mpr hg.symm)
  · nomatch hg

end Store

/-! ## A bound instantiation -/

namespace Building

/-- The store and the index spaces of an instantiation are of the engine `e`. -/
structure Bound (own : ℕ → Option ℕ) (e : ℕ) (b : Building) : Prop where
  engine : b.store.engine = e
  store : b.store.Bound own
  funcs : HandlesOf own e b.funcs
  memories : HandlesOf own e b.memories
  globals : HandlesOf own e b.globals
  tables : HandlesOf own e b.tables
  tags : HandlesOf own e b.tags
  elems : ∀ vs ∈ b.elems, Of own e vs

variable {m : Module} {st : ℕ} {b : Building}

theorem typeHandle_engine {type : ℕ} {ty : TypeHandle} (h : m.typeHandle type = some ty) :
    ty.engine = m.engine := by
  obtain ⟨id, -, rfl⟩ := Option.map_eq_some_iff.mp h
  rfl

theorem valType_engine {type : Option ℕ} {ty : TypeHandle} (h : ty ∈ (m.valType type).types) :
    ty.engine = m.engine := by
  unfold Module.valType at h
  cases hb : type.bind m.typeHandle with
  | none =>
    rw [hb] at h
    nomatch h
  | some ty' =>
    rw [hb] at h
    obtain rfl := List.mem_singleton.mp h
    obtain ⟨i, -, hi⟩ := Option.bind_eq_some_iff.mp hb
    exact typeHandle_engine hi

theorem Bound.withStore {s : Store} (hb : b.Bound own e) (he : s.engine = e) (hs : s.Bound own) :
    Bound own e { b with store := s } :=
  ⟨he, hs, hb.funcs, hb.memories, hb.globals, hb.tables, hb.tags, hb.elems⟩

theorem Bound.alloc {x : Entity} (hb : b.Bound own e) (ht : ∀ ty ∈ x.types, ty.engine = e)
    (hv : Of own e x.values) : Bound own e { b with store := b.store.alloc x } := by
  refine hb.withStore hb.engine (hb.store.alloc ?_ ?_)
  · rw [hb.engine]
    exact ht
  · rw [hb.engine]
    exact hv

/-- An operator keeps the references on its stack within the engine. -/
theorem evalOp_bound {bs : Building × List HostVal} (hm : m.engine = e) (hst : own st = some e)
    (hb : bs.1.Bound own e) (hvs : Of own e bs.2) (op : ConstOp) :
    (evalOp m st bs op).1.Bound own e ∧ Of own e (evalOp m st bs op).2 := by
  cases op with
  | plain => exact ⟨hb, hvs.cons fun h hh => nomatch hh⟩
  | refFunc f => exact ⟨hb, hvs.cons fun h hh => hb.funcs h (List.mem_of_getElem? hh)⟩
  | globalGet g =>
    refine ⟨hb, hvs.cons fun h hh => ?_⟩
    obtain ⟨g', -, hg⟩ := Option.bind_eq_some_iff.mp hh
    have hval := hb.store.globalValue hg
    rwa [hb.engine] at hval
  | newObject type arity =>
    cases hty : m.typeHandle type with
    | none =>
      simp only [evalOp, hty]
      exact ⟨hb, hvs⟩
    | some ty =>
      simp only [evalOp, hty]
      refine ⟨hb.alloc ?_ (hvs.subset (List.take_subset _ _)), ?_⟩
      · intro ty' hty'
        rw [List.mem_singleton.mp hty', typeHandle_engine hty, hm]
      · refine Of.cons ?_ (hvs.subset (List.drop_subset _ _))
        intro h hh
        obtain rfl := Option.some.inj hh
        exact hst

theorem evalConst_bound (hm : m.engine = e) (hst : own st = some e) (hb : b.Bound own e)
    (ops : List ConstOp) : (b.evalConst m st ops).1.Bound own e ∧
      ∀ h ∈ (b.evalConst m st ops).2, own h.home = some e := by
  have hfold : ∀ bs : Building × List HostVal, bs.1.Bound own e → Of own e bs.2 →
      (ops.foldl (evalOp m st) bs).1.Bound own e ∧ Of own e (ops.foldl (evalOp m st) bs).2 := by
    induction ops with
    | nil => exact fun bs hbs hvs => ⟨hbs, hvs⟩
    | cons op ops ih =>
      intro bs hbs hvs
      obtain ⟨hbs', hvs'⟩ := evalOp_bound hm hst hbs hvs op
      exact ih _ hbs' hvs'
  obtain ⟨hb', hvs⟩ := hfold (b, []) hb Of.nil
  refine ⟨hb', fun h hh => hvs h ?_⟩
  exact List.mem_of_mem_head? (Option.join_eq_some_iff.mp hh)

theorem evalElem_bound (hm : m.engine = e) (hst : own st = some e)
    (items : List (List ConstOp)) : ∀ {b : Building}, b.Bound own e →
      (b.evalElem m st items).1.Bound own e ∧ Of own e (b.evalElem m st items).2 := by
  induction items with
  | nil => exact fun hb => ⟨hb, Of.nil⟩
  | cons ops rest ih =>
    intro b hb
    obtain ⟨hb1, hv⟩ := evalConst_bound hm hst hb ops
    obtain ⟨hb2, hvs⟩ := ih hb1
    exact ⟨hb2, hvs.cons hv⟩

theorem Bound.step (hm : m.engine = e) (hst : own st = some e) (hb : b.Bound own e)
    (x : BuildStep) : (b.step m st x).Bound own e := by
  cases x with
  | memory =>
    have h := hb.alloc (x := .memory) (fun ty hty => nomatch hty) Of.nil
    exact { h with memories := HandlesOf.append hb.memories (.single hst) }
  | tag type =>
    cases hty : m.typeHandle type with
    | none =>
      simp only [Building.step, hty]
      exact hb
    | some ty =>
      simp only [Building.step, hty]
      have h := hb.alloc (x := .tag ty) (fun ty' hty' => by
        rw [List.mem_singleton.mp hty', typeHandle_engine hty, hm]) Of.nil
      exact { h with tags := HandlesOf.append hb.tags (.single hst) }
  | func =>
    have h := hb.alloc (x := .wasm b.store.instances.length) (fun ty hty => nomatch hty) Of.nil
    exact { h with funcs := HandlesOf.append hb.funcs (.single hst) }
  | table t =>
    obtain ⟨hb1, hv⟩ := evalConst_bound hm hst hb t.init
    have h := hb1.alloc (x := .table (m.valType t.element)
      (List.replicate t.min (b.evalConst m st t.init).2))
      (fun ty hty => (valType_engine hty).trans hm) (.replicate hv t.min)
    exact { h with tables := HandlesOf.append hb1.tables (.single hst) }
  | global content init =>
    obtain ⟨hb1, hv⟩ := evalConst_bound hm hst hb init
    have h := hb1.alloc (x := .global (m.valType content) (b.evalConst m st init).2)
      (fun ty hty => (valType_engine hty).trans hm) (Of.cons hv Of.nil)
    exact { h with globals := HandlesOf.append hb1.globals (.single hst) }
  | evalElem items =>
    obtain ⟨hb1, hvs⟩ := evalElem_bound hm hst items hb
    refine { hb1 with elems := fun vs hmem => ?_ }
    rcases List.mem_append.mp hmem with hmem | hmem
    · exact hb1.elems vs hmem
    · rw [List.mem_singleton.mp hmem]
      exact hvs
  | inst =>
    refine hb.withStore hb.engine (hb.store.addInstance (hm.trans hb.engine.symm) ?_ ?_)
    · rw [hb.engine]
      exact (((HandlesOf.append hb.funcs hb.memories).append hb.globals).append
        hb.tables).append hb.tags
    · intro vs hvs
      obtain ⟨⟨segment, values⟩, hzip, rfl⟩ := List.mem_map.mp hvs
      rw [hb.engine]
      dsimp only
      by_cases hp : segment.mode = .passive
      · rw [if_pos hp]
        exact hb.elems values (List.of_mem_zip hzip).2
      · rw [if_neg hp]
        exact Of.nil
  | applyElem segment table offset =>
    cases hseg : b.elems[segment]? with
    | none =>
      simp only [Building.step, hseg]
      exact hb
    | some values =>
      cases htab : b.tables[table]? with
      | none =>
        simp only [Building.step, hseg, htab]
        exact hb
      | some h =>
        simp only [Building.step, hseg, htab]
        refine hb.withStore hb.engine (hb.store.write ?_ _ _)
        rw [hb.engine]
        exact hb.elems values (List.mem_of_getElem? hseg)

end Building

/-- An instantiation binds what it allocates to the engine of its module. -/
theorem instantiate_bound {st : ℕ} {m : Module} {imports : List Handle} {linked : Bool} {upTo : ℕ}
    (hs : s.Bound own) (hst : own st = some s.engine) (hm : m.engine = s.engine)
    (himports : HandlesOf own s.engine imports) :
    (instantiate st m imports linked upTo s).1.engine = s.engine ∧
      (instantiate st m imports linked upTo s).1.Bound own := by
  unfold instantiate
  by_cases hok : (m.imports.length = imports.length && imports.all (checkHandle st) &&
    linked) = true
  · rw [if_pos hok]
    have himported : ∀ k, HandlesOf own s.engine (m.imported imports k) := by
      intro k h hmem
      obtain ⟨⟨i, h'⟩, hzip, hk⟩ := List.mem_filterMap.mp hmem
      dsimp only at hk
      by_cases hkind : i.kind = k
      · rw [if_pos hkind] at hk
        obtain rfl := Option.some.inj hk
        exact himports _ (List.of_mem_zip hzip).2
      · rw [if_neg hkind] at hk
        nomatch hk
    have hrun : ∀ (done : List BuildStep) (b : Building), b.Bound own s.engine →
        (done.foldl (Building.step m st) b).Bound own s.engine := by
      intro done
      induction done with
      | nil => exact fun b hb => hb
      | cons x done ih => exact fun b hb => ih _ (hb.step hm hst x)
    have hb := hrun (m.buildSteps.take upTo) ⟨s, m.imported imports .func,
      m.imported imports .memory, m.imported imports .global, m.imported imports .table,
      m.imported imports .tag, []⟩ ⟨rfl, hs, himported _, himported _, himported _, himported _,
      himported _, fun vs h => nomatch h⟩
    exact ⟨hb.engine, hb.store⟩
  · rw [if_neg hok]
    exact ⟨rfl, hs⟩

/-! ## Bound linkers -/

namespace Linker

variable {l : Linker} {st : ℕ} {s : Store}

theorem Bound.get (hl : l.Bound own) {module name : String} {d : Def}
    (h : l.get module name = some d) : d.Bound own l.engine := by
  obtain ⟨x, hx, rfl⟩ := Option.map_eq_some_iff.mp h
  exact hl x (List.mem_of_find?_eq_some hx)

theorem Bound.insertAll {module : String} (ds : List (String × Def)) :
    ∀ {l : Linker}, l.Bound own → (∀ d ∈ ds, d.2.Bound own l.engine) →
      (l.insertAll module ds).1.Bound own := by
  induction ds with
  | nil => exact fun hl _ => hl
  | cons d ds ih =>
    intro l hl hds
    obtain ⟨name, d⟩ := d
    unfold Linker.insertAll Linker.insert
    by_cases hshadow : (!l.allowShadowing && (l.get module name).isSome) = true
    · rw [if_pos hshadow]
      exact hl
    · rw [if_neg hshadow]
      refine ih ?_ fun d' hd' => hds d' (List.mem_cons_of_mem _ hd')
      intro d' hd'
      rcases List.mem_cons.mp hd' with rfl | hd'
      · exact hds _ List.mem_cons_self
      · exact hl d' hd'

/-- A definition resolves to a handle of the engine, in a store that stays bound. -/
theorem resolve_bound (hl : l.Bound own) (hs : s.Bound own) (hst : own st = some s.engine)
    (he : l.engine = s.engine) (module name : String) :
    (l.resolve st s module name).2.engine = s.engine ∧
      (l.resolve st s module name).2.Bound own ∧
      ∀ h ∈ (l.resolve st s module name).1, own h.home = some s.engine := by
  unfold Linker.resolve
  cases hget : l.get module name with
  | none => exact ⟨rfl, hs, fun h hh => nomatch hh⟩
  | some d =>
    have hd := hl.get hget
    rw [he] at hd
    cases d with
    | extern_ h =>
      refine ⟨rfl, hs, fun h' hh => ?_⟩
      obtain rfl := Option.some.inj hh
      exact hd
    | host ty =>
      refine ⟨rfl, hs.alloc (x := .host ty) (fun ty' hty => ?_) Of.nil, fun h hh => ?_⟩
      · rw [List.mem_singleton.mp hty]
        exact hd
      · obtain rfl := Option.some.inj hh
        exact hst

theorem resolveAll_bound (hl : l.Bound own) (he : own st = some l.engine) (is : List Import) :
    ∀ {s : Store}, s.Bound own → s.engine = l.engine →
      (l.resolveAll st is s).2.engine = l.engine ∧ (l.resolveAll st is s).2.Bound own ∧
        ∀ hs ∈ (l.resolveAll st is s).1, HandlesOf own l.engine hs := by
  induction is with
  | nil =>
    intro s hs hse
    refine ⟨hse, hs, fun hs' hh => ?_⟩
    obtain rfl := Option.some.inj hh
    exact fun h hmem => nomatch hmem
  | cons i is ih =>
    intro s hs hse
    obtain ⟨he1, hb1, hh1⟩ := resolve_bound hl hs (hse ▸ he) hse.symm i.module i.name
    unfold Linker.resolveAll
    generalize hr : l.resolve st s i.module i.name = r at he1 hb1 hh1
    obtain ⟨_ | h, s1⟩ := r
    · exact ⟨he1.trans hse, hb1, fun hs' hh => nomatch hh⟩
    · obtain ⟨he2, hb2, hh2⟩ := ih hb1 (he1.trans hse)
      refine ⟨he2, hb2, fun hs' hh => ?_⟩
      obtain ⟨hs1, hmem, rfl⟩ := Option.map_eq_some_iff.mp hh
      intro x hx
      rcases List.mem_cons.mp hx with rfl | hx
      · exact hse ▸ hh1 x rfl
      · exact hh2 hs1 hmem x hx

theorem instantiate_bound {m : Module} {linked : Bool} {upTo : ℕ} (hl : l.Bound own)
    (hs : s.Bound own) (hst : own st = some s.engine) (he : l.engine = s.engine)
    (hm : m.engine = s.engine) : (l.instantiate st m linked upTo s).1.engine = s.engine ∧
      (l.instantiate st m linked upTo s).1.Bound own := by
  obtain ⟨he1, hb1, hh1⟩ := resolveAll_bound hl (he ▸ hst) m.imports hs he.symm
  unfold Linker.instantiate
  generalize hr : l.resolveAll st m.imports s = r at he1 hb1 hh1
  obtain ⟨_ | imports, s1⟩ := r
  · exact ⟨he1.trans he, hb1⟩
  · have he2 : s1.engine = s.engine := he1.trans he
    have hst1 : own st = some s1.engine := he2 ▸ hst
    have hh : HandlesOf own s1.engine imports := he1 ▸ hh1 imports rfl
    refine ⟨?_, ?_⟩
    · exact (Engines.instantiate_bound hb1 hst1 (hm.trans he2.symm) hh).1.trans he2
    · exact (Engines.instantiate_bound hb1 hst1 (hm.trans he2.symm) hh).2

end Linker

/-! ## One operation -/

namespace World

variable {w : World} {st : ℕ}

theorem engineOf_set {s s' : Store} (hs : w.stores[st]? = some s) (he : s'.engine = s.engine) :
    engineOf { w with stores := w.stores.set st s' } = w.engineOf := by
  funext n
  unfold engineOf
  by_cases hn : st = n
  · subst hn
    rw [List.getElem?_set_self (List.getElem?_eq_some_iff.mp hs).1, hs]
    exact congrArg some he
  · rw [List.getElem?_set_ne hn]

theorem Bound.onStore {f : Store → Store × Outcome} (hw : w.Bound)
    (h : ∀ s, s.Bound w.engineOf → w.engineOf st = some s.engine →
      (f s).1.engine = s.engine ∧ (f s).1.Bound w.engineOf) : (w.onStore st f).1.Bound := by
  unfold World.onStore
  cases hs : w.stores[st]? with
  | none => exact hw
  | some s =>
    obtain ⟨he, hb⟩ := h s (hw.stores s (List.mem_of_getElem? hs)) (by rw [engineOf, hs]; rfl)
    have hown := engineOf_set (w := w) hs he
    refine ⟨fun s' hs' => ?_, hw.types, fun p hp => ?_, fun k hk => ?_⟩
    · rw [hown]
      rcases List.mem_or_eq_of_mem_set hs' with hs' | rfl
      · exact hw.stores s' hs'
      · exact hb
    · rw [hown]
      exact hw.pres p hp
    · rw [hown]
      exact hw.linkers k hk

theorem Bound.onLinker {l : ℕ} {f : Linker → Linker × Outcome} (hw : w.Bound)
    (h : ∀ k, k.Bound w.engineOf → w.linkerEngine l = some k.engine →
      (f k).1.Bound w.engineOf) : (w.onLinker l f).1.Bound := by
  unfold World.onLinker
  cases hk : w.linkers[l]? with
  | none => exact hw
  | some k =>
    refine ⟨hw.stores, hw.types, hw.pres, fun k' hk' => ?_⟩
    rcases List.mem_or_eq_of_mem_set hk' with hk' | rfl
    · exact hw.linkers k' hk'
    · exact h k (hw.linkers k (List.mem_of_getElem? hk)) (by rw [linkerEngine, hk]; rfl)

/-- A checked operation leaves the world as it is unless the check passes. -/
theorem onStore_guarded (w : World) (st : ℕ) (c : Store → Bool) (f : Store → Store) :
    (w.onStore st fun s => guarded (c s) s (f s)) = (w, .rejected) ∨
      ∃ s, w.engineOf st = some s.engine ∧ c s = true := by
  unfold World.onStore
  cases hs : w.stores[st]? with
  | none => exact .inl rfl
  | some s =>
    by_cases hc : c s = true
    · exact .inr ⟨s, by rw [engineOf, hs]; rfl, hc⟩
    · left
      have hset : w.stores.set st s = w.stores := by
        obtain ⟨hlt, hget⟩ := List.getElem?_eq_some_iff.mp hs
        rw [← hget]
        exact List.set_getElem_self hlt
      simp only [guarded, if_neg hc, hset]

end World

theorem guarded_bound {c : Bool} {s' : Store} (hs : s.Bound own) (he : s'.engine = s.engine)
    (hs' : s'.Bound own) : (guarded c s s').1.engine = s.engine ∧ (guarded c s s').1.Bound own := by
  cases c with
  | false => exact ⟨rfl, hs⟩
  | true => exact ⟨he, hs'⟩

/-! ### Agreement -/

variable {w : World} {op : Op} {st : ℕ}

theorem Agree.given (h : Agree w op e) {x : Option ℕ} (hx : x ∈ op.given w) : x = some e :=
  h x (List.mem_append_left _ hx)

theorem Agree.handle (h : Agree w op e) {x : Handle} (hx : x ∈ op.handles) :
    w.engineOf x.home = some e :=
  h _ (List.mem_append_right _ (List.mem_map_of_mem hx))

theorem Agree.not_mixes (h : Agree w op e) : ¬Mixes w op := by
  rintro ⟨x, hx, y, hy, hne⟩
  exact hne ((h x hx).trans (h y hy).symm)

theorem agree_of_not_mixes (h : ¬Mixes w op) (he : some e ∈ op.engines w) : Agree w op e := by
  intro x hx
  by_contra hne
  exact h ⟨x, hx, some e, he, hne⟩

theorem agree_of_unchecked (h : ¬Slips w op) (hop : op.unchecked = true)
    (he : some e ∈ op.given w) : Agree w op e := by
  refine agree_of_not_mixes (fun hm => h ⟨hm, ?_⟩) (List.mem_append_left _ he)
  rw [hop]
  rfl

/-- A stamped handle that passes the check is of the store itself, so an operation that checks
all its handles and all else it is given mixes nothing but by a handle without a store. -/
theorem agree_of_checked (h : ¬Slips w op) (hst : w.engineOf st = some e)
    (hmem : w.engineOf st ∈ op.given w) (hgiven : ∀ x ∈ op.given w, x = some e)
    (hchk : ∀ x ∈ op.handles, checkHandle st x = true) : Agree w op e := by
  by_cases hany : op.handles.any (!·.stamped) = true
  · refine agree_of_not_mixes (fun hm => h ⟨hm, ?_⟩) ?_
    · rw [hany, Bool.or_true]
    · rw [← hst]
      exact List.mem_append_left _ hmem
  · intro x hx
    rcases List.mem_append.mp hx with hx | hx
    · exact hgiven x hx
    · obtain ⟨y, hy, rfl⟩ := List.mem_map.mp hx
      have hstamped : y.stamped = true := by
        by_contra hn
        exact hany (List.any_eq_true.mpr ⟨y, hy, by rw [Bool.eq_false_of_not_eq_true hn]; rfl⟩)
      have hhome := hchk y hy
      rw [checkHandle, hstamped, Bool.not_true, Bool.false_or, decide_eq_true_eq] at hhome
      rw [hhome]
      exact hst

theorem checked_values (h : vs.all (checkVal st) = true) :
    ∀ x ∈ vs.reduceOption, checkHandle st x = true := by
  intro x hx
  exact List.all_eq_true.mp h _ (List.reduceOption_mem_iff.mp hx)

theorem checked_value (h : checkVal st v = true) : ∀ x ∈ v.toList, checkHandle st x = true := by
  intro x hx
  obtain rfl := Option.mem_toList.mp hx
  exact h

theorem belongs_types {ty : HostValType} (h : valTypeBelongsToEngine ty e = true) :
    ∀ x ∈ ty.types.map (some ·.engine), x = some e := by
  cases ty with
  | plain => exact fun x hx => nomatch hx
  | concrete ty =>
    intro x hx
    rw [List.mem_singleton.mp hx]
    exact congrArg some (of_decide_eq_true h)

/-- The given engines of an operation on a store and a type. -/
theorem pair_given {a b : Option ℕ} (ha : a = some e) (hb : b = some e) :
    ∀ x ∈ [a, b], x = some e := by
  intro x hx
  rcases List.mem_cons.mp hx with rfl | hx
  · exact ha
  · rw [List.mem_singleton.mp hx]
    exact hb

theorem single_given {a : Option ℕ} (ha : a = some e) : ∀ x ∈ [a], x = some e := by
  intro x hx
  rw [List.mem_singleton.mp hx]
  exact ha

/-- An operation of a store behind a check that makes all it is given the store's. -/
theorem guarded_or_agree (h : ¬Slips w op) {f : Store → Store}
    (hop : step op w = w.onStore st fun s => guarded (c s) s (f s))
    (hmem : w.engineOf st ∈ op.given w) (hall : ∀ s, w.engineOf st = some s.engine → c s = true →
      (∀ x ∈ op.given w, x = some s.engine) ∧ ∀ x ∈ op.handles, checkHandle st x = true) :
    step op w = (w, .rejected) ∨ ∃ e, Agree w op e := by
  rcases w.onStore_guarded st c f with hr | ⟨s, hst, hc⟩
  · exact .inl (hop.trans hr)
  · obtain ⟨hgiven, hchk⟩ := hall s hst hc
    exact .inr ⟨s.engine, agree_of_checked h hst hmem hgiven hchk⟩

/-- A type is made of types of its engine, or refused. -/
theorem newType_or_agree {engine : ℕ} {id : CanonicalTypeId} {parts : List HostValType} :
    step (.newType engine id parts) w = (w, .rejected) ∨
      ∃ e, Agree w (.newType engine id parts) e := by
  by_cases hp : parts.all (valTypeBelongsToEngine · engine) = true
  · refine .inr ⟨engine, fun x hx => ?_⟩
    rcases List.mem_append.mp hx with hx | hx
    · rcases List.mem_cons.mp hx with rfl | hx
      · rfl
      · obtain ⟨ty, hty, rfl⟩ := List.mem_map.mp hx
        obtain ⟨part, hpart, hmem⟩ := List.mem_flatMap.mp hty
        exact belongs_types (List.all_eq_true.mp hp part hpart) _ (List.mem_map_of_mem hmem)
    · nomatch hx
  · left
    simp only [step, if_neg hp]

theorem preNew_or_agree (h : ¬Slips w (.preNew st ty)) :
    step (.preNew st ty) w = (w, .rejected) ∨ ∃ e, Agree w (.preNew st ty) e := by
  cases hs : w.stores[st]? with
  | none =>
    left
    simp only [step, hs]
  | some s =>
    by_cases he : ty.engine = s.engine
    · have hst : w.engineOf st = some s.engine := by rw [World.engineOf, hs]; rfl
      exact .inr ⟨s.engine, agree_of_checked h hst List.mem_cons_self
        (pair_given hst (congrArg some he)) fun x hx => nomatch hx⟩
    · left
      simp only [step, hs, if_neg he]

/-- A pre-allocation handle of the store itself has the store's engine. -/
theorem World.Bound.preEngine (hw : w.Bound) {p : Pre} (hp : w.pres[pre]? = some p) :
    w.preEngine pre = w.engineOf p.store := by
  rw [World.preEngine, hp]
  exact (hw.pres p (List.mem_of_getElem? hp)).symm

theorem objectNew_or_agree (hw : w.Bound) (h : ¬Slips w (.objectNew st pre fields fits)) :
    step (.objectNew st pre fields fits) w = (w, .rejected) ∨
      ∃ e, Agree w (.objectNew st pre fields fits) e := by
  cases hp : w.pres[pre]? with
  | none =>
    left
    simp only [step, hp]
  | some p =>
    refine guarded_or_agree h (by simp only [step, hp]; rfl) List.mem_cons_self fun s hst hc => ?_
    simp only [Bool.and_eq_true, decide_eq_true_eq] at hc
    obtain ⟨⟨rfl, hfields⟩, -⟩ := hc
    exact ⟨pair_given hst ((hw.preEngine hp).trans hst), checked_values hfields⟩

theorem exnNew_or_agree (hw : w.Bound) {tag : Handle}
    (h : ¬Slips w (.exnNew st pre tag fields fits)) :
    step (.exnNew st pre tag fields fits) w = (w, .rejected) ∨
      ∃ e, Agree w (.exnNew st pre tag fields fits) e := by
  cases hp : w.pres[pre]? with
  | none =>
    left
    simp only [step, hp]
  | some p =>
    refine guarded_or_agree h (by simp only [step, hp]; rfl) List.mem_cons_self fun s hst hc => ?_
    simp only [Bool.and_eq_true, decide_eq_true_eq] at hc
    obtain ⟨⟨⟨rfl, htag⟩, hfields⟩, -⟩ := hc
    exact ⟨pair_given hst ((hw.preEngine hp).trans hst),
      List.forall_mem_cons.mpr ⟨htag, checked_values hfields⟩⟩

/-- An operation of a linker that compares nothing is rejected without the linker. -/
theorem linker_or_agree (h : ¬Slips w op) (hop : op.unchecked = true)
    (hmem : w.linkerEngine l ∈ op.given w)
    (hnone : w.linkers[l]? = none → step op w = (w, .rejected)) :
    step op w = (w, .rejected) ∨ ∃ e, Agree w op e := by
  cases hl : w.linkers[l]? with
  | none => exact .inl (hnone hl)
  | some k =>
    have hk : w.linkerEngine l = some k.engine := by rw [World.linkerEngine, hl]; rfl
    exact .inr ⟨k.engine, agree_of_unchecked h hop (hk ▸ hmem)⟩

/-- An operation that does not slip is rejected and changes nothing, or all it is given is of one
engine. -/
theorem rejected_or_agree (hw : w.Bound) (h : ¬Slips w op) :
    step op w = (w, .rejected) ∨ ∃ e, Agree w op e := by
  cases op with
  | newStore | funcWrap | memoryNew | linkerNew | linkerShadowing | linkerFuncWrap | linkerAlias
  | guestLoad | guestExtern | guestStore | guestNew | guestThrow =>
    exact .inr ⟨0, fun x hx => nomatch hx⟩
  | newType => exact newType_or_agree
  | funcNew st ty | tagNew st ty =>
    exact guarded_or_agree h rfl List.mem_cons_self fun s hst hc =>
      ⟨pair_given hst (congrArg some (of_decide_eq_true hc)), fun x hx => nomatch hx⟩
  | globalNew st ty v fits | tableNew st ty min v fits =>
    refine guarded_or_agree h rfl List.mem_cons_self fun s hst hc => ?_
    simp only [Bool.and_eq_true] at hc
    exact ⟨List.forall_mem_cons.mpr ⟨hst, belongs_types hc.1.1⟩, checked_value hc.1.2⟩
  | preNew => exact preNew_or_agree h
  | objectNew => exact objectNew_or_agree hw h
  | exnNew => exact exnNew_or_agree hw h
  | read st x =>
    exact guarded_or_agree (f := id) h rfl List.mem_cons_self fun s hst hc =>
      ⟨single_given hst, List.forall_mem_cons.mpr ⟨hc, fun x hx => nomatch hx⟩⟩
  | matchesTy st x ty =>
    refine guarded_or_agree (f := id) h rfl List.mem_cons_self fun s hst hc => ?_
    simp only [Bool.and_eq_true, decide_eq_true_eq] at hc
    exact ⟨pair_given hst (congrArg some hc.2),
      List.forall_mem_cons.mpr ⟨hc.1, fun x hx => nomatch hx⟩⟩
  | write st x k vs fits | call st x vs fits =>
    refine guarded_or_agree h rfl List.mem_cons_self fun s hst hc => ?_
    simp only [Bool.and_eq_true] at hc
    exact ⟨single_given hst, List.forall_mem_cons.mpr ⟨hc.1.1, checked_values hc.1.2⟩⟩
  | hostReturn st results fits =>
    refine guarded_or_agree h rfl List.mem_cons_self fun s hst hc => ?_
    simp only [Bool.and_eq_true] at hc
    exact ⟨single_given hst, checked_values hc.1⟩
  | instanceNew st m imports linked upTo =>
    exact .inr ⟨m.engine, agree_of_unchecked h rfl (List.mem_cons_of_mem _ List.mem_cons_self)⟩
  | linkerFuncNew l module name ty =>
    exact .inr ⟨ty.engine, agree_of_unchecked h rfl (List.mem_cons_of_mem _ List.mem_cons_self)⟩
  | linkerInstantiate l st m linked upTo =>
    exact .inr ⟨m.engine, agree_of_unchecked h rfl
      (List.mem_cons_of_mem _ (List.mem_cons_of_mem _ List.mem_cons_self))⟩
  | linkerDefine l st module name x =>
    exact linker_or_agree h rfl List.mem_cons_self fun hl => by simp only [step, World.onLinker, hl]
  | linkerGet l st module name =>
    exact linker_or_agree h rfl List.mem_cons_self fun hl => by simp only [step, hl]
  | linkerInstance l st module inst =>
    cases hs : w.stores[st]? with
    | none =>
      left
      simp only [step, hs]
    | some s =>
      refine .inr ⟨s.engine, agree_of_unchecked h rfl
        (List.mem_cons_of_mem _ (List.mem_cons.mpr (.inl ?_)))⟩
      rw [World.engineOf, hs]
      rfl

/-! ### The step lemma -/

theorem unstamp_home (h : ∀ x ∈ v, own x.home = some e) : ∀ x ∈ unstamp v, own x.home = some e := by
  intro x hx
  obtain ⟨y, hy, rfl⟩ := Option.map_eq_some_iff.mp hx
  exact h y hy

theorem exportAt_mem {i : InstanceEntity} {k : ExternKind} {index : ℕ} {h : Handle}
    (hh : i.exportAt k index = some h) : h ∈ i.handles := by
  unfold InstanceEntity.handles
  simp only [List.mem_append]
  cases k with
  | func => exact .inl (.inl (.inl (.inl (List.mem_of_getElem? hh))))
  | memory => exact .inl (.inl (.inl (.inr (List.mem_of_getElem? hh))))
  | global => exact .inl (.inl (.inr (List.mem_of_getElem? hh)))
  | table => exact .inl (.inr (List.mem_of_getElem? hh))
  | tag => exact .inr (List.mem_of_getElem? hh)

/-- A type of an instance's module is of the engine of the store. -/
theorem Store.Bound.typeHandle (hs : s.Bound own) {inst type : ℕ}
    (h : ((s.instances[inst]?).bind fun i => i.module.typeHandle type) = some ty) :
    ty.engine = s.engine := by
  obtain ⟨i, hi, hty⟩ := Option.bind_eq_some_iff.mp h
  exact (Building.typeHandle_engine hty).trans (hs.modules i (List.mem_of_getElem? hi))

theorem Agree.values (ha : Agree w op e) (hop : ∀ x ∈ vs.reduceOption, x ∈ op.handles) :
    Of w.engineOf e vs :=
  Of.reduceOption fun _ hx => ha.handle (hop _ hx)

theorem store_engine (ha : w.engineOf st = some e) (hst : w.engineOf st = some s.engine) :
    e = s.engine :=
  Option.some.inj (ha.symm.trans hst)

/-- A new store holds nothing, and the others keep their engines. -/
theorem newStore_bound (hw : w.Bound) (engine : ℕ) : (step (.newStore engine) w).1.Bound := by
  have hgrow : ∀ n x, w.engineOf n = some x →
      (step (.newStore engine) w).1.engineOf n = some x := by
    intro n x hn
    obtain ⟨s, hs, rfl⟩ := Option.map_eq_some_iff.mp hn
    show ((w.stores ++ [_])[n]?).map _ = _
    rw [List.getElem?_append_left (List.getElem?_eq_some_iff.mp hs).1, hs]
    rfl
  refine ⟨fun s hs => ?_, hw.types, fun p hp => hgrow _ _ (hw.pres p hp), fun k hk d hd => ?_⟩
  · rcases List.mem_append.mp hs with hs | hs
    · have hb := hw.stores s hs
      exact ⟨hb.types, fun x hx h hh => hgrow _ _ (hb.values x hx h hh), hb.modules,
        fun i hi h hh => hgrow _ _ (hb.externs i hi h hh),
        fun i hi vs hvs h hh => hgrow _ _ (hb.elems i hi vs hvs h hh),
        fun h hh => hgrow _ _ (hb.operands h hh)⟩
    · rw [List.mem_singleton.mp hs]
      exact ⟨fun x hx => (nomatch hx), fun x hx => (nomatch hx), fun i hi => (nomatch hi),
        fun i hi => (nomatch hi), fun i hi => (nomatch hi), Of.nil⟩
  · have hdef := hw.linkers k hk d hd
    cases hd2 : d.2 with
    | extern_ h =>
      rw [hd2] at hdef
      exact hgrow _ _ hdef
    | host ty =>
      rw [hd2] at hdef
      exact hdef

theorem newType_bound (hw : w.Bound) (engine : ℕ) (id : CanonicalTypeId)
    (parts : List HostValType) : (step (.newType engine id parts) w).1.Bound := by
  by_cases hp : parts.all (valTypeBelongsToEngine · engine) = true
  · simp only [step, if_pos hp]
    refine ⟨hw.stores, fun t ht => ?_, hw.pres, hw.linkers⟩
    rcases List.mem_append.mp ht with ht | ht
    · exact hw.types t ht
    · rw [List.mem_singleton.mp ht]
      exact List.all_eq_true.mp hp
  · simp only [step, if_neg hp]
    exact hw

theorem preNew_bound (hw : w.Bound) (st : ℕ) (ty : TypeHandle) :
    (step (.preNew st ty) w).1.Bound := by
  cases hs : w.stores[st]? with
  | none =>
    simp only [step, hs]
    exact hw
  | some s =>
    by_cases he : ty.engine = s.engine
    · simp only [step, hs, if_pos he]
      refine ⟨hw.stores, hw.types, fun p hp => ?_, hw.linkers⟩
      rcases List.mem_append.mp hp with hp | hp
      · exact hw.pres p hp
      · rw [List.mem_singleton.mp hp, he]
        exact congrArg (Option.map Store.engine) hs
    · simp only [step, hs, if_neg he]
      exact hw

/-- An entity of one type, which the store has compared with its engine. -/
theorem typed_bound (hw : w.Bound) (ha : Agree w op e) {x : Entity}
    (hgiven : op.given w = [w.engineOf st, some ty.engine]) (hx : x.types = [ty] ∧ x.values = []) :
    (w.onStore st fun s => guarded (c s) s (s.alloc x)).1.Bound := by
  have h1 : w.engineOf st = some e := ha.given (hgiven ▸ List.mem_cons_self)
  have h2 : some ty.engine = some e :=
    ha.given (hgiven ▸ List.mem_cons_of_mem _ List.mem_cons_self)
  refine hw.onStore fun s hs hst => guarded_bound hs rfl (hs.alloc ?_ (hx.2 ▸ Of.nil))
  rw [← store_engine h1 hst, ← Option.some.inj h2, hx.1]
  exact fun ty' hty => congrArg _ (List.mem_singleton.mp hty)

/-- A cell of a global or a table, whose type and value are of the store's engine. -/
theorem cell_bound (hw : w.Bound) (ha : Agree w op e) {ty : HostValType} {x : Entity}
    (hgiven : op.given w = w.engineOf st :: ty.types.map (some ·.engine))
    (hhandles : op.handles = v.toList) (htypes : x.types = ty.types)
    (hvalues : ∀ {own e}, (∀ h ∈ v, own h.home = some e) → Of own e x.values) :
    (w.onStore st fun s => guarded (c s) s (s.alloc x)).1.Bound := by
  have h1 : w.engineOf st = some e := ha.given (hgiven ▸ List.mem_cons_self)
  refine hw.onStore fun s hs hst => guarded_bound hs rfl (hs.alloc ?_ ?_)
  all_goals obtain rfl := store_engine h1 hst
  · intro ty' hty
    rw [htypes] at hty
    exact Option.some.inj
      (ha.given (hgiven ▸ List.mem_cons_of_mem _ (List.mem_map_of_mem hty)))
  · exact hvalues fun h hh => ha.handle (hhandles ▸ Option.mem_toList.mpr hh)

theorem objectNew_bound (hw : w.Bound) (ha : Agree w (.objectNew st pre fields fits) e) :
    (step (.objectNew st pre fields fits) w).1.Bound := by
  cases hp : w.pres[pre]? with
  | none =>
    simp only [step, hp]
    exact hw
  | some p =>
    simp only [step, hp]
    refine hw.onStore fun s hs hst =>
      guarded_bound hs rfl (hs.alloc (x := .object p.ty fields) ?_ ?_)
    all_goals obtain rfl := store_engine (ha.given List.mem_cons_self) hst
    · intro ty hty
      rw [List.mem_singleton.mp hty]
      have hpre := ha.given (List.mem_cons_of_mem _ List.mem_cons_self)
      rw [World.preEngine, hp] at hpre
      exact Option.some.inj hpre
    · exact ha.values fun x hx => hx

theorem exnNew_bound (hw : w.Bound) {tag : Handle}
    (ha : Agree w (.exnNew st pre tag fields fits) e) :
    (step (.exnNew st pre tag fields fits) w).1.Bound := by
  cases hp : w.pres[pre]? with
  | none =>
    simp only [step, hp]
    exact hw
  | some p =>
    simp only [step, hp]
    refine hw.onStore fun s hs hst =>
      guarded_bound hs rfl (hs.alloc (x := .exn tag fields) (fun ty hty => nomatch hty) ?_)
    obtain rfl := store_engine (ha.given List.mem_cons_self) hst
    refine Of.cons ?_ (ha.values fun x hx => List.mem_cons_of_mem _ hx)
    intro h hh
    obtain rfl := Option.some.inj hh
    exact ha.handle List.mem_cons_self

theorem linkerNew_bound (hw : w.Bound) (engine : ℕ) : (step (.linkerNew engine) w).1.Bound := by
  refine ⟨hw.stores, hw.types, hw.pres, fun k hk => ?_⟩
  rcases List.mem_append.mp hk with hk | hk
  · exact hw.linkers k hk
  · rw [List.mem_singleton.mp hk]
    exact fun d hd => nomatch hd

/-- The exports of an instance are the store's, so a linker of its engine may have them. -/
theorem linkerInstance_bound (hw : w.Bound) {module : String} {inst : Handle}
    (ha : Agree w (.linkerInstance l st module inst) e) :
    (step (.linkerInstance l st module inst) w).1.Bound := by
  cases hs : w.stores[st]? with
  | none =>
    simp only [step, hs]
    exact hw
  | some s =>
    cases hc : checkHandle st inst with
    | false =>
      simp only [step, hs, hc]
      exact hw
    | true =>
      cases hi : s.instances[inst.index]? with
      | none =>
        simp only [step, hs, hc, hi]
        exact hw
      | some i =>
        simp only [step, hs, hc, hi]
        refine hw.onLinker fun k hk hke => hk.insertAll _ fun d hd => ?_
        have he : e = k.engine := Option.some.inj ((ha.given List.mem_cons_self).symm.trans hke)
        have hse : e = s.engine :=
          store_engine (ha.given (List.mem_cons_of_mem _ List.mem_cons_self))
            (congrArg (Option.map Store.engine) hs)
        obtain ⟨⟨name, kind, index⟩, -, hx⟩ := List.mem_filterMap.mp hd
        obtain ⟨h, hh, rfl⟩ := Option.map_eq_some_iff.mp hx
        have hb := (hw.stores s (List.mem_of_getElem? hs)).externs i (List.mem_of_getElem? hi)
        have hown := hb h (exportAt_mem hh)
        rw [← hse, he] at hown
        exact hown

theorem linkerAlias_bound (hw : w.Bound) (l : ℕ) (module name asModule asName : String) :
    (step (.linkerAlias l module name asModule asName) w).1.Bound := by
  refine hw.onLinker fun k hk _ => ?_
  cases hd : k.get module name with
  | none => exact hk
  | some d =>
    refine hk.insertAll _ fun d' hd' => ?_
    rw [List.mem_singleton.mp hd']
    exact hk.get hd

theorem linkerInstantiate_bound (hw : w.Bound) {m : Module} {linked : Bool} {upTo : ℕ}
    (ha : Agree w (.linkerInstantiate l st m linked upTo) e) :
    (step (.linkerInstantiate l st m linked upTo) w).1.Bound := by
  cases hl : w.linkers[l]? with
  | none =>
    simp only [step, hl]
    exact hw
  | some k =>
    simp only [step, hl]
    refine hw.onStore fun s hs hst => ?_
    have hk : some k.engine = some e :=
      (congrArg (Option.map Linker.engine) hl).symm.trans (ha.given List.mem_cons_self)
    have hm := ha.given (List.mem_cons_of_mem _ (List.mem_cons_of_mem _ List.mem_cons_self))
    obtain rfl := store_engine (ha.given (List.mem_cons_of_mem _ List.mem_cons_self)) hst
    exact Linker.instantiate_bound (hw.linkers k (List.mem_of_getElem? hl)) hs hst
      (Option.some.inj hk) (Option.some.inj hm)

theorem linkerGet_bound (hw : w.Bound) {module name : String}
    (ha : Agree w (.linkerGet l st module name) e) :
    (step (.linkerGet l st module name) w).1.Bound := by
  cases hl : w.linkers[l]? with
  | none =>
    simp only [step, hl]
    exact hw
  | some k =>
    simp only [step, hl]
    refine hw.onStore fun s hs hst => ?_
    have hk : some k.engine = some e :=
      (congrArg (Option.map Linker.engine) hl).symm.trans (ha.given List.mem_cons_self)
    obtain rfl := store_engine (ha.given (List.mem_cons_of_mem _ List.mem_cons_self)) hst
    obtain ⟨he, hb, -⟩ := Linker.resolve_bound (hw.linkers k (List.mem_of_getElem? hl)) hs hst
      (Option.some.inj hk) module name
    exact ⟨he, hb⟩

/-- A guest takes its types from its module, and its values from its operands. -/
theorem guestNew_bound (hw : w.Bound) (inst type : ℕ) (operands : List ℕ) :
    (step (.guestNew st inst type operands) w).1.Bound := by
  refine hw.onStore fun s hs _ => ?_
  cases hty : (s.instances[inst]?).bind fun i => i.module.typeHandle type with
  | none => exact ⟨rfl, hs⟩
  | some ty =>
    refine ⟨rfl, hs.alloc (x := .object ty (s.picked operands)) ?_ (hs.picked operands)⟩
    intro ty' hty'
    rw [List.mem_singleton.mp hty']
    exact hs.typeHandle hty

theorem guestThrow_bound (hw : w.Bound) (inst tag : ℕ) (operands : List ℕ) :
    (step (.guestThrow st inst tag operands) w).1.Bound := by
  refine hw.onStore fun s hs _ => ?_
  cases ht : (s.instances[inst]?).bind fun i => i.tags[tag]? with
  | none => exact ⟨rfl, hs⟩
  | some t =>
    refine ⟨rfl, hs.alloc (x := .exn t (s.picked operands)) (fun ty hty => nomatch hty) ?_⟩
    refine Of.cons ?_ (hs.picked operands)
    intro h hh
    obtain rfl := Option.some.inj hh
    obtain ⟨i, hi, hk⟩ := Option.bind_eq_some_iff.mp ht
    exact hs.externs i (List.mem_of_getElem? hi) _ (exportAt_mem (k := .tag) hk)

/-- What is given the things of one engine only keeps every store to its engine. -/
theorem step_bound (hw : w.Bound) (ha : Agree w op e) : (step op w).1.Bound := by
  cases op with
  | newStore engine => exact newStore_bound hw engine
  | newType engine id parts => exact newType_bound hw engine id parts
  | funcNew st ty => exact typed_bound (x := .host ty) hw ha rfl ⟨rfl, rfl⟩
  | tagNew st ty => exact typed_bound (x := .tag ty) hw ha rfl ⟨rfl, rfl⟩
  | funcWrap st id =>
    refine hw.onStore fun s hs _ => ⟨rfl, hs.alloc (x := .host ⟨s.engine, id⟩) ?_ Of.nil⟩
    exact fun ty' hty => congrArg _ (List.mem_singleton.mp hty)
  | memoryNew st fits =>
    exact hw.onStore fun s hs _ =>
      guarded_bound hs rfl (hs.alloc (x := .memory) (fun ty hty => nomatch hty) Of.nil)
  | globalNew st ty v fits =>
    exact cell_bound (x := .global ty v) hw ha rfl rfl rfl fun hv => Of.cons hv Of.nil
  | tableNew st ty min v fits =>
    exact cell_bound (x := .table ty (List.replicate min v)) hw ha rfl rfl rfl
      fun hv => Of.replicate hv min
  | preNew st ty => exact preNew_bound hw st ty
  | objectNew => exact objectNew_bound hw ha
  | exnNew => exact exnNew_bound hw ha
  | read | matchesTy => exact hw.onStore fun s hs _ => guarded_bound hs rfl hs
  | write st h k vs fits =>
    refine hw.onStore fun s hs hst => guarded_bound hs rfl (hs.write ?_ h.index k)
    obtain rfl := store_engine (ha.given List.mem_cons_self) hst
    exact ha.values fun x hx => List.mem_cons_of_mem _ hx
  | call st f args fits =>
    refine hw.onStore fun s hs hst => guarded_bound hs rfl (hs.push ?_)
    obtain rfl := store_engine (ha.given List.mem_cons_self) hst
    exact ha.values fun x hx => List.mem_cons_of_mem _ hx
  | hostReturn st results fits =>
    refine hw.onStore fun s hs hst => guarded_bound hs rfl (hs.push ?_)
    obtain rfl := store_engine (ha.given List.mem_cons_self) hst
    exact ha.values fun x hx => hx
  | instanceNew st m imports linked upTo =>
    refine hw.onStore fun s hs hst => ?_
    obtain rfl := store_engine (ha.given List.mem_cons_self) hst
    refine instantiate_bound hs hst ?_ fun h hh => ha.handle hh
    exact Option.some.inj (ha.given (List.mem_cons_of_mem _ List.mem_cons_self))
  | linkerNew engine => exact linkerNew_bound hw engine
  | linkerShadowing l allow => exact hw.onLinker fun k hk _ => hk
  | linkerDefine l st module name h =>
    refine hw.onLinker fun k hk hke => hk.insertAll _ fun d hd => ?_
    rw [List.mem_singleton.mp hd]
    have he : e = k.engine := Option.some.inj ((ha.given List.mem_cons_self).symm.trans hke)
    exact he ▸ ha.handle List.mem_cons_self
  | linkerFuncNew l module name ty =>
    refine hw.onLinker fun k hk hke => hk.insertAll _ fun d hd => ?_
    rw [List.mem_singleton.mp hd]
    have he : e = k.engine := Option.some.inj ((ha.given List.mem_cons_self).symm.trans hke)
    exact (Option.some.inj (ha.given (List.mem_cons_of_mem _ List.mem_cons_self))).trans he
  | linkerFuncWrap l module name id =>
    refine hw.onLinker fun k hk _ => hk.insertAll _ fun d hd => ?_
    rw [List.mem_singleton.mp hd]
    exact rfl
  | linkerInstance => exact linkerInstance_bound hw ha
  | linkerAlias l module name asModule asName =>
    exact linkerAlias_bound hw l module name asModule asName
  | linkerInstantiate => exact linkerInstantiate_bound hw ha
  | linkerGet => exact linkerGet_bound hw ha
  | guestLoad st src k =>
    refine hw.onStore fun s hs _ => ⟨rfl, hs.push (Of.cons (unstamp_home fun x hx => ?_) Of.nil)⟩
    obtain ⟨y, hy, hk⟩ := Option.bind_eq_some_iff.mp (Option.join_eq_some_iff.mp hx)
    exact hs.values y (List.mem_of_getElem? hy) x (List.mem_of_getElem? hk)
  | guestExtern st inst k index =>
    refine hw.onStore fun s hs _ => ⟨rfl, hs.push (Of.cons (unstamp_home fun x hx => ?_) Of.nil)⟩
    obtain ⟨i, hi, hk⟩ := Option.bind_eq_some_iff.mp hx
    exact hs.externs i (List.mem_of_getElem? hi) x (exportAt_mem hk)
  | guestStore st dst k operands =>
    exact hw.onStore fun s hs _ => ⟨rfl, hs.write (hs.picked operands) dst k⟩
  | guestNew st inst type operands => exact guestNew_bound hw inst type operands
  | guestThrow st inst tag operands => exact guestThrow_bound hw inst tag operands

/-! ## Every sequence of operations -/

/-- A sequence of operations with no slip keeps every module, type and handle of a store to the
store's engine, at every point, and rejects whatever mixes engines with the world unchanged. -/
theorem engines_apart {ops : List Op}
    (h : Runs.Along step (fun op w => ¬Slips w op) ops World.empty) :
    (Runs.run step ops World.empty).Bound ∧
      Runs.Along step (fun op w => w.Bound ∧ (Mixes w op → step op w = (w, .rejected)))
        ops World.empty := by
  have hstep : ∀ op w, World.Bound w → ¬Slips w op → (step op w).1.Bound := by
    intro op w hw hslip
    rcases rejected_or_agree hw hslip with hr | ⟨e, ha⟩
    · rw [hr]
      exact hw
    · exact step_bound hw ha
  refine ⟨Runs.invariant hstep World.empty_bound h, ?_⟩
  refine (Runs.Along.and_invariant hstep World.empty_bound h).mono ?_
  rintro op w ⟨hw, hslip⟩
  refine ⟨hw, fun hm => ?_⟩
  rcases rejected_or_agree hw hslip with hr | ⟨e, ha⟩
  · exact hr
  · exact absurd hm ha.not_mixes

/-- A module with a tag of its first type, and a function. -/
def tagModule (engine : ℕ) : Module where
  engine := engine
  typeIds := [7]
  imports := []
  memories := 0
  tags := [0]
  functions := 1
  tables := []
  globals := []
  elems := []
  exports := [("f", .func, 0)]

/-- Two engines, each with a store and a linker, kept apart; the function type of the first is
refused by the second. -/
def apartOps : List Op :=
  [.newStore 0, .newStore 1, .newType 0 7 [], .funcNew 0 ⟨0, 7⟩, .funcNew 1 ⟨0, 7⟩,
    .instanceNew 0 (tagModule 0) [] true 3, .linkerNew 1, .linkerFuncNew 0 "m" "g" ⟨1, 7⟩,
    .linkerInstantiate 0 1 (tagModule 1) true 3]

theorem engines_apart_two :
    (Runs.run step apartOps World.empty).Bound ∧
      Runs.Along step (fun op w => w.Bound ∧ (Mixes w op → step op w = (w, .rejected)))
        apartOps World.empty :=
  engines_apart ⟨by decide, by decide, by decide, by decide, by decide, by decide, by decide,
    by decide, by decide, trivial⟩

/-- Nothing compares the engine of a module with that of the store it is instantiated in: the
tag of a module of engine 1 lands in a store of engine 0, with a type id of engine 1. -/
theorem not_engines_apart_instantiate :
    ¬ ∀ ops : List Op, (Runs.run step ops World.empty).Bound ∧
      Runs.Along step (fun op w => w.Bound ∧ (Mixes w op → step op w = (w, .rejected)))
        ops World.empty := by
  intro h
  have hb := (h [.newStore 0, .instanceNew 0 (tagModule 1) [] true 3]).1
  have hs := hb.stores _ List.mem_cons_self
  have hty : (1 : ℕ) = 0 :=
    hs.types (.tag ⟨1, 7⟩) List.mem_cons_self ⟨1, 7⟩ List.mem_cons_self
  exact absurd hty Nat.one_ne_zero

end Engines
end SubmilliWasm
