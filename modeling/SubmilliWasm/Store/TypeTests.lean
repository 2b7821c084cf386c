/-
# Type tests of the guest and of the host

A reference is tested against a heap type in two places: by the casts of the interpreter
(`src/exec/cast.rs`), on a bare handle and a type of the running module, and where the embedder
hands over a value (`src/value_match.rs`), on a stamped handle and a materialized type.  Each is
translated as it is written, then the two are shown to agree on every live value, along any
history of the types and the objects of a store.

A value that passes for a struct or array type is then accessed with the slots of that type.
That these are slots of the object rests on the declared subtypes being sound, which a
constructor of a type can break.  Both tests follow declared supertypes in a loop without a bound,
which comes back as long as no group of types declares a cycle.
-/
import SubmilliWasm.Canon.Supertypes
import SubmilliWasm.Store.Handles
import SubmilliWasm.Store.Linking

namespace SubmilliWasm

open Slots Fallible

/-! ## Values of the embedder -/

structure FuncHandle where
  index : ℕ
  store : ℕ
  deriving DecidableEq, Repr

/-- A value as the embedder holds it; a reference is a handle. -/
inductive HostVal where
  | i32 (v : BitVec 32)
  | i64 (v : BitVec 64)
  | f32 (bits : BitVec 32)
  | f64 (bits : BitVec 64)
  | v128 (v : BitVec 128)
  | funcRef (f : Option FuncHandle)
  | externRef (r : Option Rooted)
  | anyRef (r : Option Rooted)
  | exnRef (r : Option Rooted)
  deriving DecidableEq, Repr

def HostVal.null : RefKind → HostVal
  | .func => .funcRef none
  | .extern_ => .externRef none
  | .any => .anyRef none
  | .exn => .exnRef none

/-! ## The store as far as the tests read it -/

/-- A module: its type section, the canonical ids of its types, and the type of each function of
its index space; the validator has checked the latter. -/
structure TestModule where
  types : List ModuleType
  typeIds : List CanonicalTypeId
  funcTypes : List ℕ
  funcTypes_lt : ∀ t ∈ funcTypes, t < types.length

def TestModule.layouts (m : TestModule) : List (Option Layout) :=
  m.types.map fun t => Layout.fromBody t.body

/-- A store with its id; `inner` has the engine and the arenas. -/
structure TestStore where
  inner : StoreInner
  id : ℕ
  instances : List TestModule
  funcs : List FuncEntity

/-- How a test or an access ends without a result. -/
inductive TestError where
  | nullStruct
  | nullArray
  | arrayOutOfBounds
  | internal (text : String)
  | msg (text : String)
  | fault (f : Fault)
  | panic
  deriving DecidableEq, Repr

def orPanic {α : Type} : Option α → Except TestError α
  | some a => .ok a
  | none => .error .panic

theorem orPanic_ok {α : Type} {o : Option α} {a : α} : orPanic o = .ok a ↔ o = some a := by
  cases o with
  | none => exact ⟨nofun, nofun⟩
  | some b =>
    exact ⟨fun h => congrArg some (Except.ok.inj h), fun h => congrArg _ (Option.some.inj h)⟩

/-- A wrapped host reference is `any`, but no aggregate. -/
def ObjKind.agg : ObjKind → Option AggKind
  | .struct => some .struct
  | .array => some .array
  | .extern_ => none

namespace TestStore

/-- The canonical type of a function: a wasm function's is its module's, a host function's its
own. -/
def funcTypeId (x : TestStore) (f : ℕ) : Except TestError CanonicalTypeId := do
  match ← orPanic x.funcs[f]? with
  | .wasm inst funcIndex =>
    let m ← orPanic x.instances[inst]?
    let type ← orPanic m.funcTypes[funcIndex]?
    orPanic m.typeIds[type]?
  | .host ty => return ty

/-! ## The test of the interpreter -/

def canonicalTypeId (x : TestStore) (inst idx : ℕ) : Except TestError CanonicalTypeId := do
  let m ← orPanic x.instances[inst]?
  orPanic m.typeIds[idx]?

def isNullRef : Val → Bool
  | .funcRef none => true
  | .externRef none => true
  | .anyRef none => true
  | .exnRef none => true
  | _ => false

/-- The decoded handle of a non-null `anyref`. -/
def decodeAny : Val → Option AnyRefHandle
  | .anyRef (some r) => some (decodeAnyrefHandle r)
  | _ => none

def castObject (x : TestStore) (slot : ℕ) : Except TestError GcObject :=
  match x.inner.gc.arena.get slot with
  | some o => .ok o
  | none => .error (.internal "cast operand refers to a missing GC object")

/-- The aggregate kind of a heap object. -/
def gcKind (x : TestStore) (v : Val) : Except TestError (Option AggKind) :=
  match decodeAny v with
  | some (.slot i) => do
    let obj ← x.castObject i
    return obj.kind.agg
  | _ => .ok none

/-- The canonical type id of an aggregate. -/
def gcTypeId (x : TestStore) (v : Val) : Except TestError (Option CanonicalTypeId) :=
  match decodeAny v with
  | some (.slot i) => do
    let obj ← x.castObject i
    return obj.kind.agg.map fun _ => obj.typeId
  | _ => .ok none

def isI31 (v : Val) : Bool :=
  match decodeAny v with
  | some (.i31 _) => true
  | _ => false

def isEq (x : TestStore) (v : Val) : Except TestError Bool :=
  if isI31 v then .ok true
  else do
    let kind ← x.gcKind v
    return kind.isSome

/-- The canonical type a value is tested with against a concrete type of kind `kind`. -/
def actualTypeId (x : TestStore) (v : Val) (kind : AggKind) :
    Except TestError (Option CanonicalTypeId) :=
  match kind, v with
  | .func, .funcRef (some f) => (x.funcTypeId f).map some
  | .func, _ => .ok none
  | .struct, v => x.gcTypeId v
  | .array, v => x.gcTypeId v

def concreteMatches (x : TestStore) (inst : ℕ) (v : Val) (idx : ℕ) (kind : AggKind) :
    Except TestError Bool := do
  let targetId ← x.canonicalTypeId inst idx
  let actual ← x.actualTypeId v kind
  return actual.any fun a => x.inner.engine.isSubtype a targetId

def matchesHeaptype (x : TestStore) (inst : ℕ) (v : Val) (target : IrHeap) (nullable : Bool) :
    Except TestError Bool :=
  if isNullRef v then .ok nullable
  else
    match target with
    | .any => .ok (decodeAny v).isSome
    | .eq => x.isEq v
    | .i31 => .ok (isI31 v)
    | .struct => do return (← x.gcKind v) = some .struct
    | .array => do return (← x.gcKind v) = some .array
    | .func => .ok (match v with | .funcRef (some _) => true | _ => false)
    | .extern_ => .ok (match v with | .externRef (some _) => true | _ => false)
    | .exn => .ok (match v with | .exnRef (some _) => true | _ => false)
    | .noFunc => .ok false
    | .noExtern => .ok false
    | .noExn => .ok false
    | .none => .ok false
    | .concrete idx kind => x.concreteMatches inst v idx kind

/-- `ref.test`: the operand is popped as a reference of the target's hierarchy; `ref.cast` and
`br_on_cast` decide by the same test. -/
def refTest (x : TestStore) (inst : ℕ) (r : Option ℕ) (target : IrHeap) (nullable : Bool) :
    Except TestError Bool :=
  x.matchesHeaptype inst (refVal (refKind target) r) target nullable

/-! ## The test of the embedder's values -/

/-- Compatibility as far as the store is not needed. -/
def valMatches (v : HostVal) (ty : ValType) : Bool :=
  match v, ty with
  | .i32 _, .i32 => true
  | .i64 _, .i64 => true
  | .f32 _, .f32 => true
  | .f64 _, .f64 => true
  | .v128 _, .v128 => true
  | .funcRef v, .ref nullable heap =>
    match heap with
    | .noFunc => v.isNone && nullable
    | .func | .concreteFunc _ => v.isSome || nullable
    | _ => false
  | .externRef v, .ref nullable heap =>
    match heap with
    | .noExtern => v.isNone && nullable
    | .extern_ => v.isSome || nullable
    | _ => false
  | .exnRef v, .ref nullable heap =>
    match heap with
    | .noExn => v.isNone && nullable
    | .exn => v.isSome || nullable
    | _ => false
  | .anyRef v, .ref nullable heap =>
    match heap with
    | .none => v.isNone && nullable
    | .any | .eq | .i31 | .struct | .concreteStruct _ | .array | .concreteArray _ =>
      v.isSome || nullable
    | _ => false
  | _, _ => false

def belongsToStore (x : TestStore) (r : Rooted) : Bool := r.store = uncheckedStore || r.store = x.id

def liftFault {α : Type} : Except Fault α → Except TestError α
  | .ok a => .ok a
  | .error f => .error (.fault f)

def validateLiveReference (x : TestStore) (v : HostVal) : Except TestError Unit :=
  match v with
  | .funcRef (some f) =>
    if f.store ≠ uncheckedStore && f.store ≠ x.id then
      .error (.msg "function reference belongs to a different store")
    else do
      let _ ← orPanic x.funcs[f.index]?
  | .externRef (some r) =>
    if !x.belongsToStore r then .error (.msg "externref belongs to a different store")
    else do
      let _ ← liftFault (x.inner.externrefChecked x.id r)
  | .anyRef (some r) =>
    if !x.belongsToStore r then .error (.msg "anyref belongs to a different store")
    else
      match decodeAnyrefHandle r.index with
      | .slot _ => do
        let _ ← liftFault (x.inner.gcSlotChecked x.id r)
      | .i31 _ => .ok ()
  | .exnRef (some r) =>
    if !x.belongsToStore r then .error (.msg "exnref belongs to a different store")
    else do
      let _ ← liftFault (x.inner.exnChecked x.id r)
  | _ => .ok ()

def concreteFuncMatches (x : TestStore) (f : FuncHandle) (expected : CanonicalTypeId) :
    Except TestError Bool := do
  let actual ← x.funcTypeId f.index
  return x.inner.engine.isSubtype actual expected

def anyrefMatches (x : TestStore) (r : Rooted) (expected : HeapType) : Except TestError Bool :=
  match decodeAnyrefHandle r.index with
  | .i31 _ =>
    .ok (match expected with
      | .any | .eq | .i31 => true
      | _ => false)
  | .slot _ => do
    let slot ← liftFault (x.inner.gcSlotChecked x.id r)
    match x.inner.gc.arena.get slot with
    | none => .error (.msg "stale gc reference (object was collected)")
    | some obj =>
      return match expected with
        | .any => true
        | .eq => decide (obj.kind ≠ .extern_)
        | .struct => decide (obj.kind = .struct)
        | .array => decide (obj.kind = .array)
        | .concreteStruct id =>
          decide (obj.kind = .struct) && x.inner.engine.isSubtype obj.typeId id
        | .concreteArray id => decide (obj.kind = .array) && x.inner.engine.isSubtype obj.typeId id
        | _ => false

/-- The part of the test that needs the metadata of the store. -/
def heapMatches (x : TestStore) (v : HostVal) (heap : HeapType) : Except TestError Bool :=
  match v, heap with
  | .funcRef (some f), .concreteFunc expected => x.concreteFuncMatches f expected
  | .anyRef (some r), expected => x.anyrefMatches r expected
  | _, _ => .ok true

def valMatchesInStore (x : TestStore) (v : HostVal) (ty : ValType) : Except TestError Bool :=
  if !valMatches v ty then .ok false
  else
    match ty with
    | .ref _ heap => do
      x.validateLiveReference v
      x.heapMatches v heap
    | _ => .ok true

/-! ## Field and element access -/

def readSlotPacked (slot : Slot) (data : List UInt8) (signed : Bool) : Option (BitVec 32) :=
  match slot with
  | .ref _ _ => none
  | .scalar offset kind => do
    let bytes ← slice data offset kind.width
    match kind with
    | .i8 => return if signed then (BitVec.ofNat 8 (leNat bytes)).signExtend 32
        else BitVec.ofNat 32 (leNat bytes)
    | .i16 => return if signed then (BitVec.ofNat 16 (leNat bytes)).signExtend 32
        else BitVec.ofNat 32 (leNat bytes)
    | .i32 => return BitVec.ofNat 32 (leNat bytes)
    | _ => none

/-- The field or element at a slot; `ext` is the extension of `get_s` and `get_u`. -/
def readAs (slot : Slot) (data : List UInt8) (ext : Option Bool) : Except TestError Val :=
  match ext with
  | none => orPanic (readSlot slot data)
  | some signed => do return .i32 (← orPanic (readSlotPacked slot data signed))

def structField (m : TestModule) (ty field : ℕ) : Except TestError Slot :=
  match (m.layouts[ty]?).join with
  | some (.struct layout) =>
    match layout.fields[field]? with
    | some slot => .ok slot
    | none => .error (.msg "no such struct field")
  | _ => .error (.msg "not a struct type")

def arrayLayout (m : TestModule) (ty : ℕ) : Except TestError ArrayLayout :=
  match (m.layouts[ty]?).join with
  | some (.array layout) => .ok layout
  | _ => .error (.msg "not an array type")

/-- The slot of an aggregate operand. -/
def anyrefSlot (r : Option ℕ) (nullTrap : TestError) : Except TestError ℕ :=
  match r with
  | none => .error nullTrap
  | some r =>
    match decodeAnyrefHandle r with
    | .slot i => .ok i
    | .i31 _ => .error (.internal "aggregate operand is an i31")

def structGet (x : TestStore) (inst ty field : ℕ) (ext : Option Bool) (r : Option ℕ) :
    Except TestError Val := do
  let m ← orPanic x.instances[inst]?
  let slot ← structField m ty field
  let obj ← anyrefSlot r .nullStruct
  match x.inner.gc.arena.get obj with
  | none => .error (.internal "struct operand refers to a missing object")
  | some o => readAs slot o.data ext

def arrayGet (x : TestStore) (inst ty idx : ℕ) (ext : Option Bool) (r : Option ℕ) :
    Except TestError Val := do
  let m ← orPanic x.instances[inst]?
  let layout ← arrayLayout m ty
  let obj ← anyrefSlot r .nullArray
  match x.inner.gc.arena.get obj with
  | none => .error (.internal "array operand refers to a missing object")
  | some o =>
    if idx < o.arrayLen layout.stride then readAs (layout.elemAt idx) o.data ext
    else .error .arrayOutOfBounds

/-- The object of a handle of the embedder. -/
def hostObject (x : TestStore) (h : Rooted) : Except TestError GcObject := do
  let slot ← liftFault (x.inner.gcSlotChecked x.id h)
  match x.inner.gc.arena.get slot with
  | none => .error (.msg "dangling gc reference")
  | some o => return o

/-- `Rooted<StructRef>::field`, up to the stamping of the value it hands out. -/
def hostField (x : TestStore) (h : Rooted) (index : ℕ) : Except TestError Val := do
  let o ← x.hostObject h
  match x.inner.engine.structFields o.typeId with
  | none => .error (.internal "type metadata")
  | some fields =>
    match (Layout.forStruct fields).fields[index]? with
    | none => .error (.msg "struct field index out of bounds")
    | some slot => orPanic (readSlot slot o.data)

/-- `Rooted<ArrayRef>::get`, up to the stamping of the value it hands out. -/
def hostElement (x : TestStore) (h : Rooted) (index : ℕ) : Except TestError Val := do
  let o ← x.hostObject h
  match x.inner.engine.arrayField o.typeId with
  | none => .error (.internal "type metadata")
  | some field =>
    if index < o.arrayLen (Layout.forArray field).stride then
      orPanic (readSlot ((Layout.forArray field).elemAt index) o.data)
    else .error (.msg "array index out of bounds")

end TestStore

/-! ## Well-formed stores -/

/-- The body of an aggregate is one of the layout. -/
def GcObject.LaidOut (o : GcObject) (layout : Option Layout) : Prop :=
  match o.kind with
  | .struct => ∃ l, layout = some (.struct l) ∧ o.data.length = l.size
  | .array => ∃ l len, layout = some (.array l) ∧ o.data.length = l.bodySize len
  | .extern_ => True

/-- An object has the shape of its type, which is registered. -/
def GcObject.Shaped (r : TypeRegistry) (o : GcObject) : Prop := o.LaidOut (r.layoutOf o.typeId)

/-- The canonical ids of a module are registered for the types of its section. -/
def TestModule.Registered (r : TypeRegistry) (m : TestModule) : Prop :=
  m.typeIds.map r.type? = (m.types.map (TypeRegistry.absolute fun i => m.typeIds.getD i 0)).map some

namespace TestStore

/-- What the tests rely on: objects have the shape of their types, modules their types
registered, functions a type, and declared subtypes are sound. -/
structure WellFormed (x : TestStore) : Prop where
  wf : TypeRegistry.WF x.inner.engine
  shaped : ∀ i o, x.inner.gc.arena.get i = some o → o.Shaped x.inner.engine
  registered : ∀ m ∈ x.instances, m.Registered x.inner.engine
  typed : ∀ f, x.funcs[f]? ≠ none → ∃ id, x.funcTypeId f = .ok id
  sound : ∀ a b, x.inner.engine.type? a ≠ none → x.inner.engine.isSubtype a b = true →
    x.inner.engine.SubtypeSound a b
  decided : TypeRegistry.SubtypeDecided x.inner.engine

/-- A heap type of a module, which gives a concrete type the kind it has in the type section. -/
def HasHeap (m : TestModule) : IrHeap → Prop
  | .concrete idx kind => ∃ t, m.types[idx]? = some t ∧ bodyKind (bodyKey .canon t.body) = kind
  | _ => True

/-- The reference is live in the arena of its hierarchy. -/
def LiveRef (x : TestStore) : RefKind → ℕ → Prop
  | .func, r => x.funcs[r]? ≠ none
  | .extern_, r => x.inner.externrefs.get r ≠ none
  | .exn, r => x.inner.exns.get r ≠ none
  | .any, r =>
    match decodeAnyrefHandle r with
    | .i31 _ => True
    | .slot i => x.inner.gc.arena.get i ≠ none

/-- The handle of the store carries its id or none, and its slot's generation or none. -/
structure Stamp (x : TestStore) (generation : Option ℕ) (h : Rooted) : Prop where
  store : h.store = uncheckedStore ∨ h.store = x.id
  generation : h.generation = uncheckedGeneration ∨ generation = some h.generation

/-- The embedder's value for a reference of the guest. -/
inductive Stands (x : TestStore) : RefKind → Option ℕ → HostVal → Prop where
  | null (kind : RefKind) : Stands x kind none (.null kind)
  | func {f : FuncHandle} : f.store = uncheckedStore ∨ f.store = x.id →
      Stands x .func (some f.index) (.funcRef (some f))
  | extern_ {h : Rooted} : x.Stamp (x.inner.externrefs.generation h.index) h →
      Stands x .extern_ (some h.index) (.externRef (some h))
  | any {h : Rooted} : x.Stamp
        (match decodeAnyrefHandle h.index with
          | .i31 _ => some h.generation
          | .slot i => x.inner.gc.arena.generation i) h →
      Stands x .any (some h.index) (.anyRef (some h))
  | exn {h : Rooted} : x.Stamp (x.inner.exns.generation h.index) h →
      Stands x .exn (some h.index) (.exnRef (some h))

/-! ## Live handles pass -/

variable {x : TestStore}

variable {kind : AggKind} {layout : ArrayLayout} {nullable : Bool} {id : CanonicalTypeId}
  {o : GcObject} {heap : HeapType} {v : HostVal} {target : IrHeap} {typeIds : List CanonicalTypeId}
  {h : Rooted} {m : TestModule} {i r ty idx inst : ℕ}

variable {g : Option ℕ} {slot : Slot}

theorem checkHandle_pass (hs : x.Stamp g h) :
    checkHandle x.id h.store = .ok () := if_pos hs.store

theorem belongsToStore_pass (hs : x.Stamp g h) : x.belongsToStore h = true := by
  unfold belongsToStore
  rcases hs.store with hs | hs
  · rw [decide_eq_true hs, Bool.true_or]
  · rw [decide_eq_true hs, Bool.or_true]

theorem checked_pass (hs : x.Stamp g h) (hg : g ≠ none) :
    StoreInner.checked x.id h g = .ok h.index := by
  unfold StoreInner.checked
  rw [checkHandle_pass hs]
  obtain ⟨n, rfl⟩ := Option.ne_none_iff_exists'.mp hg
  have hno : ¬(h.generation ≠ uncheckedGeneration ∧ n ≠ h.generation) := by
    rintro ⟨h1, h2⟩
    rcases hs.generation with hg | hg
    · exact h1 hg
    · exact h2 (Option.some.inj hg)
  exact if_neg hno

theorem gcSlotChecked_pass (hi : decodeAnyrefHandle h.index = .slot i)
    (ho : x.inner.gc.arena.get i = some o) (hs : x.Stamp (x.inner.gc.arena.generation i) h) :
    x.inner.gcSlotChecked x.id h = .ok i := by
  have hslot : x.inner.gcSlot h.index = .ok i := by
    unfold StoreInner.gcSlot
    simp only [hi, ho]
  unfold StoreInner.gcSlotChecked
  rw [checkHandle_pass hs, hslot]
  have hno : ¬(h.generation ≠ uncheckedGeneration ∧
      x.inner.gc.arena.generation i ≠ some h.generation) := by
    rintro ⟨h1, h2⟩
    rcases hs.generation with hg | hg
    · exact h1 hg
    · exact h2 hg
  exact if_neg hno

theorem generation_of_get {E : Type} {a : ReclaimArena E} (h : a.get i ≠ none) :
    a.generation i ≠ none := by
  obtain ⟨e, he⟩ := Option.ne_none_iff_exists'.mp h
  have hlt : i < a.generations.length := by
    rw [a.parallel]
    exact lt_length_of_entry he
  rw [ReclaimArena.generation, List.getElem?_eq_getElem hlt]
  exact Option.some_ne_none _

/-- The liveness check passes for the handle of a live reference. -/
theorem validate_pass {kind : RefKind} (hlive : x.LiveRef kind r) (hv : x.Stands kind (some r) v) :
    x.validateLiveReference v = .ok () := by
  cases hv with
  | @func f hs =>
    have hown : ¬((f.store ≠ uncheckedStore && f.store ≠ x.id) = true) := by
      simp only [Bool.and_eq_true, decide_eq_true_eq, not_and_or, ne_eq, not_not]
      exact hs
    obtain ⟨e, he⟩ := Option.ne_none_iff_exists'.mp hlive
    simp only [validateLiveReference, if_neg hown, he]
    rfl
  | @extern_ h hs =>
    have hc := checked_pass hs (generation_of_get hlive)
    simp only [validateLiveReference, belongsToStore_pass hs, StoreInner.externrefChecked, hc]
    rfl
  | @any h hs =>
    simp only [validateLiveReference, belongsToStore_pass hs]
    unfold LiveRef at hlive
    cases hd : decodeAnyrefHandle h.index with
    | i31 p => rfl
    | slot i =>
      simp only [hd] at hs hlive
      obtain ⟨o, ho⟩ := Option.ne_none_iff_exists'.mp hlive
      simp only [gcSlotChecked_pass hd ho hs]
      rfl
  | @exn h hs =>
    have hc := checked_pass hs (generation_of_get hlive)
    obtain ⟨e, he⟩ := Option.ne_none_iff_exists'.mp hlive
    simp only [validateLiveReference, belongsToStore_pass hs, StoreInner.exnChecked, hc]
    simp only [bind, Except.bind, he]
    rfl

/-! ## The two tests agree -/

theorem bodyKind_bodyKey (f g : ℕ → CanonRef) (b : CompositeBody) :
    bodyKind (bodyKey f b) = bodyKind (bodyKey g b) := by
  cases b <;> rfl

/-- A type of a registered module and its id. -/
theorem registered_type {r : TypeRegistry} (hm : m.Registered r) {t : ModuleType}
    (ht : m.types[idx]? = some t) :
    ∃ id, m.typeIds[idx]? = some id ∧
      r.type? id = some (TypeRegistry.absolute (fun i => m.typeIds.getD i 0) t) := by
  have h := congrArg (fun l => l[idx]?) hm
  simp only [List.getElem?_map, ht, Option.map_some] at h
  obtain ⟨id, hid, hty⟩ := Option.map_eq_some_iff.mp h
  exact ⟨id, hid, hty⟩

/-- What the host's test comes to, for a live reference whose hierarchy is that of the type. -/
theorem valMatchesInStore_live {kind : RefKind} (hlive : x.LiveRef kind r)
    (hv : x.Stands kind (some r) v) (hm : valMatches v (.ref nullable heap) = true) :
    x.valMatchesInStore v (.ref nullable heap) = x.heapMatches v heap := by
  unfold valMatchesInStore
  simp only [hm, Bool.not_true, validate_pass hlive hv]
  rfl

theorem valMatchesInStore_mismatch {ty : ValType} (hm : valMatches v ty = false) :
    x.valMatchesInStore v ty = .ok false := by
  unfold valMatchesInStore
  rw [hm]
  rfl

theorem Stands.eq_null {kind : RefKind} (hv : x.Stands kind none v) : v = .null kind := by
  cases hv
  rfl

/-- A materialized heap type is of the hierarchy it was written in. -/
theorem valMatches_null (hheap : materializeHeap typeIds target = .ok heap) (nullable : Bool) :
    valMatches (.null (refKind target)) (.ref nullable heap) = nullable := by
  cases target with
  | concrete idx kind =>
    obtain ⟨id, -, hid⟩ := bind_ok hheap
    cases kind <;> obtain rfl := Except.ok.inj hid <;> rfl
  | _ => obtain rfl := Except.ok.inj hheap; rfl

/-- A null passes for a nullable type, in both tests. -/
theorem null_agree (hheap : materializeHeap typeIds target = .ok heap) (nullable : Bool)
    (hv : x.Stands (refKind target) none v) :
    x.refTest inst none target nullable = .ok nullable ∧
      x.valMatchesInStore v (.ref nullable heap) = .ok nullable := by
  obtain rfl := hv.eq_null
  have hm := valMatches_null hheap nullable
  constructor
  · unfold refTest matchesHeaptype
    cases refKind target <;> rfl
  · cases nullable with
    | false => exact valMatchesInStore_mismatch hm
    | true =>
      unfold valMatchesInStore
      rw [hm]
      cases refKind target <;> cases heap <;> rfl

/-! ### References to functions, host values and exceptions -/

theorem canonicalTypeId_ok (hm : x.instances[inst]? = some m) (hid : m.typeIds[idx]? = some id) :
    x.canonicalTypeId inst idx = .ok id := by
  unfold canonicalTypeId
  rw [hm]
  exact orPanic_ok.mpr hid

theorem concreteMatches_ok {v : Val} {actual : Option CanonicalTypeId}
    (hid : x.canonicalTypeId inst idx = .ok id) (ha : x.actualTypeId v kind = .ok actual) :
    x.concreteMatches inst v idx kind =
      .ok (actual.any fun a => x.inner.engine.isSubtype a id) := by
  unfold concreteMatches
  rw [hid]
  show (x.actualTypeId v kind >>= _) = _
  rw [ha]
  rfl

theorem func_agree (hm : x.instances[inst]? = some m) (htyped : ∀ f, x.funcs[f]? ≠ none →
      ∃ id, x.funcTypeId f = .ok id) (hheap : materializeHeap m.typeIds target = .ok heap)
    (hk : refKind target = .func) (nullable : Bool) (hlive : x.LiveRef .func r)
    (hv : x.Stands .func (some r) v) :
    ∃ b, x.refTest inst (some r) target nullable = .ok b ∧
      x.valMatchesInStore v (.ref nullable heap) = .ok b := by
  unfold refTest
  rw [hk]
  have hv' := hv
  cases hv with
  | @func f hs =>
    cases target with
    | func =>
      obtain rfl := Except.ok.inj hheap
      exact ⟨true, rfl, valMatchesInStore_live hlive hv' rfl⟩
    | noFunc =>
      obtain rfl := Except.ok.inj hheap
      exact ⟨false, rfl, valMatchesInStore_mismatch rfl⟩
    | concrete idx kind =>
      obtain ⟨id, hid, hret⟩ := bind_ok hheap
      have hidx : m.typeIds[idx]? = some id := index_ok.mp hid
      cases kind with
      | func =>
        obtain rfl := Except.ok.inj hret
        obtain ⟨a, ha⟩ := htyped f.index hlive
        refine ⟨x.inner.engine.isSubtype a id, ?_, ?_⟩
        · have hactual : x.actualTypeId (.funcRef (some f.index)) .func = .ok (some a) := by
            show Except.map some (x.funcTypeId f.index) = _
            rw [ha]
            rfl
          exact concreteMatches_ok (canonicalTypeId_ok hm hidx) hactual
        · rw [valMatchesInStore_live hlive hv' rfl]
          show x.concreteFuncMatches f id = _
          unfold concreteFuncMatches
          rw [ha]
          rfl
      | struct => cases hk
      | array => cases hk
    | _ => cases hk

theorem extern_agree (hheap : materializeHeap typeIds target = .ok heap)
    (hk : refKind target = .extern_) (nullable : Bool) (hlive : x.LiveRef .extern_ r)
    (hv : x.Stands .extern_ (some r) v) :
    ∃ b, x.refTest inst (some r) target nullable = .ok b ∧
      x.valMatchesInStore v (.ref nullable heap) = .ok b := by
  unfold refTest
  rw [hk]
  have hv' := hv
  cases hv with
  | @extern_ h hs =>
    cases target with
    | extern_ =>
      obtain rfl := Except.ok.inj hheap
      exact ⟨true, rfl, valMatchesInStore_live hlive hv' rfl⟩
    | noExtern =>
      obtain rfl := Except.ok.inj hheap
      exact ⟨false, rfl, valMatchesInStore_mismatch rfl⟩
    | concrete idx kind => cases kind <;> cases hk
    | _ => cases hk

theorem exn_agree (hheap : materializeHeap typeIds target = .ok heap) (hk : refKind target = .exn)
    (nullable : Bool) (hlive : x.LiveRef .exn r) (hv : x.Stands .exn (some r) v) :
    ∃ b, x.refTest inst (some r) target nullable = .ok b ∧
      x.valMatchesInStore v (.ref nullable heap) = .ok b := by
  unfold refTest
  rw [hk]
  have hv' := hv
  cases hv with
  | @exn h hs =>
    cases target with
    | exn =>
      obtain rfl := Except.ok.inj hheap
      exact ⟨true, rfl, valMatchesInStore_live hlive hv' rfl⟩
    | noExn =>
      obtain rfl := Except.ok.inj hheap
      exact ⟨false, rfl, valMatchesInStore_mismatch rfl⟩
    | concrete idx kind => cases kind <;> cases hk
    | _ => cases hk

/-! ### References of the `any` hierarchy -/

/-- The kind of a type registered for a module's. -/
theorem registered_kind {r : TypeRegistry} (hm : m.Registered r)
    (ht : HasHeap m (.concrete idx kind)) (hid : m.typeIds[idx]? = some id) :
    r.kind id = some kind := by
  obtain ⟨t, ht, rfl⟩ := ht
  obtain ⟨id', hid', hty⟩ := registered_type hm ht
  rw [hid] at hid'
  obtain rfl := Option.some.inj hid'
  rw [TypeRegistry.kind, hty]
  exact congrArg some (bodyKind_bodyKey _ _ _)

/-- An object has the kind its type is registered with. -/
theorem shaped_kind {r : TypeRegistry} (hw : TypeRegistry.WF r) (ho : o.Shaped r)
    (hk : r.kind o.typeId = some kind) :
    (o.kind = .struct → kind = .struct) ∧ (o.kind = .array → kind = .array) := by
  have hlayout : ∀ {layout}, r.layoutOf o.typeId = some layout →
      (∀ l, layout = .struct l → kind = .struct) ∧ (∀ l, layout = .array l → kind = .array) := by
    intro layout hl
    unfold TypeRegistry.layoutOf at hl
    cases hc : r.composite o.typeId with
    | none =>
      rw [hc] at hl
      cases hl
    | some c =>
      have hkind := hw.kind_eq hc
      rw [hk] at hkind
      rw [hc] at hl
      rw [Option.some.inj hkind]
      cases c with
      | func ps rs => cases hl
      | struct fields =>
        obtain rfl := Option.some.inj hl
        exact ⟨fun _ _ => rfl, fun _ h => Layout.noConfusion h⟩
      | array field =>
        obtain rfl := Option.some.inj hl
        exact ⟨fun _ h => Layout.noConfusion h, fun _ _ => rfl⟩
  constructor
  · intro hkind
    unfold GcObject.Shaped GcObject.LaidOut at ho
    simp only [hkind] at ho
    obtain ⟨layout, hl, -⟩ := ho
    exact (hlayout hl).1 _ rfl
  · intro hkind
    unfold GcObject.Shaped GcObject.LaidOut at ho
    simp only [hkind] at ho
    obtain ⟨layout, -, hl, -⟩ := ho
    exact (hlayout hl).2 _ rfl

/-- A registered type of an object in the heap. -/
theorem shaped_type {r : TypeRegistry} (ho : o.Shaped r) (hk : o.kind ≠ .extern_) :
    r.type? o.typeId ≠ none := by
  intro hnone
  have hlayout : r.layoutOf o.typeId = none := by
    unfold TypeRegistry.layoutOf TypeRegistry.composite
    rw [hnone]
    rfl
  unfold GcObject.Shaped GcObject.LaidOut at ho
  cases hkind : o.kind with
  | struct =>
    simp only [hkind, hlayout] at ho
    obtain ⟨layout, hl, -⟩ := ho
    nomatch hl
  | array =>
    simp only [hkind, hlayout] at ho
    obtain ⟨layout, -, hl, -⟩ := ho
    nomatch hl
  | extern_ => exact hk hkind

/-- An object whose type is a declared subtype of a type has that type's kind. -/
theorem subtype_kind (hx : x.WellFormed) (ho : o.Shaped x.inner.engine) (hne : o.kind ≠ .extern_)
    (hid : x.inner.engine.kind id = some kind)
    (hsub : x.inner.engine.isSubtype o.typeId id = true) :
    (o.kind = .struct → kind = .struct) ∧ (o.kind = .array → kind = .array) := by
  obtain ⟨k, hk, hk'⟩ := (hx.sound _ _ (shaped_type ho hne) hsub).kind
  rw [hid] at hk'
  obtain rfl := Option.some.inj hk'
  exact shaped_kind hx.wf ho hk

theorem castObject_ok (ho : x.inner.gc.arena.get i = some o) : x.castObject i = .ok o := by
  unfold castObject
  rw [ho]

theorem gcKind_slot (hi : decodeAnyrefHandle r = .slot i) (ho : x.inner.gc.arena.get i = some o) :
    x.gcKind (.anyRef (some r)) = .ok o.kind.agg := by
  unfold gcKind decodeAny
  simp only [hi, castObject_ok ho]
  rfl

theorem gcTypeId_slot (hi : decodeAnyrefHandle r = .slot i) (ho : x.inner.gc.arena.get i = some o) :
    x.gcTypeId (.anyRef (some r)) = .ok (o.kind.agg.map fun _ => o.typeId) := by
  unfold gcTypeId decodeAny
  simp only [hi, castObject_ok ho]
  rfl

/-- What the host's test of a live object comes to. -/
theorem anyrefMatches_slot (hi : decodeAnyrefHandle h.index = .slot i)
    (ho : x.inner.gc.arena.get i = some o) (hs : x.Stamp (x.inner.gc.arena.generation i) h)
    (expected : HeapType) :
    x.anyrefMatches h expected = .ok (match expected with
      | .any => true
      | .eq => decide (o.kind ≠ .extern_)
      | .struct => decide (o.kind = .struct)
      | .array => decide (o.kind = .array)
      | .concreteStruct id => decide (o.kind = .struct) && x.inner.engine.isSubtype o.typeId id
      | .concreteArray id => decide (o.kind = .array) && x.inner.engine.isSubtype o.typeId id
      | _ => false) := by
  unfold anyrefMatches
  simp only [hi, gcSlotChecked_pass hi ho hs]
  simp only [liftFault, bind, Except.bind, ho]
  rfl

/-- An `i31` is `any`, `eq` and `i31`, in both tests. -/
theorem i31_agree (hm : x.instances[inst]? = some m)
    (hheap : materializeHeap m.typeIds target = .ok heap) (hk : refKind target = .any)
    (nullable : Bool) {p : ℕ} (hi : decodeAnyrefHandle h.index = .i31 p)
    (hlive : x.LiveRef .any h.index) (hv : x.Stands .any (some h.index) (.anyRef (some h))) :
    ∃ b, x.refTest inst (some h.index) target nullable = .ok b ∧
      x.valMatchesInStore (.anyRef (some h)) (.ref nullable heap) = .ok b := by
  unfold refTest
  rw [hk]
  have hguest : isI31 (.anyRef (some h.index)) = true := by
    simp only [isI31, decodeAny, hi]
  have hkind : x.gcKind (.anyRef (some h.index)) = .ok none := by
    simp only [gcKind, decodeAny, hi]
  have hid : x.gcTypeId (.anyRef (some h.index)) = .ok none := by
    simp only [gcTypeId, decodeAny, hi]
  have hstruct : x.actualTypeId (.anyRef (some h.index)) .struct = .ok none := hid
  have harray : x.actualTypeId (.anyRef (some h.index)) .array = .ok none := hid
  have hhost : ∀ expected b, (match expected with
      | HeapType.any | .eq | .i31 => true
      | _ => false) = b → x.heapMatches (.anyRef (some h)) expected = .ok b := by
    rintro expected b rfl
    simp only [heapMatches, anyrefMatches, hi]
  cases target with
  | any =>
    obtain rfl := Except.ok.inj hheap
    exact ⟨true, rfl, (valMatchesInStore_live hlive hv rfl).trans (hhost _ _ rfl)⟩
  | eq =>
    obtain rfl := Except.ok.inj hheap
    exact ⟨true, if_pos hguest, (valMatchesInStore_live hlive hv rfl).trans (hhost _ _ rfl)⟩
  | i31 =>
    obtain rfl := Except.ok.inj hheap
    exact ⟨true, congrArg Except.ok hguest,
      (valMatchesInStore_live hlive hv rfl).trans (hhost _ _ rfl)⟩
  | struct =>
    obtain rfl := Except.ok.inj hheap
    refine ⟨false, ?_, (valMatchesInStore_live hlive hv rfl).trans (hhost _ _ rfl)⟩
    show (x.gcKind _ >>= _) = _
    rw [show refVal .any (some h.index) = .anyRef (some h.index) from rfl, hkind]
    rfl
  | array =>
    obtain rfl := Except.ok.inj hheap
    refine ⟨false, ?_, (valMatchesInStore_live hlive hv rfl).trans (hhost _ _ rfl)⟩
    show (x.gcKind _ >>= _) = _
    rw [show refVal .any (some h.index) = .anyRef (some h.index) from rfl, hkind]
    rfl
  | none =>
    obtain rfl := Except.ok.inj hheap
    exact ⟨false, rfl, valMatchesInStore_mismatch rfl⟩
  | concrete idx kind =>
    obtain ⟨id, hidx, hret⟩ := bind_ok hheap
    have htarget := canonicalTypeId_ok hm (index_ok.mp hidx)
    cases kind with
    | func => cases hk
    | struct =>
      obtain rfl := Except.ok.inj hret
      exact ⟨false, concreteMatches_ok htarget hstruct,
        (valMatchesInStore_live hlive hv rfl).trans (hhost _ _ rfl)⟩
    | array =>
      obtain rfl := Except.ok.inj hret
      exact ⟨false, concreteMatches_ok htarget harray,
        (valMatchesInStore_live hlive hv rfl).trans (hhost _ _ rfl)⟩
  | _ => cases hk

/-- A live object, in both tests.  The interpreter does not compare the kind of the object with
that of a concrete type, the host does; the subtypes of a type have its kind. -/
theorem slot_agree (hx : x.WellFormed) (hm : x.instances[inst]? = some m) (ht : HasHeap m target)
    (hheap : materializeHeap m.typeIds target = .ok heap) (hk : refKind target = .any)
    (nullable : Bool) (hi : decodeAnyrefHandle h.index = .slot i)
    (ho : x.inner.gc.arena.get i = some o) (hs : x.Stamp (x.inner.gc.arena.generation i) h)
    (hlive : x.LiveRef .any h.index) (hv : x.Stands .any (some h.index) (.anyRef (some h))) :
    ∃ b, x.refTest inst (some h.index) target nullable = .ok b ∧
      x.valMatchesInStore (.anyRef (some h)) (.ref nullable heap) = .ok b := by
  unfold refTest
  rw [hk]
  have hguest : isI31 (.anyRef (some h.index)) = false := by
    simp only [isI31, decodeAny, hi]
  have hkind := gcKind_slot (x := x) hi ho
  have hstruct : x.actualTypeId (.anyRef (some h.index)) .struct =
    .ok (o.kind.agg.map fun _ => o.typeId) := gcTypeId_slot hi ho
  have harray : x.actualTypeId (.anyRef (some h.index)) .array =
    .ok (o.kind.agg.map fun _ => o.typeId) := gcTypeId_slot hi ho
  have hhost : ∀ expected, x.heapMatches (.anyRef (some h)) expected = _ :=
    fun expected => anyrefMatches_slot hi ho hs expected
  cases target with
  | any =>
    obtain rfl := Except.ok.inj hheap
    exact ⟨true, rfl, (valMatchesInStore_live hlive hv rfl).trans (hhost _)⟩
  | eq =>
    obtain rfl := Except.ok.inj hheap
    refine ⟨decide (o.kind ≠ .extern_), ?_, (valMatchesInStore_live hlive hv rfl).trans (hhost _)⟩
    show x.isEq (.anyRef (some h.index)) = _
    unfold isEq
    rw [hguest, hkind]
    cases o.kind <;> rfl
  | i31 =>
    obtain rfl := Except.ok.inj hheap
    exact ⟨false, congrArg Except.ok hguest,
      (valMatchesInStore_live hlive hv rfl).trans (hhost _)⟩
  | struct =>
    obtain rfl := Except.ok.inj hheap
    refine ⟨decide (o.kind = .struct), ?_, (valMatchesInStore_live hlive hv rfl).trans (hhost _)⟩
    show (x.gcKind (.anyRef (some h.index)) >>= _) = _
    rw [hkind]
    cases o.kind <;> rfl
  | array =>
    obtain rfl := Except.ok.inj hheap
    refine ⟨decide (o.kind = .array), ?_, (valMatchesInStore_live hlive hv rfl).trans (hhost _)⟩
    show (x.gcKind (.anyRef (some h.index)) >>= _) = _
    rw [hkind]
    cases o.kind <;> rfl
  | none =>
    obtain rfl := Except.ok.inj hheap
    exact ⟨false, rfl, valMatchesInStore_mismatch rfl⟩
  | concrete idx kind =>
    obtain ⟨id, hidx, hret⟩ := bind_ok hheap
    have hidx := index_ok.mp hidx
    have htarget := canonicalTypeId_ok hm hidx
    have hmem := List.mem_of_getElem? hm
    have hreg := registered_kind (hx.registered m hmem) ht hidx
    have hshaped := hx.shaped i o ho
    cases kind with
    | func => cases hk
    | struct =>
      obtain rfl := Except.ok.inj hret
      refine ⟨_, concreteMatches_ok htarget hstruct,
        (valMatchesInStore_live hlive hv rfl).trans ((hhost _).trans ?_)⟩
      congr 1
      cases hok : o.kind with
      | struct => rfl
      | extern_ => rfl
      | array =>
        -- An array is of no subtype of a struct type.
        show false = x.inner.engine.isSubtype o.typeId id
        rw [eq_comm, Bool.eq_false_iff]
        intro hsub
        have hne : o.kind ≠ .extern_ := by rw [hok]; decide
        exact absurd ((subtype_kind hx hshaped hne hreg hsub).2 hok) (by decide)
    | array =>
      obtain rfl := Except.ok.inj hret
      refine ⟨_, concreteMatches_ok htarget harray,
        (valMatchesInStore_live hlive hv rfl).trans ((hhost _).trans ?_)⟩
      congr 1
      cases hok : o.kind with
      | array => rfl
      | extern_ => rfl
      | struct =>
        show false = x.inner.engine.isSubtype o.typeId id
        rw [eq_comm, Bool.eq_false_iff]
        intro hsub
        have hne : o.kind ≠ .extern_ := by rw [hok]; decide
        exact absurd ((subtype_kind hx hshaped hne hreg hsub).1 hok) (by decide)
  | _ => cases hk

/-- **The tests agree** on every live reference and every heap type of its hierarchy. -/
theorem tests_agree (hx : x.WellFormed) (hm : x.instances[inst]? = some m) (ht : HasHeap m target)
    (hheap : materializeHeap m.typeIds target = .ok heap) (nullable : Bool) {r : Option ℕ}
    (hlive : ∀ i ∈ r, x.LiveRef (refKind target) i) (hv : x.Stands (refKind target) r v) :
    ∃ b, x.refTest inst r target nullable = .ok b ∧
      x.valMatchesInStore v (.ref nullable heap) = .ok b := by
  cases r with
  | none => exact ⟨nullable, null_agree hheap nullable hv⟩
  | some r =>
    replace hlive := hlive r rfl
    cases hk : refKind target with
    | func =>
      rw [hk] at hlive hv
      exact func_agree hm hx.typed hheap hk nullable hlive hv
    | extern_ =>
      rw [hk] at hlive hv
      exact extern_agree hheap hk nullable hlive hv
    | exn =>
      rw [hk] at hlive hv
      exact exn_agree hheap hk nullable hlive hv
    | any =>
      rw [hk] at hlive hv
      have hv' := hv
      cases hv with
      | @any h hs =>
        cases hi : decodeAnyrefHandle h.index with
        | i31 p => exact i31_agree hm hheap hk nullable hi hlive hv'
        | slot i =>
          have hlive' := hlive
          unfold LiveRef at hlive'
          simp only [hi] at hs hlive'
          obtain ⟨o, ho⟩ := Option.ne_none_iff_exists'.mp hlive'
          exact slot_agree hx hm ht hheap hk nullable hi ho hs hlive hv'

/-! ## What passes can be read -/

/-- `get_s` and `get_u` are for packed slots. -/
def ExtFits (slot : Slot) (ext : Option Bool) : Prop :=
  ext = none ∨ ∃ offset, slot = .scalar offset .i8 ∨ slot = .scalar offset .i16

theorem readAs_ok {data : List UInt8} {ext : Option Bool} (h : TypeRegistry.AccessSound slot data)
    (hext : ExtFits slot ext) : ∃ v, readAs slot data ext = .ok v := by
  obtain ⟨v, hv, -⟩ := h.read
  cases ext with
  | none => exact ⟨v, orPanic_ok.mpr hv⟩
  | some signed =>
    have hpacked : ∃ w, readSlotPacked slot data signed = some w := by
      rcases hext with hn | ⟨offset, rfl | rfl⟩
      · nomatch hn
      · obtain ⟨bytes, hb, -⟩ := Option.map_eq_some_iff.mp hv
        exact ⟨_, by simp only [readSlotPacked, hb]; rfl⟩
      · obtain ⟨bytes, hb, -⟩ := Option.map_eq_some_iff.mp hv
        exact ⟨_, by simp only [readSlotPacked, hb]; rfl⟩
    obtain ⟨w, hw⟩ := hpacked
    refine ⟨.i32 w, ?_⟩
    unfold readAs
    simp only [hw]
    rfl

/-- A reference that passes for a concrete aggregate type is an object of a declared subtype. -/
theorem passes_concrete (hm : x.instances[inst]? = some m)
    (hk : refKind (.concrete idx kind) = .any)
    (h : x.refTest inst (some r) (.concrete idx kind) nullable = .ok true) :
    ∃ id i o, m.typeIds[idx]? = some id ∧ decodeAnyrefHandle r = .slot i ∧
      x.inner.gc.arena.get i = some o ∧ o.kind ≠ .extern_ ∧
      x.inner.engine.isSubtype o.typeId id = true := by
  unfold refTest at h
  rw [hk] at h
  obtain ⟨id, hid, h⟩ := bind_ok (show x.concreteMatches inst (.anyRef (some r)) idx kind = .ok true
    from h)
  obtain ⟨actual, hactual, h⟩ := bind_ok h
  obtain ⟨m', hm', hid⟩ := bind_ok hid
  rw [hm] at hm'
  obtain rfl := Except.ok.inj hm'
  have htype : x.gcTypeId (.anyRef (some r)) = .ok actual := by
    cases kind with
    | func => cases hk
    | struct => exact hactual
    | array => exact hactual
  cases hi : decodeAnyrefHandle r with
  | i31 p =>
    simp only [gcTypeId, decodeAny, hi] at htype
    obtain rfl := Except.ok.inj htype
    nomatch h
  | slot i =>
    cases ho : x.inner.gc.arena.get i with
    | none =>
      simp only [gcTypeId, decodeAny, hi, castObject, ho] at htype
      nomatch htype
    | some o =>
      rw [gcTypeId_slot hi ho] at htype
      obtain rfl := Except.ok.inj htype
      refine ⟨id, i, o, orPanic_ok.mp hid, rfl, ho, ?_, ?_⟩
      · intro hok
        rw [hok] at h
        nomatch h
      · cases hok : o.kind with
        | struct =>
          rw [hok] at h
          exact Except.ok.inj h
        | array =>
          rw [hok] at h
          exact Except.ok.inj h
        | extern_ =>
          rw [hok] at h
          nomatch h

/-- The layout of a type of a registered module, through its canonical id. -/
theorem registered_layout {r : TypeRegistry} (hm : m.Registered r)
    (hid : m.typeIds[idx]? = some id) : (m.layouts[idx]?).join = r.layoutOf id := by
  have h := congrArg (fun l => l[idx]?) hm
  simp only [List.getElem?_map, hid, Option.map_some] at h
  obtain ⟨ty, hty, heq⟩ := Option.map_eq_some_iff.mp h.symm
  obtain ⟨t, ht, rfl⟩ := Option.map_eq_some_iff.mp hty
  rw [TestModule.layouts, List.getElem?_map, ht]
  exact TypeRegistry.fromBody_eq heq.symm

theorem layoutOf_struct {r : TypeRegistry} {layout : StructLayout}
    (h : r.layoutOf id = some (.struct layout)) :
    ∃ fields, r.structFields id = some fields ∧ layout = Layout.forStruct fields := by
  unfold TypeRegistry.layoutOf at h
  cases hc : r.composite id with
  | none =>
    rw [hc] at h
    nomatch h
  | some c =>
    rw [hc] at h
    cases c with
    | func ps rs => exact nomatch h
    | struct fields =>
      exact ⟨fields, TypeRegistry.structFields_iff.mpr hc,
        (Layout.struct.inj (Option.some.inj h)).symm⟩
    | array field => exact nomatch h

theorem layoutOf_array {r : TypeRegistry} (h : r.layoutOf id = some (.array layout)) :
    ∃ field, r.arrayField id = some field ∧ layout = Layout.forArray field := by
  unfold TypeRegistry.layoutOf at h
  cases hc : r.composite id with
  | none =>
    rw [hc] at h
    nomatch h
  | some c =>
    rw [hc] at h
    cases c with
    | func ps rs => exact nomatch h
    | struct fields => exact nomatch h
    | array field =>
      exact ⟨field, TypeRegistry.arrayField_iff.mpr hc,
        (Layout.array.inj (Option.some.inj h)).symm⟩

theorem structField_ok {field : ℕ} (h : structField m ty field = .ok slot) :
    ∃ layout, (m.layouts[ty]?).join = some (.struct layout) ∧
      layout.fields[field]? = some slot := by
  unfold structField at h
  split at h
  · rename_i layout hl
    cases hf : layout.fields[field]? with
    | none =>
      simp only [hf] at h
      nomatch h
    | some slot' =>
      simp only [hf] at h
      obtain rfl := Except.ok.inj h
      exact ⟨layout, hl, hf⟩
  · nomatch h

theorem arrayLayout_ok (h : arrayLayout m ty = .ok layout) :
    (m.layouts[ty]?).join = some (.array layout) := by
  unfold arrayLayout at h
  split at h
  · rename_i layout' hl
    rw [← Except.ok.inj h]
    exact hl
  · nomatch h

/-- The object a handle of the embedder resolves to. -/
theorem hostObject_ok (hi : decodeAnyrefHandle r = .slot i) (ho : x.inner.gc.arena.get i = some o)
    (hv : x.Stands .any (some r) (.anyRef (some h))) : x.hostObject h = .ok o := by
  cases hv with
  | any hs =>
    simp only [hi] at hs
    unfold hostObject
    rw [gcSlotChecked_pass hi ho hs]
    simp only [liftFault, bind, Except.bind, ho]
    rfl

theorem anyrefSlot_ok (hi : decodeAnyrefHandle r = .slot i) (trap : TestError) :
    anyrefSlot (some r) trap = .ok i := by
  simp only [anyrefSlot, hi]

/-- A struct that passes for a struct type can be read at every field of the type, by the guest
and by the embedder. -/
theorem struct_readable (hx : x.WellFormed) (hm : x.instances[inst]? = some m)
    (ht : HasHeap m (.concrete ty .struct))
    (h : x.refTest inst (some r) (.concrete ty .struct) nullable = .ok true) {field : ℕ}
    (hslot : structField m ty field = .ok slot) :
    (∀ ext, ExtFits slot ext → ∃ v, x.structGet inst ty field ext (some r) = .ok v) ∧
      ∀ h : Rooted, x.Stands .any (some r) (.anyRef (some h)) →
        ∃ v, x.hostField h field = .ok v := by
  obtain ⟨id, i, o, hid, hi, ho, hne, hsub⟩ := passes_concrete hm rfl h
  have hreg := hx.registered m (List.mem_of_getElem? hm)
  have hshaped := hx.shaped i o ho
  have hsound := hx.sound _ _ (shaped_type hshaped hne) hsub
  have hkind : o.kind = .struct := by
    have hk := subtype_kind hx hshaped hne (registered_kind hreg ht hid) hsub
    cases hok : o.kind with
    | struct => rfl
    | array => exact nomatch hk.2 hok
    | extern_ => exact absurd hok hne
  obtain ⟨own, hown, hlen⟩ : ∃ layout, x.inner.engine.layoutOf o.typeId = some (.struct layout) ∧
      o.data.length = layout.size := by
    unfold GcObject.Shaped GcObject.LaidOut at hshaped
    simpa only [hkind] using hshaped
  obtain ⟨fs, hfs, rfl⟩ := layoutOf_struct hown
  obtain ⟨gs, hgs, hstruct⟩ := hsound.struct fs hfs
  obtain ⟨layout, hlayout, hfield⟩ := structField_ok hslot
  rw [registered_layout hreg hid] at hlayout
  obtain ⟨gs', hgs', rfl⟩ := layoutOf_struct hlayout
  rw [hgs] at hgs'
  obtain rfl := Option.some.inj hgs'
  obtain ⟨hfield', haccess⟩ := hstruct.access o.data field slot hlen hfield
  constructor
  · intro ext hext
    obtain ⟨v, hv⟩ := readAs_ok haccess hext
    refine ⟨v, ?_⟩
    unfold structGet
    rw [hm]
    simp only [orPanic, bind, Except.bind, hslot, anyrefSlot_ok hi, ho]
    exact hv
  · intro h hv
    obtain ⟨v, hread, -⟩ := haccess.read
    refine ⟨v, ?_⟩
    unfold hostField
    rw [hostObject_ok hi ho hv]
    simp only [bind, Except.bind, hfs, hfield', hread]
    rfl

theorem slot_width_pos (slot : Slot) : 0 < slot.width := by
  cases slot with
  | scalar offset kind => cases kind <;> exact Nat.succ_pos _
  | ref offset kind => exact Nat.succ_pos _

theorem arrayLen_bodySize (elem : Slot) {len : ℕ}
    (h : o.data.length = (ArrayLayout.of elem).bodySize len) :
    o.arrayLen (ArrayLayout.of elem).stride = len := by
  have hpos := slot_width_pos elem
  unfold GcObject.arrayLen
  rw [h]
  show len * elem.width / max elem.width 1 = len
  rw [max_eq_left hpos, Nat.mul_div_cancel _ hpos]

/-- An array that passes for an array type can be read at every element, by the guest and by the
embedder; an access beyond the end traps. -/
theorem array_readable (hx : x.WellFormed) (hm : x.instances[inst]? = some m)
    (ht : HasHeap m (.concrete ty .array))
    (h : x.refTest inst (some r) (.concrete ty .array) nullable = .ok true)
    (hlayout : arrayLayout m ty = .ok layout) :
    ∃ len, (∀ idx ext, ExtFits (layout.elemAt idx) ext →
        (idx < len → ∃ v, x.arrayGet inst ty idx ext (some r) = .ok v) ∧
        (len ≤ idx → x.arrayGet inst ty idx ext (some r) = .error .arrayOutOfBounds)) ∧
      ∀ h : Rooted, x.Stands .any (some r) (.anyRef (some h)) →
        ∀ idx < len, ∃ v, x.hostElement h idx = .ok v := by
  obtain ⟨id, i, o, hid, hi, ho, hne, hsub⟩ := passes_concrete hm rfl h
  have hreg := hx.registered m (List.mem_of_getElem? hm)
  have hshaped := hx.shaped i o ho
  have hsound := hx.sound _ _ (shaped_type hshaped hne) hsub
  have hkind : o.kind = .array := by
    have hk := subtype_kind hx hshaped hne (registered_kind hreg ht hid) hsub
    cases hok : o.kind with
    | array => rfl
    | struct => exact nomatch hk.1 hok
    | extern_ => exact absurd hok hne
  obtain ⟨own, len, hown, hlen⟩ : ∃ layout len,
      x.inner.engine.layoutOf o.typeId = some (.array layout) ∧
        o.data.length = layout.bodySize len := by
    unfold GcObject.Shaped GcObject.LaidOut at hshaped
    simpa only [hkind] using hshaped
  obtain ⟨f, hf, rfl⟩ := layoutOf_array hown
  obtain ⟨g, hg, harray⟩ := hsound.array f hf
  have htarget := arrayLayout_ok hlayout
  rw [registered_layout hreg hid] at htarget
  obtain ⟨g', hg', rfl⟩ := layoutOf_array htarget
  rw [hg] at hg'
  obtain rfl := Option.some.inj hg'
  have hcount : o.arrayLen (Layout.forArray f).stride = len := arrayLen_bodySize _ hlen
  have hcount' : o.arrayLen (Layout.forArray g).stride = len := by
    rw [← harray.layout]
    exact hcount
  refine ⟨len, fun idx ext hext => ⟨fun hidx => ?_, fun hidx => ?_⟩, ?_⟩
  · obtain ⟨v, hv⟩ := readAs_ok (harray.access o.data len idx hlen hidx) hext
    refine ⟨v, ?_⟩
    unfold arrayGet
    rw [hm]
    simp only [orPanic, bind, Except.bind, hlayout, anyrefSlot_ok hi, ho, hcount', if_pos hidx]
    exact hv
  · unfold arrayGet
    rw [hm]
    simp only [orPanic, bind, Except.bind, hlayout, anyrefSlot_ok hi, ho, hcount',
      if_neg (Nat.not_lt.mpr hidx)]
  · intro h hv idx hidx
    obtain ⟨v, hread, -⟩ := (harray.access o.data len idx hlen hidx).read
    refine ⟨v, ?_⟩
    unfold hostElement
    rw [hostObject_ok hi ho hv]
    rw [← harray.layout] at hread
    simp only [bind, Except.bind, hf, hcount, if_pos hidx, hread]
    rfl

/-- What is asked of the tests, for the types of a module that runs in the store: the walk of the
declared supertypes, which both make, comes back with the answer of `isSubtype`; they agree on every
live reference; and what passes for a concrete aggregate type can be read. -/
structure TypeTests (x : TestStore) (inst : ℕ) (m : TestModule) : Prop where
  walk : ∀ a b, x.inner.engine.SubtypeAnswers a b (x.inner.engine.isSubtype a b)
  agree : ∀ (target : IrHeap) (heap : HeapType) (nullable : Bool) (r : Option ℕ) (v : HostVal),
    HasHeap m target → materializeHeap m.typeIds target = .ok heap →
    (∀ i ∈ r, x.LiveRef (refKind target) i) → x.Stands (refKind target) r v →
    ∃ b, x.refTest inst r target nullable = .ok b ∧
      x.valMatchesInStore v (.ref nullable heap) = .ok b
  struct : ∀ (ty : ℕ) (nullable : Bool) (r field : ℕ) (slot : Slot),
    HasHeap m (.concrete ty .struct) →
    x.refTest inst (some r) (.concrete ty .struct) nullable = .ok true →
    structField m ty field = .ok slot →
    (∀ ext, ExtFits slot ext → ∃ v, x.structGet inst ty field ext (some r) = .ok v) ∧
      ∀ h : Rooted, x.Stands .any (some r) (.anyRef (some h)) → ∃ v, x.hostField h field = .ok v
  array : ∀ (ty : ℕ) (nullable : Bool) (r : ℕ) (layout : ArrayLayout),
    HasHeap m (.concrete ty .array) →
    x.refTest inst (some r) (.concrete ty .array) nullable = .ok true →
    arrayLayout m ty = .ok layout →
    ∃ len, (∀ idx ext, ExtFits (layout.elemAt idx) ext →
        (idx < len → ∃ v, x.arrayGet inst ty idx ext (some r) = .ok v) ∧
        (len ≤ idx → x.arrayGet inst ty idx ext (some r) = .error .arrayOutOfBounds)) ∧
      ∀ h : Rooted, x.Stands .any (some r) (.anyRef (some h)) →
        ∀ idx < len, ∃ v, x.hostElement h idx = .ok v

theorem WellFormed.typeTests (hx : x.WellFormed) (hm : x.instances[inst]? = some m) :
    x.TypeTests inst m where
  walk := TypeRegistry.subtypeAnswers_isSubtype hx.decided
  agree _ _ nullable _ _ ht hheap hlive hv := tests_agree hx hm ht hheap nullable hlive hv
  struct _ _ _ _ _ ht h hslot := struct_readable hx hm ht h hslot
  array _ _ _ _ ht h hlayout := array_readable hx hm ht h hlayout

end TestStore

/-! ## Histories of a store and its types -/

open TypeRegistry

/-- A store with the ledger of its engine's types, the modules the embedder holds, and the types
pinned for the objects the embedder built. -/
structure TestWorld where
  ledger : Ledger
  store : TestStore
  modules : List TestModule
  pins : List CanonicalTypeId

namespace TestWorld

/-- The types the store keeps registered: those of its modules and the pinned ones. -/
def storeKept (w : TestWorld) : List CanonicalTypeId :=
  w.store.instances.flatMap TestModule.typeIds ++ w.pins

def kept (w : TestWorld) : List CanonicalTypeId :=
  w.modules.flatMap TestModule.typeIds ++ w.storeKept

def withLedger (w : TestWorld) (l : Ledger) : TestWorld :=
  { w with
    ledger := l
    store := { w.store with inner := { w.store.inner with engine := l.reg } } }

/-- The store with another object. -/
def place (w : TestWorld) (o : GcObject) : TestWorld :=
  { w with
    store := { w.store with
      inner := { w.store.inner with
        gc := { w.store.inner.gc with arena := (w.store.inner.gc.arena.alloc o).2 } } } }

def withInner (w : TestWorld) (s : StoreInner) : TestWorld :=
  { w with store := { w.store with inner := s } }

def start (id : ℕ) (collecting : Bool) (reservation : ℕ) : TestWorld where
  ledger := .start
  store := ⟨StoreInner.new Ledger.start.reg collecting reservation, id, [], []⟩
  modules := []
  pins := []

/-- One step of a history.  Types are registered and released by what holds them; the objects of
a running instance have its types, those of the embedder a type it holds, which is pinned.  What
an instantiation that fails leaves behind is reached by no value and is left out. -/
inductive Step (P : Ledger → TypeOp → Prop) : TestWorld → TestWorld → Prop where
  | types {w : TestWorld} {op : TypeOp} {l : Ledger} : op.Admitted w.ledger → P w.ledger op →
      op.step w.ledger = some l → (∀ id ∈ w.kept, l.reg.type? id ≠ none) →
      Step P w (w.withLedger l)
  | compile {w : TestWorld} {m : TestModule} {l : Ledger} :
      (TypeOp.front (.module m.types)).Admitted w.ledger →
      P w.ledger (.front (.module m.types)) →
      FrontOp.step w.ledger (.module m.types) = some (m.typeIds, l) →
      (∀ id ∈ w.kept, l.reg.type? id ≠ none) →
      Step P w { w.withLedger l with modules := w.modules ++ [m] }
  | dropModule {w : TestWorld} (i : ℕ) : Step P w { w with modules := w.modules.eraseIdx i }
  | instantiate {w : TestWorld} {m : TestModule} (imported : ℕ) : m ∈ w.modules →
      Step P w { w with
        store := { w.store with
          instances := w.store.instances ++ [m]
          funcs := w.store.funcs ++ (List.range' imported (m.funcTypes.length - imported)).map
            (.wasm w.store.instances.length) } }
  | hostFunc {w : TestWorld} (id : CanonicalTypeId) :
      Step P w { w with store := { w.store with funcs := w.store.funcs ++ [.host id] } }
  | guestNew {w : TestWorld} {inst idx : ℕ} {m : TestModule} {o : GcObject} :
      w.store.instances[inst]? = some m → m.typeIds[idx]? = some o.typeId →
      o.LaidOut (m.layouts[idx]?).join → Step P w (w.place o)
  | hostNew {w : TestWorld} {o : GcObject} : o.Shaped w.ledger.reg → o.kind ≠ .extern_ →
      Step P w { w.place o with pins := o.typeId :: w.pins }
  | wrap {w : TestWorld} {o : GcObject} : o.kind = .extern_ → Step P w (w.place o)
  | write {w : TestWorld} (index : ℕ) (data : List UInt8) :
      Step P w (w.withInner { w.store.inner with
        gc := { w.store.inner.gc with
          arena := w.store.inner.gc.arena.update index (GcObject.rewrite data) } })
  | collect {w : TestWorld} {s : StoreInner} (stackRoots : List (ℕ × RefKind)) :
      w.store.inner.collect stackRoots = some (.ok s) → Step P w (w.withInner s)
  | other {w : TestWorld} {s : StoreInner} : s.gc.arena = w.store.inner.gc.arena →
      s.engine = w.store.inner.engine → Step P w (w.withInner s)

def Run (P : Ledger → TypeOp → Prop) : TestWorld → TestWorld → Prop :=
  Relation.ReflTransGen (Step P)

/-- The invariant: what is kept is registered, and what is in the store is of types it keeps. -/
structure Inv (w : TestWorld) : Prop where
  balanced : w.ledger.Balanced
  declares : Declares w.ledger.reg
  ends : ∀ a, Chains.Ends w.ledger.reg.superOf a
  engine : w.store.inner.engine = w.ledger.reg
  live : ∀ id ∈ w.kept, w.ledger.reg.type? id ≠ none
  modules : ∀ m ∈ w.modules, m.Registered w.ledger.reg
  instances : ∀ m ∈ w.store.instances, m.Registered w.ledger.reg
  funcs : ∀ inst i, FuncEntity.wasm inst i ∈ w.store.funcs →
    ∃ m, w.store.instances[inst]? = some m ∧ i < m.funcTypes.length
  shaped : ∀ i o, w.store.inner.gc.arena.get i = some o →
    o.Shaped w.ledger.reg ∧ (o.kind ≠ .extern_ → o.typeId ∈ w.storeKept)

/-! ### What stays as types come and go -/

variable {id : CanonicalTypeId} {w : TestWorld} {r r' : TypeRegistry}

theorem registered_coherent (hco : Coherent r r') {m : TestModule} (hm : m.Registered r)
    (hlive : ∀ id ∈ m.typeIds, r'.type? id ≠ none) : m.Registered r' := by
  have hsame : m.typeIds.map r'.type? = m.typeIds.map r.type? := by
    refine List.map_congr_left fun id hid => ?_
    have hmem : r.type? id ∈ m.typeIds.map r.type? := List.mem_map_of_mem hid
    rw [hm] at hmem
    obtain ⟨t, -, ht⟩ := List.mem_map.mp hmem
    obtain ⟨t', ht'⟩ := Option.ne_none_iff_exists'.mp (hlive id hid)
    rw [ht', ← ht, hco id t t' ht.symm ht']
  exact hsame.trans hm

theorem layoutOf_coherent (hco : Coherent r r') {layout : Layout} (h : r.layoutOf id = some layout)
    (hlive : r'.type? id ≠ none) : r'.layoutOf id = some layout := by
  unfold layoutOf at h ⊢
  cases hc : r.composite id with
  | none =>
    rw [hc] at h
    nomatch h
  | some c =>
    rw [hco.composite hc hlive]
    rwa [hc] at h

theorem shaped_coherent (hco : Coherent r r') {o : GcObject} (ho : o.Shaped r)
    (hlive : o.kind ≠ .extern_ → r'.type? o.typeId ≠ none) : o.Shaped r' := by
  unfold GcObject.Shaped GcObject.LaidOut at ho ⊢
  cases hk : o.kind with
  | struct =>
    simp only [hk] at ho ⊢
    obtain ⟨layout, hl, hlen⟩ := ho
    exact ⟨layout, layoutOf_coherent hco hl (hlive (by rw [hk]; decide)), hlen⟩
  | array =>
    simp only [hk] at ho ⊢
    obtain ⟨layout, len, hl, hlen⟩ := ho
    exact ⟨layout, len, layoutOf_coherent hco hl (hlive (by rw [hk]; decide)), hlen⟩
  | extern_ => trivial

/-! ### What is kept -/

theorem mem_storeKept :
    id ∈ w.storeKept ↔ (∃ m ∈ w.store.instances, id ∈ m.typeIds) ∨ id ∈ w.pins := by
  simp [storeKept]

theorem mem_kept : id ∈ w.kept ↔ (∃ m ∈ w.modules, id ∈ m.typeIds) ∨ id ∈ w.storeKept := by
  simp [kept]

/-- The types of a registered module are registered. -/
theorem registered_live {m : TestModule} (hm : m.Registered r) :
    ∀ id ∈ m.typeIds, r.type? id ≠ none := by
  intro id hid hnone
  have hmem : r.type? id ∈ m.typeIds.map r.type? := List.mem_map_of_mem hid
  rw [hm, hnone] at hmem
  obtain ⟨t, -, ht⟩ := List.mem_map.mp hmem
  nomatch ht

/-! ### The invariant, step by step -/

theorem start_inv (id : ℕ) (collecting : Bool) (reservation : ℕ) :
    (start id collecting reservation).Inv where
  balanced := Ledger.balanced_start
  declares := (TypeReached.start (P := fun l op => op.Checked l)).declares.2
  ends := (TypeReached.start (P := fun _ op => op.Ordered)).ends.2
  engine := rfl
  live _ h := nomatch h
  modules _ h := nomatch h
  instances _ h := nomatch h
  funcs _ _ h := nomatch h
  shaped i o h := by
    have hempty : ReclaimArena.empty.get i = (none : Option GcObject) :=
      entry_of_length_le (Nat.zero_le i)
    exact absurd (hempty.symm.trans h) (by simp)

section

variable {w : TestWorld} (hw : w.Inv)

include hw

variable {o : GcObject}

/-- What the invariant says of the heap, as other objects are placed. -/
theorem Inv.place {pins : List CanonicalTypeId} (ho : o.Shaped w.ledger.reg) (hpins : w.pins ⊆ pins)
    (hlive : ∀ id ∈ pins, w.ledger.reg.type? id ≠ none)
    (hkept : o.kind ≠ .extern_ → (∃ m ∈ w.store.instances, o.typeId ∈ m.typeIds) ∨
      o.typeId ∈ pins) : Inv { w.place o with pins } where
  balanced := hw.balanced
  declares := hw.declares
  ends := hw.ends
  engine := hw.engine
  live id hid := by
    rw [mem_kept, mem_storeKept] at hid
    obtain hid | hid | hid := hid
    · exact hw.live id (mem_kept.mpr (Or.inl hid))
    · exact hw.live id (mem_kept.mpr (Or.inr (mem_storeKept.mpr (Or.inl hid))))
    · exact hlive id hid
  modules := hw.modules
  instances := hw.instances
  funcs := hw.funcs
  shaped i o' ho' := by
    have hget := w.store.inner.gc.arena.alloc_get o i
    replace ho' : (w.store.inner.gc.arena.alloc o).2.get i = some o' := ho'
    rw [hget] at ho'
    split at ho'
    · obtain rfl := Option.some.inj ho'
      exact ⟨ho, fun hne => mem_storeKept.mpr (hkept hne)⟩
    · obtain ⟨hs, hk⟩ := hw.shaped i o' ho'
      refine ⟨hs, fun hne => mem_storeKept.mpr ?_⟩
      exact (mem_storeKept.mp (hk hne)).imp_right fun h => hpins h

/-- The pins are registered. -/
theorem Inv.pins_live : ∀ id ∈ w.pins, w.ledger.reg.type? id ≠ none := fun id hid =>
  hw.live id (mem_kept.mpr (Or.inr (mem_storeKept.mpr (Or.inr hid))))

/-- The invariant under a change of the heap that invents no object. -/
theorem Inv.withInner {s : StoreInner} (he : s.engine = w.store.inner.engine)
    (h : ∀ i o, s.gc.arena.get i = some o → ∃ o', w.store.inner.gc.arena.get i = some o' ∧
      o.kind = o'.kind ∧ o.typeId = o'.typeId ∧ o.data.length = o'.data.length) :
    (w.withInner s).Inv where
  balanced := hw.balanced
  declares := hw.declares
  ends := hw.ends
  engine := he.trans hw.engine
  live := hw.live
  modules := hw.modules
  instances := hw.instances
  funcs := hw.funcs
  shaped i o ho := by
    obtain ⟨o', ho', hkind, htype, hlen⟩ := h i o ho
    obtain ⟨hs, hk⟩ := hw.shaped i o' ho'
    constructor
    · unfold GcObject.Shaped GcObject.LaidOut at hs ⊢
      rw [hkind, htype, hlen]
      exact hs
    · rw [hkind, htype]
      exact hk

/-- The invariant under a registration that keeps what is kept. -/
theorem Inv.types {op : TypeOp} {l : Ledger} (hop : op.Admitted w.ledger)
    (hproper : op.Proper w.ledger) (hstep : op.step w.ledger = some l)
    (hlive : ∀ id ∈ w.kept, l.reg.type? id ≠ none) : (w.withLedger l).Inv := by
  obtain ⟨hb, hco, hd⟩ := TypeOp.declares hw.balanced hw.declares hop hproper.1 hstep
  refine ⟨hb, hd, (TypeOp.ends hw.balanced hw.ends hop hproper.2 hstep).2, rfl, hlive,
    fun m hm => ?_, fun m hm => ?_, hw.funcs, fun i o ho => ?_⟩
  · exact registered_coherent hco (hw.modules m hm) fun id hid =>
      hlive id (mem_kept.mpr (Or.inl ⟨m, hm, hid⟩))
  · exact registered_coherent hco (hw.instances m hm) fun id hid =>
      hlive id (mem_kept.mpr (Or.inr (mem_storeKept.mpr (Or.inl ⟨m, hm, hid⟩))))
  · obtain ⟨hs, hk⟩ := hw.shaped i o ho
    exact ⟨shaped_coherent hco hs fun hne => hlive _ (mem_kept.mpr (Or.inr (hk hne))), hk⟩

/-- A module whose types are registered is compiled. -/
theorem Inv.compile {m : TestModule} (hm : m.Registered w.ledger.reg) :
    Inv { w with modules := w.modules ++ [m] } := by
  refine ⟨hw.balanced, hw.declares, hw.ends, hw.engine, fun id hid => ?_, fun m' hm' => ?_,
    hw.instances, hw.funcs, hw.shaped⟩
  · obtain ⟨m', hm', hid⟩ | hid := mem_kept.mp hid
    · obtain hm' | hm' := List.mem_append.mp hm'
      · exact hw.live id (mem_kept.mpr (Or.inl ⟨m', hm', hid⟩))
      · rw [List.mem_singleton.mp hm'] at hid
        exact registered_live hm id hid
    · exact hw.live id (mem_kept.mpr (Or.inr hid))
  · obtain hm' | hm' := List.mem_append.mp hm'
    · exact hw.modules m' hm'
    · rw [List.mem_singleton.mp hm']
      exact hm

theorem Inv.dropModule (i : ℕ) : Inv { w with modules := w.modules.eraseIdx i } := by
  have hsub : w.modules.eraseIdx i ⊆ w.modules := List.eraseIdx_subset
  refine ⟨hw.balanced, hw.declares, hw.ends, hw.engine, fun id hid => ?_,
    fun m hm => hw.modules m (hsub hm), hw.instances, hw.funcs, hw.shaped⟩
  obtain ⟨m, hm, hid⟩ | hid := mem_kept.mp hid
  · exact hw.live id (mem_kept.mpr (Or.inl ⟨m, hsub hm, hid⟩))
  · exact hw.live id (mem_kept.mpr (Or.inr hid))

/-- An instance keeps the types of its module registered, and its functions are the module's. -/
theorem Inv.instantiate {m : TestModule} (imported : ℕ) (hm : m ∈ w.modules) :
    Inv { w with
      store := { w.store with
        instances := w.store.instances ++ [m]
        funcs := w.store.funcs ++ (List.range' imported (m.funcTypes.length - imported)).map
          (.wasm w.store.instances.length) } } := by
  refine ⟨hw.balanced, hw.declares, hw.ends, hw.engine, fun id hid => ?_, hw.modules,
    fun m' hm' => ?_, fun inst i hf => ?_, fun i o ho => ⟨(hw.shaped i o ho).1, fun hne => ?_⟩⟩
  · rw [mem_kept, mem_storeKept] at hid
    obtain hid | ⟨m', hm', hid⟩ | hid := hid
    · exact hw.live id (mem_kept.mpr (Or.inl hid))
    · obtain hm' | hm' := List.mem_append.mp hm'
      · exact hw.live id (mem_kept.mpr (Or.inr (mem_storeKept.mpr (Or.inl ⟨m', hm', hid⟩))))
      · rw [List.mem_singleton.mp hm'] at hid
        exact registered_live (hw.modules m hm) id hid
    · exact hw.pins_live id hid
  · obtain hm' | hm' := List.mem_append.mp hm'
    · exact hw.instances m' hm'
    · rw [List.mem_singleton.mp hm']
      exact hw.modules m hm
  · obtain hf | hf := List.mem_append.mp hf
    · obtain ⟨m', hm', hi⟩ := hw.funcs inst i hf
      refine ⟨m', ?_, hi⟩
      rw [List.getElem?_append_left (List.getElem?_eq_some_iff.mp hm').1, hm']
    · obtain ⟨j, hj, heq⟩ := List.mem_map.mp hf
      obtain ⟨rfl, rfl⟩ := FuncEntity.wasm.inj heq
      refine ⟨m, List.getElem?_concat_length, ?_⟩
      have := List.mem_range'_1.mp hj
      omega
  · rw [mem_storeKept]
    refine (mem_storeKept.mp ((hw.shaped i o ho).2 hne)).imp_left ?_
    exact fun ⟨m', hm', hid⟩ => ⟨m', List.mem_append_left _ hm', hid⟩

theorem Inv.hostFunc (id : CanonicalTypeId) :
    Inv { w with store := { w.store with funcs := w.store.funcs ++ [.host id] } } := by
  refine ⟨hw.balanced, hw.declares, hw.ends, hw.engine, hw.live, hw.modules, hw.instances,
    fun inst i hf => ?_, hw.shaped⟩
  obtain hf | hf := List.mem_append.mp hf
  · exact hw.funcs inst i hf
  · nomatch List.mem_singleton.mp hf

/-- An object of a running instance has one of its module's types. -/
theorem Inv.guestNew {inst idx : ℕ} {m : TestModule} (hm : w.store.instances[inst]? = some m)
    (hid : m.typeIds[idx]? = some o.typeId) (ho : o.LaidOut (m.layouts[idx]?).join) :
    (w.place o).Inv := by
  have hmem := List.mem_of_getElem? hm
  rw [TestStore.registered_layout (hw.instances m hmem) hid] at ho
  exact hw.place ho (List.Subset.refl _) hw.pins_live
    fun _ => Or.inl ⟨m, hmem, List.mem_of_getElem? hid⟩

/-- An object of the embedder's has a registered type, which it pins. -/
theorem Inv.hostNew (ho : o.Shaped w.ledger.reg) (hne : o.kind ≠ .extern_) :
    Inv { w.place o with pins := o.typeId :: w.pins } := by
  refine hw.place ho (List.subset_cons_self _ _) (fun id hid => ?_)
    fun _ => Or.inr List.mem_cons_self
  obtain rfl | hid := List.mem_cons.mp hid
  · exact TestStore.shaped_type ho hne
  · exact hw.pins_live id hid

theorem Inv.wrap (hk : o.kind = .extern_) : (w.place o).Inv := by
  refine hw.place ?_ (List.Subset.refl _) hw.pins_live fun hne => absurd hk hne
  unfold GcObject.Shaped GcObject.LaidOut
  rw [hk]
  trivial

/-- A body is overwritten by one of its length, or not at all. -/
theorem Inv.write (index : ℕ) (data : List UInt8) :
    (w.withInner { w.store.inner with
      gc := { w.store.inner.gc with
        arena := w.store.inner.gc.arena.update index (GcObject.rewrite data) } }).Inv := by
  refine hw.withInner rfl fun i o ho => ?_
  have hget := w.store.inner.gc.arena.update_get index (GcObject.rewrite data) i
  replace ho : (w.store.inner.gc.arena.update index (GcObject.rewrite data)).get i = some o := ho
  rw [hget] at ho
  split at ho
  · rename_i hi
    obtain ⟨o', ho', rfl⟩ := Option.map_eq_some_iff.mp ho
    refine ⟨o', hi ▸ ho', ?_⟩
    unfold GcObject.rewrite
    split
    · rename_i hlen
      exact ⟨rfl, rfl, hlen⟩
    · exact ⟨rfl, rfl, rfl⟩
  · exact ⟨o, ho, rfl, rfl, rfl⟩

end

/-- The objects of a swept heap were there before. -/
theorem collect_get {s s' : StoreInner} {stackRoots : List (ℕ × RefKind)}
    (h : s.collect stackRoots = some (.ok s')) {i : ℕ} {o : GcObject}
    (ho : s'.gc.arena.get i = some o) : s.gc.arena.get i = some o := by
  by_cases hc : s.gc.collecting = true
  · obtain ⟨t, -, rfl⟩ := collect_ok hc h
    have hget := (s.gc.arena.sweep_spec (marked t.marks) GcObject.byteSize i).1
    replace ho : (s.gc.arena.sweep (marked t.marks) GcObject.byteSize).1.get i = some o := ho
    rw [hget] at ho
    split at ho
    · exact ho
    · nomatch ho
  · rw [StoreInner.collect, if_pos (by simpa using hc)] at h
    obtain rfl := Except.ok.inj (Option.some.inj h)
    exact ho

theorem collect_engine {s s' : StoreInner} {stackRoots : List (ℕ × RefKind)}
    (h : s.collect stackRoots = some (.ok s')) : s'.engine = s.engine := by
  by_cases hc : s.gc.collecting = true
  · obtain ⟨t, -, rfl⟩ := collect_ok hc h
    rfl
  · rw [StoreInner.collect, if_pos (by simpa using hc)] at h
    obtain rfl := Except.ok.inj (Option.some.inj h)
    rfl

/-- **The step lemma.** -/
theorem Step.inv {w' : TestWorld} (h : Step (fun l op => op.Proper l) w w') (hw : w.Inv) :
    w'.Inv := by
  cases h with
  | types hop hproper hstep hlive => exact hw.types hop hproper hstep hlive
  | @compile m l hop hproper hstep hlive =>
    obtain ⟨-, ⟨hans, -⟩, -⟩ := FrontOp.step_spec hw.balanced hop.1 hstep
    have hfront : (TypeOp.front (.module m.types)).step w.ledger = some l := by
      rw [TypeOp.step, hstep, Option.map_some]
    exact (hw.types hop hproper hfront hlive).compile hans
  | dropModule i => exact hw.dropModule i
  | instantiate imported hm => exact hw.instantiate imported hm
  | hostFunc id => exact hw.hostFunc id
  | guestNew hm hid ho => exact hw.guestNew hm hid ho
  | hostNew ho hne => exact hw.hostNew ho hne
  | wrap hk => exact hw.wrap hk
  | write index data => exact hw.write index data
  | collect stackRoots hcol =>
    exact hw.withInner (collect_engine hcol) fun i o ho =>
      ⟨o, collect_get hcol ho, rfl, rfl, rfl⟩
  | other ha he =>
    refine hw.withInner he fun i o ho => ?_
    rw [ha] at ho
    exact ⟨o, ho, rfl, rfl, rfl⟩

theorem Inv.wellFormed (hw : w.Inv) : w.store.WellFormed where
  wf := by
    rw [hw.engine]
    exact hw.balanced.wf
  shaped i o ho := by
    rw [hw.engine]
    exact (hw.shaped i o ho).1
  registered m hm := by
    rw [hw.engine]
    exact hw.instances m hm
  sound a b ha hab := by
    rw [hw.engine] at ha hab ⊢
    exact hw.declares.sound hw.balanced.wf ha hab
  decided := by
    rw [hw.engine]
    exact TypeRegistry.subtypeDecided_iff.mpr hw.ends
  typed f hf := by
    obtain ⟨e, he⟩ := Option.ne_none_iff_exists'.mp hf
    unfold TestStore.funcTypeId
    rw [he]
    cases e with
    | host ty => exact ⟨ty, rfl⟩
    | wasm inst i =>
      obtain ⟨m, hm, hi⟩ := hw.funcs inst i (List.mem_of_getElem? he)
      have hlen : m.typeIds.length = m.types.length := by
        have h := congrArg List.length (hw.instances m (List.mem_of_getElem? hm))
        simpa only [List.length_map] using h
      have hty := m.funcTypes_lt _ (List.getElem_mem hi)
      obtain ⟨id, hid⟩ : ∃ id, m.typeIds[m.funcTypes[i]]? = some id :=
        ⟨_, List.getElem?_eq_getElem (hlen ▸ hty)⟩
      refine ⟨id, ?_⟩
      simp only [orPanic, bind, Except.bind, hm, List.getElem?_eq_getElem hi, hid]

theorem Run.inv {w' : TestWorld} (h : Run (fun l op => op.Proper l) w w') (hw : w.Inv) :
    w'.Inv := by
  induction h with
  | refl => exact hw
  | tail _ hstep ih => exact hstep.inv ih

/-- **The tests of guest and host agree**, and what passes for a concrete aggregate type can be
read at every field and element, in every history in which the constructors are given supertypes
the builder would accept and no group declares a cycle of supertypes. -/
theorem type_tests {id reservation : ℕ} {collecting : Bool} {w : TestWorld}
    (h : Run (fun l op => op.Proper l) (start id collecting reservation) w) {inst : ℕ}
    {m : TestModule} (hm : w.store.instances[inst]? = some m) : w.store.TypeTests inst m :=
  (h.inv (start_inv id collecting reservation)).wellFormed.typeTests hm

/-! ### A module with one struct type, and a declared subtype of the embedder's -/

/-- A module with a struct type of one `i32`. -/
def oneStruct : TestModule where
  types := [⟨0, .nonFinal, none, .struct [i32Field.toIr]⟩]
  typeIds := [0]
  funcTypes := []
  funcTypes_lt _ h := nomatch h

/-- The module runs. -/
def oneWorld : TestWorld :=
  let w := { (start 1 false 0).withLedger (baseLedger .nonFinal) with modules := [oneStruct] }
  { w with store := { w.store with instances := [oneStruct] } }

/-- There is an object of a declared subtype with the fields `sub`. -/
def subWorld (sub : List FieldType) (data : List UInt8) : TestWorld :=
  { (oneWorld.withLedger (pairLedger .nonFinal sub)).place ⟨1, .struct, data⟩ with pins := [1] }

theorem oneStruct_admitted : (TypeOp.front (.module oneStruct.types)).Admitted Ledger.start := by
  constructor
  · intro i t ht k hk
    cases i with
    | zero =>
      obtain rfl := Option.some.inj ht
      nomatch hk
    | succ i => exact nomatch ht
  · intro ids l _ i j t ht hj
    cases i with
    | zero =>
      obtain rfl := Option.some.inj ht
      nomatch hj
    | succ i => exact nomatch ht

/-- Its only type declares no supertype. -/
theorem oneStruct_earlier : Earlier oneStruct.types := by
  intro i j t ht hj
  cases i with
  | zero =>
    obtain rfl := Option.some.inj ht
    nomatch hj
  | succ i => exact nomatch ht

theorem oneWorld_run {P : Ledger → TypeOp → Prop}
    (hP : P Ledger.start (.front (.module oneStruct.types))) :
    Run P (start 1 false 0) oneWorld := by
  have hcompile : Step P (start 1 false 0)
      { (start 1 false 0).withLedger (baseLedger .nonFinal) with modules := [oneStruct] } :=
    .compile (m := oneStruct) oneStruct_admitted hP (by rfl) fun id h => nomatch h
  exact .tail (.single hcompile) (.instantiate (m := oneStruct) 0 List.mem_cons_self)

theorem subWorld_run {P : Ledger → TypeOp → Prop} {sub : List FieldType} {data : List UInt8}
    (hmodule : P Ledger.start (.front (.module oneStruct.types)))
    (hP : P (baseLedger .nonFinal) (.front (.struct .final (some 0) sub)))
    (hadmitted : FrontOp.Admitted (baseLedger .nonFinal) (.struct .final (some 0) sub))
    (hstep : TypeOp.step (baseLedger .nonFinal) (.front (.struct .final (some 0) sub)) =
      some (pairLedger .nonFinal sub))
    (hshaped : GcObject.Shaped (pairLedger .nonFinal sub).reg ⟨1, .struct, data⟩) :
    Run P (start 1 false 0) (subWorld sub data) := by
  have htypes : Step P oneWorld (oneWorld.withLedger (pairLedger .nonFinal sub)) := by
    have hop : (TypeOp.front (.struct .final (some 0) sub)).Admitted oneWorld.ledger :=
      ⟨hadmitted, trivial⟩
    refine Step.types hop hP hstep fun id hid => ?_
    have hid : id ∈ [0, 0] := hid
    obtain rfl : id = 0 := by simpa using hid
    exact nofun
  exact .tail (.tail (oneWorld_run hmodule) htypes) (.hostNew hshaped nofun)

/-- The subtype the builder accepts. -/
theorem type_tests_pair :
    (subWorld [i32Field, i64Field] (List.replicate 12 0)).store.TypeTests 0 oneStruct := by
  have hop : FrontOp.Admitted (baseLedger .nonFinal)
      (.struct .final (some 0) [i32Field, i64Field]) :=
    show ∀ id ∈ [0], (baseLedger .nonFinal).reg.type? id ≠ none by decide
  have hrun : Run (fun l op => op.Proper l) (start 1 false 0)
      (subWorld [i32Field, i64Field] (List.replicate 12 0)) :=
    subWorld_run ⟨trivial, oneStruct_earlier⟩ ⟨⟨by decide, [i32Field], by rfl, by decide⟩, trivial⟩
      hop (by rfl) ⟨_, rfl, by decide⟩
  exact type_tests hrun rfl

/-- The constructor accepts a subtype without the supertype's field: the object passes for the
supertype, and its body is too short for the field. -/
theorem not_type_tests_pair :
    ¬ ∀ (id reservation : ℕ) (collecting : Bool) (w : TestWorld),
      Run (fun _ op => op.Validated) (start id collecting reservation) w →
        ∀ (inst : ℕ) (m : TestModule),
        w.store.instances[inst]? = some m → w.store.TypeTests inst m := by
  intro h
  have hop : FrontOp.Admitted (baseLedger .nonFinal) (.struct .final (some 0) []) :=
    show ∀ id ∈ [0], (baseLedger .nonFinal).reg.type? id ≠ none by decide
  have hrun : Run (fun _ op => op.Validated) (start 1 false 0) (subWorld [] []) :=
    subWorld_run oneStruct_earlier trivial hop (by rfl) ⟨_, rfl, rfl⟩
  have htests := h 1 0 false _ hrun 0 oneStruct rfl
  obtain ⟨hread, -⟩ :=
    htests.struct 0 false 0 0 (.scalar 0 .i32) ⟨_, rfl, rfl⟩ (by decide) (by decide)
  obtain ⟨v, hv⟩ := hread none (Or.inl rfl)
  have herror : (subWorld [] []).store.structGet 0 0 0 none (some 0) = .error .panic := by decide
  rw [herror] at hv
  nomatch hv

end TestWorld

end SubmilliWasm
