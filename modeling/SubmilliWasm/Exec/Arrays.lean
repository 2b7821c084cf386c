/-
# Arrays of the embedder

The array API of the embedder (`src/value/gc_aggregate.rs`).  Elements are written and read one at
a time through the codec of the element slot, or many at once: constructors that copy a slice into
the body or repeat one encoded element, and copies between a slice and a range of the body.  The
bulk paths have their own arithmetic of lengths and ranges and their own byte order.

They are meant to be no more than a shortcut, and what that means is stated at the end: a bulk
constructor reserves the charge of `new_fixed` and builds its body, a bulk read sees what `get`
sees of every element, and a bulk write leaves the store that setting one element after the other
leaves, or fails and leaves it as it was.
-/
import SubmilliWasm.Exec.Bulk
import SubmilliWasm.Exec.Reserve

namespace SubmilliWasm

open Fallible
open Ranges (window overwrite chunk)

/-! ## The embedder's view of a store -/

/-- A store the embedder works on: its managed side, and what the checks of values read. -/
structure HostCtx where
  store : Store
  id : ℕ
  instances : List TestModule
  funcs : List FuncEntity

def HostCtx.view (x : HostCtx) : TestStore := ⟨x.store.inner, x.id, x.instances, x.funcs⟩

/-- What is decided outside of the store: the references of the parked execution, the answer of the
limiter, and which requests for a buffer the allocator grants. -/
structure HostEnv where
  execRoots : List (ℕ × RefKind)
  limiter : Store.Limiter
  grants : ℕ → Bool

inductive HostError where
  | store (e : StoreError)
  | test (e : TestError)
  | allocator
  deriving DecidableEq, Repr

/-- The store after a call of the embedder, with its result or error. -/
abbrev HostResult (α : Type) := HostCtx × Except HostError α

/-- Goes on after a check that changes nothing. -/
def HostResult.check {α β : Type} (x : HostCtx) (r : Except HostError α) (f : α → HostResult β) :
    HostResult β :=
  match r with
  | .ok a => f a
  | .error e => (x, .error e)

def liftTest {α : Type} : Except TestError α → Except HostError α
  | .ok a => .ok a
  | .error e => .error (.test e)

/-- A slice of the embedder, of elements `width` bytes wide: no slice spans more than `isize::MAX`
bytes. -/
structure HostSlice (α : Type) (width : ℕ) where
  elems : List α
  spans : elems.length * width ≤ isizeMax

/-- A value as it is stored: a handle without its stamps. -/
def HostVal.raw : HostVal → Val
  | .i32 v => .i32 v
  | .i64 v => .i64 v
  | .f32 v => .f32 v
  | .f64 v => .f64 v
  | .v128 v => .v128 v
  | .funcRef f => .funcRef (f.map FuncHandle.index)
  | .externRef r => .externRef (r.map Rooted.index)
  | .anyRef r => .anyRef (r.map Rooted.index)
  | .exnRef r => .exnRef (r.map Rooted.index)

/-! ## Bodies -/

/-- The element types of the bulk paths. -/
inductive PackedKind where
  | i8
  | i16
  | i64
  deriving DecidableEq, Repr

namespace PackedKind

def storage : PackedKind → StorageType
  | .i8 => .i8
  | .i16 => .i16
  | .i64 => .valType .i64

def width : PackedKind → ℕ
  | .i8 => 1
  | .i16 => 2
  | .i64 => 8

/-- The `Debug` text of the storage type. -/
def debug : PackedKind → String
  | .i8 => "I8"
  | .i16 => "I16"
  | .i64 => "ValType(I64)"

/-- The value of an element of the bulk paths, zero-extended. -/
def val (kind : PackedKind) (unit : ℕ) : HostVal :=
  match kind with
  | .i8 | .i16 => .i32 (BitVec.ofNat 32 unit)
  | .i64 => .i64 (BitVec.ofNat 64 unit)

end PackedKind

/-- Overwrites the pieces of width `w` from the `i`-th on, as far as there are whole ones. -/
def putChunks (w : ℕ) (body : List UInt8) : ℕ → List (List UInt8) → List UInt8
  | _, [] => body
  | i, bytes :: rest =>
    if (i + 1) * w ≤ body.length then putChunks w (overwrite body (i * w) bytes) (i + 1) rest
    else body

/-- Overwrites units with the pieces of a body, as far as there are whole ones. -/
def readUnits {α : Type} (w : ℕ) (fromLe : List UInt8 → α) (body : List UInt8) (dst : List α) :
    List α :=
  dst.mapIdx fun k unit => if (k + 1) * w ≤ body.length then fromLe (chunk body w k) else unit

/-- `copy_from_slice`, which panics unless the lengths are the same. -/
def copyFromSlice (dst src : List UInt8) : Except TestError (List UInt8) :=
  if dst.length = src.length then .ok src else .error .panic

namespace UInt16

def toLeBytes (u : UInt16) : List UInt8 := leBytes 2 u.toNat

def fromLeBytes (bytes : List UInt8) : UInt16 := UInt16.ofNat (leNat bytes)

end UInt16

namespace UInt64

def toLeBytes (u : UInt64) : List UInt8 := leBytes 8 u.toNat

def fromLeBytes (bytes : List UInt8) : UInt64 := UInt64.ofNat (leNat bytes)

end UInt64

namespace ArrayRef

/-- A buffer for `len` bytes. -/
def tryReserveExact (env : HostEnv) (len : ℕ) : Except HostError Unit :=
  if len ≤ isizeMax && env.grants len then .ok () else .error .allocator

def zeroedBody (env : HostEnv) (len : ℕ) : Except HostError (List UInt8) := do
  tryReserveExact env len
  return List.replicate len 0

def copiedBody (env : HostEnv) (elems : List UInt8) : Except HostError (List UInt8) := do
  tryReserveExact env elems.length
  return elems

/-- A body repeating an encoded element; zeros are there already. -/
def filledBody (env : HostEnv) (pattern : List UInt8) (len : ℕ) :
    Except HostError (List UInt8) := do
  let body ← zeroedBody env len
  return if pattern.any (· ≠ 0) then
      putChunks pattern.length body 0 (List.replicate (len / pattern.length) pattern)
    else body

def leBody {α : Type} (env : HostEnv) (n : ℕ) (toLe : α → List UInt8) (elems : List α) :
    Except HostError (List UInt8) :=
  match checkedMul elems.length n with
  | none => .error (.test (.msg "array too large"))
  | some byteLen => do
    let body ← zeroedBody env byteLen
    return putChunks n body 0 (elems.map toLe)

/-- The byte range of elements `offset .. offset + count`, with its end. -/
def elementByteRange (offset : UInt32) (count stride : ℕ) : Option (ℕ × ℕ) := do
  let start ← checkedMul offset.toNat stride
  let bytes ← checkedMul count stride
  let stop ← checkedAdd bytes start
  return (start, stop)

/-- `data.get(start..stop)`. -/
def getRange (data : List UInt8) (range : ℕ × ℕ) : Option (List UInt8) :=
  if range.1 ≤ range.2 ∧ range.2 ≤ data.length then
    some (window data range.1 (range.2 - range.1))
  else none

end ArrayRef

/-! ## Constructors -/

/-- A type of arrays registered for one store, with its layout. -/
structure ArrayRefPre where
  store : ℕ
  typeId : CanonicalTypeId
  field : FieldType

def ArrayRefPre.layout (pre : ArrayRefPre) : ArrayLayout := Layout.forArray pre.field

/-- Whether a value is one of a field's type. -/
def TestStore.fieldValueMatches (x : TestStore) (ty : FieldType) (value : HostVal) :
    Except TestError Bool :=
  match ty.elementType with
  | .i8 | .i16 =>
    .ok (match value with
      | .i32 _ => true
      | _ => false)
  | .valType ty => x.valMatchesInStore value ty

/-- Whether a slot stores the value, which is then of the field's type. -/
def TestStore.fits (x : TestStore) (ty : FieldType) (slot : Slot) (value : HostVal) :
    Except TestError Bool :=
  if slotAccepts slot value.raw then x.fieldValueMatches ty value else .ok false

namespace HostCtx

def reserveHost (x : HostCtx) (env : HostEnv) (isAsync : Bool) (charge : ℕ) : HostResult Unit :=
  let r := if isAsync then x.store.gcReserveHostAsync env.execRoots charge env.limiter
    else x.store.gcReserveHost env.execRoots charge env.limiter
  ({ x with store := r.1 }, r.2.mapError .store)

/-- Goes on once the reservation covers the charge. -/
def reserved {α : Type} (x : HostCtx) (env : HostEnv) (isAsync : Bool) (charge : ℕ)
    (f : HostCtx → HostResult α) : HostResult α :=
  match x.reserveHost env isAsync charge with
  | (x, .ok ()) => f x
  | (x, .error e) => (x, .error e)

/-- Places an object, whose type is then pinned, and roots the handle that is handed out. -/
def allocHostGc (x : HostCtx) (o : GcObject) : HostResult Rooted :=
  match x.store.inner.allocGc o with
  | .error e => (x, .error (.store e))
  | .ok (idx, inner) =>
    let rooted := { inner with gcRoots := inner.gcRoots ++ [(idx, .any)] }
    let generation := (inner.gc.arena.generation idx).getD 0
    ({ x with store := { x.store with inner := rooted } },
      .ok (Rooted.fromRawGen idx generation x.id .any))

end HostCtx

namespace ArrayRef

/-- The bytes of a body of `count` elements, if an array can have as many. -/
def bodyLen (pre : ArrayRefPre) (count : ℕ) : Except HostError ℕ :=
  if count < 2 ^ 32 then
    match checkedMul count pre.layout.stride with
    | some n => .ok n
    | none => .error (.test (.msg "array too large"))
  else .error (.test (.msg "array too large"))

def checkAllocator (x : HostCtx) (pre : ArrayRefPre) : Except HostError Unit :=
  liftTest (TestStore.liftFault (checkHandle x.id pre.store))

def checkElem (x : HostCtx) (pre : ArrayRefPre) (elem : HostVal) : Except HostError Unit := do
  if ← liftTest (x.view.fits pre.field (pre.layout.elemAt 0) elem) then .ok ()
  else .error (.test (.msg "array element value has the wrong type"))

/-- The charge of an array of `count` elements of the expected type. -/
def packedCharge (x : HostCtx) (pre : ArrayRefPre) (expected : PackedKind) (count : ℕ) :
    Except HostError ℕ := do
  checkAllocator x pre
  if pre.field.elementType ≠ expected.storage then
    .error (.test (.msg ("element type mismatch: cannot initialize a non-" ++ expected.debug ++
      " array from a slice")))
  else return objectCharge (← bodyLen pre count)

def finishPacked (x : HostCtx) (pre : ArrayRefPre) (body : List UInt8) : HostResult Rooted :=
  HostResult.check x (checkAllocator x pre) fun _ => x.allocHostGc ⟨pre.typeId, .array, body⟩

/-- A bulk constructor: the charge is reserved, then the body is built and placed. -/
def newPacked (x : HostCtx) (env : HostEnv) (isAsync : Bool) (pre : ArrayRefPre)
    (expected : PackedKind) (count : ℕ) (body : Except HostError (List UInt8)) :
    HostResult Rooted :=
  HostResult.check x (packedCharge x pre expected count) fun charge =>
    x.reserved env isAsync charge fun x =>
      HostResult.check x body fun body => finishPacked x pre body

def newFromI8Slice (x : HostCtx) (env : HostEnv) (pre : ArrayRefPre) (elems : HostSlice UInt8 1) :
    HostResult Rooted :=
  newPacked x env false pre .i8 elems.elems.length (copiedBody env elems.elems)

def newFromI8SliceAsync (x : HostCtx) (env : HostEnv) (pre : ArrayRefPre)
    (elems : HostSlice UInt8 1) : HostResult Rooted :=
  newPacked x env true pre .i8 elems.elems.length (copiedBody env elems.elems)

def newZeroedI8 (x : HostCtx) (env : HostEnv) (pre : ArrayRefPre) (len : UInt32) :
    HostResult Rooted :=
  newPacked x env false pre .i8 len.toNat (zeroedBody env len.toNat)

def newFromI16Slice (x : HostCtx) (env : HostEnv) (pre : ArrayRefPre)
    (elems : HostSlice UInt16 2) : HostResult Rooted :=
  newPacked x env false pre .i16 elems.elems.length (leBody env 2 UInt16.toLeBytes elems.elems)

def newFromI16SliceAsync (x : HostCtx) (env : HostEnv) (pre : ArrayRefPre)
    (elems : HostSlice UInt16 2) : HostResult Rooted :=
  newPacked x env true pre .i16 elems.elems.length (leBody env 2 UInt16.toLeBytes elems.elems)

def newFromI64Slice (x : HostCtx) (env : HostEnv) (pre : ArrayRefPre)
    (elems : HostSlice UInt64 8) : HostResult Rooted :=
  newPacked x env false pre .i64 elems.elems.length (leBody env 8 UInt64.toLeBytes elems.elems)

/-- `ArrayRef::new`: one element, checked and encoded once, then repeated. -/
def new (x : HostCtx) (env : HostEnv) (pre : ArrayRefPre) (elem : HostVal) (len : UInt32) :
    HostResult Rooted :=
  HostResult.check x (checkAllocator x pre) fun _ =>
    HostResult.check x (checkElem x pre elem) fun _ =>
      HostResult.check x (bodyLen pre len.toNat) fun byteLen =>
        x.reserved env false (objectCharge byteLen) fun x =>
          match writeSlot (pre.layout.elemAt 0) (List.replicate pre.layout.stride 0) elem.raw with
          | none => (x, .error (.test .panic))
          | some pattern =>
            HostResult.check x (filledBody env pattern byteLen) fun body => finishPacked x pre body

/-- `ArrayRef::new_fixed`: every element checked, then written. -/
def newFixed (x : HostCtx) (env : HostEnv) (pre : ArrayRefPre) (elems : List HostVal) :
    HostResult Rooted :=
  HostResult.check x (bodyLen pre elems.length) fun byteLen =>
    HostResult.check x (checkAllocator x pre) fun _ =>
      HostResult.check x (elems.forM (checkElem x pre)) fun _ =>
        x.reserved env false (objectCharge byteLen) fun x =>
          HostResult.check x (zeroedBody env byteLen) fun data =>
            match writeFrom pre.layout data 0 (elems.map HostVal.raw) with
            | none => (x, .error (.test .panic))
            | some data => x.allocHostGc ⟨pre.typeId, .array, data⟩

end ArrayRef

/-! ## Access -/

namespace TestStore

def arrayField (x : TestStore) (o : GcObject) : Except TestError FieldType :=
  match x.inner.engine.arrayField o.typeId with
  | none => .error (.internal "type metadata")
  | some field => .ok field

/-- The store with other bytes in the body of an object. -/
def setBody (x : TestStore) (slot : ℕ) (data : List UInt8) : TestStore :=
  { x with inner := { x.inner with gc := { x.inner.gc with
      arena := x.inner.gc.arena.update slot fun o => { o with data := data } } } }

/-- What a write to one element writes: the slot of the object, and its body with the value. -/
def checkSet (x : TestStore) (h : Rooted) (index : ℕ) (value : HostVal) :
    Except TestError (ℕ × List UInt8) := do
  let slot ← liftFault (x.inner.gcSlotChecked x.id h)
  let o ← x.hostObject h
  let field ← x.arrayField o
  let elem := (Layout.forArray field).elemAt index
  if o.arrayLen (Layout.forArray field).stride ≤ index then
    .error (.msg "array index out of bounds")
  else if field.mutability ≠ .var then .error (.msg "array element is not mutable")
  else if !(← x.fits field elem value) then
    .error (.msg "array element value has the wrong type")
  else return (slot, ← orPanic (writeSlot elem o.data value.raw))

/-- `Rooted<ArrayRef>::set`. -/
def set (x : TestStore) (h : Rooted) (index : ℕ) (value : HostVal) :
    TestStore × Except TestError Unit :=
  match x.checkSet h index value with
  | .error e => (x, .error e)
  | .ok (slot, data) => (x.setBody slot data, .ok ())

/-- The body of an array of the expected type and length. -/
def packedBody (x : TestStore) (h : Rooted) (expected : PackedKind) (dstLen : ℕ) :
    Except TestError (List UInt8) := do
  let o ← x.hostObject h
  let field ← x.arrayField o
  if field.elementType ≠ expected.storage then
    .error (.msg ("element type mismatch: cannot copy a non-" ++ expected.debug ++
      " array into a slice"))
  else if 2 ^ 32 ≤ dstLen then .error (.msg "destination too large")
  else if dstLen ≠ o.arrayLen (Layout.forArray field).stride then
    .error (.msg ("destination slice length is " ++ toString dstLen ++
      " but the array length is " ++ toString (o.arrayLen (Layout.forArray field).stride)))
  else return o.data

def copyToI8Slice (x : TestStore) (h : Rooted) (dst : HostSlice UInt8 1) :
    Except TestError (List UInt8) := do
  let body ← x.packedBody h .i8 dst.elems.length
  copyFromSlice dst.elems body

def copyToI16Slice (x : TestStore) (h : Rooted) (dst : HostSlice UInt16 2) :
    Except TestError (List UInt16) := do
  let body ← x.packedBody h .i16 dst.elems.length
  return readUnits 2 UInt16.fromLeBytes body dst.elems

def copyToI64Slice (x : TestStore) (h : Rooted) (dst : HostSlice UInt64 8) :
    Except TestError (List UInt64) := do
  let body ← x.packedBody h .i64 dst.elems.length
  return readUnits 8 UInt64.fromLeBytes body dst.elems

/-- The bytes of a range of elements of the expected type. -/
def packedRange (x : TestStore) (h : Rooted) (expected : PackedKind) (offset : UInt32)
    (count : ℕ) : Except TestError (List UInt8) := do
  let o ← x.hostObject h
  let field ← x.arrayField o
  if field.elementType ≠ expected.storage then
    .error (.msg ("element type mismatch: cannot read a non-" ++ expected.debug ++
      " array into a slice"))
  else
    match ArrayRef.elementByteRange offset count (Layout.forArray field).stride with
    | none => .error (.msg "array read range overflows")
    | some range =>
      match ArrayRef.getRange o.data range with
      | none => .error (.msg "array read out of bounds")
      | some bytes => return bytes

def readI8 (x : TestStore) (h : Rooted) (offset : UInt32) (dst : HostSlice UInt8 1) :
    Except TestError (List UInt8) := do
  let body ← x.packedRange h .i8 offset dst.elems.length
  copyFromSlice dst.elems body

def readI16 (x : TestStore) (h : Rooted) (offset : UInt32) (dst : HostSlice UInt16 2) :
    Except TestError (List UInt16) := do
  let body ← x.packedRange h .i16 offset dst.elems.length
  return readUnits 2 UInt16.fromLeBytes body dst.elems

/-- A range of elements to write: the slot of the object, its body, and where the range is. -/
def packedBodyMut (x : TestStore) (h : Rooted) (expected : PackedKind) (offset : UInt32)
    (count : ℕ) : Except TestError (ℕ × List UInt8 × ℕ × List UInt8) := do
  let slot ← liftFault (x.inner.gcSlotChecked x.id h)
  let o ← x.hostObject h
  let field ← x.arrayField o
  if field.elementType ≠ expected.storage then
    .error (.msg ("element type mismatch: cannot write a slice into a non-" ++ expected.debug ++
      " array"))
  else if field.mutability ≠ .var then .error (.msg "array element is not mutable")
  else
    match ArrayRef.elementByteRange offset count (Layout.forArray field).stride with
    | none => .error (.msg "array write range overflows")
    | some range =>
      match ArrayRef.getRange o.data range with
      | none => .error (.msg "array write out of bounds")
      | some bytes => return (slot, o.data, range.1, bytes)

/-- Writes to a range what `fill` makes of its bytes. -/
def writePacked (x : TestStore) (h : Rooted) (expected : PackedKind) (offset : UInt32)
    (count : ℕ) (fill : List UInt8 → Except TestError (List UInt8)) :
    TestStore × Except TestError Unit :=
  match x.packedBodyMut h expected offset count with
  | .error e => (x, .error e)
  | .ok (slot, data, start, body) =>
    match fill body with
    | .error e => (x, .error e)
    | .ok bytes => (x.setBody slot (overwrite data start bytes), .ok ())

def writeI8 (x : TestStore) (h : Rooted) (offset : UInt32) (src : HostSlice UInt8 1) :
    TestStore × Except TestError Unit :=
  x.writePacked h .i8 offset src.elems.length fun body => copyFromSlice body src.elems

def writeI16 (x : TestStore) (h : Rooted) (offset : UInt32) (src : HostSlice UInt16 2) :
    TestStore × Except TestError Unit :=
  x.writePacked h .i16 offset src.elems.length fun body =>
    .ok (putChunks 2 body 0 (src.elems.map UInt16.toLeBytes))

end TestStore

/-! ## One element after the other -/

/-- Sets elements from `i` on, one after the other. -/
def TestStore.setAll (x : TestStore) (h : Rooted) : ℕ → List HostVal →
    TestStore × Except TestError Unit
  | _, [] => (x, .ok ())
  | i, v :: vs =>
    match x.set h i v with
    | (x, .ok ()) => setAll x h (i + 1) vs
    | (x, .error e) => (x, .error e)

/-! ## What is asked of the bulk paths -/

/-- An allocator of the store for arrays of the expected elements, and a count an array can have. -/
structure ArrayRefPre.Ready (pre : ArrayRefPre) (x : HostCtx) (kind : PackedKind) (count : ℕ) :
    Prop where
  here : checkHandle x.id pre.store = .ok ()
  type : pre.field.elementType = kind.storage
  count : count < 2 ^ 32

/-- A failed call that has changed nothing. -/
def HostResult.Fails {α : Type} (x : HostCtx) (r : HostResult α) : Prop := ∃ e, r = (x, .error e)

/-- Reserves a charge, asks the allocator for a buffer of the size of an object's body, and places
the object. -/
def HostCtx.build (x : HostCtx) (env : HostEnv) (isAsync : Bool) (charge : ℕ) (o : GcObject) :
    HostResult Rooted :=
  x.reserved env isAsync charge fun x =>
    HostResult.check x (ArrayRef.tryReserveExact env o.data.length) fun _ => x.allocHostGc o

/-- The same object with the same charge as `new_fixed` builds of these values. -/
def LikeFixed (x : HostCtx) (env : HostEnv) (pre : ArrayRefPre) (values : List HostVal)
    (isAsync : Bool) (r : HostResult Rooted) : Prop :=
  ∃ charge data,
    ArrayRef.newFixed x env pre values = x.build env false charge ⟨pre.typeId, .array, data⟩ ∧
      r = x.build env isAsync charge ⟨pre.typeId, .array, data⟩

/-- A bulk constructor for elements of one kind is `new_fixed` on the zero-extended elements; it
fails on another type, and where `new_fixed` does. -/
structure BulkNew (x : HostCtx) (env : HostEnv) (pre : ArrayRefPre) (kind : PackedKind)
    (units : List ℕ) (isAsync : Bool) (r : HostResult Rooted) : Prop where
  builds : pre.Ready x kind units.length → LikeFixed x env pre (units.map kind.val) isAsync r
  fails : ¬ pre.Ready x kind units.length → r.Fails x ∧
    (pre.field.elementType = kind.storage →
      (ArrayRef.newFixed x env pre (units.map kind.val)).Fails x)

/-- The constructor that repeats an element is `new_fixed` on copies of it; it refuses a value of
another type even if no copy is asked for. -/
structure ReplicatedNew (x : HostCtx) (env : HostEnv) (pre : ArrayRefPre) (elem : HostVal)
    (len : UInt32) : Prop where
  builds : checkHandle x.id pre.store = .ok () → ArrayRef.checkElem x pre elem = .ok () →
    LikeFixed x env pre (List.replicate len.toNat elem) false (ArrayRef.new x env pre elem len)
  fails : ¬ (checkHandle x.id pre.store = .ok () ∧ ArrayRef.checkElem x pre elem = .ok ()) →
    (ArrayRef.new x env pre elem len).Fails x ∧
      (len.toNat ≠ 0 → (ArrayRef.newFixed x env pre (List.replicate len.toNat elem)).Fails x)

/-- All the bulk constructors. -/
structure BulkConstructors (x : HostCtx) (env : HostEnv) (pre : ArrayRefPre) : Prop where
  replicated : ∀ elem len, ReplicatedNew x env pre elem len
  i8 : ∀ elems, BulkNew x env pre .i8 (elems.elems.map UInt8.toNat) false
    (ArrayRef.newFromI8Slice x env pre elems)
  i8_async : ∀ elems, BulkNew x env pre .i8 (elems.elems.map UInt8.toNat) true
    (ArrayRef.newFromI8SliceAsync x env pre elems)
  zeroed_i8 : ∀ len, BulkNew x env pre .i8 (List.replicate len.toNat 0) false
    (ArrayRef.newZeroedI8 x env pre len)
  i16 : ∀ elems, BulkNew x env pre .i16 (elems.elems.map UInt16.toNat) false
    (ArrayRef.newFromI16Slice x env pre elems)
  i16_async : ∀ elems, BulkNew x env pre .i16 (elems.elems.map UInt16.toNat) true
    (ArrayRef.newFromI16SliceAsync x env pre elems)
  i64 : ∀ elems, BulkNew x env pre .i64 (elems.elems.map UInt64.toNat) false
    (ArrayRef.newFromI64Slice x env pre elems)

namespace TestStore

/-- The array behind a handle, of elements of one kind. -/
structure ArrayAt (x : TestStore) (h : Rooted) (kind : PackedKind) (o : GcObject)
    (field : FieldType) : Prop where
  object : x.hostObject h = .ok o
  metadata : x.inner.engine.arrayField o.typeId = some field
  type : field.elementType = kind.storage

end TestStore

/-- The extension by which the guest reads an element. -/
def PackedKind.ext : PackedKind → Option Bool
  | .i8 | .i16 => some false
  | .i64 => none

/-- A bulk read of `n` elements from `offset` on: it gives every element that `get` and the guest
read there, if the length of the array admits it; else it fails. -/
structure BulkRead {α : Type} (x : TestStore) (h : Rooted) (kind : PackedKind) (offset n : ℕ)
    (admits : ℕ → Prop) (toNat : α → ℕ) (r : Except TestError (List α)) : Prop where
  reads : ∀ o field, x.ArrayAt h kind o field →
    admits (o.arrayLen (Layout.forArray field).stride) →
      ∃ out, r = .ok out ∧ out.length = n ∧ ∀ k u, out[k]? = some u →
        x.hostElement h (offset + k) = .ok (kind.val (toNat u)).raw ∧
          TestStore.readAs ((Layout.forArray field).elemAt (offset + k)) o.data kind.ext =
            .ok (kind.val (toNat u)).raw
  fails : (∀ o field, x.ArrayAt h kind o field →
    ¬ admits (o.arrayLen (Layout.forArray field).stride)) → ∃ e, r = .error e

/-- A bulk write from `offset` on: it is setting one element after the other, if the elements are
mutable and the array has all of them; else it fails and changes nothing. -/
structure BulkWrite (x : TestStore) (h : Rooted) (kind : PackedKind) (offset : ℕ)
    (units : List ℕ) (r : TestStore × Except TestError Unit) : Prop where
  writes : ∀ o field, x.ArrayAt h kind o field → field.mutability = .var →
    offset + units.length ≤ o.arrayLen (Layout.forArray field).stride →
      r = x.setAll h offset (units.map kind.val) ∧ r.2 = .ok ()
  fails : (∀ o field, x.ArrayAt h kind o field → ¬ (field.mutability = .var ∧
    offset + units.length ≤ o.arrayLen (Layout.forArray field).stride)) → ∃ e, r = (x, .error e)

/-- All the bulk accesses. -/
structure BulkAccess (x : TestStore) (h : Rooted) : Prop where
  copy_i8 : ∀ dst, BulkRead x h .i8 0 dst.elems.length
    (fun len => dst.elems.length < 2 ^ 32 ∧ dst.elems.length = len) UInt8.toNat
    (x.copyToI8Slice h dst)
  copy_i16 : ∀ dst, BulkRead x h .i16 0 dst.elems.length
    (fun len => dst.elems.length < 2 ^ 32 ∧ dst.elems.length = len) UInt16.toNat
    (x.copyToI16Slice h dst)
  copy_i64 : ∀ dst, BulkRead x h .i64 0 dst.elems.length
    (fun len => dst.elems.length < 2 ^ 32 ∧ dst.elems.length = len) UInt64.toNat
    (x.copyToI64Slice h dst)
  read_i8 : ∀ offset dst, BulkRead x h .i8 offset.toNat dst.elems.length
    (fun len => offset.toNat + dst.elems.length ≤ len) UInt8.toNat (x.readI8 h offset dst)
  read_i16 : ∀ offset dst, BulkRead x h .i16 offset.toNat dst.elems.length
    (fun len => offset.toNat + dst.elems.length ≤ len) UInt16.toNat (x.readI16 h offset dst)
  write_i8 : ∀ offset src, BulkWrite x h .i8 offset.toNat (src.elems.map UInt8.toNat)
    (x.writeI8 h offset src)
  write_i16 : ∀ offset src, BulkWrite x h .i16 offset.toNat (src.elems.map UInt16.toNat)
    (x.writeI16 h offset src)

end SubmilliWasm
