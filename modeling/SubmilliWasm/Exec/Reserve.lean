/-
# The reservation flow

How a store's managed entries draw on its byte budget: the reservation taken before a guest
allocation (`gc_reserve` of `src/exec/collect.rs`), its growth through the limiter and the
reservation of host constructors (`src/store/grow.rs`).  The operations that touch the managed
arenas are collected in `StoreOp`, so that a history of a store is a list of them, in any
interleaving of guest, host and instantiation.

An operation that fails keeps what it has done so far, so results come with the store.
-/
import SubmilliWasm.Exec.Alloc
import SubmilliWasm.Store.Events

namespace SubmilliWasm

/-! ## Budgets -/

/-- A decision of the limiter on a reservation it was asked for. -/
structure Consultation where
  target : ℕ
  approved : Bool
  deriving DecidableEq, Repr

/-- The managed side of a store with its next reservation-growth step.  The source does not keep
`consulted`, the decisions of the limiter so far, latest first. -/
structure Store where
  inner : StoreInner
  nextGrow : ℕ
  consulted : List Consultation

namespace Store

def new (engine : TypeRegistry) (collecting : Bool) (reservation : ℕ) : Store :=
  ⟨StoreInner.new engine collecting reservation, reserveBatch, []⟩

/-- The reservation asked for when `size` bytes do not fit: one growth step more, and at least
what the allocation needs. -/
def desiredReservation (s : Store) (size : ℕ) : ℕ :=
  max (saturatingAdd s.inner.gc.reserved s.nextGrow) (saturatingAdd s.inner.gc.used size)

/-- Raises the reservation to `target` and doubles the growth step up to its cap; also returns
the bytes added, which the engine's committed total counts. -/
def grant (s : Store) (target : ℕ) : ℕ × Store :=
  (target - s.inner.gc.reserved,
    { s with
      inner := { s.inner with gc := { s.inner.gc with reserved := target } }
      nextGrow := min (saturatingMul s.nextGrow 2) (max s.inner.gc.reservation reserveBatch) })

/-- The store after an operation, with its result or error. -/
abbrev Outcome (α : Type) := Store × Except StoreError α

/-- Runs `f` on a success. -/
def Outcome.andThen {α β : Type} (r : Outcome α) (f : Store → α → Outcome β) : Outcome β :=
  match r with
  | (s, .ok a) => f s a
  | (s, .error e) => (s, .error e)

/-- An operation of the inner store that changes nothing when it fails. -/
def onInner {α : Type} (s : Store) (r : Except StoreError (α × StoreInner)) : Outcome α :=
  match r with
  | .ok (a, inner) => ({ s with inner }, .ok a)
  | .error e => (s, .error e)

def gcCollect (s : Store) (stackRoots : List (ℕ × RefKind)) : Outcome Unit :=
  match s.inner.gcCollect stackRoots with
  | .ok inner => ({ s with inner }, .ok ())
  | .error e => (s, .error (.internal e))

/-! ## The limiter -/

/-- The resource limiter of a store, seen through its answer to one request. -/
inductive Limiter where
  | none
  | sync (answer : Except StoreError Bool)
  | async (answer : Except StoreError Bool)

/-- The answer on a synchronous path, `none` without a limiter; an async limiter is an error. -/
def Limiter.ask : Limiter → Except StoreError (Option Bool)
  | .none => .ok .none
  | .sync answer => answer.map some
  | .async _ => .error .limiter

/-- The answer on an asynchronous path. -/
def Limiter.askAsync : Limiter → Except StoreError (Option Bool)
  | .none => .ok .none
  | .sync answer | .async answer => answer.map some

/-- Grows the reservation to `target`, given the limiter's answer; without a limiter the abort
cap is the bound. -/
def growWith (s : Store) (target bytesNeeded : ℕ) (answer : Except StoreError (Option Bool)) :
    Outcome Unit :=
  match answer with
  | .error e => (s, .error e)
  | .ok none =>
    if target ≤ abortSafetyCap then ((s.grant target).2, .ok ())
    else (s, .error (.gcHeapOutOfMemory bytesNeeded))
  | .ok (some approved) =>
    let s := { s with consulted := ⟨target, approved⟩ :: s.consulted }
    if approved then ((s.grant target).2, .ok ())
    else (s, .error (.gcHeapOutOfMemory bytesNeeded))

/-- Grows the reservation through the limiter; a denial fails. -/
def growGcReservation (s : Store) (target bytesNeeded : ℕ) (limiter : Limiter) : Outcome Unit :=
  if target ≤ s.inner.gc.reserved then (s, .ok ())
  else s.growWith target bytesNeeded limiter.ask

/-! ## Reservations -/

/-- A suspended growth of the reservation: its target and the bytes that do not fit. -/
structure GcGrow where
  reservedTarget : ℕ
  bytesNeeded : ℕ
  deriving DecidableEq, Repr

/-- The end of `gc_reserve`: growth within the free budget is granted at once, any other is left
to the driver. -/
def reserveGrow (s : Store) (charge : ℕ) : Outcome (Option GcGrow) :=
  let reservedTarget := s.desiredReservation charge
  if s.inner.gc.isFreeGrant reservedTarget then ((s.grant reservedTarget).2, .ok none)
  else (s, .ok (some ⟨reservedTarget, charge⟩))

/-- Makes the reservation cover an allocation of `charge` bytes: `none` to go on, else the growth
to suspend for. -/
def gcReserve (s : Store) (stackRoots : List (ℕ × RefKind)) (charge : ℕ) :
    Outcome (Option GcGrow) :=
  if s.inner.gc.fits charge then (s, .ok none)
  else if !s.inner.gc.isFreeGrant (s.desiredReservation charge) && s.inner.gc.collecting then
    (s.gcCollect stackRoots).andThen fun s _ =>
      if s.inner.gc.fits charge then (s, .ok none) else s.reserveGrow charge
  else s.reserveGrow charge

/-- The end of `gc_reserve_host`: growth within the free budget is granted at once, any other
asks the limiter. -/
def reserveHostGrow (s : Store) (charge : ℕ) (limiter : Limiter) : Outcome Unit :=
  let target := s.desiredReservation charge
  if s.inner.gc.isFreeGrant target then ((s.grant target).2, .ok ())
  else s.growGcReservation target charge limiter

/-- Makes the heap hold a `charge`-byte entry built by the host; the roots are those of the
parked execution. -/
def gcReserveHost (s : Store) (execRoots : List (ℕ × RefKind)) (charge : ℕ) (limiter : Limiter) :
    Outcome Unit :=
  if s.inner.gc.fits charge then (s, .ok ())
  else if !s.inner.gc.isFreeGrant (s.desiredReservation charge) && s.inner.gc.collecting then
    (s.gcCollect execRoots).andThen fun s _ =>
      if s.inner.gc.fits charge then (s, .ok ()) else s.reserveHostGrow charge limiter
  else s.reserveHostGrow charge limiter

/-- The end of `gc_reserve_host_async`. -/
def reserveHostGrowAsync (s : Store) (charge : ℕ) (limiter : Limiter) : Outcome Unit :=
  let target := s.desiredReservation charge
  if s.inner.gc.isFreeGrant target then ((s.grant target).2, .ok ())
  else s.growWith target charge limiter.askAsync

/-- The async sibling of `gcReserveHost`. -/
def gcReserveHostAsync (s : Store) (execRoots : List (ℕ × RefKind)) (charge : ℕ)
    (limiter : Limiter) : Outcome Unit :=
  if s.inner.gc.fits charge then (s, .ok ())
  else if !s.inner.gc.isFreeGrant (s.desiredReservation charge) && s.inner.gc.collecting then
    (s.gcCollect execRoots).andThen fun s _ =>
      if s.inner.gc.fits charge then (s, .ok ()) else s.reserveHostGrowAsync charge limiter
  else s.reserveHostGrowAsync charge limiter

/-! ## Operations -/

/-- What an allocating instruction comes to: the entry's index, or a suspension. -/
inductive Alloc where
  | placed (index : ℕ)
  | gcGrow (grow : GcGrow)
  deriving DecidableEq, Repr

/-- Goes on with `f` once the reservation covers the charge, else suspends. -/
def reserved (r : Outcome (Option GcGrow)) (f : Store → Outcome ℕ) : Outcome Alloc :=
  r.andThen fun s grow =>
    match grow with
    | some grow => (s, .ok (.gcGrow grow))
    | none => (f s).andThen fun s index => (s, .ok (.placed index))

/-- A `struct.new*` or `array.new*`; `stackRoots` are the references on the stacks, the operands
among them. -/
def guestNew (s : Store) (stackRoots : List (ℕ × RefKind)) (op : AllocOp) : Outcome Alloc :=
  match op.charge with
  | .error e => (s, .error e)
  | .ok charge =>
    reserved (s.gcReserve stackRoots charge) fun s =>
      s.onInner (s.inner.buildObject op >>= s.inner.allocGc)

/-- A `throw`: the exception is allocated once its charge is reserved. -/
def guestThrow (s : Store) (stackRoots : List (ℕ × RefKind)) (entity : ExnEntity) :
    Outcome Alloc :=
  reserved (s.gcReserve stackRoots (exnCharge entity.args.length)) fun s =>
    s.onInner (s.inner.allocExn entity)

/-- The body of an object built by the host.  Its bytes lie beside those of the live entries in
one address space; a request that does not fit there ends the process. -/
def hostBody (s : Store) (data : List UInt8) : Except StoreError (List UInt8) :=
  if s.inner.charged + objectOverhead + data.length ≤ usizeMax then boxed data
  else .error .panic

/-- A host constructor of a struct or an array, once its operands are checked. -/
def hostNew (s : Store) (isAsync : Bool) (execRoots : List (ℕ × RefKind))
    (typeId : CanonicalTypeId) (kind : ObjKind) (data : List UInt8) (limiter : Limiter) :
    Outcome ℕ :=
  let charge := objectCharge data.length
  let reserve := if isAsync then s.gcReserveHostAsync execRoots charge limiter
    else s.gcReserveHost execRoots charge limiter
  reserve.andThen fun s _ =>
    s.onInner (s.hostBody data >>= fun data => s.inner.allocGc ⟨typeId, kind, data⟩)

/-- `ExternRef::new`. -/
def gcAllocExternref (s : Store) (execRoots : List (ℕ × RefKind)) (payload : ℕ)
    (limiter : Limiter) : Outcome ℕ :=
  (s.gcReserveHost execRoots arenaEntryOverhead limiter).andThen fun s _ =>
    s.onInner (s.inner.allocExternref payload)

/-- `ExnRef::new`, once its fields are checked. -/
def gcAllocExn (s : Store) (execRoots : List (ℕ × RefKind)) (entity : ExnEntity)
    (limiter : Limiter) : Outcome ℕ :=
  (s.gcReserveHost execRoots entity.byteSize limiter).andThen fun s _ =>
    s.onInner (s.inner.allocExn entity)

/-- An operation on the managed side of a store: by an instruction, by the driver between
instructions, by the host, or at instantiation. -/
inductive StoreOp where
  | guestNew (stackRoots : List (ℕ × RefKind)) (op : AllocOp)
  | guestThrow (stackRoots : List (ℕ × RefKind)) (entity : ExnEntity)
  | externConvertAny (v : Val)
  | anyConvertExtern (v : Val)
  /-- The driver's answer to a suspended growth. -/
  | growGc (grow : GcGrow) (limiter : Limiter)
  | hostNew (isAsync : Bool) (execRoots : List (ℕ × RefKind)) (typeId : CanonicalTypeId)
      (kind : ObjKind) (data : List UInt8) (limiter : Limiter)
  | hostExtern (execRoots : List (ℕ × RefKind)) (payload : ℕ) (limiter : Limiter)
  | hostExn (execRoots : List (ℕ × RefKind)) (entity : ExnEntity) (limiter : Limiter)
  /-- A constant expression's `struct.new` or `array.new`. -/
  | constNew (object : GcObject)
  /-- A write into a body, whose length never changes. -/
  | writeBody (index : ℕ) (data : List UInt8)
  /-- An explicit collection, or one for engine-wide pressure. -/
  | collect (stackRoots : List (ℕ × RefKind))
  | pushGcRoot (handle : ℕ) (kind : RefKind)
  | truncateGcRoots (mark : ℕ)
  /-- Anything that leaves the three arenas alone: globals, tables, segments, the pending
  exception, type registrations. -/
  | setEntities (engine : TypeRegistry) (globals : List Val) (tables : List (List Ref))
      (elems : List (List (List Ref))) (pendingException : Option ℕ)

/-- The store after an operation, and what an allocating instruction came to. -/
def run (s : Store) : StoreOp → Outcome (Option Alloc)
  | .guestNew stackRoots op => (s.guestNew stackRoots op).andThen fun s a => (s, .ok (some a))
  | .guestThrow stackRoots entity =>
    (s.guestThrow stackRoots entity).andThen fun s a => (s, .ok (some a))
  | .externConvertAny v =>
    (s.onInner (s.inner.externConvertAny v)).andThen fun s _ => (s, .ok none)
  | .anyConvertExtern v =>
    (s.onInner (s.inner.anyConvertExtern v)).andThen fun s _ => (s, .ok none)
  | .growGc grow limiter =>
    (s.growGcReservation grow.reservedTarget grow.bytesNeeded limiter).andThen
      fun s _ => (s, .ok none)
  | .hostNew isAsync execRoots typeId kind data limiter =>
    (s.hostNew isAsync execRoots typeId kind data limiter).andThen fun s _ => (s, .ok none)
  | .hostExtern execRoots payload limiter =>
    (s.gcAllocExternref execRoots payload limiter).andThen fun s _ => (s, .ok none)
  | .hostExn execRoots entity limiter =>
    (s.gcAllocExn execRoots entity limiter).andThen fun s _ => (s, .ok none)
  | .constNew object => (s.onInner (s.inner.allocGcUnreserved object)).andThen
      fun s _ => (s, .ok none)
  | .writeBody index data =>
    ({ s with inner := { s.inner with gc := { s.inner.gc with
        arena := s.inner.gc.arena.update index (GcObject.rewrite data) } } }, .ok none)
  | .collect stackRoots => (s.gcCollect stackRoots).andThen fun s _ => (s, .ok none)
  | .pushGcRoot handle kind =>
    ({ s with inner := { s.inner with gcRoots := s.inner.gcRoots ++ [(handle, kind)] } }, .ok none)
  | .truncateGcRoots mark =>
    ({ s with inner := { s.inner with gcRoots := s.inner.gcRoots.take mark } }, .ok none)
  | .setEntities engine globals tables elems pendingException =>
    ({ s with inner := { s.inner with engine, globals, tables, elems, pendingException } },
      .ok none)

/-- The store after a history. -/
def runAll (s : Store) (ops : List StoreOp) : Store := ops.foldl (fun s op => (s.run op).1) s

end Store

end SubmilliWasm
