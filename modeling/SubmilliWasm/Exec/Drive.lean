/-
# Calls, re-entry and suspension

The drivers around the loop (`src/exec/host.rs`, `src/exec/host_async.rs`, `src/exec/epoch.rs`,
`src/exec/guard.rs`).  A state holds the drivers on the native stack, innermost first, each with
its own `Execution`, and the slot of the store in which the shared execution is parked while the
embedder's code runs.  One step is one turn of the innermost driver, or one act of the embedder's
code that has control: a call into wasm, an answer to the driver that waits for it, or a panic.

An async driver differs from a sync one in what it awaits; a future that is dropped before it is
done is outside this model.
-/
import SubmilliWasm.Exec.Loop
import SubmilliWasm.Lib.Runs

namespace SubmilliWasm

variable {σ : Type}

/-! ## Drivers -/

/-- Where a call's operands begin, the parked outer frame depth, and the depth its run stops at. -/
structure Boundary where
  valueBase : ℕ
  stopDepth : ℕ
  runStop : ℕ
  deriving DecidableEq, Repr

/-- A growth the limiter is asked for; the size of a 64-bit memory or table is pushed as an `i64`.
-/
inductive Growth where
  | memory (is64 : Bool)
  | table (is64 : Bool)
  | gc
  deriving DecidableEq, Repr

/-- Where a driver is: at the head of `run`, entered for the first time or again after a
suspension, in the loop, serving an outcome, waiting for the embedder's code, or at its end. -/
inductive Pc where
  | run (resumed : Bool)
  | loop (r : Regs)
  | poll (r : Regs)
  | serve (o : RunOutcome)
  | hostFn (call : HostCallState)
  | hostFnAsync (call : HostCallState)
  | limiter (g : Growth) (scope : Option Parked)
  | epochCallback (scope : Parked)
  | done (r : Except ExecError Unit)

/-- A driver on the native stack; `scope` is what an async call restores if it panics while no
other scope is open. -/
structure Drive where
  boundary : Boundary
  resultTys : List ValType
  scope : Option Parked
  exec : Execution
  countdown : ℕ
  pc : Pc

def Drive.isAsync (d : Drive) : Bool := d.scope.isSome

structure State (σ : Type) where
  store : StoreState σ
  slot : Execution
  drives : List Drive
  guest : Bool

/-- The execution that is running or parked. -/
def State.current (s : State σ) : Execution :=
  match s.guest, s.drives with
  | true, d :: _ => d.exec
  | _, _ => s.slot

/-- A store in which nothing runs. -/
def State.idle (st : StoreState σ) : State σ := ⟨st, .empty, [], false⟩

inductive UpdateDeadline where
  | interrupt
  | continue_ (delta : ℕ)
  | yield (delta : ℕ)
  deriving DecidableEq, Repr

/-- What happens next: the running driver takes its turn (`go`), another thread moves the epoch or
posts a pressure request, or the embedder's code acts.  `hostOp` stands for everything it does to
the store but for the fuel; a limiter's answer comes with the store after the growth. -/
inductive Choice (σ : Type) where
  | go
  | tick
  | post
  | call (inst funcIndex : ℕ) (code : CompiledFunc) (args : List Val) (resultTys : List ValType)
      (isAsync : Bool)
  | setFuel (total : BitVec 64)
  | setFuelYieldInterval (interval : Option (BitVec 64))
  | hostOp (st : StoreState σ)
  | ret (r : Except ExecError (List Val))
  | grown (rest : σ) (r : Except ExecError (Option ℕ))
  | deadline (r : Except ExecError UpdateDeadline)
  | panic

namespace State

/-- The innermost driver goes on. -/
def goOn (s : State σ) (st : StoreState σ) (d : Drive) (ds : List Drive) : State σ :=
  { s with store := st, drives := d :: ds }

/-- Parks the execution and hands control to the embedder's code. -/
def toHost (s : State σ) (st : StoreState σ) (d : Drive) (ds : List Drive) : State σ where
  store := st
  slot := d.exec
  drives := { d with exec := s.slot } :: ds
  guest := false

/-- Reclaims the execution. -/
def toGuest (st : StoreState σ) (d : Drive) (ds : List Drive) (e : Execution) (pc : Pc) :
    State σ where
  store := st
  slot := d.exec
  drives := { d with exec := e, pc := pc } :: ds
  guest := true

end State

namespace Interp

variable (I : Interp σ)

/-! ## Entering and leaving a call -/

/-- `enter`, with the entry frame's call; a failure gives the execution back. -/
def enter (s : State σ) (inst funcIndex : ℕ) (code : CompiledFunc) (args : List Val)
    (resultTys : List ValType) (isAsync : Bool) : State σ :=
  if s.store.internalError.isSome then
    -- A nested call leaves the error for the activation that is parked.
    if s.slot.isEmpty then { s with store := { s.store with internalError := none } } else s
  else
    let valueBase := s.slot.values.length
    let stopDepth := s.slot.frames.length
    let delim := if stopDepth = 0 then .topLevel else .hostReentry
    match s.slot.enterCall delim inst funcIndex code args with
    | (e, .error _) => { s with slot := if stopDepth = 0 then .empty else e }
    | (e, .ok ()) =>
      let (scope, st) := if isAsync then (some s.store.park.1, s.store.park.2) else (none, s.store)
      { store := st
        slot := .empty
        drives := ⟨⟨valueBase, stopDepth, stopDepth + 1⟩, resultTys, scope, e, 0, .run false⟩ ::
          s.drives
        guest := true }

/-- What the embedder sees of an error. -/
def surfaceException (st : StoreState σ) : ExecError → StoreState σ × ExecError
  | .pending exn =>
    match I.exn st.rest exn with
    | .error err => (st, err)
    | .ok _ => (st.setPending exn, .thrown)
  | err => (st, err)

/-- Restores the outer state and surfaces the error, if any. -/
def close (st : StoreState σ) (d : Drive) (outcome : Except ExecError Unit) :
    StoreState σ × Execution × Except ExecError Unit :=
  let b := d.boundary
  match outcome with
  | .ok () =>
    match d.exec.takeResults b.valueBase b.stopDepth d.resultTys with
    | .ok (cells, e) =>
      match I.decodeResults st.rest d.resultTys cells with
      | .error err => (st, e, .error err)
      | .ok roots => ({ st with gcRoots := st.gcRoots ++ roots }, e, .ok ())
    | .error err =>
      match d.exec.discardTo b.valueBase b.stopDepth with
      | .ok e => (st, e, .error err)
      | .error cleanup => (st, d.exec, .error cleanup)
  | .error err =>
    match d.exec.discardTo b.valueBase b.stopDepth with
    | .ok e =>
      let (st', err') := I.surfaceException st err
      (st', e, .error err')
    | .error cleanup => (st, d.exec, .error cleanup)

/-- Closes out a call: a nested one re-parks the execution, a top-level one drops it. -/
def finish (s : State σ) (d : Drive) (ds : List Drive) (outcome : Except ExecError Unit) :
    State σ :=
  let st := match d.scope with
    | some scope => s.store.truncateRoots scope.rootsMark
    | none => s.store
  let (st', e, result) := I.close st d outcome
  if d.boundary.stopDepth = 0 then
    { store := st', slot := s.slot, drives := ds, guest := false }
  else
    let st'' := match result with
      | .error err => if err.isInternal then st'.latchInternalError err else st'
      | .ok () => st'
    { store := st'', slot := e, drives := ds, guest := false }

/-- Restores the store after a contained panic and lets it go on unwinding. -/
def restoreAfterPanic (s : State σ) (ds : List Drive) (scope : Parked) : State σ :=
  let st := { s.store with internalError := none }
  let (st', slot) := match s.slot.discardCurrentCall with
    | .ok ((_, stopDepth), e) => (st, if stopDepth ≠ 0 then e else .empty)
    | .error err => (if err.isInternal then st.latchInternalError err else st, Execution.empty)
  { store := (st'.truncateRoots scope.rootsMark).restorePending scope
    slot := slot
    drives := ds
    guest := false }

/-- The panic of an async limiter is contained by nothing: the dropped future's record is honored
at the store's next use. -/
def recoverCancelled (s : State σ) (d : Drive) (ds : List Drive) (scope : Parked) : State σ :=
  let b := d.boundary
  let (st, e) := match s.slot.discardTo b.valueBase b.stopDepth with
    | .ok e => (s.store, e)
    | .error err =>
      (if err.isInternal then s.store.latchInternalError err else s.store, s.slot)
  { store := (st.truncateRoots scope.rootsMark).restorePending scope
    slot := if b.stopDepth ≠ 0 then e else .empty
    drives := ds
    guest := false }

/-- A panic of the embedder's code the innermost driver waits for. -/
def panicked (s : State σ) (d : Drive) (ds : List Drive) : State σ :=
  match d.pc, d.scope with
  | .hostFn call, _ | .hostFnAsync call, _ => restoreAfterPanic s ds call.scope
  | .limiter _ (some scope), _ | .epochCallback scope, _ => restoreAfterPanic s ds scope
  | .limiter _ none, some scope => recoverCancelled s d ds scope
  | _, _ => s

/-! ## Turns of a driver -/

/-- The head of `run`. -/
def runHead (d : Drive) : Pc :=
  if d.exec.frames.length = d.boundary.runStop then .serve .finished
  else
    match d.exec.stackBytes I.frameSize with
    | .error err => .done (.error err)
    | .ok bytes =>
      if I.maxWasmStack ≤ bytes then .done (.error .stackOverflow)
      else
        match d.exec.top with
        | .error err => .done (.error err)
        | .ok r => .loop r

/-- Where a driver goes once a suspension has been served.  The source enters `run` again; an
inline run goes on in the loop, at the resume point saved. -/
def resume (inline : Bool) (e : Execution) : Pc :=
  if inline then
    match e.top with
    | .error err => .done (.error err)
    | .ok r => .loop r
  else .run true

/-- A turn of the loop. -/
def turnStep (s : State σ) (d : Drive) (ds : List Drive) (r : Regs) : State σ × Mark :=
  let t := I.turn s.store d.exec r d.boundary.runStop d.countdown
  let d' := { d with exec := t.exec, countdown := t.countdown }
  match t.next with
  | .loop r => (s.goOn t.st { d' with pc := .loop r } ds, t.mark)
  | .poll r => (s.goOn t.st { d' with pc := .poll r } ds, t.mark)
  | .callback call => (s.toHost t.st { d' with pc := .hostFn call } ds, t.mark)
  | .leave (.ok o) => (s.goOn t.st { d' with pc := .serve o } ds, t.mark)
  | .leave (.error err) => (s.goOn t.st { d' with pc := .done (.error err) } ds, t.mark)

/-- Asks the limiter: sync drivers, and the reservation in both, do so in a scope of their own. -/
def askLimiter (s : State σ) (d : Drive) (ds : List Drive) (g : Growth) (withScope : Bool) :
    State σ :=
  if withScope then
    let (scope, st) := s.store.park
    s.toHost st { d with pc := .limiter g (some scope) } ds
  else s.toHost s.store { d with pc := .limiter g none } ds

/-- Serves an outcome (`drive` and `drive_async`). -/
def serve (inline : Bool) (s : State σ) (d : Drive) (ds : List Drive) (o : RunOutcome) : State σ :=
  match o with
  | .finished => s.goOn s.store { d with pc := .done (.ok ()) } ds
  | .hostAsync func _ =>
    if d.isAsync then
      match I.prepareHostCall s.store d.exec func with
      | .error err => s.goOn s.store { d with pc := .done (.error err) } ds
      | .ok (call, st, e) => s.toHost st { d with exec := e, pc := .hostFnAsync call } ds
    else
      s.goOn s.store { d with pc := .done (.error
        (.msg "async host function called from a synchronous context")) } ds
  | .fuelYield =>
    if d.isAsync then
      s.goOn { s.store with fuel := s.store.fuel.refuelFromReserve }
        { d with pc := resume inline d.exec } ds
    else
      s.goOn s.store { d with pc := .done (.error (.msg "fuel yield requires an async store")) } ds
  | .epochDeadline =>
    let (scope, st) := s.store.park
    s.toHost st { d with pc := .epochCallback scope } ds
  | .grow memory _ =>
    askLimiter s d ds (.memory (I.memoryIs64 s.store.rest memory)) (!d.isAsync)
  | .tableGrow table _ _ =>
    askLimiter s d ds (.table (I.tableEntityIs64 s.store.rest table)) (!d.isAsync)
  | .gcGrow _ _ => askLimiter s d ds .gc true

/-- A turn of the innermost driver. -/
def guestStep (inline : Bool) (s : State σ) (d : Drive) (ds : List Drive) : State σ × Mark :=
  match d.pc with
  | .run _ =>
    (s.goOn s.store { d with pc := I.runHead d, countdown := gcCheckInterval } ds, .silent)
  | .loop r => I.turnStep s d ds r
  | .poll r =>
    match I.serviceGcPressure s.store d.exec with
    | (st, .error err) => (s.goOn st { d with pc := .done (.error err) } ds, .silent)
    | (st, .ok ()) => (s.goOn st { d with pc := .loop r } ds, .silent)
  | .serve o => (I.serve inline s d ds o, .silent)
  | .done r => (I.finish s d ds r, .silent)
  | _ => (s, .silent)

/-! ## Answers of the embedder's code -/

/-- A host function returns.  After a synchronous one the loop goes on; its call may have been the
last of the activation. -/
def returned (s : State σ) (d : Drive) (ds : List Drive) (r : Except ExecError (List Val)) :
    State σ :=
  match d.pc with
  | .hostFn call =>
    match I.afterCallback s.store s.slot call r d.boundary.runStop with
    | (st, e, .error err) => .toGuest st d ds e (.done (.error err))
    | (st, e, .ok ()) =>
      if e.frames.length = d.boundary.runStop then .toGuest st d ds e (.serve .finished)
      else
        match e.top with
        | .error err => .toGuest st d ds e (.done (.error err))
        | .ok r => .toGuest st d ds e (.loop r)
  | .hostFnAsync call =>
    match I.afterCallback s.store s.slot call r d.boundary.runStop with
    | (st, e, .error err) => .toGuest st d ds e (.done (.error err))
    | (st, e, .ok ()) =>
      match if I.gcWatch then I.serviceGcPressure st e else (st, .ok ()) with
      | (st', .error err) => .toGuest st' d ds e (.done (.error err))
      | (st', .ok ()) => .toGuest st' d ds e (.run false)
  | _ => s

/-- The size a growth pushes, `-1` for a refusal (`push_index`). -/
def pushGrown (e : Execution) (g : Growth) (old : Option ℕ) : Execution :=
  let push (is64 : Bool) :=
    let v := old.getD u64Max
    e.push (Operand.ofVal (if is64 then .i64 (BitVec.ofNat 64 v) else .i32 (BitVec.ofNat 32 v)))
  match g with
  | .memory is64 => push is64
  | .table is64 => push is64
  | .gc => e

/-- The limiter has answered, and the growth been made or refused. -/
def grown (inline : Bool) (s : State σ) (d : Drive) (ds : List Drive) (rest : σ)
    (r : Except ExecError (Option ℕ)) : State σ :=
  match d.pc with
  | .limiter g scope =>
    let st := { s.store with rest := rest }
    let st' := match scope with
      | some scope => st.truncateRoots scope.rootsMark
      | none => st
    match r with
    | .error err => .toGuest st' d ds s.slot (.done (.error err))
    | .ok old =>
      let e := pushGrown s.slot g old
      .toGuest st' d ds e (resume inline e)
  | _ => s

/-- Extends the epoch deadline by `delta` ticks beyond the current epoch. -/
def extendEpochDeadline (st : StoreState σ) (delta : ℕ) : StoreState σ :=
  { st with epochDeadline := min (st.epoch + delta) u64Max }

/-- The epoch callback has answered; a store without one interrupts.  Only an async driver can
yield. -/
def applyEpochDeadline (inline : Bool) (s : State σ) (d : Drive) (ds : List Drive)
    (r : Except ExecError UpdateDeadline) : State σ :=
  match d.pc with
  | .epochCallback scope =>
    let st := s.store.truncateRoots scope.rootsMark
    match st.internalError with
    | some err =>
      .toGuest ({ st with internalError := none }.restorePending scope) d ds s.slot
        (.done (.error err))
    | none =>
      match r with
      | .error err => .toGuest st d ds s.slot (.done (.error err))
      | .ok .interrupt => .toGuest st d ds s.slot (.done (.error .interrupt))
      | .ok (.continue_ delta) =>
        .toGuest (extendEpochDeadline st delta) d ds s.slot (resume inline s.slot)
      | .ok (.yield delta) =>
        if d.isAsync then
          .toGuest (extendEpochDeadline st delta) d ds s.slot (resume inline s.slot)
        else .toGuest st d ds s.slot (.done (.error .interrupt))
  | _ => s

/-! ## Steps -/

/-- An act of the embedder's code. -/
def hostStep (inline : Bool) (c : Choice σ) (s : State σ) : State σ :=
  match c with
  | .call inst funcIndex code args resultTys isAsync =>
    enter s inst funcIndex code args resultTys isAsync
  | .setFuel n => { s with store := { s.store with fuel := s.store.fuel.setFuel n.toNat } }
  | .setFuelYieldInterval i =>
    { s with store :=
        { s.store with fuel := s.store.fuel.setFuelYieldInterval (i.map BitVec.toNat) } }
  | .hostOp st => { s with store := { st with fuel := s.store.fuel, epoch := s.store.epoch } }
  | c =>
    match s.drives with
    | [] => s
    | d :: ds =>
      match c with
      | .ret r => I.returned s d ds r
      | .grown rest r => grown inline s d ds rest r
      | .deadline r => applyEpochDeadline inline s d ds r
      | .panic => panicked s d ds
      | _ => s

/-- One step.  A choice that does not apply changes nothing. -/
def stepWith (inline : Bool) (c : Choice σ) (s : State σ) : State σ × Mark :=
  match c with
  | .tick => ({ s with store := { s.store with epoch := (s.store.epoch + 1) % 2 ^ 64 } }, .silent)
  | .post => ({ s with store := { s.store with gcRequest := true } }, .silent)
  | .go =>
    match s.guest, s.drives with
    | true, d :: ds => I.guestStep inline s d ds
    | _, _ => (s, .silent)
  | c => if s.guest then (s, .silent) else (I.hostStep inline c s, .silent)

/-- The machine of the source: every suspension leaves the loop. -/
def machine : Choice σ → State σ → State σ × Mark := I.stepWith false

/-! ## A small interpreter -/

/-- Straight-line ops do nothing, every call is of a host function without parameters and results,
memories are 32 bits wide. -/
def idle (maxWasmStack : ℕ) (consumeFuel epochInterruption : Bool) : Interp Unit where
  maxWasmStack := maxWasmStack
  frameSize := 64
  consumeFuel := consumeFuel
  epochInterruption := epochInterruption
  gcWatch := false
  plain _ _ next := .done (.ok (.advance next))
  throwTag _ _ _ := .done (.error .unreachable)
  callee _ _ _ _ := .ok (.host 0)
  matchesHeaptype _ _ _ _ _ := .ok false
  hostSig _ _ := ⟨[], []⟩
  memory _ _ i := i
  memoryIs64 _ _ := false
  table _ _ i := i
  tableElem _ _ := .func
  tableEntityIs64 _ _ := false
  tag _ _ i := some i
  exn _ _ := .ok (0, [])
  valuesMatch _ _ _ := .ok ()
  decodeResults _ _ _ := .ok []
  footprintOverFloor _ := false
  collect s _ _ := .ok s

end Interp

/-- A function without parameters, locals and results. -/
def CompiledFunc.ofOps (ops : List Op) : CompiledFunc := ⟨ops, 0, 0, 0, [], 0, [], [], []⟩

/-- A new store. -/
def StoreState.new (rest : σ) : StoreState σ :=
  ⟨rest, .zero, 0, u64Max, none, 0, none, [], false⟩

end SubmilliWasm
