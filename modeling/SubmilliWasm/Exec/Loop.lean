/-
# The dispatch loop

One turn of the run loop (`Execution::dispatch` of `src/exec/mod.rs`): the end of a function, the
gates in front of an op (`src/exec/gates.rs`), the op itself, the search for a handler when it
raises an exception (`src/exec/exn.rs`), and what the loop makes of the op's decision.  The parts
of a host call before and after the callback (`src/exec/host.rs`) are here as well, since
synchronous host functions run inside the loop.

Backtraces are left out: attaching one changes neither the kind of an error nor the state.
-/
import SubmilliWasm.Exec.Step
import SubmilliWasm.Exec.Fuel

namespace SubmilliWasm

/-- Why a run returned (`Outcome`). -/
inductive RunOutcome where
  | finished
  | hostAsync (func inst : ℕ)
  | fuelYield
  | epochDeadline
  | grow (memory delta : ℕ)
  | tableGrow (table delta : ℕ) (init : Ref)
  | gcGrow (reservedTarget bytesNeeded : ℕ)
  deriving DecidableEq, Repr

/-- The store as the loop sees it; `rest` is what it reads through the interpreter's parameters
only.  `epoch` belongs to the engine. -/
structure StoreState (σ : Type) where
  rest : σ
  fuel : Fuel
  epoch : ℕ
  epochDeadline : ℕ
  pending : Option ℕ
  pendingGeneration : ℕ
  internalError : Option ExecError
  gcRoots : List (ℕ × RefKind)
  gcRequest : Bool

/-- What is restored after the embedder's code has run. -/
structure Parked where
  rootsMark : ℕ
  pending : Option ℕ
  pendingGeneration : ℕ
  deriving DecidableEq, Repr

/-- A suspended host call. -/
structure HostCallState where
  scope : Parked
  sig : HostSig
  deriving DecidableEq

namespace StoreState

variable {σ : Type}

/-- Opens a scope for the embedder's code; the pending exception stays rooted. -/
def park (st : StoreState σ) : Parked × StoreState σ :=
  (⟨st.gcRoots.length, st.pending, st.pendingGeneration⟩,
    { st with gcRoots := st.gcRoots ++ (st.pending.map fun exn => (exn, RefKind.exn)).toList })

def truncateRoots (st : StoreState σ) (mark : ℕ) : StoreState σ :=
  { st with gcRoots := st.gcRoots.take mark }

def restorePending (st : StoreState σ) (p : Parked) : StoreState σ :=
  { st with pending := p.pending, pendingGeneration := p.pendingGeneration }

def setPending (st : StoreState σ) (exn : ℕ) : StoreState σ :=
  { st with pending := some exn, pendingGeneration := (st.pendingGeneration + 1) % 2 ^ 64 }

/-- Keeps the first internal error. -/
def latchInternalError (st : StoreState σ) (err : ExecError) : StoreState σ :=
  if st.internalError.isSome then st else { st with internalError := some err }

def epochDeadlineReached (st : StoreState σ) : Bool := st.epochDeadline ≤ st.epoch

end StoreState

variable {σ : Type}

/-! ## Exceptions -/

namespace Interp

variable (I : Interp σ)

/-- The first clause that catches a tag. -/
def findRec (s : σ) (inst thrown : ℕ) : List HandlerRec → Except ExecError (Option HandlerRec)
  | [] => .ok none
  | r :: rs =>
    match r.tag with
    | none => .ok (some r)
    | some idx =>
      match I.tag s inst idx with
      | none => .error (.compiler "exception handler tag is missing")
      | some tag => if tag = thrown then .ok (some r) else findRec s inst thrown rs

/-- The clause for an exception raised at `ip`, innermost span first. -/
def findClause (s : σ) (ip inst thrown : ℕ) :
    List HandlerSpan → Except ExecError (Option HandlerRec)
  | [] => .ok none
  | span :: spans =>
    if span.startIp ≤ ip ∧ ip < span.endIp then
      match I.findRec s inst thrown span.clauses with
      | .ok none => findClause s ip inst thrown spans
      | r => r
    else findClause s ip inst thrown spans

/-- Restores the operand height of a handler, pushes its payload and jumps to its landing pad. -/
def enterExceptionHandler (s : σ) (e : Execution) (exn : ℕ) (r : HandlerRec) (floor : ℕ) :
    Execution × Except ExecError Unit :=
  let restore := floor + r.restoreHeight
  if u32Max < restore then (e, .error (.operandStack "exception restore height overflow"))
  else if e.values.length ≠ e.shadow.length ∨ e.values.length < restore then
    (e, .error (.operandStack "exception restore height exceeds operand stack"))
  else
    let e1 := e.truncate restore
    match if r.payloadArgs then (I.exn s exn).map Prod.snd else .ok [] with
    | .error err => (e1, .error err)
    | .ok args =>
      let e2 := e1.pushAll (args.map Operand.ofVal)
      let e3 := if r.payloadRef then e2.push (Operand.ofVal (.exnRef (some exn))) else e2
      match e3.saveIp r.landingIp with
      | none => (e3, .error (.frameStack "missing handler frame"))
      | some e4 => (e4, .ok ())

/-- Searches the frames above `stopDepth`, innermost first, for a handler; `fuel` is the number of
frames, as each one is looked at once. -/
def unwindFrom (s : σ) (exn thrown stopDepth : ℕ) : ℕ → Execution → ℕ →
    Execution × Except ExecError Unit
  | 0, e, _ => (e, .error (.pending exn))
  | fuel + 1, e, faultIp =>
    match e.frames with
    | [] => (e, .error (.pending exn))
    | f :: fs =>
      if e.frames.length ≤ stopDepth then (e, .error (.pending exn))
      else
        match I.findClause s faultIp f.inst thrown f.code.handlers with
        | .error err => (e, .error err)
        | .ok (some r) => I.enterExceptionHandler s e exn r f.operandBase
        | .ok none =>
          if e.values.length ≠ e.shadow.length ∨ e.values.length < f.localsBase then
            (e, .error (.operandStack "frame base exceeds operand stack during unwind"))
          else
            let e' := { e.truncate f.localsBase with frames := fs }
            if fs.length = stopDepth then (e', .error (.pending exn))
            else
              match fs with
              | [] => (e', .error (.frameStack "missing caller frame during unwind"))
              | caller :: _ =>
                if caller.ip = 0 then
                  (e', .error (.frameStack "caller return address underflow"))
                else unwindFrom s exn thrown stopDepth fuel e' (caller.ip - 1)

/-- Looks for a handler of a raised exception; any other error passes. -/
def unwind (s : σ) (e : Execution) (err : ExecError) (faultIp stopDepth : ℕ) :
    Execution × Except ExecError Unit :=
  match err with
  | .pending exn =>
    match I.exn s exn with
    | .error err => (e, .error err)
    | .ok (thrown, _) => I.unwindFrom s exn thrown stopDepth e.frames.length e faultIp
  | err => (e, .error err)

/-- Raises an exception of a host function at its call site. -/
def raiseHostException (s : σ) (e : Execution) (exn stopDepth : ℕ) :
    Execution × Except ExecError Unit :=
  if e.frames.length ≤ stopDepth then (e, .error (.pending exn))
  else
    match e.frames with
    | [] => (e, .error (.frameStack "missing host call frame"))
    | f :: _ =>
      if f.ip = 0 then (e, .error (.frameStack "host call return address underflow"))
      else I.unwind s e (.pending exn) (f.ip - 1) stopDepth

/-! ## Host calls -/

def paramTags (tys : List ValType) (os : List Operand) : Option ExecError :=
  if os.map Operand.tag ≠ tys.map expectedTag then
    some (.operandStack "host parameter tag mismatch")
  else none

/-- The roots of reference parameters; functions are never collected. -/
def paramRoots (os : List Operand) : List (ℕ × RefKind) :=
  os.filterMap fun o => o.tag.refkind.bind fun kind =>
    if o.cell.isNull ∨ kind = .func then none else some (o.cell.handle, kind)

/-- Takes the parameters off the stack and opens the call's scope. -/
def prepareHostCall (st : StoreState σ) (e : Execution) (func : ℕ) :
    Except ExecError (HostCallState × StoreState σ × Execution) :=
  let sig := I.hostSig st.rest func
  match e.popN sig.params.length (paramTags sig.params) with
  | .error err => .error err
  | .ok (params, e') =>
    let (scope, st') := st.park
    .ok (⟨scope, sig⟩, { st' with gcRoots := st'.gcRoots ++ paramRoots params }, e')

/-- Ends a host call with what the callback returned, its results or an error. -/
def finishHostCall (st : StoreState σ) (e : Execution) (call : HostCallState)
    (outcome : Except ExecError (List Val)) (stopDepth : ℕ) :
    StoreState σ × Execution × Except ExecError Unit :=
  let closed (st : StoreState σ) := st.truncateRoots call.scope.rootsMark
  match outcome with
  | .error err =>
    if err = .thrown ∧ st.pendingGeneration ≠ call.scope.pendingGeneration then
      match st.pending with
      | none => (closed (st.restorePending call.scope), e,
          .error (.resultShape "host throw marker had no pending exception"))
      | some exn =>
        let st' := (closed st).restorePending call.scope
        (st', I.raiseHostException st'.rest e exn stopDepth)
    else (closed st, e, .error err)
  | .ok results =>
    match I.valuesMatch st.rest results call.sig.results with
    | .error err => (closed (st.restorePending call.scope), e, .error err)
    | .ok () => (closed st, e.pushAll (results.map Operand.ofVal), .ok ())

/-- What follows the callback: an internal error latched meanwhile comes first. -/
def afterCallback (st : StoreState σ) (e : Execution) (call : HostCallState)
    (outcome : Except ExecError (List Val)) (stopDepth : ℕ) :
    StoreState σ × Execution × Except ExecError Unit :=
  match st.internalError with
  | some err =>
    (({ st with internalError := none }.restorePending call.scope).truncateRoots
      call.scope.rootsMark, e, .error err)
  | none => I.finishHostCall st e call outcome stopDepth

/-! ## Gates -/

/-- The epoch gate in front of an op. -/
def epochGate (st : StoreState σ) (e : Execution) (ip : ℕ) :
    Execution × Except ExecError (Option RunOutcome) :=
  if I.epochInterruption ∧ st.epochDeadlineReached then
    match e.saveIp ip with
    | none => (e, .error (.frameStack "missing frame at epoch deadline"))
    | some e' => (e', .ok (some .epochDeadline))
  else (e, .ok none)

/-- Whether the fuel gate charges a unit. -/
def charges (st : StoreState σ) : Bool := I.consumeFuel && st.fuel.consumeFuelStep.1 = .ran

/-- The gates in front of an op: fuel, then the epoch. -/
def serviceGates (st : StoreState σ) (e : Execution) (ip : ℕ) :
    StoreState σ × Execution × Except ExecError (Option RunOutcome) :=
  if I.consumeFuel then
    match st.fuel.consumeFuelStep with
    | (.ran, fuel) =>
      let st' := { st with fuel := fuel }
      (st', I.epochGate st' e ip)
    | (.exhausted, _) => (st, e, .error .outOfFuel)
    | (.needYield, _) =>
      match e.saveIp ip with
      | none => (st, e, .error (.frameStack "missing frame at fuel yield"))
      | some e' => (st, e', .ok (some .fuelYield))
  else (st, I.epochGate st e ip)

/-! ## A turn of the loop -/

/-- Guest calls between checks of the pressure mailbox. -/
def gcCheckInterval : ℕ := 1024

end Interp

/-- Where the loop goes after a turn.  `poll` is a turn that ends in a check of the pressure
mailbox, `callback` one that calls a synchronous host function. -/
inductive Next where
  | loop (r : Regs)
  | poll (r : Regs)
  | callback (call : HostCallState)
  | leave (r : Except ExecError RunOutcome)

/-- What a turn did: whether it charged a unit of fuel, the op it executed (a trapping op as well,
an op that suspends to be executed again not), and whether it found the fuel exhausted. -/
structure Mark where
  charged : Bool
  ran : Option Op
  exhausted : Bool
  deriving DecidableEq, Repr

def Mark.silent : Mark := ⟨false, none, false⟩

/-- The state after a turn; `countdown` counts the guest calls up to the next check. -/
structure Turned (σ : Type) where
  st : StoreState σ
  exec : Execution
  countdown : ℕ
  next : Next
  mark : Mark

namespace Interp

variable (I : Interp σ)

/-- Goes on with the top frame. -/
def reload (e : Execution) : Next :=
  match e.top with
  | .error err => .leave (.error err)
  | .ok r => .loop r

/-- Saves the resume point and leaves the loop. -/
def suspend (e : Execution) (returnIp : ℕ) (o : RunOutcome) : Execution × Next :=
  match e.saveIp returnIp with
  | none => (e, .leave (.error (.frameStack "missing caller frame")))
  | some e' => (e', .leave (.ok o))

/-- Lays the frame of a callee, and counts the call while the mailbox is watched. -/
def enterCallee (e : Execution) (req : CallReq) (countdown : ℕ) : Execution × ℕ × Next :=
  match e.pushCall req.inst req.funcIndex req.code with
  | .error err => (e, countdown, .leave (.error err))
  | .ok e' =>
    match e'.top with
    | .error err => (e', countdown, .leave (.error err))
    | .ok r =>
      if I.gcWatch then
        if countdown - 1 = 0 then (e', gcCheckInterval, .poll r) else (e', countdown - 1, .loop r)
      else (e', countdown, .loop r)

/-- Starts a synchronous host call. -/
def startHostCall (st : StoreState σ) (e : Execution) (func : ℕ) :
    StoreState σ × Execution × Next :=
  match I.prepareHostCall st e func with
  | .error err => (st, e, .leave (.error err))
  | .ok (call, st', e') => (st', e', .callback call)

/-- What the loop makes of a step's decision. -/
def carryOut (st : StoreState σ) (e : Execution) (r : Regs) (stopDepth countdown : ℕ) :
    StepOutcome → StoreState σ × Execution × ℕ × Next
  | .advance next => (st, e, countdown, .loop { r with ip := next })
  | .doCall req =>
    match e.stackBytes I.frameSize with
    | .error err => (st, e, countdown, .leave (.error err))
    | .ok bytes =>
      if I.maxWasmStack ≤ bytes then (st, e, countdown, .leave (.error .stackOverflow))
      else
        match e.saveIp req.returnIp with
        | none => (st, e, countdown, .leave (.error (.frameStack "missing caller frame")))
        | some e' => (st, I.enterCallee e' req countdown)
  | .doTailCall req =>
    match e.doReturn req.code.nParams stopDepth true with
    | .error err => (st, e, countdown, .leave (.error err))
    | .ok (e', _) => (st, I.enterCallee e' req countdown)
  | .doHostCall func _ returnIp =>
    match e.saveIp returnIp with
    | none => (st, e, countdown, .leave (.error (.frameStack "missing caller frame")))
    | some e' =>
      let (st', e'', next) := I.startHostCall st e' func
      (st', e'', countdown, next)
  | .doTailHostCall func _ nParams =>
    match e.doReturn nParams stopDepth true with
    | .error err => (st, e, countdown, .leave (.error err))
    | .ok (e', _) =>
      let (st', e'', next) := I.startHostCall st e' func
      (st', e'', countdown, next)
  | .doHostAsyncCall func inst returnIp =>
    let (e', next) := suspend e returnIp (.hostAsync func inst)
    (st, e', countdown, next)
  | .doTailHostAsyncCall func inst nParams =>
    match e.doReturn nParams stopDepth true with
    | .error err => (st, e, countdown, .leave (.error err))
    | .ok (e', _) => (st, e', countdown, .leave (.ok (.hostAsync func inst)))
  | .doGrow memory delta returnIp =>
    let (e', next) := suspend e returnIp (.grow memory delta)
    (st, e', countdown, next)
  | .doTableGrow table delta init returnIp =>
    let (e', next) := suspend e returnIp (.tableGrow table delta init)
    (st, e', countdown, next)
  | .doGcGrow reservedTarget bytesNeeded returnIp =>
    let (e', next) := suspend e returnIp (.gcGrow reservedTarget bytesNeeded)
    (st, e', countdown, next)

/-- The decisions that leave the loop behind a saved resume point, with the point and what the loop
is left for. -/
inductive Suspends : StepOutcome → ℕ → RunOutcome → Prop where
  | hostAsync (func inst ip : ℕ) : Suspends (.doHostAsyncCall func inst ip) ip
    (.hostAsync func inst)
  | grow (memory delta ip : ℕ) : Suspends (.doGrow memory delta ip) ip (.grow memory delta)
  | tableGrow (table delta : ℕ) (init : Ref) (ip : ℕ) :
      Suspends (.doTableGrow table delta init ip) ip (.tableGrow table delta init)
  | gcGrow (target bytes ip : ℕ) : Suspends (.doGcGrow target bytes ip) ip (.gcGrow target bytes)

/-- What the loop makes of a decision, case by case: what becomes of the store, the stacks and the
count, and where it goes next. -/
inductive CarriedOut (st : StoreState σ) (e : Execution) (r : Regs) (stopDepth k : ℕ) :
    StepOutcome → StoreState σ × Execution × ℕ × Next → Prop where
  | advance (next : ℕ) :
      CarriedOut st e r stopDepth k (.advance next) (st, e, k, .loop { r with ip := next })
  | fails (out : StepOutcome) (err : ExecError) :
      CarriedOut st e r stopDepth k out (st, e, k, .leave (.error err))
  | calls {req : CallReq} {bytes : ℕ} {e' : Execution}
      (hbytes : e.stackBytes I.frameSize = .ok bytes)
      (hlimit : bytes < I.maxWasmStack) (hsave : e.saveIp req.returnIp = some e') :
      CarriedOut st e r stopDepth k (.doCall req) (st, I.enterCallee e' req k)
  | tailCalls {req : CallReq} {e' : Execution} {b : Bool}
      (hret : e.doReturn req.code.nParams stopDepth true = .ok (e', b)) :
      CarriedOut st e r stopDepth k (.doTailCall req) (st, I.enterCallee e' req k)
  | hosts {func inst ip : ℕ} {e' : Execution} (hsave : e.saveIp ip = some e') :
      CarriedOut st e r stopDepth k (.doHostCall func inst ip)
        ((I.startHostCall st e' func).1, (I.startHostCall st e' func).2.1, k,
          (I.startHostCall st e' func).2.2)
  | tailHosts {func inst n : ℕ} {e' : Execution} {b : Bool}
      (hret : e.doReturn n stopDepth true = .ok (e', b)) :
      CarriedOut st e r stopDepth k (.doTailHostCall func inst n)
        ((I.startHostCall st e' func).1, (I.startHostCall st e' func).2.1, k,
          (I.startHostCall st e' func).2.2)
  | suspends {out : StepOutcome} {ip : ℕ} {o : RunOutcome} {e' : Execution}
      (hout : Suspends out ip o) (hsave : e.saveIp ip = some e') :
      CarriedOut st e r stopDepth k out (st, e', k, .leave (.ok o))
  | tailSuspends {func inst n : ℕ} {e' : Execution} {b : Bool}
      (hret : e.doReturn n stopDepth true = .ok (e', b)) :
      CarriedOut st e r stopDepth k (.doTailHostAsyncCall func inst n)
        (st, e', k, .leave (.ok (.hostAsync func inst)))

theorem carryOut_cases (st : StoreState σ) (e : Execution) (r : Regs) (stopDepth k : ℕ)
    (out : StepOutcome) :
    I.CarriedOut st e r stopDepth k out (I.carryOut st e r stopDepth k out) := by
  have hsuspend : ∀ {ip o}, Suspends out ip o → I.CarriedOut st e r stopDepth k out
      (st, (suspend e ip o).1, k, (suspend e ip o).2) := by
    intro ip o hout
    unfold suspend
    split
    · exact .fails out _
    · rename_i hsave
      exact .suspends hout hsave
  cases out with
  | advance next => exact .advance next
  | doCall req =>
    unfold carryOut
    dsimp only
    split
    · exact .fails _ _
    · split
      · exact .fails _ _
      · split
        · exact .fails _ _
        · exact .calls ‹_› (Nat.lt_of_not_le ‹_›) ‹_›
  | doTailCall req =>
    unfold carryOut
    dsimp only
    split
    · exact .fails _ _
    · exact .tailCalls ‹_›
  | doHostCall func inst ip =>
    unfold carryOut
    dsimp only
    split
    · exact .fails _ _
    · exact .hosts ‹_›
  | doTailHostCall func inst n =>
    unfold carryOut
    dsimp only
    split
    · exact .fails _ _
    · exact .tailHosts ‹_›
  | doHostAsyncCall func inst ip => exact hsuspend (.hostAsync func inst ip)
  | doTailHostAsyncCall func inst n =>
    unfold carryOut
    dsimp only
    split
    · exact .fails _ _
    · exact .tailSuspends ‹_›
  | doGrow memory delta ip => exact hsuspend (.grow memory delta ip)
  | doTableGrow table delta init ip => exact hsuspend (.tableGrow table delta init ip)
  | doGcGrow target bytes ip => exact hsuspend (.gcGrow target bytes ip)

/-- The op at the current ip, past its gates. -/
def execute (st : StoreState σ) (e : Execution) (r : Regs) (stopDepth countdown : ℕ) (op : Op) :
    Turned σ :=
  match (I.step r.code op (r.ip + 1) r.inst).run r.base e st.rest with
  | (e', s, .error err) =>
    let (e'', found) := I.unwind s e' err r.ip stopDepth
    let next := match found with
      | .error err => .leave (.error err)
      | .ok () => reload e''
    ⟨{ st with rest := s }, e'', countdown, next, ⟨I.consumeFuel, some op, false⟩⟩
  | (e', s, .ok out) =>
    let (st', e'', countdown', next) :=
      I.carryOut { st with rest := s } e' r stopDepth countdown out
    let ran := match out with
      | .doGcGrow .. => none
      | _ => some op
    ⟨st', e'', countdown', next, ⟨I.consumeFuel, ran, false⟩⟩

theorem execute_charged (st : StoreState σ) (e : Execution) (r : Regs) (stopDepth countdown : ℕ)
    (op : Op) : (I.execute st e r stopDepth countdown op).mark.charged = I.consumeFuel := by
  unfold execute
  split <;> rfl

/-- One turn of the loop on the frames above `stopDepth`. -/
def turn (st : StoreState σ) (e : Execution) (r : Regs) (stopDepth countdown : ℕ) : Turned σ :=
  match r.code.ops[r.ip]? with
  | none =>
    match e.doReturn r.code.nResults stopDepth false with
    | .error err => ⟨st, e, countdown, .leave (.error err), .silent⟩
    | .ok (e', true) => ⟨st, e', countdown, .leave (.ok .finished), .silent⟩
    | .ok (e', false) => ⟨st, e', countdown, reload e', .silent⟩
  | some op =>
    match I.serviceGates st e r.ip with
    | (st', e', .error err) =>
      ⟨st', e', countdown, .leave (.error err), ⟨I.charges st, none, err = .outOfFuel⟩⟩
    | (st', e', .ok (some out)) =>
      ⟨st', e', countdown, .leave (.ok out), ⟨I.charges st, none, false⟩⟩
    | (st', e', .ok none) => I.execute st' e' r stopDepth countdown op

/-- Honors a posted pressure request of a store over the floor; the request is cleared. -/
def serviceGcPressure (st : StoreState σ) (e : Execution) : StoreState σ × Except ExecError Unit :=
  if I.footprintOverFloor st.rest ∧ st.gcRequest then
    match I.collect st.rest e.operandRoots st.gcRoots with
    | .error err => ({ st with gcRequest := false }, .error err)
    | .ok s => ({ st with rest := s, gcRequest := false }, .ok ())
  else (st, .ok ())

end Interp

end SubmilliWasm
