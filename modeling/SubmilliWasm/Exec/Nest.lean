/-
# Calls nested in one store

What is on the native stack of one store (`src/exec/host_async.rs`, `src/exec/guard.rs`,
`src/func/direct_call.rs`, `src/func/async_func.rs`, and `recover_cancelled_async_calls` with its
neighbours in `src/store/inner.rs`).  The embedder's code calls into wasm or a host function
directly, wasm calls the embedder's code, and the future of an async call may be dropped where it
is suspended.  The drop runs no code of the store: it marks the call's cleanup record, and the next
mutable use of the store restores what the record saved.

A wasm call moves as its driver does on its own (`Interp.machine`); what is added here are the
records, direct calls of host functions, root scopes and dropped futures.  Next to the state a step
leaves what it did to the pending exception.
-/
import SubmilliWasm.Exec.Isolation

namespace SubmilliWasm

variable {σ : Type}

/-! ## Cleanup records -/

/-- What is restored if an async call is dropped; `cancelled` is its drop token. -/
structure AsyncCallCleanup where
  token : ℕ
  cancelled : Bool
  scope : Parked
  boundary : Option (ℕ × ℕ)
  deriving DecidableEq, Repr

/-- One turn of `recover_cancelled_async_calls`. -/
def AsyncCallCleanup.restore (r : AsyncCallCleanup) (st : StoreState σ) (slot : Execution) :
    StoreState σ × Execution :=
  let (st', slot') := match r.boundary with
    | none => (st, slot)
    | some (valueBase, stopDepth) =>
      let (st', e) := match slot.discardTo valueBase stopDepth with
        | .ok e => (st, e)
        | .error err => (if err.isInternal then st.latchInternalError err else st, slot)
      (st', if stopDepth ≠ 0 then e else .empty)
  ((st'.truncateRoots r.scope.rootsMark).restorePending r.scope, slot')

/-- Drops the record of a call that has come to its end. -/
def completeCleanup (token : ℕ) : List AsyncCallCleanup → Except ExecError (List AsyncCallCleanup)
  | [] => .error (.frameStack "missing async call cleanup record")
  | r :: rs =>
    if r.token = token then .ok rs
    else .error (.frameStack "async call cleanup order mismatch")

/-- Drops the last record of a boundary, and those begun after it. -/
def abandonBoundary (boundary : ℕ × ℕ) (rs : List AsyncCallCleanup) : List AsyncCallCleanup :=
  if rs.any (·.boundary = some boundary) then (rs.dropWhile (·.boundary ≠ some boundary)).tail
  else rs

/-! ## Activities -/

/-- A host function called by the embedder's code, not by wasm; an async one has a token. -/
structure DirectCall where
  scope : Parked
  resultTys : List ValType
  token : Option ℕ

/-- What stands on the native stack: a call into wasm with its driver, a direct call of a host
function, a root scope of the embedder's.  The token of a wasm call counts if the call is async. -/
inductive Activity where
  | wasm (d : Drive) (token : ℕ)
  | direct (b : DirectCall)
  | rootScope (mark : ℕ)

/-- The scope of the embedder's code a driver waits for. -/
def Pc.scope : Pc → Option Parked
  | .hostFn call | .hostFnAsync call => some call.scope
  | .limiter _ scope => scope
  | .epochCallback scope => some scope
  | _ => none

/-- A store with its activities, innermost first, and its cleanup records, last begun first. -/
structure Nest (σ : Type) where
  store : StoreState σ
  slot : Execution
  stack : List Activity
  guest : Bool
  cleanups : List AsyncCallCleanup
  nextToken : ℕ

/-- The interpreter, with the roots under which a direct call hands out results
(`root_host_result`). -/
structure Hosted (σ : Type) extends Interp σ where
  handOut : σ → List Val → Except ExecError (List (ℕ × RefKind))

namespace Nest

/-- A store in which nothing runs. -/
def idle (st : StoreState σ) : Nest σ := ⟨st, .empty, [], false, [], 0⟩

def recoverFrom (W : Nest σ) : List AsyncCallCleanup → Nest σ
  | [] => { W with cleanups := [] }
  | r :: rs =>
    if r.cancelled then
      let (st, slot) := r.restore W.store W.slot
      recoverFrom { W with store := st, slot := slot } rs
    else { W with cleanups := r :: rs }

/-- `recover_cancelled_async_calls`. -/
def recover (W : Nest σ) : Nest σ := W.recoverFrom W.cleanups

/-- `begin_async_call_cleanup`. -/
def beginCleanup (W : Nest σ) (scope : Parked) (boundary : Option (ℕ × ℕ)) : Nest σ :=
  { W with
    cleanups := ⟨W.nextToken, false, scope, boundary⟩ :: W.cleanups
    nextToken := W.nextToken + 1 }

/-- The future that owns a token is dropped. -/
def cancel (W : Nest σ) (token : ℕ) : Nest σ :=
  { W with cleanups := W.cleanups.map fun r =>
      if r.token = token then { r with cancelled := true } else r }

/-- The innermost driver on its own. -/
def single (W : Nest σ) (d : Drive) : State σ := ⟨W.store, W.slot, [d], W.guest⟩

/-- Takes over what the innermost driver has become. -/
def absorb (W : Nest σ) (as : List Activity) (token : ℕ) (s : State σ) : Nest σ :=
  { W with
    store := s.store
    slot := s.slot
    stack := s.drives.map (.wasm · token) ++ as
    guest := s.guest }

/-- The embedder's code has control and the store; an async limiter does not get the store. -/
def hosting (W : Nest σ) : Bool :=
  !W.guest && match W.stack with
    | .wasm d _ :: _ => d.pc.scope.isSome
    | _ => true

end Nest

/-! ## What a step does to the pending exception -/

/-- The pending exception is installed or taken; a scope that saved it is opened, or closed with
the slot as it is (`kept`) or as it was saved (`undone`). -/
inductive PendingEvent where
  | installed (exn : ℕ)
  | taken
  | opened
  | kept
  | undone
  deriving DecidableEq, Repr

/-! ## Steps -/

/-- What happens next.  `use` is any use of the store's mutable interface that leaves the pending
exception alone: it appends roots and may latch an error.  `peek` is one through a shared borrow,
which can append roots as well.  A limiter's answer comes with the store after the growth; `throw_`
without an exception is one of a stale handle; `drop` drops the future of the innermost call at the
point where it is suspended. -/
inductive Act (σ : Type) where
  | go
  | tick
  | post
  | call (inst funcIndex : ℕ) (code : CompiledFunc) (args : List Val) (resultTys : List ValType)
      (isAsync : Bool)
  | callHost (resultTys : List ValType) (isAsync : Bool)
  | throw_ (exn : Option ℕ)
  | take
  | use (st : StoreState σ) (roots : List (ℕ × RefKind)) (err : Option ExecError)
  | peek (roots : List (ℕ × RefKind))
  | openScope
  | closeScope
  | ret (r : Except ExecError (List Val))
  | grown (rest : σ) (r : Except ExecError (Option ℕ))
  | deadline (r : Except ExecError UpdateDeadline)
  | panic
  | drop

namespace Nest

/-! ### The embedder's code -/

/-- A call into wasm; an async one begins a cleanup record. -/
def call (W : Nest σ) (inst funcIndex : ℕ) (code : CompiledFunc) (args : List Val)
    (resultTys : List ValType) (isAsync : Bool) : Nest σ :=
  let s := Interp.enter ⟨W.store, W.slot, [], false⟩ inst funcIndex code args resultTys isAsync
  let W' := W.absorb W.stack W.nextToken s
  match s.drives with
  | [] => W'
  | d :: _ =>
    match d.scope with
    | none => W'
    | some scope =>
      W'.beginCleanup scope (some (d.boundary.valueBase, d.boundary.stopDepth))

/-- A direct call of a host function. -/
def callHost (W : Nest σ) (resultTys : List ValType) (isAsync : Bool) : Nest σ :=
  if W.store.internalError.isSome then
    if W.slot.isEmpty then { W with store := { W.store with internalError := none } } else W
  else
    let (scope, st) := W.store.park
    if isAsync then
      { W with
        store := st
        stack := .direct ⟨scope, resultTys, some W.nextToken⟩ :: W.stack }.beginCleanup scope none
    else { W with store := st, stack := .direct ⟨scope, resultTys, none⟩ :: W.stack }

def openScope (W : Nest σ) : Nest σ :=
  { W with stack := .rootScope W.store.gcRoots.length :: W.stack }

def closeScope (W : Nest σ) : Nest σ :=
  match W.stack with
  | .rootScope mark :: as => { W with store := W.store.truncateRoots mark, stack := as }
  | _ => W

/-- An internal error is kept for the activation that is parked, if any. -/
def latchParked (st : StoreState σ) (slot : Execution) (err : ExecError) : StoreState σ :=
  if !slot.isEmpty && err.isInternal then st.latchInternalError err else st

end Nest

namespace Hosted

variable (H : Hosted σ)

def throw_ (st : StoreState σ) (exn : Option ℕ) : StoreState σ :=
  let stale := st.latchInternalError
    (.gcMetadata "host attempted to throw a stale exception reference")
  match exn with
  | none => stale
  | some exn =>
    match H.exn st.rest exn with
    | .error _ => stale
    | .ok _ => st.setPending exn

/-- `take_pending_exception_host`: the exception stays rooted for the host. -/
def take (st : StoreState σ) : StoreState σ :=
  match st.pending with
  | none => st
  | some exn =>
    match H.exn st.rest exn with
    | .error _ =>
      st.latchInternalError (.gcMetadata "pending exception referenced a missing exception")
    | .ok _ => { st with pending := none, gcRoots := st.gcRoots ++ [(exn, RefKind.exn)] }

/-! ### The end of a direct call -/

/-- `finish_direct_host_call`. -/
def finishDirect (st : StoreState σ) (slot : Execution) (b : DirectCall)
    (outcome : Except ExecError (List Val)) : StoreState σ × Except ExecError (List Val) :=
  let undo (st : StoreState σ) := (st.truncateRoots b.scope.rootsMark).restorePending b.scope
  match st.internalError with
  | some err =>
    (undo (if slot.isEmpty then { st with internalError := none } else st), .error err)
  | none =>
    match outcome with
    | .error err =>
      if err = .thrown ∧ st.pendingGeneration ≠ b.scope.pendingGeneration ∧ st.pending = none then
        let missing := .resultShape "host throw marker had no pending exception"
        (Nest.latchParked (undo st) slot missing, .error missing)
      else (st.truncateRoots b.scope.rootsMark, .error err)
    | .ok results =>
      match H.valuesMatch st.rest results b.resultTys with
      | .error err => (undo (Nest.latchParked st slot err), .error err)
      | .ok () =>
        let closed := st.truncateRoots b.scope.rootsMark
        match H.handOut st.rest results with
        | .error err => (Nest.latchParked (undo st) slot err, .error err)
        | .ok roots => ({ closed with gcRoots := closed.gcRoots ++ roots }, .ok results)

/-- The host function called directly returns; an async one completes its record first. -/
def directReturned (W : Nest σ) (b : DirectCall) (as : List Activity)
    (r : Except ExecError (List Val)) : Nest σ :=
  match b.token with
  | none => { W with store := (H.finishDirect W.store W.slot b r).1, stack := as }
  | some token =>
    match completeCleanup token W.cleanups with
    | .ok rs =>
      { W with store := (H.finishDirect W.store W.slot b r).1, stack := as, cleanups := rs }
    | .error err =>
      { W with
        store := Nest.latchParked ((W.store.truncateRoots b.scope.rootsMark).restorePending b.scope)
          W.slot err
        stack := as }

end Hosted

/-! ### Panics and dropped futures -/

/-- The records when a direct call has panicked: its own is completed, if that is possible. -/
def DirectCall.completed (b : DirectCall) (rs : List AsyncCallCleanup) : List AsyncCallCleanup :=
  match b.token with
  | none => rs
  | some token =>
    match completeCleanup token rs with
    | .ok rs' => rs'
    | .error _ => rs

namespace Nest

/-- `restore_after_panic`; the store goes on unwinding. -/
def restoreAfterPanic (W : Nest σ) (scope : Parked) (as : List Activity) : Nest σ :=
  let W' := { W with store := { W.store with internalError := none } }.recover
  let (st, slot, cleanups) := match W'.slot.discardCurrentCall with
    | .ok ((valueBase, stopDepth), e) =>
      (W'.store, if stopDepth ≠ 0 then e else .empty,
        abandonBoundary (valueBase, stopDepth) W'.cleanups)
    | .error err =>
      (if err.isInternal then W'.store.latchInternalError err else W'.store, Execution.empty,
        W'.cleanups)
  { W' with
    store := (st.truncateRoots scope.rootsMark).restorePending scope
    slot := slot
    stack := as
    cleanups := cleanups }

/-- The embedder's code panics.  Nothing contains a panic of an async limiter: it drops the future
of the call on its way. -/
def panicked (W : Nest σ) : Nest σ :=
  match W.stack with
  | .wasm d token :: as =>
    match d.pc with
    | .limiter _ none =>
      if d.isAsync then { W with stack := as, guest := false }.cancel token else W
    | pc =>
      match pc.scope with
      | none => W
      | some scope =>
        if d.isAsync then (W.restoreAfterPanic scope as).cancel token
        else W.restoreAfterPanic scope as
  | .direct b :: as =>
    let W' := W.recover
    let W'' := { W' with cleanups := b.completed W'.cleanups }.recover
    { W'' with
      store := (W''.store.truncateRoots b.scope.rootsMark).restorePending b.scope
      stack := as }
  | _ => W

/-- The innermost call is dropped: at the await of a host function or of a limiter, at a yield for
fuel, or at the yield an epoch callback asked for. -/
def dropped (W : Nest σ) : Nest σ :=
  match W.stack with
  | .wasm d token :: as =>
    if d.isAsync then
      match W.guest, d.pc with
      | true, .serve .fuelYield =>
        { W with slot := d.exec, stack := as, guest := false }.cancel token
      | false, .hostFnAsync _ | false, .limiter _ none =>
        { W with stack := as, guest := false }.cancel token
      | false, .epochCallback scope =>
        let W' := W.recover
        let st := W'.store.truncateRoots scope.rootsMark
        if st.internalError.isSome then W
        else { W' with store := st, stack := as, guest := false }.cancel token
      | _, _ => W
    else W
  | .direct b :: as =>
    match b.token with
    | none => W
    | some token => { W with stack := as, guest := false }.cancel token
  | _ => W

end Nest

namespace Hosted

variable (H : Hosted σ)

/-- A turn of the innermost driver.  At the end of an async call its record is completed. -/
def turn (W : Nest σ) (d : Drive) (token : ℕ) (as : List Activity) : Nest σ :=
  match d.pc, d.scope with
  | .done r, some scope =>
    match completeCleanup token W.cleanups with
    | .ok rs => { W with cleanups := rs }.absorb as token (H.finish (W.single d) d [] r)
    | .error err =>
      let W' := { W with store := W.store.restorePending scope }
      W'.absorb as token (H.finish (W'.single d) d [] (.error err))
  | _, _ => W.absorb as token (H.machine .go (W.single d)).1

/-- Whether a driver waits for an answer. -/
def awaits : Act σ → Pc → Bool
  | .ret _, .hostFn _ | .ret _, .hostFnAsync _ => true
  | .grown _ _, .limiter _ _ => true
  | .deadline _, .epochCallback _ => true
  | _, _ => false

/-- What the innermost driver makes of an answer. -/
def answer (a : Act σ) (s : State σ) (d : Drive) : State σ :=
  match a with
  | .ret r => H.returned s d [] r
  | .grown rest r => Interp.grown false s d [] rest r
  | .deadline r => Interp.applyEpochDeadline false s d [] r
  | _ => s

/-- The embedder's code answers the activity it was called from. -/
def answered (a : Act σ) (W : Nest σ) : Nest σ :=
  match W.stack with
  | .wasm d token :: as =>
    if awaits a d.pc then
      let W' := W.recover
      W'.absorb as token (H.answer a (W'.single d) d)
    else W
  | .direct b :: as =>
    match a with
    | .ret r => H.directReturned W.recover b as r
    | _ => W
  | _ => W

/-- An act of the embedder's code on the store; all but a shared use recover first. -/
def hostAct (a : Act σ) (W : Nest σ) : Nest σ :=
  match a with
  | .peek roots => { W with store := { W.store with gcRoots := W.store.gcRoots ++ roots } }
  | .call inst funcIndex code args resultTys isAsync =>
    W.recover.call inst funcIndex code args resultTys isAsync
  | .callHost resultTys isAsync => W.recover.callHost resultTys isAsync
  | .throw_ exn => { W.recover with store := H.throw_ W.recover.store exn }
  | .take => { W.recover with store := H.take W.recover.store }
  | .use st roots err =>
    let st₀ := W.recover.store
    let st' := { st with
      pending := st₀.pending
      pendingGeneration := st₀.pendingGeneration
      internalError := st₀.internalError
      gcRoots := st₀.gcRoots ++ roots }
    { W.recover with store := match err with
        | none => st'
        | some err => st'.latchInternalError err }
  | .openScope => W.recover.openScope
  | .closeScope => W.recover.closeScope
  | _ => W

/-- The state after an act.  One that does not apply changes nothing. -/
def next (a : Act σ) (W : Nest σ) : Nest σ :=
  match a with
  | .go =>
    match W.guest, W.stack with
    | true, .wasm d token :: as => H.turn W d token as
    | _, _ => W
  | .tick => { W with store := { W.store with epoch := (W.store.epoch + 1) % 2 ^ 64 } }
  | .post => { W with store := { W.store with gcRequest := true } }
  | .drop => W.dropped
  | .panic => if W.guest then W else W.panicked
  | .ret _ | .grown _ _ | .deadline _ => if W.guest then W else H.answered a W
  | a => if W.hosting then H.hostAct a W else W

/-! ### Events -/

/-- The exception a call that ends with `r` surfaces. -/
def surfaced (st : StoreState σ) (d : Drive) (r : Except ExecError Unit) : List PendingEvent :=
  match r with
  | .error (.pending exn) =>
    match d.exec.discardTo d.boundary.valueBase d.boundary.stopDepth, H.exn st.rest exn with
    | .ok _, .ok _ => [.installed exn]
    | _, _ => []
  | _ => []

def turnEvents (W : Nest σ) (d : Drive) (token : ℕ) : List PendingEvent :=
  match d.pc, d.scope with
  | .done r, none => H.surfaced W.store d r
  | .done r, some _ =>
    match completeCleanup token W.cleanups with
    | .ok _ => .kept :: H.surfaced W.store d r
    | .error _ => [.undone]
  | _, _ =>
    match (H.machine .go (W.single d)).1.drives with
    | d' :: _ => if d'.pc.scope.isSome then [.opened] else []
    | [] => []

/-- Whether a host function's return restores the pending exception. -/
def returnUndoes (st : StoreState σ) (scope : Parked) (tys : List ValType)
    (r : Except ExecError (List Val)) : Bool :=
  st.internalError.isSome || match r with
    | .error err => err = .thrown && st.pendingGeneration ≠ scope.pendingGeneration
    | .ok results => match H.valuesMatch st.rest results tys with
      | .error _ => true
      | .ok () => false

/-- The same for a direct call, which lets a fresh exception stand and hands out results. -/
def directUndoes (st : StoreState σ) (b : DirectCall) (r : Except ExecError (List Val)) : Bool :=
  st.internalError.isSome || match r with
    | .error err =>
      err = .thrown && st.pendingGeneration ≠ b.scope.pendingGeneration && st.pending = none
    | .ok results => match H.valuesMatch st.rest results b.resultTys with
      | .error _ => true
      | .ok () => match H.handOut st.rest results with
        | .error _ => true
        | .ok _ => false

def closing (undoes : Bool) : PendingEvent := if undoes then .undone else .kept

/-- What the answer to a driver does, on the recovered store. -/
def driverEvents (a : Act σ) (st : StoreState σ) (d : Drive) : List PendingEvent :=
  match a, d.pc with
  | .ret r, .hostFn call | .ret r, .hostFnAsync call =>
    [closing (H.returnUndoes st call.scope call.sig.results r)]
  | .grown _ _, .limiter _ (some _) => [.kept]
  | .deadline _, .epochCallback _ => [closing st.internalError.isSome]
  | _, _ => []

/-- What the return of a direct call does. -/
def directEvents (W : Nest σ) (b : DirectCall) (r : Except ExecError (List Val)) :
    List PendingEvent :=
  match b.token with
  | none => [closing (H.directUndoes W.store b r)]
  | some token =>
    match completeCleanup token W.cleanups with
    | .ok _ => [closing (H.directUndoes W.store b r)]
    | .error _ => [.undone]

def answerEvents (a : Act σ) (W : Nest σ) : List PendingEvent :=
  match W.stack with
  | .wasm d _ :: _ => H.driverEvents a W.recover.store d
  | .direct b :: _ =>
    match a with
    | .ret r => H.directEvents W.recover b r
    | _ => []
  | _ => []

def panicEvents (W : Nest σ) : List PendingEvent :=
  match W.stack with
  | .wasm d _ :: _ =>
    match d.pc with
    | .limiter _ none => if d.isAsync then [.undone] else []
    | pc =>
      match pc.scope with
      | none => []
      | some _ => .undone :: if d.isAsync then [.kept] else []
  | .direct _ :: _ => [.undone]
  | _ => []

/-- A dropped call is undone, with the host call it waited in. -/
def dropEvents (W : Nest σ) : List PendingEvent :=
  match W.stack with
  | .wasm d _ :: _ =>
    if d.isAsync then
      match W.guest, d.pc with
      | true, .serve .fuelYield => [.undone]
      | false, .hostFnAsync _ => [.undone, .undone]
      | false, .limiter _ none => [.undone]
      | false, .epochCallback _ =>
        if W.recover.store.internalError.isSome then [] else [.kept, .undone]
      | _, _ => []
    else []
  | .direct b :: _ => if b.token.isSome then [.undone] else []
  | _ => []

/-- The installing of a live exception, and the taking of one. -/
def hostEvents (a : Act σ) (W : Nest σ) : List PendingEvent :=
  let st := W.recover.store
  match a with
  | .call inst funcIndex code args resultTys isAsync =>
    let s := Interp.enter ⟨st, W.recover.slot, [], false⟩ inst funcIndex code args resultTys isAsync
    if s.guest && isAsync then [.opened] else []
  | .callHost _ _ => if st.internalError.isSome then [] else [.opened]
  | .throw_ (some exn) =>
    match H.exn st.rest exn with
    | .ok _ => [.installed exn]
    | .error _ => []
  | .take =>
    match st.pending with
    | none => []
    | some exn =>
      match H.exn st.rest exn with
      | .ok _ => [.taken]
      | .error _ => []
  | _ => []

/-- What an act does to the pending exception. -/
def events (a : Act σ) (W : Nest σ) : List PendingEvent :=
  match a with
  | .go =>
    match W.guest, W.stack with
    | true, .wasm d token :: _ => H.turnEvents W d token
    | _, _ => []
  | .tick | .post => []
  | .drop => dropEvents W
  | .panic => if W.guest then [] else panicEvents W
  | .ret _ | .grown _ _ | .deadline _ => if W.guest then [] else H.answerEvents a W
  | a => if W.hosting then H.hostEvents a W else []

def step (a : Act σ) (W : Nest σ) : Nest σ × List PendingEvent := (H.next a W, H.events a W)

/-- The small interpreter, with host functions that return no references. -/
def idle (maxWasmStack : ℕ) (consumeFuel epochInterruption : Bool) : Hosted Unit where
  toInterp := Interp.idle maxWasmStack consumeFuel epochInterruption
  handOut _ _ := .ok []

end Hosted

end SubmilliWasm
