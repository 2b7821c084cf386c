/-
# Running a body as it is nested

The meaning of structured code: an activation runs its body construct by construct, each with its
own operands, and nothing has an address.  A construct is opened over the operands it takes, a
branch goes to what its label stands for, and an exception to the innermost construct that catches
it (`Lib/Nested.lean`).  Straight-line ops run on the window of the innermost construct.

The limits of the engine are those of the flat loop (`src/exec/call.rs`, `src/exec/exn.rs`), on the
number of operands and activations.
-/
import SubmilliWasm.Exec.Window
import SubmilliWasm.Exec.Loop
import SubmilliWasm.Exec.Fused
import SubmilliWasm.Lib.Nested

namespace SubmilliWasm

open Nested

variable {σ : Type}

/-! ## Straight-line ops by what they denote -/

/-- An interpreter with its straight-line ops, and `throw`, by the op they denote, whose memory
immediate is resolved; where an op stands matters to neither. -/
structure Denoted (σ : Type) extends Interp σ where
  den : PlainOp BigMemArg → ℕ → Handler σ
  raiser : ℕ → ℕ → Handler σ

namespace Denoted

variable (D : Denoted σ)

/-- The interpreter of a function: its immediates index its own pool.  There are no gates. -/
def interp (code : CompiledFunc) : Interp σ :=
  { D.toInterp with
    consumeFuel := false
    epochInterruption := false
    plain := fun p inst next =>
      (D.den (p.mapMem (MemArg.resolve code.bigMemargs)) inst).moved id (StepOutcome.placed next)
    throwTag := fun tag inst ip => (D.raiser tag inst).moved id (StepOutcome.placed (ip + 1)) }

/-- A straight-line op in front of `next`, as `step` has it. -/
def straight (p : PlainOp BigMemArg) (inst next : ℕ) : Handler σ :=
  let advance : Handler σ := .done (.ok (.advance next))
  match p with
  | .nop => advance
  | .drop => .pop1 Handler.anyOperand fun _ => advance
  | .select => .pop 3 Handler.selectTags fun os =>
    match os with
    | [a, b, c] => .push (if c.cell.unwrapI32 ≠ 0 then a else b) advance
    | _ => advance
  | .localGet i => .getLocal i fun o => .push o advance
  | .localSet i => .pop1 Handler.anyOperand fun o => .setLocal i o advance
  | .localTee i => .pop1 Handler.anyOperand fun o => .push o (.setLocal i o advance)
  | .i32Const bits => .push ⟨bits.setWidth 64, .none⟩ advance
  | .i64Const bits => .push ⟨bits, .none⟩ advance
  | .f32Const bits => .push ⟨bits.setWidth 64, .none⟩ advance
  | .f64Const bits => .push ⟨bits, .none⟩ advance
  | .memoryGrow i => .get fun s =>
    let memory := D.memory s inst i
    .popIndex (D.memoryIs64 s memory) fun delta => .done (.ok (.doGrow memory delta next))
  | .tableGrow i => .get fun s =>
    let table := D.table s inst i
    let kind := D.tableElem s table
    .popIndex (D.tableEntityIs64 s table) fun delta =>
      .pop1 (Handler.refOf kind) fun init =>
        .done (.ok (.doTableGrow table delta (init.toRef kind) next))
  | p => (D.den p inst).moved id (StepOutcome.placed next)

/-- The op in the code does what it denotes. -/
theorem step_plain (code : CompiledFunc) (p : PlainOp MemArg) (next inst : ℕ) :
    (D.interp code).step code (.plain p) next inst
      = D.straight (p.mapMem (MemArg.resolve code.bigMemargs)) inst next := by
  cases p <;> rfl

end Denoted

/-! ## Activations -/

/-- A function as the source of the compile pass: its module's declarations, its type, its locals
and its body. -/
structure SourceFunc where
  module : ModuleTypes
  typeIdx : ℕ
  declared : List (ℕ × IrVal)
  body : Body

namespace SourceFunc

variable (fn : SourceFunc)

def params : List IrVal := (fn.module.ctx.sig fn.typeIdx).1

def results : List IrVal := (fn.module.ctx.sig fn.typeIdx).2

/-- The declared locals, written out. -/
def localTypes : List IrVal := fn.declared.flatMap fun g => List.replicate g.1 g.2

end SourceFunc

/-- A construct that is open. -/
abbrev Construct := Scope Operand Body Catch

/-- A function that runs, or waits for a callee. -/
structure Activation where
  inst : ℕ
  funcIndex : ℕ
  locals : List Operand
  vals : List Operand
  scopes : List Construct
  body : Body

/-- The label of a function body: a branch to it, or its end, returns. -/
def rootScope (nResults : ℕ) : Construct := ⟨[], nResults, none, .done, []⟩

/-- The operands of the activations, innermost first, over those of the embedder. -/
def operandsOf (base : List Operand) : List Activation → List Operand
  | [] => base
  | a :: as => operandsOf base as ++ a.locals ++ flat a.scopes a.vals

/-- What goes on after a step: the innermost activation, a check of the pressure mailbox, or the
embedder, who takes `args` where they are still there and owes `owed` operands. -/
inductive Doing where
  | run
  | poll
  | callback (call : HostCallState)
  | suspended (o : RunOutcome) (args : List Operand) (owed : ℕ)
  | finished
  | failed (err : ExecError)

/-- The activations over the operands and the frames of the embedder. -/
structure Machine (σ : Type) where
  st : StoreState σ
  countdown : ℕ
  base : List Operand
  outerFrames : ℕ
  reentry : ℕ
  acts : List Activation
  doing : Doing

/-- The run is in the hands of the embedder. -/
def Machine.Halted (m : Machine σ) : Prop :=
  match m.doing with
  | .run | .poll => False
  | _ => True

/-! ## Constructs -/

def Region.handlers : Region → List Catch
  | .tryTable catches => catches
  | _ => []

namespace Activation

/-- Opens a construct. -/
def enter (a : Activation) (n arity : ℕ) (again : Option Body) (next : Body)
    (handlers : List Catch) (body : Body) : Activation :=
  let (scopes, vals) := Nested.enter n arity again next handlers a.scopes a.vals
  { a with scopes := scopes, vals := vals, body := body }

/-- Opens a region of the type `bt`. -/
def enterRegion (a : Activation) (ctx : CompileCtx) (r : Region) (bt : BlockType) (b k : Body) :
    Activation :=
  let (ps, rs) := Translator.blockArity ctx bt
  match r with
  | .loop => a.enter ps ps (some b) k [] b
  | r => a.enter ps rs none k r.handlers b

/-- Branches to a label. -/
def branch (a : Activation) (l : ℕ) : Option Activation :=
  (Nested.branch l a.scopes a.vals).map fun (k, scopes, vals) =>
    { a with body := k, scopes := scopes, vals := vals }

end Activation

/-! ## Exceptions -/

/-- The operands a catch clause hands to its label. -/
def Catch.payload (exn : ℕ) (args : List Val) (c : Catch) : List Operand :=
  (if (convCatch c).payloadArgs then args.map Operand.ofVal else []) ++
    if (convCatch c).payloadRef then [Operand.ofVal (.exnRef (some exn))] else []

namespace Interp

variable (I : Interp σ)

/-- Whether a clause catches an exception of the tag `thrown`. -/
def catches (s : σ) (inst thrown : ℕ) (c : Catch) : Except ExecError Bool :=
  match (convCatch c).tag with
  | none => .ok true
  | some idx =>
    match I.tag s inst idx with
    | none => .error (.compiler "exception handler tag is missing")
    | some tag => .ok (tag = thrown)

/-- Leaves constructs and activations up to the one that catches, and goes to its label. -/
def unwindTo (s : σ) (exn thrown : ℕ) (args : List Val) (base : List Operand) :
    List Activation → Except ExecError (List Activation)
  | [] => .error (.pending exn)
  | a :: as =>
    match Nested.unwind (I.catches s a.inst thrown) a.scopes with
    | .error err => .error err
    | .ok none => unwindTo s exn thrown args base as
    | .ok (some (c, scopes, below)) =>
      if u32Max < (operandsOf base as).length + a.locals.length + (flat scopes below).length then
        .error (.operandStack "exception restore height overflow")
      else
        match { a with scopes := scopes, vals := below ++ c.payload exn args }.branch c.label with
        | none => .error (.compiler "exception handler label is missing")
        | some a' => .ok (a' :: as)

/-- An error: an exception is thrown to the construct that catches it, any other ends the run. -/
def raise (m : Machine σ) (err : ExecError) : Machine σ :=
  match err with
  | .pending exn =>
    match I.exn m.st.rest exn with
    | .error err => { m with doing := .failed err }
    | .ok (thrown, args) =>
      match I.unwindTo m.st.rest exn thrown args m.base m.acts with
      | .error err => { m with doing := .failed err }
      | .ok acts => { m with acts := acts }
  | err => { m with doing := .failed err }

/-! ## Calls -/

/-- The stack budget in bytes (`Execution.stackBytes`), by the number of operands and frames. -/
def budget (reentry operands frames : ℕ) : Except ExecError ℕ :=
  match checkedMul operands Execution.cellSize with
  | none => .error (.frameStack "operand stack byte size overflow")
  | some values =>
    match checkedMul frames I.frameSize with
    | none => .error (.frameStack "frame stack byte size overflow")
    | some frames =>
      match checkedMul reentry Execution.hostReentryReserve with
      | none => .error (.frameStack "host re-entry byte size overflow")
      | some reentry =>
        match ((checkedAdd values operands).bind (checkedAdd · frames)).bind
            (checkedAdd · reentry) with
        | none => .error (.frameStack "execution stack byte size overflow")
        | some total => .ok total

/-- What stands against an activation over `operands` operands, its arguments among them. -/
def frameLimit (operands : ℕ) (fn : SourceFunc) : Option ExecError :=
  if u32Max < operands then some (.frameStack "operand stack length exceeds u32")
  else if u32Max < fn.localTypes.length then some (.frameStack "local count exceeds u32")
  else if u32Max < operands + fn.localTypes.length then
    some (.frameStack "frame operand base exceeds u32")
  else none

/-- Counts a call while the mailbox is watched. -/
def countCall (countdown : ℕ) : ℕ × Doing :=
  if I.gcWatch then
    if countdown - 1 = 0 then (gcCheckInterval, .poll) else (countdown - 1, .run)
  else (countdown, .run)

/-- The activation of a function on its arguments. -/
def activate (inst funcIndex : ℕ) (fn : SourceFunc) (args : List Operand) : Activation where
  inst := inst
  funcIndex := funcIndex
  locals := args ++ fn.localTypes.map Operand.default
  vals := []
  scopes := [rootScope fn.results.length]
  body := fn.body

/-- Enters a function over the activations `as`. -/
def enterFunc (m : Machine σ) (inst funcIndex : ℕ) (fn : SourceFunc) (args : List Operand)
    (as : List Activation) : Machine σ :=
  match frameLimit ((operandsOf m.base as).length + args.length) fn with
  | some err => { m with doing := .failed err }
  | none =>
    let (countdown, doing) := I.countCall m.countdown
    { m with countdown := countdown, acts := activate inst funcIndex fn args :: as, doing := doing }

/-- Hands the arguments of a host function to it. -/
def callHost (m : Machine σ) (sig : HostSig) (args : List Operand) (as : List Activation) :
    Machine σ :=
  match paramTags sig.params args with
  | some err => { m with doing := .failed err }
  | none =>
    let (scope, st) := m.st.park
    { m with
      st := { st with gcRoots := st.gcRoots ++ paramRoots args }
      acts := as
      doing := .callback ⟨scope, sig⟩ }

/-- The operand that names the callee. -/
def popCallee (c : CallTarget) (vals : List Operand) : Except ExecError (Operand × List Operand) :=
  match c with
  | .func _ => .ok (⟨0, .none⟩, vals)
  | .indirect _ _ => (takeTop 1 Handler.scalars vals).map fun p => (p.1.headD ⟨0, .none⟩, p.2)
  | .ref _ => (takeTop 1 (Handler.refOf .func) vals).map fun p => (p.1.headD ⟨0, .none⟩, p.2)

/-- The top `n` operands, and those below. -/
def splitTop (n : ℕ) (vals : List Operand) : List Operand × List Operand :=
  (vals.drop (vals.length - n), vals.take (vals.length - n))

variable (fns : ℕ → ℕ → SourceFunc)

/-- A call; the caller goes on with `k` once its callee has returned. -/
def callFrom (m : Machine σ) (a : Activation) (as : List Activation) (c : CallTarget) (k : Body) :
    Machine σ :=
  match popCallee c a.vals with
  | .error err => I.raise m err
  | .ok (o, vals) =>
    match I.callee c a.inst o m.st.rest with
    | .error err => I.raise m err
    | .ok (.wasm inst funcIndex _) =>
      let fn := fns inst funcIndex
      let (args, rest) := splitTop fn.params.length vals
      match I.budget m.reentry (operandsOf m.base ({ a with vals := vals } :: as)).length
          (m.acts.length + m.outerFrames) with
      | .error err => { m with doing := .failed err }
      | .ok bytes =>
        if I.maxWasmStack ≤ bytes then { m with doing := .failed .stackOverflow }
        else I.enterFunc m inst funcIndex fn args ({ a with vals := rest, body := k } :: as)
    | .ok (.host func) =>
      let sig := I.hostSig m.st.rest func
      let (args, rest) := splitTop sig.params.length vals
      callHost m sig args ({ a with vals := rest, body := k } :: as)
    | .ok (.hostAsync func) =>
      let sig := I.hostSig m.st.rest func
      let (args, rest) := splitTop sig.params.length vals
      { m with
        acts := { a with vals := rest, body := k } :: as
        doing := .suspended (.hostAsync func a.inst) args sig.results.length }

/-- A tail call: the callee takes the place of its caller. -/
def tailCallFrom (m : Machine σ) (a : Activation) (as : List Activation) (c : CallTarget) :
    Machine σ :=
  match popCallee c a.vals with
  | .error err => I.raise m err
  | .ok (o, vals) =>
    match I.callee c a.inst o m.st.rest with
    | .error err => I.raise m err
    | .ok (.wasm inst funcIndex _) =>
      let fn := fns inst funcIndex
      I.enterFunc m inst funcIndex fn (splitTop fn.params.length vals).1 as
    | .ok (.host func) =>
      let sig := I.hostSig m.st.rest func
      callHost m sig (splitTop sig.params.length vals).1 as
    | .ok (.hostAsync func) =>
      let sig := I.hostSig m.st.rest func
      { m with
        acts := as
        doing := .suspended (.hostAsync func a.inst) (splitTop sig.params.length vals).1
          sig.results.length }

end Interp

/-- Hands results to the innermost activation, or to the embedder. -/
def Machine.give (m : Machine σ) (os : List Operand) : List Activation → Machine σ
  | [] => { m with base := m.base ++ os, acts := [], doing := .finished }
  | a :: as => { m with acts := { a with vals := a.vals ++ os } :: as }

/-! ## A step -/

namespace Denoted

variable (D : Denoted σ) (fns : ℕ → ℕ → SourceFunc)

/-- The activation goes on. -/
def go (m : Machine σ) (a : Activation) (as : List Activation) : Machine σ :=
  { m with acts := a :: as }

/-- A branch to a label of the activation. -/
def jumpTo (m : Machine σ) (a : Activation) (as : List Activation) (l : ℕ) : Machine σ :=
  match a.branch l with
  | none => { m with doing := .failed (.compiler "branch label is missing") }
  | some a' => go m a' as

/-- Takes the top `n` operands if they are accepted, and goes on with them. -/
def taking (m : Machine σ) (a : Activation) (n : ℕ) (accept : List Operand → Option ExecError)
    (k : List Operand → Activation → Machine σ) : Machine σ :=
  match takeTop n accept a.vals with
  | .error err => D.raise m err
  | .ok (os, vals) => k os { a with vals := vals }

/-- Runs a straight-line op, before `k`, on the window of the innermost construct. -/
def runPlain (m : Machine σ) (a : Activation) (as : List Activation) (p : PlainOp BigMemArg)
    (k : Body) : Machine σ :=
  match (D.straight p a.inst 0).on (operandsOf m.base as) (under a.scopes) ⟨a.locals, a.vals⟩
      m.st.rest with
  | (w, s, r) =>
    let a := { a with locals := w.locals, vals := w.vals }
    let m := { m with st := { m.st with rest := s }, acts := a :: as }
    match r with
    | .error err => D.raise m err
    | .ok (.advance _) => go m { a with body := k } as
    | .ok (.doGrow memory delta _) =>
      { go m { a with body := k } as with doing := .suspended (.grow memory delta) [] 1 }
    | .ok (.doTableGrow table delta init _) =>
      { go m { a with body := k } as with doing := .suspended (.tableGrow table delta init) [] 1 }
    | .ok (.doGcGrow target bytes _) => { m with doing := .suspended (.gcGrow target bytes) [] 0 }
    | .ok _ => { m with doing := .failed (.compiler "straight-line op moves control") }

/-- `throw` of a tag: an exception is made of the operands of the tag. -/
def runThrow (m : Machine σ) (a : Activation) (as : List Activation) (tag : ℕ) : Machine σ :=
  match (D.raiser tag a.inst).on (operandsOf m.base as) (under a.scopes) ⟨a.locals, a.vals⟩
      m.st.rest with
  | (w, s, r) =>
    let a := { a with locals := w.locals, vals := w.vals }
    let m := { m with st := { m.st with rest := s }, acts := a :: as }
    match r with
    | .error err => D.raise m err
    | .ok (.doGcGrow target bytes _) => { m with doing := .suspended (.gcGrow target bytes) [] 0 }
    | .ok _ => { m with doing := .failed (.compiler "straight-line op moves control") }

def runJump (m : Machine σ) (a : Activation) (as : List Activation) : Jump → Machine σ
  | .br l => jumpTo m a as l
  | .brTable cases default => D.taking m a 1 Handler.scalars fun os a =>
    jumpTo m a as (cases.getD (os.headD ⟨0, .none⟩).cell.unwrapI32.toNat default)
  -- The outermost label is that of the function.
  | .ret => jumpTo m a as (a.scopes.length - 1)
  | .unreachable => D.raise m .unreachable
  | .throw tag => D.runThrow m a as tag
  | .throwRef => D.taking m a 1 (Handler.refOf .exn) fun os _ =>
    let r := os.headD ⟨0, .none⟩
    D.raise m (if r.cell.isNull then .nullReference else .pending r.cell.handle)
  | .returnCall c => D.tailCallFrom fns m a as c

def runCond (m : Machine σ) (a : Activation) (as : List Activation) (k : Body) : CondBr → Machine σ
  | .brIf l => D.taking m a 1 Handler.scalars fun os a =>
    if (os.headD ⟨0, .none⟩).cell.unwrapI32 ≠ 0 then jumpTo m a as l
    else go m { a with body := k } as
  | .brOnNull l => D.taking m a 1 Handler.taggedRef fun os a =>
    let r := os.headD ⟨0, .none⟩
    if r.cell.isNull then jumpTo m a as l
    else go m { a with vals := a.vals ++ [r], body := k } as
  | .brOnNonNull l => D.taking m a 1 Handler.taggedRef fun os a =>
    let r := os.headD ⟨0, .none⟩
    if r.cell.isNull then go m { a with body := k } as
    else jumpTo m { a with vals := a.vals ++ [r] } as l
  | .brOnCast l ty nullable fail => D.taking m a 1 (Handler.refOf (refkindOfIrheap ty)) fun os a =>
    let r := os.headD ⟨0, .none⟩
    match D.matchesHeaptype ty nullable a.inst r m.st.rest with
    | .error err => D.raise m err
    | .ok matched =>
      let a := { a with vals := a.vals ++ [r] }
      if matched != fail then jumpTo m a as l else go m { a with body := k } as

/-- A step of the innermost activation. -/
def move (m : Machine σ) (a : Activation) (as : List Activation) : Machine σ :=
  let ctx := (fns a.inst a.funcIndex).module.ctx
  match a.body with
  | .done =>
    match a.scopes with
    | [] => m.give a.vals as
    | s :: ss => go m { a with body := s.next, scopes := ss, vals := s.below ++ a.vals } as
  | .plain p k => D.runPlain m a as p k
  | .region r bt b k => go m (a.enterRegion ctx r bt b k) as
  | .ifElse bt t e k => D.taking m a 1 Handler.scalars fun os a =>
    let b := if (os.headD ⟨0, .none⟩).cell.unwrapI32 ≠ 0 then t else e
    go m (a.enterRegion ctx .block bt b k) as
  | .ifThen bt t k => D.taking m a 1 Handler.scalars fun os a =>
    if (os.headD ⟨0, .none⟩).cell.unwrapI32 ≠ 0 then go m (a.enterRegion ctx .block bt t k) as
    else go m { a with body := k } as
  | .jump j _ => D.runJump fns m a as j
  | .cond c k => D.runCond m a as k c
  | .call c k => D.callFrom fns m a as c k

/-- A check of the pressure mailbox. -/
def check (m : Machine σ) : Machine σ :=
  match D.serviceGcPressure m.st (.stacked [] m.reentry (operandsOf m.base m.acts)) with
  | (st, .error err) => { m with st := st, doing := .failed err }
  | (st, .ok ()) => { m with st := st, doing := .run }

/-- One step; a run in the hands of the embedder stays where it is. -/
def step (m : Machine σ) : Machine σ :=
  match m.doing, m.acts with
  | .run, a :: as => D.move fns m a as
  | .poll, _ => D.check m
  | _, _ => m

/-- A call from the embedder; `reentry` counts it. -/
def begin (st : StoreState σ) (base : List Operand) (frames reentry inst funcIndex : ℕ)
    (args : List Operand) : Machine σ :=
  let fn := fns inst funcIndex
  let m : Machine σ := ⟨st, Interp.gcCheckInterval, base, frames, reentry, [], .run⟩
  if usizeMax < reentry then
    { m with doing := .failed (.frameStack "host re-entry depth overflow") }
  else
    match Interp.frameLimit (base.length + args.length) fn with
    | some err => { m with doing := .failed err }
    | none =>
      let m := { m with acts := [Interp.activate inst funcIndex fn args] }
      match D.budget reentry (operandsOf base m.acts).length (frames + 1) with
      | .error err => { m with doing := .failed err }
      | .ok bytes =>
        if D.maxWasmStack ≤ bytes then { m with doing := .failed .stackOverflow } else m

end Denoted

end SubmilliWasm
