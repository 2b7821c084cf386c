/-
# One instruction

The flat dispatch of the interpreter (`src/exec/step.rs`, `src/exec/call.rs`, `src/exec/cast.rs`).
A handler touches the operand stack and the locals of the running frame only through the accessors
of `src/exec/stack.rs`, so it is written as a tree of such accesses (`Handler`); what it computes
in between, and what it reads and writes of the store, is free.  The ops that move control or
operands are spelled out; the straight-line handlers (numbers, memories, tables, aggregates, casts)
are parameters of the interpreter, like the tables of the store they consult.
-/
import SubmilliWasm.Exec.Stack

namespace SubmilliWasm

/-! ## What a step decides -/

/-- A pending call of a wasm function. -/
structure CallReq where
  returnIp : ℕ
  inst : ℕ
  funcIndex : ℕ
  code : CompiledFunc
  deriving DecidableEq, Repr

inductive StepOutcome where
  | advance (ip : ℕ)
  | doCall (req : CallReq)
  | doTailCall (req : CallReq)
  | doHostCall (func inst returnIp : ℕ)
  | doTailHostCall (func inst nParams : ℕ)
  | doHostAsyncCall (func inst returnIp : ℕ)
  | doTailHostAsyncCall (func inst nParams : ℕ)
  | doGrow (memory delta returnIp : ℕ)
  | doTableGrow (table delta : ℕ) (init : Ref) (returnIp : ℕ)
  | doGcGrow (reservedTarget bytesNeeded returnIp : ℕ)
  deriving DecidableEq, Repr

/-! ## Handlers -/

/-- What a handler does to the stacks: `pop` checks the top operands against the frame's floor and
by `accept` before it takes them, `look` reads the stacks, `getLocal` and `setLocal` go through
the frame's base. -/
inductive Handler (σ : Type) where
  | done (r : Except ExecError StepOutcome)
  | get (k : σ → Handler σ)
  | set (s : σ) (k : Handler σ)
  | look (k : List Cell → List RefTag → Handler σ)
  | pop (n : ℕ) (accept : List Operand → Option ExecError) (k : List Operand → Handler σ)
  | push (o : Operand) (k : Handler σ)
  | getLocal (i : ℕ) (k : Operand → Handler σ)
  | setLocal (i : ℕ) (o : Operand) (k : Handler σ)
  | branch (t : BranchTarget) (k : Handler σ)

namespace Execution

/-- The lowest slot of the top `needed` operands (`ensure_operands`). -/
def ensureOperands (e : Execution) (needed : ℕ) : Except ExecError ℕ :=
  if e.values.length ≠ e.shadow.length then
    .error (.operandStack "value/shadow length mismatch")
  else
    match e.frames with
    | [] => .error (.frameStack "missing current frame")
    | f :: _ =>
      if e.values.length < f.operandBase then
        .error (.operandStack "stack is below the current frame floor")
      else if e.values.length - f.operandBase < needed then
        .error (.operandStack "operand stack underflow")
      else .ok (e.values.length - needed)

/-- The slots from `base` on. -/
def operandsFrom (e : Execution) (base : ℕ) : List Operand :=
  List.zipWith Operand.mk (e.values.drop base) (e.shadow.drop base)

/-- Takes the top `n` operands if they are accepted. -/
def popN (e : Execution) (n : ℕ) (accept : List Operand → Option ExecError) :
    Except ExecError (List Operand × Execution) :=
  match e.ensureOperands n with
  | .error err => .error err
  | .ok base =>
    match accept (e.operandsFrom base) with
    | some err => .error err
    | none => .ok (e.operandsFrom base, e.truncate base)

def cellAt (e : Execution) (i : ℕ) : Except ExecError Operand :=
  if e.values.length ≠ e.shadow.length then
    .error (.operandStack "value/shadow length mismatch")
  else
    match e.values[i]?, e.shadow[i]? with
    | some c, some t => .ok ⟨c, t⟩
    | _, _ => .error (.operandStack "local index out of bounds")

def setCell (e : Execution) (i : ℕ) (o : Operand) : Except ExecError Execution :=
  if e.values.length ≠ e.shadow.length ∨ e.values.length ≤ i then
    .error (.operandStack "local index out of bounds")
  else .ok { e with values := e.values.set i o.cell, shadow := e.shadow.set i o.tag }

/-- The slot of local `i` of a frame whose locals begin at `base`. -/
def localIndex (base i : ℕ) : Except ExecError ℕ :=
  if u32Max < base + i then .error (.frameStack "local index overflow") else .ok (base + i)

end Execution

namespace Handler

variable {σ : Type}

/-- Runs a handler in a frame whose locals begin at `base`. -/
def run (base : ℕ) : Handler σ → Execution → σ → Execution × σ × Except ExecError StepOutcome
  | .done r, e, s => (e, s, r)
  | .get k, e, s => run base (k s) e s
  | .set s k, e, _ => run base k e s
  | .look k, e, s => run base (k e.values e.shadow) e s
  | .pop n accept k, e, s =>
    match e.popN n accept with
    | .error err => (e, s, .error err)
    | .ok (os, e') => run base (k os) e' s
  | .push o k, e, s => run base k (e.push o) s
  | .getLocal i k, e, s =>
    match (Execution.localIndex base i).bind e.cellAt with
    | .error err => (e, s, .error err)
    | .ok o => run base (k o) e s
  | .setLocal i o k, e, s =>
    match (Execution.localIndex base i).bind fun j => e.setCell j o with
    | .error err => (e, s, .error err)
    | .ok e' => run base k e' s
  | .branch t k, e, s =>
    match e.takeBranch t with
    | .error err => (e, s, .error err)
    | .ok e' => run base k e' s

/-- What the accesses of a handler keep of the stacks, its run keeps. -/
theorem run_keeps {base : ℕ} {P : Execution → Prop}
    (hpush : ∀ {e} (o : Operand), P e → P (e.push o))
    (hpop : ∀ {e e' n os} {accept : List Operand → Option ExecError}, P e →
      e.popN n accept = .ok (os, e') → P e')
    (hset : ∀ {e e' i j o}, P e → Execution.localIndex base i = .ok j → e.setCell j o = .ok e' →
      P e')
    (hbranch : ∀ {e e' t}, P e → e.takeBranch t = .ok e' → P e') (H : Handler σ) {e : Execution}
    (he : P e) (s : σ) : P (H.run base e s).1 := by
  induction H generalizing e s with
  | done r => exact he
  | get k ih => exact ih s he s
  | set s' k ih => exact ih he s'
  | look k ih => exact ih e.values e.shadow he s
  | push o k ih => exact ih (hpush o he) s
  | pop n accept k ih =>
    unfold run
    split
    · exact he
    · rename_i os e' hok
      exact ih os (hpop he hok) s
  | getLocal i k ih =>
    unfold run
    split
    · exact he
    · exact ih _ he s
  | setLocal i o k ih =>
    unfold run
    split
    · exact he
    · rename_i e' hok
      rcases hj : Execution.localIndex base i with err | j
      · rw [hj] at hok
        nomatch hok
      · rw [hj] at hok
        exact ih (hset he hj hok) s
  | branch t k ih =>
    unfold run
    split
    · exact he
    · rename_i e' hok
      exact ih (hbranch he hok) s

/-- A change of the frames that no access of a handler looks at is carried through its run. -/
theorem run_comm {φ : Execution → Execution} (hvalues : ∀ e, (φ e).values = e.values)
    (hshadow : ∀ e, (φ e).shadow = e.shadow) (hpush : ∀ e o, (φ e).push o = φ (e.push o))
    (hpop : ∀ e n accept, (φ e).popN n accept = (e.popN n accept).map fun p => (p.1, φ p.2))
    (hset : ∀ e j o, (φ e).setCell j o = (e.setCell j o).map φ)
    (hbranch : ∀ e t, (φ e).takeBranch t = (e.takeBranch t).map φ) (base : ℕ) (H : Handler σ)
    (e : Execution) (s : σ) :
    H.run base (φ e) s = (φ (H.run base e s).1, (H.run base e s).2) := by
  induction H generalizing e s with
  | done r => rfl
  | get k ih => exact ih s e s
  | set s' k ih => exact ih e s'
  | look k ih =>
    unfold run
    rw [hvalues, hshadow]
    exact ih e.values e.shadow e s
  | push o k ih =>
    unfold run
    rw [hpush]
    exact ih (e.push o) s
  | pop n accept k ih =>
    unfold run
    rw [hpop]
    cases e.popN n accept with
    | error err => rfl
    | ok p => exact ih p.1 p.2 s
  | getLocal i k ih =>
    have hcell : (φ e).cellAt = e.cellAt := by
      funext j
      rw [Execution.cellAt, hvalues, hshadow, Execution.cellAt]
    unfold run
    rw [hcell]
    cases (Execution.localIndex base i).bind e.cellAt with
    | error err => rfl
    | ok o => exact ih o e s
  | setLocal i o k ih =>
    have hcell : ((Execution.localIndex base i).bind fun j => (φ e).setCell j o) =
        ((Execution.localIndex base i).bind fun j => e.setCell j o).map φ := by
      cases Execution.localIndex base i with
      | error err => rfl
      | ok j => exact hset e j o
    unfold run
    rw [hcell]
    cases (Execution.localIndex base i).bind fun j => e.setCell j o with
    | error err => rfl
    | ok e' => exact ih e' s
  | branch t k ih =>
    unfold run
    rw [hbranch]
    cases e.takeBranch t with
    | error err => rfl
    | ok e' => exact ih e' s

/-- Jumps to a resolved branch edge. -/
def jump (t : BranchTarget) : Handler σ := .branch t (.done (.ok (.advance t.ip)))

def anyOperand : List Operand → Option ExecError := fun _ => none

/-- Numeric operands carry no reference tag. -/
def scalars (os : List Operand) : Option ExecError :=
  if os.any fun o => o.tag ≠ .none then
    some (.operandStack "numeric operation found a reference tag")
  else none

def taggedRef (os : List Operand) : Option ExecError :=
  if os.any fun o => o.tag.refkind.isNone then
    some (.operandStack "reference operation found a scalar tag")
  else none

def refOf (kind : RefKind) (os : List Operand) : Option ExecError :=
  if os.any fun o => o.tag ≠ RefTag.ofRefkind kind then
    some (.operandStack "reference tag does not match operand type")
  else none

def selectTags : List Operand → Option ExecError
  | [a, b, c] =>
    if a.tag ≠ b.tag ∨ c.tag ≠ .none then some (.operandStack "select operand tag mismatch")
    else none
  | _ => none

/-- Pops one operand. -/
def pop1 (accept : List Operand → Option ExecError) (k : Operand → Handler σ) : Handler σ :=
  .pop 1 accept fun os => k (os.headD ⟨0, .none⟩)

/-- Pops an index or a length, widened to 64 bits. -/
def popIndex (is64 : Bool) (k : ℕ → Handler σ) : Handler σ :=
  pop1 scalars fun o => k (if is64 then o.cell.toNat else o.cell.unwrapI32.toNat)

end Handler

/-! ## The interpreter's surroundings -/

/-- A resolved callee. -/
inductive ResolvedCall where
  | wasm (inst funcIndex : ℕ) (code : CompiledFunc)
  | host (func : ℕ)
  | hostAsync (func : ℕ)
  deriving DecidableEq, Repr

structure HostSig where
  params : List ValType
  results : List ValType
  deriving DecidableEq

/-- The parts of engine, modules and store the loop consults, over a state `σ` of the rest of the
store. -/
structure Interp (σ : Type) where
  maxWasmStack : ℕ
  frameSize : ℕ
  consumeFuel : Bool
  epochInterruption : Bool
  gcWatch : Bool
  /-- The straight-line handlers, by op, instance and the ip after the op. -/
  plain : PlainOp MemArg → ℕ → ℕ → Handler σ
  /-- `throw` of a tag in an instance, at an ip. -/
  throwTag : ℕ → ℕ → ℕ → Handler σ
  /-- The callee in an instance, from the table index or function reference popped for it. -/
  callee : CallTarget → ℕ → Operand → σ → Except ExecError ResolvedCall
  matchesHeaptype : IrHeap → Bool → ℕ → Operand → σ → Except ExecError Bool
  hostSig : σ → ℕ → HostSig
  memory : σ → ℕ → ℕ → ℕ
  memoryIs64 : σ → ℕ → Bool
  table : σ → ℕ → ℕ → ℕ
  tableElem : σ → ℕ → RefKind
  tableEntityIs64 : σ → ℕ → Bool
  /-- The tag a tag index of an instance names. -/
  tag : σ → ℕ → ℕ → Option ℕ
  /-- The tag and the arguments of a live exception. -/
  exn : σ → ℕ → Except ExecError (ℕ × List Val)
  valuesMatch : σ → List Val → List ValType → Except ExecError Unit
  /-- Checks and decodes results; the roots under which they are handed out. -/
  decodeResults : σ → List ValType → List Cell → Except ExecError (List (ℕ × RefKind))
  footprintOverFloor : σ → Bool
  /-- The collection a taken request runs, from the operand roots and the host roots. -/
  collect : σ → List (ℕ × RefKind) → List (ℕ × RefKind) → Except ExecError σ

/-- The reference operand a table grows with. -/
def Operand.toRef (kind : RefKind) (o : Operand) : Ref :=
  let r := if o.cell.isNull then none else some o.cell.handle
  match kind with
  | .func => .func r
  | .extern_ => .extern_ r
  | .any => .any r
  | .exn => .exn r

/-- A fused comparison. -/
def cmpI32 (kind : CmpKind) (a b : BitVec 32) : Bool :=
  match kind with
  | .eq => a == b
  | .ne => a != b
  | .ltS => a.slt b
  | .ltU => a.ult b
  | .gtS => b.slt a
  | .gtU => b.ult a
  | .leS => a.sle b
  | .leU => a.ule b
  | .geS => b.sle a
  | .geU => b.ule a

namespace Interp

open Handler

variable {σ : Type} (I : Interp σ)

/-- Builds the step outcome of a resolved callee; `returnIp` is `none` for a tail call. -/
def callOutcome (s : σ) (inst : ℕ) (returnIp : Option ℕ) : ResolvedCall → StepOutcome
  | .wasm defInst funcIndex code =>
    match returnIp with
    | some ip => .doCall ⟨ip, defInst, funcIndex, code⟩
    | none => .doTailCall ⟨0, defInst, funcIndex, code⟩
  | .host func =>
    match returnIp with
    | some ip => .doHostCall func inst ip
    | none => .doTailHostCall func inst (I.hostSig s func).params.length
  | .hostAsync func =>
    match returnIp with
    | some ip => .doHostAsyncCall func inst ip
    | none => .doTailHostAsyncCall func inst (I.hostSig s func).params.length

/-- A call site: `call_indirect` pops a table index, `call_ref` a function reference. -/
def call (c : CallTarget) (inst : ℕ) (returnIp : Option ℕ) : Handler σ :=
  let resolve (o : Operand) : Handler σ :=
    .get fun s => .done ((I.callee c inst o s).map (I.callOutcome s inst returnIp))
  match c with
  | .func _ => resolve ⟨0, .none⟩
  | .indirect _ _ => .pop1 scalars resolve
  | .ref _ => .pop1 (refOf .func) resolve

/-- One instruction, in an instance; `next` is the ip after it. -/
def step (code : CompiledFunc) (op : Op) (next inst : ℕ) : Handler σ :=
  let advance : Handler σ := .done (.ok (.advance next))
  match op with
  | .plain .nop => advance
  | .plain .drop => .pop1 anyOperand fun _ => advance
  | .plain .select => .pop 3 selectTags fun os =>
    match os with
    | [a, b, c] => .push (if c.cell.unwrapI32 ≠ 0 then a else b) advance
    | _ => advance
  | .plain (.localGet i) => .getLocal i fun o => .push o advance
  | .plain (.localSet i) => .pop1 anyOperand fun o => .setLocal i o advance
  | .plain (.localTee i) => .pop1 anyOperand fun o => .push o (.setLocal i o advance)
  | .plain (.i32Const bits) => .push ⟨bits.setWidth 64, .none⟩ advance
  | .plain (.i64Const bits) => .push ⟨bits, .none⟩ advance
  | .plain (.f32Const bits) => .push ⟨bits.setWidth 64, .none⟩ advance
  | .plain (.f64Const bits) => .push ⟨bits, .none⟩ advance
  | .plain (.memoryGrow i) => .get fun s =>
    let memory := I.memory s inst i
    .popIndex (I.memoryIs64 s memory) fun delta => .done (.ok (.doGrow memory delta next))
  | .plain (.tableGrow i) => .get fun s =>
    let table := I.table s inst i
    let kind := I.tableElem s table
    .popIndex (I.tableEntityIs64 s table) fun delta =>
      .pop1 (refOf kind) fun init => .done (.ok (.doTableGrow table delta (init.toRef kind) next))
  | .plain p => I.plain p inst next
  | .unreachable => .done (.error .unreachable)
  | .br t => .jump t
  | .brIf t => .pop1 scalars fun c => if c.cell.unwrapI32 ≠ 0 then .jump t else advance
  | .brIfNot t => .pop1 scalars fun c => if c.cell.unwrapI32 = 0 then .jump t else advance
  | .brIfCmp kind negate t => .pop 2 scalars fun os =>
    match os with
    | [a, b] =>
      if cmpI32 kind a.cell.unwrapI32 b.cell.unwrapI32 != negate then .jump t else advance
    | _ => advance
  | .brTable base len =>
    if code.brTables.length < base + len then
      .done (.error (.compiler "branch table range is invalid"))
    else
      match code.brTables[base + len]? with
      | none => .done (.error (.compiler "branch table default is missing"))
      | some default => .pop1 scalars fun i =>
        let k := i.cell.unwrapI32.toNat
        .jump (if k < len then code.brTables.getD (base + k) default else default)
  | .call c => I.call c inst (some next)
  | .returnCall c => I.call c inst none
  | .brOnNull t => .pop1 taggedRef fun r => if r.cell.isNull then .jump t else .push r advance
  | .brOnNonNull t => .pop1 taggedRef fun r => if r.cell.isNull then advance else .push r (.jump t)
  | .brOnCast ty pool nullable fail =>
    match code.brTables[pool]? with
    -- The source indexes the pool, whose edges the compile pass has put there.
    | none => .done (.error (.compiler "branch table range is invalid"))
    | some t => .pop1 (refOf (refkindOfIrheap ty)) fun r => .get fun s =>
      match I.matchesHeaptype ty nullable inst r s with
      | .error err => .done (.error err)
      | .ok matched => .push r (if matched != fail then .jump t else advance)
  | .throw tag => I.throwTag tag inst (next - 1)
  | .throwRef => .pop1 (refOf .exn) fun r =>
    .done (.error (if r.cell.isNull then .nullReference else .pending r.cell.handle))

end Interp

end SubmilliWasm
