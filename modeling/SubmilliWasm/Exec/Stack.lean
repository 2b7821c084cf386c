/-
# The execution stacks

The transient state of the interpreter: operand cells with their root shadow, and call frames
(`src/exec/mod.rs`, `src/exec/frame.rs`, `src/exec/stack.rs`).  Outer and inner activations share
the stacks; a delimiter frame marks where one ends and the next begins.

Cells and tags are kept bottom first, as the source indexes them.  Frames are kept top first, so
that the frame at depth `d` is the one with `d` frames behind it.  The default build is modelled,
with cells of 8 bytes.
-/
import SubmilliWasm.Compile.Structured
import SubmilliWasm.Store.Managed

namespace SubmilliWasm

/-! ## Errors -/

/-- What ends a run.  `pending` is an exception in flight and `thrown` the marker the embedder
sees for one; `trap` is a trap of an op other than those the loop raises itself. -/
inductive ExecError where
  | stackOverflow
  | outOfFuel
  | interrupt
  | unreachable
  | nullReference
  | trap (code : ℕ)
  | pending (exn : ℕ)
  | thrown
  | operandStack (detail : String)
  | frameStack (detail : String)
  | resultShape (detail : String)
  | gcMetadata (detail : String)
  | compiler (detail : String)
  | msg (text : String)
  deriving DecidableEq, Repr

/-- An invariant of the interpreter itself is broken. -/
def ExecError.isInternal : ExecError → Bool
  | .operandStack _ | .frameStack _ | .resultShape _ | .gcMetadata _ | .compiler _ => true
  | _ => false

/-! ## Operands -/

abbrev Cell := BitVec 64

/-- The reference hierarchy of a slot, `none` for a scalar. -/
inductive RefTag where
  | none
  | func
  | extern_
  | any
  | exn
  deriving DecidableEq, Repr

def RefTag.ofRefkind : RefKind → RefTag
  | .func => .func
  | .extern_ => .extern_
  | .any => .any
  | .exn => .exn

def RefTag.refkind : RefTag → Option RefKind
  | .func => some .func
  | .extern_ => some .extern_
  | .any => some .any
  | .exn => some .exn
  | .none => Option.none

def RefTag.ofVal : Val → RefTag
  | .funcRef _ => .func
  | .externRef _ => .extern_
  | .anyRef _ => .any
  | .exnRef _ => .exn
  | _ => .none

/-- A cell with its tag. -/
structure Operand where
  cell : Cell
  tag : RefTag
  deriving DecidableEq, Repr

/-- Little-endian in the low bytes, zero above.  A `v128` does not occur in the default build. -/
def encode : Val → Cell
  | .i32 v => v.setWidth 64
  | .i64 v => v
  | .f32 bits => bits.setWidth 64
  | .f64 bits => bits
  | .v128 v => v.setWidth 64
  | .funcRef r | .externRef r | .anyRef r | .exnRef r => BitVec.ofNat 64 (r.getD nullRef)

def Operand.ofVal (v : Val) : Operand := ⟨encode v, RefTag.ofVal v⟩

namespace Cell

def unwrapI32 (c : Cell) : BitVec 32 := c.setWidth 32

def handle (c : Cell) : ℕ := (c.setWidth 32).toNat

def isNull (c : Cell) : Bool := handle c == nullRef

end Cell

/-- The default value of a local (`push_default`). -/
def Operand.default : IrVal → Operand
  | .ref _ heap => ⟨BitVec.ofNat 64 nullRef, RefTag.ofRefkind (refkindOfIrheap heap)⟩
  | _ => ⟨0, .none⟩

def expectedTag : ValType → RefTag
  | .ref _ heap => RefTag.ofRefkind (pubRefKind heap)
  | _ => .none

/-! ## Frames -/

def u32Max : ℕ := 2 ^ 32 - 1

/-- What a delimiter marks: the embedder's entry at the bottom, or a re-entry from a host
function. -/
inductive Delimiter where
  | topLevel
  | hostReentry
  deriving DecidableEq, Repr

/-- One activation: `localsBase` is where its parameters and locals begin and `operandBase` where
its operands do. -/
structure Frame where
  code : CompiledFunc
  ip : ℕ
  localsBase : ℕ
  operandBase : ℕ
  inst : ℕ
  funcIndex : ℕ
  delimiter : Option Delimiter
  deriving DecidableEq, Repr

structure Execution where
  values : List Cell
  shadow : List RefTag
  frames : List Frame
  hostReentryDepth : ℕ
  deriving DecidableEq, Repr

/-- What the loop keeps in registers of the frame it runs. -/
structure Regs where
  code : CompiledFunc
  ip : ℕ
  base : ℕ
  inst : ℕ
  deriving DecidableEq, Repr

/-- The frame at `depth`, counted from the bottom. -/
def frameAt (frames : List Frame) (depth : ℕ) : Option Frame :=
  if depth < frames.length then frames[frames.length - 1 - depth]? else none

/-- Drops the frames at `depth` and above. -/
def framesTo (frames : List Frame) (depth : ℕ) : List Frame := frames.drop (frames.length - depth)

namespace Execution

def empty : Execution := ⟨[], [], [], 0⟩

def isEmpty (e : Execution) : Bool := e.frames.isEmpty && e.values.isEmpty && e.shadow.isEmpty

def pushAll (e : Execution) (os : List Operand) : Execution :=
  { e with
    values := e.values ++ os.map Operand.cell
    shadow := e.shadow ++ os.map Operand.tag }

def push (e : Execution) (o : Operand) : Execution := e.pushAll [o]

/-- Cuts both operand stacks to their lowest `n` slots. -/
def truncate (e : Execution) (n : ℕ) : Execution :=
  { e with values := e.values.take n, shadow := e.shadow.take n }

/-- Cuts the stacks back to a boundary. -/
def cutTo (e : Execution) (valueBase stopDepth : ℕ) : Execution :=
  { e.truncate valueBase with frames := framesTo e.frames stopDepth }

/-- Moves the top `keep` operands down to `dst`. -/
def slide (e : Execution) (keep dst : ℕ) : Execution :=
  { e with
    values := e.values.take dst ++ e.values.drop (e.values.length - keep)
    shadow := e.shadow.take dst ++ e.shadow.drop (e.values.length - keep) }

/-- Saves the resume point of the running frame. -/
def saveIp (e : Execution) (ip : ℕ) : Option Execution :=
  match e.frames with
  | [] => none
  | f :: fs => some { e with frames := { f with ip := ip } :: fs }

/-! ## Calls, branches and returns -/

def pushCall (e : Execution) (inst funcIndex : ℕ) (code : CompiledFunc) :
    Except ExecError Execution :=
  let valueLen := e.values.length
  let callerFloor := (e.frames.head?.map Frame.operandBase).getD 0
  let localTypes := code.localTypes
  if valueLen ≠ e.shadow.length then .error (.operandStack "value/shadow length mismatch")
  else if u32Max < valueLen then .error (.frameStack "operand stack length exceeds u32")
  else if valueLen < callerFloor + code.nParams then
    .error (.operandStack "call parameter underflow")
  else if u32Max < localTypes.length then .error (.frameStack "local count exceeds u32")
  else if u32Max < valueLen + localTypes.length then
    .error (.frameStack "frame operand base exceeds u32")
  else .ok { e.pushAll (localTypes.map Operand.default) with
    frames := ⟨code, 0, valueLen - code.nParams, valueLen + localTypes.length, inst, funcIndex,
      none⟩ :: e.frames }

def pushDelimiter (e : Execution) (kind : Delimiter) (inst : ℕ) (code : CompiledFunc) :
    Except ExecError Execution :=
  let localsBase := e.values.length
  if localsBase ≠ e.shadow.length then .error (.operandStack "value/shadow length mismatch")
  else if u32Max < localsBase then .error (.frameStack "operand stack length exceeds u32")
  else .ok { e with
    frames := ⟨code, 0, localsBase, localsBase, inst, 0, some kind⟩ :: e.frames }

/-- Moves the top `keep` operands down over `pop` discarded ones. -/
def takeBranch (e : Execution) (t : BranchTarget) : Except ExecError Execution :=
  if e.values.length ≠ e.shadow.length then
    .error (.operandStack "value/shadow length mismatch")
  else
    match e.frames with
    | [] => .error (.frameStack "missing branch frame")
    | f :: _ =>
      if e.values.length < f.operandBase + (t.keep + t.pop) then
        .error (.operandStack "branch stack fixup underflow")
      else .ok (e.slide t.keep (e.values.length - t.keep - t.pop))

def top (e : Execution) : Except ExecError Regs :=
  match e.frames with
  | [] => .error (.frameStack "missing current frame")
  | f :: _ =>
    if f.delimiter.isSome then .error (.frameStack "delimiter used as executable frame")
    else .ok ⟨f.code, f.ip, f.localsBase, f.inst⟩

/-- Pops the running frame and moves its top `n` operands to where its locals began; also whether
the frames have fallen back to `stopDepth`. -/
def doReturn (e : Execution) (n stopDepth : ℕ) (tail : Bool) :
    Except ExecError (Execution × Bool) :=
  match e.frames with
  | [] => .error (.frameStack "invalid return boundary")
  | f :: fs =>
    if e.frames.length ≤ stopDepth ∨ e.values.length ≠ e.shadow.length then
      .error (.frameStack "invalid return boundary")
    else if f.delimiter.isSome then .error (.frameStack "cannot return from a delimiter")
    else if e.values.length < f.operandBase then
      .error (.operandStack "return stack below frame floor")
    else if f.operandBase < f.localsBase ∨ e.values.length < f.localsBase + n ∨
        e.values.length - f.operandBase < n ∨
        (tail = false ∧ e.values.length - f.operandBase ≠ n) then
      .error (.resultShape "wrong number of frame results")
    else .ok ({ e.slide n f.localsBase with frames := fs }, fs.length = stopDepth)

/-! ## The boundary of a call -/

/-- Drops the re-entry reserve of the call whose delimiter is at `stopDepth`. -/
def releaseReentry (e : Execution) (stopDepth : ℕ) : Except ExecError Execution :=
  match (frameAt e.frames stopDepth).bind Frame.delimiter with
  | some .hostReentry =>
    if e.hostReentryDepth = 0 then .error (.frameStack "host re-entry depth underflow")
    else .ok { e with hostReentryDepth := e.hostReentryDepth - 1 }
  | some .topLevel => .ok e
  | none => .error (.frameStack "missing call boundary delimiter")

/-- Enters a call: its delimiter, its arguments and its entry frame.  What a failure leaves behind
is taken back. -/
def enterCall (e : Execution) (delim : Delimiter) (inst funcIndex : ℕ) (code : CompiledFunc)
    (args : List Val) : Execution × Except ExecError Unit :=
  let valueBase := e.values.length
  let frameBase := e.frames.length
  let bumped := e.hostReentryDepth + if delim = .hostReentry then 1 else 0
  if usizeMax < bumped then (e, .error (.frameStack "host re-entry depth overflow"))
  else
    let e1 := { e with hostReentryDepth := bumped }
    match e1.pushDelimiter delim inst code with
    | .error err => ({ e1 with hostReentryDepth := e.hostReentryDepth }, .error err)
    | .ok e2 =>
      let e3 := e2.pushAll (args.map Operand.ofVal)
      match e3.pushCall inst funcIndex code with
      | .error err =>
        ({ e3.cutTo valueBase frameBase with hostReentryDepth := e.hostReentryDepth },
          .error err)
      | .ok e4 => (e4, .ok ())

/-- The exact number and the tags of the results, checked before anything is popped. -/
def validateResultTags (e : Execution) (base : ℕ) (tys : List ValType) : Except ExecError Unit :=
  if e.values.length ≠ e.shadow.length ∨ e.values.length < base then
    .error (.operandStack "invalid result stack boundary")
  else if (e.shadow.drop base).length ≠ tys.length then
    .error (.resultShape "wrong number of execution results")
  else if e.shadow.drop base ≠ tys.map expectedTag then
    .error (.resultShape "execution result tag mismatch")
  else .ok ()

/-- Both ways out of a call check the boundary they cut to. -/
def badBoundary (e : Execution) (valueBase stopDepth : ℕ) : Bool :=
  e.values.length ≠ e.shadow.length || e.values.length < valueBase || e.frames.length < stopDepth

/-- Splits off the results of a finished call and restores the outer state. -/
def takeResults (e : Execution) (valueBase stopDepth : ℕ) (resultTys : List ValType) :
    Except ExecError (List Cell × Execution) :=
  if e.badBoundary valueBase stopDepth then
    .error (.frameStack "invalid completed call boundary")
  else
    match e.validateResultTags valueBase resultTys with
    | .error err => .error err
    | .ok () =>
      match e.releaseReentry stopDepth with
      | .error err => .error err
      | .ok e' => .ok (e'.values.drop valueBase, e'.cutTo valueBase stopDepth)

/-- Discards a failed call and restores the outer state. -/
def discardTo (e : Execution) (valueBase stopDepth : ℕ) : Except ExecError Execution :=
  if e.badBoundary valueBase stopDepth then .error (.frameStack "invalid failed call boundary")
  else
    match e.releaseReentry stopDepth with
    | .error err => .error err
    | .ok e' => .ok (e'.cutTo valueBase stopDepth)

/-- The innermost delimiter: its depth and where its call's operands begin. -/
def innermostBoundary : List Frame → Option (ℕ × ℕ)
  | [] => none
  | f :: fs =>
    if f.delimiter.isSome then some (fs.length, f.localsBase) else innermostBoundary fs

/-- Discards the innermost call after a contained panic. -/
def discardCurrentCall (e : Execution) : Except ExecError ((ℕ × ℕ) × Execution) :=
  match innermostBoundary e.frames with
  | none => .error (.frameStack "missing call boundary during panic cleanup")
  | some (stopDepth, valueBase) =>
    (e.discardTo valueBase stopDepth).map fun e' => ((valueBase, stopDepth), e')

/-! ## The stack budget -/

/-- `size_of::<Cell>()`. -/
def cellSize : ℕ := 8

/-- The native stack charged for each re-entry from the host. -/
def hostReentryReserve : ℕ := 4096

/-- The footprint held against `max_wasm_stack`; `frameSize` is `size_of::<Frame>()`. -/
def stackBytes (e : Execution) (frameSize : ℕ) : Except ExecError ℕ :=
  match checkedMul e.values.length cellSize with
  | none => .error (.frameStack "operand stack byte size overflow")
  | some values =>
    match checkedMul e.frames.length frameSize with
    | none => .error (.frameStack "frame stack byte size overflow")
    | some frames =>
      match checkedMul e.hostReentryDepth hostReentryReserve with
      | none => .error (.frameStack "host re-entry byte size overflow")
      | some reentry =>
        match ((checkedAdd values e.shadow.length).bind (checkedAdd · frames)).bind
            (checkedAdd · reentry) with
        | none => .error (.frameStack "execution stack byte size overflow")
        | some total => .ok total

/-- The live operand and local roots. -/
def operandRoots (e : Execution) : List (ℕ × RefKind) :=
  (e.values.zip e.shadow).filterMap fun p =>
    p.2.refkind.bind fun kind => if p.1.isNull then none else some (p.1.handle, kind)

end Execution

end SubmilliWasm
