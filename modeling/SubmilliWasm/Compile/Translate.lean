/-
# The translator

The single pass from decoded operators to the internal op stream
(`src/module/compile/mod.rs`, `src/module/compile/control/`).  The pass tracks the operand
height, a stack of control frames and whether the current point is reachable.  Structural
operators always run, so that the frame stack stays balanced; every other operator is
skipped while unreachable.  A forward branch is emitted with target `0` and listed in its
frame, and the frame's `end` writes the real target.

Height-accounting failures are latched in `error` and reported after the last operator;
every other failure stops the pass.  The control stack is kept innermost frame first, so
that a frame's index is its branch depth.
-/
import SubmilliWasm.Compile.Ops

namespace SubmilliWasm

/-! ## Context and errors -/

/-- The per-module tables the translator reads. -/
structure CompileCtx where
  types : List ModuleType
  funcTypes : List ℕ
  tagTypes : List ℕ
  maxExpandedLocals : ℕ

/-- The parameters and results of a function type.  The source panics on any other type;
validation guarantees that the index names a function type. -/
def CompileCtx.sig (ctx : CompileCtx) (typeIdx : ℕ) : List IrVal × List IrVal :=
  match ctx.types[typeIdx]? with
  | some ⟨_, _, _, .func params results⟩ => (params, results)
  | _ => ([], [])

def CompileCtx.funcSig (ctx : CompileCtx) (f : ℕ) : List IrVal × List IrVal :=
  ctx.sig (ctx.funcTypes.getD f 0)

def CompileCtx.tagParams (ctx : CompileCtx) (tag : ℕ) : List IrVal :=
  (ctx.sig (ctx.tagTypes.getD tag 0)).1

/-- What a failing compilation reports: a plain message, a broken invariant of the compiler, or
a panic of an `expect`. -/
inductive CompileError where
  | msg (text : String)
  | compiler (text : String)
  | panic (text : String)
  deriving DecidableEq, Repr

/-- The two limits the compiler documents: the `u16` branch fixup and the cap on locals. -/
inductive CompileError.Limit : CompileError → Prop where
  | fixup : Limit (.msg "branch stack fixup exceeds 65535 operands")
  | locals (cap : ℕ) :
      Limit (.msg s!"module declares more than {cap} locals in total (configured limit)")

/-! ## Control frames -/

structure HandlerClause where
  tag : Option ℕ
  label : ℕ
  payloadArgs : Bool
  payloadRef : Bool
  deriving DecidableEq, Repr

def convCatch : Catch → HandlerClause
  | .one tag label => ⟨some tag, label, true, false⟩
  | .oneRef tag label => ⟨some tag, label, true, true⟩
  | .all label => ⟨none, label, false, false⟩
  | .allRef label => ⟨none, label, false, true⟩

inductive PatchSlot where
  | single
  | tableCase (k : ℕ)
  | tableDefault
  deriving DecidableEq, Repr

/-- A branch op whose target is still to be written. -/
structure Patch where
  op : ℕ
  slot : PatchSlot
  deriving DecidableEq, Repr

structure CtrlFrame where
  kind : BlockKind
  baseHeight : ℕ
  paramCount : ℕ
  resultCount : ℕ
  startIp : ℕ
  endPatches : List Patch
  elsePatch : Option ℕ
  reachableOnEntry : Bool
  endTargeted : Bool
  clauses : List HandlerClause
  deriving DecidableEq, Repr

def CtrlFrame.labelArity (f : CtrlFrame) : ℕ :=
  if f.kind = .loop then f.paramCount else f.resultCount

/-- Note a forward branch to the end of the frame. -/
def CtrlFrame.addPatch (f : CtrlFrame) (p : Patch) : CtrlFrame :=
  { f with endPatches := f.endPatches ++ [p], endTargeted := true }

structure Translator where
  ops : List Op
  brTables : List BranchTarget
  bigMemargs : List BigMemArg
  handlers : List HandlerSpan
  height : ℕ
  maxOperands : ℕ
  ctrl : List CtrlFrame
  reachable : Bool
  fusableCmp : Option CmpKind
  error : Option CompileError

namespace Translator

/-- The implicit block around a function body. -/
def funcFrame (nResults : ℕ) : CtrlFrame :=
  ⟨.block, 0, 0, nResults, 0, [], none, true, false, []⟩

/-- A translator at the start of a body (`Translator::new` and `push_func_frame`). -/
def new (nResults : ℕ) : Translator :=
  ⟨[], [], [], [], 0, 0, [funcFrame nResults], true, none, none⟩

def nextIp (t : Translator) : ℕ := t.ops.length

/-! ## Heights -/

/-- Latch the first height-accounting failure. -/
def latch (t : Translator) (text : String) : Translator :=
  { t with error := t.error.orElse fun _ => some (.compiler text) }

def push (t : Translator) (n : ℕ) : Translator :=
  if t.height + n < 2 ^ 32 then
    { t with height := t.height + n, maxOperands := max t.maxOperands (t.height + n) }
  else t.latch "operand height overflow"

/-- Only an operator with a result pushes: one that only pops leaves the peak alone. -/
def pushed (t : Translator) (n : ℕ) : Translator := if n = 0 then t else t.push n

def pop (t : Translator) (n : ℕ) : Translator :=
  if n ≤ t.height then { t with height := t.height - n } else t.latch "operand height underflow"

/-- The height below `n` operands; a failure is latched and answered with the height itself. -/
def heightBelow (t : Translator) (n : ℕ) : ℕ × Translator :=
  if n ≤ t.height then (t.height - n, t)
  else (t.height, t.latch "control operand height underflow")

/-! ## Emission -/

def fusableCmpOf : Op → Option CmpKind
  | .plain (.relop k) => some k
  | _ => none

def emit (t : Translator) (op : Op) : Translator :=
  { t with fusableCmp := fusableCmpOf op, ops := t.ops ++ [op] }

def pushEdge (t : Translator) (e : BranchTarget) : Translator :=
  { t with brTables := t.brTables ++ [e] }

/-- The compact form of a memory immediate, and the pool it may have been moved to. -/
def memarg (pool : List BigMemArg) (m : BigMemArg) : MemArg × List BigMemArg :=
  if m.offset < bigMemarg then (⟨m.memory, m.offset⟩, pool)
  else (⟨pool.length, bigMemarg⟩, pool ++ [m])

/-- The straight-line op of an operator. -/
def lowerPlain (pool : List BigMemArg) (p : PlainOp BigMemArg) : PlainOp MemArg × List BigMemArg :=
  match p.mem? with
  | none => (p.mapMem fun m => ⟨m.memory, m.offset⟩, pool)
  | some m => (p.mapMem fun _ => (memarg pool m).1, (memarg pool m).2)

/-! ## Straight-line operators -/

/-- The shapes of the lowering helpers, as operands popped and pushed. -/
def binopEffect : ℕ × ℕ := (2, 1)
def unopEffect : ℕ × ℕ := (1, 1)
def storeEffect : ℕ × ℕ := (2, 0)
def constopEffect : ℕ × ℕ := (0, 1)

def structFieldCount (ctx : CompileCtx) (ty : ℕ) : Except CompileError ℕ :=
  match ctx.types[ty]? with
  | some ⟨_, _, _, .struct fields⟩ => .ok fields.length
  | _ => .error (.msg "struct.new on non-struct type")

/-- The operands the translator pops and pushes for an operator.  `local.tee` is emitted
height-neutral. -/
def effect {M : Type} (ctx : CompileCtx) : PlainOp M → Except CompileError (ℕ × ℕ)
  | .nop => .ok (0, 0)
  | .drop => .ok (1, 0)
  | .select => .ok (3, 1)
  | .localGet _ => .ok constopEffect
  | .localSet _ => .ok (1, 0)
  | .localTee _ => .ok (0, 0)
  | .globalGet _ => .ok constopEffect
  | .globalSet _ => .ok (1, 0)
  | .i32Const _ => .ok constopEffect
  | .i64Const _ => .ok constopEffect
  | .f32Const _ => .ok constopEffect
  | .f64Const _ => .ok constopEffect
  | .relop _ => .ok binopEffect
  | .unop _ => .ok unopEffect
  | .binop _ => .ok binopEffect
  | .load _ _ => .ok unopEffect
  | .store _ _ => .ok storeEffect
  | .memorySize _ => .ok constopEffect
  | .memoryGrow _ => .ok unopEffect
  | .memoryInit _ _ => .ok (3, 0)
  | .dataDrop _ => .ok (0, 0)
  | .memoryCopy _ _ => .ok (3, 0)
  | .memoryFill _ => .ok (3, 0)
  | .tableInit _ _ => .ok (3, 0)
  | .tableCopy _ _ => .ok (3, 0)
  | .elemDrop _ => .ok (0, 0)
  | .tableGet _ => .ok unopEffect
  | .tableSet _ => .ok (2, 0)
  | .tableSize _ => .ok constopEffect
  | .tableGrow _ => .ok (2, 1)
  | .tableFill _ => .ok (3, 0)
  | .refNull _ => .ok constopEffect
  | .refFunc _ => .ok constopEffect
  | .refIsNull => .ok unopEffect
  | .refAsNonNull => .ok unopEffect
  | .structNew ty => do
      let n ← structFieldCount ctx ty
      pure (n, 1)
  | .structNewDefault _ => .ok constopEffect
  | .structGet _ _ _ => .ok unopEffect
  | .structSet _ _ => .ok storeEffect
  | .arrayNew _ => .ok (2, 1)
  | .arrayNewDefault _ => .ok unopEffect
  | .arrayNewFixed _ n => .ok (n, 1)
  | .arrayNewData _ _ => .ok (2, 1)
  | .arrayNewElem _ _ => .ok (2, 1)
  | .arrayGet _ _ => .ok (2, 1)
  | .arraySet _ => .ok (3, 0)
  | .arrayLen => .ok unopEffect
  | .arrayFill _ => .ok (4, 0)
  | .arrayCopy _ _ => .ok (5, 0)
  | .arrayInitData _ _ => .ok (4, 0)
  | .arrayInitElem _ _ => .ok (4, 0)
  | .refI31 => .ok unopEffect
  | .i31GetS => .ok unopEffect
  | .i31GetU => .ok unopEffect
  | .refTest _ _ => .ok unopEffect
  | .refCast _ _ => .ok unopEffect
  | .refEq => .ok binopEffect
  | .anyConvertExtern => .ok unopEffect
  | .externConvertAny => .ok unopEffect

def visitPlain (ctx : CompileCtx) (p : PlainOp BigMemArg) (t : Translator) :
    Except CompileError Translator := do
  let (pops, pushes) ← effect ctx p
  let (p', pool) := lowerPlain t.bigMemargs p
  pure ((({ t with bigMemargs := pool }.pop pops).pushed pushes).emit (.plain p'))

/-! ## Branch targets and patches -/

/-- Pack a branch's fixup into its two `u16`s. -/
def fixup (keep pop : ℕ) : Except CompileError (ℕ × ℕ) :=
  if keep < 2 ^ 16 ∧ pop < 2 ^ 16 then .ok (keep, pop)
  else .error (.msg "branch stack fixup exceeds 65535 operands")

/-- The edge of a branch, and the frame to patch later unless the target is a loop's start. -/
def branchTarget (t : Translator) (depth : ℕ) : Except CompileError (BranchTarget × Option ℕ) :=
  match t.ctrl[depth]? with
  | none => .error (.compiler "branch control depth out of range")
  | some frame =>
    if frame.baseHeight + frame.labelArity < 2 ^ 32 then
      if frame.baseHeight + frame.labelArity ≤ t.height then do
        let (keep, pop) ← fixup frame.labelArity (t.height - (frame.baseHeight + frame.labelArity))
        pure (if frame.kind = .loop then (⟨frame.startIp, keep, pop⟩, none)
          else (⟨0, keep, pop⟩, some depth))
      else .error (.compiler "branch operand height underflow")
    else .error (.compiler "branch target height overflow")

def registerBranch (t : Translator) (frame : Option ℕ) (op : ℕ) (slot : PatchSlot) : Translator :=
  match frame with
  | none => t
  | some i => { t with ctrl := t.ctrl.modify i (·.addPatch ⟨op, slot⟩) }

/-- Write the ip of an inline edge. -/
def setIp (ip : ℕ) : Op → Op
  | .br t => .br { t with ip }
  | .brIf t => .brIf { t with ip }
  | .brIfNot t => .brIfNot { t with ip }
  | .brIfCmp k n t => .brIfCmp k n { t with ip }
  | .brOnNull t => .brOnNull { t with ip }
  | .brOnNonNull t => .brOnNonNull { t with ip }
  | op => op

/-- The pool index a patch of an out-of-line edge writes; `none` for an inline edge. -/
def flatIndex (slot : PatchSlot) : Op → Option ℕ
  | .brTable base len =>
    match slot with
    | .tableCase k => some (base + k)
    | .tableDefault => some (base + len)
    | .single => none
  | .brOnCast _ pool _ _ => some pool
  | _ => none

/-- Resolve one forward branch. -/
def patchIp (t : Translator) (op : ℕ) (slot : PatchSlot) (ip : ℕ) : Translator :=
  match t.ops[op]? with
  | none => t
  | some o =>
    match flatIndex slot o with
    | some flat => { t with brTables := t.brTables.modify flat fun e => { e with ip } }
    | none => { t with ops := t.ops.modify op (setIp ip) }

/-- Resolve the branch over an `if`'s `then` part, if it is still open. -/
def patchElse (t : Translator) (elsePatch : Option ℕ) (ip : ℕ) : Translator :=
  match elsePatch with
  | some idx => t.patchIp idx .single ip
  | none => t

def patchAll (t : Translator) (patches : List Patch) (ip : ℕ) : Translator :=
  patches.foldl (fun t p => t.patchIp p.op p.slot ip) t

/-! ## Branches -/

def br (t : Translator) (depth : ℕ) : Except CompileError Translator := do
  let (target, frame) ← t.branchTarget depth
  pure { (t.emit (.br target)).registerBranch frame t.nextIp .single with reachable := false }

/-- A preceding i32 comparison is replaced in place by the fused branch. -/
def brIf (t : Translator) (depth : ℕ) : Except CompileError Translator := do
  let t := t.pop 1
  let (target, frame) ← t.branchTarget depth
  match t.fusableCmp with
  | some kind =>
    pure (({ t with fusableCmp := none,
                    ops := t.ops.set (t.nextIp - 1) (.brIfCmp kind false target) }).registerBranch
      frame (t.nextIp - 1) .single)
  | none => pure ((t.emit (.brIf target)).registerBranch frame t.nextIp .single)

/-- The edges of a `br_table`'s cases, pooled in order; the patches wait for the op's index. -/
def brTableCases : ℕ → List ℕ → Translator →
    Except CompileError (List (ℕ × PatchSlot) × Translator)
  | _, [], t => pure ([], t)
  | k, depth :: cases, t => do
      let (target, frame) ← t.branchTarget depth
      let (patches, t) ← brTableCases (k + 1) cases (t.pushEdge target)
      pure ((match frame with
        | some i => (i, .tableCase k) :: patches
        | none => patches), t)

def brTable (t : Translator) (cases : List ℕ) (default : ℕ) : Except CompileError Translator := do
  let t := t.pop 1
  let base := t.brTables.length
  let (patches, t) ← brTableCases 0 cases t
  let (target, frame) ← t.branchTarget default
  let t := t.pushEdge target
  let patches := patches ++ (match frame with
    | some i => [(i, .tableDefault)]
    | none => [])
  let idx := t.nextIp
  let t := patches.foldl (fun t p => t.registerBranch (some p.1) idx p.2)
    (t.emit (.brTable base cases.length))
  pure { t with reachable := false }

/-- `return` is a branch to the function's own frame, the outermost one. -/
def ret (t : Translator) : Except CompileError Translator :=
  match t.ctrl.getLast? with
  | none => .error (.panic "index out of bounds")
  | some frame =>
    if frame.resultCount ≤ t.height then do
      let (keep, pop) ← fixup frame.resultCount (t.height - frame.resultCount)
      let idx := t.nextIp
      let t := t.emit (.br ⟨0, keep, pop⟩)
      pure { t.registerBranch (some (t.ctrl.length - 1)) idx .single with reachable := false }
    else .error (.compiler "return operand height underflow")

def brOnNull (t : Translator) (depth : ℕ) : Except CompileError Translator := do
  let t := t.pop 1
  let (target, frame) ← t.branchTarget depth
  pure (((t.emit (.brOnNull target)).registerBranch frame t.nextIp .single).push 1)

def brOnNonNull (t : Translator) (depth : ℕ) : Except CompileError Translator := do
  let (target, frame) ← t.branchTarget depth
  pure (((t.emit (.brOnNonNull target)).registerBranch frame t.nextIp .single).pop 1)

/-- The edge of a cast is pooled like the cases of a `br_table`. -/
def brOnCast (t : Translator) (depth : ℕ) (ty : IrHeap) (nullable fail : Bool) :
    Except CompileError Translator := do
  let (target, frame) ← t.branchTarget depth
  let pool := t.brTables.length
  let t := t.pushEdge target
  pure ((t.emit (.brOnCast ty pool nullable fail)).registerBranch frame t.nextIp .single)

/-! ## Calls and throws -/

/-- The parameters and results of a call's callee, and the operands it pops: a table index or a
function reference besides the arguments. -/
def callSig (ctx : CompileCtx) : CallTarget → List IrVal × List IrVal
  | .func f => ctx.funcSig f
  | .indirect ty _ => ctx.sig ty
  | .ref ty => ctx.sig ty

def callPops (ctx : CompileCtx) : CallTarget → ℕ
  | .func f => (ctx.funcSig f).1.length
  | .indirect ty _ => 1 + (ctx.sig ty).1.length
  | .ref ty => 1 + (ctx.sig ty).1.length

/-- `call`, `call_indirect` and `call_ref`. -/
def call (ctx : CompileCtx) (t : Translator) (c : CallTarget) : Translator :=
  ((t.pop (callPops ctx c)).push (callSig ctx c).2.length).emit (.call c)

/-- `return_call`, `return_call_indirect` and `return_call_ref`. -/
def returnCall (ctx : CompileCtx) (t : Translator) (c : CallTarget) : Translator :=
  { (t.pop (callPops ctx c)).emit (.returnCall c) with reachable := false }

/-- An op that ends the block and pops nothing at compile time. -/
def terminate (t : Translator) (op : Op) : Translator :=
  { t.emit op with reachable := false }

/-! ## Structured control -/

def blockArity (ctx : CompileCtx) : BlockType → ℕ × ℕ
  | .empty => (0, 0)
  | .type _ => (0, 1)
  | .funcType i => ((ctx.sig i).1.length, (ctx.sig i).2.length)

/-- `push_block` and `push_try_table`. -/
def pushBlock (ctx : CompileCtx) (t : Translator) (bt : BlockType) (kind : BlockKind)
    (clauses : List HandlerClause) : Translator :=
  let (paramCount, resultCount) := blockArity ctx bt
  let (baseHeight, t) := { t with fusableCmp := none }.heightBelow paramCount
  { t with ctrl := ⟨kind, baseHeight, paramCount, resultCount, t.nextIp, [], none, t.reachable,
      false, clauses⟩ :: t.ctrl }

/-- The branch over the `then` part: a fused, negated comparison where one precedes. -/
def ifBranch (t : Translator) : Option ℕ × Translator :=
  if t.reachable then
    let t := t.pop 1
    match t.fusableCmp with
    | some kind =>
      (some (t.nextIp - 1),
        { t with ops := t.ops.set (t.nextIp - 1) (.brIfCmp kind true ⟨0, 0, 0⟩) })
    | none => (some t.nextIp, t.emit (.brIfNot ⟨0, 0, 0⟩))
  else (none, t)

def pushIf (ctx : CompileCtx) (t : Translator) (bt : BlockType) : Translator :=
  let (paramCount, resultCount) := blockArity ctx bt
  let (elsePatch, t) := t.ifBranch
  let (baseHeight, t) := { t with fusableCmp := none }.heightBelow paramCount
  { t with ctrl := ⟨.if_, baseHeight, paramCount, resultCount, t.nextIp, [], elsePatch,
      t.reachable, false, []⟩ :: t.ctrl }

/-- The branch from the end of the `then` part over the `else` part. -/
def elseBranch (t : Translator) (resultCount : ℕ) : Except CompileError Translator :=
  if t.reachable then do
    let (keep, _) ← fixup resultCount 0
    pure ((t.emit (.br ⟨0, keep, 0⟩)).registerBranch (some 0) t.nextIp .single)
  else pure t

def doElse (t : Translator) : Except CompileError Translator :=
  match t.ctrl with
  | [] => .error (.panic "else without if")
  | f :: _ => do
      let t ← { t with fusableCmp := none }.elseBranch f.resultCount
      let t := t.patchElse f.elsePatch t.nextIp
      pure { t with
        ctrl := t.ctrl.modify 0 fun f => { f with elsePatch := none }
        reachable := f.reachableOnEntry
        height := f.baseHeight + f.paramCount }

/-- The number of values a catch clause pushes. -/
def payloadCount (ctx : CompileCtx) (c : HandlerClause) : ℕ :=
  (if c.payloadArgs then (ctx.tagParams (c.tag.getD 0)).length else 0) + c.payloadRef.toNat

/-- The landing pads of a `try_table`, one branch to its label for each clause. -/
def landingPads (ctx : CompileCtx) (baseHeight : ℕ) :
    List HandlerClause → Translator → Except CompileError (List HandlerRec × Translator)
  | [], t => pure ([], t)
  | c :: clauses, t => do
      let t := { t with height := baseHeight + payloadCount ctx c }
      let (target, frame) ← t.branchTarget c.label
      let landingIp := t.nextIp
      let t := (t.emit (.br target)).registerBranch frame landingIp .single
      let (recs, t) ← landingPads ctx baseHeight clauses t
      pure (⟨c.tag, baseHeight, c.payloadArgs, c.payloadRef, landingIp⟩ :: recs, t)

/-- Close a reachable `try_table`: a branch over the landing pads, the pads, whose labels are
those of the outer context, and the exception-table span. -/
def endTryTable (ctx : CompileCtx) (frame : CtrlFrame) (t : Translator) :
    Except CompileError Translator := do
  let bodyEnd := t.nextIp
  let live := t.reachable
  let (keep, _) ← fixup frame.resultCount 0
  let t := t.emit (.br ⟨0, keep, 0⟩)
  let (recs, t) ← landingPads ctx frame.baseHeight frame.clauses t
  let cont := t.nextIp
  let t := (t.patchIp bodyEnd .single cont).patchAll frame.endPatches cont
  pure { t with
    handlers := t.handlers ++ [⟨frame.startIp, bodyEnd, recs⟩]
    reachable := live || frame.endTargeted
    height := frame.baseHeight + frame.resultCount }

/-- Close any other frame. -/
def endBlock (frame : CtrlFrame) (t : Translator) : Translator :=
  let endIp := t.nextIp
  let t := t.patchElse frame.elsePatch endIp
  let t := t.patchAll frame.endPatches endIp
  { t with
    reachable := if frame.kind = .loop then t.reachable
      else t.reachable || frame.endTargeted || frame.elsePatch.isSome
    height := frame.baseHeight + frame.resultCount }

def doEnd (ctx : CompileCtx) (t : Translator) : Except CompileError Translator :=
  match t.ctrl with
  | [] => .error (.panic "end without frame")
  | frame :: ctrl =>
    let t := { t with fusableCmp := none, ctrl := ctrl }
    if frame.kind = .tryTable ∧ frame.reachableOnEntry then endTryTable ctx frame t
    else .ok (endBlock frame t)

/-! ## The visitor -/

def visitJump (ctx : CompileCtx) (t : Translator) : Jump → Except CompileError Translator
  | .br l => t.br l
  | .brTable cases default => t.brTable cases default
  | .ret => t.ret
  | .unreachable => .ok (t.terminate .unreachable)
  | .throw tag => .ok (t.terminate (.throw tag))
  | .throwRef => .ok (t.terminate .throwRef)
  | .returnCall c => .ok (t.returnCall ctx c)

def visitCond (t : Translator) : CondBr → Except CompileError Translator
  | .brIf l => t.brIf l
  | .brOnNull l => t.brOnNull l
  | .brOnNonNull l => t.brOnNonNull l
  | .brOnCast l ty nullable fail => t.brOnCast l ty nullable fail

/-- Lower one operator.  Structural operators always run, the others only while reachable. -/
def visit (ctx : CompileCtx) (t : Translator) : Operator → Except CompileError Translator
  | .block bt => .ok (t.pushBlock ctx bt .block [])
  | .loop bt => .ok (t.pushBlock ctx bt .loop [])
  | .tryTable bt catches => .ok (t.pushBlock ctx bt .tryTable (catches.map convCatch))
  | .if_ bt => .ok (t.pushIf ctx bt)
  | .else_ => t.doElse
  | .end_ => t.doEnd ctx
  | .plain p => if t.reachable then visitPlain ctx p t else .ok t
  | .jump j => if t.reachable then t.visitJump ctx j else .ok t
  | .cond c => if t.reachable then t.visitCond c else .ok t
  | .call c => if t.reachable then .ok (t.call ctx c) else .ok t

def visitAll (ctx : CompileCtx) : List Operator → Translator → Except CompileError Translator
  | [], t => .ok t
  | op :: ops, t => do
      let t ← t.visit ctx op
      visitAll ctx ops t

end Translator

/-! ## Functions -/

/-- Expand the run-length declarations of a body's locals behind the `used` locals of the
functions before it. -/
def expandLocals (ctx : CompileCtx) : ℕ → List (ℕ × IrVal) → Except CompileError (List IrVal)
  | _, [] => .ok []
  | used, (count, ty) :: groups =>
    let cap := min ctx.maxExpandedLocals (2 ^ 32 - 1)
    if used + count ≤ cap then do
      let rest ← expandLocals ctx (used + count) groups
      pure (List.replicate count ty ++ rest)
    else .error (.msg s!"module declares more than {cap} locals in total (configured limit)")

/-- Translate one validated body. -/
def translateFunction (ctx : CompileCtx) (usedLocals typeIdx : ℕ) (locals : List (ℕ × IrVal))
    (body : List Operator) : Except CompileError CompiledFunc := do
  let (params, results) := ctx.sig typeIdx
  let localTypes ← expandLocals ctx usedLocals locals
  let t ← Translator.visitAll ctx body (Translator.new results.length)
  match t.error with
  | some e => .error e
  | none =>
    pure {
      ops := t.ops
      typeIdx := typeIdx
      nParams := params.length
      nResults := results.length
      localTypes := localTypes
      maxOperands := t.maxOperands
      handlers := t.handlers
      brTables := t.brTables
      bigMemargs := t.bigMemargs }

end SubmilliWasm
