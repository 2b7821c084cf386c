/-
# The pass over the arenas of a module

The functions of a module share their streams: each appends to the arenas the ones before it have
filled, and addresses them relative to where it began (`src/module/code.rs`, `translate_function`
and `compile_bodies`).  A length is cast to `u32` wherever it is kept, and a cast truncates.

The fields of `ArenaTranslator` are those of the source, with the streams of `Translator` standing
for the arenas.  Beside them it records the places it has patched, which nothing reads.

Behind arenas that leave room below `2 ^ 32`, the pass does what the pass of one function does
(`placed_visit`): it leaves what was there alone, and every index it computes is relative.
-/
import SubmilliWasm.Compile.Liveness

namespace SubmilliWasm

open Fallible

/-! ## Arenas -/

/-- A length as the `u32` it is cast to. -/
def asU32 (n : ℕ) : ℕ := n % 2 ^ 32

/-- A range into one of the arenas. -/
structure Span where
  start : ℕ
  len : ℕ
  deriving DecidableEq, Repr

/-- The part of an arena a span names. -/
def Span.slice {α : Type} (s : Span) (arena : List α) : List α := (arena.drop s.start).take s.len

/-- The streams of every function of a module, back to back. -/
structure CodeArenas where
  ops : List Op
  localTypes : List IrVal
  handlers : List HandlerSpan
  brTables : List BranchTarget
  bigMemargs : List BigMemArg
  offsets : List ℕ
  deriving DecidableEq, Repr

/-- No function translated yet. -/
def CodeArenas.empty : CodeArenas := ⟨[], [], [], [], [], []⟩

/-- The record of a function: the source's `CompiledFunc`, with spans for its streams. -/
structure FuncRecord where
  ops : Span
  typeIdx : ℕ
  nParams : ℕ
  nResults : ℕ
  localTypes : Span
  maxOperands : ℕ
  handlers : Span
  brTables : Span
  bigMemargs : Span
  offsets : Span
  deriving DecidableEq, Repr

/-- The arena lengths where a function begins. -/
structure Bases where
  ops : ℕ
  brTables : ℕ
  bigMemargs : ℕ
  handlers : ℕ
  offsets : ℕ
  deriving DecidableEq, Repr

/-- Where the next function begins. -/
def CodeArenas.bases (code : CodeArenas) : Bases :=
  ⟨asU32 code.ops.length, asU32 code.brTables.length, asU32 code.bigMemargs.length,
    asU32 code.handlers.length, asU32 code.offsets.length⟩

/-! ## The translator of the source -/

/-- The source's translator.  The streams of `own` are the arenas; `patched` is no field of the
source's. -/
@[ext]
structure ArenaTranslator where
  own : Translator
  offsets : List ℕ
  base : Bases
  retainOffsets : Bool
  curOffset : ℕ
  patched : List Translator.Place

namespace ArenaTranslator

open Translator

/-- `Translator::new` and `push_func_frame`. -/
def new (code : CodeArenas) (retainOffsets : Bool) (nResults : ℕ) : ArenaTranslator where
  own := { Translator.new nResults with
    ops := code.ops
    brTables := code.brTables
    bigMemargs := code.bigMemargs
    handlers := code.handlers }
  offsets := code.offsets
  base := code.bases
  retainOffsets := retainOffsets
  curOffset := 0
  patched := []

/-- A change of the translator's fields that leaves the arenas to `f`. -/
def map (f : Translator → Translator) (a : ArenaTranslator) : ArenaTranslator :=
  { a with own := f a.own }

/-- The ip of the next op, relative to the function. -/
def nextIp (a : ArenaTranslator) : ℕ := asU32 a.own.ops.length - a.base.ops

/-- The op at a relative ip. -/
def opRef (a : ArenaTranslator) (idx : ℕ) : Option Op := a.own.ops[a.base.ops + idx]?

/-- Replace the op at a relative ip. -/
def setOp (a : ArenaTranslator) (idx : ℕ) (op : Op) : ArenaTranslator :=
  a.map fun t => { t with ops := t.ops.set (a.base.ops + idx) op }

/-- Change the op at a relative ip. -/
def modifyOp (a : ArenaTranslator) (idx : ℕ) (f : Op → Op) : ArenaTranslator :=
  a.map fun t => { t with ops := t.ops.modify (a.base.ops + idx) f }

/-- Change an edge of the shared pool. -/
def modifyEdge (a : ArenaTranslator) (rel : ℕ) (f : BranchTarget → BranchTarget) :
    ArenaTranslator :=
  a.map fun t => { t with brTables := t.brTables.modify (a.base.brTables + rel) f }

/-- Append an edge to the shared pool, and return its index in the function. -/
def pushEdge (a : ArenaTranslator) (e : BranchTarget) : ℕ × ArenaTranslator :=
  (asU32 a.own.brTables.length - a.base.brTables, a.map (·.pushEdge e))

/-- An offset too large for the op goes to the arena of large ones. -/
def memarg (a : ArenaTranslator) (m : BigMemArg) : MemArg × ArenaTranslator :=
  if m.offset < bigMemarg then (⟨m.memory, m.offset⟩, a)
  else (⟨asU32 a.own.bigMemargs.length - a.base.bigMemargs, bigMemarg⟩,
    a.map fun t => { t with bigMemargs := t.bigMemargs ++ [m] })

/-- Append an op, and the offset of the operator in translation where offsets are retained. -/
def emit (a : ArenaTranslator) (op : Op) : ArenaTranslator :=
  { a.map (·.emit op) with
    offsets := if a.retainOffsets then a.offsets ++ [a.curOffset] else a.offsets }

/-- A straight-line op with its memory argument encoded. -/
def lowerPlain (a : ArenaTranslator) (p : PlainOp BigMemArg) : PlainOp MemArg × ArenaTranslator :=
  match p.mem? with
  | none => (p.mapMem fun m => ⟨m.memory, m.offset⟩, a)
  | some m => (p.mapMem fun _ => (a.memarg m).1, (a.memarg m).2)

/-- Translate a straight-line operator by its effect on the height. -/
def visitPlain (ctx : CompileCtx) (p : PlainOp BigMemArg) (a : ArenaTranslator) :
    Except CompileError ArenaTranslator := do
  let (pops, pushes) ← effect ctx p
  let (p', a) := a.lowerPlain p
  pure ((a.map fun t => (t.pop pops).pushed pushes).emit (.plain p'))

/-! ### Branches and patches -/

/-- Note the place of a branch whose target is not yet known. -/
def registerBranch (a : ArenaTranslator) (frame : Option ℕ) (op : ℕ) (slot : PatchSlot) :
    ArenaTranslator :=
  a.map (·.registerBranch frame op slot)

/-- Write a target where a branch left it open. -/
def patchIp (a : ArenaTranslator) (op : ℕ) (slot : PatchSlot) (ip : ℕ) : ArenaTranslator :=
  match a.opRef op with
  | none => a
  | some o =>
    let a' := match flatIndex slot o with
      | some flat => a.modifyEdge flat fun e => { e with ip }
      | none => a.modifyOp op (setIp ip)
    { a' with patched := a.patched ++ (o.edgeAt op slot).toList }

/-- Patch the branch over the first part of an `if`. -/
def patchElse (a : ArenaTranslator) (elsePatch : Option ℕ) (ip : ℕ) : ArenaTranslator :=
  match elsePatch with
  | some idx => a.patchIp idx .single ip
  | none => a

/-- Patch every branch to the end of a frame. -/
def patchAll (a : ArenaTranslator) (patches : List Patch) (ip : ℕ) : ArenaTranslator :=
  patches.foldl (fun a p => a.patchIp p.op p.slot ip) a

/-- Leave for a label; the code behind is dead. -/
def br (a : ArenaTranslator) (depth : ℕ) : Except CompileError ArenaTranslator := do
  let (target, frame) ← a.own.branchTarget depth
  pure (((a.emit (.br target)).registerBranch frame a.nextIp .single).map
    fun t => { t with reachable := false })

/-- The fused branch stands where the comparison did, and no offset is recorded for it. -/
def brIf (a : ArenaTranslator) (depth : ℕ) : Except CompileError ArenaTranslator := do
  let a := a.map (·.pop 1)
  let (target, frame) ← a.own.branchTarget depth
  match a.own.fusableCmp with
  | some kind =>
    pure (((a.setOp (a.nextIp - 1) (.brIfCmp kind false target)).map
      fun t => { t with fusableCmp := none }).registerBranch frame (a.nextIp - 1) .single)
  | none => pure ((a.emit (.brIf target)).registerBranch frame a.nextIp .single)

/-- The edges of the cases, with the places to patch in each frame. -/
def brTableCases : ℕ → List ℕ → ArenaTranslator →
    Except CompileError (List (ℕ × PatchSlot) × ArenaTranslator)
  | _, [], a => pure ([], a)
  | k, depth :: cases, a => do
      let (target, frame) ← a.own.branchTarget depth
      let (patches, a) ← brTableCases (k + 1) cases (a.pushEdge target).2
      pure ((match frame with
        | some i => (i, .tableCase k) :: patches
        | none => patches), a)

/-- The cases lie in the pool one after the other, the default behind them. -/
def brTable (a : ArenaTranslator) (cases : List ℕ) (default : ℕ) :
    Except CompileError ArenaTranslator := do
  let a := a.map (·.pop 1)
  let base := asU32 a.own.brTables.length - a.base.brTables
  let (patches, a) ← brTableCases 0 cases a
  let (target, frame) ← a.own.branchTarget default
  let a := (a.pushEdge target).2
  let patches := patches ++ (match frame with
    | some i => [(i, .tableDefault)]
    | none => [])
  let idx := a.nextIp
  let a := patches.foldl (fun a p => a.registerBranch (some p.1) idx p.2)
    (a.emit (.brTable base cases.length))
  pure (a.map fun t => { t with reachable := false })

/-- A return is a branch to the frame of the function. -/
def ret (a : ArenaTranslator) : Except CompileError ArenaTranslator :=
  match a.own.ctrl.getLast? with
  | none => .error (.panic "index out of bounds")
  | some frame =>
    if frame.resultCount ≤ a.own.height then do
      let (keep, pop) ← fixup frame.resultCount (a.own.height - frame.resultCount)
      let idx := a.nextIp
      let a := a.emit (.br ⟨0, keep, pop⟩)
      pure ((a.registerBranch (some (a.own.ctrl.length - 1)) idx .single).map
        fun t => { t with reachable := false })
    else .error (.compiler "return operand height underflow")

/-- A reference that is not null stays on the stack. -/
def brOnNull (a : ArenaTranslator) (depth : ℕ) : Except CompileError ArenaTranslator := do
  let a := a.map (·.pop 1)
  let (target, frame) ← a.own.branchTarget depth
  pure (((a.emit (.brOnNull target)).registerBranch frame a.nextIp .single).map (·.push 1))

/-- A reference that is not null is taken along. -/
def brOnNonNull (a : ArenaTranslator) (depth : ℕ) : Except CompileError ArenaTranslator := do
  let (target, frame) ← a.own.branchTarget depth
  pure (((a.emit (.brOnNonNull target)).registerBranch frame a.nextIp .single).map (·.pop 1))

/-- The edge lies in the pool: the op has no room for it. -/
def brOnCast (a : ArenaTranslator) (depth : ℕ) (ty : IrHeap) (nullable fail : Bool) :
    Except CompileError ArenaTranslator := do
  let (target, frame) ← a.own.branchTarget depth
  let (pool, a) := a.pushEdge target
  pure ((a.emit (.brOnCast ty pool nullable fail)).registerBranch frame a.nextIp .single)

/-! ### Calls and structured control -/

/-- A call pops its operands and pushes its results. -/
def call (ctx : CompileCtx) (a : ArenaTranslator) (c : CallTarget) : ArenaTranslator :=
  (a.map fun t => (t.pop (callPops ctx c)).push (callSig ctx c).2.length).emit (.call c)

/-- A tail call does not come back. -/
def returnCall (ctx : CompileCtx) (a : ArenaTranslator) (c : CallTarget) : ArenaTranslator :=
  ((a.map (·.pop (callPops ctx c))).emit (.returnCall c)).map fun t => { t with reachable := false }

/-- An op behind which the code is dead. -/
def terminate (a : ArenaTranslator) (op : Op) : ArenaTranslator :=
  (a.emit op).map fun t => { t with reachable := false }

/-- Open a frame at the next op, over the height below its parameters. -/
def openFrame (a : ArenaTranslator) (kind : BlockKind) (arity : ℕ × ℕ) (elsePatch : Option ℕ)
    (clauses : List HandlerClause) : ArenaTranslator :=
  let (baseHeight, own) := a.own.heightBelow arity.1
  { a with own := { own with
      ctrl := ⟨kind, baseHeight, arity.1, arity.2, a.nextIp, [], elsePatch, own.reachable, false,
        clauses⟩ :: own.ctrl } }

/-- Open a block, a loop or a `try_table`. -/
def pushBlock (ctx : CompileCtx) (a : ArenaTranslator) (bt : BlockType) (kind : BlockKind)
    (clauses : List HandlerClause) : ArenaTranslator :=
  (a.map fun t => { t with fusableCmp := none }).openFrame kind (blockArity ctx bt) none clauses

/-- The branch to the other part of an `if`, fused with a comparison before it. -/
def ifBranch (a : ArenaTranslator) : Option ℕ × ArenaTranslator :=
  if a.own.reachable then
    let a := a.map (·.pop 1)
    match a.own.fusableCmp with
    | some kind =>
      (some (a.nextIp - 1), a.setOp (a.nextIp - 1) (.brIfCmp kind true ⟨0, 0, 0⟩))
    | none => (some a.nextIp, a.emit (.brIfNot ⟨0, 0, 0⟩))
  else (none, a)

/-- Open an `if`, its branch to be patched later. -/
def pushIf (ctx : CompileCtx) (a : ArenaTranslator) (bt : BlockType) : ArenaTranslator :=
  let (elsePatch, a) := a.ifBranch
  (a.map fun t => { t with fusableCmp := none }).openFrame .if_ (blockArity ctx bt) elsePatch []

/-- The jump over the `else` part, where the code before it is live. -/
def elseBranch (a : ArenaTranslator) (resultCount : ℕ) : Except CompileError ArenaTranslator :=
  if a.own.reachable then do
    let (keep, _) ← fixup resultCount 0
    pure ((a.emit (.br ⟨0, keep, 0⟩)).registerBranch (some 0) a.nextIp .single)
  else pure a

/-- The `else` part starts on the operands the `if` started on. -/
def doElse (a : ArenaTranslator) : Except CompileError ArenaTranslator :=
  match a.own.ctrl with
  | [] => .error (.panic "else without if")
  | f :: _ => do
      let a ← (a.map fun t => { t with fusableCmp := none }).elseBranch f.resultCount
      let a := a.patchElse f.elsePatch a.nextIp
      pure (a.map fun t => { t with
        ctrl := t.ctrl.modify 0 fun f => { f with elsePatch := none }
        reachable := f.reachableOnEntry
        height := f.baseHeight + f.paramCount })

/-- The landing of each catch clause: a branch on its payload. -/
def landingPads (ctx : CompileCtx) (baseHeight : ℕ) :
    List HandlerClause → ArenaTranslator → Except CompileError (List HandlerRec × ArenaTranslator)
  | [], a => pure ([], a)
  | c :: clauses, a => do
      let a := a.map fun t => { t with height := baseHeight + payloadCount ctx c }
      let (target, frame) ← a.own.branchTarget c.label
      let landingIp := a.nextIp
      let a := (a.emit (.br target)).registerBranch frame landingIp .single
      let (recs, a) ← landingPads ctx baseHeight clauses a
      pure (⟨c.tag, baseHeight, c.payloadArgs, c.payloadRef, landingIp⟩ :: recs, a)

/-- Close a `try_table`: its landings, jumped over, and its span. -/
def endTryTable (ctx : CompileCtx) (frame : CtrlFrame) (a : ArenaTranslator) :
    Except CompileError ArenaTranslator := do
  let bodyEnd := a.nextIp
  let live := a.own.reachable
  let (keep, _) ← fixup frame.resultCount 0
  let a := a.emit (.br ⟨0, keep, 0⟩)
  let (recs, a) ← landingPads ctx frame.baseHeight frame.clauses a
  let cont := a.nextIp
  let a := (a.patchIp bodyEnd .single cont).patchAll frame.endPatches cont
  pure (a.map fun t => { t with
    handlers := t.handlers ++ [⟨frame.startIp, bodyEnd, recs⟩]
    reachable := live || frame.endTargeted
    height := frame.baseHeight + frame.resultCount })

/-- Close any other frame, its branches patched to here. -/
def endBlock (frame : CtrlFrame) (a : ArenaTranslator) : ArenaTranslator :=
  let endIp := a.nextIp
  let a := a.patchElse frame.elsePatch endIp
  let a := a.patchAll frame.endPatches endIp
  a.map fun t => { t with
    reachable := if frame.kind = .loop then t.reachable
      else t.reachable || frame.endTargeted || frame.elsePatch.isSome
    height := frame.baseHeight + frame.resultCount }

/-- An `end` closes the innermost frame. -/
def doEnd (ctx : CompileCtx) (a : ArenaTranslator) : Except CompileError ArenaTranslator :=
  match a.own.ctrl with
  | [] => .error (.panic "end without frame")
  | frame :: ctrl =>
    let a := a.map fun t => { t with fusableCmp := none, ctrl := ctrl }
    if frame.kind = .tryTable ∧ frame.reachableOnEntry then endTryTable ctx frame a
    else .ok (endBlock frame a)

/-! ### The visitor -/

/-- Translate an operator that does not go on to the next. -/
def visitJump (ctx : CompileCtx) (a : ArenaTranslator) : Jump → Except CompileError ArenaTranslator
  | .br l => a.br l
  | .brTable cases default => a.brTable cases default
  | .ret => a.ret
  | .unreachable => .ok (a.terminate .unreachable)
  | .throw tag => .ok (a.terminate (.throw tag))
  | .throwRef => .ok (a.terminate .throwRef)
  | .returnCall c => .ok (a.returnCall ctx c)

/-- Translate a conditional branch. -/
def visitCond (a : ArenaTranslator) : CondBr → Except CompileError ArenaTranslator
  | .brIf l => a.brIf l
  | .brOnNull l => a.brOnNull l
  | .brOnNonNull l => a.brOnNonNull l
  | .brOnCast l ty nullable fail => a.brOnCast l ty nullable fail

/-- Translate an operator; in dead code only those of structured control. -/
def visit (ctx : CompileCtx) (a : ArenaTranslator) :
    Operator → Except CompileError ArenaTranslator
  | .block bt => .ok (a.pushBlock ctx bt .block [])
  | .loop bt => .ok (a.pushBlock ctx bt .loop [])
  | .tryTable bt catches => .ok (a.pushBlock ctx bt .tryTable (catches.map convCatch))
  | .if_ bt => .ok (a.pushIf ctx bt)
  | .else_ => a.doElse
  | .end_ => a.doEnd ctx
  | .plain p => if a.own.reachable then visitPlain ctx p a else .ok a
  | .jump j => if a.own.reachable then a.visitJump ctx j else .ok a
  | .cond c => if a.own.reachable then a.visitCond c else .ok a
  | .call c => if a.own.reachable then .ok (a.call ctx c) else .ok a

/-- The operators of a body, each at the byte offset the reader found it at. -/
def visitAll (ctx : CompileCtx) :
    List (ℕ × Operator) → ArenaTranslator → Except CompileError ArenaTranslator
  | [], a => .ok a
  | (offset, op) :: body, a => do
      let a ← { a with curOffset := asU32 offset }.visit ctx op
      visitAll ctx body a

end ArenaTranslator

/-! ## Functions and modules -/

/-- A decoded body: the run-length declarations of its locals, and its operators with the byte
offset of each in the binary. -/
structure DecodedBody where
  locals : List (ℕ × IrVal)
  operators : List (ℕ × Operator)
  deriving DecidableEq, Repr

/-- `translate_function`: the record of the function, the arenas behind it, and the places the
pass has patched. -/
def translateInto (ctx : CompileCtx) (code : CodeArenas) (typeIdx : ℕ) (body : DecodedBody)
    (retainOffsets : Bool) :
    Except CompileError (FuncRecord × List Translator.Place × CodeArenas) := do
  let (params, results) := ctx.sig typeIdx
  let locals ← expandLocals ctx code.localTypes.length body.locals
  let localTypes := code.localTypes ++ locals
  let a ← (ArenaTranslator.new code retainOffsets results.length).visitAll ctx body.operators
  -- the reader accepts a body only when its last frame is closed
  if a.own.ctrl ≠ [] then .error (.msg "control frames remain at end of function body")
  else match a.own.error with
  | some e => .error e
  | none =>
    let span := fun (start stop : ℕ) => (⟨start, asU32 stop - start⟩ : Span)
    pure ({
      ops := span a.base.ops a.own.ops.length
      typeIdx := typeIdx
      nParams := params.length
      nResults := results.length
      localTypes := span (asU32 code.localTypes.length) localTypes.length
      maxOperands := a.own.maxOperands
      handlers := span a.base.handlers a.own.handlers.length
      brTables := span a.base.brTables a.own.brTables.length
      bigMemargs := span a.base.bigMemargs a.own.bigMemargs.length
      offsets := span a.base.offsets a.offsets.length },
      a.patched,
      { ops := a.own.ops
        localTypes := localTypes
        handlers := a.own.handlers
        brTables := a.own.brTables
        bigMemargs := a.own.bigMemargs
        offsets := a.offsets })

/-- The bodies of a module from function `i` on, one after the other. -/
def compileBodies (ctx : CompileCtx) (retainOffsets : Bool) :
    ℕ → List DecodedBody → CodeArenas →
      Except CompileError (List (FuncRecord × List Translator.Place) × CodeArenas)
  | _, [], code => .ok ([], code)
  | i, body :: bodies, code =>
    match ctx.funcTypes[i]? with
    | none => .error (.panic "index out of bounds")
    | some typeIdx => do
      let (f, patched, code) ← translateInto ctx code typeIdx body retainOffsets
      let (fs, code) ← compileBodies ctx retainOffsets (i + 1) bodies code
      pure ((f, patched) :: fs, code)

/-! ## A function behind the arenas -/

/-- The offsets recorded for `k` ops. -/
def stamped (retainOffsets : Bool) (curOffset k : ℕ) : List ℕ :=
  if retainOffsets then List.replicate k curOffset else []

theorem stamped_add (retainOffsets : Bool) (curOffset k m : ℕ) :
    stamped retainOffsets curOffset (k + m)
      = stamped retainOffsets curOffset k ++ stamped retainOffsets curOffset m := by
  cases retainOffsets
  · rfl
  · exact List.replicate_add ..

theorem stamped_zero (retainOffsets : Bool) (curOffset : ℕ) :
    stamped retainOffsets curOffset 0 = [] := by
  cases retainOffsets <;> rfl

/-- No op leaves the offsets as they are. -/
theorem append_stamped_zero (offs : List ℕ) (retainOffsets : Bool) (curOffset : ℕ) :
    offs ++ stamped retainOffsets curOffset 0 = offs := by
  rw [stamped_zero, List.append_nil]

namespace ArenaTranslator

open Translator

/-- The streams of a function behind the arenas `pre`. -/
def behind (pre : CodeArenas) (t : Translator) : Translator :=
  { t with
    ops := pre.ops ++ t.ops
    brTables := pre.brTables ++ t.brTables
    bigMemargs := pre.bigMemargs ++ t.bigMemargs
    handlers := pre.handlers ++ t.handlers }

/-- A translator of one function, with its offsets and its patched places, behind the arenas
`pre`. -/
def placed (pre : CodeArenas) (retainOffsets : Bool) (curOffset : ℕ) (t : Translator)
    (offsets : List ℕ) (past : List Place) : ArenaTranslator where
  own := behind pre t
  offsets := pre.offsets ++ offsets
  base := ⟨pre.ops.length, pre.brTables.length, pre.bigMemargs.length, pre.handlers.length,
    pre.offsets.length⟩
  retainOffsets := retainOffsets
  curOffset := curOffset
  patched := past

theorem asU32_of_lt {n : ℕ} (h : n < 2 ^ 32) : asU32 n = n := Nat.mod_eq_of_lt h

section Placed

variable {pre : CodeArenas} {retain : Bool} {cur : ℕ} {t : Translator} {offs : List ℕ}
  {past : List Place}

theorem placed_map {f : Translator → Translator} (hf : f (behind pre t) = behind pre (f t)) :
    (placed pre retain cur t offs past).map f = placed pre retain cur (f t) offs past :=
  ArenaTranslator.ext hf rfl rfl rfl rfl rfl

theorem behind_pop (n : ℕ) : (behind pre t).pop n = behind pre (t.pop n) := by
  unfold Translator.pop
  by_cases h : n ≤ t.height
  · rw [if_pos h]
    exact if_pos h
  · rw [if_neg h]
    exact if_neg h

theorem behind_push (n : ℕ) : (behind pre t).push n = behind pre (t.push n) := by
  unfold Translator.push
  by_cases h : t.height + n < 2 ^ 32
  · rw [if_pos h]
    exact if_pos h
  · rw [if_neg h]
    exact if_neg h

theorem behind_pushed (n : ℕ) : (behind pre t).pushed n = behind pre (t.pushed n) := by
  unfold Translator.pushed
  by_cases h : n = 0
  · rw [if_pos h, if_pos h]
  · rw [if_neg h, if_neg h, behind_push]

theorem behind_heightBelow (n : ℕ) :
    (behind pre t).heightBelow n = ((t.heightBelow n).1, behind pre (t.heightBelow n).2) := by
  unfold Translator.heightBelow
  by_cases h : n ≤ t.height
  · rw [if_pos h]
    exact if_pos h
  · rw [if_neg h]
    exact if_neg h

theorem placed_emit (op : Op) :
    (placed pre retain cur t offs past).emit op
      = placed pre retain cur (t.emit op) (offs ++ stamped retain cur 1) past := by
  have hown : (behind pre t).emit op = behind pre (t.emit op) := by
    show ({ behind pre t with fusableCmp := _, ops := (pre.ops ++ t.ops) ++ [op] } : Translator) = _
    rw [List.append_assoc]
    rfl
  have hoffsets : (if retain then (pre.offsets ++ offs) ++ [cur] else pre.offsets ++ offs)
      = pre.offsets ++ (offs ++ stamped retain cur 1) := by
    cases retain
    · exact (congrArg _ (List.append_nil offs)).symm
    · exact List.append_assoc ..
  exact ArenaTranslator.ext hown hoffsets rfl rfl rfl rfl

/-- Where the arenas leave room, an index counts from the function's start. -/
theorem placed_nextIp (h : pre.ops.length + t.ops.length < 2 ^ 32) :
    (placed pre retain cur t offs past).nextIp = t.nextIp := by
  show asU32 (pre.ops ++ t.ops).length - pre.ops.length = t.ops.length
  rw [List.length_append, asU32_of_lt h, Nat.add_sub_cancel_left]

theorem placed_opRef (i : ℕ) : (placed pre retain cur t offs past).opRef i = t.ops[i]? := by
  show (pre.ops ++ t.ops)[pre.ops.length + i]? = _
  rw [List.getElem?_append_right (Nat.le_add_right _ _), Nat.add_sub_cancel_left]

theorem placed_setOp (i : ℕ) (op : Op) :
    (placed pre retain cur t offs past).setOp i op
      = placed pre retain cur { t with ops := t.ops.set i op } offs past := by
  have hset : (pre.ops ++ t.ops).set (pre.ops.length + i) op = pre.ops ++ t.ops.set i op := by
    rw [List.set_append_right _ _ (Nat.le_add_right _ _), Nat.add_sub_cancel_left]
  exact ArenaTranslator.ext (congrArg (fun ops => { behind pre t with ops }) hset)
    rfl rfl rfl rfl rfl

theorem placed_modifyOp (i : ℕ) (f : Op → Op) :
    (placed pre retain cur t offs past).modifyOp i f
      = placed pre retain cur { t with ops := t.ops.modify i f } offs past :=
  ArenaTranslator.ext (congrArg (fun ops => { behind pre t with ops })
    (modify_append_add f pre.ops t.ops i)) rfl rfl rfl rfl rfl

theorem placed_modifyEdge (j : ℕ) (f : BranchTarget → BranchTarget) :
    (placed pre retain cur t offs past).modifyEdge j f
      = placed pre retain cur { t with brTables := t.brTables.modify j f } offs past :=
  ArenaTranslator.ext (congrArg (fun brTables => { behind pre t with brTables })
    (modify_append_add f pre.brTables t.brTables j)) rfl rfl rfl rfl rfl

theorem placed_pushEdge (h : pre.brTables.length + t.brTables.length < 2 ^ 32) (e : BranchTarget) :
    (placed pre retain cur t offs past).pushEdge e
      = (t.brTables.length, placed pre retain cur (t.pushEdge e) offs past) := by
  have hown : (behind pre t).pushEdge e = behind pre (t.pushEdge e) := by
    show ({ behind pre t with brTables := (pre.brTables ++ t.brTables) ++ [e] } : Translator) = _
    rw [List.append_assoc]
    rfl
  show (asU32 (pre.brTables ++ t.brTables).length - pre.brTables.length, _) = _
  rw [List.length_append, asU32_of_lt h, Nat.add_sub_cancel_left]
  exact congrArg _ (placed_map hown)

theorem placed_registerBranch (frame : Option ℕ) (op : ℕ) (slot : PatchSlot) :
    (placed pre retain cur t offs past).registerBranch frame op slot
      = placed pre retain cur (t.registerBranch frame op slot) offs past := by
  cases frame <;> rfl

theorem placed_patchIp (op : ℕ) (slot : PatchSlot) (ip : ℕ) :
    (placed pre retain cur t offs past).patchIp op slot ip
      = placed pre retain cur (t.patchIp op slot ip) offs
          (past ++ (written t.ops ⟨op, slot⟩).toList) := by
  unfold patchIp Translator.patchIp written
  rw [placed_opRef]
  rcases t.ops[op]? with _ | o
  · show _ = placed pre retain cur t offs (past ++ [])
    rw [List.append_nil]
  · dsimp only
    rcases flatIndex slot o with _ | flat
    · dsimp only
      rw [placed_modifyOp]
      rfl
    · dsimp only
      rw [placed_modifyEdge]
      rfl

theorem placed_patchAll (ps : List Patch) (ip : ℕ) :
    (placed pre retain cur t offs past).patchAll ps ip
      = placed pre retain cur (t.patchAll ps ip) offs (past ++ ps.filterMap (written t.ops)) := by
  induction ps generalizing t past with
  | nil =>
    rw [List.filterMap_nil, List.append_nil]
    rfl
  | cons p ps ih =>
    have hcons : (p :: ps).filterMap (written t.ops)
        = (written t.ops p).toList ++ ps.filterMap (written t.ops) := by
      rw [List.filterMap_cons]
      cases written t.ops p <;> rfl
    show ((placed pre retain cur t offs past).patchIp p.op p.slot ip).patchAll ps ip = _
    rw [placed_patchIp, ih, hcons, written_patchIp, List.append_assoc]
    rfl

theorem placed_patchElse (elsePatch : Option ℕ) (ip : ℕ) :
    (placed pre retain cur t offs past).patchElse elsePatch ip
      = placed pre retain cur (t.patchElse elsePatch ip) offs
          (past ++ (elsePatch.toList.map (⟨·, .single⟩)).filterMap (written t.ops)) := by
  rw [patchElse_eq, ← placed_patchAll]
  cases elsePatch <;> rfl

/-! ### The operators -/

/-- Room for one more entry in every arena the pass indexes. -/
structure Room (pre : CodeArenas) (t : Translator) : Prop where
  ops : pre.ops.length + t.ops.length < 2 ^ 32
  brTables : pre.brTables.length + t.brTables.length < 2 ^ 32
  bigMemargs : pre.bigMemargs.length + t.bigMemargs.length < 2 ^ 32

theorem Room.of_streams {u : Translator} (h : Room pre t) (hs : SameStreams t u) : Room pre u :=
  ⟨by rw [hs.ops]; exact h.ops, by rw [hs.brTables]; exact h.brTables,
    by rw [hs.bigMemargs]; exact h.bigMemargs⟩

theorem placed_memarg (h : Room pre t) (m : BigMemArg) :
    (placed pre retain cur t offs past).memarg m
      = ((Translator.memarg t.bigMemargs m).1, placed pre retain cur
          { t with bigMemargs := (Translator.memarg t.bigMemargs m).2 } offs past) := by
  unfold memarg Translator.memarg
  by_cases hm : m.offset < bigMemarg
  · rw [if_pos hm, if_pos hm]
  · rw [if_neg hm, if_neg hm]
    have hlen : asU32 (pre.bigMemargs ++ t.bigMemargs).length - pre.bigMemargs.length
        = t.bigMemargs.length := by
      rw [List.length_append, asU32_of_lt h.bigMemargs, Nat.add_sub_cancel_left]
    have hpool : (pre.bigMemargs ++ t.bigMemargs) ++ [m]
      = pre.bigMemargs ++ (t.bigMemargs ++ [m]) :=
      List.append_assoc ..
    refine Prod.ext (congrArg (MemArg.mk · bigMemarg) hlen) ?_
    exact ArenaTranslator.ext (congrArg (fun bigMemargs => { behind pre t with bigMemargs }) hpool)
      rfl rfl rfl rfl rfl

theorem placed_lowerPlain (h : Room pre t) (p : PlainOp BigMemArg) :
    (placed pre retain cur t offs past).lowerPlain p
      = ((Translator.lowerPlain t.bigMemargs p).1, placed pre retain cur
          { t with bigMemargs := (Translator.lowerPlain t.bigMemargs p).2 } offs past) := by
  unfold lowerPlain Translator.lowerPlain
  rcases p.mem? with _ | m
  · rfl
  · dsimp only
    rw [placed_memarg h]

theorem placed_visitPlain (h : Room pre t) (ctx : CompileCtx) (p : PlainOp BigMemArg) :
    visitPlain ctx p (placed pre retain cur t offs past)
      = (Translator.visitPlain ctx p t).map fun u =>
          placed pre retain cur u (offs ++ stamped retain cur 1) past := by
  unfold visitPlain Translator.visitPlain
  rw [placed_lowerPlain h]
  rcases effect ctx p with err | ⟨pops, pushes⟩
  · rfl
  · refine congrArg Except.ok ?_
    have hf : ((behind pre { t with bigMemargs := (Translator.lowerPlain t.bigMemargs p).2 }).pop
        pops).pushed pushes = behind pre (({ t with
          bigMemargs := (Translator.lowerPlain t.bigMemargs p).2 }.pop pops).pushed pushes) := by
      rw [behind_pop, behind_pushed]
    rw [placed_map (f := fun t => (t.pop pops).pushed pushes) hf, placed_emit]
    rfl

theorem placed_branchTarget (depth : ℕ) :
    (placed pre retain cur t offs past).own.branchTarget depth = t.branchTarget depth := rfl

theorem placed_br (h : Room pre t) (depth : ℕ) :
    (placed pre retain cur t offs past).br depth
      = (t.br depth).map fun u => placed pre retain cur u (offs ++ stamped retain cur 1) past := by
  unfold br Translator.br
  rw [placed_branchTarget]
  rcases t.branchTarget depth with err | ⟨target, frame⟩
  · rfl
  · show Except.ok _ = Except.ok _
    rw [placed_nextIp h.ops, placed_emit, placed_registerBranch]
    rfl

theorem placed_brIf (h : Room pre t) (depth : ℕ) :
    (placed pre retain cur t offs past).brIf depth
      = (t.brIf depth).map fun u => placed pre retain cur u
          (offs ++ stamped retain cur (if t.fusableCmp.isNone then 1 else 0)) past := by
  have hs := pop_streams t 1
  have hr := h.of_streams hs
  unfold brIf Translator.brIf
  rw [placed_map (behind_pop 1)]
  dsimp only
  rw [placed_branchTarget]
  rcases (t.pop 1).branchTarget depth with err | ⟨target, frame⟩
  · rfl
  · show (match (behind pre (t.pop 1)).fusableCmp with | some kind => _ | none => _) = _
    show (match (t.pop 1).fusableCmp with | some kind => _ | none => _)
      = Except.map _ (match (t.pop 1).fusableCmp with | some kind => _ | none => _)
    rw [hs.fusableCmp]
    rcases t.fusableCmp with _ | kind
    · show Except.ok _ = Except.ok _
      rw [placed_nextIp hr.ops, placed_emit, placed_registerBranch]
      rfl
    · show Except.ok _ = Except.ok _
      rw [placed_nextIp hr.ops, placed_setOp,
        placed_map (f := fun t => { t with fusableCmp := none }) rfl, placed_registerBranch]
      have hzero := append_stamped_zero offs retain cur
      exact congrArg (fun o => Except.ok (placed pre retain cur _ o past)) hzero.symm

theorem placed_brTableCases (k : ℕ) (cases : List ℕ)
    (h : pre.brTables.length + t.brTables.length + cases.length < 2 ^ 32) :
    brTableCases k cases (placed pre retain cur t offs past)
      = (Translator.brTableCases k cases t).map fun (patches, u) =>
          (patches, placed pre retain cur u offs past) := by
  induction cases generalizing k t with
  | nil => rfl
  | cons depth cases ih =>
    unfold brTableCases Translator.brTableCases
    rw [placed_branchTarget]
    rcases t.branchTarget depth with err | ⟨target, frame⟩
    · rfl
    · rw [List.length_cons] at h
      have hpush : (t.pushEdge target).brTables.length = t.brTables.length + 1 :=
        List.length_append
      have hrest := ih (t := t.pushEdge target) (k + 1) (by omega)
      show (brTableCases (k + 1) cases ((placed pre retain cur t offs past).pushEdge target).2
        >>= _) = Except.map _ (Translator.brTableCases (k + 1) cases (t.pushEdge target) >>= _)
      rw [placed_pushEdge (by omega), hrest]
      rcases Translator.brTableCases (k + 1) cases (t.pushEdge target) with err | ⟨patches, u⟩
      · rfl
      · rfl

theorem placed_registerAll (patches : List (ℕ × PatchSlot)) (idx : ℕ) :
    patches.foldl (fun a p => a.registerBranch (some p.1) idx p.2)
        (placed pre retain cur t offs past)
      = placed pre retain cur
          (patches.foldl (fun t p => t.registerBranch (some p.1) idx p.2) t) offs past := by
  induction patches generalizing t with
  | nil => rfl
  | cons p patches ih =>
    rw [List.foldl_cons, List.foldl_cons, placed_registerBranch]
    exact ih

theorem placed_brTable (h : Room pre t) (cases : List ℕ) (default : ℕ)
    (hcases : pre.brTables.length + t.brTables.length + cases.length < 2 ^ 32) :
    (placed pre retain cur t offs past).brTable cases default
      = (t.brTable cases default).map fun u =>
          placed pre retain cur u (offs ++ stamped retain cur 1) past := by
  have hs := pop_streams t 1
  have hr := h.of_streams hs
  rw [← hs.brTables] at hcases
  have hbase : asU32 (pre.brTables ++ (t.pop 1).brTables).length - pre.brTables.length
      = (t.pop 1).brTables.length := by
    rw [List.length_append, asU32_of_lt hr.brTables, Nat.add_sub_cancel_left]
  unfold brTable Translator.brTable
  rw [placed_map (behind_pop 1)]
  show (brTableCases 0 cases (placed pre retain cur (t.pop 1) offs past) >>= _)
    = Except.map _ (Translator.brTableCases 0 cases (t.pop 1) >>= _)
  rw [placed_brTableCases 0 cases hcases]
  rcases hc : Translator.brTableCases 0 cases (t.pop 1) with err | ⟨patches, v⟩
  · rfl
  · obtain ⟨fs, hfs, hv, -⟩ := brTableCases_ok hc
    have hpool : v.brTables.length = (t.pop 1).brTables.length + cases.length := by
      rw [hv]
      show ((t.pop 1).brTables ++ fs.map _).length = _
      rw [List.length_append, List.length_map, hfs.length_eq]
    have hops : v.ops = (t.pop 1).ops := by rw [hv]
    show (v.branchTarget default >>= _) = Except.map _ (v.branchTarget default >>= _)
    rcases v.branchTarget default with err | ⟨target, frame⟩
    · rfl
    · refine congrArg Except.ok ?_
      dsimp only
      have hnext : pre.ops.length + (v.pushEdge target).ops.length < 2 ^ 32 := by
        show pre.ops.length + v.ops.length < 2 ^ 32
        rw [hops]
        exact hr.ops
      rw [placed_pushEdge (by omega)]
      dsimp only
      rw [placed_nextIp hnext, placed_emit, placed_registerAll]
      show ArenaTranslator.map _ (placed pre retain cur (List.foldl _ ((v.pushEdge target).emit
        (.brTable (asU32 (pre.brTables ++ (t.pop 1).brTables).length - pre.brTables.length)
          cases.length)) _) _ _) = _
      rw [hbase]
      rfl

theorem placed_ret (h : Room pre t) :
    (placed pre retain cur t offs past).ret
      = t.ret.map fun u => placed pre retain cur u (offs ++ stamped retain cur 1) past := by
  unfold ret Translator.ret
  show (match t.ctrl.getLast? with | none => _ | some frame => _) = _
  rcases t.ctrl.getLast? with _ | frame
  · rfl
  · show (if frame.resultCount ≤ t.height then _ else _) = Except.map _ (if _ then _ else _)
    by_cases hle : frame.resultCount ≤ t.height
    · rw [if_pos hle, if_pos hle]
      show (fixup frame.resultCount (t.height - frame.resultCount) >>= _) = _
      rcases fixup frame.resultCount (t.height - frame.resultCount) with err | ⟨keep, pop⟩
      · rfl
      · refine congrArg Except.ok ?_
        dsimp only
        rw [placed_nextIp h.ops, placed_emit, placed_registerBranch]
        rfl
    · rw [if_neg hle, if_neg hle]
      rfl

theorem placed_brOnNull (h : Room pre t) (depth : ℕ) :
    (placed pre retain cur t offs past).brOnNull depth
      = (t.brOnNull depth).map fun u =>
          placed pre retain cur u (offs ++ stamped retain cur 1) past := by
  have hr := h.of_streams (pop_streams t 1)
  unfold brOnNull Translator.brOnNull
  rw [placed_map (behind_pop 1)]
  dsimp only
  rw [placed_branchTarget]
  rcases (t.pop 1).branchTarget depth with err | ⟨target, frame⟩
  · rfl
  · refine congrArg Except.ok ?_
    dsimp only
    rw [placed_nextIp hr.ops, placed_emit, placed_registerBranch, placed_map (behind_push 1)]

theorem placed_brOnNonNull (h : Room pre t) (depth : ℕ) :
    (placed pre retain cur t offs past).brOnNonNull depth
      = (t.brOnNonNull depth).map fun u =>
          placed pre retain cur u (offs ++ stamped retain cur 1) past := by
  unfold brOnNonNull Translator.brOnNonNull
  rw [placed_branchTarget]
  rcases t.branchTarget depth with err | ⟨target, frame⟩
  · rfl
  · refine congrArg Except.ok ?_
    dsimp only
    rw [placed_nextIp h.ops, placed_emit, placed_registerBranch, placed_map (behind_pop 1)]

theorem placed_brOnCast (h : Room pre t) (depth : ℕ) (ty : IrHeap) (nullable fail : Bool) :
    (placed pre retain cur t offs past).brOnCast depth ty nullable fail
      = (t.brOnCast depth ty nullable fail).map fun u =>
          placed pre retain cur u (offs ++ stamped retain cur 1) past := by
  unfold brOnCast Translator.brOnCast
  rw [placed_branchTarget]
  rcases t.branchTarget depth with err | ⟨target, frame⟩
  · rfl
  · obtain ⟨hidx, hown⟩ : asU32 (placed pre retain cur t offs past).own.brTables.length
          - (placed pre retain cur t offs past).base.brTables = t.brTables.length ∧
        (placed pre retain cur t offs past).map (·.pushEdge target)
          = placed pre retain cur (t.pushEdge target) offs past :=
      Prod.mk.inj (placed_pushEdge h.brTables target)
    refine congrArg Except.ok ?_
    dsimp only
    rw [hidx, hown]
    have hnext : pre.ops.length + (t.pushEdge target).ops.length < 2 ^ 32 := h.ops
    rw [placed_nextIp hnext, placed_emit, placed_registerBranch]

/-! ### Structured control -/

theorem placed_call (ctx : CompileCtx) (c : CallTarget) :
    (placed pre retain cur t offs past).call ctx c
      = placed pre retain cur (t.call ctx c) (offs ++ stamped retain cur 1) past := by
  have hf : ((behind pre t).pop (callPops ctx c)).push (callSig ctx c).2.length
      = behind pre ((t.pop (callPops ctx c)).push (callSig ctx c).2.length) := by
    rw [behind_pop, behind_push]
  unfold call Translator.call
  rw [placed_map (f := fun t => (t.pop (callPops ctx c)).push (callSig ctx c).2.length) hf,
    placed_emit]

theorem placed_returnCall (ctx : CompileCtx) (c : CallTarget) :
    (placed pre retain cur t offs past).returnCall ctx c
      = placed pre retain cur (t.returnCall ctx c) (offs ++ stamped retain cur 1) past := by
  unfold returnCall Translator.returnCall
  rw [placed_map (behind_pop (callPops ctx c)), placed_emit]
  rfl

theorem placed_terminate (op : Op) :
    (placed pre retain cur t offs past).terminate op
      = placed pre retain cur (t.terminate op) (offs ++ stamped retain cur 1) past := by
  unfold terminate Translator.terminate
  rw [placed_emit]
  rfl

theorem placed_openFrame (h : Room pre t) (kind : BlockKind) (ps rs : ℕ) (elsePatch : Option ℕ)
    (clauses : List HandlerClause) :
    (placed pre retain cur t offs past).openFrame kind (ps, rs) elsePatch clauses
      = placed pre retain cur (t.openFrame kind ps rs elsePatch clauses) offs past := by
  obtain ⟨hs, -, -⟩ := heightBelow_streams t ps
  have hnext : (t.heightBelow ps).2.nextIp = t.nextIp := congrArg List.length hs.ops
  unfold openFrame Translator.openFrame
  rw [placed_nextIp h.ops, hnext]
  show ({ placed pre retain cur t offs past with own := { ((behind pre t).heightBelow ps).2 with
    ctrl := ⟨kind, ((behind pre t).heightBelow ps).1, ps, rs, t.nextIp, [], elsePatch,
      ((behind pre t).heightBelow ps).2.reachable, false, clauses⟩
        :: ((behind pre t).heightBelow ps).2.ctrl } } : ArenaTranslator) = _
  rw [behind_heightBelow]
  rfl

theorem placed_pushBlock (h : Room pre t) (ctx : CompileCtx) (bt : BlockType) (kind : BlockKind)
    (clauses : List HandlerClause) :
    (placed pre retain cur t offs past).pushBlock ctx bt kind clauses
      = placed pre retain cur (t.pushBlock ctx bt kind clauses) offs past := by
  unfold pushBlock
  rw [placed_map (f := fun t => { t with fusableCmp := none }) rfl]
  exact placed_openFrame (t := { t with fusableCmp := none })
    ⟨h.ops, h.brTables, h.bigMemargs⟩ kind _ _ none clauses

theorem placed_ifBranch (h : Room pre t) :
    (placed pre retain cur t offs past).ifBranch
      = (t.ifBranch.1, placed pre retain cur t.ifBranch.2
          (offs ++ stamped retain cur (if t.reachable && t.fusableCmp.isNone then 1 else 0))
          past) := by
  have hs := pop_streams t 1
  have hr := h.of_streams hs
  unfold ifBranch Translator.ifBranch
  show (if t.reachable then _ else _) = _
  by_cases hreach : t.reachable = true
  · rw [if_pos hreach, if_pos hreach, hreach, placed_map (behind_pop 1)]
    show (match (t.pop 1).fusableCmp with | some kind => _ | none => _) = _
    dsimp only
    rw [← hs.fusableCmp]
    rcases hk : (t.pop 1).fusableCmp with _ | kind
    · dsimp only
      rw [placed_nextIp hr.ops, placed_emit]
      rfl
    · dsimp only
      rw [← hk, placed_nextIp hr.ops, placed_setOp, hk]
      have hzero := append_stamped_zero offs retain cur
      exact congrArg (fun o => (_, placed pre retain cur _ o past)) hzero.symm
  · rw [if_neg hreach, if_neg hreach, Bool.eq_false_iff.mpr hreach]
    have hzero := append_stamped_zero offs retain cur
    exact congrArg (fun o => (_, placed pre retain cur t o past)) hzero.symm

theorem placed_pushIf (h : Room pre t) (ctx : CompileCtx) (bt : BlockType)
    (hops : pre.ops.length + t.ops.length + t.emitted (.if_ bt) < 2 ^ 32) :
    (placed pre retain cur t offs past).pushIf ctx bt
      = placed pre retain cur (t.pushIf ctx bt)
          (offs ++ stamped retain cur (t.emitted (.if_ bt))) past := by
  obtain ⟨hlen, hpool, hbig, -⟩ := ifBranch_streams t
  have hr : Room pre { t.ifBranch.2 with fusableCmp := none } := by
    refine ⟨?_, ?_, ?_⟩
    · show pre.ops.length + t.ifBranch.2.ops.length < 2 ^ 32
      rw [hlen, ← Nat.add_assoc]
      exact hops
    · show pre.brTables.length + t.ifBranch.2.brTables.length < 2 ^ 32
      rw [hpool]
      exact h.brTables
    · show pre.bigMemargs.length + t.ifBranch.2.bigMemargs.length < 2 ^ 32
      rw [hbig]
      exact h.bigMemargs
  unfold pushIf
  rw [placed_ifBranch h]
  dsimp only
  rw [placed_map (f := fun t => { t with fusableCmp := none }) rfl]
  exact placed_openFrame hr .if_ _ _ _ []

theorem placed_elseBranch (h : Room pre t) (resultCount : ℕ) :
    (placed pre retain cur t offs past).elseBranch resultCount
      = (t.elseBranch resultCount).map fun u => placed pre retain cur u
          (offs ++ stamped retain cur (if t.reachable then 1 else 0)) past := by
  unfold elseBranch Translator.elseBranch
  show (if t.reachable then _ else _) = _
  by_cases hr : t.reachable = true
  · rw [if_pos hr, if_pos hr, hr]
    rcases fixup resultCount 0 with err | ⟨keep, pop⟩
    · rfl
    · refine congrArg Except.ok ?_
      dsimp only
      rw [placed_nextIp h.ops, placed_emit, placed_registerBranch]
  · rw [if_neg hr, if_neg hr, Bool.eq_false_iff.mpr hr]
    have hzero := append_stamped_zero offs retain cur
    exact congrArg (fun o => Except.ok (placed pre retain cur t o past)) hzero.symm

theorem elseBranch_length {v : Translator} {resultCount : ℕ}
    (hb : t.elseBranch resultCount = .ok v) :
    v.ops.length = t.ops.length + if t.reachable then 1 else 0 := by
  unfold Translator.elseBranch at hb
  by_cases hr : t.reachable = true
  · rw [if_pos hr] at hb ⊢
    obtain ⟨⟨keep, pop⟩, -, hb⟩ := bind_ok hb
    obtain rfl := Except.ok.inj hb
    exact List.length_append
  · rw [if_neg hr] at hb ⊢
    obtain rfl := Except.ok.inj hb
    rfl

theorem placed_doElse (h : Room pre t)
    (hops : pre.ops.length + t.ops.length + t.emitted .else_ < 2 ^ 32) :
    (placed pre retain cur t offs past).doElse
      = t.doElse.map fun u => placed pre retain cur u
          (offs ++ stamped retain cur (t.emitted .else_))
          (past ++ (t.resolves .else_).filterMap (written u.ops)) := by
  unfold doElse Translator.doElse resolves
  set t' : Translator := { t with fusableCmp := none } with ht'
  have hmap : (placed pre retain cur t offs past).map (fun t => { t with fusableCmp := none })
      = placed pre retain cur t' offs past := rfl
  have hr : Room pre t' := ⟨h.ops, h.brTables, h.bigMemargs⟩
  rw [hmap]
  show (match t.ctrl with | [] => _ | f :: _ => _) = _
  rcases t.ctrl with _ | ⟨f, d⟩
  · rfl
  · dsimp only
    rw [placed_elseBranch hr]
    rcases hb : t'.elseBranch f.resultCount with err | v
    · rfl
    · refine congrArg Except.ok ?_
      have hnext : pre.ops.length + v.ops.length < 2 ^ 32 := by
        rw [elseBranch_length hb, ← Nat.add_assoc]
        exact hops
      dsimp only
      rw [placed_nextIp hnext, placed_patchElse, patchElse_eq, written_patchAll]
      rfl

theorem placed_landingPads (ctx : CompileCtx) (base : ℕ) (clauses : List HandlerClause)
    (hops : pre.ops.length + t.ops.length + clauses.length < 2 ^ 32) :
    landingPads ctx base clauses (placed pre retain cur t offs past)
      = (Translator.landingPads ctx base clauses t).map fun (recs, u) =>
          (recs, placed pre retain cur u (offs ++ stamped retain cur clauses.length) past) := by
  induction clauses generalizing t offs with
  | nil =>
    have hzero := append_stamped_zero offs retain cur
    exact congrArg (fun o => Except.ok ([], placed pre retain cur t o past)) hzero.symm
  | cons c clauses ih =>
    set t' : Translator := { t with height := base + payloadCount ctx c } with ht'
    have hmap : (placed pre retain cur t offs past).map
        (fun t => { t with height := base + payloadCount ctx c })
      = placed pre retain cur t' offs past := rfl
    unfold landingPads Translator.landingPads
    rw [hmap]
    show (t'.branchTarget c.label >>= _) = Except.map _ (t'.branchTarget c.label >>= _)
    rcases t'.branchTarget c.label with err | ⟨target, frame⟩
    · rfl
    · rw [List.length_cons] at hops
      set v := (t'.emit (.br target)).registerBranch frame t'.nextIp .single with hv
      have hlen : v.ops.length = t.ops.length + 1 := by
        rw [hv]
        cases frame <;> exact List.length_append
      have hpad : (((placed pre retain cur t' offs past).emit (.br target)).registerBranch frame
          (placed pre retain cur t' offs past).nextIp .single)
          = placed pre retain cur v (offs ++ stamped retain cur 1) past := by
        rw [placed_nextIp (t := t') (show pre.ops.length + t.ops.length < 2 ^ 32 by omega),
          placed_emit, placed_registerBranch]
      have hrest : landingPads ctx base clauses
          (placed pre retain cur v (offs ++ stamped retain cur 1) past) = _ := ih (by omega)
      have hadd : offs ++ stamped retain cur 1 ++ stamped retain cur clauses.length
          = offs ++ stamped retain cur (clauses.length + 1) := by
        rw [List.append_assoc, ← stamped_add, Nat.add_comm 1]
      show (landingPads ctx base clauses (((placed pre retain cur t' offs past).emit
          (.br target)).registerBranch frame (placed pre retain cur t' offs past).nextIp .single)
        >>= _) = Except.map _ (Translator.landingPads ctx base clauses v >>= _)
      rw [hpad, hrest, hadd]
      rw [placed_nextIp (t := t') (show pre.ops.length + t.ops.length < 2 ^ 32 by omega)]
      rcases Translator.landingPads ctx base clauses v with err | ⟨recs, u⟩
      · rfl
      · rfl

theorem placed_endTryTable (h : Room pre t) (ctx : CompileCtx) (f : CtrlFrame)
    (hops : pre.ops.length + t.ops.length + (f.clauses.length + 1) < 2 ^ 32) :
    endTryTable ctx f (placed pre retain cur t offs past)
      = (Translator.endTryTable ctx f t).map fun u => placed pre retain cur u
          (offs ++ stamped retain cur (f.clauses.length + 1))
          (past ++ (⟨t.nextIp, .single⟩ :: f.endPatches).filterMap (written u.ops)) := by
  unfold endTryTable Translator.endTryTable
  dsimp only
  rw [placed_nextIp h.ops]
  rcases fixup f.resultCount 0 with err | ⟨keep, pop⟩
  · rfl
  · set v := t.emit (.br ⟨0, keep, 0⟩) with hv
    have hlen : v.ops.length = t.ops.length + 1 := List.length_append
    have hpads : landingPads ctx f.baseHeight f.clauses
        (placed pre retain cur v (offs ++ stamped retain cur 1) past) = _ :=
      placed_landingPads ctx f.baseHeight f.clauses (by omega)
    have hadd : offs ++ stamped retain cur 1 ++ stamped retain cur f.clauses.length
        = offs ++ stamped retain cur (f.clauses.length + 1) := by
      rw [List.append_assoc, ← stamped_add, Nat.add_comm 1]
    show (landingPads ctx f.baseHeight f.clauses
        ((placed pre retain cur t offs past).emit (.br ⟨0, keep, 0⟩)) >>= _)
      = Except.map _ (Translator.landingPads ctx f.baseHeight f.clauses v >>= _)
    rw [placed_emit, hpads, hadd]
    rcases hw : Translator.landingPads ctx f.baseHeight f.clauses v with err | ⟨recs, w⟩
    · rfl
    · have hnext : pre.ops.length + w.ops.length < 2 ^ 32 := by
        rw [landingPads_length hw]
        omega
      refine congrArg Except.ok ?_
      dsimp only
      rw [placed_nextIp hnext]
      show ArenaTranslator.map _ ((placed pre retain cur w _ past).patchAll
        (⟨t.nextIp, .single⟩ :: f.endPatches) w.nextIp) = placed pre retain cur _ _
          (past ++ List.filterMap (written
            (w.patchAll (⟨t.nextIp, .single⟩ :: f.endPatches) w.nextIp).ops) _)
      rw [placed_patchAll, written_patchAll]
      refine ArenaTranslator.ext ?_ rfl rfl rfl rfl rfl
      have hspan : ∀ (hs : List HandlerSpan) (s : HandlerSpan),
          (pre.handlers ++ hs) ++ [s] = pre.handlers ++ (hs ++ [s]) := fun hs s =>
        List.append_assoc ..
      exact congrArg (fun handlers => ({ behind pre (w.patchAll _ w.nextIp) with
        handlers, reachable := _, height := _ } : Translator)) (hspan _ _)

theorem placed_endBlock (h : Room pre t) (f : CtrlFrame) :
    endBlock f (placed pre retain cur t offs past)
      = placed pre retain cur (Translator.endBlock f t) offs
          (past ++ (framePatches f).filterMap (written (Translator.endBlock f t).ops)) := by
  have hops : written (Translator.endBlock f t).ops = written t.ops := by
    show written ((t.patchElse f.elsePatch t.nextIp).patchAll f.endPatches t.nextIp).ops = _
    rw [written_patchAll, patchElse_eq, written_patchAll]
  have hframe : framePatches f = f.elsePatch.toList.map (⟨·, .single⟩) ++ f.endPatches := rfl
  rw [hops, hframe, List.filterMap_append, ← List.append_assoc]
  unfold endBlock Translator.endBlock
  dsimp only
  rw [placed_nextIp h.ops, placed_patchElse, placed_patchAll, patchElse_eq, written_patchAll]
  rfl

theorem placed_doEnd (h : Room pre t) (ctx : CompileCtx)
    (hops : pre.ops.length + t.ops.length + t.emitted .end_ < 2 ^ 32) :
    (placed pre retain cur t offs past).doEnd ctx
      = (t.doEnd ctx).map fun u => placed pre retain cur u
          (offs ++ stamped retain cur (t.emitted .end_))
          (past ++ (t.resolves .end_).filterMap (written u.ops)) := by
  unfold doEnd Translator.doEnd resolves
  unfold emitted at hops ⊢
  show (match t.ctrl with | [] => _ | f :: _ => _) = _
  rcases hc : t.ctrl with _ | ⟨f, d⟩
  · rfl
  · rw [hc] at hops
    dsimp only at hops ⊢
    set t' : Translator := { t with fusableCmp := none, ctrl := d } with ht'
    have hr : Room pre t' := ⟨h.ops, h.brTables, h.bigMemargs⟩
    have hmap : (placed pre retain cur t offs past).map
        (fun t => { t with fusableCmp := none, ctrl := d }) = placed pre retain cur t' offs past :=
      rfl
    rw [hmap]
    by_cases hk : f.kind = .tryTable ∧ f.reachableOnEntry = true
    · rw [if_pos hk] at hops
      simp only [if_pos hk]
      exact placed_endTryTable hr ctx f hops
    · simp only [if_neg hk]
      rw [placed_endBlock hr]
      have hzero := append_stamped_zero offs retain cur
      exact congrArg (fun o => Except.ok (placed pre retain cur _ o _)) hzero.symm

/-- The most edges an operator pools. -/
def edges : Operator → ℕ
  | .jump j => j.labels.length
  | .cond _ => 1
  | _ => 0

/-- Room for what an operator appends. -/
structure Fits (pre : CodeArenas) (t : Translator) (op : Operator) : Prop where
  ops : pre.ops.length + t.ops.length + t.emitted op < 2 ^ 32
  brTables : pre.brTables.length + t.brTables.length + edges op < 2 ^ 32
  bigMemargs : pre.bigMemargs.length + t.bigMemargs.length < 2 ^ 32

theorem Fits.room {op : Operator} (h : Fits pre t op) : Room pre t :=
  ⟨(Nat.le_add_right _ _).trans_lt h.ops, (Nat.le_add_right _ _).trans_lt h.brTables,
    h.bigMemargs⟩

theorem placed_visitJump (h : Room pre t) (ctx : CompileCtx) (j : Jump)
    (hpool : pre.brTables.length + t.brTables.length + j.labels.length < 2 ^ 32) :
    (placed pre retain cur t offs past).visitJump ctx j
      = (t.visitJump ctx j).map fun u =>
          placed pre retain cur u (offs ++ stamped retain cur 1) past := by
  cases j with
  | br l => exact placed_br h l
  | brTable cases default =>
    have hlabels : (Jump.brTable cases default).labels.length = cases.length + 1 :=
      List.length_append
    rw [hlabels] at hpool
    exact placed_brTable h cases default (by omega)
  | ret => exact placed_ret h
  | unreachable => exact congrArg Except.ok (placed_terminate .unreachable)
  | throw tag => exact congrArg Except.ok (placed_terminate (.throw tag))
  | throwRef => exact congrArg Except.ok (placed_terminate .throwRef)
  | returnCall c => exact congrArg Except.ok (placed_returnCall ctx c)

theorem placed_visitCond (h : Room pre t) (c : CondBr) :
    (placed pre retain cur t offs past).visitCond c
      = (t.visitCond c).map fun u =>
          placed pre retain cur u (offs ++ stamped retain cur (t.condOps c)) past := by
  cases c with
  | brIf l => exact placed_brIf h l
  | brOnNull l => exact placed_brOnNull h l
  | brOnNonNull l => exact placed_brOnNonNull h l
  | brOnCast l ty nullable fail => exact placed_brOnCast h l ty nullable fail

/-- Behind arenas that leave room, an operator does what it does in a function by itself, records
its byte offset once for each op it adds, and writes the branches it resolves. -/
theorem placed_visit (ctx : CompileCtx) (op : Operator) (h : Fits pre t op) :
    (placed pre retain cur t offs past).visit ctx op
      = (t.visit ctx op).map fun u => placed pre retain cur u
          (offs ++ stamped retain cur (t.emitted op))
          (past ++ (t.resolves op).filterMap (written u.ops)) := by
  have hr := h.room
  have skip : ∀ {x : Except CompileError ArenaTranslator} {y : Except CompileError Translator}
      {k : ℕ}, x = y.map (fun u => placed pre retain cur u (offs ++ stamped retain cur k) past) →
      (if t.reachable then x else .ok (placed pre retain cur t offs past))
        = (if t.reachable then y else .ok t).map fun u => placed pre retain cur u
            (offs ++ stamped retain cur (if t.reachable then k else 0)) (past ++ []) := by
    rintro x y k rfl
    rw [List.append_nil]
    by_cases hreach : t.reachable = true
    · rw [if_pos hreach, if_pos hreach, if_pos hreach]
    · rw [if_neg hreach, if_neg hreach, if_neg hreach, stamped_zero, List.append_nil]
      rfl
  have hblock : ∀ (bt : BlockType) (kind : BlockKind) (clauses : List HandlerClause),
      (placed pre retain cur t offs past).pushBlock ctx bt kind clauses
        = placed pre retain cur (t.pushBlock ctx bt kind clauses)
            (offs ++ stamped retain cur 0) (past ++ []) := by
    intro bt kind clauses
    rw [stamped_zero, List.append_nil, List.append_nil]
    exact placed_pushBlock hr ctx bt kind clauses
  cases op with
  | plain p => exact skip (placed_visitPlain hr ctx p)
  | block bt => exact congrArg Except.ok (hblock bt .block [])
  | loop bt => exact congrArg Except.ok (hblock bt .loop [])
  | tryTable bt catches => exact congrArg Except.ok (hblock bt .tryTable (catches.map convCatch))
  | if_ bt =>
    refine congrArg Except.ok ((placed_pushIf hr ctx bt h.ops).trans ?_)
    exact congrArg (placed pre retain cur _ _) (List.append_nil past).symm
  | else_ => exact placed_doElse hr h.ops
  | end_ => exact placed_doEnd hr ctx h.ops
  | jump j => exact skip (placed_visitJump hr ctx j h.brTables)
  | cond c => exact skip (placed_visitCond hr c)
  | call c => exact skip (congrArg Except.ok (placed_call ctx c))

end Placed

end ArenaTranslator

end SubmilliWasm
