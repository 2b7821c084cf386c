/-
# Fused branches at run time

A function with fused branches runs like the one with every fused branch written out.  The states
of the two differ in the code of the frames and in the ips, which are moved by `apartIp`; `apart`
takes a state of the one to the state of the other.  An op that is no fused branch takes one turn
in both (`turn_apart`).  A fused branch takes two turns where it is written out: the comparison
leaves `0` or `1` on the stack, and the branch takes it off (`turn_fused`).

The handlers of straight-line ops are parameters of the interpreter; `Straight` has what is known
of them, the comparisons in full (`src/exec/numeric.rs`, `src/exec/arith.rs`).
-/
import SubmilliWasm.Compile.Fusion
import SubmilliWasm.Exec.Clocks
import SubmilliWasm.Exec.Memory

namespace SubmilliWasm

variable {σ : Type}

/-! ## States written out -/

def Frame.apart (f : Frame) : Frame :=
  { f with code := f.code.apart, ip := apartIp f.code.ops f.ip }

def Regs.apart (r : Regs) : Regs := { r with code := r.code.apart, ip := apartIp r.code.ops r.ip }

def CallReq.apart (code : CompiledFunc) (req : CallReq) : CallReq :=
  { req with returnIp := apartIp code.ops req.returnIp, code := req.code.apart }

/-- What a step in `code` decides, for the code written out. -/
def StepOutcome.apart (code : CompiledFunc) : StepOutcome → StepOutcome
  | .advance ip => .advance (apartIp code.ops ip)
  | .doCall req => .doCall (req.apart code)
  | .doTailCall req => .doTailCall (req.apart code)
  | .doHostCall func inst ip => .doHostCall func inst (apartIp code.ops ip)
  | .doTailHostCall func inst n => .doTailHostCall func inst n
  | .doHostAsyncCall func inst ip => .doHostAsyncCall func inst (apartIp code.ops ip)
  | .doTailHostAsyncCall func inst n => .doTailHostAsyncCall func inst n
  | .doGrow memory delta ip => .doGrow memory delta (apartIp code.ops ip)
  | .doTableGrow table delta init ip => .doTableGrow table delta init (apartIp code.ops ip)
  | .doGcGrow target bytes ip => .doGcGrow target bytes (apartIp code.ops ip)

def ResolvedCall.apart : ResolvedCall → ResolvedCall
  | .wasm inst funcIndex code => .wasm inst funcIndex code.apart
  | c => c

def Next.apart : Next → Next
  | .loop r => .loop r.apart
  | .poll r => .poll r.apart
  | n => n

namespace Execution

def apart (e : Execution) : Execution := { e with frames := e.frames.map Frame.apart }

variable (e : Execution)

theorem apart_values : e.apart.values = e.values := rfl

theorem apart_shadow : e.apart.shadow = e.shadow := rfl

theorem apart_frames_length : e.apart.frames.length = e.frames.length := List.length_map _

theorem pushAll_apart (os : List Operand) : e.apart.pushAll os = (e.pushAll os).apart := rfl

theorem push_apart (o : Operand) : e.apart.push o = (e.push o).apart := rfl

theorem saveIp_apart {f : Frame} (h : e.frames.head? = some f) (ip : ℕ) :
    e.apart.saveIp (apartIp f.code.ops ip) = (e.saveIp ip).map apart := by
  obtain ⟨values, shadow, frames, depth⟩ := e
  cases frames with
  | nil => cases h
  | cons g fs =>
    obtain rfl := Option.some.inj h
    rfl

theorem popN_apart (n : ℕ) (accept : List Operand → Option ExecError) :
    e.apart.popN n accept = (e.popN n accept).map fun p => (p.1, p.2.apart) := by
  have hensure : e.apart.ensureOperands n = e.ensureOperands n := by
    obtain ⟨values, shadow, frames, depth⟩ := e
    cases frames <;> rfl
  unfold popN
  rw [hensure]
  cases e.ensureOperands n with
  | error err => rfl
  | ok base =>
    have hfrom : e.apart.operandsFrom base = e.operandsFrom base := rfl
    dsimp only
    rw [hfrom]
    cases accept (e.operandsFrom base) with
    | some err => rfl
    | none => rfl

theorem setCell_apart (j : ℕ) (o : Operand) :
    e.apart.setCell j o = (e.setCell j o).map apart := by
  unfold setCell
  rw [apart_values, apart_shadow]
  split <;> rfl

theorem takeBranch_apart (t : BranchTarget) :
    e.apart.takeBranch t = (e.takeBranch t).map apart := by
  obtain ⟨values, shadow, frames, depth⟩ := e
  unfold takeBranch
  rw [apart_values, apart_shadow]
  split
  · rfl
  · cases frames with
    | nil => rfl
    | cons g fs =>
      show (if values.length < g.operandBase + (t.keep + t.pop) then _ else _) = Except.map _
        (if values.length < g.operandBase + (t.keep + t.pop) then _ else _)
      split <;> rfl

theorem doReturn_apart (n stopDepth : ℕ) (tail : Bool) :
    e.apart.doReturn n stopDepth tail
      = (e.doReturn n stopDepth tail).map fun p => (p.1.apart, p.2) := by
  obtain ⟨values, shadow, frames, depth⟩ := e
  cases frames with
  | nil => rfl
  | cons g fs =>
    simp only [doReturn, apart, List.map_cons, List.length_cons, List.length_map, Frame.apart]
    split
    · rfl
    · split
      · rfl
      · split
        · rfl
        · split <;> rfl

theorem stackBytes_apart (frameSize : ℕ) :
    e.apart.stackBytes frameSize = e.stackBytes frameSize := by
  unfold stackBytes
  rw [apart_frames_length]
  rfl

theorem pushCall_apart (inst funcIndex : ℕ) (code : CompiledFunc) :
    e.apart.pushCall inst funcIndex code.apart = (e.pushCall inst funcIndex code).map apart := by
  have hfloor : e.apart.frames.head?.map Frame.operandBase
    = e.frames.head?.map Frame.operandBase := by
    obtain ⟨values, shadow, frames, depth⟩ := e
    cases frames <;> rfl
  have hzero : apartIp code.ops 0 = 0 := apartIp_zero _
  unfold pushCall
  dsimp only
  rw [hfloor, apart_values, apart_shadow, show code.apart.nParams = code.nParams from rfl,
    show code.apart.localTypes = code.localTypes from rfl]
  split
  · rfl
  · split
    · rfl
    · split
      · rfl
      · split
        · rfl
        · split
          · rfl
          · show Except.ok _ = Except.ok (Execution.mk _ _ (Frame.mk code.apart (apartIp code.ops 0)
              _ _ _ _ _ :: e.frames.map Frame.apart) _)
            rw [hzero]
            rfl

theorem top_apart : e.apart.top = e.top.map Regs.apart := by
  obtain ⟨values, shadow, frames, depth⟩ := e
  cases frames with
  | nil => rfl
  | cons f fs =>
    unfold top
    show (if f.delimiter.isSome then _ else _) = Except.map _ (if f.delimiter.isSome then _ else _)
    split <;> rfl

end Execution

/-! ## Handlers -/

namespace Handler

/-- The handler with the targets of its branches moved by `f` and its outcomes by `g`. -/
def moved (f : ℕ → ℕ) (g : StepOutcome → StepOutcome) : Handler σ → Handler σ
  | .done r => .done (r.map g)
  | .get k => .get fun s => (k s).moved f g
  | .set s k => .set s (k.moved f g)
  | .look k => .look fun values shadow => (k values shadow).moved f g
  | .pop n accept k => .pop n accept fun os => (k os).moved f g
  | .push o k => .push o (k.moved f g)
  | .getLocal i k => .getLocal i fun o => (k o).moved f g
  | .setLocal i o k => .setLocal i o (k.moved f g)
  | .branch t k => .branch (t.mapIp f) (k.moved f g)

theorem moved_ite (f : ℕ → ℕ) (g : StepOutcome → StepOutcome) (p : Prop) [Decidable p]
    (H K : Handler σ) :
    (if p then H else K).moved f g = if p then H.moved f g else K.moved f g := by
  split <;> rfl

/-- A handler looks at the operands only, not at the code or the ips of the frames. -/
theorem run_apart (base : ℕ) (H : Handler σ) (e : Execution) (s : σ) :
    H.run base e.apart s = ((H.run base e s).1.apart, (H.run base e s).2) :=
  run_comm (φ := Execution.apart) (fun _ => rfl) (fun _ => rfl) Execution.push_apart
    Execution.popN_apart Execution.setCell_apart Execution.takeBranch_apart base H e s

/-- The target of a branch does not matter to the operands it moves. -/
theorem run_moved (f : ℕ → ℕ) (g : StepOutcome → StepOutcome) (base : ℕ) (H : Handler σ)
    (e : Execution) (s : σ) :
    (H.moved f g).run base e s
      = ((H.run base e s).1, (H.run base e s).2.1, (H.run base e s).2.2.map g) := by
  induction H generalizing e s with
  | done r => rfl
  | get k ih => exact ih s e s
  | set s' k ih => exact ih e s'
  | look k ih => exact ih e.values e.shadow e s
  | push o k ih => exact ih (e.push o) s
  | pop n accept k ih =>
    unfold moved run
    cases e.popN n accept with
    | error err => rfl
    | ok p => exact ih p.1 p.2 s
  | getLocal j k ih =>
    unfold moved run
    cases (Execution.localIndex base j).bind e.cellAt with
    | error err => rfl
    | ok o => exact ih o e s
  | setLocal j o k ih =>
    unfold moved run
    cases (Execution.localIndex base j).bind fun l => e.setCell l o with
    | error err => rfl
    | ok e' => exact ih e' s
  | branch t k ih =>
    have ht : e.takeBranch (t.mapIp f) = e.takeBranch t := rfl
    unfold moved run
    rw [ht]
    cases e.takeBranch t with
    | error err => rfl
    | ok e' => exact ih e' s

end Handler

/-! ## Comparisons -/

/-- The relational ops of `exec_numeric`: `i32_relop` compares as signed, `u32_relop` as unsigned
numbers. -/
def i32Relop (kind : CmpKind) (a b : BitVec 32) : Bool :=
  match kind with
  | .eq => a.toInt = b.toInt
  | .ne => a.toInt ≠ b.toInt
  | .ltS => a.toInt < b.toInt
  | .ltU => a.toNat < b.toNat
  | .gtS => a.toInt > b.toInt
  | .gtU => a.toNat > b.toNat
  | .leS => a.toInt ≤ b.toInt
  | .leU => a.toNat ≤ b.toNat
  | .geS => a.toInt ≥ b.toInt
  | .geU => a.toNat ≥ b.toNat

/-- A fused branch compares as the relational op does. -/
theorem cmpI32_eq (kind : CmpKind) (a b : BitVec 32) : cmpI32 kind a b = i32Relop kind a b := by
  have heq : decide (a.toInt = b.toInt) = (a == b) := by
    by_cases h : a = b
    · rw [h]
      simp
    · have hne : a.toInt ≠ b.toInt := fun h' => h (BitVec.eq_of_toInt_eq h')
      simp [h, hne]
  cases kind with
  | eq => exact heq.symm
  | ne =>
    show (a != b) = decide (¬a.toInt = b.toInt)
    rw [decide_not, heq]
    rfl
  | ltS => rfl
  | ltU => rfl
  | gtS => rfl
  | gtU => rfl
  | leS => rfl
  | leU => rfl
  | geS => rfl
  | geU => rfl

namespace Handler

/-- `i32::from` of a comparison, as a cell. -/
def boolCell (b : Bool) : Operand := ⟨(if b then 1 else 0 : BitVec 32).setWidth 64, .none⟩

/-- The handler of a relational op. -/
def relop (kind : CmpKind) (next : ℕ) : Handler σ := .pop 2 scalars fun os =>
  match os with
  | [a, b] => .push (boolCell (i32Relop kind a.cell.unwrapI32 b.cell.unwrapI32))
      (.done (.ok (.advance next)))
  | _ => .done (.ok (.advance next))

end Handler

/-! ## Straight-line ops -/

/-- What a straight-line op in front of `next` decides: to go on there, or to run again once the
reservation it asks for is there. -/
def StepOutcome.placed (next : ℕ) : StepOutcome → StepOutcome
  | .doGcGrow target bytes _ => .doGcGrow target bytes (next - 1)
  | _ => .advance next

/-- Where a handler stands does not matter to what it does. -/
def Handler.Placeless (H : ℕ → Handler σ) : Prop :=
  ∃ h : Handler σ, ∀ next, H next = h.moved id (StepOutcome.placed next)

/-- An interpreter with what is known of the handlers of straight-line ops and of `throw`. -/
structure Straight (σ : Type) extends Interp σ where
  plain_placeless : ∀ p inst, Handler.Placeless (plain p inst)
  throwTag_placeless : ∀ tag inst, Handler.Placeless fun next => throwTag tag inst (next - 1)
  plain_relop : ∀ kind inst next, plain (.relop kind) inst next = .relop kind next

/-- The interpreter of a store whose functions are written out. -/
def Interp.apart (I : Interp σ) : Interp σ :=
  { I with callee := fun c inst o s => (I.callee c inst o s).map ResolvedCall.apart }

/-- The step of the code written out ends as that of the code, in states written out. -/
def Handler.Apart (code : CompiledFunc) (H H' : Handler σ) : Prop :=
  ∀ base e s, H'.run base e.apart s
    = ((H.run base e s).1.apart, (H.run base e s).2.1,
      (H.run base e s).2.2.map (StepOutcome.apart code))

theorem Handler.Apart.of_moved {code : CompiledFunc} {H H' : Handler σ} (f : ℕ → ℕ)
    (h : H' = H.moved f (StepOutcome.apart code)) : H.Apart code H' := by
  intro base e s
  rw [h, Handler.run_moved, Handler.run_apart]

theorem Handler.Placeless.apart {H : ℕ → Handler σ} (h : Handler.Placeless H) {code : CompiledFunc}
    {ip : ℕ} (hnext : apartIp code.ops (ip + 1) = apartIp code.ops ip + 1) :
    (H (ip + 1)).Apart code (H (apartIp code.ops (ip + 1))) := by
  obtain ⟨h, hh⟩ := h
  have houtcome : StepOutcome.placed (apartIp code.ops (ip + 1))
      = fun out => (out.placed (ip + 1)).apart code := by
    funext out
    cases out with
    | doGcGrow target bytes ip' =>
      show StepOutcome.doGcGrow target bytes (apartIp code.ops (ip + 1) - 1)
        = .doGcGrow target bytes _
      rw [hnext]
      rfl
    | _ => rfl
  intro base e s
  rw [hh, hh, Handler.run_moved, Handler.run_moved, Handler.run_apart, houtcome]
  cases (h.run base e s).2.2 <;> rfl

/-- The op in front of a saved resume point is no fused branch. -/
def Frame.Sited (f : Frame) : Prop :=
  f.ip ≠ 0 → apartIp f.code.ops f.ip = apartIp f.code.ops (f.ip - 1) + 1

/-- The frames above `stopDepth` that wait for the top one. -/
def callers (frames : List Frame) (stopDepth : ℕ) : List Frame :=
  frames.tail.take (frames.tail.length - stopDepth)

theorem callers_cons {f g : Frame} {fs : List Frame} {stopDepth : ℕ} (h : stopDepth ≤ fs.length) :
    callers (f :: g :: fs) stopDepth = g :: callers (g :: fs) stopDepth := by
  show (g :: fs).take ((g :: fs).length - stopDepth) = g :: fs.take (fs.length - stopDepth)
  rw [List.length_cons, Nat.succ_sub h, List.take_succ_cons]

namespace Straight

variable (S : Straight σ)

/-- A call of any kind. -/
theorem callOp_apart (code : CompiledFunc) (inst : ℕ) (c : CallTarget) (returnIp : Option ℕ) :
    (S.call c inst returnIp).Apart code
      (S.apart.call c inst (returnIp.map (apartIp code.ops))) := by
  have hresolve : ∀ o : Operand, (Handler.get fun s => .done
        ((S.apart.callee c inst o s).map
          (S.apart.callOutcome s inst (returnIp.map (apartIp code.ops)))))
      = Handler.moved id (StepOutcome.apart code) (.get fun s => .done
        ((S.callee c inst o s).map (S.callOutcome s inst returnIp))) := by
    intro o
    refine congrArg Handler.get (funext fun s => congrArg Handler.done ?_)
    show Except.map _ (Except.map ResolvedCall.apart (S.callee c inst o s)) = _
    rcases S.callee c inst o s with err | r
    · rfl
    · cases r with
      | wasm defInst funcIndex callee =>
        cases returnIp with
        | some ret => rfl
        | none =>
          show Except.ok (StepOutcome.doTailCall ⟨0, defInst, funcIndex, callee.apart⟩)
            = .ok (.doTailCall ⟨apartIp code.ops 0, defInst, funcIndex, callee.apart⟩)
          rw [apartIp_zero]
      | host func => cases returnIp <;> rfl
      | hostAsync func => cases returnIp <;> rfl
  refine .of_moved id ?_
  cases c with
  | func f => exact hresolve ⟨0, .none⟩
  | indirect ty table =>
    exact congrArg (Handler.pop 1 Handler.scalars) (funext fun os => hresolve _)
  | ref ty => exact congrArg (Handler.pop 1 (Handler.refOf .func)) (funext fun os => hresolve _)

theorem brTables_apart (code : CompiledFunc) (i : ℕ) :
    code.apart.brTables[i]? = code.brTables[i]?.map (BranchTarget.mapIp (apartIp code.ops)) := by
  have hedges : code.apart.brTables = code.brTables.map (·.mapIp (apartIp code.ops)) := rfl
  rw [hedges, List.getElem?_map]

theorem brTable_apart (code : CompiledFunc) (base len next inst : ℕ) :
    (S.step code (.brTable base len) next inst).Apart code
      (S.apart.step code.apart (.brTable base len) (apartIp code.ops next) inst) := by
  have hlen : code.apart.brTables.length = code.brTables.length := List.length_map _
  refine .of_moved (apartIp code.ops) ?_
  show (if code.apart.brTables.length < base + len then _ else _)
    = Handler.moved _ _ (if code.brTables.length < base + len then _ else _)
  rw [hlen]
  split
  · rfl
  · rw [brTables_apart]
    rcases code.brTables[base + len]? with _ | default
    · rfl
    · refine congrArg (Handler.pop 1 Handler.scalars) (funext fun os => ?_)
      have hgetD : ∀ i : ℕ, code.apart.brTables.getD i (default.mapIp (apartIp code.ops))
          = (code.brTables.getD i default).mapIp (apartIp code.ops) := by
        intro i
        rw [List.getD_eq_getElem?_getD, List.getD_eq_getElem?_getD, brTables_apart,
          Option.getD_map]
      show Handler.jump (if _ < len then code.apart.brTables.getD _ _ else _)
        = Handler.moved _ _ (Handler.jump (if _ < len then code.brTables.getD _ _ else _))
      rw [hgetD]
      split <;> rfl

theorem brOnCast_apart (code : CompiledFunc) (ty : IrHeap) (pool : ℕ) (nullable fail : Bool)
    (next inst : ℕ) :
    (S.step code (.brOnCast ty pool nullable fail) next inst).Apart code
      (S.apart.step code.apart (.brOnCast ty pool nullable fail) (apartIp code.ops next) inst) := by
  refine .of_moved (apartIp code.ops) ?_
  dsimp only [Interp.step]
  rw [brTables_apart]
  rcases code.brTables[pool]? with _ | t
  · rfl
  · refine congrArg (Handler.pop 1 _) (funext fun os => congrArg Handler.get (funext fun s => ?_))
    have hmatches : S.apart.matchesHeaptype = S.matchesHeaptype := rfl
    dsimp only
    rw [hmatches]
    rcases S.matchesHeaptype ty nullable inst (os.headD ⟨0, .none⟩) s with err | matched
    · rfl
    · refine congrArg (Handler.push _) ?_
      rw [Handler.moved_ite]
      rfl

/-- An op that is no fused branch. -/
theorem step_apart {code : CompiledFunc} {op : Op} {ip : ℕ} (inst : ℕ) (hone : op.apart = [op])
    (hnext : apartIp code.ops (ip + 1) = apartIp code.ops ip + 1) :
    (S.step code op (ip + 1) inst).Apart code
      (S.apart.step code.apart (op.mapIp (apartIp code.ops)) (apartIp code.ops (ip + 1)) inst) := by
  cases op with
  | plain p =>
    have hplain := (S.plain_placeless p inst).apart hnext
    cases p with
    | select =>
      refine .of_moved id (congrArg (Handler.pop 3 Handler.selectTags) (funext fun os => ?_))
      rcases os with _ | ⟨a, _ | ⟨b, _ | ⟨c, _ | ⟨d, os⟩⟩⟩⟩ <;> rfl
    | _ => first | exact hplain | exact .of_moved id rfl
  | unreachable => exact .of_moved id rfl
  | br t => exact .of_moved (apartIp code.ops) rfl
  | brIf t =>
    refine .of_moved (apartIp code.ops) ?_
    refine congrArg (Handler.pop 1 Handler.scalars) (funext fun os => ?_)
    dsimp only
    rw [Handler.moved_ite]
    rfl
  | brIfNot t =>
    refine .of_moved (apartIp code.ops) ?_
    refine congrArg (Handler.pop 1 Handler.scalars) (funext fun os => ?_)
    dsimp only
    rw [Handler.moved_ite]
    rfl
  | brIfCmp k n t => cases hone
  | brTable base len => exact S.brTable_apart code base len (ip + 1) inst
  | call c => exact S.callOp_apart code inst c (some (ip + 1))
  | returnCall c => exact S.callOp_apart code inst c none
  | brOnNull t =>
    refine .of_moved (apartIp code.ops) ?_
    refine congrArg (Handler.pop 1 Handler.taggedRef) (funext fun os => ?_)
    dsimp only
    rw [Handler.moved_ite]
    rfl
  | brOnNonNull t =>
    refine .of_moved (apartIp code.ops) ?_
    refine congrArg (Handler.pop 1 Handler.taggedRef) (funext fun os => ?_)
    dsimp only
    rw [Handler.moved_ite]
    rfl
  | brOnCast ty pool nullable fail =>
    exact S.brOnCast_apart code ty pool nullable fail (ip + 1) inst
  | throw tag => exact (S.throwTag_placeless tag inst).apart hnext
  | throwRef => exact .of_moved id rfl

/-! ## Handlers of exceptions -/

theorem findRec_apart (f : ℕ → ℕ) (s : σ) (inst thrown : ℕ) (recs : List HandlerRec) :
    S.apart.findRec s inst thrown (recs.map (·.mapIp f))
      = (S.findRec s inst thrown recs).map (Option.map (HandlerRec.mapIp f)) := by
  induction recs with
  | nil => rfl
  | cons r recs ih =>
    rw [List.map_cons]
    unfold Interp.findRec
    have htag : (r.mapIp f).tag = r.tag := rfl
    rw [htag]
    rcases r.tag with _ | idx
    · rfl
    · have hentry : S.apart.tag s inst idx = S.tag s inst idx := rfl
      dsimp only
      rw [hentry]
      rcases S.tag s inst idx with _ | tag
      · rfl
      · dsimp only
        rw [ih]
        split <;> rfl

/-- A span covers a position if and only if the span moved covers the position moved. -/
theorem findClause_apart (ops : List Op) (s : σ) (ip inst thrown : ℕ) (spans : List HandlerSpan) :
    S.apart.findClause s (apartIp ops ip) inst thrown (spans.map (·.mapIp (apartIp ops)))
      = (S.findClause s ip inst thrown spans).map
        (Option.map (HandlerRec.mapIp (apartIp ops))) := by
  have hmono := apartIp_strictMono ops
  induction spans with
  | nil => rfl
  | cons span spans ih =>
    have hcovers : ((span.mapIp (apartIp ops)).startIp ≤ apartIp ops ip
          ∧ apartIp ops ip < (span.mapIp (apartIp ops)).endIp)
        ↔ (span.startIp ≤ ip ∧ ip < span.endIp) :=
      and_congr hmono.le_iff_le hmono.lt_iff_lt
    rw [List.map_cons]
    unfold Interp.findClause
    rw [if_congr hcovers rfl rfl]
    split
    · have hclauses : (span.mapIp (apartIp ops)).clauses
          = span.clauses.map (·.mapIp (apartIp ops)) := rfl
      rw [hclauses, findRec_apart, ih]
      rcases S.findRec s inst thrown span.clauses with err | r
      · rfl
      · rcases r with _ | r <;> rfl
    · exact ih

variable {e : Execution} {f : Frame}

theorem enterExceptionHandler_apart (s : σ) (e : Execution) (hf : e.frames.head? = some f) (exn : ℕ)
    (r : HandlerRec) (floor : ℕ) :
    S.apart.enterExceptionHandler s e.apart exn (r.mapIp (apartIp f.code.ops)) floor
      = ((S.enterExceptionHandler s e exn r floor).1.apart,
        (S.enterExceptionHandler s e exn r floor).2) := by
  have hsave : ∀ e' : Execution, e'.frames = e.frames →
      e'.apart.saveIp (apartIp f.code.ops r.landingIp)
        = (e'.saveIp r.landingIp).map Execution.apart := fun e' he' =>
    e'.saveIp_apart (by rw [he']; exact hf) _
  have hexn : S.apart.exn = S.exn := rfl
  have hargs : (r.mapIp (apartIp f.code.ops)).payloadArgs = r.payloadArgs := rfl
  have href : (r.mapIp (apartIp f.code.ops)).payloadRef = r.payloadRef := rfl
  have hip : (r.mapIp (apartIp f.code.ops)).landingIp = apartIp f.code.ops r.landingIp := rfl
  unfold Interp.enterExceptionHandler
  show (if u32Max < floor + r.restoreHeight then _
    else if e.values.length ≠ e.shadow.length ∨ e.values.length < floor + r.restoreHeight then _
    else _) = _
  dsimp only
  split
  · rfl
  · split
    · rfl
    · rw [hexn, hargs, href, hip]
      rcases (if r.payloadArgs then (S.exn s exn).map Prod.snd else Except.ok []) with err | args
      · rfl
      · dsimp only
        set e2 := (e.truncate (floor + r.restoreHeight)).pushAll (args.map Operand.ofVal) with he2
        have hpushed : (e.apart.truncate
            (floor + (r.mapIp (apartIp f.code.ops)).restoreHeight)).pushAll
              (args.map Operand.ofVal) = e2.apart := rfl
        rw [hpushed]
        by_cases hpay : r.payloadRef = true
        · rw [if_pos hpay, if_pos hpay, e2.push_apart,
            hsave (e2.push (Operand.ofVal (.exnRef (some exn)))) rfl]
          cases (e2.push (Operand.ofVal (.exnRef (some exn)))).saveIp r.landingIp <;> rfl
        · rw [if_neg hpay, if_neg hpay, hsave e2 rfl]
          cases e2.saveIp r.landingIp <;> rfl

/-- The search finds the same handler in the same frame. -/
theorem unwindFrom_apart (s : σ) (exn thrown stopDepth fuel : ℕ) (hf : e.frames.head? = some f)
    (hw : ∀ g ∈ callers e.frames stopDepth, g.Sited) (faultIp : ℕ) :
    S.apart.unwindFrom s exn thrown stopDepth fuel e.apart (apartIp f.code.ops faultIp)
      = ((S.unwindFrom s exn thrown stopDepth fuel e faultIp).1.apart,
        (S.unwindFrom s exn thrown stopDepth fuel e faultIp).2) := by
  induction fuel generalizing e f faultIp with
  | zero => rfl
  | succ fuel ih =>
    obtain ⟨values, shadow, frames, depth⟩ := e
    rcases frames with _ | ⟨g, fs⟩
    · cases hf
    obtain rfl := Option.some.inj hf
    rw [Interp.unwindFrom_cons]
    show S.apart.unwindFrom s exn thrown stopDepth (fuel + 1)
      ⟨values, shadow, g.apart :: fs.map Frame.apart, depth⟩ _ = _
    rw [Interp.unwindFrom_cons, List.length_map]
    split
    · rfl
    · have hclause : S.apart.findClause s (apartIp g.code.ops faultIp) g.apart.inst thrown
            g.apart.code.handlers
          = (S.findClause s faultIp g.inst thrown g.code.handlers).map
            (Option.map (HandlerRec.mapIp (apartIp g.code.ops))) :=
        S.findClause_apart g.code.ops s faultIp g.inst thrown g.code.handlers
      rw [hclause]
      rcases S.findClause s faultIp g.inst thrown g.code.handlers with err | _ | r
      · rfl
      · show (if values.length ≠ shadow.length ∨ values.length < g.localsBase then _ else _) = _
        dsimp only
        split
        · rfl
        · split
          · rfl
          · rcases fs with _ | ⟨caller, fs⟩
            · rfl
            · have hcallers : callers (g :: caller :: fs) stopDepth
                  = caller :: callers (caller :: fs) stopDepth := by
                have hlen : (caller :: fs).length = fs.length + 1 := rfl
                exact callers_cons (by omega)
              have hcaller := hw caller (hcallers ▸ List.mem_cons_self)
              have hzero : apartIp caller.code.ops caller.ip = 0 ↔ caller.ip = 0 := by
                rw [← (apartIp_strictMono caller.code.ops).injective.eq_iff (a := caller.ip),
                  apartIp_zero]
              show (if apartIp caller.code.ops caller.ip = 0 then _ else _) = _
              rw [if_congr hzero rfl rfl]
              dsimp only
              split
              · rfl
              · rename_i hne
                have hip : apartIp caller.code.ops caller.ip - 1
                    = apartIp caller.code.ops (caller.ip - 1) := by
                  rw [hcaller hne, Nat.add_sub_cancel]
                show S.apart.unwindFrom s exn thrown stopDepth fuel
                  (Execution.apart ⟨values.take g.localsBase, shadow.take g.localsBase,
                    caller :: fs,
                    depth⟩) (apartIp caller.code.ops caller.ip - 1) = _
                rw [hip]
                have hrest : ∀ g ∈ callers (caller :: fs) stopDepth, g.Sited := fun g hg =>
                  hw g (hcallers ▸ List.mem_cons_of_mem caller hg)
                exact ih (e := ⟨values.take g.localsBase, shadow.take g.localsBase, caller :: fs,
                  depth⟩) rfl hrest (caller.ip - 1)
      · exact S.enterExceptionHandler_apart s
          ⟨values, shadow, g :: fs, depth⟩ rfl exn r g.operandBase

theorem unwind_apart (s : σ) {stopDepth : ℕ} (hf : e.frames.head? = some f)
    (hw : ∀ g ∈ callers e.frames stopDepth, g.Sited) (err : ExecError) (faultIp : ℕ) :
    S.apart.unwind s e.apart err (apartIp f.code.ops faultIp) stopDepth
      = ((S.unwind s e err faultIp stopDepth).1.apart, (S.unwind s e err faultIp stopDepth).2) := by
  unfold Interp.unwind
  split
  · rename_i exn
    have hexn : S.apart.exn = S.exn := rfl
    rw [hexn]
    rcases S.exn s exn with err | ⟨thrown, args⟩
    · rfl
    · dsimp only
      rw [e.apart_frames_length]
      exact S.unwindFrom_apart s exn thrown stopDepth _ hf hw faultIp
  · rfl

/-! ## A turn of the loop -/

theorem reload_apart (e : Execution) : Interp.reload e.apart = (Interp.reload e).apart := by
  unfold Interp.reload
  rw [e.top_apart]
  cases e.top <;> rfl

theorem suspend_apart (hf : e.frames.head? = some f) (ip : ℕ) (o : RunOutcome) :
    Interp.suspend e.apart (apartIp f.code.ops ip) o
      = ((Interp.suspend e ip o).1.apart, (Interp.suspend e ip o).2.apart) := by
  unfold Interp.suspend
  rw [e.saveIp_apart hf]
  cases e.saveIp ip <;> rfl

theorem enterCallee_apart (e : Execution) (code : CompiledFunc) (req : CallReq) (countdown : ℕ) :
    S.apart.enterCallee e.apart (req.apart code) countdown
      = ((S.enterCallee e req countdown).1.apart, (S.enterCallee e req countdown).2.1,
        (S.enterCallee e req countdown).2.2.apart) := by
  unfold Interp.enterCallee
  have hpush : e.apart.pushCall (req.apart code).inst (req.apart code).funcIndex
      (req.apart code).code = (e.pushCall req.inst req.funcIndex req.code).map Execution.apart :=
    e.pushCall_apart _ _ _
  rw [hpush]
  cases e.pushCall req.inst req.funcIndex req.code with
  | error err => rfl
  | ok e' =>
    dsimp only [Except.map]
    rw [e'.top_apart]
    cases e'.top with
    | error err => rfl
    | ok r =>
      show (if S.gcWatch then _ else _) = _
      dsimp only
      split
      · split <;> rfl
      · rfl

theorem startHostCall_apart (st : StoreState σ) (e : Execution) (func : ℕ) :
    S.apart.startHostCall st e.apart func
      = ((S.startHostCall st e func).1, (S.startHostCall st e func).2.1.apart,
        (S.startHostCall st e func).2.2.apart) := by
  have hsig : S.apart.hostSig = S.hostSig := rfl
  unfold Interp.startHostCall Interp.prepareHostCall
  dsimp only
  rw [e.popN_apart, hsig]
  cases e.popN (S.hostSig st.rest func).params.length
      (Interp.paramTags (S.hostSig st.rest func).params) with
  | error err => rfl
  | ok p => rfl

theorem carryOut_apart (st : StoreState σ) {r : Regs} (hf : e.frames.head? = some f)
    (hcode : f.code = r.code) (stopDepth k : ℕ) (out : StepOutcome) :
    S.apart.carryOut st e.apart r.apart stopDepth k (out.apart r.code)
      = ((S.carryOut st e r stopDepth k out).1, (S.carryOut st e r stopDepth k out).2.1.apart,
        (S.carryOut st e r stopDepth k out).2.2.1,
          (S.carryOut st e r stopDepth k out).2.2.2.apart) := by
  have hsuspend : ∀ (ip : ℕ) (o : RunOutcome), Interp.suspend e.apart (apartIp r.code.ops ip) o
      = ((Interp.suspend e ip o).1.apart, (Interp.suspend e ip o).2.apart) := fun ip o =>
    hcode ▸ suspend_apart hf ip o
  have hsave : ∀ ip, e.apart.saveIp (apartIp r.code.ops ip) = (e.saveIp ip).map Execution.apart :=
    fun ip => hcode ▸ e.saveIp_apart hf ip
  cases out with
  | advance next => rfl
  | doCall req =>
    unfold Interp.carryOut
    have hsize : S.apart.frameSize = S.frameSize := rfl
    have hmax : S.apart.maxWasmStack = S.maxWasmStack := rfl
    have hreturn : (req.apart r.code).returnIp = apartIp r.code.ops req.returnIp := rfl
    dsimp only [StepOutcome.apart]
    rw [hsize, hmax, hreturn, e.stackBytes_apart, hsave]
    rcases e.stackBytes S.frameSize with err | bytes
    · rfl
    · dsimp only
      split
      · rfl
      · rcases e.saveIp req.returnIp with _ | e'
        · rfl
        · exact congrArg (Prod.mk st) (S.enterCallee_apart e' r.code req k)
  | doTailCall req =>
    unfold Interp.carryOut
    have hparams : (req.apart r.code).code.nParams = req.code.nParams := rfl
    dsimp only [StepOutcome.apart]
    rw [hparams, e.doReturn_apart]
    rcases e.doReturn req.code.nParams stopDepth true with err | ⟨e', finished⟩
    · rfl
    · exact congrArg (Prod.mk st) (S.enterCallee_apart e' r.code req k)
  | doHostCall func inst returnIp =>
    unfold Interp.carryOut
    dsimp only [StepOutcome.apart]
    rw [hsave]
    rcases e.saveIp returnIp with _ | e'
    · rfl
    · dsimp only [Option.map_some]
      rw [S.startHostCall_apart]
  | doTailHostCall func inst nParams =>
    unfold Interp.carryOut
    dsimp only [StepOutcome.apart]
    rw [e.doReturn_apart]
    rcases e.doReturn nParams stopDepth true with err | ⟨e', finished⟩
    · rfl
    · dsimp only [Except.map]
      rw [S.startHostCall_apart]
  | doHostAsyncCall func inst returnIp =>
    unfold Interp.carryOut
    dsimp only [StepOutcome.apart]
    rw [hsuspend]
  | doTailHostAsyncCall func inst nParams =>
    unfold Interp.carryOut
    dsimp only [StepOutcome.apart]
    rw [e.doReturn_apart]
    rcases e.doReturn nParams stopDepth true with err | ⟨e', finished⟩
    · rfl
    · rfl
  | doGrow memory delta returnIp =>
    unfold Interp.carryOut
    dsimp only [StepOutcome.apart]
    rw [hsuspend]
  | doTableGrow table delta init returnIp =>
    unfold Interp.carryOut
    dsimp only [StepOutcome.apart]
    rw [hsuspend]
  | doGcGrow target bytes returnIp =>
    unfold Interp.carryOut
    dsimp only [StepOutcome.apart]
    rw [hsuspend]

end Straight

end SubmilliWasm
