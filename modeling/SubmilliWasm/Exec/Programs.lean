/-
# Compiled programs and their runs

A program gives every function its source and its compiled code, and says of the handlers of an
interpreter what the types of the functions promise: an op takes the operands of its type, a callee
has the type it is called at, a live exception holds the arguments of its tag.

`Matches` relates a run of the nested source to a run of the flat loop.  The frames are those of the
activations, the operands lie one behind the other, and every frame stands where the rest of its
activation's body is in the code.
-/
import SubmilliWasm.Exec.Landing
import SubmilliWasm.Compile.Total
import SubmilliWasm.Exec.FusedRuns

namespace SubmilliWasm

open Nested

variable {σ : Type}

/-! ## Functions and programs -/

/-- A validated function with the code the compile pass makes of it. -/
structure Translated extends SourceFunc where
  used : ℕ
  code : CompiledFunc
  typed : module.ValidBody typeIdx toSourceFunc.localTypes body
  translated : translateFunction module.ctx used typeIdx declared body.operators = .ok code

namespace Translated

variable (fn : Translated)

/-- The parameters and the declared locals. -/
def locals : List IrVal := fn.params ++ fn.localTypes

theorem code_arity : fn.code.nParams = fn.params.length ∧ fn.code.nResults = fn.results.length ∧
    fn.code.localTypes = fn.localTypes := by
  have h := fn.translated
  unfold translateFunction at h
  obtain ⟨tys, htys, h⟩ := Fallible.bind_ok h
  obtain ⟨t, -, h⟩ := Fallible.bind_ok h
  have hlocals := expandLocals_lands fn.module.ctx fn.used fn.declared
  rw [htys] at hlocals
  split at h
  · cases h
  · rw [← Except.ok.inj h]
    exact ⟨rfl, rfl, hlocals⟩

end Translated

/-- A raised exception: the op asks for room, with its operands in place, or it ends in an error. -/
def StepOutcome.Retries (ins : ℕ) : StepOutcome → ℕ → Prop
  | .doGcGrow .., n => n = ins
  | _, _ => False

/-- The functions an interpreter runs, by instance and index, with what their types promise. -/
structure Program (D : Denoted σ) where
  fn : ℕ → ℕ → Translated
  /-- A straight-line op takes the operands of its type. -/
  den_takes : ∀ inst idx {p ins outs},
    (fn inst idx).module.PlainTyped (fn inst idx).locals p ins outs →
    (D.den p inst).Takes (fn inst idx).locals.length (StepOutcome.Ends ins.length outs.length)
      ins.length
  den_relop : ∀ kind inst, D.den (.relop kind) inst = .relop kind 0
  /-- `throw` takes the parameters of its tag. -/
  raiser_takes : ∀ inst idx {tag}, tag < (fn inst idx).module.ctx.tagTypes.length →
    (D.raiser tag inst).Takes (fn inst idx).locals.length
      (StepOutcome.Retries ((fn inst idx).module.ctx.tagParams tag).length)
      ((fn inst idx).module.ctx.tagParams tag).length
  /-- A callee has the type it is called at, and runs the code of its function. -/
  callee_wasm : ∀ inst idx {c o s inst' idx' code}, (fn inst idx).module.CallOk c →
    D.callee c inst o s = .ok (.wasm inst' idx' code) → code = (fn inst' idx').code ∧
      (fn inst' idx').params.length = (Translator.callSig (fn inst idx).module.ctx c).1.length ∧
      (fn inst' idx').results.length = (Translator.callSig (fn inst idx).module.ctx c).2.length
  callee_host : ∀ inst idx {c o s func}, (fn inst idx).module.CallOk c →
    (D.callee c inst o s = .ok (.host func) ∨ D.callee c inst o s = .ok (.hostAsync func)) →
      (D.hostSig s func).params.length
        = (Translator.callSig (fn inst idx).module.ctx c).1.length ∧
      (D.hostSig s func).results.length
        = (Translator.callSig (fn inst idx).module.ctx c).2.length
  /-- A live exception holds the arguments of its tag. -/
  exn_args : ∀ inst idx {s exn thrown args}, D.exn s exn = .ok (thrown, args) →
    D.ArgsOk (fn inst idx).module s inst thrown args
  /-- The results of a host function are counted. -/
  results_match : ∀ s vs tys, D.valuesMatch s vs tys = .ok () → vs.length = tys.length

namespace Program

variable {D : Denoted σ} (P : Program D)

/-- The functions as the source has them. -/
def source (inst idx : ℕ) : SourceFunc := (P.fn inst idx).toSourceFunc

/-- The function of an activation. -/
def of (a : Activation) : Translated := P.fn a.inst a.funcIndex

end Program

/-! ## The flat loop -/

namespace Denoted

variable (D : Denoted σ)

/-- A turn of the flat loop; the running frame's code has its own pool of immediates. -/
def follow (stopDepth : ℕ) (t : Turned σ) : Turned σ :=
  match t.next with
  | .loop r | .poll r => (D.interp r.code).follow stopDepth t
  | _ => t

/-- A call from the host. -/
def entered (st : StoreState σ) (e : Execution) (inst funcIndex : ℕ) (code : CompiledFunc)
    (args : List Val) : Turned σ := (D.interp code).entered st e inst funcIndex code args

/-- A turn on an op: there are no gates. -/
theorem follow_loop {st : StoreState σ} {e : Execution} {k : ℕ} {r : Regs} {mark : Mark}
    {op : Op} (hop : r.code.ops[r.ip]? = some op) (stopDepth : ℕ) :
    D.follow stopDepth ⟨st, e, k, .loop r, mark⟩
      = (D.interp r.code).execute st e r stopDepth k op := by
  show (D.interp r.code).turn st e r stopDepth k = _
  unfold Interp.turn
  rw [hop]
  rfl

theorem follow_poll {st : StoreState σ} {e : Execution} {k : ℕ} {r : Regs} {mark : Mark}
    (stopDepth : ℕ) :
    D.follow stopDepth ⟨st, e, k, .poll r, mark⟩
      = match D.serviceGcPressure st e with
        | (st, .error err) => ⟨st, e, k, .leave (.error err), .silent⟩
        | (st, .ok ()) => ⟨st, e, k, .loop r, .silent⟩ := rfl

end Denoted

/-! ## Frames and activations -/

section Frames

variable {D : Denoted σ} (P : Program D)

/-- The frame of an activation whose locals begin at `below`. -/
structure Frame.Holds (f : Frame) (a : Activation) (below : ℕ) : Prop where
  code : f.code = (P.of a).code
  inst : f.inst = a.inst
  localsBase : f.localsBase = below
  operandBase : f.operandBase = below + a.locals.length
  delimiter : f.delimiter = none
  bound : f.operandBase ≤ u32Max

/-- An activation stands at an ip, with `owed` operands to come. -/
structure Activation.At (a : Activation) (cmp : Option CmpKind) (ip owed : ℕ) : Prop where
  locals : a.locals.length = (P.of a).locals.length
  stand : Standing (P.of a).code (P.of a).module (P.of a).locals
    (P.of a).results a.scopes a.vals cmp
    a.body ip owed

/-- The spans around an activation are those that cover the ip. -/
def Activation.Covered (a : Activation) (ip : ℕ) : Prop :=
  ∃ S, Opened (P.of a).code (P.of a).module (P.of a).locals (P.of a).results a.scopes S ∧
    (P.of a).code.handlers.filter (·.covers ip) = S.spans

/-- The activations that wait for a callee, over the frames `fs₀` of the embedder: each goes on
behind its call, the innermost with `owed` operands. -/
inductive Waiting (base : List Operand) (fs₀ : List Frame) :
    ℕ → List Activation → List Frame → Prop where
  | nil {owed} : Waiting base fs₀ owed [] fs₀
  | cons {owed a as f fs} (hf : f.Holds P a (operandsOf base as).length)
      (hat : a.At P none f.ip owed) (hpos : 0 < f.ip) (hcover : a.Covered P (f.ip - 1))
      (hw : Waiting base fs₀ (P.of a).results.length as fs) :
      Waiting base fs₀ owed (a :: as) (f :: fs)

/-- As `Waiting`, but the innermost activation may run its op again. -/
inductive Resumable (base : List Operand) (fs₀ : List Frame) (owed : ℕ) :
    List Activation → List Frame → Prop where
  | nil : Resumable base fs₀ owed [] fs₀
  | cons {a as f fs} (hf : f.Holds P a (operandsOf base as).length)
      (hat : a.At P none f.ip owed) (hw : Waiting P base fs₀ (P.of a).results.length as fs) :
      Resumable base fs₀ owed (a :: as) (f :: fs)

/-- The operands of the innermost construct in the flat loop: where a comparison has been taken in
by the op behind it, its two operands are still there. -/
def Shown (vals os : List Operand) : Option CmpKind → Prop
  | none => os = vals
  | some kind => ∃ vs a b, vals = vs ++ [Handler.boolCell
      (i32Relop kind a.cell.unwrapI32 b.cell.unwrapI32)] ∧ os = vs ++ [a, b] ∧
      Handler.scalars [a, b] = none

/-- The embedder's frames end below its operands. -/
def Based (base : List Operand) (fs₀ : List Frame) : Prop :=
  ∃ d ds, fs₀ = d :: ds ∧ d.operandBase ≤ base.length

/-- The running activation stands on its frame, over those that wait for it. -/
structure Running (base : List Operand) (fs₀ : List Frame) (a : Activation) (as : List Activation)
    (f : Frame) (fs : List Frame) : Prop where
  based : Based base fs₀
  holds : f.Holds P a (operandsOf base as).length
  locals : a.locals.length = (P.of a).locals.length
  waiting : Waiting P base fs₀ (P.of a).results.length as fs

/-- The arguments a request hands over, and the operands it owes. -/
def RunOutcome.Asks : RunOutcome → List Operand → ℕ → Prop
  | .hostAsync .., _, _ => True
  | .grow .., args, owed | .tableGrow .., args, owed => args = [] ∧ owed = 1
  | .gcGrow .., args, owed => args = [] ∧ owed = 0
  | _, _, _ => False

/-- **The two runs match.** -/
inductive Matches (fs₀ : List Frame) : Machine σ → Turned σ → Prop where
  | run {st k base depth a as f fs c ip os mark} (hr : Running P base fs₀ a as f fs)
      (hat : a.At P c ip 0) (hshown : Shown a.vals os c) :
      Matches fs₀ ⟨st, k, base, fs₀.length, depth, a :: as, .run⟩
        ⟨st, .stacked (f :: fs) depth (operandsOf base as ++ a.locals ++ flat a.scopes os), k,
          .loop ⟨f.code, ip, f.localsBase, f.inst⟩, mark⟩
  | poll {st k base depth a as f fs ip mark} (hr : Running P base fs₀ a as f fs)
      (hat : a.At P none ip 0) :
      Matches fs₀ ⟨st, k, base, fs₀.length, depth, a :: as, .poll⟩
        ⟨st, .stacked (f :: fs) depth (operandsOf base (a :: as)), k,
          .poll ⟨f.code, ip, f.localsBase, f.inst⟩, mark⟩
  | callback {st k base depth acts frames call mark} (hbase : Based base fs₀)
      (hw : Waiting P base fs₀ call.sig.results.length acts frames) :
      Matches fs₀ ⟨st, k, base, fs₀.length, depth, acts, .callback call⟩
        ⟨st, .stacked frames depth (operandsOf base acts), k, .callback call, mark⟩
  | suspended {st k base depth acts frames o args owed mark} (hbase : Based base fs₀)
      (hasks : o.Asks args owed) (hp : Resumable P base fs₀ owed acts frames) :
      Matches fs₀ ⟨st, k, base, fs₀.length, depth, acts, .suspended o args owed⟩
        ⟨st, .stacked frames depth (operandsOf base acts ++ args), k, .leave (.ok o), mark⟩
  | finished {st k base depth mark} :
      Matches fs₀ ⟨st, k, base, fs₀.length, depth, [], .finished⟩
        ⟨st, .stacked fs₀ depth base, k, .leave (.ok .finished), mark⟩
  | failed {st k base depth acts e err mark} :
      Matches fs₀ ⟨st, k, base, fs₀.length, depth, acts, .failed err⟩
        ⟨st, e, k, .leave (.error err), mark⟩

end Frames

section Lists

variable {D : Denoted σ} {P : Program D} {base : List Operand} {fs₀ : List Frame}

variable {as : List Activation} {fs : List Frame} {owed : ℕ}

theorem Waiting.length (h : Waiting P base fs₀ owed as fs) :
    fs.length = as.length + fs₀.length := by
  induction h with
  | nil => simp
  | cons hf hat hpos hcover hw ih =>
    simp only [List.length_cons, ih]
    omega

theorem Waiting.parked (h : Waiting P base fs₀ owed as fs) : Resumable P base fs₀ owed as fs := by
  cases h with
  | nil => exact .nil
  | cons hf hat hpos hcover hw => exact .cons hf hat hw

theorem Waiting.floor (hbase : Based base fs₀) (h : Waiting P base fs₀ owed as fs) :
    ∃ g gs, fs = g :: gs ∧ g.operandBase ≤ (operandsOf base as).length := by
  cases h with
  | nil => exact hbase
  | @cons _ a as f fs hf hat hpos hcover hw =>
    refine ⟨f, fs, rfl, ?_⟩
    rw [hf.operandBase, operandsOf, List.length_append, List.length_append]
    omega

namespace Running

variable {a : Activation} {as : List Activation} {f : Frame} {fs : List Frame}
  (hr : Running P base fs₀ a as f fs)

include hr

/-- What the activation does to its operands, its constructs and the rest of its body. -/
theorem update (a' : Activation) (hinst : a'.inst = a.inst) (hidx : a'.funcIndex = a.funcIndex)
    (hlocals : a'.locals.length = a.locals.length) : Running P base fs₀ a' as f fs := by
  have hof : P.of a' = P.of a := by rw [Program.of, hinst, hidx, Program.of]
  exact ⟨hr.based, ⟨hof ▸ hr.holds.code, hr.holds.inst.trans hinst.symm, hr.holds.localsBase,
    hlocals ▸ hr.holds.operandBase, hr.holds.delimiter, hr.holds.bound⟩,
    hof ▸ hlocals.trans hr.locals, hof ▸ hr.waiting⟩

/-- Its frame keeps another ip. -/
theorem saved (ip : ℕ) : Running P base fs₀ a as { f with ip := ip } fs :=
  ⟨hr.based, ⟨hr.holds.code, hr.holds.inst, hr.holds.localsBase, hr.holds.operandBase,
    hr.holds.delimiter, hr.holds.bound⟩, hr.locals, hr.waiting⟩

theorem op {ip : ℕ} {op : Op} (hop : (P.of a).code.ops[ip]? = some op) :
    (Regs.mk f.code ip f.localsBase f.inst).code.ops[ip]? = some op := by
  show f.code.ops[ip]? = _
  rw [hr.holds.code]
  exact hop

theorem floor : f.operandBase = (operandsOf base as ++ a.locals).length := by
  rw [hr.holds.operandBase, List.length_append]

end Running

end Lists

end SubmilliWasm
