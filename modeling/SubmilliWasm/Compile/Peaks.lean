/-
# What a translation records of the heights

`max_operands` of a function is raised by `push` alone, and a landing pad is compiled at the height
its clause restores with the payload above it (`src/module/compile/mod.rs`).  `Body.recorded` tells
both from the body: the greatest height an operator reached by its flow pushes to, and the height at
each landing pad.  A translation records exactly that (`translateFunction_recorded`).
-/
import SubmilliWasm.Compile.Heights

namespace SubmilliWasm

/-- The greatest height pushed to, and the heights at the landing pads of each `try_table`, in the
order in which the `try_table`s end. -/
@[ext]
structure Recorded where
  peak : ℕ
  pads : List (List ℕ)
  deriving DecidableEq, Repr

namespace Recorded

/-- What records nothing. -/
def none : Recorded := ⟨0, []⟩

/-- A push to the height `h`. -/
def push (h : ℕ) : Recorded := ⟨h, []⟩

instance : Append Recorded := ⟨fun r s => ⟨max r.peak s.peak, r.pads ++ s.pads⟩⟩

@[simp] theorem append_peak (r s : Recorded) : (r ++ s).peak = max r.peak s.peak := rfl

@[simp] theorem append_pads (r s : Recorded) : (r ++ s).pads = r.pads ++ s.pads := rfl

@[simp] theorem none_append (r : Recorded) : none ++ r = r := by
  ext1
  · exact Nat.zero_max r.peak
  · rfl

@[simp] theorem append_none (r : Recorded) : r ++ none = r := by
  ext1
  · exact Nat.max_zero r.peak
  · exact List.append_nil r.pads

theorem append_assoc (r s t : Recorded) : r ++ s ++ t = r ++ (s ++ t) := by
  ext1
  · exact Nat.max_assoc r.peak s.peak t.peak
  · exact List.append_assoc r.pads s.pads t.pads

end Recorded

/-! ## Told from the body -/

/-- What a straight-line operator pushes to, if it pushes. -/
def plainRecorded (ctx : CompileCtx) (p : PlainOp BigMemArg) (h : ℕ) : Recorded :=
  match Translator.effect ctx p with
  | .ok (pops, pushes) => if pushes = 0 then .none else .push (h - pops + pushes)
  | .error _ => .none

/-- `br_on_null` puts its operand back. -/
def CondBr.recorded (h : ℕ) : CondBr → Recorded
  | .brOnNull _ => .push (h - 1 + 1)
  | _ => .none

/-- The height at a landing pad: the parameters of the tag and the exception reference lie on the
operands below the `try_table`. -/
def Catch.landing (ctx : CompileCtx) (base : ℕ) (c : Catch) : ℕ :=
  base + Translator.payloadCount ctx (convCatch c)

/-- The landing pads of a region. -/
def Region.recorded (ctx : CompileCtx) (base : ℕ) : Region → Recorded
  | .tryTable catches => ⟨0, [catches.map (Catch.landing ctx base)]⟩
  | _ => .none

/-- What is recorded of the operators the flow reaches. -/
def Body.recorded (ctx : CompileCtx) : Body → Bool → ℕ → Recorded
  | .done, _, _ => .none
  | .plain p k, live, h =>
    (if live then plainRecorded ctx p h else .none) ++
      k.recorded ctx live (if live then plainAfter ctx p h else h)
  | .region r bt b k, live, h =>
    let (ps, rs) := Translator.blockArity ctx bt
    let i := b.flow ctx live h
    b.recorded ctx live h ++ (if live then r.recorded ctx (h - ps) else .none) ++
      k.recorded ctx (if r = .loop then i.live else i.live || decide (0 ∈ i.exits)) (h - ps + rs)
  | .ifElse bt t e k, live, h =>
    let (ps, rs) := Translator.blockArity ctx bt
    let h := if live then h - 1 else h
    let i := t.flow ctx live h
    let j := e.flow ctx live h
    t.recorded ctx live h ++ e.recorded ctx live h ++
      k.recorded ctx (j.live || (i.live || decide (0 ∈ i.exits ++ j.exits))) (h - ps + rs)
  | .ifThen bt t k, live, h =>
    let (ps, rs) := Translator.blockArity ctx bt
    let h := if live then h - 1 else h
    let i := t.flow ctx live h
    t.recorded ctx live h ++ k.recorded ctx (i.live || decide (0 ∈ i.exits) || live) (h - ps + rs)
  | .jump _ _, _, _ => .none
  | .cond c k, live, h =>
    (if live then c.recorded h else .none) ++ k.recorded ctx live (if live then c.after h else h)
  | .call c k, live, h =>
    let after := h - Translator.callPops ctx c + (Translator.callSig ctx c).2.length
    (if live then .push after else .none) ++ k.recorded ctx live (if live then after else h)

/-- Nothing is recorded of unreachable code. -/
theorem Body.recorded_dead (ctx : CompileCtx) (b : Body) (h : ℕ) :
    b.recorded ctx false h = .none := by
  induction b generalizing h with
  | done | jump j k => rfl
  | plain p k ih | call c k ih | cond c k ih => simp [Body.recorded, ih]
  | region r bt b k ihb ihk => simp [Body.recorded, Body.flow_dead, ihb, ihk]
  | ifElse bt t e k iht ihe ihk => simp [Body.recorded, Body.flow_dead, iht, ihe, ihk]
  | ifThen bt t k iht ihk => simp [Body.recorded, Body.flow_dead, iht, ihk]

/-- An operator climbs to where it pushes, or not at all. -/
theorem plainAfter_le (ctx : CompileCtx) (p : PlainOp BigMemArg) (h : ℕ) :
    plainAfter ctx p h ≤ max h (plainRecorded ctx p h).peak := by
  unfold plainAfter plainRecorded
  rcases Translator.effect ctx p with e | ⟨pops, pushes⟩
  · exact le_max_left _ _
  · show h - pops + pushes ≤ max h (if pushes = 0 then .none else .push _ : Recorded).peak
    split
    · exact le_max_of_le_left (by omega)
    · exact le_max_right _ _

/-! ## Told from the translator -/

/-- The operands a clause pushes: the tag's parameters and the exception reference. -/
def HandlerRec.payload (ctx : CompileCtx) (r : HandlerRec) : ℕ :=
  (if r.payloadArgs then (ctx.tagParams (r.tag.getD 0)).length else 0) + r.payloadRef.toNat

/-- The heights at the landing pads of a `try_table`. -/
def HandlerSpan.landings (ctx : CompileCtx) (span : HandlerSpan) : List ℕ :=
  span.clauses.map fun r => r.restoreHeight + r.payload ctx

/-- What the translator has recorded. -/
def Translator.recorded (ctx : CompileCtx) (t : Translator) : Recorded :=
  ⟨t.maxOperands, t.handlers.map (HandlerSpan.landings ctx)⟩

/-- What a compiled function records. -/
def CompiledFunc.recorded (ctx : CompileCtx) (C : CompiledFunc) : Recorded :=
  ⟨C.maxOperands, C.handlers.map (HandlerSpan.landings ctx)⟩

/-- What is recorded does not depend on the other fields. -/
theorem Translator.recorded_congr {ctx : CompileCtx} {t t' : Translator}
    (hm : t'.maxOperands = t.maxOperands) (hh : t'.handlers = t.handlers) :
    t'.recorded ctx = t.recorded ctx := by
  unfold Translator.recorded
  rw [hm, hh]

end SubmilliWasm
