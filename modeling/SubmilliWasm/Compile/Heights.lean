/-
# What the translator tracks

`Body.flow` computes, on the structure of a body, what the translator carries along its
operators: whether the point is reachable, the operand height, and which labels reachable
branches have named.  It also answers the one question on which a validated body can fail
to compile: a block, loop, `if` or `try_table` in unreachable code still takes the height
below its parameters, and there the height is what the terminator left behind.

`visitAll_dead` says that the translator follows `flow` through unreachable code, where it
emits nothing and can only latch an error; `Grown` says how the control frames collect the
branches of reachable code.
-/
import SubmilliWasm.Compile.Structured

namespace SubmilliWasm

/-! ## The flow of a body -/

/-- What is known at the end of a sequence: `exits` are the labels named by its reachable
branches, and `fits` says that no unreachable construct outgrew the height. -/
structure Flow where
  live : Bool
  height : ℕ
  exits : List ℕ
  fits : Bool
  deriving DecidableEq, Repr

/-- The labels of an inner sequence, seen from outside its block. -/
def outerLabels (exits : List ℕ) : List ℕ := (exits.filter (0 < ·)).map (· - 1)

theorem mem_outerLabels {exits : List ℕ} {l : ℕ} : l ∈ outerLabels exits ↔ l + 1 ∈ exits := by
  unfold outerLabels
  rw [List.mem_map]
  constructor
  · rintro ⟨m, hm, rfl⟩
    rw [List.mem_filter] at hm
    have hpos : 0 < m := of_decide_eq_true hm.2
    have : m - 1 + 1 = m := by omega
    rw [this]
    exact hm.1
  · intro h
    refine ⟨l + 1, ?_, by omega⟩
    rw [List.mem_filter]
    exact ⟨h, decide_eq_true (Nat.succ_pos l)⟩

theorem outerLabels_append (e e' : List ℕ) :
    outerLabels (e ++ e') = outerLabels e ++ outerLabels e' := by
  unfold outerLabels
  rw [List.filter_append, List.map_append]

/-- The operands an unconditional branch pops at compile time. -/
def Jump.pops (ctx : CompileCtx) : Jump → ℕ
  | .brTable _ _ => 1
  | .returnCall c => Translator.callPops ctx c
  | _ => 0

/-- The height after a conditional branch that falls through. -/
def CondBr.after (h : ℕ) : CondBr → ℕ
  | .brIf _ => h - 1
  | .brOnNull _ => h - 1 + 1
  | .brOnNonNull _ => h - 1
  | .brOnCast _ _ _ _ => h

/-- The height after a straight-line operator. -/
def plainAfter (ctx : CompileCtx) (p : PlainOp BigMemArg) (h : ℕ) : ℕ :=
  match Translator.effect ctx p with
  | .ok (pops, pushes) => h - pops + pushes
  | .error _ => h

/-- Put a construct in front of the flow of the sequence behind it. -/
def Flow.after (n : Flow) (exits : List ℕ) (fits : Bool) : Flow :=
  ⟨n.live, n.height, exits ++ n.exits, fits && n.fits⟩

/-- The flow of a sequence entered at height `h`. -/
def Body.flow (ctx : CompileCtx) : Body → Bool → ℕ → Flow
  | .done, live, h => ⟨live, h, [], true⟩
  | .plain p k, live, h => k.flow ctx live (if live then plainAfter ctx p h else h)
  | .region r bt b k, live, h =>
    let (ps, rs) := Translator.blockArity ctx bt
    let i := b.flow ctx live h
    let after := if r = .loop then i.live else i.live || decide (0 ∈ i.exits)
    (k.flow ctx after (h - ps + rs)).after
      (outerLabels i.exits ++ if live then r.padLabels else [])
      (decide (live ∨ ps ≤ h) && i.fits)
  | .ifElse bt t e k, live, h =>
    let (ps, rs) := Translator.blockArity ctx bt
    let h := if live then h - 1 else h
    let i := t.flow ctx live h
    let j := e.flow ctx live h
    let after := j.live || (i.live || decide (0 ∈ i.exits ++ j.exits))
    (k.flow ctx after (h - ps + rs)).after (outerLabels (i.exits ++ j.exits))
      (decide (live ∨ ps ≤ h) && i.fits && j.fits)
  | .ifThen bt t k, live, h =>
    let (ps, rs) := Translator.blockArity ctx bt
    let h := if live then h - 1 else h
    let i := t.flow ctx live h
    let after := i.live || decide (0 ∈ i.exits) || live
    (k.flow ctx after (h - ps + rs)).after (outerLabels i.exits)
      (decide (live ∨ ps ≤ h) && i.fits)
  | .jump j k, live, h =>
    (k.flow ctx false (if live then h - j.pops ctx else h)).after
      (if live then j.labels else []) true
  | .cond c k, live, h =>
    (k.flow ctx live (if live then c.after h else h)).after (if live then [c.label] else []) true
  | .call c k, live, h =>
    k.flow ctx live (if live then h - Translator.callPops ctx c
      + (Translator.callSig ctx c).2.length else h)

/-- No construct in unreachable code takes more parameters than the height it meets there. -/
def Body.DeadFits (ctx : CompileCtx) (b : Body) : Prop := (b.flow ctx true 0).fits = true

instance (ctx : CompileCtx) (b : Body) : Decidable (b.DeadFits ctx) :=
  inferInstanceAs (Decidable (_ = true))

/-- The operands a sequence can push in all, by which its heights are bounded. -/
def Body.weight (ctx : CompileCtx) : Body → ℕ
  | .done => 0
  | .plain _ k => 1 + k.weight ctx
  | .region _ bt b k => (Translator.blockArity ctx bt).2 + b.weight ctx + k.weight ctx
  | .ifElse bt t e k =>
    (Translator.blockArity ctx bt).2 + t.weight ctx + e.weight ctx + k.weight ctx
  | .ifThen bt t k => (Translator.blockArity ctx bt).2 + t.weight ctx + k.weight ctx
  | .jump _ k => k.weight ctx
  | .cond _ k => 1 + k.weight ctx
  | .call c k => (Translator.callSig ctx c).2.length + k.weight ctx

/-- A sequence entered unreachable stays so and names no label. -/
theorem Body.flow_dead (ctx : CompileCtx) (b : Body) (h : ℕ) :
    (b.flow ctx false h).live = false ∧ (b.flow ctx false h).exits = [] := by
  induction b generalizing h with
  | done => exact ⟨rfl, rfl⟩
  | plain p k ih => exact ih h
  | call c k ih => exact ih h
  | jump j k ih => simpa [Body.flow, Flow.after] using ih h
  | cond c k ih => simpa [Body.flow, Flow.after] using ih h
  | region r bt b k ihb ihk => simp [Body.flow, Flow.after, ihb, ihk, outerLabels]
  | ifElse bt t e k iht ihe ihk => simp [Body.flow, Flow.after, iht, ihe, ihk, outerLabels]
  | ifThen bt t k iht ihk => simp [Body.flow, Flow.after, iht, ihk, outerLabels]

/-- Neither the labels nor the reachability depend on the height. -/
theorem Body.flow_height (ctx : CompileCtx) (b : Body) (live : Bool) (h h' : ℕ) :
    (b.flow ctx live h).live = (b.flow ctx live h').live
      ∧ (b.flow ctx live h).exits = (b.flow ctx live h').exits := by
  induction b generalizing live h h' with
  | done => exact ⟨rfl, rfl⟩
  | plain p k ih => exact ih _ _ _
  | call c k ih => exact ih _ _ _
  | jump j k ih =>
    obtain ⟨h1, h2⟩ := ih false (if live then h - j.pops ctx else h)
      (if live then h' - j.pops ctx else h')
    exact ⟨h1, congrArg ((if live then j.labels else []) ++ ·) h2⟩
  | cond c k ih =>
    obtain ⟨h1, h2⟩ := ih live (if live then c.after h else h) (if live then c.after h' else h')
    exact ⟨h1, congrArg ((if live then [c.label] else []) ++ ·) h2⟩
  | region r bt b k ihb ihk =>
    obtain ⟨hb1, hb2⟩ := ihb live h h'
    simp only [Body.flow, Flow.after, hb1, hb2]
    exact ⟨(ihk _ _ _).1, congrArg _ (ihk _ _ _).2⟩
  | ifElse bt b e k ihb ihe ihk =>
    obtain ⟨hb1, hb2⟩ := ihb live (if live then h - 1 else h) (if live then h' - 1 else h')
    obtain ⟨he1, he2⟩ := ihe live (if live then h - 1 else h) (if live then h' - 1 else h')
    simp only [Body.flow, Flow.after, hb1, hb2, he1, he2]
    exact ⟨(ihk _ _ _).1, congrArg _ (ihk _ _ _).2⟩
  | ifThen bt b k ihb ihk =>
    obtain ⟨hb1, hb2⟩ := ihb live (if live then h - 1 else h) (if live then h' - 1 else h')
    simp only [Body.flow, Flow.after, hb1, hb2]
    exact ⟨(ihk _ _ _).1, congrArg _ (ihk _ _ _).2⟩

namespace Translator

variable {ctx : CompileCtx}

/-! ## Sequencing -/

theorem visitAll_append (ops ops' : List Operator) (t : Translator) :
    visitAll ctx (ops ++ ops') t = visitAll ctx ops t >>= visitAll ctx ops' := by
  induction ops generalizing t with
  | nil => rfl
  | cons op ops ih =>
    rw [List.cons_append, visitAll, visitAll, bind_assoc]
    congr 1
    funext t'
    exact ih t'

variable {f : CtrlFrame} {t t' : Translator} {ps rs : ℕ}

theorem visitAll_cons_ok {o : Operator} {ops : List Operator} (h : t.visit ctx o = .ok t') :
    visitAll ctx (o :: ops) t = visitAll ctx ops t' := by
  rw [visitAll, h]
  rfl

theorem visitAll_append_ok {ops ops' : List Operator} (h : visitAll ctx ops t = .ok t') :
    visitAll ctx (ops ++ ops') t = visitAll ctx ops' t' := by
  rw [visitAll_append, h]
  rfl

/-! ## Unreachable code -/

/-- What a stretch of unreachable code may change: the height, the latched error and the
fusion mark.  The error follows `f.fits`, and while nothing is latched the height is `f`'s. -/
structure DeadStep (t t' : Translator) (f : Flow) : Prop where
  same : t' = { t with height := t'.height, error := t'.error, fusableCmp := t'.fusableCmp }
  keeps : t.error ≠ none → t'.error ≠ none
  error_iff : t.error = none → (t'.error = none ↔ f.fits = true)
  height_eq : t.error = none → f.fits = true → t'.height = f.height
  fusableCmp : t.fusableCmp = none → t'.fusableCmp = none

theorem latch_error (t : Translator) (text : String) : (t.latch text).error ≠ none := by
  unfold latch
  cases h : t.error with
  | none => simp
  | some e => simp

theorem latch_same (t : Translator) (text : String) :
    t.latch text = { t with error := (t.latch text).error } := rfl

/-- The frame a construct pushes in unreachable code. -/
theorem heightBelow_spec (t : Translator) (n : ℕ) :
    (t.heightBelow n).2 = { t with error := (t.heightBelow n).2.error }
      ∧ (t.error ≠ none → (t.heightBelow n).2.error ≠ none)
      ∧ (t.error = none → ((t.heightBelow n).2.error = none ↔ n ≤ t.height))
      ∧ (n ≤ t.height → (t.heightBelow n).1 = t.height - n) := by
  unfold heightBelow
  by_cases h : n ≤ t.height
  · rw [if_pos h]
    exact ⟨rfl, fun h => h, fun h' => ⟨fun _ => h, fun _ => h'⟩, fun _ => rfl⟩
  · rw [if_neg h]
    exact ⟨latch_same _ _, fun _ => latch_error _ _,
      fun _ => ⟨fun h' => absurd h' (latch_error _ _), fun h' => absurd h' h⟩,
      fun h' => absurd h' h⟩

theorem DeadStep.refl {f : Flow} (hh : f.height = t.height) (hf : f.fits = true) : DeadStep t t f :=
  ⟨rfl, fun h => h, fun h => ⟨fun _ => hf, fun _ => h⟩, fun _ _ => hh.symm, fun h => h⟩

/-- Two stretches in a row; the second starts at the height the first ends with. -/
theorem DeadStep.trans {u : Translator} {f g : Flow} {n : ℕ → Flow} (h : DeadStep t u f)
    (h' : DeadStep u t' (n u.height)) (hg : g.height = (n f.height).height)
    (hfits : g.fits = (f.fits && (n f.height).fits)) : DeadStep t t' g := by
  refine ⟨?_, fun he => h'.keeps (h.keeps he), fun he => ?_, fun he hfit => ?_,
    fun hc => h'.fusableCmp (h.fusableCmp hc)⟩
  · have h1 := h'.same
    rw [h.same] at h1
    exact h1
  · rw [hfits, Bool.and_eq_true]
    by_cases hf : f.fits = true
    · have hu := (h.error_iff he).mpr hf
      rw [h'.error_iff hu, h.height_eq he hf]
      exact ⟨fun h2 => ⟨hf, h2⟩, fun h2 => h2.2⟩
    · have hu : u.error ≠ none := fun h2 => hf ((h.error_iff he).mp h2)
      exact ⟨fun h2 => absurd h2 (h'.keeps hu), fun h2 => absurd h2.1 hf⟩
  · rw [hfits, Bool.and_eq_true] at hfit
    have hu := (h.error_iff he).mpr hfit.1
    rw [hg, ← h.height_eq he hfit.1]
    exact h'.height_eq hu (by rw [h.height_eq he hfit.1]; exact hfit.2)

/-- A frame opened in unreachable code: no branch targets it. -/
structure DeadFrame (f : CtrlFrame) (ps rs : ℕ) : Prop where
  endPatches : f.endPatches = []
  elsePatch : f.elsePatch = none
  reachableOnEntry : f.reachableOnEntry = false
  endTargeted : f.endTargeted = false
  paramCount : f.paramCount = ps
  resultCount : f.resultCount = rs

/-- Opening a block in unreachable code pushes a dead frame and latches an error exactly when
the parameters outgrow the height. -/
structure DeadOpen (t t' : Translator) (f : CtrlFrame) (ps rs : ℕ) : Prop where
  same : t' = { t with ctrl := f :: t.ctrl, error := t'.error, fusableCmp := none }
  frame : DeadFrame f ps rs
  keeps : t.error ≠ none → t'.error ≠ none
  error_iff : t.error = none → (t'.error = none ↔ ps ≤ t.height)
  base : ps ≤ t.height → f.baseHeight = t.height - ps

theorem pushFrame_dead (hr : t.reachable = false) (kind : BlockKind) (clauses : List HandlerClause)
    (ps rs : ℕ) :
    DeadOpen t
      { ({ t with fusableCmp := none }.heightBelow ps).2 with
        ctrl := ⟨kind, ({ t with fusableCmp := none }.heightBelow ps).1, ps, rs,
          ({ t with fusableCmp := none }.heightBelow ps).2.nextIp, [], none,
          ({ t with fusableCmp := none }.heightBelow ps).2.reachable, false, clauses⟩
            :: ({ t with fusableCmp := none }.heightBelow ps).2.ctrl }
      ⟨kind, ({ t with fusableCmp := none }.heightBelow ps).1, ps, rs,
        ({ t with fusableCmp := none }.heightBelow ps).2.nextIp, [], none,
        ({ t with fusableCmp := none }.heightBelow ps).2.reachable, false, clauses⟩ ps rs := by
  obtain ⟨hsame, hkeeps, hiff, hbase⟩ := heightBelow_spec { t with fusableCmp := none } ps
  refine ⟨?_, ⟨rfl, rfl, ?_, rfl, rfl, rfl⟩, hkeeps, hiff, hbase⟩
  · rw [hsame]
  · rw [hsame]
    exact hr

theorem visit_region_dead {t : Translator} (hr : t.reachable = false) (r : Region)
    (bt : BlockType) :
    ∃ t' f, t.visit ctx (r.operator bt) = .ok t' ∧
      DeadOpen t t' f (blockArity ctx bt).1 (blockArity ctx bt).2 := by
  cases r with
  | block => exact ⟨_, _, rfl, pushFrame_dead hr .block [] _ _⟩
  | loop => exact ⟨_, _, rfl, pushFrame_dead hr .loop [] _ _⟩
  | tryTable catches =>
    exact ⟨_, _, rfl, pushFrame_dead hr .tryTable (catches.map convCatch) _ _⟩

theorem visit_if_dead {t : Translator} (hr : t.reachable = false) (bt : BlockType) :
    ∃ t' f, t.visit ctx (.if_ bt) = .ok t' ∧
      DeadOpen t t' f (blockArity ctx bt).1 (blockArity ctx bt).2 := by
  refine ⟨_, _, ?_, pushFrame_dead hr .if_ [] _ _⟩
  have hb : t.ifBranch = (none, t) := by
    unfold ifBranch
    rw [if_neg (by rw [hr]; decide)]
  unfold visit pushIf
  rw [hb]

/-- Closing a dead frame only resets the height. -/
theorem doEnd_dead {rest : List CtrlFrame} (hc : t.ctrl = f :: rest) (hf : DeadFrame f ps rs)
    (hr : t.reachable = false) :
    t.doEnd ctx
      = .ok { t with fusableCmp := none, ctrl := rest, height := f.baseHeight + rs } := by
  unfold doEnd
  rw [hc]
  have hnot : ¬(f.kind = .tryTable ∧ f.reachableOnEntry = true) := by
    rw [hf.reachableOnEntry]
    exact fun h => absurd h.2 (by decide)
  simp only [if_neg hnot, endBlock, hf.elsePatch, patchElse, hf.endPatches, patchAll,
    List.foldl_nil, hf.endTargeted, hf.resultCount, hr, Option.isSome_none, Bool.or_self, ite_self]

theorem doElse_dead {rest : List CtrlFrame} (hc : t.ctrl = f :: rest) (hf : DeadFrame f ps rs)
    (hr : t.reachable = false) :
    t.doElse = .ok { t with fusableCmp := none, height := f.baseHeight + ps } := by
  have hsame : ({ f with elsePatch := none } : CtrlFrame) = f := by
    rw [← hf.elsePatch]
  have hmod : t.ctrl.modify 0 (fun f => { f with elsePatch := none }) = t.ctrl := by
    rw [hc, List.modify_zero_cons, hsame]
  have hbr : ({ t with fusableCmp := none } : Translator).elseBranch f.resultCount
      = .ok { t with fusableCmp := none } := by
    unfold elseBranch
    rw [if_neg (by rw [hr]; decide)]
    rfl
  unfold doElse
  split
  · rename_i hnil
    rw [hnil] at hc
    cases hc
  · rename_i g rest' hg
    obtain ⟨rfl, -⟩ := List.cons.inj (hg.symm.trans hc)
    rw [hbr]
    simp only [hf.elsePatch, patchElse, hf.reachableOnEntry, hf.paramCount, hmod, bind, Except.bind,
      pure, Except.pure]
    rw [hr]

theorem DeadStep.ctrl_eq {f : Flow} (h : DeadStep t t' f) : t'.ctrl = t.ctrl := by
  rw [h.same]

theorem DeadStep.reachable_eq {f : Flow} (h : DeadStep t t' f) : t'.reachable = t.reachable := by
  rw [h.same]

theorem DeadOpen.ctrl_eq (h : DeadOpen t t' f ps rs) : t'.ctrl = f :: t.ctrl := by
  rw [h.same]

theorem DeadOpen.height_eq (h : DeadOpen t t' f ps rs) : t'.height = t.height := by
  rw [h.same]

/-- A dead block from its opening to its end. -/
theorem DeadOpen.close {t t1 t2 : Translator} {f : CtrlFrame} {ps rs : ℕ} {g : Flow}
    (ho : DeadOpen t t1 f ps rs) (hr : t.reachable = false) (hs : DeadStep t1 t2 g) :
    ∃ t3, t2.doEnd ctx = .ok t3 ∧ t3.reachable = false ∧
      DeadStep t t3 ⟨false, t.height - ps + rs, [], decide (ps ≤ t.height) && g.fits⟩ := by
  have hr1 : t1.reachable = false := by rw [ho.same]; exact hr
  refine ⟨_, doEnd_dead (hs.ctrl_eq.trans ho.ctrl_eq) ho.frame (hs.reachable_eq.trans hr1),
    hs.reachable_eq.trans hr1, ?_⟩
  refine ⟨?_, fun he => hs.keeps (ho.keeps he), fun he => ?_, fun he hfit => ?_, fun _ => rfl⟩
  · have h1 := hs.same
    rw [ho.same] at h1
    rw [h1]
  · rw [Bool.and_eq_true, decide_eq_true_iff]
    by_cases hp : ps ≤ t.height
    · have h1 := (ho.error_iff he).mpr hp
      exact (hs.error_iff h1).trans ⟨fun h => ⟨hp, h⟩, fun h => h.2⟩
    · have h1 : t1.error ≠ none := fun h => hp ((ho.error_iff he).mp h)
      exact ⟨fun h => absurd h (hs.keeps h1), fun h => absurd h.1 hp⟩
  · rw [Bool.and_eq_true, decide_eq_true_iff] at hfit
    show f.baseHeight + rs = t.height - ps + rs
    rw [ho.base hfit.1]

/-- The `else` of a dead `if`: the height goes back to where the `then` part started. -/
theorem DeadOpen.else_ {t1 t2 : Translator} {g : Flow} (ho : DeadOpen t t1 f ps rs)
    (hr : t.reachable = false) (hs : DeadStep t1 t2 g) :
    ∃ t3, t2.doElse = .ok t3 ∧ t3.reachable = false ∧
      DeadStep t1 t3 ⟨false, t.height, [], g.fits⟩ := by
  have hr1 : t1.reachable = false := by rw [ho.same]; exact hr
  refine ⟨_, doElse_dead (hs.ctrl_eq.trans ho.ctrl_eq) ho.frame (hs.reachable_eq.trans hr1),
    hs.reachable_eq.trans hr1, ?_, hs.keeps, hs.error_iff, fun he _ => ?_, fun _ => rfl⟩
  · conv_lhs => rw [hs.same]
  · have ht : t.error = none := by
      by_contra hne
      exact ho.keeps hne he
    have hp : ps ≤ t.height := (ho.error_iff ht).mp he
    show f.baseHeight + ps = t.height
    rw [ho.base hp]
    omega

/-- The translator in unreachable code. -/
theorem visitAll_dead (b : Body) {t : Translator} (hr : t.reachable = false) :
    ∃ t', visitAll ctx b.flatten t = .ok t' ∧ DeadStep t t' (b.flow ctx false t.height) := by
  have hn : ¬t.reachable = true := by rw [hr]; decide
  induction b generalizing t with
  | done => exact ⟨t, rfl, DeadStep.refl rfl rfl⟩
  | plain p k ih =>
    obtain ⟨t', hrun, hstep⟩ := ih hr hn
    exact ⟨t', (visitAll_cons_ok (o := .plain p) (if_neg hn)).trans hrun, hstep⟩
  | call c k ih =>
    obtain ⟨t', hrun, hstep⟩ := ih hr hn
    exact ⟨t', (visitAll_cons_ok (o := .call c) (if_neg hn)).trans hrun, hstep⟩
  | jump j k ih =>
    obtain ⟨t', hrun, hstep⟩ := ih hr hn
    refine ⟨t', (visitAll_cons_ok (o := .jump j) (if_neg hn)).trans hrun, ?_⟩
    exact ⟨hstep.same, hstep.keeps, hstep.error_iff, hstep.height_eq, hstep.fusableCmp⟩
  | cond c k ih =>
    obtain ⟨t', hrun, hstep⟩ := ih hr hn
    refine ⟨t', (visitAll_cons_ok (o := .cond c) (if_neg hn)).trans hrun, ?_⟩
    exact ⟨hstep.same, hstep.keeps, hstep.error_iff, hstep.height_eq, hstep.fusableCmp⟩
  | region r bt b k ihb ihk =>
    obtain ⟨t1, f, hopen, ho⟩ := @visit_region_dead ctx _ hr r bt
    have hr1 : t1.reachable = false := by rw [ho.same]; exact hr
    obtain ⟨t2, hb, hs2⟩ := ihb hr1 (by rw [hr1]; decide)
    obtain ⟨t3, hend, hr3, hs3⟩ := @DeadOpen.close ctx _ _ _ _ _ _ _ ho hr hs2
    obtain ⟨t', hk, hs'⟩ := ihk hr3 (by rw [hr3]; decide)
    refine ⟨t', ?_, hs3.trans (n := k.flow ctx false) hs' ?_ ?_⟩
    · rw [Body.flatten, visitAll_cons_ok hopen, visitAll_append_ok hb,
        visitAll_cons_ok (o := .end_) hend]
      exact hk
    · simp [Body.flow, Flow.after, Body.flow_dead]
    · simp [Body.flow, Flow.after, Body.flow_dead, ho.height_eq]
  | ifThen bt b k ihb ihk =>
    obtain ⟨t1, f, hopen, ho⟩ := @visit_if_dead ctx _ hr bt
    have hr1 : t1.reachable = false := by rw [ho.same]; exact hr
    obtain ⟨t2, hb, hs2⟩ := ihb hr1 (by rw [hr1]; decide)
    obtain ⟨t3, hend, hr3, hs3⟩ := @DeadOpen.close ctx _ _ _ _ _ _ _ ho hr hs2
    obtain ⟨t', hk, hs'⟩ := ihk hr3 (by rw [hr3]; decide)
    refine ⟨t', ?_, hs3.trans (n := k.flow ctx false) hs' ?_ ?_⟩
    · rw [Body.flatten, visitAll_cons_ok hopen, visitAll_append_ok hb,
        visitAll_cons_ok (o := .end_) hend]
      exact hk
    · simp [Body.flow, Flow.after, Body.flow_dead]
    · simp [Body.flow, Flow.after, Body.flow_dead, ho.height_eq]
  | ifElse bt b e k ihb ihe ihk =>
    obtain ⟨t1, f, hopen, ho⟩ := @visit_if_dead ctx _ hr bt
    have hr1 : t1.reachable = false := by rw [ho.same]; exact hr
    obtain ⟨t2, ht, hs2⟩ := ihb hr1 (by rw [hr1]; decide)
    obtain ⟨t3, helse, hr3, hs3⟩ := ho.else_ hr hs2
    obtain ⟨t4, he, hs4⟩ := ihe hr3 (by rw [hr3]; decide)
    have hs14 : DeadStep t1 t4 ⟨false, (e.flow ctx false t.height).height, [],
        (b.flow ctx false t1.height).fits && (e.flow ctx false t.height).fits⟩ :=
      hs3.trans (n := e.flow ctx false) hs4 rfl rfl
    obtain ⟨t5, hend, hr5, hs5⟩ := @DeadOpen.close ctx _ _ _ _ _ _ _ ho hr hs14
    obtain ⟨t', hk, hs'⟩ := ihk hr5 (by rw [hr5]; decide)
    refine ⟨t', ?_, hs5.trans (n := k.flow ctx false) hs' ?_ ?_⟩
    · rw [Body.flatten, visitAll_cons_ok hopen, visitAll_append_ok ht,
        visitAll_cons_ok (o := .else_) helse, visitAll_append_ok he,
        visitAll_cons_ok (o := .end_) hend]
      exact hk
    · simp [Body.flow, Flow.after, Body.flow_dead]
    · simp [Body.flow, Flow.after, Body.flow_dead, ho.height_eq, Bool.and_assoc]

/-! ## Frames that collect branches -/

/-- The frame with the branches to its end forgotten. -/
def Same (f f' : CtrlFrame) : Prop :=
  f' = { f with endPatches := f'.endPatches, endTargeted := f'.endTargeted }

/-- `fs'` is `fs` after branches to the labels `exits`: only the branch lists of the frames have
changed, and a frame a forward branch can target, other than the function's own, knows it. -/
structure Grown (exits : List ℕ) (fs fs' : List CtrlFrame) : Prop where
  length_eq : fs'.length = fs.length
  frame : ∀ i f, fs[i]? = some f → ∃ f', fs'[i]? = some f' ∧ Same f f' ∧
    (i + 1 < fs.length → f.kind ≠ .loop → f'.endTargeted = (f.endTargeted || decide (i ∈ exits)))

theorem Same.refl (f : CtrlFrame) : Same f f := rfl

theorem Same.trans {g h : CtrlFrame} (h1 : Same f g) (h2 : Same g h) : Same f h := by
  unfold Same at *
  rw [h2, h1]

theorem Same.labelArity_eq {g : CtrlFrame} (h : Same f g) : g.labelArity = f.labelArity := by
  rw [h]
  rfl

theorem Grown.refl (c : List CtrlFrame) : Grown [] c c :=
  ⟨rfl, fun i f hf => ⟨f, hf, Same.refl f, fun _ _ => by simp⟩⟩

theorem Grown.trans {e e' : List ℕ} {c c' c'' : List CtrlFrame} (h : Grown e c c')
    (h' : Grown e' c' c'') : Grown (e ++ e') c c'' := by
  refine ⟨h'.length_eq.trans h.length_eq, fun i f hf => ?_⟩
  obtain ⟨g, hg, hfg, hgt⟩ := h.frame i f hf
  obtain ⟨k, hk, hgk, hkt⟩ := h'.frame i g hg
  refine ⟨k, hk, hfg.trans hgk, fun hi hl => ?_⟩
  have hgl : g.kind ≠ .loop := by rw [hfg]; exact hl
  rw [hkt (by rw [h.length_eq]; exact hi) hgl, hgt hi hl, Bool.or_assoc]
  simp only [List.mem_append, Bool.decide_or]

theorem Same.addPatch (f : CtrlFrame) (p : Patch) : Same f (f.addPatch p) := rfl

/-- A branch to label `l`, noted in its frame unless that is a loop. -/
theorem registerBranch_grown {l : ℕ} (hf : t.ctrl[l]? = some f) (op : ℕ) (slot : PatchSlot) :
    Grown [l] t.ctrl
      (t.registerBranch (if f.kind = .loop then none else some l) op slot).ctrl := by
  by_cases hl : f.kind = .loop
  · rw [if_pos hl]
    refine ⟨rfl, fun i g hg => ⟨g, hg, Same.refl g, fun _ hgl => ?_⟩⟩
    have hne : i ≠ l := by
      rintro rfl
      rw [hg] at hf
      cases hf
      exact hgl hl
    simp [hne]
  · rw [if_neg hl]
    refine ⟨List.length_modify .., fun i g hg => ?_⟩
    by_cases hi : l = i
    · subst hi
      refine ⟨g.addPatch ⟨op, slot⟩, ?_, Same.addPatch _ _, fun _ _ => ?_⟩
      · show (t.ctrl.modify l _)[l]? = _
        rw [List.getElem?_modify_eq, hg]
        rfl
      · simp [CtrlFrame.addPatch]
    · refine ⟨g, ?_, Same.refl g, fun _ _ => ?_⟩
      · show (t.ctrl.modify l _)[i]? = _
        rw [List.getElem?_modify_ne _ _ hi, hg]
      · have : i ≠ l := fun h => hi h.symm
        simp [this]

/-- A `return` notes its branch in the function's own frame. -/
theorem registerReturn_grown (t : Translator) (op : ℕ) (slot : PatchSlot) :
    Grown [] t.ctrl (t.registerBranch (some (t.ctrl.length - 1)) op slot).ctrl := by
  refine ⟨List.length_modify .., fun i g hg => ?_⟩
  by_cases hi : t.ctrl.length - 1 = i
  · refine ⟨g.addPatch ⟨op, slot⟩, ?_, Same.addPatch _ _, fun hlt => ?_⟩
    · show (t.ctrl.modify _ _)[i]? = _
      rw [hi, List.getElem?_modify_eq, hg]
      rfl
    · omega
  · refine ⟨g, ?_, Same.refl g, fun _ _ => by simp⟩
    show (t.ctrl.modify _ _)[i]? = _
    rw [List.getElem?_modify_ne _ _ hi, hg]

/-- The innermost frame, and the others with the labels seen from outside it. -/
theorem Grown.uncons {e : List ℕ} {c c' : List CtrlFrame} (h : Grown e (f :: c) c') :
    ∃ f' d, c' = f' :: d ∧ Same f f' ∧ Grown (outerLabels e) c d ∧
      (c ≠ [] → f.kind ≠ .loop → f'.endTargeted = (f.endTargeted || decide (0 ∈ e))) := by
  obtain ⟨f', hf', hs, ht⟩ := h.frame 0 f rfl
  cases c' with
  | nil => cases hf'
  | cons g d =>
    obtain rfl : g = f' := Option.some.inj hf'
    refine ⟨g, d, rfl, hs, ⟨?_, fun i k hk => ?_⟩, fun hc hl => ?_⟩
    · have hlen := h.length_eq
      rw [List.length_cons, List.length_cons] at hlen
      omega
    · obtain ⟨k', hk', hsame, hkt⟩ := h.frame (i + 1) k hk
      refine ⟨k', hk', hsame, fun hi hl => ?_⟩
      rw [hkt (by rw [List.length_cons]; omega) hl]
      simp only [mem_outerLabels]
    · refine ht ?_ hl
      have := List.length_pos_iff.mpr hc
      rw [List.length_cons]
      omega

end Translator

end SubmilliWasm
