/-
# When a validated body compiles

The translator on well-typed reachable code (`visitAll_live`): the only errors it stops
with are the documented limits, the height it tracks is the height the typing gives, and
it latches an internal error exactly when `Body.flow` finds a construct in unreachable
code whose parameters outgrow the height it meets there.  What it records of the heights is told
from the body (`translateFunction_recorded`).
-/
import SubmilliWasm.Compile.Peaks
import SubmilliWasm.Lib.Fallible

namespace SubmilliWasm

namespace Translator

/-! ## Computations that stop only at a limit -/

/-- The computation succeeds with `P`, or stops at one of the documented limits. -/
def Lands {α : Type} (r : Except CompileError α) (P : α → Prop) : Prop :=
  match r with
  | .ok a => P a
  | .error e => e.Limit

theorem Lands.ok {α : Type} {a : α} {P : α → Prop} (h : P a) : Lands (.ok a) P := h

theorem Lands.bind {α β : Type} {r : Except CompileError α} {f : α → Except CompileError β}
    {P : α → Prop} {Q : β → Prop} (h : Lands r P) (hf : ∀ a, P a → Lands (f a) Q) :
    Lands (r >>= f) Q := by
  cases r with
  | ok a => exact hf a h
  | error e => exact h

theorem Lands.mono {α : Type} {r : Except CompileError α} {P Q : α → Prop} (h : Lands r P)
    (hPQ : ∀ a, P a → Q a) : Lands r Q := by
  cases r with
  | ok a => exact hPQ a h
  | error e => exact h

theorem fixup_lands (keep pop : ℕ) : Lands (fixup keep pop) fun r => r = (keep, pop) := by
  unfold fixup
  split
  · exact rfl
  · exact CompileError.Limit.fixup

/-! ## Frames and labels -/

variable {M : ModuleTypes}

/-- The control stack holds a frame for each label, of the label's arity, at or below the
height `base` of the current block; the outermost frame is the function's. -/
structure FramesOk (results : List IrVal) (L : List (List IrVal)) (base : ℕ)
    (ctrl : List CtrlFrame) : Prop where
  label : ∀ (l : ℕ) (ls : List IrVal), L[l]? = some ls → ∃ f : CtrlFrame,
    ctrl[l]? = some f ∧ f.labelArity = ls.length ∧
    f.baseHeight ≤ base ∧ f.baseHeight + f.labelArity < 2 ^ 32
  last : ∃ f, ctrl.getLast? = some f ∧ f.resultCount = results.length

variable {L : List (List IrVal)} {ts us locals results : List IrVal} {e : List ℕ} {r : Recorded}
  {t t' u : Translator} {a b h base : ℕ}

theorem FramesOk.ne_nil {ctrl : List CtrlFrame} (h : FramesOk results L base ctrl) : ctrl ≠ [] := by
  obtain ⟨f, hf, -⟩ := h.last
  rintro rfl
  cases hf

theorem FramesOk.grown {c c' : List CtrlFrame} (h : FramesOk results L base c) (hg : Grown e c c') :
    FramesOk results L base c' := by
  refine ⟨fun l ls hl => ?_, ?_⟩
  · obtain ⟨f, hf, ha, hb, hs⟩ := h.label l ls hl
    obtain ⟨f', hf', hsame, -⟩ := hg.frame l f hf
    have hbase : f'.baseHeight = f.baseHeight := by rw [hsame]
    refine ⟨f', hf', hsame.labelArity_eq.trans ha, by rw [hbase]; exact hb, ?_⟩
    rw [hbase, hsame.labelArity_eq]
    exact hs
  · obtain ⟨f, hf, hr⟩ := h.last
    rw [List.getLast?_eq_getElem?] at hf
    obtain ⟨f', hf', hsame, -⟩ := hg.frame _ f hf
    refine ⟨f', ?_, by rw [hsame]; exact hr⟩
    rw [List.getLast?_eq_getElem?, hg.length_eq]
    exact hf'

/-- Enter a block of the given label arity at a height not below the current one. -/
theorem FramesOk.cons {results : List IrVal} {L : List (List IrVal)} {base base' : ℕ}
    {c : List CtrlFrame} (h : FramesOk results L base c) (hb : base ≤ base') {f : CtrlFrame}
    {ls : List IrVal} (hf : f.baseHeight = base') (ha : f.labelArity = ls.length)
    (hs : base' + ls.length < 2 ^ 32) : FramesOk results (ls :: L) base' (f :: c) := by
  refine ⟨fun l ms hl => ?_, ?_⟩
  · cases l with
    | zero =>
      obtain rfl : ls = ms := Option.some.inj hl
      exact ⟨f, rfl, ha, by rw [hf], by rw [hf, ha]; exact hs⟩
    | succ l =>
      obtain ⟨g, hg, hga, hgb, hgs⟩ := h.label l ms hl
      exact ⟨g, hg, hga, le_trans hgb hb, hgs⟩
  · obtain ⟨g, hg, hr⟩ := h.last
    refine ⟨g, ?_, hr⟩
    rw [List.getLast?_cons_of_ne_nil h.ne_nil]
    exact hg

/-- The edge of a branch whose operands are there. -/
theorem branchTarget_lands (hfr : FramesOk results L base t.ctrl) {l : ℕ} {ls : List IrVal}
    (hl : L[l]? = some ls) (hh : base + ls.length ≤ t.height) :
    Lands (t.branchTarget l) fun r =>
      ∃ f, t.ctrl[l]? = some f ∧ r.2 = if f.kind = .loop then none else some l := by
  obtain ⟨f, hf, ha, hb, hs⟩ := hfr.label l ls hl
  unfold branchTarget
  rw [hf]
  show Lands (if f.baseHeight + f.labelArity < 2 ^ 32 then _ else _) _
  rw [if_pos hs, if_pos (by rw [ha]; omega)]
  refine (fixup_lands _ _).bind fun r hr => ?_
  refine Lands.ok ⟨f, rfl, ?_⟩
  by_cases hk : f.kind = .loop
  · rw [if_pos hk, if_pos hk]
  · rw [if_neg hk, if_neg hk]

/-! ## Stretches of operators -/

/-- What a stretch of operators does to the control stack, the latched error, the height and the
records. -/
structure Seg (ctx : CompileCtx) (t t' : Translator) (exits : List ℕ) (fits : Bool) (h : ℕ)
    (r : Recorded) : Prop where
  ctrl : Grown exits t.ctrl t'.ctrl
  keeps : t.error ≠ none → t'.error ≠ none
  error_iff : t.error = none → (t'.error = none ↔ fits = true)
  height_eq : t.error = none → fits = true → t'.height = h
  recorded_eq : t'.error = none → t'.recorded ctx = t.recorded ctx ++ r

/-- A stretch that latches nothing. -/
theorem Seg.of_recorded (hc : Grown e t.ctrl t'.ctrl) (he : t'.error = t.error) (hh : t'.height = h)
    (hr : t'.recorded M.ctx = t.recorded M.ctx ++ r) : Seg M.ctx t t' e true h r :=
  ⟨hc, fun hne => by rw [he]; exact hne, fun hn => ⟨fun _ => rfl, fun _ => by rw [he]; exact hn⟩,
    fun _ _ => hh, fun _ => hr⟩

/-- A stretch that latches and records nothing. -/
theorem Seg.of_eq (hc : Grown e t.ctrl t'.ctrl) (he : t'.error = t.error) (hh : t'.height = h)
    (hr : t'.recorded M.ctx = t.recorded M.ctx) : Seg M.ctx t t' e true h .none :=
  .of_recorded hc he hh (by rw [hr, Recorded.append_none])

/-- A push that fits raises the peak. -/
theorem recorded_push {p : ℕ} (hm : t'.maxOperands = max t.maxOperands p)
    (hh : t'.handlers = t.handlers) : t'.recorded M.ctx = t.recorded M.ctx ++ .push p := by
  unfold recorded
  rw [hm, hh]
  ext1
  · rfl
  · exact (List.append_nil _).symm

theorem Seg.error_before {g : Bool} (hs : Seg M.ctx t t' e g h r) (herr : t'.error = none) :
    t.error = none := by
  by_contra hne
  exact hs.keeps hne herr

/-- Two stretches in a row; the second, described by `n` and `r'`, starts at the height the first
ends with. -/
theorem Seg.trans {g : Bool} {n : ℕ → Flow} {q : ℕ → Recorded} (hs : Seg M.ctx t u e g h r)
    (hs' : Seg M.ctx u t' (n u.height).exits (n u.height).fits (n u.height).height (q u.height))
    (hn : ∀ h h', (n h).exits = (n h').exits) :
    Seg M.ctx t t' (e ++ (n h).exits) (g && (n h).fits) (n h).height (r ++ q h) := by
  refine ⟨?_, fun he => hs'.keeps (hs.keeps he), fun he => ?_, fun he hfit => ?_, fun herr => ?_⟩
  · rw [hn h u.height]
    exact hs.ctrl.trans hs'.ctrl
  · rw [Bool.and_eq_true]
    by_cases hg : g = true
    · rw [hs'.error_iff ((hs.error_iff he).mpr hg), hs.height_eq he hg]
      exact ⟨fun h2 => ⟨hg, h2⟩, fun h2 => h2.2⟩
    · have hu : u.error ≠ none := fun h2 => hg ((hs.error_iff he).mp h2)
      exact ⟨fun h2 => absurd h2 (hs'.keeps hu), fun h2 => absurd h2.1 hg⟩
  · rw [Bool.and_eq_true] at hfit
    have hu := (hs.error_iff he).mpr hfit.1
    rw [← hs.height_eq he hfit.1]
    exact hs'.height_eq hu (by rw [hs.height_eq he hfit.1]; exact hfit.2)
  · have hu := hs'.error_before herr
    have ht := hs.error_before hu
    rw [hs'.recorded_eq herr, hs.recorded_eq hu, hs.height_eq ht ((hs.error_iff ht).mp hu),
      Recorded.append_assoc]

theorem DeadStep.seg {f : Flow} (h : DeadStep t t' f) (he : f.exits = []) :
    Seg M.ctx t t' f.exits f.fits f.height .none := by
  refine ⟨?_, h.keeps, h.error_iff, h.height_eq, fun _ => ?_⟩
  · rw [he, h.ctrl_eq]
    exact Grown.refl _
  · rw [Recorded.append_none]
    exact (congrArg (Translator.recorded M.ctx) h.same).trans rfl

/-- The translator at a reachable point of a block entered at height `base`, with operands of
the types `ts` above it. -/
structure Live (results : List IrVal) (L : List (List IrVal)) (base : ℕ) (ts : List IrVal)
    (t : Translator) : Prop where
  reachable : t.reachable = true
  height_eq : t.height = base + ts.length
  frames : FramesOk results L base t.ctrl

/-- The translator behind a sequence of flow `f` that records `r`; where the end is reachable it
stands at the block's results. -/
structure LiveStep (ctx : CompileCtx) (base : ℕ) (us : List IrVal) (f : Flow) (r : Recorded)
    (t t' : Translator) : Prop where
  seg : Seg ctx t t' f.exits f.fits f.height r
  reachable_eq : t'.reachable = f.live
  height_eq : f.live = true → t'.height = base + us.length

/-- The sequence `b` takes the translator along its flow. -/
def Follows (M : ModuleTypes) (results : List IrVal) (L : List (List IrVal)) (b : Body)
    (ts us : List IrVal) : Prop :=
  ∀ base t, Live results L base ts t → base + ts.length + b.weight M.ctx < 2 ^ 32 →
    Lands (visitAll M.ctx b.flatten t)
      (LiveStep M.ctx base us (b.flow M.ctx true t.height) (b.recorded M.ctx true t.height) t)

/-- A sequence behind a construct that may or may not be left. -/
theorem Follows.resume {k : Body} (hk : Follows M results L k ts us)
    (hfr : FramesOk results L base t.ctrl) (hh : t.reachable = true → t.height = base + ts.length)
    (hw : base + ts.length + k.weight M.ctx < 2 ^ 32) :
    Lands (visitAll M.ctx k.flatten t)
      (LiveStep M.ctx base us (k.flow M.ctx t.reachable t.height)
        (k.recorded M.ctx t.reachable t.height) t) := by
  cases hr : t.reachable with
  | true => exact hk base t ⟨hr, hh hr, hfr⟩ hw
  | false =>
    obtain ⟨t', hrun, hs⟩ := @visitAll_dead M.ctx k _ hr
    have hd := Body.flow_dead M.ctx k t.height
    rw [hrun, Body.recorded_dead]
    refine Lands.ok ⟨hs.seg hd.2, ?_, fun h => ?_⟩
    · rw [hs.reachable_eq, hr, hd.1]
    · rw [hd.1] at h
      cases h

/-- A construct, described from `t` to `u`, in front of a sequence. -/
theorem LiveStep.after {k : Body} {g live : Bool} (hs : Seg M.ctx t u e g h r)
    (hk : LiveStep M.ctx base us (k.flow M.ctx live u.height) (k.recorded M.ctx live u.height) u
      t') :
    LiveStep M.ctx base us ((k.flow M.ctx live h).after e g) (r ++ k.recorded M.ctx live h) t
      t' := by
  have hind := Body.flow_height M.ctx k live h u.height
  refine ⟨hs.trans (n := k.flow M.ctx live) (q := k.recorded M.ctx live) hk.seg
    fun h h' => (Body.flow_height M.ctx k live h h').2, ?_, fun hl => ?_⟩
  · rw [hk.reachable_eq]
    exact hind.1.symm
  · exact hk.height_eq (hind.1.symm.trans hl)

/-! ## One operator -/

theorem pop_of_le {n : ℕ} (h : n ≤ t.height) :
    t.pop n = { t with height := t.height - n } := if_pos h

theorem push_of_lt {n : ℕ} (h : t.height + n < 2 ^ 32) :
    t.push n = { t with
      height := t.height + n
      maxOperands := max t.maxOperands (t.height + n) } := if_pos h

theorem pop_push (h : a ≤ t.height) (h' : t.height - a + b < 2 ^ 32) :
    (t.pop a).push b = { t with
      height := t.height - a + b
      maxOperands := max t.maxOperands (t.height - a + b) } := by
  rw [pop_of_le h]
  exact if_pos h'

/-- Only the peak depends on whether there is a result. -/
theorem pop_pushed (h : a ≤ t.height) (h' : t.height - a + b < 2 ^ 32) :
    (t.pop a).pushed b = { t with
      height := t.height - a + b
      maxOperands := ((t.pop a).pushed b).maxOperands } := by
  unfold pushed
  split
  · rename_i hb
    rw [pop_of_le h, hb]
    rfl
  · rw [pop_push h h']

/-- The peak is raised only if there is a result. -/
theorem pushed_recorded (h : a ≤ t.height) (h' : t.height - a + b < 2 ^ 32)
    (hm : t'.maxOperands = ((t.pop a).pushed b).maxOperands) (hh : t'.handlers = t.handlers) :
    t'.recorded M.ctx
      = t.recorded M.ctx ++ if b = 0 then .none else .push (t.height - a + b) := by
  unfold pushed at hm
  split
  · rename_i hb
    rw [if_pos hb, pop_of_le h] at hm
    rw [Recorded.append_none]
    exact recorded_congr hm hh
  · rename_i hb
    rw [if_neg hb, pop_push h h'] at hm
    exact recorded_push hm hh

/-- The translator's effect of a well-typed operator agrees with its type, up to operands it
leaves in place. -/
theorem effect_typed {p : PlainOp BigMemArg} {ins outs : List IrVal}
    (h : M.PlainTyped locals p ins outs) :
    ∃ pops pushes n, effect M.ctx p = .ok (pops, pushes) ∧ ins.length = pops + n ∧
      outs.length = pushes + n ∧ pushes ≤ 1 := by
  cases h with
  | localTee h => exact ⟨0, 0, 1, rfl, rfl, rfl, by omega⟩
  | @structNew ty fs h =>
    have hc : structFieldCount M.ctx ty = .ok fs.length := by
      unfold ModuleTypes.structFields at h
      unfold structFieldCount
      rcases hty : M.ctx.types[ty]? with _ | ⟨group, finality, supertype, body⟩
      · rw [hty] at h
        nomatch h
      · rw [hty] at h
        rcases body with _ | fields | _
        · nomatch h
        · obtain rfl : fields = fs := Option.some.inj h
          rfl
        · nomatch h
    refine ⟨fs.length, 1, 0, ?_, ?_, rfl, le_refl 1⟩
    · show (structFieldCount M.ctx ty >>= fun n => pure (n, 1)) = _
      rw [hc]
      rfl
    · rw [List.length_map]
      omega
  | @arrayNewFixed ty n f h =>
    refine ⟨n, 1, 0, rfl, ?_, rfl, le_refl 1⟩
    rw [List.length_replicate]
    omega
  | _ => exact ⟨_, _, 0, rfl, rfl, rfl, by decide⟩

section Operators

variable {results : List IrVal} {L : List (List IrVal)} {base : ℕ} {t : Translator}

variable {ls ts ts' vs rest : List IrVal} {cases : List ℕ} {l : ℕ}

/-- The height of a stack whose top part is `vs`. -/
theorem Live.height_append (h : Live results L base (rest ++ vs) t) :
    t.height = base + rest.length + vs.length := by
  rw [h.height_eq, List.length_append, Nat.add_assoc]

theorem visitPlain_live {locals : List IrVal} {p : PlainOp BigMemArg} {ins outs : List IrVal}
    (hp : M.PlainTyped locals p ins outs) (hv : M.Subs vs ins)
    (ht : Live results L base (rest ++ vs) t) (hw : t.height + 1 < 2 ^ 32) :
    Lands (t.visit M.ctx (.plain p)) fun u =>
      Seg M.ctx t u [] true (plainAfter M.ctx p t.height) (plainRecorded M.ctx p t.height) ∧
        Live results L base (rest ++ outs) u := by
  obtain ⟨pops, pushes, n, heff, hin, hout, hle⟩ := effect_typed hp
  have hh := ht.height_append
  rw [hv.length_eq, hin] at hh
  have hpop : pops ≤ t.height := by omega
  have hpush : t.height - pops + pushes < 2 ^ 32 := by omega
  have hafter : plainAfter M.ctx p t.height = t.height - pops + pushes := by
    unfold plainAfter
    rw [heff]
  have hrecorded : plainRecorded M.ctx p t.height
      = if pushes = 0 then .none else .push (t.height - pops + pushes) := by
    unfold plainRecorded
    rw [heff]
  show Lands (if t.reachable = true then visitPlain M.ctx p t else .ok t) _
  rw [if_pos ht.reachable]
  unfold visitPlain
  rw [heff]
  show Lands (.ok ((({ t with bigMemargs := (lowerPlain t.bigMemargs p).2 }.pop pops).pushed
    pushes).emit (.plain (lowerPlain t.bigMemargs p).1))) _
  rw [pop_pushed (t := { t with bigMemargs := (lowerPlain t.bigMemargs p).2 }) hpop hpush]
  refine Lands.ok ⟨Seg.of_recorded (Grown.refl _) rfl hafter.symm ?_, ht.reachable, ?_,
    ht.frames⟩
  · rw [hrecorded]
    exact pushed_recorded (t := { t with bigMemargs := (lowerPlain t.bigMemargs p).2 }) hpop hpush
      rfl rfl
  show t.height - pops + pushes = base + (rest ++ outs).length
  rw [List.length_append, hout]
  omega

theorem call_live {c : CallTarget} (hv : M.Subs vs (M.callOperands c))
    (ht : Live results L base (rest ++ vs) t)
    (hw : t.height + (callSig M.ctx c).2.length < 2 ^ 32) :
    Lands (t.visit M.ctx (.call c)) fun u =>
      Seg M.ctx t u [] true (t.height - callPops M.ctx c + (callSig M.ctx c).2.length)
          (.push (t.height - callPops M.ctx c + (callSig M.ctx c).2.length)) ∧
        Live results L base (rest ++ (callSig M.ctx c).2) u := by
  have hh := ht.height_append
  rw [hv.length_eq, ← M.callPops_eq] at hh
  have hpop : callPops M.ctx c ≤ t.height := by omega
  have hpush : t.height - callPops M.ctx c + (callSig M.ctx c).2.length < 2 ^ 32 := by omega
  show Lands (if t.reachable = true then .ok (t.call M.ctx c) else .ok t) _
  rw [if_pos ht.reachable]
  unfold call
  rw [pop_push hpop hpush]
  refine Lands.ok ⟨Seg.of_recorded (Grown.refl _) rfl rfl (recorded_push rfl rfl), ht.reachable, ?_,
    ht.frames⟩
  show t.height - callPops M.ctx c + (callSig M.ctx c).2.length = _
  rw [List.length_append]
  omega

theorem registerBranch_same (t : Translator) (frame : Option ℕ) (op : ℕ) (slot : PatchSlot) :
    t.registerBranch frame op slot
      = { t with ctrl := (t.registerBranch frame op slot).ctrl } := by
  cases frame <;> rfl

theorem Live.grown {e : List ℕ} {u : Translator} (ht : Live results L base ts t)
    (hg : Grown e t.ctrl u.ctrl) (hr : u.reachable = true) (hh : u.height = base + ts'.length) :
    Live results L base ts' u :=
  ⟨hr, hh, ht.frames.grown hg⟩

/-- Note a branch at `v`, which differs from `t` in its streams and height only. -/
theorem Live.register {h : ℕ} {g : CtrlFrame} (ht : Live results L base ts t)
    (hg : t.ctrl[l]? = some g) (hts : h = base + ts'.length) (v : Translator) (hc : v.ctrl = t.ctrl)
    (he : v.error = t.error) (hm : v.recorded M.ctx = t.recorded M.ctx)
    (hr : v.reachable = t.reachable) (hh : v.height = h) (op : ℕ) (slot : PatchSlot) :
    Seg M.ctx t (v.registerBranch (if g.kind = .loop then none else some l) op slot)
      [l] true h .none ∧
      Live results L base ts'
        (v.registerBranch (if g.kind = .loop then none else some l) op slot) := by
  have hgr := registerBranch_grown (t := v) (by rw [hc]; exact hg) op slot
  rw [hc] at hgr
  refine ⟨Seg.of_eq hgr ?_ ?_ ?_, ht.grown hgr ?_ ?_⟩
  · rw [registerBranch_same]
    exact he
  · rw [registerBranch_same]
    exact hh
  · rw [registerBranch_same]
    exact hm
  · rw [registerBranch_same]
    exact hr.trans ht.reachable
  · rw [registerBranch_same]
    exact hh.trans hts

theorem brIf_live (hl : L[l]? = some ls) (hv : M.Subs vs ls)
    (ht : Live results L base (rest ++ vs ++ [.i32]) t) :
    Lands (t.brIf l) fun u =>
      Seg M.ctx t u [l] true (t.height - 1) .none ∧ Live results L base (rest ++ ls) u := by
  have hh := ht.height_append
  rw [List.length_append, hv.length_eq, List.length_singleton] at hh
  have hts : t.height - 1 = base + (rest ++ ls).length := by
    rw [List.length_append]
    omega
  unfold brIf
  rw [pop_of_le (by omega)]
  refine (branchTarget_lands (t := { t with height := t.height - 1 }) ht.frames hl
    (show base + ls.length ≤ t.height - 1 by omega)).bind ?_
  rintro ⟨target, frame⟩ ⟨g, hg, rfl⟩
  dsimp only
  -- the comparison in front of the branch is replaced in place, or a plain branch is emitted
  cases t.fusableCmp with
  | some kind =>
    refine Lands.ok ?_
    refine ht.register hg hts _ ?_ ?_ ?_ ?_ ?_ _ _ <;> rfl
  | none =>
    refine Lands.ok ?_
    refine ht.register hg hts _ ?_ ?_ ?_ ?_ ?_ _ _ <;> rfl

theorem brOnNull_live {v w : IrVal} (hl : L[l]? = some ls) (hv : M.Subs vs ls)
    (ht : Live results L base (rest ++ vs ++ [v]) t) (hw : t.height < 2 ^ 32) :
    Lands (t.brOnNull l) fun u =>
      Seg M.ctx t u [l] true (t.height - 1 + 1) (.push (t.height - 1 + 1)) ∧
        Live results L base (rest ++ ls ++ [w]) u := by
  have hh := ht.height_append
  rw [List.length_append, hv.length_eq, List.length_singleton] at hh
  have hts : t.height - 1 + 1 = base + (rest ++ ls ++ [w]).length := by
    rw [List.length_append, List.length_append, List.length_singleton]
    omega
  unfold brOnNull
  rw [pop_of_le (by omega)]
  refine (branchTarget_lands (t := { t with height := t.height - 1 }) ht.frames hl
    (show base + ls.length ≤ t.height - 1 by omega)).bind ?_
  rintro ⟨target, frame⟩ ⟨g, hg, rfl⟩
  refine Lands.ok ?_
  rw [registerBranch_same, push_of_lt (show t.height - 1 + 1 < 2 ^ 32 by omega)]
  have hgr := registerBranch_grown (t := { t with height := t.height - 1 }.emit (.brOnNull target))
    hg t.nextIp .single
  exact ⟨Seg.of_recorded hgr rfl rfl (recorded_push rfl rfl), ht.grown hgr ht.reachable hts⟩

theorem brOnNonNull_live {v w : IrVal} (hl : L[l]? = some (ls ++ [w])) (hv : M.Subs vs ls)
    (ht : Live results L base (rest ++ vs ++ [v]) t) :
    Lands (t.brOnNonNull l) fun u =>
      Seg M.ctx t u [l] true (t.height - 1) .none ∧ Live results L base (rest ++ ls) u := by
  have hh := ht.height_append
  rw [List.length_append, hv.length_eq, List.length_singleton] at hh
  have hts : t.height - 1 = base + (rest ++ ls).length := by
    rw [List.length_append]
    omega
  unfold brOnNonNull
  refine (branchTarget_lands ht.frames hl
    (by rw [List.length_append, List.length_singleton]; omega)).bind ?_
  rintro ⟨target, frame⟩ ⟨g, hg, rfl⟩
  refine Lands.ok ?_
  have hgr := registerBranch_grown (t := t.emit (.brOnNonNull target)) hg t.nextIp .single
  rw [registerBranch_same] at hgr ⊢
  rw [pop_of_le (t := { t.emit (.brOnNonNull target) with ctrl := _ })
    (show 1 ≤ t.height by omega)]
  exact ⟨Seg.of_eq hgr rfl rfl rfl, ht.grown hgr ht.reachable hts⟩

theorem brOnCast_live {v w w' : IrVal} {ty : IrHeap} {nullable fail : Bool}
    (hl : L[l]? = some (ls ++ [w])) (hv : M.Subs vs ls)
    (ht : Live results L base (rest ++ vs ++ [v]) t) :
    Lands (t.brOnCast l ty nullable fail) fun u =>
      Seg M.ctx t u [l] true t.height .none ∧ Live results L base (rest ++ ls ++ [w']) u := by
  have hh := ht.height_append
  rw [List.length_append, hv.length_eq, List.length_singleton] at hh
  have hts : t.height = base + (rest ++ ls ++ [w']).length := by
    rw [List.length_append, List.length_append, List.length_singleton]
    omega
  unfold brOnCast
  refine (branchTarget_lands ht.frames hl
    (by rw [List.length_append, List.length_singleton]; omega)).bind ?_
  rintro ⟨target, frame⟩ ⟨g, hg, rfl⟩
  refine Lands.ok ?_
  refine ht.register hg hts _ ?_ ?_ ?_ ?_ ?_ _ _ <;> rfl

theorem cond_live {c : CondBr} (hc : M.CondTyped L c ts ts') (ht : Live results L base ts t)
    (hw : t.height < 2 ^ 32) :
    Lands (t.visit M.ctx (.cond c)) fun u =>
      Seg M.ctx t u [c.label] true (c.after t.height) (c.recorded t.height) ∧
        Live results L base ts' u := by
  show Lands (if t.reachable = true then t.visitCond c else .ok t) _
  rw [if_pos ht.reachable]
  cases hc with
  | brIf rest hl hv => exact brIf_live hl hv ht
  | brOnNull rest hl hv => exact brOnNull_live hl hv ht hw
  | brOnNonNull rest hl hv hs => exact brOnNonNull_live hl hv ht
  | brOnCast rest hl hv hk hs hw => exact brOnCast_live hl hv ht
  | brOnCastFail rest hl hv hk hs => exact brOnCast_live hl hv ht

theorem br_live (hl : L[l]? = some ls) (hv : M.Subs vs ls)
    (ht : Live results L base (rest ++ vs) t) :
    Lands (t.br l) fun u => Seg M.ctx t u [l] true t.height .none ∧ u.reachable = false := by
  have hh := ht.height_append
  rw [hv.length_eq] at hh
  unfold br
  refine (branchTarget_lands ht.frames hl (by omega)).bind ?_
  rintro ⟨target, frame⟩ ⟨g, hg, rfl⟩
  have hgr := registerBranch_grown (t := t.emit (.br target)) hg t.nextIp .single
  refine Lands.ok ⟨Seg.of_eq hgr ?_ ?_ ?_, rfl⟩ <;>
  · rw [registerBranch_same]
    rfl

/-- The frame a branch to `l` is noted in, if it is a forward branch. -/
def patchFrame (ctrl : List CtrlFrame) (l : ℕ) : Option ℕ :=
  match ctrl[l]? with
  | some f => if f.kind = .loop then none else some l
  | none => none

theorem patchFrame_eq {ctrl : List CtrlFrame} {f : CtrlFrame} (h : ctrl[l]? = some f) :
    patchFrame ctrl l = if f.kind = .loop then none else some l := by
  unfold patchFrame
  rw [h]

theorem mem_patchFrames {ctrl : List CtrlFrame} {labels : List ℕ} {i : ℕ} {f : CtrlFrame}
    (h : ctrl[i]? = some f) (hk : f.kind ≠ .loop) :
    i ∈ labels.filterMap (patchFrame ctrl) ↔ i ∈ labels := by
  rw [List.mem_filterMap]
  constructor
  · rintro ⟨l, hl, hp⟩
    unfold patchFrame at hp
    split at hp
    · split at hp
      · cases hp
      · cases hp
        exact hl
    · cases hp
  · intro hi
    refine ⟨i, hi, ?_⟩
    rw [patchFrame_eq h, if_neg hk]

/-- The branches of a list of labels, noted one after the other. -/
theorem foldl_register_grown (patches : List (ℕ × PatchSlot)) (op : ℕ) (t : Translator)
    (hk : ∀ p ∈ patches, ∀ f, t.ctrl[p.1]? = some f → f.kind ≠ .loop)
    (hlt : ∀ p ∈ patches, p.1 < t.ctrl.length) :
    let u := patches.foldl (fun t p => t.registerBranch (some p.1) op p.2) t
    Grown (patches.map Prod.fst) t.ctrl u.ctrl ∧ u = { t with ctrl := u.ctrl } := by
  induction patches generalizing t with
  | nil => exact ⟨Grown.refl _, rfl⟩
  | cons p patches ih =>
    have hp : p.1 < t.ctrl.length := hlt p (by simp)
    have hget : t.ctrl[p.1]? = some t.ctrl[p.1] := List.getElem?_eq_getElem hp
    have hg := registerBranch_grown (t := t) hget op p.2
    rw [if_neg (hk p (by simp) _ hget)] at hg
    obtain ⟨h1, h2⟩ := ih (t.registerBranch (some p.1) op p.2)
      (fun q hq f hf hloop => by
        obtain ⟨f', hf', hsame, -⟩ := hg.frame q.1 _
          (List.getElem?_eq_getElem (hlt q (by simp [hq])))
        rw [hf] at hf'
        cases hf'
        rw [hsame] at hloop
        exact hk q (by simp [hq]) _ (List.getElem?_eq_getElem (hlt q (by simp [hq]))) hloop)
      (fun q hq => by
        rw [hg.length_eq]
        exact hlt q (by simp [hq]))
    exact ⟨hg.trans h1, h2⟩

theorem Grown.congr {e e' : List ℕ} {fs fs' : List CtrlFrame} (h : Grown e fs fs')
    (he : ∀ i f, fs[i]? = some f → f.kind ≠ .loop → (i ∈ e ↔ i ∈ e')) : Grown e' fs fs' := by
  refine ⟨h.length_eq, fun i f hf => ?_⟩
  obtain ⟨f', hf', hs, ht⟩ := h.frame i f hf
  refine ⟨f', hf', hs, fun hi hk => ?_⟩
  rw [ht hi hk, decide_eq_decide.mpr (he i f hf hk)]

/-- The cases of a `br_table` only add edges; their patches are the forward labels. -/
theorem brTableCases_lands {k : ℕ} {u : Translator} {n : ℕ} (hfr : FramesOk results L base u.ctrl)
    (hn : base + n ≤ u.height) (hl : ∀ l ∈ cases, ∃ ls, L[l]? = some ls ∧ ls.length = n) :
    Lands (brTableCases k cases u) fun r =>
      r.1.map Prod.fst = cases.filterMap (patchFrame u.ctrl) ∧
        r.2 = { u with brTables := r.2.brTables } := by
  induction cases generalizing k u with
  | nil => exact Lands.ok ⟨rfl, rfl⟩
  | cons l cases ih =>
    obtain ⟨ls, hls, hlen⟩ := hl l (by simp)
    refine (branchTarget_lands hfr hls (by omega)).bind ?_
    rintro ⟨target, frame⟩ ⟨g, hg, rfl⟩
    refine (ih (k := k + 1) (u := u.pushEdge target) hfr hn
      fun l' h' => hl l' (by simp [h'])).bind ?_
    rintro ⟨patches, v⟩ ⟨hp, hv⟩
    refine Lands.ok ⟨?_, ?_⟩
    · rw [List.filterMap_cons, patchFrame_eq hg]
      by_cases hk : g.kind = .loop
      · simp only [if_pos hk]
        exact hp
      · simp only [if_neg hk, List.map_cons]
        exact congrArg _ hp
    · exact hv

/-- Recording the patches of a `br_table` marks the frames its cases and its default go to. -/
theorem foldl_patches_seg {default : ℕ} {patches : List (ℕ × PatchSlot)} {u : Translator} (op : ℕ)
    (hfr : FramesOk results L base t.ctrl) (hl : ∀ l ∈ cases ++ [default], ∃ ls, L[l]? = some ls)
    (hfst : patches.map Prod.fst = (cases ++ [default]).filterMap (patchFrame t.ctrl))
    (hc : u.ctrl = t.ctrl) (he : u.error = t.error) (hm : u.recorded M.ctx = t.recorded M.ctx) :
    Seg M.ctx t { patches.foldl (fun t p => t.registerBranch (some p.1) op p.2) u with
      reachable := false } (cases ++ [default]) true u.height .none := by
  have hmem : ∀ p ∈ patches, ∃ f, t.ctrl[p.1]? = some f ∧ f.kind ≠ .loop := by
    intro p hpm
    have : p.1 ∈ patches.map Prod.fst := List.mem_map_of_mem hpm
    rw [hfst, List.mem_filterMap] at this
    obtain ⟨l, hlm, hpf⟩ := this
    obtain ⟨ls, hls⟩ := hl l hlm
    obtain ⟨f, hf, -⟩ := hfr.label l ls hls
    rw [patchFrame_eq hf] at hpf
    split at hpf
    · cases hpf
    · rename_i hne
      cases hpf
      exact ⟨f, hf, hne⟩
  obtain ⟨hgr, hsame⟩ := foldl_register_grown patches op u
    (fun p hpm f hf => by
      obtain ⟨f', hf', hne⟩ := hmem p hpm
      rw [← hc, hf] at hf'
      cases hf'
      exact hne)
    (fun p hpm => by
      obtain ⟨f', hf', -⟩ := hmem p hpm
      rw [hc]
      exact (List.getElem?_eq_some_iff.mp hf').1)
  refine Seg.of_eq ?_ ?_ ?_ ?_
  · rw [hfst, hc] at hgr
    exact hgr.congr fun i f hf hk => mem_patchFrames hf hk
  · show Translator.error (List.foldl _ _ patches) = _
    rw [hsame]
    exact he
  · show Translator.height (List.foldl _ _ patches) = _
    rw [hsame]
  · refine (recorded_congr (t := u) ?_ ?_).trans hm
    · show Translator.maxOperands (List.foldl _ _ patches) = _
      rw [hsame]
    · show Translator.handlers (List.foldl _ _ patches) = _
      rw [hsame]

theorem brTable_live {default : ℕ}
    (hl : ∀ l ∈ cases ++ [default], ∃ ls, L[l]? = some ls ∧ M.Subs vs ls)
    (ht : Live results L base (rest ++ vs ++ [.i32]) t) :
    Lands (t.brTable cases default) fun u =>
      Seg M.ctx t u (cases ++ [default]) true (t.height - 1) .none ∧ u.reachable = false := by
  have hh := ht.height_append
  rw [List.length_append, List.length_singleton] at hh
  have hlen : ∀ l ∈ cases ++ [default], ∃ ls, L[l]? = some ls ∧ ls.length = vs.length := by
    intro l hmem
    obtain ⟨ls, hls, hsub⟩ := hl l hmem
    exact ⟨ls, hls, hsub.length_eq.symm⟩
  unfold brTable
  rw [pop_of_le (by omega)]
  refine (brTableCases_lands (u := { t with height := t.height - 1 }) (n := vs.length) ht.frames
    (show base + vs.length ≤ t.height - 1 by omega)
    fun l hm => hlen l (List.mem_append_left _ hm)).bind ?_
  rintro ⟨patches, v⟩ ⟨hp, hv⟩
  have hvc : v.ctrl = t.ctrl := by rw [show v = _ from hv]
  have hvh : v.height = t.height - 1 := by rw [show v = _ from hv]
  have hve : v.error = t.error := by rw [show v = _ from hv]
  have hvm : v.recorded M.ctx = t.recorded M.ctx := by
    rw [show v = _ from hv]
    rfl
  obtain ⟨ds, hds, hdlen⟩ := hlen default (by simp)
  refine (branchTarget_lands (t := v) (by rw [hvc]; exact ht.frames) hds
    (by rw [hvh, hdlen]; omega)).bind ?_
  rintro ⟨target, frame⟩ ⟨g, hg, rfl⟩
  refine Lands.ok ⟨?_, rfl⟩
  -- the patches of the cases and of the default, by the frames they go to
  rw [← hvh]
  refine foldl_patches_seg (u := (v.pushEdge target).emit (.brTable t.brTables.length cases.length))
    _ ht.frames (fun l hm => (hl l hm).imp fun _ h => h.1) ?_ hvc hve hvm
  rw [List.map_append, List.filterMap_append, show patches.map Prod.fst = _ from hp]
  congr 1
  rw [hvc] at hg
  rw [List.filterMap_cons, List.filterMap_nil, patchFrame_eq hg]
  by_cases hk : g.kind = .loop
  · simp only [if_pos hk, List.map_nil]
  · simp only [if_neg hk, List.map_cons, List.map_nil]

theorem ret_live (hv : M.Subs vs results) (ht : Live results L base (rest ++ vs) t) :
    Lands t.ret fun u => Seg M.ctx t u [] true t.height .none ∧ u.reachable = false := by
  have hh := ht.height_append
  rw [hv.length_eq] at hh
  obtain ⟨f, hf, hr⟩ := ht.frames.last
  unfold ret
  rw [hf]
  show Lands (if f.resultCount ≤ t.height then _ else _) _
  rw [if_pos (by rw [hr]; omega)]
  refine (fixup_lands _ _).bind fun r _ => ?_
  have hgr := registerReturn_grown (t.emit (.br ⟨0, r.1, r.2⟩)) t.nextIp .single
  exact Lands.ok ⟨Seg.of_eq hgr rfl rfl rfl, rfl⟩

theorem jump_live {j : Jump} (hj : M.JumpTyped results L j ts) (ht : Live results L base ts t) :
    Lands (t.visit M.ctx (.jump j)) fun u =>
      Seg M.ctx t u j.labels true (t.height - j.pops M.ctx) .none ∧ u.reachable = false := by
  show Lands (if t.reachable = true then t.visitJump M.ctx j else .ok t) _
  rw [if_pos ht.reachable]
  cases hj with
  | br rest hl hv => exact br_live hl hv ht
  | brTable rest hl => exact brTable_live hl ht
  | ret rest hv => exact ret_live hv ht
  | unreachable => exact Lands.ok ⟨Seg.of_eq (Grown.refl _) rfl rfl rfl, rfl⟩
  | throw rest _ _ => exact Lands.ok ⟨Seg.of_eq (Grown.refl _) rfl rfl rfl, rfl⟩
  | throwRef rest _ => exact Lands.ok ⟨Seg.of_eq (Grown.refl _) rfl rfl rfl, rfl⟩
  | @returnCall c vs rest hc hv hr =>
    have hh := ht.height_append
    rw [hv.length_eq, ← M.callPops_eq] at hh
    show Lands (.ok (t.returnCall M.ctx c)) _
    unfold returnCall
    rw [pop_of_le (by omega)]
    exact Lands.ok ⟨Seg.of_eq (Grown.refl _) rfl rfl rfl, rfl⟩

end Operators

/-! ## Blocks -/

/-- Writing branch targets leaves everything but the targets as it was. -/
structure Patched (t t' : Translator) : Prop where
  ctrl : t'.ctrl = t.ctrl
  height : t'.height = t.height
  error : t'.error = t.error
  reachable : t'.reachable = t.reachable
  nextIp : t'.nextIp = t.nextIp
  handlers : t'.handlers = t.handlers
  bigMemargs : t'.bigMemargs = t.bigMemargs
  fusableCmp : t'.fusableCmp = t.fusableCmp
  pool : t'.brTables.length = t.brTables.length
  maxOperands : t'.maxOperands = t.maxOperands

theorem Patched.refl (t : Translator) : Patched t t :=
  ⟨rfl, rfl, rfl, rfl, rfl, rfl, rfl, rfl, rfl, rfl⟩

theorem Patched.trans {v : Translator} (h : Patched t u) (h' : Patched u v) : Patched t v :=
  ⟨h'.ctrl.trans h.ctrl, h'.height.trans h.height, h'.error.trans h.error,
    h'.reachable.trans h.reachable, h'.nextIp.trans h.nextIp, h'.handlers.trans h.handlers,
    h'.bigMemargs.trans h.bigMemargs, h'.fusableCmp.trans h.fusableCmp, h'.pool.trans h.pool,
    h'.maxOperands.trans h.maxOperands⟩

theorem Patched.recorded (h : Patched t t') : t'.recorded M.ctx = t.recorded M.ctx :=
  recorded_congr h.maxOperands h.handlers

theorem patchIp_patched (t : Translator) (op : ℕ) (slot : PatchSlot) (ip : ℕ) :
    Patched t (t.patchIp op slot ip) := by
  unfold patchIp
  split
  · exact Patched.refl t
  · split
    · exact ⟨rfl, rfl, rfl, rfl, rfl, rfl, rfl, rfl, List.length_modify .., rfl⟩
    · exact ⟨rfl, rfl, rfl, rfl, List.length_modify .., rfl, rfl, rfl, rfl, rfl⟩

theorem patchElse_patched (t : Translator) (elsePatch : Option ℕ) (ip : ℕ) :
    Patched t (t.patchElse elsePatch ip) := by
  cases elsePatch with
  | none => exact Patched.refl t
  | some idx => exact patchIp_patched t idx .single ip

theorem patchAll_patched (patches : List Patch) (t : Translator) (ip : ℕ) :
    Patched t (t.patchAll patches ip) := by
  induction patches generalizing t with
  | nil => exact Patched.refl t
  | cons p patches ih => exact (patchIp_patched t p.op p.slot ip).trans (ih _)

def regionKind : Region → BlockKind
  | .block => .block
  | .loop => .loop
  | .tryTable _ => .tryTable

def regionClauses : Region → List HandlerClause
  | .tryTable catches => catches.map convCatch
  | _ => []

section Blocks

variable {results : List IrVal} {L : List (List IrVal)} {base : ℕ} {t : Translator}

theorem heightBelow_of_le {n : ℕ} (h : n ≤ t.height) : t.heightBelow n = (t.height - n, t) :=
  if_pos h

variable {f : CtrlFrame} {d : List CtrlFrame} {vs rest : List IrVal} {v : Translator}

/-- The frame a reachable region opens. -/
theorem region_open {r : Region} {bt : BlockType} (hv : M.Subs vs (M.blockType bt).1)
    (ht : Live results L base (rest ++ vs) t) :
    t.visit M.ctx (r.operator bt) = .ok { t with
      fusableCmp := none
      ctrl := ⟨regionKind r, base + rest.length, (M.blockType bt).1.length,
        (M.blockType bt).2.length,
        t.nextIp, [], none, true, false, regionClauses r⟩ :: t.ctrl } := by
  have hh := ht.height_append
  rw [hv.length_eq] at hh
  have hbelow : ({ t with fusableCmp := none } : Translator).heightBelow (M.blockType bt).1.length
      = (base + rest.length, { t with fusableCmp := none }) := by
    rw [heightBelow_of_le (t := { t with fusableCmp := none })
      (show (M.blockType bt).1.length ≤ t.height by omega)]
    show (t.height - _, _) = _
    rw [show t.height - (M.blockType bt).1.length = base + rest.length by omega]
  cases r <;>
  · simp only [Region.operator, visit, pushBlock, M.blockArity_eq, hbelow, regionKind,
      regionClauses, nextIp]
    rw [ht.reachable]

theorem payloadCount_convCatch (c : Catch) :
    payloadCount M.ctx (convCatch c) = (M.catchTypes c).length := by
  cases c <;> simp [payloadCount, convCatch, ModuleTypes.catchTypes]

theorem convCatch_label (c : Catch) : (convCatch c).label = c.label := by
  cases c <;> rfl

theorem landingPads_lands {catches : List Catch} {base' : ℕ} {u : Translator}
    (hfr : FramesOk results L base u.ctrl) (hb : base ≤ base')
    (hc : ∀ c ∈ catches, ∃ ls, L[c.label]? = some ls ∧ M.Subs (M.catchTypes c) ls) :
    Lands (landingPads M.ctx base' (catches.map convCatch) u) fun r =>
      Grown (catches.map Catch.label) u.ctrl r.2.ctrl ∧ r.2.error = u.error ∧
        r.2.recorded M.ctx = u.recorded M.ctx ∧
        r.1.map (fun rec => rec.restoreHeight + rec.payload M.ctx)
          = catches.map (Catch.landing M.ctx base') := by
  induction catches generalizing u with
  | nil => exact Lands.ok ⟨Grown.refl _, rfl, rfl, rfl⟩
  | cons c catches ih =>
    obtain ⟨ls, hl, hs⟩ := hc c (by simp)
    rw [List.map_cons, landingPads, payloadCount_convCatch, convCatch_label, hs.length_eq]
    refine (branchTarget_lands (t := { u with height := base' + ls.length }) hfr hl
      (show base + ls.length ≤ base' + ls.length by omega)).bind ?_
    rintro ⟨target, frame⟩ ⟨g, hg, rfl⟩
    have hgr := registerBranch_grown (t := { u with height := base' + ls.length }.emit (.br target))
      hg u.nextIp .single
    refine (ih (hfr.grown hgr) fun c' h' => hc c' (by simp [h'])).bind ?_
    rintro ⟨recs, w⟩ ⟨hw, he, hm, hpads⟩
    refine Lands.ok ⟨hgr.trans hw, he.trans ?_, hm.trans ?_, ?_⟩
    · rw [registerBranch_same]
      rfl
    · rw [registerBranch_same]
      rfl
    · exact congrArg₂ List.cons rfl hpads

theorem endBlock_spec (f : CtrlFrame) (v : Translator) :
    (endBlock f v).ctrl = v.ctrl ∧ (endBlock f v).error = v.error ∧
      (endBlock f v).height = f.baseHeight + f.resultCount ∧
      (endBlock f v).reachable = (if f.kind = .loop then v.reachable
        else v.reachable || f.endTargeted || f.elsePatch.isSome) := by
  unfold endBlock
  have h := (patchElse_patched v f.elsePatch v.nextIp).trans
    (patchAll_patched f.endPatches _ v.nextIp)
  exact ⟨h.ctrl, h.error, rfl, congrArg
    (fun b => if f.kind = .loop then b else b || f.endTargeted || f.elsePatch.isSome) h.reachable⟩

theorem endBlock_recorded (f : CtrlFrame) (v : Translator) :
    (endBlock f v).recorded M.ctx = v.recorded M.ctx :=
  ((patchElse_patched v f.elsePatch v.nextIp).trans
    (patchAll_patched f.endPatches _ v.nextIp)).recorded

theorem endTryTable_lands {catches : List Catch} (hfr : FramesOk results L base v.ctrl)
    (hb : base ≤ f.baseHeight) (hf : f.clauses = catches.map convCatch)
    (hc : ∀ c ∈ catches, ∃ ls, L[c.label]? = some ls ∧ M.Subs (M.catchTypes c) ls) :
    Lands (endTryTable M.ctx f v) fun w =>
      Grown (catches.map Catch.label) v.ctrl w.ctrl ∧ w.error = v.error ∧
        w.recorded M.ctx
          = v.recorded M.ctx ++ (Region.tryTable catches).recorded M.ctx f.baseHeight ∧
        w.height = f.baseHeight + f.resultCount ∧
        w.reachable = (v.reachable || f.endTargeted) := by
  unfold endTryTable
  refine (fixup_lands _ _).bind ?_
  rintro ⟨keep, -⟩ -
  rw [hf]
  refine (landingPads_lands (u := v.emit (.br ⟨0, keep, 0⟩)) hfr hb hc).bind ?_
  rintro ⟨recs, u⟩ ⟨hg, he, hm, hpads⟩
  have hp := (patchIp_patched u v.nextIp .single u.nextIp).trans
    (patchAll_patched f.endPatches _ u.nextIp)
  refine Lands.ok ⟨?_, hp.error.trans he, ?_, rfl, rfl⟩
  · show Grown _ v.ctrl (patchAll _ _ _).ctrl
    rw [hp.ctrl]
    exact hg
  · have hwhole := hp.recorded (M := M) |>.trans hm
    ext1
    · exact (congrArg Recorded.peak hwhole).trans (Nat.max_zero _).symm
    · show List.map _ (_ ++ [_]) = List.map _ v.handlers ++ [_]
      rw [List.map_append]
      exact congrArg₂ (· ++ ·) (congrArg Recorded.pads hwhole) (congrArg ([·]) hpads)

/-- The end of a reachable region, behind its body. -/
theorem region_close {r : Region} {bt : BlockType} {i : Flow} {p : Recorded}
    (hr : M.RegionTyped L r) (ht : Live results L base (rest ++ vs) t)
    (hi : LiveStep M.ctx (base + rest.length) (M.blockType bt).2 i p
      { t with
        fusableCmp := none
        ctrl := ⟨regionKind r, base + rest.length, (M.blockType bt).1.length,
          (M.blockType bt).2.length, t.nextIp, [], none, true, false, regionClauses r⟩ :: t.ctrl }
      v) :
    Lands (v.doEnd M.ctx) fun w =>
      Seg M.ctx t w (outerLabels i.exits ++ r.padLabels) i.fits
          (base + rest.length + (M.blockType bt).2.length)
          (p ++ r.recorded M.ctx (base + rest.length)) ∧
        w.reachable = (if r = .loop then i.live else i.live || decide (0 ∈ i.exits)) ∧
        w.height = base + rest.length + (M.blockType bt).2.length ∧
        FramesOk results L base w.ctrl := by
  obtain ⟨f, d, hvc, hsame, hgr, htarget⟩ := hi.seg.ctrl.uncons
  have htarget := htarget ht.frames.ne_nil
  have hbase : f.baseHeight = base + rest.length := by rw [hsame]
  have hres : f.resultCount = (M.blockType bt).2.length := by rw [hsame]
  have hkind : f.kind = regionKind r := by rw [hsame]
  have hroe : f.reachableOnEntry = true := by rw [hsame]
  have helse : f.elsePatch = none := by rw [hsame]
  have hcl : f.clauses = regionClauses r := by rw [hsame]
  have hfr := ht.frames.grown hgr
  -- the facts about the end that do not depend on the kind of region
  have finish : ∀ w : Translator, Grown (outerLabels i.exits ++ r.padLabels) t.ctrl w.ctrl →
      w.error = v.error →
      w.recorded M.ctx = v.recorded M.ctx ++ r.recorded M.ctx (base + rest.length) →
      w.height = f.baseHeight + f.resultCount →
      Seg M.ctx t w (outerLabels i.exits ++ r.padLabels) i.fits
          (base + rest.length + (M.blockType bt).2.length)
          (p ++ r.recorded M.ctx (base + rest.length)) ∧
        w.height = base + rest.length + (M.blockType bt).2.length ∧
        FramesOk results L base w.ctrl := by
    intro w hg he hm hh
    rw [hbase, hres] at hh
    refine ⟨⟨hg, fun hne => ?_, fun hn => ?_, fun _ _ => hh, fun herr => ?_⟩, hh,
      ht.frames.grown hg⟩
    · rw [he]
      exact hi.seg.keeps hne
    · rw [he]
      exact hi.seg.error_iff hn
    · rw [hm, hi.seg.recorded_eq (he.symm.trans herr), Recorded.append_assoc]
      rfl
  unfold doEnd
  rw [hvc]
  cases r with
  | tryTable catches =>
    show Lands (if f.kind = .tryTable ∧ f.reachableOnEntry = true then _ else _) _
    rw [if_pos ⟨hkind, hroe⟩]
    refine (endTryTable_lands (v := { v with fusableCmp := none, ctrl := d }) hfr
      (by rw [hbase]; omega) hcl fun c hcm => (hr c hcm).2).mono ?_
    rintro w ⟨hg, he, hm, hh, hreach⟩
    obtain ⟨hseg, hh', hfr'⟩ := finish w (hgr.trans hg) he (hbase ▸ hm) hh
    refine ⟨hseg, ?_, hh', hfr'⟩
    rw [hreach, htarget (show BlockKind.tryTable ≠ .loop by decide), if_neg (by rintro ⟨⟩)]
    show (v.reachable || (false || _)) = _
    rw [hi.reachable_eq, Bool.false_or]
  | block =>
    show Lands (if f.kind = .tryTable ∧ f.reachableOnEntry = true then _ else _) _
    rw [if_neg (fun h => by rw [hkind] at h; exact absurd h.1 (by decide))]
    obtain ⟨hc, he, hh, hreach⟩ := endBlock_spec f { v with fusableCmp := none, ctrl := d }
    obtain ⟨hseg, hh', hfr'⟩ := finish (endBlock f { v with fusableCmp := none, ctrl := d })
      (by rw [hc]; simpa [Region.padLabels] using hgr) he
      ((endBlock_recorded f _).trans (Recorded.append_none _).symm) hh
    refine Lands.ok ⟨hseg, ?_, hh', hfr'⟩
    rw [hreach, if_neg (by rw [hkind]; decide), htarget (show BlockKind.block ≠ .loop by decide),
      if_neg (by decide), helse]
    show (v.reachable || (false || _) || false) = _
    rw [hi.reachable_eq, Bool.false_or, Bool.or_false]
  | loop =>
    show Lands (if f.kind = .tryTable ∧ f.reachableOnEntry = true then _ else _) _
    rw [if_neg (fun h => by rw [hkind] at h; exact absurd h.1 (by decide))]
    obtain ⟨hc, he, hh, hreach⟩ := endBlock_spec f { v with fusableCmp := none, ctrl := d }
    obtain ⟨hseg, hh', hfr'⟩ := finish (endBlock f { v with fusableCmp := none, ctrl := d })
      (by rw [hc]; simpa [Region.padLabels] using hgr) he
      ((endBlock_recorded f _).trans (Recorded.append_none _).symm) hh
    refine Lands.ok ⟨hseg, ?_, hh', hfr'⟩
    rw [hreach, if_pos (by rw [hkind]; rfl), if_pos rfl]
    exact hi.reachable_eq

/-- The frame of an `if`, over the height `base` of its parameters. -/
structure IfFrame (f : CtrlFrame) (base ps rs : ℕ) : Prop where
  kind : f.kind = .if_
  baseHeight : f.baseHeight = base
  paramCount : f.paramCount = ps
  resultCount : f.resultCount = rs
  reachableOnEntry : f.reachableOnEntry = true

theorem IfFrame.same {f f' : CtrlFrame} {base ps rs : ℕ} (h : IfFrame f base ps rs)
    (hs : Same f f') : IfFrame f' base ps rs := by
  rw [hs]
  exact ⟨h.kind, h.baseHeight, h.paramCount, h.resultCount, h.reachableOnEntry⟩

theorem IfFrame.labelArity {base ps rs : ℕ} (h : IfFrame f base ps rs) : f.labelArity = rs := by
  unfold CtrlFrame.labelArity
  rw [if_neg (by rw [h.kind]; decide), h.resultCount]

theorem if_open {bt : BlockType} (hv : M.Subs vs (M.blockType bt).1)
    (ht : Live results L base (rest ++ vs ++ [.i32]) t) :
    ∃ u f, t.visit M.ctx (.if_ bt) = .ok u ∧ u.ctrl = f :: t.ctrl ∧
      IfFrame f (base + rest.length) (M.blockType bt).1.length (M.blockType bt).2.length ∧
      f.elsePatch.isSome = true ∧ f.endTargeted = false ∧ u.error = t.error ∧
      u.recorded M.ctx = t.recorded M.ctx ∧ u.reachable = true ∧ u.height = t.height - 1 := by
  have hh := ht.height_append
  rw [List.length_append, hv.length_eq, List.length_singleton] at hh
  obtain ⟨idx, v, hif, hvc, hve, hvm, hvr, hvh⟩ : ∃ idx v, t.ifBranch = (some idx, v) ∧
      v.ctrl = t.ctrl ∧ v.error = t.error ∧ v.recorded M.ctx = t.recorded M.ctx ∧
        v.reachable = true ∧
      v.height = t.height - 1 := by
    rw [ifBranch, if_pos ht.reachable, pop_of_le (by omega)]
    cases hfc : t.fusableCmp with
    | some kind =>
      simp only []
      exact ⟨_, _, rfl, rfl, rfl, rfl, ht.reachable, rfl⟩
    | none =>
      simp only []
      exact ⟨_, _, rfl, rfl, rfl, rfl, ht.reachable, rfl⟩
  have hbelow : ({ v with fusableCmp := none } : Translator).heightBelow (M.blockType bt).1.length
      = (base + rest.length, { v with fusableCmp := none }) := by
    rw [heightBelow_of_le (t := { v with fusableCmp := none })
      (show (M.blockType bt).1.length ≤ v.height by omega)]
    show (v.height - _, _) = _
    rw [show v.height - (M.blockType bt).1.length = base + rest.length by omega]
  have hpush : t.pushIf M.ctx bt = { v with
      fusableCmp := none
      ctrl := ⟨.if_, base + rest.length, (M.blockType bt).1.length, (M.blockType bt).2.length,
        v.nextIp, [], some idx, v.reachable, false, []⟩ :: v.ctrl } := by
    rw [pushIf, M.blockArity_eq, hif]
    simp only [hbelow]
    rfl
  exact ⟨_, _, congrArg Except.ok hpush, by rw [hvc], ⟨rfl, rfl, rfl, rfl, hvr⟩, rfl, rfl, hve, hvm,
    hvr, hvh⟩

theorem elseBranch_lands {n : ℕ} (hc : v.ctrl = f :: d) :
    Lands (v.elseBranch n) fun w => ∃ ps, w.ctrl = { f with
        endPatches := ps
        endTargeted := v.reachable || f.endTargeted } :: d ∧ w.error = v.error ∧
      w.recorded M.ctx = v.recorded M.ctx := by
  unfold elseBranch
  by_cases hr : v.reachable = true
  · rw [if_pos hr]
    refine (fixup_lands _ _).bind ?_
    rintro ⟨keep, -⟩ -
    refine Lands.ok ⟨f.endPatches ++ [⟨v.nextIp, .single⟩], ?_, rfl, rfl⟩
    show (v.ctrl.modify 0 _) = _
    rw [hc, hr]
    rfl
  · rw [if_neg hr]
    refine Lands.ok ⟨f.endPatches, ?_, rfl, rfl⟩
    rw [hc, Bool.not_eq_true _ |>.mp hr, Bool.false_or]

theorem doElse_lands (hc : v.ctrl = f :: d) :
    Lands v.doElse fun w => ∃ ps, w.ctrl = { f with
        endPatches := ps
        endTargeted := v.reachable || f.endTargeted
        elsePatch := none } :: d ∧ w.error = v.error ∧ w.recorded M.ctx = v.recorded M.ctx ∧
      w.reachable = f.reachableOnEntry ∧ w.height = f.baseHeight + f.paramCount := by
  unfold doElse
  split
  · rename_i hnil
    rw [hnil] at hc
    cases hc
  · rename_i g rest hg
    obtain ⟨rfl, rfl⟩ := List.cons.inj (hg.symm.trans hc)
    refine (elseBranch_lands (M := M) (v := { v with fusableCmp := none }) hc).bind ?_
    rintro w ⟨ps, hw, he, hm⟩
    have hp := patchElse_patched w g.elsePatch w.nextIp
    refine Lands.ok ⟨ps, ?_, hp.error.trans he, hp.recorded.trans hm, rfl, rfl⟩
    show List.modify (w.patchElse g.elsePatch w.nextIp).ctrl 0 _ = _
    rw [hp.ctrl, hw]
    rfl

/-- The end of an `if`. -/
theorem if_close {ps rs : ℕ} {p : Recorded} {e : List ℕ} {b : Bool} {ts : List IrVal}
    (ht : Live results L base ts t) (hvc : v.ctrl = f :: d)
    (hf : IfFrame f (base + rest.length) ps rs) (hg : Grown e t.ctrl d)
    (hkeeps : t.error ≠ none → v.error ≠ none) (hiff : t.error = none → (v.error = none ↔ b = true))
    (hrecorded : v.error = none → v.recorded M.ctx = t.recorded M.ctx ++ p) :
    ∃ w, v.doEnd M.ctx = .ok w ∧ Seg M.ctx t w e b (base + rest.length + rs) p ∧
      w.reachable = (v.reachable || f.endTargeted || f.elsePatch.isSome) ∧
      w.height = base + rest.length + rs ∧ FramesOk results L base w.ctrl := by
  obtain ⟨hc, he, hh, hreach⟩ := endBlock_spec f { v with fusableCmp := none, ctrl := d }
  rw [hf.baseHeight, hf.resultCount] at hh
  rw [if_neg (by rw [hf.kind]; decide)] at hreach
  refine ⟨endBlock f { v with fusableCmp := none, ctrl := d }, ?_,
    ⟨by rw [hc]; exact hg, fun h => by rw [he]; exact hkeeps h, fun h => by rw [he]; exact hiff h,
      fun _ _ => hh, fun h => (endBlock_recorded f _).trans (hrecorded (he.symm.trans h))⟩, hreach,
        hh, by rw [hc]; exact ht.frames.grown hg⟩
  unfold doEnd
  rw [hvc]
  show (if f.kind = .tryTable ∧ f.reachableOnEntry = true then _ else _) = _
  rw [if_neg (fun h => by rw [hf.kind] at h; exact absurd h.1 (by decide))]

end Blocks

/-! ## The whole body -/

/-- The label of a reachable region's frame. -/
theorem FramesOk.region {results : List IrVal} {L : List (List IrVal)} {base : ℕ}
    {c : List CtrlFrame} (h : FramesOk results L base c) (r : Region) (bt : BlockType)
    (rest : List IrVal) (ip : ℕ)
    (hw : base + rest.length + (M.blockType bt).1.length + (M.blockType bt).2.length < 2 ^ 32) :
    FramesOk results (M.labelType r bt :: L) (base + rest.length)
      (⟨regionKind r, base + rest.length, (M.blockType bt).1.length, (M.blockType bt).2.length, ip,
        [], none, true, false, regionClauses r⟩ :: c) := by
  refine h.cons (by omega) rfl ?_ ?_
  · cases r <;> simp [CtrlFrame.labelArity, ModuleTypes.labelType, regionKind]
  · unfold ModuleTypes.labelType
    split <;> omega

theorem condTyped_length_le {c : CondBr} {ts' : List IrVal} (h : M.CondTyped L c ts ts') :
    ts'.length ≤ ts.length := by
  cases h with
  | brIf rest _ h | brOnNull rest _ h | brOnNonNull rest _ h _ | brOnCast rest _ h _ _ _
  | brOnCastFail rest _ h _ _ =>
    have := h.length_eq
    simp only [List.length_append, List.length_singleton]
    omega

section Sequences

variable {results : List IrVal} {L : List (List IrVal)} {k : Body} {us : List IrVal}

/-- An operator in front of a sequence that is reached. -/
theorem Follows.next {b : Body} {ts' : List IrVal} {base : ℕ} {t : Translator}
    {r : Except CompileError Translator} {e : List ℕ} {h : ℕ} {p : Recorded}
    (hk : Follows M results L k ts' us) (hlen : base + ts'.length + k.weight M.ctx < 2 ^ 32)
    (hop : Lands r fun u => Seg M.ctx t u e true h p ∧ Live results L base ts' u)
    (hrun : visitAll M.ctx b.flatten t = r >>= visitAll M.ctx k.flatten) :
    Lands (visitAll M.ctx b.flatten t)
      (LiveStep M.ctx base us ((k.flow M.ctx true h).after e true) (p ++ k.recorded M.ctx true h)
        t) := by
  rw [hrun]
  refine hop.bind ?_
  rintro u ⟨hs, hlive⟩
  exact (hk base u hlive hlen).mono fun t' hstep => hstep.after hs

variable {bt : BlockType} {vs rest : List IrVal}

theorem follows_plain {locals : List IrVal} {p : PlainOp BigMemArg} {ins outs : List IrVal}
    (hp : M.PlainTyped locals p ins outs) (h : M.Subs vs ins)
    (hk : Follows M results L k (rest ++ outs) us) :
    Follows M results L (.plain p k) (rest ++ vs) us := by
  intro base t ht hw
  obtain ⟨pops, pushes, n, -, hin, hout, hle⟩ := effect_typed hp
  have hlen := h.length_eq
  have hh := ht.height_append
  rw [List.length_append, Body.weight] at hw
  refine hk.next ?_ (visitPlain_live hp h ht (by omega)) rfl
  rw [List.length_append]
  omega

theorem follows_call {c : CallTarget} (h : M.Subs vs (M.callOperands c))
    (hk : Follows M results L k (rest ++ (callSig M.ctx c).2) us) :
    Follows M results L (.call c k) (rest ++ vs) us := by
  intro base t ht hw
  have hlen := h.length_eq
  have hh := ht.height_append
  rw [List.length_append, Body.weight] at hw
  refine hk.next ?_ (call_live h ht (by omega)) rfl
  rw [List.length_append]
  omega

theorem follows_cond {c : CondBr} {ts ts' : List IrVal} (h : M.CondTyped L c ts ts')
    (hk : Follows M results L k ts' us) : Follows M results L (.cond c k) ts us := by
  intro base t ht hw
  rw [Body.weight] at hw
  have hlen := condTyped_length_le h
  exact hk.next (by omega) (cond_live h ht (by rw [ht.height_eq]; omega)) rfl

/-- What follows a jump is unreachable. -/
theorem follows_jump {j : Jump} {ts : List IrVal} (h : M.JumpTyped results L j ts) :
    Follows M results L (.jump j k) ts us := by
  intro base t ht hw
  refine (jump_live h ht).bind ?_
  rintro u ⟨hs, hr⟩
  obtain ⟨t', hrun, hdead⟩ := @visitAll_dead M.ctx k _ hr
  have hd := Body.flow_dead M.ctx k u.height
  rw [hrun]
  have hdead' : LiveStep M.ctx base us (k.flow M.ctx false u.height)
      (k.recorded M.ctx false u.height) u t' := by
    rw [Body.recorded_dead]
    refine ⟨hdead.seg hd.2, ?_, fun hl => ?_⟩
    · rw [hdead.reachable_eq, hr, hd.1]
    · rw [hd.1] at hl
      cases hl
  have hflow := LiveStep.after hs hdead'
  rw [Body.recorded_dead, Recorded.append_none] at hflow
  exact Lands.ok hflow

/-- A construct that ends at `base + rest.length + rs`, in front of a sequence. -/
theorem Follows.behind {rs : List IrVal} {base : ℕ} {t u : Translator} {e : List ℕ} {g live : Bool}
    {h : ℕ} {p : Recorded} (hk : Follows M results L k (rest ++ rs) us)
    (hw : base + rest.length + rs.length + k.weight M.ctx < 2 ^ 32)
    (hseg : Seg M.ctx t u e g (base + rest.length + rs.length) p) (hlive : u.reachable = live)
    (hh : u.height = base + rest.length + rs.length) (hfr : FramesOk results L base u.ctrl)
    (heq : base + rest.length + rs.length = h) :
    Lands (visitAll M.ctx k.flatten u)
      (LiveStep M.ctx base us ((k.flow M.ctx live h).after e g) (p ++ k.recorded M.ctx live h)
        t) := by
  refine (hk.resume hfr (fun _ => ?_) ?_).mono fun t' hstep => ?_
  · rw [hh, List.length_append, Nat.add_assoc]
  · rw [List.length_append]
    omega
  · rw [hlive] at hstep
    have hflow := LiveStep.after hseg hstep
    rw [heq] at hflow
    exact hflow

theorem follows_region {r : Region} {b : Body} (h : M.Subs vs (M.blockType bt).1)
    (hr : M.RegionTyped L r)
    (hb : Follows M results (M.labelType r bt :: L) b (M.blockType bt).1 (M.blockType bt).2)
    (hk : Follows M results L k (rest ++ (M.blockType bt).2) us) :
    Follows M results L (.region r bt b k) (rest ++ vs) us := by
  intro base t ht hw
  have hlen := h.length_eq
  rw [List.length_append, Body.weight, M.blockArity_eq] at hw
  have hh := ht.height_append
  rw [Body.flatten, visitAll_cons_ok (region_open h ht), visitAll_append]
  refine (hb (base + rest.length) _ ⟨?_, ?_, ?_⟩ ?_).bind fun v hv => ?_
  · exact ht.reachable
  · show t.height = _
    omega
  · exact ht.frames.region r bt rest t.nextIp (by omega)
  · omega
  refine (region_close hr ht hv).bind ?_
  rintro w ⟨hseg, hreach, hheight, hfr⟩
  have hflow := hk.behind (by omega) hseg hreach hheight hfr (show _ =
    t.height - (M.blockType bt).1.length + (M.blockType bt).2.length by omega)
  rw [show base + rest.length = t.height - (M.blockType bt).1.length by omega] at hflow
  simpa only [Body.flow, Body.recorded, M.blockArity_eq, true_or, decide_true,
    Bool.true_and, if_true]
    using hflow

/-- The state behind the first operator of a reachable `if`, ready for a part of it. -/
theorem live_if {f : CtrlFrame} {base : ℕ} {c : List CtrlFrame} {u : Translator}
    (hfr : FramesOk results L base c)
    (hf : IfFrame f (base + rest.length) (M.blockType bt).1.length (M.blockType bt).2.length)
    (huc : u.ctrl = f :: c) (hur : u.reachable = true)
    (huh : u.height = base + rest.length + (M.blockType bt).1.length)
    (hw : base + rest.length + (M.blockType bt).2.length < 2 ^ 32) :
    Live results ((M.blockType bt).2 :: L) (base + rest.length) (M.blockType bt).1 u := by
  refine ⟨hur, huh, ?_⟩
  rw [huc]
  exact hfr.cons (Nat.le_add_right _ _) hf.baseHeight hf.labelArity hw

theorem follows_ifThen {b : Body} (h : M.Subs vs (M.blockType bt).1)
    (hb : Follows M results ((M.blockType bt).2 :: L) b (M.blockType bt).1 (M.blockType bt).2)
    (hk : Follows M results L k (rest ++ (M.blockType bt).2) us) :
    Follows M results L (.ifThen bt b k) (rest ++ vs ++ [.i32]) us := by
  intro base t ht hw
  have hlen := h.length_eq
  have hh := ht.height_append
  rw [List.length_append, List.length_singleton] at hh
  rw [List.length_append, List.length_append, List.length_singleton, Body.weight,
    M.blockArity_eq] at hw
  obtain ⟨u, f, hopen, huc, hf, helse, htgt, hue, hum, hur, huh⟩ := if_open h ht
  have hulive := live_if ht.frames hf huc hur (by omega) (by omega)
  rw [Body.flatten, visitAll_cons_ok hopen, visitAll_append]
  refine (hb _ _ hulive (by omega)).bind fun v hv => ?_
  have hgrown := hv.seg.ctrl
  rw [huc] at hgrown
  obtain ⟨g, d, hvc, hsame, hgr, htarget⟩ := hgrown.uncons
  have htarget := htarget ht.frames.ne_nil (by rw [hf.kind]; decide)
  obtain ⟨w, hend, hseg, hreach, hheight, hfr⟩ := if_close (M := M) (b :=
    (b.flow M.ctx true u.height).fits) ht hvc (hf.same hsame) hgr
    (fun hne => hv.seg.keeps (by rw [hue]; exact hne))
    (fun hn => hv.seg.error_iff (by rw [hue]; exact hn))
    (fun hn => (hv.seg.recorded_eq hn).trans (by rw [hum]))
  rw [visitAll_cons_ok (o := .end_) hend]
  rw [hv.reachable_eq, htarget, htgt, show g.elsePatch = f.elsePatch by rw [hsame], helse]
    at hreach
  have hflow := hk.behind (by omega) hseg hreach hheight hfr (show _ =
    t.height - 1 - (M.blockType bt).1.length + (M.blockType bt).2.length by omega)
  rw [huh] at hflow
  simpa only [Body.flow, Body.recorded, M.blockArity_eq, true_or, decide_true, Bool.true_and,
    if_true, Bool.false_or] using hflow

/-- Both parts of an `if`: nothing is latched exactly if neither latches anything. -/
theorem both_error_iff {u v x y : Translator} {e e' : List ℕ} {g g' : Bool} {h h' : ℕ}
    {p p' : Recorded} (hv : Seg M.ctx u v e g h p) (hxe : x.error = v.error)
    (hy : Seg M.ctx x y e' g' h' p')
    (hue : u.error = none) : y.error = none ↔ (g && g') = true := by
  rw [Bool.and_eq_true, ← hv.error_iff hue]
  by_cases hve : v.error = none
  · rw [hy.error_iff (hxe.trans hve)]
    exact ⟨fun h2 => ⟨hve, h2⟩, fun h2 => h2.2⟩
  · exact ⟨fun h2 => absurd h2 (hy.keeps (by rw [hxe]; exact hve)), fun h2 => absurd h2.1 hve⟩

theorem follows_ifElse {b e : Body} (h : M.Subs vs (M.blockType bt).1)
    (hb : Follows M results ((M.blockType bt).2 :: L) b (M.blockType bt).1 (M.blockType bt).2)
    (he : Follows M results ((M.blockType bt).2 :: L) e (M.blockType bt).1 (M.blockType bt).2)
    (hk : Follows M results L k (rest ++ (M.blockType bt).2) us) :
    Follows M results L (.ifElse bt b e k) (rest ++ vs ++ [.i32]) us := by
  intro base t ht hw
  have hlen := h.length_eq
  have hh := ht.height_append
  rw [List.length_append, List.length_singleton] at hh
  rw [List.length_append, List.length_append, List.length_singleton, Body.weight,
    M.blockArity_eq] at hw
  obtain ⟨u, f, hopen, huc, hf, helse, htgt, hue, hum, hur, huh⟩ := if_open h ht
  have hulive := live_if ht.frames hf huc hur (by omega) (by omega)
  rw [Body.flatten, visitAll_cons_ok hopen, visitAll_append]
  refine (hb _ _ hulive (by omega)).bind fun v hv => ?_
  have hgrown := hv.seg.ctrl
  rw [huc] at hgrown
  obtain ⟨g, d, hvc, hsame, hgr, htarget⟩ := hgrown.uncons
  have htarget := htarget ht.frames.ne_nil (by rw [hf.kind]; decide)
  have hg := hf.same hsame
  -- the `else` part starts where the `then` part did
  refine (doElse_lands (M := M) hvc).bind ?_
  rintro x ⟨ps, hxc, hxe, hxm, hxr, hxh⟩
  rw [hg.reachableOnEntry] at hxr
  rw [hg.baseHeight, hg.paramCount] at hxh
  have hxlive := live_if (ht.frames.grown hgr) (f := { g with
      endPatches := ps
      endTargeted := v.reachable || g.endTargeted
      elsePatch := none })
    ⟨hg.kind, hg.baseHeight, hg.paramCount, hg.resultCount, hg.reachableOnEntry⟩ hxc hxr hxh
    (by omega)
  rw [visitAll_append]
  refine (he _ _ hxlive (by omega)).bind fun y hy => ?_
  have hgrown' := hy.seg.ctrl
  rw [hxc] at hgrown'
  obtain ⟨g', d', hyc, hsame', hgr', htarget'⟩ := hgrown'.uncons
  have htarget' := htarget' (ht.frames.grown hgr).ne_nil (by show g.kind ≠ _; rw [hg.kind]; decide)
  have hxu : x.height = u.height := by omega
  have hg' : IfFrame g' (base + rest.length) (M.blockType bt).1.length
      (M.blockType bt).2.length := by
    rw [hsame']
    exact ⟨hg.kind, hg.baseHeight, hg.paramCount, hg.resultCount, hg.reachableOnEntry⟩
  obtain ⟨w, hend, hseg, hreach, hheight, hfr⟩ := if_close (M := M)
    (b := (b.flow M.ctx true u.height).fits && (e.flow M.ctx true x.height).fits) ht hyc
    hg' (hgr.trans hgr')
    (fun hne => hy.seg.keeps (by rw [hxe]; exact hv.seg.keeps (by rw [hue]; exact hne)))
    (fun hn => both_error_iff hv.seg hxe hy.seg (hue.trans hn))
    (fun hn => by
      rw [hy.seg.recorded_eq hn, hxm, hv.seg.recorded_eq (hxe.symm.trans (hy.seg.error_before hn)),
        hum, Recorded.append_assoc])
  rw [visitAll_cons_ok (o := .end_) hend]
  have hgelse : g'.elsePatch = none := by rw [hsame']
  have hafter : w.reachable = ((e.flow M.ctx true x.height).live ||
      ((b.flow M.ctx true u.height).live || decide (0 ∈ (b.flow M.ctx true u.height).exits
        ++ (e.flow M.ctx true x.height).exits))) := by
    rw [hreach, hy.reachable_eq, htarget', hgelse, hv.reachable_eq, htarget, htgt]
    simp only [List.mem_append, Bool.decide_or, Option.isSome_none, Bool.or_false,
      Bool.false_or, Bool.or_assoc]
  have hflow := hk.behind (by omega) hseg hafter hheight hfr (show _ =
    t.height - 1 - (M.blockType bt).1.length + (M.blockType bt).2.length by omega)
  rw [hxu, huh, ← outerLabels_append] at hflow
  simpa only [Body.flow, Body.recorded, M.blockArity_eq, true_or, decide_true,
    Bool.true_and, if_true]
    using hflow

end Sequences

/-- The translator follows the flow of every well-typed sequence it reaches. -/
theorem follows {b : Body} (h : M.HasType locals results L b ts us) :
    Follows M results L b ts us := by
  induction h with
  | done h =>
    intro base t ht _
    refine Lands.ok ⟨Seg.of_eq (Grown.refl _) rfl rfl rfl, ht.reachable, fun _ => ?_⟩
    rw [ht.height_eq, h.length_eq]
  | plain rest hp h _ ih => exact follows_plain hp h ih
  | call rest hc h _ ih => exact follows_call h ih
  | cond h _ ih => exact follows_cond h ih
  | jump h => exact follows_jump h
  | region rest h hr _ _ ihb ihk => exact follows_region h hr ihb ihk
  | ifThen rest h _ _ _ ihb ihk => exact follows_ifThen h ihb ihk
  | ifElse rest h _ _ _ ihb ihe ihk => exact follows_ifElse h ihb ihe ihk

/-- The function's own frame. -/
theorem framesOk_new (results : List IrVal) (h : results.length < 2 ^ 32) :
    FramesOk results [results] 0 [funcFrame results.length] := by
  refine ⟨fun l ls hl => ?_, funcFrame results.length, rfl, rfl⟩
  cases l with
  | zero =>
    obtain rfl : results = ls := Option.some.inj hl
    refine ⟨funcFrame results.length, rfl, rfl, le_refl _, ?_⟩
    show 0 + results.length < 2 ^ 32
    omega
  | succ l => cases hl

/-- A whole body: the translator reaches its end, and has latched an error exactly when some
unreachable construct does not fit; if not, what it records is told from the body. -/
theorem visitAll_operators {b : Body} (h : M.HasType locals results [results] b [] results)
    (hw : results.length + b.weight M.ctx < 2 ^ 32) :
    Lands (visitAll M.ctx b.operators (new results.length)) fun t =>
      (t.error = none ↔ b.DeadFits M.ctx) ∧
        (t.error = none → t.recorded M.ctx = b.recorded M.ctx true 0) := by
  unfold Body.operators
  rw [visitAll_append]
  refine (follows h 0 (new results.length) ⟨rfl, rfl, framesOk_new results (by omega)⟩
    (by show 0 + 0 + _ < _; omega)).bind fun t ht => ?_
  obtain ⟨f, d, hc, hsame, -, -⟩ := ht.seg.ctrl.uncons
  have hend : t.doEnd M.ctx = .ok (endBlock f { t with fusableCmp := none, ctrl := d }) := by
    unfold doEnd
    rw [hc]
    show (if f.kind = .tryTable ∧ f.reachableOnEntry = true then _ else _) = _
    have hkind : f.kind = .block := by rw [hsame]; rfl
    rw [if_neg (fun h => by rw [hkind] at h; exact absurd h.1 (by decide))]
  rw [visitAll_cons_ok (o := .end_) hend]
  obtain ⟨-, he, -, -⟩ := endBlock_spec f { t with fusableCmp := none, ctrl := d }
  refine Lands.ok ⟨?_, fun herr => ?_⟩
  · rw [he]
    exact ht.seg.error_iff rfl
  · rw [endBlock_recorded]
    refine (ht.seg.recorded_eq (he.symm.trans herr)).trans ?_
    exact Recorded.none_append _

end Translator

/-! ## Functions -/

theorem expandLocals_lands (ctx : CompileCtx) (used : ℕ) (groups : List (ℕ × IrVal)) :
    Translator.Lands (expandLocals ctx used groups) fun tys =>
      tys = groups.flatMap fun g => List.replicate g.1 g.2 := by
  induction groups generalizing used with
  | nil => exact rfl
  | cons g groups ih =>
    unfold expandLocals
    simp only []
    split
    · refine (ih (used + g.1)).bind fun rest hrest => ?_
      subst hrest
      exact rfl
    · exact CompileError.Limit.locals _

/-- The operands a body pushes in all are bounded by its size: only a call or a block, of two
bytes or more, can push several. -/
theorem Body.weight_le {ctx : CompileCtx} (h : ∀ i, (ctx.sig i).2.length ≤ 1000) (b : Body) :
    b.weight ctx ≤ 500 * b.bytes := by
  have hblock : ∀ bt, (Translator.blockArity ctx bt).2 ≤ 1000 := by
    intro bt
    cases bt with
    | empty => exact Nat.zero_le _
    | type v => show 1 ≤ 1000; omega
    | funcType i => exact h i
  have hcall : ∀ c, (Translator.callSig ctx c).2.length ≤ 1000 := by
    intro c
    cases c with
    | func f => exact h _
    | indirect ty table => exact h ty
    | ref ty => exact h ty
  induction b with
  | done => exact le_refl _
  | plain p k ih => simp only [Body.weight, Body.bytes]; omega
  | jump j k ih => simp only [Body.weight, Body.bytes]; omega
  | cond c k ih => simp only [Body.weight, Body.bytes]; omega
  | call c k ih =>
    have := hcall c
    simp only [Body.weight, Body.bytes]
    omega
  | region r bt b k ihb ihk =>
    have := hblock bt
    simp only [Body.weight, Body.bytes]
    omega
  | ifElse bt b e k ihb ihe ihk =>
    have := hblock bt
    simp only [Body.weight, Body.bytes]
    omega
  | ifThen bt b k ihb ihk =>
    have := hblock bt
    simp only [Body.weight, Body.bytes]
    omega

theorem ModuleTypes.Validated.weight_lt {M : ModuleTypes} {typeIdx : ℕ}
    {declared : List (ℕ × IrVal)} {b : Body} (h : M.Validated typeIdx declared b) :
    (M.ctx.sig typeIdx).2.length + b.weight M.ctx < 2 ^ 32 := by
  have h1 := Body.weight_le h.arity b
  have h2 := h.size
  have h3 := h.arity typeIdx
  omega

/-- The outcome of a translation: it stops at a limit, or all its operators are lowered and the
latched error decides. -/
theorem translateFunction_outcome {M : ModuleTypes} {typeIdx used : ℕ}
    {declared : List (ℕ × IrVal)} {b : Body} (h : M.Validated typeIdx declared b) :
    (∃ e, e.Limit ∧ translateFunction M.ctx used typeIdx declared b.operators = .error e) ∨
      (b.DeadFits M.ctx ∧ ∃ f, translateFunction M.ctx used typeIdx declared b.operators = .ok f) ∨
      (¬b.DeadFits M.ctx ∧
        ∃ e, translateFunction M.ctx used typeIdx declared b.operators = .error e) := by
  have hlocals := expandLocals_lands M.ctx used declared
  have hvisit := Translator.visitAll_operators h.typed h.weight_lt
  unfold translateFunction
  cases hl : expandLocals M.ctx used declared with
  | error e =>
    rw [hl] at hlocals
    exact .inl ⟨e, hlocals, rfl⟩
  | ok tys =>
    cases hv : Translator.visitAll M.ctx b.operators
        (Translator.new (M.ctx.sig typeIdx).2.length) with
    | error e =>
      rw [hv] at hvisit
      exact .inl ⟨e, hvisit, by simp only [bind, Except.bind, hv]⟩
    | ok t =>
      rw [hv] at hvisit
      have hiff : t.error = none ↔ b.DeadFits M.ctx := hvisit.1
      cases he : t.error with
      | none => exact .inr (.inl ⟨hiff.mp he, _, by simp only [bind, Except.bind, hv, he]; rfl⟩)
      | some e =>
        refine .inr (.inr ⟨fun hf => ?_, e, by simp only [bind, Except.bind, hv, he]⟩)
        rw [hiff.mpr hf] at he
        cases he

/-- A validated body that stays within the documented limits compiles if and only if no block,
loop, `if` or `try_table` in its unreachable code has more parameters than the operand height
the translator meets there. -/
theorem translateFunction_ok_iff {M : ModuleTypes} {typeIdx used : ℕ}
    {declared : List (ℕ × IrVal)} {b : Body} (h : M.Validated typeIdx declared b)
    (hlim : ∀ e, translateFunction M.ctx used typeIdx declared b.operators = .error e → ¬e.Limit) :
    (∃ f, translateFunction M.ctx used typeIdx declared b.operators = .ok f)
      ↔ b.DeadFits M.ctx := by
  rcases @translateFunction_outcome _ _ used _ _ h with ⟨e, hel, he⟩ | ⟨hd, hok⟩ | ⟨hd, e, he⟩
  · exact absurd hel (hlim e he)
  · exact ⟨fun _ => hd, fun _ => hok⟩
  · refine ⟨fun hok => ?_, fun hf => absurd hf hd⟩
    obtain ⟨f, hf⟩ := hok
    rw [he] at hf
    cases hf

/-! ## The failing case -/

/-- Two function types: `[] → []`, and the block type `[i32] → []`. -/
def deadBlockTypes : ModuleTypes where
  ctx := ⟨[⟨0, .final, none, .func [] []⟩, ⟨1, .final, none, .func [.i32] []⟩], [0], [], 50000⟩
  globals := []
  tables := []
  memories := []
  elems := []
  sub := Eq
  sub_refl := Eq.refl
  sub_refKind := @IrVal.refKind_eq

/-- `unreachable; block (param i32) drop end`: valid, since the stack behind `unreachable` is
polymorphic, but the translator's height there is still `0`. -/
def deadBlock : Body := .jump .unreachable (.region .block (.funcType 1) (.plain .drop .done) .done)

/-- `i32.const 7; unreachable; block (param i32) drop end`: the height left behind suffices. -/
def deadBlockFits : Body := .plain (.i32Const 7) deadBlock

theorem deadBlockTypes_arity (i : ℕ) : (deadBlockTypes.ctx.sig i).2.length ≤ 1000 := by
  rcases i with _ | _ | i
  · decide
  · decide
  · exact Nat.zero_le _

theorem deadBlock_validated : deadBlockTypes.Validated 0 [] deadBlock :=
  ⟨.jump (.unreachable []), by decide, deadBlockTypes_arity⟩

theorem deadBlockFits_validated : deadBlockTypes.Validated 0 [] deadBlockFits :=
  ⟨.plain [] (.i32Const 7) .nil (.jump (.unreachable _)), by decide, deadBlockTypes_arity⟩

/-- Validation does not imply compilation within the limits. -/
theorem not_validated_imp_compiles :
    ¬∀ (M : ModuleTypes) (used typeIdx : ℕ) (declared : List (ℕ × IrVal)) (b : Body),
      M.Validated typeIdx declared b →
        (∃ f, translateFunction M.ctx used typeIdx declared b.operators = .ok f) ∨
          ∃ e, e.Limit ∧ translateFunction M.ctx used typeIdx declared b.operators = .error e := by
  intro h
  have herr : translateFunction deadBlockTypes.ctx 0 0 [] deadBlock.operators
      = .error (.compiler "control operand height underflow") := rfl
  rcases h deadBlockTypes 0 0 [] deadBlock deadBlock_validated with ⟨f, hf⟩ | ⟨e, hlim, he⟩
  · rw [herr] at hf
    cases hf
  · rw [herr] at he
    cases he
    cases hlim

theorem translateFunction_ok_iff_deadBlockFits :
    deadBlockFits.DeadFits deadBlockTypes.ctx ∧
      ((∃ f, translateFunction deadBlockTypes.ctx 0 0 [] deadBlockFits.operators = .ok f)
        ↔ deadBlockFits.DeadFits deadBlockTypes.ctx) := by
  refine ⟨by decide, translateFunction_ok_iff deadBlockFits_validated fun e he => ?_⟩
  have hok : ∃ f, translateFunction deadBlockTypes.ctx 0 0 [] deadBlockFits.operators = .ok f :=
    ⟨_, rfl⟩
  obtain ⟨f, hf⟩ := hok
  rw [hf] at he
  cases he

open Fallible in
/-- **A compiled function records what its body tells.** -/
theorem translateFunction_recorded {M : ModuleTypes} {typeIdx used : ℕ}
    {declared : List (ℕ × IrVal)} {b : Body} {C : CompiledFunc}
    (hb : M.Validated typeIdx declared b)
    (h : translateFunction M.ctx used typeIdx declared b.operators = .ok C) :
    C.recorded M.ctx = b.recorded M.ctx true 0 := by
  have hvisit := Translator.visitAll_operators hb.typed hb.weight_lt
  unfold translateFunction at h
  obtain ⟨localTypes, -, h⟩ := bind_ok h
  obtain ⟨t, hrun, h⟩ := bind_ok h
  have hrun : Translator.visitAll M.ctx b.operators (.new (M.ctx.sig typeIdx).2.length) = .ok t :=
    hrun
  rw [hrun] at hvisit
  split at h
  · cases h
  · rename_i herr
    obtain rfl := Except.ok.inj h
    exact hvisit.2 herr

end SubmilliWasm
