/-
# Step by step

The steps of the nested source that stay in one activation, each against the turn of the flat loop
on the op the code has for it: straight-line ops on their window, conditionals with or without a
comparison taken in, branches over their edges, and the end of a construct.
-/
import SubmilliWasm.Exec.Simulation

namespace SubmilliWasm

open Nested

variable {σ : Type}

/-! ## Straight-line ops -/

/-- What an op in front of `next` decides, for the same op in front of any other. -/
def StepOutcome.resumeAt (next : ℕ) : StepOutcome → StepOutcome
  | .advance _ => .advance next
  | .doGrow memory delta _ => .doGrow memory delta next
  | .doTableGrow table delta init _ => .doTableGrow table delta init next
  | .doGcGrow target bytes _ => .doGcGrow target bytes (next - 1)
  | out => out

theorem StepOutcome.resumeAt_placed (next next' : ℕ) (out : StepOutcome) :
    (out.placed next').resumeAt next = out.placed next := by
  cases out <;> rfl

namespace Handler

variable {nl n : ℕ} {R R' : StepOutcome → ℕ → Prop} {outer below : List Operand}

theorem moved_moved (g g' : StepOutcome → StepOutcome) (H : Handler σ) :
    (H.moved id g).moved id g' = H.moved id (g' ∘ g) := by
  induction H with
  | done r =>
    cases r <;> rfl
  | get k ih => exact congrArg Handler.get (funext fun s => ih s)
  | set s k ih => exact congrArg (Handler.set s) ih
  | look k ih => exact congrArg Handler.look (funext fun v => funext fun sh => ih v sh)
  | pop n accept k ih => exact congrArg (Handler.pop n accept) (funext fun os => ih os)
  | push o k ih => exact congrArg (Handler.push o) ih
  | getLocal i k ih => exact congrArg (Handler.getLocal i) (funext fun o => ih o)
  | setLocal i o k ih => exact congrArg (Handler.setLocal i o) ih
  | branch t k ih => exact congrArg (Handler.branch t) ih

/-- Where an op stands shows in what it decides only. -/
theorem on_moved (g : StepOutcome → StepOutcome) (H : Handler σ) (w : Window) (s : σ) :
    (H.moved id g).on outer below w s
      = ((H.on outer below w s).1, (H.on outer below w s).2.1,
        (H.on outer below w s).2.2.map g) := by
  induction H generalizing w s with
  | done r => rfl
  | get k ih => exact ih s w s
  | set s' k ih => exact ih w s'
  | look k ih => exact ih _ _ w s
  | pop n accept k ih =>
    rw [moved, on, on]
    rcases takeTop n accept w.vals with err | ⟨os, vals⟩
    · rfl
    · exact ih os _ s
  | push o k ih => exact ih _ s
  | getLocal i k ih =>
    rw [moved, on, on]
    cases w.locals[i]? with
    | none => rfl
    | some o => exact ih o w s
  | setLocal i o k ih =>
    rw [moved, on, on]
    split
    · rfl
    · exact ih _ s
  | branch t k ih => rfl

theorem takes_moved {g : StepOutcome → StepOutcome} (hg : ∀ out m, R out m → R' (g out) m)
    {H : Handler σ} (h : H.Takes nl R n) : (H.moved id g).Takes nl R' n := by
  induction H generalizing n with
  | done r =>
    intro out hout
    cases r with
    | error err => cases hout
    | ok out' =>
      obtain rfl := Except.ok.inj hout
      exact hg out' n (h out' rfl)
  | get k ih => exact fun s => ih s (h s)
  | set s k ih => exact ih h
  | look k ih => exact fun v sh => ih v sh (h v sh)
  | pop m accept k ih => exact ⟨h.1, fun os hos => ih os (h.2 os hos)⟩
  | push o k ih => exact ih h
  | getLocal i k ih => exact ⟨h.1, fun o => ih o (h.2 o)⟩
  | setLocal i o k ih => exact ⟨h.1, ih h.2⟩
  | branch t k ih => exact h

end Handler

theorem StepOutcome.Ends.placed {ins outs : ℕ} (next : ℕ) (out : StepOutcome) (m : ℕ)
    (h : out.Ends ins outs m) : (out.placed next).Leaves ins outs m := by
  cases out with
  | advance ip => exact h
  | doGcGrow target bytes ip => exact h
  | _ => exact h.elim

section Straight

variable {D : Denoted σ} (P : Program D)

/-- Where a straight-line op stands shows in what it decides only. -/
theorem Denoted.straight_moved (D : Denoted σ) (p : PlainOp BigMemArg) (inst next : ℕ) :
    D.straight p inst next = (D.straight p inst 0).moved id (StepOutcome.resumeAt next) := by
  have hplaced : ∀ q, (D.den q inst).moved id (StepOutcome.placed next)
      = ((D.den q inst).moved id (StepOutcome.placed 0)).moved id (StepOutcome.resumeAt next) := by
    intro q
    rw [Handler.moved_moved]
    congr 1
    funext out
    exact (out.resumeAt_placed next 0).symm
  cases p with
  | select =>
    refine congrArg (Handler.pop 3 Handler.selectTags) (funext fun os => ?_)
    rcases os with _ | ⟨a, _ | ⟨b, _ | ⟨c, _ | ⟨d, os⟩⟩⟩⟩ <;> rfl
  | nop | drop | localGet | localSet | localTee | i32Const | i64Const | f32Const | f64Const
  | memoryGrow | tableGrow => rfl
  | _ => exact hplaced _

/-- A straight-line op takes the operands of its type. -/
theorem Program.straight_takes {inst idx : ℕ} {p : PlainOp BigMemArg} {ins outs : List IrVal}
    (h : (P.fn inst idx).module.PlainTyped (P.fn inst idx).locals p ins outs) (next : ℕ) :
    (D.straight p inst next).Takes (P.fn inst idx).locals.length
      (StepOutcome.Leaves ins.length outs.length) ins.length := by
  have hlocal : ∀ {i v}, (P.fn inst idx).locals[i]? = some v → i < (P.fn inst idx).locals.length :=
    fun hi => (List.getElem?_eq_some_iff.mp hi).1
  have htyped := h
  have hdone : ∀ {n m : ℕ}, n = m →
    ∀ out, (Except.ok (.advance next) : Except ExecError StepOutcome)
      = .ok out → out.Leaves ins.length m n := by
    rintro n m rfl out hout
    obtain rfl := Except.ok.inj hout
    rfl
  cases h with
  | nop => exact hdone rfl
  | drop v => exact ⟨Nat.le_refl 1, fun os hos => hdone rfl⟩
  | select v =>
    refine ⟨Nat.le_refl 3, fun os hos => ?_⟩
    obtain ⟨a, b, c, rfl⟩ := List.length_eq_three.mp hos
    exact hdone rfl
  | localGet hi => exact ⟨hlocal hi, fun o => hdone rfl⟩
  | localSet hi => exact ⟨Nat.le_refl 1, fun os hos => ⟨hlocal hi, hdone rfl⟩⟩
  | localTee hi => exact ⟨Nat.le_refl 1, fun os hos => ⟨hlocal hi, hdone rfl⟩⟩
  | i32Const b | i64Const b | f32Const b | f64Const b => exact hdone rfl
  | memoryGrow hm =>
    intro s
    refine ⟨Nat.le_refl 1, fun os hos out hout => ?_⟩
    obtain rfl := Except.ok.inj hout
    rfl
  | tableGrow ht =>
    intro s
    refine ⟨Nat.le_succ 1, fun os hos => ⟨Nat.le_refl 1, fun os' hos' out hout => ?_⟩⟩
    obtain rfl := Except.ok.inj hout
    rfl
  | _ => exact Handler.takes_moved (StepOutcome.Ends.placed next) (P.den_takes inst idx htyped)

end Straight

/-! ## Turns of an activation -/

section Turns

variable {D : Denoted σ} {P : Program D} {base : List Operand} {fs₀ : List Frame} {depth : ℕ}
  {a : Activation} {as : List Activation} {f : Frame} {fs : List Frame} {st : StoreState σ}
  {k ip : ℕ}
  {mark : Mark}

/-- The state of the flat loop on the frame `f`, at `ip`. -/
def Frame.turned (f : Frame) (st : StoreState σ) (e : Execution) (k ip : ℕ) (mark : Mark) :
    Turned σ := ⟨st, e, k, .loop ⟨f.code, ip, f.localsBase, f.inst⟩, mark⟩

/-- The op of the running frame, in its interpreter. -/
def Denoted.opAt (D : Denoted σ) (f : Frame) (op : Op) (ip : ℕ) : Handler σ :=
  (D.interp f.code).step f.code op (ip + 1) f.inst

variable {bt : BlockType} {b body : Body} {ss : List Construct} {os vs vals : List Operand}
  {cmp : Option CmpKind}

variable {E e : Execution} {n ip' : ℕ}

/-- A turn that goes on in its frame. -/
theorem turn_goes (hr : Running P base fs₀ a as f fs) {op : Op}
    (hop : (P.of a).code.ops[ip]? = some op) {s : σ} (a' : Activation) (hinst : a'.inst = a.inst)
    (hidx : a'.funcIndex = a.funcIndex) (hsame : a'.locals.length = a.locals.length)
    (hrun : (D.opAt f op ip).run f.localsBase e st.rest
      = (.stacked (f :: fs) depth (operandsOf base as ++ a'.locals ++ flat a'.scopes os), s,
        .ok (.advance ip')))
    (hstand : Standing (P.of a).code (P.of a).module (P.of a).locals (P.of a).results a'.scopes
      a'.vals cmp a'.body ip' 0) (hshown : Shown a'.vals os cmp) :
    Matches P fs₀ ⟨{ st with rest := s }, k, base, fs₀.length, depth, a' :: as, .run⟩
      (D.follow fs₀.length (f.turned st e k ip mark)) := by
  have hof : P.of a' = P.of a := by rw [Program.of, hinst, hidx, Program.of]
  obtain ⟨mark', hexec⟩ := (D.interp f.code).execute_ok st op
    (r := ⟨f.code, ip, f.localsBase, f.inst⟩) fs₀.length k hrun
  rw [Frame.turned, D.follow_loop (hr.op hop), hexec]
  have hr' := hr.update _ hinst hidx hsame
  exact .run hr' ⟨hr'.locals, hof ▸ hstand⟩ hshown

/-- A turn that fails raises its error. -/
theorem turn_fails (hr : Running P base fs₀ a as f fs) {op : Op}
    (hop : (P.of a).code.ops[ip]? = some op) {s : σ} (a' : Activation) (hinst : a'.inst = a.inst)
    (hidx : a'.funcIndex = a.funcIndex) (hscopes : a'.scopes = a.scopes)
    (hsame : a'.locals.length = a.locals.length) {err : ExecError}
    (hcover : ∀ exn, err = .pending exn → a.Covered P ip)
    (hrun : (D.opAt f op ip).run f.localsBase e st.rest
      = (.stacked (f :: fs) depth (operandsOf base as ++ a'.locals ++ flat a.scopes os), s,
        .error err)) :
    Meets P fs₀
      (D.raise ⟨{ st with rest := s }, k, base, fs₀.length, depth, a' :: as, .run⟩ err)
      (D.follow fs₀.length (f.turned st e k ip mark)) := by
  have hof : P.of a' = P.of a := by rw [Program.of, hinst, hidx, Program.of]
  have hcover' : ∀ exn, err = .pending exn → a'.Covered P ip := by
    intro exn herr
    obtain ⟨S, hopen, hspans⟩ := hcover exn herr
    exact ⟨S, by rw [hof, hscopes]; exact hopen, by rw [hof]; exact hspans⟩
  obtain ⟨mark', hexec⟩ := (D.interp f.code).execute_error st op
    (r := ⟨f.code, ip, f.localsBase, f.inst⟩) fs₀.length k hrun
  rw [Frame.turned, D.follow_loop (hr.op hop), hexec, ← hscopes]
  exact raise_meets (hr.update _ hinst hidx hsame) hcover' os { st with rest := s } k rfl mark'

/-- A turn that asks the embedder for room. -/
theorem turn_suspends (hr : Running P base fs₀ a as f fs) {op : Op}
    (hop : (P.of a).code.ops[ip]? = some op) {s : σ} (a' : Activation) (hinst : a'.inst = a.inst)
    (hidx : a'.funcIndex = a.funcIndex) (hsame : a'.locals.length = a.locals.length)
    {out : StepOutcome} {o : RunOutcome} (ip' : ℕ) {owed : ℕ} (hasks : o.Asks [] owed)
    (hrun : (D.opAt f op ip).run f.localsBase e st.rest
      = (.stacked (f :: fs) depth (operandsOf base (a' :: as)), s, .ok out))
    (hout : ∀ (st : StoreState σ) (e : Execution) (r : Regs),
      (D.interp f.code).carryOut st e r fs₀.length k out
        = (st, (Interp.suspend e ip' o).1, k, (Interp.suspend e ip' o).2))
    (hstand : Standing (P.of a).code (P.of a).module (P.of a).locals (P.of a).results a'.scopes
      a'.vals none a'.body ip' owed) :
    Matches P fs₀
      ⟨{ st with rest := s }, k, base, fs₀.length, depth, a' :: as, .suspended o [] owed⟩
      (D.follow fs₀.length (f.turned st e k ip mark)) := by
  have hof : P.of a' = P.of a := by rw [Program.of, hinst, hidx, Program.of]
  have hr' := (hr.update _ hinst hidx hsame).saved ip'
  obtain ⟨mark', hexec⟩ := (D.interp f.code).execute_ok st op
    (r := ⟨f.code, ip, f.localsBase, f.inst⟩) fs₀.length k hrun
  rw [Frame.turned, D.follow_loop (hr.op hop), hexec, hout]
  have hmatch : Matches P fs₀
      ⟨{ st with rest := s }, k, base, fs₀.length, depth, a' :: as, .suspended o [] owed⟩
      ⟨{ st with rest := s }, .stacked ({ f with ip := ip' } :: fs) depth
        (operandsOf base (a' :: as) ++ []), k, .leave (.ok o), mark'⟩ :=
    .suspended hr.based hasks (.cons hr'.holds ⟨hr'.locals, hof ▸ hstand⟩ hr'.waiting)
  rw [List.append_nil] at hmatch
  exact hmatch

variable (depth) in
/-- A handler that keeps to its operands, on the stacks of an activation. -/
theorem window_run (hr : Running P base fs₀ a as f fs) {H : Handler σ} {R : StepOutcome → ℕ → Prop}
    (htakes : H.Takes (P.of a).locals.length R n) (hn : n ≤ a.vals.length)
    (g : StepOutcome → StepOutcome) (s : σ) :
    ∃ w s' r, H.on (operandsOf base as) (under a.scopes) ⟨a.locals, a.vals⟩ s = (w, s', r) ∧
      (H.moved id g).run f.localsBase (.stacked (f :: fs) depth
          (operandsOf base as ++ a.locals ++ flat a.scopes a.vals)) s
        = (.stacked (f :: fs) depth (operandsOf base as ++ w.locals ++ flat a.scopes w.vals), s',
          r.map g) ∧
      w.locals.length = a.locals.length ∧ a.vals.length - n ≤ w.vals.length ∧
      ∀ out, r = .ok out → R out (w.vals.length - (a.vals.length - n)) := by
  have hstacked : ∀ w : Window, operandsOf base as ++ w.locals ++ under a.scopes ++ w.vals
      = operandsOf base as ++ w.locals ++ flat a.scopes w.vals := by
    intro w
    rw [flat_eq, ← List.append_assoc]
  have hrun := H.run_moved id g f.localsBase
    (.stacked (f :: fs) depth (operandsOf base as ++ a.locals ++ flat a.scopes a.vals)) s
  have hleaves := Handler.on_leaves (operandsOf base as) (under a.scopes) htakes
    (w := ⟨a.locals, a.vals⟩) hr.locals hn s
  rw [hr.holds.localsBase, ← hstacked ⟨a.locals, a.vals⟩,
    Handler.run_stacked _ _ htakes hr.locals hn
    (hr.holds.operandBase.trans (congrArg _ hr.locals)) hr.holds.bound, hstacked, hstacked] at hrun
  generalize H.on (operandsOf base as) (under a.scopes) ⟨a.locals, a.vals⟩ s
    = result at hrun hleaves
  obtain ⟨w, s', r⟩ := result
  obtain ⟨hwlocals, hprefix, hout⟩ := hleaves
  refine ⟨w, s', r, rfl, ?_, hwlocals.trans hr.locals.symm, ?_, hout⟩
  · rw [hr.holds.localsBase]
    exact hrun
  · have hle := hprefix.length_le
    simp only [List.length_take] at hle
    omega

/-- **A straight-line op does on the stacks what it does on its window.** -/
theorem runPlain_meets (hr : Running P base fs₀ a as f fs) {p' : PlainOp MemArg}
    {p : PlainOp BigMemArg} (hop : (P.of a).code.ops[ip]? = some (.plain p'))
    (hdenotes : p'.mapMem (MemArg.resolve (P.of a).code.bigMemargs) = p) {ins outs : List IrVal}
    (htyped : (P.of a).module.PlainTyped (P.of a).locals p ins outs)
    (hins : ins.length ≤ a.vals.length) (hat : a.At P none ip 0) (hcovered : a.Covered P ip)
    (hnext : ∀ n owed, n + owed = a.vals.length - ins.length + outs.length → ∃ S,
        Opened (P.of a).code (P.of a).module (P.of a).locals (P.of a).results a.scopes S ∧
        Here (P.of a).code (P.of a).module (P.of a).locals (P.of a).results S none body (ip + 1)
          (n + owed) (floor a.scopes + n + owed)) :
    Meets P fs₀ (D.runPlain ⟨st, k, base, fs₀.length, depth, a :: as, .run⟩ a as p body)
      (D.follow fs₀.length (f.turned st (.stacked (f :: fs) depth
        (operandsOf base as ++ a.locals ++ flat a.scopes a.vals)) k ip mark)) := by
  have hopAt : D.opAt f (.plain p') ip
      = (D.straight p a.inst 0).moved id (StepOutcome.resumeAt (ip + 1)) := by
    rw [Denoted.opAt, D.step_plain, hr.holds.code, hdenotes, hr.holds.inst, ← D.straight_moved]
  obtain ⟨w, s, r, hon, hrun, hsame, hlong, hout⟩ := window_run depth hr
    (P.straight_takes htyped 0) hins (StepOutcome.resumeAt (ip + 1)) st.rest
  rw [← hopAt] at hrun
  rw [Denoted.runPlain]
  dsimp only
  rw [hon]
  let a' : Activation := { a with locals := w.locals, vals := w.vals }
  cases r with
  | error err =>
    exact turn_fails hr hop a' rfl rfl rfl hsame (fun _ _ => hcovered) hrun
  | ok out =>
    have hleft := hout out rfl
    cases out with
    | advance ip' =>
      have hcount : w.vals.length - (a.vals.length - ins.length) = outs.length := hleft
      obtain ⟨S, hopen, hhere⟩ := hnext w.vals.length 0 (by omega)
      exact (turn_goes hr hop { a' with body := body } rfl rfl hsame hrun
        ⟨S, hopen, hhere⟩ rfl).meets
    | doGrow memory delta ip' =>
      have hcount : w.vals.length - (a.vals.length - ins.length) + 1 = outs.length := hleft
      obtain ⟨S, hopen, hhere⟩ := hnext w.vals.length 1 (by omega)
      exact (turn_suspends hr hop { a' with body := body } rfl rfl hsame
        _ (by exact ⟨rfl, rfl⟩) hrun (fun _ _ _ => rfl) ⟨S, hopen, hhere⟩).meets
    | doTableGrow table delta init ip' =>
      have hcount : w.vals.length - (a.vals.length - ins.length) + 1 = outs.length := hleft
      obtain ⟨S, hopen, hhere⟩ := hnext w.vals.length 1 (by omega)
      exact (turn_suspends hr hop { a' with body := body } rfl rfl hsame
        _ (by exact ⟨rfl, rfl⟩) hrun (fun _ _ _ => rfl) ⟨S, hopen, hhere⟩).meets
    | doGcGrow target bytes ip' =>
      have hcount : w.vals.length - (a.vals.length - ins.length) = ins.length := hleft
      have hall : w.vals.length = a.vals.length := by omega
      obtain ⟨S, hopen, hhere⟩ := hat.stand
      refine (turn_suspends hr hop a' rfl rfl hsame ip
        (by exact ⟨rfl, rfl⟩) hrun (fun _ _ _ => rfl) ⟨S, hopen, ?_⟩).meets
      show Here _ _ _ _ S none a.body ip (w.vals.length + 0) (floor a.scopes + w.vals.length + 0)
      rw [hall]
      exact hhere
    | _ => exact hleft.elim

/-- `throw` makes its exception of the operands of the tag, and raises it. -/
theorem runThrow_meets (hr : Running P base fs₀ a as f fs) {tag : ℕ}
    (hop : (P.of a).code.ops[ip]? = some (.throw tag))
    (htag : tag < (P.of a).module.ctx.tagTypes.length)
    (hins : ((P.of a).module.ctx.tagParams tag).length ≤ a.vals.length) (hat : a.At P none ip 0)
    (hcovered : a.Covered P ip) :
    Meets P fs₀ (D.runThrow ⟨st, k, base, fs₀.length, depth, a :: as, .run⟩ a as tag)
      (D.follow fs₀.length (f.turned st (.stacked (f :: fs) depth
        (operandsOf base as ++ a.locals ++ flat a.scopes a.vals)) k ip mark)) := by
  have hopAt : D.opAt f (.throw tag) ip
      = (D.raiser tag a.inst).moved id (StepOutcome.placed (ip + 1)) := by
    show (D.raiser tag f.inst).moved id (StepOutcome.placed (ip + 1 - 1 + 1)) = _
    rw [Nat.add_sub_cancel, hr.holds.inst]
  obtain ⟨w, s, r, hon, hrun, hsame, hlong, hout⟩ := window_run depth hr
    (n := ((P.of a).module.ctx.tagParams tag).length) (P.raiser_takes a.inst a.funcIndex htag) hins
    (StepOutcome.placed (ip + 1)) st.rest
  rw [← hopAt] at hrun
  rw [Denoted.runThrow]
  dsimp only
  rw [hon]
  let a' : Activation := { a with locals := w.locals, vals := w.vals }
  cases r with
  | error err =>
    exact turn_fails hr hop a' rfl rfl rfl hsame (fun _ _ => hcovered) hrun
  | ok out =>
    have hleft := hout out rfl
    cases out with
    | doGcGrow target bytes ip' =>
      have hcount : w.vals.length - (a.vals.length - ((P.of a).module.ctx.tagParams tag).length)
        = ((P.of a).module.ctx.tagParams tag).length := hleft
      have hall : w.vals.length = a.vals.length := by omega
      obtain ⟨S, hopen, hhere⟩ := hat.stand
      refine (turn_suspends hr hop a' rfl rfl hsame ip
        (by exact ⟨rfl, rfl⟩) hrun (fun _ _ _ => rfl) ⟨S, hopen, ?_⟩).meets
      show Here _ _ _ _ S none a.body ip (w.vals.length + 0) (floor a.scopes + w.vals.length + 0)
      rw [hall]
      exact hhere
    | _ => exact hleft.elim

/-! ## Conditionals -/

/-- A conditional takes in the comparison in front of it. -/
def Body.fuses : Body → Bool
  | .ifElse .. | .ifThen .. | .cond (.brIf _) _ => true
  | _ => false

theorem Activation.At.unfused (hat : a.At P cmp ip 0) (h : a.body.fuses = false) : cmp = none := by
  obtain ⟨S, -, hhere⟩ := hat.stand
  cases cmp with
  | none => rfl
  | some kind =>
    obtain ⟨-, ⟨bt, t, e, k, hb⟩ | ⟨bt, t, k, hb⟩ | ⟨l, k, hb⟩⟩ := hhere.fused <;>
      rw [hb] at h <;> cases h

/-- What an op refuses operands with is no exception. -/
def Refuses (accept : List Operand → Option ExecError) : Prop :=
  ∀ os exn, accept os ≠ some (.pending exn)

theorem refuses_scalars : Refuses Handler.scalars := by
  intro os exn h
  unfold Handler.scalars at h
  split at h <;> cases h

theorem refuses_taggedRef : Refuses Handler.taggedRef := by
  intro os exn h
  unfold Handler.taggedRef at h
  split at h <;> cases h

theorem refuses_refOf (kind : RefKind) : Refuses (Handler.refOf kind) := by
  intro os exn h
  unfold Handler.refOf at h
  split at h <;> cases h

theorem takeTop_refused {accept : List Operand → Option ExecError} {err : ExecError}
    (haccept : Refuses accept) (h : takeTop n accept vals = .error err) (exn : ℕ) :
    err ≠ .pending exn := by
  rintro rfl
  unfold takeTop at h
  split at h
  · cases h
  · split at h
    · rename_i hrefused
      obtain rfl := Except.error.inj h
      exact haccept _ exn hrefused
    · cases h

/-- The stacks of an activation, with the operands `vals` in its innermost construct. -/
def Activation.stacks (a : Activation) (base : List Operand) (as : List Activation)
    (frames : List Frame) (depth : ℕ) (vals : List Operand) : Execution :=
  .stacked frames depth (operandsOf base as ++ a.locals ++ flat a.scopes vals)

variable (depth) in
theorem run_pop_stacks (hr : Running P base fs₀ a as f fs)
    (accept : List Operand → Option ExecError) (hn : n ≤ vals.length) (K : List Operand → Handler σ)
    (s : σ) :
    (Handler.pop n accept K).run f.localsBase (a.stacks base as (f :: fs) depth vals) s
      = match takeTop n accept vals with
        | .error err => (a.stacks base as (f :: fs) depth vals, s, .error err)
        | .ok (os, vs) => (K os).run f.localsBase (a.stacks base as (f :: fs) depth vs) s := by
  have hfloor : f.operandBase ≤ (operandsOf base as ++ a.locals ++ under a.scopes).length := by
    rw [hr.holds.operandBase, List.length_append, List.length_append]
    omega
  have hstacks : ∀ vs, a.stacks base as (f :: fs) depth vs
      = .stacked (f :: fs) depth (operandsOf base as ++ a.locals ++ under a.scopes ++ vs) := by
    intro vs
    rw [Activation.stacks, flat_eq, ← List.append_assoc]
  rw [hstacks, Handler.run_pop_stacked hfloor hn]
  rcases takeTop n accept vals with err | ⟨os, vs⟩
  · rfl
  · exact congrArg (fun e => (K os).run f.localsBase e s) (hstacks vs).symm

/-- An op that takes an operand and goes on with it. -/
theorem taking_meets (hr : Running P base fs₀ a as f fs) {op : Op}
    (hop : (P.of a).code.ops[ip]? = some op) {accept : List Operand → Option ExecError}
    {K' : List Operand → Handler σ}
    (hrun : (D.opAt f op ip).run f.localsBase (a.stacks base as (f :: fs) depth os) st.rest
      = match takeTop 1 accept a.vals with
        | .error err => (a.stacks base as (f :: fs) depth os, st.rest, .error err)
        | .ok (c, vs) => (K' c).run f.localsBase (a.stacks base as (f :: fs) depth vs) st.rest)
    (haccept : Refuses accept) {K : List Operand → Activation → Machine σ}
    (hok : ∀ o vs, a.vals = vs ++ [o] →
      (D.opAt f op ip).run f.localsBase (a.stacks base as (f :: fs) depth os) st.rest
        = (K' [o]).run f.localsBase (a.stacks base as (f :: fs) depth vs) st.rest →
      Meets P fs₀ (K [o] { a with vals := vs })
        (D.follow fs₀.length (f.turned st (a.stacks base as (f :: fs) depth os) k ip mark))) :
    Meets P fs₀ (D.taking ⟨st, k, base, fs₀.length, depth, a :: as, .run⟩ a 1 accept K)
      (D.follow fs₀.length (f.turned st (a.stacks base as (f :: fs) depth os) k ip mark)) := by
  rw [Denoted.taking]
  rcases htake : takeTop 1 accept a.vals with err | ⟨c, vs⟩
  · rw [htake] at hrun
    exact turn_fails hr hop a rfl rfl rfl rfl
      (fun exn h => absurd h (takeTop_refused haccept htake exn)) hrun
  · rw [htake] at hrun
    obtain ⟨hvals, hlen, -⟩ := takeTop_ok htake
    obtain ⟨o, rfl⟩ := List.length_eq_one_iff.mp hlen
    exact hok o vs hvals hrun

/-- A comparison that has been taken in decides on its two operands. -/
def fusedBranch (kind : CmpKind) (negate : Bool) (e : BranchTarget) (next : ℕ) :
    List Operand → Handler σ
  | [a, b] => if cmpI32 kind a.cell.unwrapI32 b.cell.unwrapI32 != negate then .jump e
      else .done (.ok (.advance next))
  | _ => .done (.ok (.advance next))

/-- A cast decides on the reference, which it keeps. -/
def Denoted.castBranch (D : Denoted σ) (ty : IrHeap) (nullable fail : Bool) (inst : ℕ)
    (e : BranchTarget) (next : ℕ) (r : Operand) : Handler σ :=
  .get fun s => match D.matchesHeaptype ty nullable inst r s with
    | .error err => .done (.error err)
    | .ok matched => .push r (if matched != fail then .jump e else .done (.ok (.advance next)))

variable (depth ip) in
/-- A conditional takes its decision, or what the comparison taken in decides. -/
theorem run_condBranch (hr : Running P base fs₀ a as f fs) (hshown : Shown a.vals os cmp)
    (hn : 1 ≤ a.vals.length) (negate : Bool) (e : BranchTarget) (s : σ) :
    (D.opAt f (Translator.condBranch cmp negate e) ip).run f.localsBase
        (a.stacks base as (f :: fs) depth os) s
      = match takeTop 1 Handler.scalars a.vals with
        | .error err => (a.stacks base as (f :: fs) depth os, s, .error err)
        | .ok (c, vs) =>
          (Straight.branchOn (decide ((c.headD ⟨0, .none⟩).cell.unwrapI32 ≠ 0) != negate) e
            (ip + 1) : Handler σ).run f.localsBase (a.stacks base as (f :: fs) depth vs) s := by
  cases cmp with
  | none =>
    obtain rfl := hshown
    cases negate with
    | false =>
      refine (run_pop_stacks depth hr Handler.scalars hn (fun c =>
        if (c.headD ⟨0, .none⟩).cell.unwrapI32 ≠ 0 then .jump e
        else .done (.ok (.advance (ip + 1)))) s).trans ?_
      rcases takeTop 1 Handler.scalars a.vals with err | ⟨c, vs⟩
      · rfl
      · dsimp only
        unfold Straight.branchOn
        rw [Bool.bne_false]
        simp only [decide_eq_true_eq]
    | true =>
      refine (run_pop_stacks depth hr Handler.scalars hn (fun c =>
        if (c.headD ⟨0, .none⟩).cell.unwrapI32 = 0 then .jump e
        else .done (.ok (.advance (ip + 1)))) s).trans ?_
      rcases takeTop 1 Handler.scalars a.vals with err | ⟨c, vs⟩
      · rfl
      · dsimp only
        unfold Straight.branchOn
        rw [Bool.bne_true, ← decide_not]
        simp only [decide_eq_true_eq, not_not]
  | some kind =>
    obtain ⟨vs, x, y, hvals, rfl, hscalars⟩ := hshown
    have htake : takeTop 2 Handler.scalars (vs ++ [x, y]) = .ok ([x, y], vs) := by
      have hlen : (vs ++ [x, y]).length - 2 = vs.length := by
        rw [List.length_append]
        rfl
      rw [takeTop, if_neg (by simp), hlen, List.drop_left, List.take_left, hscalars]
    have htake' : takeTop 1 Handler.scalars a.vals = .ok ([Handler.boolCell
        (i32Relop kind x.cell.unwrapI32 y.cell.unwrapI32)], vs) := by
      have hlen : (vs ++ [Handler.boolCell (i32Relop kind x.cell.unwrapI32
          y.cell.unwrapI32)]).length - 1 = vs.length := by
        rw [List.length_append]
        rfl
      rw [hvals, takeTop, if_neg (by simp), hlen, List.drop_left, List.take_left]
      rfl
    refine (run_pop_stacks depth hr Handler.scalars (by simp) (fusedBranch kind negate e (ip + 1))
      s).trans ?_
    rw [htake, htake']
    dsimp only [fusedBranch]
    rw [cmpI32_eq]
    unfold Straight.branchOn
    cases i32Relop kind x.cell.unwrapI32 y.cell.unwrapI32 <;> rfl

/-! ## Branches -/

/-- A jump over an edge goes to the label. -/
theorem jump_meets (hr : Running P base fs₀ a as f fs) {op : Op}
    (hop : (P.of a).code.ops[ip]? = some op) {l : ℕ} {e : BranchTarget}
    (hlands : Lands (P.of a).code (P.of a).module (P.of a).locals (P.of a).results
      a.scopes vs l e) (hrun : (D.opAt f op ip).run f.localsBase E st.rest
      = (Handler.jump e).run f.localsBase (a.stacks base as (f :: fs) depth vs) st.rest)
    (acts : List Activation) :
    Meets P fs₀ (Denoted.jumpTo ⟨st, k, base, fs₀.length, depth, acts, .run⟩
      { a with vals := vs } as l)
      (D.follow fs₀.length (f.turned st E k ip mark)) := by
  obtain ⟨body, ss', vals', hbranch, hstand, hjump⟩ :=
    Handler.run_jump fs depth (f := f) hlands hr.floor f.localsBase st.rest
  have hto : ({ a with vals := vs } : Activation).branch l
      = some { a with body := body, scopes := ss', vals := vals' } :=
    congrArg (Option.map _) hbranch
  rw [Denoted.jumpTo, hto]
  exact (turn_goes hr hop { a with body := body, scopes := ss', vals := vals' }
    rfl rfl rfl (hrun.trans hjump) hstand rfl).meets

/-- An op that falls through goes on behind itself. -/
theorem fall_meets (hr : Running P base fs₀ a as f fs) {op : Op}
    (hop : (P.of a).code.ops[ip]? = some op)
    (hstand : Standing (P.of a).code (P.of a).module (P.of a).locals
    (P.of a).results a.scopes vs none
      body ip' 0) (hrun : (D.opAt f op ip).run f.localsBase E st.rest
      = (a.stacks base as (f :: fs) depth vs, st.rest, .ok (.advance ip')))
    (acts : List Activation) :
    Meets P fs₀ (Denoted.go ⟨st, k, base, fs₀.length, depth, acts, .run⟩
        { a with vals := vs, body := body } as)
      (D.follow fs₀.length (f.turned st E k ip mark)) :=
  (turn_goes hr hop { a with vals := vs, body := body } rfl rfl rfl hrun hstand
    rfl).meets

theorem concat_of_pos (hn : 1 ≤ vals.length) : ∃ vs o, vals = vs ++ [o] := by
  rcases List.eq_nil_or_concat' vals with rfl | ⟨vs, o, rfl⟩
  · exact absurd hn (Nat.not_succ_le_zero 0)
  · exact ⟨vs, o, rfl⟩

/-- The operand a conditional branch decides on is there. -/
theorem Standing.last_cond {C : CompiledFunc} {M : ModuleTypes} {locals results : List IrVal}
    {c : CondBr} (h : Standing C M locals results ss vals cmp (.cond c body) ip 0) :
    1 ≤ vals.length := by
  obtain ⟨S, -, -, ⟨ts, hts, htyped⟩, -⟩ := h
  cases htyped with
  | cond hc hk =>
    cases hc <;> simp only [List.length_append, List.length_singleton] at hts <;> omega

/-- `br_if`, fused or not. -/
theorem runBrIf_meets (hr : Running P base fs₀ a as f fs) (hat : a.At P cmp ip 0)
    (hshown : Shown a.vals os cmp) {l : ℕ} (hbody : a.body = .cond (.brIf l) body) :
    Meets P fs₀ (D.runCond ⟨st, k, base, fs₀.length, depth, a :: as, .run⟩ a as body (.brIf l))
      (D.follow fs₀.length (f.turned st (a.stacks base as (f :: fs) depth os) k ip mark)) := by
  have hstand := hat.stand
  rw [hbody] at hstand
  have hlast := hstand.last_cond
  obtain ⟨vs₀, o₀, hvals₀⟩ := concat_of_pos hlast
  obtain ⟨S, hopen, hhere⟩ := hstand
  rw [hvals₀, List.length_append] at hhere
  obtain ⟨e, hop, hlands, hstand⟩ := hhere.brIf hopen
  have hdecides := run_condBranch depth ip hr hshown hlast false e st.rest
  rw [Denoted.runCond]
  refine taking_meets hr hop hdecides refuses_scalars fun o vs hvals hrun => ?_
  obtain ⟨rfl, rfl⟩ := List.append_singleton_inj.mp (hvals₀.symm.trans hvals)
  rw [Bool.bne_false] at hrun
  by_cases hzero : o₀.cell.unwrapI32 ≠ 0
  · rw [show ([o₀].headD ⟨0, .none⟩).cell = o₀.cell from rfl, decide_eq_true hzero] at hrun
    rw [show ([o₀].headD ⟨0, .none⟩).cell = o₀.cell from rfl, if_pos hzero]
    exact jump_meets hr hop hlands hrun _
  · rw [show ([o₀].headD ⟨0, .none⟩).cell = o₀.cell from rfl, decide_eq_false hzero] at hrun
    rw [show ([o₀].headD ⟨0, .none⟩).cell = o₀.cell from rfl, if_neg hzero]
    exact fall_meets hr hop hstand hrun _

variable (depth st k mark) in
/-- A conditional branch is taken with the operands of its label, or its sequence goes on. -/
theorem runCond_meets (hr : Running P base fs₀ a as f fs) (hat : a.At P cmp ip 0)
    (hshown : Shown a.vals os cmp) {c : CondBr} (hbody : a.body = .cond c body) :
    Meets P fs₀ (D.runCond ⟨st, k, base, fs₀.length, depth, a :: as, .run⟩ a as body c)
      (D.follow fs₀.length (f.turned st (a.stacks base as (f :: fs) depth os) k ip mark)) := by
  by_cases hbr : ∃ l, c = .brIf l
  · obtain ⟨l, rfl⟩ := hbr
    exact runBrIf_meets hr hat hshown hbody
  have hstand := hat.stand
  rw [hbody] at hstand
  have hlast := hstand.last_cond
  obtain ⟨vs₀, r, hvals₀⟩ := concat_of_pos hlast
  obtain ⟨S, hopen, hhere⟩ := hstand
  obtain rfl := hat.unfused (by
    rw [hbody]
    cases c with
    | brIf l => exact absurd ⟨l, rfl⟩ hbr
    | _ => rfl)
  obtain rfl := hshown
  rw [hvals₀, List.length_append] at hhere
  cases c with
  | brIf l => exact absurd ⟨l, rfl⟩ hbr
  | brOnNull l =>
    obtain ⟨e, hop, hlands, hstand⟩ := hhere.brOnNull hopen
    rw [Denoted.runCond]
    refine taking_meets hr hop (run_pop_stacks _ hr _ hlast (fun os =>
        if (os.headD ⟨0, .none⟩).cell.isNull then .jump e
        else .push (os.headD ⟨0, .none⟩) (.done (.ok (.advance (ip + 1))))) st.rest)
      refuses_taggedRef fun o vs hvals hrun => ?_
    obtain ⟨rfl, rfl⟩ := List.append_singleton_inj.mp (hvals₀.symm.trans hvals)
    have hhead : ([r].headD ⟨0, .none⟩ : Operand) = r := rfl
    rw [hhead] at hrun ⊢
    by_cases hnull : r.cell.isNull = true
    · rw [if_pos hnull] at hrun ⊢
      exact jump_meets hr hop hlands hrun _
    · rw [if_neg hnull] at hrun ⊢
      refine fall_meets hr hop (hstand r) (hrun.trans ?_) _
      rw [Handler.run, Activation.stacks, Activation.stacks, flat_append, ← List.append_assoc,
        Execution.push_stacked]
      rfl
  | brOnNonNull l =>
    obtain ⟨e, hop, hlands, hstand⟩ := hhere.brOnNonNull hopen
    rw [Denoted.runCond]
    refine taking_meets hr hop (run_pop_stacks _ hr _ hlast (fun os =>
        if (os.headD ⟨0, .none⟩).cell.isNull then .done (.ok (.advance (ip + 1)))
        else .push (os.headD ⟨0, .none⟩) (.jump e)) st.rest)
      refuses_taggedRef fun o vs hvals hrun => ?_
    obtain ⟨rfl, rfl⟩ := List.append_singleton_inj.mp (hvals₀.symm.trans hvals)
    have hhead : ([r].headD ⟨0, .none⟩ : Operand) = r := rfl
    rw [hhead] at hrun ⊢
    by_cases hnull : r.cell.isNull = true
    · rw [if_pos hnull] at hrun ⊢
      exact fall_meets hr hop hstand hrun _
    · rw [if_neg hnull] at hrun ⊢
      refine jump_meets hr hop (hlands r) (hrun.trans ?_) _
      rw [Handler.run, Activation.stacks, Activation.stacks, flat_append, ← List.append_assoc,
        Execution.push_stacked]
  | brOnCast l ty nullable fail =>
    obtain ⟨pool, e, hop, hpool, hlands, hstand, hcovered⟩ := hhere.brOnCast hopen
    have hop' : D.opAt f (.brOnCast ty pool nullable fail) ip
        = .pop 1 (Handler.refOf (refkindOfIrheap ty)) fun os =>
          D.castBranch ty nullable fail a.inst e (ip + 1) (os.headD ⟨0, .none⟩) := by
      unfold Denoted.opAt Interp.step
      dsimp only
      rw [hr.holds.code, hpool, hr.holds.inst]
      rfl
    have hrun := run_pop_stacks depth hr (Handler.refOf (refkindOfIrheap ty)) hlast (fun os =>
      D.castBranch ty nullable fail a.inst e (ip + 1) (os.headD ⟨0, .none⟩)) st.rest
    rw [← hop'] at hrun
    rw [Denoted.runCond]
    refine taking_meets hr hop hrun (refuses_refOf _) fun o vs hvals hrun => ?_
    obtain ⟨rfl, rfl⟩ := List.append_singleton_inj.mp (hvals₀.symm.trans hvals)
    have hhead : ([r].headD ⟨0, .none⟩ : Operand) = r := rfl
    rw [hhead] at hrun ⊢
    rw [Denoted.castBranch, Handler.run] at hrun
    dsimp only
    generalize D.matchesHeaptype ty nullable a.inst r st.rest = result at hrun ⊢
    rcases result with err | matched
    · exact turn_fails hr hop a rfl rfl rfl rfl
        (fun _ _ => ⟨S, hopen, hcovered⟩) hrun
    · dsimp only at hrun ⊢
      have hpush : (Handler.push r (if matched != fail then Handler.jump e
            else .done (.ok (.advance (ip + 1)))) : Handler σ).run f.localsBase
              (a.stacks base as (f :: fs) depth vs₀) st.rest
          = (if matched != fail then Handler.jump e else .done (.ok (.advance (ip + 1)))).run
              f.localsBase (a.stacks base as (f :: fs) depth (vs₀ ++ [r])) st.rest := by
        rw [Handler.run, Activation.stacks, Activation.stacks, flat_append, ← List.append_assoc,
          Execution.push_stacked]
      rw [hpush] at hrun
      by_cases htaken : (matched != fail) = true
      · rw [if_pos htaken] at hrun ⊢
        exact jump_meets hr hop (hlands r) hrun _
      · rw [if_neg htaken] at hrun ⊢
        exact fall_meets hr hop (hstand r) hrun _

/-! ## Constructs -/

/-- The operand an `if` decides on is there. -/
theorem Standing.last_if {C : CompiledFunc} {M : ModuleTypes} {locals results : List IrVal}
    (h : Standing C M locals results ss vals cmp b ip 0)
    (hb : (∃ bt t e k, b = .ifElse bt t e k) ∨ ∃ bt t k, b = .ifThen bt t k) : 1 ≤ vals.length := by
  obtain ⟨S, -, -, ⟨ts, hts, htyped⟩, -⟩ := h
  obtain ⟨bt, t, e, k, rfl⟩ | ⟨bt, t, k, rfl⟩ := hb
  · have := (hasType_ifElse htyped).1
    omega
  · have := (hasType_ifThen htyped).1
    omega

/-- An edge that moves nothing is a jump. -/
theorem run_jump_still (hr : Running P base fs₀ a as f fs) (ip' : ℕ) (vs : List Operand)
    (s : σ) :
    (Handler.jump ⟨ip', 0, 0⟩ : Handler σ).run f.localsBase (a.stacks base as (f :: fs) depth vs) s
      = (a.stacks base as (f :: fs) depth vs, s, .ok (.advance ip')) := by
  rw [Handler.jump, Handler.run, Activation.stacks, Execution.takeBranch_stacked hr.floor
    (Nat.zero_le _)]
  dsimp only
  rw [Nat.sub_zero, Nat.sub_zero, List.take_append_drop]
  rfl

/-- To open a region moves no operand. -/
theorem Activation.enterRegion_flat (a : Activation) (ctx : CompileCtx) (r : Region)
    (bt : BlockType)
    (b body : Body) :
    flat (a.enterRegion ctx r bt b body).scopes (a.enterRegion ctx r bt b body).vals
        = flat a.scopes a.vals ∧
      (a.enterRegion ctx r bt b body).inst = a.inst ∧
      (a.enterRegion ctx r bt b body).funcIndex = a.funcIndex ∧
      (a.enterRegion ctx r bt b body).locals = a.locals ∧
      (a.enterRegion ctx r bt b body).body = b := by
  cases r <;> exact ⟨flat_enter _ _ _ _ _ _ _, rfl, rfl, rfl, rfl⟩

/-- A part of an `if` is entered, wherever the decision has led. -/
theorem enter_part (hr : Running P base fs₀ a as f fs) {op : Op}
    (hop : (P.of a).code.ops[ip]? = some op)
    (hstand : Standing (P.of a).code (P.of a).module (P.of a).locals (P.of a).results
      (({ a with vals := vs } : Activation).enterRegion (P.of a).module.ctx .block bt b body).scopes
      (({ a with vals := vs } : Activation).enterRegion (P.of a).module.ctx .block bt b body).vals
      none b ip' 0) (hrun : (D.opAt f op ip).run f.localsBase E st.rest
      = (a.stacks base as (f :: fs) depth vs, st.rest, .ok (.advance ip')))
    (acts : List Activation) :
    Meets P fs₀ (Denoted.go ⟨st, k, base, fs₀.length, depth, acts, .run⟩
        (({ a with vals := vs } : Activation).enterRegion (P.of a).module.ctx .block bt b body) as)
      (D.follow fs₀.length (f.turned st E k ip mark)) := by
  obtain ⟨hflat, hinst, hidx, hsame, hbody⟩ :=
    ({ a with vals := vs } : Activation).enterRegion_flat (P.of a).module.ctx .block bt b body
  generalize ({ a with vals := vs } : Activation).enterRegion (P.of a).module.ctx .block bt b body
    = a' at hstand hflat hinst hidx hsame hbody ⊢
  rw [← hbody] at hstand
  refine (turn_goes hr hop a' hinst hidx (congrArg List.length hsame) (hrun.trans ?_) hstand
    (show Shown a'.vals a'.vals none from rfl)).meets
  rw [Activation.stacks, hsame]
  exact congrArg (fun os => (Execution.stacked (f :: fs) depth
    (operandsOf base as ++ a.locals ++ os),
    st.rest, Except.ok (StepOutcome.advance ip'))) hflat.symm

/-- An `if` goes to the part its operand selects. -/
theorem ifElse_meets (hr : Running P base fs₀ a as f fs) (hat : a.At P cmp ip 0)
    (hshown : Shown a.vals os cmp) {t e : Body} (hbody : a.body = .ifElse bt t e body) :
    Meets P fs₀ (D.move P.source ⟨st, k, base, fs₀.length, depth, a :: as, .run⟩ a as)
      (D.follow fs₀.length (f.turned st (a.stacks base as (f :: fs) depth os) k ip mark)) := by
  have hstand := hat.stand
  rw [hbody] at hstand
  have hlast := hstand.last_if (Or.inl ⟨bt, t, e, body, rfl⟩)
  obtain ⟨vs₀, c, hvals₀⟩ := concat_of_pos hlast
  obtain ⟨S, hopen, hhere⟩ := hstand
  rw [hvals₀, List.length_append] at hhere
  obtain ⟨elseIp, hop, hthen, helse⟩ := Here.ifElse (a := { a with vals := vs₀ }) hopen hhere
  have hdecides := run_condBranch depth ip hr hshown hlast true
    ⟨elseIp, 0, 0⟩ st.rest
  rw [Denoted.move, hbody]
  refine taking_meets hr hop hdecides refuses_scalars fun o vs hvals hrun => ?_
  obtain ⟨rfl, rfl⟩ := List.append_singleton_inj.mp (hvals₀.symm.trans hvals)
  have hc : ([c].headD ⟨0, .none⟩ : Operand) = c := rfl
  rw [hc, Bool.bne_true, ← decide_not] at hrun
  rw [hc]
  by_cases hzero : c.cell.unwrapI32 ≠ 0
  · rw [decide_eq_false (not_not_intro hzero)] at hrun
    simp only [if_pos hzero]
    exact enter_part hr hop hthen hrun _
  · rw [decide_eq_true hzero] at hrun
    simp only [if_neg hzero]
    exact enter_part hr hop helse
      (hrun.trans (run_jump_still hr elseIp vs₀ st.rest)) _

theorem ifThen_meets (hr : Running P base fs₀ a as f fs) (hat : a.At P cmp ip 0)
    (hshown : Shown a.vals os cmp) {t : Body} (hbody : a.body = .ifThen bt t body) :
    Meets P fs₀ (D.move P.source ⟨st, k, base, fs₀.length, depth, a :: as, .run⟩ a as)
      (D.follow fs₀.length (f.turned st (a.stacks base as (f :: fs) depth os) k ip mark)) := by
  have hstand := hat.stand
  rw [hbody] at hstand
  have hlast := hstand.last_if (Or.inr ⟨bt, t, body, rfl⟩)
  obtain ⟨vs₀, c, hvals₀⟩ := concat_of_pos hlast
  obtain ⟨S, hopen, hhere⟩ := hstand
  rw [hvals₀, List.length_append] at hhere
  obtain ⟨x, hop, hthen, helse⟩ := Here.ifThen (a := { a with vals := vs₀ }) hopen hhere
  have hdecides := run_condBranch depth ip hr hshown hlast true
    ⟨x, 0, 0⟩ st.rest
  rw [Denoted.move, hbody]
  refine taking_meets hr hop hdecides refuses_scalars fun o vs hvals hrun => ?_
  obtain ⟨rfl, rfl⟩ := List.append_singleton_inj.mp (hvals₀.symm.trans hvals)
  have hc : ([c].headD ⟨0, .none⟩ : Operand) = c := rfl
  rw [hc, Bool.bne_true, ← decide_not] at hrun
  rw [hc]
  by_cases hzero : c.cell.unwrapI32 ≠ 0
  · rw [decide_eq_false (not_not_intro hzero)] at hrun
    rw [if_pos hzero]
    exact enter_part hr hop hthen hrun _
  · rw [decide_eq_true hzero] at hrun
    rw [if_neg hzero]
    exact fall_meets hr hop helse
      (hrun.trans (run_jump_still hr x vs₀ st.rest)) _

/-- A comparison on the window of the innermost construct. -/
theorem relop_on (kind : CmpKind) (outer below : List Operand) (w : Window) (s : σ) :
    ((Handler.relop kind 0).moved id (StepOutcome.placed 0) : Handler σ).on outer below w s
      = match takeTop 2 Handler.scalars w.vals with
        | .error err => (w, s, .error err)
        | .ok (os, vs) =>
          match os with
          | [x, y] => ({ w with vals := vs ++ [Handler.boolCell
              (i32Relop kind x.cell.unwrapI32 y.cell.unwrapI32)] }, s, .ok (.advance 0))
          | _ => ({ w with vals := vs }, s, .ok (.advance 0)) := by
  rw [Handler.on_moved]
  unfold Handler.relop
  rw [Handler.on]
  rcases takeTop 2 Handler.scalars w.vals with err | ⟨os, vs⟩
  · rfl
  · rcases os with _ | ⟨x, _ | ⟨y, _ | ⟨z, os⟩⟩⟩ <;> rfl

variable (depth st k mark) in
/-- A straight-line op takes a turn, or it is a comparison that the next op has taken in: then the
code has nothing to do but to refuse its operands. -/
theorem plain_meets (hr : Running P base fs₀ a as f fs) (hat : a.At P none ip 0)
    {p : PlainOp BigMemArg} (hbody : a.body = .plain p body) :
    Meets P fs₀ (D.runPlain ⟨st, k, base, fs₀.length, depth, a :: as, .run⟩ a as p body)
        (D.follow fs₀.length (f.turned st (a.stacks base as (f :: fs) depth a.vals) k ip mark)) ∨
      ∃ vals, D.runPlain ⟨st, k, base, fs₀.length, depth, a :: as, .run⟩ a as p body
          = ⟨st, k, base, fs₀.length, depth, { a with vals := vals, body := body } :: as, .run⟩ ∧
        Matches P fs₀
          ⟨st, k, base, fs₀.length, depth, { a with vals := vals, body := body } :: as, .run⟩
          (f.turned st (a.stacks base as (f :: fs) depth a.vals) k ip mark) := by
  have hstand := hat.stand
  rw [hbody] at hstand
  obtain ⟨S, hopen, hhere⟩ := hstand
  rw [Nat.add_zero, Nat.add_zero] at hhere
  rcases hhere.plain (by omega) with ⟨p', ins, outs, hop, hdenotes, htyped, hins, hnext, hcovered⟩ |
    ⟨kind, rfl, htwo, hnext⟩
  · refine Or.inl (runPlain_meets hr hop hdenotes htyped hins hat ⟨S, hopen, hcovered⟩ ?_)
    intro n owed hcount
    refine ⟨S, hopen, ?_⟩
    have hheight : floor a.scopes + n + owed
        = floor a.scopes + a.vals.length - ins.length + outs.length := by omega
    rw [hcount, hheight]
    exact hnext
  · obtain ⟨⟨negate, t, hop⟩, -⟩ := hnext.fused
    have hden : D.straight (.relop kind) a.inst 0
        = (Handler.relop kind 0).moved id (StepOutcome.placed 0) := by
      show (D.den (.relop kind) a.inst).moved id (StepOutcome.placed 0) = _
      rw [P.den_relop]
    rw [Denoted.runPlain, hden, relop_on]
    dsimp only
    rcases htake : takeTop 2 Handler.scalars a.vals with err | ⟨os, vs⟩
    · -- the op that has taken the comparison in refuses the operands as well
      left
      have hrun := run_pop_stacks depth hr Handler.scalars htwo (fusedBranch kind negate t (ip + 1))
        st.rest
      rw [htake] at hrun
      exact turn_fails hr hop a rfl rfl rfl rfl
        (fun exn h => absurd h (takeTop_refused refuses_scalars htake exn)) hrun
    · right
      obtain ⟨hvals, hlen, hscalars⟩ := takeTop_ok htake
      obtain ⟨x, y, rfl⟩ := List.length_eq_two.mp hlen
      refine ⟨vs ++ [Handler.boolCell (i32Relop kind x.cell.unwrapI32 y.cell.unwrapI32)], rfl, ?_⟩
      refine .run (c := some kind) (hr.update _ rfl rfl rfl) ⟨hr.locals, S, hopen, ?_⟩
        ⟨vs, x, y, rfl, hvals, hscalars⟩
      have hcount : a.vals.length - 2 + 1 = vs.length + 1 := by
        rw [hvals, List.length_append]
        rfl
      have hheight : floor a.scopes + a.vals.length - 2 + 1 = floor a.scopes + (vs.length + 1) := by
        omega
      rw [hcount, hheight] at hnext
      simp only [List.length_append, List.length_singleton, Nat.add_zero]
      exact hnext

/-- A region is entered where the code is. -/
theorem region_still (hr : Running P base fs₀ a as f fs) (hat : a.At P none ip 0) {r : Region}
    (hbody : a.body = .region r bt b body) :
    Matches P fs₀ ⟨st, k, base, fs₀.length, depth,
        a.enterRegion (P.of a).module.ctx r bt b body :: as, .run⟩
      (f.turned st (a.stacks base as (f :: fs) depth a.vals) k ip mark) := by
  have hstand := hat.stand
  rw [hbody] at hstand
  obtain ⟨S, hopen, hhere⟩ := hstand
  have hin := Here.region hopen hhere
  obtain ⟨hflat, hinst, hidx, hsame, hin'⟩ := a.enterRegion_flat (P.of a).module.ctx r bt b body
  generalize a.enterRegion (P.of a).module.ctx r bt b body = a' at hin hflat hinst hidx hsame hin' ⊢
  have hof : P.of a' = P.of a := by rw [Program.of, hinst, hidx, Program.of]
  have hstacks : a.stacks base as (f :: fs) depth a.vals
      = .stacked (f :: fs) depth (operandsOf base as ++ a'.locals ++ flat a'.scopes a'.vals) := by
    rw [Activation.stacks, hflat, hsame]
  rw [Frame.turned, hstacks]
  rw [← hin'] at hin
  have hr' := hr.update _ hinst hidx (congrArg List.length hsame)
  exact .run (c := none) hr' ⟨hr'.locals, hof ▸ hin⟩ rfl

/-! ## Ends -/

variable (depth st k mark) in
/-- At its end a construct is left, over a branch where its code does not lie last. -/
theorem leave_meets (hr : Running P base fs₀ a as f fs) (hat : a.At P none ip 0)
    (hbody : a.body = .done) {sc : Construct} (hscopes : a.scopes = sc :: ss) :
    Matches P fs₀ ⟨st, k, base, fs₀.length, depth,
        { a with body := sc.next, scopes := ss, vals := sc.below ++ a.vals } :: as, .run⟩
        (f.turned st (a.stacks base as (f :: fs) depth a.vals) k ip mark) ∨
      Matches P fs₀ ⟨st, k, base, fs₀.length, depth,
        { a with body := sc.next, scopes := ss, vals := sc.below ++ a.vals } :: as, .run⟩
        (D.follow fs₀.length (f.turned st
          (a.stacks base as (f :: fs) depth a.vals) k ip mark)) := by
  have hstand := hat.stand
  rw [hbody, hscopes] at hstand
  obtain ⟨S, hopen, hhere⟩ := hstand
  have hstacks : a.stacks base as (f :: fs) depth a.vals
      = .stacked (f :: fs) depth (operandsOf base as ++ a.locals
        ++ flat ss (sc.below ++ a.vals)) := by
    rw [Activation.stacks, hscopes, flat_cons]
  obtain ⟨x, rfl | hop, hstand⟩ := hopen.leave hhere
  · left
    rw [hstacks]
    exact .run (a := { a with body := sc.next, scopes := ss, vals := sc.below ++ a.vals })
      (hr.update _ rfl rfl rfl) ⟨hr.locals, hstand⟩ rfl
  · right
    have hfits : a.vals.length + 0 ≤ (flat ss (sc.below ++ a.vals)).length := by
      rw [length_flat, List.length_append]
      omega
    have hrun : (D.opAt f (.br ⟨x, a.vals.length, 0⟩) ip).run f.localsBase
        (a.stacks base as (f :: fs) depth a.vals) st.rest
          = (.stacked (f :: fs) depth
            (operandsOf base as ++ a.locals ++ flat ss (sc.below ++ a.vals)),
            st.rest, .ok (.advance x)) := by
      show (Handler.jump ⟨x, a.vals.length, 0⟩ : Handler σ).run _ _ _ = _
      rw [hstacks, Handler.jump, Handler.run, Execution.takeBranch_stacked hr.floor hfits]
      dsimp only
      rw [Nat.sub_zero, List.take_append_drop]
      rfl
    exact turn_goes hr hop { a with body := sc.next, scopes := ss, vals := sc.below ++ a.vals }
      rfl rfl rfl hrun hstand rfl

variable (depth st k) in
/-- Operands that are owed go to the innermost activation, which goes on, or to the embedder. -/
theorem give_matches (hbase : Based base fs₀) {acts : List Activation} {frames : List Frame}
    (hp : Resumable P base fs₀ os.length acts frames) (mark : Mark) :
    Matches P fs₀ (Machine.give ⟨st, k, base, fs₀.length, depth, acts, .run⟩ os acts)
      ⟨st, .stacked frames depth (operandsOf base acts ++ os), k,
        if frames.length = fs₀.length then .leave (.ok .finished)
        else Interp.reload (.stacked frames depth (operandsOf base acts ++ os)), mark⟩ := by
  cases hp with
  | nil =>
    rw [if_pos rfl]
    exact .finished
  | @cons a as f fs hf hat hw =>
    have hmore : ¬(f :: fs).length = fs₀.length := by
      have := hw.length
      rw [List.length_cons]
      omega
    rw [if_neg hmore]
    unfold Interp.reload
    rw [Execution.top_stacked hf.delimiter, operandsOf, List.append_assoc _ (flat a.scopes a.vals),
      ← flat_append]
    have hstand := hat.stand
    have hr : Running P base fs₀ a as f fs := ⟨hbase, hf, hat.locals, hw⟩
    refine .run (a := { a with vals := a.vals ++ os }) (c := none) (hr.update _ rfl rfl rfl)
      ⟨hr.locals, ?_⟩ rfl
    obtain ⟨S, hopen, hhere⟩ := hstand
    refine ⟨S, hopen, ?_⟩
    rw [List.length_append, Nat.add_zero, Nat.add_zero, ← Nat.add_assoc]
    exact hhere

/-- At the end of a function its results go to its caller. -/
theorem return_meets (hr : Running P base fs₀ a as f fs) (hat : a.At P none ip 0)
    (hbody : a.body = .done) (hscopes : a.scopes = []) :
    Matches P fs₀ (Machine.give ⟨st, k, base, fs₀.length, depth, a :: as, .run⟩ a.vals as)
      (D.follow fs₀.length (f.turned st (a.stacks base as (f :: fs) depth a.vals) k ip mark)) := by
  have hstand := hat.stand
  rw [hbody, hscopes] at hstand
  obtain ⟨S, hopen, hhere⟩ := hstand
  cases hopen
  obtain ⟨⟨out, hs, hcode, -, -⟩, ⟨ts, hts, htyped⟩, -⟩ := hhere
  obtain rfl : ip = (P.of a).code.ops.length := by
    generalize hstop : (P.of a).code.ops.length = stop at hcode
    cases hcode with
    | done => rfl
  have hcount : a.vals.length = (P.of a).results.length := by
    cases htyped with
    | done hsub => exact hts.symm.trans hsub.length_eq
  have hop : f.code.ops[(P.of a).code.ops.length]? = none := by
    rw [hr.holds.code, List.getElem?_eq_none_iff]
  have hresults : f.code.nResults = a.vals.length := by
    rw [hr.holds.code, (P.of a).code_arity.2.1, hcount]
  have hstop : fs₀.length ≤ fs.length := by
    rw [hr.waiting.length]
    omega
  have hret := Execution.doReturn_stacked depth a.vals (n := a.vals.length) hr.holds.localsBase
    hr.holds.operandBase hr.holds.delimiter hstop (Nat.le_refl _) false (Or.inr rfl)
  rw [Nat.sub_self, List.drop_zero] at hret
  have hturn : D.follow fs₀.length (f.turned st (a.stacks base as (f :: fs) depth a.vals) k
      (P.of a).code.ops.length mark)
        = ⟨st, .stacked fs depth (operandsOf base as ++ a.vals), k,
            if fs.length = fs₀.length then .leave (.ok .finished)
            else Interp.reload (.stacked fs depth (operandsOf base as ++ a.vals)), .silent⟩ := by
    show (D.interp f.code).turn st (a.stacks base as (f :: fs) depth a.vals)
      ⟨f.code, _, f.localsBase, f.inst⟩ fs₀.length k = _
    unfold Interp.turn
    rw [hop, hresults, Activation.stacks, hscopes, flat_nil, hret]
    by_cases hall : fs.length = fs₀.length
    · rw [decide_eq_true hall, if_pos hall]
    · rw [decide_eq_false hall, if_neg hall]
  rw [hturn]
  exact give_matches _ _ _ hr.based (hcount ▸ hr.waiting.parked) _

end Turns

end SubmilliWasm
