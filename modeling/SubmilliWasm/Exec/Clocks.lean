/-
# Turns aside from the clocks

What a store counts for the embedder, its fuel and its epoch deadline, is looked at by the gates
in front of an op alone.  Two engines that differ in their gates, on stores that differ in these
clocks, do the same behind the gates and outside the loop; and a loop that was left at a gate
differs from one that was not in the resume point saved in its top frame.
-/
import SubmilliWasm.Exec.Suspend

namespace SubmilliWasm

variable {σ : Type}

/-! ## The saved resume point -/

namespace Execution

/-- The execution with another resume point saved in its top frame.  The loop keeps the current one
in a register and does not look at the saved one. -/
def withIp (e : Execution) (i : ℕ) : Execution :=
  match e.frames with
  | [] => e
  | f :: fs => { e with frames := { f with ip := i } :: fs }

variable (e : Execution) (i : ℕ)

@[simp] theorem withIp_values : (e.withIp i).values = e.values := by
  unfold withIp
  split <;> rfl

@[simp] theorem withIp_shadow : (e.withIp i).shadow = e.shadow := by
  unfold withIp
  split <;> rfl

@[simp] theorem withIp_hostReentryDepth : (e.withIp i).hostReentryDepth = e.hostReentryDepth := by
  unfold withIp
  split <;> rfl

@[simp] theorem withIp_frames_length : (e.withIp i).frames.length = e.frames.length := by
  unfold withIp
  split
  · rfl
  · rename_i hframes
    rw [hframes]
    rfl

/-- The saved resume point of the top frame is one of them. -/
theorem exists_withIp : ∃ j, e.withIp j = e := by
  obtain ⟨values, shadow, frames, depth⟩ := e
  cases frames with
  | nil => exact ⟨0, rfl⟩
  | cons f fs => exact ⟨f.ip, rfl⟩

/-! ### What overwrites it, and what leaves it -/

theorem saveIp_withIp (j : ℕ) : (e.withIp i).saveIp j = e.saveIp j := by
  obtain ⟨values, shadow, frames, depth⟩ := e
  cases frames <;> rfl

theorem doReturn_withIp (n stopDepth : ℕ) (tail : Bool) :
    (e.withIp i).doReturn n stopDepth tail = e.doReturn n stopDepth tail := by
  obtain ⟨values, shadow, frames, depth⟩ := e
  cases frames <;> rfl

theorem stackBytes_withIp (frameSize : ℕ) :
    (e.withIp i).stackBytes frameSize = e.stackBytes frameSize := by
  unfold stackBytes
  rw [withIp_values, withIp_shadow, withIp_frames_length, withIp_hostReentryDepth]

theorem truncate_withIp (n : ℕ) : (e.withIp i).truncate n = (e.truncate n).withIp i := by
  obtain ⟨values, shadow, frames, depth⟩ := e
  cases frames <;> rfl

theorem pushAll_withIp (os : List Operand) : (e.withIp i).pushAll os = (e.pushAll os).withIp i := by
  obtain ⟨values, shadow, frames, depth⟩ := e
  cases frames <;> rfl

theorem popN_withIp (n : ℕ) (accept : List Operand → Option ExecError) :
    (e.withIp i).popN n accept = (e.popN n accept).map fun p => (p.1, p.2.withIp i) := by
  have hensure : (e.withIp i).ensureOperands n = e.ensureOperands n := by
    obtain ⟨values, shadow, frames, depth⟩ := e
    cases frames <;> rfl
  have hoperands : ∀ base, (e.withIp i).operandsFrom base = e.operandsFrom base := by
    intro base
    unfold operandsFrom
    rw [withIp_values, withIp_shadow]
  unfold popN
  rw [hensure]
  cases e.ensureOperands n with
  | error err => rfl
  | ok base =>
    dsimp only
    rw [hoperands]
    cases accept (e.operandsFrom base) with
    | some err => rfl
    | none => exact congrArg (fun x => Except.ok (_, x)) (e.truncate_withIp i base)

theorem setCell_withIp (j : ℕ) (o : Operand) :
    (e.withIp i).setCell j o = (e.setCell j o).map fun e' => e'.withIp i := by
  unfold setCell
  rw [withIp_values, withIp_shadow]
  split
  · rfl
  · obtain ⟨values, shadow, frames, depth⟩ := e
    cases frames <;> rfl

theorem takeBranch_withIp (t : BranchTarget) :
    (e.withIp i).takeBranch t = (e.takeBranch t).map fun e' => e'.withIp i := by
  unfold takeBranch
  rw [withIp_values, withIp_shadow]
  split
  · rfl
  · obtain ⟨values, shadow, frames, depth⟩ := e
    cases frames with
    | nil => rfl
    | cons f fs =>
      dsimp only [withIp]
      split <;> rfl

end Execution

/-- A handler does not look at the saved resume point. -/
theorem Handler.run_withIp (base : ℕ) (H : Handler σ) (e : Execution) (i : ℕ) (s : σ) :
    H.run base (e.withIp i) s = ((H.run base e s).1.withIp i, (H.run base e s).2) :=
  run_comm (φ := fun e => e.withIp i) (fun e => e.withIp_values i) (fun e => e.withIp_shadow i)
    (fun e o => e.pushAll_withIp i [o]) (fun e => e.popN_withIp i) (fun e => e.setCell_withIp i)
    (fun e => e.takeBranch_withIp i) base H e s

namespace Interp

variable (I : Interp σ)

/-! ### The unwinder -/

/-- The same outcome; the executions differ, if at all, in the saved resume point of a frame that
an error has left. -/
def SameAfter (i : ℕ) (u u' : Execution × Except ExecError Unit) : Prop :=
  u'.2 = u.2 ∧ (u'.1 = u.1 ∨ (u'.1 = u.1.withIp i ∧ ∃ err, u.2 = .error err))

theorem SameAfter.failed (i : ℕ) (e : Execution) (err : ExecError) :
    SameAfter i (e, .error err) (e.withIp i, .error err) := ⟨rfl, Or.inr ⟨rfl, err, rfl⟩⟩

theorem SameAfter.rfl (i : ℕ) (u : Execution × Except ExecError Unit) : SameAfter i u u :=
  ⟨Eq.refl _, Or.inl (Eq.refl _)⟩

theorem enterExceptionHandler_withIp (s : σ) (e : Execution) (i exn : ℕ) (r : HandlerRec)
    (floor : ℕ) :
    SameAfter i (I.enterExceptionHandler s e exn r floor)
      (I.enterExceptionHandler s (e.withIp i) exn r floor) := by
  have hpush : ∀ (e : Execution) (o : Operand), (e.withIp i).push o = (e.push o).withIp i :=
    fun e o => e.pushAll_withIp i [o]
  unfold enterExceptionHandler
  dsimp only
  rw [e.withIp_values, e.withIp_shadow]
  split
  · exact .failed i e _
  · split
    · exact .failed i e _
    · rw [e.truncate_withIp]
      split
      · exact .failed i _ _
      · rw [Execution.pushAll_withIp, hpush, ← apply_ite (fun e' => Execution.withIp e' i),
          Execution.saveIp_withIp]
        split
        · exact .failed i _ _
        · exact .rfl i _

/-- One frame of the search. -/
theorem unwindFrom_cons (s : σ) (exn thrown stopDepth fuel faultIp : ℕ) (values : List Cell)
    (shadow : List RefTag) (f : Frame) (fs : List Frame) (depth : ℕ) :
    let e : Execution := ⟨values, shadow, f :: fs, depth⟩
    let below : Execution := ⟨values.take f.localsBase, shadow.take f.localsBase, fs, depth⟩
    I.unwindFrom s exn thrown stopDepth (fuel + 1) e faultIp =
      if fs.length + 1 ≤ stopDepth then (e, .error (.pending exn))
      else
        match I.findClause s faultIp f.inst thrown f.code.handlers with
        | .error err => (e, .error err)
        | .ok (some r) => I.enterExceptionHandler s e exn r f.operandBase
        | .ok none =>
          if values.length ≠ shadow.length ∨ values.length < f.localsBase then
            (e, .error (.operandStack "frame base exceeds operand stack during unwind"))
          else if fs.length = stopDepth then (below, .error (.pending exn))
          else
            match fs with
            | [] => (below, .error (.frameStack "missing caller frame during unwind"))
            | caller :: _ =>
              if caller.ip = 0 then
                (below, .error (.frameStack "caller return address underflow"))
              else I.unwindFrom s exn thrown stopDepth fuel below (caller.ip - 1) := rfl

theorem unwindFrom_withIp (s : σ) (exn thrown stopDepth fuel : ℕ) (e : Execution)
    (faultIp i : ℕ) :
    SameAfter i (I.unwindFrom s exn thrown stopDepth fuel e faultIp)
      (I.unwindFrom s exn thrown stopDepth fuel (e.withIp i) faultIp) := by
  cases fuel with
  | zero => exact .failed i e _
  | succ fuel =>
    obtain ⟨values, shadow, frames, depth⟩ := e
    cases frames with
    | nil => exact .rfl i _
    | cons f fs =>
      have hfailed := SameAfter.failed i ⟨values, shadow, f :: fs, depth⟩
      rw [Execution.withIp, unwindFrom_cons, unwindFrom_cons]
      dsimp only
      split
      · exact hfailed _
      · split
        · exact hfailed _
        · exact I.enterExceptionHandler_withIp s ⟨values, shadow, f :: fs, depth⟩ i exn _ _
        · split
          · exact hfailed _
          · exact .rfl i _

theorem unwind_withIp (s : σ) (e : Execution) (err : ExecError) (faultIp stopDepth i : ℕ) :
    SameAfter i (I.unwind s e err faultIp stopDepth)
      (I.unwind s (e.withIp i) err faultIp stopDepth) := by
  unfold unwind
  split
  · split
    · exact .failed i e _
    · rw [e.withIp_frames_length]
      exact I.unwindFrom_withIp s _ _ stopDepth _ e faultIp i
  · exact .failed i e _

end Interp

theorem Inside.frames_ne_nil {entry e : Execution} {inner : List Frame}
    (hin : Inside entry inner e) :
    e.frames ≠ [] := by
  have := hin.frames_length
  intro h
  rw [h] at this
  simp at this

theorem Inside.withIp {entry e : Execution} {inner : List Frame} (hin : Inside entry inner e)
    (i : ℕ) : ∃ inner', Inside entry inner' (e.withIp i) := by
  obtain ⟨values, shadow, frames, depth⟩ := e
  obtain ⟨d, hd, hdelim⟩ := hin.frames
  dsimp only at hd
  subst hd
  cases inner with
  | nil =>
    exact ⟨[], {
      entryLockstep := hin.entryLockstep
      lockstep := hin.lockstep
      values := hin.values
      shadow := hin.shadow
      frames := ⟨{ d with ip := i }, rfl, hdelim⟩
      floors := hin.floors
      depth := hin.depth }⟩
  | cons f fs =>
    exact ⟨{ f with ip := i } :: fs, {
      entryLockstep := hin.entryLockstep
      lockstep := hin.lockstep
      values := hin.values
      shadow := hin.shadow
      frames := ⟨d, rfl, hdelim⟩
      floors := hin.floors
      depth := hin.depth }⟩

/-- Where the loop may go without having saved the resume point. -/
def Next.Unsaved (n : Next) : Prop := (∃ r, n = .loop r) ∨ ∃ err, n = .leave (.error err)

/-! ## Drivers in step -/

namespace Drive

variable {drift : Bool} {d : Drive} {r : Regs} {k : ℕ} {q : Pc}

/-- Until the counts may drift, a driver on its way to the turn at `r` has not met the mailbox, and
the other one, with the same count, is at this turn. -/
def InStep (drift : Bool) (d : Drive) (r : Regs) (k : ℕ) (q : Pc) : Prop :=
  drift = false → k = d.countdown ∧ q = .loop r ∧ d.pc ≠ .poll r

theorem InStep.drifted (h : d.InStep drift r k q) (hne : q ≠ .loop r ∨ d.pc = .poll r) :
    drift = true := by
  cases drift with
  | true => rfl
  | false =>
    obtain ⟨-, hq, hpoll⟩ := h rfl
    exact (hne.elim (fun hne => hne hq) hpoll).elim

/-- On the way the count is kept. -/
theorem InStep.moved (h : d.InStep drift r k q) (e : Execution) {p : Pc} (hp : p ≠ .poll r) :
    { d with exec := e, pc := p }.InStep drift r k q :=
  fun hdrift => ⟨(h hdrift).1, (h hdrift).2.1, hp⟩

theorem InStep.drifts (h : d.InStep drift r k q) (b : Bool) : d.InStep (b || drift) r k q :=
  fun hdrift => h (Bool.or_eq_false_iff.mp hdrift).2

end Drive

/-! ## Clocks and gates -/

/-- Another reading of the clocks of a store. -/
structure ClockMap where
  fuel : Fuel → Fuel
  deadline : ℕ → ℕ

def StoreState.clocked (st : StoreState σ) (φ : ClockMap) : StoreState σ :=
  { st with fuel := φ.fuel st.fuel, epochDeadline := φ.deadline st.epochDeadline }

def State.clocked (s : State σ) (φ : ClockMap) : State σ := { s with store := s.store.clocked φ }

namespace Interp

/-- The engine with other gates in front of an op. -/
def gated (I : Interp σ) (fuel epoch : Bool) : Interp σ :=
  { I with consumeFuel := fuel, epochInterruption := epoch }

variable (I : Interp σ) (fuel epoch : Bool)

theorem gated_step : (I.gated fuel epoch).step = I.step := rfl

theorem gated_carryOut : (I.gated fuel epoch).carryOut = I.carryOut := rfl

theorem gated_findClause : (I.gated fuel epoch).findClause = I.findClause := by
  have hrec : (I.gated fuel epoch).findRec = I.findRec := by
    funext s inst thrown rs
    induction rs with
    | nil => rfl
    | cons r rs ih =>
      unfold findRec
      rw [ih]
      rfl
  funext s ip inst thrown spans
  induction spans with
  | nil => rfl
  | cons span spans ih =>
    unfold findClause
    rw [ih, hrec]

theorem gated_unwind : (I.gated fuel epoch).unwind = I.unwind := by
  have hfrom : (I.gated fuel epoch).unwindFrom = I.unwindFrom := by
    funext s exn thrown stopDepth n
    induction n with
    | zero => rfl
    | succ n ih =>
      funext e faultIp
      unfold unwindFrom
      rw [ih, gated_findClause]
      rfl
  funext s e err faultIp stopDepth
  unfold unwind
  rw [hfrom]
  rfl

theorem gated_afterCallback : (I.gated fuel epoch).afterCallback = I.afterCallback := by
  funext st e call outcome stopDepth
  unfold afterCallback finishHostCall raiseHostException
  rw [gated_unwind]
  rfl

theorem gated_returned : (I.gated fuel epoch).returned = I.returned := by
  funext s d ds r
  unfold returned
  rw [gated_afterCallback]
  rfl

/-- The embedder's code meets no gate. -/
theorem gated_hostStep : (I.gated fuel epoch).hostStep = I.hostStep := by
  funext inline c s
  unfold hostStep
  rw [gated_returned]

variable (φ : ClockMap)

/-! ## A turn behind the gates -/

/-- What two turns have in common: the store up to its clocks, the count, the way on, and the
execution up to an unsaved resume point. -/
def Alike (i : ℕ) (x x' : StoreState σ × Execution × ℕ × Next) : Prop :=
  x'.1 = x.1.clocked φ ∧ x'.2.2 = x.2.2 ∧
    (x'.2.1 = x.2.1 ∨ (x'.2.1 = x.2.1.withIp i ∧ x.2.2.2.Unsaved))

theorem Alike.failed (i : ℕ) (st : StoreState σ) (e : Execution) (k : ℕ) (err : ExecError) :
    Alike φ i (st, e, k, .leave (.error err)) (st.clocked φ, e.withIp i, k, .leave (.error err)) :=
  ⟨rfl, rfl, Or.inr ⟨rfl, Or.inr ⟨err, rfl⟩⟩⟩

theorem Alike.same (i : ℕ) (st : StoreState σ) (x : Execution × ℕ × Next) :
    Alike φ i (st, x) (st.clocked φ, x) := ⟨rfl, rfl, Or.inl rfl⟩

theorem startHostCall_clocked (st : StoreState σ) (e : Execution) (func : ℕ) :
    I.startHostCall (st.clocked φ) e func =
      ((I.startHostCall st e func).1.clocked φ, (I.startHostCall st e func).2) := by
  unfold startHostCall prepareHostCall
  dsimp only [StoreState.clocked]
  cases e.popN _ _ with
  | error err => rfl
  | ok p => rfl

theorem carryOut_clocked (st : StoreState σ) (e : Execution) (r : Regs) (stopDepth k i : ℕ)
    (out : StepOutcome) :
    Alike φ i (I.carryOut st e r stopDepth k out)
      (I.carryOut (st.clocked φ) (e.withIp i) r stopDepth k out) := by
  have hsuspend : ∀ (returnIp : ℕ) (o : RunOutcome),
      Alike φ i (st, (suspend e returnIp o).1, k, (suspend e returnIp o).2)
        (st.clocked φ, (suspend (e.withIp i) returnIp o).1, k,
          (suspend (e.withIp i) returnIp o).2) := by
    intro returnIp o
    unfold suspend
    rw [e.saveIp_withIp]
    cases e.saveIp returnIp with
    | none => exact .failed φ i st e k _
    | some e' => exact .same φ i st _
  cases out with
  | advance next => exact ⟨rfl, rfl, Or.inr ⟨rfl, Or.inl ⟨_, rfl⟩⟩⟩
  | doCall req =>
    unfold carryOut
    dsimp only
    rw [e.stackBytes_withIp, e.saveIp_withIp]
    split
    · exact .failed φ i st e k _
    · split
      · exact .failed φ i st e k _
      · split
        · exact .failed φ i st e k _
        · exact .same φ i st _
  | doTailCall req =>
    unfold carryOut
    dsimp only
    rw [e.doReturn_withIp]
    split
    · exact .failed φ i st e k _
    · exact .same φ i st _
  | doHostCall func inst returnIp =>
    unfold carryOut
    dsimp only
    rw [e.saveIp_withIp]
    split
    · exact .failed φ i st e k _
    · rw [startHostCall_clocked]
      exact .same φ i _ _
  | doTailHostCall func inst nParams =>
    unfold carryOut
    dsimp only
    rw [e.doReturn_withIp]
    split
    · exact .failed φ i st e k _
    · rw [startHostCall_clocked]
      exact .same φ i _ _
  | doHostAsyncCall func inst returnIp => exact hsuspend returnIp (.hostAsync func inst)
  | doTailHostAsyncCall func inst nParams =>
    unfold carryOut
    dsimp only
    rw [e.doReturn_withIp]
    split
    · exact .failed φ i st e k _
    · exact .same φ i st _
  | doGrow memory delta returnIp => exact hsuspend returnIp (.grow memory delta)
  | doTableGrow table delta init returnIp => exact hsuspend returnIp (.tableGrow table delta init)
  | doGcGrow target bytes returnIp => exact hsuspend returnIp (.gcGrow target bytes)

/-- Two turns, of an engine and of one that meters or not. -/
def AlikeTurned (i : ℕ) (t t' : Turned σ) : Prop :=
  Alike φ i (t.st, t.exec, t.countdown, t.next) (t'.st, t'.exec, t'.countdown, t'.next) ∧
    t'.mark = { t.mark with charged := fuel }

theorem execute_clocked (st : StoreState σ) (e : Execution) (r : Regs) (stopDepth k i : ℕ)
    (op : Op) :
    AlikeTurned fuel φ i (I.execute st e r stopDepth k op)
      ((I.gated fuel epoch).execute (st.clocked φ) (e.withIp i) r stopDepth k op) := by
  unfold execute
  rw [gated_step, gated_unwind, gated_carryOut, show (st.clocked φ).rest = st.rest from rfl,
    Handler.run_withIp]
  generalize (I.step r.code op (r.ip + 1) r.inst).run r.base e st.rest = ran
  obtain ⟨e', s, result⟩ := ran
  cases result with
  | error err =>
    obtain ⟨hfound, hexec⟩ := I.unwind_withIp s e' err r.ip stopDepth i
    dsimp only
    refine ⟨⟨rfl, ?_, ?_⟩, rfl⟩
    · dsimp only
      rw [hfound]
      rcases hexec with hsame | ⟨-, err', herr⟩
      · rw [hsame]
      · rw [herr]
    · rcases hexec with hsame | ⟨hsaved, err', herr⟩
      · exact Or.inl hsame
      · refine Or.inr ⟨hsaved, Or.inr ⟨err', ?_⟩⟩
        dsimp only
        rw [herr]
  | ok out => exact ⟨I.carryOut_clocked φ { st with rest := s } e' r stopDepth k i out, rfl⟩

/-! ## Turns side by side -/

/-- Two states after a turn that was alike: the same up to the clocks and, once it may have drifted,
the count of guest calls, or up to the resume point of the running frame as well, while its driver
is in the loop or has failed there. -/
inductive Beside (drift : Bool) : State σ → State σ → Prop where
  | same {s t : State σ} (h : (s.clocked φ).Agrees drift I.gcWatch false t) : Beside drift s t
  | loop {st : StoreState σ} {slot : Execution} {d : Drive} {ds ds' : List Drive} {k i : ℕ} {q : Pc}
      {r : Regs} (hds : List.Forall₂ (Drive.Agrees drift I.gcWatch false) ds ds')
      (hd : d.pc = .loop r) (hq : q.Turns I.gcWatch r)
      (hk : d.InStep drift r k q) :
      Beside drift ⟨st, slot, d :: ds, true⟩
        ⟨st.clocked φ, slot,
          { d with exec := d.exec.withIp i, countdown := k, pc := q } :: ds', true⟩
  | failed {st : StoreState σ} {slot : Execution} {d : Drive} {ds ds' : List Drive} {k i : ℕ}
      {err : ExecError} (hds : List.Forall₂ (Drive.Agrees drift I.gcWatch false) ds ds')
      (hd : d.pc = .done (.error err)) :
      Beside drift ⟨st, slot, d :: ds, true⟩
        ⟨st.clocked φ, slot, { d with exec := d.exec.withIp i, countdown := k } :: ds', true⟩

variable {drift : Bool}

theorem turnStep_mark (s : State σ) (d : Drive) (ds : List Drive) (r : Regs) :
    (I.turnStep s d ds r).2 = (I.turn s.store d.exec r d.boundary.runStop d.countdown).mark := by
  unfold turnStep
  dsimp only
  split <;> rfl

/-- A turn that is alike leaves the drivers side by side, whatever their counts are. -/
theorem turnStep_beside {d : Drive} {ds ds' : List Drive} {st : StoreState σ} (slot : Execution)
    {i : ℕ} (hds : List.Forall₂ (Drive.Agrees drift I.gcWatch false) ds ds')
    (all all' : List Drive) (r : Regs) {k : ℕ} (hk : drift = false → k = d.countdown) (q : Pc)
    (hturn :
      let t := I.turn st d.exec r d.boundary.runStop d.countdown
      let t' := (I.gated fuel epoch).turn (st.clocked φ) (d.exec.withIp i) r d.boundary.runStop
        d.countdown
      Alike φ i (t.st, t.exec, t.countdown, t.next) (t'.st, t'.exec, t'.countdown, t'.next)) :
    let s' := I.turnStep ⟨st, slot, all, true⟩ d ds r
    let t' := (I.gated fuel epoch).turnStep ⟨st.clocked φ, slot, all', true⟩
      { d with exec := d.exec.withIp i, countdown := k, pc := q } ds' r
    I.Beside φ drift s'.1 t'.1 ∧
      t'.2 = ((I.gated fuel epoch).turn (st.clocked φ) (d.exec.withIp i) r d.boundary.runStop
        d.countdown).mark := by
  obtain ⟨hst', he', hcount', hnext', hmark'⟩ := (I.gated fuel epoch).turn_countdown (st.clocked φ)
    (d.exec.withIp i) r d.boundary.runStop hk
  intro s' t'
  unfold s' t' turnStep
  dsimp only
  generalize I.turn st d.exec r d.boundary.runStop d.countdown = u at *
  generalize (I.gated fuel epoch).turn (st.clocked φ) (d.exec.withIp i) r d.boundary.runStop
    d.countdown = v at *
  generalize (I.gated fuel epoch).turn (st.clocked φ) (d.exec.withIp i) r d.boundary.runStop
    k = w at *
  obtain ⟨st1, e1, k1, n1, m1⟩ := u
  obtain ⟨st2, e2, k2, n2, m2⟩ := v
  obtain ⟨st3, e3, k3, n3, m3⟩ := w
  obtain ⟨hst, hrest, hexec⟩ := hturn
  dsimp only at hst hrest hexec hst' he' hcount' hnext' hmark'
  obtain ⟨rfl, rfl⟩ := Prod.mk.inj hrest
  subst hst hst' he' hmark'
  rcases hexec with rfl | ⟨rfl, ⟨r', rfl⟩ | ⟨err, rfl⟩⟩
  · -- The resume point has been saved or overwritten.
    rcases hnext' with rfl | ⟨hdrift, r', hn, hn'⟩
    · cases n2 with
      | loop _ | poll _ | callback _ =>
        exact ⟨.same (.cons ⟨_, _, rfl, hcount', Or.inl rfl⟩ hds), rfl⟩
      | leave out =>
        cases out <;> exact ⟨.same (.cons ⟨_, _, rfl, hcount', Or.inl rfl⟩ hds), rfl⟩
    · obtain ⟨p, hp, ⟨rfl, rfl⟩ | ⟨rfl, rfl⟩⟩ := hn.exists_pc
      all_goals
        obtain ⟨p', hp', ⟨rfl, rfl⟩ | ⟨rfl, rfl⟩⟩ := hn'.exists_pc
        all_goals
          exact ⟨.same (.cons ⟨_, _, rfl, hcount', Or.inr ⟨r', Or.inl ⟨hdrift, hp⟩, hp'⟩⟩ hds), rfl⟩
  · rcases hnext' with rfl | ⟨hdrift, r'', hn, hn'⟩
    · exact ⟨.loop hds rfl (Or.inl rfl) fun h => ⟨hcount' h, rfl, nofun⟩, rfl⟩
    · obtain rfl : r' = r'' := by
        rcases hn with hn | ⟨-, hn⟩
        · exact Next.loop.inj hn
        · nomatch hn
      subst hdrift
      obtain ⟨p', hp', ⟨rfl, rfl⟩ | ⟨rfl, rfl⟩⟩ := hn'.exists_pc
      · exact ⟨.loop hds rfl hp' fun h => Bool.noConfusion h, rfl⟩
      · exact ⟨.loop hds rfl hp' fun h => Bool.noConfusion h, rfl⟩
  · rcases hnext' with rfl | ⟨-, r'', hn | ⟨-, hn⟩, -⟩
    · exact ⟨.failed hds rfl, rfl⟩
    · nomatch hn
    · nomatch hn

/-- What a failed call leaves behind is cut away with its resume point. -/
theorem finish_withIp {entry : Execution} {inner : List Frame} {d : Drive}
    (hb : d.boundary = boundaryOf entry) (hin : Inside entry inner d.exec) (s : State σ) (i : ℕ)
    (ds : List Drive) (err : ExecError) :
    I.finish s { d with exec := d.exec.withIp i } ds (.error err) =
      I.finish s d ds (.error err) := by
  obtain ⟨boundary, resultTys, scope, exec, countdown, pc⟩ := d
  dsimp only at hb hin
  subst hb
  obtain ⟨inner', hin'⟩ := hin.withIp i
  have hclose : ∀ st', I.close st' ⟨boundaryOf entry, resultTys, scope, exec.withIp i, countdown,
      pc⟩ (.error err) =
      I.close st' ⟨boundaryOf entry, resultTys, scope, exec, countdown, pc⟩ (.error err) := by
    intro st'
    unfold close boundaryOf
    dsimp only
    rw [hin'.discardTo_eq, hin.discardTo_eq]
  unfold finish
  dsimp only
  rw [hclose]

/-! ## Outside the loop -/

theorem prepareHostCall_clocked (st : StoreState σ) (e : Execution) (func : ℕ) :
    I.prepareHostCall (st.clocked φ) e func =
      (I.prepareHostCall st e func).map fun p => (p.1, p.2.1.clocked φ, p.2.2) := by
  unfold prepareHostCall
  dsimp only [StoreState.clocked]
  cases e.popN _ _ with
  | error err => rfl
  | ok p => rfl

theorem afterCallback_clocked (st : StoreState σ) (e : Execution) (call : HostCallState)
    (outcome : Except ExecError (List Val)) (stopDepth : ℕ) :
    I.afterCallback (st.clocked φ) e call outcome stopDepth =
      ((I.afterCallback st e call outcome stopDepth).1.clocked φ,
        (I.afterCallback st e call outcome stopDepth).2) := by
  obtain ⟨rest, fuel, epoch, deadline, pending, generation, internalError, roots, request⟩ := st
  unfold afterCallback
  dsimp only [StoreState.clocked]
  cases internalError with
  | some err => rfl
  | none =>
    unfold finishHostCall
    dsimp only
    cases outcome with
    | error err =>
      dsimp only
      split
      · cases pending <;> rfl
      · rfl
    | ok results =>
      dsimp only
      cases I.valuesMatch rest results call.sig.results <;> rfl

theorem serviceGcPressure_clocked (st : StoreState σ) (e : Execution) :
    I.serviceGcPressure (st.clocked φ) e =
      ((I.serviceGcPressure st e).1.clocked φ, (I.serviceGcPressure st e).2) := by
  by_cases hdue : I.footprintOverFloor st.rest = true ∧ st.gcRequest = true
  · have hdue' : I.footprintOverFloor (st.clocked φ).rest = true ∧
      (st.clocked φ).gcRequest = true :=
      hdue
    unfold serviceGcPressure
    rw [if_pos hdue, if_pos hdue']
    dsimp only [StoreState.clocked]
    cases I.collect st.rest e.operandRoots st.gcRoots <;> rfl
  · have hdue' : ¬ (I.footprintOverFloor (st.clocked φ).rest = true ∧
      (st.clocked φ).gcRequest = true) :=
      hdue
    unfold serviceGcPressure
    rw [if_neg hdue, if_neg hdue']

theorem close_clocked (st : StoreState σ) (d : Drive) (outcome : Except ExecError Unit) :
    I.close (st.clocked φ) d outcome
      = ((I.close st d outcome).1.clocked φ, (I.close st d outcome).2) := by
  unfold close
  dsimp only [StoreState.clocked]
  cases outcome with
  | ok u =>
    cases d.exec.takeResults d.boundary.valueBase d.boundary.stopDepth d.resultTys with
    | ok p =>
      dsimp only
      cases I.decodeResults st.rest d.resultTys p.1 <;> rfl
    | error err =>
      dsimp only
      cases d.exec.discardTo d.boundary.valueBase d.boundary.stopDepth <;> rfl
  | error err =>
    dsimp only
    cases d.exec.discardTo d.boundary.valueBase d.boundary.stopDepth with
    | error cleanup => rfl
    | ok e =>
      cases err with
      | pending exn =>
        dsimp only [surfaceException]
        cases I.exn st.rest exn <;> rfl
      | _ => rfl

theorem latchInternalError_clocked (st : StoreState σ) (err : ExecError) :
    (if err.isInternal then (st.clocked φ).latchInternalError err else (st.clocked φ)) =
      (if err.isInternal then st.latchInternalError err else st).clocked φ := by
  have hlatch : (st.clocked φ).latchInternalError err = (st.latchInternalError err).clocked φ := by
    obtain ⟨rest, fuel, epoch, deadline, pending, generation, internalError, roots, request⟩ := st
    cases internalError <;> rfl
  rw [hlatch, apply_ite fun st : StoreState σ => st.clocked φ]

theorem finish_clocked (st : StoreState σ) (slot : Execution) (all : List Drive) (d : Drive)
    (ds : List Drive) (outcome : Except ExecError Unit) :
    I.finish ⟨st.clocked φ, slot, all, true⟩ d ds outcome =
      (I.finish ⟨st, slot, all, true⟩ d ds outcome).clocked φ := by
  -- Behind the end of the scope, whatever store it leaves.
  have hclosed : ∀ st : StoreState σ, I.finish ⟨st.clocked φ, slot, all, true⟩
      { d with scope := none } ds outcome =
      (I.finish ⟨st, slot, all, true⟩ { d with scope := none } ds outcome).clocked φ := by
    intro st
    unfold finish
    dsimp only
    rw [close_clocked]
    split
    · rfl
    · cases (I.close st { d with scope := none } outcome).2.2 with
      | ok u => rfl
      | error err =>
        dsimp only
        rw [latchInternalError_clocked]
        rfl
  obtain ⟨boundary, resultTys, scope, exec, countdown, pc⟩ := d
  cases scope with
  | none => exact hclosed st
  | some scope => exact hclosed (st.truncateRoots scope.rootsMark)

/-- A driver outside the loop looks at the clocks only where it serves a fuel yield. -/
theorem guestStep_clocked (inline : Bool) (st : StoreState σ) (slot : Execution)
    (all : List Drive) {d : Drive} (hloop : ∀ r, d.pc ≠ .loop r) (hyield : d.pc ≠ .serve .fuelYield)
    (ds : List Drive) :
    (I.gated fuel epoch).guestStep inline ⟨st.clocked φ, slot, all, true⟩ d ds =
      ((I.guestStep inline ⟨st, slot, all, true⟩ d ds).1.clocked φ,
        (I.guestStep inline ⟨st, slot, all, true⟩ d ds).2) := by
  obtain ⟨boundary, resultTys, scope, exec, countdown, pc⟩ := d
  cases pc with
  | loop r => exact absurd rfl (hloop r)
  | run _ | hostFn _ | hostFnAsync _ | limiter _ _ | epochCallback _ => rfl
  | poll r =>
    have hservice : (I.gated fuel epoch).serviceGcPressure = I.serviceGcPressure := rfl
    unfold guestStep
    dsimp only
    rw [hservice, serviceGcPressure_clocked]
    rcases I.serviceGcPressure st exec with ⟨st', _ | _⟩ <;> rfl
  | done outcome =>
    exact congrArg (fun s => (s, Mark.silent)) (I.finish_clocked φ st slot all _ ds outcome)
  | serve o =>
    have hask : ∀ g withScope, askLimiter ⟨st.clocked φ, slot, all, true⟩
        ⟨boundary, resultTys, scope, exec, countdown, .serve o⟩ ds g withScope =
        (askLimiter ⟨st, slot, all, true⟩
          ⟨boundary, resultTys, scope, exec, countdown, .serve o⟩ ds g withScope).clocked φ := by
      intro g withScope
      cases withScope <;> rfl
    refine congrArg (fun s => (s, Mark.silent)) ?_
    cases o with
    | finished | epochDeadline => rfl
    | hostAsync func inst =>
      have hprepare : (I.gated fuel epoch).prepareHostCall = I.prepareHostCall := rfl
      unfold serve
      dsimp only
      rw [hprepare, prepareHostCall_clocked]
      unfold guestStep serve
      dsimp only
      cases I.prepareHostCall st exec func <;> cases scope <;> rfl
    | fuelYield => exact absurd rfl hyield
    | grow memory delta => exact hask _ _
    | tableGrow table delta init => exact hask _ _
    | gcGrow target bytes => exact hask _ _

/-! ### The embedder's code -/

/-- Restoring the store after a panic. -/
theorem restoreAfterPanic_clocked (s : State σ) (ds : List Drive) (scope : Parked) :
    restoreAfterPanic (s.clocked φ) ds scope = (restoreAfterPanic s ds scope).clocked φ := by
  obtain ⟨st, slot, all, guest⟩ := s
  unfold restoreAfterPanic State.clocked
  dsimp only
  cases slot.discardCurrentCall with
  | ok p => rfl
  | error err =>
    dsimp only
    cases err.isInternal <;> rfl

theorem recoverCancelled_clocked (s : State σ) (d : Drive) (ds : List Drive) (scope : Parked) :
    recoverCancelled (s.clocked φ) d ds scope = (recoverCancelled s d ds scope).clocked φ := by
  obtain ⟨st, slot, all, guest⟩ := s
  unfold recoverCancelled State.clocked
  dsimp only
  cases slot.discardTo d.boundary.valueBase d.boundary.stopDepth with
  | ok e => rfl
  | error err =>
    dsimp only
    rw [latchInternalError_clocked]
    rfl

theorem enter_clocked (s : State σ) (inst funcIndex : ℕ) (code : CompiledFunc) (args : List Val)
    (resultTys : List ValType) (isAsync : Bool) :
    enter (s.clocked φ) inst funcIndex code args resultTys isAsync =
      (enter s inst funcIndex code args resultTys isAsync).clocked φ := by
  obtain ⟨st, slot, all, guest⟩ := s
  obtain ⟨rest, fuel, epoch, deadline, pending, generation, internalError, roots, request⟩ := st
  unfold enter State.clocked
  dsimp only [StoreState.clocked]
  cases internalError with
  | some err =>
    dsimp only [Option.isSome_some]
    cases slot.isEmpty <;> rfl
  | none =>
    dsimp only [Option.isSome_none]
    generalize slot.enterCall _ inst funcIndex code args = entered
    obtain ⟨e, result⟩ := entered
    cases result with
    | error err => rfl
    | ok u => cases isAsync <;> rfl

theorem returned_clocked (s : State σ) (d : Drive) (ds : List Drive)
    (r : Except ExecError (List Val)) :
    I.returned (s.clocked φ) d ds r = (I.returned s d ds r).clocked φ := by
  obtain ⟨st, slot, all, guest⟩ := s
  unfold returned State.clocked
  dsimp only
  cases d.pc with
  | hostFn call =>
    dsimp only
    rw [afterCallback_clocked]
    rcases I.afterCallback st slot call r d.boundary.runStop with ⟨st', e, _ | _⟩
    · rfl
    · dsimp only
      split
      · rfl
      · cases e.top <;> rfl
  | hostFnAsync call =>
    dsimp only
    rw [afterCallback_clocked]
    rcases I.afterCallback st slot call r d.boundary.runStop with ⟨st', e, _ | _⟩
    · rfl
    · dsimp only
      rw [serviceGcPressure_clocked]
      cases I.gcWatch with
      | false => rfl
      | true => rcases I.serviceGcPressure st' e with ⟨st'', _ | _⟩ <;> rfl
  | run _ | loop _ | poll _ | serve _ | limiter _ _ | epochCallback _ | done _ => rfl

theorem grown_clocked (inline : Bool) (s : State σ) (d : Drive) (ds : List Drive) (rest : σ)
    (r : Except ExecError (Option ℕ)) :
    grown inline (s.clocked φ) d ds rest r = (grown inline s d ds rest r).clocked φ := by
  obtain ⟨st, slot, all, guest⟩ := s
  unfold grown State.clocked
  dsimp only
  cases d.pc with
  | limiter g scope => cases scope <;> cases r <;> rfl
  | run _ | loop _ | poll _ | serve _ | hostFn _ | hostFnAsync _ | epochCallback _ | done _ => rfl

theorem panicked_clocked (s : State σ) (d : Drive) (ds : List Drive) :
    panicked (s.clocked φ) d ds = (panicked s d ds).clocked φ := by
  unfold panicked
  split
  · exact restoreAfterPanic_clocked φ s ds _
  · exact restoreAfterPanic_clocked φ s ds _
  · exact restoreAfterPanic_clocked φ s ds _
  · exact restoreAfterPanic_clocked φ s ds _
  · exact recoverCancelled_clocked φ s d ds _
  · rfl

/-- What the embedder's code does without looking at the clocks. -/
def Unclocked : Choice σ → Prop
  | .call _ _ _ _ _ _ | .ret _ | .grown _ _ | .panic => True
  | _ => False

theorem hostStep_clocked (inline : Bool) {c : Choice σ} (hc : Unclocked c) (s : State σ) :
    I.hostStep inline c (s.clocked φ) = (I.hostStep inline c s).clocked φ := by
  cases c with
  | call inst funcIndex code args resultTys isAsync => exact enter_clocked φ s _ _ _ _ _ _
  | ret _ | grown _ _ | panic =>
    obtain ⟨st, slot, all, guest⟩ := s
    cases all with
    | nil => rfl
    | cons d ds =>
      first
      | exact I.returned_clocked φ _ d ds _
      | exact grown_clocked φ inline _ d ds _ _
      | exact panicked_clocked φ _ d ds
  | go | tick | post | setFuel _ | setFuelYieldInterval _ | hostOp _ | deadline _ => exact hc.elim

end Interp

end SubmilliWasm
