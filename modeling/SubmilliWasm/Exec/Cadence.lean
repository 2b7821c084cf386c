/-
# The cadence of pressure checks

A store on an engine with a pressure threshold looks into its mailbox every `GC_CHECK_INTERVAL`
guest calls (`Execution::dispatch` of `src/exec/mod.rs`), and after an async host call
(`drive_async` of `src/exec/host_async.rs`).  The countdown is a local of one activation of the
loop and starts anew whenever the loop is entered, so what it counts are the calls of this
activation.  The machine is run here beside a counter of the guest calls since the last check: it
stays within the interval as long as no loop takes over with a countdown that is more than what
the calls since the last check have left.
-/
import SubmilliWasm.Exec.Drive

namespace SubmilliWasm

open Runs

variable {σ : Type}

/-! ## Guest calls and checks -/

/-- Whether the loop, having carried out a decision, goes on in the callee of a plain or a tail
call. -/
def StepOutcome.enters : StepOutcome → Next → Bool
  | .doCall _, .loop _ | .doCall _, .poll _ | .doTailCall _, .loop _ | .doTailCall _,
    .poll _ => true
  | _, _ => false

namespace Interp

variable (I : Interp σ)

/-- Whether a turn of the loop executes a guest call. -/
def entersCallee (st : StoreState σ) (e : Execution) (r : Regs) (stopDepth countdown : ℕ) : Bool :=
  match r.code.ops[r.ip]? with
  | none => false
  | some op =>
    match I.serviceGates st e r.ip with
    | (st', e', .ok none) =>
      match (I.step r.code op (r.ip + 1) r.inst).run r.base e' st'.rest with
      | (e'', s, .ok out) =>
        out.enters (I.carryOut { st' with rest := s } e'' r stopDepth countdown out).2.2.2
      | _ => false
    | _ => false

/-- Whether a step of the machine executes a guest call. -/
def callsGuest (c : Choice σ) (s : State σ) : Bool :=
  match c, s.guest, s.drives with
  | .go, true, d :: _ =>
    match d.pc with
    | .loop r => I.entersCallee s.store d.exec r d.boundary.runStop d.countdown
    | _ => false
  | _, _, _ => false

/-- Whether a step of the machine looks into the mailbox: where the countdown has run out, and
after an async host call. -/
def checksPressure (c : Choice σ) (s : State σ) : Bool :=
  match c, s.guest, s.drives with
  | .go, true, d :: _ =>
    match d.pc with
    | .poll _ => true
    | _ => false
  | .ret r, false, d :: _ =>
    match d.pc with
    | .hostFnAsync call =>
      match I.afterCallback s.store s.slot call r d.boundary.runStop with
      | (_, _, .ok ()) => I.gcWatch
      | _ => false
    | _ => false
  | _, _, _ => false

/-- The machine beside the number of guest calls since the last check. -/
def watched (c : Choice σ) (w : State σ × ℕ) : (State σ × ℕ) × Mark :=
  let calls :=
    if I.checksPressure c w.1 then 0 else if I.callsGuest c w.1 then w.2 + 1 else w.2
  (((I.machine c w.1).1, calls), (I.machine c w.1).2)

/-- The countdown with which a loop takes over is covered by the interval: at the head of `run`,
where it starts anew, no guest call has been executed since the last check; and where a host
function returns to its loop, the calls since then and the loop's countdown are together within
the interval. -/
def Paced (c : Choice σ) (w : State σ × ℕ) : Prop :=
  match c, w.1.guest, w.1.drives with
  | .go, true, d :: _ =>
    match d.pc with
    | .run _ => w.2 = 0
    | _ => True
  | .ret _, false, d :: _ =>
    match d.pc with
    | .hostFn _ => w.2 + d.countdown ≤ gcCheckInterval
    | _ => True
  | _, _, _ => True

end Interp

/-! ## The countdown of a driver -/

/-- A driver in its loop, or called from there, has calls left; at the mailbox its countdown is
full. -/
def Drive.Counted (d : Drive) : Prop :=
  match d.pc with
  | .loop _ | .hostFn _ => 0 < d.countdown
  | .poll _ => d.countdown = Interp.gcCheckInterval
  | _ => True

/-- A driver that is not in its loop. -/
def Pc.Outside : Pc → Prop
  | .loop _ | .poll _ | .hostFn _ => False
  | _ => True

theorem Drive.Counted.of_outside {d : Drive} (h : d.pc.Outside) : d.Counted := by
  unfold Counted
  cases hpc : d.pc with
  | loop r => exact absurd h (by rw [hpc]; exact id)
  | poll r => exact absurd h (by rw [hpc]; exact id)
  | hostFn call => exact absurd h (by rw [hpc]; exact id)
  | run _ | serve _ | hostFnAsync _ | limiter _ _ | epochCallback _ | done _ => trivial

/-- The counters of a watched state: every driver's own, and those of the running loop against the
calls since the last check. -/
structure Steady (w : State σ × ℕ) : Prop where
  within : w.2 ≤ Interp.gcCheckInterval
  counted : ∀ d ∈ w.1.drives, d.Counted
  running : w.1.guest = true → ∀ d ds r, w.1.drives = d :: ds → d.pc = .loop r →
    w.2 + d.countdown ≤ Interp.gcCheckInterval

namespace Interp

variable (I : Interp σ)

/-! ## What a turn does to the countdown -/

/-- A turn counts down exactly when it executes a guest call; the last one of the interval leads to
the mailbox with a full countdown. -/
def CountedTurn (entered : Bool) (countdown countdown' : ℕ) (next : Next) : Prop :=
  match entered with
  | true =>
    (countdown ≤ 1 ∧ countdown' = gcCheckInterval ∧ ∃ r, next = .poll r) ∨
      (countdown' + 1 = countdown ∧ 0 < countdown' ∧ ∃ r, next = .loop r)
  | false => countdown' = countdown ∧ ∀ r, next ≠ .poll r

theorem CountedTurn.kept {countdown : ℕ} {next : Next} (h : ∀ r, next ≠ .poll r) :
    CountedTurn false countdown countdown next := ⟨rfl, h⟩

theorem CountedTurn.left (countdown : ℕ) (out : Except ExecError RunOutcome) :
    CountedTurn false countdown countdown (.leave out) := .kept fun _ h => (nomatch h)

variable {I}

theorem enterCallee_counted (hw : I.gcWatch = true) (e : Execution) (req : CallReq) (k : ℕ)
    (out : StepOutcome) (hout : out = .doCall req ∨ out = .doTailCall req) :
    CountedTurn (out.enters (I.enterCallee e req k).2.2) k (I.enterCallee e req k).2.1
      (I.enterCallee e req k).2.2 := by
  have henters : ∀ next, out.enters next =
      (match next with | .loop _ | .poll _ => true | _ => false) := by
    intro next
    rcases hout with rfl | rfl <;> cases next <;> rfl
  rw [henters]
  unfold enterCallee
  cases e.pushCall req.inst req.funcIndex req.code with
  | error err => exact .left k _
  | ok e' =>
    dsimp only
    cases e'.top with
    | error err => exact .left k _
    | ok r =>
      dsimp only
      rw [if_pos hw]
      by_cases hk : k - 1 = 0
      · rw [if_pos hk]
        exact Or.inl ⟨by omega, rfl, r, rfl⟩
      · rw [if_neg hk]
        exact Or.inr ⟨by simp only; omega, by simp only; omega, r, rfl⟩

theorem startHostCall_counted (st : StoreState σ) (e : Execution) (func k : ℕ) :
    CountedTurn false k k (I.startHostCall st e func).2.2 := by
  unfold startHostCall
  split
  · exact .left k _
  · exact .kept fun _ h => (nomatch h)

theorem carryOut_counted (hw : I.gcWatch = true) (st : StoreState σ) (e : Execution) (r : Regs)
    (stopDepth k : ℕ) (out : StepOutcome) :
    CountedTurn (out.enters (I.carryOut st e r stopDepth k out).2.2.2) k
      (I.carryOut st e r stopDepth k out).2.2.1 (I.carryOut st e r stopDepth k out).2.2.2 := by
  have hcases := I.carryOut_cases st e r stopDepth k out
  generalize I.carryOut st e r stopDepth k out = c at hcases ⊢
  cases hcases with
  | advance next => exact .kept fun _ h => (nomatch h)
  | fails _ err => cases out <;> exact .left k _
  | calls _ _ _ => exact enterCallee_counted hw _ _ k (.doCall _) (Or.inl rfl)
  | tailCalls _ => exact enterCallee_counted hw _ _ k (.doTailCall _) (Or.inr rfl)
  | hosts _ => exact startHostCall_counted st _ _ k
  | tailHosts _ => exact startHostCall_counted st _ _ k
  | suspends hout _ => cases hout <;> exact .left k _
  | tailSuspends _ => exact .left k _

theorem reload_counted (e : Execution) (k : ℕ) : CountedTurn false k k (reload e) := by
  unfold reload
  split
  · exact .left k _
  · exact .kept fun _ h => (nomatch h)

theorem turn_counted (hw : I.gcWatch = true) (st : StoreState σ) (e : Execution) (r : Regs)
    (stopDepth k : ℕ) :
    CountedTurn (I.entersCallee st e r stopDepth k) k (I.turn st e r stopDepth k).countdown
      (I.turn st e r stopDepth k).next := by
  unfold turn entersCallee
  cases r.code.ops[r.ip]? with
  | none =>
    dsimp only
    split
    · exact .left k _
    · exact .left k _
    · exact reload_counted _ k
  | some op =>
    dsimp only
    rcases I.serviceGates st e r.ip with ⟨st', e', err | _ | out⟩
    · exact .left k _
    · dsimp only
      unfold execute
      rcases (I.step r.code op (r.ip + 1) r.inst).run r.base e' st'.rest with ⟨e'', s, err | out⟩
      · dsimp only
        split
        · exact .left k _
        · exact reload_counted _ k
      · exact carryOut_counted hw { st' with rest := s } e'' r stopDepth k out
    · exact .left k _

/-! ## The counters are kept -/

end Interp

namespace Steady

variable {s : State σ} {n : ℕ} {d : Drive} {ds : List Drive}

/-- The innermost driver is not in its loop. -/
theorem of_outside (hn : n ≤ Interp.gcCheckInterval) (hs : s.drives = d :: ds)
    (hd : d.pc.Outside) (hds : ∀ d ∈ ds, d.Counted) : Steady (s, n) := by
  refine ⟨hn, fun d' hd' => ?_, fun _ d' ds' r hs' hpc => ?_⟩
  · rw [show (s, n).1.drives = d :: ds from hs] at hd'
    rcases List.mem_cons.mp hd' with rfl | hd'
    · exact .of_outside hd
    · exact hds d' hd'
  · obtain ⟨rfl, -⟩ := List.cons.inj (hs.symm.trans hs')
    rw [hpc] at hd
    exact hd.elim

/-- The embedder's code has control. -/
theorem parked (hn : n ≤ Interp.gcCheckInterval) (hg : s.guest = false)
    (hds : ∀ d ∈ s.drives, d.Counted) : Steady (s, n) :=
  ⟨hn, hds, fun h => Bool.noConfusion (hg.symm.trans h)⟩

/-- The innermost driver goes on in its loop. -/
theorem looping (hn : n + d.countdown ≤ Interp.gcCheckInterval) (h0 : 0 < d.countdown)
    (hs : s.drives = d :: ds) {r : Regs} (hd : d.pc = .loop r) (hds : ∀ d ∈ ds, d.Counted) :
    Steady (s, n) := by
  refine ⟨by simp only; omega, fun d' hd' => ?_, fun _ d' ds' r' hs' _ => ?_⟩
  · rw [show (s, n).1.drives = d :: ds from hs] at hd'
    rcases List.mem_cons.mp hd' with rfl | hd'
    · unfold Drive.Counted
      rw [hd]
      exact h0
    · exact hds d' hd'
  · obtain ⟨rfl, -⟩ := List.cons.inj (hs.symm.trans hs')
    exact hn

end Steady

namespace Interp

variable {I : Interp σ} {st : StoreState σ} {slot : Execution} {d : Drive} {ds : List Drive} {n : ℕ}

/-- Wherever an outcome is served, its driver leaves the loop. -/
theorem serve_outside (s : State σ) (d : Drive) (ds : List Drive) (o : RunOutcome) :
    ∃ d', (I.serve false s d ds o).drives = d' :: ds ∧ d'.pc.Outside := by
  have hask : ∀ g withScope, ∃ d', (askLimiter s d ds g withScope).drives = d' :: ds ∧
      d'.pc.Outside := by
    intro g withScope
    unfold askLimiter
    cases withScope with
    | true => exact ⟨_, rfl, trivial⟩
    | false => exact ⟨_, rfl, trivial⟩
  cases o with
  | finished => exact ⟨_, rfl, trivial⟩
  | hostAsync func inst =>
    unfold serve
    dsimp only
    split
    · split
      · exact ⟨_, rfl, trivial⟩
      · exact ⟨_, rfl, trivial⟩
    · exact ⟨_, rfl, trivial⟩
  | fuelYield =>
    unfold serve
    dsimp only
    split
    · exact ⟨_, rfl, trivial⟩
    · exact ⟨_, rfl, trivial⟩
  | epochDeadline => exact ⟨_, rfl, trivial⟩
  | grow memory delta => exact hask _ _
  | tableGrow table delta init => exact hask _ _
  | gcGrow target bytes => exact hask _ _

theorem finish_parked (s : State σ) (d : Drive) (ds : List Drive)
    (outcome : Except ExecError Unit) :
    (I.finish s d ds outcome).guest = false ∧ (I.finish s d ds outcome).drives = ds := by
  unfold finish
  dsimp only
  split
  · exact ⟨rfl, rfl⟩
  · exact ⟨rfl, rfl⟩

/-- A turn of the loop spends the countdown on the calls it executes. -/
theorem turnStep_steady (hw : I.gcWatch = true) {r : Regs} (hpc : d.pc = .loop r)
    (h : Steady ((⟨st, slot, d :: ds, true⟩ : State σ), n)) :
    Steady ((I.turnStep ⟨st, slot, d :: ds, true⟩ d ds r).1,
      if I.entersCallee st d.exec r d.boundary.runStop d.countdown then n + 1 else n) := by
  have hsum : n + d.countdown ≤ gcCheckInterval := h.running rfl d ds r rfl hpc
  have hd : d.Counted := h.counted d List.mem_cons_self
  have hpos : 0 < d.countdown := by
    unfold Drive.Counted at hd
    rwa [hpc] at hd
  have hds : ∀ d' ∈ ds, d'.Counted := fun d' hd' => h.counted d' (List.mem_cons_of_mem _ hd')
  have hcount := turn_counted hw st d.exec r d.boundary.runStop d.countdown
  unfold turnStep
  dsimp only
  generalize I.entersCallee st d.exec r d.boundary.runStop d.countdown = entered at *
  generalize I.turn st d.exec r d.boundary.runStop d.countdown = t at *
  obtain ⟨st', e', k, next, mark⟩ := t
  cases entered with
  | true =>
    rcases hcount with ⟨hk, hfull, r', hnext⟩ | ⟨hk, hk0, r', hnext⟩
    · -- The last call of the interval.
      dsimp only at hfull hnext
      subst hfull hnext
      refine ⟨?_, fun d' hd' => ?_, fun _ d' ds' r'' hs' hloop => ?_⟩
      · show n + 1 ≤ gcCheckInterval
        omega
      · rcases List.mem_cons.mp hd' with rfl | hd'
        · exact rfl
        · exact hds d' hd'
      · obtain ⟨rfl, -⟩ := List.cons.inj hs'
        nomatch hloop
    · dsimp only at hk hk0 hnext
      subst hnext
      refine Steady.looping (d := ⟨d.boundary, d.resultTys, d.scope, e', k, .loop r'⟩) ?_ hk0 rfl
        rfl hds
      show n + 1 + k ≤ gcCheckInterval
      omega
  | false =>
    obtain ⟨hk, hpoll⟩ := hcount
    dsimp only at hk hpoll
    subst hk
    have hn : n ≤ gcCheckInterval := by omega
    cases next with
    | loop r' =>
      exact Steady.looping (d := ⟨d.boundary, d.resultTys, d.scope, e', d.countdown, .loop r'⟩)
        hsum hpos rfl rfl hds
    | poll r' => exact absurd rfl (hpoll r')
    | callback call =>
      refine Steady.parked hn rfl fun d' hd' => ?_
      rcases List.mem_cons.mp hd' with rfl | hd'
      · exact hpos
      · exact hds d' hd'
    | leave out =>
      cases out with
      | ok o => exact Steady.of_outside hn rfl trivial hds
      | error err => exact Steady.of_outside hn rfl trivial hds

/-- A turn of the innermost driver. -/
theorem guestStep_steady (hw : I.gcWatch = true)
    (h : Steady ((⟨st, slot, d :: ds, true⟩ : State σ), n))
    (hp : Paced .go (⟨st, slot, d :: ds, true⟩, n)) :
    Steady (I.watched .go (⟨st, slot, d :: ds, true⟩, n)).1 := by
  have hn : n ≤ gcCheckInterval := h.within
  have hds : ∀ d' ∈ ds, d'.Counted := fun d' hd' => h.counted d' (List.mem_cons_of_mem _ hd')
  obtain ⟨boundary, resultTys, scope, exec, countdown, pc⟩ := d
  cases pc with
  | run resumed =>
    obtain rfl : n = 0 := hp
    show Steady ((⟨st, slot, ⟨boundary, resultTys, scope, exec, gcCheckInterval,
      I.runHead ⟨boundary, resultTys, scope, exec, countdown, .run resumed⟩⟩ :: ds,
        true⟩ : State σ), 0)
    generalize hhead : I.runHead ⟨boundary, resultTys, scope, exec, countdown, .run resumed⟩ = pc'
    cases pc' with
    | loop r =>
      exact Steady.looping (d := ⟨boundary, resultTys, scope, exec, gcCheckInterval, .loop r⟩)
        (le_of_eq (Nat.zero_add _)) (show 0 < gcCheckInterval by decide) rfl rfl hds
    | serve o => exact Steady.of_outside hn rfl trivial hds
    | done out => exact Steady.of_outside hn rfl trivial hds
    | run _ | poll _ | hostFn _ | hostFnAsync _ | limiter _ _ | epochCallback _ =>
      -- The head of `run` goes nowhere else.
      unfold runHead at hhead
      repeat' split at hhead
      all_goals exact (nomatch hhead)
  | loop r => exact turnStep_steady hw rfl h
  | poll r =>
    have hfull : countdown = gcCheckInterval := h.counted _ List.mem_cons_self
    show Steady ((I.guestStep false ⟨st, slot, ⟨boundary, resultTys, scope, exec, countdown,
      .poll r⟩ :: ds, true⟩ ⟨boundary, resultTys, scope, exec, countdown, .poll r⟩ ds).1, 0)
    unfold guestStep
    dsimp only
    rcases I.serviceGcPressure st exec with ⟨st', err | u⟩
    · exact Steady.of_outside (Nat.zero_le _) rfl trivial hds
    · subst hfull
      exact Steady.looping (d := ⟨boundary, resultTys, scope, exec, gcCheckInterval, .loop r⟩)
        (le_of_eq (Nat.zero_add _)) (show 0 < gcCheckInterval by decide) rfl rfl hds
  | serve o =>
    obtain ⟨d', hdrives, hout⟩ := serve_outside (I := I)
      ⟨st, slot, ⟨boundary, resultTys, scope, exec, countdown, .serve o⟩ :: ds, true⟩
      ⟨boundary, resultTys, scope, exec, countdown, .serve o⟩ ds o
    exact Steady.of_outside hn hdrives hout hds
  | done out =>
    obtain ⟨hguest, hdrives⟩ := finish_parked (I := I)
      ⟨st, slot, ⟨boundary, resultTys, scope, exec, countdown, .done out⟩ :: ds, true⟩
      ⟨boundary, resultTys, scope, exec, countdown, .done out⟩ ds out
    exact Steady.parked hn hguest fun d' hd' => hds d' (hdrives ▸ hd')
  | hostFn _ | hostFnAsync _ | limiter _ _ | epochCallback _ => exact h

/-! ### The embedder's code -/

theorem enter_steady {s : State σ} (hg : s.guest = false) (h : Steady (s, n)) (inst funcIndex : ℕ)
    (code : CompiledFunc) (args : List Val) (resultTys : List ValType) (isAsync : Bool) :
    Steady (enter s inst funcIndex code args resultTys isAsync, n) := by
  unfold enter
  split
  · split
    · exact Steady.parked h.within hg h.counted
    · exact h
  · dsimp only
    split
    · exact Steady.parked h.within hg h.counted
    · exact Steady.of_outside h.within rfl trivial h.counted

/-- A host function has returned: a loop goes on with the countdown it had. -/
theorem returned_steady (h : Steady ((⟨st, slot, d :: ds, false⟩ : State σ), n))
    (r : Except ExecError (List Val))
    (hp : Paced (.ret r) (⟨st, slot, d :: ds, false⟩, n)) :
    Steady (I.watched (.ret r) (⟨st, slot, d :: ds, false⟩, n)).1 := by
  have hn : n ≤ gcCheckInterval := h.within
  have hds : ∀ d' ∈ ds, d'.Counted := fun d' hd' => h.counted d' (List.mem_cons_of_mem _ hd')
  obtain ⟨boundary, resultTys, scope, exec, countdown, pc⟩ := d
  cases pc with
  | hostFn call =>
    have hsum : n + countdown ≤ gcCheckInterval := hp
    have hpos : 0 < countdown := h.counted _ List.mem_cons_self
    show Steady (I.returned ⟨st, slot, ⟨boundary, resultTys, scope, exec, countdown,
      .hostFn call⟩ :: ds, false⟩ ⟨boundary, resultTys, scope, exec, countdown,
        .hostFn call⟩ ds r, n)
    unfold returned
    dsimp only
    rcases I.afterCallback st slot call r boundary.runStop with ⟨st', e, err | u⟩
    · exact Steady.of_outside hn rfl trivial hds
    · dsimp only
      split
      · exact Steady.of_outside hn rfl trivial hds
      · cases e.top with
        | error err => exact Steady.of_outside hn rfl trivial hds
        | ok regs => exact Steady.looping hsum hpos rfl rfl hds
  | hostFnAsync call =>
    -- The await is followed by a check, unless the call has failed.
    have hcalls : (if I.checksPressure (.ret r) ⟨st, slot, ⟨boundary, resultTys, scope, exec,
        countdown, .hostFnAsync call⟩ :: ds, false⟩ then 0 else n) ≤ gcCheckInterval := by
      split
      · exact Nat.zero_le _
      · exact hn
    show Steady (I.returned ⟨st, slot, ⟨boundary, resultTys, scope, exec, countdown,
      .hostFnAsync call⟩ :: ds, false⟩
      ⟨boundary, resultTys, scope, exec, countdown, .hostFnAsync call⟩ ds r,
      if I.checksPressure (.ret r) _ then 0 else n)
    generalize (if I.checksPressure (.ret r) ⟨st, slot, ⟨boundary, resultTys, scope, exec,
      countdown, .hostFnAsync call⟩ :: ds, false⟩ then 0 else n) = m at hcalls ⊢
    unfold returned
    dsimp only
    rcases I.afterCallback st slot call r boundary.runStop with ⟨st', e, err | u⟩
    · exact Steady.of_outside hcalls rfl trivial hds
    · dsimp only
      split
      · exact Steady.of_outside hcalls rfl trivial hds
      · exact Steady.of_outside hcalls rfl trivial hds
  | run _ | loop _ | poll _ | serve _ | limiter _ _ | epochCallback _ | done _ => exact h

theorem grown_steady (h : Steady ((⟨st, slot, d :: ds, false⟩ : State σ), n)) (rest : σ)
    (r : Except ExecError (Option ℕ)) :
    Steady (grown false ⟨st, slot, d :: ds, false⟩ d ds rest r, n) := by
  have hds : ∀ d' ∈ ds, d'.Counted := fun d' hd' => h.counted d' (List.mem_cons_of_mem _ hd')
  unfold grown
  cases d.pc with
  | limiter g scope =>
    dsimp only
    cases r with
    | error err => exact Steady.of_outside h.within rfl trivial hds
    | ok old => exact Steady.of_outside h.within rfl trivial hds
  | run _ | loop _ | poll _ | serve _ | hostFn _ | hostFnAsync _ | epochCallback _ | done _ =>
    exact h

theorem applyEpochDeadline_steady (h : Steady ((⟨st, slot, d :: ds, false⟩ : State σ), n))
    (r : Except ExecError UpdateDeadline) :
    Steady (applyEpochDeadline false ⟨st, slot, d :: ds, false⟩ d ds r, n) := by
  have hds : ∀ d' ∈ ds, d'.Counted := fun d' hd' => h.counted d' (List.mem_cons_of_mem _ hd')
  unfold applyEpochDeadline
  cases d.pc with
  | epochCallback scope =>
    dsimp only
    split
    · exact Steady.of_outside h.within rfl trivial hds
    · split
      · exact Steady.of_outside h.within rfl trivial hds
      · exact Steady.of_outside h.within rfl trivial hds
      · exact Steady.of_outside h.within rfl trivial hds
      · split
        · exact Steady.of_outside h.within rfl trivial hds
        · exact Steady.of_outside h.within rfl trivial hds
  | run _ | loop _ | poll _ | serve _ | hostFn _ | hostFnAsync _ | limiter _ _ | done _ => exact h

theorem panicked_steady (h : Steady ((⟨st, slot, d :: ds, false⟩ : State σ), n)) :
    Steady (panicked ⟨st, slot, d :: ds, false⟩ d ds, n) := by
  have hds : ∀ d' ∈ ds, d'.Counted := fun d' hd' => h.counted d' (List.mem_cons_of_mem _ hd')
  unfold panicked
  split
  · exact Steady.parked h.within rfl hds
  · exact Steady.parked h.within rfl hds
  · exact Steady.parked h.within rfl hds
  · exact Steady.parked h.within rfl hds
  · exact Steady.parked h.within rfl hds
  · exact h

/-- **One step** of the machine keeps the counters. -/
theorem watched_steady (hw : I.gcWatch = true) (c : Choice σ) (w : State σ × ℕ) (h : Steady w)
    (hp : Paced c w) : Steady (I.watched c w).1 := by
  obtain ⟨⟨st, slot, all, guest⟩, n⟩ := w
  cases guest with
  | true =>
    cases c with
    | go =>
      cases all with
      | nil => exact h
      | cons d ds => exact guestStep_steady hw h hp
    | tick | post => exact ⟨h.within, h.counted, h.running⟩
    | call _ _ _ _ _ _ | setFuel _ | setFuelYieldInterval _ | hostOp _ | ret _ | grown _ _
    | deadline _ | panic => exact h
  | false =>
    cases c with
    | go => exact h
    | tick | post => exact ⟨h.within, h.counted, h.running⟩
    | call inst funcIndex code args resultTys isAsync =>
      exact enter_steady rfl h inst funcIndex code args resultTys isAsync
    | setFuel m => exact Steady.parked h.within rfl h.counted
    | setFuelYieldInterval i => exact Steady.parked h.within rfl h.counted
    | hostOp st' =>
      show Steady ((⟨_, slot, all, false⟩ : State σ), n)
      exact Steady.parked h.within rfl h.counted
    | ret r =>
      cases all with
      | nil => exact h
      | cons d ds => exact returned_steady h r hp
    | grown rest r =>
      cases all with
      | nil => exact h
      | cons d ds => exact grown_steady h rest r
    | deadline r =>
      cases all with
      | nil => exact h
      | cons d ds => exact applyEpochDeadline_steady h r
    | panic =>
      cases all with
      | nil => exact h
      | cons d ds => exact panicked_steady h

/-! ## Runs -/

/-- **The cadence of pressure checks.**  In every run of a watched store in which no loop takes
over with a countdown beyond what the calls since the last check have left, at most
`GC_CHECK_INTERVAL` guest calls are executed without a check. -/
theorem calls_between_checks (I : Interp σ) (hw : I.gcWatch = true) (cs : List (Choice σ))
    (st : StoreState σ) (hp : Along I.watched Paced cs (State.idle st, 0)) :
    (run I.watched cs (State.idle st, 0)).2 ≤ gcCheckInterval := by
  have hstart : Steady ((State.idle st : State σ), 0) :=
    Steady.parked (Nat.zero_le _) rfl fun d hd => absurd hd List.not_mem_nil
  exact (invariant (fun c w h hc => watched_steady hw c w h hc) hstart hp).within

/-! ### A loop of tail calls -/

/-- A function that does nothing but call itself in tail position. -/
def spinCode : CompiledFunc := .ofOps [.returnCall (.func 0)]

/-- A watched store in which every call is one of `spinCode`. -/
def spin : Interp Unit :=
  { idle 1000 false true with gcWatch := true, callee := fun _ _ _ _ => .ok (.wasm 0 0 spinCode) }

/-- The store of a spinning call, with its deadline ahead. -/
def spinStore : StoreState Unit :=
  extendEpochDeadline { StoreState.new () with epoch := (0 + 1) % 2 ^ 64 } 1000

/-- The call in its loop. -/
def spinning (k : ℕ) : State Unit where
  store := spinStore
  slot := .empty
  drives := [⟨⟨0, 0, 1⟩, [], none,
    ⟨[], [], [⟨spinCode, 0, 0, 0, 0, 0, none⟩, ⟨spinCode, 0, 0, 0, 0, 0, some .topLevel⟩], 0⟩, k,
    .loop ⟨spinCode, 0, 0, 0⟩⟩]
  guest := true

theorem spinning_step (k n : ℕ) :
    (spin.watched .go (spinning (k + 2), n)).1 = (spinning (k + 1), n + 1) := rfl

theorem spinning_run (k n : ℕ) :
    run spin.watched (List.replicate k .go) (spinning (k + 1), n) = (spinning 1, n + k) := by
  induction k generalizing n with
  | zero => rfl
  | succ k ih =>
    rw [List.replicate_succ, run_cons, spinning_step, ih]
    congr 1
    omega

/-- A whole interval of calls in one activation. -/
theorem calls_between_checks_spin :
    (run spin.watched [.call 0 0 spinCode [] [] false, .go, .go, .go]
      (State.idle spinStore, 0)).2 ≤ gcCheckInterval :=
  calls_between_checks spin rfl _ spinStore ⟨trivial, rfl, trivial, trivial, trivial⟩

/-- One call, a deadline that the callback extends, and the calls of a whole countdown: the loop
was entered again, so the first call is not counted. -/
theorem not_calls_between_checks_epoch :
    ¬ ∀ (cs : List (Choice Unit)) (st : StoreState Unit),
      (run spin.watched cs (State.idle st, 0)).2 ≤ gcCheckInterval := by
  intro h
  have hle := h ([.call 0 0 spinCode [] [] false, .go, .go, .tick, .go, .go,
    .deadline (.ok (.continue_ 1000)), .go] ++ List.replicate 1023 .go ++ [.go])
    { StoreState.new () with epochDeadline := 1 }
  have hstart : run spin.watched [.call 0 0 spinCode [] [] false, .go, .go, .tick, .go, .go,
      .deadline (.ok (.continue_ 1000)), .go]
      (State.idle { StoreState.new () with epochDeadline := 1 }, 0) = (spinning 1024, 1) := rfl
  have hlast : (run spin.watched [.go] (spinning 1, 1024)).2 = 1025 := rfl
  rw [run_append, run_append, hstart, spinning_run, hlast] at hle
  exact absurd hle (by decide)

end Interp

end SubmilliWasm
