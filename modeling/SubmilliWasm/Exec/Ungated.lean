/-
# Runs without a deadline

A run whose epoch callback always continues is compared with the run of an engine that has no
gates.  A gate that fires saves the resume point of the top frame, leaves the loop, and leads back
to it with other readings of the clocks; the engine without gates waits meanwhile in front of the
op.
-/
import SubmilliWasm.Exec.Deadlines

namespace SubmilliWasm

open Runs

variable {σ : Type}

/-- The decisions of the embedder's code, but for the answers of the epoch callback. -/
def Choice.besideAnswers : Choice σ → List (Choice σ)
  | .go | .deadline _ => []
  | c => [c]

/-- The op a step executed. -/
def Mark.executed (m : Mark) : List Op := m.ran.toList

/-- A step that shows nothing has executed nothing. -/
theorem executed_of_shown {ms : List Mark} (h : ms.flatMap Mark.shown = []) :
    ms.flatMap Mark.executed = [] := by
  refine List.flatMap_eq_nil_iff.mpr fun m hm => ?_
  have hshown := List.flatMap_eq_nil_iff.mp h m hm
  unfold Mark.shown at hshown
  split at hshown
  · rename_i hsilent
    rw [hsilent]
    rfl
  · exact absurd hshown (List.cons_ne_nil _ _)

/-- Closing the scope of the callback gives the store back. -/
theorem StoreState.truncateRoots_park (st : StoreState σ) :
    st.park.2.truncateRoots st.park.1.rootsMark = st := by
  unfold park truncateRoots
  dsimp only
  rw [List.take_left]

/-- What a reading says of one store, said of every store. -/
def ClockMap.frozen (φ : ClockMap) (st : StoreState σ) : ClockMap :=
  ⟨fun _ => φ.fuel st.fuel, fun _ => φ.deadline st.epochDeadline⟩

namespace Interp

variable (I : Interp σ)

/-- The engine without gates in front of an op. -/
abbrev ungated : Interp σ := I.gated false false

/-! ## A turn without gates -/

/-- The fuel is not found exhausted at the next op. -/
def Fueled (st : StoreState σ) (r : Regs) : Prop :=
  I.consumeFuel = true → (r.code.ops[r.ip]?).isSome = true →
    st.fuel.consumeFuelStep.1 ≠ .exhausted

/-- A turn that a gate has ended. -/
def Gated (φ : ClockMap) (st : StoreState σ) (e : Execution) (r : Regs) (k : ℕ) (t : Turned σ) :
    Prop :=
  ∃ st' e' o m, t = ⟨st', e', k, .leave (.ok o), m⟩ ∧ (o = .fuelYield ∨ o = .epochDeadline) ∧
    e.saveIp r.ip = some e' ∧ m.ran = none ∧ st'.clocked (φ.frozen st) = st.clocked φ

/-- The gates let the op pass, or one of them ends the turn. -/
theorem serviceGates_cases (st : StoreState σ) (φ : ClockMap) {e : Execution}
    (hframes : e.frames ≠ []) (j : ℕ)
    (hfuel : I.consumeFuel = true → st.fuel.consumeFuelStep.1 ≠ .exhausted) :
    ∃ st', st'.clocked (φ.frozen st) = st.clocked φ ∧
      (I.serviceGates st e j = (st', e, .ok none) ∨
        ∃ e' o, e.saveIp j = some e' ∧ (o = .fuelYield ∨ o = .epochDeadline) ∧
          I.serviceGates st e j = (st', e', .ok (some o))) := by
  obtain ⟨e', he'⟩ : ∃ e', e.saveIp j = some e' := by
    cases hf : e.frames with
    | nil => exact absurd hf hframes
    | cons f fs => exact ⟨_, by rw [Execution.saveIp, hf]⟩
  have hepoch : ∀ st' : StoreState σ, I.epochGate st' e j = (e, .ok none) ∨
      I.epochGate st' e j = (e', .ok (some .epochDeadline)) := by
    intro st'
    unfold epochGate
    rw [he']
    split
    · exact Or.inr rfl
    · exact Or.inl rfl
  unfold serviceGates
  by_cases hmetered : I.consumeFuel = true
  · rw [if_pos hmetered]
    have hleft := hfuel hmetered
    rcases hstep : st.fuel.consumeFuelStep with ⟨answer, fuel⟩
    rw [hstep] at hleft
    cases answer with
    | exhausted => exact absurd rfl hleft
    | needYield =>
      dsimp only
      rw [he']
      exact ⟨st, rfl, Or.inr ⟨e', _, rfl, Or.inl rfl, rfl⟩⟩
    | ran =>
      refine ⟨{ st with fuel := fuel }, rfl, ?_⟩
      dsimp only
      rcases hepoch { st with fuel := fuel } with h | h
      · rw [h]
        exact Or.inl rfl
      · rw [h]
        exact Or.inr ⟨e', _, he', Or.inr rfl, rfl⟩
  · rw [if_neg hmetered]
    refine ⟨st, rfl, ?_⟩
    rcases hepoch st with h | h
    · rw [h]
      exact Or.inl rfl
    · rw [h]
      exact Or.inr ⟨e', _, he', Or.inr rfl, rfl⟩

/-- A turn is one of the engine without gates, or a gate has ended it. -/
theorem turn_ungated (st : StoreState σ) (φ : ClockMap) {e : Execution} (hframes : e.frames ≠ [])
    (r : Regs) (stopDepth k i : ℕ) (hfuel : I.Fueled st r) :
    AlikeTurned false (φ.frozen st) i (I.turn st e r stopDepth k)
      (I.ungated.turn (st.clocked φ) (e.withIp i) r stopDepth k) ∨
      Gated φ st e r k (I.turn st e r stopDepth k) := by
  unfold turn
  rw [e.doReturn_withIp]
  cases hop : r.code.ops[r.ip]? with
  | none =>
    left
    dsimp only
    split
    · exact ⟨.failed (φ.frozen st) i st e k _, rfl⟩
    · exact ⟨.same (φ.frozen st) i st _, rfl⟩
    · exact ⟨.same (φ.frozen st) i st _, rfl⟩
  | some op =>
    have hpasses : I.ungated.serviceGates (st.clocked φ) (e.withIp i) r.ip =
        (st.clocked φ, e.withIp i, .ok none) := rfl
    obtain ⟨st', hst', hgates | ⟨e', o, he', ho, hgates⟩⟩ :=
      I.serviceGates_cases st φ hframes r.ip fun hmetered => hfuel hmetered (by rw [hop]; rfl)
    · left
      dsimp only
      rw [hgates, hpasses, ← hst']
      exact I.execute_clocked false false (φ.frozen st) st' e r stopDepth k i op
    · right
      dsimp only
      rw [hgates]
      exact ⟨st', e', o, _, rfl, ho, he', rfl, hst'⟩

/-! ## Corresponding states -/

/-- The driver's next turn is at `r`: it is in the loop, serves what a gate has left it with, or is
about to enter `run` again. -/
def Detours (d : Drive) (r : Regs) : Prop :=
  d.pc.Turns I.gcWatch r ∨ (d.exec.top = .ok r ∧
    (d.pc = .serve .fuelYield ∨ d.pc = .serve .epochDeadline ∨
      (d.pc = .run true ∧ I.Fits d.exec)))

/-- The states of a run and of the one without gates.  They are the same up to the clocks, the
count of guest calls once it may have drifted, and the resume point of the running frame, while its
driver is on its way to the loop, or has failed there; the callback that is asked stands between two
turns. -/
inductive Ungated (drift : Bool) : State σ → State σ → Prop where
  | same {s t : State σ} {φ : ClockMap} (h : (s.clocked φ).Agrees drift I.gcWatch false t) :
      Ungated drift s t
  | near {st : StoreState σ} {φ : ClockMap} {slot : Execution} {d : Drive} {ds ds' : List Drive}
      {k i : ℕ} {q : Pc} {r : Regs} (hds : List.Forall₂ (Drive.Agrees drift I.gcWatch false) ds ds')
      (hd : I.Detours d r) (hq : q.Turns I.gcWatch r) (hk : d.InStep drift r k q) :
      Ungated drift ⟨st, slot, d :: ds, true⟩
        ⟨st.clocked φ, slot,
          { d with exec := d.exec.withIp i, countdown := k, pc := q } :: ds', true⟩
  | asked {st : StoreState σ} {φ : ClockMap} {slot : Execution} {d : Drive} {ds ds' : List Drive}
      {k i : ℕ} {q : Pc} {r : Regs} {scope : Parked}
      (hds : List.Forall₂ (Drive.Agrees drift I.gcWatch false) ds ds')
      (hd : d.pc = .epochCallback scope) (htop : slot.top = .ok r) (hq : q.Turns I.gcWatch r)
      (hk : d.InStep drift r k q) :
      Ungated drift ⟨st, slot, d :: ds, false⟩
        ⟨(st.truncateRoots scope.rootsMark).clocked φ, d.exec,
          { d with exec := slot.withIp i, countdown := k, pc := q } :: ds', true⟩
  | failed {st : StoreState σ} {φ : ClockMap} {slot : Execution} {d : Drive} {ds ds' : List Drive}
      {k i : ℕ} {err : ExecError} (hds : List.Forall₂ (Drive.Agrees drift I.gcWatch false) ds ds')
      (hd : d.pc = .done (.error err)) :
      Ungated drift ⟨st, slot, d :: ds, true⟩
        ⟨st.clocked φ, slot, { d with exec := d.exec.withIp i, countdown := k } :: ds', true⟩

/-- The conditions on a step: the callback does nothing but continue, with stacks below the limit;
a fuel yield is served by an async driver, with stacks below the limit as well; and in the loop the
fuel is not found exhausted and, once `run` has been entered again, no pressure request of a store
over the floor is pending. -/
def Undisturbed (c : Choice σ) (w : State σ × Bool) : Prop :=
  match w.1.guest, w.1.drives with
  | true, d :: _ =>
    match c, d.pc with
    | .go, .serve .fuelYield => d.isAsync = true ∧ I.Fits d.exec
    | .go, .loop r => (w.2 = true → I.Unpressed w.1.store) ∧ I.Fueled w.1.store r
    | .go, .poll _ => w.2 = true → I.Unpressed w.1.store
    | _, _ => True
  | false, d :: _ =>
    match d.pc with
    | .epochCallback _ =>
      match c with
      | .deadline (.ok (.continue_ _)) => w.1.store.internalError = none ∧ I.Fits w.1.slot
      | .deadline (.ok (.yield _)) =>
        d.isAsync = true ∧ w.1.store.internalError = none ∧ I.Fits w.1.slot
      | .deadline _ | .call _ _ _ _ _ _ | .hostOp _ | .panic => False
      | _ => True
    | _ => True
  | _, [] => True

/-- The run without gates follows a step, at the same decision and with the same op; the counts may
drift where `run` is entered again. -/
def Follows (drift : Bool) (c : Choice σ) (s t : State σ) : Prop :=
  ∃ cs, I.Ungated (reenters c s || drift) (I.machine c s).1 (run I.ungated.machine cs t) ∧
    cs.flatMap Choice.besideAnswers = c.besideAnswers ∧
    (marks I.ungated.machine cs t).flatMap Mark.executed = (I.machine c s).2.executed

variable {I} {d : Drive} {ds ds' : List Drive} {drift : Bool}

variable {φ : ClockMap} {slot entry : Execution} {inner : List Frame}

theorem Ungated.of_beside {s t : State σ} (h : I.Beside φ drift s t) : I.Ungated drift s t := by
  cases h with
  | same h => exact .same h
  | loop hds hd hq hk => exact .near hds (Or.inl (Or.inl hd)) hq hk
  | failed hds hd => exact .failed hds hd

/-- Counts that are the same may drift. -/
theorem Ungated.or_drifts {s t : State σ} (h : I.Ungated drift s t) (b : Bool) :
    I.Ungated (b || drift) s t := by
  cases h with
  | @same _ _ φ h => exact .same (φ := φ) (h.or_drifts b)
  | near hds hd hq hk => exact .near (forall₂_or_drifts hds b) hd hq (hk.drifts b)
  | asked hds hd htop hq hk => exact .asked (forall₂_or_drifts hds b) hd htop hq (hk.drifts b)
  | failed hds hd => exact .failed (forall₂_or_drifts hds b) hd

theorem follows_same {c : Choice σ} {s t : State σ}
    (h : I.Ungated drift (I.machine c s).1 (I.ungated.machine c t).1)
    (hm : (I.ungated.machine c t).2.executed = (I.machine c s).2.executed) :
    I.Follows drift c s t :=
  ⟨[c], h.or_drifts _, List.append_nil _, (List.append_nil _).trans hm⟩

/-- The run without gates waits where it is. -/
theorem follows_wait {c : Choice σ} {s t : State σ}
    (h : I.Ungated (reenters c s || drift) (I.machine c s).1 t) (hc : c.besideAnswers = [])
    (hm : (I.machine c s).2.executed = []) : I.Follows drift c s t :=
  ⟨[], h, hc.symm, hm.symm⟩

/-- A step of a driver on its way to a turn. -/
theorem near_follows {st : StoreState σ} {k i : ℕ} {q : Pc} {r : Regs}
    (hds : List.Forall₂ (Drive.Agrees drift I.gcWatch false) ds ds')
    (hb : d.boundary = boundaryOf entry) (hin : Inside entry inner d.exec)
    (hfits : d.pc.Fits inner) (hd : I.Detours d r) (hq : q.Turns I.gcWatch r)
    (hk : d.InStep drift r k q) (hsafe : I.Undisturbed .go (⟨st, slot, d :: ds, true⟩, drift)) :
    I.Follows drift .go ⟨st, slot, d :: ds, true⟩ ⟨st.clocked φ, slot,
      { d with exec := d.exec.withIp i, countdown := k, pc := q } :: ds', true⟩ := by
  obtain ⟨boundary, resultTys, scope, exec, countdown, pc⟩ := d
  let s : State σ := ⟨st, slot, ⟨boundary, resultTys, scope, exec, countdown, pc⟩ :: ds, true⟩
  -- On the way only the clocks are read in another way.
  have hwait : ∀ (st' : StoreState σ) (exec' : Execution) (countdown' : ℕ) (pc' : Pc) (m : Mark),
      st'.clocked (φ.frozen st) = st.clocked φ → exec'.withIp i = exec.withIp i → m.ran = none →
      I.Detours ⟨boundary, resultTys, scope, exec', countdown', pc'⟩ r →
      Drive.InStep (reenters .go s || drift)
        ⟨boundary, resultTys, scope, exec', countdown', pc'⟩ r k q →
      I.machine .go ⟨st, slot, ⟨boundary, resultTys, scope, exec, countdown, pc⟩ :: ds, true⟩ =
        (⟨st', slot, ⟨boundary, resultTys, scope, exec', countdown', pc'⟩ :: ds, true⟩, m) →
      I.Follows drift .go ⟨st, slot, ⟨boundary, resultTys, scope, exec, countdown, pc⟩ :: ds, true⟩
        ⟨st.clocked φ, slot, ⟨boundary, resultTys, scope, exec.withIp i, k, q⟩ :: ds', true⟩ := by
    intro st' exec' countdown' pc' m hst hexec hm hdetours hcount hstep
    have hungated : I.Ungated (reenters .go s || drift)
        ⟨st', slot, ⟨boundary, resultTys, scope, exec', countdown', pc'⟩ :: ds, true⟩
        ⟨st'.clocked (φ.frozen st), slot,
          ⟨boundary, resultTys, scope, exec'.withIp i, k, q⟩ :: ds', true⟩ :=
      .near (forall₂_or_drifts hds _) hdetours hq hcount
    rw [hst, hexec] at hungated
    refine follows_wait ?_ rfl ?_
    · rw [hstep]
      exact hungated
    · rw [hstep]
      unfold Mark.executed
      rw [hm]
      rfl
  rcases hd with (rfl | ⟨hwatch, rfl⟩) | ⟨htop, rfl | rfl | ⟨rfl, hroom⟩⟩
  · have hregs : RegsOf inner r := hfits
    obtain ⟨hpressure, hfuel⟩ : (drift = true → I.Unpressed st) ∧ I.Fueled st r := hsafe
    rcases I.turn_ungated st φ hin.frames_ne_nil r boundary.runStop countdown i hfuel with hturn |
      ⟨st', e', o, m, hgate, ho, he', hran, hst⟩
    · -- The turn is taken by both.
      obtain ⟨cs, hgo, hrun, hmarks⟩ := goes_to_loop (I := I.ungated)
        (d := ⟨boundary, resultTys, scope, exec.withIp i, k, q⟩) (st.clocked φ) slot ds' hq
        fun hne => hpressure (hk.drifted (Or.inl hne))
      obtain ⟨hbeside, hmark⟩ := I.turnStep_beside false false (φ.frozen st)
        (d := ⟨boundary, resultTys, scope, exec, countdown, .loop r⟩) slot hds
        (⟨boundary, resultTys, scope, exec, countdown, .loop r⟩ :: ds)
        (⟨boundary, resultTys, scope, exec.withIp i, k, .loop r⟩ :: ds') r (fun h => (hk h).1)
        (.loop r) hturn.1
      refine ⟨cs ++ [.go], ?_, ?_, ?_⟩
      · rw [run_append, hrun]
        exact .of_beside hbeside
      · rw [List.flatMap_append]
        refine List.append_eq_nil_iff.mpr ⟨List.flatMap_eq_nil_iff.mpr fun c hc => ?_, rfl⟩
        rw [hgo c hc]
        rfl
      · rw [marks_append, List.flatMap_append, executed_of_shown hmarks, hrun, List.nil_append]
        have hran := congrArg Mark.ran hturn.2
        have hmine := I.turnStep_mark ⟨st, slot, [], true⟩
          ⟨boundary, resultTys, scope, exec, countdown, .loop r⟩ ds r
        refine (List.append_nil _).trans (congrArg Option.toList ?_)
        exact ((congrArg Mark.ran hmark).trans hran).trans (congrArg Mark.ran hmine).symm
    · have hstep : I.machine .go
          ⟨st, slot, ⟨boundary, resultTys, scope, exec, countdown, .loop r⟩ :: ds, true⟩ =
          (⟨st', slot, ⟨boundary, resultTys, scope, e', countdown, .serve o⟩ :: ds, true⟩, m) := by
        change I.turnStep _ ⟨boundary, resultTys, scope, exec, countdown, .loop r⟩ ds r = _
        unfold turnStep
        dsimp only
        rw [hgate]
        rfl
      refine hwait st' e' countdown (.serve o) m hst (saveIp_eq_some he' i) hran
        (Or.inr ⟨top_of_saveIp hin hregs he', ?_⟩) (hk.moved e' nofun) hstep
      rcases ho with rfl | rfl
      · exact Or.inl rfl
      · exact Or.inr (Or.inl rfl)
  · refine hwait st exec countdown (.loop r) .silent rfl rfl rfl (Or.inl (Or.inl rfl))
      (hk.moved exec nofun) ?_
    change I.guestStep false _ ⟨boundary, resultTys, scope, exec, countdown, .poll r⟩ ds = _
    unfold guestStep
    dsimp only
    rw [serviceGcPressure_unpressed hwatch (hsafe (hk.drifted (Or.inr rfl)))]
    rfl
  · obtain ⟨hasync, hroom⟩ := hsafe
    refine hwait { st with fuel := st.fuel.refuelFromReserve } exec countdown (.run true) .silent
      rfl rfl rfl (Or.inr ⟨htop, Or.inr (Or.inr ⟨rfl, hroom⟩)⟩)
      (hk.moved exec nofun) ?_
    change I.guestStep false _ ⟨boundary, resultTys, scope, exec, countdown, .serve .fuelYield⟩ ds
      = _
    unfold guestStep serve
    dsimp only
    rw [if_pos hasync]
    rfl
  · -- The callback is asked.
    have hasked : I.Ungated drift
        ⟨st.park.2, exec, ⟨boundary, resultTys, scope, slot, countdown,
          .epochCallback st.park.1⟩ :: ds, false⟩
        ⟨(st.park.2.truncateRoots st.park.1.rootsMark).clocked φ, slot,
          ⟨boundary, resultTys, scope, exec.withIp i, k, q⟩ :: ds', true⟩ :=
      .asked hds rfl htop hq (hk.moved slot nofun)
    rw [st.truncateRoots_park] at hasked
    exact follows_wait hasked rfl rfl
  · refine hwait st exec gcCheckInterval (.loop r) .silent rfl rfl rfl (Or.inl (Or.inl rfl))
      (fun h => Bool.noConfusion h) ?_
    have hhead := runHead_resumed (I := I)
      (d := ⟨boundary, resultTys, scope, exec, countdown, .run true⟩) hb hin hfits hroom htop
    change I.guestStep false _ ⟨boundary, resultTys, scope, exec, countdown, .run true⟩ ds = _
    unfold guestStep
    dsimp only
    rw [hhead]
    rfl

/-- A failed call is closed alike. -/
theorem failed_follows {st : StoreState σ} {k i : ℕ} {err : ExecError}
    (hds : List.Forall₂ (Drive.Agrees drift I.gcWatch false) ds ds')
    (hb : d.boundary = boundaryOf entry) (hin : Inside entry inner d.exec)
    (hd : d.pc = .done (.error err)) :
    I.Follows drift .go ⟨st, slot, d :: ds, true⟩
      ⟨st.clocked φ, slot, { d with exec := d.exec.withIp i, countdown := k } :: ds', true⟩ := by
  obtain ⟨boundary, resultTys, scope, exec, countdown, pc⟩ := d
  dsimp only at hb hin hd
  subst hd
  have hagrees := I.finish_agrees
    (d := ⟨boundary, resultTys, scope, exec, countdown, .done (.error err)⟩) hds (st.clocked φ) slot
    (⟨boundary, resultTys, scope, exec, countdown, .done (.error err)⟩ :: ds)
    (⟨boundary, resultTys, scope, exec.withIp i, k, .done (.error err)⟩ :: ds') k
    (.done (.error err)) (.error err)
  rw [I.finish_clocked, ← I.finish_withIp
    (d := ⟨boundary, resultTys, scope, exec, k, .done (.error err)⟩) hb hin _ i] at hagrees
  exact follows_same (.same hagrees) rfl

/-- A driver outside the loop does the same to both, up to the clocks. -/
theorem guestStep_ungated (st : StoreState σ) (φ : ClockMap) (slot : Execution) (all : List Drive)
    (hloop : ∀ r, d.pc ≠ .loop r) (ds : List Drive) :
    ∃ ψ, I.ungated.guestStep false ⟨st.clocked φ, slot, all, true⟩ d ds =
      ((I.guestStep false ⟨st, slot, all, true⟩ d ds).1.clocked ψ,
        (I.guestStep false ⟨st, slot, all, true⟩ d ds).2) := by
  by_cases hyield : d.pc = .serve .fuelYield
  · obtain ⟨boundary, resultTys, scope, exec, countdown, pc⟩ := d
    dsimp only at hyield
    subst hyield
    cases scope with
    | none => exact ⟨φ, rfl⟩
    | some p =>
      exact ⟨⟨fun _ => (φ.fuel st.fuel).refuelFromReserve, φ.deadline⟩, rfl⟩
  · exact ⟨φ, I.guestStep_clocked false false φ false st slot all hloop hyield ds⟩

theorem applyEpochDeadline_ungated (s : State σ) (d : Drive) (ds : List Drive)
    (r : Except ExecError UpdateDeadline) (φ : ClockMap) :
    ∃ ψ, applyEpochDeadline false (s.clocked φ) d ds r =
      (applyEpochDeadline false s d ds r).clocked ψ := by
  obtain ⟨st, slot, all, guest⟩ := s
  obtain ⟨rest, fuel, epoch, deadline, pending, generation, internalError, roots, request⟩ := st
  unfold applyEpochDeadline State.clocked
  dsimp only [StoreState.clocked]
  cases d.pc with
  | epochCallback scope =>
    cases internalError with
    | some err => exact ⟨φ, rfl⟩
    | none =>
      cases r with
      | error err => exact ⟨φ, rfl⟩
      | ok answer =>
        cases answer with
        | interrupt => exact ⟨φ, rfl⟩
        | continue_ delta => exact ⟨⟨φ.fuel, id⟩, rfl⟩
        | yield delta =>
          dsimp only [StoreState.truncateRoots]
          cases d.isAsync with
          | true => exact ⟨⟨φ.fuel, id⟩, rfl⟩
          | false => exact ⟨φ, rfl⟩
  | run _ | loop _ | poll _ | serve _ | hostFn _ | hostFnAsync _ | limiter _ _ | done _ =>
    exact ⟨φ, rfl⟩

/-- What the embedder's code does to both is the same up to the clocks. -/
theorem hostStep_ungated (c : Choice σ) (s : State σ) (φ : ClockMap) :
    ∃ ψ, I.ungated.hostStep false c (s.clocked φ) = (I.hostStep false c s).clocked ψ := by
  rw [gated_hostStep]
  have hunclocked : Unclocked c →
      ∃ ψ, I.hostStep false c (s.clocked φ) = (I.hostStep false c s).clocked ψ :=
    fun hc => ⟨φ, I.hostStep_clocked φ false hc s⟩
  obtain ⟨st, slot, all, guest⟩ := s
  cases c with
  | call _ _ _ _ _ _ | ret _ | grown _ _ | panic => exact hunclocked trivial
  | setFuel n => exact ⟨⟨fun _ => (φ.fuel st.fuel).setFuel n.toNat, φ.deadline⟩, rfl⟩
  | setFuelYieldInterval n =>
    exact ⟨⟨fun _ => (φ.fuel st.fuel).setFuelYieldInterval (n.map BitVec.toNat), φ.deadline⟩, rfl⟩
  | hostOp st' => exact ⟨⟨φ.fuel, id⟩, rfl⟩
  | go | tick | post =>
    cases all with
    | nil => exact ⟨φ, rfl⟩
    | cons d ds => exact ⟨φ, rfl⟩
  | deadline r =>
    cases all with
    | nil => exact ⟨φ, rfl⟩
    | cons d ds => exact applyEpochDeadline_ungated _ d ds r φ

/-- Both drivers are at the same place. -/
theorem same_follows {st : StoreState σ}
    (hds : List.Forall₂ (Drive.Agrees drift I.gcWatch false) ds ds')
    (hb : d.boundary = boundaryOf entry) (hin : Inside entry inner d.exec)
    (hfits : d.pc.Fits inner) {k : ℕ} (hk : drift = false → k = d.countdown) {q : Pc}
    (hpc : d.pc.Agrees drift I.gcWatch false d.exec q)
    (hsafe : I.Undisturbed .go (⟨st, slot, d :: ds, true⟩, drift)) :
    I.Follows drift .go ⟨st, slot, d :: ds, true⟩
      ⟨st.clocked φ, slot, { d with countdown := k, pc := q } :: ds', true⟩ := by
  have hturns : ∀ r, d.pc.Turns I.gcWatch r → q.Turns I.gcWatch r → d.InStep drift r k q →
      I.Follows drift .go ⟨st, slot, d :: ds, true⟩
        ⟨st.clocked φ, slot, { d with countdown := k, pc := q } :: ds', true⟩ := by
    intro r hp hq hstep
    obtain ⟨j, hj⟩ := d.exec.exists_withIp
    have hnear := near_follows (i := j) (φ := φ) hds hb hin hfits (Or.inl hp) hq hstep hsafe
    rw [hj] at hnear
    exact hnear
  rcases hpc with rfl | ⟨r, ⟨rfl, hp⟩ | ⟨hinline, -⟩, hq⟩
  · by_cases hloop : ∃ r, d.pc = .loop r
    · obtain ⟨r, hr⟩ := hloop
      refine hturns r (Or.inl hr) (Or.inl hr) fun h => ⟨hk h, hr, ?_⟩
      rw [hr]
      exact nofun
    · obtain ⟨ψ, hcommutes⟩ := guestStep_ungated (I := I) st φ slot (d :: ds)
        (fun r hr => hloop ⟨r, hr⟩) ds
      obtain ⟨hagrees, hmark⟩ := guestStep_same (I := I.ungated) (d := d) (st.clocked φ) slot hds
        hin hfits (d :: ds) ({ d with countdown := k } :: ds') hk
      rw [hcommutes] at hagrees hmark
      exact follows_same (c := .go) (.same (hagrees rfl rfl)) (congrArg Mark.executed hmark.symm)
  · exact hturns r hp hq fun h => Bool.noConfusion h
  · exact Bool.noConfusion hinline

/-- The embedder's code has control of both. -/
theorem host_follows (c : Choice σ) {st : StoreState σ} (h : LayeredOn .empty ds slot)
    (hds : List.Forall₂ (Drive.Agrees drift I.gcWatch false) ds ds') :
    I.Follows drift c ⟨st, slot, ds, false⟩ ⟨st.clocked φ, slot, ds', false⟩ := by
  have hhost : ∀ c, I.machine c ⟨st, slot, ds, false⟩ = (I.hostStep false c ⟨st, slot, ds, false⟩,
      .silent) → I.ungated.machine c ⟨st.clocked φ, slot, ds', false⟩ =
        (I.ungated.hostStep false c ⟨st.clocked φ, slot, ds', false⟩, .silent) →
      I.Follows drift c ⟨st, slot, ds, false⟩ ⟨st.clocked φ, slot, ds', false⟩ := by
    intro c hs ht
    obtain ⟨ψ, hcommutes⟩ := hostStep_ungated (I := I) c ⟨st, slot, ds, false⟩ φ
    have hagrees := hostStep_agrees (I := I.ungated) c (st.clocked φ) slot h hds
    refine follows_same ?_ ?_
    · rw [hs, ht]
      refine .same (φ := ψ) ?_
      rw [← hcommutes]
      exact hagrees
    · rw [hs, ht]
  cases c with
  | go => exact follows_same (.same ⟨ds', rfl, hds⟩) rfl
  | tick | post => exact follows_same (.same (φ := φ) ⟨ds', rfl, hds⟩) rfl
  | call _ _ _ _ _ _ | setFuel _ | setFuelYieldInterval _ | hostOp _ | ret _ | grown _ _
  | deadline _ | panic => exact hhost _ rfl rfl

/-- What is no turn of the guest does the same to both. -/
theorem guest_follows {c : Choice σ} {s t : State σ} (hgo : c ≠ .go) (hs : s.guest = true)
    (ht : t.guest = true)
    (h : ∀ f : StoreState σ → StoreState σ, (∀ st φ, (f st).clocked φ = f (st.clocked φ)) →
      I.Ungated drift { s with store := f s.store } { t with store := f t.store }) :
    I.Follows drift c s t := by
  have hsame : I.Ungated drift s t := h id fun _ _ => rfl
  have hstay : c.IsHosts → I.Follows drift c s t := by
    intro hc
    refine follows_same ?_ ?_
    · rw [machine_guest hc hs, machine_guest hc ht]
      exact hsame
    · rw [machine_guest hc hs, machine_guest hc ht]
  cases c with
  | go => exact absurd rfl hgo
  | tick =>
    exact follows_same
      (h (fun st => { st with epoch := (st.epoch + 1) % 2 ^ 64 }) fun _ _ => rfl) rfl
  | post => exact follows_same (h (fun st => { st with gcRequest := true }) fun _ _ => rfl) rfl
  | setFuelYieldInterval _ | call _ _ _ _ _ _ | setFuel _ | hostOp _ | ret _ | grown _ _
  | deadline _ | panic => exact hstay trivial

/-- While the callback is asked, the run without gates waits for its answer. -/
theorem asked_follows (c : Choice σ) {st : StoreState σ} {k i : ℕ} {q : Pc} {r : Regs}
    {scope : Parked} (hds : List.Forall₂ (Drive.Agrees drift I.gcWatch false) ds ds')
    (hd : d.pc = .epochCallback scope) (htop : slot.top = .ok r) (hq : q.Turns I.gcWatch r)
    (hk : d.InStep drift r k q) (hsafe : I.Undisturbed c (⟨st, slot, d :: ds, false⟩, drift)) :
    I.Follows drift c ⟨st, slot, d :: ds, false⟩
      ⟨(st.truncateRoots scope.rootsMark).clocked φ, d.exec,
        { d with exec := slot.withIp i, countdown := k, pc := q } :: ds', true⟩ := by
  obtain ⟨boundary, resultTys, scope', exec, countdown, pc⟩ := d
  dsimp only at hd
  subst hd
  -- The callback stays asked, whatever the clocks read meanwhile.
  have hasked : ∀ (st' : StoreState σ) (ψ : ClockMap),
      I.Ungated drift ⟨st', slot,
        ⟨boundary, resultTys, scope', exec, countdown, .epochCallback scope⟩ :: ds, false⟩
      ⟨(st'.truncateRoots scope.rootsMark).clocked ψ, exec,
        ⟨boundary, resultTys, scope', slot.withIp i, k, q⟩ :: ds', true⟩ :=
    fun st' ψ => .asked hds rfl htop hq hk
  have hanswered : ∀ delta, I.Fits slot → I.Ungated drift
      ⟨extendEpochDeadline (st.truncateRoots scope.rootsMark) delta, exec,
        ⟨boundary, resultTys, scope', slot, countdown, .run true⟩ :: ds, true⟩
      ⟨(st.truncateRoots scope.rootsMark).clocked φ, exec,
        ⟨boundary, resultTys, scope', slot.withIp i, k, q⟩ :: ds', true⟩ :=
    fun delta hroom => .near (φ := φ.frozen st) hds
      (Or.inr ⟨htop, Or.inr (Or.inr ⟨rfl, hroom⟩)⟩) hq (hk.moved slot nofun)
  have hcontinues : ∀ (delta : ℕ) (answer : UpdateDeadline),
      (answer = .continue_ delta ∨ (answer = .yield delta ∧ scope'.isSome = true)) →
      st.internalError = none →
      I.machine (.deadline (.ok answer)) ⟨st, slot,
        ⟨boundary, resultTys, scope', exec, countdown, .epochCallback scope⟩ :: ds, false⟩ =
        (⟨extendEpochDeadline (st.truncateRoots scope.rootsMark) delta, exec,
          ⟨boundary, resultTys, scope', slot, countdown, .run true⟩ :: ds, true⟩, .silent) := by
    intro delta answer hanswer herror
    change (applyEpochDeadline false _ ⟨boundary, resultTys, scope', exec, countdown,
      .epochCallback scope⟩ ds _, Mark.silent) = _
    have herror' : (st.truncateRoots scope.rootsMark).internalError = none := herror
    unfold applyEpochDeadline
    dsimp only
    rw [herror']
    rcases hanswer with rfl | ⟨rfl, hasync⟩
    · rfl
    · have hdriver : (⟨boundary, resultTys, scope', exec, countdown, .epochCallback scope⟩ :
          Drive).isAsync = true := hasync
      dsimp only
      rw [if_pos hdriver]
      rfl
  cases c with
  | go => exact follows_wait (hasked st φ) rfl rfl
  | tick => exact follows_same (hasked _ φ) rfl
  | post => exact follows_same (hasked _ φ) rfl
  | setFuel _ | setFuelYieldInterval _ => exact follows_same (hasked _ (φ.frozen st)) rfl
  | ret _ | grown _ _ => exact follows_same (hasked st φ) rfl
  | call _ _ _ _ _ _ | hostOp _ | panic => exact hsafe.elim
  | deadline answer =>
    cases answer with
    | error err => exact hsafe.elim
    | ok answer =>
      cases answer with
      | interrupt => exact hsafe.elim
      | continue_ delta =>
        obtain ⟨herror, hroom⟩ := hsafe
        have hstep := hcontinues delta (.continue_ delta) (Or.inl rfl) herror
        refine follows_wait ?_ rfl ?_
        · rw [hstep]
          exact hanswered delta hroom
        · rw [hstep]
          rfl
      | yield delta =>
        obtain ⟨hasync, herror, hroom⟩ := hsafe
        have hstep := hcontinues delta (.yield delta) (Or.inr ⟨rfl, hasync⟩) herror
        refine follows_wait ?_ rfl ?_
        · rw [hstep]
          exact hanswered delta hroom
        · rw [hstep]
          rfl

/-- **A step** is followed by the run without gates. -/
theorem step_follows (c : Choice σ) {s t : State σ} (hs : Above .empty [] s)
    (h : I.Ungated drift s t) (hsafe : I.Undisturbed c (s, drift)) : I.Follows drift c s t := by
  cases h with
  | @near st φ slot d ds ds' k i q r hds hd hq hk =>
    by_cases hgo : c = .go
    · subst hgo
      obtain ⟨entry, inner, hb, hin, hfits⟩ := running_layer hs
      exact near_follows hds hb hin hfits hd hq hk hsafe
    · refine guest_follows hgo rfl rfl fun f hf => ?_
      dsimp only
      rw [← hf]
      exact .near hds hd hq hk
  | asked hds hd htop hq hk => exact asked_follows c hds hd htop hq hk hsafe
  | @failed st φ slot d ds ds' k i err hds hd =>
    by_cases hgo : c = .go
    · subst hgo
      obtain ⟨entry, inner, hb, hin, -⟩ := running_layer hs
      exact failed_follows hds hb hin hd
    · refine guest_follows hgo rfl rfl fun f hf => ?_
      dsimp only
      rw [← hf]
      exact .failed hds hd
  | @same _ _ φ h =>
    obtain ⟨st, slot, all, guest⟩ := s
    obtain ⟨all', rfl, hall⟩ := h
    dsimp only [State.clocked] at hall
    cases guest with
    | true =>
      by_cases hgo : c = .go
      · subst hgo
        cases hall with
        | nil => exact follows_same (.same (φ := φ) (.refl _)) rfl
        | @cons d d' ds ds' hd hds =>
          obtain ⟨entry, inner, hb, hin, hfits⟩ := running_layer hs
          obtain ⟨k, q, rfl, hk, hpc⟩ := hd
          exact same_follows hds hb hin hfits hk hpc hsafe
      · refine guest_follows hgo rfl rfl fun f hf => .same (φ := φ) ⟨all', ?_, hall⟩
        dsimp only [State.clocked]
        rw [hf]
    | false => exact host_follows c (parked_layers hs) hall

variable (I)

/-- The run executes what it executes without gates: with the same decisions but for the answers of
the epoch callback, the engine without gates executes the same ops and reaches the corresponding
state. -/
def ExecutesAsUngated (cs : List (Choice σ)) (s : State σ) : Prop :=
  ∃ cs', cs'.flatMap Choice.besideAnswers = cs.flatMap Choice.besideAnswers ∧
    I.Ungated true (run I.machine cs s) (run I.ungated.machine cs' s) ∧
    (marks I.ungated.machine cs' s).flatMap Mark.executed =
      (marks I.machine cs s).flatMap Mark.executed

/-- **Epoch progress.**  In every run in which each answer of the callback leaves the deadline
ahead of the epoch, the op an answer lets go on is executed before the callback is asked again,
unless the epoch moves on or the call ends; and a run whose callback always continues executes the
ops it executes without a deadline. -/
theorem epoch_progress (cs : List (Choice σ)) (st : StoreState σ) :
    (Along I.noted (fun c w => Rearms c w.1) cs (State.idle st, .nothing) →
      Along I.noted I.Progresses cs (State.idle st, .nothing)) ∧
    (Along I.reentering I.Undisturbed cs (State.idle st, false) →
      I.ExecutesAsUngated cs (State.idle st)) := by
  refine ⟨I.deadlines_progress cs st, fun hsafe => ?_⟩
  have hstart : Above .empty [] (State.idle st) := Above.reachable I false [] st
  have hsame : I.Ungated false (State.idle st) (State.idle st) := .same (φ := ⟨id, id⟩) (.refl _)
  obtain ⟨cs', ⟨-, hungated⟩, hdecisions, hexecuted⟩ := simulated
    (R := fun w t => Above .empty [] w.1 ∧ I.Ungated w.2 w.1 t)
    (fun c w t hR hc => by
      obtain ⟨ds, hungated, hdecision, hmark⟩ := step_follows c hR.1 hR.2 hc
      exact ⟨ds, ⟨hR.1.step I (fun _ => rfl) false c (Or.inl rfl), hungated⟩, hdecision, hmark⟩)
    ⟨hstart, hsame⟩ hsafe
  have hdrifted := hungated.or_drifts true
  rw [reentering, run_noting] at hdrifted
  rw [reentering, marks_noting] at hexecuted
  exact ⟨cs', hdecisions, hdrifted, hexecuted⟩

/-- A call of one op, in front of which the callback is asked and answers with `delta`. -/
def answeredRun (delta : ℕ) : List (Choice Unit) :=
  [.call 0 0 (.ofOps [.plain .nop]) [] [] false, .go, .go, .go,
    .deadline (.ok (.continue_ delta)), .go, .go, .go, .go]

/-- A store whose deadline has come. -/
def dueStore : StoreState Unit := { StoreState.new () with epochDeadline := 0 }

/-- The callback leaves the deadline one tick ahead. -/
theorem epoch_progress_continue :
    Along (idle 1000 false true).noted (idle 1000 false true).Progresses (answeredRun 1)
      (State.idle dueStore, .nothing) ∧
    (idle 1000 false true).ExecutesAsUngated (answeredRun 1) (State.idle dueStore) :=
  ⟨(epoch_progress (idle 1000 false true) (answeredRun 1) dueStore).1
      ⟨trivial, trivial, trivial, trivial, show 0 < min (0 + 1) u64Max by decide, trivial, trivial,
        trivial, trivial, trivial⟩,
    (epoch_progress (idle 1000 false true) (answeredRun 1) dueStore).2
      ⟨trivial, trivial, ⟨fun h => Bool.noConfusion h, fun h => Bool.noConfusion h⟩, trivial,
        ⟨rfl, _, rfl, by decide⟩, trivial,
        ⟨fun _ h => Bool.noConfusion h, fun h => Bool.noConfusion h⟩,
        ⟨fun _ h => Bool.noConfusion h, fun h => Bool.noConfusion h⟩, trivial, trivial⟩⟩

/-- After an answer that does not move the deadline the callback is asked again at the same op. -/
theorem not_progresses_continue_zero :
    ¬ Along (idle 1000 false true).noted (idle 1000 false true).Progresses (answeredRun 0)
      (State.idle dueStore, .nothing) := by
  rintro ⟨-, -, -, -, -, -, -, -, ⟨hasked, -⟩, -⟩
  exact absurd hasked (by decide)

end Interp

end SubmilliWasm
