/-
# Slices of fuel

With a yield interval a store keeps all but one slice of its fuel in a reserve, and an async
driver moves the next slice over whenever the active one is used up.  The run of such a store is
compared with the run of the same machine on the undivided fuel: a yield saves the resume point of
the top frame, leaves the loop and enters `run` again, and changes nothing else.
-/
import SubmilliWasm.Exec.Clocks

namespace SubmilliWasm

open Runs

variable {σ : Type}

/-! ## The undivided fuel -/

namespace Fuel

/-- The same fuel, all of it active. -/
def undivided (f : Fuel) : Fuel := zero.setFuel f.total

theorem undivided_eq (f : Fuel) : f.undivided = ⟨f.total, 0, none⟩ := by
  unfold undivided setFuel zero
  simp

theorem undivided_setFuel (f : Fuel) (n : ℕ) : (f.setFuel n).undivided = f.undivided.setFuel n := by
  rw [undivided, total_setFuel, undivided_eq]
  rfl

theorem undivided_setFuelYieldInterval (f : Fuel) (i : Option ℕ) :
    (f.setFuelYieldInterval i).undivided = f.undivided := by
  rw [undivided, undivided, total_setFuelYieldInterval]

theorem undivided_refuelFromReserve (f : Fuel) : f.refuelFromReserve.undivided = f.undivided := by
  rw [undivided, undivided, total_refuelFromReserve]

/-- There is nothing in the reserve to be moved. -/
theorem refuelFromReserve_undivided (f : Fuel) : f.undivided.refuelFromReserve = f.undivided := by
  rw [undivided_eq]
  rfl

/-- A charge of the divided fuel that is not put off by a yield is a charge of the undivided. -/
theorem consumeFuelStep_undivided (f : Fuel) (hf : f.consumeFuelStep.1 ≠ .needYield) :
    f.undivided.consumeFuelStep = (f.consumeFuelStep.1, f.consumeFuelStep.2.undivided) := by
  rw [undivided_eq]
  rcases consumeFuelStep_cases f with ⟨f', h, htotal, -⟩ | ⟨h, -⟩ | ⟨h, htotal⟩
  · rw [h, undivided_eq]
    unfold consumeFuelStep
    dsimp only
    rw [if_pos (by omega), htotal, Nat.add_sub_cancel]
  · rw [h] at hf
    exact absurd rfl hf
  · rw [h, undivided_eq, htotal]
    rfl

end Fuel

namespace StoreState

/-- The store with its fuel undivided. -/
def undivided (st : StoreState σ) : StoreState σ := { st with fuel := st.fuel.undivided }

end StoreState

/-- The state of the run with the undivided fuel. -/
def State.undivided (s : State σ) : State σ := { s with store := s.store.undivided }
/-- The decisions of the embedder's code, but for how the fuel is divided. -/
def Choice.undividedDecision : Choice σ → List (Choice σ)
  | .go | .setFuelYieldInterval _ => []
  | c => [c]

/-- The acts of the embedder's code. -/
def Choice.IsHosts : Choice σ → Prop
  | .go | .tick | .post => False
  | _ => True

/-- The store's clocks with the fuel undivided. -/
def Fuel.slicesAside : ClockMap := ⟨Fuel.undivided, id⟩

/-! ## A turn with the undivided fuel -/

namespace Interp

variable (I : Interp σ)

/-- What a turn of the undivided run has in common with one of the divided: the store up to the
split of its fuel, the count, the way on, and the execution up to an unsaved resume point. -/
def SameTurn (i : ℕ) (x x' : StoreState σ × Execution × ℕ × Next) : Prop :=
  x'.1 = x.1.undivided ∧ x'.2.2 = x.2.2 ∧
    (x'.2.1 = x.2.1 ∨ (x'.2.1 = x.2.1.withIp i ∧ x.2.2.2.Unsaved))

theorem SameTurn.failed (i : ℕ) (st : StoreState σ) (e : Execution) (k : ℕ) (err : ExecError) :
    SameTurn i (st, e, k, .leave (.error err)) (st.undivided, e.withIp i, k, .leave (.error err)) :=
  ⟨rfl, rfl, Or.inr ⟨rfl, Or.inr ⟨err, rfl⟩⟩⟩

theorem SameTurn.same (i : ℕ) (st : StoreState σ) (x : Execution × ℕ × Next) :
    SameTurn i (st, x) (st.undivided, x) := ⟨rfl, rfl, Or.inl rfl⟩
/-- A turn of the undivided run beside one of the divided. -/
def SameTurned (i : ℕ) (t t' : Turned σ) : Prop :=
  SameTurn i (t.st, t.exec, t.countdown, t.next) (t'.st, t'.exec, t'.countdown, t'.next) ∧
    t'.mark = t.mark

theorem execute_undivided (st : StoreState σ) (e : Execution) (r : Regs) (stopDepth k i : ℕ)
    (op : Op) :
    SameTurned i (I.execute st e r stopDepth k op)
      (I.execute st.undivided (e.withIp i) r stopDepth k op) := by
  obtain ⟨hturn, hmark⟩ := I.execute_clocked I.consumeFuel I.epochInterruption Fuel.slicesAside
    st e r stopDepth k i op
  refine ⟨hturn, hmark.trans ?_⟩
  rw [← I.execute_charged st e r stopDepth k op]

/-- The executions behind the gates: the same, or the resume point is not saved. -/
def SameGate (i : ℕ) (g g' : Execution × Except ExecError (Option RunOutcome)) : Prop :=
  g'.2 = g.2 ∧ ((g'.1 = g.1 ∧ ∃ o, g.2 = .ok (some o)) ∨
    (g'.1 = g.1.withIp i ∧ (g.2 = .ok none ∨ ∃ err, g.2 = .error err)))

theorem epochGate_undivided (st : StoreState σ) (e : Execution) (j i : ℕ) :
    SameGate i (I.epochGate st e j) (I.epochGate st.undivided (e.withIp i) j) := by
  have hreached : st.undivided.epochDeadlineReached = st.epochDeadlineReached := rfl
  unfold epochGate
  rw [e.saveIp_withIp, hreached]
  split
  · cases e.saveIp j with
    | none => exact ⟨rfl, Or.inr ⟨rfl, Or.inr ⟨_, rfl⟩⟩⟩
    | some e' => exact ⟨rfl, Or.inl ⟨rfl, _, rfl⟩⟩
  · exact ⟨rfl, Or.inr ⟨rfl, Or.inl rfl⟩⟩

variable {e slot entry : Execution} {inner : List Frame}

/-- The gates let the undivided run pass unless the divided one yields. -/
theorem serviceGates_undivided (st : StoreState σ) (hframes : e.frames ≠ []) (j i : ℕ) :
    (I.charges st.undivided = I.charges st ∧
      (I.serviceGates st.undivided (e.withIp i) j).1 = (I.serviceGates st e j).1.undivided ∧
      SameGate i (I.serviceGates st e j).2 (I.serviceGates st.undivided (e.withIp i) j).2) ∨
    ∃ e', e.saveIp j = some e' ∧ I.charges st = false ∧
      I.serviceGates st e j = (st, e', .ok (some .fuelYield)) := by
  by_cases hmetered : I.consumeFuel = true
  · by_cases hyield : st.fuel.consumeFuelStep.1 = .needYield
    · right
      obtain ⟨e', he'⟩ : ∃ e', e.saveIp j = some e' := by
        cases hf : e.frames with
        | nil => exact absurd hf hframes
        | cons f fs => exact ⟨_, by rw [Execution.saveIp, hf]⟩
      refine ⟨e', he', ?_, ?_⟩
      · simp [charges, hyield]
      · rcases hstep : st.fuel.consumeFuelStep with ⟨answer, fuel⟩
        obtain rfl : answer = .needYield := (congrArg Prod.fst hstep).symm.trans hyield
        unfold serviceGates
        rw [if_pos hmetered, hstep]
        dsimp only
        rw [he']
    · left
      have hundivided := Fuel.consumeFuelStep_undivided st.fuel hyield
      unfold charges serviceGates
      rw [if_pos hmetered, if_pos hmetered, show st.undivided.fuel = st.fuel.undivided from rfl,
        hundivided]
      rcases hstep : st.fuel.consumeFuelStep with ⟨answer, fuel⟩
      cases answer with
      | ran => exact ⟨rfl, rfl, I.epochGate_undivided { st with fuel := fuel } e j i⟩
      | exhausted => exact ⟨rfl, rfl, rfl, Or.inr ⟨rfl, Or.inr ⟨_, rfl⟩⟩⟩
      | needYield => exact absurd (congrArg Prod.fst hstep) hyield
  · left
    have hfree : ∀ st : StoreState σ, I.charges st = false := by
      intro st
      simp [charges, hmetered]
    refine ⟨by rw [hfree, hfree], ?_⟩
    unfold serviceGates
    rw [if_neg hmetered, if_neg hmetered]
    exact ⟨rfl, I.epochGate_undivided st e j i⟩

/-- A turn of the divided run is one of the undivided, or a yield. -/
theorem turn_undivided (st : StoreState σ) (hframes : e.frames ≠ []) (r : Regs)
    (stopDepth k i : ℕ) :
    SameTurned i (I.turn st e r stopDepth k) (I.turn st.undivided (e.withIp i) r stopDepth k) ∨
      ∃ e', e.saveIp r.ip = some e' ∧
        I.turn st e r stopDepth k = ⟨st, e', k, .leave (.ok .fuelYield), .silent⟩ := by
  unfold turn
  rw [e.doReturn_withIp]
  split
  · left
    split
    · exact ⟨.failed i st e k _, rfl⟩
    · exact ⟨.same i st _, rfl⟩
    · exact ⟨.same i st _, rfl⟩
  · rename_i op _
    rcases I.serviceGates_undivided st hframes r.ip i with ⟨hcharges, hst, hgate⟩ |
      ⟨e', he', hcharges, hgates⟩
    · left
      rw [hcharges]
      generalize I.serviceGates st e r.ip = g at *
      generalize I.serviceGates st.undivided (e.withIp i) r.ip = g' at *
      obtain ⟨st1, e1, result⟩ := g
      obtain ⟨st1', e1', result'⟩ := g'
      obtain ⟨hresult, hexec⟩ := hgate
      dsimp only at hst hresult hexec
      subst hst hresult
      rcases hexec with ⟨rfl, o, rfl⟩ | ⟨rfl, rfl | ⟨err, rfl⟩⟩
      · exact ⟨.same i st1 _, rfl⟩
      · exact I.execute_undivided st1 e1 r stopDepth k i op
      · exact ⟨.failed i st1 e1 k err, rfl⟩
    · right
      exact ⟨e', he', by rw [hgates]; simp [hcharges, Mark.silent]⟩

/-! ## What does not look at the fuel -/
theorem finish_undivided (st : StoreState σ) (slot : Execution) (all : List Drive) (d : Drive)
    (ds : List Drive) (outcome : Except ExecError Unit) :
    I.finish ⟨st.undivided, slot, all, true⟩ d ds outcome =
      (I.finish ⟨st, slot, all, true⟩ d ds outcome).undivided :=
  I.finish_clocked Fuel.slicesAside st slot all d ds outcome

theorem refuelFromReserve_undivided (st : StoreState σ) :
    ({ st.undivided with fuel := st.undivided.fuel.refuelFromReserve } : StoreState σ) =
      ({ st with fuel := st.fuel.refuelFromReserve } : StoreState σ).undivided := by
  unfold StoreState.undivided
  dsimp only
  rw [Fuel.refuelFromReserve_undivided, Fuel.undivided_refuelFromReserve]

/-- A driver outside the loop does not look at the fuel. -/
theorem guestStep_undivided (inline : Bool) (st : StoreState σ) (slot : Execution)
    (all : List Drive) {d : Drive} (hpc : ∀ r, d.pc ≠ .loop r) (ds : List Drive) :
    I.guestStep inline ⟨st.undivided, slot, all, true⟩ d ds =
      ((I.guestStep inline ⟨st, slot, all, true⟩ d ds).1.undivided,
        (I.guestStep inline ⟨st, slot, all, true⟩ d ds).2) := by
  by_cases hyield : d.pc = .serve .fuelYield
  · obtain ⟨boundary, resultTys, scope, exec, countdown, pc⟩ := d
    dsimp only at hyield
    subst hyield
    unfold guestStep serve
    dsimp only
    rw [refuelFromReserve_undivided]
    cases scope <;> rfl
  · exact I.guestStep_clocked I.consumeFuel I.epochInterruption Fuel.slicesAside inline st slot all
      hpc hyield ds

theorem applyEpochDeadline_undivided (inline : Bool) (s : State σ) (d : Drive) (ds : List Drive)
    (r : Except ExecError UpdateDeadline) :
    applyEpochDeadline inline s.undivided d ds r
      = (applyEpochDeadline inline s d ds r).undivided := by
  obtain ⟨st, slot, all, guest⟩ := s
  obtain ⟨rest, fuel, epoch, deadline, pending, generation, internalError, roots, request⟩ := st
  unfold applyEpochDeadline State.undivided
  dsimp only [StoreState.undivided]
  cases d.pc with
  | epochCallback scope =>
    cases internalError with
    | some err => rfl
    | none =>
      cases r with
      | error err => rfl
      | ok answer =>
        cases answer with
        | interrupt | continue_ delta => rfl
        | yield delta =>
          dsimp only [StoreState.truncateRoots]
          cases d.isAsync <;> rfl
  | run _ | loop _ | poll _ | serve _ | hostFn _ | hostFnAsync _ | limiter _ _ | done _ => rfl

/-- Apart from what it does to the fuel itself, the embedder's code does the same to both. -/
theorem hostStep_undivided (inline : Bool) (c : Choice σ) (s : State σ) :
    (I.hostStep inline c s).undivided = match c with
      | .setFuelYieldInterval _ => s.undivided
      | c => I.hostStep inline c s.undivided := by
  have hunclocked : ∀ c : Choice σ, Unclocked c →
      (I.hostStep inline c s).undivided = I.hostStep inline c s.undivided :=
    fun c hc => (I.hostStep_clocked Fuel.slicesAside inline hc s).symm
  cases c with
  | setFuel n =>
    unfold hostStep State.undivided StoreState.undivided
    dsimp only
    rw [Fuel.undivided_setFuel]
  | setFuelYieldInterval i =>
    unfold hostStep State.undivided StoreState.undivided
    dsimp only
    rw [Fuel.undivided_setFuelYieldInterval]
  | hostOp st' => rfl
  | go | tick | post =>
    obtain ⟨st, slot, all, guest⟩ := s
    cases all <;> rfl
  | call _ _ _ _ _ _ | ret _ | grown _ _ | panic => exact hunclocked _ trivial
  | deadline _ =>
    obtain ⟨st, slot, all, guest⟩ := s
    cases all with
    | nil => rfl
    | cons d ds => exact (applyEpochDeadline_undivided inline _ d ds _).symm

/-! ## Corresponding states -/

/-- The driver's next turn is at `r`: it is in the loop, serves a yield, or is about to enter `run`
again after one. -/
def Nears (d : Drive) (r : Regs) : Prop :=
  d.pc.Turns I.gcWatch r ∨
    (d.exec.top = .ok r ∧ (d.pc = .serve .fuelYield ∨ (d.pc = .run true ∧ I.Fits d.exec)))

/-- The states of a divided and of the undivided run.  They are the same up to the fuel's split,
the count of guest calls once it may have drifted, and the resume point of the running frame while
its driver is in the loop or has failed there. -/
inductive Slices (drift : Bool) : State σ → State σ → Prop where
  | same {s t : State σ} (h : s.undivided.Agrees drift I.gcWatch false t) : Slices drift s t
  | near {st : StoreState σ} {slot : Execution} {d : Drive} {ds ds' : List Drive} {k i : ℕ} {q : Pc}
      {r : Regs} (hds : List.Forall₂ (Drive.Agrees drift I.gcWatch false) ds ds')
      (hd : I.Nears d r) (hq : q.Turns I.gcWatch r)
      (hk : d.InStep drift r k q) :
      Slices drift ⟨st, slot, d :: ds, true⟩
        ⟨st.undivided, slot,
          { d with exec := d.exec.withIp i, countdown := k, pc := q } :: ds', true⟩
  | failed {st : StoreState σ} {slot : Execution} {d : Drive} {ds ds' : List Drive} {k i : ℕ}
      {err : ExecError} (hds : List.Forall₂ (Drive.Agrees drift I.gcWatch false) ds ds')
      (hd : d.pc = .done (.error err)) :
      Slices drift ⟨st, slot, d :: ds, true⟩
        ⟨st.undivided, slot, { d with exec := d.exec.withIp i, countdown := k } :: ds', true⟩

/-- The conditions on a step of the divided run: a yield is served by an async driver and leaves
the loop with stacks below the limit, and once `run` has been entered again, while a driver is in
the loop, no pressure request of a store over the floor is pending. -/
def SlicesSafely (c : Choice σ) (w : State σ × Bool) : Prop :=
  match c, w.1.guest, w.1.drives with
  | .go, true, d :: _ =>
    match d.pc with
    | .serve .fuelYield => d.isAsync = true ∧ I.Fits d.exec
    | .loop _ | .poll _ => w.2 = true → I.Unpressed w.1.store
    | _ => True
  | _, _, _ => True

variable {I} {d : Drive} {ds ds' : List Drive} {drift : Bool}

theorem Slices.of_beside {s t : State σ} (h : I.Beside Fuel.slicesAside drift s t) :
    I.Slices drift s t := by
  cases h with
  | same h => exact .same h
  | loop hds hd hq hk => exact .near hds (Or.inl (Or.inl hd)) hq hk
  | failed hds hd => exact .failed hds hd

/-- Counts that are the same may drift. -/
theorem Slices.or_drifts {s t : State σ} (h : I.Slices drift s t) (b : Bool) :
    I.Slices (b || drift) s t := by
  cases h with
  | same h => exact .same (h.or_drifts b)
  | near hds hd hq hk => exact .near (forall₂_or_drifts hds b) hd hq (hk.drifts b)
  | failed hds hd => exact .failed (forall₂_or_drifts hds b) hd

/-- The undivided run takes the turn of the divided. -/
theorem turnStep_slices {st : StoreState σ} (slot : Execution) {i : ℕ}
    (hds : List.Forall₂ (Drive.Agrees drift I.gcWatch false) ds ds') (all all' : List Drive)
    (r : Regs) {k : ℕ} (hk : drift = false → k = d.countdown) (q : Pc)
    (hturn : SameTurned i (I.turn st d.exec r d.boundary.runStop d.countdown)
      (I.turn st.undivided (d.exec.withIp i) r d.boundary.runStop d.countdown)) :
    let s' := I.turnStep ⟨st, slot, all, true⟩ d ds r
    let t' := I.turnStep ⟨st.undivided, slot, all', true⟩
      { d with exec := d.exec.withIp i, countdown := k, pc := q } ds' r
    I.Slices drift s'.1 t'.1 ∧ s'.2 = t'.2 := by
  obtain ⟨hbeside, hmark⟩ := I.turnStep_beside I.consumeFuel I.epochInterruption Fuel.slicesAside
    slot hds all all' r hk q hturn.1
  refine ⟨.of_beside hbeside, ?_⟩
  rw [turnStep_mark]
  exact (hmark.trans hturn.2).symm

theorem saveIp_eq_some {e' : Execution} {j : ℕ} (h : e.saveIp j = some e') (i : ℕ) :
    e'.withIp i = e.withIp i := by
  obtain ⟨values, shadow, frames, depth⟩ := e
  cases frames with
  | nil => nomatch h
  | cons f fs =>
    obtain rfl := Option.some.inj h
    rfl

/-- A saved resume point is the one the loop goes on at. -/
theorem top_of_saveIp {e' : Execution} {r : Regs} (hin : Inside entry inner e) (hr : RegsOf inner r)
    (h : e.saveIp r.ip = some e') : e'.top = .ok r := by
  obtain ⟨f, fs, rfl, hcode, hbase, hinst⟩ := hr
  obtain ⟨e'', he'', hsaved⟩ := hin.saveIp r.ip
  obtain rfl := Option.some.inj (h.symm.trans he'')
  rw [hsaved.top_cons]
  obtain ⟨code, ip, base, inst⟩ := r
  dsimp only at hcode hbase hinst ⊢
  rw [hcode, hbase, hinst]

/-- The undivided run goes to the turn at `r`, past a mailbox it finds nothing in. -/
theorem goes_to_loop (st : StoreState σ) (slot : Execution) (ds : List Drive) {r : Regs}
    (hd : d.pc.Turns I.gcWatch r) (hpressure : d.pc ≠ .loop r → I.Unpressed st) :
    ∃ cs : List (Choice σ), (∀ c ∈ cs, c = .go) ∧
      run I.machine cs ⟨st, slot, d :: ds, true⟩ =
        ⟨st, slot, { d with pc := .loop r } :: ds, true⟩ ∧
      (marks I.machine cs ⟨st, slot, d :: ds, true⟩).flatMap Mark.shown = [] := by
  obtain ⟨boundary, resultTys, scope, exec, countdown, pc⟩ := d
  rcases hd with rfl | ⟨hwatch, rfl⟩
  · exact ⟨[], fun c hc => absurd hc List.not_mem_nil, rfl, rfl⟩
  · have hpoll : I.machine .go ⟨st, slot,
        ⟨boundary, resultTys, scope, exec, countdown, .poll r⟩ :: ds, true⟩ =
        (⟨st, slot, ⟨boundary, resultTys, scope, exec, countdown, .loop r⟩ :: ds, true⟩,
          .silent) := by
      change I.guestStep false _ ⟨boundary, resultTys, scope, exec, countdown, .poll r⟩ ds = _
      unfold guestStep
      dsimp only
      rw [serviceGcPressure_unpressed hwatch (hpressure nofun)]
      rfl
    refine ⟨[.go], fun c hc => List.mem_singleton.mp hc, ?_, ?_⟩
    · rw [run_cons, hpoll]
      rfl
    · rw [marks_cons, hpoll]
      rfl

theorem decision_go {cs : List (Choice σ)} (h : ∀ c ∈ cs, c = .go) :
    cs.flatMap Choice.decision = [] :=
  List.flatMap_eq_nil_iff.mpr fun c hc => by rw [h c hc]; rfl

/-- A step of the divided run on the way to a turn. -/
theorem near_step {st : StoreState σ} {k i : ℕ} {q : Pc} {r : Regs}
    (hds : List.Forall₂ (Drive.Agrees drift I.gcWatch false) ds ds')
    (hb : d.boundary = boundaryOf entry) (hin : Inside entry inner d.exec)
    (hfits : d.pc.Fits inner) (hd : I.Nears d r) (hq : q.Turns I.gcWatch r)
    (hk : d.InStep drift r k q)
    (hsafe : I.SlicesSafely .go (⟨st, slot, d :: ds, true⟩, drift)) :
    let s : State σ := ⟨st, slot, d :: ds, true⟩
    let t : State σ := ⟨st.undivided, slot,
      { d with exec := d.exec.withIp i, countdown := k, pc := q } :: ds', true⟩
    let s' := I.guestStep false s d ds
    ∃ cs, I.Slices (reenters .go s || drift) s'.1 (run I.machine cs t) ∧
      cs.flatMap Choice.decision = [] ∧
      (marks I.machine cs t).flatMap Mark.shown = s'.2.shown := by
  intro s t s'
  obtain ⟨boundary, resultTys, scope, exec, countdown, pc⟩ := d
  -- The undivided run waits where it is.
  have hwait : ∀ (st' : StoreState σ) (exec' : Execution) (countdown' : ℕ) (pc' : Pc),
      st'.undivided = st.undivided → exec'.withIp i = exec.withIp i →
      I.Nears ⟨boundary, resultTys, scope, exec', countdown', pc'⟩ r →
      Drive.InStep (reenters .go s || drift)
        ⟨boundary, resultTys, scope, exec', countdown', pc'⟩ r k q →
      s' = (⟨st', slot, ⟨boundary, resultTys, scope, exec', countdown', pc'⟩ :: ds, true⟩,
        .silent) →
      ∃ cs, I.Slices (reenters .go s || drift) s'.1 (run I.machine cs t) ∧
        cs.flatMap Choice.decision = [] ∧
        (marks I.machine cs t).flatMap Mark.shown = s'.2.shown := by
    intro st' exec' countdown' pc' hst hexec hnear hcount hs'
    have hslices : I.Slices (reenters .go s || drift)
        ⟨st', slot, ⟨boundary, resultTys, scope, exec', countdown', pc'⟩ :: ds, true⟩
        ⟨st'.undivided, slot, ⟨boundary, resultTys, scope, exec'.withIp i, k, q⟩ :: ds', true⟩ :=
      .near (forall₂_or_drifts hds _) hnear hq hcount
    rw [hst, hexec] at hslices
    rw [hs']
    exact ⟨[], hslices, rfl, rfl⟩
  rcases hd with (rfl | ⟨hwatch, rfl⟩) | ⟨htop, rfl | ⟨rfl, hroom⟩⟩
  · have hregs : RegsOf inner r := hfits
    rcases I.turn_undivided st hin.frames_ne_nil r boundary.runStop countdown i with hturn |
      ⟨e', he', hyield⟩
    · -- The turn is taken by both.
      obtain ⟨cs, hgo, hrun, hmarks⟩ := goes_to_loop (I := I)
        (d := ⟨boundary, resultTys, scope, exec.withIp i, k, q⟩) st.undivided slot ds' hq
        fun hne => hsafe (hk.drifted (Or.inl hne))
      obtain ⟨hslices, hmark⟩ := turnStep_slices
        (d := ⟨boundary, resultTys, scope, exec, countdown, .loop r⟩) slot hds
        (⟨boundary, resultTys, scope, exec, countdown, .loop r⟩ :: ds)
        (⟨boundary, resultTys, scope, exec.withIp i, k, .loop r⟩ :: ds') r (fun h => (hk h).1)
        (.loop r) hturn
      refine ⟨cs ++ [.go], ?_, decision_go ?_, ?_⟩
      · rw [run_append, hrun]
        exact hslices
      · intro c hc
        rcases List.mem_append.mp hc with hc | hc
        · exact hgo c hc
        · exact List.mem_singleton.mp hc
      · rw [marks_append, List.flatMap_append, hmarks, hrun, List.nil_append]
        exact (List.append_nil _).trans (congrArg Mark.shown hmark).symm
    · refine hwait st e' countdown (.serve .fuelYield) rfl (saveIp_eq_some he' i)
        (Or.inr ⟨top_of_saveIp hin hregs he', Or.inl rfl⟩) (hk.moved e' nofun) ?_
      unfold s' guestStep turnStep
      dsimp only
      rw [hyield]
      rfl
  · refine hwait st exec countdown (.loop r) rfl rfl (Or.inl (Or.inl rfl))
      (hk.moved exec nofun) ?_
    unfold s' guestStep
    dsimp only
    rw [serviceGcPressure_unpressed hwatch (hsafe (hk.drifted (Or.inr rfl)))]
    rfl
  · obtain ⟨hasync, hroom⟩ := hsafe
    refine hwait { st with fuel := st.fuel.refuelFromReserve } exec countdown (.run true) ?_ rfl
      (Or.inr ⟨htop, Or.inr ⟨rfl, hroom⟩⟩) (hk.moved exec nofun) ?_
    · unfold StoreState.undivided
      dsimp only
      rw [Fuel.undivided_refuelFromReserve]
    · unfold s' guestStep serve
      dsimp only
      rw [if_pos hasync]
      rfl
  · refine hwait st exec gcCheckInterval (.loop r) rfl rfl (Or.inl (Or.inl rfl))
      (fun h => Bool.noConfusion h) ?_
    have hhead := runHead_resumed (I := I)
      (d := ⟨boundary, resultTys, scope, exec, countdown, .run true⟩) hb hin hfits hroom htop
    unfold s' guestStep
    dsimp only
    rw [hhead]
    rfl

/-- A failed call is closed alike: what its driver leaves behind is cut away. -/
theorem failed_step {st : StoreState σ} {k i : ℕ} {err : ExecError}
    (hds : List.Forall₂ (Drive.Agrees drift I.gcWatch false) ds ds')
    (hb : d.boundary = boundaryOf entry) (hin : Inside entry inner d.exec)
    (hd : d.pc = .done (.error err)) :
    let s' := I.guestStep false ⟨st, slot, d :: ds, true⟩ d ds
    let t : State σ := ⟨st.undivided, slot,
      { d with exec := d.exec.withIp i, countdown := k } :: ds', true⟩
    I.Slices drift s'.1 (I.machine .go t).1 ∧ (I.machine .go t).2 = s'.2 := by
  intro s' t
  obtain ⟨boundary, resultTys, scope, exec, countdown, pc⟩ := d
  dsimp only at hb hin hd
  subst hd
  have hagrees := I.finish_agrees
    (d := ⟨boundary, resultTys, scope, exec, countdown, .done (.error err)⟩) hds st.undivided slot
    (⟨boundary, resultTys, scope, exec, countdown, .done (.error err)⟩ :: ds) t.drives k
    (.done (.error err)) (.error err)
  rw [finish_undivided, ← I.finish_withIp
    (d := ⟨boundary, resultTys, scope, exec, k, .done (.error err)⟩) hb hin _ i] at hagrees
  exact ⟨.same hagrees, rfl⟩

/-- While the guest runs, the embedder's code has no say. -/
theorem machine_guest {c : Choice σ} (hc : c.IsHosts) {s : State σ} (hs : s.guest = true) :
    I.machine c s = (s, .silent) := by
  unfold machine stepWith
  cases c with
  | go | tick | post => exact hc.elim
  | call _ _ _ _ _ _ | setFuel _ | setFuelYieldInterval _ | hostOp _ | ret _ | grown _ _
  | deadline _ | panic => exact if_pos hs

/-! ## Runs -/

/-- The undivided run follows with the same choice. -/
theorem slices_one {c : Choice σ} {s t : State σ} (hc : c.decision = c.undividedDecision)
    (h : I.Slices drift (I.machine c s).1 (I.machine c t).1)
    (hm : (I.machine c t).2 = (I.machine c s).2) :
    ∃ cs, I.Slices drift (I.machine c s).1 (run I.machine cs t) ∧
      cs.flatMap Choice.decision = c.undividedDecision ∧
      (marks I.machine cs t).flatMap Mark.shown = (I.machine c s).2.shown :=
  ⟨[c], h, (List.append_nil _).trans hc, (List.append_nil _).trans (congrArg Mark.shown hm)⟩

/-- The innermost driver of a reachable state runs above the execution its call was entered on. -/
theorem running_layer {st : StoreState σ}
    (hs : Above .empty [] (⟨st, slot, d :: ds, true⟩ : State σ)) :
    ∃ entry inner, d.boundary = boundaryOf entry ∧ Inside entry inner d.exec ∧
      d.pc.Fits inner := by
  generalize hall : d :: ds = all at hs
  cases hs with
  | guest h =>
    obtain ⟨rfl, -⟩ := List.cons.inj hall
    obtain ⟨-, entry, inner, -, hb, hin, hfits⟩ := h
    exact ⟨entry, inner, hb, hin, hfits⟩

/-- What is no turn of the guest does the same to both. -/
theorem guest_slices {c : Choice σ} {s t : State σ} (hgo : c ≠ .go) (hs : s.guest = true)
    (ht : t.guest = true)
    (hslices : ∀ f : StoreState σ → StoreState σ, (∀ st, (f st).undivided = f st.undivided) →
      I.Slices drift { s with store := f s.store } { t with store := f t.store }) :
    ∃ cs, I.Slices drift (I.machine c s).1 (run I.machine cs t) ∧
      cs.flatMap Choice.decision = c.undividedDecision ∧
      (marks I.machine cs t).flatMap Mark.shown = (I.machine c s).2.shown := by
  have hsame : I.Slices drift s t := hslices id fun _ => rfl
  have hstay : c.IsHosts →
      I.Slices drift (I.machine c s).1 (I.machine c t).1 ∧
        (I.machine c t).2 = (I.machine c s).2 := by
    intro hc
    rw [machine_guest hc hs, machine_guest hc ht]
    exact ⟨hsame, rfl⟩
  cases c with
  | go => exact absurd rfl hgo
  | tick =>
    exact slices_one rfl
      (hslices (fun st => { st with epoch := (st.epoch + 1) % 2 ^ 64 }) fun _ => rfl) rfl
  | post =>
    exact slices_one rfl (hslices (fun st => { st with gcRequest := true }) fun _ => rfl) rfl
  | setFuelYieldInterval n =>
    refine ⟨[], ?_, rfl, ?_⟩
    · rw [machine_guest (c := .setFuelYieldInterval n) trivial hs]
      exact hsame
    · rw [machine_guest (c := .setFuelYieldInterval n) trivial hs]
      rfl
  | call _ _ _ _ _ _ | setFuel _ | hostOp _ | ret _ | grown _ _ | deadline _ | panic =>
    obtain ⟨h, hm⟩ := hstay trivial
    exact slices_one rfl h hm

/-- Both drivers are at the same place. -/
theorem same_step {st : StoreState σ}
    (hds : List.Forall₂ (Drive.Agrees drift I.gcWatch false) ds ds')
    (hb : d.boundary = boundaryOf entry) (hin : Inside entry inner d.exec)
    (hfits : d.pc.Fits inner) {k : ℕ} (hk : drift = false → k = d.countdown) {q : Pc}
    (hpc : d.pc.Agrees drift I.gcWatch false d.exec q)
    (hsafe : I.SlicesSafely .go (⟨st, slot, d :: ds, true⟩, drift)) :
    let s : State σ := ⟨st, slot, d :: ds, true⟩
    let t : State σ := ⟨st.undivided, slot, { d with countdown := k, pc := q } :: ds', true⟩
    ∃ cs, I.Slices (reenters .go s || drift) (I.machine .go s).1 (run I.machine cs t) ∧
      cs.flatMap Choice.decision = [] ∧
      (marks I.machine cs t).flatMap Mark.shown = (I.machine .go s).2.shown := by
  intro s t
  have hturns : ∀ r, d.pc.Turns I.gcWatch r → q.Turns I.gcWatch r → d.InStep drift r k q →
      ∃ cs, I.Slices (reenters .go s || drift) (I.machine .go s).1 (run I.machine cs t) ∧
      cs.flatMap Choice.decision = [] ∧
      (marks I.machine cs t).flatMap Mark.shown = (I.machine .go s).2.shown := by
    intro r hp hq hstep
    obtain ⟨j, hj⟩ := d.exec.exists_withIp
    have hnear := near_step (i := j) hds hb hin hfits (Or.inl hp) hq hstep hsafe
    rw [hj] at hnear
    exact hnear
  rcases hpc with rfl | ⟨r, ⟨rfl, hp⟩ | ⟨hinline, -⟩, hq⟩
  · by_cases hloop : ∃ r, d.pc = .loop r
    · obtain ⟨r, hr⟩ := hloop
      refine hturns r (Or.inl hr) (Or.inl hr) fun h => ⟨hk h, hr, ?_⟩
      rw [hr]
      exact nofun
    · have hcommutes := I.guestStep_undivided false st slot (d :: ds)
        (fun r hr => hloop ⟨r, hr⟩) ds
      obtain ⟨hagrees, hmark⟩ := guestStep_same (I := I) (d := d) st.undivided slot hds hin hfits
        (d :: ds) ({ d with countdown := k } :: ds') hk
      rw [hcommutes] at hagrees hmark
      exact slices_one (c := .go) rfl ((Slices.same (hagrees rfl rfl)).or_drifts _) hmark.symm
  · exact hturns r hp hq fun h => Bool.noConfusion h
  · exact Bool.noConfusion hinline

theorem parked_layers {st : StoreState σ} (hs : Above .empty [] (⟨st, slot, ds, false⟩ : State σ)) :
    LayeredOn .empty ds slot := by
  cases hs with
  | @host _ _ l h =>
    rw [List.append_nil]
    exact h

/-- The embedder's code has control of both. -/
theorem host_step (c : Choice σ) {st : StoreState σ} (h : LayeredOn .empty ds slot)
    (hds : List.Forall₂ (Drive.Agrees drift I.gcWatch false) ds ds') :
    let s : State σ := ⟨st, slot, ds, false⟩
    let t : State σ := ⟨st.undivided, slot, ds', false⟩
    ∃ cs, I.Slices drift (I.machine c s).1 (run I.machine cs t) ∧
      cs.flatMap Choice.decision = c.undividedDecision ∧
      (marks I.machine cs t).flatMap Mark.shown = (I.machine c s).2.shown := by
  intro s t
  have hhost : ∀ c, (I.hostStep false c s.undivided).Agrees drift I.gcWatch false
      (I.hostStep false c t) := fun c => hostStep_agrees c st.undivided slot h hds
  have hfollows : c.IsHosts → (∀ i, c ≠ .setFuelYieldInterval i) →
      I.Slices drift (I.machine c s).1 (I.machine c t).1 ∧
        (I.machine c t).2 = (I.machine c s).2 := by
    intro hc hi
    have hcommutes := I.hostStep_undivided false c s
    have hagrees := hhost c
    cases c with
    | go | tick | post => exact hc.elim
    | setFuelYieldInterval i => exact absurd rfl (hi i)
    | call _ _ _ _ _ _ | setFuel _ | hostOp _ | ret _ | grown _ _ | deadline _ | panic =>
      dsimp only at hcommutes
      rw [← hcommutes] at hagrees
      exact ⟨.same hagrees, rfl⟩
  cases c with
  | go => exact slices_one rfl (.same ⟨ds', rfl, hds⟩) rfl
  | tick | post => exact slices_one rfl (.same ⟨ds', rfl, hds⟩) rfl
  | setFuelYieldInterval i =>
    have hcommutes := I.hostStep_undivided false (.setFuelYieldInterval i) s
    refine ⟨[], .same ?_, rfl, rfl⟩
    show (I.hostStep false (.setFuelYieldInterval i) s).undivided.Agrees drift I.gcWatch false t
    rw [hcommutes]
    exact ⟨ds', rfl, hds⟩
  | call _ _ _ _ _ _ | setFuel _ | hostOp _ | ret _ | grown _ _ | deadline _ | panic =>
    obtain ⟨hslices, hmark⟩ := hfollows trivial fun i hi => (nomatch hi)
    exact slices_one rfl hslices hmark

/-- A step of the divided run is followed by the undivided, at the same decision; the counts may
drift where `run` is entered again. -/
theorem step_slices (c : Choice σ) {s t : State σ} (hs : Above .empty [] s)
    (h : I.Slices drift s t) (hsafe : I.SlicesSafely c (s, drift)) :
    ∃ cs, I.Slices (reenters c s || drift) (I.machine c s).1 (run I.machine cs t) ∧
      cs.flatMap Choice.decision = c.undividedDecision ∧
      (marks I.machine cs t).flatMap Mark.shown = (I.machine c s).2.shown := by
  have hstays : c ≠ .go ∨ s.guest = false → reenters c s = false := by
    rintro (hgo | hguest)
    · cases c <;> first | rfl | exact absurd rfl hgo
    · unfold reenters
      rw [hguest]
      cases c <;> rfl
  cases h with
  | @near st slot d ds ds' k i q r hds hd hq hk =>
    by_cases hgo : c = .go
    · subst hgo
      obtain ⟨entry, inner, hb, hin, hfits⟩ := running_layer hs
      exact near_step hds hb hin hfits hd hq hk hsafe
    · rw [hstays (Or.inl hgo)]
      refine guest_slices hgo rfl rfl fun f hf => ?_
      dsimp only
      rw [← hf]
      exact .near hds hd hq hk
  | @failed st slot d ds ds' k i err hds hd =>
    by_cases hgo : c = .go
    · subst hgo
      obtain ⟨entry, inner, hb, hin, -⟩ := running_layer hs
      obtain ⟨hslices, hmark⟩ := failed_step hds hb hin hd
      exact slices_one rfl (hslices.or_drifts _) hmark
    · rw [hstays (Or.inl hgo)]
      refine guest_slices hgo rfl rfl fun f hf => ?_
      dsimp only
      rw [← hf]
      exact .failed hds hd
  | same h =>
    obtain ⟨st, slot, all, guest⟩ := s
    obtain ⟨all', rfl, hall⟩ := h
    dsimp only [State.undivided] at hall
    cases guest with
    | true =>
      by_cases hgo : c = .go
      · subst hgo
        cases hall with
        | nil => exact slices_one rfl (.same (.refl _)) rfl
        | @cons d d' ds ds' hd hds =>
          obtain ⟨entry, inner, hb, hin, hfits⟩ := running_layer hs
          obtain ⟨k, q, rfl, hk, hpc⟩ := hd
          exact same_step hds hb hin hfits hk hpc hsafe
      · rw [hstays (Or.inl hgo)]
        refine guest_slices hgo rfl rfl fun f hf => .same ⟨all', ?_, hall⟩
        dsimp only [State.undivided]
        rw [hf]
    | false =>
      rw [hstays (Or.inr rfl)]
      exact host_step c (parked_layers hs) hall

variable (I)

/-- The run of the divided fuel is one of the undivided: without an interval and with the same
decisions otherwise, the machine charges and executes the same ops, finds its fuel exhausted at the
same one, and reaches the corresponding state. -/
def SlicedAsUndivided (cs : List (Choice σ)) (s : State σ) : Prop :=
  ∃ cs', cs'.flatMap Choice.decision = cs.flatMap Choice.undividedDecision ∧
    I.Slices true (run I.machine cs s) (run I.machine cs' s.undivided) ∧
    (marks I.machine cs' s.undivided).flatMap Mark.shown =
      (marks I.machine cs s).flatMap Mark.shown

/-- **Fuel slicing.**  After any history of the counters their sum is a `u64`, every operation
changes it by what it charges or sets, and the charge after a yield and its refuel is taken.  From
every reachable state, a run whose yields are served by async drivers with stacks below the limit,
and in whose loops no pressure request is pending once `run` has been entered again, does what it
does with the undivided fuel. -/
theorem fuel_slicing :
    (∀ ops : List Fuel.FuelOp,
      let f := ops.foldl Fuel.apply Fuel.zero
      f.total ≤ u64Max ∧ (∀ op, Fuel.Ledger f (f.apply op) op) ∧
        (f.consumeFuelStep.1 = .needYield → f.refuelFromReserve.consumeFuelStep.1 = .ran)) ∧
    ∀ (cs₀ cs : List (Choice σ)) (st : StoreState σ),
      Along I.reentering I.SlicesSafely cs (run I.machine cs₀ (State.idle st), false) →
      I.SlicedAsUndivided cs (run I.machine cs₀ (State.idle st)) := by
  refine ⟨fun ops => ?_, fun cs₀ cs st hsafe => ?_⟩
  · have hsound := Fuel.sound_foldl ops
    exact ⟨hsound.bounded, fun op => Fuel.ledger_apply _ op, hsound.ran_after_refuel⟩
  · have hstart : Above .empty [] (run I.machine cs₀ (State.idle st)) :=
      Above.reachable I false cs₀ st
    obtain ⟨cs', ⟨-, hslices⟩, hdecisions, hmarks⟩ := simulated
      (R := fun w t => Above .empty [] w.1 ∧ I.Slices w.2 w.1 t)
      (fun c w t hR hc => by
        obtain ⟨ds, hslices, hdecision, hmark⟩ := step_slices c hR.1 hR.2 hc
        exact ⟨ds, ⟨hR.1.step I (fun _ => rfl) false c (Or.inl rfl), hslices⟩, hdecision, hmark⟩)
      ⟨hstart, .same (.refl _)⟩ hsafe
    have hdrifted := hslices.or_drifts true
    rw [reentering, run_noting] at hdrifted
    rw [reentering, marks_noting] at hmarks
    exact ⟨cs', hdecisions, hdrifted, hmarks⟩

/-- A yield that leaves the loop with room on the stack, served by an async driver. -/
theorem fuel_slicing_yield :
    (idle 1000 true false).SlicedAsUndivided
      [.call 0 0 (.ofOps [.plain .nop, .plain .nop]) [] [] true, .go, .go, .go, .go, .go, .go]
      (.idle { StoreState.new () with
        fuel := (Fuel.zero.setFuelYieldInterval (some 1)).setFuel 2 }) :=
  (fuel_slicing (idle 1000 true false)).2 [] _ _
    ⟨trivial, trivial, fun h => Bool.noConfusion h, fun h => Bool.noConfusion h,
      ⟨rfl, _, rfl, by decide⟩, trivial, fun _ h => Bool.noConfusion h, trivial⟩

variable {I} in
/-- A stack overflow of the divided run is one of the undivided. -/
theorem Slices.overflowed_eq {s t : State σ} (h : I.Slices drift s t) :
    s.overflowed = t.overflowed := by
  have hturns : ∀ {d : Drive} {ds : List Drive} {r : Regs} {st : StoreState σ} {e : Execution},
      d.pc.Turns I.gcWatch r → State.overflowed ⟨st, e, d :: ds, true⟩ = false := by
    intro d ds r st e hp
    unfold State.overflowed
    rcases hp with hp | ⟨-, hp⟩ <;> simp only [hp]
  cases h with
  | same h => exact h.overflowed_eq
  | @near st slot d ds ds' k i q r hds hd hq hk =>
    rw [hturns (d := { d with exec := d.exec.withIp i, countdown := k, pc := q }) hq]
    rcases hd with hp | ⟨-, hp | ⟨hp, -⟩⟩
    · exact hturns hp
    · unfold State.overflowed
      simp only [hp]
    · unfold State.overflowed
      simp only [hp]
  | failed hds hd => rfl

/-- The call of `yieldState` right before its first slice is found used up. -/
def slicedState : State Unit :=
  run (idle 140 true false).machine
    [.call 0 0 (.ofOps [.plain (.i32Const 0), .plain (.i32Const 0), .plain .drop, .plain .drop])
      [] [] true, .go, .go, .go]
    (.idle { StoreState.new () with
      fuel := (Fuel.zero.setFuelYieldInterval (some 2)).setFuel 10 })

theorem not_overflowed_undivided (n : ℕ) :
    (run (idle 140 true false).machine (List.replicate n .go) slicedState.undivided).overflowed =
      false := by
  have hfixed : ((idle 140 true false).machine .go
      (run (idle 140 true false).machine (List.replicate 6 .go) slicedState.undivided)).1 =
      run (idle 140 true false).machine (List.replicate 6 .go) slicedState.undivided := rfl
  obtain ⟨m, hm, hrun⟩ := run_replicate_le hfixed n
  rw [hrun]
  interval_cases m <;> decide

/-- Entering `run` again after the yield overflows the stack; with the undivided fuel the call
goes on. -/
theorem not_slicedAsUndivided_yield :
    ¬ (idle 140 true false).SlicedAsUndivided [.go, .go, .go] slicedState := by
  rintro ⟨cs, hdecisions, hslices, -⟩
  have hover := hslices.overflowed_eq
  rw [eq_replicate_go hdecisions, not_overflowed_undivided] at hover
  exact absurd hover (by decide)

end Interp

end SubmilliWasm
