/-
# Fuel metering

Fuel is charged at the gate in front of an op, before the epoch gate and before the op itself can
ask for a larger heap.  Both suspend the run at the op, which is then charged a second time, so
the fuel a run consumes is the number of the ops it executes plus the number of such suspensions.
-/
import SubmilliWasm.Exec.Drive

namespace SubmilliWasm

open Runs

variable {σ : Type}

/-! ## What leaves the fuel alone -/

namespace StoreState

@[simp] theorem latchInternalError_fuel (st : StoreState σ) (err : ExecError) :
    (st.latchInternalError err).fuel = st.fuel := by
  unfold latchInternalError
  split <;> rfl

end StoreState

namespace State

@[simp] theorem goOn_store (s : State σ) (st : StoreState σ) (d : Drive) (ds : List Drive) :
    (s.goOn st d ds).store = st := rfl

@[simp] theorem toHost_store (s : State σ) (st : StoreState σ) (d : Drive) (ds : List Drive) :
    (s.toHost st d ds).store = st := rfl

@[simp] theorem toGuest_store (st : StoreState σ) (d : Drive) (ds : List Drive) (e : Execution)
    (pc : Pc) : (toGuest st d ds e pc).store = st := rfl

end State

namespace Interp

variable (I : Interp σ)

theorem prepareHostCall_fuel {st st' : StoreState σ} {e e' : Execution} {func : ℕ}
    {call : HostCallState} (h : I.prepareHostCall st e func = .ok (call, st', e')) :
    st'.fuel = st.fuel := by
  unfold prepareHostCall at h
  simp only at h
  split at h
  · nomatch h
  · simp only [Except.ok.injEq, Prod.mk.injEq] at h
    rw [← h.2.1]
    rfl

@[simp] theorem startHostCall_fuel (st : StoreState σ) (e : Execution) (func : ℕ) :
    (I.startHostCall st e func).1.fuel = st.fuel := by
  unfold startHostCall
  split
  · rfl
  · rename_i h
    exact I.prepareHostCall_fuel h

@[simp] theorem finishHostCall_fuel (st : StoreState σ) (e : Execution) (call : HostCallState)
    (outcome : Except ExecError (List Val)) (stopDepth : ℕ) :
    (I.finishHostCall st e call outcome stopDepth).1.fuel = st.fuel := by
  unfold finishHostCall
  simp only
  split
  · split
    · split <;> rfl
    · rfl
  · split <;> rfl

@[simp] theorem afterCallback_fuel (st : StoreState σ) (e : Execution) (call : HostCallState)
    (outcome : Except ExecError (List Val)) (stopDepth : ℕ) :
    (I.afterCallback st e call outcome stopDepth).1.fuel = st.fuel := by
  unfold afterCallback
  split
  · rfl
  · exact I.finishHostCall_fuel st e call outcome stopDepth

@[simp] theorem carryOut_fuel (st : StoreState σ) (e : Execution) (r : Regs)
    (stopDepth countdown : ℕ) (out : StepOutcome) :
    (I.carryOut st e r stopDepth countdown out).1.fuel = st.fuel := by
  unfold carryOut
  split
  · rfl
  · split
    · rfl
    · split
      · rfl
      · split <;> rfl
  · split <;> rfl
  · split
    · rfl
    · exact I.startHostCall_fuel st _ _
  · split
    · rfl
    · exact I.startHostCall_fuel st _ _
  · rfl
  · split <;> rfl
  · rfl
  · rfl
  · rfl

@[simp] theorem serviceGcPressure_fuel (st : StoreState σ) (e : Execution) :
    (I.serviceGcPressure st e).1.fuel = st.fuel := by
  unfold serviceGcPressure
  split
  · split <;> rfl
  · rfl

@[simp] theorem surfaceException_fuel (st : StoreState σ) (err : ExecError) :
    (I.surfaceException st err).1.fuel = st.fuel := by
  unfold surfaceException
  split
  · split <;> rfl
  · rfl

@[simp] theorem close_fuel (st : StoreState σ) (d : Drive) (outcome : Except ExecError Unit) :
    (I.close st d outcome).1.fuel = st.fuel := by
  unfold close
  simp only
  split
  · split
    · split <;> rfl
    · split <;> rfl
  · split
    · exact I.surfaceException_fuel st _
    · rfl

@[simp] theorem finish_fuel (s : State σ) (d : Drive) (ds : List Drive)
    (outcome : Except ExecError Unit) :
    (I.finish s d ds outcome).store.fuel = s.store.fuel := by
  -- leaving the drive's scope truncates roots, which leaves the fuel
  have hclose : (I.close (d.scope.elim s.store fun scope => s.store.truncateRoots scope.rootsMark)
      d outcome).1.fuel = s.store.fuel := by
    rw [I.close_fuel]
    cases d.scope <;> rfl
  unfold finish
  cases hscope : d.scope <;> rw [hscope] at hclose <;> simp only
  all_goals
    split
    · exact hclose
    · split
      · split
        · rw [StoreState.latchInternalError_fuel]
          exact hclose
        · exact hclose
      · exact hclose

@[simp] theorem enter_fuel (s : State σ) (inst funcIndex : ℕ) (code : CompiledFunc)
    (args : List Val) (resultTys : List ValType) (isAsync : Bool) :
    (enter s inst funcIndex code args resultTys isAsync).store.fuel = s.store.fuel := by
  unfold enter
  split
  · split <;> rfl
  · simp only
    split
    · rfl
    · cases isAsync <;> rfl

@[simp] theorem restoreAfterPanic_fuel (s : State σ) (ds : List Drive) (scope : Parked) :
    (restoreAfterPanic s ds scope).store.fuel = s.store.fuel := by
  unfold restoreAfterPanic
  simp only
  split
  · rfl
  · split
    · exact StoreState.latchInternalError_fuel _ _
    · rfl

@[simp] theorem recoverCancelled_fuel (s : State σ) (d : Drive) (ds : List Drive)
    (scope : Parked) : (recoverCancelled s d ds scope).store.fuel = s.store.fuel := by
  unfold recoverCancelled
  simp only
  split
  · rfl
  · split
    · exact StoreState.latchInternalError_fuel _ _
    · rfl

@[simp] theorem panicked_fuel (s : State σ) (d : Drive) (ds : List Drive) :
    (panicked s d ds).store.fuel = s.store.fuel := by
  unfold panicked
  split <;> simp

@[simp] theorem askLimiter_fuel (s : State σ) (d : Drive) (ds : List Drive) (g : Growth)
    (withScope : Bool) : (askLimiter s d ds g withScope).store.fuel = s.store.fuel := by
  unfold askLimiter
  split <;> rfl

@[simp] theorem returned_fuel (s : State σ) (d : Drive) (ds : List Drive)
    (r : Except ExecError (List Val)) : (I.returned s d ds r).store.fuel = s.store.fuel := by
  unfold returned
  split
  · have hst := I.afterCallback_fuel s.store s.slot ‹_› r d.boundary.runStop
    split
    · rename_i h
      rw [h] at hst
      exact hst
    · rename_i h
      rw [h] at hst
      split
      · exact hst
      · split <;> exact hst
  · have hst := I.afterCallback_fuel s.store s.slot ‹_› r d.boundary.runStop
    split
    · rename_i h
      rw [h] at hst
      exact hst
    · rename_i st e h
      rw [h] at hst
      have hgc : (if I.gcWatch then I.serviceGcPressure st e else (st, .ok ())).1.fuel
        = st.fuel := by
        split
        · exact I.serviceGcPressure_fuel st e
        · rfl
      split
      · rename_i h'
        rw [h'] at hgc
        exact hgc.trans hst
      · rename_i h'
        rw [h'] at hgc
        exact hgc.trans hst
  · rfl

@[simp] theorem grown_fuel (inline : Bool) (s : State σ) (d : Drive) (ds : List Drive) (rest : σ)
    (r : Except ExecError (Option ℕ)) :
    (grown inline s d ds rest r).store.fuel = s.store.fuel := by
  unfold grown
  split
  · simp only
    split
    · rw [State.toGuest_store]
      split <;> rfl
    · rw [State.toGuest_store]
      split <;> rfl
  · rfl

@[simp] theorem applyEpochDeadline_fuel (inline : Bool) (s : State σ) (d : Drive) (ds : List Drive)
    (r : Except ExecError UpdateDeadline) :
    (applyEpochDeadline inline s d ds r).store.fuel = s.store.fuel := by
  unfold applyEpochDeadline
  split
  · simp only
    split
    · rfl
    · split
      · rfl
      · rfl
      · rfl
      · split <;> rfl
  · rfl

/-! ## What charges it -/

/-- The gates charge what `charges` says. -/
theorem serviceGates_total (st : StoreState σ) (e : Execution) (ip : ℕ) :
    st.fuel.total = (I.serviceGates st e ip).1.fuel.total + (I.charges st).toNat := by
  unfold serviceGates charges
  by_cases hm : I.consumeFuel = true
  · rw [if_pos hm, hm, Bool.true_and]
    rcases st.fuel.consumeFuelStep_cases with ⟨f', h, ht, -⟩ | ⟨h, -⟩ | ⟨h, -⟩
    · rw [h]
      exact ht
    · rw [h]
      simp only
      split <;> rfl
    · rw [h]
      rfl
  · rw [if_neg hm, Bool.eq_false_iff.mpr hm, Bool.false_and]
    rfl

/-- Past the gates a unit has been charged iff fuel is metered. -/
theorem serviceGates_passed {st st' : StoreState σ} {e e' : Execution} {ip : ℕ}
    (h : I.serviceGates st e ip = (st', e', .ok none)) : I.charges st = I.consumeFuel := by
  unfold serviceGates at h
  unfold charges
  by_cases hm : I.consumeFuel = true
  · rw [if_pos hm] at h
    rw [hm, Bool.true_and]
    rcases st.fuel.consumeFuelStep_cases with ⟨f', hc, -⟩ | ⟨hc, -⟩ | ⟨hc, -⟩
    · rw [hc]
      rfl
    · rw [hc] at h
      simp only at h
      split at h
      · simp at h
      · simp at h
    · rw [hc] at h
      simp at h
  · rw [Bool.eq_false_iff.mpr hm, Bool.false_and]

theorem execute_fuel (st : StoreState σ) (e : Execution) (r : Regs) (stopDepth countdown : ℕ)
    (op : Op) : (I.execute st e r stopDepth countdown op).st.fuel = st.fuel := by
  unfold execute
  split
  · rfl
  · exact I.carryOut_fuel _ _ r stopDepth countdown _

/-- A turn lowers the fuel by what it charges. -/
theorem turn_total (st : StoreState σ) (e : Execution) (r : Regs) (stopDepth countdown : ℕ) :
    st.fuel.total = (I.turn st e r stopDepth countdown).st.fuel.total +
      (I.turn st e r stopDepth countdown).mark.charged.toNat := by
  unfold turn
  split
  · split <;> rfl
  · have hgates := I.serviceGates_total st e r.ip
    split
    · rename_i h
      rw [h] at hgates
      exact hgates
    · rename_i h
      rw [h] at hgates
      exact hgates
    · rename_i h
      rw [h] at hgates
      rw [execute_fuel, execute_charged, ← I.serviceGates_passed h]
      exact hgates

theorem turnStep_total (s : State σ) (d : Drive) (ds : List Drive) (r : Regs) :
    s.store.fuel.total = (I.turnStep s d ds r).1.store.fuel.total +
      (I.turnStep s d ds r).2.charged.toNat := by
  have hturn := I.turn_total s.store d.exec r d.boundary.runStop d.countdown
  unfold turnStep
  simp only
  split <;> exact hturn

theorem serve_total (inline : Bool) (s : State σ) (d : Drive) (ds : List Drive) (o : RunOutcome) :
    (I.serve inline s d ds o).store.fuel.total = s.store.fuel.total := by
  unfold serve
  split
  · rfl
  · split
    · split
      · rfl
      · rename_i h
        rw [State.toHost_store, I.prepareHostCall_fuel h]
    · rfl
  · split
    · exact Fuel.total_refuelFromReserve _
    · rfl
  · rfl
  · rw [askLimiter_fuel]
  · rw [askLimiter_fuel]
  · rw [askLimiter_fuel]

theorem guestStep_total (inline : Bool) (s : State σ) (d : Drive) (ds : List Drive) :
    s.store.fuel.total = (I.guestStep inline s d ds).1.store.fuel.total +
      (I.guestStep inline s d ds).2.charged.toNat := by
  unfold guestStep
  split
  · rfl
  · exact I.turnStep_total s d ds _
  · have hgc := I.serviceGcPressure_fuel s.store d.exec
    split
    · rename_i h
      rw [h] at hgc
      rw [State.goOn_store, show _ = s.store.fuel from hgc]
      rfl
    · rename_i h
      rw [h] at hgc
      rw [State.goOn_store, show _ = s.store.fuel from hgc]
      rfl
  · rw [I.serve_total]
    rfl
  · rw [I.finish_fuel]
    rfl
  · rfl

end Interp

/-- The choice sets the fuel. -/
def Choice.SetsFuel : Choice σ → Prop
  | .setFuel _ => True
  | _ => False

namespace Interp

variable (I : Interp σ)

/-- One step lowers the fuel by what it charges. -/
theorem stepWith_total (inline : Bool) {c : Choice σ} (hc : ¬ c.SetsFuel) (s : State σ) :
    s.store.fuel.total = (I.stepWith inline c s).1.store.fuel.total +
      (I.stepWith inline c s).2.charged.toNat := by
  have hhost : (I.hostStep inline c s).store.fuel.total = s.store.fuel.total := by
    cases c with
    | setFuel n => exact absurd trivial hc
    | setFuelYieldInterval i => exact Fuel.total_setFuelYieldInterval _ _
    | call inst funcIndex code args resultTys isAsync =>
      exact congrArg Fuel.total (enter_fuel s inst funcIndex code args resultTys isAsync)
    | hostOp st => rfl
    | go | tick | post =>
      unfold hostStep
      rcases s.drives with _ | ⟨d, ds⟩ <;> rfl
    | ret r =>
      unfold hostStep
      rcases s.drives with _ | ⟨d, ds⟩
      · rfl
      · exact congrArg Fuel.total (I.returned_fuel s d ds r)
    | grown rest r =>
      unfold hostStep
      rcases s.drives with _ | ⟨d, ds⟩
      · rfl
      · exact congrArg Fuel.total (grown_fuel inline s d ds rest r)
    | deadline r =>
      unfold hostStep
      rcases s.drives with _ | ⟨d, ds⟩
      · rfl
      · exact congrArg Fuel.total (applyEpochDeadline_fuel inline s d ds r)
    | panic =>
      unfold hostStep
      rcases s.drives with _ | ⟨d, ds⟩
      · rfl
      · exact congrArg Fuel.total (panicked_fuel s d ds)
  unfold stepWith
  split
  · rfl
  · rfl
  · split
    · exact I.guestStep_total inline s _ _
    · rfl
  · split
    · rfl
    · exact hhost.symm

/-! ## Ops that are charged twice -/

/-- The epoch gate would suspend the run. -/
def EpochDue (st : StoreState σ) : Prop :=
  I.epochInterruption = true ∧ st.epochDeadlineReached = true

/-- The op asks for a larger reservation before it allocates. -/
def GrowsHeap (st : StoreState σ) (e : Execution) (r : Regs) (op : Op) : Prop :=
  ∃ target bytes ip, ((I.step r.code op (r.ip + 1) r.inst).run r.base e st.rest).2.2 =
    .ok (.doGcGrow target bytes ip)

/-- The op about to be executed is charged, and then suspended to be executed again. -/
def SuspendsCharged (s : State σ) : Prop :=
  ∃ d ds r op, s.guest = true ∧ s.drives = d :: ds ∧ d.pc = .loop r ∧
    r.code.ops[r.ip]? = some op ∧ I.charges s.store = true ∧
    (I.EpochDue s.store ∨ I.GrowsHeap s.store d.exec r op)

variable {e e' : Execution}

theorem epochGate_passed {st : StoreState σ} {ip : ℕ} (h : I.epochGate st e ip = (e', .ok none)) :
    e' = e ∧ ¬ I.EpochDue st := by
  unfold epochGate at h
  split at h
  · split at h <;> simp at h
  · rename_i hdue
    exact ⟨(Prod.mk.inj h).1.symm, hdue⟩

/-- The gates pass with nothing changed but the fuel, and only before the deadline. -/
theorem serviceGates_same {st st' : StoreState σ} {ip : ℕ}
    (h : I.serviceGates st e ip = (st', e', .ok none)) :
    e' = e ∧ st'.rest = st.rest ∧ ¬ I.EpochDue st := by
  unfold serviceGates at h
  split at h
  · split at h
    · simp only [Prod.mk.injEq] at h
      obtain ⟨rfl, h⟩ := h
      obtain ⟨he, hdue⟩ := I.epochGate_passed h
      exact ⟨he, rfl, hdue⟩
    · simp at h
    · split at h <;> simp at h
  · simp only [Prod.mk.injEq] at h
    obtain ⟨rfl, h⟩ := h
    obtain ⟨he, hdue⟩ := I.epochGate_passed h
    exact ⟨he, rfl, hdue⟩

/-- Gates that charge a unit and do not pass are held up by the epoch. -/
theorem serviceGates_due {st st' : StoreState σ} {ip : ℕ}
    {res : Except ExecError (Option RunOutcome)} (h : I.serviceGates st e ip = (st', e', res))
    (hres : res ≠ .ok none) (hc : I.charges st = true) : I.EpochDue st := by
  have hm : I.consumeFuel = true := (Bool.and_eq_true _ _ ▸ hc).1
  have hgate : ∀ st'' : StoreState σ, I.epochGate st'' e ip = (e', res) → I.EpochDue st'' := by
    intro st'' hg
    by_contra hdue
    unfold EpochDue at hdue
    rw [epochGate, if_neg hdue] at hg
    exact hres (Prod.mk.inj hg).2.symm
  unfold serviceGates at h
  rw [if_pos hm] at h
  unfold charges at hc
  rcases st.fuel.consumeFuelStep_cases with ⟨f', hf, -⟩ | ⟨hf, -⟩ | ⟨hf, -⟩
  · rw [hf] at h
    simp only [Prod.mk.injEq] at h
    exact hgate { st with fuel := f' } h.2
  · rw [hf] at hc
    simp at hc
  · rw [hf] at hc
    simp at hc

/-- An op past its gates is executed, unless it asks for a larger reservation. -/
theorem execute_ran (st : StoreState σ) (e : Execution) (r : Regs) (stopDepth countdown : ℕ)
    (op : Op) :
    (I.execute st e r stopDepth countdown op).mark.ran = none ↔ I.GrowsHeap st e r op := by
  unfold execute GrowsHeap
  rcases hrun : (I.step r.code op (r.ip + 1) r.inst).run r.base e st.rest with ⟨e', s, err | out⟩
  · simp
  · cases out <;> simp

/-- A turn charges one unit for the op it executes, and one for an op it charges and suspends. -/
theorem turn_charged (hm : I.consumeFuel = true) (st : StoreState σ) (e : Execution) (r : Regs)
    (stopDepth countdown : ℕ) :
    ((I.turn st e r stopDepth countdown).mark.ran.isSome = true →
      (I.turn st e r stopDepth countdown).mark.charged = true) ∧
    (((I.turn st e r stopDepth countdown).mark.charged = true ∧
        (I.turn st e r stopDepth countdown).mark.ran = none) ↔
      ∃ op, r.code.ops[r.ip]? = some op ∧ I.charges st = true ∧
        (I.EpochDue st ∨ I.GrowsHeap st e r op)) := by
  unfold turn
  rcases hop : r.code.ops[r.ip]? with _ | op
  · have hno : ¬ ∃ op, (none : Option Op) = some op ∧ I.charges st = true ∧
        (I.EpochDue st ∨ I.GrowsHeap st e r op) := fun ⟨op, h, _⟩ => (nomatch h)
    simp only [hno, iff_false]
    split <;> simp [Mark.silent]
  · have hone : (∃ op', some op = some op' ∧ I.charges st = true ∧
        (I.EpochDue st ∨ I.GrowsHeap st e r op')) ↔
        I.charges st = true ∧ (I.EpochDue st ∨ I.GrowsHeap st e r op) := by
      constructor
      · rintro ⟨op', h, hc⟩
        rw [Option.some.inj h]
        exact hc
      · exact fun hc => ⟨op, rfl, hc⟩
    rw [hone]
    rcases hg : I.serviceGates st e r.ip with ⟨st', e', err | _ | out⟩
    · refine ⟨nofun, ?_⟩
      simp only [and_true]
      exact ⟨fun hc => ⟨hc, Or.inl (I.serviceGates_due hg nofun hc)⟩, fun h => h.1⟩
    · -- The gates pass, so what the mark says is up to the op.
      obtain ⟨rfl, hrest, hdue⟩ := I.serviceGates_same hg
      have hc : I.charges st = true := (I.serviceGates_passed hg).trans hm
      have hgrows : I.GrowsHeap st' e' r op ↔ I.GrowsHeap st e' r op := by
        unfold GrowsHeap
        rw [hrest]
      simp only [execute_charged, execute_ran, hm, hc, true_and, hdue, false_or, hgrows,
        implies_true]
    · refine ⟨nofun, ?_⟩
      simp only [and_true]
      exact ⟨fun hc => ⟨hc, Or.inl (I.serviceGates_due hg nofun hc)⟩, fun h => h.1⟩

/-- What one step charges and executes. -/
theorem machine_charged (hm : I.consumeFuel = true) (c : Choice σ) (s : State σ) :
    ((I.machine c s).2.ran.isSome = true → (I.machine c s).2.charged = true) ∧
    (((I.machine c s).2.charged = true ∧ (I.machine c s).2.ran = none) ↔
      c = .go ∧ I.SuspendsCharged s) := by
  have hsilent : ∀ {P : Prop}, ¬ P →
      ((Mark.silent.ran.isSome = true → Mark.silent.charged = true) ∧
        ((Mark.silent.charged = true ∧ Mark.silent.ran = none) ↔ P)) :=
    fun hP => ⟨nofun, fun h => (nomatch h.1), fun h => absurd h hP⟩
  unfold machine stepWith
  split
  · exact hsilent fun h => (nomatch h.1)
  · exact hsilent fun h => (nomatch h.1)
  · split
    · rename_i d ds hguest hdrives
      unfold guestStep
      split
      · rename_i hpc
        exact hsilent fun ⟨_, d', ds', r, op, _, hd, hr, _⟩ => by
          rw [hdrives] at hd
          rw [← (List.cons.inj hd).1, hpc] at hr
          nomatch hr
      · -- A turn of the loop.
        rename_i r hpc
        have hturn := I.turn_charged hm s.store d.exec r d.boundary.runStop d.countdown
        have hmark : (I.turnStep s d ds r).2 =
            (I.turn s.store d.exec r d.boundary.runStop d.countdown).mark := by
          unfold turnStep
          simp only
          split <;> rfl
        have hiff : (∃ op, r.code.ops[r.ip]? = some op ∧ I.charges s.store = true ∧
            (I.EpochDue s.store ∨ I.GrowsHeap s.store d.exec r op)) ↔
            (Choice.go : Choice σ) = .go ∧ I.SuspendsCharged s := by
          constructor
          · rintro ⟨op, hop, hc, hd⟩
            exact ⟨rfl, d, ds, r, op, hguest, hdrives, hpc, hop, hc, hd⟩
          · rintro ⟨-, d', ds', r', op, -, hd', hr', hop, hc, hd⟩
            rw [hdrives] at hd'
            obtain ⟨rfl, rfl⟩ := List.cons.inj hd'
            obtain rfl : r = r' := Pc.loop.inj (hpc.symm.trans hr')
            exact ⟨op, hop, hc, hd⟩
        rw [hmark, ← hiff]
        exact hturn
      all_goals
        rename_i hpc
        have hno : ¬ ((Choice.go : Choice σ) = .go ∧ I.SuspendsCharged s) := by
          rintro ⟨-, d', ds', r, op, -, hd, hr, -⟩
          rw [hdrives] at hd
          obtain ⟨rfl, rfl⟩ := List.cons.inj hd
          simp_all
        first
          | exact hsilent hno
          | (split <;> exact hsilent hno)
    · rename_i hno
      exact hsilent fun ⟨_, d, ds, r, op, hguest, hdrives, _⟩ => hno d ds hguest hdrives
  · rename_i hgo
    split <;> exact hsilent fun h => hgo h.1

/-- A turn that finds the fuel exhausted has none left. -/
theorem turn_exhausted {st : StoreState σ} {r : Regs} {stopDepth countdown : ℕ}
    (h : (I.turn st e r stopDepth countdown).mark.exhausted = true) : st.fuel.total = 0 := by
  unfold turn at h
  split at h
  · split at h <;> exact (nomatch h)
  · split at h
    · rename_i hg
      simp only [decide_eq_true_eq] at h
      subst h
      have hepoch : ∀ (st' : StoreState σ) (e' : Execution),
          I.epochGate st' e r.ip ≠ (e', .error .outOfFuel) := by
        intro st' e'
        unfold epochGate
        split
        · split <;> simp
        · simp
      unfold serviceGates at hg
      split at hg
      · rcases st.fuel.consumeFuelStep_cases with ⟨f', hf, -⟩ | ⟨hf, -⟩ | ⟨hf, ht⟩
        · rw [hf] at hg
          simp only [Prod.mk.injEq] at hg
          exact absurd hg.2 (hepoch _ _)
        · rw [hf] at hg
          simp only at hg
          split at hg <;> simp at hg
        · exact ht
      · simp only [Prod.mk.injEq] at hg
        exact absurd hg.2 (hepoch _ _)
    · nomatch h
    · unfold execute at h
      split at h <;> exact (nomatch h)

theorem machine_exhausted {c : Choice σ} {s : State σ}
    (h : (I.machine c s).2.exhausted = true) : s.store.fuel.total = 0 := by
  unfold machine stepWith at h
  split at h
  · nomatch h
  · nomatch h
  · split at h
    · unfold guestStep at h
      split at h
      · nomatch h
      · unfold turnStep at h
        simp only at h
        split at h <;> exact I.turn_exhausted h
      · split at h <;> exact (nomatch h)
      all_goals exact (nomatch h)
    · nomatch h
  · split at h <;> exact (nomatch h)

/-! ## Runs -/

/-- The ops a run executes. -/
def executed (cs : List (Choice σ)) (s : State σ) : ℕ :=
  (marks I.machine cs s).countP fun m => m.ran.isSome

/-- The fuel a run consumes, by `get_fuel` before and after. -/
def consumed (cs : List (Choice σ)) (s : State σ) : ℕ :=
  s.store.fuel.total - (run I.machine cs s).store.fuel.total

/-- No op is charged and then suspended on the way. -/
def ChargesOnce (cs : List (Choice σ)) (s : State σ) : Prop :=
  Along I.machine (fun c s => c = .go → ¬ I.SuspendsCharged s) cs s

theorem fuel_conserved {cs : List (Choice σ)} {s : State σ} (hcs : ∀ c ∈ cs, ¬ c.SetsFuel) :
    s.store.fuel.total = (run I.machine cs s).store.fuel.total +
      ((marks I.machine cs s).map fun m => m.charged.toNat).sum := by
  induction cs generalizing s with
  | nil => rfl
  | cons c cs ih =>
    have h1 := I.stepWith_total false (hcs c List.mem_cons_self) s
    have h2 := ih (s := (I.machine c s).1) fun c' hc' => hcs c' (List.mem_cons_of_mem _ hc')
    rw [run_cons, marks_cons, List.map_cons, List.sum_cons]
    unfold machine at h2 ⊢
    omega

/-- A run charges at least the ops it executes, and no more iff it charges none twice. -/
theorem charged_eq_executed (hm : I.consumeFuel = true) (cs : List (Choice σ)) (s : State σ) :
    I.executed cs s ≤ ((marks I.machine cs s).map fun m => m.charged.toNat).sum ∧
    (((marks I.machine cs s).map fun m => m.charged.toNat).sum = I.executed cs s ↔
      I.ChargesOnce cs s) := by
  induction cs generalizing s with
  | nil => exact ⟨le_refl 0, fun _ => trivial, fun _ => rfl⟩
  | cons c cs ih =>
    obtain ⟨hle, hiff⟩ := ih (I.machine c s).1
    obtain ⟨hran, hsusp⟩ := I.machine_charged hm c s
    have hexec : I.executed (c :: cs) s =
        (I.machine c s).2.ran.isSome.toNat + I.executed cs (I.machine c s).1 := by
      unfold executed
      rw [marks_cons, List.countP_cons]
      rcases (I.machine c s).2.ran with _ | op
      · exact Nat.add_comm _ _
      · exact Nat.add_comm _ _
    have hone : (I.machine c s).2.ran.isSome.toNat ≤ (I.machine c s).2.charged.toNat ∧
        ((I.machine c s).2.charged.toNat = (I.machine c s).2.ran.isSome.toNat ↔
          (c = .go → ¬ I.SuspendsCharged s)) := by
      rw [← not_and, ← hsusp]
      rcases hr : (I.machine c s).2.ran with _ | op
      · rcases (I.machine c s).2.charged <;> simp
      · rw [hran (by rw [hr]; rfl)]
        simp
    rw [marks_cons, List.map_cons, List.sum_cons, hexec]
    refine ⟨by omega, ?_⟩
    show _ ↔ (c = .go → ¬ I.SuspendsCharged s) ∧ I.ChargesOnce cs (I.machine c s).1
    rw [← hone.2, ← hiff]
    constructor
    · intro h
      constructor <;> omega
    · rintro ⟨h1, h2⟩
      omega

/-- **Fuel metering.**  A metered run in which the embedder does not set the fuel consumes as much
fuel as it executes ops iff it charges no op that it then suspends; and then it finds its fuel
exhausted when it has executed as many ops as it had fuel. -/
theorem fuel_exact (hm : I.consumeFuel = true) {cs : List (Choice σ)} {s : State σ}
    (hcs : ∀ c ∈ cs, ¬ c.SetsFuel) :
    (I.consumed cs s = I.executed cs s ↔ I.ChargesOnce cs s) ∧
    (I.ChargesOnce cs s → ∀ c, (I.machine c (run I.machine cs s)).2.exhausted = true →
      I.executed cs s = s.store.fuel.total) := by
  have htotal := I.fuel_conserved hcs (s := s)
  obtain ⟨-, hiff⟩ := I.charged_eq_executed hm cs s
  have hconsumed : I.consumed cs s =
      ((marks I.machine cs s).map fun m => m.charged.toNat).sum := by
    unfold consumed
    omega
  refine ⟨by rw [hconsumed]; exact hiff, fun honce c hc => ?_⟩
  have hzero := I.machine_exhausted hc
  have := hiff.mpr honce
  omega

/-- Entering a function of one `nop`, executing it and returning from it. -/
def nopRun : List (Choice Unit) :=
  [.call 0 0 (.ofOps [.plain .nop]) [] [] false, .go, .go, .go, .go, .go]

/-- A run that consumes one unit for its one op has charged no op twice. -/
theorem fuel_exact_nop :
    (idle 1000 true false).ChargesOnce nopRun
      (.idle { StoreState.new () with fuel := Fuel.zero.setFuel 2 }) := by
  refine ((idle 1000 true false).fuel_exact rfl fun c hc => ?_).1.mp (by decide)
  simp only [nopRun, List.mem_cons, List.not_mem_nil, or_false] at hc
  rcases hc with rfl | rfl | rfl | rfl | rfl | rfl <;> exact id

/-- A store with one unit of fuel whose epoch deadline has passed, and a run of a single `nop`
whose deadline callback answers `Continue`. -/
def dueState : State Unit :=
  .idle { StoreState.new () with fuel := Fuel.zero.setFuel 1, epochDeadline := 0 }

def dueRun : List (Choice Unit) :=
  [.call 0 0 (.ofOps [.plain .nop]) [] [] false, .go, .go, .go, .deadline (.ok (.continue_ 1)),
    .go, .go]

/-- The only op of the run is charged and suspended, and its second charge finds no fuel. -/
theorem not_fuelExact_deadline :
    (idle 1000 true true).consumed dueRun dueState ≠
      (idle 1000 true true).executed dueRun dueState := by
  decide

end Interp

end SubmilliWasm
