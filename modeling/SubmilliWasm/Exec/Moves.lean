/-
# What single steps do to the pending exception

A turn of a driver leaves the pending exception and the roots alone, or opens a scope that saves
them; the end of a call may install the exception it surfaces; an answer closes the scope the
driver waited in, keeping the slot as it is or restoring what was saved.  One lemma for each
function of the loop says so, and the events a step leaves say which it was.
-/
import SubmilliWasm.Exec.Nest

namespace SubmilliWasm

variable {σ : Type}

/-! ## What a turn does to the slot of the pending exception and the roots -/

/-- Neither the pending exception nor the roots have changed. -/
structure StoreState.SameSlot (st st' : StoreState σ) : Prop where
  pending : st'.pending = st.pending
  generation : st'.pendingGeneration = st.pendingGeneration
  roots : st'.gcRoots = st.gcRoots

/-- The root of a pending exception. -/
def pendingRoot (pending : Option ℕ) : List (ℕ × RefKind) :=
  (pending.map fun exn => (exn, RefKind.exn)).toList

/-- A scope was opened: it saved the slot, and the pending exception was rooted. -/
structure StoreState.Opens (st st' : StoreState σ) (scope : Parked) : Prop where
  scope_eq : scope = ⟨st.gcRoots.length, st.pending, st.pendingGeneration⟩
  pending : st'.pending = st.pending
  generation : st'.pendingGeneration = st.pendingGeneration
  roots : st.gcRoots ++ pendingRoot st.pending <+: st'.gcRoots

namespace StoreState

theorem SameSlot.refl (st : StoreState σ) : SameSlot st st := ⟨rfl, rfl, rfl⟩

theorem SameSlot.trans {st st' st'' : StoreState σ} (h : SameSlot st st')
    (h' : SameSlot st' st'') : SameSlot st st'' :=
  ⟨h'.pending.trans h.pending, h'.generation.trans h.generation, h'.roots.trans h.roots⟩

theorem SameSlot.opens {st st' st'' : StoreState σ} {scope : Parked} (h : SameSlot st st')
    (h' : Opens st' st'' scope) : Opens st st'' scope where
  scope_eq := by rw [h'.scope_eq, h.roots, h.pending, h.generation]
  pending := h'.pending.trans h.pending
  generation := h'.generation.trans h.generation
  roots := by
    have hroots := h'.roots
    rw [h.roots, h.pending] at hroots
    exact hroots

theorem park_opens (st : StoreState σ) : Opens st st.park.2 st.park.1 :=
  ⟨rfl, rfl, rfl, List.prefix_refl _⟩

end StoreState

open StoreState

/-- What a turn that ends in `next` has done. -/
def Next.Slot (st st' : StoreState σ) : Next → Prop
  | .callback call => Opens st st' call.scope
  | _ => SameSlot st st'

theorem Next.Slot.mono {st st' st'' : StoreState σ} {next : Next} (h : SameSlot st st')
    (h' : next.Slot st' st'') : next.Slot st st'' := by
  cases next with
  | callback call => exact h.opens h'
  | loop r | poll r | leave r => exact h.trans h'

theorem Next.slot_of_not_callback {st st' : StoreState σ} {next : Next}
    (hnext : ∀ call, next ≠ .callback call) (h : SameSlot st st') : next.Slot st st' := by
  cases next with
  | callback call => exact absurd rfl (hnext call)
  | loop r | poll r | leave r => exact h

namespace Interp

variable (I : Interp σ)

theorem startHostCall_slot (st : StoreState σ) (e : Execution) (func : ℕ) :
    (I.startHostCall st e func).2.2.Slot st (I.startHostCall st e func).1 := by
  unfold startHostCall prepareHostCall
  simp only
  split
  · rename_i hpop
    split at hpop
    · exact SameSlot.refl st
    · nomatch hpop
  · rename_i call st' e' hprep
    split at hprep
    · nomatch hprep
    · simp only [Except.ok.injEq, Prod.mk.injEq] at hprep
      obtain ⟨rfl, rfl, rfl⟩ := hprep
      exact ⟨rfl, rfl, rfl, List.prefix_append _ _⟩

theorem enterCallee_next (e : Execution) (req : CallReq) (countdown : ℕ) (call : HostCallState) :
    (I.enterCallee e req countdown).2.2 ≠ .callback call := by
  intro h
  unfold enterCallee at h
  split at h
  · nomatch h
  · split at h
    · nomatch h
    · split at h
      · split at h <;> exact nomatch h
      · nomatch h

theorem carryOut_slot (st : StoreState σ) (e : Execution) (r : Regs) (stopDepth countdown : ℕ)
    (out : StepOutcome) : (I.carryOut st e r stopDepth countdown out).2.2.2.Slot st
      (I.carryOut st e r stopDepth countdown out).1 := by
  have hsame : ∀ {next : Next}, (∀ call, next ≠ .callback call) → next.Slot st st :=
    fun hnext => Next.slot_of_not_callback hnext (SameSlot.refl st)
  have hcallee : ∀ e' req, (I.enterCallee e' req countdown).2.2.Slot st st :=
    fun e' req => hsame (I.enterCallee_next e' req countdown)
  have hcases := I.carryOut_cases st e r stopDepth countdown out
  generalize I.carryOut st e r stopDepth countdown out = c at hcases ⊢
  cases hcases with
  | calls _ _ _ => exact hcallee _ _
  | tailCalls _ => exact hcallee _ _
  | hosts _ => exact I.startHostCall_slot st _ _
  | tailHosts _ => exact I.startHostCall_slot st _ _
  | advance _ | fails _ _ | suspends _ _ | tailSuspends _ => exact SameSlot.refl st

theorem reload_next (e : Execution) (call : HostCallState) : reload e ≠ .callback call := by
  intro h
  unfold reload at h
  split at h <;> exact nomatch h

theorem execute_slot (st : StoreState σ) (e : Execution) (r : Regs) (stopDepth countdown : ℕ)
    (op : Op) : (I.execute st e r stopDepth countdown op).next.Slot st
      (I.execute st e r stopDepth countdown op).st := by
  have hrest : ∀ s : σ, SameSlot st { st with rest := s } := fun s => ⟨rfl, rfl, rfl⟩
  unfold execute
  split
  · rename_i e' s err _
    simp only
    refine Next.slot_of_not_callback (fun call h => ?_) (hrest s)
    split at h
    · nomatch h
    · exact reload_next _ call h
  · rename_i e' s out _
    exact Next.Slot.mono (hrest s) (I.carryOut_slot _ _ _ _ _ _)

theorem serviceGates_slot (st : StoreState σ) (e : Execution) (ip : ℕ) :
    SameSlot st (I.serviceGates st e ip).1 := by
  unfold serviceGates
  split
  · split
    · exact ⟨rfl, rfl, rfl⟩
    · exact SameSlot.refl st
    · split <;> exact SameSlot.refl st
  · exact SameSlot.refl st

/-- A turn of the loop leaves the slot and the roots alone, or opens a host call. -/
theorem turn_slot (st : StoreState σ) (e : Execution) (r : Regs) (stopDepth countdown : ℕ) :
    (I.turn st e r stopDepth countdown).next.Slot st (I.turn st e r stopDepth countdown).st := by
  have hgates := I.serviceGates_slot st e r.ip
  unfold turn
  split
  · split
    · exact SameSlot.refl st
    · exact SameSlot.refl st
    · exact Next.slot_of_not_callback (fun call => reload_next _ call) (SameSlot.refl st)
  · split
    · rename_i hg
      rw [hg] at hgates
      exact hgates
    · rename_i hg
      rw [hg] at hgates
      exact hgates
    · rename_i hg
      rw [hg] at hgates
      exact Next.Slot.mono hgates (I.execute_slot _ _ _ _ _ _)

theorem serviceGcPressure_slot (st : StoreState σ) (e : Execution) :
    SameSlot st (I.serviceGcPressure st e).1 := by
  unfold serviceGcPressure
  split
  · split <;> exact ⟨rfl, rfl, rfl⟩
  · exact SameSlot.refl st

end Interp

/-! ## What a turn of a driver does -/

/-- A driver of the same call. -/
structure Drive.Kin (d d' : Drive) : Prop where
  scope : d'.scope = d.scope
  boundary : d'.boundary = d.boundary

/-- A driver that has not come to its end goes on or waits for an async limiter, or it opens a scope
and waits. -/
inductive Moves (st : StoreState σ) (d : Drive) : State σ → Prop where
  | on {st' : StoreState σ} {slot : Execution} {d' : Drive} {guest : Bool} : SameSlot st st' →
      d.Kin d' → d'.pc.scope = none → Moves st d ⟨st', slot, [d'], guest⟩
  | opens {st' : StoreState σ} {slot : Execution} {d' : Drive} {scope : Parked} :
      Opens st st' scope → d.Kin d' → d'.pc.scope = some scope →
      Moves st d ⟨st', slot, [d'], false⟩

namespace Interp

variable (I : Interp σ)

theorem runHead_scope (d : Drive) : (I.runHead d).scope = none := by
  unfold runHead
  split
  · rfl
  · split
    · rfl
    · split
      · rfl
      · split <;> rfl

theorem turnStep_moves (st : StoreState σ) (slot : Execution) (d : Drive) (r : Regs) :
    Moves st d (I.turnStep ⟨st, slot, [d], true⟩ d [] r).1 := by
  have hslot := I.turn_slot st d.exec r d.boundary.runStop d.countdown
  unfold turnStep
  simp only
  split
  · rename_i r' hr'
    rw [hr'] at hslot
    exact .on hslot ⟨rfl, rfl⟩ rfl
  · rename_i r' hr'
    rw [hr'] at hslot
    exact .on hslot ⟨rfl, rfl⟩ rfl
  · rename_i call hcall
    rw [hcall] at hslot
    exact .opens hslot ⟨rfl, rfl⟩ rfl
  · rename_i o ho
    rw [ho] at hslot
    exact .on hslot ⟨rfl, rfl⟩ rfl
  · rename_i err herr
    rw [herr] at hslot
    exact .on hslot ⟨rfl, rfl⟩ rfl

theorem askLimiter_moves (st : StoreState σ) (slot : Execution) (d : Drive) (g : Growth)
    (withScope : Bool) :
    Moves st d (askLimiter ⟨st, slot, [d], true⟩ d [] g withScope) := by
  cases withScope with
  | true => exact .opens (park_opens st) ⟨rfl, rfl⟩ rfl
  | false => exact .on (SameSlot.refl st) ⟨rfl, rfl⟩ rfl

theorem serve_moves (st : StoreState σ) (slot : Execution) (d : Drive) (o : RunOutcome) :
    Moves st d (I.serve false ⟨st, slot, [d], true⟩ d [] o) := by
  cases o with
  | finished => exact .on (SameSlot.refl st) ⟨rfl, rfl⟩ rfl
  | hostAsync func inst =>
    have hprep : ∀ {call st' e}, I.prepareHostCall st d.exec func = .ok (call, st', e) →
        Opens st st' call.scope := by
      intro call st' e hok
      have h := I.startHostCall_slot st d.exec func
      rw [startHostCall, hok] at h
      exact h
    unfold serve
    simp only
    split
    · split
      · exact .on (SameSlot.refl st) ⟨rfl, rfl⟩ rfl
      · rename_i hok
        exact .opens (hprep hok) ⟨rfl, rfl⟩ rfl
    · exact .on (SameSlot.refl st) ⟨rfl, rfl⟩ rfl
  | fuelYield =>
    unfold serve
    simp only
    split
    · exact .on ⟨rfl, rfl, rfl⟩ ⟨rfl, rfl⟩ rfl
    · exact .on (SameSlot.refl st) ⟨rfl, rfl⟩ rfl
  | epochDeadline => exact .opens (park_opens st) ⟨rfl, rfl⟩ rfl
  | grow memory delta => exact askLimiter_moves st slot d _ _
  | tableGrow table delta init => exact askLimiter_moves st slot d _ _
  | gcGrow target bytes => exact askLimiter_moves st slot d _ _

/-- The step of a driver: it moves, or it is at its end. -/
theorem guestStep_moves (st : StoreState σ) (slot : Execution) (d : Drive)
    (hdone : ∀ r, d.pc ≠ .done r) (hwaits : d.pc.scope = none) :
    Moves st d (I.guestStep false ⟨st, slot, [d], true⟩ d []).1 := by
  unfold guestStep
  split
  · exact .on (SameSlot.refl st) ⟨rfl, rfl⟩ (I.runHead_scope d)
  · exact I.turnStep_moves st slot d _
  · have hslot := I.serviceGcPressure_slot st d.exec
    simp only
    split
    · rename_i hg
      rw [hg] at hslot
      exact .on hslot ⟨rfl, rfl⟩ rfl
    · rename_i hg
      rw [hg] at hslot
      exact .on hslot ⟨rfl, rfl⟩ rfl
  · exact I.serve_moves st slot d _
  · rename_i r hr
    exact absurd hr (hdone r)
  · exact .on (SameSlot.refl st) ⟨rfl, rfl⟩ hwaits

end Interp

/-! ## The beginning of a call -/

/-- A call is refused, or its driver stands at the head of `run`; an async one has opened a
scope. -/
theorem Interp.enter_slot (st : StoreState σ) (slot : Execution) (inst funcIndex : ℕ)
    (code : CompiledFunc) (args : List Val) (resultTys : List ValType) (isAsync : Bool) :
    (∃ st' slot', Interp.enter ⟨st, slot, [], false⟩ inst funcIndex code args resultTys isAsync =
      ⟨st', slot', [], false⟩ ∧ SameSlot st st') ∨
    ∃ st' d, Interp.enter ⟨st, slot, [], false⟩ inst funcIndex code args resultTys isAsync =
      ⟨st', .empty, [d], true⟩ ∧ d.pc = .run false ∧
      ((isAsync = false ∧ d.scope = none ∧ SameSlot st st') ∨
        ∃ scope, isAsync = true ∧ d.scope = some scope ∧ Opens st st' scope) := by
  unfold Interp.enter
  split
  · left
    split
    · exact ⟨_, _, rfl, rfl, rfl, rfl⟩
    · exact ⟨_, _, rfl, SameSlot.refl st⟩
  · dsimp only
    split
    · exact Or.inl ⟨_, _, rfl, SameSlot.refl st⟩
    · right
      cases isAsync with
      | false => exact ⟨_, _, rfl, rfl, Or.inl ⟨rfl, rfl, SameSlot.refl st⟩⟩
      | true => exact ⟨_, _, rfl, rfl, Or.inr ⟨_, rfl, rfl, park_opens st⟩⟩

/-! ## The end of a call, and answers -/

/-- The slot after the events of a step that opens and closes no scope. -/
def StoreState.Installs (st st' : StoreState σ) : List PendingEvent → Prop
  | [] => st'.pending = st.pending ∧ st'.pendingGeneration = st.pendingGeneration
  | [.installed exn] => st'.pending = some exn ∧
      st'.pendingGeneration = (st.pendingGeneration + 1) % 2 ^ 64
  | _ => False

/-- The slot after a scope was closed. -/
def StoreState.Closes (scope : Parked) (st st' : StoreState σ) : PendingEvent → Prop
  | .kept => st'.pending = st.pending ∧ st'.pendingGeneration = st.pendingGeneration
  | .undone => st'.pending = scope.pending ∧ st'.pendingGeneration = scope.pendingGeneration
  | _ => False

namespace Hosted

variable (H : Hosted σ)

theorem close_slot (st : StoreState σ) (d : Drive) (r : Except ExecError Unit) :
    Installs st (H.close st d r).1 (H.surfaced st d r) ∧
      st.gcRoots <+: (H.close st d r).1.gcRoots := by
  have hsame : Installs st st [] := ⟨rfl, rfl⟩
  unfold Interp.close
  simp only
  cases r with
  | ok u =>
    show Installs st _ [] ∧ _
    rcases d.exec.takeResults d.boundary.valueBase d.boundary.stopDepth d.resultTys
      with err | ⟨cells, e⟩
    · rcases d.exec.discardTo d.boundary.valueBase d.boundary.stopDepth with cleanup | e
      · exact ⟨hsame, List.prefix_refl _⟩
      · exact ⟨hsame, List.prefix_refl _⟩
    · simp only
      rcases H.decodeResults st.rest d.resultTys cells with err | roots
      · exact ⟨hsame, List.prefix_refl _⟩
      · exact ⟨⟨rfl, rfl⟩, List.prefix_append _ _⟩
  | error err =>
    unfold surfaced Interp.surfaceException
    cases err with
    | pending exn =>
      simp only
      rcases d.exec.discardTo d.boundary.valueBase d.boundary.stopDepth with cleanup | e
      · exact ⟨hsame, List.prefix_refl _⟩
      · rcases H.exn st.rest exn with err | found
        · exact ⟨hsame, List.prefix_refl _⟩
        · exact ⟨⟨rfl, rfl⟩, List.prefix_refl _⟩
    | stackOverflow | outOfFuel | interrupt | unreachable | nullReference | trap _ | thrown
    | operandStack _ | frameStack _ | resultShape _ | gcMetadata _ | compiler _ | msg _ =>
      rcases d.exec.discardTo d.boundary.valueBase d.boundary.stopDepth with cleanup | e
      · exact ⟨hsame, List.prefix_refl _⟩
      · exact ⟨hsame, List.prefix_refl _⟩

/-- The roots a call leaves to its caller, but for those of its results. -/
def outerRoots (st : StoreState σ) (d : Drive) : List (ℕ × RefKind) :=
  match d.scope with
  | some scope => st.gcRoots.take scope.rootsMark
  | none => st.gcRoots

theorem latch_slot {st st' : StoreState σ} {evs : List PendingEvent} (h : Installs st st' evs)
    (err : ExecError) : Installs st (st'.latchInternalError err) evs ∧
      (st'.latchInternalError err).gcRoots = st'.gcRoots := by
  unfold latchInternalError
  split
  · exact ⟨h, rfl⟩
  · exact ⟨h, rfl⟩

/-- A call that ends leaves the slot as it is, or installs the exception it surfaces. -/
theorem finish_slot (st : StoreState σ) (slot : Execution) (d : Drive)
    (r : Except ExecError Unit) : ∃ st' slot',
      H.finish ⟨st, slot, [d], true⟩ d [] r = ⟨st', slot', [], false⟩ ∧
      Installs st st' (H.surfaced st d r) ∧ outerRoots st d <+: st'.gcRoots := by
  -- The boundary is left in the same way, whatever the roots were cut to before.
  have hleft : ∀ (x : StoreState σ × Execution × Except ExecError Unit) (st'' : StoreState σ),
      Installs st x.1 (H.surfaced st d r) → outerRoots st d <+: x.1.gcRoots →
      (st'' = x.1 ∨ ∃ err, st'' = x.1.latchInternalError err) →
      ∃ st' slot', (if d.boundary.stopDepth = 0 then
          { store := x.1, slot := slot, drives := [], guest := false }
        else
          { store := st'', slot := x.2.1, drives := [], guest := false } : State σ) =
          ⟨st', slot', [], false⟩ ∧
        Installs st st' (H.surfaced st d r) ∧ outerRoots st d <+: st'.gcRoots := by
    intro x st'' hslot hroots hst
    split
    · exact ⟨_, _, rfl, hslot, hroots⟩
    · rcases hst with rfl | ⟨err, rfl⟩
      · exact ⟨_, _, rfl, hslot, hroots⟩
      · refine ⟨_, _, rfl, (latch_slot hslot err).1, ?_⟩
        rw [(latch_slot hslot err).2]
        exact hroots
  unfold Interp.finish
  cases hscope : d.scope with
  | none =>
    have hclose := H.close_slot st d r
    refine hleft (H.close st d r) _ hclose.1 ?_ ?_
    · rw [outerRoots, hscope]
      exact hclose.2
    · split
      · split
        · exact .inr ⟨_, rfl⟩
        · exact .inl rfl
      · exact .inl rfl
  | some scope =>
    have hclose := H.close_slot (st.truncateRoots scope.rootsMark) d r
    refine hleft (H.close (st.truncateRoots scope.rootsMark) d r) _ hclose.1 ?_ ?_
    · rw [outerRoots, hscope]
      exact hclose.2
    · split
      · split
        · exact .inr ⟨_, rfl⟩
        · exact .inl rfl
      · exact .inl rfl

/-- What follows a callback closes its scope. -/
theorem afterCallback_slot (st : StoreState σ) (e : Execution) (call : HostCallState)
    (r : Except ExecError (List Val)) (stopDepth : ℕ) :
    (H.afterCallback st e call r stopDepth).1.gcRoots = st.gcRoots.take call.scope.rootsMark ∧
    Closes call.scope st (H.afterCallback st e call r stopDepth).1
      (closing (H.returnUndoes st call.scope call.sig.results r)) := by
  unfold Interp.afterCallback returnUndoes
  cases herr : st.internalError with
  | some err => exact ⟨rfl, rfl, rfl⟩
  | none =>
    unfold Interp.finishHostCall
    cases r with
    | error err =>
      simp only
      by_cases hfresh : err = .thrown ∧ st.pendingGeneration ≠ call.scope.pendingGeneration
      · rw [if_pos hfresh]
        have hundoes : (Option.isSome (none : Option ExecError) ||
            (decide (err = .thrown) &&
              decide (st.pendingGeneration ≠ call.scope.pendingGeneration))) = true := by
          simp [hfresh.1, hfresh.2]
        rw [hundoes]
        cases st.pending with
        | none => exact ⟨rfl, rfl, rfl⟩
        | some exn => exact ⟨rfl, rfl, rfl⟩
      · rw [if_neg hfresh]
        have hkeeps : (Option.isSome (none : Option ExecError) ||
            (decide (err = .thrown) &&
              decide (st.pendingGeneration ≠ call.scope.pendingGeneration))) = false := by
          rw [← Bool.decide_and]
          exact decide_eq_false hfresh
        rw [hkeeps]
        exact ⟨rfl, rfl, rfl⟩
    | ok results =>
      simp only
      rcases H.valuesMatch st.rest results call.sig.results with err | _
      · exact ⟨rfl, rfl, rfl⟩
      · exact ⟨rfl, rfl, rfl⟩

/-- The roots after the scope a driver waited in was closed. -/
def cutRoots (st : StoreState σ) (d : Drive) : List (ℕ × RefKind) :=
  match d.pc.scope with
  | some scope => st.gcRoots.take scope.rootsMark
  | none => st.gcRoots

/-- What the events of an answer say of the slot. -/
def Answers (st st' : StoreState σ) (d : Drive) (evs : List PendingEvent) : Prop :=
  match d.pc.scope with
  | some scope => ∃ ev, evs = [ev] ∧ Closes scope st st' ev
  | none => evs = [] ∧ st'.pending = st.pending ∧ st'.pendingGeneration = st.pendingGeneration

/-- An answer gives the driver that waits its execution back and closes the scope it waited in. -/
theorem answer_slot (a : Act σ) (st : StoreState σ) (slot : Execution) (d : Drive)
    (ha : awaits a d.pc = true) : ∃ st' d',
      H.answer a ⟨st, slot, [d], false⟩ d = ⟨st', d.exec, [d'], true⟩ ∧ d.Kin d' ∧
      d'.pc.scope = none ∧ st'.gcRoots = cutRoots st d ∧
      Answers st st' d (H.driverEvents a st d) := by
  unfold cutRoots Answers
  cases hpc : d.pc with
  | run _ | loop _ | poll _ | serve _ | done _ =>
    rw [hpc] at ha
    cases a <;> exact absurd ha Bool.false_ne_true
  | hostFn call =>
    rw [hpc] at ha
    cases a with
    | ret r =>
      obtain ⟨hroots, hcloses⟩ := H.afterCallback_slot st slot call r d.boundary.runStop
      unfold answer Interp.returned driverEvents
      simp only [hpc]
      generalize H.afterCallback st slot call r d.boundary.runStop = x at hroots hcloses ⊢
      obtain ⟨st', e, err | _⟩ := x
      · exact ⟨_, _, rfl, ⟨rfl, rfl⟩, rfl, hroots, _, rfl, hcloses⟩
      · simp only
        split
        · exact ⟨_, _, rfl, ⟨rfl, rfl⟩, rfl, hroots, _, rfl, hcloses⟩
        · split
          · exact ⟨_, _, rfl, ⟨rfl, rfl⟩, rfl, hroots, _, rfl, hcloses⟩
          · exact ⟨_, _, rfl, ⟨rfl, rfl⟩, rfl, hroots, _, rfl, hcloses⟩
    | go | tick | post | call _ _ _ _ _ _ | callHost _ _ | throw_ _ | take | use _ _ _ | peek _
    | openScope | closeScope | grown _ _ | deadline _ | panic | drop =>
      exact absurd ha Bool.false_ne_true
  | hostFnAsync call =>
    rw [hpc] at ha
    cases a with
    | ret r =>
      obtain ⟨hroots, hcloses⟩ := H.afterCallback_slot st slot call r d.boundary.runStop
      unfold answer Interp.returned driverEvents
      simp only [hpc]
      generalize H.afterCallback st slot call r d.boundary.runStop = x at hroots hcloses ⊢
      obtain ⟨st', e, err | _⟩ := x
      · exact ⟨_, _, rfl, ⟨rfl, rfl⟩, rfl, hroots, _, rfl, hcloses⟩
      · have hpressed : ∃ st'' o, (if H.gcWatch = true then H.serviceGcPressure st' e
            else (st', .ok ())) = (st'', o) ∧ SameSlot st' st'' := by
          by_cases hwatch : H.gcWatch = true
          · rw [if_pos hwatch]
            exact ⟨_, _, rfl, H.serviceGcPressure_slot st' e⟩
          · rw [if_neg hwatch]
            exact ⟨_, _, rfl, SameSlot.refl st'⟩
        obtain ⟨st'', o, hst'', hsame⟩ := hpressed
        have hcloses' : Closes call.scope st st''
            (closing (H.returnUndoes st call.scope call.sig.results r)) := by
          unfold Closes at hcloses ⊢
          rw [hsame.pending, hsame.generation]
          exact hcloses
        simp only [hst'']
        rcases o with err | _
        · exact ⟨_, _, rfl, ⟨rfl, rfl⟩, rfl, hsame.roots.trans hroots, _, rfl, hcloses'⟩
        · exact ⟨_, _, rfl, ⟨rfl, rfl⟩, rfl, hsame.roots.trans hroots, _, rfl, hcloses'⟩
    | go | tick | post | call _ _ _ _ _ _ | callHost _ _ | throw_ _ | take | use _ _ _ | peek _
    | openScope | closeScope | grown _ _ | deadline _ | panic | drop =>
      exact absurd ha Bool.false_ne_true
  | limiter g scope =>
    rw [hpc] at ha
    cases a with
    | grown rest r =>
      unfold answer Interp.grown driverEvents
      simp only [hpc]
      cases scope with
      | none =>
        cases r with
        | error err => exact ⟨_, _, rfl, ⟨rfl, rfl⟩, rfl, rfl, rfl, rfl, rfl⟩
        | ok old => exact ⟨_, _, rfl, ⟨rfl, rfl⟩, rfl, rfl, rfl, rfl, rfl⟩
      | some scope =>
        cases r with
        | error err => exact ⟨_, _, rfl, ⟨rfl, rfl⟩, rfl, rfl, _, rfl, rfl, rfl⟩
        | ok old => exact ⟨_, _, rfl, ⟨rfl, rfl⟩, rfl, rfl, _, rfl, rfl, rfl⟩
    | go | tick | post | call _ _ _ _ _ _ | callHost _ _ | throw_ _ | take | use _ _ _ | peek _
    | openScope | closeScope | ret _ | deadline _ | panic | drop =>
      exact absurd ha Bool.false_ne_true
  | epochCallback scope =>
    rw [hpc] at ha
    cases a with
    | deadline r =>
      unfold answer Interp.applyEpochDeadline driverEvents
      simp only [hpc]
      have hinternal : (st.truncateRoots scope.rootsMark).internalError = st.internalError := rfl
      rw [hinternal]
      cases st.internalError with
      | some err => exact ⟨_, _, rfl, ⟨rfl, rfl⟩, rfl, rfl, _, rfl, rfl, rfl⟩
      | none =>
        rcases r with err | _ | delta | delta
        · exact ⟨_, _, rfl, ⟨rfl, rfl⟩, rfl, rfl, _, rfl, rfl, rfl⟩
        · exact ⟨_, _, rfl, ⟨rfl, rfl⟩, rfl, rfl, _, rfl, rfl, rfl⟩
        · exact ⟨_, _, rfl, ⟨rfl, rfl⟩, rfl, rfl, _, rfl, rfl, rfl⟩
        · simp only
          split
          · exact ⟨_, _, rfl, ⟨rfl, rfl⟩, rfl, rfl, _, rfl, rfl, rfl⟩
          · exact ⟨_, _, rfl, ⟨rfl, rfl⟩, rfl, rfl, _, rfl, rfl, rfl⟩
    | go | tick | post | call _ _ _ _ _ _ | callHost _ _ | throw_ _ | take | use _ _ _ | peek _
    | openScope | closeScope | ret _ | grown _ _ | panic | drop =>
      exact absurd ha Bool.false_ne_true

/-- Latching an error touches neither the slot nor the roots. -/
theorem latchParked_slot (st : StoreState σ) (slot : Execution) (err : ExecError) :
    SameSlot st (Nest.latchParked st slot err) := by
  unfold Nest.latchParked latchInternalError
  split
  · split
    · exact SameSlot.refl st
    · exact ⟨rfl, rfl, rfl⟩
  · exact SameSlot.refl st

/-- The end of a direct call closes its scope; only the results are rooted above it. -/
theorem finishDirect_slot (st : StoreState σ) (slot : Execution) (b : DirectCall)
    (r : Except ExecError (List Val)) :
    st.gcRoots.take b.scope.rootsMark <+: (H.finishDirect st slot b r).1.gcRoots ∧
    Closes b.scope st (H.finishDirect st slot b r).1 (closing (H.directUndoes st b r)) := by
  have hundone : ∀ {st' : StoreState σ}, SameSlot st st' →
      SameSlot ((st.truncateRoots b.scope.rootsMark).restorePending b.scope)
        ((st'.truncateRoots b.scope.rootsMark).restorePending b.scope) :=
    fun h => ⟨rfl, rfl, congrArg (List.take _) h.roots⟩
  have hclosed : ∀ {st' : StoreState σ},
      SameSlot ((st.truncateRoots b.scope.rootsMark).restorePending b.scope) st' →
      st.gcRoots.take b.scope.rootsMark <+: st'.gcRoots ∧ Closes b.scope st st' .undone := by
    intro st' h
    refine ⟨?_, h.pending, h.generation⟩
    rw [h.roots]
    exact List.prefix_refl _
  unfold finishDirect directUndoes
  cases herr : st.internalError with
  | some err =>
    refine hclosed (hundone ?_)
    split
    · exact ⟨rfl, rfl, rfl⟩
    · exact SameSlot.refl st
  | none =>
    cases r with
    | error err =>
      simp only
      by_cases hfresh : err = .thrown ∧ st.pendingGeneration ≠ b.scope.pendingGeneration ∧
          st.pending = none
      · rw [if_pos hfresh]
        have hundoes : (Option.isSome (none : Option ExecError) || (decide (err = .thrown) &&
            decide (st.pendingGeneration ≠ b.scope.pendingGeneration) &&
            decide (st.pending = none))) = true := by
          simp [hfresh.1, hfresh.2.1, hfresh.2.2]
        rw [hundoes]
        exact hclosed (latchParked_slot _ slot _)
      · rw [if_neg hfresh]
        have hkeeps : (Option.isSome (none : Option ExecError) || (decide (err = .thrown) &&
            decide (st.pendingGeneration ≠ b.scope.pendingGeneration) &&
            decide (st.pending = none))) = false := by
          rw [Bool.and_assoc, ← Bool.decide_and, ← Bool.decide_and]
          exact decide_eq_false hfresh
        rw [hkeeps]
        exact ⟨List.prefix_refl _, rfl, rfl⟩
    | ok results =>
      simp only
      rcases H.valuesMatch st.rest results b.resultTys with err | _
      · exact hclosed (hundone (latchParked_slot st slot err))
      · simp only
        rcases H.handOut st.rest results with err | roots
        · exact hclosed (latchParked_slot _ slot err)
        · exact ⟨List.prefix_append _ _, rfl, rfl⟩

end Hosted

end SubmilliWasm
