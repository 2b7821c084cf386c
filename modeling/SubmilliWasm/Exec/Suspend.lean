/-
# Transparency of suspensions

A growth, an epoch deadline and a fuel yield leave the loop with an outcome, and the driver that
has served it enters `run` again.  The machine of the source is compared with one that takes the
same decision and goes on in the loop, at the resume point that was saved (an op suspended before
it took effect is executed again by both).

What the source does in addition is to repeat the checks at the head of `run` and to start the
count of guest calls anew.  Where neither shows, every run of the source is a run of the other.
Up to the first time `run` is entered again the counts are the same, and whatever the mailbox asks
for is done by both.
-/
import SubmilliWasm.Exec.Isolation

namespace SubmilliWasm

open Runs

variable {σ : Type}

/-! ## The count of guest calls -/

/-- The same turn comes next, after a check of the mailbox if it is watched. -/
def Next.Turns (watch : Bool) (r : Regs) (n : Next) : Prop :=
  n = .loop r ∨ (watch = true ∧ n = .poll r)

/-- Both go on at the same place; where the counts may differ, one of them may check the mailbox
before. -/
def Next.Agrees (drift watch : Bool) (n n' : Next) : Prop :=
  n = n' ∨ (drift = true ∧ ∃ r, n.Turns watch r ∧ n'.Turns watch r)

namespace Interp

variable (I : Interp σ) {drift : Bool}

theorem enterCallee_countdown (e : Execution) (req : CallReq) (k k' : ℕ) :
    (I.enterCallee e req k).1 = (I.enterCallee e req k').1 ∧
      (I.enterCallee e req k).2.2.Agrees true I.gcWatch (I.enterCallee e req k').2.2 := by
  unfold enterCallee
  split
  · exact ⟨rfl, Or.inl rfl⟩
  · split
    · exact ⟨rfl, Or.inl rfl⟩
    · rename_i r _
      split
      · rename_i hwatch
        have hturns : ∀ n, n = .loop r ∨ n = .poll r → Next.Turns I.gcWatch r n :=
          fun n hn => hn.imp_right fun hpoll => ⟨hwatch, hpoll⟩
        split <;> split <;> exact ⟨rfl, Or.inr ⟨rfl, r, hturns _ (by simp), hturns _ (by simp)⟩⟩
      · exact ⟨rfl, Or.inl rfl⟩

theorem carryOut_countdown (st : StoreState σ) (e : Execution) (r : Regs) (stopDepth k k' : ℕ)
    (out : StepOutcome) :
    (I.carryOut st e r stopDepth k out).1 = (I.carryOut st e r stopDepth k' out).1 ∧
      (I.carryOut st e r stopDepth k out).2.1 = (I.carryOut st e r stopDepth k' out).2.1 ∧
      (I.carryOut st e r stopDepth k out).2.2.2.Agrees true I.gcWatch
        (I.carryOut st e r stopDepth k' out).2.2.2 := by
  cases out with
  | advance _ | doHostAsyncCall _ _ _ | doGrow _ _ _ | doTableGrow _ _ _ _ | doGcGrow _ _ _ =>
    exact ⟨rfl, rfl, Or.inl rfl⟩
  | doCall req =>
    unfold carryOut
    dsimp only
    split
    · exact ⟨rfl, rfl, Or.inl rfl⟩
    · split
      · exact ⟨rfl, rfl, Or.inl rfl⟩
      · split
        · exact ⟨rfl, rfl, Or.inl rfl⟩
        · exact ⟨rfl, I.enterCallee_countdown _ req k k'⟩
  | doTailCall req =>
    unfold carryOut
    dsimp only
    split
    · exact ⟨rfl, rfl, Or.inl rfl⟩
    · exact ⟨rfl, I.enterCallee_countdown _ req k k'⟩
  | doHostCall func inst returnIp =>
    unfold carryOut
    dsimp only
    split <;> exact ⟨rfl, rfl, Or.inl rfl⟩
  | doTailHostCall func inst nParams =>
    unfold carryOut
    dsimp only
    split <;> exact ⟨rfl, rfl, Or.inl rfl⟩
  | doTailHostAsyncCall func inst nParams =>
    unfold carryOut
    dsimp only
    split <;> exact ⟨rfl, rfl, Or.inl rfl⟩

/-- What a turn does depends on the count only in whether the mailbox is checked next. -/
theorem turn_countdown (st : StoreState σ) (e : Execution) (r : Regs) (stopDepth : ℕ) {k k' : ℕ}
    (hk : drift = false → k' = k) :
    let t := I.turn st e r stopDepth k
    let t' := I.turn st e r stopDepth k'
    t.st = t'.st ∧ t.exec = t'.exec ∧ (drift = false → t'.countdown = t.countdown) ∧
      t.next.Agrees drift I.gcWatch t'.next ∧ t.mark = t'.mark := by
  intro t t'
  cases drift with
  | false =>
    obtain rfl := hk rfl
    exact ⟨rfl, rfl, fun _ => rfl, Or.inl rfl, rfl⟩
  | true =>
    unfold t t' turn
    split
    · split <;> exact ⟨rfl, rfl, fun h => Bool.noConfusion h, Or.inl rfl, rfl⟩
    · split
      · exact ⟨rfl, rfl, fun h => Bool.noConfusion h, Or.inl rfl, rfl⟩
      · exact ⟨rfl, rfl, fun h => Bool.noConfusion h, Or.inl rfl, rfl⟩
      · unfold execute
        split
        · exact ⟨rfl, rfl, fun h => Bool.noConfusion h, Or.inl rfl, rfl⟩
        · obtain ⟨hst, he, hnext⟩ := I.carryOut_countdown _ _ r stopDepth k k' _
          exact ⟨hst, he, fun h => Bool.noConfusion h, hnext, rfl⟩

/-! ## Corresponding states -/

/-- The machine that takes every decision of the embedder's code without leaving the loop. -/
def inlineMachine : Choice σ → State σ → State σ × Mark := I.stepWith true

end Interp

/-- The driver's next turn is at `r`, after a check of the mailbox if it is watched. -/
def Pc.Turns (watch : Bool) (r : Regs) (p : Pc) : Prop :=
  p = .loop r ∨ (watch = true ∧ p = .poll r)

theorem Next.Turns.exists_pc {watch : Bool} {r : Regs} {n : Next} (h : n.Turns watch r) :
    ∃ p : Pc, p.Turns watch r ∧ ((n = .loop r ∧ p = .loop r) ∨ (n = .poll r ∧ p = .poll r)) := by
  rcases h with hloop | ⟨hwatch, hpoll⟩
  · exact ⟨.loop r, Or.inl rfl, Or.inl ⟨hloop, rfl⟩⟩
  · exact ⟨.poll r, Or.inr ⟨hwatch, rfl⟩, Or.inr ⟨hpoll, rfl⟩⟩

/-- Two places of a driver whose execution is `e`: the same one, or on the way to the same turn of
the loop; an inline run is on this way where the source is about to enter `run` again. -/
def Pc.Agrees (drift watch inline : Bool) (e : Execution) (p q : Pc) : Prop :=
  p = q ∨ ∃ r, ((drift = true ∧ p.Turns watch r) ∨
    (inline = true ∧ p = .run true ∧ e.top = .ok r)) ∧ q.Turns watch r

/-- The drivers differ in nothing but the count of guest calls and the way to the next turn, and in
the count only once it may have drifted. -/
def Drive.Agrees (drift watch inline : Bool) (d d' : Drive) : Prop :=
  ∃ k q, d' = { d with countdown := k, pc := q } ∧ (drift = false → k = d.countdown) ∧
    d.pc.Agrees drift watch inline d.exec q

/-- The stores, the stacks, who has control and every outcome are the same. -/
def State.Agrees (drift watch inline : Bool) (s t : State σ) : Prop :=
  ∃ ds, t = { s with drives := ds } ∧ List.Forall₂ (Drive.Agrees drift watch inline) s.drives ds

variable {drift watch inline : Bool}

theorem Drive.Agrees.refl (d : Drive) : d.Agrees drift watch inline d :=
  ⟨d.countdown, d.pc, rfl, fun _ => rfl, Or.inl rfl⟩

theorem State.Agrees.refl (s : State σ) : s.Agrees drift watch inline s :=
  ⟨s.drives, rfl, List.forall₂_same.mpr fun d _ => .refl d⟩

/-- Counts that are the same may drift. -/
theorem Drive.Agrees.or_drifts {d d' : Drive} (h : d.Agrees drift watch inline d') (b : Bool) :
    d.Agrees (b || drift) watch inline d' := by
  obtain ⟨k, q, hd, hk, hpc⟩ := h
  refine ⟨k, q, hd, fun h => hk (Bool.or_eq_false_iff.mp h).2, hpc.imp_right ?_⟩
  rintro ⟨r, hp, hq⟩
  exact ⟨r, hp.imp_left fun hp => ⟨by rw [hp.1, Bool.or_true], hp.2⟩, hq⟩

theorem forall₂_or_drifts {ds ds' : List Drive}
    (h : List.Forall₂ (Drive.Agrees drift watch inline) ds ds') (b : Bool) :
    List.Forall₂ (Drive.Agrees (b || drift) watch inline) ds ds' :=
  h.imp fun _ _ h => h.or_drifts b

theorem State.Agrees.or_drifts {s t : State σ} (h : s.Agrees drift watch inline t) (b : Bool) :
    s.Agrees (b || drift) watch inline t := by
  obtain ⟨ds, ht, hds⟩ := h
  exact ⟨ds, ht, forall₂_or_drifts hds b⟩

theorem State.Agrees.cons {st : StoreState σ} {slot : Execution} {guest : Bool} {d d' : Drive}
    {ds ds' : List Drive} (hd : d.Agrees drift watch inline d')
    (hds : List.Forall₂ (Drive.Agrees drift watch inline) ds ds') :
    State.Agrees drift watch inline ⟨st, slot, d :: ds, guest⟩ ⟨st, slot, d' :: ds', guest⟩ :=
  ⟨d' :: ds', rfl, .cons hd hds⟩

/-! ## A step of both -/

/-- What a mark shows of a step. -/
def Mark.shown (m : Mark) : List Mark := if m = .silent then [] else [m]

/-- The decisions of the embedder's code and the other threads. -/
def Choice.decision : Choice σ → List (Choice σ)
  | .go => []
  | c => [c]

theorem Inside.top_of_ne {entry e : Execution} {inner : List Frame} (hin : Inside entry inner e)
    (hne : inner ≠ []) : ∃ r, e.top = .ok r := by
  cases inner with
  | nil => exact absurd rfl hne
  | cons f fs => exact ⟨_, hin.top_cons⟩

namespace Interp

variable (I : Interp σ) {d : Drive} {ds ds' : List Drive}

theorem turnStep_agrees (hds : List.Forall₂ (Drive.Agrees drift I.gcWatch inline) ds ds')
    (st : StoreState σ) (slot : Execution) (all all' : List Drive) (r : Regs) {k : ℕ}
    (hk : drift = false → k = d.countdown) (q : Pc) :
    let s' := I.turnStep ⟨st, slot, all, true⟩ d ds r
    let t' := I.turnStep ⟨st, slot, all', true⟩ { d with countdown := k, pc := q } ds' r
    s'.1.Agrees drift I.gcWatch inline t'.1 ∧ s'.2 = t'.2 := by
  obtain ⟨hst, he, hcount, hnext, hmark⟩ := I.turn_countdown st d.exec r d.boundary.runStop hk
  intro s' t'
  unfold s' t' turnStep
  dsimp only
  generalize I.turn st d.exec r d.boundary.runStop d.countdown = u at *
  generalize I.turn st d.exec r d.boundary.runStop k = u' at *
  obtain ⟨st1, e1, k1, n1, m1⟩ := u
  obtain ⟨st2, e2, k2, n2, m2⟩ := u'
  dsimp only at hst he hcount hnext hmark
  subst hst he hmark
  rcases hnext with rfl | ⟨hdrift, r', hn, hn'⟩
  · cases n1 with
    | loop _ | poll _ | callback _ => exact ⟨.cons ⟨_, _, rfl, hcount, Or.inl rfl⟩ hds, rfl⟩
    | leave out => cases out <;> exact ⟨.cons ⟨_, _, rfl, hcount, Or.inl rfl⟩ hds, rfl⟩
  · obtain ⟨p, hp, ⟨rfl, rfl⟩ | ⟨rfl, rfl⟩⟩ := hn.exists_pc
    all_goals
      obtain ⟨p', hp', ⟨rfl, rfl⟩ | ⟨rfl, rfl⟩⟩ := hn'.exists_pc
      all_goals
        exact ⟨.cons ⟨_, _, rfl, hcount, Or.inr ⟨r', Or.inl ⟨hdrift, hp⟩, hp'⟩⟩ hds, rfl⟩

variable {e entry : Execution} {inner : List Frame}

/-- Both resume at the same place, where there is a frame to resume. -/
theorem resume_agrees {r : Regs} (htop : e.top = .ok r) :
    (resume false e).Agrees drift watch inline e (resume inline e) := by
  cases inline with
  | false => exact Or.inl rfl
  | true =>
    refine Or.inr ⟨r, Or.inr ⟨rfl, rfl, htop⟩, Or.inl ?_⟩
    unfold resume
    rw [if_pos rfl, htop]

theorem serve_agrees (hds : List.Forall₂ (Drive.Agrees drift I.gcWatch inline) ds ds')
    (st : StoreState σ) (slot : Execution) (all all' : List Drive) (o : RunOutcome) {k : ℕ}
    (hk : drift = false → k = d.countdown) (q : Pc)
    (hresume : o.Resumes → ∃ r, d.exec.top = .ok r) :
    State.Agrees drift I.gcWatch inline (I.serve false ⟨st, slot, all, true⟩ d ds o)
      (I.serve inline ⟨st, slot, all', true⟩ { d with countdown := k, pc := q } ds' o) := by
  have hask : ∀ (g : Growth) (w : Bool),
      State.Agrees drift I.gcWatch inline (askLimiter ⟨st, slot, all, true⟩ d ds g w)
        (askLimiter ⟨st, slot, all', true⟩ { d with countdown := k, pc := q } ds' g w) := by
    intro g w
    unfold askLimiter
    split <;> exact .cons ⟨_, _, rfl, hk, Or.inl rfl⟩ hds
  have hasync : ({ d with countdown := k, pc := q } : Drive).isAsync = d.isAsync := rfl
  cases o with
  | finished => exact .cons ⟨_, _, rfl, hk, Or.inl rfl⟩ hds
  | hostAsync func inst =>
    unfold serve
    dsimp only
    rw [hasync]
    split
    · split <;> exact .cons ⟨_, _, rfl, hk, Or.inl rfl⟩ hds
    · exact .cons ⟨_, _, rfl, hk, Or.inl rfl⟩ hds
  | fuelYield =>
    obtain ⟨r, htop⟩ := hresume trivial
    unfold serve
    dsimp only
    rw [hasync]
    split
    · exact .cons ⟨_, _, rfl, hk, resume_agrees htop⟩ hds
    · exact .cons ⟨_, _, rfl, hk, Or.inl rfl⟩ hds
  | epochDeadline => exact .cons ⟨_, _, rfl, hk, Or.inl rfl⟩ hds
  | grow memory delta => exact hask _ _
  | tableGrow table delta init => exact hask _ _
  | gcGrow target bytes => exact hask _ _

theorem finish_agrees (hds : List.Forall₂ (Drive.Agrees drift I.gcWatch inline) ds ds')
    (st : StoreState σ) (slot : Execution) (all all' : List Drive) (k : ℕ) (q : Pc)
    (outcome : Except ExecError Unit) :
    State.Agrees drift I.gcWatch inline (I.finish ⟨st, slot, all, true⟩ d ds outcome)
      (I.finish ⟨st, slot, all', true⟩ { d with countdown := k, pc := q } ds' outcome) := by
  have hclose : ∀ st, I.close st { d with countdown := k, pc := q } outcome =
      I.close st d outcome := fun _ => rfl
  unfold finish
  dsimp only
  rw [hclose]
  split
  · exact ⟨ds', rfl, hds⟩
  · exact ⟨ds', rfl, hds⟩

/-! ## Where the source goes on as the other does -/

/-- Nothing is collected between two turns of the loop. -/
def Unpressed (st : StoreState σ) : Prop :=
  I.gcWatch = true → ¬ (I.footprintOverFloor st.rest = true ∧ st.gcRequest = true)

/-- The stacks are below the limit. -/
def Fits (e : Execution) : Prop :=
  ∃ bytes, e.stackBytes I.frameSize = .ok bytes ∧ bytes < I.maxWasmStack

/-- A driver enters `run` again. -/
def reenters (c : Choice σ) (s : State σ) : Bool :=
  match c, s.guest, s.drives with
  | .go, true, d :: _ =>
    match d.pc with
    | .run resumed => resumed
    | _ => false
  | _, _, _ => false

/-- The machine beside whether a driver has entered `run` again. -/
def reentering : Choice σ → State σ × Bool → (State σ × Bool) × Mark :=
  noting (fun c s entered => reenters c s || entered) I.machine

/-- The conditions on a step of the source: a driver that enters `run` again has stacks below the
limit, and from the first time on, while a driver is in the loop, no pressure request of a store
over the floor is pending. -/
def ResumesSafely (c : Choice σ) (w : State σ × Bool) : Prop :=
  match c, w.1.guest, w.1.drives with
  | .go, true, d :: _ =>
    match d.pc with
    | .run true => I.Fits d.exec
    | .loop _ | .poll _ => w.2 = true → I.Unpressed w.1.store
    | _ => True
  | _, _, _ => True

variable {I}

theorem serviceGcPressure_unpressed {st : StoreState σ} (hwatch : I.gcWatch = true)
    (h : I.Unpressed st) (e : Execution) : I.serviceGcPressure st e = (st, .ok ()) := by
  unfold serviceGcPressure
  rw [if_neg (h hwatch)]

/-- Entering `run` again leads to the turn the resume point says. -/
theorem runHead_resumed {r : Regs} (hb : d.boundary = boundaryOf entry)
    (hin : Inside entry inner d.exec) (hne : inner ≠ []) (hfits : I.Fits d.exec)
    (htop : d.exec.top = .ok r) : I.runHead d = .loop r := by
  obtain ⟨bytes, hbytes, hlt⟩ := hfits
  have hframes := hin.frames_length
  have hlen : inner.length ≠ 0 := fun h => hne (List.length_eq_zero_iff.mp h)
  have hstop : d.boundary.runStop = entry.frames.length + 1 := congrArg Boundary.runStop hb
  unfold runHead
  rw [if_neg (by omega), hbytes]
  dsimp only
  rw [if_neg (by omega), htop]

/-- At the same place both take the same step. -/
theorem guestStep_same (st : StoreState σ) (slot : Execution)
    (hds : List.Forall₂ (Drive.Agrees drift I.gcWatch inline) ds ds')
    (hin : Inside entry inner d.exec) (hfits : d.pc.Fits inner) (all all' : List Drive) {k : ℕ}
    (hk : drift = false → k = d.countdown) :
    let s' := I.guestStep false ⟨st, slot, all, true⟩ d ds
    let t' := I.guestStep inline ⟨st, slot, all', true⟩ { d with countdown := k } ds'
    (d :: ds = all → { d with countdown := k } :: ds' = all' →
      s'.1.Agrees drift I.gcWatch inline t'.1) ∧ s'.2 = t'.2 := by
  obtain ⟨boundary, resultTys, scope, exec, countdown, pc⟩ := d
  intro s' t'
  cases pc with
  | run resumed => exact ⟨fun _ _ => .cons ⟨_, _, rfl, fun _ => rfl, Or.inl rfl⟩ hds, rfl⟩
  | loop r =>
    obtain ⟨hagrees, hmark⟩ := I.turnStep_agrees (d := ⟨boundary, resultTys, scope, exec, countdown,
      .loop r⟩) hds st slot all all' r hk (.loop r)
    exact ⟨fun _ _ => hagrees, hmark⟩
  | poll r =>
    unfold s' t' guestStep
    dsimp only
    split <;> exact ⟨fun _ _ => .cons ⟨_, _, rfl, hk, Or.inl rfl⟩ hds, rfl⟩
  | serve o =>
    exact ⟨fun _ _ => I.serve_agrees (d := ⟨boundary, resultTys, scope, exec, countdown, .serve o⟩)
      hds st slot all all' o hk (.serve o) fun ho => hin.top_of_ne (hfits ho), rfl⟩
  | done out =>
    exact ⟨fun _ _ => I.finish_agrees
      (d := ⟨boundary, resultTys, scope, exec, countdown, .done out⟩)
      hds st slot all all' k (.done out) out, rfl⟩
  | hostFn call | hostFnAsync call | limiter g scope' | epochCallback scope' =>
    refine ⟨fun hall hall' => ?_, rfl⟩
    subst hall hall'
    exact .cons ⟨_, _, rfl, hk, Or.inl rfl⟩ hds

/-- A step of the source in the guest is followed by as many turns as it takes. -/
theorem guestStep_agrees {st : StoreState σ} {slot : Execution}
    (hds : List.Forall₂ (Drive.Agrees drift I.gcWatch true) ds ds')
    (hb : d.boundary = boundaryOf entry) (hin : Inside entry inner d.exec)
    (hfits : d.pc.Fits inner) {k : ℕ} (hk : drift = false → k = d.countdown) {q : Pc}
    (hpc : d.pc.Agrees drift I.gcWatch true d.exec q)
    (hsafe : I.ResumesSafely .go (⟨st, slot, d :: ds, true⟩, drift)) :
    let s : State σ := ⟨st, slot, d :: ds, true⟩
    let t : State σ := ⟨st, slot, { d with countdown := k, pc := q } :: ds', true⟩
    let s' := I.guestStep false s d ds
    ∃ cs, s'.1.Agrees (reenters .go s || drift) I.gcWatch true (run I.inlineMachine cs t) ∧
      cs.flatMap Choice.decision = [] ∧
      (marks I.inlineMachine cs t).flatMap Mark.shown = s'.2.shown := by
  intro s t s'
  obtain ⟨boundary, resultTys, scope, exec, countdown, pc⟩ := d
  dsimp only at hb hin hfits hpc hk
  rcases hpc with rfl | ⟨r, hp, hq⟩
  · -- Both are at the same place.
    obtain ⟨hagrees, hmark⟩ := guestStep_same (I := I)
      (d := ⟨boundary, resultTys, scope, exec, countdown, pc⟩) st slot hds hin hfits _ _ hk
    refine ⟨[.go], (hagrees rfl rfl).or_drifts _, rfl, ?_⟩
    rw [marks_cons, marks_nil, List.flatMap_cons, List.flatMap_nil, List.append_nil]
    exact (congrArg Mark.shown hmark).symm
  · rcases hp with ⟨rfl, rfl | ⟨hwatch, rfl⟩⟩ | ⟨-, rfl, htop⟩
    · -- The turn is taken by both, by the other once it has found nothing in the mailbox.
      have hturn := I.turnStep_agrees
        (d := ⟨boundary, resultTys, scope, exec, countdown, .loop r⟩) hds st slot
        (⟨boundary, resultTys, scope, exec, countdown, .loop r⟩ :: ds)
        (⟨boundary, resultTys, scope, exec, k, .loop r⟩ :: ds') r hk (.loop r)
      rcases hq with rfl | ⟨hwatch, rfl⟩
      · refine ⟨[.go], hturn.1, rfl, ?_⟩
        rw [marks_cons, marks_nil, List.flatMap_cons, List.flatMap_nil, List.append_nil]
        exact (congrArg Mark.shown hturn.2).symm
      · have hpoll : I.inlineMachine .go t =
            (⟨st, slot, ⟨boundary, resultTys, scope, exec, k, .loop r⟩ :: ds', true⟩, .silent) := by
          change I.guestStep true t ⟨boundary, resultTys, scope, exec, k, .poll r⟩ ds' = _
          unfold guestStep
          dsimp only
          rw [serviceGcPressure_unpressed hwatch (hsafe rfl)]
          rfl
        refine ⟨[.go, .go], ?_, rfl, ?_⟩
        · rw [run_cons, hpoll]
          exact hturn.1
        · rw [marks_cons, hpoll, marks_cons, marks_nil]
          exact (List.append_nil _).trans (congrArg Mark.shown hturn.2).symm
    · -- Nothing is in the mailbox.
      have hpoll : s' = (⟨st, slot, ⟨boundary, resultTys, scope, exec, countdown, .loop r⟩ :: ds,
          true⟩, .silent) := by
        unfold s' guestStep
        dsimp only
        rw [serviceGcPressure_unpressed hwatch (hsafe rfl)]
        rfl
      rw [hpoll]
      exact ⟨[], .cons ⟨k, q, rfl, hk, Or.inr ⟨r, Or.inl ⟨rfl, Or.inl rfl⟩, hq⟩⟩ hds, rfl, rfl⟩
    · -- The count starts anew.
      have hhead := runHead_resumed (I := I)
        (d := ⟨boundary, resultTys, scope, exec, countdown, .run true⟩) hb hin hfits hsafe htop
      have hrun : s' = (⟨st, slot, ⟨boundary, resultTys, scope, exec, gcCheckInterval, .loop r⟩ ::
          ds, true⟩, .silent) := by
        unfold s' guestStep
        dsimp only
        rw [hhead]
        rfl
      rw [hrun]
      exact ⟨[], .cons ⟨k, q, rfl, fun h => Bool.noConfusion h,
        Or.inr ⟨r, Or.inl ⟨rfl, Or.inl rfl⟩, hq⟩⟩ (forall₂_or_drifts hds true), rfl, rfl⟩

/-! ## Acts of the embedder's code -/

theorem toGuest_agrees (hds : List.Forall₂ (Drive.Agrees drift watch inline) ds ds')
    (st : StoreState σ) (e : Execution) {k : ℕ} (hk : drift = false → k = d.countdown) (q : Pc)
    {p' q' : Pc} (hpc : p'.Agrees drift watch inline e q') :
    State.Agrees drift watch inline (State.toGuest st d ds e p')
      (State.toGuest st { d with countdown := k, pc := q } ds' e q') :=
  .cons ⟨k, q', rfl, hk, hpc⟩ hds

/-- While the embedder's code has control, drivers that agree wait for the same. -/
theorem enter_agrees (hds : List.Forall₂ (Drive.Agrees drift watch inline) ds ds')
    (st : StoreState σ)
    (slot : Execution) (inst funcIndex : ℕ) (code : CompiledFunc) (args : List Val)
    (resultTys : List ValType) (isAsync : Bool) :
    State.Agrees drift watch inline
      (enter ⟨st, slot, ds, false⟩ inst funcIndex code args resultTys isAsync)
      (enter ⟨st, slot, ds', false⟩ inst funcIndex code args resultTys isAsync) := by
  unfold enter
  dsimp only
  split
  · split <;> exact ⟨ds', rfl, hds⟩
  · split
    · exact ⟨ds', rfl, hds⟩
    · exact .cons ⟨_, _, rfl, fun _ => rfl, Or.inl rfl⟩ hds

theorem returned_agrees (hds : List.Forall₂ (Drive.Agrees drift I.gcWatch inline) ds ds')
    (st : StoreState σ) (slot : Execution) {k : ℕ} (hk : drift = false → k = d.countdown)
    (r : Except ExecError (List Val)) :
    State.Agrees drift I.gcWatch inline (I.returned ⟨st, slot, d :: ds, false⟩ d ds r)
      (I.returned ⟨st, slot, { d with countdown := k } :: ds', false⟩ { d with countdown := k } ds'
        r) := by
  unfold returned
  dsimp only
  split
  · split
    · exact toGuest_agrees hds _ _ hk _ (Or.inl rfl)
    · split
      · exact toGuest_agrees hds _ _ hk _ (Or.inl rfl)
      · split <;> exact toGuest_agrees hds _ _ hk _ (Or.inl rfl)
  · split
    · exact toGuest_agrees hds _ _ hk _ (Or.inl rfl)
    · split <;> exact toGuest_agrees hds _ _ hk _ (Or.inl rfl)
  · exact .cons ⟨k, _, rfl, hk, Or.inl rfl⟩ hds

theorem grown_agrees (hds : List.Forall₂ (Drive.Agrees drift watch inline) ds ds')
    (hin : Inside entry inner e) (hfits : d.pc.Fits inner) (st : StoreState σ) {k : ℕ}
    (hk : drift = false → k = d.countdown) (rest : σ) (r : Except ExecError (Option ℕ)) :
    State.Agrees drift watch inline (grown false ⟨st, e, d :: ds, false⟩ d ds rest r)
      (grown inline ⟨st, e, { d with countdown := k } :: ds', false⟩ { d with countdown := k } ds'
        rest r) := by
  unfold grown
  dsimp only
  split
  · rename_i g scope hpc
    rw [hpc] at hfits
    split
    · exact toGuest_agrees hds _ _ hk _ (Or.inl rfl)
    · rename_i old
      have hpushed : Inside entry inner (pushGrown e g old) := by
        unfold pushGrown
        cases g with
        | memory is64 => exact hin.push _
        | table is64 => exact hin.push _
        | gc => exact hin
      obtain ⟨r', htop⟩ := hpushed.top_of_ne hfits
      exact toGuest_agrees hds _ _ hk _ (resume_agrees htop)
  · exact .cons ⟨k, _, rfl, hk, Or.inl rfl⟩ hds

theorem applyEpochDeadline_agrees (hds : List.Forall₂ (Drive.Agrees drift watch inline) ds ds')
    (hin : Inside entry inner e) (hfits : d.pc.Fits inner) (st : StoreState σ) {k : ℕ}
    (hk : drift = false → k = d.countdown) (r : Except ExecError UpdateDeadline) :
    State.Agrees drift watch inline (applyEpochDeadline false ⟨st, e, d :: ds, false⟩ d ds r)
      (applyEpochDeadline inline ⟨st, e, { d with countdown := k } :: ds', false⟩
        { d with countdown := k } ds' r) := by
  have hasync : ({ d with countdown := k } : Drive).isAsync = d.isAsync := rfl
  unfold applyEpochDeadline
  dsimp only
  split
  · rename_i scope hpc
    rw [hpc] at hfits
    obtain ⟨r', htop⟩ := hin.top_of_ne hfits
    split
    · exact toGuest_agrees hds _ _ hk _ (Or.inl rfl)
    · split
      · exact toGuest_agrees hds _ _ hk _ (Or.inl rfl)
      · exact toGuest_agrees hds _ _ hk _ (Or.inl rfl)
      · exact toGuest_agrees hds _ _ hk _ (resume_agrees htop)
      · rw [hasync]
        split
        · exact toGuest_agrees hds _ _ hk _ (resume_agrees htop)
        · exact toGuest_agrees hds _ _ hk _ (Or.inl rfl)
  · exact .cons ⟨k, _, rfl, hk, Or.inl rfl⟩ hds

theorem panicked_agrees (hds : List.Forall₂ (Drive.Agrees drift watch inline) ds ds')
    (st : StoreState σ) (slot : Execution) {k : ℕ} (hk : drift = false → k = d.countdown) :
    State.Agrees drift watch inline (panicked ⟨st, slot, d :: ds, false⟩ d ds)
      (panicked ⟨st, slot, { d with countdown := k } :: ds', false⟩ { d with countdown := k }
        ds') := by
  have hrestore : ∀ scope, State.Agrees drift watch inline
      (restoreAfterPanic ⟨st, slot, d :: ds, false⟩ ds scope)
      (restoreAfterPanic ⟨st, slot, { d with countdown := k } :: ds', false⟩ ds' scope) :=
    fun scope => ⟨ds', rfl, hds⟩
  unfold panicked
  dsimp only
  split
  · exact hrestore _
  · exact hrestore _
  · exact hrestore _
  · exact hrestore _
  · exact ⟨ds', rfl, hds⟩
  · exact .cons ⟨k, _, rfl, hk, Or.inl rfl⟩ hds

/-- A driver that is not waiting has nothing to be answered. -/
theorem hostStep_busy (inline : Bool) (c : Choice σ) (st : StoreState σ) (slot : Execution)
    {r : Regs}
    (hpc : d.pc.Turns watch r ∨ d.pc = .run true)
    (hc : match c with | .ret _ | .grown _ _ | .deadline _ | .panic => True | _ => False) :
    I.hostStep inline c ⟨st, slot, d :: ds, false⟩ = ⟨st, slot, d :: ds, false⟩ := by
  obtain ⟨boundary, resultTys, scope, exec, countdown, pc⟩ := d
  dsimp only at hpc
  cases c with
  | ret _ | grown _ _ | deadline _ =>
    rcases hpc with (rfl | ⟨-, rfl⟩) | rfl <;> rfl
  | panic =>
    rcases hpc with (rfl | ⟨-, rfl⟩) | rfl <;> cases scope <;> rfl
  | go | tick | post | call _ _ _ _ _ _ | setFuel _ | setFuelYieldInterval _ | hostOp _ =>
    exact hc.elim

/-- The embedder's code does the same to both. -/
theorem hostStep_agrees {E : Execution} (c : Choice σ) (st : StoreState σ) (slot : Execution)
    (h : LayeredOn E ds slot) (hds : List.Forall₂ (Drive.Agrees drift I.gcWatch inline) ds ds') :
    State.Agrees drift I.gcWatch inline (I.hostStep false c ⟨st, slot, ds, false⟩)
      (I.hostStep inline c ⟨st, slot, ds', false⟩) := by
  cases c with
  | call inst funcIndex code args resultTys isAsync => exact enter_agrees hds _ _ _ _ _ _ _ _
  | setFuel _ | setFuelYieldInterval _ | hostOp _ => exact ⟨ds', rfl, hds⟩
  | go | tick | post =>
    cases hds with
    | nil => exact .refl _
    | cons hd hds => exact .cons hd hds
  | ret _ | grown _ _ | deadline _ | panic =>
    cases hds with
    | nil => exact .refl _
    | @cons d d' ds ds' hd hds =>
      obtain ⟨k, q, rfl, hk, hpc⟩ := hd
      obtain ⟨-, entry, inner, -, -, hin, hfits⟩ := h
      rcases hpc with rfl | ⟨r', hp, hq⟩
      · first
        | exact returned_agrees hds _ _ hk _
        | exact grown_agrees hds hin hfits _ hk _ _
        | exact applyEpochDeadline_agrees hds hin hfits _ hk _
        | exact panicked_agrees hds _ _ hk
      · rw [hostStep_busy false _ _ _ (hp.imp And.right fun h => h.2.1) trivial,
          hostStep_busy inline _ _ _ (Or.inl hq) trivial]
        exact .cons ⟨k, q, rfl, hk, Or.inr ⟨r', hp, hq⟩⟩ hds

/-! ## Runs -/

/-- The other machine follows with the same choice. -/
theorem follows_one {c : Choice σ} {s t : State σ}
    (h : (I.machine c s).1.Agrees drift I.gcWatch true (I.inlineMachine c t).1)
    (hm : (I.inlineMachine c t).2 = (I.machine c s).2) :
    ∃ cs, (I.machine c s).1.Agrees drift I.gcWatch true (run I.inlineMachine cs t) ∧
      cs.flatMap Choice.decision = c.decision ∧
      (marks I.inlineMachine cs t).flatMap Mark.shown = (I.machine c s).2.shown :=
  ⟨[c], h, List.append_nil _, (List.append_nil _).trans (congrArg Mark.shown hm)⟩

/-- A step of the source is followed by the other machine, at the same decision; the counts may
drift where `run` is entered again. -/
theorem step_agrees (c : Choice σ) {s t : State σ} (hs : Above .empty [] s)
    (h : s.Agrees drift I.gcWatch true t) (hsafe : I.ResumesSafely c (s, drift)) :
    ∃ cs, (I.machine c s).1.Agrees (reenters c s || drift) I.gcWatch true
        (run I.inlineMachine cs t) ∧
      cs.flatMap Choice.decision = c.decision ∧
      (marks I.inlineMachine cs t).flatMap Mark.shown = (I.machine c s).2.shown := by
  obtain ⟨ds', rfl, hds⟩ := h
  cases hs with
  | @host st e ds hlayers =>
    rw [List.append_nil] at hds hsafe ⊢
    have hhost := fun c => hostStep_agrees c st e hlayers hds
    cases c with
    | go => exact ⟨[], ⟨ds', rfl, hds⟩, rfl, rfl⟩
    | tick | post => exact follows_one ⟨ds', rfl, hds⟩ rfl
    | call inst funcIndex code args resultTys isAsync =>
      exact follows_one (hhost (.call inst funcIndex code args resultTys isAsync)) rfl
    | setFuel n => exact follows_one (hhost (.setFuel n)) rfl
    | setFuelYieldInterval i => exact follows_one (hhost (.setFuelYieldInterval i)) rfl
    | hostOp st' => exact follows_one (hhost (.hostOp st')) rfl
    | ret r => exact follows_one (hhost (.ret r)) rfl
    | grown rest r => exact follows_one (hhost (.grown rest r)) rfl
    | deadline r => exact follows_one (hhost (.deadline r)) rfl
    | panic => exact follows_one (hhost .panic) rfl
  | @guest st d ds hlayers =>
    rw [List.append_nil] at hds hsafe ⊢
    cases c with
    | go =>
      cases hds with
      | cons hd hds =>
        obtain ⟨k, q, rfl, hk, hpc⟩ := hd
        obtain ⟨-, entry, inner, -, hb, hin, hfits⟩ := hlayers
        exact guestStep_agrees (d := d) hds hb hin hfits hk hpc hsafe
    | tick | post => exact follows_one ⟨ds', rfl, hds⟩ rfl
    | call _ _ _ _ _ _ | setFuel _ | setFuelYieldInterval _ | hostOp _ | ret _ | grown _ _
    | deadline _ | panic => exact follows_one ⟨ds', rfl, hds⟩ rfl

variable (I)

/-- The run of the source is one of the machine that stays in the loop: with the same decisions it
reaches the same store and stacks with the same outcomes, over the same turns. -/
def Transparent (cs : List (Choice σ)) (s : State σ) : Prop :=
  ∃ cs', cs'.flatMap Choice.decision = cs.flatMap Choice.decision ∧
    (run I.machine cs s).Agrees true I.gcWatch true (run I.inlineMachine cs' s) ∧
    (marks I.inlineMachine cs' s).flatMap Mark.shown = (marks I.machine cs s).flatMap Mark.shown

/-- **Transparency of suspensions.**  From every reachable state, a run that enters `run` again
only with stacks below the limit, and in whose loops no pressure request is pending from then on,
does what it would have done without leaving the loop. -/
theorem suspension_transparent (cs₀ cs : List (Choice σ)) (st : StoreState σ)
    (hsafe : Along I.reentering I.ResumesSafely cs (run I.machine cs₀ (State.idle st), false)) :
    I.Transparent cs (run I.machine cs₀ (State.idle st)) := by
  have hstart : Above .empty [] (run I.machine cs₀ (State.idle st)) :=
    Above.reachable I false cs₀ st
  obtain ⟨cs', ⟨-, hagrees⟩, hdecisions, hmarks⟩ := simulated
    (R := fun w t => Above .empty [] w.1 ∧ w.1.Agrees w.2 I.gcWatch true t)
    (fun c w t hR hc => by
      obtain ⟨ds, hagrees, hdecision, hmark⟩ := step_agrees c hR.1 hR.2 hc
      exact ⟨ds, ⟨hR.1.step I (fun _ => rfl) false c (Or.inl rfl), hagrees⟩, hdecision, hmark⟩)
    ⟨hstart, State.Agrees.refl _⟩ hsafe
  have hdrifted := hagrees.or_drifts true
  rw [reentering, run_noting] at hdrifted
  rw [reentering, marks_noting] at hmarks
  exact ⟨cs', hdecisions, hdrifted, hmarks⟩

/-- A growth of a memory, answered and taken up again with the stacks below the limit. -/
theorem suspension_transparent_grow :
    (idle 1000 false false).Transparent
      [.go, .go, .go, .go, .grown () (.ok (some 0)), .go, .go, .go]
      (run (idle 1000 false false).machine
        [.call 0 0 (.ofOps [.plain (.i32Const 1), .plain (.memoryGrow 0), .plain .drop]) []
          [] false]
        (.idle (StoreState.new ()))) :=
  suspension_transparent _ _ _ _
    ⟨trivial, fun h => Bool.noConfusion h, fun h => Bool.noConfusion h, trivial, trivial,
      ⟨_, rfl, by decide⟩, fun _ h => Bool.noConfusion h, fun _ h => Bool.noConfusion h, trivial⟩

/-- An async call of a function that pushes two constants, up to the fuel yield behind them; the
stacks hold 146 bytes there. -/
def yieldState : State Unit :=
  run (idle 140 true false).machine
    [.call 0 0 (.ofOps [.plain (.i32Const 0), .plain (.i32Const 0), .plain .drop, .plain .drop])
      [] [] true, .go, .go, .go, .go]
    (.idle { StoreState.new () with
      fuel := (Fuel.zero.setFuelYieldInterval (some 2)).setFuel 10 })

end Interp

/-- The innermost call has overflowed the stack. -/
def State.overflowed (s : State σ) : Bool :=
  match s.drives with
  | [] => false
  | d :: _ =>
    match d.pc with
    | .done (.error .stackOverflow) => true
    | _ => false

theorem State.Agrees.overflowed_eq {s t : State σ} (h : s.Agrees drift watch inline t) :
    s.overflowed = t.overflowed := by
  obtain ⟨st, slot, ds, guest⟩ := s
  obtain ⟨ds', rfl, hdrives⟩ := h
  dsimp only at hdrives
  cases hdrives with
  | nil => rfl
  | @cons d d' ds ds' hd _ =>
    obtain ⟨k, q, rfl, -, hpc⟩ := hd
    unfold State.overflowed
    dsimp only
    rcases hpc with hq | ⟨r, hp, hq⟩
    · rw [hq]
    · have hloop : ∀ {p : Pc}, p.Turns watch r → p = .loop r ∨ p = .poll r :=
        fun h => h.imp_right And.right
      rcases hp.imp_left fun hp => hloop hp.2 with (hp | hp) | ⟨-, hp, -⟩ <;>
        rcases hloop hq with hq | hq <;> rw [hp, hq]

namespace Interp

/-- Without a decision there are only turns. -/
theorem eq_replicate_go {cs : List (Choice σ)} (h : cs.flatMap Choice.decision = []) :
    cs = List.replicate cs.length .go := by
  refine List.eq_replicate_of_mem fun c hc => ?_
  have hnone := List.flatMap_eq_nil_iff.mp h c hc
  cases c with
  | go => rfl
  | tick | post | call _ _ _ _ _ _ | setFuel _ | setFuelYieldInterval _ | hostOp _ | ret _
  | grown _ _ | deadline _ | panic => exact absurd hnone (List.cons_ne_nil _ _)

/-- With no decision to be taken the inline run is a number of turns of its driver, and none of
them is an overflow. -/
theorem not_overflowed_inline (n : ℕ) :
    (run (idle 140 true false).inlineMachine (List.replicate n .go) yieldState).overflowed =
      false := by
  have hfixed : ((idle 140 true false).inlineMachine .go
      (run (idle 140 true false).inlineMachine (List.replicate 6 .go) yieldState)).1 =
      run (idle 140 true false).inlineMachine (List.replicate 6 .go) yieldState := rfl
  obtain ⟨m, hm, hrun⟩ := run_replicate_le hfixed n
  rw [hrun]
  interval_cases m <;> decide

/-- Entering `run` again after the yield overflows the stack, in a run that goes on otherwise. -/
theorem not_transparent_fuelYield :
    ¬ (idle 140 true false).Transparent [.go, .go] yieldState := by
  rintro ⟨cs, hdecisions, hagrees, -⟩
  have hover := hagrees.overflowed_eq
  rw [eq_replicate_go hdecisions, not_overflowed_inline] at hover
  exact absurd hover (by decide)

end Interp

end SubmilliWasm
