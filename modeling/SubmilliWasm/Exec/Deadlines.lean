/-
# Progress under epoch deadlines

The deadline gate stands in front of an op (`service_gates` of `src/exec/gates.rs`), and the
callback's answer moves the deadline (`src/exec/epoch.rs`) before the loop comes to the same op
again.  The machine is run here beside a note of the op that an answer has let go on: where every
answer leaves the deadline ahead of the epoch, that op is executed before the callback is asked
again, and the op sequence is that of an engine without gates.
-/
import SubmilliWasm.Exec.Slicing

namespace SubmilliWasm

open Runs

variable {σ : Type}

/-! ## The op that is due -/

/-- What is due since the callback's last answer: nothing, the op it has let go on, or this op once
more, after the reservation it asked for. -/
inductive Due where
  | nothing
  | op (r : Regs)
  | retry

def Choice.isTick : Choice σ → Bool
  | .tick => true
  | _ => false

/-- The embedder's code is the epoch callback. -/
def State.asking (s : State σ) : Bool :=
  match s.guest, s.drives with
  | false, d :: _ =>
    match d.pc with
    | .epochCallback _ => true
    | _ => false
  | _, _ => false

/-- The running call has come to its end. -/
def State.ending (s : State σ) : Bool :=
  match s.drives with
  | [] => true
  | d :: _ =>
    match d.pc with
    | .done _ => true
    | _ => false

/-- The running call is about to have the reservation grown. -/
def State.reserving (s : State σ) : Bool :=
  match s.drives with
  | d :: _ =>
    match d.pc with
    | .serve (.gcGrow _ _) => true
    | _ => false
  | [] => false

/-- The op an answer of the callback lets go on: the one at the resume point. -/
def State.letsGo (c : Choice σ) (s : State σ) : Option Regs :=
  match c with
  | .deadline (.ok (.continue_ _)) | .deadline (.ok (.yield _)) =>
    if s.asking then
      match s.slot.top with
      | .ok r => if (r.code.ops[r.ip]?).isSome then some r else none
      | .error _ => none
    else none
  | _ => none

namespace Interp

variable (I : Interp σ)

/-- What is due after a step: nothing once the op has been executed, the epoch has moved on or the
call has ended. -/
def dueAfter (c : Choice σ) (s : State σ) (due : Due) : Due :=
  let s' := (I.machine c s).1
  if (I.machine c s).2.ran.isSome ∨ c.isTick ∨ s'.ending ∨ s'.drives.length < s.drives.length then
    .nothing
  else
    match s.letsGo c, due with
    | some r, _ => .op r
    | none, .nothing => .nothing
    | none, due => if s'.reserving then .retry else due

/-- The machine beside what is due. -/
def noted (c : Choice σ) (w : State σ × Due) : (State σ × Due) × Mark :=
  (((I.machine c w.1).1, I.dueAfter c w.1 w.2), (I.machine c w.1).2)

/-- While an op is due the callback is not asked, and no other op is executed. -/
def Progresses (c : Choice σ) (w : State σ × Due) : Prop :=
  match w.2 with
  | .nothing => True
  | .op r =>
    w.1.asking = false ∧ ∀ op, (I.machine c w.1).2.ran = some op → r.code.ops[r.ip]? = some op
  | .retry => w.1.asking = false

end Interp

/-- The answers of the callback leave the deadline ahead of the epoch; a limiter, which is given
the data of the host and not the store, does nothing but answer. -/
def Rearms (c : Choice σ) (s : State σ) : Prop :=
  match c, s.guest, s.drives with
  | .deadline (.ok (.continue_ delta)), false, d :: _
  | .deadline (.ok (.yield delta)), false, d :: _ =>
    match d.pc with
    | .epochCallback _ => s.store.epoch < min (s.store.epoch + delta) u64Max
    | _ => True
  | .call _ _ _ _ _ _, false, d :: _ | .hostOp _, false, d :: _ =>
    match d.pc with
    | .limiter _ _ => False
    | _ => True
  | _, _, _ => True

/-! ## What is due stays ahead of the deadline -/

/-- The deadline is ahead, and the running driver is on its way to the op that is due. -/
def OnTheWay (s : State σ) : Due → Prop
  | .nothing => True
  | .op r => s.store.epoch < s.store.epochDeadline ∧ s.guest = true ∧
    (r.code.ops[r.ip]?).isSome = true ∧ ∃ d ds, s.drives = d :: ds ∧
      (d.pc = .loop r ∨ d.pc = .serve .finished ∨
        (d.exec.top = .ok r ∧ (d.pc = .run true ∨ d.pc = .serve .fuelYield)))
  | .retry => s.store.epoch < s.store.epochDeadline ∧ ∃ d ds, s.drives = d :: ds ∧
    ((s.guest = true ∧ ((∃ b, d.pc = .run b) ∨ (∃ r, d.pc = .loop r) ∨ d.pc = .serve .finished ∨
        d.pc = .serve .fuelYield ∨ ∃ target bytes, d.pc = .serve (.gcGrow target bytes))) ∨
      (s.guest = false ∧ ∃ g scope, d.pc = .limiter g scope))

namespace Interp

variable (I : Interp σ)

variable {due : Due} {r : Regs}

theorem turn_ran {st : StoreState σ} {e : Execution} {stopDepth k : ℕ} {op : Op}
    (h : (I.turn st e r stopDepth k).mark.ran = some op) : r.code.ops[r.ip]? = some op := by
  unfold turn at h
  split at h
  · split at h <;> exact (nomatch h)
  · rename_i op' hop
    split at h
    · nomatch h
    · nomatch h
    · unfold execute at h
      split at h
      · exact hop.trans h
      · dsimp only at h
        split at h
        · nomatch h
        · exact hop.trans h

/-- Where a turn goes that has executed no op, with the deadline ahead. -/
inductive Unmoved (e : Execution) (r : Regs) (t : Turned σ) : Prop
  | failed (err : ExecError) (h : t.next = .leave (.error err))
  | returned (hop : r.code.ops[r.ip]? = none)
      (h : t.next = .leave (.ok .finished) ∨ ∃ r', t.next = .loop r')
  | yields (h : t.next = .leave (.ok .fuelYield)) (hsaved : e.saveIp r.ip = some t.exec)
  | reserves (target bytes : ℕ) (h : t.next = .leave (.ok (.gcGrow target bytes)))

theorem turn_unmoved {st : StoreState σ} {e : Execution} {stopDepth k : ℕ}
    (hahead : st.epoch < st.epochDeadline) (h : (I.turn st e r stopDepth k).mark.ran = none) :
    ((I.turn st e r stopDepth k).st.epoch = st.epoch ∧
      (I.turn st e r stopDepth k).st.epochDeadline = st.epochDeadline) ∧
    Unmoved e r (I.turn st e r stopDepth k) := by
  have hgate : ∀ st' : StoreState σ, st'.epoch = st.epoch → st'.epochDeadline = st.epochDeadline →
      I.epochGate st' e r.ip = (e, .ok none) := by
    intro st' he hd
    unfold epochGate StoreState.epochDeadlineReached
    rw [he, hd, if_neg]
    rintro ⟨-, hreached⟩
    have := of_decide_eq_true hreached
    omega
  -- Behind the gates only a reservation leaves the op to be executed.
  have hexecute : ∀ (st' : StoreState σ) (op : Op), st'.epoch = st.epoch →
      st'.epochDeadline = st.epochDeadline →
      (I.execute st' e r stopDepth k op).mark.ran = none →
      ((I.execute st' e r stopDepth k op).st.epoch = st.epoch ∧
        (I.execute st' e r stopDepth k op).st.epochDeadline = st.epochDeadline) ∧
      Unmoved e r (I.execute st' e r stopDepth k op) := by
    intro st' op he hd hran
    unfold execute at hran ⊢
    split at hran
    · nomatch hran
    · rename_i e' s out _
      dsimp only at hran ⊢
      cases out with
      | doGcGrow target bytes returnIp =>
        unfold carryOut suspend
        dsimp only
        cases e'.saveIp returnIp with
        | none => exact ⟨⟨he, hd⟩, .failed _ rfl⟩
        | some e'' => exact ⟨⟨he, hd⟩, .reserves target bytes rfl⟩
      | advance _ | doCall _ | doTailCall _ | doHostCall _ _ _ | doTailHostCall _ _ _
      | doHostAsyncCall _ _ _ | doTailHostAsyncCall _ _ _ | doGrow _ _ _ | doTableGrow _ _ _ _ =>
        nomatch hran
  unfold turn at h ⊢
  split at h
  · rename_i hop
    split at h
    · exact ⟨⟨rfl, rfl⟩, .failed _ rfl⟩
    · exact ⟨⟨rfl, rfl⟩, .returned hop (Or.inl rfl)⟩
    · rename_i e' _
      unfold reload
      cases e'.top with
      | error err => exact ⟨⟨rfl, rfl⟩, .failed err rfl⟩
      | ok r' => exact ⟨⟨rfl, rfl⟩, .returned hop (Or.inr ⟨r', rfl⟩)⟩
  · rename_i op hop
    unfold serviceGates at h ⊢
    by_cases hmetered : I.consumeFuel = true
    · rw [if_pos hmetered] at h ⊢
      rcases hstep : st.fuel.consumeFuelStep with ⟨answer, fuel⟩
      rw [hstep] at h
      cases answer with
      | ran =>
        dsimp only at h ⊢
        rw [hgate { st with fuel := fuel } rfl rfl] at h ⊢
        exact hexecute { st with fuel := fuel } op rfl rfl h
      | exhausted => exact ⟨⟨rfl, rfl⟩, .failed _ rfl⟩
      | needYield =>
        dsimp only
        cases hsave : e.saveIp r.ip with
        | none => exact ⟨⟨rfl, rfl⟩, .failed _ rfl⟩
        | some e' => exact ⟨⟨rfl, rfl⟩, .yields rfl hsave⟩
    · rw [if_neg hmetered, hgate st rfl rfl] at h ⊢
      exact hexecute st op rfl rfl h

variable {I} {st : StoreState σ} {slot : Execution} {d : Drive} {ds : List Drive}

/-- Once the op has been executed, the epoch has moved on or the call has ended, nothing is due. -/
theorem dueAfter_nothing {c : Choice σ} {s : State σ} (due : Due)
    (h : (I.machine c s).2.ran.isSome = true ∨ c.isTick = true ∨ (I.machine c s).1.ending = true ∨
      (I.machine c s).1.drives.length < s.drives.length) : I.dueAfter c s due = .nothing := by
  unfold dueAfter
  exact if_pos h

theorem dueAfter_none {c : Choice σ} {s : State σ} (hletsGo : s.letsGo c = none) :
    I.dueAfter c s .nothing = .nothing := by
  unfold dueAfter
  dsimp only
  split
  · rfl
  · rw [hletsGo]

/-- An answer makes the op it lets go on due. -/
theorem dueAfter_some {c : Choice σ} {s : State σ} (due : Due) (hletsGo : s.letsGo c = some r) :
    I.dueAfter c s due = .nothing ∨ I.dueAfter c s due = .op r := by
  unfold dueAfter
  dsimp only
  split
  · exact Or.inl rfl
  · rw [hletsGo]
    exact Or.inr rfl

/-- The due op stays due while it is on its way. -/
theorem dueAfter_op {c : Choice σ} {s : State σ} (hletsGo : s.letsGo c = none)
    (hreserving : (I.machine c s).1.reserving = false) :
    I.dueAfter c s (.op r) = .nothing ∨ I.dueAfter c s (.op r) = .op r := by
  unfold dueAfter
  dsimp only
  split
  · exact Or.inl rfl
  · right
    rw [hletsGo, hreserving]
    rfl

theorem dueAfter_retry {c : Choice σ} {s : State σ} (hletsGo : s.letsGo c = none) :
    I.dueAfter c s .retry = .nothing ∨ I.dueAfter c s .retry = .retry := by
  unfold dueAfter
  dsimp only
  split
  · exact Or.inl rfl
  · right
    rw [hletsGo]
    dsimp only
    split <;> rfl

theorem dueAfter_reserving {c : Choice σ} {s : State σ} (hletsGo : s.letsGo c = none)
    (hreserving : (I.machine c s).1.reserving = true) :
    I.dueAfter c s (.op r) = .nothing ∨ I.dueAfter c s (.op r) = .retry := by
  unfold dueAfter
  dsimp only
  split
  · exact Or.inl rfl
  · right
    rw [hletsGo]

theorem letsGo_guest (c : Choice σ) (s : State σ) (h : s.guest = true) : s.letsGo c = none := by
  have hasking : s.asking = false := by
    unfold State.asking
    rw [h]
  unfold State.letsGo
  split
  · rw [hasking]
    rfl
  · rw [hasking]
    rfl
  · rfl

/-- An op that is due has been executed, or stays on its way. -/
theorem onTheWay_op {c : Choice σ} {s : State σ} (hletsGo : s.letsGo c = none)
    (h : (I.machine c s).1.reserving = false → OnTheWay (I.machine c s).1 (.op r))
    (hr : (I.machine c s).1.reserving = true → OnTheWay (I.machine c s).1 .retry) :
    OnTheWay (I.machine c s).1 (I.dueAfter c s (.op r)) := by
  by_cases hreserving : (I.machine c s).1.reserving = true
  · rcases dueAfter_reserving (r := r) hletsGo hreserving with hdue | hdue
    · rw [hdue]
      exact trivial
    · rw [hdue]
      exact hr hreserving
  · rw [Bool.not_eq_true] at hreserving
    rcases dueAfter_op (r := r) hletsGo hreserving with hdue | hdue
    · rw [hdue]
      exact trivial
    · rw [hdue]
      exact h hreserving

theorem onTheWay_retry {c : Choice σ} {s : State σ} (hletsGo : s.letsGo c = none)
    (h : OnTheWay (I.machine c s).1 .retry) :
    OnTheWay (I.machine c s).1 (I.dueAfter c s .retry) := by
  rcases dueAfter_retry hletsGo with hdue | hdue
  · rw [hdue]
    exact trivial
  · rw [hdue]
    exact h

theorem onTheWay_of_nothing {c : Choice σ} {s : State σ}
    (h : (I.machine c s).2.ran.isSome = true ∨ c.isTick = true ∨ (I.machine c s).1.ending = true ∨
      (I.machine c s).1.drives.length < s.drives.length) :
    OnTheWay (I.machine c s).1 (I.dueAfter c s due) := by
  rw [dueAfter_nothing due h]
  exact trivial

/-- A turn of the loop, at the op that is due or on the way to try it again. -/
theorem turn_onTheWay (hs : Above .empty [] (⟨st, slot, d :: ds, true⟩ : State σ))
    (hpc : d.pc = .loop r) (hahead : st.epoch < st.epochDeadline)
    (hdue : (due = .op r ∧ (r.code.ops[r.ip]?).isSome = true) ∨ due = .retry) :
    OnTheWay (I.machine .go ⟨st, slot, d :: ds, true⟩).1
      (I.dueAfter .go ⟨st, slot, d :: ds, true⟩ due) := by
  obtain ⟨boundary, resultTys, scope, exec, countdown, pc⟩ := d
  dsimp only at hpc
  subst hpc
  obtain ⟨entry, inner, -, hin, hfits⟩ := running_layer hs
  have hmark : (I.machine .go (⟨st, slot,
    ⟨boundary, resultTys, scope, exec, countdown, .loop r⟩ :: ds,
      true⟩ : State σ)).2 = (I.turn st exec r boundary.runStop countdown).mark :=
    I.turnStep_mark ⟨st, slot, _, true⟩ ⟨boundary, resultTys, scope, exec, countdown, .loop r⟩ ds r
  cases hran : (I.turn st exec r boundary.runStop countdown).mark.ran with
  | some op =>
    refine onTheWay_of_nothing (Or.inl ?_)
    rw [hmark, hran]
    rfl
  | none =>
    obtain ⟨⟨hepoch, hdeadline⟩, hunmoved⟩ := I.turn_unmoved hahead hran
    have hahead' : (I.turn st exec r boundary.runStop countdown).st.epoch <
        (I.turn st exec r boundary.runStop countdown).st.epochDeadline := by
      rw [hepoch, hdeadline]
      exact hahead
    -- Where the turn leads, by what it decided.
    have hleads : ∀ {n : Next} {p : Pc}, (I.turn st exec r boundary.runStop countdown).next = n →
        (match n with
          | .loop r => p = .loop r
          | .leave (.ok o) => p = .serve o
          | .leave (.error err) => p = .done (.error err)
          | _ => False) →
        (I.machine .go (⟨st, slot, ⟨boundary, resultTys, scope, exec, countdown, .loop r⟩ :: ds,
          true⟩ : State σ)).1 =
        ⟨(I.turn st exec r boundary.runStop countdown).st, slot,
          ⟨boundary, resultTys, scope, (I.turn st exec r boundary.runStop countdown).exec,
            (I.turn st exec r boundary.runStop countdown).countdown, p⟩ :: ds, true⟩ := by
      intro n p hn hp
      show (I.turnStep ⟨st, slot, _, true⟩ ⟨boundary, resultTys, scope, exec, countdown, .loop r⟩ ds
        r).1 = _
      unfold turnStep
      dsimp only
      rw [hn]
      cases n with
      | loop r' =>
        subst hp
        rfl
      | leave out =>
        cases out with
        | ok o =>
          subst hp
          rfl
        | error err =>
          subst hp
          rfl
      | poll _ | callback _ => exact hp.elim
    have hlets := letsGo_guest (.go : Choice σ)
      ⟨st, slot, ⟨boundary, resultTys, scope, exec, countdown, .loop r⟩ :: ds, true⟩ rfl
    cases hunmoved with
    | failed err h =>
      refine onTheWay_of_nothing (Or.inr (Or.inr (Or.inl ?_)))
      rw [hleads h rfl]
      rfl
    | returned hop h =>
      rcases hdue with ⟨-, hsome⟩ | rfl
      · rw [hop] at hsome
        nomatch hsome
      · refine onTheWay_retry hlets ?_
        rcases h with h | ⟨r', h⟩
        · rw [hleads h rfl]
          exact ⟨hahead', _, ds, rfl, Or.inl ⟨rfl, Or.inr (Or.inr (Or.inl rfl))⟩⟩
        · rw [hleads h rfl]
          exact ⟨hahead', _, ds, rfl, Or.inl ⟨rfl, Or.inr (Or.inl ⟨r', rfl⟩)⟩⟩
    | yields h hsaved =>
      rcases hdue with ⟨rfl, hsome⟩ | rfl
      · refine onTheWay_op hlets (fun _ => ?_) fun hreserving => ?_
        · rw [hleads h rfl]
          exact ⟨hahead', rfl, hsome, _, ds, rfl,
            Or.inr (Or.inr ⟨top_of_saveIp hin hfits hsaved, Or.inr rfl⟩)⟩
        · rw [hleads h rfl] at hreserving
          nomatch hreserving
      · refine onTheWay_retry hlets ?_
        rw [hleads h rfl]
        exact ⟨hahead', _, ds, rfl, Or.inl ⟨rfl, Or.inr (Or.inr (Or.inr (Or.inl rfl)))⟩⟩
    | reserves target bytes h =>
      have hretry : OnTheWay (I.machine .go (⟨st, slot,
          ⟨boundary, resultTys, scope, exec, countdown, .loop r⟩ :: ds, true⟩ : State σ)).1
          .retry := by
        rw [hleads h rfl]
        exact ⟨hahead', _, ds, rfl,
          Or.inl ⟨rfl, Or.inr (Or.inr (Or.inr (Or.inr ⟨target, bytes, rfl⟩)))⟩⟩
      rcases hdue with ⟨rfl, -⟩ | rfl
      · refine onTheWay_op hlets (fun hreserving => ?_) fun _ => hretry
        rw [hleads h rfl] at hreserving
        nomatch hreserving
      · exact onTheWay_retry hlets hretry

/-- A turn of the running driver while an op is due. -/
theorem guest_onTheWay (hs : Above .empty [] (⟨st, slot, d :: ds, true⟩ : State σ))
    (h : OnTheWay ⟨st, slot, d :: ds, true⟩ due) (hdue : due ≠ .nothing) :
    OnTheWay (I.machine .go ⟨st, slot, d :: ds, true⟩).1
      (I.dueAfter .go ⟨st, slot, d :: ds, true⟩ due) := by
  have hlets := letsGo_guest (.go : Choice σ) ⟨st, slot, d :: ds, true⟩ rfl
  -- A driver that has come to its end has nothing due.
  have hdone : ∀ out, (I.machine .go (⟨st, slot, d :: ds, true⟩ : State σ)).1.drives =
      { d with pc := .done out } :: ds →
      OnTheWay (I.machine .go ⟨st, slot, d :: ds, true⟩).1
        (I.dueAfter .go ⟨st, slot, d :: ds, true⟩ due) := by
    intro out hdrives
    refine onTheWay_of_nothing (Or.inr (Or.inr (Or.inl ?_)))
    unfold State.ending
    rw [hdrives]
  obtain ⟨boundary, resultTys, scope, exec, countdown, pc⟩ := d
  have hfinished : pc = .serve .finished → OnTheWay (I.machine .go ⟨st, slot,
      ⟨boundary, resultTys, scope, exec, countdown, pc⟩ :: ds, true⟩).1 (I.dueAfter .go ⟨st, slot,
        ⟨boundary, resultTys, scope, exec, countdown, pc⟩ :: ds, true⟩ due) := by
    rintro rfl
    exact hdone (.ok ()) rfl
  cases due with
  | nothing => exact absurd rfl hdue
  | op r =>
    obtain ⟨hahead, -, hsome, d', ds'', hdrives, hpc⟩ := h
    obtain ⟨rfl, rfl⟩ := List.cons.inj hdrives
    rcases hpc with rfl | rfl | ⟨htop, rfl | rfl⟩
    · exact turn_onTheWay hs rfl hahead (Or.inl ⟨rfl, hsome⟩)
    · exact hfinished rfl
    · have hstep : (I.machine .go (⟨st, slot, ⟨boundary, resultTys, scope, exec, countdown,
          .run true⟩ :: ds, true⟩ : State σ)).1 = ⟨st, slot, ⟨boundary, resultTys, scope, exec,
            gcCheckInterval, I.runHead ⟨boundary, resultTys, scope, exec, countdown, .run true⟩⟩ ::
            ds, true⟩ := rfl
      rcases I.runHead_cases ⟨boundary, resultTys, scope, exec, countdown, .run true⟩ with hhead |
        ⟨err, hhead⟩ | ⟨r', htop', hhead⟩
      · refine onTheWay_op hlets (fun _ => ?_) fun hreserving => ?_
        · rw [hstep, hhead]
          exact ⟨hahead, rfl, hsome, _, ds, rfl, Or.inr (Or.inl rfl)⟩
        · rw [hstep, hhead] at hreserving
          nomatch hreserving
      · refine onTheWay_of_nothing (Or.inr (Or.inr (Or.inl ?_)))
        rw [hstep, hhead]
        rfl
      · obtain rfl : r = r' := Except.ok.inj (htop.symm.trans htop')
        refine onTheWay_op hlets (fun _ => ?_) fun hreserving => ?_
        · rw [hstep, hhead]
          exact ⟨hahead, rfl, hsome, _, ds, rfl, Or.inl rfl⟩
        · rw [hstep, hhead] at hreserving
          nomatch hreserving
    · cases scope with
      | none => exact hdone (.error (.msg "fuel yield requires an async store")) rfl
      | some p =>
        refine onTheWay_op hlets (fun _ => ?_) nofun
        exact ⟨hahead, rfl, hsome, _, ds, rfl, Or.inr (Or.inr ⟨htop, Or.inl rfl⟩)⟩
  | retry =>
    obtain ⟨hahead, d', ds'', hdrives, ⟨-, hpc⟩ | ⟨hguest, -⟩⟩ := h
    · obtain ⟨rfl, rfl⟩ := List.cons.inj hdrives
      rcases hpc with ⟨b, rfl⟩ | ⟨r, rfl⟩ | rfl | rfl | ⟨target, bytes, rfl⟩
      · have hstep : (I.machine .go (⟨st, slot, ⟨boundary, resultTys, scope, exec, countdown,
            .run b⟩ :: ds, true⟩ : State σ)).1 = ⟨st, slot, ⟨boundary, resultTys, scope, exec,
              gcCheckInterval, I.runHead ⟨boundary, resultTys, scope, exec, countdown, .run b⟩⟩ ::
              ds, true⟩ := rfl
        rcases I.runHead_cases ⟨boundary, resultTys, scope, exec, countdown, .run b⟩ with hhead |
          ⟨err, hhead⟩ | ⟨r', -, hhead⟩
        · refine onTheWay_retry hlets ?_
          rw [hstep, hhead]
          exact ⟨hahead, _, ds, rfl, Or.inl ⟨rfl, Or.inr (Or.inr (Or.inl rfl))⟩⟩
        · refine onTheWay_of_nothing (Or.inr (Or.inr (Or.inl ?_)))
          rw [hstep, hhead]
          rfl
        · refine onTheWay_retry hlets ?_
          rw [hstep, hhead]
          exact ⟨hahead, _, ds, rfl, Or.inl ⟨rfl, Or.inr (Or.inl ⟨r', rfl⟩)⟩⟩
      · exact turn_onTheWay hs rfl hahead (Or.inr rfl)
      · exact hfinished rfl
      · cases scope with
        | none => exact hdone (.error (.msg "fuel yield requires an async store")) rfl
        | some p =>
          refine onTheWay_retry hlets ?_
          exact ⟨hahead, _, ds, rfl, Or.inl ⟨rfl, Or.inl ⟨true, rfl⟩⟩⟩
      · refine onTheWay_retry hlets ?_
        exact ⟨hahead, _, ds, rfl, Or.inr ⟨rfl, .gc, _, rfl⟩⟩
    · nomatch hguest

theorem OnTheWay.not_reserving {s : State σ} (h : OnTheWay s (.op r)) : s.reserving = false := by
  obtain ⟨-, -, -, d, ds, hdrives, hpc⟩ := h
  unfold State.reserving
  rw [hdrives]
  rcases hpc with hpc | hpc | ⟨-, hpc | hpc⟩ <;> simp only [hpc]

/-- A step that leaves the drivers and the clocks alone. -/
theorem stays_onTheWay {c : Choice σ} {s : State σ} (hlets : s.letsGo c = none) (h : OnTheWay s due)
    (hepoch : (I.machine c s).1.store.epoch = s.store.epoch)
    (hdeadline : (I.machine c s).1.store.epochDeadline = s.store.epochDeadline)
    (hguest : (I.machine c s).1.guest = s.guest) (hdrives : (I.machine c s).1.drives = s.drives) :
    OnTheWay (I.machine c s).1 (I.dueAfter c s due) := by
  cases due with
  | nothing =>
    rw [dueAfter_none hlets]
    exact trivial
  | op r =>
    have hop : OnTheWay (I.machine c s).1 (.op r) := by
      unfold OnTheWay
      rw [hepoch, hdeadline, hguest, hdrives]
      exact h
    refine onTheWay_op hlets (fun _ => hop) fun hreserving => ?_
    rw [OnTheWay.not_reserving hop] at hreserving
    nomatch hreserving
  | retry =>
    refine onTheWay_retry hlets ?_
    unfold OnTheWay
    rw [hepoch, hdeadline, hguest, hdrives]
    exact h

/-- The answer of a limiter, or its panic, while an op is to be tried again. -/
theorem limiter_onTheWay {c : Choice σ} {g : Growth} {scope : Option Parked}
    (h : OnTheWay (⟨st, slot, d :: ds, false⟩ : State σ) .retry) (hpc : d.pc = .limiter g scope)
    (hp : Rearms c (⟨st, slot, d :: ds, false⟩ : State σ)) :
    OnTheWay (I.machine c ⟨st, slot, d :: ds, false⟩).1
      (I.dueAfter c ⟨st, slot, d :: ds, false⟩ .retry) := by
  obtain ⟨boundary, resultTys, scope', exec, countdown, pc⟩ := d
  dsimp only at hpc
  subst hpc
  have hahead : st.epoch < st.epochDeadline := h.1
  have hlets : ∀ c : Choice σ, (⟨st, slot, ⟨boundary, resultTys, scope', exec, countdown,
      .limiter g scope⟩ :: ds, false⟩ : State σ).letsGo c = none := by
    intro c
    unfold State.letsGo
    split <;> rfl
  cases c with
  | tick => exact onTheWay_of_nothing (Or.inr (Or.inl rfl))
  | go | post | setFuel _ | setFuelYieldInterval _ | ret _ | deadline _ =>
    exact stays_onTheWay (hlets _) h rfl rfl rfl rfl
  | call _ _ _ _ _ _ | hostOp _ => exact hp.elim
  | grown rest r =>
    cases r with
    | error err =>
      refine onTheWay_of_nothing (Or.inr (Or.inr (Or.inl ?_)))
      cases scope <;> rfl
    | ok old =>
      refine onTheWay_retry (hlets _) ?_
      cases scope with
      | none => exact ⟨hahead, _, ds, rfl, Or.inl ⟨rfl, Or.inl ⟨true, rfl⟩⟩⟩
      | some p => exact ⟨hahead, _, ds, rfl, Or.inl ⟨rfl, Or.inl ⟨true, rfl⟩⟩⟩
  | panic =>
    cases scope with
    | some p => exact onTheWay_of_nothing (Or.inr (Or.inr (Or.inr (Nat.lt_succ_self ds.length))))
    | none =>
      cases scope' with
      | some p => exact onTheWay_of_nothing (Or.inr (Or.inr (Or.inr (Nat.lt_succ_self ds.length))))
      | none => exact stays_onTheWay (hlets _) h rfl rfl rfl rfl

/-- What lets an op go on: an answer to a callback, at a resume point with an op. -/
theorem letsGo_some {c : Choice σ} {s : State σ} (h : s.letsGo c = some r) :
    (∃ delta, c = .deadline (.ok (.continue_ delta)) ∨ c = .deadline (.ok (.yield delta))) ∧
    s.guest = false ∧ s.slot.top = .ok r ∧ (r.code.ops[r.ip]?).isSome = true ∧
    ∃ d ds scope, s.drives = d :: ds ∧ d.pc = .epochCallback scope := by
  have hresumes : (if s.asking then
      match s.slot.top with
      | .ok r => if (r.code.ops[r.ip]?).isSome then some r else none
      | .error _ => none
    else none) = some r →
      s.guest = false ∧ s.slot.top = .ok r ∧ (r.code.ops[r.ip]?).isSome = true ∧
      ∃ d ds scope, s.drives = d :: ds ∧ d.pc = .epochCallback scope := by
    intro h
    split at h
    · rename_i hasking
      split at h
      · rename_i r' htop
        split at h
        · rename_i hop
          obtain rfl := Option.some.inj h
          unfold State.asking at hasking
          split at hasking
          · rename_i d ds hguest hdrives
            split at hasking
            · rename_i scope hpc
              exact ⟨hguest, htop, hop, d, ds, scope, hdrives, hpc⟩
            · nomatch hasking
          · nomatch hasking
        · nomatch h
      · nomatch h
    · nomatch h
  unfold State.letsGo at h
  split at h
  · exact ⟨⟨_, Or.inl rfl⟩, hresumes h⟩
  · exact ⟨⟨_, Or.inr rfl⟩, hresumes h⟩
  · nomatch h

/-- The callback's answer moves the deadline ahead, and the op it lets go on is on its way. -/
theorem answer_onTheWay {c : Choice σ} {s : State σ} (hlets : s.letsGo c = some r)
    (hp : Rearms c s) : OnTheWay (I.machine c s).1 (I.dueAfter c s .nothing) := by
  obtain ⟨⟨delta, hc⟩, hguest, htop, hop, d, ds, scope, hdrives, hpc⟩ := letsGo_some hlets
  obtain ⟨st, slot, all, guest⟩ := s
  obtain ⟨boundary, resultTys, scope', exec, countdown, pc⟩ := d
  obtain ⟨rest, fuel, epoch, deadline, pending, generation, internalError, roots, request⟩ := st
  dsimp only at hguest htop hdrives hpc
  subst hguest hdrives hpc
  have hahead : epoch < min (epoch + delta) u64Max := by
    rcases hc with rfl | rfl <;> exact hp
  -- Going on at the resume point, with the deadline moved.
  have hgoes : ∀ {st' : StoreState σ},
      (I.machine c (⟨⟨rest, fuel, epoch, deadline, pending, generation, internalError, roots,
        request⟩, slot, ⟨boundary, resultTys, scope', exec, countdown, .epochCallback scope⟩ :: ds,
        false⟩ : State σ)).1 =
        ⟨st', exec, ⟨boundary, resultTys, scope', slot, countdown, .run true⟩ :: ds, true⟩ →
      st'.epoch = epoch → st'.epochDeadline = min (epoch + delta) u64Max →
      OnTheWay (I.machine c ⟨⟨rest, fuel, epoch, deadline, pending, generation,
        internalError, roots,
        request⟩, slot, ⟨boundary, resultTys, scope', exec, countdown, .epochCallback scope⟩ :: ds,
        false⟩).1
        (I.dueAfter c ⟨⟨rest, fuel, epoch, deadline, pending, generation, internalError, roots,
          request⟩, slot, ⟨boundary, resultTys, scope', exec, countdown, .epochCallback scope⟩ ::
          ds, false⟩ .nothing) := by
    intro st' hstep hepoch hdeadline
    rcases dueAfter_some (I := I) .nothing hlets with hdue | hdue
    · rw [hdue]
      exact trivial
    · rw [hdue, hstep]
      refine ⟨?_, rfl, hop, _, ds, rfl, Or.inr (Or.inr ⟨htop, Or.inl rfl⟩)⟩
      rw [hepoch, hdeadline]
      exact hahead
  cases internalError with
  | some err =>
    refine onTheWay_of_nothing (Or.inr (Or.inr (Or.inl ?_)))
    rcases hc with rfl | rfl <;> rfl
  | none =>
    rcases hc with rfl | rfl
    · exact hgoes rfl rfl rfl
    · cases scope' with
      | some p => exact hgoes rfl rfl rfl
      | none => exact onTheWay_of_nothing (Or.inr (Or.inr (Or.inl rfl)))

/-- **One step** keeps what is due on its way. -/
theorem noted_onTheWay (c : Choice σ) (w : State σ × Due) (hs : Above .empty [] w.1)
    (h : OnTheWay w.1 w.2) (hp : Rearms c w.1) :
    OnTheWay (I.noted c w).1.1 (I.noted c w).1.2 := by
  obtain ⟨⟨st, slot, all, guest⟩, due⟩ := w
  show OnTheWay (I.machine c ⟨st, slot, all, guest⟩).1 (I.dueAfter c ⟨st, slot, all, guest⟩ due)
  cases guest with
  | true =>
    have hlets := letsGo_guest c ⟨st, slot, all, true⟩ rfl
    cases c with
    | go =>
      cases all with
      | nil => exact stays_onTheWay hlets h rfl rfl rfl rfl
      | cons d ds =>
        cases due with
        | nothing =>
          rw [dueAfter_none hlets]
          exact trivial
        | op r => exact guest_onTheWay hs h nofun
        | retry => exact guest_onTheWay hs h nofun
    | tick => exact onTheWay_of_nothing (Or.inr (Or.inl rfl))
    | post | call _ _ _ _ _ _ | setFuel _ | setFuelYieldInterval _ | hostOp _ | ret _ | grown _ _
    | deadline _ | panic => exact stays_onTheWay hlets h rfl rfl rfl rfl
  | false =>
    cases due with
    | nothing =>
      cases hlets : (⟨st, slot, all, false⟩ : State σ).letsGo c with
      | some r => exact answer_onTheWay hlets hp
      | none =>
        rw [dueAfter_none hlets]
        exact trivial
    | op r => nomatch h.2.1
    | retry =>
      obtain ⟨-, d, ds, hdrives, ⟨hguest, -⟩ | ⟨-, g, scope, hpc⟩⟩ := id h
      · nomatch hguest
      · obtain rfl : all = d :: ds := hdrives
        exact limiter_onTheWay h hpc hp

/-- What is on its way is the op executed next, and the callback is not asked before. -/
theorem onTheWay_progresses (c : Choice σ) (w : State σ × Due) (h : OnTheWay w.1 w.2) :
    I.Progresses c w := by
  obtain ⟨⟨st, slot, all, guest⟩, due⟩ := w
  cases due with
  | nothing => exact trivial
  | op r =>
    obtain ⟨-, hguest, -, d, ds, hdrives, hpc⟩ := h
    obtain ⟨boundary, resultTys, scope, exec, countdown, pc⟩ := d
    dsimp only at hguest hdrives hpc
    subst hguest hdrives
    refine ⟨rfl, fun op hran => ?_⟩
    cases c with
    | go =>
      rcases hpc with rfl | rfl | ⟨-, rfl | rfl⟩
      · dsimp only at hran
        have hmark := I.turnStep_mark ⟨st, slot, ⟨boundary, resultTys, scope, exec, countdown,
          .loop r⟩ :: ds, true⟩ ⟨boundary, resultTys, scope, exec, countdown, .loop r⟩ ds r
        exact I.turn_ran ((congrArg Mark.ran hmark).symm.trans hran)
      · nomatch hran
      · nomatch hran
      · nomatch hran
    | tick | post | call _ _ _ _ _ _ | setFuel _ | setFuelYieldInterval _ | hostOp _ | ret _
    | grown _ _ | deadline _ | panic => nomatch hran
  | retry =>
    obtain ⟨-, d, ds, hdrives, ⟨hguest, -⟩ | ⟨hguest, g, scope, hpc⟩⟩ := h
    · show State.asking ⟨st, slot, all, guest⟩ = false
      unfold State.asking
      rw [hguest]
    · show State.asking ⟨st, slot, all, guest⟩ = false
      unfold State.asking
      rw [hguest, hdrives]
      dsimp only
      rw [hpc]

variable (I)

/-- **Progress under epoch deadlines.**  In every run in which each answer of the callback leaves
the deadline ahead of the epoch, the op an answer lets go on is executed before the callback is
asked again, unless the epoch moves on or the call ends. -/
theorem deadlines_progress (cs : List (Choice σ)) (st : StoreState σ)
    (hp : Along I.noted (fun c w => Rearms c w.1) cs (State.idle st, .nothing)) :
    Along I.noted I.Progresses cs (State.idle st, .nothing) := by
  have hstart : Above .empty [] (State.idle st) ∧ OnTheWay (State.idle st) .nothing :=
    ⟨Above.reachable I false [] st, trivial⟩
  have hinvariant := Along.and_invariant
    (I := fun w : State σ × Due => Above .empty [] w.1 ∧ OnTheWay w.1 w.2)
    (fun c w hw hc => ⟨hw.1.step I (fun _ => rfl) false c (Or.inl rfl),
      noted_onTheWay c w hw.1 hw.2 hc⟩) (s := (State.idle st, Due.nothing)) hstart hp
  exact hinvariant.mono fun c w hw => onTheWay_progresses c w hw.1.2

end Interp

end SubmilliWasm
