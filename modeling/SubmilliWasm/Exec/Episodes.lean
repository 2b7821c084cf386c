/-
# Runs above a nested call

The invariant of `Exec.Nesting` is kept by every step of the store, as long as the activities it is
relative to are neither resumed nor ended (`Keeps`); by induction it is kept by every such run, and
the books go along with the events the run leaves behind.
-/
import SubmilliWasm.Exec.Nesting

namespace SubmilliWasm

open Runs StoreState

variable {σ : Type}

/-! ## Recovery and other uses of the store -/

/-- A change of the store that recovery does not see. -/
structure Aside (f : StoreState σ → StoreState σ) : Prop where
  truncate : ∀ st mark, (f st).truncateRoots mark = f (st.truncateRoots mark)
  restore : ∀ st scope, (f st).restorePending scope = f (st.restorePending scope)
  latch : ∀ st err, (f st).latchInternalError err = f (st.latchInternalError err)

theorem AsyncCallCleanup.restore_aside {f : StoreState σ → StoreState σ} (hf : Aside f)
    (r : AsyncCallCleanup) (st : StoreState σ) (slot : Execution) :
    r.restore (f st) slot = (f (r.restore st slot).1, (r.restore st slot).2) := by
  unfold restore
  cases r.boundary with
  | none =>
    simp only
    rw [hf.truncate, hf.restore]
  | some b =>
    simp only
    rcases slot.discardTo b.1 b.2 with err | e
    · simp only
      split
      · rw [hf.latch, hf.truncate, hf.restore]
      · rw [hf.truncate, hf.restore]
    · simp only
      rw [hf.truncate, hf.restore]

namespace Nest

theorem recover_aside {f : StoreState σ → StoreState σ} (hf : Aside f) (W : Nest σ) :
    { W with store := f W.store }.recover =
      { W.recover with store := f W.recover.store } := by
  have hfrom : ∀ (rs : List AsyncCallCleanup) (W : Nest σ),
      { W with store := f W.store }.recoverFrom rs =
        { W.recoverFrom rs with store := f (W.recoverFrom rs).store } := by
    intro rs
    induction rs with
    | nil => exact fun W => rfl
    | cons r rs ih =>
      intro W
      rw [recoverFrom_cons, recoverFrom_cons]
      split
      · simp only [r.restore_aside hf]
        exact ih { W with
          store := (r.restore W.store W.slot).1
          slot := (r.restore W.store W.slot).2 }
      · rfl
  exact hfrom W.cleanups W

/-- Roots above the mark of a dropped call go with it. -/
theorem recover_roots (W : Nest σ) (more : List (ℕ × RefKind)) {r : AsyncCallCleanup}
    {rs : List AsyncCallCleanup} (hcleanups : W.cleanups = r :: rs) (hr : r.cancelled = true)
    (hle : r.scope.rootsMark ≤ W.store.gcRoots.length) :
    { W with store := { W.store with gcRoots := W.store.gcRoots ++ more } }.recover =
      W.recover := by
  obtain ⟨st, slot, stack, guest, cleanups, nextToken⟩ := W
  obtain rfl : cleanups = r :: rs := hcleanups
  unfold recover
  rw [recoverFrom_cons, recoverFrom_cons, if_pos hr, if_pos hr]
  simp only [r.restore_roots st slot hle]

variable {B W : Nest σ} {upper as : List Activity} {ts : List Tally} {d : Drive} {token : ℕ}
  (H : Hosted σ)

theorem Over.aside (h : Over B W upper ts) {f : StoreState σ → StoreState σ} (hf : Aside f)
    (hsame : ∀ st, SameSlot st (f st)) : Over B { W with store := f W.store } upper ts := by
  have hrecover := recover_aside hf W
  have hslot := hsame W.recover.store
  exact {
    settled := by
      rw [hrecover]
      refine h.settled.withStore ?_ (h.settled.booked.same hslot.pending hslot.generation)
      rw [hslot.roots]
    waiting := by
      rw [hrecover, (hsame W.store).roots]
      exact h.waiting
    roots := by
      rw [hrecover]
      show (f W.recover.store).gcRoots <+: (f W.store).gcRoots
      rw [hslot.roots, (hsame W.store).roots]
      exact h.roots
    tokens := h.tokens
    fresh := h.fresh
    guest := fun hguest => by
      rw [hrecover, h.guest hguest] }

/-- A shared use of the store appends roots; it does not recover. -/
theorem Over.peek (hB : Sound B) (h : Over B W upper ts) (more : List (ℕ × RefKind)) :
    Over B { W with store := { W.store with gcRoots := W.store.gcRoots ++ more } } upper ts := by
  obtain ⟨cs, hcs, hcancelled⟩ := h.waiting
  have hlonger : W.store.gcRoots <+: W.store.gcRoots ++ more := List.prefix_append _ _
  cases cs with
  | nil =>
    -- No dropped call waits, so the roots stay.
    have hlive := hB.head_live upper
    rw [← h.settled.cleanups] at hlive
    have hW : W.recover = W := by
      rw [recover, hcs]
      rw [List.nil_append, recoverFrom_live hlive, ← List.nil_append W.recover.cleanups, ← hcs]
    have hsettled := h.settled
    rw [hW] at hsettled
    have hnew : Settled B { W with
        store := { W.store with gcRoots := W.store.gcRoots ++ more } } upper ts :=
      hsettled.withStore hlonger (hsettled.booked.same rfl rfl)
    exact hnew.over hB
  | cons r cs =>
    obtain ⟨hr, hle⟩ := hcancelled r List.mem_cons_self
    have hrecover := recover_roots W more hcs hr hle
    exact {
      settled := by
        rw [hrecover]
        exact h.settled
      waiting := by
        rw [hrecover]
        refine ⟨r :: cs, hcs, fun r' hr' => ?_⟩
        obtain ⟨hr', hle'⟩ := hcancelled r' hr'
        exact ⟨hr', hle'.trans hlonger.length_le⟩
      roots := by
        rw [hrecover]
        exact h.roots.trans hlonger
      tokens := h.tokens
      fresh := h.fresh
      guest := fun hguest => by
        -- Where wasm runs, no dropped call waits.
        have hW := h.guest hguest
        rw [hW] at hcs
        have hlen := congrArg List.length hcs
        rw [List.length_append, List.length_cons] at hlen
        omega }

/-! ## What the embedder's code does -/

/-- The activities of `B` are still there, and none of them is at work. -/
def Keeps (B W : Nest σ) : Prop :=
  B.stack.length ≤ W.stack.length ∧
    (W.stack.length = B.stack.length → W.guest = true → B.stack = [])

theorem hosting_host (h : W.hosting = true) : W.guest = false := by
  unfold hosting at h
  rw [Bool.and_eq_true] at h
  exact Bool.not_eq_true' _ ▸ h.1

/-- An act on the store leaves what is below it. -/
theorem Over.hostAct (hB : Sound B) (h : Over B W upper ts) (hhosting : W.hosting = true)
    {a : Act σ} (hkeeps : B.Keeps (H.hostAct a W)) :
    ∃ upper', Over B (H.hostAct a W) upper' (postAll (H.hostEvents a W) ts) := by
  have hhost : W.recover.guest = false := (recover_frame W).2.1.trans (hosting_host hhosting)
  have hset := h.settled
  have hsame : ∃ upper', Over B W upper' ts := ⟨upper, h⟩
  cases a with
  | peek roots => exact ⟨upper, h.peek hB roots⟩
  | call inst funcIndex code args resultTys isAsync =>
    obtain ⟨upper', hupper⟩ := hset.call hB hhost inst funcIndex code args resultTys isAsync
    exact ⟨upper', hupper.over hB⟩
  | callHost resultTys isAsync =>
    obtain ⟨upper', hupper⟩ := hset.callHost hhost resultTys isAsync
    exact ⟨upper', hupper.over hB⟩
  | throw_ exn =>
    have hthrow := (hset.throw_ H exn).over hB
    cases exn with
    | none => exact ⟨upper, hthrow⟩
    | some exn => exact ⟨upper, hthrow⟩
  | take => exact ⟨upper, (hset.take H).over hB⟩
  | use st roots err =>
    have hplain : Settled B { W.recover with store := { st with
        pending := W.recover.store.pending
        pendingGeneration := W.recover.store.pendingGeneration
        internalError := W.recover.store.internalError
        gcRoots := W.recover.store.gcRoots ++ roots } } upper ts :=
      hset.withStore (List.prefix_append _ _) (hset.booked.same rfl rfl)
    cases err with
    | none => exact ⟨upper, hplain.over hB⟩
    | some err => exact ⟨upper, (hplain.latch err).over hB⟩
  | openScope => exact ⟨_, (hset.openScope hhost).over hB⟩
  | closeScope =>
    show ∃ upper', Over B W.recover.closeScope upper' ts
    have hstay : ∀ W' : Nest σ, W' = W.recover → ∃ upper', Over B W' upper' ts := by
      rintro W' rfl
      exact ⟨upper, hset.over hB⟩
    cases upper with
    | nil =>
      have hlen : B.stack.length ≤ W.recover.closeScope.stack.length := hkeeps.1
      have hstack : W.recover.stack = B.stack := hset.stack
      refine hstay _ ?_
      unfold Nest.closeScope at hlen ⊢
      split
      · rename_i mark as hscope
        -- The scope is one of those of `B`.
        rw [hscope] at hlen
        rw [← hstack, hscope, List.length_cons] at hlen
        exact absurd hlen (Nat.not_succ_le_self _)
      · rfl
    | cons a as =>
      cases a with
      | rootScope mark => exact ⟨as, (hset.closeScope hhost).over hB⟩
      | wasm d token | direct b =>
        refine hstay _ ?_
        unfold Nest.closeScope
        rw [hset.stack]
        rfl
  | go | tick | post | ret _ | grown _ _ | deadline _ | panic | drop => exact hsame

/-! ## Answers, panics and drops at the level of `B` -/

theorem awaits_eq_false {a : Act σ} (h : Hosted.awaits a d.pc = false) (st : StoreState σ) :
    H.driverEvents a st d = [] := by
  unfold Hosted.driverEvents
  split
  · rename_i hpc
    rw [hpc] at h
    nomatch h
  · rename_i hpc
    rw [hpc] at h
    nomatch h
  · rename_i hpc
    rw [hpc] at h
    nomatch h
  · rename_i hpc
    rw [hpc] at h
    nomatch h
  · rfl

/-- An answer to the innermost activity of `B` resumes or ends it. -/
theorem answered_keeps (hstack : W.stack = B.stack) (hhost : W.guest = false) {a : Act σ}
    (hkeeps : B.Keeps (H.answered a W)) :
    H.answered a W = W ∧ H.answerEvents a W = [] := by
  unfold Hosted.answered Hosted.answerEvents at *
  rcases hB : W.stack with _ | ⟨top, as⟩
  · exact ⟨rfl, rfl⟩
  · have hlen : B.stack.length = as.length + 1 := by
      rw [← hstack, hB]
      rfl
    rw [hB] at hkeeps
    cases top with
    | rootScope mark => exact ⟨rfl, rfl⟩
    | direct b =>
      cases a with
      | ret r =>
        have hshort : (H.directReturned W.recover b as r).stack = as := by
          unfold Hosted.directReturned
          split
          · rfl
          · split <;> rfl
        have hle : B.stack.length ≤ (H.directReturned W.recover b as r).stack.length := hkeeps.1
        rw [hshort] at hle
        omega
      | go | tick | post | call _ _ _ _ _ _ | callHost _ _ | throw_ _ | take | use _ _ _ | peek _
      | openScope | closeScope | grown _ _ | deadline _ | panic | drop => exact ⟨rfl, rfl⟩
    | wasm d token =>
      simp only at hkeeps ⊢
      by_cases hawaits : Hosted.awaits a d.pc = true
      · rw [if_pos hawaits] at hkeeps
        have hsingle : W.recover.single d = ⟨W.recover.store, W.recover.slot, [d], false⟩ := by
          rw [single, (recover_frame W).2.1, hhost]
        obtain ⟨st', d', hanswer, -⟩ :=
          H.answer_slot a W.recover.store W.recover.slot d hawaits
        rw [hsingle, hanswer] at hkeeps
        have hnil : B.stack = [] := hkeeps.2 hlen.symm rfl
        rw [← hstack, hB] at hnil
        cases hnil
      · rw [if_neg hawaits]
        exact ⟨rfl, awaits_eq_false H (Bool.eq_false_of_not_eq_true hawaits) _⟩

/-- A panic unwinds the innermost activity of `B`. -/
theorem panicked_keeps (hstack : W.stack = B.stack) (hkeeps : B.Keeps W.panicked) :
    W.panicked = W ∧ Hosted.panicEvents W = [] := by
  have hle : B.stack.length ≤ W.panicked.stack.length := hkeeps.1
  unfold Nest.panicked Hosted.panicEvents at *
  rcases hB : W.stack with _ | ⟨top, as⟩
  · exact ⟨rfl, rfl⟩
  · have hlen : B.stack.length = as.length + 1 := by
      rw [← hstack, hB]
      rfl
    rw [hB] at hle
    cases top with
    | rootScope mark => exact ⟨rfl, rfl⟩
    | direct b =>
      have hshort : B.stack.length ≤ as.length := hle
      omega
    | wasm d token =>
      simp only at hle ⊢
      have hgone : ∀ scope, ¬ B.stack.length ≤ (if d.isAsync = true then
          (W.restoreAfterPanic scope as).cancel token else W.restoreAfterPanic scope as
          ).stack.length := by
        intro scope hno
        split at hno
        · have hshort : B.stack.length ≤ as.length := hno
          omega
        · have hshort : B.stack.length ≤ as.length := hno
          omega
      cases hpc : d.pc with
      | limiter g lscope =>
        rw [hpc] at hle
        cases lscope with
        | none =>
          simp only at hle ⊢
          by_cases hasync : d.isAsync = true
          · rw [if_pos hasync] at hle
            have hshort : B.stack.length ≤ as.length := hle
            omega
          · rw [if_neg hasync, if_neg hasync]
            exact ⟨rfl, rfl⟩
        | some lscope => exact absurd hle (hgone lscope)
      | hostFn call | hostFnAsync call =>
        rw [hpc] at hle
        exact absurd hle (hgone call.scope)
      | epochCallback scope =>
        rw [hpc] at hle
        exact absurd hle (hgone scope)
      | run _ | loop _ | poll _ | serve _ | done _ => exact ⟨rfl, rfl⟩

/-- A drop ends the innermost activity of `B`. -/
theorem dropped_keeps (hstack : W.stack = B.stack) (hkeeps : B.Keeps W.dropped) :
    W.dropped = W ∧ Hosted.dropEvents W = [] := by
  have hle : B.stack.length ≤ W.dropped.stack.length := hkeeps.1
  unfold Nest.dropped Hosted.dropEvents at *
  rcases hB : W.stack with _ | ⟨top, as⟩
  · exact ⟨rfl, rfl⟩
  · have hlen : B.stack.length = as.length + 1 := by
      rw [← hstack, hB]
      rfl
    have hgone : ∀ slot token, ¬ B.stack.length ≤
        (({ W with slot := slot, stack := as, guest := false } : Nest σ).cancel token
          ).stack.length := by
      intro slot token hno
      have hshort : B.stack.length ≤ as.length := hno
      omega
    rw [hB] at hle
    cases top with
    | rootScope mark => exact ⟨rfl, rfl⟩
    | direct b =>
      simp only at hle ⊢
      cases htoken : b.token with
      | none => exact ⟨rfl, rfl⟩
      | some token =>
        rw [htoken] at hle
        exact absurd hle (hgone W.slot token)
    | wasm d token =>
      simp only at hle ⊢
      by_cases hasync : d.isAsync = true
      · rw [if_pos hasync] at hle
        rw [if_pos hasync, if_pos hasync]
        cases hguest : W.guest with
        | true =>
          rw [hguest] at hle
          cases hpc : d.pc with
          | serve o =>
            rw [hpc] at hle
            cases o with
            | fuelYield => exact absurd hle (hgone d.exec token)
            | finished | hostAsync _ _ | epochDeadline | grow _ _ | tableGrow _ _ _
            | gcGrow _ _ => exact ⟨rfl, rfl⟩
          | run _ | loop _ | poll _ | hostFn _ | hostFnAsync _ | limiter _ _ | epochCallback _
          | done _ => exact ⟨rfl, rfl⟩
        | false =>
          rw [hguest] at hle
          cases hpc : d.pc with
          | hostFnAsync call =>
            rw [hpc] at hle
            exact absurd hle (hgone W.slot token)
          | limiter g lscope =>
            rw [hpc] at hle
            cases lscope with
            | none => exact absurd hle (hgone W.slot token)
            | some lscope => exact ⟨rfl, rfl⟩
          | epochCallback escope =>
            rw [hpc] at hle
            simp only at hle ⊢
            have herror : (W.recover.store.truncateRoots escope.rootsMark).internalError =
              W.recover.store.internalError := rfl
            rw [herror] at hle ⊢
            split at hle
            · rename_i hsome
              rw [if_pos hsome, if_pos hsome]
              exact ⟨rfl, rfl⟩
            · have hshort : B.stack.length ≤ as.length := hle
              omega
          | run _ | loop _ | poll _ | serve _ | hostFn _ | done _ => exact ⟨rfl, rfl⟩
      · rw [if_neg hasync, if_neg hasync]
        exact ⟨rfl, rfl⟩

/-! ## A step -/

/-- The embedder's code answers the innermost activity above `B`. -/
theorem Over.answered (hB : Sound B) {top : Activity} (h : Over B W (top :: as) ts)
    (hhost : W.guest = false) (a : Act σ) :
    ∃ upper', Over B (H.answered a W) upper' (postAll (H.answerEvents a W) ts) := by
  have hstack : W.stack = top :: (as ++ B.stack) :=
    (recover_frame W).1.symm.trans h.settled.stack
  have hhost' : W.recover.guest = false := (recover_frame W).2.1.trans hhost
  unfold Hosted.answered Hosted.answerEvents
  rw [hstack]
  cases top with
  | rootScope mark => exact ⟨_, h⟩
  | direct b =>
    cases a with
    | ret r => exact ⟨as, (h.settled.directReturned H hhost' r).over hB⟩
    | go | tick | post | call _ _ _ _ _ _ | callHost _ _ | throw_ _ | take | use _ _ _ | peek _
    | openScope | closeScope | grown _ _ | deadline _ | panic | drop => exact ⟨_, h⟩
  | wasm d token =>
    simp only
    by_cases hawaits : Hosted.awaits a d.pc = true
    · rw [if_pos hawaits]
      obtain ⟨d', hanswered⟩ := h.settled.answered H hhost' hawaits
      exact ⟨_, hanswered.over hB⟩
    · rw [if_neg hawaits, awaits_eq_false H (Bool.eq_false_of_not_eq_true hawaits)]
      exact ⟨_, h⟩

/-- A step that neither resumes nor ends the activities of `B`. -/
theorem Over.step (hB : Sound B) (h : Over B W upper ts) {a : Act σ}
    (hkeeps : B.Keeps (H.next a W)) :
    ∃ upper', Over B (H.next a W) upper' (postAll (H.events a W) ts) := by
  have hsame : ∃ upper', Over B W upper' ts := ⟨upper, h⟩
  have hbase : upper = [] → W.stack = B.stack := by
    rintro rfl
    exact (recover_frame W).1.symm.trans h.settled.stack
  have hhosting : ∀ {a : Act σ}, H.next a W = (if W.hosting then H.hostAct a W else W) →
      H.events a W = (if W.hosting then H.hostEvents a W else []) → B.Keeps (H.next a W) →
      ∃ upper', Over B (H.next a W) upper' (postAll (H.events a W) ts) := by
    intro a hnext hevents hkeeps
    rw [hnext] at hkeeps ⊢
    rw [hevents]
    by_cases hhosting : W.hosting = true
    · rw [if_pos hhosting] at hkeeps
      rw [if_pos hhosting, if_pos hhosting]
      exact h.hostAct H hB hhosting hkeeps
    · rw [if_neg hhosting, if_neg hhosting]
      exact hsame
  have hanswer : ∀ {a : Act σ}, H.next a W = (if W.guest then W else H.answered a W) →
      H.events a W = (if W.guest then [] else H.answerEvents a W) → B.Keeps (H.next a W) →
      ∃ upper', Over B (H.next a W) upper' (postAll (H.events a W) ts) := by
    intro a hnext hevents hkeeps
    rw [hnext] at hkeeps ⊢
    rw [hevents]
    cases hguest : W.guest with
    | true => exact hsame
    | false =>
      rw [hguest] at hkeeps
      cases upper with
      | nil =>
        obtain ⟨hsame', hnone⟩ := answered_keeps H (hbase rfl) hguest hkeeps
        show ∃ upper', Over B (H.answered a W) upper' (postAll (H.answerEvents a W) ts)
        rw [hsame', hnone]
        exact hsame
      | cons top as => exact h.answered H hB hguest a
  cases a with
  | go =>
    dsimp only [Hosted.next, Hosted.events]
    cases hguest : W.guest with
    | false => exact hsame
    | true =>
      have hW := h.guest hguest
      have hset := h.settled
      rw [hW] at hset
      obtain ⟨d, token, as, rfl, hpc⟩ := hset.running hguest
      rw [hset.stack]
      obtain ⟨upper', hupper⟩ := hset.turn H hB hguest hpc
      exact ⟨upper', hupper.over hB⟩
  | tick =>
    exact ⟨upper, h.aside (f := fun st => { st with epoch := (st.epoch + 1) % 2 ^ 64 })
      ⟨fun _ _ => rfl, fun _ _ => rfl, fun st err => by unfold latchInternalError; split <;> rfl⟩
      fun _ => ⟨rfl, rfl, rfl⟩⟩
  | post =>
    exact ⟨upper, h.aside (f := fun st => { st with gcRequest := true })
      ⟨fun _ _ => rfl, fun _ _ => rfl, fun st err => by unfold latchInternalError; split <;> rfl⟩
      fun _ => ⟨rfl, rfl, rfl⟩⟩
  | drop =>
    cases upper with
    | nil =>
      obtain ⟨hsame', hnone⟩ := dropped_keeps (hbase rfl) hkeeps
      show ∃ upper', Over B W.dropped upper' (postAll (Hosted.dropEvents W) ts)
      rw [hsame', hnone]
      exact hsame
    | cons top as =>
      rcases h.dropped hB with ⟨hsame', hnone⟩ | ⟨r, -, -, hover⟩
      · show ∃ upper', Over B W.dropped upper' (postAll (Hosted.dropEvents W) ts)
        rw [hsame', hnone]
        exact hsame
      · exact ⟨as, hover⟩
  | panic =>
    show ∃ upper', Over B (if W.guest then W else W.panicked) upper'
      (postAll (if W.guest then [] else Hosted.panicEvents W) ts)
    cases hguest : W.guest with
    | true => exact hsame
    | false =>
      have hkeeps' : B.Keeps (if W.guest then W else W.panicked) := hkeeps
      rw [hguest] at hkeeps'
      cases upper with
      | nil =>
        obtain ⟨hsame', hnone⟩ := panicked_keeps (hbase rfl) hkeeps'
        show ∃ upper', Over B W.panicked upper' (postAll (Hosted.panicEvents W) ts)
        rw [hsame', hnone]
        exact hsame
      | cons top as => exact h.panicked hB hguest
  | ret _ | grown _ _ | deadline _ => exact hanswer rfl rfl hkeeps
  | call _ _ _ _ _ _ | callHost _ _ | throw_ _ | take | use _ _ _ | peek _ | openScope
  | closeScope => exact hhosting rfl rfl hkeeps

/-! ## Runs -/

theorem postAll_append (evs evs' : List PendingEvent) (ts : List Tally) :
    postAll (evs ++ evs') ts = postAll evs' (postAll evs ts) :=
  List.foldl_append

/-- The run neither resumes nor ends the activities of `B`. -/
def RunsAbove (B : Nest σ) (as : List (Act σ)) (W : Nest σ) : Prop :=
  Along H.step (fun a W => B.Keeps (H.next a W)) as W

/-- What the run `as` does to the pending exception. -/
def happens (as : List (Act σ)) (W : Nest σ) : List PendingEvent := (marks H.step as W).flatten

theorem Over.run (hB : Sound B) {as : List (Act σ)} (h : Over B W upper ts)
    (habove : RunsAbove H B as W) :
    ∃ upper', Over B (run H.step as W) upper' (postAll (happens H as W) ts) := by
  induction as generalizing W upper ts with
  | nil => exact ⟨upper, h⟩
  | cons a as ih =>
    obtain ⟨upper', hupper⟩ := h.step H hB habove.1
    obtain ⟨upper'', hupper'⟩ := ih hupper habove.2
    refine ⟨upper'', ?_⟩
    show Over B _ upper'' (postAll (H.events a W ++ happens H as (H.next a W)) ts)
    rw [postAll_append]
    exact hupper'

/-- Where the embedder's code has control, calls can be made once the dropped ones are recovered. -/
theorem Over.sound (hB : Sound B) (h : Over B W upper ts) (hhost : W.guest = false) :
    Sound W.recover := by
  have hguest : W.recover.guest = false := (recover_frame W).2.1.trans hhost
  have hparked := h.settled.parked hguest
  exact {
    guest := hguest
    parkable := hparked.parkable hB.parkable
    live := by
      rw [h.settled.cleanups]
      exact hB.head_live upper
    below := by
      rw [h.settled.cleanups]
      exact boundary_lt hB hparked
    tokens := h.settled.tokens
    fresh := h.settled.fresh
    generation := by
      obtain ⟨t, saved, -, htells, -⟩ := h.settled.booked
      rw [htells.generation]
      exact Nat.mod_lt _ (by decide) }

theorem sound_idle (rest : σ) : Sound (idle (StoreState.new rest)) where
  guest := rfl
  parkable _ := rfl
  live _ hr := nomatch hr
  below _ hr := nomatch hr
  tokens := .nil
  fresh _ hr := nomatch hr
  generation := Nat.two_pow_pos 64

/-- Nothing lies below a store in which nothing runs. -/
theorem above_idle (rest : σ) (as : List (Act σ)) (W : Nest σ) :
    RunsAbove H (idle (StoreState.new rest)) as W :=
  along_of_forall (fun _ _ => ⟨Nat.zero_le _, fun _ _ => rfl⟩) as W

theorem over_idle (rest : σ) (as : List (Act σ)) : ∃ upper ts,
    Over (idle (StoreState.new rest)) (run H.step as (idle (StoreState.new rest))) upper ts := by
  have hidle := sound_idle rest
  obtain ⟨upper, hover⟩ := (hidle.settled.over hidle).run H hidle (above_idle H rest as _)
  exact ⟨upper, _, hover⟩

/-- In every run of a store, calls can be made wherever the embedder's code has control. -/
theorem sound_run (rest : σ) (as : List (Act σ))
    (hhost : (run H.step as (idle (StoreState.new rest))).guest = false) :
    Sound (run H.step as (idle (StoreState.new rest))).recover := by
  obtain ⟨upper, ts, hover⟩ := over_idle H rest as
  exact hover.sound (sound_idle rest) hhost

end Nest

end SubmilliWasm
