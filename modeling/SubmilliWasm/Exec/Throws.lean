/-
# The pending exception of a host call

One slot holds the exception a host function has thrown or a nested call has surfaced, and one
counter tells its generations apart (`src/store/managed.rs`).  Every call of the embedder's code
saves both and restores them in some of its endings (`prepare_host_call` and `finish_host_call` in
`src/exec/host.rs`, `take_epoch_action` in `src/exec/epoch.rs`, `DirectCallBoundary` in
`src/func/direct_call.rs`, `restore_after_panic` in `src/exec/guard.rs`), and so do the calls nested
in it.  What the slot holds when a call ends is told by the installs that stand: those that no
nested call has restored away.
-/
import SubmilliWasm.Exec.Cancellation

namespace SubmilliWasm

open Runs StoreState

variable {σ : Type}

/-! ## Calls of the embedder's code -/

namespace Nest

/-- What the call of the embedder's code that has control has saved. -/
def embedder (W : Nest σ) : Option Parked :=
  match W.guest, W.stack with
  | false, .wasm d _ :: _ => d.pc.scope
  | false, .direct b :: _ => some b.scope
  | _, _ => none

variable {B W W₀ : Nest σ} {upper as : List Activity} {ts : List Tally} (H : Hosted σ)

/-- A call of the embedder's code: the step `o` opens its scope, and `bs` is what happens until it
ends, the calls nested in it included. -/
structure Episode (W₀ : Nest σ) (o : Act σ) (bs : List (Act σ)) (scope : Parked) : Prop where
  opens : H.events o W₀ = [.opened]
  scope : (H.next o W₀).embedder = some scope
  above : RunsAbove H (H.next o W₀) bs (H.next o W₀)
  back : (Runs.run H.step bs (H.next o W₀)).stack.length = (H.next o W₀).stack.length

/-- The installs of a run that stand at its end, and whether the slot was emptied since. -/
def tally (bs : List (Act σ)) (W : Nest σ) : Tally :=
  (postAll (happens H bs W) [⟨[], false⟩]).headD ⟨[], false⟩

variable {scope : Parked}

/-- The embedder's code runs on top of the activities. -/
theorem embedder_scopes (h : W.embedder = some scope) :
    W.guest = false ∧ ∃ a as inner, W.stack = a :: as ∧ a.scopes = scope :: inner := by
  unfold embedder at h
  split at h
  · rename_i d token as hguest hstack
    refine ⟨hguest, _, _, d.scope.toList, hstack, ?_⟩
    rw [Activity.scopes, h]
    rfl
  · rename_i b as hguest hstack
    obtain rfl := Option.some.inj h
    exact ⟨hguest, _, _, [], hstack, rfl⟩
  · cases h

/-- Any state in which the embedder's code has control can be the one the invariant is relative
to. -/
theorem Over.rebase (hB : Sound B) (h : Over B W upper ts) (hhost : W.guest = false) :
    Over W.recover W [] [⟨[], false⟩] where
  settled := (h.sound hB hhost).settled
  waiting := h.waiting
  roots := h.roots
  tokens := h.tokens
  fresh := h.fresh
  guest := h.guest

/-- The scope of the embedder's code that runs is the first of those that are open. -/
theorem Over.embedder_booked (h : Over B W upper ts) (hB : B.stack = [])
    (hscope : W.embedder = some scope) : ∃ t s saved, ts = t :: s :: saved ∧
      t.Tells B.store W.recover.store.pending W.recover.store.pendingGeneration ∧
      s.Tells B.store scope.pending scope.pendingGeneration := by
  obtain ⟨-, a, as, inner, hstack, hscopes⟩ := embedder_scopes hscope
  have hupper : upper = a :: as := by
    rw [← hstack, ← (recover_frame W).1, h.settled.stack, hB, List.append_nil]
  obtain ⟨t, saved, rfl, htells, hsaved⟩ := h.settled.booked
  rw [hupper, List.flatMap_cons, hscopes, List.cons_append] at hsaved
  obtain ⟨s, saved', hs, -, rfl⟩ := List.forall₂_cons_left_iff.mp hsaved
  exact ⟨t, s, saved', rfl, htells, hs⟩

/-- What a run of the embedder's code is relative to: the state in which it got control. -/
structure Begins (W₀ W₁ : Nest σ) (scope : Parked) : Prop where
  sound : Sound W₁.recover
  rebased : Over W₁.recover W₁ [] [⟨[], false⟩]
  saved : scope.pending = W₀.recover.store.pending ∧
    scope.pendingGeneration = W₀.recover.store.pendingGeneration
  slot : W₁.recover.store.pending = scope.pending ∧
    W₁.recover.store.pendingGeneration = scope.pendingGeneration

theorem Over.begins (hB : Sound B) (hnone : B.stack = []) (h : Over B W₀ upper ts) {o : Act σ}
    {scope : Parked} (hopens : H.events o W₀ = [.opened])
    (hscope : (H.next o W₀).embedder = some scope) : Begins W₀ (H.next o W₀) scope := by
  obtain ⟨hhost, -⟩ := embedder_scopes hscope
  have hkeeps : B.Keeps (H.next o W₀) :=
    ⟨by rw [hnone]; exact Nat.zero_le _, fun _ _ => hnone⟩
  obtain ⟨upper', hover⟩ := h.step H hB hkeeps
  rw [hopens] at hover
  obtain ⟨t, saved, rfl, htells, -⟩ := h.settled.booked
  obtain ⟨t', s, saved', hts, htells', hs⟩ := hover.embedder_booked hnone hscope
  obtain ⟨ht', hrest⟩ := List.cons.inj (show t :: t :: saved = t' :: s :: saved' from hts)
  obtain ⟨hs', -⟩ := List.cons.inj hrest
  rw [← ht'] at htells'
  rw [← hs'] at hs
  exact {
    sound := hover.sound hB hhost
    rebased := hover.rebase hB hhost
    saved := ⟨hs.pending.trans htells.pending.symm, hs.generation.trans htells.generation.symm⟩
    slot := ⟨htells'.pending.trans hs.pending.symm,
      htells'.generation.trans hs.generation.symm⟩ }

theorem runsAbove_recover (B : Nest σ) (bs : List (Act σ)) (W : Nest σ) :
    RunsAbove H B.recover bs W ↔ RunsAbove H B bs W := by
  have hsame : (fun (a : Act σ) W => B.recover.Keeps (H.next a W)) =
      fun a W => B.Keeps (H.next a W) := by
    funext a W
    unfold Keeps
    rw [(recover_frame B).1]
  unfold RunsAbove
  rw [hsame]

/-- What the slot holds when the embedder's code is about to return. -/
structure Ends (W₀ W : Nest σ) (scope : Parked) (t : Tally) : Prop where
  guest : W.guest = false
  saved : scope.pending = W₀.recover.store.pending ∧
    scope.pendingGeneration = W₀.recover.store.pendingGeneration
  pending : W.recover.store.pending = t.slot scope.pending
  generation : W.recover.store.pendingGeneration =
    (scope.pendingGeneration + t.installed.length) % 2 ^ 64
  bound : scope.pendingGeneration < 2 ^ 64

theorem Episode.ends (hB : Sound B) (hnone : B.stack = []) (h₀ : Over B W₀ upper ts) {o : Act σ}
    {bs : List (Act σ)} (h : Episode H W₀ o bs scope) :
    (Runs.run H.step bs (H.next o W₀)).stack = (H.next o W₀).stack ∧
      Ends W₀ (Runs.run H.step bs (H.next o W₀)) scope (tally H bs (H.next o W₀)) := by
  have hbegins := h₀.begins H hB hnone h.opens h.scope
  obtain ⟨hhost, a, as, inner, hstack, -⟩ := embedder_scopes h.scope
  obtain ⟨upper', hover⟩ :=
    hbegins.rebased.run H hbegins.sound ((runsAbove_recover H _ _ _).mpr h.above)
  have hback := h.back
  generalize hW₁ : H.next o W₀ = W₁ at *
  have hframe := (recover_frame W₁).1
  have hstack' : (Runs.run H.step bs W₁).stack = upper' ++ W₁.stack := by
    rw [← (recover_frame _).1, hover.settled.stack, hframe]
  obtain rfl : upper' = [] := by
    rw [hstack', List.length_append] at hback
    exact List.length_eq_zero_iff.mp (by omega)
  obtain ⟨t, saved, hts, htells, hsaved⟩ := hover.settled.booked
  have htally : tally H bs W₁ = t := by
    unfold tally
    rw [hts]
    rfl
  refine ⟨hstack', ?_, hbegins.saved, ?_, ?_, ?_⟩
  · -- Only a driver above the embedder's code could be at work.
    refine Bool.eq_false_of_not_eq_true fun hguest => ?_
    obtain ⟨d, token, as, hno, -⟩ :=
      hover.settled.running ((recover_frame _).2.1.trans hguest)
    cases hno
  · rw [htally, ← hbegins.slot.1]
    exact htells.pending
  · rw [htally, ← hbegins.slot.2]
    exact htells.generation
  · rw [← hbegins.slot.2]
    exact hbegins.sound.generation

/-! ## The return of a host function -/

end Nest

namespace Hosted

variable (H : Hosted σ)

variable {call : HostCallState}

/-- A mark of an exception whose generation is that of before the call stays an error. -/
theorem finish_thrown_stale {st : StoreState σ}
    (hstale : st.pendingGeneration = call.scope.pendingGeneration) (e : Execution) (stopDepth : ℕ) :
    H.finishHostCall st e call (.error .thrown) stopDepth =
      (st.truncateRoots call.scope.rootsMark, e, .error .thrown) :=
  if_neg fun hno => hno.2 hstale

/-- Otherwise the slot holds the exception that is meant, unless it was emptied. -/
theorem finish_thrown_fresh {st : StoreState σ}
    (hfresh : st.pendingGeneration ≠ call.scope.pendingGeneration) (e : Execution) (stopDepth : ℕ) :
    (H.finishHostCall st e call (.error .thrown) stopDepth).2 =
      match st.pending with
      | none => (e, .error (.resultShape "host throw marker had no pending exception"))
      | some exn => H.raiseHostException st.rest e exn stopDepth := by
  unfold Interp.finishHostCall
  simp only
  rw [if_pos ⟨trivial, hfresh⟩]
  cases st.pending with
  | none => rfl
  | some exn => rfl

/-- A host function's return hands the execution of the callback back to the driver. -/
theorem returned_exec (st : StoreState σ) (slot : Execution) (d : Drive)
    (hpc : d.pc = .hostFn call ∨ d.pc = .hostFnAsync call) (r : Except ExecError (List Val)) :
    ∃ st' d', H.returned ⟨st, slot, [d], false⟩ d [] r = ⟨st', d.exec, [d'], true⟩ ∧
      d'.exec = (H.afterCallback st slot call r d.boundary.runStop).2.1 ∧
      ∀ err, (H.afterCallback st slot call r d.boundary.runStop).2.2 = .error err →
        d'.pc = .done (.error err) := by
  unfold Interp.returned
  rcases hpc with hpc | hpc
  · rw [hpc]
    simp only
    rcases H.afterCallback st slot call r d.boundary.runStop with ⟨st', e, err | u⟩
    · exact ⟨st', _, rfl, rfl, fun _ herr =>
        congrArg (fun err : ExecError => Pc.done (.error err)) (Except.error.inj herr)⟩
    · have hok : ∀ (d' : Drive), d'.exec = e → ∃ st'' d'',
          (⟨st', d.exec, [d'], true⟩ : State σ) = ⟨st'', d.exec, [d''], true⟩ ∧ d''.exec = e ∧
          ∀ err, (.ok u : Except ExecError Unit) = .error err → d''.pc = .done (.error err) :=
        fun d' hexec => ⟨st', d', rfl, hexec, fun _ hno => nomatch hno⟩
      simp only
      split
      · exact hok _ rfl
      · split
        · exact hok _ rfl
        · exact hok _ rfl
  · rw [hpc]
    simp only
    rcases H.afterCallback st slot call r d.boundary.runStop with ⟨st', e, err | u⟩
    · exact ⟨st', _, rfl, rfl, fun _ herr =>
        congrArg (fun err : ExecError => Pc.done (.error err)) (Except.error.inj herr)⟩
    · simp only
      split
      · exact ⟨_, _, rfl, rfl, fun _ hno => nomatch hno⟩
      · exact ⟨_, _, rfl, rfl, fun _ hno => nomatch hno⟩

end Hosted

namespace Nest

variable {B W W₀ : Nest σ} (H : Hosted σ)

variable {below : List Activity} {scope : Parked} {exn : ℕ}

variable {d : Drive} {token : ℕ}

theorem next_ret (hhost : W.guest = false) (hstack : W.stack = .wasm d token :: below)
    {call : HostCallState} (hpc : d.pc = .hostFn call ∨ d.pc = .hostFnAsync call)
    (r : Except ExecError (List Val)) :
    H.next (.ret r) W =
      W.recover.absorb below token (H.returned ⟨W.recover.store, W.recover.slot, [d], false⟩ d [] r)
    := by
  have hsingle : W.recover.single d = ⟨W.recover.store, W.recover.slot, [d], false⟩ := by
    rw [single, (recover_frame W).2.1, hhost]
  have hawaits : Hosted.awaits (.ret r : Act σ) d.pc = true := by
    rcases hpc with hpc | hpc <;> rw [hpc] <;> rfl
  show (if W.guest then W else H.answered (.ret r) W) = _
  unfold Hosted.answered
  rw [hhost, hstack]
  simp only [hawaits, if_true, Bool.false_eq_true, if_false]
  rw [hsingle]
  rfl

/-- What a host function called by wasm gets for the mark of a thrown exception: if an install of
its call stands and the slot was not emptied since, the last one is raised at its call site. -/
theorem thrown_matched (rest : σ) (as bs : List (Act σ)) (o : Act σ) {d : Drive} {token : ℕ}
    {below : List Activity} {call : HostCallState}
    (h : Episode H (Runs.run H.step as (idle (StoreState.new rest))) o bs call.scope)
    (hstack : (H.next o (Runs.run H.step as (idle (StoreState.new rest)))).stack =
      .wasm d token :: below)
    (hpc : d.pc = .hostFn call ∨ d.pc = .hostFnAsync call) :
    let W₁ := H.next o (Runs.run H.step as (idle (StoreState.new rest)))
    let W := Runs.run H.step bs W₁
    let t := tally H bs W₁
    let st := W.recover.store
    let out := H.afterCallback st W.recover.slot call (.error .thrown) d.boundary.runStop
    (∃ d', (H.next (.ret (.error .thrown)) W).stack = .wasm d' token :: below ∧
      d'.exec = out.2.1 ∧ ∀ err, out.2.2 = .error err → d'.pc = .done (.error err)) ∧
    (∀ err, st.internalError = some err → out.2 = (W.recover.slot, .error err)) ∧
    (st.internalError = none → t.installed.length % 2 ^ 64 = 0 →
      out.2 = (W.recover.slot, .error .thrown)) ∧
    (st.internalError = none → t.installed.length % 2 ^ 64 ≠ 0 → t.taken = true →
      out.2 = (W.recover.slot, .error (.resultShape "host throw marker had no pending exception")))
    ∧ (st.internalError = none → t.installed.length % 2 ^ 64 ≠ 0 → t.taken = false →
      ∃ exn, t.installed.getLast? = some exn ∧
        out.2 = H.raiseHostException st.rest W.recover.slot exn d.boundary.runStop) := by
  intro W₁ W t st out
  obtain ⟨upper, ts, hover⟩ := over_idle H rest as
  obtain ⟨hsame, hends⟩ := h.ends H (sound_idle rest) rfl hover
  have hgeneration : st.pendingGeneration =
    (call.scope.pendingGeneration + t.installed.length) % 2 ^ 64 := hends.generation
  have hbound := hends.bound
  have hfresh : st.pendingGeneration = call.scope.pendingGeneration ↔
      t.installed.length % 2 ^ 64 = 0 := by
    rw [hgeneration]
    omega
  refine ⟨?_, ?_, ?_, ?_, ?_⟩
  · obtain ⟨st', d', hreturned, hexec, herr⟩ :=
      H.returned_exec st W.recover.slot d hpc (.error .thrown)
    refine ⟨d', ?_, hexec, herr⟩
    rw [next_ret H hends.guest (hsame.trans hstack) hpc, hreturned]
    rfl
  · intro err hlatched
    show (H.afterCallback st W.recover.slot call (.error .thrown) d.boundary.runStop).2 = _
    unfold Interp.afterCallback
    rw [hlatched]
  all_goals
    intro hnone
    have hout : out = H.finishHostCall st W.recover.slot call (.error .thrown)
        d.boundary.runStop := by
      show H.afterCallback st W.recover.slot call (.error .thrown) d.boundary.runStop = _
      unfold Interp.afterCallback
      rw [hnone]
    rw [hout]
  · intro hzero
    rw [H.finish_thrown_stale (hfresh.mpr hzero)]
  · intro hzero htaken
    have hpending : st.pending = none := by
      have hslot : st.pending = t.slot call.scope.pending := hends.pending
      rw [hslot, Tally.slot, if_pos htaken]
    rw [H.finish_thrown_fresh fun hno => hzero (hfresh.mp hno), hpending]
  · intro hzero htaken
    have hne : t.installed ≠ [] := by
      intro hno
      rw [hno] at hzero
      exact hzero rfl
    have hlast : t.installed.getLast? = some (t.installed.getLast hne) :=
      List.getLast?_eq_some_getLast hne
    have hpending : st.pending = some (t.installed.getLast hne) := by
      have hslot : st.pending = t.slot call.scope.pending := hends.pending
      rw [hslot, Tally.slot, htaken, hlast]
      rfl
    refine ⟨t.installed.getLast hne, hlast, ?_⟩
    rw [H.finish_thrown_fresh fun hno => hzero (hfresh.mp hno), hpending]

/-- A host function installs two exceptions and returns the mark: the second is raised. -/
theorem thrown_matched_last :
    let H := Hosted.idle 65536 false false
    let W := Runs.run H.step [.call 0 0 (.ofOps [.call (.func 0)]) [] [] false, .go, .go,
      .throw_ (some 3), .throw_ (some 4)] (idle (StoreState.new ()))
    ∃ d, (H.next (.ret (.error .thrown)) W).stack = [.wasm d 0] ∧
      d.exec = (H.raiseHostException () W.recover.slot 4 1).1 := by
  have h := thrown_matched (Hosted.idle 65536 false false) ()
    [.call 0 0 (.ofOps [.call (.func 0)]) [] [] false, .go] [.throw_ (some 3), .throw_ (some 4)] .go
    ⟨rfl, rfl, ⟨⟨by decide, fun _ hno => nomatch hno⟩, ⟨by decide, fun _ hno => nomatch hno⟩,
      trivial⟩, rfl⟩ rfl (.inl rfl)
  obtain ⟨⟨d, hstack, hexec, -⟩, -, -, -, hraised⟩ := h
  obtain ⟨exn, hlast, hout⟩ := hraised rfl (by decide) rfl
  obtain rfl : 4 = exn := Option.some.inj hlast
  exact ⟨d, hstack, hexec.trans (congrArg Prod.fst hout)⟩

/-- Installs of one host function after another. -/
theorem run_throws (exn : ℕ) (hexn : (H.exn W.store.rest exn).isOk = true)
    (hhosting : W.hosting = true) (hcleanups : W.cleanups = [])
    (hbound : W.store.pendingGeneration < 2 ^ 64) (n : ℕ) :
    Runs.run H.step (List.replicate (n + 1) (.throw_ (some exn))) W = { W with
      store := { W.store with
        pending := some exn
        pendingGeneration := (W.store.pendingGeneration + (n + 1)) % 2 ^ 64 } } := by
  have hnext : ∀ W : Nest σ, (H.exn W.store.rest exn).isOk = true → W.hosting = true →
      W.cleanups = [] → H.next (.throw_ (some exn)) W =
        { W with store := W.store.setPending exn } := by
    intro W hexn hhosting hcleanups
    have hrecover : W.recover = W := by
      obtain ⟨st, slot, stack, guest, cleanups, nextToken⟩ := W
      obtain rfl : cleanups = [] := hcleanups
      rfl
    show (if W.hosting then H.hostAct (.throw_ (some exn)) W else W) = _
    rw [if_pos hhosting]
    show { W.recover with store := H.throw_ W.recover.store (some exn) } = _
    rw [hrecover]
    unfold Hosted.throw_
    cases hfound : H.exn W.store.rest exn with
    | error err =>
      rw [hfound] at hexn
      nomatch hexn
    | ok found => simp only [hfound]
  induction n generalizing W with
  | zero =>
    show H.next (.throw_ (some exn)) W = _
    rw [hnext W hexn hhosting hcleanups]
    rfl
  | succ n ih =>
    rw [List.replicate_succ]
    show Runs.run H.step (List.replicate (n + 1) (.throw_ (some exn)))
      (H.next (.throw_ (some exn)) W) = _
    rw [hnext W hexn hhosting hcleanups, ih (W := { W with store := W.store.setPending exn }) hexn
      hhosting hcleanups (Nat.mod_lt _ (Nat.two_pow_pos 64))]
    have hgeneration : ((W.store.pendingGeneration + 1) % 2 ^ 64 + (n + 1)) % 2 ^ 64 =
        (W.store.pendingGeneration + (n + 1 + 1)) % 2 ^ 64 := by
      omega
    unfold StoreState.setPending
    simp only [hgeneration]

/-- After a full round of installs the counter is where it was. -/
theorem run_throws_round {n : ℕ} (exn : ℕ) (hexn : (H.exn W.store.rest exn).isOk = true)
    (hhosting : W.hosting = true) (hcleanups : W.cleanups = [])
    (hbound : W.store.pendingGeneration < 2 ^ 64) (hn : n % 2 ^ 64 = 0) (hpos : 0 < n) :
    Runs.run H.step (List.replicate n (.throw_ (some exn))) W =
      { W with store := { W.store with pending := some exn } } := by
  obtain ⟨m, rfl⟩ := Nat.exists_eq_add_one_of_ne_zero (Nat.ne_of_gt hpos)
  have hgeneration : (W.store.pendingGeneration + (m + 1)) % 2 ^ 64 =
      W.store.pendingGeneration := by
    omega
  rw [run_throws H exn hexn hhosting hcleanups hbound m, hgeneration]

/-- A mark comes to nothing when the nested call that installed the exception was dropped, when an
internal error is latched, and when the counter has come round to where it was. -/
theorem thrown_unmatched :
    let H := Hosted.idle 65536 false false
    let start : List (Act Unit) := [.call 0 0 (.ofOps [.call (.func 0)]) [] [] false, .go, .go]
    (∃ d, (Runs.run H.step (start ++ [.callHost [] true, .throw_ (some 3), .drop,
      .ret (.error .thrown)]) (idle (StoreState.new ()))).stack = [.wasm d 0] ∧
      d.pc = .done (.error .thrown)) ∧
    (∃ d, (Runs.run H.step (start ++ [.throw_ (some 3), .throw_ none, .ret (.error .thrown)])
      (idle (StoreState.new ()))).stack = [.wasm d 0] ∧
      d.pc = .done (.error (.gcMetadata "host attempted to throw a stale exception reference"))) ∧
    ∃ d, (Runs.run H.step (start ++ (List.replicate (2 ^ 64) (.throw_ (some 3)) ++
      [.ret (.error .thrown)])) (idle (StoreState.new ()))).stack = [.wasm d 0] ∧
      d.pc = .done (.error .thrown) := by
  refine ⟨⟨_, rfl, rfl⟩, ⟨_, rfl, rfl⟩, ?_⟩
  have hround := run_throws_round (Hosted.idle 65536 false false)
    (W := Runs.run (Hosted.idle 65536 false false).step
      [.call 0 0 (.ofOps [.call (.func 0)]) [] [] false, .go, .go] (idle (StoreState.new ())))
    3 rfl rfl rfl (by decide) (Nat.mod_self (2 ^ 64)) (Nat.two_pow_pos 64)
  rw [run_append, run_append, hround]
  exact ⟨_, rfl, rfl⟩

/-! ## The endings of a call -/

/-- The exception is one of those the store has. -/
def lives (rest : σ) (exn : ℕ) : Prop := (H.exn rest exn).isOk = true

/-- A step frees no exception that is pending, rooted or installed by it. -/
def Spares (a : Act σ) (W : Nest σ) : Prop :=
  ∀ exn, lives H W.store.rest exn →
    (exn, RefKind.exn) ∈ W.recover.store.gcRoots ∨ W.recover.store.pending = some exn ∨
      .installed exn ∈ H.events a W →
    lives H (H.next a W).store.rest exn

theorem recover_rest (W : Nest σ) : W.recover.store.rest = W.store.rest := by
  have hrestore : ∀ (r : AsyncCallCleanup) (st : StoreState σ) (slot : Execution),
      (r.restore st slot).1.rest = st.rest := by
    intro r st slot
    unfold AsyncCallCleanup.restore
    cases r.boundary with
    | none => rfl
    | some b =>
      simp only
      rcases slot.discardTo b.1 b.2 with err | e
      · simp only
        split
        · obtain ⟨e, he⟩ := latchInternalError_eq st err
          rw [he]
          rfl
        · rfl
      · rfl
  have hfrom : ∀ (rs : List AsyncCallCleanup) (W : Nest σ),
      (W.recoverFrom rs).store.rest = W.store.rest := by
    intro rs
    induction rs with
    | nil => exact fun W => rfl
    | cons r rs ih =>
      intro W
      rw [recoverFrom_cons]
      split
      · exact (ih _).trans (hrestore r W.store W.slot)
      · rfl
  exact hfrom W.cleanups W

theorem surfaced_live {st : StoreState σ} {r : Except ExecError Unit}
    (h : .installed exn ∈ H.surfaced st d r) : lives H st.rest exn := by
  unfold Hosted.surfaced at h
  split at h
  · split at h
    · rename_i hfound
      obtain ⟨rfl⟩ := List.mem_singleton.mp h
      unfold lives
      rw [hfound]
      rfl
    · nomatch h
  · nomatch h

/-- The exception that the embedder's code throws is live. -/
theorem hostEvents_live {a : Act σ} (h : .installed exn ∈ H.hostEvents a W) :
    lives H W.store.rest exn := by
  cases a with
  | throw_ thrown =>
    cases thrown with
    | none => exact nomatch h
    | some thrown =>
      unfold Hosted.hostEvents at h
      simp only at h
      split at h
      · rename_i hfound
        obtain ⟨rfl⟩ := List.mem_singleton.mp h
        rw [recover_rest] at hfound
        unfold lives
        rw [hfound]
        rfl
      · nomatch h
  | call _ _ _ _ _ isAsync =>
    unfold Hosted.hostEvents at h
    simp only at h
    split at h
    · nomatch List.mem_singleton.mp h
    · nomatch h
  | callHost _ _ =>
    unfold Hosted.hostEvents at h
    simp only at h
    split at h
    · nomatch h
    · nomatch List.mem_singleton.mp h
  | take =>
    unfold Hosted.hostEvents at h
    simp only at h
    split at h
    · nomatch h
    · split at h
      · nomatch List.mem_singleton.mp h
      · nomatch h
  | go | tick | post | use _ _ _ | peek _ | openScope | closeScope | ret _ | grown _ _
  | deadline _ | panic | drop => exact nomatch h

/-- A call that closes installs nothing but the exception it surfaces. -/
theorem turnEvents_live (h : .installed exn ∈ H.turnEvents W d token) :
    lives H W.store.rest exn := by
  unfold Hosted.turnEvents at h
  split at h
  · exact surfaced_live H h
  · split at h
    · rcases List.mem_cons.mp h with hno | h
      · nomatch hno
      · exact surfaced_live H h
    · nomatch List.mem_singleton.mp h
  · split at h
    · split at h
      · nomatch List.mem_singleton.mp h
      · nomatch h
    · nomatch h

theorem installed_notMem_closing {u : Bool} : .installed exn ∉ [Hosted.closing u] := by
  intro hno
  cases u with
  | false => exact nomatch List.mem_singleton.mp hno
  | true => exact nomatch List.mem_singleton.mp hno

theorem installed_notMem_answerEvents {a : Act σ} : .installed exn ∉ H.answerEvents a W := by
  intro hno
  unfold Hosted.answerEvents at hno
  split at hno
  · unfold Hosted.driverEvents at hno
    split at hno
    · exact installed_notMem_closing hno
    · exact installed_notMem_closing hno
    · nomatch List.mem_singleton.mp hno
    · exact installed_notMem_closing hno
    · nomatch hno
  · split at hno
    · unfold Hosted.directEvents at hno
      split at hno
      · exact installed_notMem_closing hno
      · split at hno
        · exact installed_notMem_closing hno
        · nomatch List.mem_singleton.mp hno
    · nomatch hno
  · nomatch hno

theorem installed_notMem_dropEvents : .installed exn ∉ Hosted.dropEvents W := by
  unfold Hosted.dropEvents
  split
  · split
    · split
      · simp
      · simp
      · simp
      · split <;> simp
      · simp
    · simp
  · split <;> simp
  · simp

theorem installed_notMem_panicEvents : .installed exn ∉ Hosted.panicEvents W := by
  unfold Hosted.panicEvents
  split
  · split
    · split <;> simp
    · split
      · simp
      · split <;> simp
  · simp
  · simp

/-- An exception is live when it is installed. -/
theorem installed_live {a : Act σ} (h : .installed exn ∈ H.events a W) :
    lives H W.store.rest exn := by
  cases a with
  | go =>
    unfold Hosted.events at h
    simp only at h
    split at h
    · exact turnEvents_live H h
    · nomatch h
  | tick | post => exact nomatch h
  | drop => exact absurd h installed_notMem_dropEvents
  | panic =>
    unfold Hosted.events at h
    simp only at h
    split at h
    · nomatch h
    · exact absurd h installed_notMem_panicEvents
  | ret _ | grown _ _ | deadline _ =>
    unfold Hosted.events at h
    simp only at h
    split at h
    · nomatch h
    · exact absurd h (installed_notMem_answerEvents H)
  | call _ _ _ _ _ _ | callHost _ _ | throw_ _ | take | use _ _ _ | peek _ | openScope
  | closeScope =>
    unfold Hosted.events at h
    simp only at h
    split at h
    · exact hostEvents_live H h
    · nomatch h

/-- What the books hold was there before, or is installed. -/
theorem mem_postAll {evs : List PendingEvent} {ts : List Tally} {t : Tally} (h : t ∈ postAll evs ts)
    (hexn : t.slot none = some exn) :
    (∃ s ∈ ts, s.slot none = some exn) ∨ .installed exn ∈ evs := by
  induction evs generalizing ts with
  | nil => exact .inl ⟨t, h, hexn⟩
  | cons ev evs ih =>
    rcases ih h with ⟨s, hs, hslot⟩ | hmem
    · have hpost : (∃ s ∈ ts, s.slot none = some exn) ∨ ev = .installed exn := by
        replace hs : s ∈ ev.post ts := hs
        unfold PendingEvent.post at hs
        split at hs
        · rename_i installed t' ts'
          rcases List.mem_cons.mp hs with rfl | hs
          · right
            rw [Tally.slot, if_neg Bool.false_ne_true, List.getLast?_concat] at hslot
            rw [Option.some.inj hslot]
          · exact .inl ⟨s, List.mem_cons_of_mem _ hs, hslot⟩
        · rcases List.mem_cons.mp hs with rfl | hs
          · cases hslot
          · exact .inl ⟨s, List.mem_cons_of_mem _ hs, hslot⟩
        · rcases List.mem_cons.mp hs with rfl | hs
          · exact .inl ⟨s, List.mem_cons_self, hslot⟩
          · exact .inl ⟨s, hs, hslot⟩
        · rcases List.mem_cons.mp hs with rfl | hs
          · exact .inl ⟨s, List.mem_cons_self, hslot⟩
          · exact .inl ⟨s, List.mem_cons_of_mem _ (List.mem_cons_of_mem _ hs), hslot⟩
        · exact .inl ⟨s, List.mem_cons_of_mem _ hs, hslot⟩
        · exact .inl ⟨s, hs, hslot⟩
      rcases hpost with hold | rfl
      · exact .inl hold
      · exact .inr List.mem_cons_self
    · exact .inr (List.mem_cons_of_mem _ hmem)

/-- What a scope has saved is rooted while it is open. -/
theorem Over.saved_rooted (h : Over B W upper ts) (hscope : scope ∈ upper.flatMap Activity.scopes)
    (hexn : scope.pending = some exn) : (exn, RefKind.exn) ∈ W.recover.store.gcRoots := by
  obtain ⟨a, ha, hmem⟩ := List.mem_flatMap.mp hscope
  have hmark : (⟨scope.rootsMark, scope.pending⟩ : RootMark) ∈ upper.flatMap Activity.marks := by
    refine List.mem_flatMap.mpr ⟨a, ha, ?_⟩
    cases a with
    | wasm d token => exact List.mem_map_of_mem hmem
    | direct b => exact List.mem_map_of_mem hmem
    | rootScope mark => exact nomatch hmem
  exact h.settled.roots.rooted hmark hexn

theorem exists_of_mem_right {α β : Type} {R : α → β → Prop} {l : List α} {l' : List β}
    (h : List.Forall₂ R l l') {b : β} (hb : b ∈ l') : ∃ a ∈ l, R a b := by
  induction h with
  | nil => exact nomatch hb
  | cons hab _ ih =>
    rcases List.mem_cons.mp hb with rfl | hb
    · exact ⟨_, List.mem_cons_self, hab⟩
    · obtain ⟨a, ha, hR⟩ := ih hb
      exact ⟨a, List.mem_cons_of_mem _ ha, hR⟩

/-- What the slot holds, or will hold when a scope is undone, is live. -/
def Lively (W : Nest σ) (ts : List Tally) : Prop :=
  ∀ t ∈ ts, ∀ exn, t.slot none = some exn → lives H W.store.rest exn

theorem Over.lively_step (hpending : B.store.pending = none)
    (h : Over B W upper ts) (hlively : Lively H W ts) {a : Act σ} (hspares : Spares H a W) :
    Lively H (H.next a W) (postAll (H.events a W) ts) := by
  intro t ht exn hexn
  rcases mem_postAll ht hexn with ⟨s, hs, hslot⟩ | hinstalled
  · refine hspares exn (hlively s hs exn hslot) ?_
    obtain ⟨t', saved, rfl, htells, hsaved⟩ := h.settled.booked
    rcases List.mem_cons.mp hs with rfl | hs
    · right; left
      rw [htells.pending, hpending]
      exact hslot
    · left
      obtain ⟨scope, hscope, hstells⟩ := exists_of_mem_right hsaved hs
      exact h.saved_rooted hscope (by rw [hstells.pending, hpending]; exact hslot)
  · exact hspares exn (installed_live H hinstalled) (.inr (.inr hinstalled))

/-- In every state of a run that frees no pending or rooted exception, the pending exception is
live, and so are those that open scopes have saved. -/
theorem lively_run (rest : σ) {as : List (Act σ)}
    (hspares : Along H.step (Spares H) as (idle (StoreState.new rest)))
    (hexn : (Runs.run H.step as (idle (StoreState.new rest))).recover.store.pending = some exn) :
    lives H (Runs.run H.step as (idle (StoreState.new rest))).store.rest exn := by
  have hidle := sound_idle rest
  have hrun : ∀ (as : List (Act σ)) (W : Nest σ) (upper : List Activity) (ts : List Tally),
      Over (idle (StoreState.new rest)) W upper ts → Lively H W ts →
      Along H.step (Spares H) as W → ∃ upper' ts',
        Over (idle (StoreState.new rest)) (Runs.run H.step as W) upper' ts' ∧
        Lively H (Runs.run H.step as W) ts' := by
    intro as
    induction as with
    | nil => exact fun W upper ts h hlively _ => ⟨upper, ts, h, hlively⟩
    | cons a as ih =>
      intro W upper ts h hlively hspares
      obtain ⟨upper', hover⟩ := h.step H hidle
        (show Keeps _ (H.next a W) from ⟨Nat.zero_le _, fun _ _ => rfl⟩)
      exact ih _ upper' _ hover (h.lively_step H rfl hlively hspares.1) hspares.2
  have hnone : Lively H (idle (StoreState.new rest)) [⟨[], false⟩] := by
    intro t ht exn hexn
    obtain rfl := List.mem_singleton.mp ht
    nomatch hexn
  obtain ⟨upper, ts, hover, hlively⟩ := hrun as _ [] _ (hidle.settled.over hidle) hnone hspares
  obtain ⟨t, saved, rfl, htells, -⟩ := hover.settled.booked
  exact hlively t List.mem_cons_self exn (htells.pending.symm.trans hexn)

/-- The slot is what it was before the call, or what the installs that stand have made of it. -/
def Settles (W₀ W' : Nest σ) (t : Tally) (undone : Bool) : Prop :=
  let st₀ := W₀.recover.store
  let st := W'.recover.store
  if undone then st.pending = st₀.pending ∧ st.pendingGeneration = st₀.pendingGeneration
  else st.pending = t.slot st₀.pending ∧
    st.pendingGeneration = (st₀.pendingGeneration + t.installed.length) % 2 ^ 64

/-- The embedder's code is about to return: the books at that point, and those of the scopes. -/
theorem Episode.booked (rest : σ) {as bs : List (Act σ)} {o : Act σ}
    (h : Episode H (Runs.run H.step as (idle (StoreState.new rest))) o bs scope) :
    let W₀ := Runs.run H.step as (idle (StoreState.new rest))
    let W := Runs.run H.step bs (H.next o W₀)
    Ends W₀ W scope (tally H bs (H.next o W₀)) ∧ W.embedder = some scope ∧
      ∃ upper ts, Over (idle (StoreState.new rest)) W upper ts := by
  intro W₀ W
  have hidle := sound_idle rest
  obtain ⟨upper, ts, hover⟩ := over_idle H rest as
  obtain ⟨hsame, hends⟩ := h.ends H hidle rfl hover
  obtain ⟨hhost, -⟩ := embedder_scopes h.scope
  refine ⟨hends, ?_, ?_⟩
  · have hscope := h.scope
    unfold embedder at hscope ⊢
    rw [hhost] at hscope
    rw [show W.guest = false from hends.guest, show W.stack = _ from hsame]
    exact hscope
  · have hruns : W = Runs.run H.step (as ++ o :: bs) (idle (StoreState.new rest)) := by
      rw [run_append]
      rfl
    rw [hruns]
    exact over_idle H rest _

/-- The events undo the innermost scope, or close it with the slot as it is. -/
def Decides (undone : Bool) (evs : List PendingEvent) : Prop :=
  ∀ x s saved, ∃ saved', postAll evs (x :: s :: saved) = (if undone then s else x) :: saved'

theorem decides_closing (undone : Bool) : Decides undone [Hosted.closing undone] := by
  intro x s saved
  cases undone with
  | true => exact ⟨saved, rfl⟩
  | false => exact ⟨saved, rfl⟩

theorem decides_panic (isAsync : Bool) : Decides true (.undone :: if isAsync then [.kept] else [])
    := by
  intro x s saved
  cases isAsync with
  | true =>
    -- The scope of the call is closed as well, if it has one.
    cases saved with
    | nil => exact ⟨[], rfl⟩
    | cons s' saved => exact ⟨saved, rfl⟩
  | false => exact ⟨saved, rfl⟩

/-- What an ending that closes a scope makes of the slot. -/
theorem Over.settles {rest : σ} (h : Over (idle (StoreState.new rest)) W upper ts)
    (hscope : W.embedder = some scope) {t : Tally} (hends : Ends W₀ W scope t) {a : Act σ}
    {undone : Bool} (hevents : Decides undone (H.events a W)) :
    Settles W₀ (H.next a W) t undone := by
  have hidle := sound_idle rest
  obtain ⟨upper', hover⟩ := h.step H hidle
    (show Keeps _ (H.next a W) from ⟨Nat.zero_le _, fun _ _ => rfl⟩)
  obtain ⟨x, s, saved, rfl, hx, hs⟩ := h.embedder_booked rfl hscope
  obtain ⟨x', saved', hts, hx', -⟩ := hover.settled.booked
  obtain ⟨saved'', hdecides⟩ := hevents x s saved
  rw [hdecides] at hts
  obtain ⟨rfl, -⟩ := List.cons.inj hts
  unfold Settles
  cases undone with
  | true =>
    exact ⟨(hx'.pending.trans hs.pending.symm).trans hends.saved.1,
      (hx'.generation.trans hs.generation.symm).trans hends.saved.2⟩
  | false =>
    constructor
    · rw [hx'.pending, if_neg Bool.false_ne_true, ← hx.pending, hends.pending, hends.saved.1]
    · rw [hx'.generation, if_neg Bool.false_ne_true, ← hx.generation, hends.generation,
        hends.saved.2]

theorem panic_decides (hscope : W.embedder = some scope) : Decides true (H.events .panic W) := by
  show Decides true (if W.guest then [] else Hosted.panicEvents W)
  unfold embedder at hscope
  unfold Hosted.panicEvents
  split at hscope
  · rename_i d token below hguest hstack
    rw [hguest, hstack]
    cases hpc : d.pc with
    | limiter g lscope =>
      rw [hpc] at hscope
      obtain rfl : lscope = some scope := hscope
      simp only [hpc]
      exact decides_panic d.isAsync
    | hostFn call | hostFnAsync call =>
      simp only [hpc]
      exact decides_panic d.isAsync
    | epochCallback scope =>
      simp only [hpc]
      exact decides_panic d.isAsync
    | run _ | loop _ | poll _ | serve _ | done _ =>
      rw [hpc] at hscope
      nomatch hscope
  · rename_i b below hguest hstack
    rw [hguest, hstack]
    exact decides_closing true
  · nomatch hscope

/-- A direct call completes its own record. -/
theorem Over.directEvents_eq (h : Over B W upper ts) (hnone : B.stack = []) {b : DirectCall}
    (hstack : W.stack = .direct b :: below) (r : Except ExecError (List Val)) :
    H.directEvents W.recover b r = [Hosted.closing (H.directUndoes W.recover.store b r)] := by
  have hupper : upper = .direct b :: below := by
    rw [← hstack, ← (recover_frame W).1, h.settled.stack, hnone, List.append_nil]
  have hcleanups := h.settled.cleanups
  rw [hupper, List.filterMap_cons, Activity.cleanup] at hcleanups
  unfold Hosted.directEvents
  cases htoken : b.token with
  | none => rfl
  | some token =>
    rw [htoken] at hcleanups
    have hcomplete : completeCleanup token W.recover.cleanups =
        .ok (below.filterMap Activity.cleanup ++ B.cleanups) := by
      rw [hcleanups]
      exact if_pos rfl
    simp only [hcomplete]

/-- The slot after a wasm call was dropped in a call of the embedder's code. -/
theorem Over.dropped_slot (hB : Sound B) (hnone : B.stack = []) (h : Over B W upper ts)
    {cscope : Parked} (hstack : W.stack = .wasm d token :: below) (hcscope : d.scope = some cscope)
    (hgone : W.dropped.stack = below) :
    W.dropped.recover.store.pending = cscope.pending ∧
      W.dropped.recover.store.pendingGeneration = cscope.pendingGeneration := by
  have hupper : upper = .wasm d token :: below := by
    rw [← hstack, ← (recover_frame W).1, h.settled.stack, hnone, List.append_nil]
  subst hupper
  rcases h.dropped hB with ⟨hno, -⟩ | ⟨r, hr, hundone, -⟩
  · rw [hno, hstack] at hgone
    exact absurd hgone (List.cons_ne_self _ _)
  · obtain rfl : r = ⟨token, false, cscope, some (d.boundary.valueBase, d.boundary.stopDepth)⟩ :=
      Option.some.inj (hr.symm.trans (cleanup_async hcscope token))
    exact ⟨hundone.pending, hundone.generation⟩

/-- A call of the embedder's code ends with the slot it began with when it panics, when an internal
error is latched, when its results have the wrong types and when the exception it has thrown is
raised in the guest or is missing; a direct call also when it is dropped.  When it returns or fails
otherwise, the installs that stand decide.  An async call that is dropped with the wasm call it was
made from takes the slot back to where that call began. -/
theorem pending_scoped (rest : σ) (as bs : List (Act σ)) (o : Act σ) {scope : Parked}
    (h : Episode H (Runs.run H.step as (idle (StoreState.new rest))) o bs scope) :
    let W₀ := Runs.run H.step as (idle (StoreState.new rest))
    let W := Runs.run H.step bs (H.next o W₀)
    let t := tally H bs (H.next o W₀)
    let st := W.recover.store
    Settles W₀ (H.next .panic W) t true ∧
    (∀ d token below call r, W.stack = .wasm d token :: below →
      d.pc = .hostFn call ∨ d.pc = .hostFnAsync call →
      Settles W₀ (H.next (.ret r) W) t (H.returnUndoes st call.scope call.sig.results r)) ∧
    (∀ b below r, W.stack = .direct b :: below →
      Settles W₀ (H.next (.ret r) W) t (H.directUndoes st b r)) ∧
    (∀ d token below r, W.stack = .wasm d token :: below → d.pc = .epochCallback scope →
      Settles W₀ (H.next (.deadline r) W) t st.internalError.isSome) ∧
    (∀ b below, W.stack = .direct b :: below → b.token.isSome = true →
      Settles W₀ (H.next .drop W) t true) ∧
    (∀ d token below cscope, W.stack = .wasm d token :: below → d.scope = some cscope →
      (H.next .drop W).stack = below →
      (H.next .drop W).recover.store.pending = cscope.pending ∧
      (H.next .drop W).recover.store.pendingGeneration = cscope.pendingGeneration) ∧
    ∀ e, Along H.step (Spares H) (as ++ o :: (bs ++ [e])) (idle (StoreState.new rest)) →
      ∀ exn, (H.next e W).recover.store.pending = some exn →
        lives H (H.next e W).store.rest exn := by
  intro W₀ W t st
  have hidle := sound_idle rest
  obtain ⟨hends, hscope, upper, ts, hover⟩ := h.booked
  have hguest : W.guest = false := hends.guest
  have hsettles : ∀ {a : Act σ} {undone : Bool}, H.events a W = [Hosted.closing undone] →
      Settles W₀ (H.next a W) t undone := by
    intro a undone hevents
    refine hover.settles H hscope hends ?_
    rw [hevents]
    exact decides_closing undone
  have hanswers : ∀ r : Except ExecError (List Val),
      H.events (.ret r) W = H.answerEvents (.ret r) W := by
    intro r
    show (if W.guest then [] else H.answerEvents (.ret r) W) = _
    rw [hguest]
    rfl
  refine ⟨hover.settles H hscope hends (panic_decides H hscope), ?_, ?_, ?_, ?_, ?_, ?_⟩
  · intro d token below call r hstack hpc
    refine hsettles ?_
    rw [hanswers]
    unfold Hosted.answerEvents
    rw [hstack]
    rcases hpc with hpc | hpc
    · simp only [Hosted.driverEvents, hpc]
      rfl
    · simp only [Hosted.driverEvents, hpc]
      rfl
  · intro b below r hstack
    refine hsettles ?_
    rw [hanswers]
    unfold Hosted.answerEvents
    rw [hstack]
    exact hover.directEvents_eq H rfl hstack r
  · intro d token below r hstack hpc
    refine hsettles ?_
    show (if W.guest then [] else H.answerEvents (.deadline r) W) = _
    rw [hguest]
    unfold Hosted.answerEvents
    rw [hstack]
    simp only [Hosted.driverEvents, hpc]
    rfl
  · intro b below hstack htoken
    refine hsettles ?_
    show Hosted.dropEvents W = _
    unfold Hosted.dropEvents
    rw [hstack]
    simp only [htoken]
    rfl
  · intro d token below cscope hstack hcscope hgone
    exact hover.dropped_slot hidle rfl hstack hcscope hgone
  · intro e hspares exn hexn
    have hruns : H.next e W =
        Runs.run H.step (as ++ o :: (bs ++ [e])) (idle (StoreState.new rest)) := by
      rw [run_append, run_cons, run_append]
      rfl
    rw [hruns] at hexn ⊢
    exact lively_run H rest hspares hexn

/-- A host function throws; then it panics, or it returns without an error. -/
theorem pending_scoped_thrown :
    let H := Hosted.idle 65536 false false
    let W := Runs.run H.step [.call 0 0 (.ofOps [.call (.func 0)]) [] [] false, .go, .go,
      .throw_ (some 3)] (idle (StoreState.new ()))
    (H.next .panic W).recover.store.pending = none ∧
      (H.next (.ret (.ok [])) W).recover.store.pending = some 3 := by
  have h := pending_scoped (Hosted.idle 65536 false false) ()
    [.call 0 0 (.ofOps [.call (.func 0)]) [] [] false, .go] [.throw_ (some 3)] .go
    ⟨rfl, rfl, ⟨⟨by decide, fun _ hno => nomatch hno⟩, trivial⟩, rfl⟩
  exact ⟨h.1.1, (h.2.1 _ _ _ _ (.ok []) rfl (.inl rfl)).1⟩

/-- An async host function is dropped with a wasm call in which an exception was pending when the
function was called; a host function returns after a call it has made was dropped with an exception
installed. -/
theorem pending_unscoped :
    let H : Hosted Unit := { Hosted.idle 65536 false false with
      callee := fun c _ _ _ => .ok (if c = .func 0 then .host 0 else .hostAsync 1) }
    let start : List (Act Unit) :=
      [.call 0 0 (.ofOps [.call (.func 0), .call (.func 1)]) [] [] true, .go, .go]
    let W := Runs.run H.step (start ++ [.throw_ (some 3), .ret (.ok []), .go, .go])
      (idle (StoreState.new ()))
    let V := Runs.run H.step (start ++ [.callHost [] true, .throw_ (some 3), .drop, .ret (.ok [])])
      (idle (StoreState.new ()))
    (W.embedder.map (·.pending) = some (some 3) ∧
      (H.next .drop W).recover.store.pending = none) ∧
    V.recover.store.pending = none :=
  ⟨⟨rfl, rfl⟩, rfl⟩

end Nest

end SubmilliWasm
