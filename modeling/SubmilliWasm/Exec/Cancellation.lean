/-
# Dropped futures

What a dropped call leaves (`AsyncCancellation` in `src/exec/guard.rs` and
`recover_cancelled_async_calls` in `src/store/inner.rs`).  The record of a call stays the same while
the call is open, whatever its driver and the calls nested in it do, so what is recovered is the
state in which the outermost dropped call began.

A future owns the futures of the calls nested in it, so these are dropped with it, and before it;
the marks their drops leave on the records could come in any order.
-/
import SubmilliWasm.Exec.Episodes

namespace SubmilliWasm

open Runs StoreState

variable {σ : Type}

/-! ## The stack of activities -/

/-- An activity begins, goes on under the same record, or ends. -/
inductive Restacked : List Activity → List Activity → Prop
  | same (as : List Activity) : Restacked as as
  | begins (a : Activity) (as : List Activity) : Restacked as (a :: as)
  | goesOn {a a' : Activity} (as : List Activity) (h : a'.cleanup = a.cleanup) :
      Restacked (a :: as) (a' :: as)
  | ends (a : Activity) (as : List Activity) : Restacked (a :: as) as

/-- The first activity above `below` keeps its record for as long as it is there. -/
theorem Restacked.bottom {below upper as : List Activity} {a : Activity}
    (h : Restacked (upper ++ a :: below) as) (hlen : below.length < as.length) :
    ∃ upper' a', as = upper' ++ a' :: below ∧ a'.cleanup = a.cleanup := by
  generalize hall : upper ++ a :: below = all at h
  cases h with
  | same as => exact ⟨upper, a, hall.symm, rfl⟩
  | begins b as => exact ⟨b :: upper, a, by rw [← hall]; rfl, rfl⟩
  | @goesOn b b' as hcleanup =>
    cases upper with
    | nil =>
      obtain ⟨rfl, rfl⟩ := List.cons.inj hall
      exact ⟨[], b', rfl, hcleanup⟩
    | cons b₀ upper =>
      obtain ⟨-, rfl⟩ := List.cons.inj hall
      exact ⟨b' :: upper, a, rfl, rfl⟩
  | ends b as =>
    cases upper with
    | nil =>
      obtain ⟨-, rfl⟩ := List.cons.inj hall
      exact absurd hlen (lt_irrefl _)
    | cons b₀ upper =>
      obtain ⟨-, rfl⟩ := List.cons.inj hall
      exact ⟨upper, a, rfl, rfl⟩

namespace Hosted

variable (H : Hosted σ) {W : Nest σ} {d : Drive}

theorem turn_restacked (hguest : W.guest = true) (hpc : d.pc.scope = none) (token : ℕ)
    (as : List Activity) : Restacked (.wasm d token :: as) (H.turn W d token as).stack := by
  by_cases hdone : ∃ r, d.pc = .done r
  · obtain ⟨r, hr⟩ := hdone
    -- The driver closes its call, whatever its record says.
    have hgone : ∀ W : Nest σ, W.guest = true → ∀ r : Except ExecError Unit,
        (W.absorb as token (H.finish (W.single d) d [] r)).stack = as := by
      intro W hguest r
      rw [Nest.single_running W d hguest]
      obtain ⟨st', slot', hstate, -⟩ := H.finish_slot W.store W.slot d r
      rw [hstate]
      rfl
    have hends : ∀ as', as' = as → Restacked (.wasm d token :: as) as' := by
      rintro as' rfl
      exact .ends _ _
    refine hends _ ?_
    unfold turn
    rw [hr]
    cases d.scope with
    | none =>
      have hstep : (H.machine .go (W.single d)).1 = H.finish (W.single d) d [] r := by
        rw [Nest.single_running W d hguest]
        show (H.guestStep false ⟨W.store, W.slot, [d], true⟩ d []).1 = _
        unfold Interp.guestStep
        rw [hr]
      show (W.absorb as token (H.machine .go (W.single d)).1).stack = as
      rw [hstep]
      exact hgone W hguest r
    | some scope =>
      simp only
      split
      · rename_i rs _
        exact hgone { W with cleanups := rs } hguest r
      · exact hgone { W with store := W.store.restorePending scope } hguest _
  · have hmoves := H.guestStep_moves W.store W.slot d (fun r hr => hdone ⟨r, hr⟩) hpc
    rw [H.turn_moving (fun r hr => hdone ⟨r, hr⟩) token as hguest]
    generalize (H.guestStep false ⟨W.store, W.slot, [d], true⟩ d []).1 = s at hmoves ⊢
    cases hmoves with
    | on _ hkin _ => exact .goesOn as (Activity.cleanup_kin hkin token)
    | opens _ hkin _ => exact .goesOn as (Activity.cleanup_kin hkin token)

theorem answered_restacked (hhost : W.guest = false) (a : Act σ) :
    Restacked W.stack (H.answered a W).stack := by
  unfold answered
  split
  · rename_i d token as hstack
    split
    · rename_i hawaits
      have hsingle : W.recover.single d = ⟨W.recover.store, W.recover.slot, [d], false⟩ := by
        rw [Nest.single, (Nest.recover_frame W).2.1, hhost]
      obtain ⟨st', d', hanswer, hkin, -⟩ :=
        H.answer_slot a W.recover.store W.recover.slot d hawaits
      show Restacked W.stack (W.recover.absorb as token (H.answer a (W.recover.single d) d)).stack
      rw [hstack, hsingle, hanswer]
      exact .goesOn as (Activity.cleanup_kin hkin token)
    · exact .same _
  · rename_i b as hstack
    split
    · rename_i r
      have hends : (H.directReturned W.recover b as r).stack = as := by
        unfold directReturned
        split
        · rfl
        · split <;> rfl
      rw [hstack, hends]
      exact .ends _ _
    · exact .same _
  · exact .same _

end Hosted

namespace Nest

variable {B W : Nest σ} {upper as : List Activity} {ts : List Tally} {d : Drive} {token : ℕ}
  (H : Hosted σ)

theorem panicked_restacked (W : Nest σ) : Restacked W.stack W.panicked.stack := by
  unfold panicked
  split
  · rename_i d token as hstack
    rw [hstack]
    split
    · split
      · exact .ends _ _
      · rw [hstack]
        exact .same _
    · split
      · rw [hstack]
        exact .same _
      · split
        · exact .ends _ _
        · exact .ends _ _
  · rename_i b as hstack
    rw [hstack]
    exact .ends _ _
  · exact .same _

theorem dropped_restacked (W : Nest σ) : Restacked W.stack W.dropped.stack := by
  unfold dropped
  split
  · rename_i d token as hstack
    split
    · split
      · rw [hstack]
        exact .ends _ _
      · rw [hstack]
        exact .ends _ _
      · rw [hstack]
        exact .ends _ _
      · simp only
        split
        · exact .same _
        · rw [hstack]
          exact .ends _ _
      · exact .same _
    · exact .same _
  · rename_i b as hstack
    split
    · exact .same _
    · rw [hstack]
      exact .ends _ _
  · exact .same _

theorem hostAct_restacked (W : Nest σ) (a : Act σ) : Restacked W.stack (H.hostAct a W).stack := by
  have hstack := (recover_frame W).1
  have hsame : Restacked W.stack W.recover.stack := by
    rw [hstack]
    exact .same _
  have hbegins : ∀ a, Restacked W.stack (a :: W.recover.stack) := by
    rw [hstack]
    exact fun a => .begins a _
  unfold Hosted.hostAct
  cases a with
  | call inst funcIndex code args resultTys isAsync =>
    show Restacked W.stack (W.recover.call inst funcIndex code args resultTys isAsync).stack
    unfold Nest.call
    rcases Interp.enter_slot W.recover.store W.recover.slot inst funcIndex code args resultTys
      isAsync with ⟨st', slot', hs, -⟩ | ⟨st', d, hs, -, -⟩
    · rw [hs]
      exact hsame
    · rw [hs]
      simp only
      split
      · exact hbegins _
      · exact hbegins _
  | callHost resultTys isAsync =>
    show Restacked W.stack (W.recover.callHost resultTys isAsync).stack
    unfold Nest.callHost
    split
    · split
      · exact hsame
      · exact hsame
    · simp only
      split
      · exact hbegins _
      · exact hbegins _
  | openScope => exact hbegins _
  | closeScope =>
    show Restacked W.stack W.recover.closeScope.stack
    unfold Nest.closeScope
    split
    · rename_i mark as hscope
      rw [← hstack, hscope]
      exact .ends _ _
    · exact hsame
  | throw_ _ | take | use _ _ _ => exact hsame
  | peek _ | go | tick | post | ret _ | grown _ _ | deadline _ | panic | drop => exact .same _

theorem Over.restacked (h : Over B W upper ts) (a : Act σ) :
    Restacked W.stack (H.next a W).stack := by
  have hhosting : ∀ a : Act σ, Restacked W.stack
    (if W.hosting then H.hostAct a W else W).stack := by
    intro a
    split
    · exact hostAct_restacked H W a
    · exact .same _
  have hanswer : ∀ a : Act σ, Restacked W.stack (if W.guest then W else H.answered a W).stack := by
    intro a
    split
    · exact .same _
    · rename_i hguest
      exact H.answered_restacked (Bool.eq_false_of_not_eq_true hguest) a
  cases a with
  | go =>
    dsimp only [Hosted.next]
    cases hguest : W.guest with
    | false => exact .same _
    | true =>
      have hset := h.settled
      rw [h.guest hguest] at hset
      obtain ⟨d, token, as, rfl, hpc⟩ := hset.running hguest
      rw [hset.stack]
      exact H.turn_restacked hguest hpc token _
  | tick | post => exact .same _
  | drop => exact dropped_restacked W
  | panic =>
    show Restacked W.stack (if W.guest then W else W.panicked).stack
    split
    · exact .same _
    · exact panicked_restacked W
  | ret _ | grown _ _ | deadline _ => exact hanswer _
  | call _ _ _ _ _ _ | callHost _ _ | throw_ _ | take | use _ _ _ | peek _ | openScope
  | closeScope => exact hhosting _

end Nest

/-! ## The outermost dropped call -/

/-- A call that begins an async activity. -/
def Act.isAsyncCall : Act σ → Bool
  | .call _ _ _ _ _ isAsync => isAsync
  | .callHost _ isAsync => isAsync
  | _ => false

namespace Nest

variable {B W : Nest σ} {upper as : List Activity} {ts : List Tally} (H : Hosted σ)

/-- The record of a call that begins says in which state it does. -/
theorem begun (hB : Sound B) {start : Act σ} (hasync : Act.isAsyncCall start = true)
    (hbegins : B.stack.length < (H.next start B).stack.length) :
    ∃ a r, (H.next start B).stack = a :: B.stack ∧ a.cleanup = some r ∧
      r.scope = ⟨B.store.gcRoots.length, B.store.pending, B.store.pendingGeneration⟩ := by
  have hrecover : B.recover = B := hB.settled.recover_eq hB
  have hnext : H.next start B = if B.hosting then H.hostAct start B else B := by
    cases start with
    | call _ _ _ _ _ _ | callHost _ _ => rfl
    | go | tick | post | ret _ | grown _ _ | deadline _ | panic | drop | throw_ _ | take
    | use _ _ _ | peek _ | openScope | closeScope => exact nomatch hasync
  rw [hnext] at hbegins ⊢
  by_cases hhosting : B.hosting = true
  · rw [if_pos hhosting] at hbegins ⊢
    cases start with
    | call inst funcIndex code args resultTys isAsync =>
      obtain rfl : isAsync = true := hasync
      have hact : H.hostAct (.call inst funcIndex code args resultTys true) B =
          B.call inst funcIndex code args resultTys true := by
        show B.recover.call inst funcIndex code args resultTys true = _
        rw [hrecover]
      rw [hact] at hbegins ⊢
      unfold Nest.call at hbegins ⊢
      rcases Interp.enter_slot B.store B.slot inst funcIndex code args resultTys true with
        ⟨st', slot', hs, -⟩ | ⟨st', d, hs, -, hscope⟩
      · rw [hs] at hbegins
        exact absurd hbegins (lt_irrefl _)
      · rw [hs]
        rcases hscope with ⟨hno, -⟩ | ⟨scope, -, hscope, hopens⟩
        · nomatch hno
        · simp only [hscope]
          exact ⟨_, _, rfl, cleanup_async hscope _, hopens.scope_eq⟩
    | callHost resultTys isAsync =>
      obtain rfl : isAsync = true := hasync
      have hact : H.hostAct (.callHost resultTys true) B = B.callHost resultTys true := by
        show B.recover.callHost resultTys true = _
        rw [hrecover]
      rw [hact] at hbegins ⊢
      unfold Nest.callHost at hbegins ⊢
      split at hbegins
      · split at hbegins
        · exact absurd hbegins (lt_irrefl _)
        · exact absurd hbegins (lt_irrefl _)
      · rename_i hsound
        rw [if_neg hsound]
        exact ⟨_, _, rfl, rfl, rfl⟩
    | go | tick | post | ret _ | grown _ _ | deadline _ | panic | drop | throw_ _ | take
    | use _ _ _ | peek _ | openScope | closeScope => exact nomatch hasync
  · rw [if_neg hhosting] at hbegins
    exact absurd hbegins (lt_irrefl _)

/-- While the call is open, whatever is nested in it, its record stays. -/
theorem Over.run_bottom (hB : Sound B) {bs : List (Act σ)} {a : Activity} (h : Over B W upper ts)
    (hstack : ∃ inner, W.stack = inner ++ a :: B.stack)
    (hopen : Along H.step (fun b W => B.stack.length < (H.next b W).stack.length) bs W) :
    ∃ upper' ts', Over B (Runs.run H.step bs W) upper' ts' ∧ ∃ inner a',
      (Runs.run H.step bs W).stack = inner ++ a' :: B.stack ∧ a'.cleanup = a.cleanup := by
  induction bs generalizing W upper ts a with
  | nil =>
    obtain ⟨inner, hstack⟩ := hstack
    exact ⟨upper, ts, h, inner, a, hstack, rfl⟩
  | cons b bs ih =>
    obtain ⟨inner, hstack⟩ := hstack
    have hlonger : B.stack.length < (H.next b W).stack.length := hopen.1
    have hkeeps : B.Keeps (H.next b W) :=
      ⟨hlonger.le, fun hno => absurd hno (Nat.ne_of_gt hlonger)⟩
    obtain ⟨upper', hover⟩ := h.step H hB hkeeps
    have hrestacked := h.restacked H b
    rw [hstack] at hrestacked
    obtain ⟨inner', a', hstack', ha'⟩ := hrestacked.bottom hlonger
    obtain ⟨upper'', ts'', hrun, inner'', a'', hstack'', ha''⟩ :=
      ih hover ⟨inner', hstack'⟩ hopen.2
    exact ⟨upper'', ts'', hrun, inner'', a'', hstack'', ha''.trans ha'⟩

/-- Shared uses of the store between a drop and the recovery come to nothing. -/
theorem Over.peeks (hB : Sound B) (h : Over B W upper ts)
    (hwaits : ∃ r rs, W.cleanups = r :: rs ∧ r.cancelled = true)
    (peeks : List (List (ℕ × RefKind))) :
    Over B (Runs.run H.step (peeks.map .peek) W) upper ts ∧
      (Runs.run H.step (peeks.map .peek) W).recover = W.recover ∧
      (Runs.run H.step (peeks.map .peek) W).cleanups = W.cleanups := by
  induction peeks generalizing W with
  | nil => exact ⟨h, rfl, rfl⟩
  | cons more peeks ih =>
    have hnext : H.next (.peek more) W = if W.hosting then
        { W with store := { W.store with gcRoots := W.store.gcRoots ++ more } } else W := rfl
    show Over B (Runs.run H.step (peeks.map .peek) (H.next (.peek more) W)) upper ts ∧
      (Runs.run H.step (peeks.map .peek) (H.next (.peek more) W)).recover = W.recover ∧
      (Runs.run H.step (peeks.map .peek) (H.next (.peek more) W)).cleanups = W.cleanups
    rw [hnext]
    split
    · obtain ⟨r, rs, hcleanups, hr⟩ := hwaits
      obtain ⟨cs, hcs, hcancelled, -⟩ := h.recover_eq hB
      have hlive := hB.head_live upper
      rw [← h.settled.cleanups] at hlive
      have hmem : r ∈ cs := by
        cases cs with
        | nil =>
          -- The first record left by recovery is of a live call.
          rw [List.nil_append, hcleanups] at hcs
          rw [← hcs] at hlive
          nomatch hr.symm.trans (hlive r rfl)
        | cons r' cs =>
          rw [hcleanups] at hcs
          obtain ⟨rfl, -⟩ := List.cons.inj hcs
          exact List.mem_cons_self
      have hrecover := recover_roots W more hcleanups hr (hcancelled r hmem).2
      obtain ⟨hover, hrun, hsame⟩ := ih (h.peek hB more) ⟨r, rs, hcleanups, hr⟩
      exact ⟨hover, hrun.trans hrecover, hsame⟩
    · exact ih h hwaits

/-- The marks of dropped calls can come in any order. -/
theorem cancel_comm (W : Nest σ) (s t : ℕ) :
    (W.cancel s).cancel t = (W.cancel t).cancel s := by
  unfold cancel
  simp only [List.map_map]
  congr 1
  refine List.map_congr_left fun r _ => ?_
  simp only [Function.comp_apply]
  by_cases hs : r.token = s
  · by_cases ht : r.token = t
    · simp only [if_pos hs, if_pos ht]
    · simp only [if_pos hs, if_neg ht]
  · by_cases ht : r.token = t
    · simp only [if_neg hs, if_pos ht]
    · simp only [if_neg hs, if_neg ht]

theorem cancel_perm (W : Nest σ) {tokens tokens' : List ℕ} (h : tokens.Perm tokens') :
    tokens.foldl cancel W = tokens'.foldl cancel W :=
  h.foldl_eq' (fun s _ t _ W => cancel_comm W s t) W

/-- An async call begins in `B`, is open throughout `bs`, and is dropped. -/
structure Drops (B : Nest σ) (start : Act σ) (bs : List (Act σ)) : Prop where
  async : start.isAsyncCall = true
  begins : B.stack.length < (H.next start B).stack.length
  open_ : Along H.step (fun b W => B.stack.length < (H.next b W).stack.length) bs (H.next start B)
  dropped : (Runs.run H.step bs (H.next start B)).dropped.stack.length ≤ B.stack.length

theorem Drops.restores {start : Act σ} {bs : List (Act σ)} (hB : Sound B)
    (h : Drops H B start bs) (peeks : List (List (ℕ × RefKind))) :
    ∃ W cs, W = run H.step (start :: bs ++ .drop :: peeks.map .peek) B ∧
      W.stack = B.stack ∧ W.guest = false ∧
      W.cleanups = cs ++ B.cleanups ∧ cs ≠ [] ∧ (∀ r ∈ cs, r.cancelled = true) ∧
      (W.cleanups.map (·.token)).Pairwise (· > ·) ∧
      (W.recover.store, W.recover.slot) = restored cs (W.store, W.slot) ∧
      W.recover.cleanups = B.cleanups ∧ W.recover.slot = B.slot ∧
      W.recover.store.gcRoots = B.store.gcRoots ∧
      W.recover.store.pending = B.store.pending ∧
      W.recover.store.pendingGeneration = B.store.pendingGeneration := by
  obtain ⟨a, r, hstack, ha, hscope⟩ := begun H hB h.async h.begins
  have hkeeps : B.Keeps (H.next start B) :=
    ⟨h.begins.le, fun hno => absurd hno (Nat.ne_of_gt h.begins)⟩
  obtain ⟨upper, hbegun⟩ := (hB.settled.over hB).step H hB hkeeps
  obtain ⟨upper', ts', hrun, inner, a', hstack', ha'⟩ :=
    hbegun.run_bottom H hB ⟨[], hstack⟩ h.open_
  have hdropped := h.dropped
  have hruns : run H.step (start :: bs ++ .drop :: peeks.map .peek) B =
      run H.step (peeks.map .peek) (run H.step bs (H.next start B)).dropped := by
    rw [List.cons_append, run_cons, run_append]
    rfl
  rw [hruns]
  generalize run H.step bs (H.next start B) = V at hrun hstack' hdropped ⊢
  obtain ⟨hundone, hover⟩ : Undone r V.dropped ∧ ∃ ts, Over B V.dropped [] ts := by
    -- Only the call itself can have been left to drop.
    have hV : V.stack = upper' ++ B.stack := (recover_frame V).1.symm.trans hrun.settled.stack
    have hupper : upper' = inner ++ [a'] := by
      rw [hV, ← List.singleton_append, ← List.append_assoc] at hstack'
      exact List.append_cancel_right hstack'
    have hlonger : V.dropped ≠ V := by
      intro hno
      rw [hno, hV, hupper, List.length_append, List.length_append, List.length_singleton]
        at hdropped
      omega
    rw [hupper] at hrun
    cases inner with
    | nil =>
      have hlast : Over B V (a' :: []) ts' := hrun
      rcases hlast.dropped hB with ⟨hno, -⟩ | ⟨r', hr', hundone, hover⟩
      · exact absurd hno hlonger
      · obtain rfl : r' = r := Option.some.inj (hr'.symm.trans (ha'.trans ha))
        exact ⟨hundone, _, hover⟩
    | cons b inner =>
      have hnested : Over B V (b :: (inner ++ [a'])) ts' := hrun
      rcases hnested.dropped hB with ⟨hno, -⟩ | ⟨r', -, -, hover⟩
      · exact absurd hno hlonger
      · have hleft : V.dropped.stack = (inner ++ [a']) ++ B.stack :=
          (recover_frame V.dropped).1.symm.trans hover.settled.stack
        rw [hleft, List.length_append, List.length_append, List.length_singleton] at hdropped
        omega
  obtain ⟨ts, hover⟩ := hover
  obtain ⟨hpeeks, hrecover, hcleanups⟩ := hover.peeks H hB hundone.waits peeks
  obtain ⟨cs, hcs, hcancelled, hrestored⟩ := hpeeks.recover_eq hB
  have hguest : V.dropped.recover.guest = false := (recover_frame _).2.1.trans hundone.guest
  have hset := hpeeks.settled
  obtain ⟨hframe, hframe', -⟩ := recover_frame (run H.step (peeks.map .peek) V.dropped)
  refine ⟨_, cs, rfl, hframe.symm.trans hset.stack, ?_, ?_, ?_, fun r hr => (hcancelled r hr).1,
    hpeeks.tokens, ?_, hset.cleanups, ?_, ?_, ?_, ?_⟩
  · rw [← hframe', hrecover]
    exact hguest
  · rw [hcs, hset.cleanups]
    rfl
  · rintro rfl
    -- A record waits.
    obtain ⟨r', rs, hwaits, hr'⟩ := hundone.waits
    rw [hcleanups, hwaits, List.nil_append, hset.cleanups] at hcs
    have hlive := hB.live r' (by rw [← show r' :: rs = B.cleanups from hcs]; rfl)
    nomatch hr'.symm.trans hlive
  · rw [hrestored]
  · exact hset.parked (by rw [hrecover]; exact hguest)
  · rw [hrecover]
    have hlen : V.dropped.recover.store.gcRoots.length ≤ B.store.gcRoots.length := by
      have hmark := hundone.roots
      rw [hscope] at hmark
      exact hmark
    exact (hover.settled.roots.base_le.eq_of_length_le hlen).symm
  · rw [hrecover, hundone.pending, hscope]
  · rw [hrecover, hundone.generation, hscope]

/-- In every run of a store, a dropped call is undone at the next mutable use, with all that was
nested in it and dropped with it or before: the store is as it was when the call began.  Until then
the records of dropped calls lie on those of the live ones, last begun first, and are restored in
this order; the drops themselves may have marked them in any. -/
theorem dropped_calls_recovered (rest : σ) (as bs : List (Act σ)) (start : Act σ)
    (peeks : List (List (ℕ × RefKind)))
    (hhost : (run H.step as (idle (StoreState.new rest))).guest = false)
    (hdrops : Drops H (run H.step as (idle (StoreState.new rest))).recover start bs) :
    let B := (run H.step as (idle (StoreState.new rest))).recover
    let W := run H.step (start :: bs ++ .drop :: peeks.map .peek) B
    W.stack = B.stack ∧ W.guest = false ∧
      (∃ cs, W.cleanups = cs ++ B.cleanups ∧ cs ≠ [] ∧ (∀ r ∈ cs, r.cancelled = true) ∧
        (W.cleanups.map (·.token)).Pairwise (· > ·) ∧
        (W.recover.store, W.recover.slot) = restored cs (W.store, W.slot)) ∧
      W.recover.cleanups = B.cleanups ∧ W.recover.slot = B.slot ∧
      W.recover.store.gcRoots = B.store.gcRoots ∧
      W.recover.store.pending = B.store.pending ∧
      W.recover.store.pendingGeneration = B.store.pendingGeneration ∧
      ∀ (V : Nest σ) (tokens tokens' : List ℕ), tokens.Perm tokens' →
        tokens.foldl cancel V = tokens'.foldl cancel V := by
  intro B W
  obtain ⟨W', cs, rfl, hstack, hguest, hcs, hne, hcancelled, htokens, hrestored, hcleanups, hslot,
    hroots, hpending, hgeneration⟩ := hdrops.restores H (sound_run H rest as hhost) peeks
  exact ⟨hstack, hguest, ⟨cs, hcs, hne, hcancelled, htokens, hrestored⟩, hcleanups, hslot, hroots,
    hpending, hgeneration, fun V _ _ htokens => V.cancel_perm htokens⟩

/-- A direct call roots something for itself, calls another host function and drops that one's
future; then it is dropped, and the store is used through a shared borrow. -/
theorem dropped_calls_recovered_nested :
    let H := Hosted.idle 65536 false false
    let B : Nest Unit := idle (StoreState.new ())
    let W := run H.step [.callHost [] true, .use (.new ()) [(3, .exn)] none, .callHost [] true,
      .throw_ (some 3), .drop, .drop, .peek [(4, .exn)]] B
    W.store.gcRoots = [(3, .exn), (4, .exn)] ∧ W.recover.store.gcRoots = [] ∧
      W.store.pending = some 3 ∧ W.recover.store.pending = none ∧ W.recover.cleanups = [] := by
  have h := dropped_calls_recovered (Hosted.idle 65536 false false) () []
    [.use (.new ()) [(3, .exn)] none, .callHost [] true, .throw_ (some 3), .drop]
    (.callHost [] true) [[(4, .exn)]] rfl
    ⟨rfl, by decide, ⟨by decide, by decide, by decide, by decide, trivial⟩, by decide⟩
  exact ⟨rfl, h.2.2.2.2.2.1, rfl, h.2.2.2.2.2.2.1, h.2.2.2.1⟩

/-- Until the next mutable use, nothing is restored. -/
theorem shared_use_recovers_nothing :
    let H := Hosted.idle 65536 false false
    let B : Nest Unit := idle (StoreState.new ())
    let W := run H.step [.callHost [] true, .throw_ (some 3), .drop, .peek []] B
    W.hosting = true ∧ W.stack = B.stack ∧ W.store.pending ≠ B.store.pending ∧
      W.cleanups ≠ B.cleanups := by
  refine ⟨rfl, rfl, ?_, ?_⟩
  · exact Option.some_ne_none 3
  · exact List.cons_ne_nil _ _

end Nest

end SubmilliWasm
