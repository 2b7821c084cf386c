/-
# Tracing with a worklist

A tracer pops a node, skips it if it has been seen, and otherwise records it and pushes the
nodes it points to.  How the seen nodes are represented is left to the program (`σ`, with
`seen` reading it), and so is the way a node is visited, which may fail.  What a run that
ends without failure has seen is exactly what is reachable from the initial list, and a run
cannot go on for longer than there are edges to follow.
-/
import Mathlib.Tactic

namespace Worklist

variable {σ ν ε : Type*}

/-- Pops nodes until the list is empty; `none` if the fuel runs out first. -/
def run (step : σ → ν → Except ε (List ν × σ)) : ℕ → σ → List ν → Option (Except ε σ)
  | _, s, [] => some (.ok s)
  | 0, _, _ :: _ => none
  | fuel + 1, s, n :: work =>
    match step s n with
    | .error e => some (.error e)
    | .ok (pushed, s') => run step fuel s' (pushed.reverse ++ work)

/-- Reachability along the edges `succ` from the nodes of `roots`. -/
inductive Reach (succ : ν → ν → Prop) (roots : List ν) : ν → Prop where
  | root {n : ν} : n ∈ roots → Reach succ roots n
  | step {n m : ν} : Reach succ roots n → succ n m → Reach succ roots m

/-- What a tracer's step does when it succeeds: a node seen before is skipped, a new one is
recorded and its successors are pushed. -/
structure Traces (step : σ → ν → Except ε (List ν × σ)) (seen : σ → ν → Prop)
    (succ : ν → ν → Prop) : Prop where
  skip : ∀ {s n pushed s'}, step s n = .ok (pushed, s') → seen s n →
    pushed = [] ∧ ∀ m, seen s' m ↔ seen s m
  visit : ∀ {s n pushed s'}, step s n = .ok (pushed, s') → ¬ seen s n →
    (∀ m, m ∈ pushed ↔ succ n m) ∧ ∀ m, seen s' m ↔ seen s m ∨ m = n

/-- The state of a trace from `roots`: everything found is reachable, and what a seen node
points to has been found. -/
structure Inv (seen : σ → ν → Prop) (succ : ν → ν → Prop) (roots : List ν) (s : σ)
    (work : List ν) : Prop where
  seen_reach : ∀ n, seen s n → Reach succ roots n
  work_reach : ∀ n ∈ work, Reach succ roots n
  roots_found : ∀ n ∈ roots, seen s n ∨ n ∈ work
  succ_found : ∀ n, seen s n → ∀ m, succ n m → seen s m ∨ m ∈ work

theorem inv_start {seen : σ → ν → Prop} {succ : ν → ν → Prop} {s : σ}
    (h : ∀ n, ¬ seen s n) (roots : List ν) : Inv seen succ roots s roots where
  seen_reach n hn := absurd hn (h n)
  work_reach _ hn := Reach.root hn
  roots_found _ hn := Or.inr hn
  succ_found n hn := absurd hn (h n)

variable {step : σ → ν → Except ε (List ν × σ)} {seen : σ → ν → Prop} {succ : ν → ν → Prop}

theorem Inv.advance (ht : Traces step seen succ) {roots work pushed : List ν} {s s' : σ} {n : ν}
    (hi : Inv seen succ roots s (n :: work)) (h : step s n = .ok (pushed, s')) :
    Inv seen succ roots s' (pushed.reverse ++ work) := by
  by_cases hn : seen s n
  · obtain ⟨rfl, hs⟩ := ht.skip h hn
    -- The popped node is seen, so dropping it from the list loses nothing.
    have found : ∀ {m}, seen s m ∨ m ∈ n :: work → seen s' m ∨ m ∈ [].reverse ++ work := by
      rintro m (hm | hm)
      · exact Or.inl ((hs m).mpr hm)
      · rcases List.mem_cons.mp hm with rfl | hm
        · exact Or.inl ((hs m).mpr hn)
        · exact Or.inr hm
    refine ⟨fun m hm => hi.seen_reach m ((hs m).mp hm),
      fun m hm => hi.work_reach m (List.mem_cons_of_mem _ hm),
      fun m hm => found (hi.roots_found m hm), fun m hm k hk => ?_⟩
    exact found (hi.succ_found m ((hs m).mp hm) k hk)
  · obtain ⟨hp, hs⟩ := ht.visit h hn
    have hreach : Reach succ roots n := hi.work_reach n List.mem_cons_self
    have found : ∀ {m}, seen s m ∨ m ∈ n :: work → seen s' m ∨ m ∈ pushed.reverse ++ work := by
      rintro m (hm | hm)
      · exact Or.inl ((hs m).mpr (Or.inl hm))
      · rcases List.mem_cons.mp hm with rfl | hm
        · exact Or.inl ((hs m).mpr (Or.inr rfl))
        · exact Or.inr (List.mem_append_right _ hm)
    refine ⟨?_, ?_, fun m hm => found (hi.roots_found m hm), ?_⟩
    · intro m hm
      rcases (hs m).mp hm with hm | rfl
      · exact hi.seen_reach m hm
      · exact hreach
    · intro m hm
      rcases List.mem_append.mp hm with hm | hm
      · exact Reach.step hreach ((hp m).mp (List.mem_reverse.mp hm))
      · exact hi.work_reach m (List.mem_cons_of_mem _ hm)
    · intro m hm k hk
      rcases (hs m).mp hm with hm | rfl
      · exact found (hi.succ_found m hm k hk)
      · exact Or.inr (List.mem_append_left _ (List.mem_reverse.mpr ((hp k).mpr hk)))

/-- At the end nothing is pending, so the seen nodes are closed under the edges. -/
theorem Inv.seen_iff {roots : List ν} {s : σ} (hi : Inv seen succ roots s []) (n : ν) :
    seen s n ↔ Reach succ roots n := by
  constructor
  · exact hi.seen_reach n
  · intro h
    induction h with
    | root hn => exact (hi.roots_found _ hn).resolve_right List.not_mem_nil
    | step _ hm ih => exact (hi.succ_found _ ih _ hm).resolve_right List.not_mem_nil

/-- What a step keeps of the state and its work holds at the end of a run, with no work left. -/
theorem run_keeps {P : σ → List ν → Prop}
    (hstep : ∀ {s n work pushed s'}, P s (n :: work) → step s n = .ok (pushed, s') →
      P s' (pushed.reverse ++ work)) (fuel : ℕ) {s s' : σ} {work : List ν} (hs : P s work)
    (h : run step fuel s work = some (.ok s')) : P s' [] := by
  induction fuel generalizing s work with
  | zero =>
    cases work with
    | nil =>
      obtain rfl : s = s' := by simpa [run] using h
      exact hs
    | cons n work => simp [run] at h
  | succ fuel ih =>
    cases work with
    | nil =>
      obtain rfl : s = s' := by simpa [run] using h
      exact hs
    | cons n work =>
      rw [run] at h
      cases hn : step s n with
      | error e => simp [hn] at h
      | ok p =>
        obtain ⟨pushed, s₁⟩ := p
        simp only [hn] at h
        exact ih (hstep hs hn) h

/-- **Exactness.**  A trace that ends has seen the reachable nodes and no others. -/
theorem run_seen_iff (ht : Traces step seen succ) {roots : List ν} {fuel : ℕ} {s s' : σ}
    (hs : ∀ n, ¬ seen s n) (h : run step fuel s roots = some (.ok s')) (n : ν) :
    seen s' n ↔ Reach succ roots n :=
  (run_keeps (fun hi hstep => hi.advance ht hstep) fuel (inv_start hs roots) h).seen_iff n

/-- A property of single steps lifts to what a run leaves behind. -/
theorem run_preserves {P : σ → Prop}
    (hstep : ∀ s n pushed s', P s → step s n = .ok (pushed, s') → P s') (fuel : ℕ) {s s' : σ}
    {work : List ν} (hs : P s) (h : run step fuel s work = some (.ok s')) : P s' :=
  run_keeps (P := fun s _ => P s) (fun hs hn => hstep _ _ _ _ hs hn) fuel hs h

/-! ## Termination -/

open Classical in
/-- The edges still to be followed from the nodes of `all` that have not been seen. -/
noncomputable def pending (seen : σ → ν → Prop) (degree : ν → ℕ) (all : Finset ν) (s : σ) : ℕ :=
  ∑ n ∈ all.filter fun n => ¬ seen s n, degree n

theorem pending_le (seen : σ → ν → Prop) (degree : ν → ℕ) (all : Finset ν) (s : σ) :
    pending seen degree all s ≤ ∑ n ∈ all, degree n := by
  classical
  exact Finset.sum_le_sum_of_subset (Finset.filter_subset _ _)

/-- **Termination.**  If only nodes of the finite set `all` are visited, and a visit pushes at
most `degree` nodes, then the edges of `all` bound the run. -/
theorem run_ne_none (ht : Traces step seen succ) {d : ν → ℕ} {a : Finset ν}
    (hall : ∀ s n pushed s', step s n = .ok (pushed, s') → ¬ seen s n →
      n ∈ a ∧ pushed.length ≤ d n)
    (fuel : ℕ) (s : σ) (work : List ν)
    (hfuel : work.length + pending seen d a s ≤ fuel) : run step fuel s work ≠ none := by
  classical
  induction fuel generalizing s work with
  | zero =>
    have : work = [] := List.eq_nil_of_length_eq_zero (by omega)
    subst this
    simp [run]
  | succ fuel ih =>
    cases work with
    | nil => simp [run]
    | cons n work =>
      rw [run]
      cases hn : step s n with
      | error e => simp
      | ok p =>
        obtain ⟨pushed, s'⟩ := p
        simp only
        apply ih
        rw [List.length_append, List.length_reverse]
        rw [List.length_cons] at hfuel
        by_cases hseen : seen s n
        · obtain ⟨rfl, hs⟩ := ht.skip hn hseen
          have : pending seen d a s' = pending seen d a s := by
            unfold pending
            congr 1
            apply Finset.filter_congr
            intro m _
            rw [hs m]
          rw [this]
          simp only [List.length_nil]
          omega
        · obtain ⟨hmem, hlen⟩ := hall s n pushed s' hn hseen
          obtain ⟨-, hs⟩ := ht.visit hn hseen
          have hfilter : (a.filter fun m => ¬ seen s' m) =
              (a.filter fun m => ¬ seen s m).erase n := by
            ext m
            simp only [Finset.mem_filter, Finset.mem_erase, hs m]
            tauto
          have hin : n ∈ a.filter fun m => ¬ seen s m := Finset.mem_filter.mpr ⟨hmem, hseen⟩
          have hsum := Finset.add_sum_erase _ d hin
          unfold pending at hfuel ⊢
          rw [hfilter]
          omega

end Worklist
