/-
# Runs of a machine

A machine takes one step for each choice of its surroundings and leaves a mark of what it did.
A run is determined by its first state and the list of the choices, so properties of runs are
proved by induction on that list, from a property of one step: an invariant holds along the
run, a counter changes by what the marks say, a second machine follows the first.
-/
import Mathlib.Tactic

namespace Runs

variable {σ τ κ ν μ ρ : Type*}

/-- The state after the choices `cs`. -/
def run (step : κ → σ → σ × μ) : List κ → σ → σ
  | [], s => s
  | c :: cs, s => run step cs (step c s).1

/-- The marks left on the way. -/
def marks (step : κ → σ → σ × μ) : List κ → σ → List μ
  | [], _ => []
  | c :: cs, s => (step c s).2 :: marks step cs (step c s).1

/-- Every step of the run meets `P`, a condition on the choice and the state before the step. -/
def Along (step : κ → σ → σ × μ) (P : κ → σ → Prop) : List κ → σ → Prop
  | [], _ => True
  | c :: cs, s => P c s ∧ Along step P cs (step c s).1

variable {step : κ → σ → σ × μ}

/-! ## Composition -/

@[simp] theorem run_nil (s : σ) : run step [] s = s := rfl

@[simp] theorem run_cons (c : κ) (cs : List κ) (s : σ) :
    run step (c :: cs) s = run step cs (step c s).1 := rfl

@[simp] theorem marks_nil (s : σ) : marks step [] s = [] := rfl

@[simp] theorem marks_cons (c : κ) (cs : List κ) (s : σ) :
    marks step (c :: cs) s = (step c s).2 :: marks step cs (step c s).1 := rfl

theorem run_append (cs ds : List κ) (s : σ) :
    run step (cs ++ ds) s = run step ds (run step cs s) := by
  induction cs generalizing s with
  | nil => rfl
  | cons c cs ih => exact ih (step c s).1

theorem marks_append (cs ds : List κ) (s : σ) :
    marks step (cs ++ ds) s = marks step cs s ++ marks step ds (run step cs s) := by
  induction cs generalizing s with
  | nil => rfl
  | cons c cs ih =>
    rw [List.cons_append, marks_cons, marks_cons, ih, List.cons_append]
    rfl

theorem run_replicate_fixed {c : κ} {s : σ} (h : (step c s).1 = s) (n : ℕ) :
    run step (List.replicate n c) s = s := by
  induction n with
  | zero => rfl
  | succ n ih => rw [List.replicate_succ, run_cons, h, ih]

/-- Repeating a choice leads to one of the states before a fixed one. -/
theorem run_replicate_le {c : κ} {s : σ} {k : ℕ}
    (h : (step c (run step (List.replicate k c) s)).1 = run step (List.replicate k c) s) (n : ℕ) :
    ∃ m ≤ k, run step (List.replicate n c) s = run step (List.replicate m c) s := by
  rcases Nat.le_total n k with hn | hn
  · exact ⟨n, hn, rfl⟩
  · obtain ⟨m, rfl⟩ := Nat.exists_eq_add_of_le hn
    refine ⟨k, le_refl k, ?_⟩
    rw [List.replicate_add, run_append, run_replicate_fixed h]

theorem Along.mono {P Q : κ → σ → Prop} (h : ∀ c s, P c s → Q c s) {cs : List κ} {s : σ}
    (ha : Along step P cs s) : Along step Q cs s := by
  induction cs generalizing s with
  | nil => exact trivial
  | cons c cs ih => exact ⟨h c s ha.1, ih ha.2⟩

theorem along_of_forall {P : κ → σ → Prop} (h : ∀ c s, P c s) (cs : List κ) (s : σ) :
    Along step P cs s := by
  induction cs generalizing s with
  | nil => exact trivial
  | cons c cs ih => exact ⟨h c s, ih (step c s).1⟩

/-! ## Invariants -/

/-- What every step of the run preserves holds at its end. -/
theorem invariant {P : κ → σ → Prop} {I : σ → Prop}
    (hstep : ∀ c s, I s → P c s → I (step c s).1) {cs : List κ} {s : σ}
    (hs : I s) (ha : Along step P cs s) : I (run step cs s) := by
  induction cs generalizing s with
  | nil => exact hs
  | cons c cs ih => exact ih (hstep c s hs ha.1) ha.2

/-- An invariant holds before every step. -/
theorem Along.and_invariant {P : κ → σ → Prop} {I : σ → Prop}
    (hstep : ∀ c s, I s → P c s → I (step c s).1) {cs : List κ} {s : σ}
    (hs : I s) (ha : Along step P cs s) : Along step (fun c s => I s ∧ P c s) cs s := by
  induction cs generalizing s with
  | nil => exact trivial
  | cons c cs ih => exact ⟨⟨hs, ha.1⟩, ih (hstep c s hs ha.1) ha.2⟩

/-! ## A note beside the machine -/

/-- The machine beside a note it does not read. -/
def noting (note : κ → σ → ν → ν) (step : κ → σ → σ × μ) (c : κ) (w : σ × ν) : (σ × ν) × μ :=
  (((step c w.1).1, note c w.1 w.2), (step c w.1).2)

theorem run_noting (note : κ → σ → ν → ν) (cs : List κ) (w : σ × ν) :
    (run (noting note step) cs w).1 = run step cs w.1 := by
  induction cs generalizing w with
  | nil => rfl
  | cons c cs ih => exact ih (noting note step c w).1

theorem marks_noting (note : κ → σ → ν → ν) (cs : List κ) (w : σ × ν) :
    marks (noting note step) cs w = marks step cs w.1 := by
  induction cs generalizing w with
  | nil => rfl
  | cons c cs ih => exact congrArg _ (ih (noting note step c w).1)

/-! ## Simulation -/

/-- A machine follows another, with as many steps for one of the other's as it takes; it is given
the same choices and shows what the other shows, as far as `asked` and `seen` tell. -/
theorem simulated {step' : ν → τ → τ × ρ} {R : σ → τ → Prop} {P : κ → σ → Prop} {α ω : Type*}
    {asked : κ → List α} {asked' : ν → List α} {seen : μ → List ω} {seen' : ρ → List ω}
    (hstep : ∀ c s t, R s t → P c s → ∃ ds, R (step c s).1 (run step' ds t) ∧
      ds.flatMap asked' = asked c ∧ (marks step' ds t).flatMap seen' = seen (step c s).2)
    {cs : List κ} {s : σ} {t : τ} (hR : R s t) (ha : Along step P cs s) :
    ∃ ds, R (run step cs s) (run step' ds t) ∧ ds.flatMap asked' = cs.flatMap asked ∧
      (marks step' ds t).flatMap seen' = (marks step cs s).flatMap seen := by
  induction cs generalizing s t with
  | nil => exact ⟨[], hR, rfl, rfl⟩
  | cons c cs ih =>
    obtain ⟨ds, hR1, hasked1, hseen1⟩ := hstep c s t hR ha.1
    obtain ⟨es, hR2, hasked2, hseen2⟩ := ih hR1 ha.2
    refine ⟨ds ++ es, ?_, ?_, ?_⟩
    · rw [run_append]
      exact hR2
    · rw [List.flatMap_append, hasked1, hasked2]
      rfl
    · rw [marks_append, List.flatMap_append, hseen1, hseen2]
      rfl

end Runs
