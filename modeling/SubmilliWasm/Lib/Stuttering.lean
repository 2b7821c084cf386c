/-
# Machines that follow each other at different paces

Two machines `f` and `g` run in states related by `R`.  A step of `f` is answered by steps of `g`,
several or none; it is answered by none only if a rank of the state of `f` goes down, so `g` is not
left waiting for ever.  Then every run of `f` is met by one of `g` (`Follows.forward`), every run of
`g` is overtaken by one of `f` (`Follows.backward`), and one halts if and only if the other does, in
related states (`Follows.halts_back`).

Halted states are fixed points, so that a run is an iteration.  A halted machine may be answered
from outside and go on; runs that are given the same answers stay together (`Follows.answered`).
-/
import Mathlib.Logic.Function.Iterate
import Mathlib.Tactic.Common

namespace Stuttering

variable {A B : Type*}

/-- `g` follows `f` in states related by `R`; `haltsA` and `haltsB` are the states in which they
halt. -/
structure Follows (f : A → A) (g : B → B) (R : A → B → Prop) (haltsA : A → Prop)
    (haltsB : B → Prop) (rank : A → ℕ) : Prop where
  step : ∀ {a b}, R a b → ¬haltsA a → ∃ k, R (f a) (g^[k] b) ∧ (k = 0 → rank (f a) < rank a)
  halted : ∀ {a b}, R a b → (haltsA a ↔ haltsB b)
  fixedA : ∀ {a}, haltsA a → f a = a
  fixedB : ∀ {b}, haltsB b → g b = b

namespace Follows

variable {f : A → A} {g : B → B} {R : A → B → Prop} {haltsA : A → Prop} {haltsB : B → Prop}
  {rank : A → ℕ} {a : A} {b : B}

/-- What `f` reaches, `g` reaches. -/
theorem forward (h : Follows f g R haltsA haltsB rank) (hR : R a b) (n : ℕ) :
    ∃ m, R (f^[n] a) (g^[m] b) := by
  induction n with
  | zero => exact ⟨0, hR⟩
  | succ n ih =>
    obtain ⟨m, hm⟩ := ih
    rw [Function.iterate_succ_apply']
    by_cases hhalt : haltsA (f^[n] a)
    · rw [h.fixedA hhalt]
      exact ⟨m, hm⟩
    · obtain ⟨k, hk, -⟩ := h.step hm hhalt
      refine ⟨k + m, ?_⟩
      rw [Function.iterate_add_apply]
      exact hk

/-- `f` comes to a step that `g` answers, or halts. -/
theorem progress (h : Follows f g R haltsA haltsB rank) (hR : R a b) :
    ∃ n k, R (f^[n] a) (g^[k] b) ∧ (haltsA (f^[n] a) ∨ 0 < k) := by
  induction hr : rank a using Nat.strongRecOn generalizing a with
  | _ r ih =>
    by_cases hhalt : haltsA a
    · exact ⟨0, 0, hR, Or.inl hhalt⟩
    · obtain ⟨k, hk, hdown⟩ := h.step hR hhalt
      cases k with
      | zero =>
        obtain ⟨n, k, hn, hend⟩ := ih (rank (f a)) (hr ▸ hdown rfl) hk rfl
        exact ⟨n + 1, k, hn, hend⟩
      | succ k => exact ⟨1, k + 1, hk, Or.inr (Nat.succ_pos k)⟩

/-- What `g` reaches lies before something `f` reaches. -/
theorem backward (h : Follows f g R haltsA haltsB rank) (hR : R a b) (m : ℕ) :
    ∃ n k, m ≤ k ∧ R (f^[n] a) (g^[k] b) := by
  induction m with
  | zero => exact ⟨0, 0, Nat.le_refl 0, hR⟩
  | succ m ih =>
    obtain ⟨n, k, hk, hn⟩ := ih
    obtain ⟨n', k', hn', hhalt | hpos⟩ := h.progress hn
    · -- a halted `g` can be given any number of steps
      refine ⟨n' + n, 1 + (k' + k), by omega, ?_⟩
      rw [Function.iterate_add_apply f, Function.iterate_add_apply g, Function.iterate_add_apply g,
        Function.iterate_one, h.fixedB ((h.halted hn').mp hhalt)]
      exact hn'
    · refine ⟨n' + n, k' + k, by omega, ?_⟩
      rw [Function.iterate_add_apply, Function.iterate_add_apply]
      exact hn'

theorem iterate_fixedB (h : Follows f g R haltsA haltsB rank) (hb : haltsB b) (k : ℕ) :
    g^[k] b = b :=
  Function.iterate_fixed (h.fixedB hb) k

/-- Where `g` halts, `f` halts, in a related state. -/
theorem halts_back (h : Follows f g R haltsA haltsB rank) (hR : R a b) {m : ℕ}
    (hb : haltsB (g^[m] b)) : ∃ n, haltsA (f^[n] a) ∧ R (f^[n] a) (g^[m] b) := by
  obtain ⟨n, k, hk, hn⟩ := h.backward hR m
  obtain ⟨i, rfl⟩ := Nat.exists_eq_add_of_le' hk
  rw [Function.iterate_add_apply, h.iterate_fixedB hb] at hn
  exact ⟨n, (h.halted hn).mpr hb, hn⟩

end Follows

/-! ## Machines that are answered -/

variable {L : Type*}

/-- A run that is given answers, one each time it halts, up to where it halts in the end. -/
inductive Answered (f : A → A) (halts : A → Prop) (answer : A → L → A) : A → List L → A → Prop where
  | halt (n : ℕ) {a} (h : halts (f^[n] a)) : Answered f halts answer a [] (f^[n] a)
  | answer (n : ℕ) {a l ls a'} (h : halts (f^[n] a))
      (hrest : Answered f halts answer (answer (f^[n] a) l) ls a') :
      Answered f halts answer a (l :: ls) a'

theorem Answered.halts {f : A → A} {halts : A → Prop} {answer : A → L → A} {a a' : A} {ls : List L}
    (h : Answered f halts answer a ls a') : halts a' := by
  induction h with
  | halt n h => exact h
  | answer n h hrest ih => exact ih

/-- A halt lies before every step or behind it, where nothing moves any more. -/
theorem iterate_past {halts : B → Prop} {g : B → B} (hfix : ∀ {b}, halts b → g b = b)
    {n : ℕ} {b : B}
    (h : halts (g^[n] b)) (k : ℕ) : ∃ m, g^[m] (g^[k] b) = g^[n] b := by
  rcases Nat.le_total k n with hle | hle
  · obtain ⟨m, rfl⟩ := Nat.exists_eq_add_of_le' hle
    exact ⟨m, (Function.iterate_add_apply g m k b).symm⟩
  · obtain ⟨m, rfl⟩ := Nat.exists_eq_add_of_le' hle
    refine ⟨0, ?_⟩
    rw [Function.iterate_zero_apply, Function.iterate_add_apply]
    exact Function.iterate_fixed (hfix h) m

/-- The run goes on from any state on its way to the first halt. -/
theorem Answered.skip {halts : B → Prop} {g : B → B} {answer : B → L → B}
    (hfix : ∀ {b}, halts b → g b = b) {b b' : B} {ls : List L} (h : Answered g halts answer b ls b')
    (k : ℕ) : Answered g halts answer (g^[k] b) ls b' := by
  cases h with
  | halt n h =>
    obtain ⟨m, hm⟩ := iterate_past hfix h k
    rw [← hm] at h ⊢
    exact .halt m h
  | answer n h hrest =>
    obtain ⟨m, hm⟩ := iterate_past hfix h k
    rw [← hm] at h hrest
    exact .answer m h hrest

theorem Answered.before {halts : B → Prop} {g : B → B} {answer : B → L → B} {b b' : B} {ls : List L}
    {k : ℕ} (h : Answered g halts answer (g^[k] b) ls b') : Answered g halts answer b ls b' := by
  generalize hb : g^[k] b = b₁ at h
  cases h with
  | halt n h =>
    rw [← hb, ← Function.iterate_add_apply] at h ⊢
    exact .halt (n + k) h
  | answer n h hrest =>
    rw [← hb, ← Function.iterate_add_apply] at h hrest
    exact .answer (n + k) h hrest

namespace Follows

variable {f : A → A} {g : B → B} {R : A → B → Prop} {haltsA : A → Prop} {haltsB : B → Prop}
  {rank : A → ℕ} {a : A} {b : B} {answerA : A → L → A} {answerB : B → L → B}

/-- **Runs that are given the same answers halt in related states**, if an answer keeps the states
related. -/
theorem answered (h : Follows f g R haltsA haltsB rank)
    (hans : ∀ {a b} (l : L), R a b → haltsA a → ∃ k, R (answerA a l) (g^[k] (answerB b l)))
    (hR : R a b) (ls : List L) :
    (∀ a', Answered f haltsA answerA a ls a' →
      ∃ b', Answered g haltsB answerB b ls b' ∧ R a' b') ∧
    ∀ b', Answered g haltsB answerB b ls b' →
      ∃ a', Answered f haltsA answerA a ls a' ∧ R a' b' := by
  induction ls generalizing a b with
  | nil =>
    constructor
    · rintro _ ⟨n, hn⟩
      obtain ⟨m, hm⟩ := h.forward hR n
      exact ⟨_, .halt m ((h.halted hm).mp hn), hm⟩
    · rintro _ ⟨m, hm⟩
      obtain ⟨n, hn, hrel⟩ := h.halts_back hR hm
      exact ⟨_, .halt n hn, hrel⟩
  | cons l ls ih =>
    constructor
    · intro a' hrun
      cases hrun with
      | answer n hn hrest =>
        obtain ⟨m, hm⟩ := h.forward hR n
        obtain ⟨k, hk⟩ := hans l hm hn
        obtain ⟨b', hb', hrel⟩ := (ih hk).1 a' hrest
        exact ⟨b', .answer m ((h.halted hm).mp hn) hb'.before, hrel⟩
    · intro b' hrun
      cases hrun with
      | answer m hm hrest =>
        obtain ⟨n, hn, hrel⟩ := h.halts_back hR hm
        obtain ⟨k, hk⟩ := hans l hrel hn
        obtain ⟨a', ha', hrel'⟩ := (ih hk).2 b' (hrest.skip h.fixedB k)
        exact ⟨a', .answer n hn ha', hrel'⟩

end Follows

end Stuttering
