/-
# Slot tables with a free list

A slot table is a growable vector of optional entries together with a list of the
indices whose entry has been vacated.  Allocation takes an index from the list if
there is one and appends a fresh slot otherwise; releasing an entry vacates its
slot and puts the index back on the list.  Handles are plain indices, so the table
is correct exactly as long as the list names every vacant index once and no
occupied one (`FreeList`).

The statements are about the vector and the list separately, because the programs
that use such a table interleave other work between taking an index and filling
the slot.  An index that has been taken but not yet filled simply stays part of
the list argument of `FreeList`.
-/
import Mathlib.Tactic

namespace Slots

variable {α : Type*}

/-! ## Entries -/

/-- The entry at index `i`: `none` if the slot is vacant or out of range. -/
def entry (s : List (Option α)) (i : ℕ) : Option α := s[i]?.join

variable {free : List ℕ} {i : ℕ}

theorem entry_eq_some {s : List (Option α)} {a : α} :
    entry s i = some a ↔ s[i]? = some (some a) := by
  unfold entry
  rcases s[i]? with _ | _ | b <;> simp

/-- An occupied index is in range. -/
theorem lt_length_of_entry {s : List (Option α)} {a : α} (h : entry s i = some a) : i < s.length :=
  (List.getElem?_eq_some_iff.mp (entry_eq_some.mp h)).1

theorem entry_of_length_le {s : List (Option α)} (h : s.length ≤ i) : entry s i = none := by
  rw [entry, List.getElem?_eq_none h]
  rfl

/-- An entry of a vector with one entry modified: an old one, or the one that was written. -/
theorem of_mem_modify {g : α → α} {as : List α} {a : α} (h : a ∈ as.modify i g) :
    a ∈ as ∨ ∃ b ∈ as, a = g b := by
  induction as generalizing i with
  | nil =>
    rw [List.modify_nil] at h
    exact .inl h
  | cons b as ih =>
    cases i with
    | zero =>
      rcases List.mem_cons.mp h with h | h
      · exact .inr ⟨b, List.mem_cons_self, h⟩
      · exact .inl (List.mem_cons_of_mem b h)
    | succ i =>
      rcases List.mem_cons.mp h with rfl | h
      · exact .inl List.mem_cons_self
      · rcases ih h with h | ⟨c, hc, rfl⟩
        · exact .inl (List.mem_cons_of_mem b h)
        · exact .inr ⟨c, List.mem_cons_of_mem b hc, rfl⟩

/-- Writing a slot changes the entry at that index and no other. -/
theorem entry_set {s : List (Option α)} (hi : i < s.length) (o : Option α) (j : ℕ) :
    entry (s.set i o) j = if j = i then o else entry s j := by
  unfold entry
  rw [List.getElem?_set]
  by_cases hij : i = j
  · subst hij
    simp [hi]
  · simp [hij, Ne.symm hij]

/-- Appending a slot changes only the entry at the new index. -/
theorem entry_append (s : List (Option α)) (o : Option α) (j : ℕ) :
    entry (s ++ [o]) j = if j = s.length then o else entry s j := by
  unfold entry
  rcases lt_trichotomy j s.length with h | h | h
  · rw [List.getElem?_append_left h, if_neg (Nat.ne_of_lt h)]
  · subst h
    simp
  · rw [List.getElem?_eq_none (by simp; omega), List.getElem?_eq_none (by omega),
      if_neg (by omega)]

/-- Growing the table by a vacant slot is invisible. -/
theorem entry_append_none (s : List (Option α)) (j : ℕ) :
    entry (s ++ [none]) j = entry s j := by
  rw [entry_append]
  split
  · rw [entry_of_length_le (by omega)]
  · rfl

/-! ## The free list -/

/-- `free` lists every vacant index of `s` exactly once and no occupied one. -/
structure FreeList (s : List (Option α)) (free : List ℕ) : Prop where
  nodup : free.Nodup
  mem_iff : ∀ i, i ∈ free ↔ i < s.length ∧ entry s i = none

theorem FreeList.nil : FreeList ([] : List (Option α)) [] :=
  ⟨List.nodup_nil, by simp⟩

theorem FreeList.lt_length {s : List (Option α)} (h : FreeList s free) (hi : i ∈ free) :
    i < s.length :=
  ((h.mem_iff i).mp hi).1

theorem FreeList.entry_eq_none {s : List (Option α)} (h : FreeList s free) (hi : i ∈ free) :
    entry s i = none :=
  ((h.mem_iff i).mp hi).2

/-- A fresh vacant slot joins the list. -/
theorem FreeList.grow {s : List (Option α)} (h : FreeList s free) :
    FreeList (s ++ [none]) (free ++ [s.length]) := by
  refine ⟨?_, fun i => ?_⟩
  · rw [List.nodup_append_comm, List.singleton_append, List.nodup_cons]
    exact ⟨fun hm => (h.lt_length hm).false, h.nodup⟩
  · rw [List.mem_append, h.mem_iff, List.mem_singleton, entry_append_none, List.length_append,
      List.length_singleton]
    constructor
    · rintro (⟨h1, h2⟩ | rfl)
      · exact ⟨by omega, h2⟩
      · exact ⟨by omega, entry_of_length_le le_rfl⟩
    · rintro ⟨h1, h2⟩
      by_cases hi : i = s.length
      · exact Or.inr hi
      · exact Or.inl ⟨by omega, h2⟩

/-- Filling a vacant slot takes its index off the list. -/
theorem FreeList.fill {s : List (Option α)} (h : FreeList s (i :: free)) (a : α) :
    FreeList (s.set i (some a)) free := by
  have hi : i < s.length := h.lt_length List.mem_cons_self
  obtain ⟨hnot, hnd⟩ := List.nodup_cons.mp h.nodup
  refine ⟨hnd, fun j => ?_⟩
  rw [List.length_set, entry_set hi]
  by_cases hj : j = i
  · subst hj
    simp [hnot]
  · have := h.mem_iff j
    simp only [List.mem_cons, hj, false_or] at this
    simpa [hj] using this

/-- Overwriting an occupied slot leaves the list as it is. -/
theorem FreeList.update {s : List (Option α)} {a : α} (h : FreeList s free)
    (ha : entry s i = some a) (b : α) : FreeList (s.set i (some b)) free := by
  have hi := lt_length_of_entry ha
  refine ⟨h.nodup, fun j => ?_⟩
  rw [List.length_set, entry_set hi, h.mem_iff]
  by_cases hj : j = i
  · subst hj
    simp [ha]
  · simp [hj]

/-- Vacating an occupied slot puts its index on the list. -/
theorem FreeList.vacate {s : List (Option α)} {a : α} (h : FreeList s free)
    (ha : entry s i = some a) : FreeList (s.set i none) (i :: free) := by
  have hi := lt_length_of_entry ha
  refine ⟨List.nodup_cons.mpr ⟨fun hm => ?_, h.nodup⟩, fun j => ?_⟩
  · rw [h.entry_eq_none hm] at ha
    cases ha
  · rw [List.length_set, entry_set hi, List.mem_cons, h.mem_iff]
    by_cases hj : j = i
    · subst hj
      simp [hi]
    · simp [hj]

/-! ## Totals over the occupied slots -/

/-- The sum of a weight over the occupied slots. -/
def total (f : α → ℕ) (s : List (Option α)) : ℕ := (s.map fun o => o.elim 0 f).sum

@[simp] theorem total_nil (f : α → ℕ) : total f [] = 0 := rfl

@[simp] theorem total_cons (f : α → ℕ) (o : Option α) (s : List (Option α)) :
    total f (o :: s) = o.elim 0 f + total f s := by
  simp [total]

theorem total_append_none (f : α → ℕ) (s : List (Option α)) :
    total f (s ++ [none]) = total f s := by
  simp [total]

theorem total_append (f : α → ℕ) (s : List (Option α)) (o : Option α) :
    total f (s ++ [o]) = total f s + o.elim 0 f := by
  simp [total]

/-- Weights that add up slot by slot add up in total. -/
theorem total_add {f g k : α → ℕ} {s : List (Option α)}
    (h : ∀ i a, entry s i = some a → f a = g a + k a) : total f s = total g s + total k s := by
  induction s with
  | nil => rfl
  | cons o s ih =>
    have hs := ih fun i a hi => h (i + 1) a hi
    rw [total_cons, total_cons, total_cons, hs]
    cases o with
    | none =>
      simp only [Option.elim_none]
      omega
    | some a =>
      have ha := h 0 a rfl
      simp only [Option.elim_some]
      omega

/-- Rewriting one slot exchanges its old weight for its new one. -/
theorem total_set (f : α → ℕ) {s : List (Option α)} (hi : i < s.length) (o : Option α) :
    total f (s.set i o) + (entry s i).elim 0 f = total f s + o.elim 0 f := by
  induction s generalizing i with
  | nil => simp at hi
  | cons p s ih =>
    cases i with
    | zero =>
      have : entry (p :: s) 0 = p := by simp [entry]
      simp only [List.set_cons_zero, total_cons, this]
      omega
    | succ i =>
      have h := ih (i := i) (by simpa using hi)
      have he : entry (p :: s) (i + 1) = entry s i := by simp [entry]
      simp only [List.set_cons_succ, total_cons, he]
      omega

/-- A weight that vanishes on every occupied slot has total zero. -/
theorem total_eq_zero {f : α → ℕ} {s : List (Option α)}
    (h : ∀ i a, entry s i = some a → f a = 0) : total f s = 0 := by
  induction s with
  | nil => rfl
  | cons o s ih =>
    have hs : total f s = 0 := ih fun i a ha => h (i + 1) a (by simpa [entry] using ha)
    cases o with
    | none => simpa using hs
    | some a => simpa [hs] using h 0 a (by simp [entry])

/-- Each occupied slot's weight is part of the total. -/
theorem le_total (f : α → ℕ) {s : List (Option α)} {a : α} (h : entry s i = some a) :
    f a ≤ total f s := by
  have := total_set f (lt_length_of_entry h) none
  rw [h] at this
  simp only [Option.elim_some, Option.elim_none] at this
  omega

end Slots
