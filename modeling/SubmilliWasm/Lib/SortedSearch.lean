/-
# Searching a sorted list

A list sorted by a key (`sortByKey`, a stable sort) and a binary search in it (`BinarySearch`).
Where keys repeat, a binary search may stop at any of them, so that only its contract is known.  The
element a search for the last key at or below `x` stops at is told from the unsorted list (`Floor`):
its key is the greatest one at or below `x`, and where that key is below `x` it is the last element
with it.
-/
import Mathlib.Data.List.Sort
import Mathlib.Tactic.Common

namespace SortedSearch

variable {α κ : Type*} [LinearOrder κ]

/-- A binary search: an index where the key stands, or the number of keys below it. -/
structure BinarySearch (κ : Type*) [LinearOrder κ] where
  find : List κ → κ → Except ℕ ℕ
  ok_spec : ∀ {keys : List κ} {x : κ} {i : ℕ}, keys.Pairwise (· ≤ ·) → find keys x = .ok i →
    keys[i]? = some x
  error_spec : ∀ {keys : List κ} {x : κ} {i : ℕ}, keys.Pairwise (· ≤ ·) → find keys x = .error i →
    x ∉ keys ∧ i = (keys.filter (· < x)).length

/-- The stable sort by a key. -/
def sortByKey (key : α → κ) (l : List α) : List α := l.mergeSort (fun a b => decide (key a ≤ key b))

/-- The index of a key at or below `x`: where the search stops, or the place in front of it. -/
def floorIndex (search : BinarySearch κ) (keys : List κ) (x : κ) : Option ℕ :=
  match search.find keys x with
  | .ok i => some i
  | .error 0 => none
  | .error (i + 1) => some i

/-- The elements a search for the last key at or below `x` may stop at. -/
structure Floor (key : α → κ) (l : List α) (x : κ) (e : α) : Prop where
  mem : e ∈ l
  le : key e ≤ x
  greatest : ∀ e' ∈ l, key e' ≤ x → key e' ≤ key e
  last : key e < x → (l.filter (fun e' => decide (key e' = key e))).getLast? = some e

instance (key : α → κ) (l : List α) (x : κ) (e : α) [DecidableEq α] : Decidable (Floor key l x e) :=
  decidable_of_iff (e ∈ l ∧ key e ≤ x ∧ (∀ e' ∈ l, key e' ≤ x → key e' ≤ key e) ∧
      (key e < x → (l.filter (fun e' => decide (key e' = key e))).getLast? = some e))
    ⟨fun h => ⟨h.1, h.2.1, h.2.2.1, h.2.2.2⟩, fun h => ⟨h.mem, h.le, h.greatest, h.last⟩⟩

/-! ## The sort -/

theorem keyLe_trans (key : α → κ) (a b c : α) (hab : decide (key a ≤ key b) = true)
    (hbc : decide (key b ≤ key c) = true) : decide (key a ≤ key c) = true := by
  rw [decide_eq_true_eq] at hab hbc ⊢
  exact le_trans hab hbc

theorem keyLe_total (key : α → κ) (a b : α) :
    (decide (key a ≤ key b) || decide (key b ≤ key a)) = true := by
  rw [Bool.or_eq_true, decide_eq_true_eq, decide_eq_true_eq]
  exact le_total (key a) (key b)

theorem sortByKey_perm (key : α → κ) (l : List α) : (sortByKey key l).Perm l :=
  List.mergeSort_perm l _

theorem mem_sortByKey {key : α → κ} {l : List α} {e : α} : e ∈ sortByKey key l ↔ e ∈ l :=
  (sortByKey_perm key l).mem_iff

theorem sortByKey_sorted (key : α → κ) (l : List α) :
    (sortByKey key l).Pairwise (fun a b => key a ≤ key b) := by
  have hsorted : (sortByKey key l).Pairwise (fun a b => decide (key a ≤ key b)) :=
    List.pairwise_mergeSort (keyLe_trans key) (keyLe_total key) l
  exact hsorted.imp (fun h => of_decide_eq_true h)

theorem keys_sorted (key : α → κ) (l : List α) :
    ((sortByKey key l).map key).Pairwise (· ≤ ·) :=
  List.pairwise_map.mpr (sortByKey_sorted key l)

/-- The sort is stable: the elements of one key stay in order. -/
theorem sortByKey_stable (key : α → κ) (l : List α) (k : κ) :
    (sortByKey key l).filter (fun e => decide (key e = k)) =
      l.filter (fun e => decide (key e = k)) := by
  have hequal : (l.filter (fun e => decide (key e = k))).Pairwise
      (fun a b => decide (key a ≤ key b)) := by
    apply List.Pairwise.imp_of_mem (R := fun _ _ => True)
    · intro a b ha hb _
      have hka := of_decide_eq_true (List.mem_filter.mp ha).2
      have hkb := of_decide_eq_true (List.mem_filter.mp hb).2
      rw [decide_eq_true_eq, hka, hkb]
    · exact List.pairwise_of_forall (fun _ _ => trivial)
  have hsub : (l.filter (fun e => decide (key e = k))).Sublist (sortByKey key l) :=
    List.sublist_mergeSort (keyLe_trans key) (keyLe_total key) hequal List.filter_sublist
  -- what is filtered is a sublist of the sorted list's part, and as long
  have hfiltered := hsub.filter (fun e => decide (key e = k))
  rw [List.filter_filter] at hfiltered
  simp only [Bool.and_self] at hfiltered
  exact (hfiltered.eq_of_length ((sortByKey_perm key l).filter _).length_eq.symm).symm

/-! ## The part below a key -/

/-- A sorted list is its part below `x` and the rest. -/
theorem below_append {key : α → κ} {s : List α} (hs : s.Pairwise (fun a b => key a ≤ key b))
    (x : κ) :
    s.filter (fun e => decide (key e < x)) ++ s.filter (fun e => decide (x ≤ key e)) = s := by
  induction s with
  | nil => rfl
  | cons e s ih =>
    obtain ⟨hhead, htail⟩ := List.pairwise_cons.mp hs
    by_cases hlt : key e < x
    · rw [List.filter_cons, List.filter_cons, if_pos (decide_eq_true hlt),
        if_neg (by simpa using hlt), List.cons_append, ih htail]
    · -- the first key is not below `x`, so none is
      have hnone : s.filter (fun e => decide (key e < x)) = [] := by
        rw [List.filter_eq_nil_iff]
        intro e' he'
        have hle := hhead e' he'
        rw [decide_eq_true_eq, not_lt]
        exact le_trans (not_lt.mp hlt) hle
      have hrest := ih htail
      rw [hnone, List.nil_append] at hrest
      rw [List.filter_cons, List.filter_cons, if_neg (by simpa using hlt), hnone, List.nil_append,
        if_pos (decide_eq_true (not_lt.mp hlt)), hrest]

/-- What stands in front of the first key that is not below `x` is the last one below. -/
theorem below_last {key : α → κ} {s : List α} (hs : s.Pairwise (fun a b => key a ≤ key b)) {x : κ}
    {i : ℕ} (hi : i + 1 = (s.filter (fun e => decide (key e < x))).length) :
    s[i]? = (s.filter (fun e => decide (key e < x))).getLast? := by
  have hat : s[i]? = (s.filter (fun e => decide (key e < x)))[i]? := by
    have happ : (s.filter (fun e => decide (key e < x)) ++
        s.filter (fun e => decide (x ≤ key e)))[i]? = s[i]? := by
      rw [below_append hs x]
    rw [← happ, List.getElem?_append_left (by omega)]
  rw [hat, List.getLast?_eq_getElem?, ← hi, Nat.add_sub_cancel]

/-- The last element of a list is the last of those that satisfy what it satisfies. -/
theorem getLast?_filter {l : List α} {e : α} {p : α → Bool} (hlast : l.getLast? = some e)
    (hp : p e = true) : (l.filter p).getLast? = some e := by
  obtain ⟨init, rfl⟩ := List.getLast?_eq_some_iff.mp hlast
  rw [List.filter_append, List.filter_cons_of_pos hp, List.filter_nil]
  exact List.getLast?_concat

/-! ## Where a search stops -/

/-- The number of keys below `x`. -/
theorem keys_below (key : α → κ) (s : List α) (x : κ) :
    ((s.map key).filter (· < x)).length = (s.filter (fun e => decide (key e < x))).length := by
  rw [List.filter_map, List.length_map]
  rfl

/-- **What a search stops at is a floor.** -/
theorem floorIndex_some {search : BinarySearch κ} {key : α → κ} {l : List α} {x : κ} {i : ℕ}
    (hfound : floorIndex search ((sortByKey key l).map key) x = some i) :
    ∃ e, (sortByKey key l)[i]? = some e ∧ Floor key l x e := by
  have hsorted := sortByKey_sorted key l
  unfold floorIndex at hfound
  split at hfound
  · rename_i j hfind
    have hij : j = i := by simpa using hfound
    subst hij
    -- the search stopped at the key itself
    have hat := search.ok_spec (keys_sorted key l) hfind
    rw [List.getElem?_map, Option.map_eq_some_iff] at hat
    obtain ⟨e, he, hkey⟩ := hat
    have hmem : e ∈ l := mem_sortByKey.mp (List.mem_of_getElem? he)
    refine ⟨e, he, hmem, le_of_eq hkey, ?_, ?_⟩
    · intro e' _ hle
      rw [hkey]
      exact hle
    · intro hlt
      exact absurd hkey (ne_of_lt hlt)
  · cases hfound
  · rename_i j hfind
    have hij : j = i := by simpa using hfound
    subst hij
    -- the search stopped behind the last key below `x`
    obtain ⟨habsent, hcount⟩ := search.error_spec (keys_sorted key l) hfind
    rw [keys_below] at hcount
    have hat := below_last hsorted hcount
    obtain ⟨e, he⟩ : ∃ e, ((sortByKey key l).filter (fun e => decide (key e < x))).getLast?
      = some e := by
      rw [← Option.isSome_iff_exists, List.getLast?_isSome]
      intro hnil
      rw [hnil, List.length_nil] at hcount
      omega
    have hin := List.mem_filter.mp (List.mem_of_getLast? he)
    have hlt : key e < x := of_decide_eq_true hin.2
    have hmem : e ∈ l := mem_sortByKey.mp hin.1
    refine ⟨e, hat.trans he, hmem, le_of_lt hlt, ?_, ?_⟩
    · intro e' he' hle
      have hlt' : key e' < x := by
        apply lt_of_le_of_ne hle
        intro hkey
        exact habsent (List.mem_map.mpr ⟨e', mem_sortByKey.mpr he', hkey⟩)
      obtain ⟨init, hinit⟩ := List.getLast?_eq_some_iff.mp he
      have hbelow := hsorted.filter (fun e => decide (key e < x))
      rw [hinit, List.pairwise_append] at hbelow
      have hmem' : e' ∈ init ++ [e] := by
        rw [← hinit]
        exact List.mem_filter.mpr ⟨mem_sortByKey.mpr he', decide_eq_true hlt'⟩
      rw [List.mem_append, List.mem_singleton] at hmem'
      obtain hearlier | rfl := hmem'
      · exact hbelow.2.2 e' hearlier e (List.mem_singleton_self e)
      · exact le_refl _
    · intro _
      rw [← sortByKey_stable key l (key e)]
      have hlast := getLast?_filter (p := fun e' => decide (key e' = key e)) he (decide_eq_true rfl)
      rw [List.filter_filter] at hlast
      rw [← hlast]
      congr 1
      apply List.filter_congr
      intro e' _
      by_cases hkey : key e' = key e
      · simp [hkey, hlt]
      · simp [hkey]

/-- A search finds nothing where every key lies above. -/
theorem floorIndex_none {search : BinarySearch κ} {key : α → κ} {l : List α} {x : κ} :
    floorIndex search ((sortByKey key l).map key) x = none ↔ ∀ e ∈ l, x < key e := by
  constructor
  · intro hnone e he
    unfold floorIndex at hnone
    split at hnone
    · cases hnone
    · rename_i hfind
      obtain ⟨habsent, hcount⟩ := search.error_spec (keys_sorted key l) hfind
      rw [keys_below] at hcount
      have hnil := List.filter_eq_nil_iff.mp (List.eq_nil_of_length_eq_zero hcount.symm) e
        (mem_sortByKey.mpr he)
      rw [decide_eq_true_eq, not_lt] at hnil
      apply lt_of_le_of_ne hnil
      intro hkey
      exact habsent (List.mem_map.mpr ⟨e, mem_sortByKey.mpr he, hkey.symm⟩)
    · cases hnone
  · intro habove
    cases hfound : floorIndex search ((sortByKey key l).map key) x with
    | none => rfl
    | some i =>
      obtain ⟨e, -, hfloor⟩ := floorIndex_some hfound
      exact absurd hfloor.le (not_le.mpr (habove e hfloor.mem))

/-- The search that stops at index `i` wherever it may. -/
def BinarySearch.stopAt (i : ℕ) : BinarySearch κ where
  find keys x :=
    if keys[i]? = some x then .ok i
    else if x ∈ keys then .ok (keys.idxOf x)
    else .error (keys.filter (· < x)).length
  ok_spec := by
    intro keys x j _ hfind
    split at hfind
    · rename_i hat
      obtain rfl : i = j := by simpa using hfind
      exact hat
    · split at hfind
      · rename_i hmem
        obtain rfl : keys.idxOf x = j := by simpa using hfind
        exact List.getElem?_idxOf hmem
      · cases hfind
  error_spec := by
    intro keys x j _ hfind
    split at hfind
    · cases hfind
    · split at hfind
      · cases hfind
      · rename_i habsent
        exact ⟨habsent, by simpa using hfind.symm⟩

/-- **Every floor is where some search stops.** -/
theorem Floor.found {key : α → κ} {l : List α} {x : κ} {e : α} (h : Floor key l x e) :
    ∃ (search : BinarySearch κ) (i : ℕ),
      floorIndex search ((sortByKey key l).map key) x = some i ∧
        (sortByKey key l)[i]? = some e := by
  obtain hlt | heq := lt_or_eq_of_le h.le
  · -- no key is `x`: every search stops at the last element of the greatest key
    have hsome : ∃ i, floorIndex (BinarySearch.stopAt 0 : BinarySearch κ)
      ((sortByKey key l).map key) x = some i := by
      rw [← Option.isSome_iff_exists, Option.isSome_iff_ne_none]
      intro hnone
      exact absurd h.le (not_le.mpr (floorIndex_none.mp hnone e h.mem))
    obtain ⟨i, hi⟩ := hsome
    obtain ⟨e', he', hfloor⟩ := floorIndex_some hi
    have hkey : key e' = key e :=
      le_antisymm (h.greatest e' hfloor.mem hfloor.le) (hfloor.greatest e h.mem h.le)
    have hlast := hfloor.last (by rw [hkey]; exact hlt)
    rw [hkey, h.last hlt, Option.some_inj] at hlast
    exact ⟨_, i, hi, by rw [he', hlast]⟩
  · have hmem : e ∈ sortByKey key l := mem_sortByKey.mpr h.mem
    obtain ⟨i, hi⟩ := List.getElem?_of_mem hmem
    refine ⟨BinarySearch.stopAt i, i, ?_, hi⟩
    unfold floorIndex BinarySearch.stopAt
    simp only
    rw [List.getElem?_map, hi, Option.map_some, heq, if_pos rfl]

/-- The floors of a mapped list are those of the list. -/
theorem floor_map {β : Type*} {f : β → α} {key : α → κ} {l : List β} {x : κ} {e : α} :
    Floor key (l.map f) x e ↔ ∃ b, Floor (fun b => key (f b)) l x b ∧ f b = e := by
  have hfilter : ∀ k : κ, ((l.map f).filter (fun e' => decide (key e' = k))).getLast? =
      (l.filter (fun b => decide (key (f b) = k))).getLast?.map f := by
    intro k
    rw [List.filter_map, List.getLast?_map]
    rfl
  constructor
  · intro h
    have hgreatest : ∀ b ∈ l, key (f b) ≤ x → key (f b) ≤ key e := by
      intro b hb hle
      exact h.greatest (f b) (List.mem_map_of_mem hb) hle
    obtain hlt | heq := lt_or_eq_of_le h.le
    · have hlast := h.last hlt
      rw [hfilter, Option.map_eq_some_iff] at hlast
      obtain ⟨b, hb, rfl⟩ := hlast
      have hmem := (List.mem_filter.mp (List.mem_of_getLast? hb)).1
      exact ⟨b, ⟨hmem, h.le, hgreatest, fun _ => hb⟩, rfl⟩
    · obtain ⟨b, hb, rfl⟩ := List.mem_map.mp h.mem
      exact ⟨b, ⟨hb, h.le, hgreatest, fun hlt => absurd heq (ne_of_lt hlt)⟩, rfl⟩
  · rintro ⟨b, h, rfl⟩
    refine ⟨List.mem_map_of_mem h.mem, h.le, ?_, ?_⟩
    · intro e' he' hle
      obtain ⟨b', hb', rfl⟩ := List.mem_map.mp he'
      exact h.greatest b' hb' hle
    · intro hlt
      rw [hfilter, h.last hlt, Option.map_some]

/-- Only the elements at or below `x` have a say in what a search may stop at. -/
theorem floor_filter {key : α → κ} {l : List α} {x : κ} {e : α} {p : α → Bool}
    (hp : ∀ e' ∈ l, key e' ≤ x → p e' = true) : Floor key (l.filter p) x e ↔ Floor key l x e := by
  have hkept : ∀ e' ∈ l, key e' ≤ x → e' ∈ l.filter p := by
    intro e' he' hle
    exact List.mem_filter.mpr ⟨he', hp e' he' hle⟩
  have hsame : key e ≤ x → (l.filter p).filter (fun e' => decide (key e' = key e)) =
      l.filter (fun e' => decide (key e' = key e)) := by
    intro hle
    rw [List.filter_filter]
    apply List.filter_congr
    intro e' he'
    by_cases hkey : key e' = key e
    · simp [hkey, hp e' he' (by rw [hkey]; exact hle)]
    · simp [hkey]
  constructor
  · intro h
    refine ⟨(List.mem_filter.mp h.mem).1, h.le, fun e' he' hle => ?_, fun hlt => ?_⟩
    · exact h.greatest e' (hkept e' he' hle) hle
    · rw [← hsame h.le]
      exact h.last hlt
  · intro h
    refine ⟨hkept e h.mem h.le, h.le, fun e' he' hle => ?_, fun hlt => ?_⟩
    · exact h.greatest e' (List.mem_filter.mp he').1 hle
    · rw [hsame h.le]
      exact h.last hlt

end SortedSearch
