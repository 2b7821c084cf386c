/-
# Ranges of a sequence

Reading a range of a list (`window`), writing one (`overwrite`), and what a read sees of a write:
the very elements written, and outside of them nothing new.  Writing element after element
(`setFrom`) is writing the range at once.
-/
import Mathlib.Data.List.Basic
import Mathlib.Tactic.Common

namespace Ranges

variable {α : Type*}

/-- The `n` elements from `i` on. -/
def window (l : List α) (i n : ℕ) : List α := (l.drop i).take n

/-- `l` with `xs` written over it from `i` on. -/
def overwrite (l : List α) (i : ℕ) (xs : List α) : List α :=
  l.take i ++ xs ++ l.drop (i + xs.length)

/-- Writes `xs` from `i` on, one element after the other. -/
def setFrom (l : List α) (i : ℕ) : List α → List α
  | [] => l
  | x :: xs => setFrom (l.set i x) (i + 1) xs

/-! ## Reading -/

variable {i k n w dst : ℕ}

theorem window_length {l : List α} (h : i + n ≤ l.length) : (window l i n).length = n := by
  rw [window, List.length_take, List.length_drop]
  omega

theorem window_getElem? {l : List α} (hk : k < n) : (window l i n)[k]? = l[i + k]? := by
  rw [window, List.getElem?_take, if_pos hk, List.getElem?_drop]

/-! ## Writing -/

theorem overwrite_length {l xs : List α} (h : i + xs.length ≤ l.length) :
    (overwrite l i xs).length = l.length := by
  rw [overwrite, List.length_append, List.length_append, List.length_take, List.length_drop]
  omega

theorem overwrite_nil (l : List α) (i : ℕ) : overwrite l i [] = l := by
  rw [overwrite, List.append_nil]
  exact List.take_append_drop i l

/-- Every element after a write: one of those written, or the one that was there. -/
theorem overwrite_getElem? {l xs : List α} (h : i + xs.length ≤ l.length) (j : ℕ) :
    (overwrite l i xs)[j]? = if i ≤ j ∧ j < i + xs.length then xs[j - i]? else l[j]? := by
  have htake : (l.take i).length = i := by
    rw [List.length_take]
    omega
  rw [overwrite]
  by_cases hlow : j < i
  · rw [if_neg (by omega), List.append_assoc, List.getElem?_append_left (by omega),
      List.getElem?_take, if_pos hlow]
  · by_cases hin : j < i + xs.length
    · rw [if_pos ⟨by omega, hin⟩, List.append_assoc, List.getElem?_append_right (by omega), htake,
        List.getElem?_append_left (by omega)]
    · rw [if_neg (by omega), List.getElem?_append_right (by rw [List.length_append]; omega),
        List.length_append, htake, List.getElem?_drop]
      congr 1
      omega

/-- Two lists that agree at every place are the same. -/
theorem overwrite_ext {l xs m : List α} (h : i + xs.length ≤ l.length)
    (hm : ∀ j : ℕ, m[j]? = if i ≤ j ∧ j < i + xs.length then xs[j - i]? else l[j]?) :
    m = overwrite l i xs := by
  apply List.ext_getElem?
  intro j
  rw [hm, overwrite_getElem? h]

theorem overwrite_cons {l xs : List α} {x : α} (h : i + (xs.length + 1) ≤ l.length) :
    overwrite (l.set i x) (i + 1) xs = overwrite l i (x :: xs) := by
  have hset : i + 1 + xs.length ≤ (l.set i x).length := by
    rw [List.length_set]
    omega
  apply overwrite_ext (by rw [List.length_cons]; omega)
  intro j
  rw [overwrite_getElem? hset, List.length_cons]
  by_cases hj : j = i
  · subst hj
    rw [if_neg (by omega), if_pos ⟨Nat.le_refl j, by omega⟩, Nat.sub_self,
      List.getElem?_set_self (by omega), List.getElem?_cons_zero]
  · by_cases hin : i + 1 ≤ j ∧ j < i + 1 + xs.length
    · rw [if_pos hin, if_pos ⟨by omega, by omega⟩, show j - i = (j - (i + 1)) + 1 by omega,
        List.getElem?_cons_succ]
    · rw [if_neg hin, if_neg (by omega), List.getElem?_set_ne (Ne.symm hj)]

/-- Writing element after element is writing the range. -/
theorem setFrom_eq_overwrite {l xs : List α} (h : i + xs.length ≤ l.length) :
    setFrom l i xs = overwrite l i xs := by
  induction xs generalizing l i with
  | nil => rw [setFrom, overwrite_nil]
  | cons x xs ih =>
    rw [List.length_cons] at h
    have hset : i + 1 + xs.length ≤ (l.set i x).length := by
      rw [List.length_set]
      omega
    rw [setFrom, ih hset, overwrite_cons h]

/-- A range written in two parts. -/
theorem overwrite_append {l xs ys : List α} (h : i + (xs.length + ys.length) ≤ l.length) :
    overwrite (overwrite l i xs) (i + xs.length) ys = overwrite l i (xs ++ ys) := by
  have hxs : i + xs.length ≤ l.length := by omega
  have hlen := overwrite_length hxs
  apply overwrite_ext (by rw [List.length_append]; exact h)
  intro j
  rw [overwrite_getElem? (by rw [hlen]; omega), overwrite_getElem? hxs, List.length_append]
  by_cases hys : i + xs.length ≤ j ∧ j < i + xs.length + ys.length
  · rw [if_pos hys, if_pos ⟨by omega, by omega⟩, List.getElem?_append_right (by omega)]
    congr 1
    omega
  · rw [if_neg hys]
    by_cases hin : i ≤ j ∧ j < i + xs.length
    · rw [if_pos hin, if_pos ⟨hin.1, by omega⟩, List.getElem?_append_left (by omega)]
    · rw [if_neg hin, if_neg (by omega)]

/-! ## Reading what was written -/

theorem window_overwrite_self {l xs : List α} (h : i + xs.length ≤ l.length) :
    window (overwrite l i xs) i xs.length = xs := by
  have htake : (l.take i).length = i := by
    rw [List.length_take]
    omega
  rw [window, overwrite, List.append_assoc, List.drop_left' htake, List.take_left]

/-- A write leaves every range that it does not meet. -/
theorem window_overwrite_disjoint {l xs : List α} {j : ℕ} (h : i + xs.length ≤ l.length)
    (hd : j + n ≤ i ∨ i + xs.length ≤ j) : window (overwrite l i xs) j n = window l j n := by
  apply List.ext_getElem?
  intro k
  by_cases hk : k < n
  · rw [window_getElem? hk, window_getElem? hk, overwrite_getElem? h, if_neg (by omega)]
  · rw [window, window, List.getElem?_take, List.getElem?_take, if_neg hk, if_neg hk]

/-- A part of what was written. -/
theorem window_overwrite_inside {l xs : List α} (h : i + xs.length ≤ l.length)
    (hk : k + n ≤ xs.length) : window (overwrite l i xs) (i + k) n = window xs k n := by
  apply List.ext_getElem?
  intro j
  by_cases hj : j < n
  · rw [window_getElem? hj, window_getElem? hj, overwrite_getElem? h, if_pos ⟨by omega, by omega⟩]
    congr 1
    omega
  · rw [window, window, List.getElem?_take, List.getElem?_take, if_neg hj, if_neg hj]

/-! ## Simultaneous copies -/

/-- `new` is `old` with `len` elements of `source`, from `src` on, put from `dst` on; all of them
are read before one is written. -/
def Copied (old source new : List α) (src dst len : ℕ) : Prop :=
  new.length = old.length ∧
    ∀ j : ℕ, new[j]? = if dst ≤ j ∧ j < dst + len then source[src + (j - dst)]? else old[j]?

theorem copied_overwrite {old source : List α} {src len : ℕ} (hs : src + len ≤ source.length)
    (hd : dst + len ≤ old.length) :
    Copied old source (overwrite old dst (window source src len)) src dst len := by
  have hlen := window_length hs
  constructor
  · exact overwrite_length (by rw [hlen]; exact hd)
  · intro j
    rw [overwrite_getElem? (by rw [hlen]; exact hd), hlen]
    by_cases hj : dst ≤ j ∧ j < dst + len
    · rw [if_pos hj, if_pos hj, window_getElem? (by omega)]
    · rw [if_neg hj, if_neg hj]

/-- Filling is copying from as many equal elements. -/
theorem copied_fill {old : List α} (a : α) (hd : dst + n ≤ old.length) :
    Copied old (List.replicate n a) (overwrite old dst (List.replicate n a)) 0 dst n := by
  have hwindow : window (List.replicate n a) 0 n = List.replicate n a := by
    rw [window, List.drop_zero]
    exact List.take_of_length_le (Nat.le_of_eq List.length_replicate)
  have hsource : 0 + n ≤ (List.replicate n a).length := by
    rw [List.length_replicate]
    omega
  have hcopy := copied_overwrite hsource hd
  rw [hwindow] at hcopy
  exact hcopy

/-! ## Elements of a fixed width -/

/-- The `i`-th piece of width `w`. -/
def chunk (l : List α) (w i : ℕ) : List α := window l (i * w) w

/-- Writing whole pieces replaces these pieces and no other. -/
theorem chunk_overwrite {l xs : List α} (hx : xs.length = n * w) (h : (dst + n) * w ≤ l.length)
    (j : ℕ) :
    chunk (overwrite l (dst * w) xs) w j =
      if dst ≤ j ∧ j < dst + n then chunk xs w (j - dst) else chunk l w j := by
  have hfit : dst * w + xs.length ≤ l.length := by
    rw [hx, ← Nat.add_mul]
    exact h
  have hstep : ∀ a b : ℕ, a < b → a * w + w ≤ b * w := by
    intro a b hab
    calc a * w + w = (a + 1) * w := (Nat.succ_mul a w).symm
      _ ≤ b * w := Nat.mul_le_mul_right w hab
  by_cases hj : dst ≤ j ∧ j < dst + n
  · have hpos : j * w = dst * w + (j - dst) * w := by
      rw [← Nat.add_mul]
      congr 1
      omega
    rw [if_pos hj, chunk, chunk, hpos]
    apply window_overwrite_inside hfit
    rw [hx]
    exact hstep _ _ (by omega)
  · rw [if_neg hj, chunk, chunk]
    apply window_overwrite_disjoint hfit
    rcases Nat.lt_or_ge j dst with hlow | hhigh
    · exact Or.inl (hstep j dst hlow)
    · right
      rw [hx, ← Nat.add_mul]
      exact Nat.mul_le_mul_right w (by omega)

/-- The pieces of a range of whole pieces. -/
theorem chunk_window {l : List α} (hk : k < n) :
    chunk (window l i (n * w)) w k = window l (i + k * w) w := by
  have hfit : k * w + w ≤ n * w := by
    calc k * w + w = (k + 1) * w := (Nat.succ_mul k w).symm
      _ ≤ n * w := Nat.mul_le_mul_right w hk
  apply List.ext_getElem?
  intro j
  rw [chunk]
  by_cases hj : j < w
  · rw [window_getElem? hj, window_getElem? hj, window_getElem? (by omega)]
    congr 1
    omega
  · rw [window, List.getElem?_take, if_neg hj, window, List.getElem?_take, if_neg hj]

/-- Pieces of one width put together. -/
theorem flatten_length {bs : List (List α)} (h : ∀ b ∈ bs, b.length = w) :
    bs.flatten.length = bs.length * w := by
  induction bs with
  | nil => rw [List.flatten_nil, List.length_nil, List.length_nil, Nat.zero_mul]
  | cons b bs ih =>
    rw [List.flatten_cons, List.length_append, h b List.mem_cons_self,
      ih fun c hc => h c (List.mem_cons_of_mem _ hc), List.length_cons, Nat.succ_mul, Nat.add_comm]

/-- They are its pieces. -/
theorem chunk_flatten {bs : List (List α)} (h : ∀ b ∈ bs, b.length = w) (hk : k < bs.length) :
    some (chunk bs.flatten w k) = bs[k]? := by
  induction bs generalizing k with
  | nil => exact absurd hk (Nat.not_lt_zero k)
  | cons b bs ih =>
    have hb : b.length = w := h b List.mem_cons_self
    rw [chunk, List.flatten_cons, window]
    cases k with
    | zero => rw [Nat.zero_mul, List.drop_zero, List.take_left' hb, List.getElem?_cons_zero]
    | succ k =>
      have hdrop : (k + 1) * w = b.length + k * w := by rw [hb, Nat.succ_mul, Nat.add_comm]
      rw [hdrop, List.drop_length_add_append, List.getElem?_cons_succ,
        ← ih (fun c hc => h c (List.mem_cons_of_mem _ hc)) (Nat.lt_of_succ_lt_succ hk)]
      rfl

end Ranges
