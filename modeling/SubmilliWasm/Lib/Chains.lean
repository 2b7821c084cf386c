/-
# Walking a chain of parents

Each node has at most one parent.  A walk from a node follows the parents and asks at each
node whether it is the target; it is given a number of steps, since parents may form a cycle.
When only finitely many nodes have a parent, as many steps as there are such nodes and one
more find the target iff the parents lead to it at all.  A walk without a bound comes back
from every chain that ends, and there every chain ends iff no parents form a cycle.
-/
import Mathlib.Tactic

namespace Chains

variable {α : Type*}

/-- `b` is the parent of `a`. -/
def Parent (next : α → Option α) (a b : α) : Prop := next a = some b

/-- The parents of `a`, from `a` itself on, lead to `b`. -/
abbrev Leads (next : α → Option α) : α → α → Prop := Relation.ReflTransGen (Parent next)

/-- The node `n` steps up from a node. -/
def up (next : α → Option α) (n : ℕ) (a : α) : Option α := (fun o => o.bind next)^[n] (some a)

theorem up_add (next : α → Option α) (m n : ℕ) (a : α) :
    up next (m + n) a = (up next n a).bind (up next m) := by
  unfold up
  rw [Function.iterate_add_apply]
  cases (fun o => o.bind next)^[n] (some a) with
  | some x => rfl
  | none =>
    rw [Option.bind_none]
    induction m with
    | zero => rfl
    | succ m ih =>
      rw [Function.iterate_succ_apply]
      exact ih

theorem up_succ (next : α → Option α) (n : ℕ) (a : α) :
    up next (n + 1) a = (next a).bind (up next n) := by
  rw [up_add]
  rfl

theorem leads_iff_up {next : α → Option α} {a b : α} :
    Leads next a b ↔ ∃ n, up next n a = some b := by
  constructor
  · intro h
    induction h with
    | refl => exact ⟨0, rfl⟩
    | tail _ hp ih =>
      obtain ⟨n, hn⟩ := ih
      refine ⟨1 + n, ?_⟩
      rw [up_add, hn]
      exact hp
  · rintro ⟨n, hn⟩
    induction n generalizing a with
    | zero =>
      obtain rfl := Option.some.inj hn
      exact .refl
    | succ n ih =>
      rw [up_succ, Option.bind_eq_some_iff] at hn
      obtain ⟨x, hx, hn⟩ := hn
      exact .head hx (ih hn)

section Walk

variable [DecidableEq α]

/-- Looks for `b` among the node given and the parents above it. -/
def walk (next : α → Option α) (b : α) : ℕ → Option α → Bool
  | _, none => false
  | 0, some _ => false
  | fuel + 1, some a => if a = b then true else walk next b fuel (next a)

theorem leads_of_walk {next : α → Option α} {b : α} {fuel : ℕ} {a : α}
    (h : walk next b fuel (some a) = true) : Leads next a b := by
  induction fuel generalizing a with
  | zero => cases h
  | succ fuel ih =>
    by_cases hab : a = b
    · rw [hab]
    · rw [walk, if_neg hab] at h
      cases hn : next a with
      | none =>
        rw [hn] at h
        cases fuel <;> cases h
      | some x =>
        rw [hn] at h
        exact .head hn (ih h)

theorem walk_of_up {next : α → Option α} {a b : α} {n fuel : ℕ} (h : up next n a = some b)
    (hf : n < fuel) : walk next b fuel (some a) = true := by
  induction fuel generalizing a n with
  | zero => omega
  | succ fuel ih =>
    by_cases hab : a = b
    · rw [walk, if_pos hab]
    · cases n with
      | zero => exact absurd (Option.some.inj h) hab
      | succ n =>
        rw [up_succ, Option.bind_eq_some_iff] at h
        obtain ⟨x, hx, h⟩ := h
        rw [walk, if_neg hab, hx]
        exact ih h (by omega)

/-- A shortest way up meets no node twice, so it is no longer than there are nodes to leave. -/
theorem exists_up_le {next : α → Option α} {s : Finset α} (hs : ∀ a, next a ≠ none → a ∈ s)
    {a b : α} (h : Leads next a b) : ∃ n ≤ s.card, up next n a = some b := by
  have hex : ∃ n, up next n a = some b := leads_iff_up.mp h
  classical
  obtain ⟨n, hn, hmin⟩ : ∃ n, up next n a = some b ∧ ∀ m < n, up next m a ≠ some b :=
    ⟨Nat.find hex, Nat.find_spec hex, fun m => Nat.find_min hex⟩
  refine ⟨n, ?_, hn⟩
  -- The node at each height below `n` exists and has a parent.
  have below : ∀ i < n, ∃ x, up next i a = some x ∧ up next (n - i) x = some b := by
    intro i hi
    have hsplit : up next (n - i + i) a = some b := by rwa [Nat.sub_add_cancel (le_of_lt hi)]
    rw [up_add, Option.bind_eq_some_iff] at hsplit
    exact hsplit
  have : Nonempty α := ⟨a⟩
  choose! node hnode hrest using below
  have hmaps : ∀ i ∈ Finset.range n, node i ∈ s := by
    intro i hi
    have hi : i < n := Finset.mem_range.mp hi
    apply hs
    intro hnone
    have := hrest i hi
    rw [show n - i = (n - i - 1) + 1 by omega, up_succ, hnone] at this
    cases this
  -- Were two heights to share a node, the part between them could be left out.
  have hlt : ∀ i j, i < j → j < n → node i ≠ node j := by
    intro i j hij hj heq
    apply hmin (n - j + i) (by omega)
    rw [up_add, hnode i (by omega), Option.bind_some, heq]
    exact hrest j hj
  have hinj : Set.InjOn node (Finset.range n : Set ℕ) := by
    intro i hi j hj heq
    rw [Finset.mem_coe, Finset.mem_range] at hi hj
    rcases lt_trichotomy i j with h | h | h
    · exact absurd heq (hlt i j h hj)
    · exact h
    · exact absurd heq.symm (hlt j i h hi)
  simpa using Finset.card_le_card_of_injOn node hmaps hinj

/-- **The walk decides the chain.** -/
theorem walk_iff {next : α → Option α} {s : Finset α} (hs : ∀ a, next a ≠ none → a ∈ s)
    {a b : α} {fuel : ℕ} (hf : s.card < fuel) :
    walk next b fuel (some a) = true ↔ Leads next a b := by
  constructor
  · exact leads_of_walk
  · intro h
    obtain ⟨n, hn, hup⟩ := exists_up_le hs h
    exact walk_of_up hup (by omega)

end Walk

/-- A chain is kept as long as the nodes it visits, all of them in `S`, keep their parents. -/
theorem Leads.congr {next next' : α → Option α} {S : α → Prop}
    (hparent : ∀ a b, S a → next a = some b → next' a = some b ∧ S b) {a b : α} (ha : S a)
    (h : Leads next a b) : Leads next' a b ∧ S b := by
  induction h with
  | refl => exact ⟨.refl, ha⟩
  | tail _ hp ih =>
    obtain ⟨hl, hx⟩ := ih
    obtain ⟨hp', hb⟩ := hparent _ _ hx hp
    exact ⟨.tail hl hp', hb⟩

/-! ## Chains that come to an end -/

/-- Following the parents from `a` leaves the nodes after finitely many steps. -/
def Ends (next : α → Option α) (a : α) : Prop := ∃ n, up next n a = none

theorem Ends.of_none {next : α → Option α} {a : α} (h : next a = none) : Ends next a :=
  ⟨1, by rw [up_succ, h, Option.bind_none]⟩

theorem Ends.of_parent {next : α → Option α} {a b : α} (h : next a = some b)
    (hb : Ends next b) : Ends next a := by
  obtain ⟨n, hn⟩ := hb
  exact ⟨n + 1, by rw [up_succ, h, Option.bind_some, hn]⟩

/-- A node on a chain that ends is not above itself. -/
theorem Ends.acyclic {next : α → Option α} {a : α} (h : Ends next a) :
    ¬ Relation.TransGen (Parent next) a a := by
  obtain ⟨n, hn⟩ := h
  induction n generalizing a with
  | zero => cases hn
  | succ n ih =>
    intro hcycle
    -- The parent of `a` is on the same cycle and closer to the end.
    obtain ⟨b, hab, hba⟩ := Relation.TransGen.head'_iff.mp hcycle
    rw [up_succ, show next a = some b from hab, Option.bind_some] at hn
    exact ih hn (Relation.TransGen.tail' hba hab)

/-- Where finitely many nodes have a parent, a chain that does not end runs into a cycle. -/
theorem ends_of_acyclic {next : α → Option α} {s : Finset α} (hs : ∀ a, next a ≠ none → a ∈ s)
    (h : ∀ a, ¬ Relation.TransGen (Parent next) a a) (a : α) : Ends next a := by
  by_contra hends
  have hsome : ∀ n, ∃ x, up next n a = some x := fun n =>
    Option.ne_none_iff_exists'.mp fun hn => hends ⟨n, hn⟩
  choose node hnode using hsome
  have hstep : ∀ n, next (node n) = some (node (n + 1)) := by
    intro n
    have hup : up next (1 + n) a = some (node (n + 1)) := by
      rw [Nat.add_comm]
      exact hnode (n + 1)
    rw [up_add, hnode n] at hup
    exact hup
  have hleads : ∀ m n, m < n → Relation.TransGen (Parent next) (node m) (node n) := by
    intro m n hmn
    induction n, hmn using Nat.le_induction with
    | base => exact .single (hstep m)
    | succ n _ ih => exact .tail ih (hstep n)
  -- The nodes met are all in `s`, so one of them is met twice.
  have hin : ∀ n, node n ∈ s := fun n => hs _ (by simp [hstep n])
  obtain ⟨m, n, hne, heq⟩ :=
    Finite.exists_ne_map_eq_of_infinite fun n => (⟨node n, hin n⟩ : {x // x ∈ s})
  have heq : node m = node n := congrArg Subtype.val heq
  rcases Nat.lt_or_gt_of_ne hne with hlt | hlt
  · exact h (node n) (heq ▸ hleads m n hlt)
  · exact h (node m) (heq ▸ hleads n m hlt)

/-- The end of a chain is kept as long as the nodes it visits, all of them in `S`, keep their
parents or lose them. -/
theorem Ends.congr {next next' : α → Option α} {S : α → Prop}
    (hparent : ∀ a b, S a → next' a = some b → next a = some b ∧ S b) {a : α} (ha : S a)
    (h : Ends next a) : Ends next' a := by
  obtain ⟨n, hn⟩ := h
  induction n generalizing a with
  | zero => cases hn
  | succ n ih =>
    cases hb : next' a with
    | none => exact .of_none hb
    | some b =>
      obtain ⟨hab, hSb⟩ := hparent a b ha hb
      rw [up_succ, hab, Option.bind_some] at hn
      exact .of_parent hb (ih hSb hn)

section Seek

variable [DecidableEq α]

/-- Looks for `b` as `walk` does, without a bound: no answer yet after the turns given. -/
def seek (next : α → Option α) (b : α) : ℕ → Option α → Option Bool
  | _, none => some false
  | 0, some _ => none
  | turns + 1, some a => if a = b then some true else seek next b turns (next a)

/-- An answer is right, and the answer `false` is given at the end of a chain only. -/
theorem seek_some {next : α → Option α} {b : α} {turns : ℕ} {a : α} {v : Bool}
    (h : seek next b turns (some a) = some v) :
    (v = true ↔ Leads next a b) ∧ (v = false → Ends next a) := by
  induction turns generalizing a with
  | zero => cases h
  | succ turns ih =>
    rw [seek] at h
    by_cases hab : a = b
    · rw [if_pos hab] at h
      obtain rfl := Option.some.inj h
      exact ⟨⟨fun _ => hab ▸ .refl, fun _ => rfl⟩, nofun⟩
    · rw [if_neg hab] at h
      have hhead : ∀ x, next a = some x → (Leads next a b ↔ Leads next x b) := by
        intro x hx
        refine ⟨fun hl => ?_, fun hl => .head hx hl⟩
        rcases Relation.ReflTransGen.cases_head hl with rfl | ⟨y, hy, hl⟩
        · exact absurd rfl hab
        · rw [show next a = some y from hy] at hx
          exact Option.some.inj hx ▸ hl
      cases hx : next a with
      | none =>
        have hv : seek next b turns none = some false := by cases turns <;> rfl
        rw [hx, hv] at h
        obtain rfl := Option.some.inj h
        refine ⟨⟨nofun, fun hl => ?_⟩, fun _ => .of_none hx⟩
        rcases Relation.ReflTransGen.cases_head hl with rfl | ⟨y, hy, -⟩
        · exact absurd rfl hab
        · rw [show next a = some y from hy] at hx
          cases hx
      | some x =>
        rw [hx] at h
        obtain ⟨hv, hends⟩ := ih h
        exact ⟨hv.trans (hhead x hx).symm, fun hf => .of_parent hx (hends hf)⟩

/-- **The search comes back** from a chain that ends. -/
theorem seek_of_ends {next : α → Option α} {a : α} (h : Ends next a) (b : α) :
    ∃ turns v, seek next b turns (some a) = some v := by
  obtain ⟨n, hn⟩ := h
  induction n generalizing a with
  | zero => cases hn
  | succ n ih =>
    by_cases hab : a = b
    · exact ⟨1, true, by rw [seek, if_pos hab]⟩
    · cases hx : next a with
      | none => exact ⟨1, false, by rw [seek, if_neg hab, hx, seek]⟩
      | some x =>
        rw [up_succ, hx, Option.bind_some] at hn
        obtain ⟨turns, v, hv⟩ := ih hn
        exact ⟨turns + 1, v, by rw [seek, if_neg hab, hx, hv]⟩

end Seek

end Chains
