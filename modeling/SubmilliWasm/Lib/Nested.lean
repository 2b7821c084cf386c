/-
# Operand stacks of structured control

A construct that can be branched to owns the operands pushed since it was entered; what its
surroundings had before lies below them, out of reach.  So the operands of nested constructs are a
stack of stacks, one for each construct, innermost first.  Written out one behind the other they are
one flat stack, and on that stack the rules of structured control are cuts: to enter a construct or
to leave it at its end moves nothing, a branch keeps the operands it carries and drops what lies
between them and the floor of its label, and an exception drops everything above the floor of the
construct that catches it.

`V` are the operands, `K` what follows a construct and `H` its handlers of exceptions.
-/
import Mathlib.Data.List.Basic
import Mathlib.Tactic.Common

namespace Nested

variable {V K H E : Type*}

/-- A construct that is open: the operands of its surroundings, the number of operands a branch to
its label carries, where such a branch starts it again if it does, what follows its end, and its
handlers. -/
structure Scope (V K H : Type*) where
  below : List V
  arity : ℕ
  again : Option K
  next : K
  handlers : List H

/-! ## The flat stack -/

/-- The operands of all constructs, bottom first, under those of the innermost one. -/
def flat : List (Scope V K H) → List V → List V
  | [], vs => vs
  | s :: ss, vs => flat ss (s.below ++ vs)

/-- What lies below the innermost construct. -/
def under (ss : List (Scope V K H)) : List V := flat ss []

/-- The height at which the operands of the innermost construct begin. -/
def floor (ss : List (Scope V K H)) : ℕ := (under ss).length

variable {s : Scope V K H} {ss : List (Scope V K H)} {vs ws : List V}

@[simp] theorem flat_nil (vs : List V) : flat ([] : List (Scope V K H)) vs = vs := rfl

@[simp] theorem flat_cons (s : Scope V K H) (ss : List (Scope V K H)) (vs : List V) :
    flat (s :: ss) vs = flat ss (s.below ++ vs) := rfl

theorem flat_append (ss : List (Scope V K H)) (vs ws : List V) :
    flat ss (vs ++ ws) = flat ss vs ++ ws := by
  induction ss generalizing vs with
  | nil => rfl
  | cons s ss ih => rw [flat_cons, flat_cons, ← List.append_assoc, ih]

theorem flat_eq (ss : List (Scope V K H)) (vs : List V) : flat ss vs = under ss ++ vs := by
  rw [under, ← flat_append, List.nil_append]

theorem length_flat (ss : List (Scope V K H)) (vs : List V) :
    (flat ss vs).length = floor ss + vs.length := by
  rw [flat_eq, List.length_append, floor]

theorem floor_cons (s : Scope V K H) (ss : List (Scope V K H)) :
    floor (s :: ss) = floor ss + s.below.length := by
  rw [floor, under, flat_cons, length_flat, List.append_nil]

/-- The operands below an outer construct are the lowest of the stack. -/
theorem take_floor_drop (ss : List (Scope V K H)) (l : ℕ) (vs : List V) :
    (flat ss vs).take (floor (ss.drop l)) = under (ss.drop l) := by
  induction ss generalizing l vs with
  | nil => simp [under, floor]
  | cons s ss ih =>
    cases l with
    | zero => rw [List.drop_zero, flat_eq, floor, List.take_left]
    | succ l => rw [List.drop_succ_cons, flat_cons, ih]

/-! ## Entering a construct -/

/-- Opens a construct that takes the top `n` operands. -/
def enter (n arity : ℕ) (again : Option K) (next : K) (handlers : List H)
    (ss : List (Scope V K H)) (vs : List V) : List (Scope V K H) × List V :=
  (⟨vs.take (vs.length - n), arity, again, next, handlers⟩ :: ss, vs.drop (vs.length - n))

/-- To enter a construct moves no operand. -/
theorem flat_enter (n arity : ℕ) (again : Option K) (next : K) (handlers : List H)
    (ss : List (Scope V K H)) (vs : List V) :
    flat (enter n arity again next handlers ss vs).1 (enter n arity again next handlers ss vs).2
      = flat ss vs := by
  rw [enter, flat_cons, List.take_append_drop]

/-! ## Branches -/

/-- A branch to the label `l`: where it goes on, with which constructs and which operands. -/
def branch (l : ℕ) (ss : List (Scope V K H)) (vs : List V) :
    Option (K × List (Scope V K H) × List V) :=
  match ss.drop l with
  | [] => none
  | s :: rest =>
    let carried := vs.drop (vs.length - s.arity)
    match s.again with
    | some k => some (k, s :: rest, carried)
    | none => some (s.next, rest, s.below ++ carried)

theorem branch_of_drop {l : ℕ} {rest : List (Scope V K H)} (h : ss.drop l = s :: rest)
    (vs : List V) :
    branch l ss vs = match s.again with
      | some k => some (k, s :: rest, vs.drop (vs.length - s.arity))
      | none => some (s.next, rest, s.below ++ vs.drop (vs.length - s.arity)) := by
  rw [branch, h]

/-- A branch keeps the operands it carries, in their order, on top of those below its label, and no
other. -/
theorem flat_branch {l : ℕ} {k : K} {ss' : List (Scope V K H)} {vs' : List V}
    (h : branch l ss vs = some (k, ss', vs')) :
    ∃ s rest, ss.drop l = s :: rest ∧ flat ss' vs' =
      (flat ss vs).take (floor (s :: rest)) ++ vs.drop (vs.length - s.arity) := by
  rcases hd : ss.drop l with _ | ⟨s, rest⟩
  · rw [branch, hd] at h
    cases h
  · refine ⟨s, rest, rfl, ?_⟩
    have hbelow : (flat ss vs).take (floor (s :: rest)) = flat rest s.below := by
      rw [← hd, take_floor_drop, hd, under, flat_cons, List.append_nil]
    rw [branch_of_drop hd] at h
    rw [hbelow, ← flat_append]
    cases hs : s.again with
    | some k' =>
      rw [hs] at h
      obtain ⟨rfl, rfl, rfl⟩ := h
      rfl
    | none =>
      rw [hs] at h
      obtain ⟨rfl, rfl, rfl⟩ := h
      rfl

/-! ## Exceptions -/

/-- The first handler of a construct that catches. -/
def catcher (catches : H → Except E Bool) : List H → Except E (Option H)
  | [] => .ok none
  | h :: hs =>
    match catches h with
    | .error err => .error err
    | .ok true => .ok (some h)
    | .ok false => catcher catches hs

/-- A handler that catches is one of the construct's. -/
theorem catcher_some {catches : H → Except E Bool} {hs : List H} {h : H}
    (hc : catcher catches hs = .ok (some h)) : h ∈ hs ∧ catches h = .ok true := by
  induction hs with
  | nil => cases hc
  | cons h' hs ih =>
    rw [catcher] at hc
    split at hc
    · cases hc
    · rename_i hcatch
      obtain rfl := Option.some.inj (Except.ok.inj hc)
      exact ⟨List.mem_cons_self, hcatch⟩
    · exact ⟨List.mem_cons_of_mem _ (ih hc).1, (ih hc).2⟩

/-- The handler that catches, innermost construct first, with the constructs around that one and
the operands it was entered over. -/
def unwind (catches : H → Except E Bool) :
    List (Scope V K H) → Except E (Option (H × List (Scope V K H) × List V))
  | [] => .ok none
  | s :: ss =>
    match catcher catches s.handlers with
    | .error err => .error err
    | .ok (some h) => .ok (some (h, ss, s.below))
    | .ok none => unwind catches ss

/-- What is left of the stack under a handler that caught is the part below its construct. -/
theorem flat_unwind {catches : H → Except E Bool} {h : H} {ss' : List (Scope V K H)} {vs' : List V}
    (hu : unwind catches ss = .ok (some (h, ss', vs'))) (vs : List V) :
    (flat ss vs).take (flat ss' vs').length = flat ss' vs' := by
  induction ss generalizing vs with
  | nil => cases hu
  | cons s ss ih =>
    rw [unwind] at hu
    split at hu
    · cases hu
    · obtain ⟨rfl, rfl, rfl⟩ := hu
      rw [flat_cons, flat_append, List.take_left]
    · exact ih hu _

end Nested
