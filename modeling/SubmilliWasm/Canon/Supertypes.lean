/-
# Following declared supertypes

`TypeRegistry::is_subtype` (`src/canon/registry.rs`) follows the declared supertypes in a loop
without a bound.  The validator of modules lets a type declare only an earlier one, and a
constructor is handed a type registered before; but the members of a recursion group built by
an embedder declare each other in any order, and `src/value/rec_group/validate.rs` does not
look for a cycle.  The loop comes back, and answers the reflexive-transitive closure of the
declarations, in every registry reached as long as no group is built whose forward supertypes
form a cycle; after such a group it does not come back.
-/
import SubmilliWasm.Canon.Subtyping

namespace SubmilliWasm

open Chains

namespace TypeRegistry

/-! ## The loop -/

/-- The loop of `is_subtype`, turn by turn: no answer yet after the turns given. -/
def isSubtypeLoop (r : TypeRegistry) (sup : CanonicalTypeId) :
    ℕ → Option CanonicalTypeId → Option Bool
  | _, none => some false
  | 0, some _ => none
  | turns + 1, some id =>
    if id = sup then some true
    else r.isSubtypeLoop sup turns ((r.type? id).bind (·.supertype))

theorem isSubtypeLoop_eq_seek (r : TypeRegistry) (sup : CanonicalTypeId) (turns : ℕ)
    (cur : Option CanonicalTypeId) :
    r.isSubtypeLoop sup turns cur = seek r.superOf sup turns cur := by
  induction turns generalizing cur with
  | zero => cases cur <;> rfl
  | succ turns ih =>
    cases cur with
    | none => rfl
    | some id => rw [isSubtypeLoop, seek, ih, superOf]

/-- `is_subtype` comes back with `v`. -/
def SubtypeAnswers (r : TypeRegistry) (sub sup : CanonicalTypeId) (v : Bool) : Prop :=
  ∃ turns, r.isSubtypeLoop sup turns (some sub) = some v

/-- `is_subtype` comes back for every pair of ids, its answer is the reflexive-transitive closure
of the declared supertypes, and these have no cycle. -/
structure SubtypeDecided (r : TypeRegistry) : Prop where
  answers : ∀ a b, ∃ v, r.SubtypeAnswers a b v ∧
    (v = true ↔ Relation.ReflTransGen (fun a b => r.superOf a = some b) a b)
  acyclic : ∀ a, ¬ Relation.TransGen (fun a b => r.superOf a = some b) a a

variable {l l' : Ledger} {ids : List CanonicalTypeId} {defs : List MemberDef} {b : RecGroupBuilder}
  {r : TypeRegistry}

/-- Only the ids of the table declare a supertype. -/
theorem superOf_mem (a : CanonicalTypeId) (h : r.superOf a ≠ none) :
    a ∈ Finset.range r.types.length := by
  obtain ⟨s, hs⟩ := Option.ne_none_iff_exists'.mp h
  obtain ⟨t, ht, -⟩ := superOf_some hs
  exact Finset.mem_range.mpr (Slots.lt_length_of_entry ht)

theorem subtypeDecided_iff : SubtypeDecided r ↔ ∀ a, Ends r.superOf a := by
  constructor
  · intro h a
    exact ends_of_acyclic superOf_mem h.acyclic a
  · intro h
    refine ⟨fun a b => ?_, fun a => (h a).acyclic⟩
    obtain ⟨turns, v, hv⟩ := seek_of_ends (h a) b
    exact ⟨v, ⟨turns, by rw [isSubtypeLoop_eq_seek, hv]⟩, (seek_some hv).1⟩

/-- **The bounded walk answers as the loop does** where the loop always comes back. -/
theorem subtypeAnswers_isSubtype (h : SubtypeDecided r) (a b : CanonicalTypeId) :
    r.SubtypeAnswers a b (r.isSubtype a b) := by
  obtain ⟨v, hv, hiff⟩ := h.answers a b
  have hsame : r.isSubtype a b = v := by
    rw [Bool.eq_iff_iff, hiff]
    exact isSubtype_iff
  rw [hsame]
  exact hv

/-- A loop that comes back from a type that does not lead to its target has left the types. -/
theorem SubtypeAnswers.ends {a b : CanonicalTypeId} {v : Bool} (h : r.SubtypeAnswers a b v)
    (hab : ¬ Leads r.superOf a b) : Ends r.superOf a := by
  obtain ⟨turns, hv⟩ := h
  rw [isSubtypeLoop_eq_seek] at hv
  obtain ⟨hiff, hends⟩ := seek_some hv
  exact hends (Bool.eq_false_iff.mpr fun ht => hab (hiff.mp ht))

/-! ## What a registration declares -/

/-- The sibling a member declares its supertype. -/
def RecGroupBuilder.forwardOf (b : RecGroupBuilder) (i : ℕ) : Option ℕ :=
  match b.members[i]? with
  | some (some d) =>
    match d.supertype with
    | some (.forward j) => some j
    | _ => none
  | _ => none

/-- The forward supertypes of the members form no cycle. -/
def RecGroupBuilder.Acyclic (b : RecGroupBuilder) : Prop :=
  ∀ i, ¬ Relation.TransGen (fun i j => b.forwardOf i = some j) i i

/-- The validator of modules lets a type declare an earlier one only. -/
def Earlier (types : List ModuleType) : Prop :=
  ∀ (i j : ℕ) (t : ModuleType), types[i]? = some t → t.supertype = some j → j < i

/-- The modules registered have been validated. -/
def TypeOp.Validated : TypeOp → Prop
  | .front (.module types) => Earlier types
  | _ => True

/-- Validated modules and groups without a cycle. -/
def TypeOp.Ordered : TypeOp → Prop
  | .front (.module types) => Earlier types
  | .recGroup b => b.Acyclic
  | _ => True

/-- A constructor is given a supertype the builder would accept, and the forward supertypes of a
group form no cycle. -/
def TypeOp.Proper (l : Ledger) (op : TypeOp) : Prop := op.Checked l ∧ op.Ordered

/-! ## The invariant -/

section

variable {r r' : TypeRegistry} (hw : WF r) (hw' : WF r') (hco : Coherent r r')

include hw hw' hco

/-- The chain above a type that stays is the one it had. -/
theorem Coherent.ends {a : CanonicalTypeId} (ha : r.type? a ≠ none) (ha' : r'.type? a ≠ none)
    (h : Ends r.superOf a) : Ends r'.superOf a := by
  refine Ends.congr (S := fun id => r.type? id ≠ none ∧ r'.type? id ≠ none) ?_ ⟨ha, ha'⟩ h
  rintro x y ⟨hx, -⟩ hxy
  obtain ⟨t', ht', hs⟩ := superOf_some hxy
  obtain ⟨t, ht⟩ := Option.ne_none_iff_exists'.mp hx
  obtain rfl := hco x t t' ht ht'
  have hxy' : r.superOf x = some y := by rw [superOf, ht, Option.bind_some, hs]
  exact ⟨hxy', hw.superOf_live hxy', hw'.superOf_live hxy⟩

/-- **The invariant is kept** by a step that adds only ids whose chains end. -/
theorem Coherent.allEnd {ids : List CanonicalTypeId} (hadds : Adds r r' ids)
    (h : ∀ a, Ends r.superOf a) (hnew : ∀ a ∈ ids, Ends r'.superOf a) (a : CanonicalTypeId) :
    Ends r'.superOf a := by
  by_cases ha' : r'.type? a = none
  · exact .of_none (by rw [superOf, ha', Option.bind_none])
  · by_cases hin : a ∈ ids
    · exact hnew a hin
    · exact hco.ends hw hw' ((hadds a ha').resolve_right hin) ha' (h a)

/-- A type that declares a type live before. -/
theorem Coherent.ends_of_live (h : ∀ a, Ends r.superOf a) {a c : CanonicalTypeId}
    (hac : r'.superOf a = some c) (hc : r.type? c ≠ none) : Ends r'.superOf a :=
  .of_parent hac (hco.ends hw hw' hc (hw'.superOf_live hac) (h c))

end

/-! ### Modules and constructors -/

/-- The types of a validated section declare earlier ones, so their chains end. -/
theorem module_ends {types : List ModuleType} (hval : Earlier types)
    (ha : ids.map r.type? = (types.map (absolute fun m => ids.getD m 0)).map some) (i : ℕ)
    (hi : i < types.length) : Ends r.superOf (ids.getD i 0) := by
  have hlen : ids.length = types.length := by simpa using congrArg List.length ha
  induction i using Nat.strong_induction_on with
  | _ i ih =>
    have hty := congrArg (fun l => l[i]?) ha
    simp only [List.getElem?_map, List.getElem?_eq_getElem hi,
      List.getElem?_eq_getElem (hlen ▸ hi : i < ids.length), Option.map_some,
      Option.some.injEq] at hty
    have hid : ids.getD i 0 = ids[i] := by
      rw [List.getD_eq_getElem?_getD, List.getElem?_eq_getElem (hlen ▸ hi), Option.getD_some]
    rw [hid]
    cases hs : r.superOf ids[i] with
    | none => exact .of_none hs
    | some c =>
      obtain ⟨j, hj, rfl⟩ := superOf_absolute hty hs
      have hji := hval i j _ (List.getElem?_eq_getElem hi) hj
      exact .of_parent hs (ih j hji (by omega))

theorem FrontOp.ends (hb : l.Balanced) (hends : ∀ a, Ends l.reg.superOf a) {op : FrontOp}
    (hop : (TypeOp.front op).Admitted l) (hord : (TypeOp.front op).Ordered)
    (h : op.step l = some (ids, l')) : l'.Balanced ∧ ∀ a, Ends l'.reg.superOf a := by
  obtain ⟨hb', ⟨hans, -⟩, -⟩ := FrontOp.step_spec hb hop.1 h
  obtain ⟨hk, hadds⟩ := FrontOp.step_grows hb hop h
  have hco := Keeps.coherent hb.wf hb'.wf hk
  refine ⟨hb', hco.allEnd hb.wf hb'.wf hadds hends ?_⟩
  -- A single type declares the supertype it was given, which is registered.
  have single : ∀ t : ModuleType, op.requested ids = [absolute (fun m => m) t] →
      (∀ j, t.supertype = some j → l.reg.type? j ≠ none) → ∀ a ∈ ids, Ends l'.reg.superOf a := by
    intro t hreq hsup a hin
    rw [hreq] at hans
    obtain ⟨x, rfl⟩ := List.length_eq_one_iff.mp (by simpa using congrArg List.length hans)
    obtain rfl := List.mem_singleton.mp hin
    have hty : l'.reg.type? a = some (absolute (fun m => m) t) := by simpa using hans
    cases hs : l'.reg.superOf a with
    | none => exact .of_none hs
    | some c =>
      obtain ⟨j, hj, rfl⟩ := superOf_absolute hty hs
      exact hco.ends_of_live hb.wf hb'.wf hends hs (hsup j hj)
  cases op with
  | module types =>
    intro a hin
    obtain ⟨i, hi⟩ := List.mem_iff_getElem?.mp hin
    have hlen : ids.length = types.length := by
      simpa [FrontOp.requested] using congrArg List.length hans
    have hilt : i < types.length := hlen ▸ (List.getElem?_eq_some_iff.mp hi).1
    have := module_ends hord hans i hilt
    rwa [List.getD_eq_getElem?_getD, hi, Option.getD_some] at this
  | func params results => exact single _ rfl fun j hj => absurd hj (Option.some_ne_none j).symm
  | struct finality supertype fields =>
    exact single _ rfl fun j hj => hop.1 j (List.mem_append_left _ (by simpa using hj))
  | array finality supertype field =>
    exact single _ rfl fun j hj => hop.1 j (List.mem_append_left _ (by simpa using hj))
  | hostGroup members externals => exact absurd hop.2 id
  | count op =>
    intro a hin
    simp only [FrontOp.step, Option.bind_eq_bind, Option.bind_eq_some_iff, Option.pure_def,
      Option.some.injEq, Prod.mk.injEq] at h
    obtain ⟨-, -, rfl, -⟩ := h
    cases hin

/-! ### The builder -/

theorem RecGroupBuilder.forwardOf_eq (hdefs : b.members = defs.map some) {i : ℕ} {d : MemberDef}
    (hd : defs[i]? = some d) {j : ℕ} :
    b.forwardOf i = some j ↔ d.supertype = some (.forward j) := by
  rw [RecGroupBuilder.forwardOf, hdefs, List.getElem?_map, hd, Option.map_some]
  cases hs : d.supertype with
  | none => simp [hs]
  | some s => cases s <;> simp [hs]

theorem RecGroupBuilder.forwardOf_some (hdefs : b.members = defs.map some) {i j : ℕ}
    (h : b.forwardOf i = some j) : ∃ d, defs[i]? = some d ∧ d.supertype = some (.forward j) := by
  cases hd : defs[i]? with
  | none =>
    rw [RecGroupBuilder.forwardOf, hdefs, List.getElem?_map, hd] at h
    cases h
  | some d => exact ⟨d, rfl, (RecGroupBuilder.forwardOf_eq hdefs hd).mp h⟩

/-- Only declared members have a forward supertype. -/
theorem RecGroupBuilder.forwardOf_mem (b : RecGroupBuilder) (i : ℕ) (h : b.forwardOf i ≠ none) :
    i ∈ Finset.range b.members.length := by
  refine Finset.mem_range.mpr (Nat.lt_of_not_le fun hle => h ?_)
  rw [RecGroupBuilder.forwardOf, List.getElem?_eq_none hle]

/-- A supertype definition handed over names a sibling or a registered type. -/
theorem owned_supertype {S : CanonicalTypeId → Prop} {n : ℕ} {d : MemberDef}
    (h : d.Owned S n) {s : SuperDef} (hs : d.supertype = some s) : s.Owned S n := by
  cases d with
  | struct f s' fields | array f s' e | func f s' ps rs => exact h.1 s hs

/-- **A group is in order iff its forward supertypes are.**  The chains above the members of a
group built end exactly when no forward supertypes form a cycle. -/
theorem built_ends_iff (hb : l.Balanced) (hb' : l'.Balanced) (hco : Coherent l.reg l'.reg)
    (hends : ∀ a, Ends l.reg.superOf a) (hop : (TypeOp.recGroup b).Admitted l)
    (hdefs : b.members = defs.map some) (hlen : ids.length = defs.length)
    (hadds : Adds l.reg l'.reg ids)
    (hreg : ∀ i d, defs[i]? = some d → MemberRegistered l'.reg ids i d) :
    (∀ a, Ends l'.reg.superOf a) ↔ b.Acyclic := by
  constructor
  · intro hends' i hcycle
    -- The ids of the members on the cycle declare each other.
    refine (hends' (ids.getD i 0)).acyclic
      (Relation.TransGen.lift (fun i => ids.getD i 0) ?_ i i hcycle)
    intro i j hij
    obtain ⟨d, hd, hs⟩ := RecGroupBuilder.forwardOf_some hdefs hij
    show l'.reg.superOf _ = _
    rw [(hreg i d hd).superOf, hs]
    rfl
  · intro hacyclic
    have hmember : ∀ i, i < defs.length → Ends l'.reg.superOf (ids.getD i 0) := by
      intro i hi
      obtain ⟨n, hn⟩ := ends_of_acyclic b.forwardOf_mem hacyclic i
      -- By induction on the number of siblings above the member.
      induction n generalizing i with
      | zero => cases hn
      | succ n ih =>
        have hd : defs[i]? = some defs[i] := List.getElem?_eq_getElem hi
        have hown := hop defs[i] (by rw [hdefs]; exact List.mem_map_of_mem (List.getElem_mem hi))
        have hsuper := (hreg i _ hd).superOf
        cases hs : defs[i].supertype with
        | none => exact .of_none (by rw [hsuper, hs, Option.map_none])
        | some s =>
          rw [hs, Option.map_some] at hsuper
          have hs' := owned_supertype hown hs
          cases s with
          | forward j =>
            rw [up_succ, (RecGroupBuilder.forwardOf_eq hdefs hd).mpr hs, Option.bind_some] at hn
            have hj : j < defs.length := by
              have : j < b.members.length := hs'
              rwa [hdefs, List.length_map] at this
            exact .of_parent hsuper (ih j hj hn)
          | struct t | array t | func t => exact hco.ends_of_live hb.wf hb'.wf hends hsuper hs'
    refine hco.allEnd hb.wf hb'.wf hadds hends fun a hin => ?_
    obtain ⟨i, hi⟩ := List.mem_iff_getElem?.mp hin
    have := hmember i (hlen ▸ (List.getElem?_eq_some_iff.mp hi).1)
    rwa [List.getD_eq_getElem?_getD, hi, Option.getD_some] at this

/-- What a build does to the chains: a group that fails leaves them as they were. -/
theorem RecGroupBuilder.ends_iff (hb : l.Balanced) (hends : ∀ a, Ends l.reg.superOf a)
    (hop : (TypeOp.recGroup b).Admitted l) {res : Except String RecGroup}
    (h : b.build l = some (res, l')) :
    l'.Balanced ∧ ((∀ a, Ends l'.reg.superOf a) ↔ (∃ e, res = .error e) ∨ b.Acyclic) := by
  obtain ⟨hb', hco, hans⟩ := RecGroupBuilder.build_registers hb hop h
  refine ⟨hb', ?_⟩
  cases hans with
  | failed e hadds =>
    refine ⟨fun _ => Or.inl ⟨e, rfl⟩, fun _ => ?_⟩
    exact hco.allEnd hb.wf hb'.wf hadds hends fun a ha => absurd ha List.not_mem_nil
  | built g defs hdefs hlen hadds hreg =>
    rw [built_ends_iff hb hb' hco hends hop hdefs hlen hadds hreg]
    exact ⟨Or.inr, fun h => h.resolve_left fun ⟨e, he⟩ => (nomatch he)⟩

/-- **One step** of a registry's history keeps the chains finite. -/
theorem TypeOp.ends (hb : l.Balanced) (hends : ∀ a, Ends l.reg.superOf a) {op : TypeOp}
    (hop : op.Admitted l) (hord : op.Ordered) (h : op.step l = some l') :
    l'.Balanced ∧ ∀ a, Ends l'.reg.superOf a := by
  cases op with
  | front op =>
    obtain ⟨⟨ids, l₁⟩, hstep, rfl⟩ := Option.map_eq_some_iff.mp h
    exact FrontOp.ends hb hends hop hord hstep
  | recGroup b =>
    obtain ⟨⟨res, l₁⟩, hstep, rfl⟩ := Option.map_eq_some_iff.mp h
    obtain ⟨hb', hiff⟩ := RecGroupBuilder.ends_iff hb hends hop hstep
    exact ⟨hb', hiff.mpr (Or.inr hord)⟩

theorem TypeReached.ends {ops : List TypeOp} (h : TypeReached (fun _ op => op.Ordered) ops l) :
    l.Balanced ∧ ∀ a, Ends l.reg.superOf a := by
  induction h with
  | start =>
    refine ⟨Ledger.balanced_start, fun a => .of_none ?_⟩
    simp [Ledger.start, superOf, type?, empty, Slots.entry]
  | step _ hop hord hstep ih => exact TypeOp.ends ih.1 ih.2 hop hord hstep

/-! ## The walk comes back -/

/-- **`is_subtype` comes back and decides the declared supertypes** in every registry reached by
validated modules, constructors, and groups whose forward supertypes form no cycle; and a group
accepted there keeps it so exactly when its forward supertypes form no cycle. -/
theorem subtype_walk_decides (ops : List TypeOp) (l : Ledger)
    (h : TypeReached (fun _ op => op.Ordered) ops l) :
    SubtypeDecided l.reg ∧
      ∀ (b : RecGroupBuilder) (res : Except String RecGroup) (l' : Ledger),
        (TypeOp.recGroup b).Admitted l → b.build l = some (res, l') →
        (SubtypeDecided l'.reg ↔ (∃ e, res = .error e) ∨ b.Acyclic) := by
  obtain ⟨hb, hends⟩ := h.ends
  refine ⟨subtypeDecided_iff.mpr hends, fun b res l' hop hbuild => ?_⟩
  rw [subtypeDecided_iff]
  exact (RecGroupBuilder.ends_iff hb hends hop hbuild).2

/-- A base type and a subtype built of it. -/
theorem subtype_walk_decides_pair : SubtypeDecided (pairLedger .nonFinal [i32Field]).reg := by
  have hop : FrontOp.Admitted (baseLedger .nonFinal) (.struct .final (some 0) [i32Field]) :=
    show ∀ id ∈ [0], (baseLedger .nonFinal).reg.type? id ≠ none by decide
  have hreached := @TypeReached.step _ _ _ (pairLedger .nonFinal [i32Field])
    (.front (.struct .final (some 0) [i32Field]))
    (baseLedger_reached (P := fun _ op => op.Ordered) .nonFinal trivial)
    ⟨hop, trivial⟩ trivial (by rfl)
  exact (subtype_walk_decides _ _ hreached).1

/-! ## A type that declares itself -/

/-- One struct type without fields that is its own forward supertype. -/
def selfGroup : RecGroupBuilder := ⟨none, [some (.struct .nonFinal (some (.forward 0)) [])]⟩

def selfLedger : Ledger where
  reg :=
    { types := [some ⟨.struct, .nonFinal, some 0, structBody []⟩]
      typeToGroup := [some 0]
      freeTypes := []
      groups := [some ⟨[⟨.nonFinal, some (.rel 0), structBody []⟩], [0], 1⟩]
      freeGroups := []
      interned := [([⟨.nonFinal, some (.rel 0), structBody []⟩], 0)] }
  held := [0]

/-- The builder accepts the group, and whether its type is a subtype of another one is never
answered. -/
theorem not_subtypeAnswers_self :
    ¬ ∀ (ops : List TypeOp) (l : Ledger), TypeReached (fun _ op => op.Validated) ops l →
      ∀ a b, ∃ v, l.reg.SubtypeAnswers a b v := by
  intro h
  have hreached : TypeReached (fun _ op => op.Validated) [.recGroup selfGroup] selfLedger := by
    refine @TypeReached.step _ _ _ _ (.recGroup selfGroup) .start ?_ trivial (by rfl)
    intro d hd
    obtain rfl := Option.some.inj (List.mem_singleton.mp hd)
    exact ⟨fun x hx => Option.some.inj hx ▸ Nat.zero_lt_one, fun f hf => absurd hf List.not_mem_nil⟩
  obtain ⟨v, hv⟩ := h _ _ hreached 0 1
  have hself : selfLedger.reg.superOf 0 = some 0 := rfl
  have hleads : ¬ Leads selfLedger.reg.superOf 0 1 := by
    intro hl
    have := isSubtype_iff.mpr hl
    exact absurd this (by decide)
  exact (hv.ends hleads).acyclic (.single hself)

end TypeRegistry

end SubmilliWasm
