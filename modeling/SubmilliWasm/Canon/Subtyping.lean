/-
# Declared subtyping and layout

The interpreter decodes an object with the layout of the type an instruction names, once a
cast has found the object's own type to be a declared subtype of it.  Here declared
subtyping is followed through every history of the registry in which embedders build types
with the constructors of `src/value/gc_type.rs` and with the recursion group builder, and
modules register their validated type sections: as long as the constructors are given
supertypes the builder would accept, a subtype is laid out like its supertype as far as the
supertype goes.
-/
import SubmilliWasm.Canon.RecGroup

namespace SubmilliWasm

open Slots

namespace TypeRegistry

/-! ## What an interning adds -/

variable {a b id : CanonicalTypeId} {x : Composite} {g : GroupId} {l l' : Ledger}
  {ids : List CanonicalTypeId} {types : List ModuleType} {t : ModuleType} {r r' : TypeRegistry}

/-- Handing a freshly interned group back leaves no type that was not live before. -/
theorem dropped_adds (hb : l.Balanced) {key : CGroup} {r₁ : TypeRegistry}
    (hlive : ∀ id ∈ edgeCanonIds key, l.reg.type? id ≠ none)
    (h : l.reg.internGroup key key.length = some (g, r₁))
    (hdrop : RegOp.step ⟨r₁, g :: l.held⟩ (.release [g]) = some l') :
    l'.Balanced ∧ Keeps r₁ l'.reg ∧ Adds l.reg l'.reg [] := by
  obtain ⟨hw₁, hc₁, hk₁, -⟩ := internGroup_spec hb.wf hb.counted hlive h
  have hb₁ : (⟨r₁, g :: l.held⟩ : Ledger).Balanced :=
    ⟨hw₁, by simpa only [count_cons_eq] using hc₁⟩
  have hpaid : Counted r₁ fun h => l.held.count h + [g].count h := by
    have : (fun h => l.held.count h + [g].count h) =
        fun h => l.held.count h + if h = g then 1 else 0 := by
      funext h
      rw [← count_cons_eq, List.count_cons, List.count_cons, List.count_nil, Nat.zero_add]
    rw [this]
    exact hc₁
  obtain ⟨r', hr', hw', hc', hk'⟩ := @release_spec _ _ (fun h => l.held.count h) hw₁ hpaid
  have hl' : l' = ⟨r', l.held⟩ := by
    simp only [RegOp.step, hr', Option.bind_eq_bind, Option.bind_some, Option.pure_def,
      Option.some.injEq] at hdrop
    rw [← hdrop]
    simp
  subst hl'
  have hb' : (⟨r', l.held⟩ : Ledger).Balanced := ⟨hw', hc'⟩
  refine ⟨hb', hk', ?_⟩
  cases hk : l.reg.interned.lookup key with
  | some g₀ =>
    obtain ⟨rec, hg, hkey, heq⟩ := @internGroup_known _ hb.wf _ key.length _ hk
    rw [heq, Option.map_eq_some_iff] at h
    obtain ⟨r₂, hinc, heq'⟩ := h
    obtain ⟨rfl, rfl⟩ := Prod.mk.inj heq'
    intro id hid
    rcases Keeps.adds hw₁ hw' hk' [] id hid with hid | hid
    · exact Adds.of_types (increfGroup_types hinc) [] id hid
    · exact Or.inr hid
  | none =>
    obtain ⟨-, members, hf⟩ := internGroup_fresh hb.wf hk hlive h
    -- A group of the registry left was there before, unless it is the new one, to which
    -- nothing refers any more.
    have hgone : r'.group? g = none := by
      refine (removed_iff hb₁ hb' (Or.inr hk') hf.group_new).mpr ?_
      rw [Ledger.registrations, hb.counted.dead hf.vacant, Nat.zero_add]
      apply total_eq_zero
      intro h₂ rec₂ hh₂
      have hne : h₂ ≠ g := by
        rintro rfl
        by_cases hlt : h₂ < r'.groups.length
        · rw [entry_set hlt, if_pos rfl] at hh₂
          cases hh₂
        · rw [List.set_eq_of_length_le (Nat.le_of_not_lt hlt)] at hh₂
          exact absurd (lt_length_of_entry hh₂) hlt
      have hh₂ : r'.group? h₂ = some rec₂ := by
        by_cases hlt : g < r'.groups.length
        · rwa [entry_set hlt, if_neg hne] at hh₂
        · rwa [List.set_eq_of_length_le (Nat.le_of_not_lt hlt)] at hh₂
      obtain ⟨rec₁, hg₁, hkey, -⟩ := hk' h₂ rec₂ hh₂
      rcases hf.cases hg₁ with ⟨rfl, -⟩ | ⟨-, rec₀, hg₀, rfl⟩
      · exact absurd rfl hne
      · rw [edgesInto, List.countP_eq_zero]
        intro id hid hm
        rw [← hkey] at hid
        obtain ⟨h₃, ho⟩ := hb.wf.edge_live hg₀ hid
        exact hf.not_mem_of_owned hb.wf ho (by simpa using hm)
    intro id hid
    obtain ⟨h₂, ho⟩ := Option.ne_none_iff_exists'.mp (mt (hw'.owned_iff id).mp hid)
    obtain ⟨rec₂, hg₂, hmem⟩ := hw'.owner_member ho
    obtain ⟨rec₁, hg₁, -, hmem₁⟩ := hk' h₂ rec₂ hg₂
    rcases hf.cases hg₁ with ⟨rfl, -⟩ | ⟨-, rec₀, hg₀, rfl⟩
    · rw [hgone] at hg₂
      cases hg₂
    · left
      have ho := hb.wf.member_owner hg₀ (show id ∈ rec₀.members from hmem₁ ▸ hmem)
      exact mt (hb.wf.owned_iff id).mpr (by simp [ho])

/-! ## Host types read back -/

theorem matVal_pubVal (v : ValType) : matVal (pubVal v) = v := by
  cases v with
  | ref n h => cases h <;> rfl
  | _ => rfl

theorem matField_pubField (f : FieldType) : matField (pubField f) = f := by
  obtain ⟨m, s⟩ := f
  cases s with
  | valType v =>
    rw [pubField, matField]
    simp only [matVal_pubVal]
    cases m <;> rfl
  | _ => cases m <;> rfl

theorem matBody_structBody (fields : List FieldType) :
    matBody (structBody fields) = .struct fields := by
  rw [structBody, matBody, List.map_map]
  congr 1
  exact (List.map_congr_left fun f _ => matField_pubField f).trans (List.map_id _)

theorem matBody_arrayBody (field : FieldType) : matBody (arrayBody field) = .array field := by
  rw [arrayBody, matBody, matField_pubField]

theorem toIr_refs (f : FieldType) : f.toIr.refs = f.ids := by
  obtain ⟨m, s⟩ := f
  cases s with
  | valType v =>
    cases v with
    | ref n h => cases h <;> rfl
    | _ => rfl
  | _ => rfl

/-! ## The invariant -/

/-- Every declared supertype of a live type may be declared. -/
def Declares (r : TypeRegistry) : Prop := ∀ a b, r.superOf a = some b → MayDeclare r a b

/-- No id is live in both registries with different registrations. -/
def Coherent (r r' : TypeRegistry) : Prop :=
  ∀ id t t', r.type? id = some t → r'.type? id = some t' → t = t'

theorem Keeps.coherent (hw : WF r) (hw' : WF r') (hk : Keeps r' r ∨ Keeps r r') :
    Coherent r r' := by
  intro id t t' ht ht'
  rcases hk with hk | hk
  · rw [Keeps.type? hw hw' hk ht] at ht'
    exact Option.some.inj ht'
  · rw [Keeps.type? hw' hw hk ht'] at ht
    exact (Option.some.inj ht).symm

theorem composite_some (h : r.composite id = some x) :
    ∃ t, r.type? id = some t ∧ matBody t.body = x :=
  Option.map_eq_some_iff.mp h

/-- The ids a live type's body mentions are live. -/
theorem WF.composite_ids (hw : WF r) (h : r.composite id = some x) :
    ∀ a ∈ x.ids, r.type? a ≠ none := by
  obtain ⟨t, ht, rfl⟩ := composite_some h
  intro a ha
  obtain ⟨id', t', hid, ht'⟩ :=
    hw.mentions_live ht _ (List.mem_append_right _ (matBody_ids ha))
  rw [CanonRef.canon.inj hid, ht']
  simp

theorem WF.superOf_live (hw : WF r) (h : r.superOf a = some b) : r.type? b ≠ none := by
  obtain ⟨t, ht, hs⟩ := superOf_some h
  obtain ⟨id', t', hid, ht'⟩ := hw.mentions_live ht (.canon b)
    (List.mem_append_left _ (by simp [hs]))
  rw [CanonRef.canon.inj hid, ht']
  simp

section

variable {r r' : TypeRegistry} (hw : WF r) (hw' : WF r') (hco : Coherent r r')

include hw hw' hco

/-- What is declared of a type that stays is still declared of it. -/
theorem Coherent.declared {a b : CanonicalTypeId} (ha : r.type? a ≠ none)
    (ha' : r'.type? a ≠ none) (h : r.Declared a b) : r'.Declared a b := by
  refine isSubtype_iff.mpr (Chains.Leads.congr (S := fun id => r.type? id ≠ none ∧
    r'.type? id ≠ none) ?_ ⟨ha, ha'⟩ (isSubtype_iff.mp h)).1
  rintro x y ⟨hx, hx'⟩ hxy
  obtain ⟨t, ht, hs⟩ := superOf_some hxy
  obtain ⟨t', ht'⟩ := Option.ne_none_iff_exists'.mp hx'
  obtain rfl := hco x t t' ht ht'
  have hxy' : r'.superOf x = some y := by rw [superOf, ht', Option.bind_some, hs]
  exact ⟨hxy', hw.superOf_live hxy, hw'.superOf_live hxy'⟩

theorem Coherent.bodyLe {x y : Composite} (hx : ∀ a ∈ x.ids, r.type? a ≠ none)
    (hx' : ∀ a ∈ x.ids, r'.type? a ≠ none) (hy : ∀ a ∈ y.ids, r.type? a ≠ none)
    (hy' : ∀ a ∈ y.ids, r'.type? a ≠ none) (h : BodyLe r.Declared x y) :
    BodyLe r'.Declared x y :=
  h.mono (S := fun id => r.type? id ≠ none ∧ r'.type? id ≠ none)
    (fun _ _ hS => hco.declared hw hw' hS.1 hS.2) (fun a ha => ⟨hx a ha, hx' a ha⟩)
    fun a ha => ⟨hy a ha, hy' a ha⟩

omit hw hw' in
theorem Coherent.composite {id : CanonicalTypeId} {x : Composite} (h : r.composite id = some x)
    (hid : r'.type? id ≠ none) : r'.composite id = some x := by
  obtain ⟨t, ht, rfl⟩ := composite_some h
  obtain ⟨t', ht'⟩ := Option.ne_none_iff_exists'.mp hid
  rw [TypeRegistry.composite, ht', ← hco id t t' ht ht']
  rfl

omit hw hw' in
theorem Coherent.finality {id : CanonicalTypeId} {f : Finality} (h : r.finality id = some f)
    (hid : r'.type? id ≠ none) : r'.finality id = some f := by
  obtain ⟨t, ht, rfl⟩ := Option.map_eq_some_iff.mp h
  obtain ⟨t', ht'⟩ := Option.ne_none_iff_exists'.mp hid
  rw [TypeRegistry.finality, ht', ← hco id t t' ht ht']
  rfl

/-- A declaration that was in order stays in order as long as the types stay. -/
theorem Coherent.mayDeclare {a b : CanonicalTypeId} (ha : r'.type? a ≠ none)
    (hb : r'.type? b ≠ none) (h : MayDeclare r a b) : MayDeclare r' a b := by
  obtain ⟨x, y, hx, hy, hle⟩ := h.matching
  have hx' := hco.composite hx ha
  have hy' := hco.composite hy hb
  exact ⟨hco.finality h.nonFinal hb, x, y, hx', hy',
    hco.bodyLe hw hw' (hw.composite_ids hx) (hw'.composite_ids hx') (hw.composite_ids hy)
      (hw'.composite_ids hy') hle⟩

/-- **The invariant is kept** by a step that adds only declarations in order. -/
theorem Coherent.declares {ids : List CanonicalTypeId} (hadds : Adds r r' ids) (h : Declares r)
    (hnew : ∀ a ∈ ids, ∀ b, r'.superOf a = some b → MayDeclare r' a b) : Declares r' := by
  intro a b hab
  obtain ⟨t', ht', hs⟩ := superOf_some hab
  have ha : r'.type? a ≠ none := by simp [ht']
  by_cases hin : a ∈ ids
  · exact hnew a hin b hab
  · obtain ⟨t, ht⟩ := Option.ne_none_iff_exists'.mp ((hadds a ha).resolve_right hin)
    have hab' : r.superOf a = some b := by
      rw [superOf, ht, Option.bind_some, hco a t t' ht ht', hs]
    exact hco.mayDeclare hw hw' ha (hw'.superOf_live hab) (h a b hab')

end

/-! ## Histories of registered types -/

/-- What registers types or changes their counts: one of the front ends, or a builder. -/
inductive TypeOp where
  | front (op : FrontOp)
  | recGroup (b : RecGroupBuilder)

def TypeOp.step (l : Ledger) : TypeOp → Option Ledger
  | .front op => (op.step l).map (·.2)
  | .recGroup b => (b.build l).map (·.2)

/-- The declared supertypes of a type section, two indices being one type when they are answered
one id (`canonical_identity`). -/
def moduleSuper (types : List ModuleType) (ids : List CanonicalTypeId)
    (a b : CanonicalTypeId) : Prop :=
  ∃ (m j : ℕ) (t : ModuleType), ids[m]? = some a ∧ types[m]? = some t ∧ t.supertype = some j ∧
    ids.getD j 0 = b

/-- The body of a type of a type section, its indices read as the ids answered. -/
def bodyOf (ids : List CanonicalTypeId) (t : ModuleType) : Composite :=
  matBody (bodyKey (fun m => .canon (ids.getD m 0)) t.body)

/-- What the validator of modules has checked of a type section: a declared supertype is not
final, and the body matches its body under the declarations of the section. -/
def ValidSupertypes (types : List ModuleType) (ids : List CanonicalTypeId) : Prop :=
  ∀ (i j : ℕ) (t : ModuleType), types[i]? = some t → t.supertype = some j →
    ∃ u, types[j]? = some u ∧ u.finality = .nonFinal ∧
      BodyLe (Relation.ReflTransGen (moduleSuper types ids)) (bodyOf ids t) (bodyOf ids u)

/-- What the registry's callers guarantee: handles name live types, a module has been validated,
and a group is registered by a builder, with the definitions of its own siblings. -/
def TypeOp.Admitted (l : Ledger) : TypeOp → Prop
  | .front op => op.Admitted l ∧
    match op with
    | .module types => ∀ ids l', op.step l = some (ids, l') → ValidSupertypes types ids
    | .hostGroup _ _ => False
    | .count (.intern _) => False
    | _ => True
  | .recGroup b => ∀ d, some d ∈ b.members →
    d.Owned (fun id => l.reg.type? id ≠ none) b.members.length

/-- A constructor called with a supertype is called with one the builder would accept. -/
def TypeOp.Checked (l : Ledger) : TypeOp → Prop
  | .front (.struct _ (some sup) fields) => l.reg.finality sup = some .nonFinal ∧
    ∃ supFields, l.reg.structFields sup = some supFields ∧
      l.reg.structMatches fields supFields = true
  | .front (.array _ (some sup) field) => l.reg.finality sup = some .nonFinal ∧
    ∃ supField, l.reg.arrayField sup = some supField ∧ l.reg.fieldMatches field supField = true
  | _ => True

/-- The ledgers reached by admitted operations that satisfy `P`. -/
inductive TypeReached (P : Ledger → TypeOp → Prop) : List TypeOp → Ledger → Prop where
  | start : TypeReached P [] Ledger.start
  | step {ops : List TypeOp} {l l' : Ledger} {op : TypeOp} : TypeReached P ops l →
      op.Admitted l → P l op → op.step l = some l' → TypeReached P (ops ++ [op]) l'

/-! ### The front ends -/

/-- A front end's step keeps the live types, or loses some, and adds the ids it answers. -/
theorem FrontOp.step_grows (hb : l.Balanced) {op : FrontOp} (hop : (TypeOp.front op).Admitted l)
    (h : op.step l = some (ids, l')) :
    (Keeps l'.reg l.reg ∨ Keeps l.reg l'.reg) ∧ Adds l.reg l'.reg ids := by
  obtain ⟨hop, hpub⟩ := hop
  obtain ⟨-, -, hk, hadds⟩ := FrontOp.step_spec hb hop h
  refine ⟨hk, hadds fun key hkey => ?_⟩
  subst hkey
  exact hpub

theorem superOf_absolute {ref : ℕ → CanonicalTypeId} (ht : r.type? id = some (absolute ref t))
    (h : r.superOf id = some b) : ∃ j, t.supertype = some j ∧ ref j = b := by
  obtain ⟨u, hu, hs⟩ := superOf_some h
  rw [ht] at hu
  obtain rfl := Option.some.inj hu
  exact Option.map_eq_some_iff.mp hs

/-- A type built by a constructor declares the supertype the constructor was given, which was
checked against the fields it was given. -/
theorem single_declares (hb : l.Balanced) (hb' : l'.Balanced) (hco : Coherent l.reg l'.reg)
    (ht : l'.reg.type? id = some (absolute (fun m => m) t))
    (hx : matBody (bodyKey .canon t.body) = x) (hids : ∀ a ∈ x.ids, l.reg.type? a ≠ none)
    (hsup : ∀ sup, t.supertype = some sup → l.reg.finality sup = some .nonFinal ∧
      ∃ y, l.reg.composite sup = some y ∧ BodyLe l.reg.Declared x y) (b : CanonicalTypeId)
    (hsuper : l'.reg.superOf id = some b) : MayDeclare l'.reg id b := by
  obtain ⟨j, hj, rfl⟩ := superOf_absolute ht hsuper
  obtain ⟨hfin, y, hy, hle⟩ := hsup j hj
  have hx' : l'.reg.composite id = some x := by
    rw [composite, ht, ← hx]
    rfl
  have hlive := hb'.wf.superOf_live hsuper
  have hy' := hco.composite hy hlive
  exact ⟨hco.finality hfin hlive, x, y, hx', hy',
    hco.bodyLe hb.wf hb'.wf hids (hb'.wf.composite_ids hx') (hb.wf.composite_ids hy)
      (hb'.wf.composite_ids hy') hle⟩

/-- What a validated type section declares is declared in the registry. -/
theorem moduleSuper_declared (ha : ids.map r.type? =
      (types.map (absolute fun m => ids.getD m 0)).map some)
    (h : Relation.ReflTransGen (moduleSuper types ids) a b) : r.Declared a b := by
  apply isSubtype_iff.mpr
  induction h with
  | refl => exact .refl
  | tail _ hs ih =>
    obtain ⟨m, j, t, hm, ht, hj, rfl⟩ := hs
    refine .tail ih ?_
    have hty := congrArg (fun l => l[m]?) ha
    simp only [List.getElem?_map, hm, ht, Option.map_some, Option.some.injEq] at hty
    show (r.type? _).bind _ = _
    rw [hty, Option.bind_some, absolute, hj, Option.map_some]

theorem module_declares (hval : ValidSupertypes types ids)
    (ha : ids.map r.type? = (types.map (absolute fun m => ids.getD m 0)).map some) :
    ∀ a ∈ ids, ∀ b, r.superOf a = some b → MayDeclare r a b := by
  have hlen : ids.length = types.length := by simpa using congrArg List.length ha
  have htype : ∀ (m : ℕ) (t : ModuleType), types[m]? = some t →
      r.type? (ids.getD m 0) = some (absolute (fun m => ids.getD m 0) t) := by
    intro m t ht
    have hm : m < ids.length := hlen ▸ (List.getElem?_eq_some_iff.mp ht).1
    have hty := congrArg (fun l => l[m]?) ha
    simp only [List.getElem?_map, ht, List.getElem?_eq_getElem hm, Option.map_some,
      Option.some.injEq] at hty
    rw [List.getD_eq_getElem?_getD, List.getElem?_eq_getElem hm, Option.getD_some]
    exact hty
  intro a hin b hab
  obtain ⟨i, hi⟩ := List.mem_iff_getElem?.mp hin
  have hilt : i < types.length := hlen ▸ (List.getElem?_eq_some_iff.mp hi).1
  have ht : types[i]? = some types[i] := List.getElem?_eq_getElem hilt
  have hai : ids.getD i 0 = a := by rw [List.getD_eq_getElem?_getD, hi, Option.getD_some]
  have hta := htype i _ ht
  rw [hai] at hta
  obtain ⟨j, hj, rfl⟩ := superOf_absolute hta hab
  obtain ⟨u, hu, hfin, hle⟩ := hval i j _ ht hj
  have htb := htype j u hu
  refine ⟨by rw [TypeRegistry.finality, htb]; exact congrArg some hfin, _, _,
    by rw [composite, hta]; rfl, by rw [composite, htb]; rfl, ?_⟩
  exact hle.mono (S := fun _ => True) (fun _ _ _ h => moduleSuper_declared ha h)
    (fun _ _ => trivial) fun _ _ => trivial

theorem FrontOp.declares (hb : l.Balanced) (hd : Declares l.reg) {op : FrontOp}
    (hop : (TypeOp.front op).Admitted l) (hc : (TypeOp.front op).Checked l)
    (h : op.step l = some (ids, l')) : l'.Balanced ∧ Coherent l.reg l'.reg ∧ Declares l'.reg := by
  obtain ⟨hb', ⟨hans, -⟩, -⟩ := FrontOp.step_spec hb hop.1 h
  obtain ⟨hk, hadds⟩ := FrontOp.step_grows hb hop h
  have hco := Keeps.coherent hb.wf hb'.wf hk
  refine ⟨hb', hco, hco.declares hb.wf hb'.wf hadds hd ?_⟩
  -- A single type: the id answered and its registration.
  have registered : ∀ {t}, op.requested ids = [absolute (fun m => m) t] →
      ∀ a ∈ ids, l'.reg.type? a = some (absolute (fun m => m) t) := by
    intro t hreq a hin
    rw [hreq] at hans
    obtain ⟨x, rfl⟩ := List.length_eq_one_iff.mp (by simpa using congrArg List.length hans)
    obtain rfl := List.mem_singleton.mp hin
    simpa using hans
  cases op with
  | module types => exact module_declares (hop.2 ids l' h) hans
  | func params results =>
    intro a hin b hab
    obtain ⟨j, hj, -⟩ := superOf_absolute (registered rfl a hin) hab
    cases hj
  | struct finality supertype fields =>
    intro a hin
    have hx : matBody (bodyKey .canon (single finality supertype
        (.struct (fields.map FieldType.toIr))).body) = .struct fields := by
      rw [← matBody_structBody, structBody_eq]
      rfl
    refine single_declares hb hb' hco (registered rfl a hin) hx (fun c hcm => ?_) ?_
    · obtain ⟨f, hf, hcf⟩ := List.mem_flatMap.mp hcm
      refine hop.1 c (List.mem_append_right _ ?_)
      show c ∈ (fields.map FieldType.toIr).flatMap IrField.refs
      rw [List.flatMap_map, List.mem_flatMap]
      exact ⟨f, hf, by rwa [toIr_refs]⟩
    · rintro sup rfl
      obtain ⟨hfin, supFields, hsf, hm⟩ := hc
      exact ⟨hfin, _, structFields_iff.mp hsf, structMatches_iff.mp hm⟩
  | array finality supertype field =>
    intro a hin
    have hx : matBody (bodyKey .canon (single finality supertype
        (.array field.toIr)).body) = .array field := by
      rw [← matBody_arrayBody, arrayBody_eq]
      rfl
    refine single_declares hb hb' hco (registered rfl a hin) hx (fun c hcm => ?_) ?_
    · refine hop.1 c (List.mem_append_right _ ?_)
      show c ∈ field.toIr.refs
      rw [toIr_refs]
      exact hcm
    · rintro sup rfl
      obtain ⟨hfin, supField, hsf, hm⟩ := hc
      exact ⟨hfin, _, arrayField_iff.mp hsf, .array (fieldMatches_iff.mp hm)⟩
  | hostGroup members externals => exact absurd hop.2 id
  | count op =>
    intro a hin
    simp only [FrontOp.step, Option.bind_eq_bind, Option.bind_eq_some_iff, Option.pure_def,
      Option.some.injEq, Prod.mk.injEq] at h
    obtain ⟨-, -, rfl, -⟩ := h
    cases hin

/-! ### The builder -/

theorem definedFrom_ok {i : ℕ} {ms : List (Option MemberDef)} {ds : List MemberDef}
    (h : definedFrom i ms = .ok ds) : ms = ds.map some := by
  induction ms generalizing i ds with
  | nil =>
    rw [← Except.ok.inj h]
    rfl
  | cons m ms ih =>
    cases m with
    | none => cases h
    | some d =>
      obtain ⟨ds', hds, h⟩ := Fallible.bind_ok h
      rw [← Except.ok.inj h, ih hds]
      rfl

theorem RecGroupBuilder.defs_ok {b : RecGroupBuilder} {ds : List MemberDef}
    (h : b.defs = .ok ds) : b.members = ds.map some := by
  unfold RecGroupBuilder.defs at h
  cases he : b.error with
  | some e =>
    rw [he] at h
    cases h
  | none =>
    rw [he] at h
    exact definedFrom_ok h

theorem lowerEach_length {α β : Type} (f : α → List CanonicalTypeId → β × List CanonicalTypeId)
    (l : List α) (ext : List CanonicalTypeId) : (lowerEach f l ext).1.length = l.length := by
  induction l generalizing ext with
  | nil => rfl
  | cons a l ih =>
    show (lowerEach f l _).1.length + 1 = _
    rw [ih, List.length_cons]

theorem lower_declares {n : ℕ} (d : MemberDef) (ext : List CanonicalTypeId) :
    (lower n d ext).1.1.supertype.isSome = d.supertype.isSome := by
  cases d with
  | struct f s fields | array f s e | func f s ps rs => cases s <;> rfl

/-- The type a supertype definition names, the ids of the group's members being known. -/
def superNamed (ids : List CanonicalTypeId) : SuperDef → CanonicalTypeId
  | .forward j => ids.getD j 0
  | .struct t | .array t | .func t => t

theorem superId_eq_superNamed {group : RecGroup} {kind : AggKind} {s : SuperDef}
    {sup : CanonicalTypeId}
    (h : group.superId kind s = .ok sup) : sup = superNamed group.ids s := by
  cases s with
  | forward j =>
    obtain ⟨-, -, h⟩ := Fallible.bind_ok h
    exact (Except.ok.inj h).symm
  | struct t | array t | func t => exact (Except.ok.inj h).symm

/-- The `i`-th id answered is registered with the supertype that the member's definition names,
which it may declare. -/
structure MemberRegistered (r : TypeRegistry) (ids : List CanonicalTypeId) (i : ℕ)
    (d : MemberDef) : Prop where
  superOf : r.superOf (ids.getD i 0) = d.supertype.map (superNamed ids)
  mayDeclare : ∀ s, d.supertype = some s → MayDeclare r (ids.getD i 0) (superNamed ids s)

/-- What a builder answers and what its group adds to the registry: nothing when it fails, its
members otherwise. -/
inductive BuildAnswer (r r' : TypeRegistry) (b : RecGroupBuilder) : Except String RecGroup → Prop
  | failed (e : String) : Adds r r' [] → BuildAnswer r r' b (.error e)
  | built (g : RecGroup) (defs : List MemberDef) : b.members = defs.map some →
      g.ids.length = defs.length → Adds r r' g.ids →
      (∀ i d, defs[i]? = some d → MemberRegistered r' g.ids i d) → BuildAnswer r r' b (.ok g)

theorem RecGroupBuilder.build_registers (hb : l.Balanced) {b : RecGroupBuilder}
    (hop : (TypeOp.recGroup b).Admitted l) {res : Except String RecGroup}
    (h : b.build l = some (res, l')) :
    l'.Balanced ∧ Coherent l.reg l'.reg ∧ BuildAnswer l.reg l'.reg b res := by
  unfold RecGroupBuilder.build at h
  cases hdefs : b.defs with
  | error e =>
    simp only [hdefs, Option.some.injEq, Prod.mk.injEq] at h
    obtain ⟨rfl, rfl⟩ := h
    exact ⟨hb, Keeps.coherent hb.wf hb.wf (Or.inl (Keeps.refl _)), .failed e (Adds.of_types rfl [])⟩
  | ok defs =>
    have hmembers := RecGroupBuilder.defs_ok hdefs
    have hn : b.members.length = defs.length := by rw [hmembers, List.length_map]
    have howned : ∀ d ∈ defs, d.Owned (fun id => l.reg.type? id ≠ none) defs.length := by
      intro d hdm
      rw [← hn]
      exact hop d (by rw [hmembers]; exact List.mem_map_of_mem hdm)
    obtain ⟨hext, hrange⟩ := lowerEach_lower howned
    have hextends : ∀ d ∈ defs, ∀ ext, ext <+: (lower defs.length d ext).2 :=
      fun d hdm ext => (lower_lowers (howned d hdm)).extends ext
    simp only [hdefs, Option.bind_eq_bind, Option.bind_eq_some_iff, Prod.exists] at h
    obtain ⟨ids, g, r₁, hgroup, h⟩ := h
    set lowered := lowerEach (lower defs.length) defs [] with hlowered
    have hlen : (lowered.1.map (·.1)).length = defs.length := by
      rw [List.length_map, hlowered, lowerEach_length]
    have hrange' : ∀ t ∈ lowered.1.map (·.1), ∀ m ∈ t.refs,
        m < (lowered.1.map (·.1)).length + lowered.2.length := by
      intro t ht m hm
      obtain ⟨p, hp, rfl⟩ := List.mem_map.mp ht
      rw [hlen]
      exact hrange p hp m hm
    obtain ⟨hw₁, hc₁, hk₁, hty, -, hadds₁⟩ :=
      internHostGroup_spec hb.wf hb.counted hext hrange' hgroup
    obtain ⟨hintern, -, hlive⟩ := internHostGroup_key hext hrange' hgroup
    cases hvalid : r₁.validateFrom ⟨g, ids, lowered.1.map (·.2)⟩ 0 defs with
    | error e =>
      simp only [hvalid, Option.bind_eq_some_iff, Option.pure_def, Option.some.injEq,
        Prod.mk.injEq] at h
      obtain ⟨l₂, hdrop, rfl, rfl⟩ := h
      obtain ⟨hb', hk', hadds⟩ := dropped_adds hb hlive hintern hdrop
      -- What is left was registered as it was before the group was interned.
      have hco : Coherent l.reg l₂.reg := by
        intro id t t' ht ht'
        have h1 := Keeps.type? hb.wf hw₁ hk₁ ht
        rw [Keeps.type? hb'.wf hw₁ hk' ht'] at h1
        exact (Option.some.inj h1).symm
      exact ⟨hb', hco, .failed e hadds⟩
    | ok u =>
      simp only [hvalid, Option.pure_def, Option.some.injEq, Prod.mk.injEq] at h
      obtain ⟨rfl, rfl⟩ := h
      have hidlen : ids.length = defs.length := by
        rw [← hlen]
        simpa using congrArg List.length hty
      refine ⟨⟨hw₁, by simpa only [count_cons_eq] using hc₁⟩,
        Keeps.coherent hb.wf hw₁ (Or.inl hk₁),
        .built _ defs hmembers hidlen hadds₁ ?_⟩
      intro i d hdi
      obtain ⟨hilt, rfl⟩ := List.getElem?_eq_some_iff.mp hdi
      obtain ⟨ext', hlow, htable⟩ := lowerEach_getElem? hextends [] hdi
      have hi : ids[i]? = some (ids.getD i 0) := by
        rw [List.getD_eq_getElem?_getD, List.getElem?_eq_getElem (hidlen ▸ hilt),
          Option.getD_some]
      -- The member's registration declares what its definition declares.
      have hta := congrArg (fun l => l[i]?) hty
      simp only [List.getElem?_map, hi, Option.map_some, hlowered, hlow, Option.some.injEq] at hta
      have hval := validateFrom_ok hvalid hdi
      rw [Nat.zero_add] at hval
      have hsome := lower_declares (n := defs.length) defs[i] ext'
      have hsuper : r₁.superOf (ids.getD i 0) =
          (lower defs.length defs[i] ext').1.1.supertype.map (hostId ids lowered.2) := by
        rw [TypeRegistry.superOf, hta, Option.bind_some]
        rfl
      cases hs : defs[i].supertype with
      | none =>
        rw [hs, Option.isSome_none, Option.isSome_eq_false_iff, Option.isNone_iff_eq_none] at hsome
        refine ⟨?_, fun s hs' => ?_⟩
        · rw [hsuper, hsome, hs]
          rfl
        · rw [hs] at hs'
          cases hs'
      | some s =>
        rw [hs, Option.isSome_some] at hsome
        obtain ⟨m, hm⟩ := Option.isSome_iff_exists.mp hsome
        obtain ⟨s', hs', hreads⟩ := lower_supertype (howned _ (List.getElem_mem hilt)) htable hm
        rw [hs] at hs' hval
        obtain rfl := Option.some.inj hs'
        obtain ⟨kind, sup, hsup, hmay⟩ := validateSupertype_ok hval
        have hfwd : ∀ j, s = .forward j → j < defs.length := by
          rintro j rfl
          have := howned _ (List.getElem_mem hilt)
          cases hdef : defs[i] with
          | struct f s' fields | array f s' e | func f s' ps rs =>
            rw [hdef] at this hs
            exact this.1 _ hs
        have heq := superId_eq hsup hidlen hreads hfwd
        obtain rfl := superId_eq_superNamed hsup
        refine ⟨?_, fun s' hs' => ?_⟩
        · rw [hsuper, hm, hs, Option.map_some, Option.map_some, ← heq]
        · rw [hs] at hs'
          obtain rfl := Option.some.inj hs'
          exact hmay

theorem RecGroupBuilder.declares (hb : l.Balanced) (hd : Declares l.reg) {b : RecGroupBuilder}
    (hop : (TypeOp.recGroup b).Admitted l) {res : Except String RecGroup}
    (h : b.build l = some (res, l')) : l'.Balanced ∧ Coherent l.reg l'.reg ∧ Declares l'.reg := by
  obtain ⟨hb', hco, hans⟩ := RecGroupBuilder.build_registers hb hop h
  refine ⟨hb', hco, ?_⟩
  cases hans with
  | failed e hadds =>
    exact hco.declares hb.wf hb'.wf hadds hd fun a ha => absurd ha List.not_mem_nil
  | built g defs hmembers hlen hadds hreg =>
    refine hco.declares hb.wf hb'.wf hadds hd fun a hin c hac => ?_
    obtain ⟨i, hi⟩ := List.mem_iff_getElem?.mp hin
    have hilt : i < defs.length := hlen ▸ (List.getElem?_eq_some_iff.mp hi).1
    obtain ⟨hsuper, hmay⟩ := hreg i _ (List.getElem?_eq_getElem hilt)
    rw [show g.ids.getD i 0 = a by rw [List.getD_eq_getElem?_getD, hi, Option.getD_some]]
      at hsuper hmay
    rw [hac, eq_comm, Option.map_eq_some_iff] at hsuper
    obtain ⟨s, hs, rfl⟩ := hsuper
    exact hmay s hs

/-- **One step** of a registry's history keeps every declaration in order. -/
theorem TypeOp.declares (hb : l.Balanced) (hd : Declares l.reg) {op : TypeOp} (hop : op.Admitted l)
    (hc : op.Checked l) (h : op.step l = some l') :
    l'.Balanced ∧ Coherent l.reg l'.reg ∧ Declares l'.reg := by
  cases op with
  | front op =>
    obtain ⟨⟨ids, l₁⟩, hstep, rfl⟩ := Option.map_eq_some_iff.mp h
    exact FrontOp.declares hb hd hop hc hstep
  | recGroup b =>
    obtain ⟨⟨res, l₁⟩, hstep, rfl⟩ := Option.map_eq_some_iff.mp h
    exact RecGroupBuilder.declares hb hd hop hstep

theorem TypeReached.declares {ops : List TypeOp}
    (h : TypeReached (fun l op => op.Checked l) ops l) : l.Balanced ∧ Declares l.reg := by
  induction h with
  | start =>
    refine ⟨Ledger.balanced_start, fun a b hab => ?_⟩
    obtain ⟨t, ht, -⟩ := superOf_some hab
    exact absurd ht (by simp [Ledger.start, type?, empty, entry])
  | step _ hop hc hstep ih =>
    obtain ⟨hb, -, hd⟩ := TypeOp.declares ih.1 ih.2 hop hc hstep
    exact ⟨hb, hd⟩

/-! ## What a declared subtype promises -/

/-- A body of `a`'s type is read and written through `slot` without leaving it. -/
structure AccessSound (slot : Slot) (data : List UInt8) : Prop where
  read : ∃ v, readSlot slot data = some v ∧ slotAccepts slot v = true
  write : ∀ v, slotAccepts slot v = true →
    ∃ data', writeSlot slot data v = some data' ∧ data'.length = data.length

theorem AccessSound.of_within {slot : Slot} {data : List UInt8}
    (h : slot.offset + slot.width ≤ data.length) : AccessSound slot data :=
  ⟨readSlot_within h, fun _ hv => writeSlot_within h hv⟩

/-- Mutability agrees, a mutable field is invariant and an immutable one covariant. -/
structure FieldSound (r : TypeRegistry) (f g : FieldType) : Prop where
  mutability : f.mutability = g.mutability
  invariant : g.mutability = .var → f.elementType = g.elementType
  covariant : r.storageMatches f.elementType g.elementType = true

/-- The slots of `gs` are the first of `fs`, and accessing a body laid out for `fs` through them
is safe. -/
structure StructSound (r : TypeRegistry) (fs gs : List FieldType) : Prop where
  slots : (Layout.forStruct gs).fields <+: (Layout.forStruct fs).fields
  fields : ∃ extra, ∃ fs', fs = fs' ++ extra ∧ List.Forall₂ (FieldSound r) fs' gs
  access : ∀ (data : List UInt8) (i : ℕ) (slot : Slot),
    data.length = (Layout.forStruct fs).size → (Layout.forStruct gs).fields[i]? = some slot →
    (Layout.forStruct fs).fields[i]? = some slot ∧ AccessSound slot data

structure ArraySound (r : TypeRegistry) (f g : FieldType) : Prop where
  layout : Layout.forArray f = Layout.forArray g
  field : FieldSound r f g
  access : ∀ (data : List UInt8) (len i : ℕ), data.length = (Layout.forArray f).bodySize len →
    i < len → AccessSound ((Layout.forArray g).elemAt i) data

/-- What `is_subtype a b` promises of the types `a` and `b`. -/
structure SubtypeSound (r : TypeRegistry) (a b : CanonicalTypeId) : Prop where
  kind : ∃ k, r.kind a = some k ∧ r.kind b = some k
  nonFinal : a = b ∨ r.finality b = some .nonFinal
  struct : ∀ fs, r.structFields a = some fs →
    ∃ gs, r.structFields b = some gs ∧ StructSound r fs gs
  array : ∀ f, r.arrayField a = some f → ∃ g, r.arrayField b = some g ∧ ArraySound r f g
  func : ∀ ps rs, r.funcSig a = some (ps, rs) → ∃ ps' rs', r.funcSig b = some (ps', rs') ∧
    List.Forall₂ (fun p' p => r.valMatches p' p = true) ps' ps ∧
    List.Forall₂ (fun v v' => r.valMatches v v' = true) rs rs'

theorem fieldSound {f g : FieldType} (h : FieldLe r.Declared f g) : FieldSound r f g := by
  cases h with
  | var s => exact ⟨rfl, fun _ => rfl, storageMatches_iff.mpr (.same s)⟩
  | const h => exact ⟨rfl, nofun, storageMatches_iff.mpr h⟩

theorem structSound {fs gs extra : List FieldType} (h : List.Forall₂ (FieldLe r.Declared) fs gs) :
    StructSound r (fs ++ extra) gs := by
  have hslots := forStruct_prefix extra h
  refine ⟨hslots, ⟨extra, fs, rfl, h.imp fun _ _ => fieldSound⟩, ?_⟩
  intro data i slot hlen hslot
  have hslot' : (Layout.forStruct (fs ++ extra)).fields[i]? = some slot := by
    obtain ⟨rest, hrest⟩ := hslots
    rw [← hrest, List.getElem?_append_left (List.getElem?_eq_some_iff.mp hslot).1, hslot]
  refine ⟨hslot', AccessSound.of_within ?_⟩
  rw [hlen]
  exact forStruct_within (List.mem_of_getElem? hslot')

theorem arraySound {f g : FieldType} (h : FieldLe r.Declared f g) : ArraySound r f g := by
  refine ⟨forArray_eq h, fieldSound h, fun data len i hlen hi => AccessSound.of_within ?_⟩
  rw [hlen, forArray_eq h]
  exact forArray_within g hi

theorem WF.kind_eq (hw : WF r) (h : r.composite id = some x) : r.kind id = some x.kind := by
  obtain ⟨t, ht, rfl⟩ := composite_some h
  obtain ⟨ms, hms⟩ := hw.recGroup_isSome (by simp [ht] : r.type? id ≠ none)
  obtain ⟨g, rec, -, hg, rfl, hmem⟩ := hw.recGroup_some hms
  obtain ⟨p, hp⟩ := List.mem_iff_getElem?.mp hmem
  have hty := hw.member_type hg hp
  rw [ht, eq_comm, Option.map_eq_some_iff] at hty
  obtain ⟨ct, -, rfl⟩ := hty
  rw [TypeRegistry.kind, ht, Option.map_some, matBody_kind]
  congr 1
  cases hbody : ct.body <;> simp [canonType, resolveBody, CBody.map, bodyKind, hbody]

/-- Along a chain of declarations in order, the body matches and the end is not final. -/
theorem Declares.chain (hd : Declares r) (hx : r.composite a = some x) (h : r.Declared a b) :
    (a = b ∨ r.finality b = some .nonFinal) ∧
      ∃ y, r.composite b = some y ∧ BodyLe r.Declared x y := by
  replace h := isSubtype_iff.mp h
  induction h with
  | refl => exact ⟨Or.inl rfl, x, hx, BodyLe.refl x⟩
  | tail _ hs ih =>
    obtain ⟨-, y, hy, hxy⟩ := ih
    obtain ⟨hfin, y', z, hy', hz, hyz⟩ := hd _ _ hs
    rw [hy] at hy'
    obtain rfl := Option.some.inj hy'
    exact ⟨Or.inr hfin, z, hz, hxy.trans Declared.trans hyz⟩

theorem Declares.sound (hw : WF r) (hd : Declares r) (ha : r.type? a ≠ none) (h : r.Declared a b) :
    SubtypeSound r a b := by
  obtain ⟨t, ht⟩ := Option.ne_none_iff_exists'.mp ha
  have hx : r.composite a = some (matBody t.body) := by rw [composite, ht, Option.map_some]
  generalize matBody t.body = x at hx
  obtain ⟨hfin, y, hy, hle⟩ := hd.chain hx h
  refine ⟨⟨x.kind, hw.kind_eq hx, by rw [hle.kind]; exact hw.kind_eq hy⟩, hfin, ?_, ?_, ?_⟩
  · intro fs hfs
    rw [structFields_iff, hx] at hfs
    obtain rfl := Option.some.inj hfs
    cases hle with
    | struct extra hf => exact ⟨_, structFields_iff.mpr hy, structSound hf⟩
  · intro f hf
    rw [arrayField_iff, hx] at hf
    obtain rfl := Option.some.inj hf
    cases hle with
    | array hf => exact ⟨_, arrayField_iff.mpr hy, arraySound hf⟩
  · intro ps rs hsig
    rw [funcSig_iff, hx] at hsig
    obtain rfl := Option.some.inj hsig
    cases hle with
    | func hp hr =>
      exact ⟨_, _, funcSig_iff.mpr hy, hp.imp fun _ _ => valMatches_iff.mpr,
        hr.imp fun _ _ => valMatches_iff.mpr⟩

/-! ### The layouts of a module's instructions -/

/-- The layout of a registered type. -/
def layoutOf (r : TypeRegistry) (id : CanonicalTypeId) : Option Layout :=
  match r.composite id with
  | some (.struct fields) => some (.struct (Layout.forStruct fields))
  | some (.array field) => some (.array (Layout.forArray field))
  | _ => none

theorem fieldSlot_eq (ref : ℕ → CanonicalTypeId) (f : IrField) :
    pubFieldSlot (matField (fieldKey (fun m => .canon (ref m)) f)) = fieldSlot f := by
  obtain ⟨m, s⟩ := f
  funext offset
  cases s with
  | val v =>
    cases v with
    | ref n h =>
      cases h with
      | concrete i k => cases k <;> rfl
      | _ => rfl
    | _ => rfl
  | _ => rfl

/-- The layout computed from the module IR is that of the type registered for it. -/
theorem fromBody_eq {ref : ℕ → CanonicalTypeId} (h : r.type? id = some (absolute ref t)) :
    Layout.fromBody t.body = r.layoutOf id := by
  unfold layoutOf composite
  rw [h, Option.map_some]
  cases hb : t.body with
  | func ps rs => simp [absolute, hb, bodyKey, matBody, Layout.fromBody]
  | struct fs =>
    simp only [absolute, hb, bodyKey, matBody, Layout.fromBody, Layout.forStruct, List.map_map]
    congr 4
    funext f
    exact (fieldSlot_eq ref f).symm
  | array f =>
    simp only [absolute, hb, bodyKey, matBody, Layout.fromBody, Layout.forArray, fieldSlot_eq]

/-- **Declared subtyping is sound for layout.**  In every history in which the constructors are
given supertypes the builder would accept: a live type's declared supertypes are of its kind and
not final, its slots begin with theirs, fields, elements, parameters and results vary as they
may, and accesses through a supertype's slots stay inside a subtype's body and decode to the
kind of value stored there.  The slots a module's instructions use are those of the types
registered for it. -/
theorem declared_subtyping_sound (ops : List TypeOp) (l : Ledger)
    (h : TypeReached (fun l op => op.Checked l) ops l) :
    (∀ a b, l.reg.type? a ≠ none → l.reg.isSubtype a b = true → SubtypeSound l.reg a b) ∧
    ∀ types ids l', (TypeOp.front (.module types)).Admitted l →
      FrontOp.step l (.module types) = some (ids, l') → ∀ (i : ℕ) (t : ModuleType)
        (id : CanonicalTypeId), types[i]? = some t → ids[i]? = some id →
        Layout.fromBody t.body = l'.reg.layoutOf id := by
  obtain ⟨hb, hd⟩ := h.declares
  refine ⟨fun a b ha hab => hd.sound hb.wf ha hab, ?_⟩
  intro types ids l' hop hstep i t id ht hid
  obtain ⟨-, ⟨hans, -⟩, -⟩ := FrontOp.step_spec hb hop.1 hstep
  have hty := congrArg (fun l => l[i]?) hans
  simp only [FrontOp.requested, List.getElem?_map, ht, hid, Option.map_some,
    Option.some.injEq] at hty
  exact fromBody_eq hty

/-! ### Two struct types, the second declared a subtype of the first -/

def i32Field : FieldType := ⟨.const, .valType .i32⟩

def i64Field : FieldType := ⟨.const, .valType .i64⟩

/-- The registry after the first type alone. -/
def baseLedger (finality : Finality) : Ledger where
  reg :=
    { types := [some ⟨.struct, finality, none, structBody [i32Field]⟩]
      typeToGroup := [some 0]
      freeTypes := []
      groups := [some ⟨[⟨finality, none, structBody [i32Field]⟩], [0], 1⟩]
      freeGroups := []
      interned := [([⟨finality, none, structBody [i32Field]⟩], 0)] }
  held := [0]

def pairLedger (finality : Finality) (sub : List FieldType) : Ledger where
  reg :=
    { types := [some ⟨.struct, finality, none, structBody [i32Field]⟩,
        some ⟨.struct, .final, some 0, structBody sub⟩]
      typeToGroup := [some 0, some 1]
      freeTypes := []
      groups := [some ⟨[⟨finality, none, structBody [i32Field]⟩], [0], 2⟩,
        some ⟨[⟨.final, some (.canon 0), structBody sub⟩], [1], 1⟩]
      freeGroups := []
      interned := [([⟨.final, some (.canon 0), structBody sub⟩], 1),
        ([⟨finality, none, structBody [i32Field]⟩], 0)] }
  held := [1, 0]

theorem baseLedger_reached {P : Ledger → TypeOp → Prop} (finality : Finality)
    (hP : P Ledger.start (.front (.struct finality none [i32Field]))) :
    TypeReached P [.front (.struct finality none [i32Field])] (baseLedger finality) := by
  refine @TypeReached.step _ _ _ _ (.front (.struct finality none [i32Field])) .start
    ⟨?_, trivial⟩ hP ?_
  · intro id hid
    cases hid
  · cases finality <;> rfl

theorem declared_subtyping_sound_pair :
    SubtypeSound (pairLedger .nonFinal [i32Field, i64Field]).reg 1 0 := by
  have hop : FrontOp.Admitted (baseLedger .nonFinal)
      (.struct .final (some 0) [i32Field, i64Field]) :=
    show ∀ id ∈ [0], (baseLedger .nonFinal).reg.type? id ≠ none by decide
  have hreached := @TypeReached.step _ _ _ (pairLedger .nonFinal [i32Field, i64Field])
    (.front (.struct .final (some 0) [i32Field, i64Field]))
    (baseLedger_reached (P := fun l op => op.Checked l) .nonFinal trivial)
    ⟨hop, trivial⟩ ⟨by decide, [i32Field], by rfl, by decide⟩ (by rfl)
  exact (declared_subtyping_sound _ _ hreached).1 1 0 (by decide) (by decide)

/-- The constructor accepts a supertype that is final and whose field is of another type. -/
theorem not_subtypeSound_pair :
    ¬ ∀ (ops : List TypeOp) (l : Ledger), TypeReached (fun _ _ => True) ops l →
      ∀ a b, l.reg.type? a ≠ none → l.reg.isSubtype a b = true → SubtypeSound l.reg a b := by
  intro h
  have hop : FrontOp.Admitted (baseLedger .final) (.struct .final (some 0) [i64Field]) :=
    show ∀ id ∈ [0], (baseLedger .final).reg.type? id ≠ none by decide
  have hreached := @TypeReached.step _ _ _ (pairLedger .final [i64Field])
    (.front (.struct .final (some 0) [i64Field]))
    (baseLedger_reached (P := fun _ _ => True) .final trivial) ⟨hop, trivial⟩ trivial (by rfl)
  have hsound := h _ _ hreached 1 0 (by decide) (by decide)
  rcases hsound.nonFinal with hab | hfin
  · cases hab
  · exact absurd hfin (by decide)

end TypeRegistry

end SubmilliWasm
