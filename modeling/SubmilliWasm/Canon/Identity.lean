/-
# Canonical identity

What a canonical id stands for is read off the registered types, not off the stored key:
`shape r ms` is the recursion group with ids `ms`, each member's registration with the
references into the group turned back into positions.  In a well-formed registry the shape
of a group is its key, so two live types are equal exactly when their groups have one shape
and they sit at the same position (`WF.eq_iff_shape`).

Outer references are compared by id there.  `SameTypes` compares them in turn by structure,
group by group and as far as one likes; since a group mentions earlier groups only, this
greatest bisimulation is again equality of ids (`WF.eq_of_sameTypes`).
-/
import SubmilliWasm.Canon.History

namespace SubmilliWasm

open Slots

/-! ## A type is its skeleton and its references -/

theorem CVal.ext_refs {ρ : Type} {v w : CVal ρ}
    (hs : v.map (fun _ => ()) = w.map fun _ => ()) (hr : v.refs = w.refs) : v = w := by
  rcases v with c | ⟨n, c | ⟨k, x⟩⟩ <;> rcases w with c' | ⟨n', c' | ⟨k', x'⟩⟩ <;>
    simp_all [CVal.map, CHeap.map, CVal.refs, CHeap.refs]

theorem CField.ext_refs {ρ : Type} {f g : CField ρ}
    (hs : f.map (fun _ => ()) = g.map fun _ => ()) (hr : f.refs = g.refs) : f = g := by
  obtain ⟨m, c | v⟩ := f <;> obtain ⟨m', c' | v'⟩ := g
  · simpa [CField.map, CStore.map] using hs
  · simp [CField.map, CStore.map] at hs
  · simp [CField.map, CStore.map] at hs
  · simp only [CField.map, CStore.map, CField.mk.injEq, CStore.val.injEq] at hs
    rw [hs.1, CVal.ext_refs hs.2 hr]

theorem CVal.length_refs {ρ : Type} (v : CVal ρ) :
    (v.map fun _ => ()).refs.length = v.refs.length := by
  rcases v with c | ⟨n, c | ⟨k, x⟩⟩ <;> rfl

theorem CField.length_refs {ρ : Type} (f : CField ρ) :
    (f.map fun _ => ()).refs.length = f.refs.length := by
  obtain ⟨m, c | v⟩ := f
  · rfl
  · exact CVal.length_refs v

/-- Two lists with the same skeletons and the same references, piece by piece, are equal. -/
theorem ext_flatMap_refs {α β ρ : Type} (sk : α → β) (refs : α → List ρ)
    (hlen : ∀ a b, sk a = sk b → (refs a).length = (refs b).length)
    (hext : ∀ a b, sk a = sk b → refs a = refs b → a = b) {l l' : List α}
    (hs : l.map sk = l'.map sk) (hr : l.flatMap refs = l'.flatMap refs) : l = l' := by
  induction l generalizing l' with
  | nil => simpa using hs.symm
  | cons a l ih =>
    cases l' with
    | nil => simp at hs
    | cons b l' =>
      simp only [List.map_cons, List.cons.injEq] at hs
      simp only [List.flatMap_cons] at hr
      obtain ⟨h1, h2⟩ := List.append_inj hr (hlen a b hs.1)
      rw [hext a b hs.1 h1, ih hs.2 h2]

theorem CVal.ext_flatMap_refs {ρ : Type} {l l' : List (CVal ρ)}
    (hs : l.map (CVal.map fun _ => ()) = l'.map (CVal.map fun _ => ()))
    (hr : l.flatMap CVal.refs = l'.flatMap CVal.refs) : l = l' := by
  apply SubmilliWasm.ext_flatMap_refs (CVal.map fun _ => ()) CVal.refs _ _ hs hr
  · intro v w h
    rw [← CVal.length_refs v, h, CVal.length_refs]
  · exact fun _ _ => CVal.ext_refs

theorem CBody.ext_refs {ρ : Type} {b c : CBody ρ}
    (hs : b.map (fun _ => ()) = c.map fun _ => ()) (hr : b.refs = c.refs) : b = c := by
  cases b <;> cases c <;> simp only [CBody.map, CBody.func.injEq, CBody.struct.injEq,
    CBody.array.injEq, reduceCtorEq] at hs
  case func.func p r p' r' =>
    have hpr : p ++ r = p' ++ r' :=
      CVal.ext_flatMap_refs (by rw [List.map_append, List.map_append, hs.1, hs.2]) hr
    have hlen : p.length = p'.length := by simpa using congrArg List.length hs.1
    obtain ⟨rfl, rfl⟩ := List.append_inj hpr hlen
    rfl
  case struct.struct fs gs =>
    congr 1
    apply ext_flatMap_refs (CField.map fun _ => ()) CField.refs _ _ hs hr
    · intro f g h
      rw [← CField.length_refs f, h, CField.length_refs]
    · exact fun _ _ => CField.ext_refs
  case array.array f g => rw [CField.ext_refs hs hr]

/-- A group member is determined by its skeleton and its references in order. -/
theorem CType.ext_refs {ρ : Type} {t u : CType ρ}
    (hs : t.map (fun _ => ()) = u.map fun _ => ()) (hr : t.refs = u.refs) : t = u := by
  obtain ⟨f, s, b⟩ := t
  obtain ⟨f', s', b'⟩ := u
  simp only [CType.map, CType.mk.injEq] at hs
  obtain ⟨rfl, hsup, hbody⟩ := hs
  have hlen : s.toList.length = s'.toList.length := by
    cases s <;> cases s' <;> simp_all
  obtain ⟨h1, h2⟩ := List.append_inj hr hlen
  have hs : s = s' := by cases s <;> cases s' <;> simp_all
  rw [hs, CBody.ext_refs hbody h2]

theorem CType.refs_map {ρ σ : Type} (f : ρ → σ) (t : CType ρ) :
    (t.map f).refs = t.refs.map f := by
  rw [CType.refs, CType.map, CBody.refs_map, CType.refs, List.map_append]
  cases t.supertype <;> rfl

theorem CType.map_map {ρ σ τ : Type} (f : ρ → σ) (g : σ → τ) (t : CType ρ) :
    (t.map f).map g = t.map (g ∘ f) := by
  have hval (v : CVal ρ) : (v.map f).map g = v.map (g ∘ f) := by
    rcases v with c | ⟨n, c | ⟨k, r⟩⟩ <;> rfl
  have hfield (c : CField ρ) : (c.map f).map g = c.map (g ∘ f) := by
    obtain ⟨m, c | v⟩ := c
    · rfl
    · exact congrArg (CField.mk m ∘ CStore.val) (hval v)
  obtain ⟨fin, s, b⟩ := t
  cases b with
  | func p r => simp [CType.map, CBody.map, hval, Function.comp_def]
  | struct fs => simp [CType.map, CBody.map, hfield, Function.comp_def]
  | array c => simp [CType.map, CBody.map, hfield]

/-- A renaming that fixes every reference of a type fixes the type. -/
theorem CType.map_eq_self {ρ : Type} {f : ρ → ρ} {t : CType ρ} (h : ∀ r ∈ t.refs, f r = r) :
    t.map f = t := by
  apply CType.ext_refs
  · rw [CType.map_map]
  · rw [CType.refs_map]
    exact (List.map_congr_left h).trans (List.map_id _)

namespace TypeRegistry

/-! ## The shape of a registered group -/

/-- The ids of the recursion group `id` belongs to. -/
def recGroup (r : TypeRegistry) (id : CanonicalTypeId) : Option (List CanonicalTypeId) :=
  (r.groupOf id).bind r.membersOf

/-- A reference seen from inside the group `ms`. -/
def relative (ms : List CanonicalTypeId) : CanonRef → CanonRef
  | .rel p => .rel p
  | .canon id => if id ∈ ms then .rel (ms.idxOf id) else .canon id

/-- A registered type with the references into its group `ms` made group-relative. -/
def relativeType (ms : List CanonicalTypeId) (t : CanonType) : CType CanonRef :=
  CType.map (relative ms) ⟨t.finality, t.supertype.map CanonRef.canon, t.body⟩

/-- The structure of the group with ids `ms`, read off the registered types. -/
def shape (r : TypeRegistry) (ms : List CanonicalTypeId) : List (Option (CType CanonRef)) :=
  ms.map fun id => (r.type? id).map (relativeType ms)

/-- Making a key's references absolute and then relative again is no change, as long as the
sibling references are in range and the outer ones leave the group. -/
theorem relativeType_canonType {ms : List CanonicalTypeId} (hnd : ms.Nodup)
    {ct : CType CanonRef} (hsc : ∀ c ∈ ct.refs, c.inScope ms.length = true)
    (hout : ∀ id, CanonRef.canon id ∈ ct.refs → id ∉ ms) :
    relativeType ms (canonType ms ct) = ct := by
  have hsup : (ct.supertype.map (resolve ms)).map CanonRef.canon =
      ct.supertype.map fun c => CanonRef.canon (resolve ms c) := by
    cases ct.supertype <;> rfl
  have hmap : relativeType ms (canonType ms ct) =
      ct.map (relative ms ∘ fun c => .canon (resolve ms c)) := by
    rw [← CType.map_map, relativeType, canonType, resolveBody, hsup]
    rfl
  rw [hmap]
  apply CType.map_eq_self
  intro c hc
  cases c with
  | rel p =>
    have hp : p < ms.length := by simpa [CanonRef.inScope] using hsc _ hc
    have hget : resolve ms (.rel p) = ms[p] := by
      rw [resolve, List.getD_eq_getElem?_getD, List.getElem?_eq_getElem hp, Option.getD_some]
    show relative ms (.canon (resolve ms (.rel p))) = .rel p
    rw [hget, relative, if_pos (List.getElem_mem hp), hnd.idxOf_getElem p hp]
  | canon id => exact if_neg (hout id hc)

section

variable {r : TypeRegistry} {g : GroupId} {rec : GroupRecord}

variable {id : CanonicalTypeId}

/-- An outer reference of a live key is not one of its own members. -/
theorem WF.edge_not_mem (hw : WF r) (hg : r.group? g = some rec) (hid : id ∈ edgeCanonIds rec.key) :
    id ∉ rec.members := by
  have h := hw.edgesInto_self hg
  rw [edgesInto, List.countP_eq_zero] at h
  simpa using h id hid

/-- The registered types of a group spell out exactly the key it was interned under. -/
theorem WF.shape_eq (hw : WF r) (hg : r.group? g = some rec) :
    r.shape rec.members = rec.key.map some := by
  apply List.ext_getElem?
  intro p
  rw [shape, List.getElem?_map, List.getElem?_map]
  cases hid : rec.members[p]? with
  | none =>
    rw [List.getElem?_eq_none_iff, hw.members_length hg, ← List.getElem?_eq_none_iff] at hid
    rw [hid]
    rfl
  | some id =>
    have hlt : p < rec.key.length := by
      rw [← hw.members_length hg]
      exact (List.getElem?_eq_some_iff.mp hid).1
    rw [Option.map_some, hw.member_type hg hid, List.getElem?_eq_getElem hlt]
    have hmem : rec.key[p] ∈ rec.key := List.getElem_mem hlt
    have hsc := hw.wellScoped hg _ hmem
    rw [← hw.members_length hg] at hsc
    have := relativeType_canonType (hw.members_nodup hg) hsc
      fun id hid => hw.edge_not_mem hg (mem_edgeCanonIds.mpr ⟨_, hmem, hid⟩)
    simp [this]

/-- A live id's group record. -/
theorem WF.recGroup_some (hw : WF r) {ms : List CanonicalTypeId} (h : r.recGroup id = some ms) :
    ∃ g rec, r.groupOf id = some g ∧ r.group? g = some rec ∧ rec.members = ms ∧ id ∈ ms := by
  obtain ⟨g, hown, hms⟩ := Option.bind_eq_some_iff.mp h
  obtain ⟨rec, hg, hmem⟩ := hw.owner_member hown
  rw [membersOf, hg] at hms
  obtain rfl := Option.some.inj hms
  exact ⟨g, rec, hown, hg, rfl, hmem⟩

theorem WF.recGroup_of_mem (hw : WF r) (hg : r.group? g = some rec) (hid : id ∈ rec.members) :
    r.recGroup id = some rec.members := by
  rw [recGroup, hw.member_owner hg hid, Option.bind_some, membersOf, hg]
  rfl

/-- Two live groups with one key are one group. -/
theorem WF.key_injective (hw : WF r) {g' : GroupId} {rec' : GroupRecord}
    (hg : r.group? g = some rec) (hg' : r.group? g' = some rec') (hk : rec.key = rec'.key) :
    g = g' := by
  have h1 := (hw.interned_iff rec.key g).mpr ⟨rec, hg, rfl⟩
  rw [(hw.interned_iff rec.key g').mpr ⟨rec', hg', hk.symm⟩] at h1
  exact (Option.some.inj h1).symm

/-- Two live ids are equal iff they are at one position of groups of one key. -/
theorem WF.eq_iff_key (hw : WF r) {g' : GroupId} {rec' : GroupRecord} {a b : CanonicalTypeId}
    (hg : r.group? g = some rec) (hg' : r.group? g' = some rec') (ha : a ∈ rec.members)
    (hb : b ∈ rec'.members) :
    a = b ↔ rec.key = rec'.key ∧ rec.members.idxOf a = rec'.members.idxOf b := by
  constructor
  · rintro rfl
    obtain rfl := hw.owner_unique hg hg' ha hb
    rw [hg] at hg'
    obtain rfl := Option.some.inj hg'
    exact ⟨rfl, rfl⟩
  · rintro ⟨hk, hp⟩
    obtain rfl := hw.key_injective hg hg' hk
    rw [hg] at hg'
    obtain rfl := Option.some.inj hg'
    exact (List.idxOf_inj ha).mp hp

/-- **Identity is structure.**  Two live ids are equal iff their groups have the same shape,
outer references compared by id, and they are at the same position. -/
theorem WF.eq_iff_shape (hw : WF r) {a b : CanonicalTypeId} {ma mb : List CanonicalTypeId}
    (ha : r.recGroup a = some ma) (hb : r.recGroup b = some mb) :
    a = b ↔ r.shape ma = r.shape mb ∧ ma.idxOf a = mb.idxOf b := by
  obtain ⟨g, rec, -, hg, rfl, hma⟩ := hw.recGroup_some ha
  obtain ⟨g', rec', -, hg', rfl, hmb⟩ := hw.recGroup_some hb
  rw [hw.eq_iff_key hg hg' hma hmb, hw.shape_eq hg, hw.shape_eq hg']
  rw [List.map_inj_right fun _ _ => Option.some.inj]

end

/-! ## Unfolding the outer references -/

/-- References agree: the same sibling, or related outer types. -/
inductive RefRel (R : CanonicalTypeId → CanonicalTypeId → Prop) : CanonRef → CanonRef → Prop where
  | rel (p : ℕ) : RefRel R (.rel p) (.rel p)
  | canon {a b : CanonicalTypeId} : R a b → RefRel R (.canon a) (.canon b)

/-- Members agree: one skeleton and, in order, references that agree. -/
def TypeRel (R : CanonicalTypeId → CanonicalTypeId → Prop) (t u : CType CanonRef) : Prop :=
  (t.map fun _ => ()) = (u.map fun _ => ()) ∧ List.Forall₂ (RefRel R) t.refs u.refs

/-- `R` relates live types only if they sit at the same position of groups that agree member by
member, up to `R` on the outer references. -/
def IsTypeBisim (r : TypeRegistry) (R : CanonicalTypeId → CanonicalTypeId → Prop) : Prop :=
  ∀ a b, R a b → ∃ ma mb, r.recGroup a = some ma ∧ r.recGroup b = some mb ∧
    ma.idxOf a = mb.idxOf b ∧ List.Forall₂ (Option.Rel (TypeRel R)) (r.shape ma) (r.shape mb)

/-- Equality of the full unfoldings, group by group. -/
def SameTypes (r : TypeRegistry) (a b : CanonicalTypeId) : Prop :=
  ∃ R, r.IsTypeBisim R ∧ R a b

theorem RefRel.eq_of_imp {R : CanonicalTypeId → CanonicalTypeId → Prop} {l l' : List CanonRef}
    (h : List.Forall₂ (RefRel R) l l')
    (himp : ∀ a b, CanonRef.canon a ∈ l → R a b → a = b) : l = l' := by
  induction h with
  | nil => rfl
  | cons hr _ ih =>
    have htail := ih fun a b ha => himp a b (List.mem_cons_of_mem _ ha)
    rw [htail]
    cases hr with
    | rel p => rfl
    | canon hab => rw [himp _ _ List.mem_cons_self hab]

theorem forall₂_rel_map_some {α : Type} {R : α → α → Prop} {l l' : List α}
    (h : List.Forall₂ (Option.Rel R) (l.map some) (l'.map some)) : List.Forall₂ R l l' := by
  rw [List.forall₂_map_left_iff, List.forall₂_map_right_iff] at h
  exact h.imp fun _ _ hab => by cases hab; assumption

theorem keys_eq_of_typeRel {R : CanonicalTypeId → CanonicalTypeId → Prop} {k k' : CGroup}
    (h : List.Forall₂ (TypeRel R) k k')
    (himp : ∀ a b, a ∈ edgeCanonIds k → R a b → a = b) : k = k' := by
  have hmem : ∀ a, a ∈ edgeCanonIds k ↔ ∃ t ∈ k, CanonRef.canon a ∈ t.refs :=
    fun a => mem_edgeCanonIds
  simp only [hmem] at himp
  clear hmem
  induction h with
  | nil => rfl
  | cons ht _ ih =>
    have hhead := CType.ext_refs ht.1
      (RefRel.eq_of_imp ht.2 fun a b ha => himp a b ⟨_, List.mem_cons_self, ha⟩)
    rw [hhead, ih fun a b ⟨u, hu, ha⟩ => himp a b ⟨u, List.mem_cons_of_mem _ hu, ha⟩]

variable {r : TypeRegistry}

/-- Related types are equal: by induction on the rank of the group, its outer references are
equal ids, so the keys are equal. -/
theorem WF.eq_of_bisim (hw : WF r) {R : CanonicalTypeId → CanonicalTypeId → Prop}
    (hR : r.IsTypeBisim R) {a b : CanonicalTypeId} (hab : R a b) : a = b := by
  obtain ⟨rank, hrank⟩ := hw.ranked
  have main : ∀ n a b g, r.groupOf a = some g → rank g < n → R a b → a = b := by
    intro n
    induction n with
    | zero => omega
    | succ n ih =>
      intro a b g hown hlt hab
      obtain ⟨ma, mb, ha, hb, hpos, hshape⟩ := hR a b hab
      obtain ⟨ga, rec, hown', hg, rfl, hma⟩ := hw.recGroup_some ha
      obtain ⟨gb, rec', -, hg', rfl, hmb⟩ := hw.recGroup_some hb
      rw [hown] at hown'
      obtain rfl := Option.some.inj hown'
      rw [hw.shape_eq hg, hw.shape_eq hg'] at hshape
      refine (hw.eq_iff_key hg hg' hma hmb).mpr ⟨?_, hpos⟩
      apply keys_eq_of_typeRel (forall₂_rel_map_some hshape)
      intro x y hx hxy
      obtain ⟨h, hh⟩ := hw.edge_live hg hx
      have := hrank hg hx hh
      exact ih x y h hh (by omega) hxy
  obtain ⟨ma, -, ha, -⟩ := hR a b hab
  obtain ⟨g, -, hown, -⟩ := hw.recGroup_some ha
  exact main (rank g + 1) a b g hown (Nat.lt_succ_self _) hab

theorem RefRel.refl_of {R : CanonicalTypeId → CanonicalTypeId → Prop} {l : List CanonRef}
    (h : ∀ id, CanonRef.canon id ∈ l → R id id) : List.Forall₂ (RefRel R) l l := by
  apply List.forall₂_same.mpr
  intro c hc
  cases c with
  | rel p => exact RefRel.rel p
  | canon id => exact RefRel.canon (h id hc)

/-- Equality on the live ids is itself a bisimulation. -/
theorem WF.isTypeBisim_eq (hw : WF r) : r.IsTypeBisim fun a b => a = b ∧ r.recGroup a ≠ none := by
  rintro a b ⟨rfl, hlive⟩
  obtain ⟨ma, ha⟩ := Option.ne_none_iff_exists'.mp hlive
  obtain ⟨g, rec, -, hg, rfl, -⟩ := hw.recGroup_some ha
  refine ⟨_, _, ha, ha, rfl, ?_⟩
  rw [hw.shape_eq hg, List.forall₂_map_left_iff, List.forall₂_map_right_iff, List.forall₂_same]
  intro t ht
  refine Option.Rel.some ⟨rfl, RefRel.refl_of fun id hid => ⟨rfl, ?_⟩⟩
  obtain ⟨h, hh⟩ := hw.edge_live hg (mem_edgeCanonIds.mpr ⟨t, ht, hid⟩)
  obtain ⟨rec', hg', hmem⟩ := hw.owner_member hh
  rw [hw.recGroup_of_mem hg' hmem]
  simp

/-- Two live ids are equal iff their full unfoldings are. -/
theorem WF.eq_iff_sameTypes (hw : WF r) {a b : CanonicalTypeId} (ha : r.recGroup a ≠ none) :
    a = b ↔ r.SameTypes a b := by
  constructor
  · intro hab
    exact ⟨_, hw.isTypeBisim_eq, hab, ha⟩
  · rintro ⟨R, hR, hab⟩
    exact hw.eq_of_bisim hR hab

end TypeRegistry

end SubmilliWasm
