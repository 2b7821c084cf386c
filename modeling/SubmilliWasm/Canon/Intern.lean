/-
# Interning a recursion group

A key that is already registered costs one more registration.  A new key takes a group
slot and one type slot per member, writes the members with their references made
absolute, pins the groups it refers to, and is recorded last.  `Fresh r key g members r'`
is what the new registry looks like from the outside once all of that has happened;
`WF` and `Counted` are carried over from this description alone.
-/
import SubmilliWasm.Canon.RefCount

namespace SubmilliWasm

open Slots

namespace TypeRegistry

/-! ## Taking slots -/

/-- `r'` differs from `r` in vacant slots only. -/
structure SameLive (r r' : TypeRegistry) : Prop where
  types : ∀ id, r'.type? id = r.type? id
  owners : ∀ id, r'.groupOf id = r.groupOf id
  groups : ∀ g, r'.group? g = r.group? g
  interned : r'.interned = r.interned

theorem SameLive.trans {r₁ r₂ r₃ : TypeRegistry} (h : SameLive r₁ r₂) (h' : SameLive r₂ r₃) :
    SameLive r₁ r₃ where
  types id := (h'.types id).trans (h.types id)
  owners id := (h'.owners id).trans (h.owners id)
  groups g := (h'.groups g).trans (h.groups g)
  interned := h'.interned.trans h.interned

variable {key : CGroup} {r r' : TypeRegistry}

theorem takeGroupSlot_spec (hs : FreeList r.groups r.freeGroups) :
    FreeList r.takeGroupSlot.2.groups (r.takeGroupSlot.1 :: r.takeGroupSlot.2.freeGroups) ∧
    r.takeGroupSlot.2.types = r.types ∧ r.takeGroupSlot.2.freeTypes = r.freeTypes ∧
    r.takeGroupSlot.2.typeToGroup = r.typeToGroup ∧ SameLive r r.takeGroupSlot.2 ∧
    ∀ ms, total (edgesInto ms) r.takeGroupSlot.2.groups = total (edgesInto ms) r.groups := by
  unfold takeGroupSlot
  cases hf : r.freeGroups with
  | nil =>
    have hgrow := (hf ▸ hs).grow
    exact ⟨hgrow, rfl, rfl, rfl,
      ⟨fun _ => rfl, fun _ => rfl, fun g => entry_append_none _ g, rfl⟩,
      fun ms => total_append_none _ _⟩
  | cons g rest =>
    rw [hf] at hs
    exact ⟨hs, rfl, rfl, rfl, ⟨fun _ => rfl, fun _ => rfl, fun _ => rfl, rfl⟩, fun _ => rfl⟩

/-- One type slot joins the ones already taken. -/
theorem takeTypeSlot_spec {taken : List CanonicalTypeId}
    (hs : FreeList r.types (taken ++ r.freeTypes)) (hlen : r.typeToGroup.length = r.types.length) :
    FreeList r.takeTypeSlot.2.types
      ((taken ++ [r.takeTypeSlot.1]) ++ r.takeTypeSlot.2.freeTypes) ∧
    r.takeTypeSlot.2.typeToGroup.length = r.takeTypeSlot.2.types.length ∧
    r.takeTypeSlot.2.groups = r.groups ∧ r.takeTypeSlot.2.freeGroups = r.freeGroups ∧
    SameLive r r.takeTypeSlot.2 := by
  unfold takeTypeSlot
  cases hf : r.freeTypes with
  | nil =>
    rw [hf, List.append_nil] at hs
    refine ⟨by simpa [hf] using hs.grow, by simpa using hlen, rfl, rfl, ?_⟩
    exact ⟨fun id => entry_append_none _ id, fun id => entry_append_none _ id, fun _ => rfl, rfl⟩
  | cons id rest =>
    refine ⟨by simpa [hf] using hs, hlen, rfl, rfl, ?_⟩
    exact ⟨fun _ => rfl, fun _ => rfl, fun _ => rfl, rfl⟩

theorem takeTypeSlots_spec {n : ℕ} {taken : List CanonicalTypeId}
    (hs : FreeList r.types (taken ++ r.freeTypes)) (hlen : r.typeToGroup.length = r.types.length) :
    FreeList (r.takeTypeSlots n).2.types
      ((taken ++ (r.takeTypeSlots n).1) ++ (r.takeTypeSlots n).2.freeTypes) ∧
    (r.takeTypeSlots n).2.typeToGroup.length = (r.takeTypeSlots n).2.types.length ∧
    (r.takeTypeSlots n).1.length = n ∧
    (r.takeTypeSlots n).2.groups = r.groups ∧
    (r.takeTypeSlots n).2.freeGroups = r.freeGroups ∧
    SameLive r (r.takeTypeSlots n).2 := by
  induction n generalizing r taken with
  | zero =>
    exact ⟨by simpa [takeTypeSlots] using hs, hlen, rfl, rfl, rfl,
      ⟨fun _ => rfl, fun _ => rfl, fun _ => rfl, rfl⟩⟩
  | succ n ih =>
    obtain ⟨h1, h2, h3, h4, h5⟩ := takeTypeSlot_spec hs hlen
    obtain ⟨i1, i2, i3, i4, i5, i6⟩ := ih h1 h2
    rw [takeTypeSlots]
    refine ⟨by simpa using i1, i2, by simpa using i3, i4.trans h3, i5.trans h4, h5.trans i6⟩

/-! ## Writing the members -/

theorem writeTypes_spec {g : GroupId} {members : List CanonicalTypeId} {cts : CGroup}
    {ids free : List CanonicalTypeId} {r : TypeRegistry}
    (hs : FreeList r.types (ids ++ free)) (hlen : r.typeToGroup.length = r.types.length)
    (hids : ids.length = cts.length) :
    ∃ r', r.writeTypes g members ids cts = some r' ∧
      FreeList r'.types free ∧ r'.typeToGroup.length = r'.types.length ∧
      (∀ id, id ∉ ids → r'.type? id = r.type? id) ∧
      (∀ (id p : ℕ), ids[p]? = some id → r'.type? id = (cts[p]?).map (canonType members)) ∧
      (∀ id, r'.groupOf id = if id ∈ ids then some g else r.groupOf id) ∧
      r'.groups = r.groups ∧ r'.freeGroups = r.freeGroups ∧ r'.freeTypes = r.freeTypes ∧
      r'.interned = r.interned := by
  induction cts generalizing ids r with
  | nil =>
    obtain rfl : ids = [] := List.eq_nil_of_length_eq_zero (by simpa using hids)
    exact ⟨r, by simp [writeTypes], by simpa using hs, hlen, by simp, by simp, by simp,
      rfl, rfl, rfl, rfl⟩
  | cons ct cts ih =>
    cases ids with
    | nil => simp at hids
    | cons i ids =>
      rw [List.cons_append] at hs
      have hi : i < r.types.length := hs.lt_length List.mem_cons_self
      have hi' : i < r.typeToGroup.length := hlen ▸ hi
      have hnot : i ∉ ids := by
        have := (List.nodup_cons.mp hs.nodup).1
        exact fun h => this (List.mem_append_left _ h)
      obtain ⟨r', hr', h1, h2, h3, h4, h5, h6, h7, h8, h9⟩ := @ih ids { r with
        types := r.types.set i (some (canonType members ct))
        typeToGroup := r.typeToGroup.set i (some g) } (hs.fill _) (by simpa using hlen)
        (by simpa using hids)
      refine ⟨r', by rw [writeTypes]; exact hr', h1, h2, ?_, ?_, ?_, h6, h7, h8, h9⟩
      · intro id hid
        rw [h3 id fun h => hid (List.mem_cons_of_mem _ h), type?, entry_set hi,
          if_neg (by rintro rfl; exact hid List.mem_cons_self)]
        rfl
      · intro id p hp
        cases p with
        | zero =>
          obtain rfl : i = id := by simpa using hp
          rw [h3 i hnot, type?, entry_set hi, if_pos rfl]
          rfl
        | succ p => simpa using h4 id p (by simpa using hp)
      · intro id
        rw [h5 id, groupOf, entry_set hi']
        by_cases hid : id = i
        · subst hid
          simp
        · simp [hid, groupOf]

/-! ## Pinning the edges -/

/-- The record of a group after `n` more registrations. -/
def addRefs (n : ℕ) (rec : GroupRecord) : GroupRecord := { rec with refcount := rec.refcount + n }

theorem pinEdges_spec {ids : List CanonicalTypeId} {free : List GroupId}
    (hs : FreeList r.groups free) (h : r.pinEdges ids = some r') :
    r'.types = r.types ∧ r'.typeToGroup = r.typeToGroup ∧ r'.freeTypes = r.freeTypes ∧
    r'.freeGroups = r.freeGroups ∧ r'.interned = r.interned ∧ FreeList r'.groups free ∧
    r'.groups.length = r.groups.length ∧
    (∀ g, r'.group? g = (r.group? g).map (addRefs ((ids.filterMap r.groupOf).count g))) ∧
    (∀ ms, total (edgesInto ms) r'.groups = total (edgesInto ms) r.groups) ∧
    (∀ g rec', r'.group? g = some rec' → (ids.filterMap r.groupOf).count g = 0 ∨
      rec'.refcount < refcountBound) := by
  induction ids generalizing r with
  | nil =>
    obtain rfl : r = r' := by simpa [pinEdges] using h
    refine ⟨rfl, rfl, rfl, rfl, rfl, hs, rfl, fun g => ?_, fun _ => rfl, fun _ _ _ => Or.inl rfl⟩
    cases r.group? g <;> rfl
  | cons id ids ih =>
    rw [pinEdges] at h
    by_cases hid : id < r.typeToGroup.length
    · rw [if_pos hid] at h
      cases ho : r.groupOf id with
      | none =>
        rw [ho] at h
        simpa [ho] using ih hs h
      | some og =>
        rw [ho] at h
        cases hi : r.increfGroup og with
        | none => simp [hi] at h
        | some r₁ =>
          obtain ⟨rec, hg, hb, rfl⟩ := increfGroup_some hi
          simp only [hi, Option.bind_eq_bind, Option.bind_some] at h
          obtain ⟨h1, h2, h3, h4, h5, h6, h7, h8, h9, h10⟩ :=
            ih (r := r.setCount og rec (rec.refcount + 1)) (hs.update hg _) h
          have hown : (r.setCount og rec (rec.refcount + 1)).groupOf = r.groupOf := rfl
          rw [hown] at h8 h10
          refine ⟨h1, h2, h3, h4, h5, h6, by simpa [TypeRegistry.setCount] using h7, ?_, ?_, ?_⟩
          · intro g
            rw [h8, group?_setCount hg, List.filterMap_cons_some ho]
            by_cases hgo : g = og
            · subst hgo
              simp only [if_pos, List.count_cons_self, hg, Option.map_some, addRefs]
              congr 2
              omega
            · simp [hgo, Ne.symm hgo]
          · intro ms
            rw [h9, total_setCount hg]
          · intro g rec' hrec'
            by_cases hgo : g = og
            · subst hgo
              rcases h10 g rec' hrec' with h0 | hlt
              · rw [h8, group?_setCount hg, if_pos rfl, h0] at hrec'
                obtain rfl := Option.some.inj hrec'
                exact Or.inr hb
              · exact Or.inr hlt
            · rw [List.filterMap_cons_some ho, List.count_cons_of_ne (Ne.symm hgo)]
              exact h10 g rec' hrec'
    · rw [if_neg hid] at h
      cases h

/-- Pinning succeeds as long as every id is live and the counts have room. -/
theorem pinEdges_isSome {ids : List CanonicalTypeId}
    (hlive : ∀ id ∈ ids, ∃ g rec, r.groupOf id = some g ∧ r.group? g = some rec)
    (hroom : ∀ g rec, r.group? g = some rec →
      rec.refcount + (ids.filterMap r.groupOf).count g < refcountBound) :
    ∃ r', r.pinEdges ids = some r' := by
  induction ids generalizing r with
  | nil => exact ⟨r, rfl⟩
  | cons id ids ih =>
    obtain ⟨og, rec, ho, hg⟩ := hlive id List.mem_cons_self
    have hroom' := hroom og rec hg
    rw [List.filterMap_cons_some ho, List.count_cons_self] at hroom'
    have hinc := increfGroup_eq hg (by omega)
    have hown : (r.setCount og rec (rec.refcount + 1)).groupOf = r.groupOf := rfl
    obtain ⟨r', hr'⟩ := ih (r := r.setCount og rec (rec.refcount + 1))
      (by
        intro id' hid'
        obtain ⟨g', rec', ho', hg'⟩ := hlive id' (List.mem_cons_of_mem _ hid')
        obtain ⟨rec'', h'', -⟩ := Keeps.of_setCount hg (rec.refcount + 1) g' rec' hg'
        exact ⟨g', rec'', ho', h''⟩)
      (by
        intro g' rec' hg'
        obtain ⟨rec₀, h0, -, -, hcnt⟩ := group?_setCount_some hg hg'
        have := hroom g' rec₀ h0
        rw [List.filterMap_cons_some ho] at this
        rw [hown, hcnt]
        by_cases hgo : g' = og
        · subst hgo
          rw [hg] at h0
          obtain rfl := Option.some.inj h0
          rw [List.count_cons_self] at this
          rw [if_pos rfl]
          omega
        · rw [List.count_cons_of_ne (Ne.symm hgo)] at this
          rw [if_neg hgo]
          omega)
    refine ⟨r', ?_⟩
    rw [pinEdges, if_pos (lt_length_of_entry ho), ho]
    simpa only [hinc, Option.bind_eq_bind, Option.bind_some] using hr'

/-! ## A new group -/

/-- What registering the new key `key` as group `g` with ids `members` does to `r`. -/
structure Fresh (r : TypeRegistry) (key : CGroup) (g : GroupId)
    (members : List CanonicalTypeId) (r' : TypeRegistry) : Prop where
  vacant : r.group? g = none
  members_length : members.length = key.length
  members_nodup : members.Nodup
  members_vacant : ∀ id ∈ members, r.type? id = none
  typeSlots : FreeList r'.types r'.freeTypes
  groupSlots : FreeList r'.groups r'.freeGroups
  owners_length : r'.typeToGroup.length = r'.types.length
  type_old : ∀ id, id ∉ members → r'.type? id = r.type? id
  type_new : ∀ (id p : ℕ), members[p]? = some id →
    r'.type? id = (key[p]?).map (canonType members)
  owner : ∀ id, r'.groupOf id = if id ∈ members then some g else r.groupOf id
  group_new : r'.group? g = some ⟨key, members, 1⟩
  group_old : ∀ h, h ≠ g →
    r'.group? h = (r.group? h).map (addRefs ((r.edgeGroups key).count h))
  interned : r'.interned = (key, g) :: r.interned
  total_edges : ∀ ms, total (edgesInto ms) r'.groups =
    total (edgesInto ms) r.groups + edgesInto ms ⟨key, members, 1⟩
  room : ∀ h rec', h ≠ g → r'.group? h = some rec' → (r.edgeGroups key).count h = 0 ∨
    rec'.refcount < refcountBound

/-- The registry at the point where the members of a new key have been written and its edges
are about to be pinned. -/
theorem prepare_spec (hw : WF r) (key : CGroup) :
    let g := r.takeGroupSlot.1
    let members := (r.takeGroupSlot.2.takeTypeSlots key.length).1
    ∃ r₁, (r.takeGroupSlot.2.takeTypeSlots key.length).2.writeTypes g members members key =
        some r₁ ∧
      members.length = key.length ∧ members.Nodup ∧ (∀ id ∈ members, r.type? id = none) ∧
      FreeList r₁.types r₁.freeTypes ∧ r₁.typeToGroup.length = r₁.types.length ∧
      FreeList r₁.groups (g :: r₁.freeGroups) ∧
      (∀ id, id ∉ members → r₁.type? id = r.type? id) ∧
      (∀ (id p : ℕ), members[p]? = some id → r₁.type? id = (key[p]?).map (canonType members)) ∧
      (∀ id, r₁.groupOf id = if id ∈ members then some g else r.groupOf id) ∧
      (∀ h, r₁.group? h = r.group? h) ∧ r₁.interned = r.interned ∧
      ∀ ms, total (edgesInto ms) r₁.groups = total (edgesInto ms) r.groups := by
  intro g members
  obtain ⟨a1, a2, a3, a4, a5, a6⟩ := takeGroupSlot_spec hw.groupSlots
  have hs : FreeList r.takeGroupSlot.2.types ([] ++ r.takeGroupSlot.2.freeTypes) := by
    rw [a2, a3]
    exact hw.typeSlots
  have hlen : r.takeGroupSlot.2.typeToGroup.length = r.takeGroupSlot.2.types.length := by
    rw [a2, a4]
    exact hw.owners_length
  obtain ⟨b1, b2, b3, b4, b5, b6⟩ := takeTypeSlots_spec (n := key.length) hs hlen
  rw [List.nil_append] at b1
  have hlive := a5.trans b6
  obtain ⟨r₁, hr₁, c1, c2, c3, c4, c5, c6, c7, c8, c9⟩ :=
    @writeTypes_spec g members _ _ _ _ b1 b2 b3
  refine ⟨r₁, hr₁, b3, (List.nodup_append.mp b1.nodup).1, ?_, by rwa [c8], c2, ?_, ?_, c4, ?_,
    ?_, ?_, ?_⟩
  · intro id hid
    rw [← hlive.types id]
    exact b1.entry_eq_none (List.mem_append_left _ hid)
  · rw [c6, c7, b4, b5]
    exact a1
  · intro id hid
    rw [c3 id hid, hlive.types]
  · intro id
    rw [c5 id, hlive.owners]
  · intro h
    rw [group?, c6, ← hlive.groups h]
    rfl
  · rw [c9, hlive.interned]
  · intro ms
    rw [c6, b4, a6]

variable {g : GroupId}

/-- The references of an admitted key resolve to the same groups after the members have been
written as before: no live id is a new member. -/
theorem edgeGroups_prepared {r₁ : TypeRegistry} {members : List CanonicalTypeId}
    (hvac : ∀ id ∈ members, r.type? id = none) (hlive : ∀ id ∈ edgeCanonIds key, r.type? id ≠ none)
    (hown : ∀ id, r₁.groupOf id = if id ∈ members then some g else r.groupOf id) :
    (edgeCanonIds key).filterMap r₁.groupOf = r.edgeGroups key := by
  apply List.filterMap_congr
  intro id hid
  rw [hown, if_neg fun hm => hlive id hid (hvac id hm)]

/-- Interning a key that is not registered yet. -/
theorem internGroup_fresh (hw : WF r) (hnew : r.interned.lookup key = none)
    (hlive : ∀ id ∈ edgeCanonIds key, r.type? id ≠ none)
    (h : r.internGroup key key.length = some (g, r')) :
    WellScoped key key.length ∧ ∃ members, Fresh r key g members r' := by
  unfold internGroup at h
  simp only [hnew] at h
  by_cases hsc : WellScoped key key.length
  · rw [if_pos hsc] at h
    obtain ⟨r₁, hr₁, hlen, hnd, hvac, hts, hol, hgs, hold, hnewt, hown, hgr, hint, htot⟩ :=
      prepare_spec hw key
    simp only [hr₁, Option.bind_eq_bind, Option.bind_some] at h
    cases hp : r₁.pinEdges (edgeCanonIds key) with
    | none => simp [hp] at h
    | some r₂ =>
      simp only [hp, Option.bind_some, Option.pure_def, Option.some.injEq, Prod.mk.injEq] at h
      obtain ⟨hg, rfl⟩ := h
      rw [hg] at hgs hown hr₁
      obtain ⟨d1, d2, d3, d4, d5, d6, d7, d8, d9, d10⟩ := pinEdges_spec hgs hp
      rw [edgeGroups_prepared hvac hlive hown] at d8 d10
      have hglt : g < r₂.groups.length := d6.lt_length List.mem_cons_self
      have hgnone : entry r₂.groups g = none := d6.entry_eq_none List.mem_cons_self
      have hvacg : r.group? g = none := by
        rw [← hgr]
        exact hgs.entry_eq_none List.mem_cons_self
      have hset (h : GroupId) : entry (r₂.groups.set g (some ⟨key,
          (r.takeGroupSlot.2.takeTypeSlots key.length).1, 1⟩)) h = _ := entry_set hglt _ h
      refine ⟨hsc, (r.takeGroupSlot.2.takeTypeSlots key.length).1, hvacg, hlen, hnd, hvac,
        ?_, ?_, ?_, ?_, ?_, ?_, ?_, ?_, ?_, ?_, ?_⟩
      · simpa only [d1, d3] using hts
      · rw [hg]
        simpa only [d4] using d6.fill _
      · simpa only [d1, d2] using hol
      · intro id hid
        rw [← hold id hid]
        simp only [type?, d1]
      · intro id p hp'
        rw [← hnewt id p hp']
        simp only [type?, d1]
      · intro id
        rw [← hown id]
        simp only [groupOf, d2]
      · simp only [group?, hg]
        rw [hset, if_pos rfl]
      · intro h' hne
        rw [← hgr h', ← d8 h']
        simp only [group?, hg]
        rw [hset, if_neg hne]
      · simp only [hg, d5, hint]
      · intro ms
        have := total_set (edgesInto ms) hglt (some ⟨key,
          (r.takeGroupSlot.2.takeTypeSlots key.length).1, 1⟩)
        rw [hgnone, d9, htot] at this
        simpa [hg] using this
      · intro h' rec' hne hrec'
        simp only [group?, hg] at hrec'
        rw [hset, if_neg hne] at hrec'
        exact d10 h' rec' hrec'
  · rw [if_neg hsc] at h
    cases h

section Fresh

variable {r r' : TypeRegistry} {key : CGroup} {g : GroupId} {members : List CanonicalTypeId}

variable {h : GroupId}

/-- A group of the new registry is the new one or an old one with some registrations added. -/
theorem Fresh.cases (hf : Fresh r key g members r') {rec' : GroupRecord}
    (hh : r'.group? h = some rec') :
    (h = g ∧ rec' = ⟨key, members, 1⟩) ∨
    (h ≠ g ∧ ∃ rec, r.group? h = some rec ∧ rec' = addRefs ((r.edgeGroups key).count h) rec) := by
  by_cases hg : h = g
  · subst hg
    rw [hf.group_new] at hh
    exact Or.inl ⟨rfl, (Option.some.inj hh).symm⟩
  · rw [hf.group_old h hg, Option.map_eq_some_iff] at hh
    obtain ⟨rec, h1, h2⟩ := hh
    exact Or.inr ⟨hg, rec, h1, h2.symm⟩

/-- Old groups survive with the same key and members. -/
theorem Fresh.keeps (hf : Fresh r key g members r') : Keeps r' r := by
  intro h rec hh
  have hne : h ≠ g := by
    rintro rfl
    rw [hf.vacant] at hh
    cases hh
  exact ⟨addRefs ((r.edgeGroups key).count h) rec, by rw [hf.group_old h hne, hh]; rfl, rfl, rfl⟩

/-- An old id has the same registration and the same owner as before. -/
theorem Fresh.not_mem_of_owned (hf : Fresh r key g members r') (hw : WF r) {id : CanonicalTypeId}
    (hid : r.groupOf id = some h) : id ∉ members := by
  intro hm
  rw [(hw.owned_iff id).mpr (hf.members_vacant id hm)] at hid
  cases hid

theorem Fresh.owner_old (hf : Fresh r key g members r') (hw : WF r) {id : CanonicalTypeId}
    (hid : r.groupOf id = some h) : r'.groupOf id = some h := by
  rw [hf.owner, if_neg (hf.not_mem_of_owned hw hid), hid]

theorem Fresh.owned_iff (hf : Fresh r key g members r') (hw : WF r) (id : CanonicalTypeId) :
    r'.groupOf id = none ↔ r'.type? id = none := by
  rw [hf.owner]
  by_cases hm : id ∈ members
  · obtain ⟨p, hp⟩ := List.mem_iff_getElem?.mp hm
    have hlt : p < key.length := by
      rw [← hf.members_length]
      exact (List.getElem?_eq_some_iff.mp hp).1
    rw [if_pos hm, hf.type_new id p hp, List.getElem?_eq_getElem hlt]
    simp
  · rw [if_neg hm, hf.type_old id hm]
    exact hw.owned_iff id

theorem Fresh.interned_iff (hf : Fresh r key g members r') (hw : WF r)
    (hnew : r.interned.lookup key = none) (k : CGroup) (h : GroupId) :
    r'.interned.lookup k = some h ↔ ∃ rec, r'.group? h = some rec ∧ rec.key = k := by
  rw [hf.interned, lookup_cons_ite]
  by_cases hk : k = key
  · subst hk
    rw [if_pos rfl]
    constructor
    · intro he
      obtain rfl := Option.some.inj he
      exact ⟨_, hf.group_new, rfl⟩
    · rintro ⟨rec', hh, hk'⟩
      rcases hf.cases hh with ⟨rfl, -⟩ | ⟨-, rec, h1, rfl⟩
      · rfl
      · have := (hw.interned_iff k h).mpr ⟨rec, h1, hk'⟩
        rw [hnew] at this
        cases this
  · rw [if_neg hk, hw.interned_iff]
    constructor
    · rintro ⟨rec, hh, hk'⟩
      obtain ⟨rec', h1, h2, -⟩ := hf.keeps h rec hh
      exact ⟨rec', h1, h2.trans hk'⟩
    · rintro ⟨rec', hh, hk'⟩
      rcases hf.cases hh with ⟨-, rfl⟩ | ⟨-, rec, h1, rfl⟩
      · exact absurd hk'.symm hk
      · exact ⟨rec, h1, hk'⟩

/-- The rank of the new group is above that of every group it refers to. -/
theorem Fresh.ranked (hf : Fresh r key g members r') (hw : WF r)
    (hlive : ∀ id ∈ edgeCanonIds key, r.type? id ≠ none) :
    ∃ rank : GroupId → ℕ, ∀ {g' rec' id h}, r'.group? g' = some rec' →
      id ∈ edgeCanonIds rec'.key → r'.groupOf id = some h → rank h < rank g' := by
  obtain ⟨rank, hrank⟩ := hw.ranked
  refine ⟨fun h => if h = g then ((r.edgeGroups key).map rank).sum + 1 else rank h, ?_⟩
  intro g' rec' id h hg' hid hown
  have hdead : ∀ {h rec}, r.group? h = some rec → h ≠ g := by
    rintro h rec hh rfl
    rw [hf.vacant] at hh
    cases hh
  rcases hf.cases hg' with ⟨rfl, rfl⟩ | ⟨hne, rec, h1, rfl⟩
  · rw [hf.owner, if_neg fun hm => hlive id hid (hf.members_vacant id hm)] at hown
    obtain ⟨rec, hh, -⟩ := hw.owner_member hown
    simp only [if_pos, if_neg (hdead hh)]
    have : rank h ∈ (r.edgeGroups key).map rank :=
      List.mem_map_of_mem (List.mem_filterMap.mpr ⟨id, hid, hown⟩)
    have := List.single_le_sum (fun _ _ => Nat.zero_le _) _ this
    omega
  · obtain ⟨h', hown'⟩ := hw.edge_live h1 hid
    rw [hf.owner_old hw hown'] at hown
    obtain rfl := Option.some.inj hown
    obtain ⟨rec, hh, -⟩ := hw.owner_member hown'
    simp only [if_neg hne, if_neg (hdead hh)]
    exact hrank h1 hid hown'

/-- Registering a new key whose references are live keeps the registry well formed. -/
theorem Fresh.wf (hf : Fresh r key g members r') (hw : WF r)
    (hnew : r.interned.lookup key = none) (hsc : WellScoped key key.length)
    (hlive : ∀ id ∈ edgeCanonIds key, r.type? id ≠ none) : WF r' where
  typeSlots := hf.typeSlots
  groupSlots := hf.groupSlots
  owners_length := hf.owners_length
  owned_iff := hf.owned_iff hw
  interned_iff := hf.interned_iff hw hnew
  members_length := by
    intro h rec' hh
    rcases hf.cases hh with ⟨-, rfl⟩ | ⟨-, rec, h1, rfl⟩
    · exact hf.members_length
    · exact (hw.members_length h1 :)
  members_nodup := by
    intro h rec' hh
    rcases hf.cases hh with ⟨-, rfl⟩ | ⟨-, rec, h1, rfl⟩
    · exact hf.members_nodup
    · exact (hw.members_nodup h1 :)
  wellScoped := by
    intro h rec' hh
    rcases hf.cases hh with ⟨-, rfl⟩ | ⟨-, rec, h1, rfl⟩
    · exact hsc
    · exact (hw.wellScoped h1 :)
  member_owner := by
    intro h rec' id hh hid
    rcases hf.cases hh with ⟨rfl, rfl⟩ | ⟨-, rec, h1, rfl⟩
    · rw [hf.owner, if_pos hid]
    · exact hf.owner_old hw (hw.member_owner h1 hid :)
  member_type := by
    intro h rec' id p hh hid
    rcases hf.cases hh with ⟨rfl, rfl⟩ | ⟨-, rec, h1, rfl⟩
    · exact hf.type_new id p hid
    · have hid : rec.members[p]? = some id := hid
      have hown := hw.member_owner h1 (List.mem_of_getElem? hid)
      rw [hf.type_old id (hf.not_mem_of_owned hw hown)]
      exact (hw.member_type h1 hid :)
  owner_member := by
    intro id h hid
    rw [hf.owner] at hid
    by_cases hm : id ∈ members
    · rw [if_pos hm] at hid
      obtain rfl := Option.some.inj hid
      exact ⟨_, hf.group_new, hm⟩
    · rw [if_neg hm] at hid
      obtain ⟨rec, h1, hmem⟩ := hw.owner_member hid
      obtain ⟨rec', h2, -, hm'⟩ := hf.keeps h rec h1
      exact ⟨rec', h2, hm' ▸ hmem⟩
  edge_live := by
    intro h rec' id hh hid
    rcases hf.cases hh with ⟨-, rfl⟩ | ⟨-, rec, h1, rfl⟩
    · obtain ⟨h', ho⟩ := Option.ne_none_iff_exists'.mp
        (mt (hw.owned_iff id).mp (hlive id hid))
      exact ⟨h', hf.owner_old hw ho⟩
    · obtain ⟨h', ho⟩ := hw.edge_live h1 hid
      exact ⟨h', hf.owner_old hw ho⟩
  ranked := hf.ranked hw hlive

/-- Registering a new key: one registration of the new group is outstanding, and the groups it
refers to have been counted up once per reference. -/
theorem Fresh.counted (hf : Fresh r key g members r') (hw : WF r) {due due' : GroupId → ℕ}
    (hc : Counted r due) (hlive : ∀ id ∈ edgeCanonIds key, r.type? id ≠ none)
    (hdueg : due' g = due g + 1) (hdue : ∀ h, h ≠ g → due' h = due h) : Counted r' due' := by
  have hzero : due g = 0 := hc.dead hf.vacant
  -- Nothing live refers to the new members, nor does the new key itself.
  have hinto : ∀ id ∈ members, ∀ h rec, r.group? h = some rec → id ∉ edgeCanonIds rec.key := by
    intro id hid h rec hh hmem
    obtain ⟨h', ho⟩ := hw.edge_live hh hmem
    exact hf.not_mem_of_owned hw ho hid
  have hnone : total (edgesInto members) r.groups = 0 := by
    apply total_eq_zero
    intro h rec hh
    rw [edgesInto, List.countP_eq_zero]
    intro id hid hm
    exact hinto id (by simpa using hm) h rec hh hid
  have hself : edgesInto members ⟨key, members, 1⟩ = 0 := by
    rw [edgesInto, List.countP_eq_zero]
    intro id hid hm
    exact hlive id hid (hf.members_vacant id (by simpa using hm))
  refine ⟨?_, ?_, ?_, ?_⟩
  · intro h rec' hh
    rw [hf.total_edges]
    rcases hf.cases hh with ⟨rfl, rfl⟩ | ⟨hne, rec, h1, rfl⟩
    · simp only [hnone, hself, hdueg, hzero]
    · have hcnt := hc.count h1
      have hedges : edgesInto rec.members ⟨key, members, 1⟩ = (r.edgeGroups key).count h :=
        hw.countP_members h1 _
      simp only [addRefs]
      rw [hdue h hne, hedges]
      omega
  · intro h rec' hh
    rcases hf.cases hh with ⟨rfl, rfl⟩ | ⟨hne, rec, h1, rfl⟩
    · exact Nat.one_pos
    · exact Nat.add_pos_left (hc.pos h1) _
  · intro h rec' hh
    rcases hf.cases hh with ⟨rfl, rfl⟩ | ⟨hne, rec, h1, rfl⟩
    · show 1 < refcountBound
      decide
    · rcases hf.room h _ hne hh with h0 | hlt
      · simpa only [addRefs, h0, Nat.add_zero] using hc.bound h1
      · exact hlt
  · intro h hh
    have hne : h ≠ g := by
      rintro rfl
      rw [hf.group_new] at hh
      cases hh
    rw [hf.group_old h hne, Option.map_eq_none_iff] at hh
    rw [hdue h hne, hc.dead hh]

end Fresh

/-- Registering a new key succeeds when its references are live and the counts have room. -/
theorem internGroup_isSome (hw : WF r) (hnew : r.interned.lookup key = none)
    (hsc : WellScoped key key.length) (hlive : ∀ id ∈ edgeCanonIds key, r.type? id ≠ none)
    (hroom : ∀ h rec, r.group? h = some rec →
      rec.refcount + (r.edgeGroups key).count h < refcountBound) :
    ∃ g r', r.internGroup key key.length = some (g, r') := by
  obtain ⟨r₁, hr₁, -, -, hvac, -, -, -, -, -, hown, hgr, -, -⟩ := prepare_spec hw key
  have hedges := edgeGroups_prepared hvac hlive hown
  have hpin : ∃ r₂, r₁.pinEdges (edgeCanonIds key) = some r₂ := by
    apply pinEdges_isSome
    · intro id hid
      obtain ⟨h, ho⟩ := Option.ne_none_iff_exists'.mp (mt (hw.owned_iff id).mp (hlive id hid))
      obtain ⟨rec, hh, -⟩ := hw.owner_member ho
      refine ⟨h, rec, ?_, by rw [hgr, hh]⟩
      rw [hown, if_neg fun hm => hlive id hid (hvac id hm), ho]
    · intro h rec hh
      rw [hgr] at hh
      rw [hedges]
      exact hroom h rec hh
  obtain ⟨r₂, hr₂⟩ := hpin
  unfold internGroup
  simp only [hnew, if_pos hsc, hr₁, hr₂, Option.bind_eq_bind, Option.bind_some, Option.pure_def]
  exact ⟨_, _, rfl⟩

/-- Interning a key that is registered already adds a registration to its group. -/
theorem internGroup_known {r : TypeRegistry} (hw : WF r) {key : CGroup} {len : ℕ} {g : GroupId}
    (hk : r.interned.lookup key = some g) :
    ∃ rec, r.group? g = some rec ∧ rec.key = key ∧
      r.internGroup key len = (r.increfGroup g).map fun r' => (g, r') := by
  obtain ⟨rec, hg, hkey⟩ := (hw.interned_iff key g).mp hk
  refine ⟨rec, hg, hkey, ?_⟩
  simp only [internGroup, hk]
  rw [Option.map_eq_bind]
  rfl

/-- Every live type of `r'` was live in `r` or is one of `ids`. -/
def Adds (r r' : TypeRegistry) (ids : List CanonicalTypeId) : Prop :=
  ∀ id, r'.type? id ≠ none → r.type? id ≠ none ∨ id ∈ ids

theorem Adds.of_types {r r' : TypeRegistry} (h : r'.types = r.types)
    (ids : List CanonicalTypeId) : Adds r r' ids := by
  intro id hid
  rw [type?, h] at hid
  exact Or.inl hid

/-- **Interning.**  Whatever the key's history, the group returned carries exactly this key, one
more registration of it is outstanding, and no other group's key or members changed. -/
theorem internGroup_spec (hw : WF r) {due : GroupId → ℕ} (hc : Counted r due)
    (hlive : ∀ id ∈ edgeCanonIds key, r.type? id ≠ none)
    (h : r.internGroup key key.length = some (g, r')) :
    WF r' ∧ Counted r' (fun h => due h + if h = g then 1 else 0) ∧ Keeps r' r ∧
      ∃ rec, r'.group? g = some rec ∧ rec.key = key ∧ Adds r r' rec.members := by
  cases hk : r.interned.lookup key with
  | some g₀ =>
    obtain ⟨rec, hg, hkey, heq⟩ := @internGroup_known _ hw _ key.length _ hk
    rw [heq, Option.map_eq_some_iff] at h
    obtain ⟨r₁, hinc, heq'⟩ := h
    obtain ⟨rfl, rfl⟩ := Prod.mk.inj heq'
    obtain ⟨rec', hg', hb, rfl⟩ := increfGroup_some hinc
    rw [hg] at hg'
    obtain rfl := Option.some.inj hg'
    refine ⟨hw.setCount hg _, hc.incref hg hb (by simp) fun h hne => by simp [hne],
      Keeps.of_setCount hg _, { rec with refcount := rec.refcount + 1 }, ?_, hkey,
      Adds.of_types rfl _⟩
    rw [group?_setCount hg, if_pos rfl]
  | none =>
    obtain ⟨hsc, members, hf⟩ := internGroup_fresh hw hk hlive h
    refine ⟨hf.wf hw hk hsc hlive, hf.counted hw hc hlive (by simp) fun h hne => by simp [hne],
      hf.keeps, ⟨key, members, 1⟩, hf.group_new, rfl, fun id hid => ?_⟩
    by_cases hm : id ∈ members
    · exact Or.inr hm
    · rw [hf.type_old id hm] at hid
      exact Or.inl hid

end TypeRegistry

end SubmilliWasm
