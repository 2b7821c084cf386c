/-
# Reference counts of recursion groups

The registry keeps one count per group.  It stands for two kinds of owner at once: the
registrations handed out to modules and host types, and the references other live
groups make to this one from their bodies and supertypes.  `Counted r due` says so,
where `due g` is what the outside still owes group `g`: the registrations outstanding,
plus, while a release cascades, the decrements still on the worklist.

`WF` collects what holds of the arenas regardless of counts.  Its `ranked` field is the
reason a release cannot leave a cycle behind: a group can only mention groups that were
registered before it.
-/
import SubmilliWasm.Canon.Registry

namespace SubmilliWasm

open Slots

namespace TypeRegistry

/-! ## Well-formed registries -/

/-- The references of a record's key that name one of `ms`. -/
def edgesInto (ms : List CanonicalTypeId) (rec : GroupRecord) : ℕ :=
  (edgeCanonIds rec.key).countP (· ∈ ms)

/-- The arenas, free lists and the hash-cons map describe one set of live groups. -/
structure WF (r : TypeRegistry) : Prop where
  typeSlots : FreeList r.types r.freeTypes
  groupSlots : FreeList r.groups r.freeGroups
  owners_length : r.typeToGroup.length = r.types.length
  owned_iff : ∀ id, r.groupOf id = none ↔ r.type? id = none
  interned_iff : ∀ k g, r.interned.lookup k = some g ↔
    ∃ rec, r.group? g = some rec ∧ rec.key = k
  members_length : ∀ {g rec}, r.group? g = some rec → rec.members.length = rec.key.length
  members_nodup : ∀ {g rec}, r.group? g = some rec → rec.members.Nodup
  wellScoped : ∀ {g rec}, r.group? g = some rec → WellScoped rec.key rec.key.length
  member_owner : ∀ {g rec id}, r.group? g = some rec → id ∈ rec.members → r.groupOf id = some g
  member_type : ∀ {g rec id} {p : ℕ}, r.group? g = some rec → rec.members[p]? = some id →
    r.type? id = (rec.key[p]?).map (canonType rec.members)
  owner_member : ∀ {id g}, r.groupOf id = some g → ∃ rec, r.group? g = some rec ∧ id ∈ rec.members
  edge_live : ∀ {g rec id}, r.group? g = some rec → id ∈ edgeCanonIds rec.key →
    ∃ h, r.groupOf id = some h
  ranked : ∃ rank : GroupId → ℕ, ∀ {g rec id h}, r.group? g = some rec →
    id ∈ edgeCanonIds rec.key → r.groupOf id = some h → rank h < rank g

/-- Every live count is what is due from outside plus the references of live groups. -/
structure Counted (r : TypeRegistry) (due : GroupId → ℕ) : Prop where
  count : ∀ {g rec}, r.group? g = some rec →
    rec.refcount = due g + total (edgesInto rec.members) r.groups
  pos : ∀ {g rec}, r.group? g = some rec → 0 < rec.refcount
  bound : ∀ {g rec}, r.group? g = some rec → rec.refcount < refcountBound
  dead : ∀ {g}, r.group? g = none → due g = 0

theorem wf_empty : WF empty where
  typeSlots := FreeList.nil
  groupSlots := FreeList.nil
  owners_length := rfl
  owned_iff := by simp [groupOf, type?, entry, empty]
  interned_iff := by simp [group?, entry, empty]
  members_length := by simp [group?, entry, empty]
  members_nodup := by simp [group?, entry, empty]
  wellScoped := by simp [group?, entry, empty]
  member_owner := by simp [group?, entry, empty]
  member_type := by simp [group?, entry, empty]
  owner_member := by simp [groupOf, entry, empty]
  edge_live := by simp [group?, entry, empty]
  ranked := ⟨fun _ => 0, by simp [group?, entry, empty]⟩

theorem counted_empty : Counted empty fun _ => 0 where
  count := by simp [group?, entry, empty]
  pos := by simp [group?, entry, empty]
  bound := by simp [group?, entry, empty]
  dead := fun _ => rfl

variable {g : GroupId} {rec : GroupRecord} {r : TypeRegistry}

/-- A live group never references itself: its own members are group-relative. -/
theorem WF.edgesInto_self (h : WF r) (hg : r.group? g = some rec) :
    edgesInto rec.members rec = 0 := by
  obtain ⟨rank, hrank⟩ := h.ranked
  rw [edgesInto, List.countP_eq_zero]
  intro id hid hmem
  have hmem : id ∈ rec.members := by simpa using hmem
  exact lt_irrefl _ (hrank hg hid (h.member_owner hg hmem))

/-- Two live groups share no member. -/
theorem WF.owner_unique (h : WF r) {g' : GroupId} {rec' : GroupRecord} (hg : r.group? g = some rec)
    (hg' : r.group? g' = some rec') {id : CanonicalTypeId} (hid : id ∈ rec.members)
    (hid' : id ∈ rec'.members) : g = g' := by
  have h1 := h.member_owner hg hid
  rw [h.member_owner hg' hid'] at h1
  exact (Option.some.inj h1).symm

/-- The references of a key into a live group, counted by member or by owner. -/
theorem WF.countP_members (h : WF r) (hg : r.group? g = some rec) (ids : List CanonicalTypeId) :
    ids.countP (· ∈ rec.members) = (ids.filterMap r.groupOf).count g := by
  rw [List.count_filterMap]
  apply List.countP_congr
  intro id _
  simp only [decide_eq_true_eq, beq_iff_eq]
  constructor
  · exact fun hid => h.member_owner hg hid
  · intro hid
    obtain ⟨rec', hg', hmem⟩ := h.owner_member hid
    rw [hg] at hg'
    exact Option.some.inj hg' ▸ hmem

/-! ## Changing a count -/

/-- `r` with the count of group `g` replaced. -/
def setCount (r : TypeRegistry) (g : GroupId) (rec : GroupRecord) (n : ℕ) : TypeRegistry :=
  { r with groups := r.groups.set g (some { rec with refcount := n }) }

theorem group?_setCount (hg : r.group? g = some rec) (n : ℕ) (h : GroupId) :
    (r.setCount g rec n).group? h =
      if h = g then some { rec with refcount := n } else r.group? h :=
  entry_set (lt_length_of_entry hg) _ h

/-- Key and members of a live group are unaffected by any change of count. -/
theorem group?_setCount_some (hg : r.group? g = some rec) {n : ℕ} {h : GroupId} {rec' : GroupRecord}
    (hh : (r.setCount g rec n).group? h = some rec') :
    ∃ rec₀, r.group? h = some rec₀ ∧ rec₀.key = rec'.key ∧ rec₀.members = rec'.members ∧
      rec'.refcount = if h = g then n else rec₀.refcount := by
  rw [group?_setCount hg] at hh
  by_cases hgh : h = g
  · subst hgh
    rw [if_pos rfl] at hh
    obtain rfl := Option.some.inj hh
    exact ⟨rec, hg, rfl, rfl, by simp⟩
  · rw [if_neg hgh] at hh
    exact ⟨rec', hh, rfl, rfl, by simp [hgh]⟩

/-- The weight of a key does not depend on counts, so neither does any edge total. -/
theorem total_setCount (hg : r.group? g = some rec) (n : ℕ) (ms : List CanonicalTypeId) :
    total (edgesInto ms) (r.setCount g rec n).groups = total (edgesInto ms) r.groups := by
  have h := total_set (edgesInto ms) (lt_length_of_entry hg) (some { rec with refcount := n })
  rw [show entry r.groups g = some rec from hg] at h
  simpa [setCount, edgesInto] using h

theorem WF.setCount (h : WF r) (hg : r.group? g = some rec) (n : ℕ) : WF (r.setCount g rec n) where
  typeSlots := h.typeSlots
  groupSlots := h.groupSlots.update hg _
  owners_length := h.owners_length
  owned_iff := h.owned_iff
  interned_iff := by
    intro k g'
    rw [show (r.setCount g rec n).interned = r.interned from rfl, h.interned_iff]
    constructor
    · rintro ⟨rec', hg', hk⟩
      by_cases hgg : g' = g
      · subst hgg
        rw [hg] at hg'
        obtain rfl := Option.some.inj hg'
        exact ⟨{ rec with refcount := n }, by rw [group?_setCount hg, if_pos rfl], hk⟩
      · exact ⟨rec', by rw [group?_setCount hg, if_neg hgg, hg'], hk⟩
    · rintro ⟨rec', hg', hk⟩
      obtain ⟨rec₀, h0, hkey, -, -⟩ := group?_setCount_some hg hg'
      exact ⟨rec₀, h0, hkey.trans hk⟩
  members_length := by
    intro g' rec' hg'
    obtain ⟨rec₀, h0, hkey, hmem, -⟩ := group?_setCount_some hg hg'
    rw [← hmem, ← hkey]
    exact h.members_length h0
  members_nodup := by
    intro g' rec' hg'
    obtain ⟨rec₀, h0, -, hmem, -⟩ := group?_setCount_some hg hg'
    rw [← hmem]
    exact h.members_nodup h0
  wellScoped := by
    intro g' rec' hg'
    obtain ⟨rec₀, h0, hkey, -, -⟩ := group?_setCount_some hg hg'
    rw [← hkey]
    exact h.wellScoped h0
  member_owner := by
    intro g' rec' id hg' hid
    obtain ⟨rec₀, h0, -, hmem, -⟩ := group?_setCount_some hg hg'
    exact h.member_owner h0 (hmem ▸ hid)
  member_type := by
    intro g' rec' id p hg' hid
    obtain ⟨rec₀, h0, hkey, hmem, -⟩ := group?_setCount_some hg hg'
    rw [← hmem, ← hkey]
    exact h.member_type h0 (hmem ▸ hid)
  owner_member := by
    intro id g' hid
    obtain ⟨rec', hg', hmem⟩ := h.owner_member hid
    by_cases hgg : g' = g
    · subst hgg
      rw [hg] at hg'
      obtain rfl := Option.some.inj hg'
      exact ⟨{ rec with refcount := n }, by rw [group?_setCount hg, if_pos rfl], hmem⟩
    · exact ⟨rec', by rw [group?_setCount hg, if_neg hgg, hg'], hmem⟩
  edge_live := by
    intro g' rec' id hg' hid
    obtain ⟨rec₀, h0, hkey, -, -⟩ := group?_setCount_some hg hg'
    exact h.edge_live h0 (hkey ▸ hid)
  ranked := by
    obtain ⟨rank, hrank⟩ := h.ranked
    refine ⟨rank, fun {g' rec' id h'} hg' hid hown => ?_⟩
    obtain ⟨rec₀, h0, hkey, -, -⟩ := group?_setCount_some hg hg'
    exact hrank h0 (hkey ▸ hid) hown

/-- Replacing a count by what a changed debt calls for keeps the books. -/
theorem Counted.setCount {due due' : GroupId → ℕ} (h : Counted r due) (hg : r.group? g = some rec)
    {n : ℕ} (hn : n = due' g + total (edgesInto rec.members) r.groups) (hpos : 0 < n)
    (hbound : n < refcountBound) (hdue : ∀ h, h ≠ g → due' h = due h) :
    Counted (r.setCount g rec n) due' where
  count := by
    intro g' rec' hg'
    obtain ⟨rec₀, h0, -, hmem, hc⟩ := group?_setCount_some hg hg'
    rw [hc, ← hmem, total_setCount hg]
    by_cases hgg : g' = g
    · subst hgg
      rw [hg] at h0
      obtain rfl := Option.some.inj h0
      rw [if_pos rfl, hn]
    · rw [if_neg hgg, h.count h0, hdue g' hgg]
  pos := by
    intro g' rec' hg'
    obtain ⟨rec₀, h0, -, -, hc⟩ := group?_setCount_some hg hg'
    rw [hc]
    split
    · exact hpos
    · exact h.pos h0
  bound := by
    intro g' rec' hg'
    obtain ⟨rec₀, h0, -, -, hc⟩ := group?_setCount_some hg hg'
    rw [hc]
    split
    · exact hbound
    · exact h.bound h0
  dead := by
    intro g' hg'
    rw [group?_setCount hg] at hg'
    by_cases hgg : g' = g
    · rw [if_pos hgg] at hg'
      cases hg'
    · rw [if_neg hgg] at hg'
      rw [hdue g' hgg]
      exact h.dead hg'

/-! ## Removing a group -/

theorem lookup_cons_ite (l : List (CGroup × GroupId)) (k k' : CGroup) (g : GroupId) :
    ((k', g) :: l).lookup k = if k = k' then some g else l.lookup k := by
  rw [List.lookup_cons]
  by_cases hk : k = k'
  · rw [if_pos hk, beq_iff_eq.mpr hk]
  · rw [if_neg hk, beq_eq_false_iff_ne.mpr hk]

/-- Erasing a key from the hash-cons map forgets that key and no other. -/
theorem lookup_filter_ne (l : List (CGroup × GroupId)) (k₀ k : CGroup) :
    (l.filter fun p => p.1 ≠ k₀).lookup k = if k = k₀ then none else l.lookup k := by
  induction l with
  | nil => simp
  | cons p l ih =>
    obtain ⟨k', g⟩ := p
    rw [List.filter_cons, lookup_cons_ite]
    by_cases hk' : k' = k₀
    · subst hk'
      rw [if_neg (by simp), ih]
      by_cases hk : k = k' <;> simp [hk]
    · rw [if_pos (by simpa using hk'), lookup_cons_ite, ih]
      by_cases hk : k = k'
      · subst hk
        simp [hk']
      · simp [hk]

/-- Vacating the slots of `ms`: the rest of the type arena is untouched. -/
theorem vacateTypes_spec {ms : List CanonicalTypeId} {r : TypeRegistry}
    (hslots : FreeList r.types r.freeTypes) (hlen : r.typeToGroup.length = r.types.length)
    (hnd : ms.Nodup) (hocc : ∀ m ∈ ms, r.type? m ≠ none) :
    FreeList (r.vacateTypes ms).types (r.vacateTypes ms).freeTypes ∧
    (r.vacateTypes ms).typeToGroup.length = (r.vacateTypes ms).types.length ∧
    (∀ id, (r.vacateTypes ms).type? id = if id ∈ ms then none else r.type? id) ∧
    (∀ id, (r.vacateTypes ms).groupOf id = if id ∈ ms then none else r.groupOf id) := by
  induction ms generalizing r with
  | nil => exact ⟨hslots, hlen, by simp [vacateTypes], by simp [vacateTypes]⟩
  | cons m ms ih =>
    obtain ⟨hm, hnd⟩ := List.nodup_cons.mp hnd
    obtain ⟨ct, hct⟩ := Option.ne_none_iff_exists'.mp (hocc m List.mem_cons_self)
    have hlt : m < r.types.length := lt_length_of_entry hct
    have hlt' : m < r.typeToGroup.length := hlen ▸ hlt
    have hocc' : ∀ id ∈ ms, entry (r.types.set m none) id ≠ none := by
      intro id hid
      rw [entry_set hlt, if_neg (by rintro rfl; exact hm hid)]
      exact hocc id (List.mem_cons_of_mem _ hid)
    obtain ⟨h1, h2, h3, h4⟩ := @ih { r with
      types := r.types.set m none
      typeToGroup := r.typeToGroup.set m none
      freeTypes := m :: r.freeTypes } (hslots.vacate hct) (by simpa using hlen) hnd hocc'
    refine ⟨h1, h2, fun id => ?_, fun id => ?_⟩
    · have := h3 id
      rw [vacateTypes, this]
      by_cases hid : id = m
      · subst hid
        simp [hm, type?, entry_set hlt]
      · simp [hid, type?, entry_set hlt]
    · have := h4 id
      rw [vacateTypes, this]
      by_cases hid : id = m
      · subst hid
        simp [hm, groupOf, entry_set hlt']
      · simp [hid, groupOf, entry_set hlt']

/-- Vacating type slots leaves the group arena alone. -/
theorem vacateTypes_groups (ms : List CanonicalTypeId) (r : TypeRegistry) :
    (r.vacateTypes ms).groups = r.groups ∧ (r.vacateTypes ms).freeGroups = r.freeGroups ∧
      (r.vacateTypes ms).interned = r.interned := by
  induction ms generalizing r with
  | nil => exact ⟨rfl, rfl, rfl⟩
  | cons m ms ih => exact ih _

section Remove

variable {r : TypeRegistry} {g : GroupId} {rec : GroupRecord}

theorem WF.type?_member (h : WF r) (hg : r.group? g = some rec) {id : CanonicalTypeId}
    (hid : id ∈ rec.members) : r.type? id ≠ none := by
  rw [Ne, ← h.owned_iff, h.member_owner hg hid]
  simp

theorem removeGroup_groups (r : TypeRegistry) (g : GroupId) (rec : GroupRecord) :
    (r.removeGroup g rec).groups = r.groups.set g none ∧
    (r.removeGroup g rec).freeGroups = g :: r.freeGroups ∧
    (r.removeGroup g rec).interned = r.interned.filter fun p => p.1 ≠ rec.key := by
  unfold removeGroup
  have h := vacateTypes_groups rec.members { r with
    groups := r.groups.set g none
    interned := r.interned.filter fun p => p.1 ≠ rec.key }
  exact ⟨h.1, congrArg (g :: ·) h.2.1, h.2.2⟩

theorem group?_removeGroup (hg : r.group? g = some rec) (h : GroupId) :
    (r.removeGroup g rec).group? h = if h = g then none else r.group? h := by
  rw [group?, (removeGroup_groups r g rec).1]
  exact entry_set (lt_length_of_entry hg) _ h

/-- A group that survives the removal is an old group other than `g`. -/
theorem group?_removeGroup_some (hg : r.group? g = some rec) {h : GroupId} {rec' : GroupRecord}
    (hh : (r.removeGroup g rec).group? h = some rec') : h ≠ g ∧ r.group? h = some rec' := by
  rw [group?_removeGroup hg] at hh
  by_cases hgh : h = g
  · rw [if_pos hgh] at hh
    cases hh
  · rw [if_neg hgh] at hh
    exact ⟨hgh, hh⟩

theorem WF.removeGroup_types (h : WF r) (hg : r.group? g = some rec) :
    FreeList (r.removeGroup g rec).types (r.removeGroup g rec).freeTypes ∧
    (r.removeGroup g rec).typeToGroup.length = (r.removeGroup g rec).types.length ∧
    (∀ id, (r.removeGroup g rec).type? id = if id ∈ rec.members then none else r.type? id) ∧
    (∀ id, (r.removeGroup g rec).groupOf id =
      if id ∈ rec.members then none else r.groupOf id) :=
  @vacateTypes_spec rec.members { r with
    groups := r.groups.set g none
    interned := r.interned.filter fun p => p.1 ≠ rec.key } h.typeSlots h.owners_length
    (h.members_nodup hg) fun _ hm => h.type?_member hg hm

/-- A group nothing refers to can be taken out. -/
theorem WF.removeGroup (h : WF r) (hg : r.group? g = some rec)
    (hfree : total (edgesInto rec.members) r.groups = 0) : WF (r.removeGroup g rec) := by
  obtain ⟨hslots, hlen, htype, hown⟩ := h.removeGroup_types hg
  obtain ⟨hgroups, hfreeg, hint⟩ := removeGroup_groups r g rec
  -- No live key mentions a member of the removed group.
  have hedge : ∀ {g' rec' id}, r.group? g' = some rec' → id ∈ edgeCanonIds rec'.key →
      id ∉ rec.members := by
    intro g' rec' id hg' hid hmem
    have hle := le_total (edgesInto rec.members) hg'
    rw [hfree, Nat.le_zero, edgesInto, List.countP_eq_zero] at hle
    exact hle id hid (by simpa using hmem)
  have hother : ∀ {g' rec' id}, g' ≠ g → r.group? g' = some rec' → id ∈ rec'.members →
      id ∉ rec.members := by
    intro g' rec' id hne hg' hid hmem
    exact hne (h.owner_unique hg' hg hid hmem)
  refine ⟨hslots, ?_, hlen, ?_, ?_, ?_, ?_, ?_, ?_, ?_, ?_, ?_, ?_⟩
  · rw [hgroups, hfreeg]
    exact h.groupSlots.vacate hg
  · intro id
    rw [htype, hown]
    split
    · simp
    · exact h.owned_iff id
  · intro k g'
    rw [hint, lookup_filter_ne, group?_removeGroup hg]
    by_cases hk : k = rec.key
    · subst hk
      rw [if_pos rfl]
      refine ⟨by simp, ?_⟩
      rintro ⟨rec', hg', hk'⟩
      by_cases hgg : g' = g
      · rw [if_pos hgg] at hg'
        cases hg'
      · rw [if_neg hgg] at hg'
        have h1 := (h.interned_iff rec.key g').mpr ⟨rec', hg', hk'⟩
        rw [(h.interned_iff rec.key g).mpr ⟨rec, hg, rfl⟩] at h1
        exact absurd (Option.some.inj h1).symm hgg
    · rw [if_neg hk, h.interned_iff]
      by_cases hgg : g' = g
      · subst hgg
        rw [if_pos rfl, hg]
        constructor
        · rintro ⟨rec', hg', hk'⟩
          exact absurd (Option.some.inj hg' ▸ hk'.symm) hk
        · rintro ⟨rec', hg', -⟩
          cases hg'
      · rw [if_neg hgg]
  · intro g' rec' hg'
    exact h.members_length (group?_removeGroup_some hg hg').2
  · intro g' rec' hg'
    exact h.members_nodup (group?_removeGroup_some hg hg').2
  · intro g' rec' hg'
    exact h.wellScoped (group?_removeGroup_some hg hg').2
  · intro g' rec' id hg' hid
    obtain ⟨hne, hg'⟩ := group?_removeGroup_some hg hg'
    rw [hown, if_neg (hother hne hg' hid)]
    exact h.member_owner hg' hid
  · intro g' rec' id p hg' hid
    obtain ⟨hne, hg'⟩ := group?_removeGroup_some hg hg'
    rw [htype, if_neg (hother hne hg' (List.mem_of_getElem? hid))]
    exact h.member_type hg' hid
  · intro id g' hid
    rw [hown] at hid
    by_cases hmem : id ∈ rec.members
    · rw [if_pos hmem] at hid
      cases hid
    · rw [if_neg hmem] at hid
      obtain ⟨rec', hg', hid'⟩ := h.owner_member hid
      refine ⟨rec', ?_, hid'⟩
      rw [group?_removeGroup hg, if_neg, hg']
      rintro rfl
      rw [hg] at hg'
      exact hmem (Option.some.inj hg' ▸ hid')
  · intro g' rec' id hg' hid
    obtain ⟨hne, hg'⟩ := group?_removeGroup_some hg hg'
    rw [hown, if_neg (hedge hg' hid)]
    exact h.edge_live hg' hid
  · obtain ⟨rank, hrank⟩ := h.ranked
    refine ⟨rank, fun {g' rec' id h'} hg' hid hown' => ?_⟩
    obtain ⟨hne, hg'⟩ := group?_removeGroup_some hg hg'
    rw [hown, if_neg (hedge hg' hid)] at hown'
    exact hrank hg' hid hown'

/-- Taking a group out turns its references into debts of the groups they name. -/
theorem Counted.removeGroup (hw : WF r) {due due' : GroupId → ℕ} (h : Counted r due)
    (hg : r.group? g = some rec) (hdueg : due' g = 0)
    (hdue : ∀ h, h ≠ g → due' h = due h + (r.edgeGroups rec.key).count h) :
    Counted (r.removeGroup g rec) due' where
  count := by
    intro g' rec' hg'
    obtain ⟨hne, hg'⟩ := group?_removeGroup_some hg hg'
    have htot := total_set (edgesInto rec'.members) (lt_length_of_entry hg) none
    rw [show entry r.groups g = some rec from hg] at htot
    simp only [Option.elim_some, Option.elim_none, Nat.add_zero] at htot
    have hedges : edgesInto rec'.members rec = (r.edgeGroups rec.key).count g' :=
      hw.countP_members hg' _
    rw [(removeGroup_groups r g rec).1, hdue g' hne, h.count hg']
    omega
  pos := fun hg' => h.pos (group?_removeGroup_some hg hg').2
  bound := fun hg' => h.bound (group?_removeGroup_some hg hg').2
  dead := by
    intro g' hg'
    rw [group?_removeGroup hg] at hg'
    by_cases hgg : g' = g
    · rw [hgg, hdueg]
    · rw [if_neg hgg] at hg'
      rw [hdue g' hgg, h.dead hg', Nat.zero_add, List.count_eq_zero]
      intro hmem
      obtain ⟨id, -, hid⟩ := List.mem_filterMap.mp hmem
      obtain ⟨rec', hg'', -⟩ := hw.owner_member hid
      rw [hg'] at hg''
      cases hg''

end Remove

/-! ## Incrementing and the reclamation cascade -/

/-- Every group live in `r'` was live in `r`, with the same key and the same member ids. -/
def Keeps (r r' : TypeRegistry) : Prop :=
  ∀ g rec', r'.group? g = some rec' →
    ∃ rec, r.group? g = some rec ∧ rec.key = rec'.key ∧ rec.members = rec'.members

theorem Keeps.refl (r : TypeRegistry) : Keeps r r := fun _ rec' h => ⟨rec', h, rfl, rfl⟩

theorem Keeps.trans {r₁ r₂ r₃ : TypeRegistry} (h : Keeps r₁ r₂) (h' : Keeps r₂ r₃) :
    Keeps r₁ r₃ := by
  intro g rec' hg
  obtain ⟨rec₂, h2, hk, hm⟩ := h' g rec' hg
  obtain ⟨rec₁, h1, hk', hm'⟩ := h g rec₂ h2
  exact ⟨rec₁, h1, hk'.trans hk, hm'.trans hm⟩

theorem Keeps.setCount (hg : r.group? g = some rec) (n : ℕ) : Keeps r (r.setCount g rec n) := by
  intro h rec' hh
  obtain ⟨rec₀, h0, hkey, hmem, -⟩ := group?_setCount_some hg hh
  exact ⟨rec₀, h0, hkey, hmem⟩

/-- Conversely a change of count removes no group. -/
theorem Keeps.of_setCount (hg : r.group? g = some rec) (n : ℕ) : Keeps (r.setCount g rec n) r := by
  intro h rec' hh
  by_cases hgh : h = g
  · subst hgh
    rw [hg] at hh
    obtain rfl := Option.some.inj hh
    exact ⟨{ rec with refcount := n }, by rw [group?_setCount hg, if_pos rfl], rfl, rfl⟩
  · exact ⟨rec', by rw [group?_setCount hg, if_neg hgh, hh], rfl, rfl⟩

theorem increfGroup_eq (hg : r.group? g = some rec) (hb : rec.refcount + 1 < refcountBound) :
    r.increfGroup g = some (r.setCount g rec (rec.refcount + 1)) := by
  rw [increfGroup, hg]
  exact if_pos hb

theorem increfGroup_some {r' : TypeRegistry} (h : r.increfGroup g = some r') :
    ∃ rec, r.group? g = some rec ∧ rec.refcount + 1 < refcountBound ∧
      r' = r.setCount g rec (rec.refcount + 1) := by
  unfold increfGroup at h
  cases hg : r.group? g with
  | none =>
    rw [hg] at h
    cases h
  | some rec =>
    rw [hg] at h
    by_cases hb : rec.refcount + 1 < refcountBound
    · simp only [if_pos hb, Option.some.injEq] at h
      exact ⟨rec, rfl, hb, h.symm⟩
    · simp only [if_neg hb] at h
      cases h

/-- One more registration of a live group. -/
theorem Counted.incref {due due' : GroupId → ℕ} (h : Counted r due) (hg : r.group? g = some rec)
    (hb : rec.refcount + 1 < refcountBound) (hdueg : due' g = due g + 1)
    (hdue : ∀ h, h ≠ g → due' h = due h) : Counted (r.setCount g rec (rec.refcount + 1)) due' := by
  have hc := h.count hg
  exact h.setCount hg (by omega) (Nat.succ_pos _) hb hdue

/-- **The cascade.**  With as much fuel as the counts add up to, the worklist runs empty, no
`expect` on the way fires, and every decrement it held has been paid. -/
theorem decrefLoop_spec {held : GroupId → ℕ} (fuel : ℕ) {stack : List GroupId} (hw : WF r)
    (hc : Counted r fun g => held g + stack.count g)
    (hfuel : total GroupRecord.refcount r.groups ≤ fuel) :
    ∃ r', decrefLoop fuel r stack = some r' ∧ WF r' ∧ Counted r' held ∧ Keeps r r' := by
  induction fuel generalizing r stack with
  | zero =>
    cases stack with
    | nil => exact ⟨r, rfl, hw, by simpa using hc, Keeps.refl r⟩
    | cons g stack =>
      -- A debt of `g` means that `g` is live, so the counts cannot add up to zero.
      exfalso
      cases hg : r.group? g with
      | none => simpa using hc.dead hg
      | some rec =>
        have h1 := le_total GroupRecord.refcount hg
        have h2 := hc.pos hg
        omega
  | succ fuel ih =>
    cases stack with
    | nil => exact ⟨r, rfl, hw, by simpa using hc, Keeps.refl r⟩
    | cons g stack =>
      cases hg : r.group? g with
      | none => simpa using hc.dead hg
      | some rec =>
        have hcount := hc.count hg
        simp only [List.count_cons_self] at hcount
        have hpos := hc.pos hg
        have hbound := hc.bound hg
        have hset (o : Option GroupRecord) :=
          total_set GroupRecord.refcount (lt_length_of_entry hg) o
        rw [show entry r.groups g = some rec from hg] at hset
        rw [decrefLoop, hg]
        simp only [if_neg (Nat.ne_of_gt hpos)]
        by_cases hgt : rec.refcount - 1 > 0
        · rw [if_pos hgt]
          have hfuel' : total GroupRecord.refcount
              (r.setCount g rec (rec.refcount - 1)).groups ≤ fuel := by
            have := hset (some { rec with refcount := rec.refcount - 1 })
            simp only [Option.elim_some] at this
            simp only [TypeRegistry.setCount]
            omega
          have hc' : Counted (r.setCount g rec (rec.refcount - 1))
              fun h => held h + stack.count h :=
            hc.setCount hg (by omega) hgt (by omega)
              fun h hne => by simp [Ne.symm hne]
          obtain ⟨r', hr', hw', hc'', hk⟩ := ih (hw.setCount hg _) hc' hfuel'
          exact ⟨r', hr', hw', hc'', (Keeps.setCount hg _).trans hk⟩
        · rw [if_neg hgt]
          have hfree : total (edgesInto rec.members) r.groups = 0 := by omega
          have hself : (r.edgeGroups rec.key).count g = 0 := by
            rw [edgeGroups, ← hw.countP_members hg]
            exact hw.edgesInto_self hg
          have hfuel' : total GroupRecord.refcount (r.removeGroup g rec).groups ≤ fuel := by
            have := hset none
            simp only [Option.elim_some, Option.elim_none] at this
            rw [(removeGroup_groups r g rec).1]
            omega
          have hc' : Counted (r.removeGroup g rec)
              fun h => held h + ((r.edgeGroups rec.key).reverse ++ stack).count h := by
            refine Counted.removeGroup hw hc hg ?_ fun h hne => ?_
            · simp only [List.count_append, List.count_reverse, hself]
              omega
            · simp only [List.count_append, List.count_reverse, List.count_cons,
                beq_iff_eq, Ne.symm hne, if_false]
              omega
          obtain ⟨r', hr', hw', hc'', hk⟩ := ih (hw.removeGroup hg hfree) hc' hfuel'
          refine ⟨r', hr', hw', hc'', Keeps.trans ?_ hk⟩
          intro h rec' hh
          exact ⟨rec', (group?_removeGroup_some hg hh).2, rfl, rfl⟩

/-- Giving back one outstanding registration of `g`. -/
theorem decrefGroup_spec {r : TypeRegistry} {due held : GroupId → ℕ} (hw : WF r)
    (hc : Counted r due) {g : GroupId} (hg : due g = held g + 1)
    (hdue : ∀ h, h ≠ g → due h = held h) :
    ∃ r', r.decrefGroup g = some r' ∧ WF r' ∧ Counted r' held ∧ Keeps r r' := by
  have hc' : Counted r fun h => held h + [g].count h := by
    have : due = fun h => held h + [g].count h := by
      funext h
      by_cases hh : h = g
      · subst hh
        simpa using hg
      · simpa [List.count_singleton, Ne.symm hh] using hdue h hh
    exact this ▸ hc
  exact decrefLoop_spec _ hw hc' (Nat.le_succ _)

/-- Giving back a list of outstanding registrations. -/
theorem release_spec {gs : List GroupId} {r : TypeRegistry} {held : GroupId → ℕ} (hw : WF r)
    (hc : Counted r fun g => held g + gs.count g) :
    ∃ r', r.release gs = some r' ∧ WF r' ∧ Counted r' held ∧ Keeps r r' := by
  induction gs generalizing r with
  | nil => exact ⟨r, rfl, hw, by simpa using hc, Keeps.refl r⟩
  | cons g gs ih =>
    obtain ⟨r₁, h1, hw1, hc1, hk1⟩ := @decrefGroup_spec _ _
      (fun h => held h + gs.count h) hw hc g
      (by simp only [List.count_cons_self]; omega)
      (fun h hne => by simp [Ne.symm hne])
    obtain ⟨r₂, h2, hw2, hc2, hk2⟩ := ih hw1 hc1
    refine ⟨r₂, ?_, hw2, hc2, hk1.trans hk2⟩
    rw [release, h1]
    exact h2

end TypeRegistry

end SubmilliWasm
