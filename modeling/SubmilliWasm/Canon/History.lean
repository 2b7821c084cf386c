/-
# Histories of the registry

A ledger is a registry together with the registrations its clients hold: one entry per
registration obtained by `intern` or `incref` and not yet given back.  The clients are
modules (which release the list of groups they registered) and the public type handles
(which count up and down by type id).  `Admitted` is what the registry asks of them: a key
is closed and mentions live ids only, a count stays below its width, and only what is held
is released.
-/
import SubmilliWasm.Canon.Intern

namespace SubmilliWasm

open Slots

namespace TypeRegistry

/-- A registry and the registrations outstanding, listed with multiplicity. -/
structure Ledger where
  reg : TypeRegistry
  held : List GroupId

namespace Ledger

def start : Ledger := ⟨empty, []⟩

end Ledger

inductive RegOp where
  | intern (key : CGroup)
  | incref (g : GroupId)
  | increfType (id : CanonicalTypeId)
  | decref (g : GroupId)
  | decrefType (id : CanonicalTypeId)
  | release (gs : List GroupId)

/-- Performs one operation; `none` if the source would panic. -/
def RegOp.step (l : Ledger) : RegOp → Option Ledger
  | .intern key => do
    let (g, r) ← l.reg.internGroup key key.length
    return ⟨r, g :: l.held⟩
  | .incref g => do
    let r ← l.reg.increfGroup g
    return ⟨r, g :: l.held⟩
  | .increfType id => do
    let r ← l.reg.increfType id
    return ⟨r, (l.reg.groupOf id).toList ++ l.held⟩
  | .decref g => do
    let r ← l.reg.decrefGroup g
    return ⟨r, l.held.erase g⟩
  | .decrefType id => do
    let r ← l.reg.decrefType id
    return ⟨r, l.held.diff (l.reg.groupOf id).toList⟩
  | .release gs => do
    let r ← l.reg.release gs
    return ⟨r, l.held.diff gs⟩

/-- The references other live groups make to the ids `ms` of group `g`. -/
def edgesFromOthers (r : TypeRegistry) (g : GroupId) (ms : List CanonicalTypeId) : ℕ :=
  total (edgesInto ms) (r.groups.set g none)

/-- The registrations of group `g`: those held outside and those of other live groups. -/
def Ledger.registrations (l : Ledger) (g : GroupId) (ms : List CanonicalTypeId) : ℕ :=
  l.held.count g + edgesFromOthers l.reg g ms

/-- Group `g` can take `n` more registrations without reaching the width of the count. -/
def Ledger.HasRoom (l : Ledger) (g : GroupId) (n : ℕ) : Prop :=
  ∀ rec, l.reg.group? g = some rec → l.registrations g rec.members + n < refcountBound

/-- What the registry asks of its clients. -/
def RegOp.Admitted (l : Ledger) : RegOp → Prop
  | .intern key => WellScoped key key.length ∧
      (∀ id ∈ edgeCanonIds key, l.reg.type? id ≠ none) ∧
      match l.reg.interned.lookup key with
      | some g => l.HasRoom g 1
      | none => ∀ h, l.HasRoom h ((l.reg.edgeGroups key).count h)
  | .incref g => l.reg.group? g ≠ none ∧ l.HasRoom g 1
  | .increfType id => ∃ g, l.reg.groupOf id = some g ∧ l.HasRoom g 1
  | .decref g => g ∈ l.held
  | .decrefType id => ∃ g, l.reg.groupOf id = some g ∧ g ∈ l.held
  | .release gs => ∀ g, gs.count g ≤ l.held.count g

/-- The ledgers admitted operations lead to, with the operations in order. -/
inductive Reached : List RegOp → Ledger → Prop where
  | start : Reached [] Ledger.start
  | step {ops : List RegOp} {l l' : Ledger} {op : RegOp} :
      Reached ops l → op.Admitted l → op.step l = some l' → Reached (ops ++ [op]) l'

/-! ## One step -/

/-- The books of a ledger balance. -/
structure Ledger.Balanced (l : Ledger) : Prop where
  wf : WF l.reg
  counted : Counted l.reg fun g => l.held.count g

theorem Ledger.balanced_start : Ledger.start.Balanced :=
  ⟨wf_empty, by simpa [Ledger.start] using counted_empty⟩

variable {g : GroupId} {rec : GroupRecord} {l : Ledger} {r : TypeRegistry}

/-- A live group's references never come from itself, so the others are all there are. -/
theorem WF.edgesFromOthers_eq (hw : WF r) (hg : r.group? g = some rec) :
    edgesFromOthers r g rec.members = total (edgesInto rec.members) r.groups := by
  have h := total_set (edgesInto rec.members) (lt_length_of_entry hg) none
  rw [show entry r.groups g = some rec from hg] at h
  simp only [Option.elim_some, Option.elim_none, hw.edgesInto_self hg] at h
  exact h

theorem Ledger.Balanced.refcount_eq (hb : l.Balanced) (hg : l.reg.group? g = some rec) :
    rec.refcount = l.registrations g rec.members := by
  rw [hb.counted.count hg, Ledger.registrations, hb.wf.edgesFromOthers_eq hg]

/-- Counting the held registrations after one more of `g`. -/
theorem count_cons_eq (held : List GroupId) (g h : GroupId) :
    (g :: held).count h = held.count h + if h = g then 1 else 0 := by
  rw [List.count_cons]
  by_cases hg : h = g
  · simp [hg]
  · simp [hg, Ne.symm hg]

theorem increfGroup_step (hb : l.Balanced) (hg : l.reg.group? g = some rec)
    (hroom : l.HasRoom g 1) :
    ∃ r', l.reg.increfGroup g = some r' ∧ (⟨r', g :: l.held⟩ : Ledger).Balanced ∧
      Keeps r' l.reg := by
  have hlt : rec.refcount + 1 < refcountBound := by
    rw [hb.refcount_eq hg]
    exact hroom rec hg
  refine ⟨_, increfGroup_eq hg hlt, ⟨hb.wf.setCount hg _, ?_⟩, Keeps.of_setCount hg _⟩
  refine hb.counted.incref hg hlt ?_ fun h hne => ?_
  · simp
  · simp [Ne.symm hne]

theorem decrefGroup_step (hb : l.Balanced) (hg : g ∈ l.held) :
    ∃ r', l.reg.decrefGroup g = some r' ∧ (⟨r', l.held.erase g⟩ : Ledger).Balanced ∧
      Keeps l.reg r' := by
  have hpos : 0 < l.held.count g := List.count_pos_iff.mpr hg
  obtain ⟨r', h1, h2, h3, h4⟩ := @decrefGroup_spec _ _
    (fun h => (l.held.erase g).count h) hb.wf hb.counted g
    (by simp only [List.count_erase_self]; omega)
    (fun h hne => by rw [List.count_erase_of_ne hne])
  exact ⟨r', h1, ⟨h2, h3⟩, h4⟩

theorem increfGroup_types {r' : TypeRegistry} (h : r.increfGroup g = some r') :
    r'.types = r.types := by
  obtain ⟨rec, -, -, rfl⟩ := increfGroup_some h
  rfl

/-- **One step.**  An admitted operation never panics, keeps the books balanced, and either
removes no group or adds none; in both cases the surviving groups keep key and members.  Unless it
interns, it keeps the types as they are or removes groups. -/
theorem RegOp.step_spec (hb : l.Balanced) {op : RegOp} (hop : op.Admitted l) :
    ∃ l', op.step l = some l' ∧ l'.Balanced ∧ (Keeps l'.reg l.reg ∨ Keeps l.reg l'.reg) ∧
      ((∀ key, op ≠ .intern key) → l'.reg.types = l.reg.types ∨ Keeps l.reg l'.reg) := by
  cases op with
  | intern key =>
    obtain ⟨hsc, hlive, hroom⟩ := hop
    have hsome : ∃ g r', l.reg.internGroup key key.length = some (g, r') := by
      cases hk : l.reg.interned.lookup key with
      | some g =>
        rw [hk] at hroom
        obtain ⟨rec, hg, -, heq⟩ := @internGroup_known _ hb.wf _ key.length _ hk
        obtain ⟨r', hr', -⟩ := increfGroup_step hb hg hroom
        exact ⟨g, r', by rw [heq, hr']; rfl⟩
      | none =>
        rw [hk] at hroom
        refine internGroup_isSome hb.wf hk hsc hlive fun h rec hh => ?_
        rw [hb.refcount_eq hh]
        exact hroom h rec hh
    obtain ⟨g, r', hr'⟩ := hsome
    obtain ⟨hw', hc', hk', -⟩ := internGroup_spec hb.wf hb.counted hlive hr'
    refine ⟨⟨r', g :: l.held⟩, by simp [RegOp.step, hr'], ⟨hw', ?_⟩, Or.inl hk',
      fun h => absurd rfl (h key)⟩
    simpa only [count_cons_eq] using hc'
  | incref g =>
    obtain ⟨hlive, hroom⟩ := hop
    obtain ⟨rec, hg⟩ := Option.ne_none_iff_exists'.mp hlive
    obtain ⟨r', hr', hb', hk'⟩ := increfGroup_step hb hg hroom
    exact ⟨_, by simp [RegOp.step, hr'], hb', Or.inl hk',
      fun _ => Or.inl (increfGroup_types hr')⟩
  | increfType id =>
    obtain ⟨g, ho, hroom⟩ := hop
    obtain ⟨rec, hg, -⟩ := hb.wf.owner_member ho
    obtain ⟨r', hr', hb', hk'⟩ := increfGroup_step hb hg hroom
    refine ⟨⟨r', g :: l.held⟩, ?_, hb', Or.inl hk', fun _ => Or.inl (increfGroup_types hr')⟩
    simp [RegOp.step, TypeRegistry.increfType, ho, hr']
  | decref g =>
    obtain ⟨r', hr', hb', hk'⟩ := decrefGroup_step hb hop
    exact ⟨_, by simp [RegOp.step, hr'], hb', Or.inr hk', fun _ => Or.inr hk'⟩
  | decrefType id =>
    obtain ⟨g, ho, hg⟩ := hop
    obtain ⟨r', hr', hb', hk'⟩ := decrefGroup_step hb hg
    refine ⟨⟨r', l.held.erase g⟩, ?_, hb', Or.inr hk', fun _ => Or.inr hk'⟩
    simp [RegOp.step, TypeRegistry.decrefType, ho, hr']
  | release gs =>
    have hc : Counted l.reg fun g => (l.held.diff gs).count g + gs.count g := by
      have : (fun g => l.held.count g) = fun g => (l.held.diff gs).count g + gs.count g := by
        funext g
        have := hop g
        rw [List.count_diff]
        omega
      exact this ▸ hb.counted
    obtain ⟨r', hr', hw', hc', hk'⟩ := @release_spec _ _ (fun g => (l.held.diff gs).count g)
      hb.wf hc
    exact ⟨⟨r', l.held.diff gs⟩, by simp [RegOp.step, hr'], ⟨hw', hc'⟩, Or.inr hk',
      fun _ => Or.inr hk'⟩

/-! ## Whole histories -/

theorem Reached.balanced {ops : List RegOp} (h : Reached ops l) : l.Balanced := by
  induction h with
  | start => exact Ledger.balanced_start
  | step _ hop hstep ih =>
    obtain ⟨l'', h1, h2, -⟩ := RegOp.step_spec ih hop
    rw [hstep] at h1
    exact Option.some.inj h1 ▸ h2

/-- A registered type mentions the resolved references of its key. -/
theorem mentions_canonType (members : List CanonicalTypeId) (ct : CType CanonRef) :
    (canonType members ct).mentions = ct.refs.map fun c => .canon (resolve members c) := by
  rw [CanonType.mentions, canonType, resolveBody, CBody.refs_map, CType.refs, List.map_append]
  cases ct.supertype <;> rfl

/-- Every id a live type mentions is live. -/
theorem WF.mentions_live (hw : WF r) {id : CanonicalTypeId} {t : CanonType}
    (ht : r.type? id = some t) :
    ∀ c ∈ t.mentions, ∃ id' t', c = .canon id' ∧ r.type? id' = some t' := by
  have hown : r.groupOf id ≠ none := fun h => by simp [(hw.owned_iff id).mp h] at ht
  obtain ⟨g, hown⟩ := Option.ne_none_iff_exists'.mp hown
  obtain ⟨rec, hg, hmem⟩ := hw.owner_member hown
  obtain ⟨p, hp⟩ := List.mem_iff_getElem?.mp hmem
  rw [hw.member_type hg hp, Option.map_eq_some_iff] at ht
  obtain ⟨ct, hct, rfl⟩ := ht
  have hctmem : ct ∈ rec.key := List.mem_of_getElem? hct
  intro c hc
  rw [mentions_canonType, List.mem_map] at hc
  obtain ⟨ref, href, rfl⟩ := hc
  -- A sibling reference is in scope, an outer one is an edge of the key.
  have hlive : r.groupOf (resolve rec.members ref) ≠ none := by
    cases ref with
    | rel q =>
      have hq : q < rec.members.length := by
        rw [hw.members_length hg]
        simpa [CanonRef.inScope] using hw.wellScoped hg ct hctmem _ href
      rw [resolve, List.getD_eq_getElem?_getD, List.getElem?_eq_getElem hq, Option.getD_some,
        hw.member_owner hg (List.getElem_mem hq)]
      simp
    | canon c =>
      obtain ⟨h, hh⟩ := hw.edge_live hg (mem_edgeCanonIds.mpr ⟨ct, hctmem, href⟩)
      rw [resolve, hh]
      simp
  obtain ⟨t', ht'⟩ := Option.ne_none_iff_exists'.mp (mt (hw.owned_iff _).mpr hlive)
  exact ⟨_, t', rfl, ht'⟩

/-- With nothing held outside there is no live group: one of highest rank would have no
registration at all. -/
theorem Ledger.Balanced.no_group_of_held_nil (hb : l.Balanced) (h : l.held = []) :
    ∀ g, l.reg.group? g = none := by
  obtain ⟨rank, hrank⟩ := hb.wf.ranked
  by_contra hne
  push Not at hne
  obtain ⟨g₀, hg₀⟩ := hne
  obtain ⟨rec₀, hrec₀⟩ := Option.ne_none_iff_exists'.mp hg₀
  let live := (Finset.range l.reg.groups.length).filter fun g => l.reg.group? g ≠ none
  have hmemlive : ∀ {g rec}, l.reg.group? g = some rec → g ∈ live := by
    intro g rec hg
    simp only [live, Finset.mem_filter, Finset.mem_range]
    exact ⟨lt_length_of_entry hg, by simp [hg]⟩
  obtain ⟨g, hg, hmax⟩ := live.exists_max_image rank ⟨g₀, hmemlive hrec₀⟩
  obtain ⟨rec, hrec⟩ := Option.ne_none_iff_exists'.mp (Finset.mem_filter.mp hg).2
  have hcount := hb.counted.count hrec
  have hpos := hb.counted.pos hrec
  have hzero : total (edgesInto rec.members) l.reg.groups = 0 := by
    apply total_eq_zero
    intro h' rec' hh'
    rw [edgesInto, List.countP_eq_zero]
    intro id hid hm
    have hlt := hrank hh' hid (hb.wf.member_owner hrec (by simpa using hm))
    exact absurd (hmax h' (hmemlive hh')) (by omega)
  rw [hzero, h] at hcount
  simp only [List.count_nil] at hcount
  omega

theorem WF.empty_of_no_group (hw : WF r) (h : ∀ g, r.group? g = none) :
    (∀ id, r.type? id = none) ∧ r.interned = [] := by
  constructor
  · intro id
    rw [← hw.owned_iff]
    cases hown : r.groupOf id with
    | none => rfl
    | some g =>
      obtain ⟨rec, hg, -⟩ := hw.owner_member hown
      rw [h g] at hg
      cases hg
  · cases hi : r.interned with
    | nil => rfl
    | cons p l =>
      obtain ⟨k, g⟩ := p
      obtain ⟨rec, hg, -⟩ := (hw.interned_iff k g).mp (by rw [hi, lookup_cons_ite, if_pos rfl])
      rw [h g] at hg
      cases hg

/-- A group disappears in a step exactly when nothing registers it any more. -/
theorem removed_iff {l' : Ledger} (hb : l.Balanced) (hb' : l'.Balanced)
    (hk : Keeps l'.reg l.reg ∨ Keeps l.reg l'.reg) (hg : l.reg.group? g = some rec) :
    l'.reg.group? g = none ↔ l'.registrations g rec.members = 0 := by
  constructor
  · intro hnone
    rcases hk with hk | hk
    · obtain ⟨rec', hg', -⟩ := hk g rec hg
      rw [hnone] at hg'
      cases hg'
    · -- Whoever still refers to a member would keep `g` itself alive.
      have hzero : edgesFromOthers l'.reg g rec.members = 0 := by
        apply total_eq_zero
        intro h' rec' hh'
        have hh' : l'.reg.group? h' = some rec' := by
          by_cases hlt : g < l'.reg.groups.length
          · rw [entry_set hlt] at hh'
            by_cases hgh : h' = g
            · rw [if_pos hgh] at hh'
              cases hh'
            · rwa [if_neg hgh] at hh'
          · rwa [List.set_eq_of_length_le (Nat.le_of_not_lt hlt)] at hh'
        rw [edgesInto, List.countP_eq_zero]
        intro id hid hm
        have hm : id ∈ rec.members := by simpa using hm
        obtain ⟨h₂, ho⟩ := hb'.wf.edge_live hh' hid
        obtain ⟨rec₂, hg₂, hmem₂⟩ := hb'.wf.owner_member ho
        obtain ⟨rec₁, hg₁, -, hm₁⟩ := hk h₂ rec₂ hg₂
        have heq : h₂ = g := hb.wf.owner_unique hg₁ hg (hm₁ ▸ hmem₂) hm
        rw [heq, hnone] at hg₂
        cases hg₂
      rw [Ledger.registrations, hzero, Nat.add_zero]
      exact hb'.counted.dead hnone
  · intro hzero
    cases hg' : l'.reg.group? g with
    | none => rfl
    | some rec' =>
      have hmem : rec'.members = rec.members := by
        rcases hk with hk | hk
        · obtain ⟨rec'', h'', -, hm⟩ := hk g rec hg
          rw [hg'] at h''
          rw [Option.some.inj h'', hm]
        · obtain ⟨rec'', h'', -, hm⟩ := hk g rec' hg'
          rw [hg] at h''
          rw [Option.some.inj h'', hm]
      have hpos := hb'.counted.pos hg'
      rw [hb'.refcount_eq hg', hmem, hzero] at hpos
      exact absurd hpos (lt_irrefl 0)

/-- **Reference counts of the registry.**  In every ledger admitted operations lead to: each
live count is the registrations held outside plus the references of other live groups; no live
type mentions a removed id; the next admitted operation goes through without a panic, and the
groups it removes are exactly those whose number of registrations it brings to zero; and once
nothing is held outside the registry is empty. -/
theorem refcounts_balance (ops : List RegOp) (l : Ledger) (h : Reached ops l) :
    (∀ g rec, l.reg.group? g = some rec →
      rec.refcount = l.registrations g rec.members ∧ 0 < rec.refcount) ∧
    (∀ id t, l.reg.type? id = some t →
      ∀ c ∈ t.mentions, ∃ id' t', c = .canon id' ∧ l.reg.type? id' = some t') ∧
    (∀ op, RegOp.Admitted l op → ∃ l', op.step l = some l' ∧
      ∀ g rec, l.reg.group? g = some rec →
        (l'.reg.group? g = none ↔ l'.registrations g rec.members = 0)) ∧
    (l.held = [] → (∀ g, l.reg.group? g = none) ∧ (∀ id, l.reg.type? id = none) ∧
      l.reg.interned = []) := by
  have hb := h.balanced
  refine ⟨fun g rec hg => ⟨hb.refcount_eq hg, hb.counted.pos hg⟩,
    fun id t ht => hb.wf.mentions_live ht, ?_, ?_⟩
  · intro op hop
    obtain ⟨l', hstep, hb', hk, -⟩ := RegOp.step_spec hb hop
    exact ⟨l', hstep, fun g rec hg => removed_iff hb hb' hk hg⟩
  · intro hheld
    have hno := hb.no_group_of_held_nil hheld
    exact ⟨hno, hb.wf.empty_of_no_group hno⟩

/-- The empty struct type, and an array of references to it. -/
def unitKey : CGroup := [⟨.final, none, .struct []⟩]

def unitArrayKey : CGroup :=
  [⟨.final, none, .array ⟨true, .val (.ref true (.concrete .struct (.canon 0)))⟩⟩]

/-- Both registered, and the struct's own registration given back: the array keeps it alive. -/
def unitLedger : Ledger where
  reg :=
    { types := [some ⟨.struct, .final, none, .struct []⟩,
        some ⟨.array, .final, none, .array ⟨true, .val (.ref true (.concrete .struct (.canon 0)))⟩⟩]
      typeToGroup := [some 0, some 1]
      freeTypes := []
      groups := [some ⟨unitKey, [0], 1⟩, some ⟨unitArrayKey, [1], 1⟩]
      freeGroups := []
      interned := [(unitArrayKey, 1), (unitKey, 0)] }
  held := [1]

theorem refcounts_balance_unitLedger :
    Reached [.intern unitKey, .intern unitArrayKey, .decref 0] unitLedger ∧
    ∀ g rec, unitLedger.reg.group? g = some rec →
      rec.refcount = unitLedger.registrations g rec.members ∧ 0 < rec.refcount := by
  have h1 : Reached [.intern unitKey]
      ⟨⟨[some ⟨.struct, .final, none, .struct []⟩], [some 0], [], [some ⟨unitKey, [0], 1⟩], [],
        [(unitKey, 0)]⟩, [0]⟩ := by
    refine @Reached.step _ _ _ (.intern unitKey) Reached.start ⟨by decide, by decide, ?_⟩ (by rfl)
    intro h rec hh
    simp [Ledger.start, group?, empty, entry] at hh
  have h2 : Reached [.intern unitKey, .intern unitArrayKey]
      ⟨{ unitLedger.reg with groups := [some ⟨unitKey, [0], 2⟩, some ⟨unitArrayKey, [1], 1⟩] },
        [1, 0]⟩ := by
    refine @Reached.step _ _ _ (.intern unitArrayKey) h1 ⟨by decide, by decide, ?_⟩ (by rfl)
    intro h rec hh
    rcases h with _ | n
    · obtain rfl := Option.some.inj hh
      decide
    · cases hh
  have h3 : Reached [.intern unitKey, .intern unitArrayKey, .decref 0] unitLedger :=
    @Reached.step _ _ _ (.decref 0) h2 (show 0 ∈ [1, 0] by decide) (by rfl)
  exact ⟨h3, (refcounts_balance _ _ h3).1⟩

end TypeRegistry

end SubmilliWasm
