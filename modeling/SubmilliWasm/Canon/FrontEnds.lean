/-
# The three front ends of the registry

A module's type section, a type an embedder builds on its own, and a recursion group an
embedder builds are keyed by different code.  Each is shown to return ids whose registered
types are the requested ones, every reference standing for the id answered for the type it
names (`FrontOp.requested`), and to register the requested recursion groups as such.
Together with the identity theorem this holds at every point of every history of the three
front ends and of the reference counting operations.
-/
import SubmilliWasm.Canon.Identity

namespace SubmilliWasm

open Slots

/-! ## The references of the module IR -/

def IrVal.refs : IrVal → List ℕ
  | .ref _ (.concrete idx _) => [idx]
  | _ => []

def IrField.refs (f : IrField) : List ℕ :=
  match f.storage with
  | .val v => v.refs
  | _ => []

def CompositeBody.refs : CompositeBody → List ℕ
  | .func params results => (params ++ results).flatMap IrVal.refs
  | .struct fields => fields.flatMap IrField.refs
  | .array f => f.refs

def ModuleType.refs (t : ModuleType) : List ℕ := t.supertype.toList ++ t.body.refs

theorem valKey_refs (cref : ℕ → CanonRef) (v : IrVal) : (valKey cref v).refs = v.refs.map cref := by
  cases v with
  | ref n h => cases h <;> rfl
  | _ => rfl

theorem fieldKey_refs (cref : ℕ → CanonRef) (f : IrField) :
    (fieldKey cref f).refs = f.refs.map cref := by
  obtain ⟨m, s⟩ := f
  cases s with
  | val v => exact valKey_refs cref v
  | _ => rfl

theorem bodyKey_refs (cref : ℕ → CanonRef) (b : CompositeBody) :
    (bodyKey cref b).refs = b.refs.map cref := by
  cases b with
  | func p r =>
    simp only [bodyKey, CBody.refs, CompositeBody.refs, ← List.map_append, List.flatMap_map,
      List.map_flatMap, valKey_refs]
  | struct fs =>
    simp only [bodyKey, CBody.refs, CompositeBody.refs, List.flatMap_map, List.map_flatMap,
      fieldKey_refs]
  | array f => exact fieldKey_refs cref f

theorem typeKey_refs (cref : ℕ → CanonRef) (t : ModuleType) :
    (typeKey cref t).refs = t.refs.map cref := by
  rw [CType.refs, typeKey, bodyKey_refs, ModuleType.refs, List.map_append]
  cases t.supertype <;> rfl

theorem valKey_map {ρ : Type} (cref : ℕ → CanonRef) (f : CanonRef → ρ) (cref' : ℕ → CanonRef)
    (f' : CanonRef → ρ) (v : IrVal) (h : ∀ m ∈ v.refs, f (cref m) = f' (cref' m)) :
    (valKey cref v).map f = (valKey cref' v).map f' := by
  cases v with
  | ref n hp =>
    cases hp with
    | concrete i k =>
      show CVal.ref n (.concrete k (f (cref i))) = CVal.ref n (.concrete k (f' (cref' i)))
      rw [h i List.mem_cons_self]
    | _ => rfl
  | _ => rfl

theorem fieldKey_map {ρ : Type} (cref : ℕ → CanonRef) (f : CanonRef → ρ) (cref' : ℕ → CanonRef)
    (f' : CanonRef → ρ) (c : IrField) (h : ∀ m ∈ c.refs, f (cref m) = f' (cref' m)) :
    (fieldKey cref c).map f = (fieldKey cref' c).map f' := by
  obtain ⟨m, s⟩ := c
  cases s with
  | val v => exact congrArg (CField.mk m ∘ CStore.val) (valKey_map cref f cref' f' v h)
  | _ => rfl

/-- The key of a body depends on the way its indices resolve only through the indices it
mentions. -/
theorem bodyKey_map {ρ : Type} (cref : ℕ → CanonRef) (f : CanonRef → ρ) (cref' : ℕ → CanonRef)
    (f' : CanonRef → ρ) (b : CompositeBody) (h : ∀ m ∈ b.refs, f (cref m) = f' (cref' m)) :
    (bodyKey cref b).map f = (bodyKey cref' b).map f' := by
  cases b with
  | func p r =>
    have hval : ∀ v ∈ p ++ r, (valKey cref v).map f = (valKey cref' v).map f' := fun v hv =>
      valKey_map cref f cref' f' v fun m hm => h m (List.mem_flatMap.mpr ⟨v, hv, hm⟩)
    simp only [bodyKey, CBody.map, List.map_map, CBody.func.injEq]
    exact ⟨List.map_congr_left fun v hv => hval v (List.mem_append_left _ hv),
      List.map_congr_left fun v hv => hval v (List.mem_append_right _ hv)⟩
  | struct fs =>
    simp only [bodyKey, CBody.map, List.map_map, CBody.struct.injEq]
    exact List.map_congr_left fun c hc =>
      fieldKey_map cref f cref' f' c fun m hm => h m (List.mem_flatMap.mpr ⟨c, hc, hm⟩)
  | array c => exact congrArg CBody.array (fieldKey_map cref f cref' f' c h)

theorem bodyKind_bodyKey (cref cref' : ℕ → CanonRef) (b : CompositeBody) :
    bodyKind (bodyKey cref b) = bodyKind (bodyKey cref' b) := by
  cases b <;> rfl

/-! ## Host types are keyed as module types are -/

/-- The IR heap type a public heap type stands for, canonical ids playing the indices. -/
def HeapType.toIr : HeapType → IrHeap
  | .func => .func
  | .noFunc => .noFunc
  | .extern_ => .extern_
  | .noExtern => .noExtern
  | .any => .any
  | .eq => .eq
  | .i31 => .i31
  | .struct => .struct
  | .array => .array
  | .exn => .exn
  | .noExn => .noExn
  | .none => .none
  | .concreteFunc id => .concrete id .func
  | .concreteStruct id => .concrete id .struct
  | .concreteArray id => .concrete id .array

def ValType.toIr : ValType → IrVal
  | .i32 => .i32
  | .i64 => .i64
  | .f32 => .f32
  | .f64 => .f64
  | .v128 => .v128
  | .ref nullable heap => .ref nullable heap.toIr

def FieldType.toIr (f : FieldType) : IrField where
  mutable := f.mutability == .var
  storage :=
    match f.elementType with
    | .i8 => .i8
    | .i16 => .i16
    | .valType v => .val v.toIr

theorem pubVal_eq (v : ValType) : pubVal v = valKey .canon v.toIr := by
  cases v with
  | ref n h => cases h <;> rfl
  | _ => rfl

theorem pubField_eq (f : FieldType) : pubField f = fieldKey .canon f.toIr := by
  obtain ⟨m, s⟩ := f
  cases s with
  | valType v => exact congrArg (CField.mk _ ∘ CStore.val) (pubVal_eq v)
  | _ => rfl

/-- A host function, struct or array type and a module type with the same structure have the
same key. -/
theorem funcBody_eq (params results : List ValType) :
    funcBody params results =
      bodyKey .canon (.func (params.map ValType.toIr) (results.map ValType.toIr)) := by
  simp [funcBody, bodyKey, pubVal_eq]

theorem structBody_eq (fields : List FieldType) :
    structBody fields = bodyKey .canon (.struct (fields.map FieldType.toIr)) := by
  simp [structBody, bodyKey, pubField_eq]

theorem arrayBody_eq (field : FieldType) :
    arrayBody field = bodyKey .canon (.array field.toIr) := by
  simp [arrayBody, bodyKey, pubField_eq]

namespace TypeRegistry

/-! ## What is requested -/

/-- The registration a type asks for when its indices stand for the ids `ref` gives them. -/
def absolute (ref : ℕ → CanonicalTypeId) (t : ModuleType) : CanonType where
  kind := bodyKind (bodyKey (fun m => .canon (ref m)) t.body)
  finality := t.finality
  supertype := t.supertype.map ref
  body := bodyKey (fun m => .canon (ref m)) t.body

/-- A member keyed with `cref` is registered as `ref` asks, if both resolve its indices alike. -/
theorem canonType_typeKey {members : List CanonicalTypeId} {cref : ℕ → CanonRef}
    {ref : ℕ → CanonicalTypeId} {t : ModuleType}
    (h : ∀ m ∈ t.refs, resolve members (cref m) = ref m) :
    canonType members (typeKey cref t) = absolute ref t := by
  have hbody : resolveBody members (bodyKey cref t.body) =
      (bodyKey (fun m => .canon (ref m)) t.body).map id := by
    apply bodyKey_map
    intro m hm
    rw [h m (List.mem_append_right _ hm)]
    rfl
  have hid : (bodyKey (fun m => .canon (ref m)) t.body).map id =
      bodyKey (fun m => .canon (ref m)) t.body := by
    apply CBody.ext_refs
    · have := CType.map_map (id : CanonRef → CanonRef) (fun _ => ())
        ⟨.final, none, bodyKey (fun m => CanonRef.canon (ref m)) t.body⟩
      exact congrArg CType.body this
    · rw [CBody.refs_map, List.map_id]
  have hsup : (t.supertype.map cref).map (resolve members) = t.supertype.map ref := by
    cases hs : t.supertype with
    | none => rfl
    | some m =>
      have hm : m ∈ t.refs := List.mem_append_left _ (by simp [hs])
      simp [h m hm]
  simp only [canonType, typeKey, absolute, hbody, hid, hsup]
  rw [bodyKind_bodyKey]

variable {l : Ledger} {t : ModuleType} {base : ℕ}

/-- Absolute registrations agree when the two readings agree on the indices mentioned. -/
theorem absolute_congr {ref ref' : ℕ → CanonicalTypeId} (h : ∀ m ∈ t.refs, ref m = ref' m) :
    absolute ref t = absolute ref' t := by
  have h1 : canonType [] (typeKey (fun m => .canon (ref m)) t) = absolute ref t :=
    canonType_typeKey fun m _ => rfl
  rw [← h1]
  exact canonType_typeKey fun m hm => h m hm

/-! ## One group -/

/-- What a group just interned under `key` looks like, `ms` being its ids. -/
structure Answer (r' : TypeRegistry) (key : CGroup) (ms : List CanonicalTypeId) : Prop where
  length : ms.length = key.length
  types : ∀ (p : ℕ) (id : CanonicalTypeId), ms[p]? = some id →
    r'.type? id = (key[p]?).map (canonType ms)
  group : ∀ id ∈ ms, r'.recGroup id = some ms

variable {id : CanonicalTypeId} {g : GroupId} {due : GroupId → ℕ}
  {ms ids toCanon : List CanonicalTypeId} {types : List ModuleType} {r r' : TypeRegistry}

theorem internGroup_answer {key : CGroup} (hw : WF r) (hc : Counted r due)
    (hlive : ∀ id ∈ edgeCanonIds key, r.type? id ≠ none)
    (h : r.internGroup key key.length = some (g, r')) (hms : r'.membersOf g = some ms) :
    WF r' ∧ Counted r' (fun h => due h + if h = g then 1 else 0) ∧ Keeps r' r ∧
      Answer r' key ms ∧ Adds r r' ms := by
  obtain ⟨hw', hc', hk, rec, hg, hkey, hadds⟩ := internGroup_spec hw hc hlive h
  have hrec : rec.members = ms := by
    rw [membersOf, hg] at hms
    exact Option.some.inj hms
  subst hrec hkey
  exact ⟨hw', hc', hk, ⟨hw'.members_length hg, fun p id hp => hw'.member_type hg hp,
    fun id hid => hw'.recGroup_of_mem hg hid⟩, hadds⟩

/-- A live id keeps its registration and its group as long as no group disappears. -/
theorem Keeps.recGroup (hw : WF r) (hw' : WF r') (hk : Keeps r' r) (h : r.recGroup id = some ms) :
    r'.recGroup id = some ms ∧ r'.type? id = r.type? id := by
  obtain ⟨g, rec, -, hg, rfl, hmem⟩ := hw.recGroup_some h
  obtain ⟨rec', hg', hkey, hmem'⟩ := hk g rec hg
  obtain ⟨p, hp⟩ := List.mem_iff_getElem?.mp hmem
  constructor
  · rw [hw'.recGroup_of_mem hg' (hmem' ▸ hmem), hmem']
  · rw [hw.member_type hg hp, hw'.member_type hg' (hmem' ▸ hp), hkey, hmem']

theorem WF.recGroup_isSome (hw : WF r) (h : r.type? id ≠ none) : ∃ ms, r.recGroup id = some ms := by
  obtain ⟨g, hown⟩ := Option.ne_none_iff_exists'.mp (mt (hw.owned_iff id).mp h)
  obtain ⟨rec, hg, hmem⟩ := hw.owner_member hown
  exact ⟨_, hw.recGroup_of_mem hg hmem⟩

theorem Keeps.type? (hw : WF r) (hw' : WF r') (hk : Keeps r' r) {t : CanonType}
    (h : r.type? id = some t) : r'.type? id = some t := by
  obtain ⟨ms, hms⟩ := hw.recGroup_isSome (by simp [h] : r.type? id ≠ none)
  rw [(Keeps.recGroup hw hw' hk hms).2, h]

/-! ## Module type sections -/

/-- The order validation guarantees: a reference forward stays inside the recursion group. -/
def ForwardClosed (types : List ModuleType) : Prop :=
  ∀ (i : ℕ) (t : ModuleType), types[i]? = some t → ∀ m ∈ t.refs, m < types.length ∧
    ∀ j, i < j → j ≤ m → (types[j]?).map (·.group) = some t.group

/-- An index is in the initial run of `p` iff everything up to it satisfies `p`. -/
theorem lt_length_takeWhile {α : Type} (p : α → Bool) (l : List α) (n : ℕ) :
    n < (l.takeWhile p).length ↔ ∀ k ≤ n, ∃ a, l[k]? = some a ∧ p a = true := by
  induction l generalizing n with
  | nil => simpa using ⟨0, Nat.zero_le n⟩
  | cons a l ih =>
    by_cases ha : p a = true
    · rw [List.takeWhile_cons_of_pos ha, List.length_cons]
      cases n with
      | zero => simpa using ha
      | succ n =>
        rw [Nat.add_lt_add_iff_right, ih]
        constructor
        · intro h k hk
          cases k with
          | zero => exact ⟨a, rfl, ha⟩
          | succ k => exact h k (by omega)
        · intro h k hk
          exact h (k + 1) (by omega)
    · rw [List.takeWhile_cons_of_neg ha]
      constructor
      · intro h
        exact absurd h (Nat.not_lt_zero n)
      · intro h
        obtain ⟨b, hb, hpb⟩ := h 0 (Nat.zero_le n)
        exact absurd (Option.some.inj hb ▸ hpb) ha

/-- The recursion group from `base` on reaches index `m` iff all types up to `m` share the
group of `base`. -/
theorem lt_groupEnd {types : List ModuleType} {base m : ℕ} (hm : base ≤ m) :
    m < groupEnd types base ↔ ∀ j, base ≤ j → j ≤ m →
      ∃ t, types[j]? = some t ∧ some t.group = (types[base]?).map (·.group) := by
  have hsub : m < groupEnd types base ↔ m - base < ((types.drop base).takeWhile fun t =>
      decide (some t.group = (types[base]?).map (·.group))).length := by
    rw [groupEnd]
    omega
  rw [hsub, lt_length_takeWhile]
  constructor
  · intro h j hj hjm
    obtain ⟨t, ht, hp⟩ := h (j - base) (by omega)
    rw [List.getElem?_drop, Nat.add_sub_cancel' hj] at ht
    exact ⟨t, ht, by simpa using hp⟩
  · intro h k hk
    obtain ⟨t, ht, hp⟩ := h (base + k) (by omega) (by omega)
    exact ⟨t, by rw [List.getElem?_drop, ht], by simpa using hp⟩

theorem lt_groupEnd_self (h : base < types.length) : base < groupEnd types base := by
  rw [lt_groupEnd le_rfl]
  intro j hj hj'
  obtain rfl : j = base := by omega
  exact ⟨types[j], List.getElem?_eq_getElem h, by simp [h]⟩

theorem groupEnd_le (h : base < types.length) : groupEnd types base ≤ types.length := by
  have hself := lt_groupEnd_self h
  have := (@lt_groupEnd types base (groupEnd types base - 1)
    (by omega)).mp (by omega) (groupEnd types base - 1) (by omega) le_rfl
  obtain ⟨t, ht, -⟩ := this
  have := (List.getElem?_eq_some_iff.mp ht).1
  omega

/-- References of a group's members stop at the end of the group. -/
theorem ForwardClosed.lt_groupEnd {types : List ModuleType} (hv : ForwardClosed types)
    {base i : ℕ} {t : ModuleType} (hbase : base ≤ i) (hi : i < groupEnd types base)
    (ht : types[i]? = some t) {m : ℕ} (hm : m ∈ t.refs) : m < groupEnd types base := by
  obtain ⟨hlen, hfwd⟩ := hv i t ht m hm
  by_cases hmi : m ≤ i
  · omega
  · have hrun := (TypeRegistry.lt_groupEnd hbase).mp hi
    rw [TypeRegistry.lt_groupEnd (by omega)]
    intro j hj hjm
    by_cases hji : j ≤ i
    · exact hrun j hj hji
    · obtain ⟨u, hu⟩ : ∃ u, types[j]? = some u :=
        ⟨types[j], List.getElem?_eq_getElem (by omega)⟩
      have hgroup := hfwd j (by omega) hjm
      obtain ⟨t', ht', hgt⟩ := hrun i hbase le_rfl
      rw [ht] at ht'
      rw [hu, Option.map_some] at hgroup
      refine ⟨u, hu, ?_⟩
      rw [hgroup, Option.some.inj ht', hgt]

/-- The ids answered so far, `toCanon`, are those of the first `toCanon.length` types, which form
whole recursion groups. -/
structure Prefixed (types : List ModuleType) (r : TypeRegistry) (toCanon : List CanonicalTypeId) :
    Prop where
  closed : ∀ (i : ℕ) (t : ModuleType), i < toCanon.length → types[i]? = some t →
    ∀ m ∈ t.refs, m < toCanon.length
  types : ∀ (i : ℕ) (id : CanonicalTypeId), toCanon[i]? = some id →
    ∃ t, types[i]? = some t ∧ r.type? id = some (absolute (fun m => toCanon.getD m 0) t)

theorem buildKey_getElem? (types : List ModuleType) (base stop : ℕ) (toCanon : List CanonicalTypeId)
    (p : ℕ) : (buildKey types base stop toCanon)[p]? =
      if base + p < stop then (types[base + p]?).map (typeKey (moduleRef base stop toCanon))
      else none := by
  rw [buildKey, List.getElem?_map, List.getElem?_drop, List.getElem?_take]
  split <;> rfl

theorem buildKey_length {stop : ℕ} (h : base ≤ stop) (h' : stop ≤ types.length)
    (toCanon : List CanonicalTypeId) : (buildKey types base stop toCanon).length = stop - base := by
  simp only [buildKey, List.length_map, List.length_drop, List.length_take]
  omega

/-- The outer references of the next group's key are ids answered before. -/
theorem Prefixed.key_live (hp : Prefixed types r toCanon) (hv : ForwardClosed types) :
    ∀ id ∈ edgeCanonIds (buildKey types toCanon.length (groupEnd types toCanon.length) toCanon),
      r.type? id ≠ none := by
  intro id hid
  obtain ⟨ct, hct, href⟩ := mem_edgeCanonIds.mp hid
  obtain ⟨p, hpt⟩ := List.mem_iff_getElem?.mp hct
  rw [buildKey_getElem?] at hpt
  by_cases hstop : toCanon.length + p < groupEnd types toCanon.length
  · rw [if_pos hstop] at hpt
    obtain ⟨t, ht, rfl⟩ := Option.map_eq_some_iff.mp hpt
    rw [typeKey_refs, List.mem_map] at href
    obtain ⟨m, hm, hmr⟩ := href
    have hlt := hv.lt_groupEnd (Nat.le_add_right _ _) hstop ht hm
    unfold moduleRef at hmr
    split at hmr
    · cases hmr
    · -- Not a sibling and below the end of the group: an earlier type.
      have hm' : m < toCanon.length := by omega
      obtain rfl := CanonRef.canon.inj hmr
      rw [List.getD_eq_getElem?_getD, List.getElem?_eq_getElem hm', Option.getD_some]
      obtain ⟨u, -, hu⟩ := hp.types m _ (List.getElem?_eq_getElem hm')
      rw [hu]
      simp
  · rw [if_neg hstop] at hpt
    cases hpt

/-- Resolving a module index of the group inside the group is looking it up among the ids
answered up to and including the group. -/
theorem resolve_moduleRef {stop m : ℕ} (hlen : toCanon.length + ms.length = stop) (hm : m < stop) :
    resolve ms (moduleRef toCanon.length stop toCanon m) = (toCanon ++ ms).getD m 0 := by
  unfold moduleRef
  by_cases hb : toCanon.length ≤ m
  · rw [if_pos ⟨hb, hm⟩, resolve, List.getD_eq_getElem?_getD, List.getD_eq_getElem?_getD,
      List.getElem?_append_right hb]
  · rw [if_neg (by omega), resolve, List.getD_eq_getElem?_getD, List.getD_eq_getElem?_getD,
      List.getElem?_append_left (by omega)]

/-- One round of `intern_module`: the answered ids grow by one whole group. -/
theorem Prefixed.extend (hp : Prefixed types r toCanon) (hv : ForwardClosed types)
    (hbase : toCanon.length < types.length) (hw : WF r) (hw' : WF r') (hk : Keeps r' r)
    (ha : Answer r' (buildKey types toCanon.length (groupEnd types toCanon.length) toCanon) ms) :
    Prefixed types r' (toCanon ++ ms) := by
  have hself := lt_groupEnd_self hbase
  have hle := groupEnd_le hbase
  have hlen : toCanon.length + ms.length = groupEnd types toCanon.length := by
    rw [ha.length, buildKey_length (by omega) hle]
    omega
  refine ⟨?_, ?_⟩
  · intro i t hi ht m hm
    rw [List.length_append, hlen] at hi ⊢
    by_cases hib : i < toCanon.length
    · have := hp.closed i t hib ht m hm
      omega
    · exact hv.lt_groupEnd (by omega) hi ht hm
  · intro i id hid
    by_cases hib : i < toCanon.length
    · rw [List.getElem?_append_left hib] at hid
      obtain ⟨t, ht, hty⟩ := hp.types i id hid
      refine ⟨t, ht, ?_⟩
      rw [Keeps.type? hw hw' hk hty]
      congr 1
      apply absolute_congr
      intro m hm
      have := hp.closed i t hib ht m hm
      rw [List.getD_eq_getElem?_getD, List.getD_eq_getElem?_getD, List.getElem?_append_left this]
    · rw [List.getElem?_append_right (by omega)] at hid
      have hi : i < groupEnd types toCanon.length := by
        have := (List.getElem?_eq_some_iff.mp hid).1
        omega
      have hty := ha.types _ id hid
      rw [buildKey_getElem?, if_pos (by omega),
        show toCanon.length + (i - toCanon.length) = i from by omega,
        List.getElem?_eq_getElem (by omega)] at hty
      have hti : types[i]? = some types[i] := List.getElem?_eq_getElem (by omega)
      refine ⟨types[i], hti, ?_⟩
      rw [hty, Option.map_some, Option.map_some]
      congr 1
      apply canonType_typeKey
      intro m hm
      exact resolve_moduleRef hlen (hv.lt_groupEnd (by omega) hi hti hm)

/-- The sizes of the recursion groups from `base` on. -/
def groupSizesFrom (types : List ModuleType) : ℕ → ℕ → List ℕ
  | 0, _ => []
  | fuel + 1, base =>
    if base < types.length then
      (groupEnd types base - base) :: groupSizesFrom types fuel (groupEnd types base)
    else []

/-- Each block is the full list of ids of one registered group. -/
def Blocks (r : TypeRegistry) (blocks : List (List CanonicalTypeId)) : Prop :=
  ∀ ms ∈ blocks, ∀ id ∈ ms, r.recGroup id = some ms

/-- The whole of `intern_module`, from any point of its loop on. -/
theorem internModuleFrom_spec (hv : ForwardClosed types) (fuel : ℕ) {registered gs : List GroupId}
    (hw : WF r) (hc : Counted r due) (hp : Prefixed types r toCanon)
    (hlen : toCanon.length ≤ types.length) (hfuel : types.length ≤ toCanon.length + fuel)
    (h : internModuleFrom types fuel r toCanon.length toCanon registered = some ((ids, gs), r')) :
    ∃ new blocks, gs = registered ++ new ∧ ids = toCanon ++ blocks.flatten ∧ WF r' ∧
      Counted r' (fun h => due h + new.count h) ∧ Keeps r' r ∧ Prefixed types r' ids ∧
      ids.length = types.length ∧ Blocks r' blocks ∧
      blocks.map List.length = groupSizesFrom types fuel toCanon.length ∧ Adds r r' ids := by
  induction fuel generalizing r toCanon registered due with
  | zero =>
    simp only [internModuleFrom, Option.some.injEq, Prod.mk.injEq] at h
    obtain ⟨⟨rfl, rfl⟩, rfl⟩ := h
    exact ⟨[], [], by simp, by simp, hw, by simpa using hc, Keeps.refl _, hp, by omega,
      by simp [Blocks], rfl, Adds.of_types rfl _⟩
  | succ fuel ih =>
    rw [internModuleFrom] at h
    by_cases hbase : toCanon.length < types.length
    · rw [if_pos hbase] at h
      have hself := lt_groupEnd_self hbase
      have hle := groupEnd_le hbase
      simp only [Option.bind_eq_bind, Option.bind_eq_some_iff, Prod.exists] at h
      obtain ⟨g, r₁, hintern, ms, hms, hrest⟩ := h
      have hkl := buildKey_length (Nat.le_of_lt hself) hle toCanon
      rw [← hkl] at hintern
      obtain ⟨hw₁, hc₁, hk₁, ha, hadds⟩ := internGroup_answer hw hc (hp.key_live hv) hintern hms
      have hp₁ := hp.extend hv hbase hw hw₁ hk₁ ha
      have hstop : (toCanon ++ ms).length = groupEnd types toCanon.length := by
        rw [List.length_append, ha.length, hkl]
        omega
      rw [← hstop] at hrest
      obtain ⟨new, blocks, rfl, rfl, hw', hc', hk', hp', hlen', hbl, hsz, hadds'⟩ :=
        ih hw₁ hc₁ hp₁ (by omega) (by omega) hrest
      refine ⟨g :: new, ms :: blocks, by simp, by simp, hw', ?_, hk'.trans hk₁, ?_, hlen', ?_, ?_,
        fun id hid => ?_⟩
      · have : (fun h => due h + (g :: new).count h) =
            fun h => due h + (if h = g then 1 else 0) + new.count h := by
          funext h
          rw [count_cons_eq]
          omega
        rwa [this]
      · simpa using hp'
      · intro ms' hms' id hid
        rcases List.mem_cons.mp hms' with rfl | hms'
        · exact (Keeps.recGroup hw₁ hw' hk' (ha.group id hid)).1
        · exact hbl ms' hms' id hid
      · rw [groupSizesFrom, if_pos hbase, List.map_cons, hsz, hstop, ha.length, hkl]
      · -- The ids of this group are among those answered in the end.
        refine (hadds' id hid).elim (fun hid => (hadds id hid).imp_right fun hid => ?_) Or.inr
        exact List.mem_append_left _ (List.mem_append_right _ hid)
    · rw [if_neg hbase] at h
      simp only [Option.some.injEq, Prod.mk.injEq] at h
      obtain ⟨⟨rfl, rfl⟩, rfl⟩ := h
      exact ⟨[], [], by simp, by simp, hw, by simpa using hc, Keeps.refl _, hp, by omega,
        by simp [Blocks], by rw [groupSizesFrom, if_neg hbase]; rfl, Adds.of_types rfl _⟩

/-! ## Host-built types -/

/-- A host-built group resolves its indices to its own ids and to the given outer ids. -/
def hostId (ids externals : List CanonicalTypeId) (mi : ℕ) : CanonicalTypeId :=
  if mi < ids.length then ids.getD mi 0 else externals.getD (mi - ids.length) 0

/-- The group a single host-built type is: its indices are ids already. -/
def single (finality : Finality) (supertype : Option CanonicalTypeId) (body : CompositeBody) :
    ModuleType := ⟨0, finality, supertype, body⟩

theorem internOne_spec (hw : WF r) (hc : Counted r due) (hlive : ∀ m ∈ t.refs, r.type? m ≠ none)
    (h : r.internOne t.finality t.supertype (bodyKey .canon t.body) = some ((id, g), r')) :
    WF r' ∧ Counted r' (fun h => due h + if h = g then 1 else 0) ∧ Keeps r' r ∧
      r'.type? id = some (absolute (fun m => m) t) ∧ r'.recGroup id = some [id] ∧
      Adds r r' [id] := by
  have hkey : ([⟨t.finality, t.supertype.map .canon, bodyKey .canon t.body⟩] : CGroup) =
      [typeKey .canon t] := rfl
  rw [internOne, hkey] at h
  simp only [Option.bind_eq_bind, Option.bind_eq_some_iff, Prod.exists, Option.pure_def,
    Option.some.injEq, Prod.mk.injEq] at h
  obtain ⟨g₁, r₁, hintern, ms, hms, id₁, hid, ⟨rfl, rfl⟩, rfl⟩ := h
  have hlive' : ∀ id ∈ edgeCanonIds [typeKey .canon t], r.type? id ≠ none := by
    intro id hid
    obtain ⟨ct, hct, href⟩ := mem_edgeCanonIds.mp hid
    rw [List.mem_singleton] at hct
    rw [hct, typeKey_refs, List.mem_map] at href
    obtain ⟨m, hm, hmr⟩ := href
    rw [← CanonRef.canon.inj hmr]
    exact hlive m hm
  obtain ⟨hw', hc', hk', ha, hadds⟩ := internGroup_answer hw hc hlive' hintern hms
  obtain ⟨x, rfl⟩ := List.length_eq_one_iff.mp ha.length
  obtain rfl : x = id₁ := by simpa using hid
  refine ⟨hw', hc', hk', ?_, ha.group x List.mem_cons_self, hadds⟩
  rw [ha.types 0 x rfl]
  show some (canonType [x] (typeKey .canon t)) = _
  rw [@canonType_typeKey _ _ (fun m => m) _ fun m _ => rfl]

section

variable {members : List ModuleType} {externals : List CanonicalTypeId}

/-- A host-built group is interned under a key that mentions live ids only. -/
theorem internHostGroup_key (hext : ∀ id ∈ externals, r.type? id ≠ none)
    (hrange : ∀ t ∈ members, ∀ m ∈ t.refs, m < members.length + externals.length)
    (h : r.internHostGroup members externals = some ((ids, g), r')) :
    r.internGroup (members.map (typeKey (hostRef members.length externals)))
      (members.map (typeKey (hostRef members.length externals))).length = some (g, r') ∧
      r'.membersOf g = some ids ∧
      ∀ id ∈ edgeCanonIds (members.map (typeKey (hostRef members.length externals))),
        r.type? id ≠ none := by
  simp only [internHostGroup, Option.bind_eq_bind, Option.bind_eq_some_iff, Prod.exists,
    Option.pure_def, Option.some.injEq, Prod.mk.injEq] at h
  obtain ⟨g₁, r₁, hintern, ms, hms, ⟨rfl, rfl⟩, rfl⟩ := h
  refine ⟨?_, hms, fun id hid => ?_⟩
  · rw [List.length_map]
    exact hintern
  · obtain ⟨ct, hct, href⟩ := mem_edgeCanonIds.mp hid
    obtain ⟨t, ht, rfl⟩ := List.mem_map.mp hct
    rw [typeKey_refs, List.mem_map] at href
    obtain ⟨m, hm, hmr⟩ := href
    have hlt := hrange t ht m hm
    unfold hostRef at hmr
    split at hmr
    · cases hmr
    · obtain rfl := CanonRef.canon.inj hmr
      apply hext
      rw [List.getD_eq_getElem?_getD, List.getElem?_eq_getElem (by omega), Option.getD_some]
      exact List.getElem_mem _

theorem internHostGroup_spec (hw : WF r) (hc : Counted r due)
    (hext : ∀ id ∈ externals, r.type? id ≠ none)
    (hrange : ∀ t ∈ members, ∀ m ∈ t.refs, m < members.length + externals.length)
    (h : r.internHostGroup members externals = some ((ids, g), r')) :
    WF r' ∧ Counted r' (fun h => due h + if h = g then 1 else 0) ∧ Keeps r' r ∧
      ids.map r'.type? = (members.map (absolute (hostId ids externals))).map some ∧
      (∀ id ∈ ids, r'.recGroup id = some ids) ∧ Adds r r' ids := by
  obtain ⟨hintern, hms, hlive⟩ := internHostGroup_key hext hrange h
  obtain ⟨hw', hc', hk', ha, hadds⟩ := internGroup_answer hw hc hlive hintern hms
  refine ⟨hw', hc', hk', ?_, ha.group, hadds⟩
  have hlen : ids.length = members.length := ha.length.trans (List.length_map _)
  apply List.ext_getElem?
  intro p
  rw [List.getElem?_map, List.map_map, List.getElem?_map]
  by_cases hp : p < ids.length
  · have hp' : p < members.length := hlen ▸ hp
    rw [List.getElem?_eq_getElem hp, List.getElem?_eq_getElem hp', Option.map_some,
      Option.map_some, ha.types p _ (List.getElem?_eq_getElem hp), List.getElem?_map,
      List.getElem?_eq_getElem hp', Option.map_some, Option.map_some]
    congr 2
    apply canonType_typeKey
    intro m hm
    unfold hostRef hostId
    rw [hlen]
    split <;> rfl
  · rw [List.getElem?_eq_none (by omega), List.getElem?_eq_none (by omega)]
    rfl

end

/-! ## Histories of the front ends -/

/-- An interning by one of the front ends, or an operation on the counts. -/
inductive FrontOp where
  | module (types : List ModuleType)
  | func (params results : List ValType)
  | struct (finality : Finality) (supertype : Option CanonicalTypeId) (fields : List FieldType)
  | array (finality : Finality) (supertype : Option CanonicalTypeId) (field : FieldType)
  | hostGroup (members : List ModuleType) (externals : List CanonicalTypeId)
  | count (op : RegOp)

/-- Performs the operation and returns the ids it answers. -/
def FrontOp.step (l : Ledger) : FrontOp → Option (List CanonicalTypeId × Ledger)
  | .module types => do
    let ((ids, gs), r) ← l.reg.internModule types
    return (ids, ⟨r, l.held ++ gs⟩)
  | .func params results => do
    let ((id, g), r) ← l.reg.internFunc params results
    return ([id], ⟨r, g :: l.held⟩)
  | .struct finality supertype fields => do
    let ((id, g), r) ← l.reg.internStruct finality supertype fields
    return ([id], ⟨r, g :: l.held⟩)
  | .array finality supertype field => do
    let ((id, g), r) ← l.reg.internArray finality supertype field
    return ([id], ⟨r, g :: l.held⟩)
  | .hostGroup members externals => do
    let ((ids, g), r) ← l.reg.internHostGroup members externals
    return (ids, ⟨r, g :: l.held⟩)
  | .count op => do
    let l ← op.step l
    return ([], l)

/-- The types requested and how their indices read, once `ids` has been answered. -/
def FrontOp.requested (ids : List CanonicalTypeId) : FrontOp → List CanonType
  | .module types => types.map (absolute fun m => ids.getD m 0)
  | .func params results => [absolute (fun m => m)
      (single .final none (.func (params.map ValType.toIr) (results.map ValType.toIr)))]
  | .struct finality supertype fields => [absolute (fun m => m)
      (single finality supertype (.struct (fields.map FieldType.toIr)))]
  | .array finality supertype field => [absolute (fun m => m)
      (single finality supertype (.array field.toIr))]
  | .hostGroup members externals => members.map (absolute (hostId ids externals))
  | .count _ => []

/-- The sizes of the recursion groups requested, in order. -/
def FrontOp.groupSizes : FrontOp → List ℕ
  | .module types => groupSizesFrom types types.length 0
  | .func _ _ => [1]
  | .struct _ _ _ => [1]
  | .array _ _ _ => [1]
  | .hostGroup members _ => [members.length]
  | .count _ => []

/-- What the front ends are given: a validated type section; handles of live types; indices in
range. -/
def FrontOp.Admitted (l : Ledger) : FrontOp → Prop
  | .module types => ForwardClosed types
  | .func params results =>
    ∀ id ∈ (single .final none (.func (params.map ValType.toIr) (results.map ValType.toIr))).refs,
      l.reg.type? id ≠ none
  | .struct finality supertype fields =>
    ∀ id ∈ (single finality supertype (.struct (fields.map FieldType.toIr))).refs,
      l.reg.type? id ≠ none
  | .array finality supertype field =>
    ∀ id ∈ (single finality supertype (.array field.toIr)).refs, l.reg.type? id ≠ none
  | .hostGroup members externals => (∀ id ∈ externals, l.reg.type? id ≠ none) ∧
    ∀ t ∈ members, ∀ m ∈ t.refs, m < members.length + externals.length
  | .count op => op.Admitted l

/-- The ledgers reached by the operations the front ends admit. -/
inductive FrontReached : List FrontOp → Ledger → Prop where
  | start : FrontReached [] Ledger.start
  | step {ops : List FrontOp} {l l' : Ledger} {op : FrontOp} {ids : List CanonicalTypeId} :
      FrontReached ops l → op.Admitted l → op.step l = some (ids, l') →
      FrontReached (ops ++ [op]) l'

/-- The ids `ids` answer the request `op`: each id's registered type is the requested one, and
the ids of a requested recursion group are exactly the members of one registered group. -/
def FrontOp.Answers (op : FrontOp) (ids : List CanonicalTypeId) (r : TypeRegistry) : Prop :=
  ids.map r.type? = (op.requested ids).map some ∧
  ∃ blocks, blocks.flatten = ids ∧ blocks.map List.length = op.groupSizes ∧ Blocks r blocks

theorem Prefixed.answers (hp : Prefixed types r ids) (hlen : ids.length = types.length) :
    ids.map r.type? = (types.map (absolute fun m => ids.getD m 0)).map some := by
  apply List.ext_getElem?
  intro i
  rw [List.getElem?_map, List.map_map, List.getElem?_map]
  by_cases hi : i < ids.length
  · obtain ⟨t, ht, hty⟩ := hp.types i _ (List.getElem?_eq_getElem hi)
    rw [List.getElem?_eq_getElem hi, ht, Option.map_some, hty]
    rfl
  · rw [List.getElem?_eq_none (by omega), List.getElem?_eq_none (by omega)]
    rfl

/-- A live id of a registry that only lost groups was live before. -/
theorem Keeps.adds (hw : WF r) (hw' : WF r') (hk : Keeps r r')
    (ids : List CanonicalTypeId) : Adds r r' ids := by
  intro id hid
  obtain ⟨t, ht⟩ := Option.ne_none_iff_exists'.mp hid
  exact Or.inl (by simp [Keeps.type? hw' hw hk ht])

theorem RegOp.step_grows {l' : Ledger} (hb : l.Balanced) {op : RegOp} (hop : op.Admitted l)
    (hi : ∀ key, op ≠ .intern key) (h : op.step l = some l') :
    (Keeps l'.reg l.reg ∨ Keeps l.reg l'.reg) ∧ Adds l.reg l'.reg [] := by
  obtain ⟨l₂, hstep, hb', hk, hkept⟩ := RegOp.step_spec hb hop
  rw [h] at hstep
  obtain rfl := Option.some.inj hstep
  exact ⟨hk, (hkept hi).elim (Adds.of_types · []) fun hk => Keeps.adds hb.wf hb'.wf hk []⟩

/-- A single host-built type, whichever of the three kinds it is. -/
theorem single_step (hb : l.Balanced) (hlive : ∀ m ∈ t.refs, l.reg.type? m ≠ none)
    (h : l.reg.internOne t.finality t.supertype (bodyKey .canon t.body) = some ((id, g), r')) :
    (⟨r', g :: l.held⟩ : Ledger).Balanced ∧
      [id].map r'.type? = [absolute (fun m => m) t].map some ∧
      (∃ blocks : List (List CanonicalTypeId), blocks.flatten = [id] ∧
        blocks.map List.length = [1] ∧ Blocks r' blocks) ∧
      Keeps r' l.reg ∧ Adds l.reg r' [id] := by
  obtain ⟨hw', hc', hk', hty, hgr, hadds⟩ := internOne_spec hb.wf hb.counted hlive h
  refine ⟨⟨hw', by simpa only [count_cons_eq] using hc'⟩, by simp [hty], ⟨[[id]], rfl, rfl, ?_⟩,
    hk', hadds⟩
  intro ms hms x hx
  obtain rfl := List.mem_singleton.mp hms
  obtain rfl := List.mem_singleton.mp hx
  exact hgr

theorem FrontOp.step_spec {l' : Ledger} (hb : l.Balanced) {op : FrontOp} (hop : op.Admitted l)
    (h : op.step l = some (ids, l')) : l'.Balanced ∧ op.Answers ids l'.reg ∧
      (Keeps l'.reg l.reg ∨ Keeps l.reg l'.reg) ∧
      ((∀ key, op ≠ .count (.intern key)) → Adds l.reg l'.reg ids) := by
  cases op with
  | module types =>
    simp only [FrontOp.step, Option.bind_eq_bind, Option.bind_eq_some_iff, Prod.exists,
      Option.pure_def, Option.some.injEq, Prod.mk.injEq] at h
    obtain ⟨ids₁, gs, r', hmod, rfl, rfl⟩ := h
    have hp : Prefixed types l.reg [] := ⟨by simp, by simp⟩
    obtain ⟨new, blocks, rfl, rfl, hw', hc', hk', hp', hlen, hbl, hsz, hadds⟩ :=
      internModuleFrom_spec hop types.length hb.wf hb.counted hp (Nat.zero_le _) (by simp) hmod
    refine ⟨⟨hw', ?_⟩, ⟨hp'.answers hlen, blocks, by simp, hsz, hbl⟩, Or.inl hk', fun _ => hadds⟩
    simpa only [List.nil_append, List.count_append] using hc'
  | func params results =>
    simp only [FrontOp.step, internFunc, funcBody_eq, Option.bind_eq_bind,
      Option.bind_eq_some_iff, Prod.exists, Option.pure_def, Option.some.injEq,
      Prod.mk.injEq] at h
    obtain ⟨id, g, r', hone, rfl, rfl⟩ := h
    obtain ⟨hb', hty, hblocks, hk', hadds⟩ := single_step hb hop hone
    exact ⟨hb', ⟨hty, hblocks⟩, Or.inl hk', fun _ => hadds⟩
  | struct finality supertype fields =>
    simp only [FrontOp.step, internStruct, structBody_eq, Option.bind_eq_bind,
      Option.bind_eq_some_iff, Prod.exists, Option.pure_def, Option.some.injEq,
      Prod.mk.injEq] at h
    obtain ⟨id, g, r', hone, rfl, rfl⟩ := h
    obtain ⟨hb', hty, hblocks, hk', hadds⟩ := single_step hb hop hone
    exact ⟨hb', ⟨hty, hblocks⟩, Or.inl hk', fun _ => hadds⟩
  | array finality supertype field =>
    simp only [FrontOp.step, internArray, arrayBody_eq, Option.bind_eq_bind,
      Option.bind_eq_some_iff, Prod.exists, Option.pure_def, Option.some.injEq,
      Prod.mk.injEq] at h
    obtain ⟨id, g, r', hone, rfl, rfl⟩ := h
    obtain ⟨hb', hty, hblocks, hk', hadds⟩ := single_step hb hop hone
    exact ⟨hb', ⟨hty, hblocks⟩, Or.inl hk', fun _ => hadds⟩
  | hostGroup members externals =>
    simp only [FrontOp.step, Option.bind_eq_bind, Option.bind_eq_some_iff, Prod.exists,
      Option.pure_def, Option.some.injEq, Prod.mk.injEq] at h
    obtain ⟨ids₁, g, r', hgroup, rfl, rfl⟩ := h
    obtain ⟨hw', hc', hk', hty, hgr, hadds⟩ :=
      internHostGroup_spec hb.wf hb.counted hop.1 hop.2 hgroup
    have hlen : ids₁.length = members.length := by
      simpa using congrArg List.length hty
    refine ⟨⟨hw', by simpa only [count_cons_eq] using hc'⟩, ⟨hty, [ids₁], by simp,
      by simp [FrontOp.groupSizes, hlen], ?_⟩, Or.inl hk', fun _ => hadds⟩
    intro ms hms x hx
    obtain rfl := List.mem_singleton.mp hms
    exact hgr x hx
  | count op =>
    simp only [FrontOp.step, Option.bind_eq_bind, Option.bind_eq_some_iff, Option.pure_def,
      Option.some.injEq, Prod.mk.injEq] at h
    obtain ⟨l₁, hstep, rfl, rfl⟩ := h
    obtain ⟨l₂, hstep', hb', hk, -⟩ := RegOp.step_spec hb hop
    rw [hstep] at hstep'
    obtain rfl := Option.some.inj hstep'
    refine ⟨hb', ⟨rfl, [], rfl, rfl, by simp [Blocks]⟩, hk, fun hi => ?_⟩
    exact (RegOp.step_grows hb hop (fun key h => hi key (congrArg _ h)) hstep).2

theorem FrontReached.balanced {ops : List FrontOp} (h : FrontReached ops l) : l.Balanced := by
  induction h with
  | start => exact Ledger.balanced_start
  | step _ hop hstep ih => exact (FrontOp.step_spec ih hop hstep).1

/-- **Canonical type identity.**  At every point of every history: two live types have one id
iff their recursion groups have the same shape, outer references compared by id, and they sit
at the same position, and also iff the full unfoldings of the two groups agree; and an
interning answers ids whose registered types and groups are the requested ones. -/
theorem canonical_identity (ops : List FrontOp) (l : Ledger) (h : FrontReached ops l) :
    (∀ a b, l.reg.type? a ≠ none → l.reg.type? b ≠ none →
      ∃ ma mb, l.reg.recGroup a = some ma ∧ l.reg.recGroup b = some mb ∧
        (a = b ↔ l.reg.shape ma = l.reg.shape mb ∧ ma.idxOf a = mb.idxOf b) ∧
        (a = b ↔ l.reg.SameTypes a b)) ∧
    (∀ (op : FrontOp) ids l', op.Admitted l → op.step l = some (ids, l') →
      op.Answers ids l'.reg) := by
  have hb := h.balanced
  constructor
  · intro a b ha hb'
    obtain ⟨ma, hma⟩ := hb.wf.recGroup_isSome ha
    obtain ⟨mb, hmb⟩ := hb.wf.recGroup_isSome hb'
    exact ⟨ma, mb, hma, hmb, hb.wf.eq_iff_shape hma hmb,
      hb.wf.eq_iff_sameTypes (by simp [hma])⟩
  · intro op ids l' hop hstep
    exact (FrontOp.step_spec hb hop hstep).2.1

/-- A module with a self-referential struct, and the same struct built by an embedder: one id. -/
def nodeType : ModuleType :=
  ⟨0, .final, none, .struct [⟨true, .val (.ref true (.concrete 0 .struct))⟩]⟩

theorem canonical_identity_node :
    (∃ l, FrontReached [.module [nodeType]] l ∧
      FrontOp.step l (.hostGroup [nodeType] []) = some ([0], ⟨{ l.reg with
        groups := [some ⟨[typeKey .rel nodeType], [0], 2⟩] }, [0, 0]⟩) ∧
      FrontOp.Answers (.hostGroup [nodeType] []) [0] { l.reg with
        groups := [some ⟨[typeKey .rel nodeType], [0], 2⟩] }) := by
  have hvalid : ForwardClosed [nodeType] := by
    intro i t ht m hm
    match i with
    | 0 =>
      obtain rfl := Option.some.inj ht
      obtain rfl : m = 0 := by simpa [nodeType, ModuleType.refs, CompositeBody.refs,
        IrField.refs, IrVal.refs] using hm
      exact ⟨by decide, fun j h1 h2 => by omega⟩
    | n + 1 => cases ht
  have h1 : FrontReached [.module [nodeType]]
      ⟨⟨[some (absolute (fun m => m) nodeType)], [some 0], [],
        [some ⟨[typeKey .rel nodeType], [0], 1⟩], [], [([typeKey .rel nodeType], 0)]⟩, [0]⟩ :=
    @FrontReached.step _ _ _ (.module [nodeType]) _ FrontReached.start hvalid (by rfl)
  have hop : FrontOp.Admitted ⟨⟨[some (absolute (fun m => m) nodeType)], [some 0], [],
        [some ⟨[typeKey .rel nodeType], [0], 1⟩], [], [([typeKey .rel nodeType], 0)]⟩, [0]⟩
      (.hostGroup [nodeType] []) := by
    refine ⟨by simp, ?_⟩
    simp [nodeType, ModuleType.refs, CompositeBody.refs, IrField.refs, IrVal.refs]
  exact ⟨_, h1, by rfl, (canonical_identity _ _ h1).2 _ _ _ hop (by rfl)⟩

end TypeRegistry

end SubmilliWasm
