/-
# The recursion group builder

`RecGroupBuilder` (`src/value/rec_group/`) lets an embedder define a whole recursion group:
the members are lowered to module IR, in which an index below the number of members is a
sibling and any other one an entry of a table of outer types (`lower.rs`); the group is
interned; and only then are the declared supertypes validated (`validate.rs`), a failure
giving the registration back.
-/
import SubmilliWasm.Lib.Fallible
import SubmilliWasm.Canon.FrontEnds
import SubmilliWasm.Canon.Matches

namespace SubmilliWasm

open Fallible

/-! ## Definitions of members -/

/-- A handle to a type being defined. -/
structure PendingType where
  index : ℕ
  kind : AggKind
  deriving DecidableEq, Repr

inductive FieldDef where
  | registered (ty : FieldType)
  | forward (target : PendingType) (mutable nullable : Bool)
  deriving DecidableEq, Repr

inductive ValDef where
  | registered (ty : ValType)
  | forward (target : PendingType) (nullable : Bool)
  deriving DecidableEq, Repr

/-- A declared supertype: a sibling by index, or a type registered before. -/
inductive SuperDef where
  | forward (index : ℕ)
  | struct (id : CanonicalTypeId)
  | array (id : CanonicalTypeId)
  | func (id : CanonicalTypeId)
  deriving DecidableEq, Repr

inductive MemberDef where
  | struct (finality : Finality) (supertype : Option SuperDef) (fields : List FieldDef)
  | array (finality : Finality) (supertype : Option SuperDef) (element : FieldDef)
  | func (finality : Finality) (supertype : Option SuperDef) (params results : List ValDef)
  deriving DecidableEq, Repr

def MemberDef.supertype : MemberDef → Option SuperDef
  | .struct _ s _ | .array _ s _ | .func _ s _ _ => s

/-! ## Lowering -/

/-- Records an outer id in the table and returns its combined index. -/
def external (n : ℕ) (id : CanonicalTypeId) (ext : List CanonicalTypeId) :
    ℕ × List CanonicalTypeId := (n + ext.length, ext ++ [id])

def superIndex (n : ℕ) (s : SuperDef) (ext : List CanonicalTypeId) : ℕ × List CanonicalTypeId :=
  match s with
  | .forward index => (index, ext)
  | .struct t | .array t | .func t => external n t ext

def registeredHeapIr (n : ℕ) (h : HeapType) (ext : List CanonicalTypeId) :
    IrHeap × List CanonicalTypeId :=
  match h with
  | .concreteStruct t => let (m, ext) := external n t ext; (.concrete m .struct, ext)
  | .concreteArray t => let (m, ext) := external n t ext; (.concrete m .array, ext)
  | .concreteFunc t => let (m, ext) := external n t ext; (.concrete m .func, ext)
  | .func => (.func, ext)
  | .noFunc => (.noFunc, ext)
  | .extern_ => (.extern_, ext)
  | .noExtern => (.noExtern, ext)
  | .any => (.any, ext)
  | .eq => (.eq, ext)
  | .i31 => (.i31, ext)
  | .struct => (.struct, ext)
  | .array => (.array, ext)
  | .exn => (.exn, ext)
  | .noExn => (.noExn, ext)
  | .none => (.none, ext)

def registeredValIr (n : ℕ) (v : ValType) (ext : List CanonicalTypeId) :
    IrVal × List CanonicalTypeId :=
  match v with
  | .i32 => (.i32, ext)
  | .i64 => (.i64, ext)
  | .f32 => (.f32, ext)
  | .f64 => (.f64, ext)
  | .v128 => (.v128, ext)
  | .ref nullable heap =>
    let (heap, ext) := registeredHeapIr n heap ext
    (.ref nullable heap, ext)

def registeredFieldIr (n : ℕ) (f : FieldType) (ext : List CanonicalTypeId) :
    IrField × List CanonicalTypeId :=
  match f.elementType with
  | .i8 => (⟨f.mutability == .var, .i8⟩, ext)
  | .i16 => (⟨f.mutability == .var, .i16⟩, ext)
  | .valType v =>
    let (v, ext) := registeredValIr n v ext
    (⟨f.mutability == .var, .val v⟩, ext)

def fieldIr (n : ℕ) (f : FieldDef) (ext : List CanonicalTypeId) :
    IrField × List CanonicalTypeId :=
  match f with
  | .registered ty => registeredFieldIr n ty ext
  | .forward target mutable nullable =>
    (⟨mutable, .val (.ref nullable (.concrete target.index target.kind))⟩, ext)

def valIr (n : ℕ) (v : ValDef) (ext : List CanonicalTypeId) : IrVal × List CanonicalTypeId :=
  match v with
  | .registered ty => registeredValIr n ty ext
  | .forward target nullable => (.ref nullable (.concrete target.index target.kind), ext)

/-- Lowers a list from left to right, the table growing on the way. -/
def lowerEach {α β : Type} (f : α → List CanonicalTypeId → β × List CanonicalTypeId) :
    List α → List CanonicalTypeId → List β × List CanonicalTypeId
  | [], ext => ([], ext)
  | a :: as, ext =>
    let (b, ext) := f a ext
    let (bs, ext) := lowerEach f as ext
    (b :: bs, ext)

def lowerSuper (n : ℕ) (s : Option SuperDef) (ext : List CanonicalTypeId) :
    Option ℕ × List CanonicalTypeId :=
  match s with
  | none => (none, ext)
  | some s =>
    let (m, ext) := superIndex n s ext
    (some m, ext)

/-- Lowers one member; the supertype's entry precedes those of the body. -/
def lower (n : ℕ) (d : MemberDef) (ext : List CanonicalTypeId) :
    (ModuleType × AggKind) × List CanonicalTypeId :=
  match d with
  | .struct finality s fields =>
    let (s, ext) := lowerSuper n s ext
    let (fields, ext) := lowerEach (fieldIr n) fields ext
    ((⟨0, finality, s, .struct fields⟩, .struct), ext)
  | .array finality s element =>
    let (s, ext) := lowerSuper n s ext
    let (element, ext) := fieldIr n element ext
    ((⟨0, finality, s, .array element⟩, .array), ext)
  | .func finality s params results =>
    let (s, ext) := lowerSuper n s ext
    let (params, ext) := lowerEach (valIr n) params ext
    let (results, ext) := lowerEach (valIr n) results ext
    ((⟨0, finality, s, .func params results⟩, .func), ext)

/-! ## What lowering produces -/

/-- The lowering `m` appends to the table ids that satisfy `S`, and what it produces refers to
siblings and to entries of the table it leaves. -/
def Lowers {β : Type} (n : ℕ) (S : CanonicalTypeId → Prop) (refs : β → List ℕ)
    (m : List CanonicalTypeId → β × List CanonicalTypeId) : Prop :=
  ∀ ext, ∃ new, (m ext).2 = ext ++ new ∧ (∀ id ∈ new, S id) ∧
    ∀ k ∈ refs (m ext).1, k < n + (ext ++ new).length

/-- What the embedder hands over: ids of registered types and siblings of the group. -/
def FieldDef.Owned (S : CanonicalTypeId → Prop) (n : ℕ) : FieldDef → Prop
  | .registered ty => ∀ id ∈ ty.ids, S id
  | .forward target _ _ => target.index < n

def ValDef.Owned (S : CanonicalTypeId → Prop) (n : ℕ) : ValDef → Prop
  | .registered ty => ∀ id ∈ ty.ids, S id
  | .forward target _ => target.index < n

def SuperDef.Owned (S : CanonicalTypeId → Prop) (n : ℕ) : SuperDef → Prop
  | .forward index => index < n
  | .struct id | .array id | .func id => S id

def MemberDef.Owned (S : CanonicalTypeId → Prop) (n : ℕ) : MemberDef → Prop
  | .struct _ s fields => (∀ x ∈ s, x.Owned S n) ∧ ∀ f ∈ fields, f.Owned S n
  | .array _ s element => (∀ x ∈ s, x.Owned S n) ∧ element.Owned S n
  | .func _ s params results =>
    (∀ x ∈ s, x.Owned S n) ∧ (∀ v ∈ params, v.Owned S n) ∧ ∀ v ∈ results, v.Owned S n

section

variable {n : ℕ} {S : CanonicalTypeId → Prop} {β γ : Type}

/-- A lowering that leaves the table alone. -/
theorem Lowers.const {refs : β → List ℕ} {b : β} (h : ∀ k ∈ refs b, k < n) :
    Lowers n S refs fun ext => (b, ext) := by
  intro ext
  refine ⟨[], (List.append_nil ext).symm, fun id hid => absurd hid List.not_mem_nil,
    fun k hk => ?_⟩
  exact lt_of_lt_of_le (h k hk) (Nat.le_add_right _ _)

theorem external_lowers {id : CanonicalTypeId} (h : S id) :
    Lowers n S (fun m => [m]) (external n id) := by
  intro ext
  refine ⟨[id], rfl, fun x hx => ?_, fun k hk => ?_⟩
  · obtain rfl := List.mem_singleton.mp hx
    exact h
  · obtain rfl := List.mem_singleton.mp hk
    rw [List.length_append, List.length_singleton]
    exact Nat.add_lt_add_left (Nat.lt_succ_self _) n

/-- Wrapping what is produced, without new references. -/
theorem Lowers.map {refs : β → List ℕ} {refs' : γ → List ℕ}
    {m : List CanonicalTypeId → β × List CanonicalTypeId} (h : Lowers n S refs m) (f : β → γ)
    (hf : ∀ b, refs' (f b) = refs b) : Lowers n S refs' fun ext => (f (m ext).1, (m ext).2) := by
  intro ext
  obtain ⟨new, hnew, hS, hrefs⟩ := h ext
  exact ⟨new, hnew, hS, fun k hk => hrefs k (hf _ ▸ hk)⟩

/-- One lowering after another. -/
theorem Lowers.seq {refs : β → List ℕ} {refs' : γ → List ℕ} {δ : Type} {refs'' : δ → List ℕ}
    {m : List CanonicalTypeId → β × List CanonicalTypeId}
    {m' : List CanonicalTypeId → γ × List CanonicalTypeId} (h : Lowers n S refs m)
    (h' : Lowers n S refs' m') (f : β → γ → δ) (hf : ∀ b c, refs'' (f b c) = refs b ++ refs' c) :
    Lowers n S refs'' fun ext => (f (m ext).1 (m' (m ext).2).1, (m' (m ext).2).2) := by
  intro ext
  obtain ⟨new, hnew, hS, hrefs⟩ := h ext
  obtain ⟨new', hnew', hS', hrefs'⟩ := h' (m ext).2
  rw [hnew] at hnew' hrefs'
  refine ⟨new ++ new', ?_, fun id hid => ?_, fun k hk => ?_⟩
  · show (m' (m ext).2).2 = ext ++ (new ++ new')
    rw [hnew, hnew', List.append_assoc]
  · exact (List.mem_append.mp hid).elim (hS id) (hS' id)
  · rw [← List.append_assoc, List.length_append]
    rw [hf] at hk
    rcases List.mem_append.mp hk with hk | hk
    · have := hrefs k hk
      omega
    · have := hrefs' k (hnew ▸ hk)
      rw [List.length_append] at this
      omega

theorem lowerEach_lowers {α : Type} {refs : β → List ℕ}
    {f : α → List CanonicalTypeId → β × List CanonicalTypeId} {l : List α}
    (h : ∀ a ∈ l, Lowers n S refs (f a)) :
    Lowers n S (fun bs => bs.flatMap refs) (lowerEach f l) := by
  induction l with
  | nil => exact Lowers.const fun k hk => absurd hk List.not_mem_nil
  | cons a l ih =>
    exact Lowers.seq (h a List.mem_cons_self) (ih fun b hb => h b (List.mem_cons_of_mem _ hb))
      List.cons fun b bs => List.flatMap_cons

theorem registeredValIr_lowers {v : ValType} (h : ∀ id ∈ v.ids, S id) :
    Lowers n S IrVal.refs (registeredValIr n v) := by
  cases v with
  | ref nullable heap =>
    cases heap with
    | concreteFunc id =>
      exact (external_lowers (h id List.mem_cons_self)).map
        (fun m => IrVal.ref nullable (.concrete m .func)) fun _ => rfl
    | concreteStruct id =>
      exact (external_lowers (h id List.mem_cons_self)).map
        (fun m => IrVal.ref nullable (.concrete m .struct)) fun _ => rfl
    | concreteArray id =>
      exact (external_lowers (h id List.mem_cons_self)).map
        (fun m => IrVal.ref nullable (.concrete m .array)) fun _ => rfl
    | _ => exact Lowers.const fun k hk => absurd hk List.not_mem_nil
  | _ => exact Lowers.const fun k hk => absurd hk List.not_mem_nil

theorem fieldIr_lowers {f : FieldDef} (h : f.Owned S n) :
    Lowers n S IrField.refs (fieldIr n f) := by
  cases f with
  | registered ty =>
    obtain ⟨mu, s⟩ := ty
    cases s with
    | valType v =>
      exact (registeredValIr_lowers (v := v) h).map (fun v => (⟨mu == .var, .val v⟩ : IrField))
        fun _ => rfl
    | _ => exact Lowers.const fun k hk => absurd hk List.not_mem_nil
  | forward target mutable nullable =>
    refine Lowers.const fun k hk => ?_
    obtain rfl := List.mem_singleton.mp hk
    exact h

theorem valIr_lowers {v : ValDef} (h : v.Owned S n) : Lowers n S IrVal.refs (valIr n v) := by
  cases v with
  | registered ty => exact registeredValIr_lowers h
  | forward target nullable =>
    refine Lowers.const fun k hk => ?_
    obtain rfl := List.mem_singleton.mp hk
    exact h

theorem lowerSuper_lowers {s : Option SuperDef} (h : ∀ x ∈ s, x.Owned S n) :
    Lowers n S Option.toList (lowerSuper n s) := by
  cases s with
  | none => exact Lowers.const fun k hk => absurd hk List.not_mem_nil
  | some s =>
    have hs : s.Owned S n := h s rfl
    cases s with
    | forward index =>
      refine Lowers.const fun k hk => ?_
      obtain rfl := List.mem_singleton.mp hk
      exact hs
    | struct id | array id | func id => exact (external_lowers hs).map some fun _ => rfl

theorem lower_lowers {d : MemberDef} (h : d.Owned S n) :
    Lowers n S (fun p : ModuleType × AggKind => p.1.refs) (lower n d) := by
  cases d with
  | struct finality s fields =>
    exact (lowerSuper_lowers h.1).seq (lowerEach_lowers fun f hf => fieldIr_lowers (h.2 f hf))
      (fun s fields => ((⟨0, finality, s, .struct fields⟩ : ModuleType), AggKind.struct))
      fun _ _ => rfl
  | array finality s element =>
    exact (lowerSuper_lowers h.1).seq (fieldIr_lowers h.2)
      (fun s element => ((⟨0, finality, s, .array element⟩ : ModuleType), AggKind.array))
      fun _ _ => rfl
  | func finality s params results =>
    have hsig : Lowers n S (fun p : List IrVal × List IrVal => (p.1 ++ p.2).flatMap IrVal.refs) _ :=
      (lowerEach_lowers fun v hv => valIr_lowers (h.2.1 v hv)).seq
        (lowerEach_lowers fun v hv => valIr_lowers (h.2.2 v hv)) Prod.mk
        fun _ _ => List.flatMap_append
    exact (lowerSuper_lowers h.1).seq hsig
      (fun s sig => ((⟨0, finality, s, .func sig.1 sig.2⟩ : ModuleType), AggKind.func))
      fun _ _ => rfl

/-- The lowered members refer to siblings and to the table, which holds ids handed over. -/
theorem lowerEach_lower {defs : List MemberDef} (h : ∀ d ∈ defs, d.Owned S n) :
    (∀ id ∈ (lowerEach (lower n) defs []).2, S id) ∧
      ∀ p ∈ (lowerEach (lower n) defs []).1, ∀ m ∈ p.1.refs,
        m < n + (lowerEach (lower n) defs []).2.length := by
  obtain ⟨new, hnew, hS, hrefs⟩ := lowerEach_lowers (fun d hd => lower_lowers (h d hd)) []
  rw [List.nil_append] at hnew hrefs
  rw [hnew]
  exact ⟨hS, fun p hp m hm => hrefs m (List.mem_flatMap.mpr ⟨p, hp, hm⟩)⟩

theorem Lowers.extends {refs : β → List ℕ}
    {m : List CanonicalTypeId → β × List CanonicalTypeId} (h : Lowers n S refs m)
    (ext : List CanonicalTypeId) : ext <+: (m ext).2 := by
  obtain ⟨new, hnew, -⟩ := h ext
  exact ⟨new, hnew.symm⟩

theorem lowerEach_extends {α : Type} {f : α → List CanonicalTypeId → β × List CanonicalTypeId}
    {l : List α} (hf : ∀ a ∈ l, ∀ ext, ext <+: (f a ext).2) (ext : List CanonicalTypeId) :
    ext <+: (lowerEach f l ext).2 := by
  induction l generalizing ext with
  | nil => exact List.prefix_rfl
  | cons a l ih =>
    exact (hf a List.mem_cons_self ext).trans
      (ih (fun b hb => hf b (List.mem_cons_of_mem _ hb)) _)

/-- Each element is lowered with a table that the final one extends. -/
theorem lowerEach_getElem? {α : Type} {f : α → List CanonicalTypeId → β × List CanonicalTypeId}
    {l : List α} (hf : ∀ a ∈ l, ∀ ext, ext <+: (f a ext).2) (ext : List CanonicalTypeId) {i : ℕ}
    {a : α} (h : l[i]? = some a) : ∃ ext', (lowerEach f l ext).1[i]? = some (f a ext').1 ∧
      (f a ext').2 <+: (lowerEach f l ext).2 := by
  induction l generalizing ext i with
  | nil => cases h
  | cons b l ih =>
    have hf' : ∀ a ∈ l, ∀ ext, ext <+: (f a ext).2 := fun a ha => hf a (List.mem_cons_of_mem _ ha)
    cases i with
    | zero =>
      obtain rfl := Option.some.inj h
      exact ⟨ext, rfl, lowerEach_extends hf' _⟩
    | succ i => exact ih hf' _ h

/-- The index a supertype is lowered to, read off the final table. -/
def SuperDef.Reads (n : ℕ) (table : List CanonicalTypeId) : SuperDef → ℕ → Prop
  | .forward index, m => m = index
  | .struct id, m | .array id, m | .func id, m => ∃ j, m = n + j ∧ table[j]? = some id

variable {ext table : List CanonicalTypeId}

theorem external_reads {id : CanonicalTypeId} (h : (external n id ext).2 <+: table) :
    ∃ j, (external n id ext).1 = n + j ∧ table[j]? = some id := by
  obtain ⟨rest, rfl⟩ := h
  refine ⟨ext.length, rfl, ?_⟩
  show (ext ++ [id] ++ rest)[ext.length]? = some id
  rw [List.append_assoc, List.getElem?_append_right le_rfl, Nat.sub_self]
  rfl

theorem lowerSuper_reads {s : Option SuperDef} (h : (lowerSuper n s ext).2 <+: table) {m : ℕ}
    (hm : (lowerSuper n s ext).1 = some m) : ∃ x, s = some x ∧ x.Reads n table m := by
  cases s with
  | none => cases hm
  | some x =>
    refine ⟨x, rfl, ?_⟩
    obtain rfl := Option.some.inj hm
    cases x with
    | forward index => rfl
    | struct id | array id | func id => exact external_reads h

/-- A lowered member declares what its definition declares. -/
theorem lower_supertype {d : MemberDef} (hd : d.Owned S n) (h : (lower n d ext).2 <+: table) {m : ℕ}
    (hm : (lower n d ext).1.1.supertype = some m) :
    ∃ x, d.supertype = some x ∧ x.Reads n table m := by
  cases d with
  | struct finality s fields =>
    have hext := (lowerEach_lowers fun f hf => fieldIr_lowers (hd.2 f hf)).extends
      (lowerSuper n s ext).2
    exact lowerSuper_reads (hext.trans h) hm
  | array finality s element =>
    exact lowerSuper_reads (((fieldIr_lowers hd.2).extends _).trans h) hm
  | func finality s params results =>
    have hparams := (lowerEach_lowers fun v hv => valIr_lowers (hd.2.1 v hv)).extends
      (lowerSuper n s ext).2
    have hresults := (lowerEach_lowers fun v hv => valIr_lowers (hd.2.2 v hv)).extends
      (lowerEach (valIr n) params (lowerSuper n s ext).2).2
    exact lowerSuper_reads ((hparams.trans hresults).trans h) hm

end

/-! ## Validation of declared supertypes -/

/-- A registered recursion group. -/
structure RecGroup where
  group : GroupId
  ids : List CanonicalTypeId
  kinds : List AggKind
  deriving DecidableEq, Repr

def kindName : AggKind → String
  | .struct => "struct"
  | .array => "array"
  | .func => "function"

def ensure (c : Bool) (message : String) : Except String Unit :=
  if c then .ok () else .error message

/-- `Option::ok_or_else`. -/
def okOr {α : Type} (o : Option α) (message : String) : Except String α :=
  match o with
  | some a => .ok a
  | none => .error message

/-- The canonical id of the declared supertype of a member of kind `kind`. -/
def RecGroup.superId (group : RecGroup) (kind : AggKind) : SuperDef → Except String CanonicalTypeId
  | .forward j => do
    ensure (group.kinds[j]? = some kind)
      ("a " ++ kindName kind ++ " type's supertype must be a " ++ kindName kind ++ " type")
    return group.ids.getD j 0
  | .struct t | .array t | .func t => .ok t

namespace TypeRegistry

/-- A member's registered body must match its supertype's. -/
def bodiesMatch (r : TypeRegistry) (kind : AggKind) (sub sup : CanonicalTypeId) :
    Except String Unit :=
  match kind with
  | .struct => do
    let subFields ← okOr (r.structFields sub) "not a live struct type"
    let supFields ← okOr (r.structFields sup) "not a live struct type"
    ensure (r.structMatches subFields supFields) "struct fields must match their supertype's fields"
  | .array => do
    let subField ← okOr (r.arrayField sub) "not a live array type"
    let supField ← okOr (r.arrayField sup) "not a live array type"
    ensure (r.fieldMatches subField supField)
      "array field type must match its supertype's field type"
  | .func => ensure (r.funcMatches sub sup) "function type must match its supertype"

/-- Validates the declared supertype of member `i`, the group being registered. -/
def validateSupertype (r : TypeRegistry) (group : RecGroup) (i : ℕ) :
    Option SuperDef → Except String Unit
  | none => .ok ()
  | some s => do
    let kind := group.kinds.getD i .func
    let supId ← group.superId kind s
    ensure (r.finality supId = some .nonFinal) "cannot create a subtype of a final supertype"
    r.bodiesMatch kind (group.ids.getD i 0) supId

/-- Validates the members from `i` on, in order. -/
def validateFrom (r : TypeRegistry) (group : RecGroup) : ℕ → List MemberDef → Except String Unit
  | _, [] => .ok ()
  | i, d :: ds => do
    r.validateSupertype group i d.supertype
    validateFrom r group (i + 1) ds

/-! ### What validation establishes -/

theorem ensure_ok {c : Bool} {message : String} (h : ensure c message = .ok ()) : c = true := by
  unfold ensure at h
  by_cases hc : c = true
  · exact hc
  · rw [if_neg hc] at h
    cases h

theorem okOr_ok {α : Type} {o : Option α} {message : String} {a : α}
    (h : okOr o message = .ok a) : o = some a := by
  cases o with
  | none => cases h
  | some b => rw [Except.ok.inj h]

/-- `sub` may declare `sup` its supertype: `sup` is not final and the bodies match. -/
structure MayDeclare (r : TypeRegistry) (sub sup : CanonicalTypeId) : Prop where
  nonFinal : r.finality sup = some .nonFinal
  matching : ∃ x y, r.composite sub = some x ∧ r.composite sup = some y ∧ BodyLe r.Declared x y

variable {group : RecGroup} {r : TypeRegistry}

theorem bodiesMatch_ok {kind : AggKind} {sub sup : CanonicalTypeId}
    (h : r.bodiesMatch kind sub sup = .ok ()) :
    ∃ x y, r.composite sub = some x ∧ r.composite sup = some y ∧ BodyLe r.Declared x y := by
  cases kind with
  | struct =>
    obtain ⟨fs, hfs, h⟩ := bind_ok h
    obtain ⟨gs, hgs, h⟩ := bind_ok h
    exact ⟨_, _, structFields_iff.mp (okOr_ok hfs), structFields_iff.mp (okOr_ok hgs),
      structMatches_iff.mp (ensure_ok h)⟩
  | array =>
    obtain ⟨f, hf, h⟩ := bind_ok h
    obtain ⟨g, hg, h⟩ := bind_ok h
    exact ⟨_, _, arrayField_iff.mp (okOr_ok hf), arrayField_iff.mp (okOr_ok hg),
      .array (fieldMatches_iff.mp (ensure_ok h))⟩
  | func =>
    obtain ⟨ps, rs, ps', rs', hsub, hsup, hle⟩ := funcMatches_iff.mp (ensure_ok h)
    exact ⟨_, _, funcSig_iff.mp hsub, funcSig_iff.mp hsup, hle⟩

/-- The id of a declared supertype is what its lowered index stands for. -/
theorem superId_eq {kind : AggKind} {s : SuperDef} {sup : CanonicalTypeId} {n m : ℕ}
    {table : List CanonicalTypeId} (h : group.superId kind s = .ok sup) (hn : group.ids.length = n)
    (hs : s.Reads n table m) (hfwd : ∀ j, s = .forward j → j < n) :
    hostId group.ids table m = sup := by
  cases s with
  | forward j =>
    obtain ⟨-, -, h⟩ := bind_ok h
    obtain rfl : m = j := hs
    rw [hostId, hn, if_pos (hfwd m rfl)]
    exact Except.ok.inj h
  | struct id | array id | func id =>
    obtain ⟨j, rfl, hj⟩ := hs
    rw [hostId, hn, if_neg (by omega), Nat.add_sub_cancel_left, List.getD_eq_getElem?_getD, hj]
    exact Except.ok.inj h

theorem validateSupertype_ok {i : ℕ} {s : SuperDef}
    (h : r.validateSupertype group i (some s) = .ok ()) :
    ∃ kind sup, group.superId kind s = .ok sup ∧ MayDeclare r (group.ids.getD i 0) sup := by
  obtain ⟨sup, hsup, h⟩ := bind_ok h
  obtain ⟨_, hfin, h⟩ := bind_ok h
  exact ⟨_, sup, hsup, of_decide_eq_true (ensure_ok hfin), bodiesMatch_ok h⟩

theorem validateFrom_ok {i : ℕ} {ds : List MemberDef} (h : r.validateFrom group i ds = .ok ())
    {k : ℕ} {d : MemberDef} (hd : ds[k]? = some d) :
    r.validateSupertype group (i + k) d.supertype = .ok () := by
  induction ds generalizing i k with
  | nil => cases hd
  | cons d' ds ih =>
    obtain ⟨_, hv, h⟩ := bind_ok h
    cases k with
    | zero =>
      obtain rfl := Option.some.inj hd
      exact hv
    | succ k =>
      have := ih h hd
      rwa [Nat.add_assoc, Nat.add_comm 1 k] at this

/-! ## Building -/

/-- A builder: the first error recorded and the definition of each declared member. -/
structure RecGroupBuilder where
  error : Option String
  members : List (Option MemberDef)

/-- The definitions of the members from `i` on; each must have been finished. -/
def definedFrom : ℕ → List (Option MemberDef) → Except String (List MemberDef)
  | _, [] => .ok []
  | i, none :: _ => .error s!"type {i} was declared but never defined"
  | i, some d :: ms => do
    let ds ← definedFrom (i + 1) ms
    return d :: ds

def RecGroupBuilder.defs (b : RecGroupBuilder) : Except String (List MemberDef) :=
  match b.error with
  | some e => .error e
  | none => definedFrom 0 b.members

/-- Registers the whole group and validates it; a group that fails is dropped.  The validation walks
the supertypes just declared: on a group whose forward supertypes form a cycle a walk that the model
answers `false` (`isSubtypeFrom`) may not come back in the source. -/
def RecGroupBuilder.build (l : Ledger) (b : RecGroupBuilder) :
    Option (Except String RecGroup × Ledger) :=
  match b.defs with
  | .error e => some (.error e, l)
  | .ok defs => do
    let (lowered, externals) := lowerEach (lower defs.length) defs []
    let ((ids, group), r) ← l.reg.internHostGroup (lowered.map (·.1)) externals
    let l : Ledger := ⟨r, group :: l.held⟩
    let rg : RecGroup := ⟨group, ids, lowered.map (·.2)⟩
    match r.validateFrom rg 0 defs with
    | .ok () => return (.ok rg, l)
    | .error e => do
      let l ← RegOp.step l (.release [group])
      return (.error e, l)

end TypeRegistry

end SubmilliWasm
