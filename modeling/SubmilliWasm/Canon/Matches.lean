/-
# Matching of composite types

When a type matches another: the abstract lattice of `src/value/types.rs` and the rules of
`src/value/rec_group/validate.rs` over it, where two concrete types match if the registry
has declared one a subtype of the other.

The rules are stated twice.  The relations `HeapLe` … `BodyLe` lift any relation `le` of
concrete types to heap types, values, fields and whole composite types; they are preorders
when `le` is one, and a type that matches another is laid out like it.  The functions of the
source compute these relations for the declared subtypes of a registry.
-/
import SubmilliWasm.Lib.Chains
import SubmilliWasm.Store.Layout

namespace SubmilliWasm

/-! ## The abstract lattice -/

/-- Subtyping in the abstract lattice, with concrete types placed by hierarchy and equal to
themselves only. -/
def HeapType.matches (sub sup : HeapType) : Bool :=
  if sub = sup then true
  else
    match sub, sup with
    | .noFunc, .func | .noFunc, .concreteFunc _ => true
    | .concreteFunc _, .func => true
    | .noExtern, .extern_ => true
    | .noExn, .exn => true
    | .i31, .any | .struct, .any | .array, .any | .eq, .any => true
    | .i31, .eq | .struct, .eq | .array, .eq => true
    | .concreteStruct _, .struct | .concreteStruct _, .eq | .concreteStruct _, .any => true
    | .concreteArray _, .array | .concreteArray _, .eq | .concreteArray _, .any => true
    | .none, .any | .none, .eq | .none, .i31 | .none, .struct | .none, .array => true
    | .none, .concreteStruct _ | .none, .concreteArray _ => true
    | _, _ => false

/-- A non-nullable reference is a subtype of a nullable one, not conversely. -/
def refMatches (nullable : Bool) (heap : HeapType) (nullable' : Bool) (heap' : HeapType) : Bool :=
  (!nullable || nullable') && heap.matches heap'

def ValType.matches : ValType → ValType → Bool
  | .ref n h, .ref n' h' => refMatches n h n' h'
  | sub, sup => sub = sup

@[simp] theorem HeapType.matches_self (h : HeapType) : h.matches h = true := if_pos rfl

variable {a : CanonicalTypeId} {x : HeapType}

theorem HeapType.matches_trans {y z : HeapType} (h : x.matches y = true) (h' : y.matches z = true) :
    x.matches z = true := by
  by_cases hxy : x = y
  · rwa [hxy]
  by_cases hyz : y = z
  · rwa [← hyz]
  -- The strict part of the lattice: first the pairs it relates, then what is above the second.
  cases x <;> cases y <;> try simp [HeapType.matches, hxy] at h
  all_goals cases z <;> first | rfl | simp [HeapType.matches, hyz] at h'

/-- A heap type above a concrete one and not equal to it is above every type of its kind. -/
theorem HeapType.matches_concrete {b : CanonicalTypeId} {z : HeapType} :
    ((concreteStruct b).matches z = true →
      z = .concreteStruct b ∨ (concreteStruct a).matches z = true) ∧
    ((concreteArray b).matches z = true →
      z = .concreteArray b ∨ (concreteArray a).matches z = true) ∧
    ((concreteFunc b).matches z = true →
      z = .concreteFunc b ∨ (concreteFunc a).matches z = true) := by
  refine ⟨?_, ?_, ?_⟩ <;> intro h <;> cases z <;> simp_all [HeapType.matches]

/-- A heap type below a concrete one and not equal to it is below every type of its kind. -/
theorem HeapType.concrete_matches {b : CanonicalTypeId} :
    (x.matches (.concreteStruct a) = true →
      x = .concreteStruct a ∨ x.matches (.concreteStruct b) = true) ∧
    (x.matches (.concreteArray a) = true →
      x = .concreteArray a ∨ x.matches (.concreteArray b) = true) ∧
    (x.matches (.concreteFunc a) = true →
      x = .concreteFunc a ∨ x.matches (.concreteFunc b) = true) := by
  refine ⟨?_, ?_, ?_⟩ <;> intro h <;> cases x <;> simp_all [HeapType.matches]

theorem ValType.matches_self (v : ValType) : v.matches v = true := by
  cases v with
  | ref n h => simp [ValType.matches, refMatches]
  | _ => rfl

theorem ValType.matches_cases {v w : ValType} (h : v.matches w = true) :
    v = w ∨ ∃ n a n' b, v = .ref n a ∧ w = .ref n' b ∧ (n = true → n' = true) ∧
      a.matches b = true := by
  cases v with
  | ref n a =>
    cases w with
    | ref n' b =>
      rw [ValType.matches, refMatches, Bool.and_eq_true, Bool.or_eq_true] at h
      exact Or.inr ⟨n, a, n', b, rfl, rfl, fun hn => h.1.resolve_left (by simp [hn]), h.2⟩
    | _ => exact Or.inl (of_decide_eq_true h)
  | _ => exact Or.inl (of_decide_eq_true h)

theorem HeapType.matches_refKind {y : HeapType} (h : x.matches y = true) :
    pubRefKind x = pubRefKind y := by
  by_cases hxy : x = y
  · rw [hxy]
  cases x <;> cases y <;> first | rfl | simp [HeapType.matches, hxy] at h

/-! ## Composite types and the concrete types they mention -/

/-- A composite type as the embedder reads it back. -/
inductive Composite where
  | func (params results : List ValType)
  | struct (fields : List FieldType)
  | array (field : FieldType)
  deriving DecidableEq, Repr

def matBody : CBody CanonRef → Composite
  | .func params results => .func (params.map matVal) (results.map matVal)
  | .struct fields => .struct (fields.map matField)
  | .array field => .array (matField field)

/-- The composite type a live id is registered with. -/
def TypeRegistry.composite (r : TypeRegistry) (id : CanonicalTypeId) : Option Composite :=
  (r.type? id).map fun t => matBody t.body

def Composite.kind : Composite → AggKind
  | .func _ _ => .func
  | .struct _ => .struct
  | .array _ => .array

def HeapType.ids : HeapType → List CanonicalTypeId
  | .concreteFunc id | .concreteStruct id | .concreteArray id => [id]
  | _ => []

def ValType.ids : ValType → List CanonicalTypeId
  | .ref _ h => h.ids
  | _ => []

def FieldType.ids (f : FieldType) : List CanonicalTypeId :=
  match f.elementType with
  | .valType v => v.ids
  | _ => []

def Composite.ids : Composite → List CanonicalTypeId
  | .func params results => (params ++ results).flatMap ValType.ids
  | .struct fields => fields.flatMap FieldType.ids
  | .array f => f.ids

theorem numDecode_ids (c : ℕ) : (numDecode c).ids = [] := by
  unfold numDecode
  split <;> rfl

theorem absDecode_ids (c : ℕ) : (absDecode c).ids = [] := by
  unfold absDecode
  split <;> rfl

theorem matVal_ids {v : CVal CanonRef} (h : a ∈ (matVal v).ids) : CanonRef.canon a ∈ v.refs := by
  rcases v with c | ⟨n, c | ⟨k, r⟩⟩
  · rw [matVal, numDecode_ids] at h
    cases h
  · rw [matVal, matHeap, ValType.ids, absDecode_ids] at h
    cases h
  · cases r with
    | rel p => cases k <;> exact absurd h (by simp [matVal, matHeap, ValType.ids, HeapType.ids])
    | canon id =>
      have : a = id := by cases k <;> simpa [matVal, matHeap, ValType.ids, HeapType.ids] using h
      rw [this]
      exact List.mem_singleton.mpr rfl

theorem matField_ids {f : CField CanonRef} (h : a ∈ (matField f).ids) :
    CanonRef.canon a ∈ f.refs := by
  obtain ⟨m, s⟩ := f
  cases s with
  | val v => exact matVal_ids h
  | packed c => rcases c with - | c <;> cases h

theorem matBody_ids {b : CBody CanonRef} (h : a ∈ (matBody b).ids) : CanonRef.canon a ∈ b.refs := by
  cases b with
  | func p r =>
    rw [matBody, Composite.ids, ← List.map_append, List.flatMap_map, List.mem_flatMap] at h
    obtain ⟨v, hv, h⟩ := h
    exact List.mem_flatMap.mpr ⟨v, hv, matVal_ids h⟩
  | struct fs =>
    rw [matBody, Composite.ids, List.flatMap_map, List.mem_flatMap] at h
    obtain ⟨f, hf, h⟩ := h
    exact List.mem_flatMap.mpr ⟨f, hf, matField_ids h⟩
  | array f => exact matField_ids h

theorem matBody_kind (b : CBody CanonRef) : (matBody b).kind = bodyKind b := by cases b <;> rfl

/-! ## The relations -/

section

variable (le : CanonicalTypeId → CanonicalTypeId → Prop)

inductive HeapLe : HeapType → HeapType → Prop where
  | lattice {x y : HeapType} : x.matches y = true → HeapLe x y
  | struct {a b : CanonicalTypeId} : le a b → HeapLe (.concreteStruct a) (.concreteStruct b)
  | array {a b : CanonicalTypeId} : le a b → HeapLe (.concreteArray a) (.concreteArray b)
  | func {a b : CanonicalTypeId} : le a b → HeapLe (.concreteFunc a) (.concreteFunc b)

inductive ValLe : ValType → ValType → Prop where
  | same (v : ValType) : ValLe v v
  | ref {n n' : Bool} {h h' : HeapType} :
      (n = true → n' = true) → HeapLe le h h' → ValLe (.ref n h) (.ref n' h')

inductive StorageLe : StorageType → StorageType → Prop where
  | same (s : StorageType) : StorageLe s s
  | val {v w : ValType} : ValLe le v w → StorageLe (.valType v) (.valType w)

/-- Mutability agrees; a mutable field is invariant, an immutable one covariant. -/
inductive FieldLe : FieldType → FieldType → Prop where
  | var (s : StorageType) : FieldLe ⟨.var, s⟩ ⟨.var, s⟩
  | const {s s' : StorageType} : StorageLe le s s' → FieldLe ⟨.const, s⟩ ⟨.const, s'⟩

/-- Parameters are contravariant and results covariant; the fields of a struct match an initial
part of the subtype's. -/
inductive BodyLe : Composite → Composite → Prop where
  | func {ps rs ps' rs' : List ValType} : List.Forall₂ (ValLe le) ps' ps →
      List.Forall₂ (ValLe le) rs rs' → BodyLe (.func ps rs) (.func ps' rs')
  | struct {fs fs' : List FieldType} (extra : List FieldType) :
      List.Forall₂ (FieldLe le) fs fs' → BodyLe (.struct (fs ++ extra)) (.struct fs')
  | array {f f' : FieldType} : FieldLe le f f' → BodyLe (.array f) (.array f')

end

theorem BodyLe.kind {le : CanonicalTypeId → CanonicalTypeId → Prop} {x y : Composite}
    (h : BodyLe le x y) : x.kind = y.kind := by
  cases h <;> rfl

/-! ### Preorders -/

section

variable {le : CanonicalTypeId → CanonicalTypeId → Prop}

theorem FieldLe.refl (f : FieldType) : FieldLe le f f := by
  obtain ⟨m, s⟩ := f
  cases m with
  | var => exact .var s
  | const => exact .const (.same s)

theorem BodyLe.refl (x : Composite) : BodyLe le x x := by
  cases x with
  | func ps rs =>
    exact .func (List.forall₂_same.mpr fun v _ => .same v)
      (List.forall₂_same.mpr fun v _ => .same v)
  | struct fs =>
    have := BodyLe.struct [] (List.forall₂_same.mpr fun f (_ : f ∈ fs) =>
      (FieldLe.refl f : FieldLe le f f))
    rwa [List.append_nil] at this
  | array f => exact .array (.refl f)

variable (ht : ∀ a b c, le a b → le b c → le a c)

include ht

theorem HeapLe.trans {x y z : HeapType} (h : HeapLe le x y) (h' : HeapLe le y z) :
    HeapLe le x z := by
  cases h' with
  | lattice h' =>
    cases h with
    | lattice h => exact .lattice (HeapType.matches_trans h h')
    | struct h =>
      rcases HeapType.matches_concrete.1 h' with rfl | h'
      · exact .struct h
      · exact .lattice h'
    | array h =>
      rcases HeapType.matches_concrete.2.1 h' with rfl | h'
      · exact .array h
      · exact .lattice h'
    | func h =>
      rcases HeapType.matches_concrete.2.2 h' with rfl | h'
      · exact .func h
      · exact .lattice h'
  | struct h' =>
    cases h with
    | lattice h =>
      rcases HeapType.concrete_matches.1 h with rfl | h
      · exact .struct h'
      · exact .lattice h
    | struct h => exact .struct (ht _ _ _ h h')
  | array h' =>
    cases h with
    | lattice h =>
      rcases HeapType.concrete_matches.2.1 h with rfl | h
      · exact .array h'
      · exact .lattice h
    | array h => exact .array (ht _ _ _ h h')
  | func h' =>
    cases h with
    | lattice h =>
      rcases HeapType.concrete_matches.2.2 h with rfl | h
      · exact .func h'
      · exact .lattice h
    | func h => exact .func (ht _ _ _ h h')

theorem ValLe.trans {u v w : ValType} (h : ValLe le u v) (h' : ValLe le v w) : ValLe le u w := by
  cases h with
  | same => exact h'
  | ref hn h =>
    cases h' with
    | same => exact .ref hn h
    | ref hn' h' => exact .ref (fun n => hn' (hn n)) (HeapLe.trans ht h h')

theorem FieldLe.trans {f g k : FieldType} (h : FieldLe le f g) (h' : FieldLe le g k) :
    FieldLe le f k := by
  cases h with
  | var => exact h'
  | const h =>
    cases h' with
    | const h' =>
      cases h with
      | same => exact .const h'
      | val h =>
        cases h' with
        | same => exact .const (.val h)
        | val h' => exact .const (.val (ValLe.trans ht h h'))

omit ht in
theorem forall₂_trans {α : Type} {R : α → α → Prop} (hR : ∀ a b c, R a b → R b c → R a c)
    {l m n : List α} (h : List.Forall₂ R l m) (h' : List.Forall₂ R m n) : List.Forall₂ R l n := by
  induction h generalizing n with
  | nil => exact h'
  | cons hab _ ih =>
    cases h' with
    | cons hbc h' => exact .cons (hR _ _ _ hab hbc) (ih h')

theorem BodyLe.trans {x y z : Composite} (h : BodyLe le x y) (h' : BodyLe le y z) :
    BodyLe le x z := by
  have hval : ∀ u v w, ValLe le u v → ValLe le v w → ValLe le u w := fun _ _ _ => ValLe.trans ht
  have hfield : ∀ f g k, FieldLe le f g → FieldLe le g k → FieldLe le f k :=
    fun _ _ _ => FieldLe.trans ht
  cases h with
  | func hp hr =>
    cases h' with
    | func hp' hr' => exact .func (forall₂_trans hval hp' hp) (forall₂_trans hval hr hr')
  | array hf =>
    cases h' with
    | array hf' => exact .array (hfield _ _ _ hf hf')
  | @struct fs fs' extra hf =>
    generalize hy : Composite.struct fs' = y at h'
    cases h' with
    | func => cases hy
    | array => cases hy
    | @struct gs gs' extra' hg =>
      obtain rfl := Composite.struct.inj hy
      -- The middle type's own extra fields are extra fields of the subtype as well.
      have hfs : fs = fs.take gs.length ++ fs.drop gs.length := (List.take_append_drop _ _).symm
      have hlen : gs.length = (fs.take gs.length).length := by
        have := hf.length_eq
        rw [List.length_append] at this
        rw [List.length_take]
        omega
      rw [hfs] at hf ⊢
      rw [List.append_assoc]
      have htake : List.Forall₂ (FieldLe le) (fs.take gs.length) gs := by
        have := List.forall₂_take gs.length hf
        rwa [List.take_left' hlen.symm, List.take_left' rfl] at this
      exact .struct _ (forall₂_trans hfield htake hg)

end

/-! ### Monotonicity -/

section

variable {le le' : CanonicalTypeId → CanonicalTypeId → Prop} {S : CanonicalTypeId → Prop}
  (hle : ∀ a b, S a → le a b → le' a b)

include hle

theorem HeapLe.mono {x y : HeapType} (hx : ∀ a ∈ x.ids, S a) (h : HeapLe le x y) :
    HeapLe le' x y := by
  cases h with
  | lattice h => exact .lattice h
  | struct h => exact .struct (hle _ _ (hx _ List.mem_cons_self) h)
  | array h => exact .array (hle _ _ (hx _ List.mem_cons_self) h)
  | func h => exact .func (hle _ _ (hx _ List.mem_cons_self) h)

theorem ValLe.mono {v w : ValType} (hv : ∀ a ∈ v.ids, S a) (h : ValLe le v w) : ValLe le' v w := by
  cases h with
  | same => exact .same v
  | ref hn h => exact .ref hn (h.mono hle hv)

theorem FieldLe.mono {f g : FieldType} (hf : ∀ a ∈ f.ids, S a) (h : FieldLe le f g) :
    FieldLe le' f g := by
  cases h with
  | var s => exact .var s
  | const h =>
    cases h with
    | same => exact .const (.same _)
    | val h => exact .const (.val (h.mono hle hf))

/-- Matching is kept by a relation that keeps what is declared of the types mentioned. -/
theorem BodyLe.mono {x y : Composite} (hx : ∀ a ∈ x.ids, S a) (hy : ∀ a ∈ y.ids, S a)
    (h : BodyLe le x y) : BodyLe le' x y := by
  have hval : ∀ {vs ws : List ValType}, (∀ v ∈ vs, ∀ a ∈ v.ids, S a) →
      List.Forall₂ (ValLe le) vs ws → List.Forall₂ (ValLe le') vs ws := by
    intro vs ws hvs h
    exact ((List.forall₂_and_left _ _).mpr ⟨hvs, h⟩).imp fun v w hvw => hvw.2.mono hle hvw.1
  cases h with
  | func hp hr =>
    refine .func (hval (fun v hv a ha => ?_) hp) (hval (fun v hv a ha => ?_) hr)
    · exact hy a (List.mem_flatMap.mpr ⟨v, List.mem_append_left _ hv, ha⟩)
    · exact hx a (List.mem_flatMap.mpr ⟨v, List.mem_append_right _ hv, ha⟩)
  | @struct fs fs' extra hf =>
    have hfs : ∀ f ∈ fs, ∀ a ∈ f.ids, S a := fun f hf' a ha =>
      hx a (List.mem_flatMap.mpr ⟨f, List.mem_append_left _ hf', ha⟩)
    exact .struct extra (((List.forall₂_and_left _ _).mpr ⟨hfs, hf⟩).imp
      fun f g hfg => hfg.2.mono hle hfg.1)
  | array hf => exact .array (hf.mono hle hx)

end

/-! ## Matching types are laid out alike -/

section

variable {le : CanonicalTypeId → CanonicalTypeId → Prop}

theorem HeapLe.refKind {x y : HeapType} (h : HeapLe le x y) : pubRefKind x = pubRefKind y := by
  cases h with
  | lattice h => exact HeapType.matches_refKind h
  | _ => rfl

variable {f : FieldType}

theorem FieldLe.slot {g : FieldType} (h : FieldLe le f g) : pubFieldSlot f = pubFieldSlot g := by
  funext offset
  cases h with
  | var s => rfl
  | const h =>
    cases h with
    | same s => rfl
    | val h =>
      cases h with
      | same v => rfl
      | ref hn h => exact congrArg (Slot.ref offset) h.refKind

theorem FieldLe.mutability {g : FieldType} (h : FieldLe le f g) : f.mutability = g.mutability := by
  cases h <;> rfl

theorem forall₂_map_eq {α β : Type} {R : α → α → Prop} {F : α → β}
    (hF : ∀ a b, R a b → F a = F b) {l m : List α} (h : List.Forall₂ R l m) :
    l.map F = m.map F := by
  induction h with
  | nil => rfl
  | cons hab _ ih => rw [List.map_cons, List.map_cons, hF _ _ hab, ih]

/-- The slots of a struct's declared supertype are the first of its own. -/
theorem forStruct_prefix {fs fs' : List FieldType} (extra : List FieldType)
    (h : List.Forall₂ (FieldLe le) fs fs') :
    (Layout.forStruct fs').fields <+: (Layout.forStruct (fs ++ extra)).fields := by
  have hslots : fs.map pubFieldSlot = fs'.map pubFieldSlot :=
    forall₂_map_eq (F := pubFieldSlot) (fun _ _ => FieldLe.slot) h
  rw [Layout.forStruct, Layout.forStruct, List.map_append, hslots, StructLayout.of,
    StructLayout.of, layFields_append]
  exact List.prefix_append _ _

theorem forArray_eq {f' : FieldType} (h : FieldLe le f f') :
    Layout.forArray f = Layout.forArray f' := by
  rw [Layout.forArray, Layout.forArray, h.slot]

end

/-- Every slot of a struct layout lies inside a body of its size. -/
theorem forStruct_within {fs : List FieldType} {slot : Slot}
    (h : slot ∈ (Layout.forStruct fs).fields) :
    slot.offset + slot.width ≤ (Layout.forStruct fs).size := by
  refine (layFields_within (fun f hf o => ?_) 0).2 slot h
  obtain ⟨g, -, rfl⟩ := List.mem_map.mp hf
  exact pubFieldSlot_offset g o

/-- Element `i` of an array lies inside a body that holds more than `i` elements. -/
theorem forArray_within (f : FieldType) {i len : ℕ} (h : i < len) :
    ((Layout.forArray f).elemAt i).offset + ((Layout.forArray f).elemAt i).width ≤
      (Layout.forArray f).bodySize len := by
  rw [ArrayLayout.elemAt, withOffset_offset, withOffset_width, ArrayLayout.bodySize]
  calc i * (Layout.forArray f).stride + (Layout.forArray f).elem.width
      = (i + 1) * (Layout.forArray f).stride := by rw [Nat.succ_mul]; rfl
    _ ≤ len * (Layout.forArray f).stride := Nat.mul_le_mul_right _ h

/-! ## The checks of the source -/

namespace TypeRegistry

def heapMatches (r : TypeRegistry) (sub sup : HeapType) : Bool :=
  if sub.matches sup then true
  else
    match sub, sup with
    | .concreteStruct a, .concreteStruct b => r.isSubtype a b
    | .concreteArray a, .concreteArray b => r.isSubtype a b
    | .concreteFunc a, .concreteFunc b => r.isSubtype a b
    | _, _ => false

/-- `ValType.matches` extended with declared subtyping of concrete types. -/
def valMatches (r : TypeRegistry) (sub sup : ValType) : Bool :=
  if sub.matches sup then true
  else
    match sub, sup with
    | .ref n a, .ref n' b => (!n || n') && r.heapMatches a b
    | _, _ => false

def storageMatches (r : TypeRegistry) : StorageType → StorageType → Bool
  | .valType a, .valType b => r.valMatches a b
  | sub, sup => sub = sup

def fieldMatches (r : TypeRegistry) (sub sup : FieldType) : Bool :=
  if sub.mutability ≠ sup.mutability then false
  else
    match sub.mutability with
    | .var => sub.elementType = sup.elementType
    | .const => r.storageMatches sub.elementType sup.elementType

/-- The fields of a struct match those of its supertype, of which there are no more. -/
def structMatches (r : TypeRegistry) (sub sup : List FieldType) : Bool :=
  sup.length ≤ sub.length && (sub.zip sup).all fun p => r.fieldMatches p.1 p.2

def funcMatches (r : TypeRegistry) (sub sup : CanonicalTypeId) : Bool :=
  match r.funcSig sub, r.funcSig sup with
  | some (subParams, subResults), some (supParams, supResults) =>
    subParams.length = supParams.length && subResults.length = supResults.length &&
      ((supParams.zip subParams).all fun p => r.valMatches p.1 p.2) &&
      (subResults.zip supResults).all fun p => r.valMatches p.1 p.2
  | _, _ => false

/-! ## The declared subtypes of a registry -/

/-- The supertype a live type declares. -/
def superOf (r : TypeRegistry) (id : CanonicalTypeId) : Option CanonicalTypeId :=
  (r.type? id).bind (·.supertype)

theorem superOf_some {r : TypeRegistry} {a b : CanonicalTypeId} (h : r.superOf a = some b) :
    ∃ t, r.type? a = some t ∧ t.supertype = some b := Option.bind_eq_some_iff.mp h

theorem isSubtypeFrom_eq_walk (r : TypeRegistry) (sup : CanonicalTypeId) (fuel : ℕ)
    (o : Option CanonicalTypeId) : r.isSubtypeFrom sup fuel o
    = Chains.walk r.superOf sup fuel o := by
  induction fuel generalizing o with
  | zero => cases o <;> rfl
  | succ fuel ih =>
    cases o with
    | none => rfl
    | some id => rw [isSubtypeFrom, Chains.walk, ih, superOf]

/-- **Declared subtyping is the supertype chain.**  Only live types declare a supertype, so the
walk is given enough steps even where supertypes form a cycle. -/
theorem isSubtype_iff {r : TypeRegistry} {a b : CanonicalTypeId} :
    r.isSubtype a b = true ↔ Chains.Leads r.superOf a b := by
  rw [isSubtype, isSubtypeFrom_eq_walk]
  apply Chains.walk_iff (s := Finset.range r.types.length)
  · intro id hid
    obtain ⟨s, hs⟩ := Option.ne_none_iff_exists'.mp hid
    obtain ⟨t, ht, -⟩ := superOf_some hs
    exact Finset.mem_range.mpr (Slots.lt_length_of_entry ht)
  · rw [Finset.card_range]
    exact Nat.lt_succ_self _

/-- `isSubtype` as the relation of concrete types that matching lifts. -/
abbrev Declared (r : TypeRegistry) (a b : CanonicalTypeId) : Prop := r.isSubtype a b = true

theorem Declared.trans {r : TypeRegistry} (a b c : CanonicalTypeId) (h : r.Declared a b)
    (h' : r.Declared b c) : r.Declared a c :=
  isSubtype_iff.mpr ((isSubtype_iff.mp h).trans (isSubtype_iff.mp h'))

/-! ## The checks compute the relations -/

variable {r : TypeRegistry}

theorem heapMatches_iff {x y : HeapType} :
    r.heapMatches x y = true ↔ HeapLe r.Declared x y := by
  unfold heapMatches
  constructor
  · intro h
    by_cases hm : x.matches y = true
    · exact .lattice hm
    · rw [if_neg hm] at h
      cases x <;> cases y <;> first
        | cases h
        | exact .struct h
        | exact .array h
        | exact .func h
  · intro h
    by_cases hm : x.matches y = true
    · rw [if_pos hm]
    · rw [if_neg hm]
      cases h with
      | lattice h => exact absurd h hm
      | struct h => exact h
      | array h => exact h
      | func h => exact h

theorem valMatches_iff {v w : ValType} : r.valMatches v w = true ↔ ValLe r.Declared v w := by
  unfold valMatches
  by_cases hm : v.matches w = true
  · rw [if_pos hm, eq_self_iff_true, true_iff]
    rcases ValType.matches_cases hm with rfl | ⟨n, a, n', b, rfl, rfl, hn, hab⟩
    · exact .same v
    · exact .ref hn (.lattice hab)
  · rw [if_neg hm]
    constructor
    · intro h
      cases v with
      | ref n a =>
        cases w with
        | ref n' b =>
          rw [Bool.and_eq_true, Bool.or_eq_true] at h
          exact .ref (fun hn => h.1.resolve_left (by simp [hn])) (heapMatches_iff.mp h.2)
        | _ => cases h
      | _ => cases h
    · intro h
      cases h with
      | same => exact absurd (ValType.matches_self v) hm
      | @ref n n' a b hn hab =>
        show ((!n || n') && r.heapMatches a b) = true
        rw [heapMatches_iff.mpr hab, Bool.and_true]
        cases n with
        | false => rfl
        | true => exact hn rfl

theorem storageMatches_iff {s s' : StorageType} :
    r.storageMatches s s' = true ↔ StorageLe r.Declared s s' := by
  constructor
  · intro h
    cases s with
    | valType v =>
      cases s' with
      | valType w => exact .val (valMatches_iff.mp h)
      | _ => simp [storageMatches] at h
    | _ =>
      obtain rfl := of_decide_eq_true (show decide (_ = s') = true from h)
      exact .same _
  · intro h
    cases h with
    | same =>
      cases s with
      | valType v => exact valMatches_iff.mpr (.same v)
      | _ => rfl
    | val h => exact valMatches_iff.mpr h

theorem fieldMatches_iff {f g : FieldType} :
    r.fieldMatches f g = true ↔ FieldLe r.Declared f g := by
  obtain ⟨m, s⟩ := f
  obtain ⟨m', s'⟩ := g
  unfold fieldMatches
  by_cases hm : m = m'
  · subst hm
    rw [if_neg (not_not.mpr rfl)]
    cases m with
    | var =>
      constructor
      · intro h
        obtain rfl : s = s' := of_decide_eq_true h
        exact .var s
      · intro h
        cases h
        exact decide_eq_true rfl
    | const =>
      constructor
      · intro h
        exact .const (storageMatches_iff.mp h)
      · intro h
        cases h with
        | const h => exact storageMatches_iff.mpr h
  · rw [if_pos hm]
    constructor
    · exact nofun
    · intro h
      exact absurd h.mutability hm

/-- A pairwise check of two lists, the second no longer than the first. -/
theorem zip_all_iff {α : Type} {p : α → α → Bool} {R : α → α → Prop}
    (hp : ∀ a b, p a b = true ↔ R a b) (l m : List α) :
    (m.length ≤ l.length ∧ ((l.zip m).all fun q => p q.1 q.2) = true) ↔
      ∃ l₁ l₂, l = l₁ ++ l₂ ∧ List.Forall₂ R l₁ m := by
  induction m generalizing l with
  | nil =>
    simp only [List.length_nil, Nat.zero_le, List.zip_nil_right, List.all_nil, and_self,
      List.forall₂_nil_right_iff, true_iff]
    exact ⟨[], l, rfl, rfl⟩
  | cons b m ih =>
    cases l with
    | nil =>
      constructor
      · rintro ⟨h, -⟩
        exact absurd h (Nat.not_succ_le_zero _)
      · rintro ⟨l₁, l₂, hl, h⟩
        obtain ⟨rfl, -⟩ := List.append_eq_nil_iff.mp hl.symm
        cases h
    | cons a l =>
      rw [List.length_cons, List.length_cons, Nat.succ_le_succ_iff, List.zip_cons_cons,
        List.all_cons, Bool.and_eq_true, and_left_comm, ih, hp]
      constructor
      · rintro ⟨hab, l₁, l₂, rfl, h⟩
        exact ⟨a :: l₁, l₂, rfl, .cons hab h⟩
      · rintro ⟨l₁, l₂, hl, h⟩
        cases h with
        | cons hab h =>
          obtain ⟨rfl, rfl⟩ := List.cons_eq_cons.mp hl
          exact ⟨hab, _, l₂, rfl, h⟩

/-- The same for lists of one length. -/
theorem zip_all_iff_of_length {α : Type} {p : α → α → Bool} {R : α → α → Prop}
    (hp : ∀ a b, p a b = true ↔ R a b) {l m : List α} (hlen : l.length = m.length) :
    ((l.zip m).all fun q => p q.1 q.2) = true ↔ List.Forall₂ R l m := by
  have h := zip_all_iff hp l m
  simp only [hlen, le_refl, true_and] at h
  rw [h]
  constructor
  · rintro ⟨l₁, l₂, rfl, h₂⟩
    have hlen' := h₂.length_eq
    rw [List.length_append] at hlen
    obtain rfl : l₂ = [] := List.eq_nil_of_length_eq_zero (by omega)
    rwa [List.append_nil]
  · intro h
    exact ⟨l, [], (List.append_nil l).symm, h⟩

theorem structMatches_iff {fs gs : List FieldType} :
    r.structMatches fs gs = true ↔ BodyLe r.Declared (.struct fs) (.struct gs) := by
  rw [structMatches, Bool.and_eq_true, decide_eq_true_eq,
    zip_all_iff (p := r.fieldMatches) (fun _ _ => fieldMatches_iff) fs gs]
  constructor
  · rintro ⟨l₁, l₂, rfl, h⟩
    exact .struct l₂ h
  · intro h
    cases h with
    | struct extra h => exact ⟨_, extra, rfl, h⟩

/-! ## Reading a registered body back -/

variable {id : CanonicalTypeId}

theorem structFields_iff {fs : List FieldType} :
    r.structFields id = some fs ↔ r.composite id = some (.struct fs) := by
  unfold structFields composite
  cases r.type? id with
  | none => simp
  | some t => cases hb : t.body <;> simp [matBody, hb]

theorem arrayField_iff {f : FieldType} :
    r.arrayField id = some f ↔ r.composite id = some (.array f) := by
  unfold arrayField composite
  cases r.type? id with
  | none => simp
  | some t => cases hb : t.body <;> simp [matBody, hb]

theorem funcSig_iff {ps rs : List ValType} :
    r.funcSig id = some (ps, rs) ↔ r.composite id = some (.func ps rs) := by
  unfold funcSig composite
  cases r.type? id with
  | none => simp
  | some t => cases hb : t.body <;> simp [matBody, hb]

theorem funcMatches_iff {sub sup : CanonicalTypeId} :
    r.funcMatches sub sup = true ↔ ∃ ps rs ps' rs', r.funcSig sub = some (ps, rs) ∧
      r.funcSig sup = some (ps', rs') ∧ BodyLe r.Declared (.func ps rs) (.func ps' rs') := by
  have hval := fun v w => @valMatches_iff r v w
  unfold funcMatches
  constructor
  · intro h
    cases hsub : r.funcSig sub with
    | none => simp [hsub] at h
    | some s =>
      cases hsup : r.funcSig sup with
      | none => simp [hsub, hsup] at h
      | some s' =>
        simp only [hsub, hsup, Bool.and_eq_true, decide_eq_true_eq] at h
        obtain ⟨⟨⟨hp, hr⟩, hps⟩, hrs⟩ := h
        exact ⟨_, _, _, _, rfl, rfl, .func ((zip_all_iff_of_length hval hp.symm).mp hps)
          ((zip_all_iff_of_length hval hr).mp hrs)⟩
  · rintro ⟨ps, rs, ps', rs', hsub, hsup, h⟩
    cases h with
    | func hps hrs =>
      simp only [hsub, hsup, Bool.and_eq_true, decide_eq_true_eq]
      exact ⟨⟨⟨hps.length_eq.symm, hrs.length_eq⟩,
        (zip_all_iff_of_length hval hps.length_eq).mpr hps⟩,
        (zip_all_iff_of_length hval hrs.length_eq).mpr hrs⟩

end TypeRegistry

end SubmilliWasm
