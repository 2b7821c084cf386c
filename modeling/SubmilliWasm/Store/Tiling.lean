/-
# Layouts agree and tile

The layout of an aggregate type is derived twice (`src/canon/layout.rs`): from the types of the
module for the instructions, and from the registered type, materialized, for the collector and the
embedder (`src/canon/keys.rs`, `src/canon/materialize.rs`).  Both come out the same, and the slots
of any layout lie one after the other in the order of the declaration, from the first byte of the
body to the last.
-/
import SubmilliWasm.Canon.Subtyping
import SubmilliWasm.Store.Codecs

namespace SubmilliWasm

/-! ## Slots one after the other -/

/-- Slots that lie in a body of `size` bytes in their order and leave none of its bytes out. -/
structure Tiles (slots : List Slot) (size : ℕ) : Prop where
  ordered : slots.Pairwise fun a b => a.offset + a.width ≤ b.offset
  within : ∀ slot ∈ slots, slot.offset + slot.width ≤ size
  covered : ∀ b < size, ∃ slot ∈ slots, slot.offset ≤ b ∧ b < slot.offset + slot.width

/-- Slots in order share no byte. -/
theorem Tiles.disjoint {slots : List Slot} {size : ℕ} (h : Tiles slots size) :
    slots.Pairwise Slot.Disjoint := h.ordered.imp fun hab => Or.inl hab

/-- The slot of field `i` begins where the fields before it end. -/
theorem layFields_getElem? (size : ℕ) (l : List (ℕ → Slot)) (i : ℕ) :
    (layFields size l).fields[i]? = (l[i]?).map fun f => f (layFields size (l.take i)).size := by
  induction l generalizing size i with
  | nil => rfl
  | cons f l ih =>
    cases i with
    | zero => rfl
    | succ i => exact ih (size + (f size).width) i

/-- Every byte from where the first field begins to the end of the body belongs to a field. -/
theorem layFields_covered {l : List (ℕ → Slot)} (h : ∀ f ∈ l, ∀ o, (f o).offset = o) (size : ℕ)
    {b : ℕ} (hb : size ≤ b) (hend : b < (layFields size l).size) :
    ∃ slot ∈ (layFields size l).fields, slot.offset ≤ b ∧ b < slot.offset + slot.width := by
  induction l generalizing size with
  | nil =>
    have hend : b < size := hend
    omega
  | cons f l ih =>
    have hoff : (f size).offset = size := h f List.mem_cons_self size
    by_cases hin : b < size + (f size).width
    · refine ⟨f size, List.mem_cons_self, ?_, ?_⟩
      · omega
      · omega
    · obtain ⟨slot, hs, hcover⟩ := ih (fun g hg => h g (List.mem_cons_of_mem _ hg))
        (size + (f size).width) (Nat.le_of_not_lt hin) hend
      exact ⟨slot, List.mem_cons_of_mem _ hs, hcover⟩

theorem tiles_fields {l : List (ℕ → Slot)} (h : ∀ f ∈ l, ∀ o, (f o).offset = o) :
    Tiles (StructLayout.of l).fields (StructLayout.of l).size where
  ordered := (layFields_disjoint h 0).2
  within := (layFields_within h 0).2
  covered := fun b hb => layFields_covered h 0 (Nat.zero_le b) hb

theorem elemAt_offset (layout : ArrayLayout) (i : ℕ) :
    (layout.elemAt i).offset = i * layout.stride := withOffset_offset _ _

theorem elemAt_width (elem : Slot) (i : ℕ) :
    ((ArrayLayout.of elem).elemAt i).width = (ArrayLayout.of elem).stride := withOffset_width _ _

theorem tiles_elems (elem : Slot) (len : ℕ) :
    Tiles ((List.range len).map (ArrayLayout.of elem).elemAt)
      ((ArrayLayout.of elem).bodySize len) := by
  have hstep : ∀ i j : ℕ, i < j → i * (ArrayLayout.of elem).stride + (ArrayLayout.of elem).stride ≤
      j * (ArrayLayout.of elem).stride := by
    intro i j hij
    rw [← Nat.succ_mul]
    exact Nat.mul_le_mul_right _ hij
  constructor
  · rw [List.pairwise_map]
    apply List.pairwise_lt_range.imp
    intro i j hij
    rw [elemAt_offset, elemAt_offset, elemAt_width]
    exact hstep i j hij
  · intro slot hs
    obtain ⟨i, hi, rfl⟩ := List.mem_map.mp hs
    rw [elemAt_offset, elemAt_width]
    exact hstep i len (List.mem_range.mp hi)
  · intro b hb
    have hb : b < len * (ArrayLayout.of elem).stride := hb
    have hpos : 0 < (ArrayLayout.of elem).stride := by
      apply Nat.pos_of_ne_zero
      intro h
      rw [h, Nat.mul_zero] at hb
      omega
    -- The byte belongs to the element its offset divided by the stride names.
    refine ⟨_, List.mem_map.mpr ⟨b / (ArrayLayout.of elem).stride, ?_, rfl⟩, ?_, ?_⟩
    · rw [List.mem_range]
      exact (Nat.div_lt_iff_lt_mul hpos).mpr hb
    · rw [elemAt_offset]
      exact Nat.div_mul_le_self _ _
    · rw [elemAt_offset, elemAt_width]
      have hdiv := Nat.div_add_mod' b (ArrayLayout.of elem).stride
      have hmod := Nat.mod_lt b hpos
      omega

/-! ## Layouts -/

namespace Layout

/-- The slots of a body of `len` elements; a struct has those of its fields. -/
def slots (len : ℕ) : Layout → List Slot
  | .struct layout => layout.fields
  | .array layout => (List.range len).map layout.elemAt

def bodySize (len : ℕ) : Layout → ℕ
  | .struct layout => layout.size
  | .array layout => layout.bodySize len

theorem Laid.tiles {layout : Layout} (h : layout.Laid) (len : ℕ) :
    Tiles (layout.slots len) (layout.bodySize len) := by
  cases h with
  | struct fields =>
    apply tiles_fields
    intro f hf o
    obtain ⟨field, -, rfl⟩ := List.mem_map.mp hf
    exact pubFieldSlot_offset field o
  | array field => exact tiles_elems _ len
  | @body body layout h =>
    cases body with
    | func params results => nomatch h
    | struct fields =>
      obtain rfl := Option.some.inj h
      apply tiles_fields
      intro f hf o
      obtain ⟨field, -, rfl⟩ := List.mem_map.mp hf
      exact fieldSlot_offset field o
    | array field =>
      obtain rfl := Option.some.inj h
      exact tiles_elems _ len

end Layout

namespace TypeRegistry

/-- The layout of an instruction's type is that of the type registered under its id, computed from
the materialized fields or element. -/
structure LayoutAgrees (r : TypeRegistry) (id : CanonicalTypeId) (body : CompositeBody) : Prop where
  layout : Layout.fromBody body = r.layoutOf id
  struct : ∀ irFields, body = .struct irFields → ∃ fields, r.structFields id = some fields ∧
    StructLayout.of (irFields.map fieldSlot) = Layout.forStruct fields
  array : ∀ irField, body = .array irField → ∃ field, r.arrayField id = some field ∧
    ArrayLayout.of (fieldSlot irField 0) = Layout.forArray field

theorem layoutAgrees {r : TypeRegistry} {id : CanonicalTypeId} {ref : ℕ → CanonicalTypeId}
    {t : ModuleType} (h : r.type? id = some (absolute ref t)) : r.LayoutAgrees id t.body := by
  have hlayout := fromBody_eq h
  refine ⟨hlayout, ?_, ?_⟩
  · intro irFields hb
    rw [hb] at hlayout
    unfold layoutOf at hlayout
    split at hlayout
    · rename_i fields hc
      exact ⟨fields, structFields_iff.mpr hc, Layout.struct.inj (Option.some.inj hlayout)⟩
    · nomatch Option.some.inj hlayout
    · nomatch hlayout
  · intro irField hb
    rw [hb] at hlayout
    unfold layoutOf at hlayout
    split at hlayout
    · nomatch Option.some.inj hlayout
    · rename_i field hc
      exact ⟨field, arrayField_iff.mpr hc, Layout.array.inj (Option.some.inj hlayout)⟩
    · nomatch hlayout

/-- **Layouts agree.**  After any history of the front ends, for every type of every module whose
section is interned, and as long as its id stays registered, the layout the compiler derives is the
one derived from the materialized type.  The slots of any layout come in the order of the
declaration, each field where those before it end, share no byte and cover the body. -/
theorem layouts_agree (ops : List FrontOp) (l : Ledger) (h : FrontReached ops l) :
    (∀ types ids l', (FrontOp.module types).Admitted l →
      (FrontOp.module types).step l = some (ids, l') →
      ∀ (i : ℕ) (t : ModuleType) (id : CanonicalTypeId), types[i]? = some t → ids[i]? = some id →
        ∀ r : TypeRegistry, r.type? id = l'.reg.type? id → r.LayoutAgrees id t.body) ∧
    (∀ (layout : Layout) (len : ℕ), layout.Laid → Tiles (layout.slots len) (layout.bodySize len)) ∧
    (∀ (fields : List IrField) (i : ℕ),
      (StructLayout.of (fields.map fieldSlot)).fields[i]? =
        (fields[i]?).map fun f =>
          fieldSlot f (StructLayout.of ((fields.take i).map fieldSlot)).size) ∧
    ∀ (fields : List FieldType) (i : ℕ), (Layout.forStruct fields).fields[i]? =
      (fields[i]?).map fun f => pubFieldSlot f (Layout.forStruct (fields.take i)).size := by
  refine ⟨?_, fun layout len hl => hl.tiles len, ?_, ?_⟩
  · intro types ids l' hop hstep i t id ht hid r hr
    obtain ⟨-, ⟨hans, -⟩, -⟩ := FrontOp.step_spec h.balanced hop hstep
    have hty := congrArg (fun l => l[i]?) hans
    simp only [FrontOp.requested, List.getElem?_map, ht, hid, Option.map_some,
      Option.some.injEq] at hty
    exact layoutAgrees (hr.trans hty)
  · intro fields i
    unfold StructLayout.of
    rw [layFields_getElem?, List.getElem?_map, Option.map_map, List.map_take]
    rfl
  · intro fields i
    unfold Layout.forStruct StructLayout.of
    rw [layFields_getElem?, List.getElem?_map, Option.map_map, List.map_take]
    rfl

/-- A module with a self-referential struct, interned first. -/
theorem layouts_agree_node : ∃ l', (FrontOp.module [nodeType]).step Ledger.start = some ([0], l') ∧
    l'.reg.LayoutAgrees 0 nodeType.body := by
  have hvalid : ForwardClosed [nodeType] := by
    intro i t ht m hm
    cases i with
    | zero =>
      obtain rfl := Option.some.inj ht
      obtain rfl : m = 0 := by simpa [nodeType, ModuleType.refs, CompositeBody.refs,
        IrField.refs, IrVal.refs] using hm
      exact ⟨by decide, fun j h1 h2 => by omega⟩
    | succ n => cases ht
  exact ⟨_, rfl, (layouts_agree [] Ledger.start FrontReached.start).1 [nodeType] [0] _ hvalid rfl
    0 nodeType 0 rfl rfl _ rfl⟩

end TypeRegistry

end SubmilliWasm
