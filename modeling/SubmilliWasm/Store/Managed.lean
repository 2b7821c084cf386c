/-
# Allocation in the managed arenas

The allocating half of `src/store/managed.rs` and `src/store/gc.rs`: the byte budget the three
arenas share, the allocation of objects, externref entries and exceptions, and the bridge
between `externref` and `anyref`.  `usize` arithmetic saturates where the source's does.
-/
import SubmilliWasm.Store.Collect

namespace SubmilliWasm

open Slots

/-! ## Machine arithmetic and errors -/

def usizeMax : ℕ := 2 ^ 64 - 1

def saturatingAdd (a b : ℕ) : ℕ := min (a + b) usizeMax

def saturatingMul (a b : ℕ) : ℕ := min (a * b) usizeMax

def checkedAdd (a b : ℕ) : Option ℕ := if a + b ≤ usizeMax then some (a + b) else none

def checkedMul (a b : ℕ) : Option ℕ := if a * b ≤ usizeMax then some (a * b) else none

theorem saturatingAdd_eq {a b : ℕ} (h : a + b ≤ usizeMax) : saturatingAdd a b = a + b :=
  min_eq_left h

inductive Trap where
  | allocationTooLarge
  | memoryOutOfBounds
  | tableOutOfBounds
  deriving DecidableEq, Repr

/-- What a store operation fails with; `limiter` is an error the embedder's limiter returned, or
the one for an async limiter in a synchronous context. -/
inductive StoreError where
  | trap (t : Trap)
  | internal (e : InternalError)
  | gcHeapOutOfMemory (bytesNeeded : ℕ)
  | limiter
  | panic
  deriving DecidableEq, Repr

/-! ## One arena -/

namespace ReclaimArena

variable {E : Type}

/-- Changes the entry at `index` in place, if there is one. -/
def update (a : ReclaimArena E) (index : ℕ) (f : E → E) : ReclaimArena E :=
  match h : entry a.slots index with
  | none => a
  | some e => { a with
      slots := a.slots.set index (some (f e))
      parallel := by rw [List.length_set, a.parallel]
      freeList := a.freeList.update h (f e) }

/-- An allocation takes an empty slot. -/
theorem alloc_fresh (a : ReclaimArena E) (e : E) : a.get (a.alloc e).1 = none := by
  unfold alloc
  split
  · rename_i index rest hf
    have hm : index ∈ a.free := by rw [hf]; exact List.mem_cons_self
    exact a.freeList.entry_eq_none hm
  · exact entry_of_length_le le_rfl

theorem alloc_get (a : ReclaimArena E) (e : E) (j : ℕ) :
    (a.alloc e).2.get j = if j = (a.alloc e).1 then some e else a.get j := by
  unfold alloc
  split
  · rename_i index rest hf
    have hi : index < a.slots.length :=
      a.freeList.lt_length (by rw [hf]; exact List.mem_cons_self)
    exact entry_set hi (some e) j
  · exact entry_append a.slots (some e) j

/-- A recycled slot keeps its generation; a fresh one starts at zero. -/
theorem alloc_generation (a : ReclaimArena E) (e : E) (j : ℕ) :
    (a.alloc e).2.generation j =
      if j = (a.alloc e).1 ∧ a.generation j = none then some 0 else a.generation j := by
  unfold alloc
  split
  · rename_i index rest hf
    have hi : index < a.generations.length :=
      a.parallel ▸ a.freeList.lt_length (by rw [hf]; exact List.mem_cons_self)
    rw [if_neg]
    · rfl
    · rintro ⟨rfl, hnone⟩
      exact absurd (List.getElem?_eq_none_iff.mp hnone) (by omega)
  · have hp := a.parallel
    show (a.generations ++ [0])[j]? = _
    rw [List.getElem?_append]
    by_cases hj : j < a.generations.length
    · rw [if_pos hj, if_neg fun h => absurd (List.getElem?_eq_none_iff.mp h.2) (by omega)]
      rfl
    · rw [if_neg hj]
      have hnone : a.generation j = none := List.getElem?_eq_none_iff.mpr (by omega)
      rw [hnone]
      by_cases heq : j = a.slots.length
      · rw [if_pos ⟨heq, rfl⟩, heq, hp, Nat.sub_self]
        rfl
      · rw [if_neg fun h => heq h.1]
        exact List.getElem?_eq_none_iff.mpr (by simp; omega)

theorem alloc_total (a : ReclaimArena E) (f : E → ℕ) (e : E) :
    total f (a.alloc e).2.slots = total f a.slots + f e := by
  unfold alloc
  split
  · rename_i index rest hf
    have hm : index ∈ a.free := by rw [hf]; exact List.mem_cons_self
    have h := total_set f (a.freeList.lt_length hm) (some e)
    rw [a.freeList.entry_eq_none hm] at h
    simpa using h
  · simp [total]

theorem update_get (a : ReclaimArena E) (i : ℕ) (f : E → E) (j : ℕ) :
    (a.update i f).get j = if j = i then (a.get i).map f else a.get j := by
  unfold update
  split
  · rename_i h
    by_cases hj : j = i
    · subst hj
      rw [if_pos rfl, get, h]
      rfl
    · rw [if_neg hj]
  · rename_i e h
    rw [get, entry_set (lt_length_of_entry h), get, h]
    rfl

theorem update_generation (a : ReclaimArena E) (i : ℕ) (f : E → E) (j : ℕ) :
    (a.update i f).generation j = a.generation j := by
  unfold update
  split <;> rfl

/-- An in-place change that keeps every weight keeps the total. -/
theorem update_total (a : ReclaimArena E) (i : ℕ) {f : E → E} {w : E → ℕ}
    (hw : ∀ e, w (f e) = w e) : total w (a.update i f).slots = total w a.slots := by
  unfold update
  split
  · rfl
  · rename_i e h
    have ht := total_set w (lt_length_of_entry h) (some (f e))
    rw [h] at ht
    simp only [Option.elim_some, hw] at ht
    show total w (a.slots.set i (some (f e))) = _
    omega

theorem sweepSlot_empty {p : ReclaimArena E × ℕ} {i : ℕ} (live : ℕ → Bool) (w : E → ℕ)
    (h : entry p.1.slots i = none) : sweepSlot live w p i = p := by
  unfold sweepSlot
  split
  · rfl
  · rename_i e h'
    nomatch h.symm.trans h'

theorem sweepSlot_kept {live : ℕ → Bool} {p : ReclaimArena E × ℕ} {i : ℕ} (w : E → ℕ)
    (hl : live i = true) : sweepSlot live w p i = p := by
  unfold sweepSlot
  split
  · rfl
  · rw [if_pos hl]

theorem sweepSlot_freed {live : ℕ → Bool} {p : ReclaimArena E × ℕ} {i : ℕ} {e : E} (w : E → ℕ)
    (h : entry p.1.slots i = some e) (hl : ¬ live i = true) :
    sweepSlot live w p i = (p.1.freeSlot i h, p.2 + w e) := by
  unfold sweepSlot
  split
  · rename_i h'
    nomatch h.symm.trans h'
  · rename_i e' h'
    obtain rfl := Option.some.inj (h.symm.trans h')
    rw [if_neg hl]

/-- What a sweep has freed so far and what is left make up what there was. -/
theorem sweepSlot_total (live : ℕ → Bool) (w : E → ℕ) (p : ReclaimArena E × ℕ) (i : ℕ) :
    total w (sweepSlot live w p i).1.slots + (sweepSlot live w p i).2 =
      total w p.1.slots + p.2 := by
  rcases h : entry p.1.slots i with _ | e
  · rw [sweepSlot_empty live w h]
  · by_cases hl : live i = true
    · rw [sweepSlot_kept w hl]
    · rw [sweepSlot_freed w h hl]
      have ht := total_set w (lt_length_of_entry h) none
      rw [h] at ht
      simp only [Option.elim_some, Option.elim_none] at ht
      show total w (p.1.slots.set i none) + (p.2 + w e) = _
      omega

theorem foldl_sweepSlot_total (live : ℕ → Bool) (w : E → ℕ) (is : List ℕ)
    (p : ReclaimArena E × ℕ) :
    total w (is.foldl (sweepSlot live w) p).1.slots + (is.foldl (sweepSlot live w) p).2 =
      total w p.1.slots + p.2 := by
  induction is generalizing p with
  | nil => rfl
  | cons i is ih => rw [List.foldl_cons, ih, sweepSlot_total]

theorem sweep_total (a : ReclaimArena E) (live : ℕ → Bool) (w : E → ℕ) :
    total w (a.sweep live w).1.slots + (a.sweep live w).2 = total w a.slots := by
  have h := foldl_sweepSlot_total live w (List.range a.slots.length) (a, 0)
  simpa [sweep] using h

end ReclaimArena

/-! ## The heap's budget -/

/-- The bound on allocation that no limiter has been asked about (1 GiB). -/
def abortSafetyCap : ℕ := 2 ^ 30

/-- The initial step by which a reservation grows. -/
def reserveBatch : ℕ := 64 * 1024

namespace GcHeap

def new (collecting : Bool) (reservation : ℕ) : GcHeap where
  arena := .empty
  used := 0
  reserved := 0
  reservation := min reservation abortSafetyCap
  collecting

def charge (h : GcHeap) (bytes : ℕ) : GcHeap := { h with used := saturatingAdd h.used bytes }

def credit (h : GcHeap) (bytes : ℕ) : GcHeap := { h with used := h.used - bytes }

def isFreeGrant (h : GcHeap) (target : ℕ) : Bool := target ≤ h.reservation

/-- Whether `size` bytes fit the current reservation. -/
def fits (h : GcHeap) (size : ℕ) : Bool := (checkedAdd h.used size).any (· ≤ h.reserved)

def unreservedCeiling (h : GcHeap) : ℕ := max (max h.reserved h.reservation) abortSafetyCap

/-- Whether an allocation that bypasses the reservation fits under the hard ceiling. -/
def canFitLimit (h : GcHeap) (size : ℕ) : Bool :=
  (checkedAdd h.used size).any (· ≤ h.unreservedCeiling)

/-- Places an object in a free or fresh slot and charges its size; a slot index stays below the
null handle. -/
def alloc (h : GcHeap) (object : GcObject) : Except StoreError (ℕ × GcHeap) :=
  if h.arena.free = [] ∧ nullRef ≤ h.arena.slots.length then .error (.trap .allocationTooLarge)
  else
    let (index, arena) := h.arena.alloc object
    .ok (index, { h with arena, used := saturatingAdd h.used object.byteSize })

/-- Allocates a host- or const-expression-built object under the hard ceiling. -/
def allocUnreserved (h : GcHeap) (object : GcObject) : Except StoreError (ℕ × GcHeap) :=
  if h.canFitLimit object.byteSize then h.alloc object else .error (.trap .allocationTooLarge)

theorem fits_iff {h : GcHeap} {size : ℕ} :
    h.fits size = true ↔ h.used + size ≤ usizeMax ∧ h.used + size ≤ h.reserved := by
  unfold fits checkedAdd
  split <;> simp [*]

theorem canFitLimit_iff {h : GcHeap} {size : ℕ} :
    h.canFitLimit size = true ↔
      h.used + size ≤ usizeMax ∧ h.used + size ≤ h.unreservedCeiling := by
  unfold canFitLimit checkedAdd
  split <;> simp [*]

end GcHeap

/-! ## Allocation -/

namespace StoreInner

/-- A new store of an engine with type registry `engine`. -/
def new (engine : TypeRegistry) (collecting : Bool) (reservation : ℕ) : StoreInner where
  engine
  gc := GcHeap.new collecting reservation
  externrefs := .empty
  exns := .empty
  globals := []
  tables := []
  elems := []
  pendingException := none
  gcRoots := []

/-- Charges an externref entry under the hard ceiling, then stores it. -/
def pushExtern (s : StoreInner) (entry : ExternEntry) : Except StoreError (ℕ × StoreInner) :=
  if s.gc.canFitLimit entry.byteSize then
    let (index, externrefs) := s.externrefs.alloc entry
    .ok (index, { s with gc := s.gc.charge entry.byteSize, externrefs })
  else .error (.trap .allocationTooLarge)

def allocExternref (s : StoreInner) (payload : ℕ) : Except StoreError (ℕ × StoreInner) :=
  s.pushExtern (.host payload)

/-- Charges an exception under the hard ceiling, then stores it. -/
def allocExn (s : StoreInner) (entity : ExnEntity) : Except StoreError (ℕ × StoreInner) :=
  if s.gc.canFitLimit entity.byteSize then
    let (index, exns) := s.exns.alloc entity
    .ok (index, { s with gc := s.gc.charge entity.byteSize, exns })
  else .error (.trap .allocationTooLarge)

/-- Places an object whose budget has been reserved. -/
def allocGc (s : StoreInner) (object : GcObject) : Except StoreError (ℕ × StoreInner) :=
  (s.gc.alloc object).map fun p => (p.1, { s with gc := p.2 })

def allocGcUnreserved (s : StoreInner) (object : GcObject) : Except StoreError (ℕ × StoreInner) :=
  (s.gc.allocUnreserved object).map fun p => (p.1, { s with gc := p.2 })

/-- The wrapper object of an externref; its type id is an unused sentinel. -/
def externWrapper (idx : ℕ) : GcObject := ⟨2 ^ 32 - 1, .extern_, leBytes 4 idx⟩

/-- `extern.convert_any` on a handle: a wrapper unwraps to its externref, any other reference is
internalized in a fresh entry. -/
def externConvertHandle (s : StoreInner) (handle : ℕ) : Except StoreError (ℕ × StoreInner) :=
  match decodeAnyrefHandle handle with
  | .slot i =>
    match s.gc.arena.get i with
    | none => .error (.internal (.gcMetadata "extern.convert_any referenced a missing GC object"))
    | some object =>
      match object.externIndex with
      | some e => .ok (e, s)
      | none => s.pushExtern (.internal handle)
  | .i31 _ => s.pushExtern (.internal handle)

/-- `extern.convert_any`; an operand that is no reference is `unreachable!` in the source. -/
def externConvertAny (s : StoreInner) : Val → Except StoreError (Val × StoreInner)
  | .anyRef none => .ok (.externRef none, s)
  | .anyRef (some handle) =>
    (s.externConvertHandle handle).map fun p => (.externRef (some p.1), p.2)
  | v => .ok (v, s)

/-- `any.convert_extern` on an index: an internalized entry gives its reference back, a host
externref is wrapped in a fresh object. -/
def anyConvertIndex (s : StoreInner) (idx : ℕ) : Except StoreError (ℕ × StoreInner) :=
  match s.externrefs.get idx with
  | some (.internal handle) => .ok (handle, s)
  | some (.host _) => s.allocGcUnreserved (externWrapper idx)
  | none => .error (.internal (.gcMetadata "any.convert_extern referenced a missing externref"))

/-- `any.convert_extern`; an operand that is no reference is `unreachable!` in the source. -/
def anyConvertExtern (s : StoreInner) : Val → Except StoreError (Val × StoreInner)
  | .externRef none => .ok (.anyRef none, s)
  | .externRef (some idx) => (s.anyConvertIndex idx).map fun p => (.anyRef (some p.1), p.2)
  | v => .ok (v, s)

/-- A collection, which always ends. -/
def gcCollect (s : StoreInner) (stackRoots : List (ℕ × RefKind)) :
    Except InternalError StoreInner :=
  (s.collect stackRoots).get (Option.isSome_iff_ne_none.mpr (collect_ne_none s stackRoots))

/-- What the live entries of the three arenas are charged for. -/
def charged (s : StoreInner) : ℕ :=
  total GcObject.byteSize s.gc.arena.slots + total ExternEntry.byteSize s.externrefs.slots +
    total ExnEntity.byteSize s.exns.slots

theorem collect_eq_gcCollect (s : StoreInner) (stackRoots : List (ℕ × RefKind)) :
    s.collect stackRoots = some (s.gcCollect stackRoots) :=
  (Option.some_get _).symm

end StoreInner

end SubmilliWasm
