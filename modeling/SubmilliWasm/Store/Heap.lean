/-
# The managed arenas of a store

The reclaimable arenas of `src/store/reclaim.rs` and `src/store/gc.rs` and the entities of
`src/store/entity.rs`.  The object heap has the same slots, generations and free list as the
two reference arenas, so one type serves all three; it carries the facts that its generation
vector is parallel to its slots and that its free list names the empty slots, each once.

Indices are natural numbers.  The source's have 32 bits, which is enough as long as the byte budget
of a store is below that of 2^31 entries.
-/
import SubmilliWasm.Lib.Slots
import SubmilliWasm.Store.Layout

namespace SubmilliWasm

open Slots

/-! ## Reclaimable arenas -/

/-- Slots, their generations and the recycled indices, top of the stack first. -/
structure ReclaimArena (E : Type) where
  slots : List (Option E)
  generations : List ℕ
  free : List ℕ
  parallel : generations.length = slots.length
  freeList : FreeList slots free

namespace ReclaimArena

variable {E : Type}

def empty : ReclaimArena E := ⟨[], [], [], rfl, FreeList.nil⟩

/-- The entry at `index`, or `none` if out of range or swept. -/
def get (a : ReclaimArena E) (index : ℕ) : Option E := entry a.slots index

def generation (a : ReclaimArena E) (index : ℕ) : Option ℕ := a.generations[index]?

/-- Places an entity in a freed slot, keeping its generation, or in a fresh one. -/
def alloc (a : ReclaimArena E) (e : E) : ℕ × ReclaimArena E :=
  match hf : a.free with
  | index :: rest =>
    (index, { a with
      slots := a.slots.set index (some e)
      free := rest
      parallel := by rw [List.length_set, a.parallel]
      freeList := (hf ▸ a.freeList : FreeList a.slots (index :: rest)).fill e })
  | [] =>
    (a.slots.length, { a with
      slots := a.slots ++ [some e]
      generations := a.generations ++ [0]
      parallel := by simp [a.parallel]
      freeList := by
        have h := a.freeList.grow
        rw [hf, List.nil_append] at h
        have h' := h.fill e
        rw [hf]
        simpa using h' })

/-- The generation after a slot is freed: `u32::MAX` is reserved and skipped. -/
def nextGeneration (g : ℕ) : ℕ :=
  let next := (g + 1) % 2 ^ 32
  if next = 2 ^ 32 - 1 then 0 else next

/-- Empties an occupied slot, advances its generation and recycles its index. -/
def freeSlot (a : ReclaimArena E) (i : ℕ) {e : E} (h : entry a.slots i = some e) :
    ReclaimArena E where
  slots := a.slots.set i none
  generations := a.generations.set i (nextGeneration (a.generations.getD i 0))
  free := i :: a.free
  parallel := by rw [List.length_set, List.length_set, a.parallel]
  freeList := a.freeList.vacate h

/-- One iteration of a sweep: slot `i` is freed if it is occupied and not live. -/
def sweepSlot (live : ℕ → Bool) (byteOf : E → ℕ) (p : ReclaimArena E × ℕ) (i : ℕ) :
    ReclaimArena E × ℕ :=
  match h : entry p.1.slots i with
  | none => p
  | some e => if live i then p else (p.1.freeSlot i h, p.2 + byteOf e)

/-- Frees every occupied slot outside `live`; also returns the bytes freed. -/
def sweep (a : ReclaimArena E) (live : ℕ → Bool) (byteOf : E → ℕ) : ReclaimArena E × ℕ :=
  (List.range a.slots.length).foldl (sweepSlot live byteOf) (a, 0)

/-! ## What a sweep does -/

theorem freeSlot_get (a : ReclaimArena E) (i : ℕ) {e : E} (h : entry a.slots i = some e) (j : ℕ) :
    (a.freeSlot i h).get j = if j = i then none else a.get j :=
  entry_set (lt_length_of_entry h) none j

theorem freeSlot_generation (a : ReclaimArena E) (i : ℕ) {e : E}
    (h : entry a.slots i = some e) (j : ℕ) :
    (a.freeSlot i h).generation j =
      if j = i then (a.generation i).map nextGeneration else a.generation j := by
  have hi : i < a.generations.length := a.parallel ▸ lt_length_of_entry h
  unfold generation freeSlot
  rw [List.getElem?_set]
  by_cases hij : j = i
  · subst hij
    simp [hi]
  · rw [if_neg (Ne.symm hij), if_neg hij]

theorem freeSlot_length (a : ReclaimArena E) (i : ℕ) {e : E} (h : entry a.slots i = some e) :
    (a.freeSlot i h).slots.length = a.slots.length := by
  rw [freeSlot, List.length_set]

/-- What a loop over the indices `is` has done: the occupied slots among them that are not live
have been emptied and their generation advanced once; all else is as before. -/
structure Swept (live : ℕ → Bool) (is : List ℕ) (a a' : ReclaimArena E) : Prop where
  length : a'.slots.length = a.slots.length
  get : ∀ j, a'.get j = if j ∈ is ∧ live j = false then none else a.get j
  generation : ∀ j, a'.generation j =
    if j ∈ is ∧ live j = false ∧ a.get j ≠ none then (a.generation j).map nextGeneration
    else a.generation j

theorem Swept.nil (live : ℕ → Bool) (a : ReclaimArena E) : Swept live [] a a :=
  ⟨rfl, by simp, by simp⟩

/-- The loop's step, at an index not swept yet. -/
theorem Swept.snoc {live : ℕ → Bool} {is : List ℕ} {a : ReclaimArena E}
    {p : ReclaimArena E × ℕ} (byteOf : E → ℕ) (hs : Swept live is a p.1) {i : ℕ} (hi : i ∉ is) :
    Swept live (is ++ [i]) a (sweepSlot live byteOf p i).1 := by
  have hmem : ∀ j, j ∈ is ++ [i] ↔ j ∈ is ∨ j = i := by simp
  have hgi : p.1.get i = a.get i := by rw [hs.get, if_neg fun h => hi h.1]
  have hgen : p.1.generation i = a.generation i := by rw [hs.generation, if_neg fun h => hi h.1]
  unfold sweepSlot
  split
  · -- The slot is empty already.
    rename_i h
    have hnone : a.get i = none := hgi ▸ h
    refine ⟨hs.length, fun j => ?_, fun j => ?_⟩
    · rw [hs.get]
      by_cases hj : j = i
      · subst hj
        simp [hnone]
      · simp [hmem, hj]
    · rw [hs.generation]
      by_cases hj : j = i
      · subst hj
        simp [hi, hnone]
      · simp [hmem, hj]
  · rename_i e h
    have hsome : a.get i = some e := hgi ▸ h
    by_cases hlive : live i = true
    · rw [if_pos hlive]
      refine ⟨hs.length, fun j => ?_, fun j => ?_⟩
      · rw [hs.get]
        by_cases hj : j = i
        · subst hj
          simp [hlive]
        · simp [hmem, hj]
      · rw [hs.generation]
        by_cases hj : j = i
        · subst hj
          simp [hlive]
        · simp [hmem, hj]
    · rw [if_neg hlive]
      have hdead : live i = false := by simpa using hlive
      refine ⟨by rw [freeSlot_length, hs.length], fun j => ?_, fun j => ?_⟩
      · rw [freeSlot_get, hs.get]
        by_cases hj : j = i
        · subst hj
          simp [hdead]
        · simp [hmem, hj]
      · rw [freeSlot_generation]
        by_cases hj : j = i
        · subst hj
          simp [hdead, hsome, hgen]
        · rw [if_neg hj, hs.generation]
          simp [hmem, hj]

theorem foldl_sweepSlot_spec (live : ℕ → Bool) (byteOf : E → ℕ) {a : ReclaimArena E}
    (todo : List ℕ) {is : List ℕ} {p : ReclaimArena E × ℕ} (hs : Swept live is a p.1)
    (hnd : (is ++ todo).Nodup) :
    Swept live (is ++ todo) a (todo.foldl (sweepSlot live byteOf) p).1 := by
  induction todo generalizing is p with
  | nil => simpa using hs
  | cons i todo ih =>
    have hi : i ∉ is := fun h => by
      have := List.nodup_append.mp hnd
      exact this.2.2 i h i List.mem_cons_self rfl
    have hnd' : ((is ++ [i]) ++ todo).Nodup := by simpa using hnd
    simpa using ih (hs.snoc byteOf hi) hnd'

/-- **Sweeping.**  A live index keeps its entry and generation; any other occupied slot is
emptied and its generation advanced once. -/
theorem sweep_spec (a : ReclaimArena E) (live : ℕ → Bool) (byteOf : E → ℕ) (j : ℕ) :
    (a.sweep live byteOf).1.get j = (if live j then a.get j else none) ∧
    (a.sweep live byteOf).1.generation j =
      if live j = false ∧ a.get j ≠ none then (a.generation j).map nextGeneration
      else a.generation j := by
  have hs := foldl_sweepSlot_spec live byteOf (List.range a.slots.length)
    (Swept.nil live a) (p := (a, 0)) (by simpa using List.nodup_range)
  rw [List.nil_append] at hs
  have hget := hs.get j
  have hgen := hs.generation j
  -- An index past the end is empty before and after.
  have hout : j ∉ List.range a.slots.length → a.get j = none := by
    intro h
    exact entry_of_length_le (by simpa using h)
  constructor
  · rw [sweep, hget]
    by_cases hj : j ∈ List.range a.slots.length
    · cases hl : live j <;> simp [hj]
    · simp [hj, hout hj]
  · rw [sweep, hgen]
    by_cases hj : j ∈ List.range a.slots.length
    · simp [hj]
    · simp [hj, hout hj]

theorem sweep_live {a : ReclaimArena E} {l : ℕ → Bool} (byteOf : E → ℕ) {j : ℕ}
    (h : l j = true) :
    (a.sweep l byteOf).1.get j = a.get j ∧
    (a.sweep l byteOf).1.generation j = a.generation j := by
  have hs := a.sweep_spec l byteOf j
  rw [if_pos h, if_neg (by simp [h])] at hs
  exact hs

theorem sweep_dead {a : ReclaimArena E} {l : ℕ → Bool} (byteOf : E → ℕ) {j : ℕ}
    (h : l j = false) :
    (a.sweep l byteOf).1.get j = none ∧
    (a.get j ≠ none →
      (a.sweep l byteOf).1.generation j = (a.generation j).map nextGeneration) ∧
    (¬ a.get j ≠ none → (a.sweep l byteOf).1.generation j = a.generation j) := by
  have hs := a.sweep_spec l byteOf j
  rw [if_neg (by simp [h])] at hs
  exact ⟨hs.1, fun hl => hs.2.trans (if_pos ⟨h, hl⟩),
    fun hl => hs.2.trans (if_neg fun hc => hl hc.2)⟩

end ReclaimArena

/-! ## Entities -/

inductive ObjKind where
  | struct
  | array
  | extern_
  deriving DecidableEq, Repr

/-- A managed object: its header and its packed body. -/
structure GcObject where
  typeId : CanonicalTypeId
  kind : ObjKind
  data : List UInt8
  deriving DecidableEq, Repr

/-- The wrapped externref index, if this is an extern wrapper whose body is complete. -/
def GcObject.externIndex (o : GcObject) : Option ℕ :=
  match o.kind with
  | .extern_ => (slice o.data 0 4).map leNat
  | .struct | .array => none

/-- The element count of an array body; every constructor takes a 32-bit count, so the source's
conversion to `u32` loses nothing. -/
def GcObject.arrayLen (o : GcObject) (stride : ℕ) : ℕ := o.data.length / max stride 1

/-- An entry of the externref arena: a host payload, of which only the identity matters, or an
internalized `anyref` handle. -/
inductive ExternEntry where
  | host (payload : ℕ)
  | internal (handle : ℕ)
  deriving DecidableEq, Repr

/-- An exception instance: the tag's store address and the values it carries. -/
structure ExnEntity where
  tag : ℕ
  args : List Val
  deriving DecidableEq, Repr

/-! ## The store -/

def objectOverhead : ℕ := 44

def arenaEntryOverhead : ℕ := 64

/-- `size_of::<Val>()`; nothing below depends on the figure. -/
def valSize : ℕ := 32

def GcObject.byteSize (o : GcObject) : ℕ := objectOverhead + o.data.length

def ExternEntry.byteSize (_ : ExternEntry) : ℕ := arenaEntryOverhead

def exnCharge (nArgs : ℕ) : ℕ := arenaEntryOverhead + nArgs * valSize

def ExnEntity.byteSize (e : ExnEntity) : ℕ := exnCharge e.args.length

/-- The object heap: its slots, the bytes backing live entries of all three arenas, and whether a
tracing collector runs.  The mark bitmap is empty between collections and is local to one here. -/
structure GcHeap where
  arena : ReclaimArena GcObject
  used : ℕ
  reserved : ℕ
  reservation : ℕ
  collecting : Bool

/-- The part of a store the collector reads and writes, with the engine's type registry. -/
structure StoreInner where
  engine : TypeRegistry
  gc : GcHeap
  externrefs : ReclaimArena ExternEntry
  exns : ReclaimArena ExnEntity
  globals : List Val
  tables : List (List Ref)
  /-- The element instances of every instance. -/
  elems : List (List (List Ref))
  pendingException : Option ℕ
  gcRoots : List (ℕ × RefKind)

end SubmilliWasm
