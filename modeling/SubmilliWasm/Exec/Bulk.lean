/-
# Bulk ops

The bulk ops of tables (`src/exec/table.rs`) and of arrays (`src/exec/gc_array.rs`), beside those
of memories.  Each checks its ranges before it writes, and takes a snapshot of what it copies, so
that it either traps and changes nothing or leaves the state in which every source element was
read before the first was written, whichever entities its indices name.
-/
import SubmilliWasm.Exec.Memory

namespace SubmilliWasm

open Handler
open Ranges (window overwrite setFrom Copied chunk)

/-! ## Tables -/

/-- Fills `len` elements from `dst` on; `none` if they are out of bounds. -/
def TableEntity.fill (t : TableEntity) (dst : ℕ) (val : Ref) (len : ℕ) : Option (List Ref) :=
  match checkedAdd dst len with
  | none => none
  | some stop =>
    if stop ≤ t.size then some (setFrom t.elems dst (List.replicate (stop - dst) val)) else none

/-- The elements an element segment still has. -/
def EntityStore.elemAt (s : EntityStore) (inst elem : ℕ) : Option (List Ref) :=
  (s.instances[inst]?).bind fun i => i.elems[elem]?

namespace Handler

variable {σ : Type}

/-- Pops a reference of a statically known hierarchy. -/
def popRef (kind : RefKind) (k : Ref → Handler σ) : Handler σ :=
  pop1 (refOf kind) fun o => k (o.toRef kind)

/-- Goes on with a result, or fails with its error. -/
def orFail {α : Type} (r : Except ExecError α) (k : α → Handler σ) : Handler σ :=
  match r with
  | .error err => .done (.error err)
  | .ok a => k a

end Handler

def tableFill (inst table : ℕ) (k : Handler EntityStore) : Handler EntityStore :=
  .get fun s =>
    at_ (s.tableAt inst table) fun (h, t) =>
      popIndex t.ty.table64 fun len =>
        popRef t.kind fun val =>
          popIndex t.ty.table64 fun dst =>
            match t.fill dst val len with
            | none => .done (.error .tableOutOfBounds)
            | some elems => .set (s.setElems h t elems) k

def tableInit (inst elem table : ℕ) (k : Handler EntityStore) : Handler EntityStore :=
  .get fun s =>
    at_ (s.tableAt inst table) fun (h, t) =>
      -- A segment is indexed in 32 bits; only the table's side is index-typed.
      popI32 fun len =>
        popI32 fun src =>
          popIndex t.ty.table64 fun dst =>
            at_ (s.elemAt inst elem) fun refs =>
              checkedRange src.toNat len.toNat refs.length .tableOutOfBounds fun srcEnd =>
                checkedRange dst len.toNat t.size .tableOutOfBounds fun _ =>
                  .set (s.setElems h t
                    (setFrom t.elems dst (window refs src.toNat (srcEnd - src.toNat)))) k

/-- The source range is taken as a snapshot, so overlap and two indices of one table are safe. -/
def tableCopy (inst dstTable srcTable : ℕ) (k : Handler EntityStore) : Handler EntityStore :=
  .get fun s =>
    at_ (s.tableAt inst dstTable) fun (h, d) =>
      at_ (s.tableAt inst srcTable) fun (_, t) =>
        popIndex (d.ty.table64 && t.ty.table64) fun len =>
          popIndex t.ty.table64 fun src =>
            popIndex d.ty.table64 fun dst =>
              checkedRange src len t.size .tableOutOfBounds fun srcEnd =>
                checkedRange dst len d.size .tableOutOfBounds fun _ =>
                  .set (s.setElems h d
                    (setFrom d.elems dst (window t.elems src (srcEnd - src)))) k

def elemDrop (inst elem : ℕ) (k : Handler EntityStore) : Handler EntityStore :=
  .get fun s =>
    at_ s.instances[inst]? fun i =>
      .set { s with instances := s.instances.set inst { i with elems := i.elems.set elem [] } } k

/-! ## Arrays -/

/-- The kind of cell that a field's value has on the stack. -/
def stackSlotForField : Slot → Slot
  | .scalar _ .i8 | .scalar _ .i16 => .scalar 0 .i32
  | .scalar _ kind => .scalar 0 kind
  | .ref _ kind => .ref 0 kind

def Slot.tag : Slot → RefTag
  | .scalar _ _ => .none
  | .ref _ kind => RefTag.ofRefkind kind

def fieldTag (slot : Slot) (os : List Operand) : Option ExecError :=
  if os.any fun o => o.tag ≠ (stackSlotForField slot).tag then
    some (.operandStack "operand tag does not match field type")
  else none

/-- The value of a field in a cell; a `v128` does not fit one of the default build. -/
def Operand.fieldVal (slot : Slot) (o : Operand) : Option Val :=
  readSlot (stackSlotForField slot) (leBytes 8 o.cell.toNat)

def Val.ofRef : Ref → Val
  | .func r => .funcRef r
  | .extern_ r => .externRef r
  | .any r => .anyRef r
  | .exn r => .exnRef r

namespace EntityStore

/-- The layout of an array type of an instance's module. -/
def arrayLayoutAt (s : EntityStore) (inst ty : ℕ) : Except ExecError ArrayLayout :=
  match ((s.instances[inst]?).bind fun i => i.types[ty]?).bind Layout.fromBody with
  | some (.array layout) => .ok layout
  | _ => .error (.msg "not an array type")

def objectAt (s : EntityStore) (obj : ℕ) : Except ExecError GcObject :=
  match s.objects.get obj with
  | some o => .ok o
  | none => .error (.gcMetadata "array operand refers to a missing object")

def setData (s : EntityStore) (obj : ℕ) (data : List UInt8) : EntityStore :=
  { s with objects := s.objects.update obj fun o => { o with data := data } }

end EntityStore

/-- The slot of an array operand. -/
def anyrefSlot (o : Operand) : Except ExecError ℕ :=
  if o.cell.isNull then .error .nullArrayReference
  else
    match decodeAnyrefHandle o.cell.handle with
    | .slot i => .ok i
    | .i31 _ => .error (.operandStack "aggregate operand is an i31")

/-- Writes values into the elements from `i` on. -/
def writeFrom (layout : ArrayLayout) (data : List UInt8) : ℕ → List Val → Option (List UInt8)
  | _, [] => some data
  | i, v :: vs =>
    match writeSlot (layout.elemAt i) data v with
    | none => none
    | some data' => writeFrom layout data' (i + 1) vs

namespace Handler

def popValFor (slot : Slot) (k : Val → Handler EntityStore) : Handler EntityStore :=
  pop1 (fieldTag slot) fun o => at_ (o.fieldVal slot) k

def popAnyref (k : Operand → Handler EntityStore) : Handler EntityStore := pop1 (refOf .any) k

end Handler

def arrayFill (inst ty : ℕ) (k : Handler EntityStore) : Handler EntityStore :=
  .get fun s =>
    orFail (s.arrayLayoutAt inst ty) fun layout =>
      popI32 fun len =>
        popValFor (layout.elemAt 0) fun v =>
          popI32 fun idx =>
            popAnyref fun r =>
              orFail (anyrefSlot r) fun obj =>
                orFail (s.objectAt obj) fun o =>
                  checkedRange idx.toNat len.toNat (o.arrayLen layout.stride) .arrayOutOfBounds
                    fun _ =>
                      at_ (writeFrom layout o.data idx.toNat (List.replicate len.toNat v))
                        fun data => .set (s.setData obj data) k

/-- A byte copy, which serves references as well; a snapshot, so one array may be both sides. -/
def arrayCopy (inst dstTy : ℕ) (k : Handler EntityStore) : Handler EntityStore :=
  .get fun s =>
    orFail (s.arrayLayoutAt inst dstTy) fun layout =>
      popI32 fun len =>
        popI32 fun srcIdx =>
          popAnyref fun srcR =>
            popI32 fun dstIdx =>
              popAnyref fun dstR =>
                orFail (anyrefSlot srcR) fun src =>
                  orFail (anyrefSlot dstR) fun dst =>
                    orFail (s.objectAt src) fun a =>
                      checkedRange srcIdx.toNat len.toNat (a.arrayLen layout.stride)
                        .arrayOutOfBounds fun _ =>
                          orFail (s.objectAt dst) fun b =>
                            checkedRange dstIdx.toNat len.toNat (b.arrayLen layout.stride)
                              .arrayOutOfBounds fun _ =>
                                .set (s.setData dst (overwrite b.data (dstIdx.toNat * layout.stride)
                                  (window a.data (srcIdx.toNat * layout.stride)
                                    (len.toNat * layout.stride)))) k

/-- The range of the array is checked before that of the segment. -/
def arrayInitData (inst ty seg : ℕ) (k : Handler EntityStore) : Handler EntityStore :=
  .get fun s =>
    orFail (s.arrayLayoutAt inst ty) fun layout =>
      popI32 fun len =>
        popI32 fun src =>
          popI32 fun dst =>
            popAnyref fun r =>
              orFail (anyrefSlot r) fun obj =>
                orFail (s.objectAt obj) fun o =>
                  checkedRange dst.toNat len.toNat (o.arrayLen layout.stride) .arrayOutOfBounds
                    fun _ =>
                      match checkedMul len.toNat layout.stride with
                      | none => .done (.error .allocationTooLarge)
                      | some byteLen =>
                        at_ (s.dataAt inst seg) fun data =>
                          checkedRange src.toNat byteLen data.length .memoryOutOfBounds fun _ =>
                            .set (s.setData obj (overwrite o.data (dst.toNat * layout.stride)
                              (window data src.toNat byteLen))) k

def arrayInitElem (inst ty elem : ℕ) (k : Handler EntityStore) : Handler EntityStore :=
  .get fun s =>
    orFail (s.arrayLayoutAt inst ty) fun layout =>
      popI32 fun len =>
        popI32 fun src =>
          popI32 fun dst =>
            popAnyref fun r =>
              orFail (anyrefSlot r) fun obj =>
                orFail (s.objectAt obj) fun o =>
                  checkedRange dst.toNat len.toNat (o.arrayLen layout.stride) .arrayOutOfBounds
                    fun _ =>
                      at_ (s.elemAt inst elem) fun refs =>
                        checkedRange src.toNat len.toNat refs.length .tableOutOfBounds fun _ =>
                          at_ (writeFrom layout o.data dst.toNat
                            ((window refs src.toNat len.toNat).map Val.ofRef))
                            fun data => .set (s.setData obj data) k

/-- The bulk ops by their op. -/
def execBulk (C : CompiledFunc) (op : PlainOp MemArg) (inst next : ℕ) : Handler EntityStore :=
  let advance : Handler EntityStore := .done (.ok (.advance next))
  match op with
  | .tableFill table => tableFill inst table advance
  | .tableInit elem table => tableInit inst elem table advance
  | .tableCopy dst src => tableCopy inst dst src advance
  | .elemDrop elem => elemDrop inst elem advance
  | .arrayFill ty => arrayFill inst ty advance
  | .arrayCopy dst _ => arrayCopy inst dst advance
  | .arrayInitData ty seg => arrayInitData inst ty seg advance
  | .arrayInitElem ty elem => arrayInitElem inst ty elem advance
  | op => execMemory C op inst next

/-! ## Vectors of a store -/

/-- Every vector's length is a `usize`. -/
structure EntityStore.Fits (s : EntityStore) : Prop where
  memories : ∀ m ∈ s.memories, m.bytes.length ≤ usizeMax
  tables : ∀ t ∈ s.tables, t.elems.length ≤ usizeMax
  datas : ∀ i ∈ s.instances, ∀ d ∈ i.datas, d.length ≤ usizeMax
  elems : ∀ i ∈ s.instances, ∀ refs ∈ i.elems, refs.length ≤ usizeMax
  objects : ∀ slot o, s.objects.get slot = some o → o.data.length ≤ usizeMax

namespace EntityStore

variable {s : EntityStore}

theorem Fits.memoryAt (hs : s.Fits) {inst idx h : ℕ} {m : MemoryEntity}
    (hm : s.memoryAt inst idx = some (h, m)) : m.bytes.length ≤ usizeMax := by
  unfold EntityStore.memoryAt at hm
  split at hm
  · nomatch hm
  · obtain ⟨m', hget, heq⟩ := Option.map_eq_some_iff.mp hm
    obtain ⟨-, rfl⟩ := Prod.mk.inj heq
    exact hs.memories _ (List.mem_of_getElem? hget)

theorem Fits.tableAt (hs : s.Fits) {inst idx h : ℕ} {t : TypedTable}
    (ht : s.tableAt inst idx = some (h, t)) : t.elems.length ≤ usizeMax := by
  unfold EntityStore.tableAt at ht
  split at ht
  · nomatch ht
  · obtain ⟨t', hget, heq⟩ := Option.map_eq_some_iff.mp ht
    obtain ⟨-, rfl⟩ := Prod.mk.inj heq
    exact hs.tables _ (List.mem_of_getElem? hget)

theorem Fits.dataAt (hs : s.Fits) {inst seg : ℕ} {data : List UInt8}
    (hd : s.dataAt inst seg = some data) : data.length ≤ usizeMax := by
  unfold EntityStore.dataAt at hd
  split at hd
  · nomatch hd
  · rename_i i hi
    split at hd
    · rename_i dropped bytes hdrop hbytes
      obtain rfl := Option.some.inj hd
      split
      · exact Nat.zero_le _
      · exact hs.datas i (List.mem_of_getElem? hi) bytes (List.mem_of_getElem? hbytes)
    · nomatch hd

theorem Fits.elemAt (hs : s.Fits) {inst elem : ℕ} {refs : List Ref}
    (hr : s.elemAt inst elem = some refs) : refs.length ≤ usizeMax := by
  obtain ⟨i, hi, helem⟩ := Option.bind_eq_some_iff.mp hr
  exact hs.elems i (List.mem_of_getElem? hi) refs (List.mem_of_getElem? helem)

theorem Fits.arrayLen (hs : s.Fits) {obj : ℕ} {o : GcObject} (ho : s.objectAt obj = .ok o)
    (stride : ℕ) : o.arrayLen stride ≤ usizeMax := by
  unfold EntityStore.objectAt at ho
  split at ho
  · rename_i o' hget
    obtain rfl := Except.ok.inj ho
    exact le_trans (Nat.div_le_self _ _) (hs.objects _ _ hget)
  · nomatch ho

end EntityStore

/-! ## Ranges in unbounded arithmetic -/

/-- What a bulk op does: it traps and changes nothing, or the store becomes one of `done`. -/
structure Bulk (r : Execution × EntityStore × Except ExecError StepOutcome) (e : Execution)
    (s : EntityStore) (next : ℕ) (fits : Prop) (done : EntityStore → Prop) : Prop where
  traps : ¬fits → ∃ code, r = (e, s, .error (.trap code))
  writes : fits → ∃ s', r = (e, s', .ok (.advance next)) ∧ done s'

section Running

variable {e : Execution} {base : ℕ}

/-- The check of a range is one comparison in unbounded arithmetic. -/
theorem run_checkedRange {start len total : ℕ} {trap : ExecError} {k : ℕ → Handler EntityStore}
    (h : total ≤ usizeMax) (s : EntityStore) :
    (checkedRange start len total trap k).run base e s =
      if start + len ≤ total then (k (start + len)).run base e s else (e, s, .error trap) := by
  unfold checkedRange checkedAdd
  by_cases hfit : start + len ≤ usizeMax
  · rw [if_pos hfit]
    dsimp only
    split <;> rfl
  · rw [if_neg hfit, if_neg (by omega)]
    rfl

/-- Two ranges checked one after the other before the write. -/
theorem bulk_of_ranges {src len n dst len' m next t₁ t₂ : ℕ} {s : EntityStore}
    {k : ℕ → ℕ → Handler EntityStore} {done : EntityStore → Prop} (hn : n ≤ usizeMax)
    (hm : m ≤ usizeMax) (hdone : src + len ≤ n → dst + len' ≤ m →
      ∃ s', (k (src + len) (dst + len')).run base e s = (e, s', .ok (.advance next)) ∧ done s') :
    Bulk ((checkedRange src len n (.trap t₁) fun i =>
        checkedRange dst len' m (.trap t₂) fun j => k i j).run base e s) e s next
      (src + len ≤ n ∧ dst + len' ≤ m) done := by
  rw [run_checkedRange hn, run_checkedRange hm]
  constructor
  · intro hfits
    by_cases h1 : src + len ≤ n
    · rw [if_pos h1, if_neg fun h2 => hfits ⟨h1, h2⟩]
      exact ⟨t₂, rfl⟩
    · rw [if_neg h1]
      exact ⟨t₁, rfl⟩
  · rintro ⟨h1, h2⟩
    rw [if_pos h1, if_pos h2]
    exact hdone h1 h2

end Running

/-! ## What the ops on memories and tables do -/

section Clauses

variable (C : CompiledFunc) (e : Execution) (s : EntityStore) (inst base next : ℕ)

/-- `memory.fill` writes one byte over a range. -/
def FillsMemory : Prop :=
  ∀ {idx h m}, s.memoryAt inst idx = some (h, m) → ∀ dst val len : Cell,
  Bulk ((execBulk C (.memoryFill idx) inst next).run base
      (((e.push (.scalar dst)).push (.scalar val)).push (.scalar len)) s) e s next
    (dst.index m.ty.memory64 + len.index m.ty.memory64 ≤ m.bytes.length)
    fun s' => ∃ bytes, s' = s.setBytes h m bytes ∧
      Copied m.bytes
        (List.replicate (len.index m.ty.memory64) (UInt8.ofNat val.unwrapI32.toNat)) bytes 0
        (dst.index m.ty.memory64) (len.index m.ty.memory64)

/-- `memory.copy`, within one memory, under two indices of it, or between two. -/
def CopiesMemory : Prop :=
  ∀ {dstIdx srcIdx h h' d m}, s.memoryAt inst dstIdx = some (h, d) →
  s.memoryAt inst srcIdx = some (h', m) → ∀ dst src len : Cell,
  Bulk ((execBulk C (.memoryCopy dstIdx srcIdx) inst next).run base
      (((e.push (.scalar dst)).push (.scalar src)).push (.scalar len)) s) e s next
    (src.index m.ty.memory64 + len.index (d.ty.memory64 && m.ty.memory64) ≤ m.bytes.length ∧
      dst.index d.ty.memory64 + len.index (d.ty.memory64 && m.ty.memory64) ≤ d.bytes.length)
    fun s' => ∃ bytes, s' = s.setBytes h d bytes ∧
      Copied d.bytes m.bytes bytes (src.index m.ty.memory64) (dst.index d.ty.memory64)
        (len.index (d.ty.memory64 && m.ty.memory64))

/-- `memory.init` copies a range of a data segment. -/
def InitsMemory : Prop :=
  ∀ {seg idx h m data}, s.memoryAt inst idx = some (h, m) →
  s.dataAt inst seg = some data → ∀ dst src len : Cell,
  Bulk ((execBulk C (.memoryInit seg idx) inst next).run base
      (((e.push (.scalar dst)).push (.scalar src)).push (.scalar len)) s) e s next
    (src.unwrapI32.toNat + len.unwrapI32.toNat ≤ data.length ∧
      dst.index m.ty.memory64 + len.unwrapI32.toNat ≤ m.bytes.length)
    fun s' => ∃ bytes, s' = s.setBytes h m bytes ∧
      Copied m.bytes data bytes src.unwrapI32.toNat (dst.index m.ty.memory64)
        len.unwrapI32.toNat

/-- `table.fill` writes one reference over a range. -/
def FillsTable : Prop :=
  ∀ {table h t}, s.tableAt inst table = some (h, t) → ∀ dst val len : Cell,
  Bulk ((execBulk C (.tableFill table) inst next).run base
      (((e.push (.scalar dst)).push ⟨val, RefTag.ofRefkind t.kind⟩).push (.scalar len)) s) e s next
    (dst.index t.ty.table64 + len.index t.ty.table64 ≤ t.elems.length)
    fun s' => ∃ elems, s' = s.setElems h t elems ∧
      Copied t.elems
        (List.replicate (len.index t.ty.table64)
          (Operand.toRef t.kind ⟨val, RefTag.ofRefkind t.kind⟩)) elems 0
        (dst.index t.ty.table64) (len.index t.ty.table64)

/-- `table.copy`, within one table, under two indices of it, or between two. -/
def CopiesTable : Prop :=
  ∀ {dstTable srcTable h h' d t}, s.tableAt inst dstTable = some (h, d) →
  s.tableAt inst srcTable = some (h', t) → ∀ dst src len : Cell,
  Bulk ((execBulk C (.tableCopy dstTable srcTable) inst next).run base
      (((e.push (.scalar dst)).push (.scalar src)).push (.scalar len)) s) e s next
    (src.index t.ty.table64 + len.index (d.ty.table64 && t.ty.table64) ≤ t.elems.length ∧
      dst.index d.ty.table64 + len.index (d.ty.table64 && t.ty.table64) ≤ d.elems.length)
    fun s' => ∃ elems, s' = s.setElems h d elems ∧
      Copied d.elems t.elems elems (src.index t.ty.table64) (dst.index d.ty.table64)
        (len.index (d.ty.table64 && t.ty.table64))

/-- `table.init` copies a range of an element segment. -/
def InitsTable : Prop :=
  ∀ {elem table h t refs}, s.tableAt inst table = some (h, t) →
  s.elemAt inst elem = some refs → ∀ dst src len : Cell,
  Bulk ((execBulk C (.tableInit elem table) inst next).run base
      (((e.push (.scalar dst)).push (.scalar src)).push (.scalar len)) s) e s next
    (src.unwrapI32.toNat + len.unwrapI32.toNat ≤ refs.length ∧
      dst.index t.ty.table64 + len.unwrapI32.toNat ≤ t.elems.length)
    fun s' => ∃ elems, s' = s.setElems h t elems ∧
      Copied t.elems refs elems src.unwrapI32.toNat (dst.index t.ty.table64)
        len.unwrapI32.toNat

end Clauses

/-! ## Memories -/

section Ops

variable {e : Execution} {s : EntityStore} (he : e.Ready) (hs : s.Fits) (C : CompiledFunc)
  (inst base next : ℕ)

include he hs

theorem memoryFill_bulk : FillsMemory C e s inst base next := by
  intro idx h m hm dst val len
  have hop : execBulk C (.memoryFill idx) inst next =
      memoryFill inst idx (.done (.ok (.advance next))) := rfl
  rw [hop, memoryFill, Handler.run, hm]
  dsimp only [at_]
  rw [run_popIndex ((he.push _).push _), run_popI32 (he.push _), run_popIndex he,
    run_checkedRange (hs.memoryAt hm)]
  constructor
  · intro hfits
    rw [if_neg hfits]
    exact ⟨_, rfl⟩
  · intro hfits
    rw [if_pos hfits, Nat.add_sub_cancel_left]
    exact ⟨_, rfl, _, rfl, Ranges.copied_fill _ hfits⟩

theorem memoryCopy_bulk : CopiesMemory C e s inst base next := by
  intro dstIdx srcIdx h h' d m hd hm dst src len
  have hop : execBulk C (.memoryCopy dstIdx srcIdx) inst next =
      memoryCopy inst dstIdx srcIdx (.done (.ok (.advance next))) := rfl
  rw [hop, memoryCopy, Handler.run, hd]
  dsimp only [at_]
  rw [hm]
  dsimp only
  rw [run_popIndex ((he.push _).push _), run_popIndex (he.push _), run_popIndex he]
  by_cases heq : dstIdx = srcIdx
  · -- within one index the source is the destination
    subst heq
    obtain ⟨-, rfl⟩ := Prod.mk.inj (Option.some.inj (hd.symm.trans hm))
    simp only [ite_self]
    exact bulk_of_ranges (hs.memoryAt hm) (hs.memoryAt hd) fun h1 h2 =>
      ⟨_, rfl, _, rfl, Ranges.copied_overwrite h1 h2⟩
  · simp only [if_neg heq]
    exact bulk_of_ranges (hs.memoryAt hm) (hs.memoryAt hd) fun h1 h2 =>
      ⟨_, rfl, _, rfl, Ranges.copied_overwrite h1 h2⟩

theorem memoryInit_bulk : InitsMemory C e s inst base next := by
  intro seg idx h m data hm hdata dst src len
  have hop : execBulk C (.memoryInit seg idx) inst next =
      memoryInit inst seg idx (.done (.ok (.advance next))) := rfl
  rw [hop, memoryInit, Handler.run, hm]
  dsimp only [at_]
  rw [run_popI32 ((he.push _).push _), run_popI32 (he.push _), run_popIndex he, hdata]
  dsimp only
  refine bulk_of_ranges (hs.dataAt hdata) (hs.memoryAt hm) fun h1 h2 => ⟨_, rfl, _, rfl, ?_⟩
  rw [Nat.add_sub_cancel_left]
  exact Ranges.copied_overwrite h1 h2

/-! ## Tables -/

omit hs in
theorem run_popRef {σ : Type} {kind : RefKind} {k : Ref → Handler σ} (c : Cell) (s : σ) :
    (popRef kind k).run base (e.push ⟨c, RefTag.ofRefkind kind⟩) s =
      (k (Operand.toRef kind ⟨c, RefTag.ofRefkind kind⟩)).run base e s := by
  apply run_pop1 he
  rw [refOf]
  simp

theorem tableFill_bulk : FillsTable C e s inst base next := by
  intro table h t ht dst val len
  have hop : execBulk C (.tableFill table) inst next =
      tableFill inst table (.done (.ok (.advance next))) := rfl
  have hlen := hs.tableAt ht
  rw [hop, tableFill, Handler.run, ht]
  dsimp only [at_]
  rw [run_popIndex ((he.push _).push _), run_popRef (he.push _), run_popIndex he]
  generalize dst.index t.ty.table64 = i
  generalize len.index t.ty.table64 = n
  generalize Operand.toRef t.kind ⟨val, RefTag.ofRefkind t.kind⟩ = r
  -- the loop of the fill writes a range of equal elements
  have hfill : t.fill i r n = if i + n ≤ t.elems.length then
      some (overwrite t.elems i (List.replicate n r)) else none := by
    unfold TableEntity.fill TableEntity.size checkedAdd
    by_cases hfit : i + n ≤ t.elems.length
    · rw [if_pos (le_trans hfit hlen), if_pos hfit]
      dsimp only
      rw [if_pos hfit, Nat.add_sub_cancel_left, Ranges.setFrom_eq_overwrite]
      rw [List.length_replicate]
      exact hfit
    · rw [if_neg hfit]
      split
      · rfl
      · rename_i stop hstop
        split at hstop
        · obtain rfl := Option.some.inj hstop
          exact if_neg hfit
        · cases hstop
  rw [hfill]
  constructor
  · intro hfits
    rw [if_neg hfits]
    exact ⟨_, rfl⟩
  · intro hfits
    rw [if_pos hfits]
    exact ⟨_, rfl, _, rfl, Ranges.copied_fill r hfits⟩

theorem tableCopy_bulk : CopiesTable C e s inst base next := by
  intro dstTable srcTable h h' d t hd ht dst src len
  have hop : execBulk C (.tableCopy dstTable srcTable) inst next =
      tableCopy inst dstTable srcTable (.done (.ok (.advance next))) := rfl
  rw [hop, tableCopy, Handler.run, hd]
  dsimp only [at_]
  rw [ht]
  dsimp only
  rw [run_popIndex ((he.push _).push _), run_popIndex (he.push _), run_popIndex he]
  refine bulk_of_ranges (hs.tableAt ht) (hs.tableAt hd) fun h1 h2 => ⟨_, rfl, _, rfl, ?_⟩
  have hsnap := Ranges.window_length h1
  rw [Nat.add_sub_cancel_left, Ranges.setFrom_eq_overwrite (by rw [hsnap]; exact h2)]
  exact Ranges.copied_overwrite h1 h2

theorem tableInit_bulk : InitsTable C e s inst base next := by
  intro elem table h t refs ht hr dst src len
  have hop : execBulk C (.tableInit elem table) inst next =
      tableInit inst elem table (.done (.ok (.advance next))) := rfl
  rw [hop, tableInit, Handler.run, ht]
  dsimp only [at_]
  rw [run_popI32 ((he.push _).push _), run_popI32 (he.push _), run_popIndex he, hr]
  dsimp only
  refine bulk_of_ranges (hs.elemAt hr) (hs.tableAt ht) fun h1 h2 => ⟨_, rfl, _, rfl, ?_⟩
  have hsnap := Ranges.window_length h1
  rw [Nat.add_sub_cancel_left, Ranges.setFrom_eq_overwrite (by rw [hsnap]; exact h2)]
  exact Ranges.copied_overwrite h1 h2

/-! ## Arrays -/

omit hs in
theorem run_popAnyref {k : Operand → Handler EntityStore} (c : Cell) (s : EntityStore) :
    (popAnyref k).run base (e.push ⟨c, .any⟩) s = (k ⟨c, .any⟩).run base e s := by
  apply run_pop1 he
  rw [refOf]
  simp [RefTag.ofRefkind]

omit hs in
theorem run_popValFor {slot : Slot} {k : Val → Handler EntityStore} {c : Cell} {v : Val}
    (hv : Operand.fieldVal slot ⟨c, (stackSlotForField slot).tag⟩ = some v) (s : EntityStore) :
    (popValFor slot k).run base (e.push ⟨c, (stackSlotForField slot).tag⟩) s =
      (k v).run base e s := by
  have hpop : (popValFor slot k).run base (e.push ⟨c, (stackSlotForField slot).tag⟩) s =
      (at_ (Operand.fieldVal slot ⟨c, (stackSlotForField slot).tag⟩) k).run base e s := by
    apply run_pop1 he
    rw [fieldTag]
    simp
  rw [hpop, hv]
  rfl

end Ops

/-- `new` is `old` with `len` elements replaced, from `dst` on, by what `source` lists. -/
def CopiedElems (width : ℕ) (old new : List UInt8) (source : ℕ → Option (List UInt8))
    (dst len : ℕ) : Prop :=
  new.length = old.length ∧
    ∀ j, some (chunk new width j) =
      if dst ≤ j ∧ j < dst + len then source (j - dst) else some (chunk old width j)

theorem copiedElems_overwrite {width dst len : ℕ} {old xs : List UInt8}
    {source : ℕ → Option (List UInt8)} (hx : xs.length = len * width)
    (hsource : ∀ k < len, source k = some (chunk xs width k))
    (h : (dst + len) * width ≤ old.length) :
    CopiedElems width old (overwrite old (dst * width) xs) source dst len := by
  constructor
  · apply Ranges.overwrite_length
    rw [hx, ← Nat.add_mul]
    exact h
  · intro j
    rw [Ranges.chunk_overwrite hx h]
    by_cases hj : dst ≤ j ∧ j < dst + len
    · rw [if_pos hj, if_pos hj, hsource _ (by omega)]
    · rw [if_neg hj, if_neg hj]

theorem CopiedElems.congr {width dst len : ℕ} {old new : List UInt8}
    {f g : ℕ → Option (List UInt8)} (h : CopiedElems width old new f dst len)
    (hfg : ∀ k < len, f k = g k) : CopiedElems width old new g dst len := by
  refine ⟨h.1, fun j => (h.2 j).trans ?_⟩
  by_cases hj : dst ≤ j ∧ j < dst + len
  · rw [if_pos hj, if_pos hj, hfg _ (by omega)]
  · rw [if_neg hj, if_neg hj]

theorem withOffset_slotBytes (o : ℕ) (slot : Slot) (v : Val) :
    slotBytes (slot.withOffset o) v = slotBytes slot v := by cases slot <;> rfl

theorem withOffset_accepts (o : ℕ) (slot : Slot) (v : Val) :
    slotAccepts (slot.withOffset o) v = slotAccepts slot v := by
  cases slot with
  | scalar offset kind => cases kind <;> cases v <;> rfl
  | ref offset kind => cases kind <;> cases v <;> rfl

/-- Writing values one by one puts their bytes side by side. -/
theorem writeFrom_eq {elem : Slot} {vs : List Val} {data : List UInt8} {i : ℕ}
    (hv : ∀ v ∈ vs, slotAccepts elem v = true) (h : (i + vs.length) * elem.width ≤ data.length) :
    ∃ bs : List (List UInt8), bs.map some = vs.map (slotBytes elem) ∧
      (∀ b ∈ bs, b.length = elem.width) ∧
      writeFrom (ArrayLayout.of elem) data i vs =
        some (overwrite data (i * elem.width) bs.flatten) := by
  induction vs generalizing data i with
  | nil =>
    exact ⟨[], rfl, fun b hb => (nomatch hb), by rw [List.flatten_nil, Ranges.overwrite_nil]; rfl⟩
  | cons v vs ih =>
    have hfirst : ((ArrayLayout.of elem).elemAt i).offset + ((ArrayLayout.of elem).elemAt i).width ≤
        data.length := by
      rw [ArrayLayout.elemAt, withOffset_offset, withOffset_width]
      refine le_trans ?_ h
      calc i * elem.width + elem.width = (i + 1) * elem.width := (Nat.succ_mul _ _).symm
        _ ≤ (i + (v :: vs).length) * elem.width := by
          apply Nat.mul_le_mul_right
          rw [List.length_cons]
          omega
    have haccept : slotAccepts ((ArrayLayout.of elem).elemAt i) v = true :=
      (withOffset_accepts _ _ _).trans (hv v List.mem_cons_self)
    obtain ⟨data', hw, hlen'⟩ := writeSlot_within hfirst haccept
    obtain ⟨b, hb, hblen, -, rfl⟩ := writeSlot_some hw haccept
    rw [ArrayLayout.elemAt, withOffset_slotBytes] at hb
    rw [ArrayLayout.elemAt, withOffset_width] at hblen
    have hrest : (i + 1 + vs.length) * elem.width ≤
        (overwrite data ((ArrayLayout.of elem).elemAt i).offset b).length := by
      rw [hlen']
      refine le_trans (Nat.mul_le_mul_right _ ?_) h
      rw [List.length_cons]
      omega
    obtain ⟨bs, hbs, hlens, heq⟩ := ih (fun w hw => hv w (List.mem_cons_of_mem _ hw)) hrest
    refine ⟨b :: bs, ?_, ?_, ?_⟩
    · rw [List.map_cons, List.map_cons, hbs]
      exact congrArg (· :: _) hb.symm
    · intro c hc
      rcases List.mem_cons.mp hc with rfl | hc
      · exact hblen
      · exact hlens c hc
    · have hoff : ((ArrayLayout.of elem).elemAt i).offset = i * elem.width := withOffset_offset _ _
      have hnext : (i + 1) * elem.width = i * elem.width + b.length := by
        rw [hblen]
        exact Nat.succ_mul _ _
      have hcount : bs.length = vs.length := by
        have := congrArg List.length hbs
        rwa [List.length_map, List.length_map] at this
      have hwidth : b.length = elem.width := hblen
      have hfit : i * elem.width + (b.length + bs.flatten.length) ≤ data.length := by
        rw [hwidth, Ranges.flatten_length hlens, hcount]
        refine le_trans (le_of_eq ?_) h
        rw [List.length_cons]
        ring
      rw [writeFrom, hw]
      dsimp only
      rw [heq, hoff, hnext, Ranges.overwrite_append hfit, List.flatten_cons]

/-- The elements that a loop of writes leaves. -/
theorem writeFrom_elems {elem : Slot} {vs : List Val} {data : List UInt8} {i : ℕ}
    (hv : ∀ v ∈ vs, slotAccepts elem v = true) (h : (i + vs.length) * elem.width ≤ data.length) :
    ∃ new, writeFrom (ArrayLayout.of elem) data i vs = some new ∧
      CopiedElems elem.width data new (fun k => (vs[k]?).bind (slotBytes elem)) i vs.length := by
  obtain ⟨bs, hbs, hlens, heq⟩ := writeFrom_eq hv h
  have hcount : bs.length = vs.length := by
    have := congrArg List.length hbs
    rwa [List.length_map, List.length_map] at this
  refine ⟨_, heq, ?_⟩
  refine copiedElems_overwrite (by rw [Ranges.flatten_length hlens, hcount]) (fun k hk => ?_) h
  rw [Ranges.chunk_flatten hlens (by rw [hcount]; exact hk)]
  have hget := congrArg (fun l => l[k]?) hbs
  simp only [List.getElem?_map] at hget
  have hkb : k < bs.length := by rw [hcount]; exact hk
  rw [List.getElem?_eq_getElem hk, List.getElem?_eq_getElem hkb] at hget
  rw [List.getElem?_eq_getElem hk, List.getElem?_eq_getElem hkb, Option.bind_some]
  exact (Option.some.inj hget).symm

/-- The layout of an array type is that of its element. -/
theorem arrayLayoutAt_of {s : EntityStore} {inst ty : ℕ} {layout : ArrayLayout}
    (h : s.arrayLayoutAt inst ty = .ok layout) : layout = ArrayLayout.of layout.elem := by
  unfold EntityStore.arrayLayoutAt at h
  split at h
  · rename_i layout' hl
    obtain rfl := Except.ok.inj h
    obtain ⟨body, -, hbody⟩ := Option.bind_eq_some_iff.mp hl
    cases body with
    | array f =>
      obtain rfl := Layout.array.inj (Option.some.inj hbody)
      rfl
    | func ps rs => nomatch hbody
    | struct fields => nomatch hbody
  · nomatch h

/-- Elements within the count of an array are within its body. -/
theorem elems_within {o : GcObject} {elem : Slot} {i n : ℕ} (h : i + n ≤ o.arrayLen elem.width) :
    (i + n) * elem.width ≤ o.data.length := by
  have hmax : max elem.width 1 = elem.width := Nat.max_eq_left (TestStore.slot_width_pos elem)
  rw [GcObject.arrayLen, hmax] at h
  exact le_trans (Nat.mul_le_mul_right _ h) (Nat.div_mul_le_self _ _)

/-- What is read of a slot can be stored in it. -/
theorem readSlot_accepts {slot : Slot} {data : List UInt8} {v : Val}
    (h : readSlot slot data = some v) : slotAccepts slot v = true := by
  cases slot with
  | scalar offset kind =>
    rw [readSlot] at h
    obtain ⟨bytes, -, rfl⟩ := Option.map_eq_some_iff.mp h
    cases kind <;> rfl
  | ref offset kind =>
    rw [readSlot] at h
    obtain ⟨bytes, -, rfl⟩ := Option.map_eq_some_iff.mp h
    unfold readRef
    cases kind <;> rfl

theorem stackSlot_accepts (slot : Slot) (v : Val) :
    slotAccepts (stackSlotForField slot) v = slotAccepts slot v := by
  cases slot with
  | scalar offset kind => cases kind <;> cases v <;> rfl
  | ref offset kind => cases kind <;> cases v <;> rfl

/-- A value popped for a field can be stored in it. -/
theorem fieldVal_accepts {slot : Slot} {o : Operand} {v : Val} (h : o.fieldVal slot = some v) :
    slotAccepts slot v = true := by
  rw [← stackSlot_accepts]
  exact readSlot_accepts h

theorem anyrefSlot_null {r : Cell} (hr : r.isNull = true) :
    anyrefSlot ⟨r, .any⟩ = .error .nullArrayReference := if_pos hr

/-! ## What the ops on arrays do -/

section ArrayClauses

variable (C : CompiledFunc) (e : Execution) (s : EntityStore) (inst base next ty : ℕ)
  (layout : ArrayLayout)

/-- `array.fill` writes one value over a range of elements. -/
def FillsArray : Prop :=
  ∀ {r obj o c v}, anyrefSlot ⟨r, .any⟩ = .ok obj → s.objectAt obj = .ok o →
  Operand.fieldVal (layout.elemAt 0) ⟨c, (stackSlotForField (layout.elemAt 0)).tag⟩ = some v →
  ∀ idx len : Cell,
  Bulk ((execBulk C (.arrayFill ty) inst next).run base
      ((((e.push ⟨r, .any⟩).push (.scalar idx)).push
        ⟨c, (stackSlotForField (layout.elemAt 0)).tag⟩).push (.scalar len)) s) e s next
    (idx.unwrapI32.toNat + len.unwrapI32.toNat ≤ o.arrayLen layout.stride)
    fun s' => ∃ data, s' = s.setData obj data ∧
      CopiedElems layout.stride o.data data (fun _ => slotBytes layout.elem v)
        idx.unwrapI32.toNat len.unwrapI32.toNat

/-- `array.copy`, within one array or between two. -/
def CopiesArray : Prop :=
  ∀ {srcTy r r' src dst a b}, anyrefSlot ⟨r, .any⟩ = .ok dst →
  anyrefSlot ⟨r', .any⟩ = .ok src → s.objectAt dst = .ok b → s.objectAt src = .ok a →
  ∀ dstIdx srcIdx len : Cell,
  Bulk ((execBulk C (.arrayCopy ty srcTy) inst next).run base
      (((((e.push ⟨r, .any⟩).push (.scalar dstIdx)).push ⟨r', .any⟩).push
        (.scalar srcIdx)).push (.scalar len)) s) e s next
    (srcIdx.unwrapI32.toNat + len.unwrapI32.toNat ≤ a.arrayLen layout.stride ∧
      dstIdx.unwrapI32.toNat + len.unwrapI32.toNat ≤ b.arrayLen layout.stride)
    fun s' => ∃ data, s' = s.setData dst data ∧
      CopiedElems layout.stride b.data data
        (fun k => some (chunk a.data layout.stride (srcIdx.unwrapI32.toNat + k)))
        dstIdx.unwrapI32.toNat len.unwrapI32.toNat

/-- `array.init_data` copies the elements packed in a range of a data segment. -/
def InitsArrayData : Prop :=
  ∀ {seg r obj o data}, anyrefSlot ⟨r, .any⟩ = .ok obj → s.objectAt obj = .ok o →
  s.dataAt inst seg = some data → ∀ dst src len : Cell,
  Bulk ((execBulk C (.arrayInitData ty seg) inst next).run base
      ((((e.push ⟨r, .any⟩).push (.scalar dst)).push (.scalar src)).push (.scalar len)) s) e s next
    (dst.unwrapI32.toNat + len.unwrapI32.toNat ≤ o.arrayLen layout.stride ∧
      src.unwrapI32.toNat + len.unwrapI32.toNat * layout.stride ≤ data.length)
    fun s' => ∃ new, s' = s.setData obj new ∧
      CopiedElems layout.stride o.data new
        (fun k => some (window data (src.unwrapI32.toNat + k * layout.stride) layout.stride))
        dst.unwrapI32.toNat len.unwrapI32.toNat

/-- `array.init_elem` copies a range of an element segment. -/
def InitsArrayElem : Prop :=
  ∀ {elem r obj o refs}, anyrefSlot ⟨r, .any⟩ = .ok obj → s.objectAt obj = .ok o →
  s.elemAt inst elem = some refs →
  (∀ x ∈ refs, slotAccepts layout.elem (Val.ofRef x) = true) → ∀ dst src len : Cell,
  Bulk ((execBulk C (.arrayInitElem ty elem) inst next).run base
      ((((e.push ⟨r, .any⟩).push (.scalar dst)).push (.scalar src)).push (.scalar len)) s) e s next
    (dst.unwrapI32.toNat + len.unwrapI32.toNat ≤ o.arrayLen layout.stride ∧
      src.unwrapI32.toNat + len.unwrapI32.toNat ≤ refs.length)
    fun s' => ∃ new, s' = s.setData obj new ∧
      CopiedElems layout.stride o.data new
        (fun k => (refs[src.unwrapI32.toNat + k]?).bind fun x =>
          slotBytes layout.elem (Val.ofRef x))
        dst.unwrapI32.toNat len.unwrapI32.toNat

/-- `array.fill` of a null array traps and changes nothing. -/
def TrapsNullFill : Prop :=
  ∀ {r c v}, r.isNull = true →
  Operand.fieldVal (layout.elemAt 0) ⟨c, (stackSlotForField (layout.elemAt 0)).tag⟩ = some v →
  ∀ idx len : Cell,
  (execBulk C (.arrayFill ty) inst next).run base
      ((((e.push ⟨r, .any⟩).push (.scalar idx)).push
        ⟨c, (stackSlotForField (layout.elemAt 0)).tag⟩).push (.scalar len)) s =
    (e, s, .error .nullArrayReference)

/-- `array.copy` traps on a null source, and on a null destination if the source is an object. -/
def TrapsNullCopy : Prop :=
  ∀ {srcTy r r'},
  (r'.isNull = true ∨ r.isNull = true ∧ ∃ src, anyrefSlot ⟨r', .any⟩ = .ok src) →
  ∀ dstIdx srcIdx len : Cell,
  (execBulk C (.arrayCopy ty srcTy) inst next).run base
      (((((e.push ⟨r, .any⟩).push (.scalar dstIdx)).push ⟨r', .any⟩).push
        (.scalar srcIdx)).push (.scalar len)) s =
    (e, s, .error .nullArrayReference)

/-- `array.init_data` of a null array traps and changes nothing. -/
def TrapsNullInitData : Prop :=
  ∀ {seg r}, r.isNull = true → ∀ dst src len : Cell,
  (execBulk C (.arrayInitData ty seg) inst next).run base
      ((((e.push ⟨r, .any⟩).push (.scalar dst)).push (.scalar src)).push (.scalar len)) s =
    (e, s, .error .nullArrayReference)

/-- `array.init_elem` of a null array traps and changes nothing. -/
def TrapsNullInitElem : Prop :=
  ∀ {elem r}, r.isNull = true → ∀ dst src len : Cell,
  (execBulk C (.arrayInitElem ty elem) inst next).run base
      ((((e.push ⟨r, .any⟩).push (.scalar dst)).push (.scalar src)).push (.scalar len)) s =
    (e, s, .error .nullArrayReference)

end ArrayClauses

section Arrays

variable {e : Execution} {s : EntityStore} (he : e.Ready) (hs : s.Fits) (C : CompiledFunc)
  (inst base next : ℕ) {ty : ℕ} {layout : ArrayLayout} (hl : s.arrayLayoutAt inst ty = .ok layout)

include he hs hl

theorem arrayFill_bulk : FillsArray C e s inst base next ty layout := by
  intro r obj o c v hr ho hv idx len
  have hop : execBulk C (.arrayFill ty) inst next =
      arrayFill inst ty (.done (.ok (.advance next))) := rfl
  rw [hop, arrayFill, Handler.run, hl]
  dsimp only [orFail]
  rw [run_popI32 (((he.push _).push _).push _), run_popValFor ((he.push _).push _) _ hv,
    run_popI32 (he.push _), run_popAnyref he, hr]
  dsimp only
  rw [ho]
  dsimp only
  rw [run_checkedRange (hs.arrayLen ho _)]
  generalize idx.unwrapI32.toNat = i
  generalize len.unwrapI32.toNat = n
  have haccept : slotAccepts layout.elem v = true := by
    rw [← withOffset_accepts (0 * layout.stride)]
    exact fieldVal_accepts hv
  obtain ⟨elem, rfl⟩ : ∃ elem, layout = ArrayLayout.of elem := ⟨_, arrayLayoutAt_of hl⟩
  constructor
  · intro hfits
    rw [if_neg hfits]
    exact ⟨_, rfl⟩
  · intro hfits
    have hvs : ∀ w ∈ List.replicate n v, slotAccepts elem w = true := by
      intro w hw
      rw [List.eq_of_mem_replicate hw]
      exact haccept
    have hbody : (i + (List.replicate n v).length) * elem.width ≤ o.data.length := by
      rw [List.length_replicate]
      exact elems_within hfits
    obtain ⟨new, hnew, helems⟩ := writeFrom_elems hvs hbody
    rw [List.length_replicate] at helems
    rw [if_pos hfits, hnew]
    refine ⟨_, rfl, new, rfl, helems.congr fun k hk => ?_⟩
    rw [List.getElem?_replicate, if_pos hk]
    rfl

theorem arrayCopy_bulk : CopiesArray C e s inst base next ty layout := by
  intro srcTy r r' src dst a b hr hr' hb ha dstIdx srcIdx len
  have hop : execBulk C (.arrayCopy ty srcTy) inst next =
      arrayCopy inst ty (.done (.ok (.advance next))) := rfl
  rw [hop, arrayCopy, Handler.run, hl]
  dsimp only [orFail]
  rw [run_popI32 ((((he.push _).push _).push _).push _), run_popI32 (((he.push _).push _).push _),
    run_popAnyref ((he.push _).push _), run_popI32 (he.push _), run_popAnyref he, hr']
  dsimp only
  rw [hr]
  dsimp only
  rw [ha]
  dsimp only
  rw [hb]
  generalize srcIdx.unwrapI32.toNat = i
  generalize dstIdx.unwrapI32.toNat = j
  generalize len.unwrapI32.toNat = n
  obtain ⟨elem, rfl⟩ : ∃ elem, layout = ArrayLayout.of elem := ⟨_, arrayLayoutAt_of hl⟩
  refine bulk_of_ranges (hs.arrayLen ha _) (hs.arrayLen hb _) fun h1 h2 => ⟨_, rfl, _, rfl, ?_⟩
  have hfrom : i * elem.width + n * elem.width ≤ a.data.length := by
    rw [← Nat.add_mul]
    exact elems_within h1
  refine copiedElems_overwrite (Ranges.window_length hfrom) (fun k hk => ?_) (elems_within h2)
  have hstride : (ArrayLayout.of elem).stride = elem.width := rfl
  rw [hstride, Ranges.chunk_window hk, chunk, Nat.add_mul]

theorem arrayInitData_bulk : InitsArrayData C e s inst base next ty layout := by
  intro seg r obj o data hr ho hd dst src len
  have hop : execBulk C (.arrayInitData ty seg) inst next =
      arrayInitData inst ty seg (.done (.ok (.advance next))) := rfl
  rw [hop, arrayInitData, Handler.run, hl]
  dsimp only [orFail]
  rw [run_popI32 (((he.push _).push _).push _), run_popI32 ((he.push _).push _),
    run_popI32 (he.push _), run_popAnyref he, hr]
  dsimp only
  rw [ho]
  obtain ⟨elem, rfl⟩ : ∃ elem, layout = ArrayLayout.of elem := ⟨_, arrayLayoutAt_of hl⟩
  have hmul : checkedMul len.unwrapI32.toNat (ArrayLayout.of elem).stride =
      some (len.unwrapI32.toNat * elem.width) := by
    have hlen : len.unwrapI32.toNat < 2 ^ 32 := len.unwrapI32.isLt
    have hbytes : len.unwrapI32.toNat * elem.width ≤ 2 ^ 32 * 16 :=
      Nat.mul_le_mul (le_of_lt hlen) elem.width_le
    exact if_pos (le_trans hbytes (by decide))
  rw [hmul, hd]
  dsimp only [at_]
  generalize dst.unwrapI32.toNat = j
  generalize src.unwrapI32.toNat = i
  generalize len.unwrapI32.toNat = n
  refine bulk_of_ranges (hs.arrayLen ho _) (hs.dataAt hd) fun h1 h2 => ⟨_, rfl, _, rfl, ?_⟩
  refine copiedElems_overwrite (Ranges.window_length h2) (fun k hk => ?_) (elems_within h1)
  exact congrArg some (Ranges.chunk_window hk).symm

theorem arrayInitElem_bulk : InitsArrayElem C e s inst base next ty layout := by
  intro elem r obj o refs hr ho hrefs hkind dst src len
  have hop : execBulk C (.arrayInitElem ty elem) inst next =
      arrayInitElem inst ty elem (.done (.ok (.advance next))) := rfl
  rw [hop, arrayInitElem, Handler.run, hl]
  dsimp only [orFail]
  rw [run_popI32 (((he.push _).push _).push _), run_popI32 ((he.push _).push _),
    run_popI32 (he.push _), run_popAnyref he, hr]
  dsimp only
  rw [ho, hrefs]
  dsimp only [at_]
  generalize dst.unwrapI32.toNat = j
  generalize src.unwrapI32.toNat = i
  generalize len.unwrapI32.toNat = n
  obtain ⟨slot, rfl⟩ : ∃ slot, layout = ArrayLayout.of slot := ⟨_, arrayLayoutAt_of hl⟩
  refine bulk_of_ranges (hs.arrayLen ho _) (hs.elemAt hrefs) fun h1 h2 => ?_
  have hcount : ((window refs i n).map Val.ofRef).length = n := by
    rw [List.length_map, Ranges.window_length h2]
  have hvs : ∀ v ∈ (window refs i n).map Val.ofRef, slotAccepts slot v = true := by
    intro v hv
    obtain ⟨x, hx, rfl⟩ := List.mem_map.mp hv
    exact hkind x (List.mem_of_mem_drop (List.mem_of_mem_take hx))
  have hbody : (j + ((window refs i n).map Val.ofRef).length) * slot.width ≤ o.data.length := by
    rw [hcount]
    exact elems_within h1
  obtain ⟨new, hnew, helems⟩ := writeFrom_elems hvs hbody
  rw [hcount] at helems
  rw [hnew]
  refine ⟨_, rfl, new, rfl, helems.congr fun k hk => ?_⟩
  rw [List.getElem?_map, Ranges.window_getElem? hk, Option.bind_map]
  rfl

/-! ## Null arrays -/

omit hs in
theorem arrayFill_null : TrapsNullFill C e s inst base next ty layout := by
  intro r c v hr hv idx len
  have hop : execBulk C (.arrayFill ty) inst next =
      arrayFill inst ty (.done (.ok (.advance next))) := rfl
  rw [hop, arrayFill, Handler.run, hl]
  dsimp only [orFail]
  rw [run_popI32 (((he.push _).push _).push _), run_popValFor ((he.push _).push _) _ hv,
    run_popI32 (he.push _), run_popAnyref he, anyrefSlot_null hr]
  rfl

omit hs in
theorem arrayCopy_null : TrapsNullCopy C e s inst base next ty := by
  intro srcTy r r' hr dstIdx srcIdx len
  have hop : execBulk C (.arrayCopy ty srcTy) inst next =
      arrayCopy inst ty (.done (.ok (.advance next))) := rfl
  rw [hop, arrayCopy, Handler.run, hl]
  dsimp only [orFail]
  rw [run_popI32 ((((he.push _).push _).push _).push _), run_popI32 (((he.push _).push _).push _),
    run_popAnyref ((he.push _).push _), run_popI32 (he.push _), run_popAnyref he]
  rcases hr with hr | ⟨hr, src, hsrc⟩
  · rw [anyrefSlot_null hr]
    rfl
  · rw [hsrc]
    dsimp only
    rw [anyrefSlot_null hr]
    rfl

omit hs in
theorem arrayInitData_null : TrapsNullInitData C e s inst base next ty := by
  intro seg r hr dst src len
  have hop : execBulk C (.arrayInitData ty seg) inst next =
      arrayInitData inst ty seg (.done (.ok (.advance next))) := rfl
  rw [hop, arrayInitData, Handler.run, hl]
  dsimp only [orFail]
  rw [run_popI32 (((he.push _).push _).push _), run_popI32 ((he.push _).push _),
    run_popI32 (he.push _), run_popAnyref he, anyrefSlot_null hr]
  rfl

omit hs in
theorem arrayInitElem_null : TrapsNullInitElem C e s inst base next ty := by
  intro elem r hr dst src len
  have hop : execBulk C (.arrayInitElem ty elem) inst next =
      arrayInitElem inst ty elem (.done (.ok (.advance next))) := rfl
  rw [hop, arrayInitElem, Handler.run, hl]
  dsimp only [orFail]
  rw [run_popI32 (((he.push _).push _).push _), run_popI32 ((he.push _).push _),
    run_popI32 (he.push _), run_popAnyref he, anyrefSlot_null hr]
  rfl

end Arrays

/-! ## All bulk ops -/

section Exact

variable (C : CompiledFunc) (e : Execution) (s : EntityStore) (inst base next : ℕ)

/-- What the bulk ops of memories and tables do, whatever entities their indices name: a trap and
no change if a range exceeds its bound, else a simultaneous copy. -/
structure BulkExact : Prop where
  memoryFill : FillsMemory C e s inst base next
  memoryCopy : CopiesMemory C e s inst base next
  memoryInit : InitsMemory C e s inst base next
  tableFill : FillsTable C e s inst base next
  tableCopy : CopiesTable C e s inst base next
  tableInit : InitsTable C e s inst base next

/-- What the bulk ops of arrays of a type do; they also trap, and change nothing, on a null
array. -/
structure ArrayBulkExact (ty : ℕ) (layout : ArrayLayout) : Prop where
  fill : FillsArray C e s inst base next ty layout
  copy : CopiesArray C e s inst base next ty layout
  initData : InitsArrayData C e s inst base next ty layout
  initElem : InitsArrayElem C e s inst base next ty layout
  nullFill : TrapsNullFill C e s inst base next ty layout
  nullCopy : TrapsNullCopy C e s inst base next ty
  nullInitData : TrapsNullInitData C e s inst base next ty
  nullInitElem : TrapsNullInitElem C e s inst base next ty

end Exact

/-- Every bulk op traps without a change, exactly if a range exceeds its bound or the array is
null, or copies as if all of the source were read first. -/
theorem bulk_exact {e : Execution} {s : EntityStore} (he : e.Ready) (hs : s.Fits)
    (C : CompiledFunc) (inst base next : ℕ) :
    BulkExact C e s inst base next ∧
      ∀ {ty layout}, s.arrayLayoutAt inst ty = .ok layout →
        ArrayBulkExact C e s inst base next ty layout := by
  constructor
  · exact
      { memoryFill := memoryFill_bulk he hs C inst base next
        memoryCopy := memoryCopy_bulk he hs C inst base next
        memoryInit := memoryInit_bulk he hs C inst base next
        tableFill := tableFill_bulk he hs C inst base next
        tableCopy := tableCopy_bulk he hs C inst base next
        tableInit := tableInit_bulk he hs C inst base next }
  · intro ty layout hl
    exact
      { fill := arrayFill_bulk he hs C inst base next hl
        copy := arrayCopy_bulk he hs C inst base next hl
        initData := arrayInitData_bulk he hs C inst base next hl
        initElem := arrayInitElem_bulk he hs C inst base next hl
        nullFill := arrayFill_null he C inst base next hl
        nullCopy := arrayCopy_null he C inst base next hl
        nullInitData := arrayInitData_null he C inst base next hl
        nullInitElem := arrayInitElem_null he C inst base next hl }

/-! ## An overlapping copy -/

/-- The body of an array of three `i32`. -/
def tripleBody : List UInt8 := [1, 0, 0, 0, 2, 0, 0, 0, 3, 0, 0, 0]

/-- A store with the 64-bit memory of eight bytes and that array. -/
def tripleStore : EntityStore :=
  ⟨[wideMemory], [], [⟨[0], [], [], [], [], [.array ⟨true, .val .i32⟩]⟩],
    (ReclaimArena.empty.alloc ⟨0, .array, tripleBody⟩).2⟩

theorem tripleStore_fits : tripleStore.Fits where
  memories := by
    intro m hm
    obtain rfl := List.mem_singleton.mp hm
    decide
  tables := fun t ht => (nomatch ht)
  datas := by
    intro i hi d hd
    obtain rfl := List.mem_singleton.mp hi
    nomatch hd
  elems := by
    intro i hi refs hr
    obtain rfl := List.mem_singleton.mp hi
    nomatch hr
  objects := by
    intro slot o h
    cases slot with
    | zero =>
      obtain rfl := Option.some.inj h
      decide
    | succ _ => nomatch h

/-- The last two elements of the array go over its first two. -/
theorem bulk_exact_overlap :
    BulkExact wideCode wideFrame tripleStore 0 0 1 ∧
      ∃ s', (execBulk wideCode (.arrayCopy 0 0) 0 1).run 0
          (((((wideFrame.push ⟨0, .any⟩).push (.scalar 0)).push ⟨0, .any⟩).push
            (.scalar 1)).push (.scalar 2)) tripleStore = (wideFrame, s', .ok (.advance 1)) ∧
        ∃ data, s' = tripleStore.setData 0 data ∧
          CopiedElems 4 tripleBody data (fun k => some (chunk tripleBody 4 (1 + k))) 0 2 := by
  have hexact := bulk_exact (e := wideFrame) ⟨rfl, _, _, rfl, Nat.le_refl 0⟩ tripleStore_fits
    wideCode 0 0 1
  have hlayout : tripleStore.arrayLayoutAt 0 0 = .ok ⟨.scalar 0 .i32, 4⟩ := rfl
  have hslot : anyrefSlot ⟨0, .any⟩ = .ok 0 := by decide
  have hobj : tripleStore.objectAt 0 = .ok ⟨0, .array, tripleBody⟩ := rfl
  exact ⟨hexact.1, ((hexact.2 hlayout).copy hslot hslot hobj hobj 0 1 2).writes (by decide)⟩

/-! ## A trap without a range -/

/-- A store with an instance whose one type is an array of `i32`. -/
def arrayStore : EntityStore :=
  ⟨[], [], [⟨[], [], [], [], [], [.array ⟨true, .val .i32⟩]⟩], ReclaimArena.empty⟩

/-- The null reference as an operand. -/
def nullCell : Cell := BitVec.ofNat 64 nullRef

/-- Filling no element of a null array traps, though there is no array whose bound a range could
exceed. -/
theorem not_bulk_trap_range :
    ¬∀ (C : CompiledFunc) (e : Execution) (s : EntityStore) (inst base next ty : ℕ)
        (layout : ArrayLayout) (r idx c len : Cell), e.Ready →
        s.arrayLayoutAt inst ty = .ok layout →
      ∀ code, (execBulk C (.arrayFill ty) inst next).run base
          ((((e.push ⟨r, .any⟩).push (.scalar idx)).push
            ⟨c, (stackSlotForField (layout.elemAt 0)).tag⟩).push (.scalar len)) s =
        (e, s, .error (.trap code)) →
      ∃ obj o, anyrefSlot ⟨r, .any⟩ = .ok obj ∧ s.objectAt obj = .ok o ∧
        ¬idx.unwrapI32.toNat + len.unwrapI32.toNat ≤ o.arrayLen layout.stride := by
  intro h
  have hready : wideFrame.Ready := ⟨rfl, _, _, rfl, Nat.le_refl 0⟩
  have hl : arrayStore.arrayLayoutAt 0 0 = .ok ⟨.scalar 0 .i32, 4⟩ := rfl
  have hnull : nullCell.isNull = true := by decide
  have hv : Operand.fieldVal ((ArrayLayout.mk (.scalar 0 .i32) 4).elemAt 0)
      ⟨0, (stackSlotForField ((ArrayLayout.mk (.scalar 0 .i32) 4).elemAt 0)).tag⟩ =
        some (.i32 0) := by decide
  obtain ⟨obj, o, hslot, -⟩ := h wideCode wideFrame arrayStore 0 0 1 0 _ nullCell 0 0 0 hready hl 13
    (arrayFill_null hready wideCode 0 0 1 hl hnull hv 0 0)
  rw [anyrefSlot_null hnull] at hslot
  nomatch hslot

end SubmilliWasm
