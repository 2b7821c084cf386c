/-
# Memory ops

Loads, stores and the bulk ops of linear memories (`src/exec/memory.rs`), as handlers over the
store's memories, tables, instances and objects.  A memory immediate is resolved through the
function's pool, the effective address is computed in 64 bits and checked before a byte is
touched.

An index into an index space is in range by validation; a miss, a panic in the source, is an
error here.
-/
import SubmilliWasm.Compile.Layout
import SubmilliWasm.Exec.Step
import SubmilliWasm.Store.Codecs
import SubmilliWasm.Store.Resources

namespace SubmilliWasm

open Ranges (window overwrite)

/-! ## The store as the straight-line ops see it -/

/-- An instance: its index spaces, its module's types and segments, and its own state of the
segments. -/
structure InstanceEntity where
  memories : List ℕ
  tables : List ℕ
  /-- The module's data segments. -/
  datas : List (List UInt8)
  droppedData : List Bool
  /-- The element instances; a dropped one is empty. -/
  elems : List (List Ref)
  /-- The module's types. -/
  types : List CompositeBody

/-- A table with the hierarchy of its elements. -/
structure TypedTable extends TableEntity where
  kind : RefKind

structure EntityStore where
  memories : List MemoryEntity
  tables : List TypedTable
  instances : List InstanceEntity
  objects : ReclaimArena GcObject

namespace ExecError

/-- The traps of the straight-line ops, by their place in the source's `Trap`. -/
def memoryOutOfBounds : ExecError := .trap 1

def tableOutOfBounds : ExecError := .trap 3

def nullArrayReference : ExecError := .trap 13

def arrayOutOfBounds : ExecError := .trap 17

def allocationTooLarge : ExecError := .trap 18

def indexOutOfBounds : ExecError := .msg "index out of bounds"

end ExecError

namespace EntityStore

/-- The handle and the entity of a memory of an instance (`mem`). -/
def memoryAt (s : EntityStore) (inst idx : ℕ) : Option (ℕ × MemoryEntity) :=
  match (s.instances[inst]?).bind fun i => i.memories[idx]? with
  | none => none
  | some h => (s.memories[h]?).map fun m => (h, m)

def tableAt (s : EntityStore) (inst idx : ℕ) : Option (ℕ × TypedTable) :=
  match (s.instances[inst]?).bind fun i => i.tables[idx]? with
  | none => none
  | some h => (s.tables[h]?).map fun t => (h, t)

/-- The bytes a data segment still has. -/
def dataAt (s : EntityStore) (inst seg : ℕ) : Option (List UInt8) :=
  match s.instances[inst]? with
  | none => none
  | some i =>
    match i.droppedData[seg]?, i.datas[seg]? with
    | some dropped, some bytes => some (if dropped then [] else bytes)
    | _, _ => none

def setBytes (s : EntityStore) (h : ℕ) (m : MemoryEntity) (bytes : List UInt8) : EntityStore :=
  { s with memories := s.memories.set h { m with bytes := bytes } }

def setElems (s : EntityStore) (h : ℕ) (t : TypedTable) (elems : List Ref) : EntityStore :=
  { s with tables := s.tables.set h { t with elems := elems } }

end EntityStore

/-! ## Accessors -/

/-- A numeric operand. -/
def Operand.scalar (c : Cell) : Operand := ⟨c, .none⟩

/-- An index operand, widened to 64 bits. -/
def Cell.index (is64 : Bool) (c : Cell) : ℕ := if is64 then c.toNat else c.unwrapI32.toNat

namespace Handler

variable {σ : Type}

def popI32 (k : BitVec 32 → Handler σ) : Handler σ := pop1 scalars fun o => k o.cell.unwrapI32

/-- Pushes a size, as wide as the entity's index type. -/
def pushIndex (is64 : Bool) (v : ℕ) (k : Handler σ) : Handler σ :=
  .push (.ofVal (if is64 then .i64 (BitVec.ofNat 64 v) else .i32 (BitVec.ofNat 32 v))) k

/-- Goes on with what an index names. -/
def at_ {α : Type} (o : Option α) (k : α → Handler σ) : Handler σ :=
  match o with
  | none => .done (.error .indexOutOfBounds)
  | some a => k a

/-- `checked_range`: the end of `start + len` if it is within `total`. -/
def checkedRange (start len total : ℕ) (trap : ExecError) (k : ℕ → Handler σ) : Handler σ :=
  match checkedAdd start len with
  | none => .done (.error trap)
  | some stop => if stop ≤ total then k stop else .done (.error trap)

end Handler

open Handler

/-! ## Loads and stores -/

/-- The effective address of an access to `n` bytes of a memory (`mem_ea`). -/
def memEa (m : MemoryEntity) (n offset : ℕ) (k : ℕ → Handler EntityStore) : Handler EntityStore :=
  popIndex m.ty.memory64 fun addr =>
    match checkedAdd addr offset with
    | none => .done (.error .memoryOutOfBounds)
    | some ea =>
      match checkedAdd ea n with
      | none => .done (.error .memoryOutOfBounds)
      | some stop =>
        if m.bytes.length < stop then .done (.error .memoryOutOfBounds) else k ea

def loadN (C : CompiledFunc) (inst n : ℕ) (m : MemArg) (k : List UInt8 → Handler EntityStore) :
    Handler EntityStore :=
  .get fun s =>
    at_ (s.memoryAt inst (m.resolve C.bigMemargs).memory) fun (_, entity) =>
      memEa entity n (m.resolve C.bigMemargs).offset fun ea => k (window entity.bytes ea n)

def storeN (C : CompiledFunc) (inst : ℕ) (m : MemArg) (data : List UInt8)
    (k : Handler EntityStore) : Handler EntityStore :=
  .get fun s =>
    at_ (s.memoryAt inst (m.resolve C.bigMemargs).memory) fun (h, entity) =>
      memEa entity data.length (m.resolve C.bigMemargs).offset fun ea =>
        .set (s.setBytes h entity (overwrite entity.bytes ea data)) k

/-- The bytes a load reads. -/
def LoadKind.width : LoadKind → ℕ
  | .i32x8S | .i32x8U | .i64x8S | .i64x8U => 1
  | .i32x16S | .i32x16U | .i64x16S | .i64x16U => 2
  | .i32 | .f32 | .i64x32S | .i64x32U => 4
  | .i64 | .f64 => 8

/-- The value a load makes of its bytes. -/
def LoadKind.value (k : LoadKind) (b : List UInt8) : Val :=
  match k with
  | .i32 => .i32 (BitVec.ofNat 32 (leNat b))
  | .i64 => .i64 (BitVec.ofNat 64 (leNat b))
  | .f32 => .f32 (BitVec.ofNat 32 (leNat b))
  | .f64 => .f64 (BitVec.ofNat 64 (leNat b))
  | .i32x8S => .i32 ((BitVec.ofNat 8 (leNat b)).signExtend 32)
  | .i32x8U => .i32 ((BitVec.ofNat 8 (leNat b)).setWidth 32)
  | .i32x16S => .i32 ((BitVec.ofNat 16 (leNat b)).signExtend 32)
  | .i32x16U => .i32 ((BitVec.ofNat 16 (leNat b)).setWidth 32)
  | .i64x8S => .i64 ((BitVec.ofNat 8 (leNat b)).signExtend 64)
  | .i64x8U => .i64 ((BitVec.ofNat 8 (leNat b)).setWidth 64)
  | .i64x16S => .i64 ((BitVec.ofNat 16 (leNat b)).signExtend 64)
  | .i64x16U => .i64 ((BitVec.ofNat 16 (leNat b)).setWidth 64)
  | .i64x32S => .i64 ((BitVec.ofNat 32 (leNat b)).signExtend 64)
  | .i64x32U => .i64 ((BitVec.ofNat 32 (leNat b)).setWidth 64)

/-- The bytes a store writes of its operand. -/
def StoreKind.bytes (k : StoreKind) (c : Cell) : List UInt8 :=
  match k with
  | .i32 | .f32 => leBytes 4 c.unwrapI32.toNat
  | .i64 | .f64 => leBytes 8 c.toNat
  | .i32x8 => leBytes 1 (c.unwrapI32.setWidth 8).toNat
  | .i32x16 => leBytes 2 (c.unwrapI32.setWidth 16).toNat
  | .i64x8 => leBytes 1 (c.setWidth 8).toNat
  | .i64x16 => leBytes 2 (c.setWidth 16).toNat
  | .i64x32 => leBytes 4 (c.setWidth 32).toNat

/-! ## Bulk ops -/

def memoryFill (inst idx : ℕ) (k : Handler EntityStore) : Handler EntityStore :=
  .get fun s =>
    at_ (s.memoryAt inst idx) fun (h, m) =>
      popIndex m.ty.memory64 fun len =>
        popI32 fun val =>
          popIndex m.ty.memory64 fun dst =>
            checkedRange dst len m.bytes.length .memoryOutOfBounds fun stop =>
              .set (s.setBytes h m (overwrite m.bytes dst
                (List.replicate (stop - dst) (UInt8.ofNat val.toNat)))) k

/-- `memory.copy`: within one index the bytes are moved in place, which `copy_within` does as if
through a buffer; between two they go through a temporary. -/
def memoryCopy (inst dstIdx srcIdx : ℕ) (k : Handler EntityStore) : Handler EntityStore :=
  .get fun s =>
    at_ (s.memoryAt inst dstIdx) fun (dstMem, d) =>
      at_ (s.memoryAt inst srcIdx) fun (_, m) =>
        -- The length is typed as the narrower of the two memories.
        popIndex (d.ty.memory64 && m.ty.memory64) fun len =>
          popIndex m.ty.memory64 fun src =>
            popIndex d.ty.memory64 fun dst =>
              checkedRange src len m.bytes.length .memoryOutOfBounds fun _ =>
                checkedRange dst len d.bytes.length .memoryOutOfBounds fun _ =>
                  if dstIdx = srcIdx then
                    .set (s.setBytes dstMem d (overwrite d.bytes dst (window d.bytes src len))) k
                  else
                    .set (s.setBytes dstMem d (overwrite d.bytes dst (window m.bytes src len))) k

def memoryInit (inst seg idx : ℕ) (k : Handler EntityStore) : Handler EntityStore :=
  .get fun s =>
    at_ (s.memoryAt inst idx) fun (h, m) =>
      popI32 fun len =>
        popI32 fun src =>
          popIndex m.ty.memory64 fun dst =>
            at_ (s.dataAt inst seg) fun data =>
              checkedRange src.toNat len.toNat data.length .memoryOutOfBounds fun srcEnd =>
                checkedRange dst len.toNat m.bytes.length .memoryOutOfBounds fun _ =>
                  .set (s.setBytes h m (overwrite m.bytes dst
                    (window data src.toNat (srcEnd - src.toNat)))) k

def dataDrop (inst seg : ℕ) (k : Handler EntityStore) : Handler EntityStore :=
  .get fun s =>
    at_ s.instances[inst]? fun i =>
      .set { s with
        instances := s.instances.set inst { i with droppedData := i.droppedData.set seg true } } k

/-- The memory ops; `memory.grow` is serviced by the loop. -/
def execMemory (C : CompiledFunc) (op : PlainOp MemArg) (inst next : ℕ) : Handler EntityStore :=
  let advance : Handler EntityStore := .done (.ok (.advance next))
  match op with
  | .dataDrop seg => dataDrop inst seg advance
  | .load k m => loadN C inst k.width m fun b => .push (.ofVal (k.value b)) advance
  | .store k m => .pop1 scalars fun o => storeN C inst m (k.bytes o.cell) advance
  | .memorySize i => .get fun s =>
    at_ (s.memoryAt inst i) fun (_, m) => pushIndex m.ty.memory64 m.sizePages advance
  | .memoryFill i => memoryFill inst i advance
  | .memoryCopy dst src => memoryCopy inst dst src advance
  | .memoryInit seg i => memoryInit inst seg i advance
  | _ => .done (.error (.msg "not a memory op"))

/-! ## Operands on the stack -/

/-- A running frame above its floor, as every step finds it. -/
structure Execution.Ready (e : Execution) : Prop where
  shadowed : e.values.length = e.shadow.length
  floor : ∃ f fs, e.frames = f :: fs ∧ f.operandBase ≤ e.values.length

namespace Execution

theorem Ready.push {e : Execution} (h : e.Ready) (o : Operand) : (e.push o).Ready := by
  obtain ⟨f, fs, hf, hle⟩ := h.floor
  constructor
  · show (e.values ++ [o.cell]).length = (e.shadow ++ [o.tag]).length
    rw [List.length_append, List.length_append, h.shadowed]
    rfl
  · refine ⟨f, fs, hf, le_trans hle ?_⟩
    show e.values.length ≤ (e.values ++ [o.cell]).length
    rw [List.length_append]
    omega

/-- The operand pushed last is the one popped. -/
theorem popN_push {e : Execution} (h : e.Ready) {o : Operand}
    {accept : List Operand → Option ExecError} (ha : accept [o] = none) :
    (e.push o).popN 1 accept = .ok ([o], e) := by
  obtain ⟨f, fs, hf, hle⟩ := h.floor
  have hlen : (e.push o).values.length = e.values.length + 1 := by
    show (e.values ++ [o.cell]).length = _
    rw [List.length_append]
    rfl
  have hbase : (e.push o).ensureOperands 1 = .ok e.values.length := by
    have hframes : (e.push o).frames = f :: fs := hf
    unfold ensureOperands
    rw [if_neg (not_not.mpr (h.push o).shadowed), hframes]
    show (if _ < f.operandBase then _ else _) = _
    rw [hlen, if_neg (by omega), if_neg (by omega), Nat.add_sub_cancel]
  have hoperands : (e.push o).operandsFrom e.values.length = [o] := by
    show List.zipWith Operand.mk ((e.values ++ [o.cell]).drop e.values.length)
      ((e.shadow ++ [o.tag]).drop e.values.length) = _
    rw [List.drop_left, h.shadowed, List.drop_left]
    rfl
  have hrest : (e.push o).truncate e.values.length = e := by
    show Execution.mk ((e.values ++ [o.cell]).take e.values.length)
      ((e.shadow ++ [o.tag]).take e.values.length) e.frames e.hostReentryDepth = e
    rw [List.take_left, h.shadowed, List.take_left]
  unfold popN
  simp only [hbase, hoperands, ha, hrest]

end Execution

section Running

variable {e : Execution} (he : e.Ready) {base : ℕ}

include he

theorem run_pop1 {σ : Type} {o : Operand} {accept : List Operand → Option ExecError}
    {k : Operand → Handler σ} (ha : accept [o] = none) (s : σ) :
    (pop1 accept k).run base (e.push o) s = (k o).run base e s := by
  simp only [pop1, Handler.run, Execution.popN_push he ha, List.headD_cons]

theorem run_popIndex {σ : Type} {is64 : Bool} {k : ℕ → Handler σ} (c : Cell) (s : σ) :
    (popIndex is64 k).run base (e.push (.scalar c)) s = (k (c.index is64)).run base e s :=
  run_pop1 he rfl s

theorem run_popI32 {σ : Type} {k : BitVec 32 → Handler σ} (c : Cell) (s : σ) :
    (popI32 k).run base (e.push (.scalar c)) s = (k c.unwrapI32).run base e s :=
  run_pop1 he rfl s

/-- The checks of an access are one comparison in unbounded arithmetic. -/
theorem run_memEa {m : MemoryEntity} {n offset : ℕ} {k : ℕ → Handler EntityStore}
    (hlen : m.bytes.length ≤ usizeMax) (addr : Cell) (s : EntityStore) :
    (memEa m n offset k).run base (e.push (.scalar addr)) s =
      if m.bytes.length < addr.index m.ty.memory64 + offset + n then
        (e, s, .error .memoryOutOfBounds)
      else (k (addr.index m.ty.memory64 + offset)).run base e s := by
  rw [memEa, run_popIndex he]
  generalize addr.index m.ty.memory64 = a
  unfold checkedAdd
  by_cases h1 : a + offset ≤ usizeMax
  · rw [if_pos h1]
    dsimp only
    by_cases h2 : a + offset + n ≤ usizeMax
    · rw [if_pos h2]
      dsimp only
      split <;> rfl
    · rw [if_neg h2, if_pos (by omega)]
      rfl
  · rw [if_neg h1, if_pos (by omega)]
    rfl

theorem run_loadN {C : CompiledFunc} {s : EntityStore} {inst n h : ℕ} {m : MemArg}
    {entity : MemoryEntity} {k : List UInt8 → Handler EntityStore}
    (hm : s.memoryAt inst (m.resolve C.bigMemargs).memory = some (h, entity))
    (hlen : entity.bytes.length ≤ usizeMax) (addr : Cell) :
    (loadN C inst n m k).run base (e.push (.scalar addr)) s =
      if entity.bytes.length <
          addr.index entity.ty.memory64 + (m.resolve C.bigMemargs).offset + n then
        (e, s, .error .memoryOutOfBounds)
      else
        (k (window entity.bytes
          (addr.index entity.ty.memory64 + (m.resolve C.bigMemargs).offset) n)).run base e s := by
  rw [loadN, Handler.run, hm]
  exact run_memEa he hlen addr s

theorem run_storeN {C : CompiledFunc} {s : EntityStore} {inst h : ℕ} {m : MemArg}
    {entity : MemoryEntity} {data : List UInt8} {k : Handler EntityStore}
    (hm : s.memoryAt inst (m.resolve C.bigMemargs).memory = some (h, entity))
    (hlen : entity.bytes.length ≤ usizeMax) (addr : Cell) :
    (storeN C inst m data k).run base (e.push (.scalar addr)) s =
      if entity.bytes.length <
          addr.index entity.ty.memory64 + (m.resolve C.bigMemargs).offset + data.length then
        (e, s, .error .memoryOutOfBounds)
      else
        k.run base e (s.setBytes h entity (overwrite entity.bytes
          (addr.index entity.ty.memory64 + (m.resolve C.bigMemargs).offset) data)) := by
  rw [storeN, Handler.run, hm]
  exact run_memEa he hlen addr s

end Running

/-! ## Widths and extensions -/

/-- Whether a load extends the sign. -/
def LoadKind.signed : LoadKind → Bool
  | .i32x8S | .i32x16S | .i64x8S | .i64x16S | .i64x32S => true
  | _ => false

/-- The bits of the value a load yields. -/
def LoadKind.bits : LoadKind → ℕ
  | .i32 | .f32 | .i32x8S | .i32x8U | .i32x16S | .i32x16U => 32
  | _ => 64

/-- The number a load is to yield where its bytes stand for `x`: a number of the load's width in
two's complement is extended to the width of the value. -/
def LoadKind.loaded (k : LoadKind) (x : ℕ) : ℕ :=
  if k.signed then
    if 2 ^ (8 * k.width - 1) ≤ x then x + 2 ^ k.bits - 2 ^ (8 * k.width) else x
  else x

/-- The bytes a store writes. -/
def StoreKind.width : StoreKind → ℕ
  | .i32x8 | .i64x8 => 1
  | .i32x16 | .i64x16 => 2
  | .i32 | .f32 | .i64x32 => 4
  | .i64 | .f64 => 8

theorem signExtend_ofNat {w v x : ℕ} (hv : w ≤ v) (hx : x < 2 ^ w) :
    ((BitVec.ofNat w x).signExtend v).toNat =
      if 2 ^ (w - 1) ≤ x then x + 2 ^ v - 2 ^ w else x := by
  have hpow : 2 ^ w ≤ 2 ^ v := Nat.pow_le_pow_right (by decide) hv
  rw [BitVec.toNat_signExtend, BitVec.toNat_setWidth, BitVec.toNat_ofNat, BitVec.msb_eq_decide,
    BitVec.toNat_ofNat, Nat.mod_eq_of_lt hx, Nat.mod_eq_of_lt (lt_of_lt_of_le hx hpow)]
  by_cases h : 2 ^ (w - 1) ≤ x
  · rw [if_pos h, if_pos (decide_eq_true h)]
    omega
  · rw [if_neg h, if_neg (by simpa using h), Nat.add_zero]

theorem setWidth_ofNat {w v x : ℕ} (hv : w ≤ v) (hx : x < 2 ^ w) :
    (BitVec.ofNat w x).setWidth v = BitVec.ofNat v x := by
  have hpow : 2 ^ w ≤ 2 ^ v := Nat.pow_le_pow_right (by decide) hv
  apply BitVec.eq_of_toNat_eq
  rw [BitVec.toNat_setWidth, BitVec.toNat_ofNat, BitVec.toNat_ofNat, Nat.mod_eq_of_lt hx]

/-- A signed load, as a word of the stack. -/
theorem signed_word {w v x : ℕ} (hwv : w ≤ v) (hx : x < 2 ^ w) :
    ((BitVec.ofNat w x).signExtend v).setWidth 64 =
      BitVec.ofNat 64 (if 2 ^ (w - 1) ≤ x then x + 2 ^ v - 2 ^ w else x) := by
  rw [← signExtend_ofNat hwv hx]
  apply BitVec.eq_of_toNat_eq
  rw [BitVec.toNat_setWidth, BitVec.toNat_ofNat]

/-- An unsigned load, as a word of the stack. -/
theorem unsigned_word {w v x : ℕ} (hwv : w ≤ v) (hv : v ≤ 64) (hx : x < 2 ^ w) :
    ((BitVec.ofNat w x).setWidth v).setWidth 64 = BitVec.ofNat 64 x := by
  rw [setWidth_ofNat hwv hx]
  exact setWidth_ofNat hv (lt_of_lt_of_le hx (Nat.pow_le_pow_right (by decide) hwv))

/-- A load decodes its bytes as a number of its width and extends that. -/
theorem LoadKind.encode_extended (k : LoadKind) (b : List UInt8) :
    encode (k.value b) =
      (if k.signed then (BitVec.ofNat (8 * k.width) (leNat b)).signExtend k.bits
        else (BitVec.ofNat (8 * k.width) (leNat b)).setWidth k.bits).setWidth 64 := by
  have hsame : ∀ {w : ℕ} (v : BitVec w), v.setWidth w = v := fun v => BitVec.setWidth_eq v
  cases k with
  | i32 => exact congrArg (BitVec.setWidth 64) (hsame _).symm
  | f32 => exact congrArg (BitVec.setWidth 64) (hsame _).symm
  | i64 => exact ((hsame _).trans (hsame _)).symm
  | f64 => exact ((hsame _).trans (hsame _)).symm
  | i32x8S => rfl
  | i32x8U => rfl
  | i32x16S => rfl
  | i32x16U => rfl
  | i64x8S => exact (hsame _).symm
  | i64x8U => exact (hsame _).symm
  | i64x16S => exact (hsame _).symm
  | i64x16U => exact (hsame _).symm
  | i64x32S => exact (hsame _).symm
  | i64x32U => exact (hsame _).symm

/-- The word a load pushes. -/
theorem LoadKind.encode_value {k : LoadKind} {b : List UInt8} (hb : b.length = k.width) :
    encode (k.value b) = BitVec.ofNat 64 (k.loaded (leNat b)) := by
  have hlt := leNat_lt b
  have hpow : 256 ^ k.width = 2 ^ (8 * k.width) := by
    rw [pow_mul]
    norm_num
  rw [hb, hpow] at hlt
  have hwidth : 8 * k.width ≤ k.bits := by cases k <;> decide
  have hbits : k.bits ≤ 64 := by cases k <;> decide
  rw [k.encode_extended, loaded]
  by_cases hs : k.signed = true
  · rw [if_pos hs, if_pos hs]
    exact signed_word hwidth hlt
  · rw [if_neg hs, if_neg hs]
    exact unsigned_word hwidth hbits hlt

/-- The value of a load as an operand. -/
theorem LoadKind.value_eq {k : LoadKind} {b : List UInt8} (hb : b.length = k.width) :
    Operand.ofVal (k.value b) = .scalar (BitVec.ofNat 64 (k.loaded (leNat b))) := by
  have htag : RefTag.ofVal (k.value b) = .none := by cases k <;> rfl
  rw [Operand.ofVal, htag, k.encode_value hb]
  rfl

/-- Only the low `n` bytes of a number are written. -/
theorem leBytes_mod {n x y : ℕ} (h : x % 256 ^ n = y % 256 ^ n) : leBytes n x = leBytes n y := by
  have hx := leBytes_leNat (leBytes n x)
  have hy := leBytes_leNat (leBytes n y)
  rw [leBytes_length, leNat_leBytes] at hx hy
  rw [← hx, ← hy, h]

/-- The bytes of a store are the low bytes of its operand. -/
theorem StoreKind.bytes_eq (k : StoreKind) (c : Cell) : k.bytes c = leBytes k.width c.toNat := by
  have hlow : ∀ n w : ℕ, w ≤ 64 → 256 ^ n = 2 ^ w →
      leBytes n (c.setWidth w).toNat = leBytes n c.toNat := by
    intro n w hw hpow
    apply leBytes_mod
    rw [BitVec.toNat_setWidth, hpow, Nat.mod_mod]
  have hhalf : ∀ n w : ℕ, w ≤ 32 → 256 ^ n = 2 ^ w →
      leBytes n (c.unwrapI32.setWidth w).toNat = leBytes n c.toNat := by
    intro n w hw hpow
    apply leBytes_mod
    rw [Cell.unwrapI32, BitVec.toNat_setWidth, BitVec.toNat_setWidth, hpow, Nat.mod_mod,
      Nat.mod_mod_of_dvd _ (pow_dvd_pow 2 hw)]
  cases k with
  | i32 => exact hlow 4 32 (by decide) (by norm_num)
  | f32 => exact hlow 4 32 (by decide) (by norm_num)
  | i64 => rfl
  | f64 => rfl
  | i32x8 => exact hhalf 1 8 (by decide) (by norm_num)
  | i32x16 => exact hhalf 2 16 (by decide) (by norm_num)
  | i64x8 => exact hlow 1 8 (by decide) (by norm_num)
  | i64x16 => exact hlow 2 16 (by decide) (by norm_num)
  | i64x32 => exact hlow 4 32 (by decide) (by norm_num)

/-! ## Memory accesses -/

/-- A memory immediate `m` names the memory `entity`, and the access at `addr` begins at `ea`. -/
structure Access (C : CompiledFunc) (s : EntityStore) (inst : ℕ) (m : MemArg) (h : ℕ)
    (entity : MemoryEntity) (addr : Cell) (ea : ℕ) : Prop where
  memory : s.memoryAt inst (m.resolve C.bigMemargs).memory = some (h, entity)
  /-- A vector's length is a `usize`. -/
  length : entity.bytes.length ≤ usizeMax
  address : ea = addr.index entity.ty.memory64 + (m.resolve C.bigMemargs).offset

/-- What every load, every store and every other access of a width does. -/
structure AccessExact (C : CompiledFunc) (e : Execution) (s : EntityStore) (inst base next : ℕ)
    (m : MemArg) (h : ℕ) (entity : MemoryEntity) (addr : Cell) (ea : ℕ) : Prop where
  load : ∀ kind : LoadKind,
    (execMemory C (.load kind m) inst next).run base (e.push (.scalar addr)) s =
      if entity.bytes.length < ea + kind.width then (e, s, .error .memoryOutOfBounds)
      else (e.push (.scalar (BitVec.ofNat 64
        (kind.loaded (leNat (window entity.bytes ea kind.width))))), s, .ok (.advance next))
  store : ∀ (kind : StoreKind) (v : Cell),
    (execMemory C (.store kind m) inst next).run base ((e.push (.scalar addr)).push (.scalar v)) s =
      if entity.bytes.length < ea + kind.width then (e, s, .error .memoryOutOfBounds)
      else (e, s.setBytes h entity (overwrite entity.bytes ea (leBytes kind.width v.toNat)),
        .ok (.advance next))
  loadN : ∀ (n : ℕ) (k : List UInt8 → Handler EntityStore),
    (SubmilliWasm.loadN C inst n m k).run base (e.push (.scalar addr)) s =
      if entity.bytes.length < ea + n then (e, s, .error .memoryOutOfBounds)
      else (k (window entity.bytes ea n)).run base e s
  storeN : ∀ (data : List UInt8) (k : Handler EntityStore),
    (SubmilliWasm.storeN C inst m data k).run base (e.push (.scalar addr)) s =
      if entity.bytes.length < ea + data.length then (e, s, .error .memoryOutOfBounds)
      else k.run base e (s.setBytes h entity (overwrite entity.bytes ea data))
  /-- The bytes of an access are those at its address, and only they are written. -/
  touched : ∀ n, ea + n ≤ entity.bytes.length →
    (∀ i < n, (window entity.bytes ea n)[i]? = entity.bytes[ea + i]?) ∧
    ∀ data : List UInt8, data.length = n →
      (overwrite entity.bytes ea data).length = entity.bytes.length ∧
      ∀ j, (overwrite entity.bytes ea data)[j]? =
        if ea ≤ j ∧ j < ea + n then data[j - ea]? else entity.bytes[j]?

/-- An access traps exactly if its end lies behind the memory, and else reads or writes the bytes
at its address; and the immediates that the compiler emits name the memory and the offset of their
operators, in any function they end up in. -/
theorem memory_access :
    (∀ {C : CompiledFunc} {e : Execution} {s : EntityStore} {inst h ea : ℕ} {m : MemArg}
      {entity : MemoryEntity} {addr : Cell} (base next : ℕ), e.Ready →
      Access C s inst m h entity addr ea →
      AccessExact C e s inst base next m h entity addr ea) ∧
    (∀ (pool big : List BigMemArg) (m : BigMemArg), (Translator.memarg pool m).2 <+: big →
      (Translator.memarg pool m).1.resolve big = m) ∧
    ∀ {ctx : CompileCtx} {used typeIdx : ℕ} {locals : List (ℕ × IrVal)} {b : Body}
      {C : CompiledFunc}, translateFunction ctx used typeIdx locals b.operators = .ok C →
      FuncCode C ctx b := by
  refine ⟨?_, fun pool big m h => Translator.memarg_resolve h,
    fun h => translateFunction_code h⟩
  intro C e s inst h ea m entity addr base next he ha
  obtain ⟨hm, hlen, rfl⟩ := ha
  constructor
  · intro kind
    rw [execMemory, run_loadN he hm hlen]
    split
    · rfl
    · rename_i hle
      rw [LoadKind.value_eq (Ranges.window_length (Nat.le_of_not_lt hle))]
      rfl
  · intro kind v
    have hbytes : kind.bytes (Operand.scalar v).cell = leBytes kind.width v.toNat :=
      StoreKind.bytes_eq kind v
    rw [execMemory, run_pop1 (he.push _) rfl, hbytes, run_storeN he hm hlen, leBytes_length]
    split <;> rfl
  · intro n k
    exact run_loadN he hm hlen addr
  · intro data k
    exact run_storeN he hm hlen addr
  · intro n hn
    refine ⟨fun i hi => Ranges.window_getElem? hi, ?_⟩
    rintro data rfl
    exact ⟨Ranges.overwrite_length hn, fun j => Ranges.overwrite_getElem? hn j⟩

/-! ## An address that wraps -/

/-- A function whose one pooled offset is the greatest there is. -/
def wideCode : CompiledFunc := ⟨[], 0, 0, 0, [], 0, [], [], [⟨0, 2 ^ 64 - 1⟩]⟩

/-- An activation of it, with empty operands. -/
def wideFrame : Execution := ⟨[], [], [⟨wideCode, 0, 0, 0, 0, 0, none⟩], 0⟩

/-- A 64-bit memory of eight bytes. -/
def wideMemory : MemoryEntity := ⟨[1, 2, 3, 4, 5, 6, 7, 8], ⟨0, none, true⟩⟩

def wideStore : EntityStore :=
  ⟨[wideMemory], [], [⟨[0], [], [], [], [], []⟩], ReclaimArena.empty⟩

theorem wideCode_resolve :
    MemArg.resolve wideCode.bigMemargs ⟨0, bigMemarg⟩ = ⟨0, 2 ^ 64 - 1⟩ := if_pos rfl

/-- At address 1 with that offset the sum does not come back to the start of the memory. -/
theorem memory_access_wide :
    AccessExact wideCode wideFrame wideStore 0 0 1 ⟨0, bigMemarg⟩ 0 wideMemory 1#64 (2 ^ 64) := by
  have hmem : wideStore.memoryAt 0 0 = some (0, wideMemory) := rfl
  have haddr : 2 ^ 64 = Cell.index true 1#64 + (2 ^ 64 - 1) := by decide
  apply memory_access.1 0 1
  · exact ⟨rfl, _, _, rfl, Nat.le_refl 0⟩
  · constructor
    · rw [wideCode_resolve]
      exact hmem
    · decide
    · rw [wideCode_resolve]
      exact haddr

end SubmilliWasm
