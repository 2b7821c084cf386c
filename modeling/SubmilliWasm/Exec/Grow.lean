/-
# Growing memories and tables

`memory.grow` and `table.grow` on their three paths (`src/store/grow.rs`, `src/exec/host.rs`,
`src/exec/host_async.rs`, `src/extern_.rs`): the limiter or the default ceiling is asked for the
new size, the entity is grown if it may be, and the limiter is told of a failure, which it may
turn into an error.

A limiter is seen through what it answers and what its answer does to the data of the host, which
is all it can reach.
-/
import SubmilliWasm.Exec.Drive
import SubmilliWasm.Exec.Memory

namespace SubmilliWasm

/-! ## Limiters -/

/-- A resource limiter, sync or async: its answer to a request to grow, and what it makes of a
growth that failed. -/
structure ResourceLimiter (σ : Type) where
  memoryGrowing : Request → σ → Except ExecError Bool × σ
  tableGrowing : Request → σ → Except ExecError Bool × σ
  memoryGrowFailed : ExecError → σ → Except ExecError Unit × σ
  tableGrowFailed : ExecError → σ → Except ExecError Unit × σ

inductive ResourceLimiterInner (σ : Type) where
  | sync (l : ResourceLimiter σ)
  | async (l : ResourceLimiter σ)

def ResourceLimiterInner.limiter {σ : Type} : ResourceLimiterInner σ → ResourceLimiter σ
  | .sync l | .async l => l

def ExecError.asyncLimiter : ExecError :=
  .msg "an async resource limiter requires an async context (use the `*_async` API)"

def ExecError.memoryGrowFailed : ExecError := .msg "failed to grow memory"

def ExecError.tableGrowFailed : ExecError := .msg "failed to grow table"

def ExecError.tableMismatch : ExecError := .msg "table type mismatch"

/-- What one growth asks of a limiter: the request, the default ceiling that stands in for a
limiter, and the methods asked. -/
structure Question (σ : Type) where
  request : Request
  ceiling : ℕ
  growing : ResourceLimiter σ → Request → σ → Except ExecError Bool × σ
  growFailed : ResourceLimiter σ → σ → Except ExecError Unit × σ

namespace Question

variable {σ R : Type} (q : Question σ)

/-- Asks an installed sync limiter; `none` without one. -/
def withSyncLimiter (limiter : Option (ResourceLimiterInner σ))
    (f : ResourceLimiter σ → σ → R × σ) (data : σ) : Except ExecError (Option R) × σ :=
  match limiter with
  | none => (.ok none, data)
  | some (.sync l) =>
    let (r, data) := f l data
    (.ok (some r), data)
  | some (.async _) => (.error .asyncLimiter, data)

/-- The decision on a synchronous path. -/
def allowed (limiter : Option (ResourceLimiterInner σ)) (data : σ) : Except ExecError Bool × σ :=
  match withSyncLimiter limiter (fun l => q.growing l q.request) data with
  | (.error e, data) => (.error e, data)
  | (.ok none, data) => (.ok (q.request.desired ≤ q.ceiling), data)
  | (.ok (some r), data) => (r, data)

/-- The decision on an asynchronous path (`memory_growing_async`, `table_growing_async`). -/
def allowedAsync (limiter : Option (ResourceLimiterInner σ)) (data : σ) :
    Except ExecError Bool × σ :=
  match limiter with
  | none => (.ok (q.request.desired ≤ q.ceiling), data)
  | some (.sync l) => q.growing l q.request data
  | some (.async l) => q.growing l q.request data

/-- Tells an installed limiter of a failure. -/
def notify (limiter : Option (ResourceLimiterInner σ)) (data : σ) : Except ExecError Unit × σ :=
  match limiter with
  | none => (.ok (), data)
  | some (.sync l) => q.growFailed l data
  | some (.async l) => q.growFailed l data

end Question

/-- One growth, given the limiter's decision: the new entity if it grew, the data of the host, and
the old size or `none` for a soft failure. -/
def attempt {σ E : Type} (decision : Except ExecError Bool × σ) (grow : Option (ℕ × E))
    (failed : σ → Except ExecError Unit × σ) : Option E × σ × Except ExecError (Option ℕ) :=
  match decision with
  | (.error e, data) => (none, data, .error e)
  | (.ok allowed, data) =>
    match if allowed then grow else none with
    | some (old, entity) => (some entity, data, .ok (some old))
    | none =>
      match failed data with
      | (.error e, data) => (none, data, .error e)
      | (.ok (), data) => (none, data, .ok none)

/-! ## The store as a growth sees it -/

/-- A memory of whole pages, as its allocation and its growth leave it. -/
structure PagedMemory extends MemoryEntity where
  paged : toMemoryEntity.bytes.length = toMemoryEntity.sizePages * pageSize

/-- `MemoryEntity::grow`. -/
def PagedMemory.grow (m : PagedMemory) (delta : ℕ) (allocator : Bool) : Option (ℕ × PagedMemory) :=
  match h : m.toMemoryEntity.grow delta allocator with
  | none => none
  | some (old, m') => some (old, ⟨m', by
      obtain ⟨-, hpages, hlen, -⟩ := Resources.growMemory_spec m.paged h
      rw [hpages, hlen]⟩)

structure GrowStore (σ : Type) where
  /-- The data of the host. -/
  data : σ
  limiter : Option (ResourceLimiterInner σ)
  memories : List PagedMemory
  tables : List TableEntity

namespace GrowStore

variable {σ : Type} (s : GrowStore σ)

/-- What a memory growth asks for, in bytes. -/
def memoryRequest (m : PagedMemory) (delta : ℕ) : Request :=
  ⟨bytesOfPages m.sizePages, bytesOfPages (min (m.sizePages + delta) u64Max),
    m.ty.maximum.map bytesOfPages⟩

def memoryQuestion (m : PagedMemory) (delta : ℕ) : Question σ where
  request := memoryRequest m delta
  ceiling := defaultMemoryCeilingBytes
  growing := (·.memoryGrowing)
  growFailed := (·.memoryGrowFailed .memoryGrowFailed)

/-- What a table growth asks for, in elements. -/
def tableRequest (t : TableEntity) (delta : ℕ) : Request :=
  ⟨t.size, saturatingAdd t.size (hostCount delta), t.ty.maximum.map hostCount⟩

def tableQuestion (t : TableEntity) (delta : ℕ) : Question σ where
  request := tableRequest t delta
  ceiling := defaultTableCeilingElems
  growing := (·.tableGrowing)
  growFailed := (·.tableGrowFailed .tableGrowFailed)

/-- Stores what an attempt on a memory came to. -/
def settleMemory (handle : ℕ) :
    Option PagedMemory × σ × Except ExecError (Option ℕ) → GrowStore σ × Except ExecError (Option ℕ)
  | (none, data, r) => ({ s with data := data }, r)
  | (some m, data, r) => ({ s with data := data, memories := s.memories.set handle m }, r)

def settleTable (handle : ℕ) :
    Option TableEntity × σ × Except ExecError (Option ℕ) → GrowStore σ × Except ExecError (Option ℕ)
  | (none, data, r) => ({ s with data := data }, r)
  | (some t, data, r) => ({ s with data := data, tables := s.tables.set handle t }, r)

/-- Grows a memory, asking the limiter; an unknown handle, a panic in the source, is an error. -/
def growMemory (handle delta : ℕ) (allocator : Bool) : GrowStore σ × Except ExecError (Option ℕ) :=
  match s.memories[handle]? with
  | none => (s, .error .indexOutOfBounds)
  | some m =>
    let q := memoryQuestion m delta
    s.settleMemory handle
      (attempt (q.allowed s.limiter s.data) (m.grow delta allocator) (q.notify s.limiter))

/-- Grows a memory, awaiting the limiter. -/
def growMemoryAsync (handle delta : ℕ) (allocator : Bool) :
    GrowStore σ × Except ExecError (Option ℕ) :=
  match s.memories[handle]? with
  | none => (s, .error .indexOutOfBounds)
  | some m =>
    let q := memoryQuestion m delta
    s.settleMemory handle
      (attempt (q.allowedAsync s.limiter s.data) (m.grow delta allocator) (q.notify s.limiter))

/-- Grows a table, asking the limiter. -/
def growTable (handle delta : ℕ) (init : Ref) (allocator : Bool) :
    GrowStore σ × Except ExecError (Option ℕ) :=
  match s.tables[handle]? with
  | none => (s, .error .indexOutOfBounds)
  | some t =>
    let q := tableQuestion t delta
    s.settleTable handle
      (attempt (q.allowed s.limiter s.data) (t.grow delta init allocator) (q.notify s.limiter))

/-- Grows a table, awaiting the limiter. -/
def growTableAsync (handle delta : ℕ) (init : Ref) (allocator : Bool) :
    GrowStore σ × Except ExecError (Option ℕ) :=
  match s.tables[handle]? with
  | none => (s, .error .indexOutOfBounds)
  | some t =>
    let q := tableQuestion t delta
    s.settleTable handle
      (attempt (q.allowedAsync s.limiter s.data) (t.grow delta init allocator)
        (q.notify s.limiter))

/-! ## The host's paths -/

/-- What the host gets of a growth: a soft failure is an error. -/
def hostAnswer (failure : ExecError) :
    GrowStore σ × Except ExecError (Option ℕ) → GrowStore σ × Except ExecError ℕ
  | (s, .error e) => (s, .error e)
  | (s, .ok none) => (s, .error failure)
  | (s, .ok (some old)) => (s, .ok old)

/-- `Memory::grow`. -/
def memoryGrow (handle delta : ℕ) (allocator : Bool) : GrowStore σ × Except ExecError ℕ :=
  hostAnswer .memoryGrowFailed (s.growMemory handle delta allocator)

/-- `Table::grow`; `matched` is the answer of the check of `init` against the element type. -/
def tableGrow (handle delta : ℕ) (init : Ref) (matched : Except ExecError Bool)
    (allocator : Bool) : GrowStore σ × Except ExecError ℕ :=
  match matched with
  | .error e => (s, .error e)
  | .ok false => (s, .error .tableMismatch)
  | .ok true => hostAnswer .tableGrowFailed (s.growTable handle delta init allocator)

/-! ## The guest's paths -/

/-- What a driver does with the answer: the old size is pushed, `-1` for a soft failure. -/
def guestAnswer (e : Execution) (g : Growth) :
    GrowStore σ × Except ExecError (Option ℕ) → Execution × GrowStore σ × Except ExecError Unit
  | (s, .error err) => (e, s, .error err)
  | (s, .ok old) => (Interp.pushGrown e g old, s, .ok ())

/-- Services `memory.grow` in a synchronous driver. -/
def doGrow (e : Execution) (handle delta : ℕ) (allocator : Bool) :
    Execution × GrowStore σ × Except ExecError Unit :=
  match s.memories[handle]? with
  | none => (e, s, .error .indexOutOfBounds)
  | some m => guestAnswer e (.memory m.ty.memory64) (s.growMemory handle delta allocator)

/-- Services `table.grow` in a synchronous driver. -/
def doGrowTable (e : Execution) (handle delta : ℕ) (init : Ref) (allocator : Bool) :
    Execution × GrowStore σ × Except ExecError Unit :=
  match s.tables[handle]? with
  | none => (e, s, .error .indexOutOfBounds)
  | some t => guestAnswer e (.table t.ty.table64) (s.growTable handle delta init allocator)

/-- `drive_async` at `Outcome::Grow`. -/
def driveAsyncGrow (e : Execution) (handle delta : ℕ) (allocator : Bool) :
    Execution × GrowStore σ × Except ExecError Unit :=
  match s.memories[handle]? with
  | none => (e, s, .error .indexOutOfBounds)
  | some m => guestAnswer e (.memory m.ty.memory64) (s.growMemoryAsync handle delta allocator)

/-- `drive_async` at `Outcome::TableGrow`. -/
def driveAsyncTableGrow (e : Execution) (handle delta : ℕ) (init : Ref) (allocator : Bool) :
    Execution × GrowStore σ × Except ExecError Unit :=
  match s.tables[handle]? with
  | none => (e, s, .error .indexOutOfBounds)
  | some t => guestAnswer e (.table t.ty.table64) (s.growTableAsync handle delta init allocator)

end GrowStore

/-! ## Entities -/

/-- What a growth of a memory needs besides the limiter. -/
def PagedMemory.Fits (m : PagedMemory) (delta : ℕ) (allocator : Bool) : Prop :=
  m.sizePages + delta ≤ m.ty.limit ∧
    tryReserve allocator ((m.sizePages + delta) * pageSize) = true

def TableEntity.Fits (t : TableEntity) (delta : ℕ) (allocator : Bool) : Prop :=
  t.size + delta ≤ t.ty.limit ∧ tryReserve allocator ((t.size + delta) * refSize) = true

/-- A memory after a growth: the old bytes, then zeros, in all what was asked for. -/
structure PagedMemory.Extends (m : PagedMemory) (delta : ℕ) (m' : PagedMemory) : Prop where
  ty : m'.ty = m.ty
  bytes : m'.bytes = m.bytes ++ List.replicate (delta * pageSize) 0
  size : m'.sizePages = m.sizePages + delta
  maximum : ∀ max, m.ty.maximum = some max → m'.sizePages ≤ max
  archMax : m'.sizePages ≤ m.ty.archMax
  current : (GrowStore.memoryRequest m delta).current = m.bytes.length
  desired : (GrowStore.memoryRequest m delta).desired = m'.bytes.length

/-- A table after a growth: the old elements, then the init value. -/
structure TableEntity.Extends (t : TableEntity) (delta : ℕ) (init : Ref) (t' : TableEntity) :
    Prop where
  ty : t'.ty = t.ty
  elems : t'.elems = t.elems ++ List.replicate delta init
  size : t'.size = t.size + delta
  maximum : ∀ max, t.ty.maximum = some max → t'.size ≤ max
  archMax : t'.size ≤ t.ty.archMax
  current : (GrowStore.tableRequest t delta).current = t.size
  desired : (GrowStore.tableRequest t delta).desired = t'.size

variable {allocator : Bool} {m : PagedMemory} {delta : ℕ}

theorem tryReserve_le {bytes : ℕ} (h : tryReserve allocator bytes = true) : bytes ≤ isizeMax := by
  unfold tryReserve at h
  exact of_decide_eq_true (Bool.and_eq_true_iff.mp h).2

theorem MemoryType.limit_le (ty : MemoryType) :
    ty.limit ≤ ty.archMax ∧ ∀ max, ty.maximum = some max → ty.limit ≤ max := by
  refine ⟨min_le_right _ _, fun max h => ?_⟩
  unfold MemoryType.limit
  rw [h]
  exact min_le_left _ _

theorem TableType.limit_le (ty : TableType) :
    ty.limit ≤ ty.archMax ∧ ∀ max, ty.maximum = some max → ty.limit ≤ max := by
  refine ⟨min_le_right _ _, fun max h => ?_⟩
  unfold TableType.limit
  rw [h]
  exact min_le_left _ _

/-- What a grow can answer fits the index type. -/
theorem MemoryType.archMax_lt (ty : MemoryType) :
    ty.archMax < if ty.memory64 then 2 ^ 64 else 2 ^ 32 := by
  unfold MemoryType.archMax
  split <;> decide

theorem TableType.archMax_lt (ty : TableType) :
    ty.archMax < if ty.table64 then 2 ^ 64 else 2 ^ 32 := by
  unfold TableType.archMax
  split <;> decide

theorem MemoryType.archMax_le (ty : MemoryType) : ty.archMax ≤ 2 ^ 48 := by
  unfold MemoryType.archMax
  split
  · exact Nat.le_refl _
  · decide

theorem TableType.archMax_le (ty : TableType) : ty.archMax ≤ u64Max := by
  unfold TableType.archMax
  split
  · exact Nat.le_refl _
  · decide

/-- The new bytes of a growth are `delta` pages. -/
theorem PagedMemory.new_bytes (m : PagedMemory) (delta : ℕ) :
    (m.sizePages + delta) * pageSize - m.bytes.length = delta * pageSize := by
  rw [m.paged, Nat.add_mul, Nat.add_sub_cancel_left]

theorem PagedMemory.entity_grow_fits (h : m.Fits delta allocator) :
    m.toMemoryEntity.grow delta allocator = some (m.sizePages,
      { m.toMemoryEntity with bytes := m.bytes ++ List.replicate (delta * pageSize) 0 }) := by
  have hlimit := h.1
  have hle : m.sizePages + delta ≤ 2 ^ 48 :=
    Nat.le_trans hlimit (Nat.le_trans m.ty.limit_le.1 m.ty.archMax_le)
  have hu64 : m.sizePages + delta ≤ u64Max := Nat.le_trans hle (by decide)
  have hmul : checkedMul (m.sizePages + delta) pageSize =
      some ((m.sizePages + delta) * pageSize) :=
    if_pos (Nat.le_trans (tryReserve_le h.2) (by decide))
  unfold MemoryEntity.grow
  simp only
  rw [if_pos hu64, if_neg (Nat.not_lt.mpr hlimit), hmul]
  simp only
  rw [if_pos h.2, m.new_bytes]

theorem PagedMemory.entity_grow_none (h : ¬m.Fits delta allocator) :
    m.toMemoryEntity.grow delta allocator = none := by
  unfold MemoryEntity.grow
  simp only
  split
  · split
    · rfl
    · rename_i hlimit
      split
      · rfl
      · rename_i newBytes hmul
        obtain ⟨rfl, -⟩ := Resources.checkedMul_some hmul
        exact if_neg fun hr => h ⟨Nat.not_lt.mp hlimit, hr⟩
  · rfl

theorem PagedMemory.grow_some {old : ℕ} {entity : MemoryEntity}
    (h : m.toMemoryEntity.grow delta allocator = some (old, entity)) :
    ∃ m', m.grow delta allocator = some (old, m') ∧ m'.toMemoryEntity = entity := by
  unfold PagedMemory.grow
  split
  · rename_i hn
    rw [hn] at h
    nomatch h
  · rename_i hs
    obtain ⟨rfl, rfl⟩ := Prod.mk.inj (Option.some.inj (hs.symm.trans h))
    exact ⟨_, rfl, rfl⟩

theorem PagedMemory.grow_none (h : m.toMemoryEntity.grow delta allocator = none) :
    m.grow delta allocator = none := by
  unfold PagedMemory.grow
  split
  · rfl
  · rename_i hs
    rw [hs] at h
    nomatch h

/-- A memory grows exactly when it fits. -/
theorem PagedMemory.grow_cases (m : PagedMemory) (delta : ℕ) (allocator : Bool) :
    (m.Fits delta allocator ∧
      ∃ m', m.grow delta allocator = some (m.sizePages, m') ∧ m.Extends delta m') ∨
    (¬m.Fits delta allocator ∧ m.grow delta allocator = none) := by
  by_cases h : m.Fits delta allocator
  · left
    refine ⟨h, ?_⟩
    have hg := PagedMemory.entity_grow_fits h
    obtain ⟨m', hgrow, hm'⟩ := PagedMemory.grow_some hg
    obtain ⟨-, hsize, hlen, hlimit, hu64, hbytes⟩ := Resources.growMemory_spec m.paged hg
    rw [← hm'] at hsize hlen
    refine ⟨m', hgrow, ?_, ?_, hsize, ?_, ?_, ?_, ?_⟩
    · rw [hm']
    · rw [hm']
    · intro max hmax
      rw [hsize]
      exact Nat.le_trans hlimit (m.ty.limit_le.2 max hmax)
    · rw [hsize]
      exact Nat.le_trans hlimit m.ty.limit_le.1
    · have hle : m.sizePages * pageSize ≤ usizeMax :=
        Nat.le_trans (Nat.mul_le_mul_right pageSize (Nat.le_add_right m.sizePages delta))
          (Nat.le_trans (tryReserve_le h.2) (by decide))
      exact (Resources.bytesOfPages_eq hle).trans m.paged.symm
    · unfold GrowStore.memoryRequest
      simp only
      rw [min_eq_left hu64, hbytes, hlen]
  · exact Or.inr ⟨h, PagedMemory.grow_none (PagedMemory.entity_grow_none h)⟩

theorem TableEntity.grow_fits {t : TableEntity} {init : Ref} (h : t.Fits delta allocator) :
    t.grow delta init allocator =
      some (t.size, { t with elems := t.elems ++ List.replicate delta init }) := by
  have hu64 : t.size + delta ≤ u64Max :=
    Nat.le_trans h.1 (Nat.le_trans t.ty.limit_le.1 t.ty.archMax_le)
  have hnew : t.size + delta - t.elems.length = delta :=
    Nat.add_sub_cancel_left t.size delta
  unfold TableEntity.grow
  simp only
  rw [if_pos hu64, if_neg (Nat.not_lt.mpr h.1), if_pos h.2, hnew]

theorem TableEntity.grow_none {t : TableEntity} {init : Ref} (h : ¬t.Fits delta allocator) :
    t.grow delta init allocator = none := by
  unfold TableEntity.grow
  simp only
  split
  · split
    · rfl
    · rename_i hlimit
      exact if_neg fun hr => h ⟨Nat.not_lt.mp hlimit, hr⟩
  · rfl

/-- A table grows exactly when it fits. -/
theorem TableEntity.grow_cases (t : TableEntity) (delta : ℕ) (init : Ref) (allocator : Bool) :
    (t.Fits delta allocator ∧
      ∃ t', t.grow delta init allocator = some (t.size, t') ∧ t.Extends delta init t') ∨
    (¬t.Fits delta allocator ∧ t.grow delta init allocator = none) := by
  by_cases h : t.Fits delta allocator
  · left
    refine ⟨h, _, TableEntity.grow_fits h, rfl, rfl, ?_, ?_, ?_, rfl, ?_⟩
    · exact (Resources.growTable_spec (TableEntity.grow_fits h)).2.1
    · intro max hmax
      rw [(Resources.growTable_spec (TableEntity.grow_fits h)).2.1]
      exact Nat.le_trans h.1 (t.ty.limit_le.2 max hmax)
    · rw [(Resources.growTable_spec (TableEntity.grow_fits h)).2.1]
      exact Nat.le_trans h.1 t.ty.limit_le.1
    · rw [(Resources.growTable_spec (TableEntity.grow_fits h)).2.1]
      have hu64 : t.size + delta ≤ usizeMax :=
        Nat.le_trans h.1 (Nat.le_trans t.ty.limit_le.1 t.ty.archMax_le)
      unfold GrowStore.tableRequest hostCount saturatingAdd
      simp only
      rw [min_eq_left (Nat.le_trans (Nat.le_add_left delta t.size) hu64), min_eq_left hu64]
  · exact Or.inr ⟨h, TableEntity.grow_none h⟩

/-! ## Decisions -/

namespace Question

variable {σ : Type} (q : Question σ)

/-- The path may consult the limiter, which approves the request and leaves the host's data as
`data'`; without a limiter the request is under the ceiling. -/
def Approved (isAsync : Bool) (limiter : Option (ResourceLimiterInner σ)) (data data' : σ) : Prop :=
  match limiter with
  | none => q.request.desired ≤ q.ceiling ∧ data' = data
  | some (.sync l) => q.growing l q.request data = (.ok true, data')
  | some (.async l) => isAsync = true ∧ q.growing l q.request data = (.ok true, data')

/-- The error is the limiter's: its answer, or what it makes of the failure; or it is an async
limiter on a synchronous path. -/
def LimiterError (isAsync : Bool) (limiter : Option (ResourceLimiterInner σ)) (data : σ)
    (e : ExecError) : Prop :=
  let said (l : ResourceLimiter σ) : Prop :=
    (q.growing l q.request data).1 = .error e ∨
      (q.growFailed l (q.growing l q.request data).2).1 = .error e
  match limiter with
  | none => False
  | some (.sync l) => said l
  | some (.async l) => if isAsync then said l else e = .asyncLimiter

/-- The decision on a path. -/
def decision (isAsync : Bool) (limiter : Option (ResourceLimiterInner σ)) (data : σ) :
    Except ExecError Bool × σ :=
  if isAsync then q.allowedAsync limiter data else q.allowed limiter data

/-- What an attempt comes to: it grows exactly when it is approved and fits. -/
inductive Attempted {E : Type} (isAsync : Bool) (limiter : Option (ResourceLimiterInner σ))
    (data : σ) (Fits : Prop) (old : ℕ) (Extends : E → Prop) :
    Option E × σ × Except ExecError (Option ℕ) → Prop
  | grew (entity : E) (data' : σ) (approved : q.Approved isAsync limiter data data') (fits : Fits)
      (extended : Extends entity) :
      Attempted isAsync limiter data Fits old Extends (some entity, data', .ok (some old))
  | refused (data' : σ) (h : ¬((∃ d, q.Approved isAsync limiter data d) ∧ Fits)) :
      Attempted isAsync limiter data Fits old Extends (none, data', .ok none)
  | failed (e : ExecError) (data' : σ) (h : ¬((∃ d, q.Approved isAsync limiter data d) ∧ Fits))
      (error : q.LimiterError isAsync limiter data e) :
      Attempted isAsync limiter data Fits old Extends (none, data', .error e)

variable {q} {isAsync : Bool} {limiter : Option (ResourceLimiterInner σ)} {data data' : σ}

theorem decision_true : q.decision isAsync limiter data = (.ok true, data') ↔
    q.Approved isAsync limiter data data' := by
  unfold decision allowedAsync allowed withSyncLimiter Approved
  rcases limiter with _ | l | l
  · cases isAsync <;> simp [Prod.ext_iff, eq_comm]
  · cases isAsync <;> rfl
  · cases isAsync <;> simp

theorem decision_error {e : ExecError}
    (h : q.decision isAsync limiter data = (.error e, data')) :
    q.LimiterError isAsync limiter data e := by
  unfold decision allowedAsync allowed withSyncLimiter at h
  unfold LimiterError
  rcases limiter with _ | l | l
  · cases isAsync <;> exact (nomatch h)
  · left
    cases isAsync <;> exact congrArg Prod.fst h
  · cases isAsync with
    | false => exact (Except.error.inj (congrArg Prod.fst h)).symm
    | true => exact Or.inl (congrArg Prod.fst h)

/-- What the limiter makes of a failure is its error too. -/
theorem notify_error {allowed : Bool} {e : ExecError} {data'' : σ}
    (h : q.decision isAsync limiter data = (.ok allowed, data'))
    (hn : q.notify limiter data' = (.error e, data'')) :
    q.LimiterError isAsync limiter data e := by
  unfold decision allowedAsync Question.allowed withSyncLimiter at h
  unfold notify at hn
  unfold LimiterError
  rcases limiter with _ | l | l
  · nomatch hn
  · right
    have hgrowing : q.growing l q.request data = (.ok allowed, data') := by
      cases isAsync <;> exact h
    rw [hgrowing]
    exact congrArg Prod.fst hn
  · cases isAsync with
    | false => nomatch h
    | true =>
      right
      have hgrowing : q.growing l q.request data = (.ok allowed, data') := h
      rw [hgrowing]
      exact congrArg Prod.fst hn

/-- An attempt grows the entity when it is approved and fits, and leaves it as it is otherwise. -/
theorem attempted {E : Type} {grow : Option (ℕ × E)} {Fits : Prop} {old : ℕ} {Extends : E → Prop}
    (hgrow : (Fits ∧ ∃ x, grow = some (old, x) ∧ Extends x) ∨ (¬Fits ∧ grow = none)) :
    q.Attempted isAsync limiter data Fits old Extends
      (attempt (q.decision isAsync limiter data) grow (q.notify limiter)) := by
  -- A failure is reported, and the limiter may turn it into an error.
  have hrefused : ∀ {allowed : Bool} {data' : σ},
      q.decision isAsync limiter data = (.ok allowed, data') →
      ¬((∃ d, q.Approved isAsync limiter data d) ∧ Fits) →
      q.Attempted isAsync limiter data Fits old Extends
        (match q.notify limiter data' with
        | (.error e, data) => (none, data, .error e)
        | (.ok (), data) => (none, data, .ok none)) := by
    intro allowed data' hd hnot
    rcases hn : q.notify limiter data' with ⟨r, data''⟩
    cases r with
    | error e => exact .failed e data'' hnot (notify_error hd hn)
    | ok u => exact .refused data'' hnot
  unfold attempt
  rcases hd : q.decision isAsync limiter data with ⟨r, data'⟩
  cases r with
  | error e =>
    refine .failed e data' ?_ (decision_error hd)
    rintro ⟨⟨d, ha⟩, -⟩
    exact (nomatch hd.symm.trans (decision_true.mpr ha))
  | ok allowed =>
    cases allowed with
    | false =>
      refine hrefused hd ?_
      rintro ⟨⟨d, ha⟩, -⟩
      exact (nomatch hd.symm.trans (decision_true.mpr ha))
    | true =>
      obtain ⟨hfits, x, rfl, hx⟩ | ⟨hfits, rfl⟩ := hgrow
      · exact .grew x data' (decision_true.mp hd) hfits hx
      · exact hrefused hd fun h => hfits h.2

/-- Without an async limiter the two paths decide alike. -/
theorem allowedAsync_eq (h : ∀ l, limiter ≠ some (.async l)) :
    q.allowedAsync limiter data = q.allowed limiter data := by
  rcases limiter with _ | l | l
  · rfl
  · rfl
  · exact absurd rfl (h l)

end Question

/-! ## Growths -/

namespace GrowStore

variable {σ : Type} (s : GrowStore σ)

/-- The fate of a memory: extended at its place, with the request approved, or unchanged. -/
inductive MemoryGrowth (isAsync : Bool) (handle : ℕ) (m : PagedMemory) (delta : ℕ)
    (allocator : Bool) : GrowStore σ × Except ExecError (Option ℕ) → Prop
  | grew (m' : PagedMemory) (data : σ) (extended : m.Extends delta m')
      (approved : (memoryQuestion m delta).Approved isAsync s.limiter s.data data)
      (fits : m.Fits delta allocator) :
      MemoryGrowth isAsync handle m delta allocator
        ({ s with data := data, memories := s.memories.set handle m' }, .ok (some m.sizePages))
  | refused (data : σ)
      (h : ¬((∃ d, (memoryQuestion m delta).Approved isAsync s.limiter s.data d) ∧
        m.Fits delta allocator)) :
      MemoryGrowth isAsync handle m delta allocator ({ s with data := data }, .ok none)
  | failed (e : ExecError) (data : σ)
      (h : ¬((∃ d, (memoryQuestion m delta).Approved isAsync s.limiter s.data d) ∧
        m.Fits delta allocator))
      (error : (memoryQuestion m delta).LimiterError isAsync s.limiter s.data e) :
      MemoryGrowth isAsync handle m delta allocator ({ s with data := data }, .error e)

inductive TableGrowth (isAsync : Bool) (handle : ℕ) (t : TableEntity) (delta : ℕ) (init : Ref)
    (allocator : Bool) : GrowStore σ × Except ExecError (Option ℕ) → Prop
  | grew (t' : TableEntity) (data : σ) (extended : t.Extends delta init t')
      (approved : (tableQuestion t delta).Approved isAsync s.limiter s.data data)
      (fits : t.Fits delta allocator) :
      TableGrowth isAsync handle t delta init allocator
        ({ s with data := data, tables := s.tables.set handle t' }, .ok (some t.size))
  | refused (data : σ)
      (h : ¬((∃ d, (tableQuestion t delta).Approved isAsync s.limiter s.data d) ∧
        t.Fits delta allocator)) :
      TableGrowth isAsync handle t delta init allocator ({ s with data := data }, .ok none)
  | failed (e : ExecError) (data : σ)
      (h : ¬((∃ d, (tableQuestion t delta).Approved isAsync s.limiter s.data d) ∧
        t.Fits delta allocator))
      (error : (tableQuestion t delta).LimiterError isAsync s.limiter s.data e) :
      TableGrowth isAsync handle t delta init allocator ({ s with data := data }, .error e)

/-- What the guest gets: the old size in the index type, `-1` in the index type, or a trap. -/
inductive GuestGrowth (e : Execution) (is64 : Bool) :
    GrowStore σ × Except ExecError (Option ℕ) →
    Execution × GrowStore σ × Except ExecError Unit → Prop
  | grew (s' : GrowStore σ) (old : ℕ) (c : Cell) (index : c.index is64 = old) :
      GuestGrowth e is64 (s', .ok (some old)) (e.push (.scalar c), s', .ok ())
  | refused (s' : GrowStore σ) :
      GuestGrowth e is64 (s', .ok none)
        (e.push (.ofVal (if is64 then .i64 (-1) else .i32 (-1))), s', .ok ())
  | failed (s' : GrowStore σ) (err : ExecError) :
      GuestGrowth e is64 (s', .error err) (e, s', .error err)

variable {s}

variable {isAsync allocator : Bool} {delta handle : ℕ}

theorem memoryGrowth_settled {m : PagedMemory}
    {out : Option PagedMemory × σ × Except ExecError (Option ℕ)}
    (h : (memoryQuestion m delta).Attempted isAsync s.limiter s.data (m.Fits delta allocator)
      m.sizePages (m.Extends delta) out) :
    s.MemoryGrowth isAsync handle m delta allocator (s.settleMemory handle out) := by
  cases h with
  | grew m' data approved fits extended => exact .grew m' data extended approved fits
  | refused data h => exact .refused data h
  | failed e data h error => exact .failed e data h error

theorem tableGrowth_settled {t : TableEntity} {init : Ref}
    {out : Option TableEntity × σ × Except ExecError (Option ℕ)}
    (h : (tableQuestion t delta).Attempted isAsync s.limiter s.data (t.Fits delta allocator)
      t.size (t.Extends delta init) out) :
    s.TableGrowth isAsync handle t delta init allocator (s.settleTable handle out) := by
  cases h with
  | grew t' data approved fits extended => exact .grew t' data extended approved fits
  | refused data h => exact .refused data h
  | failed e data h error => exact .failed e data h error

/-- A size that fits the index type is pushed as it is. -/
theorem guestGrowth_pushed (e : Execution) (g : Growth) (is64 : Bool)
    (hg : g = .memory is64 ∨ g = .table is64) {out : GrowStore σ × Except ExecError (Option ℕ)}
    (hold : ∀ old, out.2 = .ok (some old) → old < if is64 then 2 ^ 64 else 2 ^ 32) :
    GuestGrowth e is64 out (guestAnswer e g out) := by
  obtain ⟨s', r⟩ := out
  match r with
  | .error err => exact .failed s' err
  | .ok none =>
    have hanswer : guestAnswer e g (s', .ok none) =
        (e.push (.ofVal (if is64 then .i64 (-1) else .i32 (-1))), s', .ok ()) := by
      rcases hg with rfl | rfl <;> rfl
    rw [hanswer]
    exact .refused s'
  | .ok (some old) =>
    have hlt := hold old rfl
    have hanswer : guestAnswer e g (s', .ok (some old)) =
        (e.push (.ofVal (if is64 then .i64 (BitVec.ofNat 64 old) else .i32 (BitVec.ofNat 32 old))),
          s', .ok ()) := by
      rcases hg with rfl | rfl <;> rfl
    rw [hanswer]
    cases is64 with
    | false =>
      refine .grew s' old ((BitVec.ofNat 32 old).setWidth 64) ?_
      unfold Cell.index Cell.unwrapI32
      simp only [Bool.false_eq_true, if_false] at hlt ⊢
      rw [BitVec.setWidth_setWidth_of_le _ (by decide), BitVec.setWidth_eq, BitVec.toNat_ofNat]
      exact Nat.mod_eq_of_lt hlt
    | true =>
      refine .grew s' old (BitVec.ofNat 64 old) ?_
      unfold Cell.index
      simp only [if_true] at hlt ⊢
      rw [BitVec.toNat_ofNat]
      exact Nat.mod_eq_of_lt hlt

theorem MemoryGrowth.old_lt {m : PagedMemory} {out : GrowStore σ × Except ExecError (Option ℕ)}
    (h : s.MemoryGrowth isAsync handle m delta allocator out) :
    ∀ old, out.2 = .ok (some old) → old < if m.ty.memory64 then 2 ^ 64 else 2 ^ 32 := by
  intro old hold
  cases h with
  | grew m' data extended approved fits =>
    obtain rfl := Option.some.inj (Except.ok.inj hold)
    have hle : m.sizePages ≤ m.ty.archMax :=
      Nat.le_trans (Nat.le_add_right _ _) (Nat.le_trans fits.1 m.ty.limit_le.1)
    exact hle.trans_lt m.ty.archMax_lt
  | refused data h => nomatch hold
  | failed e data h error => nomatch hold

theorem TableGrowth.old_lt {t : TableEntity} {init : Ref}
    {out : GrowStore σ × Except ExecError (Option ℕ)}
    (h : s.TableGrowth isAsync handle t delta init allocator out) :
    ∀ old, out.2 = .ok (some old) → old < if t.ty.table64 then 2 ^ 64 else 2 ^ 32 := by
  intro old hold
  cases h with
  | grew t' data extended approved fits =>
    obtain rfl := Option.some.inj (Except.ok.inj hold)
    have hle : t.size ≤ t.ty.archMax :=
      Nat.le_trans (Nat.le_add_right _ _) (Nat.le_trans fits.1 t.ty.limit_le.1)
    exact hle.trans_lt t.ty.archMax_lt
  | refused data h => nomatch hold
  | failed e data h error => nomatch hold

variable (s)

/-- The paths of `memory.grow`: each extends the memory or leaves it, and without an async limiter
they agree. -/
structure MemoryGrowExact (handle : ℕ) (m : PagedMemory) (delta : ℕ) (allocator : Bool) :
    Prop where
  sync : s.MemoryGrowth false handle m delta allocator (s.growMemory handle delta allocator)
  async : s.MemoryGrowth true handle m delta allocator (s.growMemoryAsync handle delta allocator)
  guest : ∀ e, GuestGrowth e m.ty.memory64 (s.growMemory handle delta allocator)
    (s.doGrow e handle delta allocator)
  guestAsync : ∀ e, GuestGrowth e m.ty.memory64 (s.growMemoryAsync handle delta allocator)
    (s.driveAsyncGrow e handle delta allocator)
  host : s.memoryGrow handle delta allocator =
    hostAnswer .memoryGrowFailed (s.growMemory handle delta allocator)
  agree : (∀ l, s.limiter ≠ some (.async l)) →
    s.growMemoryAsync handle delta allocator = s.growMemory handle delta allocator ∧
    ∀ e, s.driveAsyncGrow e handle delta allocator = s.doGrow e handle delta allocator

structure TableGrowExact (handle : ℕ) (t : TableEntity) (delta : ℕ) (init : Ref)
    (allocator : Bool) : Prop where
  sync : s.TableGrowth false handle t delta init allocator
    (s.growTable handle delta init allocator)
  async : s.TableGrowth true handle t delta init allocator
    (s.growTableAsync handle delta init allocator)
  guest : ∀ e, GuestGrowth e t.ty.table64 (s.growTable handle delta init allocator)
    (s.doGrowTable e handle delta init allocator)
  guestAsync : ∀ e, GuestGrowth e t.ty.table64 (s.growTableAsync handle delta init allocator)
    (s.driveAsyncTableGrow e handle delta init allocator)
  /-- The host's init value is checked first; a guest's is typed by validation. -/
  host : s.tableGrow handle delta init (.ok true) allocator =
    hostAnswer .tableGrowFailed (s.growTable handle delta init allocator)
  hostMismatch : ∀ matched, matched ≠ .ok true →
    ∃ e, s.tableGrow handle delta init matched allocator = (s, .error e)
  agree : (∀ l, s.limiter ≠ some (.async l)) →
    s.growTableAsync handle delta init allocator = s.growTable handle delta init allocator ∧
    ∀ e, s.driveAsyncTableGrow e handle delta init allocator =
      s.doGrowTable e handle delta init allocator

variable {s}

theorem growMemory_exact {m : PagedMemory} (hm : s.memories[handle]? = some m) (delta : ℕ)
    (allocator : Bool) : s.MemoryGrowExact handle m delta allocator := by
  have hsync : s.MemoryGrowth false handle m delta allocator
      (s.growMemory handle delta allocator) := by
    unfold growMemory
    rw [hm]
    exact memoryGrowth_settled (Question.attempted (m.grow_cases delta allocator))
  have hasync : s.MemoryGrowth true handle m delta allocator
      (s.growMemoryAsync handle delta allocator) := by
    unfold growMemoryAsync
    rw [hm]
    exact memoryGrowth_settled (Question.attempted (m.grow_cases delta allocator))
  have hguest : ∀ e, s.doGrow e handle delta allocator =
      guestAnswer e (.memory m.ty.memory64) (s.growMemory handle delta allocator) := by
    intro e
    unfold doGrow
    rw [hm]
  have hguestAsync : ∀ e, s.driveAsyncGrow e handle delta allocator =
      guestAnswer e (.memory m.ty.memory64) (s.growMemoryAsync handle delta allocator) := by
    intro e
    unfold driveAsyncGrow
    rw [hm]
  refine ⟨hsync, hasync, fun e => ?_, fun e => ?_, rfl, fun h => ?_⟩
  · rw [hguest]
    exact guestGrowth_pushed e _ _ (Or.inl rfl) hsync.old_lt
  · rw [hguestAsync]
    exact guestGrowth_pushed e _ _ (Or.inl rfl) hasync.old_lt
  · have heq : s.growMemoryAsync handle delta allocator = s.growMemory handle delta allocator := by
      unfold growMemoryAsync growMemory
      rw [hm]
      simp only
      rw [Question.allowedAsync_eq h]
    refine ⟨heq, fun e => ?_⟩
    rw [hguestAsync, hguest, heq]

theorem growTable_exact {t : TableEntity} (ht : s.tables[handle]? = some t) (delta : ℕ) (init : Ref)
    (allocator : Bool) : s.TableGrowExact handle t delta init allocator := by
  have hsync : s.TableGrowth false handle t delta init allocator
      (s.growTable handle delta init allocator) := by
    unfold growTable
    rw [ht]
    exact tableGrowth_settled (Question.attempted (t.grow_cases delta init allocator))
  have hasync : s.TableGrowth true handle t delta init allocator
      (s.growTableAsync handle delta init allocator) := by
    unfold growTableAsync
    rw [ht]
    exact tableGrowth_settled (Question.attempted (t.grow_cases delta init allocator))
  have hguest : ∀ e, s.doGrowTable e handle delta init allocator =
      guestAnswer e (.table t.ty.table64) (s.growTable handle delta init allocator) := by
    intro e
    unfold doGrowTable
    rw [ht]
  have hguestAsync : ∀ e, s.driveAsyncTableGrow e handle delta init allocator =
      guestAnswer e (.table t.ty.table64) (s.growTableAsync handle delta init allocator) := by
    intro e
    unfold driveAsyncTableGrow
    rw [ht]
  refine ⟨hsync, hasync, fun e => ?_, fun e => ?_, rfl, fun matched hmatched => ?_, fun h => ?_⟩
  · rw [hguest]
    exact guestGrowth_pushed e _ _ (Or.inr rfl) hsync.old_lt
  · rw [hguestAsync]
    exact guestGrowth_pushed e _ _ (Or.inr rfl) hasync.old_lt
  · match matched with
    | .error e => exact ⟨e, rfl⟩
    | .ok false => exact ⟨_, rfl⟩
    | .ok true => exact absurd rfl hmatched
  · have heq : s.growTableAsync handle delta init allocator =
        s.growTable handle delta init allocator := by
      unfold growTableAsync growTable
      rw [ht]
      simp only
      rw [Question.allowedAsync_eq h]
    refine ⟨heq, fun e => ?_⟩
    rw [hguestAsync, hguest, heq]

end GrowStore

/-- Growth is exact on every path: the old contents and the fill within every bound and what the
limiter approved, or a failure that leaves the entity as it was. -/
theorem growth_exact {σ : Type} (s : GrowStore σ) (handle delta : ℕ) (allocator : Bool) :
    (∀ m, s.memories[handle]? = some m → s.MemoryGrowExact handle m delta allocator) ∧
    ∀ t init, s.tables[handle]? = some t → s.TableGrowExact handle t delta init allocator :=
  ⟨fun _ hm => GrowStore.growMemory_exact hm delta allocator,
    fun _ init ht => GrowStore.growTable_exact ht delta init allocator⟩

/-- A limiter that approves requests up to what the host's data says and traps on a failure. -/
def quotaLimiter : ResourceLimiter ℕ where
  memoryGrowing request quota := (.ok (request.desired ≤ quota), quota)
  tableGrowing request quota := (.ok (request.desired ≤ quota), quota)
  memoryGrowFailed e quota := (.error e, quota)
  tableGrowFailed e quota := (.error e, quota)

/-- An empty memory and a 64-bit table of one element under a quota. -/
def quotaStore : GrowStore ℕ :=
  ⟨2 ^ 16, some (.sync quotaLimiter), [⟨⟨[], ⟨0, some 1, false⟩⟩, rfl⟩],
    [⟨[.func none], ⟨1, none, true⟩⟩]⟩

theorem growth_exact_quota :
    quotaStore.MemoryGrowExact 0 ⟨⟨[], ⟨0, some 1, false⟩⟩, rfl⟩ 1 true ∧
      quotaStore.TableGrowExact 0 ⟨[.func none], ⟨1, none, true⟩⟩ 1 (.func none) true :=
  ⟨(growth_exact quotaStore 0 1 true).1 _ rfl, (growth_exact quotaStore 0 1 true).2 _ _ rfl⟩

end SubmilliWasm
