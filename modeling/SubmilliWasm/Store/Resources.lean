/-
# Memories and tables

Creation and growth of linear memories and tables (`src/store/entity.rs`, `src/store/grow.rs`,
`src/extern_.rs`, `src/instance/mod.rs`): the limiter or the default ceiling is asked for every
size, growth also checks the declared and the architectural maximum, creation only allocates.

An entity is kept with the authority its current size was given by, which the source does not
keep.
-/
import SubmilliWasm.Exec.Reserve

namespace SubmilliWasm

open Store (Limiter)

/-! ## Types and entities -/

structure MemoryType where
  minimum : ℕ
  maximum : Option ℕ
  memory64 : Bool
  deriving DecidableEq, Repr

/-- The limits of a table type; its element type is checked elsewhere. -/
structure TableType where
  minimum : ℕ
  maximum : Option ℕ
  table64 : Bool
  deriving DecidableEq, Repr

def pageSize : ℕ := 64 * 1024

def u64Max : ℕ := 2 ^ 64 - 1

/-- The architectural maximum of a memory, in pages. -/
def MemoryType.archMax (ty : MemoryType) : ℕ := if ty.memory64 then 2 ^ 48 else 2 ^ 16

/-- The architectural maximum of a table, in elements. -/
def TableType.archMax (ty : TableType) : ℕ := if ty.table64 then u64Max else 2 ^ 32 - 1

/-- The lesser of the declared and the architectural maximum. -/
def MemoryType.limit (ty : MemoryType) : ℕ := min (ty.maximum.getD ty.archMax) ty.archMax

def TableType.limit (ty : TableType) : ℕ := min (ty.maximum.getD ty.archMax) ty.archMax

structure MemoryEntity where
  bytes : List UInt8
  ty : MemoryType

structure TableEntity where
  elems : List Ref
  ty : TableType

def MemoryEntity.sizePages (m : MemoryEntity) : ℕ := m.bytes.length / pageSize

def TableEntity.size (t : TableEntity) : ℕ := t.elems.length

/-- `try_reserve_exact`: whether a vector of `bytes` bytes can be had; the allocator's word is
final up to `isize::MAX`. -/
def tryReserve (allocator : Bool) (bytes : ℕ) : Bool := allocator && bytes ≤ isizeMax

/-- `size_of::<Ref>()`; nothing below depends on the figure. -/
def refSize : ℕ := 24

/-- Allocates the initial backing store of a memory. -/
def MemoryEntity.new (ty : MemoryType) (allocator : Bool) : Option MemoryEntity :=
  match checkedMul ty.minimum pageSize with
  | none => none
  | some len =>
    if tryReserve allocator len then some ⟨List.replicate len 0, ty⟩ else none

/-- Allocates the initial backing store of a table. -/
def TableEntity.new (ty : TableType) (init : Ref) (allocator : Bool) : Option TableEntity :=
  if tryReserve allocator (ty.minimum * refSize) then
    some ⟨List.replicate ty.minimum init, ty⟩
  else none

/-- Grows by `delta` pages; `none` past the declared or the architectural maximum, or when the
bytes cannot be had.  Otherwise also the old size. -/
def MemoryEntity.grow (m : MemoryEntity) (delta : ℕ) (allocator : Bool) :
    Option (ℕ × MemoryEntity) :=
  let old := m.sizePages
  if old + delta ≤ u64Max then
    let new := old + delta
    if new > m.ty.limit then none
    else
      match checkedMul new pageSize with
      | none => none
      | some newBytes =>
        if tryReserve allocator newBytes then
          some (old, { m with bytes := m.bytes ++ List.replicate (newBytes - m.bytes.length) 0 })
        else none
  else none

/-- Grows by `delta` elements, filled with `init`. -/
def TableEntity.grow (t : TableEntity) (delta : ℕ) (init : Ref) (allocator : Bool) :
    Option (ℕ × TableEntity) :=
  let old := t.size
  if old + delta ≤ u64Max then
    let new := old + delta
    if new > t.ty.limit then none
    else if tryReserve allocator (new * refSize) then
      some (old, { t with elems := t.elems ++ List.replicate (new - t.elems.length) init })
    else none
  else none

/-! ## Asking the limiter -/

/-- `u64` counts as `usize`. -/
def hostCount (count : ℕ) : ℕ := min count usizeMax

def bytesOfPages (pages : ℕ) : ℕ := saturatingMul (hostCount pages) pageSize

def defaultMemoryCeilingBytes : ℕ := 2 ^ 32

def defaultTableCeilingElems : ℕ := 2 ^ 32 - 1

/-- A request to the limiter, in bytes for a memory and in elements for a table. -/
structure Request where
  current : ℕ
  desired : ℕ
  maximum : Option ℕ
  deriving DecidableEq, Repr

/-- What a size was allowed by: the limiter, asked for it, or the default ceiling of a store
without one. -/
inductive Authority where
  | limiter (request : Request)
  | ceiling
  deriving DecidableEq, Repr

/-- Puts a request: who allows it, `none` if it is denied. -/
def authorize (limiter : Limiter) (isAsync : Bool) (request : Request) (ceiling : ℕ) :
    Except StoreError (Option Authority) :=
  match if isAsync then limiter.askAsync else limiter.ask with
  | .error e => .error e
  | .ok none => .ok (if request.desired ≤ ceiling then some .ceiling else none)
  | .ok (some approved) => .ok (if approved then some (.limiter request) else none)

/-- `limiter_allows_memory` and its async sibling. -/
def limiterAllowsMemory (limiter : Limiter) (isAsync : Bool) (ty : MemoryType) :
    Except StoreError (Option Authority) :=
  authorize limiter isAsync ⟨0, bytesOfPages ty.minimum, ty.maximum.map bytesOfPages⟩
    defaultMemoryCeilingBytes

/-- `limiter_allows_table` and its async sibling. -/
def limiterAllowsTable (limiter : Limiter) (isAsync : Bool) (ty : TableType) :
    Except StoreError (Option Authority) :=
  authorize limiter isAsync ⟨0, hostCount ty.minimum, ty.maximum.map hostCount⟩
    defaultTableCeilingElems

/-! ## The store's memories and tables -/

structure Resources where
  memories : List (MemoryEntity × Authority)
  tables : List (TableEntity × Authority)

namespace Resources

def empty : Resources := ⟨[], []⟩

/-- `Memory::new` and `Memory::new_async`. -/
def memoryNew (r : Resources) (ty : MemoryType) (isAsync : Bool) (limiter : Limiter)
    (allocator : Bool) : Resources :=
  match limiterAllowsMemory limiter isAsync ty with
  | .ok (some authority) =>
    match MemoryEntity.new ty allocator with
    | some m => { r with memories := r.memories ++ [(m, authority)] }
    | none => r
  | _ => r

/-- `Table::new` and `Table::new_async`, after the checks on the element type. -/
def tableNew (r : Resources) (ty : TableType) (init : Ref) (isAsync : Bool) (limiter : Limiter)
    (allocator : Bool) : Resources :=
  match limiterAllowsTable limiter isAsync ty with
  | .ok (some authority) =>
    match TableEntity.new ty init allocator with
    | some t => { r with tables := r.tables ++ [(t, authority)] }
    | none => r
  | _ => r

/-- `grow_memory` and its async sibling, for the host and for `memory.grow`; a failure is
reported to the limiter and changes nothing. -/
def growMemory (r : Resources) (handle delta : ℕ) (isAsync : Bool) (limiter : Limiter)
    (allocator : Bool) : Resources :=
  match r.memories[handle]? with
  | none => r
  | some (m, _) =>
    let desired := min (m.sizePages + delta) u64Max
    let request := ⟨bytesOfPages m.sizePages, bytesOfPages desired, m.ty.maximum.map bytesOfPages⟩
    match authorize limiter isAsync request defaultMemoryCeilingBytes with
    | .ok (some authority) =>
      match m.grow delta allocator with
      | some (_, m') => { r with memories := r.memories.set handle (m', authority) }
      | none => r
    | _ => r

/-- `grow_table` and its async sibling. -/
def growTable (r : Resources) (handle delta : ℕ) (init : Ref) (isAsync : Bool)
    (limiter : Limiter) (allocator : Bool) : Resources :=
  match r.tables[handle]? with
  | none => r
  | some (t, _) =>
    let desired := saturatingAdd t.size (hostCount delta)
    match authorize limiter isAsync ⟨t.size, desired, t.ty.maximum.map hostCount⟩
      defaultTableCeilingElems with
    | .ok (some authority) =>
      match t.grow delta init allocator with
      | some (_, t') => { r with tables := r.tables.set handle (t', authority) }
      | none => r
    | _ => r

/-! ## Instantiation -/

/-- The limits of a module's own memories and tables, as validation leaves them. -/
structure ModuleLimits where
  memories : List MemoryType
  tables : List TableType
  memories_valid : ∀ ty ∈ memories, ty.minimum ≤ ty.limit
  tables_valid : ∀ ty ∈ tables, ty.minimum ≤ ty.limit

/-- `check_initial_sizes`: asks for the initial size of every memory, then of every table; the
limiter's `k`-th answer is for the `k`-th request. -/
def authorizeAll {α : Type} (allows : α → Limiter → Except StoreError (Option Authority))
    (answers : ℕ → Limiter) : ℕ → List α → Except StoreError (Option (List (α × Authority)))
  | _, [] => .ok (some [])
  | k, ty :: tys =>
    match allows ty (answers k) with
    | .error e => .error e
    | .ok none => .ok none
    | .ok (some authority) =>
      match authorizeAll allows answers (k + 1) tys with
      | .ok (some rest) => .ok (some ((ty, authority) :: rest))
      | r => r

/-- Allocates the memories of a module in order, up to one that cannot be had; whether all
could. -/
def allocMemories (r : Resources) (allocator : ℕ → Bool) : ℕ → List (MemoryType × Authority) →
    Resources × Bool
  | _, [] => (r, true)
  | k, (ty, authority) :: rest =>
    match MemoryEntity.new ty (allocator k) with
    | some m => allocMemories { r with memories := r.memories ++ [(m, authority)] } allocator
        (k + 1) rest
    | none => (r, false)

/-- Allocates the tables of a module in order, up to one whose initializer fails or that cannot
be had. -/
def allocTables (r : Resources) (inits : ℕ → Option Ref) (allocator : ℕ → Bool) :
    ℕ → List (TableType × Authority) → Resources
  | _, [] => r
  | k, (ty, authority) :: rest =>
    match inits k with
    | none => r
    | some init =>
      match TableEntity.new ty init (allocator k) with
      | some t => allocTables { r with tables := r.tables ++ [(t, authority)] } inits allocator
          (k + 1) rest
      | none => r

/-- What decides how far an instantiation gets: the entity counts and the imports are accepted or
not, the allocator's answers, and the tables' initializers. -/
structure Instantiation where
  linked : Bool
  memoryAllocator : ℕ → Bool
  inits : ℕ → Option Ref
  tableAllocator : ℕ → Bool

/-- An instantiation as far as it concerns memories and tables; what it has allocated stays when
it fails later. -/
def instantiate (r : Resources) (m : ModuleLimits) (isAsync : Bool) (answers : ℕ → Limiter)
    (i : Instantiation) : Resources :=
  match authorizeAll (fun ty l => limiterAllowsMemory l isAsync ty) answers 0 m.memories with
  | .ok (some memories) =>
    match authorizeAll (fun ty l => limiterAllowsTable l isAsync ty) answers m.memories.length
      m.tables with
    | .ok (some tables) =>
      if i.linked then
        match r.allocMemories i.memoryAllocator 0 memories with
        | (r, true) => r.allocTables i.inits i.tableAllocator 0 tables
        | (r, false) => r
      else r
    | _ => r
  | _ => r

/-! ## Runs -/

inductive ResourceOp where
  | memoryNew (ty : MemoryType) (isAsync : Bool) (limiter : Limiter) (allocator : Bool)
  | tableNew (ty : TableType) (init : Ref) (isAsync : Bool) (limiter : Limiter)
      (allocator : Bool)
  | growMemory (handle delta : ℕ) (isAsync : Bool) (limiter : Limiter) (allocator : Bool)
  | growTable (handle delta : ℕ) (init : Ref) (isAsync : Bool) (limiter : Limiter)
      (allocator : Bool)
  | instantiate (m : ModuleLimits) (isAsync : Bool) (answers : ℕ → Limiter) (i : Instantiation)

def run (r : Resources) : ResourceOp → Resources
  | .memoryNew ty isAsync limiter allocator => r.memoryNew ty isAsync limiter allocator
  | .tableNew ty init isAsync limiter allocator => r.tableNew ty init isAsync limiter allocator
  | .growMemory handle delta isAsync limiter allocator =>
    r.growMemory handle delta isAsync limiter allocator
  | .growTable handle delta init isAsync limiter allocator =>
    r.growTable handle delta init isAsync limiter allocator
  | .instantiate m isAsync answers i => r.instantiate m isAsync answers i

def runAll (ops : List ResourceOp) : Resources := ops.foldl run empty

/-! ## Containment -/

/-- The size of a memory is within its declared and architectural limits, and it is the very size
the limiter approved, or one under the default ceiling. -/
structure MemoryContained (p : MemoryEntity × Authority) : Prop where
  pages : p.1.bytes.length = p.1.sizePages * pageSize
  minimum : p.1.ty.minimum ≤ p.1.sizePages
  limit : p.1.sizePages ≤ p.1.ty.limit
  limiter : ∀ request, p.2 = .limiter request → p.1.bytes.length = request.desired
  ceiling : p.2 = .ceiling → p.1.bytes.length ≤ defaultMemoryCeilingBytes

structure TableContained (p : TableEntity × Authority) : Prop where
  minimum : p.1.ty.minimum ≤ p.1.size
  limit : p.1.size ≤ p.1.ty.limit
  limiter : ∀ request, p.2 = .limiter request → p.1.size = request.desired
  ceiling : p.2 = .ceiling → p.1.size ≤ defaultTableCeilingElems

structure Contained (r : Resources) : Prop where
  memories : ∀ p ∈ r.memories, MemoryContained p
  tables : ∀ p ∈ r.tables, TableContained p

variable {authority : Authority} {isAsync allocator : Bool} {limiter : Limiter} {m : MemoryEntity}
  {r : Resources}

/-- The authority a request was granted by names the request, or bounds it by the ceiling. -/
theorem authorize_ok {request : Request} {ceiling : ℕ}
    (h : authorize limiter isAsync request ceiling = .ok (some authority)) :
    (∀ request', authority = .limiter request' → request.desired = request'.desired) ∧
    (authority = .ceiling → request.desired ≤ ceiling) := by
  unfold authorize at h
  split at h
  · nomatch h
  · split at h
    · rename_i hle
      obtain rfl := Option.some.inj (Except.ok.inj h)
      exact ⟨fun _ he => (nomatch he), fun _ => hle⟩
    · nomatch Except.ok.inj h
  · split at h
    · obtain rfl := Option.some.inj (Except.ok.inj h)
      exact ⟨fun _ he => by rw [Authority.limiter.inj he], nofun⟩
    · nomatch Except.ok.inj h

theorem checkedMul_some {a b n : ℕ} (h : checkedMul a b = some n) :
    n = a * b ∧ a * b ≤ usizeMax := by
  unfold checkedMul at h
  split at h
  · rename_i hle
    exact ⟨(Option.some.inj h).symm, hle⟩
  · nomatch h

/-- A page count whose bytes are addressable is asked for in exactly these bytes. -/
theorem bytesOfPages_eq {pages : ℕ} (h : pages * pageSize ≤ usizeMax) :
    bytesOfPages pages = pages * pageSize := by
  unfold bytesOfPages hostCount saturatingMul
  have hpages : pages ≤ usizeMax := by
    unfold pageSize at h
    omega
  rw [min_eq_left hpages, min_eq_left h]

variable {ty : MemoryType} {init : Ref} {t : TableEntity}

/-- A new memory has its declared minimum; nothing else has been checked. -/
theorem memoryNew_spec (h : MemoryEntity.new ty allocator = some m) :
    m.ty = ty ∧ m.sizePages = ty.minimum ∧ m.bytes.length = ty.minimum * pageSize ∧
    bytesOfPages ty.minimum = ty.minimum * pageSize := by
  unfold MemoryEntity.new at h
  split at h
  · nomatch h
  · rename_i len hlen
    obtain ⟨rfl, hle⟩ := checkedMul_some hlen
    split at h
    · obtain rfl := Option.some.inj h
      refine ⟨rfl, ?_, List.length_replicate, bytesOfPages_eq hle⟩
      rw [MemoryEntity.sizePages, List.length_replicate]
      exact Nat.mul_div_cancel _ (by decide)
    · nomatch h

theorem tableNew_spec {ty : TableType} (h : TableEntity.new ty init allocator = some t) :
    t.ty = ty ∧ t.size = ty.minimum ∧ hostCount ty.minimum = ty.minimum := by
  unfold TableEntity.new at h
  split at h
  · rename_i hr
    obtain rfl := Option.some.inj h
    refine ⟨rfl, List.length_replicate, min_eq_left ?_⟩
    unfold tryReserve refSize isizeMax at hr
    unfold usizeMax
    simp at hr
    omega
  · nomatch h

theorem memoryNew_contained (ha : limiterAllowsMemory limiter isAsync ty = .ok (some authority))
    (h : MemoryEntity.new ty allocator = some m) (hvalid : ty.minimum ≤ ty.limit) :
    MemoryContained (m, authority) := by
  obtain ⟨hty, hpages, hlen, hbytes⟩ := memoryNew_spec h
  obtain ⟨hlimiter, hceiling⟩ := authorize_ok ha
  simp only [hbytes] at hlimiter hceiling
  refine ⟨by rw [hlen, hpages], ?_, ?_, fun request hr => ?_, fun hc => ?_⟩
  · rw [hty, hpages]
  · rw [hty, hpages]
    exact hvalid
  · rw [hlen]
    exact hlimiter request hr
  · rw [hlen]
    exact hceiling hc

theorem tableNew_contained {ty : TableType}
    (ha : limiterAllowsTable limiter isAsync ty = .ok (some authority))
    (h : TableEntity.new ty init allocator = some t) (hvalid : ty.minimum ≤ ty.limit) :
    TableContained (t, authority) := by
  obtain ⟨hty, hsize, hcount⟩ := tableNew_spec h
  obtain ⟨hlimiter, hceiling⟩ := authorize_ok ha
  simp only [hcount] at hlimiter hceiling
  refine ⟨?_, ?_, fun request hr => ?_, fun hc => ?_⟩
  · rw [hty, hsize]
  · rw [hty, hsize]
    exact hvalid
  · rw [hsize]
    exact hlimiter request hr
  · rw [hsize]
    exact hceiling hc

/-- A growth that succeeds was checked against both maxima, and its bytes are addressable. -/
theorem growMemory_spec {m' : MemoryEntity} {delta old : ℕ}
    (hm : m.bytes.length = m.sizePages * pageSize) (h : m.grow delta allocator = some (old, m')) :
    m'.ty = m.ty ∧ m'.sizePages = m.sizePages + delta ∧
    m'.bytes.length = (m.sizePages + delta) * pageSize ∧ m.sizePages + delta ≤ m.ty.limit ∧
    m.sizePages + delta ≤ u64Max ∧
    bytesOfPages (m.sizePages + delta) = (m.sizePages + delta) * pageSize := by
  unfold MemoryEntity.grow at h
  simp only at h
  split at h
  · rename_i hu64
    split at h
    · nomatch h
    · rename_i hlimit
      split at h
      · nomatch h
      · rename_i newBytes hmul
        obtain ⟨rfl, hle⟩ := checkedMul_some hmul
        split at h
        · obtain ⟨-, rfl⟩ := Prod.mk.inj (Option.some.inj h)
          have hlen : (m.bytes ++ List.replicate ((m.sizePages + delta) * pageSize -
              m.bytes.length) 0).length = (m.sizePages + delta) * pageSize := by
            rw [List.length_append, List.length_replicate, hm]
            have := Nat.mul_le_mul_right pageSize (Nat.le_add_right m.sizePages delta)
            omega
          refine ⟨rfl, ?_, hlen, by omega, hu64, bytesOfPages_eq hle⟩
          rw [MemoryEntity.sizePages]
          simp only
          rw [hlen]
          exact Nat.mul_div_cancel _ (by decide)
        · nomatch h
  · nomatch h

theorem growTable_spec {t' : TableEntity} {delta old : ℕ}
    (h : t.grow delta init allocator = some (old, t')) :
    t'.ty = t.ty ∧ t'.size = t.size + delta ∧ t.size + delta ≤ t.ty.limit ∧
    t.size + delta ≤ u64Max := by
  unfold TableEntity.grow at h
  simp only at h
  split at h
  · rename_i hu64
    split at h
    · nomatch h
    · rename_i hlimit
      split at h
      · obtain ⟨-, rfl⟩ := Prod.mk.inj (Option.some.inj h)
        refine ⟨rfl, ?_, by omega, hu64⟩
        simp only [TableEntity.size, List.length_append, List.length_replicate]
        omega
      · nomatch h
  · nomatch h

/-! ## Every operation keeps what is contained -/

theorem Contained.addMemory (hr : Contained r) {p : MemoryEntity × Authority}
    (hp : MemoryContained p) : Contained { r with memories := r.memories ++ [p] } := by
  refine ⟨fun q hq => ?_, hr.tables⟩
  rcases List.mem_append.mp hq with hq | hq
  · exact hr.memories q hq
  · exact List.mem_singleton.mp hq ▸ hp

theorem Contained.addTable (hr : Contained r) {p : TableEntity × Authority}
    (hp : TableContained p) : Contained { r with tables := r.tables ++ [p] } := by
  refine ⟨hr.memories, fun q hq => ?_⟩
  rcases List.mem_append.mp hq with hq | hq
  · exact hr.tables q hq
  · exact List.mem_singleton.mp hq ▸ hp

theorem contained_memoryNew (hr : Contained r) (hvalid : ty.minimum ≤ ty.limit) (isAsync : Bool)
    (limiter : Limiter) (allocator : Bool) :
    Contained (r.memoryNew ty isAsync limiter allocator) := by
  unfold memoryNew
  split
  · rename_i authority ha
    split
    · rename_i m hm
      exact hr.addMemory (memoryNew_contained ha hm hvalid)
    · exact hr
  · exact hr

theorem contained_tableNew (hr : Contained r) {ty : TableType} (hvalid : ty.minimum ≤ ty.limit)
    (init : Ref) (isAsync : Bool) (limiter : Limiter) (allocator : Bool) :
    Contained (r.tableNew ty init isAsync limiter allocator) := by
  unfold tableNew
  split
  · rename_i authority ha
    split
    · rename_i t ht
      exact hr.addTable (tableNew_contained ha ht hvalid)
    · exact hr
  · exact hr

theorem contained_growMemory (hr : Contained r) (handle delta : ℕ) (isAsync : Bool)
    (limiter : Limiter) (allocator : Bool) :
    Contained (r.growMemory handle delta isAsync limiter allocator) := by
  unfold growMemory
  split
  · exact hr
  · rename_i m old hget
    have hm := hr.memories _ (List.mem_of_getElem? hget)
    simp only
    split
    · rename_i authority ha
      split
      · rename_i pages m' hgrow
        obtain ⟨hty, hpages, hlen, hlimit, hu64, hbytes⟩ := growMemory_spec hm.pages hgrow
        obtain ⟨hlimiter, hceiling⟩ := authorize_ok ha
        rw [min_eq_left hu64, hbytes] at hlimiter hceiling
        refine ⟨fun q hq => ?_, hr.tables⟩
        rcases List.mem_or_eq_of_mem_set hq with hq | rfl
        · exact hr.memories q hq
        · refine ⟨by rw [hlen, hpages], ?_, ?_, fun request h => ?_, fun h => ?_⟩
          · rw [hty, hpages]
            exact hm.minimum.trans (Nat.le_add_right _ _)
          · rw [hty, hpages]
            exact hlimit
          · rw [hlen]
            exact hlimiter request h
          · rw [hlen]
            exact hceiling h
      · exact hr
    · exact hr

theorem contained_growTable (hr : Contained r) (handle delta : ℕ) (init : Ref) (isAsync : Bool)
    (limiter : Limiter) (allocator : Bool) :
    Contained (r.growTable handle delta init isAsync limiter allocator) := by
  unfold growTable
  split
  · exact hr
  · rename_i t old hget
    have ht := hr.tables _ (List.mem_of_getElem? hget)
    simp only
    split
    · rename_i authority ha
      split
      · rename_i size t' hgrow
        obtain ⟨hty, hsize, hlimit, hu64⟩ := growTable_spec hgrow
        obtain ⟨hlimiter, hceiling⟩ := authorize_ok ha
        have hdesired : saturatingAdd t.size (hostCount delta) = t.size + delta := by
          unfold hostCount saturatingAdd usizeMax
          unfold u64Max at hu64
          omega
        simp only [hdesired] at hlimiter hceiling
        refine ⟨hr.memories, fun q hq => ?_⟩
        rcases List.mem_or_eq_of_mem_set hq with hq | rfl
        · exact hr.tables q hq
        · refine ⟨?_, ?_, fun request h => ?_, fun h => ?_⟩
          · rw [hty, hsize]
            exact ht.minimum.trans (Nat.le_add_right _ _)
          · rw [hty, hsize]
            exact hlimit
          · rw [hsize]
            exact hlimiter request h
          · rw [hsize]
            exact hceiling h
      · exact hr
    · exact hr

/-- The initial sizes of a module, each with the authority that allowed it. -/
theorem authorizeAll_ok {α : Type} {allows : α → Limiter → Except StoreError (Option Authority)}
    {answers : ℕ → Limiter} {k : ℕ} {tys : List α} {out : List (α × Authority)}
    (h : authorizeAll allows answers k tys = .ok (some out)) :
    ∀ p ∈ out, p.1 ∈ tys ∧ ∃ limiter, allows p.1 limiter = .ok (some p.2) := by
  induction tys generalizing k out with
  | nil =>
    obtain rfl := Option.some.inj (Except.ok.inj h)
    exact fun p hp => (nomatch hp)
  | cons ty tys ih =>
    simp only [authorizeAll] at h
    split at h
    · nomatch h
    · nomatch Except.ok.inj h
    · rename_i authority ha
      split at h
      · rename_i rest hrest
        obtain rfl := Option.some.inj (Except.ok.inj h)
        intro p hp
        rcases List.mem_cons.mp hp with rfl | hp
        · exact ⟨List.mem_cons_self, answers k, ha⟩
        · obtain ⟨hmem, hl⟩ := ih hrest p hp
          exact ⟨List.mem_cons_of_mem _ hmem, hl⟩
      · rename_i hne
        exact absurd h (hne out)

theorem contained_allocMemories {a : Bool} {tys : List (MemoryType × Authority)}
    (hvalid : ∀ p ∈ tys, p.1.minimum ≤ p.1.limit ∧
      ∃ limiter, limiterAllowsMemory limiter a p.1 = .ok (some p.2)) (allocator : ℕ → Bool) (k : ℕ)
    (hr : Contained r) : Contained (r.allocMemories allocator k tys).1 := by
  induction tys generalizing k r with
  | nil => exact hr
  | cons p tys ih =>
    obtain ⟨ty, authority⟩ := p
    obtain ⟨hle, limiter, ha⟩ := hvalid _ List.mem_cons_self
    simp only [allocMemories]
    split
    · rename_i m hm
      exact ih (fun p hp => hvalid p (List.mem_cons_of_mem _ hp)) (k + 1)
        (hr.addMemory (memoryNew_contained ha hm hle))
    · exact hr

theorem contained_allocTables {a : Bool} {tys : List (TableType × Authority)}
    (hvalid : ∀ p ∈ tys, p.1.minimum ≤ p.1.limit ∧
      ∃ limiter, limiterAllowsTable limiter a p.1 = .ok (some p.2)) (inits : ℕ → Option Ref)
    (allocator : ℕ → Bool) (k : ℕ) (hr : Contained r) :
    Contained (r.allocTables inits allocator k tys) := by
  induction tys generalizing k r with
  | nil => exact hr
  | cons p tys ih =>
    obtain ⟨ty, authority⟩ := p
    obtain ⟨hle, limiter, ha⟩ := hvalid _ List.mem_cons_self
    simp only [allocTables]
    split
    · exact hr
    · split
      · rename_i t ht
        exact ih (fun p hp => hvalid p (List.mem_cons_of_mem _ hp)) (k + 1)
          (hr.addTable (tableNew_contained ha ht hle))
      · exact hr

/-- An instantiation, however far it gets, adds only what it has asked for. -/
theorem contained_instantiate (hr : Contained r) (m : ModuleLimits) (isAsync : Bool)
    (answers : ℕ → Limiter) (i : Instantiation) :
    Contained (r.instantiate m isAsync answers i) := by
  unfold instantiate
  split
  · rename_i memories hmem
    split
    · rename_i tables htab
      split
      · have hmemories := contained_allocMemories (a := isAsync)
          (fun p hp => ⟨m.memories_valid p.1 (authorizeAll_ok hmem p hp).1,
            (authorizeAll_ok hmem p hp).2⟩) i.memoryAllocator 0 hr
        split
        · rename_i r' hr'
          rw [hr'] at hmemories
          exact contained_allocTables (a := isAsync)
            (fun p hp => ⟨m.tables_valid p.1 (authorizeAll_ok htab p hp).1,
              (authorizeAll_ok htab p hp).2⟩) i.inits i.tableAllocator 0 hmemories
        · rename_i r' hr'
          rw [hr'] at hmemories
          exact hmemories
      · exact hr
    · exact hr
  · exact hr

/-- A type the host creates an entity from has a minimum within both maxima.  Modules are
validated; host types are not. -/
def ResourceOp.HostTypeValid : ResourceOp → Prop
  | .memoryNew ty _ _ _ => ty.minimum ≤ ty.limit
  | .tableNew ty _ _ _ _ => ty.minimum ≤ ty.limit
  | _ => True

theorem contained_run (hr : Contained r) {op : ResourceOp} (hop : op.HostTypeValid) :
    Contained (r.run op) := by
  cases op with
  | memoryNew ty isAsync limiter allocator =>
    exact contained_memoryNew hr hop isAsync limiter allocator
  | tableNew ty init isAsync limiter allocator =>
    exact contained_tableNew hr hop init isAsync limiter allocator
  | growMemory handle delta isAsync limiter allocator =>
    exact contained_growMemory hr handle delta isAsync limiter allocator
  | growTable handle delta init isAsync limiter allocator =>
    exact contained_growTable hr handle delta init isAsync limiter allocator
  | instantiate m isAsync answers i => exact contained_instantiate hr m isAsync answers i

/-- **Containment.**  In every run in which the host creates memories and tables only from types
whose minimum is within their maxima, every state reached is contained. -/
theorem contained_runAll {ops : List ResourceOp} (hops : ∀ op ∈ ops, op.HostTypeValid) :
    Contained (runAll ops) := by
  have hgen : ∀ (ops : List ResourceOp) (r : Resources), Contained r →
      (∀ op ∈ ops, op.HostTypeValid) → Contained (ops.foldl run r) := by
    intro ops
    induction ops with
    | nil => exact fun r hr _ => hr
    | cons op ops ih =>
      intro r hr hops
      exact ih _ (contained_run hr (hops op List.mem_cons_self))
        fun op' hop => hops op' (List.mem_cons_of_mem _ hop)
  exact hgen ops empty ⟨fun p hp => (nomatch hp), fun p hp => (nomatch hp)⟩ hops

/-- A memory created with one page and grown by another, up to its declared maximum. -/
theorem contained_runAll_grown :
    Contained (runAll [.memoryNew ⟨1, some 2, false⟩ false .none true,
      .growMemory 0 1 false .none true]) := by
  refine contained_runAll fun op hop => ?_
  rcases List.mem_cons.mp hop with rfl | hop
  · show 1 ≤ min (Option.getD (some 2) _) _
    decide
  · rw [List.mem_singleton.mp hop]
    exact trivial

/-- A host-created memory whose minimum of two pages exceeds its declared maximum of one. -/
theorem not_contained_memoryNew :
    ¬ Contained (runAll [.memoryNew ⟨2, some 1, false⟩ false .none true]) := by
  intro h
  obtain ⟨m, hm⟩ : ∃ m, MemoryEntity.new ⟨2, some 1, false⟩ true = some m := by
    have hlen : checkedMul 2 pageSize = some (2 * pageSize) := if_pos (by decide)
    have hreserve : tryReserve true (2 * pageSize) = true := by decide
    refine ⟨⟨List.replicate (2 * pageSize) 0, ⟨2, some 1, false⟩⟩, ?_⟩
    simp only [MemoryEntity.new, hlen, hreserve, if_true]
  have hallowed : limiterAllowsMemory .none false ⟨2, some 1, false⟩ = .ok (some .ceiling) := by
    have hle : bytesOfPages 2 ≤ defaultMemoryCeilingBytes := by decide
    simp only [limiterAllowsMemory, authorize, Limiter.ask, if_pos hle, if_neg Bool.false_ne_true]
  have hnew : runAll [.memoryNew ⟨2, some 1, false⟩ false .none true] = ⟨[(m, .ceiling)], []⟩ := by
    simp only [runAll, List.foldl_cons, List.foldl_nil, run, memoryNew, hallowed, hm, empty,
      List.nil_append]
  rw [hnew] at h
  obtain ⟨hty, hpages, -⟩ := memoryNew_spec hm
  have hlimit := (h.memories _ List.mem_cons_self).limit
  rw [hpages, hty] at hlimit
  exact absurd hlimit (by decide)

end Resources

end SubmilliWasm
