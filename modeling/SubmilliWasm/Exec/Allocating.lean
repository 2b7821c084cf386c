/-
# Allocating ops on the stacks

An allocating op reserves its charge before it pops an operand (`src/exec/step.rs`,
`src/exec/collect.rs`): the length of an array is read off the top of the stack, for the charge, and
popped later, for the object (`src/exec/gc.rs`, `src/exec/gc_array.rs`, `src/exec/exn.rs`).  What is
charged is what the object then takes, and what the reservation admits no later check refuses.

The stacks are in lockstep, so that the scan for roots does not fail; an index the validator has
checked that misses, a panic in the source, is an error here.  The operands a failing op has popped
are not kept: its error leaves the frame.
-/
import SubmilliWasm.Exec.Bulk
import SubmilliWasm.Exec.Growth
import SubmilliWasm.Exec.Loop

namespace SubmilliWasm

open Fallible
open Handler (scalars)

/-! ## Ops -/

/-- The ops that reserve. -/
inductive AllocInstr where
  | structNew (ty : ℕ)
  | structNewDefault (ty : ℕ)
  | arrayNew (ty : ℕ)
  | arrayNewDefault (ty : ℕ)
  | arrayNewFixed (ty n : ℕ)
  | arrayNewData (ty data : ℕ)
  | arrayNewElem (ty elem : ℕ)
  | throw (tag : ℕ)
  deriving DecidableEq, Repr

/-- What an op fails with: an error of the stacks or one of the store. -/
inductive OpError where
  | exec (e : ExecError)
  | store (e : StoreError)
  deriving DecidableEq, Repr

/-! ## Instances and their state -/

/-- What the ops of an instance read of its module. -/
structure AllocModule where
  types : List CompositeBody
  typeIds : List CanonicalTypeId
  datas : List (List UInt8)

/-- The modules and the tags of the instances, and the parameters of each tag of the store. -/
structure AllocEnv where
  modules : List AllocModule
  tags : List (List ℕ)
  tagParams : List (List ValType)

/-- The stacks and the store; `droppedData` is by instance, as the element segments of the managed
side are.  The ops here touch no memory, table, global or segment. -/
structure AllocState where
  exec : Execution
  store : Store
  memories : List (List UInt8)
  droppedData : List (List Bool)

/-- What an index names. -/
def indexed {α : Type} (l : List α) (i : ℕ) : Except OpError α :=
  match l[i]? with
  | some a => .ok a
  | none => .error (.store .panic)

namespace AllocEnv

variable (env : AllocEnv)

/-- The layout of a type, `none` for a function type. -/
def layout (inst ty : ℕ) : Except OpError (Option Layout) := do
  let m ← indexed env.modules inst
  return m.types[ty]?.bind Layout.fromBody

/-- The layout of a struct type. -/
def structLayout (inst ty : ℕ) : Except OpError StructLayout := do
  match ← env.layout inst ty with
  | some (.struct l) => return l
  | _ => .error (.exec (.msg s!"type {ty} is not a struct type"))

/-- The layout of an array type. -/
def arrayLayout (inst ty : ℕ) : Except OpError ArrayLayout := do
  match ← env.layout inst ty with
  | some (.array l) => return l
  | _ => .error (.exec (.msg s!"type {ty} is not an array type"))

/-- The canonical id of a type of an instance. -/
def canonicalTypeId (inst ty : ℕ) : Except OpError CanonicalTypeId := do
  indexed (← indexed env.modules inst).typeIds ty

/-- The bytes of a data segment. -/
def dataBytes (inst data : ℕ) : Except OpError (List UInt8) := do
  indexed (← indexed env.modules inst).datas data

/-- The handle of a tag and the types of its parameters. -/
def tag (inst idx : ℕ) : Except OpError (ℕ × List ValType) := do
  let handle ← indexed (← indexed env.tags inst) idx
  return (handle, ← indexed env.tagParams handle)

end AllocEnv

/-! ## Operands -/

namespace Execution

variable (e : Execution)

/-- The top operand as an `i32`, left where it is. -/
def topI32 : Except ExecError (BitVec 32) := do
  let base ← e.ensureOperands 1
  match scalars (e.operandsFrom base) with
  | some err => .error err
  | none => return ((e.operandsFrom base).headD ⟨0, .none⟩).cell.unwrapI32

/-- Pops an `i32`. -/
def popI32 : Except ExecError (BitVec 32 × Execution) :=
  (e.popN 1 scalars).map fun p => ((p.1.headD ⟨0, .none⟩).cell.unwrapI32, p.2)

/-- Pops a value for a field or an element. -/
def popValFor (slot : Slot) : Except OpError (Val × Execution) :=
  match e.popN 1 (fieldTag slot) with
  | .error err => .error (.exec err)
  | .ok (os, e') =>
    match (os.headD ⟨0, .none⟩).fieldVal slot with
    | none => .error (.store .panic)
    | some v => .ok (v, e')

/-- Pops values for the slots, the last one first. -/
def popVals (e : Execution) : List Slot → Except OpError (List Val × Execution)
  | [] => .ok ([], e)
  | slot :: slots => do
    let (vs, e') ← popVals e slots
    let (v, e'') ← e'.popValFor slot
    return (v :: vs, e'')

/-- Decodes the operands of a tag or a signature. -/
def decodeAll : List ValType → List Operand → Except OpError (List Val)
  | ty :: tys, o :: os => do
    match readSlot (pubValSlot ty 0) (leBytes 8 o.cell.toNat) with
    | none => .error (.store .panic)
    | some v => return v :: (← decodeAll tys os)
  | _, _ => .ok []

/-- Pops the arguments of a tag or a signature. -/
def popParams (tys : List ValType) : Except OpError (List Val × Execution) :=
  match e.popN tys.length (Interp.paramTags tys) with
  | .error err => .error (.exec err)
  | .ok (os, e') => (decodeAll tys os).map fun vs => (vs, e')

end Execution

/-- An error of the stacks. -/
def onStack {α : Type} (r : Except ExecError α) : Except OpError α := r.mapError .exec

/-- An error of the store. -/
def inStore {α : Type} (r : Except StoreError α) : Except OpError α := r.mapError .store

namespace AllocState

variable (env : AllocEnv) (inst : ℕ)

/-- A data segment and whether it has been dropped. -/
def dataSegment (g : AllocState) (data : ℕ) : Except OpError (List UInt8 × Bool) := do
  let dropped ← indexed (← indexed g.droppedData inst) data
  return (← env.dataBytes inst data, dropped)

/-- The references of an element segment. -/
def elemSegment (g : AllocState) (elem : ℕ) : Except OpError (List Ref) := do
  indexed (← indexed g.store.inner.elems inst) elem

/-- The top operand read as an element count. -/
def peekCount (g : AllocState) : Except OpError ℕ := (onStack g.exec.topI32).map BitVec.toNat

/-- The charge of an op, computed without popping (`gc_alloc_charge`, and `exn_charge` in `throw`).
-/
def gcAllocCharge (g : AllocState) : AllocInstr → Except OpError ℕ
  | .structNew ty | .structNewDefault ty => do
    return objectCharge (← env.structLayout inst ty).size
  | .arrayNew ty | .arrayNewDefault ty => do
    let layout ← env.arrayLayout inst ty
    return objectCharge (← inStore (arrayBytes (← g.peekCount) layout.stride))
  | .arrayNewFixed ty n => do
    return objectCharge ((← env.arrayLayout inst ty).bodySize n)
  | .arrayNewData ty data => do
    let layout ← env.arrayLayout inst ty
    let (seg, dropped) ← g.dataSegment env inst data
    return objectCharge (segClampedCharge (← g.peekCount) layout.stride (segLen seg dropped))
  | .arrayNewElem ty elem => do
    let layout ← env.arrayLayout inst ty
    let seg ← g.elemSegment inst elem
    return objectCharge (segClampedCharge (← g.peekCount) layout.stride
      (saturatingMul seg.length layout.stride))
  | .throw tag => do
    return exnCharge (← env.tag inst tag).2.length

/-- Makes the reservation cover the charge, with the operands on the stack as roots. -/
def gcReserve (g : AllocState) (charge : ℕ) :
    AllocState × Except StoreError (Option Store.GcGrow) :=
  let (store, r) := g.store.gcReserve g.exec.operandRoots charge
  ({ g with store }, r)

/-- The operands of an aggregate op, popped in its handler's order; what is popped for the last
field or element comes first. -/
def popOperands (g : AllocState) : AllocInstr → Except OpError (AllocOp × Execution)
  | .structNew ty => do
    let typeId ← env.canonicalTypeId inst ty
    let layout ← env.structLayout inst ty
    let (fields, e) ← g.exec.popVals layout.fields
    return (.structNew typeId layout (some fields), e)
  | .structNewDefault ty => do
    let typeId ← env.canonicalTypeId inst ty
    return (.structNew typeId (← env.structLayout inst ty) none, g.exec)
  | .arrayNew ty => do
    let typeId ← env.canonicalTypeId inst ty
    let layout ← env.arrayLayout inst ty
    let (count, e) ← onStack g.exec.popI32
    -- The body is made before the element is popped.
    let byteLen ← inStore (arrayBytes count.toNat layout.stride)
    let _ ← inStore (zeroedBody byteLen)
    let (fill, e) ← e.popValFor (layout.elemAt 0)
    return (.arrayNew typeId layout count.toNat (some fill), e)
  | .arrayNewDefault ty => do
    let typeId ← env.canonicalTypeId inst ty
    let layout ← env.arrayLayout inst ty
    let (count, e) ← onStack g.exec.popI32
    return (.arrayNew typeId layout count.toNat none, e)
  | .arrayNewFixed ty n => do
    let typeId ← env.canonicalTypeId inst ty
    let layout ← env.arrayLayout inst ty
    let _ ← inStore (zeroedBody (layout.bodySize n))
    let (elems, e) ← g.exec.popVals ((List.range n).map layout.elemAt)
    return (.arrayNewFixed typeId layout elems, e)
  | .arrayNewData ty data => do
    let typeId ← env.canonicalTypeId inst ty
    let layout ← env.arrayLayout inst ty
    let (count, e) ← onStack g.exec.popI32
    let (offset, e) ← onStack e.popI32
    let (seg, dropped) ← g.dataSegment env inst data
    return (.arrayNewData typeId layout seg dropped offset.toNat count.toNat, e)
  | .arrayNewElem ty elem => do
    let typeId ← env.canonicalTypeId inst ty
    let layout ← env.arrayLayout inst ty
    let (count, e) ← onStack g.exec.popI32
    let (offset, e) ← onStack e.popI32
    let seg ← g.elemSegment inst elem
    return (.arrayNewElem typeId layout seg offset.toNat count.toNat, e)
  | .throw _ => .error (.store .panic)

/-- Builds and places the object and pushes its reference. -/
def execGc (g : AllocState) (next : ℕ) (instr : AllocInstr) :
    AllocState × Except OpError StepOutcome :=
  match g.popOperands env inst instr with
  | .error err => (g, .error err)
  | .ok (op, e) =>
    match g.store.onInner (g.store.inner.buildObject op >>= g.store.inner.allocGc) with
    | (store, .error err) => ({ g with store }, .error (.store err))
    | (store, .ok index) =>
      ({ g with store, exec := e.push (.ofVal (.anyRef (some index))) }, .ok (.advance next))

/-- Pops the tag's arguments and raises an exception of them. -/
def throwExn (g : AllocState) (tag : ℕ) : AllocState × Except OpError StepOutcome :=
  match env.tag inst tag with
  | .error err => (g, .error err)
  | .ok (handle, params) =>
    match g.exec.popParams params with
    | .error err => (g, .error err)
    | .ok (args, e) =>
      match g.store.onInner (g.store.inner.allocExn ⟨handle, args⟩) with
      | (store, .error err) => ({ g with store }, .error (.store err))
      | (store, .ok exn) => ({ g with store, exec := e }, .error (.exec (.pending exn)))

/-- The handler of an op whose charge has been reserved. -/
def place (g : AllocState) (next : ℕ) : AllocInstr → AllocState × Except OpError StepOutcome
  | .throw tag => g.throwExn env inst tag
  | instr => g.execGc env inst next instr

/-- An allocating op (`step` and `throw`); `next` is the ip after it. -/
def step (g : AllocState) (next : ℕ) (instr : AllocInstr) :
    AllocState × Except OpError StepOutcome :=
  match g.gcAllocCharge env inst instr with
  | .error err => (g, .error err)
  | .ok charge =>
    match g.gcReserve charge with
    | (g, .error err) => (g, .error (.store err))
    | (g, .ok (some grow)) =>
      (g, .ok (.doGcGrow grow.reservedTarget grow.bytesNeeded (next - 1)))
    | (g, .ok none) => g.place env inst next instr

end AllocState

/-! ## Operands, peeked and popped -/

namespace Execution

variable {e e' : Execution}

theorem ensureOperands_ok_cases {n base : ℕ} (h : e.ensureOperands n = .ok base) :
    e.values.length = e.shadow.length ∧ base + n = e.values.length := by
  unfold ensureOperands at h
  split at h
  · nomatch h
  · rename_i hlen
    split at h
    · nomatch h
    · split at h
      · nomatch h
      · split at h
        · nomatch h
        · obtain rfl := Except.ok.inj h
          omega

variable {os : List Operand} {vs : List Val}

theorem popN_ok {n : ℕ} {accept : List Operand → Option ExecError}
    (h : e.popN n accept = .ok (os, e')) :
    ∃ base, e.ensureOperands n = .ok base ∧ accept (e.operandsFrom base) = none ∧
      os = e.operandsFrom base ∧ e' = e.truncate base := by
  unfold popN at h
  split at h
  · nomatch h
  · rename_i base hbase
    split at h
    · nomatch h
    · rename_i haccept
      obtain ⟨rfl, rfl⟩ := Prod.mk.inj (Except.ok.inj h)
      exact ⟨base, hbase, haccept, rfl, rfl⟩

theorem popN_length {n : ℕ} {accept : List Operand → Option ExecError}
    (h : e.popN n accept = .ok (os, e')) : os.length = n := by
  obtain ⟨base, hbase, -, rfl, -⟩ := popN_ok h
  obtain ⟨hlen, hsum⟩ := ensureOperands_ok_cases hbase
  rw [operandsFrom, List.length_zipWith, List.length_drop, List.length_drop]
  omega

/-- What is peeked is what is then popped. -/
theorem popI32_topI32 {v : BitVec 32} (h : e.popI32 = .ok (v, e')) : e.topI32 = .ok v := by
  unfold popI32 at h
  cases hp : e.popN 1 scalars with
  | error err =>
    rw [hp] at h
    nomatch h
  | ok p =>
    obtain ⟨os, e''⟩ := p
    rw [hp] at h
    obtain ⟨rfl, -⟩ := Prod.mk.inj (Except.ok.inj h)
    obtain ⟨base, hbase, haccept, rfl, -⟩ := popN_ok hp
    unfold topI32
    rw [hbase]
    show (match scalars (e.operandsFrom base) with | some err => _ | none => _) = _
    rw [haccept]
    rfl

theorem popVals_length {slots : List Slot} (h : e.popVals slots = .ok (vs, e')) :
    vs.length = slots.length := by
  induction slots generalizing vs e' with
  | nil =>
    obtain ⟨rfl, -⟩ := Prod.mk.inj (Except.ok.inj h)
    rfl
  | cons slot slots ih =>
    obtain ⟨⟨vs', e₁⟩, htail, h⟩ := bind_ok h
    obtain ⟨⟨v, e₂⟩, -, h⟩ := bind_ok h
    obtain ⟨rfl, -⟩ := Prod.mk.inj (Except.ok.inj h)
    rw [List.length_cons, ih htail, List.length_cons]

theorem decodeAll_length {tys : List ValType} (h : decodeAll tys os = .ok vs)
    (hlen : os.length = tys.length) : vs.length = tys.length := by
  induction tys generalizing os vs with
  | nil =>
    obtain rfl := Except.ok.inj h
    rfl
  | cons ty tys ih =>
    match os with
    | o :: os =>
      unfold decodeAll at h
      split at h
      · nomatch h
      · obtain ⟨vs', hrest, h⟩ := bind_ok h
        obtain rfl := Except.ok.inj h
        rw [List.length_cons, ih hrest (Nat.succ.inj hlen), List.length_cons]

theorem popParams_length {tys : List ValType} (h : e.popParams tys = .ok (vs, e')) :
    vs.length = tys.length := by
  unfold popParams at h
  split at h
  · nomatch h
  · rename_i os e'' hp
    cases hd : decodeAll tys os with
    | error err =>
      rw [hd] at h
      nomatch h
    | ok ws =>
      rw [hd] at h
      obtain ⟨rfl, -⟩ := Prod.mk.inj (Except.ok.inj h)
      exact decodeAll_length hd (popN_length hp)

end Execution

/-! ## The charge is that of the popped operands -/

theorem onStack_ok {α : Type} {r : Except ExecError α} {a : α} (h : onStack r = .ok a) :
    r = .ok a := by
  cases r with
  | error err => nomatch h
  | ok b => exact congrArg Except.ok (Except.ok.inj h)

theorem inStore_ok {α : Type} {r : Except StoreError α} {a : α} (h : inStore r = .ok a) :
    r = .ok a := by
  cases r with
  | error err => nomatch h
  | ok b => exact congrArg Except.ok (Except.ok.inj h)

theorem AllocEnv.arrayLayout_stride {env : AllocEnv} {inst ty : ℕ} {l : ArrayLayout}
    (h : env.arrayLayout inst ty = .ok l) : l.stride ≤ 16 := by
  unfold AllocEnv.arrayLayout AllocEnv.layout at h
  obtain ⟨layout, hl, h⟩ := bind_ok h
  obtain ⟨m, -, hl⟩ := bind_ok hl
  obtain rfl := Except.ok.inj hl
  split at h
  · rename_i l' hl'
    obtain rfl := Except.ok.inj h
    obtain ⟨body, -, hbody⟩ := Option.bind_eq_some_iff.mp hl'
    cases body with
    | func params results => nomatch hbody
    | struct fields => nomatch Option.some.inj hbody
    | array f =>
      obtain rfl := Layout.array.inj (Option.some.inj hbody)
      exact Slot.width_le _
  · nomatch h

/-- The length an op with a length operand has popped, with its stride, is that of a machine. -/
def AllocOp.Machine : AllocOp → Prop
  | .structNew _ _ _ | .arrayNewFixed _ _ _ => True
  | .arrayNew _ layout count _ => layout.stride ≤ 16 ∧ count < 2 ^ 32
  | .arrayNewData _ layout _ _ offset count | .arrayNewElem _ layout _ offset count =>
    layout.stride ≤ 16 ∧ count < 2 ^ 32 ∧ offset < 2 ^ 32

theorem arrayBytes_machine {count stride : ℕ} (hs : stride ≤ 16) (hc : count < 2 ^ 32) :
    arrayBytes count stride = .ok (count * stride) := by
  have hle : count * stride ≤ usizeMax := by
    calc count * stride ≤ 2 ^ 32 * 16 := Nat.mul_le_mul hc.le hs
      _ ≤ usizeMax := by decide +kernel
  unfold arrayBytes checkedMul
  rw [if_pos hle]

namespace AllocState

variable {env : AllocEnv} {inst : ℕ} {g : AllocState}

theorem peekCount_of_popI32 {e : Execution} {v : BitVec 32}
    (h : onStack g.exec.popI32 = .ok (v, e)) : g.peekCount = .ok v.toNat := by
  unfold peekCount
  rw [Execution.popI32_topI32 (onStack_ok h)]
  rfl

/-- The layout that is peeked at is the one the op pops its operands by. -/
theorem layout_twice {ε α β γ : Type} {layout : Except ε α} {f : α → Except ε β}
    {f' : α → Except ε γ} {b : β} {b' : γ} (h : (layout >>= f) = .ok b)
    (h' : (layout >>= f') = .ok b') : ∃ l, layout = .ok l ∧ f l = .ok b ∧ f' l = .ok b' := by
  obtain ⟨l, hl, h⟩ := bind_ok h
  obtain ⟨l', hl', h'⟩ := bind_ok h'
  obtain rfl := Except.ok.inj (hl.symm.trans hl')
  exact ⟨l, hl, h, h'⟩

/-- **Peeked charges.**  What an aggregate op charges by peeking is the charge of the operands it
then pops. -/
theorem popOperands_charge {instr : AllocInstr} {c : ℕ} {op : AllocOp} {e : Execution}
    (hc : g.gcAllocCharge env inst instr = .ok c)
    (hop : g.popOperands env inst instr = .ok (op, e)) :
    op.charge = .ok c ∧ op.Machine := by
  cases instr with
  | structNew ty =>
    obtain ⟨typeId, -, hop⟩ := bind_ok hop
    obtain ⟨l, hl, hc, hop⟩ := layout_twice hc hop
    obtain ⟨⟨fields, e'⟩, -, hop⟩ := bind_ok hop
    obtain ⟨rfl, -⟩ := Prod.mk.inj (Except.ok.inj hop)
    exact ⟨congrArg Except.ok (Except.ok.inj hc), trivial⟩
  | structNewDefault ty =>
    obtain ⟨typeId, -, hop⟩ := bind_ok hop
    obtain ⟨l, hl, hc, hop⟩ := layout_twice hc hop
    obtain ⟨rfl, -⟩ := Prod.mk.inj (Except.ok.inj hop)
    exact ⟨congrArg Except.ok (Except.ok.inj hc), trivial⟩
  | arrayNew ty =>
    obtain ⟨typeId, -, hop⟩ := bind_ok hop
    obtain ⟨l, hl, hc, hop⟩ := layout_twice hc hop
    obtain ⟨⟨count, e₁⟩, hpop, hop⟩ := bind_ok hop
    obtain ⟨n, hn, hop⟩ := bind_ok hop
    obtain ⟨data, -, hop⟩ := bind_ok hop
    obtain ⟨⟨fill, e₂⟩, -, hop⟩ := bind_ok hop
    obtain ⟨rfl, -⟩ := Prod.mk.inj (Except.ok.inj hop)
    obtain ⟨k, hk, hc⟩ := bind_ok hc
    obtain rfl := Except.ok.inj ((peekCount_of_popI32 hpop).symm.trans hk)
    obtain ⟨m, hm, hc⟩ := bind_ok hc
    refine ⟨?_, AllocEnv.arrayLayout_stride hl, count.isLt⟩
    show (arrayBytes count.toNat l.stride).map objectCharge = _
    rw [inStore_ok hm]
    exact congrArg Except.ok (Except.ok.inj hc)
  | arrayNewDefault ty =>
    obtain ⟨typeId, -, hop⟩ := bind_ok hop
    obtain ⟨l, hl, hc, hop⟩ := layout_twice hc hop
    obtain ⟨⟨count, e₁⟩, hpop, hop⟩ := bind_ok hop
    obtain ⟨rfl, -⟩ := Prod.mk.inj (Except.ok.inj hop)
    obtain ⟨k, hk, hc⟩ := bind_ok hc
    obtain rfl := Except.ok.inj ((peekCount_of_popI32 hpop).symm.trans hk)
    obtain ⟨m, hm, hc⟩ := bind_ok hc
    refine ⟨?_, AllocEnv.arrayLayout_stride hl, count.isLt⟩
    show (arrayBytes count.toNat l.stride).map objectCharge = _
    rw [inStore_ok hm]
    exact congrArg Except.ok (Except.ok.inj hc)
  | arrayNewFixed ty n =>
    obtain ⟨typeId, -, hop⟩ := bind_ok hop
    obtain ⟨l, hl, hc, hop⟩ := layout_twice hc hop
    obtain ⟨data, -, hop⟩ := bind_ok hop
    obtain ⟨⟨elems, e₁⟩, hpop, hop⟩ := bind_ok hop
    obtain ⟨rfl, -⟩ := Prod.mk.inj (Except.ok.inj hop)
    refine ⟨?_, trivial⟩
    have hlen : elems.length = n := by
      rw [Execution.popVals_length hpop, List.length_map, List.length_range]
    show Except.ok (objectCharge (l.bodySize elems.length)) = _
    rw [hlen]
    exact congrArg Except.ok (Except.ok.inj hc)
  | arrayNewData ty data =>
    obtain ⟨typeId, -, hop⟩ := bind_ok hop
    obtain ⟨l, hl, hc, hop⟩ := layout_twice hc hop
    obtain ⟨⟨count, e₁⟩, hpop, hop⟩ := bind_ok hop
    obtain ⟨⟨offset, e₂⟩, -, hop⟩ := bind_ok hop
    obtain ⟨⟨seg, dropped⟩, hseg, hop⟩ := bind_ok hop
    obtain ⟨rfl, -⟩ := Prod.mk.inj (Except.ok.inj hop)
    obtain ⟨⟨seg', dropped'⟩, hseg', hc⟩ := bind_ok hc
    obtain ⟨rfl, rfl⟩ := Prod.mk.inj (Except.ok.inj (hseg.symm.trans hseg'))
    obtain ⟨k, hk, hc⟩ := bind_ok hc
    obtain rfl := Except.ok.inj ((peekCount_of_popI32 hpop).symm.trans hk)
    exact ⟨congrArg Except.ok (Except.ok.inj hc), AllocEnv.arrayLayout_stride hl, count.isLt,
      offset.isLt⟩
  | arrayNewElem ty elem =>
    obtain ⟨typeId, -, hop⟩ := bind_ok hop
    obtain ⟨l, hl, hc, hop⟩ := layout_twice hc hop
    obtain ⟨⟨count, e₁⟩, hpop, hop⟩ := bind_ok hop
    obtain ⟨⟨offset, e₂⟩, -, hop⟩ := bind_ok hop
    obtain ⟨seg, hseg, hop⟩ := bind_ok hop
    obtain ⟨rfl, -⟩ := Prod.mk.inj (Except.ok.inj hop)
    obtain ⟨seg', hseg', hc⟩ := bind_ok hc
    obtain rfl := Except.ok.inj (hseg.symm.trans hseg')
    obtain ⟨k, hk, hc⟩ := bind_ok hc
    obtain rfl := Except.ok.inj ((peekCount_of_popI32 hpop).symm.trans hk)
    exact ⟨congrArg Except.ok (Except.ok.inj hc), AllocEnv.arrayLayout_stride hl, count.isLt,
      offset.isLt⟩
  | throw tag => nomatch hop

end AllocState

/-! ## What is checked after the reservation -/

/-- The trap of a segment range that an op's handler finds out of bounds. -/
def AllocOp.outOfRange : AllocOp → Option Trap
  | .arrayNewData _ layout seg dropped offset count =>
    if offset + count * layout.stride ≤ segLen seg dropped then none else some .memoryOutOfBounds
  | .arrayNewElem _ _ seg offset count =>
    if offset + count ≤ seg.length then none else some .tableOutOfBounds
  | _ => none

/-- A computation that fails by a panic only. -/
def OrPanic {α : Type} (r : Except StoreError α) : Prop := ∀ e, r = .error e → e = .panic

section OrPanic

variable {α β : Type}

theorem OrPanic.ok (a : α) : OrPanic (.ok a) := fun _ h => (nomatch h)

theorem OrPanic.bind {x : Except StoreError α} {f : α → Except StoreError β} (hx : OrPanic x)
    (hf : ∀ a, x = .ok a → OrPanic (f a)) : OrPanic (x >>= f) := by
  intro e h
  cases x with
  | error e' => exact hx e (congrArg Except.error (Except.error.inj h))
  | ok a => exact hf a rfl e h

theorem orPanic_boxed (data : List UInt8) : OrPanic (boxed data) := by
  unfold boxed
  split
  · exact OrPanic.ok _
  · intro e h
    exact (Except.error.inj h).symm

theorem orPanic_writeSlots (data : List UInt8) (ws : List (Slot × Val)) :
    OrPanic (writeSlots data ws) := by
  induction ws generalizing data with
  | nil => exact OrPanic.ok _
  | cons w ws ih =>
    unfold writeSlots
    split
    · intro e h
      exact (Except.error.inj h).symm
    · exact ih _

theorem orPanic_written (size : ℕ) (ws : List (Slot × Val)) (f : List UInt8 → α) :
    OrPanic (do
      let data ← zeroedBody size
      let out ← writeSlots data ws
      return f out) :=
  (orPanic_boxed _).bind fun _ _ => (orPanic_writeSlots _ _).bind fun _ _ => OrPanic.ok _

end OrPanic

theorem checkRange_machine {start len : ℕ} (h : start + len ≤ usizeMax) (total : ℕ) (t : Trap) :
    checkRange start len total t = if start + len ≤ total then .ok () else .error (.trap t) := by
  unfold checkRange checkedAdd
  rw [if_pos h]

theorem le_objectCharge {n : ℕ} (h : n ≤ usizeMax) : n ≤ objectCharge n := by
  unfold objectCharge saturatingAdd
  omega

theorem gcCheckCapacity_of_fits {s : StoreInner} {charge n : ℕ} (hf : s.gc.fits charge = true)
    (hle : n ≤ charge) : s.gcCheckCapacity n = .ok () := if_pos (Store.canFitLimit_of_fits hf hle)

/-- **Once its charge fits**, an op traps for its segment range, or its object is built unless the
process panics: no other check refuses it. -/
theorem buildObject_cases {s : StoreInner} {op : AllocOp} {c : ℕ} (hm : op.Machine)
    (hc : op.charge = .ok c) (hf : s.gc.fits c = true) :
    (∃ t, op.outOfRange = some t ∧ s.buildObject op = .error (.trap t)) ∨
      (op.outOfRange = none ∧ OrPanic (s.buildObject op)) := by
  have hbig : 2 ^ 32 + 2 ^ 32 * 16 ≤ usizeMax := by decide +kernel
  cases op with
  | structNew typeId layout fields =>
    exact .inr ⟨rfl, orPanic_written _ _ _⟩
  | arrayNew typeId layout count fill =>
    refine .inr ⟨rfl, ?_⟩
    show OrPanic (arrayBytes count layout.stride >>= _)
    rw [arrayBytes_machine hm.1 hm.2]
    exact orPanic_written _ _ _
  | arrayNewFixed typeId layout elems =>
    exact .inr ⟨rfl, orPanic_written _ _ _⟩
  | arrayNewData typeId layout seg dropped offset count =>
    obtain ⟨hstride, hcount, hoffset⟩ := hm
    have hprod : count * layout.stride ≤ 2 ^ 32 * 16 := Nat.mul_le_mul hcount.le hstride
    have hrange := checkRange_machine (show offset + count * layout.stride ≤ usizeMax by omega)
      (segLen seg dropped) .memoryOutOfBounds
    simp only [StoreInner.buildObject, arrayBytes_machine hstride hcount, AllocOp.outOfRange]
    show (∃ t, _ ∧ (checkRange offset _ _ _ >>= _) = _) ∨
      _ ∧ OrPanic (checkRange offset _ _ _ >>= _)
    rw [hrange]
    by_cases hin : offset + count * layout.stride ≤ segLen seg dropped
    · rw [if_pos hin, if_pos hin]
      refine .inr ⟨rfl, ?_⟩
      obtain rfl := Except.ok.inj hc
      rw [segClampedCharge_eq (by omega) (by omega)] at hf
      show OrPanic (s.gcCheckCapacity _ >>= _)
      rw [gcCheckCapacity_of_fits hf (le_objectCharge (by omega))]
      apply (orPanic_boxed _).bind
      intro data _
      exact OrPanic.ok _
    · rw [if_neg hin, if_neg hin]
      exact .inl ⟨_, rfl, rfl⟩
  | arrayNewElem typeId layout seg offset count =>
    obtain ⟨hstride, hcount, hoffset⟩ := hm
    have hprod : count * layout.stride ≤ 2 ^ 32 * 16 := Nat.mul_le_mul hcount.le hstride
    have hrange := checkRange_machine (show offset + count ≤ usizeMax by omega) seg.length
      .tableOutOfBounds
    simp only [StoreInner.buildObject, AllocOp.outOfRange]
    rw [hrange]
    by_cases hin : offset + count ≤ seg.length
    · rw [if_pos hin, if_pos hin]
      refine .inr ⟨rfl, ?_⟩
      obtain rfl := Except.ok.inj hc
      have hseg : count * layout.stride ≤ saturatingMul seg.length layout.stride :=
        le_min (Nat.mul_le_mul_right _ (by omega)) (by omega)
      rw [segClampedCharge_eq (by omega) hseg] at hf
      show OrPanic (arrayBytes count layout.stride >>= _)
      rw [arrayBytes_machine hstride hcount]
      show OrPanic (s.gcCheckCapacity _ >>= _)
      rw [gcCheckCapacity_of_fits hf (le_objectCharge (by omega))]
      exact orPanic_written _ _ _
    · rw [if_neg hin, if_neg hin]
      exact .inl ⟨_, rfl, rfl⟩

/-! ## What a reservation leaves of the store -/

/-- `s'` is `s` with entries that the stacks do not reach gone and its budget perhaps raised. -/
structure Settled (s : StoreInner) (stackRoots : List (ℕ × RefKind)) (s' : StoreInner) : Prop where
  contents : ∀ n, s'.contents n = none ∨ s'.contents n = s.contents n
  kept : ∀ n, Reachable s stackRoots n →
    s'.contents n = s.contents n ∧ s'.generation n = s.generation n
  used : s'.gc.used ≤ s.gc.used
  roots : s'.engine = s.engine ∧ s'.globals = s.globals ∧ s'.tables = s.tables ∧
    s'.elems = s.elems ∧ s'.pendingException = s.pendingException ∧ s'.gcRoots = s.gcRoots
  budget : s'.gc.reservation = s.gc.reservation ∧ s'.gc.collecting = s.gc.collecting
  handles : s.HandleLeft → s'.HandleLeft

namespace Settled

variable {s s' : StoreInner} {stackRoots : List (ℕ × RefKind)}

theorem refl (s : StoreInner) (stackRoots : List (ℕ × RefKind)) : Settled s stackRoots s :=
  ⟨fun _ => .inr rfl, fun _ _ => ⟨rfl, rfl⟩, le_rfl, ⟨rfl, rfl, rfl, rfl, rfl, rfl⟩, ⟨rfl, rfl⟩, id⟩

theorem reserved (h : Settled s stackRoots s') (target : ℕ) :
    Settled s stackRoots { s' with gc := { s'.gc with reserved := target } } := by
  refine ⟨fun n => ?_, fun n hn => ?_, h.used, h.roots, h.budget, h.handles⟩
  · have := h.contents n
    cases n <;> exact this
  · have := h.kept n hn
    cases n <;> exact this

theorem collect (h : s.collect stackRoots = some (.ok s')) : Settled s stackRoots s' := by
  have hbudget := collect_sameBudget h
  by_cases hc : s.gc.collecting = true
  · have hexact := collectedExactly hc h
    refine ⟨fun n => ?_, hexact.kept, collect_used_le h, hexact.roots, ⟨hbudget.reservation, ?_⟩,
      fun hs => hs.collect h⟩
    · by_cases hn : Reachable s stackRoots n
      · exact .inr (hexact.kept n hn).1
      · left
        by_cases hl : s.Live n
        · exact (hexact.freed n hl hn).1
        · exact (hexact.vacant n hl).1
    · obtain ⟨t, -, rfl⟩ := collect_ok hc h
      rfl
  · rw [StoreInner.collect, if_pos (by simpa using hc)] at h
    exact Except.ok.inj (Option.some.inj h) ▸ refl s stackRoots

end Settled

namespace Store

variable {s : Store} {stackRoots : List (ℕ × RefKind)} {charge : ℕ}

theorem gcCollect_settled (s : Store) (stackRoots : List (ℕ × RefKind)) :
    Settled s.inner stackRoots (s.gcCollect stackRoots).1.inner := by
  unfold gcCollect
  split
  · rename_i inner h
    apply Settled.collect
    rw [StoreInner.collect_eq_gcCollect, h]
  · exact Settled.refl _ _

theorem reserveGrow_settled {s₀ : StoreInner} (h : Settled s₀ stackRoots s.inner) :
    Settled s₀ stackRoots (s.reserveGrow charge).1.inner := by
  unfold reserveGrow
  simp only
  split
  · exact h.reserved _
  · exact h

/-- A reservation frees what is out of reach and leaves the rest of the store alone. -/
theorem gcReserve_settled (s : Store) (stackRoots : List (ℕ × RefKind)) (charge : ℕ) :
    Settled s.inner stackRoots (s.gcReserve stackRoots charge).1.inner := by
  unfold gcReserve
  split
  · exact Settled.refl _ _
  · split
    · have hcollect := s.gcCollect_settled stackRoots
      rcases hr : s.gcCollect stackRoots with ⟨s', e | _⟩
      · rw [hr] at hcollect
        exact hcollect
      · rw [hr] at hcollect
        simp only [Outcome.andThen]
        split
        · exact hcollect
        · exact reserveGrow_settled hcollect
    · exact reserveGrow_settled (Settled.refl _ _)

end Store

/-! ## The charge is what the op takes -/

/-- How an op ends that has allocated: a `throw` raises its exception. -/
def AllocInstr.Completed (next : ℕ) (r : Except OpError StepOutcome) : AllocInstr → Prop
  | .throw _ => ∃ exn, r = .error (.exec (.pending exn))
  | _ => r = .ok (.advance next)

theorem Execution.ensureOperands_ne_pending {e : Execution} {n exn : ℕ} :
    e.ensureOperands n ≠ .error (.pending exn) := by
  unfold ensureOperands
  split
  · simp
  · split
    · simp
    · split
      · simp
      · split <;> simp

theorem Execution.popParams_ne_pending {e : Execution} {tys : List ValType} {exn : ℕ} :
    e.popParams tys ≠ .error (.exec (.pending exn)) := by
  have hdecode : ∀ (tys : List ValType) (os : List Operand),
      decodeAll tys os ≠ .error (.exec (.pending exn)) := by
    intro tys
    induction tys with
    | nil => simp [decodeAll]
    | cons ty tys ih =>
      intro os
      match os with
      | [] => simp [decodeAll]
      | o :: os =>
        unfold decodeAll
        split
        · simp
        · intro h
          cases hd : decodeAll tys os with
          | error err =>
            rw [hd] at h
            exact ih os (hd.trans (congrArg Except.error (Except.error.inj h)))
          | ok vs =>
            rw [hd] at h
            nomatch h
  unfold popParams
  cases hp : e.popN tys.length (Interp.paramTags tys) with
  | error err =>
    intro h
    obtain rfl := OpError.exec.inj (Except.error.inj h)
    unfold popN at hp
    split at hp
    · rename_i hens
      exact ensureOperands_ne_pending (hens.trans (congrArg Except.error (Except.error.inj hp)))
    · split at hp
      · rename_i err haccept
        obtain rfl := Except.error.inj hp
        unfold Interp.paramTags at haccept
        split at haccept
        · nomatch Option.some.inj haccept
        · nomatch haccept
      · nomatch hp
  | ok p =>
    intro h
    cases hd : decodeAll tys p.1 with
    | error err =>
      simp only [hd] at h
      exact hdecode _ _ (hd.trans (congrArg Except.error (Except.error.inj h)))
    | ok vs =>
      simp only [hd] at h
      nomatch h

namespace AllocState

variable (env : AllocEnv) (inst next : ℕ)

/-- What an op's charge is worth.  An op that completes has reserved it and grows the bytes in use
by it, within the reservation; with it reserved, only a want of handles refuses the op; and an op
whose segment range is out of bounds allocates nothing: it traps for the range, or its reservation,
of the clamped charge, suspends or fails. -/
structure ChargeExact (g : AllocState) (instr : AllocInstr) (charge : ℕ) : Prop where
  grows : ∀ g' r, g.step env inst next instr = (g', r) → instr.Completed next r →
    (g.gcReserve charge).2 = .ok none ∧
    g'.store.inner.gc.used = (g.gcReserve charge).1.store.inner.gc.used + charge ∧
    g'.store.inner.gc.used ≤ g'.store.inner.gc.reserved
  admitted : (g.gcReserve charge).2 = .ok none → g.store.inner.HandleLeft →
    (g.step env inst next instr).2 ≠ .error (.store (.trap .allocationTooLarge))
  bounds : ∀ op e t, g.popOperands env inst instr = .ok (op, e) → op.outOfRange = some t →
    Settled g.store.inner g.exec.operandRoots (g.step env inst next instr).1.store.inner ∧
    (g.step env inst next instr).2 =
      match (g.gcReserve charge).2 with
      | .error err => .error (.store err)
      | .ok (some grow) => .ok (.doGcGrow grow.reservedTarget grow.bytesNeeded (next - 1))
      | .ok none => .error (.store (.trap t))

variable {env} {inst} {next} {g g' : AllocState} {instr : AllocInstr} {charge : ℕ}

/-- What a handler reads besides the stacks is as before the reservation. -/
theorem popOperands_gcReserve :
    (g.gcReserve charge).1.popOperands env inst instr = g.popOperands env inst instr := by
  have helems := (Store.gcReserve_settled g.store g.exec.operandRoots charge).roots.2.2.2.1
  cases instr with
  | arrayNewElem ty elem =>
    unfold popOperands elemSegment gcReserve
    simp only [helems]
  | _ => rfl

theorem allocGc_used {s s' : StoreInner} {o : GcObject} {i : ℕ} (h : s.allocGc o = .ok (i, s'))
    (hfit : s.gc.used + o.byteSize ≤ usizeMax) :
    s'.gc.used = s.gc.used + o.byteSize ∧ s'.gc.reserved = s.gc.reserved := by
  unfold StoreInner.allocGc at h
  cases ha : s.gc.alloc o with
  | error e => simp [ha, Except.map] at h
  | ok p =>
    obtain ⟨index, gc⟩ := p
    obtain ⟨rfl, rfl⟩ := GcHeap.alloc_ok ha
    rw [ha] at h
    obtain ⟨-, rfl⟩ := Prod.mk.inj (Except.ok.inj h)
    exact ⟨saturatingAdd_eq hfit, rfl⟩

theorem allocExn_used {s s' : StoreInner} {entity : ExnEntity} {i : ℕ}
    (h : s.allocExn entity = .ok (i, s')) :
    s'.gc.used = s.gc.used + entity.byteSize ∧ s'.gc.reserved = s.gc.reserved := by
  unfold StoreInner.allocExn at h
  split at h
  · rename_i hcan
    obtain ⟨-, rfl⟩ := Prod.mk.inj (Except.ok.inj h)
    exact ⟨saturatingAdd_eq (GcHeap.canFitLimit_iff.mp hcan).1, rfl⟩
  · nomatch h

theorem execGc_ok {out : StepOutcome} (h : g.execGc env inst next instr = (g', .ok out)) :
    ∃ op e o i inner, g.popOperands env inst instr = .ok (op, e) ∧
      g.store.inner.buildObject op = .ok o ∧ g.store.inner.allocGc o = .ok (i, inner) ∧
      g'.store.inner = inner := by
  unfold execGc at h
  split at h
  · exact (nomatch (Prod.mk.inj h).2)
  · rename_i op e hop
    split at h
    · exact (nomatch (Prod.mk.inj h).2)
    · rename_i store i hplace
      obtain ⟨rfl, -⟩ := Prod.mk.inj h
      cases hb : g.store.inner.buildObject op >>= g.store.inner.allocGc with
      | error err =>
        rw [hb] at hplace
        exact (nomatch (Prod.mk.inj hplace).2)
      | ok p =>
        obtain ⟨i', inner⟩ := p
        obtain ⟨o, ho, halloc⟩ := bind_ok hb
        rw [hb] at hplace
        obtain ⟨rfl, -⟩ := Prod.mk.inj hplace
        exact ⟨op, e, o, i', inner, hop, ho, halloc, rfl⟩

theorem throwExn_pending {tag exn : ℕ}
    (h : g.throwExn env inst tag = (g', .error (.exec (.pending exn)))) :
    ∃ handle params args e inner, env.tag inst tag = .ok (handle, params) ∧
      g.exec.popParams params = .ok (args, e) ∧
      g.store.inner.allocExn ⟨handle, args⟩ = .ok (exn, inner) ∧ g'.store.inner = inner := by
  unfold throwExn at h
  split at h
  · rename_i err htag
    exfalso
    have herr : err = .exec (.pending exn) := Except.error.inj (Prod.mk.inj h).2
    subst herr
    -- The lookups of a tag fail by a panic only.
    unfold AllocEnv.tag indexed at htag
    revert htag
    cases env.tags[inst]? with
    | none => exact fun htag => (nomatch Except.error.inj htag)
    | some tags =>
      cases htags : tags[tag]? with
      | none =>
        intro htag
        simp only [htags, bind, Except.bind] at htag
        nomatch Except.error.inj htag
      | some handle =>
        intro htag
        simp only [htags, bind, Except.bind] at htag
        cases hp : env.tagParams[handle]? with
        | none =>
          rw [hp] at htag
          nomatch Except.error.inj htag
        | some params =>
          rw [hp] at htag
          nomatch htag
  · rename_i handle params htag
    split at h
    · rename_i err hpop
      have herr : err = .exec (.pending exn) := Except.error.inj (Prod.mk.inj h).2
      subst herr
      exact absurd hpop Execution.popParams_ne_pending
    · rename_i args e hpop
      cases ha : g.store.inner.allocExn ⟨handle, args⟩ with
      | error err =>
        rw [ha] at h
        exact (nomatch Except.error.inj (Prod.mk.inj h).2)
      | ok p =>
        obtain ⟨i, inner⟩ := p
        rw [ha] at h
        obtain ⟨rfl, hexn⟩ := Prod.mk.inj h
        obtain rfl := ExecError.pending.inj (OpError.exec.inj (Except.error.inj hexn))
        exact ⟨handle, params, args, e, inner, htag, hpop, ha, rfl⟩

theorem place_of_ne_throw (h : ∀ tag, instr ≠ .throw tag) :
    g.place env inst next instr = g.execGc env inst next instr := by
  cases instr with
  | throw tag => exact absurd rfl (h tag)
  | _ => rfl

theorem completed_of_ne_throw {r : Except OpError StepOutcome} (h : ∀ tag, instr ≠ .throw tag) :
    instr.Completed next r ↔ r = .ok (.advance next) := by
  cases instr with
  | throw tag => exact absurd rfl (h tag)
  | _ => rfl

theorem gcAllocCharge_throw {tag handle : ℕ} {params : List ValType}
    (hc : g.gcAllocCharge env inst (.throw tag) = .ok charge)
    (htag : env.tag inst tag = .ok (handle, params)) : exnCharge params.length = charge := by
  change (env.tag inst tag >>= fun p => pure (exnCharge p.2.length)) = _ at hc
  rw [htag] at hc
  exact Except.ok.inj hc

/-- A handler that completes takes what was charged; `g` is the state after the reservation. -/
theorem place_grows {g₀ : AllocState} {r : Except OpError StepOutcome}
    (hc : g₀.gcAllocCharge env inst instr = .ok charge)
    (hop : g.popOperands env inst instr = g₀.popOperands env inst instr)
    (hf : g.store.inner.gc.fits charge = true)
    (h : g.place env inst next instr = (g', r)) (hr : instr.Completed next r) :
    g'.store.inner.gc.used = g.store.inner.gc.used + charge ∧
      g'.store.inner.gc.reserved = g.store.inner.gc.reserved := by
  by_cases hthrow : ∃ tag, instr = .throw tag
  · obtain ⟨tag, rfl⟩ := hthrow
    obtain ⟨exn, rfl⟩ := hr
    obtain ⟨handle, params, args, e, inner, htag, hpop, halloc, hinner⟩ := throwExn_pending h
    obtain ⟨hused, hreserved⟩ := allocExn_used halloc
    rw [hinner, hused, hreserved]
    have hsize : (ExnEntity.mk handle args).byteSize = exnCharge params.length :=
      congrArg exnCharge (Execution.popParams_length hpop)
    rw [hsize, gcAllocCharge_throw hc htag]
    exact ⟨rfl, rfl⟩
  · have hne : ∀ tag, instr ≠ .throw tag := fun tag h => hthrow ⟨tag, h⟩
    rw [completed_of_ne_throw hne] at hr
    subst hr
    rw [place_of_ne_throw hne] at h
    obtain ⟨op, e, o, i, inner, hpop, ho, halloc, hinner⟩ := execGc_ok h
    obtain ⟨hcharge, -⟩ := popOperands_charge hc (hop.symm.trans hpop)
    have hsize := charge_eq_byteSize hcharge ho
    have hfit : g.store.inner.gc.used + o.byteSize ≤ usizeMax := by
      rw [hsize]
      exact (GcHeap.fits_iff.mp hf).1
    obtain ⟨hused, hreserved⟩ := allocGc_used halloc hfit
    rw [hinner, hused, hreserved, hsize]
    exact ⟨rfl, rfl⟩

end AllocState

/-! ## What refuses a handler -/

/-- A computation that fails by an error of the stacks or a panic only. -/
def Popping {α : Type} (r : Except OpError α) : Prop := ∀ e, r = .error (.store e) → e = .panic

section Popping

variable {α β : Type}

theorem Popping.ok (a : α) : Popping (.ok a) := fun _ h => (nomatch h)

theorem Popping.exec (err : ExecError) : Popping (α := α) (.error (.exec err)) :=
  fun _ h => (nomatch Except.error.inj h)

theorem Popping.panic : Popping (α := α) (.error (.store .panic)) :=
  fun _ h => (OpError.store.inj (Except.error.inj h)).symm

theorem Popping.bind {x : Except OpError α} {f : α → Except OpError β} (hx : Popping x)
    (hf : ∀ a, x = .ok a → Popping (f a)) : Popping (x >>= f) := by
  intro e h
  cases x with
  | error e' => exact hx e (congrArg Except.error (Except.error.inj h))
  | ok a => exact hf a rfl e h

theorem Popping.map {x : Except OpError α} (f : α → β) (hx : Popping x) : Popping (x.map f) := by
  intro e h
  cases x with
  | error e' => exact hx e (congrArg Except.error (Except.error.inj h))
  | ok a => nomatch h

theorem popping_onStack (r : Except ExecError α) : Popping (onStack r) := by
  cases r with
  | error err => exact Popping.exec err
  | ok a => exact Popping.ok a

theorem OrPanic.inStore {r : Except StoreError α} (h : OrPanic r) : Popping (inStore r) := by
  cases r with
  | error err =>
    obtain rfl := h err rfl
    exact Popping.panic
  | ok a => exact Popping.ok a

theorem popping_indexed (l : List α) (i : ℕ) : Popping (indexed l i) := by
  unfold indexed
  split
  · exact Popping.ok _
  · exact Popping.panic

end Popping

namespace AllocEnv

variable (env : AllocEnv) (inst : ℕ)

theorem popping_layout (ty : ℕ) : Popping (env.layout inst ty) :=
  (popping_indexed _ _).bind fun _ _ => Popping.ok _

theorem popping_structLayout (ty : ℕ) : Popping (env.structLayout inst ty) := by
  apply (env.popping_layout inst ty).bind
  intro l _
  split
  · exact Popping.ok _
  · exact Popping.exec _

theorem popping_arrayLayout (ty : ℕ) : Popping (env.arrayLayout inst ty) := by
  apply (env.popping_layout inst ty).bind
  intro l _
  split
  · exact Popping.ok _
  · exact Popping.exec _

theorem popping_canonicalTypeId (ty : ℕ) : Popping (env.canonicalTypeId inst ty) :=
  (popping_indexed _ _).bind fun _ _ => popping_indexed _ _

theorem popping_dataBytes (data : ℕ) : Popping (env.dataBytes inst data) :=
  (popping_indexed _ _).bind fun _ _ => popping_indexed _ _

theorem popping_tag (idx : ℕ) : Popping (env.tag inst idx) :=
  (popping_indexed _ _).bind fun _ _ => (popping_indexed _ _).bind fun _ _ =>
    (popping_indexed _ _).bind fun _ _ => Popping.ok _

end AllocEnv

namespace Execution

theorem popping_popValFor (e : Execution) (slot : Slot) : Popping (e.popValFor slot) := by
  unfold popValFor
  split
  · exact Popping.exec _
  · split
    · exact Popping.panic
    · exact Popping.ok _

theorem popping_popVals (e : Execution) (slots : List Slot) : Popping (e.popVals slots) := by
  induction slots with
  | nil => exact Popping.ok _
  | cons slot slots ih =>
    apply ih.bind
    intro p _
    exact (popping_popValFor _ _).bind fun _ _ => Popping.ok _

theorem popping_decodeAll (tys : List ValType) (os : List Operand) :
    Popping (decodeAll tys os) := by
  induction tys generalizing os with
  | nil => exact Popping.ok _
  | cons ty tys ih =>
    match os with
    | [] => exact Popping.ok _
    | o :: os =>
      unfold decodeAll
      split
      · exact Popping.panic
      · exact (ih os).bind fun _ _ => Popping.ok _

theorem popping_popParams (e : Execution) (tys : List ValType) : Popping (e.popParams tys) := by
  unfold popParams
  split
  · exact Popping.exec _
  · exact (popping_decodeAll _ _).map _

end Execution

namespace AllocState

variable {env : AllocEnv} {inst next : ℕ} {g : AllocState} {instr : AllocInstr} {charge : ℕ}

theorem popping_dataSegment (data : ℕ) : Popping (g.dataSegment env inst data) :=
  (popping_indexed _ _).bind fun _ _ => (popping_indexed _ _).bind fun _ _ =>
    (env.popping_dataBytes inst data).bind fun _ _ => Popping.ok _

theorem popping_elemSegment (elem : ℕ) : Popping (g.elemSegment inst elem) :=
  (popping_indexed _ _).bind fun _ _ => popping_indexed _ _

theorem popping_popOperands : Popping (g.popOperands env inst instr) := by
  have hi32 : ∀ (e : Execution), Popping (onStack e.popI32) := fun e => popping_onStack _
  cases instr with
  | structNew ty =>
    apply (env.popping_canonicalTypeId inst ty).bind
    intro typeId _
    apply (env.popping_structLayout inst ty).bind
    intro l _
    exact (Execution.popping_popVals _ _).bind fun _ _ => Popping.ok _
  | structNewDefault ty =>
    apply (env.popping_canonicalTypeId inst ty).bind
    intro typeId _
    exact (env.popping_structLayout inst ty).bind fun _ _ => Popping.ok _
  | arrayNew ty =>
    apply (env.popping_canonicalTypeId inst ty).bind
    intro typeId _
    apply (env.popping_arrayLayout inst ty).bind
    intro l hl
    apply (hi32 _).bind
    rintro ⟨count, e⟩ _
    dsimp only
    rw [arrayBytes_machine (AllocEnv.arrayLayout_stride hl) count.isLt]
    apply (Popping.ok _).bind
    intro n _
    apply (orPanic_boxed _).inStore.bind
    intro data _
    exact (Execution.popping_popValFor _ _).bind fun _ _ => Popping.ok _
  | arrayNewDefault ty =>
    apply (env.popping_canonicalTypeId inst ty).bind
    intro typeId _
    apply (env.popping_arrayLayout inst ty).bind
    intro l _
    exact (hi32 _).bind fun _ _ => Popping.ok _
  | arrayNewFixed ty n =>
    apply (env.popping_canonicalTypeId inst ty).bind
    intro typeId _
    apply (env.popping_arrayLayout inst ty).bind
    intro l _
    apply (orPanic_boxed _).inStore.bind
    intro data _
    exact (Execution.popping_popVals _ _).bind fun _ _ => Popping.ok _
  | arrayNewData ty data =>
    apply (env.popping_canonicalTypeId inst ty).bind
    intro typeId _
    apply (env.popping_arrayLayout inst ty).bind
    intro l _
    apply (hi32 _).bind
    intro p _
    apply (hi32 _).bind
    intro q _
    exact (popping_dataSegment data).bind fun _ _ => Popping.ok _
  | arrayNewElem ty elem =>
    apply (env.popping_canonicalTypeId inst ty).bind
    intro typeId _
    apply (env.popping_arrayLayout inst ty).bind
    intro l _
    apply (hi32 _).bind
    intro p _
    apply (hi32 _).bind
    intro q _
    exact (popping_elemSegment elem).bind fun _ _ => Popping.ok _
  | throw tag => exact Popping.panic

variable {op : AllocOp}

theorem outOfRange_ne_tooLarge {t : Trap} (h : op.outOfRange = some t) :
    t ≠ .allocationTooLarge := by
  rintro rfl
  unfold AllocOp.outOfRange at h
  split at h
  · split at h <;> exact (nomatch h)
  · split at h <;> exact (nomatch h)
  · nomatch h

theorem execGc_admitted (hf : g.store.inner.gc.fits charge = true)
    (hleft : g.store.inner.HandleLeft)
    (hcharge : ∀ op e, g.popOperands env inst instr = .ok (op, e) →
      op.charge = .ok charge ∧ op.Machine) :
    (g.execGc env inst next instr).2 ≠ .error (.store (.trap .allocationTooLarge)) := by
  unfold execGc
  split
  · rename_i err hop
    intro h
    obtain rfl := Except.error.inj h
    nomatch popping_popOperands _ hop
  · rename_i op e hop
    obtain ⟨hc, hm⟩ := hcharge op e hop
    rcases buildObject_cases hm hc hf with ⟨t, ht, hbuild⟩ | ⟨-, hpanic⟩
    · rw [hbuild]
      intro h
      have htrap := OpError.store.inj (Except.error.inj h)
      exact outOfRange_ne_tooLarge ht (StoreError.trap.inj htrap)
    · cases hb : g.store.inner.buildObject op with
      | error err =>
        obtain rfl := hpanic err hb
        exact fun h => (nomatch OpError.store.inj (Except.error.inj h))
      | ok o =>
        obtain ⟨i, inner, halloc⟩ := Store.allocGc_of_handleLeft hleft o
        show (match g.store.onInner (g.store.inner.allocGc o) with
          | (store, .error err) => _ | (store, .ok index) => _ :
            AllocState × Except OpError StepOutcome).2 ≠ _
        rw [halloc]
        exact nofun

theorem throwExn_admitted {tag : ℕ} (hf : g.store.inner.gc.fits charge = true)
    (hcharge : ∀ handle params, env.tag inst tag = .ok (handle, params) →
      exnCharge params.length = charge) :
    (g.throwExn env inst tag).2 ≠ .error (.store (.trap .allocationTooLarge)) := by
  unfold throwExn
  split
  · rename_i err htag
    intro h
    obtain rfl := Except.error.inj h
    nomatch env.popping_tag inst tag _ htag
  · rename_i handle params htag
    split
    · rename_i err hpop
      intro h
      obtain rfl := Except.error.inj h
      nomatch Execution.popping_popParams _ _ _ hpop
    · rename_i args e hpop
      have hsize : (ExnEntity.mk handle args).byteSize = charge :=
        (congrArg exnCharge (Execution.popParams_length hpop)).trans (hcharge handle params htag)
      obtain ⟨i, inner, halloc⟩ : ∃ i inner,
          g.store.inner.allocExn ⟨handle, args⟩ = .ok (i, inner) :=
        ⟨_, _, if_pos (Store.canFitLimit_of_fits hf hsize.le)⟩
      rw [halloc]
      exact fun h => (nomatch Except.error.inj h)

/-- A range that is out of bounds is found by the handler of the op, which then changes nothing. -/
theorem execGc_outOfRange {e : Execution} {t : Trap}
    (hop : g.popOperands env inst instr = .ok (op, e)) (hc : op.charge = .ok charge)
    (hm : op.Machine) (hf : g.store.inner.gc.fits charge = true) (ht : op.outOfRange = some t) :
    g.execGc env inst next instr = (g, .error (.store (.trap t))) := by
  rcases buildObject_cases hm hc hf with ⟨t', ht', hbuild⟩ | ⟨hin, -⟩
  · obtain rfl := Option.some.inj (ht.symm.trans ht')
    unfold execGc
    rw [hop]
    dsimp only
    rw [hbuild]
    rfl
  · nomatch hin.symm.trans ht

theorem ne_throw_of_popOperands {e : Execution} (h : g.popOperands env inst instr = .ok (op, e))
    (tag : ℕ) : instr ≠ .throw tag := by
  rintro rfl
  nomatch h

/-- **The charge is exact.**  After any history of a store, for every op and every operands: what is
charged before an operand is popped is what the op that completes then takes, within the
reservation; no later check of bytes refuses the op; and a segment range that is out of bounds is
not allocated under the clamped charge. -/
theorem charge_exact (env : AllocEnv) (inst next : ℕ) (g : AllocState) (instr : AllocInstr)
    (charge : ℕ) (engine : TypeRegistry) (collecting : Bool) (reservation : ℕ)
    (ops : List Store.StoreOp)
    (hg : g.store = (Store.new engine collecting reservation).runAll ops)
    (hc : g.gcAllocCharge env inst instr = .ok charge) :
    ChargeExact env inst next g instr charge := by
  have hnew : Accounted (Store.new engine collecting reservation).inner :=
    accounted_new engine collecting reservation
  have hs : Accounted g.store.inner := hg ▸ (Store.runAll_events hnew ops).accounted hnew
  have hsettled := Store.gcReserve_settled g.store g.exec.operandRoots charge
  have hfits := (Store.gcReserve_spec hs g.exec.operandRoots charge).2
  have hstep : g.step env inst next instr =
      match g.gcReserve charge with
      | (g, .error err) => (g, .error (.store err))
      | (g, .ok (some grow)) =>
        (g, .ok (.doGcGrow grow.reservedTarget grow.bytesNeeded (next - 1)))
      | (g, .ok none) => g.place env inst next instr := by
    unfold step
    rw [hc]
  -- The operands are those of the state before the reservation.
  have hop : (g.gcReserve charge).1.popOperands env inst instr = g.popOperands env inst instr :=
    popOperands_gcReserve
  obtain ⟨gR, r, hr⟩ : ∃ gR r, g.gcReserve charge = (gR, r) := ⟨_, _, rfl⟩
  have hstore : gR.store = (g.store.gcReserve g.exec.operandRoots charge).1 :=
    congrArg (fun p => p.1.store) hr.symm
  have hresult : (g.store.gcReserve g.exec.operandRoots charge).2 = r :=
    congrArg Prod.snd hr
  rw [← hstore] at hsettled hfits
  rw [hresult] at hfits
  rw [hr] at hop
  constructor
  · intro g' r' hrun hdone
    rw [hstep, hr] at hrun
    rw [hr]
    rcases r with err | _ | grow
    · obtain ⟨-, rfl⟩ := Prod.mk.inj hrun
      cases instr with
      | throw tag => exact absurd hdone fun ⟨exn, h⟩ => (nomatch Except.error.inj h)
      | _ => nomatch hdone
    · obtain ⟨hused, hreserved⟩ := place_grows hc hop (hfits rfl) hrun hdone
      refine ⟨rfl, hused, ?_⟩
      rw [hused, hreserved]
      exact (GcHeap.fits_iff.mp (hfits rfl)).2
    · obtain ⟨-, rfl⟩ := Prod.mk.inj hrun
      cases instr with
      | throw tag => exact absurd hdone fun ⟨exn, h⟩ => (nomatch h)
      | _ => nomatch Except.ok.inj hdone
  · intro hnone hleft
    rw [hr] at hnone
    obtain rfl : r = .ok none := hnone
    rw [hstep, hr]
    by_cases hthrow : ∃ tag, instr = .throw tag
    · obtain ⟨tag, rfl⟩ := hthrow
      exact throwExn_admitted (hfits rfl) fun handle params htag => gcAllocCharge_throw hc htag
    · have hne : ∀ tag, instr ≠ .throw tag := fun tag h => hthrow ⟨tag, h⟩
      show (gR.place env inst next instr).2 ≠ _
      rw [place_of_ne_throw hne]
      apply execGc_admitted (hfits rfl) (hsettled.handles hleft)
      intro op e hpop
      exact popOperands_charge hc (hop.symm.trans hpop)
  · intro op e t hpop ht
    rw [hstep, hr]
    rcases r with err | _ | grow
    · exact ⟨hsettled, rfl⟩
    · obtain ⟨hcharge, hm⟩ := popOperands_charge hc hpop
      show Settled _ _ (gR.place env inst next instr).1.store.inner ∧
        (gR.place env inst next instr).2 = .error (.store (.trap t))
      rw [place_of_ne_throw (ne_throw_of_popOperands hpop),
        execGc_outOfRange (hop.trans hpop) hcharge hm (hfits rfl) ht]
      exact ⟨hsettled, rfl⟩
    · exact ⟨hsettled, rfl⟩

/-! ## A clamped charge that does not fit -/

/-- An array type of bytes and a data segment of one byte. -/
def byteEnv : AllocEnv where
  modules := [⟨[.array ⟨true, .i8⟩], [0], [[7]]⟩]
  tags := [[]]
  tagParams := []

/-- The operands of an `array.new_data` of five bytes in a store with no free budget. -/
def fiveBytes : AllocState where
  exec := ⟨[0, 5], [.none, .none],
    [⟨⟨[.plain (.arrayNewData 0 0)], 0, 0, 1, [], 2, [], [], []⟩, 0, 0, 0, 0, 0, none⟩], 0⟩
  store := Store.new .empty false 0
  memories := []
  droppedData := [[false]]

/-- The operands of an `array.new_data` of one byte in a store with a free step of budget. -/
def oneByte : AllocState :=
  { fiveBytes with
    exec := { fiveBytes.exec with values := [0, 1] }
    store := Store.new .empty false 65536 }

/-- The charge of one byte, of the five that the first op asks for, and of the one that the second
asks for and places. -/
theorem charge_exact_oneByte :
    (fiveBytes.gcAllocCharge byteEnv 0 (.arrayNewData 0 0) = .ok 45 ∧
      ChargeExact byteEnv 0 1 fiveBytes (.arrayNewData 0 0) 45) ∧
    ((oneByte.step byteEnv 0 1 (.arrayNewData 0 0)).2 = .ok (.advance 1) ∧
      (oneByte.step byteEnv 0 1 (.arrayNewData 0 0)).1.store.inner.gc.used = 45 ∧
      ChargeExact byteEnv 0 1 oneByte (.arrayNewData 0 0) 45) := by
  constructor
  · exact ⟨rfl, charge_exact byteEnv 0 1 fiveBytes (.arrayNewData 0 0) 45 .empty false 0 [] rfl rfl⟩
  · exact ⟨by decide +kernel, by decide +kernel,
      charge_exact byteEnv 0 1 oneByte (.arrayNewData 0 0) 45 .empty false 65536 [] rfl rfl⟩

/-- An op whose range is out of bounds need not trap for it: here it suspends, and a limiter that
denies the growth makes of it a want of memory. -/
theorem not_traps_fiveBytes :
    (∃ op e, fiveBytes.popOperands byteEnv 0 (.arrayNewData 0 0) = .ok (op, e) ∧
      op.outOfRange = some .memoryOutOfBounds) ∧
    (fiveBytes.step byteEnv 0 1 (.arrayNewData 0 0)).2 = .ok (.doGcGrow 65536 45 0) ∧
    ((fiveBytes.step byteEnv 0 1 (.arrayNewData 0 0)).1.store.growGcReservation 65536 45
      (.sync (.ok false))).2 = .error (.gcHeapOutOfMemory 45) := by
  refine ⟨⟨_, _, rfl, by decide⟩, ?_, ?_⟩
  · decide +kernel
  · decide +kernel

end AllocState

end SubmilliWasm
