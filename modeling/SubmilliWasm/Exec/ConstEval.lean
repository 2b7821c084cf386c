/-
# Constant expressions

The evaluator of initializers and segment offsets (`src/instance/const_eval.rs`): a stack machine
over tagged values, which allocates in the heap of the store.  A failing evaluation leaves what it
has allocated so far.  `array.new_data` and `array.new_elem`, which the decoder knows as well, are
no constant instructions of the validator and do not occur.
-/
import SubmilliWasm.Exec.Allocating
import SubmilliWasm.Exec.Cells
import SubmilliWasm.Lib.Effects

namespace SubmilliWasm

open Effects

/-! ## Expressions -/

inductive ConstBinop where
  | add
  | sub
  | mul
  deriving DecidableEq, Repr

inductive ConstOp where
  | i32 (v : BitVec 32)
  | i64 (v : BitVec 64)
  | f32 (bits : BitVec 32)
  | f64 (bits : BitVec 64)
  | refNull (heap : IrHeap)
  | refFunc (i : ℕ)
  | globalGet (g : ℕ)
  | i32Bin (op : ConstBinop)
  | i64Bin (op : ConstBinop)
  | refI31
  | structNew (ty : ℕ)
  | structNewDefault (ty : ℕ)
  | arrayNew (ty : ℕ)
  | arrayNewDefault (ty : ℕ)
  | arrayNewFixed (ty n : ℕ)
  | anyConvertExtern
  | externConvertAny
  deriving DecidableEq, Repr

abbrev ConstExpr := List ConstOp

/-- The items of an element segment. -/
inductive ElemItems where
  | funcs (indices : List ℕ)
  | exprs (es : List ConstExpr)

/-- What an expression resolves against: the module, and the index spaces as far as they are
built. -/
structure ConstCtx where
  module : AllocModule
  funcs : List ℕ
  globals : List ℕ

def ConstBinop.apply {w : ℕ} : ConstBinop → BitVec w → BitVec w → BitVec w
  | .add, a, b => a + b
  | .sub, a, b => a - b
  | .mul, a, b => a * b

/-! ## Evaluation -/

/-- A computation of the evaluator. -/
abbrev ConstM (α : Type) := EStateM OpError StoreInner α

/-- A step of the store; one that fails changes nothing. -/
def inHeap {α : Type} (f : StoreInner → Except StoreError (α × StoreInner)) : ConstM α := fun s =>
  match f s with
  | .ok (a, s') => .ok a s'
  | .error e => .error (.store e) s

/-- Pops a value; an empty stack panics. -/
def popVal : List Val → Except OpError (Val × List Val)
  | [] => .error (.store .panic)
  | v :: stack => .ok (v, stack)

/-- `unwrap_i32`; another value panics. -/
def Val.unwrapI32 : Val → Except OpError (BitVec 32)
  | .i32 v => .ok v
  | _ => .error (.store .panic)

def Val.unwrapI64 : Val → Except OpError (BitVec 64)
  | .i64 v => .ok v
  | _ => .error (.store .panic)

/-- Pops `n` values, the last one first. -/
def popValues : ℕ → List Val → Except OpError (List Val × List Val)
  | 0, stack => .ok ([], stack)
  | n + 1, stack => do
    let (v, stack) ← popVal stack
    let (vs, stack) ← popValues n stack
    return (vs ++ [v], stack)

namespace ConstCtx

variable (ctx : ConstCtx)

def structLayout (ty : ℕ) : Except OpError StructLayout :=
  match ctx.module.types[ty]?.bind Layout.fromBody with
  | some (.struct l) => .ok l
  | _ => .error (.exec (.msg s!"type {ty} is not a struct type"))

def arrayLayout (ty : ℕ) : Except OpError ArrayLayout :=
  match ctx.module.types[ty]?.bind Layout.fromBody with
  | some (.array l) => .ok l
  | _ => .error (.exec (.msg s!"type {ty} is not an array type"))

/-- The operands of an aggregate, popped in the order of the source. -/
def operands (s : StoreInner) (stack : List Val) : AllocInstr → Except OpError (AllocOp × List Val)
  | .structNew ty => do
    let typeId ← indexed ctx.module.typeIds ty
    let layout ← ctx.structLayout ty
    let (fields, stack) ← popValues layout.fields.length stack
    return (.structNew typeId layout (some fields), stack)
  | .structNewDefault ty => do
    let typeId ← indexed ctx.module.typeIds ty
    let layout ← ctx.structLayout ty
    return (.structNew typeId layout none, stack)
  | .arrayNew ty => do
    let typeId ← indexed ctx.module.typeIds ty
    let layout ← ctx.arrayLayout ty
    let (count, stack) ← popVal stack
    let count ← count.unwrapI32
    inStore (s.gcCheckCapacity (← inStore (arrayBytes count.toNat layout.stride)))
    let (fill, stack) ← popVal stack
    return (.arrayNew typeId layout count.toNat (some fill), stack)
  | .arrayNewDefault ty => do
    let typeId ← indexed ctx.module.typeIds ty
    let layout ← ctx.arrayLayout ty
    let (count, stack) ← popVal stack
    let count ← count.unwrapI32
    inStore (s.gcCheckCapacity (← inStore (arrayBytes count.toNat layout.stride)))
    return (.arrayNew typeId layout count.toNat none, stack)
  | .arrayNewFixed ty n => do
    let typeId ← indexed ctx.module.typeIds ty
    let layout ← ctx.arrayLayout ty
    let (elems, stack) ← popValues n stack
    return (.arrayNewFixed typeId layout elems, stack)
  -- no constant instructions
  | .arrayNewData .. | .arrayNewElem .. | .throw _ => .error (.store .panic)

/-- Builds the object of an aggregate and places it under the hard ceiling. -/
def alloc (stack : List Val) (instr : AllocInstr) : ConstM (List Val) := do
  let s ← get
  let (op, stack) ← attempt (ctx.operands s stack instr)
  let object ← attempt (inStore (s.buildObject op))
  let index ← inHeap fun s => s.allocGcUnreserved object
  return .anyRef (some index) :: stack

/-- One op on the stack. -/
def evalOp (stack : List Val) : ConstOp → ConstM (List Val)
  | .i32 v => return .i32 v :: stack
  | .i64 v => return .i64 v :: stack
  | .f32 bits => return .f32 bits :: stack
  | .f64 bits => return .f64 bits :: stack
  | .refNull heap => return refVal (refKind heap) none :: stack
  | .refFunc i => do
    let f ← attempt (indexed ctx.funcs i)
    return .funcRef (some f) :: stack
  | .globalGet g => do
    let s ← get
    let handle ← attempt (indexed ctx.globals g)
    let v ← attempt (indexed s.globals handle)
    return v :: stack
  | .i32Bin op => do
    let (b, stack) ← attempt (popVal stack)
    let b ← attempt b.unwrapI32
    let (a, stack) ← attempt (popVal stack)
    let a ← attempt a.unwrapI32
    return .i32 (op.apply a b) :: stack
  | .i64Bin op => do
    let (b, stack) ← attempt (popVal stack)
    let b ← attempt b.unwrapI64
    let (a, stack) ← attempt (popVal stack)
    let a ← attempt a.unwrapI64
    return .i64 (op.apply a b) :: stack
  | .refI31 => do
    let (v, stack) ← attempt (popVal stack)
    let v ← attempt v.unwrapI32
    return .anyRef (some (anyrefHandleI31 v).toNat) :: stack
  | .structNew ty => ctx.alloc stack (.structNew ty)
  | .structNewDefault ty => ctx.alloc stack (.structNewDefault ty)
  | .arrayNew ty => ctx.alloc stack (.arrayNew ty)
  | .arrayNewDefault ty => ctx.alloc stack (.arrayNewDefault ty)
  | .arrayNewFixed ty n => ctx.alloc stack (.arrayNewFixed ty n)
  | .anyConvertExtern => do
    let (v, stack) ← attempt (popVal stack)
    let v ← inHeap fun s => s.anyConvertExtern v
    return v :: stack
  | .externConvertAny => do
    let (v, stack) ← attempt (popVal stack)
    let v ← inHeap fun s => s.externConvertAny v
    return v :: stack

def evalOps : ConstExpr → List Val → ConstM (List Val)
  | [], stack => pure stack
  | op :: ops, stack => do
    let stack ← ctx.evalOp stack op
    evalOps ops stack

/-- `eval_const`. -/
def evalConst (e : ConstExpr) : ConstM Val := do
  let stack ← ctx.evalOps e []
  let (v, _) ← attempt (popVal stack)
  return v

end ConstCtx

/-- `val_to_ref`. -/
def Val.toRef : Val → Except OpError Ref
  | .funcRef f => .ok (.func f)
  | .externRef e => .ok (.extern_ e)
  | .anyRef a => .ok (.any a)
  | .exnRef x => .ok (.exn x)
  | _ => .error (.exec (.msg "global is not a reference"))

namespace ConstCtx

variable (ctx : ConstCtx)

def evalConstRef (e : ConstExpr) : ConstM Ref := do
  let v ← ctx.evalConst e
  attempt v.toRef

/-- The references of an element segment. -/
def elemRefs : ElemItems → ConstM (List Ref)
  | .funcs indices => collect (fun i => do
      let f ← attempt (indexed ctx.funcs i)
      return .func (some f)) indices
  | .exprs es => collect ctx.evalConstRef es

end ConstCtx

/-! ## What an evaluation changes -/

/-- Only the heap has changed. -/
structure HeapOnly (s s' : StoreInner) : Prop where
  engine : s'.engine = s.engine
  globals : s'.globals = s.globals
  tables : s'.tables = s.tables
  elems : s'.elems = s.elems

theorem HeapOnly.refl (s : StoreInner) : HeapOnly s s := ⟨rfl, rfl, rfl, rfl⟩

theorem HeapOnly.trans (a b c : StoreInner) (h : HeapOnly a b) (h' : HeapOnly b c) :
    HeapOnly a c :=
  ⟨h'.engine.trans h.engine, h'.globals.trans h.globals, h'.tables.trans h.tables,
    h'.elems.trans h.elems⟩

variable {s s' : StoreInner}

theorem allocGcUnreserved_heapOnly {object : GcObject} {i : ℕ}
    (h : s.allocGcUnreserved object = .ok (i, s')) : HeapOnly s s' := by
  unfold StoreInner.allocGcUnreserved at h
  rcases hgc : s.gc.allocUnreserved object with e | ⟨j, gc⟩
  · rw [hgc] at h
    cases h
  · rw [hgc] at h
    obtain ⟨-, rfl⟩ := Prod.mk.inj (Except.ok.inj h)
    exact ⟨rfl, rfl, rfl, rfl⟩

theorem pushExtern_heapOnly {entry : ExternEntry} {i : ℕ} (h : s.pushExtern entry = .ok (i, s')) :
    HeapOnly s s' := by
  unfold StoreInner.pushExtern at h
  split at h
  · obtain ⟨-, rfl⟩ := Prod.mk.inj (Except.ok.inj h)
    exact ⟨rfl, rfl, rfl, rfl⟩
  · cases h

theorem anyConvertExtern_heapOnly {v w : Val} (h : s.anyConvertExtern v = .ok (w, s')) :
    HeapOnly s s' := by
  unfold StoreInner.anyConvertExtern at h
  split at h
  · obtain ⟨-, rfl⟩ := Prod.mk.inj (Except.ok.inj h)
    exact .refl s
  · rename_i idx
    rcases hidx : s.anyConvertIndex idx with e | ⟨handle, s₁⟩
    · rw [hidx] at h
      cases h
    · rw [hidx] at h
      obtain ⟨-, rfl⟩ := Prod.mk.inj (Except.ok.inj h)
      unfold StoreInner.anyConvertIndex at hidx
      split at hidx
      · obtain ⟨-, rfl⟩ := Prod.mk.inj (Except.ok.inj hidx)
        exact .refl s
      · exact allocGcUnreserved_heapOnly hidx
      · cases hidx
  · obtain ⟨-, rfl⟩ := Prod.mk.inj (Except.ok.inj h)
    exact .refl s

theorem externConvertAny_heapOnly {v w : Val} (h : s.externConvertAny v = .ok (w, s')) :
    HeapOnly s s' := by
  unfold StoreInner.externConvertAny at h
  split at h
  · obtain ⟨-, rfl⟩ := Prod.mk.inj (Except.ok.inj h)
    exact .refl s
  · rename_i handle
    rcases hidx : s.externConvertHandle handle with e | ⟨i, s₁⟩
    · rw [hidx] at h
      cases h
    · rw [hidx] at h
      obtain ⟨-, rfl⟩ := Prod.mk.inj (Except.ok.inj h)
      unfold StoreInner.externConvertHandle at hidx
      split at hidx
      · split at hidx
        · cases hidx
        · split at hidx
          · obtain ⟨-, rfl⟩ := Prod.mk.inj (Except.ok.inj hidx)
            exact .refl s
          · exact pushExtern_heapOnly hidx
      · exact pushExtern_heapOnly hidx
  · obtain ⟨-, rfl⟩ := Prod.mk.inj (Except.ok.inj h)
    exact .refl s

/-- A step that changes the heap alone where it succeeds. -/
theorem inHeap_heapOnly {α : Type} {f : StoreInner → Except StoreError (α × StoreInner)}
    (h : ∀ {s a s'}, f s = .ok (a, s') → HeapOnly s s') : Preserves HeapOnly (inHeap f) := by
  intro s
  show HeapOnly s (after (match f s with | .ok (a, s') => _ | .error e => _))
  rcases hf : f s with e | ⟨a, s'⟩
  · exact .refl s
  · exact h hf

namespace ConstCtx

variable (ctx : ConstCtx)

section

variable {α β : Type}

theorem heapOnly_bind {x : ConstM α} {f : α → ConstM β} (hx : Preserves HeapOnly x)
    (hf : ∀ a, Preserves HeapOnly (f a)) : Preserves HeapOnly (x >>= f) :=
  .bind HeapOnly.trans hx hf

theorem heapOnly_attempt (x : Except OpError α) : Preserves HeapOnly (attempt x : ConstM α) :=
  .attempt HeapOnly.refl x

theorem heapOnly_pure (a : α) : Preserves HeapOnly (pure a : ConstM α) := .pure HeapOnly.refl a

end

theorem alloc_heapOnly (stack : List Val) (instr : AllocInstr) :
    Preserves HeapOnly (ctx.alloc stack instr) := by
  refine heapOnly_bind (.get HeapOnly.refl) fun s => ?_
  refine heapOnly_bind (heapOnly_attempt _) fun p => ?_
  refine heapOnly_bind (heapOnly_attempt _) fun object => ?_
  refine heapOnly_bind (inHeap_heapOnly allocGcUnreserved_heapOnly) fun i => ?_
  exact heapOnly_pure _

theorem evalOp_heapOnly (stack : List Val) (op : ConstOp) :
    Preserves HeapOnly (ctx.evalOp stack op) := by
  have hbin : ∀ {α : Type} (unwrap : Val → Except OpError α) (f : α → α → Val),
      Preserves HeapOnly (do
        let (b, stack) ← attempt (popVal stack)
        let b ← attempt (unwrap b)
        let (a, stack) ← attempt (popVal stack)
        let a ← attempt (unwrap a)
        return f a b :: stack : ConstM (List Val)) := by
    intro α unwrap f
    refine heapOnly_bind (heapOnly_attempt _) fun p => ?_
    refine heapOnly_bind (heapOnly_attempt _) fun b => ?_
    refine heapOnly_bind (heapOnly_attempt _) fun p => ?_
    exact heapOnly_bind (heapOnly_attempt _) fun a => heapOnly_pure _
  cases op with
  | i32 v => exact heapOnly_pure _
  | i64 v => exact heapOnly_pure _
  | f32 bits => exact heapOnly_pure _
  | f64 bits => exact heapOnly_pure _
  | refNull heap => exact heapOnly_pure _
  | refFunc i => exact heapOnly_bind (heapOnly_attempt _) fun f => heapOnly_pure _
  | globalGet g =>
    refine heapOnly_bind (.get HeapOnly.refl) fun s => ?_
    refine heapOnly_bind (heapOnly_attempt _) fun handle => ?_
    exact heapOnly_bind (heapOnly_attempt _) fun v => heapOnly_pure _
  | i32Bin op => exact hbin Val.unwrapI32 fun a b => .i32 (op.apply a b)
  | i64Bin op => exact hbin Val.unwrapI64 fun a b => .i64 (op.apply a b)
  | refI31 =>
    refine heapOnly_bind (heapOnly_attempt _) fun p => ?_
    exact heapOnly_bind (heapOnly_attempt _) fun v => heapOnly_pure _
  | structNew ty => exact ctx.alloc_heapOnly stack _
  | structNewDefault ty => exact ctx.alloc_heapOnly stack _
  | arrayNew ty => exact ctx.alloc_heapOnly stack _
  | arrayNewDefault ty => exact ctx.alloc_heapOnly stack _
  | arrayNewFixed ty n => exact ctx.alloc_heapOnly stack _
  | anyConvertExtern =>
    refine heapOnly_bind (heapOnly_attempt _) fun p => ?_
    exact heapOnly_bind (inHeap_heapOnly anyConvertExtern_heapOnly) fun v => heapOnly_pure _
  | externConvertAny =>
    refine heapOnly_bind (heapOnly_attempt _) fun p => ?_
    exact heapOnly_bind (inHeap_heapOnly externConvertAny_heapOnly) fun v => heapOnly_pure _

theorem evalOps_heapOnly (e : ConstExpr) (stack : List Val) :
    Preserves HeapOnly (ctx.evalOps e stack) := by
  induction e generalizing stack with
  | nil => exact heapOnly_pure stack
  | cons op e ih => exact heapOnly_bind (ctx.evalOp_heapOnly stack op) ih

/-- An evaluation changes the heap alone, whether it fails or not. -/
theorem evalConst_heapOnly (e : ConstExpr) : Preserves HeapOnly (ctx.evalConst e) :=
  heapOnly_bind (ctx.evalOps_heapOnly e []) fun _ =>
    heapOnly_bind (heapOnly_attempt _) fun _ => heapOnly_pure _

theorem evalConstRef_heapOnly (e : ConstExpr) : Preserves HeapOnly (ctx.evalConstRef e) :=
  heapOnly_bind (ctx.evalConst_heapOnly e) fun _ => heapOnly_attempt _

theorem elemRefs_heapOnly (items : ElemItems) : Preserves HeapOnly (ctx.elemRefs items) := by
  cases items with
  | funcs indices =>
    exact .collect HeapOnly.refl HeapOnly.trans fun i _ =>
      heapOnly_bind (heapOnly_attempt _) fun _ => heapOnly_pure _
  | exprs es =>
    exact .collect HeapOnly.refl HeapOnly.trans fun e _ => ctx.evalConstRef_heapOnly e

/-! ## Where a function reference comes from -/

/-- A function is in the index space, or a global of the index space holds it. -/
def Names (globals : List Val) (f : ℕ) : Prop :=
  f ∈ ctx.funcs ∨ ∃ g ∈ ctx.globals, globals[g]? = some (.funcRef (some f))

def NamesVal (globals : List Val) (v : Val) : Prop :=
  ∀ f, v = .funcRef (some f) → ctx.Names globals f

variable {ctx}

variable {rest stack stack' : List Val} {s s' : StoreInner} {v : Val}

theorem namesVal_of_ne {globals : List Val} (h : ∀ f, v ≠ .funcRef (some f)) :
    ctx.NamesVal globals v := fun f hf => absurd hf (h f)

theorem popVal_mem (h : popVal stack = .ok (v, rest)) : stack = v :: rest := by
  cases stack with
  | nil => cases h
  | cons w stack =>
    obtain ⟨rfl, rfl⟩ := Prod.mk.inj (Except.ok.inj h)
    rfl

theorem popValues_suffix {n : ℕ} {vs : List Val} (h : popValues n stack = .ok (vs, rest)) :
    rest <:+ stack := by
  induction n generalizing stack vs with
  | zero =>
    obtain ⟨-, rfl⟩ := Prod.mk.inj (Except.ok.inj h)
    exact List.suffix_refl _
  | succ n ih =>
    obtain ⟨⟨v, stack'⟩, hv, h⟩ := Fallible.bind_ok h
    obtain ⟨⟨ws, stack''⟩, hws, h⟩ := Fallible.bind_ok h
    obtain ⟨-, rfl⟩ := Prod.mk.inj (Except.ok.inj h)
    rw [popVal_mem hv]
    exact (ih hws).trans (List.suffix_cons v stack')

theorem operands_suffix {instr : AllocInstr} {op : AllocOp}
    (h : ctx.operands s stack instr = .ok (op, rest)) : rest <:+ stack := by
  cases instr with
  | structNew ty =>
    obtain ⟨_, -, h⟩ := Fallible.bind_ok h
    obtain ⟨_, -, h⟩ := Fallible.bind_ok h
    obtain ⟨⟨_, _⟩, hvs, h⟩ := Fallible.bind_ok h
    obtain ⟨-, rfl⟩ := Prod.mk.inj (Except.ok.inj h)
    exact popValues_suffix hvs
  | structNewDefault ty =>
    obtain ⟨_, -, h⟩ := Fallible.bind_ok h
    obtain ⟨_, -, h⟩ := Fallible.bind_ok h
    obtain ⟨-, rfl⟩ := Prod.mk.inj (Except.ok.inj h)
    exact List.suffix_refl _
  | arrayNew ty =>
    obtain ⟨_, -, h⟩ := Fallible.bind_ok h
    obtain ⟨_, -, h⟩ := Fallible.bind_ok h
    obtain ⟨⟨_, _⟩, hcount, h⟩ := Fallible.bind_ok h
    obtain ⟨_, -, h⟩ := Fallible.bind_ok h
    obtain ⟨_, -, h⟩ := Fallible.bind_ok h
    obtain ⟨_, -, h⟩ := Fallible.bind_ok h
    obtain ⟨⟨_, _⟩, hfill, h⟩ := Fallible.bind_ok h
    obtain ⟨-, rfl⟩ := Prod.mk.inj (Except.ok.inj h)
    rw [popVal_mem hcount, popVal_mem hfill]
    exact (List.suffix_cons _ _).trans (List.suffix_cons _ _)
  | arrayNewDefault ty =>
    obtain ⟨_, -, h⟩ := Fallible.bind_ok h
    obtain ⟨_, -, h⟩ := Fallible.bind_ok h
    obtain ⟨⟨_, _⟩, hcount, h⟩ := Fallible.bind_ok h
    obtain ⟨_, -, h⟩ := Fallible.bind_ok h
    obtain ⟨_, -, h⟩ := Fallible.bind_ok h
    obtain ⟨_, -, h⟩ := Fallible.bind_ok h
    obtain ⟨-, rfl⟩ := Prod.mk.inj (Except.ok.inj h)
    rw [popVal_mem hcount]
    exact List.suffix_cons _ _
  | arrayNewFixed ty n =>
    obtain ⟨_, -, h⟩ := Fallible.bind_ok h
    obtain ⟨_, -, h⟩ := Fallible.bind_ok h
    obtain ⟨⟨_, _⟩, hvs, h⟩ := Fallible.bind_ok h
    obtain ⟨-, rfl⟩ := Prod.mk.inj (Except.ok.inj h)
    exact popValues_suffix hvs
  | arrayNewData ty data => cases h
  | arrayNewElem ty elem => cases h
  | throw tag => cases h

theorem indexed_ok {α : Type} {l : List α} {i : ℕ} {a : α} (h : indexed l i = .ok a) :
    l[i]? = some a := by
  unfold indexed at h
  split at h
  · rename_i hget
    rw [hget, Except.ok.inj h]
  · cases h

theorem inHeap_bind_ok {α β : Type} {f : StoreInner → Except StoreError (α × StoreInner)}
    {k : α → ConstM β} {b : β} (h : (inHeap f >>= k) s = .ok b s') :
    ∃ a s₁, f s = .ok (a, s₁) ∧ k a s₁ = .ok b s' := by
  rw [bind_run] at h
  unfold inHeap at h
  rcases hf : f s with e | ⟨a, s₁⟩
  · rw [hf] at h
    cases h
  · rw [hf] at h
    exact ⟨a, s₁, rfl, h⟩

theorem alloc_ok {instr : AllocInstr} (h : ctx.alloc stack instr s = .ok stack' s') :
    ∃ op rest object i, ctx.operands s stack instr = .ok (op, rest) ∧
      s.buildObject op = .ok object ∧ s.allocGcUnreserved object = .ok (i, s') ∧
      stack' = .anyRef (some i) :: rest := by
  obtain ⟨⟨op, rest⟩, hop, h⟩ := attempt_bind_ok (get_bind_ok h)
  obtain ⟨object, hobject, h⟩ := attempt_bind_ok h
  obtain ⟨i, s₁, hplace, h⟩ := inHeap_bind_ok h
  obtain ⟨rfl, rfl⟩ := EStateM.Result.ok.inj h
  exact ⟨op, rest, object, i, hop, inStore_ok hobject, hplace, rfl⟩

theorem anyConvertExtern_funcRef {f : ℕ} (h : s.anyConvertExtern v = .ok (.funcRef (some f), s')) :
    v = .funcRef (some f) := by
  unfold StoreInner.anyConvertExtern at h
  split at h
  · cases h
  · rename_i idx
    rcases hidx : s.anyConvertIndex idx with e | ⟨handle, s₁⟩
    · rw [hidx] at h
      cases h
    · rw [hidx] at h
      cases h
  · exact (Prod.mk.inj (Except.ok.inj h)).1

theorem externConvertAny_funcRef {f : ℕ} (h : s.externConvertAny v = .ok (.funcRef (some f), s')) :
    v = .funcRef (some f) := by
  unfold StoreInner.externConvertAny at h
  split at h
  · cases h
  · rename_i handle
    rcases hidx : s.externConvertHandle handle with e | ⟨i, s₁⟩
    · rw [hidx] at h
      cases h
    · rw [hidx] at h
      cases h
  · exact (Prod.mk.inj (Except.ok.inj h)).1

/-- What an op pushes holds no function that is not named. -/
theorem evalOp_names {op : ConstOp} (hstack : ∀ v ∈ stack, ctx.NamesVal s.globals v)
    (h : ctx.evalOp stack op s = .ok stack' s') : ∀ v ∈ stack', ctx.NamesVal s.globals v := by
  have hcons : ∀ {v : Val} {rest : List Val}, ctx.NamesVal s.globals v → rest <:+ stack →
      ∀ w ∈ v :: rest, ctx.NamesVal s.globals w := by
    intro v rest hv hrest w hw
    rcases List.mem_cons.mp hw with rfl | hw
    · exact hv
    · exact hstack w (hrest.subset hw)
  have halloc : ∀ instr, ctx.alloc stack instr s = .ok stack' s' →
      ∀ v ∈ stack', ctx.NamesVal s.globals v := by
    intro instr h
    obtain ⟨_, _, _, _, hop, -, -, rfl⟩ := alloc_ok h
    exact hcons (namesVal_of_ne fun _ h => nomatch h) (operands_suffix hop)
  have hbin : ∀ {α : Type} (unwrap : Val → Except OpError α) (f : α → α → Val),
      (∀ a b g, f a b ≠ .funcRef (some g)) →
      (do
        let (b, stack) ← attempt (popVal stack)
        let b ← attempt (unwrap b)
        let (a, stack) ← attempt (popVal stack)
        let a ← attempt (unwrap a)
        return f a b :: stack : ConstM (List Val)) s = .ok stack' s' →
      ∀ v ∈ stack', ctx.NamesVal s.globals v := by
    intro α unwrap f hf h
    obtain ⟨⟨b, rest⟩, hb, h⟩ := attempt_bind_ok h
    obtain ⟨b', -, h⟩ := attempt_bind_ok h
    obtain ⟨⟨a, rest'⟩, ha, h⟩ := attempt_bind_ok h
    obtain ⟨a', -, h⟩ := attempt_bind_ok h
    obtain ⟨rfl, -⟩ := EStateM.Result.ok.inj h
    refine hcons (namesVal_of_ne (hf a' b')) ?_
    rw [popVal_mem hb, popVal_mem ha]
    exact (List.suffix_cons _ _).trans (List.suffix_cons _ _)
  have hconst : ∀ v : Val, (∀ f, v ≠ .funcRef (some f)) →
      (pure (v :: stack) : ConstM (List Val)) s = .ok stack' s' →
      ∀ w ∈ stack', ctx.NamesVal s.globals w := by
    intro v hv h
    obtain ⟨rfl, -⟩ := EStateM.Result.ok.inj h
    exact hcons (namesVal_of_ne hv) (List.suffix_refl stack)
  cases op with
  | i32 v => exact hconst (.i32 v) (fun _ h => nomatch h) h
  | i64 v => exact hconst (.i64 v) (fun _ h => nomatch h) h
  | f32 bits => exact hconst (.f32 bits) (fun _ h => nomatch h) h
  | f64 bits => exact hconst (.f64 bits) (fun _ h => nomatch h) h
  | refNull heap =>
    refine hconst (refVal (refKind heap) none) (fun f hf => ?_) h
    cases hk : refKind heap <;> rw [hk] at hf <;> cases hf
  | refFunc i =>
    obtain ⟨f, hf, h⟩ := attempt_bind_ok h
    obtain ⟨rfl, -⟩ := EStateM.Result.ok.inj h
    refine hcons (fun g hg => Or.inl ?_) (List.suffix_refl stack)
    obtain rfl : f = g := Option.some.inj (Val.funcRef.inj hg)
    exact List.mem_of_getElem? (indexed_ok hf)
  | globalGet g =>
    obtain ⟨handle, hhandle, h⟩ := attempt_bind_ok (get_bind_ok h)
    obtain ⟨v, hv, h⟩ := attempt_bind_ok h
    obtain ⟨rfl, -⟩ := EStateM.Result.ok.inj h
    refine hcons (fun f hf => Or.inr ⟨handle, ?_, ?_⟩) (List.suffix_refl stack)
    · exact List.mem_of_getElem? (indexed_ok hhandle)
    · rw [indexed_ok hv, hf]
  | i32Bin op =>
    exact hbin Val.unwrapI32 (fun a b => .i32 (op.apply a b)) (fun _ _ _ h => nomatch h) h
  | i64Bin op =>
    exact hbin Val.unwrapI64 (fun a b => .i64 (op.apply a b)) (fun _ _ _ h => nomatch h) h
  | refI31 =>
    obtain ⟨⟨v, rest⟩, hv, h⟩ := attempt_bind_ok h
    obtain ⟨v', -, h⟩ := attempt_bind_ok h
    obtain ⟨rfl, -⟩ := EStateM.Result.ok.inj h
    exact hcons (namesVal_of_ne fun _ h => nomatch h) (popVal_mem hv ▸ List.suffix_cons v rest)
  | structNew ty => exact halloc _ h
  | structNewDefault ty => exact halloc _ h
  | arrayNew ty => exact halloc _ h
  | arrayNewDefault ty => exact halloc _ h
  | arrayNewFixed ty n => exact halloc _ h
  | anyConvertExtern =>
    obtain ⟨⟨v, rest⟩, hv, h⟩ := attempt_bind_ok h
    obtain ⟨w, s₁, hw, h⟩ := inHeap_bind_ok h
    obtain ⟨rfl, -⟩ := EStateM.Result.ok.inj h
    have hstack' := popVal_mem hv
    refine hcons (fun f hf => ?_) (hstack' ▸ List.suffix_cons v rest)
    subst hf
    exact hstack v (hstack' ▸ List.mem_cons_self) f (anyConvertExtern_funcRef hw)
  | externConvertAny =>
    obtain ⟨⟨v, rest⟩, hv, h⟩ := attempt_bind_ok h
    obtain ⟨w, s₁, hw, h⟩ := inHeap_bind_ok h
    obtain ⟨rfl, -⟩ := EStateM.Result.ok.inj h
    have hstack' := popVal_mem hv
    refine hcons (fun f hf => ?_) (hstack' ▸ List.suffix_cons v rest)
    subst hf
    exact hstack v (hstack' ▸ List.mem_cons_self) f (externConvertAny_funcRef hw)

theorem evalOps_names {e : ConstExpr} (hstack : ∀ v ∈ stack, ctx.NamesVal s.globals v)
    (h : ctx.evalOps e stack s = .ok stack' s') : ∀ v ∈ stack', ctx.NamesVal s.globals v := by
  induction e generalizing s stack with
  | nil =>
    obtain ⟨rfl, -⟩ := EStateM.Result.ok.inj h
    exact hstack
  | cons op e ih =>
    obtain ⟨stack₁, s₁, hop, h⟩ := bind_ok h
    have hkept := ctx.evalOp_heapOnly stack op s
    rw [hop] at hkept
    have hglobals : s₁.globals = s.globals := hkept.globals
    have hstack₁ := evalOp_names hstack hop
    rw [← hglobals] at hstack₁ ⊢
    exact ih hstack₁ h

/-- The value of an expression holds no function that is not named. -/
theorem evalConst_names {e : ConstExpr} (h : ctx.evalConst e s = .ok v s') :
    ctx.NamesVal s.globals v := by
  obtain ⟨stack, s₁, hstack, h⟩ := bind_ok h
  obtain ⟨⟨w, rest⟩, hpop, h⟩ := attempt_bind_ok h
  obtain ⟨rfl, -⟩ := EStateM.Result.ok.inj h
  have hall := evalOps_names (fun v hv => absurd hv List.not_mem_nil) hstack
  exact hall w (popVal_mem hpop ▸ List.mem_cons_self)

theorem evalConstRef_names {e : ConstExpr} {f : ℕ}
    (h : ctx.evalConstRef e s = .ok (.func (some f)) s') : ctx.Names s.globals f := by
  obtain ⟨v, s₁, hv, h⟩ := bind_ok h
  obtain ⟨hv', -⟩ := attempt_ok h
  refine evalConst_names hv f ?_
  cases v <;> cases hv'
  rfl

/-- The references of a segment hold no function that is not named. -/
theorem elemRefs_names {items : ElemItems} {refs : List Ref}
    (h : ctx.elemRefs items s = .ok refs s') :
    ∀ f, .func (some f) ∈ refs → ctx.Names s.globals f := by
  cases items with
  | funcs indices =>
    induction indices generalizing s s' refs with
    | nil =>
      obtain ⟨rfl, -⟩ := EStateM.Result.ok.inj h
      exact fun f hf => absurd hf List.not_mem_nil
    | cons i indices ih =>
      obtain ⟨r, s₁, hr, h⟩ := bind_ok h
      obtain ⟨rs, s₂, hrs, h⟩ := bind_ok h
      obtain ⟨rfl, -⟩ := EStateM.Result.ok.inj h
      obtain ⟨g, hg, hr⟩ := attempt_bind_ok hr
      obtain ⟨rfl, rfl⟩ := EStateM.Result.ok.inj hr
      intro f hf
      rcases List.mem_cons.mp hf with hf | hf
      · obtain rfl : f = g := Option.some.inj (Ref.func.inj hf)
        exact Or.inl (List.mem_of_getElem? (indexed_ok hg))
      · exact ih hrs f hf
  | exprs es =>
    induction es generalizing s s' refs with
    | nil =>
      obtain ⟨rfl, -⟩ := EStateM.Result.ok.inj h
      exact fun f hf => absurd hf List.not_mem_nil
    | cons e es ih =>
      obtain ⟨r, s₁, hr, h⟩ := bind_ok h
      obtain ⟨rs, s₂, hrs, h⟩ := bind_ok h
      obtain ⟨rfl, -⟩ := EStateM.Result.ok.inj h
      have hkept := ctx.evalConstRef_heapOnly e s
      rw [hr] at hkept
      have hglobals : s₁.globals = s.globals := hkept.globals
      intro f hf
      rcases List.mem_cons.mp hf with hf | hf
      · exact evalConstRef_names (hf ▸ hr)
      · exact hglobals ▸ ih hrs f hf

end ConstCtx

end SubmilliWasm
