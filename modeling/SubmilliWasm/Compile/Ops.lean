/-
# Source operators and internal ops

The two instruction sets the compile pass sits between: the WebAssembly operators
`wasmparser` decodes, one at a time, and the flat `Op` stream the interpreter runs
(`src/module/op.rs`, `src/module/op_types.rs`, `src/module/handler.rs`).

A straight-line operator lowers to the op of the same name, so both sides share
`PlainOp`; it takes the type of its memory immediate as a parameter, since that is the
one immediate the pass rewrites.  The default build is modelled: no `simd`, no `async`.
-/
import SubmilliWasm.Canon.Keys

namespace SubmilliWasm

/-! ## Immediates -/

/-- A block type as the binary writes it. -/
inductive BlockType where
  | empty
  | type (v : IrVal)
  | funcType (i : ℕ)
  deriving DecidableEq, Repr

/-- A memory immediate with its full offset: `wasmparser::MemArg` less the alignment, and the
pooled `BigMemArg`. -/
structure BigMemArg where
  memory : ℕ
  offset : ℕ
  deriving DecidableEq, Repr

/-- The compact immediate of an emitted op. -/
structure MemArg where
  memory : ℕ
  offset : ℕ
  deriving DecidableEq, Repr

/-- The sentinel offset `u32::MAX` of an immediate that lives in the function's pool. -/
def bigMemarg : ℕ := 2 ^ 32 - 1

/-- A resolved branch edge: the top `keep` operands move down over `pop` discarded ones. -/
structure BranchTarget where
  ip : ℕ
  keep : ℕ
  pop : ℕ
  deriving DecidableEq, Repr

/-- The i32 relational operators, which are also the comparisons a fused branch can hold. -/
inductive CmpKind where
  | eq | ne | ltS | ltU | gtS | gtU | leS | leU | geS | geU
  deriving DecidableEq, Repr

/-- The numeric operators with one operand. -/
inductive NumUnop where
  | i32Eqz | i32Clz | i32Ctz | i32Popcnt | i64Eqz | i64Clz | i64Ctz | i64Popcnt
  | f32Abs | f32Neg | f32Ceil | f32Floor | f32Trunc | f32Nearest | f32Sqrt
  | f64Abs | f64Neg | f64Ceil | f64Floor | f64Trunc | f64Nearest | f64Sqrt
  | i32WrapI64 | i32TruncF32S | i32TruncF32U | i32TruncF64S | i32TruncF64U
  | i64ExtendI32S | i64ExtendI32U | i64TruncF32S | i64TruncF32U | i64TruncF64S | i64TruncF64U
  | f32ConvertI32S | f32ConvertI32U | f32ConvertI64S | f32ConvertI64U | f32DemoteF64
  | f64ConvertI32S | f64ConvertI32U | f64ConvertI64S | f64ConvertI64U | f64PromoteF32
  | i32ReinterpretF32 | i64ReinterpretF64 | f32ReinterpretI32 | f64ReinterpretI64
  | i32Extend8S | i32Extend16S | i64Extend8S | i64Extend16S | i64Extend32S
  | i32TruncSatF32S | i32TruncSatF32U | i32TruncSatF64S | i32TruncSatF64U
  | i64TruncSatF32S | i64TruncSatF32U | i64TruncSatF64S | i64TruncSatF64U
  deriving DecidableEq, Repr

/-- The numeric operators with two operands, less the i32 comparisons of `CmpKind`. -/
inductive NumBinop where
  | i32Add | i32Sub | i32Mul | i32DivS | i32DivU | i32RemS | i32RemU | i32And | i32Or | i32Xor
  | i32Shl | i32ShrS | i32ShrU | i32Rotl | i32Rotr
  | i64Eq | i64Ne | i64LtS | i64LtU | i64GtS | i64GtU | i64LeS | i64LeU | i64GeS | i64GeU
  | i64Add | i64Sub | i64Mul | i64DivS | i64DivU | i64RemS | i64RemU | i64And | i64Or | i64Xor
  | i64Shl | i64ShrS | i64ShrU | i64Rotl | i64Rotr
  | f32Eq | f32Ne | f32Lt | f32Gt | f32Le | f32Ge
  | f32Add | f32Sub | f32Mul | f32Div | f32Min | f32Max | f32Copysign
  | f64Eq | f64Ne | f64Lt | f64Gt | f64Le | f64Ge
  | f64Add | f64Sub | f64Mul | f64Div | f64Min | f64Max | f64Copysign
  deriving DecidableEq, Repr

inductive LoadKind where
  | i32 | i64 | f32 | f64 | i32x8S | i32x8U | i32x16S | i32x16U
  | i64x8S | i64x8U | i64x16S | i64x16U | i64x32S | i64x32U
  deriving DecidableEq, Repr

inductive StoreKind where
  | i32 | i64 | f32 | f64 | i32x8 | i32x16 | i64x8 | i64x16 | i64x32
  deriving DecidableEq, Repr

/-- How a field or element is read: as it is, or widened from a packed one. -/
inductive Extension where
  | whole | signed | unsigned
  deriving DecidableEq, Repr

/-! ## Straight-line operators -/

/-- The operators that neither branch nor call; `M` is the memory immediate. -/
inductive PlainOp (M : Type) where
  | nop
  | drop
  | select
  | localGet (i : ℕ)
  | localSet (i : ℕ)
  | localTee (i : ℕ)
  | globalGet (g : ℕ)
  | globalSet (g : ℕ)
  | i32Const (bits : BitVec 32)
  | i64Const (bits : BitVec 64)
  | f32Const (bits : BitVec 32)
  | f64Const (bits : BitVec 64)
  | relop (k : CmpKind)
  | unop (u : NumUnop)
  | binop (b : NumBinop)
  | load (k : LoadKind) (m : M)
  | store (k : StoreKind) (m : M)
  | memorySize (mem : ℕ)
  | memoryGrow (mem : ℕ)
  | memoryInit (data mem : ℕ)
  | dataDrop (data : ℕ)
  | memoryCopy (dst src : ℕ)
  | memoryFill (mem : ℕ)
  | tableInit (elem table : ℕ)
  | tableCopy (dst src : ℕ)
  | elemDrop (elem : ℕ)
  | tableGet (table : ℕ)
  | tableSet (table : ℕ)
  | tableSize (table : ℕ)
  | tableGrow (table : ℕ)
  | tableFill (table : ℕ)
  | refNull (heap : IrHeap)
  | refFunc (f : ℕ)
  | refIsNull
  | refAsNonNull
  | structNew (ty : ℕ)
  | structNewDefault (ty : ℕ)
  | structGet (ty field : ℕ) (ext : Extension)
  | structSet (ty field : ℕ)
  | arrayNew (ty : ℕ)
  | arrayNewDefault (ty : ℕ)
  | arrayNewFixed (ty n : ℕ)
  | arrayNewData (ty data : ℕ)
  | arrayNewElem (ty elem : ℕ)
  | arrayGet (ty : ℕ) (ext : Extension)
  | arraySet (ty : ℕ)
  | arrayLen
  | arrayFill (ty : ℕ)
  | arrayCopy (dst src : ℕ)
  | arrayInitData (ty data : ℕ)
  | arrayInitElem (ty elem : ℕ)
  | refI31
  | i31GetS
  | i31GetU
  | refTest (ty : IrHeap) (nullable : Bool)
  | refCast (ty : IrHeap) (nullable : Bool)
  | refEq
  | anyConvertExtern
  | externConvertAny
  deriving DecidableEq, Repr

/-- Rewrite the memory immediate, where there is one. -/
def PlainOp.mapMem {M N : Type} (f : M → N) : PlainOp M → PlainOp N
  | .nop => .nop
  | .drop => .drop
  | .select => .select
  | .localGet i => .localGet i
  | .localSet i => .localSet i
  | .localTee i => .localTee i
  | .globalGet g => .globalGet g
  | .globalSet g => .globalSet g
  | .i32Const b => .i32Const b
  | .i64Const b => .i64Const b
  | .f32Const b => .f32Const b
  | .f64Const b => .f64Const b
  | .relop k => .relop k
  | .unop u => .unop u
  | .binop b => .binop b
  | .load k m => .load k (f m)
  | .store k m => .store k (f m)
  | .memorySize m => .memorySize m
  | .memoryGrow m => .memoryGrow m
  | .memoryInit d m => .memoryInit d m
  | .dataDrop d => .dataDrop d
  | .memoryCopy d s => .memoryCopy d s
  | .memoryFill m => .memoryFill m
  | .tableInit e t => .tableInit e t
  | .tableCopy d s => .tableCopy d s
  | .elemDrop e => .elemDrop e
  | .tableGet t => .tableGet t
  | .tableSet t => .tableSet t
  | .tableSize t => .tableSize t
  | .tableGrow t => .tableGrow t
  | .tableFill t => .tableFill t
  | .refNull h => .refNull h
  | .refFunc g => .refFunc g
  | .refIsNull => .refIsNull
  | .refAsNonNull => .refAsNonNull
  | .structNew ty => .structNew ty
  | .structNewDefault ty => .structNewDefault ty
  | .structGet ty i e => .structGet ty i e
  | .structSet ty i => .structSet ty i
  | .arrayNew ty => .arrayNew ty
  | .arrayNewDefault ty => .arrayNewDefault ty
  | .arrayNewFixed ty n => .arrayNewFixed ty n
  | .arrayNewData ty d => .arrayNewData ty d
  | .arrayNewElem ty e => .arrayNewElem ty e
  | .arrayGet ty e => .arrayGet ty e
  | .arraySet ty => .arraySet ty
  | .arrayLen => .arrayLen
  | .arrayFill ty => .arrayFill ty
  | .arrayCopy d s => .arrayCopy d s
  | .arrayInitData ty d => .arrayInitData ty d
  | .arrayInitElem ty e => .arrayInitElem ty e
  | .refI31 => .refI31
  | .i31GetS => .i31GetS
  | .i31GetU => .i31GetU
  | .refTest ty n => .refTest ty n
  | .refCast ty n => .refCast ty n
  | .refEq => .refEq
  | .anyConvertExtern => .anyConvertExtern
  | .externConvertAny => .externConvertAny

/-- The memory immediate an operator carries. -/
def PlainOp.mem? {M : Type} : PlainOp M → Option M
  | .load _ m => some m
  | .store _ m => some m
  | _ => none

theorem PlainOp.mapMem_mapMem {M N K : Type} (f : M → N) (g : N → K) (p : PlainOp M) :
    (p.mapMem f).mapMem g = p.mapMem (g ∘ f) := by
  cases p <;> rfl

/-- Only the immediate an operator carries matters to `mapMem`. -/
theorem PlainOp.mapMem_eq_self {M : Type} {f : M → M} {p : PlainOp M}
    (h : ∀ m, p.mem? = some m → f m = m) : p.mapMem f = p := by
  cases p with
  | load k m => exact congrArg (PlainOp.load k) (h m rfl)
  | store k m => exact congrArg (PlainOp.store k) (h m rfl)
  | _ => rfl

/-! ## Control operators -/

/-- The callee of a call: a function index, a table entry, or a function reference. -/
inductive CallTarget where
  | func (f : ℕ)
  | indirect (typeIdx table : ℕ)
  | ref (typeIdx : ℕ)
  deriving DecidableEq, Repr

/-- The operators after which the rest of the block is dead. -/
inductive Jump where
  | br (label : ℕ)
  | brTable (cases : List ℕ) (default : ℕ)
  | ret
  | unreachable
  | throw (tag : ℕ)
  | throwRef
  | returnCall (c : CallTarget)
  deriving DecidableEq, Repr

/-- The conditional branches; `brOnCast` holds the target of the cast and, in `fail`, whether
the branch is taken when the cast fails. -/
inductive CondBr where
  | brIf (label : ℕ)
  | brOnNull (label : ℕ)
  | brOnNonNull (label : ℕ)
  | brOnCast (label : ℕ) (ty : IrHeap) (nullable fail : Bool)
  deriving DecidableEq, Repr

def CondBr.label : CondBr → ℕ
  | .brIf l => l
  | .brOnNull l => l
  | .brOnNonNull l => l
  | .brOnCast l _ _ _ => l

inductive Catch where
  | one (tag label : ℕ)
  | oneRef (tag label : ℕ)
  | all (label : ℕ)
  | allRef (label : ℕ)
  deriving DecidableEq, Repr

/-- The kind of a control frame. -/
inductive BlockKind where
  | block
  | loop
  | if_
  | tryTable
  deriving DecidableEq, Repr

/-- One decoded operator. -/
inductive Operator where
  | plain (p : PlainOp BigMemArg)
  | block (bt : BlockType)
  | loop (bt : BlockType)
  | if_ (bt : BlockType)
  | else_
  | end_
  | tryTable (bt : BlockType) (catches : List Catch)
  | jump (j : Jump)
  | cond (c : CondBr)
  | call (c : CallTarget)
  deriving DecidableEq, Repr

/-! ## The internal instruction set -/

/-- One internal instruction.  `brOnCast` keeps the pool index and the `nullable` bit, which the
source packs into one word, as two fields. -/
inductive Op where
  | plain (p : PlainOp MemArg)
  | unreachable
  | br (t : BranchTarget)
  | brIf (t : BranchTarget)
  | brIfNot (t : BranchTarget)
  | brIfCmp (kind : CmpKind) (negate : Bool) (target : BranchTarget)
  | brTable (base len : ℕ)
  | call (c : CallTarget)
  | returnCall (c : CallTarget)
  | brOnNull (t : BranchTarget)
  | brOnNonNull (t : BranchTarget)
  | brOnCast (ty : IrHeap) (pool : ℕ) (nullable fail : Bool)
  | throw (tag : ℕ)
  | throwRef
  deriving DecidableEq, Repr

/-- One catch clause of the exception table. -/
structure HandlerRec where
  tag : Option ℕ
  restoreHeight : ℕ
  payloadArgs : Bool
  payloadRef : Bool
  landingIp : ℕ
  deriving DecidableEq, Repr

/-- The clauses of one `try_table`, keyed by the range `[startIp, endIp)` of its body. -/
structure HandlerSpan where
  startIp : ℕ
  endIp : ℕ
  clauses : List HandlerRec
  deriving DecidableEq, Repr

/-- A function compiled to internal bytecode.  The source keeps spans into module-wide arenas
and addresses them relative to the span's start; the streams here are the spans' contents. -/
structure CompiledFunc where
  ops : List Op
  typeIdx : ℕ
  nParams : ℕ
  nResults : ℕ
  localTypes : List IrVal
  maxOperands : ℕ
  handlers : List HandlerSpan
  brTables : List BranchTarget
  bigMemargs : List BigMemArg
  deriving DecidableEq, Repr

end SubmilliWasm
