/-
# Integer instructions

The integer arms of the numeric dispatch (`src/exec/numeric.rs`), over the scalar operands of the
running frame (`src/exec/stack.rs`, `src/exec/arith.rs`).  A cell has 8 bytes, or 16 where vectors
are built in.

What an instruction does is compared with the operator the specification gives it: the operands are
read at their types, and the cell pushed has the result and nothing above it (`Semantics.Meets`).  A
panic of the source's arithmetic is an outcome of its own here, so that no instruction panics.
-/
import SubmilliWasm.Exec.Stack
import SubmilliWasm.Lib.WasmNumerics

namespace SubmilliWasm.Numeric

open WasmNumerics

/-! ## Scalar operands -/

/-- Whether vectors are built in. -/
inductive SimdFeature where
  | off
  | on
  deriving DecidableEq, Repr

/-- The bits of a cell (`SLOT_BYTES`). -/
def SimdFeature.slotBits : SimdFeature → ℕ
  | .off => 64
  | .on => 128

/-- A slot of the operand stack with cells of `n` bits. -/
structure NumSlot (n : ℕ) where
  cell : BitVec n
  tag : RefTag

/-- Why an instruction does not push a result: a trap, a panic of the source's own arithmetic, or an
operand that is not there or not a scalar. -/
inductive NumFault where
  | trap (t : NumTrap)
  | panic
  | unimplemented
  | underflow
  | referenceTag
  deriving DecidableEq, Repr

/-- Runs over the operands of the frame, the top one first. -/
abbrev NumEval (n : ℕ) : Type → Type := StateT (List (NumSlot n)) (Except NumFault)

variable {n : ℕ}

def popScalar : NumEval n (BitVec n) := fun s =>
  match s with
  | [] => .error .underflow
  | x :: s => if x.tag = .none then .ok (x.cell, s) else .error .referenceTag

def pushScalar (c : BitVec n) : NumEval n Unit := fun s => .ok ((), ⟨c, .none⟩ :: s)

/-- The top cell replaced. -/
def unopCell (f : BitVec n → BitVec n) : NumEval n Unit := fun s =>
  match s with
  | [] => .error .underflow
  | x :: s => if x.tag = .none then .ok ((), ⟨f x.cell, x.tag⟩ :: s) else .error .referenceTag

/-- The top two cells replaced by one. -/
def binopCellsTry (f : BitVec n → BitVec n → Except NumFault (BitVec n)) :
    NumEval n Unit := fun s =>
  match s with
  | b :: a :: s =>
    if a.tag = .none ∧ b.tag = .none then (f a.cell b.cell).map fun c => ((), ⟨c, a.tag⟩ :: s)
    else .error .referenceTag
  | _ => .error .underflow

def binopCells (f : BitVec n → BitVec n → BitVec n) : NumEval n Unit :=
  binopCellsTry fun a b => .ok (f a b)

/-! ## Integers in cells -/

/-- The low bytes of a cell.  A cast between the signed and the unsigned type keeps them. -/
def unwrapInt {sg : Bool} {w : ℕ} (c : BitVec n) : MachineInt sg w := ⟨c.setWidth w⟩

/-- Little-endian in the low bytes, zero above. -/
def fromInt {sg : Bool} {w : ℕ} (v : MachineInt sg w) : BitVec n := v.bits.setWidth n

def popI32 : NumEval n (MachineInt true 32) := do return unwrapInt (← popScalar)

def popI64 : NumEval n (MachineInt true 64) := do return unwrapInt (← popScalar)

def pushI32 (v : MachineInt true 32) : NumEval n Unit := pushScalar (fromInt v)

def pushI64 (v : MachineInt true 64) : NumEval n Unit := pushScalar (fromInt v)

section Operators

variable {sg : Bool} {w : ℕ}

def intUnop (f : MachineInt sg w → MachineInt sg w) : NumEval n Unit :=
  unopCell fun a => fromInt (f (unwrapInt a))

def intBinop (f : MachineInt sg w → MachineInt sg w → MachineInt sg w) : NumEval n Unit :=
  binopCells fun a b => fromInt (f (unwrapInt a) (unwrapInt b))

def intRelop (r : MachineInt sg w → MachineInt sg w → Prop) [DecidableRel r] : NumEval n Unit :=
  binopCells fun a b => fromInt (.ofBool (r (unwrapInt a) (unwrapInt b)) : MachineInt true 32)

def intTryBinop (f : MachineInt sg w → MachineInt sg w → Except NumFault (MachineInt sg w)) :
    NumEval n Unit :=
  binopCellsTry fun a b => (f (unwrapInt a) (unwrapInt b)).map fromInt

end Operators

def i32Unop (f : MachineInt true 32 → MachineInt true 32) : NumEval n Unit := intUnop f

def i64Unop (f : MachineInt true 64 → MachineInt true 64) : NumEval n Unit := intUnop f

def i32Binop (f : MachineInt true 32 → MachineInt true 32 → MachineInt true 32) : NumEval n Unit :=
  intBinop f

def u32Binop (f : MachineInt false 32 → MachineInt false 32 → MachineInt false 32) :
    NumEval n Unit :=
  intBinop f

def i64Binop (f : MachineInt true 64 → MachineInt true 64 → MachineInt true 64) : NumEval n Unit :=
  intBinop f

def u64Binop (f : MachineInt false 64 → MachineInt false 64 → MachineInt false 64) :
    NumEval n Unit :=
  intBinop f

def i32Relop (r : MachineInt true 32 → MachineInt true 32 → Prop) [DecidableRel r] :
    NumEval n Unit :=
  intRelop r

def u32Relop (r : MachineInt false 32 → MachineInt false 32 → Prop) [DecidableRel r] :
    NumEval n Unit :=
  intRelop r

def i64Relop (r : MachineInt true 64 → MachineInt true 64 → Prop) [DecidableRel r] :
    NumEval n Unit :=
  intRelop r

def u64Relop (r : MachineInt false 64 → MachineInt false 64 → Prop) [DecidableRel r] :
    NumEval n Unit :=
  intRelop r

def i32TryBinop
    (f : MachineInt true 32 → MachineInt true 32 → Except NumFault (MachineInt true 32)) :
    NumEval n Unit :=
  intTryBinop f

def u32TryBinop
    (f : MachineInt false 32 → MachineInt false 32 → Except NumFault (MachineInt false 32)) :
    NumEval n Unit :=
  intTryBinop f

def i64TryBinop
    (f : MachineInt true 64 → MachineInt true 64 → Except NumFault (MachineInt true 64)) :
    NumEval n Unit :=
  intTryBinop f

def u64TryBinop
    (f : MachineInt false 64 → MachineInt false 64 → Except NumFault (MachineInt false 64)) :
    NumEval n Unit :=
  intTryBinop f

/-! ## The dispatch -/

/-- A plain operator panics where it has no result. -/
def orPanic {α : Type} (x : Option α) : Except NumFault α :=
  match x with
  | none => .error .panic
  | some a => .ok a

def nz {sg : Bool} {w : ℕ} (b : MachineInt sg w) : Except NumFault Unit :=
  if b = .wrap 0 then .error (.trap .divByZero) else .ok ()

/-- `div_s_i32` and `div_s_i64`. -/
def divS {w : ℕ} (a b : MachineInt true w) : Except NumFault (MachineInt true w) :=
  if b = .wrap 0 then .error (.trap .divByZero)
  else if a = .wrap (MachineInt.minValue true w) ∧ b = .wrap (-1) then .error (.trap .overflow)
  else orPanic (a.div b)

def i32WrapI64 (x : MachineInt true 64) : MachineInt true 32 := x.cast

def i64ExtendI32S (x : MachineInt true 32) : MachineInt true 64 := x.cast

def i64ExtendI32U (x : MachineInt true 32) : MachineInt true 64 :=
  (x.cast : MachineInt false 32).cast

/-- The numeric opcodes from integers to integers. -/
inductive NumericOp where
  | i32Eqz | i32Eq | i32Ne | i32LtS | i32LtU | i32GtS | i32GtU | i32LeS | i32LeU | i32GeS
  | i32GeU | i32Clz | i32Ctz | i32Popcnt | i32Add | i32Sub | i32Mul | i32DivS | i32DivU | i32RemS
  | i32RemU | i32And | i32Or | i32Xor | i32Shl | i32ShrS | i32ShrU | i32Rotl | i32Rotr | i64Eqz
  | i64Eq | i64Ne | i64LtS | i64LtU | i64GtS | i64GtU | i64LeS | i64LeU | i64GeS | i64GeU
  | i64Clz | i64Ctz | i64Popcnt | i64Add | i64Sub | i64Mul | i64DivS | i64DivU | i64RemS
  | i64RemU | i64And | i64Or | i64Xor | i64Shl | i64ShrS | i64ShrU | i64Rotl | i64Rotr
  | i32WrapI64 | i64ExtendI32S | i64ExtendI32U | i32Extend8S | i32Extend16S | i64Extend8S
  | i64Extend16S | i64Extend32S
  deriving DecidableEq, Repr

def execNumeric : NumericOp → NumEval n Unit
  | .i32Eqz => i32Unop fun a => .ofBool (a = .wrap 0)
  | .i32Eq => i32Relop fun a b => a = b
  | .i32Ne => i32Relop fun a b => a ≠ b
  | .i32LtS => i32Relop fun a b => a < b
  | .i32LtU => u32Relop fun a b => a < b
  | .i32GtS => i32Relop fun a b => a > b
  | .i32GtU => u32Relop fun a b => a > b
  | .i32LeS => i32Relop fun a b => a ≤ b
  | .i32LeU => u32Relop fun a b => a ≤ b
  | .i32GeS => i32Relop fun a b => a ≥ b
  | .i32GeU => u32Relop fun a b => a ≥ b
  | .i32Clz => i32Unop fun a => .wrap a.leadingZeros
  | .i32Ctz => i32Unop fun a => .wrap a.trailingZeros
  | .i32Popcnt => i32Unop fun a => .wrap a.countOnes
  | .i32Add => i32Binop MachineInt.wrappingAdd
  | .i32Sub => i32Binop MachineInt.wrappingSub
  | .i32Mul => i32Binop MachineInt.wrappingMul
  | .i32DivS => i32TryBinop divS
  | .i32DivU => u32TryBinop fun a b => do
    nz b
    orPanic (a.div b)
  | .i32RemS => i32TryBinop fun a b => do
    nz b
    orPanic (a.wrappingRem b)
  | .i32RemU => u32TryBinop fun a b => do
    nz b
    orPanic (a.rem b)
  | .i32And => i32Binop MachineInt.and
  | .i32Or => i32Binop MachineInt.or
  | .i32Xor => i32Binop MachineInt.xor
  | .i32Shl => i32Binop fun a b => a.wrappingShl b.asU32
  | .i32ShrS => i32Binop fun a b => a.wrappingShr b.asU32
  | .i32ShrU => u32Binop fun a b => a.wrappingShr b.asU32
  | .i32Rotl => u32Binop fun a b => a.rotateLeft (b.bits.toNat % 32)
  | .i32Rotr => u32Binop fun a b => a.rotateRight (b.bits.toNat % 32)
  | .i64Eqz => do
    let a ← popI64
    pushI32 (.ofBool (a = .wrap 0))
  | .i64Eq => i64Relop fun a b => a = b
  | .i64Ne => i64Relop fun a b => a ≠ b
  | .i64LtS => i64Relop fun a b => a < b
  | .i64LtU => u64Relop fun a b => a < b
  | .i64GtS => i64Relop fun a b => a > b
  | .i64GtU => u64Relop fun a b => a > b
  | .i64LeS => i64Relop fun a b => a ≤ b
  | .i64LeU => u64Relop fun a b => a ≤ b
  | .i64GeS => i64Relop fun a b => a ≥ b
  | .i64GeU => u64Relop fun a b => a ≥ b
  | .i64Clz => i64Unop fun a => .wrap a.leadingZeros
  | .i64Ctz => i64Unop fun a => .wrap a.trailingZeros
  | .i64Popcnt => i64Unop fun a => .wrap a.countOnes
  | .i64Add => i64Binop MachineInt.wrappingAdd
  | .i64Sub => i64Binop MachineInt.wrappingSub
  | .i64Mul => i64Binop MachineInt.wrappingMul
  | .i64DivS => i64TryBinop divS
  | .i64DivU => u64TryBinop fun a b => do
    nz b
    orPanic (a.div b)
  | .i64RemS => i64TryBinop fun a b => do
    nz b
    orPanic (a.wrappingRem b)
  | .i64RemU => u64TryBinop fun a b => do
    nz b
    orPanic (a.rem b)
  | .i64And => i64Binop MachineInt.and
  | .i64Or => i64Binop MachineInt.or
  | .i64Xor => i64Binop MachineInt.xor
  | .i64Shl => i64Binop fun a b => a.wrappingShl b.asU32
  | .i64ShrS => i64Binop fun a b => a.wrappingShr b.asU32
  | .i64ShrU => u64Binop fun a b => a.wrappingShr b.asU32
  | .i64Rotl => u64Binop fun a b => a.rotateLeft (b.bits.toNat % 64)
  | .i64Rotr => u64Binop fun a b => a.rotateRight (b.bits.toNat % 64)
  | .i32WrapI64 => do
    let x ← popI64
    pushI32 (i32WrapI64 x)
  | .i64ExtendI32S => do
    let x ← popI32
    pushI64 (i64ExtendI32S x)
  | .i64ExtendI32U => do
    let x ← popI32
    pushI64 (i64ExtendI32U x)
  | .i32Extend8S => i32Unop fun a => (a.cast : MachineInt true 8).cast
  | .i32Extend16S => i32Unop fun a => (a.cast : MachineInt true 16).cast
  | .i64Extend8S => i64Unop fun a => (a.cast : MachineInt true 8).cast
  | .i64Extend16S => i64Unop fun a => (a.cast : MachineInt true 16).cast
  | .i64Extend32S => i64Unop fun a => (a.cast : MachineInt true 32).cast

/-! ## What the specification says -/

inductive NumType where
  | i32
  | i64
  | v128
  deriving DecidableEq, Repr

def NumType.width : NumType → ℕ
  | .i32 => 32
  | .i64 => 64
  | .v128 => 128

/-- The number an operand of a type stands for. -/
def NumType.read (t : NumType) (c : BitVec n) : ℕ := c.toNat % 2 ^ t.width

/-- The operator of an instruction, on the numbers its operands stand for.  One that is relaxed
allows several results, and `trapping` ones may have none. -/
inductive Semantics where
  | constant (r : NumType) (v : ℕ)
  | unary (p r : NumType) (f : ℕ → ℕ)
  | binary (p q r : NumType) (f : ℕ → ℕ → ℕ)
  | ternary (p q o r : NumType) (f : ℕ → ℕ → ℕ → ℕ)
  | trapping (p : NumType) (f : ℕ → ℕ → Except NumTrap ℕ)
  | relaxedBinary (p q r : NumType) (allowed : ℕ → ℕ → ℕ → Prop)
  | relaxedTernary (p q o r : NumType) (allowed : ℕ → ℕ → ℕ → ℕ → Prop)

/-- A run pushed a number of a type on the operands `s`. -/
def Pushed (out : Except NumFault (Unit × List (NumSlot n))) (r : NumType) (v : ℕ)
    (s : List (NumSlot n)) : Prop :=
  v < 2 ^ r.width ∧ ∃ c : BitVec n, c.toNat = v ∧ out = .ok ((), ⟨c, .none⟩ :: s)

/-- On all scalar operands, the first one lowest, a run does what the operator says. -/
def Semantics.Meets (run : NumEval n Unit) : Semantics → Prop
  | .constant r v => ∀ s, Pushed (run s) r v s
  | .unary p r f => ∀ a s, Pushed (run (⟨a, .none⟩ :: s)) r (f (p.read a)) s
  | .binary p q r f => ∀ a b s,
    Pushed (run (⟨b, .none⟩ :: ⟨a, .none⟩ :: s)) r (f (p.read a) (q.read b)) s
  | .ternary p q o r f => ∀ a b c s,
    Pushed (run (⟨c, .none⟩ :: ⟨b, .none⟩ :: ⟨a, .none⟩ :: s)) r
      (f (p.read a) (q.read b) (o.read c)) s
  | .trapping p f => ∀ a b s,
    match f (p.read a) (p.read b) with
    | .ok v => Pushed (run (⟨b, .none⟩ :: ⟨a, .none⟩ :: s)) p v s
    | .error t => run (⟨b, .none⟩ :: ⟨a, .none⟩ :: s) = .error (.trap t)
  | .relaxedBinary p q r allowed => ∀ a b s, ∃ v, allowed (p.read a) (q.read b) v ∧
    Pushed (run (⟨b, .none⟩ :: ⟨a, .none⟩ :: s)) r v s
  | .relaxedTernary p q o r allowed => ∀ a b c s, ∃ v, allowed (p.read a) (q.read b) (o.read c) v ∧
    Pushed (run (⟨c, .none⟩ :: ⟨b, .none⟩ :: ⟨a, .none⟩ :: s)) r v s

/-- The operators of the numeric opcodes. -/
def NumericOp.spec : NumericOp → Semantics
  | .i32Eqz => .unary .i32 .i32 fun i => ofBool (i = 0)
  | .i32Eq => .binary .i32 .i32 .i32 fun i j => ofBool (i = j)
  | .i32Ne => .binary .i32 .i32 .i32 fun i j => ofBool (i ≠ j)
  | .i32LtS => .binary .i32 .i32 .i32 fun i j => ofBool (signed 32 i < signed 32 j)
  | .i32LtU => .binary .i32 .i32 .i32 fun i j => ofBool (i < j)
  | .i32GtS => .binary .i32 .i32 .i32 fun i j => ofBool (signed 32 i > signed 32 j)
  | .i32GtU => .binary .i32 .i32 .i32 fun i j => ofBool (i > j)
  | .i32LeS => .binary .i32 .i32 .i32 fun i j => ofBool (signed 32 i ≤ signed 32 j)
  | .i32LeU => .binary .i32 .i32 .i32 fun i j => ofBool (i ≤ j)
  | .i32GeS => .binary .i32 .i32 .i32 fun i j => ofBool (signed 32 i ≥ signed 32 j)
  | .i32GeU => .binary .i32 .i32 .i32 fun i j => ofBool (i ≥ j)
  | .i32Clz => .unary .i32 .i32 (iclz 32)
  | .i32Ctz => .unary .i32 .i32 (ictz 32)
  | .i32Popcnt => .unary .i32 .i32 (ipopcnt 32)
  | .i32Add => .binary .i32 .i32 .i32 (iadd 32)
  | .i32Sub => .binary .i32 .i32 .i32 (isub 32)
  | .i32Mul => .binary .i32 .i32 .i32 (imul 32)
  | .i32DivS => .trapping .i32 (idivS 32)
  | .i32DivU => .trapping .i32 idivU
  | .i32RemS => .trapping .i32 (iremS 32)
  | .i32RemU => .trapping .i32 iremU
  | .i32And => .binary .i32 .i32 .i32 (· &&& ·)
  | .i32Or => .binary .i32 .i32 .i32 (· ||| ·)
  | .i32Xor => .binary .i32 .i32 .i32 (· ^^^ ·)
  | .i32Shl => .binary .i32 .i32 .i32 (ishl 32)
  | .i32ShrS => .binary .i32 .i32 .i32 (ishrS 32)
  | .i32ShrU => .binary .i32 .i32 .i32 (ishrU 32)
  | .i32Rotl => .binary .i32 .i32 .i32 (irotl 32)
  | .i32Rotr => .binary .i32 .i32 .i32 (irotr 32)
  | .i64Eqz => .unary .i64 .i32 fun i => ofBool (i = 0)
  | .i64Eq => .binary .i64 .i64 .i32 fun i j => ofBool (i = j)
  | .i64Ne => .binary .i64 .i64 .i32 fun i j => ofBool (i ≠ j)
  | .i64LtS => .binary .i64 .i64 .i32 fun i j => ofBool (signed 64 i < signed 64 j)
  | .i64LtU => .binary .i64 .i64 .i32 fun i j => ofBool (i < j)
  | .i64GtS => .binary .i64 .i64 .i32 fun i j => ofBool (signed 64 i > signed 64 j)
  | .i64GtU => .binary .i64 .i64 .i32 fun i j => ofBool (i > j)
  | .i64LeS => .binary .i64 .i64 .i32 fun i j => ofBool (signed 64 i ≤ signed 64 j)
  | .i64LeU => .binary .i64 .i64 .i32 fun i j => ofBool (i ≤ j)
  | .i64GeS => .binary .i64 .i64 .i32 fun i j => ofBool (signed 64 i ≥ signed 64 j)
  | .i64GeU => .binary .i64 .i64 .i32 fun i j => ofBool (i ≥ j)
  | .i64Clz => .unary .i64 .i64 (iclz 64)
  | .i64Ctz => .unary .i64 .i64 (ictz 64)
  | .i64Popcnt => .unary .i64 .i64 (ipopcnt 64)
  | .i64Add => .binary .i64 .i64 .i64 (iadd 64)
  | .i64Sub => .binary .i64 .i64 .i64 (isub 64)
  | .i64Mul => .binary .i64 .i64 .i64 (imul 64)
  | .i64DivS => .trapping .i64 (idivS 64)
  | .i64DivU => .trapping .i64 idivU
  | .i64RemS => .trapping .i64 (iremS 64)
  | .i64RemU => .trapping .i64 iremU
  | .i64And => .binary .i64 .i64 .i64 (· &&& ·)
  | .i64Or => .binary .i64 .i64 .i64 (· ||| ·)
  | .i64Xor => .binary .i64 .i64 .i64 (· ^^^ ·)
  | .i64Shl => .binary .i64 .i64 .i64 (ishl 64)
  | .i64ShrS => .binary .i64 .i64 .i64 (ishrS 64)
  | .i64ShrU => .binary .i64 .i64 .i64 (ishrU 64)
  | .i64Rotl => .binary .i64 .i64 .i64 (irotl 64)
  | .i64Rotr => .binary .i64 .i64 .i64 (irotr 64)
  | .i32WrapI64 => .unary .i64 .i32 (· % 2 ^ 32)
  | .i64ExtendI32S => .unary .i32 .i64 (extendS 32 64)
  | .i64ExtendI32U => .unary .i32 .i64 id
  | .i32Extend8S => .unary .i32 .i32 fun i => extendS 8 32 (i % 2 ^ 8)
  | .i32Extend16S => .unary .i32 .i32 fun i => extendS 16 32 (i % 2 ^ 16)
  | .i64Extend8S => .unary .i64 .i64 fun i => extendS 8 64 (i % 2 ^ 8)
  | .i64Extend16S => .unary .i64 .i64 fun i => extendS 16 64 (i % 2 ^ 16)
  | .i64Extend32S => .unary .i64 .i64 fun i => extendS 32 64 (i % 2 ^ 32)

/-! ## Operands and results -/

section Cells

variable {sg : Bool} {w : ℕ}

theorem unwrapInt_toNat (c : BitVec n) :
    (unwrapInt c : MachineInt sg w).bits.toNat = c.toNat % 2 ^ w :=
  BitVec.toNat_setWidth w c

theorem fromInt_toNat (h : w ≤ n) (v : MachineInt sg w) :
    (fromInt v : BitVec n).toNat = v.bits.toNat := by
  show (v.bits.setWidth n).toNat = _
  rw [BitVec.toNat_setWidth, Nat.mod_eq_of_lt]
  exact v.bits.isLt.trans_le (Nat.pow_le_pow_right Nat.two_pos h)

/-- The cell of an integer. -/
theorem Pushed.of_int {r : NumType} (hr : r.width = w) (hw : w ≤ n) (v : MachineInt sg w)
    (s : List (NumSlot n)) : Pushed (.ok ((), ⟨fromInt v, .none⟩ :: s)) r v.bits.toNat s := by
  subst hr
  exact ⟨v.bits.isLt, _, fromInt_toNat hw v, rfl⟩

end Cells

section Dispatch

variable {t : NumType} {sg : Bool} {w : ℕ}

theorem intUnop_meets (hw : w ≤ n) {f : MachineInt sg w → MachineInt sg w} {g : ℕ → ℕ}
    (ht : t.width = w)
    (h : ∀ a, (f a).bits.toNat = g a.bits.toNat) :
    (Semantics.unary t t g).Meets (intUnop f : NumEval n Unit) := by
  subst ht
  intro a s
  show Pushed (.ok ((), ⟨fromInt (f (unwrapInt a)), .none⟩ :: s)) t (g (a.toNat % 2 ^ t.width)) s
  rw [← @unwrapInt_toNat _ sg, ← h]
  exact .of_int rfl hw _ s

theorem intBinop_meets (hw : w ≤ n) {f : MachineInt sg w → MachineInt sg w → MachineInt sg w}
    {g : ℕ → ℕ → ℕ} (ht : t.width = w)
    (h : ∀ a b, (f a b).bits.toNat = g a.bits.toNat b.bits.toNat) :
    (Semantics.binary t t t g).Meets (intBinop f : NumEval n Unit) := by
  subst ht
  intro a b s
  show Pushed (.ok ((), ⟨fromInt (f (unwrapInt a) (unwrapInt b)), .none⟩ :: s)) t
    (g (a.toNat % 2 ^ t.width) (b.toNat % 2 ^ t.width)) s
  rw [← @unwrapInt_toNat _ sg, ← @unwrapInt_toNat _ sg, ← h]
  exact .of_int rfl hw _ s

/-- A test pushes the number of its outcome. -/
theorem ofBool_toNat {w : ℕ} (hw : 0 < w) (p : Prop) [Decidable p] :
    (MachineInt.ofBool p : MachineInt sg w).bits.toNat = ofBool p := by
  unfold MachineInt.ofBool ofBool
  split
  · exact wrap_natCast_toNat (Nat.one_lt_two_pow hw.ne')
  · exact wrap_natCast_toNat (Nat.two_pow_pos w)

theorem ofBool_congr {p q : Prop} [Decidable p] [Decidable q] (h : p ↔ q) : ofBool p = ofBool q :=
  if_congr h rfl rfl

theorem intRelop_meets (hn : 32 ≤ n) {r : MachineInt sg w → MachineInt sg w → Prop}
    [DecidableRel r] {p : ℕ → ℕ → Prop} [DecidableRel p] (ht : t.width = w)
    (h : ∀ a b, r a b ↔ p a.bits.toNat b.bits.toNat) :
    (Semantics.binary t t .i32 fun i j => ofBool (p i j)).Meets (intRelop r : NumEval n Unit) := by
  subst ht
  intro a b s
  have hout : ofBool (p (t.read a) (t.read b)) =
      (MachineInt.ofBool (r (unwrapInt a) (unwrapInt b)) : MachineInt true 32).bits.toNat := by
    rw [ofBool_toNat (by decide)]
    refine ofBool_congr ?_
    rw [h, unwrapInt_toNat, unwrapInt_toNat]
    rfl
  show Pushed _ _ (ofBool (p (t.read a) (t.read b))) s
  rw [hout]
  exact Pushed.of_int (r := .i32) rfl hn _ s

/-- What a division does, as the operator says. -/
def Divides {w : ℕ} (out : Except NumFault (MachineInt sg w)) : Except NumTrap ℕ → Prop
  | .ok v => ∃ r, out = .ok r ∧ r.bits.toNat = v
  | .error t => out = .error (.trap t)

theorem intTryBinop_meets (hw : w ≤ n)
    {f : MachineInt sg w → MachineInt sg w → Except NumFault (MachineInt sg w)}
    {g : ℕ → ℕ → Except NumTrap ℕ} (ht : t.width = w)
    (h : ∀ a b, Divides (f a b) (g a.bits.toNat b.bits.toNat)) :
    (Semantics.trapping t g).Meets (intTryBinop f : NumEval n Unit) := by
  subst ht
  intro a b s
  have hdiv := h (unwrapInt a) (unwrapInt b)
  rw [unwrapInt_toNat, unwrapInt_toNat] at hdiv
  have hrun : (intTryBinop f : NumEval n Unit) (⟨b, .none⟩ :: ⟨a, .none⟩ :: s) =
      (f (unwrapInt a) (unwrapInt b)).map fun r => ((), ⟨fromInt r, .none⟩ :: s) := by
    show Except.map _ (Except.map _ _) = _
    cases f (unwrapInt a) (unwrapInt b) <;> rfl
  rw [hrun]
  show match g (a.toNat % 2 ^ t.width) (b.toNat % 2 ^ t.width) with | .ok v => _ | .error t => _
  cases hg : g (a.toNat % 2 ^ t.width) (b.toNat % 2 ^ t.width) with
  | ok v =>
    rw [hg] at hdiv
    obtain ⟨r, hr, hv⟩ := hdiv
    rw [hr, ← hv]
    exact .of_int rfl hw _ s
  | error e =>
    rw [hg] at hdiv
    rw [hdiv]
    rfl

section Members

variable {g : ℕ → ℕ} {g₂ : ℕ → ℕ → ℕ} {g₃ : ℕ → ℕ → Except NumTrap ℕ}

theorem i32Unop_meets (hn : 32 ≤ n) {f : MachineInt true 32 → MachineInt true 32}
    (h : ∀ a, (f a).bits.toNat = g a.bits.toNat) :
    (Semantics.unary .i32 .i32 g).Meets (i32Unop f : NumEval n Unit) :=
  intUnop_meets hn rfl h

theorem i64Unop_meets (hn : 64 ≤ n) {f : MachineInt true 64 → MachineInt true 64}
    (h : ∀ a, (f a).bits.toNat = g a.bits.toNat) :
    (Semantics.unary .i64 .i64 g).Meets (i64Unop f : NumEval n Unit) :=
  intUnop_meets hn rfl h

theorem i32Binop_meets (hn : 32 ≤ n)
    {f : MachineInt true 32 → MachineInt true 32 → MachineInt true 32}
    (h : ∀ a b, (f a b).bits.toNat = g₂ a.bits.toNat b.bits.toNat) :
    (Semantics.binary .i32 .i32 .i32 g₂).Meets (i32Binop f : NumEval n Unit) :=
  intBinop_meets hn rfl h

theorem u32Binop_meets (hn : 32 ≤ n)
    {f : MachineInt false 32 → MachineInt false 32 → MachineInt false 32}
    (h : ∀ a b, (f a b).bits.toNat = g₂ a.bits.toNat b.bits.toNat) :
    (Semantics.binary .i32 .i32 .i32 g₂).Meets (u32Binop f : NumEval n Unit) :=
  intBinop_meets hn rfl h

theorem i64Binop_meets (hn : 64 ≤ n)
    {f : MachineInt true 64 → MachineInt true 64 → MachineInt true 64}
    (h : ∀ a b, (f a b).bits.toNat = g₂ a.bits.toNat b.bits.toNat) :
    (Semantics.binary .i64 .i64 .i64 g₂).Meets (i64Binop f : NumEval n Unit) :=
  intBinop_meets hn rfl h

theorem u64Binop_meets (hn : 64 ≤ n)
    {f : MachineInt false 64 → MachineInt false 64 → MachineInt false 64}
    (h : ∀ a b, (f a b).bits.toNat = g₂ a.bits.toNat b.bits.toNat) :
    (Semantics.binary .i64 .i64 .i64 g₂).Meets (u64Binop f : NumEval n Unit) :=
  intBinop_meets hn rfl h

theorem i32Relop_meets (hn : 32 ≤ n) {r : MachineInt true 32 → MachineInt true 32 → Prop}
    [DecidableRel r] {p : ℕ → ℕ → Prop} [DecidableRel p]
    (h : ∀ a b, r a b ↔ p a.bits.toNat b.bits.toNat) :
    (Semantics.binary .i32 .i32 .i32 fun i j => ofBool (p i j)).Meets
      (i32Relop r : NumEval n Unit) :=
  intRelop_meets hn rfl h

theorem u32Relop_meets (hn : 32 ≤ n) {r : MachineInt false 32 → MachineInt false 32 → Prop}
    [DecidableRel r] {p : ℕ → ℕ → Prop} [DecidableRel p]
    (h : ∀ a b, r a b ↔ p a.bits.toNat b.bits.toNat) :
    (Semantics.binary .i32 .i32 .i32 fun i j => ofBool (p i j)).Meets
      (u32Relop r : NumEval n Unit) :=
  intRelop_meets hn rfl h

theorem i64Relop_meets (hn : 32 ≤ n) {r : MachineInt true 64 → MachineInt true 64 → Prop}
    [DecidableRel r] {p : ℕ → ℕ → Prop} [DecidableRel p]
    (h : ∀ a b, r a b ↔ p a.bits.toNat b.bits.toNat) :
    (Semantics.binary .i64 .i64 .i32 fun i j => ofBool (p i j)).Meets
      (i64Relop r : NumEval n Unit) :=
  intRelop_meets hn rfl h

theorem u64Relop_meets (hn : 32 ≤ n) {r : MachineInt false 64 → MachineInt false 64 → Prop}
    [DecidableRel r] {p : ℕ → ℕ → Prop} [DecidableRel p]
    (h : ∀ a b, r a b ↔ p a.bits.toNat b.bits.toNat) :
    (Semantics.binary .i64 .i64 .i32 fun i j => ofBool (p i j)).Meets
      (u64Relop r : NumEval n Unit) :=
  intRelop_meets hn rfl h

theorem i32TryBinop_meets (hn : 32 ≤ n)
    {f : MachineInt true 32 → MachineInt true 32 → Except NumFault (MachineInt true 32)}
    (h : ∀ a b, Divides (f a b) (g₃ a.bits.toNat b.bits.toNat)) :
    (Semantics.trapping .i32 g₃).Meets (i32TryBinop f : NumEval n Unit) :=
  intTryBinop_meets hn rfl h

theorem u32TryBinop_meets (hn : 32 ≤ n)
    {f : MachineInt false 32 → MachineInt false 32 → Except NumFault (MachineInt false 32)}
    (h : ∀ a b, Divides (f a b) (g₃ a.bits.toNat b.bits.toNat)) :
    (Semantics.trapping .i32 g₃).Meets (u32TryBinop f : NumEval n Unit) :=
  intTryBinop_meets hn rfl h

theorem i64TryBinop_meets (hn : 64 ≤ n)
    {f : MachineInt true 64 → MachineInt true 64 → Except NumFault (MachineInt true 64)}
    (h : ∀ a b, Divides (f a b) (g₃ a.bits.toNat b.bits.toNat)) :
    (Semantics.trapping .i64 g₃).Meets (i64TryBinop f : NumEval n Unit) :=
  intTryBinop_meets hn rfl h

theorem u64TryBinop_meets (hn : 64 ≤ n)
    {f : MachineInt false 64 → MachineInt false 64 → Except NumFault (MachineInt false 64)}
    (h : ∀ a b, Divides (f a b) (g₃ a.bits.toNat b.bits.toNat)) :
    (Semantics.trapping .i64 g₃).Meets (u64TryBinop f : NumEval n Unit) :=
  intTryBinop_meets hn rfl h

end Members

end Dispatch

/-! ## Division -/

section Division

variable {sg : Bool} {w : ℕ}

theorem eq_zero_iff (b : MachineInt sg w) : b = .wrap 0 ↔ b.bits.toNat = 0 := by
  rw [eq_iff, toNat_wrap]
  rfl

theorem divides_divS (hw : 0 < w) (a b : MachineInt true w) :
    Divides (divS a b) (idivS w a.bits.toNat b.bits.toNat) := by
  unfold divS idivS
  by_cases hb : b.bits.toNat = 0
  · rw [if_pos hb, if_pos ((eq_zero_iff b).mpr hb)]
    rfl
  · have hval : b.val ≠ 0 := hb ∘ (val_eq_zero b).mp
    have hpos : (0 : ℤ) < 2 ^ (w - 1) := by positivity
    obtain ⟨-, -, hover⟩ := tdiv_val_bounds a b hval
    have hmin : a = .wrap (MachineInt.minValue true w) ↔ a.val = -2 ^ (w - 1) :=
      eq_wrap_iff a hw le_rfl (show -2 ^ (w - 1) ≤ (2 : ℤ) ^ (w - 1) - 1 by omega)
    have hone : b = .wrap (-1) ↔ b.val = -1 :=
      eq_wrap_iff b hw (show -2 ^ (w - 1) ≤ (-1 : ℤ) by omega)
        (show (-1 : ℤ) ≤ 2 ^ (w - 1) - 1 by omega)
    rw [if_neg hb, if_neg (hb ∘ (eq_zero_iff b).mp), signed_toNat, signed_toNat]
    by_cases h : a.val = -2 ^ (w - 1) ∧ b.val = -1
    · rw [if_pos (hover.mpr h), if_pos ⟨hmin.mpr h.1, hone.mpr h.2⟩]
      rfl
    · rw [if_neg (h ∘ hover.mp), if_neg (fun hab => h ⟨hmin.mp hab.1, hone.mp hab.2⟩),
        div_signed a b hval h]
      exact ⟨_, rfl, toNat_wrap _⟩

theorem divides_divU (a b : MachineInt false w) :
    Divides (do nz b; orPanic (a.div b)) (idivU a.bits.toNat b.bits.toNat) := by
  unfold nz idivU
  by_cases hb : b.bits.toNat = 0
  · rw [if_pos hb, if_pos ((eq_zero_iff b).mpr hb)]
    rfl
  · rw [if_neg hb, if_neg (hb ∘ (eq_zero_iff b).mp), div_unsigned a b (hb ∘ (val_eq_zero b).mp)]
    exact ⟨_, rfl, wrap_natCast_toNat ((Nat.div_le_self _ _).trans_lt a.bits.isLt)⟩

theorem divides_remS (a b : MachineInt true w) :
    Divides (do nz b; orPanic (a.wrappingRem b)) (iremS w a.bits.toNat b.bits.toNat) := by
  unfold nz iremS MachineInt.wrappingRem
  by_cases hb : b.bits.toNat = 0
  · rw [if_pos hb, if_pos ((eq_zero_iff b).mpr hb)]
    rfl
  · rw [if_neg hb, if_neg (hb ∘ (eq_zero_iff b).mp), if_neg (hb ∘ (val_eq_zero b).mp), signed_toNat,
      signed_toNat, ← Int.tmod_def]
    exact ⟨_, rfl, toNat_wrap _⟩

theorem divides_remU (a b : MachineInt false w) :
    Divides (do nz b; orPanic (a.rem b)) (iremU a.bits.toNat b.bits.toNat) := by
  unfold nz iremU
  by_cases hb : b.bits.toNat = 0
  · rw [if_pos hb, if_pos ((eq_zero_iff b).mpr hb)]
    rfl
  · rw [if_neg hb, if_neg (hb ∘ (eq_zero_iff b).mp), rem_unsigned a b (hb ∘ (val_eq_zero b).mp)]
    refine ⟨_, rfl, ?_⟩
    rw [wrap_natCast_toNat ((Nat.mod_le _ _).trans_lt a.bits.isLt)]
    have h := Nat.div_add_mod a.bits.toNat b.bits.toNat
    omega

end Division

/-! ## Counts and shifts -/

section Counts

variable {sg : Bool} {w : ℕ}

/-- A count of bits, in the type counted. -/
theorem wrap_count {c : ℕ} (h : c ≤ w) : (MachineInt.wrap c : MachineInt sg w).bits.toNat = c :=
  wrap_natCast_toNat (lt_two_pow_of_le h)

theorem clz_spec (hw : 0 < w) (a : MachineInt sg w) :
    (MachineInt.wrap a.leadingZeros : MachineInt sg w).bits.toNat = iclz w a.bits.toNat := by
  rw [leadingZeros_eq a hw, wrap_count (iclz_le _ _)]

theorem ctz_spec (hw : 0 < w) (a : MachineInt sg w) :
    (MachineInt.wrap a.trailingZeros : MachineInt sg w).bits.toNat = ictz w a.bits.toNat := by
  rw [trailingZeros_eq a hw, wrap_count (ictz_le _ _)]

theorem popcnt_spec (a : MachineInt sg w) :
    (MachineInt.wrap a.countOnes : MachineInt sg w).bits.toNat = ipopcnt w a.bits.toNat := by
  rw [countOnes_eq, wrap_count (ipopcnt_le _ _)]

/-- A count of 32 bits is that of all bits, modulo a width that divides `2 ^ 32`. -/
theorem asU32_mod (hw : 32 ≤ w) (h : w ∣ 2 ^ 32) (b : MachineInt sg w) :
    b.asU32 % w = b.bits.toNat % w := by
  rw [MachineInt.asU32, cast_toNat_of_le b hw, Nat.mod_mod_of_dvd _ h]

theorem ishl_mod (N i k : ℕ) : ishl N i (k % N) = ishl N i k := by rw [ishl, Nat.mod_mod, ishl]

theorem shl_spec (hw : 32 ≤ w) (h : w ∣ 2 ^ 32) (a b : MachineInt sg w) :
    (a.wrappingShl b.asU32).bits.toNat = ishl w a.bits.toNat b.bits.toNat := by
  rw [wrappingShl_toNat, ishl, asU32_mod hw h, ishl]

theorem shrS_spec (hw : 32 ≤ w) (h : w ∣ 2 ^ 32) (a b : MachineInt true w) :
    (a.wrappingShr b.asU32).bits.toNat = ishrS w a.bits.toNat b.bits.toNat := by
  rw [wrappingShr_toNat_signed, ishrS, asU32_mod hw h, ishrS]

theorem shrU_spec (hw : 32 ≤ w) (h : w ∣ 2 ^ 32) (a b : MachineInt false w) :
    (a.wrappingShr b.asU32).bits.toNat = ishrU w a.bits.toNat b.bits.toNat := by
  rw [wrappingShr_toNat_unsigned, ishrU, asU32_mod hw h, ishrU]

theorem rotl_spec (a b : MachineInt sg w) :
    (a.rotateLeft (b.bits.toNat % w)).bits.toNat = irotl w a.bits.toNat b.bits.toNat := by
  rw [rotateLeft_toNat, irotl, ishl, Nat.mod_mod, irotl, ishl]

theorem rotr_spec (a b : MachineInt sg w) :
    (a.rotateRight (b.bits.toNat % w)).bits.toNat = irotr w a.bits.toNat b.bits.toNat := by
  rw [rotateRight_toNat, irotr, ishrU, Nat.mod_mod, irotr, ishrU]

/-- The low bits, extended. -/
theorem extend_spec {M : ℕ} (h : M ≤ w) (a : MachineInt sg w) :
    ((a.cast : MachineInt true M).cast : MachineInt sg w).bits.toNat =
      extendS M w (a.bits.toNat % 2 ^ M) := by
  rw [cast_toNat_signed, cast_toNat_of_le a h]

end Counts

/-! ## The numeric opcodes -/

/-- A conversion between the integer types. -/
theorem convert_meets {p r : NumType} {v w : ℕ} (hw : w ≤ n)
    {f : MachineInt true v → MachineInt true w} {g : ℕ → ℕ} (hp : p.width = v) (hr : r.width = w)
    (h : ∀ a, (f a).bits.toNat = g a.bits.toNat) {run : NumEval n Unit}
    (hrun : ∀ a s, run (⟨a, .none⟩ :: s) = .ok ((), ⟨fromInt (f (unwrapInt a)), .none⟩ :: s)) :
    (Semantics.unary p r g).Meets run := by
  subst hp
  intro a s
  show Pushed _ r (g (a.toNat % 2 ^ p.width)) s
  rw [hrun, ← @unwrapInt_toNat _ true, ← h]
  exact .of_int hr hw _ s

theorem execNumeric_meets (hn : 64 ≤ n) (op : NumericOp) :
    op.spec.Meets (execNumeric op : NumEval n Unit) := by
  have h32 : NumType.width .i32 ≤ n := le_trans (by decide) hn
  cases op with
  | i32Eqz =>
    exact i32Unop_meets h32 fun a =>
      (ofBool_toNat (by decide) _).trans (ofBool_congr (eq_zero_iff a))
  | i32Eq => exact i32Relop_meets h32 eq_iff
  | i32Ne => exact i32Relop_meets h32 fun a b => (eq_iff a b).not
  | i32LtS => exact i32Relop_meets h32 lt_signed
  | i32LtU => exact u32Relop_meets h32 lt_unsigned
  | i32GtS => exact i32Relop_meets h32 fun a b => lt_signed b a
  | i32GtU => exact u32Relop_meets h32 fun a b => lt_unsigned b a
  | i32LeS => exact i32Relop_meets h32 le_signed
  | i32LeU => exact u32Relop_meets h32 le_unsigned
  | i32GeS => exact i32Relop_meets h32 fun a b => le_signed b a
  | i32GeU => exact u32Relop_meets h32 fun a b => le_unsigned b a
  | i32Clz => exact i32Unop_meets h32 (clz_spec (by decide))
  | i32Ctz => exact i32Unop_meets h32 (ctz_spec (by decide))
  | i32Popcnt => exact i32Unop_meets h32 popcnt_spec
  | i32Add => exact i32Binop_meets h32 wrappingAdd_toNat
  | i32Sub => exact i32Binop_meets h32 wrappingSub_toNat
  | i32Mul => exact i32Binop_meets h32 wrappingMul_toNat
  | i32DivS => exact i32TryBinop_meets h32 (divides_divS (by decide))
  | i32DivU => exact u32TryBinop_meets h32 divides_divU
  | i32RemS => exact i32TryBinop_meets h32 divides_remS
  | i32RemU => exact u32TryBinop_meets h32 divides_remU
  | i32And => exact i32Binop_meets h32 fun a b => BitVec.toNat_and a.bits b.bits
  | i32Or => exact i32Binop_meets h32 fun a b => BitVec.toNat_or a.bits b.bits
  | i32Xor => exact i32Binop_meets h32 fun a b => BitVec.toNat_xor a.bits b.bits
  | i32Shl => exact i32Binop_meets h32 (shl_spec (by decide) (by decide))
  | i32ShrS => exact i32Binop_meets h32 (shrS_spec (by decide) (by decide))
  | i32ShrU => exact u32Binop_meets h32 (shrU_spec (by decide) (by decide))
  | i32Rotl => exact u32Binop_meets h32 rotl_spec
  | i32Rotr => exact u32Binop_meets h32 rotr_spec
  | i64Eqz =>
    refine convert_meets h32 (f := fun a => .ofBool (a = .wrap 0)) rfl rfl ?_ fun _ _ => rfl
    exact fun a => (ofBool_toNat (by decide) _).trans (ofBool_congr (eq_zero_iff a))
  | i64Eq => exact i64Relop_meets h32 eq_iff
  | i64Ne => exact i64Relop_meets h32 fun a b => (eq_iff a b).not
  | i64LtS => exact i64Relop_meets h32 lt_signed
  | i64LtU => exact u64Relop_meets h32 lt_unsigned
  | i64GtS => exact i64Relop_meets h32 fun a b => lt_signed b a
  | i64GtU => exact u64Relop_meets h32 fun a b => lt_unsigned b a
  | i64LeS => exact i64Relop_meets h32 le_signed
  | i64LeU => exact u64Relop_meets h32 le_unsigned
  | i64GeS => exact i64Relop_meets h32 fun a b => le_signed b a
  | i64GeU => exact u64Relop_meets h32 fun a b => le_unsigned b a
  | i64Clz => exact i64Unop_meets hn (clz_spec (by decide))
  | i64Ctz => exact i64Unop_meets hn (ctz_spec (by decide))
  | i64Popcnt => exact i64Unop_meets hn popcnt_spec
  | i64Add => exact i64Binop_meets hn wrappingAdd_toNat
  | i64Sub => exact i64Binop_meets hn wrappingSub_toNat
  | i64Mul => exact i64Binop_meets hn wrappingMul_toNat
  | i64DivS => exact i64TryBinop_meets hn (divides_divS (by decide))
  | i64DivU => exact u64TryBinop_meets hn divides_divU
  | i64RemS => exact i64TryBinop_meets hn divides_remS
  | i64RemU => exact u64TryBinop_meets hn divides_remU
  | i64And => exact i64Binop_meets hn fun a b => BitVec.toNat_and a.bits b.bits
  | i64Or => exact i64Binop_meets hn fun a b => BitVec.toNat_or a.bits b.bits
  | i64Xor => exact i64Binop_meets hn fun a b => BitVec.toNat_xor a.bits b.bits
  | i64Shl => exact i64Binop_meets hn (shl_spec (by decide) (by decide))
  | i64ShrS => exact i64Binop_meets hn (shrS_spec (by decide) (by decide))
  | i64ShrU => exact u64Binop_meets hn (shrU_spec (by decide) (by decide))
  | i64Rotl => exact u64Binop_meets hn rotl_spec
  | i64Rotr => exact u64Binop_meets hn rotr_spec
  | i32WrapI64 =>
    exact convert_meets h32 rfl rfl (fun a => cast_toNat_of_le a (by decide)) fun _ _ => rfl
  | i64ExtendI32S => exact convert_meets hn rfl rfl cast_toNat_signed fun _ _ => rfl
  | i64ExtendI32U =>
    refine convert_meets hn (f := i64ExtendI32U) rfl rfl (fun a => ?_) fun _ _ => rfl
    rw [i64ExtendI32U, cast_toNat_unsigned _ (by decide), cast_toNat_of_le a le_rfl]
    exact Nat.mod_eq_of_lt a.bits.isLt
  | i32Extend8S => exact i32Unop_meets h32 (extend_spec (by decide))
  | i32Extend16S => exact i32Unop_meets h32 (extend_spec (by decide))
  | i64Extend8S => exact i64Unop_meets hn (extend_spec (by decide))
  | i64Extend16S => exact i64Unop_meets hn (extend_spec (by decide))
  | i64Extend32S => exact i64Unop_meets hn (extend_spec (by decide))

end SubmilliWasm.Numeric
