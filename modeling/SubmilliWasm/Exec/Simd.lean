/-
# Vector instructions

The handlers of the integer vector opcodes (`src/exec/simd/lane.rs`, `bit.rs`, `iarith.rs`,
`icmp.rs`, `iarith2.rs`, `relaxed.rs`), each handing on what it does not know, and the operators the
specification gives the opcodes.  A relaxed opcode has several results to choose from, in each lane.

Every integer opcode does what its operator says, and no computation on the way panics
(`integer_semantics`).  The opcodes that access memory or read a lane as a float are left out.
-/
import SubmilliWasm.Exec.Lanewise

namespace SubmilliWasm.Numeric

open WasmNumerics Lanes

/-! ## Opcodes -/

/-- The integer vector opcodes.  Lane indices are validated. -/
inductive SimdOp where
  | v128Const (bits : BitVec 128) | i8x16Splat | i16x8Splat | i32x4Splat | i64x2Splat
  | i8x16ExtractLaneS (l : Fin 16) | i8x16ExtractLaneU (l : Fin 16)
  | i16x8ExtractLaneS (l : Fin 8) | i16x8ExtractLaneU (l : Fin 8) | i32x4ExtractLane (l : Fin 4)
  | i64x2ExtractLane (l : Fin 2) | i8x16ReplaceLane (l : Fin 16) | i16x8ReplaceLane (l : Fin 8)
  | i32x4ReplaceLane (l : Fin 4) | i64x2ReplaceLane (l : Fin 2)
  | i8x16Shuffle (idx : Fin 16 → Fin 32) | i8x16Swizzle | v128Not | v128And | v128Or | v128Xor
  | v128AndNot | v128Bitselect | v128AnyTrue | i8x16Add | i8x16Sub | i8x16Neg | i8x16Abs
  | i8x16Popcnt | i8x16MinS | i8x16MinU | i8x16MaxS | i8x16MaxU | i8x16AvgrU | i8x16AllTrue
  | i8x16Bitmask | i16x8Add | i16x8Sub | i16x8Mul | i16x8Neg | i16x8Abs | i16x8MinS | i16x8MinU
  | i16x8MaxS | i16x8MaxU | i16x8AvgrU | i16x8AllTrue | i16x8Bitmask | i32x4Add | i32x4Sub
  | i32x4Mul | i32x4Neg | i32x4Abs | i32x4MinS | i32x4MinU | i32x4MaxS | i32x4MaxU | i32x4AllTrue
  | i32x4Bitmask | i64x2Add | i64x2Sub | i64x2Mul | i64x2Neg | i64x2Abs | i64x2AllTrue
  | i64x2Bitmask | i8x16Eq | i8x16Ne | i8x16LtS | i8x16LtU | i8x16GtS | i8x16GtU | i8x16LeS
  | i8x16LeU | i8x16GeS | i8x16GeU | i16x8Eq | i16x8Ne | i16x8LtS | i16x8LtU | i16x8GtS
  | i16x8GtU | i16x8LeS | i16x8LeU | i16x8GeS | i16x8GeU | i32x4Eq | i32x4Ne | i32x4LtS
  | i32x4LtU | i32x4GtS | i32x4GtU | i32x4LeS | i32x4LeU | i32x4GeS | i32x4GeU | i64x2Eq
  | i64x2Ne | i64x2LtS | i64x2GtS | i64x2LeS | i64x2GeS | i8x16Shl | i8x16ShrS | i8x16ShrU
  | i16x8Shl | i16x8ShrS | i16x8ShrU | i32x4Shl | i32x4ShrS | i32x4ShrU | i64x2Shl | i64x2ShrS
  | i64x2ShrU | i8x16AddSatS | i8x16AddSatU | i8x16SubSatS | i8x16SubSatU | i16x8AddSatS
  | i16x8AddSatU | i16x8SubSatS | i16x8SubSatU | i16x8Q15MulrSatS | i8x16NarrowI16x8S
  | i8x16NarrowI16x8U | i16x8NarrowI32x4S | i16x8NarrowI32x4U | i16x8ExtendLowI8x16S
  | i16x8ExtendHighI8x16S | i16x8ExtendLowI8x16U | i16x8ExtendHighI8x16U | i32x4ExtendLowI16x8S
  | i32x4ExtendHighI16x8S | i32x4ExtendLowI16x8U | i32x4ExtendHighI16x8U | i64x2ExtendLowI32x4S
  | i64x2ExtendHighI32x4S | i64x2ExtendLowI32x4U | i64x2ExtendHighI32x4U
  | i16x8ExtAddPairwiseI8x16S | i16x8ExtAddPairwiseI8x16U | i32x4ExtAddPairwiseI16x8S
  | i32x4ExtAddPairwiseI16x8U | i16x8ExtMulLowI8x16S | i16x8ExtMulHighI8x16S
  | i16x8ExtMulLowI8x16U | i16x8ExtMulHighI8x16U | i32x4ExtMulLowI16x8S | i32x4ExtMulHighI16x8S
  | i32x4ExtMulLowI16x8U | i32x4ExtMulHighI16x8U | i64x2ExtMulLowI32x4S | i64x2ExtMulHighI32x4S
  | i64x2ExtMulLowI32x4U | i64x2ExtMulHighI32x4U | i32x4DotI16x8S | i8x16RelaxedSwizzle
  | i8x16RelaxedLaneselect | i16x8RelaxedLaneselect | i32x4RelaxedLaneselect
  | i64x2RelaxedLaneselect | i16x8RelaxedQ15mulrS | i16x8RelaxedDotI8x16I7x16S
  | i32x4RelaxedDotI8x16I7x16AddS

/-! ## Functions on lanes -/

/-- The unsigned rounding average, in 32 bits. -/
def avgr (a b : MachineInt false 32) : Checked (MachineInt false 32) := do
  (← a.add b).divCeil (.wrap 2)

def q15mulrSat (a b : MachineInt true 16) : Checked (MachineInt true 16) := do
  let p ← (a.cast : MachineInt true 32).mul b.cast
  let q ← p.add (.wrap 0x4000)
  let r ← q.shr 15
  return (r.clamp (-32768) 32767).cast

/-- The products of two pairs of lanes, in twice the width, and their wrapping sum. -/
def pairDot {w : ℕ} (a b a' b' : MachineInt true w) : Checked (MachineInt true (2 * w)) := do
  return (← a.cast.mul b.cast).wrappingAdd (← a'.cast.mul b'.cast)

def relaxedDot (a b : Fin 16 → MachineInt true 8) : Checked (Fin 8 → MachineInt true 16) :=
  fromFn fun i => pairDot (a ⟨2 * i, by omega⟩) (b ⟨2 * i, by omega⟩) (a ⟨2 * i + 1, by omega⟩)
    (b ⟨2 * i + 1, by omega⟩)

def bitBinop (f : BitVec 128 → BitVec 128 → BitVec 128) : NumEval 128 Unit := do
  let b ← popV128
  let a ← popV128
  pushV128 (f a b)

def extract (f : BitVec 128 → NumEval 128 Unit) : NumEval 128 Unit := do
  let v ← popV128
  f v

/-- An index beyond the lanes selects zero. -/
def swizzle : NumEval 128 Unit := do
  let sel := u8x16 (← popV128)
  let a := u8x16 (← popV128)
  pushV128 (fromU8x16 fun i =>
    if h : (sel i).bits.toNat < 16 then a ⟨(sel i).bits.toNat, h⟩ else .wrap 0)

/-- The same bitwise choice at every width. -/
def laneselect : NumEval 128 Unit := do
  let m ← popV128
  let b ← popV128
  let a ← popV128
  pushV128 (a &&& m ||| b &&& ~~~m)

/-! ## The handlers -/

/-- An opcode that no handler knows is an error. -/
def execSimdRelaxed : SimdOp → NumEval 128 Unit
  | .i8x16RelaxedSwizzle => swizzle
  | .i8x16RelaxedLaneselect => laneselect
  | .i16x8RelaxedLaneselect => laneselect
  | .i32x4RelaxedLaneselect => laneselect
  | .i64x2RelaxedLaneselect => laneselect
  | .i16x8RelaxedQ15mulrS => vBinop i16x8 fromI16x8 q15mulrSat
  | .i16x8RelaxedDotI8x16I7x16S => do
    let b := i8x16 (← popV128)
    let a := i8x16 (← popV128)
    let l ← checked (relaxedDot a b)
    pushV128 (fromI16x8 l)
  | .i32x4RelaxedDotI8x16I7x16AddS => do
    let c := i32x4 (← popV128)
    let b := i8x16 (← popV128)
    let a := i8x16 (← popV128)
    let d ← checked (relaxedDot a b)
    pushV128 (fromI32x4 fun j : Fin 4 =>
      (((d ⟨2 * j, by omega⟩).cast).wrappingAdd (d ⟨2 * j + 1, by omega⟩).cast).wrappingAdd (c j))
  | _ => fun _ => .error .unimplemented

def execSimdIarith2 : SimdOp → NumEval 128 Unit
  | .i8x16AddSatS => vBinop i8x16 fromI8x16 fun a b => a.saturatingAdd b
  | .i8x16AddSatU => vBinop u8x16 fromU8x16 fun a b => a.saturatingAdd b
  | .i8x16SubSatS => vBinop i8x16 fromI8x16 fun a b => a.saturatingSub b
  | .i8x16SubSatU => vBinop u8x16 fromU8x16 fun a b => a.saturatingSub b
  | .i16x8AddSatS => vBinop i16x8 fromI16x8 fun a b => a.saturatingAdd b
  | .i16x8AddSatU => vBinop u16x8 fromU16x8 fun a b => a.saturatingAdd b
  | .i16x8SubSatS => vBinop i16x8 fromI16x8 fun a b => a.saturatingSub b
  | .i16x8SubSatU => vBinop u16x8 fromU16x8 fun a b => a.saturatingSub b
  | .i16x8Q15MulrSatS => vBinop i16x8 fromI16x8 q15mulrSat
  | .i8x16NarrowI16x8S => vNarrow 8 i16x8 fromI8x16 fun x => (x.clamp (-128) 127).cast
  | .i8x16NarrowI16x8U => vNarrow 8 i16x8 fromU8x16 fun x => (x.clamp 0 255).cast
  | .i16x8NarrowI32x4S => vNarrow 4 i32x4 fromI16x8 fun x => (x.clamp (-32768) 32767).cast
  | .i16x8NarrowI32x4U => vNarrow 4 i32x4 fromU16x8 fun x => (x.clamp 0 65535).cast
  | .i16x8ExtendLowI8x16S => vExtend 8 i8x16 fromI16x8 false MachineInt.cast
  | .i16x8ExtendHighI8x16S => vExtend 8 i8x16 fromI16x8 true MachineInt.cast
  | .i16x8ExtendLowI8x16U => vExtend 8 u8x16 fromU16x8 false MachineInt.cast
  | .i16x8ExtendHighI8x16U => vExtend 8 u8x16 fromU16x8 true MachineInt.cast
  | .i32x4ExtendLowI16x8S => vExtend 4 i16x8 fromI32x4 false MachineInt.cast
  | .i32x4ExtendHighI16x8S => vExtend 4 i16x8 fromI32x4 true MachineInt.cast
  | .i32x4ExtendLowI16x8U => vExtend 4 u16x8 fromU32x4 false MachineInt.cast
  | .i32x4ExtendHighI16x8U => vExtend 4 u16x8 fromU32x4 true MachineInt.cast
  | .i64x2ExtendLowI32x4S => vExtend 2 i32x4 fromI64x2 false MachineInt.cast
  | .i64x2ExtendHighI32x4S => vExtend 2 i32x4 fromI64x2 true MachineInt.cast
  | .i64x2ExtendLowI32x4U => vExtend 2 u32x4 fromU64x2 false MachineInt.cast
  | .i64x2ExtendHighI32x4U => vExtend 2 u32x4 fromU64x2 true MachineInt.cast
  | .i16x8ExtAddPairwiseI8x16S => vExtadd 8 i8x16 fromI16x8 fun a b => a.cast.add b.cast
  | .i16x8ExtAddPairwiseI8x16U => vExtadd 8 u8x16 fromU16x8 fun a b => a.cast.add b.cast
  | .i32x4ExtAddPairwiseI16x8S => vExtadd 4 i16x8 fromI32x4 fun a b => a.cast.add b.cast
  | .i32x4ExtAddPairwiseI16x8U => vExtadd 4 u16x8 fromU32x4 fun a b => a.cast.add b.cast
  | .i16x8ExtMulLowI8x16S => vExtmul 8 i8x16 fromI16x8 false fun a b => a.cast.mul b.cast
  | .i16x8ExtMulHighI8x16S => vExtmul 8 i8x16 fromI16x8 true fun a b => a.cast.mul b.cast
  | .i16x8ExtMulLowI8x16U => vExtmul 8 u8x16 fromU16x8 false fun a b => a.cast.mul b.cast
  | .i16x8ExtMulHighI8x16U => vExtmul 8 u8x16 fromU16x8 true fun a b => a.cast.mul b.cast
  | .i32x4ExtMulLowI16x8S => vExtmul 4 i16x8 fromI32x4 false fun a b => a.cast.mul b.cast
  | .i32x4ExtMulHighI16x8S => vExtmul 4 i16x8 fromI32x4 true fun a b => a.cast.mul b.cast
  | .i32x4ExtMulLowI16x8U => vExtmul 4 u16x8 fromU32x4 false fun a b => a.cast.mul b.cast
  | .i32x4ExtMulHighI16x8U => vExtmul 4 u16x8 fromU32x4 true fun a b => a.cast.mul b.cast
  | .i64x2ExtMulLowI32x4S => vExtmul 2 i32x4 fromI64x2 false fun a b => a.cast.mul b.cast
  | .i64x2ExtMulHighI32x4S => vExtmul 2 i32x4 fromI64x2 true fun a b => a.cast.mul b.cast
  | .i64x2ExtMulLowI32x4U => vExtmul 2 u32x4 fromU64x2 false fun a b => a.cast.mul b.cast
  | .i64x2ExtMulHighI32x4U => vExtmul 2 u32x4 fromU64x2 true fun a b => a.cast.mul b.cast
  | .i32x4DotI16x8S => do
    let b := i16x8 (← popV128)
    let a := i16x8 (← popV128)
    let l ← checked (fromFn fun i : Fin 4 => pairDot (a ⟨2 * i, by omega⟩) (b ⟨2 * i, by omega⟩)
      (a ⟨2 * i + 1, by omega⟩) (b ⟨2 * i + 1, by omega⟩))
    pushV128 (fromI32x4 l)
  | s => execSimdRelaxed s

def execSimdIcmp : SimdOp → NumEval 128 Unit
  | .i8x16Eq => vCmp rfl i8x16 fun a b => a = b
  | .i8x16Ne => vCmp rfl i8x16 fun a b => a ≠ b
  | .i8x16LtS => vCmp rfl i8x16 fun a b => a < b
  | .i8x16LtU => vCmp rfl u8x16 fun a b => a < b
  | .i8x16GtS => vCmp rfl i8x16 fun a b => a > b
  | .i8x16GtU => vCmp rfl u8x16 fun a b => a > b
  | .i8x16LeS => vCmp rfl i8x16 fun a b => a ≤ b
  | .i8x16LeU => vCmp rfl u8x16 fun a b => a ≤ b
  | .i8x16GeS => vCmp rfl i8x16 fun a b => a ≥ b
  | .i8x16GeU => vCmp rfl u8x16 fun a b => a ≥ b
  | .i16x8Eq => vCmp rfl i16x8 fun a b => a = b
  | .i16x8Ne => vCmp rfl i16x8 fun a b => a ≠ b
  | .i16x8LtS => vCmp rfl i16x8 fun a b => a < b
  | .i16x8LtU => vCmp rfl u16x8 fun a b => a < b
  | .i16x8GtS => vCmp rfl i16x8 fun a b => a > b
  | .i16x8GtU => vCmp rfl u16x8 fun a b => a > b
  | .i16x8LeS => vCmp rfl i16x8 fun a b => a ≤ b
  | .i16x8LeU => vCmp rfl u16x8 fun a b => a ≤ b
  | .i16x8GeS => vCmp rfl i16x8 fun a b => a ≥ b
  | .i16x8GeU => vCmp rfl u16x8 fun a b => a ≥ b
  | .i32x4Eq => vCmp rfl i32x4 fun a b => a = b
  | .i32x4Ne => vCmp rfl i32x4 fun a b => a ≠ b
  | .i32x4LtS => vCmp rfl i32x4 fun a b => a < b
  | .i32x4LtU => vCmp rfl u32x4 fun a b => a < b
  | .i32x4GtS => vCmp rfl i32x4 fun a b => a > b
  | .i32x4GtU => vCmp rfl u32x4 fun a b => a > b
  | .i32x4LeS => vCmp rfl i32x4 fun a b => a ≤ b
  | .i32x4LeU => vCmp rfl u32x4 fun a b => a ≤ b
  | .i32x4GeS => vCmp rfl i32x4 fun a b => a ≥ b
  | .i32x4GeU => vCmp rfl u32x4 fun a b => a ≥ b
  | .i64x2Eq => vCmp rfl i64x2 fun a b => a = b
  | .i64x2Ne => vCmp rfl i64x2 fun a b => a ≠ b
  | .i64x2LtS => vCmp rfl i64x2 fun a b => a < b
  | .i64x2GtS => vCmp rfl i64x2 fun a b => a > b
  | .i64x2LeS => vCmp rfl i64x2 fun a b => a ≤ b
  | .i64x2GeS => vCmp rfl i64x2 fun a b => a ≥ b
  | .i8x16Shl => vShift i8x16 fromI8x16 MachineInt.wrappingShl
  | .i8x16ShrS => vShift i8x16 fromI8x16 MachineInt.wrappingShr
  | .i8x16ShrU => vShift u8x16 fromU8x16 MachineInt.wrappingShr
  | .i16x8Shl => vShift i16x8 fromI16x8 MachineInt.wrappingShl
  | .i16x8ShrS => vShift i16x8 fromI16x8 MachineInt.wrappingShr
  | .i16x8ShrU => vShift u16x8 fromU16x8 MachineInt.wrappingShr
  | .i32x4Shl => vShift i32x4 fromI32x4 MachineInt.wrappingShl
  | .i32x4ShrS => vShift i32x4 fromI32x4 MachineInt.wrappingShr
  | .i32x4ShrU => vShift u32x4 fromU32x4 MachineInt.wrappingShr
  | .i64x2Shl => vShift i64x2 fromI64x2 MachineInt.wrappingShl
  | .i64x2ShrS => vShift i64x2 fromI64x2 MachineInt.wrappingShr
  | .i64x2ShrU => vShift u64x2 fromU64x2 MachineInt.wrappingShr
  | s => execSimdIarith2 s

def execSimdIarith : SimdOp → NumEval 128 Unit
  | .i8x16Add => vBinop i8x16 fromI8x16 fun a b => a.wrappingAdd b
  | .i8x16Sub => vBinop i8x16 fromI8x16 fun a b => a.wrappingSub b
  | .i8x16Neg => vUnop i8x16 fromI8x16 MachineInt.wrappingNeg
  | .i8x16Abs => vUnop i8x16 fromI8x16 MachineInt.wrappingAbs
  | .i8x16Popcnt => vUnop u8x16 fromU8x16 fun x => .wrap x.countOnes
  | .i8x16MinS => vBinop i8x16 fromI8x16 fun a b => a.min b
  | .i8x16MinU => vBinop u8x16 fromU8x16 fun a b => a.min b
  | .i8x16MaxS => vBinop i8x16 fromI8x16 fun a b => a.max b
  | .i8x16MaxU => vBinop u8x16 fromU8x16 fun a b => a.max b
  | .i8x16AvgrU => vBinop u8x16 fromU8x16 fun a b => (avgr a.cast b.cast).map MachineInt.cast
  | .i8x16AllTrue => vAllTrue i8x16
  | .i8x16Bitmask => vBitmask i8x16
  | .i16x8Add => vBinop i16x8 fromI16x8 fun a b => a.wrappingAdd b
  | .i16x8Sub => vBinop i16x8 fromI16x8 fun a b => a.wrappingSub b
  | .i16x8Mul => vBinop i16x8 fromI16x8 fun a b => a.wrappingMul b
  | .i16x8Neg => vUnop i16x8 fromI16x8 MachineInt.wrappingNeg
  | .i16x8Abs => vUnop i16x8 fromI16x8 MachineInt.wrappingAbs
  | .i16x8MinS => vBinop i16x8 fromI16x8 fun a b => a.min b
  | .i16x8MinU => vBinop u16x8 fromU16x8 fun a b => a.min b
  | .i16x8MaxS => vBinop i16x8 fromI16x8 fun a b => a.max b
  | .i16x8MaxU => vBinop u16x8 fromU16x8 fun a b => a.max b
  | .i16x8AvgrU => vBinop u16x8 fromU16x8 fun a b => (avgr a.cast b.cast).map MachineInt.cast
  | .i16x8AllTrue => vAllTrue i16x8
  | .i16x8Bitmask => vBitmask i16x8
  | .i32x4Add => vBinop i32x4 fromI32x4 fun a b => a.wrappingAdd b
  | .i32x4Sub => vBinop i32x4 fromI32x4 fun a b => a.wrappingSub b
  | .i32x4Mul => vBinop i32x4 fromI32x4 fun a b => a.wrappingMul b
  | .i32x4Neg => vUnop i32x4 fromI32x4 MachineInt.wrappingNeg
  | .i32x4Abs => vUnop i32x4 fromI32x4 MachineInt.wrappingAbs
  | .i32x4MinS => vBinop i32x4 fromI32x4 fun a b => a.min b
  | .i32x4MinU => vBinop u32x4 fromU32x4 fun a b => a.min b
  | .i32x4MaxS => vBinop i32x4 fromI32x4 fun a b => a.max b
  | .i32x4MaxU => vBinop u32x4 fromU32x4 fun a b => a.max b
  | .i32x4AllTrue => vAllTrue i32x4
  | .i32x4Bitmask => vBitmask i32x4
  | .i64x2Add => vBinop i64x2 fromI64x2 fun a b => a.wrappingAdd b
  | .i64x2Sub => vBinop i64x2 fromI64x2 fun a b => a.wrappingSub b
  | .i64x2Mul => vBinop i64x2 fromI64x2 fun a b => a.wrappingMul b
  | .i64x2Neg => vUnop i64x2 fromI64x2 MachineInt.wrappingNeg
  | .i64x2Abs => vUnop i64x2 fromI64x2 MachineInt.wrappingAbs
  | .i64x2AllTrue => vAllTrue i64x2
  | .i64x2Bitmask => vBitmask i64x2
  | s => execSimdIcmp s

def execSimdBit : SimdOp → NumEval 128 Unit
  | .v128Not => do
    let a ← popV128
    pushV128 (~~~a)
  | .v128And => bitBinop fun a b => a &&& b
  | .v128Or => bitBinop fun a b => a ||| b
  | .v128Xor => bitBinop fun a b => a ^^^ b
  | .v128AndNot => bitBinop fun a b => a &&& ~~~b
  | .v128Bitselect => do
    let c ← popV128
    let v2 ← popV128
    let v1 ← popV128
    pushV128 (v1 &&& c ||| v2 &&& ~~~c)
  | .v128AnyTrue => do
    let v ← popV128
    pushI32 (.ofBool (v ≠ 0))
  | s => execSimdIarith s

def execSimdLane : SimdOp → NumEval 128 Unit
  | .v128Const bits => pushV128 bits
  | .i8x16Splat => do
    let x ← popI32
    pushV128 (fromI8x16 fun _ => x.cast)
  | .i16x8Splat => do
    let x ← popI32
    pushV128 (fromI16x8 fun _ => x.cast)
  | .i32x4Splat => do
    let x ← popI32
    pushV128 (fromI32x4 fun _ => x)
  | .i64x2Splat => do
    let x ← popI64
    pushV128 (fromI64x2 fun _ => x)
  | .i8x16ExtractLaneS l => extract fun v => pushI32 (i8x16 v l).cast
  | .i8x16ExtractLaneU l => extract fun v => pushI32 (u8x16 v l).cast
  | .i16x8ExtractLaneS l => extract fun v => pushI32 (i16x8 v l).cast
  | .i16x8ExtractLaneU l => extract fun v => pushI32 (u16x8 v l).cast
  | .i32x4ExtractLane l => extract fun v => pushI32 (i32x4 v l)
  | .i64x2ExtractLane l => extract fun v => pushI64 (i64x2 v l)
  | .i8x16ReplaceLane l => do
    let x ← popI32
    let v ← popV128
    pushV128 (fromI8x16 (Function.update (i8x16 v) l x.cast))
  | .i16x8ReplaceLane l => do
    let x ← popI32
    let v ← popV128
    pushV128 (fromI16x8 (Function.update (i16x8 v) l x.cast))
  | .i32x4ReplaceLane l => do
    let x ← popI32
    let v ← popV128
    pushV128 (fromI32x4 (Function.update (i32x4 v) l x))
  | .i64x2ReplaceLane l => do
    let x ← popI64
    let v ← popV128
    pushV128 (fromI64x2 (Function.update (i64x2 v) l x))
  | .i8x16Shuffle idx => do
    let b := u8x16 (← popV128)
    let a := u8x16 (← popV128)
    let ab (i : Fin 32) := if h : i < 16 then a ⟨i, h⟩ else b ⟨i - 16, by omega⟩
    pushV128 (fromU8x16 fun i => ab (idx i))
  | .i8x16Swizzle => swizzle
  | s => execSimdBit s

/-- `exec_simd`: no opcode here is a memory op. -/
def execSimd (op : SimdOp) : NumEval 128 Unit := execSimdLane op

/-! ## What the specification says -/

namespace Semantics

def vsplat (t : NumType) (w N : ℕ) : Semantics :=
  .unary t .v128 fun x => ofLanes w (fun _ => x % 2 ^ w) N

def vextract (w l : ℕ) (r : NumType) (f : ℕ → ℕ) : Semantics :=
  .unary .v128 r fun v => f (laneOf w l v)

def vreplace (t : NumType) (w N l : ℕ) : Semantics :=
  .binary .v128 t .v128 fun v x => ofLanes w (fun i => if i = l then x % 2 ^ w else laneOf w i v) N

/-- The lanes of both operands, selected by constants. -/
def vshuffle (idx : ℕ → ℕ) : Semantics :=
  .binary .v128 .v128 .v128 fun a b => ofLanes 8 (fun i =>
    if idx i < 16 then laneOf 8 (idx i) a else laneOf 8 (idx i - 16) b) 16

def vswizzle : Semantics :=
  .binary .v128 .v128 .v128 fun a s => ofLanes 8 (fun i =>
    if laneOf 8 i s < 16 then laneOf 8 (laneOf 8 i s) a else 0) 16

/-- The products of two pairs of lanes of `w` bits, read signed, in twice the width. -/
def products (w : ℕ) (a b : ℕ) (i : ℕ) : ℕ × ℕ :=
  (imul (2 * w) (extendS w (2 * w) (laneOf w (2 * i) a)) (extendS w (2 * w) (laneOf w (2 * i) b)),
    imul (2 * w) (extendS w (2 * w) (laneOf w (2 * i + 1) a))
      (extendS w (2 * w) (laneOf w (2 * i + 1) b)))

def vdot : Semantics :=
  .binary .v128 .v128 .v128 fun a b => ofLanes 32 (fun i =>
    iadd 32 (products 16 a b i).1 (products 16 a b i).2) 4

/-- A vector whose lanes are each among the allowed ones. -/
def Row (w N : ℕ) (P : ℕ → ℕ → Prop) (v : ℕ) : Prop :=
  ∃ g : ℕ → ℕ, v = ofLanes w g N ∧ ∀ i < N, P i (g i)

/-- An index from 16 to 127 may select zero or the lane it names modulo 16, and a larger one zero.
-/
def relaxedSwizzle : Semantics :=
  .relaxedBinary .v128 .v128 .v128 fun a s => Row 8 16 fun i x =>
    if laneOf 8 i s < 16 then x = laneOf 8 (laneOf 8 i s) a
    else x = 0 ∨ laneOf 8 i s < 128 ∧ x = laneOf 8 (laneOf 8 i s % 16) a

/-- The mask may select bit by bit, or a whole lane by its top bit. -/
def relaxedLaneselect (w N : ℕ) : Semantics :=
  .relaxedTernary .v128 .v128 .v128 .v128 fun a b m => Row w N fun i x =>
    x = ibitselect w (laneOf w i a) (laneOf w i b) (laneOf w i m) ∨
      x = if signed w (laneOf w i m) < 0 then laneOf w i a else laneOf w i b

/-- The one product that is too large may saturate or wrap. -/
def relaxedQ15mulr : Semantics :=
  .relaxedBinary .v128 .v128 .v128 fun a b => Row 16 8 fun i x =>
    x = satS 16 (iq15mulr 16 (laneOf 16 i a) (laneOf 16 i b)) ∨
      x = ofInt 16 (iq15mulr 16 (laneOf 16 i a) (laneOf 16 i b))

/-- The saturating sum of the products of two pairs of bytes, the second operand read signed or not.
-/
def dotLane (ext : ℕ → ℕ) (a b i : ℕ) : ℕ :=
  iaddSatS 16 (imul 16 (extendS 8 16 (laneOf 8 (2 * i) a)) (ext (laneOf 8 (2 * i) b)))
    (imul 16 (extendS 8 16 (laneOf 8 (2 * i + 1) a)) (ext (laneOf 8 (2 * i + 1) b)))

/-- What a lane of the relaxed dot product may be. -/
def DotLane (a b i x : ℕ) : Prop := x = dotLane (extendS 8 16) a b i ∨ x = dotLane id a b i

def relaxedDot : Semantics := .relaxedBinary .v128 .v128 .v128 fun a b => Row 16 8 (DotLane a b)

def relaxedDotAdd : Semantics :=
  .relaxedTernary .v128 .v128 .v128 .v128 fun a b c => Row 32 4 fun i x =>
    ∃ y z, DotLane a b (2 * i) y ∧ DotLane a b (2 * i + 1) z ∧
      x = iadd 32 (iadd 32 (extendS 16 32 y) (extendS 16 32 z)) (laneOf 32 i c)

end Semantics

/-- The operators of the vector opcodes. -/
def SimdOp.spec : SimdOp → Semantics
  | .v128Const bits => .constant .v128 bits.toNat
  | .i8x16Splat => .vsplat .i32 8 16
  | .i16x8Splat => .vsplat .i32 16 8
  | .i32x4Splat => .vsplat .i32 32 4
  | .i64x2Splat => .vsplat .i64 64 2
  | .i8x16ExtractLaneS l => .vextract 8 l .i32 (extendS 8 32)
  | .i8x16ExtractLaneU l => .vextract 8 l .i32 id
  | .i16x8ExtractLaneS l => .vextract 16 l .i32 (extendS 16 32)
  | .i16x8ExtractLaneU l => .vextract 16 l .i32 id
  | .i32x4ExtractLane l => .vextract 32 l .i32 id
  | .i64x2ExtractLane l => .vextract 64 l .i64 id
  | .i8x16ReplaceLane l => .vreplace .i32 8 16 l
  | .i16x8ReplaceLane l => .vreplace .i32 16 8 l
  | .i32x4ReplaceLane l => .vreplace .i32 32 4 l
  | .i64x2ReplaceLane l => .vreplace .i64 64 2 l
  | .i8x16Shuffle idx => .vshuffle fun i => idx (Fin.ofNat 16 i)
  | .i8x16Swizzle => .vswizzle
  | .v128Not => .unary .v128 .v128 (inot 128)
  | .v128And => .binary .v128 .v128 .v128 fun a b => a &&& b
  | .v128Or => .binary .v128 .v128 .v128 fun a b => a ||| b
  | .v128Xor => .binary .v128 .v128 .v128 fun a b => a ^^^ b
  | .v128AndNot => .binary .v128 .v128 .v128 fun a b => a &&& inot 128 b
  | .v128Bitselect => .ternary .v128 .v128 .v128 .v128 (ibitselect 128)
  | .v128AnyTrue => .unary .v128 .i32 fun v => ofBool (v ≠ 0)
  | .i8x16Add => .vbinop 8 16 (iadd 8)
  | .i8x16Sub => .vbinop 8 16 (isub 8)
  | .i8x16Neg => .vunop 8 16 (ineg 8)
  | .i8x16Abs => .vunop 8 16 (iabs 8)
  | .i8x16Popcnt => .vunop 8 16 (ipopcnt 8)
  | .i8x16MinS => .vbinop 8 16 (iminS 8)
  | .i8x16MinU => .vbinop 8 16 min
  | .i8x16MaxS => .vbinop 8 16 (imaxS 8)
  | .i8x16MaxU => .vbinop 8 16 max
  | .i8x16AvgrU => .vbinop 8 16 iavgrU
  | .i8x16AllTrue => .vallTrue 8 16
  | .i8x16Bitmask => .vbitmask 8 16
  | .i16x8Add => .vbinop 16 8 (iadd 16)
  | .i16x8Sub => .vbinop 16 8 (isub 16)
  | .i16x8Mul => .vbinop 16 8 (imul 16)
  | .i16x8Neg => .vunop 16 8 (ineg 16)
  | .i16x8Abs => .vunop 16 8 (iabs 16)
  | .i16x8MinS => .vbinop 16 8 (iminS 16)
  | .i16x8MinU => .vbinop 16 8 min
  | .i16x8MaxS => .vbinop 16 8 (imaxS 16)
  | .i16x8MaxU => .vbinop 16 8 max
  | .i16x8AvgrU => .vbinop 16 8 iavgrU
  | .i16x8AllTrue => .vallTrue 16 8
  | .i16x8Bitmask => .vbitmask 16 8
  | .i32x4Add => .vbinop 32 4 (iadd 32)
  | .i32x4Sub => .vbinop 32 4 (isub 32)
  | .i32x4Mul => .vbinop 32 4 (imul 32)
  | .i32x4Neg => .vunop 32 4 (ineg 32)
  | .i32x4Abs => .vunop 32 4 (iabs 32)
  | .i32x4MinS => .vbinop 32 4 (iminS 32)
  | .i32x4MinU => .vbinop 32 4 min
  | .i32x4MaxS => .vbinop 32 4 (imaxS 32)
  | .i32x4MaxU => .vbinop 32 4 max
  | .i32x4AllTrue => .vallTrue 32 4
  | .i32x4Bitmask => .vbitmask 32 4
  | .i64x2Add => .vbinop 64 2 (iadd 64)
  | .i64x2Sub => .vbinop 64 2 (isub 64)
  | .i64x2Mul => .vbinop 64 2 (imul 64)
  | .i64x2Neg => .vunop 64 2 (ineg 64)
  | .i64x2Abs => .vunop 64 2 (iabs 64)
  | .i64x2AllTrue => .vallTrue 64 2
  | .i64x2Bitmask => .vbitmask 64 2
  | .i8x16Eq => .vrelop 8 16 fun i j => i = j
  | .i8x16Ne => .vrelop 8 16 fun i j => i ≠ j
  | .i8x16LtS => .vrelop 8 16 fun i j => signed 8 i < signed 8 j
  | .i8x16LtU => .vrelop 8 16 fun i j => i < j
  | .i8x16GtS => .vrelop 8 16 fun i j => signed 8 i > signed 8 j
  | .i8x16GtU => .vrelop 8 16 fun i j => i > j
  | .i8x16LeS => .vrelop 8 16 fun i j => signed 8 i ≤ signed 8 j
  | .i8x16LeU => .vrelop 8 16 fun i j => i ≤ j
  | .i8x16GeS => .vrelop 8 16 fun i j => signed 8 i ≥ signed 8 j
  | .i8x16GeU => .vrelop 8 16 fun i j => i ≥ j
  | .i16x8Eq => .vrelop 16 8 fun i j => i = j
  | .i16x8Ne => .vrelop 16 8 fun i j => i ≠ j
  | .i16x8LtS => .vrelop 16 8 fun i j => signed 16 i < signed 16 j
  | .i16x8LtU => .vrelop 16 8 fun i j => i < j
  | .i16x8GtS => .vrelop 16 8 fun i j => signed 16 i > signed 16 j
  | .i16x8GtU => .vrelop 16 8 fun i j => i > j
  | .i16x8LeS => .vrelop 16 8 fun i j => signed 16 i ≤ signed 16 j
  | .i16x8LeU => .vrelop 16 8 fun i j => i ≤ j
  | .i16x8GeS => .vrelop 16 8 fun i j => signed 16 i ≥ signed 16 j
  | .i16x8GeU => .vrelop 16 8 fun i j => i ≥ j
  | .i32x4Eq => .vrelop 32 4 fun i j => i = j
  | .i32x4Ne => .vrelop 32 4 fun i j => i ≠ j
  | .i32x4LtS => .vrelop 32 4 fun i j => signed 32 i < signed 32 j
  | .i32x4LtU => .vrelop 32 4 fun i j => i < j
  | .i32x4GtS => .vrelop 32 4 fun i j => signed 32 i > signed 32 j
  | .i32x4GtU => .vrelop 32 4 fun i j => i > j
  | .i32x4LeS => .vrelop 32 4 fun i j => signed 32 i ≤ signed 32 j
  | .i32x4LeU => .vrelop 32 4 fun i j => i ≤ j
  | .i32x4GeS => .vrelop 32 4 fun i j => signed 32 i ≥ signed 32 j
  | .i32x4GeU => .vrelop 32 4 fun i j => i ≥ j
  | .i64x2Eq => .vrelop 64 2 fun i j => i = j
  | .i64x2Ne => .vrelop 64 2 fun i j => i ≠ j
  | .i64x2LtS => .vrelop 64 2 fun i j => signed 64 i < signed 64 j
  | .i64x2GtS => .vrelop 64 2 fun i j => signed 64 i > signed 64 j
  | .i64x2LeS => .vrelop 64 2 fun i j => signed 64 i ≤ signed 64 j
  | .i64x2GeS => .vrelop 64 2 fun i j => signed 64 i ≥ signed 64 j
  | .i8x16Shl => .vshift 8 16 (ishl 8)
  | .i8x16ShrS => .vshift 8 16 (ishrS 8)
  | .i8x16ShrU => .vshift 8 16 (ishrU 8)
  | .i16x8Shl => .vshift 16 8 (ishl 16)
  | .i16x8ShrS => .vshift 16 8 (ishrS 16)
  | .i16x8ShrU => .vshift 16 8 (ishrU 16)
  | .i32x4Shl => .vshift 32 4 (ishl 32)
  | .i32x4ShrS => .vshift 32 4 (ishrS 32)
  | .i32x4ShrU => .vshift 32 4 (ishrU 32)
  | .i64x2Shl => .vshift 64 2 (ishl 64)
  | .i64x2ShrS => .vshift 64 2 (ishrS 64)
  | .i64x2ShrU => .vshift 64 2 (ishrU 64)
  | .i8x16AddSatS => .vbinop 8 16 (iaddSatS 8)
  | .i8x16AddSatU => .vbinop 8 16 (iaddSatU 8)
  | .i8x16SubSatS => .vbinop 8 16 (isubSatS 8)
  | .i8x16SubSatU => .vbinop 8 16 (isubSatU 8)
  | .i16x8AddSatS => .vbinop 16 8 (iaddSatS 16)
  | .i16x8AddSatU => .vbinop 16 8 (iaddSatU 16)
  | .i16x8SubSatS => .vbinop 16 8 (isubSatS 16)
  | .i16x8SubSatU => .vbinop 16 8 (isubSatU 16)
  | .i16x8Q15MulrSatS => .vbinop 16 8 fun i j => satS 16 (iq15mulr 16 i j)
  | .i8x16NarrowI16x8S => .vnarrow 8 8 (narrowS 16 8)
  | .i8x16NarrowI16x8U => .vnarrow 8 8 (narrowU 16 8)
  | .i16x8NarrowI32x4S => .vnarrow 16 4 (narrowS 32 16)
  | .i16x8NarrowI32x4U => .vnarrow 16 4 (narrowU 32 16)
  | .i16x8ExtendLowI8x16S => .vextend 8 8 false (extendS 8 16)
  | .i16x8ExtendHighI8x16S => .vextend 8 8 true (extendS 8 16)
  | .i16x8ExtendLowI8x16U => .vextend 8 8 false id
  | .i16x8ExtendHighI8x16U => .vextend 8 8 true id
  | .i32x4ExtendLowI16x8S => .vextend 16 4 false (extendS 16 32)
  | .i32x4ExtendHighI16x8S => .vextend 16 4 true (extendS 16 32)
  | .i32x4ExtendLowI16x8U => .vextend 16 4 false id
  | .i32x4ExtendHighI16x8U => .vextend 16 4 true id
  | .i64x2ExtendLowI32x4S => .vextend 32 2 false (extendS 32 64)
  | .i64x2ExtendHighI32x4S => .vextend 32 2 true (extendS 32 64)
  | .i64x2ExtendLowI32x4U => .vextend 32 2 false id
  | .i64x2ExtendHighI32x4U => .vextend 32 2 true id
  | .i16x8ExtAddPairwiseI8x16S => .vextadd 8 8 (extendS 8 16)
  | .i16x8ExtAddPairwiseI8x16U => .vextadd 8 8 id
  | .i32x4ExtAddPairwiseI16x8S => .vextadd 16 4 (extendS 16 32)
  | .i32x4ExtAddPairwiseI16x8U => .vextadd 16 4 id
  | .i16x8ExtMulLowI8x16S => .vextmul 8 8 false (extendS 8 16)
  | .i16x8ExtMulHighI8x16S => .vextmul 8 8 true (extendS 8 16)
  | .i16x8ExtMulLowI8x16U => .vextmul 8 8 false id
  | .i16x8ExtMulHighI8x16U => .vextmul 8 8 true id
  | .i32x4ExtMulLowI16x8S => .vextmul 16 4 false (extendS 16 32)
  | .i32x4ExtMulHighI16x8S => .vextmul 16 4 true (extendS 16 32)
  | .i32x4ExtMulLowI16x8U => .vextmul 16 4 false id
  | .i32x4ExtMulHighI16x8U => .vextmul 16 4 true id
  | .i64x2ExtMulLowI32x4S => .vextmul 32 2 false (extendS 32 64)
  | .i64x2ExtMulHighI32x4S => .vextmul 32 2 true (extendS 32 64)
  | .i64x2ExtMulLowI32x4U => .vextmul 32 2 false id
  | .i64x2ExtMulHighI32x4U => .vextmul 32 2 true id
  | .i32x4DotI16x8S => .vdot
  | .i8x16RelaxedSwizzle => .relaxedSwizzle
  | .i8x16RelaxedLaneselect => .relaxedLaneselect 8 16
  | .i16x8RelaxedLaneselect => .relaxedLaneselect 16 8
  | .i32x4RelaxedLaneselect => .relaxedLaneselect 32 4
  | .i64x2RelaxedLaneselect => .relaxedLaneselect 64 2
  | .i16x8RelaxedQ15mulrS => .relaxedQ15mulr
  | .i16x8RelaxedDotI8x16I7x16S => .relaxedDot
  | .i32x4RelaxedDotI8x16I7x16AddS => .relaxedDotAdd

/-! ## Functions on lanes -/

section Lanewise

variable {w : ℕ}

theorem mul_computes_signed (w : ℕ) (hw : 0 < w) :
    Computes₂ (fun a b : MachineInt true w => (a.cast : MachineInt true (2 * w)).mul b.cast)
      fun i j => imul (2 * w) (extendS w (2 * w) i) (extendS w (2 * w) j) := by
  intro a b
  refine ⟨_, mul_cast a b hw, ?_⟩
  rw [wrappingMul_toNat, cast_toNat_signed, cast_toNat_signed]

theorem mul_computes_unsigned (w : ℕ) (hw : 0 < w) :
    Computes₂ (fun a b : MachineInt false w => (a.cast : MachineInt false (2 * w)).mul b.cast)
      fun i j => imul (2 * w) i j := by
  intro a b
  refine ⟨_, mul_cast a b hw, ?_⟩
  rw [wrappingMul_toNat, cast_toNat_unsigned a (by omega), cast_toNat_unsigned b (by omega)]

theorem add_computes_signed (w : ℕ) (hw : 0 < w) :
    Computes₂ (fun a b : MachineInt true w => (a.cast : MachineInt true (2 * w)).add b.cast)
      fun i j => iadd (2 * w) (extendS w (2 * w) i) (extendS w (2 * w) j) := by
  intro a b
  refine ⟨_, add_cast a b hw, ?_⟩
  rw [wrappingAdd_toNat, cast_toNat_signed, cast_toNat_signed]

theorem add_computes_unsigned (w : ℕ) (hw : 0 < w) :
    Computes₂ (fun a b : MachineInt false w => (a.cast : MachineInt false (2 * w)).add b.cast)
      fun i j => iadd (2 * w) i j := by
  intro a b
  refine ⟨_, add_cast a b hw, ?_⟩
  rw [wrappingAdd_toNat, cast_toNat_unsigned a (by omega), cast_toNat_unsigned b (by omega)]

/-- A sum of two small integers does not overflow 32 bits, and its average fits in theirs. -/
theorem avgr_computes (w : ℕ) (hw : w ≤ 16) {sg : Bool} :
    Computes₂ (fun a b : MachineInt false w => (avgr a.cast b.cast).map fun r =>
      (r.cast : MachineInt sg w))
      iavgrU := by
  intro a b
  have hpow : 2 ^ w ≤ 2 ^ 16 := Nat.pow_le_pow_right Nat.two_pos hw
  have ha := a.bits.isLt
  have hb := b.bits.isLt
  have hmin : MachineInt.minValue false 32 = 0 := rfl
  have hmax : MachineInt.maxValue false 32 = 2 ^ 32 - 1 := rfl
  have hsum : (a.cast : MachineInt false 32).add b.cast =
      some (.wrap ((a.bits.toNat : ℤ) + b.bits.toNat)) := by
    rw [MachineInt.add, cast_val_unsigned a (by omega), cast_val_unsigned b (by omega)]
    exact exact_eq (by rw [hmin, MachineInt.val_unsigned, MachineInt.val_unsigned]; omega)
      (by rw [hmax, MachineInt.val_unsigned, MachineInt.val_unsigned]; omega)
  have hval : (MachineInt.wrap ((a.bits.toNat : ℤ) + b.bits.toNat) : MachineInt false 32).val =
      a.bits.toNat + b.bits.toNat :=
    MachineInt.val_wrap (by decide) (by rw [hmin]; omega) (by rw [hmax]; omega)
  have htwo : (MachineInt.wrap 2 : MachineInt false 32).val = 2 := rfl
  have havg : avgr a.cast b.cast = some (.wrap (iavgrU a.bits.toNat b.bits.toNat : ℕ)) := by
    rw [avgr, hsum, Option.bind_eq_bind, Option.bind_some]
    have hceil : ((a.bits.toNat : ℤ) + b.bits.toNat) / 2 +
        (if ((a.bits.toNat : ℤ) + b.bits.toNat) % 2 = 0 then 0 else 1) =
          (iavgrU a.bits.toNat b.bits.toNat : ℕ) := by
      unfold iavgrU
      split <;> omega
    rw [MachineInt.divCeil, hval, htwo, if_neg (by decide), hceil]
    unfold iavgrU
    exact exact_eq (by rw [hmin]; omega) (by rw [hmax]; omega)
  refine ⟨(MachineInt.wrap (iavgrU a.bits.toNat b.bits.toNat : ℕ) : MachineInt false 32).cast, ?_,
    ?_⟩
  · show (avgr a.cast b.cast).map _ = _
    rw [havg, Option.map_some]
  rw [cast_toNat, MachineInt.val_wrap (by decide) (by rw [hmin]; omega)
    (by rw [hmax]; unfold iavgrU; omega), ofInt_natCast]
  unfold iavgrU
  exact Nat.mod_eq_of_lt (by omega)

theorem q15mulrSat_computes : Computes₂ q15mulrSat fun i j => satS 16 (iq15mulr 16 i j) := by
  intro a b
  obtain ⟨hlo, hhi⟩ := abs_le.mp (abs_mul_val_le a b)
  norm_num at hlo hhi
  have hmin : MachineInt.minValue true 32 = -2 ^ 31 := rfl
  have hmax : MachineInt.maxValue true 32 = 2 ^ 31 - 1 := rfl
  have hp : (a.cast : MachineInt true 32).mul b.cast = some (.wrap (a.val * b.val)) := by
    rw [MachineInt.mul, cast_val a (by decide) (by decide), cast_val b (by decide) (by decide)]
    exact exact_eq (by rw [hmin]; omega) (by rw [hmax]; omega)
  have hq : (MachineInt.wrap (a.val * b.val) : MachineInt true 32).add (.wrap 0x4000) =
      some (.wrap (a.val * b.val + 0x4000)) := by
    rw [MachineInt.add, MachineInt.val_wrap (by decide) (by rw [hmin]; omega) (by rw [hmax]; omega)]
    exact exact_eq (by rw [hmin]; show -2 ^ 31 ≤ a.val * b.val + 0x4000; omega)
      (by rw [hmax]; show a.val * b.val + 0x4000 ≤ 2 ^ 31 - 1; omega)
  have hr : (MachineInt.wrap (a.val * b.val + 0x4000) : MachineInt true 32).shr 15 =
      some (.wrap ((a.val * b.val + 0x4000) / 2 ^ 15)) := by
    rw [MachineInt.shr, if_pos (by decide),
      MachineInt.val_wrap (by decide) (by rw [hmin]; omega) (by rw [hmax]; omega)]
  have hrun : q15mulrSat a b = some ((MachineInt.clamp
      (MachineInt.wrap ((a.val * b.val + 0x4000) / 2 ^ 15)) (-32768) 32767 :
      MachineInt true 32).cast) := by
    rw [q15mulrSat, hp, Option.bind_eq_bind, Option.bind_some, hq, Option.bind_some, hr]
    rfl
  refine ⟨_, hrun, ?_⟩
  have hnarrow := @narrowS_toNat 32 true 16
    (MachineInt.wrap ((a.val * b.val + 0x4000) / 2 ^ 15)) (by decide) (by decide)
      (-32768) 32767 rfl rfl
  rw [narrowS, signed_toNat, MachineInt.val_wrap (by decide) (by rw [hmin]; omega)
    (by rw [hmax]; omega)]
    at hnarrow
  show _ = satS 16 ((signed 16 a.bits.toNat * signed 16 b.bits.toNat + 2 ^ 14) / 2 ^ 15)
  rw [signed_toNat, signed_toNat]
  exact hnarrow

theorem pairDot_eq (hw : 0 < w) (a b a' b' : MachineInt true w) :
    ∃ r, pairDot a b a' b' = some r ∧ r.bits.toNat =
      iadd (2 * w) (imul (2 * w) (extendS w (2 * w) a.bits.toNat) (extendS w (2 * w) b.bits.toNat))
        (imul (2 * w) (extendS w (2 * w) a'.bits.toNat) (extendS w (2 * w) b'.bits.toNat)) := by
  refine ⟨_, by rw [pairDot, mul_cast a b hw, mul_cast a' b' hw]; rfl, ?_⟩
  rw [wrappingAdd_toNat, wrappingMul_toNat, wrappingMul_toNat, cast_toNat_signed, cast_toNat_signed,
    cast_toNat_signed, cast_toNat_signed]

end Lanewise

/-! ## Single opcodes -/

theorem ishrS_mod (N i k : ℕ) : ishrS N i (k % N) = ishrS N i k := by rw [ishrS, Nat.mod_mod, ishrS]

theorem ishrU_mod (N i k : ℕ) : ishrU N i (k % N) = ishrU N i k := by rw [ishrU, Nat.mod_mod, ishrU]

section Opcodes

variable {sg : Bool} {w v N : ℕ} {split : BitVec 128 → Fin N → MachineInt sg w}
  {join : (Fin N → MachineInt sg w) → BitVec 128} {t : NumType} {run : NumEval 128 Unit}

theorem vsplat_meets (hj : Joins join) (ht : t.width = v) {f : MachineInt true v → MachineInt sg w}
    (hf : ∀ x, (f x).bits.toNat = x.bits.toNat % 2 ^ w)
    (hrun : ∀ a s, run (⟨a, .none⟩ :: s) = .ok ((), ⟨join fun _ => f (unwrapInt a), .none⟩ :: s)) :
    (Semantics.vsplat t w N).Meets run := by
  subst ht
  intro a s
  rw [hrun]
  refine .of_join hj (fun _ => ?_) s
  rw [hf, unwrapInt_toNat]
  rfl

theorem vextract_meets (hs : Splits split) (l : Fin N) (ht : t.width = v) (hv : v ≤ 128)
    {f : MachineInt sg w → MachineInt true v} {g : ℕ → ℕ}
    (hf : ∀ x, (f x).bits.toNat = g x.bits.toNat)
    (hrun : ∀ a s, run (⟨a, .none⟩ :: s) = .ok ((), ⟨fromInt (f (split a l)), .none⟩ :: s)) :
    (Semantics.vextract w l t g).Meets run := by
  intro a s
  rw [hrun, read_v128]
  beta_reduce
  rw [← hs, ← hf]
  exact .of_int ht hv _ s

theorem vreplace_meets (hs : Splits split) (hj : Joins join) (l : Fin N) (ht : t.width = v)
    {f : MachineInt true v → MachineInt sg w} (hf : ∀ x, (f x).bits.toNat = x.bits.toNat % 2 ^ w)
    (hrun : ∀ a b s, run (⟨b, .none⟩ :: ⟨a, .none⟩ :: s) =
      .ok ((), ⟨join (Function.update (split a) l (f (unwrapInt b))), .none⟩ :: s)) :
    (Semantics.vreplace t w N l).Meets run := by
  subst ht
  intro a b s
  rw [hrun, read_v128]
  refine .of_join hj (fun i => ?_) s
  by_cases hi : i = l
  · subst hi
    rw [Function.update_self, if_pos rfl, hf, unwrapInt_toNat]
    rfl
  · rw [Function.update_of_ne hi, if_neg (Fin.val_ne_of_ne hi), hs]

end Opcodes

theorem cast_spec {w w' : ℕ} {sg sg' : Bool} (h : w' ≤ w) (x : MachineInt sg w) :
    (x.cast : MachineInt sg' w').bits.toNat = x.bits.toNat % 2 ^ w' :=
  cast_toNat_of_le x h

theorem mod_spec {w : ℕ} {sg : Bool} (x : MachineInt sg w) : x.bits.toNat = x.bits.toNat % 2 ^ w :=
  (Nat.mod_eq_of_lt x.bits.isLt).symm

theorem shuffle_meets (idx : Fin 16 → Fin 32) :
    (SimdOp.i8x16Shuffle idx).spec.Meets (execSimd (.i8x16Shuffle idx)) := by
  intro a b s
  show Pushed (.ok ((), ⟨fromU8x16 _, .none⟩ :: s)) _ _ _
  rw [read_v128, read_v128]
  refine .of_join fromU8x16_joins (fun i => ?_) s
  beta_reduce
  rw [Fin.ofNat_eq_cast, Fin.cast_val_eq_self]
  by_cases h : (idx i : ℕ) < 16
  · have hlt : idx i < 16 := h
    rw [dif_pos hlt, if_pos h, u8x16_splits]
  · have hlt : ¬idx i < 16 := h
    rw [dif_neg hlt, if_neg h, u8x16_splits]

theorem swizzle_meets : Semantics.vswizzle.Meets swizzle := by
  intro a b s
  show Pushed (.ok ((), ⟨fromU8x16 _, .none⟩ :: s)) _ _ _
  rw [read_v128, read_v128]
  refine .of_join fromU8x16_joins (fun i => ?_) s
  rw [← u8x16_splits]
  split
  · rw [u8x16_splits]
  · rfl

/-- The lanes of a dot product of adjacent pairs. -/
theorem fromFn_pairDot {w N : ℕ} (hw : 0 < w) {split : BitVec 128 → Fin (2 * N) → MachineInt true w}
    (hs : Splits split) (a b : BitVec 128) :
    ∃ l, fromFn (fun i : Fin N => pairDot (split a ⟨2 * i, by omega⟩) (split b ⟨2 * i, by omega⟩)
        (split a ⟨2 * i + 1, by omega⟩) (split b ⟨2 * i + 1, by omega⟩)) = some l ∧
      ∀ i : Fin N, (l i).bits.toNat = iadd (2 * w) (Semantics.products w a.toNat b.toNat i).1
        (Semantics.products w a.toNat b.toNat i).2 := by
  choose l hl using fun i : Fin N => pairDot_eq hw (split a ⟨2 * i, by omega⟩)
    (split b ⟨2 * i, by omega⟩) (split a ⟨2 * i + 1, by omega⟩) (split b ⟨2 * i + 1, by omega⟩)
  refine ⟨l, fromFn_eq fun i => (hl i).1, fun i => ?_⟩
  rw [(hl i).2, hs, hs, hs, hs]
  rfl

theorem dot_meets : Semantics.vdot.Meets (execSimd .i32x4DotI16x8S) := by
  intro a b s
  obtain ⟨l, hl, hval⟩ := fromFn_pairDot (N := 4) (by decide) i16x8_splits a b
  have hrun : execSimd .i32x4DotI16x8S (⟨b, .none⟩ :: ⟨a, .none⟩ :: s) =
      .ok ((), ⟨fromI32x4 l, .none⟩ :: s) := by
    show ((orPanic (fromFn _)).map fun l => (l, s)).bind _ = _
    rw [hl]
    rfl
  rw [hrun, read_v128, read_v128]
  exact .of_join fromI32x4_joins hval s

theorem bitBinop_meets {f : BitVec 128 → BitVec 128 → BitVec 128} {g : ℕ → ℕ → ℕ}
    (h : ∀ a b, (f a b).toNat = g a.toNat b.toNat) :
    (Semantics.binary .v128 .v128 .v128 g).Meets (bitBinop f) := by
  intro a b s
  show Pushed (.ok ((), ⟨f a b, .none⟩ :: s)) _ _ _
  rw [read_v128, read_v128, ← h]
  exact .of_vector _ s

theorem andNot_toNat (a b : BitVec 128) : (a &&& ~~~b).toNat = a.toNat &&& inot 128 b.toNat := by
  rw [BitVec.toNat_and, BitVec.toNat_not, inot]

theorem bitselect_toNat (a b m : BitVec 128) :
    (a &&& m ||| b &&& ~~~m).toNat = ibitselect 128 a.toNat b.toNat m.toNat := by
  rw [BitVec.toNat_or, BitVec.toNat_and, andNot_toNat, ibitselect]

theorem not_meets : SimdOp.v128Not.spec.Meets (execSimd .v128Not) := by
  intro a s
  show Pushed (.ok ((), ⟨~~~a, .none⟩ :: s)) _ (inot 128 (NumType.v128.read a)) _
  rw [read_v128, inot, ← BitVec.toNat_not]
  exact .of_vector _ s

theorem bitselect_meets : SimdOp.v128Bitselect.spec.Meets (execSimd .v128Bitselect) := by
  intro a b m s
  show Pushed (.ok ((), ⟨a &&& m ||| b &&& ~~~m, .none⟩ :: s)) _ _ _
  rw [read_v128, read_v128, read_v128, ← bitselect_toNat]
  exact .of_vector _ s

theorem anyTrue_meets : SimdOp.v128AnyTrue.spec.Meets (execSimd .v128AnyTrue) := by
  intro a s
  have hne : a ≠ 0 ↔ a.toNat ≠ 0 := by
    rw [Ne, ← BitVec.toNat_inj]
    rfl
  show Pushed (.ok ((), ⟨fromInt (MachineInt.ofBool (a ≠ 0) : MachineInt true 32), .none⟩ :: s)) _
    (ofBool (NumType.v128.read a ≠ 0)) _
  rw [read_v128, ← ofBool_congr hne, ← ofBool_toNat (by decide : 0 < 32)]
  exact Pushed.of_int (r := .i32) rfl (by decide) _ s

/-! ## Relaxed opcodes -/

/-- A vector is a row of its lanes. -/
theorem row_of_lanes {w N : ℕ} (h : 128 = w * N) {P : ℕ → ℕ → Prop} (v : BitVec 128)
    (hP : ∀ i < N, P i (laneOf w i v.toNat)) : Semantics.Row w N P v.toNat :=
  ⟨_, ofLanes_laneOf_of_lt v.isLt h, hP⟩

theorem relaxedSwizzle_meets : Semantics.relaxedSwizzle.Meets swizzle := by
  intro a b s
  refine ⟨_, ?_, swizzle_meets a b s⟩
  refine ⟨_, rfl, fun i _ => ?_⟩
  split
  · rfl
  · exact .inl rfl

theorem laneselect_meets {w N : ℕ} (h : 128 = w * N) :
    (Semantics.relaxedLaneselect w N).Meets laneselect := by
  intro a b m s
  refine ⟨_, ?_, Pushed.of_vector (a &&& m ||| b &&& ~~~m) s⟩
  rw [read_v128, read_v128, read_v128]
  refine row_of_lanes h _ fun i hi => .inl ?_
  have hbits : w * (i + 1) ≤ 128 := h ▸ Nat.mul_le_mul_left w hi
  rw [bitselect_toNat, ibitselect, laneOf_or, laneOf_and, laneOf_and, inot, laneOf_not m.isLt hbits]
  rfl

theorem relaxedQ15mulr_meets :
    Semantics.relaxedQ15mulr.Meets (vBinop i16x8 fromI16x8 q15mulrSat) := by
  intro a b s
  rw [read_v128, read_v128]
  refine ⟨_, ?_, vBinop_pushed i16x8_splits fromI16x8_joins q15mulrSat_computes a b s⟩
  exact ⟨_, rfl, fun i _ => .inl rfl⟩

/-- The products of two signed bytes. -/
theorem byte_mul_bounds (a b : MachineInt true 8) :
    -16256 ≤ a.val * b.val ∧ a.val * b.val ≤ 16384 := by
  have ha : (-128 : ℤ) ≤ a.val := a.minValue_le
  have hb : (-128 : ℤ) ≤ b.val := b.minValue_le
  have ha' : a.val ≤ 127 := a.le_maxValue
  have hb' : b.val ≤ 127 := b.le_maxValue
  constructor <;> nlinarith

/-- The largest product is that of the least bytes. -/
theorem byte_mul_max {a b : MachineInt true 8} (h : a.val * b.val = 16384) :
    a.bits.toNat = 128 ∧ b.bits.toNat = 128 := by
  have ha : (-128 : ℤ) ≤ a.val := a.minValue_le
  have hb : (-128 : ℤ) ≤ b.val := b.minValue_le
  have ha' : a.val ≤ 127 := a.le_maxValue
  have hb' : b.val ≤ 127 := b.le_maxValue
  have hav : a.val = -128 := by
    by_contra hne
    have hlt : -127 ≤ a.val := by omega
    nlinarith
  have hbv : b.val = -128 := by
    rw [hav] at h
    omega
  exact ⟨by rw [← ofInt_val a, hav]; rfl, by rw [← ofInt_val b, hbv]; rfl⟩

theorem imul_signed (a b : MachineInt true 8) :
    imul 16 (extendS 8 16 a.bits.toNat) (extendS 8 16 b.bits.toNat) = ofInt 16 (a.val * b.val) := by
  have h := mul_bounds a b (by decide)
  have hcast : ∀ x : MachineInt true 8,
      (x.cast : MachineInt true 16).bits.toNat = extendS 8 16 x.bits.toNat := fun x =>
    cast_toNat_signed x
  rw [← hcast, ← hcast, ← wrappingMul_toNat, MachineInt.wrappingMul,
    cast_val a (by decide) (by decide), cast_val b (by decide) (by decide), toNat_wrap]

/-- The wrapping sum of two products of signed bytes saturates in one case, where it is the sum with
the second operands read unsigned. -/
theorem iadd_products (a b a' b' : MachineInt true 8) :
    let sum := fun ext : ℕ → ℕ => iaddSatS 16
      (imul 16 (extendS 8 16 a.bits.toNat) (ext b.bits.toNat))
      (imul 16 (extendS 8 16 a'.bits.toNat) (ext b'.bits.toNat))
    let x := iadd 16 (imul 16 (extendS 8 16 a.bits.toNat) (extendS 8 16 b.bits.toNat))
      (imul 16 (extendS 8 16 a'.bits.toNat) (extendS 8 16 b'.bits.toNat))
    x = sum (extendS 8 16) ∨ x = sum id := by
  intro sum x
  obtain ⟨hlo, hhi⟩ := byte_mul_bounds a b
  obtain ⟨hlo', hhi'⟩ := byte_mul_bounds a' b'
  by_cases h : a.val * b.val + a'.val * b'.val ≤ 32767
  · left
    have hsigned : ∀ y : ℤ, -16256 ≤ y → y ≤ 16384 → signed 16 (ofInt 16 y) = y :=
      fun y hy hy' => signed_ofInt (by decide) (by norm_num; omega) (by norm_num; omega)
    simp only [x, sum]
    rw [imul_signed, imul_signed, iaddSatS, hsigned _ hlo hhi, hsigned _ hlo' hhi', satS, iadd,
      ← ofInt_natCast, max_eq_right, min_eq_left]
    · apply ofInt_eq_of_emod
      rw [Nat.cast_add, natCast_ofInt, natCast_ofInt, ← Int.add_emod]
    · norm_num
      omega
    · norm_num
      omega
  · right
    obtain ⟨ha, hb⟩ := byte_mul_max (show a.val * b.val = 16384 by omega)
    obtain ⟨ha', hb'⟩ := byte_mul_max (show a'.val * b'.val = 16384 by omega)
    simp only [x, sum]
    rw [ha, hb, ha', hb']
    decide

/-- Each lane of the dot product is an allowed one. -/
theorem relaxedDot_lanes (a b : BitVec 128) :
    ∃ l, relaxedDot (i8x16 a) (i8x16 b) = some l ∧
      ∀ i : Fin 8, Semantics.DotLane a.toNat b.toNat i (l i).bits.toNat := by
  obtain ⟨l, hl, hval⟩ := fromFn_pairDot (N := 8) (by decide) i8x16_splits a b
  refine ⟨l, hl, fun i => ?_⟩
  rw [hval]
  have h := iadd_products (i8x16 a ⟨2 * i, by omega⟩) (i8x16 b ⟨2 * i, by omega⟩)
    (i8x16 a ⟨2 * i + 1, by omega⟩) (i8x16 b ⟨2 * i + 1, by omega⟩)
  simp only [i8x16_splits _ _] at h
  exact h

/-- The lanes of a vector, as a function of their number. -/
theorem exists_lanes {sg : Bool} {w N : ℕ} (l : Fin N → MachineInt sg w) :
    ∃ g : ℕ → ℕ, ∀ i : Fin N, (l i).bits.toNat = g i :=
  ⟨fun i => if h : i < N then (l ⟨i, h⟩).bits.toNat else 0, fun i => by
    beta_reduce
    rw [dif_pos i.isLt]⟩

theorem relaxedDot_meets :
    Semantics.relaxedDot.Meets (execSimd .i16x8RelaxedDotI8x16I7x16S) := by
  intro a b s
  obtain ⟨l, hl, hlane⟩ := relaxedDot_lanes a b
  have hrun : execSimd .i16x8RelaxedDotI8x16I7x16S (⟨b, .none⟩ :: ⟨a, .none⟩ :: s) =
      .ok ((), ⟨fromI16x8 l, .none⟩ :: s) := by
    show ((orPanic (relaxedDot (i8x16 a) (i8x16 b))).map fun l => (l, s)).bind _ = _
    rw [hl]
    rfl
  obtain ⟨g, hg⟩ := exists_lanes l
  rw [hrun, read_v128, read_v128]
  refine ⟨_, ⟨g, rfl, fun i hi => ?_⟩, .of_join fromI16x8_joins hg s⟩
  rw [← hg ⟨i, hi⟩]
  exact hlane ⟨i, hi⟩

theorem relaxedDotAdd_meets :
    Semantics.relaxedDotAdd.Meets (execSimd .i32x4RelaxedDotI8x16I7x16AddS) := by
  intro a b m s
  obtain ⟨d, hd, hlane⟩ := relaxedDot_lanes a b
  let l (j : Fin 4) : MachineInt true 32 :=
    ((d ⟨2 * j, by omega⟩).cast.wrappingAdd (d ⟨2 * j + 1, by omega⟩).cast).wrappingAdd (i32x4 m j)
  have hrun : execSimd .i32x4RelaxedDotI8x16I7x16AddS
    (⟨m, .none⟩ :: ⟨b, .none⟩ :: ⟨a, .none⟩ :: s) =
      .ok ((), ⟨fromI32x4 l, .none⟩ :: s) := by
    show ((orPanic (relaxedDot (i8x16 a) (i8x16 b))).map fun l => (l, s)).bind _ = _
    rw [hd]
    rfl
  obtain ⟨g, hg⟩ := exists_lanes l
  rw [hrun, read_v128, read_v128, read_v128]
  refine ⟨_, ⟨g, rfl, fun i hi => ?_⟩, .of_join fromI32x4_joins hg s⟩
  refine ⟨_, _, hlane ⟨2 * i, by omega⟩, hlane ⟨2 * i + 1, by omega⟩, ?_⟩
  rw [← hg ⟨i, hi⟩, wrappingAdd_toNat, wrappingAdd_toNat, cast_toNat_signed, cast_toNat_signed,
    i32x4_splits]

/-! ## All opcodes -/

/-- An opcode does what its operator says. -/
theorem execSimd_meets (op : SimdOp) : op.spec.Meets (execSimd op) := by
  cases op with
  | v128Const bits => exact fun s => .of_vector bits s
  | i8x16Splat => exact vsplat_meets fromI8x16_joins rfl (cast_spec (by decide)) fun _ _ => rfl
  | i16x8Splat => exact vsplat_meets fromI16x8_joins rfl (cast_spec (by decide)) fun _ _ => rfl
  | i32x4Splat => exact vsplat_meets fromI32x4_joins rfl mod_spec fun _ _ => rfl
  | i64x2Splat => exact vsplat_meets fromI64x2_joins rfl mod_spec fun _ _ => rfl
  | i8x16ExtractLaneS l =>
    exact vextract_meets i8x16_splits l rfl (by decide) cast_toNat_signed fun _ _ => rfl
  | i8x16ExtractLaneU l =>
    exact vextract_meets u8x16_splits l rfl (by decide)
      (fun x => cast_toNat_unsigned x (by decide)) fun _ _ => rfl
  | i16x8ExtractLaneS l =>
    exact vextract_meets i16x8_splits l rfl (by decide) cast_toNat_signed fun _ _ => rfl
  | i16x8ExtractLaneU l =>
    exact vextract_meets u16x8_splits l rfl (by decide)
      (fun x => cast_toNat_unsigned x (by decide)) fun _ _ => rfl
  | i32x4ExtractLane l =>
    exact vextract_meets i32x4_splits l rfl (by decide) (f := id) (fun _ => rfl) fun _ _ => rfl
  | i64x2ExtractLane l =>
    exact vextract_meets i64x2_splits l rfl (by decide) (f := id) (fun _ => rfl) fun _ _ => rfl
  | i8x16ReplaceLane l =>
    exact vreplace_meets i8x16_splits fromI8x16_joins l rfl (cast_spec (by decide)) fun _ _ _ => rfl
  | i16x8ReplaceLane l =>
    exact vreplace_meets i16x8_splits fromI16x8_joins l rfl (cast_spec (by decide)) fun _ _ _ => rfl
  | i32x4ReplaceLane l =>
    exact vreplace_meets i32x4_splits fromI32x4_joins l rfl mod_spec fun _ _ _ => rfl
  | i64x2ReplaceLane l =>
    exact vreplace_meets i64x2_splits fromI64x2_joins l rfl mod_spec fun _ _ _ => rfl
  | i8x16Shuffle idx => exact shuffle_meets idx
  | i8x16Swizzle => exact swizzle_meets
  | v128Not => exact not_meets
  | v128And => exact bitBinop_meets fun a b => BitVec.toNat_and a b
  | v128Or => exact bitBinop_meets fun a b => BitVec.toNat_or a b
  | v128Xor => exact bitBinop_meets fun a b => BitVec.toNat_xor a b
  | v128AndNot => exact bitBinop_meets fun a b => andNot_toNat a b
  | v128Bitselect => exact bitselect_meets
  | v128AnyTrue => exact anyTrue_meets
  | i8x16Add => exact vBinop_total i8x16_splits fromI8x16_joins wrappingAdd_toNat
  | i8x16Sub => exact vBinop_total i8x16_splits fromI8x16_joins wrappingSub_toNat
  | i8x16Neg => exact vUnop_meets i8x16_splits fromI8x16_joins wrappingNeg_toNat
  | i8x16Abs => exact vUnop_meets i8x16_splits fromI8x16_joins wrappingAbs_toNat
  | i8x16Popcnt => exact vUnop_meets u8x16_splits fromU8x16_joins popcnt_spec
  | i8x16MinS => exact vBinop_total i8x16_splits fromI8x16_joins min_toNat_signed
  | i8x16MinU => exact vBinop_total u8x16_splits fromU8x16_joins min_toNat_unsigned
  | i8x16MaxS => exact vBinop_total i8x16_splits fromI8x16_joins max_toNat_signed
  | i8x16MaxU => exact vBinop_total u8x16_splits fromU8x16_joins max_toNat_unsigned
  | i8x16AvgrU => exact vBinop_meets u8x16_splits fromU8x16_joins (avgr_computes 8 (by decide))
  | i8x16AllTrue => exact vAllTrue_meets i8x16_splits
  | i8x16Bitmask => exact vBitmask_meets (by decide) i8x16_splits
  | i16x8Add => exact vBinop_total i16x8_splits fromI16x8_joins wrappingAdd_toNat
  | i16x8Sub => exact vBinop_total i16x8_splits fromI16x8_joins wrappingSub_toNat
  | i16x8Mul => exact vBinop_total i16x8_splits fromI16x8_joins wrappingMul_toNat
  | i16x8Neg => exact vUnop_meets i16x8_splits fromI16x8_joins wrappingNeg_toNat
  | i16x8Abs => exact vUnop_meets i16x8_splits fromI16x8_joins wrappingAbs_toNat
  | i16x8MinS => exact vBinop_total i16x8_splits fromI16x8_joins min_toNat_signed
  | i16x8MinU => exact vBinop_total u16x8_splits fromU16x8_joins min_toNat_unsigned
  | i16x8MaxS => exact vBinop_total i16x8_splits fromI16x8_joins max_toNat_signed
  | i16x8MaxU => exact vBinop_total u16x8_splits fromU16x8_joins max_toNat_unsigned
  | i16x8AvgrU => exact vBinop_meets u16x8_splits fromU16x8_joins (avgr_computes 16 (by decide))
  | i16x8AllTrue => exact vAllTrue_meets i16x8_splits
  | i16x8Bitmask => exact vBitmask_meets (by decide) i16x8_splits
  | i32x4Add => exact vBinop_total i32x4_splits fromI32x4_joins wrappingAdd_toNat
  | i32x4Sub => exact vBinop_total i32x4_splits fromI32x4_joins wrappingSub_toNat
  | i32x4Mul => exact vBinop_total i32x4_splits fromI32x4_joins wrappingMul_toNat
  | i32x4Neg => exact vUnop_meets i32x4_splits fromI32x4_joins wrappingNeg_toNat
  | i32x4Abs => exact vUnop_meets i32x4_splits fromI32x4_joins wrappingAbs_toNat
  | i32x4MinS => exact vBinop_total i32x4_splits fromI32x4_joins min_toNat_signed
  | i32x4MinU => exact vBinop_total u32x4_splits fromU32x4_joins min_toNat_unsigned
  | i32x4MaxS => exact vBinop_total i32x4_splits fromI32x4_joins max_toNat_signed
  | i32x4MaxU => exact vBinop_total u32x4_splits fromU32x4_joins max_toNat_unsigned
  | i32x4AllTrue => exact vAllTrue_meets i32x4_splits
  | i32x4Bitmask => exact vBitmask_meets (by decide) i32x4_splits
  | i64x2Add => exact vBinop_total i64x2_splits fromI64x2_joins wrappingAdd_toNat
  | i64x2Sub => exact vBinop_total i64x2_splits fromI64x2_joins wrappingSub_toNat
  | i64x2Mul => exact vBinop_total i64x2_splits fromI64x2_joins wrappingMul_toNat
  | i64x2Neg => exact vUnop_meets i64x2_splits fromI64x2_joins wrappingNeg_toNat
  | i64x2Abs => exact vUnop_meets i64x2_splits fromI64x2_joins wrappingAbs_toNat
  | i64x2AllTrue => exact vAllTrue_meets i64x2_splits
  | i64x2Bitmask => exact vBitmask_meets (by decide) i64x2_splits
  | i8x16Eq => exact vCmp_meets rfl rfl i8x16_splits eq_iff
  | i8x16Ne => exact vCmp_meets rfl rfl i8x16_splits fun a b => (eq_iff a b).not
  | i8x16LtS => exact vCmp_meets rfl rfl i8x16_splits lt_signed
  | i8x16LtU => exact vCmp_meets rfl rfl u8x16_splits lt_unsigned
  | i8x16GtS => exact vCmp_meets rfl rfl i8x16_splits fun a b => lt_signed b a
  | i8x16GtU => exact vCmp_meets rfl rfl u8x16_splits fun a b => lt_unsigned b a
  | i8x16LeS => exact vCmp_meets rfl rfl i8x16_splits le_signed
  | i8x16LeU => exact vCmp_meets rfl rfl u8x16_splits le_unsigned
  | i8x16GeS => exact vCmp_meets rfl rfl i8x16_splits fun a b => le_signed b a
  | i8x16GeU => exact vCmp_meets rfl rfl u8x16_splits fun a b => le_unsigned b a
  | i16x8Eq => exact vCmp_meets rfl rfl i16x8_splits eq_iff
  | i16x8Ne => exact vCmp_meets rfl rfl i16x8_splits fun a b => (eq_iff a b).not
  | i16x8LtS => exact vCmp_meets rfl rfl i16x8_splits lt_signed
  | i16x8LtU => exact vCmp_meets rfl rfl u16x8_splits lt_unsigned
  | i16x8GtS => exact vCmp_meets rfl rfl i16x8_splits fun a b => lt_signed b a
  | i16x8GtU => exact vCmp_meets rfl rfl u16x8_splits fun a b => lt_unsigned b a
  | i16x8LeS => exact vCmp_meets rfl rfl i16x8_splits le_signed
  | i16x8LeU => exact vCmp_meets rfl rfl u16x8_splits le_unsigned
  | i16x8GeS => exact vCmp_meets rfl rfl i16x8_splits fun a b => le_signed b a
  | i16x8GeU => exact vCmp_meets rfl rfl u16x8_splits fun a b => le_unsigned b a
  | i32x4Eq => exact vCmp_meets rfl rfl i32x4_splits eq_iff
  | i32x4Ne => exact vCmp_meets rfl rfl i32x4_splits fun a b => (eq_iff a b).not
  | i32x4LtS => exact vCmp_meets rfl rfl i32x4_splits lt_signed
  | i32x4LtU => exact vCmp_meets rfl rfl u32x4_splits lt_unsigned
  | i32x4GtS => exact vCmp_meets rfl rfl i32x4_splits fun a b => lt_signed b a
  | i32x4GtU => exact vCmp_meets rfl rfl u32x4_splits fun a b => lt_unsigned b a
  | i32x4LeS => exact vCmp_meets rfl rfl i32x4_splits le_signed
  | i32x4LeU => exact vCmp_meets rfl rfl u32x4_splits le_unsigned
  | i32x4GeS => exact vCmp_meets rfl rfl i32x4_splits fun a b => le_signed b a
  | i32x4GeU => exact vCmp_meets rfl rfl u32x4_splits fun a b => le_unsigned b a
  | i64x2Eq => exact vCmp_meets rfl rfl i64x2_splits eq_iff
  | i64x2Ne => exact vCmp_meets rfl rfl i64x2_splits fun a b => (eq_iff a b).not
  | i64x2LtS => exact vCmp_meets rfl rfl i64x2_splits lt_signed
  | i64x2GtS => exact vCmp_meets rfl rfl i64x2_splits fun a b => lt_signed b a
  | i64x2LeS => exact vCmp_meets rfl rfl i64x2_splits le_signed
  | i64x2GeS => exact vCmp_meets rfl rfl i64x2_splits fun a b => le_signed b a
  | i8x16Shl => exact vShift_meets rfl i8x16_splits fromI8x16_joins wrappingShl_toNat (ishl_mod 8)
  | i8x16ShrS =>
    exact vShift_meets rfl i8x16_splits fromI8x16_joins wrappingShr_toNat_signed (ishrS_mod 8)
  | i8x16ShrU =>
    exact vShift_meets rfl u8x16_splits fromU8x16_joins wrappingShr_toNat_unsigned (ishrU_mod 8)
  | i16x8Shl => exact vShift_meets rfl i16x8_splits fromI16x8_joins wrappingShl_toNat (ishl_mod 16)
  | i16x8ShrS =>
    exact vShift_meets rfl i16x8_splits fromI16x8_joins wrappingShr_toNat_signed (ishrS_mod 16)
  | i16x8ShrU =>
    exact vShift_meets rfl u16x8_splits fromU16x8_joins wrappingShr_toNat_unsigned (ishrU_mod 16)
  | i32x4Shl => exact vShift_meets rfl i32x4_splits fromI32x4_joins wrappingShl_toNat (ishl_mod 32)
  | i32x4ShrS =>
    exact vShift_meets rfl i32x4_splits fromI32x4_joins wrappingShr_toNat_signed (ishrS_mod 32)
  | i32x4ShrU =>
    exact vShift_meets rfl u32x4_splits fromU32x4_joins wrappingShr_toNat_unsigned (ishrU_mod 32)
  | i64x2Shl => exact vShift_meets rfl i64x2_splits fromI64x2_joins wrappingShl_toNat (ishl_mod 64)
  | i64x2ShrS =>
    exact vShift_meets rfl i64x2_splits fromI64x2_joins wrappingShr_toNat_signed (ishrS_mod 64)
  | i64x2ShrU =>
    exact vShift_meets rfl u64x2_splits fromU64x2_joins wrappingShr_toNat_unsigned (ishrU_mod 64)
  | i8x16AddSatS => exact vBinop_total i8x16_splits fromI8x16_joins saturatingAdd_toNat_signed
  | i8x16AddSatU => exact vBinop_total u8x16_splits fromU8x16_joins saturatingAdd_toNat_unsigned
  | i8x16SubSatS => exact vBinop_total i8x16_splits fromI8x16_joins saturatingSub_toNat_signed
  | i8x16SubSatU => exact vBinop_total u8x16_splits fromU8x16_joins saturatingSub_toNat_unsigned
  | i16x8AddSatS => exact vBinop_total i16x8_splits fromI16x8_joins saturatingAdd_toNat_signed
  | i16x8AddSatU => exact vBinop_total u16x8_splits fromU16x8_joins saturatingAdd_toNat_unsigned
  | i16x8SubSatS => exact vBinop_total i16x8_splits fromI16x8_joins saturatingSub_toNat_signed
  | i16x8SubSatU => exact vBinop_total u16x8_splits fromU16x8_joins saturatingSub_toNat_unsigned
  | i16x8Q15MulrSatS => exact vBinop_meets i16x8_splits fromI16x8_joins q15mulrSat_computes
  | i8x16NarrowI16x8S =>
    exact vNarrow_meets 8 8 i16x8_splits fromI8x16_joins fun a =>
      narrowS_toNat a (by decide) (by decide) rfl rfl
  | i8x16NarrowI16x8U =>
    exact vNarrow_meets 8 8 i16x8_splits fromU8x16_joins fun a => narrowU_toNat a (by decide) rfl
  | i16x8NarrowI32x4S =>
    exact vNarrow_meets 16 4 i32x4_splits fromI16x8_joins fun a =>
      narrowS_toNat a (by decide) (by decide) rfl rfl
  | i16x8NarrowI32x4U =>
    exact vNarrow_meets 16 4 i32x4_splits fromU16x8_joins fun a => narrowU_toNat a (by decide) rfl
  | i16x8ExtendLowI8x16S => exact vExtend_meets 8 8 i8x16_splits fromI16x8_joins cast_toNat_signed
  | i16x8ExtendHighI8x16S => exact vExtend_meets 8 8 i8x16_splits fromI16x8_joins cast_toNat_signed
  | i16x8ExtendLowI8x16U =>
    exact vExtend_meets 8 8 u8x16_splits fromU16x8_joins fun a => cast_toNat_unsigned a (by decide)
  | i16x8ExtendHighI8x16U =>
    exact vExtend_meets 8 8 u8x16_splits fromU16x8_joins fun a => cast_toNat_unsigned a (by decide)
  | i32x4ExtendLowI16x8S => exact vExtend_meets 16 4 i16x8_splits fromI32x4_joins cast_toNat_signed
  | i32x4ExtendHighI16x8S => exact vExtend_meets 16 4 i16x8_splits fromI32x4_joins cast_toNat_signed
  | i32x4ExtendLowI16x8U =>
    exact vExtend_meets 16 4 u16x8_splits fromU32x4_joins fun a => cast_toNat_unsigned a (by decide)
  | i32x4ExtendHighI16x8U =>
    exact vExtend_meets 16 4 u16x8_splits fromU32x4_joins fun a => cast_toNat_unsigned a (by decide)
  | i64x2ExtendLowI32x4S => exact vExtend_meets 32 2 i32x4_splits fromI64x2_joins cast_toNat_signed
  | i64x2ExtendHighI32x4S => exact vExtend_meets 32 2 i32x4_splits fromI64x2_joins cast_toNat_signed
  | i64x2ExtendLowI32x4U =>
    exact vExtend_meets 32 2 u32x4_splits fromU64x2_joins fun a => cast_toNat_unsigned a (by decide)
  | i64x2ExtendHighI32x4U =>
    exact vExtend_meets 32 2 u32x4_splits fromU64x2_joins fun a => cast_toNat_unsigned a (by decide)
  | i16x8ExtAddPairwiseI8x16S =>
    exact vExtadd_meets 8 8 i8x16_splits fromI16x8_joins (add_computes_signed 8 (by decide))
  | i16x8ExtAddPairwiseI8x16U =>
    exact vExtadd_meets 8 8 u8x16_splits fromU16x8_joins (add_computes_unsigned 8 (by decide))
  | i32x4ExtAddPairwiseI16x8S =>
    exact vExtadd_meets 16 4 i16x8_splits fromI32x4_joins (add_computes_signed 16 (by decide))
  | i32x4ExtAddPairwiseI16x8U =>
    exact vExtadd_meets 16 4 u16x8_splits fromU32x4_joins (add_computes_unsigned 16 (by decide))
  | i16x8ExtMulLowI8x16S =>
    exact vExtmul_meets 8 8 i8x16_splits fromI16x8_joins (mul_computes_signed 8 (by decide))
  | i16x8ExtMulHighI8x16S =>
    exact vExtmul_meets 8 8 i8x16_splits fromI16x8_joins (mul_computes_signed 8 (by decide))
  | i16x8ExtMulLowI8x16U =>
    exact vExtmul_meets 8 8 u8x16_splits fromU16x8_joins (mul_computes_unsigned 8 (by decide))
  | i16x8ExtMulHighI8x16U =>
    exact vExtmul_meets 8 8 u8x16_splits fromU16x8_joins (mul_computes_unsigned 8 (by decide))
  | i32x4ExtMulLowI16x8S =>
    exact vExtmul_meets 16 4 i16x8_splits fromI32x4_joins (mul_computes_signed 16 (by decide))
  | i32x4ExtMulHighI16x8S =>
    exact vExtmul_meets 16 4 i16x8_splits fromI32x4_joins (mul_computes_signed 16 (by decide))
  | i32x4ExtMulLowI16x8U =>
    exact vExtmul_meets 16 4 u16x8_splits fromU32x4_joins (mul_computes_unsigned 16 (by decide))
  | i32x4ExtMulHighI16x8U =>
    exact vExtmul_meets 16 4 u16x8_splits fromU32x4_joins (mul_computes_unsigned 16 (by decide))
  | i64x2ExtMulLowI32x4S =>
    exact vExtmul_meets 32 2 i32x4_splits fromI64x2_joins (mul_computes_signed 32 (by decide))
  | i64x2ExtMulHighI32x4S =>
    exact vExtmul_meets 32 2 i32x4_splits fromI64x2_joins (mul_computes_signed 32 (by decide))
  | i64x2ExtMulLowI32x4U =>
    exact vExtmul_meets 32 2 u32x4_splits fromU64x2_joins (mul_computes_unsigned 32 (by decide))
  | i64x2ExtMulHighI32x4U =>
    exact vExtmul_meets 32 2 u32x4_splits fromU64x2_joins (mul_computes_unsigned 32 (by decide))
  | i32x4DotI16x8S => exact dot_meets
  | i8x16RelaxedSwizzle => exact relaxedSwizzle_meets
  | i8x16RelaxedLaneselect => exact laneselect_meets (by decide)
  | i16x8RelaxedLaneselect => exact laneselect_meets (by decide)
  | i32x4RelaxedLaneselect => exact laneselect_meets (by decide)
  | i64x2RelaxedLaneselect => exact laneselect_meets (by decide)
  | i16x8RelaxedQ15mulrS => exact relaxedQ15mulr_meets
  | i16x8RelaxedDotI8x16I7x16S => exact relaxedDot_meets
  | i32x4RelaxedDotI8x16I7x16AddS => exact relaxedDotAdd_meets

/-- **Every integer opcode, scalar or vector, pushes the value of its operator, or traps as it
does.** -/
theorem integer_semantics :
    (∀ (simd : SimdFeature) (op : NumericOp),
      op.spec.Meets (execNumeric op : NumEval simd.slotBits Unit)) ∧
      ∀ op : SimdOp, op.spec.Meets (execSimd op) := by
  constructor
  · intro simd op
    refine execNumeric_meets ?_ op
    cases simd <;> decide
  · exact execSimd_meets

end SubmilliWasm.Numeric
