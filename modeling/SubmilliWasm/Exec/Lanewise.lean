/-
# Vectors and their lanes

A `v128` split into typed lanes and joined from them, byte by byte (`src/exec/simd/lanes.rs`), and
the lanewise combinators of the vector dispatch (`src/exec/simd/mod.rs`, `iarith.rs`,
`iarith2.rs`).  The lane counts and widths are parameters, as the source's const generics are.

Each combinator is compared once with what the specification says of all lanes; the opcodes then
differ in the function on one lane.
-/
import SubmilliWasm.Exec.Numeric
import SubmilliWasm.Lib.Lanes

namespace SubmilliWasm.Numeric

open WasmNumerics Lanes

/-! ## Bytes and lanes -/

def toLeBytes {w k : ℕ} (v : BitVec w) : Fin k → BitVec 8 := fun i => v.extractLsb' (8 * i) 8

def fromLeBytes {w k : ℕ} (b : Fin k → BitVec 8) : BitVec w :=
  BitVec.ofNat w (ofLanes 8 (fun j => if h : j < k then (b ⟨j, h⟩).toNat else 0) k)

section Bytes

variable {N W : ℕ} (h : N * W = 16)

/-- The bytes of one lane (`chunk2`, `chunk4`, `chunk8`). -/
def chunk (b : Fin 16 → BitVec 8) (i : Fin N) : Fin W → BitVec 8 := fun k =>
  b ⟨i * W + k, by
    have hi : (i + 1) * W ≤ N * W := Nat.mul_le_mul_right W i.isLt
    have hk := k.isLt
    rw [Nat.succ_mul] at hi
    omega⟩

/-- Lane `i` is written to the bytes from `i * W` on. -/
def pack (lanes : Fin N → Fin W → BitVec 8) : BitVec 128 :=
  fromLeBytes fun m : Fin 16 =>
    lanes ⟨m / W, Nat.div_lt_of_lt_mul (by rw [Nat.mul_comm, h]; exact m.isLt)⟩
      ⟨m % W, Nat.mod_lt _ (Nat.pos_of_ne_zero fun hW => by rw [hW] at h; cases h)⟩

def splitLanes {sg : Bool} (v : BitVec 128) : Fin N → MachineInt sg (8 * W) := fun i =>
  ⟨fromLeBytes (chunk h (toLeBytes v) i)⟩

def joinLanes {sg : Bool} (l : Fin N → MachineInt sg (8 * W)) : BitVec 128 :=
  pack h fun i => toLeBytes (l i).bits

end Bytes

def i8x16 (v : BitVec 128) : Fin 16 → MachineInt true 8 := fun i => ⟨toLeBytes v i⟩

def u8x16 (v : BitVec 128) : Fin 16 → MachineInt false 8 := fun i => ⟨toLeBytes v i⟩

def i16x8 : BitVec 128 → Fin 8 → MachineInt true 16 := @splitLanes 8 2 rfl _

def u16x8 : BitVec 128 → Fin 8 → MachineInt false 16 := @splitLanes 8 2 rfl _

def i32x4 : BitVec 128 → Fin 4 → MachineInt true 32 := @splitLanes 4 4 rfl _

def u32x4 : BitVec 128 → Fin 4 → MachineInt false 32 := @splitLanes 4 4 rfl _

def i64x2 : BitVec 128 → Fin 2 → MachineInt true 64 := @splitLanes 2 8 rfl _

def u64x2 : BitVec 128 → Fin 2 → MachineInt false 64 := @splitLanes 2 8 rfl _

def fromI8x16 (l : Fin 16 → MachineInt true 8) : BitVec 128 := fromLeBytes fun i => (l i).bits

def fromU8x16 (l : Fin 16 → MachineInt false 8) : BitVec 128 := fromLeBytes fun i => (l i).bits

def fromI16x8 : (Fin 8 → MachineInt true 16) → BitVec 128 := @joinLanes 8 2 rfl _

def fromU16x8 : (Fin 8 → MachineInt false 16) → BitVec 128 := @joinLanes 8 2 rfl _

def fromI32x4 : (Fin 4 → MachineInt true 32) → BitVec 128 := @joinLanes 4 4 rfl _

def fromU32x4 : (Fin 4 → MachineInt false 32) → BitVec 128 := @joinLanes 4 4 rfl _

def fromI64x2 : (Fin 2 → MachineInt true 64) → BitVec 128 := @joinLanes 2 8 rfl _

def fromU64x2 : (Fin 2 → MachineInt false 64) → BitVec 128 := @joinLanes 2 8 rfl _

/-! ## Combinators -/

/-- A computation that panics where one of its plain operators has no result. -/
abbrev Checked : Type → Type := Option

/-- The array of a function that can panic. -/
def fromFn {α : Type} {N : ℕ} (f : Fin N → Checked α) : Checked (Fin N → α) :=
  if h : ∀ i, (f i).isSome then some fun i => (f i).get (h i) else none

def checked {α : Type} {n : ℕ} (x : Checked α) : NumEval n α := fun s => (orPanic x).map (·, s)

def popV128 : NumEval 128 (BitVec 128) := popScalar

def pushV128 (v : BitVec 128) : NumEval 128 Unit := pushScalar v

section Combinators

variable {sg sg' : Bool} {w w' N : ℕ}

def vBinop (split : BitVec 128 → Fin N → MachineInt sg w)
    (join : (Fin N → MachineInt sg w) → BitVec 128)
    (f : MachineInt sg w → MachineInt sg w → Checked (MachineInt sg w)) : NumEval 128 Unit := do
  let b ← popV128
  let a ← popV128
  let l ← checked (fromFn fun i => f (split a i) (split b i))
  pushV128 (join l)

def vUnop (split : BitVec 128 → Fin N → MachineInt sg w)
    (join : (Fin N → MachineInt sg w) → BitVec 128)
    (f : MachineInt sg w → MachineInt sg w) : NumEval 128 Unit := do
  let a ← popV128
  pushV128 (join fun i => f (split a i))

/-- The bytes of a lane are all ones where its mask is set. -/
def cmpMask (h : N * (16 / N) = 16) (mask : Fin N → Bool) : BitVec 128 :=
  pack h fun i _ => if mask i then 0xff else 0

def vCmp (h : N * (16 / N) = 16) (split : BitVec 128 → Fin N → MachineInt sg w)
    (r : MachineInt sg w → MachineInt sg w → Prop) [DecidableRel r] : NumEval 128 Unit := do
  let b ← popV128
  let a ← popV128
  pushV128 (cmpMask h fun i => decide (r (split a i) (split b i)))

def vShift (split : BitVec 128 → Fin N → MachineInt sg w)
    (join : (Fin N → MachineInt sg w) → BitVec 128)
    (f : MachineInt sg w → ℕ → MachineInt sg w) : NumEval 128 Unit := do
  let count ← popI32
  let a ← popV128
  let s := count.asU32 % (128 / N)
  pushV128 (join fun i => f (split a i) s)

/-- `m |= 1 << i` for each `i` of the set. -/
def signs (p : Fin N → Prop) [DecidablePred p] : Checked (MachineInt true 32) :=
  (List.finRange N).foldlM
    (fun m i => if p i then (MachineInt.shl (.wrap 1) i).map m.or else some m) (.wrap 0)

/-- The sign of lane `i` in bit `i`. -/
def vBitmask (split : BitVec 128 → Fin N → MachineInt sg w) : NumEval 128 Unit := do
  let l := split (← popV128)
  pushI32 (← checked (signs fun i => l i < .wrap 0))

def vAllTrue (split : BitVec 128 → Fin N → MachineInt sg w) : NumEval 128 Unit := do
  let l := split (← popV128)
  pushI32 (.ofBool (∀ i, l i ≠ .wrap 0))

def vExtend (N : ℕ) (split : BitVec 128 → Fin (2 * N) → MachineInt sg w)
    (join : (Fin N → MachineInt sg' w') → BitVec 128) (high : Bool)
    (f : MachineInt sg w → MachineInt sg' w') : NumEval 128 Unit := do
  let a := split (← popV128)
  let off := if high then N else 0
  pushV128 (join fun i => f (a ⟨off + i, by
    have hi := i.isLt
    simp only [off]
    split <;> omega⟩))

def vExtmul (N : ℕ) (split : BitVec 128 → Fin (2 * N) → MachineInt sg w)
    (join : (Fin N → MachineInt sg' w') → BitVec 128) (high : Bool)
    (f : MachineInt sg w → MachineInt sg w → Checked (MachineInt sg' w')) : NumEval 128 Unit := do
  let b := split (← popV128)
  let a := split (← popV128)
  let off := if high then N else 0
  let lane (i : Fin N) : Fin (2 * N) := ⟨off + i, by
    have hi := i.isLt
    simp only [off]
    split <;> omega⟩
  let l ← checked (fromFn fun i => f (a (lane i)) (b (lane i)))
  pushV128 (join l)

def vExtadd (N : ℕ) (split : BitVec 128 → Fin (2 * N) → MachineInt sg w)
    (join : (Fin N → MachineInt sg' w') → BitVec 128)
    (f : MachineInt sg w → MachineInt sg w → Checked (MachineInt sg' w')) : NumEval 128 Unit := do
  let a := split (← popV128)
  let l ← checked (fromFn fun i : Fin N => f (a ⟨2 * i, by omega⟩) (a ⟨2 * i + 1, by omega⟩))
  pushV128 (join l)

def vNarrow (N : ℕ) (split : BitVec 128 → Fin N → MachineInt sg w)
    (join : (Fin (2 * N) → MachineInt sg' w') → BitVec 128)
    (f : MachineInt sg w → MachineInt sg' w') : NumEval 128 Unit := do
  let b := split (← popV128)
  let a := split (← popV128)
  pushV128 (join fun i => if h : i < N then f (a ⟨i, h⟩) else f (b ⟨i - N, by omega⟩))

end Combinators

/-! ## What the specification says of lanes -/

namespace Semantics

def vunop (w N : ℕ) (f : ℕ → ℕ) : Semantics :=
  .unary .v128 .v128 fun v => ofLanes w (fun i => f (laneOf w i v)) N

def vbinop (w N : ℕ) (f : ℕ → ℕ → ℕ) : Semantics :=
  .binary .v128 .v128 .v128 fun a b => ofLanes w (fun i => f (laneOf w i a) (laneOf w i b)) N

/-- All ones where the relation holds. -/
def vrelop (w N : ℕ) (p : ℕ → ℕ → Prop) [DecidableRel p] : Semantics :=
  vbinop w N fun i j => if p i j then 2 ^ w - 1 else 0

def vshift (w N : ℕ) (f : ℕ → ℕ → ℕ) : Semantics :=
  .binary .v128 .i32 .v128 fun v k => ofLanes w (fun i => f (laneOf w i v) k) N

def vbitmask (w N : ℕ) : Semantics :=
  .unary .v128 .i32 fun v => ofLanes 1 (fun i => ofBool (signed w (laneOf w i v) < 0)) N

def vallTrue (w N : ℕ) : Semantics :=
  .unary .v128 .i32 fun v => ofBool (∀ i < N, laneOf w i v ≠ 0)

/-- The lanes of the low or the high half. -/
def halfOff (N : ℕ) (high : Bool) : ℕ := if high then N else 0

def vextend (w N : ℕ) (high : Bool) (f : ℕ → ℕ) : Semantics :=
  .unary .v128 .v128 fun v => ofLanes (2 * w) (fun i => f (laneOf w (halfOff N high + i) v)) N

def vextmul (w N : ℕ) (high : Bool) (f : ℕ → ℕ) : Semantics :=
  .binary .v128 .v128 .v128 fun a b => ofLanes (2 * w) (fun i =>
    imul (2 * w) (f (laneOf w (halfOff N high + i) a)) (f (laneOf w (halfOff N high + i) b))) N

def vextadd (w N : ℕ) (f : ℕ → ℕ) : Semantics :=
  .unary .v128 .v128 fun v => ofLanes (2 * w) (fun i =>
    iadd (2 * w) (f (laneOf w (2 * i) v)) (f (laneOf w (2 * i + 1) v))) N

/-- The lanes of both operands, narrowed to half the width. -/
def vnarrow (w N : ℕ) (f : ℕ → ℕ) : Semantics :=
  .binary .v128 .v128 .v128 fun a b => ofLanes w (fun i =>
    if i < N then f (laneOf (2 * w) i a) else f (laneOf (2 * w) (i - N) b)) (2 * N)

end Semantics

/-! ## Splitting and joining -/

/-- The lanes are those of the number. -/
def Splits {sg : Bool} {w N : ℕ} (split : BitVec 128 → Fin N → MachineInt sg w) : Prop :=
  ∀ v i, (split v i).bits.toNat = laneOf w i v.toNat

/-- The number is that of the lanes. -/
def Joins {sg : Bool} {w N : ℕ} (join : (Fin N → MachineInt sg w) → BitVec 128) : Prop :=
  ∀ l (g : ℕ → ℕ), (∀ i : Fin N, (l i).bits.toNat = g i) → (join l).toNat = ofLanes w g N

theorem toLeBytes_toNat {w k : ℕ} (v : BitVec w) (i : Fin k) :
    (toLeBytes v i).toNat = laneOf 8 i v.toNat := by
  show (v.extractLsb' (8 * i) 8).toNat = _
  rw [BitVec.extractLsb'_toNat, Nat.shiftRight_eq_div_pow, laneOf]

theorem fromLeBytes_toNat {w k : ℕ} (h : 8 * k ≤ w) {b : Fin k → BitVec 8} {g : ℕ → ℕ}
    (hg : ∀ i, (b i).toNat = g i) : (fromLeBytes b : BitVec w).toNat = ofLanes 8 g k := by
  have hbytes : ∀ j < k, (if h : j < k then (b ⟨j, h⟩).toNat else 0) = g j := by
    intro j hj
    rw [dif_pos hj, hg]
  have hlt : ofLanes 8 g k < 2 ^ (8 * k) := by
    refine ofLanes_lt fun j hj => ?_
    rw [← hg ⟨j, hj⟩]
    exact (b ⟨j, hj⟩).isLt
  rw [fromLeBytes, ofLanes_congr hbytes, BitVec.toNat_ofNat,
    Nat.mod_eq_of_lt (hlt.trans_le (Nat.pow_le_pow_right Nat.two_pos h))]

section Bytes

variable {N W : ℕ} (h : N * W = 16) {sg : Bool}

theorem splitLanes_splits : Splits (splitLanes h : BitVec 128 → Fin N → MachineInt sg (8 * W)) := by
  intro v i
  have hbytes : ∀ k : Fin W, (chunk h (toLeBytes v) i k).toNat =
      laneOf 8 k (laneOf (8 * W) i v.toNat) := by
    intro k
    rw [laneOf_laneOf k.isLt]
    exact toLeBytes_toNat v _
  show (fromLeBytes (chunk h (toLeBytes v) i) : BitVec (8 * W)).toNat = _
  rw [fromLeBytes_toNat le_rfl (g := fun k => laneOf 8 k (laneOf (8 * W) i v.toNat)) hbytes,
    ofLanes_laneOf, Nat.mod_eq_of_lt (laneOf_lt _ _ _)]

/-- The number of the bytes of all lanes. -/
theorem pack_toNat {lanes : Fin N → Fin W → BitVec 8} {g : ℕ → ℕ → ℕ}
    (hg : ∀ i k, (lanes i k).toNat = g i k) :
    (pack h lanes).toNat = ofLanes (8 * W) (fun i => ofLanes 8 (g i) W) N := by
  have hW : 0 < W := Nat.pos_of_ne_zero fun hW => by rw [hW] at h; cases h
  have hbytes : ∀ i < N, ofLanes 8 (g i) W =
      ofLanes 8 (fun j => g ((i * W + j) / W) ((i * W + j) % W)) W := by
    intro i _
    refine ofLanes_congr fun j hj => ?_
    rw [Nat.mul_comm, Nat.mul_add_div hW, Nat.div_eq_of_lt hj, Nat.mul_add_mod, Nat.mod_eq_of_lt hj,
      Nat.add_zero]
  rw [ofLanes_congr hbytes, ofLanes_ofLanes (fun m => g (m / W) (m % W)), h]
  exact fromLeBytes_toNat (by decide) fun m => hg _ _

theorem joinLanes_joins : Joins (joinLanes h : (Fin N → MachineInt sg (8 * W)) → BitVec 128) := by
  intro l g hg
  have hbytes : ∀ (i : Fin N) (k : Fin W), (toLeBytes (l i).bits k : BitVec 8).toNat
    = laneOf 8 k (g i) := by
    intro i k
    rw [toLeBytes_toNat, hg]
  show (pack h fun i => toLeBytes (l i).bits).toNat = _
  rw [pack_toNat h (g := fun i k => laneOf 8 k (g i)) hbytes]
  refine ofLanes_congr fun i hi => ?_
  rw [ofLanes_laneOf, Nat.mod_eq_of_lt]
  rw [← hg ⟨i, hi⟩]
  exact (l ⟨i, hi⟩).bits.isLt

end Bytes

theorem i8x16_splits : Splits i8x16 := fun v i => toLeBytes_toNat v i

theorem u8x16_splits : Splits u8x16 := fun v i => toLeBytes_toNat v i

theorem i16x8_splits : Splits i16x8 := splitLanes_splits _

theorem u16x8_splits : Splits u16x8 := splitLanes_splits _

theorem i32x4_splits : Splits i32x4 := splitLanes_splits _

theorem u32x4_splits : Splits u32x4 := splitLanes_splits _

theorem i64x2_splits : Splits i64x2 := splitLanes_splits _

theorem u64x2_splits : Splits u64x2 := splitLanes_splits _

theorem fromI8x16_joins : Joins fromI8x16 := fun _ _ hg => fromLeBytes_toNat (by decide) hg

theorem fromU8x16_joins : Joins fromU8x16 := fun _ _ hg => fromLeBytes_toNat (by decide) hg

theorem fromI16x8_joins : Joins fromI16x8 := joinLanes_joins _

theorem fromU16x8_joins : Joins fromU16x8 := joinLanes_joins _

theorem fromI32x4_joins : Joins fromI32x4 := joinLanes_joins _

theorem fromU32x4_joins : Joins fromU32x4 := joinLanes_joins _

theorem fromI64x2_joins : Joins fromI64x2 := joinLanes_joins _

theorem fromU64x2_joins : Joins fromU64x2 := joinLanes_joins _

/-! ## The lanes of a result -/

theorem fromFn_eq {α : Type} {N : ℕ} {f : Fin N → Checked α} {g : Fin N → α}
    (h : ∀ i, f i = some (g i)) :
    fromFn f = some g := by
  have hsome : ∀ i, (f i).isSome := fun i => by rw [h i]; rfl
  rw [fromFn, dif_pos hsome]
  congr 1
  funext i
  exact Option.get_of_eq_some _ (h i)

theorem read_v128 (a : BitVec 128) : NumType.v128.read a = a.toNat := Nat.mod_eq_of_lt a.isLt

theorem Pushed.of_vector (v : BitVec 128) (s : List (NumSlot 128)) :
    Pushed (.ok ((), ⟨v, .none⟩ :: s)) .v128 v.toNat s :=
  ⟨v.isLt, v, rfl, rfl⟩

section Meets

variable {sg sg' : Bool} {w w' N : ℕ} {split : BitVec 128 → Fin N → MachineInt sg w}

variable {g : ℕ → ℕ}

/-- A vector joined of lanes. -/
theorem Pushed.of_join {join : (Fin N → MachineInt sg w) → BitVec 128} (hj : Joins join)
    {l : Fin N → MachineInt sg w} (hg : ∀ i : Fin N, (l i).bits.toNat = g i)
    (s : List (NumSlot 128)) : Pushed (.ok ((), ⟨join l, .none⟩ :: s)) .v128 (ofLanes w g N) s := by
  rw [← hj l g hg]
  exact .of_vector _ s

/-- A function on lanes that has a result, which is the operator's. -/
def Computes₂ (f : MachineInt sg w → MachineInt sg w → Checked (MachineInt sg' w'))
    (g : ℕ → ℕ → ℕ) : Prop :=
  ∀ a b, ∃ r, f a b = some r ∧ r.bits.toNat = g a.bits.toNat b.bits.toNat

/-- The lanes of a function on two of them. -/
theorem fromFn_computes {f : MachineInt sg w → MachineInt sg w → Checked (MachineInt sg' w')}
    {g : ℕ → ℕ → ℕ} (hf : Computes₂ f g) {M : ℕ} (x y : Fin M → MachineInt sg w) :
    ∃ l, fromFn (fun i => f (x i) (y i)) = some l ∧
      ∀ i, (l i).bits.toNat = g (x i).bits.toNat (y i).bits.toNat := by
  choose l hl using fun i => hf (x i) (y i)
  exact ⟨l, fromFn_eq fun i => (hl i).1, fun i => (hl i).2⟩

theorem vBinop_pushed {join : (Fin N → MachineInt sg w) → BitVec 128} (hs : Splits split)
    (hj : Joins join) {f : MachineInt sg w → MachineInt sg w → Checked (MachineInt sg w)}
    {g : ℕ → ℕ → ℕ}
    (hf : Computes₂ f g) (a b : BitVec 128) (s : List (NumSlot 128)) :
    Pushed (vBinop split join f (⟨b, .none⟩ :: ⟨a, .none⟩ :: s)) .v128
      (ofLanes w (fun i => g (laneOf w i a.toNat) (laneOf w i b.toNat)) N) s := by
  obtain ⟨l, hl, hg⟩ := fromFn_computes hf (split a) (split b)
  have hrun : vBinop split join f (⟨b, .none⟩ :: ⟨a, .none⟩ :: s)
    = .ok ((), ⟨join l, .none⟩ :: s) := by
    show ((orPanic (fromFn fun i => f (split a i) (split b i))).map fun l => (l, s)).bind _ = _
    rw [hl]
    rfl
  rw [hrun]
  refine .of_join hj (fun i => ?_) s
  rw [hg, hs, hs]

theorem vBinop_meets {join : (Fin N → MachineInt sg w) → BitVec 128} (hs : Splits split)
    (hj : Joins join) {f : MachineInt sg w → MachineInt sg w → Checked (MachineInt sg w)}
    {g : ℕ → ℕ → ℕ}
    (hf : Computes₂ f g) : (Semantics.vbinop w N g).Meets (vBinop split join f) := by
  intro a b s
  rw [read_v128, read_v128]
  exact vBinop_pushed hs hj hf a b s

/-- A function that always has a result. -/
theorem vBinop_total {join : (Fin N → MachineInt sg w) → BitVec 128} (hs : Splits split)
    (hj : Joins join)
    {f : MachineInt sg w → MachineInt sg w → MachineInt sg w} {g : ℕ → ℕ → ℕ}
    (hf : ∀ a b, (f a b).bits.toNat = g a.bits.toNat b.bits.toNat) :
    (Semantics.vbinop w N g).Meets (vBinop split join fun a b => some (f a b)) :=
  vBinop_meets hs hj fun a b => ⟨_, rfl, hf a b⟩

theorem vUnop_meets {join : (Fin N → MachineInt sg w) → BitVec 128} (hs : Splits split)
    (hj : Joins join) {f : MachineInt sg w → MachineInt sg w}
    (hf : ∀ a, (f a).bits.toNat = g a.bits.toNat) :
    (Semantics.vunop w N g).Meets (vUnop split join f) := by
  intro a s
  show Pushed (.ok ((), ⟨join fun i => f (split a i), .none⟩ :: s)) _ _ _
  rw [read_v128]
  refine .of_join hj (fun i => ?_) s
  rw [hf, hs]

/-- The bytes of a lane of ones. -/
theorem ofLanes_ones (W k : ℕ) : ofLanes W (fun _ => 2 ^ W - 1) k = 2 ^ (W * k) - 1 := by
  induction k with
  | zero => rfl
  | succ k ih =>
    have hpos := Nat.two_pow_pos (W * k)
    have hle : 2 ^ (W * k) ≤ 2 ^ W * 2 ^ (W * k) := Nat.le_mul_of_pos_left _ (Nat.two_pow_pos W)
    rw [ofLanes, ih, Nat.mul_succ, pow_add, Nat.sub_mul, one_mul, mul_comm (2 ^ (W * k))]
    omega

theorem ofLanes_zeros (W k : ℕ) : ofLanes W (fun _ => 0) k = 0 := by
  induction k with
  | zero => rfl
  | succ k ih => rw [ofLanes, ih, Nat.zero_mul]

theorem vCmp_meets (h : N * (16 / N) = 16) (hw : w = 8 * (16 / N)) (hs : Splits split)
    {r : MachineInt sg w → MachineInt sg w → Prop} [DecidableRel r] {p : ℕ → ℕ → Prop}
    [DecidableRel p]
    (hr : ∀ a b, r a b ↔ p a.bits.toNat b.bits.toNat) :
    (Semantics.vrelop w N p).Meets (vCmp h split r) := by
  intro a b s
  have hmask : (cmpMask h fun i => decide (r (split a i) (split b i))).toNat =
      ofLanes w (fun i => if p (laneOf w i a.toNat)
        (laneOf w i b.toNat) then 2 ^ w - 1 else 0) N := by
    have hbytes : ∀ (i : Fin N) (_ : Fin (16 / N)),
        (if decide (r (split a i) (split b i)) then (0xff : BitVec 8) else 0).toNat =
          if p (laneOf w i a.toNat) (laneOf w i b.toNat) then 2 ^ 8 - 1 else 0 := by
      intro i _
      rw [apply_ite BitVec.toNat, ← hs, ← hs]
      exact if_congr (decide_eq_true_iff.trans (hr _ _)) rfl rfl
    rw [cmpMask, pack_toNat h (g := fun i _ => if p (laneOf w i a.toNat) (laneOf w i b.toNat)
      then 2 ^ 8 - 1 else 0) hbytes, ← hw]
    refine ofLanes_congr fun i _ => ?_
    split
    · rw [ofLanes_ones, hw]
    · exact ofLanes_zeros _ _
  show Pushed (.ok ((), ⟨cmpMask h fun i => decide (r (split a i) (split b i)), .none⟩ :: s)) _ _ _
  rw [read_v128, read_v128]
  beta_reduce
  rw [← hmask]
  exact .of_vector _ s

theorem vShift_meets {join : (Fin N → MachineInt sg w) → BitVec 128} (hw : w = 128 / N)
    (hs : Splits split)
    (hj : Joins join) {f : MachineInt sg w → ℕ → MachineInt sg w} {g : ℕ → ℕ → ℕ}
    (hf : ∀ a k, (f a k).bits.toNat = g a.bits.toNat k) (hg : ∀ i k, g i (k % w) = g i k) :
    (Semantics.vshift w N g).Meets (vShift split join f) := by
  intro a b s
  have hcount : (unwrapInt b : MachineInt true 32).asU32 = NumType.i32.read b := by
    rw [MachineInt.asU32, cast_toNat_of_le _ le_rfl, unwrapInt_toNat, Nat.mod_mod]
    rfl
  show Pushed (.ok ((), ⟨join fun i => f (split a i)
    ((unwrapInt b : MachineInt true 32).asU32 % (128 / N)), .none⟩ :: s)) _ _ _
  rw [read_v128, hcount, ← hw]
  refine .of_join hj (fun i => ?_) s
  rw [hf, hs, hg]

theorem vAllTrue_meets (hs : Splits split) : (Semantics.vallTrue w N).Meets (vAllTrue split) := by
  intro a s
  have hall : (∀ i, split a i ≠ .wrap 0) ↔ ∀ i < N, laneOf w i a.toNat ≠ 0 := by
    constructor
    · intro h i hi
      rw [← hs a ⟨i, hi⟩]
      exact h ⟨i, hi⟩ ∘ (eq_zero_iff _).mpr
    · intro h i
      have hi := h i i.isLt
      rw [← hs] at hi
      exact hi ∘ (eq_zero_iff _).mp
  show Pushed (.ok ((), ⟨fromInt (MachineInt.ofBool
    (∀ i, split a i ≠ .wrap 0) : MachineInt true 32),
    .none⟩ :: s)) _ _ _
  rw [read_v128]
  beta_reduce
  rw [← ofBool_congr hall, ← ofBool_toNat (by decide : 0 < 32)]
  exact Pushed.of_int (r := .i32) rfl (by decide) _ s

/-! ## Signs -/

/-- The number of a set of lanes, bit by bit. -/
theorem signs_eq {p : Fin N → Prop} [DecidablePred p] {q : ℕ → Prop} [DecidablePred q] (hN : N ≤ 32)
    (hpq : ∀ i, p i ↔ q i) :
    ∃ m, signs p = some m ∧ m.bits.toNat = ofLanes 1 (fun i => ofBool (q i)) N := by
  induction N with
  | zero => exact ⟨_, rfl, rfl⟩
  | succ N ih =>
    obtain ⟨m, hm, hval⟩ := ih (p := fun i => p i.castSucc) (by omega) fun i => hpq i.castSucc
    have hlt : m.bits.toNat < 2 ^ N := by
      rw [hval]
      refine (ofLanes_lt fun i _ => ?_).trans_eq (by rw [one_mul])
      unfold ofBool
      split <;> decide
    have hrest : signs p = if p (Fin.last N) then
      (MachineInt.shl (.wrap 1) N).map m.or else some m := by
      rw [signs, List.finRange_succ_last, List.foldlM_append, List.foldlM_map]
      show (signs fun i => p i.castSucc) >>= _ = _
      rw [hm]
      show (if p (Fin.last N) then (MachineInt.shl (.wrap 1) N).map m.or else some m) >>= some = _
      exact bind_pure _
    rw [hrest, ofLanes, one_mul]
    by_cases hp : p (Fin.last N)
    · have hq : q N := (hpq (Fin.last N)).mp hp
      rw [if_pos hp, MachineInt.shl, if_pos (by omega)]
      refine ⟨_, rfl, ?_⟩
      show (m.bits ||| (1#32 <<< N)).toNat = _
      rw [BitVec.toNat_or, BitVec.toNat_shiftLeft, Nat.shiftLeft_eq, BitVec.toNat_ofNat,
        Nat.mod_eq_of_lt (show 1 < 2 ^ 32 by decide), one_mul,
        Nat.mod_eq_of_lt (Nat.pow_lt_pow_right (by decide) (by omega)), ← hval, ofBool,
          if_pos hq, one_mul]
      have hor := Nat.two_pow_add_eq_or_of_lt hlt 1
      rw [mul_one] at hor
      rw [Nat.or_comm, ← hor, Nat.add_comm]
    · have hq : ¬q N := hp ∘ (hpq (Fin.last N)).mpr
      rw [if_neg hp, ofBool, if_neg hq, zero_mul, Nat.add_zero]
      exact ⟨m, rfl, hval⟩

theorem vBitmask_meets (hN : N ≤ 32) {split : BitVec 128 → Fin N → MachineInt true w}
    (hs : Splits split) : (Semantics.vbitmask w N).Meets (vBitmask split) := by
  intro a s
  have hneg : ∀ i : Fin N, split a i < .wrap 0 ↔ signed w (laneOf w i a.toNat) < 0 := by
    intro i
    rw [← hs, lt_signed, toNat_wrap]
    have hzero : signed w (ofInt w 0) = 0 := by simp [ofInt, signed]
    rw [hzero]
  obtain ⟨m, hm, hval⟩ := signs_eq (p := fun i => split a i < .wrap 0)
    (q := fun i => signed w (laneOf w i a.toNat) < 0) hN hneg
  have hrun : vBitmask split (⟨a, .none⟩ :: s) = .ok ((), ⟨fromInt m, .none⟩ :: s) := by
    show ((orPanic (signs fun i => split a i < .wrap 0)).map fun m => (m, s)).bind _ = _
    rw [hm]
    rfl
  rw [hrun, read_v128]
  beta_reduce
  rw [← hval]
  exact Pushed.of_int (r := .i32) rfl (by decide) _ s

/-! ## Widening and narrowing -/

theorem vExtend_meets (w N : ℕ) {split₂ : BitVec 128 → Fin (2 * N) → MachineInt sg w}
    {join : (Fin N → MachineInt sg' (2 * w)) → BitVec 128} (hs : Splits split₂) (hj : Joins join)
    {high : Bool} {f : MachineInt sg w → MachineInt sg' (2 * w)}
    (hf : ∀ a, (f a).bits.toNat = g a.bits.toNat) :
    (Semantics.vextend w N high g).Meets (vExtend N split₂ join high f) := by
  intro a s
  show Pushed (.ok ((), ⟨join _, .none⟩ :: s)) _ _ _
  rw [read_v128]
  refine .of_join hj (fun i => ?_) s
  rw [hf, hs]
  rfl

theorem vExtmul_meets (w N : ℕ) {split₂ : BitVec 128 → Fin (2 * N) → MachineInt sg w}
    {join : (Fin N → MachineInt sg' (2 * w)) → BitVec 128} (hs : Splits split₂) (hj : Joins join)
    {high : Bool} {f : MachineInt sg w → MachineInt sg w → Checked (MachineInt sg' (2 * w))}
    (hf : Computes₂ f fun i j => imul (2 * w) (g i) (g j)) :
    (Semantics.vextmul w N high g).Meets (vExtmul N split₂ join high f) := by
  intro a b s
  let lane (i : Fin N) : Fin (2 * N) := ⟨(if high then N else 0) + i, by
    have hi := i.isLt
    split <;> omega⟩
  obtain ⟨l, hl, hg⟩ := fromFn_computes hf (fun i => split₂ a (lane i)) fun i => split₂ b (lane i)
  have hrun : vExtmul N split₂ join high f (⟨b, .none⟩ :: ⟨a, .none⟩ :: s) =
      .ok ((), ⟨join l, .none⟩ :: s) := by
    show ((orPanic (fromFn fun i => f (split₂ a (lane i)) (split₂ b (lane i)))).map
      fun l => (l, s)).bind _ = _
    rw [hl]
    rfl
  rw [hrun, read_v128, read_v128]
  refine .of_join hj (fun i => ?_) s
  rw [hg, hs, hs]
  rfl

theorem vExtadd_meets (w N : ℕ) {split₂ : BitVec 128 → Fin (2 * N) → MachineInt sg w}
    {join : (Fin N → MachineInt sg' (2 * w)) → BitVec 128} (hs : Splits split₂) (hj : Joins join)
    {f : MachineInt sg w → MachineInt sg w → Checked (MachineInt sg' (2 * w))}
    (hf : Computes₂ f fun i j => iadd (2 * w) (g i) (g j)) :
    (Semantics.vextadd w N g).Meets (vExtadd N split₂ join f) := by
  intro a s
  obtain ⟨l, hl, hg⟩ := fromFn_computes hf (fun i : Fin N => split₂ a ⟨2 * i, by omega⟩)
    fun i : Fin N => split₂ a ⟨2 * i + 1, by omega⟩
  have hrun : vExtadd N split₂ join f (⟨a, .none⟩ :: s) = .ok ((), ⟨join l, .none⟩ :: s) := by
    show ((orPanic (fromFn fun i : Fin N => f (split₂ a ⟨2 * i, by omega⟩)
      (split₂ a ⟨2 * i + 1, by omega⟩))).map fun l => (l, s)).bind _ = _
    rw [hl]
    rfl
  rw [hrun, read_v128]
  refine .of_join hj (fun i => ?_) s
  rw [hg, hs, hs]

theorem vNarrow_meets (w N : ℕ) {split : BitVec 128 → Fin N → MachineInt sg (2 * w)}
    {join : (Fin (2 * N) → MachineInt sg' w) → BitVec 128} (hs : Splits split) (hj : Joins join)
    {f : MachineInt sg (2 * w) → MachineInt sg' w} (hf : ∀ a, (f a).bits.toNat = g a.bits.toNat) :
    (Semantics.vnarrow w N g).Meets (vNarrow N split join f) := by
  intro a b s
  show Pushed (.ok ((), ⟨join _, .none⟩ :: s)) _ _ _
  rw [read_v128, read_v128]
  refine .of_join hj (fun i => ?_) s
  split
  · rw [hf, hs]
  · rw [hf, hs]

end Meets

-- From here on both sides of these are known by their lemmas.
attribute [irreducible] vBinop vUnop vCmp vShift vBitmask vAllTrue vExtend vExtmul vExtadd vNarrow
  Semantics.vunop Semantics.vbinop Semantics.vrelop Semantics.vshift Semantics.vbitmask
  Semantics.vallTrue Semantics.vextend Semantics.vextmul Semantics.vextadd Semantics.vnarrow

end SubmilliWasm.Numeric
