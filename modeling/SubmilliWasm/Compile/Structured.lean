/-
# Structured bodies and their typing

A function body as WebAssembly defines it, a tree of structured control, with the flat
operator sequence the binary holds (`flatten`) and the typing the validator enforces.

`HasType L b ts us` types a sequence `b` against the whole operand stack of its block: it
starts on `ts`, bottom first, and reaches the block's end on `us`; `L` holds the types of
the labels, innermost first.  After an unconditional branch the validator types the rest
of the block against a polymorphic stack, which constrains nothing that is ever executed,
so that rest is left free here and a body the validator accepts has a type.
-/
import SubmilliWasm.Compile.Translate
import SubmilliWasm.Store.Layout

namespace SubmilliWasm

/-! ## Bodies -/

/-- A construct that opens a frame around one sequence. -/
inductive Region where
  | block
  | loop
  | tryTable (catches : List Catch)
  deriving DecidableEq, Repr

/-- A sequence of operators up to the end of its block; every construct carries the sequence
that follows it. -/
inductive Body where
  | done
  | plain (p : PlainOp BigMemArg) (k : Body)
  | region (r : Region) (bt : BlockType) (b k : Body)
  | ifElse (bt : BlockType) (t e k : Body)
  | ifThen (bt : BlockType) (t k : Body)
  | jump (j : Jump) (k : Body)
  | cond (c : CondBr) (k : Body)
  | call (c : CallTarget) (k : Body)
  deriving DecidableEq, Repr

def Region.operator (bt : BlockType) : Region → Operator
  | .block => .block bt
  | .loop => .loop bt
  | .tryTable catches => .tryTable bt catches

/-- The operators of a sequence, in the order of the binary. -/
def Body.flatten : Body → List Operator
  | .done => []
  | .plain p k => .plain p :: k.flatten
  | .region r bt b k => r.operator bt :: (b.flatten ++ .end_ :: k.flatten)
  | .ifElse bt t e k => .if_ bt :: (t.flatten ++ .else_ :: (e.flatten ++ .end_ :: k.flatten))
  | .ifThen bt t k => .if_ bt :: (t.flatten ++ .end_ :: k.flatten)
  | .jump j k => .jump j :: k.flatten
  | .cond c k => .cond c :: k.flatten
  | .call c k => .call c :: k.flatten

/-- The operators of a whole function body. -/
def Body.operators (b : Body) : List Operator := b.flatten ++ [.end_]

/-- A lower bound on the bytes of a sequence in the binary: an opcode, and a byte for each
immediate it must have. -/
def Body.bytes : Body → ℕ
  | .done => 0
  | .plain _ k => 1 + k.bytes
  | .region _ _ b k => 3 + b.bytes + k.bytes
  | .ifElse _ t e k => 4 + t.bytes + e.bytes + k.bytes
  | .ifThen _ t k => 3 + t.bytes + k.bytes
  | .jump _ k => 1 + k.bytes
  | .cond _ k => 2 + k.bytes
  | .call _ k => 2 + k.bytes

def Catch.label : Catch → ℕ
  | .one _ l => l
  | .oneRef _ l => l
  | .all l => l
  | .allRef l => l

/-- The labels the landing pads of a region branch to. -/
def Region.padLabels : Region → List ℕ
  | .tryTable catches => catches.map Catch.label
  | _ => []

/-- The labels an unconditional branch may take. -/
def Jump.labels : Jump → List ℕ
  | .br l => [l]
  | .brTable cases default => cases ++ [default]
  | _ => []

/-! ## Value types -/

/-- The reference hierarchy of an IR heap type (`refkind_of_irheap`). -/
def refkindOfIrheap : IrHeap → RefKind
  | .func => .func
  | .noFunc => .func
  | .concrete _ .func => .func
  | .extern_ => .extern_
  | .noExtern => .extern_
  | .exn => .exn
  | .noExn => .exn
  | _ => .any

/-- The hierarchy of a value type, `none` for a number. -/
def IrVal.refKind : IrVal → Option RefKind
  | .ref _ heap => some (refkindOfIrheap heap)
  | _ => none

/-- The operand type of an index or a length of a 32- or 64-bit memory or table. -/
def indexType (is64 : Bool) : IrVal := if is64 then .i64 else .i32

def IrStorage.unpacked : IrStorage → IrVal
  | .val v => v
  | _ => .i32

def NumUnop.type : NumUnop → IrVal × IrVal
  | .i32Eqz | .i32Clz | .i32Ctz | .i32Popcnt | .i32Extend8S | .i32Extend16S => (.i32, .i32)
  | .i64Eqz | .i32WrapI64 => (.i64, .i32)
  | .i64Clz | .i64Ctz | .i64Popcnt | .i64Extend8S | .i64Extend16S | .i64Extend32S => (.i64, .i64)
  | .f32Abs | .f32Neg | .f32Ceil | .f32Floor | .f32Trunc | .f32Nearest | .f32Sqrt => (.f32, .f32)
  | .f64Abs | .f64Neg | .f64Ceil | .f64Floor | .f64Trunc | .f64Nearest | .f64Sqrt => (.f64, .f64)
  | .i32TruncF32S | .i32TruncF32U | .i32TruncSatF32S | .i32TruncSatF32U => (.f32, .i32)
  | .i32TruncF64S | .i32TruncF64U | .i32TruncSatF64S | .i32TruncSatF64U => (.f64, .i32)
  | .i64ExtendI32S | .i64ExtendI32U => (.i32, .i64)
  | .i64TruncF32S | .i64TruncF32U | .i64TruncSatF32S | .i64TruncSatF32U => (.f32, .i64)
  | .i64TruncF64S | .i64TruncF64U | .i64TruncSatF64S | .i64TruncSatF64U => (.f64, .i64)
  | .f32ConvertI32S | .f32ConvertI32U | .f32ReinterpretI32 => (.i32, .f32)
  | .f32ConvertI64S | .f32ConvertI64U => (.i64, .f32)
  | .f32DemoteF64 => (.f64, .f32)
  | .f64ConvertI32S | .f64ConvertI32U => (.i32, .f64)
  | .f64ConvertI64S | .f64ConvertI64U | .f64ReinterpretI64 => (.i64, .f64)
  | .f64PromoteF32 => (.f32, .f64)
  | .i32ReinterpretF32 => (.f32, .i32)
  | .i64ReinterpretF64 => (.f64, .i64)

def NumBinop.type : NumBinop → IrVal × IrVal
  | .i32Add | .i32Sub | .i32Mul | .i32DivS | .i32DivU | .i32RemS | .i32RemU | .i32And | .i32Or
  | .i32Xor | .i32Shl | .i32ShrS | .i32ShrU | .i32Rotl | .i32Rotr => (.i32, .i32)
  | .i64Eq | .i64Ne | .i64LtS | .i64LtU | .i64GtS | .i64GtU | .i64LeS | .i64LeU | .i64GeS
  | .i64GeU => (.i64, .i32)
  | .i64Add | .i64Sub | .i64Mul | .i64DivS | .i64DivU | .i64RemS | .i64RemU | .i64And | .i64Or
  | .i64Xor | .i64Shl | .i64ShrS | .i64ShrU | .i64Rotl | .i64Rotr => (.i64, .i64)
  | .f32Eq | .f32Ne | .f32Lt | .f32Gt | .f32Le | .f32Ge => (.f32, .i32)
  | .f32Add | .f32Sub | .f32Mul | .f32Div | .f32Min | .f32Max | .f32Copysign => (.f32, .f32)
  | .f64Eq | .f64Ne | .f64Lt | .f64Gt | .f64Le | .f64Ge => (.f64, .i32)
  | .f64Add | .f64Sub | .f64Mul | .f64Div | .f64Min | .f64Max | .f64Copysign => (.f64, .f64)

def LoadKind.type : LoadKind → IrVal
  | .i32 | .i32x8S | .i32x8U | .i32x16S | .i32x16U => .i32
  | .i64 | .i64x8S | .i64x8U | .i64x16S | .i64x16U | .i64x32S | .i64x32U => .i64
  | .f32 => .f32
  | .f64 => .f64

def StoreKind.type : StoreKind → IrVal
  | .i32 | .i32x8 | .i32x16 => .i32
  | .i64 | .i64x8 | .i64x16 | .i64x32 => .i64
  | .f32 => .f32
  | .f64 => .f64

/-! ## The module's side of the typing -/

/-- The declarations a body is typed against.  `sub` is the validator's matching of value types;
matching types share their hierarchy. -/
structure ModuleTypes where
  ctx : CompileCtx
  globals : List IrVal
  tables : List (IrVal × Bool)
  memories : List Bool
  elems : List IrVal
  sub : IrVal → IrVal → Prop
  sub_refl : ∀ v, sub v v
  sub_refKind : ∀ {v w}, sub v w → v.refKind = w.refKind

/-- Equal types are of one kind of reference. -/
theorem IrVal.refKind_eq {v w : IrVal} (h : v = w) : v.refKind = w.refKind := by rw [h]

namespace ModuleTypes

variable (M : ModuleTypes)

/-- Matching of stacks, operand by operand. -/
def Subs (ts us : List IrVal) : Prop := List.Forall₂ M.sub ts us

variable {M} in
theorem Subs.length_eq {ts us : List IrVal} (h : M.Subs ts us) : ts.length = us.length :=
  List.Forall₂.length_eq h

def blockType : BlockType → List IrVal × List IrVal
  | .empty => ([], [])
  | .type v => ([], [v])
  | .funcType i => M.ctx.sig i

theorem blockArity_eq (bt : BlockType) :
    Translator.blockArity M.ctx bt
      = ((M.blockType bt).1.length, (M.blockType bt).2.length) := by
  cases bt <;> rfl

def structFields (ty : ℕ) : Option (List IrField) :=
  match M.ctx.types[ty]? with
  | some ⟨_, _, _, .struct fields⟩ => some fields
  | _ => none

def arrayField (ty : ℕ) : Option IrField :=
  match M.ctx.types[ty]? with
  | some ⟨_, _, _, .array field⟩ => some field
  | _ => none

/-- The operands of a call: the arguments, and the table index or function reference above. -/
def callOperands : CallTarget → List IrVal
  | .func f => (M.ctx.funcSig f).1
  | .indirect ty table =>
    (M.ctx.sig ty).1 ++ [indexType ((M.tables.map Prod.snd).getD table false)]
  | .ref ty => (M.ctx.sig ty).1 ++ [.ref true (.concrete ty .func)]

/-- The callee of a call exists. -/
def CallOk : CallTarget → Prop
  | .func f => f < M.ctx.funcTypes.length
  | .indirect _ table => table < M.tables.length
  | .ref _ => True

theorem callPops_eq (c : CallTarget) :
    Translator.callPops M.ctx c = (M.callOperands c).length := by
  cases c <;> simp [Translator.callPops, callOperands, Nat.add_comm]

/-! ## Typing of operators -/

/-- The operands a straight-line operator takes and leaves. -/
inductive PlainTyped (locals : List IrVal) :
    PlainOp BigMemArg → List IrVal → List IrVal → Prop where
  | nop : PlainTyped locals .nop [] []
  | drop (v) : PlainTyped locals .drop [v] []
  | select (v) : PlainTyped locals .select [v, v, .i32] [v]
  | localGet {i v} (h : locals[i]? = some v) : PlainTyped locals (.localGet i) [] [v]
  | localSet {i v} (h : locals[i]? = some v) : PlainTyped locals (.localSet i) [v] []
  | localTee {i v} (h : locals[i]? = some v) : PlainTyped locals (.localTee i) [v] [v]
  | globalGet {g v} (h : M.globals[g]? = some v) : PlainTyped locals (.globalGet g) [] [v]
  | globalSet {g v} (h : M.globals[g]? = some v) : PlainTyped locals (.globalSet g) [v] []
  | i32Const (b) : PlainTyped locals (.i32Const b) [] [.i32]
  | i64Const (b) : PlainTyped locals (.i64Const b) [] [.i64]
  | f32Const (b) : PlainTyped locals (.f32Const b) [] [.f32]
  | f64Const (b) : PlainTyped locals (.f64Const b) [] [.f64]
  | relop (k) : PlainTyped locals (.relop k) [.i32, .i32] [.i32]
  | unop (u) : PlainTyped locals (.unop u) [u.type.1] [u.type.2]
  | binop (b) : PlainTyped locals (.binop b) [b.type.1, b.type.1] [b.type.2]
  | load {k m b} (h : M.memories[m.memory]? = some b) :
      PlainTyped locals (.load k m) [indexType b] [k.type]
  | store {k m b} (h : M.memories[m.memory]? = some b) :
      PlainTyped locals (.store k m) [indexType b, k.type] []
  | memorySize {m b} (h : M.memories[m]? = some b) :
      PlainTyped locals (.memorySize m) [] [indexType b]
  | memoryGrow {m b} (h : M.memories[m]? = some b) :
      PlainTyped locals (.memoryGrow m) [indexType b] [indexType b]
  | memoryInit {d m b} (h : M.memories[m]? = some b) :
      PlainTyped locals (.memoryInit d m) [indexType b, .i32, .i32] []
  | dataDrop (d) : PlainTyped locals (.dataDrop d) [] []
  | memoryCopy {d s b c} (h : M.memories[d]? = some b) (h' : M.memories[s]? = some c) :
      PlainTyped locals (.memoryCopy d s) [indexType b, indexType c, indexType (b && c)] []
  | memoryFill {m b} (h : M.memories[m]? = some b) :
      PlainTyped locals (.memoryFill m) [indexType b, .i32, indexType b] []
  | tableInit {e t v b} (h : M.tables[t]? = some (v, b)) :
      PlainTyped locals (.tableInit e t) [indexType b, .i32, .i32] []
  | tableCopy {d s v b w c} (h : M.tables[d]? = some (v, b)) (h' : M.tables[s]? = some (w, c)) :
      PlainTyped locals (.tableCopy d s) [indexType b, indexType c, indexType (b && c)] []
  | elemDrop (e) : PlainTyped locals (.elemDrop e) [] []
  | tableGet {t v b} (h : M.tables[t]? = some (v, b)) :
      PlainTyped locals (.tableGet t) [indexType b] [v]
  | tableSet {t v b} (h : M.tables[t]? = some (v, b)) :
      PlainTyped locals (.tableSet t) [indexType b, v] []
  | tableSize {t v b} (h : M.tables[t]? = some (v, b)) :
      PlainTyped locals (.tableSize t) [] [indexType b]
  | tableGrow {t v b} (h : M.tables[t]? = some (v, b)) :
      PlainTyped locals (.tableGrow t) [v, indexType b] [indexType b]
  | tableFill {t v b} (h : M.tables[t]? = some (v, b)) :
      PlainTyped locals (.tableFill t) [indexType b, v, indexType b] []
  | refNull (h) : PlainTyped locals (.refNull h) [] [.ref true h]
  | refFunc {f ty} (h : M.ctx.funcTypes[f]? = some ty) :
      PlainTyped locals (.refFunc f) [] [.ref false (.concrete ty .func)]
  | refIsNull (n h) : PlainTyped locals .refIsNull [.ref n h] [.i32]
  | refAsNonNull (n h) : PlainTyped locals .refAsNonNull [.ref n h] [.ref false h]
  | structNew {ty fs} (h : M.structFields ty = some fs) :
      PlainTyped locals (.structNew ty) (fs.map (·.storage.unpacked))
        [.ref false (.concrete ty .struct)]
  | structNewDefault {ty fs} (h : M.structFields ty = some fs) :
      PlainTyped locals (.structNewDefault ty) [] [.ref false (.concrete ty .struct)]
  | structGet {ty i e fs f} (h : M.structFields ty = some fs) (hi : fs[i]? = some f) :
      PlainTyped locals (.structGet ty i e) [.ref true (.concrete ty .struct)]
        [f.storage.unpacked]
  | structSet {ty i fs f} (h : M.structFields ty = some fs) (hi : fs[i]? = some f) :
      PlainTyped locals (.structSet ty i)
        [.ref true (.concrete ty .struct), f.storage.unpacked] []
  | arrayNew {ty f} (h : M.arrayField ty = some f) :
      PlainTyped locals (.arrayNew ty) [f.storage.unpacked, .i32]
        [.ref false (.concrete ty .array)]
  | arrayNewDefault {ty f} (h : M.arrayField ty = some f) :
      PlainTyped locals (.arrayNewDefault ty) [.i32] [.ref false (.concrete ty .array)]
  | arrayNewFixed {ty n f} (h : M.arrayField ty = some f) :
      PlainTyped locals (.arrayNewFixed ty n) (List.replicate n f.storage.unpacked)
        [.ref false (.concrete ty .array)]
  | arrayNewData {ty d f} (h : M.arrayField ty = some f) :
      PlainTyped locals (.arrayNewData ty d) [.i32, .i32] [.ref false (.concrete ty .array)]
  | arrayNewElem {ty e f} (h : M.arrayField ty = some f) :
      PlainTyped locals (.arrayNewElem ty e) [.i32, .i32] [.ref false (.concrete ty .array)]
  | arrayGet {ty e f} (h : M.arrayField ty = some f) :
      PlainTyped locals (.arrayGet ty e) [.ref true (.concrete ty .array), .i32]
        [f.storage.unpacked]
  | arraySet {ty f} (h : M.arrayField ty = some f) :
      PlainTyped locals (.arraySet ty)
        [.ref true (.concrete ty .array), .i32, f.storage.unpacked] []
  | arrayLen : PlainTyped locals .arrayLen [.ref true .array] [.i32]
  | arrayFill {ty f} (h : M.arrayField ty = some f) :
      PlainTyped locals (.arrayFill ty)
        [.ref true (.concrete ty .array), .i32, f.storage.unpacked, .i32] []
  | arrayCopy {d s f g} (h : M.arrayField d = some f) (h' : M.arrayField s = some g) :
      PlainTyped locals (.arrayCopy d s)
        [.ref true (.concrete d .array), .i32, .ref true (.concrete s .array), .i32, .i32] []
  | arrayInitData {ty d f} (h : M.arrayField ty = some f) :
      PlainTyped locals (.arrayInitData ty d)
        [.ref true (.concrete ty .array), .i32, .i32, .i32] []
  | arrayInitElem {ty e f} (h : M.arrayField ty = some f) :
      PlainTyped locals (.arrayInitElem ty e)
        [.ref true (.concrete ty .array), .i32, .i32, .i32] []
  | refI31 : PlainTyped locals .refI31 [.i32] [.ref false .i31]
  | i31GetS : PlainTyped locals .i31GetS [.ref true .i31] [.i32]
  | i31GetU : PlainTyped locals .i31GetU [.ref true .i31] [.i32]
  | refTest {ty n m h} (hk : refkindOfIrheap h = refkindOfIrheap ty) :
      PlainTyped locals (.refTest ty n) [.ref m h] [.i32]
  | refCast {ty n m h} (hk : refkindOfIrheap h = refkindOfIrheap ty) :
      PlainTyped locals (.refCast ty n) [.ref m h] [.ref n ty]
  | refEq : PlainTyped locals .refEq [.ref true .eq, .ref true .eq] [.i32]
  | anyConvertExtern (n) : PlainTyped locals .anyConvertExtern [.ref n .extern_] [.ref n .any]
  | externConvertAny (n) : PlainTyped locals .externConvertAny [.ref n .any] [.ref n .extern_]

/-- The values a catch clause hands to its label. -/
def catchTypes : Catch → List IrVal
  | .one tag _ => M.ctx.tagParams tag
  | .oneRef tag _ => M.ctx.tagParams tag ++ [.ref false .exn]
  | .all _ => []
  | .allRef _ => [.ref false .exn]

def Catch.tagOk : Catch → Prop
  | .one tag _ => tag < M.ctx.tagTypes.length
  | .oneRef tag _ => tag < M.ctx.tagTypes.length
  | _ => True

/-- The type of a region's own label: a loop is re-entered with its parameters. -/
def labelType (r : Region) (bt : BlockType) : List IrVal :=
  if r = .loop then (M.blockType bt).1 else (M.blockType bt).2

/-- The catch clauses of a region fit labels of the outer context. -/
def RegionTyped (L : List (List IrVal)) : Region → Prop
  | .tryTable catches => ∀ c ∈ catches, Catch.tagOk M c ∧
      ∃ ls, L[c.label]? = some ls ∧ M.Subs (M.catchTypes c) ls
  | _ => True

/-- The stack an unconditional branch needs. -/
inductive JumpTyped (results : List IrVal) (L : List (List IrVal)) :
    Jump → List IrVal → Prop where
  | br {l ls vs} (rest) (hl : L[l]? = some ls) (h : M.Subs vs ls) :
      JumpTyped results L (.br l) (rest ++ vs)
  | brTable {cases default vs} (rest)
      (h : ∀ l ∈ cases ++ [default], ∃ ls, L[l]? = some ls ∧ M.Subs vs ls) :
      JumpTyped results L (.brTable cases default) (rest ++ vs ++ [.i32])
  | ret {vs} (rest) (h : M.Subs vs results) : JumpTyped results L .ret (rest ++ vs)
  | unreachable (ts) : JumpTyped results L .unreachable ts
  | throw {tag vs} (rest) (ht : tag < M.ctx.tagTypes.length)
      (h : M.Subs vs (M.ctx.tagParams tag)) : JumpTyped results L (.throw tag) (rest ++ vs)
  | throwRef {n heap} (rest) (h : refkindOfIrheap heap = .exn) :
      JumpTyped results L .throwRef (rest ++ [.ref n heap])
  | returnCall {c vs} (rest) (hc : M.CallOk c) (h : M.Subs vs (M.callOperands c))
      (hr : M.Subs (Translator.callSig M.ctx c).2 results) :
      JumpTyped results L (.returnCall c) (rest ++ vs)

/-- The stack a conditional branch needs, and the one it falls through with. -/
inductive CondTyped (L : List (List IrVal)) : CondBr → List IrVal → List IrVal → Prop where
  | brIf {l ls vs} (rest) (hl : L[l]? = some ls) (h : M.Subs vs ls) :
      CondTyped L (.brIf l) (rest ++ vs ++ [.i32]) (rest ++ ls)
  | brOnNull {l ls vs n heap} (rest) (hl : L[l]? = some ls) (h : M.Subs vs ls) :
      CondTyped L (.brOnNull l) (rest ++ vs ++ [.ref n heap]) (rest ++ ls ++ [.ref false heap])
  | brOnNonNull {l ls vs n m heap heap'} (rest) (hl : L[l]? = some (ls ++ [.ref m heap']))
      (h : M.Subs vs ls) (hs : M.sub (.ref false heap) (.ref m heap')) :
      CondTyped L (.brOnNonNull l) (rest ++ vs ++ [.ref n heap]) (rest ++ ls)
  | brOnCast {l ls vs ty nullable n heap v w} (rest) (hl : L[l]? = some (ls ++ [v]))
      (h : M.Subs vs ls) (hk : refkindOfIrheap heap = refkindOfIrheap ty)
      (hv : M.sub (.ref nullable ty) v) (hw : w = .ref (n && !nullable) heap) :
      CondTyped L (.brOnCast l ty nullable false) (rest ++ vs ++ [.ref n heap])
        (rest ++ ls ++ [w])
  | brOnCastFail {l ls vs ty nullable n heap v} (rest) (hl : L[l]? = some (ls ++ [v]))
      (h : M.Subs vs ls) (hk : refkindOfIrheap heap = refkindOfIrheap ty)
      (hv : M.sub (.ref (n && !nullable) heap) v) :
      CondTyped L (.brOnCast l ty nullable true) (rest ++ vs ++ [.ref n heap])
        (rest ++ ls ++ [.ref nullable ty])

/-! ## Typing of sequences -/

inductive HasType (locals results : List IrVal) :
    List (List IrVal) → Body → List IrVal → List IrVal → Prop where
  | done {L ts us} (h : M.Subs ts us) : HasType locals results L .done ts us
  | plain {L p k ins vs outs us} (rest) (hp : M.PlainTyped locals p ins outs)
      (h : M.Subs vs ins) (hk : HasType locals results L k (rest ++ outs) us) :
      HasType locals results L (.plain p k) (rest ++ vs) us
  | region {L r bt b k vs us} (rest) (h : M.Subs vs (M.blockType bt).1) (hr : M.RegionTyped L r)
      (hb : HasType locals results (M.labelType r bt :: L) b (M.blockType bt).1
        (M.blockType bt).2)
      (hk : HasType locals results L k (rest ++ (M.blockType bt).2) us) :
      HasType locals results L (.region r bt b k) (rest ++ vs) us
  | ifElse {L bt t e k vs us} (rest) (h : M.Subs vs (M.blockType bt).1)
      (ht : HasType locals results ((M.blockType bt).2 :: L) t (M.blockType bt).1
        (M.blockType bt).2)
      (he : HasType locals results ((M.blockType bt).2 :: L) e (M.blockType bt).1
        (M.blockType bt).2)
      (hk : HasType locals results L k (rest ++ (M.blockType bt).2) us) :
      HasType locals results L (.ifElse bt t e k) (rest ++ vs ++ [.i32]) us
  | ifThen {L bt t k vs us} (rest) (h : M.Subs vs (M.blockType bt).1)
      (hpr : M.Subs (M.blockType bt).1 (M.blockType bt).2)
      (ht : HasType locals results ((M.blockType bt).2 :: L) t (M.blockType bt).1
        (M.blockType bt).2)
      (hk : HasType locals results L k (rest ++ (M.blockType bt).2) us) :
      HasType locals results L (.ifThen bt t k) (rest ++ vs ++ [.i32]) us
  | jump {L j k ts us} (h : M.JumpTyped results L j ts) :
      HasType locals results L (.jump j k) ts us
  | cond {L c k ts ts' us} (h : M.CondTyped L c ts ts')
      (hk : HasType locals results L k ts' us) : HasType locals results L (.cond c k) ts us
  | call {L c k vs us} (rest) (hc : M.CallOk c) (h : M.Subs vs (M.callOperands c))
      (hk : HasType locals results L k (rest ++ (Translator.callSig M.ctx c).2) us) :
      HasType locals results L (.call c k) (rest ++ vs) us

/-- A body the validator accepts for a function of the given type and declared locals: its one
label and its results are the function's own. -/
def ValidBody (typeIdx : ℕ) (declared : List IrVal) (b : Body) : Prop :=
  M.HasType ((M.ctx.sig typeIdx).1 ++ declared) (M.ctx.sig typeIdx).2 [(M.ctx.sig typeIdx).2] b []
    (M.ctx.sig typeIdx).2

/-- What the validator guarantees of a function body: its type, and `wasmparser`'s limits on the
size of a body and on the results of a function type. -/
structure Validated (typeIdx : ℕ) (declared : List (ℕ × IrVal)) (b : Body) : Prop where
  typed : M.ValidBody typeIdx (declared.flatMap fun g => List.replicate g.1 g.2) b
  size : b.bytes ≤ 7654321
  arity : ∀ i, (M.ctx.sig i).2.length ≤ 1000

end ModuleTypes

end SubmilliWasm
