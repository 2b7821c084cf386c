/-
# Comparisons kept apart

The compile pass replaces an i32 comparison in front of a `br_if` or an `if` by one fused branch.
Here the same pass is run without fusion, which keeps the two ops apart, and the streams of both
are compared: the one without fusion is the fused one with every fused branch written out as its
comparison and its branch, and every ip moved to where its op then begins.

`apartIp` is that move.  It never hits the second op of a pair, so that nothing the pass has
recorded (a branch target, the boundary or a landing pad of a handler, a source offset) lies
between a comparison and its branch.
-/
import SubmilliWasm.Compile.Emit

namespace SubmilliWasm

open Fallible

/-! ## Fused branches written out -/

/-- The comparison and the branch of a fused branch; any other op stands for itself. -/
def Op.apart : Op → List Op
  | .brIfCmp kind negate t => [.plain (.relop kind), if negate then .brIfNot t else .brIf t]
  | op => [op]

/-- Where the op at `ip` begins once the fused branches are written out. -/
def apartIp : List Op → ℕ → ℕ
  | _, 0 => 0
  | [], ip + 1 => ip + 1
  | op :: ops, ip + 1 => op.apart.length + apartIp ops ip

/-- Where the branch at `ip` is then: the second op of a fused one. -/
def branchIp (ops : List Op) (ip : ℕ) : ℕ := apartIp ops (ip + 1) - 1

def BranchTarget.mapIp (f : ℕ → ℕ) (t : BranchTarget) : BranchTarget := { t with ip := f t.ip }

/-- Move the target of an inline edge. -/
def Op.mapIp (f : ℕ → ℕ) : Op → Op
  | .br t => .br (t.mapIp f)
  | .brIf t => .brIf (t.mapIp f)
  | .brIfNot t => .brIfNot (t.mapIp f)
  | .brIfCmp k n t => .brIfCmp k n (t.mapIp f)
  | .brOnNull t => .brOnNull (t.mapIp f)
  | .brOnNonNull t => .brOnNonNull (t.mapIp f)
  | op => op

def HandlerRec.mapIp (f : ℕ → ℕ) (r : HandlerRec) : HandlerRec :=
  { r with landingIp := f r.landingIp }

def HandlerSpan.mapIp (f : ℕ → ℕ) (s : HandlerSpan) : HandlerSpan :=
  ⟨f s.startIp, f s.endIp, s.clauses.map (·.mapIp f)⟩

/-- The stream with its targets moved by `f` and its fused branches written out. -/
def writeOut (f : ℕ → ℕ) (ops : List Op) : List Op := ops.flatMap fun op => (op.mapIp f).apart

/-- The function with its fused branches written out. -/
def CompiledFunc.apart (code : CompiledFunc) : CompiledFunc :=
  { code with
    ops := writeOut (apartIp code.ops) code.ops
    handlers := code.handlers.map (·.mapIp (apartIp code.ops))
    brTables := code.brTables.map (·.mapIp (apartIp code.ops)) }

/-! ## The pass without fusion -/

/-- The pass over a body with no comparison remembered from one operator to the next. -/
def Translator.visitAllApart (ctx : CompileCtx) :
    List Operator → Translator → Except CompileError Translator
  | [], t => .ok t
  | op :: ops, t => do
      let t ← Translator.visit ctx { t with fusableCmp := none } op
      Translator.visitAllApart ctx ops t

/-- `translateFunction` without fusion. -/
def translateApart (ctx : CompileCtx) (usedLocals typeIdx : ℕ) (locals : List (ℕ × IrVal))
    (body : List Operator) : Except CompileError CompiledFunc := do
  let (params, results) := ctx.sig typeIdx
  let localTypes ← expandLocals ctx usedLocals locals
  let t ← Translator.visitAllApart ctx body (Translator.new results.length)
  match t.error with
  | some e => .error e
  | none =>
    pure {
      ops := t.ops
      typeIdx := typeIdx
      nParams := params.length
      nResults := results.length
      localTypes := localTypes
      maxOperands := t.maxOperands
      handlers := t.handlers
      brTables := t.brTables
      bigMemargs := t.bigMemargs }

/-! ## Positions -/

theorem Op.apart_length_pos (op : Op) : 0 < op.apart.length := by
  cases op <;> exact Nat.succ_pos _

@[simp] theorem Op.apart_length_mapIp (f : ℕ → ℕ) (op : Op) :
    (op.mapIp f).apart.length = op.apart.length := by
  cases op <;> rfl

@[simp] theorem apartIp_zero (ops : List Op) : apartIp ops 0 = 0 := by
  cases ops <;> rfl

@[simp] theorem apartIp_nil (ip : ℕ) : apartIp [] ip = ip := by
  cases ip <;> rfl

variable {ip : ℕ}

/-- The next op begins behind what the op at `ip` is written out to. -/
theorem apartIp_succ {ops : List Op} {op : Op} (h : ops[ip]? = some op) :
    apartIp ops (ip + 1) = apartIp ops ip + op.apart.length := by
  induction ops generalizing ip with
  | nil => cases h
  | cons o ops ih =>
    cases ip with
    | zero =>
      obtain rfl : o = op := Option.some.inj h
      rw [apartIp_zero, apartIp, apartIp_zero, Nat.add_comm]
    | succ ip =>
      show o.apart.length + apartIp ops (ip + 1) = o.apart.length + apartIp ops ip + _
      rw [ih h, Nat.add_assoc]

/-- Behind the stream nothing is written out. -/
theorem apartIp_succ_of_none {ops : List Op} (h : ops[ip]? = none) :
    apartIp ops (ip + 1) = apartIp ops ip + 1 := by
  induction ops generalizing ip with
  | nil => rw [apartIp_nil, apartIp_nil]
  | cons o ops ih =>
    cases ip with
    | zero => cases h
    | succ ip =>
      show o.apart.length + apartIp ops (ip + 1) = o.apart.length + apartIp ops ip + 1
      rw [ih h, Nat.add_assoc]

theorem apartIp_lt_succ (ops : List Op) (ip : ℕ) : apartIp ops ip < apartIp ops (ip + 1) := by
  rcases h : ops[ip]? with _ | op
  · rw [apartIp_succ_of_none h]
    exact Nat.lt_succ_self _
  · rw [apartIp_succ h]
    exact Nat.lt_add_of_pos_right op.apart_length_pos

/-- Writing out keeps the order of positions. -/
theorem apartIp_strictMono (ops : List Op) : StrictMono (apartIp ops) :=
  strictMono_nat_of_lt_succ (apartIp_lt_succ ops)

theorem branchIp_succ (ops : List Op) (ip : ℕ) : branchIp ops ip + 1 = apartIp ops (ip + 1) := by
  have h := apartIp_lt_succ ops ip
  unfold branchIp
  omega

/-- A position within the first ops is not moved by what follows them. -/
theorem apartIp_append {ops : List Op} (rest : List Op) (h : ip ≤ ops.length) :
    apartIp (ops ++ rest) ip = apartIp ops ip := by
  induction ops generalizing ip with
  | nil =>
    obtain rfl : ip = 0 := Nat.le_zero.mp h
    rw [apartIp_zero, apartIp_zero]
  | cons o ops ih =>
    cases ip with
    | zero => rw [apartIp_zero, apartIp_zero]
    | succ ip =>
      show _ + apartIp (ops ++ rest) ip = _ + apartIp ops ip
      rw [ih (Nat.le_of_succ_le_succ h)]

/-- Only what the ops are written out to matters to a position. -/
theorem apartIp_modify {g : Op → Op} (hg : ∀ op, (g op).apart.length = op.apart.length)
    (ops : List Op) (i : ℕ) : apartIp (ops.modify i g) = apartIp ops := by
  funext ip
  induction ops generalizing i ip with
  | nil => rw [List.modify_nil]
  | cons o ops ih =>
    cases ip with
    | zero => rw [apartIp_zero, apartIp_zero]
    | succ ip =>
      cases i with
      | zero =>
        show (g o).apart.length + _ = o.apart.length + _
        rw [hg]
      | succ i =>
        show o.apart.length + apartIp (ops.modify i g) ip = o.apart.length + apartIp ops ip
        rw [ih]

/-! ## Streams written out -/

theorem writeOut_append (f : ℕ → ℕ) (ops rest : List Op) :
    writeOut f (ops ++ rest) = writeOut f ops ++ writeOut f rest := List.flatMap_append

theorem writeOut_singleton (f : ℕ → ℕ) (op : Op) : writeOut f [op] = (op.mapIp f).apart := by
  unfold writeOut
  rw [List.flatMap_singleton]

/-- The stream is written out up to where the op behind it begins. -/
theorem writeOut_length (f : ℕ → ℕ) (ops : List Op) :
    (writeOut f ops).length = apartIp ops ops.length := by
  induction ops with
  | nil => rfl
  | cons o ops ih =>
    show ((o.mapIp f).apart ++ writeOut f ops).length = o.apart.length + apartIp ops ops.length
    rw [List.length_append, ih, Op.apart_length_mapIp]

/-- What stands at the new position of an op, and behind it. -/
theorem writeOut_drop (f : ℕ → ℕ) (ops : List Op) (ip : ℕ) :
    (writeOut f ops).drop (apartIp ops ip) = writeOut f (ops.drop ip) := by
  induction ops generalizing ip with
  | nil => rw [List.drop_nil]; exact List.drop_nil
  | cons o ops ih =>
    cases ip with
    | zero => rw [apartIp_zero, List.drop_zero, List.drop_zero]
    | succ ip =>
      show ((o.mapIp f).apart ++ writeOut f ops).drop (o.apart.length + apartIp ops ip) = _
      rw [← Op.apart_length_mapIp f, List.drop_length_add_append, ih, List.drop_succ_cons]

theorem modify_append_add {α : Type} (g : α → α) (as bs : List α) (i : ℕ) :
    (as ++ bs).modify (as.length + i) g = as ++ bs.modify i g := by
  induction as with
  | nil => rw [List.nil_append, List.length_nil, Nat.zero_add, List.nil_append]
  | cons a as ih =>
    rw [List.length_cons, Nat.succ_add, List.cons_append, List.modify_succ_cons, ih,
      List.cons_append]

/-- A target written into an op is written into the branch it is written out to. -/
theorem writeOut_setIp (f : ℕ → ℕ) (ops : List Op) (i ip : ℕ) :
    writeOut f (ops.modify i (Translator.setIp ip))
      = (writeOut f ops).modify (branchIp ops i) (Translator.setIp (f ip)) := by
  induction ops generalizing i with
  | nil => rw [List.modify_nil]; exact (List.modify_nil _ _).symm
  | cons o ops ih =>
    cases i with
    | zero =>
      have hi : branchIp (o :: ops) 0 = o.apart.length - 1 := by
        show o.apart.length + apartIp ops 0 - 1 = _
        rw [apartIp_zero, Nat.add_zero]
      rw [hi]
      -- the branch of a pair is its second op
      cases o with
      | brIfCmp kind negate t => cases negate <;> rfl
      | _ => rfl
    | succ i =>
      have hlt := apartIp_lt_succ ops i
      have hi : branchIp (o :: ops) (i + 1) = (o.mapIp f).apart.length + branchIp ops i := by
        show o.apart.length + apartIp ops (i + 1) - 1 = _ + (apartIp ops (i + 1) - 1)
        rw [Op.apart_length_mapIp]
        omega
      show (o.mapIp f).apart ++ writeOut f (ops.modify i _)
        = ((o.mapIp f).apart ++ writeOut f ops).modify _ _
      rw [hi, modify_append_add, ih]

/-- The branch of a fused branch; any other op is its own. -/
def Op.branch : Op → Op
  | .brIfCmp _ negate t => if negate then .brIfNot t else .brIf t
  | op => op

/-- Where an op begins, it is written out. -/
theorem writeOut_at {ops : List Op} {op : Op} (f : ℕ → ℕ) (h : ops[ip]? = some op) {i : ℕ}
    (hi : i < op.apart.length) :
    (writeOut f ops)[apartIp ops ip + i]? = (op.mapIp f).apart[i]? := by
  obtain ⟨hlt, hget⟩ := List.getElem?_eq_some_iff.mp h
  rw [← List.getElem?_drop, writeOut_drop, List.drop_eq_getElem_cons hlt, hget]
  show ((op.mapIp f).apart ++ writeOut f (ops.drop (ip + 1)))[i]? = _
  refine List.getElem?_append_left ?_
  rwa [Op.apart_length_mapIp]

/-- The last op it is written out to is its branch. -/
theorem writeOut_branchIp {ops : List Op} {op : Op} (f : ℕ → ℕ) (h : ops[ip]? = some op) :
    (writeOut f ops)[branchIp ops ip]? = some (op.mapIp f).branch := by
  have hpos := op.apart_length_pos
  have hbranch : branchIp ops ip = apartIp ops ip + (op.apart.length - 1) := by
    unfold branchIp
    rw [apartIp_succ h]
    omega
  rw [hbranch, writeOut_at f h (by omega)]
  cases op <;> rfl

/-- Behind the stream nothing is written out. -/
theorem writeOut_of_none {ops : List Op} (f : ℕ → ℕ) (h : ops[ip]? = none) {i : ℕ}
    (hi : apartIp ops ip ≤ i) : (writeOut f ops)[i]? = none := by
  rw [List.getElem?_eq_none_iff, writeOut_length]
  exact ((apartIp_strictMono ops).monotone (List.getElem?_eq_none_iff.mp h)).trans hi

/-! ## The positions of a function -/

/-- The inline edge of an op. -/
def Op.edge : Op → Option BranchTarget
  | .br t | .brIf t | .brIfNot t | .brIfCmp _ _ t | .brOnNull t | .brOnNonNull t => some t
  | _ => none

/-- The positions a function names: the targets of its edges, and the boundaries and the landing
pads of its handlers. -/
inductive CompiledFunc.Names (code : CompiledFunc) : ℕ → Prop where
  | edge {op : Op} {t : BranchTarget} (h : op ∈ code.ops) (ht : op.edge = some t) : Names code t.ip
  | pool {t : BranchTarget} (h : t ∈ code.brTables) : Names code t.ip
  | start {s : HandlerSpan} (h : s ∈ code.handlers) : Names code s.startIp
  | stop {s : HandlerSpan} (h : s ∈ code.handlers) : Names code s.endIp
  | landing {s : HandlerSpan} {r : HandlerRec} (h : s ∈ code.handlers) (hr : r ∈ s.clauses) :
    Names code r.landingIp

/-- Written out, a function names the moved positions only. -/
theorem CompiledFunc.Names.of_apart {code : CompiledFunc} {p : ℕ} (h : code.apart.Names p) :
    ∃ ip, code.Names ip ∧ p = apartIp code.ops ip := by
  have hspan : ∀ {s : HandlerSpan}, s ∈ code.apart.handlers →
      ∃ s₀ ∈ code.handlers, s = s₀.mapIp (apartIp code.ops) := by
    intro s hs
    obtain ⟨s₀, hs₀, rfl⟩ := List.mem_map.mp hs
    exact ⟨s₀, hs₀, rfl⟩
  cases h with
  | @edge op t hop ht =>
    obtain ⟨op₀, hop₀, hmem⟩ := List.mem_flatMap.mp hop
    have hedge : ∃ t₀, op₀.edge = some t₀ ∧ t = t₀.mapIp (apartIp code.ops) := by
      cases op₀ with
      | brIfCmp kind negate t₀ =>
        refine ⟨t₀, rfl, ?_⟩
        rcases List.mem_cons.mp hmem with rfl | hmem
        · cases ht
        · obtain rfl := List.mem_singleton.mp hmem
          cases negate <;> exact (Option.some.inj ht).symm
      | br t₀ | brIf t₀ | brIfNot t₀ | brOnNull t₀ | brOnNonNull t₀ =>
        obtain rfl := List.mem_singleton.mp hmem
        exact ⟨t₀, rfl, (Option.some.inj ht).symm⟩
      | _ =>
        obtain rfl := List.mem_singleton.mp hmem
        cases ht
    obtain ⟨t₀, ht₀, rfl⟩ := hedge
    exact ⟨t₀.ip, .edge hop₀ ht₀, rfl⟩
  | @pool t ht =>
    obtain ⟨t₀, ht₀, rfl⟩ := List.mem_map.mp ht
    exact ⟨t₀.ip, .pool ht₀, rfl⟩
  | start hs =>
    obtain ⟨s₀, hs₀, rfl⟩ := hspan hs
    exact ⟨s₀.startIp, .start hs₀, rfl⟩
  | stop hs =>
    obtain ⟨s₀, hs₀, rfl⟩ := hspan hs
    exact ⟨s₀.endIp, .stop hs₀, rfl⟩
  | landing hs hr =>
    obtain ⟨s₀, hs₀, rfl⟩ := hspan hs
    obtain ⟨r₀, hr₀, rfl⟩ := List.mem_map.mp hr
    exact ⟨r₀.landingIp, .landing hs₀ hr₀, rfl⟩

/-- Between the two ops of a pair no op begins. -/
theorem apartIp_ne_between {ops : List Op} {op : Op} (h : ops[ip]? = some op)
    (hpair : op.apart.length = 2) (ip' : ℕ) : apartIp ops ip' ≠ apartIp ops ip + 1 := by
  have hmono := (apartIp_strictMono ops).monotone
  have hnext := apartIp_succ h
  rcases Nat.lt_or_ge ip ip' with hlt | hge
  · have hle : apartIp ops (ip + 1) ≤ apartIp ops ip' := hmono hlt
    omega
  · have hle := hmono hge
    omega

/-- Nothing names the position between a comparison and its branch. -/
theorem CompiledFunc.not_names_between {code : CompiledFunc} {op : Op} (h : code.ops[ip]? = some op)
    (hpair : op.apart.length = 2) : ¬code.apart.Names (apartIp code.ops ip + 1) := by
  intro hnames
  obtain ⟨ip', -, hip'⟩ := hnames.of_apart
  exact apartIp_ne_between h hpair ip' hip'.symm

/-! ## Recorded positions -/

/-- The target of an inline edge, `0` for an op without one. -/
def Op.targetIp : Op → ℕ
  | .br t | .brIf t | .brIfNot t | .brIfCmp _ _ t | .brOnNull t | .brOnNonNull t => t.ip
  | _ => 0

def HandlerSpan.Below (n : ℕ) (s : HandlerSpan) : Prop :=
  s.startIp ≤ n ∧ s.endIp ≤ n ∧ ∀ r ∈ s.clauses, r.landingIp ≤ n

def CtrlFrame.Below (n : ℕ) (f : CtrlFrame) : Prop :=
  f.startIp ≤ n ∧ (∀ p ∈ f.endPatches, p.op < n) ∧ ∀ i, f.elsePatch = some i → i < n

/-- Move the start of a frame by `f` and the branches it waits for by `b`. -/
def CtrlFrame.mapIp (f b : ℕ → ℕ) (frame : CtrlFrame) : CtrlFrame :=
  { frame with
    startIp := f frame.startIp
    endPatches := frame.endPatches.map fun p => { p with op := b p.op }
    elsePatch := frame.elsePatch.map b }

namespace Translator

/-- All positions a translator has recorded are at most `n`, and the ops it still has to patch are
before it. -/
structure Below (n : ℕ) (t : Translator) : Prop where
  ops : ∀ op ∈ t.ops, op.targetIp ≤ n
  edges : ∀ e ∈ t.brTables, e.ip ≤ n
  spans : ∀ s ∈ t.handlers, s.Below n
  frames : ∀ f ∈ t.ctrl, f.Below n

/-- Nothing names the position behind a comparison that may still be fused. -/
structure Noted (t : Translator) : Prop where
  fuse : ∀ k, t.fusableCmp = some k → ∃ ops, t.ops = ops ++ [.plain (.relop k)]
  below : t.Below t.settled

variable {t : Translator} {n ip : ℕ}

theorem Below.mono {m : ℕ} (h : Below n t) (hnm : n ≤ m) : Below m t := by
  refine ⟨fun op hop => (h.ops op hop).trans hnm, fun e he => (h.edges e he).trans hnm, ?_, ?_⟩
  · intro s hs
    obtain ⟨hstart, hend, hclauses⟩ := h.spans s hs
    exact ⟨hstart.trans hnm, hend.trans hnm, fun r hr => (hclauses r hr).trans hnm⟩
  · intro f hf
    obtain ⟨hstart, hpatches, helse⟩ := h.frames f hf
    exact ⟨hstart.trans hnm, fun p hp => (hpatches p hp).trans_le hnm,
      fun i hi => (helse i hi).trans_le hnm⟩

theorem Noted.below_next (h : Noted t) : Below t.nextIp t :=
  h.below.mono t.settled_le

theorem Below.noted (h : Below t.nextIp t) (hfuse : t.fusableCmp = none) : Noted t := by
  refine ⟨fun k hk => ?_, ?_⟩
  · rw [hfuse] at hk
    cases hk
  · rw [settled_of_none hfuse]
    exact h

theorem Below.of_streams {u : Translator} (h : Below n t) (hs : SameStreams t u) : Below n u := by
  refine ⟨?_, ?_, ?_, ?_⟩
  · rw [hs.ops]
    exact h.ops
  · rw [hs.brTables]
    exact h.edges
  · rw [hs.handlers]
    exact h.spans
  · rw [hs.ctrl]
    exact h.frames

/-! ## The translator written out -/

/-- The state of the pass without fusion: the positions moved as the ops of `within` say. -/
def writtenOut (within : List Op) (t : Translator) : Translator :=
  { t with
    ops := writeOut (apartIp within) t.ops
    brTables := t.brTables.map (·.mapIp (apartIp within))
    handlers := t.handlers.map (·.mapIp (apartIp within))
    ctrl := t.ctrl.map (CtrlFrame.mapIp (apartIp within) (branchIp within))
    fusableCmp := none }

def apart (t : Translator) : Translator := t.writtenOut t.ops

theorem writeOut_congr {f g : ℕ → ℕ} {ops : List Op}
    (h : ∀ op ∈ ops, f op.targetIp = g op.targetIp) : writeOut f ops = writeOut g ops := by
  have hop : ∀ op ∈ ops, op.mapIp f = op.mapIp g := by
    intro op hmem
    have ht := h op hmem
    cases op <;> first | rfl | exact congrArg _ (congrArg (BranchTarget.mk · _ _) ht)
  exact List.flatMap_congr fun op hmem => congrArg Op.apart (hop op hmem)

/-- Only the recorded positions matter. -/
theorem Below.writtenOut_congr (h : Below n t) {ops ops' : List Op}
    (heq : ∀ ip ≤ n, apartIp ops ip = apartIp ops' ip) : t.writtenOut ops = t.writtenOut ops' := by
  have hbranch : ∀ i < n, branchIp ops i = branchIp ops' i := fun i hi =>
    congrArg (· - 1) (heq (i + 1) hi)
  have hops : writeOut (apartIp ops) t.ops = writeOut (apartIp ops') t.ops :=
    writeOut_congr fun op hop => heq _ (h.ops op hop)
  have hedges : t.brTables.map (·.mapIp (apartIp ops)) = t.brTables.map (·.mapIp (apartIp ops')) :=
    List.map_congr_left fun e he => congrArg (BranchTarget.mk · _ _) (heq _ (h.edges e he))
  have hspans : t.handlers.map (·.mapIp (apartIp ops))
      = t.handlers.map (·.mapIp (apartIp ops')) := by
    refine List.map_congr_left fun s hs => ?_
    obtain ⟨hstart, hend, hclauses⟩ := h.spans s hs
    unfold HandlerSpan.mapIp
    rw [heq _ hstart, heq _ hend]
    exact congrArg _ (List.map_congr_left fun r hr =>
      congrArg (HandlerRec.mk r.tag r.restoreHeight r.payloadArgs r.payloadRef)
        (heq _ (hclauses r hr)))
  have hframes : t.ctrl.map (CtrlFrame.mapIp (apartIp ops) (branchIp ops))
      = t.ctrl.map (CtrlFrame.mapIp (apartIp ops') (branchIp ops')) := by
    refine List.map_congr_left fun f hf => ?_
    obtain ⟨hstart, hpatches, helse⟩ := h.frames f hf
    have hend : (f.endPatches.map fun p => { p with op := branchIp ops p.op })
        = f.endPatches.map fun p => { p with op := branchIp ops' p.op } :=
      List.map_congr_left fun p hp => congrArg (Patch.mk · p.slot) (hbranch _ (hpatches p hp))
    have hels : f.elsePatch.map (branchIp ops) = f.elsePatch.map (branchIp ops') := by
      rcases he : f.elsePatch with _ | i
      · rfl
      · exact congrArg some (hbranch i (helse i he))
    unfold CtrlFrame.mapIp
    rw [heq _ hstart, hend, hels]
  unfold writtenOut
  rw [hops, hedges, hspans, hframes]

/-! ### Heights -/

theorem apart_pop (t : Translator) (n : ℕ) : (t.pop n).apart = t.apart.pop n := by
  by_cases h : n ≤ t.height
  · unfold pop
    rw [if_pos h, if_pos (show n ≤ t.apart.height from h)]
    rfl
  · unfold pop
    rw [if_neg h, if_neg (show ¬n ≤ t.apart.height from h)]
    rfl

theorem apart_push (t : Translator) (n : ℕ) : (t.push n).apart = t.apart.push n := by
  by_cases h : t.height + n < 2 ^ 32
  · unfold push
    rw [if_pos h, if_pos (show t.apart.height + n < 2 ^ 32 from h)]
    rfl
  · unfold push
    rw [if_neg h, if_neg (show ¬t.apart.height + n < 2 ^ 32 from h)]
    rfl

theorem apart_pushed (t : Translator) (n : ℕ) : (t.pushed n).apart = t.apart.pushed n := by
  unfold pushed
  split
  · rfl
  · exact apart_push t n

theorem apart_heightBelow (t : Translator) (n : ℕ) :
    t.apart.heightBelow n = ((t.heightBelow n).1, (t.heightBelow n).2.apart) := by
  by_cases h : n ≤ t.height
  · unfold heightBelow
    rw [if_pos h, if_pos (show n ≤ t.apart.height from h)]
    rfl
  · unfold heightBelow
    rw [if_neg h, if_neg (show ¬n ≤ t.apart.height from h)]
    rfl

/-! ### Emission -/

/-- The pass without fusion has written out exactly the ops of the pass with it. -/
theorem apart_nextIp (t : Translator) : t.apart.nextIp = apartIp t.ops t.nextIp :=
  writeOut_length (apartIp t.ops) t.ops

theorem Below.emit (h : Below n t) {op : Op} (hop : op.targetIp ≤ n) : Below n (t.emit op) := by
  refine ⟨fun o ho => ?_, h.edges, h.spans, h.frames⟩
  rcases List.mem_append.mp ho with ho | ho
  · exact h.ops o ho
  · rw [List.mem_singleton.mp ho]
    exact hop

/-- An op emitted behind the others does not move them. -/
theorem Below.apart_emit (h : Below t.nextIp t) {op : Op} (hop : op.targetIp ≤ t.nextIp)
    (hone : ∀ f, (op.mapIp f).apart = [op.mapIp f]) :
    (t.emit op).apart = { t.apart.emit (op.mapIp (apartIp t.ops)) with fusableCmp := none } := by
  have hkeep : ∀ ip ≤ t.nextIp, apartIp (t.ops ++ [op]) ip = apartIp t.ops ip := fun ip hip =>
    apartIp_append [op] hip
  have hcongr : (t.emit op).apart = (t.emit op).writtenOut t.ops :=
    (h.emit hop).writtenOut_congr hkeep
  have hops : writeOut (apartIp t.ops) (t.ops ++ [op])
      = writeOut (apartIp t.ops) t.ops ++ [op.mapIp (apartIp t.ops)] := by
    rw [writeOut_append, writeOut_singleton, hone]
  rw [hcongr]
  show { t.apart with ops := writeOut (apartIp t.ops) (t.ops ++ [op]), fusableCmp := none } = _
  rw [hops]
  rfl

/-! ### Branches -/

theorem map_modify_comm {α β : Type} {f : α → β} {g : α → α} {g' : β → β}
    (h : ∀ a, f (g a) = g' (f a)) (as : List α) (i : ℕ) :
    (as.modify i g).map f = (as.map f).modify i g' := by
  induction as generalizing i with
  | nil => rw [List.modify_nil]; exact (List.modify_nil _ _).symm
  | cons a as ih =>
    cases i with
    | zero => exact congrArg (· :: as.map f) (h a)
    | succ i => exact congrArg (f a :: ·) (ih i)

theorem apart_registerBranch (t : Translator) (frame : Option ℕ) (op : ℕ) (slot : PatchSlot) :
    (t.registerBranch frame op slot).apart
      = t.apart.registerBranch frame (branchIp t.ops op) slot := by
  cases frame with
  | none => rfl
  | some i =>
    have hctrl : (t.ctrl.modify i (·.addPatch ⟨op, slot⟩)).map
          (CtrlFrame.mapIp (apartIp t.ops) (branchIp t.ops))
        = (t.ctrl.map (CtrlFrame.mapIp (apartIp t.ops) (branchIp t.ops))).modify i
          (·.addPatch ⟨branchIp t.ops op, slot⟩) := by
      refine map_modify_comm (fun f => ?_) _ _
      unfold CtrlFrame.mapIp CtrlFrame.addPatch
      rw [List.map_append]
      rfl
    exact congrArg (fun c => { t.apart with ctrl := c }) hctrl

theorem Below.registerBranch (h : Below n t) (frame : Option ℕ) {op : ℕ} (hop : op < n)
    (slot : PatchSlot) : Below n (t.registerBranch frame op slot) := by
  cases frame with
  | none => exact h
  | some i =>
    refine ⟨h.ops, h.edges, h.spans, fun f hf => ?_⟩
    rcases Slots.of_mem_modify hf with hf | ⟨f₀, hf₀, rfl⟩
    · exact h.frames f hf
    · obtain ⟨hstart, hpatches, helse⟩ := h.frames f₀ hf₀
      refine ⟨hstart, fun p hp => ?_, helse⟩
      rcases List.mem_append.mp hp with hp | hp
      · exact hpatches p hp
      · rw [List.mem_singleton.mp hp]
        exact hop

/-- The label of a branch is the same; a loop's start has moved. -/
theorem apart_branchTarget (t : Translator) (depth : ℕ) :
    t.apart.branchTarget depth
      = (t.branchTarget depth).map fun r => (r.1.mapIp (apartIp t.ops), r.2) := by
  have hframe : t.apart.ctrl[depth]?
      = t.ctrl[depth]?.map (CtrlFrame.mapIp (apartIp t.ops) (branchIp t.ops)) :=
    List.getElem?_map
  unfold branchTarget
  rw [hframe]
  rcases t.ctrl[depth]? with _ | f
  · rfl
  · show (if f.baseHeight + f.labelArity < 2 ^ 32 then _ else _) = Except.map _ (if _ then _ else _)
    split
    · show (if f.baseHeight + f.labelArity ≤ t.height then _ else _)
        = Except.map _ (if _ then _ else _)
      split
      · show (do
            let r ← fixup f.labelArity (t.height - (f.baseHeight + f.labelArity))
            _) = _
        rcases fixup f.labelArity (t.height - (f.baseHeight + f.labelArity)) with e | ⟨keep, pop⟩
        · rfl
        · by_cases hk : f.kind = .loop
          · show Except.ok (if f.kind = .loop then _ else _)
              = Except.map _ (Except.ok (if f.kind = .loop then _ else _))
            rw [if_pos hk, if_pos hk]
            rfl
          · show Except.ok (if f.kind = .loop then _ else _)
              = Except.map _ (Except.ok (if f.kind = .loop then _ else _))
            rw [if_neg hk, if_neg hk]
            show _ = Except.ok (BranchTarget.mk (apartIp t.ops 0) keep pop, _)
            rw [apartIp_zero]
      · rfl
    · rfl

theorem Below.branchTarget (h : Below n t) {depth : ℕ} {target : BranchTarget} {frame : Option ℕ}
    (ht : t.branchTarget depth = .ok (target, frame)) : target.ip ≤ n := by
  obtain ⟨f, hf, -, rfl, -⟩ := branchTarget_ok ht
  show (if f.kind = .loop then f.startIp else 0) ≤ n
  split
  · exact (h.frames f (List.mem_of_getElem? hf)).1
  · exact Nat.zero_le n

/-! ### Patches -/

theorem writtenOut_eq {ops ops' : List Op} (h : apartIp ops = apartIp ops') (t : Translator) :
    t.writtenOut ops = t.writtenOut ops' := by
  unfold writtenOut branchIp
  rw [h]

theorem flatIndex_branch (slot : PatchSlot) (f : ℕ → ℕ) (op : Op) :
    flatIndex slot (op.mapIp f).branch = flatIndex slot op := by
  cases op with
  | brIfCmp k negate t => cases negate <;> rfl
  | _ => rfl

theorem apart_length_setIp (ip : ℕ) (op : Op) : (setIp ip op).apart.length = op.apart.length := by
  cases op <;> rfl

/-- A patch is written into the branch of the op it names. -/
theorem apart_patchIp (t : Translator) (op : ℕ) (slot : PatchSlot) (ip : ℕ) :
    (t.patchIp op slot ip).apart
      = t.apart.patchIp (branchIp t.ops op) slot (apartIp t.ops ip) := by
  rcases hop : t.ops[op]? with _ | o
  · have hnone : t.apart.ops[branchIp t.ops op]? = none := by
      refine writeOut_of_none (apartIp t.ops) hop ?_
      have h := apartIp_lt_succ t.ops op
      have h' := branchIp_succ t.ops op
      omega
    unfold patchIp
    rw [hop, hnone]
  · have hsome : t.apart.ops[branchIp t.ops op]? = some (o.mapIp (apartIp t.ops)).branch :=
      writeOut_branchIp (apartIp t.ops) hop
    unfold patchIp
    rw [hop, hsome]
    dsimp only
    rw [flatIndex_branch]
    rcases flatIndex slot o with _ | flat
    · -- an inline edge
      have hmove : apartIp (t.ops.modify op (setIp ip)) = apartIp t.ops :=
        apartIp_modify (apart_length_setIp ip) t.ops op
      show ({ t with ops := t.ops.modify op (setIp ip) } : Translator).writtenOut _ = _
      rw [writtenOut_eq hmove]
      show ({ t.apart with
        ops := writeOut (apartIp t.ops) (t.ops.modify op (setIp ip)) } : Translator) = _
      rw [writeOut_setIp]
      rfl
    · -- a pooled edge
      have hpool : (t.brTables.modify flat fun e => { e with ip }).map (·.mapIp (apartIp t.ops))
          = (t.brTables.map (·.mapIp (apartIp t.ops))).modify flat
            fun e => { e with ip := apartIp t.ops ip } := by
        refine map_modify_comm (fun e => ?_) _ _
        rfl
      exact congrArg (fun es => { t.apart with brTables := es }) hpool

theorem apartIp_patchIp (t : Translator) (op : ℕ) (slot : PatchSlot) (ip : ℕ) :
    apartIp (t.patchIp op slot ip).ops = apartIp t.ops := by
  unfold patchIp
  split
  · rfl
  · split
    · rfl
    · exact apartIp_modify (apart_length_setIp ip) t.ops op

theorem apart_patchAll (t : Translator) (patches : List Patch) (ip : ℕ) :
    (t.patchAll patches ip).apart
      = t.apart.patchAll (patches.map fun p => { p with op := branchIp t.ops p.op })
        (apartIp t.ops ip) := by
  induction patches generalizing t with
  | nil => rfl
  | cons p patches ih =>
    have hmove := apartIp_patchIp t p.op p.slot ip
    have hbranch : branchIp (t.patchIp p.op p.slot ip).ops = branchIp t.ops := by
      funext i
      unfold branchIp
      rw [hmove]
    show ((t.patchIp p.op p.slot ip).patchAll patches ip).apart = _
    rw [ih, hmove, hbranch, apart_patchIp]
    rfl

theorem targetIp_setIp_le (hip : ip ≤ n) {op : Op} (hop : op.targetIp ≤ n) :
    (setIp ip op).targetIp ≤ n := by
  cases op <;> first | exact hip | exact hop

theorem Below.patchIp (h : Below n t) (op : ℕ) (slot : PatchSlot) (hip : ip ≤ n) :
    Below n (t.patchIp op slot ip) := by
  unfold Translator.patchIp
  split
  · exact h
  · split
    · refine ⟨h.ops, fun e he => ?_, h.spans, h.frames⟩
      rcases Slots.of_mem_modify he with he | ⟨e, he, rfl⟩
      · exact h.edges e he
      · exact hip
    · refine ⟨fun o ho => ?_, h.edges, h.spans, h.frames⟩
      rcases Slots.of_mem_modify ho with hold | ⟨o', hold, rfl⟩
      · exact h.ops o hold
      · exact targetIp_setIp_le hip (h.ops o' hold)

theorem Below.patchAll (h : Below n t) (patches : List Patch) (hip : ip ≤ n) :
    Below n (t.patchAll patches ip) := by
  induction patches generalizing t with
  | nil => exact h
  | cons p patches ih => exact ih (h.patchIp p.op p.slot hip)

end Translator

end SubmilliWasm
