/-
# What adds an op

Whether an operator adds an op to the stream of its function depends on little of the pass: on
whether the code is reachable, on whether the last op is a comparison that a branch may take the
place of, and on how the open frames were entered and left.  `Liveness` keeps just that, and walks
the operators of a body without translating them.

The pass agrees with the walk at every operator (`visit_liveness`, `emitted_eq`).  So the bytes a
body takes bound every stream of its function (`Sized.visit`): an op costs a byte, and the ops
behind a `try_table` are paid by its catch clauses.
-/
import SubmilliWasm.Compile.Ledger

namespace SubmilliWasm

open Fallible

/-! ## The walk -/

/-- An open frame: how it was entered, whether a reachable branch leaves to its end, whether the
branch over its `then` part is open, and the labels of its catch clauses. -/
structure LiveFrame where
  kind : BlockKind
  entered : Bool
  targeted : Bool
  elseOpen : Bool
  catches : List ℕ
  deriving DecidableEq, Repr

structure Liveness where
  reachable : Bool
  comparison : Bool
  frames : List LiveFrame
  deriving DecidableEq, Repr

/-- The ops a frame still owes: a branch and the landing pads of a `try_table`. -/
def LiveFrame.owed (f : LiveFrame) : ℕ := if f.kind = .tryTable then f.catches.length + 1 else 0

def LiveFrame.leave (f : LiveFrame) : LiveFrame := { f with targeted := true }

/-- A branch to the label of a frame leaves to its end, unless the frame is a loop. -/
def LiveFrame.branch (f : LiveFrame) : LiveFrame := if f.kind = .loop then f else f.leave

/-- Branches to labels, one after the other. -/
def branchFrames (labels : List ℕ) (frames : List LiveFrame) : List LiveFrame :=
  labels.foldl (fun frames l => frames.modify l LiveFrame.branch) frames

namespace Liveness

/-- Before the first operator, inside the function's own frame. -/
def start : Liveness := ⟨true, false, [⟨.block, true, false, false, []⟩]⟩

def owed (s : Liveness) : ℕ := (s.frames.map LiveFrame.owed).sum

def opened (s : Liveness) (kind : BlockKind) (elseOpen : Bool) (catches : List ℕ) : Liveness :=
  ⟨s.reachable, false, ⟨kind, s.reachable, false, elseOpen, catches⟩ :: s.frames⟩

/-- The ops an operator adds. -/
def emits (s : Liveness) : Operator → ℕ
  | .block _ | .loop _ | .tryTable _ _ => 0
  | .if_ _ | .cond (.brIf _) => if s.reachable && !s.comparison then 1 else 0
  | .end_ =>
    match s.frames with
    | f :: _ => if f.kind = .tryTable ∧ f.entered then f.catches.length + 1 else 0
    | [] => 0
  | .else_ | .cond _ | .plain _ | .jump _ | .call _ => if s.reachable then 1 else 0

/-- The frames a jump leaves to. -/
def jumped (frames : List LiveFrame) : Jump → List LiveFrame
  | .ret => frames.modify (frames.length - 1) LiveFrame.leave
  | j => branchFrames j.labels frames

def isRelop : PlainOp BigMemArg → Bool
  | .relop _ => true
  | _ => false

def step (s : Liveness) : Operator → Liveness
  | .block _ => s.opened .block false []
  | .loop _ => s.opened .loop false []
  | .tryTable _ catches => s.opened .tryTable false (catches.map fun c => (convCatch c).label)
  | .if_ _ => s.opened .if_ s.reachable []
  | .else_ =>
    match s.frames with
    | f :: frames =>
      ⟨f.entered, false,
        { f with targeted := s.reachable || f.targeted, elseOpen := false } :: frames⟩
    | [] => s
  | .end_ =>
    match s.frames with
    | f :: frames =>
      if f.kind = .tryTable ∧ f.entered then
        ⟨s.reachable || f.targeted, false, branchFrames f.catches frames⟩
      else ⟨if f.kind = .loop then s.reachable else s.reachable || f.targeted || f.elseOpen, false,
        frames⟩
    | [] => s
  | .plain p => if s.reachable then { s with comparison := isRelop p } else s
  | .jump j => if s.reachable then ⟨false, false, jumped s.frames j⟩ else s
  | .cond c => if s.reachable then ⟨true, false, s.frames.modify c.label LiveFrame.branch⟩ else s
  | .call _ => if s.reachable then { s with comparison := false } else s

/-- The byte offset of every op a body adds, in order. -/
def sites : Liveness → List (ℕ × Operator) → List ℕ
  | _, [] => []
  | s, (offset, op) :: body => List.replicate (s.emits op) offset ++ (s.step op).sites body

end Liveness

/-- The least bytes an operator takes in the binary. -/
def Operator.bytes : Operator → ℕ
  | .block _ | .loop _ | .if_ _ | .cond _ | .call _ => 2
  | .tryTable _ catches => 3 + 2 * catches.length
  | .jump j => 1 + j.labels.length
  | .else_ | .end_ | .plain _ => 1

/-! ### What a walk owes -/

theorem owed_modify {g : LiveFrame → LiveFrame} (hg : ∀ f, (g f).owed = f.owed)
    (frames : List LiveFrame) (i : ℕ) :
    (frames.modify i g).map LiveFrame.owed = frames.map LiveFrame.owed := by
  have hkeep : (frames.modify i g).map LiveFrame.owed = (frames.map LiveFrame.owed).modify i id :=
    Translator.map_modify_comm hg frames i
  rw [hkeep, List.modify_id]

theorem LiveFrame.leave_owed (f : LiveFrame) : f.leave.owed = f.owed := rfl

theorem LiveFrame.branch_owed (f : LiveFrame) : f.branch.owed = f.owed := by
  unfold LiveFrame.branch
  by_cases h : f.kind = .loop
  · rw [if_pos h]
  · rw [if_neg h]
    exact f.leave_owed

theorem branchFrames_owed (labels : List ℕ) (frames : List LiveFrame) :
    (branchFrames labels frames).map LiveFrame.owed = frames.map LiveFrame.owed := by
  induction labels generalizing frames with
  | nil => rfl
  | cons l labels ih => exact (ih _).trans (owed_modify LiveFrame.branch_owed frames l)

namespace Liveness

theorem jumped_owed (frames : List LiveFrame) (j : Jump) :
    (jumped frames j).map LiveFrame.owed = frames.map LiveFrame.owed := by
  cases j with
  | ret => exact owed_modify LiveFrame.leave_owed frames _
  | br l => exact branchFrames_owed _ frames
  | brTable cases default => exact branchFrames_owed _ frames
  | unreachable => rfl
  | throw tag => rfl
  | throwRef => rfl
  | returnCall c => rfl

theorem opened_owed (s : Liveness) (kind : BlockKind) (elseOpen : Bool) (catches : List ℕ) :
    (s.opened kind elseOpen catches).owed
      = (if kind = .tryTable then catches.length + 1 else 0) + s.owed :=
  List.sum_cons

theorem emits_le_one (s : Liveness) {op : Operator} (h : op ≠ .end_) : s.emits op ≤ 1 := by
  have bit : ∀ b : Bool, (if b then 1 else 0) ≤ 1 := by decide
  cases op with
  | end_ => exact absurd rfl h
  | block bt => exact Nat.zero_le 1
  | loop bt => exact Nat.zero_le 1
  | tryTable bt catches => exact Nat.zero_le 1
  | cond c => cases c <;> exact bit _
  | if_ bt => exact bit _
  | else_ => exact bit _
  | plain p => exact bit _
  | jump j => exact bit _
  | call c => exact bit _

/-- What an operator adds, and leaves owed, is paid by its bytes and by what was owed. -/
theorem owed_step (s : Liveness) (op : Operator) :
    (s.step op).owed + s.emits op ≤ s.owed + op.bytes := by
  have keep : ∀ {s' : Liveness}, s'.frames.map LiveFrame.owed = s.frames.map LiveFrame.owed →
      op ≠ .end_ → s'.owed + s.emits op ≤ s.owed + 1 := by
    intro s' hs' hop
    have howed : s'.owed = s.owed := congrArg List.sum hs'
    have hone := s.emits_le_one hop
    omega
  have skip : ∀ {s' : Liveness}, s'.frames.map LiveFrame.owed = s.frames.map LiveFrame.owed →
      (if s.reachable then s' else s).frames.map LiveFrame.owed = s.frames.map LiveFrame.owed := by
    intro s' hs'
    by_cases hr : s.reachable = true
    · rw [if_pos hr]
      exact hs'
    · rw [if_neg hr]
  cases op with
  | block bt =>
    show (s.opened .block false []).owed + 0 ≤ _
    rw [opened_owed, if_neg (by decide)]
    omega
  | loop bt =>
    show (s.opened .loop false []).owed + 0 ≤ _
    rw [opened_owed, if_neg (by decide)]
    omega
  | tryTable bt catches =>
    show (s.opened .tryTable false _).owed + 0 ≤ s.owed + (3 + 2 * catches.length)
    rw [opened_owed, if_pos rfl, List.length_map]
    omega
  | if_ bt =>
    have hone : s.emits (.if_ bt) ≤ 1 := s.emits_le_one (by nofun)
    show (s.opened .if_ s.reachable []).owed + _ ≤ s.owed + 2
    rw [opened_owed, if_neg (by decide)]
    omega
  | else_ =>
    unfold step
    rcases hs : s.frames with _ | ⟨f, frames⟩
    · exact keep rfl (by nofun)
    · refine keep ?_ (by nofun)
      rw [hs]
      rfl
  | end_ =>
    unfold step emits owed
    rcases hs : s.frames with _ | ⟨f, frames⟩
    · dsimp only
      rw [hs]
      exact Nat.le_add_right _ _
    · dsimp only
      rw [List.map_cons, List.sum_cons]
      by_cases hk : f.kind = .tryTable ∧ f.entered = true
      · rw [if_pos hk, if_pos hk, branchFrames_owed]
        have hf : f.owed = f.catches.length + 1 := if_pos hk.1
        omega
      · rw [if_neg hk, if_neg hk]
        dsimp only
        omega
  | plain p => exact keep (skip rfl) (by nofun)
  | jump j =>
    refine (keep (skip (jumped_owed s.frames j)) (by nofun)).trans ?_
    exact Nat.add_le_add_left (Nat.le_add_right 1 _) _
  | cond c =>
    have hframes := owed_modify LiveFrame.branch_owed s.frames c.label
    exact (keep (skip hframes) (by nofun)).trans (Nat.le_succ _)
  | call c =>
    have hframes : (⟨s.reachable, false, s.frames⟩ : Liveness).frames.map LiveFrame.owed
        = s.frames.map LiveFrame.owed := rfl
    exact (keep (skip hframes) (by nofun)).trans (Nat.le_succ _)

end Liveness

namespace Translator

variable {ctx : CompileCtx} {t u : Translator}

/-! ## The pass agrees with the walk -/

def liveFrame (f : CtrlFrame) : LiveFrame :=
  ⟨f.kind, f.reachableOnEntry, f.endTargeted, f.elsePatch.isSome, f.clauses.map (·.label)⟩

def liveness (t : Translator) : Liveness :=
  ⟨t.reachable, t.fusableCmp.isSome, t.ctrl.map liveFrame⟩

theorem liveness_new (n : ℕ) : liveness (new n) = .start := rfl

theorem liveFrame_addPatch (f : CtrlFrame) (p : Patch) :
    liveFrame (f.addPatch p) = (liveFrame f).leave := rfl

/-- Listed branches leave to the ends of their frames. -/
theorem liveFrame_regs (regs : List (ℕ × PatchSlot)) (n : ℕ) (c : List CtrlFrame) :
    (regs.foldl (fun c r => c.modify r.1 (·.addPatch ⟨n, r.2⟩)) c).map liveFrame
      = regs.foldl (fun frames r => frames.modify r.1 LiveFrame.leave) (c.map liveFrame) := by
  induction regs generalizing c with
  | nil => rfl
  | cons r regs ih =>
    rw [List.foldl_cons, ih, List.foldl_cons]
    have hmap := map_modify_comm (fun f => liveFrame_addPatch f ⟨n, r.2⟩) c r.1
    rw [hmap]

theorem modify_congr {α : Type} {g g' : α → α} {as : List α} {i : ℕ}
    (h : ∀ a, as[i]? = some a → g a = g' a) : as.modify i g = as.modify i g' := by
  refine List.ext_getElem? fun j => ?_
  rw [List.getElem?_modify, List.getElem?_modify]
  by_cases hij : i = j
  · subst hij
    simp only [if_true]
    rcases ha : as[i]? with _ | a
    · rfl
    · exact congrArg some (h a ha)
  · simp only [if_neg hij]

variable {f : CtrlFrame} {frames : List LiveFrame} {b l n : ℕ}

/-- The branch listed for a label is the branch of the walk. -/
theorem branchRegs_frames (hf : ∃ g, frames[l]? = some g ∧ g.kind = f.kind) (slot : PatchSlot) :
    (branchRegs f l slot).foldl (fun frames r => frames.modify r.1 LiveFrame.leave) frames
      = frames.modify l LiveFrame.branch := by
  obtain ⟨g, hg, hkind⟩ := hf
  have hbranch : ∀ a, frames[l]? = some a →
      a.branch = if f.kind = .loop then a else a.leave := by
    intro a ha
    obtain rfl := Option.some.inj (ha.symm.trans hg)
    unfold LiveFrame.branch
    rw [hkind]
  unfold branchRegs
  by_cases hk : f.kind = .loop
  · simp only [if_pos hk] at hbranch ⊢
    exact ((modify_congr hbranch).trans (List.modify_id l frames)).symm
  · simp only [if_neg hk] at hbranch ⊢
    exact (modify_congr hbranch).symm

/-- The frames keep their kinds, whatever leaves to them. -/
theorem branch_kinds {m : ℕ} (hf : ∃ g, frames[l]? = some g ∧ g.kind = f.kind) :
    ∃ g, (frames.modify m LiveFrame.branch)[l]? = some g ∧ g.kind = f.kind := by
  obtain ⟨g, hg, hkind⟩ := hf
  rw [List.getElem?_modify, hg]
  by_cases hm : m = l
  · refine ⟨g.branch, ?_, ?_⟩
    · simp only [if_pos hm]
      rfl
    · unfold LiveFrame.branch
      by_cases hk : g.kind = .loop
      · rw [if_pos hk, hkind]
      · rw [if_neg hk]
        exact hkind
  · exact ⟨g, by simp only [if_neg hm]; rfl, hkind⟩

theorem caseRegs_frames {k : ℕ} {cases : List ℕ} {fs : List CtrlFrame}
    (h : List.Forall₂ (fun l f => ∃ g, frames[l]? = some g ∧ g.kind = f.kind) cases fs) :
    (caseRegs k cases fs).foldl (fun frames r => frames.modify r.1 LiveFrame.leave) frames
      = branchFrames cases frames := by
  induction cases generalizing k fs frames with
  | nil => rfl
  | cons l cases ih =>
    rcases h with _ | ⟨hl, hrest⟩
    unfold caseRegs
    rw [List.foldl_append, branchRegs_frames hl]
    exact ih (hrest.imp fun _ _ => branch_kinds)

theorem frame_kind (hf : t.ctrl[l]? = some f) :
    ∃ g, (t.ctrl.map liveFrame)[l]? = some g ∧ g.kind = f.kind :=
  ⟨liveFrame f, by rw [List.getElem?_map, hf]; rfl, rfl⟩

/-- An op that is added leaves the walk where its branches and its kind lead. -/
theorem Emits.liveness {op : Op} {edges : List BranchTarget} {regs : List (ℕ × PatchSlot)}
    (hem : Emits t u n op edges regs) :
    liveness u = ⟨u.reachable, (fusableCmpOf op).isSome,
      regs.foldl (fun frames r => frames.modify r.1 LiveFrame.leave) (t.ctrl.map liveFrame)⟩ := by
  unfold Translator.liveness
  rw [hem.fuse, hem.ctrl, liveFrame_regs]

theorem Emits.liveness_branch {op : Op} {edges : List BranchTarget} {slot : PatchSlot}
    (hem : Emits t u n op edges (branchRegs f l slot)) (hf : t.ctrl[l]? = some f)
    (hop : fusableCmpOf op = none) :
    Translator.liveness u
      = ⟨u.reachable, false, (t.ctrl.map liveFrame).modify l LiveFrame.branch⟩ := by
  rw [hem.liveness, hop, branchRegs_frames (frame_kind hf)]
  rfl

theorem visitPlain_liveness {p : PlainOp BigMemArg} (hr : t.reachable = true)
    (h : visitPlain ctx p t = .ok u) :
    liveness u = { liveness t with comparison := Liveness.isRelop p } := by
  obtain ⟨hem, -, hru, -⟩ := visitPlain_emits hr h
  have hkind : (fusableCmpOf (.plain (lowerPlain t.bigMemargs p).1)).isSome
      = Liveness.isRelop p := by
    unfold lowerPlain
    cases p <;> rfl
  rw [hem.liveness, hkind, hru, ← hr]
  rfl

theorem visitJump_liveness {j : Jump} (h : t.visitJump ctx j = .ok u) :
    liveness u = ⟨false, false, Liveness.jumped (t.ctrl.map liveFrame) j⟩ := by
  cases j with
  | br l =>
    obtain ⟨f, hf, -, hem, hr⟩ := br_emits h
    rw [hem.liveness_branch hf rfl, hr]
    rfl
  | brTable cases default =>
    obtain ⟨fs, g, hfs, hg, -, hem, hr, -⟩ := brTable_emits h
    have hcases : List.Forall₂ (fun l f => ∃ g, (t.ctrl.map liveFrame)[l]? = some g ∧
        g.kind = f.kind) cases fs := hfs.imp fun _ _ h => frame_kind h.1
    have hdefault : ∃ g', (branchFrames cases (t.ctrl.map liveFrame))[default]? = some g' ∧
        g'.kind = g.kind := by
      have hkinds : ∀ (ls : List ℕ) (frames : List LiveFrame),
          (∃ g', frames[default]? = some g' ∧ g'.kind = g.kind) →
          ∃ g', (branchFrames ls frames)[default]? = some g' ∧ g'.kind = g.kind := by
        intro ls
        induction ls with
        | nil => exact fun _ h => h
        | cons l ls ih => exact fun frames h => ih _ (branch_kinds h)
      exact hkinds cases _ (frame_kind hg)
    rw [hem.liveness, List.foldl_append, caseRegs_frames hcases, branchRegs_frames hdefault, hr]
    show _ = (⟨false, false, branchFrames (cases ++ [default]) _⟩ : Liveness)
    unfold branchFrames
    rw [List.foldl_append]
    rfl
  | ret =>
    obtain ⟨f, -, -, hem, hr⟩ := ret_emits h
    rw [hem.liveness, hr]
    unfold Liveness.jumped
    rw [List.length_map]
    rfl
  | unreachable =>
    obtain rfl := Except.ok.inj h
    rw [(terminate_emits t rfl).liveness]
    rfl
  | throw tag =>
    obtain rfl := Except.ok.inj h
    rw [(terminate_emits t rfl).liveness]
    rfl
  | throwRef =>
    obtain rfl := Except.ok.inj h
    rw [(terminate_emits t rfl).liveness]
    rfl
  | returnCall c =>
    obtain rfl := Except.ok.inj h
    rw [(returnCall_emits ctx t c).liveness]
    rfl

theorem visitCond_liveness {c : CondBr} (ht : Tracked t) (hr : t.reachable = true)
    (h : t.visitCond c = .ok u) :
    liveness u = ⟨true, false, (t.ctrl.map liveFrame).modify c.label LiveFrame.branch⟩ := by
  cases c with
  | brIf l =>
    obtain ⟨f, hf, -, hem, hu, -⟩ := brIf_emits ht hr h
    have hop : fusableCmpOf (condBranch t.fusableCmp false (edgeTo f (t.pop 1).height)) = none := by
      cases t.fusableCmp <;> rfl
    rw [hem.liveness_branch hf hop, hu]
    rfl
  | brOnNull l =>
    obtain ⟨f, hf, -, hem, hu, -⟩ := brOnNull_emits hr h
    rw [hem.liveness_branch hf rfl, hu]
    rfl
  | brOnNonNull l =>
    obtain ⟨f, hf, -, hem, hu, -⟩ := brOnNonNull_emits hr h
    rw [hem.liveness_branch hf rfl, hu]
    rfl
  | brOnCast l ty nullable fail =>
    obtain ⟨f, hf, -, hem, hu, -⟩ := brOnCast_emits h
    rw [hem.liveness_branch hf rfl, hu, hr]
    rfl

/-- The frame an operator opens, as the walk opens it. -/
theorem Opens.liveness (ho : Opens t u f) :
    liveness u = ⟨t.reachable, false, liveFrame f :: t.ctrl.map liveFrame⟩ := by
  unfold Translator.liveness
  rw [ho.reachable, ho.fuse, ho.ctrl]
  rfl

/-- The branch over a `then` part is the one op an `if` adds. -/
theorem ifBranch_streams (t : Translator) :
    t.ifBranch.2.ops.length
        = t.ops.length + (if t.reachable && t.fusableCmp.isNone then 1 else 0) ∧
      t.ifBranch.2.brTables = t.brTables ∧ t.ifBranch.2.bigMemargs = t.bigMemargs ∧
      t.ifBranch.2.handlers = t.handlers := by
  have hs := pop_streams t 1
  unfold ifBranch
  by_cases hr : t.reachable = true
  · rw [if_pos hr, hr]
    dsimp only
    rw [← hs.fusableCmp]
    rcases (t.pop 1).fusableCmp with _ | kind
    · refine ⟨?_, hs.brTables, hs.bigMemargs, hs.handlers⟩
      show ((t.pop 1).ops ++ [_]).length = t.ops.length + 1
      rw [List.length_append, hs.ops]
      rfl
    · refine ⟨?_, hs.brTables, hs.bigMemargs, hs.handlers⟩
      show ((t.pop 1).ops.set _ _).length = t.ops.length + 0
      rw [List.length_set, hs.ops]
      rfl
  · rw [if_neg hr, Bool.eq_false_iff.mpr hr]
    exact ⟨rfl, rfl, rfl, rfl⟩

/-- The branch over a `then` part is open when the `if` is reachable. -/
theorem ifBranch_live (t : Translator) :
    t.ifBranch.2.reachable = t.reachable ∧ t.ifBranch.1.isSome = t.reachable ∧
      t.ifBranch.2.ctrl = t.ctrl := by
  have hs := pop_streams t 1
  unfold ifBranch
  by_cases hr : t.reachable = true
  · rw [if_pos hr]
    dsimp only
    rcases (t.pop 1).fusableCmp with _ | kind
    · exact ⟨hs.reachable, hr.symm, hs.ctrl⟩
    · exact ⟨hs.reachable, hr.symm, hs.ctrl⟩
  · rw [if_neg hr]
    exact ⟨rfl, (Bool.eq_false_iff.mpr hr).symm, rfl⟩

theorem pushIf_liveness (t : Translator) (bt : BlockType) :
    liveness (t.pushIf ctx bt) = (liveness t).opened .if_ t.reachable [] := by
  obtain ⟨hreach, hopen, hctrl⟩ := ifBranch_live t
  have ho := opens_frame t.ifBranch.2 .if_ (blockArity ctx bt).1
    (blockArity ctx bt).2 t.ifBranch.1 []
  refine ho.liveness.trans ?_
  show (⟨t.ifBranch.2.reachable, false, ⟨.if_, _, false, t.ifBranch.1.isSome, []⟩
    :: t.ifBranch.2.ctrl.map liveFrame⟩ : Liveness) = _
  rw [hreach, hopen, hctrl]
  rfl

theorem doElse_liveness {d : List CtrlFrame} (hc : t.ctrl = f :: d) (h : t.doElse = .ok u) :
    liveness u = ⟨f.reachableOnEntry, false, { liveFrame f with
      targeted := t.reachable || f.endTargeted, elseOpen := false } :: d.map liveFrame⟩ := by
  obtain ⟨v, g, -, -, hfuse, -, hcase, rfl⟩ := doElse_ok hc h
  have hpatched := (patchElse_patched v f.elsePatch v.nextIp).fusableCmp.trans hfuse
  have hg : liveFrame { g with elsePatch := none }
      = { liveFrame f with targeted := t.reachable || f.endTargeted, elseOpen := false } := by
    rcases hcase with ⟨hr, rfl, -⟩ | ⟨hr, rfl, -⟩
    · rw [hr]
      rfl
    · rw [hr]
      rfl
  unfold liveness
  rw [show _ = none from hpatched]
  exact congrArg (fun f' => (⟨f.reachableOnEntry, false, f' :: d.map liveFrame⟩ : Liveness)) hg

/-- The landing pads branch to the labels of their clauses, in order. -/
theorem landingPads_liveness {base : ℕ} {clauses : List HandlerClause} {recs : List HandlerRec}
    (h : landingPads ctx base clauses t = .ok (recs, u)) (hf : t.fusableCmp = none) :
    u.fusableCmp = none ∧ u.ctrl.map liveFrame
      = branchFrames (clauses.map (·.label)) (t.ctrl.map liveFrame) := by
  induction clauses generalizing t recs with
  | nil =>
    cases h
    exact ⟨hf, rfl⟩
  | cons c clauses ih =>
    obtain ⟨f, v, recs', hf, -, hem, -, -, hrest, -⟩ := landingPads_cons h
    obtain ⟨hu, hframes⟩ := ih hrest hem.fuse
    refine ⟨hu, hframes.trans ?_⟩
    have hv := congrArg Liveness.frames (hem.liveness_branch hf rfl)
    rw [show v.ctrl.map liveFrame = _ from hv]
    rfl

theorem doEnd_liveness {d : List CtrlFrame} (hc : t.ctrl = f :: d) (h : t.doEnd ctx = .ok u) :
    liveness u = (liveness t).step .end_ := by
  have hstep : (liveness t).step .end_ =
      if f.kind = .tryTable ∧ f.reachableOnEntry = true then
        ⟨t.reachable || f.endTargeted, false,
          branchFrames (f.clauses.map (·.label)) (d.map liveFrame)⟩
      else ⟨if f.kind = .loop then t.reachable
        else t.reachable || f.endTargeted || f.elsePatch.isSome, false, d.map liveFrame⟩ := by
    unfold Liveness.step liveness
    rw [hc]
    rfl
  rw [hstep]
  unfold doEnd at h
  rw [hc] at h
  dsimp only at h
  set t' : Translator := { t with fusableCmp := none, ctrl := d } with ht'
  by_cases hk : f.kind = .tryTable ∧ f.reachableOnEntry = true
  · rw [if_pos hk] at h ⊢
    obtain ⟨v, w, recs, hem, -, hpads, rfl⟩ := endTryTable_ok h
    obtain ⟨hfuse, hframes⟩ := landingPads_liveness hpads hem.fuse
    have hpatched := patchAll_patched (⟨t'.nextIp, .single⟩ :: f.endPatches) w w.nextIp
    have hctrl : v.ctrl = d := hem.ctrl
    rw [hctrl] at hframes
    have hfuse' := hpatched.fusableCmp.trans hfuse
    have hframes' : (w.patchAll (⟨t'.nextIp, .single⟩ :: f.endPatches) w.nextIp).ctrl.map liveFrame
        = branchFrames (f.clauses.map (·.label)) (d.map liveFrame) := by
      rw [hpatched.ctrl, hframes]
    unfold liveness
    exact congrArg₂ (fun (k : Option CmpKind) fs =>
      (⟨t.reachable || f.endTargeted, k.isSome, fs⟩ : Liveness)) hfuse' hframes'
  · rw [if_neg hk] at h ⊢
    obtain rfl := Except.ok.inj h
    have hpatched := (patchElse_patched t' f.elsePatch t'.nextIp).trans
      (patchAll_patched f.endPatches _ t'.nextIp)
    have hreach : (endBlock f t').reachable = if f.kind = .loop then t.reachable
        else t.reachable || f.endTargeted || f.elsePatch.isSome := by
      unfold endBlock
      dsimp only
      rw [hpatched.reachable]
    have hctrl : (endBlock f t').ctrl = d := hpatched.ctrl
    have hfuse : (endBlock f t').fusableCmp = none := hpatched.fusableCmp
    unfold liveness
    rw [hreach, hctrl, hfuse]
    rfl

/-- The walk follows the pass operator by operator. -/
theorem visit_liveness (ht : Tracked t) {op : Operator} (hv : t.visit ctx op = .ok u) :
    liveness u = (liveness t).step op := by
  have skip : ∀ {x : Except CompileError Translator} {s : Liveness},
      (t.reachable = true → x = .ok u → liveness u = s) →
      (if t.reachable then x else .ok t) = .ok u →
      liveness u = if t.reachable then s else liveness t := by
    intro x s hx hif
    by_cases hr : t.reachable = true
    · rw [if_pos hr] at hif ⊢
      exact hx hr hif
    · rw [if_neg hr] at hif ⊢
      obtain rfl := Except.ok.inj hif
      rfl
  have hblock : ∀ (bt : BlockType) (kind : BlockKind) (clauses : List HandlerClause),
      liveness (t.pushBlock ctx bt kind clauses)
        = (liveness t).opened kind false (clauses.map (·.label)) := fun bt kind clauses =>
    (opens_frame t kind (blockArity ctx bt).1 (blockArity ctx bt).2 none clauses).liveness
  cases op with
  | plain p => exact skip visitPlain_liveness hv
  | block bt =>
    obtain rfl := Except.ok.inj hv
    exact hblock bt .block []
  | loop bt =>
    obtain rfl := Except.ok.inj hv
    exact hblock bt .loop []
  | tryTable bt catches =>
    obtain rfl := Except.ok.inj hv
    refine (hblock bt .tryTable (catches.map convCatch)).trans ?_
    rw [List.map_map]
    rfl
  | if_ bt =>
    obtain rfl := Except.ok.inj hv
    exact pushIf_liveness t bt
  | else_ =>
    rcases hc : t.ctrl with _ | ⟨f, d⟩
    · have helse : t.doElse = .ok u := hv
      unfold doElse at helse
      rw [hc] at helse
      cases helse
    · rw [doElse_liveness hc hv]
      unfold Liveness.step liveness
      rw [hc]
      rfl
  | end_ =>
    rcases hc : t.ctrl with _ | ⟨f, d⟩
    · have hend : t.doEnd ctx = .ok u := hv
      unfold doEnd at hend
      rw [hc] at hend
      cases hend
    · exact doEnd_liveness hc hv
  | jump j => exact skip (fun _ => visitJump_liveness) hv
  | cond c => exact skip (visitCond_liveness ht) hv
  | call c =>
    refine skip (fun hr hx => ?_) hv
    obtain rfl := Except.ok.inj hx
    obtain ⟨hem, hu, -⟩ := call_emits ctx hr c
    rw [hem.liveness, hu, ← hr]
    rfl

/-- An operator adds the ops the walk says. -/
theorem emitted_eq (t : Translator) (op : Operator) : t.emitted op = (liveness t).emits op := by
  have hone : (if t.reachable then (if t.fusableCmp.isNone then 1 else 0) else 0)
      = if t.reachable && !t.fusableCmp.isSome then 1 else 0 := by
    cases t.reachable <;> cases t.fusableCmp <;> rfl
  cases op with
  | cond c =>
    cases c with
    | brIf l => exact hone
    | _ => rfl
  | if_ bt =>
    unfold emitted
    rw [← Option.not_isSome]
    rfl
  | end_ =>
    unfold emitted Liveness.emits liveness
    rcases t.ctrl with _ | ⟨f, d⟩
    · rfl
    · show (if _ then f.clauses.length + 1 else 0) = if _ then (f.clauses.map _).length + 1 else 0
      rw [List.length_map]
      rfl
  | _ => rfl

/-! ## What the streams of a function hold -/

/-- A body of `n` bytes bounds every stream. -/
structure Sized (t : Translator) (n : ℕ) : Prop where
  ops : t.ops.length + (liveness t).owed ≤ n
  brTables : t.brTables.length ≤ n
  bigMemargs : t.bigMemargs.length ≤ n
  handlers : t.handlers.length ≤ n

theorem sized_new (n : ℕ) : Sized (new n) 0 := ⟨le_refl 0, le_refl 0, le_refl 0, le_refl 0⟩

/-- The streams besides the ops grow by at most `b`. -/
structure Gains (t u : Translator) (b : ℕ) : Prop where
  brTables : u.brTables.length ≤ t.brTables.length + b
  bigMemargs : u.bigMemargs.length ≤ t.bigMemargs.length + b
  handlers : u.handlers.length ≤ t.handlers.length + b

theorem Adds.gains {k m : ℕ} (h : Adds t u k m) (hm : m ≤ b)
    (hbig : u.bigMemargs.length ≤ t.bigMemargs.length + b) : Gains t u b := by
  obtain ⟨n, op, edges, regs, hem, -, -, -, hedges⟩ := h
  refine ⟨?_, hbig, ?_⟩
  · rw [hem.brTables, List.length_append]
    omega
  · rw [hem.handlers]
    exact Nat.le_add_right _ _

theorem registerBranch_bigMemargs (t : Translator) (frame : Option ℕ) (op : ℕ) (slot : PatchSlot) :
    (t.registerBranch frame op slot).bigMemargs = t.bigMemargs := by
  cases frame <;> rfl

theorem memarg_length (pool : List BigMemArg) (m : BigMemArg) :
    (memarg pool m).2.length ≤ pool.length + 1 := by
  unfold memarg
  split
  · exact Nat.le_succ _
  · exact List.length_append.le

theorem lowerPlain_length (pool : List BigMemArg) (p : PlainOp BigMemArg) :
    (lowerPlain pool p).2.length ≤ pool.length + 1 := by
  unfold lowerPlain
  split
  · exact Nat.le_succ _
  · exact memarg_length pool _

theorem br_bigMemargs (h : t.br l = .ok u) : u.bigMemargs = t.bigMemargs := by
  unfold br at h
  obtain ⟨⟨target, frame⟩, -, h⟩ := bind_ok h
  obtain rfl := Except.ok.inj h
  exact registerBranch_bigMemargs _ frame _ _

theorem brTable_bigMemargs {cases : List ℕ} {default : ℕ} (h : t.brTable cases default = .ok u) :
    u.bigMemargs = t.bigMemargs := by
  unfold brTable at h
  obtain ⟨⟨patches, v⟩, hcases, h⟩ := bind_ok h
  obtain ⟨⟨target, frame⟩, -, h⟩ := bind_ok h
  obtain rfl := Except.ok.inj h
  obtain ⟨fs, -, rfl, -⟩ := brTableCases_ok hcases
  dsimp only
  rw [foldl_register]
  exact (pop_streams t 1).bigMemargs

theorem ret_bigMemargs (h : t.ret = .ok u) : u.bigMemargs = t.bigMemargs := by
  unfold ret at h
  split at h
  · cases h
  · split at h
    · obtain ⟨⟨keep, pop⟩, -, h⟩ := bind_ok h
      obtain rfl := Except.ok.inj h
      rfl
    · cases h

theorem visitJump_bigMemargs {j : Jump} (h : t.visitJump ctx j = .ok u) :
    u.bigMemargs = t.bigMemargs := by
  cases j with
  | br l => exact br_bigMemargs h
  | brTable cases default => exact brTable_bigMemargs h
  | ret => exact ret_bigMemargs h
  | unreachable =>
    obtain rfl := Except.ok.inj h
    rfl
  | throw tag =>
    obtain rfl := Except.ok.inj h
    rfl
  | throwRef =>
    obtain rfl := Except.ok.inj h
    rfl
  | returnCall c =>
    obtain rfl := Except.ok.inj h
    exact (pop_streams t _).bigMemargs

theorem brIf_bigMemargs (h : t.brIf l = .ok u) : u.bigMemargs = t.bigMemargs := by
  unfold brIf at h
  obtain ⟨⟨target, frame⟩, -, h⟩ := bind_ok h
  dsimp only at h
  split at h
  · obtain rfl := Except.ok.inj h
    exact (registerBranch_bigMemargs _ frame _ _).trans (pop_streams t 1).bigMemargs
  · obtain rfl := Except.ok.inj h
    exact (registerBranch_bigMemargs _ frame _ _).trans (pop_streams t 1).bigMemargs

theorem visitCond_bigMemargs {c : CondBr} (h : t.visitCond c = .ok u) :
    u.bigMemargs = t.bigMemargs := by
  cases c with
  | brIf l => exact brIf_bigMemargs h
  | brOnNull l =>
    have h : t.brOnNull l = .ok u := h
    unfold brOnNull at h
    obtain ⟨⟨target, frame⟩, -, h⟩ := bind_ok h
    obtain rfl := Except.ok.inj h
    refine (push_streams _ 1).bigMemargs.trans ?_
    exact (registerBranch_bigMemargs _ frame _ _).trans (pop_streams t 1).bigMemargs
  | brOnNonNull l =>
    have h : t.brOnNonNull l = .ok u := h
    unfold brOnNonNull at h
    obtain ⟨⟨target, frame⟩, -, h⟩ := bind_ok h
    obtain rfl := Except.ok.inj h
    exact (pop_streams _ 1).bigMemargs.trans (registerBranch_bigMemargs _ frame _ _)
  | brOnCast l ty nullable fail =>
    have h : t.brOnCast l ty nullable fail = .ok u := h
    unfold brOnCast at h
    obtain ⟨⟨target, frame⟩, -, h⟩ := bind_ok h
    obtain rfl := Except.ok.inj h
    exact registerBranch_bigMemargs _ frame _ _

theorem landingPads_streams {base : ℕ} {clauses : List HandlerClause} {recs : List HandlerRec}
    (h : landingPads ctx base clauses t = .ok (recs, u)) :
    u.brTables = t.brTables ∧ u.bigMemargs = t.bigMemargs ∧ u.handlers = t.handlers := by
  induction clauses generalizing t recs with
  | nil =>
    cases h
    exact ⟨rfl, rfl, rfl⟩
  | cons c clauses ih =>
    unfold landingPads at h
    obtain ⟨⟨target, frame⟩, -, h⟩ := bind_ok h
    obtain ⟨⟨recs', v⟩, hrest, h⟩ := bind_ok h
    cases h
    obtain ⟨hpool, hbig, hhandlers⟩ := ih hrest
    rw [hpool, hbig, hhandlers]
    cases frame <;> exact ⟨rfl, rfl, rfl⟩

theorem Patched.gains (h : Patched t u) : Gains t u 0 :=
  ⟨h.pool.le, (congrArg List.length h.bigMemargs).le, (congrArg List.length h.handlers).le⟩

theorem Opens.gains (h : Opens t u f) : Gains t u 0 :=
  ⟨(congrArg List.length h.brTables).le, (congrArg List.length h.bigMemargs).le,
    (congrArg List.length h.handlers).le⟩

theorem Gains.mono {c : ℕ} (h : Gains t u b) (hbc : b ≤ c) : Gains t u c :=
  ⟨h.brTables.trans (Nat.add_le_add_left hbc _), h.bigMemargs.trans (Nat.add_le_add_left hbc _),
    h.handlers.trans (Nat.add_le_add_left hbc _)⟩

theorem Gains.trans {v : Translator} (h : Gains t u 0) (h' : Gains u v b) : Gains t v b :=
  ⟨h'.brTables.trans (Nat.add_le_add_right h.brTables b),
    h'.bigMemargs.trans (Nat.add_le_add_right h.bigMemargs b),
    h'.handlers.trans (Nat.add_le_add_right h.handlers b)⟩

theorem doElse_gains (h : t.doElse = .ok u) : Gains t u 0 := by
  unfold doElse at h
  rcases hc : t.ctrl with _ | ⟨f, d⟩
  · rw [hc] at h
    cases h
  · rw [hc] at h
    obtain ⟨v, hb, h⟩ := bind_ok h
    obtain rfl := Except.ok.inj h
    have hv : Gains t v 0 := by
      unfold elseBranch at hb
      split at hb
      · obtain ⟨⟨keep, pop⟩, -, hb⟩ := bind_ok hb
        obtain rfl := Except.ok.inj hb
        exact ⟨le_refl _, le_refl _, le_refl _⟩
      · obtain rfl := Except.ok.inj hb
        exact ⟨le_refl _, le_refl _, le_refl _⟩
    obtain ⟨h1, h2, h3⟩ := hv.trans (patchElse_patched v f.elsePatch v.nextIp).gains
    exact ⟨h1, h2, h3⟩

theorem doEnd_gains (h : t.doEnd ctx = .ok u) : Gains t u 1 := by
  unfold doEnd at h
  rcases hc : t.ctrl with _ | ⟨f, d⟩
  · rw [hc] at h
    cases h
  · rw [hc] at h
    dsimp only at h
    set t' : Translator := { t with fusableCmp := none, ctrl := d } with ht'
    by_cases hk : f.kind = .tryTable ∧ f.reachableOnEntry = true
    · rw [if_pos hk] at h
      unfold endTryTable at h
      obtain ⟨⟨keep, pop⟩, -, h⟩ := bind_ok h
      obtain ⟨⟨recs, w⟩, hpads, h⟩ := bind_ok h
      obtain rfl := Except.ok.inj h
      obtain ⟨hpool, hbig, hhandlers⟩ := landingPads_streams hpads
      have hw : Gains t w 0 := ⟨(congrArg List.length hpool).le, (congrArg List.length hbig).le,
        (congrArg List.length hhandlers).le⟩
      obtain ⟨h1, h2, h3⟩ := hw.trans
        (patchAll_patched (⟨t'.nextIp, .single⟩ :: f.endPatches) w w.nextIp).gains
      refine ⟨h1.trans (Nat.le_succ _), h2.trans (Nat.le_succ _), ?_⟩
      exact List.length_append.le.trans (Nat.succ_le_succ h3)
    · rw [if_neg hk] at h
      obtain rfl := Except.ok.inj h
      obtain ⟨h1, h2, h3⟩ := ((patchElse_patched t' f.elsePatch t'.nextIp).trans
        (patchAll_patched f.endPatches _ t'.nextIp)).gains.mono (Nat.zero_le 1)
      exact ⟨h1, h2, h3⟩

/-- The other streams grow by no more than the bytes of the operator. -/
theorem visit_gains {past : List Place} (h : Booked t past) {op : Operator}
    (hv : t.visit ctx op = .ok u) : Gains t u op.bytes := by
  have skip : ∀ {x : Except CompileError Translator} {b : ℕ},
      (t.reachable = true → x = .ok u → Gains t u b) →
      (if t.reachable then x else .ok t) = .ok u → Gains t u b := by
    intro x b hx hif
    by_cases hr : t.reachable = true
    · rw [if_pos hr] at hif
      exact hx hr hif
    · rw [if_neg hr] at hif
      obtain rfl := Except.ok.inj hif
      exact ⟨Nat.le_add_right _ b, Nat.le_add_right _ b, Nat.le_add_right _ b⟩
  have hblock : ∀ (bt : BlockType) (kind : BlockKind) (clauses : List HandlerClause) (b : ℕ),
      Gains t (t.pushBlock ctx bt kind clauses) b := fun bt kind clauses b =>
    (opens_frame t kind (blockArity ctx bt).1 (blockArity ctx bt).2 none clauses).gains.mono
      (Nat.zero_le b)
  cases op with
  | plain p =>
    refine skip (fun hr hx => ?_) hv
    refine (visitPlain_adds hr hx).gains (Nat.zero_le _) ?_
    rw [(visitPlain_emits hr hx).2.1]
    exact lowerPlain_length t.bigMemargs p
  | block bt =>
    obtain rfl := Except.ok.inj hv
    exact hblock bt .block [] _
  | loop bt =>
    obtain rfl := Except.ok.inj hv
    exact hblock bt .loop [] _
  | tryTable bt catches =>
    obtain rfl := Except.ok.inj hv
    exact hblock bt .tryTable (catches.map convCatch) _
  | if_ bt =>
    obtain rfl := Except.ok.inj hv
    have ho := opens_frame t.ifBranch.2 .if_ (blockArity ctx bt).1 (blockArity ctx bt).2
      t.ifBranch.1 []
    obtain ⟨-, hpool, hbig, hhandlers⟩ := ifBranch_streams t
    have hb : Gains t t.ifBranch.2 0 := ⟨(congrArg List.length hpool).le,
      (congrArg List.length hbig).le, (congrArg List.length hhandlers).le⟩
    exact (hb.trans ho.gains).mono (Nat.zero_le _)
  | else_ => exact (doElse_gains hv).mono (Nat.zero_le _)
  | end_ => exact doEnd_gains hv
  | jump j =>
    refine skip (fun _ hx => ?_) hv
    exact (visitJump_adds h.noted hx).gains (Nat.le_add_left _ 1)
      ((congrArg List.length (visitJump_bigMemargs hx)).le.trans (Nat.le_add_right _ _))
  | cond c =>
    refine skip (fun hr hx => ?_) hv
    exact (visitCond_adds h.noted h.tracked hr hx).gains (Nat.le_succ 1)
      ((congrArg List.length (visitCond_bigMemargs hx)).le.trans (Nat.le_add_right _ _))
  | call c =>
    refine skip (fun hr hx => ?_) hv
    obtain rfl := Except.ok.inj hx
    refine (call_adds c hr).gains (Nat.zero_le _) ?_
    have hbig : (t.call ctx c).bigMemargs = t.bigMemargs :=
      (push_streams _ _).bigMemargs.trans (pop_streams t _).bigMemargs
    rw [hbig]
    exact Nat.le_add_right _ _

/-- What an operator appends is bounded by its bytes. -/
theorem Sized.visit {past : List Place} (h : Sized t n) (hb : Booked t past) {op : Operator}
    (hv : t.visit ctx op = .ok u) : Sized u (n + op.bytes) := by
  obtain ⟨hpool, hbig, hhandlers⟩ := visit_gains hb hv
  refine ⟨?_, hpool.trans (Nat.add_le_add_right h.brTables _),
    hbig.trans (Nat.add_le_add_right h.bigMemargs _),
    hhandlers.trans (Nat.add_le_add_right h.handlers _)⟩
  have hlength := hb.length hv
  rw [emitted_eq] at hlength
  have howed := (liveness t).owed_step op
  rw [← visit_liveness hb.tracked hv] at howed
  have hops := h.ops
  omega

end Translator

end SubmilliWasm
