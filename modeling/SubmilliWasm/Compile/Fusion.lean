/-
# The two passes compared

Every operator takes the pass with fusion and the pass without it to matching states
(`visit_twins`), so the stream of the one is the stream of the other written out
(`translateApart_eq`).  The step that needs an argument is the fused branch: it stands in place of
the comparison, and nothing has named the position behind that (`Noted`).

The source offsets recorded beside the ops are compared as well: the fused pass keeps for each op
the offset that the other records at the op's new position, and drops the branch's own.
-/
import SubmilliWasm.Compile.Apart

namespace SubmilliWasm

open Fallible

namespace Translator

/-! ## The operators of the two passes -/

/-- Both passes stop with the same error, or the one without fusion has the state of the other
written out. -/
inductive Twins : Except CompileError Translator → Except CompileError Translator → Prop where
  | ok {t u : Translator} (hn : Noted t) (h : { u with fusableCmp := none } = t.apart) :
      Twins (.ok t) (.ok u)
  | error (err : CompileError) : Twins (.error err) (.error err)

variable {u : Translator}

theorem Noted.of_streams {t : Translator} (h : Noted t) (hs : SameStreams t u) : Noted u := by
  have hsettled : u.settled = t.settled := by
    unfold settled
    rw [hs.ops, hs.fusableCmp]
  refine ⟨fun k hk => ?_, ?_⟩
  · rw [hs.ops]
    exact h.fuse k (hs.fusableCmp ▸ hk)
  · rw [hsettled]
    exact h.below.of_streams hs

theorem fusableCmpOf_eq {op : Op} {k : CmpKind} (h : fusableCmpOf op = some k) :
    op = .plain (.relop k) := by
  unfold fusableCmpOf at h
  split at h
  · rw [Option.some.inj h]
  · cases h

theorem fusableCmpOf_mapIp (f : ℕ → ℕ) (op : Op) : fusableCmpOf (op.mapIp f) = fusableCmpOf op := by
  cases op <;> rfl

theorem nextIp_le_settled_emit (t : Translator) (op : Op) : t.nextIp ≤ (t.emit op).settled := by
  show t.ops.length ≤ (t.ops ++ [op]).length - (fusableCmpOf op).toList.length
  rw [List.length_append]
  rcases fusableCmpOf op with _ | k
  · exact Nat.le_succ _
  · exact le_refl _

/-- A new comparison is the only op not settled. -/
theorem Below.noted_emit {t : Translator} (h : Below t.nextIp t) {op : Op}
    (hop : op.targetIp ≤ t.nextIp) : Noted (t.emit op) :=
  ⟨fun _ hk => ⟨t.ops, congrArg (t.ops ++ [·]) (fusableCmpOf_eq hk)⟩,
    (h.emit hop).mono (nextIp_le_settled_emit t op)⟩

/-- The op behind all others is the one the pass without fusion emits next. -/
theorem branchIp_nextIp (t : Translator) {op : Op} (hone : ∀ f, (op.mapIp f).apart = [op.mapIp f]) :
    branchIp (t.ops ++ [op]) t.nextIp = t.apart.nextIp := by
  have hlen : op.apart.length = 1 := by
    rw [← Op.apart_length_mapIp id, hone]
    rfl
  have hop : (t.ops ++ [op])[t.nextIp]? = some op := List.getElem?_concat_length
  have hnext : apartIp (t.ops ++ [op]) t.nextIp = apartIp t.ops t.nextIp :=
    apartIp_append [op] (le_refl _)
  unfold branchIp
  rw [apartIp_succ hop, hlen, hnext, apart_nextIp, Nat.add_sub_cancel]

theorem forget_of_none {t : Translator} (h : t.fusableCmp = none) :
    { t with fusableCmp := none } = t := by
  rw [← h]

section Branch

variable {t : Translator} {op : Op}

/-- A branch that is no fused one, emitted and listed. -/
theorem Below.apart_branch (h : Below t.nextIp t) (hop : op.targetIp ≤ t.nextIp)
    (hone : ∀ f, (op.mapIp f).apart = [op.mapIp f]) (hfuse : fusableCmpOf op = none)
    (frame : Option ℕ) (slot : PatchSlot) :
    ((t.emit op).registerBranch frame t.nextIp slot).apart
      = (t.apart.emit (op.mapIp (apartIp t.ops))).registerBranch frame t.apart.nextIp slot := by
  have hnone : { t.apart.emit (op.mapIp (apartIp t.ops)) with fusableCmp := none }
      = t.apart.emit (op.mapIp (apartIp t.ops)) :=
    forget_of_none ((fusableCmpOf_mapIp _ op).trans hfuse)
  rw [apart_registerBranch, h.apart_emit hop hone, hnone]
  exact congrArg (Translator.registerBranch _ frame · slot) (branchIp_nextIp t hone)

theorem Below.noted_branch (h : Below t.nextIp t) (hop : op.targetIp ≤ t.nextIp)
    (hfuse : fusableCmpOf op = none) (frame : Option ℕ) (slot : PatchSlot) :
    Noted ((t.emit op).registerBranch frame t.nextIp slot) := by
  have hlen : ((t.emit op).registerBranch frame t.nextIp slot).nextIp = t.nextIp + 1 := by
    cases frame <;> exact List.length_append
  have hnone : ((t.emit op).registerBranch frame t.nextIp slot).fusableCmp = none := by
    cases frame <;> exact hfuse
  refine Below.noted ?_ hnone
  rw [hlen]
  exact ((h.emit hop).mono (Nat.le_succ _)).registerBranch frame (Nat.lt_succ_self _) slot

end Branch

/-- Replace a comparison by the fused branch. -/
def fuse (t : Translator) (kind : CmpKind) (negate : Bool) (target : BranchTarget) : Translator :=
  { t with fusableCmp := none, ops := t.ops.set (t.nextIp - 1) (.brIfCmp kind negate target) }

section Fuse

variable {t : Translator} {kind : CmpKind} (negate : Bool) (target : BranchTarget)

theorem fuse_ops {ops : List Op} (h : t.ops = ops ++ [.plain (.relop kind)]) :
    (t.fuse kind negate target).ops = ops ++ [.brIfCmp kind negate target] := by
  show t.ops.set (t.ops.length - 1) _ = _
  rw [h, List.length_append, List.length_singleton, Nat.add_sub_cancel,
    List.set_append_right _ _ (le_refl _), Nat.sub_self]
  rfl

/-- The fused branch written out is the comparison that was there and a branch behind it: nothing
had named the position between them. -/
theorem Noted.apart_fuse (h : Noted t) (hk : t.fusableCmp = some kind)
    (htarget : target.ip ≤ t.settled) :
    (t.fuse kind negate target).apart
      = t.apart.emit (if negate then .brIfNot (target.mapIp (apartIp t.ops))
          else .brIf (target.mapIp (apartIp t.ops))) := by
  obtain ⟨ops, hops⟩ := h.fuse kind hk
  have hnew := fuse_ops negate target hops
  have hsettled : t.settled = ops.length := by
    unfold settled
    rw [hk, hops, List.length_append]
    rfl
  have hkeep : ∀ ip ≤ ops.length,
      apartIp (t.fuse kind negate target).ops ip = apartIp t.ops ip := by
    intro ip hip
    rw [hnew, hops, apartIp_append _ hip, apartIp_append _ hip]
  have hbelow : Below ops.length (t.fuse kind negate target) := by
    have hold := h.below
    rw [hsettled] at hold htarget
    refine ⟨fun op hop => ?_, hold.edges, hold.spans, hold.frames⟩
    rw [hnew] at hop
    rcases List.mem_append.mp hop with hop | hop
    · exact hold.ops op (hops ▸ List.mem_append_left _ hop)
    · rw [List.mem_singleton.mp hop]
      exact htarget
  have hpair : (Op.mapIp (apartIp t.ops) (.brIfCmp kind negate target)).apart
      = [.plain (.relop kind)] ++ [if negate then .brIfNot (target.mapIp (apartIp t.ops))
          else .brIf (target.mapIp (apartIp t.ops))] := rfl
  have hstream : writeOut (apartIp t.ops) (t.fuse kind negate target).ops
      = writeOut (apartIp t.ops) t.ops ++ [if negate then .brIfNot (target.mapIp (apartIp t.ops))
          else .brIf (target.mapIp (apartIp t.ops))] := by
    rw [hnew, writeOut_append, writeOut_singleton, hpair, ← List.append_assoc]
    congr 1
    conv => rhs; arg 2; rw [hops]
    rw [writeOut_append, writeOut_singleton]
    rfl
  have happart : (t.fuse kind negate target).apart = (t.fuse kind negate target).writtenOut t.ops :=
    hbelow.writtenOut_congr hkeep
  rw [happart]
  show ({ t.apart with
    ops := writeOut (apartIp t.ops) (t.fuse kind negate target).ops } : Translator) = _
  rw [hstream]
  cases negate <;> rfl

theorem Noted.branchIp_fuse (h : Noted t) (hk : t.fusableCmp = some kind) :
    branchIp (t.fuse kind negate target).ops (t.nextIp - 1) = t.apart.nextIp := by
  obtain ⟨ops, hops⟩ := h.fuse kind hk
  have hnew := fuse_ops negate target hops
  have hlen : t.nextIp - 1 = ops.length := by
    unfold nextIp
    rw [hops, List.length_append]
    rfl
  have hold : t.apart.nextIp = apartIp ops ops.length + 1 := by
    have hop : (ops ++ [Op.plain (.relop kind)])[ops.length]? = some (.plain (.relop kind)) :=
      List.getElem?_concat_length
    rw [apart_nextIp, nextIp, hops, List.length_append, List.length_singleton, apartIp_succ hop,
      apartIp_append _ (le_refl _)]
    rfl
  have hop : (ops ++ [Op.brIfCmp kind negate target])[ops.length]?
      = some (.brIfCmp kind negate target) := List.getElem?_concat_length
  unfold branchIp
  rw [hnew, hlen, hold, apartIp_succ hop, apartIp_append _ (le_refl _)]
  rfl

theorem Noted.below_fuse (h : Noted t) (htarget : target.ip ≤ t.nextIp) :
    Below t.nextIp (t.fuse kind negate target) := by
  have hold := h.below_next
  refine ⟨fun op hop => ?_, hold.edges, hold.spans, hold.frames⟩
  rcases List.mem_or_eq_of_mem_set hop with hop | rfl
  · exact hold.ops op hop
  · exact htarget

theorem Noted.nextIp_pos (h : Noted t) (hk : t.fusableCmp = some kind) :
    t.nextIp - 1 < t.nextIp := by
  obtain ⟨ops, hops⟩ := h.fuse kind hk
  unfold nextIp
  rw [hops, List.length_append, List.length_singleton]
  exact Nat.sub_lt (Nat.succ_pos _) Nat.one_pos

end Fuse

/-! ### Straight-line operators, calls and terminators -/

variable {t : Translator}

theorem apart_one_plain (p : PlainOp MemArg) (f : ℕ → ℕ) :
    ((Op.plain p).mapIp f).apart = [(Op.plain p).mapIp f] := rfl

theorem visitPlain_twins (ctx : CompileCtx) (p : PlainOp BigMemArg) (hn : Noted t) :
    Twins (visitPlain ctx p t) (visitPlain ctx p t.apart) := by
  unfold visitPlain
  rcases effect ctx p with err | ⟨pops, pushes⟩
  · exact .error err
  · set v : Translator := { t with bigMemargs := (lowerPlain t.bigMemargs p).2 } with hv
    set w := (v.pop pops).pushed pushes with hw
    have hs : SameStreams v w := (pop_streams v pops).trans (pushed_streams _ pushes)
    have hold : Below t.nextIp v :=
      ⟨hn.below_next.ops, hn.below_next.edges, hn.below_next.spans, hn.below_next.frames⟩
    have hnext : w.nextIp = t.nextIp := congrArg List.length hs.ops
    have hbelow : Below w.nextIp w := by
      rw [hnext]
      exact hold.of_streams hs
    have hop : (Op.plain (lowerPlain t.bigMemargs p).1).targetIp ≤ w.nextIp := Nat.zero_le _
    have happart : (v.apart.pop pops).pushed pushes = w.apart := by
      rw [hw, apart_pushed, apart_pop]
    show Twins (.ok (w.emit (.plain (lowerPlain t.bigMemargs p).1)))
      (.ok (((v.apart.pop pops).pushed pushes).emit (.plain (lowerPlain t.bigMemargs p).1)))
    refine Twins.ok (hbelow.noted_emit hop) ?_
    rw [hbelow.apart_emit hop (apart_one_plain _), happart]
    rfl

/-- An op behind all others that is no branch. -/
theorem emit_twins (op : Op) (hn : Noted t) (hop : op.targetIp = 0)
    (hone : ∀ f, (op.mapIp f).apart = [op]) (hmap : ∀ f, op.mapIp f = op) :
    Twins (.ok (t.emit op)) (.ok (t.apart.emit op)) := by
  have hle : op.targetIp ≤ t.nextIp := hop ▸ Nat.zero_le _
  have happart := hn.below_next.apart_emit hle fun f =>
    (hone f).trans (congrArg (· :: []) (hmap f).symm)
  rw [hmap] at happart
  exact Twins.ok (hn.below_next.noted_emit hle) happart.symm

theorem Noted.withReachable (hn : Noted t) (r : Bool) : Noted { t with reachable := r } :=
  ⟨hn.fuse, hn.below.ops, hn.below.edges, hn.below.spans, hn.below.frames⟩

theorem Twins.withReachable (h : Twins (.ok t) (.ok u)) (r : Bool) :
    Twins (.ok { t with reachable := r }) (.ok { u with reachable := r }) := by
  cases h with
  | ok hn h => exact .ok (hn.withReachable r) (congrArg (fun u => { u with reachable := r }) h)

theorem Noted.pop (hn : Noted t) (n : ℕ) : Noted (t.pop n) := hn.of_streams (pop_streams t n)

theorem Noted.push (hn : Noted t) (n : ℕ) : Noted (t.push n) := hn.of_streams (push_streams t n)

theorem call_twins (ctx : CompileCtx) (c : CallTarget) (hn : Noted t) :
    Twins (.ok (t.call ctx c)) (.ok (t.apart.call ctx c)) := by
  have h := emit_twins (.call c) ((hn.pop (callPops ctx c)).push (callSig ctx c).2.length) rfl
    (fun _ => rfl) fun _ => rfl
  rw [apart_push, apart_pop] at h
  exact h

theorem returnCall_twins (ctx : CompileCtx) (c : CallTarget) (hn : Noted t) :
    Twins (.ok (t.returnCall ctx c)) (.ok (t.apart.returnCall ctx c)) := by
  have h := emit_twins (.returnCall c) (hn.pop (callPops ctx c)) rfl (fun _ => rfl)
    fun _ => rfl
  rw [apart_pop] at h
  exact h.withReachable false

theorem terminate_twins {op : Op} (hn : Noted t) (hop : op.targetIp = 0)
    (hone : ∀ f, (op.mapIp f).apart = [op]) (hmap : ∀ f, op.mapIp f = op) :
    Twins (.ok (t.terminate op)) (.ok (t.apart.terminate op)) :=
  (emit_twins op hn hop hone hmap).withReachable false

/-! ### Branches -/

/-- A branch that is no fused one, behind all others. -/
theorem branch_twins {v : Translator} (hn : Noted t) (op : Op) (hop : op.targetIp ≤ t.nextIp)
    (hone : ∀ f, (op.mapIp f).apart = [op.mapIp f]) (hfuse : fusableCmpOf op = none)
    (frame : Option ℕ) (slot : PatchSlot) (hv : v = t.apart) :
    Noted ((t.emit op).registerBranch frame t.nextIp slot) ∧
      (v.emit (op.mapIp (apartIp t.ops))).registerBranch frame v.nextIp slot
        = ((t.emit op).registerBranch frame t.nextIp slot).apart := by
  rw [hv, hn.below_next.apart_branch hop hone hfuse]
  exact ⟨hn.below_next.noted_branch hop hfuse frame slot, rfl⟩

theorem Twins.of_eq (hn : Noted t) (h : u = t.apart) : Twins (.ok t) (.ok u) :=
  .ok hn ((forget_of_none (congrArg Translator.fusableCmp h)).trans h)

/-- Both passes look a label up. -/
theorem branchTarget_twins (depth : ℕ)
    {g h : BranchTarget × Option ℕ → Except CompileError Translator}
    (hn : Below t.nextIp t)
    (hk : ∀ target frame, target.ip ≤ t.nextIp → t.branchTarget depth = .ok (target, frame) →
      Twins (g (target, frame)) (h (target.mapIp (apartIp t.ops), frame))) :
    Twins (t.branchTarget depth >>= g) (t.apart.branchTarget depth >>= h) := by
  rw [apart_branchTarget]
  rcases ht : t.branchTarget depth with err | ⟨target, frame⟩
  · exact .error err
  · exact hk target frame (hn.branchTarget ht) ht

theorem br_twins (depth : ℕ) (hn : Noted t) : Twins (t.br depth) (t.apart.br depth) := by
  unfold br
  refine branchTarget_twins depth hn.below_next fun target frame htarget _ => ?_
  obtain ⟨hnoted, heq⟩ := branch_twins hn (.br target) htarget (fun _ => rfl) rfl frame
    .single rfl
  exact (Twins.of_eq hnoted heq).withReachable false

theorem brOnNull_twins (depth : ℕ) (hn : Noted t) :
    Twins (t.brOnNull depth) (t.apart.brOnNull depth) := by
  unfold brOnNull
  rw [← apart_pop]
  have hn' := hn.pop 1
  refine branchTarget_twins depth hn'.below_next fun target frame htarget _ => ?_
  obtain ⟨hnoted, heq⟩ := branch_twins hn' (.brOnNull target) htarget (fun _ => rfl) rfl frame
    .single rfl
  refine Twins.of_eq (hnoted.push 1) ?_
  rw [apart_push]
  exact congrArg (·.push 1) heq

theorem brOnNonNull_twins (depth : ℕ) (hn : Noted t) :
    Twins (t.brOnNonNull depth) (t.apart.brOnNonNull depth) := by
  unfold brOnNonNull
  refine branchTarget_twins depth hn.below_next fun target frame htarget _ => ?_
  obtain ⟨hnoted, heq⟩ := branch_twins hn (.brOnNonNull target) htarget (fun _ => rfl) rfl
    frame .single rfl
  refine Twins.of_eq (hnoted.pop 1) ?_
  rw [apart_pop]
  exact congrArg (·.pop 1) heq

/-- A comparison in front of a `br_if` becomes the fused branch in the one pass, and stays with the
branch behind it in the other. -/
theorem brIf_twins (depth : ℕ) (hn : Noted t) : Twins (t.brIf depth) (t.apart.brIf depth) := by
  unfold brIf
  rw [← apart_pop]
  have hn' := hn.pop 1
  refine branchTarget_twins depth hn'.below_next fun target frame htarget ht => ?_
  have hnone : (t.pop 1).apart.fusableCmp = none := rfl
  dsimp only
  rw [hnone]
  rcases hk : (t.pop 1).fusableCmp with _ | kind
  · obtain ⟨hnoted, heq⟩ := branch_twins hn' (.brIf target) htarget (fun _ => rfl) rfl frame
      .single rfl
    exact Twins.of_eq hnoted heq
  · have hsettled := hn'.below.branchTarget ht
    have happart := hn'.apart_fuse false target hk hsettled
    have hpos := hn'.nextIp_pos hk
    have hnoted : Noted (((t.pop 1).fuse kind false target).registerBranch frame
        ((t.pop 1).nextIp - 1) .single) := by
      refine Below.noted ?_ ?_
      · have hlen : (((t.pop 1).fuse kind false target).registerBranch frame
            ((t.pop 1).nextIp - 1) .single).nextIp = (t.pop 1).nextIp := by
          cases frame <;> exact List.length_set
        rw [hlen]
        exact (hn'.below_fuse false target htarget).registerBranch frame hpos .single
      · cases frame <;> rfl
    have heq : (((t.pop 1).fuse kind false target).registerBranch frame
        ((t.pop 1).nextIp - 1) .single).apart
          = ((t.pop 1).apart.emit (.brIf (target.mapIp (apartIp (t.pop 1).ops)))).registerBranch
            frame (t.pop 1).apart.nextIp .single := by
      rw [apart_registerBranch, hn'.branchIp_fuse false target hk, happart]
      rfl
    exact Twins.of_eq hnoted heq.symm

/-! ### Pooled edges -/

theorem apart_pushEdge (t : Translator) (e : BranchTarget) :
    (t.pushEdge e).apart = t.apart.pushEdge (e.mapIp (apartIp t.ops)) :=
  congrArg (fun es => { t.apart with brTables := es }) List.map_append

theorem Below.pushEdge {n : ℕ} (h : Below n t) {e : BranchTarget} (he : e.ip ≤ n) :
    Below n (t.pushEdge e) := by
  refine ⟨h.ops, fun e' he' => ?_, h.spans, h.frames⟩
  rcases List.mem_append.mp he' with he' | he'
  · exact h.edges e' he'
  · rw [List.mem_singleton.mp he']
    exact he

theorem Noted.pushEdge (hn : Noted t) {e : BranchTarget} (he : e.ip ≤ t.settled) :
    Noted (t.pushEdge e) := ⟨hn.fuse, hn.below.pushEdge he⟩

theorem brOnCast_twins (depth : ℕ) (ty : IrHeap) (nullable fail : Bool) (hn : Noted t) :
    Twins (t.brOnCast depth ty nullable fail) (t.apart.brOnCast depth ty nullable fail) := by
  unfold brOnCast
  refine branchTarget_twins depth hn.below_next fun target frame _ ht => ?_
  have hn' := hn.pushEdge (hn.below.branchTarget ht)
  have hpool : t.apart.brTables.length = t.brTables.length := List.length_map _
  obtain ⟨hnoted, heq⟩ := branch_twins hn' (.brOnCast ty t.brTables.length nullable fail)
    (Nat.zero_le _) (fun _ => rfl) rfl frame .single (apart_pushEdge t target).symm
  dsimp only
  rw [hpool]
  exact Twins.of_eq hnoted heq

/-- Both passes pool the same cases, the one without fusion at the new positions. -/
theorem brTableCases_twins (k : ℕ) (cases : List ℕ) (hn : Noted t) :
    (∃ err, brTableCases k cases t = .error err ∧ brTableCases k cases t.apart = .error err) ∨
      ∃ patches u, brTableCases k cases t = .ok (patches, u) ∧
        brTableCases k cases t.apart = .ok (patches, u.apart) ∧ Noted u := by
  induction cases generalizing k t with
  | nil => exact .inr ⟨[], t, rfl, rfl, hn⟩
  | cons depth cases ih =>
    unfold brTableCases
    rw [apart_branchTarget]
    rcases ht : t.branchTarget depth with err | ⟨target, frame⟩
    · exact .inl ⟨err, rfl, rfl⟩
    · have hn' := hn.pushEdge (hn.below.branchTarget ht)
      have hpush := apart_pushEdge t target
      rcases ih (k + 1) hn' with ⟨err, h, h'⟩ | ⟨patches, u, h, h', hu⟩
      · rw [hpush] at h'
        refine .inl ⟨err, ?_, ?_⟩
        · show (brTableCases (k + 1) cases (t.pushEdge target) >>= _) = _
          rw [h]
          rfl
        · show (brTableCases (k + 1) cases (t.apart.pushEdge _) >>= _) = _
          rw [h']
          rfl
      · rw [hpush] at h'
        clear ht
        refine .inr ⟨frame.elim patches fun i => (i, .tableCase k) :: patches, u, ?_, ?_, hu⟩
        · show (brTableCases (k + 1) cases (t.pushEdge target) >>= _) = _
          rw [h]
          cases frame <;> rfl
        · show (brTableCases (k + 1) cases (t.apart.pushEdge _) >>= _) = _
          rw [h']
          cases frame <;> rfl

theorem Below.registerAll {n op : ℕ} (h : Below n t) (hop : op < n)
    (patches : List (ℕ × PatchSlot)) :
    Below n (patches.foldl (fun t p => t.registerBranch (some p.1) op p.2) t) := by
  induction patches generalizing t with
  | nil => exact h
  | cons p patches ih => exact ih (h.registerBranch (some p.1) hop p.2)

theorem apart_registerAll (t : Translator) (op : ℕ) (patches : List (ℕ × PatchSlot)) :
    (patches.foldl (fun t p => t.registerBranch (some p.1) op p.2) t).apart
      = patches.foldl (fun u p => u.registerBranch (some p.1) (branchIp t.ops op) p.2) t.apart := by
  induction patches generalizing t with
  | nil => rfl
  | cons p patches ih =>
    show ((patches.foldl _ (t.registerBranch (some p.1) op p.2))).apart = _
    rw [ih, apart_registerBranch]
    rfl

/-- A `br_table` behind its pooled edges, with its patches recorded. -/
theorem emitTable_twins {v : Translator} (hv : Noted v) (base count : ℕ)
    (ps : List (ℕ × PatchSlot)) :
    Twins
      (.ok { ps.foldl (fun t p => t.registerBranch (some p.1) v.nextIp p.2)
        (v.emit (.brTable base count)) with reachable := false })
      (.ok { ps.foldl (fun t p => t.registerBranch (some p.1) v.apart.nextIp p.2)
        (v.apart.emit (.brTable base count)) with reachable := false }) := by
  set op := Op.brTable base count with hopdef
  have hop : op.targetIp ≤ v.nextIp := Nat.zero_le _
  have hone : ∀ f, (op.mapIp f).apart = [op.mapIp f] := fun _ => rfl
  have hlen : (ps.foldl (fun t p => t.registerBranch (some p.1) v.nextIp p.2) (v.emit op)).nextIp
      = v.nextIp + 1 := by
    rw [foldl_register]
    exact List.length_append
  have hnoted :
      Noted (ps.foldl (fun t p => t.registerBranch (some p.1) v.nextIp p.2) (v.emit op)) := by
    refine Below.noted ?_ ?_
    · rw [hlen]
      exact ((hv.below_next.emit hop).mono (Nat.le_succ _)).registerAll (Nat.lt_succ_self _) ps
    · rw [foldl_register]
      rfl
  have hemit : (v.emit op).apart = v.apart.emit op :=
    (hv.below_next.apart_emit hop hone).trans (forget_of_none rfl)
  have heq : (ps.foldl (fun t p => t.registerBranch (some p.1) v.nextIp p.2) (v.emit op)).apart
      = ps.foldl (fun t p => t.registerBranch (some p.1) v.apart.nextIp p.2)
        (v.apart.emit op) := by
    rw [apart_registerAll, hemit]
    have hnext : branchIp (v.emit op).ops v.nextIp = v.apart.nextIp := branchIp_nextIp v hone
    rw [hnext]
  exact (Twins.of_eq hnoted heq.symm).withReachable false

theorem brTable_twins (cases : List ℕ) (default : ℕ) (hn : Noted t) :
    Twins (t.brTable cases default) (t.apart.brTable cases default) := by
  unfold brTable
  rw [← apart_pop]
  have hn' := hn.pop 1
  have hbase : (t.pop 1).apart.brTables.length = (t.pop 1).brTables.length := List.length_map _
  dsimp only
  rw [hbase]
  rcases brTableCases_twins 0 cases hn' with ⟨err, h, h'⟩ | ⟨patches, u, h, h', hu⟩
  · rw [h, h']
    exact .error err
  · rw [h, h']
    refine branchTarget_twins default hu.below_next fun target frame _ ht => ?_
    have hpush : (u.pushEdge target).apart = u.apart.pushEdge (target.mapIp (apartIp u.ops)) :=
      apart_pushEdge u target
    dsimp only
    rw [← hpush]
    exact emitTable_twins (hu.pushEdge (hu.below.branchTarget ht)) _ _ _

theorem ret_twins (hn : Noted t) : Twins t.ret t.apart.ret := by
  have hlast : t.apart.ctrl.getLast?
      = t.ctrl.getLast?.map (CtrlFrame.mapIp (apartIp t.ops) (branchIp t.ops)) := List.getLast?_map
  unfold ret
  rw [hlast]
  rcases t.ctrl.getLast? with _ | f
  · exact .error _
  · show Twins (if f.resultCount ≤ t.height then _ else _)
      (if f.resultCount ≤ t.height then _ else _)
    split
    · show Twins (fixup f.resultCount (t.height - f.resultCount) >>= _)
        (fixup f.resultCount (t.height - f.resultCount) >>= _)
      rcases fixup f.resultCount (t.height - f.resultCount) with err | ⟨keep, pop⟩
      · exact .error err
      · obtain ⟨hnoted, heq⟩ := branch_twins hn (.br ⟨0, keep, pop⟩) (Nat.zero_le _)
          (fun _ => rfl) rfl (some (t.ctrl.length - 1)) .single rfl
        have hzero : Op.mapIp (apartIp t.ops) (.br ⟨0, keep, pop⟩) = .br ⟨0, keep, pop⟩ := by
          show Op.br ⟨apartIp t.ops 0, keep, pop⟩ = _
          rw [apartIp_zero]
        have hlen : t.apart.ctrl.length = t.ctrl.length := List.length_map _
        rw [hzero] at heq
        have h := (Twins.of_eq hnoted heq).withReachable false
        show Twins (.ok _) (.ok { Translator.registerBranch _ (some (t.apart.ctrl.length - 1)) _ _
          with reachable := false })
        rw [hlen]
        exact h
    · exact .error _

/-! ### Structured control -/

/-- Open a frame behind all ops. -/
def openFrame (t : Translator) (kind : BlockKind) (ps rs : ℕ) (elsePatch : Option ℕ)
    (clauses : List HandlerClause) : Translator :=
  { (t.heightBelow ps).2 with
    ctrl := ⟨kind, (t.heightBelow ps).1, ps, rs, (t.heightBelow ps).2.nextIp, [], elsePatch,
      (t.heightBelow ps).2.reachable, false, clauses⟩ :: (t.heightBelow ps).2.ctrl }

theorem openFrame_twins (hn : Below t.nextIp t) (hfuse : t.fusableCmp = none) (kind : BlockKind)
    (ps rs : ℕ) (elsePatch : Option ℕ) (helse : ∀ i, elsePatch = some i → i < t.nextIp)
    (clauses : List HandlerClause) :
    Twins (.ok (t.openFrame kind ps rs elsePatch clauses))
      (.ok (t.apart.openFrame kind ps rs (elsePatch.map (branchIp t.ops)) clauses)) := by
  obtain ⟨hs, -, -⟩ := heightBelow_streams t ps
  have hnext : (t.heightBelow ps).2.nextIp = t.nextIp := congrArg List.length hs.ops
  have hops : (t.heightBelow ps).2.ops = t.ops := hs.ops
  have hbelow : Below t.nextIp (t.openFrame kind ps rs elsePatch clauses) := by
    have hold := hn.of_streams hs
    refine ⟨hold.ops, hold.edges, hold.spans, fun f hf => ?_⟩
    rcases List.mem_cons.mp hf with rfl | hf
    · exact ⟨le_of_eq hnext, fun p hp => absurd hp List.not_mem_nil, helse⟩
    · exact hold.frames f hf
  have hlen : (t.openFrame kind ps rs elsePatch clauses).nextIp = t.nextIp := hnext
  refine Twins.of_eq (Below.noted (hlen ▸ hbelow) (hs.fusableCmp.trans hfuse)) ?_
  unfold openFrame
  rw [apart_heightBelow]
  dsimp only
  rw [apart_nextIp, ← hops]
  rfl

theorem pushBlock_twins (ctx : CompileCtx) (bt : BlockType) (kind : BlockKind)
    (clauses : List HandlerClause) (hn : Noted t) :
    Twins (.ok (t.pushBlock ctx bt kind clauses))
      (.ok (t.apart.pushBlock ctx bt kind clauses)) := by
  have hold := hn.below_next
  exact openFrame_twins (t := { t with fusableCmp := none })
    ⟨hold.ops, hold.edges, hold.spans, hold.frames⟩ rfl kind (blockArity ctx bt).1
    (blockArity ctx bt).2 none (fun _ h => nomatch h) clauses

/-- The branch over the `then` part, in both passes. -/
theorem ifBranch_twins (hn : Noted t) :
    Below t.ifBranch.2.nextIp t.ifBranch.2 ∧
      (∀ i, t.ifBranch.1 = some i → i < t.ifBranch.2.nextIp) ∧
      t.apart.ifBranch.1 = t.ifBranch.1.map (branchIp t.ifBranch.2.ops) ∧
      { t.apart.ifBranch.2 with fusableCmp := none } = t.ifBranch.2.apart := by
  have hnone : (t.apart.pop 1).fusableCmp = none := (pop_streams t.apart 1).fusableCmp
  unfold ifBranch
  rw [show t.apart.reachable = t.reachable from rfl]
  split
  · have hn' := hn.pop 1
    have hzero : ∀ f : ℕ → ℕ, f 0 = 0 → (⟨0, 0, 0⟩ : BranchTarget).mapIp f = ⟨0, 0, 0⟩ :=
      fun f hf => congrArg (BranchTarget.mk · 0 0) hf
    dsimp only
    rw [hnone]
    rcases hk : (t.pop 1).fusableCmp with _ | kind
    · have hop : (Op.brIfNot ⟨0, 0, 0⟩).targetIp ≤ (t.pop 1).nextIp := Nat.zero_le _
      have hone : ∀ f, ((Op.brIfNot ⟨0, 0, 0⟩).mapIp f).apart = [(Op.brIfNot ⟨0, 0, 0⟩).mapIp f] :=
        fun _ => rfl
      have hlen : ((t.pop 1).emit (.brIfNot ⟨0, 0, 0⟩)).nextIp = (t.pop 1).nextIp + 1 :=
        List.length_append
      have hemit := hn'.below_next.apart_emit hop hone
      have hpatch := branchIp_nextIp (t.pop 1) hone
      rw [show Op.mapIp (apartIp (t.pop 1).ops) (.brIfNot ⟨0, 0, 0⟩) = .brIfNot ⟨0, 0, 0⟩ from
        congrArg Op.brIfNot (hzero _ (apartIp_zero _)), apart_pop] at hemit
      rw [apart_pop] at hpatch
      refine ⟨?_, fun i hi => ?_, ?_, hemit.symm⟩
      · rw [hlen]
        exact (hn'.below_next.emit hop).mono (Nat.le_succ _)
      · rw [hlen, ← Option.some.inj hi]
        exact Nat.lt_succ_self _
      · exact congrArg some hpatch.symm
    · have hpos := hn'.nextIp_pos hk
      have hfuse := hn'.apart_fuse true ⟨0, 0, 0⟩ hk (Nat.zero_le _)
      have hpatch := hn'.branchIp_fuse true ⟨0, 0, 0⟩ hk
      have hlen : ((t.pop 1).fuse kind true ⟨0, 0, 0⟩).nextIp = (t.pop 1).nextIp := List.length_set
      have hbelow : Below (t.pop 1).nextIp ((t.pop 1).fuse kind true ⟨0, 0, 0⟩) :=
        hn'.below_fuse true ⟨0, 0, 0⟩ (Nat.zero_le _)
      rw [hzero _ (apartIp_zero _), apart_pop] at hfuse
      rw [apart_pop] at hpatch
      refine ⟨?_, fun i hi => ?_, ?_, ?_⟩
      · rw [← hlen] at hbelow
        exact ⟨hbelow.ops, hbelow.edges, hbelow.spans, hbelow.frames⟩
      · rw [← Option.some.inj hi]
        exact hpos.trans_eq hlen.symm
      · exact congrArg some hpatch.symm
      · exact hfuse.symm
  · refine ⟨hn.below_next, fun i hi => ?_, rfl, rfl⟩
    cases hi

theorem pushIf_twins (ctx : CompileCtx) (bt : BlockType) (hn : Noted t) :
    Twins (.ok (t.pushIf ctx bt)) (.ok (t.apart.pushIf ctx bt)) := by
  obtain ⟨hbelow, helse, hpatch, heq⟩ := ifBranch_twins hn
  have h := openFrame_twins (t := { t.ifBranch.2 with fusableCmp := none })
    ⟨hbelow.ops, hbelow.edges, hbelow.spans, hbelow.frames⟩ rfl .if_ (blockArity ctx bt).1
    (blockArity ctx bt).2 t.ifBranch.1 helse []
  have hright : t.apart.pushIf ctx bt = openFrame { t.apart.ifBranch.2 with fusableCmp := none }
      .if_ (blockArity ctx bt).1 (blockArity ctx bt).2 t.apart.ifBranch.1 [] := rfl
  rw [hright, hpatch, heq]
  exact h

/-! ### The ends of frames -/

/-- Ops appended behind a position do not move it. -/
theorem apartIp_initial {ops ops' : List Op} (h : ops <+: ops') {ip : ℕ} (hip : ip ≤ ops.length) :
    apartIp ops' ip = apartIp ops ip := by
  obtain ⟨rest, rfl⟩ := h
  exact apartIp_append rest hip

theorem branchIp_initial {ops ops' : List Op} (h : ops <+: ops') {i : ℕ} (hi : i < ops.length) :
    branchIp ops' i = branchIp ops i := congrArg (· - 1) (apartIp_initial h hi)

theorem apart_patchElse (t : Translator) (elsePatch : Option ℕ) (ip : ℕ) :
    (t.patchElse elsePatch ip).apart
      = t.apart.patchElse (elsePatch.map (branchIp t.ops)) (apartIp t.ops ip) := by
  cases elsePatch with
  | none => rfl
  | some i => exact apart_patchIp t i .single ip

theorem apartIp_patchElse (t : Translator) (elsePatch : Option ℕ) (ip : ℕ) :
    apartIp (t.patchElse elsePatch ip).ops = apartIp t.ops := by
  cases elsePatch with
  | none => rfl
  | some i => exact apartIp_patchIp t i .single ip

theorem Below.patchElse {n : ℕ} (h : Below n t) (elsePatch : Option ℕ) {ip : ℕ} (hip : ip ≤ n) :
    Below n (t.patchElse elsePatch ip) := by
  cases elsePatch with
  | none => exact h
  | some i => exact h.patchIp i .single hip

theorem nextIp_patchIp (t : Translator) (op : ℕ) (slot : PatchSlot) (ip : ℕ) :
    (t.patchIp op slot ip).nextIp = t.nextIp := by
  unfold patchIp
  split
  · rfl
  · split
    · rfl
    · exact List.length_modify _ _ _

theorem nextIp_patchElse (t : Translator) (elsePatch : Option ℕ) (ip : ℕ) :
    (t.patchElse elsePatch ip).nextIp = t.nextIp := by
  cases elsePatch with
  | none => rfl
  | some i => exact nextIp_patchIp t i .single ip

theorem nextIp_patchAll (t : Translator) (patches : List Patch) (ip : ℕ) :
    (t.patchAll patches ip).nextIp = t.nextIp := by
  induction patches generalizing t with
  | nil => rfl
  | cons p patches ih => exact (ih _).trans (nextIp_patchIp t p.op p.slot ip)

/-- Both passes go on alike, with the ops of before still in place. -/
structure Goes (t u : Translator) (x y : Except CompileError Translator) : Prop where
  left : x = .ok u
  right : y = .ok u.apart
  noted : Noted u
  ops : t.ops <+: u.ops
  fusableCmp : u.fusableCmp = none

/-- The forward branch to the end of the innermost frame. -/
theorem elseBranch_twins (resultCount : ℕ) (hn : Below t.nextIp t) (hfuse : t.fusableCmp = none) :
    (∃ err, t.elseBranch resultCount = .error err ∧ t.apart.elseBranch resultCount = .error err) ∨
      ∃ u, Goes t u (t.elseBranch resultCount) (t.apart.elseBranch resultCount) := by
  unfold elseBranch
  rw [show t.apart.reachable = t.reachable from rfl]
  split
  · rcases fixup resultCount 0 with err | ⟨keep, pop⟩
    · exact .inl ⟨err, rfl, rfl⟩
    · have hop : (Op.br ⟨0, keep, 0⟩).targetIp ≤ t.nextIp := Nat.zero_le _
      have hzero : Op.mapIp (apartIp t.ops) (.br ⟨0, keep, 0⟩) = .br ⟨0, keep, 0⟩ := by
        show Op.br ⟨apartIp t.ops 0, keep, 0⟩ = _
        rw [apartIp_zero]
      have heq := hn.apart_branch hop (fun _ => rfl) rfl (some 0) .single
      rw [hzero] at heq
      exact .inr ⟨_, rfl, congrArg Except.ok heq.symm, hn.noted_branch hop rfl (some 0) .single,
        List.prefix_append _ _, rfl⟩
  · exact .inr ⟨t, rfl, rfl, hn.noted hfuse, List.prefix_refl _, hfuse⟩

theorem fusableCmp_patchIp (t : Translator) (op : ℕ) (slot : PatchSlot) (ip : ℕ) :
    (t.patchIp op slot ip).fusableCmp = t.fusableCmp := by
  unfold patchIp
  split
  · rfl
  · split <;> rfl

theorem fusableCmp_patchElse (t : Translator) (elsePatch : Option ℕ) (ip : ℕ) :
    (t.patchElse elsePatch ip).fusableCmp = t.fusableCmp := by
  cases elsePatch with
  | none => rfl
  | some i => exact fusableCmp_patchIp t i .single ip

theorem fusableCmp_patchAll (t : Translator) (patches : List Patch) (ip : ℕ) :
    (t.patchAll patches ip).fusableCmp = t.fusableCmp := by
  induction patches generalizing t with
  | nil => rfl
  | cons p patches ih => exact (ih _).trans (fusableCmp_patchIp t p.op p.slot ip)

/-- The `else` is reached over the branch of the `if`, and closes it. -/
def reopen (t : Translator) (f : CtrlFrame) : Translator :=
  { t with
    ctrl := t.ctrl.modify 0 fun f => { f with elsePatch := none }
    reachable := f.reachableOnEntry
    height := f.baseHeight + f.paramCount }

theorem apart_reopen (t : Translator) (f : CtrlFrame) (g b : ℕ → ℕ) :
    (t.reopen f).apart = t.apart.reopen (f.mapIp g b) := by
  have hctrl : (t.ctrl.modify 0 fun f => { f with elsePatch := none }).map
        (CtrlFrame.mapIp (apartIp t.ops) (branchIp t.ops))
      = (t.ctrl.map (CtrlFrame.mapIp (apartIp t.ops) (branchIp t.ops))).modify 0
        fun f => { f with elsePatch := none } := by
    refine map_modify_comm (fun _ => ?_) _ _
    rfl
  show ({ t.apart with
    ctrl := (t.ctrl.modify 0 fun f => { f with elsePatch := none }).map
      (CtrlFrame.mapIp (apartIp t.ops) (branchIp t.ops))
    reachable := f.reachableOnEntry
    height := f.baseHeight + f.paramCount } : Translator) = _
  rw [hctrl]
  rfl

theorem Below.reopen {n : ℕ} (h : Below n t) (f : CtrlFrame) : Below n (t.reopen f) := by
  refine ⟨h.ops, h.edges, h.spans, fun f' hf' => ?_⟩
  rcases Slots.of_mem_modify hf' with hold | ⟨f₀, hold, rfl⟩
  · exact h.frames f' hold
  · obtain ⟨hstart, hpatches, -⟩ := h.frames f₀ hold
    exact ⟨hstart, hpatches, fun _ he => nomatch he⟩

theorem doElse_cons {f : CtrlFrame} {ctrl : List CtrlFrame} (h : t.ctrl = f :: ctrl) :
    t.doElse = ({ t with fusableCmp := none }.elseBranch f.resultCount >>= fun u =>
      .ok ((u.patchElse f.elsePatch u.nextIp).reopen f)) := by
  unfold doElse
  split
  · rename_i hnil
    rw [hnil] at h
    cases h
  · rename_i f' ctrl' hcons
    rw [hcons] at h
    cases h
    rfl

theorem doElse_twins (hn : Noted t) : Twins t.doElse t.apart.doElse := by
  rcases hctrl : t.ctrl with _ | ⟨f, ctrl⟩
  · have hctrl' : t.apart.ctrl = [] := congrArg (List.map _) hctrl
    unfold doElse
    rw [hctrl, hctrl']
    exact .error _
  · have hctrl' : t.apart.ctrl = f.mapIp (apartIp t.ops) (branchIp t.ops) :: _ :=
      congrArg (List.map _) hctrl
    rw [doElse_cons hctrl, doElse_cons hctrl']
    obtain ⟨-, -, helse⟩ := hn.below_next.frames f (hctrl ▸ List.mem_cons_self)
    set v : Translator := { t with fusableCmp := none } with hv
    have hbelow : Below v.nextIp v :=
      ⟨hn.below_next.ops, hn.below_next.edges, hn.below_next.spans, hn.below_next.frames⟩
    show Twins (v.elseBranch f.resultCount >>= _) (v.apart.elseBranch f.resultCount >>= _)
    rcases elseBranch_twins f.resultCount hbelow rfl with ⟨err, h, h'⟩ | ⟨u, hu⟩
    · rw [h, h']
      exact .error err
    · rw [hu.left, hu.right]
      have hops : t.ops <+: u.ops := hu.ops
      have hpatch : f.elsePatch.map (branchIp u.ops) = f.elsePatch.map (branchIp t.ops) := by
        rcases he : f.elsePatch with _ | i
        · rfl
        · exact congrArg some (branchIp_initial hops (helse i he))
      have happart : (u.patchElse f.elsePatch u.nextIp).apart
          = u.apart.patchElse (f.elsePatch.map (branchIp t.ops)) u.apart.nextIp := by
        rw [apart_patchElse, hpatch, apart_nextIp]
      have hnext := nextIp_patchElse u f.elsePatch u.nextIp
      have hw : Below (u.patchElse f.elsePatch u.nextIp).nextIp
          (u.patchElse f.elsePatch u.nextIp) := by
        rw [hnext]
        exact hu.noted.below_next.patchElse f.elsePatch (le_refl _)
      have hnoted : Noted ((u.patchElse f.elsePatch u.nextIp).reopen f) :=
        (hw.reopen f).noted ((fusableCmp_patchElse u _ _).trans hu.fusableCmp)
      have heq := apart_reopen (u.patchElse f.elsePatch u.nextIp) f (apartIp t.ops) (branchIp t.ops)
      rw [happart] at heq
      exact Twins.of_eq hnoted heq.symm

/-- A catch clause's pad in both passes. -/
theorem landingPads_twins (ctx : CompileCtx) (base : ℕ) (clauses : List HandlerClause)
    (hn : Noted t) (hfuse : t.fusableCmp = none) :
    (∃ err, landingPads ctx base clauses t = .error err ∧
        landingPads ctx base clauses t.apart = .error err) ∨
      ∃ recs u, landingPads ctx base clauses t = .ok (recs, u) ∧
        landingPads ctx base clauses t.apart = .ok (recs.map (·.mapIp (apartIp u.ops)), u.apart) ∧
        Noted u ∧ t.ops <+: u.ops ∧ u.fusableCmp = none ∧ ∀ r ∈ recs, r.landingIp ≤ u.nextIp := by
  induction clauses generalizing t with
  | nil =>
    exact .inr ⟨[], t, rfl, rfl, hn, List.prefix_refl _, hfuse,
      fun r hr => absurd hr List.not_mem_nil⟩
  | cons c clauses ih =>
    set v : Translator := { t with height := base + payloadCount ctx c } with hv
    have hvn : Noted v := ⟨hn.fuse, hn.below.ops, hn.below.edges, hn.below.spans, hn.below.frames⟩
    have hleft : landingPads ctx base (c :: clauses) t = (v.branchTarget c.label >>= fun r =>
        landingPads ctx base clauses ((v.emit (.br r.1)).registerBranch r.2 v.nextIp .single) >>=
          fun q => pure (⟨c.tag, base, c.payloadArgs, c.payloadRef, v.nextIp⟩ :: q.1, q.2)) := rfl
    have hright : landingPads ctx base (c :: clauses) t.apart
        = (v.apart.branchTarget c.label >>= fun r =>
          landingPads ctx base clauses
            ((v.apart.emit (.br r.1)).registerBranch r.2 v.apart.nextIp .single) >>= fun q =>
          pure (⟨c.tag, base, c.payloadArgs, c.payloadRef, v.apart.nextIp⟩ :: q.1, q.2)) := rfl
    rw [hleft, hright, apart_branchTarget]
    rcases ht : v.branchTarget c.label with err | ⟨target, frame⟩
    · exact .inl ⟨err, rfl, rfl⟩
    · obtain ⟨hnoted, heq⟩ := branch_twins hvn (.br target)
        (hvn.below_next.branchTarget ht) (fun _ => rfl) rfl frame .single rfl
      set w := (v.emit (.br target)).registerBranch frame v.nextIp .single with hw
      have hwf : w.fusableCmp = none := by
        rw [hw]
        cases frame <;> rfl
      have hwops : w.ops = t.ops ++ [.br target] := by
        rw [hw]
        cases frame <;> rfl
      have hpre : t.ops <+: w.ops := by
        rw [hwops]
        exact List.prefix_append _ _
      have heq : (v.apart.emit (.br (target.mapIp (apartIp v.ops)))).registerBranch frame
          v.apart.nextIp .single = w.apart := heq
      rcases ih hnoted hwf with ⟨err, h, h'⟩ | ⟨recs, u, h, h', hu, hops, huf, hrecs⟩
      · refine .inl ⟨err, ?_, ?_⟩
        · show (landingPads ctx base clauses w >>= _) = _
          rw [h]
          rfl
        · show (landingPads ctx base clauses ((v.apart.emit _).registerBranch frame _ _) >>= _) = _
          rw [heq, h']
          rfl
      · have hip : apartIp u.ops v.nextIp = v.apart.nextIp :=
          (apartIp_initial (hpre.trans hops) (le_refl _)).trans (apart_nextIp v).symm
        refine .inr ⟨⟨c.tag, base, c.payloadArgs, c.payloadRef, v.nextIp⟩ :: recs, u, ?_, ?_, hu,
          hpre.trans hops, huf, fun r hr => ?_⟩
        · show (landingPads ctx base clauses w >>= _) = _
          rw [h]
          rfl
        · show (landingPads ctx base clauses ((v.apart.emit _).registerBranch frame _ _) >>= _) = _
          rw [heq, h', ← hip]
          rfl
        · rcases List.mem_cons.mp hr with rfl | hr
          · exact (hpre.trans hops).length_le
          · exact hrecs r hr

/-- The operands and the reachability behind a frame that is no `try_table`. -/
def closeBlock (t : Translator) (f : CtrlFrame) : Translator :=
  { t with
    reachable := if f.kind = .loop then t.reachable
      else t.reachable || f.endTargeted || f.elsePatch.isSome
    height := f.baseHeight + f.resultCount }

theorem endBlock_eq (f : CtrlFrame) (t : Translator) :
    endBlock f t
      = ((t.patchElse f.elsePatch t.nextIp).patchAll f.endPatches t.nextIp).closeBlock f := rfl

theorem apart_closeBlock (t : Translator) (f : CtrlFrame) (g b : ℕ → ℕ) :
    (t.closeBlock f).apart = t.apart.closeBlock (f.mapIp g b) := by
  have hsome : (f.mapIp g b).elsePatch.isSome = f.elsePatch.isSome := Option.isSome_map
  unfold closeBlock
  rw [hsome]
  rfl

/-- A frame that is no `try_table` ends where the next op begins. -/
theorem endBlock_twins (f : CtrlFrame) (hn : Below t.nextIp t) (hfuse : t.fusableCmp = none) :
    Twins (.ok (endBlock f t))
      (.ok (endBlock (f.mapIp (apartIp t.ops) (branchIp t.ops)) t.apart)) := by
  rw [endBlock_eq, endBlock_eq]
  set v := t.patchElse f.elsePatch t.nextIp with hv
  have hmove : apartIp v.ops = apartIp t.ops := apartIp_patchElse t f.elsePatch t.nextIp
  have hbranch : branchIp v.ops = branchIp t.ops := by
    funext i
    unfold branchIp
    rw [hmove]
  have happart : (v.patchAll f.endPatches t.nextIp).apart
      = (t.apart.patchElse (f.elsePatch.map (branchIp t.ops)) t.apart.nextIp).patchAll
        (f.endPatches.map fun p => { p with op := branchIp t.ops p.op }) t.apart.nextIp := by
    rw [apart_patchAll, hmove, hbranch, hv, apart_patchElse, apart_nextIp]
  have hnext : (v.patchAll f.endPatches t.nextIp).nextIp = t.nextIp :=
    (nextIp_patchAll v _ _).trans (nextIp_patchElse t _ _)
  have hbelow : Below t.nextIp (v.patchAll f.endPatches t.nextIp) :=
    (hn.patchElse f.elsePatch (le_refl _)).patchAll f.endPatches (le_refl _)
  have hnoted : Noted ((v.patchAll f.endPatches t.nextIp).closeBlock f) := by
    refine Below.noted ?_ ?_
    · rw [show ((v.patchAll f.endPatches t.nextIp).closeBlock f).nextIp = t.nextIp from hnext]
      exact ⟨hbelow.ops, hbelow.edges, hbelow.spans, hbelow.frames⟩
    · exact (fusableCmp_patchAll v _ _).trans ((fusableCmp_patchElse t _ _).trans hfuse)
  have heq := apart_closeBlock (v.patchAll f.endPatches t.nextIp) f (apartIp t.ops) (branchIp t.ops)
  rw [happart] at heq
  exact Twins.of_eq hnoted heq.symm

/-- Add the span of a `try_table`. -/
def closeTry (t : Translator) (f : CtrlFrame) (span : HandlerSpan) (live : Bool) : Translator :=
  { t with
    handlers := t.handlers ++ [span]
    reachable := live || f.endTargeted
    height := f.baseHeight + f.resultCount }

theorem apart_closeTry (t : Translator) (f : CtrlFrame) (span : HandlerSpan) (live : Bool)
    (g b : ℕ → ℕ) :
    (t.closeTry f span live).apart
      = t.apart.closeTry (f.mapIp g b) (span.mapIp (apartIp t.ops)) live := by
  have hspans : (t.handlers ++ [span]).map (·.mapIp (apartIp t.ops))
      = t.handlers.map (·.mapIp (apartIp t.ops)) ++ [span.mapIp (apartIp t.ops)] := List.map_append
  unfold closeTry
  show ({ t.apart with
    handlers := (t.handlers ++ [span]).map (·.mapIp (apartIp t.ops))
    reachable := live || f.endTargeted
    height := f.baseHeight + f.resultCount } : Translator) = _
  rw [hspans]
  rfl

theorem endTryTable_eq (ctx : CompileCtx) (f : CtrlFrame) (t : Translator) :
    endTryTable ctx f t = (fixup f.resultCount 0 >>= fun r =>
      landingPads ctx f.baseHeight f.clauses (t.emit (.br ⟨0, r.1, 0⟩)) >>= fun p =>
        .ok (((p.2.patchIp t.nextIp .single p.2.nextIp).patchAll f.endPatches p.2.nextIp).closeTry f
          ⟨f.startIp, t.nextIp, p.1⟩ t.reachable)) := rfl

/-- The range of a `try_table` begins and ends where its ops do, in both passes. -/
theorem endTryTable_twins (ctx : CompileCtx) (f : CtrlFrame) (hf : f.Below t.nextIp)
    (hn : Below t.nextIp t) :
    Twins (endTryTable ctx f t)
      (endTryTable ctx (f.mapIp (apartIp t.ops) (branchIp t.ops)) t.apart) := by
  rw [endTryTable_eq, endTryTable_eq]
  show Twins (fixup f.resultCount 0 >>= _) (fixup f.resultCount 0 >>= _)
  rcases fixup f.resultCount 0 with err | ⟨keep, pop⟩
  · exact .error err
  · have hop : (Op.br ⟨0, keep, 0⟩).targetIp ≤ t.nextIp := Nat.zero_le _
    have hone : ∀ f, ((Op.br ⟨0, keep, 0⟩).mapIp f).apart = [(Op.br ⟨0, keep, 0⟩).mapIp f] :=
      fun _ => rfl
    have hemit : (t.emit (.br ⟨0, keep, 0⟩)).apart = t.apart.emit (.br ⟨0, keep, 0⟩) := by
      rw [hn.apart_emit hop hone]
      show t.apart.emit (.br ⟨apartIp t.ops 0, keep, 0⟩) = _
      rw [apartIp_zero]
    show Twins (landingPads ctx f.baseHeight f.clauses (t.emit (.br ⟨0, keep, 0⟩)) >>= _)
      (landingPads ctx f.baseHeight f.clauses (t.apart.emit (.br ⟨0, keep, 0⟩)) >>= _)
    rw [← hemit]
    rcases landingPads_twins ctx f.baseHeight f.clauses (hn.noted_emit hop) rfl with
      ⟨err, h, h'⟩ | ⟨recs, u, h, h', hu, hops, hfuse, hrecs⟩
    · rw [h, h']
      exact .error err
    · rw [h, h']
      obtain ⟨hstart, hpatches, -⟩ := hf
      have hpre : t.ops <+: u.ops := (List.prefix_append _ _).trans hops
      have hlt : t.nextIp < u.nextIp := by
        have hlen := hops.length_le
        rw [show (t.emit (.br ⟨0, keep, 0⟩)).ops.length = t.ops.length + 1 from
          List.length_append] at hlen
        exact hlen
      -- the positions noted before the pads stay where they are
      have hstart' : apartIp u.ops f.startIp = apartIp t.ops f.startIp :=
        apartIp_initial hpre hstart
      have hend' : apartIp u.ops t.nextIp = t.apart.nextIp :=
        (apartIp_initial hpre (le_refl _)).trans (apart_nextIp t).symm
      have hpatch' : (f.endPatches.map fun p => { p with op := branchIp u.ops p.op })
          = f.endPatches.map fun p => { p with op := branchIp t.ops p.op } :=
        List.map_congr_left fun p hp =>
          congrArg (Patch.mk · p.slot) (branchIp_initial hpre (hpatches p hp))
      have hbr : branchIp u.ops t.nextIp = t.apart.nextIp := by
        have h1 : branchIp u.ops t.nextIp = branchIp (t.ops ++ [.br ⟨0, keep, 0⟩]) t.nextIp :=
          branchIp_initial hops (List.length_append ▸ Nat.lt_succ_self _)
        exact h1.trans (branchIp_nextIp t hone)
      set v := u.patchIp t.nextIp .single u.nextIp with hv
      have hmove : apartIp v.ops = apartIp u.ops := apartIp_patchIp u t.nextIp .single u.nextIp
      have hbranch : branchIp v.ops = branchIp u.ops := by
        funext i
        unfold branchIp
        rw [hmove]
      set w := v.patchAll f.endPatches u.nextIp with hw
      have hmove' : ∀ (ps : List Patch) (v : Translator),
          apartIp (v.patchAll ps u.nextIp).ops = apartIp v.ops := by
        intro ps
        induction ps with
        | nil => exact fun _ => rfl
        | cons p ps ih => exact fun v => (ih _).trans (apartIp_patchIp v p.op p.slot u.nextIp)
      have happart : w.apart = (u.apart.patchIp t.apart.nextIp .single u.apart.nextIp).patchAll
          (f.endPatches.map fun p => { p with op := branchIp t.ops p.op }) u.apart.nextIp := by
        rw [hw, apart_patchAll, hmove, hbranch, hpatch', hv, apart_patchIp, hbr, ← apart_nextIp u]
      have hspan : (HandlerSpan.mk f.startIp t.nextIp recs).mapIp (apartIp w.ops)
          = ⟨apartIp t.ops f.startIp, t.apart.nextIp, recs.map (·.mapIp (apartIp u.ops))⟩ := by
        rw [hmove' f.endPatches v, hmove]
        unfold HandlerSpan.mapIp
        rw [hstart', hend']
      have hclose := apart_closeTry w f ⟨f.startIp, t.nextIp, recs⟩ t.reachable (apartIp t.ops)
        (branchIp t.ops)
      rw [hspan, happart] at hclose
      have hnext : w.nextIp = u.nextIp := (nextIp_patchAll v _ _).trans (nextIp_patchIp u _ _ _)
      have hbelow : Below u.nextIp w :=
        (hu.below_next.patchIp t.nextIp .single (le_refl _)).patchAll f.endPatches (le_refl _)
      have hnoted : Noted (w.closeTry f ⟨f.startIp, t.nextIp, recs⟩ t.reachable) := by
        refine Below.noted ?_ ?_
        · rw [show (w.closeTry f ⟨f.startIp, t.nextIp, recs⟩ t.reachable).nextIp = u.nextIp
            from hnext]
          refine ⟨hbelow.ops, hbelow.edges, fun s hs => ?_, hbelow.frames⟩
          rcases List.mem_append.mp hs with hs | hs
          · exact hbelow.spans s hs
          · rw [List.mem_singleton.mp hs]
            exact ⟨hstart.trans hlt.le, hlt.le, hrecs⟩
        · exact (fusableCmp_patchAll v _ _).trans ((fusableCmp_patchIp u _ _ _).trans hfuse)
      exact Twins.of_eq hnoted hclose.symm

theorem doEnd_twins (ctx : CompileCtx) (hn : Noted t) :
    Twins (t.doEnd ctx) (t.apart.doEnd ctx) := by
  unfold doEnd
  rcases hctrl : t.ctrl with _ | ⟨f, ctrl⟩
  · rw [show t.apart.ctrl = [] from congrArg (List.map _) hctrl]
    exact .error _
  · have hctrl' : t.apart.ctrl = f.mapIp (apartIp t.ops) (branchIp t.ops)
        :: ctrl.map (CtrlFrame.mapIp (apartIp t.ops) (branchIp t.ops)) :=
      congrArg (List.map _) hctrl
    have hold := hn.below_next
    have hf : f.Below t.nextIp := hold.frames f (hctrl ▸ List.mem_cons_self)
    set v : Translator := { t with fusableCmp := none, ctrl := ctrl } with hv
    have hbelow : Below v.nextIp v := ⟨hold.ops, hold.edges, hold.spans, fun g hg =>
      hold.frames g (hctrl ▸ List.mem_cons_of_mem f hg)⟩
    rw [hctrl']
    show Twins (if f.kind = .tryTable ∧ f.reachableOnEntry then endTryTable ctx f v
        else .ok (endBlock f v))
      (if f.kind = .tryTable ∧ f.reachableOnEntry then
          endTryTable ctx (f.mapIp (apartIp t.ops) (branchIp t.ops)) v.apart
        else .ok (endBlock (f.mapIp (apartIp t.ops) (branchIp t.ops)) v.apart))
    split
    · exact endTryTable_twins ctx f hf hbelow
    · exact endBlock_twins f hbelow rfl

/-! ### The whole pass -/

/-- One operator in both passes. -/
theorem visit_twins (ctx : CompileCtx) (op : Operator) (hn : Noted t) :
    Twins (t.visit ctx op) (t.apart.visit ctx op) := by
  have skip : ∀ {x y : Except CompileError Translator}, Twins x y →
      Twins (if t.reachable then x else .ok t) (if t.apart.reachable then y else .ok t.apart) := by
    intro x y h
    rw [show t.apart.reachable = t.reachable from rfl]
    split
    · exact h
    · exact .of_eq hn rfl
  cases op with
  | plain p => exact skip (visitPlain_twins ctx p hn)
  | block bt => exact pushBlock_twins ctx bt .block [] hn
  | loop bt => exact pushBlock_twins ctx bt .loop [] hn
  | if_ bt => exact pushIf_twins ctx bt hn
  | else_ => exact doElse_twins hn
  | end_ => exact doEnd_twins ctx hn
  | tryTable bt catches => exact pushBlock_twins ctx bt .tryTable (catches.map convCatch) hn
  | jump j =>
    refine skip ?_
    cases j with
    | br l => exact br_twins l hn
    | brTable cases default => exact brTable_twins cases default hn
    | ret => exact ret_twins hn
    | unreachable => exact terminate_twins hn rfl (fun _ => rfl) fun _ => rfl
    | throw tag => exact terminate_twins hn rfl (fun _ => rfl) fun _ => rfl
    | throwRef => exact terminate_twins hn rfl (fun _ => rfl) fun _ => rfl
    | returnCall c => exact returnCall_twins ctx c hn
  | cond c =>
    refine skip ?_
    cases c with
    | brIf l => exact brIf_twins l hn
    | brOnNull l => exact brOnNull_twins l hn
    | brOnNonNull l => exact brOnNonNull_twins l hn
    | brOnCast l ty nullable fail => exact brOnCast_twins l ty nullable fail hn
  | call c => exact skip (call_twins ctx c hn)

/-- A whole body in both passes. -/
theorem visitAll_twins (ctx : CompileCtx) (body : List Operator) (hn : Noted t)
    (hu : { u with fusableCmp := none } = t.apart) :
    Twins (visitAll ctx body t) (visitAllApart ctx body u) := by
  induction body generalizing t u with
  | nil => exact .ok hn hu
  | cons op body ih =>
    have hop := visit_twins ctx op hn
    rw [← hu] at hop
    unfold visitAll visitAllApart
    cases ht : t.visit ctx op with
    | error err =>
      rw [ht] at hop
      cases hu' : Translator.visit ctx { u with fusableCmp := none } op with
      | error err' =>
        rw [hu'] at hop
        cases hop
        exact .error err
      | ok u' =>
        rw [hu'] at hop
        cases hop
    | ok t' =>
      rw [ht] at hop
      cases hu' : Translator.visit ctx { u with fusableCmp := none } op with
      | error err' =>
        rw [hu'] at hop
        cases hop
      | ok u' =>
        rw [hu'] at hop
        cases hop with
        | ok hn' h' => exact ih hn' h'

theorem noted_new (nResults : ℕ) : Noted (new nResults) := by
  have hframe : ∀ f ∈ (new nResults).ctrl, f.Below 0 := by
    intro f hf
    rw [List.mem_singleton.mp hf]
    exact ⟨le_refl _, fun _ h => absurd h List.not_mem_nil, fun _ h => nomatch h⟩
  refine Below.noted ⟨?_, ?_, ?_, hframe⟩ rfl
  · exact fun _ h => absurd h List.not_mem_nil
  · exact fun _ h => absurd h List.not_mem_nil
  · exact fun _ h => absurd h List.not_mem_nil

end Translator

/-- The pass without fusion gives the fused function written out, or stops with the same error. -/
theorem translateApart_eq (ctx : CompileCtx) (usedLocals typeIdx : ℕ) (locals : List (ℕ × IrVal))
    (body : List Operator) :
    translateApart ctx usedLocals typeIdx locals body
      = (translateFunction ctx usedLocals typeIdx locals body).map CompiledFunc.apart := by
  unfold translateApart translateFunction
  rcases hsig : ctx.sig typeIdx with ⟨params, results⟩
  dsimp only
  rcases expandLocals ctx usedLocals locals with err | localTypes
  · rfl
  have htwins := Translator.visitAll_twins ctx body (Translator.noted_new results.length)
    (u := Translator.new results.length) rfl
  show (Translator.visitAllApart ctx body (Translator.new results.length) >>= _)
    = Except.map _ (Translator.visitAll ctx body (Translator.new results.length) >>= _)
  rcases ht : Translator.visitAll ctx body (Translator.new results.length) with err | t
  · rcases hu : Translator.visitAllApart ctx body (Translator.new results.length) with err' | u
    · rw [ht, hu] at htwins
      cases htwins
      rfl
    · rw [ht, hu] at htwins
      cases htwins
  · rcases hu : Translator.visitAllApart ctx body (Translator.new results.length) with err' | u
    · rw [ht, hu] at htwins
      cases htwins
    · rw [ht, hu] at htwins
      cases htwins with
      | ok _ h =>
        have herror : u.error = t.error := (congrArg Translator.error h :)
        have hops : u.ops = writeOut (apartIp t.ops) t.ops := congrArg Translator.ops h
        have hmax : u.maxOperands = t.maxOperands := (congrArg Translator.maxOperands h :)
        have hspans : u.handlers = t.handlers.map (·.mapIp (apartIp t.ops)) :=
          congrArg Translator.handlers h
        have hedges : u.brTables = t.brTables.map (·.mapIp (apartIp t.ops)) :=
          congrArg Translator.brTables h
        have hpool : u.bigMemargs = t.bigMemargs := (congrArg Translator.bigMemargs h :)
        dsimp only [bind, Except.bind]
        rw [herror, hops, hmax, hspans, hedges, hpool]
        rcases t.error with _ | err
        · rfl
        · rfl

/-! ## Source offsets -/

namespace Translator

/-- The pass with the table of source offsets beside it: `emit` records for each op the offset of
the operator in translation. -/
def visitAllAt (step : Translator → Operator → Except CompileError Translator) :
    List (ℕ × Operator) → Translator → List ℕ → Except CompileError (Translator × List ℕ)
  | [], t, offsets => .ok (t, offsets)
  | (offset, op) :: body, t, offsets => do
      let u ← step t op
      visitAllAt step body u (offsets ++ List.replicate (u.ops.length - t.ops.length) offset)

/-- A stream that has grown, with its positions up to `n` where they were. -/
structure Later (n : ℕ) (ops ops' : List Op) : Prop where
  length : ops.length ≤ ops'.length
  same : ∀ ip ≤ n, apartIp ops' ip = apartIp ops ip

variable {u : Translator} {n : ℕ}

theorem Later.of_eq {ops ops' : List Op} (hlen : ops'.length = ops.length)
    (h : apartIp ops' = apartIp ops) : Later n ops ops' :=
  ⟨hlen.ge, fun ip _ => congrFun h ip⟩

theorem Later.refl (n : ℕ) (ops : List Op) : Later n ops ops := ⟨le_refl _, fun _ _ => rfl⟩

theorem Later.trans {ops ops' ops'' : List Op} (h : Later n ops ops') (h' : Later n ops' ops'') :
    Later n ops ops'' :=
  ⟨h.length.trans h'.length, fun ip hip => (h'.same ip hip).trans (h.same ip hip)⟩

theorem Later.of_initial {ops ops' : List Op} (hn : n ≤ ops.length) (h : ops <+: ops') :
    Later n ops ops' := ⟨h.length_le, fun _ hip => apartIp_initial h (hip.trans hn)⟩

theorem Later.patchIp (n : ℕ) (t : Translator) (op : ℕ) (slot : PatchSlot) (ip : ℕ) :
    Later n t.ops (t.patchIp op slot ip).ops :=
  .of_eq (nextIp_patchIp t op slot ip) (apartIp_patchIp t op slot ip)

theorem Later.patchAll (n : ℕ) (t : Translator) (patches : List Patch) (ip : ℕ) :
    Later n t.ops (t.patchAll patches ip).ops := by
  induction patches generalizing t with
  | nil => exact .refl n t.ops
  | cons p patches ih => exact (Later.patchIp n t p.op p.slot ip).trans (ih _)

theorem Later.patchElse (n : ℕ) (t : Translator) (elsePatch : Option ℕ) (ip : ℕ) :
    Later n t.ops (t.patchElse elsePatch ip).ops :=
  .of_eq (nextIp_patchElse t elsePatch ip) (apartIp_patchElse t elsePatch ip)

variable {t : Translator}

theorem length_le_settled (t : Translator) : t.ops.length ≤ t.settled + 1 := by
  unfold settled
  rcases t.fusableCmp with _ | k
  · exact Nat.le_succ _
  · show t.ops.length ≤ t.ops.length - 1 + 1
    omega

/-- An op emitted behind the others, or over a comparison. -/
theorem Emits.later {op : Op} {edges : List BranchTarget} {regs : List (ℕ × PatchSlot)}
    (h : Emits t u n op edges regs) : Later t.settled t.ops u.ops := by
  have htake : (t.ops.take n).length = n := List.length_take_of_le h.le
  refine ⟨?_, fun ip hip => ?_⟩
  · have hlen := length_le_settled t
    have hsettled := h.settled_le
    rw [h.ops, List.length_append, htake, List.length_singleton]
    omega
  · have hle : ip ≤ (t.ops.take n).length := by
      rw [htake]
      exact hip.trans h.settled_le
    rw [h.ops, apartIp_append _ hle]
    conv => rhs; rw [← List.take_append_drop n t.ops]
    exact (apartIp_append _ hle).symm

theorem Emits.ops_initial {op : Op} {edges : List BranchTarget} {regs : List (ℕ × PatchSlot)}
    (h : Emits t u t.nextIp op edges regs) : t.ops <+: u.ops := by
  have htake : t.ops.take t.nextIp = t.ops := List.take_length
  rw [h.ops, htake]
  exact List.prefix_append _ _

theorem later_fuse {kind : CmpKind} (negate : Bool) (target : BranchTarget) (hn : Noted t)
    (hk : t.fusableCmp = some kind) : Later t.settled t.ops (t.fuse kind negate target).ops := by
  obtain ⟨ops, hops⟩ := hn.fuse kind hk
  have hsettled : t.settled = ops.length := by
    unfold settled
    rw [hk, hops, List.length_append]
    rfl
  refine ⟨List.length_set.ge, fun ip hip => ?_⟩
  rw [hsettled] at hip
  rw [fuse_ops negate target hops, hops, apartIp_append _ hip, apartIp_append _ hip]

theorem later_brIf {depth : ℕ} (hn : Noted t) (h : t.brIf depth = .ok u) :
    Later t.settled t.ops u.ops := by
  have hs := pop_streams t 1
  obtain ⟨⟨target, frame⟩, -, h⟩ := bind_ok h
  rcases hk : t.fusableCmp with _ | kind
  · have hk' : (t.pop 1).fusableCmp = none := hs.fusableCmp.trans hk
    have hu : u.ops = t.ops ++ [.brIf target] := by
      dsimp only at h
      rw [hk'] at h
      obtain rfl := Except.ok.inj h
      rw [← hs.ops]
      cases frame <;> rfl
    rw [hu]
    exact .of_initial t.settled_le (List.prefix_append _ _)
  · have hk' : (t.pop 1).fusableCmp = some kind := hs.fusableCmp.trans hk
    have hu : u.ops = ((t.pop 1).fuse kind false target).ops := by
      dsimp only at h
      rw [hk'] at h
      obtain rfl := Except.ok.inj h
      cases frame <;> rfl
    have hlater := later_fuse false target (hn.pop 1) hk'
    have hsettled : (t.pop 1).settled = t.settled := by
      unfold settled
      rw [hs.ops, hs.fusableCmp]
    rw [hsettled, hs.ops] at hlater
    rw [hu]
    exact hlater

theorem later_pushIf (ctx : CompileCtx) (bt : BlockType) (hn : Noted t) :
    Later t.settled t.ops (t.pushIf ctx bt).ops := by
  have hops : (t.pushIf ctx bt).ops = t.ifBranch.2.ops :=
    (heightBelow_streams { t.ifBranch.2 with fusableCmp := none } (blockArity ctx bt).1).1.ops
  rw [hops]
  have hs := pop_streams t 1
  unfold ifBranch
  split
  · dsimp only
    rcases hk : (t.pop 1).fusableCmp with _ | kind
    · show Later t.settled t.ops ((t.pop 1).ops ++ [_])
      rw [hs.ops]
      exact .of_initial t.settled_le (List.prefix_append _ _)
    · have hlater := later_fuse true ⟨0, 0, 0⟩ (hn.pop 1) hk
      have hsettled : (t.pop 1).settled = t.settled := by
        unfold settled
        rw [hs.ops, hs.fusableCmp]
      rw [hsettled, hs.ops] at hlater
      exact hlater
  · exact .refl _ _

theorem later_doElse (h : t.doElse = .ok u) : Later t.settled t.ops u.ops := by
  rcases hctrl : t.ctrl with _ | ⟨f, ctrl⟩
  · unfold doElse at h
    rw [hctrl] at h
    cases h
  · obtain ⟨v, g, -, -, -, -, hv, rfl⟩ := doElse_ok hctrl h
    have hpre : t.ops <+: v.ops := by
      rcases hv with ⟨-, -, hem⟩ | ⟨-, -, rfl⟩
      · exact hem.ops_initial
      · exact List.prefix_refl _
    exact (Later.of_initial t.settled_le hpre).trans (.patchElse _ v f.elsePatch v.nextIp)

theorem landingPads_initial {ctx : CompileCtx} {base : ℕ} {clauses : List HandlerClause}
    {recs : List HandlerRec} (h : landingPads ctx base clauses t = .ok (recs, u)) :
    t.ops <+: u.ops := by
  induction clauses generalizing t recs with
  | nil =>
    cases h
    exact List.prefix_refl _
  | cons c clauses ih =>
    obtain ⟨f, v, recs', -, -, hem, -, -, hrest, -⟩ := landingPads_cons h
    exact hem.ops_initial.trans (ih hrest)

theorem later_doEnd (ctx : CompileCtx) (h : t.doEnd ctx = .ok u) : Later t.settled t.ops u.ops := by
  unfold doEnd at h
  split at h
  · cases h
  rename_i f ctrl hctrl
  set v : Translator := { t with fusableCmp := none, ctrl := ctrl } with hv
  dsimp only at h
  split at h
  · obtain ⟨x, w, recs, hem, -, hpads, rfl⟩ := endTryTable_ok h
    have hpre : t.ops <+: w.ops := hem.ops_initial.trans (landingPads_initial hpads)
    exact (Later.of_initial t.settled_le hpre).trans (.patchAll _ w _ w.nextIp)
  · obtain rfl := Except.ok.inj h
    exact (Later.patchElse t.settled v f.elsePatch v.nextIp).trans
      (.patchAll _ _ f.endPatches v.nextIp)

/-- What one operator does to the positions noted before it. -/
theorem later_visit (ctx : CompileCtx) {op : Operator} (hn : Noted t) (h : t.visit ctx op = .ok u) :
    Later t.settled t.ops u.ops := by
  have skip : ∀ {x : Except CompileError Translator},
      (t.reachable = true → x = .ok u → Later t.settled t.ops u.ops) →
      (if t.reachable then x else .ok t) = .ok u → Later t.settled t.ops u.ops := by
    intro x hx h
    split at h
    · rename_i hr
      exact hx hr h
    · obtain rfl := Except.ok.inj h
      exact .refl _ _
  have hblock : ∀ bt kind clauses, Later t.settled t.ops (t.pushBlock ctx bt kind clauses).ops :=
    fun bt _ _ =>
      have hs := (heightBelow_streams { t with fusableCmp := none } (blockArity ctx bt).1).1
      .of_eq (congrArg List.length hs.ops) (congrArg apartIp hs.ops)
  cases op with
  | plain p => exact skip (fun hr h => (visitPlain_emits hr h).1.later) h
  | block bt =>
    obtain rfl := Except.ok.inj h
    exact hblock bt .block []
  | loop bt =>
    obtain rfl := Except.ok.inj h
    exact hblock bt .loop []
  | if_ bt =>
    obtain rfl := Except.ok.inj h
    exact later_pushIf ctx bt hn
  | else_ => exact later_doElse h
  | end_ => exact later_doEnd ctx h
  | tryTable bt catches =>
    obtain rfl := Except.ok.inj h
    exact hblock bt .tryTable _
  | jump j =>
    refine skip (fun _ h => ?_) h
    obtain ⟨_, _, _, _, hem, -⟩ := visitJump_emits h
    exact hem.later
  | cond c =>
    refine skip (fun hr h => ?_) h
    cases c with
    | brIf l => exact later_brIf hn h
    | brOnNull l =>
      obtain ⟨_, -, -, hem, -⟩ := brOnNull_emits hr h
      exact hem.later
    | brOnNonNull l =>
      obtain ⟨_, -, -, hem, -⟩ := brOnNonNull_emits hr h
      exact hem.later
    | brOnCast l ty nullable fail =>
      obtain ⟨_, -, -, hem, -⟩ := brOnCast_emits h
      exact hem.later
  | call c =>
    refine skip (fun hr h => ?_) h
    obtain rfl := Except.ok.inj h
    exact (call_emits ctx hr c).1.later

/-- Two offset tables agree: the pass without fusion has the offset of every op at its new
position. -/
structure Aligned (ops : List Op) (offsets offsets' : List ℕ) : Prop where
  length : offsets.length = ops.length
  length' : offsets'.length = apartIp ops ops.length
  same : ∀ ip, offsets'[apartIp ops ip]? = offsets[ip]?

/-- An operator adds its own offset for each op behind those there were. -/
theorem Aligned.visit {ops ops' : List Op} {offsets offsets' : List ℕ}
    (h : Aligned ops offsets offsets') (hl : Later n ops ops') (hn : ops.length ≤ n + 1)
    (hgrow : apartIp ops ops.length ≤ apartIp ops' ops.length) (offset : ℕ) :
    Aligned ops' (offsets ++ List.replicate (ops'.length - ops.length) offset)
      (offsets' ++ List.replicate (apartIp ops' ops'.length - apartIp ops ops.length) offset) := by
  have hmono := (apartIp_strictMono ops').monotone
  have hlen := hl.length
  have hout := hmono hlen
  refine ⟨?_, ?_, fun ip => ?_⟩
  · rw [List.length_append, List.length_replicate, h.length]
    omega
  · rw [List.length_append, List.length_replicate, h.length']
    omega
  · rcases Nat.lt_or_ge ip ops.length with hlt | hge
    · -- an op of before
      have hip := hl.same ip (by omega)
      have hlt' : apartIp ops ip < offsets'.length := by
        rw [h.length']
        exact apartIp_strictMono ops hlt
      rw [hip, List.getElem?_append_left hlt', h.same ip,
        List.getElem?_append_left (h.length ▸ hlt)]
    · have hge' : offsets'.length ≤ apartIp ops' ip := by
        rw [h.length']
        exact hgrow.trans (hmono hge)
      rw [List.getElem?_append_right hge', List.getElem?_append_right (h.length ▸ hge),
        List.getElem?_replicate, List.getElem?_replicate, h.length, h.length']
      have hiff : apartIp ops' ip - apartIp ops ops.length
            < apartIp ops' ops'.length - apartIp ops ops.length
          ↔ ip - ops.length < ops'.length - ops.length := by
        have hlt := (apartIp_strictMono ops').lt_iff_lt (a := ip) (b := ops'.length)
        rw [h.length'] at hge'
        constructor
        · intro hi
          have := hlt.mp (by omega)
          omega
        · intro hi
          have := hlt.mpr (by omega)
          omega
      exact if_congr hiff rfl rfl

/-- The op in front of the next one begins where it did. -/
theorem Noted.grown (hn : Noted t) {ops' : List Op} (hl : Later t.settled t.ops ops') :
    apartIp t.ops t.ops.length ≤ apartIp ops' t.ops.length := by
  rcases hk : t.fusableCmp with _ | kind
  · have hsettled := settled_of_none hk
    exact (hl.same _ hsettled.ge).ge
  · obtain ⟨ops, hops⟩ := hn.fuse kind hk
    have hlen : t.ops.length = ops.length + 1 := by
      rw [hops, List.length_append]
      rfl
    have hsettled : t.settled = ops.length := by
      unfold settled
      rw [hk, hlen]
      rfl
    have hop : t.ops[ops.length]? = some (.plain (.relop kind)) := by
      rw [hops]
      exact List.getElem?_concat_length
    have hsame := hl.same ops.length hsettled.ge
    have hlt := apartIp_lt_succ ops' ops.length
    rw [hlen, apartIp_succ hop, ← hsame]
    exact hlt

/-- The tables of both passes agree all along. -/
theorem visitAllAt_twins (ctx : CompileCtx) (body : List (ℕ × Operator)) {t : Translator}
    {offsets offsets' : List ℕ} (hn : Noted t) (hu : { u with fusableCmp := none } = t.apart)
    (ha : Aligned t.ops offsets offsets') {t' : Translator} {out : List ℕ}
    (h : visitAllAt (fun t op => t.visit ctx op) body t offsets = .ok (t', out)) :
    ∃ u' out', visitAllAt (fun t op => Translator.visit ctx { t with fusableCmp := none } op) body u
        offsets' = .ok (u', out') ∧ Aligned t'.ops out out' := by
  induction body generalizing t u offsets offsets' with
  | nil =>
    cases h
    exact ⟨u, offsets', rfl, ha⟩
  | cons op body ih =>
    obtain ⟨offset, op⟩ := op
    obtain ⟨v, hv, h⟩ := bind_ok h
    have htwin := visit_twins ctx op hn
    rw [show t.visit ctx op = .ok v from hv, ← hu] at htwin
    rcases hw : Translator.visit ctx { u with fusableCmp := none } op with err | w
    · rw [hw] at htwin
      cases htwin
    · rw [hw] at htwin
      cases htwin with
      | ok hn' hw' =>
        have hl := later_visit ctx hn hv
        have haligned := ha.visit hl (length_le_settled t) (hn.grown hl) offset
        have hlenu : u.ops.length = apartIp t.ops t.ops.length :=
          (congrArg (fun t => t.ops.length) hu).trans (writeOut_length _ _)
        have hlenw : w.ops.length = apartIp v.ops v.ops.length :=
          (congrArg (fun t => t.ops.length) hw').trans (writeOut_length _ _)
        rw [← hlenu, ← hlenw] at haligned
        obtain ⟨u', out', hrun, hfinal⟩ := ih hn' hw' haligned h
        refine ⟨u', out', ?_, hfinal⟩
        show (Translator.visit ctx { u with fusableCmp := none } op >>= _) = _
        rw [hw]
        exact hrun

/-- The offsets are recorded beside the pass, and do not disturb it. -/
theorem visitAllAt_fst (ctx : CompileCtx) (body : List (ℕ × Operator)) (t : Translator)
    (offsets : List ℕ) :
    (visitAllAt (fun t op => t.visit ctx op) body t offsets).map Prod.fst
      = visitAll ctx (body.map Prod.snd) t := by
  induction body generalizing t offsets with
  | nil => rfl
  | cons op body ih =>
    obtain ⟨offset, op⟩ := op
    show Except.map _ (t.visit ctx op >>= _) = (t.visit ctx op >>= _)
    rcases t.visit ctx op with err | u
    · rfl
    · exact ih u _

end Translator

/-- The table of source offsets of a function, of the pass that takes `step`. -/
def sourceOffsets (step : Translator → Operator → Except CompileError Translator)
    (ctx : CompileCtx) (typeIdx : ℕ) (body : List (ℕ × Operator)) : Except CompileError (List ℕ) :=
  (Translator.visitAllAt step body (Translator.new (ctx.sig typeIdx).2.length) []).map Prod.snd

theorem translateFunction_visited {ctx : CompileCtx} {usedLocals typeIdx : ℕ}
    {locals : List (ℕ × IrVal)} {body : List Operator} {code : CompiledFunc}
    (h : translateFunction ctx usedLocals typeIdx locals body = .ok code) :
    ∃ t, Translator.visitAll ctx body (Translator.new (ctx.sig typeIdx).2.length) = .ok t ∧
      code.ops = t.ops := by
  unfold translateFunction at h
  obtain ⟨localTypes, -, h⟩ := bind_ok h
  obtain ⟨t, ht, h⟩ := bind_ok h
  split at h
  · cases h
  · obtain rfl := Except.ok.inj h
    exact ⟨t, ht, rfl⟩

/-- The offsets of a function and of the function written out agree. -/
theorem sourceOffsets_aligned {ctx : CompileCtx} {usedLocals typeIdx : ℕ}
    {locals : List (ℕ × IrVal)} {body : List (ℕ × Operator)} {code : CompiledFunc}
    (h : translateFunction ctx usedLocals typeIdx locals (body.map Prod.snd) = .ok code) :
    ∃ offsets offsets', sourceOffsets (fun t op => t.visit ctx op) ctx typeIdx body = .ok offsets ∧
      sourceOffsets (fun t op => Translator.visit ctx { t with fusableCmp := none } op) ctx typeIdx
        body = .ok offsets' ∧ Translator.Aligned code.ops offsets offsets' := by
  obtain ⟨t, ht, hops⟩ := translateFunction_visited h
  set start := Translator.new (ctx.sig typeIdx).2.length with hstart
  have hfst := Translator.visitAllAt_fst ctx body start []
  rw [ht] at hfst
  rcases hat : Translator.visitAllAt (fun t op => t.visit ctx op) body start [] with
    err | ⟨t', offsets⟩
  · rw [hat] at hfst
    cases hfst
  · rw [hat] at hfst
    obtain rfl : t' = t := Except.ok.inj hfst
    have hempty : Translator.Aligned start.ops [] [] := ⟨rfl, rfl, fun _ => rfl⟩
    obtain ⟨u', offsets', hu, ha⟩ := Translator.visitAllAt_twins ctx body
      (Translator.noted_new _) (u := start) rfl hempty hat
    refine ⟨offsets, offsets', ?_, ?_, hops ▸ ha⟩
    · unfold sourceOffsets
      rw [← hstart, hat]
      rfl
    · unfold sourceOffsets
      rw [← hstart, hu]
      rfl

end SubmilliWasm
