/-
# Every compiled function holds its body

`translateFunction_code`: a function the translator finishes is laid out as `CodeAt` says.
The induction is on the body; the fates of the frames are chosen where each frame closes,
and the ops are read off the finished code.  No typing is needed: an operand height that
does not fit is latched as an error, and a finished function has none.
-/
import SubmilliWasm.Compile.Resolve

namespace SubmilliWasm

open Fallible

namespace Translator

/-! ## Straight-line ops -/

/-- The immediate of an op denotes that of its operator. -/
theorem memarg_resolve {pool big : List BigMemArg} {m : BigMemArg} (h : (memarg pool m).2 <+: big) :
    (memarg pool m).1.resolve big = m := by
  unfold memarg at h ⊢
  unfold MemArg.resolve
  split
  · rename_i hlt
    rw [if_neg (Nat.ne_of_lt hlt)]
  · rename_i hlt
    rw [if_neg hlt] at h
    obtain ⟨rest, rfl⟩ := h
    rw [if_pos rfl, List.append_assoc]
    simp

theorem lowerPlain_resolve {pool big : List BigMemArg} {p : PlainOp BigMemArg}
    (h : (lowerPlain pool p).2 <+: big) :
    (lowerPlain pool p).1.mapMem (MemArg.resolve big) = p := by
  unfold lowerPlain at h ⊢
  rcases hm : p.mem? with _ | m
  · rw [PlainOp.mapMem_mapMem]
    refine PlainOp.mapMem_eq_self fun m hm' => ?_
    rw [hm] at hm'
    cases hm'
  · simp only [hm] at h ⊢
    rw [PlainOp.mapMem_mapMem]
    refine PlainOp.mapMem_eq_self fun m' hm' => ?_
    obtain rfl : m = m' := Option.some.inj (hm.symm.trans hm')
    exact memarg_resolve h

/-! ## A comparison in front of a sequence -/

/-- The code of a sequence behind a comparison that may still be fused: the first op of the
sequence has replaced it, or it stands in front of the sequence. -/
def CodeFrom (C : CompiledFunc) (ctx : CompileCtx) (cmp : Option CmpKind) (Ls : List Target)
    (h : ℕ) (b : Body) (ip ip' : ℕ) (out : Bool) (hs : List HandlerSpan) : Prop :=
  match cmp with
  | none => CodeAt C ctx true none Ls h b ip ip' out hs
  | some c => CodeAt C ctx true (some c) Ls h b ip ip' out hs ∨
      C.ops[ip]? = some (.plain (.relop c)) ∧ CodeAt C ctx true none Ls h b (ip + 1) ip' out hs

section Sequence

variable {C : CompiledFunc} {ctx : CompileCtx} {t u v : Translator} {E : List Fate}
  {Ls : List Target} {h ip' : ℕ} {b : Body} {out : Bool} {hs : List HandlerSpan}

theorem CodeFrom.of_fused
    (hc : CodeAt C ctx true t.fusableCmp Ls h b t.settled ip' out hs) :
    CodeFrom C ctx t.fusableCmp Ls h b t.settled ip' out hs := by
  unfold CodeFrom
  split
  · rename_i hk
    rwa [hk] at hc
  · rename_i k hk
    rw [hk] at hc
    exact .inl hc

/-- A comparison that the next operator leaves alone is in the code. -/
theorem CodeFrom.of_unfused (ht : Tracked t) (hres : Resolves { t with fusableCmp := none } E C)
    (hc : CodeAt C ctx true none Ls h b t.nextIp ip' out hs) :
    CodeFrom C ctx t.fusableCmp Ls h b t.settled ip' out hs := by
  unfold CodeFrom
  split
  · rename_i hk
    rw [settled_of_none hk]
    exact hc
  · rename_i k hk
    obtain ⟨hset, hpos, hop⟩ := ht.settled_fuse hk
    have hnext : t.settled + 1 = t.nextIp := by omega
    refine .inr ⟨?_, hnext ▸ hc⟩
    obtain ⟨y, hy, hsy⟩ := hres.read (.inline t.settled) (.inl (.plain (.relop k)))
      (by show ¬t.ops.length - 0 ≤ t.settled; unfold nextIp at hpos hset; omega)
      (by show Option.map _ t.ops[t.settled]? = _; rw [hset, hop]; rfl)
    obtain ⟨o, ho, rfl⟩ := Option.map_eq_some_iff.mp hy
    rcases hsy with ⟨ip, -, hw⟩ | ⟨-, hw⟩
    · rw [ho, Sum.inl.inj hw]
      rfl
    · rw [ho, Sum.inl.inj hw]

/-- An op behind all others is emitted the same whether or not the comparison in front of it was
still open. -/
theorem Emits.unfused {op : Op} {edges : List BranchTarget} {regs : List (ℕ × PatchSlot)}
    (hem : Emits t u t.nextIp op edges regs) :
    Emits { t with fusableCmp := none } u t.nextIp op edges regs := by
  refine ⟨Nat.sub_le _ _, hem.le, hem.ops, hem.brTables, hem.bigMemargs, hem.handlers, hem.ctrl,
    hem.fuse, fun r hr => ?_, hem.dead, hem.error⟩
  obtain ⟨hlt, a, ha, hf, hnf⟩ := hem.regs_ok r hr
  refine ⟨hlt, a, ha, ?_, hnf⟩
  rcases a with i | j
  · have hi := place_op ha
    show t.ops.length - 0 ≤ i
    rw [← hi]
    exact Nat.sub_le _ _
  · exact hf

/-! ## The outermost frame -/

/-- The outermost frame is no loop: it is the function's own. -/
def Rooted (ctrl : List CtrlFrame) : Prop := ∃ f, ctrl.getLast? = some f ∧ f.kind ≠ .loop

theorem Rooted.cons {ctrl : List CtrlFrame} (h : Rooted ctrl) (g : CtrlFrame) :
    Rooted (g :: ctrl) := by
  obtain ⟨f, hf, hk⟩ := h
  refine ⟨f, ?_, hk⟩
  rw [List.getLast?_cons, hf]
  rfl

theorem Extends.rooted (he : Extends t u) (h : Rooted t.ctrl) : Rooted u.ctrl := by
  obtain ⟨f, hf, hk⟩ := h
  rw [List.getLast?_eq_getElem?] at hf
  obtain ⟨f', hf', hext⟩ := (forall₂_getElem? he.frames).1 f hf
  refine ⟨f', ?_, ?_⟩
  · rw [List.getLast?_eq_getElem?, ← he.frames.length_eq]
    exact hf'
  · rw [hext.same]
    exact hk

/-! ## Sequences behind a construct -/

/-- The code of a sequence, as the induction hypothesis gives it. -/
def Codes (C : CompiledFunc) (ctx : CompileCtx) (b : Body) : Prop :=
  ∀ {t u : Translator} {E : List Fate}, Tracked t → Rooted t.ctrl → t.reachable = true →
    visitAll ctx b.flatten t = .ok u → u.error = none →
    Resolves { u with fusableCmp := none } E C →
    ∃ hs, u.handlers = t.handlers ++ hs ∧
      CodeFrom C ctx t.fusableCmp (targets t.ctrl E) t.height b t.settled u.nextIp u.reachable hs

/-- The sequence behind a construct, reachable or not. -/
theorem Codes.after (hb : Codes C ctx b) (ht : Tracked t) (hroot : Rooted t.ctrl)
    (hfuse : t.fusableCmp = none) (hrun : visitAll ctx b.flatten t = .ok u)
    (herr : u.error = none) (hres : Resolves { u with fusableCmp := none } E C) :
    ∃ hs, u.handlers = t.handlers ++ hs ∧
      CodeAt C ctx t.reachable none (targets t.ctrl E) t.height b t.nextIp u.nextIp u.reachable
        hs := by
  by_cases hr : t.reachable = true
  · obtain ⟨hs, hh, hc⟩ := hb ht hroot hr hrun herr hres
    rw [hfuse, settled_of_none hfuse] at hc
    rw [hr]
    exact ⟨hs, hh, hc⟩
  · have hr := Bool.eq_false_iff.mpr hr
    obtain ⟨u', hrun', hd⟩ := @visitAll_dead ctx b _ hr
    obtain rfl := Except.ok.inj (hrun'.symm.trans hrun)
    have hur : u'.reachable = false := (congrArg Translator.reachable hd.same).trans hr
    have hun : u'.nextIp = t.nextIp := (congrArg Translator.nextIp hd.same).trans rfl
    refine ⟨[], ?_, ?_⟩
    · rw [List.append_nil]
      exact (congrArg Translator.handlers hd.same).trans rfl
    · rw [hr, hur, hun]
      exact .dead

/-- The sequence behind an op. -/
theorem Codes.next (hb : Codes C ctx b) (ht : Tracked t) (hroot : Rooted t.ctrl) {n : ℕ} {op : Op}
    {edges : List BranchTarget} {regs : List (ℕ × PatchSlot)} (hem : Emits t v n op edges regs)
    (hop : fusableCmpOf op = none) (hrun : visitAll ctx b.flatten v = .ok u)
    (herr : u.error = none) (hres : Resolves { u with fusableCmp := none } E C) :
    v.error = none ∧ Resolves v E C ∧ ∃ hs, u.handlers = t.handlers ++ hs ∧
      CodeAt C ctx v.reachable none (targets t.ctrl E) v.height b (n + 1) u.nextIp u.reachable
        hs := by
  have hv := hem.tracked ht
  obtain ⟨hvu, -⟩ := visitAll_extends b hv hrun
  obtain ⟨hs, hh, hc⟩ := hb.after hv (hem.ext.rooted hroot) (hem.fuse.trans hop) hrun herr hres
  rw [hem.ext.targets_eq, show v.nextIp = n + 1 from hem.length_ops] at hc
  rw [hem.handlers] at hh
  exact ⟨hvu.error herr, hres.back hvu.unfuse hv, hs, hh, hc⟩

/-! ## One operator and the sequence behind it -/

theorem codes_done : Codes C ctx .done := by
  intro t u E ht _ hr hrun _ hres
  obtain rfl := Except.ok.inj hrun
  refine ⟨[], (List.append_nil _).symm, .of_unfused ht hres ?_⟩
  rw [hr]
  exact .done

theorem codes_plain {p : PlainOp BigMemArg} (hb : Codes C ctx b) : Codes C ctx (.plain p b) := by
  intro t u E ht hroot hr hrun herr hres
  obtain ⟨v, hv, hk⟩ := bind_ok hrun
  obtain ⟨hem, hpool, hvr, hheight⟩ := visitPlain_emits hr ((if_pos hr).symm.trans hv)
  have hvt := hem.tracked ht
  obtain ⟨hvu, -⟩ := visitAll_extends b hvt hk
  have hresv := hres.back hvu.unfuse hvt
  obtain ⟨hs, hh, hc⟩ := hb hvt (hem.ext.rooted hroot) hvr hk herr hres
  rw [hem.ext.targets_eq, hheight (hvu.error herr)] at hc
  rw [hem.handlers] at hh
  have hp := lowerPlain_resolve (hpool ▸ hresv.bigMemargs)
  refine ⟨hs, hh, .of_unfused ht (hresv.back hem.unfused.ext ht.unfuse) ?_⟩
  rcases hf : v.fusableCmp with _ | k
  · have hfuse : fusableCmpOf (.plain (lowerPlain t.bigMemargs p).1) = none :=
      hem.fuse.symm.trans hf
    rw [hf, hem.settled_eq hfuse] at hc
    exact .plain (hem.read_op ht hresv hfuse fun r hr => absurd hr List.not_mem_nil) hp hc
  · -- the op is a comparison: the sequence behind it may have replaced it
    have hop : fusableCmpOf (.plain (lowerPlain t.bigMemargs p).1) = some k :=
      hem.fuse.symm.trans hf
    have hlow : (lowerPlain t.bigMemargs p).1 = .relop k := by
      unfold fusableCmpOf at hop
      split at hop
      · rename_i k' hk'
        cases hop
        exact Op.plain.inj hk'
      · cases hop
    have hpk : p = .relop k := by
      rw [hlow] at hp
      exact hp.symm
    obtain ⟨hset, -, -⟩ := hvt.settled_fuse hf
    have hnext : v.settled = t.nextIp := by
      have hlen : v.nextIp = t.nextIp + 1 := hem.length_ops
      omega
    rw [hf, hnext] at hc
    subst hpk
    rcases hc with hc | ⟨hop, hc⟩
    · exact .fuse hc
    · exact .plain hop rfl hc

theorem codes_call {c : CallTarget} (hb : Codes C ctx b) : Codes C ctx (.call c b) := by
  intro t u E ht hroot hr hrun herr hres
  obtain ⟨v, hv, hk⟩ := bind_ok hrun
  obtain rfl := Except.ok.inj ((if_pos hr).symm.trans hv)
  obtain ⟨hem, hvr, hheight⟩ := call_emits ctx hr c
  obtain ⟨hve, hresv, hs, hh, hc⟩ := hb.next ht hroot hem rfl hk herr hres
  rw [hvr, hheight hve] at hc
  refine ⟨hs, hh, .of_unfused ht (hresv.back hem.unfused.ext ht.unfuse) ?_⟩
  exact .call (hem.read_op ht hresv rfl fun r hr => absurd hr List.not_mem_nil) hc

/-- A jump: nothing behind it is reachable. -/
theorem codes_jump {j : Jump}
    (hj : ∀ {t v : Translator} {E : List Fate}, Tracked t → Rooted t.ctrl → t.reachable = true →
      t.visitJump ctx j = .ok v → v.error = none → Resolves v E C →
      CodeAt C ctx true none (targets t.ctrl E) t.height (.jump j b) t.nextIp (t.nextIp + 1) false
        [] ∧ ∃ op edges regs, Emits t v t.nextIp op edges regs ∧ fusableCmpOf op = none ∧
          v.reachable = false) (hb : Codes C ctx b) : Codes C ctx (.jump j b) := by
  intro t u E ht hroot hr hrun herr hres
  obtain ⟨v, hv, hk⟩ := bind_ok hrun
  have hv := (if_pos hr).symm.trans hv
  obtain ⟨n, op', edges', regs', hem', hvr⟩ := visitJump_emits hv
  have hvt := hem'.tracked ht
  obtain ⟨hvu, -⟩ := visitAll_extends b hvt hk
  obtain ⟨hcode, op, edges, regs, hem, hop, -⟩ :=
    hj ht hroot hr hv (hvu.error herr) (hres.back hvu.unfuse hvt)
  obtain ⟨-, hresv, hs, hh, hc⟩ := hb.next ht hroot hem hop hk herr hres
  rw [hvr] at hc
  obtain ⟨hip, hout, rfl⟩ := hc.of_dead
  rw [hip, hout]
  exact ⟨[], hh, .of_unfused ht (hresv.back hem.unfused.ext ht.unfuse) hcode⟩

variable {bt : BlockType} {f : CtrlFrame} {l : ℕ}

theorem codes_br (hb : Codes C ctx b) : Codes C ctx (.jump (.br l) b) := by
  refine codes_jump (fun {t v E} ht _ _ hv _ hres => ?_) hb
  obtain ⟨f, hf, hle, hem, hvr⟩ := br_emits hv
  obtain ⟨e, hop, he⟩ := hem.read_branch (m := Op.br) ht hres hf hle (fun _ _ => rfl)
    (fun _ _ => rfl) fun _ => rfl
  exact ⟨.br hop he, _, _, _, hem, rfl, hvr⟩

/-- An op that ends the block without a branch. -/
theorem terminate_read {op : Op} (hop : fusableCmpOf op = none) (ht : Tracked t)
    (hres : Resolves (t.terminate op) E C) : C.ops[t.nextIp]? = some op :=
  (terminate_emits t hop).read_op ht hres hop fun _ hr => absurd hr List.not_mem_nil

theorem codes_ret (hb : Codes C ctx b) : Codes C ctx (.jump .ret b) := by
  refine codes_jump (fun {t v E} ht hroot _ hv _ hres => ?_) hb
  obtain ⟨f, hf, hle, hem, hvr⟩ := ret_emits hv
  refine ⟨?_, _, _, _, hem, rfl, hvr⟩
  obtain ⟨f', hf', hk⟩ := hroot
  obtain rfl : f = f' := Option.some.inj (hf.symm.trans hf')
  have harity : f.labelArity = f.resultCount := if_neg hk
  rw [List.getLast?_eq_getElem?] at hf
  obtain ⟨φ, hφ⟩ := hres.fate hem.frames.length_eq hf
  have hlast : (targets t.ctrl E).getLast? = some (frameTarget f φ) := by
    have hlen : (targets t.ctrl E).length = t.ctrl.length := by
      unfold targets
      rw [List.length_zipWith, hres.length_eq, hem.frames.length_eq, Nat.min_self]
    rw [List.getLast?_eq_getElem?, hlen]
    exact targets_getElem? hf hφ
  have htarget : frameTarget f φ = ⟨φ.endIp, f.baseHeight, f.resultCount, φ.live⟩ := by
    unfold frameTarget
    rw [if_neg hk, harity]
  refine .ret hlast (by rw [htarget]; exact hle) ?_
  rw [htarget]
  exact (hem.read_listed (m := Op.br) ht hres hf hφ (fun _ _ => rfl) (fun _ _ => rfl)
    fun _ => rfl).1

/-- Every edge of a `br_table`, its default last. -/
theorem brTable_read {cases : List ℕ} {default : ℕ} {fs : List CtrlFrame} {g : CtrlFrame}
    (hfs : List.Forall₂ (fun (l : ℕ) (f : CtrlFrame) => t.ctrl[l]? = some f ∧
      f.baseHeight + f.labelArity ≤ h) cases fs) (hg : t.ctrl[default]? = some g)
    (hle : g.baseHeight + g.labelArity ≤ h)
    (hem : Emits t v t.nextIp (.brTable t.brTables.length cases.length)
      ((fs ++ [g]).map (edgeTo · h)) (caseRegs 0 cases fs ++ branchRegs g default .tableDefault))
    (ht : Tracked t) (hres : Resolves v E C) {i : ℕ} (hl : (cases ++ [default])[i]? = some l) :
    ∃ e, C.brTables[t.brTables.length + i]? = some e ∧ EdgeTo (targets t.ctrl E) h l e := by
  have hlen := hfs.length_eq
  by_cases hi : i < cases.length
  · -- a case: its branch is the one listed under its number
    rw [List.getElem?_append_left hi] at hl
    obtain ⟨f, hf, hctrl, hle'⟩ := (forall₂_getElem? hfs).1 l hl
    have hedge : ((fs ++ [g]).map (edgeTo · h))[i]? = some (edgeTo f h) := by
      rw [List.getElem?_map, List.getElem?_append_left (by omega), hf]
      rfl
    refine hem.read_edge (s := .tableCase i) ht hres hctrl hle' hedge rfl (fun hk => ?_)
      fun r hr hflat => ?_
    · exact List.mem_append_left _ (by simpa using caseRegs_mem (k := 0) hl hf hk)
    · rcases List.mem_append.mp hr with hr | hr
      · obtain ⟨j, l', f', hl', hf', hk', rfl⟩ := mem_caseRegs hr
        have hj : t.brTables.length + (0 + j) = t.brTables.length + i := Option.some.inj hflat
        obtain rfl : j = i := by omega
        obtain rfl : f = f' := Option.some.inj (hf.symm.trans hf')
        exact ⟨hk', Option.some.inj (hl'.symm.trans hl)⟩
      · unfold branchRegs at hr
        split at hr
        · exact absurd hr List.not_mem_nil
        · obtain rfl := List.mem_singleton.mp hr
          have hj : t.brTables.length + cases.length = t.brTables.length + i :=
            Option.some.inj hflat
          omega
  · -- the default, behind the cases
    have hlt : i < (cases ++ [default]).length := (List.getElem?_eq_some_iff.mp hl).1
    rw [List.length_append, List.length_singleton] at hlt
    obtain rfl : i = cases.length := by omega
    obtain rfl : default = l := by simpa using hl
    have hedge : ((fs ++ [g]).map (edgeTo · h))[cases.length]? = some (edgeTo g h) := by
      rw [List.getElem?_map, List.getElem?_append_right (by omega), hlen, Nat.sub_self]
      rfl
    refine hem.read_edge (s := .tableDefault) ht hres hg hle hedge rfl (fun hk => ?_)
      fun r hr hflat => ?_
    · refine List.mem_append_right _ ?_
      unfold branchRegs
      rw [if_neg hk]
      exact List.mem_singleton_self _
    · rcases List.mem_append.mp hr with hr | hr
      · obtain ⟨j, l', f', hl', -, -, rfl⟩ := mem_caseRegs hr
        have hj : t.brTables.length + (0 + j) = t.brTables.length + cases.length :=
          Option.some.inj hflat
        obtain ⟨hlt', -⟩ := List.getElem?_eq_some_iff.mp hl'
        omega
      · unfold branchRegs at hr
        split at hr
        · exact absurd hr List.not_mem_nil
        · rename_i hk
          obtain rfl := List.mem_singleton.mp hr
          exact ⟨hk, rfl⟩

theorem codes_brTable {cases : List ℕ} {default : ℕ} (hb : Codes C ctx b) :
    Codes C ctx (.jump (.brTable cases default) b) := by
  refine codes_jump (fun {t v E} ht _ _ hv herr hres => ?_) hb
  obtain ⟨fs, g, hfs, hg, hle, hem, hvr, hve⟩ := brTable_emits hv
  obtain ⟨-, hpos, hh⟩ := pop_error (hve.symm.trans herr)
  rw [hh] at hfs hle hem
  refine ⟨?_, _, _, _, hem, rfl, hvr⟩
  refine .brTable (hem.read_op ht hres rfl fun r hr => ?_) hpos
    fun i l hl => brTable_read hfs hg hle hem ht hres hl
  -- the listed branches are pooled
  have hflat : ∃ j, flatIndex r.2 (.brTable t.brTables.length cases.length) = some j := by
    rcases List.mem_append.mp hr with hr | hr
    · obtain ⟨i, l, f, -, -, -, rfl⟩ := mem_caseRegs hr
      exact ⟨_, rfl⟩
    · unfold branchRegs at hr
      split at hr
      · exact absurd hr List.not_mem_nil
      · obtain rfl := List.mem_singleton.mp hr
        exact ⟨_, rfl⟩
  obtain ⟨j, hj⟩ := hflat
  unfold place
  rw [show v.ops[t.nextIp]? = _ from hem.ops_self]
  simp only [Option.map_some, hj]
  rintro ⟨⟩

theorem codes_jumps {j : Jump} (hb : Codes C ctx b) : Codes C ctx (.jump j b) := by
  cases j with
  | br l => exact codes_br hb
  | brTable cases default => exact codes_brTable hb
  | ret => exact codes_ret hb
  | unreachable =>
    refine codes_jump (fun ht _ _ hv _ hres => ?_) hb
    obtain rfl := Except.ok.inj hv
    exact ⟨.unreachable (terminate_read rfl ht hres), _, _, _, terminate_emits _ rfl, rfl, rfl⟩
  | throw tag =>
    refine codes_jump (fun ht _ _ hv _ hres => ?_) hb
    obtain rfl := Except.ok.inj hv
    exact ⟨.throw (terminate_read rfl ht hres), _, _, _, terminate_emits _ rfl, rfl, rfl⟩
  | throwRef =>
    refine codes_jump (fun ht _ _ hv _ hres => ?_) hb
    obtain rfl := Except.ok.inj hv
    exact ⟨.throwRef (terminate_read rfl ht hres), _, _, _, terminate_emits _ rfl, rfl, rfl⟩
  | returnCall c =>
    refine codes_jump (fun {t v E} ht _ _ hv _ hres => ?_) hb
    obtain rfl := Except.ok.inj hv
    have hem := returnCall_emits ctx t c
    exact ⟨.returnCall (hem.read_op ht hres rfl fun _ hr => absurd hr List.not_mem_nil), _, _, _,
      hem, rfl, rfl⟩

/-! ## Conditional branches -/

theorem codes_brIf (hb : Codes C ctx b) : Codes C ctx (.cond (.brIf l) b) := by
  intro t u E ht hroot hr hrun herr hres
  obtain ⟨v, hv, hk⟩ := bind_ok hrun
  obtain ⟨f, hf, hle, hem, hvr, hvh, hve⟩ := brIf_emits ht hr ((if_pos hr).symm.trans hv)
  obtain ⟨hverr, hresv, hs, hh, hc⟩ :=
    hb.next ht hroot hem (fusableCmpOf_condBranch _ _ _) hk herr hres
  obtain ⟨-, hpos, hpop⟩ := pop_error (hve.symm.trans hverr)
  rw [hpop] at hle hem hvh
  rw [hvr, hvh] at hc
  obtain ⟨e, hop, he⟩ := hem.read_branch ht hresv hf hle
    (fun ip e => by cases t.fusableCmp <;> rfl) (fun e s => flatIndex_condBranch _ _ _ s)
    fun e => fusableCmpOf_condBranch _ _ _
  exact ⟨hs, hh, .of_fused (.brIf hpos hop he hc)⟩

theorem codes_brOnNull (hb : Codes C ctx b) : Codes C ctx (.cond (.brOnNull l) b) := by
  intro t u E ht hroot hr hrun herr hres
  obtain ⟨v, hv, hk⟩ := bind_ok hrun
  obtain ⟨f, hf, hle, hem, hvr, hacc⟩ := brOnNull_emits hr ((if_pos hr).symm.trans hv)
  obtain ⟨hverr, hresv, hs, hh, hc⟩ := hb.next ht hroot hem rfl hk herr hres
  obtain ⟨hve, hvh⟩ := hacc hverr
  obtain ⟨-, hpos, hpop⟩ := pop_error hve
  rw [hpop] at hle hem hvh
  rw [hvr, hvh] at hc
  obtain ⟨e, hop, he⟩ := hem.read_branch (m := Op.brOnNull) ht hresv hf hle (fun _ _ => rfl)
    (fun _ _ => rfl) fun _ => rfl
  exact ⟨hs, hh, .of_unfused ht (hresv.back hem.unfused.ext ht.unfuse) (.brOnNull hpos hop he hc)⟩

theorem codes_brOnNonNull (hb : Codes C ctx b) : Codes C ctx (.cond (.brOnNonNull l) b) := by
  intro t u E ht hroot hr hrun herr hres
  obtain ⟨v, hv, hk⟩ := bind_ok hrun
  obtain ⟨f, hf, hle, hem, hvr, hacc⟩ := brOnNonNull_emits hr ((if_pos hr).symm.trans hv)
  obtain ⟨hverr, hresv, hs, hh, hc⟩ := hb.next ht hroot hem rfl hk herr hres
  rw [hvr, hacc hverr] at hc
  obtain ⟨e, hop, he⟩ := hem.read_branch (m := Op.brOnNonNull) ht hresv hf hle (fun _ _ => rfl)
    (fun _ _ => rfl) fun _ => rfl
  exact ⟨hs, hh, .of_unfused ht (hresv.back hem.unfused.ext ht.unfuse) (.brOnNonNull hop he hc)⟩

theorem codes_brOnCast {ty : IrHeap} {nullable fail : Bool} (hb : Codes C ctx b) :
    Codes C ctx (.cond (.brOnCast l ty nullable fail) b) := by
  intro t u E ht hroot hr hrun herr hres
  obtain ⟨v, hv, hk⟩ := bind_ok hrun
  obtain ⟨f, hf, hle, hem, hvr, hvh⟩ := brOnCast_emits ((if_pos hr).symm.trans hv)
  obtain ⟨hverr, hresv, hs, hh, hc⟩ := hb.next ht hroot hem rfl hk herr hres
  rw [hvr, hvh, hr] at hc
  have hregs : ∀ r ∈ branchRegs f l .single, f.kind ≠ .loop ∧ r = (l, .single) := by
    intro r hr
    unfold branchRegs at hr
    split at hr
    · exact absurd hr List.not_mem_nil
    · rename_i hk
      exact ⟨hk, List.mem_singleton.mp hr⟩
  obtain ⟨e, hpool, he⟩ := hem.read_edge (s := .single) (i := 0) ht hresv hf hle rfl rfl
    (fun hk => by unfold branchRegs; rw [if_neg hk]; exact List.mem_singleton_self _)
    fun r hr _ => ⟨(hregs r hr).1, congrArg Prod.fst (hregs r hr).2⟩
  have hop : C.ops[t.nextIp]? = some (.brOnCast ty t.brTables.length nullable fail) := by
    refine hem.read_op ht hresv rfl fun r _ => ?_
    unfold place
    rw [show v.ops[t.nextIp]? = _ from hem.ops_self]
    rintro ⟨⟩
  exact ⟨hs, hh, .of_unfused ht (hresv.back hem.unfused.ext ht.unfuse)
    (.brOnCast hop hpool he hc)⟩

theorem codes_conds {c : CondBr} (hb : Codes C ctx b) : Codes C ctx (.cond c b) := by
  cases c with
  | brIf l => exact codes_brIf hb
  | brOnNull l => exact codes_brOnNull hb
  | brOnNonNull l => exact codes_brOnNonNull hb
  | brOnCast l ty nullable fail => exact codes_brOnCast hb

/-! ## Blocks, loops and `try_table` -/

theorem landingPads_error {base : ℕ} {clauses : List HandlerClause} {recs : List HandlerRec}
    (h : landingPads ctx base clauses t = .ok (recs, u)) : u.error = t.error := by
  induction clauses generalizing t recs with
  | nil =>
    cases h
    rfl
  | cons c clauses ih =>
    obtain ⟨f, v, recs', -, -, -, hve, -, hrest, -⟩ := landingPads_cons h
    exact (ih hrest).trans hve

theorem endBlock_patched (f : CtrlFrame) (t : Translator) :
    (endBlock f t).nextIp = t.nextIp ∧ (endBlock f t).handlers = t.handlers := by
  have h := (patchElse_patched t f.elsePatch t.nextIp).trans
    (patchAll_patched f.endPatches _ t.nextIp)
  exact ⟨h.nextIp, h.handlers⟩

/-- The end of a reachable region: what lies behind its body, and the fate of its frame. -/
theorem region_end {r : Region} {d : List CtrlFrame} (hc : u.ctrl = f :: d) (hu : Tracked u)
    (hkind : f.kind = regionKind r) (hclauses : f.clauses = regionClauses r)
    (helse : f.elsePatch = none) (hentry : f.reachableOnEntry = true) (hend : u.doEnd ctx = .ok v)
    (herr : v.error = none) (hres : Resolves v E C) :
    u.error = none ∧ v.height = f.baseHeight + f.resultCount ∧
      (u.reachable = true → v.reachable = true) ∧ (r = .loop → v.reachable = u.reachable) ∧
      ∃ φ spans, Resolves { u with fusableCmp := none } (φ :: E) C ∧
        v.handlers = u.handlers ++ spans ∧
        RegionEnd C ctx (targets d E) f.baseHeight f.resultCount f.startIp r u.nextIp v.nextIp
          spans ∧
        (r ≠ .loop → φ.endIp = v.nextIp ∧ φ.live = v.reachable) := by
  unfold doEnd at hend
  rw [hc] at hend
  by_cases htry : ∃ catches, r = .tryTable catches
  · obtain ⟨catches, rfl⟩ := htry
    simp only [if_pos (show f.kind = .tryTable ∧ f.reachableOnEntry = true from ⟨hkind, hentry⟩)]
      at hend
    have hlive : v.reachable = (u.reachable || f.endTargeted) ∧
        v.height = f.baseHeight + f.resultCount ∧ v.error = u.error := by
      obtain ⟨w, x, recs, -, hwe, hpads, rfl⟩ := endTryTable_ok hend
      refine ⟨rfl, rfl, ?_⟩
      exact ((patchAll_patched (⟨u.nextIp, .single⟩ :: f.endPatches) x x.nextIp).error.trans
        (landingPads_error hpads)).trans hwe
    obtain ⟨hr, hh, he⟩ := hlive
    obtain ⟨hresu, hnext, recs, hhan, hop, hpads⟩ :=
      hres.endTryTable_back (φ := ⟨v.nextIp, v.nextIp, v.reachable⟩) hc hu hend helse hclauses rfl
        fun htg => by rw [hr, htg, Bool.or_true]
    refine ⟨he.symm.trans herr, hh, fun h => by rw [hr, h, Bool.true_or], nofun,
      ⟨v.nextIp, v.nextIp, v.reachable⟩, _, hresu, hhan, ?_, fun _ => ⟨rfl, rfl⟩⟩
    rw [hnext]
    exact .tryTable hop hpads
  · have hnot : ¬(f.kind = .tryTable ∧ f.reachableOnEntry = true) := by
      rintro ⟨hk, -⟩
      cases r with
      | block => rw [hkind] at hk; cases hk
      | loop => rw [hkind] at hk; cases hk
      | tryTable catches => exact htry ⟨catches, rfl⟩
    simp only [if_neg hnot] at hend
    obtain rfl := Except.ok.inj hend
    obtain ⟨hnext, hhan⟩ := endBlock_patched f { u with fusableCmp := none, ctrl := d }
    obtain ⟨-, he, hh, hr⟩ := endBlock_spec f { u with fusableCmp := none, ctrl := d }
    rw [helse, Option.isSome_none, Bool.or_false] at hr
    have hres' := fun (live : Bool) hlive =>
      hres.endBlock_back (φ := ⟨u.nextIp, u.nextIp, live⟩) hc hu rfl (fun h => absurd helse h) hlive
    rw [hnext, hhan]
    cases r with
    | tryTable catches => exact absurd ⟨catches, rfl⟩ htry
    | block =>
      rw [if_neg (by rw [hkind]; decide)] at hr
      refine ⟨he.symm.trans herr, hh, fun h => ?_, nofun,
        ⟨u.nextIp, u.nextIp, _⟩, [], hres' _ fun htg => ?_, (List.append_nil _).symm, .block,
        fun _ => ⟨rfl, rfl⟩⟩
      · refine hr.trans ?_
        show (u.reachable || f.endTargeted) = true
        rw [h, Bool.true_or]
      · refine hr.trans ?_
        show (u.reachable || f.endTargeted) = true
        rw [htg, Bool.or_true]
    | loop =>
      rw [if_pos (show f.kind = .loop from hkind)] at hr
      exact ⟨he.symm.trans herr, hh, fun h => hr.trans h, fun _ => hr,
        ⟨u.nextIp, u.nextIp, true⟩, [], hres' _ fun _ => rfl, (List.append_nil _).symm, .loop,
        fun h => absurd rfl h⟩

/-- A frame opened in front of an open comparison is that of the settled code. -/
theorem Opens.unfused (h : Opens t u f) : Opens { t with fusableCmp := none } u f :=
  ⟨h.ops, h.brTables, h.bigMemargs, h.handlers, h.ctrl, h.fuse, h.reachable, h.height, h.error,
    h.endPatches⟩

theorem codes_region {r : Region} {k : Body} (hb : Codes C ctx b) (hk : Codes C ctx k) :
    Codes C ctx (.region r bt b k) := by
  intro t u E ht hroot hr hrun herr hres
  obtain ⟨t1, f, hopen, ho, hkind, hps, hrs, hstart, helse, hentry, -, hclauses⟩ :=
    region_opens ctx t r bt
  rw [Body.flatten, visitAll_cons_ok hopen, visitAll_append] at hrun
  obtain ⟨t2, hbody, hrun⟩ := bind_ok hrun
  obtain ⟨t3, hend, hrest⟩ := bind_ok hrun
  have hnone : ∀ i, f.elsePatch ≠ some i := fun i hi => by rw [helse] at hi; cases hi
  have hin := ho.unfused.inside (Extends.refl _) fun i hi => absurd hi (hnone i)
  have ht1 := ho.tracked ht fun i hi => absurd hi (hnone i)
  obtain ⟨h12, ht2⟩ := visitAll_extends b ht1 hbody
  obtain ⟨f', d', hin2, hf, hd⟩ := hin.step ht1 h12
  obtain ⟨h13, ht3, hf3⟩ := hin2.doEnd ht.unfuse ht2 hend
  obtain ⟨h3u, -⟩ := visitAll_extends k ht3 hrest
  have hres3 := hres.back h3u.unfuse ht3
  obtain ⟨hs3, hh3, hc3⟩ := hk.after ht3 (h13.rooted hroot) hf3 hrest herr hres
  obtain ⟨he2, hheight, hlive, hloop, φ, spans, hres2, hh2, hregion, hφ⟩ :=
    region_end hin2.ctrl ht2 (by rw [hf.same]; exact hkind) (by rw [hf.same]; exact hclauses)
      (by rw [hf.same]; exact helse) (by rw [hf.same]; exact hentry.trans hr) hend
      (h3u.error herr) hres3
  obtain ⟨-, hle, hbase⟩ := ho.error (h12.error he2)
  have hr1 : t1.reachable = true := ho.reachable.trans hr
  have hroot1 : Rooted t1.ctrl := by
    rw [ho.ctrl]
    exact hroot.cons f
  obtain ⟨hs2, hh1, hc2⟩ := hb ht1 hroot1 hr1 hbody he2 hres2
  have hn1 : t1.nextIp = t.nextIp := congrArg List.length ho.ops
  rw [ho.fuse, ho.ctrl, ho.height, settled_of_none ho.fuse,
    show t1.ops.length = t.nextIp from hn1] at hc2
  -- the label of the region is that of its frame
  have hlabel : frameTarget f φ
      = regionTarget ctx r bt t.height t.nextIp t3.nextIp t3.reachable := by
    unfold frameTarget regionTarget CtrlFrame.labelArity
    rw [hkind, hps, hrs, hbase, hstart, hps]
    by_cases hl : r = .loop
    · subst hl
      rfl
    · have hkl : regionKind r ≠ .loop := by
        cases r with
        | loop => exact absurd rfl hl
        | block => decide
        | tryTable catches => rintro ⟨⟩
      rw [if_neg hkl, if_neg hkl, if_neg hl, (hφ hl).1, (hφ hl).2]
  have hbase' : f'.baseHeight = t.height - (blockArity ctx bt).1 := by
    rw [hf.same, ← hps]
    exact hbase
  have hrs' : f'.resultCount = (blockArity ctx bt).2 := by
    rw [hf.same]
    exact hrs
  have hstart' : f'.startIp = t.nextIp := by
    rw [hf.same]
    exact hstart
  rw [targets_frames hd, hbase', hrs', hstart'] at hregion
  rw [h13.targets_eq, hheight, hbase', hrs'] at hc3
  refine ⟨hs2 ++ spans ++ hs3, ?_, .of_unfused ht (hres3.back h13 ht.unfuse) ?_⟩
  · rw [hh3, hh2, hh1, ho.handlers, List.append_assoc, List.append_assoc, List.append_assoc]
  · refine .region (hps ▸ hle) ?_ hlive hloop hregion hc3
    rw [← hlabel]
    exact hc2

/-! ## Conditionals -/

/-- The branch of an `if`, read off the code. -/
theorem if_read {φ : Fate} {n : ℕ} {cmp : Option CmpKind} (ht : Tracked t)
    (hem : Emits t v n (condBranch cmp true ⟨0, 0, 0⟩) [] []) (ho : Opens v u f)
    (helse : f.elsePatch = some n) (hres : Resolves u (φ :: E) C) :
    C.ops[n]? = some (condBranch cmp true ⟨φ.elseIp, 0, 0⟩) := by
  have hset : u.settled = n + 1 := by
    rw [settled_of_none ho.fuse, ho.ops]
    exact hem.length_ops
  obtain ⟨y, hy, hs⟩ := hres.read (.inline n) (.inl (condBranch cmp true ⟨0, 0, 0⟩))
    (by show ¬u.settled ≤ n; omega)
    (by show Option.map _ _ = _; rw [ho.ops, hem.ops_self]; rfl)
  obtain ⟨o, hop, rfl⟩ := Option.map_eq_some_iff.mp hy
  have hself : Pending u.ops u.ctrl (φ :: E) (.inline n) φ.elseIp := by
    rw [ho.ctrl]
    exact pending_cons.mpr (.inl (.else_ helse))
  rcases hs with ⟨ip, hp, hw⟩ | ⟨hno, -⟩
  · obtain rfl : ip = φ.elseIp := by
      rw [ho.ctrl] at hp
      rcases pending_cons.mp hp with hwait | ⟨d, g, ψ, hg, -, hwait⟩
      · rcases hwait with ⟨hpm, -⟩ | -
        · rw [ho.endPatches] at hpm
          exact absurd hpm List.not_mem_nil
        · rfl
      · -- an outer frame waits for older places only
        rw [show v.ctrl = t.ctrl from hem.ctrl] at hg
        have hm : g ∈ t.ctrl := List.mem_of_getElem? hg
        have hle := hem.settled_le
        rcases hwait with ⟨hpm, hpl⟩ | he
        · obtain ⟨hlt, -⟩ := ht.endPatches g hm _ hpm
          rw [place_op hpl] at hlt
          omega
        · obtain ⟨hlt, -⟩ := ht.elsePatch g hm _ he
          omega
    rw [hop, Sum.inl.inj hw]
    cases cmp <;> rfl
  · exact absurd hself (hno _)

/-- A reachable `if`, up to its `then` part. -/
structure IfOpened (ctx : CompileCtx) (t v u : Translator) (f : CtrlFrame) (bt : BlockType) :
    Prop where
  visit : t.visit ctx (.if_ bt) = .ok u
  emits : Emits t v t.settled (condBranch t.fusableCmp true ⟨0, 0, 0⟩) [] []
  opens : Opens v u f
  height : v.height = (t.pop 1).height
  error : v.error = (t.pop 1).error
  reachable : v.reachable = true
  kind : f.kind = .if_
  params : f.paramCount = (blockArity ctx bt).1
  results : f.resultCount = (blockArity ctx bt).2
  elsePatch : f.elsePatch = some t.settled
  entry : f.reachableOnEntry = true
  tracked : Tracked u
  inside : Inside t u f v.ctrl

theorem if_opened (ctx : CompileCtx) (ht : Tracked t) (hr : t.reachable = true) (bt : BlockType) :
    ∃ v u f, IfOpened ctx t v u f bt := by
  obtain ⟨v, u, f, hvisit, hem, ho, hh, he, hvr, hkind, hps, hrs, helse, hentry, -⟩ :=
    if_opens ctx ht hr bt
  have hlt : t.settled < v.ops.length := by
    rw [hem.length_ops]
    exact Nat.lt_succ_self _
  have hpl : place v.ops ⟨t.settled, .single⟩ = some (.inline t.settled) := by
    unfold place
    rw [show v.ops[t.settled]? = _ from hem.ops_self]
    simp only [Option.map_some, flatIndex_condBranch]
  have hidx : ∀ i, f.elsePatch = some i → t.settled = i :=
    fun i hi => Option.some.inj (helse.symm.trans hi)
  refine ⟨v, u, f, hvisit, hem, ho, hh, he, hvr, hkind, hps, hrs, helse, hentry, ?_,
    ho.inside hem.ext fun i hi => le_of_eq (hidx i hi)⟩
  refine ho.tracked (hem.tracked ht) fun i hi => ?_
  obtain rfl := hidx i hi
  exact ⟨hlt, hpl⟩

section If

variable {bt : BlockType} {f : CtrlFrame} {w : Translator}

/-- The height of the `then` part and its frame, once no error is latched. -/
theorem IfOpened.heights (h : IfOpened ctx t v u f bt) (he : u.error = none) :
    (blockArity ctx bt).1 + 1 ≤ t.height ∧ u.height = t.height - 1 ∧
      f.baseHeight = t.height - 1 - (blockArity ctx bt).1 := by
  obtain ⟨hve, hle, hbase⟩ := h.opens.error he
  obtain ⟨-, hpos, hpop⟩ := pop_error (h.error.symm.trans hve)
  rw [h.height, hpop] at hle hbase
  rw [h.params] at hle hbase
  refine ⟨by omega, ?_, hbase⟩
  rw [h.opens.height, h.height, hpop]

/-- The label of the `if`. -/
theorem IfOpened.label (h : IfOpened ctx t v u f bt) (he : u.error = none) (φ : Fate) :
    targets u.ctrl (φ :: E)
      = ⟨φ.endIp, t.height - 1 - (blockArity ctx bt).1, (blockArity ctx bt).2, φ.live⟩
        :: targets t.ctrl E := by
  rw [h.opens.ctrl, show v.ctrl = t.ctrl from h.emits.ctrl]
  have hk : f.kind ≠ .loop := by
    rw [h.kind]
    decide
  show frameTarget f φ :: _ = _
  unfold frameTarget CtrlFrame.labelArity
  rw [if_neg hk, if_neg hk, h.results, (h.heights he).2.2]
  rfl

theorem IfOpened.nextIp (h : IfOpened ctx t v u f bt) :
    u.settled = t.settled + 1 := by
  rw [settled_of_none h.opens.fuse, h.opens.ops]
  exact h.emits.length_ops

theorem IfOpened.rooted (h : IfOpened ctx t v u f bt) (hroot : Rooted t.ctrl) :
    Rooted u.ctrl := by
  rw [h.opens.ctrl]
  exact (h.emits.ext.rooted hroot).cons f

/-- The end of a conditional: the address behind it is where its last part ends. -/
theorem if_end {d : List CtrlFrame} (hkind : f.kind = .if_)
    (hc : u.ctrl = f :: d) (hend : u.doEnd ctx = .ok w) (herr : w.error = none) :
    u.error = none ∧ w.height = f.baseHeight + f.resultCount ∧
      w.reachable = (u.reachable || f.endTargeted || f.elsePatch.isSome) ∧
      w.nextIp = u.nextIp ∧ w.handlers = u.handlers ∧
      w = endBlock f { u with fusableCmp := none, ctrl := d } := by
  unfold doEnd at hend
  rw [hc] at hend
  have hnot : ¬(f.kind = .tryTable ∧ f.reachableOnEntry = true) := by
    rw [hkind]
    rintro ⟨⟨⟩, -⟩
  simp only [if_neg hnot] at hend
  obtain rfl := Except.ok.inj hend
  obtain ⟨hnext, hhan⟩ := endBlock_patched f { u with fusableCmp := none, ctrl := d }
  obtain ⟨-, he, hh, hr⟩ := endBlock_spec f { u with fusableCmp := none, ctrl := d }
  rw [if_neg (by rw [hkind]; decide)] at hr
  exact ⟨he.symm.trans herr, hh, hr, hnext, hhan, rfl⟩

end If

theorem codes_ifThen {k : Body} (hb : Codes C ctx b) (hk : Codes C ctx k) :
    Codes C ctx (.ifThen bt b k) := by
  intro t u E ht hroot hr hrun herr hres
  obtain ⟨v, t1, f, hif⟩ := if_opened ctx ht hr bt
  rw [Body.flatten, visitAll_cons_ok hif.visit, visitAll_append] at hrun
  obtain ⟨t2, hbody, hrun⟩ := bind_ok hrun
  obtain ⟨t3, hend, hrest⟩ := bind_ok hrun
  obtain ⟨h12, ht2⟩ := visitAll_extends b hif.tracked hbody
  obtain ⟨f', d', hin2, hf, -⟩ := hif.inside.step hif.tracked h12
  obtain ⟨h13, ht3, hf3⟩ := hin2.doEnd ht ht2 hend
  obtain ⟨h3u, -⟩ := visitAll_extends k ht3 hrest
  have hres3 := hres.back h3u.unfuse ht3
  obtain ⟨he2, hheight, hlive, hnext, hhan, hblock⟩ :=
    if_end (by rw [hf.same]; exact hif.kind) hin2.ctrl hend (h3u.error herr)
  have he1 := h12.error he2
  obtain ⟨hps, hh1, hbase⟩ := hif.heights he1
  -- the `if` itself branches to the end, so the end is reachable
  have hel : f'.elsePatch = some t.settled := by
    rw [hf.same]
    exact hif.elsePatch
  have hr3 : t3.reachable = true := by
    rw [hlive, hel, Option.isSome_some, Bool.or_true]
  obtain ⟨hs3, hh3, hc3⟩ := hk.after ht3 (h13.rooted hroot) hf3 hrest herr hres
  have hres2 := (hblock ▸ hres3).endBlock_back (φ := ⟨t2.nextIp, t2.nextIp, true⟩) hin2.ctrl ht2 rfl
    (fun _ => rfl) fun _ => rfl
  obtain ⟨hs2, hh2, hc2⟩ :=
    hb hif.tracked (hif.rooted hroot) (hif.opens.reachable.trans hif.reachable) hbody he2 hres2
  rw [hif.opens.fuse, hif.label he1, hh1, hif.nextIp] at hc2
  have hop := if_read ht hif.emits hif.opens hif.elsePatch (hres2.back h12.unfuse hif.tracked)
  have hbase' : f'.baseHeight = t.height - 1 - (blockArity ctx bt).1 := by
    rw [hf.same]
    exact hbase
  have hrs' : f'.resultCount = (blockArity ctx bt).2 := by
    rw [hf.same]
    exact hif.results
  rw [h13.targets_eq, hheight, hbase', hrs', hr3, hnext] at hc3
  refine ⟨hs2 ++ hs3, ?_, .of_fused (.ifThen hps hop hc2 hc3)⟩
  rw [hh3, hhan, hh2, hif.opens.handlers, hif.emits.handlers, List.append_assoc]

/-- The `else` of a reachable `if`: the `then` part, if its end is reachable, branches over the
`else` part, and the `if` itself branches to it. -/
theorem else_resolves {d : List CtrlFrame} {φ : Fate} (hc : t.ctrl = f :: d) (ht : Tracked t)
    (hentry : f.reachableOnEntry = true) (helse : t.doElse = .ok u) (hφ : φ.elseIp = u.nextIp)
    (hres : Resolves u (φ :: E) C) :
    Resolves { t with fusableCmp := none } (φ :: E) C ∧ u.reachable = true ∧
      u.fusableCmp = none ∧ u.height = f.baseHeight + f.paramCount ∧ u.error = t.error ∧
      u.handlers = t.handlers ∧
      (t.reachable = true → u.nextIp = t.nextIp + 1 ∧ φ.live = true ∧
        C.ops[t.nextIp]? = some (.br ⟨φ.endIp, f.resultCount, 0⟩)) ∧
      (t.reachable = false → u.nextIp = t.nextIp) := by
  obtain ⟨v, g, hvc, hge, hvf, hve, hcase, rfl⟩ := doElse_ok hc helse
  have hpat := patchElse_patched v f.elsePatch v.nextIp
  have hnext : φ.elseIp = v.nextIp := hφ.trans hpat.nextIp
  have hvt : Tracked v := by
    rcases hcase with ⟨-, -, hem⟩ | ⟨-, -, rfl⟩
    · exact hem.tracked ht.unfuse
    · exact ht.unfuse
  have hresv : Resolves v (φ :: E) C := by
    rw [← hge, ← hnext] at hres
    exact hres.patchElse_back hvc hvt
  rcases hcase with ⟨hr, -, hem⟩ | ⟨hr, -, rfl⟩
  · refine ⟨hresv.back hem.ext ht.unfuse, hentry, hpat.fusableCmp.trans hvf, rfl,
      hpat.error.trans hve, hpat.handlers.trans hem.handlers, fun _ => ?_, fun h => ?_⟩
    · obtain ⟨hop, hlive⟩ := hem.read_listed (m := Op.br) (f := f) (φ := φ) ht.unfuse hresv
        (by show t.ctrl[0]? = _; rw [hc]; rfl) rfl (fun _ _ => rfl) (fun _ _ => rfl) fun _ => rfl
      exact ⟨hpat.nextIp.trans hem.length_ops, hlive, hop⟩
    · rw [hr] at h
      cases h
  · refine ⟨hresv, hentry, hpat.fusableCmp.trans hvf, rfl, hpat.error.trans hve, hpat.handlers,
      fun h => ?_, fun _ => hpat.nextIp⟩
    rw [hr] at h
    cases h

theorem codes_ifElse {e k : Body} (hb : Codes C ctx b) (he : Codes C ctx e) (hk : Codes C ctx k) :
    Codes C ctx (.ifElse bt b e k) := by
  intro t u E ht hroot hr hrun herr hres
  obtain ⟨v, t1, f, hif⟩ := if_opened ctx ht hr bt
  rw [Body.flatten, visitAll_cons_ok hif.visit, visitAll_append] at hrun
  obtain ⟨t2, hthen, hrun⟩ := bind_ok hrun
  obtain ⟨t3, helse, hrun⟩ := bind_ok hrun
  rw [visitAll_append] at hrun
  obtain ⟨t4, hrest', hrun⟩ := bind_ok hrun
  obtain ⟨t5, hend, hrest⟩ := bind_ok hrun
  obtain ⟨h12, ht2⟩ := visitAll_extends b hif.tracked hthen
  obtain ⟨f', d', hin2, hf, hd⟩ := hif.inside.step hif.tracked h12
  obtain ⟨g, hin3, ht3⟩ := hin2.doElse ht2 helse
  obtain ⟨h34, ht4⟩ := visitAll_extends e ht3 hrest'
  obtain ⟨g', d'', hin4, hg, -⟩ := hin3.step ht3 h34
  obtain ⟨h15, ht5, hf5⟩ := hin4.doEnd ht ht4 hend
  obtain ⟨h5u, -⟩ := visitAll_extends k ht5 hrest
  have hres5 := hres.back h5u.unfuse ht5
  -- the frame of the `else` part is that of the `then` part, but for its branches
  have hsame : g.kind = f'.kind ∧ g.baseHeight = f'.baseHeight ∧ g.paramCount = f'.paramCount ∧
      g.resultCount = f'.resultCount ∧ g.elsePatch = none := by
    obtain ⟨w, g₀, hwc, -, -, -, hcase, hu⟩ := doElse_ok hin2.ctrl helse
    have hgc : t3.ctrl = { g₀ with elsePatch := none } :: d' := by rw [hu]
    obtain ⟨rfl, -⟩ := List.cons.inj (hin3.ctrl.symm.trans hgc)
    rcases hcase with ⟨-, rfl, -⟩ | ⟨-, rfl, -⟩
    · exact ⟨rfl, rfl, rfl, rfl, rfl⟩
    · exact ⟨rfl, rfl, rfl, rfl, rfl⟩
  obtain ⟨hgk, hgb, hgp, hgr, hge⟩ := hsame
  have hfk : f'.kind = .if_ := by rw [hf.same]; exact hif.kind
  have hfb : f'.baseHeight = f.baseHeight := by rw [hf.same]
  have hfp : f'.paramCount = (blockArity ctx bt).1 := by rw [hf.same]; exact hif.params
  have hfr : f'.resultCount = (blockArity ctx bt).2 := by rw [hf.same]; exact hif.results
  have hgk' : g'.kind = .if_ := by rw [hg.same]; exact hgk.trans hfk
  have hge' : g'.elsePatch = none := by rw [hg.same]; exact hge
  obtain ⟨he4, hheight, hlive, hnext, hhan, hblock⟩ :=
    if_end hgk' hin4.ctrl hend (h5u.error herr)
  rw [hge', Option.isSome_none, Bool.or_false] at hlive
  obtain ⟨hs5, hh5, hc5⟩ := hk.after ht5 (h15.rooted hroot) hf5 hrest herr hres
  have hres4 := (hblock ▸ hres5).endBlock_back (φ := ⟨t4.nextIp, t3.nextIp, t5.reachable⟩) hin4.ctrl
    ht4 rfl (fun h => absurd hge' h) fun htg => by rw [hlive, htg, Bool.or_true]
  have hres3 := hres4.back h34.unfuse ht3
  obtain ⟨hres2, hr3, hf3, hh3, he3, hhan3, hjump, hskip⟩ :=
    else_resolves hin2.ctrl ht2 (by rw [hf.same]; exact hif.entry) helse rfl hres3
  have he2 : t2.error = none := he3.symm.trans (h34.error he4)
  have he1 := h12.error he2
  obtain ⟨hps, hh1, hbase⟩ := hif.heights he1
  obtain ⟨hs2, hh2, hc2⟩ :=
    hb hif.tracked (hif.rooted hroot) (hif.opens.reachable.trans hif.reachable) hthen he2 hres2
  obtain ⟨hs4, hh4, hc4⟩ := he ht3 (by rw [hin3.ctrl]; exact (hin3.ext.rooted hroot).cons g) hr3
    hrest' he4 hres4
  have hlabel : targets t3.ctrl (⟨t4.nextIp, t3.nextIp, t5.reachable⟩ :: E)
      = targets t1.ctrl (⟨t4.nextIp, t3.nextIp, t5.reachable⟩ :: E) := by
    rw [hin3.ctrl, hif.opens.ctrl]
    show frameTarget g _ :: targets d' E = frameTarget f _ :: targets v.ctrl E
    rw [targets_frames hd]
    congr 1
    unfold frameTarget CtrlFrame.labelArity
    rw [hgk, hgb, hgr, hgp, hfk, hfb, hfr, hfp, hif.kind, hif.results, hif.params]
    rfl
  rw [hif.opens.fuse, hif.label he1, hh1, hif.nextIp] at hc2
  rw [hf3, hlabel, hif.label he1, settled_of_none hf3, hh3, hfb, hfp, hbase,
    show t.height - 1 - (blockArity ctx bt).1 + (blockArity ctx bt).1
      = t.height - 1 by omega] at hc4
  have hop := if_read ht hif.emits hif.opens hif.elsePatch (hres2.back h12.unfuse hif.tracked)
  have hbase' : g'.baseHeight = t.height - 1 - (blockArity ctx bt).1 := by
    rw [hg.same]
    exact (hgb.trans hfb).trans hbase
  have hrs' : g'.resultCount = (blockArity ctx bt).2 := by
    rw [hg.same]
    exact hgr.trans hfr
  rw [h15.targets_eq, hheight, hbase', hrs', hnext] at hc5
  rw [hfr] at hjump
  refine ⟨hs2 ++ hs4 ++ hs5, ?_, .of_fused (.ifElse hps hop hc2 hjump hskip hc4 (fun h => ?_) hc5)⟩
  · rw [hh5, hhan, hh4, hhan3, hh2, hif.opens.handlers, hif.emits.handlers]
    simp only [List.append_assoc]
  · rw [hlive, h, Bool.true_or]

/-! ## Whole functions -/

/-- Every sequence is laid out in the code its translation resolves to. -/
theorem codes (C : CompiledFunc) (ctx : CompileCtx) (b : Body) : Codes C ctx b := by
  induction b with
  | done => exact codes_done
  | plain p k ih => exact codes_plain ih
  | region r bt b k ihb ihk => exact codes_region ihb ihk
  | ifElse bt t e k iht ihe ihk => exact codes_ifElse iht ihe ihk
  | ifThen bt t k iht ihk => exact codes_ifThen iht ihk
  | jump j k ih => exact codes_jumps ih
  | cond c k ih => exact codes_conds ih
  | call c k ih => exact codes_call ih

end Sequence

/-- A function that is finished waits for nothing. -/
theorem Resolves.finished {t : Translator} {C : CompiledFunc} (hc : t.ctrl = [])
    (hops : C.ops = t.ops) (hpool : C.brTables = t.brTables) (hhan : C.handlers = t.handlers)
    (hmem : C.bigMemargs = t.bigMemargs) : Resolves t [] C := by
  refine ⟨by rw [hc]; rfl, fun a x _ hx => ⟨x, by rw [hops, hpool]; exact hx, .inr ⟨?_, rfl⟩⟩, ?_,
    by rw [hhan], by rw [hmem]⟩
  · rintro ip ⟨d, f, φ, hf, -⟩
    rw [hc] at hf
    cases hf
  · intro d f φ hf
    rw [hc] at hf
    cases hf

end Translator

open Translator in
/-- **Every compiled function holds its body.**  The code of a function the translator finishes is
laid out as `FuncCode` says. -/
theorem translateFunction_code {ctx : CompileCtx} {used typeIdx : ℕ} {locals : List (ℕ × IrVal)}
    {b : Body} {C : CompiledFunc}
    (h : translateFunction ctx used typeIdx locals b.operators = .ok C) : FuncCode C ctx b := by
  unfold translateFunction at h
  obtain ⟨localTypes, -, h⟩ := bind_ok h
  obtain ⟨t, hrun, h⟩ := bind_ok h
  split at h
  · cases h
  rename_i herr
  rw [Body.operators, visitAll_append] at hrun
  obtain ⟨t1, hbody, hlast⟩ := bind_ok hrun
  obtain ⟨t', hend, htt⟩ := bind_ok hlast
  obtain rfl := Except.ok.inj htt
  obtain ⟨hext, ht1⟩ := visitAll_extends b (tracked_new _) hbody
  -- the function's own frame is still the only one
  rcases hc : t1.ctrl with _ | ⟨f, d⟩
  · have hlen := hext.frames.length_eq
    rw [hc] at hlen
    cases hlen
  have hframes := hext.frames
  rw [hc] at hframes
  obtain ⟨hf, hd⟩ := List.forall₂_cons.mp hframes
  obtain rfl := List.forall₂_nil_left_iff.mp hd
  have hkind : f.kind = .block := by
    rw [hf.same]
    rfl
  have helse : f.elsePatch = none := by
    rw [hf.same]
    rfl
  have hend : t1.doEnd ctx = .ok t' := hend
  unfold doEnd at hend
  rw [hc] at hend
  simp only [if_neg (show ¬(f.kind = .tryTable ∧ f.reachableOnEntry = true) by
    rw [hkind]; rintro ⟨⟨⟩, -⟩)] at hend
  obtain rfl := Except.ok.inj hend
  obtain ⟨hnext, hhan⟩ := endBlock_patched f { t1 with fusableCmp := none, ctrl := [] }
  obtain ⟨hctrl, he, -, -⟩ := endBlock_spec f { t1 with fusableCmp := none, ctrl := [] }
  obtain rfl := Except.ok.inj h
  generalize hC : CompiledFunc.mk _ _ _ _ _ _ _ _ _ = C
  have hres : Resolves { t1 with fusableCmp := none } [⟨t1.nextIp, t1.nextIp, true⟩] C :=
    (Resolves.finished (C := C) hctrl (hC ▸ rfl) (hC ▸ rfl) (hC ▸ rfl) (hC ▸ rfl)).endBlock_back
      hc ht1 rfl
      (fun h => absurd helse h) fun _ => rfl
  obtain ⟨hs, hh, hcode⟩ := codes C ctx b (tracked_new _)
    ⟨funcFrame (ctx.sig typeIdx).2.length, rfl, nofun⟩ rfl hbody (he.symm.trans herr) hres
  have hhs : C.handlers = hs := by
    rw [← hC]
    exact hhan.trans (hh.trans (List.nil_append _))
  have hlen : C.ops.length = t1.nextIp := by
    rw [← hC]
    exact hnext
  have hres : C.nResults = (ctx.sig typeIdx).2.length := by
    rw [← hC]
    rfl
  refine ⟨t1.reachable, ?_⟩
  rw [hhs, hlen, hres]
  exact hcode

end SubmilliWasm
