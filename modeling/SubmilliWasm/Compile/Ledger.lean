/-
# The ledger of the pass

Every operator keeps the ledger, reachable or not: what it writes was listed, and what it lists is
new.  A pass that has closed its last frame lists nothing, so each forward edge has been written
exactly once, and no other edge ever.
-/
import SubmilliWasm.Compile.Edges

namespace SubmilliWasm

open Fallible

namespace Translator

/-! ## What the open frames list -/

/-- The places the open frames wait to write. -/
def listed (t : Translator) : List Place :=
  (t.ctrl.flatMap framePatches).filterMap (written t.ops)

theorem framePatches_addPatch (f : CtrlFrame) (p : Patch) :
    framePatches (f.addPatch p) = framePatches f ++ [p] :=
  (List.append_assoc ..).symm

variable {c : List CtrlFrame} {t : Translator}

theorem flatMap_addPatch {i : ℕ} (hi : i < c.length) (p : Patch) :
    ((c.modify i (·.addPatch p)).flatMap framePatches).Perm (p :: c.flatMap framePatches) := by
  induction c generalizing i with
  | nil => exact absurd hi (Nat.not_lt_zero i)
  | cons f c ih =>
    rcases i with _ | i
    · show (framePatches (f.addPatch p) ++ _).Perm _
      rw [framePatches_addPatch, List.append_assoc]
      exact List.perm_middle
    · have hrest := ih (Nat.lt_of_succ_lt_succ hi)
      show (framePatches f ++ _).Perm (p :: (framePatches f ++ _))
      exact (hrest.append_left _).trans List.perm_middle

theorem flatMap_addPatches {regs : List (ℕ × PatchSlot)} {n : ℕ} (h : ∀ r ∈ regs, r.1 < c.length) :
    ((regs.foldl (fun c r => c.modify r.1 (·.addPatch ⟨n, r.2⟩)) c).flatMap framePatches).Perm
      (regs.map (fun r => ⟨n, r.2⟩) ++ c.flatMap framePatches) := by
  induction regs generalizing c with
  | nil => exact .refl _
  | cons r regs ih =>
    have hlen : (c.modify r.1 (·.addPatch ⟨n, r.2⟩)).length = c.length := List.length_modify ..
    have hrest := ih (c := c.modify r.1 (·.addPatch ⟨n, r.2⟩)) fun r' hr' => by
      rw [hlen]
      exact h r' (List.mem_cons_of_mem _ hr')
    refine hrest.trans ?_
    refine ((flatMap_addPatch (h r List.mem_cons_self) _).append_left _).trans ?_
    exact List.perm_middle

/-- The ops of the listed branches are settled. -/
theorem Tracked.patch_lt (ht : Tracked t) {f : CtrlFrame} (hf : f ∈ t.ctrl) {p : Patch}
    (hp : p ∈ framePatches f) : p.op < t.settled := by
  rcases List.mem_append.mp hp with hp | hp
  · obtain ⟨i, hi, rfl⟩ := List.mem_map.mp hp
    exact (ht.elsePatch f hf i (Option.mem_toList.mp hi)).1
  · exact (ht.endPatches f hf p hp).1

/-- Patches of ops that are kept write where they did. -/
theorem filterMap_written {ops ops' : List Op} {ps : List Patch}
    (h : ∀ p ∈ ps, ops'[p.op]? = ops[p.op]?) :
    ps.filterMap (written ops') = ps.filterMap (written ops) :=
  List.filterMap_congr fun p hp => written_congr (h p hp)

theorem written_patchAll (ps : List Patch) (t : Translator) (ip : ℕ) :
    written (t.patchAll ps ip).ops = written t.ops := by
  induction ps generalizing t with
  | nil => rfl
  | cons p ps ih =>
    exact (ih _).trans (written_patchIp t p.op p.slot ip)

theorem Emits.listed {u : Translator} {n : ℕ} {op : Op} {edges : List BranchTarget}
    {regs : List (ℕ × PatchSlot)} (hem : Emits t u n op edges regs) (ht : Tracked t)
    (hregs : ∀ r ∈ regs, r.1 < t.ctrl.length) :
    (listed u).Perm (listedBy n op regs ++ Translator.listed t) := by
  have hnew : (regs.map fun r => (⟨n, r.2⟩ : Patch)).filterMap (written u.ops)
      = listedBy n op regs := by
    rw [List.filterMap_map]
    refine List.filterMap_congr fun r _ => ?_
    show u.ops[n]?.bind _ = _
    rw [hem.ops_self]
    rfl
  have hold : (t.ctrl.flatMap framePatches).filterMap (written u.ops) = Translator.listed t := by
    refine filterMap_written fun p hp => hem.ops_lt ?_
    obtain ⟨f, hf, hpf⟩ := List.mem_flatMap.mp hp
    exact (ht.patch_lt hf hpf).trans_le hem.settled_le
  rw [← hnew, ← hold, ← List.filterMap_append]
  unfold Translator.listed
  rw [hem.ctrl]
  exact (flatMap_addPatches hregs).filterMap _

/-- A frame keeps its kind, its own branch and its start. -/
theorem frame_origin {u : Translator} {c' : List CtrlFrame} (h : List.Forall₂ (FrameExt t u) c c')
    {f' : CtrlFrame} (hf' : f' ∈ c') :
    ∃ f ∈ c, f'.kind = f.kind ∧ f'.elsePatch = f.elsePatch ∧ f'.startIp = f.startIp := by
  induction h with
  | nil => exact absurd hf' List.not_mem_nil
  | @cons f g c c' hext _ ih =>
    rcases List.mem_cons.mp hf' with rfl | hf'
    · have hsame := hext.same
      unfold Same at hsame
      refine ⟨f, List.mem_cons_self, ?_⟩
      rw [hsame]
      exact ⟨rfl, rfl, rfl⟩
    · obtain ⟨f, hf, hkeep⟩ := ih hf'
      exact ⟨f, List.mem_cons_of_mem _ hf, hkeep⟩

/-- A state of the pass with its books: what the open frames list, and what has been written. -/
structure Booked (t : Translator) (past : List Place) : Prop where
  noted : Noted t
  tracked : Tracked t
  bare : ∀ f ∈ t.ctrl, f.kind = .tryTable → f.elsePatch = none
  ledger : Ledger t (listed t) past

section Steps

variable {ctx : CompileCtx} {t u : Translator} {past : List Place}

theorem Booked.adds {k m : ℕ} (h : Booked t past) (ha : Adds t u k m) (hn : Noted u) :
    Booked u past := by
  obtain ⟨n, op, edges, regs, hem, hl, hregs, -, -⟩ := ha
  refine ⟨hn, hem.tracked h.tracked, fun f' hf' hk => ?_, ?_⟩
  · obtain ⟨f, hf, hkind, helse, -⟩ := frame_origin hem.frames hf'
    rw [helse]
    exact h.bare f hf (hkind.symm.trans hk)
  · exact (h.ledger.emit hem hl h.tracked).perm (hem.listed h.tracked hregs)

variable {f : CtrlFrame} {d : List CtrlFrame}

theorem listed_cons (hc : t.ctrl = f :: d) :
    listed t = (framePatches f).filterMap (written t.ops)
      ++ (d.flatMap framePatches).filterMap (written t.ops) := by
  unfold listed
  rw [hc, List.flatMap_cons, List.filterMap_append]

/-- A frame without a branch of its own lists nothing when it opens. -/
theorem Booked.opens {f : CtrlFrame} (h : Booked t past) (ho : Opens t u f)
    (helse : f.elsePatch = none) (hn : Noted u) : Booked u past := by
  have hf : framePatches f = [] := by
    unfold framePatches
    rw [helse, ho.endPatches]
    rfl
  refine ⟨hn, ho.tracked h.tracked fun i hi => ?_, fun g hg hk => ?_, ?_⟩
  · rw [helse] at hi
    cases hi
  · rw [ho.ctrl] at hg
    rcases List.mem_cons.mp hg with rfl | hg
    · exact helse
    · exact h.bare g hg hk
  · have hlisted : listed u = listed t := by
      rw [listed_cons ho.ctrl, hf, ho.ops]
      rfl
    rw [hlisted]
    exact h.ledger.of_streams ho.ops ho.brTables

/-- A reachable `if` lists its own branch in the frame it opens. -/
theorem Booked.pushIf (h : Booked t past) (bt : BlockType) (hv : t.visit ctx (.if_ bt) = .ok u)
    (hn : Noted u) : Booked u past := by
  by_cases hr : t.reachable = true
  · obtain ⟨v, u', f, hvisit, hem, ho, -, -, -, hkind, -, -, helse, -⟩ :=
      if_opens ctx h.tracked hr bt
    obtain rfl := Except.ok.inj (hvisit.symm.trans hv)
    obtain ⟨u'', f', d, hvisit', -, htracked⟩ := if_inside ctx h.tracked bt
    obtain rfl := Except.ok.inj (hvisit'.symm.trans hv)
    set op := condBranch t.fusableCmp true ⟨0, 0, 0⟩ with hop
    have hedge : op.edge = some ⟨0, 0, 0⟩ := by
      rw [hop]
      rcases t.fusableCmp with _ | kind <;> rfl
    have hpools : ∀ j, ¬op.Pools j := by
      rw [hop]
      rcases t.fusableCmp with _ | kind <;> exact fun _ hj => hj
    have hat : written u''.ops ⟨t.settled, .single⟩ = some (.inline t.settled) := by
      unfold written
      rw [ho.ops, show v.ops[t.settled]? = some op from hem.ops_self]
      show op.edgeAt t.settled .single = _
      unfold Op.edgeAt
      rw [hop, flatIndex_condBranch, ← hop, hedge]
      rfl
    have hledger := h.ledger.emit hem
      (listed_inline hedge hpools (.inl rfl)) h.tracked
    have hlisted : listed u'' = [.inline t.settled] ++ listed v := by
      rw [listed_cons ho.ctrl]
      have hf : framePatches f = [⟨t.settled, .single⟩] := by
        unfold framePatches
        rw [helse, ho.endPatches]
        rfl
      rw [hf, List.filterMap_cons, hat, ho.ops]
      rfl
    refine ⟨hn, htracked, fun g hg hk => ?_, ?_⟩
    · rw [ho.ctrl] at hg
      rcases List.mem_cons.mp hg with rfl | hg
      · rw [hkind] at hk
        cases hk
      · rw [hem.ctrl] at hg
        exact h.bare g hg hk
    · rw [hlisted]
      refine (hledger.of_streams ho.ops ho.brTables).perm (List.Perm.append_left _ ?_)
      exact hem.listed h.tracked fun r hr => absurd hr List.not_mem_nil
  · have ho := opens_frame t .if_ (blockArity ctx bt).1 (blockArity ctx bt).2 none []
    have hb : t.ifBranch = (none, t) := by
      unfold ifBranch
      rw [if_neg hr]
    have hu : t.pushIf ctx bt = u := Except.ok.inj hv
    unfold Translator.pushIf at hu
    rw [hb] at hu
    subst hu
    exact h.opens ho rfl hn

/-! ## The ends of frames -/

/-- What is left of a translator whose frames wait for less. -/
theorem Tracked.reframe (h : Tracked t) (hf : t.fusableCmp = none) (hops : u.ops = t.ops)
    (hpool : u.brTables = t.brTables) (hu : u.fusableCmp = none)
    (hframes : ∀ g ∈ u.ctrl, ∃ f ∈ t.ctrl, g.endPatches = f.endPatches ∧
      (g.elsePatch = f.elsePatch ∨ g.elsePatch = none)) : Tracked u := by
  have hset : u.settled = t.settled := by
    rw [settled_of_none hu, settled_of_none hf, hops]
  refine ⟨fun k hk => ?_, fun _ => hu, fun g hg p hp => ?_, fun g hg i hi => ?_⟩
  · rw [hu] at hk
    cases hk
  · obtain ⟨f, hfm, hend, -⟩ := hframes g hg
    obtain ⟨hop, a, ha, hnf⟩ := h.endPatches f hfm p (hend ▸ hp)
    refine ⟨by rw [hset]; exact hop, a, by rw [hops]; exact ha, ?_⟩
    rcases a with i | j
    · show ¬u.settled ≤ i
      rw [hset]
      exact hnf
    · show ¬u.brTables.length ≤ j
      rw [hpool]
      exact hnf
  · obtain ⟨f, hfm, -, helse⟩ := hframes g hg
    rcases helse with helse | helse
    · obtain ⟨hop, ha⟩ := h.elsePatch f hfm i (helse ▸ hi)
      exact ⟨by rw [hset]; exact hop, by rw [hops]; exact ha⟩
    · rw [helse] at hi
      cases hi

theorem Tracked.patchAll (h : Tracked t) (hf : t.fusableCmp = none) (ps : List Patch) (ip : ℕ) :
    Tracked (t.patchAll ps ip) := by
  have hp := patchAll_patched ps t ip
  have hset : (t.patchAll ps ip).settled = t.settled := by
    rw [settled_of_none (hp.fusableCmp.trans hf), settled_of_none hf]
    exact hp.nextIp
  refine ⟨fun k hk => ?_, fun _ => hp.fusableCmp.trans hf, fun g hg p hpg => ?_,
    fun g hg i hi => ?_⟩
  · rw [hp.fusableCmp, hf] at hk
    cases hk
  · rw [hp.ctrl] at hg
    obtain ⟨hop, a, ha, hnf⟩ := h.endPatches g hg p hpg
    refine ⟨by rw [hset]; exact hop, a, by rw [place_patchAll]; exact ha, ?_⟩
    rcases a with i | j
    · show ¬(t.patchAll ps ip).settled ≤ i
      rw [hset]
      exact hnf
    · show ¬(t.patchAll ps ip).brTables.length ≤ j
      rw [hp.pool]
      exact hnf
  · rw [hp.ctrl] at hg
    obtain ⟨hop, ha⟩ := h.elsePatch g hg i hi
    exact ⟨by rw [hset]; exact hop, by rw [place_patchAll]; exact ha⟩

/-- The frames kept when some branches have been written. -/
theorem Booked.close {ps : List Patch} {d : List CtrlFrame}
    (htracked : Tracked t) (hf : t.fusableCmp = none) (hn : Noted u)
    (hops : u.ops = (t.patchAll ps t.nextIp).ops)
    (hpool : u.brTables = (t.patchAll ps t.nextIp).brTables) (hu : u.fusableCmp = none)
    (hd : ∀ g ∈ d, ∃ f ∈ t.ctrl, g.endPatches = f.endPatches ∧
      (g.elsePatch = f.elsePatch ∨ g.elsePatch = none))
    (hc : u.ctrl = d) (hbare : ∀ g ∈ d, g.kind = .tryTable → g.elsePatch = none)
    (hledger : Ledger t (ps.filterMap (written t.ops)
      ++ (d.flatMap framePatches).filterMap (written t.ops)) past) :
    Booked u (past ++ ps.filterMap (written u.ops)) := by
  have hp := patchAll_patched ps t t.nextIp
  have hwritten : written u.ops = written t.ops := by
    rw [hops, written_patchAll]
  have hclosed := hledger.patchAll (le_refl t.nextIp)
  refine ⟨hn, ?_, ?_, ?_⟩
  · refine (htracked.patchAll hf ps t.nextIp).reframe (hp.fusableCmp.trans hf) hops hpool hu ?_
    rw [hc, hp.ctrl]
    exact hd
  · rw [hc]
    exact hbare
  · unfold listed
    rw [hc, hwritten]
    exact hclosed.of_streams hops hpool

theorem patchElse_eq (t : Translator) (elsePatch : Option ℕ) (ip : ℕ) :
    t.patchElse elsePatch ip = t.patchAll (elsePatch.toList.map (⟨·, .single⟩)) ip := by
  cases elsePatch <;> rfl

/-- The branches an `else` or an `end` writes. -/
def resolves (t : Translator) : Operator → List Patch
  | .else_ =>
    match t.ctrl with
    | f :: _ => f.elsePatch.toList.map (⟨·, .single⟩)
    | [] => []
  | .end_ =>
    match t.ctrl with
    | f :: _ =>
      if f.kind = .tryTable ∧ f.reachableOnEntry then ⟨t.nextIp, .single⟩ :: f.endPatches
      else framePatches f
    | [] => []
  | _ => []

theorem Booked.doElse (h : Booked t past) (hv : t.doElse = .ok u) (hn : Noted u) :
    Booked u (past ++ (t.resolves .else_).filterMap (written u.ops)) := by
  obtain ⟨f, d, hc⟩ : ∃ f d, t.ctrl = f :: d := by
    rcases hc : t.ctrl with _ | ⟨f, d⟩
    · unfold Translator.doElse at hv
      rw [hc] at hv
      cases hv
    · exact ⟨f, d, rfl⟩
  obtain ⟨v, g, hvc, hge, hvf, -, hcase, rfl⟩ := doElse_ok hc hv
  have hresolves : t.resolves .else_ = g.elsePatch.toList.map (⟨·, .single⟩) := by
    unfold resolves
    rw [hc, hge]
  set t' : Translator := { t with fusableCmp := none } with ht'
  have htracked : Tracked t' := h.tracked.unfuse
  have hledger : Ledger t' (listed t') past := h.ledger.of_streams rfl rfl
  -- the branch over the `else` part is listed in the frame
  have hv' : Tracked v ∧ Ledger v (listed v) past ∧ g.kind = f.kind := by
    rcases hcase with ⟨-, rfl, hem⟩ | ⟨-, rfl, rfl⟩
    · have hregs : ∀ r ∈ [((0, .single) : ℕ × PatchSlot)], r.1 < t'.ctrl.length := by
        intro r hr
        obtain rfl := List.mem_singleton.mp hr
        show 0 < t.ctrl.length
        rw [hc]
        exact Nat.succ_pos _
      have hadded := hledger.emit hem (listed_inline rfl (fun _ hj => hj) (.inl rfl)) htracked
      exact ⟨hem.tracked htracked, hadded.perm (hem.listed htracked hregs), rfl⟩
    · exact ⟨htracked, hledger, rfl⟩
  obtain ⟨hvt, hvl, hkind⟩ := hv'
  have hlisted := listed_cons hvc
  rw [hlisted] at hvl
  rw [hresolves]
  have hframe : framePatches g = g.elsePatch.toList.map (⟨·, .single⟩) ++ g.endPatches := rfl
  rw [hframe, List.filterMap_append, List.append_assoc] at hvl
  refine Booked.close (d := { g with elsePatch := none } :: d) hvt hvf hn ?_ ?_ ?_ ?_ rfl ?_ ?_
  · show (v.patchElse f.elsePatch v.nextIp).ops = _
    rw [← hge, patchElse_eq]
  · show (v.patchElse f.elsePatch v.nextIp).brTables = _
    rw [← hge, patchElse_eq]
  · show (v.patchElse f.elsePatch v.nextIp).fusableCmp = none
    exact (patchElse_patched v f.elsePatch v.nextIp).fusableCmp.trans hvf
  · intro g' hg'
    rw [hvc]
    rcases List.mem_cons.mp hg' with rfl | hg'
    · exact ⟨g, List.mem_cons_self, rfl, .inr rfl⟩
    · exact ⟨g', List.mem_cons_of_mem _ hg', rfl, .inl rfl⟩
  · intro g' hg' hk
    rcases List.mem_cons.mp hg' with rfl | hg'
    · rfl
    · refine h.bare g' ?_ hk
      rw [hc]
      exact List.mem_cons_of_mem _ hg'
  · rw [List.flatMap_cons, List.filterMap_append]
    exact hvl

/-- The landing pads list their branches; what is listed besides stays. -/
theorem landingPads_ledger {base : ℕ} {clauses : List HandlerClause} {recs : List HandlerRec}
    {extra : List Place} (h : landingPads ctx base clauses t = .ok (recs, u)) (ht : Tracked t)
    (hstart : ∀ f ∈ t.ctrl, f.startIp ≤ t.nextIp) (hl : Ledger t (extra ++ listed t) past) :
    Ledger u (extra ++ listed u) past := by
  induction clauses generalizing t recs with
  | nil =>
    cases h
    exact hl
  | cons c clauses ih =>
    obtain ⟨f, v, recs', hf, -, hem, -, -, hrest, -⟩ := landingPads_cons h
    have hat : (Op.br (edgeTo f (base + payloadCount ctx c))).edgeAt t.nextIp .single
        = some (.inline t.nextIp) := rfl
    have hls := listedBy_branch f c.label (base + payloadCount ctx c) hat
      (hstart f (List.mem_of_getElem? hf))
    have hpad := hl.emit hem (listed_inline rfl (fun _ hj => hj) hls) ht
    have hregs : ∀ r ∈ branchRegs f c.label .single, r.1 < t.ctrl.length := by
      intro r hr
      rw [mem_branchRegs hr]
      exact (List.getElem?_eq_some_iff.mp hf).1
    refine ih hrest (hem.tracked ht) (fun g hg => ?_) (hpad.perm ?_)
    · obtain ⟨f', hf', -, -, hip⟩ := frame_origin hem.frames hg
      rw [hip]
      refine (hstart f' hf').trans ?_
      show t.nextIp ≤ v.ops.length
      rw [hem.length_ops]
      exact Nat.le_succ _
    · refine ((hem.listed ht hregs).append_left extra).trans ?_
      rw [← List.append_assoc, ← List.append_assoc]
      exact List.perm_append_comm.append_right _

theorem Booked.endBlock (h : Booked t past) (hc : t.ctrl = f :: d)
    (hu : u = endBlock f { t with fusableCmp := none, ctrl := d }) (hn : Noted u) :
    Booked u (past ++ (framePatches f).filterMap (written u.ops)) := by
  set t' : Translator := { t with fusableCmp := none, ctrl := d } with ht'
  have hpatched := (patchElse_patched t' f.elsePatch t'.nextIp).trans
    (patchAll_patched f.endPatches _ t'.nextIp)
  have hstreams : u.ops = (t'.patchAll (framePatches f) t'.nextIp).ops ∧
      u.brTables = (t'.patchAll (framePatches f) t'.nextIp).brTables := by
    rw [hu, ← patchElse_patchAll]
    exact ⟨rfl, rfl⟩
  have htracked : Tracked t' := h.tracked.unfuse.reframe rfl rfl rfl rfl fun g hg =>
    ⟨g, by rw [show ({ t with fusableCmp := none } : Translator).ctrl = t.ctrl from rfl, hc]
           exact List.mem_cons_of_mem _ hg, rfl, .inl rfl⟩
  refine Booked.close (d := d) htracked rfl hn hstreams.1 hstreams.2 ?_
    (fun g hg => ⟨g, hg, rfl, .inl rfl⟩) ?_ ?_ ?_
  · rw [hu]
    exact hpatched.fusableCmp
  · rw [hu]
    exact hpatched.ctrl
  · intro g hg
    refine h.bare g ?_
    rw [hc]
    exact List.mem_cons_of_mem _ hg
  · have hledger := h.ledger
    rw [listed_cons hc] at hledger
    exact hledger.of_streams rfl rfl

/-- The end of a reachable `try_table`: the branch over the pads is written with the others. -/
theorem Booked.endTryTable (h : Booked t past) (hc : t.ctrl = f :: d) (hk : f.kind = .tryTable)
    (hv : endTryTable ctx f { t with fusableCmp := none, ctrl := d } = .ok u) (hn : Noted u) :
    Booked u (past ++ (⟨t.nextIp, .single⟩ :: f.endPatches).filterMap (written u.ops)) := by
  set t' : Translator := { t with fusableCmp := none, ctrl := d } with ht'
  have hmem : ∀ g ∈ d, g ∈ t.ctrl := by
    intro g hg
    rw [hc]
    exact List.mem_cons_of_mem _ hg
  have htracked : Tracked t' := h.tracked.unfuse.reframe rfl rfl rfl rfl fun g hg =>
    ⟨g, hmem g hg, rfl, .inl rfl⟩
  obtain ⟨v, w, recs, hem, -, hpads, hu⟩ := endTryTable_ok hv
  obtain ⟨hext, hwt, hwf, -, -, -⟩ := landingPads_extends hpads (hem.tracked htracked) hem.fuse
  have hframe : framePatches f = f.endPatches := by
    unfold framePatches
    rw [h.bare f (hc ▸ List.mem_cons_self) hk]
    rfl
  -- the branch over the pads is on no list of a frame
  have hskip : Ledger v (([.inline t.nextIp] ++ f.endPatches.filterMap (written t.ops))
      ++ listed v) past := by
    have hledger : Ledger t' (f.endPatches.filterMap (written t.ops) ++ listed t') past := by
      have hl := h.ledger
      rw [listed_cons hc, hframe] at hl
      exact hl.of_streams rfl rfl
    have hadded := hledger.emit hem
      (listed_inline rfl (fun _ hj => hj) (.inl rfl)) htracked
    refine hadded.perm ?_
    rw [List.append_assoc]
    refine List.Perm.append_left _ (List.Perm.append_left _ ?_)
    exact hem.listed htracked fun r hr => absurd hr List.not_mem_nil
  have hpadded := landingPads_ledger hpads (hem.tracked htracked) (fun g hg => ?_) hskip
  · have hsettled : v.settled = t.nextIp + 1 := hem.settled_eq rfl
    have hops : ∀ p ∈ f.endPatches, w.ops[p.op]? = t.ops[p.op]? := by
      intro p hp
      have hlt : p.op < t.nextIp := by
        refine (h.tracked.patch_lt (f := f) (hc ▸ List.mem_cons_self) ?_).trans_le t.settled_le
        rw [hframe]
        exact hp
      exact (hext.ops (by omega)).trans (hem.ops_lt hlt)
    have hself : written w.ops ⟨t.nextIp, .single⟩ = some (.inline t.nextIp) := by
      unfold written
      rw [show w.ops[t.nextIp]? = v.ops[t.nextIp]? from hext.ops (by omega)]
      rw [show v.ops[t.nextIp]? = _ from hem.ops_self]
      rfl
    have hps : [.inline t.nextIp] ++ f.endPatches.filterMap (written t.ops)
        = (⟨t.nextIp, .single⟩ :: f.endPatches).filterMap (written w.ops) := by
      rw [List.filterMap_cons, hself, filterMap_written hops]
      rfl
    rw [hps] at hpadded
    have hpatched := patchAll_patched (⟨t.nextIp, .single⟩ :: f.endPatches) w w.nextIp
    refine Booked.close (d := w.ctrl) hwt hwf hn ?_ ?_ ?_ (fun g hg => ⟨g, hg, rfl, .inl rfl⟩) ?_ ?_
      hpadded
    · rw [hu]
      rfl
    · rw [hu]
      rfl
    · rw [hu]
      exact hpatched.fusableCmp.trans hwf
    · rw [hu]
      exact hpatched.ctrl
    · intro g hg hkg
      obtain ⟨g', hg', hkind, helse, -⟩ := frame_origin hext.frames hg
      obtain ⟨g'', hg'', hkind', helse', -⟩ := frame_origin hem.frames hg'
      rw [helse, helse']
      exact h.bare g'' (hmem g'' hg'') (hkind'.symm.trans (hkind.symm.trans hkg))
  · obtain ⟨g', hg', -, -, hip⟩ := frame_origin hem.frames hg
    rw [hip]
    refine ((h.noted.below.frames g' (hmem g' hg')).1.trans t.settled_le).trans ?_
    show t.ops.length ≤ v.ops.length
    rw [hem.length_ops]
    exact Nat.le_succ _

/-- Every operator keeps the books: what it writes was listed, and what it lists is new. -/
theorem Booked.visit (h : Booked t past) {op : Operator} (hv : t.visit ctx op = .ok u) :
    Booked u (past ++ (t.resolves op).filterMap (written u.ops)) := by
  have hn : Noted u := by
    have htwins := visit_twins ctx op h.noted
    rw [hv] at htwins
    generalize t.apart.visit ctx op = y at htwins
    cases htwins with
    | ok hn _ => exact hn
  have skip : ∀ {x : Except CompileError Translator},
      (t.reachable = true → x = .ok u → Booked u past) →
      (if t.reachable then x else .ok t) = .ok u → Booked u (past ++ []) := by
    intro x hx hif
    rw [List.append_nil]
    by_cases hr : t.reachable = true
    · rw [if_pos hr] at hif
      exact hx hr hif
    · rw [if_neg hr] at hif
      obtain rfl := Except.ok.inj hif
      exact h
  have hregion : ∀ {r : Region} {bt : BlockType}, t.visit ctx (r.operator bt) = .ok u →
      Booked u (past ++ []) := by
    intro r bt hr
    rw [List.append_nil]
    obtain ⟨u', f, hu', ho, -, -, -, -, helse, -⟩ := region_opens ctx t r bt
    obtain rfl := Except.ok.inj (hu'.symm.trans hr)
    exact h.opens ho helse hn
  cases op with
  | plain p => exact skip (fun hr hx => h.adds (visitPlain_adds hr hx) hn) hv
  | block bt => exact hregion (r := .block) hv
  | loop bt => exact hregion (r := .loop) hv
  | tryTable bt catches => exact hregion (r := .tryTable catches) hv
  | if_ bt =>
    have hb := h.pushIf bt hv hn
    rw [← List.append_nil past] at hb
    exact hb
  | else_ => exact h.doElse hv hn
  | end_ =>
    have hend : t.doEnd ctx = .ok u := hv
    unfold Translator.doEnd at hend
    unfold resolves
    rcases hc : t.ctrl with _ | ⟨f, d⟩
    · rw [hc] at hend
      cases hend
    · rw [hc] at hend
      by_cases hk : f.kind = .tryTable ∧ f.reachableOnEntry = true
      · simp only [if_pos hk] at hend ⊢
        exact h.endTryTable hc hk.1 hend hn
      · simp only [if_neg hk] at hend ⊢
        exact h.endBlock hc (Except.ok.inj hend).symm hn
  | jump j => exact skip (fun hr hx => h.adds (visitJump_adds h.noted hx) hn) hv
  | cond c => exact skip (fun hr hx => h.adds (visitCond_adds h.noted h.tracked hr hx) hn) hv
  | call c =>
    refine skip (fun hr hx => ?_) hv
    obtain rfl := Except.ok.inj hx
    exact h.adds (call_adds c hr) hn

/-! ## The ops of an operator -/

/-- The ops an operator adds.  A branch in place of a comparison adds none, and the end of a
reachable `try_table` adds the branch over the landing pads and the pads. -/
def emitted (t : Translator) : Operator → ℕ
  | .block _ | .loop _ | .tryTable _ _ => 0
  | .if_ _ => if t.reachable && t.fusableCmp.isNone then 1 else 0
  | .else_ => if t.reachable then 1 else 0
  | .end_ =>
    match t.ctrl with
    | f :: _ => if f.kind = .tryTable ∧ f.reachableOnEntry then f.clauses.length + 1 else 0
    | [] => 0
  | .cond c => if t.reachable then t.condOps c else 0
  | .plain _ | .jump _ | .call _ => if t.reachable then 1 else 0

theorem Adds.length {k m : ℕ} (h : Adds t u k m) : u.ops.length = t.ops.length + k := by
  obtain ⟨n, op, edges, regs, hem, -, -, hn, -⟩ := h
  rw [hem.length_ops, hn]

theorem landingPads_length {base : ℕ} {clauses : List HandlerClause} {recs : List HandlerRec}
    (h : landingPads ctx base clauses t = .ok (recs, u)) :
    u.ops.length = t.ops.length + clauses.length := by
  induction clauses generalizing t recs with
  | nil =>
    cases h
    rfl
  | cons c clauses ih =>
    obtain ⟨f, v, recs', -, -, hem, -, -, hrest, -⟩ := landingPads_cons h
    rw [ih hrest, hem.length_ops, List.length_cons]
    show t.ops.length + 1 + clauses.length = _
    omega

/-- An operator adds as many ops as `emitted` says. -/
theorem Booked.length (h : Booked t past) {op : Operator} (hv : t.visit ctx op = .ok u) :
    u.ops.length = t.ops.length + t.emitted op := by
  have skip : ∀ {x : Except CompileError Translator} {k : ℕ},
      (t.reachable = true → x = .ok u → u.ops.length = t.ops.length + k) →
      (if t.reachable then x else .ok t) = .ok u →
      u.ops.length = t.ops.length + if t.reachable then k else 0 := by
    intro x k hx hif
    by_cases hr : t.reachable = true
    · rw [if_pos hr] at hif ⊢
      exact hx hr hif
    · rw [if_neg hr] at hif ⊢
      obtain rfl := Except.ok.inj hif
      rfl
  have hregion : ∀ {r : Region} {bt : BlockType}, t.visit ctx (r.operator bt) = .ok u →
      u.ops.length = t.ops.length := by
    intro r bt hr
    obtain ⟨u', f, hu', ho, -⟩ := region_opens ctx t r bt
    obtain rfl := Except.ok.inj (hu'.symm.trans hr)
    rw [ho.ops]
  cases op with
  | plain p => exact skip (fun hr hx => (visitPlain_adds hr hx).length) hv
  | block bt => exact hregion (r := .block) hv
  | loop bt => exact hregion (r := .loop) hv
  | tryTable bt catches => exact hregion (r := .tryTable catches) hv
  | if_ bt =>
    unfold emitted
    by_cases hr : t.reachable = true
    · obtain ⟨v, u', f, hvisit, hem, ho, -⟩ := if_opens ctx h.tracked hr bt
      obtain rfl := Except.ok.inj (hvisit.symm.trans hv)
      rw [ho.ops, hem.length_ops, hr]
      rcases hk : t.fusableCmp with _ | kind
      · rw [settled_of_none hk]
        rfl
      · obtain ⟨hset, hpos, -⟩ := h.tracked.settled_fuse hk
        have hip : t.nextIp = t.ops.length := rfl
        show t.settled + 1 = t.ops.length + 0
        omega
    · rw [Bool.eq_false_iff.mpr hr]
      have hb : t.ifBranch = (none, t) := by
        unfold ifBranch
        rw [if_neg hr]
      have hu : t.pushIf ctx bt = u := Except.ok.inj hv
      unfold Translator.pushIf at hu
      rw [hb] at hu
      have ho := opens_frame t .if_ (blockArity ctx bt).1 (blockArity ctx bt).2 none []
      rw [← hu]
      exact congrArg List.length ho.ops
  | else_ =>
    have helse : t.doElse = .ok u := hv
    unfold emitted
    rcases hc : t.ctrl with _ | ⟨f, d⟩
    · unfold Translator.doElse at helse
      rw [hc] at helse
      cases helse
    · obtain ⟨v, g, -, -, -, -, hcase, rfl⟩ := doElse_ok hc helse
      have hpatched : (v.patchElse f.elsePatch v.nextIp).ops.length = v.ops.length :=
        (patchElse_patched v f.elsePatch v.nextIp).nextIp
      refine (show _ = v.ops.length from hpatched).trans ?_
      show v.ops.length = t.ops.length + if t.reachable then 1 else 0
      rcases hcase with ⟨hr, -, hem⟩ | ⟨hr, -, rfl⟩
      · rw [hr]
        exact hem.length_ops
      · rw [hr]
        rfl
  | end_ =>
    have hend : t.doEnd ctx = .ok u := hv
    unfold Translator.doEnd at hend
    unfold emitted
    rcases hc : t.ctrl with _ | ⟨f, d⟩
    · rw [hc] at hend
      cases hend
    · rw [hc] at hend
      by_cases hk : f.kind = .tryTable ∧ f.reachableOnEntry = true
      · simp only [if_pos hk] at hend ⊢
        obtain ⟨v, w, recs, hem, -, hpads, rfl⟩ := endTryTable_ok hend
        have hpatched := (patchAll_patched (⟨t.nextIp, .single⟩ :: f.endPatches) w w.nextIp).nextIp
        refine (show _ = w.ops.length from hpatched).trans ?_
        rw [landingPads_length hpads, hem.length_ops]
        show t.ops.length + 1 + f.clauses.length = _
        omega
      · simp only [if_neg hk] at hend ⊢
        obtain rfl := Except.ok.inj hend
        exact ((patchElse_patched _ f.elsePatch _).trans (patchAll_patched f.endPatches _ _)).nextIp
  | jump j => exact skip (fun _ hx => (visitJump_adds h.noted hx).length) hv
  | cond c =>
    exact skip (fun hr hx => (visitCond_adds h.noted h.tracked hr hx).length) hv
  | call c =>
    refine skip (fun hr hx => ?_) hv
    obtain rfl := Except.ok.inj hx
    exact (call_adds c hr).length

end Steps

/-! ## Whole functions -/

/-- The edges of a finished function: each is owned by an op and stays within the function, and
its place has been written once if it goes forward and never if it goes back. -/
structure EdgesWritten (ops : List Op) (pool : List BranchTarget) (past : List Place) : Prop where
  owned : ∀ a e, targetAt ops pool a = some e → ∃ i, Owns ops i a
  within : ∀ a e, targetAt ops pool a = some e → e ≤ ops.length
  written : ∀ a i e, targetAt ops pool a = some e → Owns ops i a →
    past.count a = if i < e then 1 else 0
  none : ∀ a, targetAt ops pool a = none → past.count a = 0

theorem booked_new (n : ℕ) : Booked (new n) [] := by
  refine ⟨noted_new n, tracked_new n, fun f hf _ => ?_, ?_⟩
  · obtain rfl := List.mem_singleton.mp hf
    rfl
  · have hlisted : listed (new n) = [] := rfl
    rw [hlisted]
    refine ⟨fun i o j hi => ?_, fun j hj => ?_, fun a => ?_, fun a ha => ?_, fun a i e he => ?_,
      fun a i e he => ?_⟩
    · cases hi
    · exact absurd hj (Nat.not_lt_zero j)
    · exact Nat.zero_le 1
    · exact absurd ha (Nat.lt_irrefl 0)
    · rcases a with k | j <;> cases he
    · rcases a with k | j <;> cases he

/-- A pass with no open frame has written every forward edge. -/
theorem Booked.finished {past : List Place} (h : Booked t past) (hc : t.ctrl = []) :
    EdgesWritten t.ops t.brTables past := by
  have hlisted : listed t = [] := by
    unfold listed
    rw [hc]
    rfl
  have hledger := h.ledger
  rw [hlisted] at hledger
  have hnext := h.noted.below_next
  refine ⟨fun a e he => ?_, fun a e he => ?_, fun a i e he ho => ?_, fun a ha => ?_⟩
  · rcases a with i | j
    · exact ⟨i, rfl⟩
    · obtain ⟨x, hx, -⟩ := Option.map_eq_some_iff.mp he
      exact hledger.owned j (List.getElem?_eq_some_iff.mp hx).1
  · rcases a with i | j
    · obtain ⟨o, ho, hoe⟩ := Option.bind_eq_some_iff.mp he
      obtain ⟨x, hx, rfl⟩ := Option.map_eq_some_iff.mp hoe
      have hle := hnext.ops o (List.mem_of_getElem? ho)
      have htarget : o.targetIp = x.ip := by
        unfold Op.edge at hx
        split at hx <;> cases hx
        all_goals rfl
      exact htarget ▸ hle
    · obtain ⟨x, hx, rfl⟩ := Option.map_eq_some_iff.mp he
      exact hnext.edges x (List.mem_of_getElem? hx)
  · have honce := hledger.once a
    rw [List.count_nil, Nat.zero_add] at honce
    by_cases hpos : 0 < past.count a
    · rw [if_pos (hledger.forward a i e he ho hpos)]
      omega
    · have hback := hledger.back a i e he ho (by rw [List.count_nil]; omega)
      rw [if_neg (by omega)]
      omega
  · by_contra hne
    have hsome := hledger.edges a (by rw [List.count_nil]; omega)
    rw [ha] at hsome
    cases hsome

end Translator

end SubmilliWasm
