/-
# The operand height of a running frame

What one turn of the interpreter does to the ip and the operand height of the frame on top, op by op
(`src/exec/`), and how an exception moves it to a landing pad.  A handler takes its operands before
it pushes its results, so that between two points the height is at most that of one of them.  A call
is one step, from the call to its return: meanwhile the callee's frame is on top.

`max_operands` bounds the heights of a run of a validated function exactly if no exception it
catches lands above the heights the body pushes to (`maxOperands_peak`).
-/
import SubmilliWasm.Compile.Layout

namespace SubmilliWasm

/-! ## The running frame -/

/-- The operands a straight-line handler pops and pushes. -/
def PlainOp.handled (ctx : CompileCtx) : PlainOp MemArg → ℕ × ℕ
  | .nop => (0, 0)
  | .drop => (1, 0)
  | .select => (3, 1)
  | .localGet _ => (0, 1)
  | .localSet _ => (1, 0)
  | .localTee _ => (1, 1)
  | .globalGet _ => (0, 1)
  | .globalSet _ => (1, 0)
  | .i32Const _ | .i64Const _ | .f32Const _ | .f64Const _ => (0, 1)
  | .relop _ => (2, 1)
  | .unop _ => (1, 1)
  | .binop _ => (2, 1)
  | .load _ _ => (1, 1)
  | .store _ _ => (2, 0)
  | .memorySize _ => (0, 1)
  | .memoryGrow _ => (1, 1)
  | .memoryInit _ _ => (3, 0)
  | .dataDrop _ => (0, 0)
  | .memoryCopy _ _ => (3, 0)
  | .memoryFill _ => (3, 0)
  | .tableInit _ _ => (3, 0)
  | .tableCopy _ _ => (3, 0)
  | .elemDrop _ => (0, 0)
  | .tableGet _ => (1, 1)
  | .tableSet _ => (2, 0)
  | .tableSize _ => (0, 1)
  | .tableGrow _ => (2, 1)
  | .tableFill _ => (3, 0)
  | .refNull _ => (0, 1)
  | .refFunc _ => (0, 1)
  | .refIsNull => (1, 1)
  | .refAsNonNull => (1, 1)
  | .structNew ty =>
    match ctx.types[ty]? with
    | some ⟨_, _, _, .struct fields⟩ => (fields.length, 1)
    | _ => (0, 1)
  | .structNewDefault _ => (0, 1)
  | .structGet _ _ _ => (1, 1)
  | .structSet _ _ => (2, 0)
  | .arrayNew _ => (2, 1)
  | .arrayNewDefault _ => (1, 1)
  | .arrayNewFixed _ n => (n, 1)
  | .arrayNewData _ _ => (2, 1)
  | .arrayNewElem _ _ => (2, 1)
  | .arrayGet _ _ => (2, 1)
  | .arraySet _ => (3, 0)
  | .arrayLen => (1, 1)
  | .arrayFill _ => (4, 0)
  | .arrayCopy _ _ => (5, 0)
  | .arrayInitData _ _ => (4, 0)
  | .arrayInitElem _ _ => (4, 0)
  | .refI31 | .i31GetS | .i31GetU => (1, 1)
  | .refTest _ _ => (1, 1)
  | .refCast _ _ => (1, 1)
  | .refEq => (2, 1)
  | .anyConvertExtern | .externConvertAny => (1, 1)

/-- An ip with the operands above the frame's floor. -/
structure Spot where
  ip : ℕ
  height : ℕ
  deriving DecidableEq, Repr

/-- A branch moves `keep` operands down over `pop`. -/
def jumpTo (t : BranchTarget) (h : ℕ) : List Spot :=
  if t.keep + t.pop ≤ h then [⟨t.ip, h - t.pop⟩] else []

/-- Where an op can leave the frame that runs it; a check that fails ends the frame. -/
def Op.next (C : CompiledFunc) (ctx : CompileCtx) (ip h : ℕ) : Op → List Spot
  | .plain p =>
    let (pops, pushes) := p.handled ctx
    if pops ≤ h then [⟨ip + 1, h - pops + pushes⟩] else []
  | .br t => jumpTo t h
  | .brIf t | .brIfNot t => if 1 ≤ h then ⟨ip + 1, h - 1⟩ :: jumpTo t (h - 1) else []
  | .brIfCmp _ _ t => if 2 ≤ h then ⟨ip + 1, h - 2⟩ :: jumpTo t (h - 2) else []
  | .brTable base len =>
    if 1 ≤ h then
      (List.range (len + 1)).flatMap fun i => (C.brTables[base + i]?).elim [] (jumpTo · (h - 1))
    else []
  | .call c =>
    if Translator.callPops ctx c ≤ h then
      [⟨ip + 1, h - Translator.callPops ctx c + (Translator.callSig ctx c).2.length⟩]
    else []
  | .brOnNull t => if 1 ≤ h then ⟨ip + 1, h⟩ :: jumpTo t (h - 1) else []
  | .brOnNonNull t => if 1 ≤ h then ⟨ip + 1, h - 1⟩ :: jumpTo t h else []
  | .brOnCast _ pool _ _ =>
    if 1 ≤ h then ⟨ip + 1, h⟩ :: (C.brTables[pool]?).elim [] (jumpTo · h) else []
  | .unreachable | .returnCall _ | .throw _ | .throwRef => []

/-- The ops at which an exception can be raised with the frame on top, or return to it. -/
def Op.raises : Op → Bool
  | .call _ | .throw _ | .throwRef => true
  | _ => false

/-- Where the frame goes when a clause catches. -/
def HandlerRec.landing (ctx : CompileCtx) (r : HandlerRec) : Spot :=
  ⟨r.landingIp, r.restoreHeight + r.payload ctx⟩

/-- One step of the frame, with the clause that caught an exception: which `try_table` of the
exception table it is of, and which of its clauses it is. -/
inductive FrameStep (C : CompiledFunc) (ctx : CompileCtx) :
    Spot → Option (ℕ × ℕ) → Spot → Prop where
  | run {s op s'} (hop : C.ops[s.ip]? = some op) (h : s' ∈ op.next C ctx s.ip s.height) :
      FrameStep C ctx s none s'
  | caught {s op i j span r} (hop : C.ops[s.ip]? = some op) (hraise : op.raises = true)
      (hspan : C.handlers[i]? = some span) (hstart : span.startIp ≤ s.ip) (hend : s.ip < span.endIp)
      (hr : span.clauses[j]? = some r) : FrameStep C ctx s (some (i, j)) (r.landing ctx)

/-- What a run shows of one step: the clause that caught and the height reached. -/
structure FrameEvent where
  caught : Option (ℕ × ℕ)
  height : ℕ

inductive FrameRun (C : CompiledFunc) (ctx : CompileCtx) :
    Spot → List FrameEvent → Spot → Prop where
  | nil {s} : FrameRun C ctx s [] s
  | cons {s c s' es s''} (h : FrameStep C ctx s c s') (hrun : FrameRun C ctx s' es s'') :
      FrameRun C ctx s (⟨c, s'.height⟩ :: es) s''

/-- The height at the landing pad of a clause. -/
def Recorded.landing (r : Recorded) (clause : ℕ × ℕ) : ℕ :=
  (r.pads.getD clause.1 []).getD clause.2 0

/-! ## Safe points -/

section Safe

variable (C : CompiledFunc) (ctx : CompileCtx)

/-- The next `n` steps stay under the recorded peak, as far as the landings do. -/
def Safe : ℕ → Spot → Prop
  | 0, _ => True
  | n + 1, s => s.height ≤ C.maxOperands → ∀ c s', FrameStep C ctx s c s' →
      (c.isSome = true → s'.height ≤ C.maxOperands) → s'.height ≤ C.maxOperands ∧ Safe n s'

variable {C ctx}

theorem Safe.step {n : ℕ} {s : Spot} (h : Safe C ctx (n + 1) s) : Safe C ctx n s := by
  induction n generalizing s with
  | zero => trivial
  | succ n ih =>
    intro hs c s' hstep hland
    obtain ⟨hheight, hsafe⟩ := h hs c s' hstep hland
    exact ⟨hheight, ih hsafe⟩

variable {h n : ℕ}

theorem Safe.mono {m : ℕ} (hmn : m ≤ n) {s : Spot} (h : Safe C ctx n s) : Safe C ctx m s := by
  induction hmn with
  | refl => exact h
  | step _ ih => exact ih h.step

/-- A point is safe if the points its op leads to are, and the pads it can be caught by. -/
theorem Safe.of_op {s : Spot} {op : Op} (hop : C.ops[s.ip]? = some op)
    (hnext : s.height ≤ C.maxOperands → ∀ s' ∈ op.next C ctx s.ip s.height,
      s'.height ≤ C.maxOperands ∧ ∀ m < n, Safe C ctx m s')
    (hcatch : op.raises = true → ∀ span ∈ C.handlers, span.startIp ≤ s.ip → s.ip < span.endIp →
      ∀ r ∈ span.clauses, ∀ m < n, Safe C ctx m (r.landing ctx)) : Safe C ctx n s := by
  cases n with
  | zero => trivial
  | succ n =>
    intro hs c s' hstep hland
    cases hstep with
    | run hop' h =>
      obtain rfl := Option.some.inj (hop.symm.trans hop')
      obtain ⟨hheight, hsafe⟩ := hnext hs s' h
      exact ⟨hheight, hsafe n (Nat.lt_succ_self n)⟩
    | caught hop' hraise hspan hstart hend hr =>
      obtain rfl := Option.some.inj (hop.symm.trans hop')
      exact ⟨hland rfl, hcatch hraise _ (List.mem_of_getElem? hspan) hstart hend _
        (List.mem_of_getElem? hr) n (Nat.lt_succ_self n)⟩

/-- Behind the last op the frame returns. -/
theorem Safe.of_end {s : Spot} (h : s.ip = C.ops.length) : Safe C ctx n s := by
  have hnone : C.ops[s.ip]? = none := by rw [h, List.getElem?_eq_none_iff]
  cases n with
  | zero => trivial
  | succ n =>
    intro _ c s' hstep
    cases hstep with
    | run hop _ => rw [hnone] at hop; cases hop
    | caught hop _ _ _ _ _ => rw [hnone] at hop; cases hop

theorem mem_jumpTo {t : BranchTarget} {s : Spot} (hs : s ∈ jumpTo t h) : s = ⟨t.ip, h - t.pop⟩ := by
  unfold jumpTo at hs
  split at hs
  · exact List.mem_singleton.mp hs
  · cases hs

/-- An op that goes on at `fall` or branches. -/
theorem Safe.of_branch {ip src : ℕ} {op : Op} {e : BranchTarget} {fall : Spot}
    (hop : C.ops[ip]? = some op) (hraise : op.raises = false)
    (hnext : ∀ s' ∈ op.next C ctx ip h, s' = fall ∨ s' ∈ jumpTo e src) (hle : fall.height ≤ h)
    (hfrom : src ≤ h) (hfall : Safe C ctx n fall)
    (htaken : ∀ s' ∈ jumpTo e src, ∀ m < n, Safe C ctx m s') : Safe C ctx n ⟨ip, h⟩ := by
  refine Safe.of_op hop ?_ (fun h => by rw [hraise] at h; cases h)
  intro hpeak s' hs'
  have hpeak : h ≤ C.maxOperands := hpeak
  obtain rfl | hs' := hnext s' hs'
  · exact ⟨hle.trans hpeak, fun m hm => hfall.mono hm.le⟩
  · have hheight : s'.height ≤ src := by
      rw [mem_jumpTo hs']
      exact Nat.sub_le _ _
    exact ⟨hheight.trans (hfrom.trans hpeak), htaken s' hs'⟩

/-- A branch op leads to its target. -/
theorem Safe.of_br {ip : ℕ} {t : BranchTarget} (hop : C.ops[ip]? = some (.br t))
    (htarget : ∀ m < n, Safe C ctx m ⟨t.ip, h - t.pop⟩) : Safe C ctx n ⟨ip, h⟩ := by
  refine Safe.of_op hop ?_ (fun hraise => by cases hraise)
  intro hh s' hs'
  obtain rfl := mem_jumpTo hs'
  exact ⟨(Nat.sub_le _ _).trans hh, htarget⟩

end Safe

/-! ## What the layout says of the flow -/

section Layout

variable {C : CompiledFunc} {ctx : CompileCtx} {cmp : Option CmpKind} {Ls : List Target}
  {h ip ip' : ℕ}
  {b : Body} {out : Bool} {hs : List HandlerSpan}

theorem Pads.labels {base : ℕ} {catches : List Catch} {recs : List HandlerRec}
    (hp : Pads C ctx Ls base catches ip recs) :
    ∀ l ∈ catches.map Catch.label, ∃ T, Ls[l]? = some T ∧ T.live = true := by
  induction hp with
  | nil =>
    intro l hl
    cases hl
  | cons hop he hp ih =>
    intro l hl
    rw [List.map_cons, List.mem_cons] at hl
    obtain rfl | hl := hl
    · obtain ⟨T, hT, hlive, -, -⟩ := he
      exact ⟨T, hT, hlive⟩
    · exact ih l hl

/-- A label of an inner sequence, seen from outside its block. -/
theorem live_outer {T : Target} {exits : List ℕ}
    (h : ∀ l ∈ exits, ∃ T', (T :: Ls)[l]? = some T' ∧ T'.live = true) :
    ∀ l ∈ outerLabels exits, ∃ T', Ls[l]? = some T' ∧ T'.live = true := by
  intro l hl
  exact h (l + 1) (mem_outerLabels.mp hl)

theorem EdgeTo.live {e : BranchTarget} {l : ℕ} (he : EdgeTo Ls h l e) :
    ∃ T, Ls[l]? = some T ∧ T.live = true := by
  obtain ⟨T, hT, hlive, -, -⟩ := he
  exact ⟨T, hT, hlive⟩

/-- The sequence behind a region is reached from its end or by a branch to it. -/
theorem region_live {r : Region} {bt : BlockType} {x : ℕ} {i : Flow} {live inner : Bool}
    (hfall : i.live = true → inner = true)
    (hexits : ∀ l ∈ i.exits, ∃ T, (regionTarget ctx r bt h ip x live :: Ls)[l]? = some T ∧
      T.live = true) (hlive : inner = true → live = true)
    (hafter : (if r = .loop then i.live else i.live || decide (0 ∈ i.exits)) = true) :
    live = true := by
  by_cases hr : r = .loop
  · rw [if_pos hr] at hafter
    exact hlive (hfall hafter)
  · rw [if_neg hr, Bool.or_eq_true, decide_eq_true_iff] at hafter
    obtain hend | hexit := hafter
    · exact hlive (hfall hend)
    · obtain ⟨T, hT, hTlive⟩ := hexits 0 hexit
      obtain rfl := Option.some.inj hT
      unfold regionTarget at hTlive
      rw [if_neg hr] at hTlive
      exact hTlive

/-- The sequence behind an `if` with both parts is reached from either end or by a branch to it. -/
theorem ifElse_live {T : Target} {i j : Flow} {out₁ out₂ : Bool}
    (hfall : i.live = true → out₁ = true)
    (hfall' : j.live = true → out₂ = true)
    (hexits : ∀ l ∈ i.exits ++ j.exits, ∃ T', (T :: Ls)[l]? = some T' ∧ T'.live = true)
    (hjump : out₁ = true → T.live = true) (hlive : out₂ = true → T.live = true)
    (hafter : (j.live || (i.live || decide (0 ∈ i.exits ++ j.exits))) = true) : T.live = true := by
  rw [Bool.or_eq_true, Bool.or_eq_true, decide_eq_true_iff] at hafter
  obtain h | h | h := hafter
  · exact hlive (hfall' h)
  · exact hjump (hfall h)
  · obtain ⟨T', hT, hTlive⟩ := hexits 0 h
    obtain rfl := Option.some.inj hT
    exact hTlive

/-- The labels of both parts of an `if`. -/
theorem live_append {exits exits' : List ℕ}
    (h : ∀ l ∈ exits, ∃ T, Ls[l]? = some T ∧ T.live = true)
    (h' : ∀ l ∈ exits', ∃ T, Ls[l]? = some T ∧ T.live = true) :
    ∀ l ∈ exits ++ exits', ∃ T, Ls[l]? = some T ∧ T.live = true := by
  intro l hl
  rw [List.mem_append] at hl
  obtain hl | hl := hl
  · exact h l hl
  · exact h' l hl

/-- What the flow reaches is in the code. -/
theorem CodeAt.reaches {live : Bool} (hc : CodeAt C ctx live cmp Ls h b ip ip' out hs) :
    live = true → ((b.flow ctx true h).live = true → out = true) ∧
      ∀ l ∈ (b.flow ctx true h).exits, ∃ T, Ls[l]? = some T ∧ T.live = true := by
  induction hc with
  | dead => exact fun h => absurd h Bool.false_ne_true
  | done => exact fun _ => ⟨fun _ => rfl, List.forall_mem_nil _⟩
  | plain hop hp hk ih => exact fun _ => ih rfl
  | fuse hk ih => exact fun _ => ih rfl
  | @region Ls h r bt b k ip e x ip' live inner out hs hs' spans hps hb hlive hloop hend hk
    ihb ihk =>
    intro _
    obtain ⟨hfall, hexits⟩ := ihb rfl
    have hafter := region_live hfall hexits hlive
    have hpads : ∀ l ∈ r.padLabels, ∃ T, Ls[l]? = some T ∧ T.live = true := by
      cases hend with
      | block | loop => exact List.forall_mem_nil _
      | tryTable hop hp => exact hp.labels
    simp only [Body.flow, Flow.after, if_true, List.mem_append]
    generalize hlv : (if r = .loop then _ else _ : Bool) = after at hafter ⊢
    cases after with
    | true =>
      obtain ⟨hkfall, hkexits⟩ := ihk (hafter rfl)
      refine ⟨hkfall, ?_⟩
      rintro l ((hl | hl) | hl)
      · exact live_outer hexits l hl
      · exact hpads l hl
      · exact hkexits l hl
    | false =>
      rw [(Body.flow_dead ctx k _).1, (Body.flow_dead ctx k _).2]
      refine ⟨fun h => absurd h Bool.false_ne_true, ?_⟩
      rintro l ((hl | hl) | hl)
      · exact live_outer hexits l hl
      · exact hpads l hl
      · cases hl
  | ifElse hps hop ht hjump hskip he hlive hk iht ihe ihk =>
    rename_i cmp Ls h bt t e k ip e₁ elseIp x ip' live out₁ out₂ out hs₁ hs₂ hs₃
    intro _
    obtain ⟨hfall, hexits⟩ := iht rfl
    obtain ⟨hfall', hexits'⟩ := ihe rfl
    have hexits'' := live_append hexits hexits'
    have hafter := ifElse_live hfall hfall' hexits'' (fun h => (hjump h).2.1) hlive
    simp only [Body.flow, Flow.after, if_true, List.mem_append] at hafter ⊢
    generalize hlv : ((e.flow ctx true (h - 1)).live || _ : Bool) = after at hafter ⊢
    cases after with
    | true =>
      obtain ⟨hkfall, hkexits⟩ := ihk (hafter rfl)
      refine ⟨hkfall, ?_⟩
      rintro l (hl | hl)
      · exact live_outer hexits'' l hl
      · exact hkexits l hl
    | false =>
      rw [(Body.flow_dead ctx k _).1, (Body.flow_dead ctx k _).2]
      refine ⟨fun h => absurd h Bool.false_ne_true, ?_⟩
      rintro l (hl | hl)
      · exact live_outer hexits'' l hl
      · cases hl
  | ifThen hps hop ht hk iht ihk =>
    intro _
    obtain ⟨hfall, hexits⟩ := iht rfl
    obtain ⟨hkfall, hkexits⟩ := ihk rfl
    simp only [Body.flow, Flow.after, if_true, Bool.or_true, List.mem_append]
    refine ⟨hkfall, ?_⟩
    rintro l (hl | hl)
    · exact live_outer hexits l hl
    · exact hkexits l hl
  | br hop he =>
    intro _
    simp only [Body.flow, Flow.after, if_true, (Body.flow_dead ctx _ _).1,
      (Body.flow_dead ctx _ _).2, List.append_nil, Jump.labels, List.mem_singleton]
    refine ⟨fun h => absurd h Bool.false_ne_true, ?_⟩
    rintro l rfl
    exact he.live
  | @brTable Ls h cases default base k ip hop hh he =>
    intro _
    simp only [Body.flow, Flow.after, if_true, (Body.flow_dead ctx _ _).1,
      (Body.flow_dead ctx _ _).2, List.append_nil, Jump.labels]
    refine ⟨fun h => absurd h Bool.false_ne_true, fun l hl => ?_⟩
    obtain ⟨i, hi, hget⟩ := List.getElem_of_mem hl
    obtain ⟨e, -, hedge⟩ := he i l (by rw [List.getElem?_eq_getElem hi, hget])
    exact hedge.live
  | ret hL hh hop | unreachable hop | throw hop | throwRef hop | returnCall hop =>
    intro _
    simp only [Body.flow, Flow.after, if_true, (Body.flow_dead ctx _ _).1,
      (Body.flow_dead ctx _ _).2, List.append_nil, Jump.labels]
    exact ⟨fun h => absurd h Bool.false_ne_true, List.forall_mem_nil _⟩
  | brIf _ _ he _ ih | brOnNull _ _ he _ ih | brOnNonNull _ he _ ih | brOnCast _ _ he _ ih =>
    intro _
    obtain ⟨hkfall, hkexits⟩ := ih rfl
    simp only [Body.flow, Flow.after, if_true, CondBr.after, CondBr.label, List.mem_append,
      List.mem_singleton]
    refine ⟨hkfall, ?_⟩
    rintro l (rfl | hl)
    · exact he.live
    · exact hkexits l hl
  | call hop hk ih => exact fun _ => ih rfl

theorem RegionEnd.range {base rs e x : ℕ} {r : Region} {spans : List HandlerSpan}
    (hend : RegionEnd C ctx Ls base rs ip r e x spans) :
    e ≤ x ∧ ∀ span ∈ spans, ip ≤ span.startIp ∧ span.endIp ≤ e := by
  cases hend with
  | block => exact ⟨le_refl _, nofun⟩
  | loop => exact ⟨le_refl _, nofun⟩
  | tryTable hop hp =>
    refine ⟨by omega, fun span hspan => ?_⟩
    obtain rfl := List.mem_singleton.mp hspan
    exact ⟨le_refl _, le_refl _⟩

/-- The code of a sequence and its handler spans lie between its addresses. -/
theorem CodeAt.range {live : Bool} (hc : CodeAt C ctx live cmp Ls h b ip ip' out hs) :
    ip ≤ ip' ∧ ∀ span ∈ hs, ip ≤ span.startIp ∧ span.endIp ≤ ip' := by
  induction hc with
  | dead => exact ⟨le_refl _, nofun⟩
  | done => exact ⟨le_refl _, nofun⟩
  | plain hop hp hk ih =>
    refine ⟨by omega, fun span hspan => ?_⟩
    have := ih.2 span hspan
    omega
  | fuse hk ih => exact ih
  | @region Ls h r bt b k ip e x ip' live inner out hs hs' spans hps hb hlive hloop hend hk
    ihb ihk =>
    have hx := hend.range
    refine ⟨by omega, fun span hspan => ?_⟩
    rw [List.mem_append, List.mem_append] at hspan
    obtain (hspan | hspan) | hspan := hspan
    · have := ihb.2 span hspan
      omega
    · have := hx.2 span hspan
      omega
    · have := ihk.2 span hspan
      omega
  | ifElse hps hop ht hjump hskip he hlive hk iht ihe ihk =>
    rename_i cmp Ls h bt t e k ip e₁ elseIp x ip' live out₁ out₂ out hs₁ hs₂ hs₃
    have helse : e₁ ≤ elseIp := by
      cases out₁ with
      | true => have := (hjump rfl).1; omega
      | false => rw [hskip rfl]
    refine ⟨by omega, fun span hspan => ?_⟩
    rw [List.mem_append, List.mem_append] at hspan
    obtain (hspan | hspan) | hspan := hspan
    · have := iht.2 span hspan
      omega
    · have := ihe.2 span hspan
      omega
    · have := ihk.2 span hspan
      omega
  | ifThen hps hop ht hk iht ihk =>
    refine ⟨by omega, fun span hspan => ?_⟩
    rw [List.mem_append] at hspan
    obtain hspan | hspan := hspan
    · have := iht.2 span hspan
      omega
    · have := ihk.2 span hspan
      omega
  | br hop he => exact ⟨Nat.le_succ _, nofun⟩
  | brTable hop hh he => exact ⟨Nat.le_succ _, nofun⟩
  | ret hL hh hop => exact ⟨Nat.le_succ _, nofun⟩
  | unreachable hop => exact ⟨Nat.le_succ _, nofun⟩
  | throw hop => exact ⟨Nat.le_succ _, nofun⟩
  | throwRef hop => exact ⟨Nat.le_succ _, nofun⟩
  | returnCall hop => exact ⟨Nat.le_succ _, nofun⟩
  | brIf hh hop he hk ih | brOnNull hh hop he hk ih | brOnNonNull hop he hk ih
  | brOnCast hop hpool he hk ih | call hop hk ih =>
    refine ⟨by omega, fun span hspan => ?_⟩
    have := ih.2 span hspan
    omega

end Layout

/-! ## Heights of typed operators -/

section Typed

variable {M : ModuleTypes} {locals : List IrVal} {C : CompiledFunc}

/-- A handler takes and leaves what the type of its operator says. -/
theorem handled_typed {p : PlainOp MemArg} {f : MemArg → BigMemArg} {ins outs : List IrVal}
    (h : M.PlainTyped locals (p.mapMem f) ins outs) :
    p.handled M.ctx = (ins.length, outs.length) := by
  cases p with
  | structNew ty =>
    cases h with
    | @structNew ty fs h =>
      unfold ModuleTypes.structFields at h
      unfold PlainOp.handled
      rcases hty : M.ctx.types[ty]? with _ | ⟨group, finality, supertype, body⟩
      · rw [hty] at h
        cases h
      · rw [hty] at h
        rcases body with _ | fields | _
        · cases h
        · obtain rfl : fields = fs := Option.some.inj h
          simp [hty]
        · cases h
  | arrayNewFixed ty n =>
    cases h
    simp [PlainOp.handled]
  | _ =>
    cases h
    rfl

/-- The height behind an operator is the one the translator tracks. -/
theorem plainAfter_typed {p : PlainOp MemArg} {f : MemArg → BigMemArg} {ins outs : List IrVal}
    (h : M.PlainTyped locals (p.mapMem f) ins outs) {k : ℕ} (hle : ins.length ≤ k) :
    plainAfter M.ctx (p.mapMem f) k = k - ins.length + outs.length := by
  obtain ⟨pops, pushes, n, heff, hin, hout, -⟩ := Translator.effect_typed h
  unfold plainAfter
  rw [heff]
  show k - pops + pushes = _
  omega

/-- What surrounds a sequence whose flow is `f`: where it ends, the labels it names and the pads of
the enclosing `try_table`s are safe. -/
structure Around (C : CompiledFunc) (ctx : CompileCtx) (n : ℕ) (Ls : List Target) (f : Flow)
    (ip ip' after : ℕ) (hs : List HandlerSpan) : Prop where
  fall : f.live = true → Safe C ctx n ⟨ip', after⟩
  exits : ∀ l ∈ f.exits, ∀ T, Ls[l]? = some T → ∀ m < n, Safe C ctx m ⟨T.ip, T.base + T.arity⟩
  root : ∃ T, Ls.getLast? = some T ∧ T.ip = C.ops.length
  pads : ∀ span ∈ C.handlers, span ∉ hs → ∀ j, ip ≤ j → j < ip' → span.startIp ≤ j →
    j < span.endIp → ∀ r ∈ span.clauses, ∀ m < n, Safe C ctx m (r.landing ctx)

variable {f : Flow} {hs : List HandlerSpan} {Ls : List Target} {h n ip ip' after : ℕ}

theorem Around.mono {m : ℕ} (hmn : m ≤ n) (h : Around C M.ctx n Ls f ip ip' after hs) :
    Around C M.ctx m Ls f ip ip' after hs :=
  ⟨fun hlive => (h.fall hlive).mono hmn,
    fun l hl T hT k hk => h.exits l hl T hT k (hk.trans_le hmn),
    h.root, fun span hspan hout j hj hj' hstart hend r hr k hk =>
      h.pads span hspan hout j hj hj' hstart hend r hr k (hk.trans_le hmn)⟩

theorem Pads.safe {ctx : CompileCtx} {base : ℕ} {catches : List Catch} {recs : List HandlerRec}
    (hp : Pads C ctx Ls base catches ip recs)
    (hexits : ∀ l ∈ catches.map Catch.label, ∀ T, Ls[l]? = some T →
      ∀ m < n, Safe C ctx m ⟨T.ip, T.base + T.arity⟩) :
    ∀ r ∈ recs, Safe C ctx n (r.landing ctx) := by
  induction hp with
  | nil =>
    intro r hr
    cases hr
  | @cons c cs ip e recs hop he hp ih =>
    intro r hr
    rw [List.mem_cons] at hr
    obtain rfl | hr := hr
    · obtain ⟨T, hT, -, hle, rfl⟩ := he
      refine Safe.of_br hop fun m hm => ?_
      have htarget := hexits c.label (by simp) T hT m hm
      have hheight : base + Translator.payloadCount ctx (convCatch c) -
          (T.edge (base + Translator.payloadCount ctx (convCatch c))).pop = T.base + T.arity := by
        show _ - (_ - (T.base + T.arity)) = _
        omega
      show Safe C ctx m ⟨T.ip, base + Translator.payloadCount ctx (convCatch c) -
        (T.edge (base + Translator.payloadCount ctx (convCatch c))).pop⟩
      rw [hheight]
      exact htarget
    · exact ih (fun l hl => hexits l (List.mem_cons_of_mem _ hl)) r hr

theorem Around.next {ip₂ : ℕ} (h : Around C M.ctx n Ls f ip ip' after hs) (hle : ip ≤ ip₂) :
    Around C M.ctx n Ls f ip₂ ip' after hs :=
  ⟨h.fall, h.exits, h.root,
    fun span hspan hout j hj => h.pads span hspan hout j (hle.trans hj)⟩

/-- What surrounds the sequence behind a construct. -/
theorem Around.behind {e : List ℕ} {g : Bool} {x : ℕ} {S S' : List HandlerSpan}
    (h : Around C M.ctx n Ls (f.after e g) ip ip' after (S ++ S')) (hle : ip ≤ x)
    (hbefore : ∀ span ∈ S, span.endIp ≤ x) : Around C M.ctx n Ls f x ip' after S' := by
  refine ⟨h.fall, fun l hl => h.exits l (List.mem_append_right _ hl), h.root, ?_⟩
  intro span hspan hout j hj hj' hstart hend
  refine h.pads span hspan ?_ j (hle.trans hj) hj' hstart hend
  intro hmem
  rw [List.mem_append] at hmem
  obtain hmem | hmem := hmem
  · have := hbefore span hmem
    omega
  · exact hout hmem

/-- The function's own label stays the outermost. -/
theorem root_cons (T : Target) (h : ∃ T, Ls.getLast? = some T ∧ T.ip = C.ops.length) :
    ∃ T', (T :: Ls).getLast? = some T' ∧ T'.ip = C.ops.length := by
  obtain ⟨T', hT', hip⟩ := h
  exact ⟨T', by rw [List.getLast?_cons, hT']; rfl, hip⟩

/-- A branch lands at its label. -/
theorem EdgeTo.lands {l : ℕ} {e : BranchTarget} (he : EdgeTo Ls h l e)
    (hlabel : ∀ T, Ls[l]? = some T → ∀ m < n, Safe C M.ctx m ⟨T.ip, T.base + T.arity⟩) :
    ∀ s ∈ jumpTo e h, ∀ m < n, Safe C M.ctx m s := by
  intro s hs
  obtain ⟨T, hT, -, hle, rfl⟩ := he
  obtain rfl := mem_jumpTo hs
  have hheight : h - (T.edge h).pop = T.base + T.arity := by
    show h - (h - (T.base + T.arity)) = _
    omega
  rw [hheight]
  exact hlabel T hT

/-- A conditional branch, fused or not, takes its condition and goes on or branches. -/
theorem mem_condBranch_next {cmp : Option CmpKind} {negate : Bool} {e : BranchTarget} {s : Spot}
    (hs : s ∈ (Translator.condBranch cmp negate e).next C M.ctx ip (h + cmp.isSome.toNat)) :
    s = ⟨ip + 1, h - 1⟩ ∨ s ∈ jumpTo e (h - 1) := by
  cases cmp with
  | some kind =>
    simp only [Translator.condBranch, Op.next] at hs
    split at hs
    · exact List.mem_cons.mp hs
    · cases hs
  | none =>
    have hs : s ∈ if 1 ≤ h then (⟨ip + 1, h - 1⟩ :: jumpTo e (h - 1) : List Spot) else [] := by
      cases negate <;> exact hs
    split at hs
    · exact List.mem_cons.mp hs
    · cases hs

theorem condBranch_raises (cmp : Option CmpKind) (negate : Bool) (e : BranchTarget) :
    (Translator.condBranch cmp negate e).raises = false := by
  cases cmp with
  | some kind => rfl
  | none => cases negate <;> rfl

/-- The height behind a conditional branch is that of its type. -/
theorem condTyped_after {L : List (List IrVal)} {c : CondBr} {ts ts' : List IrVal}
    (h : M.CondTyped L c ts ts') (base : ℕ) : c.after (base + ts.length) = base + ts'.length := by
  cases h with
  | brIf rest hl hs =>
    have := hs.length_eq
    simp only [CondBr.after, List.length_append, List.length_singleton]
    omega
  | brOnNull rest hl hs =>
    have := hs.length_eq
    simp only [CondBr.after, List.length_append, List.length_singleton]
    omega
  | brOnNonNull rest hl hs hsub =>
    have := hs.length_eq
    simp only [CondBr.after, List.length_append, List.length_singleton]
    omega
  | brOnCast rest hl hs hk hv hw =>
    have := hs.length_eq
    simp only [CondBr.after, List.length_append, List.length_singleton]
    omega
  | brOnCastFail rest hl hs hk hv =>
    have := hs.length_eq
    simp only [CondBr.after, List.length_append, List.length_singleton]
    omega

/-- What surrounds the sequence behind a conditional branch. -/
theorem Around.cond {n : ℕ} {Ls : List Target} {c : CondBr} {k : Body} {h ip ip' after : ℕ}
    {hs : List HandlerSpan}
    (ha : Around C M.ctx n Ls ((Body.cond c k).flow M.ctx true h) ip ip' after hs) :
    Around C M.ctx n Ls (k.flow M.ctx true (c.after h)) (ip + 1) ip' after hs ∧
      ∀ T, Ls[c.label]? = some T → ∀ m < n, Safe C M.ctx m ⟨T.ip, T.base + T.arity⟩ := by
  refine ⟨Around.behind (e := [c.label]) (g := true) (S := []) ?_ (Nat.le_succ ip) nofun, ?_⟩
  · exact ha
  · exact ha.exits c.label (List.mem_append_left _ (List.mem_singleton.mpr rfl))

/-- What an induction over the layout shows of a sequence: from its start the next `n` steps are
safe, in whatever safe surroundings it lies. -/
structure SafeFrom (M : ModuleTypes) (locals results : List IrVal) (C : CompiledFunc) (n : ℕ)
    (cmp : Option CmpKind) (Ls : List Target) (h : ℕ) (b : Body) (ip ip' : ℕ)
    (hs : List HandlerSpan) : Prop where
  safe : ∀ {L : List (List IrVal)} {d : ℕ} {ts us : List IrVal},
    M.HasType locals results L b ts us →
    h = d + ts.length → (b.recorded M.ctx true h).peak ≤ C.maxOperands →
    Around C M.ctx n Ls (b.flow M.ctx true h) ip ip' (d + us.length) hs →
    Safe C M.ctx n ⟨ip, h + cmp.isSome.toNat⟩

section Constructs

variable {results : List IrVal} {n : ℕ} {Ls : List Target} {h : ℕ} {k : Body} {ip ip' : ℕ}
  {hs : List HandlerSpan}

theorem SafeFrom.done : SafeFrom M locals results C n none Ls h .done ip ip [] := by
  refine ⟨fun {L d ts us} htype hheight hpeak haround => ?_⟩
  cases htype with
  | done hsub =>
    have hfall := haround.fall rfl
    rw [← hsub.length_eq, ← hheight] at hfall
    exact hfall

theorem SafeFrom.plain {p' : PlainOp MemArg} (hop : C.ops[ip]? = some (.plain p'))
    (hk : SafeFrom M locals results C n none Ls
      (plainAfter M.ctx (p'.mapMem (MemArg.resolve C.bigMemargs)) h) k (ip + 1) ip' hs) :
    SafeFrom M locals results C n none Ls h
      (.plain (p'.mapMem (MemArg.resolve C.bigMemargs)) k) ip ip' hs := by
  refine ⟨fun {L d ts us} htype hheight hpeak haround => ?_⟩
  cases htype with
  | @plain _ _ _ ins vs outs _ rest hp hsub hk' =>
    rw [List.length_append, hsub.length_eq] at hheight
    have hafter := plainAfter_typed hp (k := h) (by omega)
    obtain ⟨hpush, hrest⟩ := max_le_iff.mp hpeak
    have hnext := hk.safe (d := d) hk' (by rw [hafter, List.length_append]; omega) hrest
      (haround.next (Nat.le_succ ip))
    refine Safe.of_op hop ?_ (fun hraise => by cases hraise)
    intro hstart s' hs'
    have hstart : h ≤ C.maxOperands := hstart
    simp only [Op.next, handled_typed hp] at hs'
    rw [if_pos (by show ins.length ≤ h + 0; omega)] at hs'
    obtain rfl := List.mem_singleton.mp hs'
    show h + 0 - ins.length + outs.length ≤ _ ∧
      ∀ m < n, Safe C M.ctx m ⟨ip + 1, h + 0 - ins.length + outs.length⟩
    rw [Nat.add_zero, ← hafter]
    exact ⟨(plainAfter_le _ _ _).trans (max_le hstart hpush), fun m hm => hnext.mono hm.le⟩

/-- The op of a fused comparison is not there: its operands are taken with the branch. -/
theorem SafeFrom.fuse {kind : CmpKind}
    (hk : SafeFrom M locals results C n (some kind) Ls (plainAfter M.ctx (.relop kind) h) k ip ip'
      hs) : SafeFrom M locals results C n none Ls h (.plain (.relop kind) k) ip ip' hs := by
  refine ⟨fun {L d ts us} htype hheight hpeak haround => ?_⟩
  cases htype with
  | @plain _ _ _ ins vs outs _ rest hp hsub hk' =>
    cases hp
    rw [List.length_append, hsub.length_eq] at hheight
    have hafter : plainAfter M.ctx (.relop kind : PlainOp BigMemArg) h = h - 2 + 1 := rfl
    have hlen : ([IrVal.i32, .i32] : List IrVal).length = 2 := rfl
    have hnext := hk.safe (d := d) hk' (by
      rw [hafter, List.length_append, List.length_singleton]; omega) (max_le_iff.mp hpeak).2 haround
    have heq : h - 2 + 1 + 1 = h := by omega
    rw [hafter] at hnext
    show Safe C M.ctx n ⟨ip, h⟩
    rw [← heq]
    exact hnext

theorem SafeFrom.call {c : CallTarget} {out : Bool} (hop : C.ops[ip]? = some (.call c))
    (hcode : CodeAt C M.ctx true none Ls
      (h - Translator.callPops M.ctx c + (Translator.callSig M.ctx c).2.length) k (ip + 1) ip' out
      hs)
    (hk : SafeFrom M locals results C n none Ls
      (h - Translator.callPops M.ctx c + (Translator.callSig M.ctx c).2.length) k (ip + 1) ip' hs) :
    SafeFrom M locals results C n none Ls h (.call c k) ip ip' hs := by
  refine ⟨fun {L d ts us} htype hheight hpeak haround => ?_⟩
  cases htype with
  | @call _ _ _ vs _ rest hc hsub hk' =>
    rw [List.length_append, hsub.length_eq, ← M.callPops_eq] at hheight
    obtain ⟨hpush, hrest⟩ := max_le_iff.mp hpeak
    have hnext := hk.safe (d := d) hk' (by rw [List.length_append]; omega) hrest
      (haround.next (Nat.le_succ ip))
    have hrange := hcode.range
    refine Safe.of_op hop ?_ fun _ span hspan hstart hend => ?_
    · intro _ s' hs'
      simp only [Op.next, Option.isSome_none, Bool.toNat_false, Nat.add_zero] at hs'
      rw [if_pos (by omega)] at hs'
      obtain rfl := List.mem_singleton.mp hs'
      exact ⟨hpush, fun m hm => hnext.mono hm.le⟩
    · have hout : span ∉ hs := by
        intro hmem
        have hbegin := (hrange.2 span hmem).1
        have hstart : span.startIp ≤ ip := hstart
        omega
      exact haround.pads span hspan hout ip (le_refl _) (by omega) hstart hend

/-- A conditional branch goes on behind it or lands at its label. -/
theorem SafeFrom.cond {cmp : Option CmpKind} {c : CondBr} {op : Op} {e : BranchTarget} {src : ℕ}
    (hop : C.ops[ip]? = some op) (hraise : op.raises = false)
    (hnext : ∀ s' ∈ op.next C M.ctx ip (h + cmp.isSome.toNat),
      s' = ⟨ip + 1, c.after h⟩ ∨ s' ∈ jumpTo e src)
    (hle : c.after h ≤ h) (hfrom : src ≤ h) (he : EdgeTo Ls src c.label e)
    (hk : SafeFrom M locals results C n none Ls (c.after h) k (ip + 1) ip' hs) :
    SafeFrom M locals results C n cmp Ls h (.cond c k) ip ip' hs := by
  refine ⟨fun {L d ts us} htype hheight hpeak haround => ?_⟩
  cases htype with
  | cond hc hk' =>
    obtain ⟨hrest, hlabel⟩ := haround.cond
    refine Safe.of_branch hop hraise hnext (hle.trans (Nat.le_add_right _ _))
      (hfrom.trans (Nat.le_add_right _ _)) ?_ (he.lands hlabel)
    exact hk.safe hk' (by rw [hheight]; exact condTyped_after hc d) (max_le_iff.mp hpeak).2 hrest

theorem SafeFrom.brIf {cmp : Option CmpKind} {l : ℕ} {e : BranchTarget}
    (hop : C.ops[ip]? = some (Translator.condBranch cmp false e)) (he : EdgeTo Ls (h - 1) l e)
    (hk : SafeFrom M locals results C n none Ls (h - 1) k (ip + 1) ip' hs) :
    SafeFrom M locals results C n cmp Ls h (.cond (.brIf l) k) ip ip' hs :=
  .cond hop (condBranch_raises cmp false e) (fun _ hs' => mem_condBranch_next hs') (Nat.sub_le _ _)
    (Nat.sub_le _ _) he hk

theorem SafeFrom.brOnNull {l : ℕ} {e : BranchTarget} (hh : 1 ≤ h)
    (hop : C.ops[ip]? = some (.brOnNull e)) (he : EdgeTo Ls (h - 1) l e)
    (hk : SafeFrom M locals results C n none Ls (h - 1 + 1) k (ip + 1) ip' hs) :
    SafeFrom M locals results C n none Ls h (.cond (.brOnNull l) k) ip ip' hs := by
  have hsame : h - 1 + 1 = h := by omega
  refine .cond hop rfl (fun s' hs' => ?_) hsame.le (Nat.sub_le _ _) he hk
  simp only [Op.next, Option.isSome_none, Bool.toNat_false, Nat.add_zero] at hs'
  rw [if_pos hh, List.mem_cons] at hs'
  show s' = ⟨ip + 1, h - 1 + 1⟩ ∨ _
  rw [hsame]
  exact hs'

theorem SafeFrom.brOnNonNull {l : ℕ} {e : BranchTarget} (hop : C.ops[ip]? = some (.brOnNonNull e))
    (he : EdgeTo Ls h l e)
    (hk : SafeFrom M locals results C n none Ls (h - 1) k (ip + 1) ip' hs) :
    SafeFrom M locals results C n none Ls h (.cond (.brOnNonNull l) k) ip ip' hs := by
  refine .cond hop rfl (fun s' hs' => ?_) (Nat.sub_le _ _) (le_refl h) he hk
  simp only [Op.next, Option.isSome_none, Bool.toNat_false, Nat.add_zero] at hs'
  split at hs'
  · exact List.mem_cons.mp hs'
  · cases hs'

theorem SafeFrom.brOnCast {l pool : ℕ} {ty : IrHeap} {nullable fail : Bool} {e : BranchTarget}
    (hop : C.ops[ip]? = some (.brOnCast ty pool nullable fail)) (hpool : C.brTables[pool]? = some e)
    (he : EdgeTo Ls h l e) (hk : SafeFrom M locals results C n none Ls h k (ip + 1) ip' hs) :
    SafeFrom M locals results C n none Ls h (.cond (.brOnCast l ty nullable fail) k) ip ip' hs := by
  refine .cond hop rfl (fun s' hs' => ?_) (le_refl h) (le_refl h) he hk
  simp only [Op.next, Option.isSome_none, Bool.toNat_false, Nat.add_zero, hpool] at hs'
  split at hs'
  · exact List.mem_cons.mp hs'
  · cases hs'

/-- An op that leaves for good and raises nothing. -/
theorem SafeFrom.jump {j : Jump} {op : Op} (hop : C.ops[ip]? = some op) (hraise : op.raises = false)
    (hnext : ∀ s' ∈ op.next C M.ctx ip h, s'.height ≤ h ∧
      ((∃ l ∈ j.labels, ∃ e src, EdgeTo Ls src l e ∧ s' ∈ jumpTo e src) ∨
        ∃ T, Ls.getLast? = some T ∧ s'.ip = T.ip)) :
    SafeFrom M locals results C n none Ls h (.jump j k) ip (ip + 1) [] := by
  refine ⟨fun {L d ts us} htype hheight hpeak haround => ?_⟩
  refine Safe.of_op hop ?_ (fun h => by rw [hraise] at h; cases h)
  intro hstart s' hs'
  have hstart : h ≤ C.maxOperands := hstart
  obtain ⟨hle, ⟨l, hl, e, src, he, hto⟩ | ⟨T, hT, hip⟩⟩ := hnext s' hs'
  · exact ⟨hle.trans hstart, he.lands (haround.exits l (List.mem_append_left _ hl)) s' hto⟩
  · obtain ⟨T', hT', hend⟩ := haround.root
    obtain rfl := Option.some.inj (hT.symm.trans hT')
    exact ⟨hle.trans hstart, fun m _ => Safe.of_end (hip.trans hend)⟩

theorem SafeFrom.br {l : ℕ} {e : BranchTarget} (hop : C.ops[ip]? = some (.br e))
    (he : EdgeTo Ls h l e) :
    SafeFrom M locals results C n none Ls h (.jump (.br l) k) ip (ip + 1) [] := by
  refine .jump hop rfl fun s' hs' => ⟨?_, .inl ⟨l, List.mem_singleton.mpr rfl, e, h, he, hs'⟩⟩
  rw [mem_jumpTo hs']
  exact Nat.sub_le _ _

theorem SafeFrom.brTable {cases : List ℕ} {default base : ℕ}
    (hop : C.ops[ip]? = some (.brTable base cases.length)) (hh : 1 ≤ h)
    (he : ∀ i l, (cases ++ [default])[i]? = some l →
      ∃ e, C.brTables[base + i]? = some e ∧ EdgeTo Ls (h - 1) l e) :
    SafeFrom M locals results C n none Ls h (.jump (.brTable cases default) k) ip (ip + 1) [] := by
  refine .jump hop rfl fun s' hs' => ?_
  simp only [Op.next] at hs'
  rw [if_pos hh, List.mem_flatMap] at hs'
  obtain ⟨i, hi, hs'⟩ := hs'
  have hi : i < (cases ++ [default]).length := by
    rw [List.length_append, List.length_singleton]
    exact List.mem_range.mp hi
  obtain ⟨e, hedge, hto⟩ := he i _ (List.getElem?_eq_getElem hi)
  rw [hedge] at hs'
  refine ⟨?_, .inl ⟨_, List.getElem_mem hi, e, h - 1, hto, hs'⟩⟩
  rw [mem_jumpTo hs']
  exact (Nat.sub_le _ _).trans (Nat.sub_le _ _)

theorem SafeFrom.ret {T : Target} (hT : Ls.getLast? = some T)
    (hop : C.ops[ip]? = some (.br ⟨T.ip, T.arity, h - T.arity⟩)) :
    SafeFrom M locals results C n none Ls h (.jump .ret k) ip (ip + 1) [] := by
  refine .jump hop rfl fun s' hs' => ?_
  rw [mem_jumpTo hs']
  exact ⟨Nat.sub_le _ _, .inr ⟨T, hT, rfl⟩⟩

/-- An op that raises an exception leaves for the pads around it. -/
theorem SafeFrom.raise {j : Jump} {op : Op} (hop : C.ops[ip]? = some op)
    (hnext : op.next C M.ctx ip h = []) :
    SafeFrom M locals results C n none Ls h (.jump j k) ip (ip + 1) [] := by
  refine ⟨fun {L d ts us} htype hheight hpeak haround => ?_⟩
  refine Safe.of_op hop ?_ fun _ span hspan hstart hend => ?_
  · intro _ s' hs'
    have hs' : s' ∈ op.next C M.ctx ip h := hs'
    rw [hnext] at hs'
    cases hs'
  · exact haround.pads span hspan List.not_mem_nil ip (le_refl _) (Nat.lt_succ_self _) hstart hend

end Constructs

section Blocks

variable {results : List IrVal} {L : List (List IrVal)} {n : ℕ} {Ls : List Target} {h : ℕ}
  {bt : BlockType} {k : Body} {ip x ip' : ℕ} {live out : Bool} {S hs' : List HandlerSpan}
  {rest us : List IrVal} {d : ℕ}

/-- The heights below and behind a block, from the type of the operands at its start. -/
theorem blockArity_height (hheight : h = d + (rest.length + (M.blockType bt).1.length)) :
    h - (Translator.blockArity M.ctx bt).1 = d + rest.length ∧
      (Translator.blockArity M.ctx bt).2 = (M.blockType bt).2.length := by
  rw [M.blockArity_eq]
  exact ⟨by omega, rfl⟩

/-- The sequence behind a block, if it is reached. -/
theorem safe_behind {after : Bool} {e : List ℕ} {g : Bool}
    (hk : live = true → SafeFrom M locals results C n none Ls
      (h - (Translator.blockArity M.ctx bt).1 + (Translator.blockArity M.ctx bt).2) k x ip' hs')
    (htype : M.HasType locals results L k (rest ++ (M.blockType bt).2) us)
    (hheight : h = d + (rest.length + (M.blockType bt).1.length))
    (hpeak : (k.recorded M.ctx after (h - (Translator.blockArity M.ctx bt).1 +
      (Translator.blockArity M.ctx bt).2)).peak ≤ C.maxOperands)
    (haround : Around C M.ctx n Ls ((k.flow M.ctx after (h - (Translator.blockArity M.ctx bt).1 +
      (Translator.blockArity M.ctx bt).2)).after e g) ip ip' (d + us.length) (S ++ hs'))
    (hx : ip ≤ x) (hbefore : ∀ span ∈ S, span.endIp ≤ x) (hlive : after = true → live = true) :
    after = true → Safe C M.ctx n ⟨x, d + rest.length + (M.blockType bt).2.length⟩ := by
  rintro rfl
  obtain ⟨hbase, hres⟩ := blockArity_height hheight
  rw [hbase, hres] at hk hpeak haround
  exact (hk (hlive rfl)).safe htype (by rw [List.length_append]; omega) hpeak
    (haround.behind hx hbefore)

end Blocks

/-- A region: its body ends behind it or at its landing pads, and a branch to a loop starts it again
with fewer steps to go. -/
theorem SafeFrom.region {results : List IrVal} {n : ℕ} {Ls : List Target} {h : ℕ} {r : Region}
    {bt : BlockType} {b k : Body} {ip e x ip' : ℕ} {live inner out : Bool}
    {hs hs' spans : List HandlerSpan} (hps : (Translator.blockArity M.ctx bt).1 ≤ h)
    (hb : CodeAt C M.ctx true none (regionTarget M.ctx r bt h ip x live :: Ls) h b ip e inner hs)
    (hlv : inner = true → live = true)
    (hend : RegionEnd C M.ctx Ls (h - (Translator.blockArity M.ctx bt).1)
      (Translator.blockArity M.ctx bt).2 ip r e x spans)
    (hk : CodeAt C M.ctx live none Ls
      (h - (Translator.blockArity M.ctx bt).1 + (Translator.blockArity M.ctx bt).2) k x ip' out hs')
    (ihb : SafeFrom M locals results C n none
    (regionTarget M.ctx r bt h ip x live :: Ls) h b ip e hs)
    (ihk : live = true → SafeFrom M locals results C n none Ls
      (h - (Translator.blockArity M.ctx bt).1 + (Translator.blockArity M.ctx bt).2) k x ip' hs')
    (ihn : ∀ m < n, SafeFrom M locals results C m none Ls h (.region r bt b k) ip ip'
      (hs ++ spans ++ hs')) :
    SafeFrom M locals results C n none Ls h (.region r bt b k) ip ip' (hs ++ spans ++ hs') := by
  refine ⟨fun {L d ts us} htype hheight hpeak haround => ?_⟩
  have hagain : ∀ m < n, Safe C M.ctx m ⟨ip, h⟩ := fun m hm =>
    (ihn m hm).safe htype hheight hpeak (haround.mono hm.le)
  cases htype with
  | @region _ _ _ _ _ vs _ rest hsub hr hb' hk' =>
    rw [List.length_append, hsub.length_eq] at hheight
    obtain ⟨hbase, hres⟩ := blockArity_height hheight
    obtain ⟨hfall, hexits⟩ := hb.reaches rfl
    obtain ⟨hx, hspans⟩ := hend.range
    have hbrange := hb.range
    have hkrange := hk.range
    obtain ⟨hpeak', hkpeak⟩ := max_le_iff.mp hpeak
    have hbpeak := (max_le_iff.mp hpeak').1
    have hbefore : ∀ span ∈ hs ++ spans, span.endIp ≤ x := by
      intro span hspan
      rw [List.mem_append] at hspan
      obtain hspan | hspan := hspan
      · exact (hbrange.2 span hspan).2.trans hx
      · exact (hspans span hspan).2.trans hx
    have hrest := safe_behind ihk hk' hheight hkpeak haround (hbrange.1.trans hx) hbefore
      (region_live hfall hexits hlv)
    refine ihb.safe (d := d + rest.length) hb' (by omega) hbpeak
      ⟨?_, ?_, root_cons _ haround.root, ?_⟩
    · intro hend'
      have hbehind := hrest (by
        by_cases hr : r = .loop
        · rw [if_pos hr]
          exact hend'
        · rw [if_neg hr, hend', Bool.true_or])
      cases hend with
      | block => exact hbehind
      | loop => exact hbehind
      | tryTable hop hp => exact Safe.of_br hop fun m hm => hbehind.mono hm.le
    · rintro (_ | l) hl T hT m hm
      · obtain rfl := Option.some.inj hT
        unfold regionTarget
        by_cases hr : r = .loop
        · rw [if_pos hr]
          have hsame : h - (Translator.blockArity M.ctx bt).1 + (Translator.blockArity M.ctx bt).1
              = h := by omega
          show Safe C M.ctx m ⟨ip, h - (Translator.blockArity M.ctx bt).1 +
            (Translator.blockArity M.ctx bt).1⟩
          rw [hsame]
          exact hagain m hm
        · rw [if_neg hr]
          show Safe C M.ctx m ⟨x, h - (Translator.blockArity M.ctx bt).1 +
            (Translator.blockArity M.ctx bt).2⟩
          rw [hbase, hres]
          refine (hrest ?_).mono hm.le
          rw [if_neg hr, decide_eq_true hl, Bool.or_true]
      · exact haround.exits l (List.mem_append_left _ (List.mem_append_left _
          (mem_outerLabels.mpr hl))) T hT m hm
    · intro span hspan hout j hj hj' hstart hend' rec hrec m hm
      by_cases hmem : span ∈ hs ++ spans ++ hs'
      · rw [List.mem_append, List.mem_append] at hmem
        obtain (hmem | hmem) | hmem := hmem
        · exact absurd hmem hout
        · -- the pads of this region branch to labels outside
          cases hend with
          | block => cases hmem
          | loop => cases hmem
          | tryTable hop hp =>
            obtain rfl := List.mem_singleton.mp hmem
            refine hp.safe (n := m) (fun l hl T hT k hk => ?_) rec hrec
            exact haround.exits l (List.mem_append_left _ (List.mem_append_right _ hl)) T hT k
              (hk.trans hm)
        · have := (hkrange.2 span hmem).1
          omega
      · exact haround.pads span hspan hmem j hj (by omega) hstart hend' rec hrec m hm

/-- The labels named in a part of an `if`: its own end, or one outside. -/
theorem Around.part {e : List ℕ} {g : Bool}
    (haround : Around C M.ctx n Ls (f.after (outerLabels e) g) ip ip' after hs) {T : Target}
    (hend : 0 ∈ e → Safe C M.ctx n ⟨T.ip, T.base + T.arity⟩) :
    ∀ l ∈ e, ∀ T', (T :: Ls)[l]? = some T' →
      ∀ m < n, Safe C M.ctx m ⟨T'.ip, T'.base + T'.arity⟩ := by
  rintro (_ | l) hl T' hT m hm
  · obtain rfl := Option.some.inj hT
    exact (hend hl).mono hm.le
  · exact haround.exits l (List.mem_append_left _ (mem_outerLabels.mpr hl)) T' hT m hm

/-- The pads around a part of an `if` are those around the `if`: the spans of its other part and of
what is behind it lie elsewhere. -/
theorem Around.pads_part {lo hi : ℕ} {S T U : List HandlerSpan}
    (h : Around C M.ctx n Ls f ip ip' after (S ++ T ++ U)) (hlo : ip ≤ lo) (hhi : hi ≤ ip')
    (h₁ : ∀ span ∈ S, span.endIp ≤ lo) (h₃ : ∀ span ∈ U, hi ≤ span.startIp) :
    ∀ span ∈ C.handlers, span ∉ T → ∀ j, lo ≤ j → j < hi → span.startIp ≤ j → j < span.endIp →
      ∀ r ∈ span.clauses, ∀ m < n, Safe C M.ctx m (r.landing M.ctx) := by
  intro span hspan hout j hj hj' hstart hend rec hrec m hm
  refine h.pads span hspan ?_ j (hlo.trans hj) (by omega) hstart hend rec hrec m hm
  intro hmem
  rw [List.mem_append, List.mem_append] at hmem
  obtain (hmem | hmem) | hmem := hmem
  · have := h₁ span hmem
    omega
  · exact hout hmem
  · have := h₃ span hmem
    omega

theorem SafeFrom.ifElse {results : List IrVal} {n : ℕ} {cmp : Option CmpKind} {Ls : List Target}
    {h : ℕ} {bt : BlockType} {t e k : Body} {ip e₁ elseIp x ip' : ℕ} {live out₁ out₂ out : Bool}
    {hs₁ hs₂ hs₃ : List HandlerSpan}
    (hop : C.ops[ip]? = some (Translator.condBranch cmp true ⟨elseIp, 0, 0⟩))
    (ht : CodeAt C M.ctx true none
      (⟨x, h - 1 - (Translator.blockArity M.ctx bt).1, (Translator.blockArity M.ctx bt).2, live⟩
        :: Ls)
      (h - 1) t (ip + 1) e₁ out₁ hs₁)
    (hjump : out₁ = true → elseIp = e₁ + 1 ∧ live = true ∧
      C.ops[e₁]? = some (.br ⟨x, (Translator.blockArity M.ctx bt).2, 0⟩))
    (hskip : out₁ = false → elseIp = e₁)
    (he : CodeAt C M.ctx true none
      (⟨x, h - 1 - (Translator.blockArity M.ctx bt).1, (Translator.blockArity M.ctx bt).2, live⟩
        :: Ls)
      (h - 1) e elseIp x out₂ hs₂)
    (hlv : out₂ = true → live = true)
    (hk : CodeAt C M.ctx live none Ls (h - 1 - (Translator.blockArity M.ctx bt).1 +
      (Translator.blockArity M.ctx bt).2) k x ip' out hs₃)
    (iht : SafeFrom M locals results C n none
      (⟨x, h - 1 - (Translator.blockArity M.ctx bt).1, (Translator.blockArity M.ctx bt).2, live⟩
        :: Ls)
      (h - 1) t (ip + 1) e₁ hs₁)
    (ihe : SafeFrom M locals results C n none
      (⟨x, h - 1 - (Translator.blockArity M.ctx bt).1, (Translator.blockArity M.ctx bt).2, live⟩
        :: Ls)
      (h - 1) e elseIp x hs₂)
    (ihk : live = true → SafeFrom M locals results C n none Ls
      (h - 1 - (Translator.blockArity M.ctx bt).1 + (Translator.blockArity M.ctx bt).2) k x
        ip' hs₃) :
    SafeFrom M locals results C n cmp Ls h (.ifElse bt t e k) ip ip' (hs₁ ++ hs₂ ++ hs₃) := by
  refine ⟨fun {L d ts us} htype hheight hpeak haround => ?_⟩
  cases htype with
  | @ifElse _ _ _ _ _ vs _ rest hsub ht' he' hk' =>
    rw [List.length_append, List.length_append, hsub.length_eq, List.length_singleton] at hheight
    have hheight' : h - 1 = d + (rest.length + (M.blockType bt).1.length) := by omega
    obtain ⟨hbase, hres⟩ := blockArity_height hheight'
    obtain ⟨hfall, hexits⟩ := ht.reaches rfl
    obtain ⟨hfall', hexits'⟩ := he.reaches rfl
    have htrange := ht.range
    have herange := he.range
    have hkrange := hk.range
    have helse : e₁ ≤ elseIp := by
      cases out₁ with
      | true => have := (hjump rfl).1; omega
      | false => rw [hskip rfl]
    obtain ⟨hparts, hkpeak⟩ := max_le_iff.mp hpeak
    obtain ⟨htpeak, hepeak⟩ := max_le_iff.mp hparts
    have hbefore : ∀ span ∈ hs₁ ++ hs₂, span.endIp ≤ x := by
      intro span hspan
      rw [List.mem_append] at hspan
      obtain hspan | hspan := hspan
      · have := (htrange.2 span hspan).2
        omega
      · exact (herange.2 span hspan).2
    have hrest : ((e.flow M.ctx true (h - 1)).live || ((t.flow M.ctx true (h - 1)).live ||
        decide (0 ∈ (t.flow M.ctx true (h - 1)).exits ++ (e.flow M.ctx true (h - 1)).exits))) =
        true → Safe C M.ctx n ⟨x, d + rest.length + (M.blockType bt).2.length⟩ :=
      safe_behind ihk hk' hheight' hkpeak haround (by omega) hbefore
        (ifElse_live hfall hfall' (live_append hexits hexits')
        (fun h => (hjump h).2.1) hlv)
    have hlabels := haround.part (T := ⟨x, h - 1 - (Translator.blockArity M.ctx bt).1,
      (Translator.blockArity M.ctx bt).2, live⟩) fun hmem => by
        show Safe C M.ctx n ⟨x, h - 1 - (Translator.blockArity M.ctx bt).1 +
          (Translator.blockArity M.ctx bt).2⟩
        rw [hbase, hres]
        refine hrest ?_
        rw [Bool.or_eq_true, Bool.or_eq_true]
        exact .inr (.inr (decide_eq_true hmem))
    have hthen := iht.safe (d := d + rest.length) ht' (by omega) htpeak ⟨?_,
      fun l hl => hlabels l (List.mem_append_left _ hl), root_cons _ haround.root, ?_⟩
    have helse' := ihe.safe (d := d + rest.length) he' (by omega) hepeak ⟨?_,
      fun l hl => hlabels l (List.mem_append_right _ hl), root_cons _ haround.root, ?_⟩
    · refine Safe.of_branch hop (condBranch_raises cmp true _)
        (fun _ hs' => mem_condBranch_next hs')
        (by show h - 1 ≤ _; omega) (by omega) hthen fun s' hs' m hm => ?_
      obtain rfl := mem_jumpTo hs'
      exact helse'.mono hm.le
    · exact fun hend => hrest (by rw [hend, Bool.true_or])
    · refine haround.pads_part (by omega) hkrange.1 (fun span hspan => ?_) fun span hspan =>
        (hkrange.2 span hspan).1
      have := (htrange.2 span hspan).2
      omega
    · intro hend
      obtain ⟨-, -, hbr⟩ := hjump (hfall hend)
      exact Safe.of_br hbr fun m hm => (hrest (by rw [hend, Bool.true_or, Bool.or_true])).mono hm.le
    · rw [List.append_assoc] at haround
      refine haround.pads_part (S := []) (by omega) (by omega) nofun fun span hspan => ?_
      rw [List.mem_append] at hspan
      obtain hspan | hspan := hspan
      · have := (herange.2 span hspan).1
        omega
      · have := (hkrange.2 span hspan).1
        omega

/-- An `if` without an `else` leaves its parameters as its results. -/
theorem SafeFrom.ifThen {results : List IrVal} {n : ℕ} {cmp : Option CmpKind} {Ls : List Target}
    {h : ℕ} {bt : BlockType} {t k : Body} {ip x ip' : ℕ} {out₁ out : Bool}
    {hs₁ hs₂ : List HandlerSpan} (hop : C.ops[ip]?
    = some (Translator.condBranch cmp true ⟨x, 0, 0⟩))
    (ht : CodeAt C M.ctx true none
      (⟨x, h - 1 - (Translator.blockArity M.ctx bt).1, (Translator.blockArity M.ctx bt).2, true⟩
        :: Ls)
      (h - 1) t (ip + 1) x out₁ hs₁)
    (hk : CodeAt C M.ctx true none Ls (h - 1 - (Translator.blockArity M.ctx bt).1 +
      (Translator.blockArity M.ctx bt).2) k x ip' out hs₂)
    (iht : SafeFrom M locals results C n none
      (⟨x, h - 1 - (Translator.blockArity M.ctx bt).1, (Translator.blockArity M.ctx bt).2, true⟩
        :: Ls)
      (h - 1) t (ip + 1) x hs₁)
    (ihk : SafeFrom M locals results C n none Ls
      (h - 1 - (Translator.blockArity M.ctx bt).1 + (Translator.blockArity M.ctx bt).2) k x
        ip' hs₂) :
    SafeFrom M locals results C n cmp Ls h (.ifThen bt t k) ip ip' (hs₁ ++ hs₂) := by
  refine ⟨fun {L d ts us} htype hheight hpeak haround => ?_⟩
  cases htype with
  | @ifThen _ _ _ _ vs _ rest hsub hpr ht' hk' =>
    rw [List.length_append, List.length_append, hsub.length_eq, List.length_singleton] at hheight
    have hheight' : h - 1 = d + (rest.length + (M.blockType bt).1.length) := by omega
    obtain ⟨hbase, hres⟩ := blockArity_height hheight'
    have htrange := ht.range
    have hkrange := hk.range
    have hsame := hpr.length_eq
    obtain ⟨htpeak, hkpeak⟩ := max_le_iff.mp hpeak
    have hrest := safe_behind (fun _ => ihk) hk' hheight' hkpeak haround (by omega)
      (fun span hspan => (htrange.2 span hspan).2) (fun _ => rfl) (Bool.or_true _)
    have hthen := iht.safe (d := d + rest.length) ht' (by omega) htpeak
      ⟨fun _ => hrest, haround.part fun _ => ?_, root_cons _ haround.root, ?_⟩
    · refine Safe.of_branch hop (condBranch_raises cmp true _)
        (fun _ hs' => mem_condBranch_next hs')
        (by show h - 1 ≤ _; omega) (by omega) hthen fun s' hs' m hm => ?_
      obtain rfl := mem_jumpTo hs'
      have hend : h - 1 - 0 = d + rest.length + (M.blockType bt).2.length := by omega
      show Safe C M.ctx m ⟨x, h - 1 - 0⟩
      rw [hend]
      exact hrest.mono hm.le
    · show Safe C M.ctx n ⟨x, h - 1 - (Translator.blockArity M.ctx bt).1 +
        (Translator.blockArity M.ctx bt).2⟩
      rw [hbase, hres]
      exact hrest
    · exact haround.pads_part (S := []) (by omega) hkrange.1 nofun fun span hspan =>
        (hkrange.2 span hspan).1

/-- **From every point of the layout, the heights stay under the peak.** -/
theorem CodeAt.safe {results : List IrVal} (n : ℕ) {live : Bool} {cmp : Option CmpKind} {b : Body}
    {out : Bool} (hcode : CodeAt C M.ctx live cmp Ls h b ip ip' out hs) :
    live = true → SafeFrom M locals results C n cmp Ls h b ip ip' hs := by
  induction n using Nat.strong_induction_on generalizing live cmp Ls h b ip ip' out hs with
  | _ n ihn =>
  induction hcode with
  | dead => exact fun hlive => absurd hlive Bool.false_ne_true
  | done => exact fun _ => .done
  | plain hop hp hk ih =>
    subst hp
    exact fun _ => .plain hop (ih rfl)
  | fuse hk ih => exact fun _ => .fuse (ih rfl)
  | region hps hb hlv hloop hend hk ihb ihk =>
    exact fun _ => .region hps hb hlv hend hk (ihb rfl) ihk fun m hm =>
      ihn m hm (.region hps hb hlv hloop hend hk) rfl
  | ifElse hps hop ht hjump hskip he hlv hk iht ihe ihk =>
    exact fun _ => .ifElse hop ht hjump hskip he hlv hk (iht rfl) (ihe rfl) ihk
  | ifThen hps hop ht hk iht ihk => exact fun _ => .ifThen hop ht hk (iht rfl) (ihk rfl)
  | br hop he => exact fun _ => .br hop he
  | brTable hop hh he => exact fun _ => .brTable hop hh he
  | ret hT hh hop => exact fun _ => .ret hT hop
  | unreachable hop | throw hop | throwRef hop | returnCall hop => exact fun _ => .raise hop rfl
  | brIf hh hop he hk ih => exact fun _ => .brIf hop he (ih rfl)
  | brOnNull hh hop he hk ih => exact fun _ => .brOnNull hh hop he (ih rfl)
  | brOnNonNull hop he hk ih => exact fun _ => .brOnNonNull hop he (ih rfl)
  | brOnCast hop hpool he hk ih => exact fun _ => .brOnCast hop hpool he (ih rfl)
  | call hop hk ih => exact fun _ => .call hop hk (ih rfl)

/-- Around the body of a function there is only its end. -/
theorem Around.function :
    Around C M.ctx n [⟨C.ops.length, 0, C.nResults, true⟩] f 0 C.ops.length after C.handlers := by
  refine ⟨fun _ => Safe.of_end rfl, ?_, ⟨_, rfl, rfl⟩, fun span hspan hout => absurd hspan hout⟩
  rintro (_ | l) hl T hT m hm
  · obtain rfl := Option.some.inj hT
    exact Safe.of_end rfl
  · cases hT

end Typed

/-! ## Runs -/

section Runs

variable {C : CompiledFunc} {ctx : CompileCtx}

/-- What was caught landed at the pad of its clause. -/
theorem FrameRun.caught_height {s s' : Spot} {es : List FrameEvent} (h : FrameRun C ctx s es s') :
    ∀ e ∈ es, ∀ clause ∈ e.caught, e.height = (C.recorded ctx).landing clause := by
  induction h with
  | nil =>
    intro e he
    cases he
  | cons hstep hrun ih =>
    intro e he clause hclause
    rw [List.mem_cons] at he
    obtain rfl | he := he
    · cases hstep with
      | run hop h => cases hclause
      | @caught op i j span r hop hraise hspan hstart hend hr =>
        obtain rfl := Option.some.inj hclause
        show r.restoreHeight + r.payload ctx
          = ((C.handlers.map (HandlerSpan.landings ctx)).getD i []).getD j 0
        simp [List.getD_eq_getElem?_getD, HandlerSpan.landings, hspan, hr]
    · exact ih e he clause hclause

/-- A run from a safe point stays under the peak. -/
theorem FrameRun.bounded {s s' : Spot} {es : List FrameEvent} (h : FrameRun C ctx s es s')
    (hsafe : Safe C ctx es.length s) (hs : s.height ≤ C.maxOperands)
    (hland : ∀ e ∈ es, e.caught.isSome = true → e.height ≤ C.maxOperands) :
    ∀ e ∈ es, e.height ≤ C.maxOperands := by
  induction h with
  | nil =>
    intro e he
    cases he
  | @cons s c s' es s'' hstep hrun ih =>
    obtain ⟨hheight, hnext⟩ := hsafe hs _ _ hstep (hland _ List.mem_cons_self)
    intro e he
    rw [List.mem_cons] at he
    obtain rfl | he := he
    · exact hheight
    · exact ih hnext hheight (fun e he => hland e (List.mem_cons_of_mem _ he)) e he

end Runs

/-- **The recorded peak is the greatest height the body pushes to, and the heights of a run stay
under it exactly if the clauses that catch in it land there.** -/
theorem maxOperands_peak {M : ModuleTypes} {typeIdx used : ℕ} {declared : List (ℕ × IrVal)}
    {b : Body}
    {C : CompiledFunc} (hb : M.Validated typeIdx declared b)
    (hC : translateFunction M.ctx used typeIdx declared b.operators = .ok C) {es : List FrameEvent}
    {s : Spot} (hrun : FrameRun C M.ctx ⟨0, 0⟩ es s) :
    C.maxOperands = (b.recorded M.ctx true 0).peak ∧
      ((∀ e ∈ es, e.height ≤ C.maxOperands) ↔ ∀ e ∈ es, ∀ clause ∈ e.caught,
        (b.recorded M.ctx true 0).landing clause ≤ (b.recorded M.ctx true 0).peak) := by
  have hrecorded := translateFunction_recorded hb hC
  have hpeak : C.maxOperands = (b.recorded M.ctx true 0).peak := congrArg Recorded.peak hrecorded
  rw [← hpeak, ← hrecorded]
  refine ⟨rfl, fun h e he clause hclause => ?_, fun hlanding => ?_⟩
  · rw [← hrun.caught_height e he clause hclause]
    exact h e he
  · obtain ⟨out, hcode⟩ := translateFunction_code hC
    refine hrun.bounded ?_ (Nat.zero_le _) fun e he hsome => ?_
    · exact (hcode.safe es.length rfl).safe hb.typed (d := 0) rfl hpeak.ge .function
    · obtain ⟨clause, hclause⟩ := Option.isSome_iff_exists.mp hsome
      rw [hrun.caught_height e he clause hclause]
      exact hlanding e he clause hclause

/-! ## A payload that is not counted -/

/-- The types `[] → []`, `[i32 i32 i32] → []` of a tag and `[] → [i32 i32 i32]` of a block, and two
functions. -/
def catchTypes : ModuleTypes where
  ctx := ⟨[⟨0, .final, none, .func [] []⟩, ⟨1, .final, none, .func [.i32, .i32, .i32] []⟩,
    ⟨2, .final, none, .func [] [.i32, .i32, .i32]⟩], [0, 0], [1], 50000⟩
  globals := []
  tables := []
  memories := []
  elems := []
  sub := Eq
  sub_refl := Eq.refl
  sub_refKind := @IrVal.refKind_eq

/-- `block (result i32 i32 i32) try_table (catch 0 0) call 0 end unreachable end drop drop drop`. -/
def catchThree : Body :=
  .region .block (.funcType 2)
    (.region (.tryTable [.one 0 0]) .empty (.call (.func 0) .done) (.jump .unreachable .done))
    (.plain .drop (.plain .drop (.plain .drop .done)))

/-- The same with three operands pushed and dropped in front. -/
def countThree : Body :=
  .plain (.i32Const 0) (.plain (.i32Const 0) (.plain (.i32Const 0)
    (.plain .drop (.plain .drop (.plain .drop catchThree)))))

/-- The clause of the landing pad at `ip`. -/
def catchAt (ip : ℕ) : HandlerRec := ⟨some 0, 0, true, false, ip⟩

/-- The code of `catchThree`. -/
def catchCode : CompiledFunc where
  ops := [.call (.func 0), .br ⟨3, 0, 0⟩, .br ⟨4, 3, 0⟩, .unreachable, .plain .drop, .plain .drop,
    .plain .drop]
  typeIdx := 0
  nParams := 0
  nResults := 0
  localTypes := []
  maxOperands := 0
  handlers := [⟨0, 1, [catchAt 2]⟩]
  brTables := []
  bigMemargs := []

/-- The code of `countThree`. -/
def countCode : CompiledFunc where
  ops := [.plain (.i32Const 0), .plain (.i32Const 0), .plain (.i32Const 0), .plain .drop,
    .plain .drop,
    .plain .drop, .call (.func 0), .br ⟨9, 0, 0⟩, .br ⟨10, 3, 0⟩, .unreachable, .plain .drop,
    .plain .drop, .plain .drop]
  typeIdx := 0
  nParams := 0
  nResults := 0
  localTypes := []
  maxOperands := 3
  handlers := [⟨6, 7, [catchAt 8]⟩]
  brTables := []
  bigMemargs := []

theorem catchThree_typed : catchTypes.HasType [] [] [[]] catchThree [] [] := by
  have callOk : catchTypes.CallOk (.func 0) := by
    show 0 < 2
    decide
  have tagOk : ModuleTypes.Catch.tagOk catchTypes (.one 0 0) := by
    show 0 < 1
    decide
  refine .region [] .nil trivial ?_ ?_
  · refine .region [] .nil ?_ (.call [] callOk .nil (.done .nil)) (.jump (.unreachable _))
    intro clause hclause
    obtain rfl := List.mem_singleton.mp hclause
    exact ⟨tagOk, _, rfl, .cons rfl (.cons rfl (.cons rfl .nil))⟩
  · have hdrop : catchTypes.Subs [.i32] [.i32] := .cons rfl .nil
    exact .plain [.i32, .i32] (.drop .i32) hdrop (.plain [.i32] (.drop .i32) hdrop
      (.plain [] (.drop .i32) hdrop (.done .nil)))

example : catchThree.recorded catchTypes.ctx true 0 = ⟨0, [[3]]⟩ := by decide

theorem catchTypes_arity (i : ℕ) : (catchTypes.ctx.sig i).2.length ≤ 1000 := by
  rcases i with _ | _ | _ | i
  · decide
  · decide
  · decide
  · exact Nat.zero_le _

theorem catchThree_validated : catchTypes.Validated 0 [] catchThree :=
  ⟨catchThree_typed, by decide, catchTypes_arity⟩

theorem countThree_validated : catchTypes.Validated 0 [] countThree := by
  refine ⟨?_, by decide, catchTypes_arity⟩
  have hdrop : catchTypes.Subs [.i32] [.i32] := .cons rfl .nil
  exact .plain [] (.i32Const 0) .nil
    (.plain [.i32] (.i32Const 0) .nil (.plain [.i32, .i32] (.i32Const 0)
    .nil (.plain [.i32, .i32] (.drop .i32) hdrop (.plain [.i32] (.drop .i32) hdrop
      (.plain [] (.drop .i32) hdrop catchThree_typed)))))

/-- Three operands, their drops, and the exception of the call behind them. -/
theorem maxOperands_peak_countThree :
    ∃ es s, FrameRun countCode catchTypes.ctx ⟨0, 0⟩ es s ∧
      ∀ e ∈ es, e.height ≤ countCode.maxOperands := by
  have hpush₁ : FrameStep countCode catchTypes.ctx ⟨0, 0⟩ none ⟨1, 1⟩ := .run rfl (by decide)
  have hpush₂ : FrameStep countCode catchTypes.ctx ⟨1, 1⟩ none ⟨2, 2⟩ := .run rfl (by decide)
  have hpush₃ : FrameStep countCode catchTypes.ctx ⟨2, 2⟩ none ⟨3, 3⟩ := .run rfl (by decide)
  have hdrop₁ : FrameStep countCode catchTypes.ctx ⟨3, 3⟩ none ⟨4, 2⟩ := .run rfl (by decide)
  have hdrop₂ : FrameStep countCode catchTypes.ctx ⟨4, 2⟩ none ⟨5, 1⟩ := .run rfl (by decide)
  have hdrop₃ : FrameStep countCode catchTypes.ctx ⟨5, 1⟩ none ⟨6, 0⟩ := .run rfl (by decide)
  have hcaught : FrameStep countCode catchTypes.ctx ⟨6, 0⟩ (some (0, 0)) ⟨8, 3⟩ :=
    .caught (r := catchAt 8) rfl rfl rfl (by decide) (by decide) rfl
  have hrun : FrameRun countCode catchTypes.ctx ⟨0, 0⟩ [⟨none, 1⟩, ⟨none, 2⟩, ⟨none, 3⟩, ⟨none, 2⟩,
      ⟨none, 1⟩, ⟨none, 0⟩, ⟨some (0, 0), 3⟩] ⟨8, 3⟩ :=
    .cons hpush₁ (.cons hpush₂ (.cons hpush₃ (.cons hdrop₁ (.cons hdrop₂ (.cons hdrop₃
      (.cons hcaught .nil))))))
  have hcode : translateFunction catchTypes.ctx 0 0 [] countThree.operators = .ok countCode := rfl
  refine ⟨_, _, hrun, (maxOperands_peak countThree_validated hcode hrun).2.mpr ?_⟩
  intro e he clause hclause
  fin_cases he <;> cases hclause
  decide

/-- The exception of a first call, of three operands where no operand was counted. -/
theorem not_peak :
    ¬ ∀ (M : ModuleTypes) (used typeIdx : ℕ) (declared : List (ℕ × IrVal)) (b : Body)
      (C : CompiledFunc),
      M.Validated typeIdx declared b →
      translateFunction M.ctx used typeIdx declared b.operators = .ok C →
      ∀ es s, FrameRun C M.ctx ⟨0, 0⟩ es s → ∀ e ∈ es, e.height ≤ C.maxOperands := by
  intro h
  have hcaught : FrameStep catchCode catchTypes.ctx ⟨0, 0⟩ (some (0, 0)) ⟨2, 3⟩ :=
    .caught (r := catchAt 2) rfl rfl rfl (by decide) (by decide) rfl
  have hpeak := h catchTypes 0 0 [] catchThree catchCode catchThree_validated rfl _ _
    (.cons hcaught .nil) _ (List.mem_singleton.mpr rfl)
  revert hpeak
  decide

end SubmilliWasm
