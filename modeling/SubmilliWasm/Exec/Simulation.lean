/-
# The flat loop follows the nested source

A step of the nested source is met by turns of the flat loop: by one, by two where an exception is
caught (the landing pad is a turn of its own), or by none where the code has nothing to do (a region
is entered, or left where its code ends, or a comparison has been taken in by the op behind it).
Each lemma is about one kind of step; `Matches.step` puts them together.
-/
import SubmilliWasm.Exec.Programs

namespace SubmilliWasm

open Nested

variable {σ : Type}

/-! ## Calls and returns on the stacks -/

namespace Execution

variable {frames fs : List Frame} {f : Frame} {depth : ℕ} {outer own : List Operand}

variable (depth own) in
/-- A return moves its results down to where the locals began. -/
theorem doReturn_stacked {locals : List Operand} (hlocals : f.localsBase = outer.length)
    (hfloor : f.operandBase = outer.length + locals.length) (hdelim : f.delimiter = none)
    {stopDepth n : ℕ} (hstop : stopDepth ≤ fs.length) (hn : n ≤ own.length) (tail : Bool)
    (htail : tail = true ∨ own.length = n) :
    (stacked (f :: fs) depth (outer ++ locals ++ own)).doReturn n stopDepth tail
      = .ok (stacked fs depth (outer ++ own.drop (own.length - n)),
        decide (fs.length = stopDepth)) := by
  have hlen : (stacked (f :: fs) depth (outer ++ locals ++ own)).values.length
      = outer.length + locals.length + own.length := by
    rw [stacked_length, List.length_append, List.length_append]
  have hslide : (stacked (f :: fs) depth (outer ++ locals ++ own)).slide n outer.length
      = stacked (f :: fs) depth (outer ++ own.drop (own.length - n)) := by
    rw [slide_stacked, List.append_assoc, List.take_left]
    congr 2
    rw [← List.append_assoc, List.length_append, Nat.add_sub_assoc hn, ← List.drop_drop,
      List.drop_left]
  unfold doReturn
  simp only [stacked_frames, List.length_cons]
  rw [if_neg, if_neg, if_neg, if_neg, hlocals, hslide]
  · rfl
  · rw [hlen, hfloor, hlocals]
    rcases htail with rfl | htail
    · simp
      omega
    · omega
  · rw [hlen]
    omega
  · rw [hdelim]
    exact Bool.false_ne_true
  · rintro (h | h)
    · omega
    · exact h stacked_level

variable (frames depth outer) in
/-- The frame of a callee is laid over its arguments. -/
theorem pushCall_stacked {args : List Operand} (inst funcIndex : ℕ) {fn : Translated}
    (hfloor : (frames.head?.map Frame.operandBase).getD 0 ≤ outer.length)
    (hargs : args.length = fn.params.length) :
    (stacked frames depth (outer ++ args)).pushCall inst funcIndex fn.code
      = match Interp.frameLimit (outer.length + args.length) fn.toSourceFunc with
        | some err => .error err
        | none => .ok (stacked (⟨fn.code, 0, outer.length,
            outer.length + (args ++ fn.localTypes.map Operand.default).length, inst, funcIndex,
            none⟩ :: frames) depth (outer ++ (args ++ fn.localTypes.map Operand.default))) := by
  obtain ⟨hparams, -, hlocals⟩ := fn.code_arity
  have hlen : (stacked frames depth (outer ++ args)).values.length
    = outer.length + args.length := by
    rw [stacked_length, List.length_append]
  have hfit : ¬outer.length + args.length
      < (frames.head?.map Frame.operandBase).getD 0 + fn.params.length := by omega
  unfold pushCall Interp.frameLimit
  simp only [stacked_frames, hlen, hlocals, hparams]
  rw [if_neg (not_not_intro (hlen.symm.trans stacked_level)), if_neg hfit]
  by_cases h₁ : u32Max < outer.length + args.length
  · rw [if_pos h₁, if_pos h₁]
  · rw [if_neg h₁, if_neg h₁]
    by_cases h₂ : u32Max < fn.localTypes.length
    · rw [if_pos h₂, if_pos h₂]
    · rw [if_neg h₂, if_neg h₂]
      by_cases h₃ : u32Max < outer.length + args.length + fn.localTypes.length
      · rw [if_pos h₃, if_pos h₃]
      · rw [if_neg h₃, if_neg h₃, pushAll_stacked]
        have hbase : outer.length + args.length - fn.params.length = outer.length := by omega
        have htop : outer.length + args.length + fn.localTypes.length
            = outer.length + (args ++ fn.localTypes.map Operand.default).length := by
          rw [List.length_append, List.length_map, Nat.add_assoc]
        rw [hbase, htop, List.append_assoc]
        rfl

theorem stackBytes_stacked (I : Interp σ) (os : List Operand) :
    (stacked frames depth os).stackBytes I.frameSize
      = I.budget depth os.length frames.length := by
  unfold stackBytes Interp.budget
  rw [← stacked_level, stacked_length]
  rfl

theorem top_stacked (hdelim : f.delimiter = none) (os : List Operand) :
    (stacked (f :: fs) depth os).top = .ok ⟨f.code, f.ip, f.localsBase, f.inst⟩ := by
  unfold top
  simp only [stacked_frames, hdelim]
  rfl

end Execution

/-! ## Turns -/

namespace Interp

variable (I : Interp σ) (st : StoreState σ) {e e' : Execution} {r : Regs} (op : Op) {s : σ}

/-- A turn whose op decides how to go on. -/
theorem execute_ok {out : StepOutcome} (stopDepth k : ℕ)
    (h : (I.step r.code op (r.ip + 1) r.inst).run r.base e st.rest = (e', s, .ok out)) :
    ∃ mark, I.execute st e r stopDepth k op =
      ⟨(I.carryOut { st with rest := s } e' r stopDepth k out).1,
        (I.carryOut { st with rest := s } e' r stopDepth k out).2.1,
        (I.carryOut { st with rest := s } e' r stopDepth k out).2.2.1,
        (I.carryOut { st with rest := s } e' r stopDepth k out).2.2.2, mark⟩ := by
  unfold execute
  rw [h]
  exact ⟨_, rfl⟩

/-- A turn whose op fails looks for a handler. -/
theorem execute_error {err : ExecError} (stopDepth k : ℕ)
    (h : (I.step r.code op (r.ip + 1) r.inst).run r.base e st.rest = (e', s, .error err)) :
    ∃ mark, I.execute st e r stopDepth k op =
      ⟨{ st with rest := s }, (I.unwind s e' err r.ip stopDepth).1, k,
        match (I.unwind s e' err r.ip stopDepth).2 with
        | .error err => .leave (.error err)
        | .ok () => reload (I.unwind s e' err r.ip stopDepth).1, mark⟩ := by
  unfold execute
  rw [h]
  exact ⟨_, rfl⟩

end Interp

namespace Handler

variable {frames fs : List Frame} {f : Frame} {depth : ℕ} {xs vals : List Operand}

/-- A handler pops the operands of its frame. -/
theorem run_pop_stacked {n : ℕ} {accept : List Operand → Option ExecError}
    (hfloor : f.operandBase ≤ xs.length) (hn : n ≤ vals.length) (k : List Operand → Handler σ)
    (base : ℕ) (s : σ) :
    (Handler.pop n accept k).run base (.stacked (f :: fs) depth (xs ++ vals)) s
      = match takeTop n accept vals with
        | .error err => (.stacked (f :: fs) depth (xs ++ vals), s, .error err)
        | .ok (os, vs) => (k os).run base (.stacked (f :: fs) depth (xs ++ vs)) s := by
  rw [run, Execution.popN_stacked _ _ _ hfloor hn]
  rcases takeTop n accept vals with err | ⟨os, vs⟩ <;> rfl

variable (fs depth) in
/-- A jump over an edge is a branch to its label. -/
theorem run_jump {C : CompiledFunc} {M : ModuleTypes} {locals results : List IrVal}
    {ss : List Construct} {l : ℕ} {e : BranchTarget} (h : Lands C M locals results ss vals l e)
    (hfloor : f.operandBase = xs.length) (base : ℕ) (s : σ) :
    ∃ k ss' vals', Nested.branch l ss vals = some (k, ss', vals') ∧
      Standing C M locals results ss' vals' none k e.ip 0 ∧
      (jump e : Handler σ).run base (.stacked (f :: fs) depth (xs ++ flat ss vals)) s
        = (.stacked (f :: fs) depth (xs ++ flat ss' vals'), s, .ok (.advance e.ip)) := by
  obtain ⟨k, ss', vals', hbranch, hstand, hflat⟩ := h.goes
  refine ⟨k, ss', vals', hbranch, hstand, ?_⟩
  rw [jump, run, Execution.takeBranch_stacked hfloor h.fits, ← hflat]
  rfl

end Handler

/-! ## Exceptions -/

section Raise

variable {D : Denoted σ} {P : Program D} {base : List Operand} {fs₀ : List Frame} {depth : ℕ}

variable (depth) in
/-- The activation that a landing pad's branch leads to is met by one turn. -/
theorem landing_meets {a : Activation} {as : List Activation} {f : Frame} {fs : List Frame}
    (hr : Running P base fs₀ a as f fs) {l : ℕ} {e : BranchTarget}
    (hop : (P.of a).code.ops[f.ip]? = some (.br e))
    (hlands : Lands (P.of a).code (P.of a).module (P.of a).locals
    (P.of a).results a.scopes a.vals l e)
    (st : StoreState σ) (k : ℕ) (mark : Mark) :
    ∃ a', a.branch l = some a' ∧
      Matches P fs₀ ⟨st, k, base, fs₀.length, depth, a' :: as, .run⟩
        (D.follow fs₀.length ⟨st, .stacked (f :: fs) depth
          (operandsOf base as ++ a.locals ++ flat a.scopes a.vals), k,
          .loop ⟨f.code, f.ip, f.localsBase, f.inst⟩, mark⟩) := by
  obtain ⟨body, ss', vals', hbranch, hstand, hrun⟩ :=
    Handler.run_jump fs depth (f := f) hlands hr.floor f.localsBase st.rest
  refine ⟨{ a with body := body, scopes := ss', vals := vals' }, ?_, ?_⟩
  · rw [Activation.branch, hbranch]
    rfl
  · rw [D.follow_loop (hr.op hop)]
    obtain ⟨mark', hexec⟩ := (D.interp f.code).execute_ok st (.br e)
      (r := ⟨f.code, f.ip, f.localsBase, f.inst⟩) fs₀.length k hrun
    rw [hexec]
    exact .run (a := { a with body := body, scopes := ss', vals := vals' })
      (hr.update _ rfl rfl rfl)
      ⟨hr.locals, hstand⟩ rfl

variable (depth) in
/-- A handler found in the table is entered as its construct says. -/
theorem enter_meets {C : CompiledFunc} {a : Activation} {as : List Activation} {f : Frame}
    (fs : List Frame) (hf : f.Holds P a (operandsOf base as).length) {exn thrown : ℕ}
    {args : List Val}
    {s : σ} (hexn : D.exn s exn = .ok (thrown, args)) {c : Catch} {ss : List Construct}
    {below os : List Operand} {r : HandlerRec}
    (hcaught : Caught (P.of a).code (P.of a).module (P.of a).locals (P.of a).results exn args c ss
      below r)
    (hkept : (flat a.scopes os).take (flat ss below).length = flat ss below) :
    ((D.interp C).enterExceptionHandler s (.stacked (f :: fs) depth
        (operandsOf base as ++ a.locals ++ flat a.scopes os)) exn r f.operandBase) =
      if u32Max < (operandsOf base as).length + a.locals.length + (flat ss below).length then
        (.stacked (f :: fs) depth (operandsOf base as ++ a.locals ++ flat a.scopes os),
          .error (.operandStack "exception restore height overflow"))
      else
        (.stacked ({ f with ip := r.landingIp } :: fs) depth
          (operandsOf base as ++ a.locals ++ flat ss (below ++ c.payload exn args)), .ok ()) := by
  have hlow : (operandsOf base as ++ a.locals).length
      = (operandsOf base as).length + a.locals.length := List.length_append
  have hle : (flat ss below).length ≤ (flat a.scopes os).length := by
    rw [← hkept, List.length_take]
    omega
  have hrestore : f.operandBase + r.restoreHeight
      = (operandsOf base as).length + a.locals.length + (flat ss below).length := by
    rw [hf.operandBase, hcaught.restore]
  unfold Interp.enterExceptionHandler
  simp only [hrestore]
  split
  · rfl
  · rw [if_neg]
    · have hcut : (operandsOf base as ++ a.locals ++ flat a.scopes os).take
          ((operandsOf base as).length + a.locals.length + (flat ss below).length)
            = operandsOf base as ++ a.locals ++ flat ss below := by
        rw [← hlow, List.take_append, List.take_of_length_le (by omega), Nat.add_sub_cancel_left,
          hkept]
      have hargs : (if r.payloadArgs then ((D.interp C).exn s exn).map Prod.snd else .ok [])
          = (.ok (if (convCatch c).payloadArgs then args else []) : Except ExecError
            (List Val)) := by
        rw [hcaught.hasArgs, show (D.interp C).exn s exn = .ok (thrown, args) from hexn]
        cases (convCatch c).payloadArgs <;> rfl
      rw [hargs, Execution.truncate_stacked, hcut]
      dsimp only
      rw [Execution.pushAll_stacked, hcaught.hasRef]
      have hpayload : c.payload exn args
          = (if (convCatch c).payloadArgs then args else []).map Operand.ofVal ++
            if (convCatch c).payloadRef then [Operand.ofVal (.exnRef (some exn))] else [] := by
        unfold Catch.payload
        cases (convCatch c).payloadArgs <;> rfl
      rw [hpayload, flat_append, ← List.append_assoc]
      cases (convCatch c).payloadRef with
      | false =>
        rw [if_neg Bool.false_ne_true, if_neg Bool.false_ne_true, List.append_nil]
        rfl
      | true =>
        rw [if_pos rfl, if_pos rfl, Execution.push_stacked, ← List.append_assoc]
        rfl
    · rintro (h | h)
      · exact h Execution.stacked_level
      · rw [Execution.stacked_length, List.length_append, hlow] at h
        omega

variable (depth) in
/-- **Unwinding meets unwinding.**  The search through the frames finds the construct that catches,
or fails as the search through the activations does. -/
theorem unwindFrom_meets {C : CompiledFunc} {exn thrown : ℕ} {args : List Val} {s : σ}
    (hexn : D.exn s exn = .ok (thrown, args)) {as : List Activation} {a : Activation} {f : Frame}
    {fs : List Frame} (hr : Running P base fs₀ a as f fs) {ip : ℕ} (hcover : a.Covered P ip)
    (os : List Operand) {fuel : ℕ} (hfuel : as.length < fuel) :
    (∀ err, D.unwindTo s exn thrown args base (a :: as) = .error err →
      ∃ e', (D.interp C).unwindFrom s exn thrown fs₀.length fuel (.stacked (f :: fs) depth
        (operandsOf base as ++ a.locals ++ flat a.scopes os)) ip = (e', .error err)) ∧
    ∀ acts, D.unwindTo s exn thrown args base (a :: as) = .ok acts →
      ∃ e', (D.interp C).unwindFrom s exn thrown fs₀.length fuel (.stacked (f :: fs) depth
          (operandsOf base as ++ a.locals ++ flat a.scopes os)) ip = (e', .ok ()) ∧
        ∀ (st : StoreState σ) (k : ℕ) (mark : Mark),
          Matches P fs₀ ⟨st, k, base, fs₀.length, depth, acts, .run⟩
            (D.follow fs₀.length ⟨st, e', k, Interp.reload e', mark⟩) := by
  induction hlen : as.length using Nat.strongRecOn generalizing as a f fs ip os fuel with
  | _ n ih =>
  obtain ⟨fuel, rfl⟩ : ∃ n, fuel = n + 1 := Nat.exists_eq_succ_of_ne_zero (by omega)
  obtain ⟨S, hopen, hspans⟩ := hcover
  obtain ⟨herr, hnone, hsome⟩ := hopen.unwind (I := D.interp C) hspans exn
    (P.exn_args a.inst a.funcIndex hexn)
  have hcatches : (D.interp C).catches s a.inst thrown = D.catches s a.inst thrown := rfl
  have hstop : ¬(f :: fs).length ≤ fs₀.length := by
    have := hr.waiting.length
    rw [List.length_cons]
    omega
  rw [hcatches] at herr hnone hsome
  rw [Interp.unwindTo, Interp.unwindFrom]
  simp only [Execution.stacked_frames]
  rw [if_neg hstop, hr.holds.inst, hr.holds.code]
  rcases hunwind : Nested.unwind (D.catches s a.inst thrown) a.scopes with err | _ | ⟨c, ss, below⟩
  · rw [herr err hunwind]
    refine ⟨fun err' h => ?_, fun _ h => by cases h⟩
    obtain rfl := Except.error.inj h
    exact ⟨_, rfl⟩
  · -- the frame is dropped, and its caller is searched
    rw [hnone hunwind]
    have hlow : (Execution.stacked (f :: fs) depth (operandsOf base as ++ a.locals
        ++ flat a.scopes os)).values.length
          = (operandsOf base as).length + a.locals.length + (flat a.scopes os).length := by
      rw [Execution.stacked_length, List.length_append, List.length_append]
    have hdrop : (Execution.stacked (f :: fs) depth (operandsOf base as ++ a.locals
        ++ flat a.scopes os)).truncate f.localsBase
          = .stacked (f :: fs) depth (operandsOf base as) := by
      rw [Execution.truncate_stacked, hr.holds.localsBase, List.append_assoc, List.take_left]
    dsimp only
    rw [if_neg, hdrop]
    · have hbase := hr.based
      cases hr.waiting with
      | nil =>
        rw [if_pos rfl]
        refine ⟨fun err h => ?_, fun _ h => by cases h⟩
        obtain rfl := Except.error.inj h
        exact ⟨_, rfl⟩
      | @cons _ b bs g gs hg hat hpos hcover hw =>
        have hmore : ¬(g :: gs).length = fs₀.length := by
          have := hw.length
          rw [List.length_cons]
          omega
        rw [if_neg hmore]
        dsimp only
        rw [if_neg (by omega)]
        rw [List.length_cons] at hlen hfuel
        exact ih bs.length (by omega) ⟨hbase, hg, hat.locals, hw⟩ hcover b.vals (by omega) rfl
    · rintro (h | h)
      · exact h Execution.stacked_level
      · rw [hlow, hr.holds.localsBase] at h
        omega
  · obtain ⟨r, hfound, hcaught⟩ := hsome c ss below hunwind
    have henter := enter_meets depth (C := C) fs hr.holds hexn hcaught (flat_unwind hunwind os)
    rw [hfound]
    dsimp only
    rw [henter]
    split
    · refine ⟨fun err h => ?_, fun _ h => by cases h⟩
      obtain rfl := Except.error.inj h
      exact ⟨_, rfl⟩
    · obtain ⟨e, hop, hlands⟩ := hcaught.pad
      let a' : Activation := { a with scopes := ss, vals := below ++ c.payload exn args }
      let f' : Frame := { f with ip := r.landingIp }
      have hr' : Running P base fs₀ a' as f' fs := (hr.update a' rfl rfl rfl).saved _
      have hmeets := landing_meets depth hr' hop hlands
      obtain ⟨a'', hbranch⟩ : ∃ a'', a'.branch c.label = some a'' := by
        obtain ⟨body, ss', vals', hbranch, -, -⟩ := hlands.goes
        exact ⟨_, congrArg (Option.map _) hbranch⟩
      rw [show a'.branch c.label = some a'' from hbranch]
      refine ⟨fun _ h => (by cases h), fun acts h => ?_⟩
      obtain rfl := Except.ok.inj h
      refine ⟨_, rfl, fun st k mark => ?_⟩
      obtain ⟨a₃, hbranch', hmatch⟩ := hmeets st k mark
      obtain rfl := Option.some.inj (hbranch.symm.trans hbranch')
      unfold Interp.reload
      rw [Execution.top_stacked hr'.holds.delimiter]
      exact hmatch

/-- The flat loop comes to match. -/
def Meets (P : Program D) (fs₀ : List Frame) (m : Machine σ) (t : Turned σ) : Prop :=
  ∃ n, Matches P fs₀ m ((D.follow fs₀.length)^[n] t)

theorem Matches.meets {m : Machine σ} {t : Turned σ} (h : Matches P fs₀ m t) : Meets P fs₀ m t :=
  ⟨0, h⟩

/-- What the loop makes of the search for a handler. -/
def Execution.searched (u : Execution × Except ExecError Unit) : Next :=
  match u.2 with
  | .error err => .leave (.error err)
  | .ok () => Interp.reload u.1

/-- An error is raised in both. -/
theorem raise_meets {C : CompiledFunc} {a : Activation} {as : List Activation} {f : Frame}
    {fs : List Frame} (hr : Running P base fs₀ a as f fs) {ip : ℕ} {err : ExecError}
    (hcover : ∀ exn, err = .pending exn → a.Covered P ip) (os : List Operand) (st : StoreState σ)
    (k : ℕ) {u : Execution × Except ExecError Unit}
    (hu : u = (D.interp C).unwind st.rest (.stacked (f :: fs) depth
      (operandsOf base as ++ a.locals ++ flat a.scopes os)) err ip fs₀.length) (mark : Mark) :
    Meets P fs₀ (D.raise ⟨st, k, base, fs₀.length, depth, a :: as, .run⟩ err)
      ⟨st, u.1, k, Execution.searched u, mark⟩ := by
  subst hu
  cases err with
  | pending exn =>
    rw [Interp.raise, Interp.unwind]
    have hexn : (D.interp C).exn st.rest exn = D.exn st.rest exn := rfl
    rw [hexn]
    rcases hlive : D.exn st.rest exn with err | ⟨thrown, args⟩
    · exact Matches.failed.meets
    · have hfuel : as.length < (Execution.stacked (f :: fs) depth
          (operandsOf base as ++ a.locals ++ flat a.scopes os)).frames.length := by
        have := hr.waiting.length
        rw [Execution.stacked_frames, List.length_cons]
        omega
      obtain ⟨hfail, hcatch⟩ := unwindFrom_meets depth (C := C) hlive hr (hcover exn rfl) os hfuel
      dsimp only
      rcases hto : D.unwindTo st.rest exn thrown args base (a :: as) with err | acts
      · obtain ⟨e', he'⟩ := hfail err hto
        rw [he']
        exact Matches.failed.meets
      · obtain ⟨e', he', hmatch⟩ := hcatch acts hto
        rw [he']
        exact ⟨1, hmatch st k mark⟩
  | _ => exact Matches.failed.meets

end Raise

end SubmilliWasm
