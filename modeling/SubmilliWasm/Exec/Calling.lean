/-
# Calls

A call against its turn of the flat loop: the callee's frame is laid over its arguments, the
arguments of a host function are taken off the stack, and a tail call gives up the caller's frame
first (`src/exec/call.rs`, `src/exec/host.rs`).
-/
import SubmilliWasm.Exec.Stepwise

namespace SubmilliWasm

open Nested

variable {σ : Type}

/-! ## A function at its beginning -/

/-- The body of a function lies at the beginning of its code. -/
theorem Translated.stand (fn : Translated) :
    Standing fn.code fn.module fn.locals fn.results [rootScope fn.results.length] [] none fn.body 0
      0 := by
  obtain ⟨out, hcode⟩ := translateFunction_code fn.translated
  rw [fn.code_arity.2.1] at hcode
  have hend : Here fn.code fn.module fn.locals fn.results
      ⟨[], [], fn.code.ops.length, fn.results, true, []⟩ none .done fn.code.ops.length
      fn.results.length fn.results.length := by
    refine ⟨⟨true, [], .done, fun _ => rfl, fun j hj hlt => ?_⟩,
      ⟨fn.results, rfl, .done (List.forall₂_same.mpr fun v _ => fn.module.sub_refl v)⟩,
        fun _ => rfl⟩
    exact absurd hlt (Nat.not_lt.mpr hj)
  refine ⟨⟨[⟨fn.code.ops.length, 0, fn.results.length, true⟩], [fn.results], fn.code.ops.length,
    fn.results, out, [] ++ []⟩, .block .root rfl rfl rfl rfl rfl (fun _ => ?_)
    (fun _ => ⟨rfl, Or.inl rfl⟩) .none fun _ => ⟨rfl, rfl, rfl⟩, ?_⟩
  · rw [show (rootScope fn.results.length).below.length + fn.results.length = fn.results.length from
      Nat.zero_add _, Nat.zero_add]
    exact hend
  · refine ⟨⟨out, fn.code.handlers, hcode, id, fun j _ _ => ?_⟩, ⟨[], rfl, fn.typed⟩,
      nofun⟩
    exact (List.append_nil _).symm

section Calls

variable {D : Denoted σ} {P : Program D} {base : List Operand} {fs₀ : List Frame} {depth : ℕ}
  {a : Activation} {as : List Activation} {f : Frame} {fs : List Frame} {st : StoreState σ}
  {k ip : ℕ}
  {mark : Mark}

/-! ## The callee's frame -/

variable {body : Body} {c : CallTarget} {vs args vals : List Operand}

/-- Within the limits a function begins in a frame of its own, over its arguments. -/
theorem activate_begins (P : Program D) {outer : List Operand} {inst idx : ℕ}
    (hargs : args.length = (P.fn inst idx).params.length)
    (hlimit : Interp.frameLimit (outer.length + args.length) (P.source inst idx) = none) :
    (Frame.mk (P.fn inst idx).code 0 outer.length (outer.length
        + (args ++ (P.fn inst idx).localTypes.map Operand.default).length) inst idx none).Holds P
        (Interp.activate inst idx (P.source inst idx) args) outer.length ∧
      (Interp.activate inst idx (P.source inst idx) args).At P none 0 0 := by
  have hlen : (args ++ (P.fn inst idx).localTypes.map Operand.default).length
      = args.length + (P.fn inst idx).localTypes.length := by
    rw [List.length_append, List.length_map]
  have hbound : ¬u32Max < outer.length + args.length + (P.fn inst idx).localTypes.length := by
    unfold Interp.frameLimit at hlimit
    split at hlimit
    · cases hlimit
    · split at hlimit
      · cases hlimit
      · split at hlimit
        · cases hlimit
        · assumption
  refine ⟨⟨rfl, rfl, rfl, rfl, rfl, ?_⟩, ?_, (P.fn inst idx).stand⟩
  · dsimp only
    rw [hlen]
    omega
  · show (args ++ (P.fn inst idx).localTypes.map Operand.default).length
      = ((P.fn inst idx).params ++ (P.fn inst idx).localTypes).length
    rw [hlen, List.length_append, hargs]

/-- It has its locals, and no operand yet. -/
theorem activate_stacks (fn : SourceFunc) (outer args : List Operand) (inst idx : ℕ) :
    outer ++ (args ++ fn.localTypes.map Operand.default)
      = outer ++ (Interp.activate inst idx fn args).locals
        ++ flat (Interp.activate inst idx fn args).scopes
          (Interp.activate inst idx fn args).vals := by
  show _ = outer ++ (args ++ fn.localTypes.map Operand.default) ++ ([] ++ [])
  rw [List.append_nil, List.append_nil]

variable (depth st k) in
/-- A function is entered over its arguments, if the limits allow it. -/
theorem enterFunc_meets (hbase : Based base fs₀) {inst idx : ℕ}
    (hargs : args.length = (P.fn inst idx).params.length)
    (hw : Waiting P base fs₀ (P.fn inst idx).results.length as fs) (req : CallReq)
    (hinst : req.inst = inst) (hidx : req.funcIndex = idx) (hcode : req.code = (P.fn inst idx).code)
    (C : CompiledFunc) (acts : List Activation) (mark : Mark) :
    Matches P fs₀
      (D.enterFunc ⟨st, k, base, fs₀.length, depth, acts, .run⟩ inst idx
        (P.source inst idx) args as)
      ⟨st, ((D.interp C).enterCallee (.stacked fs depth (operandsOf base as ++ args)) req k).1,
        ((D.interp C).enterCallee (.stacked fs depth (operandsOf base as ++ args)) req k).2.1,
        ((D.interp C).enterCallee (.stacked fs depth (operandsOf base as ++ args)) req k).2.2,
        mark⟩ := by
  obtain ⟨g, gs, hfs, hfloor⟩ := hw.floor hbase
  have hpush := Execution.pushCall_stacked fs depth (operandsOf base as) inst idx
    (by rw [hfs]; exact hfloor) hargs
  unfold Interp.enterCallee Interp.enterFunc
  rw [hinst, hidx, hcode, hpush]
  rcases hlimit : Interp.frameLimit ((operandsOf base as).length + args.length)
    (P.fn inst idx).toSourceFunc with _ | err
  · obtain ⟨hf, hat⟩ := activate_begins P hargs hlimit
    rw [show Interp.frameLimit ((operandsOf base as).length + args.length) (P.source inst idx)
      = none from hlimit]
    dsimp only
    rw [Execution.top_stacked rfl, activate_stacks (P.fn inst idx).toSourceFunc _ args inst idx,
      show (D.interp C).gcWatch = D.gcWatch from rfl]
    unfold Interp.countCall
    cases D.gcWatch with
    | false => exact .run ⟨hbase, hf, hat.locals, hw⟩ hat rfl
    | true =>
      dsimp only
      by_cases hzero : k - 1 = 0
      · rw [hzero]
        exact .poll ⟨hbase, hf, hat.locals, hw⟩ hat
      · simp only [hzero, if_true, if_false]
        exact .run ⟨hbase, hf, hat.locals, hw⟩ hat rfl
  · rw [show Interp.frameLimit ((operandsOf base as).length + args.length) (P.source inst idx)
      = some err from hlimit]
    exact .failed

/-! ## Callees -/

/-- What names the callee is popped; its arguments lie below. -/
theorem Interp.popCallee_ok {M : ModuleTypes} {o : Operand}
    (h : Interp.popCallee c vals = .ok (o, vs)) :
    vs.length + (M.callOperands c).length
      = vals.length + (Translator.callSig M.ctx c).1.length := by
  have hone : ∀ accept, (takeTop 1 accept vals).map (fun p => (p.1.headD ⟨0, .none⟩, p.2))
      = .ok (o, vs) → vals.length = vs.length + 1 := by
    intro accept h
    rcases htake : takeTop 1 accept vals with err | ⟨os, vs'⟩
    · rw [htake] at h
      cases h
    · rw [htake] at h
      obtain ⟨-, rfl⟩ := Prod.mk.inj (Except.ok.inj h)
      obtain ⟨rfl, hlen, -⟩ := takeTop_ok htake
      rw [List.length_append, hlen]
  cases c with
  | func i =>
    obtain ⟨-, rfl⟩ := Prod.mk.inj (Except.ok.inj h)
    rfl
  | indirect ty table =>
    have := hone _ h
    simp only [ModuleTypes.callOperands, Translator.callSig, List.length_append,
      List.length_singleton]
    omega
  | ref ty =>
    have := hone _ h
    simp only [ModuleTypes.callOperands, Translator.callSig, List.length_append,
      List.length_singleton]
    omega

/-- What a callee is refused with is no exception. -/
theorem Interp.popCallee_refused {err : ExecError} (h : Interp.popCallee c vals = .error err)
    (exn : ℕ) : err ≠ .pending exn := by
  have hone : ∀ accept, Refuses accept →
      (takeTop 1 accept vals).map (fun p => (p.1.headD ⟨0, .none⟩, p.2)) = .error err →
        err ≠ .pending exn := by
    intro accept haccept h
    rcases htake : takeTop 1 accept vals with err' | ⟨os, vs⟩
    · rw [htake] at h
      obtain rfl := Except.error.inj h
      exact takeTop_refused haccept htake exn
    · rw [htake] at h
      cases h
  cases c with
  | func i => cases h
  | indirect ty table => exact hone _ refuses_scalars h
  | ref ty => exact hone _ (refuses_refOf .func) h

/-- The call site resolves its callee. -/
theorem run_call (hr : Running P base fs₀ a as f fs)
    (hle : ((P.of a).module.callOperands c).length ≤ a.vals.length) (returnIp : Option ℕ) (s : σ) :
    ((D.interp f.code).call c f.inst returnIp).run f.localsBase
        (a.stacks base as (f :: fs) depth a.vals) s
      = match Interp.popCallee c a.vals with
        | .error err => (a.stacks base as (f :: fs) depth a.vals, s, .error err)
        | .ok (o, vs) => (a.stacks base as (f :: fs) depth vs, s,
            (D.callee c a.inst o s).map (D.callOutcome s a.inst returnIp)) := by
  have hone : ∀ accept, 1 ≤ a.vals.length →
      (Handler.pop1 accept fun o => .get fun s => .done
          ((D.callee c a.inst o s).map (D.callOutcome s a.inst returnIp)) : Handler σ).run
          f.localsBase
            (a.stacks base as (f :: fs) depth a.vals) s
        = match (takeTop 1 accept a.vals).map (fun p => (p.1.headD ⟨0, .none⟩, p.2)) with
          | .error err => (a.stacks base as (f :: fs) depth a.vals, s, .error err)
          | .ok (o, vs) => (a.stacks base as (f :: fs) depth vs, s,
              (D.callee c a.inst o s).map (D.callOutcome s a.inst returnIp)) := by
    intro accept hlast
    rw [Handler.pop1, run_pop_stacks _ hr _ hlast]
    rcases takeTop 1 accept a.vals with err | ⟨os, vs⟩ <;> rfl
  rw [hr.holds.inst]
  cases c with
  | func i => rfl
  | indirect ty table =>
    refine hone Handler.scalars ?_
    simp only [ModuleTypes.callOperands, List.length_append, List.length_singleton] at hle
    omega
  | ref ty =>
    refine hone (Handler.refOf .func) ?_
    simp only [ModuleTypes.callOperands, List.length_append, List.length_singleton] at hle
    omega

variable (k mark) in
/-- A turn whose op decides how to go on. -/
theorem turn_carries (hr : Running P base fs₀ a as f fs) {op : Op}
    (hop : (P.of a).code.ops[ip]? = some op) {e e' : Execution} {s : σ} {out : StepOutcome}
    (hrun : (D.opAt f op ip).run f.localsBase e st.rest = (e', s, .ok out)) :
    ∃ mark' u, (D.interp f.code).carryOut { st with rest := s } e'
      ⟨f.code, ip, f.localsBase, f.inst⟩
        fs₀.length k out = u ∧
      D.follow fs₀.length (f.turned st e k ip mark) = ⟨u.1, u.2.1, u.2.2.1, u.2.2.2, mark'⟩ := by
  obtain ⟨mark', hexec⟩ := (D.interp f.code).execute_ok st op
    (r := ⟨f.code, ip, f.localsBase, f.inst⟩) fs₀.length k hrun
  exact ⟨mark', _, rfl, (D.follow_loop (hr.op hop) fs₀.length).trans hexec⟩

theorem splitTop_parts (n : ℕ) (vals : List Operand) (hn : n ≤ vals.length) :
    ∃ args rest, Interp.splitTop n vals = (args, rest) ∧ vals = rest ++ args ∧ args.length = n := by
  refine ⟨_, _, rfl, (List.take_append_drop _ _).symm, ?_⟩
  rw [List.length_drop]
  omega

variable (depth st k) in
/-- A host function takes its parameters off the stack. -/
theorem callHost_meets (hbase : Based base fs₀) {func : ℕ}
    (hargs : args.length = (D.hostSig st.rest func).params.length)
    (hw : Waiting P base fs₀ (D.hostSig st.rest func).results.length as fs) (C : CompiledFunc)
    (acts : List Activation) (mark : Mark) :
    Matches P fs₀
      (Interp.callHost ⟨st, k, base, fs₀.length, depth, acts, .run⟩
        (D.hostSig st.rest func) args as)
      ⟨((D.interp C).startHostCall st (.stacked fs depth (operandsOf base as ++ args)) func).1,
        ((D.interp C).startHostCall st (.stacked fs depth (operandsOf base as ++ args)) func).2.1,
          k,
        ((D.interp C).startHostCall st (.stacked fs depth (operandsOf base as ++ args)) func).2.2,
        mark⟩ := by
  obtain ⟨g, gs, rfl, hfloor⟩ := hw.floor hbase
  have hpop : (Execution.stacked (g :: gs) depth (operandsOf base as ++ args)).popN
      (D.hostSig st.rest func).params.length (Interp.paramTags (D.hostSig st.rest func).params)
        = (Interp.paramTags (D.hostSig st.rest func).params args).elim
          (.ok (args, .stacked (g :: gs) depth (operandsOf base as))) .error := by
    rw [Execution.popN_stacked _ _ _ hfloor (Nat.le_of_eq hargs.symm), takeTop, ← hargs,
      if_neg (Nat.lt_irrefl _), Nat.sub_self, List.drop_zero, List.take_zero]
    cases Interp.paramTags (D.hostSig st.rest func).params args with
    | some err => rfl
    | none =>
      show Except.ok (args, Execution.stacked (g :: gs) depth (operandsOf base as ++ [])) = _
      rw [List.append_nil]
      rfl
  unfold Interp.startHostCall Interp.prepareHostCall Interp.callHost
  rw [show (D.interp C).hostSig = D.hostSig from rfl]
  dsimp only
  rw [hpop]
  cases Interp.paramTags (D.hostSig st.rest func).params args with
  | some err => exact .failed
  | none => exact .callback hbase hw

/-! ## Calls and tail calls -/

/-- A call within the stack budget saves its return address and enters its callee. -/
theorem carryOut_call (C : CompiledFunc) (os : List Operand) (r : Regs) (stopDepth : ℕ)
    (req : CallReq) :
    (D.interp C).carryOut st (.stacked (f :: fs) depth os) r stopDepth k (.doCall req)
      = match D.budget depth os.length (fs.length + 1) with
        | .error err => (st, .stacked (f :: fs) depth os, k, .leave (.error err))
        | .ok bytes =>
          if D.maxWasmStack ≤ bytes then
            (st, .stacked (f :: fs) depth os, k, .leave (.error .stackOverflow))
          else (st, (D.interp C).enterCallee
            (.stacked ({ f with ip := req.returnIp } :: fs) depth os) req k) := by
  unfold Interp.carryOut
  rw [Execution.stackBytes_stacked]
  rfl

/-- The arguments of a callee lie on top; below them the caller waits behind its call. -/
theorem call_args (hr : Running P base fs₀ a as f fs) (hat : a.At P none ip 0)
    (hbody : a.body = .call c body) {o : Operand} (hpop : Interp.popCallee c a.vals = .ok (o, vs))
    {n owed : ℕ} (hn : n = (Translator.callSig (P.of a).module.ctx c).1.length)
    (howed : owed = (Translator.callSig (P.of a).module.ctx c).2.length) :
    ∃ args rest, Interp.splitTop n vs = (args, rest) ∧ args.length = n ∧
      operandsOf base as ++ a.locals ++ flat a.scopes vs
        = operandsOf base ({ a with vals := rest, body := body } :: as) ++ args ∧
      Waiting P base fs₀ owed ({ a with vals := rest, body := body } :: as)
        ({ f with ip := ip + 1 } :: fs) := by
  have hstand := hat.stand
  rw [hbody] at hstand
  obtain ⟨S, hopen, hhere⟩ := hstand
  obtain ⟨hop, hc, hle, hnext, hcovered⟩ := hhere.call
  have hcount := Interp.popCallee_ok (M := (P.of a).module) hpop
  obtain ⟨args, rest, hsplit, hvs, hargs⟩ := splitTop_parts n vs (by omega)
  rw [hvs, List.length_append, hargs, hn] at hcount
  have hr' := (hr.update { a with vals := rest, body := body } rfl rfl rfl).saved (ip + 1)
  refine ⟨args, rest, hsplit, hargs, ?_, .cons hr'.holds ⟨hr.locals, S, hopen, ?_⟩ (Nat.succ_pos ip)
    ⟨S, hopen, hcovered⟩ hr.waiting⟩
  · rw [hvs, operandsOf, flat_append, ← List.append_assoc]
  · have hrest : rest.length = a.vals.length - ((P.of a).module.callOperands c).length := by omega
    have hheight : floor a.scopes + rest.length + owed = floor a.scopes + (a.vals.length + 0)
        - ((P.of a).module.callOperands c).length
          + (Translator.callSig (P.of a).module.ctx c).2.length := by
      omega
    show Here _ _ _ _ S none body (ip + 1) (rest.length + owed)
      (floor a.scopes + rest.length + owed)
    rw [hheight, hrest, howed]
    exact hnext

/-- **A call goes to the activation of its callee.** -/
theorem call_meets (hr : Running P base fs₀ a as f fs) (hat : a.At P none ip 0)
    (hbody : a.body = .call c body) :
    Meets P fs₀
      (D.callFrom P.source ⟨st, k, base, fs₀.length, depth, a :: as, .run⟩ a as c body)
      (D.follow fs₀.length (f.turned st (a.stacks base as (f :: fs) depth a.vals) k ip mark)) := by
  have hstand := hat.stand
  rw [hbody] at hstand
  obtain ⟨S, hopen, hhere⟩ := hstand
  obtain ⟨hop, hc, hle, -, hcovered⟩ := hhere.call
  have hrun : (D.opAt f (.call c) ip).run f.localsBase (a.stacks base as (f :: fs) depth a.vals)
      st.rest = _ := run_call hr hle (some (ip + 1)) st.rest
  have hframes : fs.length + 1 = as.length + 1 + fs₀.length := by
    rw [hr.waiting.length]
    omega
  rw [Interp.callFrom]
  rcases hpop : Interp.popCallee c a.vals with err | ⟨o, vs⟩
  · rw [hpop] at hrun
    exact turn_fails hr hop a rfl rfl rfl rfl
      (fun exn h => absurd h (Interp.popCallee_refused hpop exn)) hrun
  rw [hpop] at hrun
  dsimp only at hrun ⊢
  rcases hcallee : D.callee c a.inst o st.rest with err | ⟨inst, idx, code⟩ | func | func
  · rw [hcallee] at hrun
    exact turn_fails hr hop a rfl rfl rfl rfl (fun _ _ => ⟨S, hopen, hcovered⟩) hrun
  · obtain ⟨rfl, hparams, hresults⟩ := P.callee_wasm a.inst a.funcIndex hc hcallee
    obtain ⟨args, rest, hsplit, hargs, hover, hwait⟩ :=
      call_args hr hat hbody hpop hparams hresults
    have hsplit' : Interp.splitTop (P.source inst idx).params.length vs = (args, rest) := hsplit
    rw [hcallee] at hrun
    obtain ⟨mark', u, hu, hturn⟩ := turn_carries k mark hr hop hrun
    have hcarry := hu.symm.trans (carryOut_call f.code (operandsOf base as ++ a.locals
      ++ flat a.scopes vs) _ fs₀.length ⟨ip + 1, inst, idx, (P.fn inst idx).code⟩)
    rw [hturn]
    dsimp only
    rw [hsplit', List.length_cons, ← hframes, operandsOf]
    generalize D.budget depth (operandsOf base as ++ a.locals ++ flat a.scopes vs).length
      (fs.length + 1) = result at hcarry ⊢
    rcases result with err | bytes
    · obtain rfl := hcarry
      exact Matches.failed.meets
    · dsimp only at hcarry ⊢
      by_cases hfull : D.maxWasmStack ≤ bytes
      · rw [if_pos hfull] at hcarry ⊢
        obtain rfl := hcarry
        exact Matches.failed.meets
      · rw [if_neg hfull] at hcarry ⊢
        obtain rfl := hcarry
        rw [hover]
        exact (enterFunc_meets depth st k hr.based hargs hwait
          ⟨ip + 1, inst, idx, (P.fn inst idx).code⟩ rfl rfl rfl f.code (a :: as) mark').meets
  all_goals
    -- a host function, synchronous or not
    obtain ⟨hparams, hresults⟩ := P.callee_host a.inst a.funcIndex hc
      (show D.callee c a.inst o st.rest = .ok (.host func) ∨
        D.callee c a.inst o st.rest = .ok (.hostAsync func) by rw [hcallee]; simp)
    obtain ⟨args, rest, hsplit, hargs, hover, hwait⟩ :=
      call_args hr hat hbody hpop hparams hresults
    rw [hcallee] at hrun
    obtain ⟨mark', u, rfl, hturn⟩ := turn_carries k mark hr hop hrun
    rw [hturn]
    dsimp only
    rw [hsplit, Activation.stacks, hover]
  · exact (callHost_meets depth st k hr.based hargs hwait f.code (a :: as) mark').meets
  · exact (Matches.suspended hr.based (by exact trivial) hwait.parked).meets

variable (depth) in
/-- A tail call gives up the frame of its caller, and keeps the arguments. -/
theorem tailCall_args (hr : Running P base fs₀ a as f fs) {o : Operand}
    (hpop : Interp.popCallee c a.vals = .ok (o, vs))
    (hle : ((P.of a).module.callOperands c).length ≤ a.vals.length) {n : ℕ}
    (hn : n = (Translator.callSig (P.of a).module.ctx c).1.length) :
    ∃ args rest done, Interp.splitTop n vs = (args, rest) ∧ args.length = n ∧
      (Execution.stacked (f :: fs) depth
          (operandsOf base as ++ a.locals ++ flat a.scopes vs)).doReturn n fs₀.length true
        = .ok (.stacked fs depth (operandsOf base as ++ args), done) := by
  have hcount := Interp.popCallee_ok (M := (P.of a).module) hpop
  obtain ⟨args, rest, hsplit, hvs, hargs⟩ := splitTop_parts n vs (by omega)
  have hlen : (flat a.scopes vs).length - n = (flat a.scopes rest).length := by
    rw [hvs, flat_append, List.length_append, hargs, Nat.add_sub_cancel]
  have hret := Execution.doReturn_stacked depth (flat a.scopes vs) (n := n) hr.holds.localsBase
    hr.holds.operandBase hr.holds.delimiter (show fs₀.length ≤ fs.length by
      rw [hr.waiting.length]; omega)
    (by rw [hvs, flat_append, List.length_append, hargs]; omega) true (Or.inl rfl)
  rw [hlen, hvs, flat_append, List.drop_left, ← flat_append, ← hvs] at hret
  exact ⟨args, rest, _, hsplit, hargs, hret⟩

/-- **A tail call puts its callee in the place of the caller.** -/
theorem tailCall_meets (hr : Running P base fs₀ a as f fs) (hat : a.At P none ip 0)
    (hbody : a.body = .jump (.returnCall c) body) :
    Meets P fs₀
      (D.tailCallFrom P.source ⟨st, k, base, fs₀.length, depth, a :: as, .run⟩ a as c)
      (D.follow fs₀.length (f.turned st (a.stacks base as (f :: fs) depth a.vals) k ip mark)) := by
  have hstand := hat.stand
  rw [hbody] at hstand
  obtain ⟨S, hopen, hhere⟩ := hstand
  obtain ⟨hop, hc, hle, hsame, hcovered⟩ := hhere.returnCall
  have hrun : (D.opAt f (.returnCall c) ip).run f.localsBase
      (a.stacks base as (f :: fs) depth a.vals) st.rest = _ := run_call hr hle none st.rest
  rw [Interp.tailCallFrom]
  rcases hpop : Interp.popCallee c a.vals with err | ⟨o, vs⟩
  · rw [hpop] at hrun
    exact turn_fails hr hop a rfl rfl rfl rfl
      (fun exn h => absurd h (Interp.popCallee_refused hpop exn)) hrun
  rw [hpop] at hrun
  dsimp only at hrun ⊢
  rcases hcallee : D.callee c a.inst o st.rest with err | ⟨inst, idx, code⟩ | func | func
  · rw [hcallee] at hrun
    exact turn_fails hr hop a rfl rfl rfl rfl (fun _ _ => ⟨S, hopen, hcovered⟩) hrun
  · obtain ⟨rfl, hparams, hresults⟩ := P.callee_wasm a.inst a.funcIndex hc hcallee
    obtain ⟨args, rest, done, hsplit, hargs, hret⟩ :=
      tailCall_args depth hr hpop hle hparams
    have hsplit' : Interp.splitTop (P.source inst idx).params.length vs = (args, rest) := hsplit
    rw [← (P.fn inst idx).code_arity.1] at hret
    rw [hcallee] at hrun
    obtain ⟨mark', u, hu, hturn⟩ := turn_carries k mark hr hop hrun
    simp only [Interp.callOutcome, Interp.carryOut, Activation.stacks, hret] at hu
    obtain rfl := hu
    rw [hturn]
    dsimp only
    rw [hsplit']
    exact (enterFunc_meets depth st k hr.based hargs
      (hresults.trans hsame ▸ hr.waiting) ⟨0, inst, idx, (P.fn inst idx).code⟩ rfl rfl rfl
      f.code (a :: as) mark').meets
  all_goals
    obtain ⟨hparams, hresults⟩ := P.callee_host a.inst a.funcIndex hc
      (show D.callee c a.inst o st.rest = .ok (.host func) ∨
        D.callee c a.inst o st.rest = .ok (.hostAsync func) by rw [hcallee]; simp)
    obtain ⟨args, rest, done, hsplit, hargs, hret⟩ :=
      tailCall_args depth hr hpop hle hparams
    have hwait : Waiting P base fs₀ (D.hostSig st.rest func).results.length as fs :=
      hresults.trans hsame ▸ hr.waiting
    rw [hcallee] at hrun
    obtain ⟨mark', u, hu, hturn⟩ := turn_carries k mark hr hop hrun
    simp only [Interp.callOutcome, Interp.carryOut, Activation.stacks, hret] at hu
    obtain rfl := hu
    rw [hturn]
    dsimp only
    rw [hsplit]
  · exact (callHost_meets depth st k hr.based hargs hwait f.code (a :: as) mark').meets
  · exact (Matches.suspended hr.based (by exact trivial) hwait.parked).meets

/-! ## Jumps -/

/-- The operand a jump decides on is there. -/
theorem Standing.last_jump {C : CompiledFunc} {M : ModuleTypes} {locals results : List IrVal}
    {ss : List Construct} {j : Jump}
    (h : Standing C M locals results ss vals none (.jump j body) ip 0)
    (hj : (∃ targets default, j = .brTable targets default) ∨ j = .throwRef) : 1 ≤ vals.length := by
  obtain ⟨S, -, -, ⟨ts, hts, htyped⟩, -⟩ := h
  obtain ⟨targets, default, rfl⟩ | rfl := hj <;>
    cases htyped with
    | jump hjump =>
      cases hjump
      simp only [List.length_append, List.length_singleton] at hts
      omega

/-- A `br_table` goes to the label its index selects. -/
theorem runBrTable_meets (hr : Running P base fs₀ a as f fs) (hat : a.At P none ip 0)
    {targets : List ℕ} {default : ℕ} (hbody : a.body = .jump (.brTable targets default) body) :
    Meets P fs₀
      (D.runJump P.source ⟨st, k, base, fs₀.length, depth, a :: as, .run⟩ a as
        (.brTable targets default))
      (D.follow fs₀.length (f.turned st (a.stacks base as (f :: fs) depth a.vals) k ip mark)) := by
  have hstand := hat.stand
  rw [hbody] at hstand
  have hlast := hstand.last_jump (Or.inl ⟨targets, default, rfl⟩)
  obtain ⟨vs₀, c, hvals₀⟩ := concat_of_pos hlast
  obtain ⟨S, hopen, hhere⟩ := hstand
  rw [hvals₀, List.length_append] at hhere
  obtain ⟨pool, hop, hedges⟩ := hhere.brTable hopen
  obtain ⟨d, hd, hlands⟩ := hedges targets.length default (by simp)
  have hpool : ¬f.code.brTables.length < pool + targets.length := by
    have := (List.getElem?_eq_some_iff.mp hd).1
    rw [hr.holds.code]
    omega
  have hopAt : D.opAt f (.brTable pool targets.length) ip
      = .pop 1 Handler.scalars fun os => .jump
          (if (os.headD ⟨0, .none⟩).cell.unwrapI32.toNat < targets.length then
            f.code.brTables.getD (pool + (os.headD ⟨0, .none⟩).cell.unwrapI32.toNat) d
          else d) := by
    show (if f.code.brTables.length < pool + targets.length then _ else _) = _
    rw [if_neg hpool, hr.holds.code, hd]
    rfl
  have hrun := run_pop_stacks depth hr Handler.scalars hlast
    (fun os => (.jump (if (os.headD ⟨0, .none⟩).cell.unwrapI32.toNat < targets.length then
        f.code.brTables.getD (pool + (os.headD ⟨0, .none⟩).cell.unwrapI32.toNat) d
      else d) : Handler σ)) st.rest
  rw [← hopAt] at hrun
  rw [Denoted.runJump]
  refine taking_meets hr hop hrun refuses_scalars fun o vs hvals hrun => ?_
  obtain ⟨rfl, rfl⟩ := List.append_singleton_inj.mp (hvals₀.symm.trans hvals)
  have hc : ([c].headD ⟨0, .none⟩ : Operand) = c := rfl
  rw [hc] at hrun ⊢
  by_cases hin : c.cell.unwrapI32.toNat < targets.length
  · obtain ⟨e, he, hlands⟩ := hedges c.cell.unwrapI32.toNat _
      (by rw [List.getElem?_append_left hin]; exact List.getElem?_eq_getElem hin)
    have hedge : f.code.brTables.getD (pool + c.cell.unwrapI32.toNat) d = e := by
      rw [List.getD_eq_getElem?_getD, hr.holds.code, he]
      rfl
    rw [if_pos hin, hedge] at hrun
    rw [List.getD_eq_getElem?_getD, List.getElem?_eq_getElem hin, Option.getD_some]
    exact jump_meets hr hop hlands hrun _
  · rw [if_neg hin] at hrun
    rw [List.getD_eq_getElem?_getD, List.getElem?_eq_none_iff.mpr (Nat.le_of_not_lt hin),
      Option.getD_none]
    exact jump_meets hr hop hlands hrun _

/-- A jump goes to its label, to a handler, or to its callee. -/
theorem runJump_meets (hr : Running P base fs₀ a as f fs) (hat : a.At P none ip 0) {j : Jump}
    (hbody : a.body = .jump j body) :
    Meets P fs₀ (D.runJump P.source ⟨st, k, base, fs₀.length, depth, a :: as, .run⟩ a as j)
      (D.follow fs₀.length (f.turned st (a.stacks base as (f :: fs) depth a.vals) k ip mark)) := by
  have hstand := hat.stand
  rw [hbody] at hstand
  obtain ⟨S, hopen, hhere⟩ := id hstand
  cases j with
  | br l =>
    obtain ⟨e, hop, hlands⟩ := hhere.br hopen
    exact jump_meets hr hop hlands rfl _
  | brTable targets default => exact runBrTable_meets hr hat hbody
  | ret =>
    obtain ⟨e, hop, hlands⟩ := hhere.ret hopen
    exact jump_meets hr hop hlands rfl _
  | unreachable =>
    exact turn_fails hr hhere.unreachable a rfl rfl rfl rfl
      (fun _ h => by cases h) rfl
  | throw tag =>
    obtain ⟨hop, htag, hins, hcovered⟩ := hhere.throw
    exact runThrow_meets hr hop htag hins hat ⟨S, hopen, hcovered⟩
  | throwRef =>
    obtain ⟨hop, hcovered⟩ := hhere.throwRef
    have hlast := hstand.last_jump (Or.inr rfl)
    obtain ⟨vs₀, r, hvals₀⟩ := concat_of_pos hlast
    have hrun := run_pop_stacks depth hr (Handler.refOf .exn) hlast
      (fun os => (.done (.error (if (os.headD ⟨0, .none⟩).cell.isNull then .nullReference
        else .pending (os.headD ⟨0, .none⟩).cell.handle)) : Handler σ)) st.rest
    rw [Denoted.runJump]
    exact taking_meets hr hop hrun (refuses_refOf .exn) fun o vs hvals hrun =>
      turn_fails hr hop a rfl rfl rfl rfl
        (fun _ _ => ⟨S, hopen, hcovered⟩) hrun
  | returnCall c => exact tailCall_meets hr hat hbody

end Calls

end SubmilliWasm
