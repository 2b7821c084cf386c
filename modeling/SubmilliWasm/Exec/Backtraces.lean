/-
# The backtraces of a run

Every place that captures a backtrace knows, or takes from the frames, the op of the topmost frame;
for the others it goes back one op from the saved ip.  With the sites of the frames written beside
the run, a capture is exact where its topmost op is the site noted and every frame below is
suspended in a call.  That fails in two places.  What the embedder captures in an epoch callback
goes back one op from the interrupted op as well, and so does any capture in a call made from it.
The head of `run` takes the saved ip of the topmost frame for the op it executes, which is the next
one where a growth or an asynchronous host call was served.
-/
import SubmilliWasm.Exec.Sites

namespace SubmilliWasm

open Runs

variable {σ : Type}

/-! ## Where backtraces are exact -/

/-- The embedder's code has control and has been given the store; a limiter is not. -/
def State.MayCapture (s : State σ) : Prop :=
  match s.guest, s.drives with
  | true, _ => False
  | false, [] => True
  | false, d :: _ =>
    match d.pc with
    | .limiter _ _ => False
    | _ => True

/-- An epoch callback has interrupted the topmost frame in front of the first op of its function. -/
def State.InFront (s : State σ) : Prop :=
  match s.drives with
  | [] => True
  | d :: _ =>
    match d.pc with
    | .epochCallback _ => s.slot.frames.head?.map Frame.ip = some 0
    | _ => True

namespace Traced

variable (T : Traced σ)

/-- The embedder calls back from where it may capture, and where the head of `run` finds the stacks
at their limit, the topmost frame is to go on at the op it executes. -/
def Traceable (c : Choice σ) (w : State σ × List ℕ) : Prop :=
  match c, w.1.guest, w.1.drives with
  | .call _ _ _ _ _ _, false, _ => w.1.MayCapture ∧ w.1.InFront
  | .go, true, d :: _ =>
    match d.pc with
    | .run _ => ∀ bytes, d.exec.stackBytes T.frameSize = .ok bytes → T.maxWasmStack ≤ bytes →
        d.exec.frames.head?.map Frame.ip = w.2.head?
    | _ => True
  | _, _, _ => True

variable {T} {s : State σ} {sites : List ℕ}

/-! ## One step -/

theorem sitesFor_same (hlen : s.current.frames.length = sites.length)
    (hregs : ∀ r, s.registers = some r → ∃ rest, sites = r.ip :: rest) :
    sitesFor s.current.frames.length s.registers sites = sites := by
  unfold sitesFor
  rw [realign_self hlen]
  cases hr : s.registers with
  | none => rfl
  | some r =>
    obtain ⟨rest, rfl⟩ := hregs r hr
    rfl

/-- The sites noted are for the frames there are. -/
theorem sited_sitesFor (h : s.Sited sites) (hne : s.guest = true → s.drives ≠ []) :
    sitesFor s.current.frames.length s.registers sites = sites := by
  obtain ⟨st, slot, all, guest⟩ := s
  cases guest with
  | false =>
    have hlen : slot.frames.length = sites.length := by
      cases all with
      | nil => exact h
      | cons d ds => exact h.1
    exact sitesFor_same hlen fun r hr => (nomatch hr)
  | true =>
    cases all with
    | nil => exact absurd rfl (hne rfl)
    | cons d ds =>
      obtain ⟨boundary, resultTys, scope, exec, countdown, pc⟩ := d
      obtain ⟨hlen, hruns, -⟩ := h
      refine sitesFor_same hlen fun r hr => ?_
      cases pc with
      | loop r' | poll r' =>
        obtain ⟨rest, hsites, -⟩ := hruns
        obtain rfl : r' = r := Option.some.inj hr
        exact ⟨rest, hsites⟩
      | run _ | serve _ | hostFn _ | hostFnAsync _ | limiter _ _ | epochCallback _ | done _ =>
        nomatch hr

/-- A step that changes the store at most. -/
theorem stays_sited {c : Choice σ} (hslot : (T.machine c s).1.slot = s.slot)
    (hdrives : (T.machine c s).1.drives = s.drives) (hguest : (T.machine c s).1.guest = s.guest)
    (h : s.Sited sites) (hne : s.guest = true → s.drives ≠ []) :
    (T.machine c s).1.Sited (T.sitesAfter c s sites) := by
  unfold sitesAfter
  generalize (T.machine c s).1 = s' at *
  obtain ⟨st', slot', all', guest'⟩ := s'
  obtain ⟨st, slot, all, guest⟩ := s
  dsimp only at hslot hdrives hguest
  subst hslot hdrives hguest
  have hsites := sited_sitesFor h hne
  show State.Sited (⟨st', slot', all', guest'⟩ : State σ)
    (sitesFor (State.current (⟨st, slot', all', guest'⟩ : State σ)).frames.length
      (State.registers (⟨st, slot', all', guest'⟩ : State σ)) sites)
  rw [hsites]
  exact h

/-- Every frame is suspended in a call, or as one that is in front of its first op. -/
theorem inFront_atCalls {st : StoreState σ} {e : Execution} {ds : List Drive}
    (hon : LayeredOn .empty ds e) (h : SitedOn ds e.frames sites)
    (hmay : State.MayCapture (⟨st, e, ds, false⟩ : State σ))
    (hfront : State.InFront (⟨st, e, ds, false⟩ : State σ)) : AtCalls e.frames sites := by
  cases ds with
  | nil =>
    obtain rfl : e = .empty := hon
    obtain rfl : sites = [] := List.length_eq_zero_iff.mp (Eq.symm h)
    exact .nil
  | cons d ds =>
    obtain ⟨boundary, resultTys, scope, exec, countdown, pc⟩ := d
    obtain ⟨-, hwaits, -⟩ := h
    cases pc with
    | hostFn _ | hostFnAsync _ => exact hwaits
    | epochCallback _ => exact StoppedAt.atCalls hwaits hfront
    | limiter _ _ => exact hmay.elim
    | run _ | loop _ | poll _ | serve _ | done _ => exact hwaits.elim

/-- An answer changes nothing where no driver waits. -/
theorem answered_sited {st : StoreState σ} {e : Execution} {ds : List Drive} (c : Choice σ)
    (hc : match c with | .ret _ | .grown _ _ | .deadline _ | .panic => True | _ => False)
    (hon : LayeredOn .empty ds e) (h : SitedOn ds e.frames sites) :
    (T.machine c ⟨st, e, ds, false⟩).1.Sited (T.sitesAfter c ⟨st, e, ds, false⟩ sites) := by
  cases ds with
  | cons d ds => exact answer_sited c hc hon h
  | nil =>
    have hsame : (T.machine c (⟨st, e, [], false⟩ : State σ)).1 = ⟨st, e, [], false⟩ := by
      cases c with
      | ret _ | grown _ _ | deadline _ | panic => rfl
      | go | tick | post | call _ _ _ _ _ _ | setFuel _ | setFuelYieldInterval _ | hostOp _ =>
        exact hc.elim
    refine stays_sited ?_ ?_ ?_ h nofun
    · rw [hsame]
    · rw [hsame]
    · rw [hsame]

variable (T)

/-- **One step** keeps the note of the sites. -/
theorem sited_step (c : Choice σ) (w : State σ × List ℕ) (hs : Above .empty [] w.1)
    (h : w.1.Sited w.2) (hp : T.Traceable c w) : (T.sited c w).1.1.Sited (T.sited c w).1.2 := by
  obtain ⟨s, sites⟩ := w
  show (T.machine c s).1.Sited (T.sitesAfter c s sites)
  dsimp only at hs h
  cases hs with
  | @host st e ds hon =>
    rw [List.append_nil] at h hp ⊢
    have hsame : (T.machine c ⟨st, e, ds, false⟩).1.slot = e →
        (T.machine c ⟨st, e, ds, false⟩).1.drives = ds →
        (T.machine c ⟨st, e, ds, false⟩).1.guest = false →
        (T.machine c ⟨st, e, ds, false⟩).1.Sited (T.sitesAfter c ⟨st, e, ds, false⟩ sites) :=
      fun hslot hdrives hguest => stays_sited hslot hdrives hguest h nofun
    cases c with
    | go | tick | post | setFuel _ | setFuelYieldInterval _ | hostOp _ => exact hsame rfl rfl rfl
    | call inst funcIndex code args resultTys isAsync =>
      exact enter_sited (hon.parkable fun _ => rfl) h (inFront_atCalls hon h hp.1 hp.2) inst
        funcIndex code args resultTys isAsync
    | ret _ | grown _ _ | deadline _ | panic => exact answered_sited _ trivial hon h
  | @guest st d ds hon =>
    rw [List.append_nil] at h hp ⊢
    cases c with
    | go =>
      obtain ⟨-, entry, inner, hentry, hb, hin, hfits⟩ := hon
      exact guestStep_sited hb hin hfits (hentry.parkable fun _ => rfl) h
    | tick | post | call _ _ _ _ _ _ | setFuel _ | setFuelYieldInterval _ | hostOp _ | ret _
    | grown _ _ | deadline _ | panic =>
      exact stays_sited rfl rfl rfl h fun _ => List.cons_ne_nil d ds

end Traced

/-! ## Traps and the unwinder -/

namespace Interp

variable {I : Interp σ} {s : σ} {exn thrown : ℕ} {err : ExecError}

theorem findRec_error {inst : ℕ} {rs : List HandlerRec}
    (h : I.findRec s inst thrown rs = .error err) :
    err.isTrap = false := by
  induction rs with
  | nil => nomatch h
  | cons r rs ih =>
    unfold findRec at h
    split at h
    · nomatch h
    · split at h
      · rw [← Except.error.inj h]
        rfl
      · split at h
        · nomatch h
        · exact ih h

theorem findClause_error {ip inst : ℕ} {spans : List HandlerSpan}
    (h : I.findClause s ip inst thrown spans = .error err) : err.isTrap = false := by
  induction spans with
  | nil => nomatch h
  | cons span spans ih =>
    unfold findClause at h
    split at h
    · split at h
      · exact ih h
      · exact findRec_error h
    · exact ih h

variable {args : ℕ × List Val}

theorem enterExceptionHandler_error (hexn : I.exn s exn = .ok args) {e : Execution} {r : HandlerRec}
    {floor : ℕ} (h : (I.enterExceptionHandler s e exn r floor).2 = .error err) :
    err.isTrap = false := by
  have hpayload : ∃ vs, (if r.payloadArgs then (I.exn s exn).map Prod.snd else .ok [])
    = .ok vs := by
    rw [hexn]
    split
    · exact ⟨args.2, rfl⟩
    · exact ⟨[], rfl⟩
  obtain ⟨vs, hvs⟩ := hpayload
  unfold enterExceptionHandler at h
  dsimp only at h
  rw [hvs] at h
  split at h
  · rw [← Except.error.inj h]
    rfl
  · split at h
    · rw [← Except.error.inj h]
      rfl
    · dsimp only at h
      split at h
      · rw [← Except.error.inj h]
        rfl
      · nomatch h

theorem unwindFrom_error (hexn : I.exn s exn = .ok args) {stopDepth fuel : ℕ} {e : Execution}
    {faultIp : ℕ} (h : (I.unwindFrom s exn thrown stopDepth fuel e faultIp).2 = .error err) :
    err.isTrap = false := by
  have hfailed : ∀ {err' : ExecError}, err'.isTrap = false →
      (Except.error err' : Except ExecError Unit) = .error err → err.isTrap = false := by
    intro err' htrap herr
    rw [← Except.error.inj herr]
    exact htrap
  induction fuel generalizing e faultIp with
  | zero => exact hfailed rfl h
  | succ fuel ih =>
    unfold unwindFrom at h
    split at h
    · exact hfailed rfl h
    · split at h
      · exact hfailed rfl h
      · split at h
        · rename_i hclause
          exact hfailed (findClause_error hclause) h
        · exact enterExceptionHandler_error hexn h
        · split at h
          · exact hfailed rfl h
          · dsimp only at h
            split at h
            · exact hfailed rfl h
            · split at h
              · exact hfailed rfl h
              · split at h
                · exact hfailed rfl h
                · exact ih h

/-- The unwinder leaves the stacks alone where it ends in a trap. -/
theorem unwind_trap {e : Execution} {err' : ExecError} {faultIp stopDepth : ℕ}
    (h : (I.unwind s e err faultIp stopDepth).2 = .error err') (htrap : err'.isTrap = true) :
    (I.unwind s e err faultIp stopDepth).1 = e := by
  unfold unwind at h ⊢
  split at h
  · split at h
    · rfl
    · rename_i hexn
      rw [unwindFrom_error hexn h] at htrap
      nomatch htrap
  · rfl

end Interp

/-! ## The captures -/

theorem Inside.top_delimiter {entry e : Execution} {f : Frame} {fs : List Frame}
    (h : Inside entry (f :: fs) e) : f.delimiter = none := h.floors.1

namespace Traced

variable {T : Traced σ} {sites : List ℕ}

theorem attachTrapBacktrace_some {e : Execution} {err : ExecError} {ip : ℕ} {bt : WasmBacktrace}
    (h : T.attachTrapBacktrace e err ip = some bt) :
    bt = T.captureBacktrace e ip ∧ err.isTrap = true := by
  unfold attachTrapBacktrace at h
  split at h
  · rename_i hcaptures
    rw [Bool.and_eq_true] at hcaptures
    exact ⟨(Option.some.inj h).symm, hcaptures.2⟩
  · nomatch h

section

variable {f : Frame} {fs : List Frame} {rest : List ℕ} {st : StoreState σ} {e : Execution}
  {r : Regs}

/-- A trap or a throw at the op in the register. -/
theorem captureBacktrace_exact (hf : f.delimiter = none) (hcalls : AtCalls fs rest)
    (he : e.frames = f :: fs) (ip : ℕ) :
    T.Exact (f :: fs) (ip :: rest) (T.captureBacktrace e ip) := by
  unfold captureBacktrace
  rw [he]
  exact build_top hf hcalls

theorem executeBacktraces_exact (hf : f.delimiter = none) (hcalls : AtCalls fs rest)
    (he : e.frames = f :: fs) (stopDepth : ℕ) (op : Op) :
    ∀ bt ∈ T.executeBacktraces st e r stopDepth op, T.Exact (f :: fs) (r.ip :: rest) bt := by
  intro bt hbt
  have hframes := (T.step r.code op (r.ip + 1) r.inst).run_frames r.base e st.rest
  have hcaptured : ∀ {e' : Execution}, e'.frames = e.frames →
      T.Exact (f :: fs) (r.ip :: rest) (T.captureBacktrace e' r.ip) :=
    fun he' => captureBacktrace_exact hf hcalls (he'.trans he) r.ip
  have hattached : ∀ {e' : Execution} {err : ExecError},
    (err.isTrap = true → e'.frames = e.frames) →
      bt ∈ (T.attachTrapBacktrace e' err r.ip).toList → T.Exact (f :: fs) (r.ip :: rest) bt := by
    intro e' err he' hmem
    obtain ⟨rfl, htrap⟩ := attachTrapBacktrace_some (Option.mem_toList.mp hmem)
    exact hcaptured (he' htrap)
  unfold executeBacktraces at hbt
  split at hbt
  · rename_i e' s err hrun
    rw [hrun] at hframes
    rcases List.mem_append.mp hbt with hbt | hbt
    · split at hbt
      · split at hbt
        · obtain rfl := List.mem_singleton.mp hbt
          exact hcaptured hframes
        · exact absurd hbt List.not_mem_nil
      · exact absurd hbt List.not_mem_nil
    · have hunwound : ∀ err', (T.unwind s e' err r.ip stopDepth).2 = .error err' →
          err'.isTrap = true → (T.unwind s e' err r.ip stopDepth).1 = e' :=
        fun _ => T.unwind_trap
      generalize T.unwind s e' err r.ip stopDepth = unwound at hbt hunwound
      obtain ⟨e'', err' | _⟩ := unwound
      · exact hattached (fun htrap => by rw [← hframes, ← hunwound err' rfl htrap]) hbt
      · exact absurd hbt List.not_mem_nil
  · rename_i e' s req hrun
    rw [hrun] at hframes
    split at hbt
    · exact absurd hbt List.not_mem_nil
    · split at hbt
      · exact hattached (fun _ => hframes) hbt
      · exact absurd hbt List.not_mem_nil
  · exact absurd hbt List.not_mem_nil

/-- **A turn of the loop** captures at its op. -/
theorem turnBacktraces_exact (hf : f.delimiter = none) (hcalls : AtCalls fs rest)
    (he : e.frames = f :: fs) (stopDepth : ℕ) :
    ∀ bt ∈ T.turnBacktraces st e r stopDepth, T.Exact (f :: fs) (r.ip :: rest) bt := by
  intro bt hbt
  unfold turnBacktraces at hbt
  split at hbt
  · exact absurd hbt List.not_mem_nil
  · rename_i op _
    rcases T.serviceGates_frames st he r.ip with ⟨st', ⟨err, hg⟩ | hg⟩ |
      ⟨st', e', o, hg, -, -⟩
    · rw [hg] at hbt
      obtain ⟨rfl, -⟩ := attachTrapBacktrace_some (Option.mem_toList.mp hbt)
      exact captureBacktrace_exact hf hcalls he r.ip
    · rw [hg] at hbt
      exact executeBacktraces_exact hf hcalls he stopDepth op bt hbt
    · rw [hg] at hbt
      exact absurd hbt List.not_mem_nil

end

variable {entry e : Execution} {inner : List Frame} {st : StoreState σ}

/-- The frames inside a call that are not at its end. -/
theorem inside_top (hin : Inside entry inner e) (hne : e.frames.length ≠ entry.frames.length + 1) :
    ∃ f fs, e.frames = f :: fs ∧ f.delimiter = none := by
  obtain ⟨delimiter, hframes, -⟩ := hin.frames
  cases inner with
  | nil => exact absurd (by rw [hframes]; rfl) hne
  | cons f fs => exact ⟨f, _, hframes, hin.top_delimiter⟩

/-- **The head of `run`** captures at the saved ip of the topmost frame. -/
theorem runBacktrace_exact {d : Drive} (hb : d.boundary = boundaryOf entry)
    (hin : Inside entry inner d.exec) (hcalls : AtCalls d.exec.frames.tail sites.tail)
    (hlen : d.exec.frames.length = sites.length)
    (htop : ∀ bytes, d.exec.stackBytes T.frameSize = .ok bytes → T.maxWasmStack ≤ bytes →
      d.exec.frames.head?.map Frame.ip = sites.head?) :
    ∀ bt, T.runBacktrace d = some bt → T.Exact d.exec.frames sites bt := by
  intro bt hbt
  have hrun : d.boundary.runStop = entry.frames.length + 1 := congrArg Boundary.runStop hb
  unfold runBacktrace at hbt
  rw [hrun] at hbt
  split at hbt
  · nomatch hbt
  · rename_i hne
    split at hbt
    · nomatch hbt
    · rename_i bytes hbytes
      split at hbt
      · rename_i hfull
        obtain ⟨f, fs, hframes, hf⟩ := inside_top hin hne
        have hip := htop bytes hbytes hfull
        obtain ⟨rfl, -⟩ := attachTrapBacktrace_some hbt
        rw [hframes] at hcalls hlen hip ⊢
        cases sites with
        | nil => nomatch hlen
        | cons site rest =>
          obtain rfl : f.ip = site := Option.some.inj hip
          exact captureBacktrace_exact hf hcalls hframes f.ip
      · nomatch hbt

/-- **A host function's exception** gets its backtrace at the call. -/
theorem hostCallBacktrace_exact (hin : Inside entry inner e) (hcalls : AtCalls e.frames sites)
    (call : HostCallState) (outcome : Except ExecError (List Val)) :
    ∀ bt, T.hostCallBacktrace st e call outcome (entry.frames.length + 1) = some bt →
      T.Exact e.frames sites bt := by
  intro bt hbt
  unfold hostCallBacktrace at hbt
  split at hbt
  · split at hbt
    · unfold raiseHostBacktrace at hbt
      split at hbt
      · nomatch hbt
      · rename_i habove
        obtain ⟨f, fs, hframes, hf⟩ := inside_top hin (by omega)
        rw [hframes] at hbt hcalls ⊢
        dsimp only at hbt
        cases hcalls with
        | @cons _ site _ rest hsite hcalls =>
          split at hbt
          · nomatch hbt
          · split at hbt
            · nomatch hbt
            · split at hbt
              · obtain rfl := Option.some.inj hbt
                rw [← hsite hf]
                exact captureBacktrace_exact hf hcalls hframes (f.ip - 1)
              · nomatch hbt
    · nomatch hbt
  · nomatch hbt

/-- **The interrupt of the deadline** gets its backtrace at the op it stopped on. -/
theorem attachSuspensionBacktrace_exact (hin : Inside entry inner e) (hne : inner ≠ [])
    (hstopped : StoppedAt e.frames sites) (err : ExecError) :
    ∀ bt, T.attachSuspensionBacktrace e err = some bt → T.Exact e.frames sites bt := by
  intro bt hbt
  have hlen := hin.frames_length
  obtain ⟨f, fs, hframes, hf⟩ := inside_top hin (by
    have := List.length_pos_iff.mpr hne
    omega)
  obtain ⟨g, gs, rest, hg, rfl, hcalls⟩ := hstopped
  obtain ⟨rfl, rfl⟩ := List.cons.inj (hframes.symm.trans hg)
  unfold attachSuspensionBacktrace at hbt
  rw [hframes] at hbt
  obtain ⟨rfl, -⟩ := attachTrapBacktrace_some hbt
  rw [hframes]
  exact captureBacktrace_exact hf hcalls hframes f.ip

/-! ## Runs -/

variable (T)

/-- What the engine captures in a step. -/
theorem step_backtraces (c : Choice σ) (w : State σ × List ℕ) (hs : Above .empty [] w.1)
    (h : w.1.Sited w.2) (hp : T.Traceable c w) :
    ∀ bt ∈ T.backtraces c w.1, T.Exact w.1.current.frames w.2 bt := by
  obtain ⟨s, sites⟩ := w
  intro bt hbt
  dsimp only at hs h hbt ⊢
  cases hs with
  | @host st e ds hon =>
    rw [List.append_nil] at h hbt ⊢
    cases ds with
    | nil =>
      cases c with
      | go | tick | post | call _ _ _ _ _ _ | setFuel _ | setFuelYieldInterval _ | hostOp _ | ret _
      | grown _ _ | deadline _ | panic => exact absurd hbt List.not_mem_nil
    | cons d ds =>
      obtain ⟨-, entry, inner, -, hb, hin, hfits⟩ := hon
      obtain ⟨boundary, resultTys, scope, exec, countdown, pc⟩ := d
      have hrun : boundary.runStop = entry.frames.length + 1 := congrArg Boundary.runStop hb
      obtain ⟨-, hwaits, -⟩ := h
      dsimp only at hfits hwaits
      cases c with
      | go | tick | post | call _ _ _ _ _ _ | setFuel _ | setFuelYieldInterval _ | hostOp _
      | grown _ _ | panic => exact absurd hbt List.not_mem_nil
      | ret r =>
        unfold backtraces at hbt
        dsimp only at hbt
        rw [hrun] at hbt
        cases pc with
        | hostFn call | hostFnAsync call =>
          exact hostCallBacktrace_exact hin hwaits call r bt (Option.mem_toList.mp hbt)
        | limiter _ _ | epochCallback _ | run _ | loop _ | poll _ | serve _ | done _ =>
          exact absurd hbt List.not_mem_nil
      | deadline r =>
        unfold backtraces at hbt
        cases pc with
        | epochCallback scope' =>
          obtain ⟨err, -, hattached⟩ := Option.bind_eq_some_iff.mp (Option.mem_toList.mp hbt)
          exact attachSuspensionBacktrace_exact hin hfits hwaits err bt hattached
        | hostFn _ | hostFnAsync _ | limiter _ _ | run _ | loop _ | poll _ | serve _ | done _ =>
          exact absurd hbt List.not_mem_nil
  | @guest st d ds hon =>
    rw [List.append_nil] at h hp hbt ⊢
    obtain ⟨-, entry, inner, -, hb, hin, hfits⟩ := hon
    obtain ⟨boundary, resultTys, scope, exec, countdown, pc⟩ := d
    obtain ⟨hlen, hruns, -⟩ := h
    dsimp only at hb hin hfits hlen hruns
    cases c with
    | tick | post | call _ _ _ _ _ _ | setFuel _ | setFuelYieldInterval _ | hostOp _ | ret _
    | grown _ _ | deadline _ | panic => exact absurd hbt List.not_mem_nil
    | go =>
      unfold backtraces at hbt
      cases pc with
      | run resumed =>
        exact runBacktrace_exact (d := ⟨boundary, resultTys, scope, exec, countdown, .run resumed⟩)
          hb hin hruns hlen hp bt (Option.mem_toList.mp hbt)
      | loop r =>
        obtain ⟨rest, rfl, hcalls⟩ := hruns
        obtain ⟨f, fs, rfl, -⟩ := id hfits
        obtain ⟨delimiter, hframes, -⟩ := hin.frames
        rw [List.cons_append] at hframes
        rw [hframes, List.tail_cons] at hcalls
        show T.Exact exec.frames (r.ip :: rest) bt
        rw [hframes]
        exact turnBacktraces_exact hin.top_delimiter hcalls hframes boundary.runStop bt hbt
      | poll _ | serve _ | hostFn _ | hostFnAsync _ | limiter _ _ | epochCallback _ | done _ =>
        exact absurd hbt List.not_mem_nil

/-- What the embedder captures from the parked execution. -/
theorem parked_exact {s : State σ} (hs : Above .empty [] s) (h : s.Sited sites)
    (hmay : s.MayCapture) (hfront : s.InFront) :
    T.Exact s.slot.frames sites (T.fromParked s.slot) := by
  cases hs with
  | @host st e ds hon =>
    rw [List.append_nil] at h hmay hfront
    exact build_parked (inFront_atCalls hon h hmay hfront)
  | guest _ => exact hmay.elim

/-- The backtraces captured in a step are exact, and so is what the embedder captures before it,
where `P` holds. -/
def ExactWhere (P : State σ → Prop) (c : Choice σ) (w : State σ × List ℕ) : Prop :=
  (∀ bt ∈ T.backtraces c w.1, T.Exact w.1.current.frames w.2 bt) ∧
    (w.1.MayCapture → P w.1 → T.Exact w.1.slot.frames w.2 (T.fromParked w.1.slot))

/-- **Backtraces are exact.**  In every run in which wasm is not called from an epoch callback
behind a function's first op, and the stacks are not found at their limit behind an op that has
been served: whatever the engine captures, and whatever the embedder does but in such a callback,
are the live frames, each at the op it executes, and the re-entries between them. -/
theorem backtraces_exact (cs : List (Choice σ)) (st : StoreState σ)
    (hp : Along T.sited T.Traceable cs (State.idle st, [])) :
    Along T.sited (T.ExactWhere State.InFront) cs (State.idle st, []) := by
  have hstart : Above .empty [] (State.idle st) ∧ (State.idle st).Sited [] :=
    ⟨Above.reachable T.toInterp false [] st, rfl⟩
  have hinvariant := Along.and_invariant
    (I := fun w : State σ × List ℕ => Above .empty [] w.1 ∧ w.1.Sited w.2)
    (fun c w hw hc => ⟨hw.1.step T.toInterp (fun _ => rfl) false c (Or.inl rfl),
      T.sited_step c w hw.1 hw.2 hc⟩) (s := (State.idle st, ([] : List ℕ))) hstart hp
  exact hinvariant.mono fun c w hw => ⟨T.step_backtraces c w hw.1.1 hw.1.2 hw.2,
    T.parked_exact hw.1.1 hw.1.2⟩

/-! ## Two runs -/

/-- The small interpreter, whose functions are all of one module and have ops ten bytes apart. -/
def idle (maxWasmStack : ℕ) (epochInterruption : Bool) : Traced Unit where
  toInterp := .idle maxWasmStack false epochInterruption
  wasmBacktrace := true
  instanceModule _ := some 0
  registered := registered_first
  codeOffsets _ _ := some [10, 20, 30, 40]
  exnHasBacktrace _ _ := false
  plain_returns _ _ _ := trivial
  throwTag_returns _ _ _ := trivial

/-- A call that is interrupted in front of its op number `n`. -/
def interruptedRun (n : ℕ) : List (Choice Unit) :=
  .call 0 0 (.ofOps [.plain .nop, .plain .nop]) [] [] false :: .go :: List.replicate n .go ++
    [.tick, .go, .go, .post]

def dueNext : StoreState Unit := { StoreState.new () with epochDeadline := 1 }

/-- A call that grows a memory and then finds the stacks at their limit. -/
def grownRun : List (Choice Unit) :=
  [.call 0 0 (.ofOps [.plain (.i32Const 0), .plain (.i32Const 0), .plain (.memoryGrow 0),
      .plain .nop]) [] [] false, .go, .go, .go, .go, .go, .grown () (.ok (some 0)), .go]

/-- Interrupted in front of its first op, a call is shown there. -/
theorem backtraces_exact_first :
    Along (idle 1000 true).sited ((idle 1000 true).ExactWhere State.InFront) (interruptedRun 0)
      (State.idle dueNext, []) :=
  backtraces_exact (idle 1000 true) (interruptedRun 0) dueNext
    ⟨⟨trivial, trivial⟩, fun _ hbytes hfull => absurd hfull (by
      obtain rfl := Except.ok.inj hbytes
      decide), trivial, trivial, trivial, trivial, trivial⟩

/-- Behind its first op a call that is interrupted is shown at the op before; and where the stacks
are found at their limit behind a growth, at the op after. -/
theorem not_exact_behind :
    ¬ Along (idle 1000 true).sited ((idle 1000 true).ExactWhere fun _ => True) (interruptedRun 1)
      (State.idle dueNext, []) ∧
    ¬ Along (idle 146 false).sited ((idle 146 false).ExactWhere fun _ => True) grownRun
      (State.idle (.new ()), []) := by
  constructor
  · rintro ⟨-, -, -, -, -, -, ⟨-, hparked⟩, -⟩
    exact absurd (hparked trivial trivial) (by decide)
  · rintro ⟨-, -, -, -, -, -, -, ⟨hcaptured, -⟩, -⟩
    exact absurd (hcaptured _ (List.mem_singleton.mpr rfl)) (by decide)

end Traced

end SubmilliWasm
