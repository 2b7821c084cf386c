/-
# Isolation of outer activations

A host function may call back into wasm, which runs on the same stacks.  While it does, and
however it ends, the stacks of the activation that called the host function are as they were: no
step of a nested call reaches below its boundary, and each of the ways out (results, a trap or an
uncaught exception, a panic, a call that could not be entered) cuts back to exactly the state the
call was entered on.

One step keeps every layer in place (`Above.step`); the invariant of reachable states and the
isolation of a suspended activation are the two runs of it.
-/
import SubmilliWasm.Exec.Layers

namespace SubmilliWasm

open Runs

variable {σ : Type}

/-! ## The unwinder -/

namespace Inside

variable {entry e : Execution} {inner : List Frame} (I : Interp σ)

/-- A frame of the call is left for good. -/
theorem pop {f : Frame} {fs rest : List Frame} (h : Inside entry (f :: fs) e)
    (hrest : e.frames = f :: rest) :
    Inside entry fs { e.truncate f.localsBase with frames := rest } := by
  obtain ⟨d, hd, hdelim⟩ := h.frames
  have hlen : f.localsBase ≤ e.values.length := h.floors.2.1.trans h.floors.2.2.1
  have hbelow : Inside entry fs { e with frames := rest } :=
    { entryLockstep := h.entryLockstep
      lockstep := h.lockstep
      values := h.values
      shadow := h.shadow
      frames := ⟨d, (List.cons.inj (hrest.symm.trans hd)).2, hdelim⟩
      floors := h.floors.2.2.2.mono hlen
      depth := h.depth }
  exact hbelow.truncate h.floors.2.2.2.base_le_floor.2 hlen

theorem enterExceptionHandler {f : Frame} {fs : List Frame} (h : Inside entry (f :: fs) e) (s : σ)
    (exn : ℕ) (r : HandlerRec) :
    ∃ inner', Inside entry inner' (I.enterExceptionHandler s e exn r f.operandBase).1 ∧
      inner' ≠ [] := by
  unfold Interp.enterExceptionHandler
  simp only
  split
  · exact ⟨_, h, List.cons_ne_nil f fs⟩
  · split
    · exact ⟨_, h, List.cons_ne_nil f fs⟩
    · rename_i hheight
      push Not at hheight
      have hcut := h.truncate (n := f.operandBase + r.restoreHeight) (Nat.le_add_right _ _)
        hheight.2
      split
      · exact ⟨_, hcut, List.cons_ne_nil f fs⟩
      · rename_i args _
        have hargs := hcut.pushAll (args.map Operand.ofVal)
        have hpayload : Inside entry (f :: fs) (if r.payloadRef then
            ((e.truncate (f.operandBase + r.restoreHeight)).pushAll (args.map Operand.ofVal)).push
              (Operand.ofVal (.exnRef (some exn)))
            else (e.truncate (f.operandBase + r.restoreHeight)).pushAll
              (args.map Operand.ofVal)) := by
          split
          · exact hargs.push _
          · exact hargs
        obtain ⟨e4, he4, hin⟩ := hpayload.saveIp r.landingIp
        rw [he4]
        exact ⟨_, hin, List.cons_ne_nil _ _⟩

/-- The unwinder pops frames of the call's own only, and a handler it enters is in one of them. -/
theorem unwindFrom (s : σ) (exn thrown : ℕ) (fuel : ℕ) (h : Inside entry inner e) (faultIp : ℕ) :
    ∃ inner', Inside entry inner'
        (I.unwindFrom s exn thrown (entry.frames.length + 1) fuel e faultIp).1 ∧
      ((I.unwindFrom s exn thrown (entry.frames.length + 1) fuel e faultIp).2 = .ok () →
        inner' ≠ []) := by
  induction fuel generalizing inner e faultIp with
  | zero => exact ⟨inner, h, nofun⟩
  | succ fuel ih =>
    have hframes := h.frames_length
    obtain ⟨d, hd, -⟩ := h.frames
    unfold Interp.unwindFrom
    split
    · exact ⟨inner, h, nofun⟩
    · rename_i f rest hf
      split
      · exact ⟨inner, h, nofun⟩
      · rename_i hdepth
        cases inner with
        | nil => exact absurd (by rw [hframes]; simp) hdepth
        | cons g fs =>
          obtain ⟨rfl, hrest⟩ := List.cons.inj (hf.symm.trans hd)
          split
          · exact ⟨_, h, fun _ => List.cons_ne_nil f fs⟩
          · rename_i r _
            obtain ⟨inner', hin, hne⟩ := h.enterExceptionHandler I s exn r
            exact ⟨inner', hin, fun _ => hne⟩
          · split
            · exact ⟨_, h, nofun⟩
            · have hpop := h.pop hf
              simp only
              split
              · exact ⟨fs, hpop, nofun⟩
              · split
                · exact ⟨fs, hpop, nofun⟩
                · split
                  · exact ⟨fs, hpop, nofun⟩
                  · exact ih hpop _

theorem unwind (s : σ) (h : Inside entry inner e) (err : ExecError) (faultIp : ℕ) :
    ∃ inner', Inside entry inner' (I.unwind s e err faultIp (entry.frames.length + 1)).1 ∧
      ((I.unwind s e err faultIp (entry.frames.length + 1)).2 = .ok () → inner' ≠ []) := by
  unfold Interp.unwind
  split
  · split
    · exact ⟨inner, h, nofun⟩
    · exact h.unwindFrom I s _ _ _ faultIp
  · exact ⟨inner, h, nofun⟩

theorem raiseHostException (s : σ) (h : Inside entry inner e) (exn : ℕ) :
    ∃ inner', Inside entry inner'
      (I.raiseHostException s e exn (entry.frames.length + 1)).1 := by
  unfold Interp.raiseHostException
  split
  · exact ⟨inner, h⟩
  · split
    · exact ⟨inner, h⟩
    · split
      · exact ⟨inner, h⟩
      · obtain ⟨inner', hin, -⟩ := h.unwind I s (.pending exn) _
        exact ⟨inner', hin⟩

/-! ## Host calls -/

theorem prepareHostCall (h : Inside entry inner e) {st st' : StoreState σ} {func : ℕ}
    {call : HostCallState} {e' : Execution}
    (hok : I.prepareHostCall st e func = .ok (call, st', e')) : Inside entry inner e' := by
  unfold Interp.prepareHostCall at hok
  simp only at hok
  split at hok
  · nomatch hok
  · rename_i params e1 hpop
    simp only [Except.ok.injEq, Prod.mk.injEq] at hok
    rw [← hok.2.2]
    exact h.popN hpop

theorem startHostCall (h : Inside entry inner e) (st : StoreState σ) (func : ℕ) :
    Inside entry inner (I.startHostCall st e func).2.1 := by
  unfold Interp.startHostCall
  split
  · exact h
  · rename_i hok
    exact h.prepareHostCall I hok

theorem afterCallback (h : Inside entry inner e) (st : StoreState σ) (call : HostCallState)
    (outcome : Except ExecError (List Val)) :
    ∃ inner', Inside entry inner'
      (I.afterCallback st e call outcome (entry.frames.length + 1)).2.1 := by
  unfold Interp.afterCallback Interp.finishHostCall
  split
  · exact ⟨inner, h⟩
  · simp only
    split
    · split
      · split
        · exact ⟨inner, h⟩
        · exact h.raiseHostException I _ _
      · exact ⟨inner, h⟩
    · split
      · exact ⟨inner, h⟩
      · exact ⟨inner, h.pushAll _⟩

end Inside

/-! ## A turn of the loop -/

/-- The outcomes after which the loop goes on with the frame it was in. -/
def RunOutcome.Resumes : RunOutcome → Prop
  | .finished | .hostAsync _ _ => False
  | _ => True

/-- Where a turn may go: on with the top frame, or out, with that frame there still if it is to be
resumed. -/
def Next.Fits (inner : List Frame) : Next → Prop
  | .loop r | .poll r => RegsOf inner r
  | .callback _ => True
  | .leave (.ok o) => o.Resumes → inner ≠ []
  | .leave (.error _) => True

namespace Inside

variable {entry e : Execution} {inner : List Frame} (I : Interp σ)

theorem reload (h : Inside entry inner e) : (Interp.reload e).Fits inner := by
  unfold Interp.reload
  split
  · trivial
  · rename_i r hr
    exact h.top_ok hr

theorem enterCallee (h : Inside entry inner e) (req : CallReq) (countdown : ℕ) :
    ∃ inner', Inside entry inner' (I.enterCallee e req countdown).1 ∧
      (I.enterCallee e req countdown).2.2.Fits inner' := by
  unfold Interp.enterCallee
  split
  · exact ⟨inner, h, trivial⟩
  · rename_i e' hok
    obtain ⟨f, hf⟩ := h.pushCall hok
    refine ⟨f :: inner, ?_⟩
    split
    · exact ⟨hf, trivial⟩
    · rename_i r hr
      have hregs := hf.top_ok hr
      split
      · split
        · exact ⟨hf, hregs⟩
        · exact ⟨hf, hregs⟩
      · exact ⟨hf, hregs⟩

theorem carryOut (h : Inside entry inner e) {r : Regs} (hr : RegsOf inner r) (st : StoreState σ)
    (countdown : ℕ) (out : StepOutcome) :
    ∃ inner', Inside entry inner'
        (I.carryOut st e r (entry.frames.length + 1) countdown out).2.1 ∧
      (I.carryOut st e r (entry.frames.length + 1) countdown out).2.2.2.Fits inner' := by
  obtain ⟨f, fs, rfl, hcode, hbase, hinst⟩ := hr
  have hcallback : ∀ (st : StoreState σ) {inner' : List Frame} {e' : Execution} (func : ℕ),
      (I.startHostCall st e' func).2.2.Fits inner' := by
    intro st inner' e' func
    unfold Interp.startHostCall
    split <;> trivial
  have hsaved : ∀ {ip e'}, e.saveIp ip = some e' → Inside entry ({ f with ip := ip } :: fs) e' := by
    intro ip e' hsave
    obtain ⟨e'', he'', hin⟩ := h.saveIp ip
    rwa [Option.some.inj (hsave.symm.trans he'')]
  have hcases := I.carryOut_cases st e r (entry.frames.length + 1) countdown out
  generalize I.carryOut st e r (entry.frames.length + 1) countdown out = c at hcases ⊢
  cases hcases with
  | advance next => exact ⟨f :: fs, h, f, fs, rfl, hcode, hbase, hinst⟩
  | fails _ _ => exact ⟨_, h, trivial⟩
  | @calls req _ _ _ _ hsave => exact (hsaved hsave).enterCallee I req countdown
  | @tailCalls req _ _ hret =>
    obtain ⟨g, gs, hg, hin, -⟩ := h.doReturn hret
    exact hin.enterCallee I req countdown
  | @hosts func _ _ _ hsave =>
    exact ⟨_, (hsaved hsave).startHostCall I st func, hcallback st func⟩
  | @tailHosts func _ _ _ _ hret =>
    obtain ⟨g, gs, hg, hin, -⟩ := h.doReturn hret
    exact ⟨gs, hin.startHostCall I st func, hcallback st func⟩
  | suspends _ hsave => exact ⟨_, hsaved hsave, fun _ => List.cons_ne_nil _ _⟩
  | tailSuspends hret =>
    obtain ⟨g, gs, hg, hin, -⟩ := h.doReturn hret
    exact ⟨gs, hin, fun hno => hno.elim⟩

theorem execute (h : Inside entry inner e) {r : Regs} (hr : RegsOf inner r) (st : StoreState σ)
    (countdown : ℕ) (op : Op) :
    ∃ inner', Inside entry inner'
        (I.execute st e r (entry.frames.length + 1) countdown op).exec ∧
      (I.execute st e r (entry.frames.length + 1) countdown op).next.Fits inner' := by
  have hstep := h.handler_run (I.step r.code op (r.ip + 1) r.inst) (h.regsOf_base_le hr) st.rest
  unfold Interp.execute
  split
  · rename_i e' s err hrun
    rw [hrun] at hstep
    obtain ⟨inner', hin, hne⟩ := hstep.unwind I s err r.ip
    refine ⟨inner', hin, ?_⟩
    simp only
    split
    · trivial
    · exact hin.reload
  · rename_i e' s out hrun
    rw [hrun] at hstep
    exact hstep.carryOut I hr { st with rest := s } countdown out

/-- Gates that suspend keep the frame to be resumed. -/
theorem serviceGates (h : Inside entry inner e) {r : Regs} (hr : RegsOf inner r)
    (st : StoreState σ) (ip : ℕ) :
    ∃ inner', Inside entry inner' (I.serviceGates st e ip).2.1 ∧ RegsOf inner' r ∧
      ∀ o, (I.serviceGates st e ip).2.2 = .ok (some o) → inner' ≠ [] := by
  obtain ⟨f, fs, rfl, hregs⟩ := hr
  obtain ⟨e', he', hin⟩ := h.saveIp ip
  have hsame : RegsOf (f :: fs) r := ⟨f, fs, rfl, hregs⟩
  have hsaved : RegsOf ({ f with ip := ip } :: fs) r := ⟨_, fs, rfl, hregs⟩
  have hepoch : ∀ st' : StoreState σ, ∃ inner', Inside entry inner' (I.epochGate st' e ip).1 ∧
      RegsOf inner' r ∧ ∀ o, (I.epochGate st' e ip).2 = .ok (some o) → inner' ≠ [] := by
    intro st'
    unfold Interp.epochGate
    split
    · rw [he']
      exact ⟨_, hin, hsaved, fun _ _ => List.cons_ne_nil _ _⟩
    · exact ⟨_, h, hsame, fun _ _ => List.cons_ne_nil _ _⟩
  unfold Interp.serviceGates
  split
  · split
    · exact hepoch _
    · exact ⟨_, h, hsame, fun _ _ => List.cons_ne_nil _ _⟩
    · rw [he']
      exact ⟨_, hin, hsaved, fun _ _ => List.cons_ne_nil _ _⟩
  · exact hepoch st

/-- A turn of the loop stays inside its call. -/
theorem turn (h : Inside entry inner e) {r : Regs} (hr : RegsOf inner r) (st : StoreState σ)
    (countdown : ℕ) :
    ∃ inner', Inside entry inner' (I.turn st e r (entry.frames.length + 1) countdown).exec ∧
      (I.turn st e r (entry.frames.length + 1) countdown).next.Fits inner' := by
  unfold Interp.turn
  split
  · split
    · exact ⟨inner, h, trivial⟩
    · rename_i e' hret
      obtain ⟨g, gs, hg, hin, -⟩ := h.doReturn hret
      exact ⟨gs, hin, fun hno => hno.elim⟩
    · rename_i e' hret
      obtain ⟨g, gs, hg, hin, -⟩ := h.doReturn hret
      exact ⟨gs, hin, hin.reload⟩
  · obtain ⟨inner', hin, hregs, hne⟩ := h.serviceGates I hr st r.ip
    split
    · rename_i hg
      rw [hg] at hin
      exact ⟨inner', hin, trivial⟩
    · rename_i hg
      rw [hg] at hin hne
      exact ⟨inner', hin, fun _ => hne _ rfl⟩
    · rename_i hg
      rw [hg] at hin
      exact hin.execute I hregs _ countdown _

end Inside

/-! ## Layers of a state -/

def boundaryOf (entry : Execution) : Boundary :=
  ⟨entry.values.length, entry.frames.length, entry.frames.length + 1⟩

/-- A driver at `pc` can go on with the frames `inner`. -/
def Pc.Fits (inner : List Frame) : Pc → Prop
  | .loop r | .poll r => RegsOf inner r
  | .run true => inner ≠ []
  | .serve o => o.Resumes → inner ≠ []
  | .limiter _ _ | .epochCallback _ => inner ≠ []
  | _ => True

/-- The parked drivers `ds`, innermost first, and the layers of `e` they run on, down to the state
`E` below all of them. -/
def LayeredOn (E : Execution) : List Drive → Execution → Prop
  | [], e => e = E
  | d :: ds, e => d.exec = .empty ∧ ∃ entry inner, LayeredOn E ds entry ∧
      d.boundary = boundaryOf entry ∧ Inside entry inner e ∧ d.pc.Fits inner

/-- A state in which control is above the parked execution `E` and the drivers `ds₀`. -/
inductive Above (E : Execution) (ds₀ : List Drive) : State σ → Prop where
  | host {st : StoreState σ} {e : Execution} {l : List Drive} (h : LayeredOn E l e) :
      Above E ds₀ ⟨st, e, l ++ ds₀, false⟩
  | guest {st : StoreState σ} {d : Drive} {ds : List Drive}
      (h : LayeredOn E ({ d with exec := .empty } :: ds) d.exec) :
      Above E ds₀ ⟨st, .empty, d :: (ds ++ ds₀), true⟩

/-- An execution without frames is the empty one. -/
def Execution.Parkable (E : Execution) : Prop := E.frames.length = 0 → E = .empty

namespace LayeredOn

variable {E e : Execution} {ds : List Drive}

theorem parkable (hE : E.Parkable) (h : LayeredOn E ds e) : e.Parkable := by
  intro hframes
  cases ds with
  | nil =>
    obtain rfl : e = E := h
    exact hE hframes
  | cons d ds =>
    obtain ⟨-, entry, inner, -, -, hin, -⟩ := h
    have := hin.frames_length
    omega

/-- What is parked again is the entry state, at the bottom as well. -/
theorem parked (hE : E.Parkable) (h : LayeredOn E ds e) :
    (if e.frames.length ≠ 0 then e else .empty) = e := by
  split
  · rfl
  · rename_i hframes
    exact (h.parkable hE (not_not.mp hframes)).symm

/-- The state at the bottom is below every layer. -/
theorem below (h : LayeredOn E ds e) :
    E.values <+: e.values ∧ E.shadow <+: e.shadow ∧ E.frames <:+ e.frames := by
  induction ds generalizing e with
  | nil =>
    obtain rfl : e = E := h
    exact ⟨List.prefix_refl _, List.prefix_refl _, List.suffix_refl _⟩
  | cons d ds ih =>
    obtain ⟨-, entry, inner, hentry, -, hin, -⟩ := h
    obtain ⟨hv, hs, hf⟩ := ih hentry
    obtain ⟨b, hb, -⟩ := hin.frames
    refine ⟨hv.trans hin.values, hs.trans hin.shadow, hf.trans ?_⟩
    rw [hb]
    exact (List.suffix_cons b entry.frames).trans (List.suffix_append inner _)

end LayeredOn

/-- The delimiters of re-entries on a frame stack. -/
def reentries (frames : List Frame) : ℕ := frames.countP fun f => f.delimiter = some .hostReentry

variable {e entry : Execution} {inner : List Frame}

theorem Floors.reentries_eq {base len : ℕ} (h : Floors base inner len) : reentries inner = 0 := by
  induction inner generalizing len with
  | nil => rfl
  | cons f fs ih =>
    unfold reentries
    rw [List.countP_cons_of_neg (by simp [h.1])]
    exact ih h.2.2.2

theorem Inside.reentries_eq (h : Inside entry inner e) :
    reentries e.frames = reentries entry.frames + (entryKind entry).reserves := by
  obtain ⟨d, hd, hdelim, -⟩ := h.frames
  have hinner := h.floors.reentries_eq
  unfold reentries at hinner ⊢
  rw [hd, List.countP_append, hinner, List.countP_cons, hdelim]
  rcases entryKind entry with _ | _
  · simp [Delimiter.reserves]
  · simp [Delimiter.reserves]

/-- The re-entry counter counts the delimiters. -/
theorem LayeredOn.depth {E : Execution} {ds : List Drive}
    (hE : E.hostReentryDepth = reentries E.frames) (h : LayeredOn E ds e) :
    e.hostReentryDepth = reentries e.frames := by
  induction ds generalizing e with
  | nil =>
    obtain rfl : e = E := h
    exact hE
  | cons d ds ih =>
    obtain ⟨-, entry, inner, hentry, -, hin, -⟩ := h
    rw [hin.depth, hin.reentries_eq, ih hentry]

/-! ## One step -/

variable {E : Execution} {ds₀ ds : List Drive} {d : Drive} (I : Interp σ)

/-- The head of `run` leads to the loop at the resume point, or out. -/
theorem Interp.runHead_cases (d : Drive) :
    I.runHead d = .serve .finished ∨ (∃ err, I.runHead d = .done (.error err)) ∨
      ∃ r, d.exec.top = .ok r ∧ I.runHead d = .loop r := by
  unfold Interp.runHead
  split
  · exact Or.inl rfl
  · split
    · exact Or.inr (Or.inl ⟨_, rfl⟩)
    · split
      · exact Or.inr (Or.inl ⟨_, rfl⟩)
      · split
        · exact Or.inr (Or.inl ⟨_, rfl⟩)
        · rename_i r htop
          exact Or.inr (Or.inr ⟨r, htop, rfl⟩)

theorem Inside.runHead (hin : Inside entry inner e) (d : Drive) (he : d.exec = e) :
    (I.runHead d).Fits inner := by
  unfold Interp.runHead
  split
  · exact fun hno => hno.elim
  · split
    · trivial
    · split
      · trivial
      · split
        · trivial
        · rename_i r hr
          rw [he] at hr
          exact hin.top_ok hr

theorem Inside.resume (hin : Inside entry inner e) (hne : inner ≠ []) (inline : Bool) :
    (Interp.resume inline e).Fits inner := by
  cases inline with
  | false => exact hne
  | true =>
    unfold Interp.resume
    rw [if_pos rfl]
    split
    · trivial
    · rename_i r hr
      exact hin.top_ok hr

namespace Above

/-- A closed call leaves its entry state parked. -/
theorem closed (hE : E.Parkable) {entry : Execution} (h : LayeredOn E ds entry)
    (st : StoreState σ) :
    Above E ds₀ ⟨st, if entry.frames.length ≠ 0 then entry else .empty, ds ++ ds₀, false⟩ := by
  rw [h.parked hE]
  exact host h

theorem close_exec {entry : Execution} {inner : List Frame} (hb : d.boundary = boundaryOf entry)
    (hin : Inside entry inner d.exec) (st : StoreState σ) (outcome : Except ExecError Unit) :
    (I.close st d outcome).2.1 = entry := by
  unfold Interp.close
  simp only [hb, boundaryOf, hin.discardTo_eq]
  split
  · split
    · rename_i hok
      have hcut := hin.takeResults_ok hok
      split <;> exact hcut
    · rfl
  · rfl

theorem finish (hE : E.Parkable) {st : StoreState σ}
    (h : LayeredOn E ({ d with exec := .empty } :: ds) d.exec) (outcome : Except ExecError Unit) :
    Above E ds₀ (I.finish ⟨st, .empty, d :: (ds ++ ds₀), true⟩ d (ds ++ ds₀) outcome) := by
  obtain ⟨-, entry, inner, hentry, hb, hin, -⟩ := h
  have hexec := fun st : StoreState σ => close_exec (d := d) I hb hin st outcome
  have hstop : d.boundary.stopDepth = entry.frames.length := congrArg Boundary.stopDepth hb
  unfold Interp.finish
  simp only [hexec, hstop]
  split
  · rename_i hzero
    have hclosed : ∀ st' : StoreState σ, Above E ds₀ _ := fun st' => closed hE hentry st'
    simp only [if_neg (not_not.mpr hzero)] at hclosed
    exact hclosed _
  · exact host hentry

theorem turnStep {st : StoreState σ} {r : Regs} (hpc : d.pc = .loop r)
    (h : LayeredOn E ({ d with exec := .empty } :: ds) d.exec) :
    Above E ds₀ (I.turnStep ⟨st, .empty, d :: (ds ++ ds₀), true⟩ d (ds ++ ds₀) r).1 := by
  obtain ⟨-, entry, inner, hentry, hb, hin, hfits⟩ := h
  have hregs : RegsOf inner r := by
    simp only [hpc] at hfits
    exact hfits
  have hstop : d.boundary.runStop = entry.frames.length + 1 := congrArg Boundary.runStop hb
  obtain ⟨inner', hin', hnext⟩ := hin.turn I hregs st d.countdown
  unfold Interp.turnStep
  simp only [hstop]
  split
  · rename_i r' hr'
    rw [hr'] at hnext
    exact guest ⟨rfl, entry, inner', hentry, hb, hin', hnext⟩
  · rename_i r' hr'
    rw [hr'] at hnext
    exact guest ⟨rfl, entry, inner', hentry, hb, hin', hnext⟩
  · exact host (l := _ :: ds) ⟨rfl, entry, inner', hentry, hb, hin', trivial⟩
  · rename_i o ho
    rw [ho] at hnext
    exact guest ⟨rfl, entry, inner', hentry, hb, hin', hnext⟩
  · exact guest ⟨rfl, entry, inner', hentry, hb, hin', trivial⟩

theorem askLimiter {st : StoreState σ} {o : RunOutcome} (ho : o.Resumes) (hpc : d.pc = .serve o)
    (h : LayeredOn E ({ d with exec := .empty } :: ds) d.exec) (g : Growth) (withScope : Bool) :
    Above E ds₀ (Interp.askLimiter ⟨st, .empty, d :: (ds ++ ds₀), true⟩ d (ds ++ ds₀) g
      withScope) := by
  obtain ⟨-, entry, inner, hentry, hb, hin, hfits⟩ := h
  have hne : inner ≠ [] := by
    simp only [hpc] at hfits
    exact hfits ho
  unfold Interp.askLimiter
  split
  · exact host (l := _ :: ds) ⟨rfl, entry, inner, hentry, hb, hin, hne⟩
  · exact host (l := _ :: ds) ⟨rfl, entry, inner, hentry, hb, hin, hne⟩

theorem serve {st : StoreState σ} {o : RunOutcome} (hpc : d.pc = .serve o) (inline : Bool)
    (h : LayeredOn E ({ d with exec := .empty } :: ds) d.exec) :
    Above E ds₀ (I.serve inline ⟨st, .empty, d :: (ds ++ ds₀), true⟩ d (ds ++ ds₀) o) := by
  have hask : ∀ (g : Growth) (w : Bool), o.Resumes → Above E ds₀ (Interp.askLimiter
      ⟨st, .empty, d :: (ds ++ ds₀), true⟩ d (ds ++ ds₀) g w) :=
    fun g w ho => askLimiter ho hpc h g w
  obtain ⟨-, entry, inner, hentry, hb, hin, hfits⟩ := h
  have hne : o.Resumes → inner ≠ [] := by
    simp only [hpc] at hfits
    exact hfits
  cases o with
  | finished => exact guest ⟨rfl, entry, inner, hentry, hb, hin, trivial⟩
  | hostAsync func inst =>
    unfold Interp.serve
    simp only
    split
    · split
      · exact guest ⟨rfl, entry, inner, hentry, hb, hin, trivial⟩
      · rename_i hok
        exact host (l := _ :: ds) ⟨rfl, entry, inner, hentry, hb,
          hin.prepareHostCall I hok, trivial⟩
    · exact guest ⟨rfl, entry, inner, hentry, hb, hin, trivial⟩
  | fuelYield =>
    unfold Interp.serve
    simp only
    split
    · exact guest ⟨rfl, entry, inner, hentry, hb, hin, hin.resume (hne trivial) inline⟩
    · exact guest ⟨rfl, entry, inner, hentry, hb, hin, trivial⟩
  | epochDeadline => exact host (l := _ :: ds) ⟨rfl, entry, inner, hentry, hb, hin, hne trivial⟩
  | grow memory delta => exact hask _ _ trivial
  | tableGrow table delta init => exact hask _ _ trivial
  | gcGrow target bytes => exact hask _ _ trivial

/-- A turn of the innermost driver leaves the layers below its own in place. -/
theorem guestStep (hE : E.Parkable) {st : StoreState σ} (inline : Bool)
    (h : LayeredOn E ({ d with exec := .empty } :: ds) d.exec) :
    Above E ds₀ (I.guestStep inline ⟨st, .empty, d :: (ds ++ ds₀), true⟩ d (ds ++ ds₀)).1 := by
  have hall := h
  obtain ⟨-, entry, inner, hentry, hb, hin, hfits⟩ := h
  unfold Interp.guestStep
  split
  · exact guest ⟨rfl, entry, inner, hentry, hb, hin, hin.runHead I d rfl⟩
  · rename_i hpc
    exact turnStep I hpc hall
  · rename_i r hpc
    have hregs : RegsOf inner r := by
      simp only [hpc] at hfits
      exact hfits
    split
    · exact guest ⟨rfl, entry, inner, hentry, hb, hin, trivial⟩
    · exact guest ⟨rfl, entry, inner, hentry, hb, hin, hregs⟩
  · rename_i hpc
    exact serve I hpc inline hall
  · exact finish I hE hall _
  · exact guest hall

variable {e : Execution}

theorem enter (hE : E.Parkable) {st : StoreState σ} {l : List Drive} (h : LayeredOn E l e)
    (inst funcIndex : ℕ) (code : CompiledFunc) (args : List Val) (resultTys : List ValType)
    (isAsync : Bool) :
    Above E ds₀ (Interp.enter ⟨st, e, l ++ ds₀, false⟩ inst funcIndex code args resultTys
      isAsync) := by
  unfold Interp.enter
  split
  · split <;> exact host h
  · have hkind : (if e.frames.length = 0 then .topLevel else .hostReentry) = entryKind e := rfl
    simp only [hkind]
    rcases enterCall_cases e inst funcIndex code args with ⟨e', f, hok, hin⟩ | ⟨err, herr⟩
    · rw [hok]
      simp only
      exact guest ⟨rfl, e, [f], h, rfl, hin, trivial⟩
    · rw [herr]
      have hparked := h.parked hE
      rw [ite_not] at hparked
      simp only [hparked]
      exact host h

/-- A panic closes the call the embedder's code was called from. -/
theorem panicked (hE : E.Parkable) {st : StoreState σ} (h : LayeredOn E (d :: ds) e) :
    Above E ds₀ (Interp.panicked ⟨st, e, d :: (ds ++ ds₀), false⟩ d (ds ++ ds₀)) := by
  have hall := h
  obtain ⟨-, entry, inner, hentry, hb, hin, -⟩ := h
  have hrestore : ∀ scope, Above E ds₀
      (Interp.restoreAfterPanic ⟨st, e, d :: (ds ++ ds₀), false⟩ (ds ++ ds₀) scope) := by
    intro scope
    unfold Interp.restoreAfterPanic
    simp only [hin.discardCurrentCall_eq]
    exact closed hE hentry _
  have hrecover : ∀ scope, Above E ds₀
      (Interp.recoverCancelled ⟨st, e, d :: (ds ++ ds₀), false⟩ d (ds ++ ds₀) scope) := by
    intro scope
    unfold Interp.recoverCancelled
    simp only [hb, boundaryOf, hin.discardTo_eq]
    exact closed hE hentry _
  unfold Interp.panicked
  split
  · exact hrestore _
  · exact hrestore _
  · exact hrestore _
  · exact hrestore _
  · exact hrecover _
  · exact host (l := d :: ds) hall

theorem returned {st : StoreState σ} (h : LayeredOn E (d :: ds) e)
    (r : Except ExecError (List Val)) :
    Above E ds₀ (I.returned ⟨st, e, d :: (ds ++ ds₀), false⟩ d (ds ++ ds₀) r) := by
  have hall := h
  obtain ⟨hempty, entry, inner, hentry, hb, hin, -⟩ := h
  have hstop : d.boundary.runStop = entry.frames.length + 1 := congrArg Boundary.runStop hb
  -- The execution is reclaimed: the slot gets the placeholder back.
  have hguest : ∀ {st' : StoreState σ} {e' : Execution} {inner' : List Frame} {pc : Pc},
      Inside entry inner' e' → pc.Fits inner' →
      Above E ds₀ (State.toGuest st' d (ds ++ ds₀) e' pc) := by
    intro st' e' inner' pc hin' hfits'
    unfold State.toGuest
    rw [hempty]
    exact guest ⟨rfl, entry, inner', hentry, hb, hin', hfits'⟩
  unfold Interp.returned
  simp only [hstop]
  split
  · rename_i call _
    obtain ⟨inner', hin'⟩ := hin.afterCallback I st call r
    split
    · rename_i hafter
      rw [hafter] at hin'
      exact hguest hin' trivial
    · rename_i hafter
      rw [hafter] at hin'
      split
      · exact hguest hin' fun hno => hno.elim
      · split
        · exact hguest hin' trivial
        · rename_i r' hr'
          exact hguest hin' (hin'.top_ok hr')
  · rename_i call _
    obtain ⟨inner', hin'⟩ := hin.afterCallback I st call r
    split
    · rename_i hafter
      rw [hafter] at hin'
      exact hguest hin' trivial
    · rename_i hafter
      rw [hafter] at hin'
      split
      · exact hguest hin' trivial
      · exact hguest hin' trivial
  · exact host (l := d :: ds) hall

theorem grown {st : StoreState σ} (inline : Bool) (h : LayeredOn E (d :: ds) e) (rest : σ)
    (r : Except ExecError (Option ℕ)) :
    Above E ds₀ (Interp.grown inline ⟨st, e, d :: (ds ++ ds₀), false⟩ d (ds ++ ds₀) rest r) := by
  have hall := h
  obtain ⟨hempty, entry, inner, hentry, hb, hin, hfits⟩ := h
  unfold Interp.grown
  split
  · rename_i g scope hpc
    have hne : inner ≠ [] := by
      rw [hpc] at hfits
      exact hfits
    simp only
    split
    · unfold State.toGuest
      rw [hempty]
      exact guest ⟨rfl, entry, inner, hentry, hb, hin, trivial⟩
    · rename_i old
      have hpushed : Inside entry inner (Interp.pushGrown e g old) := by
        unfold Interp.pushGrown
        cases g with
        | memory is64 => exact hin.push _
        | table is64 => exact hin.push _
        | gc => exact hin
      unfold State.toGuest
      rw [hempty]
      exact guest ⟨rfl, entry, inner, hentry, hb, hpushed, hpushed.resume hne inline⟩
  · exact host (l := d :: ds) hall

theorem applyEpochDeadline {st : StoreState σ} (inline : Bool) (h : LayeredOn E (d :: ds) e)
    (r : Except ExecError UpdateDeadline) :
    Above E ds₀ (Interp.applyEpochDeadline inline ⟨st, e, d :: (ds ++ ds₀), false⟩ d (ds ++ ds₀)
      r) := by
  have hall := h
  obtain ⟨hempty, entry, inner, hentry, hb, hin, hfits⟩ := h
  unfold Interp.applyEpochDeadline
  split
  · rename_i scope hpc
    have hne : inner ≠ [] := by
      rw [hpc] at hfits
      exact hfits
    have hdone : ∀ (st' : StoreState σ) (err : ExecError),
        Above E ds₀ (State.toGuest st' d (ds ++ ds₀) e (.done (.error err))) := by
      intro st' err
      unfold State.toGuest
      rw [hempty]
      exact guest ⟨rfl, entry, inner, hentry, hb, hin, trivial⟩
    have hresume : ∀ st' : StoreState σ,
        Above E ds₀ (State.toGuest st' d (ds ++ ds₀) e (Interp.resume inline e)) := by
      intro st'
      unfold State.toGuest
      rw [hempty]
      exact guest ⟨rfl, entry, inner, hentry, hb, hin, hin.resume hne inline⟩
    simp only
    split
    · exact hdone _ _
    · split
      · exact hdone _ _
      · exact hdone _ _
      · exact hresume _
      · split
        · exact hresume _
        · exact hdone _ _
  · exact host (l := d :: ds) hall

end Above

/-- Control stays above the lowest `n` drivers: it is in the embedder's code that the innermost of
them waits for, or in a call made from there. -/
def State.StaysAbove (n : ℕ) (s : State σ) : Prop :=
  n ≤ s.drives.length ∧ (s.drives.length = n → s.guest = false)

instance (n : ℕ) (s : State σ) : Decidable (s.StaysAbove n) :=
  inferInstanceAs (Decidable (_ ∧ _))

/-- An answer to a driver hands it control, or changes nothing. -/
theorem hostStep_answer (inline : Bool) (c : Choice σ) (st : StoreState σ) (e : Execution)
    (d : Drive) (ds : List Drive) :
    (I.hostStep inline c ⟨st, e, d :: ds, false⟩).StaysAbove (d :: ds).length →
    (∃ st', I.hostStep inline c ⟨st, e, d :: ds, false⟩ = ⟨st', e, d :: ds, false⟩) ∨
      ∃ inst funcIndex code args resultTys isAsync,
        c = .call inst funcIndex code args resultTys isAsync := by
  intro hstay
  have hguest : ∀ {st' e' pc},
      ¬ (State.toGuest (σ := σ) st' d ds e' pc).StaysAbove (d :: ds).length :=
    fun h => Bool.noConfusion (h.2 rfl)
  have hpopped : ∀ {st' : StoreState σ} {e' : Execution},
      ¬ (⟨st', e', ds, false⟩ : State σ).StaysAbove (d :: ds).length := by
    intro st' e' h
    have := h.1
    simp only [List.length_cons] at this
    omega
  cases c with
  | go | tick | post | setFuel _ | setFuelYieldInterval _ | hostOp _ => exact Or.inl ⟨_, rfl⟩
  | call inst funcIndex code args resultTys isAsync => exact Or.inr ⟨_, _, _, _, _, _, rfl⟩
  | ret r =>
    left
    unfold Interp.hostStep Interp.returned at hstay ⊢
    simp only at hstay ⊢
    split at hstay
    · split at hstay
      · exact absurd hstay hguest
      · split at hstay
        · exact absurd hstay hguest
        · split at hstay <;> exact absurd hstay hguest
    · split at hstay
      · exact absurd hstay hguest
      · split at hstay <;> exact absurd hstay hguest
    · exact ⟨st, rfl⟩
  | grown rest r =>
    left
    unfold Interp.hostStep Interp.grown at hstay ⊢
    simp only at hstay ⊢
    split at hstay
    · split at hstay <;> exact absurd hstay hguest
    · exact ⟨st, rfl⟩
  | deadline r =>
    left
    unfold Interp.hostStep Interp.applyEpochDeadline at hstay ⊢
    simp only at hstay ⊢
    split at hstay
    · split at hstay
      · exact absurd hstay hguest
      · split at hstay
        · exact absurd hstay hguest
        · exact absurd hstay hguest
        · exact absurd hstay hguest
        · split at hstay <;> exact absurd hstay hguest
    · exact ⟨st, rfl⟩
  | panic =>
    left
    unfold Interp.hostStep Interp.panicked at hstay ⊢
    simp only at hstay ⊢
    split at hstay
    · exact absurd hstay hpopped
    · exact absurd hstay hpopped
    · exact absurd hstay hpopped
    · exact absurd hstay hpopped
    · exact absurd hstay hpopped
    · exact ⟨st, rfl⟩

namespace Above

/-- An act of the embedder's code from above `E`. -/
theorem hostStep {e : Execution} (hE : E.Parkable) (inline : Bool) (c : Choice σ)
    {st : StoreState σ} (h : LayeredOn E ds e)
    (hstay : ds₀ = [] ∨
      (I.hostStep inline c ⟨st, e, ds ++ ds₀, false⟩).StaysAbove ds₀.length) :
    Above E ds₀ (I.hostStep inline c ⟨st, e, ds ++ ds₀, false⟩) := by
  cases ds with
  | nil =>
    cases c with
    | call inst funcIndex code args resultTys isAsync => exact enter (l := []) hE h _ _ _ _ _ _
    | setFuel _ | setFuelYieldInterval _ | hostOp _ => exact host (l := []) h
    | go | tick | post | ret _ | grown _ _ | deadline _ | panic =>
      -- The driver that waits is below `E`: answered, it would have control.
      cases ds₀ with
      | nil => exact host (l := []) h
      | cons d₀ ds₀ =>
        rcases hostStep_answer I inline _ st e d₀ ds₀ (hstay.resolve_left (List.cons_ne_nil _ _))
          with ⟨st', hsame⟩ | ⟨_, _, _, _, _, _, hcall⟩
        · rw [List.nil_append, hsame]
          exact host (l := []) h
        · nomatch hcall
  | cons d ds =>
    cases c with
    | call inst funcIndex code args resultTys isAsync => exact enter (l := d :: ds) hE h _ _ _ _ _ _
    | go | tick | post | setFuel _ | setFuelYieldInterval _ | hostOp _ =>
      exact host (l := d :: ds) h
    | ret r => exact returned I h r
    | grown rest r => exact grown inline h rest r
    | deadline r => exact applyEpochDeadline inline h r
    | panic => exact panicked hE h

/-- A step leaves `E` and the drivers below it in place, unless it answers one of them. -/
theorem step (hE : E.Parkable) (inline : Bool) (c : Choice σ) {s : State σ} (h : Above E ds₀ s)
    (hstay : ds₀ = [] ∨ (I.stepWith inline c s).1.StaysAbove ds₀.length) :
    Above E ds₀ (I.stepWith inline c s).1 := by
  cases h with
  | @host st e ds h =>
    cases c with
    | go => exact host h
    | tick | post => exact host h
    | call _ _ _ _ _ _ | setFuel _ | setFuelYieldInterval _ | hostOp _ | ret _ | grown _ _
    | deadline _ | panic => exact hostStep I hE inline _ h hstay
  | @guest st d ds h =>
    cases c with
    | go => exact guestStep I hE inline h
    | tick | post => exact guest h
    | call _ _ _ _ _ _ | setFuel _ | setFuelYieldInterval _ | hostOp _ | ret _ | grown _ _
    | deadline _ | panic => exact guest h

/-- As long as no driver below `E` is answered, a run leaves them and `E` in place. -/
theorem run (hE : E.Parkable) (inline : Bool) {cs : List (Choice σ)} {s : State σ}
    (h : Above E ds₀ s)
    (hstay : Along (I.stepWith inline)
      (fun c s => (I.stepWith inline c s).1.StaysAbove ds₀.length) cs s) :
    Above E ds₀ (Runs.run (I.stepWith inline) cs s) :=
  invariant (fun c _ hs hc => step I hE inline c hs (Or.inr hc)) h hstay

/-- In every reachable state the drivers and the layers of the execution correspond. -/
theorem reachable (inline : Bool) (cs : List (Choice σ)) (st : StoreState σ) :
    Above .empty [] (Runs.run (I.stepWith inline) cs (State.idle st)) :=
  invariant (P := fun _ _ => True) (fun c _ hs _ => step I (fun _ => rfl) inline c hs (Or.inl rfl))
    (host (l := []) rfl) (along_of_forall (fun _ _ => trivial) cs _)

/-- What lies above `E` has `E` at its bottom. -/
theorem below {s : State σ} (h : Above E ds₀ s) :
    E.values <+: s.current.values ∧ E.shadow <+: s.current.shadow ∧
      E.frames <:+ s.current.frames := by
  cases h with
  | host h => exact h.below
  | guest h => exact h.below

theorem depth {s : State σ} (hE : E.hostReentryDepth = reentries E.frames) (h : Above E ds₀ s) :
    s.current.hostReentryDepth = reentries s.current.frames := by
  cases h with
  | host h => exact h.depth hE
  | guest h => exact h.depth hE

/-- Once every driver above `E` is gone, `E` is what is parked. -/
theorem slot_eq {s : State σ} (h : Above E ds₀ s) (hlen : s.drives.length = ds₀.length) :
    s.slot = E := by
  cases h with
  | @host st e ds h =>
    have hnil : ds = [] := by
      rw [List.length_append] at hlen
      exact List.length_eq_zero_iff.mp (by omega)
    rw [hnil] at h
    exact h
  | guest h =>
    simp only [List.length_cons, List.length_append] at hlen
    omega

end Above

/-- A state reached from an idle store in which the embedder's code has control lies directly
above what it parked. -/
theorem Above.parked (cs : List (Choice σ)) (st : StoreState σ)
    (hhost : (Runs.run I.machine cs (State.idle st)).guest = false) :
    let s := Runs.run I.machine cs (State.idle st)
    s.slot.Parkable ∧ Above s.slot s.drives s := by
  intro s
  have hreach : Above .empty [] s := Above.reachable I false cs st
  have hs : s.guest = false := hhost
  clear_value s
  cases hreach with
  | @host st e ds h =>
    have hE : e.Parkable := h.parkable fun _ => rfl
    rw [List.append_nil]
    exact ⟨hE, host (l := []) rfl⟩
  | guest h => exact Bool.noConfusion hs

namespace Interp

/-- A call either has control or could not be entered. -/
theorem drives_of_refused (s : State σ) (inst funcIndex : ℕ)
    (code : CompiledFunc) (args : List Val) (resultTys : List ValType) (isAsync : Bool)
    (hrefused : (enter s inst funcIndex code args resultTys isAsync).guest = false) :
    (enter s inst funcIndex code args resultTys isAsync).drives = s.drives := by
  unfold enter at hrefused ⊢
  split at hrefused
  · rename_i herr
    rw [if_pos herr]
    split <;> rfl
  · rename_i herr
    rw [if_neg herr]
    dsimp only at hrefused ⊢
    split at hrefused
    · rfl
    · exact Bool.noConfusion hrefused

/-- In every reachable state the re-entry counter counts the delimiters of the re-entries.  While
the embedder's code is running calls of its own, and does not answer the activation it was called
from, the stacks of that activation lie at the bottom of the shared ones; when the last of those
calls is gone, however it ended, they are exactly what was parked.  A call that could not be
entered has changed nothing. -/
theorem reentry_isolated (cs₀ : List (Choice σ)) (st : StoreState σ) :
    let s := Runs.run I.machine cs₀ (State.idle st)
    s.current.hostReentryDepth = reentries s.current.frames ∧
    (s.guest = false →
      (∀ cs, Along I.machine (fun c t => (I.machine c t).1.StaysAbove s.drives.length) cs s →
        let s' := Runs.run I.machine cs s
        s.slot.values <+: s'.current.values ∧ s.slot.shadow <+: s'.current.shadow ∧
          s.slot.frames <:+ s'.current.frames ∧
          (s'.drives.length = s.drives.length → s'.slot = s.slot)) ∧
      ∀ inst funcIndex code args resultTys isAsync,
        let s' := (I.machine (.call inst funcIndex code args resultTys isAsync) s).1
        s'.guest = false → s'.slot = s.slot ∧ s'.drives = s.drives) := by
  intro s
  refine ⟨(Above.reachable I false cs₀ st).depth rfl, fun hhost => ⟨fun cs hstay => ?_, ?_⟩⟩
  · obtain ⟨hE, hself⟩ := Above.parked I cs₀ st hhost
    have hend := hself.run I hE false hstay
    obtain ⟨hv, hs, hf⟩ := hend.below
    exact ⟨hv, hs, hf, hend.slot_eq⟩
  · intro inst funcIndex code args resultTys isAsync s' hs'
    obtain ⟨hE, hself⟩ := Above.parked I cs₀ st hhost
    have hstep : s' = enter s inst funcIndex code args resultTys isAsync := by
      simp only [s', machine, stepWith, hhost]
      rfl
    have hdrives : s'.drives = s.drives := by
      rw [hstep] at hs' ⊢
      exact drives_of_refused s _ _ _ _ _ _ hs'
    have hstay : s'.StaysAbove s.drives.length := ⟨(congrArg List.length hdrives).ge, fun _ => hs'⟩
    have hend := Above.step I hE false (.call inst funcIndex code args resultTys isAsync) hself
      (Or.inr hstay)
    exact ⟨hend.slot_eq (congrArg List.length hdrives), hdrives⟩

/-- A function calls the host, which calls a function that calls the host again, where it panics:
the first call's stacks are parked as they were. -/
theorem reentry_isolated_panic :
    let s := Runs.run (idle (2 ^ 20) false false).machine
      [.call 0 0 (.ofOps [.call (.func 0)]) [] [] false, .go, .go] (.idle (StoreState.new ()))
    let s' := Runs.run (idle (2 ^ 20) false false).machine
      [.call 0 1 (.ofOps [.call (.func 0)]) [] [] false, .go, .go, .panic] s
    s'.drives.length = 1 ∧ s'.slot = s.slot := by
  intro s s'
  have hisolated := (reentry_isolated (idle (2 ^ 20) false false)
    [.call 0 0 (.ofOps [.call (.func 0)]) [] [] false, .go, .go] (StoreState.new ())).2
    (by decide)
  have hstack := hisolated.1 [.call 0 1 (.ofOps [.call (.func 0)]) [] [] false, .go, .go, .panic]
    ⟨by decide, by decide, by decide, by decide, trivial⟩
  exact ⟨by decide, hstack.2.2.2 (by decide)⟩

end Interp

end SubmilliWasm
