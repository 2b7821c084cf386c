/-
# The op each frame executes

The machine is run beside a note of the op that each frame of the shared stack executes: the one
in the loop's register while the frame runs, and the last one while it is suspended.  A frame that
is suspended in a call has the return address behind that op saved, one that a gate has stopped the
op itself.  Every backtrace of a run shows the ops noted, but for those in which a frame is taken
for the one and is the other.
-/
import SubmilliWasm.Exec.Trace

namespace SubmilliWasm

open Runs

variable {σ : Type}

/-! ## Frames and their sites -/

/-- The sites of the lowest `n` frames. -/
def sitesTo (sites : List ℕ) (n : ℕ) : List ℕ := sites.drop (sites.length - n)

/-- The sites for a stack of `n` frames: those of frames that are gone are dropped, and a new frame
is in front of its first op. -/
def realign (n : ℕ) (sites : List ℕ) : List ℕ :=
  List.replicate (n - sites.length) 0 ++ sitesTo sites n

/-- The frames below the top are some of those that were there, and none is added. -/
def Cut (frames frames' : List Frame) : Prop :=
  frames'.tail <:+ frames.tail ∧ frames'.length ≤ frames.length

variable {e e' : Execution} {frames : List Frame} {sites : List ℕ} {m n : ℕ}

theorem realign_self (h : n = sites.length) : realign n sites = sites := by
  subst h
  simp [realign, sitesTo]

theorem realign_length (n : ℕ) (sites : List ℕ) : (realign n sites).length = n := by
  unfold realign sitesTo
  rw [List.length_append, List.length_replicate, List.length_drop]
  omega

theorem realign_of_le (h : n ≤ sites.length) : realign n sites = sitesTo sites n := by
  unfold realign
  rw [Nat.sub_eq_zero_of_le h]
  rfl

/-- A frame more. -/
theorem realign_succ (sites : List ℕ) : realign (sites.length + 1) sites = 0 :: sites := by
  unfold realign sitesTo
  rw [Nat.add_sub_cancel_left, Nat.sub_eq_zero_of_le (Nat.le_succ _)]
  rfl

/-- A call's delimiter and its entry frame. -/
theorem realign_entered (sites : List ℕ) :
    realign (sites.length + 2) sites = 0 :: 0 :: sites := by
  unfold realign sitesTo
  rw [Nat.add_sub_cancel_left, Nat.sub_eq_zero_of_le (Nat.le_add_right _ _)]
  rfl

theorem sitesTo_self (sites : List ℕ) : sitesTo sites sites.length = sites := by
  unfold sitesTo
  rw [Nat.sub_self]
  rfl

theorem sitesTo_cons {site : ℕ} (h : n ≤ sites.length) :
    sitesTo (site :: sites) n = sitesTo sites n := by
  unfold sitesTo
  rw [List.length_cons, Nat.sub_add_comm h]
  rfl

theorem sitesTo_sitesTo (h : n ≤ m) : sitesTo (sitesTo sites m) n = sitesTo sites n := by
  unfold sitesTo
  rw [List.drop_drop, List.length_drop]
  congr 1
  omega

/-- The sites below are kept. -/
theorem sitesTo_realign (hm : n ≤ m) (hn : n ≤ sites.length) :
    sitesTo (realign m sites) n = sitesTo sites n := by
  rcases Nat.le_total m sites.length with hle | hle
  · rw [realign_of_le hle, sitesTo_sitesTo hm]
  · obtain ⟨k, rfl⟩ := Nat.exists_eq_add_of_le hle
    have hall : sitesTo sites (sites.length + k) = sites := by
      unfold sitesTo
      rw [Nat.sub_eq_zero_of_le hle]
      rfl
    unfold realign
    rw [hall, Nat.add_sub_cancel_left]
    clear hm hle hall
    induction k with
    | zero => rfl
    | succ k ih =>
      rw [List.replicate_succ, List.cons_append, sitesTo_cons, ih]
      rw [List.length_append]
      omega

theorem Cut.refl (frames : List Frame) : Cut frames frames := ⟨List.suffix_refl _, le_refl _⟩

theorem Cut.trans {a b c : List Frame} (h : Cut a b) (h' : Cut b c) : Cut a c :=
  ⟨h'.1.trans h.1, h'.2.trans h.2⟩

theorem Cut.tail (frames : List Frame) : Cut frames frames.tail := by
  refine ⟨List.tail_suffix _, ?_⟩
  rw [List.length_tail]
  omega

/-- Another top frame. -/
theorem Cut.cons {f g : Frame} {fs : List Frame} : Cut (f :: fs) (g :: fs) :=
  ⟨List.suffix_refl _, le_refl _⟩

/-- Frames that were suspended in calls still are. -/
theorem Cut.atCalls {frames' : List Frame} (h : Cut frames frames')
    (hlen : frames.length = sites.length) (hcalls : AtCalls frames.tail sites.tail) :
    AtCalls frames'.tail (realign frames'.length sites).tail := by
  obtain ⟨hsuffix, hle⟩ := h
  rw [realign_of_le (hlen ▸ hle)]
  cases frames' with
  | nil =>
    have hnone : sitesTo sites 0 = [] := by
      unfold sitesTo
      exact List.drop_length
    rw [List.length_nil, hnone]
    exact .nil
  | cons g gs =>
    have hgs : gs = frames.tail.drop (frames.tail.length - gs.length) :=
      List.suffix_iff_eq_drop.mp hsuffix
    have hsites : (sitesTo sites (gs.length + 1)).tail =
        sites.tail.drop (frames.tail.length - gs.length) := by
      unfold sitesTo
      rw [List.tail_drop, List.drop_tail, List.length_tail]
      congr 1
      rw [List.length_cons] at hle
      omega
    have hdropped := List.forall₂_drop (frames.tail.length - gs.length) hcalls
    rw [← hgs] at hdropped
    rw [List.length_cons, hsites]
    exact hdropped

/-! ## What a turn does to the frames -/

/-- Where a turn goes that has started a host call. -/
def Next.Hosts : Next → Prop
  | .callback _ | .leave (.error _) | .leave (.ok (.hostAsync _ _)) => True
  | _ => False

/-- Where a turn goes that has laid a frame, or found a handler. -/
def Next.Runs : Next → Prop
  | .callback _ | .leave (.ok _) => False
  | _ => True

/-- Where a turn goes that has started no host call and was not stopped by the deadline. -/
def Next.Keeps : Next → Prop
  | .callback _ | .leave (.ok (.hostAsync _ _)) | .leave (.ok .epochDeadline) => False
  | _ => True

theorem Next.Runs.keeps {n : Next} (h : n.Runs) : n.Keeps := by
  cases n with
  | loop _ | poll _ => exact trivial
  | callback _ => exact h.elim
  | leave out =>
    cases out with
    | error _ => exact trivial
    | ok _ => exact h.elim

theorem Interp.reload_runs (e : Execution) : (Interp.reload e).Runs := by
  unfold Interp.reload
  split <;> exact trivial

/-- The frames after a turn of the frame `f` at `ip` on `fs`, by where the turn goes: some of the
frames and one of them on top, or a callee on a frame suspended in its call. -/
inductive Turns (f : Frame) (fs : List Frame) (ip : ℕ) : List Frame → Next → Prop where
  | cut {frames : List Frame} {n : Next} (h : Cut (f :: fs) frames) (hn : n.Keeps) :
      Turns f fs ip frames n
  | called {g : Frame} {n : Next} (hn : n.Runs) :
      Turns f fs ip (g :: { f with ip := ip + 1 } :: fs) n
  | host {n : Next} (hn : n.Hosts) : Turns f fs ip ({ f with ip := ip + 1 } :: fs) n
  | tailHost {n : Next} (hn : n.Hosts) : Turns f fs ip fs n
  | stopped : Turns f fs ip ({ f with ip := ip } :: fs) (.leave (.ok .epochDeadline))

/-- An outcome of a handler is one of its ends. -/
theorem Handler.Ends.run {P : StepOutcome → Prop} {H : Handler σ} (h : H.Ends P) (base : ℕ)
    {s s' : σ} {out : StepOutcome} (hrun : H.run base e s = (e', s', .ok out)) : P out := by
  induction H generalizing e s with
  | done r =>
    obtain rfl : r = .ok out := (Prod.mk.inj (Prod.mk.inj hrun).2).2
    exact h
  | get k ih => exact ih s (h s) hrun
  | set s' k ih => exact ih h hrun
  | look k ih => exact ih e.values e.shadow (h e.values e.shadow) hrun
  | push o k ih => exact ih h hrun
  | pop n accept k ih =>
    unfold Handler.run at hrun
    split at hrun
    · nomatch hrun
    · exact ih _ (h _) hrun
  | getLocal i k ih =>
    unfold Handler.run at hrun
    split at hrun
    · nomatch hrun
    · exact ih _ (h _) hrun
  | setLocal i o k ih =>
    unfold Handler.run at hrun
    split at hrun
    · nomatch hrun
    · exact ih h hrun
  | branch t k ih =>
    unfold Handler.run at hrun
    split at hrun
    · nomatch hrun
    · exact ih h hrun

/-- Saving a resume point. -/
theorem Execution.saveIp_frames {ip : ℕ} (h : e.saveIp ip = some e') :
    Cut e.frames e'.frames ∧
      ∀ f fs, e.frames = f :: fs → e'.frames = { f with ip := ip } :: fs := by
  obtain ⟨values, shadow, frames, depth⟩ := e
  cases frames with
  | nil => nomatch h
  | cons f fs =>
    obtain rfl := Option.some.inj h
    refine ⟨Cut.cons, fun g gs hg => ?_⟩
    obtain ⟨rfl, rfl⟩ := List.cons.inj hg
    rfl

theorem Execution.doReturn_frames {stopDepth : ℕ} {tail b : Bool}
    (h : e.doReturn n stopDepth tail = .ok (e', b)) : e'.frames = e.frames.tail := by
  obtain ⟨values, shadow, frames, depth⟩ := e
  cases frames with
  | nil => nomatch h
  | cons f fs =>
    unfold Execution.doReturn at h
    dsimp only at h
    split at h
    · nomatch h
    · split at h
      · nomatch h
      · split at h
        · nomatch h
        · split at h
          · nomatch h
          · rw [← (Prod.mk.inj (Except.ok.inj h)).1]
            rfl

theorem Execution.pushCall_frames {inst funcIndex : ℕ} {code : CompiledFunc}
    (h : e.pushCall inst funcIndex code = .ok e') : ∃ g, e'.frames = g :: e.frames := by
  unfold Execution.pushCall at h
  dsimp only at h
  split at h
  · nomatch h
  · split at h
    · nomatch h
    · split at h
      · nomatch h
      · split at h
        · nomatch h
        · split at h
          · nomatch h
          · rw [← Except.ok.inj h]
            exact ⟨_, rfl⟩

namespace Interp

variable (I : Interp σ)

theorem enterExceptionHandler_cut (s : σ) (e : Execution) (exn : ℕ) (r : HandlerRec)
    (floor : ℕ) : Cut e.frames (I.enterExceptionHandler s e exn r floor).1.frames := by
  unfold enterExceptionHandler
  dsimp only
  split
  · exact .refl _
  · split
    · exact .refl _
    · split
      · exact .refl _
      · rename_i args _
        -- the pushed operands leave the frames as they are
        obtain ⟨e3, he3, h3⟩ : ∃ e3 : Execution, e3 = (if r.payloadRef then
              ((e.truncate (floor + r.restoreHeight)).pushAll (args.map Operand.ofVal)).push
                (Operand.ofVal (.exnRef (some exn)))
            else (e.truncate (floor + r.restoreHeight)).pushAll (args.map Operand.ofVal)) ∧
            e3.frames = e.frames := ⟨_, rfl, by split <;> rfl⟩
        rw [← he3]
        split
        · rw [h3]
          exact .refl _
        · rename_i e4 h4
          rw [← h3]
          exact (Execution.saveIp_frames h4).1

theorem unwindFrom_cut (s : σ) (exn thrown stopDepth fuel : ℕ) (e : Execution) (faultIp : ℕ) :
    Cut e.frames (I.unwindFrom s exn thrown stopDepth fuel e faultIp).1.frames := by
  induction fuel generalizing e faultIp with
  | zero => exact .refl _
  | succ fuel ih =>
    obtain ⟨values, shadow, frames, depth⟩ := e
    cases frames with
    | nil => exact .refl _
    | cons f fs =>
      have hpop : Cut (f :: fs) fs := .tail (f :: fs)
      unfold unwindFrom
      dsimp only
      split
      · exact .refl _
      · split
        · exact .refl _
        · exact I.enterExceptionHandler_cut s ⟨values, shadow, f :: fs, depth⟩ exn _ _
        · split
          · exact .refl _
          · split
            · exact hpop
            · split
              · exact hpop
              · split
                · exact hpop
                · exact hpop.trans (ih _ _)

theorem unwind_cut (s : σ) (e : Execution) (err : ExecError) (faultIp stopDepth : ℕ) :
    Cut e.frames (I.unwind s e err faultIp stopDepth).1.frames := by
  unfold unwind
  split
  · split
    · exact .refl _
    · exact I.unwindFrom_cut s _ _ stopDepth _ e faultIp
  · exact .refl _

/-- A frame is laid on those there. -/
theorem enterCallee_frames (e : Execution) (req : CallReq) (countdown : ℕ) :
    ((I.enterCallee e req countdown).1.frames = e.frames ∧
      ∃ err, (I.enterCallee e req countdown).2.2 = .leave (.error err)) ∨
    ((∃ g, (I.enterCallee e req countdown).1.frames = g :: e.frames) ∧
      (I.enterCallee e req countdown).2.2.Runs) := by
  unfold enterCallee
  split
  · exact Or.inl ⟨rfl, _, rfl⟩
  · rename_i e' hok
    obtain ⟨g, hg⟩ := Execution.pushCall_frames hok
    right
    split
    · exact ⟨⟨g, hg⟩, trivial⟩
    · split
      · split
        · exact ⟨⟨g, hg⟩, trivial⟩
        · exact ⟨⟨g, hg⟩, trivial⟩
      · exact ⟨⟨g, hg⟩, trivial⟩

theorem startHostCall_frames (st : StoreState σ) (e : Execution) (func : ℕ) :
    (I.startHostCall st e func).2.1.frames = e.frames ∧
      (I.startHostCall st e func).2.2.Hosts := by
  unfold startHostCall
  split
  · exact ⟨rfl, trivial⟩
  · rename_i hprepared
    exact ⟨I.prepareHostCall_frames hprepared, trivial⟩

variable {f : Frame} {fs : List Frame}

/-- What the loop makes of a decision that returns behind the op. -/
theorem carryOut_turns (st : StoreState σ) {e : Execution} (he : e.frames = f :: fs) (r : Regs)
    (stopDepth k : ℕ) {out : StepOutcome} (hout : out.ReturnsTo (r.ip + 1)) :
    Turns f fs r.ip (I.carryOut st e r stopDepth k out).2.1.frames
      (I.carryOut st e r stopDepth k out).2.2.2 := by
  have hsaved : ∀ {ip e'}, e.saveIp ip = some e' → e'.frames = { f with ip := ip } :: fs :=
    fun hsave => (Execution.saveIp_frames hsave).2 f fs he
  have hreturned : ∀ {n : ℕ} {e' : Execution} {b : Bool},
      e.doReturn n stopDepth true = .ok (e', b) → e'.frames = fs := by
    intro n e' b hret
    rw [Execution.doReturn_frames hret, he]
    rfl
  have hcases := I.carryOut_cases st e r stopDepth k out
  generalize I.carryOut st e r stopDepth k out = c at hcases ⊢
  cases hcases with
  | advance _ | fails _ _ =>
    dsimp only
    rw [he]
    exact .cut (.refl _) trivial
  | @calls req _ e' _ _ hsave =>
    have hip : req.returnIp = r.ip + 1 := hout
    rw [hip] at hsave
    rcases I.enterCallee_frames e' req k with ⟨hframes, err, hnext⟩ | ⟨⟨g, hframes⟩, hnext⟩
    · rw [hframes, hsaved hsave, hnext]
      exact .cut .cons trivial
    · rw [hframes, hsaved hsave]
      exact .called hnext
  | @tailCalls req e' _ hret =>
    rcases I.enterCallee_frames e' req k with ⟨hframes, err, hnext⟩ | ⟨⟨g, hframes⟩, hnext⟩
    · rw [hframes, hreturned hret, hnext]
      exact .cut (.tail (f :: fs)) trivial
    · rw [hframes, hreturned hret]
      exact .cut .cons hnext.keeps
  | @hosts func _ ip e' hsave =>
    have hip : ip = r.ip + 1 := hout
    obtain ⟨hframes, hhosts⟩ := I.startHostCall_frames st e' func
    rw [hframes, hsaved hsave, hip]
    exact .host hhosts
  | @tailHosts func _ _ e' _ hret =>
    obtain ⟨hframes, hhosts⟩ := I.startHostCall_frames st e' func
    rw [hframes, hreturned hret]
    exact .tailHost hhosts
  | suspends hsuspends hsave =>
    dsimp only
    rw [hsaved hsave]
    cases hsuspends with
    | hostAsync _ _ _ =>
      cases hout
      exact .host trivial
    | grow _ _ _ | tableGrow _ _ _ _ | gcGrow _ _ _ => exact .cut .cons trivial
  | tailSuspends hret =>
    dsimp only
    rw [hreturned hret]
    exact .tailHost trivial

end Interp

namespace Traced

variable (T : Traced σ)

/-- Every op that suspends its frame in a call returns behind itself. -/
theorem step_returns (code : CompiledFunc) (op : Op) (ip inst : ℕ) :
    (T.step code op (ip + 1) inst).Ends (StepOutcome.ReturnsTo (ip + 1)) := by
  have hjump : ∀ t : BranchTarget, (Handler.jump t : Handler σ).Ends
      (StepOutcome.ReturnsTo (ip + 1)) := fun _ => trivial
  have hcall : ∀ (c : CallTarget) (returnIp : Option ℕ),
      (returnIp = some (ip + 1) ∨ returnIp = none) →
      (T.call c inst returnIp).Ends (StepOutcome.ReturnsTo (ip + 1)) := by
    intro c returnIp hip
    have hresolve : ∀ (o : Operand) (s : σ), (Handler.done ((T.callee c inst o s).map
        (T.callOutcome s inst returnIp)) : Handler σ).Ends (StepOutcome.ReturnsTo (ip + 1)) := by
      intro o s
      cases T.callee c inst o s with
      | error err => exact trivial
      | ok callee =>
        rcases hip with rfl | rfl
        · cases callee with
          | wasm _ _ _ | host _ | hostAsync _ => exact rfl
        · cases callee with
          | wasm _ _ _ | host _ | hostAsync _ => exact trivial
    unfold Interp.call
    cases c with
    | func i => exact fun s => hresolve _ s
    | indirect _ _ => exact fun os s => hresolve _ s
    | ref _ => exact fun os s => hresolve _ s
  have hite : ∀ {c : Prop} [Decidable c] {t : BranchTarget} {H : Handler σ},
      H.Ends (StepOutcome.ReturnsTo (ip + 1)) →
      (if c then Handler.jump t else H).Ends (StepOutcome.ReturnsTo (ip + 1)) := by
    intro c _ t H hH
    split
    · exact hjump t
    · exact hH
  unfold Interp.step
  split
  · exact trivial
  · exact fun _ => trivial
  · intro os
    dsimp only
    split <;> exact trivial
  · exact fun _ => trivial
  · exact fun _ => trivial
  · exact fun _ => trivial
  · exact trivial
  · exact trivial
  · exact trivial
  · exact trivial
  · exact fun _ _ => trivial
  · exact fun _ _ _ => trivial
  · exact T.plain_returns _ inst (ip + 1)
  · exact trivial
  · exact hjump _
  · exact fun _ => hite trivial
  · exact fun _ => hite trivial
  · intro os
    dsimp only
    split
    · exact hite trivial
    · exact trivial
  · split
    · exact trivial
    · split
      · exact trivial
      · exact fun _ => hjump _
  · exact hcall _ _ (Or.inl rfl)
  · exact hcall _ _ (Or.inr rfl)
  · exact fun _ => hite trivial
  · intro os
    dsimp only
    split
    · exact trivial
    · exact hjump _
  · split
    · exact trivial
    · intro os s
      dsimp only
      split
      · exact trivial
      · exact hite trivial
  · exact T.throwTag_returns _ inst ip
  · exact fun _ => trivial

variable {f : Frame} {fs : List Frame}

theorem execute_turns (st : StoreState σ) {e : Execution} (he : e.frames = f :: fs) (r : Regs)
    (stopDepth k : ℕ) (op : Op) :
    Turns f fs r.ip (T.execute st e r stopDepth k op).exec.frames
      (T.execute st e r stopDepth k op).next := by
  have hframes := (T.step r.code op (r.ip + 1) r.inst).run_frames r.base e st.rest
  unfold Interp.execute
  split
  · rename_i e' s err hrun
    rw [hrun] at hframes
    have hcut := T.unwind_cut s e' err r.ip stopDepth
    rw [show e'.frames = f :: fs from hframes.trans he] at hcut
    dsimp only
    generalize T.unwind s e' err r.ip stopDepth = unwound at hcut ⊢
    obtain ⟨e'', _ | _⟩ := unwound
    · exact .cut hcut trivial
    · exact .cut hcut (Interp.reload_runs e'').keeps
  · rename_i e' s out hrun
    rw [hrun] at hframes
    exact T.carryOut_turns { st with rest := s } (hframes.trans he) r stopDepth k
      ((T.step_returns r.code op r.ip r.inst).run r.base hrun)

/-- The gates leave the frame as it is, or stopped. -/
theorem serviceGates_frames (st : StoreState σ) {e : Execution} (he : e.frames = f :: fs) (ip : ℕ) :
    (∃ st', (∃ err, T.serviceGates st e ip = (st', e, .error err)) ∨
      T.serviceGates st e ip = (st', e, .ok none)) ∨
    ∃ st' e' o, T.serviceGates st e ip = (st', e', .ok (some o)) ∧
      e'.frames = { f with ip := ip } :: fs ∧ (o = .fuelYield ∨ o = .epochDeadline) := by
  obtain ⟨e', he', hsaved⟩ : ∃ e', e.saveIp ip = some e' ∧
      e'.frames = { f with ip := ip } :: fs := by
    refine ⟨{ e with frames := { f with ip := ip } :: fs }, ?_, rfl⟩
    unfold Execution.saveIp
    rw [he]
  have hepoch : ∀ st' : StoreState σ, T.epochGate st' e ip = (e, .ok none) ∨
      T.epochGate st' e ip = (e', .ok (some .epochDeadline)) := by
    intro st'
    unfold Interp.epochGate
    rw [he']
    split
    · exact Or.inr rfl
    · exact Or.inl rfl
  have hpasses : ∀ st' : StoreState σ, T.serviceGates st e ip = (st', T.epochGate st' e ip) →
      (∃ st', (∃ err, T.serviceGates st e ip = (st', e, .error err)) ∨
        T.serviceGates st e ip = (st', e, .ok none)) ∨
      ∃ st' e' o, T.serviceGates st e ip = (st', e', .ok (some o)) ∧
        e'.frames = { f with ip := ip } :: fs ∧ (o = .fuelYield ∨ o = .epochDeadline) := by
    intro st' hgates
    rcases hepoch st' with h | h
    · rw [h] at hgates
      exact Or.inl ⟨st', Or.inr hgates⟩
    · rw [h] at hgates
      exact Or.inr ⟨st', e', _, hgates, hsaved, Or.inr rfl⟩
  by_cases hmetered : T.consumeFuel = true
  · rcases hstep : st.fuel.consumeFuelStep with ⟨answer, fuel⟩
    cases answer with
    | ran =>
      refine hpasses { st with fuel := fuel } ?_
      unfold Interp.serviceGates
      rw [if_pos hmetered, hstep]
    | exhausted =>
      refine Or.inl ⟨st, Or.inl ⟨.outOfFuel, ?_⟩⟩
      unfold Interp.serviceGates
      rw [if_pos hmetered, hstep]
    | needYield =>
      refine Or.inr ⟨st, e', .fuelYield, ?_, hsaved, Or.inl rfl⟩
      unfold Interp.serviceGates
      rw [if_pos hmetered, hstep]
      dsimp only
      rw [he']
  · refine hpasses st ?_
    unfold Interp.serviceGates
    rw [if_neg hmetered]

/-- **What a turn of the loop does to the frames.** -/
theorem turn_turns (st : StoreState σ) {e : Execution} (he : e.frames = f :: fs) (r : Regs)
    (stopDepth k : ℕ) :
    Turns f fs r.ip (T.turn st e r stopDepth k).exec.frames (T.turn st e r stopDepth k).next := by
  have hsame : ∀ {err : ExecError}, Turns f fs r.ip e.frames (.leave (.error err)) := by
    intro err
    rw [he]
    exact .cut (.refl _) trivial
  unfold Interp.turn
  split
  · split
    · exact hsame
    · rename_i e' hret
      rw [Execution.doReturn_frames hret, he]
      exact .cut (.tail (f :: fs)) trivial
    · rename_i e' hret
      rw [Execution.doReturn_frames hret, he]
      exact .cut (.tail (f :: fs)) (Interp.reload_runs e').keeps
  · rename_i op _
    rcases T.serviceGates_frames st he r.ip with ⟨st', ⟨err, hg⟩ | hg⟩ |
      ⟨st', e', o, hg, hframes, ho⟩
    · rw [hg]
      exact hsame
    · rw [hg]
      exact T.execute_turns st' he r stopDepth k op
    · rw [hg]
      dsimp only
      rw [hframes]
      rcases ho with rfl | rfl
      · exact .cut .cons trivial
      · exact .stopped

end Traced

/-! ## The note of the sites -/

/-- The registers of the frame that runs in the loop. -/
def State.registers (s : State σ) : Option Regs :=
  match s.guest, s.drives with
  | true, d :: _ =>
    match d.pc with
    | .loop r | .poll r => some r
    | _ => none
  | _, _ => none

/-- The sites once the stack has `n` frames: the topmost is the one in the loop's register. -/
def sitesFor (n : ℕ) (registers : Option Regs) (sites : List ℕ) : List ℕ :=
  match registers with
  | some r => r.ip :: (realign n sites).tail
  | none => realign n sites

namespace Traced

variable (T : Traced σ)

def sitesAfter (c : Choice σ) (s : State σ) (sites : List ℕ) : List ℕ :=
  let s' := (T.machine c s).1
  sitesFor s'.current.frames.length s'.registers sites

/-- The machine beside the sites of the frames. -/
def sited (c : Choice σ) (w : State σ × List ℕ) : (State σ × List ℕ) × Mark :=
  (((T.machine c w.1).1, T.sitesAfter c w.1 w.2), (T.machine c w.1).2)

end Traced

/-- The topmost frame has been stopped at its site, the others are suspended in calls. -/
def StoppedAt (frames : List Frame) (sites : List ℕ) : Prop :=
  ∃ f fs rest, frames = f :: fs ∧ sites = f.ip :: rest ∧ AtCalls fs rest

/-- The sites of a driver in control. -/
def Pc.Runs (frames : List Frame) (sites : List ℕ) : Pc → Prop
  | .loop r | .poll r => ∃ rest, sites = r.ip :: rest ∧ AtCalls frames.tail rest
  | .serve (.hostAsync _ _) => AtCalls frames sites
  | .serve .epochDeadline => StoppedAt frames sites
  | _ => AtCalls frames.tail sites.tail

/-- Where an answer leaves a driver: not at a suspension, which keeps the site of its op. -/
def Pc.Answered : Pc → Prop
  | .serve (.hostAsync _ _) | .serve .epochDeadline => False
  | _ => True

/-- The sites of a driver that waits for the embedder's code. -/
def Pc.Waits (frames : List Frame) (sites : List ℕ) : Pc → Prop
  | .hostFn _ | .hostFnAsync _ => AtCalls frames sites
  | .epochCallback _ => StoppedAt frames sites
  | .limiter _ _ => AtCalls frames.tail sites.tail
  | _ => False

/-- The sites of the frames below parked drivers. -/
def SitedOn : List Drive → List Frame → List ℕ → Prop
  | [], frames, sites => frames.length = sites.length
  | d :: ds, frames, sites => frames.length = sites.length ∧ d.pc.Waits frames sites ∧
      SitedOn ds (framesTo frames d.boundary.stopDepth) (sitesTo sites d.boundary.stopDepth)

/-- The sites noted are those of the frames. -/
def State.Sited (s : State σ) (sites : List ℕ) : Prop :=
  match s.guest, s.drives with
  | true, d :: ds => d.exec.frames.length = sites.length ∧ d.pc.Runs d.exec.frames sites ∧
      SitedOn ds (framesTo d.exec.frames d.boundary.stopDepth)
        (sitesTo sites d.boundary.stopDepth)
  | true, [] => True
  | false, ds => SitedOn ds s.slot.frames sites

theorem AtCalls.tail {frames : List Frame} {sites : List ℕ} (h : AtCalls frames sites) :
    AtCalls frames.tail sites.tail := by
  cases h with
  | nil => exact .nil
  | cons _ h => exact h

theorem AtCalls.length (h : AtCalls frames sites) :
    frames.length = sites.length := List.Forall₂.length_eq h

theorem StoppedAt.tail {frames : List Frame} {sites : List ℕ} (h : StoppedAt frames sites) :
    AtCalls frames.tail sites.tail := by
  obtain ⟨f, fs, rest, rfl, rfl, hcalls⟩ := h
  exact hcalls

/-- Stopped in front of its first op, a frame may be taken for one suspended in a call. -/
theorem StoppedAt.atCalls (h : StoppedAt frames sites)
    (hfirst : frames.head?.map Frame.ip = some 0) : AtCalls frames sites := by
  obtain ⟨f, fs, rest, rfl, rfl, hcalls⟩ := h
  have hip : f.ip = 0 := Option.some.inj hfirst
  exact .cons (fun _ => by rw [hip]) hcalls

section

variable {f : Frame} {fs frames : List Frame} {ip : ℕ} {rest : List ℕ} {n : Next}

/-- Below the topmost frame a turn leaves frames suspended in calls. -/
theorem Turns.below (h : Turns f fs ip frames n) (hcalls : AtCalls fs rest) :
    AtCalls frames.tail (realign frames.length (ip :: rest)).tail := by
  have hlen := hcalls.length
  have hcut : ∀ {frames : List Frame}, Cut (f :: fs) frames →
      AtCalls frames.tail (realign frames.length (ip :: rest)).tail :=
    fun hcut => hcut.atCalls (congrArg Nat.succ hlen) hcalls
  cases h with
  | cut h hn => exact hcut h
  | @called g _ hn =>
    have hsites : realign (fs.length + 1 + 1) (ip :: rest) = 0 :: ip :: rest := by
      rw [hlen]
      exact realign_succ (ip :: rest)
    rw [List.length_cons, List.length_cons, hsites]
    exact .cons (fun _ => Nat.add_sub_cancel ip 1) hcalls
  | host hn => exact hcut .cons
  | tailHost hn => exact hcut (.tail (f :: fs))
  | stopped => exact hcut .cons

/-- A host call is started by frames that are all suspended in calls. -/
theorem Turns.hosted (h : Turns f fs ip frames n) (hcalls : AtCalls fs rest)
    (hn : (∃ call, n = .callback call) ∨ ∃ func inst, n = .leave (.ok (.hostAsync func inst))) :
    AtCalls frames (realign frames.length (ip :: rest)) := by
  have hlen := hcalls.length
  cases h with
  | cut h hkeeps => rcases hn with ⟨_, rfl⟩ | ⟨_, _, rfl⟩ <;> exact hkeeps.elim
  | called hruns => rcases hn with ⟨_, rfl⟩ | ⟨_, _, rfl⟩ <;> exact hruns.elim
  | host _ =>
    rw [realign_self (congrArg Nat.succ hlen)]
    exact .cons (fun _ => Nat.add_sub_cancel ip 1) hcalls
  | tailHost _ =>
    have hsites : realign fs.length (ip :: rest) = rest := by
      rw [realign_of_le (by rw [hlen]; exact Nat.le_succ _), sitesTo_cons (le_of_eq hlen), hlen]
      exact sitesTo_self rest
    rw [hsites]
    exact hcalls
  | stopped => rcases hn with ⟨_, h⟩ | ⟨_, _, h⟩ <;> exact (nomatch h)

/-- The deadline stops the frame at its op. -/
theorem Turns.stoppedAt (h : Turns f fs ip frames n) (hcalls : AtCalls fs rest)
    (hn : n = .leave (.ok .epochDeadline)) :
    StoppedAt frames (realign frames.length (ip :: rest)) := by
  subst hn
  cases h with
  | cut h hkeeps => exact hkeeps.elim
  | called hruns => exact hruns.elim
  | host hhosts => exact hhosts.elim
  | tailHost hhosts => exact hhosts.elim
  | stopped =>
    rw [realign_self (congrArg Nat.succ hcalls.length)]
    exact ⟨_, fs, rest, rfl, rfl, hcalls⟩

end

/-! ## One step -/

theorem sitesFor_length (registers : Option Regs) (sites : List ℕ) (hn : 0 < n) :
    (sitesFor n registers sites).length = n := by
  have hlen := realign_length n sites
  unfold sitesFor
  cases registers with
  | none => exact hlen
  | some r =>
    dsimp only
    rw [List.length_cons, List.length_tail, hlen]
    omega

theorem sitesTo_sitesFor (registers : Option Regs) (hm : n < m) (hn : n ≤ sites.length) :
    sitesTo (sitesFor m registers sites) n = sitesTo sites n := by
  have hlen := realign_length m sites
  rw [← sitesTo_realign hm.le hn]
  unfold sitesFor
  cases registers with
  | none => rfl
  | some r =>
    cases hsites : realign m sites with
    | nil =>
      rw [hsites, List.length_nil] at hlen
      omega
    | cons site rest =>
      rw [hsites, List.length_cons] at hlen
      dsimp only [List.tail_cons]
      rw [sitesTo_cons (by omega), sitesTo_cons (by omega)]

/-- The sites noted once the state is reached are those of its frames. -/
def State.SitedFrom (s : State σ) (sites : List ℕ) : Prop :=
  s.Sited (sitesFor s.current.frames.length s.registers sites)

section

variable {entry e e' : Execution} {inner inner' frames : List Frame} {d : Drive} {ds : List Drive}
  {sites : List ℕ} {p : Pc}

/-- Whatever a driver in control is about, all frames below the topmost are suspended in calls. -/
theorem Pc.Runs.below (h : p.Runs frames sites) : AtCalls frames.tail sites.tail := by
  cases p with
  | loop r | poll r =>
    obtain ⟨rest, rfl, hcalls⟩ := h
    exact hcalls
  | serve o =>
    cases o with
    | hostAsync _ _ => exact AtCalls.tail h
    | epochDeadline => exact StoppedAt.tail h
    | finished | fuelYield | grow _ _ | tableGrow _ _ _ | gcGrow _ _ => exact h
  | run _ | hostFn _ | hostFnAsync _ | limiter _ _ | epochCallback _ | done _ => exact h

/-- And whatever a driver waits for. -/
theorem Pc.Waits.below (h : p.Waits frames sites) : AtCalls frames.tail sites.tail := by
  cases p with
  | hostFn _ | hostFnAsync _ => exact AtCalls.tail h
  | epochCallback _ => exact StoppedAt.tail h
  | limiter _ _ => exact h
  | run _ | loop _ | poll _ | serve _ | done _ => exact h.elim

/-- The stack of an activation and the sites noted for it, with the drivers below. -/
structure Noted (entry : Execution) (inner : List Frame) (e : Execution) (ds : List Drive)
    (sites : List ℕ) : Prop where
  inside : Inside entry inner e
  length : e.frames.length = sites.length
  calls : AtCalls e.frames.tail sites.tail
  below : SitedOn ds (framesTo e.frames entry.frames.length) (sitesTo sites entry.frames.length)

namespace Noted

/-- What lies below the driver is kept. -/
theorem kept (h : Noted entry inner e ds sites) (hin' : Inside entry inner' e')
    (registers : Option Regs) :
    SitedOn ds (framesTo e'.frames entry.frames.length)
      (sitesTo (sitesFor e'.frames.length registers sites) entry.frames.length) := by
  have hframes := h.inside.frames_length
  have hframes' := hin'.frames_length
  have hlen := h.length
  have hbelow := h.below
  rw [h.inside.framesTo_eq] at hbelow
  rw [hin'.framesTo_eq, sitesTo_sitesFor registers (by omega) (by omega)]
  exact hbelow

/-- A driver in control, inside the call it was in. -/
theorem guest (h : Noted entry inner e ds sites) (hb : d.boundary = boundaryOf entry)
    (hin' : Inside entry inner' d.exec) (st : StoreState σ) (slot : Execution)
    (hruns : d.pc.Runs d.exec.frames (sitesFor d.exec.frames.length
      (State.registers (⟨st, slot, d :: ds, true⟩ : State σ)) sites)) :
    State.SitedFrom (⟨st, slot, d :: ds, true⟩ : State σ) sites := by
  have hstop : d.boundary.stopDepth = entry.frames.length := congrArg Boundary.stopDepth hb
  have hkept := h.kept hin' (State.registers (⟨st, slot, d :: ds, true⟩ : State σ))
  have hframes := hin'.frames_length
  rw [← hstop] at hkept
  exact ⟨(sitesFor_length _ sites (by omega)).symm, hruns, hkept⟩

/-- A driver that has been answered, or goes on without a suspension. -/
theorem answered (h : Noted entry inner e ds sites) (hb : d.boundary = boundaryOf entry)
    (hin' : Inside entry inner' d.exec) (hcut : Cut e.frames d.exec.frames) (hp : d.pc.Answered)
    (st : StoreState σ) (slot : Execution) :
    State.SitedFrom (⟨st, slot, d :: ds, true⟩ : State σ) sites := by
  have hbelow := hcut.atCalls h.length h.calls
  refine h.guest hb hin' st slot ?_
  obtain ⟨boundary, resultTys, scope, exec, countdown, pc⟩ := d
  cases pc with
  | loop r | poll r => exact ⟨_, rfl, hbelow⟩
  | run _ | hostFn _ | hostFnAsync _ | limiter _ _ | epochCallback _ | done _ => exact hbelow
  | serve o =>
    cases o with
    | hostAsync _ _ | epochDeadline => exact hp.elim
    | finished | fuelYield | grow _ _ | tableGrow _ _ _ | gcGrow _ _ => exact hbelow

/-- A driver that is answered reclaims the execution. -/
theorem toGuest (h : Noted entry inner e ds sites) (hb : d.boundary = boundaryOf entry)
    (hin' : Inside entry inner' e') (hcut : Cut e.frames e'.frames) (hp : p.Answered)
    (st : StoreState σ) : State.SitedFrom (State.toGuest st d ds e' p) sites :=
  h.answered (d := { d with exec := e', pc := p }) hb hin' hcut hp st d.exec

/-- A driver that waits, inside the call it was in. -/
theorem host (h : Noted entry inner e ds sites) (hb : d.boundary = boundaryOf entry)
    (hin' : Inside entry inner' e') (st : StoreState σ)
    (hwaits : d.pc.Waits e'.frames (realign e'.frames.length sites)) :
    State.SitedFrom (⟨st, e', d :: ds, false⟩ : State σ) sites := by
  have hstop : d.boundary.stopDepth = entry.frames.length := congrArg Boundary.stopDepth hb
  have hkept := h.kept hin' none
  rw [← hstop] at hkept
  exact ⟨(realign_length _ _).symm, hwaits, hkept⟩

/-- A driver that waits with the frames it had. -/
theorem asked (h : Noted entry inner e ds sites) (hb : d.boundary = boundaryOf entry)
    (hin' : Inside entry inner' e') (hframes : e'.frames = e.frames) (st : StoreState σ)
    (hwaits : d.pc.Waits e.frames sites) :
    State.SitedFrom (⟨st, e', d :: ds, false⟩ : State σ) sites := by
  refine h.host hb hin' st ?_
  rw [hframes, realign_self h.length]
  exact hwaits

/-- The call is closed. -/
theorem closed (h : Noted entry inner e ds sites) (st : StoreState σ) :
    State.SitedFrom (⟨st, entry, ds, false⟩ : State σ) sites := by
  have hframes := h.inside.frames_length
  have hlen := h.length
  have hbelow := h.below
  rw [h.inside.framesTo_eq] at hbelow
  show SitedOn ds entry.frames (realign entry.frames.length sites)
  rw [realign_of_le (by omega)]
  exact hbelow

end Noted

theorem State.Sited.noted {st : StoreState σ} {slot : Execution}
    (h : State.Sited (⟨st, slot, d :: ds, true⟩ : State σ) sites)
    (hb : d.boundary = boundaryOf entry) (hin : Inside entry inner d.exec) :
    Noted entry inner d.exec ds sites := by
  have hstop : d.boundary.stopDepth = entry.frames.length := congrArg Boundary.stopDepth hb
  obtain ⟨hlen, hruns, hbelow⟩ := h
  rw [hstop] at hbelow
  exact ⟨hin, hlen, hruns.below, hbelow⟩

theorem SitedOn.noted (h : SitedOn (d :: ds) e.frames sites) (hb : d.boundary = boundaryOf entry)
    (hin : Inside entry inner e) : Noted entry inner e ds sites := by
  have hstop : d.boundary.stopDepth = entry.frames.length := congrArg Boundary.stopDepth hb
  obtain ⟨hlen, hwaits, hbelow⟩ := h
  rw [hstop] at hbelow
  exact ⟨hin, hlen, hwaits.below, hbelow⟩

end

namespace Traced

variable {T : Traced σ} {entry : Execution} {inner : List Frame} {st : StoreState σ}
  {slot : Execution} {d : Drive} {ds : List Drive} {sites : List ℕ}

/-- **A turn of the loop.** -/
theorem turnStep_sited {r : Regs} (hb : d.boundary = boundaryOf entry)
    (hin : Inside entry inner d.exec) (hregs : RegsOf inner r)
    (h : Noted entry inner d.exec ds sites) (hruns : (Pc.loop r).Runs d.exec.frames sites) :
    (T.turnStep ⟨st, slot, d :: ds, true⟩ d ds r).1.SitedFrom sites := by
  obtain ⟨rest, rfl, hcalls⟩ := hruns
  have hrun : d.boundary.runStop = entry.frames.length + 1 := congrArg Boundary.runStop hb
  obtain ⟨f, fs, rfl, -⟩ := id hregs
  obtain ⟨delimiter, hframes, -⟩ := hin.frames
  rw [List.cons_append] at hframes
  rw [hframes, List.tail_cons] at hcalls
  have hturns := T.turn_turns st hframes r (entry.frames.length + 1) d.countdown
  obtain ⟨inner', hin', -⟩ := hin.turn T.toInterp hregs st d.countdown
  have hbelow := hturns.below hcalls
  have hhosted := hturns.hosted hcalls
  have hstopped := hturns.stoppedAt hcalls
  unfold Interp.turnStep
  dsimp only
  rw [hrun]
  generalize T.turn st d.exec r (entry.frames.length + 1) d.countdown = t at *
  obtain ⟨st', exec', countdown', next, mark⟩ := t
  dsimp only at hin' hbelow hhosted hstopped ⊢
  have hgoes : ∀ p : Pc, p.Runs exec'.frames (sitesFor exec'.frames.length (State.registers
      (⟨st', slot, { d with exec := exec', countdown := countdown', pc := p } :: ds, true⟩ :
        State σ)) (r.ip :: rest)) →
      State.SitedFrom (⟨st', slot, { d with exec := exec', countdown := countdown', pc := p } :: ds,
        true⟩ : State σ) (r.ip :: rest) :=
    fun p => h.guest (d := { d with exec := exec', countdown := countdown', pc := p }) hb
      hin' st' slot
  cases next with
  | loop r' => exact hgoes (.loop r') ⟨_, rfl, hbelow⟩
  | poll r' => exact hgoes (.poll r') ⟨_, rfl, hbelow⟩
  | callback call =>
    exact h.host (d := { d with exec := slot, countdown := countdown', pc := .hostFn call }) hb hin'
      st' (hhosted (Or.inl ⟨call, rfl⟩))
  | leave out =>
    cases out with
    | error err => exact hgoes (.done (.error err)) hbelow
    | ok o =>
      cases o with
      | hostAsync func inst =>
        exact hgoes (.serve (.hostAsync func inst)) (hhosted (Or.inr ⟨func, inst, rfl⟩))
      | epochDeadline => exact hgoes (.serve .epochDeadline) (hstopped rfl)
      | finished | fuelYield | grow _ _ | tableGrow _ _ _ | gcGrow _ _ =>
        exact hgoes (.serve _) hbelow

/-- A driver serves an outcome. -/
theorem serve_sited {o : RunOutcome} (hb : d.boundary = boundaryOf entry)
    (h : Noted entry inner d.exec ds sites) (hruns : (Pc.serve o).Runs d.exec.frames sites) :
    (T.serve false ⟨st, slot, d :: ds, true⟩ d ds o).SitedFrom sites := by
  have hgoes : ∀ (st' : StoreState σ) (p : Pc), p.Answered →
      State.SitedFrom (⟨st', slot, { d with pc := p } :: ds, true⟩ : State σ) sites :=
    fun st' p hp => h.answered (d := { d with pc := p }) hb h.inside (.refl _) hp st' slot
  have hasks : ∀ (st' : StoreState σ) (p : Pc), p.Waits d.exec.frames sites →
      State.SitedFrom (⟨st', d.exec, { d with exec := slot, pc := p } :: ds, false⟩ : State σ)
        sites :=
    fun st' p hp => h.asked (d := { d with exec := slot, pc := p }) hb h.inside rfl st' hp
  have hlimiter : ∀ (g : Growth) (withScope : Bool),
      (Interp.askLimiter ⟨st, slot, d :: ds, true⟩ d ds g withScope).SitedFrom sites := by
    intro g withScope
    cases withScope with
    | true => exact hasks _ (.limiter g _) h.calls
    | false => exact hasks _ (.limiter g none) h.calls
  unfold Interp.serve
  cases o with
  | finished => exact hgoes st (.done (.ok ())) trivial
  | hostAsync func inst =>
    dsimp only
    split
    · cases hprepared : T.prepareHostCall st d.exec func with
      | error err => exact hgoes st (.done (.error err)) trivial
      | ok p =>
        obtain ⟨call, st', e⟩ := p
        exact h.asked (d := { d with exec := slot, pc := .hostFnAsync call }) hb
          (h.inside.prepareHostCall T.toInterp hprepared) (T.prepareHostCall_frames hprepared) st'
          hruns
    · exact hgoes st (.done _) trivial
  | fuelYield =>
    dsimp only
    split
    · exact hgoes _ (.run true) trivial
    · exact hgoes st (.done _) trivial
  | epochDeadline => exact hasks _ (.epochCallback _) hruns
  | grow memory delta => exact hlimiter _ _
  | tableGrow table delta init => exact hlimiter _ _
  | gcGrow target bytes => exact hlimiter .gc true

/-- A call is closed out. -/
theorem finish_sited (hb : d.boundary = boundaryOf entry) (hpark : entry.Parkable)
    (h : Noted entry inner d.exec ds sites) (out : Except ExecError Unit) :
    (T.finish ⟨st, .empty, d :: ds, true⟩ d ds out).SitedFrom sites := by
  have hstop : d.boundary.stopDepth = entry.frames.length := congrArg Boundary.stopDepth hb
  unfold Interp.finish
  dsimp only
  rw [Above.close_exec T.toInterp hb h.inside, hstop]
  by_cases hzero : entry.frames.length = 0
  · have hempty : entry = .empty := hpark hzero
    rw [if_pos hzero]
    subst hempty
    exact h.closed _
  · rw [if_neg hzero]
    exact h.closed _

/-- **A turn of the driver in control.** -/
theorem guestStep_sited (hb : d.boundary = boundaryOf entry)
    (hin : Inside entry inner d.exec) (hfits : d.pc.Fits inner)
    (hpark : entry.Parkable)
    (hsited : State.Sited (⟨st, .empty, d :: ds, true⟩ : State σ) sites) :
    (T.machine .go ⟨st, .empty, d :: ds, true⟩).1.Sited
      (T.sitesAfter .go ⟨st, .empty, d :: ds, true⟩ sites) := by
  have h := hsited.noted hb hin
  obtain ⟨-, hruns, -⟩ := hsited
  have hgoes : ∀ (st' : StoreState σ) (k : ℕ) (p : Pc), p.Answered →
      State.SitedFrom (⟨st', .empty, { d with countdown := k, pc := p } :: ds, true⟩ : State σ)
        sites :=
    fun st' k p hp =>
      h.answered (d := { d with countdown := k, pc := p }) hb hin (.refl _) hp st' .empty
  show (T.guestStep false ⟨st, .empty, d :: ds, true⟩ d ds).1.SitedFrom sites
  unfold Interp.guestStep
  cases hpc : d.pc with
  | loop r =>
    rw [hpc] at hfits hruns
    exact turnStep_sited hb hin hfits h hruns
  | run resumed =>
    dsimp only
    rcases T.runHead_cases d with hhead | ⟨err, hhead⟩ | ⟨r, -, hhead⟩
    · rw [hhead]
      exact hgoes st Interp.gcCheckInterval (.serve .finished) trivial
    · rw [hhead]
      exact hgoes st Interp.gcCheckInterval (.done (.error err)) trivial
    · rw [hhead]
      exact hgoes st Interp.gcCheckInterval (.loop r) trivial
  | poll r =>
    dsimp only
    split
    · exact hgoes _ d.countdown (.done _) trivial
    · exact hgoes _ d.countdown (.loop r) trivial
  | serve o =>
    rw [hpc] at hruns
    exact serve_sited hb h hruns
  | done out => exact finish_sited hb hpark h out
  | hostFn _ | hostFnAsync _ | limiter _ _ | epochCallback _ =>
    refine h.answered hb hin (.refl _) ?_ st .empty
    rw [hpc]
    trivial

/-! ### Acts of the embedder's code -/

variable (T)

/-- The end of a host call leaves frames that were there. -/
theorem afterCallback_cut (st : StoreState σ) (e : Execution) (call : HostCallState)
    (outcome : Except ExecError (List Val)) (stopDepth : ℕ) :
    Cut e.frames (T.afterCallback st e call outcome stopDepth).2.1.frames := by
  have hraise : ∀ (s : σ) (exn : ℕ),
      Cut e.frames (T.raiseHostException s e exn stopDepth).1.frames := by
    intro s exn
    unfold Interp.raiseHostException
    split
    · exact .refl _
    · split
      · exact .refl _
      · split
        · exact .refl _
        · exact T.unwind_cut s e (.pending exn) _ stopDepth
  unfold Interp.afterCallback Interp.finishHostCall
  split
  · exact .refl _
  · dsimp only
    split
    · split
      · split
        · exact .refl _
        · exact hraise _ _
      · exact .refl _
    · split
      · exact .refl _
      · exact .refl _

variable {T} {e : Execution}

/-- A call from frames that are all suspended in calls. -/
theorem enter_sited (hpark : e.Parkable) (hon : SitedOn ds e.frames sites)
    (hcalls : AtCalls e.frames sites) (inst funcIndex : ℕ) (code : CompiledFunc) (args : List Val)
    (resultTys : List ValType) (isAsync : Bool) :
    let s' := Interp.enter ⟨st, e, ds, false⟩ inst funcIndex code args resultTys isAsync
    s'.Sited (sitesFor s'.current.frames.length s'.registers sites) := by
  have hlen := hcalls.length
  have hstays : ∀ st' : StoreState σ, State.Sited (⟨st', e, ds, false⟩ : State σ)
      (realign e.frames.length sites) := by
    intro st'
    rw [realign_self hlen]
    exact hon
  intro s'
  unfold s' Interp.enter
  split
  · split
    · exact hstays _
    · exact hstays _
  · have hkind : (if e.frames.length = 0 then .topLevel else .hostReentry) = entryKind e := rfl
    dsimp only
    rw [hkind]
    rcases enterCall_cases e inst funcIndex code args with ⟨e', f, hok, hin⟩ | ⟨err, herr⟩
    · rw [hok]
      obtain ⟨delimiter, hframes, hdelim, -⟩ := hin.frames
      have hsites : realign e'.frames.length sites = 0 :: 0 :: sites := by
        rw [hframes, ← realign_entered, ← hlen]
        rfl
      have hentered : ∀ (st' : StoreState σ) (scope : Option Parked), State.Sited
          (⟨st', .empty, ⟨⟨e.values.length, e.frames.length, e.frames.length + 1⟩, resultTys, scope,
            e', 0, .run false⟩ :: ds, true⟩ : State σ) (realign e'.frames.length sites) := by
        intro st' scope
        refine ⟨(realign_length _ _).symm, ?_, ?_⟩
        · show AtCalls e'.frames.tail (realign e'.frames.length sites).tail
          rw [hsites, hframes]
          refine .cons (fun hnone => ?_) hcalls
          rw [hdelim] at hnone
          nomatch hnone
        · have hbelow : sitesTo (realign e'.frames.length sites) e.frames.length = sites := by
            rw [hsites, hlen, sitesTo_cons (Nat.le_succ _), sitesTo_cons (le_refl _), sitesTo_self]
          dsimp only
          rw [hin.framesTo_eq, hbelow]
          exact hon
      cases isAsync with
      | true => exact hentered _ _
      | false => exact hentered _ _
    · rw [herr]
      by_cases hzero : e.frames.length = 0
      · have hempty : e = .empty := hpark hzero
        dsimp only
        rw [if_pos hzero]
        rw [hempty] at hstays
        exact hstays _
      · dsimp only
        rw [if_neg hzero]
        exact hstays _

section Answers

variable (hb : d.boundary = boundaryOf entry) (h : Noted entry inner e ds sites)
  (hstays : State.SitedFrom (⟨st, e, d :: ds, false⟩ : State σ) sites)

include hb h hstays

/-- A host function returns. -/
theorem returned_sited (r : Except ExecError (List Val)) :
    (T.returned ⟨st, e, d :: ds, false⟩ d ds r).SitedFrom sites := by
  have hrun : d.boundary.runStop = entry.frames.length + 1 := congrArg Boundary.runStop hb
  have hafter : ∀ (call : HostCallState) (st' : StoreState σ) (p : Pc), p.Answered →
      State.SitedFrom (State.toGuest st' d ds
        (T.afterCallback st e call r (entry.frames.length + 1)).2.1 p) sites := by
    intro call st' p hp
    obtain ⟨inner', hin'⟩ := h.inside.afterCallback T.toInterp st call r
    exact h.toGuest hb hin' (T.afterCallback_cut st e call r (entry.frames.length + 1)) hp st'
  unfold Interp.returned
  dsimp only
  rw [hrun]
  split
  · rename_i call _
    have hgoes := hafter call
    generalize T.afterCallback st e call r (entry.frames.length + 1) = after at *
    obtain ⟨st', e', err | ⟨⟩⟩ := after
    · exact hgoes st' (.done (.error err)) trivial
    · dsimp only at hgoes ⊢
      split
      · exact hgoes st' (.serve .finished) trivial
      · split
        · exact hgoes st' (.done _) trivial
        · exact hgoes st' (.loop _) trivial
  · rename_i call _
    have hgoes := hafter call
    generalize T.afterCallback st e call r (entry.frames.length + 1) = after at *
    obtain ⟨st', e', err | ⟨⟩⟩ := after
    · exact hgoes st' (.done (.error err)) trivial
    · dsimp only at hgoes ⊢
      split
      · exact hgoes _ (.done _) trivial
      · exact hgoes _ (.run false) trivial
  · exact hstays

/-- The limiter has answered. -/
theorem grown_sited (rest : σ) (r : Except ExecError (Option ℕ)) :
    (Interp.grown false ⟨st, e, d :: ds, false⟩ d ds rest r).SitedFrom sites := by
  unfold Interp.grown
  dsimp only
  split
  · rename_i g scope _
    split
    · exact h.toGuest (p := .done _) hb h.inside (.refl _) trivial _
    · rename_i old
      have hpushed : Inside entry inner (Interp.pushGrown e g old) := by
        unfold Interp.pushGrown
        cases g with
        | memory is64 => exact h.inside.push _
        | table is64 => exact h.inside.push _
        | gc => exact h.inside
      have hframes : (Interp.pushGrown e g old).frames = e.frames := by
        unfold Interp.pushGrown
        cases g <;> rfl
      refine h.toGuest (p := .run true) hb hpushed ?_ trivial _
      rw [hframes]
      exact .refl _
  · exact hstays

/-- The epoch callback has answered. -/
theorem applyEpochDeadline_sited (r : Except ExecError UpdateDeadline) :
    (Interp.applyEpochDeadline false ⟨st, e, d :: ds, false⟩ d ds r).SitedFrom sites := by
  have hgoes : ∀ (st' : StoreState σ) (p : Pc), p.Answered →
      State.SitedFrom (State.toGuest st' d ds e p) sites :=
    fun st' p hp => h.toGuest hb h.inside (.refl _) hp st'
  unfold Interp.applyEpochDeadline
  dsimp only
  split
  · split
    · exact hgoes _ (.done _) trivial
    · split
      · exact hgoes _ (.done _) trivial
      · exact hgoes _ (.done _) trivial
      · exact hgoes _ (.run true) trivial
      · split
        · exact hgoes _ (.run true) trivial
        · exact hgoes _ (.done _) trivial
  · exact hstays

/-- The embedder's code panics. -/
theorem panicked_sited (hentry : LayeredOn .empty ds entry) :
    (Interp.panicked ⟨st, e, d :: ds, false⟩ d ds).SitedFrom sites := by
  have hparked := hentry.parked (fun _ => rfl)
  have hrestore : ∀ scope : Parked,
      (Interp.restoreAfterPanic ⟨st, e, d :: ds, false⟩ ds scope).SitedFrom sites := by
    intro scope
    unfold Interp.restoreAfterPanic
    dsimp only
    rw [h.inside.discardCurrentCall_eq]
    dsimp only
    rw [hparked]
    exact h.closed _
  unfold Interp.panicked
  split
  · exact hrestore _
  · exact hrestore _
  · exact hrestore _
  · exact hrestore _
  · unfold Interp.recoverCancelled
    dsimp only
    rw [hb]
    unfold boundaryOf
    dsimp only
    rw [h.inside.discardTo_eq]
    dsimp only
    rw [hparked]
    exact h.closed _
  · exact hstays

end Answers

/-- **An answer to the driver that waits.** -/
theorem answer_sited (c : Choice σ)
    (hc : match c with | .ret _ | .grown _ _ | .deadline _ | .panic => True | _ => False)
    (hon : LayeredOn .empty (d :: ds) e) (hsited : SitedOn (d :: ds) e.frames sites) :
    (T.machine c ⟨st, e, d :: ds, false⟩).1.Sited
      (T.sitesAfter c ⟨st, e, d :: ds, false⟩ sites) := by
  obtain ⟨-, entry, inner, hentry, hb, hin, -⟩ := id hon
  have h := hsited.noted hb hin
  have hstays : State.SitedFrom (⟨st, e, d :: ds, false⟩ : State σ) sites := by
    show SitedOn (d :: ds) e.frames (realign e.frames.length sites)
    rw [realign_self h.length]
    exact hsited
  show (T.machine c ⟨st, e, d :: ds, false⟩).1.SitedFrom sites
  cases c with
  | go | tick | post | call _ _ _ _ _ _ | setFuel _ | setFuelYieldInterval _ | hostOp _ =>
    exact hc.elim
  | ret r => exact returned_sited hb h hstays r
  | grown rest r => exact grown_sited hb h hstays rest r
  | deadline r => exact applyEpochDeadline_sited hb h hstays r
  | panic => exact panicked_sited hb h hstays hentry

end Traced

end SubmilliWasm
