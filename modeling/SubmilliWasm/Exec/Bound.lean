/-
# The stack bound

`max_wasm_stack` is checked in two places only (`src/exec/mod.rs`): before a plain call lays its
frame, and at the head of `run`.  Tail calls, host calls, re-entries, returns and the unwinder
change the stacks unchecked.  What the checks hold below the limit is everything under the topmost
frame, whose own record, locals and operands are counted when it calls in turn.

For the bound only the bases and the delimiters of the frames matter, the outline of the stacks.
A turn of the loop lays one more frame on the outline, after the check or in the place of the frame
it takes away, or cuts the outline back; the bases fall from the top down, so what holds under the
topmost frame holds under every frame, and with it under every boundary that may be cut back to.
-/
import SubmilliWasm.Exec.Isolation

namespace SubmilliWasm

variable {σ : Type}

/-! ## What is accounted -/

namespace Execution

/-- The footprint of the stacks, the sum that `stackBytes` computes with checks. -/
def footprint (e : Execution) (frameSize : ℕ) : ℕ :=
  e.values.length * cellSize + e.shadow.length + e.frames.length * frameSize +
    e.hostReentryDepth * hostReentryReserve

/-- The stacks under the topmost frame: without its record, its locals and its operands. -/
def belowTop (e : Execution) : Execution :=
  match e.frames with
  | [] => e
  | f :: fs => { e.truncate f.localsBase with frames := fs }

theorem checkedMul_cases (a b : ℕ) :
    checkedMul a b = some (a * b) ∨ checkedMul a b = none ∧ usizeMax < a * b := by
  unfold checkedMul
  split
  · exact Or.inl rfl
  · rename_i h
    exact Or.inr ⟨rfl, by omega⟩

theorem checkedAdd_cases (a b : ℕ) :
    checkedAdd a b = some (a + b) ∨ checkedAdd a b = none ∧ usizeMax < a + b := by
  unfold checkedAdd
  split
  · exact Or.inl rfl
  · rename_i h
    exact Or.inr ⟨rfl, by omega⟩

/-- The footprint is computed, or does not fit. -/
theorem stackBytes_cases (e : Execution) (frameSize : ℕ) :
    e.stackBytes frameSize = .ok (e.footprint frameSize) ∨
      usizeMax < e.footprint frameSize ∧
        ∃ detail, e.stackBytes frameSize = .error (.frameStack detail) := by
  unfold stackBytes footprint
  rcases checkedMul_cases e.values.length cellSize with hv | ⟨hv, hlt⟩
  · rcases checkedMul_cases e.frames.length frameSize with hf | ⟨hf, hlt⟩
    · rcases checkedMul_cases e.hostReentryDepth hostReentryReserve with hr | ⟨hr, hlt⟩
      · rw [hv, hf, hr]
        dsimp only
        rcases checkedAdd_cases (e.values.length * cellSize) e.shadow.length with hs | ⟨hs, hlt⟩
        · rcases checkedAdd_cases (e.values.length * cellSize + e.shadow.length)
            (e.frames.length * frameSize) with ht | ⟨ht, hlt⟩
          · rcases checkedAdd_cases (e.values.length * cellSize + e.shadow.length +
              e.frames.length * frameSize) (e.hostReentryDepth * hostReentryReserve) with
              hu | ⟨hu, hlt⟩
            · exact Or.inl (by rw [hs, Option.bind_some, ht, Option.bind_some, hu])
            · exact Or.inr ⟨hlt, _, by rw [hs, Option.bind_some, ht, Option.bind_some, hu]⟩
          · exact Or.inr ⟨by omega, _, by rw [hs, Option.bind_some, ht]; rfl⟩
        · exact Or.inr ⟨by omega, _, by rw [hs]; rfl⟩
      · exact Or.inr ⟨by omega, _, by rw [hv, hf, hr]⟩
    · exact Or.inr ⟨by omega, _, by rw [hv, hf]⟩
  · exact Or.inr ⟨by omega, _, by rw [hv]⟩

theorem footprint_belowTop_le (e : Execution) (frameSize : ℕ) :
    e.belowTop.footprint frameSize ≤ e.footprint frameSize := by
  unfold belowTop
  split
  · exact le_refl _
  · rename_i f fs hf
    unfold footprint truncate
    simp only [List.length_take, hf, List.length_cons]
    have hcells : min f.localsBase e.values.length * cellSize ≤ e.values.length * cellSize :=
      Nat.mul_le_mul_right _ (min_le_right _ _)
    have hframes : fs.length * frameSize ≤ (fs.length + 1) * frameSize :=
      Nat.mul_le_mul_right _ (Nat.le_succ _)
    omega

end Execution

/-! ## Outlines -/

/-- The bases and the delimiters of the frames, top first. -/
def Execution.outline (e : Execution) : List (ℕ × Option Delimiter) :=
  e.frames.map fun f => (f.localsBase, f.delimiter)

namespace Outline

open Execution (cellSize hostReentryReserve)

/-- The re-entries among the frames. -/
def crossings (l : List (ℕ × Option Delimiter)) : ℕ :=
  l.countP fun x => x.2 = some .hostReentry

/-- The bases fall from the top down. -/
def Descending (l : List (ℕ × Option Delimiter)) : Prop := l.Pairwise fun x y => y.1 ≤ x.1

/-- What is under the topmost frame stays below the limit. -/
def Within (I : Interp σ) (l : List (ℕ × Option Delimiter)) : Prop :=
  ∀ x l', l = x :: l' → x.1 * (cellSize + 1) + l'.length * I.frameSize +
    crossings l * hostReentryReserve < I.maxWasmStack

/-- What is parked under a boundary stays below the limit. -/
def Under (I : Interp σ) (l : List (ℕ × Option Delimiter)) : Prop :=
  ∀ pre d l', l = pre ++ d :: l' → d.2.isSome → Within I l'

/-- A call that has been entered and not been checked adds two frames and one re-entry. -/
def Near (I : Interp σ) (l : List (ℕ × Option Delimiter)) : Prop :=
  l.length * I.frameSize + crossings l * hostReentryReserve <
    I.maxWasmStack + 3 * I.frameSize + hostReentryReserve

variable {I : Interp σ} {l l' : List (ℕ × Option Delimiter)}

theorem reentries_eq (frames : List Frame) :
    reentries frames = crossings (frames.map fun f => (f.localsBase, f.delimiter)) := by
  unfold reentries crossings
  rw [List.countP_map]
  rfl

theorem within_nil : Within I [] := fun _ _ h => nomatch h

theorem Descending.suffix (h : Descending l) (hl : l' <:+ l) : Descending l' :=
  List.Pairwise.sublist hl.sublist h

/-- The bound passes to what is cut back to. -/
theorem Within.suffix (hd : Descending l) (h : Within I l) (hl : l' <:+ l) : Within I l' := by
  obtain ⟨pre, rfl⟩ := hl
  cases pre with
  | nil => exact h
  | cons x pre =>
    intro y ys hy
    subst hy
    have hx := h x (pre ++ y :: ys) rfl
    have hbase : y.1 ≤ x.1 :=
      (List.pairwise_cons.mp hd).1 y (List.mem_append_right _ List.mem_cons_self)
    have hcells : y.1 * (cellSize + 1) ≤ x.1 * (cellSize + 1) := Nat.mul_le_mul_right _ hbase
    have hlen : ys.length * I.frameSize ≤ (pre ++ y :: ys).length * I.frameSize := by
      refine Nat.mul_le_mul_right _ ?_
      rw [List.length_append, List.length_cons]
      omega
    have hcross : crossings (y :: ys) * hostReentryReserve ≤
        crossings (x :: pre ++ y :: ys) * hostReentryReserve := by
      refine Nat.mul_le_mul_right _ ?_
      unfold crossings
      rw [List.countP_append]
      omega
    omega

theorem Within.under (hd : Descending l) (h : Within I l) : Under I l := by
  rintro pre d l' rfl -
  exact h.suffix hd ⟨pre ++ [d], by simp⟩

theorem Within.near (h : Within I l) : Near I l := by
  unfold Near
  cases l with
  | nil =>
    rw [show crossings [] = 0 from rfl, List.length_nil]
    have : 0 < hostReentryReserve := by decide
    omega
  | cons x l =>
    have hx := h x l rfl
    rw [List.length_cons, Nat.add_mul]
    omega

end Outline

open Outline

/-! ## How the outline changes -/

namespace Execution

variable {e e' : Execution}

theorem outline_congr (h : e'.frames = e.frames) : e'.outline = e.outline :=
  congrArg (List.map fun f : Frame => (f.localsBase, f.delimiter)) h

theorem saveIp_outline {ip : ℕ} (h : e.saveIp ip = some e') : e'.outline = e.outline := by
  unfold saveIp at h
  split at h
  · nomatch h
  · rename_i f fs hf
    rw [← Option.some.inj h, outline, outline, hf]
    rfl

theorem saveIp_values {ip : ℕ} (h : e.saveIp ip = some e') : e'.values = e.values := by
  unfold saveIp at h
  split at h
  · nomatch h
  · rw [← Option.some.inj h]

/-- A return takes the topmost frame away; its results are laid where its locals began. -/
theorem doReturn_outline {n stopDepth : ℕ} {tail b : Bool}
    (h : e.doReturn n stopDepth tail = .ok (e', b)) :
    ∃ x, e.outline = x :: e'.outline ∧ e'.values.length = x.1 + n ∧ x.2 = none := by
  unfold doReturn at h
  split at h
  · nomatch h
  · rename_i f fs hf
    split at h
    · nomatch h
    · split at h
      · nomatch h
      · rename_i hdelim
        split at h
        · nomatch h
        · split at h
          · nomatch h
          · rename_i hshape
            push Not at hshape
            rw [← (Prod.mk.inj (Except.ok.inj h)).1]
            refine ⟨(f.localsBase, f.delimiter), ?_, ?_, Option.not_isSome_iff_eq_none.mp hdelim⟩
            · rw [outline, hf]
              rfl
            · show (e.values.take f.localsBase ++ e.values.drop (e.values.length - n)).length = _
              rw [List.length_append, List.length_take, List.length_drop]
              have := hshape.2.1
              omega

theorem pushCall_outline {inst funcIndex : ℕ} {code : CompiledFunc}
    (h : e.pushCall inst funcIndex code = .ok e') :
    e'.outline = (e.values.length - code.nParams, none) :: e.outline ∧
      e.values.length = e.shadow.length := by
  unfold pushCall at h
  dsimp only at h
  split at h
  · nomatch h
  · rename_i hlock
    split at h
    · nomatch h
    · split at h
      · nomatch h
      · split at h
        · nomatch h
        · split at h
          · nomatch h
          · rw [← Except.ok.inj h]
            exact ⟨rfl, not_not.mp hlock⟩

/-- Under the frame of a callee is what its caller had, but for the arguments. -/
theorem pushCall_belowTop {inst funcIndex : ℕ} {code : CompiledFunc}
    (h : e.pushCall inst funcIndex code = .ok e') (frameSize : ℕ) :
    e'.belowTop.footprint frameSize ≤ e.footprint frameSize := by
  have hlock := (pushCall_outline h).2
  unfold pushCall at h
  dsimp only at h
  split at h
  · nomatch h
  · split at h
    · nomatch h
    · split at h
      · nomatch h
      · split at h
        · nomatch h
        · split at h
          · nomatch h
          · rw [← Except.ok.inj h]
            unfold belowTop footprint Execution.truncate
            dsimp only
            rw [List.length_take, List.length_take]
            have hcells : min (e.values.length - code.nParams)
                (e.pushAll (code.localTypes.map Operand.default)).values.length * cellSize ≤
                e.values.length * cellSize :=
              Nat.mul_le_mul_right _ ((min_le_left _ _).trans (Nat.sub_le _ _))
            have hdepth : (e.pushAll (code.localTypes.map Operand.default)).hostReentryDepth =
                e.hostReentryDepth := rfl
            rw [hdepth]
            omega

end Execution

open Execution

/-- A handler runs in its frame. -/
theorem Handler.run_outline (base : ℕ) (H : Handler σ) (e : Execution) (s : σ) :
    (H.run base e s).1.outline = e.outline :=
  outline_congr (H.run_frames base e s)

namespace Interp

variable (I : Interp σ)

theorem enterExceptionHandler_outline (s : σ) (e : Execution) (exn : ℕ) (r : HandlerRec)
    (floor : ℕ) : (I.enterExceptionHandler s e exn r floor).1.outline = e.outline := by
  unfold enterExceptionHandler
  dsimp only
  split
  · rfl
  · split
    · rfl
    · split
      · rfl
      · split
        · split <;> rfl
        · rename_i hsave
          refine (saveIp_outline hsave).trans ?_
          split <;> rfl

/-- The unwinder takes frames away. -/
theorem unwindFrom_outline (s : σ) (exn thrown stopDepth fuel : ℕ) (e : Execution) (faultIp : ℕ) :
    (I.unwindFrom s exn thrown stopDepth fuel e faultIp).1.outline <:+ e.outline := by
  induction fuel generalizing e faultIp with
  | zero => exact List.suffix_refl _
  | succ fuel ih =>
    unfold unwindFrom
    split
    · exact List.suffix_refl _
    · rename_i f fs hf
      have hpop : ({ e.truncate f.localsBase with frames := fs } : Execution).outline <:+
          e.outline := by
        rw [outline, outline, hf]
        exact List.suffix_cons _ _
      split
      · exact List.suffix_refl _
      · split
        · exact List.suffix_refl _
        · rw [enterExceptionHandler_outline]
        · split
          · exact List.suffix_refl _
          · dsimp only
            split
            · exact hpop
            · split
              · exact hpop
              · split
                · exact hpop
                · exact (ih _ _).trans hpop

theorem unwind_outline (s : σ) (e : Execution) (err : ExecError) (faultIp stopDepth : ℕ) :
    (I.unwind s e err faultIp stopDepth).1.outline <:+ e.outline := by
  unfold unwind
  split
  · split
    · exact List.suffix_refl _
    · exact I.unwindFrom_outline s _ _ stopDepth _ e faultIp
  · exact List.suffix_refl _

variable {e : Execution}

theorem prepareHostCall_outline {st st' : StoreState σ} {e' : Execution} {func : ℕ}
    {call : HostCallState} (h : I.prepareHostCall st e func = .ok (call, st', e')) :
    e'.outline = e.outline :=
  outline_congr (I.prepareHostCall_frames h)

theorem startHostCall_outline (st : StoreState σ) (e : Execution) (func : ℕ) :
    (I.startHostCall st e func).2.1.outline = e.outline := by
  unfold startHostCall
  split
  · rfl
  · rename_i hok
    exact I.prepareHostCall_outline hok

theorem afterCallback_outline (st : StoreState σ) (e : Execution) (call : HostCallState)
    (outcome : Except ExecError (List Val)) (stopDepth : ℕ) :
    (I.afterCallback st e call outcome stopDepth).2.1.outline <:+ e.outline := by
  unfold afterCallback finishHostCall
  split
  · exact List.suffix_refl _
  · dsimp only
    split
    · split
      · split
        · exact List.suffix_refl _
        · unfold raiseHostException
          split
          · exact List.suffix_refl _
          · split
            · exact List.suffix_refl _
            · split
              · exact List.suffix_refl _
              · exact I.unwind_outline _ e _ _ stopDepth
      · exact List.suffix_refl _
    · split
      · exact List.suffix_refl _
      · exact List.suffix_refl _

theorem serviceGates_outline (st : StoreState σ) (e : Execution) (ip : ℕ) :
    (I.serviceGates st e ip).2.1.outline = e.outline := by
  have hepoch : ∀ st, (I.epochGate st e ip).1.outline = e.outline := by
    intro st
    unfold epochGate
    split
    · split
      · rfl
      · rename_i hsave
        exact saveIp_outline hsave
    · rfl
  unfold serviceGates
  split
  · split
    · exact hepoch _
    · rfl
    · split
      · rfl
      · rename_i hsave
        exact saveIp_outline hsave
  · exact hepoch _

/-! ## A turn of the loop -/

variable {I}

theorem enterCallee_within {req : CallReq} {countdown : ℕ} (h : Within I e.outline)
    (hcall : Within I ((e.values.length - req.code.nParams, none) :: e.outline)) :
    Within I (I.enterCallee e req countdown).1.outline := by
  unfold enterCallee
  split
  · exact h
  · rename_i e' hok
    rw [← (pushCall_outline hok).1] at hcall
    split
    · exact hcall
    · split
      · split
        · exact hcall
        · exact hcall
      · exact hcall

/-- What is under the topmost frame stays below the limit: a plain call is checked, and a tail
call lays its frame where the one it takes away began. -/
theorem carryOut_within {st : StoreState σ} {r : Regs} {stopDepth countdown : ℕ}
    (hlock : e.values.length = e.shadow.length) (hdepth : e.hostReentryDepth = crossings e.outline)
    (hd : Descending e.outline) (h : Within I e.outline) (out : StepOutcome) :
    Within I (I.carryOut st e r stopDepth countdown out).2.1.outline := by
  have hreturn : ∀ {e' : Execution} {n : ℕ} {b : Bool},
      e.doReturn n stopDepth true = .ok (e', b) → Within I e'.outline := by
    intro e' n b hret
    obtain ⟨x, hx, -⟩ := doReturn_outline hret
    exact h.suffix hd (hx ▸ List.suffix_cons _ _)
  have hcases := I.carryOut_cases st e r stopDepth countdown out
  generalize I.carryOut st e r stopDepth countdown out = c at hcases ⊢
  cases hcases with
  | advance _ | fails _ _ => exact h
  | @calls req bytes e' hbytes hlimit hsave =>
    have hsame := saveIp_outline hsave
    rw [← hsame] at h
    refine enterCallee_within h ?_
    -- The callee's frame begins where its arguments do, within what was checked.
    have hfits : e.footprint I.frameSize < I.maxWasmStack := by
      rcases e.stackBytes_cases I.frameSize with hok | ⟨-, detail, herr⟩
      · rwa [Except.ok.inj (hbytes.symm.trans hok)] at hlimit
      · nomatch hbytes.symm.trans herr
    unfold footprint at hfits
    intro x l' hx
    obtain ⟨rfl, rfl⟩ := List.cons.inj hx
    rw [hsame, saveIp_values hsave]
    have hcells : (e.values.length - req.code.nParams) * (cellSize + 1) ≤
        e.values.length * cellSize + e.values.length := by
      rw [← Nat.mul_succ]
      exact Nat.mul_le_mul_right _ (Nat.sub_le _ _)
    have hframes : e.outline.length = e.frames.length := List.length_map _
    have hcross : crossings ((e.values.length - req.code.nParams, none) :: e.outline) =
        e.hostReentryDepth := by
      rw [hdepth]
      exact List.countP_cons_of_neg (by simp)
    rw [hcross, hframes]
    dsimp only
    omega
  | tailCalls hret =>
    refine enterCallee_within (hreturn hret) ?_
    obtain ⟨x, hx, hlen, hdelim⟩ := doReturn_outline hret
    rw [hlen, Nat.add_sub_cancel]
    rw [hx] at h
    obtain ⟨base, delim⟩ := x
    obtain rfl : delim = none := hdelim
    exact h
  | hosts hsave =>
    rw [startHostCall_outline, saveIp_outline hsave]
    exact h
  | tailHosts hret =>
    rw [startHostCall_outline]
    exact hreturn hret
  | suspends _ hsave =>
    rw [saveIp_outline hsave]
    exact h
  | tailSuspends hret => exact hreturn hret

theorem execute_within {entry : Execution} {inner : List Frame}
    (hentry : entry.hostReentryDepth = reentries entry.frames) (hin : Inside entry inner e)
    {r : Regs} (hr : RegsOf inner r) (st : StoreState σ) (stopDepth countdown : ℕ)
    (hd : Descending e.outline) (h : Within I e.outline) (op : Op) :
    Within I (I.execute st e r stopDepth countdown op).exec.outline := by
  have hin' := hin.handler_run (I.step r.code op (r.ip + 1) r.inst) (hin.regsOf_base_le hr) st.rest
  have hrun := (I.step r.code op (r.ip + 1) r.inst).run_outline r.base e st.rest
  unfold execute
  split
  · rename_i e' s err hok
    rw [hok] at hrun
    have hcut := I.unwind_outline s e' err r.ip stopDepth
    rw [show e'.outline = e.outline from hrun] at hcut
    exact h.suffix hd hcut
  · rename_i e' s out hok
    rw [hok] at hrun hin'
    rw [← show e'.outline = e.outline from hrun] at hd h
    have hdepth : e'.hostReentryDepth = crossings e'.outline := by
      rw [show crossings e'.outline = reentries e'.frames from (reentries_eq _).symm,
        hin'.reentries_eq, hin'.depth, hentry]
    exact carryOut_within hin'.lockstep hdepth hd h out

theorem turn_within {entry : Execution} {inner : List Frame}
    (hentry : entry.hostReentryDepth = reentries entry.frames) (hin : Inside entry inner e)
    {r : Regs} (hr : RegsOf inner r) (st : StoreState σ) (stopDepth countdown : ℕ)
    (hd : Descending e.outline) (h : Within I e.outline) :
    Within I (I.turn st e r stopDepth countdown).exec.outline := by
  unfold turn
  split
  · split
    · exact h
    · rename_i hret
      obtain ⟨x, hx, -⟩ := doReturn_outline hret
      exact h.suffix hd (hx ▸ List.suffix_cons _ _)
    · rename_i hret
      obtain ⟨x, hx, -⟩ := doReturn_outline hret
      exact h.suffix hd (hx ▸ List.suffix_cons _ _)
  · have hgates := I.serviceGates_outline st e r.ip
    obtain ⟨inner', hin', hr', -⟩ := hin.serviceGates I hr st r.ip
    split
    · rename_i hok
      rw [hok] at hgates
      rw [show _ = e.outline from hgates]
      exact h
    · rename_i hok
      rw [hok] at hgates
      rw [show _ = e.outline from hgates]
      exact h
    · rename_i st' e' hok
      rw [hok] at hgates hin'
      rw [← show e'.outline = e.outline from hgates] at hd h
      exact execute_within hentry hin' hr' st' stopDepth countdown hd h _

end Interp

/-! ## The layers of a state -/

variable {e : Execution} {inner : List Frame}

theorem Floors.descending {base len : ℕ} (h : Floors base inner len)
    {l : List (ℕ × Option Delimiter)} (hl : Descending l) (hbase : ∀ x ∈ l, x.1 ≤ base) :
    Descending ((inner.map fun f => (f.localsBase, f.delimiter)) ++ l) ∧
      ∀ x ∈ (inner.map fun f => (f.localsBase, f.delimiter)) ++ l, x.1 ≤ len := by
  induction inner generalizing len with
  | nil => exact ⟨hl, fun x hx => (hbase x hx).trans h⟩
  | cons f fs ih =>
    obtain ⟨-, hbases, hlen, hfs⟩ := h
    obtain ⟨hdesc, hle⟩ := ih hfs
    refine ⟨List.pairwise_cons.mpr ⟨hle, hdesc⟩, fun x hx => ?_⟩
    rcases List.mem_cons.mp hx with rfl | hx
    · exact hbases.trans hlen
    · exact (hle x hx).trans (hbases.trans hlen)

/-- The outline inside a call: its own frames, its delimiter, and what it was entered on. -/
theorem Inside.outline_eq {entry : Execution} (h : Inside entry inner e) :
    ∃ kind, e.outline = (inner.map fun f => (f.localsBase, f.delimiter)) ++
      (entry.values.length, some kind) :: entry.outline := by
  obtain ⟨d, hd, hdelim, -, hbase⟩ := h.frames
  refine ⟨entryKind entry, ?_⟩
  rw [outline, hd, List.map_append, List.map_cons, hdelim, hbase]
  rfl

namespace LayeredOn

variable {e : Execution} {ds : List Drive}

theorem descending (h : LayeredOn .empty ds e) :
    Descending e.outline ∧ ∀ x ∈ e.outline, x.1 ≤ e.values.length := by
  induction ds generalizing e with
  | nil =>
    obtain rfl : e = .empty := h
    exact ⟨List.Pairwise.nil, fun x hx => nomatch hx⟩
  | cons d ds ih =>
    obtain ⟨-, entry, inner, hentry, -, hin, -⟩ := h
    obtain ⟨hdesc, hle⟩ := ih hentry
    obtain ⟨kind, hk⟩ := hin.outline_eq
    rw [hk]
    refine hin.floors.descending (List.pairwise_cons.mpr ⟨hle, hdesc⟩) fun x hx => ?_
    rcases List.mem_cons.mp hx with rfl | hx
    · exact le_refl _
    · exact hle x hx

theorem crossings_eq (h : LayeredOn .empty ds e) : e.hostReentryDepth = crossings e.outline :=
  (h.depth rfl).trans (reentries_eq _)

/-- Each driver but the lowest was entered from a host function. -/
theorem drives_le (h : LayeredOn .empty ds e) : ds.length ≤ reentries e.frames + 1 := by
  induction ds generalizing e with
  | nil => exact Nat.zero_le _
  | cons d ds ih =>
    obtain ⟨-, entry, inner, hentry, -, hin, -⟩ := h
    have hle := ih hentry
    rw [hin.reentries_eq, List.length_cons]
    unfold entryKind
    split
    · rename_i hzero
      cases ds with
      | nil => exact Nat.le_add_left _ _
      | cons d' ds =>
        obtain ⟨-, entry', inner', -, -, hin', -⟩ := hentry
        have := hin'.frames_length
        omega
    · show ds.length + 1 ≤ reentries entry.frames + 1 + 1
      omega

end LayeredOn

/-! ## One step -/

/-- A driver that has passed the head of `run` and not left the loop for good. -/
def Pc.Running : Pc → Prop
  | .loop _ | .poll _ => True
  | .serve o => o ≠ .finished
  | _ => False

/-- The bound on the execution of a driver at `pc`. -/
structure Guarded (I : Interp σ) (pc : Pc) (e : Execution) : Prop where
  under : Under I e.outline
  near : Near I e.outline
  running : pc.Running → Within I e.outline

/-- The bound on a state. -/
def State.Bounded (I : Interp σ) (s : State σ) : Prop :=
  match s.guest, s.drives with
  | true, d :: _ => Guarded I d.pc d.exec
  | _, _ => Within I s.slot.outline

theorem Guarded.of_within {I : Interp σ} {pc : Pc} (hd : Descending e.outline)
    (h : Within I e.outline) : Guarded I pc e := ⟨h.under hd, h.near, fun _ => h⟩

theorem Inside.within {I : Interp σ} {entry : Execution} (hin : Inside entry inner e)
    (h : Under I e.outline) : Within I entry.outline := by
  obtain ⟨kind, hk⟩ := hin.outline_eq
  exact h _ _ _ hk rfl

/-- What the head of `run` checks. -/
theorem within_of_footprint {I : Interp σ} (hlock : e.values.length = e.shadow.length)
    (hdepth : e.hostReentryDepth = crossings e.outline)
    (hle : ∀ x ∈ e.outline, x.1 ≤ e.values.length) (h : e.footprint I.frameSize < I.maxWasmStack) :
    Within I e.outline := by
  unfold footprint at h
  intro x l' hx
  have hbase : x.1 * (cellSize + 1) ≤ e.values.length * cellSize + e.values.length := by
    rw [← Nat.mul_succ]
    exact Nat.mul_le_mul_right _ (hle x (hx ▸ List.mem_cons_self))
  have hframes : l'.length * I.frameSize ≤ e.frames.length * I.frameSize := by
    have hlen : e.outline.length = e.frames.length := List.length_map _
    refine Nat.mul_le_mul_right _ ?_
    rw [← hlen, hx, List.length_cons]
    omega
  rw [← hdepth]
  omega

namespace State.Bounded

variable {I : Interp σ} {d : Drive} {ds : List Drive} {e : Execution} {st : StoreState σ}

/-- The bases fall on the stacks of every state. -/
theorem descending {s : State σ} (h : Above .empty [] s) : Descending s.current.outline := by
  cases h with
  | host h => exact h.descending.1
  | guest h => exact h.descending.1

theorem of_within {s : State σ} (ha : Above .empty [] s) (h : Within I s.current.outline) :
    s.Bounded I := by
  have hd := descending ha
  obtain ⟨st, slot, drives, guest⟩ := s
  cases guest with
  | false => exact h
  | true =>
    cases drives with
    | nil => exact h
    | cons d ds => exact Guarded.of_within hd h

/-! ### Turns of a driver -/

/-- The head of `run` checks what it lets into the loop. -/
theorem runHead (h : LayeredOn .empty ({ d with exec := .empty } :: ds) d.exec)
    (hg : Guarded I d.pc d.exec) : Guarded I (I.runHead d) d.exec := by
  refine ⟨hg.under, hg.near, fun hrunning => ?_⟩
  obtain ⟨-, hle⟩ := h.descending
  have hdepth := h.crossings_eq
  obtain ⟨-, entry, inner, -, -, hin, -⟩ := h
  unfold Interp.runHead at hrunning
  split at hrunning
  · exact absurd rfl hrunning
  · split at hrunning
    · exact hrunning.elim
    · rename_i bytes hbytes
      split at hrunning
      · exact hrunning.elim
      · rename_i hlimit
        rcases d.exec.stackBytes_cases I.frameSize with hok | ⟨-, detail, herr⟩
        · rw [Except.ok.inj (hbytes.symm.trans hok)] at hlimit
          exact within_of_footprint hin.lockstep hdepth hle (by omega)
        · nomatch hbytes.symm.trans herr

theorem turnStep {r : Regs} (hpc : d.pc = .loop r)
    (h : LayeredOn .empty ({ d with exec := .empty } :: ds) d.exec) (hg : Guarded I d.pc d.exec) :
    (I.turnStep ⟨st, .empty, d :: ds, true⟩ d ds r).1.Bounded I := by
  have habove := @Above.turnStep _ _ [] ds d I st r hpc h
  rw [List.append_nil] at habove
  refine of_within habove ?_
  have hw : Within I d.exec.outline := hg.running (by rw [hpc]; trivial)
  have hd := h.descending.1
  obtain ⟨-, entry, inner, hentry, hb, hin, hfits⟩ := h
  have hregs : RegsOf inner r := by
    simp only [hpc] at hfits
    exact hfits
  have hturn := Interp.turn_within (hentry.depth rfl) hin hregs st d.boundary.runStop d.countdown
    hd hw
  unfold Interp.turnStep
  dsimp only
  split
  · exact hturn
  · exact hturn
  · exact hturn
  · exact hturn
  · exact hturn

theorem serve {o : RunOutcome} (hpc : d.pc = .serve o)
    (h : LayeredOn .empty ({ d with exec := .empty } :: ds) d.exec) (hg : Guarded I d.pc d.exec) :
    (I.serve false ⟨st, .empty, d :: ds, true⟩ d ds o).Bounded I := by
  have habove := @Above.serve _ _ [] ds d I st o hpc false h
  rw [List.append_nil] at habove
  by_cases ho : o = .finished
  · subst ho
    exact ⟨hg.under, hg.near, fun hno => hno.elim⟩
  · have hw : Within I d.exec.outline := hg.running (by rw [hpc]; exact ho)
    refine of_within habove ?_
    have hask : ∀ g w, Within I
        (Interp.askLimiter ⟨st, .empty, d :: ds, true⟩ d ds g w).current.outline := by
      intro g w
      unfold Interp.askLimiter
      split
      · exact hw
      · exact hw
    cases o with
    | finished => exact absurd rfl ho
    | hostAsync func inst =>
      unfold Interp.serve
      dsimp only
      split
      · split
        · exact hw
        · rename_i hok
          rw [← I.prepareHostCall_outline hok] at hw
          exact hw
      · exact hw
    | fuelYield =>
      unfold Interp.serve
      dsimp only
      split
      · exact hw
      · exact hw
    | epochDeadline => exact hw
    | grow memory delta => exact hask _ _
    | tableGrow table delta init => exact hask _ _
    | gcGrow target bytes => exact hask _ _

/-- A call that has ended leaves what it was entered on. -/
theorem finish (h : LayeredOn .empty ({ d with exec := .empty } :: ds) d.exec)
    (hg : Guarded I d.pc d.exec) (outcome : Except ExecError Unit) :
    (I.finish ⟨st, .empty, d :: ds, true⟩ d ds outcome).Bounded I := by
  obtain ⟨-, entry, inner, hentry, hb, hin, -⟩ := h
  have hw := hin.within hg.under
  have hexec := fun st : StoreState σ => Above.close_exec (d := d) I hb hin st outcome
  unfold Interp.finish
  simp only [hexec]
  split
  · exact within_nil
  · exact hw

theorem guestStep (h : LayeredOn .empty ({ d with exec := .empty } :: ds) d.exec)
    (hg : Guarded I d.pc d.exec) :
    (I.guestStep false ⟨st, .empty, d :: ds, true⟩ d ds).1.Bounded I := by
  unfold Interp.guestStep
  split
  · exact runHead h hg
  · rename_i hpc
    exact turnStep hpc h hg
  · rename_i r hpc
    have hw : Within I d.exec.outline := hg.running (by rw [hpc]; trivial)
    split
    · exact ⟨hg.under, hg.near, fun hno => hno.elim⟩
    · exact ⟨hg.under, hg.near, fun _ => hw⟩
  · rename_i hpc
    exact serve hpc h hg
  · exact finish h hg _
  · exact hg

/-! ### Acts of the embedder's code -/

/-- What is parked under the boundary of a new call is the execution it was entered on; the call's
delimiter and entry frame are unchecked as yet. -/
theorem guarded_entered {entry : Execution} {f : Frame} {pc : Pc} (hin : Inside entry [f] e)
    (hd : Descending entry.outline) (h : Within I entry.outline) (hpc : ¬ pc.Running) :
    Guarded I pc e := by
  obtain ⟨kind, hk⟩ := hin.outline_eq
  have hf : f.delimiter = none := hin.floors.1
  have hcross : crossings e.outline = crossings entry.outline + (entryKind entry).reserves :=
    (reentries_eq _).symm.trans (hin.reentries_eq.trans (by rw [reentries_eq]; rfl))
  refine ⟨?_, ?_, fun hrunning => absurd hrunning hpc⟩
  · intro pre d l' hl hdelim
    rw [hk] at hl
    cases pre with
    | nil =>
      obtain ⟨rfl, -⟩ := List.cons.inj hl
      have hdelim : f.delimiter.isSome = true := hdelim
      rw [hf] at hdelim
      nomatch hdelim
    | cons x pre =>
      have hrest := (List.cons.inj hl).2
      cases pre with
      | nil =>
        rw [← (List.cons.inj hrest).2]
        exact h
      | cons y pre =>
        refine h.suffix hd ⟨pre ++ [d], ?_⟩
        rw [show entry.outline = _ from (List.cons.inj hrest).2]
        simp
  · have hlen : e.outline.length = entry.outline.length + 2 := by
      rw [hk]
      rfl
    unfold Near
    rw [hlen, hcross, Nat.add_mul, Nat.add_mul]
    cases hl : entry.outline with
    | nil =>
      have hzero : entry.frames.length = 0 := by
        rw [← List.length_map (fun f : Frame => (f.localsBase, f.delimiter))]
        exact congrArg List.length hl
      have hkind : (entryKind entry).reserves = 0 := by
        unfold entryKind
        rw [if_pos hzero]
        rfl
      rw [hkind, show crossings [] = 0 from rfl, List.length_nil]
      have : 0 < hostReentryReserve := by decide
      omega
    | cons x l =>
      have hx := h x l hl
      have hreserve : (entryKind entry).reserves * hostReentryReserve ≤ hostReentryReserve := by
        rcases entryKind entry with _ | _
        · exact Nat.zero_le _
        · exact le_of_eq (Nat.one_mul _)
      rw [hl] at hx
      rw [List.length_cons, Nat.add_mul]
      omega

theorem enter {l : List Drive} (h : LayeredOn .empty l e) (hw : Within I e.outline)
    (inst funcIndex : ℕ) (code : CompiledFunc) (args : List Val) (resultTys : List ValType)
    (isAsync : Bool) :
    (Interp.enter ⟨st, e, l, false⟩ inst funcIndex code args resultTys isAsync).Bounded I := by
  unfold Interp.enter
  split
  · split
    · exact hw
    · exact hw
  · have hkind : (if e.frames.length = 0 then .topLevel else .hostReentry) = entryKind e := rfl
    dsimp only
    rw [hkind]
    rcases enterCall_cases e inst funcIndex code args with ⟨e', f, hok, hin⟩ | ⟨err, herr⟩
    · rw [hok]
      exact guarded_entered hin h.descending.1 hw fun hno => hno
    · rw [herr]
      have hparked := h.parked fun _ => rfl
      rw [ite_not] at hparked
      dsimp only
      rw [hparked]
      exact hw

/-- The stacks handed back to a driver are those parked, cut back or with more operands. -/
theorem toGuest {e' : Execution} {pc : Pc} {ds : List Drive} (hd : Descending e.outline)
    (hw : Within I e.outline) (he' : e'.outline <:+ e.outline) :
    (State.toGuest st d ds e' pc).Bounded I :=
  Guarded.of_within (hd.suffix he') (hw.suffix hd he')

theorem returned (h : LayeredOn .empty (d :: ds) e) (hw : Within I e.outline)
    (r : Except ExecError (List Val)) :
    (I.returned ⟨st, e, d :: ds, false⟩ d ds r).Bounded I := by
  have hd := h.descending.1
  have hafter := fun call => I.afterCallback_outline st e call r d.boundary.runStop
  unfold Interp.returned
  dsimp only
  split
  · rename_i call _
    have hcut := hafter call
    split
    · rename_i hok
      rw [hok] at hcut
      exact toGuest hd hw hcut
    · rename_i hok
      rw [hok] at hcut
      split
      · exact toGuest hd hw hcut
      · split
        · exact toGuest hd hw hcut
        · exact toGuest hd hw hcut
  · rename_i call _
    have hcut := hafter call
    split
    · rename_i hok
      rw [hok] at hcut
      exact toGuest hd hw hcut
    · rename_i hok
      rw [hok] at hcut
      split
      · exact toGuest hd hw hcut
      · exact toGuest hd hw hcut
  · exact hw

theorem grown (h : LayeredOn .empty (d :: ds) e) (hw : Within I e.outline) (rest : σ)
    (r : Except ExecError (Option ℕ)) :
    (Interp.grown false ⟨st, e, d :: ds, false⟩ d ds rest r).Bounded I := by
  have hd := h.descending.1
  unfold Interp.grown
  split
  · dsimp only
    split
    · exact toGuest hd hw (List.suffix_refl _)
    · rename_i g _ _ _ old
      have hpushed : (Interp.pushGrown e g old).outline = e.outline := by
        unfold Interp.pushGrown
        cases g <;> rfl
      exact toGuest hd hw (hpushed ▸ List.suffix_refl _)
  · exact hw

theorem applyEpochDeadline (h : LayeredOn .empty (d :: ds) e) (hw : Within I e.outline)
    (r : Except ExecError UpdateDeadline) :
    (Interp.applyEpochDeadline false ⟨st, e, d :: ds, false⟩ d ds r).Bounded I := by
  have hsame : ∀ (st' : StoreState σ) (pc : Pc), (State.toGuest st' d ds e pc).Bounded I :=
    fun st' pc => toGuest h.descending.1 hw (List.suffix_refl _)
  unfold Interp.applyEpochDeadline
  split
  · dsimp only
    split
    · exact hsame _ _
    · split
      · exact hsame _ _
      · exact hsame _ _
      · exact hsame _ _
      · split
        · exact hsame _ _
        · exact hsame _ _
  · exact hw

/-- A panic leaves what the call was entered on. -/
theorem panicked (h : LayeredOn .empty (d :: ds) e) (hw : Within I e.outline) :
    (Interp.panicked ⟨st, e, d :: ds, false⟩ d ds).Bounded I := by
  have hd := h.descending.1
  obtain ⟨-, entry, inner, hentry, hb, hin, -⟩ := h
  have hslot : Within I (if entry.frames.length ≠ 0 then entry else .empty).outline := by
    split
    · exact hin.within (hw.under hd)
    · exact within_nil
  have hrestore : ∀ scope,
      (Interp.restoreAfterPanic ⟨st, e, d :: ds, false⟩ ds scope).Bounded I := by
    intro scope
    unfold Interp.restoreAfterPanic
    simp only [hin.discardCurrentCall_eq]
    exact hslot
  have hrecover : ∀ scope,
      (Interp.recoverCancelled ⟨st, e, d :: ds, false⟩ d ds scope).Bounded I := by
    intro scope
    unfold Interp.recoverCancelled
    simp only [hb, boundaryOf, hin.discardTo_eq]
    exact hslot
  unfold Interp.panicked
  split
  · exact hrestore _
  · exact hrestore _
  · exact hrestore _
  · exact hrestore _
  · exact hrecover _
  · exact hw

theorem hostStep (c : Choice σ) {ds : List Drive} (h : LayeredOn .empty ds e)
    (hw : Within I e.outline) : (I.hostStep false c ⟨st, e, ds, false⟩).Bounded I := by
  cases c with
  | call inst funcIndex code args resultTys isAsync => exact enter h hw _ _ _ _ _ _
  | setFuel _ | setFuelYieldInterval _ | hostOp _ => exact hw
  | go | tick | post =>
    cases ds with
    | nil => exact hw
    | cons d ds => exact hw
  | ret r =>
    cases ds with
    | nil => exact hw
    | cons d ds => exact returned h hw r
  | grown rest r =>
    cases ds with
    | nil => exact hw
    | cons d ds => exact grown h hw rest r
  | deadline r =>
    cases ds with
    | nil => exact hw
    | cons d ds => exact applyEpochDeadline h hw r
  | panic =>
    cases ds with
    | nil => exact hw
    | cons d ds => exact panicked h hw

/-- A step keeps the bound. -/
theorem step (c : Choice σ) {s : State σ} (ha : Above .empty [] s) (hb : s.Bounded I) :
    (I.machine c s).1.Bounded I := by
  cases ha with
  | @host st e ds h =>
    rw [List.append_nil] at hb ⊢
    cases c with
    | go => exact hb
    | tick | post => exact hb
    | setFuel _ | setFuelYieldInterval _ | hostOp _ => exact hb
    | call _ _ _ _ _ _ | ret _ | grown _ _ | deadline _ | panic => exact hostStep _ h hb
  | @guest st d ds h =>
    rw [List.append_nil] at hb ⊢
    cases c with
    | go => exact guestStep h hb
    | tick | post => exact hb
    | call _ _ _ _ _ _ | setFuel _ | setFuelYieldInterval _ | hostOp _ | ret _ | grown _ _
    | deadline _ | panic => exact hb

/-- The bound holds in every reachable state. -/
theorem reachable (cs : List (Choice σ)) (st : StoreState σ) :
    Above .empty [] (Runs.run I.machine cs (State.idle st)) ∧
      (Runs.run I.machine cs (State.idle st)).Bounded I :=
  @Runs.invariant _ _ _ I.machine (fun _ _ => True)
    (fun s => Above .empty [] s ∧ s.Bounded I)
    (fun c _ hs _ => ⟨hs.1.step I (fun _ => rfl) false c (Or.inl rfl), step c hs.1 hs.2⟩) cs
    (State.idle st) ⟨Above.host (l := []) rfl, within_nil⟩
    (Runs.along_of_forall (fun _ _ => trivial) cs _)

theorem near {s : State σ} (hb : s.Bounded I) : Near I s.current.outline := by
  obtain ⟨st, slot, drives, guest⟩ := s
  cases guest with
  | false => exact Within.near hb
  | true =>
    cases drives with
    | nil => exact Within.near hb
    | cons d ds => exact Guarded.near hb

theorem drives_le {s : State σ} (ha : Above .empty [] s) :
    s.drives.length ≤ reentries s.current.frames + 1 := by
  cases ha with
  | host h =>
    rw [List.append_nil]
    exact h.drives_le
  | guest h =>
    rw [List.append_nil]
    exact h.drives_le

/-- Before every op, what is under the topmost frame is below the limit. -/
theorem belowTop_lt {s : State σ} (ha : Above .empty [] s) (hb : s.Bounded I) {r : Regs}
    (hguest : s.guest = true) (hdrives : s.drives = d :: ds) (hpc : d.pc = .loop r) :
    d.exec.belowTop.footprint I.frameSize < I.maxWasmStack := by
  cases ha with
  | host h => exact nomatch hguest
  | @guest st d' ds' h =>
    obtain ⟨rfl, -⟩ := List.cons.inj hdrives
    have hw : Within I d'.exec.outline := Guarded.running hb (by rw [hpc]; trivial)
    have hdepth := h.crossings_eq
    obtain ⟨-, entry, inner, -, -, hin, -⟩ := h
    obtain ⟨f, fs, hf, -⟩ := hin.top_floor
    have hlt := hw (f.localsBase, f.delimiter) (fs.map fun f => (f.localsBase, f.delimiter))
      (by rw [outline, hf]; rfl)
    rw [← hdepth, List.length_map, Nat.mul_succ] at hlt
    unfold belowTop
    rw [hf]
    unfold footprint Execution.truncate
    dsimp only at hlt ⊢
    rw [List.length_take, List.length_take]
    have hcells : min f.localsBase d'.exec.values.length * cellSize ≤ f.localsBase * cellSize :=
      Nat.mul_le_mul_right _ (min_le_left _ _)
    omega

end State.Bounded

/-! ## What the bound says -/

namespace Interp

variable (I : Interp σ)

/-- How a check of the limit fails: with the trap, unless the footprint itself does not fit. -/
def Overflows (e : Execution) (err : ExecError) : Prop :=
  err = .stackOverflow ∨
    usizeMax < e.footprint I.frameSize ∧ ∃ detail, err = .frameStack detail

/-- A callee whose frame would break the bound is not entered. -/
theorem carryOut_overflows (st : StoreState σ) {e e' : Execution} (r : Regs)
    (stopDepth countdown : ℕ) {req : CallReq}
    (hcall : e.pushCall req.inst req.funcIndex req.code = .ok e')
    (hbreak : I.maxWasmStack ≤ e'.belowTop.footprint I.frameSize) :
    ∃ err, I.Overflows e err ∧ I.carryOut st e r stopDepth countdown (.doCall req) =
      (st, e, countdown, .leave (.error err)) := by
  have hbelow := pushCall_belowTop hcall I.frameSize
  unfold carryOut
  dsimp only
  rcases e.stackBytes_cases I.frameSize with hok | ⟨hlarge, detail, herr⟩
  · rw [hok]
    dsimp only
    rw [if_pos (hbreak.trans hbelow)]
    exact ⟨_, Or.inl rfl, rfl⟩
  · rw [herr]
    exact ⟨_, Or.inr ⟨hlarge, detail, rfl⟩, rfl⟩

/-- A call from outside that would break the bound ends at the head of its run. -/
theorem runHead_overflows {entry : Execution} {f : Frame} {d : Drive}
    (hb : d.boundary = boundaryOf entry) (hin : Inside entry [f] d.exec)
    (hbreak : I.maxWasmStack ≤ d.exec.belowTop.footprint I.frameSize) :
    ∃ err, I.Overflows d.exec err ∧ I.runHead d = .done (.error err) := by
  have hbelow := d.exec.footprint_belowTop_le I.frameSize
  have hout : ¬ d.exec.frames.length = (boundaryOf entry).runStop := by
    have hlen := hin.frames_length
    simp only [List.length_singleton, boundaryOf] at hlen ⊢
    omega
  unfold runHead
  rw [hb, if_neg hout]
  rcases d.exec.stackBytes_cases I.frameSize with hok | ⟨hlarge, detail, herr⟩
  · rw [hok]
    dsimp only
    rw [if_pos (hbreak.trans hbelow)]
    exact ⟨_, Or.inl rfl, rfl⟩
  · rw [herr]
    exact ⟨_, Or.inr ⟨hlarge, detail, rfl⟩, rfl⟩

/-- A call that is entered has its delimiter and its entry frame on top. -/
theorem enter_inside {s : State σ} {inst funcIndex : ℕ} {code : CompiledFunc} {args : List Val}
    {resultTys : List ValType} {isAsync : Bool}
    (hentered : (enter s inst funcIndex code args resultTys isAsync).guest = true)
    (hs : s.guest = false) :
    ∃ d f, (enter s inst funcIndex code args resultTys isAsync).drives = d :: s.drives ∧
      d.pc = .run false ∧ d.boundary = boundaryOf s.slot ∧ Inside s.slot [f] d.exec := by
  unfold enter at hentered ⊢
  split at hentered
  · split at hentered
    · nomatch hs.symm.trans hentered
    · nomatch hs.symm.trans hentered
  · rename_i herr
    rw [if_neg herr]
    have hkind : (if s.slot.frames.length = 0 then .topLevel else .hostReentry) =
        entryKind s.slot := rfl
    dsimp only at hentered ⊢
    rw [hkind] at hentered ⊢
    rcases enterCall_cases s.slot inst funcIndex code args with ⟨e', f, hok, hin⟩ | ⟨err, herr⟩
    · rw [hok]
      exact ⟨_, f, rfl, rfl, rfl, hin⟩
    · rw [herr] at hentered
      nomatch hs.symm.trans hentered

/-- **The stack bound.**  In every reachable state: before every op, what is accounted under the
topmost frame is below the limit; the re-entries accounted are those on the stacks, no fewer than
the calls nested on the native stack but one; and frames and re-entries are bounded by the limit
alone.  A plain call whose frame would break the bound leaves the loop with a stack overflow and
no frame laid, and so does a call from outside at the head of its run, before any op of it. -/
theorem stack_bound (cs : List (Choice σ)) (st : StoreState σ) :
    let s := Runs.run I.machine cs (State.idle st)
    (∀ d ds r, s.guest = true → s.drives = d :: ds → d.pc = .loop r →
      d.exec.belowTop.footprint I.frameSize < I.maxWasmStack) ∧
    s.current.hostReentryDepth = reentries s.current.frames ∧
    s.drives.length ≤ reentries s.current.frames + 1 ∧
    s.current.frames.length * I.frameSize + reentries s.current.frames * hostReentryReserve <
      I.maxWasmStack + 3 * I.frameSize + hostReentryReserve ∧
    (∀ (st : StoreState σ) (e e' : Execution) (r : Regs) (stopDepth countdown : ℕ) (req : CallReq),
      e.pushCall req.inst req.funcIndex req.code = .ok e' →
      I.maxWasmStack ≤ e'.belowTop.footprint I.frameSize →
      ∃ err, I.Overflows e err ∧ I.carryOut st e r stopDepth countdown (.doCall req) =
        (st, e, countdown, .leave (.error err))) ∧
    ∀ inst funcIndex code args resultTys isAsync d ds,
      let s' := (I.machine (.call inst funcIndex code args resultTys isAsync) s).1
      s.guest = false → s'.guest = true → s'.drives = d :: ds →
      I.maxWasmStack ≤ d.exec.belowTop.footprint I.frameSize →
      ∃ err d', I.Overflows d.exec err ∧ (I.machine .go s').1.drives = d' :: ds ∧
        d'.exec = d.exec ∧ d'.pc = .done (.error err) := by
  intro s
  obtain ⟨ha, hb⟩ := State.Bounded.reachable (I := I) cs st
  refine ⟨fun d ds r => State.Bounded.belowTop_lt ha hb, ha.depth rfl, State.Bounded.drives_le ha,
    ?_, fun st e e' r stopDepth countdown req => I.carryOut_overflows st r stopDepth countdown, ?_⟩
  · have hnear := hb.near
    unfold Near at hnear
    rw [show crossings s.current.outline = reentries s.current.frames from (reentries_eq _).symm,
      show s.current.outline.length = s.current.frames.length from List.length_map _] at hnear
    exact hnear
  · intro inst funcIndex code args resultTys isAsync d ds s' hhost hentered hdrives hbreak
    have hcall : s' = enter s inst funcIndex code args resultTys isAsync := by
      simp only [s', machine, stepWith, hhost]
      rfl
    rw [hcall] at hentered hdrives
    obtain ⟨d', f, hd', hpc, hboundary, hin⟩ := enter_inside hentered hhost
    obtain ⟨rfl, -⟩ := List.cons.inj (hdrives.symm.trans hd')
    obtain ⟨err, hover, hhead⟩ := I.runHead_overflows hboundary hin hbreak
    refine ⟨err, { d with pc := .done (.error err), countdown := gcCheckInterval }, hover, ?_, rfl,
      rfl⟩
    have hgo : I.machine .go s' = I.guestStep false s' d ds := by
      simp only [machine, stepWith, hcall, hentered, hdrives]
    rw [hgo, guestStep]
    simp only [hpc, hhead]
    rfl

/-- A function that calls the host, which calls it again. -/
def pingPong : List (Choice Unit) :=
  [.call 0 0 (.ofOps [.call (.func 0)]) [] [] false, .go, .go,
    .call 0 0 (.ofOps [.call (.func 0)]) [] [] false]

/-- The first call runs, the second would break the bound. -/
theorem stack_bound_pingPong :
    (Runs.run (idle 130 false false).machine (pingPong.take 2)
      (.idle (StoreState.new ()))).current.belowTop.footprint 64 < 130 ∧
    ∃ err d' ds,
      (idle 130 false false).Overflows (Runs.run (idle 130 false false).machine pingPong
        (.idle (StoreState.new ()))).current err ∧
      (Runs.run (idle 130 false false).machine (pingPong ++ [.go])
        (.idle (StoreState.new ()))).drives = d' :: ds ∧ d'.pc = .done (.error err) := by
  have hfirst := (stack_bound (idle 130 false false) (pingPong.take 2) (StoreState.new ())).1
  have hsecond := (stack_bound (idle 130 false false) (pingPong.take 3)
    (StoreState.new ())).2.2.2.2.2 0 0 (.ofOps [.call (.func 0)]) [] [] false
  have hstep : ((idle 130 false false).machine (.call 0 0 (.ofOps [.call (.func 0)]) [] [] false)
      (Runs.run (idle 130 false false).machine (pingPong.take 3)
        (.idle (StoreState.new ())))).1 =
      Runs.run (idle 130 false false).machine pingPong (.idle (StoreState.new ())) := rfl
  have hhost : (Runs.run (idle 130 false false).machine (pingPong.take 3)
      (.idle (StoreState.new ()))).guest = false := by decide
  have hguest : (Runs.run (idle 130 false false).machine pingPong
      (.idle (StoreState.new ()))).guest = true := by decide
  have hlength : (Runs.run (idle 130 false false).machine pingPong
      (.idle (StoreState.new ()))).drives.length = 2 := by decide
  have hdepth : (Runs.run (idle 130 false false).machine pingPong
      (.idle (StoreState.new ()))).current.belowTop.hostReentryDepth = 1 := by decide
  refine ⟨hfirst _ _ _ rfl rfl rfl, ?_⟩
  rw [Runs.run_append]
  rw [hstep] at hsecond
  generalize Runs.run (idle 130 false false).machine pingPong (.idle (StoreState.new ())) = u
    at hsecond hguest hlength hdepth ⊢
  obtain ⟨d, ds, hd⟩ : ∃ d ds, u.drives = d :: ds :=
    List.exists_cons_of_ne_nil (List.ne_nil_of_length_pos (by omega))
  have hcurrent : u.current = d.exec := by
    unfold State.current
    rw [hd, hguest]
  rw [hcurrent] at hdepth ⊢
  have hbreak : 130 ≤ d.exec.belowTop.footprint 64 := by
    unfold footprint
    rw [hdepth]
    show 130 ≤ _ + 1 * 4096
    omega
  obtain ⟨err, d', hover, hdrives, -, hpc⟩ := hsecond d ds hhost hguest hd hbreak
  exact ⟨err, d', ds, hover, hdrives, hpc⟩

end Interp

end SubmilliWasm
