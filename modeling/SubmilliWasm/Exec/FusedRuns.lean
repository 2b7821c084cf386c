/-
# Runs of fused branches

The loop is run on a function with fused branches and on the same function with the branches
written out.  Where the one takes a turn the other takes one as well, or the two turns of a
comparison and its branch, and the states stay the same up to the code of the frames and the ips
(`follow_apart`).  So both leave the loop in the same state, with the same result or trap
(`fusion_preserves`).  The gates in front of an op are off: a fused branch passes them once, the
two ops twice.
-/
import SubmilliWasm.Exec.Allocating
import SubmilliWasm.Exec.Fused
import SubmilliWasm.Exec.Sites

namespace SubmilliWasm

open Handler

variable {σ : Type}

/-! ## A fused branch and its two ops -/

namespace Execution

variable {e e' : Execution}

/-- What is left is above the floor of the frame. -/
theorem popN_ready {n : ℕ} {accept : List Operand → Option ExecError} {os : List Operand}
    (h : e.popN n accept = .ok (os, e')) : e'.Ready := by
  obtain ⟨base, hbase, -, -, rfl⟩ := popN_ok h
  obtain ⟨hlock, hsum⟩ := ensureOperands_ok_cases hbase
  have hlen : (e.truncate base).values.length = base := by
    show (e.values.take base).length = base
    rw [List.length_take]
    omega
  constructor
  · rw [hlen]
    show base = (e.shadow.take base).length
    rw [List.length_take]
    omega
  · unfold ensureOperands at hbase
    rw [if_neg (not_not.mpr hlock)] at hbase
    rcases hframes : e.frames with _ | ⟨f, fs⟩
    · rw [hframes] at hbase
      cases hbase
    · rw [hframes] at hbase
      refine ⟨f, fs, hframes, ?_⟩
      rw [hlen]
      dsimp only at hbase
      split at hbase
      · cases hbase
      · split at hbase
        · cases hbase
        · omega

/-- Operands that are missing are no exception. -/
theorem popN_scalars_error {n : ℕ} {err : ExecError} (h : e.popN n scalars = .error err)
    (exn : ℕ) : err ≠ .pending exn := by
  rintro rfl
  unfold popN ensureOperands at h
  split at h
  · rename_i hensure
    split at hensure
    · cases h
      cases hensure
    · split at hensure
      · cases h
        cases hensure
      · split at hensure
        · cases h
          cases hensure
        · split at hensure
          · cases h
            cases hensure
          · cases hensure
  · split at h
    · rename_i haccept
      cases h
      unfold scalars at haccept
      split at haccept
      · cases haccept
      · cases haccept
    · cases h

theorem takeBranch_error {t : BranchTarget} {err : ExecError} (h : e.takeBranch t = .error err)
    (exn : ℕ) : err ≠ .pending exn := by
  rintro rfl
  unfold takeBranch at h
  split at h
  · cases h
  · split at h
    · cases h
    · split at h
      · cases h
      · cases h

end Execution

/-- Operands that are there are popped. -/
theorem Handler.run_pop_ok {e e' : Execution} {n : ℕ} {accept : List Operand → Option ExecError}
    {os : List Operand} (h : e.popN n accept = .ok (os, e')) (k : List Operand → Handler σ)
    (base : ℕ) (s : σ) : (Handler.pop n accept k).run base e s = (k os).run base e' s := by
  rw [Handler.run, h]

theorem Handler.run_pop_error {e : Execution} {n : ℕ} {accept : List Operand → Option ExecError}
    {err : ExecError} (h : e.popN n accept = .error err) (k : List Operand → Handler σ) (base : ℕ)
    (s : σ) : (Handler.pop n accept k).run base e s = (e, s, .error err) := by
  rw [Handler.run, h]

namespace Straight

variable (S : Straight σ)

/-- How a branch on a comparison goes on. -/
def branchOn (taken : Bool) (t : BranchTarget) (next : ℕ) : Handler σ :=
  if taken then .jump t else .done (.ok (.advance next))

variable {e : Execution}

theorem brIfCmp_error {err : ExecError} (h : e.popN 2 scalars = .error err) (code : CompiledFunc)
    (kind : CmpKind) (negate : Bool) (t : BranchTarget) (next inst base : ℕ) (s : σ) :
    (S.step code (.brIfCmp kind negate t) next inst).run base e s = (e, s, .error err) :=
  run_pop_error h _ base s

theorem brIfCmp_ok {e' : Execution} {a b : Operand} (h : e.popN 2 scalars = .ok ([a, b], e'))
    (code : CompiledFunc) (kind : CmpKind) (negate : Bool) (t : BranchTarget) (next inst base : ℕ)
    (s : σ) :
    (S.step code (.brIfCmp kind negate t) next inst).run base e s
      = (branchOn (i32Relop kind a.cell.unwrapI32 b.cell.unwrapI32 != negate) t next).run base e'
        s := by
  refine (run_pop_ok h _ base s).trans ?_
  show (if (cmpI32 kind a.cell.unwrapI32 b.cell.unwrapI32 != negate) = true then _ else _ :
    Handler σ).run base e' s = _
  rw [cmpI32_eq]
  rfl

theorem relop_error {err : ExecError} (h : e.popN 2 scalars = .error err) (code : CompiledFunc)
    (kind : CmpKind) (next inst base : ℕ) (s : σ) :
    (S.step code (.plain (.relop kind)) next inst).run base e s = (e, s, .error err) := by
  show (S.plain (.relop kind) inst next).run base e s = _
  rw [S.plain_relop]
  exact run_pop_error h _ base s

/-- The comparison leaves its result, -/
theorem relop_ok {e' : Execution} {a b : Operand} (h : e.popN 2 scalars = .ok ([a, b], e'))
    (code : CompiledFunc) (kind : CmpKind) (next inst base : ℕ) (s : σ) :
    (S.step code (.plain (.relop kind)) next inst).run base e s
      = (e'.push (boolCell (i32Relop kind a.cell.unwrapI32 b.cell.unwrapI32)), s,
        .ok (.advance next)) := by
  show (S.plain (.relop kind) inst next).run base e s = _
  rw [S.plain_relop]
  exact run_pop_ok h _ base s

/-- and the branch takes it off again. -/
theorem branch_run (I : Interp σ) (he : e.Ready) (code : CompiledFunc) (b negate : Bool)
    (t : BranchTarget) (next inst base : ℕ) (s : σ) :
    (I.step code (if negate then .brIfNot t else .brIf t) next inst).run base
        (e.push (boolCell b)) s
      = (branchOn (b != negate) t next).run base e s := by
  have hscalar : scalars [boolCell b] = none := rfl
  cases negate with
  | false =>
    show (pop1 scalars fun o =>
      if o.cell.unwrapI32 ≠ 0 then .jump t else .done (.ok (.advance next)) :
      Handler σ).run base (e.push (boolCell b)) s = _
    rw [run_pop1 he hscalar]
    cases b with
    | false => rfl
    | true => rfl
  | true =>
    show (pop1 scalars fun o =>
      if o.cell.unwrapI32 = 0 then .jump t else .done (.ok (.advance next)) :
      Handler σ).run base (e.push (boolCell b)) s = _
    rw [run_pop1 he hscalar]
    cases b with
    | false => rfl
    | true => rfl

/-- A branch goes on in the frame it is in; it fails with no exception. -/
theorem branchOn_cases (taken : Bool) (t : BranchTarget) (next base : ℕ) (e : Execution) (s : σ) :
    (∃ err, (∀ exn, err ≠ .pending exn) ∧
      (branchOn taken t next : Handler σ).run base e s = (e, s, .error err)) ∨
    ∃ e' ip, e'.frames = e.frames ∧
      (branchOn taken t next : Handler σ).run base e s = (e', s, .ok (.advance ip)) := by
  cases taken with
  | false => exact Or.inr ⟨e, next, rfl, rfl⟩
  | true =>
    show (∃ err, _ ∧ (Handler.branch t _).run base e s = _) ∨
      ∃ e' ip, _ ∧ (Handler.branch t _).run base e s = _
    have hframes := (Handler.jump t : Handler σ).run_frames base e s
    unfold Handler.jump Handler.run at hframes
    unfold Handler.run
    rcases hbranch : e.takeBranch t with err | e'
    · exact Or.inl ⟨err, Execution.takeBranch_error hbranch, rfl⟩
    · rw [hbranch] at hframes
      exact Or.inr ⟨e', t.ip, hframes, rfl⟩

/-! ## Turns -/

end Straight

/-- The states of the two loops: the same up to the code and the ips. -/
structure Turned.Apart (t u : Turned σ) : Prop where
  st : u.st = t.st
  exec : u.exec = t.exec.apart
  countdown : u.countdown = t.countdown
  next : u.next = t.next.apart

namespace Interp

variable {I : Interp σ} {e e' : Execution} {r : Regs} {op : Op} {s : σ}

/-- An op that goes on leaves the loop in its frame. -/
theorem execute_advanced (st : StoreState σ) (stopDepth k : ℕ) {ip : ℕ}
    (h : (I.step r.code op (r.ip + 1) r.inst).run r.base e st.rest = (e', s, .ok (.advance ip))) :
    I.execute st e r stopDepth k op = ⟨{ st with rest := s }, e', k, .loop { r with ip := ip },
      ⟨I.consumeFuel, some op, false⟩⟩ := by
  unfold execute
  rw [h]
  rfl

/-- An op that fails with no exception leaves the loop. -/
theorem execute_failed (st : StoreState σ) (stopDepth k : ℕ) {err : ExecError}
    (h : (I.step r.code op (r.ip + 1) r.inst).run r.base e st.rest = (e', s, .error err))
    (herr : ∀ exn, err ≠ .pending exn) :
    I.execute st e r stopDepth k op = ⟨{ st with rest := s }, e', k, .leave (.error err),
      ⟨I.consumeFuel, some op, false⟩⟩ := by
  have hunwind : I.unwind s e' err r.ip stopDepth = (e', .error err) := by
    unfold unwind
    split
    · rename_i exn
      exact absurd rfl (herr exn)
    · rfl
  unfold execute
  rw [h]
  dsimp only
  rw [hunwind]

end Interp

namespace Straight

variable (S : Straight σ)

/-- The engine without gates in front of an op. -/
def ungated : Straight σ := { S with consumeFuel := false, epochInterruption := false }

variable {r : Regs}

/-- A turn on an op, past the gates there are not. -/
theorem ungated_turn {op : Op} (st : StoreState σ) (e : Execution) (h : r.code.ops[r.ip]? = some op)
    (stopDepth k : ℕ) :
    S.ungated.turn st e r stopDepth k = S.ungated.execute st e r stopDepth k op := by
  unfold Interp.turn
  rw [h]
  rfl

theorem ungated_apart_turn {op : Op} (st : StoreState σ) (e : Execution)
    (h : r.code.ops[r.ip]? = some op) (stopDepth k : ℕ) :
    S.ungated.apart.turn st e r stopDepth k = S.ungated.apart.execute st e r stopDepth k op := by
  unfold Interp.turn
  rw [h]
  rfl

variable {S}

/-- The op at an ip ends the same way in both codes. -/
theorem execute_apart (st : StoreState σ) {e : Execution} {f : Frame} {op op' : Op}
    (hf : e.frames.head? = some f) (hcode : f.code = r.code) {stopDepth : ℕ}
    (hw : ∀ g ∈ callers e.frames stopDepth, g.Sited) (k : ℕ)
    (hstep : (S.step r.code op (r.ip + 1) r.inst).Apart r.code
      (S.apart.step r.code.apart op' (apartIp r.code.ops r.ip + 1) r.inst)) :
    Turned.Apart (S.execute st e r stopDepth k op)
      (S.apart.execute st e.apart r.apart stopDepth k op') := by
  have hrun := hstep r.base e st.rest
  have hframes := (S.step r.code op (r.ip + 1) r.inst).run_frames r.base e st.rest
  have hregs : (S.apart.step r.apart.code op' (r.apart.ip + 1) r.apart.inst).run r.apart.base
      e.apart st.rest = (S.apart.step r.code.apart op' (apartIp r.code.ops r.ip + 1) r.inst).run
        r.base e.apart st.rest := rfl
  unfold Interp.execute
  rw [hregs, hrun]
  generalize (S.step r.code op (r.ip + 1) r.inst).run r.base e st.rest = result at hframes ⊢
  obtain ⟨e', s, err | out⟩ := result
  · have hframes' : e'.frames = e.frames := hframes
    have hunwind := S.unwind_apart s (e := e') (hframes' ▸ hf) (hframes' ▸ hw) err r.ip
    rw [hcode] at hunwind
    dsimp only [Except.map]
    rw [show r.apart.ip = apartIp r.code.ops r.ip from rfl, hunwind]
    rcases S.unwind s e' err r.ip stopDepth with ⟨e'', err' | u⟩
    · exact ⟨rfl, rfl, rfl, rfl⟩
    · exact ⟨rfl, rfl, rfl, reload_apart e''⟩
  · have hframes' : e'.frames = e.frames := hframes
    have hcarry := S.carryOut_apart { st with rest := s } (e := e')
      (hframes' ▸ hf) hcode stopDepth k
      out
    dsimp only [Except.map]
    rw [hcarry]
    exact ⟨rfl, rfl, rfl, rfl⟩

/-- An op that is no fused branch, or the end of the function, takes one turn. -/
theorem turn_single (st : StoreState σ) {e : Execution} {f : Frame} (hf : e.frames.head? = some f)
    (hcode : f.code = r.code) {stopDepth : ℕ} (hw : ∀ g ∈ callers e.frames stopDepth, g.Sited)
    (k : ℕ) (hone : ∀ op, r.code.ops[r.ip]? = some op → op.apart = [op]) :
    Turned.Apart (S.ungated.turn st e r stopDepth k)
      (S.ungated.apart.turn st e.apart r.apart stopDepth k) := by
  rcases hop : r.code.ops[r.ip]? with _ | op
  · have hend : r.apart.code.ops[r.apart.ip]? = none :=
      writeOut_of_none (apartIp r.code.ops) hop (le_refl _)
    unfold Interp.turn
    rw [hop, hend]
    have hresults : r.apart.code.nResults = r.code.nResults := rfl
    rw [hresults, e.doReturn_apart]
    rcases e.doReturn r.code.nResults stopDepth false with err | ⟨e', finished⟩
    · exact ⟨rfl, rfl, rfl, rfl⟩
    · cases finished with
      | true => exact ⟨rfl, rfl, rfl, rfl⟩
      | false => exact ⟨rfl, rfl, rfl, reload_apart e'⟩
  · have hop1 := hone op hop
    have hnext : apartIp r.code.ops (r.ip + 1) = apartIp r.code.ops r.ip + 1 := by
      rw [apartIp_succ hop, hop1]
      rfl
    have hop' : r.apart.code.ops[r.apart.ip]? = some (op.mapIp (apartIp r.code.ops)) := by
      have hat := writeOut_at (apartIp r.code.ops) hop op.apart_length_pos
      rw [Nat.add_zero] at hat
      refine hat.trans ?_
      cases op with
      | brIfCmp kind negate t => cases hop1
      | _ => rfl
    rw [S.ungated_turn st e hop, S.ungated_apart_turn st e.apart hop']
    have hstep := S.ungated.step_apart r.inst hop1 hnext
    rw [hnext] at hstep
    exact execute_apart st hf hcode hw k hstep

/-- **A fused branch does what its two ops do**: the trap of the comparison, or the comparison and
then the branch.  -/
theorem execute_pair (st : StoreState σ) (e : Execution) {kind : CmpKind} {negate : Bool}
    {t : BranchTarget} (hop : r.code.ops[r.ip]? = some (.brIfCmp kind negate t)) (stopDepth k : ℕ) :
    Turned.Apart (S.execute st e r stopDepth k (.brIfCmp kind negate t))
        (S.apart.execute st e.apart r.apart stopDepth k (.plain (.relop kind))) ∨
      ∃ u r', S.apart.execute st e.apart r.apart stopDepth k (.plain (.relop kind)) = u ∧
        u.next = .loop r' ∧ r' = { r.apart with ip := apartIp r.code.ops r.ip + 1 } ∧
        Turned.Apart (S.execute st e r stopDepth k (.brIfCmp kind negate t))
          (S.apart.execute u.st u.exec r' stopDepth u.countdown
            ((Op.brIfCmp kind negate t).mapIp (apartIp r.code.ops)).branch) := by
  set ops := r.code.ops with hops
  set t' := t.mapIp (apartIp ops) with ht'
  have hnext : apartIp ops (r.ip + 1) = apartIp ops r.ip + 2 := apartIp_succ hop
  rcases hpop : e.popN 2 scalars with err | ⟨os, e'⟩
  · -- neither op runs
    have hpop' : e.apart.popN 2 scalars = .error err := by
      rw [e.popN_apart, hpop]
      rfl
    have herr := Execution.popN_scalars_error hpop
    have hfused := S.brIfCmp_error hpop r.code kind negate t (r.ip + 1) r.inst r.base st.rest
    have hkept : (S.apart.step r.apart.code (.plain (.relop kind)) (r.apart.ip + 1)
        r.apart.inst).run r.apart.base e.apart st.rest = (e.apart, st.rest, .error err) :=
      S.relop_error hpop' r.code.apart kind (apartIp ops r.ip + 1) r.inst r.base st.rest
    left
    rw [Interp.execute_failed st stopDepth k hfused herr,
      Interp.execute_failed st stopDepth k hkept herr]
    exact ⟨rfl, rfl, rfl, rfl⟩
  · obtain ⟨a, b, rfl⟩ : ∃ a b, os = [a, b] := List.length_eq_two.mp (Execution.popN_length hpop)
    have hpop' : e.apart.popN 2 scalars = .ok ([a, b], e'.apart) := by
      rw [e.popN_apart, hpop]
      rfl
    set held := i32Relop kind a.cell.unwrapI32 b.cell.unwrapI32 with hheld
    let between : Regs := { r.apart with ip := apartIp ops r.ip + 1 }
    have hfused := S.brIfCmp_ok hpop r.code kind negate t (r.ip + 1) r.inst r.base st.rest
    have hkept : (S.apart.step r.apart.code (.plain (.relop kind)) (r.apart.ip + 1)
        r.apart.inst).run r.apart.base e.apart st.rest
          = (e'.apart.push (boolCell held), st.rest, .ok (.advance between.ip)) :=
      S.relop_ok hpop' r.code.apart kind (apartIp ops r.ip + 1) r.inst r.base st.rest
    have hmoved : (branchOn (held != negate) t' (apartIp ops (r.ip + 1)) : Handler σ)
        = (branchOn (held != negate) t (r.ip + 1)).moved (apartIp ops)
          (StepOutcome.apart r.code) := by
      unfold branchOn
      rw [Handler.moved_ite]
      rfl
    have hsecond : (S.apart.step between.code (if negate then .brIfNot t' else .brIf t')
        (between.ip + 1) between.inst).run between.base (e'.apart.push (boolCell held)) st.rest
          = ((branchOn (held != negate) t (r.ip + 1)).moved (apartIp ops)
            (StepOutcome.apart r.code)).run r.base e'.apart st.rest := by
      rw [← hmoved, hnext]
      exact branch_run S.apart (Execution.popN_ready hpop') r.code.apart held negate t' _ r.inst
        r.base st.rest
    rw [Handler.run_moved, Handler.run_apart] at hsecond
    right
    refine ⟨_, between, Interp.execute_advanced st stopDepth k hkept, rfl, rfl, ?_⟩
    show Turned.Apart _ (S.apart.execute _ _ _ _ _ (if negate then .brIfNot t' else .brIf t'))
    rcases branchOn_cases (held != negate) t (r.ip + 1) r.base e' st.rest with
      ⟨err, herr, hrun⟩ | ⟨e'', ip, -, hrun⟩
    · rw [hrun] at hfused hsecond
      rw [Interp.execute_failed st stopDepth k hfused herr,
        Interp.execute_failed st stopDepth k hsecond herr]
      exact ⟨rfl, rfl, rfl, rfl⟩
    · rw [hrun] at hfused hsecond
      rw [Interp.execute_advanced st stopDepth k hfused,
        Interp.execute_advanced st stopDepth k hsecond]
      exact ⟨rfl, rfl, rfl, rfl⟩

/-- In the loop, a fused branch takes one turn or the turns of its two ops. -/
theorem turn_pair (st : StoreState σ) (e : Execution) {kind : CmpKind} {negate : Bool}
    {t : BranchTarget} (hop : r.code.ops[r.ip]? = some (.brIfCmp kind negate t)) (stopDepth k : ℕ) :
    Turned.Apart (S.ungated.turn st e r stopDepth k)
        (S.ungated.apart.turn st e.apart r.apart stopDepth k) ∨
      ∃ u r', S.ungated.apart.turn st e.apart r.apart stopDepth k = u ∧ u.next = .loop r' ∧
        Turned.Apart (S.ungated.turn st e r stopDepth k)
          (S.ungated.apart.turn u.st u.exec r' stopDepth u.countdown) := by
  have hcmp : r.apart.code.ops[r.apart.ip]? = some (.plain (.relop kind)) :=
    writeOut_at (apartIp r.code.ops) hop (i := 0) Nat.two_pos
  have hbranch : r.code.apart.ops[apartIp r.code.ops r.ip + 1]?
      = some ((Op.brIfCmp kind negate t).mapIp (apartIp r.code.ops)).branch :=
    writeOut_at (apartIp r.code.ops) hop (i := 1) Nat.one_lt_two
  rw [S.ungated_turn st e hop, S.ungated_apart_turn st e.apart hcmp]
  rcases S.ungated.execute_pair st e hop stopDepth k with happ | ⟨u, r', hu, hnext, rfl, happ⟩
  · exact Or.inl happ
  · refine Or.inr ⟨u, _, hu, hnext, ?_⟩
    rw [S.ungated_apart_turn _ _ hbranch]
    exact happ

end Straight

/-! ## The frames that wait -/

theorem Handler.Ends.of_moved {P : StepOutcome → Prop} {g : StepOutcome → StepOutcome}
    (hg : ∀ out, P (g out)) (f : ℕ → ℕ) (H : Handler σ) : (H.moved f g).Ends P := by
  induction H with
  | done r =>
    cases r with
    | error err => exact trivial
    | ok out => exact hg out
  | get k ih => exact ih
  | set s k ih => exact ih
  | look k ih => exact ih
  | pop n accept k ih => exact ih
  | push o k ih => exact ih
  | getLocal i k ih => exact ih
  | setLocal i o k ih => exact ih
  | branch t k ih => exact ih

/-- A straight-line op calls nothing. -/
theorem Handler.Placeless.returns {H : ℕ → Handler σ} (h : Handler.Placeless H) (next ip : ℕ) :
    (H next).Ends (StepOutcome.ReturnsTo ip) := by
  obtain ⟨K, hK⟩ := h
  rw [hK]
  refine .of_moved (fun out => ?_) id K
  cases out <;> exact trivial

theorem mem_callers_of_cut {frames frames' : List Frame} (h : Cut frames frames') {stopDepth : ℕ}
    {g : Frame} (hg : g ∈ callers frames' stopDepth) : g ∈ callers frames stopDepth := by
  obtain ⟨pre, hpre⟩ := h.1
  have hlen : frames.tail.length = pre.length + frames'.tail.length := by
    rw [← hpre, List.length_append]
  unfold callers at hg ⊢
  rcases Nat.lt_or_ge frames'.tail.length stopDepth with hlt | hge
  · rw [Nat.sub_eq_zero_of_le hlt.le, List.take_zero] at hg
    cases hg
  · rw [hlen, Nat.add_sub_assoc hge, ← hpre, List.take_length_add_append]
    exact List.mem_append_right pre hg

namespace Straight

variable (S : Straight σ)

/-- With nothing to trace. -/
def traced : Traced σ where
  toInterp := S.toInterp
  wasmBacktrace := false
  instanceModule _ := some 0
  registered := Traced.registered_first
  codeOffsets _ _ := none
  exnHasBacktrace _ _ := false
  plain_returns p inst next := (S.plain_placeless p inst).returns next next
  throwTag_returns tag inst ip := (S.throwTag_placeless tag inst).returns (ip + 1) (ip + 1)

variable {S}

/-- A fused branch lays no frame. -/
theorem fused_cut (st : StoreState σ) (e : Execution) {r : Regs} {kind : CmpKind} {negate : Bool}
    {t : BranchTarget} (hop : r.code.ops[r.ip]? = some (.brIfCmp kind negate t))
    (stopDepth k : ℕ) : Cut e.frames (S.ungated.turn st e r stopDepth k).exec.frames := by
  have hends : (S.step r.code (.brIfCmp kind negate t) (r.ip + 1) r.inst).Ends
      fun out => ∃ ip, out = .advance ip := by
    intro os
    dsimp only
    split
    · split
      · exact ⟨_, rfl⟩
      · exact ⟨_, rfl⟩
    · exact ⟨_, rfl⟩
  have hframes := (S.step r.code (.brIfCmp kind negate t) (r.ip + 1) r.inst).run_frames r.base e
    st.rest
  rw [S.ungated_turn st e hop]
  have hungated : S.ungated.step = S.step := rfl
  unfold Interp.execute
  rw [hungated]
  rcases hrun : (S.step r.code (.brIfCmp kind negate t) (r.ip + 1) r.inst).run r.base e st.rest with
    ⟨e', s, err | out⟩
  · rw [hrun] at hframes
    have hcut := S.ungated.unwind_cut s e' err r.ip stopDepth
    rw [show e'.frames = e.frames from hframes] at hcut
    exact hcut
  · rw [hrun] at hframes
    obtain ⟨ip, rfl⟩ := hends.run r.base hrun
    show Cut e.frames e'.frames
    rw [show e'.frames = e.frames from hframes]
    exact .refl _

/-- A frame that waits has called in its last op. -/
theorem turn_waiting (st : StoreState σ) {e : Execution} {r : Regs} {f : Frame} {fs : List Frame}
    (he : e.frames = f :: fs) (hcode : f.code = r.code) {stopDepth : ℕ}
    (hstop : stopDepth ≤ fs.length)
    (hw : ∀ g ∈ callers e.frames stopDepth, g.Sited) (k : ℕ) :
    ∀ g ∈ callers (S.ungated.turn st e r stopDepth k).exec.frames stopDepth, g.Sited := by
  by_cases hfused : ∃ kind negate t, r.code.ops[r.ip]? = some (.brIfCmp kind negate t)
  · obtain ⟨kind, negate, t, hop⟩ := hfused
    exact fun g hg => hw g (mem_callers_of_cut (fused_cut st e hop stopDepth k) hg)
  · have hnext : apartIp r.code.ops (r.ip + 1) = apartIp r.code.ops r.ip + 1 := by
      rcases hop : r.code.ops[r.ip]? with _ | op
      · exact apartIp_succ_of_none hop
      · rw [apartIp_succ hop]
        cases op with
        | brIfCmp kind negate t => exact absurd ⟨kind, negate, t, hop⟩ hfused
        | _ => rfl
    obtain ⟨n, hturns⟩ : ∃ n, Turns f fs r.ip (S.ungated.turn st e r stopDepth k).exec.frames n :=
      ⟨_, S.ungated.traced.turn_turns st he r stopDepth k⟩
    have hcallers : ∀ ip, callers ({ f with ip := ip } :: fs) stopDepth
      = callers e.frames stopDepth := by
      intro ip
      rw [he]
      rfl
    intro g hg
    generalize (S.ungated.turn st e r stopDepth k).exec.frames = frames at hturns hg
    cases hturns with
    | cut h hn => exact hw g (mem_callers_of_cut (he ▸ h) hg)
    | called hn =>
      rw [callers_cons hstop, hcallers] at hg
      rcases List.mem_cons.mp hg with rfl | hg
      · intro _
        show apartIp f.code.ops (r.ip + 1) = apartIp f.code.ops r.ip + 1
        rw [hcode]
        exact hnext
      · exact hw g hg
    | host hn => exact hw g (hcallers _ ▸ hg)
    | tailHost hn => exact hw g (mem_callers_of_cut (he ▸ .tail (f :: fs)) hg)
    | stopped => exact hw g (hcallers _ ▸ hg)

end Straight

/-! ## Runs of the loop -/

/-- A turn of the loop, or its check of the mailbox.  A loop that has been left, or has called a
host function, stays where it is. -/
def Interp.follow (I : Interp σ) (stopDepth : ℕ) (t : Turned σ) : Turned σ :=
  match t.next with
  | .loop r => I.turn t.st t.exec r stopDepth t.countdown
  | .poll r =>
    match I.serviceGcPressure t.st t.exec with
    | (st, .error err) => ⟨st, t.exec, t.countdown, .leave (.error err), .silent⟩
    | (st, .ok ()) => ⟨st, t.exec, t.countdown, .loop r, .silent⟩
  | _ => t

/-- A call of a wasm function from the host: its frames are laid, and the head of `run` finds them
within the budget. -/
def Interp.entered (I : Interp σ) (st : StoreState σ) (e : Execution) (inst funcIndex : ℕ)
    (code : CompiledFunc) (args : List Val) : Turned σ :=
  match e.enterCall (entryKind e) inst funcIndex code args with
  | (e', .error err) => ⟨st, e', Interp.gcCheckInterval, .leave (.error err), .silent⟩
  | (e', .ok ()) =>
    match e'.stackBytes I.frameSize with
    | .error err => ⟨st, e', Interp.gcCheckInterval, .leave (.error err), .silent⟩
    | .ok bytes =>
      if I.maxWasmStack ≤ bytes then
        ⟨st, e', Interp.gcCheckInterval, .leave (.error .stackOverflow), .silent⟩
      else ⟨st, e', Interp.gcCheckInterval, Interp.reload e', .silent⟩

/-- The loop has been left, or has called a host function. -/
def Turned.Stopped (t : Turned σ) : Prop :=
  match t.next with
  | .loop _ | .poll _ => False
  | _ => True

/-- Inside a call entered on `entry`, the frames that wait have called in their last op. -/
structure Turned.Within (entry : Execution) (t : Turned σ) : Prop where
  inside : ∃ inner, Inside entry inner t.exec ∧ t.next.Fits inner
  waiting : ∀ f ∈ callers t.exec.frames (entry.frames.length + 1), f.Sited

/-- A loop that goes on has a frame to run. -/
theorem Turned.Within.running {entry : Execution} {t : Turned σ} (h : Turned.Within entry t)
    {r : Regs}
    (hr : t.next = .loop r) : ∃ f fs inner, t.exec.frames = f :: fs ∧ f.code = r.code ∧
      entry.frames.length + 1 ≤ fs.length ∧ Inside entry inner t.exec ∧ RegsOf inner r := by
  obtain ⟨inner, hin, hfits⟩ := h.inside
  rw [hr] at hfits
  have hregs : RegsOf inner r := hfits
  obtain ⟨f, fs, rfl, hcode, -, -⟩ := hregs
  obtain ⟨d, hframes, -⟩ := hin.frames
  refine ⟨f, fs ++ d :: entry.frames, f :: fs, hframes, hcode.symm, ?_, hin, hfits⟩
  rw [List.length_append, List.length_cons]
  exact Nat.le_add_left _ _

namespace Straight

variable (S : Straight σ) {entry : Execution}

theorem follow_within {t : Turned σ} (h : Turned.Within entry t) :
    Turned.Within entry (S.ungated.follow (entry.frames.length + 1) t) := by
  unfold Interp.follow
  split
  · rename_i r hnext
    obtain ⟨f, fs, inner, he, hcode, hstop, hin, hregs⟩ := h.running hnext
    obtain ⟨inner', hin', hfits⟩ := hin.turn S.ungated.toInterp hregs t.st t.countdown
    exact ⟨⟨inner', hin', hfits⟩, turn_waiting t.st he hcode hstop h.waiting t.countdown⟩
  · rename_i r hnext
    obtain ⟨inner, hin, hfits⟩ := h.inside
    rw [hnext] at hfits
    split
    · exact ⟨⟨inner, hin, trivial⟩, h.waiting⟩
    · exact ⟨⟨inner, hin, hfits⟩, h.waiting⟩
  · exact h

/-- One turn of the code with fused branches is one or two of the code written out. -/
theorem follow_apart {t u : Turned σ} (h : Turned.Within entry t) (hu : Turned.Apart t u) :
    ∃ m, 1 ≤ m ∧ m ≤ 2 ∧ Turned.Apart (S.ungated.follow (entry.frames.length + 1) t)
      ((S.ungated.apart.follow (entry.frames.length + 1))^[m] u) := by
  obtain ⟨st', exec, countdown', next, mark⟩ := t
  obtain ⟨st, exec', countdown, next', mark'⟩ := u
  obtain ⟨hst, hexec, hcountdown, hnext⟩ := hu
  dsimp only at hst hexec hcountdown hnext
  subst hst hexec hcountdown hnext
  cases next with
  | loop r =>
    obtain ⟨f, fs, inner, he, hcode, hstop, -⟩ := h.running rfl
    have hf : exec.frames.head? = some f := by
      show exec.frames.head? = _
      rw [show exec.frames = f :: fs from he]
      rfl
    by_cases hfused : ∃ kind negate t, r.code.ops[r.ip]? = some (.brIfCmp kind negate t)
    · obtain ⟨kind, negate, t, hop⟩ := hfused
      rcases S.turn_pair st exec hop (entry.frames.length + 1) countdown with
        happ | ⟨v, r', hv, hnext, happ⟩
      · exact ⟨1, le_refl _, one_le_two, happ⟩
      · refine ⟨2, one_le_two, le_refl _, ?_⟩
        show Turned.Apart _ (S.ungated.apart.follow _ (S.ungated.apart.turn st exec.apart r.apart
          (entry.frames.length + 1) countdown))
        rw [hv]
        unfold Interp.follow
        rw [hnext]
        exact happ
    · refine ⟨1, le_refl _, one_le_two, turn_single st hf hcode h.waiting countdown ?_⟩
      intro op hop
      cases op with
      | brIfCmp kind negate t => exact absurd ⟨kind, negate, t, hop⟩ hfused
      | _ => rfl
  | poll r =>
    refine ⟨1, le_refl _, one_le_two, ?_⟩
    show Turned.Apart (match S.ungated.serviceGcPressure st exec with
      | (st, .error err) => _ | (st, .ok ()) => _)
      (match S.ungated.serviceGcPressure st exec with
      | (st, .error err) => _ | (st, .ok ()) => _)
    rcases S.ungated.serviceGcPressure st exec with ⟨st', err | u⟩
    · exact ⟨rfl, rfl, rfl, rfl⟩
    · exact ⟨rfl, rfl, rfl, rfl⟩
  | callback call => exact ⟨1, le_refl _, one_le_two, ⟨rfl, rfl, rfl, rfl⟩⟩
  | leave out => exact ⟨1, le_refl _, one_le_two, ⟨rfl, rfl, rfl, rfl⟩⟩

/-- So is a run. -/
theorem run_apart {t u : Turned σ} (h : Turned.Within entry t) (hu : Turned.Apart t u) (n : ℕ) :
    ∃ m, n ≤ m ∧ m ≤ 2 * n ∧ Turned.Apart ((S.ungated.follow (entry.frames.length + 1))^[n] t)
      ((S.ungated.apart.follow (entry.frames.length + 1))^[m] u) := by
  induction n generalizing t u with
  | zero => exact ⟨0, le_refl _, le_refl _, hu⟩
  | succ n ih =>
    obtain ⟨m, hm, hm', happ⟩ := S.follow_apart h hu
    obtain ⟨m', hn, hn', happ'⟩ := ih (S.follow_within h) happ
    refine ⟨m' + m, by omega, by omega, ?_⟩
    rw [Function.iterate_succ_apply, Function.iterate_add_apply]
    exact happ'

end Straight

/-! ## Entered calls -/

theorem Execution.enterCall_apart (e : Execution) (delim : Delimiter) (inst funcIndex : ℕ)
    (code : CompiledFunc) (args : List Val) :
    e.apart.enterCall delim inst funcIndex code.apart args
      = ((e.enterCall delim inst funcIndex code args).1.apart,
        (e.enterCall delim inst funcIndex code args).2) := by
  have hdelim : ∀ e : Execution, e.apart.pushDelimiter delim inst code.apart
      = (e.pushDelimiter delim inst code).map Execution.apart := by
    intro e
    have hframe : (⟨code.apart, 0, e.values.length, e.values.length, inst, 0, some delim⟩ : Frame)
        = Frame.apart ⟨code, 0, e.values.length, e.values.length, inst, 0, some delim⟩ := by
      unfold Frame.apart
      rw [apartIp_zero]
    unfold pushDelimiter
    dsimp only
    rw [e.apart_values, e.apart_shadow, hframe]
    split
    · rfl
    · split <;> rfl
  have hcut : ∀ (e : Execution) (n m : ℕ), e.apart.cutTo n m = (e.cutTo n m).apart := by
    intro e n m
    show Execution.mk (e.values.take n) (e.shadow.take n) (framesTo (e.frames.map Frame.apart) m) _
      = Execution.mk (e.values.take n) (e.shadow.take n) ((framesTo e.frames m).map Frame.apart) _
    unfold framesTo
    rw [List.length_map, List.map_drop]
    rfl
  unfold enterCall
  dsimp only
  rw [show e.apart.hostReentryDepth = e.hostReentryDepth from rfl]
  generalize (e.hostReentryDepth + if delim = .hostReentry then 1 else 0) = bumped
  by_cases hbumped : usizeMax < bumped
  · rw [if_pos hbumped, if_pos hbumped]
  · set e1 : Execution := ⟨e.values, e.shadow, e.frames, bumped⟩ with he1
    rw [if_neg hbumped, if_neg hbumped,
      show Execution.mk e.apart.values e.apart.shadow e.apart.frames bumped
        = e1.apart from rfl, hdelim]
    rcases e1.pushDelimiter delim inst code with err | e2
    · rfl
    · dsimp only [Except.map]
      rw [e2.pushAll_apart, pushCall_apart]
      rcases (e2.pushAll (args.map Operand.ofVal)).pushCall inst funcIndex code with err | e4
      · dsimp only [Except.map]
        rw [hcut, e.apart_frames_length]
        rfl
      · rfl

namespace Straight

variable (S : Straight σ)

theorem entered_apart (st : StoreState σ) (e : Execution) (inst funcIndex : ℕ)
    (code : CompiledFunc) (args : List Val) :
    Turned.Apart (S.ungated.entered st e inst funcIndex code args)
      (S.ungated.apart.entered st e.apart inst funcIndex code.apart args) := by
  have hkind : entryKind e.apart = entryKind e := by
    unfold entryKind
    rw [e.apart_frames_length]
  unfold Interp.entered
  rw [hkind, e.enterCall_apart]
  rcases e.enterCall (entryKind e) inst funcIndex code args with ⟨e', err | u⟩
  · exact ⟨rfl, rfl, rfl, rfl⟩
  · show Turned.Apart
      (match e'.stackBytes S.ungated.frameSize with | .error err => _ | .ok bytes => _)
      (match e'.apart.stackBytes S.ungated.frameSize with | .error err => _ | .ok bytes => _)
    rw [e'.stackBytes_apart]
    rcases e'.stackBytes S.ungated.frameSize with err | bytes
    · exact ⟨rfl, rfl, rfl, rfl⟩
    · show Turned.Apart (if S.ungated.maxWasmStack ≤ bytes then _ else _)
        (if S.ungated.maxWasmStack ≤ bytes then _ else _)
      split
      · exact ⟨rfl, rfl, rfl, rfl⟩
      · exact ⟨rfl, rfl, rfl, reload_apart e'⟩

end Straight

/-- A call has one frame of its own when it begins; where it is not entered, nothing is run. -/
theorem Interp.entered_within (I : Interp σ) (st : StoreState σ) (e : Execution)
    (inst funcIndex : ℕ) (code : CompiledFunc) (args : List Val) :
    (I.entered st e inst funcIndex code args).Within e ∨
      ∃ err, (I.entered st e inst funcIndex code args).next = .leave (.error err) := by
  unfold Interp.entered
  rcases enterCall_cases e inst funcIndex code args with ⟨e', f, he', hin⟩ | ⟨err, he'⟩
  · rw [he']
    left
    obtain ⟨d, hframes, -⟩ := hin.frames
    have hwaiting : ∀ g ∈ callers e'.frames (e.frames.length + 1), g.Sited := by
      intro g hg
      rw [hframes] at hg
      have hnone : callers ([f] ++ d :: e.frames) (e.frames.length + 1) = [] := by
        show (d :: e.frames).take ((d :: e.frames).length - (e.frames.length + 1)) = []
        rw [List.length_cons, Nat.sub_self, List.take_zero]
      rw [hnone] at hg
      cases hg
    dsimp only
    split
    · exact ⟨⟨[f], hin, trivial⟩, hwaiting⟩
    · split
      · exact ⟨⟨[f], hin, trivial⟩, hwaiting⟩
      · exact ⟨⟨[f], hin, hin.reload⟩, hwaiting⟩
  · rw [he']
    exact Or.inr ⟨err, rfl⟩

/-! ## Where a loop stops -/

theorem Interp.follow_stopped (I : Interp σ) {t : Turned σ} (h : t.Stopped) (stopDepth n : ℕ) :
    (I.follow stopDepth)^[n] t = t := by
  have hfix : I.follow stopDepth t = t := by
    unfold Interp.follow
    unfold Turned.Stopped at h
    split
    · rename_i hnext
      rw [hnext] at h
      exact h.elim
    · rename_i hnext
      rw [hnext] at h
      exact h.elim
    · rfl
  exact Function.iterate_fixed hfix n

namespace Straight

variable (S : Straight σ)

/-- The runs of a call stay together. -/
theorem call_apart (st : StoreState σ) (e : Execution) (inst funcIndex : ℕ) (code : CompiledFunc)
    (args : List Val) (n : ℕ) :
    ∃ m, n ≤ m ∧ m ≤ 2 * n ∧
      Turned.Apart
        ((S.ungated.follow (e.frames.length + 1))^[n]
          (S.ungated.entered st e inst funcIndex code args))
        ((S.ungated.apart.follow (e.frames.length + 1))^[m]
          (S.ungated.apart.entered st e.apart inst funcIndex code.apart args)) := by
  have happ := S.entered_apart st e inst funcIndex code args
  rcases S.ungated.entered_within st e inst funcIndex code args with hin | ⟨err, herr⟩
  · exact S.run_apart hin happ n
  · have hstop : (S.ungated.entered st e inst funcIndex code args).Stopped := by
      unfold Turned.Stopped
      rw [herr]
      exact trivial
    have hstop' : (S.ungated.apart.entered st e.apart inst funcIndex code.apart args).Stopped := by
      unfold Turned.Stopped
      rw [happ.next, herr]
      exact trivial
    refine ⟨n, le_refl _, by omega, ?_⟩
    rw [Interp.follow_stopped _ hstop, Interp.follow_stopped _ hstop']
    exact happ

/-- So both stop in the same state. -/
theorem call_stops (st : StoreState σ) (e : Execution) (inst funcIndex : ℕ) (code : CompiledFunc)
    (args : List Val) (n : ℕ) (h : ((S.ungated.apart.follow (e.frames.length + 1))^[n]
      (S.ungated.apart.entered st e.apart inst funcIndex code.apart args)).Stopped) :
    Turned.Apart
      ((S.ungated.follow (e.frames.length + 1))^[n]
        (S.ungated.entered st e inst funcIndex code args))
      ((S.ungated.apart.follow (e.frames.length + 1))^[n]
        (S.ungated.apart.entered st e.apart inst funcIndex code.apart args)) := by
  obtain ⟨m, hm, -, happ⟩ := S.call_apart st e inst funcIndex code args n
  obtain ⟨k, rfl⟩ := Nat.exists_eq_add_of_le' hm
  rw [Function.iterate_add_apply, Interp.follow_stopped _ h] at happ
  exact happ

end Straight

/-! ## Fusion keeps the meaning -/

/-- **Fusion keeps the meaning of a body.**  Without it the pass accepts the same bodies, and gives
the fused function written out: every fused branch is its comparison and its branch, the source
offsets are those of the same ops, and no position that is named lies between the two.  Past the
gates, a fused branch does what the two ops do, whatever the operands; and a call of the one
function reaches the states that the call of the other does, and stops where that one stops. -/
theorem fusion_preserves_meaning (S : Straight σ) (ctx : CompileCtx) (usedLocals typeIdx : ℕ)
    (locals : List (ℕ × IrVal)) (body : List (ℕ × Operator)) :
    translateApart ctx usedLocals typeIdx locals (body.map Prod.snd)
        = (translateFunction ctx usedLocals typeIdx locals (body.map Prod.snd)).map
            CompiledFunc.apart ∧
      ∀ code, translateFunction ctx usedLocals typeIdx locals (body.map Prod.snd) = .ok code →
        (∃ offsets offsets',
          sourceOffsets (fun t op => t.visit ctx op) ctx typeIdx body = .ok offsets ∧
          sourceOffsets (fun t op => Translator.visit ctx { t with fusableCmp := none } op) ctx
            typeIdx body = .ok offsets' ∧
          Translator.Aligned code.ops offsets offsets') ∧
        (∀ ip kind negate t, code.ops[ip]? = some (.brIfCmp kind negate t) →
          let ip' := apartIp code.ops ip
          let target := t.mapIp (apartIp code.ops)
          let branch := if negate then Op.brIfNot target else .brIf target
          code.apart.ops[ip']? = some (.plain (.relop kind)) ∧
          code.apart.ops[ip' + 1]? = some branch ∧
          ¬code.apart.Names (ip' + 1) ∧
          (∀ i, apartIp code.ops i ≠ ip' + 1) ∧
          ∀ (st : StoreState σ) (e : Execution) (base inst stopDepth k : ℕ),
            let fused := S.execute st e ⟨code, ip, base, inst⟩ stopDepth k (.brIfCmp kind negate t)
            let first := S.apart.execute st e.apart ⟨code.apart, ip', base, inst⟩ stopDepth k
              (.plain (.relop kind))
            fused.Apart first ∨
              first.next = .loop ⟨code.apart, ip' + 1, base, inst⟩ ∧
              fused.Apart (S.apart.execute first.st first.exec ⟨code.apart, ip' + 1, base, inst⟩
                stopDepth first.countdown branch)) ∧
        ∀ (st : StoreState σ) (e : Execution) (inst funcIndex : ℕ) (args : List Val) (n : ℕ),
          let run (n : ℕ) := (S.ungated.follow (e.frames.length + 1))^[n]
            (S.ungated.entered st e inst funcIndex code args)
          let runApart (n : ℕ) := (S.ungated.apart.follow (e.frames.length + 1))^[n]
            (S.ungated.apart.entered st e.apart inst funcIndex code.apart args)
          (∃ m, n ≤ m ∧ m ≤ 2 * n ∧ (run n).Apart (runApart m)) ∧
            ((runApart n).Stopped → (run n).Apart (runApart n)) := by
  refine ⟨translateApart_eq ctx usedLocals typeIdx locals (body.map Prod.snd), fun code hcode => ?_⟩
  refine ⟨sourceOffsets_aligned hcode, ?_, ?_⟩
  · intro ip kind negate t hop
    refine ⟨?_, ?_, CompiledFunc.not_names_between hop rfl, apartIp_ne_between hop rfl, ?_⟩
    · exact writeOut_at (apartIp code.ops) hop (i := 0) Nat.two_pos
    · exact writeOut_at (apartIp code.ops) hop (i := 1) Nat.one_lt_two
    · intro st e base inst stopDepth k
      rcases S.execute_pair st e (r := ⟨code, ip, base, inst⟩) hop stopDepth k with
        happ | ⟨u, r', rfl, hnext, rfl, happ⟩
      · exact Or.inl happ
      · exact Or.inr ⟨hnext, happ⟩
  · intro st e inst funcIndex args n
    exact ⟨S.call_apart st e inst funcIndex code args n,
      S.call_stops st e inst funcIndex code args n⟩

/-- A loop with the comparisons, and nothing else to do. -/
def Straight.idle : Straight Unit where
  toInterp :=
    { Interp.idle 1000000 false false with
      plain := fun p _ next => match p with
        | .relop kind => .relop kind next
        | _ => .done (.ok (.advance next)) }
  plain_placeless p inst := by
    by_cases hcmp : ∃ kind, p = .relop kind
    · obtain ⟨kind, rfl⟩ := hcmp
      refine ⟨.relop kind 0, fun next => congrArg (Handler.pop 2 scalars) (funext fun os => ?_)⟩
      rcases os with _ | ⟨a, _ | ⟨b, _ | ⟨c, os⟩⟩⟩ <;> rfl
    · refine ⟨.done (.ok (.advance 0)), fun next => ?_⟩
      cases p with
      | relop kind => exact absurd ⟨kind, rfl⟩ hcmp
      | _ => rfl
  throwTag_placeless _ _ := ⟨.done (.error .unreachable), fun _ => rfl⟩
  plain_relop _ _ _ := rfl

/-- `i32.const 1`, `i32.const 2`, `i32.lt_s`, `br_if 0` in a function without parameters. -/
def comparisonBody : List (ℕ × Operator) :=
  [(0, .plain (.i32Const 1)), (2, .plain (.i32Const 2)), (4, .plain (.relop .ltS)),
    (5, .cond (.brIf 0)), (7, .end_)]

def comparisonCtx : CompileCtx := ⟨[⟨0, .final, none, .func [] []⟩], [0], [], 100⟩

def comparison : CompiledFunc :=
  { CompiledFunc.ofOps [.plain (.i32Const 1), .plain (.i32Const 2), .brIfCmp .ltS false ⟨3, 0, 0⟩]
    with maxOperands := 2 }

/-- The branch of the comparison is op 3 where it is kept apart, and nothing names it. -/
theorem fusion_preserves_meaning_comparison :
    translateApart comparisonCtx 0 0 [] (comparisonBody.map Prod.snd) = .ok comparison.apart ∧
      comparison.apart.ops[3]? = some (.brIf ⟨4, 0, 0⟩) ∧ ¬comparison.apart.Names 3 := by
  have hcode : translateFunction comparisonCtx 0 0 [] (comparisonBody.map Prod.snd)
      = .ok comparison := rfl
  obtain ⟨heq, hall⟩ := fusion_preserves_meaning .idle comparisonCtx 0 0 [] comparisonBody
  obtain ⟨-, hpairs, -⟩ := hall comparison hcode
  obtain ⟨-, hbranch, hnames, -⟩ := hpairs 2 .ltS false ⟨3, 0, 0⟩ rfl
  rw [hcode] at heq
  exact ⟨heq, hbranch, hnames⟩

end SubmilliWasm
