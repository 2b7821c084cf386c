/-
# What a handler can reach

A straight-line handler runs over the operands of the innermost construct and the locals of its
frame.  The operands of the outer constructs and of the frames below are on the same stack, but a
handler that keeps to its operands never touches them: run on the whole stack it does what it does
on its window, and leaves the rest as it was (`run_stacked`).  Whether a handler keeps to its
operands can be read off its accesses (`Handler.Takes`).
-/
import SubmilliWasm.Exec.Step

namespace SubmilliWasm

variable {σ : Type}

/-! ## Stacks as lists of operands -/

/-- Takes the top `n` operands of a stack if they are accepted. -/
def takeTop (n : ℕ) (accept : List Operand → Option ExecError) (vals : List Operand) :
    Except ExecError (List Operand × List Operand) :=
  if vals.length < n then .error (.operandStack "operand stack underflow")
  else
    match accept (vals.drop (vals.length - n)) with
    | some err => .error err
    | none => .ok (vals.drop (vals.length - n), vals.take (vals.length - n))

/-- What is taken was on top. -/
theorem takeTop_ok {n : ℕ} {accept : List Operand → Option ExecError} {vals os vs : List Operand}
    (h : takeTop n accept vals = .ok (os, vs)) :
    vals = vs ++ os ∧ os.length = n ∧ accept os = none := by
  unfold takeTop at h
  split at h
  · cases h
  · split at h
    · cases h
    · rename_i hn haccept
      obtain ⟨rfl, rfl⟩ := Prod.mk.inj (Except.ok.inj h)
      refine ⟨(List.take_append_drop _ _).symm, ?_, haccept⟩
      rw [List.length_drop]
      omega

namespace Execution

/-- The stacks that hold the operands `os`, bottom first. -/
def stacked (frames : List Frame) (depth : ℕ) (os : List Operand) : Execution :=
  ⟨os.map Operand.cell, os.map Operand.tag, frames, depth⟩

variable {frames fs : List Frame} {f : Frame} {depth : ℕ} {os xs ys zs : List Operand}

theorem stacked_values : (stacked frames depth os).values = os.map Operand.cell := rfl

theorem stacked_shadow : (stacked frames depth os).shadow = os.map Operand.tag := rfl

theorem stacked_frames : (stacked frames depth os).frames = frames := rfl

variable (frames depth) in
theorem stacked_length : (stacked frames depth os).values.length = os.length :=
  List.length_map _

theorem stacked_level :
    (stacked frames depth os).values.length = (stacked frames depth os).shadow.length := by
  rw [stacked_values, stacked_shadow, List.length_map, List.length_map]

theorem pushAll_stacked : (stacked frames depth xs).pushAll os
    = stacked frames depth (xs ++ os) := by
  simp [stacked, pushAll]

theorem push_stacked {o : Operand} :
    (stacked frames depth xs).push o = stacked frames depth (xs ++ [o]) := pushAll_stacked

theorem truncate_stacked (n : ℕ) :
    (stacked frames depth os).truncate n = stacked frames depth (os.take n) := by
  simp [stacked, truncate, List.map_take]

theorem operandsFrom_stacked (base : ℕ) :
    (stacked frames depth os).operandsFrom base = os.drop base := by
  have hzip : ∀ l : List Operand,
      List.zipWith Operand.mk (l.map Operand.cell) (l.map Operand.tag) = l := by
    intro l
    induction l with
    | nil => rfl
    | cons o l ih =>
      rw [List.map_cons, List.map_cons, List.zipWith_cons_cons, ih]
  rw [operandsFrom, stacked_values, stacked_shadow, ← List.map_drop, ← List.map_drop, hzip]

/-- A frame takes its top operands off its own. -/
theorem popN_stacked (fs : List Frame) (depth : ℕ) {n : ℕ}
    (accept : List Operand → Option ExecError)
    (hfloor : f.operandBase ≤ xs.length) (hn : n ≤ ys.length) :
    (stacked (f :: fs) depth (xs ++ ys)).popN n accept
      = (takeTop n accept ys).map fun p => (p.1, stacked (f :: fs) depth (xs ++ p.2)) := by
  have hbase : (stacked (f :: fs) depth (xs ++ ys)).ensureOperands n
      = .ok (xs.length + (ys.length - n)) := by
    unfold ensureOperands
    rw [if_neg (not_not_intro stacked_level)]
    simp only [stacked_frames, stacked_length, List.length_append]
    rw [if_neg (by omega), if_neg (by omega), Nat.add_sub_assoc hn]
  rw [popN, hbase, takeTop, if_neg (by omega)]
  simp only [operandsFrom_stacked, truncate_stacked, List.drop_append, List.take_append,
    Nat.add_sub_cancel_left]
  rw [List.drop_eq_nil_of_le (by omega), List.take_of_length_le (by omega), List.nil_append]
  cases accept (ys.drop (ys.length - n)) <;> rfl

variable (frames depth xs ys) in
theorem cellAt_stacked (o : Operand) :
    (stacked frames depth (xs ++ o :: ys)).cellAt xs.length = .ok o := by
  unfold cellAt
  rw [if_neg (not_not_intro stacked_level)]
  simp [stacked]

variable (frames depth xs ys) in
theorem setCell_stacked (o o' : Operand) :
    (stacked frames depth (xs ++ o :: ys)).setCell xs.length o'
      = .ok (stacked frames depth (xs ++ o' :: ys)) := by
  unfold setCell
  rw [if_neg]
  · simp [stacked]
  · rw [stacked_length, List.length_append, List.length_cons]
    rintro (h | h)
    · rw [← stacked_length frames depth] at h
      simp [stacked] at h
    · omega

theorem slide_stacked (keep dst : ℕ) :
    (stacked frames depth os).slide keep dst
      = stacked frames depth (os.take dst ++ os.drop (os.length - keep)) := by
  simp [stacked, slide, List.map_take, List.map_drop]

/-- A branch drops what lies between the operands it carries and the height of its label. -/
theorem takeBranch_stacked {t : BranchTarget} (hfloor : f.operandBase = xs.length)
    (ht : t.keep + t.pop ≤ os.length) :
    (stacked (f :: fs) depth (xs ++ os)).takeBranch t
      = .ok (stacked (f :: fs) depth
          (xs ++ (os.take (os.length - t.keep - t.pop) ++ os.drop (os.length - t.keep)))) := by
  have hlen : (stacked (f :: fs) depth (xs ++ os)).values.length = xs.length + os.length := by
    rw [stacked_length, List.length_append]
  unfold takeBranch
  rw [if_neg (not_not_intro stacked_level), hlen]
  simp only [stacked_frames]
  rw [if_neg (by omega), slide_stacked, List.length_append, List.take_append, List.drop_append,
    List.take_of_length_le (by omega), List.drop_eq_nil_of_le (by omega), List.nil_append,
    List.append_assoc]
  congr 4
  · congr 1
    omega
  · congr 1
    omega

end Execution

/-! ## The window of a handler -/

/-- The locals of a frame and the operands of its innermost construct. -/
structure Window where
  locals : List Operand
  vals : List Operand
  deriving DecidableEq

namespace Handler

/-- Runs a handler on a window, with the operands `outer` below the locals and `below` under those
of the construct.  A branch is no straight-line access. -/
def on (outer below : List Operand) :
    Handler σ → Window → σ → Window × σ × Except ExecError StepOutcome
  | .done r, w, s => (w, s, r)
  | .get k, w, s => on outer below (k s) w s
  | .set s k, w, _ => on outer below k w s
  | .look k, w, s =>
    on outer below (k ((outer ++ w.locals ++ below ++ w.vals).map Operand.cell)
      ((outer ++ w.locals ++ below ++ w.vals).map Operand.tag)) w s
  | .pop n accept k, w, s =>
    match takeTop n accept w.vals with
    | .error err => (w, s, .error err)
    | .ok (os, vals) => on outer below (k os) { w with vals := vals } s
  | .push o k, w, s => on outer below k { w with vals := w.vals ++ [o] } s
  | .getLocal i k, w, s =>
    match w.locals[i]? with
    | none => (w, s, .error (.operandStack "local index out of bounds"))
    | some o => on outer below (k o) w s
  | .setLocal i o k, w, s =>
    if w.locals.length ≤ i then (w, s, .error (.operandStack "local index out of bounds"))
    else on outer below k { w with locals := w.locals.set i o } s
  | .branch _ _, w, s => (w, s, .error (.operandStack "branch stack fixup underflow"))

end Handler

/-- The number of its operands an op has when it decides so: `ins` before it starts, `outs` when it
goes on.  A growth pushes its result once it is made; a growth of the reservation runs the op
again. -/
def StepOutcome.Leaves (ins outs : ℕ) : StepOutcome → ℕ → Prop
  | .advance _, n => n = outs
  | .doGrow .., n | .doTableGrow .., n => n + 1 = outs
  | .doGcGrow .., n => n = ins
  | _, _ => False

/-- As `Leaves`, for an op that grows no memory and no table. -/
def StepOutcome.Ends (ins outs : ℕ) : StepOutcome → ℕ → Prop
  | .advance _, n => n = outs
  | .doGcGrow .., n => n = ins
  | _, _ => False

namespace Handler

/-- A handler that has `n` operands of its own pops no others and reaches `nl` locals; `P` holds of
what it decides and of the operands it then has. -/
def Takes (nl : ℕ) (P : StepOutcome → ℕ → Prop) : ℕ → Handler σ → Prop
  | n, .done r => ∀ out, r = .ok out → P out n
  | n, .get k => ∀ s, Takes nl P n (k s)
  | n, .set _ k => Takes nl P n k
  | n, .look k => ∀ values shadow, Takes nl P n (k values shadow)
  | n, .pop m _ k => m ≤ n ∧ ∀ os, os.length = m → Takes nl P (n - m) (k os)
  | n, .push _ k => Takes nl P (n + 1) k
  | n, .getLocal i k => i < nl ∧ ∀ o, Takes nl P n (k o)
  | n, .setLocal i _ k => i < nl ∧ Takes nl P n k
  | _, .branch _ _ => False

variable {nl n : ℕ} {P : StepOutcome → ℕ → Prop} {outer below : List Operand} {w : Window}

variable (outer below) in
/-- **The window of a handler.**  A handler that keeps to its operands does on the whole stack what
it does on its window: what lies below stays as it was. -/
theorem run_stacked {H : Handler σ} (h : H.Takes nl P n) (hl : w.locals.length = nl)
    (hn : n ≤ w.vals.length) {f : Frame} (hf : f.operandBase = outer.length + nl)
    (hmax : f.operandBase ≤ u32Max) (fs : List Frame) (depth : ℕ) (s : σ) :
    H.run outer.length (.stacked (f :: fs) depth (outer ++ w.locals ++ below ++ w.vals)) s
      = (.stacked (f :: fs) depth (outer ++ (H.on outer below w s).1.locals ++ below
            ++ (H.on outer below w s).1.vals), (H.on outer below w s).2) := by
  induction H generalizing n w s with
  | done r => rfl
  | get k ih => exact ih s (h s) hl hn s
  | set s' k ih => exact ih h hl hn s'
  | look k ih => exact ih _ _ (h _ _) hl hn s
  | pop m accept k ih =>
    obtain ⟨hm, hk⟩ := h
    have hpop := Execution.popN_stacked fs depth accept (f := f) (n := m)
      (show f.operandBase ≤ (outer ++ w.locals ++ below).length by
        simp only [List.length_append]
        omega) (show m ≤ w.vals.length by omega)
    rw [run, hpop, on]
    rcases htake : takeTop m accept w.vals with err | ⟨os, vals⟩
    · rfl
    · obtain ⟨hvals, hlen, -⟩ := takeTop_ok htake
      have hcount := congrArg List.length hvals
      rw [List.length_append] at hcount
      exact ih os (w := { w with vals := vals }) (hk os hlen) hl
        (show n - m ≤ vals.length by omega) s
  | push o k ih =>
    rw [run, Execution.push_stacked, on]
    have := ih (w := { w with vals := w.vals ++ [o] }) h hl (by simp; omega) s
    rw [← List.append_assoc] at this
    exact this
  | getLocal i k ih =>
    obtain ⟨hi, hk⟩ := h
    rw [← hl] at hi
    have hslot : (Execution.localIndex outer.length i) = .ok (outer.length + i) := by
      rw [Execution.localIndex, if_neg (by omega)]
    have hcell : (Execution.stacked (f :: fs) depth
        (outer ++ w.locals ++ below ++ w.vals)).cellAt (outer.length + i) = .ok w.locals[i] := by
      have hat := Execution.cellAt_stacked (f :: fs) depth (outer ++ w.locals.take i)
        (w.locals.drop (i + 1) ++ below ++ w.vals) w.locals[i]
      have hlen : (outer ++ w.locals.take i).length = outer.length + i := by
        rw [List.length_append, List.length_take]
        omega
      have hlocals : w.locals.take i ++ w.locals[i] :: w.locals.drop (i + 1) = w.locals := by
        rw [← List.drop_eq_getElem_cons hi, List.take_append_drop]
      have hsplit : outer ++ w.locals.take i ++ w.locals[i] :: (w.locals.drop (i + 1) ++ below
          ++ w.vals) = outer ++ w.locals ++ below ++ w.vals := by
        conv_rhs => rw [← hlocals]
        simp only [List.append_assoc, List.cons_append]
      rw [hlen, hsplit] at hat
      exact hat
    rw [run, hslot]
    simp only [Except.bind, hcell]
    rw [on, List.getElem?_eq_getElem hi]
    exact ih _ (hk _) hl hn s
  | setLocal i o k ih =>
    obtain ⟨hi, hk⟩ := h
    rw [← hl] at hi
    have hslot : (Execution.localIndex outer.length i) = .ok (outer.length + i) := by
      rw [Execution.localIndex, if_neg (by omega)]
    have hset : (Execution.stacked (f :: fs) depth
        (outer ++ w.locals ++ below ++ w.vals)).setCell (outer.length + i) o
          = .ok (.stacked (f :: fs) depth (outer ++ w.locals.set i o ++ below ++ w.vals)) := by
      have hat := Execution.setCell_stacked (f :: fs) depth (outer ++ w.locals.take i)
        (w.locals.drop (i + 1) ++ below ++ w.vals) w.locals[i] o
      have hlen : (outer ++ w.locals.take i).length = outer.length + i := by
        rw [List.length_append, List.length_take]
        omega
      have hlocals : w.locals.take i ++ w.locals[i] :: w.locals.drop (i + 1) = w.locals := by
        rw [← List.drop_eq_getElem_cons hi, List.take_append_drop]
      have hsplit : outer ++ w.locals.take i ++ w.locals[i] :: (w.locals.drop (i + 1) ++ below
          ++ w.vals) = outer ++ w.locals ++ below ++ w.vals := by
        conv_rhs => rw [← hlocals]
        simp only [List.append_assoc, List.cons_append]
      rw [hlen, hsplit] at hat
      rw [hat, List.set_eq_take_append_cons_drop, if_pos hi]
      simp only [List.append_assoc, List.cons_append]
    rw [run, hslot]
    simp only [Except.bind, hset]
    rw [on, if_neg (by omega)]
    exact ih (w := { w with locals := w.locals.set i o }) hk (by simpa using hl) hn s
  | branch t k ih => exact absurd h id

/-- What a handler leaves of its window: the locals, the operands below its own, and its own as it
decides. -/
theorem on_leaves (outer below : List Operand) {H : Handler σ} (h : H.Takes nl P n)
    (hl : w.locals.length = nl)
    (hn : n ≤ w.vals.length) (s : σ) :
    (H.on outer below w s).1.locals.length = nl ∧
      w.vals.take (w.vals.length - n) <+: (H.on outer below w s).1.vals ∧
      ∀ out, (H.on outer below w s).2.2 = .ok out →
        P out ((H.on outer below w s).1.vals.length - (w.vals.length - n)) := by
  induction H generalizing n w s with
  | done r =>
    refine ⟨hl, List.take_prefix _ _, fun out hout => ?_⟩
    have hrest : w.vals.length - (w.vals.length - n) = n := by omega
    show P out (w.vals.length - (w.vals.length - n))
    rw [hrest]
    exact h out hout
  | get k ih => exact ih s (h s) hl hn s
  | set s' k ih => exact ih h hl hn s'
  | look k ih => exact ih _ _ (h _ _) hl hn s
  | pop m accept k ih =>
    obtain ⟨hm, hk⟩ := h
    rw [on]
    rcases htake : takeTop m accept w.vals with err | ⟨os, vals⟩
    · exact ⟨hl, List.take_prefix _ _, fun out hout => nomatch hout⟩
    · obtain ⟨hvals, hlen, -⟩ := takeTop_ok htake
      have hcount := congrArg List.length hvals
      rw [List.length_append] at hcount
      have hih := ih os (w := { w with vals := vals }) (hk os hlen) hl
        (show n - m ≤ vals.length by omega) s
      have hbelow : vals.length - (n - m) = w.vals.length - n := by omega
      have htop : vals.take (w.vals.length - n) = w.vals.take (w.vals.length - n) := by
        rw [hvals, List.take_append_of_le_length (by rw [List.length_append]; omega)]
      simp only [hbelow, htop] at hih
      exact hih
  | push o k ih =>
    have hlong : (w.vals ++ [o]).length - (n + 1) = w.vals.length - n := by
      rw [List.length_append, List.length_singleton]
      omega
    have hih := ih (w := { w with vals := w.vals ++ [o] }) h hl (by simp; omega) s
    have htake : (w.vals ++ [o]).take (w.vals.length - n) = w.vals.take (w.vals.length - n) :=
      List.take_append_of_le_length (by omega)
    simp only [hlong, htake] at hih
    exact hih
  | getLocal i k ih =>
    obtain ⟨hi, hk⟩ := h
    rw [← hl] at hi
    rw [on, List.getElem?_eq_getElem hi]
    exact ih _ (hk _) hl hn s
  | setLocal i o k ih =>
    obtain ⟨hi, hk⟩ := h
    rw [← hl] at hi
    rw [on, if_neg (by omega)]
    exact ih (w := { w with locals := w.locals.set i o }) hk (by simpa using hl) hn s
  | branch t k ih => exact absurd h id

end Handler

end SubmilliWasm
