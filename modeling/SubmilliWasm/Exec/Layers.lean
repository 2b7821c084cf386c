/-
# Layers of the shared stacks

The stacks inside a call: below are the stacks as they were at its entry, then its delimiter, then
its own frames, whose floors rise from one to the next.  Whatever a handler, a branch, a call, a
return or the unwinder does inside the call touches nothing below the floor of the running frame,
so the entry state stays what it was and can be cut back to.
-/
import SubmilliWasm.Exec.Drive

namespace SubmilliWasm

open Execution

variable {σ : Type}

/-! ## The frames -/

theorem Execution.popN_frames {e e' : Execution} {n : ℕ} {os : List Operand}
    {accept : List Operand → Option ExecError} (h : e.popN n accept = .ok (os, e')) :
    e'.frames = e.frames := by
  unfold popN at h
  split at h
  · nomatch h
  · split at h
    · nomatch h
    · rw [← (Prod.mk.inj (Except.ok.inj h)).2]
      rfl

/-- A handler leaves the frames alone. -/
theorem Handler.run_frames (base : ℕ) (H : Handler σ) (e : Execution) (s : σ) :
    (H.run base e s).1.frames = e.frames := by
  refine run_keeps (P := fun e' => e'.frames = e.frames) (fun _ h => h)
    (fun h hok => (popN_frames hok).trans h) (fun h _ hok => ?_) (fun h hok => ?_) H rfl s
  · unfold setCell at hok
    split at hok
    · nomatch hok
    · rwa [← Except.ok.inj hok]
  · unfold Execution.takeBranch at hok
    split at hok
    · nomatch hok
    · split at hok
      · nomatch hok
      · split at hok
        · nomatch hok
        · rwa [← Except.ok.inj hok]

theorem Interp.prepareHostCall_frames (I : Interp σ) {st st' : StoreState σ} {e e' : Execution}
    {func : ℕ} {call : HostCallState} (h : I.prepareHostCall st e func = .ok (call, st', e')) :
    e'.frames = e.frames := by
  unfold prepareHostCall at h
  dsimp only at h
  split at h
  · nomatch h
  · rename_i hpop
    rw [← (Prod.mk.inj (Prod.mk.inj (Except.ok.inj h)).2).2]
    exact popN_frames hpop

/-! ## Inside a call -/

/-- The frames of a call, top first, over operands of which it owns those from `base` on: none is
a delimiter, and each begins at or above the operands of the one below. -/
def Floors (base : ℕ) : List Frame → ℕ → Prop
  | [], len => base ≤ len
  | f :: fs, len =>
    f.delimiter = none ∧ f.localsBase ≤ f.operandBase ∧ f.operandBase ≤ len ∧
      Floors base fs f.localsBase

/-- Where the operands of the top frame begin. -/
def floorOf (base : ℕ) : List Frame → ℕ
  | [] => base
  | f :: _ => f.operandBase

/-- The delimiter of a call entered on `entry`. -/
def entryKind (entry : Execution) : Delimiter :=
  if entry.frames.length = 0 then .topLevel else .hostReentry

def Delimiter.reserves : Delimiter → ℕ
  | .topLevel => 0
  | .hostReentry => 1

/-- The stacks inside a call entered on `entry`, with the frames `inner` of its own. -/
structure Inside (entry : Execution) (inner : List Frame) (e : Execution) : Prop where
  entryLockstep : entry.values.length = entry.shadow.length
  lockstep : e.values.length = e.shadow.length
  values : entry.values <+: e.values
  shadow : entry.shadow <+: e.shadow
  frames : ∃ d : Frame, e.frames = inner ++ d :: entry.frames ∧
    d.delimiter = some (entryKind entry) ∧ d.operandBase = entry.values.length ∧
    d.localsBase = entry.values.length
  floors : Floors entry.values.length inner e.values.length
  depth : e.hostReentryDepth = entry.hostReentryDepth + (entryKind entry).reserves

/-- The registers are those of the top frame. -/
def RegsOf (inner : List Frame) (r : Regs) : Prop :=
  ∃ f fs, inner = f :: fs ∧ r.code = f.code ∧ r.base = f.localsBase ∧ r.inst = f.inst

/-! ## Floors -/

variable {fs : List Frame} {len base : ℕ}

theorem Floors.base_le_floor (h : Floors base fs len) :
    base ≤ floorOf base fs ∧ floorOf base fs ≤ len := by
  induction fs generalizing len with
  | nil => exact ⟨le_refl _, h⟩
  | cons f fs ih =>
    obtain ⟨-, hbases, hlen, hfs⟩ := h
    have h1 := ih hfs
    exact ⟨by show base ≤ f.operandBase; omega, hlen⟩

theorem Floors.base_le (h : Floors base fs len) : base ≤ len :=
  h.base_le_floor.1.trans h.base_le_floor.2

/-- The operands may shrink to the floor, and grow. -/
theorem Floors.resize {len' : ℕ} (h : Floors base fs len) (hlen : floorOf base fs ≤ len') :
    Floors base fs len' := by
  cases fs with
  | nil => exact hlen
  | cons f fs => exact ⟨h.1, h.2.1, hlen, h.2.2.2⟩

theorem Floors.mono {len' : ℕ} (h : Floors base fs len) (hlen : len ≤ len') :
    Floors base fs len' := h.resize (h.base_le_floor.2.trans hlen)

namespace Inside

variable {entry e : Execution} {inner : List Frame}

theorem base_le (h : Inside entry inner e) : entry.values.length ≤ e.values.length :=
  h.floors.base_le

/-- The top frame is the call's own, or the delimiter. -/
theorem top_floor (h : Inside entry inner e) : ∃ f fs, e.frames = f :: fs ∧
    f.operandBase = floorOf entry.values.length inner := by
  obtain ⟨d, hd, -, hbase, -⟩ := h.frames
  cases inner with
  | nil => exact ⟨d, entry.frames, hd, hbase⟩
  | cons f fs => exact ⟨f, fs ++ d :: entry.frames, hd, rfl⟩

theorem frames_length (h : Inside entry inner e) :
    e.frames.length = inner.length + (entry.frames.length + 1) := by
  obtain ⟨d, hd, -⟩ := h.frames
  rw [hd, List.length_append, List.length_cons]

/-! ## Operands -/

/-- Operands above the floor may be replaced by others. -/
theorem withOperands (h : Inside entry inner e) {values : List Cell} {shadow : List RefTag}
    (hlock : values.length = shadow.length) (hv : entry.values <+: values)
    (hs : entry.shadow <+: shadow) (hlen : floorOf entry.values.length inner ≤ values.length) :
    Inside entry inner { e with values := values, shadow := shadow } where
  entryLockstep := h.entryLockstep
  lockstep := hlock
  values := hv
  shadow := hs
  frames := h.frames
  floors := h.floors.resize hlen
  depth := h.depth

theorem pushAll (h : Inside entry inner e) (os : List Operand) :
    Inside entry inner (e.pushAll os) := by
  refine h.withOperands ?_ (h.values.trans (List.prefix_append _ _))
    (h.shadow.trans (List.prefix_append _ _)) ?_
  · rw [List.length_append, List.length_append, List.length_map, List.length_map, h.lockstep]
  · rw [List.length_append]
    exact h.floors.base_le_floor.2.trans (Nat.le_add_right _ _)

theorem push (h : Inside entry inner e) (o : Operand) : Inside entry inner (e.push o) :=
  h.pushAll [o]

/-- The operand stacks may be cut down to the floor of the top frame. -/
theorem truncate (h : Inside entry inner e) {n : ℕ}
    (hn : floorOf entry.values.length inner ≤ n) (hle : n ≤ e.values.length) :
    Inside entry inner (e.truncate n) := by
  have hbase := h.floors.base_le_floor.1
  refine h.withOperands ?_ (List.prefix_take_iff.mpr ⟨h.values, hbase.trans hn⟩)
    (List.prefix_take_iff.mpr ⟨h.shadow, ?_⟩) ?_
  · rw [List.length_take, List.length_take, h.lockstep]
  · rw [← h.entryLockstep]
    exact hbase.trans hn
  · rw [List.length_take, Nat.min_eq_left hle]
    exact hn

theorem slide (h : Inside entry inner e) {keep dst : ℕ}
    (hdst : floorOf entry.values.length inner ≤ dst) (hle : dst + keep ≤ e.values.length) :
    Inside entry inner (e.slide keep dst) := by
  have hbase := h.floors.base_le_floor.1
  have hlen : (e.values.take dst ++ e.values.drop (e.values.length - keep)).length
    = dst + keep := by
    rw [List.length_append, List.length_take, List.length_drop]
    omega
  have hlen' : (e.shadow.take dst ++ e.shadow.drop (e.values.length - keep)).length =
      dst + keep := by
    rw [List.length_append, List.length_take, List.length_drop, ← h.lockstep]
    omega
  refine h.withOperands (hlen.trans hlen'.symm) ?_ ?_ ?_
  · exact (List.prefix_take_iff.mpr ⟨h.values, hbase.trans hdst⟩).trans (List.prefix_append _ _)
  · refine (List.prefix_take_iff.mpr ⟨h.shadow, ?_⟩).trans (List.prefix_append _ _)
    rw [← h.entryLockstep]
    exact hbase.trans hdst
  · rw [hlen]
    omega

theorem prefix_set {α : Type} {l m : List α} {i : ℕ} {a : α} (h : l <+: m) (hi : l.length ≤ i) :
    l <+: m.set i a := by
  obtain ⟨t, rfl⟩ := h
  rw [List.set_append_right _ _ hi]
  exact List.prefix_append _ _

theorem ensureOperands_ok (h : Inside entry inner e) {needed base : ℕ}
    (hok : e.ensureOperands needed = .ok base) :
    floorOf entry.values.length inner ≤ base ∧ base ≤ e.values.length := by
  obtain ⟨f, fs, hf, hfloor⟩ := h.top_floor
  unfold ensureOperands at hok
  rw [if_neg (not_not.mpr h.lockstep), hf] at hok
  simp only at hok
  split at hok
  · nomatch hok
  · split at hok
    · nomatch hok
    · have hbase := Except.ok.inj hok
      omega

variable {e' : Execution}

theorem popN (h : Inside entry inner e) {n : ℕ} {accept : List Operand → Option ExecError}
    {os : List Operand} (hok : e.popN n accept = .ok (os, e')) : Inside entry inner e' := by
  unfold Execution.popN at hok
  split at hok
  · nomatch hok
  · rename_i base hbase
    obtain ⟨h1, h2⟩ := h.ensureOperands_ok hbase
    split at hok
    · nomatch hok
    · rw [← (Prod.mk.inj (Except.ok.inj hok)).2]
      exact h.truncate h1 h2

theorem setCell (h : Inside entry inner e) {i : ℕ} {o : Operand} (hi : entry.values.length ≤ i)
    (hok : e.setCell i o = .ok e') : Inside entry inner e' := by
  unfold Execution.setCell at hok
  split at hok
  · nomatch hok
  · rw [← Except.ok.inj hok]
    refine h.withOperands ?_ (prefix_set h.values hi) (prefix_set h.shadow ?_) ?_
    · rw [List.length_set, List.length_set, h.lockstep]
    · rw [← h.entryLockstep]
      exact hi
    · rw [List.length_set]
      exact h.floors.base_le_floor.2

theorem takeBranch (h : Inside entry inner e) {t : BranchTarget} (hok : e.takeBranch t = .ok e') :
    Inside entry inner e' := by
  obtain ⟨f, fs, hf, hfloor⟩ := h.top_floor
  unfold Execution.takeBranch at hok
  rw [if_neg (not_not.mpr h.lockstep), hf] at hok
  simp only at hok
  split at hok
  · nomatch hok
  · rw [← Except.ok.inj hok]
    exact h.slide (by omega) (by omega)

/-- A handler stays above the floor of its frame. -/
theorem handler_run (H : Handler σ) {base : ℕ} (hbase : entry.values.length ≤ base)
    (h : Inside entry inner e) (s : σ) : Inside entry inner (H.run base e s).1 := by
  have hlocal : ∀ {i j : ℕ}, localIndex base i = .ok j → entry.values.length ≤ j := by
    intro i j hj
    unfold localIndex at hj
    split at hj
    · nomatch hj
    · rw [← Except.ok.inj hj]
      exact hbase.trans (Nat.le_add_right _ _)
  exact Handler.run_keeps (fun o h => h.push o) (fun h hok => h.popN hok)
    (fun h hj hok => h.setCell (hlocal hj) hok) (fun h hok => h.takeBranch hok) H h s

/-! ## Frames -/

theorem saveIp {f : Frame} {fs : List Frame} (h : Inside entry (f :: fs) e) (ip : ℕ) :
    ∃ e', e.saveIp ip = some e' ∧ Inside entry ({ f with ip := ip } :: fs) e' := by
  obtain ⟨d, hd, hdelim⟩ := h.frames
  refine ⟨_, by rw [Execution.saveIp, hd]; rfl, ?_⟩
  exact {
    entryLockstep := h.entryLockstep
    lockstep := h.lockstep
    values := h.values
    shadow := h.shadow
    frames := ⟨d, rfl, hdelim⟩
    floors := h.floors
    depth := h.depth }

/-- A call lays its frame on the caller's arguments. -/
theorem pushCall (h : Inside entry inner e) {inst funcIndex : ℕ} {code : CompiledFunc}
    (hok : e.pushCall inst funcIndex code = .ok e') : ∃ f, Inside entry (f :: inner) e' := by
  obtain ⟨top, fs, htop, hfloor⟩ := h.top_floor
  obtain ⟨d, hd, hdelim⟩ := h.frames
  have hcaller : (e.frames.head?.map Frame.operandBase).getD 0 =
      floorOf entry.values.length inner := by
    rw [htop]
    exact hfloor
  unfold Execution.pushCall at hok
  simp only [hcaller] at hok
  split at hok
  · nomatch hok
  · split at hok
    · nomatch hok
    · split at hok
      · nomatch hok
      · rename_i hparams
        split at hok
        · nomatch hok
        · split at hok
          · nomatch hok
          · rw [← Except.ok.inj hok]
            have hpushed := h.pushAll (code.localTypes.map Operand.default)
            refine ⟨⟨code, 0, e.values.length - code.nParams,
              e.values.length + code.localTypes.length, inst, funcIndex, none⟩, ?_⟩
            exact {
              entryLockstep := h.entryLockstep
              lockstep := hpushed.lockstep
              values := hpushed.values
              shadow := hpushed.shadow
              frames := ⟨d, by rw [hd]; rfl, hdelim⟩
              floors := by
                refine ⟨rfl, ?_, ?_,
                  h.floors.resize (by show _ ≤ e.values.length - code.nParams; omega)⟩
                · show e.values.length - code.nParams ≤ e.values.length + code.localTypes.length
                  omega
                · show e.values.length + code.localTypes.length ≤ _
                  rw [Execution.pushAll, List.length_append, List.length_map, List.length_map]
              depth := hpushed.depth }

/-- A return leaves a frame of the call's own, and no other. -/
theorem doReturn (h : Inside entry inner e) {n : ℕ} {tail b : Bool}
    (hok : e.doReturn n (entry.frames.length + 1) tail = .ok (e', b)) :
    ∃ f fs, inner = f :: fs ∧ Inside entry fs e' ∧ (b = true ↔ fs = []) := by
  obtain ⟨d, hd, hdelim⟩ := h.frames
  unfold Execution.doReturn at hok
  cases inner with
  | nil =>
    -- Only the delimiter is left, which is no frame above the boundary.
    rw [List.nil_append] at hd
    rw [hd] at hok
    simp only [List.length_cons, le_refl, true_or, if_true] at hok
    nomatch hok
  | cons f fs =>
    refine ⟨f, fs, rfl, ?_⟩
    rw [List.cons_append] at hd
    rw [hd] at hok
    simp only at hok
    split at hok
    · nomatch hok
    · split at hok
      · nomatch hok
      · split at hok
        · nomatch hok
        · split at hok
          · nomatch hok
          · rename_i hshape
            push Not at hshape
            obtain ⟨hpair, hb⟩ := Prod.mk.inj (Except.ok.inj hok)
            have hlen : f.localsBase + n ≤ e.values.length := hshape.2.1
            have hbelow : floorOf entry.values.length fs ≤ f.localsBase :=
              h.floors.2.2.2.base_le_floor.2
            constructor
            · -- The frames below see only operands above their own floors go.
              have hbelow' : Inside entry fs { e with frames := fs ++ d :: entry.frames } :=
                { entryLockstep := h.entryLockstep
                  lockstep := h.lockstep
                  values := h.values
                  shadow := h.shadow
                  frames := ⟨d, rfl, hdelim⟩
                  floors := h.floors.2.2.2.mono (h.floors.2.1.trans h.floors.2.2.1)
                  depth := h.depth }
              rw [← hpair]
              exact hbelow'.slide hbelow hlen
            · rw [← hb, decide_eq_true_eq, List.length_append, List.length_cons]
              constructor
              · intro hl
                exact List.length_eq_zero_iff.mp (by omega)
              · rintro rfl
                simp

/-- The top frame as the loop reads it. -/
theorem top_ok (h : Inside entry inner e) {r : Regs} (hok : e.top = .ok r) : RegsOf inner r := by
  obtain ⟨d, hd, hdelim, -⟩ := h.frames
  cases inner with
  | nil =>
    rw [Execution.top, hd] at hok
    simp [hdelim] at hok
  | cons f fs =>
    rw [Execution.top, hd] at hok
    have hf : f.delimiter = none := h.floors.1
    simp only [List.cons_append, hf, Option.isSome_none, Bool.false_eq_true, if_false,
      Except.ok.injEq] at hok
    exact ⟨f, fs, rfl, by rw [← hok], by rw [← hok], by rw [← hok]⟩

theorem top_cons {f : Frame} {fs : List Frame} (h : Inside entry (f :: fs) e) :
    e.top = .ok ⟨f.code, f.ip, f.localsBase, f.inst⟩ := by
  obtain ⟨d, hd, -⟩ := h.frames
  have hf : f.delimiter = none := h.floors.1
  rw [Execution.top, hd]
  simp [hf]

theorem regsOf_base_le (h : Inside entry inner e) {r : Regs} (hr : RegsOf inner r) :
    entry.values.length ≤ r.base := by
  obtain ⟨f, fs, rfl, -, hbase, -⟩ := hr
  rw [hbase]
  exact h.floors.2.2.2.base_le

/-! ## The boundary -/

theorem framesTo_eq (h : Inside entry inner e) :
    framesTo e.frames entry.frames.length = entry.frames := by
  obtain ⟨d, hd, -⟩ := h.frames
  rw [framesTo, h.frames_length, hd,
    show inner.length + (entry.frames.length + 1) - entry.frames.length = inner.length + 1 by omega,
    show inner ++ d :: entry.frames = (inner ++ [d]) ++ entry.frames by simp,
    List.drop_left' (by simp)]

theorem frameAt_eq (h : Inside entry inner e) :
    (frameAt e.frames entry.frames.length).bind Frame.delimiter = some (entryKind entry) := by
  obtain ⟨d, hd, hdelim, -⟩ := h.frames
  have hlen := h.frames_length
  rw [frameAt, if_pos (by omega),
    show e.frames.length - 1 - entry.frames.length = inner.length by omega, hd,
    List.getElem?_append_right (le_refl _), Nat.sub_self]
  exact hdelim

theorem releaseReentry_eq (h : Inside entry inner e) :
    e.releaseReentry entry.frames.length =
      .ok { e with hostReentryDepth := entry.hostReentryDepth } := by
  have hdepth := h.depth
  unfold releaseReentry
  rw [h.frameAt_eq]
  rcases hk : entryKind entry with _ | _
  · rw [hk] at hdepth
    simp only
    rw [← show e.hostReentryDepth = entry.hostReentryDepth from hdepth]
  · rw [hk] at hdepth
    simp only
    have hd : e.hostReentryDepth = entry.hostReentryDepth + 1 := hdepth
    rw [if_neg (by omega), hd, Nat.add_sub_cancel]

/-- Cutting back to the boundary gives the entry state back. -/
theorem cutTo_eq (h : Inside entry inner e) :
    cutTo { e with hostReentryDepth := entry.hostReentryDepth } entry.values.length
      entry.frames.length = entry := by
  have hv : e.values.take entry.values.length = entry.values :=
    (List.prefix_iff_eq_take.mp h.values).symm
  have hs : e.shadow.take entry.values.length = entry.shadow := by
    rw [h.entryLockstep]
    exact (List.prefix_iff_eq_take.mp h.shadow).symm
  unfold cutTo Execution.truncate
  simp only [hv, hs, h.framesTo_eq]

theorem not_badBoundary (h : Inside entry inner e) :
    e.badBoundary entry.values.length entry.frames.length = false := by
  have h1 := h.base_le
  have h2 := h.frames_length
  unfold badBoundary
  rw [decide_eq_false (not_not.mpr h.lockstep), decide_eq_false (not_lt.mpr h1),
    decide_eq_false (by omega)]
  rfl

theorem discardTo_eq (h : Inside entry inner e) :
    e.discardTo entry.values.length entry.frames.length = .ok entry := by
  unfold discardTo
  rw [h.not_badBoundary, h.releaseReentry_eq]
  simp only [Bool.false_eq_true, if_false, h.cutTo_eq]

theorem takeResults_ok (h : Inside entry inner e) {tys : List ValType} {cells : List Cell}
    (hok : e.takeResults entry.values.length entry.frames.length tys = .ok (cells, e')) :
    e' = entry := by
  unfold takeResults at hok
  rw [h.not_badBoundary, h.releaseReentry_eq] at hok
  simp only [Bool.false_eq_true, if_false] at hok
  split at hok
  · nomatch hok
  · rw [← (Prod.mk.inj (Except.ok.inj hok)).2]
    exact h.cutTo_eq

theorem innermostBoundary_eq (h : Inside entry inner e) :
    innermostBoundary e.frames = some (entry.frames.length, entry.values.length) := by
  obtain ⟨d, hd, hdelim, -, hbase⟩ := h.frames
  have hfloors := h.floors
  rw [hd]
  generalize e.values.length = len at hfloors
  clear hd h
  induction inner generalizing len with
  | nil => simp [innermostBoundary, hdelim, hbase]
  | cons f fs ih =>
    have hf : f.delimiter = none := hfloors.1
    rw [List.cons_append, innermostBoundary, hf]
    exact ih _ hfloors.2.2.2

theorem discardCurrentCall_eq (h : Inside entry inner e) :
    e.discardCurrentCall = .ok ((entry.values.length, entry.frames.length), entry) := by
  unfold discardCurrentCall
  rw [h.innermostBoundary_eq]
  simp only [h.discardTo_eq, Except.map]

end Inside

/-! ## Entering -/

theorem pushDelimiter_ok {e e' : Execution} {kind : Delimiter} {inst : ℕ} {code : CompiledFunc}
    (h : e.pushDelimiter kind inst code = .ok e') :
    e.values.length = e.shadow.length ∧ e' = { e with
      frames := ⟨code, 0, e.values.length, e.values.length, inst, 0, some kind⟩ :: e.frames } := by
  unfold Execution.pushDelimiter at h
  simp only at h
  split at h
  · nomatch h
  · rename_i hlock
    split at h
    · nomatch h
    · exact ⟨not_not.mp hlock, (Except.ok.inj h).symm⟩

/-- A call enters on top of what was there; a failed entry leaves everything as it was. -/
theorem enterCall_cases (e : Execution) (inst funcIndex : ℕ) (code : CompiledFunc)
    (args : List Val) :
    (∃ e' f, e.enterCall (entryKind e) inst funcIndex code args = (e', .ok ()) ∧
      Inside e [f] e') ∨
    ∃ err, e.enterCall (entryKind e) inst funcIndex code args = (e, .error err) := by
  have hdepth : e.hostReentryDepth + (if entryKind e = .hostReentry then 1 else 0) =
      e.hostReentryDepth + (entryKind e).reserves := by
    rcases entryKind e with _ | _ <;> rfl
  unfold enterCall
  simp only [hdepth]
  split
  · exact Or.inr ⟨_, rfl⟩
  · split
    · exact Or.inr ⟨_, rfl⟩
    · rename_i e2 hdelim
      obtain ⟨hlock, rfl⟩ := pushDelimiter_ok hdelim
      have hentered : Inside e [] { e with
          frames := ⟨code, 0, e.values.length, e.values.length, inst, 0, some (entryKind e)⟩ ::
            e.frames
          hostReentryDepth := e.hostReentryDepth + (entryKind e).reserves } :=
        { entryLockstep := hlock
          lockstep := hlock
          values := List.prefix_refl _
          shadow := List.prefix_refl _
          frames := ⟨_, rfl, rfl, rfl, rfl⟩
          floors := le_refl _
          depth := rfl }
      have hargs := hentered.pushAll (args.map Operand.ofVal)
      split
      · -- The failed call is cut back, and so is what was charged for it.
        refine Or.inr ⟨_, Prod.ext ?_ rfl⟩
        exact hargs.cutTo_eq
      · rename_i e4 hcall
        obtain ⟨f, hf⟩ := hargs.pushCall hcall
        exact Or.inl ⟨e4, f, rfl, hf⟩

end SubmilliWasm
