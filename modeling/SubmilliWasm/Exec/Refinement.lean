/-
# The flat code refines the nested source

Every step of the nested source is met by turns of the flat loop, and where it is met by none there
is less left of the source (`Matches.step`).  So the two runs of a call follow each other to the
end, in both directions, and end in the same way: they finish with the same operands, fail with the
same error or hand the same request to the embedder, over the same store.
-/
import SubmilliWasm.Exec.Calling
import SubmilliWasm.Lib.Stuttering

namespace SubmilliWasm

open Nested

variable {σ : Type}

/-! ## What is left of a body -/

def Body.size : Body → ℕ
  | .done => 0
  | .plain _ k | .jump _ k | .cond _ k | .call _ k => k.size + 1
  | .region _ _ b k => b.size + k.size + 2
  | .ifElse _ t e k => t.size + e.size + k.size + 2
  | .ifThen _ t k => t.size + k.size + 2

/-- What is left of an activation, if it does not branch. -/
def Activation.left (a : Activation) : ℕ :=
  a.body.size + (a.scopes.map fun s => s.next.size + 1).sum

def Machine.left (m : Machine σ) : ℕ := (m.acts.head?.map Activation.left).getD 0

theorem Activation.enterRegion_left {a : Activation} {r : Region} {bt : BlockType} {b k : Body}
    (h : a.body = .region r bt b k) (ctx : CompileCtx) :
    (a.enterRegion ctx r bt b k).left < a.left := by
  cases r <;>
    simp only [enterRegion, enter, Nested.enter, left, h, Body.size, List.map_cons,
      List.sum_cons] <;>
    omega

section Steps

variable {D : Denoted σ} {P : Program D} {fs₀ : List Frame}

/-- The loop comes to match, and if it does nothing for it, less of the source is left than `m`
has. -/
def Advances (P : Program D) (fs₀ : List Frame) (m m' : Machine σ) (t : Turned σ) : Prop :=
  ∃ n, Matches P fs₀ m' ((D.follow fs₀.length)^[n] t) ∧ (n = 0 → m'.left < m.left)

theorem Meets.advances {m m' : Machine σ} {t : Turned σ}
    (h : Meets P fs₀ m' (D.follow fs₀.length t)) : Advances P fs₀ m m' t := by
  obtain ⟨n, h⟩ := h
  exact ⟨n + 1, h, fun hzero => absurd hzero (Nat.succ_ne_zero n)⟩

theorem Matches.advances {m m' : Machine σ} {t : Turned σ} (h : Matches P fs₀ m' t)
    (hleft : m'.left < m.left) : Advances P fs₀ m m' t := ⟨0, h, fun _ => hleft⟩

variable {base : List Operand} {depth : ℕ} {a : Activation} {as : List Activation} {f : Frame}
  {fs : List Frame} {st : StoreState σ} {k ip : ℕ} {mark : Mark}

/-- A step of the innermost activation, by the construct it has come to. -/
theorem move_advances (hr : Running P base fs₀ a as f fs) {cmp : Option CmpKind}
    (hat : a.At P cmp ip 0) {os : List Operand} (hshown : Shown a.vals os cmp) :
    Advances P fs₀ ⟨st, k, base, fs₀.length, depth, a :: as, .run⟩
      (D.move P.source ⟨st, k, base, fs₀.length, depth, a :: as, .run⟩ a as)
      (f.turned st (a.stacks base as (f :: fs) depth os) k ip mark) := by
  have hunfused : a.body.fuses = false → cmp = none ∧ os = a.vals := by
    intro h
    obtain rfl := hat.unfused h
    exact ⟨rfl, hshown⟩
  cases hbody : a.body with
  | ifElse bt t e body => exact (ifElse_meets hr hat hshown hbody).advances
  | ifThen bt t body => exact (ifThen_meets hr hat hshown hbody).advances
  | cond c body =>
    have hmeets := runCond_meets depth st k mark hr hat hshown hbody
    rw [Denoted.move, hbody]
    exact hmeets.advances
  | done =>
    obtain ⟨rfl, rfl⟩ := hunfused (by rw [hbody]; rfl)
    by_cases hscopes : a.scopes = []
    · rw [Denoted.move, hbody, hscopes]
      exact (return_meets hr hat hbody hscopes).meets.advances
    · obtain ⟨sc, ss, hscopes⟩ := List.exists_cons_of_ne_nil hscopes
      have hleft : ({ a with body := sc.next, scopes := ss, vals := sc.below ++ a.vals } :
          Activation).left < a.left := by
        simp only [Activation.left, hbody, hscopes, List.map_cons, List.sum_cons, Body.size]
        omega
      have hmatch := leave_meets depth st k mark hr hat hbody hscopes
      rw [Denoted.move, hbody, hscopes]
      obtain hmatch | hmatch := hmatch
      · exact hmatch.advances hleft
      · exact hmatch.meets.advances
  | plain p body =>
    obtain ⟨rfl, rfl⟩ := hunfused (by rw [hbody]; rfl)
    have hmeets := plain_meets depth st k mark hr hat hbody
    rw [Denoted.move, hbody]
    obtain hmeets | ⟨vals, hstep, hmatch⟩ := hmeets
    · exact hmeets.advances
    · rw [← hstep] at hmatch
      refine hmatch.advances ?_
      rw [hstep]
      show body.size + (a.scopes.map fun s => s.next.size + 1).sum
        < a.body.size + (a.scopes.map fun s => s.next.size + 1).sum
      rw [hbody, Body.size]
      omega
  | region r bt b body =>
    obtain ⟨rfl, rfl⟩ := hunfused (by rw [hbody]; rfl)
    rw [Denoted.move, hbody]
    exact (region_still hr hat hbody).advances (Activation.enterRegion_left hbody _)
  | jump j body =>
    obtain ⟨rfl, rfl⟩ := hunfused (by rw [hbody]; rfl)
    rw [Denoted.move, hbody]
    exact (runJump_meets hr hat hbody).advances
  | call c body =>
    obtain ⟨rfl, rfl⟩ := hunfused (by rw [hbody]; rfl)
    rw [Denoted.move, hbody]
    exact (call_meets hr hat hbody).advances

/-- **A step of the source is met by turns of the loop**, or leaves less of the source. -/
theorem Matches.step {m : Machine σ} {t : Turned σ} (h : Matches P fs₀ m t) (hgo : ¬m.Halted) :
    Advances P fs₀ m (D.step P.source m) t := by
  cases h with
  | callback | suspended | finished | failed => exact absurd trivial hgo
  | run hr hat hshown => exact move_advances hr hat hshown
  | @poll st k base depth a as f fs ip mark hr hat =>
    -- the check reads the operands, and no frame
    have hroots : D.serviceGcPressure st (.stacked (f :: fs) depth (operandsOf base (a :: as)))
        = D.serviceGcPressure st (.stacked [] depth (operandsOf base (a :: as))) := rfl
    refine (Matches.meets ?_).advances
    show Matches P fs₀ (D.check _) (D.follow fs₀.length _)
    rw [D.follow_poll, hroots, Denoted.check]
    dsimp only
    rcases D.serviceGcPressure st (.stacked [] depth (operandsOf base (a :: as))) with
      ⟨st', err | u⟩
    · exact .failed
    · exact .run (c := none) hr hat rfl

theorem Matches.halted {m : Machine σ} {t : Turned σ} (h : Matches P fs₀ m t) :
    m.Halted ↔ t.Stopped := by
  cases h <;> rfl

end Steps

/-- **The flat loop follows the nested source.** -/
theorem follows_source {D : Denoted σ} (P : Program D) (fs₀ : List Frame) :
    Stuttering.Follows (D.step P.source) (D.follow fs₀.length) (Matches P fs₀) Machine.Halted
      Turned.Stopped Machine.left where
  step h hgo := h.step hgo
  halted h := h.halted
  fixedA := by
    rintro ⟨st, k, base, frames, depth, acts, doing⟩ h
    cases doing with
    | run | poll => exact h.elim
    | callback | suspended | finished | failed => rfl
  fixedB := by
    rintro ⟨st, e, k, next, mark⟩ h
    cases next with
    | loop | poll => exact h.elim
    | callback | leave => rfl

/-! ## Calls from the embedder -/

section Entry

variable {D : Denoted σ} (P : Program D)

/-- The frame below those of a call: it keeps what was there. -/
def entryFrame (kind : Delimiter) (inst : ℕ) (code : CompiledFunc) (base : List Operand) : Frame :=
  ⟨code, 0, base.length, base.length, inst, 0, some kind⟩

theorem pushDelimiter_stacked (frames : List Frame) (depth : ℕ) (base : List Operand)
    (kind : Delimiter) (inst : ℕ) (code : CompiledFunc) :
    (Execution.stacked frames depth base).pushDelimiter kind inst code
      = if u32Max < base.length then .error (.frameStack "operand stack length exceeds u32")
        else .ok (.stacked (entryFrame kind inst code base :: frames) depth base) := by
  unfold Execution.pushDelimiter
  rw [if_neg (not_not_intro Execution.stacked_level), Execution.stacked_length]
  rfl

/-- **A call begins in both alike.** -/
theorem entered_matches (st : StoreState σ) (base : List Operand) (frames : List Frame) (depth : ℕ)
    (inst idx : ℕ) (args : List Val) (hargs : args.length = (P.fn inst idx).params.length) :
    let e := Execution.stacked frames depth base
    let fs₀ := entryFrame (entryKind e) inst (P.fn inst idx).code base :: frames
    Matches P fs₀
      (D.begin P.source st base fs₀.length (depth + (entryKind e).reserves) inst idx
        (args.map Operand.ofVal))
      (D.entered st e inst idx (P.fn inst idx).code args) := by
  intro e fs₀
  have hdepth : e.hostReentryDepth + (if entryKind e = .hostReentry then 1 else 0)
      = depth + (entryKind e).reserves := by
    rcases entryKind e with _ | _ <;> rfl
  have hbase : Based base fs₀ := ⟨_, frames, rfl, Nat.le_refl _⟩
  unfold Denoted.begin Denoted.entered Interp.entered Execution.enterCall
  rw [hdepth]
  by_cases hbumped : usizeMax < depth + (entryKind e).reserves
  · rw [if_pos hbumped, if_pos hbumped]
    exact .failed
  · rw [if_neg hbumped, if_neg hbumped]
    have hdelim : (Execution.mk e.values e.shadow e.frames (depth + (entryKind e).reserves))
        = .stacked frames (depth + (entryKind e).reserves) base := rfl
    have hargs' : (args.map Operand.ofVal).length = (P.fn inst idx).params.length := by
      rw [List.length_map, hargs]
    dsimp only
    rw [hdelim, pushDelimiter_stacked]
    by_cases hlong : u32Max < base.length
    · have hlimit : Interp.frameLimit (base.length + (args.map Operand.ofVal).length)
          (P.source inst idx) = some (.frameStack "operand stack length exceeds u32") := by
        unfold Interp.frameLimit
        rw [if_pos (by omega)]
      rw [if_pos hlong, hlimit]
      exact .failed
    · rw [if_neg hlong]
      dsimp only
      rw [Execution.pushAll_stacked, Execution.pushCall_stacked _ _ _ _ _ (Nat.le_refl _) hargs']
      rcases hlimit : Interp.frameLimit (base.length + (args.map Operand.ofVal).length)
        (P.fn inst idx).toSourceFunc with _ | err
      · obtain ⟨hf, hat⟩ := activate_begins P hargs' hlimit
        rw [show Interp.frameLimit (base.length + (args.map Operand.ofVal).length)
          (P.source inst idx) = none from hlimit]
        dsimp only
        rw [Execution.stackBytes_stacked,
          activate_stacks (P.fn inst idx).toSourceFunc _ (args.map Operand.ofVal) inst idx]
        simp only [Program.source, operandsOf]
        generalize hbytes : D.budget (depth + (entryKind e).reserves) (base
          ++ (Interp.activate inst idx (P.fn inst idx).toSourceFunc (args.map Operand.ofVal)).locals
          ++ flat (Interp.activate inst idx (P.fn inst idx).toSourceFunc
            (args.map Operand.ofVal)).scopes (Interp.activate inst idx (P.fn inst idx).toSourceFunc
              (args.map Operand.ofVal)).vals).length (fs₀.length + 1) = result
        rw [show (D.interp (P.fn inst idx).code).budget (depth + (entryKind e).reserves) _
            (_ :: entryFrame (entryKind e) inst (P.fn inst idx).code base :: frames).length = result
          from hbytes, show (D.interp (P.fn inst idx).code).maxWasmStack = D.maxWasmStack from rfl]
        rcases result with err | bytes
        · exact .failed
        · dsimp only
          by_cases hfull : D.maxWasmStack ≤ bytes
          · rw [if_pos hfull, if_pos hfull]
            exact .failed
          · rw [if_neg hfull, if_neg hfull]
            unfold Interp.reload
            rw [Execution.top_stacked hf.delimiter]
            exact .run (c := none) ⟨hbase, hf, hat.locals, (.nil : Waiting P base _ _ [] _)⟩ hat rfl
      · rw [show Interp.frameLimit (base.length + (args.map Operand.ofVal).length)
          (P.source inst idx) = some err from hlimit]
        exact .failed

end Entry

end SubmilliWasm
