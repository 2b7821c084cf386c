/-
# Calls that are served

A call halts where it asks the embedder for something: a host function that is called runs the
embedder's code, and a memory, a table or the heap that grows asks the limiter.  The synchronous
driver (`src/exec/drive.rs`) answers and goes on.  The flat loop and the nested source are answered
alike: the results of a host function and the size of what has grown go to the innermost activation,
an exception a host function throws is raised at its call site, and any other error ends the run.
So a call and its source go the same way for the same answers, to the end (`served_refines`).
-/
import SubmilliWasm.Exec.Refinement
import SubmilliWasm.Exec.Bound

namespace SubmilliWasm

open Nested

variable {σ : Type}

/-! ## Answers -/

/-- What the embedder's code does to the parked store, and what it returns: a host function its
results, a limiter the size before a growth that has been made. -/
inductive Answer (σ : Type) where
  | host (f : StoreState σ → StoreState σ × Except ExecError (List Val))
  | grown (f : StoreState σ → StoreState σ × Except ExecError (Option ℕ))

/-- The operands a growth leaves, `-1` for one that was refused. -/
def Growth.pushes (g : Growth) (old : Option ℕ) : List Operand :=
  let size (is64 : Bool) : List Operand :=
    let v := old.getD u64Max
    [Operand.ofVal (if is64 then .i64 (BitVec.ofNat 64 v) else .i32 (BitVec.ofNat 32 v))]
  match g with
  | .memory is64 => size is64
  | .table is64 => size is64
  | .gc => []

theorem pushGrown_eq (e : Execution) (g : Growth) (old : Option ℕ) :
    Interp.pushGrown e g old = e.pushAll (g.pushes old) := by
  cases g with
  | memory | table => rfl
  | gc =>
    show e = Execution.mk (e.values ++ []) (e.shadow ++ []) e.frames e.hostReentryDepth
    rw [List.append_nil, List.append_nil]

/-- The growth an outcome asks the limiter for. -/
def Interp.growth (I : Interp σ) (s : σ) : RunOutcome → Option Growth
  | .grow memory _ => some (.memory (I.memoryIs64 s memory))
  | .tableGrow table _ _ => some (.table (I.tableEntityIs64 s table))
  | .gcGrow _ _ => some .gc
  | _ => none

namespace Denoted

variable (D : Denoted σ)

/-! ## The flat loop is answered -/

/-- `run` is entered again: its head looks for the end, and for the budget. -/
def rerun (stopDepth : ℕ) (st : StoreState σ) (e : Execution) : Turned σ :=
  if e.frames.length = stopDepth then
    ⟨st, e, Interp.gcCheckInterval, .leave (.ok .finished), .silent⟩
  else
    match e.stackBytes D.frameSize with
    | .error err => ⟨st, e, Interp.gcCheckInterval, .leave (.error err), .silent⟩
    | .ok bytes =>
      if D.maxWasmStack ≤ bytes then
        ⟨st, e, Interp.gcCheckInterval, .leave (.error .stackOverflow), .silent⟩
      else ⟨st, e, Interp.gcCheckInterval, Interp.reload e, .silent⟩

/-- What follows a callback. -/
def returned (stopDepth : ℕ) (st : StoreState σ) (e : Execution) (countdown : ℕ)
    (call : HostCallState) (r : Except ExecError (List Val)) : Turned σ :=
  match D.afterCallback st e call r stopDepth with
  | (st, e, .error err) => ⟨st, e, countdown, .leave (.error err), .silent⟩
  | (st, e, .ok ()) =>
    if e.frames.length = stopDepth then ⟨st, e, countdown, .leave (.ok .finished), .silent⟩
    else ⟨st, e, countdown, Interp.reload e, .silent⟩

def grown (stopDepth : ℕ) (st : StoreState σ) (e : Execution) (countdown : ℕ) (g : Growth)
    (r : Except ExecError (Option ℕ)) : Turned σ :=
  match r with
  | .error err => ⟨st, e, countdown, .leave (.error err), .silent⟩
  | .ok old => D.rerun stopDepth st (Interp.pushGrown e g old)

/-- The loop is answered; an answer to another question changes nothing. -/
def answered (stopDepth : ℕ) (t : Turned σ) : Answer σ → Turned σ
  | .host f =>
    match t.next with
    | .callback call =>
      D.returned stopDepth (f t.st).1 t.exec t.countdown call (f t.st).2
    | _ => t
  | .grown f =>
    match t.next with
    | .leave (.ok o) =>
      match D.growth t.st.rest o with
      | none => t
      | some g =>
        let (scope, st) := t.st.park
        D.grown stopDepth ((f st).1.truncateRoots scope.rootsMark) t.exec t.countdown g (f st).2
    | _ => t

/-! ## The source is answered -/

/-- The source goes on, if the budget allows it. -/
def goOn (m : Machine σ) : Machine σ :=
  let m := { m with countdown := Interp.gcCheckInterval }
  match m.acts with
  | [] => m
  | _ =>
    match D.budget m.reentry (operandsOf m.base m.acts).length (m.acts.length + m.outerFrames) with
    | .error err => { m with doing := .failed err }
    | .ok bytes =>
      if D.maxWasmStack ≤ bytes then { m with doing := .failed .stackOverflow } else m

/-- A host function has thrown: the exception is raised at the call site. -/
def throwHost (m : Machine σ) (exn : ℕ) : Machine σ :=
  match m.acts with
  | [] => { m with doing := .failed (.pending exn) }
  | _ => D.raise { m with doing := .run } (.pending exn)

/-- A host function has returned. -/
def hostReturns (m : Machine σ) (st : StoreState σ) (call : HostCallState)
    (r : Except ExecError (List Val)) : Machine σ :=
  let close (st : StoreState σ) := st.truncateRoots call.scope.rootsMark
  match st.internalError with
  | some err =>
    { m with
      st := close ({ st with internalError := none }.restorePending call.scope)
      doing := .failed err }
  | none =>
    match r with
    | .error err =>
      if err = .thrown ∧ st.pendingGeneration ≠ call.scope.pendingGeneration then
        match st.pending with
        | none =>
          { m with
            st := close (st.restorePending call.scope)
            doing := .failed (.resultShape "host throw marker had no pending exception") }
        | some exn => D.throwHost { m with st := (close st).restorePending call.scope } exn
      else { m with st := close st, doing := .failed err }
    | .ok results =>
      match D.valuesMatch st.rest results call.sig.results with
      | .error err => { m with st := close (st.restorePending call.scope), doing := .failed err }
      | .ok () =>
        Machine.give { m with st := close st, doing := .run } (results.map Operand.ofVal) m.acts

def growthMade (m : Machine σ) (st : StoreState σ) (g : Growth) (r : Except ExecError (Option ℕ)) :
    Machine σ :=
  match r with
  | .error err => { m with st := st, doing := .failed err }
  | .ok old => D.goOn (Machine.give { m with st := st, doing := .run } (g.pushes old) m.acts)

def answer (m : Machine σ) : Answer σ → Machine σ
  | .host f =>
    match m.doing with
    | .callback call => D.hostReturns m (f m.st).1 call (f m.st).2
    | _ => m
  | .grown f =>
    match m.doing with
    | .suspended o _ _ =>
      match D.growth m.st.rest o with
      | none => m
      | some g =>
        let (scope, st) := m.st.park
        D.growthMade m ((f st).1.truncateRoots scope.rootsMark) g (f st).2
    | _ => m

end Denoted

/-! ## An answer keeps the two runs together -/

/-- A handler that is found is above the stop. -/
theorem Interp.unwindFrom_above (I : Interp σ) {s : σ} {exn thrown stopDepth fuel : ℕ}
    {e e' : Execution} {faultIp : ℕ}
    (h : I.unwindFrom s exn thrown stopDepth fuel e faultIp = (e', .ok ())) :
    stopDepth < e'.frames.length := by
  induction fuel generalizing e faultIp with
  | zero => cases congrArg Prod.snd h
  | succ fuel ih =>
    unfold unwindFrom at h
    split at h
    · cases congrArg Prod.snd h
    · rename_i f fs hframes
      split at h
      · cases congrArg Prod.snd h
      · rename_i habove
        split at h
        · cases congrArg Prod.snd h
        · rename_i r hfound
          have hframes := congrArg List.length
            (I.enterExceptionHandler_outline s e exn r f.operandBase)
          rw [h, Execution.outline, Execution.outline, List.length_map, List.length_map] at hframes
          have : e'.frames.length = e.frames.length := hframes
          omega
        · split at h
          · cases congrArg Prod.snd h
          · dsimp only at h
            split at h
            · cases congrArg Prod.snd h
            · split at h
              · cases congrArg Prod.snd h
              · split at h
                · cases congrArg Prod.snd h
                · exact ih h

theorem Interp.unwind_above (I : Interp σ) {s : σ} {e : Execution} {err : ExecError}
    {faultIp stopDepth : ℕ} (h : (I.unwind s e err faultIp stopDepth).2 = .ok ()) :
    stopDepth < (I.unwind s e err faultIp stopDepth).1.frames.length := by
  unfold unwind at h ⊢
  split at h
  · split at h
    · cases h
    · exact I.unwindFrom_above (Prod.ext rfl h)
  · cases h

namespace Denoted

variable (D : Denoted σ) (C : CompiledFunc)

/-- The unwinder runs no op. -/
theorem interp_findClause : (D.interp C).findClause = D.findClause := by
  have hrec : (D.interp C).findRec = D.findRec := by
    funext s inst thrown rs
    induction rs with
    | nil => rfl
    | cons r rs ih =>
      unfold Interp.findRec
      rw [ih]
      rfl
  funext s ip inst thrown spans
  induction spans with
  | nil => rfl
  | cons span spans ih =>
    unfold Interp.findClause
    rw [ih, hrec]

theorem interp_unwind : (D.interp C).unwind = D.unwind := by
  have hfrom : (D.interp C).unwindFrom = D.unwindFrom := by
    funext s exn thrown stopDepth n
    induction n with
    | zero => rfl
    | succ n ih =>
      funext e faultIp
      unfold Interp.unwindFrom
      rw [ih, interp_findClause]
      rfl
  funext s e err faultIp stopDepth
  unfold Interp.unwind
  rw [hfrom]
  rfl

end Denoted

section Answers

variable {D : Denoted σ} {P : Program D} {base : List Operand} {fs₀ : List Frame} {depth : ℕ}
  {acts : List Activation} {frames : List Frame} {st : StoreState σ} {k : ℕ} {mark : Mark}

/-- `run` entered again goes on where the source does. -/
theorem rerun_matches (hbase : Based base fs₀) {os : List Operand}
    (hp : Resumable P base fs₀ os.length acts frames) :
    Matches P fs₀ (D.goOn (Machine.give ⟨st, k, base, fs₀.length, depth, acts, .run⟩ os acts))
      (D.rerun fs₀.length st (.stacked frames depth (operandsOf base acts ++ os))) := by
  have hgive := give_matches depth st Interp.gcCheckInterval hbase hp .silent
  unfold Denoted.rerun
  cases hp with
  | nil =>
    rw [if_pos rfl] at hgive
    rw [Execution.stacked_frames, if_pos rfl]
    exact hgive
  | @cons a as f fs hf hat hw =>
    have hmore : ¬(f :: fs).length = fs₀.length := by
      have := hw.length
      rw [List.length_cons]
      omega
    have hframes : fs.length + 1 = as.length + 1 + fs₀.length := by
      rw [hw.length]
      omega
    have hover : operandsOf base (a :: as) ++ os
        = operandsOf base ({ a with vals := a.vals ++ os } :: as) := by
      rw [operandsOf, operandsOf, flat_append, ← List.append_assoc]
    rw [if_neg hmore, Machine.give, hover] at hgive
    rw [Execution.stacked_frames, if_neg hmore, Execution.stackBytes_stacked, Machine.give,
      Denoted.goOn, hover]
    dsimp only
    rw [List.length_cons, List.length_cons, hframes]
    generalize D.budget depth (operandsOf base ({ a with vals := a.vals ++ os } :: as)).length
      (as.length + 1 + fs₀.length) = result
    rcases result with err | bytes
    · exact .failed
    · dsimp only
      by_cases hfull : D.maxWasmStack ≤ bytes
      · rw [if_pos hfull, if_pos hfull]
        exact .failed
      · rw [if_neg hfull, if_neg hfull]
        exact hgive

variable (depth st k mark) in
/-- An exception of a host function is raised at its call. -/
theorem throwHost_meets (hbase : Based base fs₀) {owed : ℕ}
    (hw : Waiting P base fs₀ owed acts frames)
    (exn : ℕ) (doing : Doing) {u : Execution × Except ExecError Unit}
    (hu : u = D.raiseHostException st.rest (.stacked frames depth (operandsOf base acts)) exn
      fs₀.length) :
    (u.2 = .ok () → u.1.frames.length ≠ fs₀.length) ∧
      Meets P fs₀ (D.throwHost ⟨st, k, base, fs₀.length, depth, acts, doing⟩ exn)
        ⟨st, u.1, k, Execution.searched u, mark⟩ := by
  cases hw with
  | nil =>
    rw [Interp.raiseHostException, Execution.stacked_frames, if_pos (Nat.le_refl _)] at hu
    subst hu
    exact ⟨nofun, Matches.failed.meets⟩
  | @cons _ a as f fs hf hat hpos hcover hw =>
    have hmore : ¬(f :: fs).length ≤ fs₀.length := by
      have := hw.length
      rw [List.length_cons]
      omega
    have hraise : u = D.unwind st.rest (.stacked (f :: fs) depth (operandsOf base (a :: as)))
        (.pending exn) (f.ip - 1) fs₀.length := by
      rw [hu, Interp.raiseHostException, Execution.stacked_frames, if_neg hmore]
      exact if_neg (Nat.pos_iff_ne_zero.mp hpos)
    constructor
    · intro hok
      rw [hraise] at hok ⊢
      exact Nat.ne_of_gt (D.unwind_above hok)
    · rw [← D.interp_unwind f.code] at hraise
      exact raise_meets ⟨hbase, hf, hat.locals, hw⟩ (fun _ _ => hcover) a.vals st k hraise mark

/-- **The results of a host function, or its exception, go where the source sends them.** -/
theorem hostReturns_meets (hbase : Based base fs₀) {call : HostCallState}
    (hw : Waiting P base fs₀ call.sig.results.length acts frames) (r : Except ExecError (List Val))
    (doing : Doing) (st' : StoreState σ) :
    Meets P fs₀ (D.hostReturns ⟨st', k, base, fs₀.length, depth, acts, doing⟩ st call r)
      (D.returned fs₀.length st (.stacked frames depth (operandsOf base acts)) k call r) := by
  unfold Denoted.hostReturns Denoted.returned Interp.afterCallback
  cases hlatched : st.internalError with
  | some err => exact Matches.failed.meets
  | none =>
    dsimp only
    unfold Interp.finishHostCall
    rcases r with err | results
    · dsimp only
      by_cases hfresh : err = .thrown ∧ st.pendingGeneration ≠ call.scope.pendingGeneration
      · rw [if_pos hfresh, if_pos hfresh]
        cases hpending : st.pending with
        | none => exact Matches.failed.meets
        | some exn =>
          dsimp only
          obtain ⟨habove, hmeets⟩ := throwHost_meets depth
            ((st.truncateRoots call.scope.rootsMark).restorePending call.scope) k .silent
              hbase hw exn
            doing rfl
          generalize D.raiseHostException _ _ exn fs₀.length = u at habove hmeets ⊢
          obtain ⟨e, err | u⟩ := u
          · exact hmeets
          · dsimp only
            rw [if_neg (habove rfl)]
            exact hmeets
      · rw [if_neg hfresh, if_neg hfresh]
        exact Matches.failed.meets
    · dsimp only
      rcases hmatch : D.valuesMatch st.rest results call.sig.results with err | u
      · exact Matches.failed.meets
      · have hlen : call.sig.results.length = (results.map Operand.ofVal).length := by
          rw [List.length_map, P.results_match st.rest results call.sig.results hmatch]
        have hgive := give_matches depth (st.truncateRoots call.scope.rootsMark) k hbase
          (hlen ▸ hw.parked) .silent
        rw [Execution.pushAll_stacked]
        dsimp only
        refine Matches.meets ?_
        convert hgive using 1
        rw [Execution.stacked_frames]
        split <;> rfl

/-- What a growth leaves is owed to the activation that asked for it. -/
theorem growthMade_meets (hbase : Based base fs₀) {g : Growth} {r : Except ExecError (Option ℕ)}
    {owed : ℕ} (howed : ∀ old, (g.pushes old).length = owed)
    (hp : Resumable P base fs₀ owed acts frames) (doing : Doing) (st' : StoreState σ) :
    Matches P fs₀ (D.growthMade ⟨st', k, base, fs₀.length, depth, acts, doing⟩ st g r)
      (D.grown fs₀.length st (.stacked frames depth (operandsOf base acts)) k g r) := by
  cases r with
  | error err => exact .failed
  | ok old =>
    unfold Denoted.growthMade Denoted.grown
    dsimp only
    rw [pushGrown_eq, Execution.pushAll_stacked]
    exact rerun_matches hbase (by rw [howed old]; exact hp)

/-- An answer keeps the two runs together. -/
theorem Matches.answer {m : Machine σ} {t : Turned σ} (h : Matches P fs₀ m t) (ans : Answer σ) :
    Meets P fs₀ (D.answer m ans) (D.answered fs₀.length t ans) := by
  cases ans with
  | host f =>
    cases h with
    | run hr hat hshown => exact (Matches.run hr hat hshown).meets
    | poll hr hat => exact (Matches.poll hr hat).meets
    | callback hbase hw => exact hostReturns_meets hbase hw _ _ _
    | suspended hbase hasks hp => exact (Matches.suspended hbase hasks hp).meets
    | finished => exact Matches.finished.meets
    | failed => exact Matches.failed.meets
  | grown f =>
    cases h with
    | run hr hat hshown => exact (Matches.run hr hat hshown).meets
    | poll hr hat => exact (Matches.poll hr hat).meets
    | callback hbase hw => exact (Matches.callback hbase hw).meets
    | finished => exact Matches.finished.meets
    | failed => exact Matches.failed.meets
    | @suspended st k base depth acts frames o args owed mark hbase hasks hp =>
      unfold Denoted.answer Denoted.answered
      dsimp only
      cases o with
      | grow memory delta =>
        obtain ⟨rfl, rfl⟩ := hasks
        rw [List.append_nil]
        exact (growthMade_meets hbase (fun old => rfl) hp _ _).meets
      | tableGrow table delta init =>
        obtain ⟨rfl, rfl⟩ := hasks
        rw [List.append_nil]
        exact (growthMade_meets hbase (fun old => rfl) hp _ _).meets
      | gcGrow target bytes =>
        obtain ⟨rfl, rfl⟩ := hasks
        rw [List.append_nil]
        exact (growthMade_meets hbase (fun old => rfl) hp _ _).meets
      | hostAsync func inst => exact (Matches.suspended hbase hasks hp).meets
      | finished | fuelYield | epochDeadline => exact hasks.elim

end Answers

/-! ## The code refines its source -/

/-- What a halted run has come to. -/
def Machine.report (m : Machine σ) : Option Next :=
  match m.doing with
  | .run | .poll => none
  | .callback call => some (.callback call)
  | .suspended o _ _ => some (.leave (.ok o))
  | .finished => some (.leave (.ok .finished))
  | .failed err => some (.leave (.error err))

/-- The operands, those that a request hands over on top. -/
def Machine.operands (m : Machine σ) : List Operand :=
  operandsOf m.base m.acts ++
    match m.doing with
    | .suspended _ args _ => args
    | _ => []

/-- Two halted runs have come to the same: they give the same reason over the same store, and unless
they have failed they have the same operands. -/
structure Agree (m : Machine σ) (t : Turned σ) : Prop where
  report : m.report = some t.next
  store : m.st = t.st
  operands : (∀ err, t.next ≠ .leave (.error err)) →
    t.exec.values = m.operands.map Operand.cell ∧ t.exec.shadow = m.operands.map Operand.tag

theorem Matches.agree {D : Denoted σ} {P : Program D} {fs₀ : List Frame} {m : Machine σ}
    {t : Turned σ} (h : Matches P fs₀ m t) (hhalt : m.Halted) : Agree m t := by
  cases h with
  | run | poll => exact hhalt.elim
  | callback hbase hw =>
    refine ⟨rfl, rfl, fun _ => ?_⟩
    rw [Machine.operands, List.append_nil]
    exact ⟨rfl, rfl⟩
  | suspended hbase hasks hp => exact ⟨rfl, rfl, fun _ => ⟨rfl, rfl⟩⟩
  | finished =>
    refine ⟨rfl, rfl, fun _ => ?_⟩
    rw [Machine.operands, List.append_nil]
    exact ⟨rfl, rfl⟩
  | failed => exact ⟨rfl, rfl, fun hok => absurd rfl (hok _)⟩

/-- **The compiled code refines its source.**  A call, given any answers by the embedder, halts in
the flat loop if and only if its source does, and in the same way. -/
theorem served_refines {D : Denoted σ} (P : Program D) (st : StoreState σ) (base : List Operand)
    (frames : List Frame) (depth inst idx : ℕ) (args : List Val)
    (hargs : args.length = (P.fn inst idx).params.length) (answers : List (Answer σ)) :
    let e := Execution.stacked frames depth base
    let stop := frames.length + 1
    let source := Stuttering.Answered (D.step P.source) Machine.Halted D.answer
      (D.begin P.source st base stop (depth + (entryKind e).reserves) inst idx
        (args.map Operand.ofVal)) answers
    let code := Stuttering.Answered (D.follow stop) Turned.Stopped (D.answered stop)
      (D.entered st e inst idx (P.fn inst idx).code args) answers
    (∀ m, source m → ∃ t, code t ∧ Agree m t) ∧ ∀ t, code t → ∃ m, source m ∧ Agree m t := by
  intro e stop source code
  have hmatch := entered_matches P st base frames depth inst idx args hargs
  obtain ⟨hforward, hback⟩ := (follows_source P
    (entryFrame (entryKind e) inst (P.fn inst idx).code base :: frames)).answered
      (fun ans hm _ => hm.answer ans) hmatch answers
  constructor
  · intro m hm
    obtain ⟨t, ht, hrel⟩ := hforward m hm
    exact ⟨t, ht, hrel.agree hm.halts⟩
  · intro t ht
    obtain ⟨m, hm, hrel⟩ := hback t ht
    exact ⟨m, hm, hrel.agree hm.halts⟩

/-! ## A program that adds up -/

/-- One function type, `[i32] → [i32]`, and one function. -/
def sumTypes : ModuleTypes where
  ctx := ⟨[⟨0, .final, none, .func [.i32] [.i32]⟩], [0], [], 50000⟩
  globals := []
  tables := []
  memories := []
  elems := []
  sub := Eq
  sub_refl := Eq.refl
  sub_refKind := @IrVal.refKind_eq

/-- `if n = 0 then 0 else n + sum (n - 1)`. -/
def sumBody : Body :=
  .plain (.localGet 0) (.plain (.i32Const 0) (.plain (.relop .eq)
    (.ifElse (.type .i32)
      (.plain (.i32Const 0) .done)
      (.plain (.localGet 0) (.plain (.localGet 0) (.plain (.i32Const (-1)) (.plain (.binop .i32Add)
        (.call (.func 0) (.plain (.binop .i32Add) .done))))))
      .done)))

def sumCode : CompiledFunc where
  ops := [.plain (.localGet 0), .plain (.i32Const 0), .brIfCmp .eq true ⟨5, 0, 0⟩,
    .plain (.i32Const 0), .br ⟨11, 1, 0⟩, .plain (.localGet 0), .plain (.localGet 0),
    .plain (.i32Const (-1)), .plain (.binop .i32Add), .call (.func 0), .plain (.binop .i32Add)]
  typeIdx := 0
  nParams := 1
  nResults := 1
  localTypes := []
  maxOperands := 3
  handlers := []
  brTables := []
  bigMemargs := []

def sumFunc : Translated where
  module := sumTypes
  typeIdx := 0
  declared := []
  body := sumBody
  used := 1
  code := sumCode
  typed := by
    refine .plain [] (.localGet rfl) .nil ?_
    refine .plain [.i32] (.i32Const 0) .nil ?_
    refine .plain [] (.relop .eq) (.cons rfl (.cons rfl .nil)) ?_
    refine .ifElse [] .nil ?_ ?_ (.done (.cons rfl .nil))
    · exact .plain [] (.i32Const 0) .nil (.done (.cons rfl .nil))
    · refine .plain [] (.localGet rfl) .nil ?_
      refine .plain [.i32] (.localGet rfl) .nil ?_
      refine .plain [.i32, .i32] (.i32Const (-1)) .nil ?_
      refine .plain [.i32] (.binop .i32Add) (.cons rfl (.cons rfl .nil)) ?_
      refine .call [.i32] Nat.zero_lt_one (.cons rfl .nil) ?_
      exact .plain [] (.binop .i32Add) (.cons rfl (.cons rfl .nil))
        (.done (.cons rfl .nil))
  translated := rfl

/-- An engine that compares and adds. -/
def sumDenoted : Denoted Unit where
  toInterp :=
    { Interp.idle 1000000 false false with
      callee := fun c inst _ _ => match c with
        | .func _ => .ok (.wasm inst 0 sumCode)
        | _ => .error .nullReference
      valuesMatch := fun _ vs tys =>
        if vs.length = tys.length then .ok () else .error (.resultShape "wrong number of results") }
  den p _ := match p with
    | .relop kind => .relop kind 0
    | .binop .i32Add => .pop 2 Handler.scalars fun os => match os with
      | [a, b] => .push ⟨(a.cell.unwrapI32 + b.cell.unwrapI32).setWidth 64, .none⟩
          (.done (.ok (.advance 0)))
      | _ => .done (.error .unreachable)
    | _ => .done (.error .unreachable)
  raiser _ _ := .done (.error .unreachable)

def sumProgram : Program sumDenoted where
  fn _ _ := sumFunc
  den_takes := by
    intro inst idx p ins outs h
    cases h with
    | relop kind =>
      refine ⟨Nat.le_refl 2, fun os hos => ?_⟩
      obtain ⟨a, b, rfl⟩ := List.length_eq_two.mp hos
      intro out hout
      obtain rfl := Except.ok.inj hout
      rfl
    | binop b =>
      cases b with
      | i32Add =>
        refine ⟨Nat.le_refl 2, fun os hos => ?_⟩
        obtain ⟨a, b, rfl⟩ := List.length_eq_two.mp hos
        intro out hout
        obtain rfl := Except.ok.inj hout
        rfl
      | _ => exact nofun
    | _ => exact nofun
  den_relop _ _ := rfl
  raiser_takes _ _ := nofun
  callee_wasm := by
    intro inst idx c o s inst' idx' code hc hcallee
    cases c with
    | func i =>
      obtain rfl : i = 0 := Nat.lt_one_iff.mp hc
      obtain ⟨rfl, rfl, rfl⟩ := ResolvedCall.wasm.inj (Except.ok.inj hcallee)
      exact ⟨rfl, rfl, rfl⟩
    | indirect | ref => cases hcallee
  callee_host := by
    intro inst idx c o s func hc hcallee
    cases c with
    | func => obtain h | h := hcallee <;> cases h
    | indirect | ref => obtain h | h := hcallee <;> cases h
  exn_args := by
    intro inst idx s exn thrown args h tag htag
    exact absurd htag (Nat.not_lt_zero tag)
  results_match := by
    intro s vs tys h
    change (if vs.length = tys.length then _ else _) = _ at h
    split at h
    · assumption
    · cases h

/-- The sum of the numbers up to three, in the code and so in the source. -/
theorem served_refines_sum :
    ∃ m : Machine Unit,
      Stuttering.Answered (sumDenoted.step sumProgram.source) Machine.Halted sumDenoted.answer
        (sumDenoted.begin sumProgram.source (.new ()) [] 1 0 0 0 [Operand.ofVal (.i32 3)]) [] m ∧
      m.report = some (.leave (.ok .finished)) ∧ m.operands.map Operand.cell = [6] := by
  have hnext : ((sumDenoted.follow 1)^[40]
      (sumDenoted.entered (.new ()) .empty 0 0 sumCode [.i32 3])).next
        = .leave (.ok .finished) := rfl
  have hvalues : ((sumDenoted.follow 1)^[40]
      (sumDenoted.entered (.new ()) .empty 0 0 sumCode [.i32 3])).exec.values = [6] := rfl
  generalize hend : (sumDenoted.follow 1)^[40]
    (sumDenoted.entered (.new ()) .empty 0 0 sumCode [.i32 3]) = t at hnext hvalues
  have hcode : Stuttering.Answered (sumDenoted.follow 1) Turned.Stopped (sumDenoted.answered 1)
      (sumDenoted.entered (.new ()) .empty 0 0 sumCode [.i32 3]) [] t := by
    rw [← hend]
    refine .halt 40 ?_
    rw [hend, Turned.Stopped, hnext]
    exact trivial
  obtain ⟨m, hm, hagree⟩ :=
    (served_refines sumProgram (.new ()) [] [] 0 0 0 [.i32 3] rfl []).2 t hcode
  refine ⟨m, hm, hagree.report.trans (congrArg some hnext), ?_⟩
  rw [← (hagree.operands fun err h => ?_).1, hvalues]
  rw [hnext] at h
  cases h

end SubmilliWasm
