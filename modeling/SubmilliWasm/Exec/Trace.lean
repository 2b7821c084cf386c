/-
# Backtraces

A backtrace is built from the frames of the shared stack (`src/exec/trace.rs`): the frames of wasm
functions, most recent first, each with the source offset of an op, and a mark for each re-entry
from a host function.  The saved ip of a frame is taken for a return address, but for the topmost
frame of a trap or a throw, whose op is known where it is raised.

What the sites of a capture pass on is written here beside the loop that captures nothing.
-/
import SubmilliWasm.Exec.Isolation

namespace SubmilliWasm

variable {σ : Type}

/-! ## The data of a backtrace -/

/-- One frame of a backtrace; there is no offset where the table was not retained. -/
structure FrameInfo where
  moduleId : ℕ
  funcIndex : ℕ
  codeOffset : Option ℕ
  deriving DecidableEq, Repr

/-- The frames, most recent first, and for each re-entry the number of frames above it. -/
structure WasmBacktrace where
  frames : List FrameInfo
  hostBoundaries : List ℕ
  deriving DecidableEq, Repr

/-- The errors that are traps, and get a backtrace. -/
def ExecError.isTrap : ExecError → Bool
  | .stackOverflow | .outOfFuel | .interrupt | .unreachable | .nullReference | .trap _ => true
  | _ => false

/-- An outcome that leaves the frame suspended in a call does so behind the op. -/
def StepOutcome.ReturnsTo (next : ℕ) : StepOutcome → Prop
  | .doCall req => req.returnIp = next
  | .doHostCall _ _ returnIp | .doHostAsyncCall _ _ returnIp => returnIp = next
  | _ => True

/-- What holds of every outcome of a handler. -/
def Handler.Ends (P : StepOutcome → Prop) : Handler σ → Prop
  | .done (.ok out) => P out
  | .done (.error _) => True
  | .get k => ∀ s, (k s).Ends P
  | .look k => ∀ values shadow, (k values shadow).Ends P
  | .pop _ _ k => ∀ os, (k os).Ends P
  | .getLocal _ k => ∀ o, (k o).Ends P
  | .set _ k | .push _ k | .setLocal _ _ k | .branch _ k => k.Ends P

/-- An interpreter with what a backtrace reads: whether the engine captures any, the module of an
instance, which is registered before its code runs, the offset table of a function, and whether an
exception has a backtrace.  Straight-line ops call nothing, so where they suspend a frame in a
call is not asked. -/
structure Traced (σ : Type) extends Interp σ where
  wasmBacktrace : Bool
  instanceModule : ℕ → Option ℕ
  registered : ∀ inst, (instanceModule inst).isSome = true
  codeOffsets : ℕ → ℕ → Option (List ℕ)
  exnHasBacktrace : σ → ℕ → Bool
  plain_returns : ∀ p inst next, (plain p inst next).Ends (StepOutcome.ReturnsTo next)
  throwTag_returns : ∀ tag inst ip, (throwTag tag inst ip).Ends (StepOutcome.ReturnsTo (ip + 1))

namespace Traced

/-- One module for all instances. -/
theorem registered_first (_ : ℕ) : (some 0 : Option ℕ).isSome = true := rfl

variable (T : Traced σ)

/-! ## Capture -/

/-- Builds one frame's info, or none if the instance is not registered. -/
def frameInfo (inst funcIndex ip : ℕ) : Option FrameInfo :=
  (T.instanceModule inst).map fun moduleId =>
    ⟨moduleId, funcIndex, (T.codeOffsets inst funcIndex).bind fun offsets => offsets[ip]?⟩

/-- Walks the frames, most recent first; `topIp` overrides the ip of the topmost real frame. -/
def walk : List Frame → Option ℕ → List FrameInfo → List ℕ → WasmBacktrace
  | [], _, infos, boundaries => ⟨infos, boundaries⟩
  | f :: fs, topIp, infos, boundaries =>
    match f.delimiter with
    | some .hostReentry => walk fs topIp infos (boundaries ++ [infos.length])
    | some .topLevel => walk fs topIp infos boundaries
    | none =>
      let ip := topIp.getD (f.ip - 1)
      walk fs none (infos ++ (T.frameInfo f.inst f.funcIndex ip).toList) boundaries

def build (frames : List Frame) (topIp : Option ℕ) : WasmBacktrace := T.walk frames topIp [] []

/-- The backtrace the embedder captures from the parked execution. -/
def fromParked (slot : Execution) : WasmBacktrace := T.build slot.frames none

def captureBacktrace (e : Execution) (topIp : ℕ) : WasmBacktrace := T.build e.frames (some topIp)

/-- The backtrace attached to an error raised at `ip`, if it is a trap. -/
def attachTrapBacktrace (e : Execution) (err : ExecError) (ip : ℕ) : Option WasmBacktrace :=
  if T.wasmBacktrace && err.isTrap then some (T.captureBacktrace e ip) else none

/-- The backtrace attached to an error raised at a suspension point. -/
def attachSuspensionBacktrace (e : Execution) (err : ExecError) : Option WasmBacktrace :=
  match e.frames with
  | f :: _ => T.attachTrapBacktrace e err f.ip
  | [] => none

/-! ### The sites -/

/-- The head of `run` finds the stacks at their limit. -/
def runBacktrace (d : Drive) : Option WasmBacktrace :=
  if d.exec.frames.length = d.boundary.runStop then none
  else
    match d.exec.stackBytes T.frameSize with
    | .error _ => none
    | .ok bytes =>
      if T.maxWasmStack ≤ bytes then
        T.attachTrapBacktrace d.exec .stackOverflow ((d.exec.frames.head?.map Frame.ip).getD 0)
      else none

/-- The op at the current ip: a throw captures for its exception, a trap that no handler takes and
a call at the limit of the stacks for their error. -/
def executeBacktraces (st : StoreState σ) (e : Execution) (r : Regs) (stopDepth : ℕ) (op : Op) :
    List WasmBacktrace :=
  match (T.step r.code op (r.ip + 1) r.inst).run r.base e st.rest with
  | (e', s, .error err) =>
    let thrown := match op, err with
      | .throw _, .pending _ => if T.wasmBacktrace then [T.captureBacktrace e' r.ip] else []
      | _, _ => []
    let uncaught := match T.unwind s e' err r.ip stopDepth with
      | (e'', .error err') => (T.attachTrapBacktrace e'' err' r.ip).toList
      | (_, .ok ()) => []
    thrown ++ uncaught
  | (e', _, .ok (.doCall _)) =>
    match e'.stackBytes T.frameSize with
    | .error _ => []
    | .ok bytes =>
      if T.maxWasmStack ≤ bytes then (T.attachTrapBacktrace e' .stackOverflow r.ip).toList else []
  | (_, _, .ok _) => []

/-- One turn of the loop. -/
def turnBacktraces (st : StoreState σ) (e : Execution) (r : Regs) (stopDepth : ℕ) :
    List WasmBacktrace :=
  match r.code.ops[r.ip]? with
  | none => []
  | some op =>
    match T.serviceGates st e r.ip with
    | (_, e', .error err) => (T.attachTrapBacktrace e' err r.ip).toList
    | (_, _, .ok (some _)) => []
    | (st', e', .ok none) => T.executeBacktraces st' e' r stopDepth op

/-- An exception of a host function that has no backtrace yet gets one at the call. -/
def raiseHostBacktrace (s : σ) (e : Execution) (exn stopDepth : ℕ) : Option WasmBacktrace :=
  if e.frames.length ≤ stopDepth then none
  else
    match e.frames with
    | [] => none
    | f :: _ =>
      if f.ip = 0 then none
      else
        match T.exn s exn with
        | .error _ => none
        | .ok _ =>
          if !T.exnHasBacktrace s exn && T.wasmBacktrace then
            some (T.captureBacktrace e (f.ip - 1))
          else none

/-- The end of a host call that has thrown. -/
def hostCallBacktrace (st : StoreState σ) (e : Execution) (call : HostCallState)
    (outcome : Except ExecError (List Val)) (stopDepth : ℕ) : Option WasmBacktrace :=
  match st.internalError, outcome, st.pending with
  | none, .error .thrown, some exn =>
    if st.pendingGeneration ≠ call.scope.pendingGeneration then
      T.raiseHostBacktrace st.rest e exn stopDepth
    else none
  | _, _, _ => none

/-- The error the callback's answer comes to, if any. -/
def deadlineError (st : StoreState σ) (isAsync : Bool) (r : Except ExecError UpdateDeadline) :
    Option ExecError :=
  match st.internalError, r with
  | some err, _ => some err
  | none, .error err => some err
  | none, .ok .interrupt => some .interrupt
  | none, .ok (.continue_ _) => none
  | none, .ok (.yield _) => if isAsync then none else some .interrupt

/-- The backtraces a step captures. -/
def backtraces (c : Choice σ) (s : State σ) : List WasmBacktrace :=
  match c, s.guest, s.drives with
  | .go, true, d :: _ =>
    match d.pc with
    | .run _ => (T.runBacktrace d).toList
    | .loop r => T.turnBacktraces s.store d.exec r d.boundary.runStop
    | _ => []
  | .ret r, false, d :: _ =>
    match d.pc with
    | .hostFn call | .hostFnAsync call =>
      (T.hostCallBacktrace s.store s.slot call r d.boundary.runStop).toList
    | _ => []
  | .deadline r, false, d :: _ =>
    match d.pc with
    | .epochCallback _ =>
      ((deadlineError s.store d.isAsync r).bind (T.attachSuspensionBacktrace s.slot)).toList
    | _ => []
  | _, _, _ => []

end Traced

/-! ## What a backtrace shows -/

/-- The frames and the marks of the re-entries in the order of the stack. -/
def WasmBacktrace.items (bt : WasmBacktrace) : List (Option FrameInfo) :=
  (List.range (bt.frames.length + 1)).flatMap fun i =>
    List.replicate (bt.hostBoundaries.count i) none ++ (bt.frames[i]?.map some).toList

namespace WasmBacktrace

theorem items_mark (frames : List FrameInfo) (boundaries : List ℕ) :
    items ⟨frames, boundaries ++ [frames.length]⟩ = items ⟨frames, boundaries⟩ ++ [none] := by
  unfold items
  dsimp only
  rw [List.range_succ, List.flatMap_append, List.flatMap_append, List.append_assoc]
  congr 1
  · refine List.flatMap_congr fun i hi => ?_
    have hlt : i < frames.length := List.mem_range.mp hi
    rw [List.count_append, List.count_singleton, if_neg (by simpa using hlt.ne'), Nat.add_zero]
  · simp [List.count_append, List.replicate_succ']

theorem items_frame (frames : List FrameInfo) {boundaries : List ℕ} (info : FrameInfo)
    (hb : ∀ b ∈ boundaries, b ≤ frames.length) :
    items ⟨frames ++ [info], boundaries⟩ = items ⟨frames, boundaries⟩ ++ [some info] := by
  have hnone : boundaries.count (frames.length + 1) = 0 :=
    List.count_eq_zero.mpr fun hmem => by
      have := hb _ hmem
      omega
  unfold items
  dsimp only
  rw [List.length_append, List.length_singleton, List.range_succ, List.range_succ,
    List.flatMap_append, List.flatMap_append, List.flatMap_append, List.append_assoc,
    List.append_assoc]
  congr 1
  · refine List.flatMap_congr fun i hi => ?_
    have hlt : i < frames.length := List.mem_range.mp hi
    rw [List.getElem?_append_left hlt]
  · simp [hnone]

end WasmBacktrace

/-- Every frame is suspended in a call: the saved ip is the return address behind its site. -/
def AtCalls (frames : List Frame) (sites : List ℕ) : Prop :=
  List.Forall₂ (fun f site => f.delimiter = none → f.ip - 1 = site) frames sites

namespace Traced

variable (T : Traced σ)

/-- A frame at an op. -/
def shown (inst funcIndex site : ℕ) : FrameInfo :=
  ⟨(T.instanceModule inst).get (T.registered inst), funcIndex,
    (T.codeOffsets inst funcIndex).bind fun offsets => offsets[site]?⟩

theorem frameInfo_shown (inst funcIndex site : ℕ) :
    T.frameInfo inst funcIndex site = some (T.shown inst funcIndex site) := by
  obtain ⟨moduleId, hmodule⟩ := Option.isSome_iff_exists.mp (T.registered inst)
  unfold frameInfo shown
  simp only [hmodule, Option.map_some, Option.get_some]

/-- What a backtrace of these frames is to show: every frame, at the op at its site, and a mark
for every re-entry. -/
def traceItems (frames : List Frame) (sites : List ℕ) : List (Option FrameInfo) :=
  (frames.zip sites).flatMap fun p =>
    match p.1.delimiter with
    | none => [some (T.shown p.1.inst p.1.funcIndex p.2)]
    | some .hostReentry => [none]
    | some .topLevel => []

/-- The backtrace shows the live frames, most recent first, each at the op it executes, and a mark
for each re-entry between the frames it lies between. -/
def Exact (frames : List Frame) (sites : List ℕ) (bt : WasmBacktrace) : Prop :=
  bt.items = T.traceItems frames sites

instance (frames : List Frame) (sites : List ℕ) (bt : WasmBacktrace) :
    Decidable (T.Exact frames sites bt) :=
  inferInstanceAs (Decidable (bt.items = T.traceItems frames sites))

variable {T} {frames : List Frame} {sites : List ℕ}

theorem walk_items (h : AtCalls frames sites) {infos : List FrameInfo} {boundaries : List ℕ}
    (hb : ∀ b ∈ boundaries, b ≤ infos.length) :
    (T.walk frames none infos boundaries).items =
      WasmBacktrace.items ⟨infos, boundaries⟩ ++ T.traceItems frames sites := by
  induction h generalizing infos boundaries with
  | nil => exact (List.append_nil _).symm
  | @cons f site fs sites hf _ ih =>
    have hitems : T.traceItems (f :: fs) (site :: sites) =
        (match f.delimiter with
          | none => [some (T.shown f.inst f.funcIndex site)]
          | some .hostReentry => [none]
          | some .topLevel => []) ++ T.traceItems fs sites := rfl
    rw [hitems]
    unfold walk
    cases hd : f.delimiter with
    | none =>
      have hip : f.ip - 1 = site := hf hd
      dsimp only [Option.getD_none]
      rw [hip, frameInfo_shown, Option.toList_some]
      have hb' : ∀ b ∈ boundaries,
          b ≤ (infos ++ [T.shown f.inst f.funcIndex site]).length := by
        intro b hmem
        have := hb b hmem
        rw [List.length_append]
        omega
      rw [ih hb', WasmBacktrace.items_frame infos _ hb, List.append_assoc]
    | some kind =>
      cases kind with
      | topLevel => exact ih hb
      | hostReentry =>
        have hb' : ∀ b ∈ boundaries ++ [infos.length], b ≤ infos.length := by
          intro b hmem
          rcases List.mem_append.mp hmem with hmem | hmem
          · exact hb b hmem
          · exact le_of_eq (List.mem_singleton.mp hmem)
        dsimp only
        rw [ih hb', WasmBacktrace.items_mark, List.append_assoc]

/-- **A capture from parked frames** is exact where every frame is suspended in a call. -/
theorem build_parked (h : AtCalls frames sites) : T.Exact frames sites (T.build frames none) :=
  walk_items h fun _ hmem => absurd hmem List.not_mem_nil

/-- **A capture at a known op** is exact where the frames below the topmost are suspended in
calls. -/
theorem build_top {f : Frame} {site : ℕ} (hf : f.delimiter = none) (h : AtCalls frames sites) :
    T.Exact (f :: frames) (site :: sites) (T.build (f :: frames) (some site)) := by
  have hitems : T.traceItems (f :: frames) (site :: sites) =
      [some (T.shown f.inst f.funcIndex site)] ++ T.traceItems frames sites := by
    unfold traceItems
    rw [List.zip_cons_cons, List.flatMap_cons, hf]
  unfold Exact build walk
  rw [hf, hitems]
  dsimp only [Option.getD_some, List.nil_append]
  rw [walk_items h fun _ hmem => absurd hmem List.not_mem_nil, frameInfo_shown]
  rfl

end Traced

end SubmilliWasm
