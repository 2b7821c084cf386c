/-
# Where control lands

The edges of the code against the labels of the body.  Every op that can leave a sequence is in the
code where the sequence has it, and its edge moves the operands and goes on as a branch to its label
does (`Lands`).  An exception is caught by the clause that the exception table gives, and the pad of
that clause branches to its label with the operands of the exception (`Opened.unwind`).
-/
import SubmilliWasm.Exec.Located

namespace SubmilliWasm

open Nested

variable {σ : Type} {C : CompiledFunc} {M : ModuleTypes} {locals results : List IrVal} {S : Site}
  {ss : List Construct} {cmp : Option CmpKind} {ip n h : ℕ}

/-! ## Branches -/

/-- A branch over the edge `e` is one to the label `l`: it moves the operands as the edge says, and
goes on at its address. -/
structure Lands (C : CompiledFunc) (M : ModuleTypes) (locals results : List IrVal)
    (ss : List Construct) (vals : List Operand) (l : ℕ) (e : BranchTarget) : Prop where
  fits : e.keep + e.pop ≤ (flat ss vals).length
  goes : ∃ k ss' vals', Nested.branch l ss vals = some (k, ss', vals') ∧
    Standing C M locals results ss' vals' none k e.ip 0 ∧
    flat ss' vals' = (flat ss vals).take ((flat ss vals).length - e.keep - e.pop)
      ++ (flat ss vals).drop ((flat ss vals).length - e.keep)

section Lands

variable {vals : List Operand} {l : ℕ} {e : BranchTarget} {ls : List IrVal}

/-- An edge to a label in scope lands there. -/
theorem Opened.lands_at (hopen : Opened C M locals results ss S) (vals : List Operand) {T : Target}
    (hT : S.targets[l]? = some T) (hlive : T.live = true)
    (hle : T.base + T.arity ≤ floor ss + vals.length) (harity : T.arity ≤ vals.length) :
    Lands C M locals results ss vals l (T.edge (floor ss + vals.length)) := by
  have hlen := length_flat ss vals
  obtain ⟨k, ss', vals', hbranch, hstand, hflat⟩ := hopen.branch hT hlive harity
  refine ⟨?_, k, ss', vals', hbranch, hstand, ?_⟩
  · show T.arity + (floor ss + vals.length - (T.base + T.arity)) ≤ _
    omega
  · have hbase : (flat ss vals).length - T.arity - (floor ss + vals.length - (T.base + T.arity))
        = T.base := by omega
    have hcarried : (flat ss vals).drop ((flat ss vals).length - T.arity)
        = vals.drop (vals.length - T.arity) := by
      rw [hlen, flat_eq, floor, Nat.add_sub_assoc harity, ← List.drop_drop, List.drop_left]
    show _ = (flat ss vals).take ((flat ss vals).length - T.arity
      - (floor ss + vals.length - (T.base + T.arity))) ++ _
    rw [hflat, hbase]
    exact congrArg _ hcarried.symm

theorem Opened.lands (hopen : Opened C M locals results ss S)
    (he : EdgeTo S.targets (floor ss + vals.length) l e) (hl : S.labels[l]? = some ls)
    (hle : ls.length ≤ vals.length) : Lands C M locals results ss vals l e := by
  obtain ⟨T, hT, hlive, hfits, rfl, harity⟩ := he.label hopen hl
  exact hopen.lands_at vals hT hlive hfits (by omega)

variable {k : Body}

/-- `br_if`, fused with a comparison or not. -/
theorem Here.brIf (hopen : Opened C M locals results ss S)
    (hhere : Here C M locals results S cmp (.cond (.brIf l) k) ip (vals.length + 1)
      (floor ss + vals.length + 1)) :
    ∃ e, C.ops[ip]? = some (Translator.condBranch cmp false e) ∧
      Lands C M locals results ss vals l e ∧
      Standing C M locals results ss vals none k (ip + 1) 0 := by
  obtain ⟨⟨out, hs, hcode, hout, hcover⟩, ⟨ts, hts, htyped⟩, hends⟩ := hhere
  have hroot : S.targets ≠ [] := fun h => nomatch hends h
  have hheight : floor ss + vals.length + 1 - 1 = floor ss + vals.length := Nat.add_sub_cancel _ 1
  cases htyped with
  | @cond _ _ _ _ ts' _ hc hk =>
  cases hc with
  | @brIf _ ls vs rest hl hsub =>
  have hlen := hsub.length_eq
  simp only [List.length_append, List.length_singleton] at hts
  cases hcode with
  | @brIf _ _ _ _ e _ _ _ _ _ hh hop he hkc =>
  rw [hheight] at he hkc
  obtain ⟨hnext, -⟩ := Here.next hkc hout hcover hk hroot
  have hcount : (rest ++ ls).length = vals.length := by
    rw [List.length_append]
    omega
  rw [hcount] at hnext
  exact ⟨e, hop, hopen.lands he hl (by omega), S, hopen, hnext⟩

/-- `br_on_null` keeps a reference that is not null. -/
theorem Here.brOnNull (hopen : Opened C M locals results ss S)
    (hhere : Here C M locals results S none (.cond (.brOnNull l) k) ip (vals.length + 1)
      (floor ss + vals.length + 1)) :
    ∃ e, C.ops[ip]? = some (.brOnNull e) ∧ Lands C M locals results ss vals l e ∧
      ∀ r, Standing C M locals results ss (vals ++ [r]) none k (ip + 1) 0 := by
  obtain ⟨⟨out, hs, hcode, hout, hcover⟩, ⟨ts, hts, htyped⟩, hends⟩ := hhere
  have hroot : S.targets ≠ [] := fun h => nomatch hends h
  have hheight : floor ss + vals.length + 1 - 1 = floor ss + vals.length := Nat.add_sub_cancel _ 1
  cases htyped with
  | @cond _ _ _ _ ts' _ hc hk =>
  cases hc with
  | @brOnNull _ ls vs nullable heap rest hl hsub =>
  have hlen := hsub.length_eq
  simp only [List.length_append, List.length_singleton] at hts
  cases hcode with
  | @brOnNull _ _ _ e _ _ _ _ _ hh hop he hkc =>
  rw [hheight] at he hkc
  obtain ⟨hnext, -⟩ := Here.next hkc hout hcover hk hroot
  have hcount : (rest ++ ls ++ [IrVal.ref false heap]).length = vals.length + 1 := by
    simp only [List.length_append, List.length_singleton]
    omega
  rw [hcount] at hnext
  refine ⟨e, hop, hopen.lands he hl (by omega), fun r => ⟨S, hopen, ?_⟩⟩
  rw [List.length_append, List.length_singleton]
  exact hnext

/-- `br_on_non_null` takes the reference along. -/
theorem Here.brOnNonNull (hopen : Opened C M locals results ss S)
    (hhere : Here C M locals results S none (.cond (.brOnNonNull l) k) ip (vals.length + 1)
      (floor ss + vals.length + 1)) :
    ∃ e, C.ops[ip]? = some (.brOnNonNull e) ∧
      (∀ r, Lands C M locals results ss (vals ++ [r]) l e) ∧
      Standing C M locals results ss vals none k (ip + 1) 0 := by
  obtain ⟨⟨out, hs, hcode, hout, hcover⟩, ⟨ts, hts, htyped⟩, hends⟩ := hhere
  have hroot : S.targets ≠ [] := fun h => nomatch hends h
  have hheight : floor ss + vals.length + 1 - 1 = floor ss + vals.length := Nat.add_sub_cancel _ 1
  cases htyped with
  | @cond _ _ _ _ ts' _ hc hk =>
  cases hc with
  | @brOnNonNull _ ls vs nullable m heap heap' rest hl hsub hs =>
  have hlen := hsub.length_eq
  simp only [List.length_append, List.length_singleton] at hts
  cases hcode with
  | @brOnNonNull _ _ _ e _ _ _ _ _ hop he hkc =>
  rw [hheight] at hkc
  obtain ⟨hnext, -⟩ := Here.next hkc hout hcover hk hroot
  have hcount : (rest ++ ls).length = vals.length := by
    rw [List.length_append]
    omega
  rw [hcount] at hnext
  refine ⟨e, hop, fun r => ?_, S, hopen, hnext⟩
  refine hopen.lands ?_ hl ?_
  · rw [List.length_append, List.length_singleton, ← Nat.add_assoc]
    exact he
  · simp only [List.length_append, List.length_singleton]
    omega

/-- A cast keeps its reference on both ways. -/
theorem Here.brOnCast (hopen : Opened C M locals results ss S) {ty : IrHeap} {nullable fail : Bool}
    (hhere : Here C M locals results S none (.cond (.brOnCast l ty nullable fail) k) ip
      (vals.length + 1) (floor ss + vals.length + 1)) :
    ∃ pool e, C.ops[ip]? = some (.brOnCast ty pool nullable fail) ∧ C.brTables[pool]? = some e ∧
      (∀ r, Lands C M locals results ss (vals ++ [r]) l e) ∧
      (∀ r, Standing C M locals results ss (vals ++ [r]) none k (ip + 1) 0) ∧
      C.handlers.filter (·.covers ip) = S.spans := by
  obtain ⟨⟨out, hs, hcode, hout, hcover⟩, ⟨ts, hts, htyped⟩, hends⟩ := hhere
  have hroot : S.targets ≠ [] := fun h => nomatch hends h
  cases htyped with
  | @cond _ _ _ _ ts' _ hc hk =>
  cases hcode with
  | @brOnCast _ _ _ _ _ _ pool e _ _ _ _ _ hop hpool he hkc =>
  obtain ⟨hnext, hcovered⟩ := Here.next hkc hout hcover hk hroot
  have hcount : ts'.length = vals.length + 1 ∧
      ∃ ls, S.labels[l]? = some ls ∧ ls.length ≤ vals.length + 1 := by
    cases hc with
    | brOnCast rest hl hsub hk hv hw =>
      have hlen := hsub.length_eq
      simp only [List.length_append, List.length_singleton] at hts ⊢
      refine ⟨by omega, _, hl, ?_⟩
      simp only [List.length_append, List.length_singleton]
      omega
    | brOnCastFail rest hl hsub hk hv =>
      have hlen := hsub.length_eq
      simp only [List.length_append, List.length_singleton] at hts ⊢
      refine ⟨by omega, _, hl, ?_⟩
      simp only [List.length_append, List.length_singleton]
      omega
  obtain ⟨hcount, ls, hl, hle⟩ := hcount
  rw [hcount] at hnext
  refine ⟨pool, e, hop, hpool, fun r => ?_, fun r => ⟨S, hopen, ?_⟩, hcovered⟩
  · refine hopen.lands ?_ hl ?_
    · rw [List.length_append, List.length_singleton, ← Nat.add_assoc]
      exact he
    · rw [List.length_append, List.length_singleton]
      exact hle
  · rw [List.length_append, List.length_singleton]
    exact hnext

/-- Only a conditional takes in the comparison before it. -/
theorem Here.fused {kind : CmpKind} {b : Body}
    (hhere : Here C M locals results S (some kind) b ip n h) :
    (∃ negate t, C.ops[ip]? = some (.brIfCmp kind negate t)) ∧
      ((∃ bt t e k, b = .ifElse bt t e k) ∨ (∃ bt t k, b = .ifThen bt t k) ∨
        ∃ l k, b = .cond (.brIf l) k) := by
  obtain ⟨⟨out, hs, hcode, -, -⟩, -, -⟩ := hhere
  generalize S.stop = stop at hcode
  cases hcode with
  | ifElse hps hop => exact ⟨⟨true, _, hop⟩, Or.inl ⟨_, _, _, _, rfl⟩⟩
  | ifThen hps hop => exact ⟨⟨true, _, hop⟩, Or.inr (Or.inl ⟨_, _, _, rfl⟩)⟩
  | brIf hh hop => exact ⟨⟨false, _, hop⟩, Or.inr (Or.inr ⟨_, _, rfl⟩)⟩

theorem Here.br (hopen : Opened C M locals results ss S)
    (hhere : Here C M locals results S none (.jump (.br l) k) ip vals.length
      (floor ss + vals.length)) :
    ∃ e, C.ops[ip]? = some (.br e) ∧ Lands C M locals results ss vals l e := by
  obtain ⟨⟨out, hs, hcode, hout, hcover⟩, ⟨ts, hts, htyped⟩, hends⟩ := hhere
  cases htyped with
  | jump hj =>
  cases hj with
  | @br _ ls vs rest hl hsub =>
  have hlen := hsub.length_eq
  rw [List.length_append] at hts
  generalize S.stop = stop at hcode
  cases hcode with
  | @br _ _ _ e _ _ hop he => exact ⟨e, hop, hopen.lands he hl (by omega)⟩

/-- Every case of a table has its edge, the default behind the others. -/
theorem Here.brTable (hopen : Opened C M locals results ss S) {cases_ : List ℕ} {default : ℕ}
    (hhere : Here C M locals results S none (.jump (.brTable cases_ default) k) ip
      (vals.length + 1) (floor ss + vals.length + 1)) :
    ∃ base, C.ops[ip]? = some (.brTable base cases_.length) ∧
      ∀ i l, (cases_ ++ [default])[i]? = some l → ∃ e, C.brTables[base + i]? = some e ∧
        Lands C M locals results ss vals l e := by
  obtain ⟨⟨out, hs, hcode, hout, hcover⟩, ⟨ts, hts, htyped⟩, hends⟩ := hhere
  cases htyped with
  | jump hj =>
  cases hj with
  | @brTable _ _ vs rest hlabels =>
  simp only [List.length_append, List.length_singleton] at hts
  generalize S.stop = stop at hcode
  cases hcode with
  | @brTable _ _ _ _ base _ _ hop hh hedges =>
    refine ⟨base, hop, fun i l hi => ?_⟩
    obtain ⟨e, hpool, he⟩ := hedges i l hi
    obtain ⟨ls, hl, hsub⟩ := hlabels l (List.mem_of_getElem? hi)
    have hlen := hsub.length_eq
    exact ⟨e, hpool, hopen.lands he hl (by omega)⟩

/-- A return is a branch to the label of the function. -/
theorem Here.ret (hopen : Opened C M locals results ss S)
    (hhere : Here C M locals results S none (.jump .ret k) ip vals.length
      (floor ss + vals.length)) :
    ∃ e, C.ops[ip]? = some (.br e) ∧ Lands C M locals results ss vals (ss.length - 1) e := by
  obtain ⟨⟨out, hs, hcode, hout, hcover⟩, ⟨ts, hts, htyped⟩, hends⟩ := hhere
  cases htyped with
  | jump hj =>
  cases hj with
  | @ret vs rest hsub =>
  have hlen := hsub.length_eq
  rw [List.length_append] at hts
  generalize S.stop = stop at hcode
  cases hcode with
  | @ret _ _ T _ _ hT hh hop =>
    obtain ⟨hbase, harity, hlive⟩ := hopen.last hT
    rw [List.getLast?_eq_getElem?, hopen.length_targets] at hT
    have hlands := hopen.lands_at vals hT hlive (by omega) (by omega)
    unfold Target.edge at hlands
    rw [hbase, Nat.zero_add] at hlands
    exact ⟨_, hop, hlands⟩

/-- An op that only raises is covered by the surroundings. -/
theorem covered_last {hs : List HandlerSpan} (hcover : ∀ j, ip ≤ j → j < ip + 1 →
      C.handlers.filter (·.covers j) = hs.filter (·.covers j) ++ S.spans) (hhs : hs = []) :
    C.handlers.filter (·.covers ip) = S.spans := by
  rw [hcover ip (Nat.le_refl ip) (Nat.lt_succ_self ip), hhs]
  rfl

theorem Here.unreachable (hhere : Here C M locals results S none (.jump .unreachable k) ip n h) :
    C.ops[ip]? = some .unreachable := by
  obtain ⟨⟨out, hs, hcode, -, -⟩, -, -⟩ := hhere
  generalize S.stop = stop at hcode
  cases hcode with
  | unreachable hop => exact hop

theorem Here.throw {tag : ℕ}
    (hhere : Here C M locals results S none (.jump (.throw tag) k) ip n h) :
    C.ops[ip]? = some (.throw tag) ∧ tag < M.ctx.tagTypes.length ∧
      (M.ctx.tagParams tag).length ≤ n ∧ C.handlers.filter (·.covers ip) = S.spans := by
  obtain ⟨⟨out, hs, hcode, hout, hcover⟩, ⟨ts, hts, htyped⟩, hends⟩ := hhere
  cases htyped with
  | jump hj =>
  cases hj with
  | @throw _ vs rest ht hsub =>
  have hlen := hsub.length_eq
  rw [List.length_append] at hts
  generalize S.stop = stop at hcode hcover
  cases hcode with
  | throw hop => exact ⟨hop, ht, by omega, covered_last hcover rfl⟩

theorem Here.throwRef (hhere : Here C M locals results S none (.jump .throwRef k) ip n h) :
    C.ops[ip]? = some .throwRef ∧ C.handlers.filter (·.covers ip) = S.spans := by
  obtain ⟨⟨out, hs, hcode, hout, hcover⟩, -, -⟩ := hhere
  generalize S.stop = stop at hcode hcover
  cases hcode with
  | throwRef hop => exact ⟨hop, covered_last hcover rfl⟩

theorem Here.returnCall {c : CallTarget}
    (hhere : Here C M locals results S none (.jump (.returnCall c) k) ip n h) :
    C.ops[ip]? = some (.returnCall c) ∧ M.CallOk c ∧ (M.callOperands c).length ≤ n ∧
      (Translator.callSig M.ctx c).2.length = results.length ∧
      C.handlers.filter (·.covers ip) = S.spans := by
  obtain ⟨⟨out, hs, hcode, hout, hcover⟩, ⟨ts, hts, htyped⟩, hends⟩ := hhere
  cases htyped with
  | jump hj =>
  cases hj with
  | @returnCall _ vs rest hc hsub hr =>
  have hlen := hsub.length_eq
  rw [List.length_append] at hts
  generalize S.stop = stop at hcode hcover
  cases hcode with
  | returnCall hop => exact ⟨hop, hc, by omega, hr.length_eq, covered_last hcover rfl⟩

theorem Here.call {c : CallTarget} (hhere : Here C M locals results S none (.call c k) ip n h) :
    C.ops[ip]? = some (.call c) ∧ M.CallOk c ∧ (M.callOperands c).length ≤ n ∧
      Here C M locals results S none k (ip + 1)
        (n - (M.callOperands c).length + (Translator.callSig M.ctx c).2.length)
        (h - (M.callOperands c).length + (Translator.callSig M.ctx c).2.length) ∧
      C.handlers.filter (·.covers ip) = S.spans := by
  obtain ⟨⟨out, hs, hcode, hout, hcover⟩, ⟨ts, hts, htyped⟩, hends⟩ := hhere
  have hroot : S.targets ≠ [] := fun h => nomatch hends h
  cases htyped with
  | @call _ _ _ vs _ rest hc hsub hk =>
  have hlen := hsub.length_eq
  rw [List.length_append] at hts
  cases hcode with
  | call hop hkc =>
    rw [M.callPops_eq] at hkc
    obtain ⟨hnext, hcovered⟩ := Here.next hkc hout hcover hk hroot
    have hcount : (rest ++ (Translator.callSig M.ctx c).2).length
        = n - (M.callOperands c).length + (Translator.callSig M.ctx c).2.length := by
      rw [List.length_append]
      omega
    rw [hcount] at hnext
    exact ⟨hop, hc, by omega, hnext, hcovered⟩

end Lands

/-! ## Exceptions -/

section Exceptions

variable {I : Interp σ} {s : σ} {inst thrown : ℕ}

/-- Only the spans that cover the ip are searched. -/
theorem Interp.findClause_filter (I : Interp σ) (s : σ) (ip inst thrown : ℕ)
    (spans : List HandlerSpan) :
    I.findClause s ip inst thrown spans
      = I.findClause s ip inst thrown (spans.filter (·.covers ip)) := by
  induction spans with
  | nil => rfl
  | cons span spans ih =>
    by_cases hin : span.startIp ≤ ip ∧ ip < span.endIp
    · have hcovers : span.covers ip = true := decide_eq_true hin
      simp only [List.filter_cons, hcovers, if_true, Interp.findClause, if_pos hin, ih]
    · have hcovers : span.covers ip = false := decide_eq_false hin
      simp only [List.filter_cons, hcovers, Bool.false_eq_true, if_false, Interp.findClause,
        if_neg hin, ih]

/-- The clause of the table for a catch, and its pad. -/
structure PadOf (C : CompiledFunc) (ctx : CompileCtx) (Ls : List Target) (base : ℕ) (c : Catch)
    (r : HandlerRec) (e : BranchTarget) : Prop where
  restore : r.restoreHeight = base
  args : r.payloadArgs = (convCatch c).payloadArgs
  ref : r.payloadRef = (convCatch c).payloadRef
  op : C.ops[r.landingIp]? = some (.br e)
  edge : EdgeTo Ls (base + Translator.payloadCount ctx (convCatch c)) c.label e

variable (I s inst thrown) in
/-- The table of a construct names the clause that catches. -/
theorem Pads.find {Ls : List Target} {base : ℕ} {clauses : List Catch} {recs : List HandlerRec}
    (hp : Pads C M.ctx Ls base clauses ip recs) :
    (∀ err, catcher (I.catches s inst thrown) clauses = .error err →
      I.findRec s inst thrown recs = .error err) ∧
    (catcher (I.catches s inst thrown) clauses = .ok none →
      I.findRec s inst thrown recs = .ok none) ∧
    ∀ c, catcher (I.catches s inst thrown) clauses = .ok (some c) →
      ∃ r e, I.findRec s inst thrown recs = .ok (some r) ∧ PadOf C M.ctx Ls base c r e := by
  induction hp with
  | nil => exact ⟨fun _ h => (by cases h), fun _ => rfl, fun _ h => by cases h⟩
  | @cons c cs ip e recs hop he hp ih =>
    have hpad : ∀ tag, PadOf C M.ctx Ls base c
        ⟨tag, base, (convCatch c).payloadArgs, (convCatch c).payloadRef, ip⟩ e :=
      fun _ => ⟨rfl, rfl, rfl, hop, he⟩
    rw [catcher, Interp.findRec, Interp.catches]
    cases (convCatch c).tag with
    | none =>
      refine ⟨fun _ h => (by cases h), fun h => (by cases h), fun c' hc' => ?_⟩
      obtain rfl := Option.some.inj (Except.ok.inj hc')
      exact ⟨_, e, rfl, hpad _⟩
    | some idx =>
      dsimp only
      cases I.tag s inst idx with
      | none =>
        refine ⟨fun err herr => ?_, fun h => (by cases h), fun _ h => by cases h⟩
        obtain rfl := Except.error.inj herr
        rfl
      | some tag =>
        by_cases htag : tag = thrown
        · dsimp only
          rw [if_pos htag, decide_eq_true htag]
          refine ⟨fun _ h => (by cases h), fun h => (by cases h), fun c' hc' => ?_⟩
          obtain rfl := Option.some.inj (Except.ok.inj hc')
          exact ⟨_, e, rfl, hpad _⟩
        · dsimp only
          rw [if_neg htag, decide_eq_false htag]
          exact ih

/-- What a live exception holds: as many arguments as the tag has parameters under which a module
knows it. -/
def Interp.ArgsOk (I : Interp σ) (M : ModuleTypes) (s : σ) (inst thrown : ℕ) (args : List Val) :
    Prop :=
  ∀ idx, idx < M.ctx.tagTypes.length → I.tag s inst idx = some thrown →
    args.length = (M.ctx.tagParams idx).length

/-- A clause that catches hands over as many operands as its type has. -/
theorem Catch.length_payload {c : Catch} {args : List Val} (hargs : I.ArgsOk M s inst thrown args)
    (htag : ModuleTypes.Catch.tagOk M c) (hcatch : I.catches s inst thrown c = .ok true) (exn : ℕ) :
    (c.payload exn args).length = Translator.payloadCount M.ctx (convCatch c) ∧
      (M.catchTypes c).length = (c.payload exn args).length := by
  have hcaught : ∀ idx, (convCatch c).tag = some idx → I.tag s inst idx = some thrown := by
    intro idx hidx
    rw [Interp.catches, hidx] at hcatch
    dsimp only at hcatch
    split at hcatch
    · cases hcatch
    · rename_i tag htag
      rw [htag, of_decide_eq_true (Except.ok.inj hcatch)]
  cases c with
  | one tag l =>
    have hlen := hargs tag htag (hcaught tag rfl)
    simp [Catch.payload, Translator.payloadCount, convCatch, ModuleTypes.catchTypes, hlen]
  | oneRef tag l =>
    have hlen := hargs tag htag (hcaught tag rfl)
    simp [Catch.payload, Translator.payloadCount, convCatch, ModuleTypes.catchTypes, hlen]
  | all l => exact ⟨rfl, rfl⟩
  | allRef l => exact ⟨rfl, rfl⟩

/-- The clause of the exception table is that of the construct, and its pad branches to the label
of the clause. -/
structure Caught (C : CompiledFunc) (M : ModuleTypes) (locals results : List IrVal) (exn : ℕ)
    (args : List Val) (c : Catch) (ss : List Construct) (below : List Operand) (r : HandlerRec) :
    Prop where
  restore : r.restoreHeight = (flat ss below).length
  hasArgs : r.payloadArgs = (convCatch c).payloadArgs
  hasRef : r.payloadRef = (convCatch c).payloadRef
  pad : ∃ e, C.ops[r.landingIp]? = some (.br e) ∧
    Lands C M locals results ss (below ++ c.payload exn args) c.label e

/-- **The exception table is that of the constructs.**  At an ip whose spans are those around an
activation the table names the clause that catches in the innermost construct, if there is one. -/
theorem Opened.unwind (hopen : Opened C M locals results ss S)
    (hcover : C.handlers.filter (·.covers ip) = S.spans) (exn : ℕ) {args : List Val}
    (hargs : I.ArgsOk M s inst thrown args) :
    (∀ err, Nested.unwind (I.catches s inst thrown) ss = .error err →
      I.findClause s ip inst thrown C.handlers = .error err) ∧
    (Nested.unwind (I.catches s inst thrown) ss = .ok none →
      I.findClause s ip inst thrown C.handlers = .ok none) ∧
    ∀ c ss' below, Nested.unwind (I.catches s inst thrown) ss = .ok (some (c, ss', below)) →
      ∃ r, I.findClause s ip inst thrown C.handlers = .ok (some r) ∧
        Caught C M locals results exn args c ss' below r := by
  rw [I.findClause_filter, hcover]
  have hcovers : ∀ span ∈ S.spans, span.startIp ≤ ip ∧ ip < span.endIp := by
    intro span hspan
    rw [← hcover, List.mem_filter] at hspan
    exact of_decide_eq_true hspan.2
  clear hcover
  induction hopen with
  | root => exact ⟨fun _ h => (by cases h), fun _ => rfl, fun _ _ _ h => by cases h⟩
  | @block sc ss S T ls stop outs live spans h hagain harity hbase hlabel houts hnext hlead hguards
      hroot ih =>
    obtain ⟨ihe, ihn, ihs⟩ := ih fun span hspan => hcovers span (List.mem_append_right _ hspan)
    rw [Nested.unwind]
    generalize hhandlers : sc.handlers = clauses at hguards
    cases hguards with
    | none =>
      rw [catcher]
      exact ⟨ihe, ihn, ihs⟩
    | @tryTable _ pad span hpads htyped =>
      have hin := hcovers span (List.mem_append_left _ (List.mem_singleton.mpr rfl))
      obtain ⟨hfe, hfn, hfs⟩ := hpads.find I s inst thrown
      show (∀ err, _ → I.findClause s ip inst thrown (span :: S.spans) = _) ∧
        (_ → I.findClause s ip inst thrown (span :: S.spans) = _) ∧
        ∀ c ss' below, _ → ∃ r, I.findClause s ip inst thrown (span :: S.spans) = _ ∧ _
      rw [Interp.findClause, if_pos hin]
      rcases hcatcher : catcher (I.catches s inst thrown) clauses with err | _ | c
      · rw [hfe err hcatcher]
        refine ⟨fun err' h => ?_, fun h => (by cases h), fun _ _ _ h => by cases h⟩
        obtain rfl := Except.error.inj h
        rfl
      · rw [hfn hcatcher]
        exact ⟨ihe, ihn, ihs⟩
      · obtain ⟨r, e, hfound, hpad⟩ := hfs c hcatcher
        obtain ⟨hmem, hcatch⟩ := catcher_some hcatcher
        obtain ⟨htag, ls', hl, hsub⟩ := htyped c hmem
        obtain ⟨hcount, htypes⟩ := Catch.length_payload hargs htag hcatch exn
        have hlen := hsub.length_eq
        have hfloor : floor (sc :: ss) = (flat ss sc.below).length := by
          rw [floor, under, flat_cons, List.append_nil]
        rw [hfound]
        refine ⟨fun _ h => (by cases h), fun h => (by cases h), fun c' ss' below hsome => ?_⟩
        obtain ⟨rfl, rfl, rfl⟩ := hsome
        refine ⟨r, rfl, ?_, hpad.args, hpad.ref, e, hpad.op, h.lands ?_ hl ?_⟩
        · rw [hpad.restore, hbase, hfloor]
        · have hedge := hpad.edge
          rw [hbase, floor_cons, ← hcount, Nat.add_assoc, ← List.length_append] at hedge
          exact hedge
        · rw [List.length_append]
          omega
  | @loop sc ss S T b ls stop outs live h hagain harity hbase hlabel hbody hnext hhandlers
    hroot ih =>
    rw [Nested.unwind, hhandlers, catcher]
    exact ih hcovers

end Exceptions

end SubmilliWasm
