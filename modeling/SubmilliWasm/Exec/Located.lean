/-
# Where an activation is in the code

An activation of a compiled function stands at an ip of its code: the rest of its sequence lies
there, what follows its constructs lies behind their labels, and the spans of the exception table
that cover the ip are those of the constructs that are open, innermost first.  A branch finds its
label where the code has put it (`Opened.branch`), a region is entered in place (`Here.region`), and
at its end it is left for what follows (`Opened.leave`).
-/
import SubmilliWasm.Exec.Activations
import SubmilliWasm.Exec.OperandPeak

namespace SubmilliWasm

open Nested

/-! ## The surroundings of a sequence -/

def HandlerSpan.covers (span : HandlerSpan) (ip : ℕ) : Bool :=
  decide (span.startIp ≤ ip ∧ ip < span.endIp)

/-- What surrounds a sequence in the code: the labels in scope with their types, the ip where the
sequence ends and the operands it leaves there, whether there is code for what follows, and the
spans around it. -/
structure Site where
  targets : List Target
  labels : List (List IrVal)
  stop : ℕ
  outs : List IrVal
  live : Bool
  spans : List HandlerSpan

section Code

variable (C : CompiledFunc) (M : ModuleTypes) (locals results : List IrVal)

/-- The sequence `b` lies at `ip`, to be run on `n` operands of its construct at the height `h`. -/
structure Here (S : Site) (cmp : Option CmpKind) (b : Body) (ip n h : ℕ) : Prop where
  code : ∃ out hs, CodeAt C M.ctx true cmp S.targets h b ip S.stop out hs ∧
    (out = true → S.live = true) ∧
    ∀ j, ip ≤ j → j < S.stop →
      C.handlers.filter (·.covers j) = hs.filter (·.covers j) ++ S.spans
  typed : ∃ ts, ts.length = n ∧ M.HasType locals results S.labels b ts S.outs
  /-- Behind the function's own label there is nothing to run. -/
  ends : S.targets = [] → b = .done

/-- The spans of a construct, for its catch clauses. -/
inductive Guards (S : Site) (base : ℕ) : List Catch → List HandlerSpan → Prop where
  | none : Guards S base [] []
  | tryTable {catches ip span} (hpads : Pads C M.ctx S.targets base catches ip span.clauses)
      (htyped : M.RegionTyped S.labels (.tryTable catches)) : Guards S base catches [span]

/-- The constructs that are open around a sequence, and where the code has them. -/
inductive Opened : List Construct → Site → Prop where
  | root : Opened [] ⟨[], [], C.ops.length, results, true, []⟩
  | block {s ss S T ls stop outs live spans} (h : Opened ss S) (hagain : s.again = none)
      (harity : s.arity = T.arity) (hbase : T.base = floor (s :: ss)) (hlabel : ls.length = T.arity)
      (houts : outs.length = T.arity)
      (hnext : T.live = true → Here C M locals results S none s.next T.ip
        (s.below.length + T.arity) (T.base + T.arity))
      (hlead : live = true → T.live = true ∧
        (stop = T.ip ∨ C.ops[stop]? = some (.br ⟨T.ip, T.arity, 0⟩)))
      (hguards : Guards C M S T.base s.handlers spans)
      (hroot : S.targets = [] → T.base = 0 ∧ T.arity = results.length ∧ T.live = true) :
      Opened (s :: ss) ⟨T :: S.targets, ls :: S.labels, stop, outs, live, spans ++ S.spans⟩
  | loop {s ss S T b ls stop outs live} (h : Opened ss S) (hagain : s.again = some b)
      (harity : s.arity = T.arity) (hbase : T.base = floor (s :: ss)) (hlabel : ls.length = T.arity)
      (hbody : Here C M locals results ⟨T :: S.targets, ls :: S.labels, stop, outs, live, S.spans⟩
        none b T.ip T.arity (T.base + T.arity))
      (hnext : live = true → Here C M locals results S none s.next stop
        (s.below.length + outs.length) (T.base + outs.length))
      (hhandlers : s.handlers = []) (hroot : S.targets ≠ []) :
      Opened (s :: ss) ⟨T :: S.targets, ls :: S.labels, stop, outs, live, S.spans⟩

end Code

variable {C : CompiledFunc} {M : ModuleTypes} {locals results : List IrVal} {S : Site}
  {ss : List Construct} {cmp : Option CmpKind} {ip n h : ℕ}

/-! ## Spans -/

variable {b k : Body} {L : List (List IrVal)} {hs spans : List HandlerSpan} {ls ts us : List IrVal}
  {vals : List Operand} {Ls : List Target} {r : Region} {T : Target} {e j l x rs base stop : ℕ}

/-- Spans before or behind an ip do not cover it. -/
theorem filter_covers_nil {lo hi : ℕ} (h : ∀ span ∈ hs, lo ≤ span.startIp ∧ span.endIp ≤ hi)
    (hj : j < lo ∨ hi ≤ j) : hs.filter (·.covers j) = [] := by
  rw [List.filter_eq_nil_iff]
  intro span hspan
  have := h span hspan
  unfold HandlerSpan.covers
  rw [decide_eq_true_iff]
  omega

/-- Behind an op its sequence goes on, and the op is covered by the surroundings alone. -/
theorem Here.next {out : Bool} (hk : CodeAt C M.ctx true none S.targets h k (ip + 1) S.stop out hs)
    (hout : out = true → S.live = true) (hcover : ∀ j, ip ≤ j → j < S.stop →
      C.handlers.filter (·.covers j) = hs.filter (·.covers j) ++ S.spans)
    (htyped : M.HasType locals results S.labels k ts S.outs) (hroot : S.targets ≠ []) :
    Here C M locals results S none k (ip + 1) ts.length h ∧
      C.handlers.filter (·.covers ip) = S.spans := by
  obtain ⟨hle, hspans⟩ := hk.range
  refine ⟨⟨⟨out, hs, hk, hout, fun j hj => hcover j (by omega)⟩, ⟨ts, rfl, htyped⟩,
    fun h => absurd h hroot⟩, ?_⟩
  rw [hcover ip (Nat.le_refl ip) (by omega),
    filter_covers_nil hspans (Or.inl (Nat.lt_succ_self ip)), List.nil_append]

/-! ## Labels -/

/-- A label in scope stands for an open construct. -/
theorem Opened.label (hopen : Opened C M locals results ss S) (hT : S.targets[l]? = some T) :
    ∃ s rest, ss.drop l = s :: rest ∧ s.arity = T.arity ∧
      T.base = floor (s :: rest) ∧ (∃ ls, S.labels[l]? = some ls ∧ ls.length = T.arity) ∧
      (T.live = true →
        (s.again = none ∧ ∃ S', Opened C M locals results rest S' ∧
          Here C M locals results S' none s.next T.ip (s.below.length + T.arity)
            (T.base + T.arity)) ∨
        ∃ b S', s.again = some b ∧ Opened C M locals results (s :: rest) S' ∧
          Here C M locals results S' none b T.ip T.arity (T.base + T.arity)) := by
  induction hopen generalizing l with
  | root => cases hT
  | @block s ss S T' ls stop outs live spans h hagain harity hbase hlabel houts hnext hlead hguards
      hroot ih =>
    cases l with
    | zero =>
      obtain rfl := Option.some.inj hT
      exact ⟨s, ss, rfl, harity, hbase, ⟨ls, rfl, hlabel⟩,
        fun hlive => Or.inl ⟨hagain, S, h, hnext hlive⟩⟩
    | succ l => exact ih hT
  | @loop s ss S T' b ls stop outs live h hagain harity hbase hlabel hbody hnext hhandlers
    hroot ih =>
    cases l with
    | zero =>
      obtain rfl := Option.some.inj hT
      exact ⟨s, ss, rfl, harity, hbase, ⟨ls, rfl, hlabel⟩, fun _ => Or.inr ⟨b, _, hagain,
        .loop h hagain harity hbase hlabel hbody hnext hhandlers hroot, hbody⟩⟩
    | succ l => exact ih hT

theorem Opened.length_targets (hopen : Opened C M locals results ss S) :
    S.targets.length = ss.length := by
  induction hopen with
  | root => rfl
  | block h hagain harity hbase hlabel houts hnext hlead hguards hroot ih =>
    simp only [List.length_cons, ih]
  | loop h hagain harity hbase hlabel hbody hnext hhandlers hroot ih =>
    simp only [List.length_cons, ih]

/-- The outermost label is that of the function. -/
theorem Opened.last (hopen : Opened C M locals results ss S) (hT : S.targets.getLast? = some T) :
    T.base = 0 ∧ T.arity = results.length ∧ T.live = true := by
  induction hopen with
  | root => cases hT
  | @block s ss S T' ls stop outs live spans h hagain harity hbase hlabel houts hnext hlead hguards
      hroot ih =>
    rcases htargets : S.targets with _ | ⟨T'', Ts⟩
    · rw [htargets] at hT
      obtain rfl := Option.some.inj hT
      exact hroot htargets
    · rw [htargets, List.getLast?_cons_cons, ← htargets] at hT
      exact ih hT
  | @loop s ss S T' b ls stop outs live h hagain harity hbase hlabel hbody hnext hhandlers
    hroot ih =>
    obtain ⟨T'', Ts, htargets⟩ := List.exists_cons_of_ne_nil hroot
    rw [htargets, List.getLast?_cons_cons, ← htargets] at hT
    exact ih hT

/-! ## Activations in the code -/

/-- A body lies at `ip` with the operands `vals` of its innermost construct and `owed` to come. -/
def Standing (C : CompiledFunc) (M : ModuleTypes) (locals results : List IrVal)
    (ss : List Construct) (vals : List Operand) (cmp : Option CmpKind) (b : Body) (ip owed : ℕ) :
    Prop :=
  ∃ S, Opened C M locals results ss S ∧
    Here C M locals results S cmp b ip (vals.length + owed) (floor ss + vals.length + owed)

/-- **A branch finds its label.**  It goes on at the address of the edge, with the operands it
carries on those below its label. -/
theorem Opened.branch (hopen : Opened C M locals results ss S) (hT : S.targets[l]? = some T)
    (hlive : T.live = true) (hle : T.arity ≤ vals.length) :
    ∃ k ss' vals', Nested.branch l ss vals = some (k, ss', vals') ∧
      Standing C M locals results ss' vals' none k T.ip 0 ∧
      flat ss' vals' = (flat ss vals).take T.base ++ vals.drop (vals.length - T.arity) := by
  obtain ⟨s, rest, hdrop, harity, hbase, -, hgo⟩ := hopen.label hT
  have hcarried : (vals.drop (vals.length - T.arity)).length = T.arity := by
    rw [List.length_drop]
    omega
  have hbranch := Nested.branch_of_drop hdrop vals
  rw [harity] at hbranch
  have hcut : ∀ {k ss' vals'}, Nested.branch l ss vals = some (k, ss', vals') →
      flat ss' vals' = (flat ss vals).take T.base ++ vals.drop (vals.length - T.arity) := by
    intro k ss' vals' hsome
    obtain ⟨s', rest', hdrop', hflat⟩ := flat_branch hsome
    obtain ⟨rfl, rfl⟩ := List.cons.inj (hdrop.symm.trans hdrop')
    rw [hflat, hbase, harity]
  rcases hgo hlive with ⟨hagain, S', hopen', hhere⟩ | ⟨b, S', hagain, hopen', hhere⟩
  · rw [hagain] at hbranch
    refine ⟨_, _, _, hbranch, ⟨S', hopen', ?_⟩, hcut hbranch⟩
    have hheight : floor rest + (s.below ++ vals.drop (vals.length - T.arity)).length + 0
        = T.base + T.arity := by
      rw [hbase, floor_cons, List.length_append, hcarried]
      omega
    rw [hheight, List.length_append, hcarried]
    exact hhere
  · rw [hagain] at hbranch
    refine ⟨_, _, _, hbranch, ⟨S', hopen', ?_⟩, hcut hbranch⟩
    rw [hcarried, ← hbase]
    exact hhere

/-! ## Entering and leaving -/

/-- A construct is opened in place. -/
theorem Opened.enter (hopen : Opened C M locals results ss S) (hroot : S.targets ≠ [])
    {ps start : ℕ} (hps : ps ≤ vals.length) {outs : List IrVal} {live : Bool}
    {handlers : List Catch} (hbase : T.base = floor ss + (vals.length - ps))
    (hlabel : ls.length = T.arity) (houts : outs.length = T.arity)
    (hnext : T.live = true → Here C M locals results S none k T.ip (vals.length - ps + T.arity)
      (T.base + T.arity)) (hlead : live = true → T.live = true ∧
      (stop = T.ip ∨ C.ops[stop]? = some (.br ⟨T.ip, T.arity, 0⟩)))
    (hguards : Guards C M S T.base handlers spans)
    (hbody : Here C M locals results ⟨T :: S.targets, ls :: S.labels, stop, outs, live,
      spans ++ S.spans⟩ none b start ps (floor ss + vals.length)) :
    Standing C M locals results (Nested.enter ps T.arity none k handlers ss vals).1
      (Nested.enter ps T.arity none k handlers ss vals).2 none b start 0 := by
  have hbelow : (vals.take (vals.length - ps)).length = vals.length - ps := by
    rw [List.length_take]
    omega
  have hcarried : (vals.drop (vals.length - ps)).length = ps := by
    rw [List.length_drop]
    omega
  refine ⟨_, .block (T := T) hopen rfl rfl ?_ hlabel houts ?_ hlead hguards
    fun h => absurd h hroot, ?_⟩
  · rw [floor_cons, hbelow, hbase]
  · rw [hbelow]
    exact hnext
  · rw [Nested.enter, floor_cons, hbelow, hcarried]
    have hheight : floor ss + (vals.length - ps) + ps + 0 = floor ss + vals.length := by omega
    rw [hheight]
    exact hbody

/-- A loop is opened in place. -/
theorem Opened.enterLoop (hopen : Opened C M locals results ss S) (hroot : S.targets ≠ [])
    {ps start : ℕ} (hps : ps ≤ vals.length) {outs : List IrVal} {live : Bool}
    (hlabel : ls.length = ps)
    (hnext : live = true → Here C M locals results S none k stop (vals.length - ps + outs.length)
      (floor ss + (vals.length - ps) + outs.length))
    (hbody : Here C M locals results ⟨⟨start, floor ss + (vals.length - ps), ps, true⟩ :: S.targets,
      ls :: S.labels, stop, outs, live, S.spans⟩ none b start ps (floor ss + vals.length)) :
    Standing C M locals results (Nested.enter ps ps (some b) k [] ss vals).1
      (Nested.enter ps ps (some b) k ([] : List Catch) ss vals).2 none b start 0 := by
  have hbelow : (vals.take (vals.length - ps)).length = vals.length - ps := by
    rw [List.length_take]
    omega
  have hcarried : (vals.drop (vals.length - ps)).length = ps := by
    rw [List.length_drop]
    omega
  have hheight : floor ss + (vals.length - ps) + ps = floor ss + vals.length := by omega
  refine ⟨⟨⟨start, floor ss + (vals.length - ps), ps, true⟩ :: S.targets, ls :: S.labels,
    stop, outs,
    live, S.spans⟩, .loop hopen rfl rfl ?_ hlabel (hheight ▸ hbody) ?_ rfl hroot, ?_⟩
  · rw [floor_cons, hbelow]
  · rw [hbelow]
    exact hnext
  · rw [Nested.enter, floor_cons, hbelow, hcarried, Nat.add_zero, Nat.add_zero, hheight]
    exact hbody

/-- The type of a region, inverted. -/
theorem hasType_region {bt : BlockType} (h : M.HasType locals results L (.region r bt b k) ts us) :
    (M.blockType bt).1.length ≤ ts.length ∧ M.RegionTyped L r ∧
      M.HasType locals results (M.labelType r bt :: L) b (M.blockType bt).1 (M.blockType bt).2 ∧
      ∃ us', us'.length = ts.length - (M.blockType bt).1.length + (M.blockType bt).2.length ∧
        M.HasType locals results L k us' us := by
  cases h with
  | @region _ _ _ _ _ vs _ rest h hr hb hk =>
    have hlen := h.length_eq
    refine ⟨?_, hr, hb, _, ?_, hk⟩
    · rw [List.length_append]
      omega
    · simp only [List.length_append]
      omega

/-- Handler spans lie in the parts of a sequence in order, so an ip in one part is covered by its
own only. -/
theorem filter_covers_parts {hs' : List HandlerSpan} {ip : ℕ}
    (hhs : ∀ span ∈ hs, ip ≤ span.startIp ∧ span.endIp ≤ e)
    (hspans : ∀ span ∈ spans, ip ≤ span.startIp ∧ span.endIp ≤ e)
    (hhs' : ∀ span ∈ hs', x ≤ span.startIp ∧ span.endIp ≤ stop) (hex : e ≤ x) :
    (j < e → (hs ++ spans ++ hs').filter (·.covers j)
      = hs.filter (·.covers j) ++ spans.filter (·.covers j)) ∧
    (x ≤ j → (hs ++ spans ++ hs').filter (·.covers j) = hs'.filter (·.covers j)) := by
  rw [List.filter_append, List.filter_append]
  refine ⟨fun hj => ?_, fun hj => ?_⟩
  · rw [filter_covers_nil hhs' (Or.inl (by omega)), List.append_nil]
  · rw [filter_covers_nil hhs (Or.inr (by omega)), filter_covers_nil hspans (Or.inr (by omega))]
    rfl

theorem RegionEnd.covers (hend : RegionEnd C M.ctx Ls base rs ip r e x spans) (hlo : ip ≤ j)
    (hhi : j < e) : spans.filter (·.covers j) = spans := by
  cases hend with
  | block | loop => rfl
  | tryTable hop hp =>
    rw [List.filter_eq_self]
    intro span hspan
    obtain rfl := List.mem_singleton.mp hspan
    exact decide_eq_true ⟨hlo, hhi⟩

/-- The catch clauses of a region and where their pads are. -/
theorem RegionEnd.guards (hend : RegionEnd C M.ctx S.targets base rs ip r e x spans)
    (hr : M.RegionTyped S.labels r) : Guards C M S base r.handlers spans := by
  cases hend with
  | block | loop => exact .none
  | tryTable hop hp => exact .tryTable hp hr

/-- From the end of a region's body the code leads behind the region. -/
theorem RegionEnd.leads (hend : RegionEnd C M.ctx Ls base rs ip r e x spans) :
    e = x ∨ C.ops[e]? = some (.br ⟨x, rs, 0⟩) := by
  cases hend with
  | block | loop => exact Or.inl rfl
  | tryTable hop hp => exact Or.inr hop

theorem RegionEnd.loop_inv (hend : RegionEnd C M.ctx Ls base rs ip .loop e x spans) :
    e = x ∧ spans = [] := by
  cases hend with
  | loop => exact ⟨rfl, rfl⟩

/-- **A region is entered in place**: its body is the next code, and behind it lies the sequence
that follows. -/
theorem Here.region {a : Activation} (hopen : Opened C M locals results a.scopes S) {r : Region}
    {bt : BlockType} {b k : Body} (hhere : Here C M locals results S none (.region r bt b k) ip
      a.vals.length (floor a.scopes + a.vals.length)) :
    Standing C M locals results (a.enterRegion M.ctx r bt b k).scopes
      (a.enterRegion M.ctx r bt b k).vals none b ip 0 := by
  obtain ⟨⟨out, hs, hcode, hout, hcover⟩, ⟨ts, hts, htyped⟩, hends⟩ := hhere
  obtain ⟨hparams, hrtyped, hbtyped, us, hus, hktyped⟩ := hasType_region htyped
  have hroot : S.targets ≠ [] := fun h => nomatch hends h
  have harity := M.blockArity_eq bt
  rw [hts] at hparams hus
  cases hcode with
  | @region Ls _ _ _ _ _ _ e x _ live inner _ hs hs' spans hps hb hlive hloop hend hk =>
  rw [harity] at hps hend hk
  dsimp only at hps hend hk
  obtain ⟨hiprange, hhs⟩ := hb.range
  obtain ⟨hxrange, hhs'⟩ := hk.range
  obtain ⟨hex, hspans⟩ := hend.range
  have hbase : floor a.scopes + a.vals.length - (M.blockType bt).1.length
      = floor a.scopes + (a.vals.length - (M.blockType bt).1.length) := by omega
  have hparts := fun j => filter_covers_parts (j := j) hhs hspans hhs' hex
  rw [hbase] at hend hk
  -- the sequence behind the region
  have hnext : live = true → Here C M locals results S none k x
      (a.vals.length - (M.blockType bt).1.length + (M.blockType bt).2.length)
      (floor a.scopes + (a.vals.length - (M.blockType bt).1.length)
        + (M.blockType bt).2.length) := by
    intro hl
    rw [hl] at hk
    refine ⟨⟨out, hs', hk, hout, fun j hj hstop => ?_⟩, ⟨us, hus, hktyped⟩, fun h => absurd h hroot⟩
    rw [hcover j (by omega) hstop, (hparts j).2 hj]
  -- its body
  have hcoverb : ∀ j, ip ≤ j → j < e →
      C.handlers.filter (·.covers j) = hs.filter (·.covers j) ++ (spans ++ S.spans) := by
    intro j hj he
    rw [hcover j hj (by omega), (hparts j).1 he, hend.covers hj he, List.append_assoc]
  unfold regionTarget at hb
  rw [harity, hbase] at hb
  by_cases hr : r = .loop
  · subst hr
    obtain ⟨rfl, rfl⟩ := hend.loop_inv
    obtain rfl := hloop rfl
    have henter : a.enterRegion M.ctx .loop bt b k
        = a.enter (M.blockType bt).1.length (M.blockType bt).1.length (some b) k [] b := by
      rw [Activation.enterRegion, harity]
    rw [henter]
    exact hopen.enterLoop hroot hparams rfl hnext
      ⟨⟨_, hs, hb, id, hcoverb⟩, ⟨_, rfl, hbtyped⟩, nofun⟩
  · have hlabel : M.labelType r bt = (M.blockType bt).2 := if_neg hr
    have henter : a.enterRegion M.ctx r bt b k
        = a.enter (M.blockType bt).1.length (M.blockType bt).2.length none k r.handlers b := by
      rw [Activation.enterRegion, harity]
      cases r with
      | loop => exact absurd rfl hr
      | block | tryTable => rfl
    rw [if_neg hr] at hb
    rw [hlabel] at hbtyped
    rw [henter]
    exact hopen.enter (T := ⟨x, floor a.scopes + (a.vals.length - (M.blockType bt).1.length),
        (M.blockType bt).2.length, live⟩) hroot hparams rfl rfl rfl hnext
      (fun hl => ⟨hlive hl, hend.leads⟩) (hend.guards hrtyped)
      ⟨⟨inner, hs, hb, id, hcoverb⟩, ⟨_, rfl, hbtyped⟩, nofun⟩

/-- The type of an `if` with both parts, inverted. -/
theorem hasType_ifElse {bt : BlockType} {t e : Body}
    (h : M.HasType locals results L (.ifElse bt t e k) ts us) :
    (M.blockType bt).1.length + 1 ≤ ts.length ∧
      M.HasType locals results ((M.blockType bt).2 :: L) t (M.blockType bt).1 (M.blockType bt).2 ∧
      M.HasType locals results ((M.blockType bt).2 :: L) e (M.blockType bt).1 (M.blockType bt).2 ∧
      ∃ us', us'.length = ts.length - 1 - (M.blockType bt).1.length + (M.blockType bt).2.length ∧
        M.HasType locals results L k us' us := by
  cases h with
  | @ifElse _ _ _ _ _ vs _ rest h ht he hk =>
    have hlen := h.length_eq
    refine ⟨?_, ht, he, _, ?_, hk⟩
    · simp only [List.length_append, List.length_singleton]
      omega
    · simp only [List.length_append, List.length_singleton]
      omega

/-- The type of an `if` with one part, inverted; what it takes it leaves. -/
theorem hasType_ifThen {bt : BlockType} {t : Body}
    (h : M.HasType locals results L (.ifThen bt t k) ts us) :
    (M.blockType bt).1.length + 1 ≤ ts.length ∧
      (M.blockType bt).1.length = (M.blockType bt).2.length ∧
      M.HasType locals results ((M.blockType bt).2 :: L) t (M.blockType bt).1 (M.blockType bt).2 ∧
      ∃ us', us'.length = ts.length - 1 - (M.blockType bt).1.length + (M.blockType bt).2.length ∧
        M.HasType locals results L k us' us := by
  cases h with
  | @ifThen _ _ _ _ vs _ rest h hpr ht hk =>
    have hlen := h.length_eq
    refine ⟨?_, hpr.length_eq, ht, _, ?_, hk⟩
    · simp only [List.length_append, List.length_singleton]
      omega
    · simp only [List.length_append, List.length_singleton]
      omega

/-- The operand that decides a conditional is taken before it. -/
theorem Here.ifElse {a : Activation} (hopen : Opened C M locals results a.scopes S)
    {bt : BlockType} {t e k : Body} (hhere : Here C M locals results S cmp (.ifElse bt t e k) ip
      (a.vals.length + 1) (floor a.scopes + a.vals.length + 1)) :
    ∃ elseIp, C.ops[ip]? = some (Translator.condBranch cmp true ⟨elseIp, 0, 0⟩) ∧
      Standing C M locals results (a.enterRegion M.ctx .block bt t k).scopes
        (a.enterRegion M.ctx .block bt t k).vals none t (ip + 1) 0 ∧
      Standing C M locals results (a.enterRegion M.ctx .block bt e k).scopes
        (a.enterRegion M.ctx .block bt e k).vals none e elseIp 0 := by
  obtain ⟨⟨out, hs, hcode, hout, hcover⟩, ⟨ts, hts, htyped⟩, hends⟩ := hhere
  obtain ⟨hparams, httyped, hetyped, us, hus, hktyped⟩ := hasType_ifElse htyped
  have hroot : S.targets ≠ [] := fun h => nomatch hends h
  have harity := M.blockArity_eq bt
  rw [hts] at hparams hus
  cases hcode with
  | @ifElse _ _ _ _ _ _ _ _ e₁ elseIp x _ live out₁ out₂ _ hs₁ hs₂ hs₃ hps hop ht hjump hskip he
    hlive hk =>
  rw [harity] at hps hjump ht he hk
  dsimp only at hps hjump ht he hk
  obtain ⟨hrange₁, hhs₁⟩ := ht.range
  obtain ⟨hrange₂, hhs₂⟩ := he.range
  obtain ⟨hrange₃, hhs₃⟩ := hk.range
  have hjoin : e₁ ≤ elseIp := by
    cases out₁ with
    | true => exact (hjump rfl).1 ▸ Nat.le_succ e₁
    | false => exact Nat.le_of_eq (hskip rfl).symm
  have hheight : floor a.scopes + a.vals.length + 1 - 1 = floor a.scopes + a.vals.length :=
    Nat.add_sub_cancel _ 1
  have hcount : a.vals.length + 1 - 1 - (M.blockType bt).1.length
      = a.vals.length - (M.blockType bt).1.length := by omega
  have hbase : floor a.scopes + a.vals.length - (M.blockType bt).1.length
      = floor a.scopes + (a.vals.length - (M.blockType bt).1.length) := by omega
  rw [hheight, hbase] at ht he hk
  rw [hcount] at hus
  have hnext : live = true → Here C M locals results S none k x
      (a.vals.length - (M.blockType bt).1.length + (M.blockType bt).2.length)
      (floor a.scopes + (a.vals.length - (M.blockType bt).1.length)
        + (M.blockType bt).2.length) := by
    intro hl
    rw [hl] at hk
    refine ⟨⟨out, hs₃, hk, hout, fun j hj hstop => ?_⟩, ⟨us, hus, hktyped⟩, fun h => absurd h hroot⟩
    rw [hcover j (by omega) hstop, List.filter_append, List.filter_append,
      filter_covers_nil hhs₁ (Or.inr (by omega)), filter_covers_nil hhs₂ (Or.inr (by omega))]
    rfl
  have henter : ∀ b, a.enterRegion M.ctx .block bt b k
      = a.enter (M.blockType bt).1.length (M.blockType bt).2.length none k [] b := by
    intro b
    rw [Activation.enterRegion, harity]
    rfl
  refine ⟨elseIp, hop, ?_, ?_⟩
  · rw [henter]
    refine hopen.enter (T := ⟨x, floor a.scopes + (a.vals.length - (M.blockType bt).1.length),
      (M.blockType bt).2.length, live⟩) hroot (by omega) rfl rfl rfl hnext
      (fun hl => ⟨(hjump hl).2.1, Or.inr (hjump hl).2.2⟩) .none
      ⟨⟨out₁, hs₁, ht, id, fun j hj hstop => ?_⟩, ⟨_, rfl, httyped⟩, nofun⟩
    have hstop : j < e₁ := hstop
    rw [hcover j (by omega) (by omega), List.filter_append, List.filter_append,
      filter_covers_nil hhs₂ (Or.inl (by omega)), filter_covers_nil hhs₃ (Or.inl (by omega)),
      List.append_nil, List.append_nil]
    rfl
  · rw [henter]
    refine hopen.enter (T := ⟨x, floor a.scopes + (a.vals.length - (M.blockType bt).1.length),
      (M.blockType bt).2.length, live⟩) hroot (by omega) rfl rfl rfl hnext
      (fun hl => ⟨hlive hl, Or.inl rfl⟩) .none
      ⟨⟨out₂, hs₂, he, id, fun j hj hstop => ?_⟩, ⟨_, rfl, hetyped⟩, nofun⟩
    have hstop : j < x := hstop
    rw [hcover j (by omega) (by omega), List.filter_append, List.filter_append,
      filter_covers_nil hhs₁ (Or.inr (by omega)), filter_covers_nil hhs₃ (Or.inl (by omega)),
      List.append_nil]
    rfl

theorem Here.ifThen {a : Activation} (hopen : Opened C M locals results a.scopes S)
    {bt : BlockType} {t k : Body} (hhere : Here C M locals results S cmp (.ifThen bt t k) ip
      (a.vals.length + 1) (floor a.scopes + a.vals.length + 1)) :
    ∃ x, C.ops[ip]? = some (Translator.condBranch cmp true ⟨x, 0, 0⟩) ∧
      Standing C M locals results (a.enterRegion M.ctx .block bt t k).scopes
        (a.enterRegion M.ctx .block bt t k).vals none t (ip + 1) 0 ∧
      Standing C M locals results a.scopes a.vals none k x 0 := by
  obtain ⟨⟨out, hs, hcode, hout, hcover⟩, ⟨ts, hts, htyped⟩, hends⟩ := hhere
  obtain ⟨hparams, hsame, httyped, us, hus, hktyped⟩ := hasType_ifThen htyped
  have hroot : S.targets ≠ [] := fun h => nomatch hends h
  have harity := M.blockArity_eq bt
  rw [hts] at hparams hus
  cases hcode with
  | @ifThen _ _ _ _ _ _ _ x _ out₁ _ hs₁ hs₂ hps hop ht hk =>
  rw [harity] at hps ht hk
  dsimp only at hps ht hk
  obtain ⟨hrange₁, hhs₁⟩ := ht.range
  obtain ⟨hrange₂, hhs₂⟩ := hk.range
  have hheight : floor a.scopes + a.vals.length + 1 - 1 = floor a.scopes + a.vals.length :=
    Nat.add_sub_cancel _ 1
  have hcount : a.vals.length + 1 - 1 - (M.blockType bt).1.length
      = a.vals.length - (M.blockType bt).1.length := by omega
  have hbase : floor a.scopes + a.vals.length - (M.blockType bt).1.length
      = floor a.scopes + (a.vals.length - (M.blockType bt).1.length) := by omega
  rw [hheight, hbase] at ht hk
  rw [hcount] at hus
  have hnext : Here C M locals results S none k x
      (a.vals.length - (M.blockType bt).1.length + (M.blockType bt).2.length)
      (floor a.scopes + (a.vals.length - (M.blockType bt).1.length)
        + (M.blockType bt).2.length) := by
    refine ⟨⟨out, hs₂, hk, hout, fun j hj hstop => ?_⟩, ⟨us, hus, hktyped⟩, fun h => absurd h hroot⟩
    rw [hcover j (by omega) hstop, List.filter_append,
      filter_covers_nil hhs₁ (Or.inr (by omega)), List.nil_append]
  have henter : a.enterRegion M.ctx .block bt t k
      = a.enter (M.blockType bt).1.length (M.blockType bt).2.length none k [] t := by
    rw [Activation.enterRegion, harity]
    rfl
  refine ⟨x, hop, ?_, S, hopen, ?_⟩
  · rw [henter]
    refine hopen.enter (T := ⟨x, floor a.scopes + (a.vals.length - (M.blockType bt).1.length),
      (M.blockType bt).2.length, true⟩) hroot (by omega) rfl rfl rfl (fun _ => hnext)
      (fun _ => ⟨rfl, Or.inl rfl⟩) .none
      ⟨⟨out₁, hs₁, ht, id, fun j hj hstop => ?_⟩, ⟨_, rfl, httyped⟩, nofun⟩
    have hstop : j < x := hstop
    rw [hcover j (by omega) (by omega), List.filter_append,
      filter_covers_nil hhs₂ (Or.inl (by omega)), List.append_nil]
    rfl
  · have hall : a.vals.length - (M.blockType bt).1.length + (M.blockType bt).2.length
        = a.vals.length := by omega
    have hheight' : floor a.scopes + (a.vals.length - (M.blockType bt).1.length)
        + (M.blockType bt).2.length = floor a.scopes + a.vals.length := by omega
    rw [hall, hheight'] at hnext
    exact hnext

/-- At its end a construct is left for what follows it; the code may have to branch there. -/
theorem Opened.leave {s : Construct} (hopen : Opened C M locals results (s :: ss) S)
    (hhere : Here C M locals results S none .done ip vals.length (floor (s :: ss) + vals.length)) :
    ∃ x, (ip = x ∨ C.ops[ip]? = some (.br ⟨x, vals.length, 0⟩)) ∧
      Standing C M locals results ss (s.below ++ vals) none s.next x 0 := by
  obtain ⟨⟨out, hs, hcode, hout, -⟩, ⟨ts, hts, htyped⟩, -⟩ := hhere
  have hfall : ip = S.stop ∧ out = true := by
    generalize hstop : S.stop = stop at hcode
    cases hcode with
    | done => exact ⟨rfl, rfl⟩
  obtain ⟨hip, rfl⟩ := hfall
  have hlive := hout rfl
  have houts : S.outs.length = vals.length := by
    cases htyped with
    | done hsub => exact hsub.length_eq.symm.trans hts
  cases hopen with
  | @block _ _ S T ls stop outs live spans h hagain harity hbase hlabel houts' hnext hlead
    hguards hroot =>
    obtain ⟨hTlive, hlead⟩ := hlead hlive
    have hip : ip = stop := hip
    have hcount : T.arity = vals.length := houts'.symm.trans houts
    have hnext := hnext hTlive
    rw [hcount, hbase, floor_cons, Nat.add_assoc, ← List.length_append] at hnext
    rw [hcount, ← hip] at hlead
    exact ⟨T.ip, hlead, S, h, hnext⟩
  | @loop _ _ S T b ls stop outs live h hagain harity hbase hlabel hbody hnext hhandlers hroot =>
    have hnext := hnext hlive
    have hcount : outs.length = vals.length := houts
    rw [hcount, hbase, floor_cons, Nat.add_assoc, ← List.length_append] at hnext
    exact ⟨stop, Or.inl hip, S, h, hnext⟩

/-! ## Along a sequence -/

/-- A straight-line op is in the code, or it is a comparison the next op has taken in. -/
theorem Here.plain {p : PlainOp BigMemArg} {k : Body}
    (hhere : Here C M locals results S none (.plain p k) ip n h) (hn : n ≤ h) :
    (∃ p' ins outs, C.ops[ip]? = some (.plain p') ∧ p'.mapMem (MemArg.resolve C.bigMemargs) = p ∧
      M.PlainTyped locals p ins outs ∧ ins.length ≤ n ∧
      Here C M locals results S none k (ip + 1) (n - ins.length + outs.length)
        (h - ins.length + outs.length) ∧
      C.handlers.filter (·.covers ip) = S.spans) ∨
    ∃ kind, p = .relop kind ∧ 2 ≤ n ∧
      Here C M locals results S (some kind) k ip (n - 2 + 1) (h - 2 + 1) := by
  obtain ⟨⟨out, hs, hcode, hout, hcover⟩, ⟨ts, hts, htyped⟩, hends⟩ := hhere
  have hroot : S.targets ≠ [] := fun h => nomatch hends h
  cases htyped with
  | @plain _ _ _ ins vs outs _ rest hp hsub hk =>
  have hlen := hsub.length_eq
  rw [List.length_append] at hts
  cases hcode with
  | @plain _ _ _ p' _ _ _ _ _ hop hdenotes hkc =>
    left
    subst hdenotes
    rw [plainAfter_typed hp (by omega)] at hkc
    obtain ⟨hnext, hcovered⟩ := Here.next hkc hout hcover hk hroot
    have hcount : (rest ++ outs).length = n - ins.length + outs.length := by
      rw [List.length_append]
      omega
    rw [hcount] at hnext
    exact ⟨p', ins, outs, hop, rfl, hp, by omega, hnext, hcovered⟩
  | @fuse _ _ kind _ _ _ _ _ hkc =>
    right
    cases hp
    have hafter : plainAfter M.ctx (.relop kind) h = h - 2 + 1 := rfl
    rw [hafter] at hkc
    simp only [List.length_cons, List.length_nil] at hlen
    refine ⟨kind, rfl, by omega, ⟨out, hs, hkc, hout, hcover⟩, ⟨_, ?_, hk⟩, fun h => absurd h hroot⟩
    rw [List.length_append, List.length_singleton]
    omega

/-- An edge of the code leads to its label, which takes the operands of its type. -/
theorem EdgeTo.label (hopen : Opened C M locals results ss S) {e : BranchTarget}
    (he : EdgeTo S.targets h l e) (hl : S.labels[l]? = some ls) :
    ∃ T, S.targets[l]? = some T ∧ T.live = true ∧ T.base + T.arity ≤ h ∧ e = T.edge h ∧
      ls.length = T.arity := by
  obtain ⟨T, hT, hlive, hle, rfl⟩ := he
  obtain ⟨-, -, -, -, -, ⟨ls', hl', harity⟩, -⟩ := hopen.label hT
  obtain rfl := Option.some.inj (hl.symm.trans hl')
  exact ⟨T, hT, hlive, hle, rfl, harity⟩

end SubmilliWasm
