/-
# The streams of a module

What `compile_bodies` leaves behind: the spans of consecutive functions tile the arenas, every
branch stays within its function, every forward edge has been written exactly once, and every op
has one recorded byte offset (`StreamsWellFormed`).  The code section of a binary is shorter than
`2 ^ 32` bytes, so no length is truncated and no index wraps.

A byte offset may wrap: a section may lie anywhere in the binary, and the offset of an operator is
cast to `u32` where it is recorded.  The recorded offsets go up exactly when the operators that add
an op start in one window of `2 ^ 32` bytes (`streamsWellFormed_iff`).
-/
import SubmilliWasm.Compile.Arenas

namespace SubmilliWasm

open Fallible Translator

/-! ## The code section -/

/-- Operators between two bytes of the binary, each behind the bytes of the one before. -/
def Spaced : ℕ → List (ℕ × Operator) → ℕ → Prop
  | start, [], stop => start ≤ stop
  | start, (offset, op) :: body, stop => start ≤ offset ∧ Spaced (offset + op.bytes) body stop

instance decidableSpaced : (start : ℕ) → (body : List (ℕ × Operator)) → (stop : ℕ) →
    Decidable (Spaced start body stop)
  | start, [], stop => inferInstanceAs (Decidable (start ≤ stop))
  | start, (offset, op) :: body, stop =>
    have := decidableSpaced (offset + op.bytes) body stop
    inferInstanceAs (Decidable (start ≤ offset ∧ Spaced (offset + op.bytes) body stop))

/-- The code section of a binary: its decoded bodies, and the bytes it takes.  The format keeps
the size of a section in a `u32`. -/
structure CodeSection where
  bodies : List DecodedBody
  start : ℕ
  stop : ℕ
  size : stop < start + 2 ^ 32
  spaced : Spaced start (bodies.flatMap (·.operators)) stop

/-- The byte offset of every op of the module, in order. -/
def bodySites (bodies : List DecodedBody) : List ℕ :=
  bodies.flatMap fun body => Liveness.start.sites body.operators

/-- Offsets that agree above the 32 bits that are kept of them. -/
def OneWindow (sites : List ℕ) : Prop := ∀ p ∈ sites, ∀ q ∈ sites, p / 2 ^ 32 = q / 2 ^ 32

/-! ## Spans -/

/-- Spans back to back between two bounds. -/
def SpansTile : ℕ → List Span → ℕ → Prop
  | lo, [], hi => lo = hi
  | lo, s :: spans, hi => s.start = lo ∧ SpansTile (lo + s.len) spans hi

/-- The streams `code` of the functions `fs` behind the arenas `pre`: their spans tile what was
appended, each function's edges are in order, and each op has one offset where offsets are
retained. -/
structure StreamsLaid (retainOffsets : Bool) (pre : CodeArenas)
    (fs : List (FuncRecord × List Place))
    (code : CodeArenas) : Prop where
  ops : SpansTile pre.ops.length (fs.map (·.1.ops)) code.ops.length
  brTables : SpansTile pre.brTables.length (fs.map (·.1.brTables)) code.brTables.length
  handlers : SpansTile pre.handlers.length (fs.map (·.1.handlers)) code.handlers.length
  offsets : SpansTile pre.offsets.length (fs.map (·.1.offsets)) code.offsets.length
  bigMemargs : SpansTile pre.bigMemargs.length (fs.map (·.1.bigMemargs)) code.bigMemargs.length
  localTypes : SpansTile pre.localTypes.length (fs.map (·.1.localTypes)) code.localTypes.length
  edges : ∀ f ∈ fs, EdgesWritten (f.1.ops.slice code.ops) (f.1.brTables.slice code.brTables) f.2
  recorded : ∀ f ∈ fs, (f.1.offsets.slice code.offsets).length
    = if retainOffsets then (f.1.ops.slice code.ops).length else 0

/-- The streams of a compiled module, with the places written for each function. -/
structure StreamsWellFormed (retainOffsets : Bool) (fs : List (FuncRecord × List Place))
    (code : CodeArenas) : Prop where
  laid : StreamsLaid retainOffsets .empty fs code
  sorted : code.offsets.Pairwise (· ≤ ·)

/-! ## Offsets in a section -/

theorem bytes_pos (op : Operator) : 0 < op.bytes := by
  cases op with
  | tryTable bt catches => exact Nat.lt_of_lt_of_le (by decide) (Nat.le_add_right 3 _)
  | jump j => exact Nat.lt_of_lt_of_le Nat.one_pos (Nat.le_add_right 1 _)
  | _ => exact Nat.succ_pos _

variable {retainOffsets : Bool} {code : CodeArenas} {ctx : CompileCtx} {body : List (ℕ × Operator)}
  {n stop start : ℕ}

theorem Spaced.le (h : Spaced start body stop) : start ≤ stop := by
  induction body generalizing start with
  | nil => exact h
  | cons x body ih => exact (h.1.trans (Nat.le_add_right _ _)).trans (ih h.2)

theorem Spaced.append {rest : List (ℕ × Operator)} (h : Spaced start (body ++ rest) stop) :
    ∃ mid, Spaced start body mid ∧ Spaced mid rest stop := by
  induction body generalizing start with
  | nil => exact ⟨start, le_refl start, h⟩
  | cons x body ih =>
    obtain ⟨mid, hbody, hrest⟩ := ih h.2
    exact ⟨mid, ⟨h.1, hbody⟩, hrest⟩

/-- The sites of a body lie within it, in order. -/
theorem Spaced.sites (h : Spaced start body stop) (s : Liveness) :
    (s.sites body).Pairwise (· ≤ ·) ∧ ∀ p ∈ s.sites body, start ≤ p ∧ p < stop := by
  induction body generalizing start s with
  | nil => exact ⟨.nil, fun p hp => absurd hp List.not_mem_nil⟩
  | cons x body ih =>
    obtain ⟨offset, op⟩ := x
    obtain ⟨hstart, hrest⟩ := h
    obtain ⟨hsorted, hwithin⟩ := ih hrest (s.step op)
    have hpos := bytes_pos op
    have hstop := hrest.le
    refine ⟨List.pairwise_append.mpr ⟨?_, hsorted, ?_⟩, ?_⟩
    · exact List.pairwise_replicate.mpr (.inr (le_refl _))
    · intro p hp q hq
      obtain rfl := List.eq_of_mem_replicate hp
      have := (hwithin q hq).1
      omega
    · intro p hp
      rcases List.mem_append.mp hp with hp | hp
      · obtain rfl := List.eq_of_mem_replicate hp
        exact ⟨hstart, by omega⟩
      · have := hwithin p hp
        exact ⟨by omega, this.2⟩

theorem Spaced.bodySites {bodies : List DecodedBody}
    (h : Spaced start (bodies.flatMap (·.operators)) stop) :
    (bodySites bodies).Pairwise (· ≤ ·) ∧ ∀ p ∈ bodySites bodies, start ≤ p ∧ p < stop := by
  induction bodies generalizing start with
  | nil => exact ⟨.nil, fun p hp => absurd hp List.not_mem_nil⟩
  | cons body bodies ih =>
    obtain ⟨mid, hbody, hrest⟩ := Spaced.append h
    obtain ⟨hsorted, hwithin⟩ := hbody.sites .start
    obtain ⟨hsorted', hwithin'⟩ := ih hrest
    have hmid := hbody.le
    have hstop := hrest.le
    refine ⟨List.pairwise_append.mpr ⟨hsorted, hsorted', ?_⟩, ?_⟩
    · intro p hp q hq
      have := hwithin p hp
      have := hwithin' q hq
      omega
    · intro p hp
      rcases List.mem_append.mp hp with hp | hp
      · have := hwithin p hp
        omega
      · have := hwithin' p hp
        omega

/-- Sorted offsets within `2 ^ 32` bytes stay sorted as `u32`s exactly when they lie in one
window. -/
theorem sorted_asU32_iff {sites : List ℕ} (hs : sites.Pairwise (· ≤ ·))
    (hw : ∀ p ∈ sites, start ≤ p ∧ p < start + 2 ^ 32) :
    (sites.map asU32).Pairwise (· ≤ ·) ↔ OneWindow sites := by
  rw [List.pairwise_map]
  constructor
  · intro hcast
    have hboth := List.pairwise_and_iff.mpr ⟨hs, hcast⟩
    have hwindow : sites.Pairwise fun p q => p / 2 ^ 32 = q / 2 ^ 32 := by
      refine hboth.imp_of_mem fun {p q} hp hq hpq => ?_
      obtain ⟨hle, hmod⟩ := hpq
      have := hw p hp
      have := hw q hq
      unfold asU32 at hmod
      omega
    exact fun p hp q hq => List.Pairwise.forall_of_forall_of_flip
      (R := fun p q => p / 2 ^ 32 = q / 2 ^ 32) (fun _ _ => rfl) hwindow
      (hwindow.imp fun h => h.symm) hp hq
  · intro hone
    refine hs.imp_of_mem fun {p q} hp hq hle => ?_
    have := hone p hp q hq
    unfold asU32
    omega

/-! ## Arenas and their slices -/

def CodeArenas.append (pre own : CodeArenas) : CodeArenas :=
  ⟨pre.ops ++ own.ops, pre.localTypes ++ own.localTypes, pre.handlers ++ own.handlers,
    pre.brTables ++ own.brTables, pre.bigMemargs ++ own.bigMemargs, pre.offsets ++ own.offsets⟩

/-- The streams of a compiled function, with its offsets. -/
def CompiledFunc.arenas (g : CompiledFunc) (offsets : List ℕ) : CodeArenas :=
  ⟨g.ops, g.localTypes, g.handlers, g.brTables, g.bigMemargs, offsets⟩

/-- Room for `n` more entries in every arena that is indexed. -/
structure CodeArenas.Room (code : CodeArenas) (n : ℕ) : Prop where
  ops : code.ops.length + n < 2 ^ 32
  brTables : code.brTables.length + n < 2 ^ 32
  handlers : code.handlers.length + n < 2 ^ 32
  bigMemargs : code.bigMemargs.length + n < 2 ^ 32
  offsets : code.offsets.length + n < 2 ^ 32
  localTypes : code.localTypes.length < 2 ^ 32

/-- The record names what the function has appended. -/
structure FuncRecord.Names (f : FuncRecord) (pre own : CodeArenas) : Prop where
  ops : f.ops = ⟨pre.ops.length, own.ops.length⟩
  brTables : f.brTables = ⟨pre.brTables.length, own.brTables.length⟩
  handlers : f.handlers = ⟨pre.handlers.length, own.handlers.length⟩
  offsets : f.offsets = ⟨pre.offsets.length, own.offsets.length⟩
  bigMemargs : f.bigMemargs = ⟨pre.bigMemargs.length, own.bigMemargs.length⟩
  localTypes : f.localTypes = ⟨pre.localTypes.length, own.localTypes.length⟩

theorem slice_middle {α : Type} (pre own rest : List α) :
    (⟨pre.length, own.length⟩ : Span).slice ((pre ++ own) ++ rest) = own := by
  show (((pre ++ own) ++ rest).drop pre.length).take own.length = own
  rw [List.append_assoc, List.drop_left, List.take_left]

/-- The offsets recorded for the ops at `sites`. -/
def stamps (retainOffsets : Bool) (sites : List ℕ) : List ℕ :=
  if retainOffsets then sites.map asU32 else []

theorem stamps_append (retainOffsets : Bool) (sites rest : List ℕ) :
    stamps retainOffsets (sites ++ rest)
      = stamps retainOffsets sites ++ stamps retainOffsets rest := by
  cases retainOffsets
  · rfl
  · exact List.map_append

theorem stamped_eq (retainOffsets : Bool) (offset k : ℕ) :
    stamped retainOffsets (asU32 offset) k = stamps retainOffsets (List.replicate k offset) := by
  cases retainOffsets
  · rfl
  · exact List.map_replicate.symm

theorem stamps_length (retainOffsets : Bool) (sites : List ℕ) :
    (stamps retainOffsets sites).length = if retainOffsets then sites.length else 0 := by
  cases retainOffsets
  · rfl
  · exact List.length_map ..

/-! ## One function -/

theorem edges_le_bytes (op : Operator) : ArenaTranslator.edges op ≤ op.bytes := by
  cases op with
  | jump j => exact Nat.le_add_left _ 1
  | cond c => exact Nat.le_succ 1
  | _ => exact Nat.zero_le _

/-- The bytes of an operator leave room for what it appends. -/
theorem Translator.Sized.fits {pre : CodeArenas} {t : Translator} {m : ℕ} (h : Sized t n)
    (hr : pre.Room (n + m)) {op : Operator} (hop : op.bytes ≤ m) :
    ArenaTranslator.Fits pre t op := by
  have howed := (liveness t).owed_step op
  have hedges := edges_le_bytes op
  obtain ⟨hops, hpool, hbig, -⟩ := h
  obtain ⟨rops, rpool, -, rbig, -, -⟩ := hr
  refine ⟨?_, by omega, by omega⟩
  rw [emitted_eq]
  omega

/-- The pass over a body behind arenas with room is the pass over the body by itself; it records
the sites of the body, and keeps the books. -/
theorem visitAll_placed {pre : CodeArenas} {t : Translator} {offs : List ℕ} {past : List Place}
    {cur : ℕ} {a : ArenaTranslator} (hb : Booked t past) (hz : Sized t n)
    (hs : Spaced start body stop) (hr : pre.Room (n + (stop - start)))
    (h : ArenaTranslator.visitAll ctx body
      (ArenaTranslator.placed pre retainOffsets cur t offs past) = .ok a) :
    ∃ u cur' past', visitAll ctx (body.map Prod.snd) t = .ok u ∧
      a = ArenaTranslator.placed pre retainOffsets cur' u
        (offs ++ stamps retainOffsets ((liveness t).sites body)) past' ∧
      Booked u past' ∧ Sized u (n + (stop - start)) ∧
      u.ops.length = t.ops.length + ((liveness t).sites body).length := by
  induction body generalizing t offs past cur n start with
  | nil =>
    obtain rfl := Except.ok.inj h
    refine ⟨t, cur, past, rfl, ?_, hb, ?_, rfl⟩
    · have hnil : stamps retainOffsets ((liveness t).sites []) = [] := by
        cases retainOffsets <;> rfl
      rw [hnil, List.append_nil]
    · exact ⟨hz.ops.trans (Nat.le_add_right _ _), hz.brTables.trans (Nat.le_add_right _ _),
        hz.bigMemargs.trans (Nat.le_add_right _ _), hz.handlers.trans (Nat.le_add_right _ _)⟩
  | cons x body ih =>
    obtain ⟨offset, op⟩ := x
    obtain ⟨hstart, hrest⟩ := hs
    have hstop := hrest.le
    have hfits : ArenaTranslator.Fits pre t op := hz.fits hr (by omega)
    have h : (ArenaTranslator.placed pre retainOffsets (asU32 offset) t offs past).visit ctx op
        >>= ArenaTranslator.visitAll ctx body = .ok a := h
    rw [ArenaTranslator.placed_visit ctx op hfits] at h
    rcases hv : t.visit ctx op with err | v
    · rw [hv] at h
      cases h
    · rw [hv] at h
      have hlength := hb.length hv
      have hlive := visit_liveness hb.tracked hv
      rw [emitted_eq] at hlength h
      have hroom : pre.Room (n + op.bytes + (stop - (offset + op.bytes))) := by
        obtain ⟨h1, h2, h3, h4, h5, h6⟩ := hr
        exact ⟨by omega, by omega, by omega, by omega, by omega, h6⟩
      obtain ⟨u, cur', past', hrun, ha, hbu, hzu, hlen⟩ :=
        ih (hb.visit hv) (hz.visit hb hv) hrest hroom h
      refine ⟨u, cur', past', ?_, ?_, hbu, ?_, ?_⟩
      · show (t.visit ctx op >>= visitAll ctx (body.map Prod.snd)) = .ok u
        rw [hv]
        exact hrun
      · rw [ha, stamped_eq, List.append_assoc, ← stamps_append, hlive]
        rfl
      · obtain ⟨h1, h2, h3, h4⟩ := hzu
        exact ⟨by omega, by omega, by omega, by omega⟩
      · rw [hlen, hlength, hlive]
        show _ = t.ops.length + (List.replicate _ offset ++ _).length
        rw [List.length_append, List.length_replicate, Nat.add_assoc]

/-- The locals of a body never take a module's locals to `2 ^ 32`. -/
theorem expandLocals_lt {used : ℕ} {groups : List (ℕ × IrVal)} {locals : List IrVal}
    (h : expandLocals ctx used groups = .ok locals) (hu : used < 2 ^ 32) :
    used + locals.length < 2 ^ 32 := by
  induction groups generalizing used locals with
  | nil =>
    obtain rfl := Except.ok.inj h
    exact hu
  | cons g groups ih =>
    obtain ⟨count, ty⟩ := g
    unfold expandLocals at h
    dsimp only at h
    split at h
    · rename_i hcap
      obtain ⟨rest, hrest, h⟩ := bind_ok h
      obtain rfl := Except.ok.inj h
      have := ih hrest (by omega)
      rw [List.length_append, List.length_replicate]
      omega
    · cases h

/-- A translator starts a function behind the arenas. -/
theorem new_placed (hr : code.Room n) (retainOffsets : Bool) (nResults : ℕ) :
    ArenaTranslator.new code retainOffsets nResults
      = ArenaTranslator.placed code retainOffsets 0 (new nResults) [] [] := by
  have cast : ∀ {k : ℕ}, k + n < 2 ^ 32 → asU32 k = k := fun h =>
    ArenaTranslator.asU32_of_lt ((Nat.le_add_right _ n).trans_lt h)
  have hbases : code.bases = ⟨code.ops.length, code.brTables.length, code.bigMemargs.length,
      code.handlers.length, code.offsets.length⟩ := by
    unfold CodeArenas.bases
    rw [cast hr.ops, cast hr.brTables, cast hr.bigMemargs, cast hr.handlers, cast hr.offsets]
  refine ArenaTranslator.ext ?_ (List.append_nil _).symm hbases rfl rfl rfl
  unfold ArenaTranslator.placed ArenaTranslator.behind
  dsimp only
  rw [show (new nResults).ops = [] from rfl, show (new nResults).brTables = [] from rfl,
    show (new nResults).bigMemargs = [] from rfl, show (new nResults).handlers = [] from rfl,
    List.append_nil, List.append_nil, List.append_nil, List.append_nil]
  rfl

/-- A span cut with casts, where the arena stays below `2 ^ 32`. -/
theorem span_eq {α : Type} (pre own : List α) (h : pre.length + own.length < 2 ^ 32) :
    (⟨pre.length, asU32 (pre ++ own).length - pre.length⟩ : Span)
      = ⟨pre.length, own.length⟩ := by
  rw [List.length_append, ArenaTranslator.asU32_of_lt h, Nat.add_sub_cancel_left]

/-- `translate_function` appends what the function translates to by itself, and its record names
it. -/
theorem translateInto_ok {code' : CodeArenas} {typeIdx : ℕ} {body : DecodedBody} {f : FuncRecord}
    {past : List Place} (hs : Spaced start body.operators stop) (hr : code.Room (stop - start))
    (h : translateInto ctx code typeIdx body retainOffsets = .ok (f, past, code')) :
    ∃ g, translateFunction ctx code.localTypes.length typeIdx body.locals
        (body.operators.map Prod.snd) = .ok g ∧
      code' = code.append
        (g.arenas (stamps retainOffsets (Liveness.start.sites body.operators))) ∧
      f.Names code (g.arenas (stamps retainOffsets (Liveness.start.sites body.operators))) ∧
      EdgesWritten g.ops g.brTables past ∧
      g.ops.length = (Liveness.start.sites body.operators).length ∧
      (∀ m, code.Room (stop - start + m) → code'.Room m) := by
  unfold translateInto at h
  rcases hsig : ctx.sig typeIdx with ⟨params, results⟩
  rw [hsig] at h
  obtain ⟨locals, hlocals, h⟩ := bind_ok h
  obtain ⟨a, hrun, h⟩ := bind_ok h
  have hr' : code.Room (0 + (stop - start)) := by
    rw [Nat.zero_add]
    exact hr
  rw [new_placed hr] at hrun
  obtain ⟨u, cur', patched, hu, rfl, hb, hz, hlen⟩ :=
    visitAll_placed (booked_new _) (sized_new _) hs hr' hrun
  rw [liveness_new] at h hlen
  set offs := stamps retainOffsets (Liveness.start.sites body.operators) with hoffs
  by_cases hctrl : u.ctrl = []
  · have hopen : ¬(ArenaTranslator.placed code retainOffsets cur' u ([] ++ offs)
        patched).own.ctrl ≠ [] := fun h => h hctrl
    rw [if_neg hopen] at h
    rcases herr : u.error with _ | err
    · have herr' : (ArenaTranslator.placed code retainOffsets cur' u ([] ++ offs)
          patched).own.error = none := herr
      rw [herr'] at h
      obtain ⟨hf, hrest⟩ := Prod.mk.inj (Except.ok.inj h)
      obtain ⟨hpast, hcode⟩ := Prod.mk.inj hrest
      subst hf hpast hcode
      have hlocal := expandLocals_lt hlocals hr.localTypes
      have hops : u.ops.length = (Liveness.start.sites body.operators).length :=
        hlen.trans (Nat.zero_add _)
      have hsmall : u.ops.length ≤ stop - start ∧ offs.length ≤ stop - start ∧
          u.brTables.length ≤ stop - start ∧ u.handlers.length ≤ stop - start ∧
          u.bigMemargs.length ≤ stop - start := by
        have hstamps : offs.length ≤ u.ops.length := by
          rw [hoffs, stamps_length, hops]
          split <;> omega
        obtain ⟨h1, h2, h3, h4⟩ := hz
        omega
      obtain ⟨h1, h2, h3, h4, h5⟩ := hsmall
      refine ⟨⟨u.ops, typeIdx, params.length, results.length, locals, u.maxOperands, u.handlers,
        u.brTables, u.bigMemargs⟩, ?_, rfl, ?_, hb.finished hctrl, hops, fun m hm => ?_⟩
      · unfold translateFunction
        rw [hsig]
        show (expandLocals ctx code.localTypes.length body.locals >>= fun localTypes =>
          visitAll ctx (body.operators.map Prod.snd) (new results.length) >>= _) = _
        rw [hlocals, show visitAll ctx _ (new results.length) = _ from hu]
        dsimp only [bind, Except.bind]
        rw [herr]
        rfl
      · refine ⟨span_eq _ _ ?_, span_eq _ _ ?_, span_eq _ _ ?_, span_eq _ _ ?_, span_eq _ _ ?_, ?_⟩
        · exact (Nat.add_le_add_left h1 _).trans_lt hr.ops
        · exact (Nat.add_le_add_left h3 _).trans_lt hr.brTables
        · exact (Nat.add_le_add_left h4 _).trans_lt hr.handlers
        · exact (Nat.add_le_add_left h2 _).trans_lt hr.offsets
        · exact (Nat.add_le_add_left h5 _).trans_lt hr.bigMemargs
        · show (⟨asU32 code.localTypes.length, asU32 (code.localTypes ++ locals).length
            - asU32 code.localTypes.length⟩ : Span) = _
          rw [ArenaTranslator.asU32_of_lt hr.localTypes]
          exact span_eq _ _ hlocal
      · obtain ⟨m1, m2, m3, m4, m5, -⟩ := hm
        have add : ∀ {α : Type} {pre own : List α}, own.length ≤ stop - start →
            pre.length + (stop - start + m) < 2 ^ 32 → (pre ++ own).length + m < 2 ^ 32 := by
          intro α pre own hown hpre
          rw [List.length_append]
          omega
        refine ⟨add h1 m1, add h3 m2, add h4 m3, add h5 m4, add h2 m5, ?_⟩
        show (code.localTypes ++ locals).length < 2 ^ 32
        rw [List.length_append]
        exact hlocal
    · have herr' : (ArenaTranslator.placed code retainOffsets cur' u ([] ++ offs)
          patched).own.error = some err := herr
      rw [herr'] at h
      cases h
  · have hopen : (ArenaTranslator.placed code retainOffsets cur' u ([] ++ offs)
        patched).own.ctrl ≠ [] := hctrl
    rw [if_pos hopen] at h
    cases h

/-! ## Whole modules -/

theorem tile_cons {α : Type} {pre own : List α} {s : Span} {spans : List Span} {hi : ℕ}
    (hs : s = ⟨pre.length, own.length⟩) (h : SpansTile (pre ++ own).length spans hi) :
    SpansTile pre.length (s :: spans) hi := by
  subst hs
  rw [List.length_append] at h
  exact ⟨rfl, h⟩

theorem CodeArenas.append_empty (code : CodeArenas) : code.append .empty = code := by
  unfold CodeArenas.append CodeArenas.empty
  dsimp only
  rw [List.append_nil, List.append_nil, List.append_nil, List.append_nil, List.append_nil,
    List.append_nil]

theorem CodeArenas.append_assoc (code own rest : CodeArenas) :
    (code.append own).append rest = code.append (own.append rest) := by
  unfold CodeArenas.append
  dsimp only
  rw [List.append_assoc, List.append_assoc, List.append_assoc, List.append_assoc,
    List.append_assoc, List.append_assoc]

/-- Each function appends its streams behind those of the functions before it. -/
theorem compileBodies_laid {bodies : List DecodedBody} {i : ℕ} {code' : CodeArenas}
    {fs : List (FuncRecord × List Place)} (hs : Spaced start (bodies.flatMap (·.operators)) stop)
    (hr : code.Room (stop - start))
    (h : compileBodies ctx retainOffsets i bodies code = .ok (fs, code')) :
    ∃ rest, code' = code.append rest ∧ StreamsLaid retainOffsets code fs code' ∧
      rest.offsets = stamps retainOffsets (bodySites bodies) := by
  induction bodies generalizing i start code fs with
  | nil =>
    obtain ⟨rfl, rfl⟩ := Prod.mk.inj (Except.ok.inj h)
    refine ⟨.empty, code.append_empty.symm, ?_, ?_⟩
    · exact ⟨rfl, rfl, rfl, rfl, rfl, rfl, fun f hf => absurd hf List.not_mem_nil,
        fun f hf => absurd hf List.not_mem_nil⟩
    · cases retainOffsets <;> rfl
  | cons body bodies ih =>
    unfold compileBodies at h
    split at h
    · cases h
    · rename_i typeIdx _
      obtain ⟨⟨f, patched, code₁⟩, hf, h⟩ := bind_ok h
      obtain ⟨⟨fs', code₂⟩, hfs, h⟩ := bind_ok h
      obtain ⟨hfirst, hlast⟩ := Prod.mk.inj (Except.ok.inj h)
      subst hfirst hlast
      obtain ⟨mid, hbody, hrest⟩ := Spaced.append hs
      have hmid := hbody.le
      have hstop := hrest.le
      have hroom : code.Room (mid - start + (stop - mid)) := by
        rw [show mid - start + (stop - mid) = stop - start by omega]
        exact hr
      have hroom₀ : code.Room (mid - start) := by
        obtain ⟨h1, h2, h3, h4, h5, h6⟩ := hroom
        exact ⟨by omega, by omega, by omega, by omega, by omega, h6⟩
      obtain ⟨g, -, hcode, hnames, hedges, hlen, hkeep⟩ := translateInto_ok hbody hroom₀ hf
      set own := g.arenas (stamps retainOffsets (Liveness.start.sites body.operators)) with hown
      subst hcode
      obtain ⟨rest, hcode₂, hlaid, hoffs⟩ := ih hrest (hkeep _ hroom) hfs
      refine ⟨own.append rest, ?_, ?_, ?_⟩
      · rw [hcode₂, CodeArenas.append_assoc]
      · have hops : f.ops.slice code₂.ops = g.ops := by
          rw [hcode₂, hnames.ops]
          exact slice_middle ..
        have hpool : f.brTables.slice code₂.brTables = g.brTables := by
          rw [hcode₂, hnames.brTables]
          exact slice_middle ..
        have hstamps : f.offsets.slice code₂.offsets
            = stamps retainOffsets (Liveness.start.sites body.operators) := by
          rw [hcode₂, hnames.offsets]
          exact slice_middle ..
        refine ⟨tile_cons hnames.ops hlaid.ops, tile_cons hnames.brTables hlaid.brTables,
          tile_cons hnames.handlers hlaid.handlers, tile_cons hnames.offsets hlaid.offsets,
          tile_cons hnames.bigMemargs hlaid.bigMemargs,
          tile_cons hnames.localTypes hlaid.localTypes, fun f' hf' => ?_, fun f' hf' => ?_⟩
        · rcases List.mem_cons.mp hf' with rfl | hf'
          · rw [hops, hpool]
            exact hedges
          · exact hlaid.edges f' hf'
        · rcases List.mem_cons.mp hf' with rfl | hf'
          · rw [hops, hstamps, stamps_length, hlen]
          · exact hlaid.recorded f' hf'
      · show stamps retainOffsets _ ++ rest.offsets = _
        rw [hoffs, ← stamps_append]
        rfl

/-- The streams of a module are well formed exactly when its byte offsets are not retained, or the
operators that add an op start in one window of `2 ^ 32` bytes. -/
theorem streamsWellFormed_iff (ctx : CompileCtx) (retainOffsets : Bool) (numImported : ℕ)
    (s : CodeSection) {fs : List (FuncRecord × List Place)} {code : CodeArenas}
    (h : compileBodies ctx retainOffsets numImported s.bodies .empty = .ok (fs, code)) :
    StreamsWellFormed retainOffsets fs code
      ↔ (retainOffsets = true → OneWindow (bodySites s.bodies)) := by
  have hsize := s.size
  have hspan : s.stop - s.start < 2 ^ 32 := by omega
  have hroom : CodeArenas.empty.Room (s.stop - s.start) := by
    have hzero : ([] : List Op).length + (s.stop - s.start) < 2 ^ 32 := by
      rw [List.length_nil, Nat.zero_add]
      exact hspan
    exact ⟨hzero, hzero, hzero, hzero, hzero, by decide⟩
  obtain ⟨rest, rfl, hlaid, hoffs⟩ := compileBodies_laid s.spaced hroom h
  have hsites : (CodeArenas.empty.append rest).offsets
      = stamps retainOffsets (bodySites s.bodies) := hoffs
  obtain ⟨hsorted, hwithin⟩ := s.spaced.bodySites
  have hcast := sorted_asU32_iff hsorted fun p hp =>
    ⟨(hwithin p hp).1, (hwithin p hp).2.trans hsize⟩
  constructor
  · intro hwf hretain
    have hpair := hwf.sorted
    rw [hsites, hretain] at hpair
    exact hcast.mp hpair
  · intro hone
    refine ⟨hlaid, ?_⟩
    rw [hsites]
    cases retainOffsets with
    | false => exact .nil
    | true => exact hcast.mpr (hone rfl)

/-- A module of two functions, the first with a forward branch. -/
theorem streamsWellFormed_sample :
    StreamsWellFormed true
      [(⟨⟨0, 1⟩, 0, 0, 0, ⟨0, 0⟩, 0, ⟨0, 0⟩, ⟨0, 0⟩, ⟨0, 0⟩, ⟨0, 1⟩⟩, [.inline 0]),
        (⟨⟨1, 1⟩, 0, 0, 0, ⟨0, 0⟩, 0, ⟨0, 0⟩, ⟨0, 0⟩, ⟨0, 0⟩, ⟨1, 1⟩⟩, [])]
      ⟨[.br ⟨1, 0, 0⟩, .plain .nop], [], [], [], [], [104, 110]⟩ := by
  refine (streamsWellFormed_iff ⟨[⟨0, .final, none, .func [] []⟩], [0, 0], [], 10⟩ true 0
    ⟨[⟨[], [(102, .block .empty), (104, .jump (.br 0)), (106, .end_), (107, .end_)]⟩,
      ⟨[], [(110, .plain .nop), (111, .end_)]⟩], 100, 112, by norm_num, by decide⟩ rfl).mpr
    fun _ => ?_
  unfold OneWindow
  decide

/-- Two operators at bytes `2 ^ 32 - 1` and `2 ^ 32` of a binary: the second's offset is recorded
as `0`. -/
theorem streams_not_sorted :
    ¬∀ (ctx : CompileCtx) (retainOffsets : Bool) (numImported : ℕ) (s : CodeSection) (fs code),
      compileBodies ctx retainOffsets numImported s.bodies .empty = .ok (fs, code) →
        StreamsWellFormed retainOffsets fs code := by
  intro h
  have hwf := h ⟨[⟨0, .final, none, .func [] []⟩], [0], [], 0⟩ true 0
    ⟨[⟨[], [(4294967295, .plain .nop), (4294967296, .plain .nop), (4294967297, .end_)]⟩],
      4294967290, 4294967298, by norm_num, by decide⟩
    [(⟨⟨0, 2⟩, 0, 0, 0, ⟨0, 0⟩, 0, ⟨0, 0⟩, ⟨0, 0⟩, ⟨0, 0⟩, ⟨0, 2⟩⟩, [])]
    ⟨[.plain .nop, .plain .nop], [], [], [], [], [4294967295, 0]⟩ rfl
  exact absurd hwf.sorted (by decide)

end SubmilliWasm
