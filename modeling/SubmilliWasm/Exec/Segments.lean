/-
# What an instantiation leaves

An instantiation that fails before its instance is created has only appended to the store
(`StoreGrown`).  After that, the active segments are applied in order, each of them as a whole or
not at all (`Applied`), and the first that is refused ends it.  A function that a segment writes is
one of the instance or one that was there, so it resolves in the store however that goes on.
-/
import SubmilliWasm.Exec.Instantiate
import SubmilliWasm.Lib.Ranges

namespace SubmilliWasm

open Effects

/-! ## Growth -/

/-- The entities of a store are there, as they were, and others after them; the instances are the
same. -/
structure StoreGrown (s s' : InitStore) : Prop where
  engine : s'.engine = s.engine
  tables : s.tables <+: s'.tables
  tableTypes : s.tableTypes <+: s'.tableTypes
  memories : s.memories <+: s'.memories
  globals : s.globals <+: s'.globals
  globalTypes : s.globalTypes <+: s'.globalTypes
  funcs : s.funcs <+: s'.funcs
  tags : s.tags <+: s'.tags
  elems : s'.elems = s.elems
  instances : s'.instances = s.instances

theorem StoreGrown.refl (s : InitStore) : StoreGrown s s :=
  ⟨rfl, List.prefix_refl _, List.prefix_refl _, List.prefix_refl _, List.prefix_refl _,
    List.prefix_refl _, List.prefix_refl _, List.prefix_refl _, rfl, rfl⟩

theorem StoreGrown.trans (a b c : InitStore) (h : StoreGrown a b) (h' : StoreGrown b c) :
    StoreGrown a c :=
  ⟨h'.engine.trans h.engine, h.tables.trans h'.tables, h.tableTypes.trans h'.tableTypes,
    h.memories.trans h'.memories, h.globals.trans h'.globals, h.globalTypes.trans h'.globalTypes,
    h.funcs.trans h'.funcs, h.tags.trans h'.tags, h'.elems.trans h.elems,
    h'.instances.trans h.instances⟩

/-- A growth that leaves the globals alone. -/
structure GrownBeside (s s' : InitStore) : Prop extends StoreGrown s s' where
  same : s'.globals = s.globals

theorem GrownBeside.refl (s : InitStore) : GrownBeside s s := ⟨.refl s, rfl⟩

theorem GrownBeside.trans (a b c : InitStore) (h : GrownBeside a b) (h' : GrownBeside b c) :
    GrownBeside a c := ⟨.trans _ _ _ h.1 h'.1, h'.same.trans h.same⟩

/-- Only the heap has changed. -/
structure HeapChange (s s' : InitStore) : Prop where
  inner : HeapOnly s.toStoreInner s'.toStoreInner
  rest : s' = { s with toStoreInner := s'.toStoreInner }

theorem HeapChange.refl (s : InitStore) : HeapChange s s := ⟨.refl _, rfl⟩

theorem HeapChange.trans (a b c : InitStore) (h : HeapChange a b) (h' : HeapChange b c) :
    HeapChange a c := by
  refine ⟨.trans _ _ _ h.inner h'.inner, ?_⟩
  have hb := h.rest
  have hc := h'.rest
  rw [hb] at hc
  exact hc

variable {ctx : ConstCtx} {m : InitModule} {s s' : InitStore} {evaluated : List (List Ref)}
  {spaces : Spaces} {f i inst : ℕ}

theorem HeapChange.grown (h : HeapChange s s') : StoreGrown s s' := by
  have hinner := h.inner
  rw [h.rest]
  exact ⟨hinner.engine, hinner.tables ▸ List.prefix_refl _, List.prefix_refl _, List.prefix_refl _,
    hinner.globals ▸ List.prefix_refl _, List.prefix_refl _, List.prefix_refl _,
    List.prefix_refl _, hinner.elems, rfl⟩

theorem inInner_ok {α : Type} {x : ConstM α} {a : α} :
    inInner x s = .ok a s' ↔
      ∃ t, x s.toStoreInner = .ok a t ∧ s' = { s with toStoreInner := t } := by
  unfold inInner
  rcases x s.toStoreInner with ⟨b, t⟩ | ⟨e, t⟩
  · constructor
    · intro h
      obtain ⟨rfl, rfl⟩ := EStateM.Result.ok.inj h
      exact ⟨t, rfl, rfl⟩
    · rintro ⟨t', h, rfl⟩
      obtain ⟨rfl, rfl⟩ := EStateM.Result.ok.inj h
      rfl
  · constructor
    · intro h
      cases h
    · rintro ⟨t', h, -⟩
      cases h

theorem inInner_heapChange {α : Type} {x : ConstM α} (h : Preserves HeapOnly x) :
    Preserves HeapChange (inInner x) := by
  intro s
  have hs := h s.toStoreInner
  unfold inInner
  rcases hx : x s.toStoreInner with ⟨a, t⟩ | ⟨e, t⟩
  · rw [hx] at hs
    exact ⟨hs, rfl⟩
  · rw [hx] at hs
    exact ⟨hs, rfl⟩

section

variable {α β : Type}

theorem grown_bind {x : InitM α} {f : α → InitM β} (hx : Preserves StoreGrown x)
    (hf : ∀ a, Preserves StoreGrown (f a)) : Preserves StoreGrown (x >>= f) :=
  .bind StoreGrown.trans hx hf

theorem beside_bind {x : InitM α} {f : α → InitM β} (hx : Preserves GrownBeside x)
    (hf : ∀ a, Preserves GrownBeside (f a)) : Preserves GrownBeside (x >>= f) :=
  .bind GrownBeside.trans hx hf

theorem grown_ofLink (x : Except LinkError α) : Preserves StoreGrown (ofLink x) :=
  .attempt StoreGrown.refl _

theorem beside_ofLink (x : Except LinkError α) : Preserves GrownBeside (ofLink x) :=
  .attempt GrownBeside.refl _

theorem beside_throw (e : InitError) : Preserves GrownBeside (throw e : InitM α) :=
  .throw GrownBeside.refl e

theorem beside_inInner {x : ConstM α} (h : Preserves HeapOnly x) :
    Preserves GrownBeside (inInner x) := fun s =>
  have hs := inInner_heapChange h s
  ⟨hs.grown, hs.inner.globals⟩

end

/-! ## Before the instance -/

theorem newMemory_beside (allocator : Bool) (ty : MemoryType) :
    Preserves GrownBeside (newMemory allocator ty) := by
  unfold newMemory
  cases MemoryEntity.new ty allocator with
  | none => exact beside_throw _
  | some entity =>
    exact .update fun s => { GrownBeside.refl s with memories := List.prefix_append _ _ }

theorem newTag_beside (m : InitModule) (type : ℕ) : Preserves GrownBeside (newTag m type) := by
  refine beside_bind (beside_ofLink _) fun ty => ?_
  exact .update fun s => { GrownBeside.refl s with tags := List.prefix_append _ _ }

theorem newFunc_beside (entity : FuncEntity) : Preserves GrownBeside (newFunc entity) :=
  .update fun s => { GrownBeside.refl s with funcs := List.prefix_append _ _ }

theorem newTable_beside (m : InitModule) (ctx : ConstCtx) (allocator : Bool)
    (td : IrTableType × Option ConstExpr) :
    Preserves GrownBeside (newTable m ctx allocator td) := by
  unfold newTable
  cases td.2
  case' none => refine beside_bind (.pure GrownBeside.refl _) fun init => ?_
  case' some e => refine beside_bind (beside_inInner (ctx.evalConstRef_heapOnly e)) fun init => ?_
  all_goals
    refine beside_bind (beside_ofLink _) fun p => ?_
    dsimp only
    cases TableEntity.new p.2 init allocator with
    | none => exact beside_throw _
    | some entity =>
      exact .update fun s => { GrownBeside.refl s with
        tables := List.prefix_append _ _, tableTypes := List.prefix_append _ _ }

/-- A loop of steps that leave the globals alone. -/
theorem collect_beside {α β : Type} {f : α → InitM β} (h : ∀ a, Preserves GrownBeside (f a))
    (as : List α) : Preserves GrownBeside (collect f as) :=
  .collect GrownBeside.refl GrownBeside.trans fun a _ => h a

theorem newGlobal_grown (ty : GlobalType) (value : Val) :
    Preserves StoreGrown (newGlobal ty value) :=
  .update fun s => { StoreGrown.refl s with
    globals := List.prefix_append _ _, globalTypes := List.prefix_append _ _ }

theorem initGlobals_grown (m : InitModule) (ctx : ConstCtx)
    (globals : List (IrGlobalType × ConstExpr)) :
    Preserves StoreGrown (initGlobals m ctx globals) := by
  induction globals generalizing ctx with
  | nil => exact .pure StoreGrown.refl _
  | cons p globals ih =>
    refine grown_bind ((beside_inInner (ctx.evalConst_heapOnly p.2)).mono (·.1)) fun value => ?_
    refine grown_bind (grown_ofLink _) fun ty => ?_
    exact grown_bind (newGlobal_grown ty value) fun g => ih _

theorem prepare_grown (env : InitEnv) (m : InitModule) (imports : List Extern) :
    Preserves StoreGrown (prepare env m imports) := by
  refine grown_bind (.get StoreGrown.refl) fun s => ?_
  refine grown_bind (grown_ofLink _) fun _ => ?_
  refine grown_bind ((collect_beside (fun _ => newMemory_beside _ _) _).mono (·.1)) fun _ => ?_
  refine grown_bind ((collect_beside (fun _ => newTag_beside _ _) _).mono (·.1)) fun _ => ?_
  refine grown_bind (.get StoreGrown.refl) fun s => ?_
  refine grown_bind ((collect_beside (fun _ => newFunc_beside _) _).mono (·.1)) fun _ => ?_
  refine grown_bind ((collect_beside (fun _ => newTable_beside _ _ _ _) _).mono (·.1)) fun _ => ?_
  refine grown_bind (initGlobals_grown _ _ _) fun globals => ?_
  refine grown_bind ((collect_beside (fun seg => ?_) _).mono (·.1)) fun _ =>
    .pure StoreGrown.refl _
  exact beside_inInner (ConstCtx.elemRefs_heapOnly _ seg.items)

/-! ## Functions -/

/-- A function is a host function, or one of an instance that is there. -/
inductive InitStore.Resolves (s : InitStore) (f : ℕ) : Prop where
  | host {ty : CanonicalTypeId} (entity : s.funcs[f]? = some (.host ty))
  | wasm {inst k : ℕ} {i : InitInstance} (entity : s.funcs[f]? = some (.wasm inst k))
      (instance_ : s.instances[inst]? = some i) (defined : k < i.module.funcTypes.length)

/-- A later store: functions and instances are appended, and an instance keeps its module. -/
structure StoreExtends (s s' : InitStore) : Prop where
  funcs : s.funcs <+: s'.funcs
  instances : ∀ (k : ℕ) (i : InitInstance), s.instances[k]? = some i →
    ∃ i', s'.instances[k]? = some i' ∧ i'.module = i.module

theorem prefix_getElem? {α : Type} {l l' : List α} {a : α} (h : l <+: l') (hi : l[i]? = some a) :
    l'[i]? = some a := by
  obtain ⟨t, rfl⟩ := h
  rw [List.getElem?_append_left (List.getElem?_eq_some_iff.mp hi).1, hi]

theorem InitStore.Resolves.extends (h : s.Resolves f) (hext : StoreExtends s s') :
    s'.Resolves f := by
  cases h with
  | host entity => exact .host (prefix_getElem? hext.funcs entity)
  | wasm entity hinst hdef =>
    obtain ⟨i', hi', hmodule⟩ := hext.instances _ _ hinst
    exact .wasm (prefix_getElem? hext.funcs entity) hi' (hmodule ▸ hdef)

theorem StoreGrown.extends (h : StoreGrown s s') : StoreExtends s s' :=
  ⟨h.funcs, fun _ i hi => ⟨i, h.instances ▸ hi, rfl⟩⟩

/-- A function resolves, or will as soon as the instance of `m` is the next one. -/
def Planned (m : InitModule) (s : InitStore) (f : ℕ) : Prop :=
  s.Resolves f ∨
    ∃ k, k < m.funcTypes.length ∧ s.funcs[f]? = some (.wasm s.instances.length k)

theorem Planned.grown (h : Planned m s f) (hgrown : StoreGrown s s') : Planned m s' f := by
  rcases h with h | ⟨k, hk, h⟩
  · exact Or.inl (h.extends hgrown.extends)
  · exact Or.inr ⟨k, hk, hgrown.instances ▸ prefix_getElem? hgrown.funcs h⟩

/-- The functions that globals hold. -/
def GlobalsHold (s : InitStore) (globals : List ℕ) (P : ℕ → Prop) : Prop :=
  ∀ g ∈ globals, ∀ f, s.globals[g]? = some (.funcRef (some f)) → P f

/-- The context of an expression names planned functions only. -/
structure PlannedCtx (m : InitModule) (ctx : ConstCtx) (s : InitStore) : Prop where
  funcs : ∀ f ∈ ctx.funcs, Planned m s f
  globals : GlobalsHold s ctx.globals (Planned m s)

theorem PlannedCtx.names (h : PlannedCtx m ctx s) (hf : ctx.Names s.globals f) : Planned m s f := by
  rcases hf with hf | ⟨g, hg, hf⟩
  · exact h.funcs f hf
  · exact h.globals g hg f hf

theorem PlannedCtx.heapChange (h : PlannedCtx m ctx s) (hchange : HeapChange s s') :
    PlannedCtx m ctx s' := by
  refine ⟨fun f hf => (h.funcs f hf).grown hchange.grown, fun g hg f hf => ?_⟩
  rw [hchange.inner.globals] at hf
  exact (h.globals g hg f hf).grown hchange.grown

/-! ## What the preparation has -/

theorem newGlobal_planned {ty : GlobalType} {value : Val} {g : ℕ} (hctx : PlannedCtx m ctx s)
    (hvalue : ∀ f, value = .funcRef (some f) → Planned m s f)
    (h : newGlobal ty value s = .ok g s') :
    PlannedCtx m { ctx with globals := ctx.globals ++ [g] } s' := by
  have hgrown := (newGlobal_grown ty value).ok h
  obtain ⟨rfl, rfl⟩ := EStateM.Result.ok.inj h
  refine ⟨fun f hf => (hctx.funcs f hf).grown hgrown, ?_⟩
  intro j hj f hf
  -- An old global holds what it held, the new one its value.
  by_cases hlt : j < s.globals.length
  · rcases List.mem_append.mp hj with hj | hj
    · refine (hctx.globals j hj f ?_).grown hgrown
      rwa [List.getElem?_append_left hlt] at hf
    · rw [List.mem_singleton.mp hj] at hlt
      exact absurd hlt (lt_irrefl _)
  · rw [List.getElem?_append_right (by omega)] at hf
    have hzero : j - s.globals.length = 0 := by
      have := (List.getElem?_eq_some_iff.mp hf).1
      rw [List.length_singleton] at this
      omega
    rw [hzero] at hf
    exact (hvalue f (Option.some.inj hf)).grown hgrown

theorem initGlobals_planned {defs : List (IrGlobalType × ConstExpr)} {globals : List ℕ}
    (hctx : PlannedCtx m ctx s) (h : initGlobals m ctx defs s = .ok globals s') :
    PlannedCtx m { ctx with globals := globals } s' := by
  induction defs generalizing ctx s with
  | nil =>
    obtain ⟨rfl, rfl⟩ := EStateM.Result.ok.inj h
    exact hctx
  | cons p defs ih =>
    obtain ⟨value, s₁, hvalue, h⟩ := bind_ok h
    obtain ⟨ty, -, h⟩ := attempt_bind_ok h
    obtain ⟨g, s₂, hg, h⟩ := bind_ok h
    have hchange := (inInner_heapChange (ctx.evalConst_heapOnly p.2)).ok hvalue
    obtain ⟨t, ht, -⟩ := inInner_ok.mp hvalue
    have hplanned : ∀ f, value = .funcRef (some f) → Planned m s₁ f := by
      intro f hf
      exact (hctx.names (ConstCtx.evalConst_names ht f hf)).grown hchange.grown
    have hrest := ih (newGlobal_planned (hctx.heapChange hchange) hplanned hg) h
    exact hrest

/-- The references of the element segments name planned functions only. -/
theorem evalElems_planned {elems : List ElemSegment} (hctx : PlannedCtx m ctx s)
    (h : collect (fun seg : ElemSegment => inInner (ctx.elemRefs seg.items)) elems s =
      .ok evaluated s') :
    HeapChange s s' ∧ (∀ refs ∈ evaluated, ∀ f, .func (some f) ∈ refs → Planned m s' f) ∧
      evaluated.length = elems.length := by
  refine collect_forall (Q := fun s' refs => ∀ f, .func (some f) ∈ refs → Planned m s' f)
    HeapChange.refl HeapChange.trans (fun hr hq f hf => (hq f hf).grown hr.grown) ?_ h
  intro seg _ s₁ refs s₂ hs₁ hrefs
  have hchange := (inInner_heapChange (ctx.elemRefs_heapOnly seg.items)).ok hrefs
  obtain ⟨t, ht, -⟩ := inInner_ok.mp hrefs
  refine ⟨hchange, fun f hf => ?_⟩
  exact ((hctx.heapChange hs₁).names (ConstCtx.elemRefs_names ht f hf)).grown hchange.grown

theorem linkStore_resolves {ty : ExternType} (h : s.linkStore.externType (.func f) = some ty) :
    s.Resolves f := by
  simp only [LinkStore.externType, Option.bind_eq_bind, Option.bind_eq_some_iff] at h
  obtain ⟨entity, hentity, id, hid, -⟩ := h
  cases entity with
  | host ty => exact .host hentity
  | wasm inst k =>
    simp only [LinkStore.definedType, Option.bind_eq_some_iff] at hid
    obtain ⟨pmod, hpmod, type, htype, -⟩ := hid
    rw [InitStore.linkStore, List.getElem?_map, Option.map_eq_some_iff] at hpmod
    obtain ⟨i, hi, rfl⟩ := hpmod
    exact .wasm hentity hi (List.getElem?_eq_some_iff.mp htype).1

/-- The functions that the provided globals hold resolve. -/
def ImportsResolve (s : InitStore) (imports : List Extern) : Prop :=
  ∀ g, Extern.global g ∈ imports → ∀ f, s.globals[g]? = some (.funcRef (some f)) → s.Resolves f

/-- The functions that passed the import check resolve. -/
theorem checkImports_resolves {imports : List Extern}
    (h : s.linkStore.checkImports m.toLinkModule imports = .ok ()) (hf : .func f ∈ imports) :
    s.Resolves f := by
  obtain ⟨hlen, hall⟩ := LinkStore.checkImports_iff.mp h
  obtain ⟨i, hi, hget⟩ := List.getElem_of_mem hf
  have hi' : i < m.imports.length := by omega
  have hmem : (m.imports[i], Extern.func f) ∈ m.imports.zip imports := by
    rw [← hget, ← List.getElem_zip (h := by rw [List.length_zip]; omega)]
    exact List.getElem_mem _
  obtain ⟨⟨actual, -, hactual, -⟩, -⟩ := LinkStore.linkImport_iff.mp (hall _ hmem)
  exact linkStore_resolves hactual

/-- What the preparation leaves. -/
structure Prepared (m : InitModule) (s : InitStore) (spaces : Spaces)
    (evaluated : List (List Ref)) (s' : InitStore) : Prop where
  grown : StoreGrown s s'
  ctx : PlannedCtx m ⟨m.allocModule, spaces.funcs, spaces.globals⟩ s'
  refs : ∀ refs ∈ evaluated, ∀ f, .func (some f) ∈ refs → Planned m s' f
  length : evaluated.length = m.elems.length

theorem newFuncs_planned {funcs : List ℕ}
    (h : collect (fun k => newFunc (.wasm s.instances.length (m.numImportedFuncs + k)))
      (List.range m.numFunctions) s = .ok funcs s') :
    StoreGrown s s' ∧ (∀ f ∈ funcs, Planned m s' f) ∧
      funcs.length = (List.range m.numFunctions).length := by
  refine collect_forall (Q := Planned m) StoreGrown.refl StoreGrown.trans
    (fun hr hq => hq.grown hr) ?_ h
  intro k hk s₁ f s₂ hs₁ hf
  have hgrown := ((newFunc_beside _).ok hf).toStoreGrown
  refine ⟨hgrown, Or.inr ⟨m.numImportedFuncs + k, ?_, ?_⟩⟩
  · have hlt := List.mem_range.mp hk
    unfold InitModule.numFunctions at hlt
    omega
  · obtain ⟨rfl, rfl⟩ := EStateM.Result.ok.inj hf
    show (s₁.funcs ++ [_])[s₁.funcs.length]? = _
    rw [List.getElem?_concat_length, ← hs₁.instances]

theorem prepare_ok {env : InitEnv} {imports : List Extern} (hlive : ImportsResolve s imports)
    (h : prepare env m imports s = .ok (spaces, evaluated) s') :
    Prepared m s spaces evaluated s' := by
  have hgrown := (prepare_grown env m imports).ok h
  obtain ⟨_, hlink, h⟩ := attempt_bind_ok (get_bind_ok h)
  obtain ⟨memories, s₁, hmem, h⟩ := bind_ok h
  obtain ⟨tags, s₂, htags, h⟩ := bind_ok h
  obtain ⟨funcs, s₃, hfuncs, h⟩ := bind_ok (get_bind_ok h)
  obtain ⟨tables, s₄, htables, h⟩ := bind_ok h
  obtain ⟨globals, s₅, hglobals, h⟩ := bind_ok h
  obtain ⟨refs, s₆, hrefs, h⟩ := bind_ok h
  obtain ⟨hpair, rfl⟩ := EStateM.Result.ok.inj h
  obtain ⟨rfl, rfl⟩ := Prod.mk.inj hpair
  have hcheck : s.linkStore.checkImports m.toLinkModule imports = .ok () := by
    rcases hc : s.linkStore.checkImports m.toLinkModule imports with e | ⟨⟩
    · rw [hc] at hlink
      cases hlink
    · rfl
  have hs₁ := (collect_beside (fun _ => newMemory_beside _ _) _).ok hmem
  have hs₂ := (collect_beside (newTag_beside m) _).ok htags
  have hs₃ := (collect_beside (fun _ => newFunc_beside _) _).ok hfuncs
  obtain ⟨-, hplanned, -⟩ := newFuncs_planned hfuncs
  have hs₄ := (collect_beside (fun _ => newTable_beside m _ _ _) _).ok htables
  have hbefore : GrownBeside s s₄ :=
    .trans _ _ _ hs₁ (.trans _ _ _ hs₂ (.trans _ _ _ hs₃ hs₄))
  have hctx : PlannedCtx m ⟨m.allocModule, (Spaces.ofImports imports).funcs ++ funcs,
      (Spaces.ofImports imports).globals⟩ s₄ := by
    constructor
    · intro f hf
      rcases List.mem_append.mp hf with hf | hf
      · have hmem : Extern.func f ∈ imports := by
          obtain ⟨ext, hext, hf⟩ := List.mem_filterMap.mp hf
          cases ext <;> cases hf
          exact hext
        exact Or.inl ((checkImports_resolves hcheck hmem).extends hbefore.1.extends)
      · exact (hplanned f hf).grown hs₄.1
    · intro g hg f hf
      have hmem : Extern.global g ∈ imports := by
        obtain ⟨ext, hext, hg⟩ := List.mem_filterMap.mp hg
        cases ext <;> cases hg
        exact hext
      rw [hbefore.same] at hf
      exact Or.inl ((hlive g hmem f hf).extends hbefore.1.extends)
  have hctx' := initGlobals_planned hctx hglobals
  obtain ⟨hchange, hall, hlen⟩ := evalElems_planned hctx' hrefs
  exact ⟨hgrown, hctx'.heapChange hchange, hall, hlen⟩

/-! ## Active segments -/

/-- An active segment, with what it writes. -/
inductive ActiveSegment where
  | elem (table : ℕ) (offset : ConstExpr) (refs : List Ref)
  | data (segIdx memory : ℕ) (offset : ConstExpr) (bytes : List UInt8)

def activeElem : ElemSegment × List Ref → Option ActiveSegment
  | (⟨_, .active table offset⟩, refs) => some (.elem table offset refs)
  | (⟨_, .passive⟩, _) | (⟨_, .declared⟩, _) => none

def activeData : DataSegment × ℕ → Option ActiveSegment
  | (⟨bytes, .active memory offset⟩, segIdx) => some (.data segIdx memory offset bytes)
  | (⟨_, .passive⟩, _) => none

/-- The active segments of a module in their order: the element segments, then the data
segments. -/
def activeSegments (m : InitModule) (evaluated : List (List Ref)) : List ActiveSegment :=
  (m.elems.zip evaluated).filterMap activeElem ++ m.datas.zipIdx.filterMap activeData

/-- What one turn of the two loops does. -/
def applySegment (m : InitModule) (spaces : Spaces) (inst : ℕ) : ActiveSegment → InitM Unit
  | .elem table offset refs => do
    let v ← inInner ((⟨m.allocModule, spaces.funcs, spaces.globals⟩ : ConstCtx).evalConst offset)
    let dst ← ofOp (constToUsize v)
    let handle ← ofOp (indexed spaces.tables table)
    applyActiveElem handle dst refs
  | .data segIdx memory offset bytes => do
    let v ← inInner ((⟨m.allocModule, [], spaces.globals⟩ : ConstCtx).evalConst offset)
    let dst ← ofOp (constToUsize v)
    let handle ← ofOp (indexed spaces.memories memory)
    let s ← get
    let mem ← ofOp (indexed s.memories handle)
    if mem.bytes.length < dst + bytes.length then
      throw (.op (.store (.trap .memoryOutOfBounds)))
    else
      set { s with
        memories := s.memories.set handle
          { mem with bytes := Ranges.overwrite mem.bytes dst bytes }
        instances := s.instances.modify inst fun i =>
          { i with droppedData := i.droppedData.set segIdx true } }

theorem activeElem_turn (m : InitModule) (spaces : Spaces) (inst : ℕ) (p : ElemSegment × List Ref) :
    activeElemTurn m spaces p =
      (activeElem p).elim (pure ⟨⟩) (applySegment m spaces inst) := by
  obtain ⟨⟨items, mode⟩, refs⟩ := p
  cases mode <;> rfl

theorem activeData_turn (m : InitModule) (spaces : Spaces) (inst : ℕ) (p : DataSegment × ℕ) :
    initDataTurn m spaces inst p =
      (activeData p).elim (pure ⟨⟩) (applySegment m spaces inst) := by
  obtain ⟨⟨bytes, mode⟩, segIdx⟩ := p
  cases mode <;> rfl

/-- The two loops are one over the active segments. -/
theorem apply_eq_each (m : InitModule) (spaces : Spaces) (evaluated : List (List Ref))
    (inst : ℕ) :
    (applyActiveElems m spaces evaluated >>= fun _ => initDatas m spaces inst) =
      each (applySegment m spaces inst) (activeSegments m evaluated) := by
  unfold applyActiveElems initDatas activeSegments
  rw [each_append]
  rw [each_filterMap (h := activeElem_turn m spaces inst),
    each_filterMap (h := activeData_turn m spaces inst)]

/-- A segment is applied: its offset has a value, its whole range is inside, and everything else
stays but for the heap the offset was evaluated in. -/
inductive Applied (m : InitModule) (spaces : Spaces) (inst : ℕ) :
    ActiveSegment → InitStore → InitStore → Prop where
  | elem {table handle dst : ℕ} {offset : ConstExpr} {refs slots : List Ref} {s : InitStore}
      {t : StoreInner} {v : Val}
      (eval : (⟨m.allocModule, spaces.funcs, spaces.globals⟩ : ConstCtx).evalConst offset
        s.toStoreInner = .ok v t)
      (heap : HeapOnly s.toStoreInner t)
      (index : constToUsize v = .ok dst)
      (named : spaces.tables[table]? = some handle)
      (there : s.tables[handle]? = some slots)
      (fits : dst + refs.length ≤ slots.length) :
      Applied m spaces inst (.elem table offset refs) s
        { s with toStoreInner := { t with
          tables := s.tables.set handle (Ranges.overwrite slots dst refs) } }
  | data {segIdx memory handle dst : ℕ} {offset : ConstExpr} {bytes : List UInt8}
      {mem : MemoryEntity} {s : InitStore} {t : StoreInner} {v : Val}
      (eval : (⟨m.allocModule, [], spaces.globals⟩ : ConstCtx).evalConst offset
        s.toStoreInner = .ok v t)
      (heap : HeapOnly s.toStoreInner t)
      (index : constToUsize v = .ok dst)
      (named : spaces.memories[memory]? = some handle)
      (there : s.memories[handle]? = some mem)
      (fits : dst + bytes.length ≤ mem.bytes.length) :
      Applied m spaces inst (.data segIdx memory offset bytes) s
        { s with
          toStoreInner := t
          memories := s.memories.set handle
            { mem with bytes := Ranges.overwrite mem.bytes dst bytes }
          instances := s.instances.modify inst fun i =>
            { i with droppedData := i.droppedData.set segIdx true } }

theorem ofOp_bind_ok {α β : Type} {x : Except OpError α} {f : α → InitM β} {b : β}
    (h : (ofOp x >>= f) s = .ok b s') : ∃ a, x = .ok a ∧ f a s = .ok b s' := by
  obtain ⟨a, ha, h⟩ := attempt_bind_ok h
  cases x with
  | error e => cases ha
  | ok a' =>
    obtain rfl := Except.ok.inj ha
    exact ⟨a', rfl, h⟩

theorem ofOp_of_ok {α β : Type} {x : Except OpError α} {a : α} (h : x = .ok a)
    (f : α → InitM β) : (ofOp x >>= f) = f a := by
  rw [h]
  rfl

theorem indexed_of_some {α : Type} {l : List α} {a : α} (h : l[i]? = some a) :
    indexed l i = .ok a := by
  rw [indexed, h]

/-- **One segment.**  A segment that is applied is applied as a whole. -/
theorem applySegment_ok {seg : ActiveSegment} :
    applySegment m spaces inst seg s = .ok ⟨⟩ s' ↔ Applied m spaces inst seg s s' := by
  constructor
  · intro h
    cases seg with
    | elem table offset refs =>
      obtain ⟨v, s₁, hv, h⟩ := bind_ok h
      obtain ⟨t, heval, rfl⟩ := inInner_ok.mp hv
      obtain ⟨dst, hdst, h⟩ := ofOp_bind_ok h
      obtain ⟨handle, hhandle, h⟩ := ofOp_bind_ok h
      obtain ⟨slots, hslots, h⟩ := ofOp_bind_ok (get_bind_ok h)
      have heap := (ConstCtx.evalConst_heapOnly _ _).ok heval
      have hslots' := ConstCtx.indexed_ok hslots
      rw [heap.tables] at hslots'
      split at h
      · cases h
      · rename_i hfit
        obtain ⟨-, rfl⟩ := EStateM.Result.ok.inj h
        have happlied : Applied m spaces inst (.elem table offset refs) s _ :=
          .elem heval heap hdst (ConstCtx.indexed_ok hhandle) hslots' (not_lt.mp hfit)
        rw [← Ranges.setFrom_eq_overwrite (not_lt.mp hfit), ← heap.tables] at happlied
        exact happlied
    | data segIdx memory offset bytes =>
      obtain ⟨v, s₁, hv, h⟩ := bind_ok h
      obtain ⟨t, heval, rfl⟩ := inInner_ok.mp hv
      obtain ⟨dst, hdst, h⟩ := ofOp_bind_ok h
      obtain ⟨handle, hhandle, h⟩ := ofOp_bind_ok h
      obtain ⟨mem, hmem, h⟩ := ofOp_bind_ok (get_bind_ok h)
      have heap := (ConstCtx.evalConst_heapOnly _ _).ok heval
      split at h
      · cases h
      · rename_i hfit
        obtain ⟨-, rfl⟩ := EStateM.Result.ok.inj h
        exact Applied.data heval heap hdst (ConstCtx.indexed_ok hhandle)
          (ConstCtx.indexed_ok hmem) (not_lt.mp hfit)
  · intro h
    cases h with
    | @elem table handle dst offset refs slots _ t v heval heap hdst hhandle hslots hfit =>
      refine (bind_of_ok (inInner_ok.mpr ⟨t, heval, rfl⟩) _).trans ?_
      rw [ofOp_of_ok hdst, ofOp_of_ok (indexed_of_some hhandle)]
      show (ofOp (indexed t.tables handle) >>= _) _ = _
      rw [heap.tables, ofOp_of_ok (indexed_of_some hslots), if_neg (not_lt.mpr hfit),
        Ranges.setFrom_eq_overwrite hfit]
      show EStateM.Result.ok _ _ = _
      rw [← heap.tables]
    | @data segIdx memory handle dst offset bytes mem _ t v heval heap hdst hhandle hmem hfit =>
      refine (bind_of_ok (inInner_ok.mpr ⟨t, heval, rfl⟩) _).trans ?_
      rw [ofOp_of_ok hdst, ofOp_of_ok (indexed_of_some hhandle)]
      show (ofOp (indexed s.memories handle) >>= _) _ = _
      rw [ofOp_of_ok (indexed_of_some hmem), if_neg (not_lt.mpr hfit)]
      rfl

theorem atomic_ofOp_bind {α β : Type} {x : Except OpError α} {f : α → InitM β}
    (hf : ∀ a, Atomic (f a)) : Atomic (ofOp x >>= f) := Atomic.attempt_bind hf

theorem applyActiveElem_atomic (handle dst : ℕ) (refs : List Ref) :
    Atomic (applyActiveElem handle dst refs) := by
  refine Atomic.get_bind fun s => ?_
  refine atomic_ofOp_bind fun slots => ?_
  split
  · exact Atomic.throw _
  · exact Atomic.set _

/-- A segment that is refused has changed the heap at most. -/
theorem applySegment_error {seg : ActiveSegment} {e : InitError}
    (h : applySegment m spaces inst seg s = .error e s') : HeapChange s s' := by
  have hafter : ∀ {ctx : ConstCtx} {offset : ConstExpr} {k : Val → InitM Unit},
      (∀ v, Atomic (k v)) → (inInner (ctx.evalConst offset) >>= k) s = .error e s' →
      HeapChange s s' := by
    intro ctx offset k hk h
    have hchange := inInner_heapChange (ctx.evalConst_heapOnly offset)
    rcases bind_error h with h | ⟨v, s₁, hv, h⟩
    · exact hchange.error h
    · rw [hk v h]
      exact hchange.ok hv
  cases seg with
  | elem table offset refs =>
    refine hafter (fun v => ?_) h
    refine atomic_ofOp_bind fun dst => ?_
    refine atomic_ofOp_bind fun handle => ?_
    exact applyActiveElem_atomic handle dst refs
  | data segIdx memory offset bytes =>
    refine hafter (fun v => ?_) h
    refine atomic_ofOp_bind fun dst => ?_
    refine atomic_ofOp_bind fun handle => ?_
    refine Atomic.get_bind fun s => ?_
    refine atomic_ofOp_bind fun mem => ?_
    split
    · exact Atomic.throw _
    · exact Atomic.set _

/-! ## What the segments leave -/

/-- The data segments among some active segments, by their number. -/
def appliedData (done : List ActiveSegment) : List ℕ :=
  done.filterMap fun | .data segIdx .. => some segIdx | .elem .. => none

/-- Which data segments are dropped when some active segments have been applied. -/
def droppedAfter (m : InitModule) (done : List ActiveSegment) : List Bool :=
  (List.range m.datas.length).map fun i => decide (i ∈ appliedData done)

theorem droppedAfter_nil (m : InitModule) : droppedAfter m [] = m.datas.map fun _ => false := by
  apply List.ext_getElem?
  intro i
  rw [droppedAfter, List.getElem?_map, List.getElem?_map]
  by_cases hi : i < m.datas.length
  · rw [List.getElem?_range hi, List.getElem?_eq_getElem hi]
    rfl
  · rw [List.getElem?_eq_none (by rw [List.length_range]; omega),
      List.getElem?_eq_none (by omega)]
    rfl

theorem droppedAfter_elem (m : InitModule) (done : List ActiveSegment) (table : ℕ)
    (offset : ConstExpr) (refs : List Ref) :
    droppedAfter m (done ++ [.elem table offset refs]) = droppedAfter m done := by
  have hsame : appliedData (done ++ [.elem table offset refs]) = appliedData done := by
    rw [appliedData, List.filterMap_append]
    exact List.append_nil _
  rw [droppedAfter, droppedAfter, hsame]

theorem droppedAfter_data (m : InitModule) (done : List ActiveSegment) (segIdx memory : ℕ)
    (offset : ConstExpr) (bytes : List UInt8) :
    droppedAfter m (done ++ [.data segIdx memory offset bytes]) =
      (droppedAfter m done).set segIdx true := by
  have hmem : ∀ i, i ∈ appliedData (done ++ [.data segIdx memory offset bytes]) ↔
      i ∈ appliedData done ∨ i = segIdx := by
    intro i
    rw [appliedData, List.filterMap_append, List.mem_append]
    exact or_congr_right List.mem_singleton
  apply List.ext_getElem?
  intro i
  rw [List.getElem?_set, droppedAfter, droppedAfter, List.length_map, List.length_range,
    List.getElem?_map, List.getElem?_map]
  by_cases hi : i < m.datas.length
  · rw [List.getElem?_range hi, Option.map_some, Option.map_some]
    by_cases hseg : segIdx = i
    · rw [if_pos hseg, if_pos (by omega), decide_eq_true ((hmem i).mpr (Or.inr hseg.symm))]
    · rw [if_neg hseg]
      refine congrArg some (decide_eq_decide.mpr ?_)
      rw [hmem i]
      exact or_iff_left (Ne.symm hseg)
  · rw [List.getElem?_eq_none (by rw [List.length_range]; omega), Option.map_none]
    by_cases hseg : segIdx = i
    · rw [if_pos hseg, if_neg (by omega)]
    · rw [if_neg hseg, Option.map_none]

theorem modify_concat_length {α : Type} (l : List α) (a : α) (f : α → α) :
    (l ++ [a]).modify l.length f = l ++ [f a] := by
  induction l with
  | nil => rfl
  | cons b l ih =>
    rw [List.cons_append, List.length_cons, List.modify_succ_cons, ih, List.cons_append]

/-- A slot of a table. -/
def InitStore.slot (s : InitStore) (t i : ℕ) : Option Ref := s.tables[t]?.bind (·[i]?)

/-- The store when some active segments have been applied, seen from the store `s₁` in which the
instance was created with the number `s.instances.length`. -/
structure SegmentsDone (m : InitModule) (s : InitStore) (spaces : Spaces)
    (evaluated : List (List Ref)) (s₁ : InitStore) (done : List ActiveSegment)
    (s₂ : InitStore) : Prop where
  instances : s₂.instances =
    s.instances ++ [{ freshInstance m spaces with droppedData := droppedAfter m done }]
  elems : s₂.elems = s.elems ++ [passiveElemInstances m evaluated]
  globals : s₂.globals = s₁.globals
  funcs : s₂.funcs = s₁.funcs
  slots : ∀ t i r, s₂.slot t i = some r → s₁.slot t i = some r ∨
    ∃ table offset refs, .elem table offset refs ∈ done ∧ r ∈ refs

theorem SegmentsDone.step {m : InitModule} {s s₁ s₂ s₃ : InitStore} {spaces : Spaces}
    {evaluated : List (List Ref)} {done : List ActiveSegment} {seg : ActiveSegment}
    (h : SegmentsDone m s spaces evaluated s₁ done s₂)
    (happlied : Applied m spaces s.instances.length seg s₂ s₃) :
    SegmentsDone m s spaces evaluated s₁ (done ++ [seg]) s₃ := by
  have hold : ∀ t i r, s₂.slot t i = some r → s₁.slot t i = some r ∨
      ∃ table offset refs, .elem table offset refs ∈ done ++ [seg] ∧ r ∈ refs := by
    intro t i r hr
    rcases h.slots t i r hr with h | ⟨table, offset, refs, hmem, hr⟩
    · exact Or.inl h
    · exact Or.inr ⟨table, offset, refs, List.mem_append_left _ hmem, hr⟩
  cases happlied with
  | @elem table handle dst offset refs slots _ t v heval heap hdst hhandle hslots hfit =>
    refine ⟨?_, heap.elems.trans h.elems, heap.globals.trans h.globals, h.funcs, ?_⟩
    · rw [droppedAfter_elem]
      exact h.instances
    · intro t' i r hr
      change ((s₂.tables.set handle (Ranges.overwrite slots dst refs))[t']?.bind (·[i]?)) = some r
        at hr
      -- Only slots of the range of the segment have changed.
      by_cases ht : t' = handle
      · subst ht
        rw [List.getElem?_set_self (List.getElem?_eq_some_iff.mp hslots).1, Option.bind_some,
          Ranges.overwrite_getElem? hfit] at hr
        split at hr
        · exact Or.inr ⟨table, offset, refs, List.mem_append_right _ (List.mem_singleton_self _),
            List.mem_of_getElem? hr⟩
        · refine hold t' i r ?_
          rw [InitStore.slot, hslots]
          exact hr
      · rw [List.getElem?_set_ne (Ne.symm ht)] at hr
        exact hold t' i r hr
  | @data segIdx memory handle dst offset bytes mem _ t v heval heap hdst hhandle hmem hfit =>
    refine ⟨?_, heap.elems.trans h.elems, heap.globals.trans h.globals, h.funcs, ?_⟩
    · show s₂.instances.modify _ _ = _
      rw [h.instances, modify_concat_length, droppedAfter_data]
    · intro t' i r hr
      refine hold t' i r ?_
      rw [InitStore.slot, ← heap.tables]
      exact hr

/-! ## The instantiation -/

/-- A slot of an old table that holds a function it did not hold before. -/
structure NewlyHeld (s s' : InitStore) (t i f : ℕ) : Prop where
  old : t < s.tables.length
  holds : s'.slot t i = some (.func (some f))
  heldNot : s.slot t i ≠ some (.func (some f))

/-- The store in which the instance was created: what was there is as it was, the instance is
there with nothing dropped but the element segments that are not passive, and its functions
resolve. -/
structure Created (m : InitModule) (s : InitStore) (spaces : Spaces)
    (evaluated : List (List Ref)) (s₁ : InitStore) : Prop where
  tables : s.tables <+: s₁.tables
  memories : s.memories <+: s₁.memories
  globals : s.globals <+: s₁.globals
  done : SegmentsDone m s spaces evaluated s₁ [] s₁
  funcs_resolve : ∀ f ∈ spaces.funcs, s₁.Resolves f
  globals_resolve : GlobalsHold s₁ spaces.globals s₁.Resolves
  refs_resolve : ∀ refs ∈ evaluated, ∀ f, .func (some f) ∈ refs → s₁.Resolves f
  dropped : ∀ (i : ℕ) (seg : ElemSegment), m.elems[i]? = some seg → seg.mode ≠ .passive →
    (passiveElemInstances m evaluated)[i]? = some []

theorem Planned.created (h : Planned m s f) (hfuncs : s'.funcs = s.funcs)
    (hinst : s'.instances = s.instances ++ [freshInstance m spaces]) : s'.Resolves f := by
  rcases h with h | ⟨k, hk, h⟩
  · refine h.extends ⟨hfuncs ▸ List.prefix_refl _, fun k i hi => ⟨i, ?_, rfl⟩⟩
    exact prefix_getElem? (hinst ▸ List.prefix_append _ _) hi
  · refine .wasm (hfuncs ▸ h) (i := freshInstance m spaces) ?_ hk
    rw [hinst, List.getElem?_concat_length]

theorem passiveElemInstances_dropped (hlen : evaluated.length = m.elems.length) {seg : ElemSegment}
    (hseg : m.elems[i]? = some seg) (hmode : seg.mode ≠ .passive) :
    (passiveElemInstances m evaluated)[i]? = some [] := by
  have hi : i < evaluated.length := by
    rw [hlen]
    exact (List.getElem?_eq_some_iff.mp hseg).1
  have hzip : (m.elems.zip evaluated)[i]? = some (seg, evaluated[i]) :=
    List.getElem?_zip_eq_some.mpr ⟨hseg, List.getElem?_eq_getElem hi⟩
  rw [passiveElemInstances, List.getElem?_map, hzip, Option.map_some]
  cases hm : seg.mode with
  | passive => exact absurd hm hmode
  | active table offset => simp only [hm]
  | declared => simp only [hm]

theorem allocInstance_created {s₁ s₂ : InitStore} (hprep : Prepared m s spaces evaluated s₁)
    (h : allocInstance m spaces evaluated s₁ = .ok inst s₂) :
    inst = s.instances.length ∧ Created m s spaces evaluated s₂ := by
  obtain ⟨rfl, rfl⟩ := EStateM.Result.ok.inj h
  have hgrown := hprep.grown
  have hresolves : ∀ {f}, Planned m s₁ f → InitStore.Resolves { s₁ with
      instances := s₁.instances ++ [freshInstance m spaces]
      elems := s₁.elems ++ [passiveElemInstances m evaluated] } f :=
    fun hf => hf.created rfl rfl
  refine ⟨by rw [hgrown.instances], hgrown.tables, hgrown.memories, hgrown.globals, ?_,
    fun f hf => hresolves (hprep.ctx.funcs f hf), fun g hg f hf => ?_,
    fun refs hrefs f hf => hresolves (hprep.refs refs hrefs f hf),
    fun i seg => passiveElemInstances_dropped hprep.length⟩
  · refine ⟨?_, ?_, rfl, rfl, fun t i r hr => Or.inl hr⟩
    · rw [droppedAfter_nil, hgrown.instances]
      rfl
    · rw [hgrown.elems]
  · exact hresolves (hprep.ctx.globals g hg f hf)

/-- A function a segment has written resolves, and goes on to. -/
theorem Created.newlyHeld {s₁ s₂ : InitStore} {done rest : List ActiveSegment}
    (h : Created m s spaces evaluated s₁) (hdone : SegmentsDone m s spaces evaluated s₁ done s₂)
    (hsplit : activeSegments m evaluated = done ++ rest) {t : ℕ} (hnew : NewlyHeld s s₂ t i f) :
    s₂.Resolves f := by
  have hext : StoreExtends s₁ s₂ := by
    refine ⟨hdone.funcs ▸ List.prefix_refl _, fun k j hj => ?_⟩
    rw [h.done.instances] at hj
    rw [hdone.instances]
    by_cases hk : k < s.instances.length
    · rw [List.getElem?_append_left hk] at hj ⊢
      exact ⟨j, hj, rfl⟩
    · rw [List.getElem?_append_right (by omega)] at hj ⊢
      have hzero : k - s.instances.length = 0 := by
        have := (List.getElem?_eq_some_iff.mp hj).1
        rw [List.length_singleton] at this
        omega
      rw [hzero] at hj ⊢
      obtain rfl := Option.some.inj hj
      exact ⟨_, rfl, rfl⟩
  rcases hdone.slots t i _ hnew.holds with hold | ⟨table, offset, refs, hmem, hf⟩
  · refine absurd ?_ hnew.heldNot
    obtain ⟨tail, htail⟩ := h.tables
    rw [InitStore.slot, ← htail, List.getElem?_append_left hnew.old] at hold
    exact hold
  · have hall : .elem table offset refs ∈ activeSegments m evaluated :=
      hsplit ▸ List.mem_append_left _ hmem
    rcases List.mem_append.mp hall with hall | hall
    · obtain ⟨⟨⟨items, mode⟩, refs'⟩, hpair, hactive⟩ := List.mem_filterMap.mp hall
      cases mode with
      | passive => cases hactive
      | declared => cases hactive
      | active table' offset' =>
        cases hactive
        exact (h.refs_resolve refs (List.of_mem_zip hpair).2 f hf).extends hext
    · obtain ⟨⟨⟨bytes, mode⟩, segIdx⟩, -, hactive⟩ := List.mem_filterMap.mp hall
      cases mode <;> cases hactive

section

/-- A check leaves the store as it is. -/
def Checks {α : Type} (x : InitM α) : Prop := Preserves (fun s s' => s' = s) x

theorem Checks.bind {α β : Type} {x : InitM α} {f : α → InitM β} (hx : Checks x)
    (hf : ∀ a, Checks (f a)) : Checks (x >>= f) :=
  Preserves.bind (fun _ _ _ h h' => h'.trans h) hx hf

theorem requireInit_checks (b : Bool) (text : String) : Checks (requireInit b text) := by
  cases b <;> exact fun _ => rfl

theorem checkInitialSizes_checks (env : InitEnv) (m : InitModule) :
    Checks (env.checkInitialSizes m) := by
  have hsizes : ∀ {α : Type} (text : String)
      (r : Except StoreError (Option (List (α × Authority)))), Checks (checkSizes text r) := by
    intro α text r
    rcases r with e | _ | l <;> exact fun _ => rfl
  exact (hsizes _ _).bind fun _ => hsizes _ _

theorem checkLimits_checks (env : InitEnv) (m : InitModule) : Checks (env.checkLimits m) := by
  refine Checks.bind (fun _ => rfl) fun s => ?_
  refine (requireInit_checks _ _).bind fun _ => ?_
  exact (requireInit_checks _ _).bind fun _ => requireInit_checks _ _

end

/-- An instantiation fails before its instance is there, or it goes on from the store the instance
was created in with the active segments and the start function. -/
theorem instanceNew_cases (env : InitEnv) (m : InitModule) (imports : List Extern)
    (s : InitStore) (hlive : ImportsResolve s imports) :
    (∃ e s', instanceNew env m imports s = .error e s' ∧ StoreGrown s s') ∨
      ∃ spaces evaluated s₁, Created m s spaces evaluated s₁ ∧
        instanceNew env m imports s =
          (each (applySegment m spaces s.instances.length) (activeSegments m evaluated) >>= fun _ =>
            runStart env m spaces >>= fun _ => pure s.instances.length) s₁ := by
  rcases hsizes : env.checkInitialSizes m s with ⟨u, s'⟩ | ⟨e, s'⟩
  case error =>
    have hsame : s' = s := (checkInitialSizes_checks env m).error hsizes
    exact Or.inl ⟨e, s', bind_of_error hsizes _, hsame ▸ .refl s⟩
  obtain rfl : s' = s := (checkInitialSizes_checks env m).ok hsizes
  rcases hlimits : env.checkLimits m s' with ⟨u, s₀⟩ | ⟨e, s₀⟩
  case error =>
    have hsame : s₀ = s' := (checkLimits_checks env m).error hlimits
    refine Or.inl ⟨e, s₀, (bind_of_ok hsizes _).trans (bind_of_error hlimits _), ?_⟩
    exact hsame ▸ .refl s'
  obtain rfl : s₀ = s' := (checkLimits_checks env m).ok hlimits
  have hrun : instanceNew env m imports s₀ = (instantiate env m imports >>= fun p =>
      runStart env m p.2 >>= fun _ => pure p.1) s₀ :=
    (bind_of_ok hsizes _).trans (bind_of_ok hlimits _)
  rcases hprep : prepare env m imports s₀ with ⟨⟨spaces, evaluated⟩, s'⟩ | ⟨e, s'⟩
  case error =>
    have hfail : instantiate env m imports s₀ = .error e s' := bind_of_error hprep _
    exact Or.inl ⟨e, s', hrun.trans (bind_of_error hfail _),
      (prepare_grown env m imports).error hprep⟩
  rcases halloc : allocInstance m spaces evaluated s' with ⟨inst, s₁⟩ | ⟨e, s₁⟩
  case error => cases halloc
  obtain ⟨rfl, hcreated⟩ := allocInstance_created (prepare_ok hlive hprep) halloc
  refine Or.inr ⟨spaces, evaluated, s₁, hcreated, hrun.trans ?_⟩
  have hinst : instantiate env m imports s₀ =
      (applyActiveElems m spaces evaluated >>= fun _ =>
        initDatas m spaces s₀.instances.length >>= fun _ =>
          pure (s₀.instances.length, spaces)) s₁ :=
    (bind_of_ok hprep _).trans (bind_of_ok halloc _)
  rw [← apply_eq_each, bind_run, hinst, ← bind_run]
  simp only [bind_assoc, pure_bind]

/-- **What an instantiation leaves.**  Before its instance is created it has only appended to the
store.  After that the active segments in front of some place have been applied, in order and as
wholes, and are marked dropped; the one at that place is refused and changes the heap at most, or
there is none and the start function is what remains.  A function that came into an old table
resolves in every later store. -/
theorem instantiation_effects (env : InitEnv) (m : InitModule) (imports : List Extern)
    (s : InitStore) (hlive : ImportsResolve s imports) :
    (∃ e s', instanceNew env m imports s = .error e s' ∧ StoreGrown s s') ∨
      ∃ spaces evaluated s₁ done rest s₂, Created m s spaces evaluated s₁ ∧
        activeSegments m evaluated = done ++ rest ∧
        Steps (Applied m spaces s.instances.length) done s₁ s₂ ∧
        SegmentsDone m s spaces evaluated s₁ done s₂ ∧
        (∀ t i f s', NewlyHeld s s₂ t i f → StoreExtends s₂ s' → s'.Resolves f) ∧
        ((rest = [] ∧ instanceNew env m imports s =
            (runStart env m spaces >>= fun _ => pure s.instances.length) s₂) ∨
          ∃ seg later e s₃, rest = seg :: later ∧
            (¬ ∃ s', Applied m spaces s.instances.length seg s₂ s') ∧
            instanceNew env m imports s = .error e s₃ ∧ HeapChange s₂ s₃) := by
  rcases instanceNew_cases env m imports s hlive with hfail |
    ⟨spaces, evaluated, s₁, hcreated, hrun⟩
  · exact Or.inl hfail
  refine Or.inr ⟨spaces, evaluated, s₁, ?_⟩
  have hdone : ∀ {done s₂},
      each (applySegment m spaces s.instances.length) done s₁ = .ok ⟨⟩ s₂ →
      Steps (Applied m spaces s.instances.length) done s₁ s₂ ∧
        SegmentsDone m s spaces evaluated s₁ done s₂ := by
    intro done s₂ h
    have hsteps := each_steps applySegment_ok.mp h
    exact ⟨hsteps, hsteps.carry (fun h happlied => h.step happlied) hcreated.done⟩
  rcases each_cases (applySegment m spaces s.instances.length) (activeSegments m evaluated) s₁ with
    ⟨s₂, hall⟩ | ⟨done, seg, later, s₂, e, s₃, hsplit, hfront, hseg, hall⟩
  · obtain ⟨hsteps, hsegs⟩ := hdone hall
    refine ⟨activeSegments m evaluated, [], s₂, hcreated, (List.append_nil _).symm, hsteps, hsegs,
      fun t i f s' hnew hext => ?_, Or.inl ⟨rfl, hrun.trans (bind_of_ok hall _)⟩⟩
    exact (hcreated.newlyHeld hsegs (List.append_nil _).symm hnew).extends hext
  · obtain ⟨hsteps, hsegs⟩ := hdone hfront
    refine ⟨done, seg :: later, s₂, hcreated, hsplit, hsteps, hsegs,
      fun t i f s' hnew hext => (hcreated.newlyHeld hsegs hsplit hnew).extends hext,
      Or.inr ⟨seg, later, e, s₃, rfl, ?_, hrun.trans (bind_of_error hall _),
        applySegment_error hseg⟩⟩
    rintro ⟨s', happlied⟩
    rw [applySegment_ok.mpr happlied] at hseg
    cases hseg

/-- A store with a table of two slots and a global that holds a host function. -/
def hostedStore : InitStore where
  toStoreInner := { StoreInner.new .empty false 0 with
    globals := [.funcRef (some 0)]
    tables := [[.func none, .func none]] }
  instances := []
  funcs := [.host 0]
  memories := []
  globalTypes := [⟨.ref true .func, .const⟩]
  tableTypes := [(⟨true, .func⟩, ⟨2, none, false⟩)]
  tags := []

/-- Two element segments with the function of an imported global: one fits, one does not. -/
def twoSegments : InitModule where
  typeIds := []
  funcTypes := []
  imports := [.table ⟨true, .func, 0, none, false, fun _ => by decide, fun _ _ h => nomatch h⟩,
    .global ⟨.ref true .func, false⟩]
  types := []
  memories := []
  tags := []
  tables := []
  globals := []
  elems := [⟨.exprs [[.globalGet 0]], .active 0 [.i32 1]⟩,
    ⟨.exprs [[.globalGet 0]], .active 0 [.i32 2]⟩]
  datas := []
  start := none

def quietEnv : InitEnv where
  isAsync := false
  answers := fun _ => .none
  caps := ⟨none, none, none⟩
  memoryAllocator := fun _ => true
  tableAllocator := fun _ => true
  call := fun _ => pure ()

theorem twoSegments_refused :
    ∃ spaces evaluated s₁ done seg later s₂ e s₃,
      Created twoSegments hostedStore spaces evaluated s₁ ∧
      activeSegments twoSegments evaluated = done ++ seg :: later ∧
      Steps (Applied twoSegments spaces 0) done s₁ s₂ ∧
      instanceNew quietEnv twoSegments [.table 0, .global 0] hostedStore = .error e s₃ ∧
      HeapChange s₂ s₃ := by
  have hlive : ImportsResolve hostedStore [.table 0, .global 0] := by
    intro g hg f hf
    obtain rfl : g = 0 := by simpa using hg
    obtain rfl : 0 = f := Option.some.inj (Val.funcRef.inj (Option.some.inj hf))
    exact .host (show hostedStore.funcs[0]? = some (.host 0) from rfl)
  have hinst : (after (instanceNew quietEnv twoSegments [.table 0, .global 0]
      hostedStore)).instances.length = 1 := rfl
  rcases instantiation_effects quietEnv twoSegments [.table 0, .global 0] hostedStore hlive with
    ⟨e, s', hrun, hgrown⟩ |
    ⟨spaces, evaluated, s₁, done, rest, s₂, hcreated, hsplit, hsteps, -, -,
      ⟨-, hrun⟩ | ⟨seg, later, e, s₃, rfl, -, hrun, hchange⟩⟩
  · rw [hrun] at hinst
    change s'.instances.length = 1 at hinst
    rw [hgrown.instances] at hinst
    cases hinst
  · cases hrun
  · exact ⟨spaces, evaluated, s₁, done, seg, later, s₂, e, s₃, hcreated, hsplit, hsteps, hrun,
      hchange⟩

end SubmilliWasm
