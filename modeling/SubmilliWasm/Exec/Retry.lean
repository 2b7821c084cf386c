/-
# Retrying an allocating op

An allocating op whose reservation has to grow suspends before it has popped an operand, and is
executed again once the growth is granted (`gc_reserve` of `src/exec/collect.rs`, the allocating arm
of `src/exec/step.rs`, `throw` of `src/exec/exn.rs`).  The suspension leaves the stacks and all that
they reach as they were, and the second attempt comes to what the first would have come to under a
reservation that sufficed, but for the place of the entry: the collection in between may have
vacated a slot.
-/
import SubmilliWasm.Exec.Allocating
import SubmilliWasm.Exec.Paths

namespace SubmilliWasm

/-! ## What an op yields -/

/-- What an op comes to, wherever its entry is placed. -/
inductive Yield where
  | object (exec : Execution) (o : GcObject)
  | exn (exec : Execution) (entity : ExnEntity)
  | fails (err : OpError)

/-- An entry has been placed in an empty slot and nothing else has changed. -/
structure Placed (s s' : StoreInner) (n : Reached) (entry : Contents) : Prop where
  vacant : s.contents n = none
  here : s'.contents n = some entry
  elsewhere : ∀ m, m ≠ n → s'.contents m = s.contents m
  roots : s'.engine = s.engine ∧ s'.globals = s.globals ∧ s'.tables = s.tables ∧
    s'.elems = s.elems ∧ s'.pendingException = s.pendingException ∧ s'.gcRoots = s.gcRoots

namespace AllocState

variable (env : AllocEnv) (inst next : ℕ)

/-- What an op with room for its charge comes to, read off the state it runs in. -/
def yield (g : AllocState) : AllocInstr → Yield
  | .throw tag =>
    match env.tag inst tag with
    | .error err => .fails err
    | .ok (handle, params) =>
      match g.exec.popParams params with
      | .error err => .fails err
      | .ok (args, e) => .exn e ⟨handle, args⟩
  | instr =>
    match g.popOperands env inst instr with
    | .error err => .fails err
    | .ok (op, e) =>
      match g.store.inner.buildObject op with
      | .error err => .fails (.store err)
      | .ok o =>
        if g.store.inner.HandleLeft then .object e o
        else .fails (.store (.trap .allocationTooLarge))

/-- An op run in `g` has come to a yield: the stacks, the store and the outcome are what it
says, at some index. -/
def Yields (g : AllocState) (p : AllocState × Except OpError StepOutcome) : Yield → Prop
  | .object e o => ∃ i, Placed g.store.inner p.1.store.inner (.gc i) (.object o) ∧
      p.1.exec = e.push (.ofVal (.anyRef (some i))) ∧ p.1.memories = g.memories ∧
      p.1.droppedData = g.droppedData ∧ p.2 = .ok (.advance next)
  | .exn e entity => ∃ i, Placed g.store.inner p.1.store.inner (.exn i) (.exn entity) ∧
      p.1.exec = e ∧ p.1.memories = g.memories ∧ p.1.droppedData = g.droppedData ∧
      p.2 = .error (.exec (.pending i))
  | .fails err => p = (g, .error err)

/-- The state with another reservation. -/
def withReserved (g : AllocState) (reserved : ℕ) : AllocState :=
  { g with store := { g.store with
      inner := { g.store.inner with gc := { g.store.inner.gc with reserved } } } }

/-- The suspension of an op in `g` as `g'` is harmless.  What the stacks reach and all but the
budget is as before; and once the growth is granted, the op comes to what it comes to in `g` under
a reservation that has room for its charge, unless there it found no handle. -/
structure RetrySafe (g : AllocState) (instr : AllocInstr) (g' : AllocState)
    (target bytesNeeded ip : ℕ) : Prop where
  exec : g'.exec = g.exec
  memories : g'.memories = g.memories
  droppedData : g'.droppedData = g.droppedData
  store : Settled g.store.inner g.exec.operandRoots g'.store.inner
  ip : ip = next - 1
  again : ∀ (limiter : Store.Limiter) (granted : Store) (enough charge : ℕ),
    g'.store.growGcReservation target bytesNeeded limiter = (granted, .ok ()) →
    g.gcAllocCharge env inst instr = .ok charge →
    (g.withReserved enough).store.inner.gc.fits charge = true →
    ∃ y y', Yields next { g' with store := granted }
        (AllocState.step env inst { g' with store := granted } next instr) y ∧
      Yields next (g.withReserved enough) ((g.withReserved enough).step env inst next instr) y' ∧
      (y = y' ∨ ¬ g.store.inner.HandleLeft ∧
        y' = .fails (.store (.trap .allocationTooLarge)))

end AllocState

/-! ## Placing an entry -/

theorem placed_gc {s s' : StoreInner} {o : GcObject} {i : ℕ} (h : s.allocGc o = .ok (i, s')) :
    Placed s s' (.gc i) (.object o) := by
  unfold StoreInner.allocGc at h
  cases ha : s.gc.alloc o with
  | error e => simp [ha, Except.map] at h
  | ok p =>
    obtain ⟨index, gc⟩ := p
    obtain ⟨rfl, rfl⟩ := GcHeap.alloc_ok ha
    rw [ha] at h
    obtain ⟨rfl, rfl⟩ := Prod.mk.inj (Except.ok.inj h)
    have hget := s.gc.arena.alloc_get o
    refine ⟨?_, ?_, fun m hm => ?_, rfl, rfl, rfl, rfl, rfl, rfl⟩
    · exact congrArg (Option.map Contents.object) (s.gc.arena.alloc_fresh o)
    · exact congrArg (Option.map Contents.object) ((hget _).trans (if_pos rfl))
    · cases m with
      | gc j =>
        have hj : j ≠ (s.gc.arena.alloc o).1 := fun h => hm (congrArg Reached.gc h)
        exact congrArg (Option.map Contents.object) ((hget j).trans (if_neg hj))
      | _ => rfl

theorem placed_exn {s s' : StoreInner} {entity : ExnEntity} {i : ℕ}
    (h : s.allocExn entity = .ok (i, s')) : Placed s s' (.exn i) (.exn entity) := by
  unfold StoreInner.allocExn at h
  split at h
  · obtain ⟨rfl, rfl⟩ := Prod.mk.inj (Except.ok.inj h)
    have hget := s.exns.alloc_get entity
    refine ⟨?_, ?_, fun m hm => ?_, rfl, rfl, rfl, rfl, rfl, rfl⟩
    · exact congrArg (Option.map Contents.exn) (s.exns.alloc_fresh entity)
    · exact congrArg (Option.map Contents.exn) ((hget _).trans (if_pos rfl))
    · cases m with
      | exn j =>
        have hj : j ≠ (s.exns.alloc entity).1 := fun h => hm (congrArg Reached.exn h)
        exact congrArg (Option.map Contents.exn) ((hget j).trans (if_neg hj))
      | _ => rfl
  · nomatch h

theorem allocGc_of_not_handleLeft {s : StoreInner} (h : ¬ s.HandleLeft) (o : GcObject) :
    s.allocGc o = .error (.trap .allocationTooLarge) := by
  unfold StoreInner.HandleLeft at h
  unfold StoreInner.allocGc GcHeap.alloc
  rw [if_pos]
  · rfl
  · constructor
    · exact Classical.not_not.mp fun hfree => h (.inl hfree)
    · exact Nat.le_of_not_lt fun hlt => h (.inr hlt)

/-! ## An op comes to its yield -/

namespace AllocState

variable {env : AllocEnv} {inst next : ℕ} {g : AllocState} {instr : AllocInstr} {charge : ℕ}

theorem yield_of_ne_throw (h : ∀ tag, instr ≠ .throw tag) :
    g.yield env inst instr =
      match g.popOperands env inst instr with
      | .error err => .fails err
      | .ok (op, e) =>
        match g.store.inner.buildObject op with
        | .error err => .fails (.store err)
        | .ok o =>
          if g.store.inner.HandleLeft then .object e o
          else .fails (.store (.trap .allocationTooLarge)) := by
  cases instr with
  | throw tag => exact absurd rfl (h tag)
  | _ => rfl

theorem execGc_yields (hne : ∀ tag, instr ≠ .throw tag) :
    Yields next g (g.execGc env inst next instr) (g.yield env inst instr) := by
  rw [yield_of_ne_throw hne]
  unfold execGc
  cases hop : g.popOperands env inst instr with
  | error err => exact rfl
  | ok p =>
    obtain ⟨op, e⟩ := p
    dsimp only
    cases hb : g.store.inner.buildObject op with
    | error err => exact rfl
    | ok o =>
      dsimp only
      rw [show (Except.ok o >>= g.store.inner.allocGc) = g.store.inner.allocGc o from rfl]
      by_cases hleft : g.store.inner.HandleLeft
      · obtain ⟨i, inner, halloc⟩ := Store.allocGc_of_handleLeft hleft o
        rw [if_pos hleft, halloc]
        exact ⟨i, placed_gc halloc, rfl, rfl, rfl, rfl⟩
      · rw [if_neg hleft, allocGc_of_not_handleLeft hleft]
        exact rfl

theorem throwExn_yields {tag : ℕ} (hf : g.store.inner.gc.fits charge = true)
    (hcharge : ∀ handle params, env.tag inst tag = .ok (handle, params) →
      exnCharge params.length = charge) :
    Yields next g (g.throwExn env inst tag) (g.yield env inst (.throw tag)) := by
  unfold throwExn yield
  dsimp only
  cases htag : env.tag inst tag with
  | error err => exact rfl
  | ok p =>
    obtain ⟨handle, params⟩ := p
    dsimp only
    cases hpop : g.exec.popParams params with
    | error err => exact rfl
    | ok q =>
      obtain ⟨args, e⟩ := q
      have hsize : (ExnEntity.mk handle args).byteSize = charge :=
        (congrArg exnCharge (Execution.popParams_length hpop)).trans (hcharge handle params htag)
      obtain ⟨i, inner, halloc⟩ : ∃ i inner,
          g.store.inner.allocExn ⟨handle, args⟩ = .ok (i, inner) :=
        ⟨_, _, if_pos (Store.canFitLimit_of_fits hf hsize.le)⟩
      dsimp only
      rw [halloc]
      exact ⟨i, placed_exn halloc, rfl, rfl, rfl, rfl⟩

/-- With room for its charge an op reserves nothing and comes to its yield. -/
theorem step_yields (hc : g.gcAllocCharge env inst instr = .ok charge)
    (hf : g.store.inner.gc.fits charge = true) :
    Yields next g (g.step env inst next instr) (g.yield env inst instr) := by
  have hr : g.gcReserve charge = (g, .ok none) := by
    unfold gcReserve
    rw [(Store.gcReserve_fits hf).1]
  unfold step
  rw [hc]
  dsimp only
  rw [hr]
  by_cases hthrow : ∃ tag, instr = .throw tag
  · obtain ⟨tag, rfl⟩ := hthrow
    exact throwExn_yields hf fun handle params htag => gcAllocCharge_throw hc htag
  · have hne : ∀ tag, instr ≠ .throw tag := fun tag h => hthrow ⟨tag, h⟩
    show Yields next g (g.place env inst next instr) _
    rw [place_of_ne_throw hne]
    exact execGc_yields hne

/-! ## Two attempts -/

variable {g₁ g₂ : AllocState}

/-- What an op reads of a state besides its store's budget and entries. -/
structure SameOperands (g₁ g₂ : AllocState) : Prop where
  exec : g₁.exec = g₂.exec
  droppedData : g₁.droppedData = g₂.droppedData
  elems : g₁.store.inner.elems = g₂.store.inner.elems

theorem SameOperands.gcAllocCharge (h : SameOperands g₁ g₂) :
    g₁.gcAllocCharge env inst instr = g₂.gcAllocCharge env inst instr := by
  have hpeek : g₁.peekCount = g₂.peekCount := by
    unfold peekCount
    rw [h.exec]
  cases instr with
  | arrayNewData ty data =>
    simp only [AllocState.gcAllocCharge, dataSegment, hpeek, h.droppedData]
  | arrayNewElem ty elem => simp only [AllocState.gcAllocCharge, elemSegment, hpeek, h.elems]
  | _ => simp only [AllocState.gcAllocCharge, hpeek]

theorem SameOperands.popOperands (h : SameOperands g₁ g₂) :
    g₁.popOperands env inst instr = g₂.popOperands env inst instr := by
  cases instr with
  | arrayNewData ty data =>
    simp only [AllocState.popOperands, dataSegment, h.exec, h.droppedData]
  | arrayNewElem ty elem => simp only [AllocState.popOperands, elemSegment, h.exec, h.elems]
  | _ => simp only [AllocState.popOperands, h.exec]

/-- Two stores with room for an op's charge build the same object, or fail alike. -/
theorem buildObject_alike {s₁ s₂ : StoreInner} {op : AllocOp} (hm : op.Machine)
    (hc : op.charge = .ok charge) (h₁ : s₁.gc.fits charge = true)
    (h₂ : s₂.gc.fits charge = true) : s₁.buildObject op = s₂.buildObject op := by
  rcases buildObject_cases hm hc h₁ with ⟨t, ht, hb⟩ | ⟨hin, hp₁⟩
  · rcases buildObject_cases hm hc h₂ with ⟨t', ht', hb'⟩ | ⟨hin, -⟩
    · obtain rfl := Option.some.inj (ht.symm.trans ht')
      rw [hb, hb']
    · nomatch hin.symm.trans ht
  · rcases buildObject_cases hm hc h₂ with ⟨t, ht, -⟩ | ⟨-, hp₂⟩
    · nomatch hin.symm.trans ht
    · cases hb : s₁.buildObject op with
      | ok o => exact (Store.buildObject_of_fits hb hc h₂).symm
      | error err =>
        cases hb' : s₂.buildObject op with
        | ok o => exact (nomatch (Store.buildObject_of_fits hb' hc h₁).symm.trans hb)
        | error err' => rw [hp₁ err hb, hp₂ err' hb']

/-- Two attempts with room for the charge come to the same, unless only the first finds a
handle. -/
theorem yield_alike (h : SameOperands g₁ g₂)
    (hc : g₁.gcAllocCharge env inst instr = .ok charge)
    (h₁ : g₁.store.inner.gc.fits charge = true) (h₂ : g₂.store.inner.gc.fits charge = true)
    (hleft : g₂.store.inner.HandleLeft → g₁.store.inner.HandleLeft) :
    g₁.yield env inst instr = g₂.yield env inst instr ∨ ¬ g₂.store.inner.HandleLeft ∧
      g₂.yield env inst instr = .fails (.store (.trap .allocationTooLarge)) := by
  by_cases hthrow : ∃ tag, instr = .throw tag
  · obtain ⟨tag, rfl⟩ := hthrow
    left
    unfold yield
    dsimp only
    rw [h.exec]
  · have hne : ∀ tag, instr ≠ .throw tag := fun tag h => hthrow ⟨tag, h⟩
    rw [yield_of_ne_throw hne, yield_of_ne_throw hne, ← h.popOperands]
    cases hop : g₁.popOperands env inst instr with
    | error err => exact .inl rfl
    | ok p =>
      obtain ⟨op, e⟩ := p
      obtain ⟨hcharge, hm⟩ := popOperands_charge hc hop
      dsimp only
      rw [← buildObject_alike hm hcharge h₁ h₂]
      cases g₁.store.inner.buildObject op with
      | error err => exact .inl rfl
      | ok o =>
        dsimp only
        by_cases hl₂ : g₂.store.inner.HandleLeft
        · rw [if_pos hl₂, if_pos (hleft hl₂)]
          exact .inl rfl
        · rw [if_neg hl₂]
          exact .inr ⟨hl₂, rfl⟩

/-! ## A suspended op is retried -/

theorem place_ne_doGcGrow {target bytesNeeded ip : ℕ} :
    (g.place env inst next instr).2 ≠ .ok (.doGcGrow target bytesNeeded ip) := by
  by_cases hthrow : ∃ tag, instr = .throw tag
  · obtain ⟨tag, rfl⟩ := hthrow
    show (g.throwExn env inst tag).2 ≠ _
    unfold throwExn
    split
    · exact nofun
    · split
      · exact nofun
      · split <;> exact nofun
  · rw [place_of_ne_throw fun tag h => hthrow ⟨tag, h⟩]
    unfold execGc
    split
    · exact nofun
    · split
      · exact nofun
      · exact fun h => (nomatch Except.ok.inj h)

/-- An op suspends where its reservation does. -/
theorem step_doGcGrow {g' : AllocState} {target bytesNeeded ip : ℕ}
    (h : g.step env inst next instr = (g', .ok (.doGcGrow target bytesNeeded ip))) :
    ∃ charge store, g.gcAllocCharge env inst instr = .ok charge ∧
      g.store.gcReserve g.exec.operandRoots charge = (store, .ok (some ⟨target, bytesNeeded⟩)) ∧
      g' = { g with store } ∧ ip = next - 1 := by
  unfold step at h
  split at h
  · exact (nomatch (Prod.mk.inj h).2)
  · rename_i charge hc
    split at h
    · exact (nomatch (Prod.mk.inj h).2)
    · rename_i gR grow hr
      obtain ⟨rfl, hout⟩ := Prod.mk.inj h
      obtain ⟨rfl, rfl, rfl⟩ := StepOutcome.doGcGrow.inj (Except.ok.inj hout)
      have hstore : ({ g with store := (g.store.gcReserve g.exec.operandRoots charge).1 },
          (g.store.gcReserve g.exec.operandRoots charge).2) = (gR, .ok (some grow)) := hr
      obtain ⟨hgR, hresult⟩ := Prod.mk.inj hstore
      exact ⟨charge, _, hc, Prod.ext rfl hresult, hgR.symm, rfl⟩
    · exact absurd (congrArg Prod.snd h) place_ne_doGcGrow

/-- A growth granted for a charge that some reservation has room for makes room for it. -/
theorem fits_of_granted {s granted : Store} {limiter : Store.Limiter} {target bytesNeeded : ℕ}
    (h : s.growGcReservation target bytesNeeded limiter = (granted, .ok ()))
    (htarget : target = s.desiredReservation charge)
    (hsum : s.inner.gc.used + charge ≤ usizeMax) :
    granted.inner.gc.fits charge = true ∧
      (granted.inner = s.inner ∨
        granted.inner = { s.inner with gc := { s.inner.gc with reserved := target } }) := by
  have hneed : s.inner.gc.used + charge ≤ target := by
    rw [htarget]
    unfold Store.desiredReservation saturatingAdd
    omega
  unfold Store.growGcReservation at h
  split at h
  · rename_i hle
    obtain ⟨rfl, -⟩ := Prod.mk.inj h
    exact ⟨GcHeap.fits_iff.mpr ⟨hsum, hneed.trans hle⟩, .inl rfl⟩
  · have hgrant := Store.growWith_ok h
    refine ⟨?_, .inr hgrant⟩
    rw [hgrant]
    exact GcHeap.fits_iff.mpr ⟨hsum, hneed⟩

/-- **Retries.**  Wherever an op suspends for its reservation, it has changed nothing that the
stacks reach, and executed again once the growth is granted it comes to what it would have come to
at first. -/
theorem retry_safe (env : AllocEnv) (inst next : ℕ) (g g' : AllocState) (instr : AllocInstr)
    (target bytesNeeded ip : ℕ)
    (h : g.step env inst next instr = (g', .ok (.doGcGrow target bytesNeeded ip))) :
    RetrySafe env inst next g instr g' target bytesNeeded ip := by
  obtain ⟨charge, store, hc, hr, rfl, rfl⟩ := step_doGcGrow h
  have hsettled := Store.gcReserve_settled g.store g.exec.operandRoots charge
  rw [hr] at hsettled
  obtain ⟨hgrow, -, -⟩ := Store.gcReserve_grow hr
  obtain ⟨htarget, -⟩ := Store.GcGrow.mk.inj hgrow
  refine ⟨rfl, rfl, rfl, hsettled, rfl, ?_⟩
  intro limiter granted enough charge' hgranted hc' henough
  obtain rfl := Except.ok.inj (hc.symm.trans hc')
  -- The collection has only lowered the bytes in use.
  have hsum : store.inner.gc.used + charge ≤ usizeMax := by
    have hroom : g.store.inner.gc.used + charge ≤ usizeMax := (GcHeap.fits_iff.mp henough).1
    have hused := hsettled.used
    dsimp only at hused
    omega
  obtain ⟨hfits, hinner⟩ := fits_of_granted hgranted htarget hsum
  have helems : granted.inner.elems = g.store.inner.elems := by
    rcases hinner with hinner | hinner
    · rw [hinner]
      exact hsettled.roots.2.2.2.1
    · rw [hinner]
      exact hsettled.roots.2.2.2.1
  have hleft : g.store.inner.HandleLeft → granted.inner.HandleLeft := by
    intro hleft
    rcases hinner with hinner | hinner
    · rw [hinner]
      exact hsettled.handles hleft
    · rw [hinner]
      exact hsettled.handles hleft
  have hsame : SameOperands { g with store := granted } (g.withReserved enough) :=
    ⟨rfl, rfl, helems⟩
  have hagain : AllocState.gcAllocCharge env inst { g with store := granted } instr =
      .ok charge := by
    rw [hsame.gcAllocCharge]
    exact (SameOperands.gcAllocCharge ⟨rfl, rfl, rfl⟩).trans hc
  have halt : (g.withReserved enough).gcAllocCharge env inst instr = .ok charge :=
    (SameOperands.gcAllocCharge ⟨rfl, rfl, rfl⟩).trans hc
  exact ⟨_, _, step_yields hagain hfits, step_yields halt henough,
    yield_alike hsame hagain hfits henough hleft⟩

/-- A store with one object that nothing refers to, and the operand of an `array.new_default`. -/
def garbage : AllocState where
  exec := ⟨[1], [.none],
    [⟨⟨[.plain (.arrayNewDefault 0)], 0, 0, 1, [], 1, [], [], []⟩, 0, 0, 0, 0, 0, none⟩], 0⟩
  store := (Store.new .empty true 0).runAll [.constNew ⟨0, .struct, []⟩]
  memories := []
  droppedData := [[false]]

/-- The op collects and suspends. -/
theorem retry_safe_garbage :
    (garbage.step byteEnv 0 1 (.arrayNewDefault 0)).2 = .ok (.doGcGrow 65536 45 0) ∧
    RetrySafe byteEnv 0 1 garbage (.arrayNewDefault 0)
      (garbage.step byteEnv 0 1 (.arrayNewDefault 0)).1 65536 45 0 :=
  ⟨by decide +kernel, retry_safe byteEnv 0 1 garbage _ (.arrayNewDefault 0) 65536 45 0
    (Prod.ext rfl (by decide +kernel))⟩

/-- The second attempt places its object where the garbage was, the first would have placed it
behind. -/
theorem not_same_index_garbage :
    (AllocState.step byteEnv 0
      { (garbage.step byteEnv 0 1 (.arrayNewDefault 0)).1 with
        store := ((garbage.step byteEnv 0 1 (.arrayNewDefault 0)).1.store.growGcReservation
          65536 45 .none).1 } 1 (.arrayNewDefault 0)).1.exec.values = [0] ∧
    ((garbage.withReserved 89).step byteEnv 0 1 (.arrayNewDefault 0)).1.exec.values = [1] ∧
    (garbage.withReserved 89).store.inner.gc.fits 45 = true := by
  refine ⟨?_, ?_, ?_⟩
  · decide +kernel
  · decide +kernel
  · decide +kernel

end AllocState

end SubmilliWasm
