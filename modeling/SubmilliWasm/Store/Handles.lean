/-
# Host handles

A reference the embedder holds is a `Rooted`: an index or an `anyref` handle, stamped with the
store it came from and the generation its slot had (`src/value/gc_ref.rs`).  Every access of the
embedder resolves the handle first, through one of three checks, one for each managed arena.

The main result is that a stale handle is never taken for another object: along any history, a
resolution that succeeds finds the entry the handle was stamped for, unless its slot was freed
2^32 - 1 times or more in between.
-/
import SubmilliWasm.Lib.Fallible
import SubmilliWasm.Store.Events

namespace SubmilliWasm

open Slots Fallible

/-! ## Handles -/

/-- The generation of a handle that is not checked. -/
def uncheckedGeneration : ℕ := 2 ^ 32 - 1

/-- The store id of a handle that is not checked; no store has it. -/
def uncheckedStore : ℕ := 0

structure Rooted where
  index : ℕ
  arena : RefKind
  store : ℕ
  generation : ℕ
  deriving DecidableEq, Repr

namespace Rooted

def fromRawGen (index generation store : ℕ) (arena : RefKind) : Rooted :=
  ⟨index, arena, store, generation⟩

end Rooted

/-- How a use of a handle fails; `wrongStore` is a panic. -/
inductive Fault where
  | wrongStore
  | notAnObject
  | dangling
  | stale
  | staleExn
  deriving DecidableEq, Repr

/-- A store id is accepted if it is the store's own or the unchecked one. -/
def checkHandle (storeId store : ℕ) : Except Fault Unit :=
  if store = uncheckedStore ∨ store = storeId then .ok () else .error .wrongStore

namespace StoreInner

/-- Decodes an `anyref` handle to the slot of a live object. -/
def gcSlot (s : StoreInner) (handle : ℕ) : Except Fault ℕ :=
  match decodeAnyrefHandle handle with
  | .i31 _ => .error .notAnObject
  | .slot i =>
    match s.gc.arena.get i with
    | none => .error .dangling
    | some _ => .ok i

/-- Resolves an `anyref`, `structref` or `arrayref` to its slot, in the store with id `storeId`. -/
def gcSlotChecked (s : StoreInner) (storeId : ℕ) (h : Rooted) : Except Fault ℕ := do
  checkHandle storeId h.store
  let slot ← s.gcSlot h.index
  if h.generation ≠ uncheckedGeneration ∧ s.gc.arena.generation slot ≠ some h.generation then
    .error .stale
  else return slot

/-- Compares a handle of a reference arena with its slot's current generation. -/
def checked (storeId : ℕ) (h : Rooted) (currentGeneration : Option ℕ) : Except Fault ℕ := do
  checkHandle storeId h.store
  match currentGeneration with
  | none => .error .stale
  | some current =>
    if h.generation ≠ uncheckedGeneration ∧ current ≠ h.generation then .error .stale
    else return h.index

/-- The host payload behind an index, if it is a live host externref. -/
def externref (s : StoreInner) (index : ℕ) : Option ℕ :=
  match s.externrefs.get index with
  | some (.host payload) => some payload
  | _ => none

/-- Resolves an `externref` to its payload, `none` for an internalized reference. -/
def externrefChecked (s : StoreInner) (storeId : ℕ) (h : Rooted) : Except Fault (Option ℕ) := do
  let idx ← checked storeId h (s.externrefs.generation h.index)
  return s.externref idx

/-- Resolves an `exnref` to its instance. -/
def exnChecked (s : StoreInner) (storeId : ℕ) (h : Rooted) : Except Fault ExnEntity := do
  let idx ← checked storeId h (s.exns.generation h.index)
  match s.exns.get idx with
  | none => .error .staleExn
  | some exn => return exn

/-- The entry an access through a handle gets, by the handle's hierarchy; an `i31` is no entry,
and a function handle is of no managed arena. -/
def resolve (s : StoreInner) (storeId : ℕ) (h : Rooted) : Except Fault (Option Reached) :=
  match h.arena with
  | .any =>
    match decodeAnyrefHandle h.index with
    | .i31 _ => .ok none
    | .slot _ => (s.gcSlotChecked storeId h).map fun slot => some (.gc slot)
  | .extern_ => (s.externrefChecked storeId h).map fun _ => some (.extern_ h.index)
  | .exn => (s.exnChecked storeId h).map fun _ => some (.exn h.index)
  | .func => .error .dangling

end StoreInner

/-- The entry a handle was stamped for: live, with the generation its slot has and the id of its
store. -/
structure StoreInner.Stamped (s : StoreInner) (storeId : ℕ) (h : Rooted) (n : Reached) : Prop where
  referent : handleReferent h.arena h.index = some n
  live : s.Live n
  store : h.store = storeId
  generation : s.generation n = some h.generation

/-! ## Generations run through a cycle -/

variable {placed : Option Reached} {n : Reached} {h : Rooted} {s s' : StoreInner} {w : Watched}
  {g storeId : ℕ}

/-- The generations a slot can have: all but the unchecked one. -/
theorem nextGeneration_eq (h : g < 2 ^ 32 - 1) :
    ReclaimArena.nextGeneration g = (g + 1) % (2 ^ 32 - 1) := by
  unfold ReclaimArena.nextGeneration
  simp only
  by_cases hg : g + 1 = 2 ^ 32 - 1
  · rw [hg]
    decide
  · rw [Nat.mod_eq_of_lt (by omega), Nat.mod_eq_of_lt (by omega), if_neg hg]

theorem nextGeneration_lt (g : ℕ) : ReclaimArena.nextGeneration g < 2 ^ 32 - 1 := by
  unfold ReclaimArena.nextGeneration
  simp only
  have := Nat.mod_lt (g + 1) (y := 2 ^ 32) (by omega)
  split <;> omega

theorem nextGeneration_add {k : ℕ} :
    ReclaimArena.nextGeneration ((g + k) % (2 ^ 32 - 1)) = (g + (k + 1)) % (2 ^ 32 - 1) := by
  rw [nextGeneration_eq (Nat.mod_lt _ (by decide)), Nat.mod_add_mod, Nat.add_assoc]

/-- Fewer frees than the cycle is long give another generation. -/
theorem eq_zero_of_generation_eq {k : ℕ} (hk : k < 2 ^ 32 - 1) (h : (g + k) % (2 ^ 32 - 1) = g) :
    k = 0 := by
  omega

/-! ## What an event does to one entry -/

/-- Every generation in use is a checked one. -/
def StoreInner.GenerationsChecked (s : StoreInner) : Prop :=
  ∀ n g, s.generation n = some g → g < 2 ^ 32 - 1

/-- How an event that places `placed` changes entry `n`. -/
inductive EntryChange (s s' : StoreInner) (placed : Option Reached) (n : Reached) : Prop where
  /-- A new entry fills the slot; a recycled slot keeps its generation. -/
  | filled (hn : placed = some n) (hfree : ¬ s.Live n) (hlive : s'.Live n)
      (hgen : s'.generation n = some ((s.generation n).getD 0))
  | freed (hn : placed ≠ some n) (hlive : s.Live n) (hfree : ¬ s'.Live n)
      (hgen : s'.generation n = (s.generation n).map ReclaimArena.nextGeneration)
  | kept (hn : placed ≠ some n) (hlive : s'.Live n ↔ s.Live n)
      (hgen : s'.generation n = s.generation n)

theorem alloc_live {E : Type} (a : ReclaimArena E) (e : E) (j : ℕ) :
    (a.alloc e).2.get j ≠ none ↔ j = (a.alloc e).1 ∨ a.get j ≠ none := by
  rw [a.alloc_get]
  by_cases hj : j = (a.alloc e).1 <;> simp [hj]

theorem update_live {E : Type} (a : ReclaimArena E) (i : ℕ) (f : E → E) (j : ℕ) :
    (a.update i f).get j ≠ none ↔ a.get j ≠ none := by
  rw [a.update_get]
  by_cases hj : j = i <;> simp [hj]

theorem alloc_generation_filled {E : Type} (a : ReclaimArena E) (e : E) :
    (a.alloc e).2.generation (a.alloc e).1 = some ((a.generation (a.alloc e).1).getD 0) := by
  rw [a.alloc_generation]
  cases h : a.generation (a.alloc e).1 <;> simp

theorem alloc_generation_ne {E : Type} (a : ReclaimArena E) (e : E) {j : ℕ}
    (hj : j ≠ (a.alloc e).1) : (a.alloc e).2.generation j = a.generation j := by
  rw [a.alloc_generation, if_neg fun h => hj h.1]

theorem Event.change (h : Event s placed s') (n : Reached) : EntryChange s s' placed n := by
  cases h with
  | object o _ =>
    by_cases hn : n = .gc (s.gc.arena.alloc o).1
    · subst hn
      exact .filled rfl (not_not.mpr (s.gc.arena.alloc_fresh o))
        ((alloc_live _ o _).mpr (Or.inl rfl)) (alloc_generation_filled _ o)
    · refine .kept (fun hp => hn (Option.some.inj hp).symm) ?_ ?_
      · cases n with
        | gc j =>
          have hj : j ≠ (s.gc.arena.alloc o).1 := fun hj => hn (congrArg Reached.gc hj)
          exact (alloc_live _ o j).trans (or_iff_right hj)
        | extern_ j => exact Iff.rfl
        | exn j => exact Iff.rfl
      · cases n with
        | gc j => exact alloc_generation_ne _ o fun hj => hn (congrArg Reached.gc hj)
        | extern_ j => rfl
        | exn j => rfl
  | externref e _ =>
    by_cases hn : n = .extern_ (s.externrefs.alloc e).1
    · subst hn
      exact .filled rfl (not_not.mpr (s.externrefs.alloc_fresh e))
        ((alloc_live _ e _).mpr (Or.inl rfl)) (alloc_generation_filled _ e)
    · refine .kept (fun hp => hn (Option.some.inj hp).symm) ?_ ?_
      · cases n with
        | gc j => exact Iff.rfl
        | extern_ j =>
          have hj : j ≠ (s.externrefs.alloc e).1 := fun hj => hn (congrArg Reached.extern_ hj)
          exact (alloc_live _ e j).trans (or_iff_right hj)
        | exn j => exact Iff.rfl
      · cases n with
        | gc j => rfl
        | extern_ j => exact alloc_generation_ne _ e fun hj => hn (congrArg Reached.extern_ hj)
        | exn j => rfl
  | exn e _ =>
    by_cases hn : n = .exn (s.exns.alloc e).1
    · subst hn
      exact .filled rfl (not_not.mpr (s.exns.alloc_fresh e))
        ((alloc_live _ e _).mpr (Or.inl rfl)) (alloc_generation_filled _ e)
    · refine .kept (fun hp => hn (Option.some.inj hp).symm) ?_ ?_
      · cases n with
        | gc j => exact Iff.rfl
        | extern_ j => exact Iff.rfl
        | exn j =>
          have hj : j ≠ (s.exns.alloc e).1 := fun hj => hn (congrArg Reached.exn hj)
          exact (alloc_live _ e j).trans (or_iff_right hj)
      · cases n with
        | gc j => rfl
        | extern_ j => rfl
        | exn j => exact alloc_generation_ne _ e fun hj => hn (congrArg Reached.exn hj)
  | write index data =>
    refine .kept (nomatch ·) ?_ ?_
    · cases n with
      | gc j => exact update_live _ index _ j
      | extern_ j => exact Iff.rfl
      | exn j => exact Iff.rfl
    · cases n with
      | gc j => exact s.gc.arena.update_generation index _ j
      | extern_ j => rfl
      | exn j => rfl
  | collect stackRoots h =>
    by_cases hc : s.gc.collecting = true
    · obtain ⟨t, ht, rfl⟩ := collect_ok hc h
      have hspec := sweepAll_spec s t n
      by_cases hseen : t.seen n
      · refine .kept (nomatch ·) ?_ (hspec.1 hseen).2
        rw [live_iff_contents, live_iff_contents, (hspec.1 hseen).1]
      · obtain ⟨hnone, hgen, hsame⟩ := hspec.2 hseen
        have hdead : ¬ (s.sweepAll t).Live n := by
          rw [live_iff_contents, hnone]
          exact not_not.mpr rfl
        by_cases hl : s.Live n
        · exact .freed (nomatch ·) hl hdead (hgen hl)
        · exact .kept (nomatch ·) (iff_of_false hdead hl) (hsame hl)
    · rw [StoreInner.collect, if_pos (by simpa using hc)] at h
      obtain rfl := Except.ok.inj (Option.some.inj h)
      exact .kept (nomatch ·) Iff.rfl rfl
  | other h =>
    refine .kept (nomatch ·) ?_ ?_
    · cases n with
      | gc j => exact Iff.of_eq (congrArg (fun a => ReclaimArena.get a j ≠ none) h.arena)
      | extern_ j => exact Iff.of_eq (congrArg (fun a => ReclaimArena.get a j ≠ none) h.externrefs)
      | exn j => exact Iff.of_eq (congrArg (fun a => ReclaimArena.get a j ≠ none) h.exns)
    · cases n with
      | gc j => exact congrArg (fun a => ReclaimArena.generation a j) h.arena
      | extern_ j => exact congrArg (fun a => ReclaimArena.generation a j) h.externrefs
      | exn j => exact congrArg (fun a => ReclaimArena.generation a j) h.exns

theorem Event.generationsChecked (h : Event s placed s') (hs : s.GenerationsChecked) :
    s'.GenerationsChecked := by
  intro n g hg
  cases h.change n with
  | filled _ _ _ hgen =>
    rw [hgen] at hg
    obtain rfl := Option.some.inj hg
    cases hold : s.generation n with
    | none => decide
    | some g => exact hs n g hold
  | freed _ _ _ hgen =>
    rw [hgen] at hg
    obtain ⟨g', -, rfl⟩ := Option.map_eq_some_iff.mp hg
    exact nextGeneration_lt g'
  | kept _ _ hgen => exact hs n g (hgen ▸ hg)

/-! ## Histories under observation -/

/-- A store with what an observer of its whole history knows: how many entries have been placed,
which of them each slot holds or held last, and how often each slot has been freed. -/
structure Watched where
  store : StoreInner
  births : ℕ
  id : Reached → ℕ
  freed : Reached → ℕ

def Watched.new (engine : TypeRegistry) (collecting : Bool) (reservation : ℕ) : Watched :=
  ⟨StoreInner.new engine collecting reservation, 0, fun _ => 0, fun _ => 0⟩

/-- One event, observed: the entry placed gets a number of its own, and a slot that was live and
is not any more has been freed. -/
structure Watched.Step (w w' : Watched) (placed : Option Reached) : Prop where
  event : Event w.store placed w'.store
  births : w'.births = w.births + placed.toList.length
  id : ∀ n, w'.id n = if placed = some n then w.births else w.id n
  freed : ∀ n, (w.store.Live n ∧ ¬ w'.store.Live n → w'.freed n = w.freed n + 1) ∧
    (¬ (w.store.Live n ∧ ¬ w'.store.Live n) → w'.freed n = w.freed n)

instance (s : StoreInner) (n : Reached) : Decidable (s.Live n) :=
  match n with
  | .gc i => inferInstanceAs (Decidable (s.gc.arena.get i ≠ none))
  | .extern_ i => inferInstanceAs (Decidable (s.externrefs.get i ≠ none))
  | .exn i => inferInstanceAs (Decidable (s.exns.get i ≠ none))

/-- What the observer knows after an event that places `placed` and leads to `s'`. -/
def Watched.observe (w : Watched) (placed : Option Reached) (s' : StoreInner) : Watched where
  store := s'
  births := w.births + placed.toList.length
  id n := if placed = some n then w.births else w.id n
  freed n := if w.store.Live n ∧ ¬ s'.Live n then w.freed n + 1 else w.freed n

theorem Watched.step_observe (h : Event w.store placed s') : w.Step (w.observe placed s') placed :=
  ⟨h, rfl, fun _ => rfl, fun _ => ⟨fun hf => if_pos hf, fun hf => if_neg hf⟩⟩

def Watched.Run : Watched → Watched → Prop :=
  Relation.ReflTransGen fun w w' => ∃ placed, w.Step w' placed

/-- Every sequence of events can be observed. -/
theorem exists_run (h : Events s s') (w : Watched) (hw : w.store = s) :
    ∃ w' : Watched, w.Run w' ∧ w'.store = s' := by
  induction h with
  | refl => exact ⟨w, Relation.ReflTransGen.refl, hw⟩
  | @tail s₁ s₂ _ hlast ih =>
    obtain ⟨w₁, hrun, rfl⟩ := ih
    obtain ⟨placed, hevent⟩ := hlast
    exact ⟨w₁.observe placed s₂, hrun.tail ⟨placed, Watched.step_observe hevent⟩, rfl⟩

theorem Watched.Run.generationsChecked {w' : Watched} (h : w.Run w')
    (hw : w.store.GenerationsChecked) : w'.store.GenerationsChecked := by
  induction h with
  | refl => exact hw
  | tail _ hlast ih =>
    obtain ⟨placed, hstep⟩ := hlast
    exact hstep.event.generationsChecked ih

theorem generationsChecked_new (engine : TypeRegistry) (collecting : Bool) (reservation : ℕ) :
    (StoreInner.new engine collecting reservation).GenerationsChecked := by
  intro n g hg
  cases n <;> exact (nomatch hg)

/-- What a run has done to an entry that was live at its start with generation `g`: the slot's
generation counts the frees since, and as long as there were none the entry is still there. -/
structure Tracks (w w' : Watched) (n : Reached) (g : ℕ) : Prop where
  le : w.freed n ≤ w'.freed n
  generation : w'.store.generation n = some ((g + (w'.freed n - w.freed n)) % (2 ^ 32 - 1))
  same : w'.freed n = w.freed n → w'.store.Live n ∧ w'.id n = w.id n

theorem Tracks.refl (hlive : w.store.Live n) (hgen : w.store.generation n = some g)
    (hg : g < 2 ^ 32 - 1) : Tracks w w n g :=
  ⟨le_rfl, by rw [Nat.sub_self, Nat.add_zero, Nat.mod_eq_of_lt hg, hgen], fun _ => ⟨hlive, rfl⟩⟩

theorem Tracks.step {w w₁ w₂ : Watched} {n : Reached} {g : ℕ} {placed : Option Reached}
    (ht : Tracks w w₁ n g) (hstep : w₁.Step w₂ placed) : Tracks w w₂ n g := by
  have hle := ht.le
  cases hstep.event.change n with
  | filled hn hfree hlive hgen =>
    -- The slot was empty, so it has been freed before.
    have hfreed : w₂.freed n = w₁.freed n := (hstep.freed n).2 fun h => hfree h.1
    refine ⟨hfreed ▸ hle, ?_, fun h => ?_⟩
    · rw [hgen, ht.generation, hfreed]
      rfl
    · exact absurd (ht.same (hfreed ▸ h)).1 hfree
  | freed hn hlive hfree hgen =>
    have hfreed : w₂.freed n = w₁.freed n + 1 := (hstep.freed n).1 ⟨hlive, hfree⟩
    refine ⟨by omega, ?_, fun h => by omega⟩
    rw [hgen, ht.generation, Option.map_some, nextGeneration_add, hfreed, Nat.sub_add_comm hle]
  | kept hn hlive hgen =>
    have hfreed : w₂.freed n = w₁.freed n := (hstep.freed n).2 fun h => h.2 (hlive.mpr h.1)
    refine ⟨hfreed ▸ hle, by rw [hgen, ht.generation, hfreed], fun h => ?_⟩
    obtain ⟨hl, hid⟩ := ht.same (hfreed ▸ h)
    exact ⟨hlive.mpr hl, by rw [hstep.id, if_neg hn, hid]⟩

theorem Watched.Run.tracks {w' : Watched} (h : w.Run w') (hlive : w.store.Live n)
    (hgen : w.store.generation n = some g) (hg : g < 2 ^ 32 - 1) : Tracks w w' n g := by
  induction h with
  | refl => exact Tracks.refl hlive hgen hg
  | tail _ hlast ih =>
    obtain ⟨placed, hstep⟩ := hlast
    exact ih.step hstep

/-! ## Resolution -/

theorem checked_ok {current : Option ℕ} {idx : ℕ} (hg : h.generation ≠ uncheckedGeneration)
    (hc : StoreInner.checked storeId h current = .ok idx) : current = some h.generation := by
  obtain ⟨_, -, hc⟩ := bind_ok hc
  cases current with
  | none => nomatch hc
  | some g =>
    simp only at hc
    split at hc
    · nomatch hc
    · rename_i hno
      have : g = h.generation := by
        by_contra hne
        exact hno ⟨hg, hne⟩
      rw [this]

/-- A resolution that succeeds on a handle with a checked generation has compared it. -/
theorem resolve_ok {n' : Reached} (href : handleReferent h.arena h.index = some n)
    (hg : h.generation ≠ uncheckedGeneration) (hr : s.resolve storeId h = .ok (some n')) :
    n' = n ∧ s.generation n = some h.generation := by
  obtain ⟨index, arena, store, generation⟩ := h
  unfold StoreInner.resolve at hr
  unfold handleReferent at href
  split at href
  · nomatch href
  · cases arena with
    | func => nomatch href
    | any =>
      simp only at hr href
      cases hd : decodeAnyrefHandle index with
      | i31 p => simp [hd] at href
      | slot i =>
        simp only [hd, Option.some.injEq] at href hr
        subst href
        cases hc : s.gcSlotChecked storeId ⟨index, .any, store, generation⟩ with
        | error e => simp [hc, Except.map] at hr
        | ok slot =>
          simp only [hc, Except.map, Except.ok.injEq, Option.some.injEq] at hr
          subst hr
          obtain ⟨_, -, hc⟩ := bind_ok hc
          obtain ⟨slot', hslot, hc⟩ := bind_ok hc
          split at hc
          · nomatch hc
          · rename_i hno
            obtain rfl : slot' = slot := Except.ok.inj hc
            have hslot : slot' = i := by
              simp only [StoreInner.gcSlot, hd] at hslot
              split at hslot
              · nomatch hslot
              · exact (Except.ok.inj hslot).symm
            subst hslot
            refine ⟨rfl, ?_⟩
            by_contra hne
            exact hno ⟨hg, hne⟩
    | extern_ =>
      simp only [Option.some.injEq] at href hr
      subst href
      cases hc : s.externrefChecked storeId ⟨index, .extern_, store, generation⟩ with
      | error e => simp [hc, Except.map] at hr
      | ok v =>
        simp only [hc, Except.map, Except.ok.injEq, Option.some.injEq] at hr
        subst hr
        obtain ⟨idx, hi, -⟩ := bind_ok hc
        exact ⟨rfl, checked_ok hg hi⟩
    | exn =>
      simp only [Option.some.injEq] at href hr
      subst href
      cases hc : s.exnChecked storeId ⟨index, .exn, store, generation⟩ with
      | error e => simp [hc, Except.map] at hr
      | ok v =>
        simp only [hc, Except.map, Except.ok.injEq, Option.some.injEq] at hr
        subst hr
        obtain ⟨idx, hi, -⟩ := bind_ok hc
        exact ⟨rfl, checked_ok hg hi⟩

/-- A handle of an entry is not an `i31`. -/
theorem resolve_ne_none {n' : Option Reached} (href : handleReferent h.arena h.index = some n)
    (hr : s.resolve storeId h = .ok n') : n' ≠ none := by
  rintro rfl
  have hmap : ∀ {α : Type} {x : Except Fault α} {f : α → Reached},
      x.map (fun a => some (f a)) ≠ .ok none := by
    intro α x f hx
    cases x with
    | error e => nomatch hx
    | ok a => nomatch Except.ok.inj hx
  obtain ⟨index, arena, store, generation⟩ := h
  unfold StoreInner.resolve at hr
  unfold handleReferent at href
  split at href
  · nomatch href
  · cases arena with
    | func => nomatch href
    | any =>
      simp only at hr href
      cases hd : decodeAnyrefHandle index with
      | i31 p => simp [hd] at href
      | slot i =>
        rw [hd] at hr
        exact hmap hr
    | extern_ => exact hmap hr
    | exn => exact hmap hr

/-- A live handle finds its entry. -/
theorem StoreInner.Stamped.resolves (hs : s.Stamped storeId h n) :
    s.resolve storeId h = .ok (some n) := by
  obtain ⟨index, arena, store, generation⟩ := h
  obtain ⟨href, hlive, rfl, hgen⟩ := hs
  have hcheck : checkHandle store store = .ok () := if_pos (Or.inr rfl)
  have hchecked : ∀ current {arena}, current = some generation →
      StoreInner.checked store ⟨index, arena, store, generation⟩ current = .ok index := by
    rintro _ _ rfl
    show (checkHandle store store).bind _ = _
    rw [hcheck]
    exact if_neg fun h => h.2 rfl
  unfold handleReferent at href
  split at href
  · cases href
  · cases arena with
    | func => cases href
    | any =>
      unfold StoreInner.resolve
      dsimp only at href ⊢
      cases hd : decodeAnyrefHandle index with
      | i31 p =>
        rw [hd] at href
        cases href
      | slot i =>
        rw [hd] at href
        obtain rfl := Option.some.inj href
        obtain ⟨o, ho⟩ := Option.ne_none_iff_exists'.mp hlive
        have hslot : s.gcSlot index = .ok i := by
          unfold StoreInner.gcSlot
          rw [hd]
          dsimp only
          rw [ho]
        have hgc : s.gcSlotChecked store ⟨index, .any, store, generation⟩ = .ok i := by
          show (checkHandle store store).bind _ = _
          rw [hcheck]
          show (s.gcSlot index).bind _ = _
          rw [hslot]
          exact if_neg fun h => h.2 hgen
        rw [hgc]
        rfl
    | extern_ =>
      obtain rfl := Option.some.inj href
      have hfound : s.externrefChecked store ⟨index, .extern_, store, generation⟩
          = .ok (s.externref index) := by
        show (StoreInner.checked store _ (s.externrefs.generation index)).bind _ = _
        rw [hchecked (s.externrefs.generation index) hgen]
        rfl
      show (s.externrefChecked store _).map _ = _
      rw [hfound]
      rfl
    | exn =>
      obtain rfl := Option.some.inj href
      obtain ⟨exn, hexn⟩ := Option.ne_none_iff_exists'.mp hlive
      have hresolved : s.exnChecked store ⟨index, .exn, store, generation⟩ = .ok exn := by
        show (StoreInner.checked store _ (s.exns.generation index)).bind _ = _
        rw [hchecked (s.exns.generation index) hgen]
        show (match s.exns.get index with | none => _ | some exn => _) = _
        rw [hexn]
        rfl
      show (s.exnChecked store _).map _ = _
      rw [hresolved]
      rfl

/-- **Stale handles never alias.**  Along any history of a new store, resolving a handle stamped
for entry `n` either faults or finds `n`, live and still filled by the very allocation it was
stamped for, provided the slot was freed fewer than 2^32 - 1 times since. -/
theorem resolve_same_entry {engine : TypeRegistry} {collecting : Bool} {reservation : ℕ}
    {w w' : Watched} (hw : (Watched.new engine collecting reservation).Run w) (hrun : w.Run w')
    {storeId : ℕ} {h : Rooted} {n : Reached} (hstamp : w.store.Stamped storeId h n)
    (hfew : w'.freed n - w.freed n < 2 ^ 32 - 1) {n' : Option Reached}
    (hr : w'.store.resolve storeId h = .ok n') :
    n' = some n ∧ w'.store.Live n ∧ w'.id n = w.id n ∧ w'.freed n = w.freed n := by
  have hg : h.generation < 2 ^ 32 - 1 :=
    hw.generationsChecked (generationsChecked_new engine collecting reservation) n _
      hstamp.generation
  have hunchecked : h.generation ≠ uncheckedGeneration := Nat.ne_of_lt hg
  have hsome : n' ≠ none := resolve_ne_none hstamp.referent hr
  obtain ⟨m, rfl⟩ := Option.ne_none_iff_exists'.mp hsome
  obtain ⟨rfl, hgen⟩ := resolve_ok hstamp.referent hunchecked hr
  have ht := hrun.tracks hstamp.live hstamp.generation hg
  -- The generation is back where it was, so the slot has not been freed.
  have hcycle : (h.generation + (w'.freed m - w.freed m)) % (2 ^ 32 - 1) = h.generation :=
    Option.some.inj (ht.generation.symm.trans hgen)
  have hzero := eq_zero_of_generation_eq hfew hcycle
  have hsame : w'.freed m = w.freed m := by
    have := ht.le
    omega
  exact ⟨rfl, (ht.same hsame).1, (ht.same hsame).2, hsame⟩

/-- A store whose embedder holds the first externref. -/
def oneExternref : Watched :=
  let w := Watched.new .empty true 0
  w.observe (some (.extern_ 0))
    { w.store with
      gc := { w.store.gc with used := 64 }
      externrefs := (w.store.externrefs.alloc (.host 7)).2 }

/-- The same store after another externref. -/
def twoExternrefs : Watched :=
  oneExternref.observe (some (.extern_ 1))
    { oneExternref.store with
      gc := { oneExternref.store.gc with used := 128 }
      externrefs := (oneExternref.store.externrefs.alloc (.host 8)).2 }

theorem resolve_same_entry_twoExternrefs :
    some (Reached.extern_ 0) = some (.extern_ 0) ∧ twoExternrefs.store.Live (.extern_ 0) ∧
    twoExternrefs.id (.extern_ 0) = oneExternref.id (.extern_ 0) ∧
    twoExternrefs.freed (.extern_ 0) = oneExternref.freed (.extern_ 0) :=
  @resolve_same_entry .empty true 0 _ _
    (Relation.ReflTransGen.single
      ⟨_, Watched.step_observe (Event.externref (.host 7) (by decide))⟩)
    (Relation.ReflTransGen.single
      ⟨_, Watched.step_observe (Event.externref (.host 8) (by decide))⟩)
    1 (Rooted.fromRawGen 0 0 1 .extern_) _
    ⟨by decide, by decide, rfl, by decide⟩ (by decide) _ (by decide)

end SubmilliWasm
