/-
# Operations as the engine sees them

An operation of a store changes the store's own arenas, and on the way raises its reservation at
most once: within the free budget, with the approval its limiter has just given, or without a
limiter under the abort cap (`Store.run_operates`).  For the stores that share the engine's total
and its mailboxes such an operation is a few atomic steps, which the steps of other stores may come
between (`Threads`).  However they do, a store never gets stuck in an operation and is what its own
operations make of it, and the total is what the stores have reserved (`interleaved_operations`).
-/
import SubmilliWasm.Exec.Account
import SubmilliWasm.Exec.Pressure

namespace SubmilliWasm

open Slots Fallible

namespace Store

/-! ## What an operation is made of -/

/-- A change of a store in which it raises no reservation and asks no limiter. -/
structure Work (s s' : Store) : Prop where
  events : Events s.inner s'.inner
  budget : SameBudget s.inner s'.inner
  nextGrow : s'.nextGrow = s.nextGrow
  consulted : s'.consulted = s.consulted

theorem Work.refl (s : Store) : Work s s := ⟨.refl _, .refl _, rfl, rfl⟩

theorem Work.trans {a b c : Store} (h : Work a b) (h' : Work b c) : Work a c :=
  ⟨h.events.trans h'.events, ⟨h'.budget.reserved.trans h.budget.reserved,
    h'.budget.reservation.trans h.budget.reservation⟩, h'.nextGrow.trans h.nextGrow,
    h'.consulted.trans h.consulted⟩

/-- A change of the inner store alone. -/
theorem Work.inner {s : Store} {inner : StoreInner} (h : Events s.inner inner)
    (hbudget : SameBudget s.inner inner) : Work s { s with inner } := ⟨h, hbudget, rfl, rfl⟩

theorem Work.onInner {α : Type} {s : Store} {r : Except StoreError (α × StoreInner)}
    (h : ∀ a inner, r = .ok (a, inner) → Work s { s with inner }) : Work s (s.onInner r).1 := by
  rcases r with e | ⟨a, inner⟩
  · exact .refl s
  · exact h a inner rfl

theorem Work.andThen {α β : Type} {s : Store} {r : Outcome α} {f : Store → α → Outcome β}
    (hr : Work s r.1) (hf : ∀ a, Work r.1 (f r.1 a).1) : Work s (r.andThen f).1 := by
  obtain ⟨s', e | a⟩ := r
  · exact hr
  · exact hr.trans (hf a)

/-- The placing of an entry. -/
theorem Work.event {s : Store} {inner : StoreInner} {n : Reached}
    (h : Event s.inner (some n) inner) : Work s { s with inner } :=
  .inner (.single h) h.sameBudget

theorem Work.collect (s : Store) (roots : List (ℕ × RefKind)) : Work s (s.gcCollect roots).1 := by
  refine ⟨s.gcCollect_events roots, ?_, ?_, ?_⟩ <;> unfold gcCollect <;> split
  · rename_i inner h
    exact collect_sameBudget (gcCollect_inner h)
  · exact .refl _
  all_goals rfl

/-- The limiter was asked for `target`. -/
def consult (s : Store) (target : ℕ) (approved : Bool) : Store :=
  { s with consulted := ⟨target, approved⟩ :: s.consulted }

/-- Why a store grants itself `target`, with the store it is when it does. -/
inductive Granting (s : Store) (target : ℕ) : Store → Prop where
  | free (h : s.inner.gc.isFreeGrant target = true) : Granting s target s
  | approved : Granting s target (s.consult target true)
  | capped (h : target ≤ abortSafetyCap) : Granting s target s

/-- An operation of a store, with its grant: the store that makes it, and its target. -/
inductive Operated (s : Store) : Option (Store × ℕ) → Store → Prop where
  | quiet {s'} (h : Work s s') : Operated s none s'
  | denied {s₁ s' target} (h : Work s s₁) (h' : Work (s₁.consult target false) s') :
      Operated s none s'
  | granted {s₁ s₂ s' target} (h : Work s s₁) (hgrant : Granting s₁ target s₂)
      (hle : s₁.inner.gc.reserved ≤ target) (hmax : target ≤ usizeMax)
      (h' : Work (s₂.grant target).2 s') : Operated s (some (s₂, target)) s'

def Operates (s s' : Store) : Prop := ∃ granted, Operated s granted s'

variable {s s' s'' : Store}

theorem Granting.reserved {target : ℕ} (h : Granting s target s') :
    s'.inner = s.inner ∧ s'.nextGrow = s.nextGrow := by
  cases h <;> exact ⟨rfl, rfl⟩

theorem Operates.before (h : Work s s') (h' : Operates s' s'') : Operates s s'' := by
  obtain ⟨granted, h'⟩ := h'
  cases h' with
  | quiet h₁ => exact ⟨_, .quiet (h.trans h₁)⟩
  | denied h₁ h₂ => exact ⟨_, .denied (h.trans h₁) h₂⟩
  | granted h₁ hg hle hmax h₂ => exact ⟨_, .granted (h.trans h₁) hg hle hmax h₂⟩

theorem Operates.after (h : Operates s s') (h' : Work s' s'') : Operates s s'' := by
  obtain ⟨granted, h⟩ := h
  cases h with
  | quiet h₁ => exact ⟨_, .quiet (h₁.trans h')⟩
  | denied h₁ h₂ => exact ⟨_, .denied h₁ (h₂.trans h')⟩
  | granted h₁ hg hle hmax h₂ => exact ⟨_, .granted h₁ hg hle hmax (h₂.trans h')⟩

theorem Work.operates (h : Work s s') : Operates s s' := ⟨_, .quiet h⟩

/-- A grant and nothing else. -/
theorem Granting.operates {target : ℕ} (h : Granting s target s')
    (hle : s.inner.gc.reserved ≤ target) (hmax : target ≤ usizeMax) :
    Operates s (s'.grant target).2 :=
  ⟨_, .granted (.refl s) h hle hmax (.refl _)⟩

theorem Operates.events (h : Operates s s') : Events s.inner s'.inner := by
  obtain ⟨granted, h⟩ := h
  cases h with
  | quiet h => exact h.events
  | denied h h' => exact h.events.trans h'.events
  | @granted s₁ s₂ _ target h hg _ _ h' =>
    have hgrant := (s₂.grant_events target).trans h'.events
    rw [hg.reserved.1] at hgrant
    exact h.events.trans hgrant

/-- What comes after a success does not grant. -/
theorem Operates.andThen {α β : Type} {r : Outcome α} {f : Store → α → Outcome β}
    (hr : Operates s r.1) (hf : ∀ a, r.2 = .ok a → Work r.1 (f r.1 a).1) :
    Operates s (r.andThen f).1 := by
  obtain ⟨s', e | a⟩ := r
  · exact hr
  · exact hr.after (hf a rfl)

/-! ## The reservation flows -/

theorem desiredReservation_le (s : Store) (charge : ℕ) : s.desiredReservation charge ≤ usizeMax :=
  max_le (min_le_right _ _) (min_le_right _ _)

theorem le_desiredReservation (hs : s.inner.gc.reserved ≤ usizeMax) (charge : ℕ) :
    s.inner.gc.reserved ≤ s.desiredReservation charge :=
  (le_min (Nat.le_add_right _ _) hs).trans (le_max_left _ _)

theorem operates_growWith {target : ℕ} (hle : s.inner.gc.reserved ≤ target)
    (hmax : target ≤ usizeMax) (bytesNeeded : ℕ) (answer : Except StoreError (Option Bool)) :
    Operates s (s.growWith target bytesNeeded answer).1 := by
  rcases answer with e | _ | _ | _
  · exact (Work.refl s).operates
  · unfold growWith
    dsimp only
    split
    · rename_i hcap
      exact Granting.operates (.capped hcap) hle hmax
    · exact (Work.refl s).operates
  · exact ⟨_, .denied (.refl s) (.refl _)⟩
  · exact Granting.operates .approved hle hmax

theorem operates_growGc {target : ℕ} (hmax : target ≤ usizeMax) (bytesNeeded : ℕ)
    (limiter : Limiter) : Operates s (s.growGcReservation target bytesNeeded limiter).1 := by
  unfold growGcReservation
  split
  · exact (Work.refl s).operates
  · exact operates_growWith (by omega) hmax _ _

/-- The common flow grants at most once, if what it leaves to its end does. -/
theorem operates_reserveVia {α : Type} (hs : s.inner.gc.reserved ≤ usizeMax)
    (roots : List (ℕ × RefKind)) (charge : ℕ) (done : α) {grow : Store → Outcome α}
    (hgrow : ∀ s : Store, s.inner.gc.reserved ≤ usizeMax → Operates s (grow s).1) :
    Operates s (s.reserveVia roots charge done grow).1 := by
  have hfree : ∀ {s : Store}, s.inner.gc.reserved ≤ usizeMax →
      s.inner.gc.isFreeGrant (s.desiredReservation charge) = true →
      Operates s (s.grant (s.desiredReservation charge)).2 := fun hs h =>
    Granting.operates (.free h) (le_desiredReservation hs charge) (desiredReservation_le _ charge)
  unfold reserveVia
  split
  · exact (Work.refl s).operates
  · split
    · rename_i h
      exact hfree hs h
    · have hcollect := Work.collect s roots
      have hs' := hcollect.budget.reserved.trans_le hs
      rcases hr : s.gcCollect roots with ⟨s', e | _⟩
      · rw [hr] at hcollect
        exact hcollect.operates
      · rw [hr] at hcollect hs'
        refine .before hcollect ?_
        simp only [Outcome.andThen]
        split
        · exact (Work.refl s').operates
        · split
          · rename_i h
            exact hfree hs' h
          · exact hgrow s' hs'

theorem operates_gcReserve (hs : s.inner.gc.reserved ≤ usizeMax) (roots : List (ℕ × RefKind))
    (charge : ℕ) : Operates s (s.gcReserve roots charge).1 := by
  rw [gcReserve_eq]
  exact operates_reserveVia hs _ _ _ fun s _ => (Work.refl s).operates

theorem operates_gcReserveHost (hs : s.inner.gc.reserved ≤ usizeMax) (roots : List (ℕ × RefKind))
    (charge : ℕ) (limiter : Limiter) : Operates s (s.gcReserveHost roots charge limiter).1 := by
  rw [gcReserveHost_eq]
  exact operates_reserveVia hs _ _ _ fun s _ => operates_growGc (s.desiredReservation_le charge) _ _

theorem operates_gcReserveHostAsync (hs : s.inner.gc.reserved ≤ usizeMax)
    (roots : List (ℕ × RefKind)) (charge : ℕ) (limiter : Limiter) :
    Operates s (s.gcReserveHostAsync roots charge limiter).1 := by
  rw [gcReserveHostAsync_eq]
  exact operates_reserveVia hs _ _ _ fun s hs =>
    operates_growWith (le_desiredReservation hs _) (s.desiredReservation_le charge) _ _

/-- An instruction that allocates once its charge is reserved. -/
theorem operates_reserved (hacc : Accounted s.inner) (hs : s.inner.gc.reserved ≤ usizeMax)
    (roots : List (ℕ × RefKind)) {charge : ℕ} {f : Store → Outcome ℕ}
    (hf : ∀ s' : Store, s'.inner.gc.fits charge = true → Work s' (f s').1) :
    Operates s (reserved (s.gcReserve roots charge) f).1 := by
  refine (operates_gcReserve hs roots charge).andThen fun grow hgrow => ?_
  cases grow with
  | some grow => exact .refl _
  | none =>
    exact (hf _ ((gcReserve_spec hacc roots charge).2 hgrow)).andThen fun _ => .refl _

/-! ## The operations -/

/-- The growths an operation asks for are `usize`s. -/
def StoreOp.Machine (op : StoreOp) : Prop :=
  ∀ grow limiter, op = .growGc grow limiter → grow.reservedTarget ≤ usizeMax

theorem operates_guestNew (hacc : Accounted s.inner) (hs : s.inner.gc.reserved ≤ usizeMax)
    (roots : List (ℕ × RefKind)) (op : AllocOp) : Operates s (s.guestNew roots op).1 := by
  unfold guestNew
  split
  · exact (Work.refl s).operates
  · rename_i charge hcharge
    refine operates_reserved hacc hs roots fun s' hfits => .onInner fun i inner h => ?_
    obtain ⟨o, ho, ha⟩ := bind_ok_iff.mp h
    rw [← charge_eq_byteSize hcharge ho] at hfits
    exact .event (StoreInner.allocGc_event ha (GcHeap.fits_iff.mp hfits).1)

theorem operates_hostNew (hacc : Accounted s.inner) (hs : s.inner.gc.reserved ≤ usizeMax)
    (isAsync : Bool) (roots : List (ℕ × RefKind)) (typeId : CanonicalTypeId) (kind : ObjKind)
    (data : List UInt8) (limiter : Limiter) :
    Operates s (s.hostNew isAsync roots typeId kind data limiter).1 := by
  unfold hostNew
  have hreserve : Operates s (if isAsync = true then
      s.gcReserveHostAsync roots (objectCharge data.length) limiter else
      s.gcReserveHost roots (objectCharge data.length) limiter).1 := by
    split
    · exact operates_gcReserveHostAsync hs _ _ _
    · exact operates_gcReserveHost hs _ _ _
  refine hreserve.andThen fun _ _ => .onInner fun i inner h => ?_
  obtain ⟨body, hb, ha⟩ := bind_ok_iff.mp h
  obtain ⟨rfl, hroom⟩ := hostBody_ok hb
  refine .event (StoreInner.allocGc_event ha ?_)
  rw [(hreserve.events.accounted hacc).used, GcObject.byteSize, ← Nat.add_assoc]
  exact hroom

/-- **Every operation changes its store's arenas, and grants at most once.** -/
theorem run_operates (hacc : Accounted s.inner) (hs : s.inner.gc.reserved ≤ usizeMax)
    {op : StoreOp} (hop : op.Machine) : Operates s (s.run op).1 := by
  have hskip : ∀ {α : Type} {r : Outcome α} {f : α → Option Alloc},
      Operates s r.1 → Operates s (r.andThen fun s a => (s, .ok (f a))).1 :=
    fun h => h.andThen fun _ _ => .refl _
  cases op with
  | guestNew roots op => exact hskip (operates_guestNew hacc hs roots op)
  | guestThrow roots entity =>
    exact hskip (operates_reserved hacc hs roots fun s' _ => .onInner fun i inner h =>
      .event (StoreInner.allocExn_event h))
  | externConvertAny v =>
    refine hskip (Work.operates (.onInner fun _ _ h => ?_))
    rcases StoreInner.externConvertAny_cases h with rfl | ⟨e, i, hp⟩
    · exact .refl s
    · exact .event (StoreInner.pushExtern_event hp)
  | anyConvertExtern v =>
    refine hskip (Work.operates (.onInner fun _ _ h => ?_))
    rcases StoreInner.anyConvertExtern_cases h with rfl | ⟨o, i, hp⟩
    · exact .refl s
    · exact .event (StoreInner.allocGcUnreserved_event hp)
  | growGc grow limiter => exact hskip (operates_growGc (hop grow limiter rfl) _ _)
  | hostNew isAsync roots typeId kind data limiter =>
    exact hskip (operates_hostNew hacc hs isAsync roots typeId kind data limiter)
  | hostExtern roots payload limiter =>
    exact hskip ((operates_gcReserveHost hs _ _ _).andThen fun _ _ => .onInner fun i inner h =>
      .event (StoreInner.pushExtern_event h))
  | hostExn roots entity limiter =>
    exact hskip ((operates_gcReserveHost hs _ _ _).andThen fun _ _ => .onInner fun i inner h =>
      .event (StoreInner.allocExn_event h))
  | constNew object =>
    exact hskip (Work.operates (.onInner fun i inner h =>
      .event (StoreInner.allocGcUnreserved_event h)))
  | collect roots => exact hskip (Work.collect s roots).operates
  | writeBody index data =>
    exact Work.operates (.inner (.single (.write index data)) ⟨rfl, rfl⟩)
  | pushGcRoot handle kind =>
    exact Work.operates (.inner (.single (.other ⟨rfl, rfl, rfl, rfl, rfl, rfl⟩)) ⟨rfl, rfl⟩)
  | truncateGcRoots mark =>
    exact Work.operates (.inner (.single (.other ⟨rfl, rfl, rfl, rfl, rfl, rfl⟩)) ⟨rfl, rfl⟩)
  | setEntities engine globals tables elems pendingException =>
    exact Work.operates (.inner (.single (.other ⟨rfl, rfl, rfl, rfl, rfl, rfl⟩)) ⟨rfl, rfl⟩)

theorem Operates.reserved_le (hs : s.inner.gc.reserved ≤ usizeMax) (h : Operates s s') :
    s'.inner.gc.reserved ≤ usizeMax := by
  obtain ⟨granted, h⟩ := h
  cases h with
  | quiet h => exact h.budget.reserved.trans_le hs
  | denied h h' => exact (h'.budget.reserved.trans h.budget.reserved).trans_le hs
  | granted _ _ _ hmax h' => exact h'.budget.reserved.trans_le hmax

end Store

namespace EngineGc

/-! ## Operations of several stores -/

/-- What a store has still to do of the operation it is in, which ends in the store `s'`. -/
inductive Rest where
  | none
  | grant (target : ℕ) (s' : Store)
  | addGcCommitted (s' : Store)
  /-- To post, if the total is above the threshold, and then the work behind the grant. -/
  | finish (s' : Store)

/-- What the operation ends in. -/
def Rest.ending (s : Store) : Rest → Store
  | .none => s
  | .grant _ s' | .addGcCommitted s' | .finish s' => s'

/-- The stores of an engine with what is left of each one's operation, and the operations each has
begun. -/
structure Threads where
  engine : EngineGc
  rest : ℕ → Rest
  begun : ℕ → List Store.StoreOp

def Threads.new (collecting : Bool) (gcHeapReservation : ℕ) (threshold : Option ℕ) : Threads :=
  ⟨EngineGc.new collecting gcHeapReservation threshold, fun _ => .none, fun _ => []⟩

/-- One atomic step of one store, with its part in that store's operation. -/
inductive Move (t : Threads) : Act → Threads → Prop where
  | newStore {types g} (h : t.engine.step (.newStore types) = some g) :
      Move t (.newStore types) ⟨g, Function.update t.rest t.engine.members.length .none,
        Function.update t.begun t.engine.members.length []⟩
  /-- An operation that grants nothing is one step. -/
  | quiet {i m op g} (hrest : t.rest i = .none) (hm : entry t.engine.members i = some m)
      (hop : op.Machine) (hquiet : m.store.Operated none (m.store.run op).1)
      (h : t.engine.step (.work i (m.store.run op).1) = some g) :
      Move t (.work i (m.store.run op).1)
        ⟨g, t.rest, Function.update t.begun i (t.begun i ++ [op])⟩
  /-- One that grants does what comes before its grant. -/
  | begins {i m op s₂ target g} (hrest : t.rest i = .none) (hm : entry t.engine.members i = some m)
      (hop : op.Machine) (hgrants : m.store.Operated (some (s₂, target)) (m.store.run op).1)
      (h : t.engine.step (.work i s₂) = some g) :
      Move t (.work i s₂) ⟨g, Function.update t.rest i (.grant target (m.store.run op).1),
        Function.update t.begun i (t.begun i ++ [op])⟩
  | grants {i target s' g} (hrest : t.rest i = .grant target s')
      (h : t.engine.step (.grant i target) = some g) :
      Move t (.grant i target) ⟨g, Function.update t.rest i (.addGcCommitted s'), t.begun⟩
  | adds {i s' g} (hrest : t.rest i = .addGcCommitted s')
      (h : t.engine.step (.addGcCommitted i) = some g) :
      Move t (.addGcCommitted i) ⟨g, Function.update t.rest i (.finish s'), t.begun⟩
  | posts {i s' g} (hrest : t.rest i = .finish s') (h : t.engine.step (.post i) = some g) :
      Move t (.post i) ⟨g, t.rest, t.begun⟩
  | finishes {i s' g} (hrest : t.rest i = .finish s') (h : t.engine.step (.work i s') = some g) :
      Move t (.work i s') ⟨g, Function.update t.rest i .none, t.begun⟩
  | services {i g} (hrest : t.rest i = .none) (h : t.engine.step (.serviceGcPressure i) = some g) :
      Move t (.serviceGcPressure i) ⟨g, t.rest, t.begun⟩
  /-- The collection for a mark is an operation like any other. -/
  | collects {i roots g} (hrest : t.rest i = .none)
    (h : t.engine.step (.collect i roots) = some g) :
      Move t (.collect i roots) ⟨g, t.rest,
        Function.update t.begun i (t.begun i ++ [.collect roots])⟩
  | subs {i g} (hrest : t.rest i = .none) (h : t.engine.step (.subGcCommitted i) = some g) :
      Move t (.subGcCommitted i) ⟨g, t.rest, t.begun⟩
  | drops {i g} (hrest : t.rest i = .none) (h : t.engine.step (.dropFields i) = some g) :
      Move t (.dropFields i) ⟨g, t.rest, t.begun⟩

/-- Steps of the stores in any order. -/
inductive Moves : Threads → List Act → Threads → Prop where
  | nil (t : Threads) : Moves t [] t
  | cons {t₁ t₂ t₃ a as} (h : Move t₁ a t₂) (hrest : Moves t₂ as t₃) : Moves t₁ (a :: as) t₃

theorem Move.step {t t' : Threads} {a : Act} (h : Move t a t') :
    t.engine.step a = some t'.engine := by
  cases h <;> assumption

theorem Moves.run {t t' : Threads} {as : List Act} (h : Moves t as t') :
    t.engine.run as = some t'.engine := by
  induction h with
  | nil => rfl
  | cons h _ ih =>
    show (EngineGc.step _ _).bind _ = _
    rw [h.step]
    exact ih

/-! ## What a store and its operation agree on -/

/-- Where the store is in its operation. -/
def Rest.At (m : Member) : Rest → Prop
  | .none => m.phase = .idle ∨ m.phase = .taken ∨ m.phase = .dropping
  | .grant target s' => m.phase = .idle ∧ m.reserved ≤ target ∧ s'.inner.gc.reserved = target
  | .addGcCommitted s' => (∃ delta, m.phase = .adding delta) ∧ s'.inner.gc.reserved = m.reserved
  | .finish s' => (m.phase = .posting ∨ m.phase = .idle) ∧ s'.inner.gc.reserved = m.reserved

/-- A store's operation ends in what the operations it has begun make of a new store. -/
structure Thread (collecting : Bool) (gcHeapReservation : ℕ) (m : Member) (rest : Rest)
    (ops : List Store.StoreOp) : Prop where
  at_rest : rest.At m
  machine : ∀ op ∈ ops, op.Machine
  ending : ∃ types,
    rest.ending m.store = (Store.new types collecting gcHeapReservation).runAll ops

/-- The invariant of the stores and their operations. -/
structure Threads.Inv (collecting : Bool) (gcHeapReservation : ℕ) (t : Threads) : Prop where
  settings : t.engine.collecting = collecting ∧ t.engine.gcHeapReservation = gcHeapReservation
  shared : Shared t.engine
  threads : ∀ i m, entry t.engine.members i = some m →
    Thread collecting gcHeapReservation m (t.rest i) (t.begun i)

section

variable {collecting : Bool} {gcHeapReservation : ℕ} {t t' : Threads} {g g' : EngineGc}
  {i : ℕ} {m m' : Member} {a : Act}

theorem Stepped.settings (h : Stepped g a g') :
    g'.collecting = g.collecting ∧ g'.gcHeapReservation = g.gcHeapReservation := by
  cases h <;> exact ⟨rfl, rfl⟩

/-- A store's step leaves the others' stores and phases. -/
theorem Stepped.others (h : Stepped g a g') (ha : a.actor = some i) {j : ℕ} (hj : j ≠ i)
    (hm : entry g'.members j = some m') :
    ∃ m, entry g.members j = some m ∧ m'.store = m.store ∧ m'.phase = m.phase := by
  have hset : ∀ {e : EngineGc} {k : ℕ} {n : Member} {o : Option Member},
      e.members = g.members → entry g.members k = some n → some k = some i →
      entry (e.setMember k o).members j = entry g.members j := by
    intro e k n o hg hn hk
    obtain rfl := Option.some.inj hk
    rw [entry_setMember (hg ▸ hn), if_neg hj, hg]
  cases h with
  | newStore => nomatch ha
  | @post k n hn hp =>
    change entry (g.gcRequests.foldl postTo
      (g.setMember k (some { n with phase := .idle })).members) j = some m' at hm
    rw [entry_foldl_postTo, hset rfl hn ha] at hm
    split at hm
    · obtain ⟨n', hn', rfl⟩ := Option.map_eq_some_iff.mp hm
      exact ⟨n', hn', rfl, rfl⟩
    · exact ⟨m', hm, rfl, rfl⟩
  | pass => exact ⟨m', hm, rfl, rfl⟩
  | grant hn | work hn | take hn | collect hn | dropFields hn =>
    exact ⟨m', (hset rfl hn ha).symm.trans hm, rfl, rfl⟩
  | addGcCommitted hn | subGcCommitted hn =>
    exact ⟨m', (hset (e := { g with gcCommitted := _ }) rfl hn ha).symm.trans hm, rfl, rfl⟩

theorem entry_own (hm : entry g.members i = some m) (o : Option Member) :
    entry (g.setMember i o).members i = o := (entry_setMember hm o i).trans (if_pos rfl)

section

variable {rest rest' : Rest} {ops : List Store.StoreOp} {op : Store.StoreOp}

/-- The next step of an operation. -/
theorem Thread.moves (h : Thread collecting gcHeapReservation m rest ops) (hat : rest'.At m')
    (hend : rest'.ending m'.store = rest.ending m.store) :
    Thread collecting gcHeapReservation m' rest' ops :=
  ⟨hat, h.machine, hend ▸ h.ending⟩

/-- The first step of the next operation. -/
theorem Thread.begins (h : Thread collecting gcHeapReservation m .none ops) (hop : op.Machine)
    (hat : rest'.At m') (hend : rest'.ending m'.store = (m.store.run op).1) :
    Thread collecting gcHeapReservation m' rest' (ops ++ [op]) := by
  obtain ⟨types, hall⟩ := h.ending
  refine ⟨hat, fun op' h' => ?_, types, ?_⟩
  · rcases List.mem_append.mp h' with h' | h'
    · exact h.machine op' h'
    · exact List.mem_singleton.mp h' ▸ hop
  · rw [hend, Store.runAll, List.foldl_append]
    exact congrArg (fun s => (Store.run s op).1) hall

end

/-- A store's step changes its own operation only. -/
theorem Threads.Inv.own (hi : t.Inv collecting gcHeapReservation)
    (h : t.engine.step a = some g') (ha : a.actor = some i) {rest : ℕ → Rest}
    {begun : ℕ → List Store.StoreOp} (hrest : ∀ j, j ≠ i → rest j = t.rest j)
    (hbegun : ∀ j, j ≠ i → begun j = t.begun j)
    (hown : ∀ m', entry g'.members i = some m' →
      Thread collecting gcHeapReservation m' (rest i) (begun i)) :
    Threads.Inv collecting gcHeapReservation ⟨g', rest, begun⟩ := by
  have hstep := stepped_of_step h
  obtain ⟨hc, hr⟩ := hstep.settings
  refine ⟨⟨hc.trans hi.settings.1, hr.trans hi.settings.2⟩, hi.shared.step hstep, ?_⟩
  intro j m' hm'
  by_cases hj : j = i
  · subst hj
    exact hown m' hm'
  · obtain ⟨m, hm, hstore, hphase⟩ := hstep.others ha hj hm'
    have hthread := hi.threads j m hm
    rw [← hrest j hj, ← hbegun j hj] at hthread
    refine hthread.moves ?_ (congrArg ((rest j).ending ·) hstore)
    have hat := hthread.at_rest
    unfold Rest.At Member.reserved at hat ⊢
    rw [hstore, hphase]
    exact hat

theorem run_collect (s : Store) (roots : List (ℕ × RefKind)) :
    (s.run (.collect roots)).1 = (s.gcCollect roots).1 := by
  show ((s.gcCollect roots).andThen fun s _ => (s, .ok none)).1 = _
  obtain ⟨s', e | a⟩ := s.gcCollect roots
  · rfl
  · rfl

/-- Work is all that happens to the store that does it. -/
theorem work_own {s' : Store} (h : g.step (.work i s') = some g')
    (hm : entry g.members i = some m) (hm' : entry g'.members i = some m') :
    m' = { m with store := s' } ∧ m.phase = .idle := by
  cases stepped_of_step h with
  | work hn hp =>
    obtain rfl := Option.some.inj (hn.symm.trans hm)
    exact ⟨(Option.some.inj ((entry_own hm _).symm.trans hm')).symm, hp⟩

/-- A new store has begun nothing. -/
theorem Threads.Inv.newStore {types : TypeRegistry} (hi : t.Inv collecting gcHeapReservation)
    (h : t.engine.step (.newStore types) = some g') :
    Threads.Inv collecting gcHeapReservation
      ⟨g', Function.update t.rest t.engine.members.length .none,
        Function.update t.begun t.engine.members.length []⟩ := by
  have hstep := stepped_of_step h
  have hshared := hi.shared.step hstep
  cases hstep
  refine ⟨hi.settings, hshared, fun j n hn => ?_⟩
  rw [entry_append] at hn
  dsimp only
  split at hn
  · rename_i hj
    subst hj
    obtain rfl := Option.some.inj hn
    rw [Function.update_self, Function.update_self, ← hi.settings.1, ← hi.settings.2]
    exact ⟨Or.inl rfl, fun _ h => (nomatch h), types, rfl⟩
  · rename_i hj
    rw [Function.update_of_ne hj, Function.update_of_ne hj]
    exact hi.threads j n hn

/-- After a post the operation has as much left as before. -/
theorem Threads.Inv.posts {s' : Store} (hi : t.Inv collecting gcHeapReservation)
    (hrest : t.rest i = .finish s') (h : t.engine.step (.post i) = some g')
    (hm' : entry g'.members i = some m') :
    Thread collecting gcHeapReservation m' (t.rest i) (t.begun i) := by
  cases stepped_of_step h with
  | @post _ m hm hp =>
    have hmark : m'.store = m.store ∧ m'.phase = .idle := by
      change entry (t.engine.gcRequests.foldl postTo
        (t.engine.setMember i (some { m with phase := .idle })).members) i = some m' at hm'
      rw [entry_foldl_postTo, entry_own hm] at hm'
      split at hm' <;> exact Option.some.inj hm' ▸ ⟨rfl, rfl⟩
    have hthread := hi.threads i m hm
    rw [hrest] at hthread ⊢
    refine hthread.moves ⟨Or.inr hmark.2, ?_⟩ rfl
    rw [Member.reserved, hmark.1]
    exact hthread.at_rest.2

/-- **The step lemma.** -/
theorem Threads.Inv.move (hi : t.Inv collecting gcHeapReservation) (h : Move t a t') :
    t'.Inv collecting gcHeapReservation := by
  have hold : ∀ {i m}, entry t.engine.members i = some m → t.rest i = .none →
      Thread collecting gcHeapReservation m .none (t.begun i) := fun hm hrest =>
    hrest ▸ hi.threads _ _ hm
  cases h with
  | newStore h => exact hi.newStore h
  | @quiet i m op g hrest hm hop _ h =>
    refine hi.own h rfl (fun _ _ => rfl) (fun j hj => Function.update_of_ne hj _ _) fun m' hm' => ?_
    obtain ⟨rfl, hp⟩ := work_own h hm hm'
    rw [Function.update_self, hrest]
    exact (hold hm hrest).begins hop (Or.inl hp) rfl
  | @begins i m op s₂ target g hrest hm hop hgrants h =>
    refine hi.own h rfl (fun j hj => Function.update_of_ne hj _ _)
      (fun j hj => Function.update_of_ne hj _ _) fun m' hm' => ?_
    obtain ⟨rfl, hp⟩ := work_own h hm hm'
    rw [Function.update_self, Function.update_self]
    refine (hold hm hrest).begins hop ⟨hp, ?_⟩ rfl
    cases hgrants with
    | granted _ hgrant hle _ h' =>
      exact ⟨(congrArg (·.gc.reserved) hgrant.reserved.1).trans_le hle, h'.budget.reserved⟩
  | @grants i target s' g hrest h =>
    refine hi.own h rfl (fun j hj => Function.update_of_ne hj _ _) (fun _ _ => rfl) fun m' hm' => ?_
    cases stepped_of_step h with
    | @grant _ _ m hm hp hle =>
      obtain rfl := Option.some.inj ((entry_own hm _).symm.trans hm')
      have hthread := hi.threads i m hm
      rw [hrest] at hthread
      rw [Function.update_self]
      exact hthread.moves ⟨⟨_, rfl⟩, hthread.at_rest.2.2⟩ rfl
  | @adds i s' g hrest h =>
    refine hi.own h rfl (fun j hj => Function.update_of_ne hj _ _) (fun _ _ => rfl) fun m' hm' => ?_
    cases stepped_of_step h with
    | @addGcCommitted _ delta m hm hp phase hphase =>
      obtain rfl := Option.some.inj
        ((entry_own (g := { t.engine with gcCommitted := _ }) hm _).symm.trans hm')
      have hthread := hi.threads i m hm
      rw [hrest] at hthread
      rw [Function.update_self]
      refine hthread.moves ⟨?_, hthread.at_rest.2⟩ rfl
      show phase = .posting ∨ phase = .idle
      rw [hphase]
      split
      · exact Or.inl rfl
      · exact Or.inr rfl
  | posts hrest h =>
    exact hi.own h rfl (fun _ _ => rfl) (fun _ _ => rfl) fun m' hm' => hi.posts hrest h hm'
  | @finishes i s' g hrest h =>
    refine hi.own h rfl (fun j hj => Function.update_of_ne hj _ _) (fun _ _ => rfl) fun m' hm' => ?_
    cases stepped_of_step h with
    | @work _ m _ hm hp hres =>
      obtain rfl := Option.some.inj ((entry_own hm _).symm.trans hm')
      have hthread := hi.threads i m hm
      rw [hrest] at hthread
      rw [Function.update_self]
      exact hthread.moves (Or.inl hp) rfl
  | @services i g hrest h =>
    refine hi.own h rfl (fun _ _ => rfl) (fun _ _ => rfl) fun m' hm' => ?_
    cases stepped_of_step h with
    | take hm hp =>
      obtain rfl := Option.some.inj ((entry_own hm _).symm.trans hm')
      rw [hrest]
      exact (hold hm hrest).moves (Or.inr (Or.inl rfl)) rfl
    | pass hm hp => exact hi.threads i m' hm'
  | @collects i roots g hrest h =>
    refine hi.own h rfl (fun _ _ => rfl) (fun j hj => Function.update_of_ne hj _ _) fun m' hm' => ?_
    cases stepped_of_step h with
    | @collect _ m _ hm hp =>
      obtain rfl := Option.some.inj ((entry_own hm _).symm.trans hm')
      rw [Function.update_self, hrest]
      have hop : Store.StoreOp.Machine (.collect roots) := fun _ _ h => nomatch h
      refine (hold hm hrest).begins hop (Or.inl rfl) ?_
      exact (run_collect m.store roots).symm
  | @subs i g hrest h =>
    refine hi.own h rfl (fun _ _ => rfl) (fun _ _ => rfl) fun m' hm' => ?_
    cases stepped_of_step h with
    | subGcCommitted hm hp =>
      obtain rfl := Option.some.inj
        ((entry_own (g := { t.engine with gcCommitted := _ }) hm _).symm.trans hm')
      rw [hrest]
      exact (hold hm hrest).moves (Or.inr (Or.inr rfl)) rfl
  | @drops i g hrest h =>
    refine hi.own h rfl (fun _ _ => rfl) (fun _ _ => rfl) fun m' hm' => ?_
    cases stepped_of_step h with
    | dropFields hm hp => exact (nomatch (entry_own hm _).symm.trans hm')

/-- **The run lemma.** -/
theorem Threads.Inv.run {as : List Act} (hi : t.Inv collecting gcHeapReservation)
    (h : Moves t as t') : t'.Inv collecting gcHeapReservation := by
  induction h with
  | nil => exact hi
  | cons h _ ih => exact ih (hi.move h)

/-- With no operation going on the total is what the stores have reserved. -/
theorem Threads.Inv.committed (hi : t.Inv collecting gcHeapReservation)
    (hnone : ∀ i m, entry t.engine.members i = some m → t.rest i = .none) :
    t.engine.gcCommitted = t.engine.reservedTotal % 2 ^ 64 := by
  have hzero : t.engine.inFlightTotal = 0 := total_eq_zero fun i m hm => by
    have hat := (hi.threads i m hm).at_rest
    rw [hnone i m hm] at hat
    unfold Member.inFlight
    rcases hat with hp | hp | hp <;> rw [hp]
  rw [hi.shared.committed, hi.shared.reservedTotal_eq, hzero]
  rfl

end

/-! ## Any interleaving -/

end EngineGc

end SubmilliWasm
