/-
# Three reservation paths

The run loop, the host constructors and their async siblings reserve through three copies of one
flow (`src/exec/collect.rs`, `src/store/grow.rs`).  The host's two are the guest's decision with the
growth asked for in place; the guest suspends for it and executes its op once more.  They decide
alike wherever the bytes in use and those asked for have a sum at all; past that the synchronous
growth takes a full reservation for one that suffices, the asynchronous one asks for it again, and
the guest comes back to its op for ever.
-/
import SubmilliWasm.Exec.Gating

namespace SubmilliWasm

/-! ## What a path does on its way -/

/-- A collection, or a reservation the limiter is asked for. -/
inductive ReserveEvent where
  | collected
  | asked (target : ℕ)
  deriving DecidableEq, Repr

namespace Store

/-- The limiter is asked, where there is one. -/
def askEvents (target : ℕ) : Limiter → List ReserveEvent
  | .none => []
  | _ => [.asked target]

def growGcReservationEvents (s : Store) (target : ℕ) (limiter : Limiter) : List ReserveEvent :=
  if target ≤ s.inner.gc.reserved then [] else askEvents target limiter

def reserveHostGrowEvents (s : Store) (charge : ℕ) (limiter : Limiter) : List ReserveEvent :=
  let target := s.desiredReservation charge
  if s.inner.gc.isFreeGrant target then [] else s.growGcReservationEvents target limiter

def reserveHostGrowAsyncEvents (s : Store) (charge : ℕ) (limiter : Limiter) : List ReserveEvent :=
  let target := s.desiredReservation charge
  if s.inner.gc.isFreeGrant target then [] else askEvents target limiter

/-- What follows a collection. -/
def collectEvents (s : Store) (roots : List (ℕ × RefKind)) (f : Store → List ReserveEvent) :
    List ReserveEvent :=
  .collected ::
    match s.gcCollect roots with
    | (_, .error _) => []
    | (s, .ok ()) => f s

def gcReserveEvents (s : Store) (stackRoots : List (ℕ × RefKind)) (charge : ℕ) :
    List ReserveEvent :=
  if s.inner.gc.fits charge then []
  else if !s.inner.gc.isFreeGrant (s.desiredReservation charge) && s.inner.gc.collecting then
    s.collectEvents stackRoots fun _ => []
  else []

def gcReserveHostEvents (s : Store) (execRoots : List (ℕ × RefKind)) (charge : ℕ)
    (limiter : Limiter) : List ReserveEvent :=
  if s.inner.gc.fits charge then []
  else if !s.inner.gc.isFreeGrant (s.desiredReservation charge) && s.inner.gc.collecting then
    s.collectEvents execRoots fun s =>
      if s.inner.gc.fits charge then [] else s.reserveHostGrowEvents charge limiter
  else s.reserveHostGrowEvents charge limiter

def gcReserveHostAsyncEvents (s : Store) (execRoots : List (ℕ × RefKind)) (charge : ℕ)
    (limiter : Limiter) : List ReserveEvent :=
  if s.inner.gc.fits charge then []
  else if !s.inner.gc.isFreeGrant (s.desiredReservation charge) && s.inner.gc.collecting then
    s.collectEvents execRoots fun s =>
      if s.inner.gc.fits charge then [] else s.reserveHostGrowAsyncEvents charge limiter
  else s.reserveHostGrowAsyncEvents charge limiter

/-- The guest's path, executing its op at most `n` times: a suspension is served by the driver,
through the synchronous growth in an async store as well. -/
def guestReserve (roots : List (ℕ × RefKind)) (charge : ℕ) (limiter : Limiter) :
    ℕ → Store → Option (Outcome Unit × List ReserveEvent)
  | 0, _ => none
  | n + 1, s =>
    let events := s.gcReserveEvents roots charge
    match s.gcReserve roots charge with
    | (s, .error e) => some ((s, .error e), events)
    | (s, .ok none) => some ((s, .ok ()), events)
    | (s, .ok (some grow)) =>
      let asked := s.growGcReservationEvents grow.reservedTarget limiter
      match s.growGcReservation grow.reservedTarget grow.bytesNeeded limiter with
      | (s, .error e) => some ((s, .error e), events ++ asked)
      | (s, .ok ()) =>
        (guestReserve roots charge limiter n s).map fun r => (r.1, events ++ asked ++ r.2)

/-- The three paths run a collection in the same cases, ask for the same reservation and end in
the same store, or with the same error. -/
def ReserveAlike (s : Store) (roots : List (ℕ × RefKind)) (charge : ℕ) (limiter : Limiter) :
    Prop :=
  (∃ n, guestReserve roots charge limiter n s =
    some (s.gcReserveHost roots charge limiter, s.gcReserveHostEvents roots charge limiter)) ∧
  s.gcReserveHostAsync roots charge limiter = s.gcReserveHost roots charge limiter ∧
  s.gcReserveHostAsyncEvents roots charge limiter = s.gcReserveHostEvents roots charge limiter

/-! ## The host's paths are the guest's decision -/

variable {grow : GcGrow} {s' : Store}

/-- Where the growth is decided. -/
theorem gcReserve_grow {s : Store} {roots : List (ℕ × RefKind)} {charge : ℕ}
    (h : s.gcReserve roots charge = (s', .ok (some grow))) :
    grow = ⟨s'.desiredReservation charge, charge⟩ ∧ s'.inner.gc.fits charge = false ∧
      s'.inner.gc.isFreeGrant (s'.desiredReservation charge) = false := by
  have hgrow : ∀ {s : Store}, s.inner.gc.fits charge = false →
      s.reserveGrow charge = (s', .ok (some grow)) →
      grow = ⟨s'.desiredReservation charge, charge⟩ ∧ s'.inner.gc.fits charge = false ∧
        s'.inner.gc.isFreeGrant (s'.desiredReservation charge) = false := by
    intro s hfits h
    unfold reserveGrow at h
    dsimp only at h
    split at h
    · exact (nomatch (Prod.mk.inj h).2)
    · rename_i hfree
      obtain ⟨rfl, hgrow⟩ := Prod.mk.inj h
      exact ⟨(Option.some.inj (Except.ok.inj hgrow)).symm, hfits, Bool.eq_false_iff.mpr hfree⟩
  unfold gcReserve at h
  split at h
  · exact (nomatch (Prod.mk.inj h).2)
  · rename_i hfits
    split at h
    · rcases hcollect : s.gcCollect roots with ⟨s1, e | _⟩
      · rw [hcollect] at h
        exact (nomatch (Prod.mk.inj h).2)
      · rw [hcollect] at h
        dsimp only [Outcome.andThen] at h
        split at h
        · exact (nomatch (Prod.mk.inj h).2)
        · rename_i hfits'
          exact hgrow (Bool.eq_false_iff.mpr hfits') h
    · exact hgrow (Bool.eq_false_iff.mpr hfits) h

variable (s : Store) (roots : List (ℕ × RefKind)) (charge : ℕ) (limiter : Limiter)

/-- The rest of the host's path. -/
def growInPlace (r : Outcome (Option GcGrow)) (grow : Store → GcGrow → Outcome Unit) :
    Outcome Unit :=
  r.andThen fun s g =>
    match g with
    | none => (s, .ok ())
    | some g => grow s g

/-- The events of the rest. -/
def growInPlaceEvents (r : Outcome (Option GcGrow)) (grow : Store → GcGrow → List ReserveEvent) :
    List ReserveEvent :=
  match r with
  | (s, .ok (some g)) => grow s g
  | _ => []

theorem gcReserveHost_decision : s.gcReserveHost roots charge limiter =
    growInPlace (s.gcReserve roots charge) fun s g =>
      s.growGcReservation g.reservedTarget g.bytesNeeded limiter := by
  have hgrow : ∀ s : Store, s.reserveHostGrow charge limiter =
      growInPlace (s.reserveGrow charge) fun s g =>
        s.growGcReservation g.reservedTarget g.bytesNeeded limiter := by
    intro s
    unfold reserveHostGrow reserveGrow
    dsimp only
    split <;> rfl
  unfold gcReserveHost gcReserve
  split
  · rfl
  · split
    · rcases s.gcCollect roots with ⟨s1, e | _⟩
      · rfl
      · dsimp only [Outcome.andThen]
        split
        · rfl
        · exact hgrow s1
    · exact hgrow s

theorem gcReserveHostAsync_decision : s.gcReserveHostAsync roots charge limiter =
    growInPlace (s.gcReserve roots charge) fun s g =>
      s.growWith g.reservedTarget g.bytesNeeded limiter.askAsync := by
  have hgrow : ∀ s : Store, s.reserveHostGrowAsync charge limiter =
      growInPlace (s.reserveGrow charge) fun s g =>
        s.growWith g.reservedTarget g.bytesNeeded limiter.askAsync := by
    intro s
    unfold reserveHostGrowAsync reserveGrow
    dsimp only
    split <;> rfl
  unfold gcReserveHostAsync gcReserve
  split
  · rfl
  · split
    · rcases s.gcCollect roots with ⟨s1, e | _⟩
      · rfl
      · dsimp only [Outcome.andThen]
        split
        · rfl
        · exact hgrow s1
    · exact hgrow s

theorem gcReserveHostEvents_decision : s.gcReserveHostEvents roots charge limiter =
    s.gcReserveEvents roots charge ++ growInPlaceEvents (s.gcReserve roots charge)
      fun s g => s.growGcReservationEvents g.reservedTarget limiter := by
  have hgrow : ∀ s : Store, s.reserveHostGrowEvents charge limiter =
      growInPlaceEvents (s.reserveGrow charge) fun s g =>
        s.growGcReservationEvents g.reservedTarget limiter := by
    intro s
    unfold reserveHostGrowEvents reserveGrow
    dsimp only
    split <;> rfl
  unfold gcReserveHostEvents gcReserveEvents gcReserve collectEvents
  split
  · rfl
  · split
    · rcases s.gcCollect roots with ⟨s1, e | _⟩
      · rfl
      · dsimp only [Outcome.andThen]
        rw [List.cons_append, List.nil_append]
        split
        · rfl
        · rw [hgrow s1]
    · exact hgrow s

theorem gcReserveHostAsyncEvents_decision : s.gcReserveHostAsyncEvents roots charge limiter =
    s.gcReserveEvents roots charge ++ growInPlaceEvents (s.gcReserve roots charge)
      fun _ g => askEvents g.reservedTarget limiter := by
  have hgrow : ∀ s : Store, s.reserveHostGrowAsyncEvents charge limiter =
      growInPlaceEvents (s.reserveGrow charge) fun _ g =>
        askEvents g.reservedTarget limiter := by
    intro s
    unfold reserveHostGrowAsyncEvents reserveGrow
    dsimp only
    split <;> rfl
  unfold gcReserveHostAsyncEvents gcReserveEvents gcReserve collectEvents
  split
  · rfl
  · split
    · rcases s.gcCollect roots with ⟨s1, e | _⟩
      · rfl
      · dsimp only [Outcome.andThen]
        rw [List.cons_append, List.nil_append]
        split
        · rfl
        · rw [hgrow s1]
    · exact hgrow s

/-! ## Where the paths agree -/

/-- No limiter, or a synchronous one with its answer. -/
def Limiter.ofSync (answer : Option (Except StoreError Bool)) : Limiter := answer.elim .none .sync

/-- The bytes in use and those asked for have no sum, and the reservation is full or will be. -/
def Saturated (s : Store) (charge : ℕ) (limiter : Limiter) : Prop :=
  usizeMax < s.inner.gc.used + charge ∧
    (usizeMax ≤ s.inner.gc.reserved ∨ limiter.ask = .ok (some true))

variable {s : Store} {roots : List (ℕ × RefKind)} {charge : ℕ} {limiter : Limiter}

theorem desiredReservation_saturated (h : usizeMax < s.inner.gc.used + charge) :
    s.desiredReservation charge = usizeMax := by
  unfold desiredReservation saturatingAdd
  omega

/-- What does not fit, but has a sum, asks for more than is reserved. -/
theorem lt_desiredReservation (hfits : s.inner.gc.fits charge = false)
    (hsum : s.inner.gc.used + charge ≤ usizeMax) :
    s.inner.gc.reserved < s.desiredReservation charge ∧
      s.inner.gc.used + charge ≤ s.desiredReservation charge := by
  have hover : ¬ (s.inner.gc.used + charge ≤ usizeMax ∧
      s.inner.gc.used + charge ≤ s.inner.gc.reserved) := by
    intro h
    rw [GcHeap.fits_iff.mpr h] at hfits
    nomatch hfits
  unfold desiredReservation saturatingAdd
  omega

/-- A growth that succeeds has reserved its target. -/
theorem growWith_ok {target bytesNeeded : ℕ} {answer : Except StoreError (Option Bool)}
    (h : s.growWith target bytesNeeded answer = (s', .ok ())) :
    s'.inner = { s.inner with gc := { s.inner.gc with reserved := target } } := by
  unfold growWith at h
  split at h
  · exact (nomatch (Prod.mk.inj h).2)
  · split at h
    · rw [← (Prod.mk.inj h).1]
      rfl
    · exact (nomatch (Prod.mk.inj h).2)
  · dsimp only at h
    split at h
    · rw [← (Prod.mk.inj h).1]
      rfl
    · exact (nomatch (Prod.mk.inj h).2)

theorem guestReserve_error {e : StoreError} (n : ℕ)
    (h : s.gcReserve roots charge = (s', .error e)) :
    guestReserve roots charge limiter (n + 1) s =
      some ((s', .error e), s.gcReserveEvents roots charge) := by
  unfold guestReserve
  rw [h]

theorem guestReserve_done (n : ℕ) (h : s.gcReserve roots charge = (s', .ok none)) :
    guestReserve roots charge limiter (n + 1) s =
      some ((s', .ok ()), s.gcReserveEvents roots charge) := by
  unfold guestReserve
  rw [h]

/-- One more round of the guest. -/
theorem guestReserve_grow (n : ℕ) (h : s.gcReserve roots charge = (s', .ok (some grow))) :
    guestReserve roots charge limiter (n + 1) s =
      match s'.growGcReservation grow.reservedTarget grow.bytesNeeded limiter with
      | (s'', .error e) => some ((s'', .error e), s.gcReserveEvents roots charge ++
          s'.growGcReservationEvents grow.reservedTarget limiter)
      | (s'', .ok ()) => (guestReserve roots charge limiter n s'').map fun r =>
          (r.1, s.gcReserveEvents roots charge ++
            s'.growGcReservationEvents grow.reservedTarget limiter ++ r.2) := by
  simp only [guestReserve, h]

theorem gcReserve_fits (h : s.inner.gc.fits charge = true) :
    s.gcReserve roots charge = (s, .ok none) ∧ s.gcReserveEvents roots charge = [] := by
  unfold gcReserve gcReserveEvents
  rw [if_pos h, if_pos h]
  exact ⟨rfl, rfl⟩

/-- A full reservation that does not suffice is never enough for the guest, but for a collection. -/
theorem guestReserve_stuck (hsum : usizeMax < s.inner.gc.used + charge)
    (hfull : usizeMax ≤ s.inner.gc.reserved) (hfree : s.inner.gc.isFreeGrant usizeMax = false)
    (n : ℕ) {r : Outcome Unit × List ReserveEvent}
    (h : guestReserve roots charge limiter n s = some r) : r.2 ≠ [] := by
  have hdesired := desiredReservation_saturated hsum
  have hfits : ¬ s.inner.gc.fits charge = true := by
    intro hfits
    have := (GcHeap.fits_iff.mp hfits).1
    omega
  induction n generalizing r with
  | zero => nomatch h
  | succ n ih =>
    by_cases hcollecting : s.inner.gc.collecting = true
    · have hcond : (!s.inner.gc.isFreeGrant (s.desiredReservation charge) &&
          s.inner.gc.collecting) = true := by
        rw [hdesired, hfree, hcollecting]
        rfl
      have hevents : ∃ rest, s.gcReserveEvents roots charge = .collected :: rest := by
        unfold gcReserveEvents collectEvents
        rw [if_neg hfits, if_pos hcond]
        exact ⟨_, rfl⟩
      obtain ⟨rest, hevents⟩ := hevents
      intro hnil
      unfold guestReserve at h
      dsimp only at h
      rw [hevents] at h
      split at h
      · rw [← Option.some.inj h] at hnil
        nomatch hnil
      · rw [← Option.some.inj h] at hnil
        nomatch hnil
      · split at h
        · rw [← Option.some.inj h] at hnil
          nomatch hnil
        · obtain ⟨r', -, rfl⟩ := Option.map_eq_some_iff.mp h
          nomatch hnil
    · have hcond : ¬ (!s.inner.gc.isFreeGrant (s.desiredReservation charge) &&
          s.inner.gc.collecting) = true := by
        rw [Bool.and_eq_true]
        exact fun hc => hcollecting hc.2
      have hreserve : s.gcReserve roots charge = (s, .ok (some ⟨usizeMax, charge⟩)) := by
        unfold gcReserve reserveGrow
        rw [if_neg hfits, if_neg hcond, hdesired]
        dsimp only
        rw [hfree]
        rfl
      have hevents : s.gcReserveEvents roots charge = [] := by
        unfold gcReserveEvents
        rw [if_neg hfits, if_neg hcond]
      have hgrow : s.growGcReservation usizeMax charge limiter = (s, .ok ()) := by
        unfold growGcReservation
        rw [if_pos hfull]
      have hasked : s.growGcReservationEvents usizeMax limiter = [] := by
        unfold growGcReservationEvents
        rw [if_pos hfull]
      rw [guestReserve_grow n hreserve, hgrow, hevents, hasked] at h
      obtain ⟨r', hr', rfl⟩ := Option.map_eq_some_iff.mp h
      exact ih hr'

/-- **The paths decide alike** where a growth is asked for in vain or makes room. -/
theorem reserveAlike_of {answer : Option (Except StoreError Bool)}
    (h : ∀ s' grow, s.gcReserve roots charge = (s', .ok (some grow)) →
      ¬ s'.Saturated charge (.ofSync answer)) :
    s.ReserveAlike roots charge (.ofSync answer) := by
  have hask : (Limiter.ofSync answer).askAsync = (Limiter.ofSync answer).ask := by
    cases answer <;> rfl
  unfold ReserveAlike
  rw [gcReserveHost_decision, gcReserveHostAsync_decision, gcReserveHostEvents_decision,
    gcReserveHostAsyncEvents_decision, hask]
  rcases hreserve : s.gcReserve roots charge with ⟨s', e | _ | grow⟩
  · refine ⟨⟨1, ?_⟩, rfl, rfl⟩
    rw [guestReserve_error 0 hreserve]
    exact congrArg (fun l => some (_, l)) (List.append_nil _).symm
  · refine ⟨⟨1, ?_⟩, rfl, rfl⟩
    rw [guestReserve_done 0 hreserve]
    exact congrArg (fun l => some (_, l)) (List.append_nil _).symm
  · obtain ⟨rfl, hfits, hfree⟩ := gcReserve_grow hreserve
    have hroom := h s' _ hreserve
    -- The reservation is not full, so that the synchronous growth asks as well.
    have hlt : s'.inner.gc.reserved < s'.desiredReservation charge := by
      rcases Nat.lt_or_ge usizeMax (s'.inner.gc.used + charge) with hsum | hsum
      · rw [desiredReservation_saturated hsum]
        by_contra hfull
        exact hroom ⟨hsum, Or.inl (not_lt.mp hfull)⟩
      · exact (lt_desiredReservation hfits hsum).1
    have hgrow : s'.growGcReservation (s'.desiredReservation charge) charge (.ofSync answer) =
        s'.growWith (s'.desiredReservation charge) charge (Limiter.ofSync answer).ask := by
      unfold growGcReservation
      rw [if_neg (by omega)]
    have hevents : s'.growGcReservationEvents (s'.desiredReservation charge) (.ofSync answer) =
        askEvents (s'.desiredReservation charge) (.ofSync answer) := by
      unfold growGcReservationEvents
      rw [if_neg (by omega)]
    refine ⟨?_, ?_, ?_⟩
    · have hround : ∀ n, guestReserve roots charge (.ofSync answer) (n + 1) s = _ :=
        fun n => guestReserve_grow n hreserve
      dsimp only at hround
      dsimp only [growInPlace, growInPlaceEvents, Outcome.andThen]
      rw [hgrow] at hround ⊢
      rcases hanswer : s'.growWith (s'.desiredReservation charge) charge
        (Limiter.ofSync answer).ask with ⟨s'', e | _⟩
      · rw [hanswer] at hround
        exact ⟨1, hround 0⟩
      · rw [hanswer] at hround
        have hinner := growWith_ok hanswer
        -- What was granted makes room for the op, or was granted in vain.
        have hfits'' : s''.inner.gc.fits charge = true := by
          rw [hinner, GcHeap.fits_iff]
          dsimp only
          rcases Nat.lt_or_ge usizeMax (s'.inner.gc.used + charge) with hsum | hsum
          · exfalso
            refine hroom ⟨hsum, Or.inr ?_⟩
            rw [desiredReservation_saturated hsum] at hanswer
            rcases answer with _ | e | _ | _
            · exact absurd hanswer (by
                unfold growWith
                exact fun heq => (nomatch (Prod.mk.inj heq).2))
            · exact absurd hanswer fun heq => (nomatch (Prod.mk.inj heq).2)
            · exact absurd hanswer fun heq => (nomatch (Prod.mk.inj heq).2)
            · rfl
          · exact ⟨hsum, (lt_desiredReservation hfits hsum).2⟩
        obtain ⟨hdone, hnone⟩ : s''.gcReserve roots charge = _ ∧ _ := gcReserve_fits hfits''
        refine ⟨2, (hround 1).trans ?_⟩
        dsimp only
        rw [guestReserve_done 0 hdone, hnone]
        exact congrArg (fun l => some (_, l)) (List.append_nil _)
    · dsimp only [growInPlace, Outcome.andThen]
      rw [hgrow]
    · dsimp only [growInPlaceEvents]
      rw [hevents]

/-- **Where they do not**: a full reservation that does not suffice. -/
theorem not_reserveAlike_of {answer : Option (Except StoreError Bool)}
    (hreserve : s.gcReserve roots charge = (s', .ok (some grow)))
    (hsaturated : s'.Saturated charge (.ofSync answer)) :
    ¬ s.ReserveAlike roots charge (.ofSync answer) := by
  obtain ⟨hsum, hfull⟩ := hsaturated
  obtain ⟨rfl, -, hfree⟩ := gcReserve_grow hreserve
  have hdesired := desiredReservation_saturated hsum
  rw [hdesired] at hreserve hfree
  unfold ReserveAlike
  rw [gcReserveHost_decision, gcReserveHostAsync_decision, gcReserveHostEvents_decision,
    gcReserveHostAsyncEvents_decision, hreserve]
  dsimp only [growInPlace, growInPlaceEvents, Outcome.andThen]
  rintro ⟨⟨n, hguest⟩, houtcome, hevents⟩
  by_cases hreserved : usizeMax ≤ s'.inner.gc.reserved
  · -- The synchronous growth is content with what is reserved, the asynchronous one asks.
    unfold growGcReservation at houtcome
    unfold growGcReservationEvents at hevents
    rw [if_pos hreserved] at houtcome hevents
    cases answer with
    | none =>
      have hdenied : s'.growWith usizeMax charge (.ok none) =
          (s', .error (.gcHeapOutOfMemory charge)) := rfl
      exact absurd (congrArg Prod.snd (hdenied.symm.trans houtcome)) (nomatch ·)
    | some a => exact absurd (List.append_cancel_left hevents) (List.cons_ne_nil _ _)
  · have happroved := hfull.resolve_left hreserved
    cases n with
    | zero => nomatch hguest
    | succ n =>
      rw [guestReserve_grow n hreserve] at hguest
      dsimp only at hguest
      have hgrow : s'.growGcReservation usizeMax charge (.ofSync answer) =
          s'.growWith usizeMax charge (.ok (some true)) := by
        unfold growGcReservation
        rw [if_neg hreserved, happroved]
      rcases hanswer : s'.growWith usizeMax charge (.ok (some true)) with ⟨s'', e | _⟩
      · exact absurd (congrArg Prod.snd hanswer) (nomatch ·)
      · rw [hgrow, hanswer] at hguest
        obtain ⟨r, hr, heq⟩ := Option.map_eq_some_iff.mp hguest
        have hinner := growWith_ok hanswer
        refine guestReserve_stuck ?_ ?_ ?_ n hr ?_
        · rw [hinner]
          exact hsum
        · rw [hinner]
        · rw [hinner]
          exact hfree
        · have hrest : (s.gcReserveEvents roots charge ++
              s'.growGcReservationEvents usizeMax (.ofSync answer)) ++ r.2 =
              (s.gcReserveEvents roots charge ++
                s'.growGcReservationEvents usizeMax (.ofSync answer)) ++ [] := by
            rw [List.append_nil]
            exact (Prod.mk.inj heq).2
          exact List.append_cancel_left hrest

variable (s roots charge)

/-- **Three paths, one decision.**  Without a limiter or with a synchronous one, the run loop with
its retry, the host's path and its async sibling collect in the same cases, ask for the same
reservation and end in the same store or with the same failure, unless a growth is decided in a
store whose bytes in use and those asked for have no sum, with the reservation full or granted
in full. -/
theorem reserve_alike (answer : Option (Except StoreError Bool)) :
    s.ReserveAlike roots charge (.ofSync answer) ↔
      ∀ s' grow, s.gcReserve roots charge = (s', .ok (some grow)) →
        ¬ s'.Saturated charge (.ofSync answer) :=
  ⟨fun halike _ _ hreserve hsaturated => not_reserveAlike_of hreserve hsaturated halike,
    reserveAlike_of⟩

/-- A store with one empty array, whose limiter has granted a full reservation. -/
def fullStore : Store :=
  let s := Store.new .empty false 0
  let object : GcObject := ⟨0, .array, []⟩
  { s with inner := { s.inner with gc := { s.inner.gc with
      arena := (s.inner.gc.arena.alloc object).2
      used := object.byteSize
      reserved := usizeMax } } }

/-- A full reservation suffices for the synchronous path, and is asked for again by the
asynchronous one. -/
theorem not_reserveAlike_full :
    ¬ fullStore.ReserveAlike [] usizeMax (.ofSync (some (.ok false))) := by
  have hfits : fullStore.inner.gc.fits usizeMax = false := by decide +kernel
  have hfree : fullStore.inner.gc.isFreeGrant (fullStore.desiredReservation usizeMax) = false := by
    decide +kernel
  have hreserve : fullStore.gcReserve [] usizeMax =
      (fullStore, .ok (some ⟨fullStore.desiredReservation usizeMax, usizeMax⟩)) := by
    unfold gcReserve reserveGrow
    rw [hfits, hfree]
    rfl
  exact not_reserveAlike_of hreserve ⟨by decide +kernel, Or.inl (le_refl _)⟩

end Store

end SubmilliWasm
