/-
# What lies below a nested call

The activities of a store are nested: each knows where the roots, the stacks and the pending
exception stood when it began, and none reaches below that.  The invariant (`Over`) is stated
relative to any state in which the embedder's code has control, and about the state as the next
mutable use of the store will find it, when the calls that have been dropped are recovered.
-/
import SubmilliWasm.Exec.Books

namespace SubmilliWasm

open Runs StoreState

variable {σ : Type}

/-! ## Layers, one driver at a time -/

section Layers

variable {E entry e : Execution} {d : Drive} {ds l : List Drive} {st : StoreState σ} {g : Bool}

theorem LayeredOn.append (h : LayeredOn entry l e) (hE : LayeredOn E ds entry) :
    LayeredOn E (l ++ ds) e := by
  induction l generalizing e with
  | nil =>
    obtain rfl : e = entry := h
    exact hE
  | cons d l ih =>
    obtain ⟨hempty, entry', inner, hl, hb, hin, hfits⟩ := h
    exact ⟨hempty, entry', inner, ih hl, hb, hin, hfits⟩

theorem layeredOn_cons : LayeredOn E (d :: ds) e ↔
    ∃ entry, LayeredOn E ds entry ∧ LayeredOn entry [d] e := by
  constructor
  · rintro ⟨hempty, entry, inner, hentry, hb, hin, hfits⟩
    exact ⟨entry, hentry, hempty, entry, inner, rfl, hb, hin, hfits⟩
  · rintro ⟨entry, hentry, h⟩
    exact h.append hentry

theorem above_host_iff : Above E [] (⟨st, e, ds, false⟩ : State σ) ↔ LayeredOn E ds e := by
  constructor
  · intro h
    generalize hs : (⟨st, e, ds, false⟩ : State σ) = s at h
    cases h with
    | host h =>
      rw [List.append_nil] at hs
      obtain ⟨-, rfl, rfl, -⟩ := State.mk.inj hs
      exact h
    | guest h => exact Bool.noConfusion (State.mk.inj hs).2.2.2
  · intro h
    have hhost : Above E [] (⟨st, e, ds ++ [], false⟩ : State σ) := .host h
    rw [List.append_nil] at hhost
    exact hhost

theorem above_guest_iff : Above E [] (⟨st, e, d :: ds, true⟩ : State σ) ↔
    e = .empty ∧ LayeredOn E ({ d with exec := .empty } :: ds) d.exec := by
  constructor
  · intro h
    generalize hs : (⟨st, e, d :: ds, true⟩ : State σ) = s at h
    cases h with
    | host h => exact Bool.noConfusion (State.mk.inj hs).2.2.2
    | guest h =>
      rw [List.append_nil] at hs
      obtain ⟨-, rfl, hds, -⟩ := State.mk.inj hs
      obtain ⟨rfl, rfl⟩ := List.cons.inj hds
      exact ⟨rfl, h⟩
  · rintro ⟨rfl, h⟩
    have hguest : Above E [] (⟨st, .empty, d :: (ds ++ []), true⟩ : State σ) := .guest h
    rw [List.append_nil] at hguest
    exact hguest

/-- The layers of the innermost drivers, put on those of the outer ones. -/
theorem Above.on_top (h : Above entry [] (⟨st, e, l, g⟩ : State σ)) (hE : LayeredOn E ds entry) :
    Above E [] ⟨st, e, l ++ ds, g⟩ := by
  cases g with
  | false => exact above_host_iff.mpr ((above_host_iff.mp h).append hE)
  | true =>
    cases l with
    | nil =>
      generalize hs : (⟨st, e, [], true⟩ : State σ) = s at h
      cases h with
      | host h => exact Bool.noConfusion (State.mk.inj hs).2.2.2
      | guest h => exact nomatch (State.mk.inj hs).2.2.1
    | cons d l =>
      obtain ⟨hslot, hl⟩ := above_guest_iff.mp h
      exact above_guest_iff.mpr ⟨hslot, hl.append hE⟩

/-- The store plays no part in the layers. -/
theorem Above.withStore (h : Above E [] (⟨st, e, ds, g⟩ : State σ)) (st' : StoreState σ) :
    Above E [] ⟨st', e, ds, g⟩ := by
  cases g with
  | false => exact above_host_iff.mpr (above_host_iff.mp h)
  | true =>
    cases ds with
    | nil =>
      generalize hs : (⟨st, e, [], true⟩ : State σ) = s at h
      cases h with
      | host h => exact Bool.noConfusion (State.mk.inj hs).2.2.2
      | guest h => exact nomatch (State.mk.inj hs).2.2.1
    | cons d ds => exact above_guest_iff.mpr (above_guest_iff.mp h)

end Layers

/-! ## The invariant -/

namespace Nest

/-- A state on which calls can be made: the embedder's code has control, no dropped call waits to
be recovered, and the records belong to calls parked in the slot. -/
structure Sound (B : Nest σ) : Prop where
  guest : B.guest = false
  parkable : B.slot.Parkable
  live : ∀ r ∈ B.cleanups.head?, r.cancelled = false
  below : ∀ r ∈ B.cleanups, ∀ b, r.boundary = some b → b.2 < B.slot.frames.length
  tokens : (B.cleanups.map (·.token)).Pairwise (· > ·)
  fresh : ∀ r ∈ B.cleanups, r.token < B.nextToken
  generation : B.store.pendingGeneration < 2 ^ 64

/-- The activities `upper` lie above `B`, and no dropped call waits to be recovered. -/
structure Settled (B W : Nest σ) (upper : List Activity) (ts : List Tally) : Prop where
  stack : W.stack = upper ++ B.stack
  cleanups : W.cleanups = upper.filterMap Activity.cleanup ++ B.cleanups
  tokens : (W.cleanups.map (·.token)).Pairwise (· > ·)
  fresh : ∀ r ∈ W.cleanups, r.token < W.nextToken
  layers : Above B.slot [] ⟨W.store, W.slot, upper.filterMap Activity.drive, W.guest⟩
  roots : RootsOn B.store.gcRoots (upper.flatMap Activity.marks) W.store.gcRoots
  booked : Booked B.store W.store (upper.flatMap Activity.scopes) ts
  running : W.guest = true → ∃ d token as, upper = .wasm d token :: as ∧ d.pc.scope = none

/-- The same, with dropped calls that wait to be recovered. -/
structure Over (B W : Nest σ) (upper : List Activity) (ts : List Tally) : Prop where
  settled : Settled B W.recover upper ts
  waiting : ∃ cs, W.cleanups = cs ++ W.recover.cleanups ∧
    ∀ r ∈ cs, r.cancelled = true ∧ r.scope.rootsMark ≤ W.store.gcRoots.length
  roots : W.recover.store.gcRoots <+: W.store.gcRoots
  tokens : (W.cleanups.map (·.token)).Pairwise (· > ·)
  fresh : ∀ r ∈ W.cleanups, r.token < W.nextToken
  guest : W.guest = true → W.recover = W

variable {B W : Nest σ} {upper : List Activity} {ts : List Tally}

theorem recover_frame (W : Nest σ) :
    W.recover.stack = W.stack ∧ W.recover.guest = W.guest ∧ W.recover.nextToken = W.nextToken := by
  have hfrom : ∀ (rs : List AsyncCallCleanup) (W : Nest σ),
      (W.recoverFrom rs).stack = W.stack ∧ (W.recoverFrom rs).guest = W.guest ∧
        (W.recoverFrom rs).nextToken = W.nextToken := by
    intro rs
    induction rs with
    | nil => exact fun W => ⟨rfl, rfl, rfl⟩
    | cons r rs ih =>
      intro W
      rw [recoverFrom_cons]
      split
      · exact ih _
      · exact ⟨rfl, rfl, rfl⟩
  exact hfrom W.cleanups W

theorem Sound.settled (hB : Sound B) : Settled B B [] [⟨[], false⟩] where
  stack := rfl
  cleanups := rfl
  tokens := hB.tokens
  fresh := hB.fresh
  layers := by
    rw [hB.guest]
    exact .host (l := []) rfl
  roots := List.prefix_refl _
  booked := by
    refine ⟨⟨[], false⟩, [], rfl, ⟨rfl, ?_⟩, .nil⟩
    exact (Nat.mod_eq_of_lt hB.generation).symm
  running h := absurd (hB.guest.symm.trans h) Bool.false_ne_true

theorem Activity.cleanup_live {a : Activity} {r : AsyncCallCleanup} (h : a.cleanup = some r) :
    r.cancelled = false := by
  cases a with
  | wasm d token =>
    obtain ⟨scope, -, rfl⟩ := Option.map_eq_some_iff.mp h
    rfl
  | direct b =>
    obtain ⟨token, -, rfl⟩ := Option.map_eq_some_iff.mp h
    rfl
  | rootScope mark => exact nomatch h

/-- The first record of the activities above `B` is of a live call. -/
theorem Sound.head_live (hB : Sound B) (upper : List Activity) :
    ∀ r ∈ (upper.filterMap Activity.cleanup ++ B.cleanups).head?, r.cancelled = false := by
  intro r hr
  cases hl : upper.filterMap Activity.cleanup with
  | nil =>
    rw [hl] at hr
    exact hB.live r hr
  | cons r' rs =>
    rw [hl] at hr
    obtain rfl : r' = r := Option.some.inj hr
    have hmem : r' ∈ upper.filterMap Activity.cleanup := by
      rw [hl]
      exact List.mem_cons_self
    obtain ⟨a, -, ha⟩ := List.mem_filterMap.mp hmem
    exact Activity.cleanup_live ha

theorem Settled.recover_eq (h : Settled B W upper ts) (hB : Sound B) : W.recover = W := by
  have hlive := hB.head_live upper
  rw [← h.cleanups] at hlive
  exact recoverFrom_live hlive W

theorem Settled.over (h : Settled B W upper ts) (hB : Sound B) : Over B W upper ts := by
  have hW := h.recover_eq hB
  exact {
    settled := by rw [hW]; exact h
    waiting := ⟨[], by rw [hW]; rfl, fun r hr => nomatch hr⟩
    roots := by rw [hW]
    tokens := h.tokens
    fresh := h.fresh
    guest := fun _ => hW }

end Nest

/-! ## A turn of the innermost driver -/

namespace Activity

variable {d d' : Drive}

theorem cleanup_kin (h : d.Kin d') (token : ℕ) :
    (Activity.wasm d' token).cleanup = (Activity.wasm d token).cleanup := by
  simp only [cleanup, h.scope, h.boundary]

theorem scopes_kin (h : d.Kin d') (hscope : d'.pc.scope = d.pc.scope) (token : ℕ) :
    (Activity.wasm d' token).scopes = (Activity.wasm d token).scopes := by
  simp only [scopes, h.scope, hscope]

theorem marks_kin (h : d.Kin d') (hscope : d'.pc.scope = d.pc.scope) (token : ℕ) :
    (Activity.wasm d' token).marks = (Activity.wasm d token).marks :=
  congrArg (List.map _) (scopes_kin h hscope token)

/-- A driver that waits has one scope more than when it runs. -/
theorem scopes_opens (h : d.Kin d') {scope : Parked} (hpc : d.pc.scope = none)
    (hscope : d'.pc.scope = some scope) (token : ℕ) :
    (Activity.wasm d' token).scopes = scope :: (Activity.wasm d token).scopes := by
  simp only [scopes, h.scope, hpc, hscope]
  rfl

theorem marks_opens (h : d.Kin d') {scope : Parked} (hpc : d.pc.scope = none)
    (hscope : d'.pc.scope = some scope) (token : ℕ) :
    (Activity.wasm d' token).marks =
      ⟨scope.rootsMark, scope.pending⟩ :: (Activity.wasm d token).marks :=
  congrArg (List.map _) (scopes_opens h hpc hscope token)

end Activity

theorem Nest.single_running (W : Nest σ) (d : Drive) (hguest : W.guest = true) :
    W.single d = ⟨W.store, W.slot, [d], true⟩ := by
  rw [single, hguest]

namespace Hosted

open Nest

variable (H : Hosted σ)

theorem turn_moving {W : Nest σ} {d : Drive} (hdone : ∀ r, d.pc ≠ .done r) (token : ℕ)
    (as : List Activity) (hguest : W.guest = true) :
    H.turn W d token as =
      W.absorb as token (H.guestStep false ⟨W.store, W.slot, [d], true⟩ d []).1 := by
  unfold turn
  split
  · rename_i r _ hpc _
    exact absurd hpc (hdone r)
  · rw [single_running W d hguest]
    rfl

theorem turnEvents_moving {W : Nest σ} {d : Drive} (hdone : ∀ r, d.pc ≠ .done r) (token : ℕ)
    (hguest : W.guest = true) :
    H.turnEvents W d token =
      match (H.guestStep false ⟨W.store, W.slot, [d], true⟩ d []).1.drives with
      | d' :: _ => if d'.pc.scope.isSome then [.opened] else []
      | [] => [] := by
  unfold turnEvents
  split
  · rename_i r hpc _
    exact absurd hpc (hdone r)
  · rename_i r _ hpc _
    exact absurd hpc (hdone r)
  · rw [single_running W d hguest]
    rfl

end Hosted

namespace Nest

variable {B W : Nest σ} {upper as : List Activity} {ts : List Tally} {d : Drive} {token : ℕ}
  (H : Hosted σ)

/-- The layers of a running driver. -/
theorem Settled.guest_layers (h : Settled B W (.wasm d token :: as) ts)
    (hguest : W.guest = true) : W.slot = .empty ∧ ∃ entry,
      LayeredOn B.slot (as.filterMap Activity.drive) entry ∧
      LayeredOn entry [{ d with exec := .empty }] d.exec := by
  have hl := h.layers
  rw [hguest] at hl
  obtain ⟨hslot, hl⟩ := above_guest_iff.mp hl
  exact ⟨hslot, layeredOn_cons.mp hl⟩

/-- The layers of a driver that waits. -/
theorem Settled.host_layers (h : Settled B W (.wasm d token :: as) ts)
    (hguest : W.guest = false) : ∃ entry, LayeredOn B.slot (as.filterMap Activity.drive) entry ∧
      LayeredOn entry [d] W.slot := by
  have hl := h.layers
  rw [hguest] at hl
  exact layeredOn_cons.mp (above_host_iff.mp hl)

theorem Settled.turn_moving (hB : Sound B) (h : Settled B W (.wasm d token :: as) ts)
    (hguest : W.guest = true) (hpc : d.pc.scope = none) (hdone : ∀ r, d.pc ≠ .done r) :
    ∃ upper', Settled B (H.turn W d token (as ++ B.stack)) upper'
      (postAll (H.turnEvents W d token) ts) := by
  obtain ⟨hslot, entry, hentry, hd⟩ := h.guest_layers hguest
  have habove : Above entry [] (⟨W.store, .empty, [d], true⟩ : State σ) :=
    above_guest_iff.mpr ⟨rfl, hd⟩
  have hstep : Above entry [] (H.guestStep false ⟨W.store, .empty, [d], true⟩ d []).1 :=
    Above.guestStep H.toInterp (hentry.parkable hB.parkable) false hd
  have hmoves := H.guestStep_moves W.store .empty d hdone hpc
  rw [H.turn_moving hdone token _ hguest, H.turnEvents_moving hdone token hguest, hslot]
  generalize (H.guestStep false ⟨W.store, .empty, [d], true⟩ d []).1 = s at hstep hmoves ⊢
  have hcleanups : ∀ {d' : Drive}, d.Kin d' → W.cleanups =
      (.wasm d' token :: as : List Activity).filterMap Activity.cleanup ++ B.cleanups := by
    intro d' hkin
    rw [h.cleanups, List.filterMap_cons, List.filterMap_cons, Activity.cleanup_kin hkin token]
  cases hmoves with
  | @on st' slot' d' guest hsame hkin hscope =>
    refine ⟨.wasm d' token :: as, ?_⟩
    show Settled B _ _ (postAll (if d'.pc.scope.isSome = true then [.opened] else []) ts)
    rw [hscope]
    exact {
      stack := rfl
      cleanups := hcleanups hkin
      tokens := h.tokens
      fresh := h.fresh
      layers := hstep.on_top hentry
      roots := by
        rw [List.flatMap_cons, Activity.marks_kin hkin (hscope.trans hpc.symm)]
        have hroots := h.roots
        rw [← hsame.roots] at hroots
        exact hroots
      booked := by
        rw [List.flatMap_cons, Activity.scopes_kin hkin (hscope.trans hpc.symm)]
        exact h.booked.same hsame.pending hsame.generation
      running := fun _ => ⟨d', token, as, rfl, hscope⟩ }
  | @opens st' slot' d' scope hopens hkin hscope =>
    refine ⟨.wasm d' token :: as, ?_⟩
    show Settled B _ _ (postAll (if d'.pc.scope.isSome = true then [.opened] else []) ts)
    rw [hscope]
    exact {
      stack := rfl
      cleanups := hcleanups hkin
      tokens := h.tokens
      fresh := h.fresh
      layers := hstep.on_top hentry
      roots := by
        rw [List.flatMap_cons, Activity.marks_opens hkin hpc hscope, hopens.scope_eq]
        exact h.roots.open_ W.store.pending hopens.roots
      booked := by
        rw [List.flatMap_cons, Activity.scopes_opens hkin hpc hscope]
        exact h.booked.opened hopens
      running := fun hno => absurd hno Bool.false_ne_true }

/-- What is left of the layers when the innermost driver is gone. -/
theorem above_closed {entry slot : Execution} {st st' : StoreState σ} {as : List Activity}
    (h : Above entry [] (⟨st, slot, [], false⟩ : State σ))
    (hentry : LayeredOn B.slot (as.filterMap Activity.drive) entry) :
    Above B.slot [] ⟨st', slot, as.filterMap Activity.drive, false⟩ := by
  obtain rfl : slot = entry := above_host_iff.mp h
  exact above_host_iff.mpr hentry

theorem Settled.turn_done (hB : Sound B) (h : Settled B W (.wasm d token :: as) ts)
    (hguest : W.guest = true) (hpc : d.pc.scope = none) {r : Except ExecError Unit}
    (hdone : d.pc = .done r) : Settled B (H.turn W d token (as ++ B.stack)) as
      (postAll (H.turnEvents W d token) ts) := by
  obtain ⟨hslot, entry, hentry, hd⟩ := h.guest_layers hguest
  have hfinish : Above entry [] (H.finish ⟨W.store, .empty, [d], true⟩ d [] r) :=
    Above.finish H.toInterp (hentry.parkable hB.parkable) hd r
  obtain ⟨st', slot', hstate, hinstalls, hroots⟩ := H.finish_slot W.store .empty d r
  rw [hstate] at hfinish
  have hsingle : W.single d = ⟨W.store, .empty, [d], true⟩ := by
    rw [single_running W d hguest, hslot]
  unfold Hosted.turn Hosted.turnEvents
  rw [hdone]
  cases hscope : d.scope with
  | none =>
    have hnone : (Activity.wasm d token).scopes = [] := by
      simp only [Activity.scopes, hpc, hscope]
      rfl
    have hturn : (H.machine .go (W.single d)).1 = H.finish ⟨W.store, .empty, [d], true⟩ d [] r := by
      rw [hsingle]
      show (H.guestStep false ⟨W.store, .empty, [d], true⟩ d []).1 = _
      unfold Interp.guestStep
      rw [hdone]
    show Settled B (W.absorb (as ++ B.stack) token (H.machine .go (W.single d)).1) as
      (postAll (H.surfaced W.store d r) ts)
    rw [hturn, hstate]
    exact {
      stack := rfl
      cleanups := by
        have hcleanups := h.cleanups
        rw [List.filterMap_cons, Activity.cleanup, hscope] at hcleanups
        exact hcleanups
      tokens := h.tokens
      fresh := h.fresh
      layers := above_closed hfinish hentry
      roots := by
        have hbelow := h.roots
        rw [List.flatMap_cons, Activity.marks_wasm, hnone] at hbelow
        rw [Hosted.outerRoots, hscope] at hroots
        exact hbelow.grow hroots
      booked := by
        have hbooked := h.booked
        rw [List.flatMap_cons, hnone, List.nil_append] at hbooked
        exact hbooked.installs hinstalls
      running := fun hno => absurd hno Bool.false_ne_true }
  | some scope =>
    have hone : (Activity.wasm d token).scopes = [scope] := by
      simp only [Activity.scopes, hpc, hscope]
      rfl
    have hcleanups := h.cleanups
    rw [List.filterMap_cons, Activity.cleanup, hscope] at hcleanups
    have hcomplete : completeCleanup token W.cleanups =
        .ok (as.filterMap Activity.cleanup ++ B.cleanups) := by
      rw [hcleanups]
      exact if_pos rfl
    simp only [hcomplete]
    show Settled B ({ W with cleanups := as.filterMap Activity.cleanup ++ B.cleanups }.absorb
      (as ++ B.stack) token (H.finish (W.single d) d [] r)) as
      (postAll (H.surfaced W.store d r) (postAll [.kept] ts))
    rw [hsingle, hstate]
    exact {
      stack := rfl
      cleanups := rfl
      tokens := by
        have htokens := h.tokens
        rw [hcleanups] at htokens
        exact (List.pairwise_cons.mp htokens).2
      fresh := fun r hr => h.fresh r (hcleanups ▸ List.mem_cons_of_mem _ hr)
      layers := above_closed hfinish hentry
      roots := by
        have hbelow := h.roots
        rw [List.flatMap_cons, Activity.marks_wasm, hone] at hbelow
        rw [Hosted.outerRoots, hscope] at hroots
        exact hbelow.cut.grow hroots
      booked := by
        have hbooked := h.booked
        rw [List.flatMap_cons, hone] at hbooked
        have hkept : Booked B.store W.store (as.flatMap Activity.scopes) (postAll [.kept] ts) :=
          hbooked.closes ⟨rfl, rfl⟩
        exact hkept.installs hinstalls
      running := fun hno => absurd hno Bool.false_ne_true }

/-- A turn of the innermost driver stays above `B`. -/
theorem Settled.turn (hB : Sound B) (h : Settled B W (.wasm d token :: as) ts)
    (hguest : W.guest = true) (hpc : d.pc.scope = none) :
    ∃ upper', Settled B (H.turn W d token (as ++ B.stack)) upper'
      (postAll (H.turnEvents W d token) ts) := by
  by_cases hdone : ∃ r, d.pc = .done r
  · obtain ⟨r, hr⟩ := hdone
    exact ⟨as, h.turn_done H hB hguest hpc hr⟩
  · exact h.turn_moving H hB hguest hpc fun r hr => hdone ⟨r, hr⟩

/-! ## Calls -/

/-- The layers as far as they are parked. -/
theorem Settled.parked (h : Settled B W upper ts) (hhost : W.guest = false) :
    LayeredOn B.slot (upper.filterMap Activity.drive) W.slot := by
  have hl := h.layers
  rw [hhost] at hl
  exact above_host_iff.mp hl

variable {a : Activity} {r : AsyncCallCleanup} {rs : List AsyncCallCleanup} {scope : Parked}

theorem pairwise_begin {n : ℕ} (h : ∀ r ∈ rs, r.token < n)
    (htokens : (rs.map (·.token)).Pairwise (· > ·)) (r : AsyncCallCleanup) (hr : r.token = n) :
    ((r :: rs).map (·.token)).Pairwise (· > ·) := by
  refine List.pairwise_cons.mpr ⟨fun t ht => ?_, htokens⟩
  obtain ⟨r', hr', rfl⟩ := List.mem_map.mp ht
  show r'.token < r.token
  rw [hr]
  exact h r' hr'

theorem fresh_begin {n : ℕ} (h : ∀ r ∈ rs, r.token < n) (hr : r.token = n) :
    ∀ r' ∈ r :: rs, r'.token < n + 1 := by
  intro r' hr'
  rcases List.mem_cons.mp hr' with rfl | hr'
  · omega
  · have := h r' hr'
    omega

theorem Settled.call (hB : Sound B) (h : Settled B W upper ts) (hhost : W.guest = false)
    (inst funcIndex : ℕ) (code : CompiledFunc) (args : List Val) (resultTys : List ValType)
    (isAsync : Bool) :
    ∃ upper', Settled B (W.call inst funcIndex code args resultTys isAsync) upper'
      (postAll (if (Interp.enter ⟨W.store, W.slot, [], false⟩ inst funcIndex code args resultTys
        isAsync).guest && isAsync then [.opened] else []) ts) := by
  have hparked := h.parked hhost
  have habove : Above W.slot [] (Interp.enter ⟨W.store, W.slot, [], false⟩ inst funcIndex code
      args resultTys isAsync) :=
    Above.enter (l := []) (hparked.parkable hB.parkable) rfl inst funcIndex code args resultTys
      isAsync
  unfold Nest.call
  rcases Interp.enter_slot W.store W.slot inst funcIndex code args resultTys isAsync with
    ⟨st', slot', hs, hsame⟩ | ⟨st', d, hs, hpc, hscope⟩
  · rw [hs] at habove ⊢
    refine ⟨upper, ?_⟩
    exact {
      stack := h.stack
      cleanups := h.cleanups
      tokens := h.tokens
      fresh := h.fresh
      layers := above_closed habove hparked
      roots := by
        have hroots := h.roots
        rw [← hsame.roots] at hroots
        exact hroots
      booked := h.booked.same hsame.pending hsame.generation
      running := fun hno => absurd hno Bool.false_ne_true }
  · rw [hs] at habove ⊢
    have hnone : d.pc.scope = none := by
      rw [hpc]
      rfl
    refine ⟨.wasm d W.nextToken :: upper, ?_⟩
    rcases hscope with ⟨rfl, hscope, hsame⟩ | ⟨scope, rfl, hscope, hopens⟩
    · have hscopes : (Activity.wasm d W.nextToken).scopes = [] := by
        simp only [Activity.scopes, hnone, hscope]
        rfl
      simp only [hscope]
      exact {
        stack := congrArg (Activity.wasm d W.nextToken :: ·) h.stack
        cleanups := by
          rw [List.filterMap_cons, Activity.cleanup, hscope]
          exact h.cleanups
        tokens := h.tokens
        fresh := h.fresh
        layers := habove.on_top hparked
        roots := by
          have hroots := h.roots
          rw [← hsame.roots] at hroots
          rw [List.flatMap_cons, Activity.marks_wasm, hscopes]
          exact hroots
        booked := by
          rw [List.flatMap_cons, hscopes]
          exact h.booked.same hsame.pending hsame.generation
        running := fun _ => ⟨d, W.nextToken, upper, rfl, hnone⟩ }
    · have hscopes : (Activity.wasm d W.nextToken).scopes = [scope] := by
        simp only [Activity.scopes, hnone, hscope]
        rfl
      simp only [hscope]
      exact {
        stack := congrArg (Activity.wasm d W.nextToken :: ·) h.stack
        cleanups := by
          rw [List.filterMap_cons, Activity.cleanup, hscope]
          exact congrArg _ h.cleanups
        tokens := pairwise_begin h.fresh h.tokens _ rfl
        fresh := fresh_begin h.fresh rfl
        layers := habove.on_top hparked
        roots := by
          rw [List.flatMap_cons, Activity.marks_wasm, hscopes, hopens.scope_eq]
          exact h.roots.open_ W.store.pending hopens.roots
        booked := by
          rw [List.flatMap_cons, hscopes]
          exact h.booked.opened hopens
        running := fun _ => ⟨d, W.nextToken, upper, rfl, hnone⟩ }

theorem Settled.callHost (h : Settled B W upper ts) (hhost : W.guest = false)
    (resultTys : List ValType) (isAsync : Bool) :
    ∃ upper', Settled B (W.callHost resultTys isAsync) upper'
      (postAll (if W.store.internalError.isSome then [] else [.opened]) ts) := by
  have hlayers : ∀ st' : StoreState σ,
      Above B.slot [] ⟨st', W.slot, upper.filterMap Activity.drive, W.guest⟩ :=
    fun st' => h.layers.withStore st'
  have hrunning : ∀ {P : Prop}, W.guest = true → P :=
    fun hno => absurd (hhost.symm.trans hno) Bool.false_ne_true
  unfold Nest.callHost
  split
  · refine ⟨upper, ?_⟩
    split
    · exact {
        stack := h.stack
        cleanups := h.cleanups
        tokens := h.tokens
        fresh := h.fresh
        layers := hlayers _
        roots := h.roots
        booked := h.booked
        running := hrunning }
    · exact h
  · have hopens := park_opens W.store
    have hroots := h.roots.open_ W.store.pending hopens.roots
    cases isAsync with
    | false =>
      refine ⟨.direct ⟨W.store.park.1, resultTys, none⟩ :: upper, ?_⟩
      exact {
        stack := congrArg (Activity.direct _ :: ·) h.stack
        cleanups := h.cleanups
        tokens := h.tokens
        fresh := h.fresh
        layers := hlayers _
        roots := hroots
        booked := h.booked.opened hopens
        running := hrunning }
    | true =>
      refine ⟨.direct ⟨W.store.park.1, resultTys, some W.nextToken⟩ :: upper, ?_⟩
      exact {
        stack := congrArg (Activity.direct _ :: ·) h.stack
        cleanups := congrArg _ h.cleanups
        tokens := pairwise_begin h.fresh h.tokens _ rfl
        fresh := fresh_begin h.fresh rfl
        layers := hlayers _
        roots := hroots
        booked := h.booked.opened hopens
        running := hrunning }

/-! ## Uses of the store -/

/-- The store may be used in any way that keeps its roots, and the books go with it. -/
theorem Settled.withStore (h : Settled B W upper ts) {st' : StoreState σ} {ts' : List Tally}
    (hroots : W.store.gcRoots <+: st'.gcRoots)
    (hbooked : Booked B.store st' (upper.flatMap Activity.scopes) ts') :
    Settled B { W with store := st' } upper ts' where
  stack := h.stack
  cleanups := h.cleanups
  tokens := h.tokens
  fresh := h.fresh
  layers := h.layers.withStore st'
  roots := h.roots.grow hroots
  booked := hbooked
  running := h.running

theorem latch_roots (st : StoreState σ) (err : ExecError) :
    (st.latchInternalError err).gcRoots = st.gcRoots ∧
      (st.latchInternalError err).pending = st.pending ∧
      (st.latchInternalError err).pendingGeneration = st.pendingGeneration := by
  obtain ⟨e, he⟩ := latchInternalError_eq st err
  rw [he]
  exact ⟨rfl, rfl, rfl⟩

theorem Settled.latch (h : Settled B W upper ts) (err : ExecError) :
    Settled B { W with store := W.store.latchInternalError err } upper ts := by
  obtain ⟨hroots, hpending, hgeneration⟩ := latch_roots W.store err
  refine h.withStore ?_ (h.booked.same hpending hgeneration)
  rw [hroots]

theorem Settled.throw_ (h : Settled B W upper ts) (exn : Option ℕ) :
    Settled B { W with store := H.throw_ W.store exn } upper
      (postAll (match exn with
        | some exn => match H.exn W.store.rest exn with
          | .ok _ => [.installed exn]
          | .error _ => []
        | none => []) ts) := by
  unfold Hosted.throw_
  cases exn with
  | none => exact h.latch _
  | some exn =>
    simp only
    rcases H.exn W.store.rest exn with err | found
    · exact h.latch _
    · exact h.withStore (List.prefix_refl _)
        (Booked.installs h.booked ⟨rfl, rfl⟩ : Booked _ _ _ (postAll [.installed exn] ts))

theorem Settled.take (h : Settled B W upper ts) :
    Settled B { W with store := H.take W.store } upper
      (postAll (match W.store.pending with
        | none => []
        | some exn => match H.exn W.store.rest exn with
          | .ok _ => [.taken]
          | .error _ => []) ts) := by
  unfold Hosted.take
  cases hpending : W.store.pending with
  | none => exact h
  | some exn =>
    simp only
    rcases H.exn W.store.rest exn with err | found
    · exact h.latch _
    · refine h.withStore (List.prefix_append _ _) ?_
      obtain ⟨t, saved, rfl, htells, hsaved⟩ := h.booked
      exact ⟨{ t with taken := true }, saved, rfl, ⟨rfl, htells.generation⟩, hsaved⟩

theorem Settled.openScope (h : Settled B W upper ts) (hhost : W.guest = false) :
    Settled B W.openScope (.rootScope W.store.gcRoots.length :: upper) ts where
  stack := congrArg (Activity.rootScope _ :: ·) h.stack
  cleanups := h.cleanups
  tokens := h.tokens
  fresh := h.fresh
  layers := h.layers
  roots := by
    refine h.roots.open_ none ?_
    show W.store.gcRoots ++ [] <+: W.store.gcRoots
    rw [List.append_nil]
  booked := h.booked
  running hno := absurd (hhost.symm.trans hno) Bool.false_ne_true

theorem Settled.closeScope {mark : ℕ} (h : Settled B W (.rootScope mark :: as) ts)
    (hhost : W.guest = false) : Settled B W.closeScope as ts := by
  unfold Nest.closeScope
  rw [h.stack]
  exact {
    stack := rfl
    cleanups := h.cleanups
    tokens := h.tokens
    fresh := h.fresh
    layers := h.layers.withStore _
    roots := h.roots.cut
    booked := h.booked
    running := fun hno => absurd (hhost.symm.trans hno) Bool.false_ne_true }

/-! ## Answers -/

/-- A driver that is answered goes on above `B`. -/
theorem Settled.answered (h : Settled B W (.wasm d token :: as) ts)
    (hhost : W.guest = false) {a : Act σ} (ha : Hosted.awaits a d.pc = true) :
    ∃ d', Settled B (W.absorb (as ++ B.stack) token (H.answer a (W.single d) d))
      (.wasm d' token :: as) (postAll (H.driverEvents a W.store d) ts) := by
  obtain ⟨entry, hentry, hd⟩ := h.host_layers hhost
  have hempty : d.exec = .empty := hd.1
  have hsingle : W.single d = ⟨W.store, W.slot, [d], false⟩ := by
    rw [single, hhost]
  obtain ⟨st', d', hanswer, hkin, hscope, hroots, hanswers⟩ :=
    H.answer_slot a W.store W.slot d ha
  have habove : Above entry [] (H.answer a ⟨W.store, W.slot, [d], false⟩ d) := by
    cases a with
    | ret r => exact Above.returned H.toInterp hd r
    | grown rest r => exact Above.grown false hd rest r
    | deadline r => exact Above.applyEpochDeadline false hd r
    | go | tick | post | call _ _ _ _ _ _ | callHost _ _ | throw_ _ | take | use _ _ _ | peek _
    | openScope | closeScope | panic | drop => exact above_host_iff.mpr hd
  rw [hanswer] at habove
  rw [hsingle, hanswer]
  have hscopes : (Activity.wasm d' token).scopes = d.scope.toList := by
    simp only [Activity.scopes, hkin.scope, hscope]
    rfl
  refine ⟨d', ?_⟩
  exact {
    stack := rfl
    cleanups := by
      show W.cleanups = _
      rw [h.cleanups, List.filterMap_cons, List.filterMap_cons, Activity.cleanup_kin hkin token]
    tokens := h.tokens
    fresh := h.fresh
    layers := habove.on_top hentry
    roots := by
      have hbelow := h.roots
      rw [List.flatMap_cons, Activity.marks_wasm, Activity.scopes] at hbelow
      rw [List.flatMap_cons, Activity.marks_wasm, hscopes]
      show RootsOn _ _ st'.gcRoots
      rw [hroots]
      unfold Hosted.cutRoots
      cases hpc : d.pc.scope with
      | none =>
        rw [hpc] at hbelow
        exact hbelow
      | some scope =>
        rw [hpc] at hbelow
        exact hbelow.cut
    booked := by
      have hbooked := h.booked
      rw [List.flatMap_cons, Activity.scopes] at hbooked
      rw [List.flatMap_cons, hscopes]
      unfold Hosted.Answers at hanswers
      cases hpc : d.pc.scope with
      | none =>
        rw [hpc] at hbooked hanswers
        obtain ⟨hevs, hpending, hgeneration⟩ := hanswers
        rw [hevs]
        exact hbooked.same hpending hgeneration
      | some scope =>
        rw [hpc] at hbooked hanswers
        obtain ⟨ev, hevs, hcloses⟩ := hanswers
        rw [hevs]
        exact hbooked.closes hcloses
    running := fun _ => ⟨d', token, as, rfl, hscope⟩ }

/-- What is left when a direct call is gone. -/
theorem Settled.direct_gone {b : DirectCall} (h : Settled B W (.direct b :: as) ts)
    (hhost : W.guest = false) {st' : StoreState σ} {ts' : List Tally}
    (hrs : rs = as.filterMap Activity.cleanup ++ B.cleanups)
    (hroots : W.store.gcRoots.take b.scope.rootsMark <+: st'.gcRoots)
    (hbooked : Booked B.store st' (as.flatMap Activity.scopes) ts') :
    Settled B { W with store := st', stack := as ++ B.stack, cleanups := rs } as ts' where
  stack := rfl
  cleanups := hrs
  tokens := by
    have htokens := h.tokens
    rw [h.cleanups, List.filterMap_cons] at htokens
    rw [hrs]
    cases ha : (Activity.direct b).cleanup with
    | none =>
      rw [ha] at htokens
      exact htokens
    | some r =>
      rw [ha] at htokens
      exact (List.pairwise_cons.mp htokens).2
  fresh r hr := by
    refine h.fresh r ?_
    rw [h.cleanups, List.filterMap_cons]
    rw [hrs] at hr
    cases (Activity.direct b).cleanup with
    | none => exact hr
    | some r' => exact List.mem_cons_of_mem _ hr
  layers := h.layers.withStore st'
  roots := h.roots.cut.grow hroots
  booked := hbooked
  running hno := absurd (hhost.symm.trans hno) Bool.false_ne_true

/-- A direct call that returns leaves what is below it. -/
theorem Settled.directReturned {b : DirectCall} (h : Settled B W (.direct b :: as) ts)
    (hhost : W.guest = false) (r : Except ExecError (List Val)) :
    Settled B (H.directReturned W b (as ++ B.stack) r) as (postAll (H.directEvents W b r) ts) := by
  obtain ⟨hroots, hcloses⟩ := H.finishDirect_slot W.store W.slot b r
  have hbooked := h.booked.closes hcloses
  have hcleanups := h.cleanups
  rw [List.filterMap_cons, Activity.cleanup] at hcleanups
  unfold Hosted.directReturned Hosted.directEvents
  cases htoken : b.token with
  | none =>
    rw [htoken] at hcleanups
    exact h.direct_gone hhost hcleanups hroots hbooked
  | some token =>
    rw [htoken] at hcleanups
    have hcomplete : completeCleanup token W.cleanups =
        .ok (as.filterMap Activity.cleanup ++ B.cleanups) := by
      rw [hcleanups]
      exact if_pos rfl
    simp only [hcomplete]
    exact h.direct_gone hhost rfl hroots hbooked

/-! ## Dropped calls -/

/-- The records of the activities above `B` belong to calls parked in the slot. -/
theorem boundary_lt {e : Execution} (hB : Sound B)
    (h : LayeredOn B.slot (as.filterMap Activity.drive) e) :
    ∀ r ∈ as.filterMap Activity.cleanup ++ B.cleanups, ∀ b, r.boundary = some b →
      b.2 < e.frames.length := by
  induction as generalizing e with
  | nil =>
    obtain rfl : e = B.slot := h
    exact hB.below
  | cons a as ih =>
    intro r hr b hb
    cases a with
    | wasm d token =>
      obtain ⟨entry, hentry, -, entry', inner, rfl, hbound, hin, -⟩ := layeredOn_cons.mp h
      have hlen := hin.frames_length
      rw [List.filterMap_cons, Activity.cleanup] at hr
      cases hscope : d.scope with
      | none =>
        rw [hscope] at hr
        have := ih hentry r hr b hb
        omega
      | some scope =>
        rw [hscope] at hr
        rcases List.mem_cons.mp hr with rfl | hr
        · obtain rfl := Option.some.inj hb
          have hstop : d.boundary.stopDepth = entry'.frames.length :=
            congrArg Boundary.stopDepth hbound
          show d.boundary.stopDepth < _
          omega
        · have := ih hentry r hr b hb
          omega
    | direct call =>
      rw [List.filterMap_cons, Activity.cleanup] at hr
      cases htoken : call.token with
      | none =>
        rw [htoken] at hr
        exact ih h r hr b hb
      | some token =>
        rw [htoken] at hr
        rcases List.mem_cons.mp hr with rfl | hr
        · nomatch hb
        · exact ih h r hr b hb
    | rootScope mark => exact ih h r hr b hb

/-- What the record of the innermost call restores: the state that call began in. -/
theorem Settled.restore_top (hB : Sound B) (h : Settled B W (a :: as) ts) (hhost : W.guest = false)
    (hr : a.cleanup = some r) (inner : List Parked) (hscopes : a.scopes = inner ++ [r.scope]) :
    Settled B { W with
        store := (r.restore W.store W.slot).1
        slot := (r.restore W.store W.slot).2
        stack := as ++ B.stack
        guest := false
        cleanups := as.filterMap Activity.cleanup ++ B.cleanups }
      as (postAll (List.replicate (inner.length + 1) .undone) ts) := by
  obtain ⟨hroots, hpending, hgeneration⟩ := r.restore_gcRoots W.store W.slot
  have hcleanups := h.cleanups
  rw [List.filterMap_cons, hr] at hcleanups
  exact {
    stack := rfl
    cleanups := rfl
    tokens := by
      have htokens := h.tokens
      rw [hcleanups] at htokens
      exact (List.pairwise_cons.mp htokens).2
    fresh := fun r' hr' => h.fresh r' (hcleanups ▸ List.mem_cons_of_mem _ hr')
    layers := by
      refine above_host_iff.mpr ?_
      cases a with
      | wasm d token =>
        obtain ⟨entry, hentry, -, entry', inner', rfl, hb, hin, -⟩ := h.host_layers hhost
        obtain ⟨scope, hscope, rfl⟩ := Option.map_eq_some_iff.mp hr
        have hparked := hentry.parked hB.parkable
        unfold AsyncCallCleanup.restore
        simp only [hb, boundaryOf, hin.discardTo_eq, hparked]
        exact hentry
      | direct b =>
        obtain ⟨token, htoken, rfl⟩ := Option.map_eq_some_iff.mp hr
        exact h.parked hhost
      | rootScope mark => cases hr
    roots := by
      have hbelow := h.roots
      rw [List.flatMap_cons, Activity.marks_async hr, hscopes, List.map_append,
        List.append_assoc] at hbelow
      show RootsOn _ _ (r.restore W.store W.slot).1.gcRoots
      rw [hroots]
      exact hbelow.cut_outer.1
    booked := by
      have hbooked := h.booked
      rw [List.flatMap_cons, hscopes, List.append_assoc] at hbooked
      exact hbooked.undone hpending hgeneration
    running := fun hno => absurd hno Bool.false_ne_true }

/-- A call has been undone by its record. -/
structure Undone (r : AsyncCallCleanup) (W : Nest σ) : Prop where
  guest : W.guest = false
  waits : ∃ r' rs, W.cleanups = r' :: rs ∧ r'.cancelled = true
  roots : W.recover.store.gcRoots.length ≤ r.scope.rootsMark
  pending : W.recover.store.pending = r.scope.pending
  generation : W.recover.store.pendingGeneration = r.scope.pendingGeneration

/-- The token of a record is its own, so a drop marks that record alone. -/
theorem map_cancelled {cs : List AsyncCallCleanup}
    (htokens : ((cs ++ r :: rs).map (·.token)).Pairwise (· > ·)) :
    (cs ++ r :: rs).map (fun r' =>
      if r'.token = r.token then { r' with cancelled := true } else r') =
      (cs ++ [{ r with cancelled := true }]) ++ rs := by
  rw [List.map_append, List.pairwise_append, List.map_cons, List.pairwise_cons] at htokens
  have hbefore : ∀ r' ∈ cs, r'.token ≠ r.token := by
    intro r' hr'
    have := htokens.2.2 r'.token (List.mem_map_of_mem hr') r.token List.mem_cons_self
    omega
  have hafter : ∀ r' ∈ rs, r'.token ≠ r.token := by
    intro r' hr'
    have := htokens.2.1.1 r'.token (List.mem_map_of_mem hr')
    omega
  rw [List.map_append, List.map_cons, if_pos rfl, List.append_assoc]
  congr 1
  · refine (List.map_congr_left fun r' hr' => ?_).trans (List.map_id cs)
    exact if_neg (hbefore r' hr')
  · refine congrArg _ ((List.map_congr_left fun r' hr' => ?_).trans (List.map_id _))
    exact if_neg (hafter r' hr')

theorem cancel_tokens (W : Nest σ) (token : ℕ) :
    (W.cancel token).cleanups.map (·.token) = W.cleanups.map (·.token) := by
  unfold cancel
  rw [List.map_map]
  refine List.map_congr_left fun r _ => ?_
  show (if r.token = token then { r with cancelled := true } else r).token = r.token
  split <;> rfl

/-- The dropped calls that wait, and what they restore. -/
theorem Over.recover_eq (hB : Sound B) (h : Over B W upper ts) :
    ∃ cs, W.cleanups = cs ++ W.recover.cleanups ∧
      (∀ r ∈ cs, r.cancelled = true ∧ r.scope.rootsMark ≤ W.store.gcRoots.length) ∧
      W.recover = { W with
        store := (restored cs (W.store, W.slot)).1
        slot := (restored cs (W.store, W.slot)).2
        cleanups := W.recover.cleanups } := by
  obtain ⟨cs, hcs, hcancelled⟩ := h.waiting
  refine ⟨cs, hcs, hcancelled, ?_⟩
  have hlive := hB.head_live upper
  rw [← h.settled.cleanups] at hlive
  have hfrom := recoverFrom_eq (fun r hr => (hcancelled r hr).1) hlive W
  rw [← hcs] at hfrom
  exact hfrom

/-- The innermost call is dropped; its record joins those that wait to be recovered. -/
theorem Over.cancelled (hB : Sound B) (h : Over B W (a :: as) ts) (hhost : W.guest = false)
    (hr : a.cleanup = some r) (inner : List Parked) (hscopes : a.scopes = inner ++ [r.scope]) :
    Undone r ({ W with stack := as ++ B.stack, guest := false }.cancel r.token) ∧
    Over B ({ W with stack := as ++ B.stack, guest := false }.cancel r.token) as
      (postAll (List.replicate (inner.length + 1) .undone) ts) := by
  obtain ⟨cs, hcs, hcancelled, hW⟩ := h.recover_eq hB
  have hhost' : W.recover.guest = false := (recover_frame W).2.1.trans hhost
  have hsettled := h.settled.restore_top hB hhost' hr inner hscopes
  have hwhole : W.cleanups = cs ++ r :: (as.filterMap Activity.cleanup ++ B.cleanups) := by
    rw [hcs, h.settled.cleanups, List.filterMap_cons, hr]
    rfl
  have hmark : W.cleanups.map (fun r' =>
      if r'.token = r.token then { r' with cancelled := true } else r') =
      (cs ++ [{ r with cancelled := true }]) ++
        (as.filterMap Activity.cleanup ++ B.cleanups) := by
    have htokens := h.tokens
    rw [hwhole] at htokens ⊢
    exact map_cancelled htokens
  have hwait : ∀ r' ∈ cs ++ [{ r with cancelled := true }], r'.cancelled = true ∧
      r'.scope.rootsMark ≤ W.store.gcRoots.length := by
    intro r' hr'
    rcases List.mem_append.mp hr' with hr' | hr'
    · exact hcancelled r' hr'
    · obtain rfl := List.mem_singleton.mp hr'
      refine ⟨rfl, ?_⟩
      have hroots := h.settled.roots
      rw [List.flatMap_cons, Activity.marks_async hr, hscopes, List.map_append,
        List.append_assoc] at hroots
      exact hroots.cut_outer.2.trans h.roots.length_le
  have hrecover : ({ W with stack := as ++ B.stack, guest := false }.cancel r.token).recover =
      { W.recover with
        store := (r.restore W.recover.store W.recover.slot).1
        slot := (r.restore W.recover.store W.recover.slot).2
        stack := as ++ B.stack
        guest := false
        cleanups := as.filterMap Activity.cleanup ++ B.cleanups } := by
    unfold cancel recover
    simp only [hmark]
    rw [recoverFrom_eq (fun r hr => (hwait r hr).1) (hB.head_live as), restored_concat]
    show _ = ({ W.recover with
        store := (r.restore W.recover.store W.recover.slot).1
        slot := (r.restore W.recover.store W.recover.slot).2
        stack := as ++ B.stack
        guest := false
        cleanups := as.filterMap Activity.cleanup ++ B.cleanups } : Nest σ)
    rw [hW]
    rfl
  obtain ⟨hroots, hpending, hgeneration⟩ := r.restore_gcRoots W.recover.store W.recover.slot
  constructor
  · exact {
      guest := rfl
      waits := by
        show ∃ (r' : AsyncCallCleanup) (rs : List AsyncCallCleanup),
          W.cleanups.map _ = r' :: rs ∧ r'.cancelled = true
        rw [hmark]
        cases cs with
        | nil => exact ⟨_, _, rfl, rfl⟩
        | cons r' cs => exact ⟨r', _, rfl, (hcancelled r' List.mem_cons_self).1⟩
      roots := by
        rw [hrecover]
        show (r.restore W.recover.store W.recover.slot).1.gcRoots.length ≤ _
        rw [hroots, List.length_take]
        exact min_le_left _ _
      pending := by
        rw [hrecover]
        exact hpending
      generation := by
        rw [hrecover]
        exact hgeneration }
  · exact {
      settled := by
        rw [hrecover]
        exact hsettled
      waiting := by
        refine ⟨cs ++ [{ r with cancelled := true }], ?_, hwait⟩
        rw [hrecover]
        exact hmark
      roots := by
        rw [hrecover]
        show (r.restore W.recover.store W.recover.slot).1.gcRoots <+: W.store.gcRoots
        rw [hroots]
        exact (List.take_prefix _ _).trans h.roots
      tokens := by
        rw [cancel_tokens]
        exact h.tokens
      fresh := by
        intro r' hr'
        have hmem := List.mem_map_of_mem (f := (·.token)) hr'
        rw [cancel_tokens] at hmem
        obtain ⟨r'', hr'', htoken⟩ := List.mem_map.mp hmem
        have hlt := h.fresh r'' hr''
        rw [htoken] at hlt
        exact hlt
      guest := fun hno => absurd hno Bool.false_ne_true }

/-- A driver that yields for fuel has parked its execution. -/
theorem Settled.yields (h : Settled B W (.wasm d token :: as) ts) (hguest : W.guest = true) :
    Settled B { W with
        slot := d.exec
        stack := .wasm { d with exec := .empty } token :: (as ++ B.stack)
        guest := false }
      (.wasm { d with exec := .empty } token :: as) ts where
  stack := rfl
  cleanups := h.cleanups
  tokens := h.tokens
  fresh := h.fresh
  layers := by
    have hl := h.layers
    rw [hguest] at hl
    exact above_host_iff.mpr (above_guest_iff.mp hl).2
  roots := h.roots
  booked := h.booked
  running hno := absurd hno Bool.false_ne_true

/-- An epoch callback has answered, and the driver yields. -/
theorem Settled.epochYields (h : Settled B W (.wasm d token :: as) ts) (hhost : W.guest = false)
    (hpc : d.pc = .epochCallback scope) :
    Settled B { W with
        store := W.store.truncateRoots scope.rootsMark
        stack := .wasm { d with pc := .run true } token :: (as ++ B.stack) }
      (.wasm { d with pc := .run true } token :: as) (postAll [.kept] ts) where
  stack := rfl
  cleanups := h.cleanups
  tokens := h.tokens
  fresh := h.fresh
  layers := by
    obtain ⟨entry, hentry, hempty, entry', inner, hentry', hb, hin, hfits⟩ := h.host_layers hhost
    have hne : inner ≠ [] := by
      rw [hpc] at hfits
      exact hfits
    show Above B.slot [] ⟨_, _, _, W.guest⟩
    rw [hhost]
    exact above_host_iff.mpr
      (layeredOn_cons.mpr ⟨entry, hentry, hempty, entry', inner, hentry', hb, hin, hne⟩)
  roots := by
    have hroots := h.roots
    rw [List.flatMap_cons, Activity.marks_wasm, Activity.scopes, hpc] at hroots
    rw [List.flatMap_cons, Activity.marks_wasm, Activity.scopes]
    exact hroots.cut
  booked := by
    have hbooked := h.booked
    rw [List.flatMap_cons, Activity.scopes, hpc] at hbooked
    rw [List.flatMap_cons, Activity.scopes]
    exact hbooked.closes ⟨rfl, rfl⟩
  running hno := absurd (hhost.symm.trans hno) Bool.false_ne_true

theorem cleanup_async (hscope : d.scope = some scope) (token : ℕ) :
    (Activity.wasm d token).cleanup = some
      ⟨token, false, scope, some (d.boundary.valueBase, d.boundary.stopDepth)⟩ := by
  rw [Activity.cleanup, hscope]
  rfl

/-- Dropping the innermost call, where it can be dropped, leaves what is below it. -/
theorem Over.dropped (hB : Sound B) (h : Over B W (a :: as) ts) :
    W.dropped = W ∧ Hosted.dropEvents W = [] ∨ ∃ r, a.cleanup = some r ∧ Undone r W.dropped ∧
      Over B W.dropped as (postAll (Hosted.dropEvents W) ts) := by
  have hstack : W.stack = a :: (as ++ B.stack) := (recover_frame W).1.symm.trans h.settled.stack
  unfold Nest.dropped Hosted.dropEvents
  rw [hstack]
  cases a with
  | rootScope mark => exact .inl ⟨rfl, rfl⟩
  | direct b =>
    simp only
    cases htoken : b.token with
    | none => exact .inl ⟨rfl, rfl⟩
    | some token =>
      by_cases hguest : W.guest = true
      · -- Only a driver runs as a guest.
        obtain ⟨d, token', as', hupper, -⟩ := h.settled.running ((recover_frame W).2.1.trans hguest)
        nomatch hupper
      · have hr : (Activity.direct b).cleanup = some ⟨token, false, b.scope, none⟩ := by
          rw [Activity.cleanup, htoken]
          rfl
        exact .inr ⟨_, hr, h.cancelled hB (Bool.eq_false_of_not_eq_true hguest) hr [] rfl⟩
  | wasm d token =>
    simp only
    by_cases hasync : d.isAsync = true
    · rw [if_pos hasync, if_pos hasync]
      obtain ⟨scope, hscope⟩ := Option.isSome_iff_exists.mp hasync
      have hr := cleanup_async hscope token
      cases hguest : W.guest with
      | true =>
        have hW := h.guest hguest
        have hsettled := h.settled
        rw [hW] at hsettled
        cases hpc : d.pc with
        | serve o =>
          cases o with
          | fuelYield =>
            have hscopes : (Activity.wasm { d with exec := .empty } token).scopes = [scope] := by
              simp only [Activity.scopes, hpc, hscope]
              rfl
            have hover := (hsettled.yields hguest).over hB
            exact .inr ⟨_, hr, hover.cancelled hB rfl hr [] hscopes⟩
          | finished | hostAsync _ _ | epochDeadline | grow _ _ | tableGrow _ _ _ | gcGrow _ _ =>
            exact .inl ⟨rfl, rfl⟩
        | run _ | loop _ | poll _ | hostFn _ | hostFnAsync _ | limiter _ _ | epochCallback _
        | done _ => exact .inl ⟨rfl, rfl⟩
      | false =>
        cases hpc : d.pc with
        | hostFnAsync call =>
          have hscopes : (Activity.wasm d token).scopes = [call.scope] ++ [scope] := by
            simp only [Activity.scopes, hpc, hscope]
            rfl
          exact .inr ⟨_, hr, h.cancelled hB hguest hr [call.scope] hscopes⟩
        | limiter g lscope =>
          cases lscope with
          | none =>
            have hscopes : (Activity.wasm d token).scopes = [scope] := by
              simp only [Activity.scopes, hpc, hscope]
              rfl
            exact .inr ⟨_, hr, h.cancelled hB hguest hr [] hscopes⟩
          | some lscope => exact .inl ⟨rfl, rfl⟩
        | epochCallback escope =>
          simp only
          have herror : (W.recover.store.truncateRoots escope.rootsMark).internalError =
            W.recover.store.internalError := rfl
          rw [herror]
          split
          · exact .inl ⟨rfl, rfl⟩
          · have hhost : W.recover.guest = false := (recover_frame W).2.1.trans hguest
            have hscopes : (Activity.wasm { d with pc := .run true } token).scopes = [scope] := by
              simp only [Activity.scopes, hscope]
              rfl
            have hover := (h.settled.epochYields hhost hpc).over hB
            exact .inr ⟨_, hr, hover.cancelled hB hhost hr [] hscopes⟩
        | run _ | loop _ | poll _ | serve _ | hostFn _ | done _ => exact .inl ⟨rfl, rfl⟩
    · rw [if_neg hasync, if_neg hasync]
      exact .inl ⟨rfl, rfl⟩

/-! ## Panics -/

theorem abandonBoundary_none {b : ℕ × ℕ} (h : ∀ r ∈ rs, r.boundary ≠ some b) :
    abandonBoundary b rs = rs := by
  unfold abandonBoundary
  have hany : rs.any (·.boundary = some b) = false := by
    rw [List.any_eq_false]
    intro r hr
    exact fun hno => h r hr (of_decide_eq_true hno)
  rw [hany]
  rfl

theorem abandonBoundary_cons {b : ℕ × ℕ} (rs : List AsyncCallCleanup) (h : r.boundary = some b) :
    abandonBoundary b (r :: rs) = rs := by
  unfold abandonBoundary
  simp [h]

theorem cancel_of_lt (W : Nest σ) {token : ℕ} (h : ∀ r ∈ W.cleanups, r.token ≠ token) :
    W.cancel token = W := by
  unfold cancel
  have hsame : W.cleanups.map (fun r =>
      if r.token = token then { r with cancelled := true } else r) = W.cleanups := by
    refine (List.map_congr_left fun r hr => ?_).trans (List.map_id _)
    exact if_neg (h r hr)
  rw [hsame]

/-- A panic of the embedder's code closes the call it was called from, with its record. -/
theorem Settled.after_panic (hB : Sound B) (h : Settled B W (.wasm d token :: as) ts)
    (hhost : W.guest = false) (hpc : d.pc.scope = some scope) :
    ∃ entry, W.slot.discardCurrentCall =
        .ok ((entry.values.length, entry.frames.length), entry) ∧
      (if entry.frames.length ≠ 0 then entry else .empty) = entry ∧
      abandonBoundary (entry.values.length, entry.frames.length) W.cleanups =
        as.filterMap Activity.cleanup ++ B.cleanups ∧
      (∀ r ∈ as.filterMap Activity.cleanup ++ B.cleanups, d.isAsync = true → r.token ≠ token) ∧
      Settled B { W with
          store := (W.store.truncateRoots scope.rootsMark).restorePending scope
          slot := entry
          stack := as ++ B.stack
          cleanups := as.filterMap Activity.cleanup ++ B.cleanups }
        as (postAll (.undone :: if d.isAsync then [.kept] else []) ts) := by
  obtain ⟨entry, hentry, -, entry', inner, rfl, hb, hin, -⟩ := h.host_layers hhost
  have hbound : ∀ r ∈ as.filterMap Activity.cleanup ++ B.cleanups,
      r.boundary ≠ some (entry'.values.length, entry'.frames.length) :=
    fun r hr hno => lt_irrefl _ (boundary_lt hB hentry r hr _ hno)
  have hcleanups := h.cleanups
  rw [List.filterMap_cons] at hcleanups
  have htokens := h.tokens
  have hbelow := h.roots
  rw [List.flatMap_cons, Activity.marks_wasm, Activity.scopes, hpc] at hbelow
  have hundone : Booked B.store ((W.store.truncateRoots scope.rootsMark).restorePending scope)
      (d.scope.toList ++ as.flatMap Activity.scopes) (postAll [.undone] ts) := by
    have hbooked := h.booked
    rw [List.flatMap_cons, Activity.scopes, hpc] at hbooked
    exact hbooked.closes ⟨rfl, rfl⟩
  have hlayers : ∀ st' : StoreState σ,
      Above B.slot [] ⟨st', entry', as.filterMap Activity.drive, W.guest⟩ := by
    intro st'
    rw [hhost]
    exact above_host_iff.mpr hentry
  refine ⟨entry', hin.discardCurrentCall_eq, hentry.parked hB.parkable, ?_⟩
  cases hscope : d.scope with
  | none =>
    have hsync : d.isAsync = false := by
      rw [Drive.isAsync, hscope]
      rfl
    have hnone : (Activity.wasm d token).cleanup = none := by
      rw [Activity.cleanup, hscope]
      rfl
    rw [hnone] at hcleanups
    rw [hscope] at hbelow hundone
    refine ⟨?_, fun r _ hno => ?_, ?_⟩
    · rw [show W.cleanups = as.filterMap Activity.cleanup ++ B.cleanups from hcleanups]
      exact abandonBoundary_none hbound
    · rw [hsync] at hno
      nomatch hno
    · rw [hsync]
      exact {
        stack := rfl
        cleanups := rfl
        tokens := by
          rw [hcleanups] at htokens
          exact htokens
        fresh := fun r hr => h.fresh r (hcleanups ▸ hr)
        layers := hlayers _
        roots := hbelow.cut
        booked := hundone
        running := fun hno => absurd (hhost.symm.trans hno) Bool.false_ne_true }
  | some cscope =>
    have hasync : d.isAsync = true := by
      rw [Drive.isAsync, hscope]
      rfl
    rw [cleanup_async hscope token] at hcleanups
    rw [hscope] at hbelow hundone
    rw [hcleanups, List.cons_append, List.map_cons, List.pairwise_cons] at htokens
    refine ⟨?_, fun r hr _ => ?_, ?_⟩
    · rw [hcleanups]
      refine abandonBoundary_cons _ ?_
      show some (d.boundary.valueBase, d.boundary.stopDepth) = _
      rw [hb]
      rfl
    · have hlt : r.token < token := htokens.1 r.token (List.mem_map_of_mem hr)
      exact Nat.ne_of_lt hlt
    · rw [hasync]
      exact {
        stack := rfl
        cleanups := rfl
        tokens := htokens.2
        fresh := fun r hr => h.fresh r (hcleanups ▸ List.mem_cons_of_mem _ hr)
        layers := hlayers _
        roots := hbelow.cut.tail
        booked := hundone.closes (show Closes _ _ _ .kept from ⟨rfl, rfl⟩)
        running := fun hno => absurd (hhost.symm.trans hno) Bool.false_ne_true }

/-- A contained panic in the embedder's code. -/
theorem Over.restoreAfterPanic (hB : Sound B) (h : Over B W (.wasm d token :: as) ts)
    (hhost : W.guest = false) (hpc : d.pc.scope = some scope) :
    Over B (if d.isAsync then (W.restoreAfterPanic scope (as ++ B.stack)).cancel token
        else W.restoreAfterPanic scope (as ++ B.stack)) as
      (postAll (.undone :: if d.isAsync then [.kept] else []) ts) := by
  obtain ⟨e, he⟩ := recover_withError W none
  have hsettled : Settled B { W.recover with store := W.recover.store.withError e }
      (.wasm d token :: as) ts :=
    h.settled.withStore (List.prefix_refl _) (h.settled.booked.same rfl rfl)
  have hhost' : W.recover.guest = false := (recover_frame W).2.1.trans hhost
  obtain ⟨entry, hdiscard, hparked, habandon, htoken, hafter⟩ := hsettled.after_panic hB hhost' hpc
  have hstate : W.restoreAfterPanic scope (as ++ B.stack) = { W.recover with
      store := ((W.recover.store.withError e).truncateRoots scope.rootsMark).restorePending scope
      slot := entry
      stack := as ++ B.stack
      cleanups := as.filterMap Activity.cleanup ++ B.cleanups } := by
    unfold Nest.restoreAfterPanic
    rw [show ({ W with store := { W.store with internalError := none } } : Nest σ).recover = _
      from he]
    simp only [hdiscard, hparked, habandon]
  rw [hstate]
  by_cases hasync : d.isAsync = true
  · rw [if_pos hasync, cancel_of_lt _ fun r hr => htoken r hr hasync]
    exact hafter.over hB
  · rw [if_neg hasync]
    exact hafter.over hB

/-- A panic leaves what lies below the innermost activity. -/
theorem Over.panicked (hB : Sound B) (h : Over B W (a :: as) ts) (hhost : W.guest = false) :
    ∃ upper', Over B W.panicked upper' (postAll (Hosted.panicEvents W) ts) := by
  have hstack : W.stack = a :: (as ++ B.stack) := (recover_frame W).1.symm.trans h.settled.stack
  have hhost' : W.recover.guest = false := (recover_frame W).2.1.trans hhost
  unfold Nest.panicked Hosted.panicEvents
  rw [hstack]
  cases a with
  | rootScope mark => exact ⟨_, h⟩
  | direct b =>
    -- The record is completed, and the second recovery finds nothing to do.
    have hcleanups := h.settled.cleanups
    rw [List.filterMap_cons, Activity.cleanup] at hcleanups
    have hcomplete : b.completed W.recover.cleanups =
        as.filterMap Activity.cleanup ++ B.cleanups := by
      unfold DirectCall.completed
      cases htoken : b.token with
      | none =>
        rw [htoken] at hcleanups
        exact hcleanups
      | some token =>
        rw [htoken] at hcleanups
        have hok : completeCleanup token W.recover.cleanups =
            .ok (as.filterMap Activity.cleanup ++ B.cleanups) := by
          rw [hcleanups]
          exact if_pos rfl
        simp only [hok]
    have hagain : ({ W.recover with
        cleanups := as.filterMap Activity.cleanup ++ B.cleanups } : Nest σ).recover =
        { W.recover with cleanups := as.filterMap Activity.cleanup ++ B.cleanups } :=
      recoverFrom_live (hB.head_live as) _
    refine ⟨as, ?_⟩
    simp only [hcomplete, hagain]
    have hundone : Booked B.store
        ((W.recover.store.truncateRoots b.scope.rootsMark).restorePending b.scope)
        (as.flatMap Activity.scopes) (postAll [.undone] ts) :=
      h.settled.booked.closes ⟨rfl, rfl⟩
    exact (h.settled.direct_gone hhost' rfl (List.prefix_refl _) hundone).over hB
  | wasm d token =>
    simp only
    have hcontained : ∀ {scope}, d.pc.scope = some scope → ∃ upper', Over B
        (if d.isAsync then (W.restoreAfterPanic scope (as ++ B.stack)).cancel token
          else W.restoreAfterPanic scope (as ++ B.stack)) upper'
        (postAll (.undone :: if d.isAsync then [.kept] else []) ts) :=
      fun hscope => ⟨as, h.restoreAfterPanic hB hhost hscope⟩
    cases hpc : d.pc with
    | limiter g lscope =>
      cases lscope with
      | none =>
        by_cases hasync : d.isAsync = true
        · simp only [hasync, if_true]
          obtain ⟨scope, hscope⟩ := Option.isSome_iff_exists.mp hasync
          have hscopes : (Activity.wasm d token).scopes = [scope] := by
            simp only [Activity.scopes, hpc, hscope]
            rfl
          exact ⟨as, (h.cancelled hB hhost (cleanup_async hscope token) [] hscopes).2⟩
        · simp only [hasync, if_false, Bool.false_eq_true]
          exact ⟨_, h⟩
      | some lscope => exact hcontained (by rw [hpc]; rfl)
    | hostFn call | hostFnAsync call => exact hcontained (by rw [hpc]; rfl)
    | epochCallback scope => exact hcontained (by rw [hpc]; rfl)
    | run _ | loop _ | poll _ | serve _ | done _ => exact ⟨_, h⟩

end Nest

end SubmilliWasm
