/-
# Progress of a growing heap

An allocating op that suspends for its reservation is executed again once that is granted
(`desired_reservation` and `grant` of `src/store/gc.rs`, `gc_reserve` of `src/exec/collect.rs`).
The grown reservation covers the charge, whatever collections come in between, as long as the bytes
in use and the charge have a sum in a `usize`; and the reservation and its growth step only rise.
-/
import SubmilliWasm.Exec.ConstEval
import SubmilliWasm.Exec.Operated
import SubmilliWasm.Exec.Retry

namespace SubmilliWasm

open Fallible

/-! ## Executing again -/

namespace Store

/-- Collections, one after the other, with any roots. -/
inductive Collections : Store → Store → Prop where
  | refl (s : Store) : Collections s s
  | collect {s s' : Store} (roots : List (ℕ × RefKind)) :
      Collections s s' → Collections s (s'.gcCollect roots).1

/-- Collections leave no more in use than there was, and the reservation and the element instances
as they were. -/
theorem Collections.kept {s s' : Store} (h : Collections s s') :
    s'.inner.gc.used ≤ s.inner.gc.used ∧ s'.inner.gc.reserved = s.inner.gc.reserved ∧
      s'.inner.elems = s.inner.elems := by
  induction h with
  | refl => exact ⟨le_rfl, rfl, rfl⟩
  | @collect s' roots h ih =>
    obtain ⟨hused, hreserved, helems⟩ := ih
    have hsettled := gcCollect_settled s' roots
    exact ⟨hsettled.used.trans hused, (EngineGc.gcCollect_reserved s' roots).trans hreserved,
      hsettled.roots.2.2.2.1.trans helems⟩

theorem Collections.fits {s s' : Store} {charge : ℕ} (h : Collections s s')
    (hf : s.inner.gc.fits charge = true) : s'.inner.gc.fits charge = true := by
  obtain ⟨hused, hreserved, -⟩ := h.kept
  obtain ⟨hsum, hle⟩ := GcHeap.fits_iff.mp hf
  refine GcHeap.fits_iff.mpr ⟨by omega, ?_⟩
  rw [hreserved]
  omega

end Store

namespace AllocState

variable {env : AllocEnv} {inst next : ℕ} {g : AllocState} {instr : AllocInstr} {charge : ℕ}

theorem step_of_fits (hc : g.gcAllocCharge env inst instr = .ok charge)
    (hf : g.store.inner.gc.fits charge = true) (target bytesNeeded ip : ℕ) :
    (g.step env inst next instr).2 ≠ .ok (.doGcGrow target bytesNeeded ip) := by
  intro h
  obtain ⟨charge', store, hc', hr, -, -⟩ := step_doGcGrow (Prod.ext rfl h)
  obtain rfl := Except.ok.inj (hc.symm.trans hc')
  rw [(Store.gcReserve_fits hf).1] at hr
  nomatch (Prod.mk.inj hr).2

/-- The op that suspended finds its charge reserved. -/
theorem retry_fits {g' : AllocState} {target bytesNeeded ip : ℕ} {limiter : Store.Limiter}
    {granted retried : Store}
    (h : g.step env inst next instr = (g', .ok (.doGcGrow target bytesNeeded ip)))
    (hc : g.gcAllocCharge env inst instr = .ok charge)
    (hsum : g'.store.inner.gc.used + charge ≤ usizeMax)
    (hgranted : g'.store.growGcReservation target bytesNeeded limiter = (granted, .ok ()))
    (hretried : Store.Collections granted retried) :
    { g' with store := retried }.gcAllocCharge env inst instr = .ok charge ∧
      retried.inner.gc.fits charge = true := by
  obtain ⟨charge', store, hc', hr, rfl, -⟩ := step_doGcGrow h
  obtain rfl := Except.ok.inj (hc.symm.trans hc')
  obtain ⟨hgrow, -, -⟩ := Store.gcReserve_grow hr
  obtain ⟨hfits, hinner⟩ := fits_of_granted hgranted (Store.GcGrow.mk.inj hgrow).1 hsum
  have hsettled := Store.gcReserve_settled g.store g.exec.operandRoots charge
  rw [hr] at hsettled
  have helems : retried.inner.elems = g.store.inner.elems := by
    refine hretried.kept.2.2.trans ?_
    rcases hinner with hinner | hinner
    · rw [hinner]
      exact hsettled.roots.2.2.2.1
    · rw [hinner]
      exact hsettled.roots.2.2.2.1
  have hsame : SameOperands { g with store := retried } g := ⟨rfl, rfl, helems⟩
  exact ⟨hsame.gcAllocCharge.trans hc, hretried.fits hfits⟩

end AllocState

/-! ## The budget only rises -/

/-- What the budget of a store keeps: the reservation is a `usize`, and the growth step is within
its cap, which is one as well. -/
structure BudgetBounds (s : Store) : Prop where
  reserved : s.inner.gc.reserved ≤ usizeMax
  step : s.nextGrow ≤ max s.inner.gc.reservation reserveBatch
  cap : max s.inner.gc.reservation reserveBatch ≤ usizeMax

/-- Neither the reservation nor the growth step is lower. -/
structure Raised (s s' : Store) : Prop where
  reserved : s.inner.gc.reserved ≤ s'.inner.gc.reserved
  step : s.nextGrow ≤ s'.nextGrow

theorem Raised.trans {a b c : Store} (h : Raised a b) (h' : Raised b c) : Raised a c :=
  ⟨h.reserved.trans h'.reserved, h.step.trans h'.step⟩

theorem Raised.refl (s : Store) : Raised s s := ⟨le_rfl, le_rfl⟩

variable {s s' : Store}

theorem Store.Work.raised (hs : BudgetBounds s) (h : s.Work s') :
    Raised s s' ∧ BudgetBounds s' := by
  refine ⟨⟨h.budget.reserved.ge, h.nextGrow.ge⟩, h.budget.reserved.trans_le hs.reserved, ?_, ?_⟩
  · rw [h.nextGrow, h.budget.reservation]
    exact hs.step
  · rw [h.budget.reservation]
    exact hs.cap

theorem grant_raised {target : ℕ} (hs : BudgetBounds s) (hle : s.inner.gc.reserved ≤ target)
    (hmax : target ≤ usizeMax) : Raised s (s.grant target).2 ∧ BudgetBounds (s.grant target).2 := by
  have hstep : s.nextGrow ≤ min (saturatingMul s.nextGrow 2)
      (max s.inner.gc.reservation reserveBatch) := by
    have := hs.step.trans hs.cap
    refine le_min (le_min ?_ this) hs.step
    omega
  exact ⟨⟨hle, hstep⟩, hmax, min_le_right _ _, hs.cap⟩

theorem Store.Granting.raised {target : ℕ} (hs : BudgetBounds s) (h : s.Granting target s') :
    Raised s s' ∧ BudgetBounds s' := by
  cases h <;> exact ⟨⟨le_rfl, le_rfl⟩, hs.reserved, hs.step, hs.cap⟩

theorem Store.Operates.raised (hs : BudgetBounds s) (h : s.Operates s') :
    Raised s s' ∧ BudgetBounds s' := by
  obtain ⟨granted, h⟩ := h
  cases h with
  | quiet h => exact h.raised hs
  | @denied s₁ _ target h h' =>
    obtain ⟨hraised, hbounds⟩ := h.raised hs
    have hasked : BudgetBounds (s₁.consult target false) :=
      ⟨hbounds.reserved, hbounds.step, hbounds.cap⟩
    obtain ⟨hraised', hbounds'⟩ := h'.raised hasked
    exact ⟨hraised.trans ⟨hraised'.reserved, hraised'.step⟩, hbounds'⟩
  | granted h hgrant hle hmax h' =>
    obtain ⟨hraised, hbounds⟩ := h.raised hs
    obtain ⟨hraised₂, hbounds₂⟩ := hgrant.raised hbounds
    obtain ⟨hraised₃, hbounds₃⟩ := grant_raised hbounds₂ (hgrant.reserved.1 ▸ hle) hmax
    obtain ⟨hraised', hbounds'⟩ := h'.raised hbounds₃
    exact ⟨((hraised.trans hraised₂).trans hraised₃).trans hraised', hbounds'⟩

/-- **The run lemma.** -/
theorem runAll_raised (hacc : Accounted s.inner) (hs : BudgetBounds s) {ops : List Store.StoreOp}
    (hops : ∀ op ∈ ops, op.Machine) :
    Raised s (s.runAll ops) ∧ Accounted (s.runAll ops).inner ∧ BudgetBounds (s.runAll ops) := by
  induction ops generalizing s with
  | nil => exact ⟨.refl s, hacc, hs⟩
  | cons op ops ih =>
    have hop := Store.run_operates hacc hs.reserved (hops op List.mem_cons_self)
    obtain ⟨hraised, hbounds⟩ := hop.raised hs
    obtain ⟨hrest, hacc', hbounds'⟩ := ih (hop.events.accounted hacc) hbounds
      fun op' h => hops op' (List.mem_cons_of_mem op h)
    exact ⟨hraised.trans hrest, hacc', hbounds'⟩

theorem budgetBounds_new (engine : TypeRegistry) (collecting : Bool) (reservation : ℕ) :
    BudgetBounds (Store.new engine collecting reservation) := by
  refine ⟨Nat.zero_le _, le_max_right _ _, max_le ?_ (by decide)⟩
  exact (min_le_right _ _).trans (by decide)

/-! ## The charges of the ops -/

theorem layFields_size_le (slotAt : List (ℕ → Slot)) (size : ℕ) :
    (layFields size slotAt).size ≤ size + 16 * slotAt.length := by
  induction slotAt generalizing size with
  | nil => exact Nat.le_refl _
  | cons f slotAt ih =>
    have hwidth := Slot.width_le (f size)
    have hrest := ih (size + (f size).width)
    rw [List.length_cons]
    show (layFields (size + (f size).width) slotAt).size ≤ _
    omega

/-- Vectors of a module have a `u32` length. -/
structure AllocEnv.Machine (env : AllocEnv) : Prop where
  fields : ∀ m ∈ env.modules, ∀ fields, .struct fields ∈ m.types → fields.length < 2 ^ 32
  params : ∀ params ∈ env.tagParams, params.length < 2 ^ 32

/-- The immediate of `array.new_fixed` is a `u32`. -/
def AllocInstr.Machine : AllocInstr → Prop
  | .arrayNewFixed _ n => n < 2 ^ 32
  | _ => True

theorem structLayout_size_le {env : AllocEnv} (henv : env.Machine) {inst ty : ℕ}
    {l : StructLayout} (h : env.structLayout inst ty = .ok l) : l.size ≤ 2 ^ 36 := by
  unfold AllocEnv.structLayout AllocEnv.layout at h
  obtain ⟨layout, hl, h⟩ := bind_ok h
  obtain ⟨m, hm, hl⟩ := bind_ok hl
  obtain rfl := Except.ok.inj hl
  split at h
  · rename_i l' hl'
    obtain rfl := Except.ok.inj h
    obtain ⟨body, hbody, hl⟩ := Option.bind_eq_some_iff.mp hl'
    cases body with
    | func params results => nomatch hl
    | array f => nomatch Option.some.inj hl
    | struct fields =>
      obtain rfl := Layout.struct.inj (Option.some.inj hl)
      have hlen := henv.fields m (List.mem_of_getElem? (ConstCtx.indexed_ok hm)) fields
        (List.mem_of_getElem? hbody)
      have hsize := layFields_size_le (fields.map fieldSlot) 0
      rw [List.length_map] at hsize
      show (layFields 0 (fields.map fieldSlot)).size ≤ _
      omega
  · nomatch h

theorem objectCharge_lt {n : ℕ} (h : n ≤ 2 ^ 36) : objectCharge n < 2 ^ 38 := by
  unfold objectCharge saturatingAdd objectOverhead
  omega

theorem bodySize_le {count stride : ℕ} (hc : count < 2 ^ 32) (hs : stride ≤ 16) :
    count * stride ≤ 2 ^ 36 :=
  calc count * stride ≤ 2 ^ 32 * 16 := Nat.mul_le_mul hc.le hs
    _ = 2 ^ 36 := by decide

/-- No op asks for more than a small part of an address space. -/
theorem gcAllocCharge_lt {env : AllocEnv} (henv : env.Machine) {inst : ℕ} {g : AllocState}
    {instr : AllocInstr} (hinstr : instr.Machine) {charge : ℕ}
    (h : g.gcAllocCharge env inst instr = .ok charge) : charge < 2 ^ 38 := by
  have hcount : ∀ {n}, g.peekCount = .ok n → n < 2 ^ 32 := by
    intro n hn
    unfold AllocState.peekCount at hn
    rcases htop : onStack g.exec.topI32 with e | v
    · rw [htop] at hn
      cases hn
    · rw [htop] at hn
      rw [← Except.ok.inj hn]
      exact v.isLt
  have hclamped : ∀ {count stride seg : ℕ}, count < 2 ^ 32 → stride ≤ 16 →
      segClampedCharge count stride seg ≤ 2 ^ 36 := by
    intro count stride seg hc hs
    have hle := bodySize_le hc hs
    have husize : count * stride ≤ usizeMax := hle.trans (by decide)
    unfold segClampedCharge checkedMul
    rw [if_pos husize]
    exact (min_le_left _ _).trans hle
  cases instr with
  | structNew ty =>
    obtain ⟨l, hl, h⟩ := bind_ok h
    rw [← Except.ok.inj h]
    exact objectCharge_lt (structLayout_size_le henv hl)
  | structNewDefault ty =>
    obtain ⟨l, hl, h⟩ := bind_ok h
    rw [← Except.ok.inj h]
    exact objectCharge_lt (structLayout_size_le henv hl)
  | arrayNew ty =>
    obtain ⟨l, hl, h⟩ := bind_ok h
    obtain ⟨count, hc, h⟩ := bind_ok h
    obtain ⟨n, hn, h⟩ := bind_ok h
    obtain ⟨rfl, -⟩ := arrayBytes_ok (inStore_ok hn)
    rw [← Except.ok.inj h]
    exact objectCharge_lt (bodySize_le (hcount hc) (AllocEnv.arrayLayout_stride hl))
  | arrayNewDefault ty =>
    obtain ⟨l, hl, h⟩ := bind_ok h
    obtain ⟨count, hc, h⟩ := bind_ok h
    obtain ⟨n, hn, h⟩ := bind_ok h
    obtain ⟨rfl, -⟩ := arrayBytes_ok (inStore_ok hn)
    rw [← Except.ok.inj h]
    exact objectCharge_lt (bodySize_le (hcount hc) (AllocEnv.arrayLayout_stride hl))
  | arrayNewFixed ty n =>
    obtain ⟨l, hl, h⟩ := bind_ok h
    rw [← Except.ok.inj h]
    exact objectCharge_lt (bodySize_le hinstr (AllocEnv.arrayLayout_stride hl))
  | arrayNewData ty data =>
    obtain ⟨l, hl, h⟩ := bind_ok h
    obtain ⟨⟨seg, dropped⟩, -, h⟩ := bind_ok h
    obtain ⟨count, hc, h⟩ := bind_ok h
    rw [← Except.ok.inj h]
    exact objectCharge_lt (hclamped (hcount hc) (AllocEnv.arrayLayout_stride hl))
  | arrayNewElem ty elem =>
    obtain ⟨l, hl, h⟩ := bind_ok h
    obtain ⟨seg, -, h⟩ := bind_ok h
    obtain ⟨count, hc, h⟩ := bind_ok h
    rw [← Except.ok.inj h]
    exact objectCharge_lt (hclamped (hcount hc) (AllocEnv.arrayLayout_stride hl))
  | throw tag =>
    obtain ⟨⟨handle, params⟩, htag, h⟩ := bind_ok h
    unfold AllocEnv.tag at htag
    obtain ⟨tags, -, htag⟩ := bind_ok htag
    obtain ⟨handle', -, htag⟩ := bind_ok htag
    obtain ⟨params', hparams, htag⟩ := bind_ok htag
    obtain ⟨-, rfl⟩ := Prod.mk.inj (Except.ok.inj htag)
    have hlen := henv.params _ (List.mem_of_getElem? (ConstCtx.indexed_ok hparams))
    rw [← Except.ok.inj h]
    unfold exnCharge arenaEntryOverhead valSize
    dsimp only
    omega

/-! ## No livelock -/

namespace AllocState

/-- The op suspended by `g` for a growth goes on once that is granted, whatever collections run in
between: it has the charge it had, which the grown reservation covers, and does not suspend for a
growth again. -/
def Resumes (env : AllocEnv) (inst next : ℕ) (instr : AllocInstr) (charge : ℕ) (g' : AllocState)
    (target bytesNeeded : ℕ) : Prop :=
  ∀ limiter granted retried,
    g'.store.growGcReservation target bytesNeeded limiter = (granted, .ok ()) →
    Store.Collections granted retried →
    { g' with store := retried }.gcAllocCharge env inst instr = .ok charge ∧
      retried.inner.gc.fits charge = true ∧
      ∀ target' bytesNeeded' ip',
        ({ g' with store := retried }.step env inst next instr).2 ≠
          .ok (.doGcGrow target' bytesNeeded' ip')

/-- **No livelock.**  An op that suspends for a growth finds its charge covered once that is granted
and goes on, if the bytes in use and its charge have a sum; every charge is below `2 ^ 38`; and
through any history neither the reservation nor the growth step goes down, nor do they leave a
`usize`. -/
theorem growth_progress (env : AllocEnv) (henv : env.Machine) (inst next : ℕ) (g g' : AllocState)
    (instr : AllocInstr) (hinstr : instr.Machine) (target bytesNeeded ip : ℕ)
    (h : g.step env inst next instr = (g', .ok (.doGcGrow target bytesNeeded ip))) :
    (∃ charge, g.gcAllocCharge env inst instr = .ok charge ∧ charge < 2 ^ 38 ∧
      (g'.store.inner.gc.used + charge ≤ usizeMax →
        Resumes env inst next instr charge g' target bytesNeeded)) ∧
    ∀ engine collecting reservation ops later,
      (∀ op ∈ ops ++ later, Store.StoreOp.Machine op) →
      Raised ((Store.new engine collecting reservation).runAll ops)
          ((Store.new engine collecting reservation).runAll (ops ++ later)) ∧
        BudgetBounds ((Store.new engine collecting reservation).runAll (ops ++ later)) := by
  constructor
  · obtain ⟨charge, -, hc, -, -, -⟩ := step_doGcGrow h
    refine ⟨charge, hc, gcAllocCharge_lt henv hinstr hc, ?_⟩
    intro hsum limiter granted retried hgranted hretried
    obtain ⟨hagain, hfits⟩ := retry_fits h hc hsum hgranted hretried
    exact ⟨hagain, hfits, step_of_fits hagain hfits⟩
  · intro engine collecting reservation ops later hops
    obtain ⟨-, hacc, hbounds⟩ := runAll_raised (accounted_new engine collecting reservation)
      (budgetBounds_new engine collecting reservation)
      fun op hop => hops op (List.mem_append_left later hop)
    obtain ⟨hraised, -, hbounds'⟩ := runAll_raised hacc hbounds
      fun op hop => hops op (List.mem_append_right ops hop)
    unfold Store.runAll at hraised hbounds' ⊢
    rw [List.foldl_append]
    exact ⟨hraised, hbounds'⟩

theorem growth_progress_garbage :
    (∃ charge, garbage.gcAllocCharge byteEnv 0 (.arrayNewDefault 0) = .ok charge ∧
      charge < 2 ^ 38 ∧
      ((garbage.step byteEnv 0 1 (.arrayNewDefault 0)).1.store.inner.gc.used + charge ≤ usizeMax →
        Resumes byteEnv 0 1 (.arrayNewDefault 0) charge
          (garbage.step byteEnv 0 1 (.arrayNewDefault 0)).1 65536 45)) := by
  have henv : byteEnv.Machine := by
    constructor
    · intro m hm fields hfields
      obtain rfl := List.mem_singleton.mp hm
      nomatch List.mem_singleton.mp hfields
    · intro params hparams
      exact absurd hparams List.not_mem_nil
  exact (growth_progress byteEnv henv 0 1 garbage _ (.arrayNewDefault 0) trivial 65536 45 0
    (Prod.ext rfl (by decide +kernel))).1

/-- No byte more has a sum with those in use. -/
def brimful : AllocState where
  exec := garbage.exec
  store := ⟨{ StoreInner.new .empty false 0 with
    gc := { GcHeap.new false 0 with used := usizeMax } }, reserveBatch, []⟩
  memories := []
  droppedData := [[false]]

/-- There the whole address space is asked for, and when it is granted the op suspends again. -/
theorem not_resumes_brimful :
    (brimful.step byteEnv 0 1 (.arrayNewDefault 0)).2 = .ok (.doGcGrow usizeMax 45 0) ∧
      ∀ charge, ¬ Resumes byteEnv 0 1 (.arrayNewDefault 0) charge
        (brimful.step byteEnv 0 1 (.arrayNewDefault 0)).1 usizeMax 45 := by
  refine ⟨by decide +kernel, fun charge h => ?_⟩
  obtain ⟨-, -, hgrow⟩ :=
    h (.sync (.ok true)) _ _ (Prod.ext rfl (by decide +kernel)) (.refl _)
  exact hgrow usizeMax 45 0 (by decide +kernel)

end AllocState

end SubmilliWasm
