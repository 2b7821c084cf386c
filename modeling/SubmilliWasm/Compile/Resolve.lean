/-
# The translator emits the layout

Every function the translator finishes holds its body as `CodeAt` describes it
(`translateFunction_code`).  The argument runs backwards from the finished code `C`: a
`Fate` says what becomes of each open frame, where its end and its `else` part lie, and
`Resolves t E C` says that `C` agrees with what `t` has emitted once the branches that `t`
still waits for are written with those fates.  A stretch of operators that `Extends` `t`
keeps this, and each op is read off `C` where it was emitted.
-/
import SubmilliWasm.Compile.CodeAt

namespace SubmilliWasm

namespace Translator

/-! ## Pending places -/

/-- What becomes of an open frame: the addresses of its end and of its `else` part, and whether
the code behind its end is reachable. -/
structure Fate where
  endIp : ℕ
  elseIp : ℕ
  live : Bool

/-- The frame `f` waits to write the target `ip` at a place. -/
inductive Waits (ops : List Op) (f : CtrlFrame) (φ : Fate) : Place → ℕ → Prop where
  | end_ {p a} (hp : p ∈ f.endPatches) (ha : place ops p = some a) : Waits ops f φ a φ.endIp
  | else_ {i} (h : f.elsePatch = some i) : Waits ops f φ (.inline i) φ.elseIp

/-- Some open frame waits to write the target `ip` at a place. -/
def Pending (ops : List Op) (ctrl : List CtrlFrame) (E : List Fate) (a : Place) (ip : ℕ) : Prop :=
  ∃ (d : ℕ) (f : CtrlFrame) (φ : Fate), ctrl[d]? = some f ∧ E[d]? = some φ ∧ Waits ops f φ a ip

variable {C : CompiledFunc} {f : CtrlFrame} {φ : Fate} {d : List CtrlFrame} {E : List Fate}
  {t u : Translator}

variable {a : Place} {i ip : ℕ}

theorem pending_cons {ops : List Op} {c : List CtrlFrame} :
    Pending ops (f :: c) (φ :: E) a ip ↔ Waits ops f φ a ip ∨ Pending ops c E a ip := by
  constructor
  · rintro ⟨d, g, ψ, hg, hψ, hw⟩
    cases d with
    | zero =>
      obtain rfl : f = g := Option.some.inj hg
      obtain rfl : φ = ψ := Option.some.inj hψ
      exact .inl hw
    | succ d => exact .inr ⟨d, g, ψ, hg, hψ, hw⟩
  · rintro (hw | ⟨d, g, ψ, hg, hψ, hw⟩)
    · exact ⟨0, f, φ, rfl, rfl, hw⟩
    · exact ⟨d + 1, g, ψ, hg, hψ, hw⟩

/-- The entry `x` of a place becomes `y` once the frames have written their targets. -/
def Settles (t : Translator) (E : List Fate) (a : Place) (x y : Entry) : Prop :=
  (∃ ip, Pending t.ops t.ctrl E a ip ∧ y = write ip x) ∨
    ((∀ ip, ¬Pending t.ops t.ctrl E a ip) ∧ y = x)

/-- `C` is what becomes of the streams of `t` if its open frames have the fates `E`. -/
structure Resolves (t : Translator) (E : List Fate) (C : CompiledFunc) : Prop where
  length_eq : E.length = t.ctrl.length
  read : ∀ a x, ¬Fresh t a → read t.ops t.brTables a = some x →
    ∃ y, Translator.read C.ops C.brTables a = some y ∧ Settles t E a x y
  targeted : ∀ (d : ℕ) (f : CtrlFrame) (φ : Fate), t.ctrl[d]? = some f → E[d]? = some φ →
    f.endTargeted = true → φ.live = true
  handlers : t.handlers <+: C.handlers
  bigMemargs : t.bigMemargs <+: C.bigMemargs

theorem forall₂_getElem? {α β : Type} {R : α → β → Prop} {xs : List α} {ys : List β}
    (h : List.Forall₂ R xs ys) :
    (∀ x, xs[i]? = some x → ∃ y, ys[i]? = some y ∧ R x y) ∧
      ∀ y, ys[i]? = some y → ∃ x, xs[i]? = some x ∧ R x y := by
  induction h generalizing i with
  | nil => exact ⟨fun x hx => (by cases hx), fun y hy => (by cases hy)⟩
  | @cons x y xs ys hxy _ ih =>
    cases i with
    | zero =>
      refine ⟨fun x' hx => ⟨y, rfl, ?_⟩, fun y' hy => ⟨x, rfl, ?_⟩⟩
      · obtain rfl : x = x' := Option.some.inj hx
        exact hxy
      · obtain rfl : y = y' := Option.some.inj hy
        exact hxy
    | succ i => exact ih

/-- Later operators change nothing at the places of `t`. -/
theorem Extends.pending_iff (h : Extends t u) (ht : Tracked t) (ha : ¬Fresh t a) :
    Pending u.ops u.ctrl E a ip ↔ Pending t.ops t.ctrl E a ip := by
  constructor
  · rintro ⟨d, f', φ, hf', hφ, hw⟩
    obtain ⟨f, hf, hext⟩ := (forall₂_getElem? h.frames).2 f' hf'
    refine ⟨d, f, φ, hf, hφ, ?_⟩
    obtain ⟨new, hnew, hn⟩ := hext.patches
    rcases hw with ⟨hp, hpl⟩ | helse
    · rw [hnew] at hp
      rcases List.mem_append.mp hp with hp | hp
      · obtain ⟨hop, -⟩ := ht.endPatches f (List.mem_of_getElem? hf) _ hp
        exact .end_ hp ((h.place_eq hop).symm.trans hpl)
      · obtain ⟨-, b, hb, hfr, -⟩ := hn _ hp
        obtain rfl : b = a := Option.some.inj (hb.symm.trans hpl)
        exact absurd hfr ha
    · rw [hext.same] at helse
      exact .else_ helse
  · rintro ⟨d, f, φ, hf, hφ, hw⟩
    obtain ⟨f', hf', hext⟩ := (forall₂_getElem? h.frames).1 f hf
    refine ⟨d, f', φ, hf', hφ, ?_⟩
    obtain ⟨new, hnew, hn⟩ := hext.patches
    rcases hw with ⟨hp, hpl⟩ | helse
    · obtain ⟨hop, -⟩ := ht.endPatches f (List.mem_of_getElem? hf) _ hp
      refine .end_ ?_ ((h.place_eq hop).trans hpl)
      rw [hnew]
      exact List.mem_append_left _ hp
    · refine .else_ ?_
      rw [hext.same]
      exact helse

/-- The code a stretch of operators resolves to is also that of the translator before it. -/
theorem Resolves.back (hu : Resolves u E C) (h : Extends t u) (ht : Tracked t) :
    Resolves t E C := by
  refine ⟨hu.length_eq.trans h.frames.length_eq.symm, fun a x ha hx => ?_,
    fun d f φ hf hφ htg => ?_, h.handlers.trans hu.handlers, h.bigMemargs.trans hu.bigMemargs⟩
  · obtain ⟨y, hy, hs⟩ := hu.read a x (fun hfr => ha (h.fresh hfr)) ((h.read a ha).trans hx)
    refine ⟨y, hy, ?_⟩
    rcases hs with ⟨ip, hp, rfl⟩ | ⟨hnp, rfl⟩
    · exact .inl ⟨ip, (h.pending_iff ht ha).mp hp, rfl⟩
    · exact .inr ⟨fun ip hp => hnp ip ((h.pending_iff ht ha).mpr hp), rfl⟩
  · obtain ⟨f', hf', hext⟩ := (forall₂_getElem? h.frames).1 f hf
    exact hu.targeted d f' φ hf' hφ (hext.targeted htg)

/-! ## Reading an op where it was emitted -/

/-- The frames after a list of branches. -/
theorem foldl_addPatch (regs : List (ℕ × PatchSlot)) (n : ℕ) (fs : List CtrlFrame) {d : ℕ}
    {f' : CtrlFrame}
    (h : (regs.foldl (fun fs r => fs.modify r.1 (·.addPatch ⟨n, r.2⟩)) fs)[d]? = some f') :
    ∃ f, fs[d]? = some f ∧ f'.elsePatch = f.elsePatch ∧
      (∀ p ∈ f'.endPatches, p ∈ f.endPatches ∨ ∃ r ∈ regs, r.1 = d ∧ p = ⟨n, r.2⟩) ∧
      (∀ r ∈ regs, r.1 = d → ⟨n, r.2⟩ ∈ f'.endPatches ∧ f'.endTargeted = true) ∧
      (∀ p ∈ f.endPatches, p ∈ f'.endPatches) ∧
      (f.endTargeted = true → f'.endTargeted = true) := by
  induction regs generalizing fs with
  | nil =>
    exact ⟨f', h, rfl, fun p hp => .inl hp, fun r hr => absurd hr List.not_mem_nil,
      fun p hp => hp, fun ht => ht⟩
  | cons r regs ih =>
    obtain ⟨g, hg, helse, hmem, hreg, hkeep, htg⟩ := ih _ h
    by_cases hd : r.1 = d
    · subst hd
      rw [List.getElem?_modify_eq] at hg
      rcases hf : fs[r.1]? with _ | f
      · rw [hf] at hg
        cases hg
      rw [hf] at hg
      obtain rfl : f.addPatch ⟨n, r.2⟩ = g := Option.some.inj hg
      refine ⟨f, rfl, helse, fun p hp => ?_, fun r' hr' hd' => ?_, fun p hp => ?_, fun _ => ?_⟩
      · rcases hmem p hp with hp | ⟨r', hr', hd', rfl⟩
        · rcases List.mem_append.mp hp with hp | hp
          · exact .inl hp
          · exact .inr ⟨r, List.mem_cons_self, rfl, List.mem_singleton.mp hp⟩
        · exact .inr ⟨r', List.mem_cons_of_mem _ hr', hd', rfl⟩
      · rcases List.mem_cons.mp hr' with rfl | hr'
        · exact ⟨hkeep _ (List.mem_append_right _ (List.mem_singleton_self _)), htg rfl⟩
        · exact hreg r' hr' hd'
      · exact hkeep p (List.mem_append_left _ hp)
      · exact htg rfl
    · rw [List.getElem?_modify_ne _ _ hd] at hg
      refine ⟨g, hg, helse, fun p hp => ?_, fun r' hr' hd' => ?_, hkeep, htg⟩
      · rcases hmem p hp with hp | ⟨r', hr', hd', rfl⟩
        · exact .inl hp
        · exact .inr ⟨r', List.mem_cons_of_mem _ hr', hd', rfl⟩
      · rcases List.mem_cons.mp hr' with rfl | hr'
        · exact absurd hd' hd
        · exact hreg r' hr' hd'

section Emitted

variable {t u : Translator} {n : ℕ} {op : Op} {edges : List BranchTarget}
  {regs : List (ℕ × PatchSlot)} {E : List Fate} {C : CompiledFunc}

/-- A new place is waited for by the branches of the op alone. -/
theorem Emits.pending (h : Emits t u n op edges regs) (ht : Tracked t) {a : Place} {ip : ℕ}
    (ha : Fresh t a) (hp : Pending u.ops u.ctrl E a ip) :
    ∃ r ∈ regs, ∃ φ, E[r.1]? = some φ ∧ ip = φ.endIp ∧ place u.ops ⟨n, r.2⟩ = some a := by
  obtain ⟨d, f', φ, hf', hφ, hw⟩ := hp
  rw [h.ctrl] at hf'
  obtain ⟨f, hf, helse, hmem, -⟩ := foldl_addPatch regs n t.ctrl hf'
  have hfm : f ∈ t.ctrl := List.mem_of_getElem? hf
  rcases hw with ⟨hpm, hpl⟩ | he
  · rcases hmem _ hpm with hpm | ⟨r, hr, rfl, rfl⟩
    · obtain ⟨hop, b, hb, hnf⟩ := ht.endPatches f hfm _ hpm
      rw [h.ext.place_eq hop] at hpl
      obtain rfl : b = a := Option.some.inj (hb.symm.trans hpl)
      exact absurd ha hnf
    · exact ⟨r, hr, φ, hφ, rfl, hpl⟩
  · rw [helse] at he
    exact absurd (show t.settled ≤ _ from ha) (Nat.not_le.mpr (ht.elsePatch f hfm _ he).1)

variable {f : CtrlFrame} {φ : Fate} {h l : ℕ}

/-- The branches of the op wait for their places, and their frames are targeted. -/
theorem Emits.pending_reg (h : Emits t u n op edges regs) {r : ℕ × PatchSlot} (hr : r ∈ regs)
    (hf : t.ctrl[r.1]? = some f) (hφ : E[r.1]? = some φ) {a : Place}
    (ha : place u.ops ⟨n, r.2⟩ = some a) :
    Pending u.ops u.ctrl E a φ.endIp ∧ (Resolves u E C → φ.live = true) := by
  obtain ⟨f', hf', -⟩ := (forall₂_getElem? h.frames).1 f hf
  have hfold := hf'
  rw [h.ctrl] at hfold
  obtain ⟨-, -, -, -, hreg, -⟩ := foldl_addPatch regs n t.ctrl hfold
  obtain ⟨hmem, htg⟩ := hreg r hr rfl
  exact ⟨⟨r.1, f', φ, hf', hφ, .end_ hmem ha⟩, fun hres => hres.targeted r.1 f' φ hf' hφ htg⟩

/-- An op without inline branches is in the code as it was emitted. -/
theorem Emits.read_op (h : Emits t u n op edges regs) (ht : Tracked t) (hres : Resolves u E C)
    (hfuse : fusableCmpOf op = none)
    (hregs : ∀ r ∈ regs, place u.ops ⟨n, r.2⟩ ≠ some (.inline n)) : C.ops[n]? = some op := by
  have hset := h.settled_eq hfuse
  obtain ⟨y, hy, hs⟩ := hres.read (.inline n) (.inl op)
    (by show ¬u.settled ≤ n; omega) (by show Option.map _ _ = _; rw [h.ops_self]; rfl)
  rcases hs with ⟨ip, hp, -⟩ | ⟨-, rfl⟩
  · obtain ⟨r, hr, -, -, -, hpl⟩ := h.pending ht (a := .inline n) h.settled_le hp
    exact absurd hpl (hregs r hr)
  · obtain ⟨o, ho, heq⟩ := Option.map_eq_some_iff.mp hy
    cases heq
    exact ho

/-- The label of a frame with a given fate. -/
def frameTarget (f : CtrlFrame) (φ : Fate) : Target :=
  if f.kind = .loop then ⟨f.startIp, f.baseHeight, f.labelArity, true⟩
  else ⟨φ.endIp, f.baseHeight, f.labelArity, φ.live⟩

/-- The labels of the open frames. -/
def targets (ctrl : List CtrlFrame) (E : List Fate) : List Target :=
  List.zipWith frameTarget ctrl E

theorem targets_getElem? {ctrl : List CtrlFrame} {E : List Fate} (hf : ctrl[l]? = some f)
    (hφ : E[l]? = some φ) : (targets ctrl E)[l]? = some (frameTarget f φ) := by
  unfold targets
  rw [List.getElem?_zipWith, hf, hφ]

/-- The edge of a branch, once its frame has written the target. -/
theorem edgeTo_frameTarget :
    (frameTarget f φ).edge h
      = if f.kind = .loop then edgeTo f h else { edgeTo f h with ip := φ.endIp } := by
  unfold frameTarget edgeTo Target.edge
  by_cases hk : f.kind = .loop
  · simp only [if_pos hk]
  · simp only [if_neg hk]

theorem Resolves.fate (hres : Resolves u E C) (hl : t.ctrl.length = u.ctrl.length)
    (hf : t.ctrl[l]? = some f) : ∃ φ, E[l]? = some φ := by
  obtain ⟨hlt, -⟩ := List.getElem?_eq_some_iff.mp hf
  exact ⟨_, List.getElem?_eq_getElem (by rw [hres.length_eq]; omega)⟩

/-- An edge in the code is that of the label it names. -/
theorem edgeTo_of_frame {fs : List CtrlFrame} (hf : fs[l]? = some f) (hφ : E[l]? = some φ)
    (hle : f.baseHeight + f.labelArity ≤ h) (hlive : f.kind ≠ .loop → φ.live = true) :
    EdgeTo (targets fs E) h l ((frameTarget f φ).edge h) := by
  refine ⟨_, targets_getElem? hf hφ, ?_, ?_, rfl⟩
  · unfold frameTarget
    by_cases hk : f.kind = .loop
    · rw [if_pos hk]
    · rw [if_neg hk]
      exact hlive hk
  · unfold frameTarget
    by_cases hk : f.kind = .loop
    · rw [if_pos hk]
      exact hle
    · rw [if_neg hk]
      exact hle

/-- An op with an inline edge listed in one frame, read off the code. -/
theorem Emits.read_listed {m : BranchTarget → Op} {e : BranchTarget}
    (hem : Emits t u n (m e) edges [(l, .single)]) (ht : Tracked t) (hres : Resolves u E C)
    (hf : t.ctrl[l]? = some f) (hφ : E[l]? = some φ)
    (hmk : ∀ ip e, setIp ip (m e) = m { e with ip }) (hflat : ∀ e s, flatIndex s (m e) = none)
    (hfuse : ∀ e, fusableCmpOf (m e) = none) :
    C.ops[n]? = some (m { e with ip := φ.endIp }) ∧ φ.live = true := by
  have hpl : place u.ops ⟨n, .single⟩ = some (.inline n) := by
    unfold place
    rw [show u.ops[n]? = _ from hem.ops_self]
    simp only [Option.map_some, hflat]
  have hset := hem.settled_eq (hfuse _)
  have hreg := hem.pending_reg (C := C) (List.mem_singleton_self _) hf hφ hpl
  refine ⟨?_, hreg.2 hres⟩
  obtain ⟨y, hy, hs⟩ := hres.read (.inline n) (.inl (m e))
    (by show ¬u.settled ≤ n; omega) (by show Option.map _ _ = _; rw [hem.ops_self]; rfl)
  rcases hs with ⟨ip, hp, rfl⟩ | ⟨hnp, -⟩
  · obtain ⟨r, hrm, ψ, hψ, rfl, -⟩ := hem.pending ht (a := .inline n) hem.settled_le hp
    obtain rfl := List.mem_singleton.mp hrm
    obtain rfl : φ = ψ := Option.some.inj (hφ.symm.trans hψ)
    obtain ⟨o, ho, heq⟩ := Option.map_eq_some_iff.mp hy
    cases heq
    rw [ho, hmk]
  · exact absurd hreg.1 (hnp _)

/-- A branch op with an inline edge, read off the code. -/
theorem Emits.read_branch {m : BranchTarget → Op}
    (hem : Emits t u n (m (edgeTo f h)) [] (branchRegs f l .single)) (ht : Tracked t)
    (hres : Resolves u E C) (hf : t.ctrl[l]? = some f) (hle : f.baseHeight + f.labelArity ≤ h)
    (hmk : ∀ ip e, setIp ip (m e) = m { e with ip }) (hflat : ∀ e s, flatIndex s (m e) = none)
    (hfuse : ∀ e, fusableCmpOf (m e) = none) :
    ∃ e, C.ops[n]? = some (m e) ∧ EdgeTo (targets t.ctrl E) h l e := by
  obtain ⟨φ, hφ⟩ := hres.fate hem.frames.length_eq hf
  refine ⟨(frameTarget f φ).edge h, ?_⟩
  rw [edgeTo_frameTarget]
  unfold branchRegs at hem
  by_cases hk : f.kind = .loop
  · rw [if_pos hk] at hem ⊢
    have hop := hem.read_op ht hres (hfuse _) fun r hr => absurd hr List.not_mem_nil
    refine ⟨hop, ?_⟩
    have he := edgeTo_of_frame hf hφ hle fun h' => absurd hk h'
    rwa [edgeTo_frameTarget, if_pos hk] at he
  · rw [if_neg hk] at hem ⊢
    obtain ⟨hop, hlive⟩ := hem.read_listed ht hres hf hφ hmk hflat hfuse
    refine ⟨hop, ?_⟩
    have he := edgeTo_of_frame hf hφ hle fun _ => hlive
    rwa [edgeTo_frameTarget, if_neg hk] at he

/-- A pooled edge, read off the code. -/
theorem Emits.read_edge {i : ℕ} {s : PatchSlot} (hem : Emits t u n op edges regs) (ht : Tracked t)
    (hres : Resolves u E C) (hf : t.ctrl[l]? = some f) (hle : f.baseHeight + f.labelArity ≤ h)
    (hi : edges[i]? = some (edgeTo f h)) (hflat : flatIndex s op = some (t.brTables.length + i))
    (hreg : f.kind ≠ .loop → (l, s) ∈ regs)
    (honly : ∀ r ∈ regs, flatIndex r.2 op = some (t.brTables.length + i) →
      f.kind ≠ .loop ∧ r.1 = l) :
    ∃ e, C.brTables[t.brTables.length + i]? = some e ∧ EdgeTo (targets t.ctrl E) h l e := by
  obtain ⟨φ, hφ⟩ := hres.fate hem.frames.length_eq hf
  obtain ⟨hlt, -⟩ := List.getElem?_eq_some_iff.mp hi
  have hplace : ∀ s, flatIndex s op = some (t.brTables.length + i) →
      place u.ops ⟨n, s⟩ = some (.pool (t.brTables.length + i)) := by
    intro s hs
    unfold place
    rw [show u.ops[n]? = _ from hem.ops_self]
    simp only [Option.map_some, hs]
  have hself : u.brTables[t.brTables.length + i]? = some (edgeTo f h) := by
    rw [hem.brTables, List.getElem?_append_right (Nat.le_add_right _ _), Nat.add_sub_cancel_left]
    exact hi
  obtain ⟨y, hy, hs⟩ := hres.read (.pool (t.brTables.length + i)) (.inr (edgeTo f h))
    (by
      show ¬u.brTables.length ≤ _
      rw [hem.brTables, List.length_append]
      omega)
    (by show Option.map _ _ = _; rw [hself]; rfl)
  have hfresh : Fresh t (.pool (t.brTables.length + i)) := Nat.le_add_right _ _
  refine ⟨(frameTarget f φ).edge h, ?_, ?_⟩
  · rw [edgeTo_frameTarget]
    rcases hs with ⟨ip, hp, rfl⟩ | ⟨hnp, rfl⟩
    · obtain ⟨r, hrm, ψ, hψ, rfl, hpl⟩ := hem.pending ht hfresh hp
      have hfl : flatIndex r.2 op = some (t.brTables.length + i) := by
        unfold place at hpl
        rw [show u.ops[n]? = _ from hem.ops_self] at hpl
        simp only [Option.map_some, Option.some.injEq] at hpl
        split at hpl
        · rename_i j hj
          cases hpl
          exact hj
        · cases hpl
      obtain ⟨hk, rfl⟩ := honly r hrm hfl
      obtain rfl : φ = ψ := Option.some.inj (hφ.symm.trans hψ)
      rw [if_neg hk]
      obtain ⟨o, ho, heq⟩ := Option.map_eq_some_iff.mp hy
      cases heq
      exact ho
    · have hk : f.kind = .loop := by
        by_contra hk
        exact hnp _ (hem.pending_reg (C := C) (hreg hk) hf hφ (hplace s hflat)).1
      rw [if_pos hk]
      obtain ⟨o, ho, heq⟩ := Option.map_eq_some_iff.mp hy
      cases heq
      exact ho
  · refine edgeTo_of_frame hf hφ hle fun hk => ?_
    exact (hem.pending_reg (C := C) (hreg hk) hf hφ (hplace s hflat)).2 hres

end Emitted

/-! ## Closing a frame -/

/-- Places depend on the ops only through the place of each patch. -/
theorem pending_congr {ops ops' : List Op} {ctrl : List CtrlFrame}
    (h : ∀ p, place ops' p = place ops p) : Pending ops' ctrl E a ip ↔ Pending ops ctrl E a ip := by
  have key : ∀ {o o' : List Op}, (∀ p, place o' p = place o p) →
      Pending o' ctrl E a ip → Pending o ctrl E a ip := by
    rintro o o' ho ⟨d, f, φ, hf, hφ, hw⟩
    refine ⟨d, f, φ, hf, hφ, ?_⟩
    rcases hw with ⟨hp, ha⟩ | he
    · exact .end_ hp ((ho _).symm.trans ha)
    · exact .else_ he
  exact ⟨key h, key fun p => (h p).symm⟩

/-- Patches do not look at the frames. -/
theorem patchAll_ctrl (ps : List Patch) (t : Translator) (c : List CtrlFrame) (ip : ℕ) :
    Translator.patchAll { t with ctrl := c } ps ip = { t.patchAll ps ip with ctrl := c } := by
  induction ps generalizing t with
  | nil => rfl
  | cons p ps ih =>
    have hp : Translator.patchIp { t with ctrl := c } p.op p.slot ip
        = { t.patchIp p.op p.slot ip with ctrl := c } := by
      unfold patchIp
      rcases t.ops[p.op]? with _ | o
      · rfl
      · simp only
        rcases flatIndex p.slot o with _ | j <;> rfl
    show Translator.patchAll (Translator.patchIp { t with ctrl := c } p.op p.slot ip) ps ip = _
    rw [hp]
    exact ih _

/-- Targets written by `patchAll` are those the frames of `x` waited for. -/
theorem Resolves.patchAll_back {x y : Translator} {Ex Ey : List Fate} {q : List Patch}
    (hy : Resolves y Ey C) (hlen : Ex.length = x.ctrl.length) (hops : y.ops = (x.patchAll q i).ops)
    (hpool : y.brTables = (x.patchAll q i).brTables) (hfresh : ∀ a, Fresh y a → Fresh x a)
    (hpend : ∀ a ip', Pending x.ops x.ctrl Ex a ip' ↔
      Pending y.ops y.ctrl Ey a ip' ∨ ip' = i ∧ ∃ p ∈ q, place x.ops p = some a)
    (htarget : ∀ (d : ℕ) (f : CtrlFrame) (φ : Fate), x.ctrl[d]? = some f → Ex[d]? = some φ →
      f.endTargeted = true → φ.live = true) (hhandlers : x.handlers <+: y.handlers)
    (hmem : x.bigMemargs <+: y.bigMemargs) : Resolves x Ex C := by
  refine ⟨hlen, fun a v ha hv => ?_, htarget, hhandlers.trans hy.handlers,
    hmem.trans hy.bigMemargs⟩
  have hya : ¬Fresh y a := fun h => ha (hfresh a h)
  rcases read_patchAll q x i a with ⟨hhit, hread⟩ | ⟨hmiss, hread⟩
  · -- a listed place: a frame of `y` may write it once more, else it keeps `i`
    rw [← hops, ← hpool, hv] at hread
    obtain ⟨z, hz, hs⟩ := hy.read a (write i v) hya hread
    refine ⟨z, hz, .inl ?_⟩
    rcases hs with ⟨ip', hp, rfl⟩ | ⟨-, rfl⟩
    · exact ⟨ip', (hpend a ip').mpr (.inl hp), write_write ip' i v⟩
    · exact ⟨i, (hpend a i).mpr (.inr ⟨rfl, hhit⟩), rfl⟩
  · rw [← hops, ← hpool, hv] at hread
    obtain ⟨z, hz, hs⟩ := hy.read a v hya hread
    refine ⟨z, hz, ?_⟩
    rcases hs with ⟨ip', hp, rfl⟩ | ⟨hno, rfl⟩
    · exact .inl ⟨ip', (hpend a ip').mpr (.inl hp), rfl⟩
    · refine .inr ⟨fun ip' hp => ?_, rfl⟩
      rcases (hpend a ip').mp hp with hp | ⟨-, p, hpm, hpl⟩
      · exact hno ip' hp
      · exact hmiss p hpm hpl

/-- What a frame waits for, as two lists of patches. -/
theorem waits_iff {ops : List Op}
    (helse : ∀ i, f.elsePatch = some i → place ops ⟨i, .single⟩ = some (.inline i)) :
    Waits ops f φ a ip ↔ (ip = φ.endIp ∧ ∃ p ∈ f.endPatches, place ops p = some a) ∨
      (ip = φ.elseIp ∧
        ∃ p ∈ f.elsePatch.toList.map (Patch.mk · .single), place ops p = some a) := by
  constructor
  · rintro (⟨hp, ha⟩ | h)
    · exact .inl ⟨rfl, _, hp, ha⟩
    · refine .inr ⟨rfl, ⟨_, .single⟩, ?_, helse _ h⟩
      exact List.mem_map.mpr ⟨_, Option.mem_toList.mpr h, rfl⟩
  · rintro (⟨rfl, p, hp, ha⟩ | ⟨rfl, p, hp, ha⟩)
    · exact .end_ hp ha
    · obtain ⟨i, hi, rfl⟩ := List.mem_map.mp hp
      have hi := Option.mem_toList.mp hi
      obtain rfl : .inline i = a := Option.some.inj ((helse i hi).symm.trans ha)
      exact .else_ hi

/-- A frame closes: what it waited for is written with one address. -/
theorem Resolves.close_back {x y : Translator} {q : List Patch} (hres : Resolves y E C)
    (hxc : x.ctrl = f :: d) (hyc : y.ctrl = d) (hops : y.ops = (x.patchAll q i).ops)
    (hpool : y.brTables = (x.patchAll q i).brTables) (hxf : x.fusableCmp = none)
    (hyf : y.fusableCmp = none)
    (hwaits : ∀ a ip', Waits x.ops f φ a ip' ↔ ip' = i ∧ ∃ p ∈ q, place x.ops p = some a)
    (hlive : f.endTargeted = true → φ.live = true) (hhandlers : x.handlers <+: y.handlers)
    (hmem : x.bigMemargs <+: y.bigMemargs) : Resolves x (φ :: E) C := by
  have hlen := hres.length_eq
  have hpat := patchAll_patched q x i
  have hplace : ∀ p, place y.ops p = place x.ops p := by
    intro p
    rw [hops]
    exact place_patchAll _ _ _ p
  refine hres.patchAll_back (q := q) (i := i) ?_ hops hpool ?_ ?_ ?_ hhandlers hmem
  · rw [hxc, List.length_cons, List.length_cons, hlen, hyc]
  · intro a ha
    rcases a with j | j
    · show x.settled ≤ j
      have h1 : y.settled ≤ j := ha
      have h2 : (x.patchAll q i).ops.length = x.ops.length := hpat.nextIp
      rw [settled_of_none hyf, hops, h2] at h1
      rw [settled_of_none hxf]
      exact h1
    · show x.brTables.length ≤ j
      have h1 : y.brTables.length ≤ j := ha
      rw [hpool, hpat.pool] at h1
      exact h1
  · intro a ip'
    have hpd : Pending y.ops y.ctrl E a ip' ↔ Pending x.ops d E a ip' := by
      rw [hyc]
      exact pending_congr hplace
    rw [hpd, hxc, pending_cons, hwaits, or_comm]
  · intro i g ψ hg hψ htg
    rw [hxc] at hg
    cases i with
    | zero =>
      obtain rfl : f = g := Option.some.inj hg
      obtain rfl : φ = ψ := Option.some.inj hψ
      exact hlive htg
    | succ i => exact hres.targeted i g ψ (by rw [hyc]; exact hg) hψ htg

/-- The end of a construct other than a reachable `try_table` writes its address everywhere the
frame waits for one. -/
theorem Resolves.endBlock_back (hc : u.ctrl = f :: d) (hu : Tracked u)
    (hres : Resolves (endBlock f { u with fusableCmp := none, ctrl := d }) E C)
    (hend : φ.endIp = u.nextIp) (helse : f.elsePatch ≠ none → φ.elseIp = u.nextIp)
    (hlive : f.endTargeted = true → φ.live = true) :
    Resolves { u with fusableCmp := none } (φ :: E) C := by
  have hpat :=
    (patchElse_patched { u with fusableCmp := none, ctrl := d } f.elsePatch u.nextIp).trans
    (patchAll_patched f.endPatches _ u.nextIp)
  have hfold := (patchElse_patchAll { u with fusableCmp := none, ctrl := d } f u.nextIp).trans
    (patchAll_ctrl (framePatches f) { u with fusableCmp := none } d u.nextIp)
  have hel : ∀ i, f.elsePatch = some i → place u.ops ⟨i, .single⟩ = some (.inline i) :=
    fun i hi => (hu.elsePatch f (by rw [hc]; exact List.mem_cons_self) i hi).2
  refine hres.close_back (q := framePatches f) (i := u.nextIp) hc hpat.ctrl
    ((congrArg Translator.ops hfold).trans rfl) ((congrArg Translator.brTables hfold).trans rfl) rfl
    hpat.fusableCmp (fun a ip' => ?_) hlive ⟨[], ?_⟩ ⟨[], ?_⟩
  · show Waits u.ops f φ a ip' ↔ _ ∧ ∃ p ∈ framePatches f, place u.ops p = some a
    rw [waits_iff hel]
    constructor
    · rintro (⟨rfl, p, hp, ha⟩ | ⟨rfl, p, hp, ha⟩)
      · exact ⟨hend, p, List.mem_append_right _ hp, ha⟩
      · refine ⟨helse fun h => ?_, p, List.mem_append_left _ hp, ha⟩
        rw [h] at hp
        exact absurd hp List.not_mem_nil
    · rintro ⟨rfl, p, hp, ha⟩
      rcases List.mem_append.mp hp with hp | hp
      · refine .inr ⟨(helse fun h => ?_).symm, p, hp, ha⟩
        rw [h] at hp
        exact absurd hp List.not_mem_nil
      · exact .inl ⟨hend.symm, p, hp, ha⟩
  · rw [List.append_nil]
    exact hpat.handlers.symm
  · rw [List.append_nil]
    exact hpat.bigMemargs.symm

/-- An `else` writes the address of the branch over the `then` part. -/
theorem Resolves.patchElse_back {v : Translator} {height : ℕ} {r : Bool} (hc : v.ctrl = f :: d)
    (hv : Tracked v) (hres : Resolves { v.patchElse f.elsePatch φ.elseIp with
      ctrl := { f with elsePatch := none } :: d
      reachable := r
      height } (φ :: E) C) : Resolves v (φ :: E) C := by
  have heq : v.patchElse f.elsePatch φ.elseIp
      = v.patchAll (f.elsePatch.toList.map (⟨·, .single⟩)) φ.elseIp := by
    cases f.elsePatch <;> rfl
  have hpat := patchElse_patched v f.elsePatch φ.elseIp
  have hplace : ∀ p, place (v.patchElse f.elsePatch φ.elseIp).ops p = place v.ops p := by
    intro p
    rw [heq]
    exact place_patchAll _ _ _ p
  have hel : ∀ i, f.elsePatch = some i → place v.ops ⟨i, .single⟩ = some (.inline i) :=
    fun i hi => (hv.elsePatch f (by rw [hc]; exact List.mem_cons_self) i hi).2
  refine hres.patchAll_back (q := f.elsePatch.toList.map (⟨·, .single⟩)) (i := φ.elseIp) ?_
    ((congrArg Translator.ops heq).trans rfl :) ((congrArg Translator.brTables heq).trans rfl :)
    ?_ ?_ ?_ ⟨[], ?_⟩ ⟨[], ?_⟩
  · rw [hc]
    exact hres.length_eq
  · intro a ha
    rcases a with i | j
    · have h1 : (v.patchElse f.elsePatch φ.elseIp).settled ≤ i := ha
      have h2 : (v.patchElse f.elsePatch φ.elseIp).ops.length = v.ops.length := hpat.nextIp
      unfold settled at h1
      rw [hpat.fusableCmp, h2] at h1
      exact h1
    · have h1 : (v.patchElse f.elsePatch φ.elseIp).brTables.length ≤ j := ha
      rw [hpat.pool] at h1
      exact h1
  · intro a ip'
    show _ ↔ Pending (v.patchElse f.elsePatch φ.elseIp).ops _ _ a ip' ∨ _
    rw [pending_congr hplace, hc, pending_cons, pending_cons, waits_iff hel,
      waits_iff (f := { f with elsePatch := none }) fun i hi => nomatch hi]
    constructor
    · rintro ((h | h) | h)
      · exact .inl (.inl (.inl h))
      · exact .inr h
      · exact .inl (.inr h)
    · rintro (((h | ⟨-, p, hp, -⟩) | h) | h)
      · exact .inl (.inl h)
      · exact absurd hp List.not_mem_nil
      · exact .inr h
      · exact .inl (.inr h)
  · intro i g ψ hg hψ htg
    rw [hc] at hg
    cases i with
    | zero =>
      obtain rfl : f = g := Option.some.inj hg
      exact hres.targeted 0 { f with elsePatch := none } ψ rfl hψ htg
    | succ i => exact hres.targeted (i + 1) g ψ hg hψ htg
  · rw [List.append_nil]
    exact hpat.handlers.symm
  · rw [List.append_nil]
    exact hpat.bigMemargs.symm

/-! ## Landing pads -/

theorem Emits.under {n l : ℕ} {op : Op} {edges : List BranchTarget} {slot : PatchSlot}
    (h : Emits t u n op edges (branchRegs f l slot)) (g : CtrlFrame) :
    Emits { t with ctrl := g :: t.ctrl } { u with ctrl := g :: u.ctrl } n op edges
      (branchRegs f (l + 1) slot) := by
  have hctrl := h.ctrl
  have hregs := h.regs_ok
  unfold branchRegs at hctrl hregs ⊢
  by_cases hk : f.kind = .loop
  · rw [if_pos hk] at hctrl hregs ⊢
    exact ⟨h.settled_le, h.le, h.ops, h.brTables, h.bigMemargs, h.handlers,
      congrArg (g :: ·) hctrl, h.fuse, fun r hr => absurd hr List.not_mem_nil, h.dead, h.error⟩
  · rw [if_neg hk] at hctrl hregs ⊢
    refine ⟨h.settled_le, h.le, h.ops, h.brTables, h.bigMemargs, h.handlers,
      congrArg (g :: ·) hctrl, h.fuse, fun r hr => ?_, h.dead, h.error⟩
    obtain rfl := List.mem_singleton.mp hr
    exact hregs (l, slot) (List.mem_singleton_self _)

/-- Labels depend on what a frame keeps for good. -/
theorem frameTarget_same {f' : CtrlFrame} (h : Same f f') (φ : Fate) :
    frameTarget f' φ = frameTarget f φ := by
  rw [h]
  rfl

theorem targets_frames {c : List CtrlFrame} (h : List.Forall₂ (FrameExt t u) c d) (E : List Fate) :
    targets d E = targets c E := by
  induction h generalizing E with
  | nil => rfl
  | cons hf _ ih =>
    rcases E with _ | ⟨φ, E⟩
    · rfl
    · show frameTarget _ φ :: targets _ E = frameTarget _ φ :: targets _ E
      rw [frameTarget_same hf.same, ih]

theorem Extends.targets_eq (h : Extends t u) (E : List Fate) :
    targets u.ctrl E = targets t.ctrl E :=
  targets_frames h.frames E

/-- The landing pads of a `try_table`, read off the code.  The frame `g` of the `try_table` itself
is kept around them, since its own branches are still open. -/
theorem landingPads_pads {ctx : CompileCtx} {base : ℕ} {catches : List Catch} {v w : Translator}
    {recs : List HandlerRec} {g : CtrlFrame}
    (h : landingPads ctx base (catches.map convCatch) v = .ok (recs, w)) (hvf : v.fusableCmp = none)
    (hv : Tracked { v with ctrl := g :: v.ctrl })
    (hres : Resolves { w with ctrl := g :: w.ctrl } (φ :: E) C) :
    Pads C ctx (targets v.ctrl E) base catches v.nextIp recs ∧
      Extends { v with ctrl := g :: v.ctrl } { w with ctrl := g :: w.ctrl } ∧
      w.nextIp = v.nextIp + catches.length := by
  induction catches generalizing v recs with
  | nil =>
    cases h
    exact ⟨.nil, Extends.refl _, rfl⟩
  | cons c catches ih =>
    obtain ⟨f, v', recs', hf, hle, hem, -, -, hrest, rfl⟩ := landingPads_cons h
    have hem' := hem.under g
    have hv' := hem'.tracked hv
    obtain ⟨hpads, hext, hlen⟩ := ih hrest hem.fuse hv'
    have hnext : v'.nextIp = v.nextIp + 1 := hem.length_ops
    refine ⟨?_, hem'.ext.trans hext, by rw [hlen, hnext, List.length_cons]; omega⟩
    obtain ⟨e, hop, he⟩ := hem'.read_branch (m := Op.br) hv (hres.back hext hv') hf hle
      (fun _ _ => rfl) (fun _ _ => rfl) fun _ => rfl
    rw [hem.ext.targets_eq, hnext] at hpads
    obtain ⟨L, hL, hrest⟩ := he
    refine .cons hop ⟨L, ?_, hrest⟩ hpads
    rw [← convCatch_label c]
    exact hL

/-- The end of a reachable `try_table`: the branch over the pads and the pads are in the code, and
the branches of the body go to the address behind them. -/
theorem Resolves.endTryTable_back {ctx : CompileCtx} {catches : List Catch} (hc : u.ctrl = f :: d)
    (hu : Tracked u) (hend : endTryTable ctx f { u with fusableCmp := none, ctrl := d } = .ok t)
    (helse : f.elsePatch = none) (hclauses : f.clauses = catches.map convCatch)
    (hres : Resolves t E C) (hip : φ.endIp = t.nextIp)
    (hlive : f.endTargeted = true → φ.live = true) :
    Resolves { u with fusableCmp := none } (φ :: E) C ∧
      t.nextIp = u.nextIp + 1 + catches.length ∧
      ∃ recs, t.handlers = u.handlers ++ [⟨f.startIp, u.nextIp, recs⟩] ∧
        C.ops[u.nextIp]? = some (.br ⟨u.nextIp + 1 + catches.length, f.resultCount, 0⟩) ∧
        Pads C ctx (targets d E) f.baseHeight catches (u.nextIp + 1) recs := by
  obtain ⟨v, w, recs, hem, -, hpads, rfl⟩ := endTryTable_ok hend
  rw [hclauses] at hpads
  have hdrop : Tracked { u with fusableCmp := none, ctrl := d } :=
    ⟨fun k hk => (nomatch hk), fun _ => rfl,
      fun g hg => hu.unfuse.endPatches g (by rw [hc]; exact List.mem_cons_of_mem _ hg),
      fun g hg => hu.unfuse.elsePatch g (by rw [hc]; exact List.mem_cons_of_mem _ hg)⟩
  obtain ⟨-, -, hwf, hwh, -, -⟩ := landingPads_extends hpads (hem.tracked hdrop) hem.fuse
  -- the branch over the pads waits for the same address as the branches of the body
  set g : CtrlFrame := { f with endPatches := f.endPatches ++ [⟨u.nextIp, .single⟩] } with hg
  have hvc : v.ctrl = d := hem.ctrl
  have hself : v.ops[u.nextIp]? = some (.br ⟨0, f.resultCount, 0⟩) := hem.ops_self
  have hvplace : place v.ops ⟨u.nextIp, .single⟩ = some (.inline u.nextIp) := by
    unfold place
    rw [hself]
    rfl
  have hset : v.settled = u.nextIp + 1 := hem.settled_eq rfl
  have huv : Extends { u with fusableCmp := none } { v with ctrl := g :: v.ctrl } := by
    have hx := hem.ext
    refine ⟨hx.settled_le, hx.pool_le, hx.read, ?_, hx.handlers, hx.bigMemargs, hx.error⟩
    show List.Forall₂ _ u.ctrl (g :: v.ctrl)
    rw [hc]
    refine .cons ⟨rfl, fun h => h, [⟨u.nextIp, .single⟩], rfl, fun p hp => ?_⟩
      (hx.frames.imp fun _ _ h => ⟨h.same, h.targeted, h.patches⟩)
    obtain rfl := List.mem_singleton.mp hp
    refine ⟨?_, _, hvplace, ?_, ?_⟩
    · show u.nextIp < v.settled
      omega
    · show u.ops.length - 0 ≤ u.nextIp
      exact Nat.sub_le _ _
    · show ¬v.settled ≤ u.nextIp
      omega
  have hvt : Tracked { v with ctrl := g :: v.ctrl } :=
    huv.tracked hu.unfuse (fun k hk => by rw [show _ = _ from hem.fuse] at hk; cases hk)
      fun _ => hem.fuse
  have hpat := patchAll_patched (⟨u.nextIp, .single⟩ :: f.endPatches) w w.nextIp
  have hnext : φ.endIp = w.nextIp := hip.trans hpat.nextIp
  have hctrl := patchAll_ctrl (⟨u.nextIp, .single⟩ :: f.endPatches) w (g :: w.ctrl) w.nextIp
  have hresw : Resolves { w with ctrl := g :: w.ctrl } (φ :: E) C := by
    refine hres.close_back (q := ⟨u.nextIp, .single⟩ :: f.endPatches) (i := w.nextIp) rfl hpat.ctrl
      ((congrArg Translator.ops hctrl).trans rfl).symm
      ((congrArg Translator.brTables hctrl).trans rfl).symm hwf (hpat.fusableCmp.trans hwf)
      (fun a ip' => ?_) hlive (List.prefix_append _ _) ⟨[], ?_⟩
    · rw [waits_iff fun i hi => by rw [show g.elsePatch = none from helse] at hi; cases hi]
      constructor
      · rintro (⟨rfl, p, hp, ha⟩ | ⟨-, p, hp, -⟩)
        · refine ⟨hnext, p, ?_, ha⟩
          rcases List.mem_append.mp hp with hp | hp
          · exact List.mem_cons_of_mem _ hp
          · exact List.mem_cons.mpr (.inl (List.mem_singleton.mp hp))
        · rw [show g.elsePatch = none from helse] at hp
          exact absurd hp List.not_mem_nil
      · rintro ⟨rfl, p, hp, ha⟩
        refine .inl ⟨hnext.symm, p, ?_, ha⟩
        rcases List.mem_cons.mp hp with rfl | hp
        · exact List.mem_append_right _ (List.mem_singleton_self _)
        · exact List.mem_append_left _ hp
    · rw [List.append_nil]
      exact hpat.bigMemargs.symm
  obtain ⟨hcode, hvw, hlen⟩ := landingPads_pads hpads hem.fuse hvt hresw
  have hresv := hresw.back hvw hvt
  have hv1 : v.nextIp = u.nextIp + 1 := hem.length_ops
  have hcont : w.nextIp = u.nextIp + 1 + catches.length := by rw [hlen, hv1]
  refine ⟨hresv.back huv hu.unfuse, hpat.nextIp.trans hcont, recs, ?_, ?_, ?_⟩
  · show w.handlers ++ _ = u.handlers ++ _
    rw [hwh, hem.handlers]
    rfl
  · obtain ⟨y, hy, hs⟩ := hresv.read (.inline u.nextIp) (.inl (.br ⟨0, f.resultCount, 0⟩))
      (by show ¬v.settled ≤ u.nextIp; omega) (by show Option.map _ _ = _; rw [hself]; rfl)
    obtain ⟨o, ho, rfl⟩ := Option.map_eq_some_iff.mp hy
    rcases hs with ⟨ip, hp, hw⟩ | ⟨hno, -⟩
    · rcases pending_cons.mp hp with hwait | ⟨k, g', ψ, hg', -, hwait⟩
      · obtain rfl : ip = φ.endIp := by
          rcases hwait with _ | he
          · rfl
          · rw [show g.elsePatch = none from helse] at he
            cases he
        rw [ho, Sum.inl.inj hw, hnext, hcont]
        rfl
      · -- an outer frame waits for older places only
        rw [hvc] at hg'
        have hm : g' ∈ d := List.mem_of_getElem? hg'
        rcases hwait with ⟨hpm, hpl⟩ | he
        · obtain ⟨hop, -⟩ := hdrop.endPatches g' hm _ hpm
          rw [place_op hpl] at hop
          exact absurd (lt_of_lt_of_le hop (settled_le _)) (lt_irrefl _)
        · obtain ⟨hlt, -⟩ := hdrop.elsePatch g' hm _ he
          exact absurd (lt_of_lt_of_le hlt (settled_le _)) (lt_irrefl _)
    · exact absurd (pending_cons.mpr (.inl (.end_ (List.mem_append_right _
        (List.mem_singleton_self _)) hvplace))) (hno φ.endIp)
  · rw [hvc, hv1] at hcode
    exact hcode

end Translator

end SubmilliWasm
