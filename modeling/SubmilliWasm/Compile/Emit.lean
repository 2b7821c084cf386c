/-
# Emission and backpatching

What a stretch of operators leaves of the streams emitted before it.  A forward branch is
written with target `0` and listed in the frame it leaves; the frame's `end` (or `else`)
writes the real target.  A listed branch names a *place*: an op with an inline edge, or an
entry of the branch-table pool.

`Extends t u` says that `u` keeps everything `t` has emitted: later operators only append,
the patches they write go to places that `t` does not have yet, and the frames open in `t`
only gain patches of such places.  One op is exempt: a comparison that the next operator
may still replace by a fused branch (`settled`).
-/
import SubmilliWasm.Lib.Fallible
import SubmilliWasm.Compile.Total

namespace SubmilliWasm

open Fallible

namespace Translator

/-! ## Places -/

/-- A place that holds a branch target. -/
inductive Place where
  | inline (i : ℕ)
  | pool (j : ℕ)
  deriving DecidableEq, Repr

/-- The place a patch writes. -/
def place (ops : List Op) (p : Patch) : Option Place :=
  ops[p.op]?.map fun o =>
    match flatIndex p.slot o with
    | some j => .pool j
    | none => .inline p.op

/-- The ops that no later operator replaces: all but a comparison that may still be fused. -/
def settled (t : Translator) : ℕ := t.ops.length - t.fusableCmp.toList.length

/-- A place that `t` does not have yet. -/
def Fresh (t : Translator) : Place → Prop
  | .inline i => t.settled ≤ i
  | .pool j => t.brTables.length ≤ j

variable {ctx : CompileCtx} {f : CtrlFrame} {regs : List (ℕ × PatchSlot)}
  {edges : List BranchTarget} {d : List CtrlFrame} {p : Patch} {t u v w : Translator} {i k l n : ℕ}

theorem settled_of_none (h : t.fusableCmp = none) : t.settled = t.ops.length := by
  unfold settled
  rw [h]
  rfl

theorem settled_le (t : Translator) : t.settled ≤ t.ops.length := Nat.sub_le _ _

theorem flatIndex_setIp (slot : PatchSlot) (ip : ℕ) (o : Op) :
    flatIndex slot (setIp ip o) = flatIndex slot o := by
  cases o <;> rfl

theorem setIp_setIp (ip ip' : ℕ) (o : Op) : setIp ip (setIp ip' o) = setIp ip o := by
  cases o <;> rfl

theorem place_op {ops : List Op} (h : place ops p = some (.inline i)) : p.op = i := by
  unfold place at h
  rw [Option.map_eq_some_iff] at h
  obtain ⟨o, -, ho⟩ := h
  split at ho
  · cases ho
  · cases ho
    rfl

/-- The place of a patch depends only on its own op. -/
theorem place_congr {ops ops' : List Op} (h : ops'[p.op]? = ops[p.op]?) :
    place ops' p = place ops p := by
  unfold place
  rw [h]

/-! ## Reading and writing places -/

/-- What a place holds: an op with an inline edge, or a pooled edge. -/
abbrev Entry := Op ⊕ BranchTarget

/-- The entry at a place of two streams. -/
def read (ops : List Op) (pool : List BranchTarget) : Place → Option Entry
  | .inline i => ops[i]?.map Sum.inl
  | .pool j => pool[j]?.map Sum.inr

/-- Write a target into an entry. -/
def write (ip : ℕ) : Entry → Entry
  | .inl o => .inl (setIp ip o)
  | .inr e => .inr { e with ip }

theorem write_write (ip ip' : ℕ) (x : Entry) : write ip (write ip' x) = write ip x := by
  rcases x with o | e
  · exact congrArg Sum.inl (setIp_setIp ip ip' o)
  · rfl

/-- Write a target at a place. -/
def setAt (t : Translator) (ip : ℕ) : Place → Translator
  | .inline i => { t with ops := t.ops.modify i (setIp ip) }
  | .pool j => { t with brTables := t.brTables.modify j fun e => { e with ip } }

theorem read_setAt_self (t : Translator) (ip : ℕ) (a : Place) :
    read (t.setAt ip a).ops (t.setAt ip a).brTables a
      = (read t.ops t.brTables a).map (write ip) := by
  rcases a with i | j
  · show Option.map _ ((t.ops.modify i (setIp ip))[i]?) = Option.map _ (Option.map _ t.ops[i]?)
    rw [List.getElem?_modify_eq, Option.map_eq_map, Option.map_map, Option.map_map]
    rfl
  · show Option.map _ ((t.brTables.modify j _)[j]?) = Option.map _ (Option.map _ t.brTables[j]?)
    rw [List.getElem?_modify_eq, Option.map_eq_map, Option.map_map, Option.map_map]
    rfl

theorem read_setAt_ne (t : Translator) (ip : ℕ) {a b : Place} (h : a ≠ b) :
    read (t.setAt ip a).ops (t.setAt ip a).brTables b = read t.ops t.brTables b := by
  rcases a with i | j <;> rcases b with i' | j'
  · have : i ≠ i' := fun h' => h (congrArg _ h')
    show Option.map _ ((t.ops.modify i (setIp ip))[i']?) = _
    rw [List.getElem?_modify_ne _ _ this]
    rfl
  · rfl
  · rfl
  · have : j ≠ j' := fun h' => h (congrArg _ h')
    show Option.map _ ((t.brTables.modify j _)[j']?) = _
    rw [List.getElem?_modify_ne _ _ this]
    rfl

theorem patchIp_eq_setAt {a : Place} (h : place t.ops p = some a) (ip : ℕ) :
    t.patchIp p.op p.slot ip = t.setAt ip a := by
  unfold place at h
  rw [Option.map_eq_some_iff] at h
  obtain ⟨o, ho, ha⟩ := h
  unfold patchIp
  rw [ho]
  split at ha
  · rename_i j hj
    subst ha
    simp only [hj]
    rfl
  · rename_i hn
    subst ha
    simp only [hn]
    rfl

theorem patchIp_of_none (h : place t.ops p = none) (ip : ℕ) : t.patchIp p.op p.slot ip = t := by
  unfold place at h
  rw [Option.map_eq_none_iff] at h
  unfold patchIp
  rw [h]

/-- Writing a target keeps the places of all patches. -/
theorem place_patchIp (t : Translator) (op : ℕ) (slot : PatchSlot) (ip : ℕ) (p : Patch) :
    place (t.patchIp op slot ip).ops p = place t.ops p := by
  unfold patchIp
  split
  · rfl
  · split
    · rfl
    · unfold place
      by_cases h : op = p.op
      · subst h
        show Option.map _ ((t.ops.modify p.op (setIp ip))[p.op]?) = _
        rw [List.getElem?_modify_eq, Option.map_eq_map, Option.map_map]
        congr 1
        funext o
        simp only [Function.comp, flatIndex_setIp]
      · show Option.map _ ((t.ops.modify op (setIp ip))[p.op]?) = _
        rw [List.getElem?_modify_ne _ _ h]

theorem place_patchAll (ps : List Patch) (t : Translator) (ip : ℕ) (p : Patch) :
    place (t.patchAll ps ip).ops p = place t.ops p := by
  induction ps generalizing t with
  | nil => rfl
  | cons q ps ih => exact (ih _).trans (place_patchIp t q.op q.slot ip p)

/-- The streams after a list of patches: the listed places have their target, the others are
as they were. -/
theorem read_patchAll (ps : List Patch) (t : Translator) (ip : ℕ) (a : Place) :
    ((∃ p ∈ ps, place t.ops p = some a) ∧
        read (t.patchAll ps ip).ops (t.patchAll ps ip).brTables a
          = (read t.ops t.brTables a).map (write ip)) ∨
      ((∀ p ∈ ps, place t.ops p ≠ some a) ∧
        read (t.patchAll ps ip).ops (t.patchAll ps ip).brTables a = read t.ops t.brTables a) := by
  induction ps generalizing t with
  | nil => exact .inr ⟨fun p hp => absurd hp List.not_mem_nil, rfl⟩
  | cons q ps ih =>
    set u := t.patchIp q.op q.slot ip with hu
    -- the first patch, then the others on the translator it leaves
    have hstep : (place t.ops q = some a ∧
          read u.ops u.brTables a = (read t.ops t.brTables a).map (write ip)) ∨
        (place t.ops q ≠ some a ∧ read u.ops u.brTables a = read t.ops t.brTables a) := by
      rcases hq : place t.ops q with _ | b
      · rw [hu, patchIp_of_none hq]
        exact .inr ⟨by rintro ⟨⟩, rfl⟩
      · rw [hu, patchIp_eq_setAt hq]
        by_cases h : b = a
        · subst h
          exact .inl ⟨rfl, read_setAt_self t ip b⟩
        · exact .inr ⟨fun h' => h (Option.some.inj h'), read_setAt_ne t ip h⟩
    have hplace : ∀ p, place u.ops p = place t.ops p := place_patchIp t q.op q.slot ip
    rcases ih u with ⟨⟨p, hp, hpl⟩, hread⟩ | ⟨hno, hread⟩
    · rw [hplace] at hpl
      refine .inl ⟨⟨p, List.mem_cons_of_mem _ hp, hpl⟩, hread.trans ?_⟩
      rcases hstep with ⟨-, h⟩ | ⟨-, h⟩
      · rw [h, Option.map_map]
        congr 1
        funext x
        exact write_write ip ip x
      · rw [h]
    · rcases hstep with ⟨hq, h⟩ | ⟨hq, h⟩
      · exact .inl ⟨⟨q, List.mem_cons_self, hq⟩, hread.trans h⟩
      · refine .inr ⟨fun p hp => ?_, hread.trans h⟩
        rcases List.mem_cons.mp hp with rfl | hp
        · exact hq
        · rw [← hplace p]
          exact hno p hp

/-! ## Streams that are kept -/

/-- The branches a translator still waits for: each names a place that is there and settled. -/
structure Tracked (t : Translator) : Prop where
  fuse : ∀ k, t.fusableCmp = some k → t.ops[t.ops.length - 1]? = some (.plain (.relop k))
  dead : t.reachable = false → t.fusableCmp = none
  endPatches : ∀ f ∈ t.ctrl, ∀ p ∈ f.endPatches,
    p.op < t.settled ∧ ∃ a, place t.ops p = some a ∧ ¬Fresh t a
  elsePatch : ∀ f ∈ t.ctrl, ∀ i, f.elsePatch = some i →
    i < t.settled ∧ place t.ops ⟨i, .single⟩ = some (.inline i)

theorem tracked_new (n : ℕ) : Tracked (new n) := by
  refine ⟨fun k hk => (nomatch hk), fun _ => rfl, fun f hf p hp => ?_, fun f hf i hi => ?_⟩
  · obtain rfl := List.mem_singleton.mp hf
    exact absurd hp List.not_mem_nil
  · obtain rfl := List.mem_singleton.mp hf
    cases hi

/-- A frame open in `t`, later in `u`: it has gained branches at places fresh for `t`. -/
structure FrameExt (t u : Translator) (f f' : CtrlFrame) : Prop where
  same : Same f f'
  targeted : f.endTargeted = true → f'.endTargeted = true
  patches : ∃ new, f'.endPatches = f.endPatches ++ new ∧ ∀ p ∈ new,
    p.op < u.settled ∧ ∃ a, place u.ops p = some a ∧ Fresh t a ∧ ¬Fresh u a

/-- `u` keeps what `t` has emitted. -/
structure Extends (t u : Translator) : Prop where
  settled_le : t.settled ≤ u.settled
  pool_le : t.brTables.length ≤ u.brTables.length
  read : ∀ a, ¬Fresh t a → read u.ops u.brTables a = read t.ops t.brTables a
  frames : List.Forall₂ (FrameExt t u) t.ctrl u.ctrl
  handlers : t.handlers <+: u.handlers
  bigMemargs : t.bigMemargs <+: u.bigMemargs
  error : u.error = none → t.error = none

theorem FrameExt.refl (t u : Translator) (f : CtrlFrame) : FrameExt t u f f :=
  ⟨Same.refl f, fun h => h, [], (List.append_nil _).symm, fun _ hp => absurd hp List.not_mem_nil⟩

theorem frames_refl (t u : Translator) (c : List CtrlFrame) :
    List.Forall₂ (FrameExt t u) c c := by
  induction c with
  | nil => exact .nil
  | cons f c ih => exact .cons (FrameExt.refl t u f) ih

theorem Extends.refl (t : Translator) : Extends t t :=
  ⟨le_refl _, le_refl _, fun _ _ => rfl, frames_refl t t _, List.prefix_refl _,
    List.prefix_refl _, fun h => h⟩

/-- The settled ops are kept. -/
theorem Extends.ops (h : Extends t u) (hi : i < t.settled) : u.ops[i]? = t.ops[i]? := by
  have hr := h.read (.inline i) (Nat.not_le.mpr hi)
  exact Option.map_injective Sum.inl_injective hr

theorem Extends.place_eq (h : Extends t u) (hp : p.op < t.settled) :
    place u.ops p = place t.ops p :=
  place_congr (h.ops hp)

theorem Extends.fresh (h : Extends t u) {a : Place} (ha : Fresh u a) : Fresh t a := by
  rcases a with i | j
  · exact le_trans h.settled_le ha
  · exact le_trans h.pool_le ha

theorem FrameExt.trans {g k : CtrlFrame} (htu : Extends t u) (huv : Extends u v)
    (h : FrameExt t u f g) (h' : FrameExt u v g k) : FrameExt t v f k := by
  obtain ⟨new, hnew, hn⟩ := h.patches
  obtain ⟨new', hnew', hn'⟩ := h'.patches
  refine ⟨h.same.trans h'.same, fun ht => h'.targeted (h.targeted ht), new ++ new', ?_, ?_⟩
  · rw [hnew', hnew, List.append_assoc]
  · intro p hp
    rcases List.mem_append.mp hp with hp | hp
    · obtain ⟨hop, a, ha, hf, hnf⟩ := hn p hp
      exact ⟨lt_of_lt_of_le hop huv.settled_le, a, (huv.place_eq hop).trans ha, hf,
        fun hv => hnf (huv.fresh hv)⟩
    · obtain ⟨hop, a, ha, hf, hnf⟩ := hn' p hp
      exact ⟨hop, a, ha, htu.fresh hf, hnf⟩

theorem Extends.trans (h : Extends t u) (h' : Extends u v) : Extends t v := by
  refine ⟨le_trans h.settled_le h'.settled_le, le_trans h.pool_le h'.pool_le, fun a ha => ?_, ?_,
    h.handlers.trans h'.handlers, h.bigMemargs.trans h'.bigMemargs, fun he => h.error (h'.error he)⟩
  · exact (h'.read a fun hu => ha (h.fresh hu)).trans (h.read a ha)
  · have compose : ∀ {c d e : List CtrlFrame}, List.Forall₂ (FrameExt t u) c d →
        List.Forall₂ (FrameExt u v) d e → List.Forall₂ (FrameExt t v) c e := by
      intro c d e hcd
      induction hcd generalizing e with
      | nil =>
        intro hde
        cases hde
        exact .nil
      | cons hf _ ih =>
        intro hde
        cases hde with
        | cons hf' hde => exact .cons (hf.trans h h' hf') (ih hde)
    exact compose h.frames h'.frames

/-- The branches waited for later are those of before, and new ones that are settled by then. -/
theorem Extends.tracked (h : Extends t u) (ht : Tracked t)
    (hfuse : ∀ k, u.fusableCmp = some k → u.ops[u.ops.length - 1]? = some (.plain (.relop k)))
    (hdead : u.reachable = false → u.fusableCmp = none) : Tracked u := by
  have hframe : ∀ f' ∈ u.ctrl, ∃ f ∈ t.ctrl, FrameExt t u f f' := by
    intro f' hf'
    obtain ⟨i, hi, rfl⟩ := List.getElem_of_mem hf'
    have hlen := h.frames.length_eq
    have hi' : i < t.ctrl.length := by omega
    exact ⟨t.ctrl[i], List.getElem_mem hi', h.frames.get hi' hi⟩
  refine ⟨hfuse, hdead, fun f' hf' p hp => ?_, fun f' hf' i hi => ?_⟩
  · obtain ⟨f, hf, hext⟩ := hframe f' hf'
    obtain ⟨new, hnew, hn⟩ := hext.patches
    rw [hnew] at hp
    rcases List.mem_append.mp hp with hp | hp
    · obtain ⟨hop, a, ha, hnf⟩ := ht.endPatches f hf p hp
      exact ⟨lt_of_lt_of_le hop h.settled_le, a, (h.place_eq hop).trans ha,
        fun hu => hnf (h.fresh hu)⟩
    · obtain ⟨hop, a, ha, -, hnf⟩ := hn p hp
      exact ⟨hop, a, ha, hnf⟩
  · obtain ⟨f, hf, hext⟩ := hframe f' hf'
    rw [hext.same] at hi
    obtain ⟨hlt, hpl⟩ := ht.elsePatch f hf i hi
    exact ⟨lt_of_lt_of_le hlt h.settled_le, (h.place_eq (p := ⟨i, .single⟩) hlt).trans hpl⟩

/-! ## One emitted op -/

/-- One operator of reachable code: it emits `op` at index `n`, behind or over the last op, with
its pooled edges, and lists its branches in the frames of `regs`. -/
structure Emits (t u : Translator) (n : ℕ) (op : Op) (edges : List BranchTarget)
    (regs : List (ℕ × PatchSlot)) : Prop where
  settled_le : t.settled ≤ n
  le : n ≤ t.ops.length
  ops : u.ops = t.ops.take n ++ [op]
  brTables : u.brTables = t.brTables ++ edges
  bigMemargs : t.bigMemargs <+: u.bigMemargs
  handlers : u.handlers = t.handlers
  ctrl : u.ctrl = regs.foldl (fun c r => c.modify r.1 (·.addPatch ⟨n, r.2⟩)) t.ctrl
  fuse : u.fusableCmp = fusableCmpOf op
  regs_ok : ∀ r ∈ regs, n < u.settled ∧ ∃ a, place u.ops ⟨n, r.2⟩ = some a ∧ Fresh t a ∧ ¬Fresh u a
  dead : u.reachable = false → fusableCmpOf op = none
  error : u.error = none → t.error = none

theorem forall₂_modify {α β : Type} {R : α → β → Prop} {g : β → β} {c : List α} {d : List β}
    (h : List.Forall₂ R c d) (hg : ∀ x y, R x y → R x (g y)) (i : ℕ) :
    List.Forall₂ R c (d.modify i g) := by
  induction h generalizing i with
  | nil => simp
  | cons hxy hrest ih =>
    cases i with
    | zero => exact .cons (hg _ _ hxy) hrest
    | succ i => exact .cons hxy (ih i)

/-- One more branch in a frame. -/
theorem FrameExt.addPatch {f' : CtrlFrame} {a : Place} (h : FrameExt t u f f')
    (hop : p.op < u.settled) (ha : place u.ops p = some a) (hf : Fresh t a) (hnf : ¬Fresh u a) :
    FrameExt t u f (f'.addPatch p) := by
  obtain ⟨new, hnew, hn⟩ := h.patches
  refine ⟨h.same.trans (Same.addPatch f' p), fun _ => rfl, new ++ [p], ?_, fun q hq => ?_⟩
  · show f'.endPatches ++ [p] = _
    rw [hnew, List.append_assoc]
  · rcases List.mem_append.mp hq with hq | hq
    · exact hn q hq
    · obtain rfl := List.mem_singleton.mp hq
      exact ⟨hop, a, ha, hf, hnf⟩

theorem Emits.frames {op : Op} (h : Emits t u n op edges regs) :
    List.Forall₂ (FrameExt t u) t.ctrl u.ctrl := by
  have step : ∀ (rs : List (ℕ × PatchSlot)) (c d : List CtrlFrame), (∀ r ∈ rs, r ∈ regs) →
      List.Forall₂ (FrameExt t u) c d →
      List.Forall₂ (FrameExt t u) c
        (rs.foldl (fun c r => c.modify r.1 (·.addPatch ⟨n, r.2⟩)) d) := by
    intro rs
    induction rs with
    | nil => exact fun c d _ h => h
    | cons r rs ih =>
      intro c d hrs hcd
      obtain ⟨hop, a, ha, hf, hnf⟩ := h.regs_ok r (hrs r List.mem_cons_self)
      refine ih c _ (fun r' hr' => hrs r' (List.mem_cons_of_mem _ hr')) ?_
      exact forall₂_modify hcd (fun x y hxy => hxy.addPatch hop ha hf hnf) r.1
  rw [h.ctrl]
  exact step regs _ _ (fun _ hr => hr) (frames_refl t u _)

theorem Emits.length_ops {op : Op} (h : Emits t u n op edges regs) : u.ops.length = n + 1 := by
  rw [h.ops, List.length_append, List.length_take, Nat.min_eq_left h.le, List.length_singleton]

theorem Emits.ops_lt {op : Op} (h : Emits t u n op edges regs) (hi : i < n) :
    u.ops[i]? = t.ops[i]? := by
  have hlt : i < (t.ops.take n).length := by
    rw [List.length_take, Nat.min_eq_left h.le]
    exact hi
  rw [h.ops, List.getElem?_append_left hlt, List.getElem?_take_of_lt hi]

theorem Emits.ops_self {op : Op} (h : Emits t u n op edges regs) : u.ops[n]? = some op := by
  have hlen : (t.ops.take n).length = n := by
    rw [List.length_take, Nat.min_eq_left h.le]
  rw [h.ops, List.getElem?_append_right (by omega), hlen, Nat.sub_self]
  rfl

theorem Emits.le_settled {op : Op} (h : Emits t u n op edges regs) : n ≤ u.settled := by
  unfold settled
  rw [h.length_ops]
  cases u.fusableCmp <;> simp

theorem Emits.settled_eq {op : Op} (h : Emits t u n op edges regs) (hf : fusableCmpOf op = none) :
    u.settled = n + 1 := by
  rw [settled_of_none (h.fuse.trans hf), h.length_ops]

theorem Emits.ext {op : Op} (h : Emits t u n op edges regs) : Extends t u := by
  refine ⟨le_trans h.settled_le h.le_settled, ?_, fun a ha => ?_, h.frames,
    ⟨[], by rw [h.handlers, List.append_nil]⟩, h.bigMemargs, h.error⟩
  · rw [h.brTables, List.length_append]
    omega
  · rcases a with i | j
    · have hi : i < n := lt_of_lt_of_le (Nat.not_le.mp ha) h.settled_le
      show Option.map _ _ = Option.map _ _
      rw [h.ops_lt hi]
    · have hj : j < t.brTables.length := Nat.not_le.mp ha
      show Option.map _ _ = Option.map _ _
      rw [h.brTables, List.getElem?_append_left hj]

theorem Emits.tracked {op : Op} (h : Emits t u n op edges regs) (ht : Tracked t) : Tracked u := by
  refine h.ext.tracked ht (fun k hk => ?_) fun hr => h.fuse.trans (h.dead hr)
  rw [h.fuse] at hk
  rw [h.length_ops, Nat.add_sub_cancel, h.ops_self]
  unfold fusableCmpOf at hk
  split at hk
  · cases hk
    rfl
  · cases hk

/-! ## The operators of reachable code -/

/-- `u` differs from `t` in its accounting only: the height, its maximum and the error. -/
structure SameStreams (t u : Translator) : Prop where
  ops : u.ops = t.ops
  brTables : u.brTables = t.brTables
  bigMemargs : u.bigMemargs = t.bigMemargs
  handlers : u.handlers = t.handlers
  ctrl : u.ctrl = t.ctrl
  reachable : u.reachable = t.reachable
  fusableCmp : u.fusableCmp = t.fusableCmp

theorem SameStreams.trans (h : SameStreams t u) (h' : SameStreams u v) : SameStreams t v :=
  ⟨h'.ops.trans h.ops, h'.brTables.trans h.brTables, h'.bigMemargs.trans h.bigMemargs,
    h'.handlers.trans h.handlers, h'.ctrl.trans h.ctrl, h'.reachable.trans h.reachable,
    h'.fusableCmp.trans h.fusableCmp⟩

theorem pop_streams (t : Translator) (n : ℕ) : SameStreams t (t.pop n) := by
  unfold pop
  split <;> exact ⟨rfl, rfl, rfl, rfl, rfl, rfl, rfl⟩

theorem push_streams (t : Translator) (n : ℕ) : SameStreams t (t.push n) := by
  unfold push
  split <;> exact ⟨rfl, rfl, rfl, rfl, rfl, rfl, rfl⟩

theorem pop_error (h : (t.pop n).error = none) :
    t.error = none ∧ n ≤ t.height ∧ (t.pop n).height = t.height - n := by
  unfold pop at h ⊢
  split
  · rename_i hle
    rw [if_pos hle] at h
    exact ⟨h, hle, rfl⟩
  · rename_i hle
    rw [if_neg hle] at h
    exact absurd h (latch_error t _)

theorem pushed_streams (t : Translator) (n : ℕ) : SameStreams t (t.pushed n) := by
  unfold pushed
  split
  · exact ⟨rfl, rfl, rfl, rfl, rfl, rfl, rfl⟩
  · exact push_streams t n

theorem push_error (h : (t.push n).error = none) :
    t.error = none ∧ (t.push n).height = t.height + n := by
  unfold push at h ⊢
  split
  · rename_i hlt
    rw [if_pos hlt] at h
    exact ⟨h, rfl⟩
  · rename_i hlt
    rw [if_neg hlt] at h
    exact absurd h (latch_error t _)

theorem pushed_error (h : (t.pushed n).error = none) :
    t.error = none ∧ (t.pushed n).height = t.height + n := by
  unfold pushed at h ⊢
  split at h
  · rename_i hn
    rw [if_pos hn, hn]
    exact ⟨h, rfl⟩
  · rename_i hn
    rw [if_neg hn]
    exact push_error h

/-- An op appended behind the others, without branches. -/
theorem SameStreams.emits (hs : SameStreams t v) {o : Op} {r : Bool}
    (hdead : r = false → fusableCmpOf o = none) (herr : v.error = none → t.error = none) :
    Emits t { v.emit o with reachable := r } t.nextIp o [] [] := by
  refine ⟨settled_le t, le_refl _, ?_, ?_, ?_, hs.handlers, hs.ctrl, rfl,
    fun r hr => absurd hr List.not_mem_nil, hdead, herr⟩
  · show v.ops ++ [o] = _
    rw [nextIp, List.take_length, hs.ops]
  · rw [List.append_nil]
    exact hs.brTables
  · show t.bigMemargs <+: v.bigMemargs
    rw [hs.bigMemargs]

/-- The pool of wide immediates may have grown before. -/
theorem Emits.of_bigMemargs {pool : List BigMemArg} {op : Op} (hp : t.bigMemargs <+: pool)
    (h : Emits { t with bigMemargs := pool } u n op edges regs) : Emits t u n op edges regs :=
  ⟨h.settled_le, h.le, h.ops, h.brTables, hp.trans h.bigMemargs, h.handlers, h.ctrl, h.fuse,
    h.regs_ok, h.dead, h.error⟩

theorem memarg_prefix (pool : List BigMemArg) (m : BigMemArg) : pool <+: (memarg pool m).2 := by
  unfold memarg
  split
  · exact List.prefix_refl _
  · exact List.prefix_append _ _

theorem lowerPlain_extends (pool : List BigMemArg) (p : PlainOp BigMemArg) :
    pool <+: (lowerPlain pool p).2 := by
  unfold lowerPlain
  split
  · exact List.prefix_refl _
  · exact memarg_prefix pool _

theorem visitPlain_emits {p : PlainOp BigMemArg} (hr : t.reachable = true)
    (h : visitPlain ctx p t = .ok u) :
    Emits t u t.nextIp (.plain (lowerPlain t.bigMemargs p).1) [] [] ∧
      u.bigMemargs = (lowerPlain t.bigMemargs p).2 ∧ u.reachable = true ∧
      (u.error = none → u.height = plainAfter ctx p t.height) := by
  unfold visitPlain at h
  rcases heff : effect ctx p with e | ⟨pops, pushes⟩
  · rw [heff] at h
    cases h
  rw [heff] at h
  obtain rfl := Except.ok.inj h
  set v : Translator := { t with bigMemargs := (lowerPlain t.bigMemargs p).2 }
  have hs : SameStreams v ((v.pop pops).pushed pushes) :=
    (pop_streams v pops).trans (pushed_streams _ pushes)
  have hacc : ((v.pop pops).pushed pushes).error = none → t.error = none ∧
      ((v.pop pops).pushed pushes).height = t.height - pops + pushes := by
    intro he
    obtain ⟨h1, h2⟩ := pushed_error he
    obtain ⟨h3, -, h4⟩ := pop_error h1
    exact ⟨h3, by rw [h2, h4]⟩
  have hreach : ((v.pop pops).pushed pushes).reachable = true := hs.reachable.trans hr
  refine ⟨Emits.of_bigMemargs (lowerPlain_extends _ _)
    (hs.emits (fun hd => ?_) fun he => (hacc he).1),
    hs.bigMemargs, hreach, fun he => ?_⟩
  · exact absurd (hreach.symm.trans hd) (by decide)
  · unfold plainAfter
    rw [heff]
    exact (hacc he).2

theorem call_emits (ctx : CompileCtx) (hr : t.reachable = true) (c : CallTarget) :
    Emits t (t.call ctx c) t.nextIp (.call c) [] [] ∧ (t.call ctx c).reachable = true ∧
      ((t.call ctx c).error = none →
        (t.call ctx c).height = t.height - callPops ctx c + (callSig ctx c).2.length) := by
  have hs : SameStreams t ((t.pop (callPops ctx c)).push (callSig ctx c).2.length) :=
    (pop_streams t _).trans (push_streams _ _)
  have hacc : (t.call ctx c).error = none → t.error = none ∧
      (t.call ctx c).height = t.height - callPops ctx c + (callSig ctx c).2.length := by
    intro he
    obtain ⟨h1, h2⟩ := push_error he
    obtain ⟨h3, -, h4⟩ := pop_error h1
    exact ⟨h3, h2.trans (by rw [h4])⟩
  exact ⟨hs.emits (fun _ => rfl) fun he => (hacc he).1, hs.reachable.trans hr,
    fun he => (hacc he).2⟩

/-- An op that ends the block. -/
theorem terminate_emits (t : Translator) {op : Op} (hop : fusableCmpOf op = none) :
    Emits t (t.terminate op) t.nextIp op [] [] :=
  SameStreams.emits ⟨rfl, rfl, rfl, rfl, rfl, rfl, rfl⟩ (fun _ => hop) fun h => h

theorem returnCall_emits (ctx : CompileCtx) (t : Translator) (c : CallTarget) :
    Emits t (t.returnCall ctx c) t.nextIp (.returnCall c) [] [] :=
  (pop_streams t _).emits (fun _ => rfl) fun he => (pop_error he).1

/-! ## Branches -/

/-- The edge of a branch to a frame, as it is emitted: a loop's start is known, any other target
is still `0`. -/
def edgeTo (f : CtrlFrame) (height : ℕ) : BranchTarget :=
  ⟨if f.kind = .loop then f.startIp else 0, f.labelArity,
    height - (f.baseHeight + f.labelArity)⟩

/-- The frames a branch to `l` is listed in. -/
def branchRegs (f : CtrlFrame) (l : ℕ) (slot : PatchSlot) : List (ℕ × PatchSlot) :=
  if f.kind = .loop then [] else [(l, slot)]

theorem fixup_ok {keep pop : ℕ} {r : ℕ × ℕ} (h : fixup keep pop = .ok r) : r = (keep, pop) := by
  unfold fixup at h
  split at h
  · exact (Except.ok.inj h).symm
  · cases h

theorem branchTarget_ok {target : BranchTarget} {frame : Option ℕ}
    (h : t.branchTarget l = .ok (target, frame)) :
    ∃ f, t.ctrl[l]? = some f ∧ f.baseHeight + f.labelArity ≤ t.height ∧
      target = edgeTo f t.height ∧ frame = if f.kind = .loop then none else some l := by
  unfold branchTarget at h
  split at h
  · cases h
  · rename_i f hf
    refine ⟨f, hf, ?_⟩
    split at h
    · split at h
      · rename_i hle
        rcases hfix : fixup f.labelArity (t.height - (f.baseHeight + f.labelArity)) with e | r
        · rw [hfix] at h
          cases h
        rw [hfix, fixup_ok hfix] at h
        have h := Except.ok.inj h
        unfold edgeTo
        by_cases hk : f.kind = .loop
        · rw [if_pos hk] at h ⊢
          cases h
          exact ⟨hle, rfl, (if_pos hk).symm⟩
        · rw [if_neg hk] at h ⊢
          cases h
          exact ⟨hle, rfl, (if_neg hk).symm⟩
      · cases h
    · cases h

/-- List a branch whose op is the last one in its frame. -/
theorem registerBranch_ctrl (t : Translator) (f : CtrlFrame) (l n : ℕ) (slot : PatchSlot) :
    (t.registerBranch (if f.kind = .loop then none else some l) n slot).ctrl
      = (branchRegs f l slot).foldl (fun c r => c.modify r.1 (·.addPatch ⟨n, r.2⟩)) t.ctrl := by
  unfold branchRegs
  by_cases hk : f.kind = .loop
  · rw [if_pos hk, if_pos hk]
    rfl
  · rw [if_neg hk, if_neg hk]
    rfl

/-- An op with an inline edge, behind the others or in place of a comparison. -/
theorem emits_branch {op : Op} (hv : Emits t v n op [] []) (hop : ∀ slot, flatIndex slot op = none)
    (hfuse : fusableCmpOf op = none)
    (hu : u = v.registerBranch (if f.kind = .loop then none else some l) n .single) :
    Emits t u n op [] (branchRegs f l .single) := by
  have hsame := registerBranch_same v (if f.kind = .loop then none else some l) n .single
  have hops : u.ops = v.ops := by rw [hu, hsame]
  have hpool : u.brTables = v.brTables := by rw [hu, hsame]
  have hfus : u.fusableCmp = v.fusableCmp := by rw [hu, hsame]
  have hself : u.ops[n]? = some op := by rw [hops]; exact hv.ops_self
  have hset : u.settled = n + 1 := by
    rw [settled_of_none (hfus.trans (hv.fuse.trans hfuse)), hops, hv.length_ops]
  refine ⟨hv.settled_le, hv.le, hops.trans hv.ops, hpool.trans hv.brTables, ?_, ?_, ?_,
    hfus.trans hv.fuse, fun r hr => ?_, fun _ => hfuse, fun he => ?_⟩
  · rw [hu, hsame]
    exact hv.bigMemargs
  · rw [hu, hsame]
    exact hv.handlers
  · rw [hu, registerBranch_ctrl, hv.ctrl]
    rfl
  · refine ⟨by omega, .inline n, ?_, hv.settled_le, ?_⟩
    · unfold place
      rw [hself]
      simp only [Option.map_some, hop]
    · show ¬u.settled ≤ n
      omega
  · rw [hu, hsame] at he
    exact hv.error he

theorem br_emits (h : t.br l = .ok u) :
    ∃ f, t.ctrl[l]? = some f ∧ f.baseHeight + f.labelArity ≤ t.height ∧
      Emits t u t.nextIp (.br (edgeTo f t.height)) [] (branchRegs f l .single) ∧
      u.reachable = false := by
  unfold br at h
  rcases hb : t.branchTarget l with e | ⟨target, frame⟩
  · rw [hb] at h
    cases h
  rw [hb] at h
  obtain ⟨f, hf, hle, rfl, rfl⟩ := branchTarget_ok hb
  obtain rfl := Except.ok.inj h
  refine ⟨f, hf, hle, ?_, rfl⟩
  have hv := SameStreams.emits (t := t) (v := t) (o := .br (edgeTo f t.height)) (r := false)
    ⟨rfl, rfl, rfl, rfl, rfl, rfl, rfl⟩ (fun _ => rfl) fun h => h
  refine emits_branch (f := f) (l := l) hv (fun _ => rfl) rfl ?_
  by_cases hk : f.kind = .loop
  · simp only [if_pos hk]
    rfl
  · simp only [if_neg hk]
    rfl

/-- The op of a conditional branch, fused with the comparison in front of it if there is one; an
`if` branches when the condition is false. -/
def condBranch (cmp : Option CmpKind) (negate : Bool) (target : BranchTarget) : Op :=
  match cmp with
  | some kind => .brIfCmp kind negate target
  | none => if negate then .brIfNot target else .brIf target

theorem flatIndex_condBranch (cmp : Option CmpKind) (negate : Bool) (target : BranchTarget)
    (slot : PatchSlot) : flatIndex slot (condBranch cmp negate target) = none := by
  rcases cmp with _ | kind
  · cases negate <;> rfl
  · rfl

theorem fusableCmpOf_condBranch (cmp : Option CmpKind) (negate : Bool) (target : BranchTarget) :
    fusableCmpOf (condBranch cmp negate target) = none := by
  rcases cmp with _ | kind
  · cases negate <;> rfl
  · rfl

/-- A comparison that may be fused is the last op, and the only one not settled. -/
theorem Tracked.settled_fuse (ht : Tracked t) {k : CmpKind} (hk : t.fusableCmp = some k) :
    t.settled = t.nextIp - 1 ∧ 0 < t.nextIp ∧ t.ops[t.nextIp - 1]? = some (.plain (.relop k)) := by
  have hlast := ht.fuse k hk
  obtain ⟨hlt, -⟩ := List.getElem?_eq_some_iff.mp hlast
  refine ⟨?_, ?_, hlast⟩
  · unfold settled
    rw [hk]
    rfl
  · show 0 < t.ops.length
    omega

/-- The branch behind a comparison takes its place. -/
theorem SameStreams.fuses (hs : SameStreams t v) (ht : Tracked t) {k : CmpKind}
    (hk : t.fusableCmp = some k) {o : Op} (hop : fusableCmpOf o = none)
    (herr : v.error = none → t.error = none) :
    Emits t { v with fusableCmp := none, ops := v.ops.set (v.nextIp - 1) o } t.settled o [] [] := by
  obtain ⟨hset, hpos, -⟩ := ht.settled_fuse hk
  have hip : v.nextIp = t.nextIp := congrArg List.length hs.ops
  refine ⟨le_refl _, settled_le t, ?_, ?_, ?_, hs.handlers, hs.ctrl, hop.symm,
    fun r hr => absurd hr List.not_mem_nil, fun _ => hop, herr⟩
  · show v.ops.set (v.nextIp - 1) o = _
    rw [hip, hs.ops, hset, List.set_eq_take_append_cons_drop, if_pos (by show _ < t.nextIp; omega)]
    rw [List.drop_eq_nil_of_le (by show t.nextIp ≤ _; omega)]
  · rw [List.append_nil]
    exact hs.brTables
  · show t.bigMemargs <+: v.bigMemargs
    rw [hs.bigMemargs]

theorem brIf_emits (ht : Tracked t) (hr : t.reachable = true) (h : t.brIf l = .ok u) :
    ∃ f, t.ctrl[l]? = some f ∧ f.baseHeight + f.labelArity ≤ (t.pop 1).height ∧
      Emits t u t.settled (condBranch t.fusableCmp false (edgeTo f (t.pop 1).height)) []
        (branchRegs f l .single) ∧
      u.reachable = true ∧ u.height = (t.pop 1).height ∧ u.error = (t.pop 1).error := by
  unfold brIf at h
  have hs := pop_streams t 1
  rcases hb : (t.pop 1).branchTarget l with e | ⟨target, frame⟩
  · simp only [hb] at h
    cases h
  simp only [hb, bind, Except.bind] at h
  obtain ⟨f, hf, hle, rfl, rfl⟩ := branchTarget_ok hb
  rw [hs.ctrl] at hf
  have herr : (t.pop 1).error = none → t.error = none := fun he => (pop_error he).1
  have hrp : (t.pop 1).reachable = true := hs.reachable.trans hr
  refine ⟨f, hf, hle, ?_⟩
  rcases hk : t.fusableCmp with _ | k
  · rw [hs.fusableCmp, hk] at h
    obtain rfl := Except.ok.inj h
    have hv := hs.emits (o := .brIf (edgeTo f (t.pop 1).height)) (r := (t.pop 1).reachable)
      (fun _ => rfl) herr
    rw [settled_of_none hk]
    refine ⟨emits_branch (f := f) (l := l) hv (fun _ => rfl) rfl ?_, ?_, ?_, ?_⟩
    · show _ = Translator.registerBranch ((t.pop 1).emit _) _ t.ops.length .single
      rw [nextIp, hs.ops]
    · rw [registerBranch_same]
      exact hrp
    · rw [registerBranch_same]
      rfl
    · rw [registerBranch_same]
      rfl
  · rw [hs.fusableCmp, hk] at h
    obtain rfl := Except.ok.inj h
    have hv := hs.fuses ht hk (o := .brIfCmp k false (edgeTo f (t.pop 1).height)) rfl herr
    refine ⟨emits_branch (f := f) (l := l) hv (fun _ => rfl) rfl ?_, ?_, ?_, ?_⟩
    · rw [(ht.settled_fuse hk).1]
      show _ = Translator.registerBranch _ _ (t.nextIp - 1) .single
      rw [nextIp, hs.ops]
      rfl
    · rw [registerBranch_same]
      exact hrp
    · rw [registerBranch_same]
    · rw [registerBranch_same]

/-- The accounting behind an op changes nothing of what it emits. -/
theorem Emits.accounts {op : Op} (h : Emits t u n op edges regs) (hs : SameStreams u v)
    (herr : v.error = none → u.error = none) : Emits t v n op edges regs := by
  have hset : v.settled = u.settled := by
    unfold settled
    rw [hs.ops, hs.fusableCmp]
  refine ⟨h.settled_le, h.le, hs.ops.trans h.ops, hs.brTables.trans h.brTables, ?_,
    hs.handlers.trans h.handlers, hs.ctrl.trans h.ctrl, hs.fusableCmp.trans h.fuse,
    fun r hr => ?_, fun hr => h.dead (hs.reachable.symm.trans hr), fun he => h.error (herr he)⟩
  · rw [hs.bigMemargs]
    exact h.bigMemargs
  · obtain ⟨h1, a, h2, h3, h4⟩ := h.regs_ok r hr
    refine ⟨by rw [hset]; exact h1, a, by rw [hs.ops]; exact h2, h3, ?_⟩
    rcases a with i | j
    · show ¬v.settled ≤ i
      rw [hset]
      exact h4
    · show ¬v.brTables.length ≤ j
      rw [hs.brTables]
      exact h4

theorem brOnNull_emits (hr : t.reachable = true) (h : t.brOnNull l = .ok u) :
    ∃ f, t.ctrl[l]? = some f ∧ f.baseHeight + f.labelArity ≤ (t.pop 1).height ∧
      Emits t u t.nextIp (.brOnNull (edgeTo f (t.pop 1).height)) [] (branchRegs f l .single) ∧
      u.reachable = true ∧
      (u.error = none → (t.pop 1).error = none ∧ u.height = (t.pop 1).height + 1) := by
  unfold brOnNull at h
  have hs := pop_streams t 1
  rcases hb : (t.pop 1).branchTarget l with e | ⟨target, frame⟩
  · simp only [hb] at h
    cases h
  simp only [hb, bind, Except.bind] at h
  obtain ⟨f, hf, hle, rfl, rfl⟩ := branchTarget_ok hb
  rw [hs.ctrl] at hf
  obtain rfl := Except.ok.inj h
  set w := ((t.pop 1).emit (.brOnNull (edgeTo f (t.pop 1).height))).registerBranch
    (if f.kind = .loop then none else some l) (t.pop 1).nextIp .single with hw
  have hw' : w = { (t.pop 1).emit (.brOnNull (edgeTo f (t.pop 1).height)) with ctrl := w.ctrl } :=
    registerBranch_same _ _ _ _
  have hv := hs.emits (o := .brOnNull (edgeTo f (t.pop 1).height)) (r := (t.pop 1).reachable)
    (fun _ => rfl) fun he => (pop_error he).1
  have hem : Emits t w t.nextIp (.brOnNull (edgeTo f (t.pop 1).height)) []
      (branchRegs f l .single) := by
    refine emits_branch (f := f) (l := l) hv (fun _ => rfl) rfl ?_
    rw [hw, nextIp, hs.ops]
    rfl
  have hp := push_streams w 1
  refine ⟨f, hf, hle, hem.accounts hp fun he => (push_error he).1, ?_, fun he => ?_⟩
  · rw [hp.reachable, hw']
    exact hs.reachable.trans hr
  · obtain ⟨h1, h2⟩ := push_error he
    have hwe : w.error = (t.pop 1).error := by rw [hw']; rfl
    have hwh : w.height = (t.pop 1).height := by rw [hw']; rfl
    exact ⟨hwe ▸ h1, by rw [h2, hwh]⟩

theorem brOnNonNull_emits (hr : t.reachable = true) (h : t.brOnNonNull l = .ok u) :
    ∃ f, t.ctrl[l]? = some f ∧ f.baseHeight + f.labelArity ≤ t.height ∧
      Emits t u t.nextIp (.brOnNonNull (edgeTo f t.height)) [] (branchRegs f l .single) ∧
      u.reachable = true ∧ (u.error = none → u.height = t.height - 1) := by
  unfold brOnNonNull at h
  rcases hb : t.branchTarget l with e | ⟨target, frame⟩
  · rw [hb] at h
    cases h
  simp only [hb, bind, Except.bind] at h
  obtain ⟨f, hf, hle, rfl, rfl⟩ := branchTarget_ok hb
  obtain rfl := Except.ok.inj h
  set w := (t.emit (.brOnNonNull (edgeTo f t.height))).registerBranch
    (if f.kind = .loop then none else some l) t.nextIp .single with hw
  have hw' : w = { t.emit (.brOnNonNull (edgeTo f t.height)) with ctrl := w.ctrl } :=
    registerBranch_same _ _ _ _
  have hv := SameStreams.emits (t := t) (v := t) (o := .brOnNonNull (edgeTo f t.height))
    (r := t.reachable) ⟨rfl, rfl, rfl, rfl, rfl, rfl, rfl⟩ (fun _ => rfl) fun h => h
  have hem : Emits t w t.nextIp (.brOnNonNull (edgeTo f t.height)) []
      (branchRegs f l .single) :=
    emits_branch (f := f) (l := l) hv (fun _ => rfl) rfl hw
  have hp := pop_streams w 1
  refine ⟨f, hf, hle, hem.accounts hp fun he => (pop_error he).1, ?_, fun he => ?_⟩
  · rw [hp.reachable, hw']
    exact hr
  · have hwh : w.height = t.height := by rw [hw']; rfl
    rw [(pop_error he).2.2, hwh]

/-- The branches of an op with pooled edges: the edge of each listed branch is one of them. -/
theorem emits_pooled {op : Op} (hops : u.ops = t.ops ++ [op])
    (hpool : u.brTables = t.brTables ++ edges) (hbig : u.bigMemargs = t.bigMemargs)
    (hhan : u.handlers = t.handlers)
    (hctrl : u.ctrl = regs.foldl (fun c r => c.modify r.1 (·.addPatch ⟨t.nextIp, r.2⟩)) t.ctrl)
    (hfuse : u.fusableCmp = none) (hop : fusableCmpOf op = none)
    (hregs : ∀ r ∈ regs, ∃ j, flatIndex r.2 op = some (t.brTables.length + j) ∧ j < edges.length)
    (herr : u.error = none → t.error = none) : Emits t u t.nextIp op edges regs := by
  have hset : u.settled = t.nextIp + 1 := by
    rw [settled_of_none hfuse, hops, List.length_append]
    rfl
  have hself : u.ops[t.nextIp]? = some op := by
    rw [hops, nextIp, List.getElem?_append_right (le_refl _), Nat.sub_self]
    rfl
  refine ⟨settled_le t, le_refl _, ?_, hpool, ?_, hhan, hctrl, hfuse.trans hop.symm,
    fun r hr => ?_, fun _ => hop, herr⟩
  · rw [nextIp, List.take_length]
    exact hops
  · rw [hbig]
  · obtain ⟨j, hj, hlt⟩ := hregs r hr
    refine ⟨by omega, .pool (t.brTables.length + j), ?_, ?_, ?_⟩
    · unfold place
      rw [hself]
      simp only [Option.map_some, hj]
    · exact Nat.le_add_right _ _
    · show ¬u.brTables.length ≤ t.brTables.length + j
      rw [hpool, List.length_append]
      omega

theorem brOnCast_emits {ty : IrHeap} {nullable fail : Bool}
    (h : t.brOnCast l ty nullable fail = .ok u) :
    ∃ f, t.ctrl[l]? = some f ∧ f.baseHeight + f.labelArity ≤ t.height ∧
      Emits t u t.nextIp (.brOnCast ty t.brTables.length nullable fail) [edgeTo f t.height]
        (branchRegs f l .single) ∧
      u.reachable = t.reachable ∧ u.height = t.height := by
  unfold brOnCast at h
  rcases hb : t.branchTarget l with e | ⟨target, frame⟩
  · rw [hb] at h
    cases h
  simp only [hb, bind, Except.bind] at h
  obtain ⟨f, hf, hle, rfl, rfl⟩ := branchTarget_ok hb
  obtain rfl := Except.ok.inj h
  set v := (t.pushEdge (edgeTo f t.height)).emit (.brOnCast ty t.brTables.length nullable fail)
  have hsame := registerBranch_same v (if f.kind = .loop then none else some l) t.nextIp .single
  refine ⟨f, hf, hle, ?_, ?_, ?_⟩
  · refine emits_pooled ?_ ?_ ?_ ?_ ?_ ?_ rfl (fun r hr => ?_) fun he => ?_
    · exact congrArg Translator.ops hsame
    · exact congrArg Translator.brTables hsame
    · exact (congrArg Translator.bigMemargs hsame).trans rfl
    · exact (congrArg Translator.handlers hsame).trans rfl
    · exact registerBranch_ctrl v f l t.nextIp .single
    · exact (congrArg Translator.fusableCmp hsame).trans rfl
    · exact ⟨0, rfl, Nat.one_pos⟩
    · have hv : v.error = none := (congrArg Translator.error hsame).symm.trans he
      exact hv
  · exact (congrArg Translator.reachable hsame).trans rfl
  · exact (congrArg Translator.height hsame).trans rfl

/-- The branches of the cases of a `br_table`, the first of which is case `k`. -/
def caseRegs : ℕ → List ℕ → List CtrlFrame → List (ℕ × PatchSlot)
  | k, l :: ls, f :: fs => branchRegs f l (.tableCase k) ++ caseRegs (k + 1) ls fs
  | _, _, _ => []

theorem mem_caseRegs {ls : List ℕ} {fs : List CtrlFrame} {r : ℕ × PatchSlot}
    (h : r ∈ caseRegs k ls fs) :
    ∃ i l f, ls[i]? = some l ∧ fs[i]? = some f ∧ f.kind ≠ .loop ∧ r = (l, .tableCase (k + i)) := by
  induction ls generalizing k fs with
  | nil => exact absurd h (by unfold caseRegs; exact List.not_mem_nil)
  | cons l ls ih =>
    rcases fs with _ | ⟨f, fs⟩
    · exact absurd h (by unfold caseRegs; exact List.not_mem_nil)
    · rw [caseRegs] at h
      rcases List.mem_append.mp h with h | h
      · unfold branchRegs at h
        split at h
        · exact absurd h List.not_mem_nil
        · rename_i hk
          obtain rfl := List.mem_singleton.mp h
          exact ⟨0, l, f, rfl, rfl, hk, rfl⟩
      · obtain ⟨i, l', f', hl, hf, hk, rfl⟩ := ih h
        exact ⟨i + 1, l', f', hl, hf, hk, by rw [Nat.add_right_comm, Nat.add_assoc]⟩

theorem caseRegs_mem {ls : List ℕ} {fs : List CtrlFrame} (hl : ls[i]? = some l)
    (hf : fs[i]? = some f) (hk : f.kind ≠ .loop) : (l, .tableCase (k + i)) ∈ caseRegs k ls fs := by
  induction ls generalizing k i fs with
  | nil => cases hl
  | cons l' ls ih =>
    rcases fs with _ | ⟨f', fs⟩
    · cases hf
    · rw [caseRegs]
      cases i with
      | zero =>
        obtain rfl : l' = l := Option.some.inj hl
        obtain rfl : f' = f := Option.some.inj hf
        refine List.mem_append_left _ ?_
        unfold branchRegs
        rw [if_neg hk]
        exact List.mem_singleton_self _
      | succ i =>
        refine List.mem_append_right _ ?_
        have := ih (k := k + 1) (i := i) hl hf
        rw [show k + (i + 1) = k + 1 + i by omega]
        exact this

theorem brTableCases_ok {cases : List ℕ} {patches : List (ℕ × PatchSlot)}
    (h : brTableCases k cases t = .ok (patches, u)) :
    ∃ fs : List CtrlFrame, List.Forall₂ (fun l f => t.ctrl[l]? = some f ∧
        f.baseHeight + f.labelArity ≤ t.height) cases fs ∧
      u = { t with brTables := t.brTables ++ fs.map (edgeTo · t.height) } ∧
      patches = caseRegs k cases fs := by
  induction cases generalizing k t patches with
  | nil =>
    cases h
    exact ⟨[], .nil, by rw [List.map_nil, List.append_nil], rfl⟩
  | cons l cases ih =>
    unfold brTableCases at h
    rcases hb : t.branchTarget l with e | ⟨target, frame⟩
    · rw [hb] at h
      cases h
    simp only [hb, bind, Except.bind] at h
    obtain ⟨f, hf, hle, rfl, rfl⟩ := branchTarget_ok hb
    rcases hc : brTableCases (k + 1) cases (t.pushEdge (edgeTo f t.height)) with e | ⟨ps, v⟩
    · rw [hc] at h
      cases h
    simp only [hc, pure, Except.pure, Except.ok.injEq, Prod.mk.injEq] at h
    obtain ⟨hp, rfl⟩ := h
    obtain ⟨fs, hfs, hv, rfl⟩ := ih hc
    refine ⟨f :: fs, .cons ⟨hf, hle⟩ hfs, ?_, ?_⟩
    · rw [hv, List.map_cons]
      show ({ t with brTables := (t.brTables ++ [edgeTo f t.height]) ++ _ } : Translator) = _
      rw [List.append_assoc]
      rfl
    · rw [← hp, caseRegs]
      unfold branchRegs
      by_cases hk : f.kind = .loop
      · simp only [if_pos hk, List.nil_append]
      · simp only [if_neg hk]
        rfl

theorem foldl_register (patches : List (ℕ × PatchSlot)) (n : ℕ) (t : Translator) :
    patches.foldl (fun t p => t.registerBranch (some p.1) n p.2) t
      = { t with
          ctrl := patches.foldl (fun c r => c.modify r.1 (·.addPatch ⟨n, r.2⟩)) t.ctrl } := by
  induction patches generalizing t with
  | nil => rfl
  | cons p patches ih =>
    rw [List.foldl_cons, ih]
    rfl

theorem brTable_emits {cases : List ℕ} {default : ℕ} (h : t.brTable cases default = .ok u) :
    ∃ fs g, List.Forall₂ (fun l f => t.ctrl[l]? = some f ∧
        f.baseHeight + f.labelArity ≤ (t.pop 1).height) cases fs ∧
      t.ctrl[default]? = some g ∧ g.baseHeight + g.labelArity ≤ (t.pop 1).height ∧
      Emits t u t.nextIp (.brTable t.brTables.length cases.length)
        ((fs ++ [g]).map (edgeTo · (t.pop 1).height))
        (caseRegs 0 cases fs ++ branchRegs g default .tableDefault) ∧
      u.reachable = false ∧ u.error = (t.pop 1).error := by
  unfold brTable at h
  have hs := pop_streams t 1
  rcases hc : brTableCases 0 cases (t.pop 1) with e | ⟨ps, v⟩
  · simp only [hc] at h
    cases h
  simp only [hc, bind, Except.bind] at h
  obtain ⟨fs, hfs, hv, rfl⟩ := brTableCases_ok hc
  rcases hb : v.branchTarget default with e | ⟨target, frame⟩
  · rw [hb] at h
    cases h
  simp only [hb] at h
  obtain ⟨g, hg, hle, rfl, rfl⟩ := branchTarget_ok hb
  have hvh : v.height = (t.pop 1).height := by rw [hv]
  have hvc : v.ctrl = t.ctrl := by rw [hv]; exact hs.ctrl
  rw [hvc] at hg
  rw [hvh] at hle h
  rw [hs.ctrl] at hfs
  have h := Except.ok.inj h
  set w := (v.pushEdge (edgeTo g (t.pop 1).height)).emit
    (.brTable (t.pop 1).brTables.length cases.length) with hw
  have h : { (caseRegs 0 cases fs ++ branchRegs g default .tableDefault).foldl
      (fun t p => t.registerBranch (some p.1) v.nextIp p.2) w with reachable := false } = u := by
    unfold branchRegs
    by_cases hk : g.kind = .loop
    · simp only [if_pos hk] at h ⊢
      exact h
    · simp only [if_neg hk] at h ⊢
      exact h
  rw [foldl_register] at h
  refine ⟨fs, g, hfs, hg, hle, ?_, ?_, ?_⟩
  · have hbase : (t.pop 1).brTables.length = t.brTables.length := by rw [hs.brTables]
    rw [hbase] at hw
    refine emits_pooled ?_ ?_ ?_ ?_ ?_ ?_ rfl (fun r hr => ?_) fun he => ?_
    · rw [← h, hw, hv]
      show (t.pop 1).ops ++ _ = _
      rw [hs.ops]
    · rw [← h, hw, hv]
      show ((t.pop 1).brTables ++ _) ++ _ = _
      rw [hs.brTables, List.append_assoc, List.map_append]
      rfl
    · rw [← h, hw, hv]
      exact hs.bigMemargs
    · rw [← h, hw, hv]
      exact hs.handlers
    · rw [← h]
      have hip : v.nextIp = t.nextIp := by
        rw [hv]
        exact congrArg List.length hs.ops
      have hwc : w.ctrl = t.ctrl := hvc
      rw [hip, hwc]
    · rw [← h]
      rfl
    · have hlen : cases.length = fs.length := hfs.length_eq
      rcases List.mem_append.mp hr with hr | hr
      · obtain ⟨i, l, f, hl, hf, -, rfl⟩ := mem_caseRegs hr
        obtain ⟨hi, -⟩ := List.getElem?_eq_some_iff.mp hf
        refine ⟨i, ?_, ?_⟩
        · show some (t.brTables.length + (0 + i)) = _
          rw [Nat.zero_add]
        · rw [List.length_map, List.length_append]
          omega
      · unfold branchRegs at hr
        split at hr
        · exact absurd hr List.not_mem_nil
        · obtain rfl := List.mem_singleton.mp hr
          refine ⟨cases.length, rfl, ?_⟩
          rw [List.length_map, List.length_append, List.length_singleton]
          omega
    · rw [← h, hw, hv] at he
      exact (pop_error he).1
  · rw [← h]
  · rw [← h, hw, hv]
    rfl

theorem ret_emits (h : t.ret = .ok u) :
    ∃ f, t.ctrl.getLast? = some f ∧ f.resultCount ≤ t.height ∧
      Emits t u t.nextIp (.br ⟨0, f.resultCount, t.height - f.resultCount⟩) []
        [(t.ctrl.length - 1, .single)] ∧
      u.reachable = false := by
  unfold ret at h
  split at h
  · cases h
  · rename_i f hf
    refine ⟨f, hf, ?_⟩
    split at h
    · rename_i hle
      rcases hfix : fixup f.resultCount (t.height - f.resultCount) with e | r
      · rw [hfix] at h
        cases h
      rw [hfix, fixup_ok hfix] at h
      obtain rfl := Except.ok.inj h
      refine ⟨hle, ?_, rfl⟩
      have hv := SameStreams.emits (t := t) (v := t)
        (o := .br ⟨0, f.resultCount, t.height - f.resultCount⟩) (r := false)
        ⟨rfl, rfl, rfl, rfl, rfl, rfl, rfl⟩ (fun _ => rfl) fun h => h
      exact emits_branch (f := funcFrame 0) (l := t.ctrl.length - 1) hv (fun _ => rfl) rfl rfl
    · cases h

/-! ## Frames that open and close -/

/-- `u` is `t` with the frame `f` opened. -/
structure Opens (t u : Translator) (f : CtrlFrame) : Prop where
  ops : u.ops = t.ops
  brTables : u.brTables = t.brTables
  bigMemargs : u.bigMemargs = t.bigMemargs
  handlers : u.handlers = t.handlers
  ctrl : u.ctrl = f :: t.ctrl
  fuse : u.fusableCmp = none
  reachable : u.reachable = t.reachable
  height : u.height = t.height
  error : u.error = none → t.error = none ∧ f.paramCount ≤ t.height ∧
    f.baseHeight = t.height - f.paramCount
  endPatches : f.endPatches = []

theorem heightBelow_streams (t : Translator) (n : ℕ) :
    SameStreams t (t.heightBelow n).2 ∧ (t.heightBelow n).2.height = t.height ∧
      ((t.heightBelow n).2.error = none →
        t.error = none ∧ n ≤ t.height ∧ (t.heightBelow n).1 = t.height - n) := by
  unfold heightBelow
  split
  · rename_i hle
    exact ⟨⟨rfl, rfl, rfl, rfl, rfl, rfl, rfl⟩, rfl, fun h => ⟨h, hle, rfl⟩⟩
  · exact ⟨⟨rfl, rfl, rfl, rfl, rfl, rfl, rfl⟩, rfl, fun h => absurd h (latch_error t _)⟩

/-- Push a frame over the height below its parameters. -/
theorem opens_frame (t : Translator) (kind : BlockKind) (ps rs : ℕ) (elsePatch : Option ℕ)
    (clauses : List HandlerClause) :
    Opens t
      { ({ t with fusableCmp := none }.heightBelow ps).2 with
        ctrl := ⟨kind, ({ t with fusableCmp := none }.heightBelow ps).1, ps, rs,
          ({ t with fusableCmp := none }.heightBelow ps).2.nextIp, [], elsePatch,
          ({ t with fusableCmp := none }.heightBelow ps).2.reachable, false, clauses⟩
            :: ({ t with fusableCmp := none }.heightBelow ps).2.ctrl }
      ⟨kind, ({ t with fusableCmp := none }.heightBelow ps).1, ps, rs, t.nextIp, [], elsePatch,
        t.reachable, false, clauses⟩ := by
  obtain ⟨hs, hh, he⟩ := heightBelow_streams { t with fusableCmp := none } ps
  refine ⟨hs.ops, hs.brTables, hs.bigMemargs, hs.handlers, ?_, hs.fusableCmp, hs.reachable, hh,
    he, rfl⟩
  show _ :: _ = _
  rw [hs.ctrl, hs.reachable,
    show (({ t with fusableCmp := none } : Translator).heightBelow ps).2.nextIp = t.nextIp from
      congrArg List.length hs.ops]

theorem region_opens (ctx : CompileCtx) (t : Translator) (r : Region) (bt : BlockType) :
    ∃ u f, t.visit ctx (r.operator bt) = .ok u ∧ Opens t u f ∧ f.kind = regionKind r ∧
      f.paramCount = (blockArity ctx bt).1 ∧ f.resultCount = (blockArity ctx bt).2 ∧
      f.startIp = t.nextIp ∧ f.elsePatch = none ∧ f.reachableOnEntry = t.reachable ∧
      f.endTargeted = false ∧ f.clauses = regionClauses r := by
  cases r with
  | block =>
    exact ⟨_, _, rfl, opens_frame t .block _ _ none [], rfl, rfl, rfl, rfl, rfl, rfl, rfl, rfl⟩
  | loop =>
    exact ⟨_, _, rfl, opens_frame t .loop _ _ none [], rfl, rfl, rfl, rfl, rfl, rfl, rfl, rfl⟩
  | tryTable catches =>
    exact ⟨_, _, rfl, opens_frame t .tryTable _ _ none (catches.map convCatch), rfl, rfl, rfl, rfl,
      rfl, rfl, rfl, rfl⟩

/-- The branch of a reachable `if`, and the frame behind it. -/
theorem if_opens (ctx : CompileCtx) (ht : Tracked t) (hr : t.reachable = true) (bt : BlockType) :
    ∃ v u f, t.visit ctx (.if_ bt) = .ok u ∧
      Emits t v t.settled (condBranch t.fusableCmp true ⟨0, 0, 0⟩) [] [] ∧ Opens v u f ∧
      v.height = (t.pop 1).height ∧ v.error = (t.pop 1).error ∧ v.reachable = true ∧
      f.kind = .if_ ∧ f.paramCount = (blockArity ctx bt).1 ∧
      f.resultCount = (blockArity ctx bt).2 ∧ f.elsePatch = some t.settled ∧
      f.reachableOnEntry = true ∧ f.endTargeted = false := by
  have hs := pop_streams t 1
  have herr : (t.pop 1).error = none → t.error = none := fun he => (pop_error he).1
  have hrp : (t.pop 1).reachable = true := hs.reachable.trans hr
  rcases hk : t.fusableCmp with _ | k
  · have hv := hs.emits (o := .brIfNot ⟨0, 0, 0⟩) (r := (t.pop 1).reachable) (fun _ => rfl) herr
    refine ⟨(t.pop 1).emit (.brIfNot ⟨0, 0, 0⟩), _, _, ?_, ?_,
      opens_frame ((t.pop 1).emit (.brIfNot ⟨0, 0, 0⟩)) .if_ _ _ (some t.settled) [], rfl, rfl, hrp,
      rfl, rfl, rfl, rfl, hrp, rfl⟩
    · have hb : t.ifBranch = (some t.settled, (t.pop 1).emit (.brIfNot ⟨0, 0, 0⟩)) := by
        unfold ifBranch
        rw [if_pos hr]
        simp only [hs.fusableCmp, hk]
        rw [settled_of_none hk, nextIp, hs.ops]
      show Except.ok (t.pushIf ctx bt) = _
      unfold pushIf
      rw [hb]
    · rw [settled_of_none hk]
      exact hv
  · have hv := hs.fuses ht hk (o := .brIfCmp k true ⟨0, 0, 0⟩) rfl herr
    -- the comparison's mark is cleared with the frame
    refine ⟨_, _, _, ?_, hv, opens_frame _ .if_ _ _ (some t.settled) [], rfl, rfl, hrp, rfl, rfl,
      rfl, rfl, hrp, rfl⟩
    have hb : t.ifBranch = (some t.settled, { t.pop 1 with
        ops := (t.pop 1).ops.set ((t.pop 1).nextIp - 1) (.brIfCmp k true ⟨0, 0, 0⟩) }) := by
      unfold ifBranch
      rw [if_pos hr]
      simp only [hs.fusableCmp, hk]
      rw [(ht.settled_fuse hk).1, nextIp, hs.ops]
      rfl
    show Except.ok (t.pushIf ctx bt) = _
    unfold pushIf
    rw [hb]

/-- A translator inside a construct that was opened behind `t`: its innermost frame waits for
places fresh for `t`, and without that frame it extends `t`. -/
structure Inside (t u : Translator) (f : CtrlFrame) (d : List CtrlFrame) : Prop where
  ctrl : u.ctrl = f :: d
  ext : Extends t { u with ctrl := d }
  endPatches : ∀ p ∈ f.endPatches, ∀ a, place u.ops p = some a → Fresh t a
  elsePatch : ∀ i, f.elsePatch = some i → t.settled ≤ i

/-- A comparison in front of a construct is no longer fused. -/
theorem Extends.unfuse (h : Extends t u) : Extends t { u with fusableCmp := none } := by
  have hle : u.settled ≤ ({ u with fusableCmp := none } : Translator).settled :=
    Translator.settled_le u
  refine ⟨le_trans h.settled_le hle, h.pool_le, h.read, ?_, h.handlers, h.bigMemargs, h.error⟩
  refine h.frames.imp fun f f' hf => ?_
  obtain ⟨new, hnew, hn⟩ := hf.patches
  refine ⟨hf.same, hf.targeted, new, hnew, fun p hp => ?_⟩
  obtain ⟨hop, a, ha, hfr, hnf⟩ := hn p hp
  refine ⟨lt_of_lt_of_le hop hle, a, ha, hfr, fun hv => hnf ?_⟩
  rcases a with i | j
  · exact le_trans hle hv
  · exact hv

theorem Tracked.unfuse (h : Tracked t) : Tracked { t with fusableCmp := none } := by
  exact (Extends.refl t).unfuse.tracked h (fun k hk => by cases hk) fun _ => rfl

theorem Opens.inside (ho : Opens v u f) (hv : Extends t v)
    (helse : ∀ i, f.elsePatch = some i → t.settled ≤ i) : Inside t u f v.ctrl := by
  refine ⟨ho.ctrl, ?_, fun p hp => ?_, helse⟩
  · have hvu : Extends v { u with ctrl := v.ctrl } := by
      have hset : v.settled ≤ ({ u with ctrl := v.ctrl } : Translator).settled := by
        rw [settled_of_none (t := { u with ctrl := v.ctrl }) ho.fuse]
        show v.settled ≤ u.ops.length
        rw [ho.ops]
        exact settled_le v
      refine ⟨hset, le_of_eq (congrArg List.length ho.brTables).symm, fun a _ => ?_,
        frames_refl _ _ _, ⟨[], ?_⟩, ⟨[], ?_⟩, fun he => (ho.error he).1⟩
      · show Translator.read u.ops u.brTables a = _
        rw [ho.ops, ho.brTables]
      · rw [List.append_nil]
        exact ho.handlers.symm
      · rw [List.append_nil]
        exact ho.bigMemargs.symm
    exact hv.trans hvu
  · rw [ho.endPatches] at hp
    exact absurd hp List.not_mem_nil

theorem Opens.tracked (ho : Opens v u f) (hv : Tracked v) (helse : ∀ i, f.elsePatch = some i →
      i < v.ops.length ∧ place v.ops ⟨i, .single⟩ = some (.inline i)) : Tracked u := by
  have hset : u.settled = u.ops.length := settled_of_none ho.fuse
  have hu := hv.unfuse
  refine ⟨fun k hk => ?_, fun _ => ho.fuse, fun g hg p hp => ?_, fun g hg i hi => ?_⟩
  · rw [ho.fuse] at hk
    cases hk
  · rw [ho.ctrl] at hg
    rcases List.mem_cons.mp hg with rfl | hg
    · rw [ho.endPatches] at hp
      exact absurd hp List.not_mem_nil
    · obtain ⟨hop, a, ha, hnf⟩ := hu.endPatches g hg p hp
      refine ⟨?_, a, by rw [ho.ops]; exact ha, ?_⟩
      · rw [hset, ho.ops]
        exact hop
      · rcases a with i | j
        · show ¬u.settled ≤ i
          rw [hset, ho.ops]
          exact hnf
        · show ¬u.brTables.length ≤ j
          rw [ho.brTables]
          exact hnf
  · rw [hset, ho.ops]
    rw [ho.ctrl] at hg
    rcases List.mem_cons.mp hg with rfl | hg
    · exact helse i hi
    · exact hu.elsePatch g hg i hi

/-- A stretch of operators inside a construct. -/
theorem Inside.step {t u v : Translator} {f : CtrlFrame} {d : List CtrlFrame}
    (h : Inside t u f d) (hu : Tracked u) (he : Extends u v) :
    ∃ f' d', Inside t v f' d' ∧ FrameExt u v f f' ∧ List.Forall₂ (FrameExt u v) d d' := by
  have hframes := he.frames
  rw [h.ctrl] at hframes
  rcases hv : v.ctrl with _ | ⟨f', d'⟩
  · rw [hv] at hframes
    cases hframes
  rw [hv] at hframes
  obtain ⟨hf, hd⟩ := List.forall₂_cons.mp hframes
  refine ⟨f', d', ⟨hv, ?_, fun p hp a ha => ?_, fun i hi => ?_⟩, hf, hd⟩
  · have hdrop : Extends { u with ctrl := d } { v with ctrl := d' } :=
      ⟨he.settled_le, he.pool_le, he.read, hd.imp fun _ _ h => ⟨h.same, h.targeted, h.patches⟩,
        he.handlers, he.bigMemargs, he.error⟩
    exact h.ext.trans hdrop
  · obtain ⟨new, hnew, hn⟩ := hf.patches
    rw [hnew] at hp
    rcases List.mem_append.mp hp with hp | hp
    · obtain ⟨hop, -⟩ := hu.endPatches f (by rw [h.ctrl]; exact List.mem_cons_self) p hp
      exact h.endPatches p hp a ((he.place_eq hop).symm.trans ha)
    · obtain ⟨-, b, hb, hfr, -⟩ := hn p hp
      obtain rfl : b = a := Option.some.inj (hb.symm.trans ha)
      exact h.ext.fresh (a := b) hfr
  · rw [hf.same] at hi
    exact h.elsePatch i hi

/-- The branches a frame still waits for at its end. -/
def framePatches (f : CtrlFrame) : List Patch :=
  f.elsePatch.toList.map (⟨·, .single⟩) ++ f.endPatches

theorem patchElse_patchAll (t : Translator) (f : CtrlFrame) (ip : ℕ) :
    (t.patchElse f.elsePatch ip).patchAll f.endPatches ip = t.patchAll (framePatches f) ip := by
  unfold framePatches
  cases f.elsePatch <;> rfl

/-- Targets written at places fresh for `t`. -/
theorem Extends.patchAll (h : Extends t w) {ps : List Patch} (ip : ℕ)
    (hps : ∀ p ∈ ps, ∀ a, place w.ops p = some a → Fresh t a) : Extends t (w.patchAll ps ip) := by
  have hp := patchAll_patched ps w ip
  have hset : (w.patchAll ps ip).settled = w.settled := by
    unfold settled
    rw [hp.fusableCmp, show (w.patchAll ps ip).ops.length = w.ops.length from hp.nextIp]
  refine ⟨by rw [hset]; exact h.settled_le, by rw [hp.pool]; exact h.pool_le, fun a ha => ?_, ?_,
    by rw [hp.handlers]; exact h.handlers, by rw [hp.bigMemargs]; exact h.bigMemargs,
    fun he => h.error (hp.error.symm.trans he)⟩
  · rcases read_patchAll ps w ip a with ⟨⟨p, hpm, hpl⟩, -⟩ | ⟨-, hread⟩
    · exact absurd (hps p hpm a hpl) ha
    · exact hread.trans (h.read a ha)
  · rw [hp.ctrl]
    refine h.frames.imp fun f f' hf => ?_
    obtain ⟨new, hnew, hn⟩ := hf.patches
    refine ⟨hf.same, hf.targeted, new, hnew, fun p hpm => ?_⟩
    obtain ⟨hop, a, ha, hfr, hnf⟩ := hn p hpm
    refine ⟨by rw [hset]; exact hop, a, (place_patchAll ps w ip p).trans ha, hfr, ?_⟩
    rcases a with i | j
    · show ¬(w.patchAll ps ip).settled ≤ i
      rw [hset]
      exact hnf
    · show ¬(w.patchAll ps ip).brTables.length ≤ j
      rw [hp.pool]
      exact hnf

/-- The places of a frame inside a construct are fresh for the translator before it. -/
theorem Inside.framePatches (h : Inside t u f d) (hu : Tracked u) :
    ∀ p ∈ framePatches f, ∀ a, place u.ops p = some a → Fresh t a := by
  intro p hp a ha
  rcases List.mem_append.mp hp with hp | hp
  · obtain ⟨i, hi, rfl⟩ := List.mem_map.mp hp
    have hi := Option.mem_toList.mp hi
    have hpl := (hu.elsePatch f (by rw [h.ctrl]; exact List.mem_cons_self) i hi).2
    obtain rfl : .inline i = a := Option.some.inj (hpl.symm.trans ha)
    exact h.elsePatch i hi
  · exact h.endPatches p hp a ha

/-- The end of a construct other than a reachable `try_table`. -/
theorem Inside.endBlock (h : Inside t u f d) (hu : Tracked u) :
    Extends t (endBlock f { u with fusableCmp := none, ctrl := d }) := by
  have hp : Extends t (Translator.patchAll { u with fusableCmp := none, ctrl := d }
      (Translator.framePatches f) u.nextIp) :=
    h.ext.unfuse.patchAll u.nextIp (h.framePatches hu)
  unfold Translator.endBlock
  rw [← patchElse_patchAll] at hp
  exact ⟨hp.settled_le, hp.pool_le, hp.read,
    hp.frames.imp fun _ _ h => ⟨h.same, h.targeted, h.patches⟩, hp.handlers, hp.bigMemargs,
    hp.error⟩

/-- One landing pad: a branch to the label of its clause. -/
theorem pad_emits {height : ℕ} {target : BranchTarget} {frame : Option ℕ}
    (h : ({ t with height } : Translator).branchTarget l = .ok (target, frame)) :
    ∃ f, t.ctrl[l]? = some f ∧ f.baseHeight + f.labelArity ≤ height ∧
      Emits t ((({ t with height } : Translator).emit (.br target)).registerBranch frame t.nextIp
        .single) t.nextIp (.br (edgeTo f height)) [] (branchRegs f l .single) := by
  obtain ⟨f, hf, hle, rfl, rfl⟩ := branchTarget_ok h
  refine ⟨f, hf, hle, ?_⟩
  have hv := SameStreams.emits (t := t) (v := { t with height }) (o := .br (edgeTo f height))
    (r := t.reachable) ⟨rfl, rfl, rfl, rfl, rfl, rfl, rfl⟩ (fun _ => rfl) fun h => h
  exact emits_branch (f := f) (l := l) hv (fun _ => rfl) rfl rfl

/-- The landing pads of a `try_table`, one after the other. -/
theorem landingPads_cons {base : ℕ} {c : HandlerClause} {clauses : List HandlerClause}
    {recs : List HandlerRec} (h : landingPads ctx base (c :: clauses) t = .ok (recs, u)) :
    ∃ f v recs', t.ctrl[c.label]? = some f ∧
      f.baseHeight + f.labelArity ≤ base + payloadCount ctx c ∧
      Emits t v t.nextIp (.br (edgeTo f (base + payloadCount ctx c))) []
        (branchRegs f c.label .single) ∧
      v.error = t.error ∧ v.reachable = t.reachable ∧
      landingPads ctx base clauses v = .ok (recs', u) ∧
      recs = ⟨c.tag, base, c.payloadArgs, c.payloadRef, t.nextIp⟩ :: recs' := by
  simp only [landingPads] at h
  obtain ⟨⟨target, frame⟩, hb, h⟩ := bind_ok h
  obtain ⟨⟨recs', w⟩, hp, h⟩ := bind_ok h
  cases h
  obtain ⟨f, hf, hle, hem⟩ := pad_emits hb
  have hsame := registerBranch_same (({ t with height := base + payloadCount ctx c } :
    Translator).emit (.br target)) frame t.nextIp .single
  exact ⟨f, _, recs', hf, hle, hem, (congrArg Translator.error hsame).trans rfl,
    (congrArg Translator.reachable hsame).trans rfl, hp, rfl⟩

theorem landingPads_extends {base : ℕ} {clauses : List HandlerClause} {recs : List HandlerRec}
    (h : landingPads ctx base clauses t = .ok (recs, u)) (ht : Tracked t)
    (hf : t.fusableCmp = none) :
    Extends t u ∧ Tracked u ∧ u.fusableCmp = none ∧ u.handlers = t.handlers ∧
      u.error = t.error ∧ u.reachable = t.reachable := by
  induction clauses generalizing t recs with
  | nil =>
    cases h
    exact ⟨Extends.refl _, ht, hf, rfl, rfl, rfl⟩
  | cons c clauses ih =>
    obtain ⟨f, v, recs', -, -, hem, hve, hvr, hrest, -⟩ := landingPads_cons h
    obtain ⟨h1, h2, h3, h4, h5, h6⟩ := ih hrest (hem.tracked ht) hem.fuse
    exact ⟨hem.ext.trans h1, h2, h3, h4.trans hem.handlers, h5.trans hve, h6.trans hvr⟩

/-- The parts of a reachable `try_table`'s end: the branch over the pads, the pads, and the
targets written last. -/
theorem endTryTable_ok (h : endTryTable ctx f t = .ok u) :
    ∃ v w recs, Emits t v t.nextIp (.br ⟨0, f.resultCount, 0⟩) [] [] ∧ v.error = t.error ∧
      landingPads ctx f.baseHeight f.clauses v = .ok (recs, w) ∧
      u = { w.patchAll (⟨t.nextIp, .single⟩ :: f.endPatches) w.nextIp with
        handlers := w.handlers ++ [⟨f.startIp, t.nextIp, recs⟩]
        reachable := t.reachable || f.endTargeted
        height := f.baseHeight + f.resultCount } := by
  simp only [endTryTable] at h
  obtain ⟨r, hfix, h⟩ := bind_ok h
  obtain rfl := fixup_ok hfix
  obtain ⟨⟨recs, w⟩, hp, h⟩ := bind_ok h
  have hem := SameStreams.emits (t := t) (v := t) (o := .br ⟨0, f.resultCount, 0⟩)
    (r := t.reachable) ⟨rfl, rfl, rfl, rfl, rfl, rfl, rfl⟩ (fun _ => rfl) fun h => h
  have hpat := (patchIp_patched w t.nextIp .single w.nextIp).trans
    (patchAll_patched f.endPatches _ w.nextIp)
  refine ⟨_, w, recs, hem, rfl, hp, (Except.ok.inj h).symm.trans ?_⟩
  rw [hpat.handlers]
  rfl

/-- The end of a reachable `try_table`. -/
theorem Inside.endTryTable (h : Inside t u f d) (ht : Tracked t) (hu : Tracked u)
    (hend : endTryTable ctx f { u with fusableCmp := none, ctrl := d } = .ok w) :
    Extends t w ∧ w.fusableCmp = none := by
  obtain ⟨v, x, recs, hem, -, hpads, rfl⟩ := endTryTable_ok hend
  have hd : Tracked { u with fusableCmp := none, ctrl := d } :=
    h.ext.unfuse.tracked ht (fun k hk => by cases hk) fun _ => rfl
  obtain ⟨hx, -, hxf, -, -, -⟩ := landingPads_extends hpads (hem.tracked hd) hem.fuse
  have hux : Extends { u with fusableCmp := none, ctrl := d } x := hem.ext.trans hx
  -- the branch over the pads, and the branches the body has left to its end
  have hp : Extends t (x.patchAll (⟨u.nextIp, .single⟩ :: f.endPatches) x.nextIp) := by
    refine (h.ext.unfuse.trans hux).patchAll x.nextIp fun p hp a ha => ?_
    rcases List.mem_cons.mp hp with rfl | hp
    · have hself : x.ops[u.nextIp]? = some (.br ⟨0, f.resultCount, 0⟩) := by
        rw [hx.ops (by rw [hem.settled_eq rfl]; exact Nat.lt_succ_self _)]
        exact hem.ops_self
      have hpl : place x.ops ⟨u.nextIp, .single⟩ = some (.inline u.nextIp) := by
        unfold place
        rw [hself]
        rfl
      obtain rfl : .inline u.nextIp = a := Option.some.inj (hpl.symm.trans ha)
      exact le_trans h.ext.settled_le (Translator.settled_le _)
    · obtain ⟨hop, -⟩ := hu.unfuse.endPatches f (by
        show f ∈ u.ctrl
        rw [h.ctrl]
        exact List.mem_cons_self) p hp
      exact h.endPatches p hp a ((hux.place_eq hop).symm.trans ha)
  have hpat := patchAll_patched (⟨u.nextIp, .single⟩ :: f.endPatches) x x.nextIp
  refine ⟨⟨hp.settled_le, hp.pool_le, hp.read,
    hp.frames.imp fun _ _ h => ⟨h.same, h.targeted, h.patches⟩, ?_, hp.bigMemargs, hp.error⟩,
    hpat.fusableCmp.trans hxf⟩
  have hh := hp.handlers
  rw [hpat.handlers] at hh
  exact hh.trans (List.prefix_append _ _)

/-- The parts of an `else` in reachable code: the branch over the `else` part, and the target of
the `if`'s own branch. -/
theorem doElse_ok (hc : t.ctrl = f :: d) (h : t.doElse = .ok u) :
    ∃ v g, v.ctrl = g :: d ∧ g.elsePatch = f.elsePatch ∧ v.fusableCmp = none ∧
      v.error = t.error ∧
      (t.reachable = true ∧ g = f.addPatch ⟨t.nextIp, .single⟩ ∧
          Emits { t with fusableCmp := none } v t.nextIp (.br ⟨0, f.resultCount, 0⟩) []
            [(0, .single)] ∨
        t.reachable = false ∧ g = f ∧ v = { t with fusableCmp := none }) ∧
      u = { v.patchElse f.elsePatch v.nextIp with
        ctrl := { g with elsePatch := none } :: d
        reachable := f.reachableOnEntry
        height := f.baseHeight + f.paramCount } := by
  unfold doElse at h
  split at h
  · rename_i hnil
    rw [hnil] at hc
    cases hc
  rename_i g rest hg
  obtain ⟨rfl, rfl⟩ := List.cons.inj (hg.symm.trans hc)
  obtain ⟨v, hv, h⟩ := bind_ok h
  unfold elseBranch at hv
  by_cases hr : t.reachable = true
  · rw [if_pos hr] at hv
    obtain ⟨r, hfix, hv⟩ := bind_ok hv
    obtain rfl := fixup_ok hfix
    have hv := (Except.ok.inj hv).symm
    have hem := SameStreams.emits (t := { t with fusableCmp := none })
      (v := { t with fusableCmp := none }) (o := .br ⟨0, g.resultCount, 0⟩) (r := t.reachable)
      ⟨rfl, rfl, rfl, rfl, rfl, rfl, rfl⟩ (fun _ => rfl) fun h => h
    have hem' := emits_branch (f := funcFrame 0) (l := 0) hem (fun _ => rfl) rfl hv
    have hvc : v.ctrl = g.addPatch ⟨t.nextIp, .single⟩ :: rest := by
      rw [hv]
      show t.ctrl.modify 0 _ = _
      rw [hc]
      rfl
    refine ⟨v, _, hvc, rfl, hem'.fuse, by rw [hv]; rfl, .inl ⟨hr, rfl, hem'⟩,
      (Except.ok.inj h).symm.trans ?_⟩
    have hp := patchElse_patched v g.elsePatch v.nextIp
    rw [hp.ctrl, hvc]
    rfl
  · rw [if_neg hr] at hv
    have hv := (Except.ok.inj hv).symm
    have hvc : v.ctrl = g :: rest := by
      rw [hv]
      exact hc
    refine ⟨v, g, hvc, rfl, by rw [hv], by rw [hv], .inr ⟨Bool.eq_false_iff.mpr hr, rfl, hv⟩,
      (Except.ok.inj h).symm.trans ?_⟩
    have hp := patchElse_patched v g.elsePatch v.nextIp
    rw [hp.ctrl, hvc]
    rfl

/-- The target of the `if`'s own branch is written, and the frame waits for it no longer. -/
theorem Inside.patchElse (h : Inside t u f d) (hu : Tracked u) (hfuse : u.fusableCmp = none)
    (ip height : ℕ) (r : Bool) :
    Inside t { u.patchElse f.elsePatch ip with
        ctrl := { f with elsePatch := none } :: d
        reachable := r
        height } { f with elsePatch := none } d ∧
      Tracked { u.patchElse f.elsePatch ip with
        ctrl := { f with elsePatch := none } :: d
        reachable := r
        height } := by
  have heq : u.patchElse f.elsePatch ip
      = u.patchAll (f.elsePatch.toList.map (⟨·, .single⟩)) ip := by
    cases f.elsePatch <;> rfl
  have hp := patchElse_patched u f.elsePatch ip
  have hpl : ∀ p, place (u.patchElse f.elsePatch ip).ops p = place u.ops p := by
    rw [heq]
    exact place_patchAll _ _ _
  have hset : (u.patchElse f.elsePatch ip).settled = u.settled := by
    unfold settled
    rw [hp.fusableCmp, show (u.patchElse f.elsePatch ip).ops.length = u.ops.length from hp.nextIp]
  have hmem : f ∈ u.ctrl := by
    rw [h.ctrl]
    exact List.mem_cons_self
  refine ⟨⟨rfl, ?_, fun p hpm a ha => h.endPatches p hpm a ((hpl p).symm.trans ha),
    fun i hi => by cases hi⟩, ⟨fun k hk => ?_, fun _ => hp.fusableCmp.trans hfuse, ?_, ?_⟩⟩
  · have hext : Extends t (Translator.patchAll { u with ctrl := d }
        (f.elsePatch.toList.map (⟨·, .single⟩)) ip) := by
      refine h.ext.patchAll ip fun p hpm a ha => ?_
      exact h.framePatches hu p (List.mem_append_left _ hpm) a ha
    have hd : ∀ q : Option ℕ, Translator.patchAll { u with ctrl := d }
        (q.toList.map (⟨·, .single⟩)) ip
          = { u.patchAll (q.toList.map (⟨·, .single⟩)) ip with ctrl := d } := by
      intro q
      rcases q with _ | i
      · rfl
      · show Translator.patchIp { u with ctrl := d } i .single ip
          = { u.patchIp i .single ip with ctrl := d }
        unfold Translator.patchIp
        rcases u.ops[i]? with _ | o
        · rfl
        · simp only
          rcases flatIndex .single o with _ | j <;> rfl
    rw [hd, ← heq] at hext
    exact ⟨hext.settled_le, hext.pool_le, hext.read,
      hext.frames.imp fun _ _ h => ⟨h.same, h.targeted, h.patches⟩, hext.handlers,
      hext.bigMemargs, hext.error⟩
  · rw [show _ = _ from hp.fusableCmp, hfuse] at hk
    cases hk
  · intro g hg p hpm
    have hold : ∃ g' ∈ u.ctrl, p ∈ g'.endPatches := by
      rcases List.mem_cons.mp hg with rfl | hg
      · exact ⟨f, hmem, hpm⟩
      · exact ⟨g, by rw [h.ctrl]; exact List.mem_cons_of_mem _ hg, hpm⟩
    obtain ⟨g', hg', hpm'⟩ := hold
    obtain ⟨hop, a, ha, hnf⟩ := hu.endPatches g' hg' p hpm'
    refine ⟨lt_of_lt_of_eq hop hset.symm, a, (hpl p).trans ha, ?_⟩
    rcases a with i | j
    · show ¬(u.patchElse f.elsePatch ip).settled ≤ i
      rw [hset]
      exact hnf
    · show ¬(u.patchElse f.elsePatch ip).brTables.length ≤ j
      rw [hp.pool]
      exact hnf
  · intro g hg i hi
    rcases List.mem_cons.mp hg with rfl | hg
    · cases hi
    · obtain ⟨hlt, ha⟩ := hu.elsePatch g (by rw [h.ctrl]; exact List.mem_cons_of_mem _ hg) i hi
      exact ⟨lt_of_lt_of_eq hlt hset.symm, (hpl _).trans ha⟩

/-! ## Whole sequences -/

theorem endBlock_fusableCmp (f : CtrlFrame) (t : Translator) :
    (endBlock f t).fusableCmp = t.fusableCmp :=
  ((patchElse_patched t f.elsePatch t.nextIp).trans
    (patchAll_patched f.endPatches _ t.nextIp)).fusableCmp

/-- The end of a construct that was opened behind `t`. -/
theorem Inside.doEnd (h : Inside t u f d) (ht : Tracked t) (hu : Tracked u)
    (hend : u.doEnd ctx = .ok w) : Extends t w ∧ Tracked w ∧ w.fusableCmp = none := by
  have hw : Extends t w ∧ w.fusableCmp = none := by
    unfold Translator.doEnd at hend
    rw [h.ctrl] at hend
    by_cases hk : f.kind = .tryTable ∧ f.reachableOnEntry = true
    · simp only [if_pos hk] at hend
      exact h.endTryTable ht hu hend
    · simp only [if_neg hk] at hend
      obtain rfl := Except.ok.inj hend
      exact ⟨h.endBlock hu, endBlock_fusableCmp f _⟩
  refine ⟨hw.1, hw.1.tracked ht (fun k hk => ?_) fun _ => hw.2, hw.2⟩
  rw [hw.2] at hk
  cases hk

theorem visitJump_emits {j : Jump} (h : t.visitJump ctx j = .ok u) :
    ∃ n op edges regs, Emits t u n op edges regs ∧ u.reachable = false := by
  cases j with
  | br l =>
    obtain ⟨f, -, -, hem, hr⟩ := br_emits h
    exact ⟨_, _, _, _, hem, hr⟩
  | brTable cases default =>
    obtain ⟨fs, g, -, -, -, hem, hr, -⟩ := brTable_emits h
    exact ⟨_, _, _, _, hem, hr⟩
  | ret =>
    obtain ⟨f, -, -, hem, hr⟩ := ret_emits h
    exact ⟨_, _, _, _, hem, hr⟩
  | unreachable =>
    obtain rfl := Except.ok.inj h
    exact ⟨_, _, _, _, terminate_emits t rfl, rfl⟩
  | throw tag =>
    obtain rfl := Except.ok.inj h
    exact ⟨_, _, _, _, terminate_emits t rfl, rfl⟩
  | throwRef =>
    obtain rfl := Except.ok.inj h
    exact ⟨_, _, _, _, terminate_emits t rfl, rfl⟩
  | returnCall c =>
    obtain rfl := Except.ok.inj h
    exact ⟨_, _, _, _, returnCall_emits ctx t c, rfl⟩

theorem visitCond_emits {c : CondBr} (ht : Tracked t) (hr : t.reachable = true)
    (h : t.visitCond c = .ok u) :
    ∃ n op edges regs, Emits t u n op edges regs ∧ u.reachable = true := by
  cases c with
  | brIf l =>
    obtain ⟨f, -, -, hem, hu, -⟩ := brIf_emits ht hr h
    exact ⟨_, _, _, _, hem, hu⟩
  | brOnNull l =>
    obtain ⟨f, -, -, hem, hu, -⟩ := brOnNull_emits hr h
    exact ⟨_, _, _, _, hem, hu⟩
  | brOnNonNull l =>
    obtain ⟨f, -, -, hem, hu, -⟩ := brOnNonNull_emits hr h
    exact ⟨_, _, _, _, hem, hu⟩
  | brOnCast l ty nullable fail =>
    obtain ⟨f, -, -, hem, hu, -⟩ := brOnCast_emits h
    exact ⟨_, _, _, _, hem, hu.trans hr⟩

/-- An `if`, reachable or not, opens a construct. -/
theorem if_inside (ctx : CompileCtx) (ht : Tracked t) (bt : BlockType) :
    ∃ u f d, t.visit ctx (.if_ bt) = .ok u ∧ Inside t u f d ∧ Tracked u := by
  by_cases hr : t.reachable = true
  · obtain ⟨v, u, f, hvisit, hem, ho, -, -, -, -, -, -, helse, -⟩ := if_opens ctx ht hr bt
    have hlt : t.settled < v.ops.length := by
      rw [hem.length_ops]
      exact Nat.lt_succ_self _
    have hpl : place v.ops ⟨t.settled, .single⟩ = some (.inline t.settled) := by
      unfold place
      rw [show v.ops[t.settled]? = _ from hem.ops_self]
      simp only [Option.map_some, flatIndex_condBranch]
    have hidx : ∀ i, f.elsePatch = some i → t.settled = i :=
      fun i hi => Option.some.inj (helse.symm.trans hi)
    refine ⟨u, f, v.ctrl, hvisit, ho.inside hem.ext fun i hi => le_of_eq (hidx i hi), ?_⟩
    refine ho.tracked (hem.tracked ht) fun i hi => ?_
    obtain rfl := hidx i hi
    exact ⟨hlt, hpl⟩
  · have ho := opens_frame t .if_ (blockArity ctx bt).1 (blockArity ctx bt).2 none []
    refine ⟨_, _, _, ?_, ho.inside (Extends.refl t) (fun i hi => nomatch hi),
      ho.tracked ht fun i hi => nomatch hi⟩
    have hb : t.ifBranch = (none, t) := by
      unfold ifBranch
      rw [if_neg hr]
    show Except.ok (t.pushIf ctx bt) = _
    unfold pushIf
    rw [hb]

theorem Inside.unfuse (h : Inside t u f d) : Inside t { u with fusableCmp := none } f d :=
  ⟨h.ctrl, h.ext.unfuse, h.endPatches, h.elsePatch⟩

/-- The `else` of a construct that was opened behind `t`. -/
theorem Inside.doElse (h : Inside t u f d) (hu : Tracked u) (helse : u.doElse = .ok w) :
    ∃ g, Inside t w g d ∧ Tracked w := by
  obtain ⟨v, g, hvc, hge, hvf, -, hcase, rfl⟩ := doElse_ok h.ctrl helse
  have hv : Inside t v g d ∧ Tracked v := by
    rcases hcase with ⟨-, -, hem⟩ | ⟨-, rfl, rfl⟩
    · obtain ⟨f', d', hin, -, hd⟩ := h.unfuse.step hu.unfuse hem.ext
      obtain ⟨rfl, rfl⟩ := List.cons.inj (hin.ctrl.symm.trans hvc)
      exact ⟨hin, hem.tracked hu.unfuse⟩
    · exact ⟨h.unfuse, hu.unfuse⟩
  have hp := hv.1.patchElse hv.2 hvf v.nextIp (f.baseHeight + f.paramCount) f.reachableOnEntry
  rw [hge] at hp
  exact ⟨_, hp⟩

/-- A sequence of operators keeps what was emitted before it. -/
theorem visitAll_extends (b : Body) (ht : Tracked t) (h : visitAll ctx b.flatten t = .ok u) :
    Extends t u ∧ Tracked u := by
  induction b generalizing t u with
  | done =>
    cases h
    exact ⟨Extends.refl _, ht⟩
  | plain p k ih =>
    obtain ⟨v, hv, hk⟩ := bind_ok h
    by_cases hr : t.reachable = true
    · obtain ⟨hem, -⟩ := visitPlain_emits hr ((if_pos hr).symm.trans hv)
      obtain ⟨h1, h2⟩ := ih (hem.tracked ht) hk
      exact ⟨hem.ext.trans h1, h2⟩
    · obtain rfl := Except.ok.inj ((if_neg hr).symm.trans hv)
      exact ih ht hk
  | call c k ih =>
    obtain ⟨v, hv, hk⟩ := bind_ok h
    by_cases hr : t.reachable = true
    · obtain rfl := Except.ok.inj ((if_pos hr).symm.trans hv)
      obtain ⟨hem, -⟩ := call_emits ctx hr c
      obtain ⟨h1, h2⟩ := ih (hem.tracked ht) hk
      exact ⟨hem.ext.trans h1, h2⟩
    · obtain rfl := Except.ok.inj ((if_neg hr).symm.trans hv)
      exact ih ht hk
  | cond c k ih =>
    obtain ⟨v, hv, hk⟩ := bind_ok h
    by_cases hr : t.reachable = true
    · obtain ⟨n, op, edges, regs, hem, -⟩ := visitCond_emits ht hr ((if_pos hr).symm.trans hv)
      obtain ⟨h1, h2⟩ := ih (hem.tracked ht) hk
      exact ⟨hem.ext.trans h1, h2⟩
    · obtain rfl := Except.ok.inj ((if_neg hr).symm.trans hv)
      exact ih ht hk
  | jump j k ih =>
    obtain ⟨v, hv, hk⟩ := bind_ok h
    by_cases hr : t.reachable = true
    · obtain ⟨n, op, edges, regs, hem, -⟩ := visitJump_emits ((if_pos hr).symm.trans hv)
      obtain ⟨h1, h2⟩ := ih (hem.tracked ht) hk
      exact ⟨hem.ext.trans h1, h2⟩
    · obtain rfl := Except.ok.inj ((if_neg hr).symm.trans hv)
      exact ih ht hk
  | region r bt b k ihb ihk =>
    obtain ⟨t1, f, hopen, ho, -, -, -, -, helse, -⟩ := region_opens ctx t r bt
    rw [Body.flatten, visitAll_cons_ok hopen, visitAll_append] at h
    obtain ⟨t2, hb, h⟩ := bind_ok h
    obtain ⟨t3, hend, hk⟩ := bind_ok h
    have hnone : ∀ i, f.elsePatch ≠ some i := fun i hi => by rw [helse] at hi; cases hi
    have hin := ho.inside (Extends.refl t) fun i hi => absurd hi (hnone i)
    have ht1 := ho.tracked ht fun i hi => absurd hi (hnone i)
    obtain ⟨h12, ht2⟩ := ihb ht1 hb
    obtain ⟨f', d', hin2, -, -⟩ := hin.step ht1 h12
    obtain ⟨h13, ht3, -⟩ := hin2.doEnd ht ht2 hend
    obtain ⟨h3u, hu⟩ := ihk ht3 hk
    exact ⟨h13.trans h3u, hu⟩
  | ifThen bt b k ihb ihk =>
    obtain ⟨t1, f, d, hopen, hin, ht1⟩ := if_inside ctx ht bt
    rw [Body.flatten, visitAll_cons_ok hopen, visitAll_append] at h
    obtain ⟨t2, hb, h⟩ := bind_ok h
    obtain ⟨t3, hend, hk⟩ := bind_ok h
    obtain ⟨h12, ht2⟩ := ihb ht1 hb
    obtain ⟨f', d', hin2, -, -⟩ := hin.step ht1 h12
    obtain ⟨h13, ht3, -⟩ := hin2.doEnd ht ht2 hend
    obtain ⟨h3u, hu⟩ := ihk ht3 hk
    exact ⟨h13.trans h3u, hu⟩
  | ifElse bt b e k ihb ihe ihk =>
    obtain ⟨t1, f, d, hopen, hin, ht1⟩ := if_inside ctx ht bt
    rw [Body.flatten, visitAll_cons_ok hopen, visitAll_append] at h
    obtain ⟨t2, hb, h⟩ := bind_ok h
    obtain ⟨t3, helse, h⟩ := bind_ok h
    rw [visitAll_append] at h
    obtain ⟨t4, he, h⟩ := bind_ok h
    obtain ⟨t5, hend, hk⟩ := bind_ok h
    obtain ⟨h12, ht2⟩ := ihb ht1 hb
    obtain ⟨f', d', hin2, -, -⟩ := hin.step ht1 h12
    obtain ⟨g, hin3, ht3⟩ := hin2.doElse ht2 helse
    obtain ⟨h34, ht4⟩ := ihe ht3 he
    obtain ⟨g', d'', hin4, -, -⟩ := hin3.step ht3 h34
    obtain ⟨h15, ht5, -⟩ := hin4.doEnd ht ht4 hend
    obtain ⟨h5u, hu⟩ := ihk ht5 hk
    exact ⟨h15.trans h5u, hu⟩

end Translator

end SubmilliWasm
