/-
# Edges and the ledger

An edge of a compiled function stands in its op or in the pool.  A forward edge is emitted with
target `0`, listed in the frame it leaves, and written when the frame ends.  The ledger compares
what is listed with what has been written: an edge is in one of the two lists if it goes forward
and in neither if it goes back, and in neither twice.  An emitted op adds its forward edges to the
first list, and a patch moves one to the second.
-/
import SubmilliWasm.Compile.Fusion

namespace SubmilliWasm

open Fallible

/-- The pooled edges an op uses. -/
def Op.Pools : Op → ℕ → Prop
  | .brTable base len, j => base ≤ j ∧ j ≤ base + len
  | .brOnCast _ pool _ _, j => j = pool
  | _, _ => False

/-- The place a patch of an op at `n` writes. -/
def Op.edgeAt (n : ℕ) (slot : PatchSlot) (o : Op) : Option Translator.Place :=
  match Translator.flatIndex slot o with
  | some j => some (.pool j)
  | none => o.edge.map fun _ => .inline n

namespace Translator

/-! ## Targets and owners -/

/-- The target at a place. -/
def targetAt (ops : List Op) (pool : List BranchTarget) : Place → Option ℕ
  | .inline i => ops[i]?.bind fun o => o.edge.map (·.ip)
  | .pool j => pool[j]?.map (·.ip)

/-- The op at `i` owns the edge at a place. -/
def Owns (ops : List Op) (i : ℕ) : Place → Prop
  | .inline k => k = i
  | .pool j => ∃ o, ops[i]? = some o ∧ o.Pools j

/-- The place a patch writes in a stream, if its op has the edge. -/
def written (ops : List Op) (p : Patch) : Option Place :=
  ops[p.op]?.bind fun o => o.edgeAt p.op p.slot

theorem written_congr {ops ops' : List Op} {p : Patch} (h : ops'[p.op]? = ops[p.op]?) :
    written ops' p = written ops p := by
  unfold written
  rw [h]

theorem edge_setIp (ip : ℕ) (o : Op) :
    (setIp ip o).edge = o.edge.map fun e => { e with ip } := by
  cases o <;> rfl

theorem pools_setIp (ip : ℕ) (o : Op) (j : ℕ) : (setIp ip o).Pools j ↔ o.Pools j := by
  cases o <;> exact Iff.rfl

theorem edgeAt_setIp (n ip : ℕ) (slot : PatchSlot) (o : Op) :
    (setIp ip o).edgeAt n slot = o.edgeAt n slot := by
  unfold Op.edgeAt
  rw [flatIndex_setIp, edge_setIp, Option.map_map]
  rfl

/-- An op's stream after a patch: the op as it was, or with another target. -/
theorem ops_patchIp (t : Translator) (op : ℕ) (slot : PatchSlot) (ip i : ℕ) :
    (t.patchIp op slot ip).ops[i]? = t.ops[i]? ∨
      (t.patchIp op slot ip).ops[i]? = t.ops[i]?.map (setIp ip) := by
  unfold patchIp
  split
  · exact .inl rfl
  · split
    · exact .inl rfl
    · by_cases hi : op = i
      · subst hi
        right
        rw [List.getElem?_modify_eq]
        rfl
      · left
        exact List.getElem?_modify_ne _ _ hi

/-- What an op's patches may write does not depend on its target. -/
theorem written_patchIp (t : Translator) (op : ℕ) (slot : PatchSlot) (ip : ℕ) :
    written (t.patchIp op slot ip).ops = written t.ops := by
  funext p
  unfold written
  rcases ops_patchIp t op slot ip p.op with h | h
  · rw [h]
  · rw [h]
    rcases t.ops[p.op]? with _ | o
    · rfl
    · exact edgeAt_setIp p.op ip p.slot o

theorem owns_patchIp (t : Translator) (op : ℕ) (slot : PatchSlot) (ip i : ℕ) (a : Place) :
    Owns (t.patchIp op slot ip).ops i a ↔ Owns t.ops i a := by
  rcases a with k | j
  · exact Iff.rfl
  · show (∃ o, _ ∧ _) ↔ ∃ o, _ ∧ _
    rcases ops_patchIp t op slot ip i with h | h
    · rw [h]
    · rw [h]
      rcases t.ops[i]? with _ | o
      · constructor <;> rintro ⟨_, ⟨⟩, -⟩
      · constructor
        · rintro ⟨o', ho', hj⟩
          obtain rfl := Option.some.inj ho'
          exact ⟨o, rfl, (pools_setIp ip o j).mp hj⟩
        · rintro ⟨o', ho', hj⟩
          obtain rfl := Option.some.inj ho'
          exact ⟨setIp ip o, rfl, (pools_setIp ip o j).mpr hj⟩

/-- A patch writes the place it names, and no other. -/
theorem targetAt_patchIp (t : Translator) (op : ℕ) (slot : PatchSlot) (ip : ℕ) (a : Place) :
    targetAt (t.patchIp op slot ip).ops (t.patchIp op slot ip).brTables a
      = if written t.ops ⟨op, slot⟩ = some a then (targetAt t.ops t.brTables a).map fun _ => ip
        else targetAt t.ops t.brTables a := by
  unfold written patchIp
  rcases ho : t.ops[op]? with _ | o
  · rw [if_neg nofun]
  · show targetAt _ _ a = if o.edgeAt op slot = some a then _ else _
    unfold Op.edgeAt
    dsimp only
    rcases hflat : flatIndex slot o with _ | flat
    · -- an inline edge, or an op without one
      dsimp only
      rcases a with i | j
      · by_cases hi : op = i
        · subst hi
          show ((t.ops.modify op (setIp ip))[op]?).bind _ = _
          rw [List.getElem?_modify_eq, ho]
          show (setIp ip o).edge.map _ = _
          have hold : targetAt t.ops t.brTables (.inline op) = o.edge.map (·.ip) := by
            show t.ops[op]?.bind _ = _
            rw [ho]
            rfl
          rw [hold, edge_setIp]
          rcases o.edge with _ | e
          · rw [if_neg nofun]
            rfl
          · exact (if_pos rfl).symm
        · have hne : (o.edge.map fun _ => Place.inline op) ≠ some (.inline i) := by
            rcases o.edge with _ | e
            · rintro ⟨⟩
            · intro h
              exact hi (Place.inline.inj (Option.some.inj h))
          rw [if_neg hne]
          show ((t.ops.modify op (setIp ip))[i]?).bind _ = _
          rw [List.getElem?_modify_ne _ _ hi]
          rfl
      · have hne : (o.edge.map fun _ => Place.inline op) ≠ some (.pool j) := by
          rcases o.edge with _ | e <;> rintro ⟨⟩
        rw [if_neg hne]
        rfl
    · -- a pooled edge
      dsimp only
      rcases a with i | j
      · rw [if_neg nofun]
        rfl
      · show Option.map _ ((t.brTables.modify flat _)[j]?) = _
        by_cases hj : flat = j
        · subst hj
          rw [if_pos rfl, List.getElem?_modify_eq]
          show Option.map _ (Option.map _ _) = Option.map _ (Option.map _ _)
          rw [Option.map_map, Option.map_map]
          rfl
        · rw [if_neg fun h => hj (Place.pool.inj (Option.some.inj h)),
            List.getElem?_modify_ne _ _ hj]
          rfl

theorem length_patchIp (t : Translator) (op : ℕ) (slot : PatchSlot) (ip : ℕ) :
    (t.patchIp op slot ip).brTables.length = t.brTables.length := by
  unfold patchIp
  split
  · rfl
  · split
    · exact List.length_modify ..
    · rfl

/-! ## The ledger -/

/-- The edges of a stream, with those still listed (`pend`) and those written (`past`).  An edge in
one of the two goes forward, an edge in neither goes back. -/
structure Ledger (t : Translator) (pend past : List Place) : Prop where
  pools : ∀ (i : ℕ) (o : Op) (j : ℕ), t.ops[i]? = some o → o.Pools j → j < t.brTables.length
  owned : ∀ j < t.brTables.length, ∃ i, Owns t.ops i (.pool j)
  once : ∀ a, pend.count a + past.count a ≤ 1
  edges : ∀ a, 0 < pend.count a + past.count a → (targetAt t.ops t.brTables a).isSome
  back : ∀ a i e, targetAt t.ops t.brTables a = some e → Owns t.ops i a →
    pend.count a + past.count a = 0 → e ≤ i
  forward : ∀ a i e, targetAt t.ops t.brTables a = some e → Owns t.ops i a →
    0 < past.count a → i < e

variable {past pend : List Place} {t : Translator} {n base : ℕ}

theorem Ledger.perm {pend' : List Place} (h : Ledger t pend past) (hp : pend'.Perm pend) :
    Ledger t pend' past := by
  have hcount : ∀ a, pend'.count a = pend.count a := fun a => hp.count_eq a
  refine ⟨h.pools, h.owned, fun a => ?_, fun a => ?_, fun a => ?_, h.forward⟩
  · rw [hcount]
    exact h.once a
  · rw [hcount]
    exact h.edges a
  · rw [hcount]
    exact h.back a

/-- The ledger is about the two streams only. -/
theorem Ledger.of_streams {u : Translator} (h : Ledger t pend past) (hops : u.ops = t.ops)
    (hpool : u.brTables = t.brTables) : Ledger u pend past := by
  refine ⟨?_, ?_, h.once, ?_, ?_, ?_⟩
  · rw [hops, hpool]
    exact h.pools
  · rw [hops, hpool]
    exact h.owned
  · rw [hops, hpool]
    exact h.edges
  · rw [hops, hpool]
    exact h.back
  · rw [hops, hpool]
    exact h.forward

/-- The op of an edge is in the stream. -/
theorem owns_lt {a : Place} {i e : ℕ} (he : targetAt t.ops t.brTables a = some e)
    (ho : Owns t.ops i a) : i < t.ops.length := by
  rcases a with k | j
  · obtain rfl : k = i := ho
    obtain ⟨o, hk, -⟩ := Option.bind_eq_some_iff.mp he
    exact (List.getElem?_eq_some_iff.mp hk).1
  · obtain ⟨o, hi, -⟩ := ho
    exact (List.getElem?_eq_some_iff.mp hi).1

/-- A listed edge is written: it moves to the other list, and its target is behind its op. -/
theorem Ledger.patchIp {p : Patch} {ip : ℕ} (h : Ledger t ((written t.ops p).toList ++ pend) past)
    (hip : t.ops.length ≤ ip) :
    Ledger (t.patchIp p.op p.slot ip) pend (past ++ (written t.ops p).toList) := by
  have hsum : ∀ a, pend.count a + (past ++ (written t.ops p).toList).count a
      = ((written t.ops p).toList ++ pend).count a + past.count a := by
    intro a
    rw [List.count_append, List.count_append]
    omega
  have htarget := targetAt_patchIp t p.op p.slot ip
  refine ⟨?_, ?_, fun a => ?_, fun a ha => ?_, fun a i e he ho hn => ?_, fun a i e he ho hd => ?_⟩
  · intro i o j hi hj
    rw [length_patchIp]
    have hown : Owns (t.patchIp p.op p.slot ip).ops i (.pool j) := ⟨o, hi, hj⟩
    obtain ⟨o', hi', hj'⟩ := (owns_patchIp t p.op p.slot ip i (.pool j)).mp hown
    exact h.pools i o' j hi' hj'
  · rw [length_patchIp]
    intro j hj
    obtain ⟨i, hi⟩ := h.owned j hj
    exact ⟨i, (owns_patchIp t p.op p.slot ip i (.pool j)).mpr hi⟩
  · rw [hsum]
    exact h.once a
  · rw [hsum] at ha
    have hsome := h.edges a ha
    rw [htarget]
    split
    · rw [Option.isSome_map]
      exact hsome
    · exact hsome
  · -- an edge in neither list is not the one written
    rw [hsum] at hn
    rw [owns_patchIp] at ho
    have hne : written t.ops p ≠ some a := by
      intro hw
      rw [hw, List.count_append] at hn
      have : 0 < (Option.toList (some a)).count a :=
        List.count_pos_iff.mpr (List.mem_singleton_self a)
      omega
    rw [htarget, if_neg hne] at he
    exact h.back a i e he ho hn
  · rw [owns_patchIp] at ho
    by_cases hw : written t.ops p = some a
    · rw [htarget, if_pos hw] at he
      rcases hold : targetAt t.ops t.brTables a with _ | e'
      · rw [hold] at he
        cases he
      · rw [hold] at he
        obtain rfl : ip = e := Option.some.inj he
        exact (owns_lt hold ho).trans_le hip
    · rw [htarget, if_neg hw] at he
      have hd' : 0 < past.count a := by
        rw [List.count_append] at hd
        have : (written t.ops p).toList.count a = 0 := by
          refine List.count_eq_zero.mpr fun hm => hw ?_
          exact Option.mem_toList.mp hm
        omega
      exact h.forward a i e he ho hd'

theorem Ledger.patchAll {ps : List Patch} {ip : ℕ}
    (h : Ledger t (ps.filterMap (written t.ops) ++ pend) past) (hip : t.ops.length ≤ ip) :
    Ledger (t.patchAll ps ip) pend (past ++ ps.filterMap (written t.ops)) := by
  induction ps generalizing t past with
  | nil =>
    rw [List.filterMap_nil, List.append_nil]
    exact h
  | cons p ps ih =>
    have hcons : (p :: ps).filterMap (written t.ops)
        = (written t.ops p).toList ++ ps.filterMap (written t.ops) := by
      rw [List.filterMap_cons]
      cases written t.ops p <;> rfl
    have hrest : ps.filterMap (written (t.patchIp p.op p.slot ip).ops)
        = ps.filterMap (written t.ops) := by
      rw [written_patchIp]
    rw [hcons, List.append_assoc] at h
    have hstep := h.patchIp hip
    rw [← hrest] at hstep
    have hlen : (t.patchIp p.op p.slot ip).ops.length ≤ ip :=
      (nextIp_patchIp t p.op p.slot ip).trans_le hip
    have hall := ih hstep hlen
    rw [hrest, List.append_assoc, ← hcons] at hall
    exact hall

/-! ## One emitted op -/

/-- The places of the branches an op lists. -/
def listedBy (n : ℕ) (op : Op) (regs : List (ℕ × PatchSlot)) : List Place :=
  regs.filterMap fun r => op.edgeAt n r.2

/-- The target of an edge of an op emitted at `n`, with its pooled edges behind `base` others. -/
def ownTarget (base n : ℕ) (op : Op) (edges : List BranchTarget) : Place → Option ℕ
  | .inline i => if i = n then op.edge.map (·.ip) else none
  | .pool j => if base ≤ j then edges[j - base]?.map (·.ip) else none

theorem ownTarget_inline (base n : ℕ) (op : Op) (edges : List BranchTarget) (i : ℕ) :
    ownTarget base n op edges (.inline i) = if i = n then op.edge.map (·.ip) else none := rfl

theorem ownTarget_pool (base n : ℕ) (op : Op) (edges : List BranchTarget) (j : ℕ) :
    ownTarget base n op edges (.pool j)
      = if base ≤ j then edges[j - base]?.map (·.ip) else none := rfl

/-- Each edge of an emitted op is listed once in `ls`, or goes back. -/
structure Listed (base n : ℕ) (op : Op) (edges : List BranchTarget) (ls : List Place) : Prop where
  pools : ∀ j, op.Pools j ↔ base ≤ j ∧ j < base + edges.length
  nodup : ls.Nodup
  own : ∀ a ∈ ls, (ownTarget base n op edges a).isSome
  back : ∀ a e, ownTarget base n op edges a = some e → a ∉ ls → e ≤ n

/-- An op that may still be replaced is a comparison. -/
theorem Tracked.unsettled (ht : Tracked t) {i : ℕ} (hi : t.settled ≤ i) {o : Op}
    (ho : t.ops[i]? = some o) : o.edge = none ∧ ∀ j, ¬o.Pools j := by
  obtain ⟨hlt, -⟩ := List.getElem?_eq_some_iff.mp ho
  rcases hk : t.fusableCmp with _ | k
  · rw [settled_of_none hk] at hi
    omega
  · obtain ⟨hset, -, hlast⟩ := ht.settled_fuse hk
    have hlen : t.nextIp = t.ops.length := rfl
    obtain rfl : i = t.nextIp - 1 := by omega
    obtain rfl := Option.some.inj (ho.symm.trans hlast)
    exact ⟨rfl, fun _ hj => hj⟩

section Emitted

variable {t u : Translator} {n : ℕ} {op : Op} {edges : List BranchTarget}
  {regs : List (ℕ × PatchSlot)} {ls : List Place}

/-- The edges of an emitted op are new. -/
theorem Emits.own_new (hem : Emits t u n op edges regs) (ht : Tracked t) {a : Place}
    (ha : (ownTarget t.brTables.length n op edges a).isSome) :
    targetAt t.ops t.brTables a = none := by
  rcases a with i | j
  · unfold ownTarget at ha
    by_cases hi : i = n
    · subst hi
      show t.ops[i]?.bind _ = none
      rcases ho : t.ops[i]? with _ | o
      · rfl
      · show o.edge.map _ = none
        rw [(ht.unsettled hem.settled_le ho).1]
        rfl
    · simp only [if_neg hi] at ha
      cases ha
  · unfold ownTarget at ha
    by_cases hj : t.brTables.length ≤ j
    · show Option.map _ t.brTables[j]? = none
      rw [List.getElem?_eq_none hj]
      rfl
    · simp only [if_neg hj] at ha
      cases ha

/-- The edges behind an emitted op: its own and those of before. -/
theorem Emits.targetAt (hem : Emits t u n op edges regs) (ht : Tracked t) (a : Place) :
    targetAt u.ops u.brTables a
      = (ownTarget t.brTables.length n op edges a).or (targetAt t.ops t.brTables a) := by
  rcases a with i | j
  · show u.ops[i]?.bind _ = Option.or (if i = n then _ else none) (t.ops[i]?.bind _)
    rcases Nat.lt_trichotomy i n with hi | rfl | hi
    · rw [hem.ops_lt hi, if_neg hi.ne]
      rfl
    · have hold : Translator.targetAt t.ops t.brTables (.inline i) = none ∨ op.edge.isSome := by
        rcases hop : op.edge with _ | e
        · left
          show t.ops[i]?.bind _ = none
          rcases ho : t.ops[i]? with _ | o
          · rfl
          · show o.edge.map _ = none
            rw [(ht.unsettled hem.settled_le ho).1]
            rfl
        · exact .inr rfl
      rw [hem.ops_self, if_pos rfl]
      show op.edge.map _ = _
      rcases hop : op.edge with _ | e
      · rw [hop] at hold
        rcases hold with hold | hold
        · exact hold.symm
        · cases hold
      · rfl
    · have hnone : u.ops[i]? = none := by
        refine List.getElem?_eq_none ?_
        rw [hem.length_ops]
        exact hi
      rw [hnone, if_neg hi.ne']
      rcases ho : t.ops[i]? with _ | o
      · rfl
      · have hset := hem.settled_le
        show none = Option.map _ o.edge
        rw [(ht.unsettled (by omega) ho).1]
        rfl
  · show Option.map _ u.brTables[j]?
      = Option.or (if _ then _ else none) (Option.map _ t.brTables[j]?)
    rw [hem.brTables]
    by_cases hj : t.brTables.length ≤ j
    · rw [if_pos hj, List.getElem?_append_right hj, List.getElem?_eq_none hj]
      exact (Option.or_none).symm
    · rw [if_neg hj, List.getElem?_append_left (Nat.not_le.mp hj)]
      rfl

/-- An emitted op owns its edges alone. -/
theorem Emits.owner (hem : Emits t u n op edges regs) {pend past : List Place}
    (h : Ledger t pend past) {i : ℕ} {a : Place} (ho : Owns u.ops i a)
    (ha : (ownTarget t.brTables.length n op edges a).isSome) : i = n := by
  rcases a with k | j
  · unfold ownTarget at ha
    by_cases hk : k = n
    · exact (show k = i from ho).symm.trans hk
    · simp only [if_neg hk] at ha
      cases ha
  · unfold ownTarget at ha
    by_cases hj : t.brTables.length ≤ j
    · obtain ⟨o, hi, hpool⟩ := ho
      obtain ⟨hlt, -⟩ := List.getElem?_eq_some_iff.mp hi
      rw [hem.length_ops] at hlt
      by_contra hne
      rw [hem.ops_lt (by omega)] at hi
      have := h.pools i o j hi hpool
      omega
    · simp only [if_neg hj] at ha
      cases ha

/-- The other edges keep their owners. -/
theorem Emits.owner_old (hem : Emits t u n op edges regs)
    (hl : Listed t.brTables.length n op edges ls) {i e : ℕ} {a : Place} (ho : Owns u.ops i a)
    (ha : Translator.targetAt t.ops t.brTables a = some e) : Owns t.ops i a := by
  rcases a with k | j
  · exact ho
  · obtain ⟨o, hi, hpool⟩ := ho
    obtain ⟨x, hx, -⟩ := Option.map_eq_some_iff.mp ha
    obtain ⟨hj, -⟩ := List.getElem?_eq_some_iff.mp hx
    obtain ⟨hlt, -⟩ := List.getElem?_eq_some_iff.mp hi
    rw [hem.length_ops] at hlt
    rcases Nat.lt_or_ge i n with hin | hin
    · rw [hem.ops_lt hin] at hi
      exact ⟨o, hi, hpool⟩
    · obtain rfl : i = n := by omega
      obtain rfl := Option.some.inj (hi.symm.trans hem.ops_self)
      have := ((hl.pools j).mp hpool).1
      omega

/-- An emitted op adds its forward edges to those listed. -/
theorem Ledger.emit {pend past : List Place} (h : Ledger t pend past)
    (hem : Emits t u n op edges regs) (hl : Listed t.brTables.length n op edges ls)
    (ht : Tracked t) : Ledger u (ls ++ pend) past := by
  have htarget := hem.targetAt ht
  -- no list has had a new edge, and the new list has no old one
  have hnew : ∀ a, (ownTarget t.brTables.length n op edges a).isSome →
      pend.count a + past.count a = 0 := by
    intro a ha
    by_contra hne
    have hsome := h.edges a (Nat.pos_of_ne_zero hne)
    rw [hem.own_new ht ha] at hsome
    cases hsome
  have hold : ∀ a, ownTarget t.brTables.length n op edges a = none →
      ls.count a = 0 := by
    intro a ha
    refine List.count_eq_zero.mpr fun hm => ?_
    have hsome := hl.own a hm
    rw [ha] at hsome
    cases hsome
  have honce : ∀ a, ls.count a ≤ 1 := fun a =>
    List.nodup_iff_count_le_one.mp hl.nodup a
  refine ⟨?_, ?_, fun a => ?_, fun a ha => ?_, fun a i e he ho hn => ?_, fun a i e he ho hd => ?_⟩
  · intro i o j hi hj
    rw [hem.brTables, List.length_append]
    obtain ⟨hlt, -⟩ := List.getElem?_eq_some_iff.mp hi
    rw [hem.length_ops] at hlt
    rcases Nat.lt_or_ge i n with hin | hin
    · rw [hem.ops_lt hin] at hi
      have := h.pools i o j hi hj
      omega
    · obtain rfl : i = n := by omega
      obtain rfl := Option.some.inj (hi.symm.trans hem.ops_self)
      exact ((hl.pools j).mp hj).2
  · intro j hj
    rw [hem.brTables, List.length_append] at hj
    rcases Nat.lt_or_ge j t.brTables.length with hlt | hge
    · obtain ⟨i, o, hi, hpool⟩ := h.owned j hlt
      have hin : i < n := by
        by_contra hge
        have hset := hem.settled_le
        exact (ht.unsettled (by omega) hi).2 j hpool
      exact ⟨i, o, (hem.ops_lt hin).trans hi, hpool⟩
    · exact ⟨n, op, hem.ops_self, (hl.pools j).mpr ⟨hge, hj⟩⟩
  · rw [List.count_append]
    rcases ha : ownTarget t.brTables.length n op edges a with _ | e
    · have := hold a ha
      have := h.once a
      omega
    · have := hnew a (by rw [ha]; rfl)
      have := honce a
      omega
  · rw [htarget]
    rcases hown : ownTarget t.brTables.length n op edges a with _ | e
    · have hzero := hold a hown
      rw [List.count_append] at ha
      rw [Option.none_or]
      exact h.edges a (by omega)
    · rfl
  · rw [List.count_append] at hn
    rw [htarget] at he
    rcases hown : ownTarget t.brTables.length n op edges a with _ | e'
    · rw [hown, Option.none_or] at he
      exact h.back a i e he (hem.owner_old hl ho he) (by omega)
    · obtain rfl := hem.owner h ho (by rw [hown]; rfl)
      rw [hown] at he
      obtain rfl : e' = e := Option.some.inj he
      refine hl.back a e' hown fun hm => ?_
      have := List.count_pos_iff.mpr hm
      omega
  · rw [htarget] at he
    rcases hown : ownTarget t.brTables.length n op edges a with _ | e'
    · rw [hown, Option.none_or] at he
      exact h.forward a i e he (hem.owner_old hl ho he) hd
    · have := hnew a (by rw [hown]; rfl)
      omega

end Emitted

/-! ## The branches of the operators -/

theorem listed_none {op : Op} (hedge : op.edge = none) (hpools : ∀ j, ¬op.Pools j) :
    Listed base n op [] [] := by
  refine ⟨fun j => ⟨fun h => absurd h (hpools j), fun ⟨h, h'⟩ => ?_⟩, List.nodup_nil,
    fun a ha => absurd ha List.not_mem_nil, fun a e ha _ => ?_⟩
  · rw [List.length_nil] at h'
    omega
  · rcases a with i | j
    · rw [ownTarget_inline, hedge] at ha
      split at ha <;> cases ha
    · rw [ownTarget_pool] at ha
      split at ha <;> cases ha

/-- An inline edge is listed, or known. -/
theorem listed_inline {op : Op} {e : BranchTarget} {ls : List Place} (hedge : op.edge = some e)
    (hpools : ∀ j, ¬op.Pools j) (hls : ls = [.inline n] ∨ ls = [] ∧ e.ip ≤ n) :
    Listed base n op [] ls := by
  have hnone : ∀ j, ownTarget base n op [] (.pool j) = none := by
    intro j
    rw [ownTarget_pool]
    split <;> rfl
  refine ⟨fun j => ⟨fun h => absurd h (hpools j), fun ⟨h, h'⟩ => ?_⟩, ?_, fun a ha => ?_,
    fun a e' ha hm => ?_⟩
  · rw [List.length_nil] at h'
    omega
  · rcases hls with rfl | ⟨rfl, -⟩
    · exact List.nodup_singleton _
    · exact List.nodup_nil
  · rcases hls with rfl | ⟨rfl, -⟩
    · obtain rfl := List.mem_singleton.mp ha
      rw [ownTarget_inline, if_pos rfl, hedge]
      rfl
    · exact absurd ha List.not_mem_nil
  · rcases a with i | j
    · rw [ownTarget_inline, hedge] at ha
      split at ha
      · rename_i hi
        obtain rfl : e.ip = e' := Option.some.inj ha
        rcases hls with rfl | ⟨-, hip⟩
        · exact absurd (List.mem_singleton.mpr (congrArg Place.inline hi)) hm
        · exact hip
      · cases ha
    · rw [hnone] at ha
      cases ha

/-- Pooled edges, each listed or known. -/
theorem listed_pooled {op : Op} {edges : List BranchTarget} {ls : List Place}
    (hedge : op.edge = none) (hpools : ∀ j, op.Pools j ↔ base ≤ j ∧ j < base + edges.length)
    (hnodup : ls.Nodup) (hown : ∀ a ∈ ls, ∃ k < edges.length, a = .pool (base + k))
    (hback : ∀ k e, edges[k]? = some e → .pool (base + k) ∉ ls → e.ip ≤ n) :
    Listed base n op edges ls := by
  refine ⟨hpools, hnodup, fun a ha => ?_, fun a e ha hm => ?_⟩
  · obtain ⟨k, hk, rfl⟩ := hown a ha
    rw [ownTarget_pool, if_pos (Nat.le_add_right base k), Nat.add_sub_cancel_left,
      List.getElem?_eq_getElem hk]
    rfl
  · rcases a with i | j
    · rw [ownTarget_inline, hedge] at ha
      split at ha <;> cases ha
    · rw [ownTarget_pool] at ha
      split at ha
      · rename_i hj
        obtain ⟨x, hx, rfl⟩ := Option.map_eq_some_iff.mp ha
        refine hback (j - base) x hx ?_
        rw [Nat.add_sub_cancel' hj]
        exact hm
      · cases ha

/-- A branch to a frame is listed there, or its target is the start of a loop. -/
theorem listedBy_branch (f : CtrlFrame) (l height : ℕ) {op : Op} {slot : PatchSlot} {a : Place}
    (hat : op.edgeAt n slot = some a) (hstart : f.startIp ≤ n) :
    listedBy n op (branchRegs f l slot) = [a] ∨
      listedBy n op (branchRegs f l slot) = [] ∧ (edgeTo f height).ip ≤ n := by
  unfold listedBy branchRegs edgeTo
  by_cases hk : f.kind = .loop
  · rw [if_pos hk, if_pos hk]
    exact .inr ⟨rfl, hstart⟩
  · rw [if_neg hk]
    refine .inl ?_
    rw [List.filterMap_cons, hat]
    rfl

theorem mem_branchRegs {f : CtrlFrame} {l : ℕ} {slot : PatchSlot} {r : ℕ × PatchSlot}
    (h : r ∈ branchRegs f l slot) : r = (l, slot) := by
  unfold branchRegs at h
  split at h
  · exact absurd h List.not_mem_nil
  · exact List.mem_singleton.mp h

/-- One operator of reachable code: it adds `k` ops and at most `m` pooled edges, and lists its
forward edges. -/
structure Adds (t u : Translator) (k m : ℕ) : Prop where
  emits : ∃ n op edges regs, Emits t u n op edges regs ∧
    Listed t.brTables.length n op edges (listedBy n op regs) ∧
    (∀ r ∈ regs, r.1 < t.ctrl.length) ∧ n + 1 = t.ops.length + k ∧ edges.length ≤ m

section Operators

variable {ctx : CompileCtx} {t u : Translator}

variable {l n : ℕ}

theorem Emits.adds_plain {op : Op} (hem : Emits t u n op [] []) (hn : n = t.nextIp)
    (hedge : op.edge = none) (hpools : ∀ j, ¬op.Pools j) : Adds t u 1 0 :=
  ⟨n, op, [], [], hem, listed_none hedge hpools, fun _ hr => absurd hr List.not_mem_nil,
    by rw [hn]; rfl, le_refl _⟩

/-- An op with an inline edge to the frame of label `l`. -/
theorem Emits.adds_branch {f : CtrlFrame} (height : ℕ) {k : ℕ} {op : Op}
    (hem : Emits t u n op [] (branchRegs f l .single)) (hk : n + 1 = t.ops.length + k)
    (hedge : op.edge = some (edgeTo f height)) (hflat : flatIndex .single op = none)
    (hpools : ∀ j, ¬op.Pools j) (hf : t.ctrl[l]? = some f) (hstart : f.startIp ≤ n) :
    Adds t u k 0 := by
  have hat : op.edgeAt n .single = some (.inline n) := by
    unfold Op.edgeAt
    rw [hflat, hedge]
    rfl
  refine ⟨n, op, [], _, hem, listed_inline hedge hpools (listedBy_branch f l height hat hstart),
    fun r hr => ?_, hk, le_refl _⟩
  rw [mem_branchRegs hr]
  exact (List.getElem?_eq_some_iff.mp hf).1

theorem visitPlain_adds {p : PlainOp BigMemArg} (hr : t.reachable = true)
    (h : visitPlain ctx p t = .ok u) : Adds t u 1 0 :=
  (visitPlain_emits hr h).1.adds_plain rfl rfl fun _ hj => hj

theorem call_adds (c : CallTarget) (hr : t.reachable = true) : Adds t (t.call ctx c) 1 0 :=
  (call_emits ctx hr c).1.adds_plain rfl rfl fun _ hj => hj

/-- The start of an open frame is settled. -/
theorem Noted.start_le (hn : Noted t) {f : CtrlFrame} (hf : t.ctrl[l]? = some f) :
    f.startIp ≤ t.settled :=
  (hn.below.frames f (List.mem_of_getElem? hf)).1

theorem br_adds (hn : Noted t) (h : t.br l = .ok u) : Adds t u 1 0 := by
  obtain ⟨f, hf, -, hem, -⟩ := br_emits h
  exact hem.adds_branch _ rfl rfl rfl (fun _ hj => hj) hf ((hn.start_le hf).trans t.settled_le)

/-- The ops a `br_if` adds: none where it takes the place of a comparison. -/
theorem brIf_adds (hn : Noted t) (ht : Tracked t) (hr : t.reachable = true) (h : t.brIf l = .ok u) :
    Adds t u (if t.fusableCmp.isNone then 1 else 0) 0 := by
  obtain ⟨f, hf, -, hem, -⟩ := brIf_emits ht hr h
  refine hem.adds_branch (t.pop 1).height ?_ ?_ (flatIndex_condBranch ..) ?_ hf (hn.start_le hf)
  · rcases hk : t.fusableCmp with _ | kind
    · rw [settled_of_none hk]
      rfl
    · obtain ⟨hset, hpos, -⟩ := ht.settled_fuse hk
      have hip : t.nextIp = t.ops.length := rfl
      show t.settled + 1 = t.ops.length + 0
      omega
  · rcases t.fusableCmp with _ | kind <;> rfl
  · rcases t.fusableCmp with _ | kind <;> exact fun _ hj => hj

theorem brOnNull_adds (hn : Noted t) (hr : t.reachable = true) (h : t.brOnNull l = .ok u) :
    Adds t u 1 0 := by
  obtain ⟨f, hf, -, hem, -⟩ := brOnNull_emits hr h
  exact hem.adds_branch _ rfl rfl rfl (fun _ hj => hj) hf ((hn.start_le hf).trans t.settled_le)

theorem brOnNonNull_adds (hn : Noted t) (hr : t.reachable = true) (h : t.brOnNonNull l = .ok u) :
    Adds t u 1 0 := by
  obtain ⟨f, hf, -, hem, -⟩ := brOnNonNull_emits hr h
  exact hem.adds_branch _ rfl rfl rfl (fun _ hj => hj) hf ((hn.start_le hf).trans t.settled_le)

theorem brOnCast_adds {ty : IrHeap} {nullable fail : Bool} (hn : Noted t)
    (h : t.brOnCast l ty nullable fail = .ok u) : Adds t u 1 1 := by
  obtain ⟨f, hf, -, hem, -⟩ := brOnCast_emits h
  have hstart := (hn.start_le hf).trans t.settled_le
  have hat : (Op.brOnCast ty t.brTables.length nullable fail).edgeAt t.nextIp .single
      = some (.pool t.brTables.length) := rfl
  have hls := listedBy_branch f l t.height hat hstart
  refine ⟨_, _, _, _, hem, listed_pooled rfl (fun j => ?_) ?_ (fun a ha => ?_) fun k e he hm => ?_,
    fun r hr => ?_, rfl, le_refl _⟩
  · show j = t.brTables.length ↔ t.brTables.length ≤ j ∧ j < t.brTables.length + 1
    omega
  · rcases hls with hls | ⟨hls, -⟩
    · rw [hls]
      exact List.nodup_singleton _
    · rw [hls]
      exact List.nodup_nil
  · rcases hls with hls | ⟨hls, -⟩
    · rw [hls] at ha
      exact ⟨0, Nat.one_pos, List.mem_singleton.mp ha⟩
    · rw [hls] at ha
      exact absurd ha List.not_mem_nil
  · obtain ⟨hk, rfl⟩ := List.getElem?_eq_some_iff.mp he
    obtain rfl : k = 0 := Nat.lt_one_iff.mp hk
    rcases hls with hls | ⟨-, hip⟩
    · rw [hls] at hm
      exact absurd (List.mem_singleton_self _) hm
    · exact hip
  · rw [mem_branchRegs hr]
    exact (List.getElem?_eq_some_iff.mp hf).1

theorem ret_adds (h : t.ret = .ok u) : Adds t u 1 0 := by
  obtain ⟨f, hf, -, hem, -⟩ := ret_emits h
  refine ⟨_, _, _, _, hem, listed_inline rfl (fun _ hj => hj) (.inl rfl), fun r hr => ?_, rfl,
    le_refl _⟩
  obtain rfl := List.mem_singleton.mp hr
  have hne : t.ctrl ≠ [] := by
    rintro hnil
    rw [hnil] at hf
    cases hf
  have := List.length_pos_of_ne_nil hne
  show t.ctrl.length - 1 < t.ctrl.length
  omega

theorem listedBy_append (n : ℕ) (op : Op) (rs rs' : List (ℕ × PatchSlot)) :
    listedBy n op (rs ++ rs') = listedBy n op rs ++ listedBy n op rs' :=
  List.filterMap_append

/-- The place a listed branch writes is listed. -/
theorem mem_listedBy {op : Op} {rs : List (ℕ × PatchSlot)} {r : ℕ × PatchSlot} {a : Place}
    (hr : r ∈ rs) (ha : op.edgeAt n r.2 = some a) : a ∈ listedBy n op rs :=
  List.mem_filterMap.mpr ⟨r, hr, ha⟩

/-- The cases of a `br_table` from the `k`-th on are edges of their own. -/
theorem listedBy_cases (n base len : ℕ) (ls : List ℕ) (fs : List CtrlFrame) (k : ℕ) :
    (listedBy n (.brTable base len) (caseRegs k ls fs)).Nodup ∧
      ∀ a ∈ listedBy n (.brTable base len) (caseRegs k ls fs),
        ∃ i, k ≤ i ∧ i < k + fs.length ∧ a = .pool (base + i) := by
  induction ls generalizing k fs with
  | nil =>
    unfold caseRegs
    exact ⟨List.nodup_nil, fun a ha => absurd ha List.not_mem_nil⟩
  | cons l ls ih =>
    rcases fs with _ | ⟨f, fs⟩
    · unfold caseRegs
      exact ⟨List.nodup_nil, fun a ha => absurd ha List.not_mem_nil⟩
    · obtain ⟨hnodup, hmem⟩ := ih fs (k + 1)
      have hhead : ∀ a ∈ listedBy n (.brTable base len) (branchRegs f l (.tableCase k)),
          a = .pool (base + k) := by
        intro a ha
        obtain ⟨r, hr, hat⟩ := List.mem_filterMap.mp ha
        rw [mem_branchRegs hr] at hat
        exact (Option.some.inj hat).symm
      have hone : (listedBy n (.brTable base len) (branchRegs f l (.tableCase k))).Nodup := by
        unfold branchRegs
        split
        · exact List.nodup_nil
        · exact List.nodup_singleton _
      rw [caseRegs, listedBy_append]
      refine ⟨hone.append hnodup fun a ha ha' => ?_, fun a ha => ?_⟩
      · obtain ⟨i, hi, -, hai⟩ := hmem a ha'
        have := Place.pool.inj ((hhead a ha).symm.trans hai)
        omega
      · rw [List.length_cons]
        rcases List.mem_append.mp ha with ha | ha
        · exact ⟨k, le_refl _, by omega, hhead a ha⟩
        · obtain ⟨i, hi, hlt, hai⟩ := hmem a ha
          exact ⟨i, by omega, by omega, hai⟩

theorem brTable_adds {cases : List ℕ} {default : ℕ} (hn : Noted t)
    (h : t.brTable cases default = .ok u) : Adds t u 1 (cases.length + 1) := by
  obtain ⟨fs, g, hfs, hg, -, hem, -, -⟩ := brTable_emits h
  have hlen : cases.length = fs.length := hfs.length_eq
  have hstart : ∀ {l : ℕ} {f : CtrlFrame}, t.ctrl[l]? = some f → f.startIp ≤ t.nextIp := fun hf =>
    (hn.start_le hf).trans t.settled_le
  obtain ⟨hnodup, hmem⟩ := listedBy_cases t.nextIp t.brTables.length cases.length cases fs 0
  have hat : (Op.brTable t.brTables.length cases.length).edgeAt t.nextIp .tableDefault
      = some (.pool (t.brTables.length + cases.length)) := rfl
  have hdefault := listedBy_branch g default (t.pop 1).height hat (hstart hg)
  have hedges : ((fs ++ [g]).map (edgeTo · (t.pop 1).height)).length = cases.length + 1 := by
    rw [List.length_map, List.length_append, hlen]
    rfl
  refine ⟨_, _, _, _, hem, listed_pooled rfl (fun j => ?_) ?_ (fun a ha => ?_) fun k e he hm => ?_,
    fun r hr => ?_, rfl, hedges.le⟩
  · rw [hedges]
    show t.brTables.length ≤ j ∧ j ≤ t.brTables.length + cases.length ↔ _
    omega
  · rw [listedBy_append]
    have hone : (listedBy t.nextIp (.brTable t.brTables.length cases.length)
        (branchRegs g default .tableDefault)).Nodup := by
      rcases hdefault with hd | ⟨hd, -⟩
      · rw [hd]
        exact List.nodup_singleton _
      · rw [hd]
        exact List.nodup_nil
    refine hnodup.append hone fun a ha ha' => ?_
    obtain ⟨i, -, hi, rfl⟩ := hmem a ha
    rcases hdefault with hd | ⟨hd, -⟩
    · rw [hd] at ha'
      have := Place.pool.inj (List.mem_singleton.mp ha')
      omega
    · rw [hd] at ha'
      exact absurd ha' List.not_mem_nil
  · rw [hedges]
    rw [listedBy_append] at ha
    rcases List.mem_append.mp ha with ha | ha
    · obtain ⟨i, -, hi, rfl⟩ := hmem a ha
      exact ⟨i, by omega, rfl⟩
    · rcases hdefault with hd | ⟨hd, -⟩
      · rw [hd] at ha
        exact ⟨cases.length, by omega, List.mem_singleton.mp ha⟩
      · rw [hd] at ha
        exact absurd ha List.not_mem_nil
  · -- an edge that is not listed goes to the start of a loop
    rw [listedBy_append] at hm
    obtain ⟨f, hf, rfl⟩ : ∃ f, (fs ++ [g])[k]? = some f ∧ edgeTo f (t.pop 1).height = e := by
      rw [List.getElem?_map] at he
      exact Option.map_eq_some_iff.mp he
    rcases Nat.lt_or_ge k fs.length with hk | hk
    · rw [List.getElem?_append_left hk] at hf
      have hkc : k < cases.length := by omega
      have hl : cases[k]? = some cases[k] := List.getElem?_eq_getElem hkc
      have hctrl : t.ctrl[cases[k]]? = some f := by
        have hall := hfs.get hkc hk
        obtain rfl : fs[k] = f := Option.some.inj ((List.getElem?_eq_getElem hk).symm.trans hf)
        exact hall.1
      have hloop : f.kind = .loop := by
        by_contra hne
        have hr := caseRegs_mem (k := 0) hl hf hne
        rw [Nat.zero_add] at hr
        exact hm (List.mem_append_left _ (mem_listedBy hr rfl))
      unfold edgeTo
      rw [if_pos hloop]
      exact hstart hctrl
    · rw [List.getElem?_append_right hk] at hf
      obtain ⟨hlt, rfl⟩ := List.getElem?_eq_some_iff.mp hf
      obtain rfl : k = cases.length := by
        rw [List.length_singleton] at hlt
        omega
      rcases hdefault with hd | ⟨-, hip⟩
      · rw [hd] at hm
        exact absurd (List.mem_append_right _ (List.mem_singleton_self _)) hm
      · simpa using hip
  · rcases List.mem_append.mp hr with hr | hr
    · obtain ⟨i, l, f, hl, hf, -, rfl⟩ := mem_caseRegs hr
      obtain ⟨hi, rfl⟩ := List.getElem?_eq_some_iff.mp hl
      have hi' : i < fs.length := by omega
      exact (List.getElem?_eq_some_iff.mp (hfs.get hi hi').1).1
    · rw [mem_branchRegs hr]
      exact (List.getElem?_eq_some_iff.mp hg).1

/-- What pools no edge pools no more than any bound. -/
theorem Adds.widen {k m : ℕ} (h : Adds t u k 0) : Adds t u k m := by
  obtain ⟨n, op, edges, regs, h1, h2, h3, h4, h5⟩ := h
  exact ⟨n, op, edges, regs, h1, h2, h3, h4, h5.trans (Nat.zero_le _)⟩

/-- A jump adds its op, and an edge for each label a `br_table` has. -/
theorem visitJump_adds {j : Jump} (hn : Noted t) (h : t.visitJump ctx j = .ok u) :
    Adds t u 1 j.labels.length := by
  cases j with
  | br l => exact (br_adds hn h).widen
  | brTable cases default =>
    have hlen : (Jump.brTable cases default).labels.length = cases.length + 1 :=
      List.length_append
    rw [hlen]
    exact brTable_adds hn h
  | ret => exact ret_adds h
  | unreachable =>
    obtain rfl := Except.ok.inj h
    exact (terminate_emits t rfl).adds_plain rfl rfl fun _ hj => hj
  | throw tag =>
    obtain rfl := Except.ok.inj h
    exact (terminate_emits t rfl).adds_plain rfl rfl fun _ hj => hj
  | throwRef =>
    obtain rfl := Except.ok.inj h
    exact (terminate_emits t rfl).adds_plain rfl rfl fun _ hj => hj
  | returnCall c =>
    obtain rfl := Except.ok.inj h
    exact (returnCall_emits ctx t c).adds_plain rfl rfl fun _ hj => hj

/-- The ops a conditional branch adds: none where it takes the place of a comparison. -/
def condOps (t : Translator) : CondBr → ℕ
  | .brIf _ => if t.fusableCmp.isNone then 1 else 0
  | _ => 1

theorem visitCond_adds {c : CondBr} (hn : Noted t) (ht : Tracked t) (hr : t.reachable = true)
    (h : t.visitCond c = .ok u) :
    Adds t u (t.condOps c) 1 := by
  cases c with
  | brIf l => exact (brIf_adds hn ht hr h).widen
  | brOnNull l => exact (brOnNull_adds hn hr h).widen
  | brOnNonNull l => exact (brOnNonNull_adds hn hr h).widen
  | brOnCast l ty nullable fail => exact brOnCast_adds hn h

end Operators

end Translator

end SubmilliWasm
