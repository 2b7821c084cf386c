/-
# Conversions between `any` and `extern`

`extern.convert_any` and `any.convert_extern` (`store/managed.rs`) there and back again, with
anything in between that keeps the converted reference reachable: allocations, writes, collections
and further conversions.  A conversion unwraps instead of wrapping twice, so that a wrapper object
always stands for a host reference and an internalized entry never for a wrapper (`Unnested`).  One
fails only where the entry it has to make does not fit.
-/
import Mathlib.Tactic.Common
import SubmilliWasm.Store.Codecs
import SubmilliWasm.Store.Events

namespace SubmilliWasm

open Slots

namespace StoreInner

/-! ## References -/

/-- The entry a reference stands for. -/
def entryOf : Val → Option Reached
  | .externRef (some e) => some (.extern_ e)
  | .anyRef (some h) =>
    match decodeAnyrefHandle h with
    | .slot i => some (.gc i)
    | .i31 _ => none
  | _ => none

variable {c c' : Contents} {e : ExternEntry} {o : GcObject} {held : Option Reached} {n : Reached}
  {s s' : StoreInner} {h i p x : ℕ}

theorem entryOf_slot (hdecode : decodeAnyrefHandle h = .slot i) :
    entryOf (.anyRef (some h)) = some (.gc i) := by
  simp only [entryOf, hdecode]

/-- The host reference an `any` reference wraps. -/
def hostOf (s : StoreInner) (h : ℕ) : Option ℕ :=
  match decodeAnyrefHandle h with
  | .slot i => (s.gc.arena.get i).bind GcObject.externIndex
  | .i31 _ => none

/-- The `any` reference an `extern` reference internalizes. -/
def internalOf (s : StoreInner) (e : ℕ) : Option ℕ :=
  match s.externrefs.get e with
  | some (.internal h) => some h
  | _ => none

/-- A reference of the store: its entry is live, and its handle has 32 bits. -/
structure Resident (s : StoreInner) (v : Val) : Prop where
  live : ∀ n ∈ entryOf v, s.Live n
  width : ∀ e, v = .externRef (some e) → e < 2 ^ 32

/-- `ref_eq`. -/
def refEq : Val → Val → Bool
  | .anyRef none, .anyRef none => true
  | .anyRef (some x), .anyRef (some y) => decide (x = y)
  | _, _ => false

theorem refEq_self (r : Option ℕ) : refEq (.anyRef r) (.anyRef r) = true := by
  cases r with
  | none => rfl
  | some x => exact decide_eq_true rfl

/-- No room for one more object. -/
def Full (h : GcHeap) : Prop := h.arena.free = [] ∧ nullRef ≤ h.arena.slots.length

/-! ## No wrapper of a wrapper -/

/-- An entry is made right: a wrapper for a host reference, an internalized entry for anything but a
wrapper. -/
def Proper (s : StoreInner) : Contents → Prop
  | .object o => o.kind = .extern_ →
      ∃ x p, o.externIndex = some x ∧ s.externrefs.get x = some (.host p)
  | .extern_ (.internal h) =>
      ∀ i, decodeAnyrefHandle h = .slot i → ∃ o, s.gc.arena.get i = some o ∧ o.kind ≠ .extern_
  | .extern_ (.host _) => True
  | .exn _ => True

structure Unnested (s : StoreInner) : Prop where
  room : s.gc.arena.slots.length ≤ nullRef
  proper : ∀ n c, s.contents n = some c → Proper s c

/-- The same entry: only the body of a struct or an array may differ. -/
def Like (c c' : Contents) : Prop :=
  c' = c ∨ ∃ o o', c = .object o ∧ c' = .object o' ∧ o.kind ≠ .extern_ ∧ o'.kind = o.kind

theorem Like.refl (c : Contents) : Like c c := .inl rfl

theorem Like.trans {c'' : Contents} (h : Like c c') (h' : Like c' c'') : Like c c'' := by
  obtain rfl | ⟨o, o', rfl, rfl, hkind, hsame⟩ := h
  · exact h'
  · obtain rfl | ⟨o₁, o₂, ho₁, rfl, -, hsame'⟩ := h'
    · exact .inr ⟨o, o', rfl, rfl, hkind, hsame⟩
    · obtain rfl : o' = o₁ := Contents.object.inj ho₁
      exact .inr ⟨o, o₂, rfl, rfl, hkind, hsame'.trans hsame⟩

theorem Like.extern_ {e : ExternEntry} {c : Contents} (h : Like (.extern_ e) c) :
    c = .extern_ e := by
  obtain hc | ⟨o, o', ho, -⟩ := h
  · exact hc
  · cases ho

theorem Like.wrapper (h : Like (.object o) c) (hkind : o.kind = .extern_) : c = .object o := by
  obtain hc | ⟨o₁, o', ho, -, hne, -⟩ := h
  · exact hc
  · obtain rfl := Contents.object.inj ho
    exact absurd hkind hne

theorem Like.object (h : Like (.object o) c) : ∃ o', c = .object o' ∧ o'.kind = o.kind := by
  obtain hc | ⟨o₁, o', ho, hc, -, hsame⟩ := h
  · exact ⟨o, hc, rfl⟩
  · obtain rfl := Contents.object.inj ho
    exact ⟨o', hc, hsame⟩

/-- The entry is still there, in the same generation of its slot. -/
structure Persists (s s' : StoreInner) (n : Reached) : Prop where
  generation : s'.generation n = s.generation n
  contents : ∃ c c', s.contents n = some c ∧ s'.contents n = some c' ∧ Like c c'

theorem Persists.refl (h : s.Live n) : Persists s s n := by
  obtain ⟨c, hc⟩ := Option.ne_none_iff_exists'.mp (live_iff_contents.mp h)
  exact ⟨rfl, c, c, hc, hc, Like.refl c⟩

theorem Persists.trans {s'' : StoreInner} (h : Persists s s' n) (h' : Persists s' s'' n) :
    Persists s s'' n := by
  obtain ⟨c, c', hc, hc', hlike⟩ := h.contents
  obtain ⟨c₁, c'', hc₁, hc'', hlike'⟩ := h'.contents
  obtain rfl : c' = c₁ := Option.some.inj (hc'.symm.trans hc₁)
  exact ⟨h'.generation.trans h.generation, c, c'', hc, hc'', hlike.trans hlike'⟩

theorem Persists.live (h : Persists s s' n) : s'.Live n := by
  obtain ⟨c, c', -, hc', -⟩ := h.contents
  rw [live_iff_contents, hc']
  exact Option.some_ne_none c'

/-! ## What may happen in between -/

/-- One thing a store does while `held` is kept: each collection reaches it. -/
inductive Turn (held : Option Reached) (s : StoreInner) : StoreInner → Prop where
  | object {o : GcObject} {i : ℕ} {s' : StoreInner} : o.kind ≠ .extern_ →
      s.allocGc o = .ok (i, s') → Turn held s s'
  | unreserved {o : GcObject} {i : ℕ} {s' : StoreInner} : o.kind ≠ .extern_ →
      s.allocGcUnreserved o = .ok (i, s') → Turn held s s'
  | externref {payload x : ℕ} {s' : StoreInner} : s.allocExternref payload = .ok (x, s') →
      Turn held s s'
  | exn {e : ExnEntity} {x : ℕ} {s' : StoreInner} : s.allocExn e = .ok (x, s') → Turn held s s'
  | write (index : ℕ) (data : List UInt8) :
      (∀ o, s.gc.arena.get index = some o → o.kind ≠ .extern_) →
      Turn held s
        { s with gc := { s.gc with arena := s.gc.arena.update index (GcObject.rewrite data) } }
  | collect {stackRoots : List (ℕ × RefKind)} {s' : StoreInner} :
      (∀ n ∈ held, Reachable s stackRoots n) → s.collect stackRoots = some (.ok s') →
      Turn held s s'
  | externConvertAny {v v' : Val} {s' : StoreInner} : Resident s v →
      s.externConvertAny v = .ok (v', s') → Turn held s s'
  | anyConvertExtern {v v' : Val} {s' : StoreInner} : Resident s v →
      s.anyConvertExtern v = .ok (v', s') → Turn held s s'
  | other {s' : StoreInner} : SameArenas s s' → Turn held s s'

def Turns (held : Option Reached) : StoreInner → StoreInner → Prop :=
  Relation.ReflTransGen (Turn held)

/-- What a turn does to the entries: those that stay are the same, those that are new are made right
and nothing is freed beside them, and what an entry that stays holds stays too. -/
structure Turned (held : Option Reached) (s s' : StoreInner) : Prop where
  room : s.gc.arena.slots.length ≤ nullRef → s'.gc.arena.slots.length ≤ nullRef
  entry : ∀ n c', s'.contents n = some c' →
    (∃ c, s.contents n = some c ∧ Like c c' ∧ s'.generation n = s.generation n) ∨
      (s.contents n = none ∧ Proper s c' ∧ ∀ m, s.Live m → s'.Live m)
  closed : ∀ n m, s'.Live n → Points s n m → s.Live m → s'.Live m
  kept : ∀ n ∈ held, s.Live n → s'.Live n

theorem Turned.refl (held : Option Reached) (s : StoreInner) : Turned held s s where
  room h := h
  entry _ c' h := .inl ⟨c', h, Like.refl c', rfl⟩
  closed _ _ _ _ h := h
  kept _ _ h := h

theorem Turned.persists (h : Turned held s s') (hs : s.Live n) (hs' : s'.Live n) :
    Persists s s' n := by
  obtain ⟨c', hc'⟩ := Option.ne_none_iff_exists'.mp (live_iff_contents.mp hs')
  obtain ⟨c, hc, hlike, hgen⟩ | ⟨hnone, -⟩ := h.entry n c' hc'
  · exact ⟨hgen, c, c', hc, hc', hlike⟩
  · exact absurd hnone (live_iff_contents.mp hs)

/-- A turn that places one entry, made right, in an empty slot. -/
theorem Turned.placed (held : Option Reached) (placed : Reached) (c : Contents)
    (hroom : s.gc.arena.slots.length ≤ nullRef → s'.gc.arena.slots.length ≤ nullRef)
    (hempty : s.contents placed = none) (hproper : Proper s c)
    (hcontents : ∀ n, s'.contents n = if n = placed then some c else s.contents n)
    (hgeneration : ∀ n, n ≠ placed → s'.generation n = s.generation n) : Turned held s s' := by
  have hlive : ∀ m, s.Live m → s'.Live m := by
    intro m hm
    rw [live_iff_contents] at hm ⊢
    rw [hcontents]
    split
    · exact Option.some_ne_none c
    · exact hm
  refine ⟨hroom, ?_, fun _ m _ _ => hlive m, fun n _ => hlive n⟩
  intro n c' hc'
  rw [hcontents] at hc'
  split at hc'
  · rename_i hn
    subst hn
    obtain rfl := Option.some.inj hc'
    exact .inr ⟨hempty, hproper, hlive⟩
  · rename_i hn
    exact .inl ⟨c', hc', Like.refl c', hgeneration n hn⟩

theorem alloc_length {E : Type} (a : ReclaimArena E) (e : E) :
    (a.alloc e).2.slots.length = if a.free = [] then a.slots.length + 1 else a.slots.length := by
  unfold ReclaimArena.alloc
  split
  · rename_i index rest hf
    have hne : a.free ≠ [] := by
      rw [hf]
      exact List.cons_ne_nil index rest
    rw [if_neg hne]
    exact List.length_set
  · rename_i hf
    rw [if_pos hf]
    exact List.length_append

theorem gcAlloc_ok {h h' : GcHeap} (ha : h.alloc o = .ok (i, h')) :
    ¬ Full h ∧ i = (h.arena.alloc o).1 ∧
      h' = { h with arena := (h.arena.alloc o).2, used := saturatingAdd h.used o.byteSize } := by
  unfold GcHeap.alloc at ha
  split at ha
  · cases ha
  · rename_i hroom
    obtain ⟨rfl, rfl⟩ := Prod.mk.inj (Except.ok.inj ha)
    exact ⟨hroom, rfl, rfl⟩

section Filled

variable {α : Type} (a : ReclaimArena α) (e : α) {entry : ℕ → Reached}

/-- The contents of the entries an arena stands for, once a slot is filled. -/
theorem alloc_contents (c : α → Contents) (hentry : Function.Injective entry) (j : ℕ) :
    ((a.alloc e).2.get j).map c =
      if entry j = entry (a.alloc e).1 then some (c e) else (a.get j).map c := by
  rw [a.alloc_get]
  by_cases hj : j = (a.alloc e).1
  · rw [if_pos hj, if_pos (congrArg entry hj)]
    rfl
  · rw [if_neg hj, if_neg fun h => hj (hentry h)]

theorem alloc_generation_ne {j : ℕ} (hj : entry j ≠ entry (a.alloc e).1) :
    (a.alloc e).2.generation j = a.generation j := by
  rw [a.alloc_generation, if_neg]
  rintro ⟨rfl, -⟩
  exact hj rfl

end Filled

/-- An object placed in the store: what it leaves of each entry. -/
theorem allocGc_placed (h : s.allocGc o = .ok (i, s')) :
    (s.gc.arena.slots.length ≤ nullRef → s'.gc.arena.slots.length ≤ nullRef ∧ i < nullRef) ∧
      s.contents (.gc i) = none ∧
      (∀ n, s'.contents n = if n = .gc i then some (.object o) else s.contents n) ∧
      ∀ n, n ≠ .gc i → s'.generation n = s.generation n := by
  unfold allocGc at h
  cases ha : s.gc.alloc o with
  | error e => simp [ha, Except.map] at h
  | ok p =>
    obtain ⟨index, gc⟩ := p
    obtain ⟨hfull, rfl, rfl⟩ := gcAlloc_ok ha
    rw [ha] at h
    obtain ⟨rfl, rfl⟩ := Prod.mk.inj (Except.ok.inj h)
    have hplaced : (s.gc.arena.alloc o).1 < (s.gc.arena.alloc o).2.slots.length := by
      apply lt_length_of_entry (a := o)
      have hget := s.gc.arena.alloc_get o (s.gc.arena.alloc o).1
      rwa [if_pos rfl] at hget
    refine ⟨?_, ?_, ?_, ?_⟩
    · intro hroom
      have hlength : (s.gc.arena.alloc o).2.slots.length ≤ nullRef := by
        rw [alloc_length]
        split
        · rename_i hfree
          have hlt : ¬ nullRef ≤ s.gc.arena.slots.length := fun hle => hfull ⟨hfree, hle⟩
          omega
        · exact hroom
      exact ⟨hlength, lt_of_lt_of_le hplaced hlength⟩
    · show (s.gc.arena.get _).map Contents.object = none
      rw [s.gc.arena.alloc_fresh o]
      rfl
    · intro n
      cases n with
      | gc j => exact alloc_contents _ o .object (fun _ _ => Reached.gc.inj) j
      | extern_ j => rfl
      | exn j => rfl
    · intro n hn
      cases n with
      | gc j => exact alloc_generation_ne s.gc.arena o hn
      | extern_ j => rfl
      | exn j => rfl

theorem allocGcUnreserved_ok (h : s.allocGcUnreserved o = .ok (i, s')) :
    s.allocGc o = .ok (i, s') := by
  unfold allocGcUnreserved GcHeap.allocUnreserved at h
  split at h
  · exact h
  · cases h

theorem pushExtern_ok (h : s.pushExtern e = .ok (x, s')) : x = (s.externrefs.alloc e).1 ∧
      s' = { s with gc := s.gc.charge e.byteSize, externrefs := (s.externrefs.alloc e).2 } := by
  unfold pushExtern at h
  split at h
  · obtain ⟨hx, hs⟩ := Prod.mk.inj (Except.ok.inj h)
    exact ⟨hx.symm, hs.symm⟩
  · cases h

/-- An externref entry placed in the store. -/
theorem pushExtern_placed (h : s.pushExtern e = .ok (x, s')) :
    s'.gc.arena = s.gc.arena ∧ s.contents (.extern_ x) = none ∧
      (∀ n, s'.contents n = if n = .extern_ x then some (.extern_ e) else s.contents n) ∧
      ∀ n, n ≠ .extern_ x → s'.generation n = s.generation n := by
  obtain ⟨rfl, rfl⟩ := pushExtern_ok h
  refine ⟨rfl, ?_, ?_, ?_⟩
  · show (s.externrefs.get (s.externrefs.alloc e).1).map Contents.extern_ = none
    rw [s.externrefs.alloc_fresh e]
    rfl
  · intro n
    cases n with
    | extern_ j => exact alloc_contents _ e .extern_ (fun _ _ => Reached.extern_.inj) j
    | gc j => rfl
    | exn j => rfl
  · intro n hn
    cases n with
    | extern_ j => exact alloc_generation_ne s.externrefs e hn
    | gc j => rfl
    | exn j => rfl

theorem allocExn_ok {e : ExnEntity} (h : s.allocExn e = .ok (x, s')) : x = (s.exns.alloc e).1 ∧
      s' = { s with gc := s.gc.charge e.byteSize, exns := (s.exns.alloc e).2 } := by
  unfold allocExn at h
  split at h
  · obtain ⟨hx, hs⟩ := Prod.mk.inj (Except.ok.inj h)
    exact ⟨hx.symm, hs.symm⟩
  · cases h

/-- An exception placed in the store. -/
theorem allocExn_placed {e : ExnEntity} (h : s.allocExn e = .ok (x, s')) :
    s'.gc.arena = s.gc.arena ∧ s.contents (.exn x) = none ∧
      (∀ n, s'.contents n = if n = .exn x then some (.exn e) else s.contents n) ∧
      ∀ n, n ≠ .exn x → s'.generation n = s.generation n := by
  obtain ⟨rfl, rfl⟩ := allocExn_ok h
  refine ⟨rfl, ?_, ?_, ?_⟩
  · show (s.exns.get (s.exns.alloc e).1).map Contents.exn = none
    rw [s.exns.alloc_fresh e]
    rfl
  · intro n
    cases n with
    | exn j => exact alloc_contents _ e .exn (fun _ _ => Reached.exn.inj) j
    | gc j => rfl
    | extern_ j => rfl
  · intro n hn
    cases n with
    | exn j => exact alloc_generation_ne s.exns e hn
    | gc j => rfl
    | extern_ j => rfl

theorem Turned.allocGc (held : Option Reached) (h : s.allocGc o = .ok (i, s'))
    (hproper : Proper s (.object o)) : Turned held s s' := by
  obtain ⟨hroom, hempty, hcontents, hgeneration⟩ := allocGc_placed h
  exact .placed held (.gc i) (.object o) (fun h => (hroom h).1) hempty hproper hcontents hgeneration

theorem Turned.pushExtern (held : Option Reached) (h : s.pushExtern e = .ok (x, s'))
    (hproper : Proper s (.extern_ e)) : Turned held s s' := by
  obtain ⟨harena, hempty, hcontents, hgeneration⟩ := pushExtern_placed h
  exact .placed held (.extern_ x) (.extern_ e) (fun h => by rwa [harena]) hempty hproper hcontents
    hgeneration

theorem Turned.allocExn (held : Option Reached) {e : ExnEntity} (h : s.allocExn e = .ok (x, s')) :
    Turned held s s' := by
  obtain ⟨harena, hempty, hcontents, hgeneration⟩ := allocExn_placed h
  exact .placed held (.exn x) (.exn e) (fun h => by rwa [harena]) hempty trivial hcontents
    hgeneration

/-- A write to a struct or an array. -/
theorem Turned.write (held : Option Reached) (s : StoreInner) (index : ℕ) (data : List UInt8)
    (hplain : ∀ o, s.gc.arena.get index = some o → o.kind ≠ .extern_) :
    Turned held s
      { s with gc := { s.gc with arena := s.gc.arena.update index (GcObject.rewrite data) } } := by
  have hlive : ∀ n, s.Live n → StoreInner.Live
      { s with gc :=
        { s.gc with arena := s.gc.arena.update index (GcObject.rewrite data) } } n := by
    intro n hn
    cases n with
    | gc j =>
      show (s.gc.arena.update index (GcObject.rewrite data)).get j ≠ none
      have hj : s.gc.arena.get j ≠ none := hn
      rw [ReclaimArena.update_get]
      split
      · rename_i hsame
        subst hsame
        simpa using hj
      · exact hj
    | extern_ j => exact hn
    | exn j => exact hn
  refine ⟨?_, ?_, fun _ m _ _ => hlive m, fun n _ => hlive n⟩
  · intro hroom
    show (s.gc.arena.update index (GcObject.rewrite data)).slots.length ≤ nullRef
    unfold ReclaimArena.update
    split
    · exact hroom
    · rw [List.length_set]
      exact hroom
  · intro n c' hc'
    cases n with
    | gc j =>
      left
      change ((s.gc.arena.update index (GcObject.rewrite data)).get j).map Contents.object =
        some c' at hc'
      have hgeneration := s.gc.arena.update_generation index (GcObject.rewrite data) j
      rw [ReclaimArena.update_get] at hc'
      split at hc'
      · rename_i hsame
        subst hsame
        rw [Option.map_map, Option.map_eq_some_iff] at hc'
        obtain ⟨o, ho, rfl⟩ := hc'
        refine ⟨.object o, ?_, .inr ⟨o, o.rewrite data, rfl, rfl, hplain o ho, ?_⟩, hgeneration⟩
        · show (s.gc.arena.get j).map Contents.object = _
          rw [ho]
          rfl
        · unfold GcObject.rewrite
          split <;> rfl
      · exact ⟨c', hc', Like.refl c', hgeneration⟩
    | extern_ j => exact .inl ⟨c', hc', Like.refl c', rfl⟩
    | exn j => exact .inl ⟨c', hc', Like.refl c', rfl⟩

theorem sweep_length {E : Type} (a : ReclaimArena E) (live : ℕ → Bool) (byteOf : E → ℕ) :
    (a.sweep live byteOf).1.slots.length = a.slots.length := by
  have hswept := ReclaimArena.foldl_sweepSlot_spec live byteOf (List.range a.slots.length)
    (p := (a, 0)) (ReclaimArena.Swept.nil live a) (by simpa using List.nodup_range)
  exact hswept.length

/-- A collection that reaches what is held. -/
theorem Turned.collect {held : Option Reached} {s s' : StoreInner} {stackRoots : List (ℕ × RefKind)}
    (hheld : ∀ n ∈ held, Reachable s stackRoots n) (h : s.collect stackRoots = some (.ok s')) :
    Turned held s s' := by
  by_cases hcollecting : s.gc.collecting = true
  · have hexact := collectedExactly hcollecting h
    refine ⟨?_, ?_, ?_, ?_⟩
    · intro hroom
      obtain ⟨t, -, rfl⟩ := collect_ok hcollecting h
      show (s.gc.arena.sweep (marked t.marks) GcObject.byteSize).1.slots.length ≤ nullRef
      rwa [sweep_length]
    · intro n c' hc'
      have hreached : Reachable s stackRoots n := by
        rw [← hexact.live_iff, live_iff_contents, hc']
        exact Option.some_ne_none c'
      obtain ⟨hcontents, hgeneration⟩ := hexact.kept n hreached
      exact .inl ⟨c', hcontents ▸ hc', Like.refl c', hgeneration⟩
    · intro n m hn hpoints _
      exact (hexact.live_iff m).mpr (.step ((hexact.live_iff n).mp hn) hpoints)
    · intro n hn _
      exact (hexact.live_iff n).mpr (hheld n hn)
  · rw [StoreInner.collect, if_pos (by simpa using hcollecting)] at h
    obtain rfl := Except.ok.inj (Option.some.inj h)
    exact .refl held s

theorem Turned.other (held : Option Reached) (h : SameArenas s s') : Turned held s s' := by
  have hcontents : ∀ n, s'.contents n = s.contents n := by
    intro n
    cases n with
    | gc j => exact congrArg (fun a => (ReclaimArena.get a j).map Contents.object) h.arena
    | extern_ j =>
      exact congrArg (fun a => (ReclaimArena.get a j).map Contents.extern_) h.externrefs
    | exn j => exact congrArg (fun a => (ReclaimArena.get a j).map Contents.exn) h.exns
  have hgeneration : ∀ n, s'.generation n = s.generation n := by
    intro n
    cases n with
    | gc j => exact congrArg (fun a => ReclaimArena.generation a j) h.arena
    | extern_ j => exact congrArg (fun a => ReclaimArena.generation a j) h.externrefs
    | exn j => exact congrArg (fun a => ReclaimArena.generation a j) h.exns
  have hlive : ∀ n, s.Live n → s'.Live n := by
    intro n hn
    rw [live_iff_contents, hcontents]
    exact live_iff_contents.mp hn
  refine ⟨?_, ?_, fun _ m _ _ => hlive m, fun n _ => hlive n⟩
  · intro hroom
    rwa [h.arena]
  · intro n c' hc'
    exact .inl ⟨c', hcontents n ▸ hc', Like.refl c', hgeneration n⟩

/-! ## One conversion -/

/-- The wrapper of a host reference stands for it. -/
theorem externIndex_wrapper (hx : x < 2 ^ 32) : (externWrapper x).externIndex = some x := by
  have hslice : slice (leBytes 4 x) 0 4 = some (leBytes 4 x) := by
    have hlen := leBytes_length 4 x
    rw [slice, if_pos (by omega), List.drop_zero, List.take_of_length_le (by omega)]
  show (slice (leBytes 4 x) 0 4).map leNat = some x
  rw [hslice, Option.map_some, leNat_leBytes, Nat.mod_eq_of_lt (by norm_num; omega)]

/-- What a wrapper handle stands for. -/
theorem hostOf_some (hx : s.hostOf h = some x) :
    ∃ i o, decodeAnyrefHandle h = .slot i ∧ s.gc.arena.get i = some o ∧ o.kind = .extern_ ∧
      o.externIndex = some x := by
  unfold hostOf at hx
  split at hx
  · rename_i i hdecode
    obtain ⟨o, ho, hindex⟩ := Option.bind_eq_some_iff.mp hx
    refine ⟨i, o, hdecode, ho, ?_, hindex⟩
    unfold GcObject.externIndex at hindex
    split at hindex
    · assumption
    · cases hindex
    · cases hindex
  · cases hx

/-- A handle of no wrapper is an `i31` or that of a struct or an array. -/
theorem Unnested.plain {s : StoreInner} (hs : Unnested s) {h i : ℕ} {o : GcObject}
    (hnone : s.hostOf h = none) (hdecode : decodeAnyrefHandle h = .slot i)
    (ho : s.gc.arena.get i = some o) : o.kind ≠ .extern_ := by
  intro hkind
  have hcontents : s.contents (.gc i) = some (.object o) := by
    show (s.gc.arena.get i).map Contents.object = _
    rw [ho]
    rfl
  obtain ⟨x, p, hindex, -⟩ := hs.proper _ _ hcontents hkind
  unfold hostOf at hnone
  rw [hdecode] at hnone
  simp [ho, hindex] at hnone

theorem externConvertAny_wrapper (hx : s.hostOf h = some x) :
    s.externConvertAny (.anyRef (some h)) = .ok (.externRef (some x), s) := by
  obtain ⟨i, o, hdecode, ho, -, hindex⟩ := hostOf_some hx
  unfold externConvertAny externConvertHandle
  simp only [hdecode, ho, hindex]
  rfl

theorem externConvertAny_plain (hres : Resident s (.anyRef (some h))) (hnone : s.hostOf h = none) :
    s.externConvertAny (.anyRef (some h)) =
      (s.pushExtern (.internal h)).map (fun p => (.externRef (some p.1), p.2)) := by
  unfold externConvertAny externConvertHandle
  unfold hostOf at hnone
  cases hdecode : decodeAnyrefHandle h with
  | i31 payload => simp only [hdecode]
  | slot i =>
    rw [hdecode] at hnone
    obtain ⟨o, ho⟩ := Option.ne_none_iff_exists'.mp (hres.live (.gc i) (entryOf_slot hdecode))
    simp only [hdecode]
    have hindex : o.externIndex = none := by simpa [ho] using hnone
    simp only [ho, hindex]

theorem anyConvertExtern_internal {e : ℕ} (he : s.externrefs.get e = some (.internal h)) :
    s.anyConvertExtern (.externRef (some e)) = .ok (.anyRef (some h), s) := by
  unfold anyConvertExtern anyConvertIndex
  simp only [he]
  rfl

theorem anyConvertExtern_host {e : ℕ} (he : s.externrefs.get e = some (.host p)) :
    s.anyConvertExtern (.externRef (some e)) =
      (s.allocGcUnreserved (externWrapper e)).map (fun p => (.anyRef (some p.1), p.2)) := by
  unfold anyConvertExtern anyConvertIndex
  simp only [he]

/-- A conversion to `extern` gives a reference that is there, or internalizes one that is no
wrapper. -/
theorem externConvertAny_ok {v v' : Val} (hres : Resident s v)
    (h : s.externConvertAny v = .ok (v', s')) :
    s' = s ∨ ∃ handle x, v = .anyRef (some handle) ∧ s.hostOf handle = none ∧
      s.pushExtern (.internal handle) = .ok (x, s') ∧ v' = .externRef (some x) := by
  have hsame : ∀ {w : Val}, s.externConvertAny v = .ok (w, s) → s' = s := by
    intro w hok
    exact (Prod.mk.inj (Except.ok.inj (h.symm.trans hok))).2
  by_cases hany : ∃ handle, v = .anyRef (some handle)
  · obtain ⟨handle, rfl⟩ := hany
    cases hhost : s.hostOf handle with
    | some x => exact .inl (hsame (externConvertAny_wrapper hhost))
    | none =>
      rw [externConvertAny_plain hres hhost] at h
      cases hpush : s.pushExtern (.internal handle) with
      | error e => simp [hpush, Except.map] at h
      | ok p =>
        rw [hpush] at h
        obtain ⟨rfl, rfl⟩ := Prod.mk.inj (Except.ok.inj h)
        exact .inr ⟨handle, p.1, rfl, hhost, hpush, rfl⟩
  · left
    cases v with
    | anyRef r =>
      cases r with
      | none => exact hsame rfl
      | some handle => exact absurd ⟨handle, rfl⟩ hany
    | _ => exact hsame rfl

/-- A conversion to `any` gives a reference that is there, or wraps a host reference. -/
theorem anyConvertExtern_ok {v v' : Val} (h : s.anyConvertExtern v = .ok (v', s')) :
    s' = s ∨ ∃ e p i, v = .externRef (some e) ∧ s.externrefs.get e = some (.host p) ∧
      s.allocGcUnreserved (externWrapper e) = .ok (i, s') ∧ v' = .anyRef (some i) := by
  have hsame : ∀ {w : Val}, s.anyConvertExtern v = .ok (w, s) → s' = s := by
    intro w hok
    exact (Prod.mk.inj (Except.ok.inj (h.symm.trans hok))).2
  by_cases hextern : ∃ e, v = .externRef (some e)
  · obtain ⟨e, rfl⟩ := hextern
    cases he : s.externrefs.get e with
    | none =>
      unfold anyConvertExtern anyConvertIndex at h
      simp [he, Except.map] at h
    | some entry =>
      cases entry with
      | internal handle => exact .inl (hsame (anyConvertExtern_internal he))
      | host p =>
        rw [anyConvertExtern_host he] at h
        cases halloc : s.allocGcUnreserved (externWrapper e) with
        | error err => simp [halloc, Except.map] at h
        | ok q =>
          rw [halloc] at h
          obtain ⟨rfl, rfl⟩ := Prod.mk.inj (Except.ok.inj h)
          exact .inr ⟨e, p, q.1, rfl, he, halloc, rfl⟩
  · left
    cases v with
    | externRef r =>
      cases r with
      | none => exact hsame rfl
      | some e => exact absurd ⟨e, rfl⟩ hextern
    | _ => exact hsame rfl

variable {handle : ℕ}

/-- What is internalized is no wrapper. -/
theorem Unnested.proper_internal (hs : Unnested s) (hres : Resident s (.anyRef (some handle)))
    (hnone : s.hostOf handle = none) : Proper s (.extern_ (.internal handle)) := by
  intro i hdecode
  obtain ⟨o, ho⟩ := Option.ne_none_iff_exists'.mp (hres.live (.gc i) (entryOf_slot hdecode))
  exact ⟨o, ho, hs.plain hnone hdecode ho⟩

/-- What is wrapped is a host reference. -/
theorem proper_wrapper {e : ℕ} (he : s.externrefs.get e = some (.host p)) (hwidth : e < 2 ^ 32) :
    Proper s (.object (externWrapper e)) :=
  fun _ => ⟨e, p, externIndex_wrapper hwidth, he⟩

/-! ## Any number of turns -/

theorem Turn.turned (hs : Unnested s) (h : Turn held s s') : Turned held s s' := by
  cases h with
  | object hkind h => exact .allocGc held h (fun hk => absurd hk hkind)
  | unreserved hkind h => exact .allocGc held (allocGcUnreserved_ok h) (fun hk => absurd hk hkind)
  | externref h => exact .pushExtern held h trivial
  | exn h => exact .allocExn held h
  | write index data hplain => exact .write held s index data hplain
  | collect hheld h => exact .collect hheld h
  | externConvertAny hres h =>
    obtain rfl | ⟨handle, x, rfl, hnone, hpush, rfl⟩ := externConvertAny_ok hres h
    · exact .refl held _
    · exact .pushExtern held hpush (hs.proper_internal hres hnone)
  | anyConvertExtern hres h =>
    obtain rfl | ⟨e, p, i, rfl, he, halloc, rfl⟩ := anyConvertExtern_ok h
    · exact .refl held _
    · exact .allocGc held (allocGcUnreserved_ok halloc) (proper_wrapper he (hres.width e rfl))
  | other h => exact .other held h

theorem contents_externref :
    s.contents (.extern_ x) = some (.extern_ e) ↔ s.externrefs.get x = some e := by
  show (s.externrefs.get x).map Contents.extern_ = _ ↔ _
  rw [Option.map_eq_some_iff]
  constructor
  · rintro ⟨e', he', hsame⟩
    rwa [← Contents.extern_.inj hsame]
  · intro he
    exact ⟨e, he, rfl⟩

theorem contents_object : s.contents (.gc i) = some (.object o) ↔ s.gc.arena.get i = some o := by
  show (s.gc.arena.get i).map Contents.object = _ ↔ _
  rw [Option.map_eq_some_iff]
  constructor
  · rintro ⟨o', ho', hsame⟩
    rwa [← Contents.object.inj hsame]
  · intro ho
    exact ⟨o, ho, rfl⟩

/-- A slot in use is below the null handle. -/
theorem Unnested.slot_lt (hs : Unnested s) (ho : s.gc.arena.get i = some o) : i < nullRef :=
  lt_of_lt_of_le (lt_length_of_entry ho) hs.room

/-- The handle of a slot is the slot. -/
theorem handle_of_slot (hdecode : decodeAnyrefHandle h = .slot i) : h = i := by
  unfold decodeAnyrefHandle at hdecode
  split at hdecode
  · exact AnyRefHandle.slot.inj hdecode
  · cases hdecode

theorem decode_slot (hi : i < nullRef) : decodeAnyrefHandle i = .slot i := by
  have hlt : i < i31Tag := lt_trans hi (by decide)
  rw [decodeAnyrefHandle, if_pos hlt]

/-- What an entry leans on: an internalized entry on its object, a wrapper on its host reference. -/
inductive LeansOn : Contents → Reached → Prop where
  | internal {h i : ℕ} : decodeAnyrefHandle h = .slot i →
      LeansOn (.extern_ (.internal h)) (.gc i)
  | wrapper {x : ℕ} {o : GcObject} : o.kind = .extern_ → o.externIndex = some x →
      LeansOn (.object o) (.extern_ x)

theorem LeansOn.like {m : Reached} (h : LeansOn c m) (hlike : Like c c') : c' = c := by
  cases h with
  | internal _ => exact hlike.extern_
  | wrapper hkind _ => exact hlike.wrapper hkind

/-- What an entry leans on is there, and the collector follows it. -/
theorem Unnested.points (hs : Unnested s) {m : Reached} (hc : s.contents n = some c)
    (h : LeansOn c m) : Points s n m ∧ s.Live m := by
  have hproper := hs.proper n c hc
  cases h with
  | internal hdecode =>
    obtain ⟨o, ho, -⟩ := hproper _ hdecode
    have hne : _ ≠ nullRef := Nat.ne_of_lt (hs.slot_lt ho)
    obtain rfl := handle_of_slot hdecode
    cases n with
    | extern_ e =>
      refine ⟨.internal (contents_externref.mp hc) ?_, ?_⟩
      · unfold handleReferent
        rw [if_neg hne, hdecode]
      · show s.gc.arena.get _ ≠ none
        rw [ho]
        exact Option.some_ne_none o
    | gc j =>
      obtain ⟨o', -, ho'⟩ := Option.map_eq_some_iff.mp hc
      cases ho'
    | exn j =>
      obtain ⟨e', -, he'⟩ := Option.map_eq_some_iff.mp hc
      cases he'
  | wrapper hkind hindex =>
    obtain ⟨x, p, hindex', hx⟩ := hproper hkind
    obtain rfl := Option.some.inj (hindex'.symm.trans hindex)
    cases n with
    | gc j =>
      refine ⟨.wrapper (contents_object.mp hc) hindex, ?_⟩
      show s.externrefs.get _ ≠ none
      rw [hx]
      exact Option.some_ne_none _
    | extern_ e =>
      obtain ⟨e', -, he'⟩ := Option.map_eq_some_iff.mp hc
      cases he'
    | exn j =>
      obtain ⟨e', -, he'⟩ := Option.map_eq_some_iff.mp hc
      cases he'

theorem Persists.externref (h : Persists s s' (.extern_ x)) (he : s.externrefs.get x = some e) :
    s'.externrefs.get x = some e := by
  obtain ⟨c, c', hc, hc', hlike⟩ := h.contents
  obtain rfl := Option.some.inj ((contents_externref.mpr he).symm.trans hc)
  obtain rfl := hlike.extern_
  exact contents_externref.mp hc'

theorem Persists.object (h : Persists s s' (.gc i)) (ho : s.gc.arena.get i = some o) :
    ∃ o', s'.gc.arena.get i = some o' ∧ o'.kind = o.kind ∧ (o.kind = .extern_ → o' = o) := by
  obtain ⟨c, c', hc, hc', hlike⟩ := h.contents
  obtain rfl := Option.some.inj ((contents_object.mpr ho).symm.trans hc)
  obtain ⟨o', rfl, hkind⟩ := hlike.object
  refine ⟨o', contents_object.mp hc', hkind, ?_⟩
  intro hwrapper
  exact Contents.object.inj (hlike.wrapper hwrapper)

/-- An entry made right stays right while what it leans on stays. -/
theorem Proper.carry (h : Proper s c) (hlike : Like c c')
    (hstays : ∀ m, LeansOn c m → Persists s s' m) : Proper s' c' := by
  cases c with
  | object o =>
    obtain ⟨o', rfl, hkind⟩ := hlike.object
    intro hwrapper
    have hw : o.kind = .extern_ := hkind.symm.trans hwrapper
    obtain ⟨x, p, hindex, hx⟩ := h hw
    obtain rfl := Contents.object.inj (hlike.wrapper hw)
    exact ⟨x, p, hindex, (hstays (.extern_ x) (.wrapper hw hindex)).externref hx⟩
  | extern_ e =>
    obtain rfl := hlike.extern_
    cases e with
    | host p => exact trivial
    | internal handle =>
      intro i hdecode
      obtain ⟨o, ho, hkind⟩ := h i hdecode
      obtain ⟨o', ho', hsame, -⟩ := (hstays (.gc i) (.internal hdecode)).object ho
      exact ⟨o', ho', by rw [hsame]; exact hkind⟩
  | exn e =>
    obtain rfl | ⟨o, o', ho, -⟩ := hlike
    · exact trivial
    · cases ho

/-- No turn nests wrappers. -/
theorem Unnested.turned (hs : Unnested s) (h : Turned held s s') : Unnested s' := by
  refine ⟨h.room hs.room, ?_⟩
  intro n c' hc'
  have hn' : s'.Live n := by
    rw [live_iff_contents, hc']
    exact Option.some_ne_none c'
  obtain ⟨c, hc, hlike, -⟩ | ⟨-, hproper, hall⟩ := h.entry n c' hc'
  · -- an entry that stays keeps what it leans on
    refine (hs.proper n c hc).carry hlike ?_
    intro m hm
    obtain ⟨hpoints, hlive⟩ := hs.points hc hm
    exact h.persists hlive (h.closed n m hn' hpoints hlive)
  · -- a new entry leans on one that was there, and nothing is freed
    refine hproper.carry (Like.refl c') ?_
    intro m hm
    have hlive : s.Live m := by
      cases hm with
      | internal hdecode =>
        obtain ⟨o, ho, -⟩ := hproper _ hdecode
        show s.gc.arena.get _ ≠ none
        rw [ho]
        exact Option.some_ne_none o
      | wrapper hkind hindex =>
        obtain ⟨x, p, hindex', hx⟩ := hproper hkind
        obtain rfl := Option.some.inj (hindex'.symm.trans hindex)
        show s.externrefs.get _ ≠ none
        rw [hx]
        exact Option.some_ne_none _
    exact h.persists hlive (hall m hlive)

/-- **What is held stays**, through any number of turns, with what it leans on. -/
theorem Turns.keeps (hs : Unnested s) (hn : s.Live n) (h : Turns (some n) s s') :
    Unnested s' ∧ Persists s s' n ∧
      ∀ c m, s.contents n = some c → LeansOn c m → Persists s s' m := by
  induction h with
  | refl =>
    refine ⟨hs, .refl hn, ?_⟩
    intro c m hc hm
    exact .refl (hs.points hc hm).2
  | tail _ hlast ih =>
    rename_i s₁ s₂
    obtain ⟨hs₁, hkeep, hleans⟩ := ih
    have hturned := hlast.turned hs₁
    have hn₂ := hturned.kept n rfl hkeep.live
    refine ⟨hs₁.turned hturned, hkeep.trans (hturned.persists hkeep.live hn₂), ?_⟩
    intro c m hc hm
    have hm₁ := hleans c m hc hm
    -- the entry that is held still leans on it
    obtain ⟨c₀, c₁, hc₀, hc₁, hlike⟩ := hkeep.contents
    obtain rfl := Option.some.inj (hc.symm.trans hc₀)
    obtain rfl := hm.like hlike
    obtain ⟨hpoints, hlive⟩ := hs₁.points hc₁ hm
    exact hm₁.trans (hturned.persists hlive (hturned.closed n m hn₂ hpoints hlive))

theorem Turns.unnested (hs : Unnested s) (h : Turns held s s') : Unnested s' := by
  induction h with
  | refl => exact hs
  | tail _ hlast ih => exact ih.turned (hlast.turned ih)

theorem unnested_new (engine : TypeRegistry) (collecting : Bool) (reservation : ℕ) :
    Unnested (StoreInner.new engine collecting reservation) := by
  refine ⟨Nat.zero_le _, ?_⟩
  intro n c hc
  cases n <;> cases hc

/-! ## There and back -/

/-- The same `any` reference: identical if it wraps nothing, or else one of the same host reference.
-/
def SameAny (s : StoreInner) (r : Option ℕ) (s' : StoreInner) (r' : Option ℕ) : Prop :=
  match r with
  | none => r' = none
  | some h =>
    match s.hostOf h with
    | none => r' = some h ∧ refEq (.anyRef r') (.anyRef (some h)) = true ∧
        ∀ n ∈ entryOf (.anyRef (some h)), Persists s s' n
    | some x => (∃ h', r' = some h' ∧ s'.hostOf h' = some x) ∧ Persists s s' (.extern_ x)

/-- The same `extern` reference: the very one if it internalizes nothing, or else one that
internalizes the same `any` reference. -/
def SameExtern (s : StoreInner) (e : Option ℕ) (s' : StoreInner) (e' : Option ℕ) : Prop :=
  match e with
  | none => e' = none
  | some x =>
    match s.internalOf x with
    | none => e' = some x ∧ Persists s s' (.extern_ x)
    | some h => (∃ x', e' = some x' ∧ s'.internalOf x' = some h) ∧
        ∀ n ∈ entryOf (.anyRef (some h)), Persists s s' n

/-- An `any` reference converts to `extern` and back, unless an entry that has to be made does not
fit. -/
structure AnyRoundTrip (s : StoreInner) (r : Option ℕ) : Prop where
  converts : (∃ e s₁, s.externConvertAny (.anyRef r) = .ok (.externRef e, s₁)) ∨
    (s.externConvertAny (.anyRef r) = .error (.trap .allocationTooLarge) ∧
      (∃ h, r = some h ∧ s.hostOf h = none) ∧ s.gc.canFitLimit arenaEntryOverhead = false)
  back : ∀ e s₁ s₂, s.externConvertAny (.anyRef r) = .ok (.externRef e, s₁) →
    Turns (entryOf (.externRef e)) s₁ s₂ →
    (∃ r' s₃, s₂.anyConvertExtern (.externRef e) = .ok (.anyRef r', s₃) ∧ SameAny s r s₃ r') ∨
      (s₂.anyConvertExtern (.externRef e) = .error (.trap .allocationTooLarge) ∧
        (∃ h, r = some h ∧ s.hostOf h ≠ none) ∧
        (s₂.gc.canFitLimit (objectOverhead + 4) = false ∨ Full s₂.gc))

/-- An `extern` reference converts to `any` and back, unless an entry that has to be made does not
fit. -/
structure ExternRoundTrip (s : StoreInner) (e : Option ℕ) : Prop where
  converts : (∃ r s₁, s.anyConvertExtern (.externRef e) = .ok (.anyRef r, s₁)) ∨
    (s.anyConvertExtern (.externRef e) = .error (.trap .allocationTooLarge) ∧
      (∃ x, e = some x ∧ s.internalOf x = none) ∧
      (s.gc.canFitLimit (objectOverhead + 4) = false ∨ Full s.gc))
  back : ∀ r s₁ s₂, s.anyConvertExtern (.externRef e) = .ok (.anyRef r, s₁) →
    Turns (entryOf (.anyRef r)) s₁ s₂ →
    (∃ e' s₃, s₂.externConvertAny (.anyRef r) = .ok (.externRef e', s₃) ∧ SameExtern s e s₃ e') ∨
      (s₂.externConvertAny (.anyRef r) = .error (.trap .allocationTooLarge) ∧
        (∃ x, e = some x ∧ s.internalOf x ≠ none) ∧
        s₂.gc.canFitLimit arenaEntryOverhead = false)

theorem pushExtern_total (s : StoreInner) (e : ExternEntry) :
    (∃ x s', s.pushExtern e = .ok (x, s')) ∨
      (s.pushExtern e = .error (.trap .allocationTooLarge) ∧
        s.gc.canFitLimit arenaEntryOverhead = false) := by
  unfold pushExtern
  cases hfit : s.gc.canFitLimit e.byteSize with
  | true => exact .inl ⟨_, _, rfl⟩
  | false => exact .inr ⟨rfl, hfit⟩

theorem allocWrapper_total (s : StoreInner) (x : ℕ) :
    (∃ i s', s.allocGcUnreserved (externWrapper x) = .ok (i, s')) ∨
      (s.allocGcUnreserved (externWrapper x) = .error (.trap .allocationTooLarge) ∧
        (s.gc.canFitLimit (objectOverhead + 4) = false ∨ Full s.gc)) := by
  have hsize : (externWrapper x).byteSize = objectOverhead + 4 := by
    show objectOverhead + (leBytes 4 x).length = _
    rw [leBytes_length]
  unfold allocGcUnreserved GcHeap.allocUnreserved
  rw [hsize]
  cases hfit : s.gc.canFitLimit (objectOverhead + 4) with
  | false => exact .inr ⟨rfl, .inl rfl⟩
  | true =>
    rw [if_pos rfl]
    unfold GcHeap.alloc
    by_cases hfull : s.gc.arena.free = [] ∧ nullRef ≤ s.gc.arena.slots.length
    · rw [if_pos hfull]
      exact .inr ⟨rfl, .inr hfull⟩
    · rw [if_neg hfull]
      exact .inl ⟨_, _, rfl⟩

theorem externIndex_lt (h : o.externIndex = some x) : x < 2 ^ 32 := by
  unfold GcObject.externIndex at h
  split at h
  · obtain ⟨bytes, hbytes, rfl⟩ := Option.map_eq_some_iff.mp h
    have hlen : bytes.length ≤ 4 := by
      unfold slice at hbytes
      split at hbytes
      · obtain rfl := Option.some.inj hbytes
        exact List.length_take_le 4 _
      · cases hbytes
    calc leNat bytes < 256 ^ bytes.length := leNat_lt bytes
      _ ≤ 256 ^ 4 := Nat.pow_le_pow_right (by decide) hlen
      _ = 2 ^ 32 := by norm_num
  · cases h
  · cases h

/-- A wrapper that was just made stands for its host reference. -/
theorem allocWrapper_ok (hs : Unnested s) (hx : x < 2 ^ 32)
    (hhost : s.externrefs.get x = some (.host p))
    (h : s.allocGcUnreserved (externWrapper x) = .ok (i, s')) :
    i < nullRef ∧ s'.gc.arena.get i = some (externWrapper x) ∧ s'.hostOf i = some x ∧
      ∀ held, Turned held s s' := by
  have halloc := allocGcUnreserved_ok h
  obtain ⟨hroom, -, hcontents, -⟩ := allocGc_placed halloc
  have hi := (hroom hs.room).2
  have hget : s'.gc.arena.get i = some (externWrapper x) := by
    apply contents_object.mp
    rw [hcontents, if_pos rfl]
  refine ⟨hi, hget, ?_, fun held => .allocGc held halloc (proper_wrapper hhost hx)⟩
  unfold hostOf
  rw [decode_slot hi]
  simp only [hget, Option.bind_some]
  exact externIndex_wrapper hx

theorem anyRoundTrip_wrapper (hs : Unnested s) (hhost : s.hostOf handle = some x) :
    AnyRoundTrip s (some handle) := by
  have hconvert := externConvertAny_wrapper hhost
  refine ⟨.inl ⟨_, _, hconvert⟩, ?_⟩
  intro e s₁ s₂ h hturns
  obtain ⟨he, rfl⟩ := Prod.mk.inj (Except.ok.inj (hconvert.symm.trans h))
  obtain rfl : some x = e := Val.externRef.inj he
  obtain ⟨i, o, -, ho, hkind, hindex⟩ := hostOf_some hhost
  obtain ⟨x', p, hindex', hx⟩ := hs.proper _ _ (contents_object.mpr ho) hkind
  obtain rfl : x' = x := Option.some.inj (hindex'.symm.trans hindex)
  have hlive : s.Live (.extern_ x') := by
    show s.externrefs.get x' ≠ none
    rw [hx]
    exact Option.some_ne_none _
  obtain ⟨hs₂, hkeep, -⟩ := Turns.keeps hs hlive hturns
  have hx₂ := hkeep.externref hx
  rw [anyConvertExtern_host hx₂]
  obtain ⟨j, s₃, halloc⟩ | ⟨hfail, hwhy⟩ := allocWrapper_total s₂ x'
  · left
    obtain ⟨-, -, hhost₃, hturned⟩ := allocWrapper_ok hs₂ (externIndex_lt hindex) hx₂ halloc
    refine ⟨some j, s₃, by rw [halloc]; rfl, ?_⟩
    unfold SameAny
    simp only [hhost]
    have hlive₃ := (hturned (some (.extern_ x'))).kept _ rfl hkeep.live
    exact ⟨⟨j, rfl, hhost₃⟩, hkeep.trans ((hturned none).persists hkeep.live hlive₃)⟩
  · right
    refine ⟨by rw [hfail]; rfl, ⟨handle, rfl, ?_⟩, hwhy⟩
    rw [hhost]
    exact Option.some_ne_none x'

theorem anyRoundTrip_plain (hs : Unnested s) (hres : Resident s (.anyRef (some handle)))
    (hhost : s.hostOf handle = none) : AnyRoundTrip s (some handle) := by
  have hplain := externConvertAny_plain hres hhost
  constructor
  · obtain ⟨x, s₁, hpush⟩ | ⟨hfail, hwhy⟩ := pushExtern_total s (.internal handle)
    · exact .inl ⟨some x, s₁, by rw [hplain, hpush]; rfl⟩
    · exact .inr ⟨by rw [hplain, hfail]; rfl, ⟨handle, rfl, hhost⟩, hwhy⟩
  · intro e s₁ s₂ h hturns
    obtain rfl | ⟨handle', x, hv, -, hpush, hv'⟩ := externConvertAny_ok hres h
    · -- the entry is new, so the store is another
      rw [hplain] at h
      cases hpush : s₁.pushExtern (.internal handle) with
      | error err => simp [hpush, Except.map] at h
      | ok q =>
        rw [hpush] at h
        obtain ⟨-, hsame⟩ := Prod.mk.inj (Except.ok.inj h)
        obtain ⟨-, hempty, hcontents, -⟩ := pushExtern_placed hpush
        have hnow := hcontents (.extern_ q.1)
        rw [if_pos rfl, hsame, hempty] at hnow
        cases hnow
    · obtain rfl : handle = handle' := Option.some.inj (Val.anyRef.inj hv)
      obtain rfl : e = some x := Val.externRef.inj hv'
      have hturned : ∀ held, Turned held s s₁ := fun held =>
        .pushExtern held hpush (hs.proper_internal hres hhost)
      have hs₁ := hs.turned (hturned none)
      obtain ⟨-, -, hcontents, -⟩ := pushExtern_placed hpush
      have hnow := hcontents (.extern_ x)
      rw [if_pos rfl] at hnow
      have hlive : s₁.Live (.extern_ x) := by
        rw [live_iff_contents, hnow]
        exact Option.some_ne_none _
      obtain ⟨hs₂, hkeep, hleans⟩ := Turns.keeps hs₁ hlive hturns
      have hx₂ := hkeep.externref (contents_externref.mp hnow)
      refine .inl ⟨some handle, s₂, anyConvertExtern_internal hx₂, ?_⟩
      unfold SameAny
      simp only [hhost]
      refine ⟨trivial, refEq_self _, ?_⟩
      intro n hn
      cases hdecode : decodeAnyrefHandle handle with
      | i31 payload =>
        simp only [entryOf, hdecode] at hn
        cases hn
      | slot i =>
        rw [entryOf_slot hdecode] at hn
        obtain rfl : Reached.gc i = n := Option.some.inj hn
        have hlive₀ := hres.live (.gc i) (entryOf_slot hdecode)
        have hkept := (hturned (some (.gc i))).kept _ rfl hlive₀
        exact ((hturned none).persists hlive₀ hkept).trans
          (hleans _ _ hnow (.internal hdecode))

theorem anyRoundTrip (hs : Unnested s) {r : Option ℕ} (hres : Resident s (.anyRef r)) :
    AnyRoundTrip s r := by
  cases r with
  | none =>
    refine ⟨.inl ⟨none, s, rfl⟩, ?_⟩
    intro e s₁ s₂ h _
    obtain ⟨he, -⟩ := Prod.mk.inj (Except.ok.inj h)
    obtain rfl : none = e := Val.externRef.inj he
    exact .inl ⟨none, s₂, rfl, rfl⟩
  | some handle =>
    cases hhost : s.hostOf handle with
    | some x => exact anyRoundTrip_wrapper hs hhost
    | none => exact anyRoundTrip_plain hs hres hhost

/-- What an internalized handle stands for is held through the turns, and is no wrapper. -/
theorem internal_held (hs : Unnested s) (hentry : s.externrefs.get x = some (.internal handle))
    {s₂ : StoreInner} (hturns : Turns (entryOf (.anyRef (some handle))) s s₂) :
    Unnested s₂ ∧ Resident s₂ (.anyRef (some handle)) ∧ s₂.hostOf handle = none ∧
      ∀ n ∈ entryOf (.anyRef (some handle)), Persists s s₂ n := by
  have hproper := hs.proper _ _ (contents_externref.mpr hentry)
  cases hdecode : decodeAnyrefHandle handle with
  | i31 payload =>
    have hnone : entryOf (.anyRef (some handle)) = none := by
      simp only [entryOf, hdecode]
    refine ⟨hturns.unnested hs, ⟨?_, fun _ hv => nomatch hv⟩, ?_, ?_⟩
    · rw [hnone]
      exact fun _ hn => nomatch hn
    · simp only [hostOf, hdecode]
    · rw [hnone]
      exact fun _ hn => nomatch hn
  | slot i =>
    rw [entryOf_slot hdecode] at hturns ⊢
    obtain ⟨o, ho, hkind⟩ := hproper i hdecode
    have hlive : s.Live (.gc i) := by
      show s.gc.arena.get i ≠ none
      rw [ho]
      exact Option.some_ne_none o
    obtain ⟨hs₂, hkeep, -⟩ := Turns.keeps hs hlive hturns
    obtain ⟨o', ho', hsame, -⟩ := hkeep.object ho
    refine ⟨hs₂, ⟨?_, fun _ hv => nomatch hv⟩, ?_, ?_⟩
    · intro n hn
      rw [entryOf_slot hdecode] at hn
      obtain rfl : Reached.gc i = n := Option.some.inj hn
      exact hkeep.live
    · simp only [hostOf, hdecode, ho', Option.bind_some]
      unfold GcObject.externIndex
      split
      · rename_i hwrapper
        exact absurd (hsame.symm.trans hwrapper) hkind
      · rfl
      · rfl
    · intro n hn
      obtain rfl : Reached.gc i = n := Option.some.inj hn
      exact hkeep

theorem externRoundTrip_internal (hs : Unnested s)
    (hentry : s.externrefs.get x = some (.internal handle)) : ExternRoundTrip s (some x) := by
  have hinternal : s.internalOf x = some handle := by
    simp only [internalOf, hentry]
  have hconvert := anyConvertExtern_internal hentry
  refine ⟨.inl ⟨_, _, hconvert⟩, ?_⟩
  intro r s₁ s₂ h hturns
  obtain ⟨hr, rfl⟩ := Prod.mk.inj (Except.ok.inj (hconvert.symm.trans h))
  obtain rfl : some handle = r := Val.anyRef.inj hr
  obtain ⟨hs₂, hres₂, hnone₂, hkept⟩ := internal_held hs hentry hturns
  rw [externConvertAny_plain hres₂ hnone₂]
  obtain ⟨x', s₃, hpush⟩ | ⟨hfail, hwhy⟩ := pushExtern_total s₂ (.internal handle)
  · left
    refine ⟨some x', s₃, by rw [hpush]; rfl, ?_⟩
    have hturned : ∀ held, Turned held s₂ s₃ := fun held =>
      .pushExtern held hpush (hs₂.proper_internal hres₂ hnone₂)
    obtain ⟨-, -, hcontents, -⟩ := pushExtern_placed hpush
    have hnow := hcontents (.extern_ x')
    rw [if_pos rfl] at hnow
    unfold SameExtern
    simp only [hinternal]
    refine ⟨⟨x', rfl, ?_⟩, ?_⟩
    · simp only [internalOf, contents_externref.mp hnow]
    · intro n hn
      have hpersists := hkept n hn
      have hlive₃ := (hturned (some n)).kept n rfl hpersists.live
      exact hpersists.trans ((hturned none).persists hpersists.live hlive₃)
  · right
    refine ⟨by rw [hfail]; rfl, ⟨x, rfl, ?_⟩, hwhy⟩
    rw [hinternal]
    exact Option.some_ne_none handle

theorem externRoundTrip_host (hs : Unnested s) (hres : Resident s (.externRef (some x)))
    (hentry : s.externrefs.get x = some (.host p)) : ExternRoundTrip s (some x) := by
  have hx : x < 2 ^ 32 := hres.width x rfl
  have hinternal : s.internalOf x = none := by
    simp only [internalOf, hentry]
  have hhost := anyConvertExtern_host hentry
  constructor
  · obtain ⟨i, s₁, halloc⟩ | ⟨hfail, hwhy⟩ := allocWrapper_total s x
    · exact .inl ⟨some i, s₁, by rw [hhost, halloc]; rfl⟩
    · exact .inr ⟨by rw [hhost, hfail]; rfl, ⟨x, rfl, hinternal⟩, hwhy⟩
  · intro r s₁ s₂ h hturns
    rw [hhost] at h
    cases halloc : s.allocGcUnreserved (externWrapper x) with
    | error err => simp [halloc, Except.map] at h
    | ok q =>
      obtain ⟨i, s'⟩ := q
      rw [halloc] at h
      obtain ⟨hr, rfl⟩ := Prod.mk.inj (Except.ok.inj h)
      obtain rfl : some i = r := Val.anyRef.inj hr
      obtain ⟨hi, hget, -, hturned⟩ := allocWrapper_ok hs hx hentry halloc
      have hs₁ := hs.turned (hturned none)
      rw [entryOf_slot (decode_slot hi)] at hturns
      have hlive : s'.Live (.gc i) := by
        show s'.gc.arena.get i ≠ none
        rw [hget]
        exact Option.some_ne_none _
      obtain ⟨-, hkeep, hleans⟩ := Turns.keeps hs₁ hlive hturns
      obtain ⟨o', ho', -, hsame⟩ := hkeep.object hget
      obtain rfl := hsame rfl
      have hhost₂ : s₂.hostOf i = some x := by
        simp only [hostOf, decode_slot hi, ho', Option.bind_some]
        exact externIndex_wrapper hx
      refine .inl ⟨some x, s₂, externConvertAny_wrapper hhost₂, ?_⟩
      unfold SameExtern
      simp only [hinternal]
      have hlive₀ := hres.live (.extern_ x) rfl
      have hkept := (hturned (some (.extern_ x))).kept _ rfl hlive₀
      exact ⟨trivial, ((hturned none).persists hlive₀ hkept).trans
        (hleans _ _ (contents_object.mpr hget) (.wrapper rfl (externIndex_wrapper hx)))⟩

theorem externRoundTrip (hs : Unnested s) {e : Option ℕ} (hres : Resident s (.externRef e)) :
    ExternRoundTrip s e := by
  cases e with
  | none =>
    refine ⟨.inl ⟨none, s, rfl⟩, ?_⟩
    intro r s₁ s₂ h _
    obtain ⟨hr, -⟩ := Prod.mk.inj (Except.ok.inj h)
    obtain rfl : none = r := Val.anyRef.inj hr
    exact .inl ⟨none, s₂, rfl, rfl⟩
  | some x =>
    obtain ⟨entry, hentry⟩ := Option.ne_none_iff_exists'.mp (hres.live (.extern_ x) rfl)
    cases entry with
    | internal handle => exact externRoundTrip_internal hs hentry
    | host p => exact externRoundTrip_host hs hres hentry

/-- **Conversions are inverse.**  Whatever a store has done, nothing is wrapped twice, and every
reference of it converts there and back, with any number of turns in between that keep what it was
converted to; a conversion fails only where the entry it has to make does not fit. -/
theorem conversions_inverse {engine : TypeRegistry} {collecting : Bool} {reservation : ℕ}
    {held : Option Reached} {s : StoreInner}
    (h : Turns held (StoreInner.new engine collecting reservation) s) :
    Unnested s ∧ (∀ r, Resident s (.anyRef r) → AnyRoundTrip s r) ∧
      ∀ e, Resident s (.externRef e) → ExternRoundTrip s e := by
  have hs := h.unnested (unnested_new engine collecting reservation)
  exact ⟨hs, fun _ hres => anyRoundTrip hs hres, fun _ hres => externRoundTrip hs hres⟩

/-- A store with one host reference. -/
def oneHost : StoreInner :=
  { StoreInner.new .empty true 0 with
    gc := (GcHeap.new true 0).charge arenaEntryOverhead
    externrefs := (ReclaimArena.empty.alloc (.host 7)).2 }

theorem conversions_inverse_oneHost :
    Unnested oneHost ∧ (∀ r, Resident oneHost (.anyRef r) → AnyRoundTrip oneHost r) ∧
      ∀ e, Resident oneHost (.externRef e) → ExternRoundTrip oneHost e :=
  conversions_inverse (.single (.externref (rfl :
    (StoreInner.new .empty true 0).allocExternref 7 = .ok (0, oneHost)) : Turn none _ _))

/-- An array may take all that may be allocated without asking. -/
theorem exists_large : ∃ o : GcObject, o.kind ≠ .extern_ ∧ o.byteSize = 2 ^ 30 := by
  have hlarge : ∀ n, GcObject.byteSize ⟨0, .array, List.replicate n 0⟩ = objectOverhead + n := by
    intro n
    rw [GcObject.byteSize, List.length_replicate]
  refine ⟨⟨0, .array, List.replicate (2 ^ 30 - objectOverhead) 0⟩, ?_, ?_⟩
  · intro hkind
    cases hkind
  · rw [hlarge]
    exact Nat.add_sub_of_le (by decide)

theorem allocGcUnreserved_of_fits (hfits : s.gc.canFitLimit o.byteSize = true)
    (hroom : ¬ Full s.gc) :
    s.allocGcUnreserved o = .ok ((s.gc.arena.alloc o).1, { s with gc := { s.gc with
      arena := (s.gc.arena.alloc o).2
      used := saturatingAdd s.gc.used o.byteSize } }) := by
  have hplace : ¬ (s.gc.arena.free = [] ∧ nullRef ≤ s.gc.arena.slots.length) := hroom
  unfold allocGcUnreserved GcHeap.allocUnreserved
  rw [if_pos hfits]
  unfold GcHeap.alloc
  rw [if_neg hplace]
  rfl

/-- Behind an object that takes all that may be allocated without asking, no entry fits. -/
theorem alloc_brimful (ho : o.byteSize = 2 ^ 30) :
    ∃ i s, (StoreInner.new .empty true 0).allocGcUnreserved o = .ok (i, s) ∧
      s.gc.canFitLimit arenaEntryOverhead = false := by
  have hfits : (StoreInner.new .empty true 0).gc.canFitLimit o.byteSize = true := by
    rw [GcHeap.canFitLimit_iff, ho]
    decide
  have hroom : ¬ Full (StoreInner.new .empty true 0).gc := by
    rintro ⟨-, hfull⟩
    exact absurd hfull (by decide)
  refine ⟨_, _, allocGcUnreserved_of_fits hfits hroom, ?_⟩
  rw [Bool.eq_false_iff, ne_eq, GcHeap.canFitLimit_iff, ho]
  have hnumbers : ¬ saturatingAdd 0 (2 ^ 30) + arenaEntryOverhead ≤
      max (max 0 (min 0 abortSafetyCap)) abortSafetyCap := by
    decide
  rintro ⟨-, hle⟩
  exact hnumbers hle

theorem not_always_converts :
    ¬ ∀ (engine : TypeRegistry) (collecting : Bool) (reservation : ℕ) (s : StoreInner),
      Turns none (StoreInner.new engine collecting reservation) s →
      ∀ r, Resident s (.anyRef r) →
        ∃ e s₁, s.externConvertAny (.anyRef r) = .ok (.externRef e, s₁) := by
  intro hall
  obtain ⟨o, hkind, hsize⟩ := exists_large
  obtain ⟨i, s, halloc, hbrimful⟩ := alloc_brimful hsize
  have hres : Resident s (.anyRef (some i31Tag)) := by
    have hnone : entryOf (.anyRef (some i31Tag)) = none := by decide
    refine ⟨?_, fun _ hv => nomatch hv⟩
    rw [hnone]
    exact fun _ hn => nomatch hn
  have hturns : Turns none (StoreInner.new .empty true 0) s := .single (.unreserved hkind halloc)
  obtain ⟨e, s₁, hok⟩ := hall .empty true 0 s hturns (some i31Tag) hres
  have hnone : s.hostOf i31Tag = none := by
    have hdecode : decodeAnyrefHandle i31Tag = .i31 0 := by decide
    unfold hostOf
    rw [hdecode]
  rw [externConvertAny_plain hres hnone, pushExtern, if_neg] at hok
  · cases hok
  · rw [Bool.not_eq_true]
    exact hbrimful

end StoreInner

end SubmilliWasm
