/-
# The mark-sweep collector

`collect` of `src/store/gc_collect.rs`: one worklist traces the object heap, the externref
arena and the exception arena together, with a bitmap for the objects and two sets for the
other arenas, and three sweeps free what was not visited.

What is reachable is defined apart from the tracer, by the values the interpreter reads out
of fields and elements (`Points`) and by the places the roots are held in (`IsRoot`).
-/
import SubmilliWasm.Lib.Worklist
import SubmilliWasm.Store.Heap

namespace SubmilliWasm

open Slots Worklist

/-! ## Seeding -/

/-- A referent pending trace. -/
inductive Reached where
  | gc (i : ℕ)
  | extern_ (i : ℕ)
  | exn (i : ℕ)
  deriving DecidableEq, Repr

inductive InternalError where
  | gcMetadata (msg : String)
  deriving DecidableEq, Repr

/-- What a raw handle pushes: nothing for null, an `i31` or a function. -/
def seedHandle (handle : ℕ) (kind : RefKind) : List Reached :=
  if handle = nullRef then []
  else
    match kind with
    | .func => []
    | .any =>
      match decodeAnyrefHandle handle with
      | .slot i => [.gc i]
      | .i31 _ => []
    | .extern_ => [.extern_ handle]
    | .exn => [.exn handle]

def seedVal : Val → List Reached
  | .externRef (some r) => seedHandle r .extern_
  | .anyRef (some r) => seedHandle r .any
  | .exnRef (some r) => seedHandle r .exn
  | _ => []

def seedRef : Ref → List Reached
  | .extern_ (some r) => seedHandle r .extern_
  | .any (some r) => seedHandle r .any
  | .exn (some r) => seedHandle r .exn
  | _ => []

def seedSlot (slot : Slot) (data : List UInt8) : Except InternalError (List Reached) :=
  match slot with
  | .scalar _ _ => .ok []
  | .ref offset kind =>
    match slice data offset 4 with
    | none => .error (.gcMetadata "reference slot exceeds object body")
    | some bytes => .ok (seedHandle (leNat bytes) kind)

/-- Seeds from a list of slots, in order. -/
def seedSlots (data : List UInt8) : List Slot → Except InternalError (List Reached)
  | [] => .ok []
  | slot :: slots => do
    let here ← seedSlot slot data
    let rest ← seedSlots data slots
    return here ++ rest

/-! ## Tracing one entry -/

def arraySlots (layout : ArrayLayout) (len : ℕ) : List Slot := (List.range len).map layout.elemAt

def StoreInner.traceGc (s : StoreInner) (index : ℕ) : Except InternalError (List Reached) :=
  match s.gc.arena.get index with
  | none => .error (.gcMetadata "marked GC object is missing")
  | some obj =>
    match obj.kind with
    | .struct =>
      match s.engine.structFields obj.typeId with
      | none => .error (.gcMetadata "struct type metadata is missing")
      | some fields => seedSlots obj.data (Layout.forStruct fields).fields
    | .array =>
      match s.engine.arrayField obj.typeId with
      | none => .error (.gcMetadata "array type metadata is missing")
      | some field =>
        let layout := Layout.forArray field
        if layout.stride = 0 ∨ obj.data.length % layout.stride ≠ 0 then
          .error (.gcMetadata "array body does not match its element layout")
        else seedSlots obj.data (arraySlots layout (obj.arrayLen layout.stride))
    | .extern_ =>
      match obj.externIndex with
      | none => .error (.gcMetadata "extern wrapper body is truncated")
      | some idx => .ok [.extern_ idx]

def StoreInner.traceExtern (s : StoreInner) (index : ℕ) : Except InternalError (List Reached) :=
  match s.externrefs.get index with
  | none => .error (.gcMetadata "dangling externref root")
  | some (.internal handle) => .ok (seedHandle handle .any)
  | some (.host _) => .ok []

def StoreInner.traceExn (s : StoreInner) (index : ℕ) : Except InternalError (List Reached) :=
  match s.exns.get index with
  | none => .error (.gcMetadata "dangling exception root")
  | some exn => .ok (exn.args.flatMap seedVal)

/-! ## The mark bitmap -/

/-- Whether bit `i` is set in the words of the bitmap. -/
def marked (marks : List ℕ) (i : ℕ) : Bool := (marks.getD (i / 64) 0).testBit (i % 64)

/-- Sets bit `i`, growing the bitmap if its word is not there yet. -/
def setMark (marks : List ℕ) (i : ℕ) : List ℕ :=
  let marks := if marks.length ≤ i / 64 then
    marks ++ List.replicate (i / 64 + 1 - marks.length) 0 else marks
  marks.set (i / 64) (marks.getD (i / 64) 0 ||| 2 ^ (i % 64))

theorem getD_append_replicate (marks : List ℕ) (k w : ℕ) :
    (marks ++ List.replicate k 0).getD w 0 = marks.getD w 0 := by
  rw [List.getD_eq_getElem?_getD, List.getD_eq_getElem?_getD]
  by_cases hw : w < marks.length
  · rw [List.getElem?_append_left hw]
  · rw [List.getElem?_append_right (by omega), List.getElem?_replicate,
      List.getElem?_eq_none (by omega)]
    split <;> rfl

theorem marked_setMark (marks : List ℕ) (i j : ℕ) :
    marked (setMark marks i) j = (decide (j = i) || marked marks j) := by
  unfold marked setMark
  -- The words are those of the grown bitmap, which reads like the old one.
  set grown := if marks.length ≤ i / 64 then
    marks ++ List.replicate (i / 64 + 1 - marks.length) 0 else marks with hgrown
  have hread : ∀ w, grown.getD w 0 = marks.getD w 0 := by
    intro w
    rw [hgrown]
    split
    · exact getD_append_replicate marks _ w
    · rfl
  have hlen : i / 64 < grown.length := by
    rw [hgrown]
    split
    · rw [List.length_append, List.length_replicate]
      omega
    · omega
  simp only [List.getD_eq_getElem?_getD, List.getElem?_set] at hread ⊢
  by_cases hw : i / 64 = j / 64
  · rw [if_pos hw, if_pos hlen, Option.getD_some, Nat.testBit_or, Nat.testBit_two_pow, hread, hw]
    have : (i % 64 = j % 64) ↔ j = i := by
      constructor <;> intro h <;> omega
    rw [Bool.or_comm]
    simp [this]
  · have : j ≠ i := by
      rintro rfl
      exact hw rfl
    rw [if_neg hw, hread]
    simp [this]

/-! ## The trace and the collection -/

/-- The marks of the object heap and the two visited sets. -/
structure Tracing where
  marks : List ℕ
  externSeen : Finset ℕ
  exnSeen : Finset ℕ

def Tracing.start : Tracing := ⟨[], ∅, ∅⟩

/-- One iteration of `trace_reachable`. -/
def StoreInner.traceStep (s : StoreInner) (t : Tracing) :
    Reached → Except InternalError (List Reached × Tracing)
  | .gc i =>
    match s.gc.arena.get i with
    | none => .error (.gcMetadata "dangling GC root")
    | some _ =>
      if marked t.marks i then .ok ([], t)
      else do
        let pushed ← s.traceGc i
        return (pushed, { t with marks := setMark t.marks i })
  | .extern_ i =>
    if i ∈ t.externSeen then .ok ([], t)
    else do
      let pushed ← s.traceExtern i
      return (pushed, { t with externSeen := insert i t.externSeen })
  | .exn i =>
    if i ∈ t.exnSeen then .ok ([], t)
    else do
      let pushed ← s.traceExn i
      return (pushed, { t with exnSeen := insert i t.exnSeen })

/-- The roots held in the store, in the order they are pushed. -/
def StoreInner.seedEntityRoots (s : StoreInner) : List Reached :=
  s.globals.flatMap seedVal ++
  s.tables.flatMap (fun t => t.flatMap seedRef) ++
  s.elems.flatMap (fun inst => inst.flatMap fun seg => seg.flatMap seedRef) ++
  (s.pendingException.map Reached.exn).toList ++
  s.gcRoots.flatMap fun p => seedHandle p.1 p.2

/-- The initial worklist: the last root pushed is the first one popped. -/
def StoreInner.initialWork (s : StoreInner) (stackRoots : List (ℕ × RefKind)) : List Reached :=
  ((stackRoots.flatMap fun p => seedHandle p.1 p.2) ++ s.seedEntityRoots).reverse

/-- The number of references out of an entry. -/
def StoreInner.degree (s : StoreInner) (n : Reached) : ℕ :=
  match (match n with
    | .gc i => s.traceGc i
    | .extern_ i => s.traceExtern i
    | .exn i => s.traceExn i) with
  | .ok pushed => pushed.length
  | .error _ => 0

/-- All indices of the three arenas. -/
def StoreInner.nodes (s : StoreInner) : List Reached :=
  (List.range s.gc.arena.slots.length).map Reached.gc ++
  ((List.range s.externrefs.slots.length).map Reached.extern_ ++
  (List.range s.exns.slots.length).map Reached.exn)

/-- Enough iterations: the initial list and one for each reference in the arenas. -/
def StoreInner.traceFuel (s : StoreInner) (work : List Reached) : ℕ :=
  work.length + (s.nodes.map s.degree).sum

def StoreInner.traceReachable (s : StoreInner) (work : List Reached) :
    Option (Except InternalError Tracing) :=
  Worklist.run s.traceStep (s.traceFuel work) Tracing.start work

/-- Frees what the trace did not visit, crediting the bytes back to the shared budget. -/
def StoreInner.sweepAll (s : StoreInner) (t : Tracing) : StoreInner :=
  let (externrefs, freedExtern) := s.externrefs.sweep (· ∈ t.externSeen) ExternEntry.byteSize
  let (exns, freedExn) := s.exns.sweep (· ∈ t.exnSeen) ExnEntity.byteSize
  let (arena, freedGc) := s.gc.arena.sweep (marked t.marks) GcObject.byteSize
  { s with
    externrefs
    exns
    gc := { s.gc with arena, used := s.gc.used - freedExtern - freedExn - freedGc } }

/-- One collection; a failed trace leaves the store as it was. -/
def StoreInner.collect (s : StoreInner) (stackRoots : List (ℕ × RefKind)) :
    Option (Except InternalError StoreInner) :=
  if s.gc.collecting = false then some (.ok s)
  else
    match s.traceReachable (s.initialWork stackRoots) with
    | none => none
    | some (.error e) => some (.error e)
    | some (.ok t) => some (.ok (s.sweepAll t))

/-! ## What is reachable -/

/-- The managed entry a handle of hierarchy `kind` names; `nullRef` is null in every hierarchy. -/
def handleReferent (kind : RefKind) (handle : ℕ) : Option Reached :=
  if handle = nullRef then none
  else
    match kind with
    | .func => none
    | .any =>
      match decodeAnyrefHandle handle with
      | .slot i => some (.gc i)
      | .i31 _ => none
    | .extern_ => some (.extern_ handle)
    | .exn => some (.exn handle)

/-- The managed entry a value refers to. -/
def Val.referent : Val → Option Reached
  | .externRef r => r.bind (handleReferent .extern_)
  | .anyRef r => r.bind (handleReferent .any)
  | .exnRef r => r.bind (handleReferent .exn)
  | _ => none

def Ref.toVal : Ref → Val
  | .func r => .funcRef r
  | .extern_ r => .externRef r
  | .any r => .anyRef r
  | .exn r => .exnRef r

/-- `n` holds a reference to `m`: in a field or an element, as an extern wrapper or an
internalized `anyref`, or in an exception's payload. -/
inductive Points (s : StoreInner) : Reached → Reached → Prop where
  | field {i : ℕ} {obj : GcObject} {fields : List FieldType} {slot : Slot} {v : Val} {m : Reached} :
      s.gc.arena.get i = some obj → obj.kind = .struct →
      s.engine.structFields obj.typeId = some fields → slot ∈ (Layout.forStruct fields).fields →
      readSlot slot obj.data = some v → v.referent = some m → Points s (.gc i) m
  | elem {i k : ℕ} {obj : GcObject} {field : FieldType} {v : Val} {m : Reached} :
      s.gc.arena.get i = some obj → obj.kind = .array →
      s.engine.arrayField obj.typeId = some field →
      k < obj.arrayLen (Layout.forArray field).stride →
      readSlot ((Layout.forArray field).elemAt k) obj.data = some v → v.referent = some m →
      Points s (.gc i) m
  | wrapper {i e : ℕ} {obj : GcObject} :
      s.gc.arena.get i = some obj → obj.externIndex = some e → Points s (.gc i) (.extern_ e)
  | internal {i h : ℕ} {m : Reached} :
      s.externrefs.get i = some (.internal h) → handleReferent .any h = some m →
      Points s (.extern_ i) m
  | arg {i : ℕ} {exn : ExnEntity} {v : Val} {m : Reached} :
      s.exns.get i = some exn → v ∈ exn.args → v.referent = some m → Points s (.exn i) m

/-- The places that keep an entry alive. -/
inductive IsRoot (s : StoreInner) (stackRoots : List (ℕ × RefKind)) : Reached → Prop where
  | stack {h : ℕ} {kind : RefKind} {m : Reached} :
      (h, kind) ∈ stackRoots → handleReferent kind h = some m → IsRoot s stackRoots m
  | global {v : Val} {m : Reached} :
      v ∈ s.globals → v.referent = some m → IsRoot s stackRoots m
  | table {t : List Ref} {r : Ref} {m : Reached} :
      t ∈ s.tables → r ∈ t → r.toVal.referent = some m → IsRoot s stackRoots m
  | element {inst : List (List Ref)} {seg : List Ref} {r : Ref} {m : Reached} :
      inst ∈ s.elems → seg ∈ inst → r ∈ seg → r.toVal.referent = some m →
      IsRoot s stackRoots m
  | pending {e : ℕ} : s.pendingException = some e → IsRoot s stackRoots (.exn e)
  | host {h : ℕ} {kind : RefKind} {m : Reached} :
      (h, kind) ∈ s.gcRoots → handleReferent kind h = some m → IsRoot s stackRoots m

/-- Reachable from the roots. -/
inductive Reachable (s : StoreInner) (stackRoots : List (ℕ × RefKind)) : Reached → Prop where
  | root {m : Reached} : IsRoot s stackRoots m → Reachable s stackRoots m
  | step {n m : Reached} : Reachable s stackRoots n → Points s n m → Reachable s stackRoots m

/-! ## The tracer follows exactly these edges -/

variable {stackRoots : List (ℕ × RefKind)} {pushed : List Reached} {m n : Reached} {s : StoreInner}
  {t : Tracing}

theorem mem_seedHandle {handle : ℕ} {kind : RefKind} :
    m ∈ seedHandle handle kind ↔ handleReferent kind handle = some m := by
  unfold seedHandle handleReferent
  by_cases hn : handle = nullRef
  · simp [hn]
  · cases kind <;> simp only [hn, if_false]
    · simp
    · simp [eq_comm]
    · cases decodeAnyrefHandle handle <;> simp [eq_comm]
    · simp [eq_comm]

theorem mem_seedVal {v : Val} : m ∈ seedVal v ↔ v.referent = some m := by
  cases v with
  | externRef r => cases r <;> simp [seedVal, Val.referent, mem_seedHandle]
  | anyRef r => cases r <;> simp [seedVal, Val.referent, mem_seedHandle]
  | exnRef r => cases r <;> simp [seedVal, Val.referent, mem_seedHandle]
  | _ => simp [seedVal, Val.referent]

theorem mem_seedRef {r : Ref} : m ∈ seedRef r ↔ r.toVal.referent = some m := by
  cases r with
  | func r => simp [seedRef, Ref.toVal, Val.referent]
  | extern_ r => cases r <;> simp [seedRef, Ref.toVal, Val.referent, mem_seedHandle]
  | any r => cases r <;> simp [seedRef, Ref.toVal, Val.referent, mem_seedHandle]
  | exn r => cases r <;> simp [seedRef, Ref.toVal, Val.referent, mem_seedHandle]

theorem referent_readScalar (kind : ScalarKind) (b : List UInt8) :
    (readScalar kind b).referent = none := by
  cases kind <;> rfl

theorem referent_readRef (kind : RefKind) (h : ℕ) :
    (readRef kind h).referent = handleReferent kind h := by
  unfold readRef
  by_cases hn : h = nullRef
  · rw [if_pos hn]
    cases kind <;> simp [refVal, Val.referent, handleReferent, hn]
  · rw [if_neg hn]
    cases kind <;> simp [refVal, Val.referent, handleReferent, hn]

/-- A slot seeds what the interpreter would read there refers to. -/
theorem seedSlot_mem {slot : Slot} {data : List UInt8} (h : seedSlot slot data = .ok pushed)
    (m : Reached) : m ∈ pushed ↔ ∃ v, readSlot slot data = some v ∧ v.referent = some m := by
  cases slot with
  | scalar offset kind =>
    obtain rfl : [] = pushed := by simpa [seedSlot] using h
    simp only [List.not_mem_nil, false_iff, readSlot, not_exists, not_and]
    intro v hv
    obtain ⟨b, -, rfl⟩ := Option.map_eq_some_iff.mp hv
    rw [referent_readScalar]
    simp
  | ref offset kind =>
    unfold seedSlot at h
    have hw : refWidth = 4 := rfl
    cases hb : slice data offset 4 with
    | none => simp [hb] at h
    | some bytes =>
      simp only [hb, Except.ok.injEq] at h
      subst h
      rw [mem_seedHandle, readSlot, hw, hb, ← referent_readRef]
      simp

theorem seedSlots_mem {slots : List Slot} {data : List UInt8}
    (h : seedSlots data slots = .ok pushed) (m : Reached) :
    m ∈ pushed ↔ ∃ slot ∈ slots, ∃ v, readSlot slot data = some v ∧ v.referent = some m := by
  induction slots generalizing pushed with
  | nil =>
    obtain rfl : [] = pushed := by simpa [seedSlots] using h
    simp
  | cons slot slots ih =>
    rw [seedSlots] at h
    cases h1 : seedSlot slot data with
    | error e => simp [h1, bind, Except.bind] at h
    | ok here =>
      cases h2 : seedSlots data slots with
      | error e => simp [h1, h2, bind, Except.bind] at h
      | ok rest =>
        simp only [h1, h2, bind, Except.bind, pure, Except.pure, Except.ok.injEq] at h
        subst h
        rw [List.mem_append, seedSlot_mem h1, ih h2]
        simp

section

variable {s : StoreInner}

variable {pushed : List Reached}

/-- Tracing an object pushes what its fields or elements point to. -/
theorem traceGc_mem {i : ℕ} (h : s.traceGc i = .ok pushed) (m : Reached) :
    m ∈ pushed ↔ Points s (.gc i) m := by
  unfold StoreInner.traceGc at h
  cases ho : s.gc.arena.get i with
  | none => simp [ho] at h
  | some obj =>
    simp only [ho] at h
    cases hk : obj.kind with
    | struct =>
      simp only [hk] at h
      cases hf : s.engine.structFields obj.typeId with
      | none => simp [hf] at h
      | some fields =>
        simp only [hf] at h
        rw [seedSlots_mem h]
        constructor
        · rintro ⟨slot, hslot, v, hv, hm⟩
          exact Points.field ho hk hf hslot hv hm
        · intro hp
          cases hp with
          | field ho' hk' hf' hslot hv hm =>
            rw [ho] at ho'
            obtain rfl := Option.some.inj ho'
            rw [hf] at hf'
            obtain rfl := Option.some.inj hf'
            exact ⟨_, hslot, _, hv, hm⟩
          | elem ho' hk' =>
            rw [ho] at ho'
            rw [← Option.some.inj ho', hk] at hk'
            cases hk'
          | wrapper ho' he =>
            rw [ho] at ho'
            obtain rfl := Option.some.inj ho'
            simp [GcObject.externIndex, hk] at he
    | array =>
      simp only [hk] at h
      cases hf : s.engine.arrayField obj.typeId with
      | none => simp [hf] at h
      | some field =>
        simp only [hf] at h
        split at h
        · cases h
        · rw [seedSlots_mem h]
          constructor
          · rintro ⟨slot, hslot, v, hv, hm⟩
            obtain ⟨k, hk', rfl⟩ := List.mem_map.mp hslot
            exact Points.elem ho hk hf (List.mem_range.mp hk') hv hm
          · intro hp
            cases hp with
            | field ho' hk' =>
              rw [ho] at ho'
              rw [← Option.some.inj ho', hk] at hk'
              cases hk'
            | elem ho' hk' hf' hlt hv hm =>
              rw [ho] at ho'
              obtain rfl := Option.some.inj ho'
              rw [hf] at hf'
              obtain rfl := Option.some.inj hf'
              exact ⟨_, List.mem_map_of_mem (List.mem_range.mpr hlt), _, hv, hm⟩
            | wrapper ho' he =>
              rw [ho] at ho'
              obtain rfl := Option.some.inj ho'
              simp [GcObject.externIndex, hk] at he
    | extern_ =>
      simp only [hk] at h
      cases he : obj.externIndex with
      | none => simp [he] at h
      | some e =>
        simp only [he, Except.ok.injEq] at h
        subst h
        rw [List.mem_singleton]
        constructor
        · rintro rfl
          exact Points.wrapper ho he
        · intro hp
          cases hp with
          | field ho' hk' =>
            rw [ho] at ho'
            rw [← Option.some.inj ho', hk] at hk'
            cases hk'
          | elem ho' hk' =>
            rw [ho] at ho'
            rw [← Option.some.inj ho', hk] at hk'
            cases hk'
          | wrapper ho' he' =>
            rw [ho] at ho'
            obtain rfl := Option.some.inj ho'
            rw [he] at he'
            rw [Option.some.inj he']

theorem traceExtern_mem {i : ℕ} (h : s.traceExtern i = .ok pushed) (m : Reached) :
    m ∈ pushed ↔ Points s (.extern_ i) m := by
  unfold StoreInner.traceExtern at h
  cases he : s.externrefs.get i with
  | none => simp [he] at h
  | some entry =>
    cases entry with
    | host payload =>
      simp only [he, Except.ok.injEq] at h
      subst h
      simp only [List.not_mem_nil, false_iff]
      intro hp
      cases hp with
      | internal he' =>
        rw [he] at he'
        cases he'
    | internal handle =>
      simp only [he, Except.ok.injEq] at h
      subst h
      rw [mem_seedHandle]
      constructor
      · exact Points.internal he
      · intro hp
        cases hp with
        | internal he' hm =>
          rw [he] at he'
          cases he'
          exact hm

theorem traceExn_mem {i : ℕ} (h : s.traceExn i = .ok pushed) (m : Reached) :
    m ∈ pushed ↔ Points s (.exn i) m := by
  unfold StoreInner.traceExn at h
  cases he : s.exns.get i with
  | none => simp [he] at h
  | some exn =>
    simp only [he, Except.ok.injEq] at h
    subst h
    rw [List.mem_flatMap]
    constructor
    · rintro ⟨v, hv, hm⟩
      exact Points.arg he hv (mem_seedVal.mp hm)
    · intro hp
      cases hp with
      | arg he' hv hm =>
        rw [he] at he'
        obtain rfl := Option.some.inj he'
        exact ⟨_, hv, mem_seedVal.mpr hm⟩

/-- The worklist starts with exactly the roots. -/
theorem mem_initialWork {stackRoots : List (ℕ × RefKind)} {m : Reached} :
    m ∈ s.initialWork stackRoots ↔ IsRoot s stackRoots m := by
  simp only [StoreInner.initialWork, StoreInner.seedEntityRoots, List.mem_reverse,
    List.mem_append, List.mem_flatMap, mem_seedHandle, mem_seedVal, mem_seedRef, Prod.exists,
    Option.mem_toList, Option.map_eq_some_iff]
  constructor
  · rintro (⟨h, k, hm, hr⟩ | ((((⟨v, hv, hr⟩ | ⟨t, ht, r, hrt, hr⟩) |
      ⟨inst, hi, seg, hs, r, hrs, hr⟩) | ⟨e, he, rfl⟩) | ⟨h, k, hm, hr⟩))
    · exact IsRoot.stack hm hr
    · exact IsRoot.global hv hr
    · exact IsRoot.table ht hrt hr
    · exact IsRoot.element hi hs hrs hr
    · exact IsRoot.pending he
    · exact IsRoot.host hm hr
  · intro h
    cases h with
    | stack hm hr => exact Or.inl ⟨_, _, hm, hr⟩
    | global hv hr => exact Or.inr (Or.inl (Or.inl (Or.inl (Or.inl ⟨_, hv, hr⟩))))
    | table ht hrt hr => exact Or.inr (Or.inl (Or.inl (Or.inl (Or.inr ⟨_, ht, _, hrt, hr⟩))))
    | element hi hs hrs hr =>
      exact Or.inr (Or.inl (Or.inl (Or.inr ⟨_, hi, _, hs, _, hrs, hr⟩)))
    | pending he => exact Or.inr (Or.inl (Or.inr ⟨_, he, rfl⟩))
    | host hm hr => exact Or.inr (Or.inr ⟨_, _, hm, hr⟩)

end

/-! ## The trace is exact -/

/-- Whether the trace has visited an entry. -/
def Tracing.seen (t : Tracing) : Reached → Prop
  | .gc i => marked t.marks i = true
  | .extern_ i => i ∈ t.externSeen
  | .exn i => i ∈ t.exnSeen

theorem Tracing.seen_start (n : Reached) : ¬ Tracing.start.seen n := by
  cases n <;> simp [Tracing.seen, Tracing.start, marked]

/-- An entry is visited once: a step skips it, or its references are read and it is recorded. -/
theorem visit_ok {c : Prop} [Decidable c] {x : Except InternalError (List Reached)}
    {t u t' : Tracing}
    (h : (if c then .ok ([], t) else x.bind fun pushed => .ok (pushed, u)) = .ok (pushed, t')) :
    (c ∧ pushed = [] ∧ t' = t) ∨ (¬ c ∧ x = .ok pushed ∧ t' = u) := by
  split at h
  · cases h
    exact Or.inl ⟨‹c›, rfl, rfl⟩
  · cases x with
    | error e => cases h
    | ok p =>
      cases h
      exact Or.inr ⟨‹¬ c›, rfl, rfl⟩

/-- What one successful iteration does: nothing at a visited entry, else the entry is live, its
references are pushed and it is recorded. -/
theorem traceStep_cases {t' : Tracing} (h : s.traceStep t n = .ok (pushed, t')) :
    (t.seen n ∧ pushed = [] ∧ t' = t) ∨
    (¬ t.seen n ∧ (∀ m, m ∈ pushed ↔ Points s n m) ∧ pushed.length = s.degree n ∧
      ∀ m, t'.seen m ↔ t.seen m ∨ m = n) := by
  cases n with
  | gc i =>
    simp only [StoreInner.traceStep] at h
    cases ho : s.gc.arena.get i with
    | none => simp [ho] at h
    | some obj =>
      simp only [ho] at h
      refine (visit_ok h).imp_right fun ⟨hm, ht, hu⟩ =>
        ⟨hm, traceGc_mem ht, by simp [StoreInner.degree, ht], fun m => ?_⟩
      rw [hu]
      cases m <;> simp [Tracing.seen, marked_setMark, or_comm]
  | extern_ i =>
    refine (visit_ok h).imp_right fun ⟨hm, ht, hu⟩ =>
      ⟨hm, traceExtern_mem ht, by simp [StoreInner.degree, ht], fun m => ?_⟩
    rw [hu]
    cases m <;> simp [Tracing.seen, or_comm]
  | exn i =>
    refine (visit_ok h).imp_right fun ⟨hm, ht, hu⟩ =>
      ⟨hm, traceExn_mem ht, by simp [StoreInner.degree, ht], fun m => ?_⟩
    rw [hu]
    cases m <;> simp [Tracing.seen, or_comm]

theorem traces (s : StoreInner) : Traces s.traceStep Tracing.seen (Points s) where
  skip := by
    intro t n pushed t' h hn
    rcases traceStep_cases h with ⟨-, hp, rfl⟩ | ⟨hno, -⟩
    · exact ⟨hp, fun _ => Iff.rfl⟩
    · exact absurd hn hno
  visit := by
    intro t n pushed t' h hn
    rcases traceStep_cases h with ⟨hyes, -⟩ | ⟨-, hp, -, hs⟩
    · exact absurd hyes hn
    · exact ⟨hp, hs⟩

theorem reachable_iff_reach :
    Reachable s stackRoots n ↔ Reach (Points s) (s.initialWork stackRoots) n := by
  constructor
  · intro h
    induction h with
    | root hr => exact Reach.root (mem_initialWork.mpr hr)
    | step _ hp ih => exact Reach.step ih hp
  · intro h
    induction h with
    | root hr => exact Reachable.root (mem_initialWork.mp hr)
    | step _ hp ih => exact Reachable.step ih hp

/-- The trace visits exactly the reachable entries. -/
theorem traceReachable_seen (h : s.traceReachable (s.initialWork stackRoots) = some (.ok t))
    (n : Reached) : t.seen n ↔ Reachable s stackRoots n := by
  rw [reachable_iff_reach]
  exact run_seen_iff (traces s) Tracing.seen_start h n

/-! ## The trace ends -/

/-- Whether an index is occupied in its arena. -/
def StoreInner.Live (s : StoreInner) : Reached → Prop
  | .gc i => s.gc.arena.get i ≠ none
  | .extern_ i => s.externrefs.get i ≠ none
  | .exn i => s.exns.get i ≠ none

theorem StoreInner.Live.mem_nodes (h : s.Live n) : n ∈ s.nodes := by
  have hlt : ∀ {α : Type} (l : List (Option α)) (i : ℕ), entry l i ≠ none → i < l.length := by
    intro α l i hi
    obtain ⟨a, ha⟩ := Option.ne_none_iff_exists'.mp hi
    exact lt_length_of_entry ha
  cases n with
  | gc i => simpa [StoreInner.nodes] using hlt _ i h
  | extern_ i => simpa [StoreInner.nodes] using hlt _ i h
  | exn i => simpa [StoreInner.nodes] using hlt _ i h

/-- Only live entries are visited; anything else fails the trace. -/
theorem traceStep_live {t' : Tracing} (h : s.traceStep t n = .ok (pushed, t')) (hn : ¬ t.seen n) :
    s.Live n := by
  cases n with
  | gc i =>
    show s.gc.arena.get i ≠ none
    intro hnone
    simp [StoreInner.traceStep, hnone] at h
  | extern_ i =>
    show s.externrefs.get i ≠ none
    intro hnone
    have hn : i ∉ t.externSeen := hn
    simp [StoreInner.traceStep, hn, StoreInner.traceExtern, hnone, bind, Except.bind] at h
  | exn i =>
    show s.exns.get i ≠ none
    intro hnone
    have hn : i ∉ t.exnSeen := hn
    simp [StoreInner.traceStep, hn, StoreInner.traceExn, hnone, bind, Except.bind] at h

theorem nodes_nodup (s : StoreInner) : s.nodes.Nodup := by
  have hrange : ∀ (f : ℕ → Reached) (n : ℕ), Function.Injective f →
      ((List.range n).map f).Nodup := fun f n hf => List.nodup_range.map hf
  unfold StoreInner.nodes
  rw [List.nodup_append, List.nodup_append]
  refine ⟨hrange _ _ fun a b h => by cases h; rfl,
    ⟨hrange _ _ fun a b h => by cases h; rfl, hrange _ _ fun a b h => by cases h; rfl, ?_⟩, ?_⟩
  · intro a ha b hb
    simp only [List.mem_map] at ha hb
    obtain ⟨i, -, rfl⟩ := ha
    obtain ⟨j, -, rfl⟩ := hb
    simp
  · intro a ha b hb
    simp only [List.mem_append, List.mem_map] at ha hb
    obtain ⟨i, -, rfl⟩ := ha
    rcases hb with ⟨j, -, rfl⟩ | ⟨j, -, rfl⟩ <;> simp

/-- The fuel the collector is given is always enough. -/
theorem traceReachable_ne_none (s : StoreInner) (work : List Reached) :
    s.traceReachable work ≠ none := by
  apply run_ne_none (traces s) (d := s.degree) (a := s.nodes.toFinset)
  · intro t n pushed t' h hn
    rcases traceStep_cases h with ⟨hyes, -⟩ | ⟨-, -, hlen, -⟩
    · exact absurd hyes hn
    · exact ⟨List.mem_toFinset.mpr (traceStep_live h hn).mem_nodes, hlen.le⟩
  · have hle := pending_le Tracing.seen s.degree s.nodes.toFinset Tracing.start
    rw [List.sum_toFinset s.degree (nodes_nodup s)] at hle
    unfold StoreInner.traceFuel
    omega

theorem collect_ne_none (s : StoreInner) (stackRoots : List (ℕ × RefKind)) :
    s.collect stackRoots ≠ none := by
  unfold StoreInner.collect
  split
  · simp
  · have := traceReachable_ne_none s (s.initialWork stackRoots)
    cases h : s.traceReachable (s.initialWork stackRoots) with
    | none => exact absurd h this
    | some r => cases r <;> simp

/-- Everything a successful trace has visited is live. -/
theorem traceReachable_live {work : List Reached} (h : s.traceReachable work = some (.ok t))
    (n : Reached) (hn : t.seen n) : s.Live n := by
  refine run_preserves (P := fun t : Tracing => ∀ n, t.seen n → s.Live n) ?_ _ ?_ h n hn
  · intro t m pushed t' ht hstep k hk
    rcases traceStep_cases hstep with ⟨-, -, rfl⟩ | ⟨hm, -, -, hs⟩
    · exact ht k hk
    · rcases (hs k).mp hk with hk | rfl
      · exact ht k hk
      · exact traceStep_live hstep hm
  · exact fun n hn => absurd hn (Tracing.seen_start n)

/-! ## Collections are exact -/

/-- What an entry holds. -/
inductive Contents where
  | object (o : GcObject)
  | extern_ (e : ExternEntry)
  | exn (e : ExnEntity)

def StoreInner.contents (s : StoreInner) : Reached → Option Contents
  | .gc i => (s.gc.arena.get i).map .object
  | .extern_ i => (s.externrefs.get i).map .extern_
  | .exn i => (s.exns.get i).map .exn

def StoreInner.generation (s : StoreInner) : Reached → Option ℕ
  | .gc i => s.gc.arena.generation i
  | .extern_ i => s.externrefs.generation i
  | .exn i => s.exns.generation i

/-- What a collection is for: the survivors are the reachable entries, unchanged and at their
index; every other live entry is gone and its generation advanced once; the free lists name the
empty slots and nothing else; and the roots are as they were. -/
structure CollectedExactly (s : StoreInner) (stackRoots : List (ℕ × RefKind)) (s' : StoreInner) :
    Prop where
  live_iff : ∀ n, s'.Live n ↔ Reachable s stackRoots n
  kept : ∀ n, Reachable s stackRoots n →
    s'.contents n = s.contents n ∧ s'.generation n = s.generation n
  freed : ∀ n, s.Live n → ¬ Reachable s stackRoots n →
    s'.contents n = none ∧ s'.generation n = (s.generation n).map ReclaimArena.nextGeneration
  vacant : ∀ n, ¬ s.Live n → s'.contents n = none ∧ s'.generation n = s.generation n
  freeGc : FreeList s'.gc.arena.slots s'.gc.arena.free
  freeExtern : FreeList s'.externrefs.slots s'.externrefs.free
  freeExn : FreeList s'.exns.slots s'.exns.free
  roots : s'.engine = s.engine ∧ s'.globals = s.globals ∧ s'.tables = s.tables ∧
    s'.elems = s.elems ∧ s'.pendingException = s.pendingException ∧ s'.gcRoots = s.gcRoots

theorem live_iff_contents : s.Live n ↔ s.contents n ≠ none := by
  cases n <;> simp [StoreInner.Live, StoreInner.contents]

/-- What the sweep of an arena makes of the entries it stands for. -/
theorem swept {α : Type} (a : ReclaimArena α) (l : ℕ → Bool) (byteOf : α → ℕ) (c : α → Contents)
    {p : Prop} {i : ℕ} (hp : p ↔ l i = true) :
    (p → ((a.sweep l byteOf).1.get i).map c = (a.get i).map c ∧
      (a.sweep l byteOf).1.generation i = a.generation i) ∧
    (¬ p → ((a.sweep l byteOf).1.get i).map c = none ∧
      (a.get i ≠ none →
        (a.sweep l byteOf).1.generation i = (a.generation i).map ReclaimArena.nextGeneration) ∧
      (¬ a.get i ≠ none → (a.sweep l byteOf).1.generation i = a.generation i)) := by
  refine ⟨fun h => ?_, fun h => ?_⟩
  · have hlive := a.sweep_live byteOf (hp.mp h)
    exact ⟨congrArg (Option.map c) hlive.1, hlive.2⟩
  · have hdead := a.sweep_dead byteOf (Bool.eq_false_iff.mpr (mt hp.mpr h))
    exact ⟨congrArg (Option.map c) hdead.1, hdead.2⟩

/-- The three sweeps, read off for any entry at once. -/
theorem sweepAll_spec (s : StoreInner) (t : Tracing) (n : Reached) :
    (t.seen n → (s.sweepAll t).contents n = s.contents n ∧
      (s.sweepAll t).generation n = s.generation n) ∧
    (¬ t.seen n → (s.sweepAll t).contents n = none ∧
      (s.Live n → (s.sweepAll t).generation n =
        (s.generation n).map ReclaimArena.nextGeneration) ∧
      (¬ s.Live n → (s.sweepAll t).generation n = s.generation n)) := by
  cases n with
  | gc i => exact swept s.gc.arena _ _ .object Iff.rfl
  | extern_ i =>
    exact swept s.externrefs (· ∈ t.externSeen) _ .extern_
      (decide_eq_true_iff (p := i ∈ t.externSeen)).symm
  | exn i =>
    exact swept s.exns (· ∈ t.exnSeen) _ .exn (decide_eq_true_iff (p := i ∈ t.exnSeen)).symm

theorem collect_ok {s' : StoreInner} (hc : s.gc.collecting = true)
    (h : s.collect stackRoots = some (.ok s')) :
    ∃ t, s.traceReachable (s.initialWork stackRoots) = some (.ok t) ∧ s' = s.sweepAll t := by
  unfold StoreInner.collect at h
  rw [if_neg (by simp [hc])] at h
  cases ht : s.traceReachable (s.initialWork stackRoots) with
  | none => simp [ht] at h
  | some r =>
    cases r with
    | error e => simp [ht] at h
    | ok t =>
      simp only [ht, Option.some.injEq, Except.ok.injEq] at h
      exact ⟨t, rfl, h.symm⟩

/-- A successful collection of a tracing store is exact. -/
theorem collectedExactly {s' : StoreInner} (hc : s.gc.collecting = true)
    (h : s.collect stackRoots = some (.ok s')) : CollectedExactly s stackRoots s' := by
  obtain ⟨t, ht, rfl⟩ := collect_ok hc h
  have hseen := traceReachable_seen ht
  have hlive : ∀ n, Reachable s stackRoots n → s.Live n :=
    fun n hn => traceReachable_live ht n ((hseen n).mpr hn)
  refine ⟨fun n => ?_, fun n hn => ?_, fun n hl hn => ?_, fun n hl => ?_,
    (s.sweepAll t).gc.arena.freeList, (s.sweepAll t).externrefs.freeList,
    (s.sweepAll t).exns.freeList, rfl, rfl, rfl, rfl, rfl, rfl⟩
  · rw [live_iff_contents, ← hseen n]
    by_cases hn : t.seen n
    · rw [((sweepAll_spec s t n).1 hn).1, ← live_iff_contents]
      exact iff_of_true (traceReachable_live ht n hn) hn
    · rw [((sweepAll_spec s t n).2 hn).1]
      exact iff_of_false (by simp) hn
  · exact (sweepAll_spec s t n).1 ((hseen n).mpr hn)
  · have hn' : ¬ t.seen n := fun h => hn ((hseen n).mp h)
    exact ⟨((sweepAll_spec s t n).2 hn').1, ((sweepAll_spec s t n).2 hn').2.1 hl⟩
  · have hn' : ¬ t.seen n := fun h => hl (traceReachable_live ht n h)
    exact ⟨((sweepAll_spec s t n).2 hn').1, ((sweepAll_spec s t n).2 hn').2.2 hl⟩

/-- **Collection is exact.**  A collection always ends; with a tracing collector a successful
one leaves exactly the reachable entries, and with the null collector it changes nothing. -/
theorem collect_exact (s : StoreInner) (stackRoots : List (ℕ × RefKind)) :
    s.collect stackRoots ≠ none ∧
    ∀ s', s.collect stackRoots = some (.ok s') →
      (s.gc.collecting = true → CollectedExactly s stackRoots s') ∧
      (s.gc.collecting = false → s' = s) := by
  refine ⟨collect_ne_none s stackRoots, fun s' h => ⟨fun hc => collectedExactly hc h, fun hc => ?_⟩⟩
  rw [StoreInner.collect, if_pos hc] at h
  exact (Except.ok.inj (Option.some.inj h)).symm

/-- A store of the null collector with one array object that nothing refers to. -/
def nullStore : StoreInner where
  engine := .empty
  gc := ⟨(ReclaimArena.empty.alloc ⟨0, .array, []⟩).2, 44, 0, 0, false⟩
  externrefs := .empty
  exns := .empty
  globals := []
  tables := []
  elems := []
  pendingException := none
  gcRoots := []

/-- The same store under a tracing collector: the object is collected. -/
theorem collect_exact_tracing : ∃ s',
    { nullStore with gc := { nullStore.gc with collecting := true } }.collect [] =
      some (.ok s') ∧
    CollectedExactly { nullStore with gc := { nullStore.gc with collecting := true } } [] s' :=
  ⟨_, rfl, ((collect_exact _ _).2 _ rfl).1 rfl⟩

theorem not_reachable_nullStore (n : Reached) : ¬ Reachable nullStore [] n := by
  intro h
  induction h with
  | root hr =>
    cases hr with
    | stack hm => cases hm
    | global hv => cases hv
    | table ht => cases ht
    | element hi => cases hi
    | pending he => cases he
    | host hm => cases hm
  | step _ _ ih => exact ih

/-- The null collector keeps garbage: its `collect` succeeds and frees nothing. -/
theorem not_collectedExactly_nullStore :
    nullStore.collect [] = some (.ok nullStore) ∧ ¬ CollectedExactly nullStore [] nullStore := by
  refine ⟨rfl, fun h => ?_⟩
  have hlive : nullStore.Live (.gc 0) := by
    show entry _ 0 ≠ none
    decide
  exact not_reachable_nullStore _ ((h.live_iff (.gc 0)).mp hlive)

end SubmilliWasm
