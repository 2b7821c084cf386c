/-
# Wire formats

Readers of bytes and the codecs built from them: numbers as base-128 groups, sequences behind their
length, options behind a flag, and variants behind their index (`Codec`).  A codec reads back what
it wrote and leaves what follows.

Two codecs of one type may write it differently.  A `Bridge` says on which values the second reads
what the first wrote, and that it reads those values back from nothing else; bridges are built along
with the codecs.
-/
import Mathlib.Data.List.Forall2
import Mathlib.Data.Nat.Basic
import Mathlib.Tactic.Common
import Mathlib.Tactic.Ring

namespace Wire

variable {α β : Type}

/-- Reads a value from the front of some bytes. -/
abbrev Reader (α : Type) : Type := List UInt8 → Option (α × List UInt8)

/-- A format of some values, the `valid` ones. -/
structure Codec (α : Type) where
  valid : α → Prop
  encode : α → List UInt8
  decode : Reader α
  roundtrip : ∀ a rest, valid a → decode (encode a ++ rest) = some (a, rest)

/-- What `B` reads of what `A` wrote: the values that satisfy `P`, and a value related to the one
written (`R`) only if that satisfies `P`. -/
structure Bridge (A B : Codec α) (P : α → Prop) (R : α → α → Prop) : Prop where
  agrees : ∀ a rest, A.valid a → P a → B.decode (A.encode a ++ rest) = some (a, rest)
  detects : ∀ a a' rest rest', A.valid a → B.decode (A.encode a ++ rest) = some (a', rest') →
    R a a' → P a

/-- A codec reads all it wrote. -/
theorem Bridge.same (A : Codec α) : Bridge A A (fun _ => True) (fun _ _ => True) :=
  ⟨fun a rest ha _ => A.roundtrip a rest ha, fun _ _ _ _ _ _ _ => trivial⟩

theorem Bridge.mono {A B : Codec α} {P Q : α → Prop} {R S : α → α → Prop} (h : Bridge A B P R)
    (hP : ∀ a, Q a ↔ P a) (hR : ∀ a a', S a a' → R a a') : Bridge A B Q S :=
  ⟨fun a rest ha hq => h.agrees a rest ha ((hP a).mp hq),
    fun a a' rest rest' ha hread hs => (hP a).mpr (h.detects a a' rest rest' ha hread (hR a a' hs))⟩

/-! ## Numbers -/

/-- A number in at most `n` groups of seven bits, the low ones first. -/
def writeVarint : ℕ → ℕ → List UInt8
  | 0, _ => []
  | n + 1, x =>
    if x < 128 then [UInt8.ofNat x] else UInt8.ofNat (x % 128 + 128) :: writeVarint n (x / 128)

/-- Reads at most `n` groups; a last group of all `n` is at most `last`. -/
def readVarint (last : ℕ) : ℕ → Reader ℕ
  | 0, _ => none
  | _ + 1, [] => none
  | n + 1, b :: bytes =>
    if b.toNat < 128 then
      if n = 0 ∧ last < b.toNat then none else some (b.toNat, bytes)
    else (readVarint last n bytes).map (fun p => (b.toNat % 128 + 128 * p.1, p.2))

theorem readVarint_write {last : ℕ} (hlast : last < 128) (n : ℕ) {x : ℕ}
    (hx : x < 128 ^ n * (last + 1)) (rest : List UInt8) :
    readVarint last (n + 1) (writeVarint (n + 1) x ++ rest) = some (x, rest) := by
  induction n generalizing x with
  | zero =>
    have hsmall : x ≤ last := by simpa [Nat.lt_succ_iff] using hx
    have hbyte : (UInt8.ofNat x).toNat = x := by
      rw [UInt8.toNat_ofNat', Nat.mod_eq_of_lt (by omega)]
    rw [writeVarint, if_pos (by omega), List.cons_append, List.nil_append, readVarint, hbyte,
      if_pos (by omega), if_neg (by omega)]
  | succ n ih =>
    rw [writeVarint]
    by_cases hsmall : x < 128
    · have hbyte : (UInt8.ofNat x).toNat = x := by
        rw [UInt8.toNat_ofNat', Nat.mod_eq_of_lt (by omega)]
      rw [if_pos hsmall, List.cons_append, List.nil_append, readVarint, hbyte, if_pos hsmall,
        if_neg (by omega)]
    · have hbyte : (UInt8.ofNat (x % 128 + 128)).toNat = x % 128 + 128 := by
        rw [UInt8.toNat_ofNat', Nat.mod_eq_of_lt (by omega)]
      have hhigh : x / 128 < 128 ^ n * (last + 1) := by
        apply Nat.div_lt_of_lt_mul
        calc x < 128 ^ (n + 1) * (last + 1) := hx
          _ = 128 * (128 ^ n * (last + 1)) := by ring
      rw [if_neg hsmall, List.cons_append, readVarint, hbyte, if_neg (by omega), ih hhigh,
        Option.map_some]
      congr 2
      omega

/-- Numbers below `128 ^ n * (last + 1)`. -/
def varint (n last : ℕ) (hlast : last < 128) : Codec ℕ where
  valid x := x < 128 ^ n * (last + 1)
  encode := writeVarint (n + 1)
  decode := readVarint last (n + 1)
  roundtrip _ rest hx := readVarint_write hlast n hx rest

def u32 : Codec ℕ := varint 4 15 (by decide)

def u64 : Codec ℕ := varint 9 1 (by decide)

def u128 : Codec ℕ := varint 18 3 (by decide)

/-! ## Structures -/

/-- A value in another form. -/
def Codec.iso (A : Codec α) (pack : α → β) (unpack : β → α) (h : ∀ b, pack (unpack b) = b) :
    Codec β where
  valid b := A.valid (unpack b)
  encode b := A.encode (unpack b)
  decode bytes := (A.decode bytes).map (fun p => (pack p.1, p.2))
  roundtrip b rest hb := by rw [A.roundtrip _ rest hb, Option.map_some, h]

theorem Bridge.iso {A B : Codec α} {P : α → Prop} {R : α → α → Prop} (h : Bridge A B P R)
    {pack : α → β} {unpack : β → α} (hpack : ∀ b, pack (unpack b) = b)
    (hunpack : ∀ a, unpack (pack a) = a) :
    Bridge (A.iso pack unpack hpack) (B.iso pack unpack hpack) (fun b => P (unpack b))
      (fun b b' => R (unpack b) (unpack b')) := by
  constructor
  · intro b rest hb hp
    show (B.decode (A.encode (unpack b) ++ rest)).map _ = _
    rw [h.agrees _ rest hb hp, Option.map_some, hpack]
  · intro b b' rest rest' hb hread hrel
    obtain ⟨⟨a, r⟩, hdecode, heq⟩ := Option.map_eq_some_iff.mp hread
    obtain ⟨rfl, rfl⟩ := Prod.mk.inj heq
    simp only [hunpack] at hrel
    exact h.detects _ a rest r hb hdecode hrel

/-- One value behind another. -/
def Codec.pair (A : Codec α) (B : Codec β) : Codec (α × β) where
  valid p := A.valid p.1 ∧ B.valid p.2
  encode p := A.encode p.1 ++ B.encode p.2
  decode bytes := (A.decode bytes).bind
    (fun p => (B.decode p.2).map (fun q => ((p.1, q.1), q.2)))
  roundtrip p rest hp := by
    rw [List.append_assoc, A.roundtrip _ _ hp.1, Option.bind_some, B.roundtrip _ _ hp.2,
      Option.map_some]

/-- What was read in front of a pair's second value. -/
theorem Codec.pair_first {A A' : Codec α} {B B' : Codec β} {p p' : α × β} {rest rest' : List UInt8}
    (h : (A'.pair B').decode ((A.pair B).encode p ++ rest) = some (p', rest')) :
    ∃ r, A'.decode (A.encode p.1 ++ (B.encode p.2 ++ rest)) = some (p'.1, r) ∧
      B'.decode r = some (p'.2, rest') := by
  change (A'.decode ((A.encode p.1 ++ B.encode p.2) ++ rest)).bind _ = _ at h
  rw [List.append_assoc] at h
  obtain ⟨⟨a, r⟩, hfirst, h⟩ := Option.bind_eq_some_iff.mp h
  obtain ⟨⟨b, r'⟩, hsecond, heq⟩ := Option.map_eq_some_iff.mp h
  obtain ⟨rfl, rfl⟩ := Prod.mk.inj heq
  exact ⟨r, hfirst, hsecond⟩

theorem Bridge.pair {A A' : Codec α} {B B' : Codec β} {P : α → Prop} {Q : β → Prop}
    {R : α → α → Prop} {S : β → β → Prop} (hA : Bridge A A' P R) (hB : Bridge B B' Q S) :
    Bridge (A.pair B) (A'.pair B') (fun p => P p.1 ∧ Q p.2)
      (fun p p' => R p.1 p'.1 ∧ S p.2 p'.2) := by
  constructor
  · rintro ⟨a, b⟩ rest ⟨ha, hb⟩ ⟨hp, hq⟩
    show (A'.decode ((A.encode a ++ B.encode b) ++ rest)).bind _ = _
    rw [List.append_assoc, hA.agrees a _ ha hp, Option.bind_some, hB.agrees b _ hb hq,
      Option.map_some]
  · rintro ⟨a, b⟩ ⟨a', b'⟩ rest rest' ⟨ha, hb⟩ hread ⟨hr, hs⟩
    obtain ⟨r₁, hfirst, hsecond⟩ := Codec.pair_first hread
    -- what comes first was read right, so that the second reader starts where it should
    have hp := hA.detects a a' _ r₁ ha hfirst hr
    rw [hA.agrees a _ ha hp] at hfirst
    obtain ⟨rfl, rfl⟩ := Prod.mk.inj (Option.some.inj hfirst)
    exact ⟨hp, hB.detects b b' _ rest' hb hsecond hs⟩

/-! ## Sequences and options -/

/-- Reads `n` values. -/
def readMany (read : Reader α) : ℕ → Reader (List α)
  | 0, bytes => some ([], bytes)
  | n + 1, bytes => (read bytes).bind
    (fun p => (readMany read n p.2).map (fun q => (p.1 :: q.1, q.2)))

theorem readMany_encode (A : Codec α) (l : List α) (rest : List UInt8) (hl : ∀ a ∈ l, A.valid a) :
    readMany A.decode l.length (l.flatMap A.encode ++ rest) = some (l, rest) := by
  induction l with
  | nil => rfl
  | cons a l ih =>
    rw [List.length_cons, List.flatMap_cons, List.append_assoc, readMany,
      A.roundtrip a _ (hl a List.mem_cons_self), Option.bind_some,
      ih (fun b hb => hl b (List.mem_cons_of_mem a hb)), Option.map_some]

/-- A sequence behind its length. -/
def Codec.list (A : Codec α) : Codec (List α) where
  valid l := u64.valid l.length ∧ ∀ a ∈ l, A.valid a
  encode l := u64.encode l.length ++ l.flatMap A.encode
  decode bytes := (u64.decode bytes).bind (fun p => readMany A.decode p.1 p.2)
  roundtrip l rest hl := by
    rw [List.append_assoc, u64.roundtrip _ _ hl.1, Option.bind_some, readMany_encode A l rest hl.2]

theorem Codec.list_nil (A : Codec α) : A.list.valid [] := by
  refine ⟨?_, List.forall_mem_nil _⟩
  show 0 < 128 ^ 9 * (1 + 1)
  decide

theorem Codec.list_singleton {A : Codec α} {a : α} (ha : A.valid a) : A.list.valid [a] := by
  refine ⟨?_, List.forall_mem_singleton.mpr ha⟩
  show 1 < 128 ^ 9 * (1 + 1)
  decide

theorem Bridge.many {A B : Codec α} {P : α → Prop} {R : α → α → Prop} (h : Bridge A B P R)
    (l : List α) (hl : ∀ a ∈ l, A.valid a) :
    (∀ rest, (∀ a ∈ l, P a) →
      readMany B.decode l.length (l.flatMap A.encode ++ rest) = some (l, rest)) ∧
    ∀ rest l' rest', readMany B.decode l.length (l.flatMap A.encode ++ rest) = some (l', rest') →
      List.Forall₂ R l l' → ∀ a ∈ l, P a := by
  induction l with
  | nil =>
    refine ⟨fun _ _ => rfl, ?_⟩
    intro _ _ _ _ _ a ha
    cases ha
  | cons a l ih =>
    obtain ⟨ihagrees, ihdetects⟩ := ih (fun b hb => hl b (List.mem_cons_of_mem a hb))
    have ha := hl a List.mem_cons_self
    constructor
    · intro rest hp
      rw [List.length_cons, List.flatMap_cons, List.append_assoc, readMany,
        h.agrees a _ ha (hp a List.mem_cons_self), Option.bind_some,
        ihagrees rest (fun b hb => hp b (List.mem_cons_of_mem a hb)), Option.map_some]
    · intro rest l' rest' hread hrel
      rw [List.length_cons, List.flatMap_cons, List.append_assoc, readMany] at hread
      obtain ⟨⟨a₁, r₁⟩, hfirst, hread⟩ := Option.bind_eq_some_iff.mp hread
      obtain ⟨⟨l₁, r₂⟩, hsecond, heq⟩ := Option.map_eq_some_iff.mp hread
      obtain ⟨rfl, rfl⟩ := Prod.mk.inj heq
      obtain ⟨hhead, htail⟩ := List.forall₂_cons.mp hrel
      have hp := h.detects a a₁ _ r₁ ha hfirst hhead
      rw [h.agrees a _ ha hp] at hfirst
      obtain ⟨rfl, rfl⟩ := Prod.mk.inj (Option.some.inj hfirst)
      have hrest := ihdetects rest l₁ r₂ hsecond htail
      intro b hb
      rw [List.mem_cons] at hb
      obtain rfl | hb := hb
      · exact hp
      · exact hrest b hb

theorem Bridge.list {A B : Codec α} {P : α → Prop} {R : α → α → Prop} (h : Bridge A B P R) :
    Bridge A.list B.list (fun l => ∀ a ∈ l, P a) (List.Forall₂ R) := by
  constructor
  · intro l rest hl hp
    show (u64.decode ((u64.encode l.length ++ l.flatMap A.encode) ++ rest)).bind _ = _
    rw [List.append_assoc, u64.roundtrip _ _ hl.1, Option.bind_some]
    exact (h.many l hl.2).1 rest hp
  · intro l l' rest rest' hl hread hrel
    change (u64.decode ((u64.encode l.length ++ l.flatMap A.encode) ++ rest)).bind _ = _ at hread
    rw [List.append_assoc, u64.roundtrip _ _ hl.1, Option.bind_some] at hread
    exact (h.many l hl.2).2 rest l' rest' hread hrel

/-- As many values are read as asked for. -/
theorem readMany_length {read : Reader α} {n : ℕ} {bytes rest : List UInt8} {l : List α}
    (h : readMany read n bytes = some (l, rest)) : l.length = n := by
  induction n generalizing bytes l rest with
  | zero =>
    obtain ⟨rfl, -⟩ := Prod.mk.inj (Option.some.inj h)
    rfl
  | succ n ih =>
    obtain ⟨⟨a, r⟩, -, h⟩ := Option.bind_eq_some_iff.mp h
    obtain ⟨⟨l', r'⟩, hmany, heq⟩ := Option.map_eq_some_iff.mp h
    obtain ⟨rfl, rfl⟩ := Prod.mk.inj heq
    rw [List.length_cons, ih hmany]

/-- A sequence is read only if its elements can be. -/
theorem Bridge.list_all {A B : Codec α} {P : α → Prop} (h : Bridge A B P (fun _ _ => True))
    {l l' : List α} {rest rest' : List UInt8} (hl : A.list.valid l)
    (hread : B.list.decode (A.list.encode l ++ rest) = some (l', rest')) : ∀ a ∈ l, P a := by
  apply h.list.detects l l' rest rest' hl hread
  change (u64.decode ((u64.encode l.length ++ l.flatMap A.encode) ++ rest)).bind _ = _ at hread
  rw [List.append_assoc, u64.roundtrip _ _ hl.1, Option.bind_some] at hread
  exact List.forall₂_iff_zip.mpr ⟨(readMany_length hread).symm, fun _ => trivial⟩

/-- A value that may be missing, behind a flag. -/
def Codec.option (A : Codec α) : Codec (Option α) where
  valid o := ∀ a ∈ o, A.valid a
  encode
    | none => [0]
    | some a => 1 :: A.encode a
  decode
    | 0 :: bytes => some (none, bytes)
    | 1 :: bytes => (A.decode bytes).map (fun p => (some p.1, p.2))
    | _ => none
  roundtrip o rest ho := by
    cases o with
    | none => rfl
    | some a =>
      show (A.decode (A.encode a ++ rest)).map _ = _
      rw [A.roundtrip a rest (ho a rfl), Option.map_some]

theorem Bridge.option {A B : Codec α} {P : α → Prop} {R : α → α → Prop} (h : Bridge A B P R) :
    Bridge A.option B.option (fun o => ∀ a ∈ o, P a)
      (fun o o' => ∀ a ∈ o, ∃ a' ∈ o', R a a') := by
  constructor
  · intro o rest ho hp
    cases o with
    | none => rfl
    | some a =>
      show (B.decode (A.encode a ++ rest)).map _ = _
      rw [h.agrees a rest (ho a rfl) (hp a rfl), Option.map_some]
  · intro o o' rest rest' ho hread hrel a ha
    obtain rfl : o = some a := ha
    change (B.decode (A.encode a ++ rest)).map _ = _ at hread
    obtain ⟨⟨a₁, r₁⟩, hdecode, heq⟩ := Option.map_eq_some_iff.mp hread
    obtain ⟨rfl, rfl⟩ := Prod.mk.inj heq
    obtain ⟨a', ha', hr⟩ := hrel a rfl
    obtain rfl : a₁ = a' := Option.some.inj ha'
    exact h.detects a a₁ rest r₁ (ho a rfl) hdecode hr

/-! ## Variants -/

/-- The variants of a type: the index of each value and its payload, and the reader of each index.
-/
structure Variants (α : Type) where
  valid : α → Prop
  index : α → ℕ
  payload : α → List UInt8
  read : ℕ → Reader α
  reads : ∀ a rest, valid a → read (index a) (payload a ++ rest) = some (a, rest)

/-- A variant behind its index. -/
def Variants.codec (V : Variants α) : Codec α where
  valid a := u32.valid (V.index a) ∧ V.valid a
  encode a := u32.encode (V.index a) ++ V.payload a
  decode bytes := (u32.decode bytes).bind (fun p => V.read p.1 p.2)
  roundtrip a rest ha := by
    rw [List.append_assoc, u32.roundtrip _ _ ha.1, Option.bind_some, V.reads a rest ha.2]

/-- What the readers of `W` make of the payloads of `V`. -/
structure VariantBridge (V W : Variants α) (P : α → Prop) (R : α → α → Prop) : Prop where
  agrees : ∀ a rest, V.valid a → P a → W.read (V.index a) (V.payload a ++ rest) = some (a, rest)
  detects : ∀ a a' rest rest', V.valid a →
    W.read (V.index a) (V.payload a ++ rest) = some (a', rest') → R a a' → P a

theorem VariantBridge.codec {V W : Variants α} {P : α → Prop} {R : α → α → Prop}
    (h : VariantBridge V W P R) : Bridge V.codec W.codec P R := by
  have hread : ∀ a rest, u32.valid (V.index a) →
      W.codec.decode (V.codec.encode a ++ rest) = W.read (V.index a) (V.payload a ++ rest) := by
    intro a rest ha
    show (u32.decode ((u32.encode (V.index a) ++ V.payload a) ++ rest)).bind _ = _
    rw [List.append_assoc, u32.roundtrip _ _ ha, Option.bind_some]
  constructor
  · intro a rest ha hp
    rw [hread a rest ha.1]
    exact h.agrees a rest ha.2 hp
  · intro a a' rest rest' ha hdecode hrel
    rw [hread a rest ha.1] at hdecode
    exact h.detects a a' rest rest' ha.2 hdecode hrel

/-- A single variant. -/
def Variants.one (A : Codec α) : Variants α where
  valid := A.valid
  index _ := 0
  payload := A.encode
  read
    | 0 => A.decode
    | _ + 1 => fun _ => none
  reads := A.roundtrip

theorem VariantBridge.one {A B : Codec α} {P : α → Prop} {R : α → α → Prop} (h : Bridge A B P R) :
    VariantBridge (.one A) (.one B) P R :=
  ⟨h.agrees, h.detects⟩

/-- One variant in front of others. -/
def Variants.cons (A : Codec α) (V : Variants β) : Variants (α ⊕ β) where
  valid := Sum.elim A.valid V.valid
  index := Sum.elim (fun _ => 0) (fun b => V.index b + 1)
  payload := Sum.elim A.encode V.payload
  read
    | 0 => fun bytes => (A.decode bytes).map (fun p => (.inl p.1, p.2))
    | k + 1 => fun bytes => (V.read k bytes).map (fun p => (.inr p.1, p.2))
  reads := by
    rintro (a | b) rest h
    · show (A.decode (A.encode a ++ rest)).map _ = _
      rw [A.roundtrip a rest h, Option.map_some]
    · show (V.read (V.index b) (V.payload b ++ rest)).map _ = _
      rw [V.reads b rest h, Option.map_some]

/-- Two values of one variant are related in it. -/
def SumRel (R : α → α → Prop) (S : β → β → Prop) : α ⊕ β → α ⊕ β → Prop
  | .inl a, .inl a' => R a a'
  | .inr b, .inr b' => S b b'
  | _, _ => True

theorem VariantBridge.cons {A A' : Codec α} {V V' : Variants β} {P : α → Prop} {Q : β → Prop}
    {R : α → α → Prop} {S : β → β → Prop} (hA : Bridge A A' P R) (hV : VariantBridge V V' Q S) :
    VariantBridge (.cons A V) (.cons A' V') (Sum.elim P Q) (SumRel R S) := by
  constructor
  · rintro (a | b) rest h hp
    · show (A'.decode (A.encode a ++ rest)).map _ = _
      rw [hA.agrees a rest h hp, Option.map_some]
    · show (V'.read (V.index b) (V.payload b ++ rest)).map _ = _
      rw [hV.agrees b rest h hp, Option.map_some]
  · rintro (a | b) c rest rest' h hread hrel
    · change (A'.decode (A.encode a ++ rest)).map _ = _ at hread
      obtain ⟨⟨a', r⟩, hdecode, heq⟩ := Option.map_eq_some_iff.mp hread
      obtain ⟨rfl, rfl⟩ := Prod.mk.inj heq
      exact hA.detects a a' rest r h hdecode hrel
    · change (V'.read (V.index b) (V.payload b ++ rest)).map _ = _ at hread
      obtain ⟨⟨b', r⟩, hdecode, heq⟩ := Option.map_eq_some_iff.mp hread
      obtain ⟨rfl, rfl⟩ := Prod.mk.inj heq
      exact hV.detects b b' rest r h hdecode hrel

/-- A variant without a payload. -/
def unit : Codec Unit :=
  ⟨fun _ => True, fun _ => [], fun bytes => some ((), bytes), fun _ _ _ => rfl⟩

/-! ## Tables of variants -/

/-- A reader of one variant. -/
def readAs (A : Codec β) (mk : β → α) : Reader α :=
  fun bytes => (A.decode bytes).map (fun p => (mk p.1, p.2))

theorem readAs_encode {A : Codec β} (mk : β → α) {b : β} (hb : A.valid b) (rest : List UInt8) :
    readAs A mk (A.encode b ++ rest) = some (mk b, rest) := by
  rw [readAs, A.roundtrip b rest hb, Option.map_some]

/-- It reads no other. -/
theorem readAs_eq {A : Codec β} {mk : β → α} {bytes rest : List UInt8} {a : α}
    (h : readAs A mk bytes = some (a, rest)) : ∃ b, a = mk b := by
  obtain ⟨⟨b, r⟩, -, heq⟩ := Option.map_eq_some_iff.mp h
  exact ⟨b, (Prod.mk.inj heq).1.symm⟩

/-- The reader at an index of a table. -/
def readTable (readers : List (Reader α)) (k : ℕ) : Reader α :=
  fun bytes => (readers[k]?).bind (fun read => read bytes)

end Wire
