/-
# Packed access agrees with element-wise access

The bulk paths of the embedder's arrays against `new_fixed`, `get` and `set`.  A body is the bytes
of its elements side by side, however it was filled: by a loop of slot writes, by one copy, by
whole pieces, or by repeating one piece.  So both sides of each comparison are brought to the same
list of bytes, and what an element of it reads as is a fact of the codec.
-/
import SubmilliWasm.Exec.Arrays

namespace SubmilliWasm

open Fallible
open Ranges (window overwrite chunk)

/-! ## Bodies -/

section Bodies

variable (env : HostEnv)

/-- Writing whole pieces is writing the range they make up. -/
theorem putChunks_eq {w : ℕ} {bss : List (List UInt8)} {body : List UInt8} {i : ℕ}
    (hw : ∀ b ∈ bss, b.length = w) (h : (i + bss.length) * w ≤ body.length) :
    putChunks w body i bss = overwrite body (i * w) bss.flatten := by
  induction bss generalizing body i with
  | nil => rw [putChunks, List.flatten_nil, Ranges.overwrite_nil]
  | cons b bss ih =>
    have hb : b.length = w := hw b List.mem_cons_self
    have hws : ∀ c ∈ bss, c.length = w := fun c hc => hw c (List.mem_cons_of_mem _ hc)
    have hlen : (bss.flatten).length = bss.length * w := Ranges.flatten_length hws
    have htotal : (i + (b :: bss).length) * w = i * w + (w + bss.length * w) := by
      rw [List.length_cons]
      ring
    have hnext : (i + 1) * w = i * w + b.length := by
      rw [hb]
      exact Nat.succ_mul i w
    have hkept : (overwrite body (i * w) b).length = body.length :=
      Ranges.overwrite_length (by omega)
    have hrest : (i + 1 + bss.length) * w ≤ (overwrite body (i * w) b).length := by
      rw [hkept]
      refine le_trans (le_of_eq ?_) h
      rw [List.length_cons]
      ring
    rw [putChunks, if_pos (by omega), ih hws hrest, hnext, List.flatten_cons]
    exact Ranges.overwrite_append (by omega)

theorem overwrite_all {l xs : List UInt8} (h : xs.length = l.length) : overwrite l 0 xs = xs := by
  rw [overwrite, List.take_zero, List.nil_append, List.drop_of_length_le (by omega),
    List.append_nil]

namespace ArrayRef

theorem leBody_eq {α : Type} {w : ℕ} {toLe : α → List UInt8} (hw : ∀ u, (toLe u).length = w)
    {elems : List α} (h : elems.length * w ≤ usizeMax) :
    leBody env w toLe elems =
      (tryReserveExact env (elems.length * w)).map fun _ => (elems.map toLe).flatten := by
  have hws : ∀ b ∈ elems.map toLe, b.length = w := by
    intro b hb
    obtain ⟨u, -, rfl⟩ := List.mem_map.mp hb
    exact hw u
  have hfit : (0 + (elems.map toLe).length) * w ≤
      (List.replicate (elems.length * w) (0 : UInt8)).length := by
    rw [List.length_replicate, List.length_map, Nat.zero_add]
  have hall : ((elems.map toLe).flatten).length =
      (List.replicate (elems.length * w) (0 : UInt8)).length := by
    rw [Ranges.flatten_length hws, List.length_map, List.length_replicate]
  have hput : putChunks w (List.replicate (elems.length * w) 0) 0 (elems.map toLe) =
      (elems.map toLe).flatten := by
    rw [putChunks_eq hws hfit, Nat.zero_mul, overwrite_all hall]
  rw [leBody, checkedMul, if_pos h, ← hput]
  dsimp only
  rw [zeroedBody]
  cases tryReserveExact env (elems.length * w) <;> rfl

/-- Zeros need no copying. -/
theorem filledBody_eq {pattern : List UInt8} (hp : 0 < pattern.length) (n : ℕ) :
    filledBody env pattern (n * pattern.length) =
      (tryReserveExact env (n * pattern.length)).map fun _ =>
        (List.replicate n pattern).flatten := by
  have hws : ∀ b ∈ List.replicate n pattern, b.length = pattern.length := by
    intro b hb
    rw [List.eq_of_mem_replicate hb]
  have hcount : n * pattern.length / pattern.length = n := Nat.mul_div_cancel n hp
  have hfit : (0 + (List.replicate n pattern).length) * pattern.length ≤
      (List.replicate (n * pattern.length) (0 : UInt8)).length := by
    rw [List.length_replicate, List.length_replicate, Nat.zero_add]
  have hall : ((List.replicate n pattern).flatten).length =
      (List.replicate (n * pattern.length) (0 : UInt8)).length := by
    rw [Ranges.flatten_length hws, List.length_replicate, List.length_replicate]
  have hfill : (if pattern.any (· ≠ 0) then
      putChunks pattern.length (List.replicate (n * pattern.length) 0) 0
        (List.replicate (n * pattern.length / pattern.length) pattern)
      else List.replicate (n * pattern.length) 0) = (List.replicate n pattern).flatten := by
    rw [hcount]
    split
    · rw [putChunks_eq hws hfit, Nat.zero_mul, overwrite_all hall]
    · rename_i hzero
      have hpattern : pattern = List.replicate pattern.length 0 := by
        apply List.eq_replicate_iff.mpr
        refine ⟨rfl, fun b hb => ?_⟩
        by_contra hne
        exact hzero (List.any_eq_true.mpr ⟨b, hb, by simpa using hne⟩)
      rw [hpattern, List.length_replicate, List.flatten_replicate_replicate]
  rw [filledBody, zeroedBody, ← hfill]
  cases tryReserveExact env (n * pattern.length) <;> rfl

end ArrayRef

end Bodies

/-! ## Elements of the bulk paths -/

namespace PackedKind

def scalar : PackedKind → ScalarKind
  | .i8 => .i8
  | .i16 => .i16
  | .i64 => .i64

variable {field : FieldType} {kind : PackedKind}

theorem elem_of (h : field.elementType = kind.storage) :
    pubFieldSlot field 0 = .scalar 0 kind.scalar := by
  rw [pubFieldSlot, h]
  cases kind <;> rfl

theorem scalar_width (kind : PackedKind) : kind.scalar.width = kind.width := by
  cases kind <;> rfl

theorem stride_of (h : field.elementType = kind.storage) :
    (Layout.forArray field).stride = kind.width := by
  show (pubFieldSlot field 0).width = kind.width
  rw [elem_of h]
  exact kind.scalar_width

/-- An element that is one of its width is stored as its bytes. -/
theorem slotBytes_val {unit : ℕ} (h : unit < 256 ^ kind.width) (o : ℕ) :
    slotBytes (.scalar o kind.scalar) (kind.val unit).raw = some (leBytes kind.width unit) := by
  cases kind with
  | i8 =>
    have hsmall : unit % 2 ^ 32 = unit := Nat.mod_eq_of_lt (lt_trans h (by decide))
    show some (leBytes 1 (BitVec.ofNat 32 unit).toNat) = some (leBytes 1 unit)
    rw [BitVec.toNat_ofNat, hsmall]
  | i16 =>
    have hsmall : unit % 2 ^ 32 = unit := Nat.mod_eq_of_lt (lt_trans h (by decide))
    show some (leBytes 2 (BitVec.ofNat 32 unit).toNat) = some (leBytes 2 unit)
    rw [BitVec.toNat_ofNat, hsmall]
  | i64 =>
    have hsmall : unit % 2 ^ 64 = unit := Nat.mod_eq_of_lt (lt_of_lt_of_eq h (by decide))
    show some (leBytes 8 (BitVec.ofNat 64 unit).toNat) = some (leBytes 8 unit)
    rw [BitVec.toNat_ofNat, hsmall]

theorem accepts_val (kind : PackedKind) (unit o : ℕ) :
    slotAccepts (.scalar o kind.scalar) (kind.val unit).raw = true := by
  cases kind <;> rfl

/-- Zero-extended elements are of the array's type. -/
theorem fits_val (h : field.elementType = kind.storage) (x : TestStore) (unit i : ℕ) :
    x.fits field ((Layout.forArray field).elemAt i) (kind.val unit) = .ok true := by
  have hslot : slotAccepts ((Layout.forArray field).elemAt i) (kind.val unit).raw = true := by
    refine (withOffset_accepts _ _ _).trans ?_
    show slotAccepts (pubFieldSlot field 0) _ = true
    rw [elem_of h]
    exact accepts_val kind unit 0
  rw [TestStore.fits, if_pos hslot]
  unfold TestStore.fieldValueMatches
  rw [h]
  cases kind <;> rfl

theorem val_fits (kind : PackedKind) (units : List ℕ) (o : ℕ) :
    ∀ v ∈ (units.map kind.val).map HostVal.raw,
      slotAccepts (.scalar o kind.scalar) v = true := by
  intro v hv
  obtain ⟨w, hw, rfl⟩ := List.mem_map.mp hv
  obtain ⟨unit, -, rfl⟩ := List.mem_map.mp hw
  exact accepts_val kind unit o

end PackedKind

/-! ## Constructors -/

section Constructors

variable {x : HostCtx} {env : HostEnv} {pre : ArrayRefPre}

/-- A failed check before anything is reserved. -/
theorem HostResult.check_fails {α β : Type} {r : Except HostError α} {f : α → HostResult β}
    (h : ∀ a, r ≠ .ok a) : (HostResult.check x r f).Fails x := by
  cases r with
  | ok a => exact absurd rfl (h a)
  | error e => exact ⟨e, rfl⟩

theorem HostResult.check_ok {α β : Type} {r : Except HostError α} {a : α} (h : r = .ok a)
    (f : α → HostResult β) : HostResult.check x r f = f a := by
  rw [h, HostResult.check]

/-- A reservation changes the managed side only. -/
theorem HostCtx.reserved_congr {α : Type} {isAsync : Bool} {charge : ℕ}
    {f g : HostCtx → HostResult α} (h : ∀ y : HostCtx, y.id = x.id → f y = g y) :
    x.reserved env isAsync charge f = x.reserved env isAsync charge g := by
  have hid : (x.reserveHost env isAsync charge).1.id = x.id := rfl
  unfold HostCtx.reserved
  split
  · rename_i y hy
    rw [hy] at hid
    exact h y hid
  · rfl

namespace ArrayRef

theorem checkAllocator_ok : checkAllocator x pre = .ok () ↔
    checkHandle x.id pre.store = .ok () := by
  unfold checkAllocator
  cases checkHandle x.id pre.store with
  | ok a => exact ⟨fun _ => rfl, fun _ => rfl⟩
  | error e => exact ⟨nofun, nofun⟩

theorem stride_le (pre : ArrayRefPre) : pre.layout.stride ≤ 16 :=
  Slot.width_le _

variable {elems : List HostVal} {kind : PackedKind} {count : ℕ}

/-- The product of an array's count and its stride does not overflow. -/
theorem body_le (h : count < 2 ^ 32) : count * pre.layout.stride ≤ usizeMax := by
  refine le_trans (Nat.mul_le_mul (Nat.le_of_lt h) (stride_le pre)) ?_
  decide

theorem bodyLen_eq (count : ℕ) : bodyLen pre count =
    if count < 2 ^ 32 then .ok (count * pre.layout.stride)
    else .error (.test (.msg "array too large")) := by
  unfold bodyLen
  by_cases h : count < 2 ^ 32
  · rw [if_pos h, if_pos h, checkedMul, if_pos (body_le h)]
  · rw [if_neg h, if_neg h]

theorem finishPacked_eq (h : checkHandle x.id pre.store = .ok ()) (body : List UInt8) :
    finishPacked x pre body = x.allocHostGc ⟨pre.typeId, .array, body⟩ :=
  HostResult.check_ok (checkAllocator_ok.mpr h) _

/-- A bulk constructor that applies builds its body. -/
theorem newPacked_build (h : pre.Ready x kind count) {bytes : List UInt8}
    (hlen : bytes.length = count * kind.width) (isAsync : Bool)
    {body : Except HostError (List UInt8)}
    (hbody : body = (tryReserveExact env bytes.length).map fun _ => bytes) :
    newPacked x env isAsync pre kind count body =
      x.build env isAsync (objectCharge bytes.length) ⟨pre.typeId, .array, bytes⟩ := by
  have hstride : pre.layout.stride = kind.width := PackedKind.stride_of h.type
  have hcharge : packedCharge x pre kind count = .ok (objectCharge bytes.length) := by
    unfold packedCharge
    rw [checkAllocator_ok.mpr h.here, bodyLen_eq, if_pos h.count, hstride, hlen]
    exact if_neg (not_not.mpr h.type)
  rw [newPacked, HostResult.check_ok hcharge, HostCtx.build]
  apply HostCtx.reserved_congr
  intro y hy
  subst hbody
  cases tryReserveExact env bytes.length with
  | error e => rfl
  | ok a => exact finishPacked_eq (by rw [hy]; exact h.here) bytes

/-- A bulk constructor that does not apply fails before it reserves. -/
theorem newPacked_fails (h : ¬ pre.Ready x kind count) (isAsync : Bool)
    (body : Except HostError (List UInt8)) :
    (newPacked x env isAsync pre kind count body).Fails x := by
  apply HostResult.check_fails
  intro charge hcharge
  apply h
  obtain ⟨_, hhere, hrest⟩ := bind_ok_iff.mp hcharge
  split at hrest
  · nomatch hrest
  · rename_i htype
    obtain ⟨n, hn, -⟩ := bind_ok_iff.mp hrest
    rw [bodyLen_eq] at hn
    split at hn
    · rename_i hcount
      exact ⟨checkAllocator_ok.mp hhere, not_not.mp htype, hcount⟩
    · nomatch hn

theorem forM_ok :
    elems.forM (checkElem x pre) = .ok () ↔ ∀ v ∈ elems, checkElem x pre v = .ok () := by
  induction elems with
  | nil => exact ⟨fun _ v hv => (nomatch hv), fun _ => rfl⟩
  | cons v vs ih =>
    rw [List.forall_mem_cons, ← ih]
    show (checkElem x pre v >>= fun _ => vs.forM (checkElem x pre)) = .ok () ↔ _
    rw [bind_ok_iff]
    constructor
    · rintro ⟨_, hv, hvs⟩
      exact ⟨hv, hvs⟩
    · rintro ⟨hv, hvs⟩
      exact ⟨(), hv, hvs⟩

theorem checkElem_ok {v : HostVal} : checkElem x pre v = .ok () ↔
    x.view.fits pre.field (pre.layout.elemAt 0) v = .ok true := by
  unfold checkElem
  cases x.view.fits pre.field (pre.layout.elemAt 0) v with
  | error e => exact ⟨nofun, nofun⟩
  | ok b =>
    cases b with
    | true => exact ⟨fun _ => rfl, fun _ => rfl⟩
    | false => exact ⟨nofun, nofun⟩

/-- A value that passes the check is stored in the element slot. -/
theorem checkElem_accepts {v : HostVal} (h : checkElem x pre v = .ok ()) :
    slotAccepts (pubFieldSlot pre.field 0) v.raw = true := by
  have hfits := checkElem_ok.mp h
  unfold TestStore.fits at hfits
  split at hfits
  · rename_i haccept
    exact (withOffset_accepts _ _ _).symm.trans haccept
  · nomatch hfits

/-- `new_fixed` builds the bytes of its elements, side by side. -/
theorem newFixed_build (hhere : checkHandle x.id pre.store = .ok ())
    (hcount : elems.length < 2 ^ 32) (helems : ∀ v ∈ elems, checkElem x pre v = .ok ())
    {bs : List (List UInt8)}
    (hbs : bs.map some = elems.map fun v => slotBytes (pubFieldSlot pre.field 0) v.raw) :
    newFixed x env pre elems =
      x.build env false (objectCharge bs.flatten.length) ⟨pre.typeId, .array, bs.flatten⟩ := by
  have haccept : ∀ v ∈ elems.map HostVal.raw, slotAccepts (pubFieldSlot pre.field 0) v = true := by
    intro v hv
    obtain ⟨w, hw, rfl⟩ := List.mem_map.mp hv
    exact checkElem_accepts (helems w hw)
  have hfit : (0 + (elems.map HostVal.raw).length) * (pubFieldSlot pre.field 0).width ≤
      (List.replicate (elems.length * pre.layout.stride) (0 : UInt8)).length := by
    rw [List.length_replicate, List.length_map, Nat.zero_add]
    exact le_rfl
  obtain ⟨cs, hcs, hwidths, hwrite⟩ := writeFrom_eq haccept hfit
  obtain rfl : cs = bs := by
    apply List.map_injective_iff.mpr (Option.some_injective _)
    rw [hcs, hbs, List.map_map]
    rfl
  have hn : cs.length = elems.length := by
    have := congrArg List.length hbs
    rwa [List.length_map, List.length_map] at this
  have hflat : cs.flatten.length = elems.length * pre.layout.stride := by
    rw [Ranges.flatten_length hwidths, hn]
    rfl
  have hall : cs.flatten.length =
      (List.replicate (elems.length * pre.layout.stride) (0 : UInt8)).length := by
    rw [hflat, List.length_replicate]
  rw [Nat.zero_mul, overwrite_all hall] at hwrite
  have hlen : bodyLen pre elems.length = .ok cs.flatten.length := by
    rw [bodyLen_eq, if_pos hcount, hflat]
  rw [newFixed, HostResult.check_ok hlen, HostResult.check_ok (checkAllocator_ok.mpr hhere),
    HostResult.check_ok (forM_ok.mpr helems), HostCtx.build]
  apply HostCtx.reserved_congr
  intro y _
  unfold zeroedBody
  rw [hflat]
  cases tryReserveExact env (elems.length * pre.layout.stride) with
  | error e => rfl
  | ok a =>
    dsimp only [bind, Except.bind, pure, Except.pure, HostResult.check]
    rw [show writeFrom pre.layout _ 0 _ = some cs.flatten from hwrite]

/-- `new_fixed` fails as soon as a check does. -/
theorem newFixed_fails (h : ¬ (checkHandle x.id pre.store = .ok () ∧
    elems.length < 2 ^ 32 ∧ ∀ v ∈ elems, checkElem x pre v = .ok ())) :
    (newFixed x env pre elems).Fails x := by
  rw [newFixed, bodyLen_eq]
  by_cases hcount : elems.length < 2 ^ 32
  · rw [if_pos hcount]
    by_cases hhere : checkHandle x.id pre.store = .ok ()
    · dsimp only [HostResult.check]
      rw [checkAllocator_ok.mpr hhere]
      dsimp only
      apply HostResult.check_fails
      intro a ha
      exact h ⟨hhere, hcount, forM_ok.mp ha⟩
    · dsimp only [HostResult.check]
      apply HostResult.check_fails
      intro a ha
      exact hhere (checkAllocator_ok.mp ha)
  · rw [if_neg hcount]
    exact ⟨_, rfl⟩

/-- A bulk constructor whose body is the bytes of its elements agrees with `new_fixed`. -/
theorem newPacked_bulk {units : List ℕ} (hcount : count = units.length)
    (hlt : ∀ u ∈ units, u < 256 ^ kind.width) (isAsync : Bool)
    {body : Except HostError (List UInt8)} {bytes : List UInt8}
    (hbytes : bytes = (units.map (leBytes kind.width)).flatten) (hbody : units.length < 2 ^ 32 →
      body = (tryReserveExact env bytes.length).map fun _ => bytes) :
    BulkNew x env pre kind units isAsync (newPacked x env isAsync pre kind count body) := by
  subst hcount hbytes
  have hcheck : pre.field.elementType = kind.storage →
      ∀ v ∈ units.map kind.val, checkElem x pre v = .ok () := by
    intro htype v hv
    obtain ⟨u, -, rfl⟩ := List.mem_map.mp hv
    exact checkElem_ok.mpr (PackedKind.fits_val htype x.view u 0)
  constructor
  · intro h
    have hwidths : ∀ b ∈ units.map (leBytes kind.width), b.length = kind.width := by
      intro b hb
      obtain ⟨u, -, rfl⟩ := List.mem_map.mp hb
      exact leBytes_length _ _
    have hlen : (units.map (leBytes kind.width)).flatten.length = units.length * kind.width := by
      rw [Ranges.flatten_length hwidths, List.length_map]
    have hbs : (units.map (leBytes kind.width)).map some =
        (units.map kind.val).map fun v => slotBytes (pubFieldSlot pre.field 0) v.raw := by
      rw [List.map_map, List.map_map]
      apply List.map_congr_left
      intro u hu
      show some (leBytes kind.width u) = slotBytes (pubFieldSlot pre.field 0) (kind.val u).raw
      rw [PackedKind.elem_of h.type, PackedKind.slotBytes_val (hlt u hu)]
    refine ⟨_, _, newFixed_build h.here ?_ (hcheck h.type) hbs, ?_⟩
    · rw [List.length_map]
      exact h.count
    · exact newPacked_build h hlen isAsync (hbody h.count)
  · intro h
    refine ⟨newPacked_fails h isAsync body, fun htype => newFixed_fails ?_⟩
    rintro ⟨hhere, hlt, -⟩
    rw [List.length_map] at hlt
    exact h ⟨hhere, htype, hlt⟩

/-- The bytes of units laid out by their own encoding. -/
theorem units_bytes {α : Type} {w : ℕ} {toNat : α → ℕ} {toLe : α → List UInt8}
    (h : ∀ u, toLe u = leBytes w (toNat u)) (elems : List α) :
    (elems.map toLe).flatten = ((elems.map toNat).map (leBytes w)).flatten := by
  rw [List.map_map]
  congr 1
  exact List.map_congr_left fun u _ => h u

/-- A body of units is the one of their bytes. -/
theorem leBody_units {α : Type} {w : ℕ} (hw : w ≤ 16) {toNat : α → ℕ} {toLe : α → List UInt8}
    (h : ∀ u, toLe u = leBytes w (toNat u)) {elems : List α}
    (hcount : (elems.map toNat).length < 2 ^ 32) :
    leBody env w toLe elems =
      (tryReserveExact env (elems.map toLe).flatten.length).map fun _ =>
        (elems.map toLe).flatten := by
  have hwidth : ∀ u, (toLe u).length = w := fun u => by rw [h, leBytes_length]
  have hwidths : ∀ b ∈ elems.map toLe, b.length = w := by
    intro b hb
    obtain ⟨u, -, rfl⟩ := List.mem_map.mp hb
    exact hwidth u
  rw [List.length_map] at hcount
  have hle : elems.length * w ≤ usizeMax := by
    refine le_trans (Nat.mul_le_mul (Nat.le_of_lt hcount) hw) ?_
    decide
  rw [leBody_eq env hwidth hle, Ranges.flatten_length hwidths, List.length_map]

theorem copied_bytes (elems : List UInt8) :
    elems = ((elems.map UInt8.toNat).map (leBytes 1)).flatten := by
  induction elems with
  | nil => rfl
  | cons b bs ih =>
    have hb : leBytes 1 b.toNat = [b] := by
      show [UInt8.ofNat b.toNat] = [b]
      rw [UInt8.ofNat_toNat]
    rw [List.map_cons, List.map_cons, List.flatten_cons, ← ih, hb, List.singleton_append]

theorem copied_bulk (elems : List UInt8) (isAsync : Bool) :
    BulkNew x env pre .i8 (elems.map UInt8.toNat) isAsync
      (newPacked x env isAsync pre .i8 elems.length (copiedBody env elems)) := by
  refine newPacked_bulk (List.length_map _).symm ?_ isAsync (copied_bytes elems) fun _ => ?_
  · intro u hu
    obtain ⟨b, -, rfl⟩ := List.mem_map.mp hu
    exact b.toNat_lt
  · unfold copiedBody
    cases tryReserveExact env elems.length <;> rfl

theorem zeroed_bulk (len : UInt32) :
    BulkNew x env pre .i8 (List.replicate len.toNat 0) false (newZeroedI8 x env pre len) := by
  have hbytes : List.replicate len.toNat (0 : UInt8) =
      ((List.replicate len.toNat 0).map (leBytes PackedKind.i8.width)).flatten := by
    rw [List.map_replicate]
    exact List.flatten_replicate_singleton.symm
  refine newPacked_bulk (List.length_replicate).symm ?_ false hbytes fun _ => ?_
  · intro u hu
    rw [List.eq_of_mem_replicate hu]
    decide
  · unfold zeroedBody
    rw [List.length_replicate]
    cases tryReserveExact env len.toNat <;> rfl

theorem i16_bulk (elems : List UInt16) (isAsync : Bool) :
    BulkNew x env pre .i16 (elems.map UInt16.toNat) isAsync
      (newPacked x env isAsync pre .i16 elems.length (leBody env 2 UInt16.toLeBytes elems)) := by
  refine newPacked_bulk (List.length_map _).symm ?_ isAsync
    (units_bytes (fun u => rfl) elems) (leBody_units (by decide) fun u => rfl)
  intro u hu
  obtain ⟨b, -, rfl⟩ := List.mem_map.mp hu
  exact b.toNat_lt

theorem i64_bulk (elems : List UInt64) :
    BulkNew x env pre .i64 (elems.map UInt64.toNat) false
      (newPacked x env false pre .i64 elems.length (leBody env 8 UInt64.toLeBytes elems)) := by
  refine newPacked_bulk (List.length_map _).symm ?_ false
    (units_bytes (fun u => rfl) elems) (leBody_units (by decide) fun u => rfl)
  intro u hu
  obtain ⟨b, -, rfl⟩ := List.mem_map.mp hu
  exact lt_of_lt_of_eq b.toNat_lt (by decide)

/-- The encoding of a checked element, written once into a pattern of its width. -/
theorem pattern_eq {elem : HostVal} (h : checkElem x pre elem = .ok ()) :
    ∃ pattern, slotBytes (pubFieldSlot pre.field 0) elem.raw = some pattern ∧
      pattern.length = pre.layout.stride ∧
      writeSlot (pre.layout.elemAt 0) (List.replicate pre.layout.stride 0) elem.raw =
        some pattern := by
  have haccept := checkElem_accepts h
  have hfit : (0 + [elem.raw].length) * (pubFieldSlot pre.field 0).width ≤
      (List.replicate pre.layout.stride (0 : UInt8)).length := by
    rw [List.length_replicate, List.length_singleton, Nat.zero_add, Nat.one_mul]
    exact le_rfl
  obtain ⟨bs, hbs, hwidths, hwrite⟩ :=
    @writeFrom_eq _ [elem.raw] _ 0 (by simpa using haccept) hfit
  obtain ⟨pattern, hpattern⟩ : ∃ pattern, bs = [pattern] := by
    have hone := congrArg List.length hbs
    rw [List.length_map, List.length_map] at hone
    exact List.length_eq_one_iff.mp hone
  subst hpattern
  have hwidth : pattern.length = pre.layout.stride := hwidths pattern List.mem_cons_self
  refine ⟨pattern, (List.cons.inj hbs).1.symm, hwidth, ?_⟩
  rw [Nat.zero_mul, List.flatten_cons, List.flatten_nil, List.append_nil,
    overwrite_all (by rw [List.length_replicate, hwidth])] at hwrite
  unfold writeFrom at hwrite
  split at hwrite
  · nomatch hwrite
  · rename_i data hdata
    rw [show data = pattern from Option.some.inj hwrite] at hdata
    exact hdata

/-- The constructor that repeats an element agrees with `new_fixed` on the copies. -/
theorem new_replicated (elem : HostVal) (len : UInt32) : ReplicatedNew x env pre elem len := by
  have hmem : ∀ v ∈ List.replicate len.toNat elem, v = elem := fun v hv =>
    List.eq_of_mem_replicate hv
  have hlen : len.toNat < 2 ^ 32 := len.toNat_lt
  constructor
  · intro hhere helem
    obtain ⟨pattern, hbytes, hwidth, hwrite⟩ := pattern_eq helem
    have hpos : 0 < pattern.length := by
      rw [hwidth]
      exact TestStore.slot_width_pos _
    have hbs : (List.replicate len.toNat pattern).map some =
        (List.replicate len.toNat elem).map
          fun v => slotBytes (pubFieldSlot pre.field 0) v.raw := by
      rw [List.map_replicate, List.map_replicate, hbytes]
    have hsize : (List.replicate len.toNat pattern).flatten.length =
        len.toNat * pre.layout.stride := by
      rw [Ranges.flatten_length fun b hb => List.eq_of_mem_replicate hb ▸ hwidth,
        List.length_replicate]
    have hbody : bodyLen pre len.toNat =
        .ok (List.replicate len.toNat pattern).flatten.length := by
      rw [bodyLen_eq, if_pos hlen, hsize]
    refine ⟨_, _, newFixed_build hhere (by rw [List.length_replicate]; exact hlen)
      (fun v hv => hmem v hv ▸ helem) hbs, ?_⟩
    rw [new, HostResult.check_ok (checkAllocator_ok.mpr hhere), HostResult.check_ok helem,
      HostResult.check_ok hbody, HostCtx.build]
    apply HostCtx.reserved_congr
    intro y hy
    rw [hwrite]
    dsimp only
    rw [hsize, ← hwidth, filledBody_eq env hpos]
    cases tryReserveExact env (len.toNat * pattern.length) with
    | error e => rfl
    | ok a => exact finishPacked_eq (by rw [hy]; exact hhere) _
  · intro h
    refine ⟨?_, fun hne => newFixed_fails ?_⟩
    · by_cases hhere : checkHandle x.id pre.store = .ok ()
      · rw [new, HostResult.check_ok (checkAllocator_ok.mpr hhere)]
        exact HostResult.check_fails fun a ha => h ⟨hhere, ha⟩
      · exact HostResult.check_fails fun a ha => hhere (checkAllocator_ok.mp ha)
    · rintro ⟨hhere, -, helems⟩
      exact h ⟨hhere, helems elem (List.mem_replicate.mpr ⟨hne, rfl⟩)⟩

/-- **Bulk constructors build what `new_fixed` builds.** -/
theorem bulkConstructors (x : HostCtx) (env : HostEnv) (pre : ArrayRefPre) :
    BulkConstructors x env pre where
  replicated := new_replicated
  i8 elems := copied_bulk elems.elems false
  i8_async elems := copied_bulk elems.elems true
  zeroed_i8 := zeroed_bulk
  i16 elems := i16_bulk elems.elems false
  i16_async elems := i16_bulk elems.elems true
  i64 elems := i64_bulk elems.elems

end ArrayRef

end Constructors

/-! ## Ranges -/

/-- Elements are within an array if their bytes are within its body. -/
theorem within_arrayLen {o : GcObject} {w : ℕ} (hw : 0 < w) (i : ℕ) :
    i ≤ o.arrayLen w ↔ i * w ≤ o.data.length := by
  rw [GcObject.arrayLen, Nat.max_eq_left hw]
  exact Nat.le_div_iff_mul_le hw

namespace ArrayRef

/-- The range of a slice's worth of elements never overflows. -/
theorem elementByteRange_eq (offset : UInt32) {count w : ℕ} (hw : w ≤ 16)
    (h : count * w ≤ isizeMax) :
    elementByteRange offset count w = some (offset.toNat * w, count * w + offset.toNat * w) := by
  have hoffset : offset.toNat * w ≤ 2 ^ 32 * 16 :=
    Nat.mul_le_mul (Nat.le_of_lt offset.toNat_lt) hw
  have hstart : offset.toNat * w ≤ usizeMax := le_trans hoffset (by decide)
  have hbytes : count * w ≤ usizeMax := le_trans h (by decide)
  have hstop : count * w + offset.toNat * w ≤ usizeMax :=
    le_trans (Nat.add_le_add h hoffset) (by decide)
  unfold elementByteRange checkedMul checkedAdd
  rw [if_pos hstart, if_pos hbytes]
  dsimp only [bind, Option.bind]
  rw [if_pos hstop]
  rfl

theorem getRange_eq (data : List UInt8) (offset count w : ℕ) :
    getRange data (offset * w, count * w + offset * w) =
      if (offset + count) * w ≤ data.length then some (window data (offset * w) (count * w))
      else none := by
  have hsum : count * w + offset * w = (offset + count) * w := by ring
  have hdiff : count * w + offset * w - offset * w = count * w := Nat.add_sub_cancel _ _
  unfold getRange
  rw [hdiff, hsum]
  by_cases h : (offset + count) * w ≤ data.length
  · rw [if_pos h, if_pos ⟨by rw [← hsum]; exact Nat.le_add_left _ _, h⟩]
  · rw [if_neg h, if_neg fun hr => h hr.2]

end ArrayRef

/-! ## Changing an entry in place -/

namespace ReclaimArena

variable {E : Type}

theorem ext_data {a b : ReclaimArena E} (hs : a.slots = b.slots)
    (hg : a.generations = b.generations) (hf : a.free = b.free) : a = b := by
  obtain ⟨s, g, f, p, l⟩ := a
  obtain ⟨s', g', f', p', l'⟩ := b
  obtain rfl : s = s' := hs
  obtain rfl : g = g' := hg
  obtain rfl : f = f' := hf
  rfl

theorem update_some {a : ReclaimArena E} {i : ℕ} {e : E} (h : a.get i = some e) (f : E → E) :
    (a.update i f).slots = a.slots.set i (some (f e)) ∧
      (a.update i f).generations = a.generations ∧ (a.update i f).free = a.free := by
  unfold update
  split
  · rename_i hnone
    nomatch hnone.symm.trans h
  · rename_i e' hsome
    obtain rfl := Option.some.inj (hsome.symm.trans h)
    exact ⟨rfl, rfl, rfl⟩

/-- Of two changes of an entry the second one counts. -/
theorem update_update {a : ReclaimArena E} {i : ℕ} {e : E} (h : a.get i = some e)
    {f g k : E → E} (hk : k e = g (f e)) : (a.update i f).update i g = a.update i k := by
  have hget : (a.update i f).get i = some (f e) := by
    rw [update_get, if_pos rfl, h, Option.map_some]
  obtain ⟨hs, hg, hf⟩ := update_some h f
  obtain ⟨hs', hg', hf'⟩ := update_some hget g
  obtain ⟨hs'', hg'', hf''⟩ := update_some h k
  apply ext_data
  · rw [hs', hs, hs'', List.set_set, hk]
  · rw [hg', hg, hg'']
  · rw [hf', hf, hf'']

theorem update_same {a : ReclaimArena E} {i : ℕ} {e : E} (h : a.get i = some e) {f : E → E}
    (hf : f e = e) : a.update i f = a := by
  obtain ⟨hs, hg, hfree⟩ := update_some h f
  obtain ⟨hi, hval⟩ := List.getElem?_eq_some_iff.mp (Slots.entry_eq_some.mp h)
  apply ext_data
  · rw [hs, hf, ← hval]
    exact List.set_getElem_self hi
  · exact hg
  · exact hfree

end ReclaimArena

/-! ## Access -/

section Access

variable {x : TestStore} {h : Rooted} {kind : PackedKind}

theorem PackedKind.width_pos (kind : PackedKind) : 0 < kind.width := by cases kind <;> decide

theorem PackedKind.width_le (kind : PackedKind) : kind.width ≤ 16 := by cases kind <;> decide

namespace TestStore

variable {field : FieldType} {o : GcObject} {body : List UInt8} {n offset : ℕ}

theorem arrayField_ok :
    x.arrayField o = .ok field ↔ x.inner.engine.arrayField o.typeId = some field := by
  unfold arrayField
  split
  · rename_i hnone
    rw [hnone]
    exact ⟨nofun, nofun⟩
  · rename_i f hf
    rw [hf]
    exact ⟨fun h => congrArg some (Except.ok.inj h),
      fun h => congrArg Except.ok (Option.some.inj h)⟩

theorem ArrayAt.elem {o : GcObject} {field : FieldType} (ha : x.ArrayAt h kind o field) (i : ℕ) :
    (Layout.forArray field).elemAt i = .scalar (i * kind.width) kind.scalar := by
  show (pubFieldSlot field 0).withOffset (i * (Layout.forArray field).stride) = _
  rw [PackedKind.elem_of ha.type, PackedKind.stride_of ha.type]
  rfl

theorem ArrayAt.len (ha : x.ArrayAt h kind o field) (i : ℕ) :
    i ≤ o.arrayLen (Layout.forArray field).stride ↔ i * kind.width ≤ o.data.length := by
  rw [PackedKind.stride_of ha.type]
  exact within_arrayLen kind.width_pos i

/-- What `get` and the guest read of an element: its bytes, zero-extended. -/
theorem ArrayAt.get (ha : x.ArrayAt h kind o field) {i : ℕ}
    (hi : i < o.arrayLen (Layout.forArray field).stride) :
    x.hostElement h i =
        .ok (kind.val (leNat (window o.data (i * kind.width) kind.width))).raw ∧
      readAs ((Layout.forArray field).elemAt i) o.data kind.ext =
        .ok (kind.val (leNat (window o.data (i * kind.width) kind.width))).raw := by
  have hfit : i * kind.width + kind.width ≤ o.data.length := by
    rw [← Nat.succ_mul]
    exact (ha.len (i + 1)).mp hi
  have hslice : slice o.data (i * kind.width) kind.scalar.width =
      some (window o.data (i * kind.width) kind.width) := by
    rw [kind.scalar_width]
    exact slice_eq_window hfit
  have hread : readSlot ((Layout.forArray field).elemAt i) o.data =
      some (kind.val (leNat (window o.data (i * kind.width) kind.width))).raw := by
    rw [ha.elem, readSlot, hslice]
    cases kind <;> rfl
  constructor
  · unfold hostElement
    rw [ha.object]
    dsimp only [bind, Except.bind]
    rw [ha.metadata]
    dsimp only
    rw [if_pos hi, hread]
    rfl
  · rw [ha.elem] at hread ⊢
    cases kind with
    | i64 => exact congrArg orPanic hread
    | i8 =>
      have hbytes : slice o.data (i * 1) (ScalarKind.width .i8) = some _ := hslice
      show (orPanic (readSlotPacked (.scalar (i * 1) .i8) o.data false) >>= fun v =>
        pure (Val.i32 v)) = _
      rw [readSlotPacked, hbytes]
      rfl
    | i16 =>
      have hbytes : slice o.data (i * 2) (ScalarKind.width .i16) = some _ := hslice
      show (orPanic (readSlotPacked (.scalar (i * 2) .i16) o.data false) >>= fun v =>
        pure (Val.i32 v)) = _
      rw [readSlotPacked, hbytes]
      rfl

/-! ### Reads -/

/-- A body that holds the bytes of `n` elements from `offset` on. -/
structure Holds (kind : PackedKind) (o : GcObject) (offset n : ℕ) (body : List UInt8) : Prop where
  length : n * kind.width ≤ body.length
  chunks : ∀ k < n, chunk body kind.width k =
    window o.data ((offset + k) * kind.width) kind.width

/-- A bulk read that decodes such a body is right. -/
theorem bulkRead {α : Type} {admits : ℕ → Prop} {toNat : α → ℕ} {r : Except TestError (List α)}
    (hrange : ∀ len, admits len → offset + n ≤ len) (hok : ∀ o field, x.ArrayAt h kind o field →
      admits (o.arrayLen (Layout.forArray field).stride) →
        ∃ body out, Holds kind o offset n body ∧ r = .ok out ∧ out.length = n ∧
          ∀ k u, out[k]? = some u → toNat u = leNat (chunk body kind.width k))
    (hfail : ∀ out, r = .ok out → ∃ o field, x.ArrayAt h kind o field ∧
      admits (o.arrayLen (Layout.forArray field).stride)) :
    BulkRead x h kind offset n admits toNat r := by
  constructor
  · intro o field ha hadm
    obtain ⟨body, out, hbody, hr, hlen, hout⟩ := hok o field ha hadm
    refine ⟨out, hr, hlen, fun k u hk => ?_⟩
    have hlt : k < n := by
      rw [← hlen]
      exact (List.getElem?_eq_some_iff.mp hk).1
    have hin : offset + k < o.arrayLen (Layout.forArray field).stride :=
      lt_of_lt_of_le (Nat.add_lt_add_left hlt offset) (hrange _ hadm)
    rw [hout k u hk, hbody.chunks k hlt]
    exact ha.get hin
  · intro hno
    cases hr : r with
    | error e => exact ⟨e, rfl⟩
    | ok out =>
      obtain ⟨o, field, ha, hadm⟩ := hfail out hr
      exact absurd hadm (hno o field ha)

theorem readUnits_length {α : Type} (w : ℕ) (fromLe : List UInt8 → α) (body : List UInt8)
    (dst : List α) : (readUnits w fromLe body dst).length = dst.length := List.length_mapIdx

/-- Every unit is decoded from its piece. -/
theorem readUnits_get {α : Type} {w : ℕ} {fromLe : List UInt8 → α} {dst : List α}
    (h : dst.length * w ≤ body.length) {k : ℕ} {u : α}
    (hk : (readUnits w fromLe body dst)[k]? = some u) : u = fromLe (chunk body w k) := by
  rw [readUnits, List.getElem?_mapIdx, Option.map_eq_some_iff] at hk
  obtain ⟨old, hold, rfl⟩ := hk
  have hlt : k < dst.length := (List.getElem?_eq_some_iff.mp hold).1
  exact if_pos (le_trans (Nat.mul_le_mul_right w hlt) h)

theorem window_length_le (l : List UInt8) (i n : ℕ) : (window l i n).length ≤ n :=
  List.length_take_le _ _

theorem fromLeBytes_16 {bytes : List UInt8} (h : bytes.length ≤ 2) :
    (UInt16.fromLeBytes bytes).toNat = leNat bytes := by
  have hlt : leNat bytes < 2 ^ 16 :=
    lt_of_lt_of_le (leNat_lt bytes) (le_trans (Nat.pow_le_pow_right (by decide) h) (by decide))
  exact (UInt16.toNat_ofNat').trans (Nat.mod_eq_of_lt hlt)

theorem fromLeBytes_64 {bytes : List UInt8} (h : bytes.length ≤ 8) :
    (UInt64.fromLeBytes bytes).toNat = leNat bytes := by
  have hlt : leNat bytes < 2 ^ 64 :=
    lt_of_lt_of_le (leNat_lt bytes) (le_trans (Nat.pow_le_pow_right (by decide) h) (by decide))
  exact (UInt64.toNat_ofNat').trans (Nat.mod_eq_of_lt hlt)

/-- A byte is the number of a piece of one byte. -/
theorem leNat_chunk_one {k : ℕ} {u : UInt8} (hk : body[k]? = some u) :
    u.toNat = leNat (chunk body 1 k) := by
  obtain ⟨hlt, rfl⟩ := List.getElem?_eq_some_iff.mp hk
  have hchunk : chunk body 1 k = [body[k]] := by
    rw [chunk, window, Nat.mul_one, List.drop_eq_getElem_cons hlt]
    rfl
  rw [hchunk]
  rfl

/-- What passes the checks of a whole copy. -/
theorem packedBody_ok : x.packedBody h kind n = .ok body ↔
    ∃ o field, x.ArrayAt h kind o field ∧
      (n < 2 ^ 32 ∧ n = o.arrayLen (Layout.forArray field).stride) ∧ body = o.data := by
  unfold packedBody
  constructor
  · intro hok
    obtain ⟨o, ho, hok⟩ := bind_ok_iff.mp hok
    obtain ⟨field, hfield, hok⟩ := bind_ok_iff.mp hok
    split at hok
    · nomatch hok
    · rename_i htype
      split at hok
      · nomatch hok
      · rename_i hsmall
        split at hok
        · nomatch hok
        · rename_i hlen
          exact ⟨o, field, ⟨ho, arrayField_ok.mp hfield, not_not.mp htype⟩,
            ⟨Nat.lt_of_not_le hsmall, not_not.mp hlen⟩, (Except.ok.inj hok).symm⟩
  · rintro ⟨o, field, ha, ⟨hsmall, hlen⟩, rfl⟩
    rw [ha.object]
    dsimp only [bind, Except.bind]
    rw [arrayField_ok.mpr ha.metadata]
    dsimp only
    rw [if_neg (not_not.mpr ha.type), if_neg (Nat.not_le.mpr hsmall), if_neg (not_not.mpr hlen)]
    rfl

/-- What passes the checks of a range. -/
theorem packedRange_ok {offset : UInt32} (hn : n * kind.width ≤ isizeMax) :
    x.packedRange h kind offset n = .ok body ↔
    ∃ o field, x.ArrayAt h kind o field ∧
      offset.toNat + n ≤ o.arrayLen (Layout.forArray field).stride ∧
      body = window o.data (offset.toNat * kind.width) (n * kind.width) := by
  unfold packedRange
  constructor
  · intro hok
    obtain ⟨o, ho, hok⟩ := bind_ok_iff.mp hok
    obtain ⟨field, hfield, hok⟩ := bind_ok_iff.mp hok
    split at hok
    · nomatch hok
    · rename_i htype
      have ha : x.ArrayAt h kind o field := ⟨ho, arrayField_ok.mp hfield, not_not.mp htype⟩
      rw [PackedKind.stride_of ha.type,
        ArrayRef.elementByteRange_eq offset kind.width_le hn] at hok
      dsimp only at hok
      rw [ArrayRef.getRange_eq] at hok
      by_cases hin : (offset.toNat + n) * kind.width ≤ o.data.length
      · rw [if_pos hin] at hok
        exact ⟨o, field, ha, (ha.len _).mpr hin, (Except.ok.inj hok).symm⟩
      · rw [if_neg hin] at hok
        nomatch hok
  · rintro ⟨o, field, ha, hin, rfl⟩
    rw [ha.object]
    dsimp only [bind, Except.bind]
    rw [arrayField_ok.mpr ha.metadata]
    dsimp only
    rw [if_neg (not_not.mpr ha.type), PackedKind.stride_of ha.type,
      ArrayRef.elementByteRange_eq offset kind.width_le hn]
    dsimp only
    rw [ArrayRef.getRange_eq, if_pos ((ha.len _).mp hin)]
    rfl

/-- The whole body holds all elements. -/
theorem ArrayAt.holds (ha : x.ArrayAt h kind o field)
    (hn : n = o.arrayLen (Layout.forArray field).stride) : Holds kind o 0 n o.data := by
  constructor
  · exact (ha.len n).mp (le_of_eq hn)
  · intro k _
    rw [Nat.zero_add]
    rfl

/-- A range of the body holds the elements of the range. -/
theorem ArrayAt.holds_range (ha : x.ArrayAt h kind o field)
    (hin : offset + n ≤ o.arrayLen (Layout.forArray field).stride) :
    Holds kind o offset n (window o.data (offset * kind.width) (n * kind.width)) := by
  have hfit : offset * kind.width + n * kind.width ≤ o.data.length := by
    rw [← Nat.add_mul]
    exact (ha.len _).mp hin
  constructor
  · rw [Ranges.window_length hfit]
  · intro k hk
    rw [Ranges.chunk_window hk, Nat.add_mul]

/-- A range of as many bytes as it has elements. -/
theorem ArrayAt.window_length (ha : x.ArrayAt h kind o field)
    (hin : offset + n ≤ o.arrayLen (Layout.forArray field).stride) :
    (window o.data (offset * kind.width) (n * kind.width)).length = n * kind.width := by
  apply Ranges.window_length
  rw [← Nat.add_mul]
  exact (ha.len _).mp hin

/-- A body of bytes is copied as it is. -/
theorem copied_read {admits : ℕ → Prop} {dst : List UInt8}
    (hrange : ∀ len, admits len → offset + dst.length ≤ len) {r : Except TestError (List UInt8)}
    (hok : ∀ o field, x.ArrayAt h .i8 o field →
      admits (o.arrayLen (Layout.forArray field).stride) →
        ∃ body, r = .ok body ∧ Holds .i8 o offset dst.length body ∧ body.length = dst.length)
    (hfail : ∀ body, r = .ok body → ∃ o field, x.ArrayAt h .i8 o field ∧
      admits (o.arrayLen (Layout.forArray field).stride)) :
    BulkRead x h .i8 offset dst.length admits UInt8.toNat (r >>= copyFromSlice dst) := by
  refine bulkRead hrange (fun o field ha hadm => ?_) fun out hout => ?_
  · obtain ⟨body, rfl, hbody, hlen⟩ := hok o field ha hadm
    refine ⟨body, body, hbody, ?_, hlen, fun k u hk => leNat_chunk_one hk⟩
    exact if_pos hlen.symm
  · obtain ⟨body, hbody, -⟩ := bind_ok_iff.mp hout
    exact hfail body hbody

/-- Units are decoded from a body. -/
theorem units_read {α : Type} {admits : ℕ → Prop} {dst : List α} {fromLe : List UInt8 → α}
    {toNat : α → ℕ}
    (hle : ∀ bytes : List UInt8, bytes.length ≤ kind.width → toNat (fromLe bytes) = leNat bytes)
    (hrange : ∀ len, admits len → offset + dst.length ≤ len) {r : Except TestError (List UInt8)}
    (hok : ∀ o field, x.ArrayAt h kind o field →
      admits (o.arrayLen (Layout.forArray field).stride) →
        ∃ body, r = .ok body ∧ Holds kind o offset dst.length body)
    (hfail : ∀ body, r = .ok body → ∃ o field, x.ArrayAt h kind o field ∧
      admits (o.arrayLen (Layout.forArray field).stride)) :
    BulkRead x h kind offset dst.length admits toNat
      (r >>= fun body => return readUnits kind.width fromLe body dst) := by
  refine bulkRead hrange (fun o field ha hadm => ?_) fun out hout => ?_
  · obtain ⟨body, rfl, hbody⟩ := hok o field ha hadm
    refine ⟨body, _, hbody, rfl, readUnits_length _ _ _ _, fun k u hk => ?_⟩
    rw [readUnits_get hbody.length hk]
    exact hle _ (window_length_le _ _ _)
  · obtain ⟨body, hbody, -⟩ := bind_ok_iff.mp hout
    exact hfail body hbody

/-- Copies of whole arrays. -/
theorem copyToI8_bulk (dst : List UInt8) : BulkRead x h .i8 0 dst.length
    (fun len => dst.length < 2 ^ 32 ∧ dst.length = len) UInt8.toNat
    (x.packedBody h .i8 dst.length >>= copyFromSlice dst) := by
  refine copied_read (fun len hlen => ?_) (fun o field ha hadm => ?_) fun body hbody => ?_
  · rw [Nat.zero_add]
    exact le_of_eq hlen.2
  · refine ⟨o.data, packedBody_ok.mpr ⟨o, field, ha, hadm, rfl⟩, ha.holds hadm.2, ?_⟩
    rw [hadm.2, PackedKind.stride_of ha.type]
    exact (Nat.div_one _).symm
  · obtain ⟨o, field, ha, hadm, -⟩ := packedBody_ok.mp hbody
    exact ⟨o, field, ha, hadm⟩

theorem copyToUnits_bulk {α : Type} {dst : List α} {fromLe : List UInt8 → α} {toNat : α → ℕ}
    (hle : ∀ bytes : List UInt8, bytes.length ≤ kind.width → toNat (fromLe bytes) = leNat bytes) :
    BulkRead x h kind 0 dst.length (fun len => dst.length < 2 ^ 32 ∧ dst.length = len) toNat
      (x.packedBody h kind dst.length >>= fun body =>
        return readUnits kind.width fromLe body dst) := by
  refine units_read hle (fun len hlen => ?_) (fun o field ha hadm => ?_) fun body hbody => ?_
  · rw [Nat.zero_add]
    exact le_of_eq hlen.2
  · exact ⟨o.data, packedBody_ok.mpr ⟨o, field, ha, hadm, rfl⟩, ha.holds hadm.2⟩
  · obtain ⟨o, field, ha, hadm, -⟩ := packedBody_ok.mp hbody
    exact ⟨o, field, ha, hadm⟩

/-- Reads of ranges. -/
theorem readI8_bulk (offset : UInt32) (dst : HostSlice UInt8 1) :
    BulkRead x h .i8 offset.toNat dst.elems.length
      (fun len => offset.toNat + dst.elems.length ≤ len) UInt8.toNat (x.readI8 h offset dst) := by
  refine copied_read (fun _ hlen => hlen) (fun o field ha hin => ?_) fun body hbody => ?_
  · refine ⟨_, (packedRange_ok dst.spans).mpr ⟨o, field, ha, hin, rfl⟩, ha.holds_range hin, ?_⟩
    rw [ha.window_length hin]
    exact Nat.mul_one _
  · obtain ⟨o, field, ha, hin, -⟩ := (packedRange_ok dst.spans).mp hbody
    exact ⟨o, field, ha, hin⟩

theorem readI16_bulk (offset : UInt32) (dst : HostSlice UInt16 2) :
    BulkRead x h .i16 offset.toNat dst.elems.length
      (fun len => offset.toNat + dst.elems.length ≤ len) UInt16.toNat
      (x.readI16 h offset dst) := by
  refine units_read (fun bytes => fromLeBytes_16) (fun _ hlen => hlen)
    (fun o field ha hin => ?_) fun body hbody => ?_
  · exact ⟨_, (packedRange_ok dst.spans).mpr ⟨o, field, ha, hin, rfl⟩, ha.holds_range hin⟩
  · obtain ⟨o, field, ha, hin, -⟩ := (packedRange_ok dst.spans).mp hbody
    exact ⟨o, field, ha, hin⟩

/-! ### Writes -/

theorem hostObject_slot : x.hostObject h = .ok o ↔
    ∃ slot, x.inner.gcSlotChecked x.id h = .ok slot ∧ x.inner.gc.arena.get slot = some o := by
  unfold hostObject
  cases x.inner.gcSlotChecked x.id h with
  | error e => exact ⟨nofun, fun ⟨_, h, _⟩ => (nomatch h)⟩
  | ok slot =>
    dsimp only [liftFault, bind, Except.bind]
    cases hget : x.inner.gc.arena.get slot with
    | none =>
      refine ⟨nofun, fun ⟨i, hi, ho⟩ => ?_⟩
      obtain rfl := Except.ok.inj hi
      rw [hget] at ho
      nomatch ho
    | some o' =>
      constructor
      · intro ho
        obtain rfl := Except.ok.inj ho
        exact ⟨slot, rfl, hget⟩
      · rintro ⟨i, hi, ho⟩
        obtain rfl := Except.ok.inj hi
        rw [hget] at ho
        exact congrArg Except.ok (Option.some.inj ho)

section Body

variable {slot : ℕ} {o : GcObject} (ho : x.inner.gc.arena.get slot = some o)

include ho

theorem setBody_get (data : List UInt8) :
    (x.setBody slot data).inner.gc.arena.get slot = some { o with data := data } := by
  show (x.inner.gc.arena.update slot _).get slot = _
  rw [ReclaimArena.update_get, if_pos rfl, ho, Option.map_some]

theorem setBody_setBody (data data' : List UInt8) :
    (x.setBody slot data).setBody slot data' = x.setBody slot data' := by
  unfold setBody
  dsimp only
  rw [ReclaimArena.update_update ho (k := fun o => { o with data := data' }) rfl]

theorem setBody_self : x.setBody slot o.data = x := by
  unfold setBody
  rw [ReclaimArena.update_same ho rfl]

/-- A handle resolves as before a write. -/
theorem setBody_slot (hslot : x.inner.gcSlotChecked x.id h = .ok slot) (data : List UInt8) :
    (x.setBody slot data).inner.gcSlotChecked (x.setBody slot data).id h = .ok slot := by
  have hgen : (x.setBody slot data).inner.gc.arena.generation slot =
      x.inner.gc.arena.generation slot := ReclaimArena.update_generation _ _ _ _
  unfold StoreInner.gcSlotChecked at hslot ⊢
  obtain ⟨_, hcheck, hrest⟩ := bind_ok_iff.mp hslot
  obtain ⟨i, hi, hrest⟩ := bind_ok_iff.mp hrest
  have his : i = slot := by
    split at hrest
    · nomatch hrest
    · exact Except.ok.inj hrest
  subst his
  have hi' : (x.setBody i data).inner.gcSlot h.index = .ok i := by
    unfold StoreInner.gcSlot at hi ⊢
    split at hi
    · nomatch hi
    · split at hi
      · nomatch hi
      · obtain rfl := Except.ok.inj hi
        rw [setBody_get ho]
  refine bind_ok_iff.mpr ⟨(), hcheck, bind_ok_iff.mpr ⟨i, hi', ?_⟩⟩
  rw [hgen]
  exact hrest

/-- The array behind a handle after a write to its body. -/
theorem ArrayAt.setBody {field : FieldType} (ha : x.ArrayAt h kind o field)
    (hslot : x.inner.gcSlotChecked x.id h = .ok slot) (data : List UInt8) :
    (x.setBody slot data).ArrayAt h kind { o with data := data } field where
  object := hostObject_slot.mpr ⟨slot, setBody_slot ho hslot data, setBody_get ho data⟩
  metadata := ha.metadata
  type := ha.type

omit ho in
/-- Setting one element is writing its bytes. -/
theorem ArrayAt.set {field : FieldType} (ha : x.ArrayAt h kind o field)
    (hslot : x.inner.gcSlotChecked x.id h = .ok slot) (hvar : field.mutability = .var) {i : ℕ}
    (hi : i < o.arrayLen (Layout.forArray field).stride) (unit : ℕ) {data : List UInt8}
    (hw : writeSlot ((Layout.forArray field).elemAt i) o.data (kind.val unit).raw = some data) :
    x.set h i (kind.val unit) = (x.setBody slot data, .ok ()) := by
  have hcheck : x.checkSet h i (kind.val unit) = .ok (slot, data) := by
    unfold checkSet
    rw [hslot]
    dsimp only [liftFault, bind, Except.bind]
    rw [ha.object]
    dsimp only
    rw [arrayField_ok.mpr ha.metadata]
    dsimp only
    rw [if_neg (Nat.not_le.mpr hi), if_neg (not_not.mpr hvar), PackedKind.fits_val ha.type]
    dsimp only
    rw [if_neg (by decide : ¬ (!true) = true), hw]
    rfl
  rw [TestStore.set, hcheck]

end Body

/-- Setting elements one after the other is writing their bytes. -/
theorem ArrayAt.setAll {slot : ℕ} {i : ℕ} {units : List ℕ} (ha : x.ArrayAt h kind o field)
    (ho : x.inner.gc.arena.get slot = some o) (hslot : x.inner.gcSlotChecked x.id h = .ok slot)
    (hvar : field.mutability = .var)
    (hin : i + units.length ≤ o.arrayLen (Layout.forArray field).stride) {data : List UInt8}
    (hw : writeFrom (Layout.forArray field) o.data i ((units.map kind.val).map HostVal.raw) =
      some data) : x.setAll h i (units.map kind.val) = (x.setBody slot data, .ok ()) := by
  induction units generalizing x o i with
  | nil =>
    obtain rfl := Option.some.inj hw
    show (x, _) = _
    rw [setBody_self ho]
  | cons u us ih =>
    rw [List.length_cons] at hin
    rw [List.map_cons, List.map_cons, writeFrom] at hw
    split at hw
    · cases hw
    · rename_i first hfirst
      have hlen : first.length = o.data.length := writeSlot_length hfirst
      have hset := ha.set hslot hvar (by omega) u hfirst
      have hin' : i + 1 + us.length ≤
          GcObject.arrayLen { o with data := first } (Layout.forArray field).stride := by
        unfold GcObject.arrayLen at hin ⊢
        rw [hlen]
        omega
      have hrest := ih (ha.setBody ho hslot first) (setBody_get ho first)
        (setBody_slot ho hslot first) hin' hw
      rw [List.map_cons, TestStore.setAll, hset]
      dsimp only
      rw [hrest, setBody_setBody ho]

/-- What passes the checks of a write. -/
theorem packedBodyMut_ok {offset : UInt32} (hn : n * kind.width ≤ isizeMax)
    {r : ℕ × List UInt8 × ℕ × List UInt8} : x.packedBodyMut h kind offset n = .ok r ↔
    ∃ slot o field, x.inner.gcSlotChecked x.id h = .ok slot ∧ x.ArrayAt h kind o field ∧
      (field.mutability = .var ∧
        offset.toNat + n ≤ o.arrayLen (Layout.forArray field).stride) ∧
      r = (slot, o.data, offset.toNat * kind.width,
        window o.data (offset.toNat * kind.width) (n * kind.width)) := by
  unfold packedBodyMut
  constructor
  · intro hok
    obtain ⟨slot, hslot, hok⟩ := bind_ok_iff.mp hok
    have hslot' : x.inner.gcSlotChecked x.id h = .ok slot := by
      revert hslot
      cases x.inner.gcSlotChecked x.id h with
      | error e => exact nofun
      | ok i => exact fun h => congrArg Except.ok (Except.ok.inj h)
    obtain ⟨o, ho, hok⟩ := bind_ok_iff.mp hok
    obtain ⟨field, hfield, hok⟩ := bind_ok_iff.mp hok
    split at hok
    · nomatch hok
    · rename_i htype
      split at hok
      · nomatch hok
      · rename_i hvar
        have ha : x.ArrayAt h kind o field := ⟨ho, arrayField_ok.mp hfield, not_not.mp htype⟩
        rw [PackedKind.stride_of ha.type,
          ArrayRef.elementByteRange_eq offset kind.width_le hn] at hok
        dsimp only at hok
        rw [ArrayRef.getRange_eq] at hok
        by_cases hin : (offset.toNat + n) * kind.width ≤ o.data.length
        · rw [if_pos hin] at hok
          exact ⟨slot, o, field, hslot', ha, ⟨not_not.mp hvar, (ha.len _).mpr hin⟩,
            (Except.ok.inj hok).symm⟩
        · rw [if_neg hin] at hok
          nomatch hok
  · rintro ⟨slot, o, field, hslot, ha, ⟨hvar, hin⟩, rfl⟩
    rw [hslot]
    dsimp only [liftFault, bind, Except.bind]
    rw [ha.object]
    dsimp only
    rw [arrayField_ok.mpr ha.metadata]
    dsimp only
    rw [if_neg (not_not.mpr ha.type), if_neg (not_not.mpr hvar), PackedKind.stride_of ha.type,
      ArrayRef.elementByteRange_eq offset kind.width_le hn]
    dsimp only
    rw [ArrayRef.getRange_eq, if_pos ((ha.len _).mp hin)]
    rfl

/-- A write that fills its range with the bytes of its elements is setting them one after the
other. -/
theorem writePacked_bulk {offset : UInt32} {units : List ℕ} (hcount : n = units.length)
    (hlt : ∀ u ∈ units, u < 256 ^ kind.width) (hn : n * kind.width ≤ isizeMax)
    {fill : List UInt8 → Except TestError (List UInt8)}
    (hfill : ∀ body : List UInt8, body.length = n * kind.width →
      fill body = .ok (units.map (leBytes kind.width)).flatten) :
    BulkWrite x h kind offset.toNat units (x.writePacked h kind offset n fill) := by
  subst hcount
  constructor
  · intro o field ha hvar hin
    obtain ⟨slot, hslot, ho⟩ := hostObject_slot.mp ha.object
    have hbody := (packedBodyMut_ok hn).mpr ⟨slot, o, field, hslot, ha, ⟨hvar, hin⟩, rfl⟩
    have haccept : ∀ v ∈ (units.map kind.val).map HostVal.raw,
        slotAccepts (pubFieldSlot field 0) v = true := by
      rw [PackedKind.elem_of ha.type]
      exact PackedKind.val_fits kind units 0
    have hfit : (offset.toNat + ((units.map kind.val).map HostVal.raw).length) *
        (pubFieldSlot field 0).width ≤ o.data.length := by
      rw [List.length_map, List.length_map, PackedKind.elem_of ha.type]
      show (offset.toNat + units.length) * kind.scalar.width ≤ _
      rw [kind.scalar_width]
      exact (ha.len _).mp hin
    obtain ⟨bs, hbs, -, hwrite⟩ := writeFrom_eq haccept hfit
    obtain rfl : bs = units.map (leBytes kind.width) := by
      apply List.map_injective_iff.mpr (Option.some_injective _)
      rw [hbs, List.map_map, List.map_map, List.map_map]
      apply List.map_congr_left
      intro u hu
      show slotBytes (pubFieldSlot field 0) (kind.val u).raw = some (leBytes kind.width u)
      rw [PackedKind.elem_of ha.type, PackedKind.slotBytes_val (hlt u hu)]
    have hstart : offset.toNat * (pubFieldSlot field 0).width = offset.toNat * kind.width := by
      rw [PackedKind.elem_of ha.type]
      exact congrArg _ kind.scalar_width
    rw [hstart] at hwrite
    have hset := ha.setAll ho hslot hvar hin hwrite
    rw [hset]
    have hwritten : x.writePacked h kind offset units.length fill =
        (x.setBody slot (overwrite o.data (offset.toNat * kind.width)
          (units.map (leBytes kind.width)).flatten), .ok ()) := by
      unfold writePacked
      rw [hbody]
      dsimp only
      rw [hfill _ (ha.window_length hin)]
    exact ⟨hwritten, by rw [hwritten]⟩
  · intro hno
    unfold writePacked
    cases hbody : x.packedBodyMut h kind offset units.length with
    | error e => exact ⟨e, rfl⟩
    | ok r =>
      obtain ⟨slot, o, field, -, ha, hin, -⟩ := (packedBodyMut_ok hn).mp hbody
      exact absurd hin (hno o field ha)

theorem writeI8_bulk (offset : UInt32) (src : HostSlice UInt8 1) :
    BulkWrite x h .i8 offset.toNat (src.elems.map UInt8.toNat) (x.writeI8 h offset src) := by
  refine writePacked_bulk (List.length_map _).symm (fun u hu => ?_) src.spans fun body hlen => ?_
  · obtain ⟨b, -, rfl⟩ := List.mem_map.mp hu
    exact b.toNat_lt
  · have hsame : body.length = src.elems.length := hlen.trans (Nat.mul_one _)
    rw [copyFromSlice, if_pos hsame]
    exact congrArg Except.ok (ArrayRef.copied_bytes src.elems)

theorem writeI16_bulk (offset : UInt32) (src : HostSlice UInt16 2) :
    BulkWrite x h .i16 offset.toNat (src.elems.map UInt16.toNat) (x.writeI16 h offset src) := by
  refine writePacked_bulk (List.length_map _).symm (fun u hu => ?_) src.spans fun body hlen => ?_
  · obtain ⟨b, -, rfl⟩ := List.mem_map.mp hu
    exact b.toNat_lt
  · have hwidths : ∀ b ∈ src.elems.map UInt16.toLeBytes, b.length = 2 := by
      intro b hb
      obtain ⟨u, -, rfl⟩ := List.mem_map.mp hb
      exact leBytes_length _ _
    have hsize : (src.elems.map UInt16.toLeBytes).flatten.length = body.length := by
      rw [Ranges.flatten_length hwidths, List.length_map]
      exact hlen.symm
    have hfit : (0 + (src.elems.map UInt16.toLeBytes).length) * 2 ≤ body.length := by
      rw [List.length_map, Nat.zero_add]
      exact le_of_eq hlen.symm
    rw [putChunks_eq hwidths hfit, Nat.zero_mul, overwrite_all hsize]
    exact congrArg Except.ok (ArrayRef.units_bytes (fun u => rfl) src.elems)

/-- **Bulk accesses are accesses of every element.** -/
theorem bulkAccess (x : TestStore) (h : Rooted) : BulkAccess x h where
  copy_i8 dst := copyToI8_bulk dst.elems
  copy_i16 _ := copyToUnits_bulk fun _ => fromLeBytes_16
  copy_i64 _ := copyToUnits_bulk fun _ => fromLeBytes_64
  read_i8 := readI8_bulk
  read_i16 := readI16_bulk
  write_i8 := writeI8_bulk
  write_i16 := writeI16_bulk

end TestStore

end Access

/-- **Packed access is element-wise access.**  A bulk constructor reserves the charge of
`new_fixed` and builds its body, a bulk read gives the elements that `get` gives, and a bulk write
is a sequence of `set`s; each fails without a change where it does not apply. -/
theorem HostCtx.packed_access (x : HostCtx) (env : HostEnv) :
    (∀ pre, BulkConstructors x env pre) ∧ ∀ h, BulkAccess x.view h :=
  ⟨ArrayRef.bulkConstructors x env, TestStore.bulkAccess x.view⟩

end SubmilliWasm
