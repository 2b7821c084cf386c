/-
# Subprogram names

The subprogram-name table (`debug/func.rs`): the ranges of the named subprograms of every unit,
sorted by their starts, and the lookup that examines the one range its binary search stops at.
Ranges may nest: the range examined need not cover an address that another one covers.
-/
import Mathlib.Tactic.Common
import SubmilliWasm.Exec.Stack
import SubmilliWasm.Lib.SortedSearch

namespace SubmilliWasm

open SortedSearch

namespace Debug

/-! ## The table -/

/-- What an iterator delivers, and whether it ends in an error. -/
structure Delivered (α : Type) where
  items : List α
  failed : Bool

/-- A debugging entry: its `DW_AT_name` if it has a readable one, and its address ranges, as `u64`
pairs, if they can be read. -/
structure Die where
  isSubprogram : Bool
  name : Option String
  ranges : Option (Delivered (ℕ × ℕ))

structure FuncRange where
  start : ℕ
  finish : ℕ
  name : String
deriving DecidableEq, Repr

structure FuncTable where
  ranges : List FuncRange

/-- The ranges of one entry that fit in 32 bits. -/
def pushRanges (name : String) (ranges : List (ℕ × ℕ)) : List FuncRange :=
  ranges.filterMap fun range =>
    if u32Max < range.1 ∨ u32Max < range.2 then none else some ⟨range.1, range.2, name⟩

/-- `collect_unit`: the ranges pushed until the entries end or one of them fails. -/
def collectUnit : List Die → List FuncRange
  | [] => []
  | die :: dies =>
    if die.isSubprogram then
      match die.name, die.ranges with
      | none, _ => collectUnit dies
      | some _, none => []
      | some name, some ranges =>
        pushRanges name ranges.items ++ if ranges.failed then [] else collectUnit dies
    else collectUnit dies

/-- The ranges of all units, in the order of the sections. -/
def collectRanges (units : List (List Die)) : List FuncRange := units.flatMap collectUnit

/-- `build`. -/
def FuncTable.build (units : List (List Die)) : Option FuncTable :=
  let ranges := collectRanges units
  if ranges.isEmpty then none else some ⟨sortByKey FuncRange.start ranges⟩

/-- `FuncTable::lookup`. -/
def FuncTable.lookup (search : BinarySearch ℕ) (table : FuncTable) (addr : ℕ) : Option String :=
  match floorIndex search (table.ranges.map FuncRange.start) addr with
  | none => none
  | some i =>
    match table.ranges[i]? with
    | none => none
    | some r => if addr < r.finish then some r.name else none

/-- `dwarf_func_name`: the lookup of an offset into the module, relative to its code section. -/
def dwarfFuncName (search : BinarySearch ℕ) (units : List (List Die)) (codeBase codeOffset : ℕ) :
    Option String :=
  if codeOffset < codeBase then none
  else (FuncTable.build units).bind (fun table => table.lookup search (codeOffset - codeBase))

/-! ## What a lookup is for -/

/-- The range `[start, end)` covers the address. -/
def FuncRange.Covers (r : FuncRange) (addr : ℕ) : Prop := r.start ≤ addr ∧ addr < r.finish

instance (r : FuncRange) (addr : ℕ) : Decidable (r.Covers addr) :=
  inferInstanceAs (Decidable (_ ∧ _))

/-- The answer names a covering range of the greatest start, and there is none if no range covers.
-/
def Named (ranges : List FuncRange) (addr : ℕ) : Option String → Prop
  | none => ∀ r ∈ ranges, ¬ r.Covers addr
  | some name => ∃ r ∈ ranges, r.Covers addr ∧ r.name = name ∧
      ∀ r' ∈ ranges, r'.Covers addr → r'.start ≤ r.start

/-- The lookup in the table of some units. -/
def lookupName (search : BinarySearch ℕ) (units : List (List Die)) (addr : ℕ) : Option String :=
  (FuncTable.build units).bind (fun table => table.lookup search addr)

/-! ## What a lookup answers -/

/-- A lookup that stops nowhere answers nothing; one that stops at a range answers its name if it
covers the address. -/
theorem lookupName_cases (search : BinarySearch ℕ) (units : List (List Die)) (addr : ℕ) :
    ((∀ r ∈ collectRanges units, addr < r.start) ∧ lookupName search units addr = none) ∨
    ∃ r, Floor FuncRange.start (collectRanges units) addr r ∧
      lookupName search units addr = if addr < r.finish then some r.name else none := by
  unfold lookupName FuncTable.build
  by_cases hempty : (collectRanges units).isEmpty
  · left
    rw [List.isEmpty_iff] at hempty
    simp [hempty]
  · simp only [hempty, Bool.false_eq_true, if_false, Option.bind_some]
    unfold FuncTable.lookup
    simp only
    cases hfound : floorIndex search
        ((sortByKey FuncRange.start (collectRanges units)).map FuncRange.start) addr with
    | none => exact .inl ⟨floorIndex_none.mp hfound, rfl⟩
    | some i =>
      right
      obtain ⟨r, hr, hfloor⟩ := floorIndex_some hfound
      refine ⟨r, hfloor, ?_⟩
      simp only [hr]

/-- Every range the search may examine is examined by some search. -/
theorem lookupName_examines {units : List (List Die)} {addr : ℕ} {r : FuncRange}
    (h : Floor FuncRange.start (collectRanges units) addr r) :
    ∃ search : BinarySearch ℕ,
      lookupName search units addr = if addr < r.finish then some r.name else none := by
  obtain ⟨search, i, hfound, hr⟩ := h.found
  have hne : (collectRanges units).isEmpty = false := by
    rw [List.isEmpty_eq_false_iff]
    exact List.ne_nil_of_mem h.mem
  refine ⟨search, ?_⟩
  unfold lookupName FuncTable.build
  simp only [hne, Bool.false_eq_true, if_false, Option.bind_some]
  unfold FuncTable.lookup
  simp only [hfound, hr]

/-- **A lookup is right whatever the search stops at exactly when every range it may examine covers
the address, or none does.** -/
theorem lookupName_named_iff (units : List (List Die)) (addr : ℕ) :
    (∀ search, Named (collectRanges units) addr (lookupName search units addr)) ↔
      (∀ r, Floor FuncRange.start (collectRanges units) addr r → r.Covers addr) ∨
        ∀ r ∈ collectRanges units, ¬ r.Covers addr := by
  constructor
  · intro hall
    by_cases hcover : ∀ r ∈ collectRanges units, ¬ r.Covers addr
    · exact .inr hcover
    · left
      intro r hfloor
      obtain ⟨search, hlookup⟩ := lookupName_examines hfloor
      have hnamed := hall search
      refine ⟨hfloor.le, ?_⟩
      by_contra hbeyond
      rw [hlookup, if_neg hbeyond] at hnamed
      exact hcover hnamed
  · intro hcond search
    obtain ⟨habove, hnone⟩ | ⟨r, hfloor, hlookup⟩ := lookupName_cases search units addr
    · rw [hnone]
      intro r hr hcovers
      exact absurd hcovers.1 (Nat.not_le.mpr (habove r hr))
    · rw [hlookup]
      obtain hexamined | hnobody := hcond
      · have hcovers := hexamined r hfloor
        rw [if_pos hcovers.2]
        exact ⟨r, hfloor.mem, hcovers, rfl, fun r' hr' hcovers' =>
          hfloor.greatest r' hr' hcovers'.1⟩
      · have hbeyond : ¬ addr < r.finish := by
          intro hlt
          exact hnobody r hfloor.mem ⟨hfloor.le, hlt⟩
        rw [if_neg hbeyond]
        exact hnobody

/-- An outer subprogram `[0, 100)` around an inner one `[10, 20)`. -/
def nestedUnit : List Die :=
  [⟨true, some "outer", some ⟨[(0, 100)], false⟩⟩, ⟨true, some "inner", some ⟨[(10, 20)], false⟩⟩]

theorem nestedUnit_ranges :
    collectRanges [nestedUnit] = [⟨0, 100, "outer"⟩, ⟨10, 20, "inner"⟩] := by
  decide

/-- Behind the inner subprogram no search finds the outer one. -/
theorem not_named_nested :
    ¬ ∀ (units : List (List Die)) (addr : ℕ) (search : BinarySearch ℕ),
      Named (collectRanges units) addr (lookupName search units addr) := by
  intro hall
  have hfloor : Floor FuncRange.start (collectRanges [nestedUnit]) 50 ⟨10, 20, "inner"⟩ := by
    rw [nestedUnit_ranges]
    decide
  obtain ⟨search, hlookup⟩ := lookupName_examines hfloor
  have hnamed := hall [nestedUnit] 50 search
  rw [hlookup, if_neg (by decide), nestedUnit_ranges] at hnamed
  exact hnamed ⟨0, 100, "outer"⟩ (by decide) (by decide)

end Debug

end SubmilliWasm
