/-
# Source locations

The line table (`debug/line.rs`): the rows of every sequence of every unit, their files interned,
flattened into one list sorted by address, and the lookup that answers the row its binary search
stops at.  The rows that end a sequence are not kept: where a sequence ends is not known to a
lookup.
-/
import Mathlib.Tactic.Common
import SubmilliWasm.Exec.Stack
import SubmilliWasm.Lib.SortedSearch

namespace SubmilliWasm

open SortedSearch

namespace Debug

/-! ## The table -/

/-- A file of a line program: its directory, if it has one, and its name, both empty if unreadable.
-/
structure FileEntry where
  directory : Option String
  pathName : String
deriving DecidableEq, Repr

/-- A row as the line program delivers it, with the file of its index; no column is the left edge.
-/
structure LineRow where
  endSequence : Bool
  address : ℕ
  file : Option FileEntry
  line : Option ℕ
  column : Option ℕ
deriving DecidableEq, Repr

structure SourceLoc where
  file : String
  line : ℕ
  column : ℕ
deriving DecidableEq, Repr

structure Row where
  addr : ℕ
  file : ℕ
  line : ℕ
  column : ℕ
deriving DecidableEq, Repr

/-- The table under construction, with the ids of the files interned so far. -/
structure LineTable where
  rows : List Row
  files : List String
  fileIds : List (String × ℕ)

/-- `file_path`. -/
def filePath : Option FileEntry → String
  | none => "<unknown>"
  | some file =>
    let dir := file.directory.getD ""
    if file.pathName = "" then "<unknown>"
    else if dir = "" then file.pathName
    else if dir.toList.getLast? = some '/' then dir ++ file.pathName
    else dir ++ "/" ++ file.pathName

/-- `intern_file`. -/
def internFile (table : LineTable) (path : String) : LineTable × ℕ :=
  match table.fileIds.lookup path with
  | some id => (table, id)
  | none =>
    let id := table.files.length % 2 ^ 32
    ({ table with files := table.files ++ [path], fileIds := (path, id) :: table.fileIds }, id)

/-- The line of a row, cut to 32 bits. -/
def LineRow.line32 (r : LineRow) : ℕ := r.line.getD 0 % 2 ^ 32

/-- The column of a row, cut to 32 bits. -/
def LineRow.column32 (r : LineRow) : ℕ := r.column.getD 0 % 2 ^ 32

/-- One turn of the loop of `collect_unit`. -/
def collectRow (table : LineTable) (row : LineRow) : LineTable :=
  if row.endSequence then table
  else if u32Max < row.address then table
  else
    let (table, file) := internFile table (filePath row.file)
    { table with rows := table.rows ++ [⟨row.address, file, row.line32, row.column32⟩] }

/-- The tables of all units, each the rows its line program delivers before it ends or fails. -/
def collectRows (units : List (List LineRow)) : LineTable :=
  units.flatten.foldl collectRow ⟨[], [], []⟩

/-- `build`. -/
def LineTable.build (units : List (List LineRow)) : Option LineTable :=
  let table := collectRows units
  if table.rows.isEmpty then none else some { table with rows := sortByKey Row.addr table.rows }

/-- `LineTable::lookup`. -/
def LineTable.lookup (search : BinarySearch ℕ) (table : LineTable) (addr : ℕ) : Option SourceLoc :=
  match floorIndex search (table.rows.map Row.addr) addr with
  | none => none
  | some i =>
    match table.rows[i]? with
    | none => none
    | some row => table.files[row.file]?.map (fun file => ⟨file, row.line, row.column⟩)

/-- The lookup in the table of some units. -/
def lookupLine (search : BinarySearch ℕ) (units : List (List LineRow)) (addr : ℕ) :
    Option SourceLoc :=
  (LineTable.build units).bind (fun table => table.lookup search addr)

/-- `DebugSections::lookup`: the lookup of an offset into the module, relative to its code section.
-/
def lookupOffset (search : BinarySearch ℕ) (units : List (List LineRow)) (codeBase codeOffset : ℕ) :
    Option SourceLoc :=
  if codeOffset < codeBase then none else lookupLine search units (codeOffset - codeBase)

/-! ## What a lookup is for -/

/-- A sequence: its rows, and the address it ends at. -/
structure LineSequence where
  rows : List LineRow
  finish : ℕ
deriving DecidableEq, Repr

/-- The sequences of a program's rows; rows behind the last end belong to none. -/
def sequencesFrom (opened : List LineRow) : List LineRow → List LineSequence
  | [] => []
  | row :: rows =>
    if row.endSequence then ⟨opened, row.address⟩ :: sequencesFrom [] rows
    else sequencesFrom (opened ++ [row]) rows

def sequences (units : List (List LineRow)) : List LineSequence := units.flatMap (sequencesFrom [])

/-- The last row of a sequence at or before an address. -/
def LineSequence.rowAt (s : LineSequence) (addr : ℕ) : Option LineRow :=
  (s.rows.filter (fun r => decide (r.address ≤ addr))).getLast?

/-- The address lies in the sequence: at or after one of its rows and before its end. -/
def LineSequence.Contains (s : LineSequence) (addr : ℕ) : Prop :=
  (∃ r ∈ s.rows, r.address ≤ addr) ∧ addr < s.finish

instance (s : LineSequence) (addr : ℕ) : Decidable (s.Contains addr) :=
  inferInstanceAs (Decidable (_ ∧ _))

/-- The location of a row. -/
def LineRow.location (r : LineRow) : SourceLoc := ⟨filePath r.file, r.line32, r.column32⟩

/-- A location is that of the last row at or before the address in a sequence around it. -/
def Covering (units : List (List LineRow)) (addr : ℕ) (loc : SourceLoc) : Prop :=
  ∃ s ∈ sequences units, s.Contains addr ∧ (s.rowAt addr).map LineRow.location = some loc

/-- The answer is a covering location, and there is none if no sequence contains the address. -/
def Located (units : List (List LineRow)) (addr : ℕ) : Option SourceLoc → Prop
  | none => ∀ s ∈ sequences units, ¬ s.Contains addr
  | some loc => Covering units addr loc

/-- The rows of a sequence come in the order of their addresses, and its end behind them. -/
def LineSequence.Ordered (s : LineSequence) : Prop :=
  (s.rows.map LineRow.address ++ [s.finish]).Pairwise (· ≤ ·)

/-- A row that is kept: it ends no sequence, and its address fits in 32 bits. -/
def LineRow.kept (r : LineRow) : Bool := !r.endSequence && decide (r.address ≤ u32Max)

/-- The rows that are kept, in the order of the sections. -/
def keptRows (units : List (List LineRow)) : List LineRow := units.flatten.filter LineRow.kept

/-- The paths of some rows, each once, in the order of their first use. -/
def distinctPaths (rows : List LineRow) : List String :=
  rows.foldl
    (fun paths r => if filePath r.file ∈ paths then paths else paths ++ [filePath r.file]) []

/-- The location a row is recorded with: its file is known by its number modulo `2 ^ 32`. -/
def recordedLocation (paths : List String) (r : LineRow) : SourceLoc :=
  ⟨paths.getD (paths.idxOf (filePath r.file) % 2 ^ 32) "", r.line32, r.column32⟩

/-! ## Extents -/

/-- A row and where it ends: at the address of the next row of its sequence, or at that sequence's
end.  A row behind the last end of its program has no end. -/
structure Extent where
  row : LineRow
  next : Option ℕ
deriving DecidableEq, Repr

/-- The extents of a program's rows. -/
def extentsFrom : List LineRow → List Extent
  | [] => []
  | row :: rows =>
    if row.endSequence then extentsFrom rows
    else ⟨row, if rows.any LineRow.endSequence then rows.head?.map LineRow.address else none⟩ ::
      extentsFrom rows

def extents (units : List (List LineRow)) : List Extent := units.flatMap extentsFrom

def Extent.address (e : Extent) : ℕ := e.row.address

/-- The address lies between the row and the next one. -/
def Extent.Covers (e : Extent) (addr : ℕ) : Prop := e.address ≤ addr ∧ ∃ n ∈ e.next, addr < n

/-- The number of a row's path, in the order of first use. -/
def pathNumber (units : List (List LineRow)) (r : LineRow) : ℕ :=
  (distinctPaths (keptRows units)).idxOf (filePath r.file)

/-- What is recorded of `e` says what the row of `e'` says: the line and the column, and the path
known by the number of `e`'s, cut to 32 bits. -/
structure Extent.ReadAs (units : List (List LineRow)) (e e' : Extent) : Prop where
  line : e'.row.line32 = e.row.line32
  column : e'.row.column32 = e.row.column32
  path : pathNumber units e'.row = pathNumber units e.row % 2 ^ 32

/-! ## Interning -/

/-- The paths after one more row. -/
theorem distinctPaths_concat (rows : List LineRow) (r : LineRow) :
    distinctPaths (rows ++ [r]) =
      if filePath r.file ∈ distinctPaths rows then distinctPaths rows
      else distinctPaths rows ++ [filePath r.file] := by
  rw [distinctPaths, List.foldl_append, List.foldl_cons, List.foldl_nil]
  rfl

variable {r : LineRow} {s : LineSequence} {units : List (List LineRow)} {rows : List LineRow}
  {addr : ℕ}

/-- Every row's path is among the paths. -/
theorem mem_distinctPaths (hr : r ∈ rows) : filePath r.file ∈ distinctPaths rows := by
  induction rows using List.reverseRecOn with
  | nil => cases hr
  | append_singleton rows last ih =>
    rw [distinctPaths_concat]
    rw [List.mem_append, List.mem_singleton] at hr
    split
    · rename_i hmem
      obtain hearlier | rfl := hr
      · exact ih hearlier
      · exact hmem
    · obtain hearlier | rfl := hr
      · exact List.mem_append_left _ (ih hearlier)
      · exact List.mem_append_right _ (List.mem_singleton_self _)

/-- The row recorded for a kept row, its file the number of its path. -/
def recordRow (paths : List String) (r : LineRow) : Row :=
  ⟨r.address, paths.idxOf (filePath r.file) % 2 ^ 32, r.line32, r.column32⟩

/-- What the table holds after some kept rows. -/
structure Recorded (rows : List LineRow) (table : LineTable) : Prop where
  rows_eq : table.rows = rows.map (recordRow (distinctPaths rows))
  files_eq : table.files = distinctPaths rows
  ids : ∀ path, table.fileIds.lookup path =
    if path ∈ distinctPaths rows then some ((distinctPaths rows).idxOf path % 2 ^ 32) else none

theorem recorded_nil : Recorded [] ⟨[], [], []⟩ := by
  refine ⟨rfl, rfl, ?_⟩
  intro path
  rfl

/-- A row's number does not change when paths are added behind. -/
theorem recordRow_append {paths more : List String} (h : filePath r.file ∈ paths) :
    recordRow (paths ++ more) r = recordRow paths r := by
  rw [recordRow, recordRow, List.idxOf_append_of_mem h]

/-- Recording one more row. -/
theorem Recorded.collectRow {table : LineTable} (h : Recorded rows table) (hr : r.kept = true) :
    Recorded (rows ++ [r]) (collectRow table r) := by
  obtain ⟨hend, hfits⟩ : r.endSequence = false ∧ r.address ≤ u32Max := by
    simpa [LineRow.kept] using hr
  have hids := h.ids (filePath r.file)
  unfold Debug.collectRow internFile
  rw [if_neg (by simp [hend]), if_neg (by omega), hids]
  by_cases hmem : filePath r.file ∈ distinctPaths rows
  · -- the path has a number
    have hpaths : distinctPaths (rows ++ [r]) = distinctPaths rows := by
      rw [distinctPaths_concat, if_pos hmem]
    rw [if_pos hmem]
    refine ⟨?_, ?_, ?_⟩
    · simp only [hpaths, h.rows_eq, List.map_append, List.map_cons, List.map_nil, recordRow]
    · rw [hpaths]
      exact h.files_eq
    · rw [hpaths]
      exact h.ids
  · -- the path is new: it takes the next number
    have hpaths : distinctPaths (rows ++ [r]) = distinctPaths rows ++ [filePath r.file] := by
      rw [distinctPaths_concat, if_neg hmem]
    have hnumber : (distinctPaths rows ++ [filePath r.file]).idxOf (filePath r.file) =
        (distinctPaths rows).length := by
      rw [List.idxOf_append_of_notMem hmem]
      simp
    rw [if_neg hmem]
    refine ⟨?_, ?_, ?_⟩
    · have hold : rows.map (recordRow (distinctPaths rows)) =
          rows.map (recordRow (distinctPaths rows ++ [filePath r.file])) := by
        apply List.map_congr_left
        intro r' hr'
        exact (recordRow_append (mem_distinctPaths hr')).symm
      simp only [hpaths, h.rows_eq, h.files_eq, List.map_append, List.map_cons, List.map_nil, hold]
      simp only [recordRow, hnumber]
    · rw [hpaths, h.files_eq]
    · intro path
      rw [hpaths]
      simp only [List.lookup_cons, h.files_eq, List.mem_append, List.mem_singleton]
      by_cases hsame : path = filePath r.file
      · subst hsame
        simp [hnumber]
      · rw [beq_false_of_ne hsame]
        simp only [h.ids path, hsame, or_false]
        by_cases hold : path ∈ distinctPaths rows
        · rw [if_pos hold, if_pos hold, List.idxOf_append_of_mem hold]
        · rw [if_neg hold, if_neg hold]

/-- A row that is not kept leaves the table as it is. -/
theorem collectRow_of_not_kept {table : LineTable} (hr : r.kept = false) :
    collectRow table r = table := by
  unfold collectRow
  by_cases hend : r.endSequence = true
  · rw [if_pos hend]
  · rw [if_neg hend, if_pos]
    have hbeyond : ¬ r.address ≤ u32Max := by
      intro hfits
      simp [LineRow.kept, hend, hfits] at hr
    omega

theorem Recorded.collect {table : LineTable} {before : List LineRow} (h : Recorded before table)
    (rows : List LineRow) :
    Recorded (before ++ rows.filter LineRow.kept) (rows.foldl Debug.collectRow table) := by
  induction rows generalizing table before with
  | nil => simpa using h
  | cons r rows ih =>
    rw [List.foldl_cons]
    cases hr : r.kept with
    | true =>
      rw [List.filter_cons, if_pos hr]
      have hrest := ih (h.collectRow hr)
      rwa [List.append_assoc] at hrest
    | false =>
      rw [List.filter_cons, if_neg (by simp [hr]), collectRow_of_not_kept hr]
      exact ih h

/-- The table holds the kept rows, and the distinct paths of their files. -/
theorem collectRows_recorded (units : List (List LineRow)) :
    Recorded (keptRows units) (collectRows units) :=
  recorded_nil.collect units.flatten

/-- The location read back for a recorded row. -/
theorem recorded_read (hr : r ∈ keptRows units) :
    (collectRows units).files[(recordRow (distinctPaths (keptRows units)) r).file]?.map
        (fun file => ⟨file, r.line32, r.column32⟩) =
      some (recordedLocation (distinctPaths (keptRows units)) r) := by
  have hlt : (distinctPaths (keptRows units)).idxOf (filePath r.file) % 2 ^ 32 <
      (distinctPaths (keptRows units)).length :=
    lt_of_le_of_lt (Nat.mod_le _ _) (List.idxOf_lt_length_of_mem (mem_distinctPaths hr))
  rw [(collectRows_recorded units).files_eq, recordedLocation, recordRow,
    List.getD_eq_getElem?_getD, List.getElem?_eq_getElem hlt]
  rfl

/-! ## Sequences and kept rows -/

/-- A sequence's rows are among those delivered, and end no sequence. -/
theorem sequencesFrom_rows {opened : List LineRow} (hopened : ∀ r ∈ opened, r.endSequence = false)
    (hs : s ∈ sequencesFrom opened rows) (hr : r ∈ s.rows) :
    r ∈ opened ++ rows ∧ r.endSequence = false := by
  induction rows generalizing opened with
  | nil => cases hs
  | cons row rows ih =>
    unfold sequencesFrom at hs
    split at hs
    · rw [List.mem_cons] at hs
      obtain rfl | hlater := hs
      · exact ⟨List.mem_append_left _ hr, hopened r hr⟩
      · obtain ⟨hmem, hrow⟩ := ih (fun _ hnil => absurd hnil List.not_mem_nil) hlater
        exact ⟨List.mem_append_right _ (List.mem_cons_of_mem row hmem), hrow⟩
    · rename_i hend
      have hopened' : ∀ r ∈ opened ++ [row], r.endSequence = false := by
        intro r' hr'
        rw [List.mem_append, List.mem_singleton] at hr'
        obtain hearlier | rfl := hr'
        · exact hopened r' hearlier
        · exact Bool.eq_false_iff.mpr hend
      obtain ⟨hmem, hrow⟩ := ih hopened' hs
      rw [List.append_assoc] at hmem
      exact ⟨hmem, hrow⟩

/-- An address in a sequence is at or behind a kept row. -/
theorem contains_kept (haddr : addr ≤ u32Max) (hs : s ∈ sequences units) (hin : s.Contains addr) :
    ∃ r ∈ keptRows units, r.address ≤ addr := by
  obtain ⟨⟨r, hr, hle⟩, -⟩ := hin
  obtain ⟨rows, hrows, hseq⟩ := List.mem_flatMap.mp hs
  obtain ⟨hmem, hend⟩ := sequencesFrom_rows (fun _ hnil => absurd hnil List.not_mem_nil) hseq hr
  refine ⟨r, List.mem_filter.mpr ⟨List.mem_flatten.mpr ⟨rows, hrows, hmem⟩, ?_⟩, hle⟩
  simp [LineRow.kept, hend, le_trans hle haddr]

/-! ## What a lookup answers -/

/-- A lookup that stops nowhere answers nothing; one that stops at a row answers its recorded
location, wherever the sequences end. -/
theorem lookupLine_cases (search : BinarySearch ℕ) (units : List (List LineRow)) (addr : ℕ) :
    ((∀ r ∈ keptRows units, addr < r.address) ∧ lookupLine search units addr = none) ∨
    ∃ r, Floor LineRow.address (keptRows units) addr r ∧
      lookupLine search units addr =
        some (recordedLocation (distinctPaths (keptRows units)) r) := by
  have hrows := (collectRows_recorded units).rows_eq
  unfold lookupLine LineTable.build
  by_cases hempty : (collectRows units).rows.isEmpty
  · left
    have hnil : keptRows units = [] := by
      rw [List.isEmpty_iff, hrows, List.map_eq_nil_iff] at hempty
      exact hempty
    simp [hempty, hnil]
  · simp only [hempty, Bool.false_eq_true, if_false, Option.bind_some]
    unfold LineTable.lookup
    simp only
    cases hfound : floorIndex search ((sortByKey Row.addr (collectRows units).rows).map Row.addr)
        addr with
    | none =>
      left
      refine ⟨?_, rfl⟩
      intro r hr
      have habove := floorIndex_none.mp hfound
      rw [hrows] at habove
      exact habove _ (List.mem_map_of_mem hr)
    | some i =>
      right
      obtain ⟨row, hrow, hfloor⟩ := floorIndex_some hfound
      rw [hrows] at hfloor
      obtain ⟨r, hr, rfl⟩ := floor_map.mp hfloor
      refine ⟨r, hr, ?_⟩
      simp only [hrow]
      exact recorded_read hr.mem

/-- Every row the search may stop at is answered by some search. -/
theorem lookupLine_examines (h : Floor LineRow.address (keptRows units) addr r) :
    ∃ search : BinarySearch ℕ, lookupLine search units addr =
      some (recordedLocation (distinctPaths (keptRows units)) r) := by
  have hrows := (collectRows_recorded units).rows_eq
  have hfloor : Floor Row.addr (collectRows units).rows addr
      (recordRow (distinctPaths (keptRows units)) r) := by
    rw [hrows]
    exact floor_map.mpr ⟨r, h, rfl⟩
  obtain ⟨search, i, hfound, hrow⟩ := hfloor.found
  have hne : (collectRows units).rows.isEmpty = false := by
    rw [List.isEmpty_eq_false_iff]
    exact List.ne_nil_of_mem hfloor.mem
  refine ⟨search, ?_⟩
  unfold lookupLine LineTable.build
  simp only [hne, Bool.false_eq_true, if_false, Option.bind_some]
  unfold LineTable.lookup
  simp only [hfound, hrow]
  exact recorded_read h.mem

/-! ## Extents and sequences -/

/-- The first sequence goes on with the rows up to the next end. -/
theorem sequencesFrom_first (opened : List LineRow) (hend : rows.any LineRow.endSequence = true) :
    ∃ pre finish, ⟨opened ++ pre, finish⟩ ∈ sequencesFrom opened rows ∧
      (pre.map LineRow.address ++ [finish]).head? = rows.head?.map LineRow.address := by
  induction rows generalizing opened with
  | nil => cases hend
  | cons row rows ih =>
    unfold sequencesFrom
    by_cases hrow : row.endSequence = true
    · rw [if_pos hrow]
      exact ⟨[], row.address, by simp, rfl⟩
    · have hrest : rows.any LineRow.endSequence = true := by simpa [hrow] using hend
      rw [if_neg hrow]
      obtain ⟨pre, finish, hmem, -⟩ := ih (opened ++ [row]) hrest
      exact ⟨row :: pre, finish, by simpa using hmem, rfl⟩

/-- The next row of an ordered sequence lies behind the address: the row in front of it is the last
at or before. -/
theorem rowAt_of_next {opened pre : List LineRow} {row : LineRow} {finish n : ℕ}
    (hordered : LineSequence.Ordered ⟨opened ++ [row] ++ pre, finish⟩) (hle : row.address ≤ addr)
    (hnext : (pre.map LineRow.address ++ [finish]).head? = some n) (hlt : addr < n) :
    LineSequence.Contains ⟨opened ++ [row] ++ pre, finish⟩ addr ∧
      LineSequence.rowAt ⟨opened ++ [row] ++ pre, finish⟩ addr = some row := by
  have htail : (pre.map LineRow.address ++ [finish]).Pairwise (· ≤ ·) := by
    have h := hordered
    simp only [LineSequence.Ordered, List.map_append, List.append_assoc] at h
    exact (List.pairwise_append.mp (List.pairwise_append.mp h).2.1).2.1
  have hbehind : ∀ a ∈ pre.map LineRow.address ++ [finish], addr < a := by
    obtain ⟨rest, hrest⟩ := List.head?_eq_some_iff.mp hnext
    rw [hrest] at htail ⊢
    intro a ha
    obtain rfl | ha := List.mem_cons.mp ha
    · exact hlt
    · exact hlt.trans_le ((List.pairwise_cons.mp htail).1 a ha)
  have hnone : pre.filter (fun r => decide (r.address ≤ addr)) = [] := by
    rw [List.filter_eq_nil_iff]
    intro r hr
    have := hbehind r.address (List.mem_append_left _ (List.mem_map_of_mem hr))
    simpa using this
  refine ⟨⟨⟨row, by simp, hle⟩, hbehind finish (by simp)⟩, ?_⟩
  simp [LineSequence.rowAt, List.filter_append, hnone, hle]

/-- A row whose extent covers an address is the last at or before it in a sequence around it. -/
theorem rowAt_of_covers {e : Extent} (he : e ∈ extentsFrom rows) (hcovers : e.Covers addr)
    (opened : List LineRow) (hordered : ∀ s ∈ sequencesFrom opened rows, s.Ordered) :
    ∃ s ∈ sequencesFrom opened rows, s.Contains addr ∧ s.rowAt addr = some e.row := by
  induction rows generalizing opened with
  | nil => cases he
  | cons row rows ih =>
    unfold extentsFrom at he
    by_cases hend : row.endSequence = true
    · rw [if_pos hend] at he
      rw [sequencesFrom, if_pos hend] at hordered ⊢
      obtain ⟨s, hs, h⟩ := ih he [] fun s hs => hordered s (List.mem_cons_of_mem _ hs)
      exact ⟨s, List.mem_cons_of_mem _ hs, h⟩
    · rw [if_neg hend] at he
      rw [sequencesFrom, if_neg hend] at hordered ⊢
      obtain rfl | he := List.mem_cons.mp he
      · obtain ⟨hle, n, hnext, hlt⟩ := hcovers
        simp only at hnext
        split at hnext
        · rename_i hany
          obtain ⟨pre, finish, hmem, hhead⟩ := sequencesFrom_first (opened ++ [row]) hany
          rw [hnext] at hhead
          exact ⟨_, hmem, rowAt_of_next (hordered _ hmem) hle hhead hlt⟩
        · cases hnext
      · exact ih he (opened ++ [row]) hordered

/-- The last row at or before an address in a sequence that ends behind it covers the address; or it
is one of the rows in front, and the next one lies behind the address. -/
theorem covers_of_rowAt (opened : List LineRow) (hs : s ∈ sequencesFrom opened rows)
    (hlt : addr < s.finish) (hrow : s.rowAt addr = some r) :
    (∃ e ∈ extentsFrom rows, e.row = r ∧ e.Covers addr) ∨
      (opened.filter (fun r => decide (r.address ≤ addr))).getLast? = some r ∧
        rows.any LineRow.endSequence = true ∧ ∃ n ∈ rows.head?.map LineRow.address, addr < n := by
  induction rows generalizing opened with
  | nil => cases hs
  | cons row rows ih =>
    unfold sequencesFrom at hs
    unfold extentsFrom
    by_cases hend : row.endSequence = true
    · rw [if_pos hend] at hs ⊢
      obtain rfl | hs := List.mem_cons.mp hs
      · exact Or.inr ⟨hrow, by simp [hend], row.address, rfl, hlt⟩
      · obtain h | ⟨h, -⟩ := ih [] hs
        · exact Or.inl h
        · cases h
    · rw [if_neg hend] at hs ⊢
      obtain ⟨e, he, h⟩ | ⟨hlast, hany, hnext⟩ := ih (opened ++ [row]) hs
      · exact Or.inl ⟨e, List.mem_cons_of_mem _ he, h⟩
      · rw [List.filter_append] at hlast
        by_cases hle : row.address ≤ addr
        · left
          refine ⟨_, List.mem_cons_self, ?_, hle, ?_⟩
          · simpa [hle] using hlast
          · simp only [hany, if_true]
            exact hnext
        · refine Or.inr ⟨by simpa [hle] using hlast, by simp [hany], row.address, rfl, by omega⟩

/-- **The locations around an address are those of the rows whose extents cover it.** -/
theorem covering_iff (hordered : ∀ s ∈ sequences units, s.Ordered) {loc : SourceLoc} :
    Covering units addr loc ↔ ∃ e ∈ extents units, e.Covers addr ∧ e.row.location = loc := by
  constructor
  · rintro ⟨s, hs, ⟨-, hlt⟩, hrow⟩
    obtain ⟨r, hr, hloc⟩ := Option.map_eq_some_iff.mp hrow
    obtain ⟨rows, hrows, hs⟩ := List.mem_flatMap.mp hs
    obtain ⟨e, he, rfl, hcovers⟩ | ⟨h, -⟩ := covers_of_rowAt [] hs hlt hr
    · exact ⟨e, List.mem_flatMap.mpr ⟨rows, hrows, he⟩, hcovers, hloc⟩
    · cases h
  · rintro ⟨e, he, hcovers, rfl⟩
    obtain ⟨rows, hrows, he⟩ := List.mem_flatMap.mp he
    have hmem : ∀ s ∈ sequencesFrom [] rows, s ∈ sequences units := fun s hs =>
      List.mem_flatMap.mpr ⟨rows, hrows, hs⟩
    obtain ⟨s, hs, hin, hrow⟩ := rowAt_of_covers he hcovers [] fun s hs => hordered s (hmem s hs)
    exact ⟨s, hmem s hs, hin, by rw [hrow]; rfl⟩

/-- The rows of the extents are those that end no sequence. -/
theorem extents_rows (units : List (List LineRow)) :
    (extents units).map Extent.row = units.flatten.filter (fun r => !r.endSequence) := by
  have hunit : ∀ rows, (extentsFrom rows).map Extent.row =
      rows.filter (fun r => !r.endSequence) := by
    intro rows
    induction rows with
    | nil => rfl
    | cons row rows ih =>
      unfold extentsFrom
      by_cases hend : row.endSequence = true
      · simp [hend, ih]
      · simp [hend, ih]
  induction units with
  | nil => rfl
  | cons rows units ih =>
    rw [extents, List.flatMap_cons, List.map_append, hunit, List.flatten_cons, List.filter_append]
    congr 1

/-- A search stops at the row of an extent. -/
theorem floor_extents (haddr : addr ≤ u32Max) : Floor LineRow.address (keptRows units) addr r ↔
      ∃ e, Floor Extent.address (extents units) addr e ∧ e.row = r := by
  have hkept : keptRows units =
      ((extents units).map Extent.row).filter (fun r => decide (r.address ≤ u32Max)) := by
    rw [extents_rows, List.filter_filter, keptRows]
    apply List.filter_congr
    intro r _
    exact Bool.and_comm _ _
  rw [hkept, floor_filter (fun r _ hle => decide_eq_true (hle.trans haddr)), floor_map]
  rfl

/-! ## The paths -/

theorem distinctPaths_nodup (rows : List LineRow) : (distinctPaths rows).Nodup := by
  induction rows using List.reverseRecOn with
  | nil => exact List.nodup_nil
  | append_singleton rows last ih =>
    rw [distinctPaths_concat]
    split
    · exact ih
    · rename_i hnew
      refine List.nodup_append.mpr ⟨ih, List.nodup_singleton _, ?_⟩
      rintro a ha b hb rfl
      rw [List.mem_singleton] at hb
      exact hnew (hb ▸ ha)

/-- An extent that covers a 32-bit address is of a kept row. -/
theorem covers_kept (haddr : addr ≤ u32Max) {e : Extent} (he : e ∈ extents units)
    (hcovers : e.Covers addr) : e.row ∈ keptRows units := by
  have hrow : e.row ∈ units.flatten.filter (fun r => !r.endSequence) := by
    rw [← extents_rows]
    exact List.mem_map_of_mem he
  obtain ⟨hmem, hend⟩ := List.mem_filter.mp hrow
  refine List.mem_filter.mpr ⟨hmem, ?_⟩
  rw [LineRow.kept, hend, Bool.true_and, decide_eq_true_iff]
  exact hcovers.1.trans haddr

/-- A row is read back as another one says exactly if the lines and columns are the same, and its
number leads to the other's path. -/
theorem recordedLocation_eq_iff {e e' : Extent} (he : e.row ∈ keptRows units)
    (he' : e'.row ∈ keptRows units) :
    e'.row.location = recordedLocation (distinctPaths (keptRows units)) e.row ↔
      e.ReadAs units e' := by
  have hlt : pathNumber units e.row % 2 ^ 32 < (distinctPaths (keptRows units)).length :=
    lt_of_le_of_lt (Nat.mod_le _ _) (List.idxOf_lt_length_of_mem (mem_distinctPaths he))
  have hget : (distinctPaths (keptRows units)).getD (pathNumber units e.row % 2 ^ 32) "" =
      (distinctPaths (keptRows units))[pathNumber units e.row % 2 ^ 32] := by
    rw [List.getD_eq_getElem?_getD, List.getElem?_eq_getElem hlt, Option.getD_some]
  unfold LineRow.location recordedLocation
  rw [SourceLoc.mk.injEq]
  change _ = (distinctPaths (keptRows units)).getD (pathNumber units e.row % 2 ^ 32) "" ∧ _ ↔ _
  rw [hget]
  constructor
  · rintro ⟨hpath, hline, hcolumn⟩
    refine ⟨hline, hcolumn, ?_⟩
    rw [pathNumber, hpath]
    exact (distinctPaths_nodup _).idxOf_getElem _ hlt
  · intro h
    refine ⟨?_, h.line, h.column⟩
    have hidx := List.getElem_idxOf (List.idxOf_lt_length_of_mem (mem_distinctPaths he'))
    rw [← hidx]
    congr 1
    exact h.path

/-- **A lookup is right whatever the search stops at exactly when every row it may stop at covers
the address by its own extent**, or another row does, by a tie or in an overlapping sequence, that
says the same. -/
theorem lookupLine_located_iff (units : List (List LineRow)) {addr : ℕ} (haddr : addr ≤ u32Max)
    (hordered : ∀ s ∈ sequences units, s.Ordered) :
    (∀ search, Located units addr (lookupLine search units addr)) ↔
      ∀ e, Floor Extent.address (extents units) addr e → e.Covers addr ∧ e.ReadAs units e ∨
        ∃ e' ∈ extents units, e' ≠ e ∧ e'.Covers addr ∧ e.ReadAs units e' := by
  have hread : ∀ e, Floor Extent.address (extents units) addr e →
      (Covering units addr (recordedLocation (distinctPaths (keptRows units)) e.row) ↔
        e.Covers addr ∧ e.ReadAs units e ∨
          ∃ e' ∈ extents units, e' ≠ e ∧ e'.Covers addr ∧ e.ReadAs units e') := by
    intro e hfloor
    have he : e.row ∈ keptRows units := ((floor_extents haddr).mpr ⟨e, hfloor, rfl⟩).mem
    rw [covering_iff hordered]
    constructor
    · rintro ⟨e', he', hcovers, hloc⟩
      have hsame := (recordedLocation_eq_iff he (covers_kept haddr he' hcovers)).mp hloc
      by_cases hown : e' = e
      · subst hown
        exact Or.inl ⟨hcovers, hsame⟩
      · exact Or.inr ⟨e', he', hown, hcovers, hsame⟩
    · rintro (⟨hcovers, hsame⟩ | ⟨e', he', -, hcovers, hsame⟩)
      · exact ⟨e, hfloor.mem, hcovers, (recordedLocation_eq_iff he he).mpr hsame⟩
      · exact ⟨e', he', hcovers,
          (recordedLocation_eq_iff he (covers_kept haddr he' hcovers)).mpr hsame⟩
  constructor
  · intro hall e hfloor
    obtain ⟨search, hlookup⟩ :=
      lookupLine_examines ((floor_extents haddr).mpr ⟨e, hfloor, rfl⟩)
    have hlocated := hall search
    rw [hlookup] at hlocated
    exact (hread e hfloor).mp hlocated
  · intro hcond search
    obtain ⟨habove, hnone⟩ | ⟨r, hfloor, hlookup⟩ := lookupLine_cases search units addr
    · rw [hnone]
      intro s hs hin
      obtain ⟨r, hr, hle⟩ := contains_kept haddr hs hin
      exact absurd hle (Nat.not_le.mpr (habove r hr))
    · rw [hlookup]
      obtain ⟨e, hextent, rfl⟩ := (floor_extents haddr).mp hfloor
      exact (hread e hextent).mpr (hcond e hextent)

/-- One sequence from 10 to 20. -/
def singleSequence : List LineRow :=
  [⟨false, 10, some ⟨none, "main.c"⟩, some 1, none⟩, ⟨true, 20, none, none, none⟩]

theorem singleSequence_kept :
    keptRows [singleSequence] = [⟨false, 10, some ⟨none, "main.c"⟩, some 1, none⟩] := by
  decide

theorem singleSequence_sequences : sequences [singleSequence] =
    [⟨[⟨false, 10, some ⟨none, "main.c"⟩, some 1, none⟩], 20⟩] := by
  decide

theorem singleSequence_ordered : ∀ s ∈ sequences [singleSequence], s.Ordered := by
  intro s hs
  rw [singleSequence_sequences, List.mem_singleton] at hs
  subst hs
  show ([10, 20] : List ℕ).Pairwise (· ≤ ·)
  decide

/-- Inside the sequence a lookup is right. -/
theorem lookupLine_located_single :
    Located [singleSequence] 15 (lookupLine (.stopAt 0) [singleSequence] 15) := by
  refine (lookupLine_located_iff [singleSequence] (by decide) singleSequence_ordered).mpr ?_
    (.stopAt 0)
  intro e hfloor
  have hmem := List.mem_singleton.mp hfloor.mem
  subst hmem
  exact Or.inl ⟨⟨by decide, 20, rfl, by decide⟩, rfl, rfl, by decide⟩

/-- Behind its end the lookup still answers its last row. -/
theorem not_located_behind :
    ¬ ∀ (units : List (List LineRow)) (addr : ℕ) (search : BinarySearch ℕ), addr ≤ u32Max →
      (∀ s ∈ sequences units, s.Ordered) →
      Located units addr (lookupLine search units addr) := by
  intro hall
  have hfloor : Floor LineRow.address (keptRows [singleSequence]) 25
      ⟨false, 10, some ⟨none, "main.c"⟩, some 1, none⟩ := by
    rw [singleSequence_kept]
    decide
  obtain ⟨search, hlookup⟩ := lookupLine_examines hfloor
  have hlocated := hall [singleSequence] 25 search (by decide) singleSequence_ordered
  rw [hlookup] at hlocated
  obtain ⟨s, hs, hin, -⟩ := hlocated
  rw [singleSequence_sequences, List.mem_singleton] at hs
  subst hs
  exact absurd hin (by decide)

end Debug

end SubmilliWasm
