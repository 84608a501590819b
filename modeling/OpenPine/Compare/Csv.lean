import OpenPine.Foundation.Text
import OpenPine.Foundation.Pointwise
import OpenPine.Foundation.Python
import OpenPine.Foundation.StableSort
import Mathlib.Data.List.Dedup
import Mathlib.Data.List.ProdSigma
import Mathlib.Data.String.Basic

/-! # Reading and comparing the cells of CSV files

A file is its header and its rows, every row the texts under some of its columns. Times and
numbers are read from texts leniently. Two cells agree if both are blank, if both read as numbers
that are close, or else if their texts are equal.
-/
namespace OpenPine.Compare
open Text OpenPine.Pointwise List
open Python (bind_eq_ok)

/-- The items of a row as the `csv` reader gives it. -/
abbrev Row := List (String × String)

def Row.get (row : Row) (column : String) : Option String := row.lookup column

structure CsvFile where
  fields : List String
  rows : List Row
  deriving DecidableEq

/-- What Python computes on floats: the texts of `float` and `repr` and the rounded operations.
Where a float is asked for, none stands for NaN and for a text that `float` refuses. -/
structure Runtime where
  float : String → Option Double
  repr : Double → String
  ofInt : ℤ → Double
  (sub mul : Double → Double → Option Double)
  /-- `f"\x7bx:.12g\x7d"` -/
  format12g : Double → String
  /-- `int(text)` -/
  int : String → Except String ℤ
  /-- `parse_timestamp_ms(text, 0, default_tz=...)`; none where it raises -/
  timestamp : String → Option ℤ

variable (py : Runtime)

/-! ### Numbers and times -/

/-- The text that `float` gets. A comma is the decimal mark unless there is a point as well. -/
def plainNumber (text : String) : String :=
  let cs := replaceChars ' ' [] (replaceChars (.ofNat 0xa0) [] (replaceChars (.ofNat 0x2212) ['-'] text.toList))
  if ',' ∈ cs ∧ '.' ∉ cs then .ofList (replaceChars ',' ['.'] cs)
  else if ',' ∈ cs then .ofList (replaceChars ',' [] cs)
  else .ofList cs

/-- `_compare_csv_float` -/
def csvFloat : Option String → Option Double
  | none => none
  | some value =>
    let text := strip value
    if text = "" ∨ lower text ∈ ["na", "nan", "none", "null"] then none else py.float (plainNumber text)

/-- `_compare_csv_time_ms`: a number below ten billion counts seconds. -/
def csvTimeMs : Option String → Option ℤ
  | none => none
  | some value =>
    let text := strip value
    if text = "" then none
    else
      match (py.float text).bind Double.trunc with
      | none => py.timestamp text
      | some raw => some (if |raw| < 10000000000 then raw * 1000 else raw)

theorem csvTimeMs_toString {t : ℤ} (h : py.float (toString t) = some (.finite t)) :
    csvTimeMs py (some (toString t)) = some (if |t| < 10000000000 then t * 1000 else t) := by
  simp only [csvTimeMs, strip_toString, toString_ne_empty, if_false, h, Option.bind_some, Double.trunc_int]

def timeInCompareWindow (ts : ℤ) (compareFrom compareTo : Option ℤ) : Bool :=
  compareFrom.all (· ≤ ts) && compareTo.all (ts < ·)

/-! ### Headers -/

/-- `_compare_normalized_header`, as the characters of the text. -/
def normalizedHeader (value : String) : List Char :=
  squeezeChars (replaceChars (.ofNat 0xa0) [' '] ((stripChars value.toList).map lowerChar))

def findCompareColumn (fields needles reject : List String) : Option String :=
  fields.find? fun field =>
    let header := normalizedHeader field
    !reject.any (containsChars header) && needles.any (containsChars header)

inductive Action where
  | entry | exit
  deriving DecidableEq

inductive Direction where
  | long | short
  deriving DecidableEq

def Direction.text : Direction → String
  | .long => "long"
  | .short => "short"

@[irreducible] def tradeActionAndDirection (value : Option String) : Option Action × Option Direction :=
  let text := normalizedHeader (value.getD "")
  let action :=
    if containsChars text "entry" || containsChars text "вход" then some Action.entry
    else if containsChars text "exit" || containsChars text "выход" then some Action.exit
    else none
  let direction :=
    if containsChars text "long" || containsChars text "длин" then some Direction.long
    else if containsChars text "short" || containsChars text "корот" then some Direction.short
    else none
  (action, direction)

/-! ### Cells -/

structure Tolerances where
  (abs rel : Double)

def Tolerances.Valid (tol : Tolerances) : Prop := .finite 0 ≤ tol.abs ∧ .finite 0 ≤ tol.rel

instance (tol : Tolerances) : Decidable tol.Valid := inferInstanceAs (Decidable (_ ∧ _))

def isclose (tol : Tolerances) (x y : Double) : Except String Bool :=
  if ¬tol.Valid then throw "tolerances must be non-negative"
  else if x = y then pure true
  else
    match x, y with
    | .finite _, .finite _ =>
      let within (bound : Option Double) : Bool :=
        ((py.sub y x).bind fun diff => bound.map fun b => decide (diff.abs ≤ b.abs)).getD false
      pure (within (py.mul tol.rel y) || within (py.mul tol.rel x) || within (some tol.abs))
    | _, _ => pure false

theorem isclose_self {tol : Tolerances} (h : tol.Valid) (x : Double) : isclose py tol x x = .ok true := by
  simp [isclose, h]
  rfl

/-- How one of the comparisons reads its cells: which texts are blank and how texts are compared. -/
structure CellStyle where
  blanks : List String
  text : String → String

def byTime : CellStyle := ⟨["", "na", "nan", "none", "null"], strip⟩

def byOrder : CellStyle := ⟨["", "nan", "none", "null"], fun s => lower (strip s)⟩

def CellStyle.isBlank (style : CellStyle) (value : Option String) : Bool := lower (strip (value.getD "")) ∈ style.blanks

structure Cell where
  (equal tvBlank opBlank : Bool)

def compareCell (style : CellStyle) (tol : Tolerances) (tv op : Option String) : Except String Cell := do
  let tvBlank := style.isBlank tv
  let opBlank := style.isBlank op
  if tvBlank || opBlank then
    pure ⟨tvBlank && opBlank, tvBlank, opBlank⟩
  else
    match csvFloat py tv, csvFloat py op with
    | some x, some y => do
      let equal ← isclose py tol x y
      pure ⟨equal, tvBlank, opBlank⟩
    | _, _ => pure ⟨style.text (tv.getD "") = style.text (op.getD ""), tvBlank, opBlank⟩

def Agree (style : CellStyle) (tol : Tolerances) (tv op : Option String) : Prop :=
  ∃ cell, compareCell py style tol tv op = .ok cell ∧ cell.equal = true

variable {py} {style : CellStyle} {tol : Tolerances} {tv op : Option String}

theorem agree_self (h : tol.Valid) (value : Option String) : Agree py style tol value value := by
  unfold Agree compareCell
  by_cases hblank : style.isBlank value
  · exact ⟨⟨true, true, true⟩,by simp [hblank]; rfl,rfl⟩
  · cases hx : csvFloat py value with
    | none => exact ⟨⟨true, false, false⟩,by simp [hblank]; rfl,rfl⟩
    | some => exact ⟨⟨true, false, false⟩,by simp [hblank, isclose_self py h],rfl⟩

theorem not_blank_of_csvFloat {value : Option String} {x : Double} (hstyle : ∀ w ∈ style.blanks, w ∈ byTime.blanks)
    (h : csvFloat py value = some x) : style.isBlank value = false := by
  cases value with
  | none => cases h
  | some text =>
    rw [CellStyle.isBlank, decide_eq_false_iff_not]
    intro hmem
    have hblank : strip text = "" ∨ lower (strip text) ∈ ["na", "nan", "none", "null"] := by
      simpa [byTime] using hstyle _ hmem
    simp only [csvFloat, hblank, if_true] at h
    cases h

theorem agree_of_csvFloat (hstyle : ∀ w ∈ style.blanks, w ∈ byTime.blanks) (h : tol.Valid) {x : Double}
    (htv : csvFloat py tv = some x) (hop : csvFloat py op = some x) : Agree py style tol tv op := by
  unfold Agree compareCell
  rw [not_blank_of_csvFloat hstyle htv, not_blank_of_csvFloat hstyle hop, htv, hop]
  exact ⟨⟨true, false, false⟩,by simp [isclose_self py h],rfl⟩

theorem exists_compareCell (h : tol.Valid) : ∃ cell, compareCell py style tol tv op = .ok cell := by
  unfold compareCell
  dsimp only
  split
  · exact ⟨_,rfl⟩
  · split
    · rename_i x y _ _
      have hclose : ∃ equal, isclose py tol x y = .ok equal := by
        unfold isclose
        rw [if_neg (not_not.mpr h)]
        split
        · exact ⟨_,rfl⟩
        · split <;> exact ⟨_,rfl⟩
      obtain ⟨equal,hequal⟩ := hclose
      exact ⟨_,bind_eq_ok.mpr ⟨equal,hequal,rfl⟩⟩
    · exact ⟨_,rfl⟩

/-! ### Counting cells -/

structure Tally where
  (total mismatches nanMismatches blankTv : ℕ)

def Tally.of (cells : List Cell) : Tally where
  total := cells.length
  mismatches := cells.countP fun cell => !cell.equal
  nanMismatches := cells.countP fun cell => cell.tvBlank != cell.opBlank
  blankTv := cells.countP fun cell => cell.tvBlank

def compareCells {κ : Type} (cell : String → κ → Except String Cell) (columns : List String) (keys : List κ) :
    Except String Tally := do
  let cells ← (columns ×ˢ keys).mapM fun p => cell p.1 p.2
  pure (.of cells)

variable {κ : Type} {cell : String → κ → Except String Cell} {columns : List String} {keys : List κ}

theorem exists_compareCells (h : ∀ column key, ∃ c, cell column key = .ok c) :
    ∃ tally, compareCells cell columns keys = .ok tally := by
  have hall : ∀ p ∈ columns ×ˢ keys, ∃ c, cell p.1 p.2 = .ok c := fun p _ => h p.1 p.2
  obtain ⟨cells,hcells⟩ := exists_forall₂ hall
  exact ⟨_,bind_eq_ok.mpr ⟨cells,mapM_eq_ok.mpr hcells,rfl⟩⟩

/-- Some cells are compared and none differs. -/
theorem compareCells_equal_iff :
    (∃ tally, compareCells cell columns keys = .ok tally ∧ tally.total ≠ 0 ∧ tally.mismatches = 0) ↔
      columns ≠ [] ∧ keys ≠ [] ∧ ∀ column ∈ columns, ∀ key ∈ keys, ∃ c, cell column key = .ok c ∧ c.equal = true := by
  unfold compareCells
  constructor
  · rintro ⟨tally,h,htotal,hequal⟩
    obtain ⟨cells,hcells,⟨⟩⟩ := bind_eq_ok.mp h
    have hall := mapM_eq_ok.mp hcells
    have hlen : columns.length * keys.length ≠ 0 := by
      rw [← length_product, hall.length_eq]
      exact htotal
    obtain ⟨hcolumns,hkeys⟩ := mul_ne_zero_iff.mp hlen
    refine ⟨length_pos_iff.mp (Nat.pos_of_ne_zero hcolumns),length_pos_iff.mp (Nat.pos_of_ne_zero hkeys),?_⟩
    intro column hcolumn key hkey
    obtain ⟨c,hc,hcell⟩ := exists_right hall (column, key) (mem_product.mpr ⟨hcolumn,hkey⟩)
    refine ⟨c,hcell,?_⟩
    simpa using countP_eq_zero.mp hequal c hc
  · rintro ⟨hcolumns,hkeys,hall⟩
    have hex : ∀ p ∈ columns ×ˢ keys, ∃ c, cell p.1 p.2 = .ok c ∧ c.equal = true := by
      rintro ⟨column,key⟩ hp
      obtain ⟨hcolumn,hkey⟩ := mem_product.mp hp
      exact hall column hcolumn key hkey
    obtain ⟨cells,hcells⟩ := exists_forall₂ hex
    have hmap := mapM_eq_ok.mpr (hcells.imp fun _ _ h => h.1)
    refine ⟨.of cells,bind_eq_ok.mpr ⟨cells,hmap,rfl⟩,?_,?_⟩
    · change cells.length ≠ 0
      rw [← hcells.length_eq, length_product]
      exact mul_ne_zero (mt length_eq_zero_iff.mp hcolumns) (mt length_eq_zero_iff.mp hkeys)
    · refine countP_eq_zero.mpr fun c hc => ?_
      obtain ⟨p,-,-,hequal⟩ := exists_left hcells c hc
      simp [hequal]

/-! ### Sets of columns -/

def sortedSet (columns : List String) : List String := columns.dedup.insertionSort (· ≤ ·)

@[simp] theorem mem_sortedSet {columns : List String} {column : String} : column ∈ sortedSet columns ↔
    column ∈ columns := by
  simp [sortedSet]

@[simp] theorem sortedSet_eq_nil {columns : List String} : sortedSet columns = [] ↔ columns = [] := by
  simp only [eq_nil_iff_forall_not_mem, mem_sortedSet]

structure ColumnSets where
  (common missing extra : List String)

def columnSets (tvFields opFields : List String) : ColumnSets where
  common := sortedSet (tvFields.filter (· ∈ opFields))
  missing := sortedSet (tvFields.filter (· ∉ opFields))
  extra := sortedSet (opFields.filter (· ∉ tvFields))

variable {tvFields opFields : List String}

theorem mem_columnSets_common {column : String} :
    column ∈ (columnSets tvFields opFields).common ↔ column ∈ tvFields ∧ column ∈ opFields := by simp [columnSets]

theorem columnSets_missing_eq_nil : (columnSets tvFields opFields).missing = [] ↔
    ∀ column ∈ tvFields, column ∈ opFields := by
  simp [columnSets]

theorem columnSets_extra_eq_nil : (columnSets tvFields opFields).extra = [] ↔
    ∀ column ∈ opFields, column ∈ tvFields := by
  simp [columnSets]

/-! ### Summaries -/

inductive Status where
  | matched | mismatch | skipped
  deriving DecidableEq

theorem status_eq_matched {p : Prop} [Decidable p] : (if p then Status.matched else .mismatch) = .matched ↔ p := by
  by_cases h : p <;> simp [h]

inductive Problem where
  | noCommonColumns | columnSetMismatch | timeWindowMismatch | rowCountMismatch
  | duplicateTimestamps | invalidTimestamps | noComparableCells | valueMismatch
  | noComparablePlotCells
  deriving DecidableEq

structure Summary where
  status : Status
  classification : List Problem
  (tvRows openpineRows commonTimes missingTimes extraTimes commonColumns : ℕ)
  (missingColumnNames extraColumnNames : List String)
  (totalCells mismatchCells nanMismatches : ℕ)

/-! ### Decimals -/

def readDigits (digits : List Char) : Option ℚ :=
  if digits ≠ [] ∧ digits.all Char.isDigit then
    some (digits.foldl (fun n c => 10 * n + (c.toNat - '0'.toNat)) 0 : ℕ)
  else none

def readDecimal (cs : List Char) : Option ℚ :=
  match cs.splitOn '.' with
  | [whole] => readDigits whole
  | [whole, part] => (readDigits whole).bind fun n => (readDigits part).map fun k => n + k / 10 ^ part.length
  | _ => none

def printDecimal : Double → String
  | .negInf => "-inf"
  | .finite q => decimal q
  | .posInf => "inf"

def onFinite (op : ℚ → ℚ → ℚ) : Double → Double → Option Double
  | .finite p, .finite q => some (.finite (op p q))
  | _, _ => none

/-- A runtime for numbers with few decimals, on which the comparison can be run. -/
def fewDecimals : Runtime where
  float := fun text =>
    match text.toList with
    | '-' :: digits => (readDecimal digits).map fun q => .finite (-q)
    | digits => (readDecimal digits).map .finite
  repr := printDecimal
  ofInt := fun i => .finite i
  sub := onFinite (· - ·)
  mul := onFinite (· * ·)
  format12g
    | .finite q => if q.den = 1 then toString q.num else printDecimal (.finite q)
    | x => printDecimal x
  int := fun text => throw ("invalid literal for int() with base 10: '" ++ text ++ "'")
  timestamp := fun _ => none

end OpenPine.Compare
