import OpenPine.Compare.Csv
import Mathlib.Data.Prod.Lex

/-! # Comparing rows by their order

Trades are compared row by row after both files are brought into a canonical order. Files that give
the same trades keys in that order, no two of them equal, are paired trade by trade whatever order they
were written in.
-/
namespace OpenPine.Compare
open Text List
open Python (bind_eq_ok)

/-- What `_canonical_trade_order_rows` sorts by, before the index of a row. -/
abbrev TradeKey := ℤ ×ₗ ℤ ×ₗ String ×ₗ String ×ₗ Double ×ₗ Double ×ₗ Double ×ₗ Double

variable (py : Runtime)

def keyNum (row : Row) (column : String) : Double := (csvFloat py (row.get column)).getD (.finite 0)

/-- `_compare_csv_time_ms(row.get(column)) or -1` -/
def keyTs (row : Row) (column : String) : ℤ :=
  match csvTimeMs py (row.get column) with
  | none => -1
  | some ts => if ts = 0 then -1 else ts

def tradeKey (row : Row) : TradeKey :=
  toLex (keyTs py row "entry_time_ms", toLex (keyTs py row "exit_time_ms", toLex ((row.get "status").getD "",
    toLex ((row.get "direction").getD "", toLex (keyNum py row "entry_price", toLex ((keyNum py row "qty").abs.neg,
      toLex (keyNum py row "exit_price", keyNum py row "net_profit")))))))

def canonicalTradeOrderRows (fields : List String) (rows : List Row) : List Row :=
  if ["entry_time_ms", "exit_time_ms", "direction", "qty"].all (· ∈ fields) then
    rows.insertionSort fun a b => tradeKey py a ≤ tradeKey py b
  else rows

def pairCell (tol : Tolerances) (column : String) (p : Row × Row) : Except String Cell :=
  compareCell py byOrder tol (p.1.get column) (p.2.get column)

def compareRowsByOrder (tv op : CsvFile) (exclude : List String) (tol : Tolerances) : Except String Summary := do
  let tvRows := canonicalTradeOrderRows py tv.fields tv.rows
  let opRows := canonicalTradeOrderRows py op.fields op.rows
  let columns := columnSets (tv.fields.filter (· ∉ exclude)) (op.fields.filter (· ∉ exclude))
  let tally ← compareCells (pairCell py tol) columns.common (tvRows.zip opRows)
  let classification :=
    (if columns.common = [] then [Problem.noCommonColumns] else []) ++
    (if columns.missing ≠ [] ∨ columns.extra ≠ [] then [.columnSetMismatch] else []) ++
    (if tvRows.length ≠ opRows.length then [.rowCountMismatch] else []) ++
    (if tally.total = 0 then [.noComparableCells] else if tally.mismatches ≠ 0 then [.valueMismatch] else [])
  let matched := tally.total ≠ 0 ∧ tally.mismatches = 0 ∧ tvRows.length = opRows.length ∧
    columns.missing = [] ∧ columns.extra = []
  pure
    { status := if matched then .matched else .mismatch, classification := classification, tvRows := tvRows.length
      openpineRows := opRows.length, commonTimes := min tvRows.length opRows.length,
      missingTimes := tvRows.length - opRows.length
      extraTimes := opRows.length - tvRows.length, commonColumns := columns.common.length,
      missingColumnNames := columns.missing
      extraColumnNames := columns.extra, totalCells := tally.total, mismatchCells := tally.mismatches,
      nanMismatches := 0 }

variable {py} {tv op : CsvFile} {exclude : List String} {tol : Tolerances}

theorem length_canonicalTradeOrderRows (py : Runtime) (fields : List String) (rows : List Row) :
    (canonicalTradeOrderRows py fields rows).length = rows.length := by
  unfold canonicalTradeOrderRows
  split
  · exact length_insertionSort _ _
  · rfl

theorem columnSets_compared_iff {tvFields opFields : List String} :
    ((columnSets (tvFields.filter (· ∉ exclude)) (opFields.filter (· ∉ exclude))).missing = [] ∧
        (columnSets (tvFields.filter (· ∉ exclude)) (opFields.filter (· ∉ exclude))).extra = []) ↔
      ∀ column, column ∉ exclude → (column ∈ tvFields ↔ column ∈ opFields) := by
  simp only [columnSets_missing_eq_nil, columnSets_extra_eq_nil, mem_filter, decide_eq_true_eq]
  constructor
  · rintro ⟨hright,hleft⟩ column hex
    exact ⟨fun h => (hright column ⟨h,hex⟩).1,fun h => (hleft column ⟨h,hex⟩).1⟩
  · intro h
    exact ⟨fun column ⟨htv,hex⟩ => ⟨(h column hex).mp htv,hex⟩,fun column ⟨hop,hex⟩ => ⟨(h column hex).mpr hop,hex⟩⟩

/-- Rows are compared in the canonical order, place by place. -/
theorem compareRowsByOrder_matched_iff :
    (∃ summary, compareRowsByOrder py tv op exclude tol = .ok summary ∧ summary.status = .matched) ↔
      (∀ column, column ∉ exclude → (column ∈ tv.fields ↔ column ∈ op.fields)) ∧
        (∃ column ∈ tv.fields, column ∉ exclude) ∧ op.rows ≠ [] ∧
        List.Forall₂ (fun a b => ∀ column ∈ tv.fields, column ∉ exclude →
          Agree py byOrder tol (a.get column) (b.get column))
          (canonicalTradeOrderRows py tv.fields tv.rows) (canonicalTradeOrderRows py op.fields op.rows) := by
  constructor
  · rintro ⟨summary,h,hstatus⟩
    obtain ⟨tally,htally,⟨⟩⟩ := bind_eq_ok.mp h
    obtain ⟨htotal,hmismatches,hlength,hcompared⟩ := status_eq_matched.mp hstatus
    obtain ⟨hcolumns,hpairs,hall⟩ := compareCells_equal_iff.mp ⟨tally,htally,htotal,hmismatches⟩
    have hfields := columnSets_compared_iff.mp hcompared
    refine ⟨hfields,?_,?_,forall₂_iff_zip.mpr ⟨hlength,@fun a b hmem column hcolumn hex => ?_⟩⟩
    · obtain ⟨column,hcolumn⟩ := exists_mem_of_ne_nil _ hcolumns
      obtain ⟨htv,hex⟩ := mem_filter.mp (mem_columnSets_common.mp hcolumn).1
      exact ⟨column,htv,of_decide_eq_true hex⟩
    · intro hnil
      rw [hnil] at hpairs
      refine hpairs ?_
      rw [length_eq_zero_iff.mp (length_canonicalTradeOrderRows py op.fields []), zip_nil_right]
    · have hboth : column ∈ (columnSets (tv.fields.filter (· ∉ exclude)) (op.fields.filter (· ∉ exclude))).common := by
        simp [mem_columnSets_common, hcolumn, hex, (hfields column hex).mp hcolumn]
      exact hall column hboth (a, b) hmem
  · rintro ⟨hfields,⟨column,hcolumn,hex⟩,hrows,hall⟩
    obtain ⟨hlength,hall⟩ := forall₂_iff_zip.mp hall
    have hcells : ∃ tally, compareCells (pairCell py tol)
        (columnSets (tv.fields.filter (· ∉ exclude)) (op.fields.filter (· ∉ exclude))).common
        ((canonicalTradeOrderRows py tv.fields tv.rows).zip (canonicalTradeOrderRows py op.fields op.rows)) =
          .ok tally ∧
        tally.total ≠ 0 ∧ tally.mismatches = 0 := by
      refine compareCells_equal_iff.mpr ⟨?_,?_,fun column hcolumn p hp => ?_⟩
      · refine ne_nil_of_mem (mem_columnSets_common.mpr ⟨mem_filter.mpr ⟨hcolumn,decide_eq_true hex⟩,?_⟩)
        exact mem_filter.mpr ⟨(hfields column hex).mp hcolumn,decide_eq_true hex⟩
      · rw [length_canonicalTradeOrderRows, length_canonicalTradeOrderRows] at hlength
        rw [← length_pos_iff, length_zip, length_canonicalTradeOrderRows, length_canonicalTradeOrderRows, hlength,
          min_self, length_pos_iff]
        exact hrows
      · obtain ⟨htv,hex⟩ := mem_filter.mp (mem_columnSets_common.mp hcolumn).1
        exact hall hp column htv (of_decide_eq_true hex)
    obtain ⟨tally,htally,htotal,hmismatches⟩ := hcells
    exact ⟨_,bind_eq_ok.mpr ⟨tally,htally,rfl⟩,
      status_eq_matched.mpr ⟨htotal,hmismatches,hlength,columnSets_compared_iff.mpr hfields⟩⟩

/-! ### Paired rows -/

/-- The columns that are compared agree. -/
def RowsAgree (py : Runtime) (tol : Tolerances) (fields exclude : List String) (a b : Row) : Prop :=
  ∀ column ∈ fields, column ∉ exclude → Agree py byOrder tol (a.get column) (b.get column)

/-- Each row of a file has a place in the canonical order: the rows before it in the file whose key is not greater come
before it, and those after it whose key is smaller. Rows in the same place of their files agree. -/
def PlacesAgree (py : Runtime) (tol : Tolerances) (tv op : CsvFile) (exclude : List String) : Prop :=
  ∀ front a back front' b back', tv.rows = front ++ a :: back → op.rows = front' ++ b :: back' →
    StableSort.rank (tradeKey py) front a back = StableSort.rank (tradeKey py) front' b back' →
      RowsAgree py tol tv.fields exclude a b

/-- Files whose rows can be paired match exactly if rows in the same place agree. They do if paired rows have the same
key and rows that share a key agree crosswise. -/
theorem paired_rows_matched_iff (pairs : List (Row × Row)) (htv : tv.rows.Perm (pairs.map Prod.fst))
    (hop : op.rows.Perm (pairs.map Prod.snd)) (hne : pairs ≠ []) (hcolumn : ∃ column ∈ tv.fields, column ∉ exclude)
    (hfields : ∀ column, column ∉ exclude → (column ∈ tv.fields ↔ column ∈ op.fields))
    (hrequired : ∀ column ∈ ["entry_time_ms", "exit_time_ms", "direction", "qty"],
      column ∈ tv.fields ∧ column ∈ op.fields) :
    ((∃ summary, compareRowsByOrder py tv op exclude tol = .ok summary ∧ summary.status = .matched) ↔
      PlacesAgree py tol tv op exclude) ∧
    ((∀ p ∈ pairs, tradeKey py p.1 = tradeKey py p.2) →
      (∀ p ∈ pairs, ∀ q ∈ pairs, tradeKey py p.1 = tradeKey py q.1 → RowsAgree py tol tv.fields exclude p.1 q.2) →
      ∃ summary, compareRowsByOrder py tv op exclude tol = .ok summary ∧ summary.status = .matched) := by
  have hsorted (file : CsvFile) (h : ∀ column ∈ ["entry_time_ms", "exit_time_ms", "direction", "qty"],
    column ∈ file.fields) :
      canonicalTradeOrderRows py file.fields file.rows =
        file.rows.insertionSort fun a b => tradeKey py a ≤ tradeKey py b :=
    if_pos (all_eq_true.mpr fun column hc => decide_eq_true (h column hc))
  have hrows : op.rows ≠ [] := by
    rintro hnil
    rw [hnil] at hop
    exact hne (map_eq_nil_iff.mp hop.symm.eq_nil)
  rw [compareRowsByOrder_matched_iff, hsorted tv fun column hc => (hrequired column hc).1,
    hsorted op fun column hc => (hrequired column hc).2]
  constructor
  · have hlength : tv.rows.length = op.rows.length := by
      rw [htv.length_eq, hop.length_eq, length_map, length_map]
    rw [StableSort.forall₂_insertionSort_iff_rank hlength]
    exact ⟨fun h => h.2.2.2,fun h => ⟨hfields,hcolumn,hrows,h⟩⟩
  · intro hkey hagree
    have hkeys : (pairs.map Prod.fst).map (tradeKey py) = (pairs.map Prod.snd).map (tradeKey py) := by
      rw [map_map, map_map]
      exact map_congr_left hkey
    refine ⟨hfields,hcolumn,hrows,?_⟩
    refine StableSort.forall₂_insertionSort ((htv.map _).trans (hkeys ▸ (hop.map _).symm)) fun a ha b hb hab => ?_
    obtain ⟨p,hp,rfl⟩ := mem_map.mp (htv.mem_iff.mp ha)
    obtain ⟨q,hq,rfl⟩ := mem_map.mp (hop.mem_iff.mp hb)
    exact hagree p hp q hq (hab.trans (hkey q hq).symm)

def sampleTrade (entry signal : String) : Row :=
  [("entry_time_ms", entry), ("exit_time_ms", "3"), ("direction", "long"), ("qty", "1"), ("signal", signal)]

def sampleTrades (rows : List Row) : CsvFile := ⟨["entry_time_ms", "exit_time_ms", "direction", "qty", "signal"], rows⟩

def samplePairs : List (Row × Row) :=
  [(sampleTrade "1" "a", sampleTrade "1" "a"), (sampleTrade "2" "b", sampleTrade "2" "b")]

theorem sampleTrades_swapped : ∃ summary, compareRowsByOrder fewDecimals
    (sampleTrades [sampleTrade "1" "a", sampleTrade "2" "b"])
    (sampleTrades [sampleTrade "2" "b", sampleTrade "1" "a"]) []
    ⟨.finite 0, .finite 0⟩ = .ok summary ∧ summary.status = .matched := by
  have htv : (sampleTrades [sampleTrade "1" "a", sampleTrade "2" "b"]).rows.Perm (samplePairs.map Prod.fst) := .refl _
  have hop : (sampleTrades [sampleTrade "2" "b", sampleTrade "1" "a"]).rows.Perm (samplePairs.map Prod.snd) :=
    .swap _ _ _
  refine (paired_rows_matched_iff samplePairs htv hop (by decide) ⟨"qty",by decide,by simp⟩ (fun _ _ => .rfl)
    (by decide)).2
    (by decide +kernel) ?_
  intro p hp q hq hkey
  have hsame : p.1 = q.2 := by
    revert p q
    decide +kernel
  rw [hsame]
  exact fun _ _ _ => agree_self (by decide) _

/-- Two trades that differ in a column outside the key are not sorted, so files that list them in different orders
are paired wrongly. -/
theorem tied_trades_mismatch : let rows := [sampleTrade "1" "a", sampleTrade "1" "b"]
    rows.Perm rows.reverse ∧
    (∀ row ∈ rows, ∀ column, Agree fewDecimals byOrder ⟨.finite 0, .finite 0⟩ (row.get column) (row.get column)) ∧
    (compareRowsByOrder fewDecimals (sampleTrades rows) (sampleTrades rows.reverse) [] ⟨.finite 0, .finite 0⟩).map
      Summary.status = .ok .mismatch :=
  ⟨(reverse_perm _).symm,fun _ _ _ => agree_self (by decide) _,by decide +kernel⟩

end OpenPine.Compare
