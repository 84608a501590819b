import OpenPine.Compare.TradeLists
import OpenPine.Export.Files

/-! # Which trades a windowed comparison keeps

The trades of TradingView are kept by the time of their exit or, while they are open, of their
entry. OpenPine exports all trades if there is no lower bound, and otherwise only closed ones. So the
two sides differ on an open trade that has begun inside the window, on every trade beyond an upper
bound that stands alone, and where an upper bound is missing or zero, which OpenPine takes for a far one.
-/
namespace OpenPine.Compare
open Text Export ExportWindow
open Python (bind_eq_ok)

/-- A trade as the list of TradingView has it and as OpenPine has recorded it. -/
structure SharedTrade where
  listing : Listing
  record : Record
  id : String
  entryTime : ℤ
  exitTime : Option ℤ

namespace SharedTrade

def windowTime (t : SharedTrade) : ℤ := t.exitTime.getD t.entryTime

/-- Both describe the trade. An open trade may have a row for its exit, with no time in it. -/
structure Described (py : Runtime) (cols : TvColumns) (t : SharedTrade) : Prop where
  entry_time : csvTimeMs py (t.listing.entry.get cols.time) = some t.entryTime
  exit_time : t.listing.exitTime py cols = t.exitTime
  record_id : t.record.first ["trade_id", "id"] = .text t.id
  record_entry : t.record.first ["entry_time_ms", "entry_time"] = .int t.entryTime
  record_exit : t.record.first ["exit_time_ms", "exit_time"] = (t.exitTime.map Value.int).getD .none
  record_status : t.record.first ["status"] = .none ∨
    ∃ s, t.record.first ["status"] = .text s ∧ lower s = if t.exitTime.isSome then "closed" else "open"

def exported (window : Option ExportWindow) (t : SharedTrade) : Bool := window.all fun w => w.contains t.exitTime

def SameSide (compareFrom compareTo : Option ℤ) (t : SharedTrade) : Prop :=
  match compareFrom, t.exitTime with
  | none, _ => ∀ toMs ∈ compareTo, t.windowTime < toMs
  | some fromMs, none => fromMs ≤ t.entryTime → ∃ toMs ∈ compareTo, toMs ≤ t.entryTime
  | some fromMs, some exitMs =>
    fromMs ≤ exitMs →
      (compareTo = none → exitMs < 9999999999999999) ∧ (compareTo = some 0 → exitMs < 0 ∨ 9999999999999999 ≤ exitMs)

end SharedTrade

def CsvFile.Keeps (file : CsvFile) (id : String) : Prop := ∃ row ∈ file.rows, row.get "trade_id" = some id

variable {py : Runtime} {F : Type} {pd : Pandas F} {cols : TvColumns} {t : SharedTrade} {trades : List SharedTrade}
  {compareFrom compareTo : Option ℤ}

/-! ### TradingView's side -/

def tvKept (compareFrom compareTo : Option ℤ) (trades : List SharedTrade) : List SharedTrade :=
  trades.filter fun t => timeInCompareWindow t.windowTime compareFrom compareTo

theorem SharedTrade.Described.window_time (h : t.Described py cols) :
    (t.listing.exitTime py cols).or (csvTimeMs py (t.listing.entry.get cols.time)) = some t.windowTime := by
  rw [h.exit_time, h.entry_time, SharedTrade.windowTime]
  cases t.exitTime with
  | none | some => rfl

theorem normalized_perm {tv : CsvFile} (hlists : Lists cols tv (trades.map SharedTrade.listing))
    (hdesc : ∀ t ∈ trades, t.Described py cols) (compareFrom compareTo : Option ℤ) :
    ∃ rows, writeNormalizedTvTrades py tv compareFrom compareTo = .ok ⟨tvTradeFields, rows⟩ ∧
      rows.Perm ((tvKept compareFrom compareTo trades).map fun t => t.listing.cells py cols) := by
  obtain ⟨rows,hok,hperm⟩ := hlists.normalized py compareFrom compareTo
  refine ⟨rows,hok,?_⟩
  have hfilter : (trades.filter fun t => inTradeWindow compareFrom compareTo
      ((t.listing.exitTime py cols).or (csvTimeMs py (t.listing.entry.get cols.time)))) =
        tvKept compareFrom compareTo trades := by
    refine List.filter_congr fun t ht => ?_
    rw [(hdesc t ht).window_time]
    rfl
  rw [List.filter_map, List.map_map] at hperm
  rw [← hfilter]
  exact hperm

theorem keeps_normalized {tv normalized : CsvFile} (hlists : Lists cols tv (trades.map SharedTrade.listing))
    (hdesc : ∀ t ∈ trades, t.Described py cols)
    (hok : writeNormalizedTvTrades py tv compareFrom compareTo = .ok normalized) (ht : t ∈ trades) :
    normalized.Keeps t.listing.number ↔ timeInCompareWindow t.windowTime compareFrom compareTo := by
  obtain ⟨rows,hrows,hperm⟩ := normalized_perm hlists hdesc compareFrom compareTo
  rw [hrows] at hok
  cases hok
  constructor
  · rintro ⟨row,hrow,hid⟩
    obtain ⟨t',ht',rfl⟩ := List.mem_map.mp (hperm.mem_iff.mp hrow)
    obtain ⟨hmem,hwindow⟩ := List.mem_filter.mp ht'
    have hnumber : t'.listing.number = t.listing.number := Option.some.inj hid
    have hnodup := hlists.numbers_nodup
    rw [List.map_map] at hnodup
    rwa [← List.inj_on_of_nodup_map hnodup hmem ht hnumber]
  · intro hwindow
    refine ⟨_,hperm.mem_iff.mpr (List.mem_map_of_mem (List.mem_filter.mpr ⟨ht,hwindow⟩)),rfl⟩

/-! ### OpenPine's side -/

theorem SharedTrade.Described.row_status (h : t.Described py cols) :
    ∃ s, (tradeRow t.record).get "status" = .text s ∧ lower s = if t.exitTime.isSome then "closed" else "open" := by
  change ∃ s, (if t.record.first ["status"] = .none then _ else _) = Value.text s ∧ _
  rcases h.record_status with hnone | ⟨s,hs,hlower⟩
  · rw [if_pos hnone, h.record_exit]
    cases t.exitTime with
    | none => exact ⟨"open",rfl,(by decide +kernel : lower "open" = "open")⟩
    | some => exact ⟨"closed",rfl,(by decide +kernel : lower "closed" = "closed")⟩
  · rw [hs, if_neg (by simp)]
    exact ⟨s,rfl,hlower⟩

theorem SharedTrade.Described.keepsRow_eq (h : t.Described py cols) (window : Option ExportWindow) :
    keepsRow py window (tradeRow t.record) = .ok (t.exported window) := by
  cases window with
  | none => rfl
  | some =>
    obtain ⟨s,hs,hlower⟩ := h.row_status
    have hexit : (tradeRow t.record).get "exit_time_ms" = (t.exitTime.map Value.int).getD .none := h.record_exit
    have hne : s ≠ "" := by
      rintro rfl
      rw [lower_eq_empty.mpr rfl] at hlower
      split at hlower <;> simp at hlower
    simp only [keepsRow, hs, Value.truthy, Value.str, decide_eq_true hne, if_true, hlower, hexit]
    unfold SharedTrade.exported
    cases t.exitTime with
    | none | some => rfl

theorem exportTrades_shared (pd : Pandas F) (hdesc : ∀ t ∈ trades, t.Described py cols) (window : Option ExportWindow) :
    exportTrades pd py (trades.map SharedTrade.record) window =
      .ok (pd.toCsv (pd.dataFrame tradeColumns
        ((trades.filter (·.exported window)).map fun t => tradeRow t.record))) := by
  unfold exportTrades
  rw [exportTradeRows_map fun t ht => (hdesc t ht).keepsRow_eq window]
  rfl

variable {window : Option ExportWindow}

section
variable (hpd : pd.Lawful)
include hpd

theorem SharedTrade.Described.get_trade_id (h : t.Described py cols) (rows : List Record) :
    (pd.rowText (pd.dataFrame tradeColumns rows) (tradeRow t.record)).get "trade_id" = some t.id := by
  have hid : (tradeRow t.record).get "trade_id" = .text t.id := h.record_id
  rw [Pandas.get_rowText (by rw [hpd.columns]; decide), hid, hpd.text]

theorem keeps_exported {file : CsvFile} (hdesc : ∀ t ∈ trades, t.Described py cols)
    (hids : (trades.map SharedTrade.id).Nodup)
    (hok : exportTrades pd py (trades.map SharedTrade.record) window = .ok file) (ht : t ∈ trades) : file.Keeps t.id ↔
      t.exported window := by
  rw [exportTrades_shared pd hdesc, hpd.toCsv_dataFrame (by decide)] at hok
  cases hok
  constructor
  · rintro ⟨row,hrow,hid⟩
    obtain ⟨r,hr,rfl⟩ := List.mem_map.mp hrow
    obtain ⟨t',ht',rfl⟩ := List.mem_map.mp hr
    obtain ⟨hmem,hexported⟩ := List.mem_filter.mp ht'
    rw [(hdesc t' hmem).get_trade_id hpd] at hid
    rwa [← List.inj_on_of_nodup_map hids hmem ht (Option.some.inj hid)]
  · intro hexported
    refine ⟨_,List.mem_map_of_mem (List.mem_map_of_mem (List.mem_filter.mpr ⟨ht,hexported⟩)),?_⟩
    exact (hdesc t ht).get_trade_id hpd _

end

/-! ### Both sides -/

theorem tradeWindow_eq_ok : tradeWindow compareFrom compareTo = .ok window ↔ window.map fromMs = compareFrom ∧
        ∀ w ∈ window, w.toMs = upperBound compareTo := by
  cases compareFrom with
  | none =>
    cases window with
    | none => exact ⟨fun _ => ⟨rfl,nofun⟩,fun _ => rfl⟩
    | some => exact ⟨nofun,fun h => by simp at h⟩
  | some =>
    unfold tradeWindow
    rw [bind_eq_ok]
    constructor
    · rintro ⟨w,hw,⟨⟩⟩
      obtain ⟨hfrom,hto⟩ := make_eq_ok.mp hw
      refine ⟨by simp [hfrom],?_⟩
      rintro _ ⟨⟩
      exact hto.symm
    · rintro ⟨hfrom,hto⟩
      obtain ⟨w,rfl,rfl⟩ := Option.map_eq_some_iff.mp hfrom
      exact ⟨w,make_eq_ok.mpr ⟨rfl,(hto w rfl).symm⟩,rfl⟩

theorem exists_tradeWindow_iff :
    (∃ window, tradeWindow compareFrom compareTo = .ok window) ↔
      ∀ fromMs ∈ compareFrom, fromMs < upperBound compareTo := by
  constructor
  · rintro ⟨window,hwindow⟩ fromMs hfrom
    obtain ⟨rfl,hto⟩ := tradeWindow_eq_ok.mp hwindow
    obtain ⟨w,rfl,rfl⟩ := Option.map_eq_some_iff.mp hfrom
    rw [← hto w rfl]
    exact w.proper
  · intro hproper
    cases compareFrom with
    | none => exact ⟨none,rfl⟩
    | some fromMs =>
      refine ⟨some ⟨fromMs, upperBound compareTo, hproper fromMs rfl⟩,tradeWindow_eq_ok.mpr ⟨rfl,?_⟩⟩
      rintro _ ⟨⟩
      rfl

/-- Both window rules place the trade alike. -/
theorem SharedTrade.sameSide_iff (hwindow : tradeWindow compareFrom compareTo = .ok window) (t : SharedTrade) :
    (timeInCompareWindow t.windowTime compareFrom compareTo ↔ t.exported window) ↔
      t.SameSide compareFrom compareTo := by
  obtain ⟨hfrom,hto⟩ := tradeWindow_eq_ok.mp hwindow
  subst hfrom
  unfold SharedTrade.SameSide SharedTrade.exported SharedTrade.windowTime timeInCompareWindow
  cases window with
  | none => cases compareTo <;> simp
  | some w =>
    have hlast := hto w rfl
    cases t.exitTime with
    | none => cases compareTo <;> simp [contains]
    | some =>
      cases compareTo with
      | none =>
        simp only [upperBound] at hlast
        simp [contains, hlast]
      | some =>
        simp only [upperBound] at hlast
        split at hlast <;> rename_i hzero
        · subst hzero
          simp [contains, hlast]
          omega
        · simp [contains, hlast, hzero]

/-- The trades that the two sides keep are the same exactly if OpenPine's window can be made and every
trade is placed alike. -/
theorem same_trades_kept_iff {tv : CsvFile} (hlists : Lists cols tv (trades.map SharedTrade.listing))
    (hids : (trades.map SharedTrade.id).Nodup) (hdesc : ∀ t ∈ trades, t.Described py cols) (hpd : pd.Lawful)
    (plots : Option CsvFile) (compareFrom compareTo : Option ℤ) (equity : Option F)
    (hequity : ∀ df ∈ equity, ∃ selected, selectTimes pd df compareFrom compareTo = .ok selected) :
    (∃ normalized exported file, writeNormalizedTvTrades py tv compareFrom compareTo = .ok normalized ∧
        writeStrategyExportFiles pd py plots (trades.map SharedTrade.record) equity compareFrom compareTo false =
          .ok exported ∧
        exported.trades = some file ∧ ∀ t ∈ trades, normalized.Keeps t.listing.number ↔ file.Keeps t.id) ↔
      (∀ fromMs ∈ compareFrom, fromMs < upperBound compareTo) ∧ ∀ t ∈ trades, t.SameSide compareFrom compareTo := by
  constructor
  · rintro ⟨normalized,exported,file,htv,hop,hfile,hsame⟩
    obtain ⟨window,hwindow,hexport⟩ := writeStrategyExportFiles_trades hop hfile
    refine ⟨?_,fun t ht => ?_⟩
    · rw [← exists_tradeWindow_iff]
      exact ⟨window,hwindow⟩
    · rw [← SharedTrade.sameSide_iff hwindow, ← keeps_normalized hlists hdesc htv ht,
        ← keeps_exported hpd hdesc hids hexport ht]
      exact hsame t ht
  · rintro ⟨hproper,hside⟩
    obtain ⟨window,hwindow⟩ := exists_tradeWindow_iff.mpr hproper
    obtain ⟨rows,htv,-⟩ := normalized_perm hlists hdesc compareFrom compareTo
    have hexport := exportTrades_shared pd hdesc window
    obtain ⟨exported,hwrite,htrades⟩ := writeStrategyExportFiles_ok hwindow hexport hequity
    refine ⟨_,exported,_,htv,hwrite,htrades,fun t ht => ?_⟩
    rw [keeps_normalized hlists hdesc htv ht, keeps_exported hpd hdesc hids hexport ht,
      SharedTrade.sameSide_iff hwindow]
    exact hside t ht

/-! ### A closed and an open trade -/

def sampleColumns : TvColumns := ⟨"Trade #", "Type", "Date/Time", "Price", none, none, none, none, none⟩

def sampleRow (number type time : String) : Row :=
  [("Trade #", number), ("Type", type), ("Date/Time", time), ("Price", "100")]

def closedTrade : SharedTrade where
  listing := ⟨"1", .long, sampleRow "1" "Entry long" "1700000000000", some (sampleRow "1" "Exit long" "1700000060000")⟩
  record := [("trade_id", .text "a"), ("direction", .text "long"), ("entry_time", .int 1700000000000),
    ("exit_time", .int 1700000060000)]
  id := "a"
  entryTime := 1700000000000
  exitTime := some 1700000060000

def openTrade : SharedTrade where
  listing := ⟨"2", .long, sampleRow "2" "Entry long" "1700000120000", none⟩
  record := [("trade_id", .text "b"), ("direction", .text "long"), ("entry_time", .int 1700000120000)]
  id := "b"
  entryTime := 1700000120000
  exitTime := none

def sampleList : CsvFile where
  fields := ["Trade #", "Type", "Date/Time", "Price"]
  rows := [sampleRow "2" "Entry long" "1700000120000", sampleRow "1" "Exit long" "1700000060000",
    sampleRow "1" "Entry long" "1700000000000"]

theorem lists_sample : Lists sampleColumns sampleList ([closedTrade, openTrade].map SharedTrade.listing) where
  columns := by decide +kernel
  rows_perm := by decide +kernel
  numbers_nodup := by decide +kernel
  listed := by
    refine List.forall_mem_cons.mpr ⟨?_,List.forall_mem_singleton.mpr ?_⟩
    · constructor <;> decide +kernel
    · constructor <;> decide +kernel

theorem described_sample : ∀ t ∈ [closedTrade, openTrade], t.Described fewDecimals sampleColumns := by
  refine List.forall_mem_cons.mpr ⟨?_,List.forall_mem_singleton.mpr ?_⟩
  · refine ⟨?_,?_,?_,?_,?_,.inl ?_⟩ <;> decide +kernel
  · refine ⟨?_,?_,?_,?_,?_,.inl ?_⟩ <;> decide +kernel

theorem later_window_alike :
    ∃ normalized exported file, writeNormalizedTvTrades fewDecimals sampleList (some 1700000030000)
    (some 1700000120000) = .ok normalized ∧
      writeStrategyExportFiles (plainPandas fewDecimals) fewDecimals none
        ([closedTrade, openTrade].map SharedTrade.record) none (some 1700000030000)
          (some 1700000120000) false = .ok exported ∧
      exported.trades = some file ∧
      ∀ t ∈ [closedTrade, openTrade], normalized.Keeps t.listing.number ↔ file.Keeps t.id := by
  refine (same_trades_kept_iff lists_sample (by decide) described_sample
    (plainPandas_lawful _) none _ _ none nofun).mpr ⟨?_,?_⟩
  · rintro _ ⟨⟩
    decide
  · refine List.forall_mem_cons.mpr ⟨?_,List.forall_mem_singleton.mpr ?_⟩
    · exact fun _ => ⟨nofun,nofun⟩
    · exact fun _ => ⟨_,rfl,le_rfl⟩

/-- Without an upper bound the open trade is TradingView's only, although both sides list it. -/
theorem open_trade_on_one_side : Lists sampleColumns sampleList ([closedTrade, openTrade].map SharedTrade.listing) ∧
      (∀ t ∈ [closedTrade, openTrade], t.Described fewDecimals sampleColumns) ∧
      ∃ normalized exported file, writeNormalizedTvTrades fewDecimals sampleList (some 1700000030000) none =
        .ok normalized ∧
        writeStrategyExportFiles (plainPandas fewDecimals) fewDecimals none
          ([closedTrade, openTrade].map SharedTrade.record) none (some 1700000030000)
            none false = .ok exported ∧
        exported.trades = some file ∧ normalized.Keeps openTrade.listing.number ∧ ¬file.Keeps openTrade.id := by
  have hmem : openTrade ∈ [closedTrade, openTrade] := by simp
  have hwindow : tradeWindow (some 1700000030000) none = .ok (some ⟨1700000030000, 9999999999999999, by decide⟩) := rfl
  obtain ⟨rows,htv,-⟩ := normalized_perm lists_sample described_sample (some 1700000030000) none
  have hexport := exportTrades_shared (plainPandas fewDecimals) described_sample
    (some ⟨1700000030000, 9999999999999999, by decide⟩)
  obtain ⟨exported,hwrite,htrades⟩ : ∃ exported, writeStrategyExportFiles (plainPandas fewDecimals)
    fewDecimals none _ none
      (some 1700000030000) none false = .ok exported ∧ _ := writeStrategyExportFiles_ok hwindow hexport nofun
  refine ⟨lists_sample,described_sample,_,exported,_,htv,hwrite,htrades,?_,?_⟩
  · rw [keeps_normalized lists_sample described_sample htv hmem]
    decide
  · rw [keeps_exported (plainPandas_lawful _) described_sample (by decide) hexport hmem]
    decide

end OpenPine.Compare
