import OpenPine.Compare.Csv

/-! # Exported trades and equity curves

An exporter reads the fields of a trade or of a point of an equity curve under the names that the
engines give them and writes the rows inside the export window. The command line keeps all trades if
the comparison has no lower bound, and writes the equity curve as it was stored.
-/
namespace OpenPine.Export
open Text Compare List
open Python (bind_eq_ok)

inductive Value where
  | none
  | int (i : ℤ)
  | float (x : Double)
  | nan
  | text (s : String)
  deriving DecidableEq

abbrev Record := List (String × Value)

namespace Record

def get (r : Record) (name : String) : Value := (r.lookup name).getD .none

/-- `first(data, *names)` -/
def first (r : Record) (names : List String) : Value := ((names.map r.get).find? (· ≠ .none)).getD .none

end Record

/-- `value in (None, "")` -/
def Value.absent (v : Value) : Bool := v = .none || v = .text ""

def Value.truthy : Value → Bool
  | .none => false
  | .int i => i ≠ 0
  | .float x => x ≠ .finite 0
  | .nan => true
  | .text s => s ≠ ""

def Value.str (py : Runtime) : Value → String
  | .none => "None"
  | .int i => toString i
  | .float x => py.repr x
  | .nan => "nan"
  | .text s => s

def intOrNone (py : Runtime) (v : Value) : Except String (Option ℤ) :=
  if v.absent then pure none
  else
    match v with
    | .none => pure none
    | .int i => pure (some i)
    | .float x =>
      match x.trunc with
      | some i => pure (some i)
      | none => throw "cannot convert float infinity to integer"
    | .nan => throw "cannot convert float NaN to integer"
    | .text s => do
      let i ← py.int s
      pure (some i)

/-! ### Windows -/

structure ExportWindow where
  (fromMs toMs : ℤ)
  proper : fromMs < toMs

namespace ExportWindow

def make (fromMs toMs : ℤ) : Except String ExportWindow :=
  if h : fromMs < toMs then pure ⟨fromMs, toMs, h⟩
  else throw "export window from_ms must be less than to_ms"

def contains (w : ExportWindow) : Option ℤ → Bool
  | none => false
  | some ts => w.fromMs ≤ ts && ts < w.toMs

theorem make_eq_ok {fromMs toMs : ℤ} {w : ExportWindow} : make fromMs toMs = .ok w ↔
    fromMs = w.fromMs ∧ toMs = w.toMs := by
  unfold make
  obtain ⟨wfrom,wto,hproper⟩ := w
  by_cases h : fromMs < toMs
  · rw [dif_pos h]
    constructor
    · rintro ⟨⟩
      exact ⟨rfl,rfl⟩
    · rintro ⟨rfl,rfl⟩
      rfl
  · rw [dif_neg h]
    constructor
    · rintro ⟨⟩
    · rintro ⟨rfl,rfl⟩
      exact absurd hproper h

end ExportWindow

/-! ### Data frames -/

def Value.isInt : Value → Bool
  | .int _ => true
  | _ => false

/-- What the exporters use of pandas. A file is taken as the `csv` module reads it again. -/
structure Pandas (F : Type) where
  /-- `pd.DataFrame(rows, columns=columns)` -/
  dataFrame : List String → List Record → F
  columns : F → List String
  rows : F → List Record
  /-- `df[df["time"] >= ts]` -/
  since : F → ℤ → Except String F
  /-- `df[df["time"] < ts]` -/
  before : F → ℤ → Except String F
  /-- `df.to_csv(path, index=False)` -/
  toCsv : F → CsvFile
  /-- The text in that file of a value in a column. -/
  cellText : F → String → Value → String

namespace Pandas
variable {F : Type} (pd : Pandas F)

def rowText (df : F) (r : Record) : Row := (pd.columns df).map fun c => (c, pd.cellText df c (r.get c))

/-- The rows of `df'` are those of `df` that pass. -/
structure Selects (df df' : F) (keep : ℤ → Bool) : Prop where
  columns : pd.columns df' = pd.columns df
  rows : pd.rows df' = (pd.rows df).filter fun r => match r.get "time" with
    | .int t => keep t
    | _ => false

/-- What is asked of pandas: a frame has the columns and rows that it is made of, times that are integers can be
compared, a file has a header and a line for each row, texts are written as they are, and so are integers in a column of
integers. -/
structure Lawful : Prop where
  columns : ∀ columns rows, pd.columns (pd.dataFrame columns rows) = columns
  rows : ∀ columns rows, pd.rows (pd.dataFrame columns rows) = rows
  since : ∀ df ts, "time" ∈ pd.columns df → (∀ r ∈ pd.rows df, (r.get "time").isInt = true) →
    ∃ df', pd.since df ts = .ok df' ∧ pd.Selects df df' (ts ≤ ·)
  before : ∀ df ts, "time" ∈ pd.columns df → (∀ r ∈ pd.rows df, (r.get "time").isInt = true) →
    ∃ df', pd.before df ts = .ok df' ∧ pd.Selects df df' (· < ts)
  written : ∀ df, pd.columns df ≠ [] → pd.toCsv df = ⟨pd.columns df, (pd.rows df).map (pd.rowText df)⟩
  text : ∀ df column s, pd.cellText df column (.text s) = s
  int : ∀ columns rows column i, (∀ r ∈ rows, (r.get column).isInt = true) →
    pd.cellText (pd.dataFrame columns rows) column (.int i) = toString i

variable {pd} {df : F} {r : Record} {c : String}

theorem get_rowText (hc : c ∈ pd.columns df) : (pd.rowText df r).get c = some (pd.cellText df c (r.get c)) := by
  unfold rowText Row.get
  generalize pd.columns df = columns at hc
  induction columns with
  | nil => cases hc
  | cons first _ ih =>
    rw [map_cons, lookup_cons]
    by_cases h : c = first
    · subst h
      simp
    · rw [beq_eq_false_iff_ne.mpr h]
      exact ih ((mem_cons.mp hc).resolve_left h)

theorem get_rowText_of_notMem (hc : c ∉ pd.columns df) : (pd.rowText df r).get c = none := by
  refine lookup_eq_none_iff.mpr fun p hp => ?_
  obtain ⟨c',hc',rfl⟩ := mem_map.mp hp
  have hne : c ≠ c' := fun h => hc (by rwa [h])
  simpa using hne

theorem Lawful.toCsv_dataFrame (h : pd.Lawful) {columns : List String} (hne : columns ≠ []) (rows : List Record) :
    pd.toCsv (pd.dataFrame columns rows) = ⟨columns, rows.map (pd.rowText (pd.dataFrame columns rows))⟩ := by
  rw [h.written _ (by rwa [h.columns]), h.columns, h.rows]

end Pandas

/-- A frame in memory, with the columns of numbers that are not all integers. -/
structure PlainFrame where
  columns : List String
  rows : List Record
  floats : String → Bool

def plainSelect (df : PlainFrame) (keep : ℤ → Bool) : PlainFrame :=
  { df with rows := df.rows.filter fun r => match r.get "time" with
      | .int t => keep t
      | _ => false }

def Value.isText : Value → Bool
  | .text _ => true
  | _ => false

def plainCell (py : Runtime) (df : PlainFrame) (column : String) : Value → String
  | .none | .nan => ""
  | .text s => s
  | .float x => py.repr x
  | .int i => if df.floats column then py.repr (py.ofInt i) else toString i

def plainPandas (py : Runtime) : Pandas PlainFrame where
  dataFrame columns rows :=
    ⟨columns,rows,fun c => !(rows.any fun r => (r.get c).isText) && !rows.all fun r => (r.get c).isInt⟩
  columns := PlainFrame.columns
  rows := PlainFrame.rows
  since df ts := .ok (plainSelect df (ts ≤ ·))
  before df ts := .ok (plainSelect df (· < ts))
  toCsv df := ⟨df.columns, df.rows.map fun r => df.columns.map fun c => (c, plainCell py df c (r.get c))⟩
  cellText := plainCell py

theorem plainPandas_lawful (py : Runtime) : (plainPandas py).Lawful where
  columns _ _ := rfl
  rows _ _ := rfl
  since _ _ _ _ := ⟨_,rfl,rfl,rfl⟩
  before _ _ _ _ := ⟨_,rfl,rfl,rfl⟩
  written _ _ := rfl
  text _ _ _ := rfl
  int columns rows column i h := by
    change (if (!_ && !(rows.all fun r => (r.get column).isInt)) = true then _ else toString i) = toString i
    rw [all_eq_true.mpr h, Bool.not_true, Bool.and_false, if_neg Bool.false_ne_true]

variable {py : Runtime} {F : Type} (pd : Pandas F)

/-! ### Trades -/

def tradeColumns : List String :=
  ["trade_id", "status", "direction", "entry_time_ms", "exit_time_ms", "entry_price", "exit_price", "qty",
    "gross_profit", "commission", "net_profit", "max_runup", "max_drawdown"]

def tradeRow (data : Record) : Record :=
  let exitTime := data.first ["exit_time_ms", "exit_time"]
  let entryTime := data.first ["entry_time_ms", "entry_time"]
  let status :=
    if data.first ["status"] = .none then (if exitTime.absent then .text "open" else .text "closed")
    else data.first ["status"]
  let grossProfit := data.first ["gross_profit", "gross_pnl", "profit"]
  let netProfit := data.first ["net_profit", "net_pnl"]
  [("trade_id", data.first ["trade_id", "id"]), ("status", status), ("direction", data.first ["direction", "side"]),
    ("entry_time_ms", entryTime),
    ("exit_time_ms", exitTime),
    ("entry_price", data.first ["entry_price"]),
    ("exit_price", data.first ["exit_price"]),
    ("qty", data.first ["qty", "quantity", "size"]),
    ("gross_profit", grossProfit),
    ("commission", data.first ["commission", "fee"]),
    ("net_profit", if netProfit.absent then grossProfit else netProfit),
    ("max_runup", data.first ["max_runup", "mfe"]),
    ("max_drawdown", data.first ["max_drawdown", "mae"])]

/-- A trade as the store of backtests lists it: it has no status and no extremes. -/
structure BacktestTrade where
  (tradeId direction : String)
  entryTime : ℤ
  (entryPrice qty : Value)
  exitTime : Option ℤ
  (exitPrice grossPnl netPnl fee : Value)

/-- `object_dict` of a stored trade, as far as `trade_row` reads it. -/
def BacktestTrade.record (t : BacktestTrade) : Record :=
  [("trade_id", .text t.tradeId), ("direction", .text t.direction), ("entry_time", .int t.entryTime),
    ("entry_price", t.entryPrice), ("qty", t.qty), ("exit_time", (t.exitTime.map Value.int).getD .none),
    ("exit_price", t.exitPrice), ("gross_pnl", t.grossPnl), ("net_pnl", t.netPnl), ("fee", t.fee)]

/-- Inside a window only closed trades are exported, by the time of their exit. -/
def keepsRow (py : Runtime) (window : Option ExportWindow) (row : Record) : Except String Bool :=
  match window with
  | none => pure true
  | some w =>
    let status := if (row.get "status").truthy then (row.get "status").str py else ""
    if lower status ≠ "closed" then pure false
    else do
      let exitTime ← intOrNone py (row.get "exit_time_ms")
      pure (w.contains exitTime)

def exportTradeRows (py : Runtime) (window : Option ExportWindow) : List Record → Except String (List Record)
  | [] => pure []
  | trade :: trades => do
    let keep ← keepsRow py window (tradeRow trade)
    let rows ← exportTradeRows py window trades
    pure (if keep then tradeRow trade :: rows else rows)

def exportTrades (py : Runtime) (trades : List Record) (window : Option ExportWindow) : Except String CsvFile := do
  let rows ← exportTradeRows py window trades
  pure (pd.toCsv (pd.dataFrame tradeColumns rows))

variable {window : Option ExportWindow}

theorem exportTradeRows_map {α : Type} {xs : List α} {record : α → Record} {keep : α → Bool}
    (h : ∀ x ∈ xs, keepsRow py window (tradeRow (record x)) = .ok (keep x)) :
    exportTradeRows py window (xs.map record) = .ok ((xs.filter keep).map fun x => tradeRow (record x)) := by
  induction xs with
  | nil => rfl
  | cons _ _ ih =>
    obtain ⟨hfirst,hrest⟩ := forall_mem_cons.mp h
    rw [map_cons, exportTradeRows, hfirst, ih hrest, filter_cons]
    change Except.ok _ = Except.ok _
    split <;> rfl

/-! ### Equity curves -/

def equityColumns : List String :=
  ["bar_time_ms", "equity", "balance", "open_profit", "net_profit", "drawdown", "position_size"]

def equityRow (data : Record) : Record :=
  [("bar_time_ms", data.first ["bar_time_ms", "bar_time", "time", "timestamp"]), ("equity", data.first ["equity"]),
    ("balance", data.first ["balance", "cash"]),
    ("open_profit", data.first ["open_profit", "unrealized_pnl"]),
    ("net_profit", data.first ["net_profit", "net_pnl"]),
    ("drawdown", data.first ["drawdown"]),
    ("position_size", data.first ["position_size", "position_qty"])]

def exportEquityRows (py : Runtime) (window : ExportWindow) : List Record → Except String (List Record)
  | [] => pure []
  | point :: points => do
    let time ← intOrNone py ((equityRow point).get "bar_time_ms")
    let rows ← exportEquityRows py window points
    pure (if window.contains time then equityRow point :: rows else rows)

def exportEquityCurve (py : Runtime) (points : List Record) (window : ExportWindow) : Except String CsvFile := do
  let rows ← exportEquityRows py window points
  pure (pd.toCsv (pd.dataFrame equityColumns rows))

structure EquityPoint where
  time : ℤ
  (equity cash positionSize positionAvgPrice openProfit realizedProfit drawdown drawdownPercent : Value)

/-- A record of `_equity_curve_records` -/
def EquityPoint.record (e : EquityPoint) : Record :=
  [("time", .int e.time), ("equity", e.equity), ("cash", e.cash), ("position_size", e.positionSize),
    ("position_avg_price", e.positionAvgPrice), ("open_profit", e.openProfit), ("realized_profit", e.realizedProfit),
    ("drawdown", e.drawdown), ("drawdown_percent", e.drawdownPercent)]

def equityRecordColumns : List String :=
  ["time", "equity", "cash", "position_size", "position_avg_price", "open_profit", "realized_profit", "drawdown",
    "drawdown_percent"]

/-- The stored artifact, `pd.DataFrame(_equity_curve_records(curve))`: without a record it has no column. -/
def equityArtifact (curve : List EquityPoint) : F :=
  pd.dataFrame (if curve = [] then [] else equityRecordColumns) (curve.map EquityPoint.record)

/-! ### Files of the command line -/

structure Exported where
  (plots equity equityCurve trades : Option CsvFile)

/-- `compare_to_ms or 9_999_999_999_999_999`: a missing upper bound, and zero, stand for a far one. -/
def upperBound : Option ℤ → ℤ
  | none => 9999999999999999
  | some toMs => if toMs = 0 then 9999999999999999 else toMs

/-- The window of `_write_strategy_export_files` for its trades. -/
def tradeWindow (compareFrom compareTo : Option ℤ) : Except String (Option ExportWindow) :=
  match compareFrom with
  | none => pure none
  | some fromMs => do
    let w ← ExportWindow.make fromMs (upperBound compareTo)
    pure (some w)

/-- A comparison is made on a frame that has the column. -/
def selectTime (select : F → ℤ → Except String F) (bound : Option ℤ) (df : F) : Except String F :=
  match bound with
  | none => pure df
  | some ts => if "time" ∈ pd.columns df then select df ts else pure df

def selectTimes (df : F) (compareFrom compareTo : Option ℤ) : Except String F := do
  let later ← selectTime pd pd.since compareFrom df
  selectTime pd pd.before compareTo later

variable {pd}

section
variable {df : F} (htime : "time" ∈ pd.columns df) (hints : ∀ r ∈ pd.rows df, (r.get "time").isInt = true)
include htime hints

theorem selectTime_ok {select : F → ℤ → Except String F} {keep : ℤ → ℤ → Bool}
    (h : ∀ ts, ∃ df', select df ts = .ok df' ∧ pd.Selects df df' (keep ts)) (bound : Option ℤ) :
    ∃ df', selectTime pd select bound df = .ok df' ∧ pd.Selects df df' fun t => bound.all (keep · t) := by
  cases bound with
  | some ts =>
    obtain ⟨df',hselect,hselects⟩ := h ts
    exact ⟨df',(if_pos htime).trans hselect,hselects⟩
  | none =>
    refine ⟨df,rfl,rfl,(filter_eq_self.mpr fun r hr => ?_).symm⟩
    have hint := hints r hr
    cases hvalue : r.get "time" with
    | int => rfl
    | _ =>
      rw [hvalue] at hint
      cases hint

theorem Pandas.Lawful.selectTimes_ok (h : pd.Lawful) (compareFrom compareTo : Option ℤ) :
    ∃ df', selectTimes pd df compareFrom compareTo = .ok df' ∧
      pd.Selects df df' fun t => timeInCompareWindow t compareFrom compareTo := by
  obtain ⟨later,hlater,hselects⟩ := selectTime_ok htime hints (fun ts => h.since df ts htime hints) compareFrom
  have htime' : "time" ∈ pd.columns later := by rwa [hselects.columns]
  have hints' : ∀ r ∈ pd.rows later, (r.get "time").isInt = true := by
    rw [hselects.rows]
    exact fun r hr => hints r (mem_of_mem_filter hr)
  obtain ⟨df',hbefore,hselects'⟩ :=
    selectTime_ok htime' hints' (fun ts => h.before later ts htime' hints') compareTo
  refine ⟨df',bind_eq_ok.mpr ⟨later,hlater,hbefore⟩,hselects'.columns.trans hselects.columns,?_⟩
  rw [hselects'.rows, hselects.rows, filter_filter]
  refine filter_congr fun r _ => ?_
  cases r.get "time" with
  | int t => simp [timeInCompareWindow, Bool.and_comm]
  | _ => rfl

end

variable (pd)

def writeTradesFile (py : Runtime) (trades : List Record) (compareFrom compareTo : Option ℤ) (noTrades : Bool) :
    Except String (Option CsvFile) :=
  if noTrades then pure none
  else do
    let window ← tradeWindow compareFrom compareTo
    let file ← exportTrades pd py trades window
    pure (some file)

/-- `_write_strategy_export_files`: the trades and the equity curve, with the plots as they were written. -/
def writeStrategyExportFiles (py : Runtime) (plots : Option CsvFile) (trades : List Record) (equity : Option F)
    (compareFrom compareTo : Option ℤ) (noTrades : Bool) : Except String Exported := do
  let tradesFile ← writeTradesFile pd py trades compareFrom compareTo noTrades
  let equityFile ← equity.mapM fun df => do
    let selected ← selectTimes pd df compareFrom compareTo
    pure (pd.toCsv selected)
  pure ⟨plots, equityFile, none, tradesFile⟩

section
variable {pd} {plots : Option CsvFile} {trades : List Record} {equity : Option F} {compareFrom compareTo : Option ℤ}

theorem writeStrategyExportFiles_trades {noTrades : Bool} {exported : Exported} {file : CsvFile}
    (h : writeStrategyExportFiles pd py plots trades equity compareFrom compareTo noTrades = .ok exported)
    (hfile : exported.trades = some file) :
    ∃ window, tradeWindow compareFrom compareTo = .ok window ∧ exportTrades pd py trades window = .ok file := by
  obtain ⟨tradesFile,htrades,h⟩ := bind_eq_ok.mp h
  obtain ⟨equityFile,-,⟨⟩⟩ := bind_eq_ok.mp h
  cases noTrades with
  | true =>
    cases htrades
    cases hfile
  | false =>
    obtain ⟨window,hwindow,htrades⟩ := bind_eq_ok.mp htrades
    obtain ⟨table,htable,⟨⟩⟩ := bind_eq_ok.mp htrades
    cases hfile
    exact ⟨window,hwindow,htable⟩

theorem writeStrategyExportFiles_ok {file : CsvFile} (hwindow : tradeWindow compareFrom compareTo = .ok window)
    (hfile : exportTrades pd py trades window = .ok file)
    (hequity : ∀ df ∈ equity, ∃ selected, selectTimes pd df compareFrom compareTo = .ok selected) :
    ∃ exported, writeStrategyExportFiles pd py plots trades equity compareFrom compareTo false = .ok exported ∧
      exported.trades = some file := by
  have htrades : writeTradesFile pd py trades compareFrom compareTo false = .ok (some file) :=
    bind_eq_ok.mpr ⟨window,hwindow,bind_eq_ok.mpr ⟨file,hfile,rfl⟩⟩
  cases equity with
  | none => exact ⟨_,bind_eq_ok.mpr ⟨_,htrades,rfl⟩,rfl⟩
  | some df =>
    obtain ⟨selected,hselected⟩ := hequity df rfl
    refine ⟨_,bind_eq_ok.mpr ⟨_,htrades,bind_eq_ok.mpr ⟨some (pd.toCsv selected),?_,rfl⟩⟩,rfl⟩
    simp only [Option.mapM_some, hselected]
    rfl

end
end OpenPine.Export
