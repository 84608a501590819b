import OpenPine.Compare.Csv
import OpenPine.Foundation.Grouping
import Mathlib.Data.Sum.Order

/-! # Trades of TradingView

TradingView gives trades as a list with one row for the entry and one for the exit of a trade, or as
diagnostic columns of a chart with one row for every bar. Both are brought into the columns in which
OpenPine exports its trades. The rows of a list are grouped by the number of the trade, so that the
order of the rows plays no part.
-/
namespace OpenPine.Compare
open Text
open Python (Dict bind_eq_ok)

variable (py : Runtime)

/-! ### Trade lists -/

structure TvColumns where
  (tradeNo type time price : String)
  (signal qty net runup drawdown : Option String)
  deriving DecidableEq

/-- The columns that `_write_normalized_tv_trades` finds in a header. -/
def tvColumns (fields : List String) : Except String TvColumns :=
  let tradeNo := findCompareColumn fields ["номер сделки", "trade #", "trade no", "trade number", "trade"] []
  let type := findCompareColumn fields ["тип", "type"] []
  let time := findCompareColumn fields ["дата и время", "date/time", "date and time", "date"] []
  let signal := findCompareColumn fields ["сигнал", "signal"] []
  let price := findCompareColumn fields ["цена", "price"] []
  let qty := findCompareColumn fields ["размер (кол-во)", "qty", "quantity", "contracts", "size"] ["сумма",
    "value", "amount"]
  let net := findCompareColumn fields ["чистая пр/уб", "net profit", "net p/l", "net pnl"] ["%", "percent"]
  let runup := findCompareColumn fields ["благоприятное отклонение", "run-up", "runup", "mfe"] ["%", "percent"]
  let drawdown := findCompareColumn fields ["неблагоприятное отклонение", "drawdown", "mae"] ["%", "percent"]
  match tradeNo, type, time, price with
  | some tradeNo, some type, some time, some price =>
    pure ⟨tradeNo, type, time, price, signal, qty, net, runup, drawdown⟩
  | _, _, _, _ =>
    let missing := [("trade", tradeNo), ("type", type), ("time", time), ("price", price)].filterMap
      fun (name, column) =>
      if column.isNone then some name else none
    throw ("Cannot normalize TV trades, missing columns: " ++ ", ".intercalate missing)

structure Bucket where
  (entry exit : Option Row)
  direction : Option Direction

namespace Bucket

def empty : Bucket := ⟨none, none, none⟩

def store (b : Bucket) (action : Action) (row : Row) (direction : Option Direction) : Bucket :=
  match action with
  | .entry => ⟨some row, b.exit, direction.or b.direction⟩
  | .exit => ⟨b.entry, some row, direction.or b.direction⟩

end Bucket

def TvColumns.number (cols : TvColumns) (row : Row) : String := strip ((row.get cols.tradeNo).getD "")

def groupRow (cols : TvColumns) (grouped : Dict String Bucket) (row : Row) : Dict String Bucket :=
  if cols.number row = "" then grouped
  else
    match tradeActionAndDirection (row.get cols.type) with
    | (none, _) => grouped
    | (some action, direction) =>
      Dict.put grouped (cols.number row)
        (((Dict.get? grouped (cols.number row)).getD .empty).store action row direction)

/-- `trade_sort_key`: numbers in their order before all other texts. -/
def tradeSortKey (item : String) : Lex (Double ⊕ String) :=
  match csvFloat py (some item) with
  | some x => toLex (.inl x)
  | none => toLex (.inr item)

def tvTradeFields : List String :=
  ["trade_id", "status", "direction", "entry_time_ms", "exit_time_ms", "entry_price", "exit_price", "qty", "net_profit",
    "max_runup", "max_drawdown", "entry_signal", "exit_signal"]

def timeText (t : Option ℤ) : String := (t.map toString).getD ""

/-- `row.get(column) if column else None`, written to the file. -/
def optionalCell (row : Row) (column : Option String) : String := ((column.filter (· ≠ "")).bind row.get).getD ""

/-- The quantity in the row of the exit or, if that is blank, of the entry. -/
def qtyCell (cols : TvColumns) (entryRow exitRow : Row) : String :=
  if optionalCell exitRow cols.qty ≠ "" then optionalCell exitRow cols.qty else optionalCell entryRow cols.qty

/-- A trade counts by the time of its exit if it is closed, and else by the time of its entry. -/
def inTradeWindow (compareFrom compareTo windowTime : Option ℤ) : Bool :=
  compareFrom.all (fun fromMs => windowTime.any (fromMs ≤ ·)) && compareTo.all (fun toMs => windowTime.any (· < toMs))

def normalizedCells (cols : TvColumns) (tradeNo : String) (direction : Option Direction) (entryRow exitRow : Row)
    (entryTime exitTime : Option ℤ) : Row :=
  [("trade_id", tradeNo), ("status", if exitTime.isSome then "closed" else "open"),
    ("direction", (direction.map Direction.text).getD ""),
    ("entry_time_ms", timeText entryTime),
    ("exit_time_ms", timeText exitTime),
    ("entry_price", (entryRow.get cols.price).getD ""),
    ("exit_price", (exitRow.get cols.price).getD ""),
    ("qty", qtyCell cols entryRow exitRow),
    ("net_profit", optionalCell exitRow cols.net),
    ("max_runup", optionalCell exitRow cols.runup),
    ("max_drawdown", optionalCell exitRow cols.drawdown),
    ("entry_signal", optionalCell entryRow cols.signal),
    ("exit_signal", optionalCell exitRow cols.signal)]

def normalizedRow (cols : TvColumns) (compareFrom compareTo : Option ℤ) (tradeNo : String) (bucket : Bucket) :
    Option Row :=
  match bucket.entry.or bucket.exit, bucket.exit.or bucket.entry with
  | some entryRow, some exitRow =>
    let entryTime := csvTimeMs py (entryRow.get cols.time)
    let exitTime := if bucket.exit.isSome then csvTimeMs py (exitRow.get cols.time) else none
    let windowTime := if exitTime.isSome then exitTime else entryTime
    if inTradeWindow compareFrom compareTo windowTime then
      some (normalizedCells cols tradeNo bucket.direction entryRow exitRow entryTime exitTime)
    else none
  | _, _ => none

def writeNormalizedTvTrades (tv : CsvFile) (compareFrom compareTo : Option ℤ) : Except String CsvFile := do
  let cols ← tvColumns tv.fields
  let grouped := tv.rows.foldl (groupRow cols) .empty
  let numbers := (grouped.rows.map Prod.fst).insertionSort fun a b => tradeSortKey py a ≤ tradeSortKey py b
  let rows := numbers.filterMap fun tradeNo =>
    (Dict.get? grouped tradeNo).bind (normalizedRow py cols compareFrom compareTo tradeNo)
  pure ⟨tvTradeFields, rows⟩

/-! ### Charts -/

def chartSuffix : String := "_DIAG_NEW_CLOSED_TRADE"

def chartRequired : List String :=
  ["_LOCAL_BAR", "_CLOSED_TRADES", "_DIAG_LAST_CLOSED_PROFIT", "_DIAG_LAST_CLOSED_SIZE",
    "_DIAG_LAST_CLOSED_ENTRY_PRICE",
    "_DIAG_LAST_CLOSED_EXIT_PRICE", "_DIAG_LAST_CLOSED_ENTRY_BAR", "_DIAG_LAST_CLOSED_EXIT_BAR"]

def chartDiagnosticPrefix (fields : List String) : Option String :=
  fields.findSome? fun field =>
    if chartSuffix.toList <:+ field.toList then
      let stem := String.ofList (field.toList.take (field.toList.length - chartSuffix.toList.length))
      if chartRequired.all (fun item => (stem ++ item) ∈ fields) then some stem else none
    else none

/-- The bound 1e-12 below which a number counts as zero. -/
def negligible (x : Double) : Bool := x.abs ≤ .finite (1 / 1000000000000)

def tradeDirectionFromPrices (entryPrice exitPrice qty profit : Option Double) : Option Direction := do
  let entryPrice ← entryPrice
  let exitPrice ← exitPrice
  let qty ← qty
  let profit ← profit
  let move := (py.sub exitPrice entryPrice).bind fun d => py.mul d qty.abs
  if move.any negligible || negligible profit then none
  else if (move.bind fun m => py.mul m profit).any (.finite 0 < ·) then some .long
  else some .short

def roundFloat (x : Double) : Except String ℤ :=
  match x.round with
  | some n => pure n
  | none => throw "cannot convert float infinity to integer"

def chartTradeFields : List String :=
  ["trade_id", "status", "direction", "entry_time_ms", "exit_time_ms", "entry_price", "exit_price", "qty", "net_profit"]

def timeByBar (stem timeCol : String) (rows : List Row) : Except String (Dict ℤ ℤ) :=
  rows.foldlM (fun times row =>
    match csvFloat py (row.get (stem ++ "_LOCAL_BAR")), csvTimeMs py (row.get timeCol) with
    | some bar, some time => do
      let n ← roundFloat bar
      pure (Dict.put times n time)
    | _, _ => pure times) .empty

/-- `None if math.isnan(bar) else time_by_bar.get(round(bar))` -/
def barTime (times : Dict ℤ ℤ) (bar : Option Double) : Except String (Option ℤ) :=
  match bar with
  | none => pure none
  | some x => do
    let n ← roundFloat x
    pure (Dict.get? times n)

def chartRow (stem timeCol : String) (times : Dict ℤ ℤ) (compareFrom compareTo : Option ℤ) (sequence : ℕ) (row : Row) :
    Except String (Option Row) := do
  let cell (item : String) : Option Double := csvFloat py (row.get (stem ++ item))
  if (cell chartSuffix).all negligible then pure none
  else
    let ownTime := csvTimeMs py (row.get timeCol)
    let exitTime ← if ownTime.isSome then pure ownTime else barTime times (cell "_DIAG_LAST_CLOSED_EXIT_BAR")
    match exitTime with
    | none => pure none
    | some exitTime =>
      if !timeInCompareWindow exitTime compareFrom compareTo then pure none
      else do
        let entryTime ← barTime times (cell "_DIAG_LAST_CLOSED_ENTRY_BAR")
        let direction := tradeDirectionFromPrices py (cell "_DIAG_LAST_CLOSED_ENTRY_PRICE")
          (cell "_DIAG_LAST_CLOSED_EXIT_PRICE") (cell "_DIAG_LAST_CLOSED_SIZE") (cell "_DIAG_LAST_CLOSED_PROFIT")
        let tradeId ←
          match cell "_CLOSED_TRADES" with
          | some count => do
            let n ← roundFloat count
            pure (toString n)
          | none => pure (toString sequence)
        pure (some
          [("trade_id", tradeId), ("status", "closed"), ("direction", (direction.map Direction.text).getD ""),
            ("entry_time_ms", timeText entryTime),
            ("exit_time_ms", timeText (some exitTime)),
            ("entry_price", (row.get (stem ++ "_DIAG_LAST_CLOSED_ENTRY_PRICE")).getD ""),
            ("exit_price", (row.get (stem ++ "_DIAG_LAST_CLOSED_EXIT_PRICE")).getD ""),
            ("qty", ((cell "_DIAG_LAST_CLOSED_SIZE").map fun qty => py.format12g qty.abs).getD ""),
            ("net_profit", (row.get (stem ++ "_DIAG_LAST_CLOSED_PROFIT")).getD "")])

/-- `_write_chart_diagnostic_tv_trades`; none where no file is written. -/
def writeChartDiagnosticTvTrades (chart : CsvFile) (compareFrom compareTo : Option ℤ) :
    Except String (Option CsvFile) :=
  match chartDiagnosticPrefix chart.fields,
      if "time" ∈ chart.fields then some "time" else findCompareColumn chart.fields ["time"] [] with
  | some stem, some timeCol => do
    let times ← timeByBar py stem timeCol chart.rows
    let rows ← chart.rows.foldlM (fun rows row => do
      let next ← chartRow py stem timeCol times compareFrom compareTo (rows.length + 1) row
      pure (rows ++ next.toList)) []
    pure (if rows = [] then none else some ⟨chartTradeFields, rows⟩)
  | _, _ => pure none

variable {py}

end OpenPine.Compare
