import OpenPine.Compare.StrategyRun
import OpenPine.Compare.KeptTrades

/-! # Equal trades

Trades taken from a chart never match: the export has two columns, of the extremes of a trade, that a chart is
not normalized to. Trades of a list match if the two sides keep the same ones, keep some, and agree on the extremes.
-/
namespace OpenPine.Compare
open Text Export SharedTrade List
open Python (bind_eq_ok)

structure ClosedTrade where
  (entryTime exitTime : ℤ)
  direction : Direction
  (entryPrice exitPrice qty profit : ℚ)
  qty_pos : 0 < qty
  moves : entryPrice ≠ exitPrice
  profit_sign : match direction with
    | .long => 0 < (exitPrice - entryPrice) * profit
    | .short => (exitPrice - entryPrice) * profit < 0

/-- However the value is printed, it reads as the number. -/
def ReadsAs (py : Runtime) {F : Type} (pd : Pandas F) (v : Value) (q : ℚ) : Prop :=
  ∀ df column, csvFloat py (some (pd.cellText df column v)) = some (.finite q)

/-- A closed trade in the list of TradingView and in the records of OpenPine. -/
structure EqualTrade where
  trade : ClosedTrade
  shared : SharedTrade

namespace EqualTrade

def exitRow (t : EqualTrade) : Row := t.shared.listing.exit.getD t.shared.listing.entry

structure Described (py : Runtime) {F : Type} (pd : Pandas F) (cols : TvColumns) (t : EqualTrade) : Prop where
  shared : t.shared.Described py cols
  entry_time : t.shared.entryTime = t.trade.entryTime
  exit_time : t.shared.exitTime = some t.trade.exitTime
  tv_direction : t.shared.listing.direction = t.trade.direction
  tv_entry_price : csvFloat py (some ((t.shared.listing.entry.get cols.price).getD "")) =
    some (.finite t.trade.entryPrice)
  tv_exit_price : csvFloat py (some ((t.exitRow.get cols.price).getD "")) = some (.finite t.trade.exitPrice)
  tv_qty : csvFloat py (some (qtyCell cols t.shared.listing.entry t.exitRow)) = some (.finite t.trade.qty)
  tv_net : csvFloat py (some (optionalCell t.exitRow cols.net)) = some (.finite t.trade.profit)
  op_status : t.shared.record.first ["status"] = .none ∨ t.shared.record.first ["status"] = .text "closed"
  op_direction : t.shared.record.first ["direction", "side"] = .text t.trade.direction.text
  op_entry_price : ReadsAs py pd ((tradeRow t.shared.record).get "entry_price") t.trade.entryPrice
  op_exit_price : ReadsAs py pd ((tradeRow t.shared.record).get "exit_price") t.trade.exitPrice
  op_qty : ReadsAs py pd ((tradeRow t.shared.record).get "qty") t.trade.qty
  op_net : ReadsAs py pd ((tradeRow t.shared.record).get "net_profit") t.trade.profit

/-- Floats hold the times exactly. -/
structure Exact (py : Runtime) (t : EqualTrade) : Prop where
  entry : py.float (toString t.trade.entryTime) = some (.finite t.trade.entryTime)
  exit : py.float (toString t.trade.exitTime) = some (.finite t.trade.exitTime)

end EqualTrade

variable {py : Runtime} {F : Type} {pd : Pandas F} {cols : TvColumns} {t : EqualTrade} {trades : List EqualTrade}
  {opts : CompareOptions}

/-! ### Rows that show a trade -/

/-- The columns of a row that a closed trade determines, apart from its extremes. -/
structure Shows (py : Runtime) (row : Row) (t : ClosedTrade) : Prop where
  status : row.get "status" = some "closed"
  direction : row.get "direction" = some t.direction.text
  entry_time : row.get "entry_time_ms" = some (toString t.entryTime)
  exit_time : row.get "exit_time_ms" = some (toString t.exitTime)
  entry_price : csvFloat py (row.get "entry_price") = some (.finite t.entryPrice)
  exit_price : csvFloat py (row.get "exit_price") = some (.finite t.exitPrice)
  qty : csvFloat py (row.get "qty") = some (.finite t.qty)
  net_profit : csvFloat py (row.get "net_profit") = some (.finite t.profit)

variable {column : String} {kept : List EqualTrade} {window : Option ExportWindow}

/-- A time as the order reads it: a small one counts seconds, and zero is taken for none. -/
def keyTime (ts : ℤ) : ℤ := if ts = 0 then -1 else if |ts| < 10000000000 then ts * 1000 else ts

/-- What a trade is sorted by. -/
def ClosedTrade.key (t : ClosedTrade) : TradeKey :=
  toLex (keyTime t.entryTime, toLex (keyTime t.exitTime, toLex ("closed", toLex (t.direction.text,
    toLex (.finite t.entryPrice, toLex (.finite (-t.qty), toLex (.finite t.exitPrice, .finite t.profit)))))))

def tvRow (py : Runtime) (cols : TvColumns) (t : EqualTrade) : Row := t.shared.listing.cells py cols

def tradeFrame (pd : Pandas F) (kept : List EqualTrade) : F :=
  pd.dataFrame tradeColumns (kept.map fun t => tradeRow t.shared.record)

def opRow (pd : Pandas F) (kept : List EqualTrade) (t : EqualTrade) : Row :=
  pd.rowText (tradeFrame pd kept) (tradeRow t.shared.record)

section
variable {files : TvFiles} {exported : Exported}

end

/-! ### Trades of a list -/

namespace EqualTrade

def inWindow (opts : CompareOptions) (t : EqualTrade) : Bool :=
  timeInCompareWindow t.trade.exitTime opts.compareFrom opts.compareTo

end EqualTrade

section
variable (hwindow : tradeWindow opts.compareFrom opts.compareTo = .ok window)
  (hdesc : ∀ t ∈ trades, t.Described py pd cols)
include hwindow hdesc

end

section
variable {tv : CsvFile} {window : Option ExportWindow} {file : CsvFile}

section Kept
variable (hpd : pd.Lawful) {kept : List EqualTrade} (hkept : ∀ t ∈ kept, t.Described py pd cols)
  (hexact : ∀ t ∈ kept, t.Exact py) (hdistinct : (kept.map fun t => t.trade.key).Nodup) {rows : List Row}
  (hperm : rows.Perm (kept.map (tvRow py cols)))
include hpd hkept hexact hdistinct hperm

end Kept
end

end OpenPine.Compare
