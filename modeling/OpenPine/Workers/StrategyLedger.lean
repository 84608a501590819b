import Mathlib.Algebra.Order.Ring.Unbundled.Rat
import OpenPine.Foundation.Python

/-! # The strategy ledger

`StrategyLedger` of `openpine/storage/strategy_ledger.py`: a table of positions with one
row for each strategy and market, and a table of trades whose primary key is the id of
the trade. A write that raises leaves the tables as they were.
-/
namespace OpenPine.Workers
open Python

inductive LedgerSource
  | history | paper | live
deriving DecidableEq, Repr

inductive PositionSide
  | flat | long | short
deriving DecidableEq, Repr

inductive TradeStatus
  | opened | closed
deriving DecidableEq, Repr

structure StrategyPosition where
  (strategyId exchange marketType symbol timeframe : String)
  source : LedgerSource
  side : PositionSide
  qty : ℚ
  positionId : String
  accountId : String := ""
  priceType : String := "trade"
  avgPrice : Option ℚ := none
  realizedPnl : ℚ := 0
  unrealizedPnl : Option ℚ := none
  openedAt : Option ℤ := none
  lastBarTime : Option ℤ := none
  (createdAt updatedAt : ℤ)
deriving DecidableEq

structure StrategyTrade where
  (strategyId exchange marketType symbol timeframe : String)
  source : LedgerSource
  status : TradeStatus
  direction : String
  entryTime : ℤ
  (entryPrice qty : ℚ)
  tradeId : String
  accountId : String := ""
  priceType : String := "trade"
  entryId : Option String := none
  exitId : Option String := none
  exitTime : Option ℤ := none
  exitPrice : Option ℚ := none
  grossPnl : Option ℚ := none
  netPnl : Option ℚ := none
  fee : Option ℚ := none
  barsHeld : Option ℤ := none
  /-- The entry `job_id` of the metadata. -/
  jobId : Option String := none
  (createdAt updatedAt : ℤ)
deriving DecidableEq

structure PositionKey where
  (strategyId accountId exchange marketType symbol priceType timeframe : String)
deriving DecidableEq

def StrategyPosition.key (p : StrategyPosition) : PositionKey :=
  { strategyId := p.strategyId, accountId := p.accountId, exchange := lower p.exchange
    marketType := lower p.marketType, symbol := upper p.symbol, priceType := lower p.priceType,
    timeframe := p.timeframe }

/-- The row of a position, with the texts as the statement writes them. -/
def StrategyPosition.row (p : StrategyPosition) (now : ℤ) : StrategyPosition :=
  { p with
    exchange := lower p.exchange, marketType := lower p.marketType, symbol := upper p.symbol
    priceType := lower p.priceType, updatedAt := now }

def StrategyTrade.row (t : StrategyTrade) (now : ℤ) : StrategyTrade :=
  { t with
    exchange := lower t.exchange, marketType := lower t.marketType, symbol := upper t.symbol
    priceType := lower t.priceType, updatedAt := now }

structure StrategyLedger where
  positions : Dict PositionKey StrategyPosition := .empty
  trades : Table StrategyTrade StrategyTrade.tradeId := .empty

namespace StrategyLedger

def getPosition (l : StrategyLedger) (key : PositionKey) : Option StrategyPosition := Dict.get? l.positions key

/-- A row that exists keeps its name and the time of its creation. -/
def upsertPosition (l : StrategyLedger) (p : StrategyPosition) (now : ℤ) : StrategyLedger :=
  let existing := (l.getPosition p.key).getD p
  { l with
    positions := Dict.put l.positions p.key
      { p.row now with positionId := existing.positionId, createdAt := existing.createdAt } }

def recordTrade (l : StrategyLedger) (t : StrategyTrade) (now : ℤ) : Except String StrategyLedger :=
  match l.trades.insert? (t.row now) with
  | none => .error "UNIQUE constraint failed: strategy_trades.trade_id"
  | some trades => .ok { l with trades := trades }

theorem getPosition_upsertPosition (l : StrategyLedger) (p : StrategyPosition) (now : ℤ) (key : PositionKey) :
    (l.upsertPosition p now).getPosition key = if p.key = key then some { p.row now with
      positionId := ((l.getPosition p.key).getD p).positionId
      createdAt := ((l.getPosition p.key).getD p).createdAt } else l.getPosition key := Dict.get?_put ..

theorem recordTrade_eq_ok {l l' : StrategyLedger} {t : StrategyTrade} {now : ℤ} (h : l.recordTrade t now = .ok l') :
    l'.positions = l.positions ∧ l'.trades.rows = l.trades.rows ++ [t.row now] ∧
      ∀ r ∈ l.trades.rows, r.tradeId ≠ t.tradeId := by
  unfold recordTrade at h
  split at h
  · cases h
  · rename_i trades hinsert
    cases h
    refine ⟨rfl,Table.insert?_rows hinsert,fun r hr he => ?_⟩
    have hfresh := Table.find?_eq_none.mp (Table.insert?_fresh hinsert) r hr
    exact hfresh he

theorem recordTrade_of_fresh {l : StrategyLedger} {t : StrategyTrade} (h : ∀ r ∈ l.trades.rows, r.tradeId ≠ t.tradeId)
    (now : ℤ) : ∃ l', l.recordTrade t now = .ok l' := by
  unfold recordTrade
  split
  · rename_i hinsert
    obtain ⟨r,hr⟩ := Option.isSome_iff_exists.mp (Table.insert?_eq_none.mp hinsert)
    obtain ⟨hmem,he⟩ := Table.find?_eq_some.mp hr
    exact absurd he (h r hmem)
  · exact ⟨_,rfl⟩

end StrategyLedger
end OpenPine.Workers
