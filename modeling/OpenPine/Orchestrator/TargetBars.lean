import OpenPine.Orchestrator.Coverage
import OpenPine.Orchestrator.DataOrchestrator

/-! # Bars of a longer timeframe

How `openpine/workers/strategy_fanout.py` derives a bar of a target timeframe from the stored bars of the source
timeframe, when the last bar of its window closes. Prices and volumes are exact numbers, and there is one instrument.
-/
namespace OpenPine.Orchestrator
open Intervals

structure Ohlcv where
  (opening high low close : ℚ)
  volume : Option ℚ
deriving DecidableEq

/-- `bar.volume or 0.0` -/
def Ohlcv.traded (values : Ohlcv) : ℚ := values.volume.getD 0

/-! ### The candle store -/

/-- The candle store of the data provider, with its states. It is not part of the repository: what it answers to a query
and what it does with a series are parameters. A series that it refuses leaves it as it was. -/
structure CandleStore (S : Type) where
  read : S → BarQuery → Except Thrown (Payload Ohlcv)
  write : S → BarSeries Ohlcv → Except Thrown (StoreResult × S)

namespace CandleStore
variable {S : Type} (candles : CandleStore S)

/-- The store as the orchestrator sees it while it loads bars from storage. -/
def outside (store : S) : Outside Ohlcv where
  read := candles.read store
  provider := none
  write _ := .ok { success := true, error := none }
  saving := .nothing

def getBars (store : S) (library : Library Ohlcv) (query : BarQuery) : Except Raised (List (Bar Ohlcv)) :=
  ((loadBars library (candles.outside store) false query).run.run ⟨[],[],.empty⟩).1.map (·.bars)

def writeSeries (store : S) (series : BarSeries Ohlcv) : Except Raised S :=
  match candles.write store series with
  | .error e => throw (storageFailure (.thrown e))
  | .ok (result, stored) =>
    if result.success then return stored
    else throw (.storageUnavailable ((Python.nonEmpty result.error).getD "failed to persist bars"))

def onCandleClosed (store : S) (instrument : Instrument) (timeframe : Timeframe) (bar : Bar Ohlcv) (source : String) :
    Except Raised S :=
  let query : BarQuery := { instrument, timeframe, startMs := bar.time, endMs := bar.timeClose, source := .storage
                            gapPolicy := .fail, errorPolicy := "raise" }
  candles.writeSeries store { query, bars := [bar], coverage := coverageFor query [bar] source }

end CandleStore

/-! ### Aggregation -/

def aggregateBars (bars : List (Bar Ohlcv)) (target : Timeframe) : Except Raised (Bar Ohlcv) :=
  match bars.insertionSort (·.time ≤ ·.time) with
  | [] => throw (.valueError "cannot aggregate empty bar series")
  | first :: rest => return {
      time := first.time
      timeClose := first.time + (target.durationMs.map fun duration => (duration : ℤ)).getD 0
      values := {
        opening := first.values.opening
        high := (rest.map (·.values.high)).foldl max first.values.high
        low := (rest.map (·.values.low)).foldl min first.values.low
        close := ((first :: rest).getLast (List.cons_ne_nil _ _)).values.close
        volume := some ((first :: rest).map (·.values.traded)).sum }
      closed := true }

/-- An instrument with its source timeframe, and what a query takes if it is not told. -/
structure RawMarket (S : Type) where
  library : Library Ohlcv
  candles : CandleStore S
  instrument : Instrument
  source : Timeframe
  errorPolicy : String

namespace RawMarket
variable {S : Type} (m : RawMarket S)

def query (timeframe : Timeframe) (startMs endMs : ℤ) (gapPolicy : GapPolicy) : BarQuery where
  instrument := m.instrument
  timeframe := timeframe
  startMs := startMs
  endMs := endMs
  source := .storage
  gapPolicy := gapPolicy
  errorPolicy := m.errorPolicy

/-! ### The target bar -/

def targetBarFromSource (store : S) (bar : Bar Ohlcv) (target : Timeframe) : Except Raised (Option (Bar Ohlcv)) :=
  match target.durationMs, m.source.durationMs with
  | some targetMs, some sourceMs =>
    if targetMs < sourceMs then
      throw (.valueError ("target timeframe " ++ target.canonical ++ " is below source " ++ m.source.canonical))
    else if (targetMs : ℕ) % sourceMs ≠ 0 then
      throw (.valueError ("target timeframe " ++ target.canonical ++ " is not a multiple of source " ++
        m.source.canonical))
    else if target.canonical = m.source.canonical then return some bar
    else if (bar.time + sourceMs) % (targetMs : ℤ) ≠ 0 then return none
    else
      match m.candles.getBars store m.library
        (m.query m.source (bar.time + sourceMs - targetMs) (bar.time + sourceMs) .fail) with
      | .error (.incompleteCoverage _) => return none
      | .error e => throw e
      | .ok bars => if bars.length ≠ (targetMs : ℕ) / sourceMs then return none else some <$> aggregateBars bars target
  | _, _ => throw (.valueError ("variable duration timeframe is not supported for fanout: " ++ target.canonical))

def persistTargetBar (persistAggregates : Bool) (store : S) (target : Timeframe) (derived : Bar Ohlcv) :
    Except Raised S :=
  if target.canonical ≠ m.source.canonical ∧ persistAggregates = true then
    m.candles.onCandleClosed store m.instrument target derived "aggregate"
  else return store

end RawMarket
end OpenPine.Orchestrator
