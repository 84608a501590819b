import OpenPine.Foundation.Intervals
import OpenPine.Foundation.Python

/-! # Series of bars and their coverage

The bar queries and series that `openpine/data/orchestrator.py` takes from
`marketdata_provider`, the coverage that it computes, and its validator. What the code
only passes on (the prices of a bar and its volume) is a type parameter.
-/
namespace OpenPine.Orchestrator
open Intervals

structure Instrument where
  (exchange market symbol : String)
deriving DecidableEq, Repr

/-- A timeframe such as a month has no fixed duration. -/
structure Timeframe where
  canonical : String
  durationMs : Option ℕ+
deriving DecidableEq

def Timeframe.minute : Timeframe := ⟨"1m",some 60000⟩

inductive Source
  | storage | provider | auto
  | other (name : String)
deriving DecidableEq, Repr

inductive GapPolicy
  | fail | allowWithMetadata
  | other (name : String)
deriving DecidableEq, Repr

structure BarQuery where
  instrument : Instrument
  timeframe : Timeframe
  (startMs endMs : ℤ)
  source : Source
  gapPolicy : GapPolicy
  errorPolicy : String
deriving DecidableEq

structure Bar (V : Type) where
  (time timeClose : ℤ)
  values : V
  closed : Bool
deriving DecidableEq

inductive Status
  | empty | duplicate | unordered | gap | valid
  | other (name : String)
deriving DecidableEq, Repr

structure CoverageReport where
  (requestedStartMs requestedEndMs : ℤ)
  (deliveredStartMs deliveredEndMs : Option ℤ)
  missingIntervals : List (ℤ × ℤ)
  duplicateTimestamps : List ℤ
  sourceMix : List String
  status : Status
deriving DecidableEq

structure BarSeries (V : Type) where
  query : BarQuery
  bars : List (Bar V)
  coverage : CoverageReport
deriving DecidableEq

inductive Incomplete
  | duplicate (times : List ℤ)
  | unordered | openCandle
  | missing (intervals : List (ℤ × ℤ))
  | coverage (source : String) (query : BarQuery) (report : CoverageReport)
deriving DecidableEq

section Coverage
variable {V : Type}

def seenTimes (bars : List (Bar V)) : List ℤ × List ℤ :=
  bars.foldl (fun seen bar => (bar.time :: seen.1, if bar.time ∈ seen.1 then insert bar.time seen.2 else seen.2))
    ([], [])

def duplicateTimestamps (bars : List (Bar V)) : List ℤ := (seenTimes bars).2.insertionSort (· ≤ ·)

def slots (query : BarQuery) (duration : ℕ+) : List ℤ := progression query.startMs query.endMs duration

def missingIntervals (query : BarQuery) (bars : List (Bar V)) : List (ℤ × ℤ) :=
  match query.timeframe.durationMs with
  | none => []
  | some duration =>
    ((slots query duration).filter fun start => start ∉ bars.map (·.time)).map fun start =>
      (start, min (start + duration) query.endMs)

def ordered (bars : List (Bar V)) : Bool := bars.IsChain (·.time < ·.time)

def coverageFor (query : BarQuery) (bars : List (Bar V)) (source : String) : CoverageReport :=
  match bars with
  | [] =>
    { requestedStartMs := query.startMs, requestedEndMs := query.endMs, deliveredStartMs := none, deliveredEndMs := none
      missingIntervals := [(query.startMs, query.endMs)], duplicateTimestamps := [], sourceMix := [source],
      status := .empty }
  | first :: rest =>
    let duplicates := duplicateTimestamps bars
    let missing := if ordered bars = true ∧ duplicates = [] then missingIntervals query bars else []
    { requestedStartMs := query.startMs
      requestedEndMs := query.endMs
      deliveredStartMs := some first.time
      deliveredEndMs := some (rest.foldl (fun latest bar => max latest bar.timeClose) first.timeClose)
      missingIntervals := missing
      duplicateTimestamps := duplicates
      sourceMix := [source]
      status :=
        if duplicates ≠ [] then .duplicate else if ordered bars = false then .unordered else if missing ≠ [] then .gap
        else .valid }

/-- The `_coverage_for` of `openpine/adapters/bars.py`. -/
def adapterCoverageFor (query : BarQuery) (bars : List (Bar V)) (source : String) : CoverageReport :=
  match bars with
  | [] =>
    { requestedStartMs := query.startMs, requestedEndMs := query.endMs, deliveredStartMs := none, deliveredEndMs := none
      missingIntervals := [(query.startMs, query.endMs)], duplicateTimestamps := [], sourceMix := [source],
      status := .empty }
  | first :: rest =>
    let missing :=
      match query.timeframe.durationMs with
      | none => []
      | some duration =>
        ((slots query duration).filter fun start => start ∉ bars.map (·.time)).map fun start =>
          (start, min (start + duration) query.endMs)
    let duplicates := duplicateTimestamps bars
    { requestedStartMs := query.startMs
      requestedEndMs := query.endMs
      deliveredStartMs := some first.time
      deliveredEndMs := some (rest.foldl (fun latest bar => max latest bar.timeClose) first.timeClose)
      missingIntervals := if ordered bars = true ∧ duplicates = [] then missing else []
      duplicateTimestamps := duplicates
      sourceMix := [source]
      status :=
        if duplicates ≠ [] then .duplicate else if ordered bars = false then .unordered else if missing ≠ [] then .gap
        else .valid }

def sourceName (coverage : CoverageReport) : String := coverage.sourceMix.head?.getD "unknown"

def validate (series : BarSeries V) (allowGaps : Option Bool) : Except Incomplete CoverageReport :=
  let coverage := coverageFor series.query series.bars (sourceName series.coverage)
  if coverage.duplicateTimestamps ≠ [] then throw (.duplicate coverage.duplicateTimestamps)
  else if coverage.status = .unordered then throw .unordered
  else if series.bars.any (fun bar => bar.closed = false) then throw .openCandle
  else if coverage.missingIntervals ≠ [] ∧ allowGaps.getD (series.query.gapPolicy = .allowWithMetadata) = false then
    throw (.missing coverage.missingIntervals)
  else return coverage

/-- `_merge_series`: under one time the bar of the provider replaces the stored one. -/
def mergeSeries (query : BarQuery) (storage provider : BarSeries V) : BarSeries V :=
  let byTime := Python.Dict.index Bar.time (storage.bars ++ provider.bars)
  let bars := (Python.Dict.values byTime).insertionSort (·.time ≤ ·.time)
  { query, bars, coverage := coverageFor query bars "auto" }

end Coverage
end OpenPine.Orchestrator
