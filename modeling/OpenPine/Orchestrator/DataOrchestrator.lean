import OpenPine.Foundation.Hoare
import OpenPine.Orchestrator.PersistentCache

/-! # Loading bars

`DataOrchestrator.load_bars` of `openpine/data/orchestrator.py` for one caller at a time,
with the cache on or off. What a load fetches and what it writes is kept in a journal.
-/
namespace OpenPine.Orchestrator
open Hoare Intervals

structure Session (V : Type) where
  fetched : List BarQuery
  written : List (LoadedBarSeries V)
  cache : Cache V

abbrev Loading (V α : Type) := Program Raised (Session V) α

section
variable {V : Type} (library : Library V) (outside : Outside V)

def loadStorage (query : BarQuery) (complete : Bool) : Loading V (LoadedBarSeries V) := do
  let series ← lift (readSeries library outside query)
  let _ ← lift (refused (validate series.toBarSeries (some true)))
  lift (if complete then requireComplete library series "storage" else return series)

/-- `_load_provider` without other callers. -/
def loadProvider (query : BarQuery) : Loading V (LoadedBarSeries V) :=
  match outside.provider with
  | none => throw .providerUnavailable
  | some provider => do
    modify fun session => { session with fetched := session.fetched ++ [query] }
    let series ← lift (fetchSeries library provider query)
    let _ ← lift (validateFor query series)
    return series

def missingQuery (query : BarQuery) (interval : ℤ × ℤ) : BarQuery :=
  { query with startMs := interval.1, endMs := interval.2, source := .provider }

def loadIntervals (query : BarQuery) : List (ℤ × ℤ) → Loading V (List (Bar V))
  | [] => return []
  | interval :: rest => do
    let series ← loadProvider library outside (missingQuery query interval)
    let _ ← lift (validateFor query series)
    let _ ← lift (requireIfFail library query series "provider")
    return series.bars ++ (← loadIntervals query rest)

def loadMissingFromProvider (query : BarQuery) (intervals : List (ℤ × ℤ)) : Loading V (LoadedBarSeries V) := do
  let fetched ← loadIntervals library outside query (coalesce intervals)
  let bars := fetched.insertionSort (·.time ≤ ·.time)
  return { query, bars, coverage := coverageFor query bars "provider", snapshot := none }

def writeSeries (series : LoadedBarSeries V) : Except Raised Unit :=
  let payload := match series.snapshot with
    | some snapshot => .snapshot snapshot
    | none => .series series.toBarSeries
  match outside.write payload with
  | .error e => throw (storageFailure (.thrown e))
  | .ok result =>
    if result.success then return ()
    else throw (.storageUnavailable ((Python.nonEmpty result.error).getD "failed to persist bars"))

def writeProviderSeries (series : LoadedBarSeries V) : Loading V Unit := do
  let _ ← lift (refused (validate series.toBarSeries (some true)))
  modify fun session => { session with written := session.written ++ [series] }
  lift (writeSeries outside series)

def loadCache (enabled : Bool) (query : BarQuery) : Loading V (Option (LoadedBarSeries V)) :=
  if enabled then do
    match ← lift (loadBarSeries library (← get).cache query) with
    | none => return none
    | some found => do
      let series : LoadedBarSeries V := { found with snapshot := none }
      let _ ← lift (validateFor query series)
      return some (← lift (requireIfFail library query series "persistent_cache"))
  else return none

/-- `_save_cache`: a series from a snapshot is not cached, and failures are ignored. -/
def saveCache (enabled : Bool) (series : LoadedBarSeries V) : Loading V Unit :=
  when (enabled = true ∧ series.snapshot = none) (modify fun session =>
    { session with cache := saveBarSeries outside.saving session.cache series.toBarSeries })

def providerPersistsFetches : Bool := (outside.provider.map (·.persistsFetches)).getD false

def loadAuto (query : BarQuery) : Loading V (LoadedBarSeries V) := do
  let storage ← loadStorage library outside query false
  if library.isComplete storage.coverage then return storage
  else
    let provider ← loadMissingFromProvider library outside query storage.coverage.missingIntervals
    when (provider.bars ≠ [] ∧ providerPersistsFetches outside = false) (writeProviderSeries outside provider)
    let merged := mergeSeries query storage.toBarSeries provider.toBarSeries
    lift (requireIfFail library query { merged with snapshot := none } "auto")

def loadFresh (query : BarQuery) : Loading V (LoadedBarSeries V) :=
  match query.source with
  | .provider => do
    let series ← loadProvider library outside query
    lift (requireIfFail library query series "provider")
  | .auto => loadAuto library outside query
  | source => throw (.unsupportedSource source)

def loadBars (enabled : Bool) (query : BarQuery) : Loading V (LoadedBarSeries V) :=
  if query.source = .storage then loadStorage library outside query (query.gapPolicy = .fail)
  else do
    match ← loadCache library enabled query with
    | some cached => return cached
    | none => do
      let series ← loadFresh library outside query
      saveCache outside enabled series
      return series

end
end OpenPine.Orchestrator
