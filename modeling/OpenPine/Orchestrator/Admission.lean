import OpenPine.Orchestrator.BarSeries

/-! # What the store and the provider deliver

The answers that come from outside and their admission by
`openpine/data/orchestrator.py`: a series is taken as it is, a snapshot is checked bar
by bar. The store, the provider and the file system are functions of what they are
asked, since a load asks each question at most once.
-/
namespace OpenPine.Orchestrator

/-! ### What comes from outside -/

/-- An exception of the store or the provider. One that is not ordinary is not caught by
`except Exception`. -/
structure Thrown where
  text : String
  ordinary : Bool
deriving DecidableEq, Repr

structure SnapshotQuery where
  (instrumentId timeframe : String)
  (startUtcMs endUtcMs : ℤ)
deriving DecidableEq

structure BarEnvelope (V : Type) where
  (instrumentId timeframe : String)
  (openTimeUtcMs closeTimeUtcMs : ℤ)
  values : V
  finality : String
deriving DecidableEq

/-- A snapshot; a part that is missing or of another type is `none`. -/
structure Snapshot (V : Type) where
  envelope : Option (Option SnapshotQuery)
  bars : Option (List (Option (BarEnvelope V)))
deriving DecidableEq

inductive Payload (V : Type)
  | series (series : BarSeries V)
  | snapshot (snapshot : Snapshot V)
  | invalid
deriving DecidableEq

/-- A series together with the snapshot that it was admitted from, if any. -/
structure LoadedBarSeries (V : Type) extends BarSeries V where
  snapshot : Option (Snapshot V)
deriving DecidableEq

/-- The functions of `marketdata_provider`, `openpine_contracts` and `pandas`; the last one
gives the values of a bar that was written to a file and read back. -/
structure Library (V : Type) where
  serialize : Instrument → String
  isComplete : CoverageReport → Bool
  validateEnvelope : Option SnapshotQuery → Except String Unit
  verifyEnvelope : Option SnapshotQuery → Bool
  validateBar : BarEnvelope V → Except String Unit
  verifyBar : BarEnvelope V → Bool
  reread : V → V

structure StoreResult where
  success : Bool
  error : Option String

structure Provider (V : Type) where
  persistsFetches : Bool
  fetchBars : BarQuery → Except Thrown (Payload V)

/-- How much of a cache entry is written before the file system fails, if it does. -/
inductive Saving
  | nothing | dataOnly | all
deriving DecidableEq

structure Outside (V : Type) where
  read : BarQuery → Except Thrown (Payload V)
  provider : Option (Provider V)
  write : Payload V → Except Thrown StoreResult
  saving : Saving

inductive Raised
  | incompleteCoverage (why : Incomplete)
  | providerUnavailable
  | storageUnavailable (text : String)
  | unsupportedSource (source : Source)
  | valueError (text : String)
  | contract (text : String)
  | emptyData
  | thrown (e : Thrown)
deriving DecidableEq

/-! ### Admission -/

section Admission
variable {V : Type} (library : Library V)

def contract (checked : Except String Unit) : Except Raised Unit :=
  match checked with
  | .ok _ => return ()
  | .error text => throw (.contract text)

def refused {α : Type} (checked : Except Incomplete α) : Except Raised α :=
  match checked with
  | .ok a => return a
  | .error why => throw (.incompleteCoverage why)

def canonicalBar (query : BarQuery) (index : ℕ) : Option (BarEnvelope V) → Except Raised (Bar V)
  | none => throw (.storageUnavailable ("marketdata bar " ++ toString index ++ " is invalid"))
  | some envelope => do
    contract (library.validateBar envelope)
    if library.verifyBar envelope = false then
      throw (.storageUnavailable ("marketdata bar " ++ toString index ++ " content hash is invalid"))
    else if envelope.instrumentId ≠ library.serialize query.instrument ∨
      envelope.timeframe ≠ query.timeframe.canonical then
      throw (.storageUnavailable ("marketdata bar " ++ toString index ++ " identity does not match query"))
    else
      return { time := envelope.openTimeUtcMs, timeClose := envelope.closeTimeUtcMs, values := envelope.values
               closed := envelope.finality = "FINAL" }

def canonicalBars (query : BarQuery) (index : ℕ) : List (Option (BarEnvelope V)) → Except Raised (List (Bar V))
  | [] => return []
  | raw :: rest => do
    let bar ← canonicalBar library query index raw
    return bar :: (← canonicalBars query (index + 1) rest)

def canonicalSeries (payload : Payload V) (query : BarQuery) (source : String) : Except Raised (LoadedBarSeries V) :=
  match payload with
  | .series series => return { series with snapshot := none }
  | .invalid => throw (.storageUnavailable "marketdata boundary returned an invalid snapshot")
  | .snapshot snapshot =>
    match snapshot.envelope, snapshot.bars with
    | some envelope, some raw => do
      contract (library.validateEnvelope envelope)
      if library.verifyEnvelope envelope = false then
        throw (.storageUnavailable "marketdata snapshot content hash is invalid")
      else if envelope ≠ some ⟨library.serialize query.instrument,query.timeframe.canonical,query.startMs,
        query.endMs⟩ then
        throw (.storageUnavailable "marketdata snapshot query identity mismatch")
      else
        let bars ← canonicalBars library query 0 raw
        return { query, bars, coverage := coverageFor query bars source, snapshot := some snapshot }
    | _, _ => throw (.storageUnavailable "marketdata snapshot envelope is required")

def called {α : Type} (answer : Except Thrown α) : Except Raised α :=
  match answer with
  | .ok a => return a
  | .error e => throw (.thrown e)

/-- `except Exception as exc: raise StorageUnavailableError(str(exc))` -/
def storageFailure : Raised → Raised
  | .thrown e => if e.ordinary then .storageUnavailable e.text else .thrown e
  | .contract text => .storageUnavailable text
  | e => e

def readSeries (outside : Outside V) (query : BarQuery) : Except Raised (LoadedBarSeries V) :=
  (do canonicalSeries library (← called (outside.read query)) query "storage" : Except Raised _).mapError storageFailure

def fetchSeries (provider : Provider V) (query : BarQuery) : Except Raised (LoadedBarSeries V) := do
  canonicalSeries library (← called (provider.fetchBars query)) query "provider"

def requireComplete (series : LoadedBarSeries V) (source : String) : Except Raised (LoadedBarSeries V) :=
  if library.isComplete series.coverage then return series
  else throw (.incompleteCoverage (.coverage source series.query series.coverage))

/-- `require_complete if gap_policy == "fail"` -/
def requireIfFail (query : BarQuery) (series : LoadedBarSeries V) (source : String) :
    Except Raised (LoadedBarSeries V) :=
  if query.gapPolicy = .fail then requireComplete library series source else return series

/-- `self._validator.validate(series, allow_gaps=gap_policy != "fail")` -/
def validateFor (query : BarQuery) (series : LoadedBarSeries V) : Except Raised CoverageReport :=
  refused (validate series.toBarSeries (some (query.gapPolicy ≠ .fail)))

end Admission
end OpenPine.Orchestrator
