import Mathlib.Data.List.Sort
import Mathlib.Data.String.Basic
import OpenPine.Foundation.Sqlite
import OpenPine.Foundation.Transaction

/-! # The strategy registry

`openpine/registry/strategies.py`: the rows of the table `strategy_instances` with the
columns that operations read or patch, and the circuit of the background worker. Each
operation is one transaction on the database file, so processes that share the file take
turns, and one that raises leaves the file as it was. Identifiers, hashes and clock
readings are arguments.
-/
namespace OpenPine.Strategies
open Sqlite Transaction

inductive Column
  | enabled | archived | mode | status | name | symbol | timeframe | exchange | marketType | paramsJson | paramsHash
  | semanticProfile | mtfSeriesJson
deriving DecidableEq, Repr

namespace Column

def all : List Column :=
  [.enabled, .archived, .mode, .status, .name, .symbol, .timeframe, .exchange, .marketType, .paramsJson, .paramsHash,
    .semanticProfile, .mtfSeriesJson]

/-- The fields of a patch: all but the series, which have a method of their own. -/
def patched : List Column := all.filter (· ≠ .mtfSeriesJson)

def key : Column → String
  | .enabled => "enabled"
  | .archived => "archived"
  | .mode => "mode"
  | .status => "status"
  | .name => "name"
  | .symbol => "symbol"
  | .timeframe => "timeframe"
  | .exchange => "exchange"
  | .marketType => "market_type"
  | .paramsJson => "params_json"
  | .paramsHash => "params_hash"
  | .semanticProfile => "semantic_profile"
  | .mtfSeriesJson => "mtf_series_json"

def affinity : Column → Affinity
  | .enabled | .archived => .integer
  | _ => .text

def nullable : Column → Bool
  | .name | .exchange | .semanticProfile => true
  | _ => false

end Column

structure Row where
  strategyId : String
  cells : Column → Cell

def Row.enabled (row : Row) : Bool := (row.cells .enabled).truthy

def Row.archived (row : Row) : Bool := (row.cells .archived).truthy

structure Registry where
  rows : Table Row Row.strategyId
  circuitOpen : Bool
  circuitReason : Option String

inductive Failure
  | strategyNotFound (strategyId : String)
  | instanceNotFound (strategyId : String)
  | archivedActivation (text : String)
  | workerCircuitOpen (text : String)
  | unsupportedFields (fields : List String)
  | valueError (text : String)
  | unbindable (column : Column)
  | notNull (column : Column)
  | uniqueStrategyId | uniqueName
deriving DecidableEq, Repr

abbrev Changes := Column → Option Cell

def Changes.apply (changes : Changes) (row : Row) : Row :=
  { row with cells := fun column => (changes column).getD (row.cells column) }

theorem Changes.enabled_apply (changes : Changes) (row : Row) :
    (changes.apply row).enabled = ((changes .enabled).getD (row.cells .enabled)).truthy := rfl

theorem Changes.archived_apply (changes : Changes) (row : Row) :
    (changes.apply row).archived = ((changes .archived).getD (row.cells .archived)).truthy := rfl

namespace Registry

def empty : Registry := ⟨.empty,false,none⟩

theorem strategyId_apply (selected : Row → Bool) (changes : Changes) (row : Row) :
    (if selected row then changes.apply row else row).strategyId = row.strategyId := by
  split
  · rfl
  · rfl

def updateWhere (r : Registry) (selected : Row → Bool) (changes : Changes) : Registry :=
  { r with
    rows := r.rows.alter (fun row => if selected row then changes.apply row else row)
      (strategyId_apply selected changes) }

def updateStrategy (r : Registry) (strategyId : String) (changes : Changes) : Registry :=
  r.updateWhere (fun row => row.strategyId = strategyId) changes

/-- Another strategy has the name; NULL is not unique. -/
def nameTaken (r : Registry) (strategyId : String) (name : Cell) : Bool :=
  name ≠ .null ∧ r.rows.rows.any (fun row => row.strategyId ≠ strategyId ∧ row.cells .name = name)

def insert (r : Registry) (row : Row) : Except Failure (Row × Registry) :=
  match r.rows.insert? row with
  | none => throw .uniqueStrategyId
  | some rows => if r.nameTaken row.strategyId (row.cells .name) then throw .uniqueName
    else return (row, { r with rows })

def requireInstance (r : Registry) (strategyId : String) : Except Failure Row :=
  match r.rows.find? strategyId with
  | none => throw (.instanceNotFound strategyId)
  | some row => return row

structure ExecutionState where
  (enabled archived : Bool)
  (status mode : String)

/-- `_strategy_execution_state_locked` -/
def executionState (r : Registry) (e : Conversions) (strategyId : String) : Except Failure ExecutionState :=
  match r.rows.find? strategyId with
  | none => throw (.strategyNotFound strategyId)
  | some row => return {
      enabled := row.enabled
      archived := row.archived
      status := e.str (row.cells .status)
      mode := e.str (row.cells .mode) }

end Registry

/-! ### New strategies -/

structure Definition where
  (symbol timeframe exchange marketType mode paramsJson paramsHash : String)

def Definition.row (d : Definition) (digest : String) (now : ℕ) (name : String) (semanticProfile : Option String) :
    Row where
  strategyId := "strat_" ++ digest ++ "_" ++ toString now
  cells
    | .enabled => .flag false
    | .archived => .flag false
    | .mode => .text d.mode
    | .status => .text "pending"
    | .name => .text name
    | .symbol => .text d.symbol
    | .timeframe => .text d.timeframe
    | .exchange => .text d.exchange
    | .marketType => .text d.marketType
    | .paramsJson => .text d.paramsJson
    | .paramsHash => .text d.paramsHash
    | .semanticProfile => (semanticProfile.map Cell.text).getD .null
    | .mtfSeriesJson => .text "[]"

namespace Registry

def registerStrategy (r : Registry) (digest : String) (now : ℕ) (d : Definition) (name : Option String) :
    Except Failure (Row × Registry) :=
  let hash := String.ofList (d.paramsHash.toList.take 6)
  r.insert (d.row digest now ((Python.nonEmpty name).getD (d.symbol ++ "_" ++ d.timeframe ++ "_" ++ hash)) none)

def createStrategy (r : Registry) (digest : String) (now : ℕ) (d : Definition) (name : String)
    (semanticProfile : Option String) :
    Except Failure (Row × Registry) := r.insert (d.row digest now name semanticProfile)

/-! ### Activation -/

variable (e : Conversions)

def setEnabled (r : Registry) (strategyId : String) (enabled : Bool) : Except Failure (Unit × Registry) := do
  let current ← r.executionState e strategyId
  if enabled ∧ current.archived then throw (.archivedActivation "Archived strategy cannot be enabled")
  else if enabled ∧ r.circuitOpen then throw (.workerCircuitOpen "Background worker circuit is open")
  else return ((), r.updateStrategy strategyId fun
    | .enabled => some (.flag enabled)
    | _ => none)

def activateStrategy (r : Registry) (strategyId : String) (status mode : Option String) :
    Except Failure (Unit × Registry) := do
  let current ← r.executionState e strategyId
  if current.archived then throw (.archivedActivation "Archived strategy cannot be activated")
  else if r.circuitOpen then throw (.workerCircuitOpen "Background worker circuit is open")
  else return ((), r.updateStrategy strategyId fun
    | .enabled => some (.flag true)
    | .status => some (.text ((Python.nonEmpty status).getD current.status))
    | .mode => some (.text ((Python.nonEmpty mode).getD current.mode))
    | _ => none)

def transitionStrategy (r : Registry) (strategyId : String) (enabled : Option Bool) (status mode : Option String) :
    Except Failure (Unit × Registry) := do
  let current ← r.executionState e strategyId
  let nextEnabled := enabled.getD current.enabled
  if nextEnabled ∧ current.archived then throw (.archivedActivation "Archived strategy cannot be enabled")
  else if nextEnabled ∧ r.circuitOpen then throw (.workerCircuitOpen "Background worker circuit is open")
  else return ((), r.updateStrategy strategyId fun
    | .enabled => some (.flag nextEnabled)
    | .status => some (.text (status.getD current.status))
    | .mode => some (.text (mode.getD current.mode))
    | _ => none)

def pausedOnArchive (status : String) : Bool := status = "running" ∨ status = "pending"

def setArchived (r : Registry) (strategyId : String) (archived : Bool) : Except Failure (Unit × Registry) := do
  let current ← r.executionState e strategyId
  let enabled := if archived then false else current.enabled
  let status := if archived ∧ pausedOnArchive current.status then "paused" else current.status
  return ((), r.updateStrategy strategyId fun
    | .archived => some (.flag archived)
    | .enabled => some (.flag enabled)
    | .status => some (.text status)
    | _ => none)

/-! ### Patches -/

def archivingValues (values : Column → Option Value) (status : String) : Column → Option Value
  | .enabled => some (.bool false)
  | .status =>
    let paused := match values .status with
      | some (.str s) => pausedOnArchive s
      | some _ => false
      | none => pausedOnArchive status
    if paused then some (.str "paused") else values .status
  | column => values column

def storedChanges (values : Column → Option Value) : Except Failure Changes :=
  let cells : Changes := fun column => ((values column).bind Value.bind).map (e.stored column.affinity)
  match Column.all.find? fun column => (values column).isSome ∧ ((values column).bind Value.bind).isNone with
  | some column => throw (.unbindable column)
  | none =>
    match Column.all.find? fun column => cells column = some .null ∧ column.nullable = false with
    | some column => throw (.notNull column)
    | none => return cells

def patchStrategyAtomic (r : Registry) (strategyId : String) (updates : Python.Dict String Value) :
    Except Failure (Unit × Registry) :=
  let unknown := (updates.rows.map Prod.fst).filter fun field => field ∉ Column.patched.map Column.key
  let values : Column → Option Value := fun column => updates.get? column.key
  if unknown ≠ [] then throw (.unsupportedFields (unknown.insertionSort (· ≤ ·)))
  else if updates.rows = [] then return ((), r)
  else do
    let current ← r.executionState e strategyId
    let nextArchived := ((values .archived).map Value.truthy).getD current.archived
    let requestedEnabled := ((values .enabled).map Value.truthy).getD false
    let archiving := ((values .archived).map Value.truthy).getD false
    let nextEnabled := if archiving then false else ((values .enabled).map Value.truthy).getD current.enabled
    if requestedEnabled ∧ nextArchived then throw (.archivedActivation "Archived strategy cannot be enabled")
    else if nextEnabled ∧ r.circuitOpen then throw (.workerCircuitOpen "Background worker circuit is open")
    else
      let changes ← storedChanges e (if archiving then archivingValues values current.status else values)
      if r.nameTaken strategyId ((changes .name).getD .null) then throw .uniqueName
      else return ((), r.updateStrategy strategyId changes)

/-! ### The circuit -/

def pauseChanges : Changes
  | .enabled => some (.flag false)
  | .status => some (.text "paused")
  | _ => none

/-- `WHERE enabled = 1` -/
def storedEnabled (row : Row) : Bool := (row.cells .enabled).isOne

def pauseAllEnabled (r : Registry) : ℕ × Registry :=
  (r.rows.rows.countP storedEnabled, r.updateWhere storedEnabled pauseChanges)

def tripWorkerCircuit (r : Registry) (reason : String) : ℕ × Registry :=
  pauseAllEnabled { r with circuitOpen := true, circuitReason := some reason }

def resetWorkerCircuit (r : Registry) : Registry := { r with circuitOpen := false, circuitReason := none }

/-! ### Single fields and deletion -/

def setTo (column : Column) (text : String) : Changes := fun other => if other = column then some (.text text) else none

/-- One field of a strategy that has to be there. What raises after the look for it gives its text. -/
def updateField (r : Registry) (strategyId : String) (column : Column) (value : Except String String) :
    Except Failure (Unit × Registry) := do
  let _ ← r.requireInstance strategyId
  match value with
  | .error text => throw (.valueError text)
  | .ok text => return ((), r.updateStrategy strategyId (setTo column text))

def updateStatus (r : Registry) (strategyId status : String) := r.updateField strategyId .status (.ok status)

def updateMode (r : Registry) (strategyId mode : String) := r.updateField strategyId .mode (.ok mode)

def setSemanticProfile (r : Registry) (strategyId semanticProfile : String) :=
  r.updateField strategyId .semanticProfile (.ok semanticProfile)

/-- The payload is what `mtf_requests_json` makes of the series. -/
def setMtfSeries (r : Registry) (strategyId : String) (payload : Except String String) :=
  r.updateField strategyId .mtfSeriesJson payload

def deleteStrategy (r : Registry) (strategyId : String) : Except Failure (Unit × Registry) := do
  let _ ← r.requireInstance strategyId
  return ((), { r with rows := r.rows.erase strategyId })

end Registry

/-! ### Interleavings -/

inductive Op
  | registerStrategy (digest : String) (now : ℕ) (d : Definition) (name : Option String)
  | createStrategy (digest : String) (now : ℕ) (d : Definition) (name : String) (semanticProfile : Option String)
  | setEnabled (strategyId : String) (enabled : Bool)
  | activateStrategy (strategyId : String) (status mode : Option String)
  | transitionStrategy (strategyId : String) (enabled : Option Bool) (status mode : Option String)
  | patchStrategyAtomic (strategyId : String) (updates : Python.Dict String Value)
  | setArchived (strategyId : String) (archived : Bool)
  | pauseAllEnabled
  | updateStatus (strategyId status : String)
  | updateMode (strategyId mode : String)
  | setSemanticProfile (strategyId semanticProfile : String)
  | setMtfSeries (strategyId : String) (payload : Except String String)
  | deleteStrategy (strategyId : String)
  | tripWorkerCircuit (reason : String)
  | resetWorkerCircuit

def step (e : Conversions) (r : Registry) : Op → Registry
  | .registerStrategy digest now d name => settle r (r.registerStrategy digest now d name)
  | .createStrategy digest now d name semanticProfile => settle r (r.createStrategy digest now d name semanticProfile)
  | .setEnabled strategyId enabled => settle r (r.setEnabled e strategyId enabled)
  | .activateStrategy strategyId status mode => settle r (r.activateStrategy e strategyId status mode)
  | .transitionStrategy strategyId enabled status mode =>
    settle r (r.transitionStrategy e strategyId enabled status mode)
  | .patchStrategyAtomic strategyId updates => settle r (r.patchStrategyAtomic e strategyId updates)
  | .setArchived strategyId archived => settle r (r.setArchived e strategyId archived)
  | .pauseAllEnabled => r.pauseAllEnabled.2
  | .updateStatus strategyId status => settle r (r.updateStatus strategyId status)
  | .updateMode strategyId mode => settle r (r.updateMode strategyId mode)
  | .setSemanticProfile strategyId semanticProfile => settle r (r.setSemanticProfile strategyId semanticProfile)
  | .setMtfSeries strategyId payload => settle r (r.setMtfSeries strategyId payload)
  | .deleteStrategy strategyId => settle r (r.deleteStrategy strategyId)
  | .tripWorkerCircuit reason => (r.tripWorkerCircuit reason).2
  | .resetWorkerCircuit => r.resetWorkerCircuit

/-! ### A sample -/

def digits : Conversions where
  numeric s :=
    if s ≠ "" ∧ s.toList.all Char.isDigit then
      some (.finite (s.toList.foldl (fun n c => 10 * n + (c.toNat - 48)) 0 : ℕ))
    else none
  print _ := ""
  str
    | .text s => s
    | _ => ""
  numeric_empty := rfl
  str_text _ := rfl

def Definition.sample : Definition := ⟨"BTCUSDT","1m","binance","spot","paper","\x7b\x7d","44136fa355b3"⟩

end OpenPine.Strategies
