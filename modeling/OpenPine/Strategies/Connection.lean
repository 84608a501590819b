import OpenPine.Foundation.Connection
import OpenPine.Strategies.Registry

/-! # The registry on its connection

`SQLiteStrategyRegistry` has one connection for all of its operations. The operations of
`Registry` say what they read and write; here they are the statements that the methods
execute, with the transactions that these open. What a method reads and writes within its transaction is one
statement here. A new strategy, a single field, a pause and a deletion are written without `BEGIN` and without a
handler; the other writes begin a transaction themselves and roll it back when anything raises.
-/
namespace OpenPine.Strategies
open Hoare Sqlite Connection

inductive Raised
  | failure (why : Failure)
  | nestedTransaction
  | outside (text : String)
deriving DecidableEq, Repr

structure Faults where
  begin : Option (Fault Raised) := none
  statement : Option (Fault Raised) := none
  directory : Option Raised := none
  last : Option (Fault Raised) := none
  commit : Option (Fault Raised) := none

inductive Answer
  | done
  | strategy (row : Row)
  | strategies (rows : List Row)
  | count (n : ℕ)
  | circuit (isOpen : Bool) (reason : Option String)

inductive Request
  | call (op : Op) (faults : Faults)
  | unencodable (why : Raised)
  | getStrategy (strategyId : String)
  | listStrategies (status : Option String)
  | workerCircuitState

abbrev Method := Program Raised (Connection Registry) Answer

def statements {α : Type} (answer : α → Answer) (f : Registry → Except Failure (α × Registry)) (r : Registry) :
    Except Raised (Answer × Registry) :=
  match f r with
  | .error why => .error (.failure why)
  | .ok (a, r') => .ok (answer a, r')

def written (f : Registry → Registry) (r : Registry) : Except Raised (Answer × Registry) := .ok (.done, f r)

def counted (f : Registry → ℕ × Registry) (r : Registry) : Except Raised (Answer × Registry) :=
  .ok (.count (f r).1, (f r).2)

def found (strategyId : String) (r : Registry) : Except Raised Row :=
  match r.requireInstance strategyId with
  | .error why => .error (.failure why)
  | .ok row => .ok row

/-- `with self._lock: try: BEGIN IMMEDIATE … commit; except: rollback` -/
def atomically (faults : Faults) (f : Registry → Except Raised (Answer × Registry)) : Method :=
  transaction .nestedTransaction faults.begin faults.statement faults.commit f

def unguarded (faults : Faults) (f : Registry → Except Raised (Answer × Registry)) : Method :=
  executeThenCommit faults.statement faults.commit f

/-- `delete_strategy`: the rows of other tables go first, then the directory. Only a
directory that cannot be removed is followed by a rollback. -/
def deleteStrategy (faults : Faults) (strategyId : String) : Method := do
  let _ ← select (found strategyId)
  let _ ← execute faults.statement (written id)
  match faults.directory with
  | some why =>
    rollback
    throw why
  | none => executeThenCommit faults.last faults.commit (statements (fun _ => .done) (·.deleteStrategy strategyId))

/-- `patch_strategy_atomic` looks at the fields before it begins. -/
def patchStrategyAtomic (e : Conversions) (faults : Faults) (strategyId : String)
    (updates : Python.Dict String Value) : Method :=
  let unknown := (updates.rows.map Prod.fst).filter fun field => field ∉ Column.patched.map Column.key
  if unknown ≠ [] then throw (.failure (.unsupportedFields (unknown.insertionSort (· ≤ ·))))
  else if updates.rows = [] then return .done
  else atomically faults (statements (fun _ => .done) (·.patchStrategyAtomic e strategyId updates))

/-- The methods that write a single field: `get_strategy`, the value, `UPDATE`. -/
def updateField (faults : Faults) (strategyId : String) (column : Column) (value : Except String String) : Method := do
  let _ ← select (found strategyId)
  match value with
  | .error text => throw (.failure (.valueError text))
  | .ok _ => unguarded faults (statements (fun _ => .done) (·.updateField strategyId column value))

def performOp (e : Conversions) (faults : Faults) : Op → Method
  | .registerStrategy digest now d name =>
    unguarded faults (statements .strategy (·.registerStrategy digest now d name))
  | .createStrategy digest now d name semanticProfile =>
    unguarded faults (statements .strategy (·.createStrategy digest now d name semanticProfile))
  | .setEnabled strategyId enabled =>
    atomically faults (statements (fun _ => .done) (·.setEnabled e strategyId enabled))
  | .activateStrategy strategyId status mode =>
    atomically faults (statements (fun _ => .done) (·.activateStrategy e strategyId status mode))
  | .transitionStrategy strategyId enabled status mode =>
    atomically faults (statements (fun _ => .done) (·.transitionStrategy e strategyId enabled status mode))
  | .patchStrategyAtomic strategyId updates => patchStrategyAtomic e faults strategyId updates
  | .setArchived strategyId archived =>
    atomically faults (statements (fun _ => .done) (·.setArchived e strategyId archived))
  | .pauseAllEnabled => unguarded faults (counted (·.pauseAllEnabled))
  | .updateStatus strategyId status => updateField faults strategyId .status (.ok status)
  | .updateMode strategyId mode => updateField faults strategyId .mode (.ok mode)
  | .setSemanticProfile strategyId semanticProfile => updateField faults strategyId .semanticProfile
    (.ok semanticProfile)
  | .setMtfSeries strategyId payload => updateField faults strategyId .mtfSeriesJson payload
  | .deleteStrategy strategyId => deleteStrategy faults strategyId
  | .tripWorkerCircuit reason => atomically faults (counted (·.tripWorkerCircuit reason))
  | .resetWorkerCircuit => unguarded faults (written (·.resetWorkerCircuit))

/-- Calls that read load the rows again, and see what a transaction has made of them.
Parameters that `json.dumps` refuses are refused before the connection is used. -/
def perform (e : Conversions) : Request → Method
  | .call op faults => performOp e faults op
  | .unencodable why => throw why
  | .getStrategy strategyId => do
    let row ← select (found strategyId)
    return .strategy row
  | .listStrategies none => select fun r => .ok (.strategies r.rows.rows)
  | .listStrategies (some status) => select fun r =>
    .ok (.strategies (r.rows.rows.filter fun row => row.cells .status = .text status))
  | .workerCircuitState => select fun r => .ok (.circuit r.circuitOpen r.circuitReason)

def outcomes (e : Conversions) : Connection Registry → List Request → List (Except Raised Answer)
  | _, [] => []
  | c, request :: requests => ((perform e request).run.run c).1 :: outcomes e ((perform e request).run.run c).2 requests

/-! ### Without a transaction that was left open -/

section Idle
variable {c : Connection Registry} {α : Type} {answer : α → Answer} {f : Registry → Except Failure (α × Registry)}

end Idle

end OpenPine.Strategies
