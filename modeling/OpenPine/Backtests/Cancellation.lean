import OpenPine.Backtests.Ownership
import OpenPine.Backtests.ResultStore

/-! # A backtest task, its worker and the requests to cancel it

One run of `openpine/gateway/routes/backtest.py`: the task `_run_backtest_background`, the
executor thread inside `_execute_backtest_process` and any number of `run_action` requests.
Every operation on the tables, every look at the cancel requests and every write of the status
is a step of its own, and the parties take their steps in any order. A run has one
worker and one admission lease. Progress messages raise nothing and are left out.
-/
namespace OpenPine.Backtests.Cancellation

inductive ExecutionResult
  | returned | cancelled | failed
deriving DecidableEq, Repr

/-- Where `_execute_backtest_process` stands. -/
inductive Execution
  | idle | admission | start | setup | isolate | register | abandon | unmark | unmarkRegistered
  | compute
  | cleanup (result : ExecutionResult)
  | close (result : ExecutionResult)
  | ended (result : ExecutionResult)
deriving DecidableEq, Repr

def Execution.startsUp : Execution → Bool
  | .start | .setup | .isolate | .register | .abandon | .unmark | .unmarkRegistered => true
  | _ => false

/-- The calls of `cancel_if_requested`, and the clause that catches `_BacktestCancelled` and
goes through the same steps. -/
inductive CancelSite
  | strategyLoad | artifactLoad | marketDataLoad | backtestSetup | compute | publication | caught
deriving DecidableEq, Repr

/-- Where `_run_backtest_background` stands. -/
inductive Point
  | loadStrategy | loadArtifact | loadBars | fingerprint | configure | execute
  | cancelRequested (site : CancelSite)
  | outcome (site : CancelSite)
  | sealTerminal (site : CancelSite)
  | outcomeAgain (site : CancelSite)
  | markCancelled (site : CancelSite)
  | sealSuccess | successOutcome | saveResult | markRejected | failureOutcome | sealFailure
  | markFailed | discard | release | finished
deriving DecidableEq, Repr

/-- What follows if no cancel is requested. The clause does not ask. -/
def CancelSite.next : CancelSite → Point
  | .strategyLoad => .loadArtifact
  | .artifactLoad => .loadBars
  | .marketDataLoad => .fingerprint
  | .backtestSetup => .configure
  | .compute => .sealSuccess
  | .publication => .failureOutcome
  | .caught => .outcome .caught

/-- What follows an exception. One that is raised in an `except` clause leaves the task. -/
def CancelSite.raise : CancelSite → Point
  | .caught => .release
  | _ => .failureOutcome

def live : Status → Bool
  | .queued | .running => true
  | _ => false

def terminal : Status → Bool
  | .done | .failed | .cancelled => true
  | _ => false

/-- Where a `run_action` request stands, with the status it has read. -/
inductive Handler
  | absent
  | request (seen : Status)
  | scan (seen : Status) (found : Bool)
  | clean (seen : Status) (workers : List Unit) (proven : Bool)
  | mark | discard | returned
deriving DecidableEq

structure World where
  tables : Ownership Unit Unit
  /-- `worker.cancel_requested` -/
  signalled : Bool
  status : Status
  released : Bool
  execution : Execution
  task : Point
  reservation : Option Outcome
  handlers : ℕ → Handler

inductive TaskEvent
  | proceeds
  /-- The step ends with an exception that it handles itself by failing the run. -/
  | rejects | fails | interrupted
deriving DecidableEq, Repr

inductive ExecutionEvent
  | proceeds | fails
  | finishes (result : ExecutionResult)
deriving DecidableEq, Repr

inductive Event
  | task (event : TaskEvent)
  | execution (event : ExecutionEvent)
  | cancel (i : ℕ)
  | handler (i : ℕ) (ok : Bool)
deriving DecidableEq, Repr

namespace World

/-- The task is about to start on a run that `create_run` has made. -/
def start : World := ⟨.empty,false,.running,false,.idle,.loadStrategy,none,fun _ => .absent⟩

def goto (w : World) (point : Point) : World := { w with task := point }

def put (w : World) (i : ℕ) (handler : Handler) : World := { w with handlers := Function.update w.handlers i handler }

def unregister (w : World) : World :=
  { w with tables := (w.tables.unregisterBacktestWorker ()).2
           released := w.released || (w.tables.unregisterBacktestWorker ()).1.isSome }

def load (w : World) (next : Point) : TaskEvent → World
  | .proceeds => w.goto next
  | .rejects => w.goto .markRejected
  | _ => w.goto .failureOutcome

def advance (w : World) (event : TaskEvent) : World :=
  match w.task with
  | .loadStrategy => w.load (.cancelRequested .strategyLoad) event
  | .loadArtifact => w.load (.cancelRequested .artifactLoad) event
  | .loadBars => w.load (.cancelRequested .marketDataLoad) event
  | .fingerprint => w.goto (if event = .proceeds then .cancelRequested .backtestSetup else .failureOutcome)
  | .configure => w.goto (if event = .proceeds then .execute else .failureOutcome)
  | .execute =>
    match w.execution with
    | .ended .returned => w.goto (.cancelRequested .compute)
    | .ended .cancelled => w.goto (.outcome .caught)
    | .ended .failed => w.goto .failureOutcome
    | _ => w
  | .cancelRequested site => w.goto (if w.tables.cancelRequested then .outcome site else site.next)
  | .outcome site => w.goto (if w.tables.outcome.isSome then .release else .sealTerminal site)
  | .sealTerminal site =>
    let ((_, isSealed), tables) := w.tables.sealBacktestTerminalIfQuiescent
    if isSealed then { w with tables := tables, reservation := some .cancelled, task := .markCancelled site }
    else w.goto (.outcomeAgain site)
  | .outcomeAgain site => w.goto (if w.tables.outcome.isSome then .release else site.raise)
  | .markCancelled site =>
    if event = .proceeds then { w with status := .cancelled, task := .discard } else w.goto site.raise
  | .sealSuccess =>
    let ((_, isSealed), tables) := w.tables.sealBacktestSuccessIfQuiescent
    if isSealed then { w with tables := tables, reservation := some .success, task := .saveResult }
    else w.goto .successOutcome
  | .successOutcome => w.goto (if w.tables.outcome.isSome then .release else .cancelRequested .publication)
  | .saveResult => if event = .proceeds then { w with status := .done, task := .discard } else w.goto .failureOutcome
  | .markRejected => if event = .proceeds then { w with status := .failed, task := .release }
    else w.goto .failureOutcome
  | .failureOutcome => w.goto (if w.tables.outcome.isSome && w.reservation.isNone then .release else .sealFailure)
  | .sealFailure =>
    let (isSealed, tables) := w.tables.sealBacktestFailure w.reservation
    if isSealed then { w with tables := tables, reservation := some .failed, task := .markFailed } else w.goto .release
  | .markFailed => { w with status := if event = .proceeds then .failed else w.status, task := .discard }
  | .discard => { w with tables := { w.tables with cancelRequested := false }, task := .release }
  | .release =>
    match w.tables.retainBacktestAdmissionLease () with
    | some (true, tables) => { w with tables := tables, task := .finished }
    | some (false, _) => { w with released := true, task := .finished }
    | none => w.goto .finished
  | .finished => w

/-- A task that is cancelled goes on with its final block. -/
def background (w : World) : TaskEvent → World
  | .interrupted => if w.task = .finished then w else w.goto .release
  | event => w.advance event

/-- A step of `_execute_backtest_process`, which a thread starts while the task waits for it. -/
def execute (w : World) (event : ExecutionEvent) : World :=
  match w.execution, event with
  | .idle, .proceeds => if w.task = .execute then { w with execution := .admission } else w
  | .admission, .proceeds =>
    let (admitted, tables) := w.tables.admitBacktestWorkerStart ()
    { w with tables := tables, execution := if admitted then .start else .ended .cancelled }
  | .admission, .fails => { w with execution := .ended .failed }
  | .start, .proceeds => { w with execution := .setup }
  | .setup, .proceeds => { w with execution := .isolate }
  | .isolate, .proceeds => { w with execution := .register }
  | .register, .proceeds =>
    match w.tables.registerBacktestWorker () with
    | some tables => { w with tables := tables, execution := .unmarkRegistered }
    | none => { w with execution := .abandon }
  | .start, .fails | .setup, .fails | .isolate, .fails | .register, .fails => { w with execution := .abandon }
  | .abandon, .proceeds => { w.unregister with execution := .unmark }
  | .abandon, .fails => { w with tables := w.tables.retainBacktestWorkerForRetry (), execution := .unmark }
  | .unmark, _ => { w with tables := w.tables.setBacktestWorkerStarting false, execution := .ended .failed }
  | .unmarkRegistered, _ => { w with tables := w.tables.setBacktestWorkerStarting false, execution := .compute }
  | .compute, .finishes result =>
    if result = .cancelled && !w.tables.cancelRequested && !w.signalled then w
    else { w with execution := .cleanup result }
  | .cleanup result, .proceeds => { w.unregister with execution := .close result }
  | .cleanup _, .fails => { w with execution := .close .failed }
  | .close result, .proceeds => { w with execution := .ended result }
  | .close _, .fails => { w with execution := .ended .failed }
  | _, _ => w

/-- A step of a `run_action` request. A step that is not `ok` meets the deadline, a worker that
does not stop or an error of the database. -/
def handle (w : World) (i : ℕ) (ok : Bool) : World :=
  match w.handlers i with
  | .absent | .returned => w
  | .request seen =>
    let (accepted, tables) := w.tables.requestBacktestCancel
    { w with tables := tables }.put i (if accepted then .scan seen false else .returned)
  | .scan seen found =>
    let ((workers, isSealed), tables) := w.tables.sealBacktestTerminalIfQuiescent
    if isSealed then { w with tables := tables }.put i
      (if !live seen then .discard else if found then .mark else .returned)
    else if workers.isEmpty then (if ok then w else w.put i .returned)
    else w.put i (.clean seen workers true)
  | .clean seen [] proven => w.put i (if proven then .scan seen true else .returned)
  | .clean seen (_ :: workers) proven =>
    if ok then { w.unregister with signalled := true }.put i (.clean seen workers proven)
    else { w with signalled := true }.put i (.clean seen workers false)
  | .mark => if ok then { w with status := .cancelled }.put i .discard else w.put i .returned
  | .discard => { w with tables := { w.tables with cancelRequested := false } }.put i .returned

def step (w : World) : Event → World
  | .task event => w.background event
  | .execution event => w.execute event
  | .cancel i => if w.handlers i = .absent then w.put i (.request w.status) else w
  | .handler i ok => w.handle i ok

end World
end OpenPine.Backtests.Cancellation
