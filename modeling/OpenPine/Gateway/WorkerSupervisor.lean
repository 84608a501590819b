import Mathlib.Algebra.Order.Ring.Unbundled.Rat
import OpenPine.Foundation.Hoare

/-! # The supervisor of the background worker

`WorkerSupervisor` of `openpine/gateway/worker_supervisor.py`: one call of `start` and
the monitor task that it creates. The process objects, the process factory, the
fail-safe, the clocks and the event loop answer as an arbitrary sequence says, one
answer for each question. At every `await` the running fail-safe call may end, the
supervisor may be stopped, and others may take snapshots of it.
-/
namespace OpenPine.Gateway
open Hoare

/-! ### Configuration and state -/

/-- The limits and times that decide what the supervisor does; the other fields of the
configuration are timeouts that are only passed on. -/
structure SupervisorConfig where
  backoffInitialSeconds : ℚ := 1
  backoffMaxSeconds : ℚ := 30
  maxRestarts : ℕ := 3
  restartWindowSeconds : ℚ := 300
  heartbeatStaleSeconds : ℚ := 15
  startupReadinessTimeoutSeconds : ℚ := 30
  failSafeMaxAttempts : ℕ := 3
  backoff_nonneg : 0 ≤ backoffInitialSeconds ∧ 0 ≤ backoffMaxSeconds := by decide
  window_pos : 0 < restartWindowSeconds := by decide
  stale_pos : 0 < heartbeatStaleSeconds := by decide
  startup_pos : 0 < startupReadinessTimeoutSeconds := by decide
  attempts_pos : 0 < failSafeMaxAttempts := by decide

inductive Incident
  | heartbeatStale | startupReadinessTimeout
deriving DecidableEq, Repr

inductive Reason
  | processFactoryFailed | processStartFailed | processCallbackFailed | processMissing
  | processStatusFailed | processTerminateFailed | processKillFailed | processJoinFailed
  | readyStatusFailed | heartbeatStatusFailed
  | workerStarting | ready | recovered | workerRestarted | restartBudgetExhausted
  | incident (incident : Incident) | incidentRestarted (incident : Incident)
  | incidentFailSafeIncomplete (incident : Incident)
  | unhealthyProcessShutdownIncomplete | monitorFailed | monitorFailureShutdownIncomplete
deriving DecidableEq, Repr

/-- The text of the reason ends in `_restarted`. -/
def Reason.isRestarted : Reason → Bool
  | .workerRestarted | .incidentRestarted _ => true
  | _ => false

inductive FailSafeStatus
  | notRun | running | ok | failed
deriving DecidableEq, Repr

/-- Processes are numbered as the factory returns them; an event that is there is `true`. -/
structure Supervisor where
  process : Option ℕ := none
  readyEvent : Bool := false
  heartbeat : Bool := false
  processStartedMonotonic : Option ℚ := none
  startFailedProcess : Option ℕ := none
  startFailedLiveness : Option Bool := none
  stopping : Bool := false
  restartTimes : List ℚ := []
  restartCount : ℕ := 0
  degraded : Bool := false
  reason : Option Reason := none
  failSafeStatus : FailSafeStatus := .notRun
  failSafeAttempts : ℕ := 0
  failSafeError : Option String := none
  /-- The number of the fail-safe call whose task is not done. -/
  failSafeTask : Option ℕ := none
deriving DecidableEq

/-! ### The outside -/

/-- What the process factory does; `noLength` is a value that `len` does not accept. -/
inductive Created
  | raises | noLength | wrongLength
  | pair (process : ℕ)
  | quadruple (process : ℕ) (readyEvent heartbeat : Bool)

inductive Ending
  | ok | failed (error : String) | cancelled
deriving DecidableEq, Repr

def Ending.status : Ending → FailSafeStatus
  | .ok => .ok
  | .failed _ | .cancelled => .failed

def Ending.error : Ending → Option String
  | .ok => none
  | .failed error => some error
  | .cancelled => some "fail-safe task cancelled"

/-- The answers to one question, whichever it is; `none` is an answer that raises. -/
structure Answers where
  created : Created := .raises
  startRaises : Bool := false
  callbackRaises : Bool := false
  alive : Option Bool := some true
  terminateRaises : Bool := false
  killRaises : Bool := false
  joinRaises : Bool := false
  exitcodeRaises : Bool := false
  readySet : Option Bool := some true
  heartbeatValue : Option ℚ := some 0
  time : ℚ := 0
  monotonic : ℚ := 0
  /-- How the running fail-safe call ends during an `await`. -/
  ending : Option Ending := none
  stop : Bool := false
  /-- What snapshots that others take during an `await` report as failed. -/
  marks : List Reason := []

inductive Event
  | restart (stamp : ℚ)
  | start (process : ℕ) (started : Bool)
  | alive (process : ℕ) (answer : Option Bool)
  | failSafeStarted (call : ℕ)
  | failSafeEnded (call : ℕ) (ending : Ending)
deriving DecidableEq

/-- How the monitor ends other than by returning; `unfinished` is a run that goes on. -/
inductive Exit
  | cancelled | exception | unfinished
deriving DecidableEq, Repr

structure MonitorState extends Supervisor where
  tick : ℕ := 0
  calls : ℕ := 0
  trace : List Event := []
deriving DecidableEq

abbrev Monitor := Program Exit MonitorState

namespace WorkerSupervisor
variable (env : ℕ → Answers)

def ask : Monitor Answers := do
  let w ← get
  modify fun w => { w with tick := w.tick + 1 }
  return env w.tick

def emit (e : Event) : Monitor Unit := modify fun w => { w with trace := w.trace ++ [e] }

def markDegraded (reason : Reason) : Monitor Unit := modify fun w => { w with degraded := true, reason := some reason }

def setReason (degraded : Bool) (reason : Reason) : Monitor Unit :=
  modify fun w => { w with degraded := degraded, reason := some reason }

def setFailSafe (status : FailSafeStatus) (error : Option String) : Monitor Unit :=
  modify fun w => { w with failSafeStatus := status, failSafeError := error }

/-! ### Waiting -/

def finishFailSafeTask (call : ℕ) (ending : Ending) : Monitor Unit := do
  emit (.failSafeEnded call ending)
  setFailSafe ending.status ending.error
  modify fun w => { w with failSafeTask := none }

def settle (ending : Option Ending) : Monitor (Option Ending) := do
  match (← get).failSafeTask, ending with
  | some call, some ending =>
    finishFailSafeTask call ending
    return some ending
  | _, _ => return none

def mark : List Reason → Monitor Unit
  | [] => return ()
  | reason :: reasons => do
    markDegraded reason
    mark reasons

/-- The first lines of `stop`, as the monitor sees them. -/
def cancelMonitor : Monitor Unit := do
  modify fun w => { w with stopping := true }
  throw .cancelled

/-- An `await`, with the ending of the fail-safe call if it ends meanwhile. -/
def await : Monitor (Option Ending) := do
  let a ← ask env
  mark a.marks
  let ended ← settle a.ending
  when a.stop cancelMonitor
  return ended

def sleep : Monitor Unit := do
  let _ ← await env

/-! ### Processes -/

def safeIsAlive (process : ℕ) : Monitor (Option Bool) := do
  let a ← ask env
  emit (.alive process a.alive)
  when (a.alive = none) (markDegraded .processStatusFailed)
  return a.alive

def safeExitcode : Monitor Unit := do
  let a ← ask env
  when a.exitcodeRaises (markDegraded .processStatusFailed)

def join : Monitor Unit := do
  sleep env
  let a ← ask env
  when a.joinRaises (markDegraded .processJoinFailed)

def terminateUnhealthyProcess (process : ℕ) : Monitor Bool := do
  let a ← ask env
  when a.terminateRaises (markDegraded .processTerminateFailed)
  join env
  let liveness ← safeIsAlive env process
  when (liveness ≠ some false) do
    let a ← ask env
    when a.killRaises (markDegraded .processKillFailed)
    join env
  safeExitcode env
  let liveness ← safeIsAlive env process
  if liveness ≠ some false then
    setReason true .unhealthyProcessShutdownIncomplete
    return false
  return true

def startCandidate (process : ℕ) (readyEvent heartbeat : Bool) : Monitor Bool := do
  modify fun w => { w with process := some process, readyEvent := readyEvent, heartbeat := heartbeat }
  let a ← ask env
  emit (.start process !a.startRaises)
  if a.startRaises then
    modify fun w => { w with startFailedProcess := some process }
    let liveness ← safeIsAlive env process
    modify fun w => { w with startFailedLiveness := liveness }
    markDegraded .processStartFailed
    return false
  modify fun w => { w with processStartedMonotonic := some a.monotonic }
  setReason true .workerStarting
  when a.callbackRaises (markDegraded .processCallbackFailed)
  return true

def startProcess : Monitor Bool := do
  modify fun w => { w with startFailedProcess := none, startFailedLiveness := none }
  let a ← ask env
  match a.created with
  | .raises =>
    markDegraded .processFactoryFailed
    return false
  | .noLength => throw .exception
  | .wrongLength =>
    markDegraded .processFactoryFailed
    return false
  | .pair process => startCandidate env process false false
  | .quadruple process readyEvent heartbeat => startCandidate env process readyEvent heartbeat

/-! ### Health -/

def safeEventIsSet : Monitor Bool := do
  if (← get).readyEvent then
    match (← ask env).readySet with
    | none =>
      markDegraded .readyStatusFailed
      return false
    | some isSet => return isSet
  else return false

def heartbeatStale (config : SupervisorConfig) : Monitor Bool := do
  if (← get).heartbeat then
    let a ← ask env
    match a.heartbeatValue with
    | none =>
      markDegraded .heartbeatStatusFailed
      return true
    | some value => return value ≤ 0 ∨ config.heartbeatStaleSeconds < max 0 (a.time - value)
  else return true

/-- The entries `ready` and `heartbeat_stale` of the snapshot. -/
def snapshot (config : SupervisorConfig) : Monitor (Bool × Bool) := do
  let alive ← match (← get).process with
    | none => pure (some false)
    | some process => safeIsAlive env process
  let readySignal ← safeEventIsSet env
  let stale ← heartbeatStale env config
  return (alive = some true ∧ readySignal ∧ !stale, stale)

/-! ### The fail-safe -/

def timedOut : String := "fail-safe attempt timed out and is still running"

def createFailSafeTask (attempt : ℕ) : Monitor Unit := modify fun w =>
  { w with
    failSafeAttempts := attempt, failSafeStatus := .running, failSafeTask := some w.calls
    calls := w.calls + 1, trace := w.trace ++ [.failSafeStarted w.calls] }

def failSafeAttempts (config : SupervisorConfig) (attempt : ℕ) : ℕ → Monitor Unit
  | 0 => return ()
  | left + 1 => do
    createFailSafeTask attempt
    match ← await env with
    | none => setFailSafe .running (some timedOut)
    | some .ok => setFailSafe .ok none
    | some (.failed error) =>
      setFailSafe .failed (some error)
      when (attempt < config.failSafeMaxAttempts) (sleep env)
      failSafeAttempts config (attempt + 1) left
    | some .cancelled => throw .cancelled

def invokeFailSafeSafely (config : SupervisorConfig) : Monitor Unit := do
  if (← get).failSafeTask.isSome then
    when (← await env).isNone (setFailSafe .running (some timedOut))
  else failSafeAttempts env config 1 config.failSafeMaxAttempts

def ensureTerminalFailSafe (config : SupervisorConfig) : Monitor Unit := do
  when ((← get).failSafeStatus ≠ .ok) (invokeFailSafeSafely env config)

def waitForFailSafeBeforeRestart : Monitor Bool := do
  if (← get).failSafeTask.isSome then
    match ← await env with
    | none => throw .unfinished
    | some .ok => return (← get).failSafeStatus = .ok
    | some (.failed _) => return false
    | some .cancelled => throw .cancelled
  else return (← get).failSafeStatus = .ok

/-! ### Restarts -/

def containStartFailedProcess : Monitor Bool := do
  let w ← get
  match w.startFailedProcess with
  | none => return true
  | some process =>
    let contained ← terminateUnhealthyProcess env process
    when contained (modify fun w => { w with startFailedProcess := none, startFailedLiveness := none })
    return contained ∧ w.startFailedLiveness = some false

/-- A process that did not start is contained, and the supervision ends if that does not
allow another attempt. -/
def recoverFromFailedStart (config : SupervisorConfig) : Monitor Bool := do
  if (← get).startFailedProcess.isSome then
    if ← containStartFailedProcess env then return true
    ensureTerminalFailSafe env config
    return false
  return true

def restartReason : Option Incident → Reason
  | some incident => .incidentRestarted incident
  | none => .workerRestarted

def restartUntilStarted (config : SupervisorConfig) (incident : Option Incident) (failSafeOnExhaustion : Bool) :
    ℕ → Monitor Bool
  | 0 => throw .unfinished
  | fuel + 1 => do
    if (← get).stopping then return false
    let now := (← ask env).monotonic
    modify fun w => { w with
      restartTimes := w.restartTimes.filter fun stamp => now - config.restartWindowSeconds ≤ stamp }
    let stamps := (← get).restartTimes.length
    if config.maxRestarts ≤ stamps then
      setReason true .restartBudgetExhausted
      when failSafeOnExhaustion (invokeFailSafeSafely env config)
      return false
    when (min (config.backoffInitialSeconds * 2 ^ stamps) config.backoffMaxSeconds ≠ 0) (sleep env)
    if (← get).stopping then return false
    let stamp := (← ask env).monotonic
    modify fun w => { w with restartTimes := w.restartTimes ++ [stamp], restartCount := w.restartCount + 1 }
    emit (.restart stamp)
    if ← startProcess env then
      setReason true (restartReason incident)
      return true
    if ← recoverFromFailedStart env config then restartUntilStarted config incident failSafeOnExhaustion fuel
    else return false

/-! ### The monitor -/

/-- A process that is alive and not healthy is replaced, once the fail-safe is done. -/
def replaceProcess (config : SupervisorConfig) (fuel process : ℕ) (incident : Incident) : Monitor Bool := do
  setReason true (.incident incident)
  invokeFailSafeSafely env config
  if ← terminateUnhealthyProcess env process then
    if ← waitForFailSafeBeforeRestart env then restartUntilStarted env config (some incident) false fuel
    else
      markDegraded (.incidentFailSafeIncomplete incident)
      return false
  else return false

/-- The worker is ready, and the supervisor is no longer degraded if the fail-safe has
not been run or has succeeded. -/
def noteReady : Monitor Unit := do
  let w ← get
  when (w.failSafeStatus = .notRun ∨ w.failSafeStatus = .ok) do
    if w.reason = some .workerStarting then setReason false .ready
    else when (w.reason.any Reason.isRestarted) (setReason false .recovered)

def startupElapsed : Monitor ℚ := do
  match (← get).processStartedMonotonic with
  | none => return 0
  | some startedAt => return max 0 ((← ask env).monotonic - startedAt)

def checkAlive (config : SupervisorConfig) (fuel process : ℕ) : Monitor Bool := do
  let (ready, stale) ← snapshot env config
  if ready ∧ !stale then
    noteReady
    return true
  if ← safeEventIsSet env then replaceProcess env config fuel process .heartbeatStale
  else
    if config.startupReadinessTimeoutSeconds ≤ (← startupElapsed env) then
      replaceProcess env config fuel process .startupReadinessTimeout
    else return true

/-- The body of the loop after the sleep. It returns whether the loop goes on. -/
def check (config : SupervisorConfig) (fuel : ℕ) : Option ℕ → Monitor Bool
  | none => do
    markDegraded .processMissing
    restartUntilStarted env config none true fuel
  | some process => do
    match ← safeIsAlive env process with
    | none =>
      invokeFailSafeSafely env config
      let _ ← terminateUnhealthyProcess env process
      return false
    | some true => checkAlive env config fuel process
    | some false =>
      join env
      safeExitcode env
      restartUntilStarted env config none true fuel

def monitorFailed (config : SupervisorConfig) (process : Option ℕ) : Monitor Bool := do
  markDegraded .monitorFailed
  invokeFailSafeSafely env config
  match process with
  | none => return false
  | some process =>
    if ← terminateUnhealthyProcess env process then return false
    markDegraded .monitorFailureShutdownIncomplete
    return false

def monitorLoop (config : SupervisorConfig) : ℕ → Monitor Unit
  | 0 => throw .unfinished
  | fuel + 1 => do
    if (← get).stopping then return ()
    sleep env
    let process := (← get).process
    let proceed ← tryCatch (check env config fuel process) fun
      | .exception => monitorFailed env config process
      | e => throw e
    when proceed (monitorLoop config fuel)

def monitor (config : SupervisorConfig) (initialStartFailed : Bool) (fuel : ℕ) : Monitor Unit := do
  if initialStartFailed then
    if ← recoverFromFailedStart env config then
      if ← restartUntilStarted env config none true fuel then monitorLoop env config fuel
  else monitorLoop env config fuel

/-- A call of `start` and the monitor that it creates, which begins at a later turn of
the event loop. -/
def start (config : SupervisorConfig) (fuel : ℕ) : Monitor Unit := do
  modify fun w => { w with stopping := false }
  let started ← startProcess env
  sleep env
  monitor env config (!started) fuel

end WorkerSupervisor

/-- The run of the supervisor from a call of `start` in a given state. -/
def Supervisor.run (s : Supervisor) (env : ℕ → Answers) (config : SupervisorConfig) (fuel : ℕ) :
    Except Exit Unit × MonitorState := (WorkerSupervisor.start env config fuel).run.run { s with }

end OpenPine.Gateway
