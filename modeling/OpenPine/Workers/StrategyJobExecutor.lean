import OpenPine.State.StateStore
import OpenPine.Workers.StrategyLedger

/-! # The executor of strategy bar jobs

`StrategyJobExecutor` of `openpine/workers/strategy_job_executor.py`. A delivery is a job
together with the answers that the rest of the system gives while it is processed: the
registry, the stored bars, the runtime, the clock, and the exceptions raised by the
snapshot save and by the writes of the ledger.
-/
namespace OpenPine.Workers
open Python State
variable {ρ β : Type}

/-! ### Jobs -/

inductive JobType
  | backtest | optimizer | backfill | liveBarProcess | paperBarProcess | observeBarProcess | report
deriving DecidableEq, Repr

def JobType.value : JobType → String
  | .backtest => "backtest"
  | .optimizer => "optimizer"
  | .backfill => "backfill"
  | .liveBarProcess => "live_bar_process"
  | .paperBarProcess => "paper_bar_process"
  | .observeBarProcess => "observe_bar_process"
  | .report => "report"

structure JobInput where
  strategyId : Option String := none
  instrumentKey : Option String := none
  timeframe : Option String := none
  barTime : Option ℤ := none
  barCloseTime : Option ℤ := none

structure Job where
  id : String
  jobType : JobType
  strategyId : Option String := none
  input : JobInput

structure JobPayload where
  (strategyId instrumentKey timeframe : String)
  barTime : ℤ
  barCloseTime : Option ℤ

def JobInput.missing (input : JobInput) : List String :=
  (if input.barTime = none then ["bar_time"] else []) ++
    (if input.instrumentKey = none then ["instrument_key"] else []) ++
    (if input.strategyId = none then ["strategy_id"] else []) ++ (if input.timeframe = none then ["timeframe"] else [])

def jobPayload (job : Job) : Except String JobPayload :=
  match job.input.strategyId, job.input.instrumentKey, job.input.timeframe, job.input.barTime with
  | some strategyId, some instrumentKey, some timeframe, some barTime =>
    .ok ⟨strategyId,instrumentKey,timeframe,barTime,job.input.barCloseTime⟩
  | _, _, _, _ =>
    .error ("strategy job is missing input fields: [" ++
      ", ".intercalate (job.input.missing.map fun field => "'" ++ field ++ "'") ++ "]")

def validateJob (job : Job) : Except String Unit :=
  match job.jobType with
  | .paperBarProcess | .liveBarProcess | .observeBarProcess => (jobPayload job).map fun _ => ()
  | jobType => .error ("unsupported strategy job type: " ++ jobType.value)

/-! ### What the executor works with -/

structure StrategyInstance where
  (strategyId artifactId paramsHash exchange marketType symbol priceType timeframe : String)

structure Timeframe where
  canonical : String
  durationMs : Option ℤ

structure InstrumentKey where
  (exchange market symbol : String)

structure Bar where
  (time timeClose : ℤ)
  timeframe : String

structure BarQuery where
  instrument : InstrumentKey
  timeframe : Timeframe
  (startMs endMs : ℤ)
  source : String := "storage"
  gapPolicy : String := "fail"

structure Position where
  size : ℚ := 0
  direction : String := ""
  avgPrice : Option ℚ := none
  realizedProfit : Option ℚ := none
  openProfit : Option ℚ := none

structure OpenTrade where
  qty : ℚ := 0
  entryPrice : ℚ := 0
  direction : String := "flat"

structure ClosedTrade where
  id : Option String := none
  entryId : Option String := none
  exitId : Option String := none
  direction : String := ""
  entryTime : Option ℤ := none
  exitTime : Option ℤ := none
  entryPrice : ℚ := 0
  exitPrice : Option ℚ := none
  qty : ℚ := 0
  profit : Option ℚ := none
  commissionEntry : Option ℚ := none
  commissionExit : Option ℚ := none
  barsHeld : Option ℤ := none
deriving DecidableEq

structure RawResult (ρ : Type) where
  resumeState : Option ρ := none
  openTrades : List OpenTrade := []
  closedTrades : List ClosedTrade := []
  netProfit : ℚ := 0

/-- A result without `raw_result` is its own raw result. -/
structure RuntimeResult (ρ : Type) where
  status : String := "completed"
  resumeState : Option ρ := none
  rawResult : RawResult ρ

structure TradeKey where
  strategyId : String
  source : LedgerSource
  (id entryId exitId : Option String)
  (entryTime exitTime : Option ℤ)
  qty : ℚ
deriving DecidableEq

/-- The outside functions that depend on their arguments only: the parser of timeframes,
the first 24 digits of the hash of a key in its JSON form, and what is read off a resume
state of the runtime. -/
structure Outside (ρ : Type) where
  parseTimeframe : String → Except String Timeframe
  digest : TradeKey → String
  truthy : ρ → Bool
  brokerPosition : ρ → Option Position

inductive Reading
  | stateSaved | snapshotSaved | positionCreated | positionUpserted
  | tradeCreated (k : ℕ) | tradeRecorded (k : ℕ)

/-- An exception of the snapshot save: before the index is touched, or when the index
file is written and the copy of the store has already been changed. -/
inductive SaveFault
  | beforeIndex (error : StateError)
  | atIndex (error : StateError)

structure Delivery (ρ : Type) where
  job : Job
  getStrategy : String → Except String StrategyInstance
  getBars : BarQuery → Except String (List Bar)
  runStrategy : StrategyInstance → Bar → Option ρ → Except String (RuntimeResult ρ)
  saveFault : Option SaveFault := none
  upsertFault : Option String := none
  /-- The exception of the insert that follows this many inserts. -/
  tradeFault : ℕ → Option String := fun _ => none
  clock : Reading → ℤ := fun _ => 0
  positionId : String := ""

inductive StrategyJobStatus
  | done | failed | skipped
deriving DecidableEq, Repr

structure StrategyJobExecutionResult where
  (jobId strategyId : String)
  status : StrategyJobStatus
  barTime : Option ℤ := none
  snapshotId : Option SnapshotId := none
  tradesRecorded : ℕ := 0
  skippedReason : Option String := none
  error : Option String := none
deriving DecidableEq

/-! ### Loading the bar -/

def instrumentFromPayload (strategy : StrategyInstance) (payload : JobPayload) : InstrumentKey :=
  match payload.instrumentKey.splitOn ":" with
  | exchange :: market :: symbol :: _ => ⟨exchange,market,symbol⟩
  | _ => ⟨lower strategy.exchange,lower strategy.marketType,upper strategy.symbol⟩

def loadTargetBar (o : Outside ρ) (d : Delivery ρ) (strategy : StrategyInstance) (payload : JobPayload) :
    Except String Bar := do
  let instrument := instrumentFromPayload strategy payload
  let timeframe ← o.parseTimeframe payload.timeframe
  let barCloseTime := (payload.barCloseTime.filter (· ≠ 0)).getD (payload.barTime + timeframe.durationMs.getD 0)
  let bars ← d.getBars
    { instrument := instrument, timeframe := timeframe, startMs := payload.barTime, endMs := barCloseTime }
  match bars with
  | [bar] => .ok bar
  | _ => .error ("expected one stored " ++ timeframe.canonical ++ " bar for " ++ instrument.exchange ++ "/" ++
      instrument.market ++ "/" ++ instrument.symbol ++ " at " ++ toString payload.barTime ++ ", got " ++
      toString bars.length)

/-- `process` up to the loading of the bar. -/
def Delivery.prepare (o : Outside ρ) (d : Delivery ρ) : Except String (StrategyInstance × Bar) := do
  validateJob d.job
  let payload ← jobPayload d.job
  let strategy ← d.getStrategy payload.strategyId
  let bar ← loadTargetBar o d strategy payload
  return (strategy, bar)

/-! ### Snapshots of the runtime -/

def StrategyInstance.instrumentKey (strategy : StrategyInstance) : Serialized :=
  [("exchange", lower strategy.exchange), ("market", lower strategy.marketType), ("symbol", upper strategy.symbol),
    ("price_type", lower strategy.priceType)]

def Bar.timeframeKey (bar : Bar) : Serialized := [("canonical", bar.timeframe)]

def stateFilter (strategy : StrategyInstance) (bar : Bar) : SnapshotFilter :=
  { artifactId := some strategy.artifactId, paramsHash := some strategy.paramsHash
    instrumentKey := some strategy.instrumentKey, timeframe := some bar.timeframeKey }

/-- The runtime state of the newest compatible snapshot before the bar. -/
def loadRuntimeSnapshot (c : Codec (Option ρ) β) (x : Session β) (strategy : StrategyInstance) (bar : Bar) :
    Except StateError (Option ρ) × Session β :=
  let (state, x) := x.loadLatestCompatible c strategy.strategyId
    { stateFilter strategy bar with atOrBeforeBarTime := some (bar.time - 1) }
  (state.map fun state => state.bind StrategyState.stateData, x)

namespace Delivery
variable (d : Delivery ρ)

def runtimeState (strategy : StrategyInstance) (bar : Bar) (resume : Option ρ) : StrategyState (Option ρ) :=
  { strategyId := strategy.strategyId, artifactId := strategy.artifactId, paramsHash := strategy.paramsHash
    instrumentKey := strategy.instrumentKey, timeframe := bar.timeframeKey, stateData := resume
    barTime := bar.time, savedAt := d.clock .stateSaved }

def saveRuntimeSnapshot (c : Codec (Option ρ) β) (x : Session β) (strategy : StrategyInstance) (bar : Bar)
    (resume : Option ρ) : Except StateError (Option SnapshotMetadata) × Session β :=
  let state := d.runtimeState strategy bar resume
  match d.saveFault with
  | none => x.saveSnapshot c state d.job.jobType.value false none (d.clock .snapshotSaved)
  | some (.beforeIndex e) => (.error e, x)
  | some (.atIndex e) =>
    match x.startSave c state d.job.jobType.value false none (d.clock .snapshotSaved) with
    | .skipped store => (.ok none, { x with store := store })
    | .failed e => (.error e, x)
    | .ready snap disk => (.error e, (Session.reload { x with disk := disk }).register snap)

end Delivery

/-! ### The ledger -/

namespace RuntimeResult
variable (r : RuntimeResult ρ)

def resumeOut : Option ρ := r.resumeState.or r.rawResult.resumeState

def completed : Bool := lower r.status = "ok" ∨ lower r.status = "completed"

end RuntimeResult

def resultPosition (raw : RawResult ρ) : Option Position :=
  match raw.openTrades with
  | [] => none
  | first :: rest =>
    let trades := first :: rest
    let qty := (trades.map OpenTrade.qty).foldl (· + ·) 0
    let direction := if first.direction = "" then "flat" else first.direction
    let cost := (trades.map fun trade => trade.entryPrice * trade.qty).foldl (· + ·) 0
    some
      { size := if direction = "long" then qty else if direction = "short" then -qty else 0, direction := direction
        avgPrice := if qty = 0 then none else some (cost / qty), realizedProfit := some raw.netProfit }

def absolute (x : ℚ) : ℚ := if x < 0 then -x else x

def positionSide (position : Position) : PositionSide :=
  if 0 < position.size ∨ lower position.direction = "long" then .long
  else if position.size < 0 ∨ lower position.direction = "short" then .short
  else .flat

/-- The position that the ledger is told, from the resume state or from the open trades. -/
def reportedPosition (o : Outside ρ) (r : RuntimeResult ρ) : Option Position :=
  (((r.resumeState.filter o.truthy).or r.rawResult.resumeState).bind o.brokerPosition).or (resultPosition r.rawResult)

def ledgerTradeId (o : Outside ρ) (strategyId : String) (source : LedgerSource) (trade : ClosedTrade) : String :=
  "strade_" ++ o.digest
    { strategyId := strategyId, source := source, id := trade.id, entryId := trade.entryId, exitId := trade.exitId
      entryTime := trade.entryTime, exitTime := trade.exitTime, qty := trade.qty }

def InWindow (bar : Bar) (trade : ClosedTrade) : Prop := ∃ t ∈ trade.exitTime, bar.time ≤ t ∧ t ≤ bar.timeClose

instance (bar : Bar) (trade : ClosedTrade) : Decidable (InWindow bar trade) := by
  unfold InWindow
  infer_instance

def JobType.ledgerSource : JobType → LedgerSource
  | .liveBarProcess => .live
  | _ => .paper

def strategyPosition (strategy : StrategyInstance) (timeframe : Timeframe) (source : LedgerSource) (bar : Bar)
    (position : Position) (positionId : String) (createdAt : ℤ) : StrategyPosition :=
  { strategyId := strategy.strategyId, exchange := strategy.exchange, marketType := strategy.marketType
    symbol := strategy.symbol, timeframe := timeframe.canonical, source := source, side := positionSide position
    qty := absolute position.size, positionId := positionId, priceType := strategy.priceType
    avgPrice := position.avgPrice, realizedPnl := position.realizedProfit.getD 0
    unrealizedPnl := position.openProfit, lastBarTime := some bar.time, createdAt := createdAt, updatedAt := createdAt }

def strategyTrade (o : Outside ρ) (strategy : StrategyInstance) (timeframe : Timeframe) (source : LedgerSource)
    (trade : ClosedTrade) (createdAt : ℤ) : StrategyTrade :=
  { strategyId := strategy.strategyId, exchange := strategy.exchange, marketType := strategy.marketType
    symbol := strategy.symbol, timeframe := timeframe.canonical, source := source, status := .closed
    direction := trade.direction, entryTime := trade.entryTime.getD 0, entryPrice := trade.entryPrice
    qty := absolute trade.qty, tradeId := ledgerTradeId o strategy.strategyId source trade
    priceType := strategy.priceType, entryId := trade.entryId, exitId := trade.exitId, exitTime := trade.exitTime
    exitPrice := trade.exitPrice, grossPnl := trade.profit, netPnl := trade.profit
    fee := some (trade.commissionEntry.getD 0 + trade.commissionExit.getD 0), barsHeld := trade.barsHeld
    jobId := trade.id, createdAt := createdAt, updatedAt := createdAt }

namespace Delivery
variable (o : Outside ρ) (d : Delivery ρ)

def recordPosition (strategy : StrategyInstance) (bar : Bar) (r : RuntimeResult ρ) (l : StrategyLedger) :
    Except String StrategyLedger :=
  match reportedPosition o r with
  | none => .ok l
  | some position => do
    let timeframe ← o.parseTimeframe strategy.timeframe
    match d.upsertFault with
    | some e => .error e
    | none =>
      return l.upsertPosition (strategyPosition strategy timeframe d.job.jobType.ledgerSource bar position d.positionId
        (d.clock .positionCreated)) (d.clock .positionUpserted)

/-- One insert, which follows `recorded` others. -/
def recordTrade (strategy : StrategyInstance) (trade : ClosedTrade) (recorded : ℕ) (l : StrategyLedger) :
    Except String StrategyLedger := do
  let timeframe ← o.parseTimeframe strategy.timeframe
  match d.tradeFault recorded with
  | some e => .error e
  | none => l.recordTrade (strategyTrade o strategy timeframe d.job.jobType.ledgerSource trade
      (d.clock (.tradeCreated recorded))) (d.clock (.tradeRecorded recorded))

/-- The loop of `_record_closed_trades`; each insert is committed at once. -/
def recordClosedTrades (strategy : StrategyInstance) (bar : Bar) :
    List ClosedTrade → ℕ → StrategyLedger → Except String ℕ × StrategyLedger
  | [], recorded, l => (.ok recorded, l)
  | trade :: trades, recorded, l =>
    if InWindow bar trade then
      match d.recordTrade o strategy trade recorded l with
      | .error e => (.error e, l)
      | .ok l => recordClosedTrades strategy bar trades (recorded + 1) l
    else recordClosedTrades strategy bar trades recorded l

def recordLedger (strategy : StrategyInstance) (bar : Bar) (r : RuntimeResult ρ) :
    Option StrategyLedger → Except String ℕ × Option StrategyLedger
  | none => (.ok 0, none)
  | some l =>
    if d.job.jobType = .observeBarProcess then (.ok 0, some l)
    else
      match d.recordPosition o strategy bar r l with
      | .error e => (.error e, some l)
      | .ok l =>
        let (recorded, l) := d.recordClosedTrades o strategy bar r.rawResult.closedTrades 0 l
        (recorded, some l)

end Delivery

/-! ### Processing a job -/

structure StrategyJobExecutor (β : Type) where
  stateStore : Session β
  ledger : Option StrategyLedger

/-- The runtime was started with a resume state and completed with a result. -/
structure CompletedRun (ρ : Type) where
  resumeState : Option ρ
  result : RuntimeResult ρ

structure Processed (ρ β : Type) where
  executor : StrategyJobExecutor β
  result : StrategyJobExecutionResult
  bar : Option Bar := none
  run : Option (CompletedRun ρ) := none
  snapshot : Option SnapshotMetadata := none

namespace StrategyJobExecutor
variable (o : Outside ρ) (c : Codec (Option ρ) β) (x : StrategyJobExecutor β) (d : Delivery ρ)

def failed (e : String) : StrategyJobExecutionResult :=
  { jobId := d.job.id, strategyId := d.job.strategyId.getD "", status := .failed, error := some e }

/-- The end of `process`, when the snapshot has been saved. -/
def finish (strategy : StrategyInstance) (bar : Bar) (run : CompletedRun ρ) (snapshot : Option SnapshotMetadata) :
    Processed ρ β :=
  match d.recordLedger o strategy bar run.result x.ledger with
  | (.error e, ledger) =>
    { executor := { x with ledger := ledger }, result := failed d e, bar := some bar, run := some run
      snapshot := snapshot }
  | (.ok recorded, ledger) =>
    { executor := { x with ledger := ledger }, bar := some bar, run := some run, snapshot := snapshot
      result :=
        { jobId := d.job.id, strategyId := strategy.strategyId, status := .done, barTime := some bar.time
          snapshotId := snapshot.map SnapshotMetadata.snapshotId, tradesRecorded := recorded } }

/-- The part of `process` after the test whether the bar was already processed. -/
def runBar (strategy : StrategyInstance) (bar : Bar) : Processed ρ β :=
  match loadRuntimeSnapshot c x.stateStore strategy bar with
  | (.error e, stateStore) =>
    { executor := { x with stateStore := stateStore }, result := failed d e.message, bar := some bar }
  | (.ok resume, stateStore) =>
    match d.runStrategy strategy bar resume with
    | .error e => { executor := { x with stateStore := stateStore }, result := failed d e, bar := some bar }
    | .ok r =>
      if r.completed then
        match d.saveRuntimeSnapshot c stateStore strategy bar r.resumeOut with
        | (.error e, stateStore) =>
          { executor := { x with stateStore := stateStore }, result := failed d e.message, bar := some bar
            run := some ⟨resume,r⟩ }
        | (.ok snapshot, stateStore) => finish o { x with stateStore := stateStore } d strategy bar ⟨resume,r⟩ snapshot
      else
        { executor := { x with stateStore := stateStore }, bar := some bar
          result := failed d ("strategy runtime failed with status=" ++ lower r.status) }

def process : Processed ρ β :=
  match d.prepare o with
  | .error e => { executor := x, result := failed d e }
  | .ok (strategy, bar) =>
    match x.stateStore.latestSnapshotMetadata strategy.strategyId (stateFilter strategy bar) with
    | (none, stateStore) => runBar o c { x with stateStore := stateStore } d strategy bar
    | (some latest, stateStore) =>
      if bar.time ≤ latest.barTime then
        { executor := { x with stateStore := stateStore }, bar := some bar
          result :=
            { jobId := d.job.id, strategyId := strategy.strategyId, status := .skipped, barTime := some bar.time
              snapshotId := some latest.snapshotId, skippedReason := some "already_processed" } }
      else runBar o c { x with stateStore := stateStore } d strategy bar

end StrategyJobExecutor
end OpenPine.Workers
