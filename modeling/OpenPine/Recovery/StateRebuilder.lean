import OpenPine.State.StateStore

/-! # Rebuilding the state after a repair

`StateRebuilder` of `openpine/recovery/rebuild.py`. The orchestrator and the engine
are parameters, and both may be missing. What the engine does to the state in place
is its result, and the bars it was called with are part of what `rebuild` returns.
-/
namespace OpenPine.Recovery
open State

structure StateRebuilder (σ ρ : Type) where
  time : ρ → ℤ
  /-- `data_orchestrator.get_bars(instrument_key, timeframe, start_time)` -/
  getBars : Option (Serialized → Serialized → ℤ → Except StateError (List ρ))
  /-- `backtest_engine.process_next_bar(state, bar)` -/
  processNextBar : Option (StrategyState σ → ρ → Except StateError (StrategyState σ))

structure Rebuilt (σ ρ : Type) where
  state : StrategyState σ
  processed : List ρ

variable {σ ρ β : Type}

namespace StateRebuilder

def replayBar (r : StateRebuilder σ ρ) (done : Rebuilt σ ρ) (bar : ρ) : Except StateError (Rebuilt σ ρ) :=
  match r.processNextBar with
  | none => .ok { done with state := { done.state with barTime := r.time bar } }
  | some step => (step done.state bar).map fun state => ⟨{ state with barTime := r.time bar },done.processed ++ [bar]⟩

def replay (r : StateRebuilder σ ρ) (state : StrategyState σ) (fromBarTime : ℤ) : Except StateError (Rebuilt σ ρ) :=
  match r.getBars with
  | none => .ok ⟨state,[]⟩
  | some getBars => do
    let bars ← getBars state.instrumentKey state.timeframe fromBarTime
    bars.foldlM r.replayBar ⟨state,[]⟩

def startState (c : Codec σ β) (x : Session β) (strategyId : String) (fromBarTime : ℤ) :
    Except StateError (StrategyState σ) × Session β :=
  let (snapshots, x) := x.listSnapshots strategyId
  if snapshots.any (fun m => m.status = .active && m.barTime < fromBarTime) then
    match x.loadSnapshot c strategyId with
    | (.error e, x) => (.error e, x)
    | (.ok none, x) => (.error (.stateInconsistency ("No loadable snapshot found for " ++ strategyId)), x)
    | (.ok (some state), x) => (.ok state, x)
  else
    (.error (.stateInconsistency
      ("No compatible snapshot before " ++ toString fromBarTime ++ " for " ++ strategyId)), x)

def saveRebuilt (c : Codec σ β) (x : Session β) (strategyId : String) (rebuilt : Rebuilt σ ρ) (reason : String)
    (now : ℤ) : Except StateError (Rebuilt σ ρ) × Session β :=
  match x.saveSnapshot c rebuilt.state reason false none now with
  | (.error e, x) => (.error e, x)
  | (.ok none, x) => (.error (.stateInconsistency ("Rebuild failed: could not save snapshot for " ++ strategyId)), x)
  | (.ok (some _), x) => (.ok rebuilt, x)

def rebuild (r : StateRebuilder σ ρ) (c : Codec σ β) (x : Session β) (strategyId : String) (fromBarTime : ℤ)
    (reason : String) (now : ℤ) : Except StateError (Rebuilt σ ρ) × Session β :=
  match startState c x strategyId fromBarTime with
  | (.error e, x) => (.error e, x)
  | (.ok state, x) =>
    match r.replay state fromBarTime with
    | .error e => (.error e, x)
    | .ok rebuilt => saveRebuilt c x strategyId rebuilt reason now

def invalidate (x : Session β) (strategyId : String) (since : Option ℤ) : Session β :=
  let (_, x) := x.listSnapshots strategyId
  { x with store := { x.store with snapshots := x.store.snapshots.markInvalid strategyId since } }

end StateRebuilder
end OpenPine.Recovery
