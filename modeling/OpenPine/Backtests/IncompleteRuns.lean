import OpenPine.Backtests.ResultStore

/-! # Recovering incomplete runs

`recover_incomplete_runs` and `_rollback_incomplete_artifact_publication` of
`openpine/storage/backtest_storage.py`, one step at a time as for `save_result`.
-/
namespace OpenPine.Backtests
variable {C R T : Type}

def Db.interrupted (d : Db R T) : List (String × String) :=
  (d.runs.rows.filter fun r => r.status.interrupted).map fun r => (r.strategyId, r.runId)

def Db.failInterrupted (now : ℤ) (d : Db R T) : Db R T :=
  { d with
    runs := d.runs.alter (fun r => if r.status.interrupted then
      { r with
        status := .failed, finishedAt := some now,
        errorMessage := some "Gateway restarted before the backtest completed"
        updatedAt := now } else r)
      (fun r => by by_cases h : r.status.interrupted <;> simp [h]) }

/-- The run whose publication is rolled back, its backup, and the runs after it. -/
structure Rollback where
  key : String × String
  backup : Option ℕ
  rest : List (String × String)

inductive RecoveryPoint
  | idle
  | next (rest : List (String × String))
  | tmpLook (c : Rollback)
  | removeTmp (c : Rollback) (r : Removal)
  | runLook (c : Rollback)
  | removeRun (c : Rollback) (r : Removal)
  | rename (c : Rollback) (backup : ℕ)
  | update | commit | finished
  | raised

def Rollback.after (c : Rollback) : RecoveryPoint := (c.backup.map (.rename c)).getD (.next c.rest)

def RecoveryPoint.ended : RecoveryPoint → Bool
  | .finished | .raised => true
  | _ => false

/-- The glob has no more than one match, and the names are names of directories. -/
def Folder.recoverable (f : Folder C) (key : String × String) : Bool :=
  validatePathComponent key.1 && validatePathComponent key.2 && decide (f.backups.length ≤ 1)

structure Recovering (C R T : Type) where
  store : Store C R T
  point : RecoveryPoint

namespace Recovering
variable (now : ℤ) (s : Recovering C R T)

def goto (point : RecoveryPoint) : Recovering C R T := { s with point := point }

def removing (key : String × String) (r : Removal) (again : Removal → RecoveryPoint) (after : RecoveryPoint) :
    Option (Recovering C R T) :=
  (r.step (s.store.folders key)).map fun p => ⟨s.store.put key p.1,(p.2.map again).getD after⟩

def attempt : Option (Recovering C R T) :=
  match s.point with
  | .idle => some (s.goto (.next s.store.stored.interrupted))
  | .next [] => some (s.goto .update)
  | .next (key :: rest) =>
    let f := s.store.folders key
    if f.recoverable key then some (s.goto (.tmpLook ⟨key,f.backups.head?.map Prod.fst,rest⟩)) else none
  | .tmpLook c => some (s.goto (if (s.store.folders c.key).tmp.isSome then .removeTmp c (.enter .tmp) else .runLook c))
  | .removeTmp c r => s.removing c.key r (.removeTmp c) (.runLook c)
  | .runLook c => some (s.goto (if (s.store.folders c.key).run.isSome then .removeRun c (.enter .run) else c.after))
  | .removeRun c r => s.removing c.key r (.removeRun c) c.after
  | .rename c backup =>
    ((s.store.folders c.key).rename (.backup backup) .run).map fun f => ⟨s.store.put c.key f,.next c.rest⟩
  | .update =>
    some (if s.store.locked .recovery then s
      else ⟨{ s.store with writer := some (.recovery, s.store.view.failInterrupted now) },.commit⟩)
  | .commit => some ⟨s.store.commit .recovery,.finished⟩
  | .finished | .raised => some s

def step (failing : Bool) : Recovering C R T :=
  if failing && !s.point.ended then s.goto .raised else (s.attempt now).getD (s.goto .raised)

end Recovering
end OpenPine.Backtests
