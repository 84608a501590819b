import OpenPine.Foundation.KeyedTable
import Mathlib.Data.Int.Notation

/-! # Saving the result of a backtest

`save_result` of `openpine/storage/backtest_storage.py`, one file system step or database statement at a time, with the
handlers of `save_result`, of `_publish_result_artifacts` and of `SQLiteStorage.transaction`. Raising leads to the
handler that stands around a step; a write may leave a part of its file, and a rename may raise after it was made. A
directory is known by its inode, which stays the same when the directory is renamed and while a removal has it open.
-/
namespace OpenPine.Backtests

/-! ### Artifacts -/

inductive ArtifactType
  | equityCurve | trades | barOutputs | plotOutputs | reportJson | reportMd
deriving DecidableEq, Repr

namespace ArtifactType

def filename : ArtifactType → String
  | equityCurve => "equity_curve.parquet"
  | trades => "trades.parquet"
  | barOutputs => "bar_outputs.parquet"
  | plotOutputs => "plot_outputs.parquet"
  | reportJson => "report.json"
  | reportMd => "report.md"

/-- The types whose rows `_artifact_db_row` counts; they are also the files in the parquet format. -/
def tabular : ArtifactType → Bool
  | reportJson | reportMd => false
  | _ => true

def format (a : ArtifactType) : String := if a.tabular then "parquet" else "json"

end ArtifactType

/-- The second file that `_write_result_artifacts` writes for the plots. It has no row. -/
def plotCsv : String := "plot_outputs.csv"

abbrev Files (C : Type) := List (String × C)

structure Output (C : Type) where
  (equityCurve trades barOutputs : Option C)
  plotOutputs : Option (C × C)
  (reportJson reportMd : C)

namespace Output
variable {C : Type} (o : Output C)

/-- `artifact_paths`, in the order of its keys -/
def artifacts : List ArtifactType :=
  (if o.equityCurve.isSome then [.equityCurve] else []) ++ (if o.trades.isSome then [.trades] else []) ++
  (if o.barOutputs.isSome then [.barOutputs] else []) ++ (if o.plotOutputs.isSome then [.plotOutputs] else []) ++
  [.reportJson, .reportMd]

/-- The files in the order in which `_write_result_artifacts` writes them. -/
def files : Files C :=
  (o.equityCurve.map fun c => (ArtifactType.equityCurve.filename, c)).toList ++
  (o.trades.map fun c => (ArtifactType.trades.filename, c)).toList ++
  (o.barOutputs.map fun c => (ArtifactType.barOutputs.filename, c)).toList ++
  (o.plotOutputs.map fun p => [(ArtifactType.plotOutputs.filename, p.1), (plotCsv, p.2)]).getD [] ++
  [(ArtifactType.reportJson.filename, o.reportJson), (ArtifactType.reportMd.filename, o.reportMd)]

end Output

/-! ### The directories of a run -/

inductive Place
  | run | tmp
  | backup (name : ℕ)
deriving DecidableEq

/-- The directories that belong to one run, by name, and the files of every inode. -/
structure Folder (C : Type) where
  (run tmp : Option ℕ)
  backups : List (ℕ × ℕ)
  files : ℕ → Files C
  fresh : ℕ

namespace Folder
variable {C : Type}

/-- A run directory, or none, and nothing left over from earlier calls. -/
def initial (prior : Option (Files C)) : Folder C where
  run := prior.map fun _ => 0
  tmp := none
  backups := []
  files := fun i => if i = 0 then prior.getD [] else []
  fresh := 1

def entry (f : Folder C) : Place → Option ℕ
  | .run => f.run
  | .tmp => f.tmp
  | .backup name => (f.backups.find? (·.1 = name)).map Prod.snd

def unlink (f : Folder C) : Place → Folder C
  | .run => { f with run := none }
  | .tmp => { f with tmp := none }
  | .backup name => { f with backups := f.backups.filter (·.1 ≠ name) }

def link (f : Folder C) (inode : ℕ) : Place → Folder C
  | .run => { f with run := some inode }
  | .tmp => { f with tmp := some inode }
  | .backup name => { f with backups := f.backups ++ [(name, inode)] }

/-- `os.rename` of a directory; only an empty directory may stand at the target. -/
def rename (f : Folder C) (source target : Place) : Option (Folder C) :=
  match f.entry source with
  | none => none
  | some inode =>
    if (f.entry target).all fun j => (f.files j).isEmpty then some (((f.unlink target).unlink source).link inode target)
    else none

/-- `tmp_dir.mkdir(parents=True, exist_ok=True)` -/
def mkdir (f : Folder C) : Folder C :=
  match f.tmp with
  | some _ => f
  | none => { f with tmp := some f.fresh, fresh := f.fresh + 1 }

def store (f : Folder C) (inode : ℕ) (name : String) (content : C) : Folder C :=
  { f with files := Function.update f.files inode ((f.files inode).filter (·.1 ≠ name) ++ [(name, content)]) }

def write (f : Folder C) (place : Place) (name : String) (content : C) : Option (Folder C) :=
  (f.entry place).map fun inode => f.store inode name content

def read (f : Folder C) (place : Place) (name : String) : Option C :=
  (f.entry place).bind fun inode => ((f.files inode).find? (·.1 = name)).map Prod.snd

def content (f : Folder C) : Option (Files C) := f.run.map f.files

end Folder

inductive Removal
  | enter (place : Place)
  | children (place : Place) (inode : ℕ) (names : List String)
  | rmdir (place : Place)

/-- A step of `shutil.rmtree`; a file that has disappeared meanwhile is skipped. -/
def Removal.step {C : Type} (f : Folder C) : Removal → Option (Folder C × Option Removal)
  | .enter place => (f.entry place).map fun inode => (f, some (.children place inode ((f.files inode).map Prod.fst)))
  | .children place _ [] => some (f, some (.rmdir place))
  | .children place inode (name :: names) =>
    some ({ f with files := Function.update f.files inode ((f.files inode).filter (·.1 ≠ name)) },
      some (.children place inode names))
  | .rmdir place =>
    match f.entry place with
    | none => none
    | some inode => if (f.files inode).isEmpty then some (f.unlink place, none) else none

/-! ### The database -/

inductive Status
  | queued | running | cancelling | done | failed | cancelled
deriving DecidableEq, Repr

def Status.interrupted : Status → Bool
  | .queued | .running | .cancelling => true
  | _ => false

/-- A row of `backtest_runs`; the columns that only a result fills are one value. -/
structure Run (R : Type) where
  (runId strategyId : String)
  status : Status
  finishedAt : Option ℤ
  errorMessage : Option String
  updatedAt : ℤ
  result : Option R

structure TradeRow (T : Type) where
  runId : String
  index : ℕ
  strategyId : String
  trade : T
  createdAt : ℤ

def TradeRow.id {T : Type} (r : TradeRow T) : String × ℕ := (r.runId, r.index)

structure ArtifactRow where
  (runId strategyId : String)
  artifactType : ArtifactType
  (path format : String)
  rowCount : Option ℕ
  createdAt : ℤ

def ArtifactRow.id (r : ArtifactRow) : String × ArtifactType := (r.runId, r.artifactType)

structure Db (R T : Type) where
  runs : Table (Run R) Run.runId
  trades : Table (TradeRow T) TradeRow.id
  artifacts : Table ArtifactRow ArtifactRow.id

inductive Process
  | saver | recovery
deriving DecidableEq

/-- The data directory and the database, of which one process at a time may hold a changed copy. -/
structure Store (C R T : Type) where
  folders : String × String → Folder C
  stored : Db R T
  writer : Option (Process × Db R T)

namespace Store
variable {C R T : Type}

def put (s : Store C R T) (key : String × String) (f : Folder C) : Store C R T :=
  { s with folders := Function.update s.folders key f }

def locked (s : Store C R T) (p : Process) : Bool := s.writer.any fun w => w.1 ≠ p

/-- What the statements of a process see that does not have to wait. -/
def view (s : Store C R T) : Db R T := (s.writer.map Prod.snd).getD s.stored

def commit (s : Store C R T) (p : Process) : Store C R T :=
  match s.writer with
  | none => s
  | some (q, d) => if q = p then { s with stored := d, writer := none } else s

def rollback (s : Store C R T) (p : Process) : Store C R T := { s with writer := s.writer.filter fun w => w.1 ≠ p }

end Store

def validatePathComponent (component : String) : Bool :=
  component ≠ "" && !component.toList.contains '/' && component ≠ "." && component ≠ ".."

/-! ### The call -/

/-- The arguments of `save_result` with what it computes from them. `rowCount` is
`parquet.row_count`, and `backupName` is the UUID in the name of the backup directory. -/
structure SaveCall (C R T : Type) where
  runId : String
  output : Output C
  result : R
  trades : List T
  now : ℤ
  backupName : ℕ
  rowCount : C → Option ℕ

inductive Point (C T : Type)
  | select | mkdir | prepare
  | write (rest : Files C)
  | validate (rest : List ArtifactType)
  | check (rest : List ArtifactType)
  | look | backUp
  | publish (active : Bool)
  -- the handler of `_publish_result_artifacts`
  | activeLook | publicationLook
  | unpublish (r : Removal)
  | reinstate
  -- the transaction
  | update
  | insertTrade (rest : List (T × ℕ))
  | insertArtifact (rest : List ArtifactType)
  | commit | rollback
  -- the handler of `save_result`
  | tmpLook
  | removeTmp (r : Removal)
  | backupLook | runLook
  | removeRun (r : Removal)
  | restore | publishedLook
  | removePublished (r : Removal)
  -- after the commit
  | staleLook
  | removeStale (r : Removal)
  | returned
  | raised

/-- The step that runs next, with the variables `strategy_id`, `backup_dir` and `published`. -/
structure Saver (C T : Type) where
  point : Point C T
  strategyId : String
  backup : Option ℕ
  published : Bool

def Saver.start {C T : Type} : Saver C T := ⟨.select,"",none,false⟩

def Saver.goto {C T : Type} (v : Saver C T) (point : Point C T) : Saver C T := { v with point := point }

def Saver.raise {C T : Type} (v : Saver C T) : Saver C T :=
  v.goto <| match v.point with
    | .select | .mkdir => .raised
    | .prepare | .write _ | .validate _ | .check _ | .look | .backUp => .tmpLook
    | .publish active => if active then .activeLook else .tmpLook
    | .activeLook | .publicationLook | .unpublish _ | .reinstate => .tmpLook
    | .update | .insertTrade _ | .insertArtifact _ | .commit => .rollback
    | .rollback => .tmpLook
    | .removeStale _ | .returned => .returned
    | _ => .raised

def Point.cleanUp {C T : Type} : Point C T → Bool
  | .activeLook | .publicationLook | .unpublish _ | .reinstate | .rollback | .tmpLook | .removeTmp _
  | .backupLook | .runLook | .removeRun _ | .restore | .publishedLook | .removePublished _ | .staleLook
  | .removeStale _ => true
  | _ => false

def Point.ended {C T : Type} : Point C T → Bool
  | .returned | .raised => true
  | _ => false

/-- What a step that raises leaves behind: nothing, a part of the file that it was writing, or
the whole of a rename that is reported as failed after it was made. -/
inductive Remains (C : Type)
  | nothing
  | part (content : C)
  | renamed

structure Saving (C R T : Type) where
  store : Store C R T
  saver : Saver C T

section Call
variable {C R T : Type} (call : SaveCall C R T)

def SaveCall.countRows (f : Folder C) (place : Place) (a : ArtifactType) : Option (Option ℕ) :=
  if a.tabular then
    match f.read place a.filename with
    | none => some none
    | some content => (call.rowCount content).map some
  else some none

def SaveCall.updateRunResultRow (d : Db R T) : Db R T :=
  { d with
    runs := d.runs.alter (fun r => if r.runId = call.runId then
      { r with status := .done, finishedAt := some call.now, updatedAt := call.now, result := some call.result } else r)
      (fun r => by by_cases h : r.runId = call.runId <;> simp [h]) }

/-- A row of `_insert_trade_db_rows` -/
def SaveCall.insertTradeRow (strategyId : String) (t : T × ℕ) (d : Db R T) : Option (Db R T) :=
  (d.trades.insert? ⟨call.runId,t.2,strategyId,t.1,call.now⟩).map fun trades => { d with trades := trades }

/-- A row of `_insert_artifact_db_rows` -/
def SaveCall.insertArtifactRow (strategyId : String) (a : ArtifactType) (count : Option ℕ) (d : Db R T) :
    Option (Db R T) :=
  (d.artifacts.insert? ⟨call.runId,strategyId,a,a.filename,a.format,count,call.now⟩).map fun artifacts =>
    { d with artifacts := artifacts }

namespace Saving
variable (s : Saving C R T)

def key : String × String := (s.saver.strategyId, call.runId)

def folder : Folder C := s.store.folders (s.key call)

def goto (point : Point C T) : Saving C R T := { s with saver := s.saver.goto point }

def gotoWith (f : Folder C) (point : Point C T) : Saving C R T := ⟨s.store.put (s.key call) f,s.saver.goto point⟩

def removing (r : Removal) (again : Removal → Point C T) (after : Point C T) : Option (Saving C R T) :=
  (r.step (s.folder call)).map fun p => s.gotoWith call p.1 ((p.2.map again).getD after)

def statement (f : Db R T → Option (Db R T)) (after : Point C T) : Option (Saving C R T) :=
  if s.store.locked .saver then some s
  else (f s.store.view).map fun d => ⟨{ s.store with writer := some (.saver, d) },s.saver.goto after⟩

/-- The step that runs next; `none` if it raises. -/
def attempt : Option (Saving C R T) :=
  match s.saver.point with
  | .select =>
    let strategyId := ((s.store.stored.runs.find? call.runId).map Run.strategyId).getD ""
    if validatePathComponent strategyId && validatePathComponent call.runId then
      some ⟨s.store,{ s.saver with strategyId := strategyId, point := .mkdir }⟩
    else none
  | .mkdir => some (s.gotoWith call (s.folder call).mkdir .prepare)
  | .prepare => some (s.goto (.write call.output.files))
  | .write [] => some (s.goto (.validate call.output.artifacts))
  | .write ((name, content) :: rest) => ((s.folder call).write .tmp name content).map fun f =>
    s.gotoWith call f (.write rest)
  | .validate [] => some (s.goto (.check call.output.artifacts))
  | .validate (a :: rest) => (call.countRows (s.folder call) .tmp a).map fun _ => s.goto (.validate rest)
  | .check [] => some (s.goto .look)
  | .check (a :: rest) => if ((s.folder call).read .tmp a.filename).isSome then some (s.goto (.check rest)) else none
  | .look => some (s.goto (if (s.folder call).run.isSome then .backUp else .publish false))
  | .backUp => ((s.folder call).rename .run (.backup call.backupName)).map fun f => s.gotoWith call f (.publish true)
  | .publish active => ((s.folder call).rename .tmp .run).map fun f =>
      ⟨s.store.put (s.key call) f,⟨.update,s.saver.strategyId,if active then some call.backupName else none,true⟩⟩
  | .activeLook =>
    some (s.goto (if ((s.folder call).entry (.backup call.backupName)).isSome then .publicationLook else .tmpLook))
  | .publicationLook => some (s.goto (if (s.folder call).run.isSome then .unpublish (.enter .run) else .reinstate))
  | .unpublish r => s.removing call r .unpublish .reinstate
  | .reinstate => ((s.folder call).rename (.backup call.backupName) .run).map fun f => s.gotoWith call f .tmpLook
  | .update => s.statement (fun d => some (call.updateRunResultRow d)) (.insertTrade call.trades.zipIdx)
  | .insertTrade [] => some (s.goto (.insertArtifact call.output.artifacts))
  | .insertTrade (t :: rest) => s.statement (call.insertTradeRow s.saver.strategyId t) (.insertTrade rest)
  | .insertArtifact [] => some (s.goto .commit)
  | .insertArtifact (a :: rest) => (call.countRows (s.folder call) .run a).bind fun count =>
      s.statement (call.insertArtifactRow s.saver.strategyId a count) (.insertArtifact rest)
  | .commit => some ⟨s.store.commit .saver,s.saver.goto .staleLook⟩
  | .rollback => some ⟨s.store.rollback .saver,s.saver.goto .tmpLook⟩
  | .tmpLook => some (s.goto (if (s.folder call).tmp.isSome then .removeTmp (.enter .tmp) else .backupLook))
  | .removeTmp r => s.removing call r .removeTmp .backupLook
  | .backupLook =>
    some (s.goto (if (s.saver.backup.bind fun b => (s.folder call).entry (.backup b)).isSome then .runLook
      else .publishedLook))
  | .runLook => some (s.goto (if (s.folder call).run.isSome then .removeRun (.enter .run) else .restore))
  | .removeRun r => s.removing call r .removeRun .restore
  | .restore => s.saver.backup.bind fun b => ((s.folder call).rename (.backup b) .run).map fun f =>
    s.gotoWith call f .raised
  | .publishedLook =>
    some (s.goto (if s.saver.published && (s.folder call).run.isSome then .removePublished (.enter .run) else .raised))
  | .removePublished r => s.removing call r .removePublished .raised
  | .staleLook =>
    some (s.goto (match s.saver.backup with
      | none => .returned
      | some b => if ((s.folder call).entry (.backup b)).isSome then .removeStale (.enter (.backup b)) else .returned))
  | .removeStale r => s.removing call r .removeStale .returned
  | .returned | .raised => some s

def spoil (left : Remains C) : Store C R T :=
  match s.saver.point, left with
  | .write ((name, _) :: _), .part content =>
    (((s.folder call).write .tmp name content).map fun f => s.store.put (s.key call) f).getD s.store
  | .backUp, .renamed | .publish _, .renamed | .reinstate, .renamed | .restore, .renamed =>
    ((s.attempt call).map Saving.store).getD s.store
  | _, _ => s.store

end Saving

inductive Event (C : Type)
  | proceeds
  | fails (left : Remains C)

def Event.failing {C : Type} : Event C → Bool
  | .proceeds => false
  | .fails _ => true

def Saving.step (s : Saving C R T) : Event C → Saving C R T
  | .proceeds => (s.attempt call).getD ⟨s.store,s.saver.raise⟩
  | .fails left => ⟨s.spoil call left,s.saver.raise⟩

end Call
end OpenPine.Backtests
