import OpenPine.Backtests.ErrorAtomicity

/-! # Recovery while a result is saved

One process runs `save_result` while another one, which shares the database and the data
directory, runs `recover_incomplete_runs` any number of times. The steps of the two
alternate in any way.
-/
namespace OpenPine.Backtests
open List Option
variable {C R T : Type} {key : String × String}

structure Live (C R T : Type) where
  store : Store C R T
  saver : Saver C T
  recovery : RecoveryPoint

inductive LiveOp (C : Type)
  | save (e : Event C)
  | recover (now : ℤ) (failing : Bool)
  | again

def Live.step (call : SaveCall C R T) (w : Live C R T) : LiveOp C → Live C R T
  | .save e =>
    let s := Saving.step call ⟨w.store,w.saver⟩ e
    ⟨s.store,s.saver,w.recovery⟩
  | .recover now failing =>
    let s := Recovering.step now ⟨w.store,w.recovery⟩ failing
    ⟨s.store,w.saver,s.point⟩
  | .again => if w.recovery.ended then { w with recovery := .idle } else w

def Db.listed (d : Db R T) (runId : String) : List ArtifactRow := d.artifacts.rows.filter fun a => a.runId = runId

/-- The run directory has exactly the files of these rows. The table of the plots comes with
a second file. -/
def Folder.Agrees (f : Folder C) (rows : List ArtifactRow) : Prop :=
  ∃ fs, f.content = some fs ∧ (∀ a ∈ rows, a.path ∈ fs.map Prod.fst) ∧
    ∀ name ∈ fs.map Prod.fst, (∃ a ∈ rows, a.path = name) ∨ name = plotCsv ∧ ∃ a ∈ rows, a.artifactType = .plotOutputs

def Store.Sound (s : Store C R T) : Prop :=
  ∀ r ∈ s.stored.runs.rows, r.status = .done → (s.folders (r.strategyId, r.runId)).Agrees (s.stored.listed r.runId)

def Point.publishing : Point C T → Bool
  | .check _ | .look | .backUp | .publish _ | .update | .insertTrade _ | .insertArtifact _ | .commit => true
  | _ => false

/-- The recovery takes nothing away from the directory of the result once its artifacts are checked. -/
def Live.Spared (call : SaveCall C R T) (key : String × String) (w : Live C R T) : LiveOp C → Prop
  | .recover now failing =>
    w.saver.point.publishing = true ∨ w.store.stored.status call.runId = some .done →
      ((w.step call (.recover now failing)).store.folders key).files 1 = (w.store.folders key).files 1
  | _ => True

/-! ### What the recovery does to directories -/

/-- Files and empty directories may have gone, and a backup may be in place of the run directory. -/
structure Folder.Eroded (f f' : Folder C) : Prop where
  fresh : f'.fresh = f.fresh
  files : ∀ j, ∀ e ∈ f'.files j, e ∈ f.files j
  tmp : f'.tmp = f.tmp ∨ f'.tmp = none ∧ ∀ i, f.tmp = some i → f.files i = []
  run : f'.run = f.run ∨ (∀ i, f.run = some i → f.files i = []) ∧ ∀ i, f'.run = some i → ∃ p ∈ f.backups, p.2 = i
  backups : ∀ p ∈ f'.backups, p ∈ f.backups

namespace Folder
variable {f f' : Folder C}

theorem Eroded.refl (f : Folder C) : f.Eroded f := ⟨rfl,fun _ _ h => h,.inl rfl,.inl rfl,fun _ h => h⟩

/-- A removal adds nothing. -/
theorem eroded_removal {r : Removal} {next : Option Removal} (h : r.step f = some (f', next)) : f.Eroded f' := by
  cases r with
  | enter =>
    obtain ⟨inode,-,heq⟩ := map_eq_some_iff.mp h
    cases heq
    exact .refl f
  | children _ inode names =>
    cases names with
    | nil =>
      cases h
      exact .refl f
    | cons =>
      cases h
      refine ⟨rfl,fun j e he => ?_,.inl rfl,.inl rfl,fun _ h => h⟩
      by_cases hj : j = inode
      · subst hj
        simp only [Function.update_self] at he
        exact mem_of_mem_filter he
      · simpa [hj] using he
  | rmdir place =>
    obtain ⟨inode,hentry,hempty,rfl,-⟩ := Removal.rmdir_some h
    cases place with
    | backup => exact ⟨rfl,fun _ _ h => h,.inl rfl,.inl rfl,fun _ h => mem_of_mem_filter h⟩
    | tmp =>
      refine ⟨rfl,fun _ _ h => h,.inr ⟨rfl,fun i hi => ?_⟩,.inl rfl,fun _ h => h⟩
      cases hentry.symm.trans hi
      exact hempty
    | run =>
      refine ⟨rfl,fun _ _ h => h,.inl rfl,.inr ⟨fun i hi => ?_,fun i hi => ?_⟩,fun _ h => h⟩
      · cases hentry.symm.trans hi
        exact hempty
      · cases hi

theorem eroded_rename {name : ℕ} (h : f.rename (.backup name) .run = some f') : f.Eroded f' := by
  obtain ⟨inode,hentry,hempty,rfl⟩ := rename_some h
  obtain ⟨p,hp,rfl⟩ := map_eq_some_iff.mp hentry
  refine ⟨rfl,fun _ _ h => h,.inl rfl,.inr ⟨hempty,fun i hi => ?_⟩,fun q hq => ?_⟩
  · cases hi
    exact ⟨p,mem_of_find?_eq_some hp,rfl⟩
  · exact mem_of_mem_filter hq

end Folder

/-! ### A step of the recovery -/

def RecoveryPoint.todo : RecoveryPoint → List (String × String)
  | .next rest => rest
  | .tmpLook c | .removeTmp c _ | .runLook c | .removeRun c _ | .rename c _ => c.key :: c.rest
  | _ => []

theorem Rollback.todo_after (c : Rollback) : ∀ key ∈ c.after.todo, key ∈ c.key :: c.rest := by
  obtain ⟨key,backup,rest⟩ := c
  cases backup with
  | none => exact fun _ h => mem_cons_of_mem _ h
  | some => exact fun _ h => h

structure Recovering.Moves (s s' : Recovering C R T) : Prop where
  eroded : ∀ key, (s.store.folders key).Eroded (s'.store.folders key)
  kept : ∀ key, key ∉ s.point.todo → s'.store.folders key = s.store.folders key
  todo : ∀ key ∈ s'.point.todo, key ∈ s.point.todo ∨ key ∈ s.store.stored.interrupted
  db : (s'.store.stored = s.store.stored ∧ s'.store.writer = s.store.writer) ∨
    (∃ now, s.store.locked .recovery = false ∧ s'.store.stored = s.store.stored ∧
      s'.store.writer = some (.recovery, s.store.view.failInterrupted now)) ∨
    (s.store.writer = some (.recovery, s'.store.stored) ∧ s'.store.writer = none)

namespace Recovering
variable {s s' : Recovering C R T}

variable {store : Store C R T} {point : RecoveryPoint} {point' : RecoveryPoint}

theorem Moves.of_goto (htodo : ∀ key ∈ point'.todo, key ∈ point.todo ∨ key ∈ store.stored.interrupted) :
    Moves ⟨store,point⟩ ⟨store,point'⟩ := ⟨fun _ => .refl _,fun _ _ => rfl,htodo,.inl ⟨rfl,rfl⟩⟩

theorem Moves.of_put {f : Folder C} (hkey : key ∈ point.todo) (hf : (store.folders key).Eroded f)
    (htodo : ∀ key ∈ point'.todo, key ∈ point.todo) :
    Moves ⟨store,point⟩ ⟨store.put key f,point'⟩ := by
  refine ⟨fun key' => ?_,fun key' hnot => ?_,fun key' h => .inl (htodo key' h),.inl ⟨rfl,rfl⟩⟩
  · by_cases hk : key' = key
    · subst hk
      simpa [Store.put] using hf
    · simpa [Store.put, hk] using Folder.Eroded.refl _
  · have hk : key' ≠ key := by
      rintro rfl
      exact hnot hkey
    simp [Store.put, hk]

theorem moves_removing {after : RecoveryPoint} {r : Removal} {again : Removal → RecoveryPoint}
    (h : removing ⟨store,point⟩ key r again after = some s') (hkey : key ∈ point.todo)
    (hagain : ∀ r', ∀ key ∈ (again r').todo, key ∈ point.todo) (hafter : ∀ key ∈ after.todo, key ∈ point.todo) :
    Moves ⟨store,point⟩ s' := by
  obtain ⟨⟨f,next⟩,hr,rfl⟩ := map_eq_some_iff.mp h
  refine .of_put hkey (Folder.eroded_removal hr) ?_
  cases next with
  | none => exact hafter
  | some r' => exact hagain r'

theorem moves_attempt {now : ℤ} (h : s.attempt now = some s') : s.Moves s' := by
  obtain ⟨store,point⟩ := s
  cases point with
  | idle =>
    cases h
    exact .of_goto fun _ h => .inr h
  | next rest =>
    cases rest with
    | nil =>
      cases h
      exact .of_goto fun _ h => .inl h
    | cons =>
      simp only [attempt] at h
      split at h
      · cases h
        exact .of_goto fun _ h => .inl h
      · cases h
  | tmpLook =>
    cases h
    refine .of_goto fun key h => .inl ?_
    split at h
    · exact h
    · exact h
  | removeTmp => exact moves_removing h mem_cons_self (fun _ _ h => h) (fun _ h => h)
  | runLook c =>
    cases h
    refine .of_goto fun key h => .inl ?_
    split at h
    · exact h
    · exact c.todo_after key h
  | removeRun c => exact moves_removing h mem_cons_self (fun _ _ h => h) c.todo_after
  | rename =>
    obtain ⟨f,hf,rfl⟩ := map_eq_some_iff.mp h
    exact .of_put mem_cons_self (Folder.eroded_rename hf) fun _ h => mem_cons_of_mem _ h
  | update =>
    simp only [attempt, Option.some.injEq] at h
    subst h
    split
    · exact .of_goto fun _ h => .inl h
    · rename_i hlocked
      exact ⟨fun _ => .refl _,fun _ _ => rfl,fun _ h => .inl h,.inr (.inl ⟨now,by simpa using hlocked,rfl,rfl⟩)⟩
  | commit =>
    cases h
    cases hw : store.writer with
    | none =>
      have hcommit : store.commit .recovery = store := by simp [Store.commit, hw]
      rw [hcommit]
      exact .of_goto fun _ h => .inl h
    | some writer =>
      obtain ⟨p,d⟩ := writer
      by_cases hp : p = .recovery
      · subst hp
        have hcommit : store.commit .recovery = { store with stored := d, writer := none } := by simp [Store.commit, hw]
        rw [hcommit]
        exact ⟨fun _ => .refl _,fun _ _ => rfl,fun _ h => .inl h,.inr (.inr ⟨hw,rfl⟩)⟩
      · have hcommit : store.commit .recovery = store := by simp [Store.commit, hw, hp]
        rw [hcommit]
        exact .of_goto fun _ h => .inl h
  | finished | raised =>
    cases h
    exact .of_goto fun _ h => .inl h

/-- All that one step of the recovery can do. -/
theorem moves_step (s : Recovering C R T) (now : ℤ) (failing : Bool) : s.Moves (s.step now failing) := by
  have hraised : s.Moves (s.goto .raised) := .of_goto (by simp [RecoveryPoint.todo])
  unfold step
  split
  · exact hraised
  · cases hattempt : s.attempt now with
    | none => exact hraised
    | some => exact moves_attempt hattempt

end Recovering

/-- No recovery that still has the run on its list goes on once the artifacts are checked. -/
def Live.Apart (call : SaveCall C R T) (key : String × String) (w : Live C R T) : LiveOp C → Prop
  | .recover _ _ => w.saver.point.publishing = true ∨ w.store.stored.status call.runId = some .done →
    key ∉ w.recovery.todo
  | _ => True

theorem Live.Apart.spared {call : SaveCall C R T} {w : Live C R T} {op : LiveOp C} (h : w.Apart call key op) :
    w.Spared call key op := by
  cases op with
  | save e | again => trivial
  | recover now failing =>
    intro hpublished
    exact congrArg (Folder.files · 1) ((Recovering.moves_step ⟨w.store,w.recovery⟩ now failing).kept key (h hpublished))

/-! ### What the recovery does to the rows -/

structure Db.Settled (d d' : Db R T) : Prop where
  artifacts : d'.artifacts = d.artifacts
  strategy : ∀ id, (d'.runs.find? id).map Run.strategyId = (d.runs.find? id).map Run.strategyId
  done : ∀ r, r.status = .done → (r ∈ d'.runs.rows ↔ r ∈ d.runs.rows)

namespace Db
variable {d d' d'' : Db R T}

theorem Settled.refl (d : Db R T) : d.Settled d := ⟨rfl,fun _ => rfl,fun _ _ => Iff.rfl⟩

theorem Settled.trans (h : d.Settled d') (h' : d'.Settled d'') : d.Settled d'' :=
  ⟨h'.artifacts.trans h.artifacts,fun id => (h'.strategy id).trans (h.strategy id),
    fun r hr => (h'.done r hr).trans (h.done r hr)⟩

theorem settled_failInterrupted (now : ℤ) (d : Db R T) : d.Settled (d.failInterrupted now) := by
  refine ⟨rfl,fun id => ?_,fun r hr => ?_⟩
  · unfold failInterrupted
    rw [Table.find?_alter]
    cases d.runs.find? id with
    | none => rfl
    | some r => by_cases h : r.status.interrupted <;> simp [h]
  · constructor
    · intro h
      obtain ⟨r',hr',rfl⟩ := mem_map.mp h
      by_cases hi : r'.status.interrupted
      · simp [hi] at hr
      · simpa [hi] using hr'
    · intro h
      refine mem_map.mpr ⟨r,h,?_⟩
      simp [hr, Status.interrupted]

theorem status_eq_done {id : String} : d.status id = some .done ↔ ∃ r ∈ d.runs.rows, r.runId = id ∧
    r.status = .done := by
  constructor
  · intro h
    obtain ⟨r,hr,hstatus⟩ := map_eq_some_iff.mp h
    exact ⟨r,Table.mem_of_find? hr,Table.key_of_find? hr,hstatus⟩
  · rintro ⟨r,hr,rfl,hstatus⟩
    simp [status, Table.find?_of_mem hr, hstatus]

theorem Settled.status_done (h : d.Settled d') (id : String) : d'.status id = some .done ↔
    d.status id = some .done := by
  rw [status_eq_done, status_eq_done]
  constructor
  · rintro ⟨r,hr,hid,hstatus⟩
    exact ⟨r,(h.done r hstatus).mp hr,hid,hstatus⟩
  · rintro ⟨r,hr,hid,hstatus⟩
    exact ⟨r,(h.done r hstatus).mpr hr,hid,hstatus⟩

theorem Settled.listed (h : d.Settled d') (id : String) : d'.listed id = d.listed id := by
  unfold Db.listed
  rw [h.artifacts]

end Db
end OpenPine.Backtests
