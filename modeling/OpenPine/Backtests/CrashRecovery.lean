import OpenPine.Backtests.RecoveryAlone
import OpenPine.Backtests.SaveProgress

/-! # A call of `save_result` that dies

The process stops after any step of the call, whatever steps failed before, and the
database forgets the transaction. One call of `recover_incomplete_runs` then finds the row
and the directories as they are.
-/
namespace OpenPine.Backtests
open Runs
variable {C R T : Type} {call : SaveCall C R T} {prior : Option (Files C)} {d₀ : Db R T} {s : Saving C R T}
  {f : Folder C}

def Db.status (d : Db R T) (runId : String) : Option Status := (d.runs.find? runId).map Run.status

def Store.abandoned (s : Store C R T) : Store C R T := { s with writer := none }

/-! ### The directories -/

namespace Folder

theorem without_files {place : Place} {inode : ℕ} (h : f.entry place ≠ some inode) :
    (f.without place).files inode = f.files inode := by
  unfold without
  cases hentry : f.entry place with
  | none => rfl
  | some i =>
    have hne : inode ≠ i := by
      rintro rfl
      exact h hentry
    simp [removed, hne]

@[simp] theorem without_tmp_run : (f.without .tmp).run = f.run := by
  unfold without
  cases f.entry .tmp with
  | none | some => rfl

theorem content_rolledBack_nil (h : f.backups = []) : f.rolledBack.content = none := by simp [rolledBack, h, content]

theorem content_rolledBack_backup {name : ℕ} (h : f.backups = [(name, 0)]) (htmp : f.tmp ≠ some 0)
    (hrun : f.run ≠ some 0) :
    f.rolledBack.content = some (f.files 0) := by
  have hfiles : ((f.without .tmp).without .run).files 0 = f.files 0 := by
    rw [without_files (by simpa [entry] using hrun), without_files (by simpa [entry] using htmp)]
  simp [rolledBack, h, content, link, hfiles]

end Folder

/-! ### The call -/

/-- The call has stored nothing, and the files of the run before it are in their place or in the backup. -/
structure Undone (call : SaveCall C R T) (prior : Option (Files C)) (d₀ : Db R T) (store : Store C R T)
    (f : Folder C) : Prop where
  stored : store.stored = d₀
  old : ∀ fs, prior = some fs → f.files 0 = fs
  tmp : f.tmp ≠ some 0
  backups : f.backups = [] ∨ f.backups = aside call prior ∧ f.run ≠ some 0

section Left
variable {tmp run : Option ℕ} {store : Store C R T} {f : Folder C}

theorem Layout.undone (hl : Layout prior tmp run [] f) (hstored : store.stored = d₀) (htmp : tmp ≠ some 0) :
    Undone call prior d₀ store f := ⟨hstored,hl.old,by rwa [hl.tmp],.inl hl.backups⟩

theorem Layout.undone_aside (hl : Layout prior tmp run (aside call prior) f) (hstored : store.stored = d₀)
    (htmp : tmp ≠ some 0) (hrun : run ≠ some 0) : Undone call prior d₀ store f :=
  ⟨hstored,hl.old,by rwa [hl.tmp],.inr ⟨hl.backups,by rwa [hl.run]⟩⟩

end Left

/-- Whenever the saving process stops, the earlier result can be put back or the new one is complete. -/
theorem Phase.left {tidy : Bool} (h : Phase call prior d₀ tidy s) :
    Undone call prior d₀ s.store (s.store.folders (call.place d₀)) ∨
      call.DoneIn d₀ s.store.stored ∧ (s.store.folders (call.place d₀)).content = some call.output.files := by
  cases h with
  | select hf hclean | mkdir hf hclean => exact .inl ((hf ▸ Layout.initial).undone hclean.stored (by simp))
  | building hl _ hclean => exact .inl (hl.undone hclean.stored (by simp))
  | moving hl hfiles hclean | exposed hl hpoint hprior hclean =>
    exact .inl (hl.undone_aside hclean.stored (by simp) (by simp))
  | stranded hl htmp _ _ hclean =>
    exact .inl (hl.undone_aside hclean.stored (by rcases htmp with rfl | rfl <;> simp) (by simp))
  | storing hl _ hpoint => exact .inl (hl.undone_aside hpoint.stored_eq (by simp) (by simp))
  | revoking hl hs | withdrawing hl hpoint hs htidy | restoring hl hprior hs htidy =>
    exact .inl (hl.undone_aside hs.stored (by simp) (by simp))
  | clearing hl hpoint hclean =>
    obtain hl | ⟨-,hl⟩ := hl
    · exact .inl (hl.undone hclean.stored (by simp))
    · exact .inl (hl.undone_aside hclean.stored (by simp) (by simp))
  | cleared hl hpoint hclean =>
    obtain hl | ⟨-,run,hrun,hl⟩ := hl
    · exact .inl (hl.undone hclean.stored (by simp))
    · exact .inl (hl.undone_aside hclean.stored (by simp) hrun)
  | raised hl hsafe hs =>
    obtain ⟨htmp,rfl | ⟨rfl,hrun⟩⟩ := hsafe
    · exact .inl (hl.undone hs.stored htmp)
    · exact .inl (hl.undone_aside hs.stored htmp hrun)
  | saved hrun hfiles hdone => exact .inr ⟨hdone,by simp [Folder.content, hrun, hfiles]⟩

/-! ### The rows -/

theorem SaveCall.status_done {row : Run R} {d : Db R T} (hrow : d₀.runs.find? call.runId = some row)
    (h : call.DoneIn d₀ d) :
    d.status call.runId = some .done := by
  unfold Db.status
  rw [h, SaveCall.updateRunResultRow, Table.find?_alter, hrow]
  simp [Table.key_of_find? hrow]

theorem Db.place_mem_interrupted {row : Run R} (hrow : d₀.runs.find? call.runId = some row)
    (hstatus : row.status.interrupted) :
    call.place d₀ ∈ d₀.interrupted := by
  have hid := Table.key_of_find? hrow
  refine List.mem_map.mpr ⟨row,List.mem_filter.mpr ⟨Table.mem_of_find? hrow,hstatus⟩,?_⟩
  simp [SaveCall.place, hrow, hid]

theorem Db.not_mem_interrupted {d : Db R T} {key : String × String} (h : d.status key.2 = some .done) :
    key ∉ d.interrupted := by
  intro hmem
  obtain ⟨r,hr,rfl⟩ := List.mem_map.mp hmem
  obtain ⟨hr,hinterrupted⟩ := List.mem_filter.mp hr
  have hfind := Table.find?_of_mem hr
  simp only [Db.status, hfind, Option.map_some, Option.some.injEq] at h
  rw [h] at hinterrupted
  cases hinterrupted

theorem Db.status_failInterrupted (now : ℤ) (d : Db R T) (runId : String) :
    (d.failInterrupted now).status runId = (d.status runId).map fun status => if status.interrupted then .failed
      else status := by
  unfold Db.status Db.failInterrupted
  rw [Table.find?_alter]
  cases d.runs.find? runId with
  | none => rfl
  | some r => by_cases h : r.status.interrupted <;> simp [h]

/-! ### The recovery -/

/-- The recovery finds the row done, or gives the earlier result back exactly if the call had
put it aside, provided that it gets through all interrupted runs. -/
theorem crash_recovery_iff (call : SaveCall C R T) (prior : Option (Files C)) (store : Store C R T) (row : Run R)
    (hrow : store.stored.runs.find? call.runId = some row)
    (hstatus : row.status = .running) (hfolder : store.folders (call.place store.stored) = .initial prior)
    (hwriter : store.writer = none) (events : List (Event C)) (now : ℤ) :
    let key := call.place store.stored
    let stop := (run (Saving.step call) ⟨store,.start⟩ events).store.abandoned
    ∃ t : Recovering C R T, Reaches (Recovering.step now) false ⟨stop,.idle⟩ t ∧ t.point.ended ∧
      ((t.store.stored.status call.runId = some .done ∧ (t.store.folders key).content = some call.output.files ∨
        t.store.stored.status call.runId = some .failed ∧ (t.store.folders key).content = prior) ↔
      stop.stored.status call.runId = some .done ∨ stop.Recoverable ∧
        (prior = none ∨ (stop.folders key).backups ≠ [])) := by
  intro key stop
  obtain ⟨t,hreaches,hended,hfinished,hraised⟩ := Recovering.reaches_end now (rfl : stop.writer = none)
  refine ⟨t,hreaches,hended,?_⟩
  have hstart : Phase call prior store.stored false ⟨store,.start⟩ := .select hfolder ⟨rfl,hwriter⟩
  have hphase := hstart.of_run (by simp : false = true → ∀ e ∈ events, e.failing = false)
  obtain ⟨hstored,hold,htmp,hbackups⟩ | ⟨hdone,hcontent⟩ := hphase.left
  · -- the database is as it was
    have hstored : stop.stored = store.stored := hstored
    have hrunning : stop.stored.status call.runId = some .running := by simp [hstored, Db.status, hrow, hstatus]
    have hmem : key ∈ stop.stored.interrupted := by
      rw [hstored]
      exact Db.place_mem_interrupted hrow (by simp [hstatus, Status.interrupted])
    by_cases hrecoverable : stop.Recoverable
    · obtain ⟨hfolders,hfailed⟩ := hfinished hrecoverable
      have hfolder' : t.store.folders key = (stop.folders key).rolledBack := by simp [hfolders, Store.rolledBack, hmem]
      rw [hfailed, hfolder', Db.status_failInterrupted, hrunning]
      cases prior with
      | none =>
        have hnil : (stop.folders key).backups = [] := hbackups.elim id (·.1)
        simp [Folder.content_rolledBack_nil hnil, hrecoverable, Status.interrupted]
      | some fs =>
        obtain hnil | ⟨haside,hrun⟩ := hbackups
        · have hnil : (stop.folders key).backups = [] := hnil
          simp [Folder.content_rolledBack_nil hnil, hnil, Status.interrupted]
        · have haside : (stop.folders key).backups = [(call.backupName, 0)] := haside
          have hfiles : (stop.folders key).files 0 = fs := hold fs rfl
          simp [Folder.content_rolledBack_backup haside htmp hrun, haside, hrecoverable, hfiles, Status.interrupted]
    · rw [(hraised hrecoverable).1, hrunning]
      simp [hrecoverable]
  · have hdone : stop.stored.status call.runId = some .done := SaveCall.status_done hrow hdone
    have hcontent : (stop.folders key).content = some call.output.files := hcontent
    have hnot : key ∉ stop.stored.interrupted := Db.not_mem_interrupted hdone
    refine iff_of_true (.inl ?_) (.inl hdone)
    by_cases hrecoverable : stop.Recoverable
    · obtain ⟨hfolders,hfailed⟩ := hfinished hrecoverable
      simp [hfailed, Db.status_failInterrupted, hdone, hfolders, Store.rolledBack, hnot, hcontent, Status.interrupted]
    · obtain ⟨hstored,hothers⟩ := hraised hrecoverable
      rw [hstored, hothers key hnot]
      exact ⟨hdone,hcontent⟩

/-! ### An earlier result -/

def SaveCall.sample : SaveCall ℕ Unit Unit where
  runId := "run_1"
  output := ⟨none,none,none,none,1,2⟩
  result := ()
  trades := []
  now := 10
  backupName := 7
  rowCount := some

/-- A single run, which is running, with these files of an earlier result. -/
def Store.sample (prior : Option (Files ℕ)) : Store ℕ Unit Unit where
  folders := fun _ => .initial prior
  stored := ⟨⟨[⟨"run_1","trend",.running,none,none,0,none⟩],by simp⟩,.empty,.empty⟩
  writer := none

def Store.stopped (prior : Option (Files ℕ)) (n : ℕ) : Store ℕ Unit Unit :=
  (run (Saving.step .sample) ⟨.sample prior,.start⟩ (List.replicate n .proceeds)).store.abandoned

/-- A process that dies before it has put the earlier result aside loses it. -/
theorem earlier_result_lost :
    let t := run (Recovering.step 20) ⟨.stopped (some [("report.json", 0)]) 2,.idle⟩ (List.replicate 16 false)
    t.point = .finished ∧ t.store.stored.status "run_1" = some .failed ∧
      (t.store.folders ("trend", "run_1")).content = none :=
  ⟨rfl,rfl,rfl⟩

theorem earlier_result_restored :
    ∃ t : Recovering ℕ Unit Unit, Reaches (Recovering.step 20) false
      ⟨.stopped (some [("report.json", 0)]) 14,.idle⟩ t ∧ t.point.ended ∧
      (t.store.stored.status "run_1" = some .done ∧
          (t.store.folders ("trend", "run_1")).content = some [("report.json", 1), ("report.md", 2)] ∨
        t.store.stored.status "run_1" = some .failed ∧
          (t.store.folders ("trend", "run_1")).content = some [("report.json", 0)]) := by
  have hrecoverable : ((Store.stopped (some [("report.json", 0)]) 14).stored.interrupted.all fun key =>
      ((Store.stopped (some [("report.json", 0)]) 14).folders key).recoverable key) = true := by decide +kernel
  have hbackups : ((Store.stopped (some [("report.json", 0)]) 14).folders ("trend", "run_1")).backups ≠ [] := by
    decide +kernel
  obtain ⟨t,hreaches,hended,hiff⟩ := crash_recovery_iff .sample (some [("report.json", 0)])
    (.sample (some [("report.json", 0)]))
    ⟨"run_1","trend",.running,none,none,0,none⟩ rfl rfl rfl rfl (List.replicate 14 .proceeds) 20
  have hplace : SaveCall.sample.place (Store.sample (some [("report.json", 0)])).stored = ("trend", "run_1") := rfl
  rw [hplace] at hiff
  exact ⟨t,hreaches,hended,hiff.mpr (.inr ⟨List.all_eq_true.mp hrecoverable,.inr hbackups⟩)⟩

end OpenPine.Backtests
