import OpenPine.Backtests.IncompleteRuns
import OpenPine.Backtests.Folders

/-! # Recovery on its own

What one call of `recover_incomplete_runs` makes of the data directory and the database
when no other process is at work.
-/
namespace OpenPine.Backtests
open Runs Store
variable {C R T : Type} {now : ℤ} {store : Store C R T} {key : String × String} {f : Folder C}
  {keys : List (String × String)}

/-- `if path.exists(): shutil.rmtree(path)` -/
def Folder.without (f : Folder C) (place : Place) : Folder C := ((f.entry place).map (f.removed place)).getD f

def Folder.rolledBack (f : Folder C) : Folder C :=
  match f.backups with
  | [] => (f.without .tmp).without .run
  | (name, inode) :: _ => (((f.without .tmp).without .run).unlink (.backup name)).link inode .run

def Store.rolledBack (s : Store C R T) (keys : List (String × String)) : Store C R T :=
  { s with folders := fun key => if key ∈ keys then (s.folders key).rolledBack else s.folders key }

namespace Folder

@[simp] theorem without_tmp_backups : (f.without .tmp).backups = f.backups := by
  unfold without
  cases h : f.entry .tmp with
  | none | some => rfl

@[simp] theorem without_run_backups : (f.without .run).backups = f.backups := by
  unfold without
  cases h : f.entry .run with
  | none | some => rfl

@[simp] theorem without_run_run : (f.without .run).run = none := by
  unfold without
  cases h : f.entry .run with
  | none => exact h
  | some => rfl

theorem rename_backup {name inode : ℕ} {backups : List (ℕ × ℕ)} (hrun : f.run = none)
    (hbackups : f.backups = (name, inode) :: backups) :
    f.rename (.backup name) .run = some ((f.unlink (.backup name)).link inode .run) := by
  obtain ⟨run,tmp,_,files,fresh⟩ := f
  cases hrun
  cases hbackups
  simp [rename, entry, unlink, link]

end Folder

namespace Recovering

theorem step_of_attempt {s s' : Recovering C R T} (h : s.attempt now = some s') : s.step now false = s' := by
  simp [step, h]

theorem reaches_without (now : ℤ) (store : Store C R T) (key : String × String) (place : Place) (point : RecoveryPoint)
    (again : Removal → RecoveryPoint) (after : RecoveryPoint)
    (hlook : attempt now ⟨store,point⟩ =
      some ⟨store,if ((store.folders key).entry place).isSome then again (.enter place) else after⟩)
    (hagain : ∀ (store : Store C R T) r, attempt now ⟨store,again r⟩ = removing ⟨store,again r⟩ key r again after) :
    Reaches (step now) false ⟨store,point⟩ ⟨store.put key ((store.folders key).without place),after⟩ := by
  refine .head (step_of_attempt hlook) ?_
  cases hentry : (store.folders key).entry place with
  | none =>
    have hwithout : (store.folders key).without place = store.folders key := by simp [Folder.without, hentry]
    rw [hwithout, put_self]
    exact .refl false _
  | some inode =>
    have hwithout : (store.folders key).without place = (store.folders key).removed place inode := by
      simp [Folder.without, hentry]
    rw [hwithout]
    have h := reaches_removed (fun f next => (⟨store.put key f,(next.map again).getD after⟩ : Recovering C R T))
      (fun f r p hp => (?_ : step now _ false = _)) hentry
    · simpa [put_self] using h
    · apply step_of_attempt
      simp only [Option.map_some, Option.getD_some]
      rw [hagain]
      simp [removing, hp, put_put]

/-- The recovery rolls one directory back. -/
theorem reaches_rolledBack {rest : List (String × String)} (h : (store.folders key).recoverable key) :
    Reaches (step now) false ⟨store,.next (key :: rest)⟩ ⟨store.put key (store.folders key).rolledBack,.next rest⟩ := by
  let f := store.folders key
  let c : Rollback := ⟨key,f.backups.head?.map Prod.fst,rest⟩
  have hglob : attempt now ⟨store,.next (key :: rest)⟩ = some ⟨store,.tmpLook c⟩ := if_pos h
  refine .head (step_of_attempt hglob) (.trans (t := ⟨store.put key (f.without .tmp),.runLook c⟩) ?_ ?_)
  · exact reaches_without now store key .tmp (.tmpLook c) (.removeTmp c) (.runLook c) rfl fun _ _ => rfl
  refine .trans (t := ⟨store.put key ((f.without .tmp).without .run),c.after⟩) ?_ ?_
  · have hrun := reaches_without now (store.put key (f.without .tmp)) key .run (.runLook c) (.removeRun c) c.after rfl
      fun _ _ => rfl
    rwa [put_folders_self, put_put] at hrun
  unfold Folder.rolledBack
  cases hbackups : f.backups with
  | nil =>
    have hafter : c.after = .next rest := by simp [c, Rollback.after, hbackups]
    rw [hafter]
    exact .refl false _
  | cons backup backups =>
    obtain ⟨name,inode⟩ := backup
    have hafter : c.after = .rename c name := by simp [c, Rollback.after, hbackups]
    rw [hafter]
    refine .single (step_of_attempt ?_)
    have hrename := Folder.rename_backup (f := (f.without .tmp).without .run) (by simp)
      (by simp [hbackups] : _ = (name, inode) :: backups)
    simp [attempt, hrename, put_put, c, f]

/-- By induction on the list it rolls all of them back. -/
theorem reaches_all (hnodup : keys.Nodup) (h : ∀ key ∈ keys, (store.folders key).recoverable key) :
    Reaches (step now) false ⟨store,.next keys⟩ ⟨store.rolledBack keys,.next []⟩ := by
  induction keys generalizing store with
  | nil => simpa [rolledBack] using Reaches.refl false _
  | cons key keys ih =>
    obtain ⟨hkey,hnodup⟩ := List.nodup_cons.mp hnodup
    have hothers : ∀ key' ∈ keys, (store.put key (store.folders key).rolledBack).folders key' = store.folders key' := by
      intro key' hmem
      have hne : key' ≠ key := by
        rintro rfl
        exact hkey hmem
      simp [put, hne]
    have hrest := @ih (store.put key (store.folders key).rolledBack) hnodup (fun key' hmem => by
      rw [hothers key' hmem]
      exact h key' (List.mem_cons_of_mem key hmem))
    have hstore : (store.put key (store.folders key).rolledBack).rolledBack keys = store.rolledBack (key :: keys) := by
      simp only [rolledBack, put, Store.mk.injEq, and_true]
      funext key'
      by_cases hk : key' = key
      · subst hk
        simp [hkey]
      · simp [hk]
    rw [hstore] at hrest
    exact (reaches_rolledBack (h key List.mem_cons_self)).trans hrest

theorem reaches_raised (now : ℤ) (hnodup : keys.Nodup) (h : ¬∀ key ∈ keys, (store.folders key).recoverable key) :
    ∃ store', Reaches (step now) false ⟨store,.next keys⟩ ⟨store',.raised⟩ ∧ store'.stored = store.stored ∧
      ∀ key, key ∉ keys → store'.folders key = store.folders key := by
  induction keys generalizing store with
  | nil => simp at h
  | cons key keys ih =>
    obtain ⟨hkey,hnodup⟩ := List.nodup_cons.mp hnodup
    by_cases hfirst : (store.folders key).recoverable key
    · have hrest : ¬∀ key' ∈ keys, ((store.put key (store.folders key).rolledBack).folders key').recoverable key' := by
        intro hall
        apply h
        intro key' hmem
        by_cases hk : key' = key
        · subst hk
          exact hfirst
        · have hmem' : key' ∈ keys := by simpa [hk] using hmem
          simpa [put, hk] using hall key' hmem'
      obtain ⟨store',hreaches,hstored,hothers⟩ := ih hnodup hrest
      refine ⟨store',(reaches_rolledBack hfirst).trans hreaches,hstored,fun key' hmem => ?_⟩
      simp only [List.mem_cons, not_or] at hmem
      rw [hothers key' hmem.2]
      simp [put, hmem.1]
    · refine ⟨store,.single ?_,rfl,fun _ _ => rfl⟩
      simp [step, attempt, hfirst, goto, RecoveryPoint.ended]

end Recovering

theorem Db.nodup_interrupted (d : Db R T) : d.interrupted.Nodup := by
  apply List.Nodup.of_map Prod.snd
  have hmap : d.interrupted.map Prod.snd = (d.runs.rows.filter fun r => r.status.interrupted).map Run.runId := by
    simp [Db.interrupted]
  rw [hmap]
  exact d.runs.nodup.sublist (List.filter_sublist.map _)

def Store.Recoverable (s : Store C R T) : Prop := ∀ key ∈ s.stored.interrupted, (s.folders key).recoverable key

theorem Recovering.reaches_end (now : ℤ) (hwriter : store.writer = none) :
    ∃ t, Reaches (step now) false ⟨store,.idle⟩ t ∧ t.point.ended ∧
      (store.Recoverable → t.store.folders = (store.rolledBack store.stored.interrupted).folders ∧
        t.store.stored = store.stored.failInterrupted now) ∧
      (¬store.Recoverable → t.store.stored = store.stored ∧
        ∀ key, key ∉ store.stored.interrupted → t.store.folders key = store.folders key) := by
  have hstart : step now (⟨store,.idle⟩ : Recovering C R T) false = ⟨store,.next store.stored.interrupted⟩ := rfl
  have hnodup := store.stored.nodup_interrupted
  by_cases h : store.Recoverable
  · refine ⟨⟨⟨(store.rolledBack store.stored.interrupted).folders,store.stored.failInterrupted now,none⟩,.finished⟩,
      ?_,rfl,fun _ => ⟨rfl,rfl⟩,fun hn => absurd h hn⟩
    refine .head hstart ((reaches_all hnodup h).trans (.head (step_of_attempt rfl) ?_))
    obtain ⟨folders,stored,writer⟩ := store
    cases hwriter
    exact .head (step_of_attempt rfl) (.single (step_of_attempt rfl))
  · obtain ⟨store',hreaches,hstored,hothers⟩ := reaches_raised now hnodup h
    exact ⟨_,.head hstart hreaches,rfl,fun hp => absurd hp h,fun _ => ⟨hstored,hothers⟩⟩

end OpenPine.Backtests
