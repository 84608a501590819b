import OpenPine.Backtests.Folders

/-! # The course of a call that nobody disturbs

Where the directories of the run are and what the database holds at every step of
`save_result`, whatever steps fail. The temporary directory is inode 1, and the run
directory that was there before is inode 0. A call is tidy if no clean-up step fails.
-/
namespace OpenPine.Backtests
open Runs Folder Saving Store Option
variable {C R T : Type} (call : SaveCall C R T) (prior : Option (Files C)) (d₀ : Db R T)

def SaveCall.place : String × String := (((d₀.runs.find? call.runId).map Run.strategyId).getD "", call.runId)

def base : Option ℕ := prior.map fun _ => 0

def aside : List (ℕ × ℕ) := (prior.map fun _ => (call.backupName, 0)).toList

/-- Where the directories are; those of the earlier result are as they were. -/
structure Layout (tmp run : Option ℕ) (backups : List (ℕ × ℕ)) (f : Folder C) : Prop where
  tmp : f.tmp = tmp
  run : f.run = run
  backups : f.backups = backups
  old : ∀ fs, prior = some fs → f.files 0 = fs

/-- The row of the run has the result, and the other runs are as they were. -/
def SaveCall.DoneIn (d : Db R T) : Prop := d.runs = (call.updateRunResultRow d₀).runs

structure Unsaved (s : Store C R T) : Prop where
  stored : s.stored = d₀
  mine : s.locked .saver = false

structure Clean (s : Store C R T) : Prop where
  stored : s.stored = d₀
  writer : s.writer = none

def Point.Building (fs : Files C) : Point C T → Prop
  | .prepare => fs = []
  | .write rest => fs ++ rest = call.output.files
  | .validate _ | .check _ | .look => fs = call.output.files
  | .backUp => fs = call.output.files ∧ prior.isSome
  | _ => False

def Point.Storing (s : Store C R T) : Point C T → Prop
  | .update => Clean d₀ s
  | .insertTrade _ | .insertArtifact _ | .commit => s.stored = d₀ ∧ ∃ d, s.writer = some (.saver, d) ∧ call.DoneIn d₀ d
  | _ => False

/-- The restoration of the earlier result where the publication itself has failed. -/
def Point.reinstating : Point C T → Bool
  | .activeLook | .publicationLook | .reinstate => true
  | _ => false

/-- The publication was made and reported as failed. -/
def Point.Exposed (f : Folder C) : Point C T → Prop
  | .activeLook | .publicationLook => True
  | .unpublish r => r.Targets f .run 1
  | _ => False

def Point.Clearing (f : Folder C) : Point C T → Prop
  | .tmpLook => True
  | .removeTmp r => r.Targets f .tmp 1
  | _ => False

def Point.Withdrawing (f : Folder C) : Point C T → Prop
  | .tmpLook | .backupLook => True
  | .runLook => prior.isSome
  | .removeRun r => prior.isSome ∧ r.Targets f .run 1
  | .publishedLook => prior = none
  | .removePublished r => prior = none ∧ r.Targets f .run 1
  | _ => False

def Point.Saved (f : Folder C) : Point C T → Prop
  | .staleLook => f.backups = aside call prior
  | .removeStale r => f.backups = aside call prior ∧ prior.isSome ∧ r.Targets f (.backup call.backupName) 0
  | .returned => True
  | _ => False

inductive Phase (tidy : Bool) : Saving C R T → Prop
  | select {s} (hf : s.folders (call.place d₀) = .initial prior) (hclean : Clean d₀ s) : Phase tidy ⟨s,
    ⟨.select,"",none,false⟩⟩
  | mkdir {s} (hf : s.folders (call.place d₀) = .initial prior) (hclean : Clean d₀ s) :
    Phase tidy ⟨s,⟨.mkdir,(call.place d₀).1,none,false⟩⟩
  | building {s point} (hl : Layout prior (some 1) (base prior) [] (s.folders (call.place d₀)))
    (hpoint : point.Building call prior ((s.folders (call.place d₀)).files 1)) (hclean : Clean d₀ s) :
    Phase tidy ⟨s,⟨point,(call.place d₀).1,none,false⟩⟩
  | moving {s} (hl : Layout prior (some 1) none (aside call prior) (s.folders (call.place d₀)))
    (hfiles : (s.folders (call.place d₀)).files 1 = call.output.files) (hclean : Clean d₀ s) :
    Phase tidy ⟨s,⟨.publish prior.isSome,(call.place d₀).1,none,false⟩⟩
  | stranded {s point tmp} (hl : Layout prior tmp none (aside call prior) (s.folders (call.place d₀)))
    (htmp : tmp = some 1 ∨ tmp = none) (hpoint : point.reinstating) (hprior : prior.isSome) (hclean : Clean d₀ s) :
    Phase tidy ⟨s,⟨point,(call.place d₀).1,none,false⟩⟩
  | exposed {s point} (hl : Layout prior none (some 1) (aside call prior) (s.folders (call.place d₀)))
    (hpoint : point.Exposed (s.folders (call.place d₀))) (hprior : prior.isSome) (hclean : Clean d₀ s) :
    Phase tidy ⟨s,⟨point,(call.place d₀).1,none,false⟩⟩
  | storing {s point} (hl : Layout prior none (some 1) (aside call prior) (s.folders (call.place d₀)))
    (hfiles : (s.folders (call.place d₀)).files 1 = call.output.files) (hpoint : point.Storing call d₀ s) :
    Phase tidy ⟨s,⟨point,(call.place d₀).1,prior.map fun _ => call.backupName,true⟩⟩
  | revoking {s} (hl : Layout prior none (some 1) (aside call prior) (s.folders (call.place d₀))) (hs : Unsaved d₀ s) :
    Phase tidy ⟨s,⟨.rollback,(call.place d₀).1,prior.map fun _ => call.backupName,true⟩⟩
  | clearing {s point} (hl : Layout prior (some 1) (base prior) [] (s.folders (call.place d₀)) ∨
      tidy = false ∧ Layout prior (some 1) none (aside call prior) (s.folders (call.place d₀)))
    (hpoint : point.Clearing (s.folders (call.place d₀))) (hclean : Clean d₀ s) :
    Phase tidy ⟨s,⟨point,(call.place d₀).1,none,false⟩⟩
  | cleared {s point} (hl : Layout prior none (base prior) [] (s.folders (call.place d₀)) ∨
      tidy = false ∧ ∃ run, run ≠ some 0 ∧ Layout prior none run (aside call prior) (s.folders (call.place d₀)))
    (hpoint : point = .tmpLook ∨ point = .backupLook ∨ point = .publishedLook) (hclean : Clean d₀ s) :
    Phase tidy ⟨s,⟨point,(call.place d₀).1,none,false⟩⟩
  | withdrawing {s point} (hl : Layout prior none (some 1) (aside call prior) (s.folders (call.place d₀)))
    (hpoint : point.Withdrawing prior (s.folders (call.place d₀))) (hs : Unsaved d₀ s)
    (htidy : tidy = true → Clean d₀ s) :
    Phase tidy ⟨s,⟨point,(call.place d₀).1,prior.map fun _ => call.backupName,true⟩⟩
  | restoring {s} (hl : Layout prior none none (aside call prior) (s.folders (call.place d₀))) (hprior : prior.isSome)
    (hs : Unsaved d₀ s) (htidy : tidy = true → Clean d₀ s) :
    Phase tidy ⟨s,⟨.restore,(call.place d₀).1,prior.map fun _ => call.backupName,true⟩⟩
  | raised {s strategyId backup published} {tmp run : Option ℕ} {backups : List (ℕ × ℕ)}
    (hl : Layout prior tmp run backups (s.folders (call.place d₀)))
    (hsafe : tmp ≠ some 0 ∧ (backups = [] ∨ backups = aside call prior ∧ run ≠ some 0))
    (hs : Unsaved d₀ s) (htidy : tidy = true → tmp = none ∧ run = base prior ∧ backups = [] ∧ Clean d₀ s) :
    Phase tidy ⟨s,⟨.raised,strategyId,backup,published⟩⟩
  | saved {s point} (hrun : (s.folders (call.place d₀)).run = some 1)
    (hfiles : (s.folders (call.place d₀)).files 1 = call.output.files) (hdone : call.DoneIn d₀ s.stored)
    (hpoint : point.Saved call prior (s.folders (call.place d₀)) ∨ tidy = false ∧ point = .raised) :
    Phase tidy ⟨s,⟨point,(call.place d₀).1,prior.map fun _ => call.backupName,true⟩⟩

abbrev SaveCall.unpublished (s : Store C R T) (point : Point C T) : Saving C R T :=
  ⟨s,⟨point,(call.place d₀).1,none,false⟩⟩

abbrev SaveCall.published (s : Store C R T) (point : Point C T) : Saving C R T :=
  ⟨s,⟨point,(call.place d₀).1,prior.map fun _ => call.backupName,true⟩⟩

abbrev SaveCall.folder (s : Store C R T) : Folder C := s.folders (call.place d₀)

/-- The handlers undo what the step leaves behind if it raises. -/
def Point.mends (left : Remains C) : Point C T → Bool
  | .backUp | .publish false => match left with
    | .renamed => false
    | _ => true
  | _ => true

abbrev Point.Permits (tidy : Bool) (e : Event C) (point : Point C T) : Prop :=
  tidy = true → ∀ left, e = .fails left → point.cleanUp = false ∧ point.mends left = true

variable {call prior d₀} {tidy : Bool} {s : Saving C R T} {store : Store C R T} {f f' : Folder C} {tmp run : Option ℕ}
  {backups : List (ℕ × ℕ)} {inode : ℕ} {found missing : Point C T} {point : Point C T} {entry : Option ℕ}

theorem Clean.unsaved (h : Clean d₀ store) : Unsaved d₀ store := ⟨h.stored,by simp [locked, h.writer]⟩

theorem Clean.put (h : Clean d₀ store) (key : String × String) (f : Folder C) : Clean d₀ (store.put key f) :=
  ⟨h.stored,h.writer⟩

theorem Unsaved.put (h : Unsaved d₀ store) (key : String × String) (f : Folder C) : Unsaved d₀ (store.put key f) :=
  ⟨h.stored,h.mine⟩

theorem Unsaved.rollback (h : Unsaved d₀ store) : Clean d₀ (store.rollback .saver) := by
  refine ⟨h.stored,?_⟩
  have hmine := h.mine
  unfold locked at hmine
  unfold Store.rollback
  cases hw : store.writer with
  | none => rfl
  | some =>
    rw [hw] at hmine
    simpa using hmine

theorem Layout.initial : Layout prior none (base prior) [] (Folder.initial prior) := by
  refine ⟨rfl,rfl,rfl,fun fs hfs => ?_⟩
  simp [Folder.initial, hfs]

section
variable (h : Layout prior tmp run backups f)
include h

theorem Layout.sameBut (hsame : f.SameBut 1 f') : Layout prior tmp run backups f' :=
  ⟨by rw [hsame.tmp, h.tmp],by rw [hsame.run, h.run],by rw [hsame.backups, h.backups],
    fun fs hfs => by rw [hsame.files 0 (by decide), h.old fs hfs]⟩

theorem Layout.put (key : String × String) : Layout prior tmp run backups ((store.put key f).folders key) := by
  rwa [put_folders_self]

theorem Layout.unlink_tmp : Layout prior none run backups (f.unlink .tmp) := ⟨rfl,h.run,h.backups,h.old⟩

theorem Layout.unlink_run : Layout prior tmp none backups (f.unlink .run) := ⟨h.tmp,rfl,h.backups,h.old⟩

theorem Layout.publish : Layout prior none (some 1) backups { f with tmp := none, run := some 1 } :=
  ⟨rfl,rfl,h.backups,h.old⟩

theorem Layout.restore : Layout prior tmp (some 0) [] { f with run := some 0, backups := [] } := ⟨h.tmp,rfl,rfl,h.old⟩

end

theorem Folder.entry_aside {fs : Files C} (h : f.backups = aside call (some fs)) :
    f.entry (.backup call.backupName) = some 0 := by
  simp [entry, h, aside]

theorem Folder.store_sameBut (f : Folder C) (name : String) (content : C) : f.SameBut 1 (f.store 1 name content) :=
  ⟨rfl,rfl,rfl,fun j hj => by simp [store, hj]⟩

/-! ### One step -/

theorem Output.nodup_names (o : Output C) : (o.files.map Prod.fst).Nodup := by
  obtain ⟨equityCurve,trades,barOutputs,plotOutputs,reportJson,reportMd⟩ := o
  cases equityCurve <;> cases trades <;> cases barOutputs <;> cases plotOutputs <;>
    simp [Output.files, ArtifactType.filename, plotCsv]

theorem Output.filter_written {o : Output C} {fs rest : Files C} {name : String} {content : C}
    (h : fs ++ (name, content) :: rest = o.files) : fs.filter (·.1 ≠ name) = fs := by
  have hnodup := o.nodup_names
  rw [← h, List.map_append, List.nodup_append] at hnodup
  apply List.filter_eq_self.mpr
  intro e he
  have hne : e.1 ≠ name := hnodup.2.2 e.1 (List.mem_map_of_mem he) name (by simp)
  simpa using hne

theorem Saving.step_of_attempt {s s' : Saving C R T} (h : s.attempt call = some s') : s.step call .proceeds = s' := by
  simp [Saving.step, h]

theorem Saving.step_of_raise {s : Saving C R T} (h : s.attempt call = none) :
    s.step call .proceeds = ⟨s.store,s.saver.raise⟩ := by
  simp [Saving.step, h]

section
variable (hattempt : s.attempt call = some (s.goto (if entry.isSome then found else missing)))
include hattempt

theorem Saving.step_present (h : entry = some inode) : s.step call .proceeds = s.goto found := by
  rw [step_of_attempt hattempt, h]
  rfl

theorem Saving.step_absent (h : entry = none) : s.step call .proceeds = s.goto missing := by
  rw [step_of_attempt hattempt, h]
  rfl

end

def Point.lasting : Point C T → Bool
  | .write _ | .backUp | .publish _ | .reinstate | .restore => true
  | _ => false

theorem Saving.spoil_of_not_lasting (h : s.saver.point.lasting = false) (left : Remains C) :
    s.spoil call left = s.store := by
  obtain ⟨store,⟨point,strategyId,backup,published⟩⟩ := s
  cases point with
  | write _ | backUp | publish _ | reinstate | restore => cases h
  | _ => rfl

theorem Saving.spoil_write {rest : Files C} (htmp : (s.folder call).tmp = some 1) (hpoint : s.saver.point = .write rest)
    (left : Remains C) : s.spoil call left = s.store ∨
      ∃ name content, s.spoil call left = s.store.put (s.key call) ((s.folder call).store 1 name content) := by
  unfold spoil
  rw [hpoint]
  split
  · rename_i name _ _ content _
    refine .inr ⟨name,content,?_⟩
    simp [write, entry, htmp]
  all_goals first | exact .inl rfl | simp_all

theorem Folder.rename_tmp (htmp : f.tmp = some 1) (hrun : f.run = none) :
    f.rename .tmp .run = some { f with tmp := none, run := some 1 } := by simp [rename, entry, htmp, hrun, unlink, link]

theorem Folder.rename_run {name : ℕ} (hrun : f.run = some 0) (hbackups : f.backups = []) :
    f.rename .run (.backup name) = some { f with run := none, backups := [(name, 0)] } := by
  simp [rename, entry, hrun, hbackups, unlink, link]

theorem Folder.rename_aside {name : ℕ} (hrun : f.run = none) (hbackups : f.backups = [(name, 0)]) :
    f.rename (.backup name) .run = some { f with run := some 0, backups := [] } := by
  simp [rename, entry, hrun, hbackups, unlink, link]

section
variable {left : Remains C} (he : point.Permits tidy (.fails left))
include he

theorem untidy (hpoint : point.cleanUp = true) : tidy = false := by
  cases tidy with
  | false => rfl
  | true =>
    rw [(he rfl left rfl).1] at hpoint
    cases hpoint

theorem unmended (hpoint : point.mends left = false) : tidy = false := by
  cases tidy with
  | false => rfl
  | true =>
    rw [(he rfl left rfl).2] at hpoint
    cases hpoint

end

theorem of_untidy {P : Prop} (huntidy : tidy = false) (htidy : tidy = true) : P := by cases huntidy.symm.trans htidy

theorem Point.Storing.stored_eq (h : point.Storing call d₀ store) : store.stored = d₀ := by
  cases point with
  | update => exact h.stored
  | insertTrade _ | insertArtifact _ | commit => exact h.1
  | _ => exact h.elim

namespace Phase

section Raised
variable {strategyId : String} {backup : Option ℕ} {published : Bool}

theorem ends_restored (hl : Layout prior none (base prior) [] (call.folder d₀ store)) (hs : Unsaved d₀ store)
    (htidy : tidy = true → Clean d₀ store) : Phase call prior d₀ tidy ⟨store,⟨.raised,strategyId,backup,published⟩⟩ :=
  .raised hl ⟨by simp,.inl rfl⟩ hs fun h => ⟨rfl,rfl,rfl,htidy h⟩

theorem ends_untidy (hl : Layout prior tmp run backups (call.folder d₀ store)) (htmp : tmp ≠ some 0)
    (hbackups : backups = [] ∨ backups = aside call prior ∧ run ≠ some 0) (hs : Unsaved d₀ store)
    (huntidy : tidy = false) :
    Phase call prior d₀ tidy ⟨store,⟨.raised,strategyId,backup,published⟩⟩ :=
  .raised hl ⟨htmp,hbackups⟩ hs (of_untidy huntidy)

theorem of_initial (hf : call.folder d₀ store = .initial prior) (hclean : Clean d₀ store) :
    Phase call prior d₀ tidy ⟨store,⟨.raised,strategyId,backup,published⟩⟩ :=
  ends_restored (hf ▸ Layout.initial) hclean.unsaved fun _ => hclean

end Raised

theorem step_removing {place : Place} {r : Removal} {again : Removal → Point C T} {point after : Point C T}
    {backup : Option ℕ} {published : Bool}
    (hattempt : attempt call ⟨store,⟨point,(call.place d₀).1,backup,published⟩⟩ = removing call
      ⟨store,⟨point,(call.place d₀).1,backup,published⟩⟩ r again after)
    (h : r.Targets (call.folder d₀ store) place inode) (hentry : (call.folder d₀ store).entry place = some inode)
    (hagain : ∀ f r, r.Targets f place inode → (call.folder d₀ store).SameBut inode f →
      Phase call prior d₀ tidy ⟨store.put (call.place d₀) f,⟨again r,(call.place d₀).1,backup,published⟩⟩)
    (hafter : Phase call prior d₀ tidy ⟨store.put (call.place d₀) ((call.folder d₀ store).unlink place),
      ⟨after,(call.place d₀).1,backup,published⟩⟩) :
    Phase call prior d₀ tidy (Saving.step call ⟨store,⟨point,(call.place d₀).1,backup,published⟩⟩ .proceeds) := by
  obtain ⟨f,r',hr,htargets,hsame⟩ | hr := Removal.step_of_targets hentry h
  · rw [step_of_attempt (hattempt.trans (congrArg (Option.map _) hr))]
    exact hagain f r' htargets hsame
  · rw [step_of_attempt (hattempt.trans (congrArg (Option.map _) hr))]
    exact hafter

theorem step_renaming {old new : Place} {backup : Option ℕ} {published : Bool} {after : Saver C T}
    (hattempt : attempt call ⟨store,⟨point,(call.place d₀).1,backup,published⟩⟩ =
      ((call.folder d₀ store).rename old new).map fun f => ⟨store.put (call.place d₀) f,after⟩)
    (hrename : (call.folder d₀ store).rename old new = some f)
    (h : Phase call prior d₀ tidy ⟨store.put (call.place d₀) f,after⟩) :
    Phase call prior d₀ tidy (Saving.step call ⟨store,⟨point,(call.place d₀).1,backup,published⟩⟩ .proceeds) := by
  rw [step_of_attempt (hattempt.trans (congrArg (Option.map _) hrename))]
  exact h

theorem step_late {old new : Place} {backup : Option ℕ} {published : Bool} {after : Saver C T}
    (hspoil : spoil call ⟨store,⟨point,(call.place d₀).1,backup,published⟩⟩ .renamed =
      ((attempt call ⟨store,⟨point,(call.place d₀).1,backup,published⟩⟩).map Saving.store).getD store)
    (hattempt : attempt call ⟨store,⟨point,(call.place d₀).1,backup,published⟩⟩ =
      ((call.folder d₀ store).rename old new).map fun f => ⟨store.put (call.place d₀) f,after⟩)
    (hrename : (call.folder d₀ store).rename old new = some f) :
    Saving.step call ⟨store,⟨point,(call.place d₀).1,backup,published⟩⟩ (.fails .renamed) =
      ⟨store.put (call.place d₀) f,Saver.raise ⟨point,(call.place d₀).1,backup,published⟩⟩ := by
  rw [Saving.step, hspoil, hattempt, hrename]
  rfl

/-- The handler of `save_result` is entered without anything published. -/
theorem enters_tmpLook (htmp : tmp = some 1 ∨ tmp = none)
    (hl : Layout prior tmp (base prior) [] (call.folder d₀ store) ∨
      tidy = false ∧ Layout prior tmp none (aside call prior) (call.folder d₀ store)) (hclean : Clean d₀ store) :
    Phase call prior d₀ tidy (call.unpublished d₀ store .tmpLook) := by
  obtain rfl | rfl := htmp
  · exact .clearing hl trivial hclean
  · exact .cleared (hl.imp_right fun h => ⟨h.1,none,by simp,h.2⟩) (.inl rfl) hclean

section
variable (hf : call.folder d₀ store = .initial prior) (hclean : Clean d₀ store) (e : Event C)
include hf hclean e

theorem step_select : Phase call prior d₀ tidy (Saving.step call ⟨store,⟨.select,"",none,false⟩⟩ e) := by
  cases e with
  | fails => exact of_initial hf hclean
  | proceeds =>
    simp only [Saving.step, attempt]
    split
    · rw [hclean.stored]
      exact .mkdir hf hclean
    · exact of_initial hf hclean

theorem step_mkdir : Phase call prior d₀ tidy (Saving.step call (call.unpublished d₀ store .mkdir) e) := by
  cases e with
  | fails => exact of_initial hf hclean
  | proceeds =>
    have hmkdir : (initial prior).SameBut 1 { (initial prior).mkdir with tmp := none } := ⟨rfl,rfl,rfl,fun _ _ => rfl⟩
    have hl : Layout prior (some 1) (base prior) [] (initial prior).mkdir :=
      ⟨rfl,rfl,rfl,(Layout.initial.sameBut hmkdir).old⟩
    change Phase call prior d₀ tidy ⟨store.put (call.place d₀) (call.folder d₀ store).mkdir,_⟩
    rw [hf]
    exact .building (by rwa [put_folders_self]) (by rw [put_folders_self]; rfl) (hclean.put _ _)

end

variable {point : Point C T} {e : Event C}

section
variable (hl : Layout prior (some 1) (base prior) [] (call.folder d₀ store))
include hl

theorem rename_building (hpoint : Point.Building call prior ((call.folder d₀ store).files 1) .backUp) :
    ∃ f, (call.folder d₀ store).rename .run (.backup call.backupName) = some f ∧
      Layout prior (some 1) none (aside call prior) f ∧ f.files 1 = call.output.files := by
  obtain ⟨hfiles,hprior⟩ := hpoint
  obtain ⟨fs,rfl⟩ := isSome_iff_exists.mp hprior
  exact ⟨_,rename_run hl.run hl.backups,⟨hl.tmp,rfl,rfl,hl.old⟩,hfiles⟩

variable (hpoint : point.Building call prior ((call.folder d₀ store).files 1)) (hclean : Clean d₀ store)
include hpoint hclean

theorem attempt_building (hattempt : attempt call (call.unpublished d₀ store point) = some s) :
    Phase call prior d₀ tidy s := by
  cases point with
  | prepare =>
    cases hattempt
    exact .building hl (by simpa [Point.Building] using hpoint) hclean
  | write rest =>
    cases rest with
    | nil =>
      cases hattempt
      exact .building hl (by simpa [Point.Building] using hpoint) hclean
    | cons file =>
      obtain ⟨name,content⟩ := file
      have hwrite : (call.folder d₀ store).write .tmp name content =
        some ((call.folder d₀ store).store 1 name content) := by
        simp [write, entry, hl.tmp]
      obtain ⟨f,hf,rfl⟩ := map_eq_some_iff.mp hattempt
      cases hwrite.symm.trans hf
      change Phase call prior d₀ tidy ⟨store.put (call.place d₀) _,_⟩
      refine .building ((hl.sameBut (store_sameBut _ name content)).put _) ?_ (hclean.put _ _)
      rw [put_folders_self]
      simp only [Folder.store, Function.update_self, Point.Building]
      rw [Output.filter_written hpoint, List.append_assoc]
      exact hpoint
  | validate rest =>
    cases rest with
    | nil =>
      cases hattempt
      exact .building hl hpoint hclean
    | cons =>
      obtain ⟨_,-,rfl⟩ := map_eq_some_iff.mp hattempt
      exact .building hl hpoint hclean
  | check rest =>
    cases rest with
    | nil =>
      cases hattempt
      exact .building hl hpoint hclean
    | cons =>
      simp only [attempt] at hattempt
      split at hattempt
      · cases hattempt
        exact .building hl hpoint hclean
      · cases hattempt
  | look =>
    cases hattempt
    change Phase call prior d₀ tidy
      ⟨store,⟨if (call.folder d₀ store).run.isSome then .backUp else .publish false,_,_,_⟩⟩
    rw [hl.run]
    cases prior with
    | none => exact .moving hl hpoint hclean
    | some => exact .building hl ⟨hpoint,rfl⟩ hclean
  | backUp =>
    obtain ⟨f,hf,rfl⟩ := map_eq_some_iff.mp hattempt
    obtain ⟨f',hf',hl',hfiles⟩ := rename_building hl hpoint
    cases hf'.symm.trans hf
    obtain ⟨fs,rfl⟩ := isSome_iff_exists.mp hpoint.2
    change Phase call (some fs) d₀ tidy ⟨store.put (call.place d₀) _,_⟩
    exact .moving (hl'.put _) (by rwa [put_folders_self]) (hclean.put _ _)
  | _ => exact hpoint.elim

/-- Steps that build the temporary directory, up to the first rename. -/
theorem step_building (he : point.Permits tidy e) :
    Phase call prior d₀ tidy (Saving.step call (call.unpublished d₀ store point) e) := by
  have hraise : Saver.raise ⟨point,(call.place d₀).1,none,false⟩ =
    (⟨.tmpLook,(call.place d₀).1,none,false⟩ : Saver C T) := by
    cases point <;> first | rfl | exact hpoint.elim
  cases e with
  | fails left =>
    have hkept : Phase call prior d₀ tidy (call.unpublished d₀ store .tmpLook) := .clearing (.inl hl) trivial hclean
    cases point with
    | write =>
      simp only [Saving.step, hraise]
      obtain hspoil | ⟨name,content,hspoil⟩ := spoil_write (s := call.unpublished d₀ store _) hl.tmp rfl left
      · rw [hspoil]
        exact hkept
      · rw [hspoil]
        exact .clearing (.inl ((hl.sameBut (store_sameBut _ name content)).put _)) trivial (hclean.put _ _)
    | backUp =>
      cases left with
      | renamed =>
        obtain ⟨f,hf,hl',-⟩ := rename_building hl hpoint
        rw [step_late rfl rfl hf]
        exact .clearing (.inr ⟨unmended he rfl,hl'.put _⟩) trivial (hclean.put _ _)
      | _ => exact hkept
    | prepare | validate _ | check _ | look => exact hkept
    | _ => exact hpoint.elim
  | proceeds =>
    cases hattempt : attempt call (call.unpublished d₀ store point) with
    | none =>
      rw [step_of_raise hattempt, hraise]
      exact .clearing (.inl hl) trivial hclean
    | some =>
      rw [step_of_attempt hattempt]
      exact attempt_building hl hpoint hclean hattempt

end

/-- The rename that publishes the result. -/
theorem step_moving (hl : Layout prior (some 1) none (aside call prior) (call.folder d₀ store))
    (hfiles : (call.folder d₀ store).files 1 = call.output.files) (hclean : Clean d₀ store)
    (he : (Point.publish prior.isSome : Point C T).Permits tidy e) :
    Phase call prior d₀ tidy (Saving.step call (call.unpublished d₀ store (.publish prior.isSome)) e) := by
  have hl' : Layout prior none (some 1) (aside call prior)
      ((store.put (call.place d₀) { call.folder d₀ store with tmp := none, run := some 1 }).folders (call.place d₀)) :=
    hl.publish.put _
  cases e with
  | fails left =>
    cases left with
    | renamed =>
      rw [step_late rfl rfl (rename_tmp hl.tmp hl.run)]
      cases prior with
      | none => exact .cleared (.inr ⟨unmended he rfl,some 1,by simp,hl'⟩) (.inl rfl) (hclean.put _ _)
      | some => exact .exposed hl' trivial rfl (hclean.put _ _)
    | _ =>
      cases prior with
      | none => exact .clearing (.inl hl) trivial hclean
      | some => exact .stranded hl (.inl rfl) rfl rfl hclean
  | proceeds =>
    have hbackup : (if prior.isSome then some call.backupName else none) = prior.map fun _ => call.backupName := by
      cases prior <;> rfl
    refine step_renaming rfl (rename_tmp hl.tmp hl.run) ?_
    rw [hbackup]
    exact .storing hl' (by rwa [put_folders_self]) (hclean.put _ _)

/-- The earlier directory is put back if that rename has raised. -/
theorem step_stranded (hl : Layout prior tmp none (aside call prior) (call.folder d₀ store))
    (htmp : tmp = some 1 ∨ tmp = none) (hpoint : point.reinstating) (hprior : prior.isSome) (hclean : Clean d₀ store)
    (he : point.Permits tidy e) :
    Phase call prior d₀ tidy (Saving.step call (call.unpublished d₀ store point) e) := by
  obtain ⟨fs,rfl⟩ := isSome_iff_exists.mp hprior
  have hl' : Layout (some fs) tmp (some 0) []
      ((store.put (call.place d₀) { call.folder d₀ store with run := some 0, backups := [] }).folders
        (call.place d₀)) :=
    hl.restore.put _
  have hback : Phase call (some fs) d₀ tidy (call.unpublished d₀
      (store.put (call.place d₀) { call.folder d₀ store with run := some 0, backups := [] }) .tmpLook) :=
    enters_tmpLook htmp (.inl hl') (hclean.put _ _)
  cases e with
  | fails left =>
    cases point with
    | activeLook | publicationLook => exact enters_tmpLook htmp (.inr ⟨untidy he rfl,hl⟩) hclean
    | reinstate =>
      cases left with
      | renamed =>
        rw [step_late rfl rfl (rename_aside hl.run hl.backups)]
        exact hback
      | _ => exact enters_tmpLook htmp (.inr ⟨untidy he rfl,hl⟩) hclean
    | _ => cases hpoint
  | proceeds =>
    cases point with
    | activeLook =>
      rw [step_present rfl (entry_aside hl.backups)]
      exact .stranded hl htmp rfl rfl hclean
    | publicationLook =>
      rw [step_absent rfl hl.run]
      exact .stranded hl htmp rfl rfl hclean
    | reinstate => exact step_renaming rfl (rename_aside hl.run hl.backups) hback
    | _ => cases hpoint

section
variable (hl : Layout prior none (some 1) (aside call prior) (call.folder d₀ store))
include hl

theorem step_exposed (hpoint : point.Exposed (call.folder d₀ store)) (hprior : prior.isSome) (hclean : Clean d₀ store)
    (he : point.Permits tidy e) : Phase call prior d₀ tidy (Saving.step call (call.unpublished d₀ store point) e) := by
  cases e with
  | fails =>
    cases point with
    | activeLook | publicationLook | unpublish _ =>
      exact .cleared (.inr ⟨untidy he rfl,some 1,by simp,hl⟩) (.inl rfl) hclean
    | _ => exact hpoint.elim
  | proceeds =>
    obtain ⟨fs,rfl⟩ := isSome_iff_exists.mp hprior
    cases point with
    | activeLook =>
      rw [step_present rfl (entry_aside hl.backups)]
      exact .exposed hl trivial rfl hclean
    | publicationLook =>
      rw [step_present rfl hl.run]
      exact .exposed hl rfl rfl hclean
    | unpublish r =>
      refine step_removing rfl hpoint hl.run (fun f r htargets hsame => ?_) ?_
      · exact .exposed ((hl.sameBut hsame).put _) (by rwa [put_folders_self]) rfl (hclean.put _ _)
      · exact .stranded (hl.unlink_run.put _) (.inr rfl) rfl rfl (hclean.put _ _)
    | _ => exact hpoint.elim

/-- Steps of the transaction, up to its commit. -/
theorem step_storing (hfiles : (call.folder d₀ store).files 1 = call.output.files)
    (hpoint : point.Storing call d₀ store) (e : Event C) :
    Phase call prior d₀ tidy
      (Saving.step call (call.published prior d₀ store point) e) := by
  have hs : Unsaved d₀ store := by
    cases point with
    | update => exact hpoint.unsaved
    | insertTrade _ | insertArtifact _ | commit =>
      obtain ⟨hstored,d,hwriter,-⟩ := hpoint
      exact ⟨hstored,by simp [locked, hwriter]⟩
    | _ => exact hpoint.elim
  have hraise : Saver.raise ⟨point,(call.place d₀).1,prior.map fun _ => call.backupName,true⟩ =
      ⟨.rollback,(call.place d₀).1,prior.map fun _ => call.backupName,true⟩ := by
    cases point with
    | update | insertTrade _ | insertArtifact _ | commit => rfl
    | _ => exact hpoint.elim
  cases e with
  | fails left =>
    have hspoil : spoil call (call.published prior d₀ store point) left = store := by
      apply spoil_of_not_lasting
      cases point with
      | write _ | backUp | publish _ | reinstate | restore => exact hpoint.elim
      | _ => rfl
    simp only [Saving.step]
    rw [hspoil, hraise]
    exact .revoking hl hs
  | proceeds =>
    cases hattempt : attempt call (call.published prior d₀ store point) with
    | none =>
      rw [step_of_raise hattempt, hraise]
      exact .revoking hl hs
    | some =>
      rw [step_of_attempt hattempt]
      cases point with
      | update =>
        simp only [attempt, statement, hs.mine] at hattempt
        cases hattempt
        refine .storing hl hfiles ⟨hpoint.stored,_,rfl,?_⟩
        simp [SaveCall.DoneIn, view, hpoint.stored, hpoint.writer]
      | insertTrade rest =>
        obtain ⟨hstored,d,hwriter,hdone⟩ := hpoint
        cases rest with
        | nil =>
          cases hattempt
          exact .storing hl hfiles ⟨hstored,d,hwriter,hdone⟩
        | cons =>
          simp only [attempt, statement, hs.mine, view, hwriter] at hattempt
          obtain ⟨d',hd',rfl⟩ := map_eq_some_iff.mp hattempt
          obtain ⟨trades,-,rfl⟩ := map_eq_some_iff.mp hd'
          exact .storing hl hfiles ⟨hstored,_,rfl,hdone⟩
      | insertArtifact rest =>
        obtain ⟨hstored,d,hwriter,hdone⟩ := hpoint
        cases rest with
        | nil =>
          cases hattempt
          exact .storing hl hfiles ⟨hstored,d,hwriter,hdone⟩
        | cons =>
          obtain ⟨count,-,hstatement⟩ := bind_eq_some_iff.mp hattempt
          simp only [statement, hs.mine, view, hwriter] at hstatement
          obtain ⟨d',hd',rfl⟩ := map_eq_some_iff.mp hstatement
          obtain ⟨artifacts,-,rfl⟩ := map_eq_some_iff.mp hd'
          exact .storing hl hfiles ⟨hstored,_,rfl,hdone⟩
      | commit =>
        obtain ⟨hstored,d,hwriter,hdone⟩ := hpoint
        cases hattempt
        have hcommit : store.commit .saver = { store with stored := d, writer := none } := by simp [commit, hwriter]
        rw [hcommit]
        exact .saved hl.run hfiles hdone (.inl hl.backups)
      | _ => exact hpoint.elim

theorem step_revoking (hs : Unsaved d₀ store) (he : (Point.rollback : Point C T).Permits tidy e) :
    Phase call prior d₀ tidy
      (Saving.step call (call.published prior d₀ store .rollback) e) := by
  cases e with
  | fails => exact .withdrawing hl trivial hs (of_untidy (untidy he rfl))
  | proceeds => exact .withdrawing hl trivial hs.rollback.unsaved fun _ => hs.rollback

end

theorem step_clearing (hl : Layout prior (some 1) (base prior) [] (call.folder d₀ store) ∨
      tidy = false ∧ Layout prior (some 1) none (aside call prior) (call.folder d₀ store))
    (hpoint : point.Clearing (call.folder d₀ store)) (hclean : Clean d₀ store)
    (he : point.Permits tidy e) :
    Phase call prior d₀ tidy (Saving.step call (call.unpublished d₀ store point) e) := by
  have htmp : (call.folder d₀ store).tmp = some 1 := hl.elim (·.tmp) (·.2.tmp)
  cases e with
  | fails =>
    cases point with
    | tmpLook | removeTmp r =>
      obtain hl | ⟨-,hl⟩ := hl
      · exact ends_untidy hl (by simp) (.inl rfl) hclean.unsaved (untidy he rfl)
      · exact ends_untidy hl (by simp) (.inr ⟨rfl,by simp⟩) hclean.unsaved (untidy he rfl)
    | _ => exact hpoint.elim
  | proceeds =>
    cases point with
    | tmpLook =>
      rw [step_present rfl htmp]
      exact .clearing hl rfl hclean
    | removeTmp r =>
      refine step_removing rfl hpoint htmp (fun f r htargets hsame => ?_) ?_
      · refine .clearing ?_ (by rwa [put_folders_self]) (hclean.put _ _)
        exact hl.imp (fun h => (h.sameBut hsame).put _) fun h => ⟨h.1,(h.2.sameBut hsame).put _⟩
      · refine .cleared ?_ (.inr (.inl rfl)) (hclean.put _ _)
        exact hl.imp (fun h => h.unlink_tmp.put _) fun h => ⟨h.1,none,by simp,h.2.unlink_tmp.put _⟩
    | _ => exact hpoint.elim

theorem step_cleared (hl : Layout prior none (base prior) [] (call.folder d₀ store) ∨
      tidy = false ∧ ∃ run, run ≠ some 0 ∧ Layout prior none run (aside call prior) (call.folder d₀ store))
    (hpoint : point = .tmpLook ∨ point = .backupLook ∨ point = .publishedLook) (hclean : Clean d₀ store) (e : Event C) :
    Phase call prior d₀ tidy (Saving.step call (call.unpublished d₀ store point) e) := by
  have hraised : Phase call prior d₀ tidy (call.unpublished d₀ store .raised) := by
    obtain hl | ⟨htidy,run,hrun,hl⟩ := hl
    · exact ends_restored hl hclean.unsaved fun _ => hclean
    · exact ends_untidy hl (by simp) (.inr ⟨rfl,hrun⟩) hclean.unsaved htidy
  obtain rfl | rfl | rfl := hpoint
  · cases e with
    | fails => exact hraised
    | proceeds =>
      have htmp : (call.folder d₀ store).tmp = none := hl.elim (·.tmp) fun h => h.2.elim fun _ h => h.2.tmp
      rw [step_absent rfl htmp]
      exact .cleared hl (.inr (.inl rfl)) hclean
  · cases e with
    | fails => exact hraised
    | proceeds => exact .cleared hl (.inr (.inr rfl)) hclean
  · cases e with
    | fails | proceeds => exact hraised

/-- The publication is withdrawn if the transaction has failed. -/
theorem step_withdrawing (hl : Layout prior none (some 1) (aside call prior) (call.folder d₀ store))
    (hpoint : point.Withdrawing prior (call.folder d₀ store)) (hs : Unsaved d₀ store)
    (htidy : tidy = true → Clean d₀ store) (he : point.Permits tidy e) :
    Phase call prior d₀ tidy
      (Saving.step call (call.published prior d₀ store point) e) := by
  cases e with
  | fails =>
    cases point with
    | tmpLook | backupLook | runLook | removeRun _ | publishedLook | removePublished _ =>
      exact ends_untidy hl (by simp) (.inr ⟨rfl,by simp⟩) hs (untidy he rfl)
    | _ => exact hpoint.elim
  | proceeds =>
    cases point with
    | tmpLook =>
      rw [step_absent rfl hl.tmp]
      exact .withdrawing hl trivial hs htidy
    | backupLook =>
      cases prior with
      | none => exact .withdrawing hl rfl hs htidy
      | some =>
        rw [step_present rfl (entry_aside hl.backups)]
        exact .withdrawing hl rfl hs htidy
    | runLook | publishedLook =>
      rw [step_present rfl hl.run]
      exact .withdrawing hl ⟨hpoint,rfl⟩ hs htidy
    | removeRun r =>
      obtain ⟨hprior,hpoint⟩ := hpoint
      refine step_removing rfl hpoint hl.run (fun f r htargets hsame => ?_) ?_
      · refine .withdrawing ((hl.sameBut hsame).put _) ⟨hprior,?_⟩ (hs.put _ _) fun h => (htidy h).put _ _
        rwa [put_folders_self]
      · exact .restoring (hl.unlink_run.put _) hprior (hs.put _ _) fun h => (htidy h).put _ _
    | removePublished r =>
      obtain ⟨rfl,hpoint⟩ := hpoint
      refine step_removing rfl hpoint hl.run (fun f r htargets hsame => ?_) ?_
      · refine .withdrawing ((hl.sameBut hsame).put _) ⟨rfl,?_⟩ (hs.put _ _) fun h => (htidy h).put _ _
        rwa [put_folders_self]
      · exact ends_restored (hl.unlink_run.put _) (hs.put _ _) fun h => (htidy h).put _ _
    | _ => exact hpoint.elim

theorem step_restoring (hl : Layout prior none none (aside call prior) (call.folder d₀ store)) (hprior : prior.isSome)
    (hs : Unsaved d₀ store) (htidy : tidy = true → Clean d₀ store)
    (he : (Point.restore : Point C T).Permits tidy e) :
    Phase call prior d₀ tidy
      (Saving.step call (call.published prior d₀ store .restore) e) := by
  obtain ⟨fs,rfl⟩ := isSome_iff_exists.mp hprior
  have hback {strategyId : String} {backup : Option ℕ} {published : Bool} : Phase call (some fs) d₀ tidy
      ⟨store.put (call.place d₀) { call.folder d₀ store with run := some 0, backups := [] },
        ⟨.raised,strategyId,backup,published⟩⟩ :=
    ends_restored (hl.restore.put _) (hs.put _ _) fun h => (htidy h).put _ _
  cases e with
  | fails left =>
    cases left with
    | renamed =>
      rw [step_late rfl rfl (rename_aside hl.run hl.backups)]
      exact hback
    | _ => exact ends_untidy hl (by simp) (.inr ⟨rfl,by simp⟩) hs (untidy he rfl)
  | proceeds => exact step_renaming rfl (rename_aside hl.run hl.backups) hback

/-- Steps after the commit. -/
theorem step_saved (hrun : (call.folder d₀ store).run = some 1)
    (hfiles : (call.folder d₀ store).files 1 = call.output.files) (hdone : call.DoneIn d₀ store.stored)
    (hpoint : point.Saved call prior (call.folder d₀ store) ∨ tidy = false ∧ point = .raised)
    (he : point.Permits tidy e) :
    Phase call prior d₀ tidy
      (Saving.step call (call.published prior d₀ store point) e) := by
  obtain hpoint | ⟨htidy,rfl⟩ := hpoint
  · cases e with
    | fails =>
      cases point with
      | staleLook => exact .saved hrun hfiles hdone (.inr ⟨untidy he rfl,rfl⟩)
      | removeStale _ | returned => exact .saved hrun hfiles hdone (.inl trivial)
      | _ => exact hpoint.elim
    | proceeds =>
      cases point with
      | staleLook =>
        cases prior with
        | none => exact .saved hrun hfiles hdone (.inl trivial)
        | some =>
          rw [step_present rfl (entry_aside hpoint)]
          exact .saved hrun hfiles hdone (.inl ⟨hpoint,rfl,rfl⟩)
      | removeStale r =>
        obtain ⟨hbackups,hprior,hpoint⟩ := hpoint
        obtain ⟨fs,rfl⟩ := isSome_iff_exists.mp hprior
        refine step_removing rfl hpoint (entry_aside hbackups) (fun f r htargets hsame => ?_) ?_
        · refine .saved ?_ ?_ hdone (.inl ?_)
          · rw [put_folders_self, hsame.run, hrun]
          · rw [put_folders_self, hsame.files 1 (by decide), hfiles]
          · rw [put_folders_self]
            exact ⟨hsame.backups.trans hbackups,rfl,htargets⟩
        · exact .saved (by rwa [put_folders_self]) (by rwa [put_folders_self]) hdone (.inl trivial)
      | returned => exact .saved hrun hfiles hdone (.inl trivial)
      | _ => exact hpoint.elim
  · cases e with
    | fails | proceeds => exact .saved hrun hfiles hdone (.inr ⟨htidy,rfl⟩)

/-- Every step leads from phase to phase. -/
theorem step (h : Phase call prior d₀ tidy s) (he : s.saver.point.Permits tidy e) :
    Phase call prior d₀ tidy (s.step call e) := by
  cases h with
  | select hf hclean => exact step_select hf hclean e
  | mkdir hf hclean => exact step_mkdir hf hclean e
  | building hl hpoint hclean => exact step_building hl hpoint hclean he
  | moving hl hfiles hclean => exact step_moving hl hfiles hclean he
  | stranded hl htmp hpoint hprior hclean => exact step_stranded hl htmp hpoint hprior hclean he
  | exposed hl hpoint hprior hclean => exact step_exposed hl hpoint hprior hclean he
  | storing hl hfiles hpoint => exact step_storing hl hfiles hpoint e
  | revoking hl hs => exact step_revoking hl hs he
  | clearing hl hpoint hclean => exact step_clearing hl hpoint hclean he
  | cleared hl hpoint hclean => exact step_cleared hl hpoint hclean e
  | withdrawing hl hpoint hs htidy => exact step_withdrawing hl hpoint hs htidy he
  | restoring hl hprior hs htidy => exact step_restoring hl hprior hs htidy he
  | raised hl hsafe hs htidy =>
    cases e with
    | fails | proceeds => exact .raised hl hsafe hs htidy
  | saved hrun hfiles hdone hpoint => exact step_saved hrun hfiles hdone hpoint he

/-- After any run the saving is in one of the phases. -/
theorem of_run (h : Phase call prior d₀ tidy s) {events : List (Event C)}
    (hevents : tidy = true → ∀ e ∈ events, e.failing = false) :
    Phase call prior d₀ tidy (Runs.run (Saving.step call) s events) := by
  refine run_invariant_of_mem (fun s e he hs => hs.step fun htidy left hfails => ?_) h
  cases hfails
  cases hevents htidy _ he

end Phase
end OpenPine.Backtests
