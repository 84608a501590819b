import OpenPine.Backtests.CrashRecovery
import Mathlib.Data.Prod.Lex

/-! # A call of `save_result` in which a step raises

A step that is not there to clean up raises, for a reason of its own or because something
makes it fail, and all steps after it proceed.
-/
namespace OpenPine.Backtests
open Runs Option
variable {C R T : Type} {call : SaveCall C R T} {prior : Option (Files C)} {d₀ : Db R T} {s : Saving C R T}
  {e : Event C}

def Saving.Raises (call : SaveCall C R T) (s : Saving C R T) (e : Event C) : Prop :=
  s.saver.point.ended = false ∧ (e.failing = false → s.attempt call = none)

def Point.condemned : Point C T → Bool
  | .activeLook | .publicationLook | .unpublish _ | .reinstate | .rollback | .tmpLook | .removeTmp _
  | .backupLook | .runLook
  | .removeRun _ | .restore | .publishedLook | .removePublished _ | .raised => true
  | _ => false

theorem Saver.condemned_raise {v : Saver C T} (hended : v.point.ended = false) (h : v.point.cleanUp = false) :
    v.raise.point.condemned = true := by
  obtain ⟨point,strategyId,backup,published⟩ := v
  cases point with
  | publish active => cases active <;> rfl
  | staleLook | removeStale _ => cases h
  | returned => cases hended
  | _ => rfl

/-- A step that raises outside of the clean-up leads into it. -/
theorem Saving.condemned_step (h : s.Raises call e) (hpoint : s.saver.point.cleanUp = false) :
    (s.step call e).saver.point.condemned = true := by
  cases e with
  | fails => exact Saver.condemned_raise h.1 hpoint
  | proceeds =>
    rw [Saving.step_of_raise (h.2 rfl)]
    exact Saver.condemned_raise h.1 hpoint

/-! ### The handlers come to an end -/

def Removal.rank : Removal → ℕ ×ₗ ℕ
  | .enter _ => toLex (2, 0)
  | .children _ _ names => toLex (1, names.length)
  | .rmdir _ => toLex (0, 0)

def Point.stage : Point C T → ℕ
  | .activeLook => 11
  | .publicationLook => 10
  | .unpublish _ => 9
  | .reinstate | .rollback => 8
  | .tmpLook => 7
  | .removeTmp _ => 6
  | .backupLook => 5
  | .runLook => 4
  | .removeRun _ => 3
  | .restore | .publishedLook => 2
  | .removePublished _ => 1
  | _ => 0

def Point.removal : Point C T → ℕ ×ₗ ℕ
  | .unpublish r | .removeTmp r | .removeRun r | .removePublished r => r.rank
  | _ => toLex (0, 0)

/-- How far the handlers are from their end: first the step, then what is left to remove. -/
def Point.rank (point : Point C T) : ℕ ×ₗ (ℕ ×ₗ ℕ) := toLex (point.stage, point.removal)

structure Point.Advances (point point' : Point C T) : Prop where
  condemned : point'.condemned = true
  rank : point'.rank < point.rank

theorem Point.Advances.of_stage {point point' : Point C T}
    (h : (point'.condemned && decide (point'.stage < point.stage)) = true) :
    point.Advances point' := by
  obtain ⟨hcondemned,hstage⟩ := Bool.and_eq_true_iff.mp h
  exact ⟨hcondemned,Prod.Lex.toLex_lt_toLex.mpr (.inl (of_decide_eq_true hstage))⟩

theorem Removal.rank_step {f f' : Folder C} {r r' : Removal} (h : r.step f = some (f', some r')) :
    r'.rank < r.rank := by
  cases r with
  | enter =>
    obtain ⟨inode,-,heq⟩ := map_eq_some_iff.mp h
    cases heq
    exact Prod.Lex.toLex_lt_toLex.mpr (.inl (by simp))
  | children _ _ names =>
    cases names with
    | nil =>
      cases h
      exact Prod.Lex.toLex_lt_toLex.mpr (.inl (by simp))
    | cons =>
      cases h
      exact Prod.Lex.toLex_lt_toLex.mpr (.inr ⟨rfl,Nat.lt_succ_self _⟩)
  | rmdir =>
    obtain ⟨-,-,-,-,hnext⟩ := Removal.rmdir_some h
    cases hnext

theorem Saving.advances_removing {s' : Saving C R T} {r : Removal} {again : Removal → Point C T} {after : Point C T}
    (h : s.removing call r again after = some s')
    (hagain : ∀ r', (again r').condemned = true ∧ (again r').rank = toLex ((again r).stage, r'.rank))
    (hafter : (after.condemned && decide (after.stage < (again r).stage)) = true) :
    (again r).Advances s'.saver.point := by
  obtain ⟨⟨f,next⟩,hr,rfl⟩ := map_eq_some_iff.mp h
  cases next with
  | none => exact .of_stage hafter
  | some r' =>
    refine ⟨(hagain r').1,?_⟩
    change (again r').rank < _
    rw [(hagain r').2, (hagain r).2]
    exact Prod.Lex.toLex_lt_toLex.mpr (.inr ⟨rfl,Removal.rank_step hr⟩)

/-- The clean-up goes on with every step. -/
theorem Saving.advances_attempt {s' : Saving C R T} (hpoint : s.saver.point.condemned = true)
    (hraised : s.saver.point ≠ .raised) (h : s.attempt call = some s') : s.saver.point.Advances s'.saver.point := by
  obtain ⟨store,⟨point,strategyId,backup,published⟩⟩ := s
  cases point with
  | activeLook | publicationLook | tmpLook | backupLook | runLook | publishedLook =>
    cases h
    simp only [Saving.goto, Saver.goto]
    split
    · exact .of_stage rfl
    · exact .of_stage rfl
  | unpublish r | removeTmp r | removeRun r | removePublished r => exact advances_removing h (fun _ => ⟨rfl,rfl⟩) rfl
  | reinstate =>
    obtain ⟨f,-,rfl⟩ := map_eq_some_iff.mp h
    exact .of_stage rfl
  | restore =>
    obtain ⟨b,-,hmap⟩ := bind_eq_some_iff.mp h
    obtain ⟨f,-,rfl⟩ := map_eq_some_iff.mp hmap
    exact .of_stage rfl
  | rollback =>
    cases h
    exact .of_stage rfl
  | raised => exact absurd rfl hraised
  | _ => cases hpoint

theorem Saver.advances_raise {v : Saver C T} (hpoint : v.point.condemned = true) (hraised : v.point ≠ .raised) :
    v.point.Advances v.raise.point := by
  obtain ⟨point,strategyId,backup,published⟩ := v
  cases point with
  | activeLook | publicationLook | unpublish _ | reinstate | rollback | tmpLook | removeTmp _ | backupLook | runLook
  | removeRun _
  | restore | publishedLook | removePublished _ => exact .of_stage rfl
  | raised => exact absurd rfl hraised
  | _ => cases hpoint

/-- Steps that proceed lead to the end of the call, by way of an exception. -/
theorem Saving.fails_of_condemned (h : s.saver.point.condemned = true) :
    ∃ t, Reaches (Saving.step call) .proceeds s t ∧ t.saver.point = .raised := by
  induction hrank : s.saver.point.rank using WellFoundedLT.induction generalizing s with
  | ind rank ih =>
    subst hrank
    by_cases hraised : s.saver.point = .raised
    · exact ⟨s,.refl _ s,hraised⟩
    · have hnext : s.saver.point.Advances (s.step call .proceeds).saver.point := by
        cases hattempt : s.attempt call with
        | none =>
          rw [Saving.step_of_raise hattempt]
          exact Saver.advances_raise h hraised
        | some =>
          rw [Saving.step_of_attempt hattempt]
          exact advances_attempt h hraised hattempt
      obtain ⟨t,hreaches,ht⟩ := ih _ hnext.rank hnext.condemned rfl
      exact ⟨t,.head rfl hreaches,ht⟩

/-! ### Nothing of the call remains -/

/-- Where a tidy run has raised, everything is as before. -/
theorem Phase.restored (h : Phase call prior d₀ true s) (hraised : s.saver.point = .raised) :
    s.store.stored = d₀ ∧ s.store.writer = none ∧ (s.store.folders (call.place d₀)).content = prior ∧
      (s.store.folders (call.place d₀)).tmp = none ∧ (s.store.folders (call.place d₀)).backups = [] := by
  cases h with
  | raised hl _ _ htidy =>
    obtain ⟨rfl,rfl,rfl,hclean⟩ := htidy rfl
    refine ⟨hclean.stored,hclean.writer,?_,hl.tmp,hl.backups⟩
    unfold Folder.content
    rw [hl.run]
    cases hprior : prior with
    | none => rfl
    | some fs => exact congrArg some (hl.old fs hprior)
  | saved _ _ _ hpoint =>
    obtain hpoint | ⟨htidy,-⟩ := hpoint
    · subst hraised
      exact hpoint.elim
    · cases htidy
  | building hl hpoint hclean | exposed hl hpoint hprior hclean | clearing hl hpoint hclean
  | withdrawing hl hpoint hs htidy | storing hl hfiles hpoint =>
    subst hraised
    exact hpoint.elim
  | stranded _ _ hpoint =>
    subst hraised
    cases hpoint
  | cleared _ hpoint =>
    subst hraised
    simp at hpoint
  | _ => cases hraised

/-! ### What a late rename leaves -/

/-- The handler of `save_result` without a backup and without a publication: it has only the temporary directory to
remove. -/
def Point.abandoning : Point C T → Bool
  | .tmpLook | .backupLook | .publishedLook | .raised => true
  | .removeTmp (.enter .tmp) | .removeTmp (.children .tmp _ _) | .removeTmp (.rmdir .tmp) => true
  | _ => false

structure Saving.Abandons (call : SaveCall C R T) (d₀ : Db R T) (run : Option ℕ) (backups : List (ℕ × ℕ))
    (s : Saving C R T) :
    Prop where
  saver : s.saver = ⟨s.saver.point,(call.place d₀).1,none,false⟩
  point : s.saver.point.abandoning = true
  run : (s.store.folders (call.place d₀)).run = run
  backups : (s.store.folders (call.place d₀)).backups = backups

section Abandons
variable {run : Option ℕ} {backups : List (ℕ × ℕ)}

/-- A directory that the clean-up does not know of is left where it is. -/
theorem Saving.Abandons.step (h : s.Abandons call d₀ run backups) :
    (s.step call .proceeds).Abandons call d₀ run backups := by
  obtain ⟨store,⟨point,strategyId,backup,published⟩⟩ := s
  obtain ⟨hsaver,hpoint,hrun,hbackups⟩ := h
  cases hsaver
  have hremoving {f : Folder C} {point : Point C T} (hpoint : point.abandoning = true) (hrun : f.run = run)
      (hbackups : f.backups = backups) :
      Abandons call d₀ run backups ⟨store.put (call.place d₀) f,⟨point,(call.place d₀).1,none,false⟩⟩ :=
    ⟨rfl,hpoint,by rwa [Store.put_folders_self],by rwa [Store.put_folders_self]⟩
  cases point with
  | tmpLook =>
    rw [step_of_attempt rfl]
    simp only [Saving.goto, Saver.goto]
    split
    · exact ⟨rfl,rfl,hrun,hbackups⟩
    · exact ⟨rfl,rfl,hrun,hbackups⟩
  | backupLook | publishedLook | raised => exact ⟨rfl,rfl,hrun,hbackups⟩
  | removeTmp r =>
    cases hattempt : attempt call ⟨store,⟨.removeTmp r,(call.place d₀).1,none,false⟩⟩ with
    | none =>
      rw [step_of_raise hattempt]
      exact ⟨rfl,rfl,hrun,hbackups⟩
    | some s' =>
      rw [step_of_attempt hattempt]
      obtain ⟨⟨f,next⟩,hr,rfl⟩ := map_eq_some_iff.mp hattempt
      cases r with
      | enter place =>
        cases place with
        | tmp =>
          obtain ⟨inode,-,heq⟩ := map_eq_some_iff.mp hr
          cases heq
          exact hremoving rfl hrun hbackups
        | _ => cases hpoint
      | children place inode names =>
        cases place with
        | tmp => cases names <;> cases hr <;> exact hremoving rfl hrun hbackups
        | _ => cases hpoint
      | rmdir place =>
        cases place with
        | tmp =>
          obtain ⟨inode,-,-,rfl,rfl⟩ := Removal.rmdir_some hr
          exact hremoving rfl hrun hbackups
        | _ => cases hpoint
  | _ => cases hpoint

theorem Saving.Abandons.of_reaches {t : Saving C R T} (h : s.Abandons call d₀ run backups)
    (hreaches : Reaches (Saving.step call) .proceeds s t) : t.Abandons call d₀ run backups := by
  obtain ⟨n,rfl⟩ := hreaches
  refine run_invariant_of_mem (fun s e he hs => ?_) h
  rw [List.eq_of_mem_replicate he]
  exact hs.step

end Abandons

/-- A rename that is made and then raises has moved the earlier result aside, or published the first one, without a
variable that says so. -/
theorem Phase.abandons_late (h : Phase call prior d₀ true s)
    (hpoint : s.saver.point = .backUp ∨ s.saver.point = .publish false) :
    ∃ run backups, (s.step call (.fails .renamed)).Abandons call d₀ run backups ∧
      (backups ≠ [] ∨ run ≠ none ∧ prior = none) := by
  cases h with
  | building hl hbuilding =>
    obtain rfl | rfl := hpoint
    · obtain ⟨fs,rfl⟩ := isSome_iff_exists.mp hbuilding.2
      refine ⟨none,[(call.backupName, 0)],?_,.inl (by simp)⟩
      rw [Phase.step_late rfl rfl (Folder.rename_run hl.run hl.backups)]
      exact ⟨rfl,rfl,by rw [Store.put_folders_self],by rw [Store.put_folders_self]⟩
    · exact hbuilding.elim
  | moving hl =>
    cases prior with
    | none =>
      refine ⟨some 1,[],?_,.inr ⟨by simp,rfl⟩⟩
      rw [Phase.step_late rfl rfl (Folder.rename_tmp hl.tmp hl.run)]
      exact ⟨rfl,rfl,by rw [Store.put_folders_self],by rw [Store.put_folders_self]; exact hl.backups⟩
    | some => simp at hpoint
  | stranded _ _ hother | cleared _ hother =>
    obtain rfl | rfl := hpoint
    · simp [Point.reinstating] at hother
    · simp [Point.reinstating] at hother
  | exposed _ hother | clearing _ hother | storing _ _ hother | withdrawing _ hother | saved _ _ _ hother =>
    obtain rfl | rfl := hpoint
    · simp [Point.Exposed, Point.Clearing, Point.Storing, Point.Withdrawing, Point.Saved] at hother
    · simp [Point.Exposed, Point.Clearing, Point.Storing, Point.Withdrawing, Point.Saved] at hother
  | _ => simp at hpoint

/-- A single step raises, and all that clean up proceed: the call raises. The database and the
directories are as they were, unless the step is a rename that was made all the same: of the
earlier run directory to its backup, or of the first result of the run to its place. -/
theorem failed_save_restored_iff (call : SaveCall C R T) (prior : Option (Files C)) (store : Store C R T)
    (hfolder : store.folders (call.place store.stored) = .initial prior) (hwriter : store.writer = none) (n : ℕ)
    (e : Event C) :
    let s := run (Saving.step call) ⟨store,.start⟩ (List.replicate n .proceeds)
    s.saver.point.cleanUp = false → s.Raises call e →
    ∃ t, Reaches (Saving.step call) .proceeds (s.step call e) t ∧ t.saver.point = .raised ∧
      ((t.store.stored = store.stored ∧ t.store.writer = none ∧
        (t.store.folders (call.place store.stored)).content = prior ∧
        (t.store.folders (call.place store.stored)).tmp = none ∧
          (t.store.folders (call.place store.stored)).backups = []) ↔
      ¬(e = .fails .renamed ∧ (s.saver.point = .backUp ∨ s.saver.point = .publish false))) := by
  intro s hpoint hraises
  have hproceeds : ∀ k, true = true → ∀ e ∈ List.replicate k (Event.proceeds : Event C), e.failing = false := by
    intro k _ e he
    rw [List.eq_of_mem_replicate he]
    rfl
  have hstart : Phase call prior store.stored true ⟨store,.start⟩ := .select hfolder ⟨rfl,hwriter⟩
  have hphase : Phase call prior store.stored true s := hstart.of_run (hproceeds n)
  obtain ⟨t,hreaches,hraised⟩ : ∃ t, Reaches (Saving.step call) .proceeds (s.step call e) t ∧ _ :=
    Saving.fails_of_condemned (Saving.condemned_step hraises hpoint)
  refine ⟨t,hreaches,hraised,?_⟩
  constructor
  · rintro ⟨-,-,hcontent,-,hbackups⟩ ⟨rfl,hlate⟩
    obtain ⟨run,backups,habandons,hleft⟩ := hphase.abandons_late hlate
    have hend := habandons.of_reaches hreaches
    obtain hleft | ⟨hrun,rfl⟩ := hleft
    · exact hleft (hend.backups.symm.trans hbackups)
    · rw [Folder.content, hend.run] at hcontent
      exact hrun (map_eq_none_iff.mp hcontent)
  · intro hmended
    obtain ⟨m,rfl⟩ := hreaches
    have hs : Phase call prior store.stored true (s.step call e) := hphase.step fun _ left hfails => ⟨hpoint,?_⟩
    · exact (hs.of_run (hproceeds m)).restored hraised
    · subst hfails
      cases left with
      | renamed =>
        cases hp : s.saver.point with
        | backUp => exact absurd ⟨rfl,.inl hp⟩ hmended
        | publish active =>
          cases active with
          | false => exact absurd ⟨rfl,.inr hp⟩ hmended
          | true => rfl
        | _ => rfl
      | _ => cases s.saver.point <;> first | rfl | (rename_i active; cases active <;> rfl)

/-- The commit fails. -/
theorem failed_commit_restores :
    let s := run (Saving.step .sample) ⟨.sample none,.start⟩ (List.replicate 19 .proceeds)
    s.saver.point.cleanUp = false ∧ ∃ t, Reaches (Saving.step .sample) .proceeds (s.step .sample (.fails .nothing)) t ∧
      t.saver.point = .raised ∧ t.store.stored = (Store.sample none).stored ∧ t.store.writer = none ∧
      (t.store.folders ("trend", "run_1")).content = none ∧ (t.store.folders ("trend", "run_1")).tmp = none ∧
      (t.store.folders ("trend", "run_1")).backups = [] := by
  have hcommit : (run (Saving.step .sample) ⟨.sample none,.start⟩ (List.replicate 19 .proceeds)).saver.point.cleanUp =
    false := by
    decide +kernel
  have hended : (run (Saving.step .sample) ⟨.sample none,.start⟩ (List.replicate 19 .proceeds)).saver.point.ended =
    false := by
    decide +kernel
  have hplace : SaveCall.sample.place (Store.sample none).stored = ("trend", "run_1") := rfl
  obtain ⟨t,hreaches,hraised,hiff⟩ := failed_save_restored_iff .sample none (.sample none) rfl rfl 19
    (.fails .nothing) hcommit
    ⟨hended,by simp [Event.failing]⟩
  rw [hplace] at hiff
  exact ⟨hcommit,t,hreaches,hraised,hiff.mpr (by simp)⟩

/-- The first result of a run is published by a rename that raises, and its directory stays. -/
theorem late_publication_stays :
    let t := run (Saving.step .sample) ⟨.sample none,.start⟩
      (List.replicate 13 .proceeds ++ .fails .renamed :: List.replicate 3 .proceeds)
    t.saver.point matches .raised ∧ t.store.stored.status "run_1" = some .running ∧
      (t.store.folders ("trend", "run_1")).content = some [("report.json", 1), ("report.md", 2)] := by decide +kernel

end OpenPine.Backtests
