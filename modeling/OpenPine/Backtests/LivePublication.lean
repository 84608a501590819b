import OpenPine.Backtests.LiveRecovery

/-! # The publication of a result that is left alone

As long as the recovery takes nothing away from the directory of the result once its
artifacts are checked, a run that is done has its artifacts, at every moment and for every
order of the steps. The temporary directory is inode 1.
-/
namespace OpenPine.Backtests
open Saving List Option
variable {C R T : Type} (call : SaveCall C R T)

/-! ### The directory of the result -/

structure SaveCall.Whole (fs : Files C) : Prop where
  mine : ∀ e ∈ fs, e ∈ call.output.files
  all : ∀ a ∈ call.output.artifacts, a.filename ∈ fs.map Prod.fst

structure Foreign (f : Folder C) : Prop where
  run : f.run ≠ some 1
  backups : ∀ p ∈ f.backups, p.2 ≠ 1

structure Unborn (f : Folder C) : Prop extends Foreign f where
  tmp : f.tmp = none
  fresh : f.fresh = 1
  files : f.files 1 = []

structure Drafted (fs : Files C) (f : Folder C) : Prop extends Foreign f where
  tmp : f.tmp = some 1 ∨ f.tmp = none
  files : ∀ e ∈ f.files 1, e ∈ fs

structure Ready (f : Folder C) : Prop extends Foreign f where
  tmp : f.tmp = some 1
  whole : call.Whole (f.files 1)

structure Public (f : Folder C) : Prop where
  run : f.run = some 1
  tmp : f.tmp ≠ some 1
  backups : ∀ p ∈ f.backups, p.2 ≠ 1
  whole : call.Whole (f.files 1)

structure Checked (rest : List ArtifactType) (f : Folder C) : Prop extends Drafted call.output.files f where
  found : ∃ checked, checked ++ rest = call.output.artifacts ∧ (checked ≠ [] → f.tmp = some 1) ∧
    ∀ a ∈ checked, a.filename ∈ (f.files 1).map Prod.fst

def Point.Fits (f : Folder C) : Point C T → Prop
  | .select | .mkdir => Unborn f
  | .prepare => Drafted [] f
  | .write rest => ∃ written, written ++ rest = call.output.files ∧ Drafted written f
  | .validate _ => Drafted call.output.files f
  | .check rest => Checked call rest f
  | .look | .backUp | .publish _ => Ready call f
  | .update | .insertTrade _ | .insertArtifact _ | .commit => Public call f
  | _ => True

variable {call} {f f' : Folder C} {rest : List ArtifactType}

theorem SaveCall.Whole.ne_nil {fs : Files C} (h : call.Whole fs) : fs ≠ [] := by
  rintro rfl
  have hreport : ArtifactType.reportJson ∈ call.output.artifacts := by simp [Output.artifacts]
  simpa using h.all _ hreport

theorem Foreign.eroded (h : Foreign f) (he : f.Eroded f') : Foreign f' := by
  refine ⟨?_,fun p hp => h.backups p (he.backups p hp)⟩
  obtain hrun | ⟨-,hrun⟩ := he.run
  · rw [hrun]
    exact h.run
  · intro hf'
    obtain ⟨p,hp,hpi⟩ := hrun 1 hf'
    exact h.backups p hp hpi

theorem Unborn.eroded (h : Unborn f) (he : f.Eroded f') : Unborn f' := by
  refine ⟨h.toForeign.eroded he,?_,by rw [he.fresh, h.fresh],?_⟩
  · obtain htmp | ⟨htmp,-⟩ := he.tmp
    · rw [htmp, h.tmp]
    · exact htmp
  · refine eq_nil_iff_forall_not_mem.mpr fun e hmem => ?_
    simpa [h.files] using he.files 1 e hmem

theorem Drafted.eroded {fs : Files C} (h : Drafted fs f) (he : f.Eroded f') : Drafted fs f' := by
  refine ⟨h.toForeign.eroded he,?_,fun e hmem => h.files e (he.files 1 e hmem)⟩
  obtain htmp | ⟨htmp,-⟩ := he.tmp
  · rw [htmp]
    exact h.tmp
  · exact .inr htmp

theorem Folder.Eroded.tmp_eq {i : ℕ} (he : f.Eroded f') (htmp : f.tmp = some i) (hfiles : f.files i ≠ []) :
    f'.tmp = some i := by
  obtain h | ⟨-,h⟩ := he.tmp
  · rw [h, htmp]
  · exact absurd (h i htmp) hfiles

theorem Folder.Eroded.run_eq {i : ℕ} (he : f.Eroded f') (hrun : f.run = some i) (hfiles : f.files i ≠ []) :
    f'.run = some i := by
  obtain h | ⟨h,-⟩ := he.run
  · rw [h, hrun]
  · exact absurd (h i hrun) hfiles

theorem Checked.eroded (h : Checked call rest f) (he : f.Eroded f') (hsame : f'.files 1 = f.files 1) :
    Checked call rest f' := by
  obtain ⟨checked,happend,htmp,hfound⟩ := h.found
  refine ⟨h.toDrafted.eroded he,checked,happend,fun hne => ?_,fun a ha => by rw [hsame]; exact hfound a ha⟩
  apply he.tmp_eq (htmp hne)
  obtain ⟨a,ha⟩ := exists_mem_of_ne_nil checked hne
  intro hnil
  simpa [hnil] using hfound a ha

theorem Ready.eroded (h : Ready call f) (he : f.Eroded f') (hsame : f'.files 1 = f.files 1) : Ready call f' :=
  ⟨h.toForeign.eroded he,he.tmp_eq h.tmp h.whole.ne_nil,by rw [hsame]; exact h.whole⟩

theorem Public.eroded (h : Public call f) (he : f.Eroded f') (hsame : f'.files 1 = f.files 1) : Public call f' := by
  refine ⟨he.run_eq h.run h.whole.ne_nil,?_,fun p hp => h.backups p (he.backups p hp),by rw [hsame]; exact h.whole⟩
  obtain htmp | ⟨htmp,-⟩ := he.tmp
  · rw [htmp]
    exact h.tmp
  · simp [htmp]

theorem Point.Fits.eroded {point : Point C T} (h : point.Fits call f) (he : f.Eroded f')
    (hsame : point.publishing = true → f'.files 1 = f.files 1) : point.Fits call f' := by
  cases point with
  | select | mkdir => exact Unborn.eroded h he
  | prepare | validate _ => exact Drafted.eroded h he
  | write =>
    obtain ⟨written,happend,hdrafted⟩ := h
    exact ⟨written,happend,hdrafted.eroded he⟩
  | check => exact Checked.eroded h he (hsame rfl)
  | look | backUp | publish _ => exact Ready.eroded h he (hsame rfl)
  | update | insertTrade _ | insertArtifact _ | commit => exact Public.eroded h he (hsame rfl)
  | _ => trivial

/-! ### A step of the call and the directories -/

section Directories
variable {s s' : Saving C R T} {e : Event C}

theorem Saver.fits_raise (v : Saver C T) (f : Folder C) : v.raise.point.Fits call f := by
  obtain ⟨point,strategyId,backup,published⟩ := v
  cases point with
  | publish active => cases active <;> trivial
  | _ => trivial

theorem Drafted.write {written : Files C} {name : String} {content : C} (h : Drafted written f)
    (hwrite : f.write .tmp name content = some f') : Drafted (written ++ [(name, content)]) f' := by
  obtain ⟨inode,hentry,rfl⟩ := map_eq_some_iff.mp hwrite
  obtain rfl : inode = 1 := by
    obtain htmp | htmp := h.tmp
    · exact Option.some.inj (hentry.symm.trans htmp)
    · cases hentry.symm.trans htmp
  refine ⟨⟨h.run,h.backups⟩,h.tmp,fun e he => ?_⟩
  simp only [Folder.store, Function.update_self, mem_append] at he
  obtain he | he := he
  · exact mem_append_left _ (h.files e (mem_of_mem_filter he))
  · exact mem_append_right _ he

theorem Checked.next {a : ArtifactType} (h : Checked call (a :: rest) f) (hread : (f.read .tmp a.filename).isSome) :
    Checked call rest f := by
  obtain ⟨content,hcontent⟩ := isSome_iff_exists.mp hread
  obtain ⟨inode,hentry,hfile⟩ := bind_eq_some_iff.mp hcontent
  have htmp : f.tmp = some 1 := by
    obtain htmp | htmp := h.tmp
    · exact htmp
    · cases hentry.symm.trans htmp
  obtain rfl : inode = 1 := Option.some.inj (hentry.symm.trans htmp)
  obtain ⟨checked,happend,-,hfound⟩ := h.found
  refine ⟨h.toDrafted,checked ++ [a],by simpa using happend,fun _ => htmp,fun b hb => ?_⟩
  obtain hb | hb := mem_append.mp hb
  · exact hfound b hb
  · obtain rfl := mem_singleton.mp hb
    obtain ⟨file,hfind,-⟩ := map_eq_some_iff.mp hfile
    have hname : file.1 = b.filename := by simpa using List.find?_some hfind
    exact hname ▸ mem_map_of_mem (mem_of_find?_eq_some hfind)

theorem Checked.ready (h : Checked call [] f) : Ready call f := by
  obtain ⟨checked,happend,htmp,hfound⟩ := h.found
  rw [append_nil] at happend
  subst happend
  refine ⟨h.toForeign,htmp ?_,h.files,hfound⟩
  simp [Output.artifacts]

theorem Ready.backUp {name : ℕ} (h : Ready call f) (hrename : f.rename .run (.backup name) = some f') :
    Ready call f' := by
  obtain ⟨inode,hentry,-,rfl⟩ := Folder.rename_some hrename
  refine ⟨⟨by simp [Folder.link, Folder.unlink],fun p hp => ?_⟩,h.tmp,h.whole⟩
  obtain hp | hp := mem_append.mp hp
  · exact h.backups p (mem_of_mem_filter hp)
  · intro hpi
    obtain rfl := mem_singleton.mp hp
    exact h.run (hpi ▸ hentry)

theorem Ready.publish (h : Ready call f) (hrename : f.rename .tmp .run = some f') : Public call f' := by
  obtain ⟨inode,hentry,-,rfl⟩ := Folder.rename_some hrename
  obtain rfl : inode = 1 := Option.some.inj (hentry.symm.trans h.tmp)
  exact ⟨rfl,by simp [Folder.link, Folder.unlink],h.backups,h.whole⟩

theorem Unborn.mkdir (h : Unborn f) : Drafted [] f.mkdir := by
  have hmkdir : f.mkdir = { f with tmp := some 1, fresh := f.fresh + 1 } := by simp [Folder.mkdir, h.tmp, h.fresh]
  rw [hmkdir]
  exact ⟨⟨h.run,h.backups⟩,.inl rfl,by simp [h.files]⟩

def Point.drafting : Point C T → Bool
  | .select | .mkdir | .prepare | .write _ | .validate _ | .check _ | .look | .backUp | .publish _ => true
  | _ => false

def Point.saved : Point C T → Bool
  | .staleLook | .removeStale _ | .returned => true
  | _ => false

/-- Up to the transaction the directory fits the point of the saving. -/
theorem Point.Fits.attempt (h : s.saver.point.Fits call (s.folder call)) (hdraft : s.saver.point.drafting = true)
    (hselect : s.saver.point ≠ .select) (hattempt : s.attempt call = some s') :
    s'.saver.point.Fits call (s'.store.folders (s.key call)) ∧
      (s'.saver.point.drafting = true ∨ s'.saver.point = .update) := by
  obtain ⟨store,⟨point,strategyId,backup,published⟩⟩ := s
  cases point with
  | select => exact absurd rfl hselect
  | mkdir =>
    cases hattempt
    exact ⟨by simpa [gotoWith, Saver.goto, Point.Fits] using Unborn.mkdir h,.inl rfl⟩
  | prepare =>
    cases hattempt
    exact ⟨⟨[],rfl,h⟩,.inl rfl⟩
  | write rest =>
    obtain ⟨written,happend,hdrafted⟩ := h
    cases rest with
    | nil =>
      cases hattempt
      rw [append_nil] at happend
      subst happend
      exact ⟨hdrafted,.inl rfl⟩
    | cons file =>
      obtain ⟨name,content⟩ := file
      obtain ⟨f,hf,rfl⟩ := map_eq_some_iff.mp hattempt
      refine ⟨⟨written ++ [(name, content)],by simpa using happend,?_⟩,.inl rfl⟩
      simpa [gotoWith] using hdrafted.write hf
  | validate rest =>
    cases rest with
    | nil =>
      cases hattempt
      exact ⟨⟨h,[],rfl,by simp,by simp⟩,.inl rfl⟩
    | cons =>
      obtain ⟨_,-,rfl⟩ := map_eq_some_iff.mp hattempt
      exact ⟨h,.inl rfl⟩
  | check rest =>
    cases rest with
    | nil =>
      cases hattempt
      exact ⟨Checked.ready h,.inl rfl⟩
    | cons =>
      simp only [attempt] at hattempt
      split at hattempt
      · rename_i hread
        cases hattempt
        exact ⟨Checked.next h hread,.inl rfl⟩
      · cases hattempt
  | look =>
    cases hattempt
    simp only [goto, Saver.goto]
    split
    · exact ⟨h,.inl rfl⟩
    · exact ⟨h,.inl rfl⟩
  | backUp =>
    obtain ⟨f,hf,rfl⟩ := map_eq_some_iff.mp hattempt
    exact ⟨by simpa [gotoWith, Saver.goto, Point.Fits] using Ready.backUp h hf,.inl rfl⟩
  | publish =>
    obtain ⟨f,hf,rfl⟩ := map_eq_some_iff.mp hattempt
    exact ⟨by simpa [Point.Fits] using Ready.publish h hf,.inr rfl⟩
  | _ => cases hdraft

end Directories

/-! ### A step of the call and the rows -/

section Rows
variable {s s' : Saving C R T} {e : Event C}

structure Saving.Quiet (call : SaveCall C R T) (s s' : Saving C R T) : Prop where
  stored : s'.store.stored = s.store.stored
  writer : s'.store.writer = s.store.writer
  kept : ∀ key, key ≠ s.key call → s'.store.folders key = s.store.folders key
  strategyId : s'.saver.strategyId = s.saver.strategyId

theorem Saving.quiet_goto (s : Saving C R T) (point : Point C T) : s.Quiet call (s.goto point) :=
  ⟨rfl,rfl,fun _ _ => rfl,rfl⟩

theorem Saving.quiet_raise (s : Saving C R T) : s.Quiet call ⟨s.store,s.saver.raise⟩ := ⟨rfl,rfl,fun _ _ => rfl,rfl⟩

theorem Saving.quiet_put (s : Saving C R T) (f : Folder C) {saver : Saver C T}
    (h : saver.strategyId = s.saver.strategyId) :
    s.Quiet call ⟨s.store.put (s.key call) f,saver⟩ := ⟨rfl,rfl,fun key hkey => by simp [Store.put, hkey],h⟩

theorem Saving.quiet_removing {r : Removal} {again : Removal → Point C T} {after : Point C T}
    (h : s.removing call r again after = some s') : s.Quiet call s' := by
  obtain ⟨p,-,rfl⟩ := map_eq_some_iff.mp h
  exact s.quiet_put p.1 rfl

/-- The steps that leave the database alone. -/
def Point.apart : Point C T → Bool
  | .select | .update | .insertTrade _ | .insertArtifact _ | .commit | .rollback => false
  | _ => true

theorem Saving.quiet_attempt (hpoint : s.saver.point.apart = true) (h : s.attempt call = some s') :
    s.Quiet call s' := by
  obtain ⟨store,⟨point,strategyId,backup,published⟩⟩ := s
  cases point with
  | mkdir =>
    cases h
    exact quiet_put _ _ rfl
  | prepare | look | activeLook | publicationLook | tmpLook | backupLook | runLook | publishedLook | staleLook =>
    cases h
    exact quiet_goto _ _
  | write rest =>
    cases rest with
    | nil =>
      cases h
      exact quiet_goto _ _
    | cons =>
      obtain ⟨f,-,rfl⟩ := map_eq_some_iff.mp h
      exact quiet_put _ f rfl
  | validate rest =>
    cases rest with
    | nil =>
      cases h
      exact quiet_goto _ _
    | cons =>
      obtain ⟨_,-,rfl⟩ := map_eq_some_iff.mp h
      exact quiet_goto _ _
  | check rest =>
    cases rest with
    | nil =>
      cases h
      exact quiet_goto _ _
    | cons =>
      simp only [attempt] at h
      split at h
      · cases h
        exact quiet_goto _ _
      · cases h
  | backUp | publish _ | reinstate =>
    obtain ⟨f,-,rfl⟩ := map_eq_some_iff.mp h
    exact quiet_put _ f rfl
  | restore =>
    obtain ⟨b,-,hmap⟩ := bind_eq_some_iff.mp h
    obtain ⟨f,-,rfl⟩ := map_eq_some_iff.mp hmap
    exact quiet_put _ f rfl
  | unpublish r | removeTmp r | removeRun r | removePublished r | removeStale r => exact quiet_removing h
  | returned | raised =>
    cases h
    exact ⟨rfl,rfl,fun _ _ => rfl,rfl⟩
  | _ => cases hpoint

theorem Saving.quiet_fails (s : Saving C R T) (left : Remains C) : s.Quiet call (s.step call (.fails left)) := by
  have hrenamed (hpoint : s.saver.point.apart = true) :
      s.Quiet call ⟨((s.attempt call).map Saving.store).getD s.store,s.saver.raise⟩ := by
    cases hattempt : s.attempt call with
    | none => exact s.quiet_raise
    | some s' =>
      obtain ⟨hstored,hwriter,hkept,-⟩ := quiet_attempt hpoint hattempt
      exact ⟨hstored,hwriter,hkept,rfl⟩
  simp only [Saving.step, spoil]
  split
  · rename_i name _ _ content _
    cases (s.folder call).write .tmp name content with
    | none => exact s.quiet_raise
    | some f => exact s.quiet_put f rfl
  all_goals first | exact s.quiet_raise | (rename_i hpoint; exact hrenamed (by rw [hpoint]; rfl))

/-- The removal of a backup does not concern the directory of the result. -/
def Removal.Spares : Removal → Prop
  | .enter (.backup _) => True
  | .children (.backup _) inode _ => inode ≠ 1
  | .rmdir (.backup _) => True
  | _ => False

/-- Removing another directory leaves the published one. -/
theorem Public.removal {r : Removal} {next : Option Removal} (h : Public call f) (hr : r.Spares)
    (hstep : r.step f = some (f', next)) :
    Public call f' ∧ ∀ r', next = some r' → r'.Spares := by
  cases r with
  | enter place =>
    cases place with
    | run | tmp => exact hr.elim
    | backup =>
      obtain ⟨inode,hentry,heq⟩ := map_eq_some_iff.mp hstep
      cases heq
      refine ⟨h,fun r' hr' => ?_⟩
      cases hr'
      obtain ⟨p,hp,rfl⟩ := map_eq_some_iff.mp hentry
      exact h.backups p (mem_of_find?_eq_some hp)
  | children place inode names =>
    cases place with
    | run | tmp => exact hr.elim
    | backup =>
      cases names with
      | nil =>
        cases hstep
        refine ⟨h,fun r' hr' => ?_⟩
        cases hr'
        trivial
      | cons =>
        cases hstep
        refine ⟨⟨h.run,h.tmp,h.backups,?_⟩,fun r' hr' => ?_⟩
        · have hne : (1 : ℕ) ≠ inode := Ne.symm hr
          simpa [hne] using h.whole
        · cases hr'
          exact hr
  | rmdir place =>
    cases place with
    | run | tmp => exact hr.elim
    | backup =>
      obtain ⟨inode,-,-,rfl,rfl⟩ := Removal.rmdir_some hstep
      refine ⟨⟨h.run,h.tmp,fun p hp => h.backups p (mem_of_mem_filter hp),h.whole⟩,fun r' hr' => ?_⟩
      cases hr'

def Point.Stale : Point C T → Prop
  | .removeStale r => r.Spares
  | _ => True

/-- What follows the commit leaves the published directory. -/
theorem Saving.saved_attempt (hpoint : s.saver.point.saved = true) (hstale : s.saver.point.Stale)
    (hpublic : Public call (s.folder call)) (h : s.attempt call = some s') :
    s'.saver.point.saved = true ∧ s'.saver.point.Stale ∧ Public call (s'.store.folders (s.key call)) := by
  obtain ⟨store,⟨point,strategyId,backup,published⟩⟩ := s
  cases point with
  | staleLook =>
    cases h
    simp only [goto, Saver.goto]
    cases backup with
    | none => exact ⟨rfl,trivial,hpublic⟩
    | some =>
      simp only
      split
      · exact ⟨rfl,trivial,hpublic⟩
      · exact ⟨rfl,trivial,hpublic⟩
  | removeStale =>
    obtain ⟨⟨f,next⟩,hr,rfl⟩ := map_eq_some_iff.mp h
    obtain ⟨hpublic',hnext⟩ := hpublic.removal hstale hr
    have hfolder : Public call ((store.put (strategyId, call.runId) f).folders (strategyId, call.runId)) := by
      simpa using hpublic'
    cases next with
    | none => exact ⟨rfl,trivial,hfolder⟩
    | some r' => exact ⟨rfl,hnext r' rfl,hfolder⟩
  | returned =>
    cases h
    exact ⟨rfl,trivial,hpublic⟩
  | _ => cases hpoint

end Rows
end OpenPine.Backtests
