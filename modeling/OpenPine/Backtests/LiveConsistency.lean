import OpenPine.Backtests.LivePublication

/-! # Rows and directories of live runs

One invariant over the steps of both processes: what the next step of the call relies on,
what its transaction has made of the rows, and that the recovery is at runs that were not
done when it selected them.
-/
namespace OpenPine.Backtests
open Runs Saving Store List Option
variable {C R T : Type} {call : SaveCall C R T} {strategyId : String} {d d' : Db R T} {f : Folder C} {w : Live C R T}
  {s s' : Recovering C R T} {point : Point C T}

/-! ### Artifact rows -/

def Listing (artifacts : List ArtifactType) (rows : List ArtifactRow) : Prop :=
  rows.map (fun a => (a.artifactType, a.path)) = artifacts.map fun a => (a, a.filename)

theorem Output.name_cases {o : Output C} {name : String} (h : name ∈ o.files.map Prod.fst) :
    (∃ a ∈ o.artifacts, a.filename = name) ∨ name = plotCsv ∧ .plotOutputs ∈ o.artifacts := by
  obtain ⟨equityCurve,trades,barOutputs,plotOutputs,reportJson,reportMd⟩ := o
  cases equityCurve <;> cases trades <;> cases barOutputs <;> cases plotOutputs <;>
    simp [Output.files, Output.artifacts] at h ⊢ <;> grind

theorem Public.agrees {rows : List ArtifactRow} (h : Public call f) (hrows : Listing call.output.artifacts rows) :
    f.Agrees rows := by
  refine ⟨f.files 1,by simp [Folder.content, h.run],fun a ha => ?_,fun name hname => ?_⟩
  · have hmem : (a.artifactType, a.path) ∈ call.output.artifacts.map fun a => (a, a.filename) :=
      hrows ▸ mem_map_of_mem ha
    obtain ⟨b,hb,heq⟩ := mem_map.mp hmem
    simp only [Prod.mk.injEq] at heq
    exact heq.2 ▸ h.whole.all b hb
  · have hrow : ∀ b ∈ call.output.artifacts, ∃ a ∈ rows, a.artifactType = b ∧ a.path = b.filename := by
      intro b hb
      have hmem : (b, b.filename) ∈ rows.map fun a => (a.artifactType, a.path) := by
        rw [hrows]
        exact mem_map_of_mem hb
      obtain ⟨a,ha,heq⟩ := mem_map.mp hmem
      simp only [Prod.mk.injEq] at heq
      exact ⟨a,ha,heq⟩
    obtain ⟨e,he,rfl⟩ := mem_map.mp hname
    obtain ⟨b,hb,hfile⟩ | ⟨hcsv,hplots⟩ := Output.name_cases (mem_map_of_mem (h.whole.mine e he))
    · obtain ⟨a,ha,-,hpath⟩ := hrow b hb
      exact .inl ⟨a,ha,hpath.trans hfile⟩
    · obtain ⟨a,ha,htype,-⟩ := hrow _ hplots
      exact .inr ⟨hcsv,a,ha,htype⟩

theorem SaveCall.listed_insert {a : ArtifactType} {count : Option ℕ}
    (h : call.insertArtifactRow strategyId a count d = some d') :
    d'.runs = d.runs ∧ (∀ id, id ≠ call.runId → d'.listed id = d.listed id) ∧
      ∀ artifacts, Listing artifacts (d.listed call.runId) → Listing (artifacts ++ [a]) (d'.listed call.runId) := by
  obtain ⟨rows,hrows,rfl⟩ := map_eq_some_iff.mp h
  have happend := Table.insert?_rows hrows
  refine ⟨rfl,fun id hid => ?_,fun artifacts hlisting => ?_⟩
  · simp [Db.listed, happend, Ne.symm hid]
  · unfold Listing at hlisting ⊢
    simpa [Db.listed, happend] using hlisting

/-! ### The invariant -/

structure SaveCall.Pending (call : SaveCall C R T) (s : Store C R T) (artifacts : List ArtifactType)
    (d : Db R T) : Prop where
  writer : s.writer = some (.saver, d)
  runs : d.runs = (call.updateRunResultRow s.stored).runs
  others : ∀ id, id ≠ call.runId → d.listed id = s.stored.listed id
  mine : Listing artifacts (d.listed call.runId)

def Point.Journal (call : SaveCall C R T) (s : Store C R T) : Point C T → Prop
  | .insertTrade _ => ∃ d, call.Pending s [] d
  | .insertArtifact rest => ∃ d inserted, inserted ++ rest = call.output.artifacts ∧ call.Pending s inserted d
  | .commit => ∃ d, call.Pending s call.output.artifacts d
  | .select | .mkdir | .prepare | .write _ | .validate _ | .check _ | .look | .backUp | .publish _ | .update =>
    ∀ d, s.writer ≠ some (.saver, d)
  | _ => True

def Point.Progress (call : SaveCall C R T) (s : Store C R T) : Point C T → Prop
  | .staleLook | .removeStale _ | .returned => s.stored.status call.runId = some .done
  | .raised => True
  | _ => s.stored.status call.runId ≠ some .done

structure Inv (call : SaveCall C R T) (strategyId : String) (w : Live C R T) : Prop where
  row : (w.store.stored.runs.find? call.runId).map Run.strategyId = some strategyId
  saver : w.saver.point ≠ .select → w.saver.point ≠ .raised → w.saver.strategyId = strategyId
  fits : w.saver.point.Fits call (w.store.folders (strategyId, call.runId))
  stale : w.saver.point.Stale
  journal : w.saver.point.Journal call w.store
  progress : w.saver.point.Progress call w.store
  done : w.store.stored.status call.runId = some .done →
    Public call (w.store.folders (strategyId, call.runId)) ∧
      Listing call.output.artifacts (w.store.stored.listed call.runId)
  unlisted : w.store.stored.status call.runId ≠ some .done → w.store.stored.listed call.runId = []
  pending : ∀ d, w.store.writer = some (.recovery, d) → w.store.stored.Settled d
  todo : ∀ key ∈ w.recovery.todo, key.2 = call.runId ∨ w.store.stored.status key.2 ≠ some .done
  others : ∀ r ∈ w.store.stored.runs.rows, r.status = .done → r.runId ≠ call.runId →
    (w.store.folders (r.strategyId, r.runId)).Agrees (w.store.stored.listed r.runId)

theorem Inv.sound (h : Inv call strategyId w) : w.store.Sound := by
  intro r hr hdone
  by_cases hrun : r.runId = call.runId
  · have hfind : w.store.stored.runs.find? call.runId = some r := hrun ▸ Table.find?_of_mem hr
    have hstatus : w.store.stored.status call.runId = some .done := by simp [Db.status, hfind, hdone]
    have hstrategy : r.strategyId = strategyId := by simpa [hfind] using h.row
    obtain ⟨hpublic,hlisting⟩ := h.done hstatus
    rw [hstrategy, hrun]
    exact hpublic.agrees hlisting
  · exact h.others r hr hdone hrun

section Journal
variable {s s' : Store C R T} {point : Point C T}

theorem SaveCall.Pending.congr {artifacts : List ArtifactType} (h : call.Pending s artifacts d)
    (hstored : s'.stored = s.stored) (hwriter : s'.writer = s.writer) : call.Pending s' artifacts d :=
  ⟨hwriter.trans h.writer,by rw [hstored]; exact h.runs,by rw [hstored]; exact h.others,h.mine⟩

theorem Point.Journal.mono (h : point.Journal call s)
    (hkept : ∀ d, s.writer = some (.saver, d) → s'.stored = s.stored ∧ s'.writer = s.writer)
    (hfree : ∀ d, s'.writer = some (.saver, d) → s.writer = some (.saver, d)) : point.Journal call s' := by
  have hpending : ∀ {artifacts d}, call.Pending s artifacts d → call.Pending s' artifacts d := by
    intro artifacts d hd
    obtain ⟨hstored,hwriter⟩ := hkept d hd.writer
    exact hd.congr hstored hwriter
  cases point with
  | insertTrade _ | commit =>
    obtain ⟨d,hd⟩ := h
    exact ⟨d,hpending hd⟩
  | insertArtifact =>
    obtain ⟨d,inserted,happend,hd⟩ := h
    exact ⟨d,inserted,happend,hpending hd⟩
  | select | mkdir | prepare | write _ | validate _ | check _ | look | backUp | publish _
  | update => exact fun d hd => h d (hfree d hd)
  | _ => trivial

theorem Point.Journal.congr (h : point.Journal call s) (hstored : s'.stored = s.stored)
    (hwriter : s'.writer = s.writer) :
    point.Journal call s' := h.mono (fun _ _ => ⟨hstored,hwriter⟩) fun _ hd => hwriter.symm.trans hd

end Journal

/-! ### The recovery -/

theorem Store.writer_of_unlocked {s : Store C R T} {p : Process} (h : s.locked p = false) :
    s.writer = none ∨ ∃ d, s.writer = some (p, d) := by
  unfold locked at h
  cases hw : s.writer with
  | none => exact .inl rfl
  | some writer =>
    obtain ⟨q,d⟩ := writer
    rw [hw] at h
    obtain rfl : q = p := by simpa using h
    exact .inr ⟨d,rfl⟩

theorem Recovering.Moves.settled (h : s.Moves s')
    (hpending : ∀ d, s.store.writer = some (.recovery, d) → s.store.stored.Settled d) :
    s.store.stored.Settled s'.store.stored ∧ ∀ d, s'.store.writer = some (.recovery, d) →
      s'.store.stored.Settled d := by
  obtain ⟨hstored,hwriter⟩ | ⟨now,hlocked,hstored,hwriter⟩ | ⟨hwriter,hnone⟩ := h.db
  · rw [hstored, hwriter]
    exact ⟨.refl _,hpending⟩
  · rw [hstored, hwriter]
    refine ⟨.refl _,fun d hd => ?_⟩
    cases hd
    have hview : s.store.stored.Settled s.store.view := by
      obtain hw | ⟨d,hw⟩ := writer_of_unlocked hlocked
      · simpa [view, hw] using Db.Settled.refl _
      · simpa [view, hw] using hpending d hw
    exact hview.trans (Db.settled_failInterrupted now _)
  · refine ⟨hpending _ hwriter,fun d hd => ?_⟩
    rw [hnone] at hd
    cases hd

theorem Recovering.Moves.journal (h : s.Moves s') (hjournal : point.Journal call s.store) :
    point.Journal call s'.store := by
  refine hjournal.mono (fun d hd => ?_) fun d hd => ?_
  · obtain hdb | ⟨now,hlocked,-,-⟩ | ⟨hwriter,-⟩ := h.db
    · exact hdb
    · simp [locked, hd] at hlocked
    · cases hd.symm.trans hwriter
  · obtain ⟨-,hwriter⟩ | ⟨now,-,-,hwriter⟩ | ⟨-,hnone⟩ := h.db
    · exact hwriter.symm.trans hd
    · cases hwriter.symm.trans hd
    · cases hnone.symm.trans hd

theorem Point.Progress.congr {s s' : Store C R T} (h : point.Progress call s)
    (hstatus : s'.stored.status call.runId = some .done ↔ s.stored.status call.runId = some .done) :
    point.Progress call s' := by
  cases point with
  | staleLook | removeStale _ | returned => exact hstatus.mpr h
  | raised => trivial
  | _ => exact fun hdone => h (hstatus.mp hdone)

/-- A step of the recovery keeps the invariant if it spares the directory. -/
theorem Inv.recover (h : Inv call strategyId w) {now : ℤ} {failing : Bool}
    (hspared : w.Spared call (strategyId, call.runId) (.recover now failing)) :
    Inv call strategyId (w.step call (.recover now failing)) := by
  have hmoves := Recovering.moves_step ⟨w.store,w.recovery⟩ now failing
  obtain ⟨hsettled,hpending⟩ := hmoves.settled h.pending
  have hstatus := hsettled.status_done
  have heroded := hmoves.eroded (strategyId, call.runId)
  refine ⟨(hsettled.strategy _).trans h.row,h.saver,h.fits.eroded heroded fun hp => hspared (.inl hp),h.stale,
    hmoves.journal h.journal,
    h.progress.congr (hstatus _),fun hdone => ?_,fun hdone => ?_,hpending,fun key hkey => ?_,fun r hr hdone hne => ?_⟩
  · have hdone := (hstatus _).mp hdone
    obtain ⟨hpublic,hlisting⟩ := h.done hdone
    refine ⟨hpublic.eroded heroded (hspared (.inr hdone)),?_⟩
    have hlisted := hsettled.listed call.runId
    exact hlisted ▸ hlisting
  · exact (hsettled.listed _).trans (h.unlisted fun hold => hdone ((hstatus _).mpr hold))
  · obtain hold | hinterrupted := hmoves.todo key hkey
    · exact (h.todo key hold).imp_right fun hne hdone => hne ((hstatus _).mp hdone)
    · refine .inr fun hdone => ?_
      exact Db.not_mem_interrupted ((hstatus _).mp hdone) hinterrupted
  · have hr : r ∈ w.store.stored.runs.rows := (hsettled.done r hdone).mp hr
    have hkey : (r.strategyId, r.runId) ∉ w.recovery.todo := by
      intro hmem
      obtain hrun | hnot := h.todo _ hmem
      · exact hne hrun
      · exact hnot (Db.status_eq_done.mpr ⟨r,hr,rfl,hdone⟩)
    have hfolder := hmoves.kept _ hkey
    have hlisted := hsettled.listed r.runId
    have hagrees := h.others r hr hdone hne
    rw [← hlisted] at hagrees
    exact hfolder ▸ hagrees

/-! ### The call -/

section Call
variable {s' : Saving C R T} {e : Event C} {point : Point C T}

section
variable (h : Inv call strategyId w)
include h

theorem Inv.quiet (hquiet : Quiet call ⟨w.store,w.saver⟩ s')
    (hsaver : s'.saver.point ≠ .select → s'.saver.point ≠ .raised → s'.saver.strategyId = strategyId)
    (hfits : s'.saver.point.Fits call (s'.store.folders (strategyId, call.runId))) (hstale : s'.saver.point.Stale)
    (hjournal : s'.saver.point.Journal call w.store) (hprogress : s'.saver.point.Progress call w.store)
    (hpublic : w.store.stored.status call.runId = some .done →
      Public call (s'.store.folders (strategyId, call.runId))) :
    Inv call strategyId ⟨s'.store,s'.saver,w.recovery⟩ := by
  have hstored : s'.store.stored = w.store.stored := hquiet.stored
  have hwriter : s'.store.writer = w.store.writer := hquiet.writer
  refine ⟨by rw [hstored]; exact h.row,hsaver,hfits,hstale,hjournal.congr hstored hwriter,
    hprogress.congr (by rw [hstored]),
    fun hdone => ?_,fun hdone => ?_,fun d hd => ?_,fun key hkey => ?_,fun r hr hdone hne => ?_⟩
  · rw [hstored] at hdone ⊢
    exact ⟨hpublic hdone,(h.done hdone).2⟩
  · rw [hstored] at hdone ⊢
    exact h.unlisted hdone
  · rw [hstored]
    exact h.pending d (hwriter ▸ hd)
  · rw [hstored]
    exact h.todo key hkey
  · rw [hstored] at hr ⊢
    have hkey : (r.strategyId, r.runId) ≠ key call ⟨w.store,w.saver⟩ := fun heq => hne (congrArg Prod.snd heq)
    rw [hquiet.kept _ hkey]
    exact h.others r hr hdone hne

theorem Inv.condemned (hquiet : Quiet call ⟨w.store,w.saver⟩ s')
    (hsaver : s'.saver.point ≠ .raised → s'.saver.strategyId = strategyId)
    (hcondemned : s'.saver.point.condemned = true) (hdone : w.store.stored.status call.runId ≠ some .done) :
    Inv call strategyId ⟨s'.store,s'.saver,w.recovery⟩ := by
  have hpoint : s'.saver.point.Fits call (s'.store.folders (strategyId, call.runId)) ∧ s'.saver.point.Stale ∧
      s'.saver.point.Journal call w.store ∧ s'.saver.point.Progress call w.store := by
    cases hp : s'.saver.point with
    | activeLook | publicationLook | unpublish _ | reinstate | rollback | tmpLook | removeTmp _ | backupLook | runLook
    | removeRun _
    | restore | publishedLook | removePublished _ => exact ⟨trivial,trivial,trivial,hdone⟩
    | raised => exact ⟨trivial,trivial,trivial,trivial⟩
    | _ =>
      rw [hp] at hcondemned
      cases hcondemned
  exact h.quiet hquiet (fun _ => hsaver) hpoint.1 hpoint.2.1 hpoint.2.2.1 hpoint.2.2.2 fun h => absurd h hdone

theorem Inv.save_of_attempt (hstrategy : w.saver.strategyId = strategyId)
    (hraise : w.saver.raise.point.condemned = true) (hdone : w.store.stored.status call.runId ≠ some .done)
    (hattempt : ∀ s', attempt call ⟨w.store,w.saver⟩ = some s' → Inv call strategyId ⟨s'.store,s'.saver,w.recovery⟩)
    (e : Event C) :
    Inv call strategyId (w.step call (.save e)) := by
  cases e with
  | fails left => exact h.condemned (quiet_fails _ left) (fun _ => hstrategy) hraise hdone
  | proceeds =>
    cases hs : attempt call ⟨w.store,w.saver⟩ with
    | none =>
      simp only [Live.step, step_of_raise hs]
      exact h.condemned (quiet_raise _) (fun _ => hstrategy) hraise hdone
    | some s' =>
      simp only [Live.step, step_of_attempt hs]
      exact hattempt s' hs

theorem Inv.save_select (hpoint : w.saver.point = .select) (e : Event C) :
    Inv call strategyId (w.step call (.save e)) := by
  have hprogress := h.progress
  have hjournal := h.journal
  have hfits := h.fits
  rw [hpoint] at hprogress hjournal hfits
  have hraise : w.saver.raise.point = .raised := by simp [Saver.raise, hpoint, Saver.goto]
  have hraised : Inv call strategyId ⟨w.store,w.saver.raise,w.recovery⟩ :=
    h.condemned (quiet_raise _) (fun hne => absurd hraise hne) (by rw [hraise]; rfl) hprogress
  cases e with
  | fails left =>
    have hspoil : spoil call ⟨w.store,w.saver⟩ left = w.store :=
      spoil_of_not_lasting (by simp [hpoint, Point.lasting]) left
    simp only [Live.step, Saving.step, hspoil]
    exact hraised
  | proceeds =>
    simp only [Live.step, Saving.step, attempt, hpoint, h.row, getD_some]
    split
    · exact ⟨h.row,fun _ _ => rfl,hfits,trivial,hjournal,hprogress,h.done,h.unlisted,h.pending,h.todo,h.others⟩
    · exact hraised

end

theorem Point.drafting_facts (h : point.drafting = true) (hselect : point ≠ .select) :
    point.ended = false ∧ point.cleanUp = false ∧ point ≠ .raised ∧ point.apart = true := by
  cases point with
  | select => exact absurd rfl hselect
  | mkdir | prepare | write _ | validate _ | check _ | look | backUp | publish _ => exact ⟨rfl,rfl,by simp,rfl⟩
  | _ => cases h

theorem Point.drafting_rows (call : SaveCall C R T) (h : point.drafting = true ∨ point = .update) (s : Store C R T) :
    (point.Journal call s ↔ ∀ d, s.writer ≠ some (.saver, d)) ∧
      (point.Progress call s ↔ s.stored.status call.runId ≠ some .done) ∧
      point.Stale := by
  obtain h | rfl := h
  · cases point with
    | select | mkdir | prepare | write _ | validate _ | check _ | look | backUp
    | publish _ => exact ⟨Iff.rfl,Iff.rfl,trivial⟩
    | _ => cases h
  · exact ⟨Iff.rfl,Iff.rfl,trivial⟩

/-- A step of the saving before its transaction keeps the invariant. -/
theorem Inv.save_draft (h : Inv call strategyId w) (hdraft : w.saver.point.drafting = true)
    (hselect : w.saver.point ≠ .select) (e : Event C) :
    Inv call strategyId (w.step call (.save e)) := by
  obtain ⟨hended,hcleanUp,hnraised,hapart⟩ := Point.drafting_facts hdraft hselect
  obtain ⟨hjournal,hprogress,-⟩ := Point.drafting_rows call (.inl hdraft) w.store
  have hwriter := hjournal.mp h.journal
  have hdone := hprogress.mp h.progress
  have hstrategy := h.saver hselect hnraised
  have hkey : key call ⟨w.store,w.saver⟩ = (strategyId, call.runId) := by simp [key, hstrategy]
  refine h.save_of_attempt hstrategy (Saver.condemned_raise hended hcleanUp) hdone (fun s' hattempt => ?_) e
  have hquiet := quiet_attempt hapart hattempt
  have hfits : w.saver.point.Fits call (folder call ⟨w.store,w.saver⟩) := by
    unfold folder
    rw [hkey]
    exact h.fits
  obtain ⟨hfits',hnext⟩ := hfits.attempt hdraft hselect hattempt
  rw [hkey] at hfits'
  obtain ⟨hjournal',hprogress',hstale'⟩ := Point.drafting_rows call hnext w.store
  exact h.quiet hquiet (fun _ _ => hquiet.strategyId.trans hstrategy) hfits' hstale' (hjournal'.mpr hwriter)
    (hprogress'.mpr hdone)
    fun h => absurd h hdone

theorem Inv.write (h : Inv call strategyId w) (hpublic : Public call (w.store.folders (strategyId, call.runId)))
    (hstrategy : w.saver.strategyId = strategyId) (hdone : w.store.stored.status call.runId ≠ some .done)
    (hfits : Public call (w.store.folders (strategyId, call.runId)) →
      point.Fits call (w.store.folders (strategyId, call.runId)))
    (hjournal : point.Journal call { w.store with writer := some (.saver, d) })
    (hprogress : point.Progress call w.store) (hstale : point.Stale) :
    Inv call strategyId ⟨{ w.store with writer := some (.saver, d) },w.saver.goto point,w.recovery⟩ := by
  refine ⟨h.row,fun _ _ => hstrategy,hfits hpublic,hstale,hjournal,hprogress.congr Iff.rfl,fun h => absurd h hdone,
    h.unlisted,fun d' hd' => ?_,
    h.todo,h.others⟩
  cases hd'

theorem SaveCall.mem_updateRunResultRow {r : Run R} (hne : r.runId ≠ call.runId) :
    r ∈ (call.updateRunResultRow d).runs.rows ↔ r ∈ d.runs.rows := by
  constructor
  · intro hr
    obtain ⟨r',hr',rfl⟩ := mem_map.mp hr
    by_cases hid : r'.runId = call.runId
    · simp [hid] at hne
    · simpa [hid] using hr'
  · intro hr
    exact mem_map.mpr ⟨r,hr,by simp [hne]⟩

/-- The commit makes the row and the published directory agree. -/
theorem Inv.commit (h : Inv call strategyId w) (hpublic : Public call (w.store.folders (strategyId, call.runId)))
    (hstrategy : w.saver.strategyId = strategyId) (hd : call.Pending w.store call.output.artifacts d) :
    Inv call strategyId ⟨{ w.store with stored := d, writer := none },w.saver.goto .staleLook,w.recovery⟩ := by
  obtain ⟨row,hrow,hid⟩ := map_eq_some_iff.mp h.row
  have hstatus : d.status call.runId = some .done := SaveCall.status_done hrow hd.runs
  have hmem : ∀ {r : Run R}, r.runId ≠ call.runId → (r ∈ d.runs.rows ↔ r ∈ w.store.stored.runs.rows) := by
    intro r hne
    rw [hd.runs]
    exact SaveCall.mem_updateRunResultRow hne
  refine ⟨?_,fun _ _ => hstrategy,trivial,trivial,trivial,hstatus,fun _ => ⟨hpublic,hd.mine⟩,
    fun hne => absurd hstatus hne,?_,fun key hkey => ?_,
    fun r hr hdone hne => ?_⟩
  · rw [hd.runs, SaveCall.updateRunResultRow, Table.find?_alter, hrow]
    simp [Table.key_of_find? hrow, hid]
  · intro d' hd'
    cases hd'
  · by_cases hrun : key.2 = call.runId
    · exact .inl hrun
    · refine .inr fun hdone => ?_
      obtain ⟨r,hr,hid',hrdone⟩ := Db.status_eq_done.mp hdone
      have hold : w.store.stored.status key.2 = some .done := by
        have hne : r.runId ≠ call.runId := hid' ▸ hrun
        exact Db.status_eq_done.mpr ⟨r,(hmem hne).mp hr,hid',hrdone⟩
      exact (h.todo key hkey).elim hrun fun hnot => hnot hold
  · have hagrees := h.others r ((hmem hne).mp hr) hdone hne
    rw [← hd.others r.runId hne] at hagrees
    exact hagrees

section Transaction
variable {store : Store C R T} {backup : Option ℕ} {published : Bool} {recovery : RecoveryPoint}

theorem Inv.attempt_update (h : Inv call strategyId ⟨store,⟨.update,strategyId,backup,published⟩,recovery⟩)
    (hattempt : attempt call ⟨store,⟨.update,strategyId,backup,published⟩⟩ = some s') :
    Inv call strategyId ⟨s'.store,s'.saver,recovery⟩ := by
  simp only [attempt, statement] at hattempt
  split at hattempt
  · cases hattempt
    exact h
  · rename_i hlocked
    cases hattempt
    have hwriter : store.writer = none := by
      obtain hw | ⟨d,hw⟩ := writer_of_unlocked (by simpa using hlocked : store.locked .saver = false)
      · exact hw
      · exact absurd hw (h.journal d)
    have hview : store.view = store.stored := by simp [view, hwriter]
    refine h.write h.fits rfl h.progress id ⟨_,rfl,?_,fun _ _ => ?_,?_⟩ h.progress trivial
    · rw [hview]
    · rw [hview]
      rfl
    · have hnil : store.stored.listed call.runId = [] := h.unlisted h.progress
      rw [hview]
      change (store.stored.listed call.runId).map _ = _
      rw [hnil]
      rfl

theorem Inv.attempt_insertTrade {rest : List (T × ℕ)}
    (h : Inv call strategyId ⟨store,⟨.insertTrade rest,strategyId,backup,published⟩,recovery⟩)
    (hattempt : attempt call ⟨store,⟨.insertTrade rest,strategyId,backup,published⟩⟩ = some s') :
    Inv call strategyId ⟨s'.store,s'.saver,recovery⟩ := by
  obtain ⟨d,hd⟩ := h.journal
  have hwriter : store.writer = some (.saver, d) := hd.writer
  cases rest with
  | nil =>
    cases hattempt
    exact h.quiet (quiet_goto _ _) (fun _ _ => rfl) h.fits trivial ⟨d,[],rfl,hd⟩ h.progress fun hdone =>
      absurd hdone h.progress
  | cons =>
    simp only [attempt, statement, locked, view, hwriter] at hattempt
    obtain ⟨d',hd',rfl⟩ := map_eq_some_iff.mp hattempt
    obtain ⟨trades,-,rfl⟩ := map_eq_some_iff.mp hd'
    exact h.write h.fits rfl h.progress id ⟨_,rfl,hd.runs,hd.others,hd.mine⟩ h.progress trivial

theorem Inv.attempt_insertArtifact {rest : List ArtifactType}
    (h : Inv call strategyId ⟨store,⟨.insertArtifact rest,strategyId,backup,published⟩,recovery⟩)
    (hattempt : attempt call ⟨store,⟨.insertArtifact rest,strategyId,backup,published⟩⟩ = some s') :
    Inv call strategyId ⟨s'.store,s'.saver,recovery⟩ := by
  obtain ⟨d,inserted,happend,hd⟩ := h.journal
  have hwriter : store.writer = some (.saver, d) := hd.writer
  cases rest with
  | nil =>
    cases hattempt
    rw [append_nil] at happend
    subst happend
    exact h.quiet (quiet_goto _ _) (fun _ _ => rfl) h.fits trivial ⟨d,hd⟩ h.progress fun hdone =>
      absurd hdone h.progress
  | cons a =>
    obtain ⟨count,-,hstatement⟩ := bind_eq_some_iff.mp hattempt
    simp only [statement, locked, view, hwriter] at hstatement
    obtain ⟨d',hd',rfl⟩ := map_eq_some_iff.mp hstatement
    obtain ⟨hruns,hothers,hmine⟩ := SaveCall.listed_insert hd'
    refine h.write h.fits rfl h.progress id
      ⟨d',inserted ++ [a],by simpa using happend,rfl,?_,fun id hid => ?_,hmine _ hd.mine⟩ h.progress trivial
    · exact hruns.trans hd.runs
    · exact (hothers id hid).trans (hd.others id hid)

theorem Inv.attempt_commit (h : Inv call strategyId ⟨store,⟨.commit,strategyId,backup,published⟩,recovery⟩)
    (hattempt : attempt call ⟨store,⟨.commit,strategyId,backup,published⟩⟩ = some s') :
    Inv call strategyId ⟨s'.store,s'.saver,recovery⟩ := by
  obtain ⟨d,hd⟩ := h.journal
  have hwriter : store.writer = some (.saver, d) := hd.writer
  cases hattempt
  have hcommit : store.commit .saver = { store with stored := d, writer := none } := by simp [Store.commit, hwriter]
  simp only [hcommit]
  exact h.commit h.fits rfl hd

end Transaction

theorem Inv.save_storing (h : Inv call strategyId w) (e : Event C)
    (hpoint : w.saver.point = .update ∨ (∃ rest, w.saver.point = .insertTrade rest) ∨
      (∃ rest, w.saver.point = .insertArtifact rest) ∨
      w.saver.point = .commit) : Inv call strategyId (w.step call (.save e)) := by
  obtain ⟨store,⟨point,mine,backup,published⟩,recovery⟩ := w
  obtain rfl | ⟨rest,rfl⟩ | ⟨rest,rfl⟩ | rfl := hpoint
  all_goals obtain rfl : mine = strategyId := h.saver (by simp) (by simp)
  · exact h.save_of_attempt rfl rfl h.progress (fun _ => h.attempt_update) e
  · exact h.save_of_attempt rfl rfl h.progress (fun _ => h.attempt_insertTrade) e
  · exact h.save_of_attempt rfl rfl h.progress (fun _ => h.attempt_insertArtifact) e
  · exact h.save_of_attempt rfl rfl h.progress (fun _ => h.attempt_commit) e

theorem Point.Progress.of_condemned {s : Store C R T} (h : point.Progress call s) (hcondemned : point.condemned = true)
    (hraised : point ≠ .raised) : s.stored.status call.runId ≠ some .done ∧
      (point = .rollback ∨ point.apart = true) := by
  cases point with
  | activeLook | publicationLook | unpublish _ | reinstate | tmpLook | removeTmp _ | backupLook | runLook | removeRun _
  | restore | publishedLook | removePublished _ => exact ⟨h,.inr rfl⟩
  | rollback => exact ⟨h,.inl rfl⟩
  | raised => exact absurd rfl hraised
  | _ => cases hcondemned

theorem Inv.save_condemned (h : Inv call strategyId w) (hcondemned : w.saver.point.condemned = true)
    (hraised : w.saver.point ≠ .raised) (e : Event C) : Inv call strategyId (w.step call (.save e)) := by
  obtain ⟨hdone,hpoint⟩ := h.progress.of_condemned hcondemned hraised
  have hselect : w.saver.point ≠ .select := by
    intro hselect
    rw [hselect] at hcondemned
    cases hcondemned
  have hstrategy := h.saver hselect hraised
  refine h.save_of_attempt hstrategy (Saver.advances_raise hcondemned hraised).condemned hdone (fun s' hattempt => ?_) e
  obtain hrollback | hapart := hpoint
  · simp only [attempt, hrollback] at hattempt
    cases hattempt
    refine ⟨h.row,fun _ _ => hstrategy,trivial,trivial,trivial,hdone,fun h => absurd h hdone,h.unlisted,
      fun d hd => ?_,h.todo,h.others⟩
    exact h.pending d (filter_eq_some_iff.mp hd).1
  · have hquiet := quiet_attempt hapart hattempt
    exact h.condemned hquiet (fun _ => hquiet.strategyId.trans hstrategy)
      (advances_attempt hcondemned hraised hattempt).condemned hdone

/-- After the commit the saving only clears its backup away. -/
theorem Inv.save_saved (h : Inv call strategyId w) (hsaved : w.saver.point.saved = true) (e : Event C) :
    Inv call strategyId (w.step call (.save e)) := by
  have hfacts : w.store.stored.status call.runId = some .done ∧ w.saver.point ≠ .select ∧ w.saver.point ≠ .raised ∧
      w.saver.point.lasting = false ∧ w.saver.point.apart = true ∧
        (w.saver.raise.point = .raised ∨ w.saver.raise.point = .returned) := by
    have hprogress := h.progress
    cases hp : w.saver.point with
    | staleLook | removeStale _ | returned =>
      rw [hp] at hprogress
      exact ⟨hprogress,by simp,by simp,rfl,rfl,by simp [Saver.raise, hp, Saver.goto]⟩
    | _ =>
      rw [hp] at hsaved
      cases hsaved
  obtain ⟨hdone,hselect,hraised,hlasting,hapart,hraise⟩ := hfacts
  have hstrategy := h.saver hselect hraised
  have hpublic := (h.done hdone).1
  have hraised : Inv call strategyId ⟨w.store,w.saver.raise,w.recovery⟩ := by
    refine h.quiet (quiet_raise _) (fun _ _ => hstrategy) ?_ ?_ ?_ ?_ fun _ => hpublic
    · exact Saver.fits_raise _ _
    all_goals
      obtain hp | hp := hraise
      · simp only [hp]
        trivial
      · simp only [hp]
        first | exact hdone | trivial
  cases e with
  | fails left =>
    have hspoil : spoil call ⟨w.store,w.saver⟩ left = w.store := spoil_of_not_lasting hlasting left
    simp only [Live.step, Saving.step, hspoil]
    exact hraised
  | proceeds =>
    cases hattempt : attempt call ⟨w.store,w.saver⟩ with
    | none =>
      simp only [Live.step, step_of_raise hattempt]
      exact hraised
    | some s' =>
      simp only [Live.step, step_of_attempt hattempt]
      have hkey : key call ⟨w.store,w.saver⟩ = (strategyId, call.runId) := by simp [key, hstrategy]
      have hquiet := quiet_attempt hapart hattempt
      obtain ⟨hsaved',hstale',hpublic'⟩ :=
        saved_attempt hsaved h.stale (by unfold folder; rw [hkey]; exact hpublic) hattempt
      rw [hkey] at hpublic'
      refine h.quiet hquiet (fun _ _ => hquiet.strategyId.trans hstrategy) ?_ hstale' ?_ ?_ fun _ => hpublic'
      all_goals
        cases hp : s'.saver.point with
        | staleLook | removeStale _ | returned => first | exact hdone | trivial
        | _ =>
          rw [hp] at hsaved'
          cases hsaved'

theorem Inv.save (h : Inv call strategyId w) (e : Event C) : Inv call strategyId (w.step call (.save e)) := by
  cases hp : w.saver.point with
  | select => exact h.save_select hp e
  | mkdir | prepare | write _ | validate _ | check _ | look | backUp
  | publish _ => exact h.save_draft (by rw [hp]; rfl) (by simp [hp]) e
  | update | insertTrade _ | insertArtifact _ | commit => exact h.save_storing e (by simp [hp])
  | staleLook | removeStale _ | returned => exact h.save_saved (by rw [hp]; rfl) e
  | raised =>
    obtain ⟨store,⟨point,mine,backup,published⟩,recovery⟩ := w
    cases hp
    cases e with
    | fails | proceeds => exact h
  | _ => exact h.save_condemned (by rw [hp]; rfl) (by simp [hp]) e

end Call

/-! ### Every order of the steps -/

/-- Every step of either process keeps the invariant. -/
theorem Inv.step (h : Inv call strategyId w) (op : LiveOp C) (hspared : w.Spared call (strategyId, call.runId) op) :
    Inv call strategyId (w.step call op) := by
  cases op with
  | save e => exact h.save e
  | recover => exact h.recover hspared
  | again =>
    simp only [Live.step]
    split
    · exact ⟨h.row,h.saver,h.fits,h.stale,h.journal,h.progress,h.done,h.unlisted,h.pending,
        fun _ hkey => absurd hkey not_mem_nil,h.others⟩
    · exact h

/-- A run that has no result yet. If no recovery that has the run on its list goes on once the artifacts of the result
are checked, every run that is done has its artifacts at every moment. It is enough that the recovery never takes a
file from the directory of the result by then. -/
theorem live_recovery_sound (call : SaveCall C R T) (prior : Option (Files C)) (store : Store C R T) (row : Run R)
    (hrow : store.stored.runs.find? call.runId = some row) (hstatus : row.status ≠ .done)
    (hfolder : store.folders (row.strategyId, call.runId) = .initial prior)
    (hlisted : store.stored.listed call.runId = []) (hsound : store.Sound) (hwriter : store.writer = none)
    (ops : List (LiveOp C)) :
    (EachStep (Live.step call) (Live.Apart call (row.strategyId, call.runId)) ⟨store,.start,.idle⟩ ops →
      Always (Live.step call) (fun w => w.store.Sound) ⟨store,.start,.idle⟩ ops) ∧
    (EachStep (Live.step call) (Live.Spared call (row.strategyId, call.runId)) ⟨store,.start,.idle⟩ ops →
      Always (Live.step call) (fun w => w.store.Sound) ⟨store,.start,.idle⟩ ops) := by
  have hne : store.stored.status call.runId ≠ some .done := by simp [Db.status, hrow, hstatus]
  have hstart : Inv call row.strategyId ⟨store,.start,.idle⟩ := by
    refine ⟨by simp [hrow],fun h => absurd rfl h,?_,trivial,fun d => by simp [hwriter],hne,fun h => absurd h hne,
      fun _ => hlisted,
      fun d => by simp [hwriter],fun _ hkey => absurd hkey not_mem_nil,fun r hr hdone _ => hsound r hr hdone⟩
    rw [hfolder]
    refine ⟨⟨?_,by simp [Folder.initial]⟩,rfl,rfl,rfl⟩
    cases prior <;> simp [Folder.initial]
  refine ⟨fun h => ?_,fun h => ?_⟩
  · exact h.always (fun _ op hw hop => hw.step op hop.spared) (fun _ hw => hw.sound) hstart
  · exact h.always (fun _ op hw hop => hw.step op hop) (fun _ hw => hw.sound) hstart

/-- The recovery selects the run, the call publishes its result, the recovery removes it, and
the call commits. -/
theorem live_result_lost :
    let w := run (Live.step .sample) ⟨.sample none,.start,.idle⟩
      (.recover 20 false :: List.replicate 14 (.save .proceeds) ++
      List.replicate 11 (.recover 20 false) ++ List.replicate 7 (.save .proceeds))
    w.saver.point.ended ∧ w.recovery.ended ∧ w.store.stored.status "run_1" = some .done ∧
      (w.store.folders ("trend", "run_1")).content = none := by decide +kernel

theorem spared_saves (call : SaveCall C R T) (key : String × String) (w : Live C R T) (events : List (Event C)) :
    EachStep (Live.step call) (Live.Spared call key) w (events.map .save) := by
  induction events generalizing w with
  | nil => trivial
  | cons _ _ ih => exact ⟨trivial,ih _⟩

/-- The recovery comes first. -/
theorem recovered_before_saved : Always (Live.step .sample) (fun w => w.store.Sound) ⟨.sample none,.start,.idle⟩
      (List.replicate 7 (.recover 20 false) ++ (List.replicate 21 .proceeds).map .save) := by
  refine (live_recovery_sound .sample none (.sample none) ⟨"run_1","trend",.running,none,none,0,none⟩ rfl
    (by simp) rfl rfl ?_ rfl _).2 ?_
  · intro r hr hdone
    obtain rfl := mem_singleton.mp hr
    cases hdone
  · refine eachStep_append.mpr ⟨?_,spared_saves _ _ _ _⟩
    exact ⟨fun _ => rfl,fun _ => rfl,fun _ => rfl,fun _ => rfl,fun _ => rfl,fun _ => rfl,fun _ => rfl,trivial⟩

end OpenPine.Backtests
