import Mathlib.Data.List.Chain
import OpenPine.State.Readable
import OpenPine.Workers.StrategyJobExecutor

/-! # The chain of saved runs

Jobs of one strategy reach the executor one after the other, in any order and any number
of times. The snapshot of the last saved bar is the only one a lookup finds, so a bar at
or before it is skipped, and a later bar starts from the state that was saved there.
-/
namespace OpenPine.Workers
open Python State Runs Session StrategyJobExecutor SnapshotFilter List
variable {ρ β : Type} {d : Delivery ρ}

structure Saved (ρ : Type) where
  barTime : ℤ
  resumeState : Option ρ

/-- The store holds the snapshot of the last saved bar of the strategy, and none that is later. -/
structure Tracks (c : Codec (Option ρ) β) (x : Session β) (strategy : StrategyInstance) (timeframe : String)
    (last : Option (Saved ρ)) : Prop where
  sound : x.disk.Sound
  policy : x.store.savePolicy = .everyBar
  current : x.store.indexSignature = x.disk.pathSignature
  bounded : ∀ m ∈ x.disk.entries strategy.strategyId, ∃ l ∈ last, m.barTime ≤ l.barTime
  absent : last = none → ∀ f, x.store.latest strategy.strategyId f = none
  found : ∀ l, last = some l → ∃ snap state,
    (∀ f, x.store.latest strategy.strategyId f = if f.Admits snap then some snap else none) ∧
    (∀ bar : Bar, bar.timeframe = timeframe → (stateFilter strategy bar).Admits snap) ∧ snap.barTime = l.barTime ∧
    Session.loadState c x.disk snap = .ok (some state) ∧ state.stateData = l.resumeState

theorem admits_before {f : SnapshotFilter} (hf : f.atOrBeforeBarTime = none) (t : ℤ) (m : SnapshotMetadata) :
    Admits { f with atOrBeforeBarTime := some t } m ↔ f.Admits m ∧ m.barTime ≤ t := by simp [Admits, hf, and_assoc]

namespace Tracks
variable {c : Codec (Option ρ) β} {x : Session β} {strategy : StrategyInstance} {timeframe : String}
  {last : Option (Saved ρ)} {bar : Bar}

theorem reloadIfChanged (h : Tracks c x strategy timeframe last) : x.reloadIfChanged = x :=
  reloadIfChanged_of_current h.current

theorem latest_none (h : Tracks c x strategy timeframe none) (f : SnapshotFilter) :
    x.latestSnapshotMetadata strategy.strategyId f = (none, x) := by
  rw [latestSnapshotMetadata, h.reloadIfChanged, h.absent rfl]

theorem latest_some {l : Saved ρ} (h : Tracks c x strategy timeframe (some l)) (hbar : bar.timeframe = timeframe) :
    ∃ snap, x.latestSnapshotMetadata strategy.strategyId (stateFilter strategy bar) = (some snap, x) ∧
      snap.barTime = l.barTime := by
  obtain ⟨snap,state,hlatest,hadm,htime,-⟩ := h.found l rfl
  refine ⟨snap,?_,htime⟩
  rw [latestSnapshotMetadata, h.reloadIfChanged, hlatest, if_pos (hadm bar hbar)]

section
variable (h : Tracks c x strategy timeframe last)
include h

theorem load (hbar : bar.timeframe = timeframe) (hnew : ∀ l ∈ last, l.barTime < bar.time) :
    loadRuntimeSnapshot c x strategy bar = (.ok (last.bind Saved.resumeState), x) := by
  unfold loadRuntimeSnapshot
  cases last with
  | none =>
    rw [loadLatestCompatible, h.latest_none]
    rfl
  | some l =>
    obtain ⟨snap,state,hlatest,hadm,htime,hload,hstate⟩ := h.found l rfl
    have hbefore : Admits { stateFilter strategy bar with atOrBeforeBarTime := some (bar.time - 1) } snap := by
      refine (admits_before rfl _ snap).mpr ⟨hadm bar hbar,?_⟩
      have := hnew l rfl
      omega
    rw [loadLatestCompatible, latestSnapshotMetadata, h.reloadIfChanged, hlatest, if_pos hbefore]
    simp only [hload, Except.map, Option.bind_some, hstate]

theorem saveDue (sid : String) : SaveDue x.store sid := by
  rintro ⟨hpolicy,-⟩
  rw [h.policy] at hpolicy
  cases hpolicy

theorem retains {t : ℤ} (hnew : ∀ l ∈ last, l.barTime < t) (now : ℤ) : x.Retains strategy.strategyId t now := by
  unfold Retains
  have hnone : (x.disk.entries strategy.strategyId).countP (fun m => toLex (t, now) ≤ m.age) = 0 := by
    rw [countP_eq_zero]
    intro m hm hle
    obtain ⟨l,hl,hml⟩ := h.bounded m hm
    have hlt : m.barTime < t := hml.trans_lt (hnew l hl)
    have hage : toLex (t, now) ≤ toLex (m.barTime, m.savedAt) := of_decide_eq_true hle
    rcases Prod.Lex.toLex_le_toLex.mp hage with hlt' | ⟨heq,-⟩
    · exact absurd hlt' (not_lt.mpr hlt.le)
    · exact hlt.ne heq.symm
  rw [hnone]
  exact x.store.keepsOne

section
variable (hc : c.Faithful) (hbar : bar.timeframe = timeframe) (hnew : ∀ l ∈ last, l.barTime < bar.time)
include hc hbar hnew

theorem commit {resume : Option ρ} {now : ℤ} {disk : Disk β} {snap : SnapshotMetadata} {packed : β}
    (hwrote : Wrote c x.disk disk (d.runtimeState strategy bar resume) none now snap packed) :
    snap.barTime = bar.time ∧ Tracks c (commit ⟨x.store,disk⟩ snap) strategy timeframe (some ⟨bar.time,resume⟩) := by
  obtain ⟨id,size,reason,hsnap⟩ := hwrote.metadata
  have hsid : snap.strategyId = strategy.strategyId := by rw [hsnap]; rfl
  have htime : snap.barTime = bar.time := by rw [hsnap]; rfl
  have hret := (hwrote.retains_iff x.store).mpr (h.retains hnew now)
  have hmem := (mem_commit_iff (x := ⟨x.store,disk⟩) hwrote.sound hwrote.written).mpr hret
  refine ⟨htime,sound_commit hwrote.sound hwrote.written,?_,persist_signature,fun m hm => ?_,nofun,?_⟩
  · exact (reload_savePolicy (x := ⟨x.store,disk⟩)).trans h.policy
  · refine ⟨_,rfl,?_⟩
    rcases mem_commit_entries hwrote.sound hm with ⟨rfl,-⟩ | ⟨m₀,hm₀,hm₀'⟩
    · exact htime.le
    · obtain ⟨l,hl,hle⟩ := h.bounded m₀ (hwrote.entries _ ▸ hm₀)
      have hsame : m.barTime = m₀.barTime := by
        rcases hm₀' with rfl | rfl
        · rfl
        · exact m₀.supersede_barTime
      exact hsame.trans_le (hle.trans (hnew l hl).le)
  · rintro l ⟨⟩
    refine ⟨snap,{ d.runtimeState strategy bar resume with savedAt := 0 },fun f => ?_,fun bar' hbar' => ?_,htime,?_,rfl⟩
    · have hlatest {m} := latest_commit (x := ⟨x.store,disk⟩) hwrote.sound hwrote.written (f := f) (m := m)
      rw [← hsid]
      split <;> rename_i hadm
      · exact hlatest.mpr ⟨rfl,hadm,hret⟩
      · cases hl : (Session.commit ⟨x.store,disk⟩ snap).store.latest snap.strategyId f with
        | none => rfl
        | some => exact absurd (hlatest.mp hl).2.1 hadm
    · rw [hsnap]
      simp [Admits, stateFilter, StrategyState.snapshotMetadata, Delivery.runtimeState, Bar.timeframeKey, hbar, hbar']
    · have hfile := (commit_file? hwrote.sound hwrote.written hmem).trans hwrote.written.file
      have hrestore := hwrote.readsBack_iff.mpr (hc.readsBack hwrote.encoded)
      simp only [loadState, hfile, hrestore, Except.map]

theorem save (hfault : ∀ e, d.saveFault ≠ some (.atIndex e)) (resume : Option ρ) :
    (∃ e, d.saveRuntimeSnapshot c x strategy bar resume = (.error e, x)) ∨
    ∃ snap x', d.saveRuntimeSnapshot c x strategy bar resume = (.ok (some snap), x') ∧ d.saveFault = none ∧
      (∃ encoded, c.encodePayload ((d.runtimeState strategy bar resume).snapshotPayload none) = .ok encoded) ∧
      snap.barTime = bar.time ∧ Tracks c x' strategy timeframe (some ⟨bar.time,resume⟩) := by
  unfold Delivery.saveRuntimeSnapshot
  cases hsave : d.saveFault with
  | some fault =>
    cases fault with
    | beforeIndex e => exact .inl ⟨e,rfl⟩
    | atIndex e => exact absurd hsave (hfault e)
  | none =>
    have hdue : SaveDue x.store (d.runtimeState strategy bar resume).strategyId := h.saveDue _
    rcases saveSnapshot_due_cases c h.sound hdue d.job.jobType.value none (d.clock .snapshotSaved) with
      ⟨e,-,he⟩ | ⟨snap,disk,packed,hwrote,he⟩
    · exact .inl ⟨e,he⟩
    · exact .inr ⟨snap,_,he,rfl,⟨_,hwrote.encoded⟩,h.commit hc hbar hnew hwrote⟩

end

end

end Tracks

/-! ### What a delivery can do -/

/-- The delivery is for a bar of the strategy: the registry knows the strategy, and the
stored bars of a query begin where it does. -/
structure Delivery.For (d : Delivery ρ) (strategy : StrategyInstance) (timeframe : String) : Prop where
  strategy : ∀ id s, d.getStrategy id = .ok s → s = strategy
  bars : ∀ q bars bar, d.getBars q = .ok bars → bar ∈ bars → bar.time = q.startMs ∧ bar.timeframe = timeframe

theorem Delivery.For.of_prepare {strategy : StrategyInstance} {timeframe : String} (h : d.For strategy timeframe)
    {o : Outside ρ} {s : StrategyInstance} {bar : Bar} (hp : d.prepare o = .ok (s, bar)) :
    s = strategy ∧ d.job.input.barTime = some bar.time ∧ bar.timeframe = timeframe := by
  unfold Delivery.prepare at hp
  obtain ⟨-,-,hp⟩ := bind_eq_ok.mp hp
  obtain ⟨payload,hpayload,hp⟩ := bind_eq_ok.mp hp
  obtain ⟨s',hs,hp⟩ := bind_eq_ok.mp hp
  obtain ⟨bar',hbar,hp⟩ := bind_eq_ok.mp hp
  cases hp
  obtain ⟨frame,-,hbar⟩ := bind_eq_ok.mp hbar
  obtain ⟨bars,hbars,hbar⟩ := bind_eq_ok.mp hbar
  have hone : bars = [bar] := by
    split at hbar
    · cases hbar
      rfl
    · cases hbar
  obtain ⟨htime,hframe⟩ := h.bars _ _ bar hbars (by rw [hone]; exact mem_cons_self)
  have hinput : d.job.input.barTime = some payload.barTime := by
    unfold jobPayload at hpayload
    split at hpayload
    · rename_i hinput
      cases hpayload
      exact hinput
    · cases hpayload
  exact ⟨h.strategy _ _ hs,by rw [hinput, htime],hframe⟩

/-- What `process` does with a delivery when the last saved bar is known. -/
inductive Processes (o : Outside ρ) (c : Codec (Option ρ) β) (strategy : StrategyInstance) (timeframe : String)
    (x : StrategyJobExecutor β) (d : Delivery ρ) (last : Option (Saved ρ)) : Processed ρ β → Prop
  /-- It fails before the runtime completes. -/
  | failed (bar : Option Bar) (e : String) (hprepare : ∀ b ∈ bar, d.prepare o = .ok (strategy, b))
      (hcause : ∀ b r, d.prepare o = .ok (strategy, b) →
        d.runStrategy strategy b (last.bind Saved.resumeState) = .ok r → r.completed = false) :
    Processes o c strategy timeframe x d last { executor := x, result := StrategyJobExecutor.failed d e, bar := bar }
  /-- The bar is not later than the last saved one. -/
  | skipped (bar : Bar) (l : Saved ρ) (result : StrategyJobExecutionResult)
      (hprepare : d.prepare o = .ok (strategy, bar))
      (hlast : last = some l) (hle : bar.time ≤ l.barTime) (hstatus : result.status = .skipped) :
    Processes o c strategy timeframe x d last { executor := x, result := result, bar := some bar }
  /-- The runtime completes and the snapshot is not saved. -/
  | unsaved (bar : Bar) (run : CompletedRun ρ) (e : StateError) (hprepare : d.prepare o = .ok (strategy, bar))
      (hnew : ∀ l ∈ last, l.barTime < bar.time)
      (hcause : (d.saveRuntimeSnapshot c x.stateStore strategy bar run.result.resumeOut).1 = .error e) :
    Processes o c strategy timeframe x d last
      { executor := x, result := StrategyJobExecutor.failed d e.message, bar := some bar, run := some run }
  /-- The snapshot is saved, and the ledger is next. -/
  | saved (bar : Bar) (run : CompletedRun ρ) (snap : SnapshotMetadata) (stateStore : Session β)
      (hprepare : d.prepare o = .ok (strategy, bar)) (hnew : ∀ l ∈ last, l.barTime < bar.time)
      (hresume : run.resumeState = last.bind Saved.resumeState)
      (hrun : d.runStrategy strategy bar run.resumeState = .ok run.result) (hcompleted : run.result.completed = true)
      (hfault : d.saveFault = none) (hencoded : ∃ encoded,
        c.encodePayload ((d.runtimeState strategy bar run.result.resumeOut).snapshotPayload none) = .ok encoded)
      (htime : snap.barTime = bar.time)
      (htracks : Tracks c stateStore strategy timeframe (some ⟨bar.time,run.result.resumeOut⟩)) :
    Processes o c strategy timeframe x d last
      (StrategyJobExecutor.finish o { x with stateStore := stateStore } d strategy bar run (some snap))

namespace StrategyJobExecutor

section Finish
variable (o : Outside ρ) (x : StrategyJobExecutor β) (d : Delivery ρ) (strategy : StrategyInstance) (bar : Bar)
  (run : CompletedRun ρ) (snapshot : Option SnapshotMetadata)

theorem finish_fields : (finish o x d strategy bar run snapshot).executor.stateStore = x.stateStore ∧
    (finish o x d strategy bar run snapshot).run = some run ∧
    (finish o x d strategy bar run snapshot).snapshot = snapshot ∧
    (finish o x d strategy bar run snapshot).bar = some bar ∧
    (finish o x d strategy bar run snapshot).executor.ledger =
      (d.recordLedger o strategy bar run.result x.ledger).2 := by
  unfold finish
  split <;> rename_i h <;> exact ⟨rfl,rfl,rfl,rfl,by rw [h]⟩

@[simp] theorem finish_stateStore :
    (finish o x d strategy bar run snapshot).executor.stateStore = x.stateStore := (finish_fields ..).1

@[simp] theorem finish_run : (finish o x d strategy bar run snapshot).run = some run := (finish_fields ..).2.1

@[simp] theorem finish_snapshot : (finish o x d strategy bar run snapshot).snapshot = snapshot :=
  (finish_fields ..).2.2.1

@[simp] theorem finish_bar : (finish o x d strategy bar run snapshot).bar = some bar := (finish_fields ..).2.2.2.1

@[simp] theorem finish_ledger : (finish o x d strategy bar run snapshot).executor.ledger =
    (d.recordLedger o strategy bar run.result x.ledger).2 := (finish_fields ..).2.2.2.2

end Finish

variable {o : Outside ρ} {c : Codec (Option ρ) β} {strategy : StrategyInstance} {timeframe : String}
  {x : StrategyJobExecutor β} {d : Delivery ρ} {last : Option (Saved ρ)}

section
variable (hc : c.Faithful) (hx : Tracks c x.stateStore strategy timeframe last)
include hc hx

theorem processes_runBar (hfault : ∀ e, d.saveFault ≠ some (.atIndex e)) {bar : Bar}
    (hprepare : d.prepare o = .ok (strategy, bar)) (hbar : bar.timeframe = timeframe)
    (hnew : ∀ l ∈ last, l.barTime < bar.time) :
    Processes o c strategy timeframe x d last (runBar o c x d strategy bar) := by
  unfold runBar
  rw [hx.load hbar hnew]
  dsimp only
  cases hrun : d.runStrategy strategy bar (last.bind Saved.resumeState) with
  | error e =>
    refine .failed (some bar) e (fun b hb => Option.some.inj hb ▸ hprepare) fun b r hb hr => ?_
    cases hprepare.symm.trans hb
    cases hrun.symm.trans hr
  | ok r =>
    dsimp only
    split <;> rename_i hcompleted
    · rcases hx.save hc hbar hnew hfault r.resumeOut with ⟨e,he⟩ | ⟨snap,stateStore,he,hsave,hencoded,htime,htracks⟩
      · rw [he]
        exact .unsaved bar ⟨_,r⟩ e hprepare hnew (congrArg Prod.fst he)
      · rw [he]
        exact .saved bar ⟨_,r⟩ snap stateStore hprepare hnew rfl hrun hcompleted hsave hencoded htime htracks
    · refine .failed (some bar) _ (fun b hb => Option.some.inj hb ▸ hprepare) fun b r' hb hr' => ?_
      cases hprepare.symm.trans hb
      cases hrun.symm.trans hr'
      exact Bool.eq_false_iff.mpr hcompleted

theorem processes (hd : d.For strategy timeframe) (hfault : ∀ e, d.saveFault ≠ some (.atIndex e)) :
    Processes o c strategy timeframe x d last (process o c x d) := by
  unfold process
  cases hprepare : d.prepare o with
  | error e =>
    refine .failed none e nofun fun b r hb => ?_
    cases hprepare.symm.trans hb
  | ok r =>
    obtain ⟨s,bar⟩ := r
    obtain ⟨rfl,-,hbar⟩ := hd.of_prepare hprepare
    cases last with
    | none =>
      simp only [hx.latest_none]
      exact processes_runBar hc hx hfault hprepare hbar nofun
    | some l =>
      obtain ⟨snap,hlatest,htime⟩ := hx.latest_some hbar
      simp only [hlatest]
      split <;> rename_i hle
      · exact .skipped bar l _ hprepare rfl (htime ▸ hle) rfl
      · refine processes_runBar hc hx hfault hprepare hbar fun l' hl' => ?_
        cases hl'
        exact htime ▸ not_le.mp hle

end

end StrategyJobExecutor

/-! ### Runs -/

structure Worker (ρ β : Type) where
  executor : StrategyJobExecutor β
  log : List (Delivery ρ × Processed ρ β) := []

def Worker.create (disk : Disk β) (intervalBars maxSnapshots : ℤ) (ledger : Option StrategyLedger) : Worker ρ β :=
  { executor := ⟨⟨.create .everyBar intervalBars maxSnapshots disk,disk⟩,ledger⟩ }

def Worker.step (o : Outside ρ) (c : Codec (Option ρ) β) (w : Worker ρ β) (d : Delivery ρ) : Worker ρ β :=
  { executor := (w.executor.process o c d).executor, log := w.log ++ [(d, w.executor.process o c d)] }

structure SavedRun (ρ : Type) where
  barTime : ℤ
  (resumeIn resumeOut : Option ρ)
deriving DecidableEq

def SavedRun.saved (r : SavedRun ρ) : Saved ρ := ⟨r.barTime,r.resumeOut⟩

def Processed.savedRun? (p : Processed ρ β) : Option (SavedRun ρ) :=
  match p.run, p.snapshot with
  | some run, some snap => some ⟨snap.barTime,run.resumeState,run.result.resumeOut⟩
  | _, _ => none

def Worker.savedRuns (w : Worker ρ β) : List (SavedRun ρ) := w.log.filterMap fun e => e.2.savedRun?

structure ResumeChain (runs : List (SavedRun ρ)) : Prop where
  increasing : runs.Pairwise fun r r' => r.barTime < r'.barTime
  once : (runs.map SavedRun.barTime).Nodup
  first : ∀ r ∈ runs.head?, r.resumeIn = none
  linked : runs.IsChain fun r r' => r'.resumeIn = r.resumeOut

theorem ResumeChain.nil : ResumeChain ([] : List (SavedRun ρ)) := ⟨.nil,.nil,nofun,.nil⟩

theorem ResumeChain.concat {runs : List (SavedRun ρ)} (h : ResumeChain runs) {r : SavedRun ρ}
    (htime : ∀ r' ∈ runs.getLast?, r'.barTime < r.barTime)
    (hresume : r.resumeIn = (runs.getLast?.map SavedRun.saved).bind Saved.resumeState) : ResumeChain (runs ++ [r]) := by
  have htrans : IsTrans (SavedRun ρ) fun r r' => r.barTime < r'.barTime := ⟨fun _ _ _ => lt_trans⟩
  have hincreasing : (runs ++ [r]).Pairwise fun r r' => r.barTime < r'.barTime := by
    rw [← isChain_iff_pairwise, isChain_append]
    refine ⟨h.increasing.isChain,.singleton _,fun r' hr' r'' hr'' => ?_⟩
    cases hr''
    exact htime r' hr'
  refine ⟨hincreasing,?_,?_,?_⟩
  · rw [nodup_iff_pairwise_ne, pairwise_map]
    exact hincreasing.imp fun hlt => hlt.ne
  · cases runs with
    | nil =>
      rintro _ ⟨⟩
      exact hresume
    | cons => exact h.first
  · rw [isChain_append]
    refine ⟨h.linked,.singleton _,fun r' hr' r'' hr'' => ?_⟩
    cases hr''
    rw [hresume, Option.mem_def.mp hr']
    rfl

namespace Worker
variable {o : Outside ρ} {c : Codec (Option ρ) β} {strategy : StrategyInstance} {timeframe : String} {w : Worker ρ β}

/-- The saved runs form a chain, and the store holds the snapshot of the last one. -/
structure Chained (c : Codec (Option ρ) β) (strategy : StrategyInstance) (timeframe : String)
    (w : Worker ρ β) : Prop where
  chain : ResumeChain w.savedRuns
  tracks : Tracks c w.executor.stateStore strategy timeframe (w.savedRuns.getLast?.map SavedRun.saved)

theorem savedRuns_step (d : Delivery ρ) :
    (w.step o c d).savedRuns = w.savedRuns ++ (w.executor.process o c d).savedRun?.toList := by
  unfold savedRuns step
  rw [filterMap_append]
  cases hsaved : (w.executor.process o c d).savedRun? <;> simp [hsaved]

/-- A delivery continues the chain. -/
theorem Chained.step (h : w.Chained c strategy timeframe) (hc : c.Faithful) (hd : d.For strategy timeframe)
    (hfault : ∀ e, d.saveFault ≠ some (.atIndex e)) :
    (w.step o c d).Chained c strategy timeframe := by
  have hidle : ∀ {p : Processed ρ β}, p = w.executor.process o c d → p.savedRun? = none → p.executor = w.executor →
      (w.step o c d).Chained c strategy timeframe := by
    rintro p rfl hsaved hsame
    have hruns : (w.step o c d).savedRuns = w.savedRuns := by
      rw [savedRuns_step, hsaved]
      exact append_nil _
    refine ⟨hruns ▸ h.chain,?_⟩
    rw [hruns, Worker.step, hsame]
    exact h.tracks
  have hcases := processes (o := o) hc h.tracks hd hfault
  generalize hp : w.executor.process o c d = p at hcases
  cases hcases with
  | failed | skipped | unsaved => exact hidle hp.symm rfl rfl
  | saved bar run _ _ _ hnew hresume _ _ _ _ htime htracks =>
    have hsaved : (w.executor.process o c d).savedRun? = some ⟨bar.time,run.resumeState,run.result.resumeOut⟩ := by
      rw [hp, Processed.savedRun?, finish_run, finish_snapshot]
      exact congrArg (fun t => some (SavedRun.mk t run.resumeState run.result.resumeOut)) htime
    have hruns : (w.step o c d).savedRuns = w.savedRuns ++ [⟨bar.time,run.resumeState,run.result.resumeOut⟩] := by
      rw [savedRuns_step, hsaved]
      rfl
    refine ⟨?_,?_⟩
    · rw [hruns]
      refine h.chain.concat (fun r hr => ?_) hresume
      exact hnew r.saved (by rw [Option.mem_def.mp hr]; rfl)
    · rw [hruns, List.getLast?_concat, Worker.step, hp]
      rw [finish_stateStore]
      exact htracks

theorem chained_create {disk : Disk β} (hdisk : disk.Sound) (hnone : disk.entries strategy.strategyId = [])
    (intervalBars maxSnapshots : ℤ) (ledger : Option StrategyLedger) :
    (create disk intervalBars maxSnapshots ledger : Worker ρ β).Chained c strategy timeframe := by
  obtain ⟨s,hs⟩ := Directory.create_eq_reload .everyBar intervalBars maxSnapshots disk
  have hof : (StateStore.create .everyBar intervalBars maxSnapshots disk).snapshots.of strategy.strategyId = [] := by
    rw [hs, of_reload (x := ⟨s,disk⟩) hdisk, hnone]
  refine ⟨.nil,hdisk,?_,?_,?_,fun _ f => ?_,nofun⟩
  · unfold create StateStore.create StateStore.loadMetadataIndex
    dsimp only
    split <;> rfl
  · change (StateStore.create .everyBar intervalBars maxSnapshots disk).indexSignature = disk.pathSignature
    rw [hs]
    exact reload_signature ⟨s,disk⟩
  · intro m hm
    replace hm : m ∈ disk.entries strategy.strategyId := hm
    rw [hnone] at hm
    cases hm
  · change StateStore.latest (StateStore.create .everyBar intervalBars maxSnapshots disk) strategy.strategyId f = none
    rw [StateStore.latest, hof]
    rfl

end Worker

/-- In whatever order and however often the jobs of a strategy are delivered, the saved
bars have increasing times, and every saved run starts from the resume state that the
saved run before it has left. -/
theorem resume_chain (o : Outside ρ) (c : Codec (Option ρ) β) (hc : c.Faithful) (ops : List (Op (Option ρ)))
    (intervalBars maxSnapshots : ℤ) (ledger : Option StrategyLedger) (strategy : StrategyInstance) (timeframe : String)
    (hnone : (run (Directory.step c) {} ops).disk.entries strategy.strategyId = []) (deliveries : List (Delivery ρ))
    (hfor : ∀ d ∈ deliveries, d.For strategy timeframe)
    (hfault : ∀ d ∈ deliveries, ∀ e, d.saveFault ≠ some (.atIndex e)) :
    ResumeChain (run (Worker.step o c)
      (.create (run (Directory.step c) {} ops).disk intervalBars maxSnapshots ledger) deliveries).savedRuns := by
  have hstart : Worker.Chained c strategy timeframe
      (.create (run (Directory.step c) {} ops).disk intervalBars maxSnapshots ledger) :=
    Worker.chained_create (Directory.sound_run c ops).disk hnone intervalBars maxSnapshots ledger
  refine Worker.Chained.chain
    (run_invariant_of_mem (P := Worker.Chained c strategy timeframe) (fun w d hd hw => ?_) hstart)
  exact hw.step hc (hfor d hd) (hfault d hd)

/-! ### A strategy to look at -/

def StrategyInstance.sample : StrategyInstance :=
  { strategyId := "s", artifactId := "a", paramsHash := "p", exchange := "Binance", marketType := "spot"
    symbol := "btcusdt", priceType := "trade", timeframe := "1m" }

def Outside.plain : Outside ρ :=
  { parseTimeframe := fun timeframe => .ok ⟨timeframe,some 60000⟩, digest := fun key => key.id.getD ""
    truthy := fun _ => true, brokerPosition := fun _ => none }

def Bar.minute (t : ℤ) : Bar := ⟨t,t + 1,"1m"⟩

/-- A paper job for the bar at the time, and what the runtime makes of a resume state. -/
def Delivery.sample (t : ℤ) (run : Option ρ → RuntimeResult ρ) : Delivery ρ :=
  { job :=
      { id := "job", jobType := .paperBarProcess, strategyId := some "s"
        input :=
          { strategyId := some "s", instrumentKey := some "binance:spot:BTCUSDT", timeframe := some "1m",
            barTime := some t } }
    getStrategy := fun _ => .ok .sample
    getBars := fun q => .ok (if q.startMs = t then [.minute t] else [])
    runStrategy := fun _ _ resume => .ok (run resume) }

theorem Delivery.sample_for (t : ℤ) (run : Option ρ → RuntimeResult ρ) : (Delivery.sample t run).For .sample "1m" := by
  refine ⟨fun _ _ h => (Except.ok.inj h).symm,fun q bars bar h hbar => ?_⟩
  obtain rfl := Except.ok.inj h
  split at hbar
  · rename_i ht
    rw [mem_singleton.mp hbar]
    exact ⟨ht.symm,rfl⟩
  · cases hbar

def countBars (resume : Option ℕ) : RuntimeResult ℕ := { resumeState := some (resume.getD 0 + 1), rawResult := {} }

theorem repeated_deliveries_chained :
    let w := run (Worker.step .plain (Codec.plain (Option ℕ))) (.create {} 1 2 none)
      [.sample 1 countBars, .sample 3 countBars, .sample 2 countBars, .sample 3 countBars, .sample 4 countBars]
    w.savedRuns = [⟨1,none,some 1⟩,⟨3,some 1,some 2⟩,⟨4,some 2,some 3⟩] ∧ ResumeChain w.savedRuns := by
  refine ⟨rfl,resume_chain .plain (Codec.plain (Option ℕ)) (plain_faithful _) [] 1 2 none .sample "1m" rfl _ ?_ ?_⟩
  · simp [Delivery.sample_for]
  · simp [Delivery.sample]

end OpenPine.Workers
