import OpenPine.Recovery.Invalidation

/-! # What a rebuild starts from and replays

A rebuild starts from the active snapshot if that one lies before the repaired range,
and replays the bars from the start of the range on. It equals a full replay exactly
if no bar lies between the two, and it finds the latest valid snapshot exactly if that
one is the active one.
-/
namespace OpenPine.Recovery
open State Runs Python Session List
variable {σ ρ β : Type} {history : List ρ}

/-! ### Replaying a history -/

theorem filter_le_append_filter_gt {time : ρ → ℤ} (h : history.Pairwise (fun bar bar' => time bar < time bar'))
    (b : ℤ) :
    history.filter (fun bar => time bar ≤ b) ++ history.filter (fun bar => b < time bar) = history := by
  induction history with
  | nil => rfl
  | cons bar history ih =>
    obtain ⟨hfirst,hrest⟩ := pairwise_cons.mp h
    by_cases hbar : time bar ≤ b
    · simp [hbar, ih hrest]
    · -- everything after `bar` is later than `b` as well
      have hlate : ∀ bar' ∈ history, b < time bar' := fun bar' hbar' => (not_le.mp hbar).trans (hfirst bar' hbar')
      have hnone : history.filter (fun bar' => time bar' ≤ b) = [] := by
        rw [filter_eq_nil_iff]
        intro bar' hbar'
        simpa using hlate bar' hbar'
      simpa [hbar, hnone] using ⟨not_le.mp hbar,hlate⟩

namespace StateRebuilder

/-- An orchestrator that serves a history and an engine that applies a step function. -/
def ofHistory (time : ρ → ℤ) (history : List ρ) (step : σ → ρ → σ) : StateRebuilder σ ρ :=
  { time := time, getBars := some fun _ _ start => .ok (history.filter fun bar => start ≤ time bar)
    processNextBar := some fun state bar => .ok { state with stateData := step state.stateData bar } }

def advance (time : ρ → ℤ) (step : σ → ρ → σ) (state : StrategyState σ) (bar : ρ) : StrategyState σ :=
  { state with stateData := step state.stateData bar, barTime := time bar }

def replayed (time : ρ → ℤ) (step : σ → ρ → σ) (history : List ρ) (t : ℤ) (state : StrategyState σ) :
    StrategyState σ := (history.filter fun bar => t ≤ time bar).foldl (advance time step) state

variable {time : ρ → ℤ} {step : σ → ρ → σ}

theorem foldl_advance_stateData (bars : List ρ) (state : StrategyState σ) :
    (bars.foldl (advance time step) state).stateData = bars.foldl step state.stateData := by
  induction bars generalizing state with
  | nil => rfl
  | cons bar _ ih => exact ih (advance time step state bar)

theorem foldl_advance_strategyId (bars : List ρ) (state : StrategyState σ) :
    (bars.foldl (advance time step) state).strategyId = state.strategyId := by
  induction bars generalizing state with
  | nil => rfl
  | cons bar _ ih => exact ih (advance time step state bar)

theorem foldlM_replayBar (history bars : List ρ) (done : Rebuilt σ ρ) :
    bars.foldlM (ofHistory time history step).replayBar done =
      .ok ⟨bars.foldl (advance time step) done.state,done.processed ++ bars⟩ := by
  induction bars generalizing done with
  | nil => simp [pure, Except.pure]
  | cons bar _ ih =>
    have hrest := ih ⟨advance time step done.state bar,done.processed ++ [bar]⟩
    rw [append_assoc] at hrest
    exact hrest

theorem replay_ofHistory (history : List ρ) (state : StrategyState σ) (t : ℤ) :
    (ofHistory time history step).replay state t =
      .ok ⟨replayed time step history t state,history.filter fun bar => t ≤ time bar⟩ :=
  foldlM_replayBar history _ ⟨state,[]⟩

/-! ### The start -/

variable {x : Session β} {c : Codec σ β} {sid : String} {t : ℤ} {state : StrategyState σ} {m : SnapshotMetadata}

theorem candidates_iff (h : x.disk.Sound) (hc : Cached x.store x.disk) (sid : String) (t : ℤ) :
    (x.listSnapshots sid).1.any (fun m => m.status = .active && m.barTime < t) = true ↔
      ∃ m, (x.latestSnapshotMetadata sid {}).1 = some m ∧ m.barTime < t := by
  have honce := (kept_reloadIfChanged h hc).cached.activeOnce sid
  have hlatest : ∀ m, (x.latestSnapshotMetadata sid {}).1 = some m ↔
      m ∈ x.reloadIfChanged.store.snapshots.of sid ∧ m.status = .active := by
    intro m
    have hsome := StateStore.latest_eq_some honce (f := {}) (m := m)
    simpa [SnapshotFilter.Admits, latestSnapshotMetadata] using hsome
  simp only [any_eq_true, hlatest, listSnapshots, mem_insertionSort, Bool.and_eq_true, decide_eq_true_eq, and_assoc]

theorem loadSnapshot_latest (hm : (x.latestSnapshotMetadata sid {}).1 = some m) :
    x.reloadIfChanged.loadSnapshot c sid = (loadState c x.disk m, x.reloadIfChanged) := by
  have hagain : x.reloadIfChanged.store.latest sid {} = some m := hm
  simp only [loadSnapshot, loadLatestCompatible, latestSnapshotMetadata, reloadIfChanged_idem, hagain,
    reloadIfChanged_disk]

theorem startState_of_latest (h : x.disk.Sound) (hc : Cached x.store x.disk)
    (hm : (x.latestSnapshotMetadata sid {}).1 = some m) (hlt : m.barTime < t)
    (hload : loadState c x.disk m = .ok (some state)) :
    startState c x sid t = (.ok state, x.reloadIfChanged) := by
  have hcand := (candidates_iff h hc sid t).mpr ⟨m,hm,hlt⟩
  have hx : (x.listSnapshots sid).2 = x.reloadIfChanged := rfl
  simp only [startState, hcand, hx, if_true, loadSnapshot_latest hm, hload]

/-- A rebuild starts from the latest active snapshot. -/
theorem startState_ok {x' : Session β} (h : x.disk.Sound) (hc : Cached x.store x.disk)
    (hs : startState c x sid t = (.ok state, x')) :
    ∃ m, (x.latestSnapshotMetadata sid {}).1 = some m ∧ m.barTime < t ∧ loadState c x.disk m = .ok (some state) := by
  by_cases hcand : (x.listSnapshots sid).1.any (fun m => m.status = .active && m.barTime < t) = true
  · obtain ⟨m,hm,hlt⟩ := (candidates_iff h hc sid t).mp hcand
    refine ⟨m,hm,hlt,?_⟩
    have hx : (x.listSnapshots sid).2 = x.reloadIfChanged := rfl
    simp only [startState, hcand, hx, if_true, loadSnapshot_latest hm] at hs
    cases hload : loadState c x.disk m with
    | error => simp [hload] at hs
    | ok loaded =>
      cases loaded with
      | none => simp [hload] at hs
      | some =>
        simp only [hload, Prod.mk.injEq, Except.ok.injEq] at hs
        rw [hs.1]
  · simp only [startState, hcand] at hs
    simp at hs

/-! ### The whole replay -/

/-- The strategy's active snapshot is the one of the bar at `b`, and holds this state. -/
def ActiveAt (c : Codec σ β) (x : Session β) (sid : String) (b : ℤ) (state : StrategyState σ) : Prop :=
  ∃ m, (x.latestSnapshotMetadata sid {}).1 = some m ∧ m.barTime = b ∧
    Session.loadState c x.disk m = .ok (some state) ∧ state.strategyId = sid

/-- The rebuild processes every bar after `b` once and in order, and it returns the state
of the full replay and leaves it as the one that is loaded next. -/
def FullReplay (c : Codec σ β) (r : StateRebuilder σ ρ) (x : Session β) (sid : String) (t : ℤ) (reason : String)
    (now : ℤ) (history : List ρ) (b : ℤ) (full : σ) : Prop :=
  ∃ rebuilt x', r.rebuild c x sid t reason now = (.ok rebuilt, x') ∧
    rebuilt.processed = history.filter (fun bar => b < r.time bar) ∧ rebuilt.state.stateData = full ∧
    (x'.loadSnapshot c sid).1 = .ok (some { rebuilt.state with savedAt := 0 })

def Savable (c : Codec σ β) (x : Session β) (state : StrategyState σ) (now : ℤ) : Prop :=
  Session.SaveDue x.store state.strategyId ∧ x.Retains state.strategyId state.barTime now ∧ c.ReadsBack state none

theorem savable_reloadIfChanged (c : Codec σ β) (x : Session β) (state : StrategyState σ) (now : ℤ) :
    Savable c x.reloadIfChanged state now ↔ Savable c x state now := by
  obtain ⟨-,-,-,hlimit⟩ := reloadIfChanged_config x
  unfold Savable Retains
  rw [saveDue_reloadIfChanged, reloadIfChanged_disk, hlimit]

theorem no_gap_iff {time : ρ → ℤ} {b : ℤ} (hbt : b < t) :
    history.filter (fun bar => t ≤ time bar) = history.filter (fun bar => b < time bar) ↔
      ∀ bar ∈ history, b < time bar → t ≤ time bar := by
  constructor
  · intro he bar hbar hlt
    have hmem : bar ∈ history.filter (fun bar => b < time bar) := mem_filter.mpr ⟨hbar,by simpa using hlt⟩
    rw [← he] at hmem
    simpa using (mem_filter.mp hmem).2
  · intro h
    refine filter_congr fun bar hbar => decide_eq_decide.mpr ⟨fun hle => hbt.trans_le hle,h bar hbar⟩

theorem rebuild_ofHistory {x₁ : Session β}
    (hstart : startState c x sid t = (.ok state, x₁)) (history : List ρ) (reason : String) (now : ℤ) :
    (ofHistory time history step).rebuild c x sid t reason now =
      saveRebuilt c x₁ sid ⟨replayed time step history t state,history.filter fun bar => t ≤ time bar⟩ reason now := by
  simp only [rebuild, hstart, replay_ofHistory]

theorem rebuild_of_saved {x₁ x₂ : Session β} (hstart : startState c x sid t = (.ok state, x₁))
    {reason : String} {now : ℤ} {snap : SnapshotMetadata}
    (hsave : x₁.saveSnapshot c (replayed time step history t state) reason false none now = (.ok (some snap), x₂)) :
    (ofHistory time history step).rebuild c x sid t reason now =
      (.ok ⟨replayed time step history t state,history.filter fun bar => t ≤ time bar⟩, x₂) := by
  rw [rebuild_ofHistory hstart, saveRebuilt, hsave]

theorem fullReplay_iff (h : x.disk.Sound) (hc : Cached x.store x.disk)
    (hsorted : history.Pairwise (fun bar bar' => time bar < time bar')) {init : σ} {b : ℤ} (hbt : b < t)
    (hactive : ActiveAt c x sid b state)
    (hstate : state.stateData = (history.filter (fun bar => time bar ≤ b)).foldl step init)
    (reason : String) (now : ℤ) :
    FullReplay c (ofHistory time history step) x sid t reason now history b (history.foldl step init) ↔
      (∀ bar ∈ history, b < time bar → t ≤ time bar) ∧
      Savable c x (replayed time step history t state) now := by
  obtain ⟨m,hm,rfl,hload,rfl⟩ := hactive
  have hkept := kept_reloadIfChanged h hc
  have hpath := h.paths (mem_of_latest h hc hm).1
  have hstart := startState_of_latest h hc hm hbt hload
  have hid : (replayed time step history t state).strategyId = state.strategyId := foldl_advance_strategyId _ state
  rw [← savable_reloadIfChanged, ← no_gap_iff hbt]
  constructor
  · rintro ⟨rebuilt,x',hrebuild,hprocessed,hdata,hloaded⟩
    rw [rebuild_ofHistory hstart, saveRebuilt] at hrebuild
    rcases saveSnapshot_cases c hkept.sound _ reason false none now with
      ⟨bars,he⟩ | ⟨e,he⟩ | ⟨snap,d,packed,hwrote,he⟩
    · rw [he] at hrebuild
      cases hrebuild
    · rw [he] at hrebuild
      cases hrebuild
    · rw [he] at hrebuild
      cases hrebuild
      rw [← hid] at hloaded
      obtain ⟨hret,hreads⟩ := (loadSnapshot_commit_iff hwrote _).mp hloaded
      exact ⟨hprocessed,saveDue_of_saved he,hret,hreads⟩
  · rintro ⟨hgap,hdue,hret,hreads⟩
    obtain ⟨packed₀,encoding,checksum,payload,henc,-⟩ := id hreads
    obtain ⟨snap,d,packed,hwrote,he⟩ := saveSnapshot_of_due hkept.sound hdue (hid.symm ▸ hpath) henc reason now
    refine ⟨_,_,rebuild_of_saved hstart he,hgap,?_,?_⟩
    · -- the bars up to `b` are in the snapshot, and the others are those that were replayed
      rw [replayed, foldl_advance_stateData, hstate, hgap, ← foldl_append, filter_le_append_filter_gt hsorted]
    · rw [← hid]
      exact (loadSnapshot_commit_iff hwrote _).mpr ⟨hret,hreads⟩

/-- A rebuild from the snapshot of the bar at `b` equals the full replay exactly if no
bar of the history lies after `b` and before `t`, and the store takes the result. -/
theorem rebuild_full_replay_iff (c : Codec σ β) (ops : List (Op σ)) (s : StateStore)
    (hs : s ∈ (run (Directory.step c) {} ops).stores) (time : ρ → ℤ) (history : List ρ)
    (hsorted : history.Pairwise (fun bar bar' => time bar < time bar')) (step : σ → ρ → σ) (init : σ)
    (sid : String) (b t : ℤ) (hbt : b < t) (state : StrategyState σ)
    (hactive : ActiveAt c ⟨s,(run (Directory.step c) {} ops).disk⟩ sid b state)
    (hstate : state.stateData = (history.filter (fun bar => time bar ≤ b)).foldl step init)
    (reason : String) (now : ℤ) :
    FullReplay c (ofHistory time history step) ⟨s,(run (Directory.step c) {} ops).disk⟩ sid t reason now history b
        (history.foldl step init) ↔
      (∀ bar ∈ history, b < time bar → t ≤ time bar) ∧
      Savable c ⟨s,(run (Directory.step c) {} ops).disk⟩ (replayed time step history t state) now := by
  have hsound := Directory.sound_run c ops
  exact fullReplay_iff hsound.disk (hsound.stores s hs) hsorted hbt hactive hstate reason now

def collect (bars : List ℤ) (bar : ℤ) : List ℤ := bars ++ [bar]

def firstBarSaved : List (Op (List ℤ)) :=
  [.create .everyBar 1 64, .call 0 (.save (.sample 1 [1]) "scheduled" false none 100)]

theorem rebuild_without_gap :
    let dir := run (Directory.step (Codec.plain (List ℤ))) {} firstBarSaved
    ∀ s ∈ dir.stores, FullReplay (Codec.plain (List ℤ)) (ofHistory id [1, 3, 4] collect)
      ⟨s,dir.disk⟩ "s" 3 "data_repaired"
      200 [1, 3, 4] 1 [1, 3, 4] := by
  intro dir s hs
  have hfull := rebuild_full_replay_iff (Codec.plain (List ℤ)) firstBarSaved s hs id [1, 3, 4] (by decide) collect []
    "s" 1 3 (by decide) (.sample 1 [1])
  obtain rfl := mem_singleton.mp hs
  refine (hfull ⟨_,rfl,rfl,rfl,rfl⟩ rfl "data_repaired" 200).mpr ⟨by decide,?_,?_,?_⟩
  · unfold SaveDue
    decide
  · unfold Retains
    decide
  · exact ⟨_,_,_,_,rfl,rfl,nofun,rfl⟩

/-- The snapshot is the one of the bar at 1 and the repair starts at 3, so the bar at 2 is
never processed. -/
theorem rebuild_skips_bar :
    let dir := run (Directory.step (Codec.plain (List ℤ))) {} firstBarSaved
    ∀ s ∈ dir.stores, ∃ rebuilt, ((ofHistory id [1, 2, 3] collect).rebuild (Codec.plain (List ℤ)) ⟨s,dir.disk⟩ "s" 3
      "data_repaired" 200).1 = .ok rebuilt ∧ rebuilt.processed = [3] ∧ rebuilt.state.stateData = [1, 3] := by
  intro dir s hs
  obtain rfl := mem_singleton.mp hs
  exact ⟨_,rfl,rfl,rfl⟩

end StateRebuilder
end OpenPine.Recovery
