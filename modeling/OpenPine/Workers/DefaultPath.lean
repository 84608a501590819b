import OpenPine.Runtime.IsolatedRun
import OpenPine.Workers.ClosedTrades

/-! # Bar by bar on the default path

An executor without a strategy loader hands every bar to `run_isolated`, together with the
resume state of the last snapshot. `run_isolated` refuses a resume state, and the run it would
start from the beginning gets neither the parameters of the strategy nor the identity of an
admitted run, and must have intents. The result of one run over all bars is reached for a
single bar at most.
-/
namespace OpenPine.Workers
open Python State Runs StrategyJobExecutor List
open OpenPine.Runtime.IsolatedRun

variable {S π η ι ρ β : Type}

/-- What the default path finds outside: the engine, the settings in the declaration of the
artifact, the admitted semantic profile, the parameters, the source of the artifact and the
confirmed bars of higher timeframes. -/
structure DefaultPath (S π η ι ρ : Type) where
  engine : Engine S π η ι ρ (RawResult ρ) Bar
  settings : StrategyInstance → S
  semanticProfile : StrategyInstance → Except String String
  params : StrategyInstance → π
  captureGeneratedSource : StrategyInstance → Except String String
  confirmedHtfBars : StrategyInstance → Bar → Except String (Option η)

namespace DefaultPath
variable (p : DefaultPath S π η ι ρ)

/-- The configuration of a run over the time from `startTime` to `endTime`. -/
def configFor (strategy : StrategyInstance) (timeframe : String) (startTime endTime : ℤ) (semanticProfile : String) :
    RunConfig S where
  symbol := strategy.symbol
  timeframe := timeframe
  exchange := lower strategy.exchange
  marketType := lower strategy.marketType
  startTime := startTime
  endTime := endTime
  semanticProfile := semanticProfile
  settings := p.settings strategy

def runConfig (strategy : StrategyInstance) (timeframe : String) (startTime endTime : ℤ) :
    Except String (RunConfig S) := do
  let semanticProfile ← p.semanticProfile strategy
  return p.configFor strategy timeframe startTime endTime semanticProfile

def buildBarRunConfig (strategy : StrategyInstance) (bar : Bar) : Except String (RunConfig S) :=
  p.runConfig strategy bar.timeframe bar.time bar.timeClose

def stampedArtifactSource (strategy : StrategyInstance) : Except String String := do
  let stamped ← p.captureGeneratedSource strategy
  if stamped = "" then throw "captured artifact source is missing" else return stamped

/-- The result as `process` reads it. -/
def runtimeResult (r : BacktestRunResult ρ (RawResult ρ)) : RuntimeResult ρ :=
  { status := r.status, resumeState := r.resumeState, rawResult := r.rawResult }

/-- `_run_strategy` without a loader. The parameters of the strategy are not passed on. -/
def runStrategy (strategy : StrategyInstance) (bar : Bar) (resumeState : Option ρ) :
    Except String (RuntimeResult ρ) := do
  let config ← p.buildBarRunConfig strategy bar
  let source ← p.stampedArtifactSource strategy
  let htfBars ← p.confirmedHtfBars strategy bar
  let r ← runIsolated p.engine source [bar] config resumeState htfBars none
  return runtimeResult r

def batch (strategy : StrategyInstance) (timeframe : String) (bars : List Bar) (htfBars : Option η) :
    Except String (RuntimeResult ρ) := do
  let config ← p.runConfig strategy timeframe ((bars.map Bar.time).headD 0) ((bars.map Bar.timeClose).getLastD 0)
  let source ← p.stampedArtifactSource strategy
  let r ← runIsolated p.engine source bars config none htfBars (some (p.params strategy))
  return runtimeResult r

def Exports : Prop := ∀ strategy bar r, p.runStrategy strategy bar none = .ok r → r.completed = true →
    r.resumeOut.isSome = true

variable {p} {strategy : StrategyInstance} {timeframe : String} {bar : Bar}

theorem runStrategy_resumed (state : ρ) (r : RuntimeResult ρ) : p.runStrategy strategy bar (some state) ≠ .ok r := by
  intro h
  obtain ⟨config,-,h⟩ := bind_eq_ok.mp h
  obtain ⟨source,-,h⟩ := bind_eq_ok.mp h
  obtain ⟨htfBars,-,h⟩ := bind_eq_ok.mp h
  obtain ⟨r',h,-⟩ := bind_eq_ok.mp h
  exact runIsolated_resumed state r' h

/-- What the engine answers for one bar, where nothing refuses the run. -/
def Answers (p : DefaultPath S π η ι ρ) (strategy : StrategyInstance) (timeframe : String) (bar : Bar)
    (htfBars : Option η) (params : π) (result : EngineResult ρ (RawResult ρ)) : Prop :=
  ∃ profile source htf, p.semanticProfile strategy = .ok profile ∧ p.captureGeneratedSource strategy = .ok source ∧
    source ≠ "" ∧ p.engine.stampConfirmedHtfBars htfBars = .ok htf ∧
    Passes p.engine source
      (toEngineConfig p.engine (p.configFor strategy timeframe bar.time bar.timeClose profile)) htf params
      [bar] result

theorem isolated_bar_iff {htfBars : Option η} {params : Option π} {r : RuntimeResult ρ} :
    (do
      let config ← p.runConfig strategy timeframe bar.time bar.timeClose
      let source ← p.stampedArtifactSource strategy
      let r ← runIsolated p.engine source [bar] config none htfBars params
      return runtimeResult r) = Except.ok r ↔
    ∃ result, p.Answers strategy timeframe bar htfBars (params.getD p.engine.noParams) result ∧
      r = ⟨result.status,result.resumeState,result.raw⟩ := by
  constructor
  · intro h
    obtain ⟨config,hconfig,h⟩ := bind_eq_ok.mp h
    obtain ⟨source,hsource,h⟩ := bind_eq_ok.mp h
    obtain ⟨r',h,hr⟩ := bind_eq_ok.mp h
    obtain ⟨profile,hprofile,⟨⟩⟩ := bind_eq_ok.mp hconfig
    obtain ⟨source',hcapture,hstamped⟩ := bind_eq_ok.mp hsource
    obtain ⟨hne,⟨⟩⟩ := throw_ite_eq_ok.mp hstamped
    obtain ⟨htf,result,hhtf,hpasses,rfl⟩ := runIsolated_ok_iff.mp h
    cases hr
    exact ⟨result,⟨profile,source,htf,hprofile,hcapture,hne,hhtf,hpasses⟩,rfl⟩
  · rintro ⟨result,⟨profile,source,htf,hprofile,hcapture,hne,hhtf,hpasses⟩,rfl⟩
    refine bind_eq_ok.mpr ⟨_,bind_eq_ok.mpr ⟨profile,hprofile,rfl⟩,bind_eq_ok.mpr ⟨source,?_,?_⟩⟩
    · exact bind_eq_ok.mpr ⟨source,hcapture,if_neg hne⟩
    · exact bind_eq_ok.mpr ⟨_,runIsolated_ok_iff.mpr ⟨htf,result,hhtf,hpasses,rfl⟩,rfl⟩

theorem runStrategy_ok_iff {r : RuntimeResult ρ} : p.runStrategy strategy bar none = .ok r ↔
    ∃ own result, p.confirmedHtfBars strategy bar = .ok own ∧
      p.Answers strategy bar.timeframe bar own p.engine.noParams result ∧
        r = ⟨result.status,result.resumeState,result.raw⟩ := by
  constructor
  · intro h
    obtain ⟨config,hconfig,h⟩ := bind_eq_ok.mp h
    obtain ⟨source,hsource,h⟩ := bind_eq_ok.mp h
    obtain ⟨own,hown,h⟩ := bind_eq_ok.mp h
    exact ⟨own,(isolated_bar_iff.mp (bind_eq_ok.mpr ⟨config,hconfig,bind_eq_ok.mpr ⟨source,hsource,h⟩⟩)).imp
      fun result h => ⟨hown,h⟩⟩
  · rintro ⟨own,result,hown,hanswers,hr⟩
    have hanswers' : p.Answers strategy bar.timeframe bar own ((none : Option π).getD p.engine.noParams) result :=
      hanswers
    obtain ⟨config,hconfig,h⟩ := bind_eq_ok.mp (isolated_bar_iff.mpr ⟨result,hanswers',hr⟩)
    obtain ⟨source,hsource,h⟩ := bind_eq_ok.mp h
    exact bind_eq_ok.mpr ⟨config,hconfig,bind_eq_ok.mpr ⟨source,hsource,bind_eq_ok.mpr ⟨own,hown,h⟩⟩⟩

def Trades (p : DefaultPath S π η ι ρ) (bar : Bar) : Prop :=
  ∃ inputs, inputs.params = p.engine.noParams ∧ ∃ intents ∈ (p.engine.run inputs [bar] none).batches, intents ≠ []

theorem runStrategy_eq_ok {r : RuntimeResult ρ} (h : p.runStrategy strategy bar none = .ok r) :
    sealedHash (p.engine.attributes.runHash.getD "") = true ∧ p.Trades bar := by
  obtain ⟨own,result,-,⟨profile,source,htf,-,-,-,-,hpasses⟩,-⟩ := runStrategy_ok_iff.mp h
  exact ⟨hpasses.sealed,⟨_,rfl,hpasses.intents⟩⟩

theorem exports_of_engine (h : ∀ i bars r, (p.engine.run i bars none).outcome = .ok r → r.resumeState.isSome = true) :
    p.Exports := by
  intro strategy bar r hrun _
  obtain ⟨own,result,-,⟨profile,source,htf,-,-,-,-,hpasses⟩,rfl⟩ := runStrategy_ok_iff.mp hrun
  obtain ⟨state,hstate⟩ := Option.isSome_iff_exists.mp (h _ _ _ hpasses.outcome)
  simp [RuntimeResult.resumeOut, hstate]

/-! ### Deliveries of consecutive bars -/

/-- A delivery of the bar to an executor on the default path, with a working store. -/
structure Works (p : DefaultPath S π η ι ρ) (o : Outside ρ) (strategy : StrategyInstance) (timeframe : String)
    (d : Delivery ρ) (bar : Bar) :
    Prop where
  isFor : d.For strategy timeframe
  loads : d.prepare o = .ok (strategy, bar)
  runs : d.runStrategy = p.runStrategy
  saveFault : d.saveFault = none

end DefaultPath

def Worker.AllDone (w : Worker ρ β) : Prop := ∀ entry ∈ w.log, entry.2.result.status = .done

def Worker.savedState (w : Worker ρ β) : Option (Option ρ) := w.savedRuns.getLast?.map SavedRun.resumeOut

namespace Worker
variable {o : Outside ρ} {c : Codec (Option ρ) β}

theorem AllDone.first {w : Worker ρ β} {d : Delivery ρ} {deliveries : List (Delivery ρ)}
    (h : (run (step o c) w (d :: deliveries)).AllDone) : (w.executor.process o c d).result.status = .done :=
  h (d, w.executor.process o c d) ((log_run (w.step o c d) deliveries).subset (mem_append_right _ mem_cons_self))

end Worker

namespace DefaultPath
variable {p : DefaultPath S π η ι ρ} {o : Outside ρ} {c : Codec (Option ρ) β} {strategy : StrategyInstance}
  {timeframe : String}
  {w : Worker ρ β} {d : Delivery ρ} {bar : Bar}

/-- The job of the first bar. -/
theorem Works.first (h : p.Works o strategy timeframe d bar) (hc : c.Faithful) (ht : c.Total)
    (hpath : Session.validatePathComponent ("strategy_id=" ++ strategy.strategyId) = .ok ())
    (hw : Tracks c w.executor.stateStore strategy timeframe none) :
    ((w.executor.process o c d).result.status = .done → ∃ r, p.runStrategy strategy bar none = .ok r ∧
      r.completed = true ∧
        (w.executor.process o c d).savedRun? = some ⟨bar.time,none,r.resumeOut⟩) ∧
    (∀ r, p.runStrategy strategy bar none = .ok r → r.completed = true →
      (∃ n, (d.recordLedger o strategy bar r w.executor.ledger).1 = .ok n) →
        (w.executor.process o c d).result.status = .done) := by
  have hcases := processes (o := o) hc hw h.isFor fun e he => by cases h.saveFault.symm.trans he
  generalize w.executor.process o c d = q at hcases
  cases hcases with
  | failed _ _ _ hcause =>
    refine ⟨nofun,fun r hrun hcompleted _ => ?_⟩
    cases (hcause bar r h.loads (h.runs ▸ hrun)).symm.trans hcompleted
  | skipped _ _ _ _ hlast => cases hlast
  | unsaved bar' _ e _ _ hcause => exact absurd hcause (hw.saves ht hpath h.saveFault bar' _ e)
  | saved _ run _ _ hprepare _ hresume hrun hcompleted _ _ htime =>
    cases h.loads.symm.trans hprepare
    rw [h.runs, hresume] at hrun
    refine ⟨fun _ => ⟨run.result,hrun,hcompleted,?_⟩,fun r hrun' _ hledger => ?_⟩
    · rw [Processed.savedRun?, finish_run, finish_snapshot]
      exact congrArg₂ (fun t resume => some (SavedRun.mk t resume run.result.resumeOut)) htime hresume
    · cases hrun.symm.trans hrun'
      obtain ⟨n,hn⟩ := hledger
      unfold finish
      rcases hrecord : d.recordLedger o strategy bar run.result w.executor.ledger with ⟨e | n',ledger⟩
      · rw [hrecord] at hn
        cases hn
      · rfl

theorem Works.later (h : p.Works o strategy timeframe d bar) (hc : c.Faithful) {l : Saved ρ} {state : ρ}
    (hstate : l.resumeState = some state) (hw : Tracks c w.executor.stateStore strategy timeframe (some l)) :
    (w.executor.process o c d).result.status ≠ .done := by
  have hcases := processes (o := o) hc hw h.isFor fun e he => by cases h.saveFault.symm.trans he
  generalize w.executor.process o c d = q at hcases
  cases hcases with
  | failed | unsaved => nofun
  | skipped _ _ _ _ _ _ hstatus =>
    rw [hstatus]
    nofun
  | saved _ run _ _ _ _ hresume hrun =>
    rw [h.runs, hresume] at hrun
    simp only [Option.bind_some, hstate] at hrun
    exact absurd hrun (runStrategy_resumed state run.result)

/-- All jobs are done, and the last snapshot holds the resume state of one run over the bars. -/
def MatchesBatch (p : DefaultPath S π η ι ρ) (strategy : StrategyInstance) (timeframe : String) (htfBars : Option η)
    (bars : List Bar) (w : Worker ρ β) : Prop :=
  w.AllDone ∧ ∃ whole, p.batch strategy timeframe bars htfBars = .ok whole ∧ w.savedState = some whole.resumeOut

/-- The engine answers for the bar without parameters, and completes the run; for the parameters of the strategy it
answers with the same resume state. -/
def RunsAlike (p : DefaultPath S π η ι ρ) (strategy : StrategyInstance) (timeframe : String) (htfBars : Option η)
    (bar : Bar) : Prop :=
  ∃ own result whole, p.confirmedHtfBars strategy bar = .ok own ∧
    p.Answers strategy bar.timeframe bar own p.engine.noParams result ∧
    (lower result.status = "ok" ∨ lower result.status = "completed") ∧
    p.Answers strategy timeframe bar htfBars (p.params strategy) whole ∧
    result.resumeState.or result.raw.resumeState = whole.resumeState.or whole.raw.resumeState

theorem runsAlike_iff {htfBars : Option η} : p.RunsAlike strategy timeframe htfBars bar ↔
    ∃ r whole, p.runStrategy strategy bar none = .ok r ∧ r.completed = true ∧
      p.batch strategy timeframe [bar] htfBars = .ok whole ∧ r.resumeOut = whole.resumeOut := by
  constructor
  · rintro ⟨own,result,whole,hown,hresult,hcompleted,hwhole,hsame⟩
    exact ⟨_,_,runStrategy_ok_iff.mpr ⟨own,result,hown,hresult,rfl⟩,decide_eq_true hcompleted,
      isolated_bar_iff.mpr ⟨whole,hwhole,rfl⟩,hsame⟩
  · rintro ⟨r,whole,hrun,hcompleted,hbatch,hsame⟩
    obtain ⟨own,result,hown,hresult,rfl⟩ := runStrategy_ok_iff.mp hrun
    obtain ⟨whole,hwhole,rfl⟩ := isolated_bar_iff.mp hbatch
    exact ⟨own,result,whole,hown,hresult,of_decide_eq_true hcompleted,hwhole,hsame⟩

theorem matchesBatch_iff {rest : List (Delivery ρ × Bar)} (hc : c.Faithful) (ht : c.Total)
    (hpath : Session.validatePathComponent ("strategy_id=" ++ strategy.strategyId) = .ok ()) (hexports : p.Exports)
    (hw : w.Chained c strategy timeframe) (hempty : w.savedRuns = []) (hlog : w.log = [])
    (hworks : ∀ e ∈ (d, bar) :: rest, p.Works o strategy timeframe e.1 e.2)
    (hledger : ∀ r, p.runStrategy strategy bar none = .ok r →
      ∃ n, (d.recordLedger o strategy bar r w.executor.ledger).1 = .ok n)
    (htfBars : Option η) :
    p.MatchesBatch strategy timeframe htfBars (bar :: rest.map Prod.snd)
    (run (Worker.step o c) w (d :: rest.map Prod.fst)) ↔
      rest = [] ∧ p.RunsAlike strategy timeframe htfBars bar := by
  rw [runsAlike_iff]
  have htracks : Tracks c w.executor.stateStore strategy timeframe none := by
    have htracks := hw.tracks
    rw [hempty] at htracks
    exact htracks
  have hfirst := hworks (d, bar) mem_cons_self
  obtain ⟨hdone,hdone'⟩ := hfirst.first hc ht hpath htracks
  have hnext : (w.step o c d).Chained c strategy timeframe :=
    hw.step hc hfirst.isFor fun e he => by cases hfirst.saveFault.symm.trans he
  have hsaved {r : RuntimeResult ρ} (h : (w.executor.process o c d).savedRun? = some ⟨bar.time,none,r.resumeOut⟩) :
      (w.step o c d).savedRuns = [⟨bar.time,none,r.resumeOut⟩] := by
    rw [Worker.savedRuns_step, hempty, h]
    rfl
  constructor
  · rintro ⟨hall,whole,hwhole,hstate⟩
    obtain ⟨r,hrun,hcompleted,hprocessed⟩ := hdone hall.first
    cases rest with
    | nil =>
      refine ⟨rfl,r,whole,hrun,hcompleted,hwhole,?_⟩
      change (w.step o c d).savedRuns.getLast?.map SavedRun.resumeOut = _ at hstate
      rw [hsaved hprocessed] at hstate
      exact Option.some.inj hstate
    | cons e rest =>
      -- the second bar finds the resume state of the first
      obtain ⟨state,hsome⟩ := Option.isSome_iff_exists.mp (hexports strategy bar r hrun hcompleted)
      have hlast := hnext.tracks
      rw [hsaved hprocessed] at hlast
      have hsecond := hworks e (mem_cons_of_mem _ mem_cons_self)
      have hrest : (run (Worker.step o c) (w.step o c d) (e.1 :: rest.map Prod.fst)).AllDone := hall
      exact absurd hrest.first (hsecond.later hc hsome hlast)
  · rintro ⟨rfl,r,whole,hrun,hcompleted,hwhole,hsame⟩
    have hstatus := hdone' r hrun hcompleted (hledger r hrun)
    obtain ⟨r',hrun',-,hprocessed⟩ := hdone hstatus
    cases hrun.symm.trans hrun'
    refine ⟨fun entry hentry => ?_,whole,hwhole,?_⟩
    · change entry ∈ w.log ++ [(d, w.executor.process o c d)] at hentry
      rw [hlog, nil_append] at hentry
      rw [mem_singleton.mp hentry]
      exact hstatus
    · change (w.step o c d).savedRuns.getLast?.map SavedRun.resumeOut = _
      rw [hsaved hprocessed, hsame]
      rfl

/-- When bars are processed one by one, all jobs are done with the result of one run exactly if
there is one bar, and its run without parameters ends like the one with them. No bar is run
from a resume state, from a configuration that is not admitted, or without intents. -/
theorem bar_by_bar_iff (p : DefaultPath S π η ι ρ) (o : Outside ρ) (c : Codec (Option ρ) β) (hc : c.Faithful)
    (ht : c.Total) (ops : List (Op (Option ρ))) (intervalBars maxSnapshots : ℤ) (ledger : Option StrategyLedger)
    (strategy : StrategyInstance) (timeframe : String)
    (hpath : Session.validatePathComponent ("strategy_id=" ++ strategy.strategyId) = .ok ())
    (hnone : (run (Directory.step c) {} ops).disk.entries strategy.strategyId = []) (hexports : p.Exports)
    (d : Delivery ρ) (bar : Bar) (rest : List (Delivery ρ × Bar))
    (hworks : ∀ e ∈ (d, bar) :: rest, p.Works o strategy timeframe e.1 e.2)
    (hledger : ∀ r, p.runStrategy strategy bar none = .ok r → ∃ n, (d.recordLedger o strategy bar r ledger).1 = .ok n)
    (htfBars : Option η) :
    (p.MatchesBatch strategy timeframe htfBars (bar :: rest.map Prod.snd)
        (run (Worker.step o c) (.create (run (Directory.step c) {} ops).disk intervalBars maxSnapshots ledger)
          (d :: rest.map Prod.fst)) ↔
      rest = [] ∧ p.RunsAlike strategy timeframe htfBars bar) ∧
    (∀ bar state r, p.runStrategy strategy bar (some state) ≠ .ok r) ∧
    ∀ bar r, p.runStrategy strategy bar none = .ok r → sealedHash (p.engine.attributes.runHash.getD "") = true ∧
      p.Trades bar := by
  refine ⟨?_,fun _ state r => runStrategy_resumed state r,fun _ _ h => runStrategy_eq_ok h⟩
  have hw : Worker.Chained c strategy timeframe
    (.create (run (Directory.step c) {} ops).disk intervalBars maxSnapshots ledger) :=
    Worker.chained_create (Directory.sound_run c ops).disk hnone intervalBars maxSnapshots ledger
  exact matchesBatch_iff hc ht hpath hexports hw rfl rfl hworks hledger htfBars

/-! ### Two bars -/

/-- An engine that counts the bars it has seen, with attributes of its own. -/
def sampleEngine (attributes : Attributes) : Engine Unit ℕ Unit Unit ℕ (RawResult ℕ) Bar where
  validContext context := context.stackId.isSome
  hashedContext _ := true
  validArtifact _ := true
  hashedArtifact _ := true
  digest source := source
  attributes := attributes
  stampConfirmedHtfBars _ := .ok ()
  noParams := 0
  requireLiveTape _ := .ok ()
  run _ bars resume := ⟨bars.map fun _ => [()],.ok ⟨"ok",some (resume.getD 0 + bars.length),{}⟩⟩

theorem sampleEngine_resumes (attributes : Attributes) : (sampleEngine attributes).ResumesExactly := by
  intro _ _ _ xs ys r state _ _ _ _ hrun hstate
  cases hrun
  cases hstate
  simp [sampleEngine, Nat.add_comm]

def sampleAttributes : Attributes where
  executionContext := some ⟨none,some "source",some [],some "stack",some "stack"⟩
  generatedArtifact := some ⟨none,some "source",some "openpine-5.0",some []⟩
  runHash := some "sha256:1"
  protocolArtifactDir := some "protocol"

def samplePath (attributes : Attributes) : DefaultPath Unit ℕ Unit Unit ℕ where
  engine := sampleEngine attributes
  settings _ := ()
  semanticProfile _ := .ok "strict_5x"
  params _ := 1
  captureGeneratedSource _ := .ok "source"
  confirmedHtfBars _ _ := .ok none

def sampleDelivery (attributes : Attributes) (t : ℤ) : Delivery ℕ :=
  { Delivery.sample t countBars with runStrategy := (samplePath attributes).runStrategy }

/-- The worker after the jobs of the bars, and what the jobs have ended with. -/
def sampleLog (attributes : Attributes) (times : List ℤ) : List (StrategyJobStatus × Option String) :=
  (run (Worker.step .plain (Codec.plain (Option ℕ))) (.create {} 1 2 none)
    (times.map (sampleDelivery attributes))).log.map fun e =>
    (e.2.result.status, e.2.result.error)

theorem samplePath_exports (attributes : Attributes) : (samplePath attributes).Exports := by
  refine exports_of_engine fun i bars r h => ?_
  cases h
  rfl

/-- The job of a single bar is done with the result of one run. -/
theorem one_bar_matches : (samplePath sampleAttributes).MatchesBatch .sample "1m" none [.minute 1]
      (run (Worker.step .plain (Codec.plain (Option ℕ)))
        (.create {} 1 2 none) [sampleDelivery sampleAttributes 1]) := by
  have hworks : ∀ e ∈ [(sampleDelivery sampleAttributes 1, Bar.minute 1)],
    (samplePath sampleAttributes).Works .plain .sample "1m" e.1 e.2 := by
    intro e he
    rw [mem_singleton.mp he]
    have hfor := Delivery.sample_for 1 countBars
    exact ⟨⟨hfor.strategy,hfor.bars⟩,rfl,rfl,rfl⟩
  have h := bar_by_bar_iff (samplePath sampleAttributes) .plain (Codec.plain (Option ℕ)) (plain_faithful _)
    (plain_total _) [] 1 2 none
    .sample "1m" rfl rfl (samplePath_exports _) (sampleDelivery sampleAttributes 1) (.minute 1) [] hworks
      (fun _ _ => ⟨0,rfl⟩) none
  exact h.1.mpr ⟨rfl,runsAlike_iff.mpr ⟨_,_,rfl,rfl,rfl,rfl⟩⟩

/-- The engine resumes exactly and one run over two bars completes, but the job of the second bar
fails. If the configuration is not admitted, that of the first bar fails. -/
theorem second_bar_refused : (sampleEngine sampleAttributes).ResumesExactly ∧
    (samplePath sampleAttributes).batch .sample "1m" [.minute 1,.minute 2] none = .ok ⟨"ok",some 2,{}⟩ ∧
    sampleLog sampleAttributes [1,2] = [(.done,none),(.failed,some "RESUME_UNSUPPORTED_FOR_WORKER_PROTOCOL")] ∧
    sampleLog {} [1] = [(.failed,some "execution_context is invalid")] := ⟨sampleEngine_resumes _,rfl,rfl,rfl⟩

end DefaultPath
end OpenPine.Workers
