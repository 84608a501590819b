import OpenPine.Compare.RowsByTime
import OpenPine.Compare.RowsByOrder
import OpenPine.Compare.TvTrades
import OpenPine.Export.Files

/-! # Comparing a run with TradingView

The plots, the equity curve and the trades of a run are compared with the files of TradingView that
are given. The run matches if all three have been compared and match.
-/
namespace OpenPine.Compare
open Export
open Python (bind_eq_ok)

inductive ComparisonType where
  | plots | equity | trades
  deriving DecidableEq

abbrev Comparison := ComparisonType × Summary

structure TvFiles where
  (chart trades equity : Option CsvFile)

structure CompareOptions where
  tol : Tolerances
  includeBaseColumns : Bool
  (compareFrom compareTo : Option ℤ)

def baseColumns : List String := ["time", "bar_time", "bar_index", "open", "high", "low", "close", "volume", "Volume"]

/-- `_is_skippable_strategy_plot_summary` -/
def isSkippable (summary : Summary) : Bool :=
  summary.totalCells = 0 && summary.commonColumns = 0 && .noCommonColumns ∈ summary.classification &&
    .noComparableCells ∈ summary.classification

variable (py : Runtime) (files : TvFiles) (exported : Exported) (opts : CompareOptions)

def plotOptions : TimeOptions where
  tvTimeColumn := "time"
  opTimeColumn := "bar_time"
  exclude := if opts.includeBaseColumns then [] else baseColumns
  compareFrom := opts.compareFrom
  compareTo := opts.compareTo
  dropBlankTvRows := true
  closedBarsOnly := true
  requireExactColumns := true

def comparePlots : Except String (List Comparison) :=
  match files.chart with
  | none => pure []
  | some chart =>
    match exported.plots with
    | none => throw "'plots'"
    | some plots => do
      let summary ← compareRowsByTime py chart plots (plotOptions opts) opts.tol
      if summary.status ≠ .matched ∧ isSkippable summary then
        pure [(.plots, { summary with status := .skipped, classification := [.noComparablePlotCells] })]
      else pure [(.plots, summary)]

def equityOptions : TimeOptions where
  tvTimeColumn := "time"
  opTimeColumn := "bar_time_ms"
  exclude := []
  compareFrom := opts.compareFrom
  compareTo := opts.compareTo
  dropBlankTvRows := false
  closedBarsOnly := true
  requireExactColumns := false

def compareEquity : Except String (List Comparison) :=
  match files.equity, exported.equity.or exported.equityCurve with
  | some tv, some op => do
    let summary ← compareRowsByTime py tv op (equityOptions opts) opts.tol
    pure [(.equity, summary)]
  | _, _ => pure []

/-- The trades of the chart if it has some, and else those of the list. -/
def normalizedTvTrades : Except String (Option CsvFile) := do
  let fromChart ←
    match files.chart with
    | none => pure none
    | some chart => writeChartDiagnosticTvTrades py chart opts.compareFrom opts.compareTo
  match fromChart, files.trades with
  | some file, _ => pure (some file)
  | none, none => pure none
  | none, some tv => do
    let file ← writeNormalizedTvTrades py tv opts.compareFrom opts.compareTo
    pure (some file)

def tradeExclude : List String := ["trade_id", "entry_signal", "exit_signal", "gross_profit", "commission"]

def compareTrades : Except String (List Comparison) :=
  match exported.trades with
  | none => pure []
  | some op => do
    let normalized ← normalizedTvTrades py files opts
    match normalized with
    | none => pure []
    | some tv => do
      let summary ← compareRowsByOrder py tv op tradeExclude opts.tol
      pure [(.trades, summary)]

inductive RunStatus where
  | matched | mismatch | incomplete
  deriving DecidableEq

structure Result where
  (comparisons failures : List Comparison)
  evidenceComplete : Bool
  status : RunStatus

/-- `_compare_strategy_run_with_tv_exports` -/
def compareStrategyRun : Except String Result := do
  let plots ← comparePlots py files exported opts
  let equity ← compareEquity py files exported opts
  let trades ← compareTrades py files exported opts
  let comparisons := plots ++ equity ++ trades
  let failures := comparisons.filter fun c => c.2.status = .mismatch
  let evidenceComplete := [ComparisonType.plots, .trades, .equity].all fun type => type ∈ comparisons.map Prod.fst
  let allMatched := comparisons ≠ [] ∧ ∀ c ∈ comparisons, c.2.status = .matched
  pure
    { comparisons := comparisons
      failures := failures
      evidenceComplete := evidenceComplete
      status :=
        if evidenceComplete = true ∧ allMatched ∧ failures = [] then .matched
        else if failures ≠ [] then .mismatch
        else .incomplete }

def Result.Reports (r : Result) (type : ComparisonType) (status : Status) : Prop :=
  ∃ summary, (type, summary) ∈ r.comparisons ∧ summary.status = status

variable {py files exported opts}

variable {cs : List Comparison} {r : Result}

theorem type_of_comparePlots (h : comparePlots py files exported opts = .ok cs) : ∀ c ∈ cs, c.1 = .plots := by
  unfold comparePlots at h
  split at h
  · cases h
    exact nofun
  · split at h
    · cases h
    · obtain ⟨summary,-,h⟩ := bind_eq_ok.mp h
      split at h
      · cases h
        simp
      · cases h
        simp

theorem type_of_compareTrades (h : compareTrades py files exported opts = .ok cs) : ∀ c ∈ cs, c.1 = .trades := by
  unfold compareTrades at h
  split at h
  · cases h
    exact nofun
  · obtain ⟨normalized,-,h⟩ := bind_eq_ok.mp h
    cases normalized with
    | none =>
      cases h
      exact nofun
    | some =>
      obtain ⟨summary,-,⟨⟩⟩ := bind_eq_ok.mp h
      simp

theorem comparisons_of_ok (h : compareStrategyRun py files exported opts = .ok r) :
    ∃ plots equity trades, comparePlots py files exported opts = .ok plots ∧
      compareEquity py files exported opts = .ok equity ∧
      compareTrades py files exported opts = .ok trades ∧ r.comparisons = plots ++ equity ++ trades := by
  obtain ⟨plots,hplots,h⟩ := bind_eq_ok.mp h
  obtain ⟨equity,hequity,h⟩ := bind_eq_ok.mp h
  obtain ⟨trades,htrades,⟨⟩⟩ := bind_eq_ok.mp h
  exact ⟨plots,equity,trades,hplots,hequity,htrades,rfl⟩

theorem exists_run {plots equity trades : List Comparison} (hplots : comparePlots py files exported opts = .ok plots)
    (hequity : compareEquity py files exported opts = .ok equity)
    (htrades : compareTrades py files exported opts = .ok trades) :
    ∃ r, compareStrategyRun py files exported opts = .ok r ∧ r.comparisons = plots ++ equity ++ trades :=
  ⟨_,bind_eq_ok.mpr ⟨plots,hplots,bind_eq_ok.mpr ⟨equity,hequity,bind_eq_ok.mpr ⟨trades,htrades,rfl⟩⟩⟩,rfl⟩

theorem exists_compareEquity (h : opts.tol.Valid) (py : Runtime) (files : TvFiles) (exported : Exported) :
    ∃ cs, compareEquity py files exported opts = .ok cs := by
  unfold compareEquity
  split
  · rename_i tv op _ _
    obtain ⟨summary,hsummary⟩ := exists_compareRowsByTime h py tv op (equityOptions opts)
    exact ⟨_,bind_eq_ok.mpr ⟨summary,hsummary,rfl⟩⟩
  · exact ⟨[],rfl⟩

theorem reports_equity_iff (h : compareStrategyRun py files exported opts = .ok r) {status : Status} :
    r.Reports .equity status ↔
      ∃ cs, compareEquity py files exported opts = .ok cs ∧ ∃ summary, (.equity, summary) ∈ cs ∧
        summary.status = status := by
  obtain ⟨plots,equity,trades,hplots,hequity,htrades,hcomparisons⟩ := comparisons_of_ok h
  unfold Result.Reports
  rw [hcomparisons, hequity]
  constructor
  · rintro ⟨summary,hmem,hstatus⟩
    refine ⟨equity,rfl,summary,?_,hstatus⟩
    rcases List.mem_append.mp hmem with hmem | hmem
    · rcases List.mem_append.mp hmem with hmem | hmem
      · cases type_of_comparePlots hplots _ hmem
      · exact hmem
    · cases type_of_compareTrades htrades _ hmem
  · rintro ⟨_,⟨⟩,summary,hmem,hstatus⟩
    exact ⟨summary,by simp [hmem],hstatus⟩

end OpenPine.Compare
