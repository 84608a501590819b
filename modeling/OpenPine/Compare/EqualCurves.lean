import OpenPine.Compare.StrategyRun

/-! # Equal equity curves

A curve that the gateway has exported matches TradingView's file for the same curve, unless it has a time
in the first four months of 1970, which is taken for a count of seconds. A curve that the command line has
exported never matches: the stored curve has its times in another column than the comparison reads.
-/
namespace OpenPine.Compare
open Text Export List
open Python (bind_eq_ok)

/-- A point of a curve as TradingView's file has it, as the gateway gets it and as it is stored. -/
structure CurvePoint where
  time : ℤ
  equity : Double
  tvRow : Row
  record : Record
  stored : EquityPoint

namespace CurvePoint

structure Described (py : Runtime) {F : Type} (pd : Pandas F) (p : CurvePoint) : Prop where
  tv_time : csvTimeMs py (p.tvRow.get "time") = some p.time
  tv_equity : csvFloat py (p.tvRow.get "equity") = some p.equity
  record_time : p.record.first ["bar_time_ms", "bar_time", "time", "timestamp"] = .int p.time
  /-- However the value is printed, it reads as the equity. -/
  record_equity : ∀ df column, csvFloat py (some (pd.cellText df column (p.record.first ["equity"]))) = some p.equity
  /-- The time is one that a float holds exactly. -/
  exact_time : py.float (toString p.time) = some (.finite p.time)
  stored_time : p.stored.time = p.time

def inWindow (opts : CompareOptions) (p : CurvePoint) : Bool :=
  timeInCompareWindow p.time opts.compareFrom opts.compareTo

/-- A time that does not pass for a count of seconds. -/
def Ordinary (p : CurvePoint) : Prop := 10000000000 ≤ |p.time| ∨ p.time = 0

end CurvePoint

open CurvePoint

variable {py : Runtime} {F : Type} {pd : Pandas F} {points order : List CurvePoint} {opts : CompareOptions}
  {w : ExportWindow} {p : CurvePoint}

/-! ### The file of the gateway -/

theorem exportEquityRows_eq (hdesc : ∀ p ∈ points, p.Described py pd) : exportEquityRows py w (points.map record) =
      .ok ((points.filter fun p => w.contains (some p.time)).map fun p => equityRow p.record) := by
  induction points with
  | nil => rfl
  | cons p _ ih =>
    obtain ⟨hfirst,hrest⟩ := forall_mem_cons.mp hdesc
    have htime : (equityRow p.record).get "bar_time_ms" = .int p.time := hfirst.record_time
    rw [map_cons, exportEquityRows, htime, ih hrest, filter_cons]
    change Except.ok _ = Except.ok _
    split <;> rfl

def gatewayFrame (pd : Pandas F) (points : List CurvePoint) : F :=
  pd.dataFrame equityColumns (points.map fun p => equityRow p.record)

def gatewayRow (pd : Pandas F) (points : List CurvePoint) (p : CurvePoint) : Row :=
  pd.rowText (gatewayFrame pd points) (equityRow p.record)

section
variable (hpd : pd.Lawful)
include hpd

theorem toCsv_gatewayFrame (points : List CurvePoint) : pd.toCsv (gatewayFrame pd points) =
    ⟨equityColumns, points.map (gatewayRow pd points)⟩ := by
  rw [gatewayFrame, hpd.toCsv_dataFrame (by decide), map_map]
  rfl

theorem get_gateway_time (hdesc : ∀ p ∈ points, p.Described py pd) (hp : p ∈ points) :
    (gatewayRow pd points p).get "bar_time_ms" = some (toString p.time) := by
  have htime (q : CurvePoint) (hq : q ∈ points) : (equityRow q.record).get "bar_time_ms" = .int q.time :=
    (hdesc q hq).record_time
  rw [gatewayRow, Pandas.get_rowText (by rw [gatewayFrame, hpd.columns]; decide), htime p hp, gatewayFrame, hpd.int]
  intro r hr
  obtain ⟨q,hq,rfl⟩ := mem_map.mp hr
  rw [htime q hq]
  rfl

theorem get_gateway_equity : (gatewayRow pd points p).get "equity" =
      some (pd.cellText (gatewayFrame pd points) "equity" (p.record.first ["equity"])) :=
  Pandas.get_rowText (by rw [gatewayFrame, hpd.columns]; decide)

end

theorem CurvePoint.Described.gateway_reads_iff (h : p.Described py pd) :
    csvTimeMs py (some (toString p.time)) = some p.time ↔ p.Ordinary := by
  rw [csvTimeMs_toString py h.exact_time, Ordinary, Option.some.injEq]
  split <;> omega

/-! ### The comparison -/

section
variable {tv op : CsvFile} (htv : tv.fields = ["time", "equity"]) (hop : op.fields = equityColumns)
include htv hop

theorem mem_equity_common {column : String} : column ∈ ((equityOptions opts).columns tv op).common ↔
    column = "equity" := by
  unfold TimeOptions.columns
  rw [mem_columnSets_common, htv, hop]
  constructor
  · rintro ⟨hmem,-⟩
    simpa [equityOptions] using hmem
  · rintro rfl
    simp [equityOptions, equityColumns]

theorem equity_missing : ((equityOptions opts).columns tv op).missing = [] := by
  unfold TimeOptions.columns
  rw [columnSets_missing_eq_nil, htv, hop]
  intro column hmem
  obtain rfl : column = "equity" := by simpa [equityOptions] using hmem
  simp [equityOptions, equityColumns]

end

/-- The file of TradingView lists the points in the window, in any order. -/
structure ListsCurve (opts : CompareOptions) (tv : CsvFile) (points order : List CurvePoint) : Prop where
  fields : tv.fields = ["time", "equity"]
  rows : tv.rows = order.map CurvePoint.tvRow
  perm : order.Perm (points.filter (·.inWindow opts))

theorem exportEquityCurve_eq (hdesc : ∀ p ∈ points, p.Described py pd)
    (hwindow : ∀ p ∈ points, w.contains (some p.time) = p.inWindow opts) :
    exportEquityCurve pd py (points.map record) w =
      .ok (pd.toCsv (gatewayFrame pd (points.filter (·.inWindow opts)))) := by
  unfold exportEquityCurve
  rw [exportEquityRows_eq hdesc, filter_congr hwindow]
  rfl

variable {tv : CsvFile} {summary : Summary} {exported : Exported}

section
variable (hpd : pd.Lawful) (hlists : ListsCurve opts tv points order) (hdesc : ∀ p ∈ points, p.Described py pd)
include hpd hlists hdesc

theorem gateway_matched (hincreasing : points.Pairwise fun p q => p.time < q.time)
    (htwo : 2 ≤ (points.filter (·.inWindow opts)).length) (htol : opts.tol.Valid)
    (hordinary : ∀ p ∈ points, p.inWindow opts = true → p.Ordinary) :
    ∃ summary, compareRowsByTime py tv (pd.toCsv (gatewayFrame pd (points.filter (·.inWindow opts))))
    (equityOptions opts)
      opts.tol = .ok summary ∧ summary.status = .matched := by
  have hmem {p : CurvePoint} (hp : p ∈ points.filter (·.inWindow opts)) : p.Described py pd :=
    hdesc p (mem_filter.mp hp).1
  rw [toCsv_gatewayFrame hpd]
  have hsame : SameTimes py (equityOptions opts) tv
      ⟨equityColumns, (points.filter (·.inWindow opts)).map (gatewayRow pd (points.filter (·.inWindow opts)))⟩
      time tvRow (gatewayRow pd (points.filter (·.inWindow opts))) order (points.filter (·.inWindow opts)) := by
    refine ⟨hlists.rows,rfl,hlists.perm,fun p hp => (hmem hp).tv_time,fun p hp => ?_,?_,
      fun p hp => (mem_filter.mp hp).2,htwo⟩
    · change csvTimeMs py (Row.get _ "bar_time_ms") = _
      rw [get_gateway_time hpd (fun q hq => hmem hq) hp]
      exact (hmem hp).gateway_reads_iff.mpr (hordinary p (mem_filter.mp hp).1 (mem_filter.mp hp).2)
    · exact pairwise_map.mpr ((hincreasing.filter _).imp ne_of_lt)
  refine hsame.matched rfl ?_ (equity_missing hlists.fields rfl) nofun fun column hcolumn p hp => ?_
  · exact ne_nil_of_mem ((mem_equity_common hlists.fields rfl).mpr rfl)
  · obtain rfl := (mem_equity_common hlists.fields rfl).mp hcolumn
    refine agree_of_csvFloat (fun _ h => h) htol (hmem hp).tv_equity ?_
    rw [get_gateway_equity hpd]
    exact (hmem hp).record_equity _ _

/-- A time that passes for a count of seconds leads to a mismatch. The induction is on its size: were it a time
of OpenPine, a thousandth of it would be another one. -/
theorem ordinary_of_matched
    (h : compareRowsByTime py tv (pd.toCsv (gatewayFrame pd (points.filter (·.inWindow opts))))
      (equityOptions opts) opts.tol = .ok summary) (hstatus : summary.status = .matched) {p : CurvePoint}
    (hp : p ∈ points) (hwindow : p.inWindow opts = true) : p.Ordinary := by
  rw [toCsv_gatewayFrame hpd] at h
  induction hsize : p.time.natAbs using Nat.strong_induction_on generalizing p with
  | _ n ih =>
    have hmem := mem_filter.mpr ⟨hp,hwindow⟩
    have hrow : p.tvRow ∈ tv.rows := by
      rw [hlists.rows]
      exact mem_map_of_mem (hlists.perm.mem_iff.mpr hmem)
    obtain ⟨row,hrow,hts⟩ := exists_time_of_matched h hstatus rfl hrow (hdesc p hp).tv_time hwindow
    obtain ⟨q,hq,rfl⟩ := mem_map.mp hrow
    have hq' := mem_filter.mp hq
    change csvTimeMs py (Row.get _ "bar_time_ms") = _ at hts
    rw [get_gateway_time hpd (fun q hq => hdesc q (mem_filter.mp hq).1) hq,
      csvTimeMs_toString py (hdesc q hq'.1).exact_time,
      Option.some.injEq] at hts
    have hless : q.time.natAbs < n → q.Ordinary := fun hlt => ih _ hlt hq'.1 hq'.2 rfl
    unfold Ordinary at hless ⊢
    rw [Int.abs_eq_natAbs] at hts hless ⊢
    split at hts <;> omega

end

theorem compareEquity_eq_ok {files : TvFiles} {file : CsvFile} (hfiles : files.equity = some tv)
    (hexported : exported.equity.or exported.equityCurve = some file) {cs : List Comparison} :
    compareEquity py files exported opts = .ok cs ↔
      ∃ summary, compareRowsByTime py tv file (equityOptions opts) opts.tol = .ok summary ∧
        cs = [(.equity, summary)] := by
  unfold compareEquity
  rw [hfiles, hexported, bind_eq_ok]
  refine exists_congr fun summary => and_congr_right fun _ => ?_
  exact ⟨fun h => (Except.ok.inj h).symm,fun h => congrArg Except.ok h.symm⟩

/-! ### The file of the command line -/

theorem exists_commandLine (py : Runtime) (hpd : pd.Lawful) (hne : points ≠ []) (opts : CompareOptions) :
    ∃ df, selectTimes pd (equityArtifact pd (points.map stored)) opts.compareFrom opts.compareTo = .ok df ∧
      pd.toCsv df = ⟨equityRecordColumns, (pd.rows df).map (pd.rowText df)⟩ ∧ pd.columns df = equityRecordColumns ∧
      ∀ p ∈ points, p.Described py pd → p.inWindow opts = true → p.stored.record ∈ pd.rows df := by
  have hartifact : equityArtifact pd (points.map stored) =
      pd.dataFrame equityRecordColumns ((points.map stored).map EquityPoint.record) := by
    rw [equityArtifact, if_neg (mt map_eq_nil_iff.mp hne)]
  have hints : ∀ r ∈ pd.rows (equityArtifact pd (points.map stored)), (r.get "time").isInt = true := by
    rw [hartifact, hpd.rows]
    intro r hr
    obtain ⟨point,-,rfl⟩ := mem_map.mp hr
    rfl
  have hcolumns : pd.columns (equityArtifact pd (points.map stored)) = equityRecordColumns := by
    rw [hartifact, hpd.columns]
  obtain ⟨df,hselect,hselects⟩ := hpd.selectTimes_ok (by rw [hcolumns]; decide) hints opts.compareFrom opts.compareTo
  have hcolumns' := hselects.columns.trans hcolumns
  refine ⟨df,hselect,?_,hcolumns',fun p hp hdesc hwindow => ?_⟩
  · rw [hpd.written df (by rw [hcolumns']; decide), hcolumns']
  · have htime : p.stored.record.get "time" = .int p.time := congrArg Value.int hdesc.stored_time
    rw [hselects.rows, hartifact, hpd.rows]
    refine mem_filter.mpr ⟨mem_map_of_mem (mem_map_of_mem hp),?_⟩
    rw [htime]
    exact hwindow

theorem commandLine_reports (hpd : pd.Lawful) (hdesc : p.Described py pd) (hp : p ∈ points)
    (hwindow : p.inWindow opts = true) {files : TvFiles} (hfiles : files.equity = some tv) {plots : Option CsvFile}
    {trades : List Record} {noTrades : Bool}
    (hwrite : writeStrategyExportFiles pd py plots trades (some (equityArtifact pd (points.map stored)))
      opts.compareFrom opts.compareTo noTrades = .ok exported)
    {r : Result} (hrun : compareStrategyRun py files exported opts = .ok r) : r.Reports .equity .mismatch := by
  obtain ⟨df,hselect,hfile,hcolumns,hrows⟩ := exists_commandLine py hpd (ne_nil_of_mem hp) opts
  obtain ⟨tradesFile,-,hwrite⟩ := bind_eq_ok.mp hwrite
  simp only [Option.mapM_some, hselect] at hwrite
  cases hwrite
  obtain ⟨-,equity,-,-,hequity,-,-⟩ := comparisons_of_ok hrun
  obtain ⟨summary,hsummary,rfl⟩ := (compareEquity_eq_ok hfiles rfl).mp hequity
  have hmismatch : summary.status = .mismatch := by
    refine (status_compareRowsByTime hsummary).resolve_left fun hstatus => ?_
    -- the row of the point has no time in the column that is read
    have hrow : pd.rowText df p.stored.record ∈ (pd.toCsv df).rows := by
      rw [hfile]
      exact mem_map_of_mem (hrows p hp hdesc hwindow)
    have hsome := isSome_time_of_matched hsummary hstatus _ hrow
    change (csvTimeMs py (Row.get _ "bar_time_ms")).isSome at hsome
    rw [Pandas.get_rowText_of_notMem (by rw [hcolumns]; decide)] at hsome
    cases hsome
  exact (reports_equity_iff hrun).mpr ⟨_,hequity,summary,by simp,hmismatch⟩

/-- Where the run can be compared otherwise, a curve that the gateway has exported is reported as a match exactly if its
times in the window are ordinary ones. A curve that the command line has exported is reported as a mismatch. -/
theorem equal_curves_match_iff (hpd : pd.Lawful) (hlists : ListsCurve opts tv points order)
    (hdesc : ∀ p ∈ points, p.Described py pd) (hincreasing : points.Pairwise fun p q => p.time < q.time)
    (htwo : 2 ≤ (points.filter (·.inWindow opts)).length) (htol : opts.tol.Valid) (files : TvFiles)
    (hfiles : files.equity = some tv) :
    (∀ (w : ExportWindow) (exported : Exported) (file : CsvFile) (plots trades : List Comparison),
        (∀ p ∈ points, w.contains (some p.time) = p.inWindow opts) →
        exportEquityCurve pd py (points.map CurvePoint.record) w = .ok file →
          exported.equity.or exported.equityCurve = some file →
        comparePlots py files exported opts = .ok plots → compareTrades py files exported opts = .ok trades →
        ((∃ r, compareStrategyRun py files exported opts = .ok r ∧ r.Reports .equity .matched) ↔
          ∀ p ∈ points, p.inWindow opts = true → p.Ordinary)) ∧
      ∀ (plots : Option CsvFile) (trades : List Record) (noTrades : Bool) (exported : Exported) (r : Result),
        writeStrategyExportFiles pd py plots trades (some (equityArtifact pd (points.map CurvePoint.stored)))
          opts.compareFrom opts.compareTo noTrades = .ok exported →
        compareStrategyRun py files exported opts = .ok r → r.Reports .equity .mismatch := by
  refine ⟨fun w exported file plots trades hwindow hfile hexported hplots htrades => ?_,
    fun plots trades noTrades exported r hwrite hrun => ?_⟩
  · rw [exportEquityCurve_eq hdesc hwindow] at hfile
    cases hfile
    constructor
    · rintro ⟨r,hrun,hreports⟩ p hp hin
      obtain ⟨cs,hcs,summary,hmem,hstatus⟩ := (reports_equity_iff hrun).mp hreports
      obtain ⟨summary',hsummary,rfl⟩ := (compareEquity_eq_ok hfiles hexported).mp hcs
      cases mem_singleton.mp hmem
      exact ordinary_of_matched hpd hlists hdesc hsummary hstatus hp hin
    · intro hordinary
      obtain ⟨summary,hsummary,hstatus⟩ := gateway_matched hpd hlists hdesc hincreasing htwo htol hordinary
      have hequity := (compareEquity_eq_ok hfiles hexported).mpr ⟨summary,hsummary,rfl⟩
      obtain ⟨r,hrun,-⟩ := exists_run hplots hequity htrades
      exact ⟨r,hrun,(reports_equity_iff hrun).mpr ⟨_,hequity,summary,by simp,hstatus⟩⟩
  · obtain ⟨p,hp⟩ := exists_mem_of_length_pos (Nat.lt_of_lt_of_le Nat.zero_lt_two htwo)
    obtain ⟨hp,hin⟩ := mem_filter.mp hp
    exact commandLine_reports hpd (hdesc p hp) hp hin hfiles hwrite hrun

/-! ### A curve of two points -/

def samplePoint (time : ℤ) (equity : ℚ) : CurvePoint where
  time := time
  equity := .finite equity
  tvRow := [("time", toString time), ("equity", printDecimal (.finite equity))]
  record := [("time", .int time), ("equity", .float (.finite equity))]
  stored := ⟨time, .float (.finite equity), .none, .none, .none, .none, .none, .none, .none⟩

def samplePoints : List CurvePoint := [samplePoint 1700000000000 100, samplePoint 1700000060000 110]

def sampleEquity : CsvFile := ⟨["time", "equity"], samplePoints.map CurvePoint.tvRow⟩

def sampleOptions : CompareOptions where
  tol := ⟨.finite 0, .finite 0⟩
  includeBaseColumns := false
  compareFrom := some 1700000000000
  compareTo := some 1700000120000

theorem described_samplePoints : ∀ p ∈ samplePoints, p.Described fewDecimals (plainPandas fewDecimals) := by
  refine forall_mem_cons.mpr ⟨?_,forall_mem_singleton.mpr ?_⟩
  · refine ⟨by decide +kernel,by decide +kernel,by decide +kernel,fun _ _ => ?_,by decide +kernel,rfl⟩
    exact (by decide +kernel : csvFloat fewDecimals (some (printDecimal (.finite 100))) = some (.finite 100))
  · refine ⟨by decide +kernel,by decide +kernel,by decide +kernel,fun _ _ => ?_,by decide +kernel,rfl⟩
    exact (by decide +kernel : csvFloat fewDecimals (some (printDecimal (.finite 110))) = some (.finite 110))

theorem lists_sampleEquity : ListsCurve sampleOptions sampleEquity samplePoints samplePoints where
  fields := rfl
  rows := rfl
  perm := by
    have hall : samplePoints.filter (·.inWindow sampleOptions) = samplePoints := rfl
    rw [hall]

theorem gateway_sample_matches : ∃ file, exportEquityCurve (plainPandas fewDecimals) fewDecimals
        (samplePoints.map CurvePoint.record) ⟨1700000000000, 1700000120000, by decide⟩ = .ok file ∧
      ∃ r, compareStrategyRun fewDecimals ⟨none, none, some sampleEquity⟩ ⟨none, some file, none, none⟩
          sampleOptions = .ok r ∧ r.Reports .equity .matched := by
  have hwindow : ∀ p ∈ samplePoints, ExportWindow.contains ⟨1700000000000, 1700000120000, by decide⟩ (some p.time) =
      p.inWindow sampleOptions := by decide
  have hfile := exportEquityCurve_eq described_samplePoints hwindow
  refine ⟨_,hfile,?_⟩
  refine ((equal_curves_match_iff (plainPandas_lawful _) lists_sampleEquity described_samplePoints
    (by decide) (by decide)
    (by decide) ⟨none, none, some sampleEquity⟩ rfl).1 _ _ _ [] [] hwindow hfile rfl rfl rfl).mpr ?_
  refine forall_mem_cons.mpr ⟨fun _ => .inl (by decide),forall_mem_singleton.mpr fun _ => .inl (by decide)⟩

/-- The same curve from the command line. -/
theorem commandLine_sample_differs :
    ListsCurve sampleOptions sampleEquity samplePoints samplePoints ∧
      (∀ p ∈ samplePoints, p.Described fewDecimals (plainPandas fewDecimals)) ∧
      ∃ exported, writeStrategyExportFiles (plainPandas fewDecimals) fewDecimals none []
          (some (equityArtifact (plainPandas fewDecimals) (samplePoints.map CurvePoint.stored)))
          sampleOptions.compareFrom sampleOptions.compareTo true = .ok exported ∧
      ∃ r, compareStrategyRun fewDecimals ⟨none, none, some sampleEquity⟩ exported sampleOptions = .ok r ∧
        r.Reports .equity .mismatch := by
  obtain ⟨exported,hwrite,htrades⟩ : ∃ exported, writeStrategyExportFiles (plainPandas fewDecimals) fewDecimals none []
      (some (equityArtifact (plainPandas fewDecimals) (samplePoints.map stored))) sampleOptions.compareFrom
      sampleOptions.compareTo true = .ok exported ∧ exported.trades = none := ⟨_,rfl,rfl⟩
  obtain ⟨equity,hequity⟩ := exists_compareEquity (by decide : sampleOptions.tol.Valid) fewDecimals
    ⟨none, none, some sampleEquity⟩ exported
  have hnone : compareTrades fewDecimals ⟨none, none, some sampleEquity⟩ exported sampleOptions = .ok [] := by
    rw [compareTrades, htrades]
    rfl
  obtain ⟨r,hrun,-⟩ := exists_run rfl hequity hnone
  refine ⟨lists_sampleEquity,described_samplePoints,exported,hwrite,r,hrun,?_⟩
  exact commandLine_reports (plainPandas_lawful _)
    (described_samplePoints _ mem_cons_self) mem_cons_self rfl rfl hwrite hrun

end OpenPine.Compare
