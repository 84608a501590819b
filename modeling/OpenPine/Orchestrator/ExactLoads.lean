import OpenPine.Foundation.Pointwise
import OpenPine.Orchestrator.Coverage
import OpenPine.Orchestrator.DataOrchestrator

/-! # Which loads are exact

A load under `gap_policy='fail'` that returns has looked for slots without a bar, at
best. It never looks for bars outside the slots, and where a series is passed on with
the coverage that it reports of itself, not even the slots were checked.
-/
namespace OpenPine.Orchestrator
open Hoare Intervals
variable {V : Type} {library : Library V} {outside : Outside V} {query : BarQuery} {s s' : Session V}
  {series : LoadedBarSeries V} {intervals : List (ℤ × ℤ)} {bars : List (Bar V)}

/-! ### Loads that return -/

theorem refused_ok_iff {allowGaps : Bool} :
    (∃ report, refused (validate series.toBarSeries (some allowGaps)) = .ok report) ↔
    Increasing series.bars ∧ Closed series.bars ∧ (allowGaps = false → Whole series.query series.bars) := by
  rw [show (allowGaps = false) = ((some allowGaps).getD (series.query.gapPolicy = .allowWithMetadata) = false) from rfl,
    ← validate_ok_iff]
  unfold refused
  cases validate series.toBarSeries (some allowGaps) with
  | ok report => exact ⟨fun _ => ⟨report,rfl⟩,fun _ => ⟨report,rfl⟩⟩
  | error =>
    constructor
    · rintro ⟨_,⟨⟩⟩
    · rintro ⟨_,⟨⟩⟩

theorem validateFor_ok_iff : (∃ report, validateFor query series = .ok report) ↔
    Increasing series.bars ∧ Closed series.bars ∧ (query.gapPolicy = .fail → Whole series.query series.bars) := by
  refine refused_ok_iff.trans ?_
  simp

theorem requireIfFail_eq_ok {source : String} {series' : LoadedBarSeries V} :
    requireIfFail library query series source = .ok series' ↔
      series' = series ∧ (query.gapPolicy = .fail → library.isComplete series.coverage = true) := by
  unfold requireIfFail requireComplete
  by_cases hfail : query.gapPolicy = .fail
  · rw [if_pos hfail, Python.ite_throw_eq_ok, Python.pure_eq_ok]
    constructor
    · rintro ⟨hcomplete,rfl⟩
      exact ⟨rfl,fun _ => hcomplete⟩
    · rintro ⟨rfl,hcomplete⟩
      exact ⟨hcomplete hfail,rfl⟩
  · rw [if_neg hfail, Python.pure_eq_ok]
    exact ⟨fun h => ⟨h.symm,fun h' => absurd h' hfail⟩,fun h => h.1.symm⟩

theorem loadStorage_eq_ok {complete : Bool} :
    (loadStorage library outside query complete).run.run s = (.ok series, s') ↔
    readSeries library outside query = .ok series ∧ Increasing series.bars ∧ Closed series.bars ∧
      (complete = true → library.isComplete series.coverage = true) ∧ s' = s := by
  simp only [loadStorage, run_bind_eq_ok, run_lift_eq_ok]
  constructor
  · rintro ⟨series',_,⟨hread,rfl⟩,report,_,⟨hvalid,rfl⟩,hcomplete,rfl⟩
    obtain ⟨hincreasing,hclosed,-⟩ := refused_ok_iff.mp ⟨report,hvalid⟩
    cases complete with
    | true =>
      obtain ⟨hcomplete,hseries⟩ := Python.ite_throw_eq_ok.mp hcomplete
      cases hseries
      exact ⟨hread,hincreasing,hclosed,fun _ => hcomplete,rfl⟩
    | false =>
      cases hcomplete
      exact ⟨hread,hincreasing,hclosed,fun h => absurd h Bool.false_ne_true,rfl⟩
  · rintro ⟨hread,hincreasing,hclosed,hcomplete,rfl⟩
    obtain ⟨report,hvalid⟩ := refused_ok_iff.mpr ⟨hincreasing,hclosed,fun h => absurd h Bool.true_eq_false.mp⟩
    refine ⟨series,_,⟨hread,rfl⟩,report,_,⟨hvalid,rfl⟩,?_,rfl⟩
    cases complete with
    | true => exact Python.ite_throw_eq_ok.mpr ⟨hcomplete rfl,rfl⟩
    | false => rfl

def Delivers (library : Library V) (outside : Outside V) (query : BarQuery) (series : LoadedBarSeries V) : Prop :=
  ∃ provider, outside.provider = some provider ∧ fetchSeries library provider query = .ok series

theorem loadProvider_eq_ok : (loadProvider library outside query).run.run s = (.ok series, s') ↔
    Delivers library outside query series ∧ Increasing series.bars ∧ Closed series.bars ∧
      (query.gapPolicy = .fail → Whole series.query series.bars) ∧ s' = { s with fetched := s.fetched ++ [query] } := by
  unfold loadProvider Delivers
  cases outside.provider with
  | none =>
    constructor
    · rintro ⟨⟩
    · rintro ⟨⟨_,⟨⟩,-⟩,-⟩
  | some provider =>
    simp only [run_bind_eq_ok, run_lift_eq_ok, run_pure_eq_ok, run_modify_eq_ok]
    constructor
    · rintro ⟨_,_,rfl,series',_,⟨hfetch,rfl⟩,report,_,⟨hvalid,rfl⟩,rfl,rfl⟩
      obtain ⟨hincreasing,hclosed,hwhole⟩ := validateFor_ok_iff.mp ⟨report,hvalid⟩
      exact ⟨⟨provider,rfl,hfetch⟩,hincreasing,hclosed,hwhole,rfl⟩
    · rintro ⟨⟨_,⟨⟩,hfetch⟩,hincreasing,hclosed,hwhole,rfl⟩
      obtain ⟨report,hvalid⟩ := validateFor_ok_iff.mpr ⟨hincreasing,hclosed,hwhole⟩
      exact ⟨(),_,rfl,series,_,⟨hfetch,rfl⟩,report,_,⟨hvalid,rfl⟩,rfl,rfl⟩

structure Fetched (library : Library V) (outside : Outside V) (query : BarQuery) (interval : ℤ × ℤ)
    (series : LoadedBarSeries V) : Prop where
  delivers : Delivers library outside (missingQuery query interval) series
  increasing : Increasing series.bars
  closed : Closed series.bars
  whole : query.gapPolicy = .fail → Whole series.query series.bars
  complete : query.gapPolicy = .fail → library.isComplete series.coverage = true

theorem loadIntervals_eq_ok : (loadIntervals library outside query intervals).run.run s = (.ok bars, s') ↔
      ∃ found, List.Forall₂ (Fetched library outside query) intervals found ∧ bars = found.flatMap (·.bars) ∧
        s' = { s with fetched := s.fetched ++ intervals.map (missingQuery query) } := by
  induction intervals generalizing s s' bars with
  | nil =>
    simp only [loadIntervals, run_pure_eq_ok]
    constructor
    · rintro ⟨rfl,rfl⟩
      exact ⟨[],.nil,rfl,by simp⟩
    · rintro ⟨_,⟨⟩,rfl,rfl⟩
      exact ⟨rfl,by simp⟩
  | cons _ _ ih =>
    simp only [loadIntervals, run_bind_eq_ok, run_lift_eq_ok, run_pure_eq_ok, loadProvider_eq_ok, ih]
    constructor
    · rintro ⟨series,_,⟨hdelivers,hincreasing,hclosed,hwhole,rfl⟩,report,_,⟨-,rfl⟩,_,_,⟨hcomplete,rfl⟩,_,_,
        ⟨found,hfound,rfl,rfl⟩,rfl,rfl⟩
      refine ⟨series :: found,
        .cons ⟨hdelivers,hincreasing,hclosed,hwhole,(requireIfFail_eq_ok.mp hcomplete).2⟩ hfound,rfl,?_⟩
      simp
    · rintro ⟨_,hall,rfl,rfl⟩
      cases hall with
      | @cons _ series _ found hseries hfound =>
        obtain ⟨report,hvalid⟩ := validateFor_ok_iff.mpr ⟨hseries.increasing,hseries.closed,hseries.whole⟩
        refine ⟨series,_,⟨hseries.delivers,hseries.increasing,hseries.closed,hseries.whole,rfl⟩,report,_,
          ⟨hvalid,rfl⟩,series,_,
          ⟨requireIfFail_eq_ok.mpr ⟨rfl,hseries.complete⟩,rfl⟩,_,_,⟨found,hfound,rfl,rfl⟩,rfl,?_⟩
        simp

def fetchedSeries (query : BarQuery) (found : List (LoadedBarSeries V)) : LoadedBarSeries V :=
  let bars := (found.flatMap (·.bars)).insertionSort (·.time ≤ ·.time)
  { query, bars, coverage := coverageFor query bars "provider", snapshot := none }

theorem loadMissingFromProvider_eq_ok :
    (loadMissingFromProvider library outside query intervals).run.run s = (.ok series, s') ↔
      ∃ found, List.Forall₂ (Fetched library outside query) (coalesce intervals) found ∧
        series = fetchedSeries query found ∧
        s' = { s with fetched := s.fetched ++ (coalesce intervals).map (missingQuery query) } := by
  simp only [loadMissingFromProvider, run_bind_eq_ok, loadIntervals_eq_ok, run_pure_eq_ok]
  constructor
  · rintro ⟨_,_,⟨found,hfound,rfl,rfl⟩,rfl,rfl⟩
    exact ⟨found,hfound,rfl,rfl⟩
  · rintro ⟨found,hfound,rfl,rfl⟩
    exact ⟨_,_,⟨found,hfound,rfl,rfl⟩,rfl,rfl⟩

theorem writeProviderSeries_eq_ok {u : Unit} : (writeProviderSeries outside series).run.run s = (.ok u, s') ↔
    Increasing series.bars ∧ Closed series.bars ∧ writeSeries outside series = .ok () ∧
      s' = { s with written := s.written ++ [series] } := by
  simp only [writeProviderSeries, run_bind_eq_ok, run_lift_eq_ok, run_modify_eq_ok]
  constructor
  · rintro ⟨report,_,⟨hvalid,rfl⟩,_,_,rfl,hwrite,rfl⟩
    obtain ⟨hincreasing,hclosed,-⟩ := refused_ok_iff.mp ⟨report,hvalid⟩
    exact ⟨hincreasing,hclosed,hwrite,rfl⟩
  · rintro ⟨hincreasing,hclosed,hwrite,rfl⟩
    obtain ⟨report,hvalid⟩ := refused_ok_iff.mpr ⟨hincreasing,hclosed,fun h => absurd h Bool.true_eq_false.mp⟩
    exact ⟨report,_,⟨hvalid,rfl⟩,(),_,rfl,hwrite,rfl⟩

def mergedSeries (query : BarQuery) (storage : LoadedBarSeries V) (found : List (LoadedBarSeries V)) :
    LoadedBarSeries V :=
  { mergeSeries query storage.toBarSeries (fetchedSeries query found).toBarSeries with snapshot := none }

def Writes (outside : Outside V) (query : BarQuery) (found : List (LoadedBarSeries V)) : Prop :=
  (fetchedSeries query found).bars ≠ [] ∧ providerPersistsFetches outside = false

instance (found : List (LoadedBarSeries V)) : Decidable (Writes outside query found) :=
  inferInstanceAs (Decidable (_ ∧ _))

structure Filled (library : Library V) (outside : Outside V) (query : BarQuery) (storage : LoadedBarSeries V)
    (found : List (LoadedBarSeries V)) : Prop where
  fetched : List.Forall₂ (Fetched library outside query) (coalesce storage.coverage.missingIntervals) found
  written : Writes outside query found → Increasing (fetchedSeries query found).bars ∧
    Closed (fetchedSeries query found).bars ∧
    writeSeries outside (fetchedSeries query found) = .ok ()
  complete : query.gapPolicy = .fail → library.isComplete (mergedSeries query storage found).coverage = true

def Session.filled (s : Session V) (outside : Outside V) (query : BarQuery) (storage : LoadedBarSeries V)
    (found : List (LoadedBarSeries V)) : Session V where
  fetched := s.fetched ++ (coalesce storage.coverage.missingIntervals).map (missingQuery query)
  written := s.written ++ if Writes outside query found then [fetchedSeries query found] else []
  cache := s.cache

variable {found : List (LoadedBarSeries V)} {storage : LoadedBarSeries V} {duration : ℕ+}

theorem write_eq_ok {u : Unit} :
    (when (Writes outside query found) (writeProviderSeries outside (fetchedSeries query found))).run.run s =
      (.ok u, s') ↔
      (Writes outside query found → Increasing (fetchedSeries query found).bars ∧
        Closed (fetchedSeries query found).bars ∧
        writeSeries outside (fetchedSeries query found) = .ok ()) ∧
      s' = { s with
        written := s.written ++ if Writes outside query found then [fetchedSeries query found] else [] } := by
  rw [run_when_eq_ok]
  by_cases hwrites : Writes outside query found
  · simp only [hwrites, if_true, writeProviderSeries_eq_ok, true_imp_iff, and_assoc]
  · simp only [hwrites, if_false, false_imp_iff, true_and, List.append_nil]

/-- What an automatic load reads, fetches and writes. -/
theorem loadAuto_eq_ok : (loadAuto library outside query).run.run s = (.ok series, s') ↔
    ∃ storage, readSeries library outside query = .ok storage ∧ Increasing storage.bars ∧ Closed storage.bars ∧
      if library.isComplete storage.coverage = true then series = storage ∧ s' = s
      else ∃ found, Filled library outside query storage found ∧ series = mergedSeries query storage found ∧
        s' = s.filled outside query storage found := by
  simp only [loadAuto, run_bind_eq_ok, loadStorage_eq_ok]
  constructor
  · rintro ⟨storage,_,⟨hread,hincreasing,hclosed,-,rfl⟩,h⟩
    refine ⟨storage,hread,hincreasing,hclosed,?_⟩
    by_cases hstored : library.isComplete storage.coverage = true
    · rw [if_pos hstored] at h ⊢
      exact run_pure_eq_ok.mp h
    · rw [if_neg hstored] at h ⊢
      obtain ⟨_,_,hmissing,h⟩ := run_bind_eq_ok.mp h
      obtain ⟨found,hfound,rfl,rfl⟩ := loadMissingFromProvider_eq_ok.mp hmissing
      obtain ⟨_,_,hwrite,h⟩ := run_bind_eq_ok.mp h
      obtain ⟨hwritten,rfl⟩ := write_eq_ok.mp hwrite
      obtain ⟨hpassed,rfl⟩ := run_lift_eq_ok.mp h
      obtain ⟨rfl,hcomplete⟩ := requireIfFail_eq_ok.mp hpassed
      exact ⟨found,⟨hfound,hwritten,hcomplete⟩,rfl,rfl⟩
  · rintro ⟨storage,hread,hincreasing,hclosed,h⟩
    refine ⟨storage,_,⟨hread,hincreasing,hclosed,fun h => absurd h Bool.false_ne_true,rfl⟩,?_⟩
    by_cases hstored : library.isComplete storage.coverage = true
    · rw [if_pos hstored] at h ⊢
      exact run_pure_eq_ok.mpr h
    · rw [if_neg hstored] at h ⊢
      obtain ⟨found,hfilled,rfl,rfl⟩ := h
      refine run_bind_eq_ok.mpr ⟨_,_,loadMissingFromProvider_eq_ok.mpr ⟨found,hfilled.fetched,rfl,rfl⟩,?_⟩
      refine run_bind_eq_ok.mpr ⟨(),_,write_eq_ok.mpr ⟨hfilled.written,rfl⟩,?_⟩
      exact run_lift_eq_ok.mpr ⟨requireIfFail_eq_ok.mpr ⟨rfl,hfilled.complete⟩,rfl⟩

/-! ### Exactness -/

/-- The times of the bars are the slots of the window, in order, and the bars are closed. -/
def Exact (query : BarQuery) (duration : ℕ+) (bars : List (Bar V)) : Prop :=
  bars.map (·.time) = slots query duration ∧ Closed bars

/-- What the store and the provider deliver for a load has only bars on the slots of the
window, and a series that is passed on as it is leaves no slot out. -/
def Sound (library : Library V) (outside : Outside V) (query : BarQuery) (duration : ℕ+) : Prop :=
  match query.source with
  | .storage => ∀ stored, readSeries library outside query = .ok stored →
      OnSlots query duration stored.bars ∧ missingIntervals query stored.bars = []
  | .provider => ∀ found, Delivers library outside query found →
      OnSlots query duration found.bars ∧ missingIntervals query found.bars = []
  | .auto => ∀ stored, readSeries library outside query = .ok stored → OnSlots query duration stored.bars ∧
      if library.isComplete stored.coverage = true then missingIntervals query stored.bars = []
      else ∀ interval ∈ coalesce stored.coverage.missingIntervals, ∀ found,
        Delivers library outside (missingQuery query interval) found → OnSlots query duration found.bars
  | .other _ => True

theorem Delivers.unique {found found' : LoadedBarSeries V} (h : Delivers library outside query found)
    (h' : Delivers library outside query found') : found = found' := by
  obtain ⟨provider,hprovider,hfetch⟩ := h
  obtain ⟨provider',hprovider',hfetch'⟩ := h'
  cases hprovider.symm.trans hprovider'
  exact Except.ok.inj (hfetch.symm.trans hfetch')

theorem mem_fetchedSeries {bar : Bar V} : bar ∈ (fetchedSeries query found).bars ↔
    ∃ series ∈ found, bar ∈ series.bars := by
  rw [fetchedSeries, List.mem_insertionSort, List.mem_flatMap]

theorem forall_merged {P : Bar V → Prop} (hstorage : ∀ bar ∈ storage.bars, P bar)
    (hfound : ∀ series ∈ found, ∀ bar ∈ series.bars, P bar) :
    ∀ bar ∈ (mergedSeries query storage found).bars, P bar := by
  intro bar hbar
  rcases mem_of_mem_mergeSeries storage.toBarSeries (fetchedSeries query found).toBarSeries hbar with hbar | hbar
  · exact hstorage bar hbar
  · obtain ⟨series,hseries,hbar⟩ := mem_fetchedSeries.mp hbar
    exact hfound series hseries bar hbar

theorem onSlots_merged : OnSlots query duration (mergedSeries query storage found).bars ↔
      OnSlots query duration storage.bars ∧ ∀ series ∈ found, OnSlots query duration series.bars := by
  constructor
  · intro h
    have hon : ∀ bar, bar ∈ storage.bars ∨ bar ∈ (fetchedSeries query found).bars →
      bar.time ∈ slots query duration := by
      intro bar hbar
      obtain ⟨merged,hmerged,htime⟩ : ∃ merged ∈ (mergedSeries query storage found).bars, merged.time = bar.time :=
        time_mem_mergeSeries _ _ hbar
      rw [← htime]
      exact h merged hmerged
    exact ⟨fun bar hbar => hon bar (.inl hbar),
      fun series hseries bar hbar => hon bar (.inr (mem_fetchedSeries.mpr ⟨series,hseries,hbar⟩))⟩
  · rintro ⟨hstorage,hfound⟩
    exact forall_merged hstorage hfound

theorem Filled.closed (h : Filled library outside query storage found) (hclosed : Closed storage.bars) :
    Closed (mergedSeries query storage found).bars := by
  refine forall_merged hclosed fun series hseries => ?_
  obtain ⟨interval,-,hfetched⟩ := Pointwise.exists_left h.fetched series hseries
  exact hfetched.closed

theorem exact_iff (hduration : query.timeframe.durationMs = some duration) (hincreasing : Increasing bars)
    (hclosed : Closed bars) :
    Exact query duration bars ↔ OnSlots query duration bars ∧ missingIntervals query bars = [] :=
  (and_iff_left hclosed).trans (times_eq_slots_iff hduration hincreasing)

theorem Filled.exact_iff (h : Filled library outside query storage found)
    (hduration : query.timeframe.durationMs = some duration)
    (hcomplete : ∀ report, library.isComplete report = true → report.missingIntervals = [])
    (hfail : query.gapPolicy = .fail) (hclosed : Closed storage.bars) :
    Exact query duration (mergedSeries query storage found).bars ↔ OnSlots query duration storage.bars ∧
      ∀ interval ∈ coalesce storage.coverage.missingIntervals, ∀ series,
        Delivers library outside (missingQuery query interval) series → OnSlots query duration series.bars := by
  have hincreasing : Increasing (mergedSeries query storage found).bars := mergeSeries_increasing _ _
  have hwhole : Whole query (mergedSeries query storage found).bars :=
    hincreasing.missing.mp (hcomplete _ (h.complete hfail))
  rw [Orchestrator.exact_iff hduration hincreasing (h.closed hclosed), and_iff_left hwhole.2, onSlots_merged]
  refine and_congr_right fun _ => ?_
  constructor
  · intro hfound interval hinterval series hdelivers
    obtain ⟨series',hmem,hfetched⟩ := Pointwise.exists_right h.fetched interval hinterval
    cases hfetched.delivers.unique hdelivers
    exact hfound _ hmem
  · intro hall series hmem
    obtain ⟨interval,hinterval,hfetched⟩ := Pointwise.exists_left h.fetched series hmem
    exact hall interval hinterval series hfetched.delivers

theorem loadBars_disabled_eq_ok : (loadBars library outside false query).run.run s = (.ok series, s') ↔
    if query.source = .storage then
      (loadStorage library outside query (query.gapPolicy = .fail)).run.run s = (.ok series, s')
    else (loadFresh library outside query).run.run s = (.ok series, s') := by
  unfold loadBars
  split
  · exact Iff.rfl
  · have hnone : (loadCache library false query).run.run s = (.ok none, s) := rfl
    rw [run_bind_ok hnone]
    simp only [run_bind_eq_ok, run_pure_eq_ok, saveCache, run_when_eq_ok, Bool.false_eq_true, false_and, if_false]
    constructor
    · rintro ⟨series',s₁,hfresh,_,_,rfl,rfl,rfl⟩
      exact hfresh
    · exact fun hfresh => ⟨series,s',hfresh,(),s',rfl,rfl,rfl⟩

theorem forall_read_iff {P : LoadedBarSeries V → Prop} (hread : readSeries library outside query = .ok storage) :
    (∀ stored, readSeries library outside query = .ok stored → P stored) ↔ P storage :=
  ⟨fun h => h storage hread,fun h _ hstored => Except.ok.inj (hread.symm.trans hstored) ▸ h⟩

/-- A load under `gap_policy='fail'` with the cache off that returns is exact if and only
if what was delivered for it is sound. -/
theorem load_exact_iff (library : Library V)
    (hcomplete : ∀ report, library.isComplete report = true → report.missingIntervals = [])
    (outside : Outside V) (query : BarQuery) (duration : ℕ+) (hduration : query.timeframe.durationMs = some duration)
    (hfail : query.gapPolicy = .fail) (s s' : Session V) (series : LoadedBarSeries V)
    (hload : (loadBars library outside false query).run.run s = (.ok series, s')) :
    Exact query duration series.bars ↔ Sound library outside query duration := by
  rw [loadBars_disabled_eq_ok] at hload
  unfold Sound
  cases hsource : query.source with
  | storage =>
    rw [if_pos hsource, loadStorage_eq_ok] at hload
    obtain ⟨hread,hincreasing,hclosed,-⟩ := hload
    dsimp only
    rw [forall_read_iff hread]
    exact exact_iff hduration hincreasing hclosed
  | provider =>
    rw [if_neg (by rw [hsource]; decide), loadFresh, hsource] at hload
    obtain ⟨series',s₁,hprovider,hload⟩ := run_bind_eq_ok.mp hload
    obtain ⟨rfl,-⟩ := requireIfFail_eq_ok.mp (run_lift_eq_ok.mp hload).1
    obtain ⟨hdelivers,hincreasing,hclosed,-⟩ := loadProvider_eq_ok.mp hprovider
    rw [exact_iff hduration hincreasing hclosed]
    exact ⟨fun h found hfound => hdelivers.unique hfound ▸ h,fun h => h series hdelivers⟩
  | auto =>
    rw [if_neg (by rw [hsource]; decide), loadFresh, hsource] at hload
    obtain ⟨storage,hread,hincreasing,hclosed,hload⟩ := loadAuto_eq_ok.mp hload
    dsimp only
    rw [forall_read_iff hread]
    by_cases hstored : library.isComplete storage.coverage = true
    · rw [if_pos hstored] at hload ⊢
      obtain ⟨rfl,-⟩ := hload
      exact exact_iff hduration hincreasing hclosed
    · rw [if_neg hstored] at hload ⊢
      obtain ⟨found,hfilled,rfl,-⟩ := hload
      exact hfilled.exact_iff hduration hcomplete hfail hclosed
  | other =>
    rw [if_neg (by rw [hsource]; simp), loadFresh, hsource] at hload
    cases hload

/-- A library in which a report is complete if it is valid and nothing is missing. -/
def Library.plain : Library V where
  serialize instrument := instrument.symbol
  isComplete report := report.status = .valid ∧ report.missingIntervals = []
  validateEnvelope _ := .ok ()
  verifyEnvelope _ := true
  validateBar _ := .ok ()
  verifyBar _ := true
  reread := id

theorem Library.plain_complete (report : CoverageReport) (h : (Library.plain (V := V)).isComplete report = true) :
    report.missingIntervals = [] := (of_decide_eq_true h).2

def minuteBars (times : List ℤ) : List (Bar Unit) :=
  times.map fun t => { time := t, timeClose := t + 60000, values := (), closed := true }

def minuteQuery (source : Source) (gapPolicy : GapPolicy) (startMs endMs : ℤ) : BarQuery where
  instrument := ⟨"binance","spot","BTCUSDT"⟩
  timeframe := .minute
  startMs := startMs
  endMs := endMs
  source := source
  gapPolicy := gapPolicy
  errorPolicy := "raise"

/-- What holds bars at the given times answers with those of the window and reports their coverage. -/
def answer (times : List ℤ) (source : String) (query : BarQuery) : Except Thrown (Payload Unit) :=
  let bars := window query (minuteBars times)
  .ok (.series { query, bars, coverage := coverageFor query bars source })

def Outside.holding (stored provided : List ℤ) : Outside Unit where
  read := answer stored "storage"
  provider := some { persistsFetches := false, fetchBars := answer provided "provider" }
  write _ := .ok { success := true, error := none }
  saving := .all

def Session.start : Session Unit := ⟨[],[],.empty⟩

/-- The window has two slots. The provider delivers a bar on each and one between them, and
all three are returned. -/
theorem bar_between_slots_returned :
    let query := minuteQuery .provider .fail 0 120000
    let result := ((loadBars .plain (.holding [] [0, 30000, 60000]) false query).run.run .start).1
    result.map (fun series => series.bars.map (·.time)) = .ok [0, 30000, 60000] ∧ slots query 60000 = [0, 60000] :=
  ⟨by rfl,by decide⟩

theorem two_bars_exact :
    let query := minuteQuery .provider .fail 0 120000
    ∃ series s', (loadBars .plain (.holding [] [0, 60000]) false query).run.run .start = (.ok series, s') ∧
      (Exact query 60000 series.bars ↔ Sound .plain (.holding [] [0, 60000]) query 60000) ∧
      series.bars.map (·.time) = slots query 60000 := by
  refine ⟨_,_,rfl,?_,by decide⟩
  exact load_exact_iff .plain Library.plain_complete _ _ 60000 rfl rfl .start _ _ rfl

end OpenPine.Orchestrator
