import OpenPine.Orchestrator.ExactLoads

/-! # Loads that fill the store from the provider

A series with one bar on every slot of the window, of which the store holds a part. The
intervals that are fetched are those between the stored bars, so the load returns the
whole series in the window whatever the store holds.
-/
namespace OpenPine.Orchestrator
open Intervals StableSort List
variable {V : Type}

def served (query : BarQuery) (bars : List (Bar V)) (source : String) (snapshot : Option (Snapshot V)) :
    LoadedBarSeries V :=
  { query, bars := window query bars, coverage := coverageFor query (window query bars) source, snapshot }

/-- A complete report has nothing missing, and a valid one with nothing missing is complete. -/
structure Library.Lawful (library : Library V) : Prop where
  missing : ∀ report, library.isComplete report = true → report.missingIntervals = []
  valid : ∀ report, report.status = .valid → report.missingIntervals = [] → report.duplicateTimestamps = [] →
    library.isComplete report = true

/-- A series that meets the window in closed bars on its slots. The store and the provider
hold parts of it, and every slot has a bar in one of them. -/
structure Parts (query : BarQuery) (duration : ℕ+) (truth stored provided : List (Bar V)) : Prop where
  fixed : query.timeframe.durationMs = some duration
  increasing : Increasing truth
  closed : Closed (window query truth)
  onSlots : OnSlots query duration (window query truth)
  storedPart : stored.Sublist truth
  providedPart : provided.Sublist truth
  cover : ∀ t ∈ slots query duration, ∃ bar : Bar V, bar.time = t ∧ (bar ∈ stored ∨ bar ∈ provided)

/-- The store and the provider answer with what they hold, and the store takes what is
written. The provider is only asked if a slot is not stored. -/
structure Serving (library : Library V) (outside : Outside V) (query : BarQuery) (duration : ℕ+)
    (stored provided : List (Bar V)) : Prop where
  read : ∃ source snapshot, readSeries library outside query = .ok (served query stored source snapshot)
  fetch : (∃ t ∈ slots query duration, t ∉ stored.map (·.time)) → ∀ interval, ∃ source snapshot,
    Delivers library outside (missingQuery query interval)
      (served (missingQuery query interval) provided source snapshot)
  write : ∀ series, writeSeries outside series = .ok ()

variable {library : Library V} {outside : Outside V} {query : BarQuery} {duration : ℕ+}
  {truth stored provided bars : List (Bar V)} {source : String} {snapshot : Option (Snapshot V)} {i : ℤ × ℤ}
  {bar : Bar V}
  {t : ℤ}

theorem Library.Lawful.complete (hlaw : library.Lawful) (h : Increasing bars) (hwhole : Whole query bars) :
    library.isComplete (coverageFor query bars source) = true :=
  hlaw.valid _ (h.valid hwhole) (h.missing.mpr hwhole) h.duplicateTimestamps

/-! ### The missing intervals -/

theorem exists_slot (duration : ℕ+) (hstart : query.startMs ≤ t) (hend : t < query.endMs) :
    ∃ start ∈ slots query duration, start ≤ t ∧ t < start + duration := by
  have hpos := Int.natCast_pos.mpr duration.pos
  have hsplit := Int.emod_add_mul_ediv (t - query.startMs) duration
  have hrem := Int.emod_nonneg (t - query.startMs) hpos.ne'
  have hlt := Int.emod_lt_of_pos (t - query.startMs) hpos
  have hsteps : 0 ≤ (duration : ℤ) * ((t - query.startMs) / duration) :=
    mul_nonneg hpos.le (Int.ediv_nonneg (by omega) hpos.le)
  refine ⟨query.startMs + duration * ((t - query.startMs) / duration),
    mem_slots.mpr ⟨by omega,by omega,?_⟩,by omega,by omega⟩
  rw [add_sub_cancel_left]
  exact dvd_mul_right _ _

section
variable (hduration : query.timeframe.durationMs = some duration)
include hduration

theorem within_missingIntervals (h : Increasing bars) (t : ℤ) :
    (∃ i ∈ (coverageFor query bars source).missingIntervals, Within i t) ↔
      ∃ start ∈ slots query duration, start ∉ bars.map (·.time) ∧
        Within (start, min (start + duration) query.endMs) t := by
  cases hbars : bars with
  | nil =>
    simp only [coverageFor, mem_singleton, exists_eq_left, Within, lt_min_iff, map_nil, not_mem_nil,
      not_false_eq_true, true_and]
    constructor
    · rintro ⟨hstart,hend⟩
      obtain ⟨start,hslot,hle,hlt⟩ := exists_slot duration hstart hend
      exact ⟨start,hslot,hle,hlt,hend⟩
    · rintro ⟨start,hslot,hle,-,hend⟩
      exact ⟨(mem_slots.mp hslot).1.trans hle,hend⟩
  | cons =>
    rw [← hbars, h.missingIntervals (by simp [hbars])]
    simp only [missingIntervals, hduration, mem_map, mem_filter, decide_eq_true_eq]
    constructor
    · rintro ⟨_,⟨start,⟨hslot,hfree⟩,rfl⟩,hwithin⟩
      exact ⟨start,hslot,hfree,hwithin⟩
    · rintro ⟨start,hslot,hfree,hwithin⟩
      exact ⟨_,⟨start,⟨hslot,hfree⟩,rfl⟩,hwithin⟩

theorem within_missing (h : Increasing bars) (ht : t ∈ slots query duration) :
    (∃ i ∈ (coverageFor query bars source).missingIntervals, Within i t) ↔ t ∉ bars.map (·.time) := by
  have hpos := Int.natCast_pos.mpr duration.pos
  rw [within_missingIntervals hduration h]
  constructor
  · rintro ⟨start,hslot,hfree,hle,hlt⟩
    have hstep : t < start + duration := lt_of_lt_of_le hlt (min_le_left _ _)
    rwa [progression_eq hpos hslot ht hle hstep]
  · intro hfree
    exact ⟨t,ht,hfree,le_refl t,lt_min (lt_add_of_pos_right t hpos) (mem_slots.mp ht).2.1⟩

theorem missing_bounds (hwindow : query.startMs < query.endMs) (h : Increasing bars) :
    ∀ i ∈ coalesce (coverageFor query bars source).missingIntervals,
      i.1 ∈ slots query duration ∧ i.1 < i.2 ∧ i.2 ≤ query.endMs := by
  have hpos := Int.natCast_pos.mpr duration.pos
  have hjoin : ∀ i j : ℤ × ℤ, (i.1 ∈ slots query duration ∧ i.1 < i.2 ∧ i.2 ≤ query.endMs) →
      (j.1 ∈ slots query duration ∧ j.1 < j.2 ∧ j.2 ≤ query.endMs) → i.1 ≤ j.1 →
      i.1 ∈ slots query duration ∧ i.1 < max i.2 j.2 ∧ max i.2 j.2 ≤ query.endMs :=
    fun i j hi hj _ => ⟨hi.1,lt_max_of_lt_left hi.2.1,max_le hi.2.2 hj.2.2⟩
  refine coalesce_forall hjoin ?_
  cases hbars : bars with
  | nil =>
    intro i hi
    cases mem_singleton.mp hi
    exact ⟨mem_slots.mpr ⟨le_refl _,hwindow,by simp⟩,hwindow,le_refl _⟩
  | cons =>
    rw [← hbars, h.missingIntervals (by simp [hbars])]
    simp only [missingIntervals, hduration, mem_map, mem_filter]
    rintro _ ⟨start,⟨hslot,-⟩,rfl⟩
    obtain ⟨-,hend,-⟩ := mem_slots.mp hslot
    exact ⟨hslot,lt_min (lt_add_of_pos_right start hpos) hend,min_le_right _ _⟩

end

theorem adapterCoverageFor_eq (query : BarQuery) (bars : List (Bar V)) (source : String) :
    adapterCoverageFor query bars source = coverageFor query bars source := by
  cases bars with
  | nil => rfl
  | cons first rest =>
    unfold adapterCoverageFor coverageFor
    by_cases hduplicates : duplicateTimestamps (first :: rest) = []
    · by_cases hordered : ordered (first :: rest) = true
      · simp only [hduplicates, hordered, and_self, if_true]
        rfl
      · simp [hduplicates, hordered]
    · simp [hduplicates]

theorem valid_iff (hduration : query.timeframe.durationMs = some duration) :
    (coverageFor query bars source).status = .valid ↔
    bars ≠ [] ∧ Increasing bars ∧ ∀ t ∈ slots query duration, t ∈ bars.map (·.time) := by
  rw [← missingIntervals_eq_nil hduration]
  refine ⟨fun hvalid => ?_,fun ⟨hne,h,hmissing⟩ => h.valid ⟨hne,hmissing⟩⟩
  cases bars with
  | nil => simp [coverageFor] at hvalid
  | cons first rest =>
    have hduplicates : duplicateTimestamps (first :: rest) = [] := by
      by_contra hne
      simp [coverageFor, hne] at hvalid
    have hordered : (coverageFor query (first :: rest) source).status ≠ .unordered := by
      rw [hvalid]
      decide
    have h : Increasing (first :: rest) := increasing_iff.mpr ⟨hduplicates,hordered⟩
    refine ⟨cons_ne_nil _ _,h,?_⟩
    by_contra hmissing
    simp [coverageFor, hduplicates, ordered_iff.mpr h, hmissing] at hvalid

/-- Both reports agree. They say that a series is valid exactly if it is not empty, increases and has a bar on every
slot, and joining what they call missing leaves intervals apart from each other that have the points of the slots
without a bar. -/
theorem coverage_exact (query : BarQuery) (hduration : query.timeframe.durationMs = some duration)
    (hwindow : query.startMs < query.endMs) (bars : List (Bar V)) (source : String) :
    adapterCoverageFor query bars source = coverageFor query bars source ∧
      ((coverageFor query bars source).status = .valid ↔
        bars ≠ [] ∧ Increasing bars ∧ ∀ t ∈ slots query duration, t ∈ bars.map (·.time)) ∧
      (Increasing bars → let joined := coalesce (coverageFor query bars source).missingIntervals
        joined.Pairwise (·.2 < ·.1) ∧ (∀ i ∈ joined, i.1 < i.2) ∧
        ∀ t, (∃ i ∈ joined, Within i t) ↔
          ∃ start ∈ slots query duration, start ∉ bars.map (·.time) ∧
            Within (start, min (start + duration) query.endMs) t) :=
  ⟨adapterCoverageFor_eq query bars source,valid_iff hduration,fun h => ⟨coalesce_pairwise _,
    fun i hi => (missing_bounds hduration hwindow h i hi).2.1,
    fun t => (coalesce_within t).trans (within_missingIntervals hduration h t)⟩⟩

theorem later_minutes_missing : let query := minuteQuery .storage .fail 0 150000
    let joined := coalesce (coverageFor query (minuteBars [0]) "storage").missingIntervals
    joined = [(60000, 150000)] ∧ joined.Pairwise (·.2 < ·.1) :=
  ⟨by decide +kernel,((coverage_exact (minuteQuery .storage .fail 0 150000) rfl (by decide)
    (minuteBars [0]) "storage").2.2
    (by decide)).1⟩

/-! ### Filling -/

def gaps (query : BarQuery) (stored : List (Bar V)) (source : String) : List (ℤ × ℤ) :=
  coalesce (coverageFor query (window query stored) source).missingIntervals

section Fill
variable (hlaw : library.Lawful) (hparts : Parts query duration truth stored provided)
  (hwindow : query.startMs < query.endMs)
include hparts

theorem Parts.window_stored (h : bar ∈ window query stored) : bar ∈ window query truth :=
  (hparts.storedPart.filter _).subset h

theorem Parts.increasing_stored : Increasing (window query stored) :=
  Increasing.window (hparts.increasing.sublist hparts.storedPart)

theorem Parts.increasing_provided (query' : BarQuery) : Increasing (window query' provided) :=
  Increasing.window (hparts.increasing.sublist hparts.providedPart)

theorem Parts.fetched_iff (ht : t ∈ slots query duration) : (∃ i ∈ gaps query stored source, Within i t) ↔
      t ∉ (window query stored).map (·.time) :=
  (coalesce_within t).trans (within_missing hparts.fixed hparts.increasing_stored ht)

theorem Parts.provides (ht : t ∈ slots query duration) (hfree : t ∉ (window query stored).map (·.time)) :
    ∃ bar ∈ provided, bar.time = t := by
  obtain ⟨bar,rfl,hbar | hbar⟩ := hparts.cover t ht
  · obtain ⟨hstart,hend,-⟩ := mem_slots.mp ht
    exact absurd (mem_map_of_mem (mem_window.mpr ⟨hbar,hstart,hend⟩)) hfree
  · exact ⟨bar,hbar,rfl⟩

include hwindow

theorem Parts.whole_interval (hi : i ∈ gaps query stored source) :
    Whole (missingQuery query i) (window (missingQuery query i) provided) := by
  have hpos := Int.natCast_pos.mpr duration.pos
  obtain ⟨hslot,hlt,hend⟩ := missing_bounds hparts.fixed hwindow hparts.increasing_stored i hi
  have hdelivered : ∀ t ∈ slots (missingQuery query i) duration,
      t ∈ (window (missingQuery query i) provided).map (·.time) := by
    intro t ht
    have htslot : t ∈ slots query duration := progression_of_mem hpos hslot hend ht
    obtain ⟨hle,hlt,-⟩ := mem_slots.mp ht
    obtain ⟨bar,hbar,rfl⟩ := hparts.provides htslot ((hparts.fetched_iff htslot).mp ⟨i,hi,hle,hlt⟩)
    exact mem_map_of_mem (mem_window.mpr ⟨hbar,hle,hlt⟩)
  have hfixed : (missingQuery query i).timeframe.durationMs = some duration := hparts.fixed
  refine ⟨?_,(missingIntervals_eq_nil hfixed).mpr hdelivered⟩
  have hfirst := hdelivered i.1 (mem_slots.mpr ⟨le_refl _,hlt,by simp [missingQuery]⟩)
  obtain ⟨bar,hbar,-⟩ := mem_map.mp hfirst
  exact ne_nil_of_mem hbar

theorem Parts.window_interval (hi : i ∈ gaps query stored source)
    (hbar : bar ∈ window (missingQuery query i) provided) : bar ∈ window query truth := by
  obtain ⟨hslot,-,hend⟩ := missing_bounds hparts.fixed hwindow hparts.increasing_stored i hi
  obtain ⟨hstart,-⟩ := mem_slots.mp hslot
  obtain ⟨hmem,hle,hlt⟩ := mem_window.mp hbar
  exact mem_window.mpr ⟨hparts.providedPart.subset hmem,le_trans hstart hle,lt_of_lt_of_le hlt hend⟩

include hlaw

theorem Parts.fetched {source' : String} (hi : i ∈ gaps query stored source)
    (hdelivers : Delivers library outside (missingQuery query i)
      (served (missingQuery query i) provided source' snapshot)) :
    Fetched library outside query i (served (missingQuery query i) provided source' snapshot) := by
  have hincreasing := hparts.increasing_provided (missingQuery query i)
  have hwhole := hparts.whole_interval hwindow hi
  refine ⟨hdelivers,hincreasing,?_,fun _ => hwhole,fun _ => hlaw.complete hincreasing hwhole⟩
  exact fun bar hbar => hparts.closed bar (hparts.window_interval hwindow hi hbar)

end Fill

def answers (query : BarQuery) (provided : List (Bar V)) (source : ℤ × ℤ → String)
    (snapshot : ℤ × ℤ → Option (Snapshot V)) (intervals : List (ℤ × ℤ)) : List (LoadedBarSeries V) :=
  intervals.map fun i => served (missingQuery query i) provided (source i) (snapshot i)

section Answers
variable {intervals : List (ℤ × ℤ)} {sources : ℤ × ℤ → String} {snapshots : ℤ × ℤ → Option (Snapshot V)}

theorem mem_answers : bar ∈ (fetchedSeries query (answers query provided sources snapshots intervals)).bars ↔
    ∃ i ∈ intervals, bar ∈ window (missingQuery query i) provided := by
  simp only [mem_fetchedSeries, answers, mem_map, exists_exists_and_eq_and]
  rfl

theorem increasing_answers (hprovided : Increasing provided) (hintervals : intervals.Pairwise (·.2 < ·.1)) :
    Increasing (fetchedSeries query (answers query provided sources snapshots intervals)).bars := by
  refine insertionSort_strict (nodup_of_strict ?_)
  rw [answers, flatMap_map, pairwise_flatMap]
  refine ⟨fun i _ => hprovided.window,hintervals.imp ?_⟩
  intro i j hij bar hbar bar' hbar'
  obtain ⟨-,-,hlt⟩ := mem_window.mp hbar
  obtain ⟨-,hle,-⟩ := mem_window.mp hbar'
  exact lt_trans hlt (lt_of_lt_of_le hij hle)

end Answers

section Load
variable (hlaw : library.Lawful) (hparts : Parts query duration truth stored provided)
  (hwindow : query.startMs < query.endMs)
  {sources : ℤ × ℤ → String} {snapshots : ℤ × ℤ → Option (Snapshot V)}
include hparts

theorem Parts.stored_eq (hwhole : Whole query (window query stored)) : window query stored = window query truth := by
  refine strict_ext hparts.increasing_stored hparts.increasing.window fun bar => ⟨hparts.window_stored,fun hbar => ?_⟩
  have htime := (missingIntervals_eq_nil hparts.fixed).mp hwhole.2 bar.time (hparts.onSlots bar hbar)
  obtain ⟨bar',hbar',heq⟩ := mem_map.mp htime
  rwa [← strict_inj hparts.increasing.window (hparts.window_stored hbar') hbar heq]

include hwindow

theorem Parts.whole : Whole query (window query truth) := by
  refine whole_window hparts.fixed hwindow fun t ht => ?_
  obtain ⟨bar,rfl,hbar⟩ := hparts.cover t ht
  exact mem_map_of_mem (hbar.elim (fun h => hparts.storedPart.subset h) (fun h => hparts.providedPart.subset h))

/-- Stored and loaded parts together are the whole window. -/
theorem Parts.merged_eq :
    (mergedSeries query (served query stored source snapshot) (answers query provided sources snapshots
      (gaps query stored source))).bars = window query truth := by
  have hsub : ∀ bar ∈ (mergedSeries query (served query stored source snapshot)
    (answers query provided sources snapshots
      (gaps query stored source))).bars, bar ∈ window query truth := by
    intro bar hbar
    rcases mem_of_mem_mergeSeries _ _ hbar with hbar | hbar
    · exact hparts.window_stored hbar
    · obtain ⟨i,hi,hbar⟩ := mem_answers.mp hbar
      exact hparts.window_interval hwindow hi hbar
  refine strict_ext (mergeSeries_increasing _ _) hparts.increasing.window fun bar => ⟨hsub bar,fun hbar => ?_⟩
  have hslot := hparts.onSlots bar hbar
  -- the slot is stored or fetched, and the merge keeps its time
  have hfound : ∃ bar', bar'.time = bar.time ∧ (bar' ∈ window query stored ∨
      bar' ∈ (fetchedSeries query (answers query provided sources snapshots
        (gaps query stored source))).bars) := by
    by_cases hstored : bar.time ∈ (window query stored).map (·.time)
    · obtain ⟨bar',hbar',heq⟩ := mem_map.mp hstored
      exact ⟨bar',heq,.inl hbar'⟩
    · obtain ⟨bar',hbar',heq⟩ := hparts.provides hslot hstored
      obtain ⟨i,hi,hle,hlt⟩ := (hparts.fetched_iff hslot).mpr hstored
      exact ⟨bar',heq,.inr (mem_answers.mpr ⟨i,hi,mem_window.mpr ⟨hbar',heq ▸ hle,heq ▸ hlt⟩⟩)⟩
  obtain ⟨bar',heq,hbar'⟩ := hfound
  obtain ⟨merged,hmerged,htime⟩ : ∃ merged ∈
    (mergedSeries query (served query stored source snapshot) (answers query provided
      sources snapshots (gaps query stored source))).bars, merged.time = bar'.time := time_mem_mergeSeries _ _ hbar'
  rwa [← strict_inj hparts.increasing.window (hsub merged hmerged) hbar (htime.trans heq)]

theorem Parts.filled (hlaw : library.Lawful) (hwrite : ∀ series, writeSeries outside series = .ok ())
    (hfetch : ∀ i, Delivers library outside (missingQuery query i)
      (served (missingQuery query i) provided (sources i) (snapshots i))) :
    Filled library outside query (served query stored source snapshot)
      (answers query provided sources snapshots (gaps query stored source)) := by
  have hall : ∀ i ∈ gaps query stored source,
      Fetched library outside query i (served (missingQuery query i) provided (sources i) (snapshots i)) :=
    fun i hi => hparts.fetched hlaw hwindow hi (hfetch i)
  refine ⟨?_,fun _ => ⟨?_,?_,hwrite _⟩,fun _ => ?_⟩
  · rw [answers, forall₂_map_right_iff]
    exact forall₂_same.mpr hall
  · exact increasing_answers (hparts.increasing.sublist hparts.providedPart) (coalesce_pairwise _)
  · intro bar hbar
    obtain ⟨i,hi,hbar⟩ := mem_answers.mp hbar
    exact (hall i hi).closed bar hbar
  · have hcoverage : (mergedSeries query (served query stored source snapshot) (answers query provided sources snapshots
        (gaps query stored source))).coverage = coverageFor query (window query truth) "auto" := by
      rw [← hparts.merged_eq hwindow]
      rfl
    rw [hcoverage]
    exact hlaw.complete hparts.increasing.window (hparts.whole hwindow)

theorem Parts.gap_free (hi : i ∈ gaps query stored source) (hbar : bar ∈ stored) : ¬Within i bar.time := by
  intro hwithin
  obtain ⟨hslot,-,hend⟩ := missing_bounds hparts.fixed hwindow hparts.increasing_stored i hi
  obtain ⟨hstart,-⟩ := mem_slots.mp hslot
  have hmem : bar ∈ window query stored := mem_window.mpr ⟨hbar,le_trans hstart hwithin.1,lt_of_lt_of_le hwithin.2 hend⟩
  have hfree := (hparts.fetched_iff (hparts.onSlots bar (hparts.window_stored hmem))).mp ⟨i,hi,hwithin⟩
  exact hfree (mem_map_of_mem hmem)

theorem Parts.loadAuto_ok (hlaw : library.Lawful) (hserving : Serving library outside query duration stored provided)
    (s : Session V) : ∃ series s', (loadAuto library outside query).run.run s = (.ok series, s') ∧
      series.query = query ∧ series.bars = window query truth ∧ s'.cache = s.cache ∧
      (∃ fetched, s'.fetched = s.fetched ++ fetched ∧ ∀ query' ∈ fetched, ∀ bar ∈ stored,
        ¬Within (query'.startMs, query'.endMs) bar.time) ∧
      ∃ written, s'.written = s.written ++ written ∧ ∀ series ∈ written, ∀ bar ∈ series.bars, bar ∈ provided := by
  obtain ⟨source,snapshot,hread⟩ := hserving.read
  have hclosed : Closed (window query stored) := fun bar hbar => hparts.closed bar (hparts.window_stored hbar)
  by_cases hstored : library.isComplete (served query stored source snapshot).coverage = true
  · have hwhole : Whole query (window query stored) := hparts.increasing_stored.missing.mp (hlaw.missing _ hstored)
    refine ⟨served query stored source snapshot,s,?_,rfl,hparts.stored_eq hwhole,rfl,⟨[],by simp,by simp⟩,
      [],by simp,by simp⟩
    refine loadAuto_eq_ok.mpr ⟨_,hread,hparts.increasing_stored,hclosed,?_⟩
    rw [if_pos hstored]
    exact ⟨rfl,rfl⟩
  · have hfree : ∃ t ∈ slots query duration, t ∉ stored.map (·.time) := by
      by_contra hall
      refine hstored (hlaw.complete hparts.increasing_stored (whole_window hparts.fixed hwindow fun t ht => ?_))
      exact by_contra fun hfree => hall ⟨t,ht,hfree⟩
    choose sources snapshots hfetch using hserving.fetch hfree
    let found := answers query provided sources snapshots (gaps query stored source)
    have hfilled : Filled library outside query (served query stored source snapshot) found :=
      hparts.filled hwindow hlaw hserving.write hfetch
    refine ⟨mergedSeries query (served query stored source snapshot) found,
      s.filled outside query (served query stored source snapshot) found,?_,rfl,hparts.merged_eq hwindow,rfl,
      ⟨(gaps query stored source).map (missingQuery query),rfl,?_⟩,
      if Writes outside query found then [fetchedSeries query found] else [],rfl,?_⟩
    · refine loadAuto_eq_ok.mpr ⟨_,hread,hparts.increasing_stored,hclosed,?_⟩
      rw [if_neg hstored]
      exact ⟨found,hfilled,rfl,rfl⟩
    · intro query' hquery' bar hbar hwithin
      obtain ⟨i,hi,rfl⟩ := mem_map.mp hquery'
      exact hparts.gap_free hwindow hi hbar hwithin
    · intro series hseries bar hbar
      split at hseries
      · cases mem_singleton.mp hseries
        obtain ⟨i,-,hbar⟩ := mem_answers.mp hbar
        exact (mem_window.mp hbar).1
      · exact absurd hseries not_mem_nil

end Load

/-- Whatever part of a series the store holds: a load from `auto` under `gap_policy='fail'`
returns the series in the window, fetches no interval that has a stored bar, and writes
only bars of the series. -/
theorem auto_load_independent_of_store (library : Library V) (hlaw : library.Lawful) (outside : Outside V)
    (query : BarQuery) (duration : ℕ+) (hduration : query.timeframe.durationMs = some duration)
    (hwindow : query.startMs < query.endMs) (hsource : query.source = .auto) (truth : List (Bar V))
    (hincreasing : Increasing truth) (hslots : (window query truth).map (·.time) = slots query duration)
    (hclosed : Closed (window query truth)) (held : Bar V → Bool)
    (hread : ∃ source snapshot, readSeries library outside query =
      .ok (served query (truth.filter held) source snapshot))
    (hfetch : ∀ interval, ∃ source snapshot,
      Delivers library outside (missingQuery query interval)
      (served (missingQuery query interval) truth source snapshot))
    (hwrite : ∀ series, writeSeries outside series = .ok ()) (s : Session V) :
    ∃ series s', (loadBars library outside false query).run.run s = (.ok series, s') ∧
      series.bars = window query truth ∧
      (∃ fetched, s'.fetched = s.fetched ++ fetched ∧ ∀ query' ∈ fetched, ∀ bar ∈ truth.filter held,
        ¬Within (query'.startMs, query'.endMs) bar.time) ∧
      ∃ written, s'.written = s.written ++ written ∧ ∀ series ∈ written, ∀ bar ∈ series.bars, bar ∈ truth := by
  have hparts : Parts query duration truth (truth.filter held) truth := by
    refine ⟨hduration,hincreasing,hclosed,fun bar hbar => ?_,filter_sublist,.refl _,fun t ht => ?_⟩
    · rw [← hslots]
      exact mem_map_of_mem hbar
    · rw [← hslots] at ht
      obtain ⟨bar,hbar,rfl⟩ := mem_map.mp ht
      exact ⟨bar,rfl,.inr (mem_window.mp hbar).1⟩
  obtain ⟨series,s',hload,-,hbars,-,hfetched,hwritten⟩ :=
    hparts.loadAuto_ok hwindow hlaw ⟨hread,fun _ => hfetch,hwrite⟩ s
  refine ⟨series,s',loadBars_disabled_eq_ok.mpr ?_,hbars,hfetched,hwritten⟩
  rw [if_neg (by rw [hsource]; decide), loadFresh, hsource]
  exact hload

theorem Library.plain_lawful : (Library.plain (V := V)).Lawful :=
  ⟨plain_complete,fun _ hvalid hmissing _ => decide_eq_true ⟨hvalid,hmissing⟩⟩

theorem holes_filled :
    let query := minuteQuery .auto .fail 0 270000
    let truth := [0, 60000, 120000, 180000, 240000]
    let outside := Outside.holding [60000, 180000] truth
    ∃ series s', (loadBars .plain outside false query).run.run .start = (.ok series, s') ∧
      series.bars = window query (minuteBars truth) ∧
      s'.fetched.map (fun query' => (query'.startMs, query'.endMs)) =
        [(0, 60000), (120000, 180000), (240000, 270000)] := by
  have hload := auto_load_independent_of_store .plain Library.plain_lawful (.holding [60000, 180000]
    [0, 60000, 120000, 180000, 240000]) (minuteQuery .auto .fail 0 270000) 60000 rfl (by decide) rfl
    (minuteBars [0, 60000, 120000, 180000, 240000]) (by decide) (by decide) (by decide)
    (fun bar => bar.time = 60000 ∨ bar.time = 180000) ⟨"storage",none,rfl⟩
    (fun interval => ⟨"provider",none,_,rfl,rfl⟩) (fun _ => rfl) .start
  obtain ⟨series,s',hrun,hbars,-⟩ := hload
  refine ⟨series,s',hrun,hbars,?_⟩
  obtain rfl := congrArg Prod.snd hrun
  decide

end OpenPine.Orchestrator
