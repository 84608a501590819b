import Mathlib.Data.List.Chain
import OpenPine.Foundation.StableSort
import OpenPine.Orchestrator.BarSeries

/-! # What validated series are

A series passes the validator exactly if its times increase, its bars are closed and,
where gaps are not allowed, it is not empty and has a bar on every slot of its query.
-/
namespace OpenPine.Orchestrator
open Intervals List
variable {V : Type} {query : BarQuery} {bars : List (Bar V)} {source : String} {duration : ℕ+} {bar : Bar V}

abbrev Increasing (bars : List (Bar V)) : Prop := bars.Pairwise (·.time < ·.time)

def Closed (bars : List (Bar V)) : Prop := ∀ bar ∈ bars, bar.closed = true

instance (bars : List (Bar V)) : Decidable (Closed bars) :=
  inferInstanceAs (Decidable (∀ bar ∈ bars, bar.closed = true))

def Whole (query : BarQuery) (bars : List (Bar V)) : Prop := bars ≠ [] ∧ missingIntervals query bars = []

def OnSlots (query : BarQuery) (duration : ℕ+) (bars : List (Bar V)) : Prop :=
  ∀ bar ∈ bars, bar.time ∈ slots query duration

theorem seenTimes_spec (bars : List (Bar V)) :
    (∀ t, t ∈ (seenTimes bars).1 ↔ t ∈ bars.map (·.time)) ∧ ((seenTimes bars).2 = [] ↔ (bars.map (·.time)).Nodup) := by
  induction bars using List.reverseRecOn with
  | nil => simp [seenTimes]
  | append_singleton bars bar ih =>
    obtain ⟨hseen,hagain⟩ := ih
    have hstep : seenTimes (bars ++ [bar]) = (bar.time :: (seenTimes bars).1,
        if bar.time ∈ (seenTimes bars).1 then insert bar.time (seenTimes bars).2 else (seenTimes bars).2) := by
      rw [seenTimes, foldl_append]
      rfl
    rw [hstep]
    refine ⟨fun t => ?_,?_⟩
    · simp only [mem_cons, hseen, map_append, map_cons, map_nil, mem_append, not_mem_nil, or_false]
      exact or_comm
    · simp only [hseen, map_append, map_cons, map_nil, nodup_append, nodup_singleton, true_and]
      split
      · rename_i hmem
        refine iff_of_false ?_ ?_
        · exact ne_nil_of_mem (mem_insert_self)
        · exact fun h => h.2 bar.time hmem bar.time mem_cons_self rfl
      · rename_i hmem
        rw [hagain]
        refine ⟨fun h => ⟨h,fun t ht t' ht' heq => hmem ?_⟩,fun h => h.1⟩
        cases mem_singleton.mp ht'
        exact heq ▸ ht

theorem duplicateTimestamps_eq_nil : duplicateTimestamps bars = [] ↔ (bars.map (·.time)).Nodup := by
  rw [← (seenTimes_spec bars).2, duplicateTimestamps]
  exact ⟨fun h => (h ▸ (perm_insertionSort (· ≤ ·) (seenTimes bars).2)).symm.eq_nil,fun h => by rw [h]; rfl⟩

theorem ordered_iff : ordered bars = true ↔ Increasing bars := by
  have : IsTrans (Bar V) (fun a b => a.time < b.time) := ⟨fun _ _ _ => lt_trans⟩
  rw [ordered, decide_eq_true_iff, isChain_iff_pairwise]

section
variable (h : Increasing bars)
include h

theorem Increasing.duplicates : duplicateTimestamps bars = [] :=
  duplicateTimestamps_eq_nil.mpr (StableSort.nodup_of_strict h)

theorem Increasing.missing : (coverageFor query bars source).missingIntervals = [] ↔ Whole query bars := by
  cases bars with
  | nil => simp [coverageFor, Whole]
  | cons => simp [coverageFor, Whole, h.duplicates, ordered_iff.mpr h]

theorem Increasing.missingIntervals (hne : bars ≠ []) :
    (coverageFor query bars source).missingIntervals = Orchestrator.missingIntervals query bars := by
  cases bars with
  | nil => exact absurd rfl hne
  | cons => simp [coverageFor, h.duplicates, ordered_iff.mpr h]

theorem Increasing.duplicateTimestamps : (coverageFor query bars source).duplicateTimestamps = [] := by
  cases bars with
  | nil => rfl
  | cons => exact h.duplicates

theorem Increasing.valid (hwhole : Whole query bars) : (coverageFor query bars source).status = .valid := by
  cases bars with
  | nil => exact absurd rfl hwhole.1
  | cons => simp [coverageFor, h.duplicates, ordered_iff.mpr h, hwhole.2]

end

theorem increasing_iff : Increasing bars ↔
    (coverageFor query bars source).duplicateTimestamps = [] ∧ (coverageFor query bars source).status ≠ .unordered := by
  constructor
  · intro h
    refine ⟨h.duplicateTimestamps,?_⟩
    cases bars with
    | nil => simp [coverageFor]
    | cons first rest =>
      have hstatus : (coverageFor query (first :: rest) source).status =
          if Orchestrator.missingIntervals query (first :: rest) ≠ [] then .gap else .valid := by
        simp [coverageFor, h.duplicates, ordered_iff.mpr h]
      rw [hstatus]
      split
      · decide
      · decide
  · rintro ⟨hduplicates,hstatus⟩
    cases bars with
    | nil => exact .nil
    | cons first rest =>
      rw [← ordered_iff]
      by_contra hne
      simp only [Bool.not_eq_true] at hne
      refine hstatus ?_
      have hnone : Orchestrator.duplicateTimestamps (first :: rest) = [] := hduplicates
      simp [coverageFor, hnone, hne]

theorem any_open : bars.any (fun bar => bar.closed = false) = true ↔ ¬Closed bars := by simp [Closed]

/-- A series is valid if it increases, is closed and has no gap that is not allowed. -/
theorem validate_ok_iff {series : BarSeries V} {allowGaps : Option Bool} :
    (∃ report, validate series allowGaps = .ok report) ↔
    Increasing series.bars ∧ Closed series.bars ∧
      (allowGaps.getD (series.query.gapPolicy = .allowWithMetadata) = false → Whole series.query series.bars) := by
  simp only [validate, Python.throw_ite_eq_ok, Python.pure_eq_ok, any_open, not_not, ne_eq]
  constructor
  · rintro ⟨report,hduplicates,hordered,hclosed,hgaps,-⟩
    have hincreasing := increasing_iff.mpr ⟨hduplicates,hordered⟩
    refine ⟨hincreasing,hclosed,fun hstrict => ?_⟩
    by_contra hwhole
    exact hgaps ⟨mt hincreasing.missing.mp hwhole,hstrict⟩
  · rintro ⟨hincreasing,hclosed,hwhole⟩
    obtain ⟨hduplicates,hordered⟩ := increasing_iff.mp hincreasing
    exact ⟨_,hduplicates,hordered,hclosed,fun h => h.1 (hincreasing.missing.mpr (hwhole h.2)),rfl⟩

/-! ### Slots -/

theorem mem_slots {t : ℤ} : t ∈ slots query duration ↔ query.startMs ≤ t ∧ t < query.endMs ∧
    (duration : ℤ) ∣ t - query.startMs :=
  mem_progression (by exact_mod_cast duration.pos)

theorem missingIntervals_eq_nil (hduration : query.timeframe.durationMs = some duration) :
    missingIntervals query bars = [] ↔ ∀ t ∈ slots query duration, t ∈ bars.map (·.time) := by
  simp [missingIntervals, hduration, filter_eq_nil_iff]

def window (query : BarQuery) (bars : List (Bar V)) : List (Bar V) :=
  bars.filter fun bar => Within (query.startMs, query.endMs) bar.time

theorem mem_window : bar ∈ window query bars ↔ bar ∈ bars ∧ query.startMs ≤ bar.time ∧ bar.time < query.endMs := by
  rw [window, mem_filter, decide_eq_true_iff]
  rfl

theorem Increasing.window (h : Increasing bars) : Increasing (window query bars) := h.sublist filter_sublist

theorem whole_window (hduration : query.timeframe.durationMs = some duration) (hwindow : query.startMs < query.endMs)
    (hall : ∀ t ∈ slots query duration, t ∈ bars.map (·.time)) : Whole query (window query bars) := by
  have hcover : ∀ t ∈ slots query duration, t ∈ (Orchestrator.window query bars).map (·.time) := by
    intro t ht
    obtain ⟨hstart,hend,-⟩ := mem_slots.mp ht
    obtain ⟨bar,hbar,rfl⟩ := mem_map.mp (hall t ht)
    exact mem_map_of_mem (mem_window.mpr ⟨hbar,hstart,hend⟩)
  refine ⟨?_,(missingIntervals_eq_nil hduration).mpr hcover⟩
  obtain ⟨bar,hbar,-⟩ := mem_map.mp (hcover query.startMs (mem_slots.mpr ⟨le_refl _,hwindow,by simp⟩))
  exact ne_nil_of_mem hbar

theorem times_eq_slots_iff (hduration : query.timeframe.durationMs = some duration) (h : Increasing bars) :
    bars.map (·.time) = slots query duration ↔ OnSlots query duration bars ∧ missingIntervals query bars = [] := by
  rw [missingIntervals_eq_nil hduration]
  constructor
  · intro heq
    refine ⟨fun bar hbar => heq ▸ mem_map_of_mem hbar,fun t ht => heq ▸ ht⟩
  · rintro ⟨hon,hcover⟩
    have hsorted : (bars.map (·.time)).Pairwise (id · < id ·) := pairwise_map.mpr h
    have hslots : (slots query duration).Pairwise (id · < id ·) := progression_pairwise (by exact_mod_cast duration.pos)
    refine StableSort.strict_ext hsorted hslots fun t => ⟨fun ht => ?_,hcover t⟩
    obtain ⟨bar,hbar,rfl⟩ := mem_map.mp ht
    exact hon bar hbar

/-! ### Merging -/

section Merge
variable (storage provider : BarSeries V)

theorem mergeSeries_increasing : Increasing (mergeSeries query storage provider).bars :=
  StableSort.insertionSort_strict (Python.Dict.indexes_index Bar.time _).values_nodup

theorem mem_of_mem_mergeSeries (h : bar ∈ (mergeSeries query storage provider).bars) :
    bar ∈ storage.bars ∨ bar ∈ provider.bars :=
  mem_append.mp ((Python.Dict.indexes_index Bar.time _).mem_of_mem_values ((mem_insertionSort _).mp h))

theorem time_mem_mergeSeries (h : bar ∈ storage.bars ∨ bar ∈ provider.bars) :
    ∃ merged ∈ (mergeSeries query storage provider).bars, merged.time = bar.time := by
  have htime := (Python.Dict.indexes_index Bar.time _).key_mem_values (mem_append.mpr h)
  obtain ⟨merged,hmerged,heq⟩ := mem_map.mp htime
  exact ⟨merged,(mem_insertionSort _).mpr hmerged,heq⟩

end Merge
end OpenPine.Orchestrator
