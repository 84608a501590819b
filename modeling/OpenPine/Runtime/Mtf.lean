import OpenPine.Foundation.Text
import OpenPine.Orchestrator.BarSeries

/-! # Confirmed bars of other series

`confirmed_mtf_bars_for_requests` as `StrategyJobExecutor` calls it for one chart bar. The executor asks the data source
for the bars that open within the chart bar, and whatever comes back is stamped as confirmed.
-/
namespace OpenPine.Runtime.Mtf
open Python List
open Orchestrator (Bar Timeframe)
open Text (strip)

/-- `parse_timeframe` with the text of its error, and `repr` of a text. -/
structure Library where
  parseTimeframe : String → Except String Timeframe
  repr : String → String

structure MtfSeriesKey where
  (symbol timeframe : String)
deriving DecidableEq

/-- The fields `symbol` and `timeframe` of a request, if it has them. -/
abbrev Request := Option String × Option String

def normalizeRequest (l : Library) (seen : List MtfSeriesKey) (item : Request) : Except String MtfSeriesKey :=
  let symbol := upper (strip (item.1.getD ""))
  let timeframeText := strip (item.2.getD "")
  if symbol = "" then .error "MTF series symbol is required"
  else if timeframeText = "" then .error "MTF series timeframe is required"
  else
    match l.parseTimeframe timeframeText with
    | .error _ => .error ("MTF timeframe " ++ l.repr timeframeText ++ " is invalid")
    | .ok timeframe =>
      if ⟨symbol,timeframe.canonical⟩ ∈ seen then
        .error ("duplicate MTF series: " ++ symbol ++ " " ++ timeframe.canonical)
      else .ok ⟨symbol,timeframe.canonical⟩

def normalizeMtfRequests (l : Library) (requests : List Request) : Except String (List MtfSeriesKey) := do
  let keys ← requests.foldlM (fun seen item => (normalizeRequest l seen item).map (seen ++ [·])) []
  if 16 < keys.length then .error "at most 16 MTF series may be requested" else .ok keys

/-- A confirmed bar is stamped with the key of its series. -/
abbrev Stamped (V : Type) := MtfSeriesKey × Bar V

/-- The chart bar of a job, the strategy's symbol and timeframe, and the bars that the data source holds of each series
of the strategy's market. -/
structure Chart (V : Type) where
  bar : Bar V
  (symbol timeframe : String)
  held : String → Timeframe → List (Bar V)

variable {V : Type} (l : Library) (c : Chart V)

def opensWithin (bar : Bar V) : Bool := c.bar.time ≤ bar.time ∧ bar.time < c.bar.timeClose

def loadMtfProviderBars (key : MtfSeriesKey) : Except String (List (Bar V)) :=
  (l.parseTimeframe key.timeframe).map fun timeframe => (c.held (upper key.symbol) timeframe).filter (opensWithin c)

def confirmedHtfBarsFromProviderBars (bars : List (Bar V)) (key : MtfSeriesKey) : Option (List (Stamped V)) :=
  if bars = [] then none else some (bars.map (key, ·))

def noConfirmedBars (key : MtfSeriesKey) : String :=
  "MTF series " ++ key.symbol ++ " " ++ key.timeframe ++ " has no confirmed bars"

def confirmedSeries (chartKey key : MtfSeriesKey) : Except String (List (Stamped V)) :=
  match if key = chartKey then .ok [c.bar] else loadMtfProviderBars l c key with
  | .error _ => .error ("MTF series " ++ key.symbol ++ " " ++ key.timeframe ++ " could not be loaded")
  | .ok raw =>
    match confirmedHtfBarsFromProviderBars raw key with
    | none => .error (noConfirmedBars key)
    | some confirmed => .ok confirmed

def stampAll (chartKey : MtfSeriesKey) : List MtfSeriesKey → Except String (List (Stamped V))
  | [] => .ok []
  | key :: keys => do
    let confirmed ← confirmedSeries l c chartKey key
    let stamped ← stampAll chartKey keys
    .ok (confirmed ++ stamped)

def confirmedMtfBarsForRequests (requests : List Request) : Except String (List (Stamped V)) := do
  let keys ← normalizeMtfRequests l requests
  let timeframe ← l.parseTimeframe c.timeframe
  stampAll l c ⟨upper (strip c.symbol),timeframe.canonical⟩ keys

/-- The series has a timeframe longer than the chart bar, and all its bars have that length. -/
structure Higher (key : MtfSeriesKey) (series : List (Bar V)) : Prop where
  held : ∃ timeframe, l.parseTimeframe key.timeframe = .ok timeframe ∧ c.held (upper key.symbol) timeframe = series
  longer : ∃ h : ℤ, c.bar.timeClose < c.bar.time + h ∧ ∀ bar ∈ series, bar.timeClose = bar.time + h

def Closed (bar : Bar V) : Prop := bar.timeClose ≤ c.bar.timeClose

def LatestClosed (series : List (Bar V)) (bar : Bar V) : Prop :=
  bar ∈ series ∧ Closed c bar ∧ ∀ bar' ∈ series, Closed c bar' → bar'.timeClose ≤ bar.timeClose

/-- What the runtime gets of a series has no bar that closes later than the chart bar, and has the latest one that does
not, if there is one. The job does not fail for lack of confirmed bars. -/
structure Confirms (result : Except String (List (Stamped V))) (key : MtfSeriesKey) (series : List (Bar V)) : Prop where
  noLookAhead : ∀ stamped, result = .ok stamped → ∀ bar, (key, bar) ∈ stamped → Closed c bar
  latest : (∃ bar ∈ series, Closed c bar) → ∃ stamped, result = .ok stamped ∧
    ∃ bar, LatestClosed c series bar ∧ (key, bar) ∈ stamped
  served : ∀ key', result ≠ .error (noConfirmedBars key')

variable {l c} {chartKey key : MtfSeriesKey} {keys : List MtfSeriesKey} {series : List (Bar V)}

theorem confirmedSeries_of_higher (h : Higher l c key series) (hkey : key ≠ chartKey) :
    confirmedSeries l c chartKey key = if series.filter (opensWithin c) = [] then .error (noConfirmedBars key)
    else .ok ((series.filter (opensWithin c)).map (key, ·)) := by
  obtain ⟨timeframe,hparse,rfl⟩ := h.held
  simp only [confirmedSeries, if_neg hkey, loadMtfProviderBars, hparse, Except.map, confirmedHtfBarsFromProviderBars]
  split <;> rename_i hnone
  · split at hnone
    · rw [if_pos ‹_›]
    · cases hnone
  · split at hnone
    · cases hnone
    · cases hnone
      rw [if_neg ‹_›]

theorem stampAll_mem {stamped : List (Stamped V)} (h : stampAll l c chartKey keys = .ok stamped) (hkey : key ∈ keys) :
    ∃ confirmed, confirmedSeries l c chartKey key = .ok confirmed ∧ confirmed ⊆ stamped := by
  induction keys generalizing stamped with
  | nil => cases hkey
  | cons _ _ ih =>
    obtain ⟨confirmed,hfirst,h⟩ := bind_eq_ok.mp h
    obtain ⟨rest,hrest,h⟩ := bind_eq_ok.mp h
    cases h
    rcases mem_cons.mp hkey with rfl | hkey
    · exact ⟨confirmed,hfirst,subset_append_left _ _⟩
    · obtain ⟨found,hfound,hsub⟩ := ih hrest hkey
      exact ⟨found,hfound,fun bar hbar => mem_append_right _ (hsub hbar)⟩

theorem confirmedSeries_chartKey (l : Library) (c : Chart V) (key : MtfSeriesKey) :
    confirmedSeries l c key key = .ok [(key, c.bar)] := by
  simp [confirmedSeries, confirmedHtfBarsFromProviderBars]

/-- The job fails with the message of the first series that fails. -/
theorem stampAll_error {message : String} (h : stampAll l c chartKey keys = .error message) :
    ∃ key ∈ keys, confirmedSeries l c chartKey key = .error message := by
  induction keys with
  | nil => cases h
  | cons first rest ih =>
    unfold stampAll at h
    cases hfirst : confirmedSeries l c chartKey first with
    | error =>
      rw [hfirst] at h
      cases h
      exact ⟨first,mem_cons_self,hfirst⟩
    | ok =>
      rw [hfirst] at h
      cases hrest : stampAll l c chartKey rest with
      | ok =>
        rw [hrest] at h
        cases h
      | error =>
        rw [hrest] at h
        cases h
        obtain ⟨key,hkey,herror⟩ := ih hrest
        exact ⟨key,mem_cons_of_mem _ hkey,herror⟩

/-- A bar that opens within the chart bar closes after it. -/
theorem Higher.lookAhead (h : Higher l c key series) {bar : Bar V} (hbar : bar ∈ series) (hopens : opensWithin c bar) :
    ¬Closed c bar := by
  obtain ⟨length,hlonger,hclose⟩ := h.longer
  have hopen : c.bar.time ≤ bar.time ∧ bar.time < c.bar.timeClose := of_decide_eq_true hopens
  rw [Closed, hclose bar hbar]
  omega

/-- The series are confirmed as they should be exactly if no higher one is requested: of a higher series the runtime
gets a bar that is still open, or else the job fails. -/
theorem confirmed_bars_iff (requests : List Request) (timeframe : Timeframe)
    (hkeys : normalizeMtfRequests l requests = .ok keys) (hchart : l.parseTimeframe c.timeframe = .ok timeframe)
    (held : MtfSeriesKey → List (Bar V))
    (hhigher : ∀ key ∈ keys, key ≠ ⟨upper (strip c.symbol),timeframe.canonical⟩ → Higher l c key (held key)) :
    (∀ key ∈ keys, key ≠ ⟨upper (strip c.symbol),timeframe.canonical⟩ →
        Confirms c (confirmedMtfBarsForRequests l c requests) key (held key)) ↔
      ∀ key ∈ keys, key = ⟨upper (strip c.symbol),timeframe.canonical⟩ := by
  generalize hchartKey : (⟨upper (strip c.symbol),timeframe.canonical⟩ : MtfSeriesKey) = chartKey at *
  have hresult : confirmedMtfBarsForRequests l c requests = stampAll l c chartKey keys := by
    rw [confirmedMtfBarsForRequests, hkeys, hchart, ← hchartKey]
    rfl
  rw [hresult]
  refine ⟨fun h key hkey => ?_,fun h key hkey hne => absurd (h key hkey) hne⟩
  by_contra hne
  cases hstamped : stampAll l c chartKey keys with
  | ok stamped =>
    obtain ⟨confirmed,hconfirmed,hsub⟩ := stampAll_mem hstamped hkey
    rw [confirmedSeries_of_higher (hhigher key hkey hne) hne] at hconfirmed
    split at hconfirmed
    · cases hconfirmed
    · cases hconfirmed
      obtain ⟨bar,hbar⟩ := exists_mem_of_ne_nil _ ‹_›
      obtain ⟨hmem,hopens⟩ := mem_filter.mp hbar
      exact (hhigher key hkey hne).lookAhead hmem hopens
        ((h key hkey hne).noLookAhead stamped hstamped bar (hsub (mem_map_of_mem hbar)))
  | error =>
    obtain ⟨key',hkey',herror⟩ := stampAll_error hstamped
    by_cases he : key' = chartKey
    · rw [he, confirmedSeries_chartKey] at herror
      cases herror
    · rw [confirmedSeries_of_higher (hhigher key' hkey' he) he] at herror
      split at herror
      · cases herror
        exact (h key hkey hne).served key' hstamped
      · cases herror

def sampleLibrary : Library where
  parseTimeframe text := if text = "1h" then .ok ⟨"1h",some 3600000⟩ else .ok ⟨"5m",some 300000⟩
  repr text := "'" ++ text ++ "'"

def hourly (k : ℤ) : Bar Unit := ⟨3600000 * k,3600000 * k + 3600000,(),true⟩

/-- A chart bar of five minutes, with the hours that the data source holds. -/
def sampleChart (time : ℤ) (hours : List ℤ) : Chart Unit :=
  ⟨⟨time,time + 300000,(),true⟩,"BTC","5m",fun _ _ => hours.map hourly⟩

theorem higher_sample (time : ℤ) (hours : List ℤ) :
    Higher sampleLibrary (sampleChart time hours) ⟨"BTC","1h"⟩ (hours.map hourly) := by
  refine ⟨⟨_,rfl,rfl⟩,3600000,by simp [sampleChart],fun bar hbar => ?_⟩
  obtain ⟨k,-,rfl⟩ := mem_map.mp hbar
  rfl

/-- The chart's own series is its bar, and with the hour requested the job of the second bar of an hour fails. -/
theorem own_series_alone_confirmed :
    confirmedMtfBarsForRequests sampleLibrary (sampleChart 300000 [0]) [(some "BTC", some "5m")] =
        .ok [(⟨"BTC","5m"⟩, (sampleChart 300000 [0]).bar)] ∧
      (∀ key ∈ [⟨"BTC","5m"⟩], key ≠ ⟨"BTC","5m"⟩ → Confirms (sampleChart 300000 [0])
        (confirmedMtfBarsForRequests sampleLibrary (sampleChart 300000 [0]) [(some "BTC", some "5m")]) key [hourly 0]) ∧
      ¬∀ key ∈ [⟨"BTC","1h"⟩], key ≠ ⟨"BTC","5m"⟩ → Confirms (sampleChart 300000 [0])
        (confirmedMtfBarsForRequests sampleLibrary (sampleChart 300000 [0]) [(some "BTC", some "1h")]) key
          [hourly 0] := by
  have hown : normalizeMtfRequests sampleLibrary [(some "BTC", some "5m")] = .ok [⟨"BTC","5m"⟩] := by decide
  have hhour : normalizeMtfRequests sampleLibrary [(some "BTC", some "1h")] = .ok [⟨"BTC","1h"⟩] := by decide
  have hchart : sampleLibrary.parseTimeframe (sampleChart 300000 [0]).timeframe = .ok ⟨"5m",some 300000⟩ := rfl
  refine ⟨by decide,?_,fun h => ?_⟩
  · refine (confirmed_bars_iff (c := sampleChart 300000 [0]) _ _ hown hchart (fun _ => [hourly 0]) ?_).mpr ?_
    · intro key hkey hne
      exact absurd (mem_singleton.mp hkey) hne
    · intro key hkey
      exact mem_singleton.mp hkey
  · have hkey := (confirmed_bars_iff (c := sampleChart 300000 [0]) _ _ hhour hchart (fun _ => [hourly 0]) ?_).mp h _
      mem_cons_self
    · exact absurd hkey (by decide)
    · intro key hkey _
      rw [mem_singleton.mp hkey]
      exact higher_sample 300000 [0]

/-- Caught up later, the first bar of an hour gets that hour, which is still open, and the next bar gets none. -/
theorem open_hour_confirmed : confirmedMtfBarsForRequests sampleLibrary (sampleChart 3600000 [0, 1])
    [(some "BTC", some "1h")] =
        .ok [(⟨"BTC","1h"⟩, hourly 1)] ∧
      ¬Closed (sampleChart 3600000 [0, 1]) (hourly 1) ∧
      confirmedMtfBarsForRequests sampleLibrary (sampleChart 3900000 [0, 1]) [(some "BTC", some "1h")] =
        .error "MTF series BTC 1h has no confirmed bars" ∧ Closed (sampleChart 3900000 [0, 1]) (hourly 0) := by
  refine ⟨by decide,?_,by decide,?_⟩
  · simp [Closed, hourly, sampleChart]
  · simp [Closed, hourly, sampleChart]

end OpenPine.Runtime.Mtf
