import OpenPine.Foundation.Runs
import OpenPine.Orchestrator.AutoLoad

/-! # When the cache is transparent

A market whose bars never change, of which the store and the provider hold parts that
grow. The cache keeps what a load returned under the key of its query. An entry that
has a bar on every slot stays right for ever, and one that does not is served after the
missing bars have come.
-/
namespace OpenPine.Orchestrator
open Hoare Intervals Runs List
variable {V : Type}

/-! ### A growing market -/

structure Name where
  (exchange market symbol timeframe : String)
deriving DecidableEq

def Key.name (key : Key) : Name := ⟨key.exchange,key.market,key.symbol,key.timeframe⟩

/-- All bars that there will ever be, one for a time, on the grid of their timeframe. -/
structure Market (V : Type) where
  timeframe : String → Timeframe
  bars : Name → List (Bar V)
  increasing : ∀ name, Increasing (bars name)
  grid : ∀ name duration, (timeframe name.timeframe).durationMs = some duration →
    ∀ bar ∈ bars name, (duration : ℤ) ∣ bar.time

abbrev Content (V : Type) := Name → Bar V → Bool

def held (market : Market V) (content : Content V) (query : BarQuery) : List (Bar V) :=
  (market.bars (queryKey query).name).filter (content (queryKey query).name)

structure World (V : Type) where
  session : Session V
  store : Content V
  provider : Option (Content V)

structure Load (V : Type) where
  newlyStored : Content V
  newlyProvided : Option (Content V)
  outside : Outside V
  query : BarQuery

def Content.with (content more : Content V) : Content V := fun name bar => content name bar || more name bar

def grown (content more : Option (Content V)) : Option (Content V) :=
  match content, more with
  | none, more => more
  | some content, none => some content
  | some content, some more => some (content.with more)

def World.grow (world : World V) (load : Load V) : World V :=
  { world with store := world.store.with load.newlyStored, provider := grown world.provider load.newlyProvided }

def World.step (library : Library V) (world : World V) (load : Load V) : World V :=
  { world.grow load with session := ((loadBars library load.outside true load.query).run.run world.session).2 }

/-- The store and the provider answer with what they hold, in whatever form, and the store
takes what is written. -/
structure Honest (library : Library V) (market : Market V) (world : World V) (outside : Outside V) : Prop where
  read : ∀ query, ∃ source snapshot,
    readSeries library outside query = .ok (served query (held market world.store query) source snapshot)
  fetch : ∀ content, world.provider = some content → ∀ query, ∃ source snapshot,
    Delivers library outside query (served query (held market content query) source snapshot)
  absent : world.provider = none → outside.provider = none
  write : ∀ series, writeSeries outside series = .ok ()

def outcome (result : Except Raised (LoadedBarSeries V) × Session V) : Except Raised (List (Bar V)) :=
  result.1.map (·.bars)

def Transparent (library : Library V) (world : World V) (load : Load V) : Prop :=
  outcome ((loadBars library load.outside true load.query).run.run world.session) =
    outcome ((loadBars library load.outside false load.query).run.run world.session)

/-- What the cache has for the query, if anything, has a bar on every slot of its window. -/
def EntryWhole (world : World V) (query : BarQuery) : Prop :=
  ∀ bars, cachedBars world.session.cache (queryKey query) = some bars →
    query.timeframe.durationMs.isSome = true ∧ Whole query bars

/-! ### What an entry is made of -/

/-- Somebody from whom the load of a key takes its bars holds this one. -/
def Holds (world : World V) (key : Key) (bar : Bar V) : Prop :=
  match key.source with
  | .provider => ∃ content, world.provider = some content ∧ content key.name bar = true
  | .auto => world.store key.name bar = true ∨ ∃ content, world.provider = some content ∧ content key.name bar = true
  | _ => False

/-- The bars are closed bars of the market in the window, and are still held. -/
structure Backed (market : Market V) (world : World V) (key : Key) (bars : List (Bar V)) : Prop where
  increasing : Increasing bars
  closed : Closed bars
  listed : ∀ bar ∈ bars, bar ∈ market.bars key.name
  within : ∀ bar ∈ bars, Within (key.startMs, key.endMs) bar.time
  holds : ∀ bar ∈ bars, Holds world key bar

def CacheBacked (market : Market V) (world : World V) : Prop :=
  ∀ key entry bars, world.session.cache.get? key = some entry → entry.data = some bars → Backed market world key bars

variable {library : Library V} {market : Market V} {world : World V} {load : Load V} {query : BarQuery}
  {bars : List (Bar V)} {duration : ℕ+} {s s' : Session V} {outside : Outside V}

variable {bar : Bar V} {content : Content V} {key : Key}

theorem Holds.source (h : Holds world key bar) : key.source = .provider ∨ key.source = .auto := by
  unfold Holds at h
  split at h
  · exact .inl ‹_›
  · exact .inr ‹_›
  · exact h.elim

theorem Holds.grow (h : Holds world key bar) : Holds (world.grow load) key bar := by
  have hprovider : ∀ content, world.provider = some content → content key.name bar = true →
      ∃ content', grown world.provider load.newlyProvided = some content' ∧ content' key.name bar = true := by
    intro content hcontent hbar
    rw [hcontent]
    cases load.newlyProvided with
    | none => exact ⟨content,rfl,hbar⟩
    | some more => exact ⟨content.with more,rfl,by simp [Content.with, hbar]⟩
  unfold Holds at h ⊢
  split at h
  · obtain ⟨content,hcontent,hbar⟩ := h
    exact hprovider content hcontent hbar
  · rcases h with hstore | ⟨content,hcontent,hbar⟩
    · exact .inl (by simp [World.grow, Content.with, hstore])
    · exact .inr (hprovider content hcontent hbar)
  · exact h.elim

theorem CacheBacked.grow (h : CacheBacked market world) : CacheBacked market (world.grow load) := by
  intro key entry bars hentry hdata
  have hbacked := h key entry bars hentry hdata
  exact ⟨hbacked.increasing,hbacked.closed,hbacked.listed,hbacked.within,fun bar hbar => (hbacked.holds bar hbar).grow⟩

theorem cachedBars_eq_some {cache : Cache V} (h : cachedBars cache key = some bars) :
    ∃ entry, cache.get? key = some entry ∧ entry.data = some bars := by
  unfold cachedBars at h
  split at h
  · rename_i hentry
    cases h
    exact ⟨_,hentry,rfl⟩
  · cases h

theorem Backed.market_window (h : Backed market world (queryKey query) bars)
    (hframe : query.timeframe = market.timeframe query.timeframe.canonical)
    (hduration : query.timeframe.durationMs = some duration) (hwhole : Whole query bars) :
    query.startMs < query.endMs ∧ OnSlots query duration bars ∧
      window query (market.bars (queryKey query).name) = bars := by
  obtain ⟨first,hfirst⟩ := exists_mem_of_ne_nil bars hwhole.1
  obtain ⟨hstart,hend⟩ := h.within first hfirst
  have hwindow : query.startMs < query.endMs := lt_of_le_of_lt hstart hend
  have hgrid : ∀ bar ∈ market.bars (queryKey query).name, (duration : ℤ) ∣ bar.time :=
    market.grid _ duration (by rw [← hduration, hframe]; rfl)
  have hcover := (missingIntervals_eq_nil hduration).mp hwhole.2
  -- the window starts with a bar, so its slots are on the grid
  obtain ⟨bar₀,hbar₀,htime⟩ := mem_map.mp (hcover query.startMs (mem_slots.mpr ⟨le_refl _,hwindow,by simp⟩))
  have hslot : ∀ bar ∈ window query (market.bars (queryKey query).name), bar.time ∈ slots query duration := by
    intro bar hbar
    obtain ⟨hmem,hle,hlt⟩ := mem_window.mp hbar
    refine mem_slots.mpr ⟨hle,hlt,dvd_sub (hgrid bar hmem) ?_⟩
    rw [← htime]
    exact hgrid bar₀ (h.listed bar₀ hbar₀)
  have hsub : ∀ bar ∈ bars, bar ∈ window query (market.bars (queryKey query).name) :=
    fun bar hbar => mem_window.mpr ⟨h.listed bar hbar,h.within bar hbar⟩
  refine ⟨hwindow,fun bar hbar => hslot bar (hsub bar hbar),?_⟩
  have hincreasing : Increasing (window query (market.bars (queryKey query).name)) := (market.increasing _).window
  refine StableSort.strict_ext hincreasing h.increasing fun bar => ⟨fun hbar => ?_,hsub bar⟩
  obtain ⟨bar',hbar',heq⟩ := mem_map.mp (hcover bar.time (hslot bar hbar))
  rwa [← StableSort.strict_inj hincreasing (hsub bar' hbar') hbar heq]

/-! ### A load with an entry -/

theorem loadCache_hit (hlaw : library.Lawful) (hreread : ∀ bar ∈ bars, library.reread bar.values = bar.values)
    (hentry : cachedBars s.cache (queryKey query) = some bars) (hincreasing : Increasing bars) (hclosed : Closed bars)
    (hwhole : Whole query bars) :
    ∃ series, (loadCache library true query).run.run s = (.ok (some series), s) ∧ series.bars = bars := by
  have hrows : bars.map (rereadBar library) = bars := by
    refine (map_congr_left fun bar hbar => ?_).trans bars.map_id
    rw [rereadBar, hreread bar hbar]
    rfl
  have hfound : loadBarSeries library s.cache query =
      .ok (some { query, bars, coverage := coverageFor query bars "persistent_cache" }) := by
    unfold loadBarSeries
    rw [hentry]
    split
    · cases ‹_›
    · rename_i heq
      cases heq
      exact absurd rfl hwhole.1
    · rename_i heq
      cases heq
      rw [hrows]
      rfl
  let series : LoadedBarSeries V :=
    { query, bars, coverage := coverageFor query bars "persistent_cache", snapshot := none }
  obtain ⟨report,hvalid⟩ : ∃ report, validateFor query series = .ok report :=
    validateFor_ok_iff.mpr ⟨hincreasing,hclosed,fun _ => hwhole⟩
  have hcomplete : requireIfFail library query series "persistent_cache" = .ok series :=
    requireIfFail_eq_ok.mpr ⟨rfl,fun _ => hlaw.complete hincreasing hwhole⟩
  refine ⟨series,?_,rfl⟩
  refine run_read_lift_eq_ok.mpr ⟨_,hfound,?_⟩
  refine run_bind_eq_ok.mpr ⟨report,s,run_lift_eq_ok.mpr ⟨hvalid,rfl⟩,?_⟩
  exact run_bind_eq_ok.mpr ⟨series,s,run_lift_eq_ok.mpr ⟨hcomplete,rfl⟩,rfl⟩

theorem loadCache_miss (hentry : cachedBars s.cache (queryKey query) = none) :
    (loadCache library true query).run.run s = (.ok none, s) := by
  refine run_read_lift_eq_ok.mpr ⟨none,?_,rfl⟩
  rw [loadBarSeries, hentry]
  rfl

theorem mem_held : bar ∈ held market content query ↔
    bar ∈ market.bars (queryKey query).name ∧ content (queryKey query).name bar = true := mem_filter

theorem held_increasing : Increasing (held market content query) := (market.increasing _).sublist filter_sublist

theorem holds_provider (hsource : query.source = .provider) : Holds world (queryKey query) bar ↔
    ∃ content, world.provider = some content ∧ content (queryKey query).name bar = true := by
  unfold Holds
  rw [show (queryKey query).source = .provider from hsource]

theorem holds_auto (hsource : query.source = .auto) : Holds world (queryKey query) bar ↔
    world.store (queryKey query).name bar = true ∨
      ∃ content, world.provider = some content ∧ content (queryKey query).name bar = true := by
  unfold Holds
  rw [show (queryKey query).source = .auto from hsource]

section Hit
variable (hlaw : library.Lawful) (hhonest : Honest library market world outside)
  (hbacked : Backed market world (queryKey query) bars)
  (hframe : query.timeframe = market.timeframe query.timeframe.canonical)
  (hduration : query.timeframe.durationMs = some duration) (hwhole : Whole query bars)
include hlaw hhonest hbacked hframe hduration hwhole

theorem provider_again (hsource : query.source = .provider) (s : Session V) :
    ∃ series s', (loadFresh library outside query).run.run s = (.ok series, s') ∧ series.bars = bars := by
  obtain ⟨-,-,hmarket⟩ := hbacked.market_window hframe hduration hwhole
  have hholds := fun bar hbar => (holds_provider hsource).mp (hbacked.holds bar hbar)
  obtain ⟨first,hfirst⟩ := exists_mem_of_ne_nil bars hwhole.1
  obtain ⟨content,hcontent,-⟩ := hholds first hfirst
  have hbars : window query (held market content query) = bars := by
    refine StableSort.strict_ext held_increasing.window hbacked.increasing fun bar => ⟨fun hbar => ?_,fun hbar => ?_⟩
    · rw [← hmarket]
      obtain ⟨hmem,hwithin⟩ := mem_window.mp hbar
      exact mem_window.mpr ⟨(mem_held.mp hmem).1,hwithin⟩
    · obtain ⟨content',hcontent',hheld⟩ := hholds bar hbar
      cases hcontent.symm.trans hcontent'
      exact mem_window.mpr ⟨mem_held.mpr ⟨hbacked.listed bar hbar,hheld⟩,hbacked.within bar hbar⟩
  obtain ⟨source,snapshot,hdelivers⟩ := hhonest.fetch content hcontent query
  have hseries : (served query (held market content query) source snapshot).bars = bars := hbars
  refine ⟨served query (held market content query) source snapshot,
    { s with fetched := s.fetched ++ [query] },?_,hseries⟩
  rw [loadFresh, hsource]
  refine run_bind_eq_ok.mpr ⟨_,_,loadProvider_eq_ok.mpr ⟨hdelivers,?_,?_,fun _ => ?_,rfl⟩,run_lift_eq_ok.mpr ⟨?_,rfl⟩⟩
  · exact hseries ▸ hbacked.increasing
  · exact hseries ▸ hbacked.closed
  · exact hseries ▸ hwhole
  · refine requireIfFail_eq_ok.mpr ⟨rfl,fun _ => hlaw.complete held_increasing.window ?_⟩
    exact hbars ▸ hwhole

/-- A second load finds what the first has stored. -/
theorem auto_again (hsource : query.source = .auto) (s : Session V) :
    ∃ series s', (loadFresh library outside query).run.run s = (.ok series, s') ∧ series.bars = bars := by
  obtain ⟨hwindow,honSlots,hmarket⟩ := hbacked.market_window hframe hduration hwhole
  have hholds : ∀ bar ∈ bars, bar ∈ held market world.store query ∨
      ∃ content, world.provider = some content ∧ bar ∈ held market content query := by
    intro bar hbar
    have hlisted := hbacked.listed bar hbar
    exact ((holds_auto hsource).mp (hbacked.holds bar hbar)).imp (fun hstore => mem_held.mpr ⟨hlisted,hstore⟩)
      fun ⟨content,hcontent,hheld⟩ => ⟨content,hcontent,mem_held.mpr ⟨hlisted,hheld⟩⟩
  have hcover := (missingIntervals_eq_nil hduration).mp hwhole.2
  let provided := (world.provider.map fun content => held market content query).getD []
  have hparts : Parts query duration (market.bars (queryKey query).name) (held market world.store query) provided := by
    refine ⟨hduration,market.increasing _,hmarket ▸ hbacked.closed,hmarket ▸ honSlots,filter_sublist,?_,fun t ht => ?_⟩
    · cases hprovider : world.provider with
      | none => simp [provided, hprovider]
      | some content =>
        have hprovided : provided = held market content query := by simp [provided, hprovider]
        rw [hprovided]
        exact filter_sublist
    · obtain ⟨bar,hbar,rfl⟩ := mem_map.mp (hcover t ht)
      refine ⟨bar,rfl,(hholds bar hbar).imp_right ?_⟩
      rintro ⟨content,hcontent,hheld⟩
      simpa [provided, hcontent] using hheld
  have hserving : Serving library outside query duration (held market world.store query) provided := by
    refine ⟨hhonest.read query,fun hfree interval => ?_,hhonest.write⟩
    -- the bar of a slot that is not stored is held by the provider
    obtain ⟨t,ht,hfree⟩ := hfree
    obtain ⟨bar,hbar,rfl⟩ := mem_map.mp (hcover t ht)
    obtain ⟨content,hcontent,-⟩ := (hholds bar hbar).resolve_left fun hstored => hfree (mem_map_of_mem hstored)
    obtain ⟨source,snapshot,hdelivers⟩ := hhonest.fetch content hcontent (missingQuery query interval)
    refine ⟨source,snapshot,?_⟩
    have hprovided : provided = held market content (missingQuery query interval) := by
      simp only [provided, hcontent]
      rfl
    rw [hprovided]
    exact hdelivers
  obtain ⟨series,s',hload,-,hbars,-⟩ := hparts.loadAuto_ok hwindow hlaw hserving s
  refine ⟨series,s',?_,hbars.trans hmarket⟩
  rw [loadFresh, hsource]
  exact hload

theorem fresh_again (s : Session V) :
    ∃ series s', (loadFresh library outside query).run.run s = (.ok series, s') ∧ series.bars = bars := by
  obtain ⟨first,hfirst⟩ := exists_mem_of_ne_nil bars hwhole.1
  rcases (hbacked.holds first hfirst).source with hsource | hsource
  · exact provider_again hlaw hhonest hbacked hframe hduration hwhole hsource s
  · exact auto_again hlaw hhonest hbacked hframe hduration hwhole hsource s

end Hit
/-! ### A load without an entry -/

theorem missing_within : ∀ i ∈ coalesce (coverageFor query bars source).missingIntervals,
    query.startMs ≤ i.1 ∧ i.2 ≤ query.endMs := by
  refine coalesce_forall (fun i j hi hj _ => ⟨hi.1,max_le hi.2 hj.2⟩) ?_
  cases bars with
  | nil =>
    intro i hi
    cases mem_singleton.mp hi
    exact ⟨le_refl _,le_refl _⟩
  | cons =>
    intro i hi
    simp only [coverageFor] at hi
    split at hi
    · unfold missingIntervals at hi
      split at hi
      · exact absurd hi not_mem_nil
      · obtain ⟨start,hstart,rfl⟩ := mem_map.mp hi
        exact ⟨(mem_slots.mp (mem_filter.mp hstart).1).1,min_le_right _ _⟩
    · exact absurd hi not_mem_nil

structure Backs (market : Market V) (world : World V) (key : Key) (bar : Bar V) : Prop where
  listed : bar ∈ market.bars key.name
  within : Within (key.startMs, key.endMs) bar.time
  holds : Holds world key bar

theorem Backed.of_each (hincreasing : Increasing bars) (hclosed : Closed bars)
    (h : ∀ bar ∈ bars, Backs market world key bar) : Backed market world key bars :=
  ⟨hincreasing,hclosed,fun bar hbar => (h bar hbar).listed,fun bar hbar => (h bar hbar).within,
    fun bar hbar => (h bar hbar).holds⟩

theorem Backs.of_window (hbar : bar ∈ window query (held market content query))
    (hholds : content (queryKey query).name bar = true → Holds world (queryKey query) bar) :
    Backs market world (queryKey query) bar := by
  obtain ⟨hmem,hwithin⟩ := mem_window.mp hbar
  obtain ⟨hlisted,hheld⟩ := mem_held.mp hmem
  exact ⟨hlisted,hwithin,hholds hheld⟩

section Miss
variable (hhonest : Honest library market world outside) {series : LoadedBarSeries V}
include hhonest

theorem Honest.delivers (h : Delivers library outside query series) : ∃ content source snapshot,
    world.provider = some content ∧ series = served query (held market content query) source snapshot := by
  cases hprovider : world.provider with
  | none =>
    obtain ⟨provider,hsome,-⟩ := h
    cases (hhonest.absent hprovider).symm.trans hsome
  | some content =>
    obtain ⟨source,snapshot,hdelivers⟩ := hhonest.fetch content hprovider query
    exact ⟨content,source,snapshot,rfl,h.unique hdelivers⟩

theorem provider_backed (hsource : query.source = .provider)
    (h : (loadFresh library outside query).run.run s = (.ok series, s')) :
    series.query = query ∧ Backed market world (queryKey query) series.bars ∧ s'.cache = s.cache := by
  rw [loadFresh, hsource] at h
  obtain ⟨_,_,hprovider,h⟩ := run_bind_eq_ok.mp h
  obtain ⟨hpassed,rfl⟩ := run_lift_eq_ok.mp h
  obtain ⟨rfl,-⟩ := requireIfFail_eq_ok.mp hpassed
  obtain ⟨hdelivers,hincreasing,hclosed,-,rfl⟩ := loadProvider_eq_ok.mp hprovider
  obtain ⟨content,source,snapshot,hcontent,rfl⟩ := hhonest.delivers hdelivers
  refine ⟨rfl,.of_each hincreasing hclosed fun bar hbar => ?_,rfl⟩
  exact .of_window hbar fun hheld => (holds_provider hsource).mpr ⟨content,hcontent,hheld⟩

theorem Filled.backs (hsource : query.source = .auto) {source : String} {snapshot : Option (Snapshot V)}
    {found : List (LoadedBarSeries V)} (h : Filled library outside query (served query bars source snapshot) found)
    (hseries : series ∈ found) : ∀ bar ∈ series.bars, Backs market world (queryKey query) bar := by
  intro bar hbar
  obtain ⟨i,hi,hinterval⟩ := Pointwise.exists_left h.fetched series hseries
  obtain ⟨content,source',snapshot',hcontent,rfl⟩ := hhonest.delivers hinterval.delivers
  obtain ⟨hmem,hle,hlt⟩ := mem_window.mp hbar
  obtain ⟨hlisted,hheld⟩ := mem_held.mp hmem
  obtain ⟨hstart,hend⟩ := missing_within i hi
  exact ⟨hlisted,⟨le_trans hstart hle,lt_of_lt_of_le hlt hend⟩,(holds_auto hsource).mpr (.inr ⟨content,hcontent,hheld⟩)⟩

theorem auto_backed (hsource : query.source = .auto)
    (h : (loadFresh library outside query).run.run s = (.ok series, s')) :
    series.query = query ∧ Backed market world (queryKey query) series.bars ∧ s'.cache = s.cache := by
  rw [loadFresh, hsource] at h
  obtain ⟨storage,hread,hincreasing,hclosed,h⟩ := loadAuto_eq_ok.mp h
  obtain ⟨source,snapshot,hserved⟩ := hhonest.read query
  cases hread.symm.trans hserved
  have hstored : ∀ bar ∈ window query (held market world.store query), Backs market world (queryKey query) bar :=
    fun bar hbar => .of_window hbar fun hheld => (holds_auto hsource).mpr (.inl hheld)
  split at h
  · obtain ⟨rfl,rfl⟩ := h
    exact ⟨rfl,.of_each hincreasing hclosed hstored,rfl⟩
  · obtain ⟨found,hfilled,rfl,rfl⟩ := h
    refine ⟨rfl,.of_each (mergeSeries_increasing _ _) (hfilled.closed hclosed) ?_,rfl⟩
    exact forall_merged hstored fun _ hseries => hfilled.backs hhonest hsource hseries

theorem fresh_backed (hsource : query.source ≠ .storage)
    (h : (loadFresh library outside query).run.run s = (.ok series, s')) :
    series.query = query ∧ Backed market world (queryKey query) series.bars ∧ s'.cache = s.cache := by
  cases hquery : query.source with
  | provider => exact provider_backed hhonest hquery h
  | auto => exact auto_backed hhonest hquery h
  | storage => exact absurd hquery hsource
  | other =>
    rw [loadFresh, hquery] at h
    cases h

end Miss
/-! ### The cache through a load -/

section Keep
variable (library : Library V) (outside : Outside V) (query : BarQuery) {P : Cache V → Prop}

theorem loadProvider_keeps : Keeps (fun s : Session V => P s.cache) (loadProvider library outside query) := by
  unfold loadProvider
  split
  · exact .raise _
  · exact .bind (.change fun _ h => h) fun _ => .bind (.lift _) fun _ => .bind (.lift _) fun _ => .ret _

theorem loadIntervals_keeps (intervals : List (ℤ × ℤ)) :
    Keeps (fun s : Session V => P s.cache) (loadIntervals library outside query intervals) := by
  induction intervals with
  | nil => exact .ret _
  | cons _ _ ih =>
    refine .bind (loadProvider_keeps library outside _) fun _ => .bind (.lift _) fun _ => .bind (.lift _) fun _ => ?_
    exact .bind ih fun _ => .ret _

theorem loadStorage_keeps (complete : Bool) : Keeps (fun s : Session V => P s.cache)
    (loadStorage library outside query complete) :=
  .bind (.lift _) fun _ => .bind (.lift _) fun _ => .lift _

theorem loadAuto_keeps : Keeps (fun s : Session V => P s.cache) (loadAuto library outside query) := by
  refine .bind (loadStorage_keeps library outside query false) fun storage => ?_
  split
  · exact .ret _
  · refine .bind (.bind (loadIntervals_keeps library outside query _) fun _ => .ret _) fun _ => ?_
    exact .bind (.when (.bind (.lift _) fun _ => .bind (.change fun _ h => h) fun _ => .lift _)) fun _ => .lift _

theorem loadFresh_keeps : Keeps (fun s : Session V => P s.cache) (loadFresh library outside query) := by
  unfold loadFresh
  split
  · exact .bind (loadProvider_keeps library outside query) fun _ => .lift _
  · exact loadAuto_keeps library outside query
  · exact .raise _

end Keep

def Session.saved (s : Session V) (outside : Outside V) (series : LoadedBarSeries V) : Session V :=
  if series.snapshot = none then { s with cache := saveBarSeries outside.saving s.cache series.toBarSeries } else s

theorem loadBars_storage (hsource : query.source = .storage) (enabled : Bool) : loadBars library outside enabled query =
    loadStorage library outside query (query.gapPolicy = .fail) := if_pos hsource

theorem loadBars_miss (hsource : query.source ≠ .storage) (hentry : cachedBars s.cache (queryKey query) = none) :
    (loadBars library outside true query).run.run s = match (loadFresh library outside query).run.run s with
      | (.ok series, s') => (.ok series, s'.saved outside series)
      | (.error e, s') => (.error e, s') := by
  unfold loadBars
  rw [if_neg hsource, run_bind_ok (loadCache_miss hentry)]
  rcases hfresh : (loadFresh library outside query).run.run s with ⟨e | series,s'⟩
  · exact run_bind_error hfresh
  · rw [run_bind_ok hfresh]
    have hsave : (saveCache outside true series).run.run s' = (.ok (), s'.saved outside series) := by
      unfold saveCache Session.saved
      by_cases hplain : series.snapshot = none
      · rw [when, if_pos ⟨rfl,hplain⟩, if_pos hplain]
        rfl
      · rw [when, if_neg fun h => hplain h.2, if_neg hplain]
        rfl
    rw [run_bind_ok hsave]
    rfl

theorem loadBars_off (hsource : query.source ≠ .storage) :
    outcome ((loadBars library outside false query).run.run s) =
      outcome ((loadFresh library outside query).run.run s) := by
  have hnone : (loadCache library false query).run.run s = (.ok none, s) := rfl
  unfold loadBars
  rw [if_neg hsource, run_bind_ok hnone]
  rcases hfresh : (loadFresh library outside query).run.run s with ⟨e | series,s'⟩
  · exact congrArg outcome (run_bind_error hfresh)
  · rw [run_bind_ok hfresh]
    rfl

theorem Backed.session (h : Backed market world key bars) (s : Session V) :
    Backed market { world with session := s } key bars :=
  ⟨h.increasing,h.closed,h.listed,h.within,h.holds⟩

section
variable (hbacked : CacheBacked market world) (hcache : s.cache = world.session.cache)
include hbacked hcache

theorem CacheBacked.same : CacheBacked market { world with session := s } := by
  intro key entry bars hentry hdata
  exact (hbacked key entry bars (hcache ▸ hentry) hdata).session s

theorem backed_saved {series : LoadedBarSeries V} (h : Backed market world (queryKey series.query) series.bars) :
    CacheBacked market { world with session := s.saved outside series } := by
  intro key entry bars hentry hdata
  refine Backed.session ?_ _
  have hold : s.cache.get? key = some entry → Backed market world key bars :=
    fun hget => hbacked key entry bars (hcache ▸ hget) hdata
  have hput : ∀ described, (Python.Dict.put s.cache (queryKey series.query) ⟨described,some series.bars⟩).get? key =
    some entry →
      Backed market world key bars := by
    intro described hget
    rw [Python.Dict.get?_put] at hget
    split at hget
    · rename_i heq
      cases hget
      cases hdata
      rw [← heq]
      exact h
    · exact hold hget
  simp only [Session.saved] at hentry
  split at hentry
  · simp only [saveBarSeries] at hentry
    split at hentry
    · exact hold hentry
    · exact hput _ hentry
    · exact hput _ hentry
  · exact hold hentry

end

/-! ### Runs -/

/-- What is asked of a load: the answers are those of the market, the timeframe is one of
its timeframes, and the entry for the query, if there is one, is whole. -/
structure Admissible (library : Library V) (market : Market V) (world : World V) (load : Load V) : Prop where
  honest : Honest library market (world.grow load) load.outside
  timeframe : load.query.timeframe = market.timeframe load.query.timeframe.canonical
  entry : EntryWhole world load.query

section Step
variable (hlaw : library.Lawful) (hreread : ∀ name, ∀ bar ∈ market.bars name, library.reread bar.values = bar.values)
  (hbacked : CacheBacked market world) (hload : Admissible library market world load)
include hlaw hreread hbacked hload

theorem hit {bars : List (Bar V)} (hsource : load.query.source ≠ .storage)
    (hentry : cachedBars world.session.cache (queryKey load.query) = some bars) :
    ∃ series, (loadBars library load.outside true load.query).run.run world.session = (.ok series, world.session) ∧
      series.bars = bars := by
  obtain ⟨entry,hget,hdata⟩ := cachedBars_eq_some hentry
  have hentry' := hbacked _ entry bars hget hdata
  obtain ⟨series,hcached,hbars⟩ := loadCache_hit hlaw (fun bar hbar => hreread _ bar (hentry'.listed bar hbar)) hentry
    hentry'.increasing hentry'.closed (hload.entry bars hentry).2
  refine ⟨series,?_,hbars⟩
  unfold loadBars
  rw [if_neg hsource, run_bind_ok hcached]
  rfl

theorem transparent_of_admissible : Transparent library world load := by
  unfold Transparent
  by_cases hsource : load.query.source = .storage
  · rw [loadBars_storage hsource, loadBars_storage hsource]
  · rw [loadBars_off hsource]
    cases hentry : cachedBars world.session.cache (queryKey load.query) with
    | none =>
      rw [loadBars_miss hsource hentry]
      rcases (loadFresh library load.outside load.query).run.run world.session with ⟨e | series,s'⟩
      · rfl
      · rfl
    | some bars =>
      obtain ⟨series,hrun,hbars⟩ := hit hlaw hreread hbacked hload hsource hentry
      obtain ⟨hfixed,hwhole⟩ := hload.entry bars hentry
      obtain ⟨duration,hduration⟩ := Option.isSome_iff_exists.mp hfixed
      obtain ⟨entry,hget,hdata⟩ := cachedBars_eq_some hentry
      obtain ⟨series',s',hrun',hbars'⟩ := fresh_again hlaw hload.honest (hbacked.grow _ entry bars hget hdata)
        hload.timeframe hduration hwhole world.session
      rw [hrun, hrun']
      exact congrArg Except.ok (hbars.trans hbars'.symm)

/-- A load keeps the cache backed by the market. -/
theorem backed_step : CacheBacked market (world.step library load) := by
  have hgrown : CacheBacked market (world.grow load) := hbacked.grow
  unfold World.step
  by_cases hsource : load.query.source = .storage
  · have hkeeps : Keeps (fun s : Session V => s.cache = world.session.cache)
        (loadStorage library load.outside load.query (load.query.gapPolicy = .fail)) :=
      loadStorage_keeps (P := fun cache => cache = world.session.cache) _ _ _ _
    rw [loadBars_storage hsource]
    exact hgrown.same (hkeeps.run rfl)
  · cases hentry : cachedBars world.session.cache (queryKey load.query) with
    | some =>
      obtain ⟨series,hrun,-⟩ := hit hlaw hreread hbacked hload hsource hentry
      rw [hrun]
      exact hgrown
    | none =>
      rw [loadBars_miss hsource hentry]
      have hkeeps : Keeps (fun s : Session V => s.cache = world.session.cache)
        (loadFresh library load.outside load.query) :=
        loadFresh_keeps (P := fun cache => cache = world.session.cache) _ _ _
      have hcache := hkeeps.run (s := world.session) rfl
      rcases hfresh : (loadFresh library load.outside load.query).run.run world.session with ⟨e | series,s'⟩
      · rw [hfresh] at hcache
        exact hgrown.same hcache
      · obtain ⟨hquery,hseries,hcache⟩ := fresh_backed hload.honest hsource hfresh
        refine backed_saved hgrown hcache ?_
        rw [hquery]
        exact hseries

end Step

/-- In every run of loads from an empty cache over a market whose bars survive being written
and read back: if the entry that a load finds has a bar on every slot of its window,
each time there is one, then every load returns the same with the cache on and off. -/
theorem loads_transparent (library : Library V) (hlaw : library.Lawful) (market : Market V)
    (hreread : ∀ name, ∀ bar ∈ market.bars name, library.reread bar.values = bar.values)
    (world : World V) (hempty : world.session.cache = .empty) (loads : List (Load V))
    (hloads : EachStep (World.step library) (Admissible library market) world loads) :
    EachStep (World.step library) (Transparent library) world loads := by
  have hstart : CacheBacked market world := by
    intro key entry bars hentry
    rw [hempty] at hentry
    cases hentry
  refine hloads.mono (fun world load hbacked hload => ?_) (fun world load hbacked hload => ?_) hstart
  · exact backed_step hlaw hreread hbacked hload
  · exact transparent_of_admissible hlaw hreread hbacked hload

/-- A market with bars of one minute at the given times in every series. -/
def Market.minutes (times : List ℤ) (hincreasing : Increasing (minuteBars times))
    (hgrid : ∀ bar ∈ minuteBars times, 60000 ∣ bar.time) :
    Market Unit where
  timeframe _ := .minute
  bars _ := minuteBars times
  increasing _ := hincreasing
  grid _ duration hduration bar hbar := by
    cases hduration
    exact hgrid bar hbar

def Load.at (times : List ℤ) (gapPolicy : GapPolicy) : Load Unit where
  newlyStored _ _ := false
  newlyProvided := some fun _ bar => bar.time ∈ times
  outside := .holding [] times
  query := minuteQuery .provider gapPolicy 0 120000

def World.start : World Unit := ⟨.start,fun _ _ => false,none⟩

/-- The first load returns the one bar that is there. After the second bar has come, the
load returns it with the cache off and not with the cache on. -/
theorem partial_entry_served :
    let world := World.step .plain .start (.at [0] .allowWithMetadata)
    let load := Load.at [0, 60000] .allowWithMetadata
    outcome ((loadBars .plain load.outside true load.query).run.run world.session) = .ok (minuteBars [0]) ∧
    outcome ((loadBars .plain load.outside false load.query).run.run world.session) = .ok (minuteBars [0, 60000]) ∧
    ¬Transparent .plain world load := by
  refine ⟨by rfl,by rfl,fun h => ?_⟩
  have htimes := congrArg (fun result => result.map fun bars => bars.length) h
  exact absurd htimes (by decide)

theorem honest_holding {market : Market Unit} {world : World Unit} {content : Content Unit} {times : List ℤ}
    (hstore : ∀ query, held market world.store query = []) (hprovider : world.provider = some content)
    (hcontent : ∀ query, held market content query = minuteBars times) :
    Honest .plain market world (.holding [] times) := by
  refine ⟨fun query => ⟨"storage",none,?_⟩,fun content' hcontent' query => ?_,fun hnone => ?_,fun _ => rfl⟩
  · rw [hstore]
    rfl
  · cases hprovider.symm.trans hcontent'
    rw [hcontent]
    exact ⟨"provider",none,_,rfl,rfl⟩
  · cases hprovider.symm.trans hnone

theorem whole_entry_transparent :
    let market := Market.minutes [0, 60000] (by decide) (by decide)
    let loads := [Load.at [0, 60000] .fail, Load.at [0, 60000] .fail]
    EachStep (World.step .plain) (Admissible .plain market) .start loads ∧
    EachStep (World.step .plain) (Transparent .plain) .start loads := by
  have hloads : EachStep (World.step .plain) (Admissible .plain (.minutes [0, 60000] (by decide) (by decide))) .start
      [Load.at [0, 60000] .fail, Load.at [0, 60000] .fail] := by
    refine ⟨⟨honest_holding (fun _ => rfl) rfl fun _ => rfl,rfl,?_⟩,
      ⟨honest_holding (fun _ => rfl) rfl fun _ => rfl,rfl,?_⟩,trivial⟩
    · rintro _ ⟨⟩
    · rintro _ ⟨⟩
      exact ⟨rfl,by decide,by decide⟩
  exact ⟨hloads,loads_transparent .plain Library.plain_lawful _ (fun _ _ _ => rfl) .start rfl _ hloads⟩

end OpenPine.Orchestrator
