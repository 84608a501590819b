import Mathlib.Data.String.Basic
import OpenPine.Foundation.Pointwise
import OpenPine.Orchestrator.TargetBars
import OpenPine.Workers.StrategyJobExecutor

/-! # The fan-out of a closed bar to strategies

`StrategyBarFanout.process_source_bar` stores a closed source bar, groups the enabled
strategies of its market by their timeframes, and goes through the groups in the order of the
timeframes' names. For each group it derives the target bar, stores it, and enqueues a job for
every strategy of the group. An exception in one group ends the loop: the groups that come
later get nothing, and a timeframe that cannot be parsed ends it before the first group.
-/
namespace OpenPine.Workers.Fanout
open Python Hoare OpenPine.Pointwise List
open Orchestrator (CandleStore Instrument Library Ohlcv RawMarket)

abbrev Timeframe := Orchestrator.Timeframe
abbrev Bar := Orchestrator.Bar Ohlcv
abbrev Raised := Orchestrator.Raised

structure StrategyInstance where
  (strategyId artifactId paramsHash exchange marketType symbol priceType timeframe mode : String)
  enabled : Bool
  mtfSeries : List String

/-- The strategies of the registry, in the order of `list_strategies`. -/
abbrev Registry := Table StrategyInstance StrategyInstance.strategyId

structure RawMarketKey where
  (exchange marketType symbol priceType : String)
deriving DecidableEq

def RawMarketKey.instrumentKey (key : RawMarketKey) : String :=
  key.exchange ++ ":" ++ key.marketType ++ ":" ++ key.symbol ++ ":" ++ key.priceType

structure SourceBar where
  instrument : Instrument
  timeframe : Timeframe
  bar : Bar

structure Config where
  sourceTimeframe : String := "1m"
  persistSource : Bool := true
  persistAggregates : Bool := true
  source : String := "live"
  priority : ℤ := 50

/-- `parse_timeframe`, which reads the name that it gives a timeframe as that timeframe. -/
structure Parser where
  parseTimeframe : String → Except Raised Timeframe
  parse_canonical : ∀ {text : String} {timeframe : Timeframe}, parseTimeframe text = .ok timeframe →
    parseTimeframe timeframe.canonical = .ok timeframe

structure Job where
  jobType : JobType
  (strategyId idempotencyKey serializationKey : String)
  priority : ℤ
  (artifactId paramsHash instrumentKey timeframe : String)
  (barTime barCloseTime : ℤ)
  source : String
  mtfSeries : List String

inductive FanoutStatus
  | enqueued | noStrategies | targetNotClosed
deriving DecidableEq, Repr

structure TargetBarResult where
  timeframe : String
  status : FanoutStatus
  bar : Option Bar := none
  jobs : List Job := []

structure SourceBarFanoutResult where
  marketKey : RawMarketKey
  sourceTimeframe : String
  strategies : ℕ
  targets : List TargetBarResult

structure StrategyGroup where
  timeframe : String
  strategies : List StrategyInstance

structure State (S : Type) where
  store : S
  jobs : List Job := []

def marketKey (instrument : Instrument) : RawMarketKey where
  exchange := lower instrument.exchange
  marketType := lower instrument.market
  symbol := upper instrument.symbol
  priceType := "trade"

def enabledStrategiesForMarket (strategies : List StrategyInstance) (key : RawMarketKey) : List StrategyInstance :=
  strategies.filter fun s => s.enabled ∧ lower s.exchange = key.exchange ∧ lower s.marketType = key.marketType ∧
    upper s.symbol = key.symbol ∧ lower s.priceType = key.priceType

def jobTypeForStrategyMode (mode : String) : JobType :=
  if lower mode = "live" then .liveBarProcess
  else if lower mode = "observe" then .observeBarProcess
  else .paperBarProcess

structure StrategyBarFanout (S : Type) where
  parser : Parser
  library : Library Ohlcv
  candles : CandleStore S
  errorPolicy : String
  config : Config := {}

namespace StrategyBarFanout
variable {S : Type} (f : StrategyBarFanout S)

def keyed (s : StrategyInstance) : Except Raised (String × StrategyInstance) := do
  let timeframe ← f.parser.parseTimeframe s.timeframe
  return (timeframe.canonical, s)

def sortedGroups (keyed : List (String × StrategyInstance)) : List StrategyGroup :=
  ((Groups.group Prod.fst keyed).rows.insertionSort fun p q => p.1 ≤ q.1).map fun p => ⟨p.1,p.2.map Prod.snd⟩

def groupByTargetTimeframe (strategies : List StrategyInstance) : Except Raised (List StrategyGroup) := do
  let keyed ← strategies.mapM f.keyed
  return sortedGroups keyed

/-- The job of `_enqueue_strategy_job`. -/
def strategyJob (key : RawMarketKey) (timeframe : String) (bar : Bar) (s : StrategyInstance) : Job where
  jobType := jobTypeForStrategyMode s.mode
  strategyId := s.strategyId
  idempotencyKey := (jobTypeForStrategyMode s.mode).value ++ ":" ++ s.strategyId ++ ":" ++ key.instrumentKey ++ ":" ++
    timeframe ++ ":" ++ toString bar.time
  serializationKey := s.strategyId
  priority := f.config.priority
  artifactId := s.artifactId
  paramsHash := s.paramsHash
  instrumentKey := key.instrumentKey
  timeframe := timeframe
  barTime := bar.time
  barCloseTime := bar.timeClose
  source := f.config.source
  mtfSeries := s.mtfSeries

def market (instrument : Instrument) (sourceTimeframe : Timeframe) : RawMarket S :=
  ⟨f.library,f.candles,instrument,sourceTimeframe,f.errorPolicy⟩

/-- The target bar of a group, and the store with it. A target bar that is the source bar is
not stored again. -/
def deriveTarget (m : RawMarket S) (bar : Bar) (store : S) (timeframe : String) : Except Raised (Option Bar × S) := do
  let target ← f.parser.parseTimeframe timeframe
  match ← m.targetBarFromSource store bar target with
  | none => return (none, store)
  | some derived =>
    let stored ← m.persistTargetBar f.config.persistAggregates store target derived
    return (some derived, stored)

def groupJobs (key : RawMarketKey) (group : StrategyGroup) (derived : Option Bar) : List Job :=
  match derived with
  | none => []
  | some bar => group.strategies.map (f.strategyJob key group.timeframe bar)

def groupResult (key : RawMarketKey) (group : StrategyGroup) (derived : Option Bar) : TargetBarResult :=
  ⟨group.timeframe,if derived.isSome then .enqueued else .targetNotClosed,derived,f.groupJobs key group derived⟩

def processGroup (m : RawMarket S) (key : RawMarketKey) (bar : Bar) (group : StrategyGroup) :
    Program Raised (State S) TargetBarResult := do
  let state ← get
  let (derived, stored) ← lift (f.deriveTarget m bar state.store group.timeframe)
  set (⟨stored,state.jobs ++ f.groupJobs key group derived⟩ : State S)
  return f.groupResult key group derived

def processGroups (m : RawMarket S) (key : RawMarketKey) (bar : Bar) :
    List StrategyGroup → Program Raised (State S) (List TargetBarResult)
  | [] => return []
  | group :: rest => do
    let target ← f.processGroup m key bar group
    return target :: (← processGroups m key bar rest)

def openSource (source : SourceBar) (store : S) : Except Raised (Timeframe × S) := do
  let sourceTimeframe ← f.parser.parseTimeframe f.config.sourceTimeframe
  if source.timeframe.canonical ≠ sourceTimeframe.canonical then
    throw (.valueError
      ("StrategyBarFanout expects " ++ sourceTimeframe.canonical ++ " source bars, got " ++ source.timeframe.canonical))
  else if f.config.persistSource then
    return (sourceTimeframe,
      ← f.candles.onCandleClosed store source.instrument sourceTimeframe source.bar f.config.source)
  else return (sourceTimeframe, store)

def processSourceBar (registry : Registry) (source : SourceBar) : Program Raised (State S) SourceBarFanoutResult := do
  let key := marketKey source.instrument
  let strategies := enabledStrategiesForMarket registry.rows key
  let state ← get
  let (sourceTimeframe, stored) ← lift (f.openSource source state.store)
  set { state with store := stored }
  if strategies = [] then
    return ⟨key,sourceTimeframe.canonical,0,[⟨sourceTimeframe.canonical,.noStrategies,none,[]⟩]⟩
  else do
    let groups ← lift (f.groupByTargetTimeframe strategies)
    let targets ← f.processGroups (f.market source.instrument sourceTimeframe) key source.bar groups
    return ⟨key,sourceTimeframe.canonical,strategies.length,targets⟩

def Enqueues (registry : Registry) (source : SourceBar) (store : S) (s : StrategyInstance) : Prop :=
  ∃ job ∈ ((f.processSourceBar registry source).run.run ⟨store,[]⟩).2.jobs, job.strategyId = s.strategyId

end StrategyBarFanout

/-! ### What a group depends on -/

/-- What is asked of the candle store: it keeps the series of different timeframes apart. -/
structure Apart {S H : Type} (candles : CandleStore S) (held : S → String → H) : Prop where
  read : ∀ store store' query, held store query.timeframe.canonical = held store' query.timeframe.canonical →
    candles.read store query = candles.read store' query
  write : ∀ store store' series, held store series.query.timeframe.canonical =
    held store' series.query.timeframe.canonical →
    (candles.write store series).map Prod.fst = (candles.write store' series).map Prod.fst
  others : ∀ store series result stored, candles.write store series = .ok (result, stored) →
    ∀ name, name ≠ series.query.timeframe.canonical → held stored name = held store name

section Stores
open Orchestrator
variable {S H : Type} {candles : CandleStore S} {held : S → String → H} {store store' : S} {target : Timeframe}

theorem Apart.getBars_eq (hapart : Apart candles held) (library : Library Ohlcv) {query : Orchestrator.BarQuery}
    (hsource : query.source = .storage)
    (h : held store query.timeframe.canonical = held store' query.timeframe.canonical) :
    candles.getBars store library query = candles.getBars store' library query := by
  have hread : readSeries library (candles.outside store) query =
      readSeries library (candles.outside store') query := by
    simp only [readSeries, CandleStore.outside, hapart.read store store' query h]
  simp only [CandleStore.getBars, loadBars, if_pos hsource, loadStorage, hread]

theorem write_of_writeSeries {series : BarSeries Ohlcv} {stored : S}
    (h : candles.writeSeries store series = .ok stored) :
    ∃ result, candles.write store series = .ok (result, stored) := by
  unfold CandleStore.writeSeries at h
  split at h
  · cases h
  · rename_i hwrite
    split at h
    · cases h
      exact ⟨_,hwrite⟩
    · cases h

section
variable {m : RawMarket S} (hapart : Apart m.candles held)
include hapart

theorem Apart.targetBarFromSource_eq (h : held store m.source.canonical = held store' m.source.canonical) (bar : Bar)
    (target : Timeframe) : m.targetBarFromSource store bar target = m.targetBarFromSource store' bar target := by
  unfold RawMarket.targetBarFromSource
  have hbars : ∀ startMs endMs, m.candles.getBars store m.library (m.query m.source startMs endMs .fail) =
      m.candles.getBars store' m.library (m.query m.source startMs endMs .fail) :=
    fun _ _ => hapart.getBars_eq m.library rfl h
  simp only [hbars]

theorem Apart.persistTargetBar_eq {α : Type} (persistAggregates : Bool) (derived : Bar) (a : α)
    (h : held store target.canonical = held store' target.canonical) :
    (m.persistTargetBar persistAggregates store target derived).map (fun _ => a) =
      (m.persistTargetBar persistAggregates store' target derived).map (fun _ => a) := by
  unfold RawMarket.persistTargetBar
  split
  · have hwrite (series : BarSeries Ohlcv) (hseries : series.query.timeframe = target) :
        (m.candles.writeSeries store series).map (fun _ => a) =
          (m.candles.writeSeries store' series).map (fun _ => a) := by
      have hsame := hapart.write store store' series (by rw [hseries, h])
      unfold CandleStore.writeSeries
      cases hleft : m.candles.write store series with
      | error =>
        cases hright : m.candles.write store' series with
        | error =>
          rw [hleft, hright] at hsame
          cases hsame
          rfl
        | ok =>
          rw [hleft, hright] at hsame
          cases hsame
      | ok left =>
        cases hright : m.candles.write store' series with
        | error =>
          rw [hleft, hright] at hsame
          cases hsame
        | ok right =>
          rw [hleft, hright] at hsame
          obtain ⟨result,stored⟩ := left
          obtain ⟨result',stored'⟩ := right
          cases hsame
          dsimp only
          split <;> rfl
    exact hwrite _ rfl
  · rfl

theorem Apart.persistTargetBar_frame {persistAggregates : Bool} {derived : Bar} {stored : S}
    (h : m.persistTargetBar persistAggregates store target derived = .ok stored) {name : String}
    (hname : name ≠ target.canonical ∨ name = m.source.canonical) : held stored name = held store name := by
  unfold RawMarket.persistTargetBar at h
  split at h
  · rename_i hpersist
    have hother : name ≠ target.canonical := by
      rcases hname with hname | rfl
      · exact hname
      · exact Ne.symm hpersist.1
    obtain ⟨result,hwrite⟩ := write_of_writeSeries h
    exact hapart.others _ _ _ _ hwrite name hother
  · cases h
    rfl

end

end Stores

namespace StrategyBarFanout
variable {S H : Type} {f : StrategyBarFanout S} {m : RawMarket S} {held : S → String → H} {bar : Bar} {store store' : S}
  {name : String} {target : Timeframe}

theorem deriveTarget_eq (hparse : f.parser.parseTimeframe name = .ok target) :
    f.deriveTarget m bar store name = match m.targetBarFromSource store bar target with
      | .error e => .error e
      | .ok none => .ok (none, store)
      | .ok (some derived) =>
        (m.persistTargetBar f.config.persistAggregates store target derived).map fun stored =>
          (some derived, stored) := by
  unfold deriveTarget
  rw [hparse]
  change (m.targetBarFromSource store bar target >>= _) = _
  cases m.targetBarFromSource store bar target with
  | error => rfl
  | ok derived =>
    cases derived with
    | none => rfl
    | some derived =>
      cases m.persistTargetBar f.config.persistAggregates store target derived with
      | error | ok => rfl

theorem deriveTarget_congr (hapart : Apart m.candles held) (bar : Bar)
    (hparse : f.parser.parseTimeframe name = .ok target)
    (hsource : held store m.source.canonical = held store' m.source.canonical)
    (htarget : held store target.canonical = held store' target.canonical) :
    (f.deriveTarget m bar store name).map Prod.fst = (f.deriveTarget m bar store' name).map Prod.fst := by
  rw [deriveTarget_eq hparse, deriveTarget_eq hparse, hapart.targetBarFromSource_eq hsource]
  cases m.targetBarFromSource store' bar target with
  | error => rfl
  | ok derived =>
    cases derived with
    | none => rfl
    | some derived =>
      have hmap (x : Except Raised S) :
          (x.map fun stored => (some derived, stored)).map Prod.fst = x.map fun _ => some derived := by
        cases x <;> rfl
      simp only [hmap]
      exact hapart.persistTargetBar_eq f.config.persistAggregates derived (some derived) htarget

theorem deriveTarget_frame (hapart : Apart m.candles held) (hparse : f.parser.parseTimeframe name = .ok target)
    {derived : Option Bar} {stored : S} (h : f.deriveTarget m bar store name = .ok (derived, stored)) {other : String}
    (hother : other ≠ target.canonical ∨ other = m.source.canonical) : held stored other = held store other := by
  unfold deriveTarget at h
  rw [hparse] at h
  obtain ⟨_,⟨⟩,h⟩ := bind_eq_ok.mp h
  obtain ⟨found,-,h⟩ := bind_eq_ok.mp h
  cases found with
  | none =>
    cases h
    rfl
  | some found =>
    obtain ⟨_,hpersist,⟨⟩⟩ := bind_eq_ok.mp h
    exact hapart.persistTargetBar_frame hpersist hother

/-! ### The loop over the groups -/

def jobsFrom (f : StrategyBarFanout S) (m : RawMarket S) (key : RawMarketKey) (bar : Bar) (store : S)
    (group : StrategyGroup) : List Job :=
  match f.deriveTarget m bar store group.timeframe with
  | .error _ => []
  | .ok (derived, _) => f.groupJobs key group derived

def succeeds (f : StrategyBarFanout S) (m : RawMarket S) (bar : Bar) (store : S) (name : String) : Bool :=
  (f.deriveTarget m bar store name).isOk

theorem run_processGroup (f : StrategyBarFanout S) (m : RawMarket S) (bar : Bar) (key : RawMarketKey)
    (group : StrategyGroup) (state : State S) : (f.processGroup m key bar group).run.run state =
      match f.deriveTarget m bar state.store group.timeframe with
      | .error e => (.error e, state)
      | .ok (derived, stored) =>
        (.ok (f.groupResult key group derived), ⟨stored,state.jobs ++ f.groupJobs key group derived⟩) := by
  unfold processGroup
  rw [run_bind_ok (run_get state)]
  cases f.deriveTarget m bar state.store group.timeframe with
  | error | ok => rfl

theorem group_congr (hapart : Apart m.candles held) (bar : Bar) (hparse : f.parser.parseTimeframe name = .ok target)
    (hname : target.canonical = name) (hsource : held store m.source.canonical = held store' m.source.canonical)
    (htarget : held store name = held store' name) (key : RawMarketKey) (strategies : List StrategyInstance) :
    f.succeeds m bar store name = f.succeeds m bar store' name ∧
      f.jobsFrom m key bar store ⟨name,strategies⟩ = f.jobsFrom m key bar store' ⟨name,strategies⟩ := by
  rw [← hname] at htarget
  have hcongr := deriveTarget_congr hapart bar hparse hsource htarget
  have hmap : ∀ store, f.succeeds m bar store name = ((f.deriveTarget m bar store name).map Prod.fst).isOk ∧
      f.jobsFrom m key bar store ⟨name,strategies⟩ =
        ((f.deriveTarget m bar store name).map Prod.fst).toOption.elim [] (f.groupJobs key ⟨name,strategies⟩) := by
    intro store
    unfold succeeds jobsFrom
    cases f.deriveTarget m bar store name with
    | error | ok => exact ⟨rfl,rfl⟩
  rw [(hmap store).1, (hmap store).2, (hmap store').1, (hmap store').2, hcongr]
  exact ⟨rfl,rfl⟩

variable {groups : List StrategyGroup} {s : StrategyInstance} {strategies : List StrategyInstance} {registry : Registry}
  {key : RawMarketKey} {g : StrategyGroup} (strategyId : String) (source : SourceBar)

/-- The groups up to the first that fails get the jobs that each of them would get on its own. -/
theorem jobs_processGroups (hapart : Apart m.candles held) (key : RawMarketKey) {state : State S} {store₀ : S}
    (hnames : ∀ g ∈ groups, ∃ t, f.parser.parseTimeframe g.timeframe = .ok t ∧ t.canonical = g.timeframe)
    (hnodup : (groups.map StrategyGroup.timeframe).Nodup)
    (hsource : held state.store m.source.canonical = held store₀ m.source.canonical)
    (hstore : ∀ g ∈ groups, held state.store g.timeframe = held store₀ g.timeframe) :
    ((f.processGroups m key bar groups).run.run state).2.jobs =
      state.jobs ++ (groups.takeWhile fun g => f.succeeds m bar store₀ g.timeframe).flatMap
        (f.jobsFrom m key bar store₀) := by
  induction groups generalizing state with
  | nil => exact (append_nil _).symm
  | cons g rest ih =>
    obtain ⟨target,hparse,hname⟩ := hnames g mem_cons_self
    obtain ⟨hfresh,hnodup⟩ := nodup_cons.mp hnodup
    obtain ⟨hsucceeds,hjobs⟩ := group_congr hapart bar hparse hname hsource (hstore g mem_cons_self) key g.strategies
    have hrun := run_processGroup f m bar key g state
    unfold processGroups
    cases hderive : f.deriveTarget m bar state.store g.timeframe with
    | error =>
      have hfails : f.succeeds m bar store₀ g.timeframe = false := by
        rw [← hsucceeds, succeeds, hderive]
        rfl
      rw [hderive] at hrun
      rw [run_bind_error hrun, takeWhile_cons, hfails]
      simp
    | ok p =>
      obtain ⟨derived,stored⟩ := p
      have hok : f.succeeds m bar store₀ g.timeframe = true := by
        rw [← hsucceeds, succeeds, hderive]
        rfl
      have hthis : f.jobsFrom m key bar store₀ g = f.groupJobs key g derived := by rw [← hjobs, jobsFrom, hderive]
      have hframe : ∀ other, other ≠ g.timeframe ∨ other = m.source.canonical →
          held stored other = held state.store other := by
        intro other hother
        rw [← hname] at hother
        exact deriveTarget_frame hapart hparse hderive hother
      have hstored : ∀ h ∈ rest, held stored h.timeframe = held store₀ h.timeframe := by
        intro h hh
        refine (hframe _ (.inl fun heq => hfresh ?_)).trans (hstore h (mem_cons_of_mem _ hh))
        rw [← heq]
        exact mem_map_of_mem hh
      have hrest := @ih ⟨stored,state.jobs ++ f.groupJobs key g derived⟩
        (fun h hh => hnames h (mem_cons_of_mem _ hh)) hnodup
        ((hframe _ (.inr rfl)).trans hsource) hstored
      rw [hderive] at hrun
      rw [run_bind_ok hrun, takeWhile_cons, hok]
      simp only [↓reduceIte, flatMap_cons, hthis, ← append_assoc, ← hrest, state_bind_pure]

/-! ### The groups of a market -/

structure Grouped (f : StrategyBarFanout S) (strategies : List StrategyInstance) (groups : List StrategyGroup) :
    Prop where
  strict : groups.Pairwise (StrategyGroup.timeframe · < StrategyGroup.timeframe ·)
  parses : ∀ s ∈ strategies, ∃ t, f.parser.parseTimeframe s.timeframe = .ok t
  exists_group : ∀ s ∈ strategies, ∀ t, f.parser.parseTimeframe s.timeframe = .ok t →
    ∃ g ∈ groups, g.timeframe = t.canonical ∧ s ∈ g.strategies
  of_mem : ∀ g ∈ groups, ∀ s ∈ g.strategies,
    s ∈ strategies ∧ ∃ t, f.parser.parseTimeframe s.timeframe = .ok t ∧ t.canonical = g.timeframe
  nonempty : ∀ g ∈ groups, g.strategies ≠ []

theorem keyed_eq_ok {p : String × StrategyInstance} :
    f.keyed s = .ok p ↔ ∃ t, f.parser.parseTimeframe s.timeframe = .ok t ∧ p = (t.canonical, s) := by
  unfold keyed
  cases f.parser.parseTimeframe s.timeframe with
  | error => exact iff_of_false (fun h => by cases h) (fun ⟨_,h,_⟩ => by cases h)
  | ok t =>
    constructor
    · rintro ⟨⟩
      exact ⟨t,rfl,rfl⟩
    · rintro ⟨_,⟨⟩,rfl⟩
      rfl

theorem mem_sortedGroups {pairs : List (String × StrategyInstance)} : g ∈ sortedGroups pairs ↔
    (∃ p ∈ pairs, p.1 = g.timeframe) ∧
      g.strategies = (pairs.filter fun p => p.1 = g.timeframe).map Prod.snd := by
  simp only [sortedGroups, mem_map, mem_insertionSort]
  constructor
  · rintro ⟨row,hrow,rfl⟩
    rw [← Groups.of_group Prod.fst pairs, Groups.of_eq_of_mem hrow]
    exact ⟨Groups.exists_of_mem_group hrow,rfl⟩
  · rintro ⟨⟨p,hp,hname⟩,hstrategies⟩
    have hgroup : ∃ row ∈ (Groups.group Prod.fst pairs).rows, row.1 = p.1 := Groups.exists_group_of_mem hp
    obtain ⟨row,hrow,hkey⟩ := hgroup
    have hkey : row.1 = g.timeframe := hkey.trans hname
    refine ⟨row,hrow,?_⟩
    rw [← Groups.of_eq_of_mem hrow, Groups.of_group, hkey, ← hstrategies]

theorem sortedGroups_strict (pairs : List (String × StrategyInstance)) :
    (sortedGroups pairs).Pairwise (StrategyGroup.timeframe · < StrategyGroup.timeframe ·) :=
  pairwise_map.mpr (StableSort.insertionSort_strict (Groups.group Prod.fst pairs).nodup)

theorem grouped_of_ok (h : f.groupByTargetTimeframe strategies = .ok groups) : f.Grouped strategies groups := by
  obtain ⟨pairs,hpairs,hgroups⟩ := bind_eq_ok.mp h
  cases hgroups
  have hrel := mapM_eq_ok.mp hpairs
  refine ⟨sortedGroups_strict pairs,fun s hs => ?_,fun s hs t hparse => ?_,fun g hg s hs => ?_,fun g hg => ?_⟩
  · obtain ⟨p,-,hkeyed⟩ := exists_right hrel s hs
    obtain ⟨t,hparse,-⟩ := keyed_eq_ok.mp hkeyed
    exact ⟨t,hparse⟩
  · obtain ⟨p,hp,hkeyed⟩ := exists_right hrel s hs
    obtain ⟨t',hparse',rfl⟩ := keyed_eq_ok.mp hkeyed
    rw [hparse] at hparse'
    cases hparse'
    refine ⟨⟨t.canonical,(pairs.filter fun p => p.1 = t.canonical).map Prod.snd⟩,
      mem_sortedGroups.mpr ⟨⟨_,hp,rfl⟩,rfl⟩,rfl,?_⟩
    exact mem_map.mpr ⟨_,mem_filter.mpr ⟨hp,by simp⟩,rfl⟩
  · rw [(mem_sortedGroups.mp hg).2] at hs
    obtain ⟨p,hp,rfl⟩ := mem_map.mp hs
    obtain ⟨hp,hname⟩ := mem_filter.mp hp
    obtain ⟨s,hs',hkeyed⟩ := exists_left hrel p hp
    obtain ⟨t,hparse,rfl⟩ := keyed_eq_ok.mp hkeyed
    exact ⟨hs',t,hparse,of_decide_eq_true hname⟩
  · obtain ⟨⟨p,hp,hname⟩,hstrategies⟩ := mem_sortedGroups.mp hg
    rw [hstrategies]
    exact ne_nil_of_mem (mem_map_of_mem (mem_filter.mpr ⟨hp,decide_eq_true hname⟩))

theorem exists_groups
    (h : ∀ s ∈ strategies, ∃ t, f.parser.parseTimeframe s.timeframe = .ok t) :
    ∃ groups, f.groupByTargetTimeframe strategies = .ok groups := by
  have hkeyed : ∀ s ∈ strategies, ∃ p, f.keyed s = .ok p := by
    intro s hs
    obtain ⟨t,ht⟩ := h s hs
    exact ⟨(t.canonical, s),keyed_eq_ok.mpr ⟨t,ht,rfl⟩⟩
  obtain ⟨pairs,hpairs⟩ := exists_forall₂ hkeyed
  exact ⟨sortedGroups pairs,bind_eq_ok.mpr ⟨pairs,mapM_eq_ok.mpr hpairs,rfl⟩⟩

theorem Grouped.canonical (h : f.Grouped strategies groups) :
    ∀ g ∈ groups, ∃ t, f.parser.parseTimeframe g.timeframe = .ok t ∧ t.canonical = g.timeframe := by
  intro g hg
  obtain ⟨s,hs⟩ := exists_mem_of_ne_nil _ (h.nonempty g hg)
  obtain ⟨-,t,hparse,hname⟩ := h.of_mem g hg s hs
  exact ⟨t,hname ▸ f.parser.parse_canonical hparse,hname⟩

/-! ### The run of one source bar -/

section Runs
variable {registry : Registry} {source : SourceBar} {sourceTimeframe : Timeframe} {stored : S}
  {groups : List StrategyGroup}

theorem jobs_of_openSource_error {e : Raised} (h : f.openSource source store = .error e) :
    ((f.processSourceBar registry source).run.run ⟨store,[]⟩).2.jobs = [] := by
  unfold processSourceBar
  rw [run_bind_ok (run_get _), h]
  rfl

section
variable (hopen : f.openSource source store = .ok (sourceTimeframe, stored))
include hopen

theorem jobs_of_ungrouped {e : Raised}
    (h : f.groupByTargetTimeframe (enabledStrategiesForMarket registry.rows (marketKey source.instrument)) = .error e) :
    ((f.processSourceBar registry source).run.run ⟨store,[]⟩).2.jobs = [] := by
  unfold processSourceBar
  rw [run_bind_ok (run_get _), hopen, h]
  by_cases hnone : enabledStrategiesForMarket registry.rows (marketKey source.instrument) = []
  · simp only [hnone, if_true]
    rfl
  · simp only [hnone, if_false]
    rfl

theorem jobs_processSourceBar (hapart : Apart f.candles held)
    (h : f.groupByTargetTimeframe (enabledStrategiesForMarket registry.rows (marketKey source.instrument)) =
      .ok groups) :
    ((f.processSourceBar registry source).run.run ⟨store,[]⟩).2.jobs =
      (groups.takeWhile fun g =>
        f.succeeds (f.market source.instrument sourceTimeframe) source.bar stored g.timeframe).flatMap
        (f.jobsFrom (f.market source.instrument sourceTimeframe) (marketKey source.instrument) source.bar stored) := by
  have hgrouped := grouped_of_ok h
  have hmarket : Apart (f.market source.instrument sourceTimeframe).candles held := hapart
  have hloop : ((f.processGroups (f.market source.instrument sourceTimeframe)
    (marketKey source.instrument) source.bar groups).run.run
      ⟨stored,[]⟩).2.jobs = [] ++ _ :=
    jobs_processGroups hmarket (marketKey source.instrument) hgrouped.canonical
      (StableSort.nodup_of_strict hgrouped.strict) rfl
      (fun _ _ => rfl)
  unfold processSourceBar
  rw [run_bind_ok (run_get _), hopen, h]
  by_cases hnone : enabledStrategiesForMarket registry.rows (marketKey source.instrument) = []
  · -- without strategies there are no groups
    have hnil : groups = [] := eq_nil_iff_forall_not_mem.mpr fun g hg => by
      obtain ⟨s,hs⟩ := exists_mem_of_ne_nil _ (hgrouped.nonempty g hg)
      have hmem := (hgrouped.of_mem g hg s hs).1
      rw [hnone] at hmem
      cases hmem
    simp only [hnone, if_true, hnil]
    rfl
  · rw [nil_append] at hloop
    rw [← hloop]
    simp only [hnone, if_false]
    exact congrArg State.jobs state_bind_pure

end

theorem mem_jobsFrom {job : Job} :
    job ∈ f.jobsFrom m key bar store g ↔
      ∃ derived last, f.deriveTarget m bar store g.timeframe = .ok (some derived, last) ∧
      ∃ t ∈ g.strategies, f.strategyJob key g.timeframe derived t = job := by
  unfold jobsFrom
  rcases f.deriveTarget m bar store g.timeframe with e | ⟨_ | derived,last⟩
  · simp
  · simp [groupJobs]
  · simp [groupJobs]

end Runs

/-! ### What other strategies can do -/

/-- The target bar of the strategy's own timeframe is closed, complete and stored. -/
def Delivers (f : StrategyBarFanout S) (source : SourceBar) (store : S) (s : StrategyInstance) : Prop :=
  ∃ sourceTimeframe stored own derived last, f.openSource source store = .ok (sourceTimeframe, stored) ∧
    f.parser.parseTimeframe s.timeframe = .ok own ∧
    f.deriveTarget (f.market source.instrument sourceTimeframe) source.bar stored own.canonical =
      .ok (some derived, last)

/-- The timeframes of all strategies of the market parse, and those whose names come before the
name of the strategy's own do not raise. -/
def Undisturbed (f : StrategyBarFanout S) (registry : Registry) (source : SourceBar) (store : S)
    (s : StrategyInstance) :
    Prop :=
  ∀ t ∈ enabledStrategiesForMarket registry.rows (marketKey source.instrument),
    ∃ timeframe, f.parser.parseTimeframe t.timeframe = .ok timeframe ∧
    ∀ sourceTimeframe stored own, f.openSource source store = .ok (sourceTimeframe, stored) →
      f.parser.parseTimeframe s.timeframe = .ok own → timeframe.canonical < own.canonical →
      f.succeeds (f.market source.instrument sourceTimeframe) source.bar stored timeframe.canonical

def alone (s : StrategyInstance) : Registry := ⟨[s],List.nodup_singleton _⟩

theorem eq_of_enabled {t : StrategyInstance} (hs : s ∈ registry.rows)
    (ht : t ∈ enabledStrategiesForMarket registry.rows key) (hid : t.strategyId = s.strategyId) : t = s :=
  Table.eq_of_key (mem_of_mem_filter ht) hs hid

/-- A job is enqueued if the group of the strategy is reached and delivers. -/
theorem enqueues_iff (hapart : Apart f.candles held) (store : S) (hs : s ∈ registry.rows) :
    f.Enqueues registry source store s ↔ s ∈ enabledStrategiesForMarket registry.rows (marketKey source.instrument) ∧
      f.Delivers source store s ∧ f.Undisturbed registry source store s := by
  unfold Enqueues
  cases hopen : f.openSource source store with
  | error =>
    rw [jobs_of_openSource_error hopen]
    refine iff_of_false (fun ⟨_,hjob,_⟩ => by cases hjob) ?_
    rintro ⟨-,⟨_,_,_,_,_,hok,-⟩,-⟩
    rw [hopen] at hok
    cases hok
  | ok opened =>
    obtain ⟨sourceTimeframe,stored⟩ := opened
    cases hgroups : f.groupByTargetTimeframe
      (enabledStrategiesForMarket registry.rows (marketKey source.instrument)) with
    | error =>
      rw [jobs_of_ungrouped hopen hgroups]
      refine iff_of_false (fun ⟨_,hjob,_⟩ => by cases hjob) ?_
      rintro ⟨-,-,hundisturbed⟩
      obtain ⟨groups,hok⟩ := exists_groups fun t ht => (hundisturbed t ht).imp fun _ h => h.1
      rw [hgroups] at hok
      cases hok
    | ok =>
      have hgrouped := grouped_of_ok hgroups
      rw [jobs_processSourceBar hopen hapart hgroups]
      constructor
      · rintro ⟨job,hjob,hid⟩
        obtain ⟨g,htaken,hjob⟩ := mem_flatMap.mp hjob
        have hg := takeWhile_subset _ htaken
        obtain ⟨derived,last,hderive,t,ht,rfl⟩ := mem_jobsFrom.mp hjob
        obtain ⟨henabled,own,hparse,hname⟩ := hgrouped.of_mem g hg t ht
        obtain rfl := eq_of_enabled hs henabled hid
        refine ⟨henabled,⟨sourceTimeframe,stored,own,derived,last,hopen,hparse,hname ▸ hderive⟩,fun t' ht' => ?_⟩
        obtain ⟨timeframe,hparse'⟩ := hgrouped.parses t' ht'
        obtain ⟨g',hg',hname',-⟩ := hgrouped.exists_group t' ht' timeframe hparse'
        refine ⟨timeframe,hparse',fun sourceTimeframe' stored' own' hopen' hown hlt => ?_⟩
        rw [hopen] at hopen'
        rw [hparse] at hown
        cases hopen'
        cases hown
        rw [← hname'] at hlt ⊢
        exact (StableSort.mem_takeWhile_iff hgrouped.strict hg _).mp htaken g' hg' (hname ▸ hlt.le)
      · rintro ⟨henabled,⟨sourceTimeframe',stored',own,derived,last,hopen',hparse,hderive⟩,hundisturbed⟩
        rw [hopen] at hopen'
        cases hopen'
        obtain ⟨g,hg,hname,hmem⟩ := hgrouped.exists_group s henabled own hparse
        rw [← hname] at hderive
        refine ⟨_,mem_flatMap.mpr ⟨g,(StableSort.mem_takeWhile_iff hgrouped.strict hg _).mpr fun g' hg' hle => ?_,
          mem_jobsFrom.mpr ⟨derived,last,hderive,s,hmem,rfl⟩⟩,rfl⟩
        rcases hle.eq_or_lt with heq | hlt
        · rw [heq, succeeds, hderive]
          rfl
        · obtain ⟨t,ht⟩ := exists_mem_of_ne_nil _ (hgrouped.nonempty g' hg')
          obtain ⟨htenabled,timeframe,hparse',hname'⟩ := hgrouped.of_mem g' hg' t ht
          obtain ⟨timeframe',hparse'',hsucceeds⟩ := hundisturbed t htenabled
          rw [hparse'] at hparse''
          cases hparse''
          rw [← hname'] at hlt ⊢
          exact hsucceeds sourceTimeframe stored own hopen hparse (hname ▸ hlt)

theorem mem_enabled_alone (hs : s ∈ registry.rows) :
    s ∈ enabledStrategiesForMarket registry.rows key ↔ s ∈ enabledStrategiesForMarket (alone s).rows key := by
  simp [enabledStrategiesForMarket, alone, hs]

theorem Delivers.undisturbed_alone {source : SourceBar} (h : f.Delivers source store s) :
    f.Undisturbed (alone s) source store s := by
  obtain ⟨_,_,own,_,_,-,hparse,-⟩ := h
  intro t ht
  obtain rfl := mem_singleton.mp (mem_of_mem_filter ht)
  refine ⟨own,hparse,fun _ _ own' _ hparse' hlt => ?_⟩
  rw [hparse] at hparse'
  cases hparse'
  exact absurd hlt (lt_irrefl _)

theorem enqueues_iff_alone (hapart : Apart f.candles held) (store : S) (hs : s ∈ registry.rows) :
    f.Enqueues registry source store s ↔ f.Enqueues (alone s) source store s ∧
      f.Undisturbed registry source store s := by
  rw [enqueues_iff source hapart store hs, enqueues_iff source hapart store (mem_singleton_self s),
    mem_enabled_alone hs]
  constructor
  · rintro ⟨henabled,hdelivers,hundisturbed⟩
    exact ⟨⟨henabled,hdelivers,hdelivers.undisturbed_alone⟩,hundisturbed⟩
  · rintro ⟨⟨henabled,hdelivers,-⟩,hundisturbed⟩
    exact ⟨henabled,hdelivers,hundisturbed⟩

/-- Two registries that have a strategy treat it in the same way exactly if they disturb it in the
same cases among those in which it gets a job alone. -/
theorem noninterference_iff (f : StrategyBarFanout S) (held : S → String → H) (hapart : Apart f.candles held)
    (source : SourceBar) (store : S) {registry registry' : Registry} {s : StrategyInstance} (hs : s ∈ registry.rows)
    (hs' : s ∈ registry'.rows) :
    (f.Enqueues registry source store s ↔
      f.Enqueues (alone s) source store s ∧ f.Undisturbed registry source store s) ∧
    ((f.Enqueues registry source store s ↔ f.Enqueues registry' source store s) ↔
      (f.Enqueues (alone s) source store s →
        (f.Undisturbed registry source store s ↔ f.Undisturbed registry' source store s))) := by
  refine ⟨enqueues_iff_alone source hapart store hs,?_⟩
  rw [enqueues_iff_alone source hapart store hs, enqueues_iff_alone source hapart store hs', and_congr_right_iff]

/-! ### A month beside a minute -/

def sampleTimeframes : List Timeframe := [.minute,⟨"3m",some 180000⟩,⟨"1M",none⟩]

def sampleParser : Parser where
  parseTimeframe text := match sampleTimeframes.find? (·.canonical = text) with
    | some timeframe => .ok timeframe
    | none => .error (.valueError ("unknown timeframe " ++ text))
  parse_canonical {text timeframe} h := by
    cases hfound : sampleTimeframes.find? (·.canonical = text) with
    | none =>
      rw [hfound] at h
      cases h
    | some found =>
      rw [hfound] at h
      cases h
      have hname := List.find?_some hfound
      rw [of_decide_eq_true hname, hfound]

/-- A store that keeps whatever it is given. -/
def sampleCandles : CandleStore (String → List Bar) where
  read store query :=
    let bars := Orchestrator.window query (store query.timeframe.canonical)
    .ok (.series ⟨query,bars,Orchestrator.coverageFor query bars "storage"⟩)
  write store series :=
    let name := series.query.timeframe.canonical
    .ok (⟨true,none⟩, Function.update store name (store name ++ series.bars))

theorem sampleCandles_apart : Apart sampleCandles fun store => store where
  read _ _ _ h := by simp only [sampleCandles, h]
  write _ _ _ _ := rfl
  others _ _ _ _ h _ hname := by
    cases h
    exact Function.update_of_ne hname _ _

def sampleFanout : StrategyBarFanout (String → List Bar) where
  parser := sampleParser
  library := ⟨fun _ => "",fun _ => true,fun _ => .ok (),fun _ => true,fun _ => .ok (),fun _ => true,id⟩
  candles := sampleCandles
  errorPolicy := "raise"

def emptyStore : String → List Bar := fun _ => []

def sampleStrategy (strategyId timeframe : String) : StrategyInstance :=
  ⟨strategyId,"artifact","params","binance","spot","BTCUSDT","trade",timeframe,"paper",true,[]⟩

def sampleBar : SourceBar := ⟨⟨"binance","spot","BTCUSDT"⟩,.minute,⟨0,60000,⟨1,1,1,1,none⟩,true⟩⟩

def samplePair (timeframe timeframe' : String) : Registry :=
  ⟨[sampleStrategy "first" timeframe,sampleStrategy "second" timeframe'],by
    change ["first","second"].Nodup
    decide⟩

theorem mem_enabled_sample {strategyId timeframe : String} (h : sampleStrategy strategyId timeframe ∈ strategies) :
    sampleStrategy strategyId timeframe ∈ enabledStrategiesForMarket strategies (marketKey sampleBar.instrument) := by
  refine mem_filter.mpr ⟨h,?_⟩
  have hprice : lower "trade" = "trade" := by decide +kernel
  simp [sampleStrategy, sampleBar, marketKey, hprice]

theorem sample_delivers : sampleFanout.Delivers sampleBar emptyStore (sampleStrategy strategyId "1m") :=
  ⟨_,_,_,_,_,rfl,rfl,rfl⟩

theorem sample_enqueues_alone :
    sampleFanout.Enqueues (alone (sampleStrategy strategyId "1m")) sampleBar emptyStore
      (sampleStrategy strategyId "1m") :=
  (enqueues_iff sampleBar sampleCandles_apart emptyStore (mem_singleton_self _)).mpr
    ⟨mem_enabled_sample (mem_singleton_self _),sample_delivers strategyId,
      (sample_delivers strategyId).undisturbed_alone⟩

theorem sample_disturbed : ¬sampleFanout.Undisturbed (samplePair "1m" "1M") sampleBar emptyStore
    (sampleStrategy "first" "1m") := by
  intro h
  obtain ⟨timeframe,hparse,hsucceeds⟩ := h (sampleStrategy "second" "1M") (mem_enabled_sample (by simp [samplePair]))
  cases hparse
  have hlt : "1M" < "1m" := by decide
  exact absurd (hsucceeds .minute _ .minute rfl rfl hlt) (by decide +kernel)

/-- Two strategies of the same timeframe get their jobs. -/
theorem minutes_undisturbed : sampleFanout.Enqueues (samplePair "1m" "1m") sampleBar emptyStore
    (sampleStrategy "first" "1m") ∧
      (sampleFanout.Enqueues (samplePair "1m" "1m") sampleBar emptyStore (sampleStrategy "first" "1m") ↔
        sampleFanout.Enqueues (alone (sampleStrategy "first" "1m")) sampleBar emptyStore
          (sampleStrategy "first" "1m")) := by
  have hmem : sampleStrategy "first" "1m" ∈ (samplePair "1m" "1m").rows := mem_cons_self
  have hundisturbed : sampleFanout.Undisturbed (samplePair "1m" "1m") sampleBar emptyStore
    (sampleStrategy "first" "1m") := by
    intro t ht
    have htimeframe : t.timeframe = "1m" := by
      rcases mem_cons.mp (mem_of_mem_filter ht) with rfl | ht
      · rfl
      · rw [mem_singleton.mp ht]
        rfl
    rw [htimeframe]
    refine ⟨.minute,rfl,fun _ _ own _ hown hlt => ?_⟩
    cases hown
    exact absurd hlt (lt_irrefl _)
  have hmem' : sampleStrategy "first" "1m" ∈ (alone (sampleStrategy "first" "1m")).rows := mem_cons_self
  have h := noninterference_iff sampleFanout _ sampleCandles_apart sampleBar emptyStore hmem hmem'
  exact ⟨h.1.mpr ⟨sample_enqueues_alone "first",hundisturbed⟩,
    h.2.mpr fun _ => iff_of_true hundisturbed (sample_delivers "first").undisturbed_alone⟩

/-- A strategy on months takes the job of a strategy on minutes. -/
theorem month_blocks_minute :
    sampleFanout.Enqueues (alone (sampleStrategy "first" "1m")) sampleBar emptyStore (sampleStrategy "first" "1m") ∧
      ¬sampleFanout.Enqueues (samplePair "1m" "1M") sampleBar emptyStore (sampleStrategy "first" "1m") :=
  ⟨sample_enqueues_alone "first",
    fun h => sample_disturbed ((enqueues_iff_alone sampleBar sampleCandles_apart emptyStore mem_cons_self).mp h).2⟩

end StrategyBarFanout

end OpenPine.Workers.Fanout
