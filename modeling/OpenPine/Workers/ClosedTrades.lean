import Mathlib.Data.List.Perm.Basic
import OpenPine.Workers.LedgerEffects

/-! # Every closed trade once

The result of a bar lists all trades closed so far, and the executor records those whose
exit time lies in the bar, both ends included. Where the end of a bar is the beginning of
the next one, a trade that is closed at the boundary lies in two bars: the job of the
second fails at the primary key. Otherwise the bars divide the trades among them.
-/
namespace OpenPine.Workers
open Python State Runs StrategyJobExecutor Delivery List
variable {ρ β : Type}

def StrategyTrade.undated (t : StrategyTrade) : StrategyTrade := { t with createdAt := 0, updatedAt := 0 }

def tradeRow (o : Outside ρ) (strategy : StrategyInstance) (frame : Timeframe) (source : LedgerSource)
    (trade : ClosedTrade) : StrategyTrade := (strategyTrade o strategy frame source trade 0).row 0

theorem Delivery.tradeRows_undated {o : Outside ρ} {d : Delivery ρ} {strategy : StrategyInstance} {frame : Timeframe}
    (k : ℕ) (trades : List ClosedTrade) : (d.tradeRows o strategy frame k trades).map StrategyTrade.undated =
      trades.map (tradeRow o strategy frame d.source) := by
  induction trades generalizing k with
  | nil => rfl
  | cons _ _ ih => exact congrArg (List.cons _) (ih (k + 1))

/-- A bar with the delivery of its job and the trades that its result is the first to list. -/
structure BarReport (ρ : Type) where
  delivery : Delivery ρ
  bar : Bar
  closed : List ClosedTrade

/-! ### The bars of a sequence -/

/-- The end of every bar is the beginning of the next one, and a trade is closed in the
bar that reports it first. -/
structure Contiguous (reports : List (BarReport ρ)) : Prop where
  forward : ∀ r ∈ reports, r.bar.time < r.bar.timeClose
  adjacent : reports.IsChain fun r r' => r.bar.timeClose = r'.bar.time
  closedInBar : ∀ r ∈ reports, ∀ trade ∈ r.closed, InWindow r.bar trade

variable {reports : List (BarReport ρ)} {seen : List ClosedTrade}

theorem Contiguous.tail {r : BarReport ρ} (h : Contiguous (r :: reports)) : Contiguous reports :=
  ⟨fun r' hr' => h.forward r' (mem_cons_of_mem _ hr'),h.adjacent.tail,
    fun r' hr' => h.closedInBar r' (mem_cons_of_mem _ hr')⟩

def closedTrades (reports : List (BarReport ρ)) : List ClosedTrade := reports.flatMap BarReport.closed

/-- No trade is closed at the end of a bar that has a successor. -/
def NoneAtBoundary (reports : List (BarReport ρ)) : Prop :=
  reports.IsChain fun r _ => ∀ trade ∈ r.closed, trade.exitTime ≠ some r.bar.timeClose

/-- What the windows of the bars select from the results, of which the first lists the
trades seen before and its own. -/
def selected : List ClosedTrade → List (BarReport ρ) → List ClosedTrade
  | _, [] => []
  | seen, r :: reports =>
    (seen ++ r.closed).filter (fun trade => InWindow r.bar trade) ++ selected (seen ++ r.closed) reports

theorem filter_own {r : BarReport ρ} (h : ∀ trade ∈ r.closed, InWindow r.bar trade) (seen : List ClosedTrade) :
    (seen ++ r.closed).filter (fun trade => InWindow r.bar trade) =
      seen.filter (fun trade => InWindow r.bar trade) ++ r.closed := by
  rw [filter_append, filter_eq_self.mpr fun trade ht => decide_eq_true (h trade ht)]

theorem closedTrades_sublist (h : Contiguous reports) (seen : List ClosedTrade) :
    (closedTrades reports).Sublist (selected seen reports) := by
  induction reports generalizing seen with
  | nil => exact .slnil
  | cons r _ ih =>
    rw [selected, filter_own (h.closedInBar r mem_cons_self)]
    exact (sublist_append_right _ _).append (ih h.tail _)

theorem selected_eq (h : Contiguous reports) (hnone : NoneAtBoundary reports)
    (hseen : ∀ r ∈ reports.head?, ∀ trade ∈ seen, ∃ t ∈ trade.exitTime, t < r.bar.time) :
    selected seen reports = closedTrades reports := by
  induction reports generalizing seen with
  | nil => rfl
  | cons r _ ih =>
    have hbefore := hseen r rfl
    have hold : seen.filter (fun trade => InWindow r.bar trade) = [] := by
      refine filter_eq_nil_iff.mpr fun trade htrade hin => ?_
      obtain ⟨t,ht,hlt⟩ := hbefore trade htrade
      obtain ⟨t',ht',hle,-⟩ := of_decide_eq_true hin
      cases ht.symm.trans ht'
      exact absurd hlt (not_lt.mpr hle)
    have hown := h.closedInBar r mem_cons_self
    rw [selected, filter_own hown, hold, nil_append, ih h.tail hnone.tail, closedTrades, closedTrades, flatMap_cons]
    intro r' hr' trade htrade
    have hadjacent : r.bar.timeClose = r'.bar.time := (isChain_cons.mp h.adjacent).1 r' hr'
    rcases mem_append.mp htrade with htrade | htrade
    · obtain ⟨t,ht,hlt⟩ := hbefore trade htrade
      refine ⟨t,ht,?_⟩
      have := h.forward r mem_cons_self
      omega
    · obtain ⟨t,ht,-,hle⟩ := hown trade htrade
      have hne : t ≠ r.bar.timeClose := by
        rintro rfl
        exact (isChain_cons.mp hnone).1 r' hr' trade htrade ht
      exact ⟨t,ht,hadjacent ▸ lt_of_le_of_ne hle hne⟩

theorem noneAtBoundary_of_nodup {ι : Type} {f : ClosedTrade → ι} (h : Contiguous reports)
    (hnodup : ((selected seen reports).map f).Nodup) : NoneAtBoundary reports := by
  induction reports generalizing seen with
  | nil => exact .nil
  | cons r reports ih =>
    rw [selected, map_append] at hnodup
    have hrest := List.Nodup.of_append_right hnodup
    refine isChain_cons.mpr ⟨fun r' hr' trade htrade hexit => ?_,ih h.tail hrest⟩
    obtain ⟨later,rfl⟩ : ∃ later, reports = r' :: later := List.head?_eq_some_iff.mp hr'
    have hadjacent : r.bar.timeClose = r'.bar.time := (isChain_cons.mp h.adjacent).1 r' hr'
    have hforward := h.forward r' (mem_cons_of_mem _ mem_cons_self)
    have hfirst : trade ∈ (seen ++ r.closed).filter fun trade => InWindow r.bar trade := by
      rw [filter_own (h.closedInBar r mem_cons_self)]
      exact mem_append_right _ htrade
    have hsecond : trade ∈ selected (seen ++ r.closed) (r' :: later) := by
      refine mem_append_left _ (mem_filter.mpr ⟨?_,decide_eq_true ⟨_,hexit,hadjacent.ge,?_⟩⟩)
      · exact mem_append_left _ (mem_append_right _ htrade)
      · exact hadjacent.trans_le hforward.le
    exact disjoint_of_nodup_append hnodup (mem_map_of_mem hfirst) (mem_map_of_mem hsecond)

/-! ### The jobs of a sequence -/

/-- The job is for the bar and completes with a result that lists the trades, and
nothing but a repeated id can make it fail. -/
structure BarReport.Completes (o : Outside ρ) (strategy : StrategyInstance) (timeframe : String) (jobType : JobType)
    (trades : List ClosedTrade) (r : BarReport ρ) : Prop where
  isFor : r.delivery.For strategy timeframe
  mode : r.delivery.job.jobType = jobType
  loads : r.delivery.prepare o = .ok (strategy, r.bar)
  lists : ∀ resume, ∃ result, r.delivery.runStrategy strategy r.bar resume = .ok result ∧ result.completed = true ∧
    result.rawResult.closedTrades.Perm trades
  saveFault : r.delivery.saveFault = none
  upsertFault : r.delivery.upsertFault = none
  tradeFault : ∀ k, r.delivery.tradeFault k = none

/-- The result of every bar lists all trades closed so far. -/
def Cumulative (o : Outside ρ) (strategy : StrategyInstance) (timeframe : String) (jobType : JobType) :
    List ClosedTrade → List (BarReport ρ) → Prop
  | _, [] => True
  | seen, r :: reports => r.Completes o strategy timeframe jobType (seen ++ r.closed) ∧
    Cumulative o strategy timeframe jobType (seen ++ r.closed) reports

/-- The rows `l'` has in addition to those of `l` are those of the trades. -/
def Inserted (o : Outside ρ) (strategy : StrategyInstance) (frame : Timeframe) (source : LedgerSource)
    (trades : List ClosedTrade) (l l' : StrategyLedger) : Prop :=
  ∃ rows, l'.trades.rows = l.trades.rows ++ rows ∧
    (rows.map StrategyTrade.undated).Perm (trades.map (tradeRow o strategy frame source))

def FreshIds (o : Outside ρ) (strategy : StrategyInstance) (source : LedgerSource) (l : StrategyLedger)
    (trades : List ClosedTrade) : Prop :=
  (l.trades.rows.map StrategyTrade.tradeId ++ trades.map (ledgerTradeId o strategy.strategyId source)).Nodup

instance (o : Outside ρ) (strategy : StrategyInstance) (source : LedgerSource) (l : StrategyLedger)
    (trades : List ClosedTrade) : Decidable (FreshIds o strategy source l trades) :=
  inferInstanceAs (Decidable (List.Nodup _))

section Insert
variable {o : Outside ρ} {strategy : StrategyInstance} {frame : Timeframe} {source : LedgerSource}
  {l l' l'' : StrategyLedger} {trades trades' : List ClosedTrade}

theorem Inserted.refl : Inserted o strategy frame source [] l l := ⟨[],(append_nil _).symm,.nil⟩

section
variable (h : Inserted o strategy frame source trades l l')
include h

theorem Inserted.trans
    (h' : Inserted o strategy frame source trades' l' l'') :
    Inserted o strategy frame source (trades ++ trades') l l'' := by
  obtain ⟨rows,hrows,hperm⟩ := h
  obtain ⟨rows',hrows',hperm'⟩ := h'
  refine ⟨rows ++ rows',by rw [hrows', hrows, append_assoc],?_⟩
  rw [map_append, map_append]
  exact hperm.append hperm'

theorem Inserted.ids : (l'.trades.rows.map StrategyTrade.tradeId).Perm
    (l.trades.rows.map StrategyTrade.tradeId ++ trades.map (ledgerTradeId o strategy.strategyId source)) := by
  obtain ⟨rows,hrows,hperm⟩ := h
  have hids := hperm.map StrategyTrade.tradeId
  rw [map_map, map_map] at hids
  rw [hrows, map_append]
  exact hids.append_left _

theorem Inserted.freshIds : FreshIds o strategy source l trades := h.ids.nodup_iff.mp l'.trades.nodup

theorem Inserted.freshIds_iff : FreshIds o strategy source l' trades' ↔
    FreshIds o strategy source l (trades ++ trades') := by
  unfold FreshIds
  rw [map_append, ← append_assoc]
  exact (h.ids.append_right _).nodup_iff

end

theorem FreshIds.perm (h : trades.Perm trades') : FreshIds o strategy source l trades ↔
    FreshIds o strategy source l trades' :=
  ((h.map _).append_left _).nodup_iff

theorem FreshIds.sublist (h : FreshIds o strategy source l trades) (hsub : trades'.Sublist trades) :
    FreshIds o strategy source l trades' := List.Nodup.sublist ((List.Sublist.refl _).append (hsub.map _)) h

end Insert

section Process
variable {o : Outside ρ} {c : Codec (Option ρ) β} {strategy : StrategyInstance} {timeframe : String} {jobType : JobType}
  {frame : Timeframe} {x : StrategyJobExecutor β} {last : Option (Saved ρ)} {l : StrategyLedger} {r : BarReport ρ}
  {trades : List ClosedTrade}

theorem Tracks.saves (h : Tracks c x.stateStore strategy timeframe last) (ht : c.Total)
    (hpath : Session.validatePathComponent ("strategy_id=" ++ strategy.strategyId) = .ok ()) {d : Delivery ρ}
    (hfault : d.saveFault = none) (bar : Bar) (resume : Option ρ) (e : StateError) :
    (d.saveRuntimeSnapshot c x.stateStore strategy bar resume).1 ≠ .error e := by
  intro he
  unfold saveRuntimeSnapshot at he
  rw [hfault] at he
  obtain ⟨encoded,hencoded⟩ := ht ((d.runtimeState strategy bar resume).snapshotPayload none)
  have hdue : Session.SaveDue x.stateStore.store (d.runtimeState strategy bar resume).strategyId := h.saveDue _
  obtain ⟨snap,disk,packed,-,hsave⟩ := Session.saveSnapshot_of_due h.sound hdue hpath hencoded d.job.jobType.value
    (d.clock .snapshotSaved)
  cases (congrArg Prod.fst hsave).symm.trans he

theorem BarReport.Completes.process (h : r.Completes o strategy timeframe jobType trades) (hc : c.Faithful)
    (ht : c.Total) (hpath : Session.validatePathComponent ("strategy_id=" ++ strategy.strategyId) = .ok ())
    (hx : Tracks c x.stateStore strategy timeframe last) (hnew : ∀ s ∈ last, s.barTime < r.bar.time) :
    ∃ run snap stateStore, run.result.rawResult.closedTrades.Perm trades ∧
      Tracks c stateStore strategy timeframe (some ⟨r.bar.time,run.result.resumeOut⟩) ∧
      x.process o c r.delivery = finish o { x with stateStore := stateStore } r.delivery strategy r.bar run
        (some snap) := by
  have hcases := processes (o := o) hc hx h.isFor fun e he => by cases h.saveFault.symm.trans he
  generalize x.process o c r.delivery = p at hcases
  cases hcases with
  | failed bar _ _ hcause =>
    obtain ⟨result,hrun,hcompleted,-⟩ := h.lists (last.bind Saved.resumeState)
    cases (hcause r.bar result h.loads hrun).symm.trans hcompleted
  | skipped _ s _ hprepare hlast hle =>
    cases h.loads.symm.trans hprepare
    exact absurd (hnew s hlast) (not_lt.mpr hle)
  | unsaved bar _ e _ _ hcause => exact absurd hcause (hx.saves ht hpath h.saveFault bar _ e)
  | saved _ run snap stateStore hprepare _ _ hrun _ _ _ _ htracks =>
    cases h.loads.symm.trans hprepare
    obtain ⟨result,hrun',-,hperm⟩ := h.lists run.resumeState
    cases hrun.symm.trans hrun'
    exact ⟨run,snap,stateStore,hperm,htracks,rfl⟩

theorem BarReport.Completes.ledger (h : r.Completes o strategy timeframe jobType trades)
    (hmode : jobType ≠ .observeBarProcess) (hframe : o.parseTimeframe strategy.timeframe = .ok frame)
    (hl : x.ledger = some l) {run : CompletedRun ρ} (hperm : run.result.rawResult.closedTrades.Perm trades)
    (snap : Option SnapshotMetadata) {p : Processed ρ β}
    (hp : p = finish o x r.delivery strategy r.bar run snap) :
    (p.result.status = .done ∧ ∃ l', p.executor.ledger = some l' ∧ Inserted o strategy frame jobType.ledgerSource
      (trades.filter fun trade => InWindow r.bar trade) l l') ∨
    (p.result.status ≠ .done ∧ ¬FreshIds o strategy jobType.ledgerSource l
      (trades.filter fun trade => InWindow r.bar trade)) := by
  have hmode' : r.delivery.job.jobType ≠ .observeBarProcess := h.mode ▸ hmode
  have hsource : r.delivery.source = jobType.ledgerSource := congrArg JobType.ledgerSource h.mode
  have hwindow : (closedInBar r.bar run.result).Perm (trades.filter fun trade => InWindow r.bar trade) := hperm.filter _
  cases hrecord : r.delivery.recordLedger o strategy r.bar run.result (some l) with
  | mk outcome =>
    rw [finish, hl, hrecord] at hp
    cases outcome with
    | ok =>
      obtain ⟨l',rfl,hmirrored⟩ := recordLedger_eq_ok hframe hmode' hrecord
      refine .inl ⟨by rw [hp],l',by rw [hp],_,hmirrored.rows,?_⟩
      rw [tradeRows_undated, hsource]
      exact hwindow.map _
    | error =>
      refine .inr ⟨by rw [hp]; exact fun hdone => failed_unsettled _ _ (.inl hdone),fun hfresh => ?_⟩
      rw [← FreshIds.perm hwindow, ← hsource] at hfresh
      obtain ⟨-,hdistinct,hdisjoint⟩ := nodup_append.mp hfresh
      have haccepts : r.delivery.LedgerAccepts o strategy r.bar run.result l :=
        ⟨⟨frame,hframe⟩,h.upsertFault,fun k _ => h.tradeFault k,hdistinct,fun trade htrade row hrow =>
          hdisjoint _ (mem_map_of_mem hrow) _ (mem_map_of_mem htrade)⟩
      obtain ⟨n,ledger',hok⟩ := recordLedger_of_accepts hmode' haccepts
      cases hok.symm.trans hrecord

end Process

/-! ### The whole sequence -/

/-- Every job is done, and the ledger has one new row for every trade. -/
def RecordedOnce (o : Outside ρ) (strategy : StrategyInstance) (frame : Timeframe) (source : LedgerSource)
    (trades : List ClosedTrade) (l : StrategyLedger) (w : Worker ρ β) : Prop :=
  (∀ e ∈ w.log, e.2.result.status = .done) ∧ ∃ l', w.executor.ledger = some l' ∧
    Inserted o strategy frame source trades l l'

theorem Worker.log_run {o : Outside ρ} {c : Codec (Option ρ) β} (w : Worker ρ β) (deliveries : List (Delivery ρ)) :
    w.log <+: (run (Worker.step o c) w deliveries).log :=
  run_rel (I := fun _ => True) (R := fun w w' : Worker ρ β => w.log <+: w'.log) (fun _ => prefix_rfl)
    (fun _ _ _ => List.IsPrefix.trans) (fun _ _ _ => trivial) (fun _ _ _ => prefix_append _ _) trivial deliveries

section Sequence
variable {o : Outside ρ} {c : Codec (Option ρ) β} {strategy : StrategyInstance} {timeframe : String} {jobType : JobType}
  {frame : Timeframe}

/-- By induction on the reports, every job records the trades of its window. -/
theorem Cumulative.run (hc : c.Faithful) (ht : c.Total)
    (hpath : Session.validatePathComponent ("strategy_id=" ++ strategy.strategyId) = .ok ())
    (hmode : jobType ≠ .observeBarProcess) (hframe : o.parseTimeframe strategy.timeframe = .ok frame)
    {reports : List (BarReport ρ)} (hbars : Contiguous reports)
    (h : Cumulative o strategy timeframe jobType seen reports) {w : Worker ρ β} {l : StrategyLedger}
    {last : Option (Saved ρ)} (hx : Tracks c w.executor.stateStore strategy timeframe last)
    (hl : w.executor.ledger = some l) (hlog : ∀ e ∈ w.log, e.2.result.status = .done)
    (hnew : ∀ r ∈ reports.head?, ∀ s ∈ last, s.barTime < r.bar.time) :
    RecordedOnce o strategy frame jobType.ledgerSource (selected seen reports) l
      (run (Worker.step o c) w (reports.map BarReport.delivery)) ∨
    (∃ e ∈ (run (Worker.step o c) w (reports.map BarReport.delivery)).log, e.2.result.status ≠ .done) ∧
      ¬FreshIds o strategy jobType.ledgerSource l (selected seen reports) := by
  induction reports generalizing seen w l last with
  | nil => exact .inl ⟨hlog,l,hl,.refl⟩
  | cons r reports ih =>
    obtain ⟨hr,hrest⟩ := h
    obtain ⟨completed,snap,stateStore,hperm,htracks,hp⟩ := hr.process hc ht hpath hx (hnew r rfl)
    rw [map_cons, run_cons, selected]
    have hmem : (r.delivery, w.executor.process o c r.delivery) ∈ (w.step o c r.delivery).log :=
      mem_append_right _ mem_cons_self
    rcases hr.ledger hmode hframe (x := { w.executor with stateStore := stateStore }) hl hperm _ hp with
      ⟨hdone,l₁,hl₁,hinserted⟩ | ⟨hfailed,hrepeated⟩
    · have hx' : Tracks c (w.step o c r.delivery).executor.stateStore strategy timeframe
          (some ⟨r.bar.time,completed.result.resumeOut⟩) := by
        rw [Worker.step, hp, finish_stateStore]
        exact htracks
      have hlog' : ∀ e ∈ (w.step o c r.delivery).log, e.2.result.status = .done := by
        intro e he
        rcases mem_append.mp he with he | he
        · exact hlog e he
        · rw [mem_singleton.mp he]
          exact hdone
      have hnew' : ∀ r' ∈ reports.head?, ∀ s ∈ some (Saved.mk r.bar.time completed.result.resumeOut),
          s.barTime < r'.bar.time := by
        rintro r' hr' _ ⟨⟩
        have hadjacent : r.bar.timeClose = r'.bar.time := (isChain_cons.mp hbars.adjacent).1 r' hr'
        exact hadjacent ▸ hbars.forward r mem_cons_self
      rcases ih hbars.tail hrest hx' hl₁ hlog' hnew' with ⟨hall,l',hl',hmore⟩ | ⟨hsome,hrepeated⟩
      · exact .inl ⟨hall,l',hl',hinserted.trans hmore⟩
      · exact .inr ⟨hsome,fun hfresh => hrepeated (hinserted.freshIds_iff.mpr hfresh)⟩
    · refine .inr ⟨⟨_,(Worker.log_run _ _).subset hmem,hfailed⟩,fun hfresh => ?_⟩
      exact hrepeated (hfresh.sublist (sublist_append_left _ _))

end Sequence

/-- The jobs of contiguous bars are done and record every closed trade once exactly if
the ids of the trades are fresh and no trade is closed at the boundary of two bars. -/
theorem trades_recorded_once_iff (o : Outside ρ) (c : Codec (Option ρ) β) (hc : c.Faithful) (ht : c.Total)
    (ops : List (Op (Option ρ))) (intervalBars maxSnapshots : ℤ) (ledger : StrategyLedger) (strategy : StrategyInstance)
    (timeframe : String) (frame : Timeframe) (jobType : JobType)
    (hnone : (run (Directory.step c) {} ops).disk.entries strategy.strategyId = [])
    (hpath : Session.validatePathComponent ("strategy_id=" ++ strategy.strategyId) = .ok ())
    (hframe : o.parseTimeframe strategy.timeframe = .ok frame) (hmode : jobType ≠ .observeBarProcess)
    (reports : List (BarReport ρ)) (hbars : Contiguous reports)
    (hreports : Cumulative o strategy timeframe jobType [] reports) :
    RecordedOnce o strategy frame jobType.ledgerSource (closedTrades reports) ledger (run (Worker.step o c)
      (.create (run (Directory.step c) {} ops).disk intervalBars maxSnapshots (some ledger))
      (reports.map BarReport.delivery)) ↔
    FreshIds o strategy jobType.ledgerSource ledger (closedTrades reports) ∧ NoneAtBoundary reports := by
  have hstart : Worker.Chained c strategy timeframe
      (.create (run (Directory.step c) {} ops).disk intervalBars maxSnapshots (some ledger) : Worker ρ β) :=
    Worker.chained_create (Directory.sound_run c ops).disk hnone intervalBars maxSnapshots (some ledger)
  have hselected : NoneAtBoundary reports → selected [] reports = closedTrades reports := fun hnone' =>
    selected_eq hbars hnone' fun _ _ _ h => absurd h not_mem_nil
  rcases hreports.run hc ht hpath hmode hframe hbars hstart.tracks rfl (fun _ h => absurd h not_mem_nil)
    (by rintro _ _ _ ⟨⟩) with hrecorded | ⟨⟨e,he,hfailed⟩,hrepeated⟩
  · obtain ⟨hdone,l',hl',hinserted⟩ := hrecorded
    have hfresh := hinserted.freshIds
    have hboundary : NoneAtBoundary reports := noneAtBoundary_of_nodup hbars (List.Nodup.of_append_right hfresh)
    refine iff_of_true ⟨hdone,l',hl',hselected hboundary ▸ hinserted⟩ ⟨?_,hboundary⟩
    exact hfresh.sublist (closedTrades_sublist hbars [])
  · constructor
    · intro hrecorded
      exact absurd (hrecorded.1 e he) hfailed
    · rintro ⟨hfresh,hboundary⟩
      exact absurd (hselected hboundary ▸ hfresh) hrepeated

/-- A paper job for the bar at the time, whose result lists the trades before it and its own. -/
def BarReport.sample (t : ℤ) (before closed : List ClosedTrade) : BarReport ℕ :=
  ⟨.sample t (reportTrades (before ++ closed)),.minute t,closed⟩

theorem BarReport.sample_completes (t : ℤ) (before closed : List ClosedTrade) :
    (BarReport.sample t before closed).Completes .plain .sample "1m" .paperBarProcess (before ++ closed) := by
  have hstatus : lower "completed" = "completed" := by decide
  refine ⟨sample_for _ _,rfl,?_,fun _ => ⟨_,rfl,decide_eq_true (.inr hstatus),.refl _⟩,rfl,rfl,fun _ => rfl⟩
  simp [BarReport.sample, Delivery.sample, prepare, validateJob, jobPayload, loadTargetBar, Outside.plain, bind,
    Except.bind, Except.map, pure, Except.pure]

theorem separate_trades_recorded_once :
    let reports := [BarReport.sample 0 [] [.sample "a" 0], .sample 1 [.sample "a" 0] [.sample "b" 2]]
    RecordedOnce .plain .sample ⟨"1m",some 60000⟩ .paper (closedTrades reports) {} (run
      (Worker.step .plain (Codec.plain (Option ℕ))) (.create {} 1 64 (some {})) (reports.map BarReport.delivery)) := by
  refine (trades_recorded_once_iff .plain (Codec.plain (Option ℕ)) (plain_faithful _) (plain_total _) [] 1 64 {} .sample
    "1m" _ .paperBarProcess rfl rfl rfl (by decide) _ ⟨by decide,?_,by decide⟩ ?_).mpr ⟨by decide,?_⟩
  · exact .cons_cons rfl (.singleton _)
  · exact ⟨BarReport.sample_completes 0 [] _,BarReport.sample_completes 1 _ _,trivial⟩
  · exact .cons_cons (by decide) (.singleton _)

/-- A trade that is closed where the next bar begins, and two exits of a bar that differ in
their prices only. -/
theorem boundary_trade_fails :
    let start : Worker ℕ (Payload (Option ℕ)) := .create {} 1 64 (some {})
    let errors (reports : List (BarReport ℕ)) := (run (Worker.step .plain (Codec.plain (Option ℕ))) start
      (reports.map BarReport.delivery)).log.map fun e => e.2.result.error
    let repeated := "UNIQUE constraint failed: strategy_trades.trade_id"
    let atBoundary := [BarReport.sample 0 [] [.sample "a" 1], .sample 1 [.sample "a" 1] []]
    let sameKey := [BarReport.sample 0 [] [.sample "a" 0, { ClosedTrade.sample "a" 0 with exitPrice := some 1 }]]
    (Contiguous atBoundary ∧ Cumulative .plain .sample "1m" .paperBarProcess [] atBoundary ∧
      errors atBoundary = [none, some repeated]) ∧
    Contiguous sameKey ∧ Cumulative .plain .sample "1m" .paperBarProcess [] sameKey ∧
      errors sameKey = [some repeated] := by
  refine ⟨⟨⟨by decide,.cons_cons rfl (.singleton _),by decide⟩,?_,rfl⟩,⟨by decide,.singleton _,by decide⟩,?_,rfl⟩
  · exact ⟨BarReport.sample_completes 0 [] _,BarReport.sample_completes 1 _ [],trivial⟩
  · exact ⟨BarReport.sample_completes 0 [] _,trivial⟩

end OpenPine.Workers
