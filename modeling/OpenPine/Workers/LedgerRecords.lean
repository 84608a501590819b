import OpenPine.Workers.StrategyJobExecutor

/-! # What the executor writes to the ledger

The loop over the closed trades inserts one row for each trade that was closed in the
bar, in their order, until an insert raises. It raises only for one of the reasons
that `LedgerAccepts` excludes.
-/
namespace OpenPine.Workers
open Python List
variable {ρ : Type}

def closedInBar (bar : Bar) (r : RuntimeResult ρ) : List ClosedTrade :=
  r.rawResult.closedTrades.filter fun trade => InWindow bar trade

def positionKey (strategy : StrategyInstance) (frame : Timeframe) : PositionKey :=
  { strategyId := strategy.strategyId, accountId := "", exchange := lower strategy.exchange
    marketType := lower strategy.marketType, symbol := upper strategy.symbol, priceType := lower strategy.priceType
    timeframe := frame.canonical }

namespace Delivery
variable (o : Outside ρ) (d : Delivery ρ)

def source : LedgerSource := d.job.jobType.ledgerSource

/-- The rows for trades of which the first follows `k` other inserts. -/
def tradeRows (strategy : StrategyInstance) (frame : Timeframe) : ℕ → List ClosedTrade → List StrategyTrade
  | _, [] => []
  | k, trade :: trades =>
    (strategyTrade o strategy frame d.source trade (d.clock (.tradeCreated k))).row (d.clock (.tradeRecorded k)) ::
      tradeRows strategy frame (k + 1) trades

/-- Nothing makes a write of the ledger raise: the timeframe of the strategy is known, no
statement fails, and the ids of the trades are distinct and new. -/
structure LedgerAccepts (strategy : StrategyInstance) (bar : Bar) (r : RuntimeResult ρ)
    (l : StrategyLedger) : Prop where
  timeframe : ∃ frame, o.parseTimeframe strategy.timeframe = .ok frame
  upsert : d.upsertFault = none
  inserts : ∀ k < (closedInBar bar r).length, d.tradeFault k = none
  distinct : ((closedInBar bar r).map (ledgerTradeId o strategy.strategyId d.source)).Nodup
  fresh : ∀ trade ∈ closedInBar bar r, ∀ row ∈ l.trades.rows, row.tradeId ≠
    ledgerTradeId o strategy.strategyId d.source trade

variable {o d} {strategy : StrategyInstance} {frame : Timeframe} {bar : Bar} {r : RuntimeResult ρ}
  {l l' : StrategyLedger}

variable {trades : List ClosedTrade} {trade : ClosedTrade}

theorem mem_tradeRows (h : trade ∈ trades) (k : ℕ) :
    ∃ created now, (strategyTrade o strategy frame d.source trade created).row now ∈
      d.tradeRows o strategy frame k trades := by
  induction trades generalizing k with
  | nil => cases h
  | cons _ _ ih =>
    rcases mem_cons.mp h with rfl | h
    · exact ⟨_,_,mem_cons_self⟩
    · obtain ⟨created,now,hrow⟩ := ih h (k + 1)
      exact ⟨created,now,mem_cons_of_mem _ hrow⟩

section
variable (hframe : o.parseTimeframe strategy.timeframe = .ok frame) {k : ℕ}
include hframe

theorem recordTrade_eq_ok (h : d.recordTrade o strategy trade k l = .ok l') :
    l.recordTrade (strategyTrade o strategy frame d.source trade (d.clock (.tradeCreated k)))
      (d.clock (.tradeRecorded k)) = .ok l' := by
  unfold recordTrade at h
  rw [hframe] at h
  cases hfault : d.tradeFault k with
  | none =>
    simp only [hfault, bind, Except.bind] at h
    exact h
  | some => simp [hfault, bind, Except.bind] at h

theorem recordClosedTrades_eq_ok
    {k n : ℕ} (h : d.recordClosedTrades o strategy bar trades k l = (.ok n, l')) :
    l'.positions = l.positions ∧ l'.trades.rows =
      l.trades.rows ++ d.tradeRows o strategy frame k (trades.filter fun trade => InWindow bar trade) := by
  induction trades generalizing k l with
  | nil =>
    cases h
    exact ⟨rfl,(append_nil _).symm⟩
  | cons trade _ ih =>
    unfold recordClosedTrades at h
    split at h <;> rename_i hwindow
    · cases hrecord : d.recordTrade o strategy trade k l with
      | error => simp [hrecord] at h
      | ok =>
        simp only [hrecord] at h
        obtain ⟨hpositions,hrows,-⟩ := StrategyLedger.recordTrade_eq_ok (recordTrade_eq_ok hframe hrecord)
        obtain ⟨hpositions',hrows'⟩ := ih h
        refine ⟨hpositions'.trans hpositions,?_⟩
        rw [hrows', hrows, append_assoc, filter_cons_of_pos (by simpa using hwindow)]
        rfl
    · rw [filter_cons_of_neg (by simpa using hwindow)]
      exact ih h

theorem recordClosedTrades_of_accepts
    (hfaults : ∀ j < (trades.filter fun trade => InWindow bar trade).length, d.tradeFault (k + j) = none)
    (hdistinct : ((trades.filter fun trade => InWindow bar trade).map
      (ledgerTradeId o strategy.strategyId d.source)).Nodup)
    (hfresh : ∀ trade ∈ trades.filter fun trade => InWindow bar trade, ∀ row ∈ l.trades.rows,
      row.tradeId ≠ ledgerTradeId o strategy.strategyId d.source trade) :
    ∃ n l', d.recordClosedTrades o strategy bar trades k l = (.ok n, l') := by
  induction trades generalizing k l with
  | nil => exact ⟨k,l,rfl⟩
  | cons trade _ ih =>
    unfold recordClosedTrades
    split <;> rename_i hwindow
    · rw [filter_cons_of_pos (by simpa using hwindow)] at hfaults hdistinct hfresh
      obtain ⟨hnot,hdistinct⟩ := nodup_cons.mp hdistinct
      have hfirst := hfaults 0 (Nat.succ_pos _)
      obtain ⟨l₁,hl₁⟩ := StrategyLedger.recordTrade_of_fresh
        (t := strategyTrade o strategy frame d.source trade (d.clock (.tradeCreated k)))
        (hfresh trade mem_cons_self) (d.clock (.tradeRecorded k))
      have hrecord : d.recordTrade o strategy trade k l = .ok l₁ := by
        unfold recordTrade
        rw [hframe, Nat.add_zero] at *
        simp only [hfirst, bind, Except.bind]
        exact hl₁
      rw [hrecord]
      refine ih (fun j hj => ?_) hdistinct (fun later hlater row hrow he => ?_)
      · rw [Nat.add_assoc, Nat.add_comm 1 j]
        exact hfaults (j + 1) (Nat.succ_lt_succ hj)
      · obtain ⟨-,hrows,-⟩ := StrategyLedger.recordTrade_eq_ok hl₁
        rw [hrows] at hrow
        rcases mem_append.mp hrow with hold | hnew
        · exact hfresh later (mem_cons_of_mem _ hlater) row hold he
        · rw [mem_singleton.mp hnew] at he
          exact hnot (mem_map.mpr ⟨later,hlater,he.symm⟩)
    · rw [filter_cons_of_neg (by simpa using hwindow)] at hfaults hdistinct hfresh
      exact ih hfaults hdistinct hfresh

end

theorem getPosition_upsert_strategyPosition (source : LedgerSource) (position : Position) (positionId : String)
    (createdAt now : ℤ) : ∃ positionId' createdAt' now', (l.upsertPosition (strategyPosition strategy frame source bar
      position positionId createdAt) now).getPosition (positionKey strategy frame) =
        some ((strategyPosition strategy frame source bar position positionId' createdAt').row now') := by
  let existing := (l.getPosition (positionKey strategy frame)).getD
    (strategyPosition strategy frame source bar position positionId createdAt)
  refine ⟨existing.positionId,existing.createdAt,now,?_⟩
  have hkey : (strategyPosition strategy frame source bar position positionId createdAt).key =
    positionKey strategy frame := rfl
  rw [StrategyLedger.getPosition_upsertPosition, if_pos hkey]
  rfl

theorem recordPosition_eq_ok (hframe : o.parseTimeframe strategy.timeframe = .ok frame)
    (h : d.recordPosition o strategy bar r l = .ok l') :
    l'.trades = l.trades ∧ (reportedPosition o r = none → l' = l) ∧
    ∀ position ∈ reportedPosition o r, ∃ positionId createdAt now, l'.getPosition (positionKey strategy frame) =
        some ((strategyPosition strategy frame d.source bar position positionId createdAt).row now) := by
  unfold recordPosition at h
  cases hposition : reportedPosition o r with
  | none =>
    rw [hposition] at h
    cases h
    exact ⟨rfl,fun _ => rfl,nofun⟩
  | some =>
    rw [hposition] at h
    simp only [hframe, bind, Except.bind] at h
    cases hfault : d.upsertFault with
    | some => simp [hfault] at h
    | none =>
      simp only [hfault] at h
      cases h
      refine ⟨rfl,nofun,?_⟩
      rintro _ ⟨⟩
      exact getPosition_upsert_strategyPosition ..

theorem recordPosition_of_accepts (h : d.LedgerAccepts o strategy bar r l) :
    ∃ l', d.recordPosition o strategy bar r l = .ok l' := by
  obtain ⟨frame,hframe⟩ := h.timeframe
  unfold recordPosition
  cases reportedPosition o r with
  | none => exact ⟨l,rfl⟩
  | some =>
    simp only [hframe, h.upsert, bind, Except.bind]
    exact ⟨_,rfl⟩

structure Mirrored (o : Outside ρ) (d : Delivery ρ) (strategy : StrategyInstance) (frame : Timeframe) (bar : Bar)
    (r : RuntimeResult ρ) (l l' : StrategyLedger) : Prop where
  rows : l'.trades.rows = l.trades.rows ++ d.tradeRows o strategy frame 0 (closedInBar bar r)
  unreported : reportedPosition o r = none → l'.positions = l.positions
  reported : ∀ position ∈ reportedPosition o r, ∃ positionId createdAt now,
    l'.getPosition (positionKey strategy frame) =
      some ((strategyPosition strategy frame d.source bar position positionId createdAt).row now)

/-- A ledger that was written mirrors the report. -/
theorem recordLedger_eq_ok (hframe : o.parseTimeframe strategy.timeframe = .ok frame)
    (hmode : d.job.jobType ≠ .observeBarProcess) {n : ℕ} {ledger : Option StrategyLedger}
    (h : d.recordLedger o strategy bar r (some l) = (.ok n, ledger)) :
    ∃ l', ledger = some l' ∧ Mirrored o d strategy frame bar r l l' := by
  simp only [recordLedger, if_neg hmode] at h
  cases hposition : d.recordPosition o strategy bar r l with
  | error => simp [hposition] at h
  | ok l₁ =>
    simp only [hposition] at h
    obtain ⟨hn,rfl⟩ := Prod.mk.inj h
    have hloop : d.recordClosedTrades o strategy bar r.rawResult.closedTrades 0 l₁ =
        (.ok n, (d.recordClosedTrades o strategy bar r.rawResult.closedTrades 0 l₁).2) := Prod.ext hn rfl
    obtain ⟨hpositions,hrows⟩ := recordClosedTrades_eq_ok hframe hloop
    obtain ⟨htrades,hnone,hsome⟩ := recordPosition_eq_ok hframe hposition
    refine ⟨_,rfl,?_,fun hn => ?_,fun position hp => ?_⟩
    · rw [hrows, htrades]
      rfl
    · rw [hpositions, hnone hn]
    · obtain ⟨positionId,createdAt,now,hrow⟩ := hsome position hp
      refine ⟨positionId,createdAt,now,?_⟩
      rw [StrategyLedger.getPosition, hpositions]
      exact hrow

theorem recordLedger_of_accepts (hmode : d.job.jobType ≠ .observeBarProcess) (h : d.LedgerAccepts o strategy bar r l) :
    ∃ n ledger, d.recordLedger o strategy bar r (some l) = (.ok n, ledger) := by
  obtain ⟨frame,hframe⟩ := h.timeframe
  obtain ⟨l₁,hposition⟩ := recordPosition_of_accepts h
  obtain ⟨htrades,-⟩ := recordPosition_eq_ok hframe hposition
  obtain ⟨n,l',hloop⟩ : ∃ n l', d.recordClosedTrades o strategy bar r.rawResult.closedTrades 0 l₁ = (.ok n, l') := by
    refine recordClosedTrades_of_accepts hframe (fun j hj => ?_) h.distinct ?_
    · rw [Nat.zero_add]
      exact h.inserts j hj
    · rw [htrades]
      exact h.fresh
  refine ⟨n,some l',?_⟩
  simp only [recordLedger, if_neg hmode, hposition, hloop]

end Delivery
end OpenPine.Workers
