import OpenPine.Workers.LedgerRecords
import OpenPine.Workers.ResumeChain

/-! # The ledger after failures and retries

The snapshot of a bar is saved before its position and trades reach the ledger, and the
snapshot alone decides whether a later delivery is skipped. The ledger has what the
runtime reported for every bar that is done or skipped as long as nothing fails between
the save and the last row, and no later bar is saved while an earlier one has reported
and is not saved.
-/
namespace OpenPine.Workers
open Python State Runs StrategyJobExecutor Delivery List
variable {ρ β : Type}

/-- The ledger has the position of the report, or that of a later bar, and every trade
that was closed in the bar. -/
structure Recorded (o : Outside ρ) (strategy : StrategyInstance) (l : StrategyLedger) (d : Delivery ρ) (bar : Bar)
    (r : RuntimeResult ρ) : Prop where
  position : ∀ position ∈ reportedPosition o r, ∃ frame row, o.parseTimeframe strategy.timeframe = .ok frame ∧
    l.getPosition (positionKey strategy frame) = some row ∧ ((∃ t ∈ row.lastBarTime, bar.time < t) ∨
      ∃ positionId createdAt now, row =
        (strategyPosition strategy frame d.source bar position positionId createdAt).row now)
  trades : ∀ trade ∈ closedInBar bar r, ∃ frame createdAt now, o.parseTimeframe strategy.timeframe = .ok frame ∧
    (strategyTrade o strategy frame d.source trade createdAt).row now ∈ l.trades.rows

namespace Recorded
variable {o : Outside ρ} {strategy : StrategyInstance} {frame : Timeframe} {l l' : StrategyLedger} {d d' : Delivery ρ}
  {bar bar' : Bar} {r r' : RuntimeResult ρ}

theorem of_mirrored (hframe : o.parseTimeframe strategy.timeframe = .ok frame)
    (h : Mirrored o d strategy frame bar r l l') : Recorded o strategy l' d bar r := by
  refine ⟨fun position hposition => ?_,fun trade htrade => ?_⟩
  · obtain ⟨positionId,createdAt,now,hrow⟩ := h.reported position hposition
    exact ⟨frame,_,hframe,hrow,.inr ⟨positionId,createdAt,now,rfl⟩⟩
  · obtain ⟨createdAt,now,hrow⟩ := mem_tradeRows htrade 0
    exact ⟨frame,createdAt,now,hframe,h.rows ▸ mem_append_right _ hrow⟩

theorem later (h : Recorded o strategy l d bar r) (hframe : o.parseTimeframe strategy.timeframe = .ok frame)
    (h' : Mirrored o d' strategy frame bar' r' l l') (hlt : bar.time < bar'.time) :
    Recorded o strategy l' d bar r := by
  refine ⟨fun position hposition => ?_,fun trade htrade => ?_⟩
  · obtain ⟨frame₀,row,hframe₀,hrow,hcontent⟩ := h.position position hposition
    obtain rfl := Except.ok.inj (hframe₀.symm.trans hframe)
    cases hreported : reportedPosition o r' with
    | none =>
      refine ⟨frame₀,row,hframe,?_,hcontent⟩
      rw [StrategyLedger.getPosition, h'.unreported hreported]
      exact hrow
    | some position' =>
      obtain ⟨positionId,createdAt,now,hrow'⟩ := h'.reported position' hreported
      exact ⟨frame₀,_,hframe,hrow',.inl ⟨bar'.time,rfl,hlt⟩⟩
  · obtain ⟨frame₀,createdAt,now,hframe₀,hrow⟩ := h.trades trade htrade
    exact ⟨frame₀,createdAt,now,hframe₀,h'.rows ▸ mem_append_left _ hrow⟩

end Recorded

theorem StrategyJobExecutor.failed_unsettled (d : Delivery ρ) (e : String) :
    ¬((failed d e).status = .done ∨ (failed d e).status = .skipped) := by simp [failed]

/-! ### The log of a worker -/

namespace Worker
variable {o : Outside ρ} {c : Codec (Option ρ) β} {strategy : StrategyInstance} {timeframe : String} {w : Worker ρ β}
  {d : Delivery ρ}

def deliveriesFor (w : Worker ρ β) (t : ℤ) : List (Delivery ρ × Processed ρ β) :=
  w.log.filter fun e => e.1.job.input.barTime = some t

def lastFor (w : Worker ρ β) (t : ℤ) : Option (Delivery ρ × Processed ρ β) := (w.deliveriesFor t).getLast?

def lastReport (w : Worker ρ β) (t : ℤ) : Option (Delivery ρ × Processed ρ β) :=
  ((w.deliveriesFor t).filter fun e => e.2.run.isSome).getLast?

theorem deliveriesFor_step (t : ℤ) : (w.step o c d).deliveriesFor t =
    w.deliveriesFor t ++ if d.job.input.barTime = some t then [(d, w.executor.process o c d)] else [] := by
  unfold deliveriesFor step
  rw [filter_append]
  split <;> rename_i ht <;> simp [ht]

theorem lastFor_step (t : ℤ) : (w.step o c d).lastFor t =
    if d.job.input.barTime = some t then some (d, w.executor.process o c d) else w.lastFor t := by
  unfold lastFor
  rw [deliveriesFor_step]
  split
  · exact List.getLast?_concat
  · rw [append_nil]

theorem lastReport_step (t : ℤ) : (w.step o c d).lastReport t =
    if d.job.input.barTime = some t ∧ (w.executor.process o c d).run.isSome then some (d, w.executor.process o c d)
    else w.lastReport t := by
  unfold lastReport
  rw [deliveriesFor_step, filter_append]
  by_cases ht : d.job.input.barTime = some t
  · by_cases hrun : (w.executor.process o c d).run.isSome
    · simp [ht, hrun]
    · simp [ht, hrun]
  · simp [ht]

/-- For every bar whose last delivery is done or skipped, the ledger has what the runtime
has reported for it. -/
def Survives (o : Outside ρ) (strategy : StrategyInstance) (w : Worker ρ β) : Prop :=
  ∀ t e e' bar run l, w.lastFor t = some e → (e.2.result.status = .done ∨ e.2.result.status = .skipped) →
    w.lastReport t = some e' → e'.2.bar = some bar → e'.2.run = some run → w.executor.ledger = some l →
    Recorded o strategy l e'.1 bar run.result

/-- The delivery does not fail in writing the index. If it completes a bar that is not
skipped, and the save succeeds, then no write of the ledger raises, and every earlier
bar that has reported is at or before the latest snapshot. -/
def Uninterrupted (o : Outside ρ) (c : Codec (Option ρ) β) (strategy : StrategyInstance) (w : Worker ρ β)
    (d : Delivery ρ) : Prop :=
  (∀ e, d.saveFault ≠ some (.atIndex e)) ∧
  ∀ bar resume r encoded, d.prepare o = .ok (strategy, bar) →
    (∀ m ∈ (w.executor.stateStore.latestSnapshotMetadata strategy.strategyId (stateFilter strategy bar)).1,
      m.barTime < bar.time) →
    (loadRuntimeSnapshot c w.executor.stateStore strategy bar).1 = .ok resume →
    d.runStrategy strategy bar resume = .ok r → r.completed = true → d.saveFault = none →
    c.encodePayload ((d.runtimeState strategy bar r.resumeOut).snapshotPayload none) = .ok encoded →
    (∀ l ∈ w.executor.ledger, d.LedgerAccepts o strategy bar r l) ∧
    ∀ t e, w.lastReport t = some e → t < bar.time → ∃ m ∈
      (w.executor.stateStore.latestSnapshotMetadata strategy.strategyId (stateFilter strategy bar)).1, t ≤ m.barTime

/-- What is at or before the last saved bar is in the ledger, and nothing after it is done. -/
structure Effects (o : Outside ρ) (c : Codec (Option ρ) β) (strategy : StrategyInstance) (timeframe : String)
    (w : Worker ρ β) (last : Option (Saved ρ)) : Prop where
  tracks : Tracks c w.executor.stateStore strategy timeframe last
  ledger : ∃ l, w.executor.ledger = some l
  dated : ∀ t e bar, w.lastReport t = some e → e.2.bar = some bar → bar.time = t
  covered : ∀ t e bar run l, w.lastReport t = some e → e.2.bar = some bar → e.2.run = some run →
    w.executor.ledger = some l → (∃ s ∈ last, t ≤ s.barTime) → Recorded o strategy l e.1 bar run.result
  settled : ∀ t e, w.lastFor t = some e → (e.2.result.status = .done ∨ e.2.result.status = .skipped) →
    ∃ s ∈ last, t ≤ s.barTime

namespace Effects
variable {last : Option (Saved ρ)}

section
variable (h : Effects o c strategy timeframe w last)
include h

theorem survives : w.Survives o strategy := by
  intro t e e' bar run l hlast hstatus hreport hbar hrun hl
  exact h.covered t e' bar run l hreport hbar hrun hl (h.settled t e hlast hstatus)

theorem keep (hexec : (w.executor.process o c d).executor = w.executor)
    (hstatus : ∀ t, d.job.input.barTime = some t → ((w.executor.process o c d).result.status = .done ∨
      (w.executor.process o c d).result.status = .skipped) → ∃ s ∈ last, t ≤ s.barTime)
    (hrun : ∀ t, d.job.input.barTime = some t → (w.executor.process o c d).run.isSome →
      (∀ s ∈ last, s.barTime < t) ∧ ∀ bar ∈ (w.executor.process o c d).bar, bar.time = t) :
    Effects o c strategy timeframe (w.step o c d) last := by
  have hsame : (w.step o c d).executor = w.executor := hexec
  refine ⟨hsame ▸ h.tracks,hsame ▸ h.ledger,fun t e bar hreport hbar => ?_,?_,fun t e hfor hdone => ?_⟩
  · rw [lastReport_step] at hreport
    split at hreport <;> rename_i hnow
    · cases hreport
      exact (hrun t hnow.1 hnow.2).2 bar hbar
    · exact h.dated t e bar hreport hbar
  · intro t e bar run l hreport hbar hr hl hcov
    rw [hsame] at hl
    rw [lastReport_step] at hreport
    split at hreport <;> rename_i hnow
    · obtain ⟨s,hs,hle⟩ := hcov
      exact absurd ((hrun t hnow.1 hnow.2).1 s hs) (not_lt.mpr hle)
    · exact h.covered t e bar run l hreport hbar hr hl hcov
  · rw [lastFor_step] at hfor
    split at hfor <;> rename_i hnow
    · cases hfor
      exact hstatus t hnow hdone
    · exact h.settled t e hfor hdone

theorem save {bar : Bar} {run : CompletedRun ρ} {snap : SnapshotMetadata}
    {stateStore : Session β} {resume : Option ρ} (hbar : d.job.input.barTime = some bar.time)
    (hnew : ∀ s ∈ last, s.barTime < bar.time)
    (htracks : Tracks c stateStore strategy timeframe (some ⟨bar.time,resume⟩))
    (hp : w.executor.process o c d = finish o { w.executor with stateStore := stateStore } d strategy bar run
      (some snap))
    {l l' : StrategyLedger} (hl : w.executor.ledger = some l)
    (hl' : (w.executor.process o c d).executor.ledger = some l') {frame : Timeframe}
    (hframe : o.parseTimeframe strategy.timeframe = .ok frame)
    (hmirrored : Mirrored o d strategy frame bar run.result l l')
    (hearlier : ∀ t e, w.lastReport t = some e → t < bar.time → ∃ s ∈ last, t ≤ s.barTime) :
    Effects o c strategy timeframe (w.step o c d) (some ⟨bar.time,resume⟩) := by
  have hbar' : (w.executor.process o c d).bar = some bar := by rw [hp, finish_bar]
  have hrun' : (w.executor.process o c d).run = some run := by rw [hp, finish_run]
  have htime : ∀ {t}, d.job.input.barTime = some t → bar.time = t := fun ht => Option.some.inj (hbar.symm.trans ht)
  refine ⟨?_,⟨l',hl'⟩,fun t e b hreport hb => ?_,?_,fun t e hfor hdone => ?_⟩
  · rw [Worker.step, hp, finish_stateStore]
    exact htracks
  · rw [lastReport_step] at hreport
    split at hreport <;> rename_i hnow
    · cases hreport
      cases hbar'.symm.trans hb
      exact htime hnow.1
    · exact h.dated t e b hreport hb
  · intro t e b r l₁ hreport hb hr hl₁ hcov
    cases hl'.symm.trans hl₁
    rw [lastReport_step] at hreport
    split at hreport <;> rename_i hnow
    · cases hreport
      cases hbar'.symm.trans hb
      cases hrun'.symm.trans hr
      exact .of_mirrored hframe hmirrored
    · -- the report of another bar, which is earlier and therefore recorded already
      obtain ⟨_,⟨⟩,hle⟩ := hcov
      have hne : t ≠ bar.time := by
        rintro rfl
        exact hnow ⟨hbar,by rw [hrun']; rfl⟩
      have hlt : t < bar.time := lt_of_le_of_ne hle hne
      have hrecorded := h.covered t e b r l hreport hb hr hl (hearlier t e hreport hlt)
      exact hrecorded.later hframe hmirrored (h.dated t e b hreport hb ▸ hlt)
  · refine ⟨_,rfl,?_⟩
    rw [lastFor_step] at hfor
    split at hfor <;> rename_i hnow
    · exact (htime hnow).ge
    · obtain ⟨s,hs,hle⟩ := h.settled t e hfor hdone
      exact hle.trans (hnew s hs).le

/-- A delivery keeps the ledger up to what was reported. -/
theorem step (hc : c.Faithful) (hd : d.For strategy timeframe)
    (hmode : d.job.jobType ≠ .observeBarProcess) (hq : w.Uninterrupted o c strategy d) :
    ∃ last', Effects o c strategy timeframe (w.step o c d) last' := by
  obtain ⟨hfault,hq⟩ := hq
  have hcases := processes (o := o) hc h.tracks hd hfault
  generalize hp : w.executor.process o c d = p at hcases
  cases hcases with
  | failed =>
    refine ⟨last,h.keep (by rw [hp]) ?_ ?_⟩
    · rw [hp]
      exact fun _ _ hdone => absurd hdone (failed_unsettled d _)
    · rw [hp]
      rintro _ _ ⟨⟩
  | skipped _ s _ hprepare hlast hle =>
    refine ⟨last,h.keep (by rw [hp]) (fun t ht _ => ⟨s,hlast,?_⟩) ?_⟩
    · obtain ⟨-,hbar,-⟩ := hd.of_prepare hprepare
      cases hbar.symm.trans ht
      exact hle
    · rw [hp]
      rintro _ _ ⟨⟩
  | unsaved _ _ _ hprepare hnew =>
    refine ⟨last,h.keep (by rw [hp]) ?_ fun t ht _ => ?_⟩
    · rw [hp]
      exact fun _ _ hdone => absurd hdone (failed_unsettled d _)
    · obtain ⟨-,hbar,-⟩ := hd.of_prepare hprepare
      cases hbar.symm.trans ht
      refine ⟨hnew,fun b hb => ?_⟩
      rw [hp] at hb
      cases hb
      rfl
  | saved bar run _ stateStore hprepare hnew hresume hrun hcompleted hsave hencoded _ htracks =>
    obtain ⟨-,hbar,hframe'⟩ := hd.of_prepare hprepare
    obtain ⟨encoded,hencoded⟩ := hencoded
    obtain ⟨l,hl⟩ := h.ledger
    have hload := h.tracks.load hframe' hnew
    -- the latest snapshot is that of the last saved bar
    have hlatest : ∀ m ∈
      (w.executor.stateStore.latestSnapshotMetadata strategy.strategyId (stateFilter strategy bar)).1,
        ∃ s ∈ last, m.barTime = s.barTime := by
      intro m hm
      cases last with
      | none =>
        rw [h.tracks.latest_none] at hm
        cases hm
      | some s =>
        obtain ⟨m',hm',htime'⟩ := h.tracks.latest_some hframe'
        rw [hm'] at hm
        cases hm
        exact ⟨s,rfl,htime'⟩
    obtain ⟨haccepts,hearlier⟩ := hq bar run.resumeState run.result encoded hprepare
      (fun m hm => by
        obtain ⟨s,hs,he⟩ := hlatest m hm
        exact he ▸ hnew s hs) (by rw [hload, hresume]) hrun hcompleted hsave hencoded
    have haccept := haccepts l hl
    obtain ⟨frame,hframe⟩ := haccept.timeframe
    obtain ⟨n,ledger,hrecord⟩ := recordLedger_of_accepts hmode haccept
    obtain ⟨l',rfl,hmirrored⟩ := recordLedger_eq_ok hframe hmode hrecord
    refine ⟨_,h.save hbar hnew htracks hp hl ?_ hframe hmirrored fun t e hreport hlt => ?_⟩
    · rw [hp, finish_ledger, hl, hrecord]
    · obtain ⟨m,hm,hle⟩ := hearlier t e hreport hlt
      obtain ⟨s,hs,he⟩ := hlatest m hm
      exact ⟨s,hs,he ▸ hle⟩

end

end Effects

theorem effects_create {disk : Disk β} (hdisk : disk.Sound) (hnone : disk.entries strategy.strategyId = [])
    (intervalBars maxSnapshots : ℤ) (ledger : StrategyLedger) :
    Effects o c strategy timeframe (create disk intervalBars maxSnapshots (some ledger)) none := by
  have hstart : (create disk intervalBars maxSnapshots (some ledger) : Worker ρ β).Chained c strategy timeframe :=
    chained_create hdisk hnone intervalBars maxSnapshots (some ledger)
  have hreport : ∀ t, (create disk intervalBars maxSnapshots (some ledger) : Worker ρ β).lastReport t = none :=
    fun _ => rfl
  have hfor : ∀ t, (create disk intervalBars maxSnapshots (some ledger) : Worker ρ β).lastFor t = none := fun _ => rfl
  refine ⟨hstart.tracks,⟨ledger,rfl⟩,fun t e bar h => ?_,fun t e bar run l h => ?_,fun t e h => ?_⟩
  · rw [hreport] at h
    cases h
  · rw [hreport] at h
    cases h
  · rw [hfor] at h
    cases h

end Worker

/-- In every run of paper or live jobs of a strategy whose deliveries are not
interrupted between the save and the ledger, the ledger has what was reported for
every bar that is done or skipped. -/
theorem ledger_effects_survive (o : Outside ρ) (c : Codec (Option ρ) β) (hc : c.Faithful) (ops : List (Op (Option ρ)))
    (intervalBars maxSnapshots : ℤ) (ledger : StrategyLedger) (strategy : StrategyInstance) (timeframe : String)
    (hnone : (run (Directory.step c) {} ops).disk.entries strategy.strategyId = []) (deliveries : List (Delivery ρ))
    (hfor : ∀ d ∈ deliveries, d.For strategy timeframe ∧ d.job.jobType ≠ .observeBarProcess)
    (hsafe : EachStep (Worker.step o c) (Worker.Uninterrupted o c strategy)
      (.create (run (Directory.step c) {} ops).disk intervalBars maxSnapshots (some ledger)) deliveries) :
    Always (Worker.step o c) (Worker.Survives o strategy)
      (.create (run (Directory.step c) {} ops).disk intervalBars maxSnapshots (some ledger)) deliveries := by
  have hstart : Worker.Effects o c strategy timeframe
      (.create (run (Directory.step c) {} ops).disk intervalBars maxSnapshots (some ledger)) none :=
    Worker.effects_create (Directory.sound_run c ops).disk hnone intervalBars maxSnapshots ledger
  refine (hsafe.and_mem hfor).always (I := fun w : Worker ρ β => ∃ last, w.Effects o c strategy timeframe last) ?_ ?_
    ⟨none,hstart⟩
  · rintro w d ⟨last,h⟩ ⟨hq,hd,hmode⟩
    exact h.step hc hd hmode hq
  · rintro w ⟨last,h⟩
    exact h.survives

def ClosedTrade.sample (id : String) (exitTime : ℤ) : ClosedTrade := { id := some id, exitTime := some exitTime }

def reportTrades (trades : List ClosedTrade) (_ : Option ℕ) : RuntimeResult ℕ :=
  { rawResult := { closedTrades := trades } }

def Delivery.runtimeFails (d : Delivery ρ) (e : String) : Delivery ρ := { d with runStrategy := fun _ _ _ => .error e }

theorem retried_bar_survives :
    let deliveries := [(Delivery.sample 1 (reportTrades [.sample "t" 1])).runtimeFails "boom",
      Delivery.sample 1 (reportTrades [.sample "t" 1])]
    (run (Worker.step .plain (Codec.plain (Option ℕ))) (.create {} 1 64 (some {})) deliveries).log.map
        (fun e => e.2.result.status) = [.failed, .done] ∧
      Always (Worker.step .plain (Codec.plain (Option ℕ))) (Worker.Survives .plain .sample)
        (.create {} 1 64 (some {})) deliveries := by
  refine ⟨rfl,ledger_effects_survive .plain (Codec.plain (Option ℕ))
    (plain_faithful _) [] 1 64 {} .sample "1m" rfl _ ?_ ?_⟩
  · intro d hd
    rcases mem_cons.mp hd with rfl | hd
    · have hfor := sample_for 1 (reportTrades [.sample "t" 1])
      exact ⟨⟨hfor.strategy,hfor.bars⟩,by decide⟩
    · rw [mem_singleton.mp hd]
      exact ⟨sample_for 1 (reportTrades [.sample "t" 1]),by decide⟩
  · have hsave : ∀ e, (none : Option SaveFault) ≠ some (.atIndex e) := fun _ h => Option.some_ne_none _ h.symm
    refine ⟨⟨hsave,?_⟩,⟨hsave,?_⟩,trivial⟩
    · intro bar resume r encoded hprepare hlatest hload hrun
      cases hrun
    · intro bar resume r encoded hprepare hlatest hload hrun hcompleted _ hencoded
      cases hprepare
      cases hrun
      refine ⟨fun l hl => ?_,fun t e hreport => ?_⟩
      · cases hl
        exact ⟨⟨_,rfl⟩,rfl,fun _ _ => rfl,nodup_singleton _,fun _ _ _ hrow => absurd hrow not_mem_nil⟩
      · -- the first delivery has not reported
        rw [Worker.lastReport_step, if_neg fun h => Bool.false_ne_true h.2] at hreport
        cases hreport

/-- A failed insert, and a failed save that a later bar overtakes. -/
theorem ledger_effects_lost :
    let step := Worker.step (β := Payload (Option ℕ)) .plain (Codec.plain (Option ℕ))
    let start := Worker.create {} 1 64 (some {})
    let insertFails := { Delivery.sample 1 (reportTrades [.sample "t" 1]) with
      tradeFault := fun _ => some "database is locked" }
    let saveFails := { Delivery.sample 1 (reportTrades [.sample "t" 1]) with
      saveFault := some (.beforeIndex (.other "no space left on device")) }
    (let w := run step start [insertFails, .sample 1 (reportTrades [.sample "t" 1])]
     w.log.map (fun e => e.2.result.status) = [.failed, .skipped] ∧ ¬w.Survives .plain .sample) ∧
    (let w := run step start [saveFails, .sample 2 (reportTrades [.sample "t" 2]),
      .sample 1 (reportTrades [.sample "t" 1])]
     w.log.map (fun e => e.2.result.status) = [.failed, .done, .skipped] ∧ ¬w.Survives .plain .sample) := by
  refine ⟨⟨rfl,fun h => ?_⟩,rfl,fun h => ?_⟩
  · have hrecorded := h 1 _ _ _ _ _ rfl (.inr rfl) rfl rfl rfl rfl
    obtain ⟨frame,createdAt,now,-,hrow⟩ := hrecorded.trades _ mem_cons_self
    exact not_mem_nil hrow
  · have hrecorded := h 1 _ _ _ _ _ rfl (.inr rfl) rfl rfl rfl rfl
    obtain ⟨frame,createdAt,now,-,hrow⟩ := hrecorded.trades _ mem_cons_self
    -- the only row is that of the trade of the second bar
    have hexit : some (1 : ℤ) = some 2 := congrArg StrategyTrade.exitTime (mem_singleton.mp hrow)
    exact absurd hexit (by decide)

end OpenPine.Workers
