import OpenPine.State.Directory

/-! # The interval policy

With `save_policy` `INTERVAL`, a call of `save_snapshot` is counted and skipped as long as the
counter of its strategy is below `save_interval_bars`.
-/
namespace OpenPine.State
open Python Runs Session
variable {σ β : Type}

structure SaveRequest (σ : Type) where
  state : StrategyState σ
  reason : String := "scheduled"
  failedBar : Bool := false
  dataFingerprint : Option String := none
  now : ℤ := 0

/-- A store and how often it was called for each strategy with a bar that had not failed. -/
structure Counted (β : Type) where
  session : Session β
  calls : String → ℕ

variable (c : Codec σ β)

def SaveRequest.save (r : SaveRequest σ) (x : Session β) : Except StateError (Option SnapshotMetadata) × Session β :=
  x.saveSnapshot c r.state r.reason r.failedBar r.dataFingerprint r.now

def Counted.step (w : Counted β) (r : SaveRequest σ) : Counted β where
  session := (r.save c w.session).2
  calls sid := if sid = r.state.strategyId ∧ r.failedBar = false then w.calls sid + 1 else w.calls sid

/-- A bar that has not failed is saved exactly if its number is a multiple of the interval. -/
def Counted.Regular (interval : ℕ) (w : Counted β) (r : SaveRequest σ) : Prop :=
  (∃ snap, (r.save c w.session).1 = .ok (some snap)) ↔ r.failedBar = false ∧ interval ∣ w.calls r.state.strategyId + 1

/-- The counter of a strategy is right until the interval is over. -/
structure Counted.Counts (interval : ℕ) (w : Counted β) : Prop where
  policy : w.session.store.savePolicy = .interval
  bars : w.session.store.saveIntervalBars = interval
  calls : ∀ sid, w.calls sid ≤ interval → barsSince w.session.store sid = w.calls sid

variable {c} {x : Session β} {r : SaveRequest σ} {w : Counted β} {interval : ℕ}

theorem SaveRequest.save_failed (h : r.failedBar = true) : r.save c x = (.ok none, x) := by
  simp [save, saveSnapshot, startSave, h]

theorem SaveRequest.save_skipped (h : r.failedBar = false) (hpolicy : x.store.savePolicy = .interval)
    (hbars : barsSince x.store r.state.strategyId < x.store.saveIntervalBars) :
    r.save c x = (.ok none, { x with store := { x.store with
      barsSinceLastSave := Dict.put x.store.barsSinceLastSave r.state.strategyId
        (barsSince x.store r.state.strategyId + 1) } }) := by
  simp [save, saveSnapshot, startSave, h, hpolicy, hbars]

theorem SaveRequest.save_config (c : Codec σ β) (r : SaveRequest σ) (x : Session β) :
    (r.save c x).2.store.savePolicy = x.store.savePolicy ∧
      (r.save c x).2.store.saveIntervalBars = x.store.saveIntervalBars ∧
      ∀ sid, sid ≠ r.state.strategyId → barsSince (r.save c x).2.store sid = barsSince x.store sid := by
  have hput : ∀ (s : StateStore) (n : ℤ) (sid : String), sid ≠ r.state.strategyId →
      barsSince { s with barsSinceLastSave := Dict.put s.barsSinceLastSave r.state.strategyId n } sid =
        barsSince s sid := by
    intro s n sid hsid
    simp [barsSince, Dict.get?_put, hsid.symm]
  unfold save saveSnapshot startSave
  dsimp only
  split_ifs
  · exact ⟨rfl,rfl,fun _ _ => rfl⟩
  · exact ⟨rfl,rfl,hput _ _⟩
  · cases hwrite : writeSnapshot c x.disk r.state r.reason r.dataFingerprint r.now with
    | error => exact ⟨rfl,rfl,fun _ _ => rfl⟩
    | ok p =>
      obtain ⟨snap,d⟩ := p
      have hsnap : snap.strategyId = r.state.strategyId := by
        obtain ⟨_,-,hwrite⟩ := bind_eq_ok.mp hwrite
        obtain ⟨_,-,hwrite⟩ := bind_eq_ok.mp hwrite
        cases hwrite
        rfl
      obtain ⟨hpolicy,hbars,hsince,-⟩ := reload_config { x with disk := d }
      refine ⟨hpolicy,hbars,fun sid hsid => ?_⟩
      have hcommit := hput (reload { x with disk := d }).store 0 sid hsid
      rw [← hsnap] at hcommit
      refine hcommit.trans ?_
      unfold barsSince
      rw [hsince]

/-- The store counts the calls since the last save. -/
theorem Counted.Counts.step (h : w.Counts interval) (r : SaveRequest σ) : (w.step c r).Counts interval := by
  obtain ⟨hpolicy,hbars,hothers⟩ := r.save_config c w.session
  refine ⟨hpolicy.trans h.policy,hbars.trans h.bars,fun sid hle => ?_⟩
  by_cases hsid : sid = r.state.strategyId
  · subst hsid
    cases hfailed : r.failedBar with
    | true =>
      simp only [Counted.step, hfailed, SaveRequest.save_failed hfailed] at hle ⊢
      simpa using h.calls _ (by simpa using hle)
    | false =>
      simp only [Counted.step, hfailed, and_self, if_true] at hle ⊢
      have hcalls := h.calls r.state.strategyId (by omega)
      have hlt : barsSince w.session.store r.state.strategyId < w.session.store.saveIntervalBars := by
        rw [hcalls, h.bars]
        omega
      rw [SaveRequest.save_skipped hfailed h.policy hlt]
      simp [barsSince, Dict.get?_put, ← hcalls]
  · simp only [Counted.step, hsid, false_and, if_false] at hle ⊢
    exact (hothers sid hsid).trans (h.calls sid hle)

/-- A call keeps to the interval exactly if it is regular. -/
theorem Counted.regular_iff (h : w.Counts interval) (hcalls : ∀ sid, w.calls sid < interval) (r : SaveRequest σ) :
    (∀ sid, (w.step c r).calls sid < interval) ↔ w.Regular c interval r := by
  have hlt : barsSince w.session.store r.state.strategyId < w.session.store.saveIntervalBars := by
    rw [h.calls _ (hcalls _).le, h.bars]
    exact_mod_cast hcalls _
  cases hfailed : r.failedBar with
  | true => simp [Regular, Counted.step, hfailed, SaveRequest.save_failed hfailed, hcalls]
  | false =>
    have hnext := hcalls r.state.strategyId
    have hnot : w.Regular c interval r ↔ ¬interval ∣ w.calls r.state.strategyId + 1 := by
      simp [Regular, hfailed, SaveRequest.save_skipped hfailed h.policy hlt]
    rw [hnot]
    constructor
    · intro hall hdvd
      have hle := Nat.le_of_dvd (Nat.succ_pos _) hdvd
      have hown := hall r.state.strategyId
      simp only [Counted.step, hfailed, and_self, if_true] at hown
      omega
    · intro hdvd sid
      simp only [Counted.step, hfailed, and_true]
      split_ifs with hsid
      · subst hsid
        exact lt_of_le_of_ne hnext fun heq => hdvd (heq ▸ Nat.dvd_refl _)
      · exact hcalls sid

/-- From a new store on, every bar is treated as the interval says exactly as long as no strategy
has got to the first bar that is to be saved. -/
theorem interval_saves_regular_iff (c : Codec σ β) (n : ℕ) (maxSnapshots : ℤ) (d : Disk β)
    (requests : List (SaveRequest σ)) :
    EachStep (Counted.step c)
    (Counted.Regular c (n + 1)) ⟨⟨.create .interval (n + 1) maxSnapshots d,d⟩,fun _ => 0⟩ requests ↔
      Always (Counted.step c) (fun w => ∀ sid, w.calls sid < n + 1)
        ⟨⟨.create .interval (n + 1) maxSnapshots d,d⟩,fun _ => 0⟩
        requests := by
  have hstart : Counted.Counts (n + 1) ⟨⟨.create .interval (n + 1) maxSnapshots d,d⟩,fun _ => 0⟩ := by
    unfold StateStore.create StateStore.loadMetadataIndex
    split
    · exact ⟨rfl,rfl,fun _ _ => rfl⟩
    · exact ⟨rfl,rfl,fun _ _ => rfl⟩
  refine (always_iff_eachStep (fun _ r h => h.step r) (fun _ r h hcalls => ?_) hstart
    (fun _ => n.succ_pos) requests).symm
  exact Counted.regular_iff h hcalls r

/-- With an interval of one bar, the first bar is skipped. -/
theorem every_bar_interval_skips :
    ¬Counted.Regular (Codec.plain ℕ) 1
      ⟨⟨.create .interval 1 64 ({} : Disk (Payload ℕ)),{}⟩,fun _ => 0⟩ { state := .sample 1 10 } := by
  intro h
  obtain ⟨_,hsnap⟩ := h.mpr ⟨rfl,Nat.one_dvd _⟩
  cases hsnap

end OpenPine.State
