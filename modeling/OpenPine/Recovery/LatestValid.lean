import OpenPine.Recovery.Rebuild
import OpenPine.State.Readable

/-! # Finding the latest valid snapshot

A save supersedes the snapshots before it, and a rebuild looks at active ones only. So
after `mark_invalid` the older snapshots are out of reach, though they are retained and
valid, unless the active snapshot itself lies before the repaired range.
-/
namespace OpenPine.Recovery.StateRebuilder
open State Runs Python Session List
variable {σ ρ β : Type}

structure Usable (d : Disk β) (sid : String) (t : ℤ) (m : SnapshotMetadata) : Prop where
  retained : m ∈ d.entries sid
  valid : m.status ≠ .invalid
  before : m.barTime < t

structure LatestUsable (d : Disk β) (sid : String) (t : ℤ) (m : SnapshotMetadata) : Prop where
  usable : Usable d sid t m
  latest : ∀ m', Usable d sid t m' → m'.barTime ≤ m.barTime

/-- If there is a usable snapshot, the rebuild starts from the latest one and does not raise. -/
def FindsLatest (c : Codec σ β) (r : StateRebuilder σ ρ) (x : Session β) (sid : String) (t : ℤ) (reason : String)
    (now : ℤ) : Prop :=
  ∀ m₀, Usable x.disk sid t m₀ → ∃ m state, LatestUsable x.disk sid t m ∧
    Session.loadState c x.disk m = .ok (some state) ∧ (startState c x sid t).1 = .ok state ∧
    ∃ rebuilt x', r.rebuild c x sid t reason now = (.ok rebuilt, x')

variable {x : Session β}

section
variable (h : x.disk.Sound) (sid : String)
include h sid

/-- Invalidation keeps the usable snapshots. -/
theorem usable_markInvalid (t : ℤ) (m : SnapshotMetadata) :
    Usable (x.markInvalid sid (some t)).disk sid t m ↔ Usable x.disk sid t m := by
  have hout : ∀ m : SnapshotMetadata, m.barTime < t → m.invalidate (some t) = m := by
    intro m hlt
    exact if_neg fun hrange => absurd (hrange t rfl) (not_le.mpr hlt)
  constructor
  · rintro ⟨hm,hvalid,hlt⟩
    rw [markInvalid_entries h, if_pos rfl] at hm
    obtain ⟨m₀,hm₀,rfl⟩ := mem_map.mp hm
    have hrange : ¬m₀.InRange (some t) := by
      intro hrange
      rw [SnapshotMetadata.invalidate, if_pos hrange] at hvalid
      exact hvalid rfl
    rw [SnapshotMetadata.invalidate, if_neg hrange] at hvalid hlt ⊢
    exact ⟨hm₀,hvalid,hlt⟩
  · rintro ⟨hm,hvalid,hlt⟩
    refine ⟨?_,hvalid,hlt⟩
    rw [markInvalid_entries h, if_pos rfl]
    exact mem_map.mpr ⟨m,hm,hout m hlt⟩

theorem latestUsable_markInvalid (t : ℤ) (m : SnapshotMetadata) :
    LatestUsable (x.markInvalid sid (some t)).disk sid t m ↔ LatestUsable x.disk sid t m := by
  constructor
  · rintro ⟨hm,hlatest⟩
    exact ⟨(usable_markInvalid h sid t m).mp hm,fun m' hm' => hlatest m' ((usable_markInvalid h sid t m').mpr hm')⟩
  · rintro ⟨hm,hlatest⟩
    exact ⟨(usable_markInvalid h sid t m).mpr hm,fun m' hm' => hlatest m' ((usable_markInvalid h sid t m').mp hm')⟩

theorem latest_markInvalid (since : Option ℤ) (m : SnapshotMetadata) :
    ((x.markInvalid sid since).latestSnapshotMetadata sid {}).1 = some m ↔
      m ∈ (x.markInvalid sid since).disk.entries sid ∧ m.status = .active := by
  have hkept := kept_markInvalid h sid since
  have hcurrent : (x.markInvalid sid since).reloadIfChanged = x.markInvalid sid since :=
    reloadIfChanged_of_current persist_signature
  have hof : (x.markInvalid sid since).store.snapshots.of sid = (x.markInvalid sid since).disk.entries sid :=
    (entries_persist (x.reload_keyed.markInvalid sid since) sid).symm
  have hsome := StateStore.latest_eq_some (hkept.cached.activeOnce sid) (f := {}) (m := m)
  rw [hof] at hsome
  simpa [latestSnapshotMetadata, hcurrent, SnapshotFilter.Admits] using hsome

end

theorem findsLatest_iff {c : Codec σ β} (hc : c.Faithful) (ht : c.Total) (h : x.disk.Sound)
    (hr : x.disk.Readable c) (hpolicy : x.store.savePolicy ≠ .interval) (time : ρ → ℤ) (history : List ρ)
    (step : σ → ρ → σ) (sid : String) (t : ℤ) (reason : String) (now : ℤ) :
    FindsLatest c (ofHistory time history step) (x.markInvalid sid (some t)) sid t reason now ↔
      ∀ m₀, Usable x.disk sid t m₀ → ∃ m, LatestUsable x.disk sid t m ∧ m.status = .active := by
  have hkept := kept_markInvalid h sid (some t)
  have hread : (x.markInvalid sid (some t)).disk.Readable c := readable_perform hc h hr (.markInvalid sid (some t))
  constructor
  · intro hfinds m₀ hm₀
    obtain ⟨m,state,hlatest,hload,hstart,-⟩ := hfinds m₀ ((usable_markInvalid h sid t m₀).mpr hm₀)
    obtain ⟨a,ha,hlt,hload'⟩ := startState_ok hkept.sound hkept.cached (Prod.ext hstart rfl)
    obtain ⟨hin,hactive⟩ := (latest_markInvalid h sid _ a).mp ha
    -- the snapshot that was loaded and the latest one are of the same bar
    obtain ⟨state₁,hload₁,hdesc₁⟩ := loadState_of_readable hread hlatest.usable.retained
    obtain ⟨state₂,hload₂,hdesc₂⟩ := loadState_of_readable hread hin
    cases hload₁.symm.trans hload
    cases hload₂.symm.trans hload'
    have husable : Usable (x.markInvalid sid (some t)).disk sid t a := ⟨hin,by rw [hactive]; nofun,hlt⟩
    refine ⟨a,(latestUsable_markInvalid h sid t a).mp ⟨husable,fun m' hm' => ?_⟩,hactive⟩
    rw [hdesc₂.barTime, ← hdesc₁.barTime]
    exact hlatest.latest m' hm'
  · intro hcond m₀ hm₀
    obtain ⟨m,hlatest,hactive⟩ := hcond m₀ ((usable_markInvalid h sid t m₀).mp hm₀)
    have hlatest' := (latestUsable_markInvalid h sid t m).mpr hlatest
    obtain ⟨state,hload,hdesc⟩ := loadState_of_readable hread hlatest'.usable.retained
    have hm := (latest_markInvalid h sid (some t) m).mpr ⟨hlatest'.usable.retained,hactive⟩
    have hstart := startState_of_latest hkept.sound hkept.cached hm hlatest.usable.before hload
    refine ⟨m,state,hlatest',hload,by rw [hstart],?_⟩
    -- the replayed state is saved under the same strategy
    have hid : (replayed time step history t state).strategyId = sid :=
      (foldl_advance_strategyId _ state).trans
        (hdesc.strategyId.symm.trans (Disk.strategyId_of_mem_entries hlatest'.usable.retained))
    have hkept' := kept_reloadIfChanged hkept.sound hkept.cached
    have hdue : SaveDue (x.markInvalid sid (some t)).reloadIfChanged.store
        (replayed time step history t state).strategyId := by
      rw [saveDue_reloadIfChanged]
      rintro ⟨hinterval,-⟩
      refine hpolicy (Eq.trans ?_ hinterval)
      simp only [markInvalid, persist, reload, StateStore.loadMetadataIndex]
      split <;> rfl
    obtain ⟨encoded,henc⟩ := ht ((replayed time step history t state).snapshotPayload none)
    obtain ⟨snap,d,packed,-,he⟩ := saveSnapshot_of_due hkept'.sound hdue
      (hid.symm ▸ hkept.sound.paths hlatest'.usable.retained) henc reason now
    exact ⟨_,_,rebuild_of_saved hstart he⟩

/-- After any run and `mark_invalid`, a rebuild finds the latest valid snapshot exactly if
that is the active one, or there is none. -/
theorem rebuild_finds_latest_iff (c : Codec σ β) (hc : c.Faithful) (ht : c.Total) (ops : List (Op σ)) (s : StateStore)
    (hpolicy : s.savePolicy ≠ .interval) (time : ρ → ℤ) (history : List ρ) (step : σ → ρ → σ) (sid : String) (t : ℤ)
    (reason : String) (now : ℤ) :
    let disk := (run (Directory.step c) {} ops).disk
    FindsLatest c (ofHistory time history step) (Session.markInvalid ⟨s,disk⟩ sid (some t)) sid t reason now ↔
      ∀ m₀, Usable disk sid t m₀ → ∃ m, LatestUsable disk sid t m ∧ m.status = .active :=
  findsLatest_iff hc ht (Directory.sound_run c ops).disk (Directory.readable_run hc ops) hpolicy time history step sid t
    reason now

def twoBarsSaved : List (Op (List ℤ)) :=
  [.create .everyBar 1 64, .call 0 (.save (.sample 1 [1]) "scheduled" false none 100),
    .call 0 (.save (.sample 2 [1, 2]) "scheduled" false none 101)]

theorem rebuild_finds_active_snapshot :
    let dir := run (Directory.step (Codec.plain (List ℤ))) {} twoBarsSaved
    ∀ s ∈ dir.stores, FindsLatest (Codec.plain (List ℤ)) (ofHistory id [1, 2, 3] collect)
      (Session.markInvalid ⟨s,dir.disk⟩ "s" (some 3)) "s" 3 "data_repaired" 200 := by
  intro dir s hs
  obtain rfl := mem_singleton.mp hs
  refine (rebuild_finds_latest_iff (Codec.plain (List ℤ)) (plain_faithful _) (plain_total _) twoBarsSaved _ ?_ id
    [1, 2, 3] collect "s" 3 "data_repaired" 200).mpr fun _ _ => ?_
  · decide
  refine ⟨_,⟨⟨mem_cons_of_mem _ mem_cons_self,nofun,by decide⟩,fun m' hm' => ?_⟩,rfl⟩
  have hmem := hm'.retained
  rcases mem_cons.mp hmem with rfl | hmem
  · decide
  · obtain rfl := mem_singleton.mp hmem
    decide

/-- The bars at 1 and 2 are saved, and the bar at 2 is repaired. The snapshot of the bar at
1 is retained and valid, but superseded, and the rebuild raises. -/
theorem rebuild_misses_superseded_snapshot :
    let dir := run (Directory.step (Codec.plain (List ℤ))) {} twoBarsSaved
    ∀ s ∈ dir.stores,
      let x := Session.markInvalid ⟨s,dir.disk⟩ "s" (some 2)
      (∃ m, Usable x.disk "s" 2 m) ∧
      ((ofHistory id [1, 2, 3] collect).rebuild (Codec.plain (List ℤ)) x "s" 2 "data_repaired" 200).1 =
        .error (.stateInconsistency "No compatible snapshot before 2 for s") := by
  intro dir s hs
  obtain rfl := mem_singleton.mp hs
  exact ⟨⟨_,mem_cons_self,nofun,by decide⟩,rfl⟩

end OpenPine.Recovery.StateRebuilder
