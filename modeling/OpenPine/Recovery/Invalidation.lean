import OpenPine.State.Directory

/-! # How long an invalidation lasts

`StateStore.mark_invalid` writes the new status to the index, where nothing turns it
back. `StateRebuilder.invalidate` changes the copy of one store only, so the next
store that reads the index finds the snapshot active. The second path is as durable
as the first exactly if there was nothing active to invalidate.
-/
namespace OpenPine.Recovery
open State Runs Python Session Directory
variable {σ β : Type} {gone : SnapshotId → Prop} {sid : String} {dir : Directory β}

/-- None of the named snapshots is active in the index, and none will be named anew. -/
structure Buried (d : Disk β) (sid : String) (gone : SnapshotId → Prop) : Prop where
  issued : ∀ id, gone id → id < d.issued
  inactive : ∀ m ∈ d.entries sid, gone m.snapshotId → m.status ≠ .active

section Calls
variable {x : Session β}

/-- A call makes no old snapshot active again. -/
theorem perform_active (c : Codec σ β) (h : x.disk.Sound) (call : Call σ) :
    x.disk.issued ≤ (x.perform c call).disk.issued ∧
    ∀ {sid m}, m ∈ (x.perform c call).disk.entries sid → m.status = .active →
      m ∈ x.disk.entries sid ∨ x.disk.issued ≤ m.snapshotId := by
  cases call with
  | save state reason failedBar fp now =>
    simp only [perform]
    rcases saveSnapshot_cases c h state reason failedBar fp now with
      ⟨bars,he⟩ | ⟨e,he⟩ | ⟨snap,d,packed,hwrote,he⟩
    · rw [he]
      exact ⟨le_rfl,fun hm _ => .inl hm⟩
    · rw [he]
      exact ⟨le_rfl,fun hm _ => .inl hm⟩
    · rw [he]
      refine ⟨hwrote.issued.1.trans (Disk.unlinkAll_issued _ _).ge,fun {sid m} hm ha => ?_⟩
      rcases mem_commit_entries hwrote.sound hm with ⟨rfl,-⟩ | ⟨m₀,hm₀,rfl | rfl⟩
      · exact .inr hwrote.issued.2
      · exact .inl (hwrote.entries sid ▸ hm₀)
      · exact absurd ha m₀.supersede_not_active
  | delete id =>
    refine ⟨?_,fun {sid m} hm _ => .inl ?_⟩
    · simp only [perform]
      cases hd : x.reload.store.snapshots.delete id with
      | none => rw [deleteSnapshot_unknown hd, reload_disk]
      | some => rw [deleteSnapshot_known hd, persist_issued, Disk.unlink]
    · rw [perform, deleteSnapshot_entries h] at hm
      exact (List.mem_filter.mp hm).1
  | markInvalid =>
    refine ⟨le_rfl,fun {sid' m} hm ha => .inl ?_⟩
    rw [perform, markInvalid_entries h] at hm
    split at hm
    · obtain ⟨m₀,hm₀,rfl⟩ := List.mem_map.mp hm
      rwa [(SnapshotMetadata.invalidate_active ha).1]
    · exact hm
  | read =>
    rw [perform, reloadIfChanged_disk]
    exact ⟨le_rfl,fun hm _ => .inl hm⟩
  | setSavePolicy => exact ⟨le_rfl,fun hm _ => .inl hm⟩
  | invalidate sid since =>
    have hdisk : (x.perform c (.invalidate sid since)).disk = x.disk := reloadIfChanged_disk x
    rw [hdisk]
    exact ⟨le_rfl,fun hm _ => .inl hm⟩

theorem Buried.perform (hb : Buried x.disk sid gone) (c : Codec σ β) (h : x.disk.Sound) (call : Call σ) :
    Buried (x.perform c call).disk sid gone := by
  obtain ⟨hissued,hactive⟩ := perform_active c h call
  refine ⟨fun id hid => (hb.issued id hid).trans_le hissued,fun m hm hgone ha => ?_⟩
  rcases hactive hm ha with hold | hnew
  · exact hb.inactive m hold hgone ha
  · exact absurd (hb.issued _ hgone) (not_lt.mpr hnew)

theorem mem_of_latest (h : x.disk.Sound) (hc : Cached x.store x.disk) {f : SnapshotFilter} {m : SnapshotMetadata}
    (hm : (x.latestSnapshotMetadata sid f).1 = some m) :
    m ∈ x.disk.entries sid ∧ m.status = .active := by
  have hkept := kept_reloadIfChanged h hc
  obtain ⟨hin,hadm⟩ := (StateStore.latest_eq_some (hkept.cached.activeOnce sid)).mp hm
  have hcur := hkept.cached.current
  rw [reloadIfChanged_disk] at hcur
  exact ⟨hcur (reloadIfChanged_signature x) hin hadm.1,hadm.1⟩

end Calls

/-- What is buried stays so, whichever store is called. -/
theorem Buried.step (hb : Buried dir.disk sid gone) (c : Codec σ β) (h : dir.Sound) (op : Op σ) :
    Buried (dir.step c op).disk sid gone := by
  cases op with
  | create => exact hb
  | call i call =>
    cases hi : dir.stores[i]? with
    | none =>
      rw [step_call_none hi]
      exact hb
    | some s =>
      rw [step_call hi]
      exact Buried.perform (x := ⟨s,dir.disk⟩) hb c h.disk call

def NeverReturned (c : Codec σ β) (dir : Directory β) (sid : String) (gone : SnapshotId → Prop) : Prop :=
  ∀ (later : List (Op σ)) (s : StateStore), s ∈ (run (Directory.step c) dir later).stores →
    ∀ (f : SnapshotFilter) (m : SnapshotMetadata),
      (Session.latestSnapshotMetadata ⟨s,(run (Directory.step c) dir later).disk⟩ sid f).1 = some m → ¬gone m.snapshotId

theorem Buried.neverReturned (hb : Buried dir.disk sid gone) (c : Codec σ β) (h : dir.Sound) :
    NeverReturned c dir sid gone := by
  intro later s hs f m hm hgone
  have hrun := run_invariant (P := fun dir : Directory β => dir.Sound ∧ Buried dir.disk sid gone)
    (fun _ op hI => ⟨hI.1.step c op,hI.2.step c hI.1 op⟩) ⟨h,hb⟩ later
  obtain ⟨hin,ha⟩ := mem_of_latest hrun.1.disk (hrun.1.stores s hs) hm
  exact hrun.2.inactive m hin hgone ha

/-- The snapshots of the strategy that exist now and are in the range. -/
def InRangeNow (d : Disk β) (sid : String) (since : Option ℤ) (id : SnapshotId) : Prop :=
  ∃ m ∈ d.entries sid, m.snapshotId = id ∧ m.InRange since

/-- What `mark_invalid` guarantees. -/
theorem markInvalid_durable (c : Codec σ β) (ops : List (Op σ)) (i : ℕ) (sid : String) (since : Option ℤ) :
    let dir := run (Directory.step c) {} ops
    i < dir.stores.length →
      NeverReturned c (dir.step c (.call i (.markInvalid sid since))) sid (InRangeNow dir.disk sid since) := by
  intro dir hi
  have hsound : dir.Sound := sound_run c ops
  refine Buried.neverReturned ?_ c (hsound.step c _)
  rw [step_call (List.getElem?_eq_getElem hi)]
  refine ⟨fun id hid => ?_,fun m hm hgone ha => ?_⟩
  · obtain ⟨m,hm,rfl,-⟩ := hid
    exact hsound.disk.issued hm
  · obtain ⟨m₁,hm₁,hid,hrange⟩ := hgone
    rw [perform, markInvalid_entries hsound.disk, if_pos rfl] at hm
    obtain ⟨m₀,hm₀,rfl⟩ := List.mem_map.mp hm
    obtain ⟨hsame,hout⟩ := SnapshotMetadata.invalidate_active ha
    rw [hsame] at hid
    exact hout (hsound.disk.eq_of_id hm₁ hm₀ hid ▸ hrange)

theorem saved_bar_never_returned :
    let c := Codec.plain ℕ
    let dir := run (Directory.step c) {} oneSaved
    NeverReturned c (dir.step c (.call 0 (.markInvalid "s" none))) "s" (InRangeNow dir.disk "s" none) :=
  markInvalid_durable _ oneSaved 0 "s" none (by decide)

/-- `StateRebuilder.invalidate` gives the guarantee of `mark_invalid` exactly if no
snapshot in the range was active. -/
theorem invalidate_durable_iff (c : Codec σ β) (ops : List (Op σ)) (i : ℕ) (sid : String) (since : Option ℤ) :
    let dir := run (Directory.step c) {} ops
    NeverReturned c (dir.step c (.call i (.invalidate sid since))) sid (InRangeNow dir.disk sid since) ↔
      ∀ m ∈ dir.disk.entries sid, m.InRange since → m.status ≠ .active := by
  intro dir
  have hsound : dir.Sound := sound_run c ops
  -- the call leaves the directory alone
  have hdisk : (dir.step c (.call i (.invalidate sid since))).disk = dir.disk := by
    cases hi : dir.stores[i]? with
    | none => rw [step_call_none hi]
    | some =>
      rw [step_call hi]
      exact reloadIfChanged_disk _
  constructor
  · intro hnever m hm hrange ha
    -- a store that is opened next loads the snapshot as active
    let dir' := dir.step c (.call i (.invalidate sid since))
    obtain ⟨s,hs⟩ := create_eq_reload .everyBar 1 64 dir'.disk
    have hmem : (reload ⟨s,dir'.disk⟩).store ∈
        (run (Directory.step c) dir' [.create .everyBar 1 64]).stores := by
      rw [← hs]
      exact List.mem_append_right _ List.mem_cons_self
    have hkeep : reloadIfChanged ⟨(reload ⟨s,dir'.disk⟩).store,dir'.disk⟩ =
        reload ⟨s,dir'.disk⟩ := reloadIfChanged_of_current (reload_signature ⟨s,dir'.disk⟩)
    refine hnever [.create .everyBar 1 64] _ hmem {} m ?_ ⟨m,hm,rfl,hrange⟩
    change (reloadIfChanged ⟨(reload ⟨s,dir'.disk⟩).store,dir'.disk⟩).store.latest sid {} = some m
    have hd' : dir'.disk.Sound := hdisk.symm ▸ hsound.disk
    rw [hkeep, StateStore.latest_eq_some ((cached_reload hd').activeOnce sid), of_reload hd']
    refine ⟨?_,by simp [SnapshotFilter.Admits, ha]⟩
    change m ∈ dir'.disk.entries sid
    rwa [hdisk]
  · intro hinactive
    refine Buried.neverReturned ?_ c (hsound.step c _)
    rw [hdisk]
    refine ⟨fun id hid => ?_,fun m hm hgone => ?_⟩
    · obtain ⟨m,hm,rfl,-⟩ := hid
      exact hsound.disk.issued hm
    · obtain ⟨m₀,hm₀,hid,hrange⟩ := hgone
      rw [← hsound.disk.eq_of_id hm₀ hm hid]
      exact hinactive m₀ hm₀ hrange

/-- The snapshot of the bar at 2 is invalidated, and a store opened afterwards returns it. -/
theorem invalidated_snapshot_returned :
    let dir := run (Directory.step (Codec.plain ℕ)) {}
      (oneSaved ++ [.call 0 (.invalidate "s" (some 2)), .create .everyBar 1 64])
    dir.stores.map (fun s => ((Session.latestSnapshotMetadata ⟨s,dir.disk⟩ "s" {}).1.map SnapshotMetadata.barTime)) =
      [none, some 2] := rfl

end OpenPine.Recovery
