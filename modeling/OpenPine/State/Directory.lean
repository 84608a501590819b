import OpenPine.Foundation.Runs
import OpenPine.Recovery.StateRebuilder
import OpenPine.State.Entries

/-! # Stores that share a directory

Any number of stores work on one directory, each call at once. Every store has at
most one active snapshot for a strategy, and a copy of the index that has not been
changed since holds no active snapshot that the index does not have. A snapshot that
was just saved is loaded next, unless it is pruned at once because it is older than
all the retained ones.
-/
namespace OpenPine.State
open Python Runs Recovery Session List
variable {σ β : Type} {m : SnapshotMetadata} {packed : β} {c : Codec σ β} {s : StateStore} {d d' : Disk β}
  {f : SnapshotFilter}

/-- The calls of a store. Every reading call reloads the index if it has changed. -/
inductive Call (σ : Type)
  | save (state : StrategyState σ) (reason : String) (failedBar : Bool) (dataFingerprint : Option String) (now : ℤ)
  | delete (id : SnapshotId)
  | markInvalid (strategyId : String) (since : Option ℤ)
  | read
  | setSavePolicy (policy : SavePolicy) (intervalBars : ℤ)
  /-- `StateRebuilder.invalidate` on this store. -/
  | invalidate (strategyId : String) (since : Option ℤ)

def Session.perform (c : Codec σ β) (x : Session β) : Call σ → Session β
  | .save state reason failedBar fp now => (x.saveSnapshot c state reason failedBar fp now).2
  | .delete id => (x.deleteSnapshot id).2
  | .markInvalid sid since => x.markInvalid sid since
  | .read => x.reloadIfChanged
  | .setSavePolicy policy intervalBars => x.setSavePolicy policy intervalBars
  | .invalidate sid since => StateRebuilder.invalidate x sid since

structure Directory (β : Type) where
  disk : Disk β := {}
  stores : List StateStore := []

inductive Op (σ : Type)
  | create (policy : SavePolicy) (intervalBars maxSnapshots : ℤ)
  | call (i : ℕ) (call : Call σ)

variable {dir : Directory β} (policy : SavePolicy) (intervalBars maxSnapshots : ℤ)

namespace Directory

def step (c : Codec σ β) (dir : Directory β) : Op σ → Directory β
  | .create policy intervalBars maxSnapshots =>
    { dir with stores := dir.stores ++ [.create policy intervalBars maxSnapshots dir.disk] }
  | .call i call =>
    match dir.stores[i]? with
    | none => dir
    | some s =>
      let x := Session.perform c ⟨s,dir.disk⟩ call
      ⟨x.disk,dir.stores.set i x.store⟩

theorem step_call {i : ℕ} (hi : dir.stores[i]? = some s) (c : Codec σ β) (call : Call σ) : dir.step c (.call i call) =
      ⟨(perform c ⟨s,dir.disk⟩ call).disk,dir.stores.set i (perform c ⟨s,dir.disk⟩ call).store⟩ := by
  simp only [step, hi]

theorem step_call_none {i : ℕ} (hi : dir.stores[i]? = none) (c : Codec σ β) (call : Call σ) :
    dir.step c (.call i call) = dir := by simp only [step, hi]

end Directory

/-! ### Copies of the index -/

/-- A copy that is not older than the index holds no active entry that the index lacks. -/
structure Cached (s : StateStore) (d : Disk β) : Prop where
  activeOnce : ∀ sid, ActiveOnce (s.snapshots.of sid)
  signature : ∀ v ∈ s.indexSignature, v ≤ d.signature
  current : s.indexSignature = d.pathSignature → ∀ {sid m}, m ∈ s.snapshots.of sid → m.status = .active →
    m ∈ d.entries sid

def Advances (d d' : Disk β) : Prop :=
  (d'.index = d.index ∧ d'.signature = d.signature) ∨ (d'.index.isSome ∧ d.signature < d'.signature)

theorem Cached.advance (h : Cached s d) (hd : Advances d d') : Cached s d' := by
  rcases hd with ⟨hindex,hsig⟩ | ⟨hsome,hsig⟩
  · refine ⟨h.activeOnce,hsig ▸ h.signature,fun hcur sid m hm ha => ?_⟩
    have hpath : d'.pathSignature = d.pathSignature := by simp only [Disk.pathSignature, hindex, hsig]
    have hentries : d'.entries sid = d.entries sid := by simp only [Disk.entries, hindex]
    rw [hentries]
    exact h.current (hcur.trans hpath) hm ha
  · refine ⟨h.activeOnce,fun v hv => (h.signature v hv).trans hsig.le,fun hcur {_ _} _ _ => ?_⟩
    -- an old copy cannot carry the signature of the new file
    obtain ⟨entries,hentries⟩ := Option.isSome_iff_exists.mp hsome
    have hmem : d'.signature ∈ s.indexSignature := by rw [hcur, Disk.pathSignature, hentries]; rfl
    exact absurd (h.signature _ hmem) (not_le.mpr hsig)

theorem Cached.of_agree {d : Disk β} (hd : d.Sound) (hof : ∀ sid, s.snapshots.of sid = d.entries sid)
    (hsig : s.indexSignature = d.pathSignature) : Cached s d := by
  refine ⟨fun sid => hof sid ▸ hd.activeOnce sid,fun v hv => ?_,fun _ {sid m} hm _ => hof sid ▸ hm⟩
  rw [hsig, Disk.pathSignature] at hv
  obtain ⟨_,_,rfl⟩ := Option.map_eq_some_iff.mp hv
  exact le_rfl

namespace Session
variable {x : Session β}

theorem cached_reload (h : x.disk.Sound) : Cached x.reload.store x.disk := .of_agree h (of_reload h) x.reload_signature

theorem cached_persist (hkeyed : x.store.snapshots.Keyed) (h : x.persist.disk.Sound) :
    Cached x.persist.store x.persist.disk :=
  .of_agree h (fun sid => (entries_persist hkeyed sid).symm) persist_signature

theorem advances_persist {d : Disk β} (h : d.signature ≤ x.disk.signature) : Advances d x.persist.disk :=
  .inr ⟨rfl,Nat.lt_succ_of_le h⟩

/-- What a call guarantees: the index stays sound, the copy stays in step with it, and
the index file only gets newer. -/
structure Kept (x x' : Session β) : Prop where
  sound : x'.disk.Sound
  cached : Cached x'.store x'.disk
  advances : Advances x.disk x'.disk

theorem Kept.of_disk {x' : Session β} (h : x.disk.Sound) (hdisk : x'.disk = x.disk) (hc : Cached x'.store x.disk) :
    Kept x x' := ⟨hdisk ▸ h,hdisk ▸ hc,.inl ⟨by rw [hdisk],by rw [hdisk]⟩⟩

theorem kept_reloadIfChanged (h : x.disk.Sound) (hc : Cached x.store x.disk) : Kept x x.reloadIfChanged := by
  unfold reloadIfChanged
  split
  · exact .of_disk h rfl hc
  · exact .of_disk h rfl (cached_reload h)

theorem kept_commit (x₁ : Session β) (hadv : x.disk.signature ≤ x₁.disk.signature) (h : x₁.disk.Sound)
    {snap : SnapshotMetadata} (hw : Written x₁.disk snap packed) : Kept x (x₁.commit snap) := by
  refine ⟨sound_commit h hw,cached_persist (x₁.reload_keyed.save snap _) (sound_commit h hw),advances_persist ?_⟩
  exact hadv.trans (Disk.unlinkAll_signature _ _).ge

theorem kept_saveSnapshot (c : Codec σ β) (h : x.disk.Sound) (hc : Cached x.store x.disk) (state : StrategyState σ)
    (reason : String) (failedBar : Bool) (fp : Option String) (now : ℤ) :
    Kept x (x.saveSnapshot c state reason failedBar fp now).2 := by
  rcases saveSnapshot_cases c h state reason failedBar fp now with
    ⟨bars,he⟩ | ⟨e,he⟩ | ⟨snap,d,packed,hwrote,he⟩
  · rw [he]
    exact .of_disk h rfl ⟨hc.activeOnce,hc.signature,hc.current⟩
  · rw [he]
    exact .of_disk h rfl hc
  · rw [he]
    exact kept_commit ⟨x.store,d⟩ hwrote.signature.ge hwrote.sound hwrote.written

theorem kept_deleteSnapshot (h : x.disk.Sound) (id : SnapshotId) : Kept x (x.deleteSnapshot id).2 := by
  have hsound := sound_deleteSnapshot h id
  cases hd : x.reload.store.snapshots.delete id with
  | none =>
    rw [deleteSnapshot_unknown hd]
    exact .of_disk h rfl (cached_reload h)
  | some =>
    rw [deleteSnapshot_known hd] at hsound ⊢
    exact ⟨hsound,cached_persist (x.reload_keyed.delete hd) hsound,advances_persist le_rfl⟩

theorem kept_markInvalid (h : x.disk.Sound) (sid : String) (since : Option ℤ) : Kept x (x.markInvalid sid since) :=
  ⟨sound_markInvalid h sid since,
    cached_persist (x.reload_keyed.markInvalid sid since) (sound_markInvalid h sid since),advances_persist le_rfl⟩

theorem kept_invalidate (h : x.disk.Sound) (hc : Cached x.store x.disk) (sid : String) (since : Option ℤ) :
    Kept x (StateRebuilder.invalidate x sid since) := by
  obtain ⟨-,hcached,-⟩ := kept_reloadIfChanged h hc
  refine .of_disk h x.reloadIfChanged_disk ?_
  rw [reloadIfChanged_disk] at hcached
  refine ⟨fun sid' => ?_,hcached.signature,fun hcur sid' m hm ha => ?_⟩
  · change ActiveOnce ((x.reloadIfChanged.store.snapshots.markInvalid sid since).of sid')
    rw [Registry.of_markInvalid]
    split
    · exact (hcached.activeOnce sid').invalidate since
    · exact hcached.activeOnce sid'
  · replace hm : m ∈ (x.reloadIfChanged.store.snapshots.markInvalid sid since).of sid' := hm
    rw [Registry.of_markInvalid] at hm
    split at hm
    · obtain ⟨m₀,hm₀,rfl⟩ := mem_map.mp hm
      have hsame := (SnapshotMetadata.invalidate_active ha).1
      rw [hsame] at ha ⊢
      exact hcached.current hcur hm₀ ha
    · exact hcached.current hcur hm ha

/-- A call of one store keeps directory and copy in agreement. -/
theorem kept_perform (c : Codec σ β) (h : x.disk.Sound) (hc : Cached x.store x.disk) (call : Call σ) :
    Kept x (x.perform c call) := by
  cases call with
  | save state reason failedBar fp now => exact kept_saveSnapshot c h hc state reason failedBar fp now
  | delete id => exact kept_deleteSnapshot h id
  | markInvalid sid since => exact kept_markInvalid h sid since
  | read => exact kept_reloadIfChanged h hc
  | setSavePolicy => exact .of_disk h rfl ⟨hc.activeOnce,hc.signature,hc.current⟩
  | invalidate sid since => exact kept_invalidate h hc sid since

end Session

/-! ### Runs -/

namespace Directory

structure Sound (dir : Directory β) : Prop where
  disk : dir.disk.Sound
  stores : ∀ s ∈ dir.stores, Cached s dir.disk

theorem sound_start : ({} : Directory β).Sound := ⟨Disk.sound_empty,nofun⟩

theorem create_eq_reload (d : Disk β) :
    ∃ s, StateStore.create policy intervalBars maxSnapshots d = (reload ⟨s,d⟩).store := by
  refine ⟨{ savePolicy := policy, saveIntervalBars := intervalBars
            maxSnapshotsPerStrategy := (max 1 maxSnapshots).toNat, keepsOne := by omega },?_⟩
  unfold StateStore.create reload StateStore.loadMetadataIndex
  cases d.index <;> rfl

theorem cached_create {d : Disk β} (h : d.Sound) : Cached (StateStore.create policy intervalBars maxSnapshots d) d := by
  obtain ⟨s,hs⟩ := create_eq_reload policy intervalBars maxSnapshots d
  rw [hs]
  exact cached_reload (x := ⟨s,d⟩) h

/-- Every call of any store keeps the directory sound. -/
theorem Sound.step (c : Codec σ β) (h : dir.Sound) (op : Op σ) : (dir.step c op).Sound := by
  cases op with
  | create policy intervalBars maxSnapshots =>
    refine ⟨h.disk,fun s hs => ?_⟩
    rcases mem_append.mp hs with hs | hs
    · exact h.stores s hs
    · rw [mem_singleton.mp hs]
      exact cached_create policy intervalBars maxSnapshots h.disk
  | call i call =>
    cases hi : dir.stores[i]? with
    | none => exact (step_call_none hi c call).symm ▸ h
    | some s =>
      have hkept := kept_perform c h.disk (h.stores s (mem_of_getElem? hi)) call (x := ⟨s,dir.disk⟩)
      rw [step_call hi]
      refine ⟨hkept.sound,fun s' hs' => ?_⟩
      rcases mem_or_eq_of_mem_set hs' with hs' | rfl
      · exact (h.stores s' hs').advance hkept.advances
      · exact hkept.cached

theorem sound_run (c : Codec σ β) (ops : List (Op σ)) : (run (step c) {} ops).Sound :=
  run_invariant (fun _ op h => h.step c op) sound_start ops

end Directory

/-! ### What a save is followed by -/

theorem StateStore.latest_eq_some {sid : String} (h : ActiveOnce (s.snapshots.of sid)) :
    s.latest sid f = some m ↔ m ∈ s.snapshots.of sid ∧ f.Admits m := by
  have hmem : ∀ {m'}, s.latest sid f = some m' → m' ∈ s.snapshots.of sid ∧ f.Admits m' := by
    intro m' hm'
    obtain ⟨hin,hadm⟩ := mem_filter.mp (argmax_mem hm')
    exact ⟨hin,of_decide_eq_true hadm⟩
  refine ⟨hmem,fun ⟨hin,hadm⟩ => ?_⟩
  cases hl : s.latest sid f with
  | none =>
    have hnil := argmax_eq_none.mp hl
    have : m ∈ (s.snapshots.of sid).filter (fun m => f.Admits m) := mem_filter.mpr ⟨hin,decide_eq_true hadm⟩
    rw [hnil] at this
    cases this
  | some =>
    obtain ⟨hin',hadm'⟩ := hmem hl
    rw [h.unique hin' hin hadm'.1 hadm.1]

def Codec.ReadsBack (c : Codec σ β) (state : StrategyState σ) (dataFingerprint : Option String) : Prop :=
  ∃ packed encoding checksum payload, c.encodePayload (state.snapshotPayload dataFingerprint) =
    .ok (packed, encoding, checksum) ∧
    c.decodePayload packed encoding = .ok payload ∧ (∀ v ∈ nonEmpty payload.checksum, v = checksum) ∧
    StrategyState.fromPayload payload = { state with savedAt := 0 }

/-- Fewer than the limit of the strategy's snapshots are at least as young as the new one. -/
def Session.Retains (x : Session β) (strategyId : String) (barTime now : ℤ) : Prop :=
  (x.disk.entries strategyId).countP (fun m => toLex (barTime, now) ≤ m.age) < x.store.maxSnapshotsPerStrategy

namespace Session
variable {x : Session β} {snap : SnapshotMetadata} {packed : β}

theorem commit_reloadIfChanged : (x.commit snap).reloadIfChanged = x.commit snap :=
  reloadIfChanged_of_current persist_signature

theorem of_commit (sid : String) : (x.commit snap).store.snapshots.of sid = (x.commit snap).disk.entries sid := by
  have hkeyed : (x.reload.register snap).store.snapshots.Keyed := x.reload_keyed.save snap _
  rw [commit, entries_persist hkeyed, persist_snapshots]

theorem mem_commit_iff (h : x.disk.Sound) (hw : Written x.disk snap packed) :
    snap ∈ (x.commit snap).disk.entries snap.strategyId ↔ x.Retains snap.strategyId snap.barTime snap.savedAt := by
  have hfresh : snap ∉ (x.disk.entries snap.strategyId).map .supersede := by
    intro hmem
    obtain ⟨m,hm,he⟩ := mem_map.mp hmem
    exact hw.fresh hm (m.supersede_snapshotId.symm.trans (congrArg SnapshotMetadata.snapshotId he))
  rw [commit_entries h, if_pos rfl, Registry.afterSave, mem_retained_concat hfresh, countP_map]
  simp only [Function.comp_def, SnapshotMetadata.supersede_age]
  rfl

theorem active_after_commit (h : x.disk.Sound) (hm : m ∈ (x.commit snap).disk.entries snap.strategyId)
    (ha : m.status = .active) : m = snap := by
  rw [commit_entries h, if_pos rfl] at hm
  rcases mem_append.mp (mem_of_mem_retained hm) with hold | hnew
  · obtain ⟨m₀,-,rfl⟩ := mem_map.mp hold
    exact absurd ha m₀.supersede_not_active
  · exact mem_singleton.mp hnew

theorem latest_commit (h : x.disk.Sound) (hw : Written x.disk snap packed) :
    (x.commit snap).store.latest snap.strategyId f = some m ↔
      m = snap ∧ f.Admits snap ∧ x.Retains snap.strategyId snap.barTime snap.savedAt := by
  have honce : ActiveOnce ((x.commit snap).store.snapshots.of snap.strategyId) := by
    rw [of_commit]
    exact (sound_commit h hw).activeOnce _
  rw [StateStore.latest_eq_some honce, of_commit, ← mem_commit_iff h hw]
  constructor
  · rintro ⟨hm,hadm⟩
    obtain rfl := active_after_commit h hm hadm.1
    exact ⟨rfl,hadm,hm⟩
  · rintro ⟨rfl,hadm,hm⟩
    exact ⟨hm,hadm⟩

theorem loadLatestCompatible_commit (c : Codec σ β) (h : x.disk.Sound) (hw : Written x.disk snap packed)
    (hadm : f.Admits snap) (hret : x.Retains snap.strategyId snap.barTime snap.savedAt) :
    (x.commit snap).loadLatestCompatible c snap.strategyId f = ((c.restore snap packed).map some, x.commit snap) := by
  have hlatest := (latest_commit h hw).mpr ⟨rfl,hadm,hret⟩
  have hfile := (commit_file? h hw ((mem_commit_iff h hw).mpr hret)).trans hw.file
  simp only [loadLatestCompatible, latestSnapshotMetadata, commit_reloadIfChanged, hlatest, loadState, hfile]

theorem loadLatestCompatible_commit_pruned (c : Codec σ β) (h : x.disk.Sound) (hw : Written x.disk snap packed)
    (f : SnapshotFilter) (hret : ¬x.Retains snap.strategyId snap.barTime snap.savedAt) :
    (x.commit snap).loadLatestCompatible c snap.strategyId f = (.ok none, x.commit snap) := by
  have hlatest : (x.commit snap).store.latest snap.strategyId f = none := by
    cases hl : (x.commit snap).store.latest snap.strategyId f with
    | none => rfl
    | some => exact absurd ((latest_commit h hw).mp hl).2.2 hret
  simp only [loadLatestCompatible, latestSnapshotMetadata, commit_reloadIfChanged, hlatest]

end Session

theorem Codec.restore_eq_ok (h : m.checksum = some (c.sha256 packed)) {state : StrategyState σ} :
    c.restore m packed = .ok state ↔ ∃ payload, c.decodePayload packed m.stateEncoding = .ok payload ∧
      (∀ v ∈ nonEmpty payload.checksum, v = c.sha256 packed) ∧ StrategyState.fromPayload payload = state := by
  unfold restore
  rw [if_neg (by simp [h])]
  cases hdec : c.decodePayload packed m.stateEncoding with
  | error => simp
  | ok payload =>
    dsimp only
    cases hsum : nonEmpty payload.checksum with
    | none => simp [hsum]
    | some v => by_cases hv : v = c.sha256 packed <;> simp [hsum, hv]

/-- The time of saving is not part of a payload, so a loaded state has the default. -/
theorem Codec.savedAt_of_restore {state : StrategyState σ} (h : c.restore m packed = .ok state) :
    state.savedAt = 0 := by
  unfold restore at h
  split at h
  · cases h
  · split at h
    · cases h
    · split at h <;> cases h
      rfl

namespace Session

variable {state : StrategyState σ} {fp : Option String} {snap : SnapshotMetadata} {now : ℤ}

section
variable (h : Wrote c d d' state fp now snap packed)
include h

theorem Wrote.retains_iff (s : StateStore) :
    Retains ⟨s,d'⟩ snap.strategyId snap.barTime snap.savedAt ↔ Retains ⟨s,d⟩ state.strategyId state.barTime now := by
  unfold Retains
  rw [h.entries]
  obtain ⟨_,_,_,hsnap⟩ := h.metadata
  rw [hsnap]
  rfl

theorem Wrote.readsBack_iff : c.restore snap packed = .ok { state with savedAt := 0 } ↔ c.ReadsBack state fp := by
  have hsum : snap.checksum = some (c.sha256 packed) := by
    obtain ⟨_,_,_,hsnap⟩ := h.metadata
    rw [hsnap]
    rfl
  rw [Codec.restore_eq_ok hsum]
  constructor
  · rintro ⟨payload,hdec,hcheck,hstate⟩
    exact ⟨packed,snap.stateEncoding,c.sha256 packed,payload,h.encoded,hdec,hcheck,hstate⟩
  · rintro ⟨packed',encoding,checksum,payload,henc,hdec,hcheck,hstate⟩
    cases h.encoded.symm.trans henc
    exact ⟨payload,hdec,hcheck,hstate⟩

theorem loadSnapshot_commit_iff (s : StateStore) :
    ((commit ⟨s,d'⟩ snap).loadSnapshot c state.strategyId).1 = .ok (some { state with savedAt := 0 }) ↔
      Retains ⟨s,d⟩ state.strategyId state.barTime now ∧ c.ReadsBack state fp := by
  have hsid : state.strategyId = snap.strategyId := by
    obtain ⟨_,_,_,hsnap⟩ := h.metadata
    rw [hsnap]
    rfl
  have hadm : SnapshotFilter.Admits {} snap := by
    obtain ⟨_,_,_,hsnap⟩ := h.metadata
    rw [hsnap]
    simp [SnapshotFilter.Admits, StrategyState.snapshotMetadata]
  rw [← h.retains_iff, ← h.readsBack_iff, loadSnapshot, hsid]
  by_cases hret : Retains ⟨s,d'⟩ snap.strategyId snap.barTime snap.savedAt
  · rw [loadLatestCompatible_commit c h.sound h.written hadm hret]
    cases hres : c.restore snap packed with
    | error => simp [Except.map]
    | ok => simp [Except.map, hret]
  · rw [loadLatestCompatible_commit_pruned c h.sound h.written {} hret]
    simp [hret]

end

theorem savedAt_of_loaded {x : Session β} {sid : String} (h : (x.loadSnapshot c sid).1 = .ok (some state)) :
    state.savedAt = 0 := by
  unfold loadSnapshot loadLatestCompatible loadState at h
  split at h
  · cases h
  · dsimp only at h
    split at h
    · cases h
    · rename_i packed _
      cases hrestore : c.restore _ packed with
      | error =>
        rw [hrestore] at h
        cases h
      | ok =>
        rw [hrestore] at h
        cases h
        exact Codec.savedAt_of_restore hrestore

end Session

/-- No strategy ever has two active snapshots. After a save, the state is the one loaded
next exactly if its snapshot is among the youngest ones that are retained, the codec reads
it back and its time of saving is the default, which no payload carries. -/
theorem saved_snapshot_loaded_iff (c : Codec σ β) (ops : List (Op σ)) :
    let dir := run (Directory.step c) {} ops
    (∀ sid, ActiveOnce (dir.disk.entries sid)) ∧ (∀ s ∈ dir.stores, ∀ sid, ActiveOnce (s.snapshots.of sid)) ∧
    ∀ s ∈ dir.stores, ∀ state reason failedBar fp now snap x,
      Session.saveSnapshot c ⟨s,dir.disk⟩ state reason failedBar fp now = (.ok (some snap), x) →
      ((x.loadSnapshot c state.strategyId).1 = .ok (some state) ↔ state.savedAt = 0 ∧
        Session.Retains ⟨s,dir.disk⟩ state.strategyId state.barTime now ∧ c.ReadsBack state fp) := by
  intro dir
  have hsound : dir.Sound := Directory.sound_run c ops
  refine ⟨hsound.disk.activeOnce,fun s hs => (hsound.stores s hs).activeOnce,?_⟩
  intro s hs state reason failedBar fp now snap x hsave
  rcases saveSnapshot_cases c hsound.disk state reason failedBar fp now (x := ⟨s,dir.disk⟩) with
    ⟨bars,he⟩ | ⟨e,he⟩ | ⟨snap',d,packed,hwrote,he⟩
  · cases he.symm.trans hsave
  · cases he.symm.trans hsave
  cases he.symm.trans hsave
  by_cases hdefault : state.savedAt = 0
  · have hloaded := loadSnapshot_commit_iff hwrote s
    have hstate : { state with savedAt := 0 } = state := by rw [← hdefault]
    rw [hstate] at hloaded
    rw [hloaded]
    exact (and_iff_right hdefault).symm
  · exact iff_of_false (fun h => hdefault (savedAt_of_loaded h)) fun h => hdefault h.1

def Codec.plain (σ : Type) : Codec σ (Payload σ) :=
  { packMsgpack := some, unpackMsgpack := .ok, pickleStateEnabled := false, dumps := .ok, loads := .ok
    sha256 := fun _ => "", size := fun _ => 0 }

def StrategyState.sample (barTime : ℤ) (stateData : σ) : StrategyState σ :=
  { strategyId := "s", artifactId := "a", paramsHash := "p", instrumentKey := [], timeframe := []
    stateData := stateData, barTime := barTime, savedAt := 0 }

def oneSaved : List (Op ℕ) := [.create .everyBar 1 1, .call 0 (.save (.sample 2 20) "scheduled" false none 100)]

theorem later_bar_loaded :
    let dir := run (Directory.step (Codec.plain ℕ)) {} oneSaved
    ∀ s ∈ dir.stores, ∃ snap x, Session.saveSnapshot (Codec.plain ℕ) ⟨s,dir.disk⟩
      (.sample 3 30) "scheduled" false none 101 =
      (.ok (some snap), x) ∧ (x.loadSnapshot (Codec.plain ℕ) "s").1 = .ok (some (.sample 3 30)) := by
  intro dir s hs
  obtain rfl := mem_singleton.mp hs
  refine ⟨_,_,rfl,?_⟩
  refine ((saved_snapshot_loaded_iff (Codec.plain ℕ) oneSaved).2.2 _ mem_cons_self (.sample 3 30) "scheduled"
    false none 101 _ _ rfl).mpr ⟨rfl,?_,?_⟩
  · unfold Retains
    decide
  · exact ⟨_,_,_,_,rfl,rfl,nofun,rfl⟩

/-- The store keeps the bar at 2, so the bar at 1 that is saved next is pruned at once.
The older snapshot has been superseded, and nothing is left to load. -/
theorem earlier_bar_not_loaded :
    let dir := run (Directory.step (Codec.plain ℕ)) {} oneSaved
    ∃ s ∈ dir.stores, ∃ snap x, Session.saveSnapshot (Codec.plain ℕ) ⟨s,dir.disk⟩
      (.sample 1 10) "scheduled" false none 101 =
      (.ok (some snap), x) ∧ (x.loadSnapshot (Codec.plain ℕ) "s").1 = .ok none := ⟨_,mem_cons_self,_,_,rfl,rfl⟩

end OpenPine.State
