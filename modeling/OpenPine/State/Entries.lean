import OpenPine.State.StateStore

/-! # What the calls do to the entries of a strategy

The index file lists the entries of all strategies. Selected by strategy, every call
acts on one list of entries, and the forced reload under the lock makes the result a
function of the directory alone.
-/
namespace OpenPine.State
open Python Registry SnapshotMetadata Disk List
variable {σ β : Type} {m m' : SnapshotMetadata}

def ActiveOnce (snapshots : List SnapshotMetadata) : Prop := snapshots.countP (fun m => m.status = .active) ≤ 1

namespace ActiveOnce

theorem nil : ActiveOnce [] := by simp [ActiveOnce]

variable {l : List SnapshotMetadata}

theorem sublist {l' : List SnapshotMetadata} (h : ActiveOnce l) (hsub : l'.Sublist l) : ActiveOnce l' :=
  hsub.countP_le.trans h

theorem unique (h : ActiveOnce l) (hm : m ∈ l) (hm' : m' ∈ l) (ha : m.status = .active) (ha' : m'.status = .active) :
    m = m' := by
  unfold ActiveOnce at h
  rw [countP_eq_length_filter] at h
  have hf : m ∈ l.filter (fun m => m.status = .active) := mem_filter.mpr ⟨hm,by simpa using ha⟩
  have hf' : m' ∈ l.filter (fun m => m.status = .active) := mem_filter.mpr ⟨hm',by simpa using ha'⟩
  match hl : l.filter (fun m => m.status = .active) with
  | [] => simp [hl] at hf
  | [a] =>
    rw [hl, mem_singleton] at hf hf'
    rw [hf, hf']
  | a :: b :: rest => simp [hl] at h

theorem invalidate (h : ActiveOnce l) (since : Option ℤ) : ActiveOnce (l.map (.invalidate since)) := by
  unfold ActiveOnce at h ⊢
  rw [countP_map]
  refine (countP_mono_left fun m _ ha => ?_).trans h
  have hsame := invalidate_active (of_decide_eq_true ha)
  simpa [hsame.1] using ha

theorem retained_afterSave (limit : ℕ) (l : List SnapshotMetadata) (snap : SnapshotMetadata) :
    ActiveOnce (retained limit (afterSave l snap)) := by
  unfold ActiveOnce
  have hperm := (retained_append_stale_perm limit (afterSave l snap)).countP_eq
    (fun m => decide (m.status = .active))
  have hold : (l.map supersede).countP (fun m => m.status = .active) = 0 := by
    rw [countP_eq_zero]
    intro m hm
    obtain ⟨m₀,-,rfl⟩ := mem_map.mp hm
    simpa using m₀.supersede_not_active
  have hone : [snap].countP (fun m => m.status = .active) ≤ 1 := countP_le_length
  rw [countP_append, afterSave, countP_append, hold] at hperm
  rw [afterSave]
  omega

end ActiveOnce

namespace Disk
variable {d d' : Disk β} (sid : String) (ids : List SnapshotId)

def entries (d : Disk β) (sid : String) : List SnapshotMetadata :=
  (d.index.getD []).filter (fun m => m.strategyId = sid)

theorem strategyId_of_mem_entries {sid : String} {m : SnapshotMetadata} (h : m ∈ d.entries sid) :
    m.strategyId = sid := by
  simpa using (mem_filter.mp h).2

theorem file?_unlink (d : Disk β) (sid : String) (id : SnapshotId) (m : SnapshotMetadata) :
    (d.unlink sid id).file? m = if sid = m.strategyId ∧ id = m.snapshotId then none else d.file? m := by
  unfold unlink file?
  rw [Dict.get?_del]
  simp [Prod.ext_iff]

theorem unlinkAll_fields (d : Disk β) : (d.unlinkAll sid ids).index = d.index ∧
    (d.unlinkAll sid ids).signature = d.signature ∧
      (d.unlinkAll sid ids).issued = d.issued := by
  induction ids generalizing d with
  | nil => exact ⟨rfl,rfl,rfl⟩
  | cons id _ ih => exact ih (d.unlink sid id)

@[simp] theorem unlinkAll_signature : (d.unlinkAll sid ids).signature = d.signature := (unlinkAll_fields sid ids d).2.1

@[simp] theorem unlinkAll_issued : (d.unlinkAll sid ids).issued = d.issued := (unlinkAll_fields sid ids d).2.2

theorem file?_unlinkAll (m : SnapshotMetadata) (d : Disk β) :
    (d.unlinkAll sid ids).file? m = if sid = m.strategyId ∧ m.snapshotId ∈ ids then none else d.file? m := by
  induction ids generalizing d with
  | nil => simp [unlinkAll]
  | cons id _ ih =>
    refine (ih (d.unlink sid id)).trans ?_
    rw [file?_unlink]
    by_cases hsid : sid = m.strategyId
    · by_cases hid : id = m.snapshotId
      · simp [hsid, hid]
      · simp [hsid, hid, Ne.symm hid]
    · simp [hsid]

/-- Names are unique, every entry has its file at a valid path, and no strategy has two
active entries. -/
structure Sound (d : Disk β) : Prop where
  nodup : ∀ sid, ((d.entries sid).map SnapshotMetadata.snapshotId).Nodup
  apart : ∀ {sid sid' m m'}, m ∈ d.entries sid → m' ∈ d.entries sid' → m.snapshotId = m'.snapshotId → sid = sid'
  issued : ∀ {sid m}, m ∈ d.entries sid → m.snapshotId < d.issued
  backed : ∀ {sid m}, m ∈ d.entries sid → (d.file? m).isSome
  activeOnce : ∀ sid, ActiveOnce (d.entries sid)
  paths : ∀ {sid m}, m ∈ d.entries sid → Session.validatePathComponent ("strategy_id=" ++ sid) = .ok ()

theorem Sound.eq_of_id (h : d.Sound) {sid : String} (hm : m ∈ d.entries sid) (hm' : m' ∈ d.entries sid)
    (hid : m.snapshotId = m'.snapshotId) : m = m' := inj_on_of_nodup_map (h.nodup sid) hm hm' hid

theorem sound_empty : ({} : Disk β).Sound :=
  ⟨fun _ => nodup_nil,fun h => absurd h nofun,fun h => absurd h nofun,fun h => absurd h nofun,fun _ => .nil,
    fun h => absurd h nofun⟩

theorem Sound.derive (h : d.Sound) (hids : ∀ sid, ((d'.entries sid).map snapshotId).Sublist
      ((d.entries sid).map snapshotId))
    (hissued : d.issued ≤ d'.issued) (hbacked : ∀ {sid m}, m ∈ d'.entries sid → (d'.file? m).isSome)
    (hactive : ∀ sid, ActiveOnce (d'.entries sid)) : d'.Sound := by
  have horigin : ∀ {sid m}, m ∈ d'.entries sid → ∃ m₀ ∈ d.entries sid, m₀.snapshotId = m.snapshotId := by
    intro sid m hm
    exact mem_map.mp ((hids sid).subset (mem_map_of_mem hm))
  refine ⟨fun sid => (h.nodup sid).sublist (hids sid),?_,?_,hbacked,hactive,?_⟩
  · intro sid sid' m m' hm hm' hid
    obtain ⟨m₀,hm₀,hid₀⟩ := horigin hm
    obtain ⟨m₁,hm₁,hid₁⟩ := horigin hm'
    exact h.apart hm₀ hm₁ ((hid₀.trans hid).trans hid₁.symm)
  · intro sid m hm
    obtain ⟨m₀,hm₀,hid₀⟩ := horigin hm
    exact (hid₀ ▸ h.issued hm₀).trans_le hissued
  · intro sid m hm
    obtain ⟨m₀,hm₀,-⟩ := horigin hm
    exact h.paths hm₀

end Disk

namespace Session
variable {x : Session β}

/-! ### Reloading and writing back -/

@[simp] theorem reload_disk : x.reload.disk = x.disk := rfl

/-- A reload changes the copy of the index only. -/
theorem reload_config (x : Session β) :
    x.reload.store.savePolicy = x.store.savePolicy ∧ x.reload.store.saveIntervalBars = x.store.saveIntervalBars ∧
    x.reload.store.barsSinceLastSave = x.store.barsSinceLastSave ∧
    x.reload.store.maxSnapshotsPerStrategy = x.store.maxSnapshotsPerStrategy := by
  unfold reload StateStore.loadMetadataIndex
  split
  · exact ⟨rfl,rfl,rfl,rfl⟩
  · exact ⟨rfl,rfl,rfl,rfl⟩

@[simp] theorem reload_limit : x.reload.store.maxSnapshotsPerStrategy = x.store.maxSnapshotsPerStrategy :=
  x.reload_config.2.2.2

@[simp] theorem reload_savePolicy : x.reload.store.savePolicy = x.store.savePolicy := x.reload_config.1

theorem reload_keyed (x : Session β) : x.reload.store.snapshots.Keyed := by
  unfold reload StateStore.loadMetadataIndex
  split
  · exact keyed_load []
  · exact keyed_load _

theorem reload_snapshots (h : x.disk.Sound) : x.reload.store.snapshots = load (x.disk.index.getD []) := by
  unfold reload StateStore.loadMetadataIndex
  cases hindex : x.disk.index with
  | none => rfl
  | some entries =>
    have hbacked : entries.filter (fun m => (x.disk.file? m).isSome) = entries := by
      rw [filter_eq_self]
      intro m hm
      have hentry : m ∈ x.disk.entries m.strategyId := by simpa [Disk.entries, hindex] using hm
      exact h.backed hentry
    dsimp only
    rw [hbacked]
    rfl

theorem of_reload (h : x.disk.Sound) (sid : String) : x.reload.store.snapshots.of sid = x.disk.entries sid := by
  rw [reload_snapshots h, load, Groups.of_group]
  rfl

theorem reload_signature (x : Session β) : x.reload.store.indexSignature = x.disk.pathSignature := by
  unfold reload StateStore.loadMetadataIndex pathSignature
  split <;> rename_i h <;> rw [h] <;> rfl

@[simp] theorem reloadIfChanged_disk (x : Session β) : x.reloadIfChanged.disk = x.disk := by
  unfold reloadIfChanged
  split <;> rfl

theorem reloadIfChanged_signature (x : Session β) : x.reloadIfChanged.store.indexSignature = x.disk.pathSignature := by
  unfold reloadIfChanged
  split <;> rename_i h
  · exact h.symm
  · exact x.reload_signature

theorem reloadIfChanged_of_current (h : x.store.indexSignature = x.disk.pathSignature) : x.reloadIfChanged = x :=
  if_pos h.symm

theorem reloadIfChanged_idem (x : Session β) : x.reloadIfChanged.reloadIfChanged = x.reloadIfChanged := by
  apply reloadIfChanged_of_current
  rw [reloadIfChanged_disk]
  exact x.reloadIfChanged_signature

theorem entries_persist (h : x.store.snapshots.Keyed) (sid : String) :
    x.persist.disk.entries sid = x.store.snapshots.of sid := h.filter_items sid

@[simp] theorem persist_file? (m : SnapshotMetadata) : x.persist.disk.file? m = x.disk.file? m := rfl
@[simp] theorem persist_issued : x.persist.disk.issued = x.disk.issued := rfl
@[simp] theorem persist_snapshots : x.persist.store.snapshots = x.store.snapshots := rfl
theorem persist_signature : x.persist.store.indexSignature = x.persist.disk.pathSignature := rfl

/-! ### Saving -/

def commit (x : Session β) (snap : SnapshotMetadata) : Session β := (x.reload.register snap).persist

structure Written (d : Disk β) (snap : SnapshotMetadata) (packed : β) : Prop where
  file : d.file? snap = some packed
  path : validatePathComponent ("strategy_id=" ++ snap.strategyId) = .ok ()
  issued : snap.snapshotId < d.issued
  fresh : ∀ {sid m}, m ∈ d.entries sid → m.snapshotId ≠ snap.snapshotId

variable {snap m : SnapshotMetadata} {packed : β} {sid reason : String} {c : Codec σ β} {state : StrategyState σ}
  {fp : Option String} {id : SnapshotId} {now : ℤ}

theorem nodup_afterSave {d : Disk β} (h : d.Sound) (hw : Written d snap packed) :
    ((afterSave (d.entries snap.strategyId) snap).map snapshotId).Nodup := by
  have hmap : (afterSave (d.entries snap.strategyId) snap).map snapshotId =
      (d.entries snap.strategyId).map snapshotId ++ [snap.snapshotId] := by simp [afterSave]
  rw [hmap, nodup_append]
  refine ⟨h.nodup _,by simp,?_⟩
  intro id hid id' hid' he
  obtain ⟨m,hm,rfl⟩ := mem_map.mp hid
  exact hw.fresh hm (he.trans (mem_singleton.mp hid'))

section
variable (h : x.disk.Sound)
include h

theorem commit_entries (snap : SnapshotMetadata) (sid : String) :
    (x.commit snap).disk.entries sid = if snap.strategyId = sid then
        retained x.store.maxSnapshotsPerStrategy (afterSave (x.disk.entries snap.strategyId) snap)
      else x.disk.entries sid := by
  have hkeyed : (x.reload.register snap).store.snapshots.Keyed := x.reload_keyed.save snap _
  rw [commit, entries_persist hkeyed]
  change Groups.of (save x.reload.store.snapshots snap x.reload.store.maxSnapshotsPerStrategy).1 sid = _
  rw [of_save, of_reload h, of_reload h, reload_limit]

theorem commit_file? (hw : Written x.disk snap packed) (hm : m ∈ (x.commit snap).disk.entries sid) :
    (x.commit snap).disk.file? m = x.disk.file? m := by
  change (x.disk.unlinkAll snap.strategyId
    ((save x.reload.store.snapshots snap x.reload.store.maxSnapshotsPerStrategy).2.map
      snapshotId)).file? m = _
  rw [save_stale, of_reload h, reload_limit, file?_unlinkAll, if_neg]
  rintro ⟨hsid,hstale⟩
  -- an entry of the strategy was retained, and no retained one shares a name with a pruned one
  have hsid' : snap.strategyId = sid := hsid.trans (strategyId_of_mem_entries hm)
  rw [commit_entries h, if_pos hsid'] at hm
  have hnodup := nodup_ids_retained x.store.maxSnapshotsPerStrategy (nodup_afterSave h hw)
  rw [map_append, nodup_append] at hnodup
  exact hnodup.2.2 _ (mem_map_of_mem hm) _ hstale rfl

theorem mem_commit_entries (hm : m ∈ (x.commit snap).disk.entries sid) :
    (m = snap ∧ snap.strategyId = sid) ∨ ∃ m₀ ∈ x.disk.entries sid, m = m₀ ∨ m = m₀.supersede := by
  rw [commit_entries h] at hm
  split at hm <;> rename_i hsid
  · rcases mem_append.mp (mem_of_mem_retained hm) with hold | hnew
    · obtain ⟨m₀,hm₀,rfl⟩ := mem_map.mp hold
      exact .inr ⟨m₀,hsid ▸ hm₀,.inr rfl⟩
    · exact .inl ⟨mem_singleton.mp hnew,hsid⟩
  · exact .inr ⟨m,hm,.inl rfl⟩

theorem commit_origin (hm : m ∈ (x.commit snap).disk.entries sid) : (m = snap ∧ snap.strategyId = sid) ∨
      ∃ m₀ ∈ x.disk.entries sid, m.snapshotId = m₀.snapshotId ∧ m.strategyId = m₀.strategyId := by
  rcases mem_commit_entries h hm with hnew | ⟨m₀,hm₀,rfl | rfl⟩
  · exact .inl hnew
  · exact .inr ⟨m,hm₀,rfl,rfl⟩
  · exact .inr ⟨m₀,hm₀,m₀.supersede_snapshotId,m₀.supersede_strategyId⟩

/-- A commit keeps the index sound. -/
theorem sound_commit (hw : Written x.disk snap packed) : (x.commit snap).disk.Sound := by
  have hissued : (x.commit snap).disk.issued = x.disk.issued := unlinkAll_issued _ _
  refine ⟨fun sid => ?_,?_,?_,?_,fun sid => ?_,?_⟩
  · rw [commit_entries h]
    split
    · have hnodup := nodup_ids_retained x.store.maxSnapshotsPerStrategy (nodup_afterSave h hw)
      rw [map_append, nodup_append] at hnodup
      exact hnodup.1
    · exact h.nodup sid
  · intro sid sid' m m' hm hm' hid
    rcases commit_origin h hm with ⟨rfl,hsid⟩ | ⟨m₀,hm₀,hid₀,-⟩ <;>
      rcases commit_origin h hm' with ⟨rfl,hsid'⟩ | ⟨m₁,hm₁,hid₁,-⟩
    · exact hsid.symm.trans hsid'
    · exact absurd (hid.trans hid₁).symm (hw.fresh hm₁)
    · exact absurd (hid₀.symm.trans hid) (hw.fresh hm₀)
    · exact h.apart hm₀ hm₁ ((hid₀.symm.trans hid).trans hid₁)
  · intro sid m hm
    rw [hissued]
    rcases commit_origin h hm with ⟨rfl,-⟩ | ⟨m₀,hm₀,hid₀,-⟩
    · exact hw.issued
    · exact hid₀ ▸ h.issued hm₀
  · intro sid m hm
    rw [commit_file? h hw hm]
    rcases commit_origin h hm with ⟨rfl,-⟩ | ⟨m₀,hm₀,hid₀,hsid₀⟩
    · rw [hw.file]
      rfl
    · have hsame : x.disk.file? m = x.disk.file? m₀ := by rw [file?, file?, hid₀, hsid₀]
      rw [hsame]
      exact h.backed hm₀
  · rw [commit_entries h]
    split
    · exact .retained_afterSave _ _ _
    · exact h.activeOnce sid
  · intro sid m hm
    rcases commit_origin h hm with ⟨-,rfl⟩ | ⟨m₀,hm₀,-⟩
    · exact hw.path
    · exact h.paths hm₀

end

theorem writeSnapshot_ok {d d' : Disk β} (h : writeSnapshot c d state reason fp now = .ok (snap, d')) :
    ∃ packed encoding checksum, c.encodePayload (state.snapshotPayload fp) = .ok (packed, encoding, checksum) ∧
      validatePathComponent ("strategy_id=" ++ state.strategyId) = .ok () ∧
      snap = state.snapshotMetadata d.issued now (c.size packed) reason fp encoding checksum ∧
      d' = { d with files := Dict.put d.files (state.strategyId, d.issued) packed, issued := d.issued + 1 } := by
  obtain ⟨⟨packed,encoding,checksum⟩,henc,h⟩ := bind_eq_ok.mp h
  obtain ⟨_,hpath,h⟩ := bind_eq_ok.mp h
  cases h
  exact ⟨packed,encoding,checksum,henc,hpath,rfl,rfl⟩

theorem encodePayload_checksum {payload : Payload σ} {encoding : Encoding}
    {checksum : String} (h : c.encodePayload payload = .ok (packed, encoding, checksum)) :
    checksum = c.sha256 packed := by
  unfold Codec.encodePayload at h
  split at h
  · cases h
    rfl
  · split at h
    · cases hdumps : c.dumps payload with
      | error => simp [hdumps, Except.mapError, Except.map] at h
      | ok =>
        simp only [hdumps, Except.mapError, Except.map, Except.ok.injEq, Prod.mk.injEq] at h
        obtain ⟨rfl,-,rfl⟩ := h
        rfl
    · cases h

structure Wrote (c : Codec σ β) (d d' : Disk β) (state : StrategyState σ) (fp : Option String) (now : ℤ)
    (snap : SnapshotMetadata) (packed : β) : Prop where
  sound : d'.Sound
  entries : ∀ sid, d'.entries sid = d.entries sid
  files : ∀ {sid m}, m ∈ d.entries sid → d'.file? m = d.file? m
  signature : d'.signature = d.signature
  issued : d.issued ≤ d'.issued ∧ d.issued ≤ snap.snapshotId
  written : Written d' snap packed
  encoded : c.encodePayload (state.snapshotPayload fp) = .ok (packed, snap.stateEncoding, c.sha256 packed)
  metadata : ∃ id size reason, snap = state.snapshotMetadata id now size reason fp snap.stateEncoding (c.sha256 packed)

theorem wrote_of_ok {d d' : Disk β} (hd : d.Sound) (h : writeSnapshot c d state reason fp now = .ok (snap, d')) :
    ∃ packed, Wrote c d d' state fp now snap packed := by
  obtain ⟨packed,encoding,checksum,henc,hpath,rfl,rfl⟩ := writeSnapshot_ok h
  obtain rfl := encodePayload_checksum henc
  have hfile : ∀ {sid m}, m ∈ d.entries sid →
      file? { d with files := Dict.put d.files (state.strategyId, d.issued) packed, issued := d.issued + 1 } m =
        d.file? m := by
    intro sid m hm
    unfold file?
    rw [Dict.get?_put, if_neg]
    intro he
    have hid : d.issued = m.snapshotId := (Prod.ext_iff.mp he).2
    exact (hd.issued hm).ne hid.symm
  refine ⟨packed,?_,fun _ => rfl,hfile,rfl,⟨Nat.le_succ _,le_rfl⟩,⟨?_,hpath,?_,?_⟩,henc,_,_,_,rfl⟩
  · refine hd.derive (fun _ => .refl _) (Nat.le_succ _) (fun hm => ?_) hd.activeOnce
    rw [hfile hm]
    exact hd.backed hm
  · simp [file?, Dict.get?_put, StrategyState.snapshotMetadata]
  · exact Nat.lt_succ_self _
  · intro sid m hm
    exact (hd.issued hm).ne

section Save
variable (c : Codec σ β) (h : x.disk.Sound) (state : StrategyState σ) (reason : String) (failedBar : Bool)
  (fp : Option String) (now : ℤ)
include h

theorem startSave_cases :
    (∃ bars, x.startSave c state reason failedBar fp now = .skipped { x.store with barsSinceLastSave := bars }) ∨
    (∃ e, x.startSave c state reason failedBar fp now = .failed e) ∨
    ∃ snap d packed, Wrote c x.disk d state fp now snap packed ∧
      x.startSave c state reason failedBar fp now = .ready snap d := by
  unfold startSave
  dsimp only
  split
  · exact .inl ⟨x.store.barsSinceLastSave,rfl⟩
  · split
    · exact .inl ⟨_,rfl⟩
    · split
      · rename_i e _
        exact .inr (.inl ⟨e,rfl⟩)
      · rename_i snap d hwrite
        obtain ⟨packed,hwrote⟩ := wrote_of_ok h hwrite
        exact .inr (.inr ⟨snap,d,packed,hwrote,rfl⟩)

theorem saveSnapshot_cases : (∃ bars, x.saveSnapshot c state reason failedBar fp now =
      (.ok none, { x with store := { x.store with barsSinceLastSave := bars } })) ∨
    (∃ e, x.saveSnapshot c state reason failedBar fp now = (.error e, x)) ∨
    ∃ snap d packed, Wrote c x.disk d state fp now snap packed ∧
      x.saveSnapshot c state reason failedBar fp now = (.ok (some snap), commit ⟨x.store,d⟩ snap) := by
  unfold saveSnapshot
  rcases startSave_cases c h state reason failedBar fp now with ⟨bars,he⟩ | ⟨e,he⟩ | ⟨snap,d,packed,hwrote,he⟩
  · exact .inl ⟨bars,by rw [he]⟩
  · exact .inr (.inl ⟨e,by rw [he]⟩)
  · exact .inr (.inr ⟨snap,d,packed,hwrote,by rw [he]; rfl⟩)

end Save

def SaveDue (s : StateStore) (strategyId : String) : Prop :=
  ¬(s.savePolicy = .interval ∧ barsSince s strategyId < s.saveIntervalBars)

theorem saveDue_of_saved {x' : Session β} (h : x.saveSnapshot c state reason false fp now = (.ok (some snap), x')) :
    SaveDue x.store state.strategyId := by
  intro hskip
  simp only [saveSnapshot, startSave, Bool.false_eq_true, if_false, if_pos hskip] at h
  cases h

theorem saveSnapshot_due_cases (c : Codec σ β) (h : x.disk.Sound)
    (hdue : SaveDue x.store state.strategyId) (reason : String) (fp : Option String) (now : ℤ) :
    (∃ e, writeSnapshot c x.disk state reason fp now = .error e ∧
      x.saveSnapshot c state reason false fp now = (.error e, x)) ∨
    ∃ snap d packed, Wrote c x.disk d state fp now snap packed ∧
      x.saveSnapshot c state reason false fp now = (.ok (some snap), commit ⟨x.store,d⟩ snap) := by
  simp only [saveSnapshot, startSave, Bool.false_eq_true, if_false, if_neg hdue]
  cases hwrite : writeSnapshot c x.disk state reason fp now with
  | error e => exact .inl ⟨e,rfl,rfl⟩
  | ok r =>
    obtain ⟨packed,hwrote⟩ := wrote_of_ok h hwrite
    exact .inr ⟨r.1,r.2,packed,hwrote,rfl⟩

theorem saveSnapshot_of_due (h : x.disk.Sound) {encoded : β × Encoding × String}
    (hdue : SaveDue x.store state.strategyId)
    (hpath : validatePathComponent ("strategy_id=" ++ state.strategyId) = .ok ())
    (henc : c.encodePayload (state.snapshotPayload fp) = .ok encoded) (reason : String) (now : ℤ) :
    ∃ snap d packed, Wrote c x.disk d state fp now snap packed ∧
      x.saveSnapshot c state reason false fp now = (.ok (some snap), commit ⟨x.store,d⟩ snap) := by
  refine (saveSnapshot_due_cases c h hdue reason fp now).resolve_left ?_
  rintro ⟨e,hwrite,-⟩
  simp [writeSnapshot, henc, hpath, bind, Except.bind, pure, Except.pure] at hwrite

theorem reloadIfChanged_config (x : Session β) : x.reloadIfChanged.store.savePolicy = x.store.savePolicy ∧
    x.reloadIfChanged.store.saveIntervalBars = x.store.saveIntervalBars ∧
    x.reloadIfChanged.store.barsSinceLastSave = x.store.barsSinceLastSave ∧
    x.reloadIfChanged.store.maxSnapshotsPerStrategy = x.store.maxSnapshotsPerStrategy := by
  unfold reloadIfChanged
  split
  · exact ⟨rfl,rfl,rfl,rfl⟩
  · exact x.reload_config

theorem saveDue_reloadIfChanged (x : Session β) (sid : String) : SaveDue x.reloadIfChanged.store sid ↔
    SaveDue x.store sid := by
  obtain ⟨hpolicy,hinterval,hbars,-⟩ := reloadIfChanged_config x
  unfold SaveDue barsSince
  rw [hpolicy, hinterval, hbars]

/-! ### Deleting and invalidating -/

theorem markInvalid_entries (h : x.disk.Sound) (strategyId : String) (since : Option ℤ) (sid : String) :
    (x.markInvalid strategyId since).disk.entries sid =
      if strategyId = sid then (x.disk.entries sid).map (.invalidate since) else x.disk.entries sid := by
  have hkeyed : (x.reload.store.snapshots.markInvalid strategyId since).Keyed := x.reload_keyed.markInvalid _ _
  rw [markInvalid, entries_persist hkeyed, of_markInvalid, of_reload h]

theorem sound_markInvalid (h : x.disk.Sound) (strategyId : String) (since : Option ℤ) :
    (x.markInvalid strategyId since).disk.Sound := by
  refine h.derive (fun sid => ?_) le_rfl (fun {sid m} hm => ?_) (fun sid => ?_)
  · rw [markInvalid_entries h]
    split
    · simp [Function.comp_def]
    · exact .refl _
  · rw [markInvalid_entries h] at hm
    split at hm
    · obtain ⟨m₀,hm₀,rfl⟩ := mem_map.mp hm
      have hsame : x.disk.file? (m₀.invalidate since) = x.disk.file? m₀ := by simp [file?]
      exact hsame ▸ h.backed hm₀
    · exact h.backed hm
  · rw [markInvalid_entries h]
    split
    · exact (h.activeOnce sid).invalidate since
    · exact h.activeOnce sid

theorem eraseP_ids {l : List SnapshotMetadata} (h : (l.map snapshotId).Nodup) (id : SnapshotId) :
    l.eraseP (fun m => m.snapshotId = id) = l.filter (fun m => m.snapshotId ≠ id) := by
  induction l with
  | nil => rfl
  | cons m l ih =>
    obtain ⟨hfresh,hnodup⟩ := nodup_cons.mp h
    by_cases hid : m.snapshotId = id
    · have hall : l.filter (fun m' => m'.snapshotId ≠ id) = l := by
        rw [filter_eq_self]
        intro m' hm'
        have hne : m'.snapshotId ≠ id := fun he => hfresh (mem_map.mpr ⟨m',hm',he.trans hid.symm⟩)
        simpa using hne
      rw [eraseP_cons_of_pos (by simpa using hid), filter_cons_of_neg (by simpa using hid), hall]
    · rw [eraseP_cons_of_neg (by simpa using hid), filter_cons_of_pos (by simpa using hid), ih hnodup]

theorem deleteSnapshot_unknown (h : x.reload.store.snapshots.delete id = none) :
    x.deleteSnapshot id = (.error (.snapshotNotFound ("Snapshot not found: " ++ toString id)), x.reload) := by
  simp only [deleteSnapshot, h]

theorem deleteSnapshot_known {owner : String} {snapshots : Registry}
    (h : x.reload.store.snapshots.delete id = some (owner, snapshots)) :
    x.deleteSnapshot id = (.ok (), persist
      { store := { x.reload.store with snapshots := snapshots }, disk := x.disk.unlink owner id }) := by
  simp only [deleteSnapshot, h, reload_disk]

theorem deleteSnapshot_entries (h : x.disk.Sound) (id : SnapshotId) (sid : String) :
    (x.deleteSnapshot id).2.disk.entries sid = (x.disk.entries sid).filter (fun m => m.snapshotId ≠ id) := by
  cases hd : x.reload.store.snapshots.delete id with
  | none =>
    rw [deleteSnapshot_unknown hd]
    refine (filter_eq_self.mpr fun m hm => ?_).symm
    have hne := delete_eq_none hd sid m (by rwa [of_reload h])
    simpa using hne
  | some p =>
    obtain ⟨owner,snapshots⟩ := p
    rw [deleteSnapshot_known hd, entries_persist (x.reload_keyed.delete hd)]
    obtain ⟨⟨m₀,hm₀,hid₀⟩,rfl⟩ := delete_eq_some hd
    rw [of_reload h] at hm₀
    rw [Groups.of_put, of_reload h, of_reload h, eraseP_ids (h.nodup owner)]
    split <;> rename_i he
    · rw [he]
    · -- the name belongs to the owner only
      refine (filter_eq_self.mpr fun m hm => ?_).symm
      have hne : m.snapshotId ≠ id := fun hid => he (h.apart hm₀ hm (hid₀.trans hid.symm))
      simpa using hne

theorem deleteSnapshot_file? (h : x.disk.Sound) (hm : m ∈ (x.deleteSnapshot id).2.disk.entries sid) :
    (x.deleteSnapshot id).2.disk.file? m = x.disk.file? m := by
  rw [deleteSnapshot_entries h] at hm
  cases hd : x.reload.store.snapshots.delete id with
  | none => rw [deleteSnapshot_unknown hd, reload_disk]
  | some =>
    rw [deleteSnapshot_known hd, persist_file?, file?_unlink, if_neg]
    rintro ⟨-,hid⟩
    simpa [hid] using (mem_filter.mp hm).2

theorem sound_deleteSnapshot (h : x.disk.Sound) (id : SnapshotId) : (x.deleteSnapshot id).2.disk.Sound := by
  refine h.derive (fun sid => ?_) ?_ (fun {sid m} hm => ?_) (fun sid => ?_)
  · rw [deleteSnapshot_entries h]
    exact filter_sublist.map _
  · cases hd : x.reload.store.snapshots.delete id with
    | none => rw [deleteSnapshot_unknown hd, reload_disk]
    | some => rw [deleteSnapshot_known hd, persist_issued, unlink]
  · rw [deleteSnapshot_file? h hm]
    rw [deleteSnapshot_entries h] at hm
    exact h.backed (mem_filter.mp hm).1
  · rw [deleteSnapshot_entries h]
    exact (h.activeOnce sid).sublist filter_sublist

end Session
end OpenPine.State
