import OpenPine.State.Directory

/-! # Every entry can be loaded

As long as the codec reads back what it writes, every entry of the index leads to a
state that its metadata describes, whatever calls were made.
-/
namespace OpenPine.State
open Python Runs Recovery
variable {σ β : Type} {c : Codec σ β} {state : StrategyState σ}

/-- What was encoded is decoded to itself. This holds if the resume states are built from `None`, numbers, texts, bytes,
lists, tuples, sets, deques, mappings, decimals, paths and the dataclasses and enumerations of the backtest engine. It
does not for a `SimpleNamespace`, a numpy value or another object, which come back as mappings, numbers or lists, and an
enumeration from elsewhere cannot be loaded. -/
def Codec.Faithful (c : Codec σ β) : Prop :=
  ∀ payload packed encoding checksum, payload.checksum = none →
    c.encodePayload payload = .ok (packed, encoding, checksum) → c.decodePayload packed encoding = .ok payload

def Codec.Total (c : Codec σ β) : Prop := ∀ payload, ∃ encoded, c.encodePayload payload = .ok encoded

theorem Codec.Faithful.readsBack (h : c.Faithful) {fp : Option String} {encoded : β × Encoding × String}
    (henc : c.encodePayload (state.snapshotPayload fp) = .ok encoded) :
    c.ReadsBack state fp :=
  ⟨encoded.1,encoded.2.1,encoded.2.2,state.snapshotPayload fp,henc,h _ _ _ _ rfl henc,nofun,rfl⟩

theorem plain_faithful (σ : Type) : (Codec.plain σ).Faithful := by
  rintro payload packed encoding checksum - henc
  cases henc
  rfl

theorem plain_total (σ : Type) : (Codec.plain σ).Total := fun payload => ⟨(payload, .msgpack, ""),rfl⟩

structure Describes (m : SnapshotMetadata) (state : StrategyState σ) : Prop where
  strategyId : m.strategyId = state.strategyId
  artifactId : m.artifactId = state.artifactId
  paramsHash : m.paramsHash = state.paramsHash
  instrumentKey : m.instrumentKey = state.instrumentKey
  timeframe : m.timeframe = state.timeframe
  barTime : m.barTime = state.barTime

/-- Every entry has a file that loads, with the state its metadata describes. -/
def Disk.Readable (c : Codec σ β) (d : Disk β) : Prop :=
  ∀ sid m, m ∈ d.entries sid → ∃ packed state, d.file? m = some packed ∧ c.restore m packed = .ok state ∧
    Describes m state

def Restated (m m₀ : SnapshotMetadata) : Prop := m = { m₀ with status := m.status }

theorem restated_supersede (m : SnapshotMetadata) : Restated m.supersede m := by
  unfold Restated SnapshotMetadata.supersede
  split <;> rfl

theorem restated_invalidate (since : Option ℤ) (m : SnapshotMetadata) : Restated (m.invalidate since) m := by
  unfold Restated SnapshotMetadata.invalidate
  split <;> rfl

variable {m m₀ : SnapshotMetadata}

theorem Restated.file? (h : Restated m m₀) (d : Disk β) : d.file? m = d.file? m₀ := by
  rw [h]
  rfl

theorem Restated.restore (h : Restated m m₀) (c : Codec σ β) (packed : β) :
    c.restore m packed = c.restore m₀ packed := by
  rw [h]
  rfl

theorem Restated.describes (h : Restated m m₀) (hd : Describes m₀ state) : Describes m state := by
  rw [h]
  exact ⟨hd.strategyId,hd.artifactId,hd.paramsHash,hd.instrumentKey,hd.timeframe,hd.barTime⟩

namespace Session
variable {x : Session β}

theorem perform_origin (c : Codec σ β) (h : x.disk.Sound) (call : Call σ) {sid : String} {m : SnapshotMetadata}
    (hm : m ∈ (x.perform c call).disk.entries sid) :
    (∃ m₀ ∈ x.disk.entries sid, Restated m m₀ ∧ (x.perform c call).disk.file? m = x.disk.file? m₀) ∨
    ∃ d state fp now packed, Wrote c x.disk d state fp now m packed ∧
      (x.perform c call).disk.file? m = some packed := by
  have hsame : ∀ {x' : Session β}, x'.disk = x.disk → m ∈ x'.disk.entries sid →
      ∃ m₀ ∈ x.disk.entries sid, Restated m m₀ ∧ x'.disk.file? m = x.disk.file? m₀ := by
    intro x' hdisk hm
    rw [hdisk] at hm ⊢
    exact ⟨m,hm,rfl,rfl⟩
  cases call with
  | save state reason failedBar fp now =>
    simp only [perform] at hm ⊢
    rcases saveSnapshot_cases c h state reason failedBar fp now with ⟨bars,he⟩ | ⟨e,he⟩ | ⟨snap,d,packed,hwrote,he⟩
    · rw [he] at hm ⊢
      exact .inl ⟨m,hm,rfl,rfl⟩
    · rw [he] at hm ⊢
      exact .inl ⟨m,hm,rfl,rfl⟩
    · rw [he] at hm ⊢
      have hfile := commit_file? hwrote.sound hwrote.written hm
      have hold : ∀ m₀ ∈ d.entries sid, Restated m m₀ →
          m₀ ∈ x.disk.entries sid ∧ (commit ⟨x.store,d⟩ snap).disk.file? m = x.disk.file? m₀ := by
        intro m₀ hm₀ hre
        rw [hfile, hre.file?]
        exact ⟨hwrote.entries sid ▸ hm₀,hwrote.files (hwrote.entries sid ▸ hm₀)⟩
      rcases mem_commit_entries hwrote.sound hm with ⟨rfl,-⟩ | ⟨m₀,hm₀,rfl | rfl⟩
      · exact .inr ⟨d,state,fp,now,packed,hwrote,hfile.trans hwrote.written.file⟩
      · exact .inl ⟨m,(hold m hm₀ rfl).1,rfl,(hold m hm₀ rfl).2⟩
      · have hre := restated_supersede m₀
        exact .inl ⟨m₀,(hold m₀ hm₀ hre).1,hre,(hold m₀ hm₀ hre).2⟩
  | delete =>
    have hfile := deleteSnapshot_file? h hm
    rw [perform, deleteSnapshot_entries h] at hm
    exact .inl ⟨m,(List.mem_filter.mp hm).1,rfl,hfile⟩
  | markInvalid _ since =>
    rw [perform, markInvalid_entries h] at hm
    split at hm
    · obtain ⟨m₀,hm₀,rfl⟩ := List.mem_map.mp hm
      exact .inl ⟨m₀,hm₀,restated_invalidate since m₀,(restated_invalidate since m₀).file? x.disk⟩
    · exact .inl ⟨m,hm,rfl,rfl⟩
  | read | invalidate => exact .inl (hsame x.reloadIfChanged_disk hm)
  | setSavePolicy => exact .inl ⟨m,hm,rfl,rfl⟩

/-- A call leaves every snapshot readable. -/
theorem readable_perform (hc : c.Faithful) (h : x.disk.Sound) (hr : x.disk.Readable c) (call : Call σ) :
    (x.perform c call).disk.Readable c := by
  intro sid m hm
  rcases perform_origin c h call hm with ⟨m₀,hm₀,hre,hfile⟩ | ⟨d,state,fp,now,packed,hwrote,hfile⟩
  · obtain ⟨packed,state,hfile₀,hrestore,hdesc⟩ := hr sid m₀ hm₀
    exact ⟨packed,state,hfile.trans hfile₀,(hre.restore c packed).trans hrestore,hre.describes hdesc⟩
  · refine ⟨packed,{ state with savedAt := 0 },hfile,hwrote.readsBack_iff.mpr (hc.readsBack hwrote.encoded),?_⟩
    obtain ⟨_,_,_,hsnap⟩ := hwrote.metadata
    rw [hsnap]
    exact ⟨rfl,rfl,rfl,rfl,rfl,rfl⟩

end Session

theorem Directory.readable_run (hc : c.Faithful) (ops : List (Op σ)) :
    (run (Directory.step c) {} ops).disk.Readable c := by
  have hstep : ∀ (dir : Directory β) (op : Op σ), dir.Sound ∧ dir.disk.Readable c →
      (dir.step c op).Sound ∧ (dir.step c op).disk.Readable c := by
    rintro dir op ⟨h,hr⟩
    refine ⟨h.step c op,?_⟩
    cases op with
    | create => exact hr
    | call i call =>
      cases hi : dir.stores[i]? with
      | none => rwa [step_call_none hi]
      | some s =>
        rw [step_call hi]
        exact Session.readable_perform (x := ⟨s,dir.disk⟩) hc h.disk hr call
  exact (run_invariant hstep ⟨sound_start,fun _ _ hm => absurd hm nofun⟩ ops).2

theorem Session.loadState_of_readable {d : Disk β} (h : d.Readable c) {sid : String} (hm : m ∈ d.entries sid) :
    ∃ state, loadState c d m = .ok (some state) ∧ Describes m state := by
  obtain ⟨packed,state,hfile,hrestore,hdesc⟩ := h sid m hm
  refine ⟨state,?_,hdesc⟩
  simp only [loadState, hfile, hrestore, Except.map]

end OpenPine.State
