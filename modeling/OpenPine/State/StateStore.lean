import OpenPine.State.Snapshots

/-! # The state store

`StateStore` of `openpine/state/store.py`. A directory holds the snapshot files and
the index file, and every process that works on it has a store with its own copy of
the index. A call of a store is a function of the store and the directory. The
codecs, the hash and the clock are parameters.
-/
namespace OpenPine.State
open Python

inductive SavePolicy
  | everyBar | onRequest | interval
deriving DecidableEq, Repr

inductive StateError
  | snapshotNotFound (message : String)
  | invalidSnapshot (message : String)
  | stateInconsistency (message : String)
  | valueError (message : String)
  /-- What the outside functions raise. -/
  | other (message : String)
deriving DecidableEq, Repr

def StateError.message : StateError → String
  | .snapshotNotFound message | .invalidSnapshot message | .stateInconsistency message | .valueError message
  | .other message => message

structure StrategyState (σ : Type) where
  (strategyId artifactId paramsHash : String)
  (instrumentKey timeframe : Serialized)
  stateData : σ
  (barTime savedAt : ℤ)
deriving DecidableEq

structure Payload (σ : Type) where
  (strategyId artifactId paramsHash : String)
  (instrumentKey timeframe : Serialized)
  lastProcessedBarTime : ℤ
  runtimeState : σ
  dataFingerprint : Option String := none
  /-- Only in files of older versions. -/
  checksum : Option String := none
deriving DecidableEq

variable {σ β : Type}

namespace StrategyState

def toPayload (state : StrategyState σ) : Payload σ :=
  { strategyId := state.strategyId, artifactId := state.artifactId, paramsHash := state.paramsHash
    instrumentKey := state.instrumentKey, timeframe := state.timeframe
    lastProcessedBarTime := state.barTime, runtimeState := state.stateData }

def fromPayload (payload : Payload σ) : StrategyState σ :=
  { strategyId := payload.strategyId, artifactId := payload.artifactId, paramsHash := payload.paramsHash
    instrumentKey := payload.instrumentKey, timeframe := payload.timeframe
    stateData := payload.runtimeState, barTime := payload.lastProcessedBarTime, savedAt := 0 }

def snapshotPayload (state : StrategyState σ) (dataFingerprint : Option String) : Payload σ :=
  { state.toPayload with dataFingerprint := dataFingerprint }

def snapshotMetadata (state : StrategyState σ) (id : SnapshotId) (now : ℤ) (size : ℕ) (reason : String)
    (dataFingerprint : Option String) (encoding : Encoding) (checksum : String) : SnapshotMetadata :=
  { snapshotId := id, strategyId := state.strategyId, artifactId := state.artifactId
    paramsHash := state.paramsHash, instrumentKey := state.instrumentKey, timeframe := state.timeframe
    barTime := state.barTime, savedAt := now, sizeBytes := size, reason := reason
    dataFingerprint := dataFingerprint, stateEncoding := encoding, checksum := some checksum }

end StrategyState

/-! ### Payloads as bytes -/

/-- The functions behind the snapshot files. `packMsgpack` is `to_msgpack_safe` of `openpine/state/codec.py` followed by
`msgpack.packb`, and `none` is their `TypeError` or `ValueError`; `unpackMsgpack` is their inverse, as far as they have
one. -/
structure Codec (σ β : Type) where
  packMsgpack : Payload σ → Option β
  unpackMsgpack : β → Except String (Payload σ)
  pickleStateEnabled : Bool
  dumps : Payload σ → Except String β
  loads : β → Except String (Payload σ)
  sha256 : β → String
  size : β → ℕ

namespace Codec
variable (c : Codec σ β)

def pickleStateError : StateError :=
  .invalidSnapshot ("pickle snapshot loading is disabled; set " ++
    "OPENPINE_ALLOW_PICKLE_STATE=1 only for trusted local snapshots")

def encodePayload (payload : Payload σ) : Except StateError (β × Encoding × String) :=
  match c.packMsgpack payload with
  | some packed => .ok (packed, .msgpack, c.sha256 packed)
  | none =>
    if c.pickleStateEnabled then
      ((c.dumps payload).mapError .other).map fun packed => (packed, .pickle, c.sha256 packed)
    else .error pickleStateError

def decodePayload (packed : β) : Encoding → Except StateError (Payload σ)
  | .pickle => if c.pickleStateEnabled then (c.loads packed).mapError .other else .error pickleStateError
  | .msgpack => (c.unpackMsgpack packed).mapError .other

def checksumMismatch (m : SnapshotMetadata) : StateError :=
  .invalidSnapshot ("Checksum mismatch for snapshot " ++ toString m.snapshotId)

def restore (m : SnapshotMetadata) (packed : β) : Except StateError (StrategyState σ) :=
  if m.checksum.any (fun checksum => checksum ≠ c.sha256 packed) then .error (checksumMismatch m)
  else
    match c.decodePayload packed m.stateEncoding with
    | .error e => .error e
    | .ok payload =>
      if (nonEmpty payload.checksum).any (fun checksum => checksum ≠ c.sha256 packed) then .error (checksumMismatch m)
      else .ok (.fromPayload payload)

end Codec

/-! ### The directory -/

/-- The signature stands for the modification time and size of the index file, a new one for each time the file is
written: no two writes of the same size are taken to share a tick of the clock. Calls come one at a time, so that the
file whose signature is noted is the one that was read. -/
structure Disk (β : Type) where
  index : Option (List SnapshotMetadata) := none
  signature : ℕ := 0
  files : Dict (String × SnapshotId) β := .empty
  issued : ℕ := 0

namespace Disk

def pathSignature (d : Disk β) : Option ℕ := d.index.map fun _ => d.signature

def file? (d : Disk β) (m : SnapshotMetadata) : Option β := Dict.get? d.files (m.strategyId, m.snapshotId)

def unlink (d : Disk β) (strategyId : String) (id : SnapshotId) : Disk β :=
  { d with files := Dict.del d.files (strategyId, id) }

def unlinkAll (d : Disk β) (strategyId : String) (ids : List SnapshotId) : Disk β :=
  ids.foldl (fun d id => d.unlink strategyId id) d

end Disk

/-! ### The store -/

structure StateStore where
  savePolicy : SavePolicy := .everyBar
  saveIntervalBars : ℤ := 1
  maxSnapshotsPerStrategy : ℕ := 64
  keepsOne : 1 ≤ maxSnapshotsPerStrategy := by decide
  barsSinceLastSave : Dict String ℤ := .empty
  indexSignature : Option ℕ := none
  snapshots : Registry := .empty

structure Session (β : Type) where
  store : StateStore
  disk : Disk β

def StateStore.loadMetadataIndex (s : StateStore) (d : Disk β) (force : Bool) : StateStore :=
  match d.index with
  | none => { s with snapshots := if force then .empty else s.snapshots, indexSignature := none }
  | some entries =>
    { s with snapshots := .load (entries.filter fun m => (d.file? m).isSome), indexSignature := some d.signature }

def StateStore.create (savePolicy : SavePolicy) (saveIntervalBars maxSnapshots : ℤ) (d : Disk β) : StateStore :=
  StateStore.loadMetadataIndex
    { savePolicy := savePolicy, saveIntervalBars := saveIntervalBars
      maxSnapshotsPerStrategy := (max 1 maxSnapshots).toNat, keepsOne := by omega } d false

namespace Session

def reload (x : Session β) : Session β := { x with store := x.store.loadMetadataIndex x.disk true }

def reloadIfChanged (x : Session β) : Session β :=
  if x.disk.pathSignature = x.store.indexSignature then x else x.reload

def persist (x : Session β) : Session β :=
  { store := { x.store with indexSignature := some (x.disk.signature + 1) }
    disk := { x.disk with index := some x.store.snapshots.items, signature := x.disk.signature + 1 } }

/-! #### Saving -/

def validatePathComponent (component : String) : Except StateError Unit :=
  if component = "" ∨ '/' ∈ component.toList ∨ component = "." ∨ component = ".." then
    .error (.valueError ("Path component escapes state storage root: " ++ component))
  else .ok ()

/-- The part of `save_snapshot` before the lock: the snapshot file is written. -/
def writeSnapshot (c : Codec σ β) (d : Disk β) (state : StrategyState σ) (reason : String)
    (dataFingerprint : Option String) (now : ℤ) : Except StateError (SnapshotMetadata × Disk β) := do
  let (packed, encoding, checksum) ← c.encodePayload (state.snapshotPayload dataFingerprint)
  validatePathComponent ("strategy_id=" ++ state.strategyId)
  let snap := state.snapshotMetadata d.issued now (c.size packed) reason dataFingerprint encoding checksum
  return (snap, { d with files := Dict.put d.files (state.strategyId, d.issued) packed, issued := d.issued + 1 })

/-- The part of `save_snapshot` under the lock, up to the write of the index. -/
def register (x : Session β) (snap : SnapshotMetadata) : Session β :=
  let (snapshots, pruned) := x.store.snapshots.save snap x.store.maxSnapshotsPerStrategy
  { store := { x.store with
      snapshots := snapshots, barsSinceLastSave := Dict.put x.store.barsSinceLastSave snap.strategyId 0 }
    disk := x.disk.unlinkAll snap.strategyId (pruned.map SnapshotMetadata.snapshotId) }

def barsSince (s : StateStore) (strategyId : String) : ℤ := (Dict.get? s.barsSinceLastSave strategyId).getD 0

/-- How `save_snapshot` begins: the bar is skipped, the save fails, or the file is written. -/
inductive SaveStart (β : Type)
  | skipped (store : StateStore)
  | failed (e : StateError)
  | ready (snap : SnapshotMetadata) (disk : Disk β)

def startSave (c : Codec σ β) (x : Session β) (state : StrategyState σ) (reason : String) (failedBar : Bool)
    (dataFingerprint : Option String) (now : ℤ) : SaveStart β :=
  let bars := barsSince x.store state.strategyId
  if failedBar then .skipped x.store
  else if x.store.savePolicy = .interval ∧ bars < x.store.saveIntervalBars then
    .skipped { x.store with barsSinceLastSave := Dict.put x.store.barsSinceLastSave state.strategyId (bars + 1) }
  else
    match writeSnapshot c x.disk state reason dataFingerprint now with
    | .error e => .failed e
    | .ok (snap, disk) => .ready snap disk

def saveSnapshot (c : Codec σ β) (x : Session β) (state : StrategyState σ) (reason : String) (failedBar : Bool)
    (dataFingerprint : Option String) (now : ℤ) : Except StateError (Option SnapshotMetadata) × Session β :=
  match x.startSave c state reason failedBar dataFingerprint now with
  | .skipped store => (.ok none, { x with store := store })
  | .failed e => (.error e, x)
  | .ready snap disk => (.ok (some snap), ((reload { x with disk := disk }).register snap).persist)

/-! #### Deleting and invalidating -/

def deleteSnapshot (x : Session β) (id : SnapshotId) : Except StateError Unit × Session β :=
  let x := x.reload
  match x.store.snapshots.delete id with
  | none => (.error (.snapshotNotFound ("Snapshot not found: " ++ toString id)), x)
  | some (strategyId, snapshots) =>
    (.ok (), persist { store := { x.store with snapshots := snapshots }, disk := x.disk.unlink strategyId id })

def markInvalid (x : Session β) (strategyId : String) (since : Option ℤ) : Session β :=
  let x := x.reload
  persist { x with store := { x.store with snapshots := x.store.snapshots.markInvalid strategyId since } }

def setSavePolicy (x : Session β) (policy : SavePolicy) (intervalBars : ℤ) : Session β :=
  { x with store := { x.store with savePolicy := policy, saveIntervalBars := max 1 intervalBars } }

end Session

/-! #### Reading -/

structure SnapshotFilter where
  artifactId : Option String := none
  paramsHash : Option String := none
  instrumentKey : Option Serialized := none
  timeframe : Option Serialized := none
  dataFingerprint : Option String := none
  atOrBeforeBarTime : Option ℤ := none

def SnapshotFilter.Admits (f : SnapshotFilter) (m : SnapshotMetadata) : Prop :=
  m.status = .active ∧ (∀ v ∈ f.artifactId, m.artifactId = v) ∧ (∀ v ∈ f.paramsHash, m.paramsHash = v) ∧
    (∀ v ∈ f.instrumentKey, m.instrumentKey = v) ∧ (∀ v ∈ f.timeframe, m.timeframe = v) ∧
    (∀ v ∈ f.dataFingerprint, m.dataFingerprint = some v) ∧ ∀ v ∈ f.atOrBeforeBarTime, m.barTime ≤ v

instance (f : SnapshotFilter) (m : SnapshotMetadata) : Decidable (f.Admits m) := by
  unfold SnapshotFilter.Admits
  infer_instance

def StateStore.latest (s : StateStore) (strategyId : String) (f : SnapshotFilter) : Option SnapshotMetadata :=
  ((s.snapshots.of strategyId).filter fun m => f.Admits m).argmax SnapshotMetadata.age

namespace Session

def latestSnapshotMetadata (x : Session β) (strategyId : String) (f : SnapshotFilter) :
    Option SnapshotMetadata × Session β := (x.reloadIfChanged.store.latest strategyId f, x.reloadIfChanged)

def loadState (c : Codec σ β) (d : Disk β) (m : SnapshotMetadata) : Except StateError (Option (StrategyState σ)) :=
  match d.file? m with
  | none => .ok none
  | some packed => (c.restore m packed).map some

def loadLatestCompatible (c : Codec σ β) (x : Session β) (strategyId : String) (f : SnapshotFilter) :
    Except StateError (Option (StrategyState σ)) × Session β :=
  match x.latestSnapshotMetadata strategyId f with
  | (none, x) => (.ok none, x)
  | (some m, x) => (loadState c x.disk m, x)

def loadSnapshot (c : Codec σ β) (x : Session β) (strategyId : String) :
    Except StateError (Option (StrategyState σ)) × Session β := loadLatestCompatible c x strategyId {}

def listSnapshots (x : Session β) (strategyId : String) : List SnapshotMetadata × Session β :=
  ((x.reloadIfChanged.store.snapshots.of strategyId).insertionSort (fun m m' => m'.savedAt ≤ m.savedAt),
    x.reloadIfChanged)

end Session
end OpenPine.State
