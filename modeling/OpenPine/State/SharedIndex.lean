import OpenPine.Foundation.Runs
import OpenPine.State.Entries

/-! # Processes that share the index file

Every process has a store with a copy of the index and performs its calls in small
steps, which interleave with those of the others. A mutation takes the file lock, loads
the index anew, changes its copy, unlinks the files of the snapshots it drops, replaces
the index file and releases the lock. A read takes no lock: it reads the text of the
index and looks at the files and the signature later.
-/
namespace OpenPine.State
open Python Runs
variable {σ β : Type}

inductive Mutation
  | save (snap : SnapshotMetadata) (limit : ℕ)
  | delete (id : SnapshotId)
  | markInvalid (strategyId : String) (since : Option ℤ)

/-- What a mutation makes of the entries of the index when nothing else happens. -/
def Mutation.apply (entries : List SnapshotMetadata) : Mutation → List SnapshotMetadata
  | .save snap limit => ((Registry.load entries).save snap limit).1.items
  | .delete id =>
    match (Registry.load entries).delete id with
    | none => entries
    | some (_, snapshots) => snapshots.items
  | .markInvalid strategyId since => ((Registry.load entries).markInvalid strategyId since).items

inductive Pc
  | idle
  | reading (text : Option (List SnapshotMetadata))
  | waiting (m : Mutation)
  | locked (m : Mutation)
  | loaded (m : Mutation)
  | unlinking (m : Mutation) (strategyId : String) (pending : List SnapshotId)
  | finished (m : Mutation)

def Pc.critical : Pc → Bool
  | .locked _ | .loaded _ | .unlinking _ _ _ | .finished _ => true
  | _ => false

def Pc.mutation? : Pc → Option Mutation
  | .idle | .reading _ => none
  | .waiting m | .locked m | .loaded m | .unlinking m _ _ | .finished m => some m

/-- The snapshot whose file is written and whose entry is not. -/
def Pc.unsaved? : Pc → Option SnapshotMetadata
  | .waiting (.save snap _) | .locked (.save snap _) | .loaded (.save snap _) => some snap
  | _ => none

structure Process where
  store : StateStore
  pc : Pc := .idle

/-- The directory, the holder of the file lock, the processes, and the mutations in the
order in which they took the lock. -/
structure World (β : Type) where
  disk : Disk β := {}
  lock : Option ℕ := none
  processes : List Process := []
  held : List Mutation := []

inductive Act (σ : Type)
  | startSave (state : StrategyState σ) (reason : String) (failedBar : Bool) (dataFingerprint : Option String) (now : ℤ)
  | startDelete (id : SnapshotId)
  | startMarkInvalid (strategyId : String) (since : Option ℤ)
  | startRead
  | proceed

inductive Action (σ : Type)
  | spawn (policy : SavePolicy) (intervalBars maxSnapshots : ℤ)
  | act (i : ℕ) (act : Act σ)

/-- The change of the copy under the lock. A deletion that finds nothing ends here. -/
def Process.mutate (p : Process) : Mutation → Process
  | .save snap limit =>
    let (snapshots, pruned) := p.store.snapshots.save snap limit
    ⟨{ p.store with snapshots := snapshots, barsSinceLastSave := Dict.put p.store.barsSinceLastSave snap.strategyId 0 },
      .unlinking (.save snap limit) snap.strategyId (pruned.map SnapshotMetadata.snapshotId)⟩
  | .delete id =>
    match p.store.snapshots.delete id with
    | none => ⟨p.store,.finished (.delete id)⟩
    | some (owner, snapshots) => ⟨{ p.store with snapshots := snapshots },.unlinking (.delete id) owner [id]⟩
  | .markInvalid strategyId since =>
    ⟨{ p.store with snapshots := p.store.snapshots.markInvalid strategyId since },
      .unlinking (.markInvalid strategyId since) strategyId []⟩

/-- The end of a read: the files and the signature are looked at after the text. -/
def Process.finishRead (p : Process) (d : Disk β) (text : Option (List SnapshotMetadata)) : Process :=
  match text with
  | none => ⟨{ p.store with snapshots := .empty, indexSignature := none },.idle⟩
  | some entries =>
    ⟨{ p.store with
      snapshots := .load (entries.filter fun m => (d.file? m).isSome), indexSignature := d.pathSignature },.idle⟩

namespace World

def set (w : World β) (i : ℕ) (p : Process) : World β := { w with processes := w.processes.set i p }

def proceed (w : World β) (i : ℕ) (p : Process) : World β :=
  match p.pc with
  | .idle => w
  | .reading text => w.set i (p.finishRead w.disk text)
  | .waiting m =>
    if w.lock = none then { w with lock := some i, held := w.held ++ [m] }.set i { p with pc := .locked m } else w
  | .locked m => w.set i ⟨(Session.reload ⟨p.store,w.disk⟩).store,.loaded m⟩
  | .loaded m => w.set i (p.mutate m)
  | .unlinking m sid (id :: pending) =>
    { w with disk := w.disk.unlink sid id }.set i { p with pc := .unlinking m sid pending }
  | .unlinking m _ [] =>
    let x := Session.persist ⟨p.store,w.disk⟩
    { w with disk := x.disk }.set i ⟨x.store,.finished m⟩
  | .finished _ => { w with lock := none }.set i { p with pc := .idle }

def act (c : Codec σ β) (w : World β) (i : ℕ) (p : Process) : Act σ → World β
  | .proceed => w.proceed i p
  | .startSave state reason failedBar fp now =>
    match p.pc with
    | .idle =>
      match Session.startSave c ⟨p.store,w.disk⟩ state reason failedBar fp now with
      | .skipped store => w.set i { p with store := store }
      | .failed _ => w
      | .ready snap disk =>
        { w with disk := disk }.set i { p with pc := .waiting (.save snap p.store.maxSnapshotsPerStrategy) }
    | _ => w
  | .startDelete id =>
    match p.pc with
    | .idle => w.set i { p with pc := .waiting (.delete id) }
    | _ => w
  | .startMarkInvalid sid since =>
    match p.pc with
    | .idle => w.set i { p with pc := .waiting (.markInvalid sid since) }
    | _ => w
  | .startRead =>
    match p.pc with
    | .idle => w.set i { p with pc := .reading w.disk.index }
    | _ => w

def step (c : Codec σ β) (w : World β) : Action σ → World β
  | .spawn policy intervalBars maxSnapshots =>
    { w with processes := w.processes ++ [⟨.create policy intervalBars maxSnapshots w.disk,.idle⟩] }
  | .act i a =>
    match w.processes[i]? with
    | none => w
    | some p => w.act c i p a

def entries (w : World β) : List SnapshotMetadata := w.disk.index.getD []

def holder (w : World β) : Option Process := w.lock.bind (w.processes[·]?)

/-- The mutations that have replaced the index file, in the order in which they held the
lock: all that took it, but for the holder's as long as it has not written. -/
def completed (w : World β) : List Mutation :=
  match w.holder with
  | none => w.held
  | some p =>
    match p.pc with
    | .finished _ => w.held
    | _ => w.held.dropLast

/-- The directory as the holder of the lock will leave it. -/
def settled (w : World β) : Disk β :=
  match w.holder with
  | none => w.disk
  | some p =>
    match p.pc with
    | .unlinking _ sid pending => (Session.persist ⟨p.store,w.disk.unlinkAll sid pending⟩).disk
    | _ => w.disk

end World
end OpenPine.State
