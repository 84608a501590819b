import OpenPine.Runtime.WorkerProtocol

/-! # The worker protocol in the sandbox

`_Protocol` of the bootstrap text in `openpine/runtime/isolated_worker.py`, a copy of the
parent's transcript with tables of its own. It looks kinds and roles up as they stand in
a message, where the parent takes their text.
-/
namespace OpenPine.Runtime
open Hoare

namespace Protocol

/-! ### Tables

A kind that a table does not have is `none`. -/

def component : Kind → Option Component
  | .hello | .loadArtifact | .initRun | .barBegin => some .openpine
  | .intentBatch => some .pinelib
  | .brokerEventBatch | .recalcRequest => some .backtestEngine
  | .recalcResult => some .pinelib
  | .barCommit => some .backtestEngine
  | .finalize | .abort => some .openpine
  | .checkpoint | .restore => none

def role : Kind → Option Role
  | .hello => some .worker
  | .loadArtifact | .initRun | .barBegin => some .parent
  | .intentBatch => some .worker
  | .brokerEventBatch | .recalcRequest => some .engine
  | .recalcResult => some .worker
  | .barCommit => some .engine
  | .finalize | .abort => some .parent
  | .checkpoint | .restore => none

def roles : Kind → Option (List Role)
  | .abort => some [.parent, .worker, .engine]
  | kind => (role kind).map ([·])

def allowedAfter : Kind → Option (List Kind)
  | .hello => some [.loadArtifact, .abort]
  | .loadArtifact => some [.initRun, .abort]
  | .initRun => some [.barBegin, .finalize, .abort]
  | .barBegin => some [.intentBatch, .abort]
  | .intentBatch => some [.brokerEventBatch, .barCommit, .abort]
  | .brokerEventBatch => some [.recalcRequest, .barCommit, .abort]
  | .recalcRequest => some [.recalcResult, .abort]
  | .recalcResult => some [.intentBatch, .abort]
  | .barCommit => some [.barBegin, .finalize, .abort]
  | .finalize | .abort => some []
  | .checkpoint | .restore => none

/-- The entry of a table under a value, which a missing key turns into an exception. -/
def entry {α : Type} (table : Kind → Option α) (kind : Value) : Except Raised α :=
  match kind with
  | .str text =>
    match (Kind.ofName? text).bind table with
    | some found => return found
    | none => throw .lookup
  | _ => throw .lookup

def componentFor (kind role : Value) : Except Raised Component :=
  if kind = .str "ABORT" ∧ role = .str "engine" then return .backtestEngine else entry component kind

/-! ### The context -/

def semver (value : Value) : String := releaseCandidate value.text

def versions : List (Option WheelIdentity) → Except Raised (List (Value × String))
  | [] => return []
  | some ⟨some name,some version⟩ :: rows => do
    return (name, semver version) :: (← versions rows)
  | _ => throw .lookup

def identity (versions : List (Value × String)) (commits : List (String × Value)) (component : Component) :
    Except Raised (String × Value) :=
  match lastEntry (.str component.name) versions, commits.lookup component.name with
  | some version, some commit => return (version, commit)
  | _, _ => throw .lookup

end Protocol

structure Protocol (B : Type) where
  context : ExecutionContext
  identities : WorkerProtocolTranscript.Identities
  messages : List (Message B)

namespace Protocol
variable {B : Type} (contracts : Contracts B)

def create (context : ExecutionContext) : Except Raised (Protocol B) :=
  if contracts.validateContext context = false then throw .contract
  else if contracts.verifyContext context = false then throw (.protocol "execution context content hash is invalid")
  else
    match context.producerCommits, context.wheelIdentities with
    | some commits, some wheels => do
      let versions ← versions wheels
      let openpine ← identity versions commits .openpine
      let pinelib ← identity versions commits .pinelib
      let backtestEngine ← identity versions commits .backtestEngine
      return { context, identities := { openpine, pinelib, backtestEngine }, messages := [] }
    | _, _ => throw .lookup

/-! ### Messages -/

def lastId (t : Protocol B) : Value :=
  match t.messages.getLast? with
  | none => .null
  | some message => message.messageId

def transition (t : Protocol B) (kind : Value) : Except Raised Unit :=
  match t.messages.getLast? with
  | none => if kind = .str "HELLO" then return () else throw (.protocol "worker protocol must start with HELLO")
  | some last => do
    let allowed ← entry allowedAfter last.kind
    if kind ∈ allowed.map fun kind => .str kind.name then return ()
    else throw (.protocol "invalid worker protocol transition")

def payload (t : Protocol B) (kind : Kind) (component : Component) (role : Role) (body : B) (createdAtUtcMs : ℤ) :
    Message B :=
  .build component (t.identities.of component) role t.context.stackManifestHash t.context.sessionId t.context.runId
    t.messages.length t.lastId kind createdAtUtcMs body

def compose (t : Protocol B) (text : String) (body : B) (createdAtUtcMs : ℤ) : Except Raised (Message B) := do
  t.transition (.str text)
  let kind ← entry some (.str text)
  let component ← entry component (.str text)
  let role ← entry role (.str text)
  match contracts.sealContentHash (t.payload kind component role body createdAtUtcMs) with
  | none => throw .contract
  | some message => if contracts.validatePayload message = false then throw .contract else return message

/-- The fields that are compared, with what the message has and what it should have. -/
def expected (t : Protocol B) (component : Component) (role : Value) (message : Message B) : List (Value × Value) :=
  [(message.producer, .str component.name), (message.producerVersion, .str (t.identities.of component).1),
   (message.producerCommit, (t.identities.of component).2),
   (message.stackId, t.context.stackManifestHash),
   (message.sessionId, t.context.sessionId),
   (message.runId, t.context.runId),
   (message.sequence, .int t.messages.length),
   (message.correlationId, t.context.runId),
   (message.causationId, t.lastId),
   (message.senderRole, role)]

def check (t : Protocol B) (message : Message B) : Except Raised Unit :=
  if contracts.validatePayload message = false then throw .contract
  else if contracts.verifyContentHash message = false then throw (.protocol "worker protocol content hash is invalid")
  else do
    t.transition message.kind
    let allowed ← entry roles message.kind
    if message.senderRole ∈ allowed.map fun role => .str role.name then
      let component ← componentFor message.kind message.senderRole
      if (t.expected component message.senderRole message).any fun entry => entry.1 ≠ entry.2 then
        throw (.protocol "worker protocol identity mismatch")
      else return ()
    else throw (.protocol "worker protocol sender role mismatch")

/-- The message ends the transcript, which is then rejected as a whole. -/
def RejectsEnd (kind : Value) (candidate : List (Message B)) : Prop :=
  (kind = .str "FINALIZE" ∨ kind = .str "ABORT") ∧ contracts.validateWorkerProtocolSequence candidate = false

instance (kind : Value) (candidate : List (Message B)) : Decidable (RejectsEnd contracts kind candidate) :=
  inferInstanceAs (Decidable (_ ∧ _))

def record (kind : Value) (message : Message B) : Program Raised (Protocol B) (Message B) := do
  let candidate := (← get).messages ++ [message]
  when (RejectsEnd contracts kind candidate) (throw .contract)
  modify fun t => { t with messages := candidate }
  return message

def accept (message : Message B) : Program Raised (Protocol B) (Message B) := do
  lift ((← get).check contracts message)
  record contracts message.kind message

def append (kind : String) (body : B) (createdAtUtcMs : ℤ) : Program Raised (Protocol B) (Message B) := do
  let message ← lift ((← get).compose contracts kind body createdAtUtcMs)
  record contracts (.str kind) message

end Protocol
end OpenPine.Runtime
