import Mathlib.Data.List.Infix
import OpenPine.Foundation.Hoare
import OpenPine.Foundation.Python

/-! # The worker protocol at the parent

`WorkerProtocolTranscript` of `openpine/runtime/worker_protocol.py`. The functions of
`openpine_contracts` are parameters. A body is data that only they look at.
-/
namespace OpenPine.Runtime
open Hoare

/-! ### Values, messages and contexts -/

/-- A field of a message, `null` if it is missing. Values that compare as equal are one. -/
inductive Value
  | null
  | int (value : ℤ)
  | str (value : String)
  | other (json : String)
deriving DecidableEq, Repr

def Value.text : Value → String
  | .null => "None"
  | .int value => toString value
  | .str value => value
  | .other json => json

def Value.isText : Value → Bool
  | .str value => value ≠ ""
  | _ => false

structure Message (B : Type) where
  (schemaId schemaVersion producer producerVersion producerCommit stackId createdAtUtcMs serializerId : Value)
  (contentHashAlg messageId senderRole sessionId runId sequence correlationId causationId kind : Value)
  body : B
  contentHash : Value := .null
deriving DecidableEq

/-- A row of the wheel identities; a field that is not there is `none`. -/
structure WheelIdentity where
  (name version : Option Value)
deriving DecidableEq

/-- The fields of the execution context that the protocol reads. A part that does not have
the type that is asked for is `none`. -/
structure ExecutionContext where
  (sessionId runId stackManifestHash : Value)
  producerCommits : Option (List (String × Value))
  wheelIdentities : Option (List (Option WheelIdentity))
deriving DecidableEq

/-- The functions of `openpine_contracts`; `false` and `none` stand for an exception or a
hash that does not fit. Sealing a message sets its content hash. -/
structure Contracts (B : Type) where
  (validateContext verifyContext : ExecutionContext → Bool)
  (validatePayload verifyContentHash : Message B → Bool)
  contentHash : Message B → Option Value
  validateWorkerProtocolSequence : List (Message B) → Bool

inductive Raised
  /-- An exception of `openpine_contracts`. -/
  | contract
  | protocol (text : String)
  /-- A key or a type that is not there. -/
  | lookup
deriving DecidableEq, Repr

/-! ### Kinds, roles and components -/

inductive Kind
  | hello | loadArtifact | initRun | barBegin | intentBatch | brokerEventBatch | recalcRequest | recalcResult
  | barCommit | checkpoint | restore | finalize | abort
deriving DecidableEq, Repr

namespace Kind

def name : Kind → String
  | hello => "HELLO"
  | loadArtifact => "LOAD_ARTIFACT"
  | initRun => "INIT_RUN"
  | barBegin => "BAR_BEGIN"
  | intentBatch => "INTENT_BATCH"
  | brokerEventBatch => "BROKER_EVENT_BATCH"
  | recalcRequest => "RECALC_REQUEST"
  | recalcResult => "RECALC_RESULT"
  | barCommit => "BAR_COMMIT"
  | checkpoint => "CHECKPOINT"
  | restore => "RESTORE"
  | finalize => "FINALIZE"
  | abort => "ABORT"

def ofName? : String → Option Kind
  | "HELLO" => some hello
  | "LOAD_ARTIFACT" => some loadArtifact
  | "INIT_RUN" => some initRun
  | "BAR_BEGIN" => some barBegin
  | "INTENT_BATCH" => some intentBatch
  | "BROKER_EVENT_BATCH" => some brokerEventBatch
  | "RECALC_REQUEST" => some recalcRequest
  | "RECALC_RESULT" => some recalcResult
  | "BAR_COMMIT" => some barCommit
  | "CHECKPOINT" => some checkpoint
  | "RESTORE" => some restore
  | "FINALIZE" => some finalize
  | "ABORT" => some abort
  | _ => none

@[simp] theorem ofName?_name (kind : Kind) : ofName? kind.name = some kind := by
  cases kind <;> rfl

theorem eq_name_of_ofName? {text : String} {kind : Kind} (h : ofName? text = some kind) : text = kind.name := by
  unfold ofName? at h
  split at h <;> cases h <;> rfl

end Kind

inductive Role
  | parent | worker | engine
deriving DecidableEq, Repr

namespace Role

def name : Role → String
  | parent => "parent"
  | worker => "worker"
  | engine => "engine"

def ofName? : String → Option Role
  | "parent" => some parent
  | "worker" => some worker
  | "engine" => some engine
  | _ => none

@[simp] theorem ofName?_name (role : Role) : ofName? role.name = some role := by
  cases role <;> rfl

theorem eq_name_of_ofName? {text : String} {role : Role} (h : ofName? text = some role) : text = role.name := by
  unfold ofName? at h
  split at h <;> cases h <;> rfl

end Role

inductive Component
  | openpine | pinelib | backtestEngine
deriving DecidableEq, Repr

def Component.name : Component → String
  | .openpine => "openpine"
  | .pinelib => "pinelib"
  | .backtestEngine => "backtest_engine"

def componentByKind : Kind → Component
  | .hello | .loadArtifact | .initRun | .barBegin => .openpine
  | .intentBatch | .recalcResult => .pinelib
  | .brokerEventBatch | .recalcRequest | .barCommit => .backtestEngine
  | .checkpoint | .restore | .finalize | .abort => .openpine

def roleByKind : Kind → Role
  | .hello | .intentBatch | .recalcResult => .worker
  | .brokerEventBatch | .recalcRequest | .barCommit => .engine
  | .loadArtifact | .initRun | .barBegin | .checkpoint | .restore | .finalize | .abort => .parent

def rolesByKind : Kind → List Role
  | .abort => [.parent, .worker, .engine]
  | kind => [roleByKind kind]

def allowedAfter : Kind → List Kind
  | .hello => [.loadArtifact, .abort]
  | .loadArtifact => [.initRun, .abort]
  | .initRun => [.barBegin, .restore, .finalize, .abort]
  | .barBegin => [.intentBatch, .abort]
  | .intentBatch => [.brokerEventBatch, .barCommit, .abort]
  | .brokerEventBatch => [.recalcRequest, .barCommit, .abort]
  | .recalcRequest => [.recalcResult, .abort]
  | .recalcResult => [.intentBatch, .abort]
  | .barCommit => [.barBegin, .checkpoint, .finalize, .abort]
  | .checkpoint => [.barBegin, .restore, .finalize, .abort]
  | .restore => [.barBegin, .finalize, .abort]
  | .finalize => []
  | .abort => []

def componentFor (kind : Kind) (role : Role) : Component :=
  if kind = .abort ∧ role = .engine then .backtestEngine else componentByKind kind

/-! ### Versions -/

def partitionRc : List Char → Option (List Char × List Char)
  | 'r' :: 'c' :: rest => some ([], rest)
  | c :: rest => (partitionRc rest).map fun parts => (c :: parts.1, parts.2)
  | [] => none

/-- The rewriting of a release candidate, `1.0rc2` to `1.0-rc.2`. -/
def releaseCandidate (value : String) : String :=
  match partitionRc value.toList with
  | some (base, rc) =>
    if ¬"-rc.".toList <:+: value.toList ∧ base ≠ [] ∧ rc ≠ [] ∧ rc.all Char.isDigit then
      .ofList base ++ "-rc." ++ .ofList rc
    else value
  | none => value

/-- The last entry under a key, as a dictionary that is filled in order has it. -/
def lastEntry {κ υ : Type} [DecidableEq κ] (key : κ) : List (κ × υ) → Option υ
  | [] => none
  | (k, v) :: entries => (lastEntry key entries).or (if k = key then some v else none)

namespace WorkerProtocolTranscript

def semver : Option Value → Except Raised String
  | some (.str value) =>
    if value = "" then throw (.protocol "component version is missing") else return releaseCandidate value
  | _ => throw (.protocol "component version is missing")

def versions : List (Option WheelIdentity) → Except Raised (List (String × String))
  | [] => return []
  | some ⟨some (.str name),version⟩ :: rows => do
    let version ← semver version
    return (name, version) :: (← versions rows)
  | _ :: rows => versions rows

def componentIdentity (versions : List (String × String)) (commits : List (String × Value)) (component : Component) :
    Except Raised (String × Value) :=
  match lastEntry component.name versions, commits.lookup component.name with
  | some version, some (.str commit) =>
    if version ≠ "" ∧ commit.length = 40 then return (version, .str commit)
    else throw (.protocol ("execution context identity for " ++ component.name ++ " is missing"))
  | _, _ => throw (.protocol ("execution context identity for " ++ component.name ++ " is missing"))

/-- The identities of the three components, each a version and a commit. -/
structure Identities where
  (openpine pinelib backtestEngine : String × Value)

def Identities.of (identities : Identities) : Component → String × Value
  | .openpine => identities.openpine
  | .pinelib => identities.pinelib
  | .backtestEngine => identities.backtestEngine

def componentIdentities (context : ExecutionContext) : Except Raised Identities := do
  match context.producerCommits, context.wheelIdentities with
  | some commits, some wheels =>
    let versions ← versions wheels
    let openpine ← componentIdentity versions commits .openpine
    let pinelib ← componentIdentity versions commits .pinelib
    let backtestEngine ← componentIdentity versions commits .backtestEngine
    return { openpine, pinelib, backtestEngine }
  | _, _ => throw (.protocol "execution context component identity is missing")

end WorkerProtocolTranscript

/-! ### Transcripts -/

/-- The texts that name the session, the run and the stack are there. -/
structure WorkerProtocolTranscript (B : Type) where
  executionContext : ExecutionContext
  messages : List (Message B)
  components : WorkerProtocolTranscript.Identities
  session : executionContext.sessionId.isText = true
  run : executionContext.runId.isText = true
  stack : executionContext.stackManifestHash.isText = true

def Message.build {B : Type} (component : Component) (identity : String × Value) (role : Role)
    (stack session run : Value) (sequence : ℕ) (causation : Value) (kind : Kind) (createdAtUtcMs : ℤ) (body : B) :
    Message B where
  schemaId := .str "openpine.worker.protocol.v2"
  schemaVersion := .str "2.3.0"
  producer := .str component.name
  producerVersion := .str identity.1
  producerCommit := identity.2
  stackId := stack
  createdAtUtcMs := .int createdAtUtcMs
  serializerId := .str "openpine.canonical.json.v1"
  contentHashAlg := .str "sha256"
  messageId := .str (session.text ++ ":" ++ toString sequence ++ ":" ++ kind.name)
  senderRole := .str role.name
  sessionId := session
  runId := run
  sequence := .int sequence
  correlationId := run
  causationId := causation
  kind := .str kind.name
  body := body

namespace Contracts
variable {B : Type} (contracts : Contracts B)

def sealContentHash (message : Message B) : Option (Message B) :=
  (contracts.contentHash message).map fun hash => { message with contentHash := hash }

/-- A message that ends the transcript, which is then rejected as a whole. -/
def RejectsEnd (kind : Kind) (candidate : List (Message B)) : Prop :=
  (kind = .finalize ∨ kind = .abort) ∧ contracts.validateWorkerProtocolSequence candidate = false

instance (kind : Kind) (candidate : List (Message B)) : Decidable (contracts.RejectsEnd kind candidate) :=
  inferInstanceAs (Decidable (_ ∧ _))

end Contracts

namespace WorkerProtocolTranscript
variable {B : Type} (contracts : Contracts B)

def create (context : ExecutionContext) : Except Raised (WorkerProtocolTranscript B) :=
  if contracts.validateContext context = false then throw .contract
  else if contracts.verifyContext context = false then throw (.protocol "execution context content hash is invalid")
  else do
    let components ← componentIdentities context
    if session : context.sessionId.isText = true then
      if run : context.runId.isText = true then
        if stack : context.stackManifestHash.isText = true then
          return { executionContext := context, messages := [], components, session, run, stack }
        else throw (.protocol "execution context stack_manifest_hash is missing")
      else throw (.protocol "execution context run_id is missing")
    else throw (.protocol "execution context session_id is missing")

def lastMessageId (t : WorkerProtocolTranscript B) : Value :=
  match t.messages.getLast? with
  | none => .null
  | some message => .str message.messageId.text

def supportedKind (text : String) : Except Raised Kind :=
  match Kind.ofName? text with
  | some kind => return kind
  | none => throw (.protocol ("unsupported worker message kind: " ++ text))

def allowedRole (kind : Kind) (text : String) : Except Raised Role :=
  match Role.ofName? text with
  | some role => if role ∈ rolesByKind kind then return role
    else throw (.protocol ("invalid sender role for " ++ kind.name))
  | none => throw (.protocol ("invalid sender role for " ++ kind.name))

def checkTransition (t : WorkerProtocolTranscript B) (kind : Kind) : Except Raised Unit :=
  match t.messages.getLast? with
  | none => if kind = .hello then return () else throw (.protocol "worker protocol must start with HELLO")
  | some last =>
    match Kind.ofName? last.kind.text with
    | none => throw .lookup
    | some previous =>
      if kind ∈ allowedAfter previous then return ()
      else throw (.protocol ("invalid worker protocol transition: " ++ previous.name ++ " -> " ++ kind.name))

/-- The fields that are compared, with what the message has and what it should have. -/
def expected (t : WorkerProtocolTranscript B) (component : Component) (role : Role) (message : Message B) :
    List (String × Value × Value) :=
  [("producer", message.producer, .str component.name),
   ("producer_version", message.producerVersion, .str (t.components.of component).1),
   ("producer_commit", message.producerCommit, (t.components.of component).2),
   ("stack_id", message.stackId, t.executionContext.stackManifestHash),
   ("session_id", message.sessionId, t.executionContext.sessionId),
   ("run_id", message.runId, t.executionContext.runId),
   ("sequence", message.sequence, .int t.messages.length),
   ("correlation_id", message.correlationId, t.executionContext.runId),
   ("causation_id", message.causationId, t.lastMessageId),
   ("sender_role", message.senderRole, .str role.name)]

/-- The checks of `accept` before the whole transcript is looked at. -/
def check (t : WorkerProtocolTranscript B) (message : Message B) : Except Raised Kind :=
  if contracts.validatePayload message = false then throw .contract
  else if contracts.verifyContentHash message = false then
    throw (.protocol "worker protocol message content hash is invalid")
  else do
    let kind ← supportedKind message.kind.text
    let role ← allowedRole kind message.senderRole.text
    t.checkTransition kind
    match (t.expected (componentFor kind role) role message).find? fun entry => entry.2.1 ≠ entry.2.2 with
    | some entry => throw (.protocol ("worker protocol " ++ entry.1 ++ " mismatch"))
    | none => return kind

def payload (t : WorkerProtocolTranscript B) (kind : Kind) (role : Role) (body : B) (createdAtUtcMs : ℤ) : Message B :=
  .build (componentFor kind role) (t.components.of (componentFor kind role)) role t.executionContext.stackManifestHash
    (.str t.executionContext.sessionId.text) (.str t.executionContext.runId.text) t.messages.length t.lastMessageId kind
    createdAtUtcMs body

/-- The message that `append` builds; an empty role counts as none. -/
def compose (t : WorkerProtocolTranscript B) (kind : String) (body : B) (createdAtUtcMs : ℤ)
    (senderRole : Option String) :
    Except Raised (Kind × Message B) := do
  let kind ← supportedKind kind
  let role ← allowedRole kind ((Python.nonEmpty senderRole).getD (roleByKind kind).name)
  t.checkTransition kind
  match contracts.sealContentHash (t.payload kind role body createdAtUtcMs) with
  | none => throw .contract
  | some message => if contracts.validatePayload message = false then throw .contract else return (kind, message)

/-- The last lines of both calls: the whole transcript is validated when it ends. -/
def record (kind : Kind) (message : Message B) : Program Raised (WorkerProtocolTranscript B) (Message B) := do
  let candidate := (← get).messages ++ [message]
  when (contracts.RejectsEnd kind candidate) (throw .contract)
  modify fun t => { t with messages := candidate }
  return message

def accept (message : Message B) : Program Raised (WorkerProtocolTranscript B) (Message B) := do
  let kind ← lift ((← get).check contracts message)
  record contracts kind message

def append (kind : String) (body : B) (createdAtUtcMs : ℤ) (senderRole : Option String) :
    Program Raised (WorkerProtocolTranscript B) (Message B) := do
  let composed ← lift ((← get).compose contracts kind body createdAtUtcMs senderRole)
  record contracts composed.1 composed.2

end WorkerProtocolTranscript
end OpenPine.Runtime
