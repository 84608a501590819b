import OpenPine.Foundation.KeyedTable
import Mathlib.Data.Int.Notation

/-! # Records of the job.v1 store

The payload of a job, the rows of the two SQLite tables and the typed error of
`openpine/jobs/transactional_store.py`. The contracts package is not part of the
repository: its content hash and its schema check are parameters.
-/
namespace OpenPine.Jobs

inductive JobState
  | queued | running | succeeded | failed | canceled | lost | retryWait
deriving DecidableEq, Repr

def JobState.value : JobState → String
  | queued => "QUEUED"
  | running => "RUNNING"
  | succeeded => "SUCCEEDED"
  | failed => "FAILED"
  | canceled => "CANCELED"
  | lost => "LOST"
  | retryWait => "RETRY_WAIT"

def JobState.terminal : List JobState := [succeeded, failed, canceled, lost]

def JobState.allowedTransitions : JobState → List JobState
  | queued => [running, failed, canceled]
  | running => [succeeded, failed, canceled, lost]
  | failed => [queued, canceled]
  | lost => [queued, canceled]
  | retryWait => [queued, canceled]
  | succeeded => []
  | canceled => []

inductive JobKind
  | backtest | backfill | compile | optimize | parity | report
deriving DecidableEq, Repr

def JobKind.value : JobKind → String
  | backtest => "backtest"
  | backfill => "backfill"
  | compile => "compile"
  | optimize => "optimize"
  | parity => "parity"
  | report => "report"

def jobKinds : List JobKind := [.backtest, .backfill, .compile, .optimize, .parity, .report]

def JobKind.ofValue? (kind : String) : Option JobKind := jobKinds.find? (fun k => k.value = kind)

inductive EventType
  | created | childLinked | running | leaseRenewed | succeeded | failed | canceled | retried | lost
deriving DecidableEq, Repr

def EventType.value : EventType → String
  | created => "created"
  | childLinked => "child_linked"
  | running => "running"
  | leaseRenewed => "lease_renewed"
  | succeeded => "succeeded"
  | failed => "failed"
  | canceled => "canceled"
  | retried => "retried"
  | lost => "lost"

/-- The part of a payload that `_envelope` writes and no operation changes. -/
structure Envelope where
  (schemaId schemaVersion producer producerVersion producerCommit stackId : String)
  createdAtUtcMs : ℤ
  (serializerId contentHashAlg : String)
deriving DecidableEq

/-- A job payload: the dictionary kept as JSON in the `payload` column. -/
structure Job where
  envelope : Envelope
  jobId : String
  kind : JobKind
  state : JobState
  (version progress : ℕ)
  startedAtUtcMs : Option ℤ
  updatedAtUtcMs : ℤ
  finishedAtUtcMs : Option ℤ
  actor : Option String
  (inputArtifactRefs resultArtifactRefs : List String)
  (errorCode idempotencyKey leaseOwner : Option String)
  leaseDeadlineUtcMs : Option ℤ
  retryCount : ℕ
  maxRetries : Option ℤ
  parentJobId : Option String
  childJobIds : List String
  (eventCursor runId : Option String)
  contentHash : String
deriving DecidableEq

def Job.withCursor (job : Job) (eventId : String) : Job := { job with eventCursor := some eventId }

structure JobRow where
  jobId : String
  payload : Job
  idempotencyKey : Option String
  state : JobState
  version : ℕ
deriving DecidableEq

/-- The columns that the INSERT and the UPDATE of a whole job take from its payload. -/
def rowOf (job : Job) : JobRow where
  jobId := job.jobId
  payload := job
  idempotencyKey := job.idempotencyKey
  state := job.state
  version := job.version

@[simp] theorem rowOf_jobId (job : Job) : (rowOf job).jobId = job.jobId := rfl
@[simp] theorem rowOf_payload (job : Job) : (rowOf job).payload = job := rfl
@[simp] theorem rowOf_version (job : Job) : (rowOf job).version = job.version := rfl
@[simp] theorem rowOf_idempotencyKey (job : Job) : (rowOf job).idempotencyKey = job.idempotencyKey := rfl

structure Event where
  eventId : String
  sequence : ℕ
  type : EventType
  jobId : String
  state : JobState
  version : ℕ
deriving DecidableEq

structure EventRow where
  seq : ℕ
  (eventId jobId : String)
  payload : Event
deriving DecidableEq

/-- The database file. `lastSeq` is the AUTOINCREMENT counter of the events table. -/
structure Store where
  jobs : Table JobRow JobRow.jobId
  events : Table EventRow EventRow.eventId
  lastSeq : ℕ
deriving DecidableEq

def Store.empty : Store := ⟨.empty,.empty,0⟩

def Store.job? (s : Store) (jobId : String) : Option Job := (s.jobs.find? jobId).map JobRow.payload

/-- `JobV1Error`, one constructor for each text the store raises it with. -/
inductive JobV1Error
  | jobIdRequired
  | unknownKind (kind : String)
  | negativeMaxRetries
  | jobAlreadyExists (jobId : String)
  | jobNotFound (jobId : String)
  | leaseOwnerRequired | deadlineNotInFuture
  | transitionNotAllowed (current target : JobState)
  | versionConflict (expected : ℤ) (got : ℕ)
  | leaseOwnerMismatch | leaseExpired | storeConflict | retryLimitReached
  | schemaInvalid (text : String)
  | buildIdentity (text : String)
deriving DecidableEq

def JobV1Error.message : JobV1Error → String
  | jobIdRequired => "job_id required"
  | unknownKind kind => "unknown kind: " ++ kind
  | negativeMaxRetries => "max_retries must be >= 0"
  | jobAlreadyExists jobId => "job already exists: " ++ jobId
  | jobNotFound jobId => "job not found: " ++ jobId
  | leaseOwnerRequired => "lease owner required"
  | deadlineNotInFuture => "lease deadline must be in the future"
  | transitionNotAllowed current target => "transition " ++ current.value ++ " -> " ++ target.value ++ " is not allowed"
  | versionConflict expected got => "version conflict: expected " ++ toString expected ++ ", got " ++ toString got
  | leaseOwnerMismatch => "lease owner mismatch"
  | leaseExpired => "lease expired"
  | storeConflict => "version conflict while storing job"
  | retryLimitReached => "retry limit reached"
  | schemaInvalid text => text
  | buildIdentity text => text

/-- What the store uses of `openpine_contracts`: the digest that
`seal_content_hash` writes, the verdict of `validate_payload` (a text when it
raises) and the name of the serializer. -/
structure Contracts where
  contentDigest : Job → String
  validatePayload : Job → Option String
  serializerId : String

def sealContentHash (c : Contracts) (job : Job) : Job := { job with contentHash := c.contentDigest job }

def Contracts.Accepts (c : Contracts) : Prop := ∀ job : Job, c.validatePayload (sealContentHash c job) = none

/-- Contracts that seal a readable digest and reject a payload that does not carry
its own digest. Fixed inputs are run with these. -/
def plainContracts : Contracts where
  contentDigest job := job.jobId ++ "/" ++ job.state.value ++ "/" ++ job.version.repr ++ "/" ++ job.eventCursor.getD "-"
  validatePayload job :=
    if job.contentHash = job.jobId ++ "/" ++ job.state.value ++ "/" ++ job.version.repr ++ "/" ++
      job.eventCursor.getD "-" then none
    else some "content_hash mismatch"
  serializerId := "canonical-json"

theorem plainContracts_accepts : plainContracts.Accepts := by
  intro job
  simp [plainContracts, sealContentHash]

/-- `BuildIdentity`, with `contract_version` already read off the version. -/
structure BuildIdentity where
  (contractVersion commit : String)
deriving DecidableEq

end OpenPine.Jobs
