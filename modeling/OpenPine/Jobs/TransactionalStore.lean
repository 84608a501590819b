import OpenPine.Foundation.Transaction
import OpenPine.Jobs.JobV1
import Mathlib.Data.List.Sort
import Mathlib.Data.Prod.Lex
import Mathlib.Data.String.Basic

/-! # The transactional job store

`JobV1Store` as functions on the database file. A writing operation is the body
of one `BEGIN IMMEDIATE` transaction, so it returns the new file or an error, and
on an error the old file stays. Wall-clock readings and the build identity, which
the source asks the environment for, are arguments.
-/
namespace OpenPine.Jobs
open Transaction

export Python (nonEmpty nonEmpty_eq_some)

def rehash (c : Contracts) (payload : Job) : Except JobV1Error Job :=
  match c.validatePayload (sealContentHash c payload) with
  | some text => .error (.schemaInvalid text)
  | none => .ok (sealContentHash c payload)

def Store.insertJob (s : Store) (row : JobRow) : Option Store :=
  -- the unique index leaves out NULL, but not the empty key
  if row.idempotencyKey.isSome ∧ s.jobs.rows.any (fun r => r.idempotencyKey = row.idempotencyKey) then
    none
  else (s.jobs.insert? row).map (fun jobs => { s with jobs := jobs })

/-- `UPDATE jobs SET payload = ? WHERE job_id = ? AND version = ?` -/
def Store.updatePayload (s : Store) (jobId : String) (version : ℕ) (payload : Job) : Store :=
  match s.jobs.find? jobId with
  | some row =>
    if row.version = version then { s with jobs := s.jobs.set { row with payload := payload } } else s
  | none => s

def getInTransaction (c : Contracts) (s : Store) (jobId : String) : Except JobV1Error Job :=
  match s.jobs.find? jobId with
  | none => .error (.jobNotFound jobId)
  | some row =>
    match c.validatePayload row.payload with
    | some text => .error (.schemaInvalid text)
    | none => .ok row.payload

def get (c : Contracts) (s : Store) (jobId : String) : Except JobV1Error Job :=
  if jobId = "" then .error .jobIdRequired else getInTransaction c s jobId

def byIdempotencyInTransaction (s : Store) (key : String) : Option Job :=
  (s.jobs.rows.find? (fun r => r.idempotencyKey = some key)).map JobRow.payload

def requireVersion (job : Job) (expectedVersion : Option ℤ) : Except JobV1Error PUnit :=
  match expectedVersion with
  | none => .ok .unit
  | some v => if (job.version : ℤ) ≠ v then .error (.versionConflict v job.version) else .ok .unit

def requireLiveLease (job : Job) (leaseOwner : Option String) (nowMs : ℤ) : Except JobV1Error PUnit :=
  if nonEmpty leaseOwner = none ∨ job.leaseOwner ≠ leaseOwner then .error .leaseOwnerMismatch
  else
    match job.leaseDeadlineUtcMs with
    | none => .error .leaseExpired
    | some deadline => if deadline < nowMs then .error .leaseExpired else .ok .unit

/-- `_store_job_in_transaction`: the sealed payload and the file with its row
written over the row of that job id and version. -/
def storeJobInTransaction (c : Contracts) (s : Store) (payload : Job) (expectedVersion : ℕ) :
    Except JobV1Error (Job × Store) := do
  let sealed ← rehash c payload
  match s.jobs.find? sealed.jobId with
  | some row =>
    if row.version = expectedVersion then
      .ok (sealed, { s with jobs := s.jobs.set (rowOf sealed) })
    else .error .storeConflict
  | none => .error .storeConflict

/-- The text `f"{job_id}:{event_type}:v{version}"`. -/
def defaultEventId (jobId : String) (eventType : EventType) (version : ℕ) : String :=
  jobId ++ ":" ++ eventType.value ++ ":v" ++ version.repr

def stableEventId (eventId : Option String) (jobId : String) (eventType : EventType) (version : ℕ) : String :=
  (nonEmpty eventId).getD (defaultEventId jobId eventType version)

/-- `_append_event_in_transaction`. The search for the id and the INSERT under the
UNIQUE constraint are one step, as are the INSERT of the placeholder and the
UPDATE of the same row that fills in the event. -/
def appendEventInTransaction (c : Contracts) (s : Store) (jobId : String) (eventType : EventType)
    (job : Job) (eventId : Option String) : Except JobV1Error (Job × Store) :=
  let stable := stableEventId eventId jobId eventType job.version
  let sequence := s.lastSeq + 1
  let event : Event := ⟨stable,sequence,eventType,jobId,job.state,job.version⟩
  match s.events.insert? ⟨sequence,stable,jobId,event⟩ with
  -- a taken id leaves the row with its old cursor
  | none => .ok (job.withCursor stable, s)
  | some events => do
    let sealed ← rehash c (job.withCursor stable)
    .ok (sealed, { s with events := events, lastSeq := sequence }.updatePayload jobId sealed.version sealed)

/-- `_transition_in_transaction`; `updates` is the dictionary update. -/
def transitionInTransaction (c : Contracts) (s : Store) (job : Job) (target : JobState)
    (eventType : EventType) (nowMs : ℤ) (updates : Job → Job) (eventId : Option String) :
    Except JobV1Error (Job × Store) :=
  if target ∉ job.state.allowedTransitions then .error (.transitionNotAllowed job.state target)
  else do
    let (job', s') ← storeJobInTransaction c s
      { updates job with state := target, updatedAtUtcMs := nowMs, version := job.version + 1 }
      job.version
    appendEventInTransaction c s' job'.jobId eventType job' eventId

structure CreateArgs where
  jobId : Option String
  kind : String
  actor : Option String := none
  idempotencyKey : Option String := none
  parentJobId : Option String := none
  inputArtifactRefs : Option (List String) := none
  stackId : String := "openpine-5.0"
  maxRetries : ℤ := 3
  now : ℤ
  identity : Except String BuildIdentity

/-- The body that `create` hands to `_envelope`, in its envelope and not yet sealed. -/
def newJob (c : Contracts) (a : CreateArgs) (jobId : String) (kind : JobKind) (identity : BuildIdentity) : Job where
  envelope := {
    schemaId := "openpine.job.v1"
    schemaVersion := "1.0.0"
    producer := "openpine"
    producerVersion := identity.contractVersion
    producerCommit := identity.commit
    stackId := a.stackId
    createdAtUtcMs := a.now
    serializerId := c.serializerId
    contentHashAlg := "sha256" }
  jobId := jobId
  kind := kind
  state := .queued
  version := 1
  progress := 0
  startedAtUtcMs := none
  updatedAtUtcMs := a.now
  finishedAtUtcMs := none
  actor := a.actor
  inputArtifactRefs := a.inputArtifactRefs.getD []
  resultArtifactRefs := []
  errorCode := none
  idempotencyKey := a.idempotencyKey
  leaseOwner := none
  leaseDeadlineUtcMs := none
  retryCount := 0
  maxRetries := some a.maxRetries
  parentJobId := a.parentJobId
  childJobIds := []
  eventCursor := none
  runId := none
  contentHash := ""

def envelope (c : Contracts) (a : CreateArgs) (jobId : String) (kind : JobKind) : Except JobV1Error Job :=
  match a.identity with
  | .error text => .error (.buildIdentity text)
  | .ok identity => rehash c (newJob c a jobId kind identity)

/-- The block of `create` that records the new job among its parent's children. -/
def linkParent (c : Contracts) (s : Store) (parentJobId : Option String) (jobId : String) (now : ℤ) :
    Except JobV1Error Store :=
  match nonEmpty parentJobId with
  | none => .ok s
  | some parentId => do
    let parent ← getInTransaction c s parentId
    if jobId ∈ parent.childJobIds then .ok s
    else do
      let (parent', s') ← storeJobInTransaction c s
        { parent with
          childJobIds := parent.childJobIds ++ [jobId], updatedAtUtcMs := now, version := parent.version + 1 }
        parent.version
      let (_, s'') ← appendEventInTransaction c s' parentId .childLinked parent' none
      .ok s''

/-- The transaction of `create`, once the arguments have passed their checks. -/
def createInTransaction (c : Contracts) (s : Store) (a : CreateArgs) (jobId : String) (kind : JobKind) :
    Except JobV1Error (Job × Store) :=
  match (nonEmpty a.idempotencyKey).bind (byIdempotencyInTransaction s) with
  | some existing => .ok (existing, s)
  | none => do
    let payload ← envelope c a jobId kind
    match s.insertJob (rowOf payload) with
    -- the handler of the integrity error looks the key up once more
    | none =>
      match (nonEmpty a.idempotencyKey).bind (byIdempotencyInTransaction s) with
      | some existing => .ok (existing, s)
      | none => .error (.jobAlreadyExists jobId)
    | some s₁ => do
      let s₂ ← linkParent c s₁ a.parentJobId jobId a.now
      appendEventInTransaction c s₂ jobId .created payload none

def create (c : Contracts) (s : Store) (a : CreateArgs) : Except JobV1Error (Job × Store) :=
  match nonEmpty a.jobId with
  | none => .error .jobIdRequired
  | some jobId =>
    match JobKind.ofValue? a.kind with
    | none => .error (.unknownKind a.kind)
    | some kind =>
      if a.maxRetries < 0 then .error .negativeMaxRetries else createInTransaction c s a jobId kind

def markRunning (c : Contracts) (s : Store) (jobId leaseOwner : String) (leaseDeadlineUtcMs now : ℤ)
    (expectedVersion : Option ℤ) : Except JobV1Error (Job × Store) :=
  if leaseOwner = "" then .error .leaseOwnerRequired
  else if leaseDeadlineUtcMs ≤ now then .error .deadlineNotInFuture
  else do
    let job ← getInTransaction c s jobId
    requireVersion job expectedVersion
    transitionInTransaction c s job .running .running now
      (fun job => { job with
        startedAtUtcMs := some now, leaseOwner := some leaseOwner, leaseDeadlineUtcMs := some leaseDeadlineUtcMs }) none

def renewLease (c : Contracts) (s : Store) (jobId leaseOwner : String) (leaseDeadlineUtcMs now : ℤ)
    (expectedVersion : Option ℤ) : Except JobV1Error (Job × Store) :=
  if leaseDeadlineUtcMs ≤ now then .error .deadlineNotInFuture
  else do
    let job ← getInTransaction c s jobId
    requireVersion job expectedVersion
    requireLiveLease job (some leaseOwner) now
    let (job', s') ← storeJobInTransaction c s
      { job with leaseDeadlineUtcMs := some leaseDeadlineUtcMs, updatedAtUtcMs := now, version := job.version + 1 }
      job.version
    appendEventInTransaction c s' jobId .leaseRenewed job' none

def markSucceeded (c : Contracts) (s : Store) (jobId leaseOwner : String) (now : ℤ)
    (expectedVersion : Option ℤ) (resultArtifactRefs : Option (List String)) :
    Except JobV1Error (Job × Store) := do
  let job ← getInTransaction c s jobId
  requireVersion job expectedVersion
  if job.state ≠ .running then .error (.transitionNotAllowed job.state .succeeded)
  else do
    requireLiveLease job (some leaseOwner) now
    transitionInTransaction c s job .succeeded .succeeded now
      (fun job => { job with
        progress := 100, finishedAtUtcMs := some now, resultArtifactRefs := resultArtifactRefs.getD [],
        leaseOwner := none
        leaseDeadlineUtcMs := none }) none

def markFailed (c : Contracts) (s : Store) (jobId errorCode : String) (leaseOwner : Option String)
    (now : ℤ) (expectedVersion : Option ℤ) : Except JobV1Error (Job × Store) := do
  let job ← getInTransaction c s jobId
  requireVersion job expectedVersion
  if job.state = .running then requireLiveLease job leaseOwner now else .ok .unit
  transitionInTransaction c s job .failed .failed now
    (fun job => { job with
      finishedAtUtcMs := some now, errorCode := some errorCode, leaseOwner := none, leaseDeadlineUtcMs := none }) none

/-- `cancel` reads the clock twice, for `now_ms` and for `finished_at_utc_ms`. -/
def cancel (c : Contracts) (s : Store) (jobId : String) (idempotencyKey : Option String)
    (now finished : ℤ) : Except JobV1Error (Job × Store) := do
  let job ← getInTransaction c s jobId
  if job.state = .canceled then .ok (job, s)
  else
    transitionInTransaction c s job .canceled .canceled now
      (fun job => { job with finishedAtUtcMs := some finished, leaseOwner := none, leaseDeadlineUtcMs := none })
        idempotencyKey

def retry (c : Contracts) (s : Store) (jobId : String) (now : ℤ) : Except JobV1Error (Job × Store) := do
  let job ← getInTransaction c s jobId
  if job.state = .queued ∧ 0 < job.retryCount then .ok (job, s)
  else if job.maxRetries.any (fun m => m < (job.retryCount : ℤ) + 1) then .error .retryLimitReached
  else
    transitionInTransaction c s job .queued .retried now
      (fun job => { job with retryCount := job.retryCount + 1, finishedAtUtcMs := none, errorCode := none }) none

def recoverRow (c : Contracts) (nowMs : ℤ) (acc : ℕ × Store) (row : JobRow) : Except JobV1Error (ℕ × Store) :=
  match row.payload.leaseDeadlineUtcMs with
  | none => .ok acc
  | some deadline =>
    if nowMs ≤ deadline then .ok acc
    else do
      let (_, s') ← transitionInTransaction c acc.2 row.payload .lost .lost nowMs
        (fun job => { job with finishedAtUtcMs := some nowMs, leaseOwner := none, leaseDeadlineUtcMs := none }) none
      .ok (acc.1 + 1, s')

/-- `SELECT payload FROM jobs WHERE state = ? ORDER BY job_id` for the RUNNING state. -/
def runningRows (s : Store) : List JobRow :=
  (s.jobs.rows.filter (fun r => r.state = .running)).insertionSort (fun r r' => r.jobId ≤ r'.jobId)

def recoverLostLeases (c : Contracts) (s : Store) (nowMs : ℤ) : Except JobV1Error (ℕ × Store) :=
  (runningRows s).foldlM (recoverRow c nowMs) (0, s)

inductive Op
  | create (a : CreateArgs)
  | markRunning (jobId leaseOwner : String) (leaseDeadlineUtcMs now : ℤ) (expectedVersion : Option ℤ)
  | renewLease (jobId leaseOwner : String) (leaseDeadlineUtcMs now : ℤ) (expectedVersion : Option ℤ)
  | markSucceeded (jobId leaseOwner : String) (now : ℤ) (expectedVersion : Option ℤ)
      (resultArtifactRefs : Option (List String))
  | markFailed (jobId errorCode : String) (leaseOwner : Option String) (now : ℤ) (expectedVersion : Option ℤ)
  | cancel (jobId : String) (idempotencyKey : Option String) (now finished : ℤ)
  | retry (jobId : String) (now : ℤ)
  | recoverLostLeases (nowMs : ℤ)

inductive Result
  | job (payload : Job)
  | recovered (count : ℕ)
deriving DecidableEq

def jobResult (r : Except JobV1Error (Job × Store)) : Except JobV1Error (Result × Store) :=
  r.map (fun p => (.job p.1, p.2))

def exec (c : Contracts) (s : Store) : Op → Except JobV1Error (Result × Store)
  | .create a => jobResult (create c s a)
  | .markRunning id owner deadline now v => jobResult (markRunning c s id owner deadline now v)
  | .renewLease id owner deadline now v => jobResult (renewLease c s id owner deadline now v)
  | .markSucceeded id owner now v refs => jobResult (markSucceeded c s id owner now v refs)
  | .markFailed id code owner now v => jobResult (markFailed c s id code owner now v)
  | .cancel id key now finished => jobResult (cancel c s id key now finished)
  | .retry id now => jobResult (retry c s id now)
  | .recoverLostLeases now => (recoverLostLeases c s now).map (fun p => (.recovered p.1, p.2))

def step (c : Contracts) (s : Store) (op : Op) : Store := settle s (exec c s op)

def CreateArgs.plain (jobId : String) : CreateArgs where
  jobId := some jobId
  kind := "backtest"
  now := 0
  identity := .ok ⟨"5.0.0","0000000"⟩

/-! ### Reading operations -/

/-- `events(after=...)`: the payloads of the rows after the anchor, ordered by `seq`. -/
def events (s : Store) (after : String) : List Event :=
  if after ≠ "" then
    match s.events.find? after with
    | none => []
    | some anchor =>
      ((s.events.rows.filter (fun r => anchor.seq < r.seq)).insertionSort
        (fun r r' => r.seq ≤ r'.seq)).map EventRow.payload
  else (s.events.rows.insertionSort (fun r r' => r.seq ≤ r'.seq)).map EventRow.payload

def needsResync (s : Store) (after : String) : Bool :=
  if after = "" then false else (s.events.find? after).isNone

/-- The sort key `(-created_at_utc_ms, job_id)` of `list_jobs`. -/
def listKey (job : Job) : ℤ ×ₗ String := toLex (-job.envelope.createdAtUtcMs, job.jobId)

structure Page where
  items : List Job
  cursor : Option String
deriving DecidableEq

/-- The filter arguments of `list_jobs`; an absent or empty one accepts every job. -/
def matchesFilters (kind state : Option String) (job : Job) : Bool :=
  ((nonEmpty kind).all fun k => job.kind.value = k) &&
    ((nonEmpty state).all fun st => job.state.value = st)

/-- The rest of the list behind the cursor's job, or the whole list when it is not in it. -/
def afterCursor (cursor : Option String) (jobs : List Job) : List Job :=
  match nonEmpty cursor with
  | none => jobs
  | some id =>
    match jobs.findIdx? (fun job => job.jobId = id) with
    | some index => jobs.drop (index + 1)
    | none => jobs

def listJobs (s : Store) (kind state cursor : Option String) (limit : ℤ) : Page :=
  let sorted := (s.jobs.rows.map JobRow.payload).insertionSort (fun a b => listKey a ≤ listKey b)
  let jobs := afterCursor cursor (sorted.filter (matchesFilters kind state))
  let boundedLimit := (max 1 (min limit 1000)).toNat
  let page := jobs.take boundedLimit
  ⟨page,if page.length < jobs.length then page.getLast?.map Job.jobId else none⟩

end OpenPine.Jobs
