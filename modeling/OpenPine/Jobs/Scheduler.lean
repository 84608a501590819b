import OpenPine.Foundation.Python
import Mathlib.Data.List.Sort
import Mathlib.Data.Prod.Lex

/-! # The in-memory job scheduler

`JobScheduler` of `openpine/jobs/scheduler.py`. Jobs are Python objects that the
callers share with the scheduler, so the queue and the dictionary of jobs hold
references into a heap, and a status set through one of them is seen through the
other. Every method is one step, since it holds the lock of the scheduler. Clock
readings and fresh ids are arguments.
-/
namespace OpenPine.Scheduling
open Python

inductive JobStatus
  | pending | running | done | failed | cancelled
deriving DecidableEq, Repr

structure Job where
  id : String
  status : JobStatus := .pending
  idempotencyKey : Option String := none
  serializationKey : Option String := none
  priority : ℤ := 0
  (createdAt updatedAt : ℤ)
  startedAt : Option ℤ := none
  finishedAt : Option ℤ := none
  error : Option String := none
  result : Option String := none
deriving DecidableEq

def Job.touch (job : Job) (now : ℤ) : Job := { job with updatedAt := now }

structure Uuid where
  text : String
  nonempty : text ≠ ""

abbrev Ref := ℕ

structure JobScheduler where
  heap : List Job
  queue : List Ref
  jobs : Dict String Ref
  (running idempotencyMap : Dict String String)

def JobScheduler.empty : JobScheduler := ⟨[],[],.empty,.empty,.empty⟩

namespace JobScheduler

/-- The sort key `(-priority, created_at)` of the queue. -/
def sortKey (s : JobScheduler) (r : Ref) : ℤ ×ₗ ℤ :=
  match s.heap[r]? with
  | some job => toLex (-job.priority, job.createdAt)
  | none => toLex (0, 0)

def requeueSort (s : JobScheduler) : JobScheduler :=
  { s with queue := s.queue.insertionSort (fun r r' => s.sortKey r ≤ s.sortKey r') }

/-- The job that `enqueue` answers a repeated idempotency key with. -/
def duplicateOf (s : JobScheduler) (job : Job) : Option Ref :=
  (nonEmpty job.idempotencyKey).bind fun key =>
    (Dict.get? s.idempotencyMap key).bind (Dict.get? s.jobs)

def enqueueId (job : Job) (uuid : Uuid) : String := if job.id = "" then uuid.text else job.id

def enqueue (s : JobScheduler) (r : Ref) (uuid : Uuid) : Ref × JobScheduler :=
  match s.heap[r]? with
  -- no such object: not a call of the program
  | none => (r, s)
  | some job =>
    match s.duplicateOf job with
    | some existing => (existing, s)
    | none =>
      let id := enqueueId job uuid
      let s₁ := { s with
        heap := s.heap.set r { job with id := id }
        jobs := Dict.put s.jobs id r
        idempotencyMap :=
          match nonEmpty job.idempotencyKey with
          | some key => Dict.put s.idempotencyMap key id
          | none => s.idempotencyMap
        queue := s.queue ++ [r] }
      (r, s₁.requeueSort)

def ready (s : JobScheduler) (r : Ref) : Bool :=
  match s.heap[r]? with
  | none => false
  | some job =>
    job.status = .pending && (nonEmpty job.serializationKey).all (fun key => (Dict.get? s.running key).isNone)

def dequeue (s : JobScheduler) : Option Ref × JobScheduler :=
  match s.queue.findIdx? s.ready with
  | none => (none, s)
  | some i => (s.queue[i]?, { s with queue := s.queue.eraseIdx i })

def job? (s : JobScheduler) (jobId : String) : Option Job := (Dict.get? s.jobs jobId).bind (s.heap[·]?)

def assign (s : JobScheduler) (jobId : String) (update : Job → Job) : JobScheduler :=
  match Dict.get? s.jobs jobId with
  | none => s
  | some r => { s with heap := s.heap.modify r update }

/-- `_running[key] = job_id` for a job with a key. -/
def register (s : JobScheduler) (job : Job) (jobId : String) : JobScheduler :=
  match nonEmpty job.serializationKey with
  | none => s
  | some key => { s with running := Dict.put s.running key jobId }

/-- `del _running[key]` if the job holds its key. -/
def unregister (s : JobScheduler) (job : Job) (jobId : String) : JobScheduler :=
  match nonEmpty job.serializationKey with
  | none => s
  | some key =>
    if Dict.get? s.running key = some jobId then { s with running := Dict.del s.running key } else s

def markRunning (s : JobScheduler) (jobId : String) (now touched : ℤ) : JobScheduler :=
  match s.job? jobId with
  | none => s
  | some job =>
    (s.assign jobId fun job => ({ job with status := .running, startedAt := some now }).touch touched).register
      job jobId

def finish (s : JobScheduler) (jobId : String) (update : Job → Job) : JobScheduler :=
  match s.job? jobId with
  | none => s
  | some job => (s.assign jobId update).unregister job jobId

def markDone (s : JobScheduler) (jobId : String) (result : Option String) (now touched : ℤ) : JobScheduler :=
  s.finish jobId fun job =>
    ({ job with status := .done, finishedAt := some now, result := result }).touch touched

def markFailed (s : JobScheduler) (jobId error : String) (now touched : ℤ) : JobScheduler :=
  s.finish jobId fun job =>
    ({ job with status := .failed, finishedAt := some now, error := some error }).touch touched

def cancel (s : JobScheduler) (jobId : String) (now touched : ℤ) : JobScheduler :=
  match s.job? jobId with
  | none => s
  | some job =>
    if job.status = .done ∨ job.status = .failed ∨ job.status = .cancelled then s
    else s.finish jobId fun job => ({ job with status := .cancelled, finishedAt := some now }).touch touched

end JobScheduler

/-- The calls of the producers and workers; `new` is a producer's construction of a job object. -/
inductive Op
  | new (job : Job)
  | enqueue (r : Ref) (uuid : Uuid)
  | dequeue
  | markRunning (jobId : String) (now touched : ℤ)
  | markDone (jobId : String) (result : Option String) (now touched : ℤ)
  | markFailed (jobId error : String) (now touched : ℤ)
  | cancel (jobId : String) (now touched : ℤ)

/-- The scheduler and the ids of the jobs that `dequeue` has handed to workers. -/
structure System where
  scheduler : JobScheduler
  handed : List String

def System.start : System := ⟨.empty,[]⟩

def System.step (σ : System) : Op → System
  | .new job => { σ with scheduler := { σ.scheduler with heap := σ.scheduler.heap ++ [job] } }
  | .enqueue r uuid => { σ with scheduler := (σ.scheduler.enqueue r uuid).2 }
  | .dequeue =>
    let (r, s) := σ.scheduler.dequeue
    ⟨s,σ.handed ++ ((r.bind (s.heap[·]?)).map Job.id).toList⟩
  | .markRunning id now touched => { σ with scheduler := σ.scheduler.markRunning id now touched }
  | .markDone id result now touched => { σ with scheduler := σ.scheduler.markDone id result now touched }
  | .markFailed id error now touched => { σ with scheduler := σ.scheduler.markFailed id error now touched }
  | .cancel id now touched => { σ with scheduler := σ.scheduler.cancel id now touched }

end OpenPine.Scheduling
