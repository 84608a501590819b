import OpenPine.Foundation.Runs
import OpenPine.Jobs.Scheduler

/-! # Backfill requests and their jobs

`data_backfill` enqueues a job under a key made of the values of the request, persists it and starts its run. The
scheduler keeps every job under its key, in whatever status the run or the failing request has left it.
-/
namespace OpenPine.Scheduling
open Runs Python JobScheduler Option

/-- `DataBackfillRequest` with the window in milliseconds. -/
structure DataBackfillRequest where
  (symbol timeframe : String)
  (fromMs toMs : ℤ)
  (exchange marketType : String)

def DataBackfillRequest.idempotencyKey (body : DataBackfillRequest) : String :=
  "data-backfill:" ++ (lower body.exchange ++ ":" ++ lower body.marketType ++ ":" ++ upper body.symbol ++ ":" ++
    body.timeframe ++ ":" ++ toString body.fromMs ++ ":" ++ toString body.toMs)

def candidate (body : DataBackfillRequest) (uuid : Uuid) (now : ℤ) : Job :=
  { id := uuid.text, idempotencyKey := some body.idempotencyKey, createdAt := now, updatedAt := now }

def JobScheduler.construct (s : JobScheduler) (job : Job) : JobScheduler := { s with heap := s.heap ++ [job] }

def JobScheduler.jobFor (s : JobScheduler) (key : String) : Option Ref :=
  (Dict.get? s.idempotencyMap key).bind (Dict.get? s.jobs)

/-- `tasks` are the jobs whose run waits for the response of its request, `active` those between `mark_running` and the
end of the run. `answered` are the requests that got a job, the last one first, and whether they raised after that. -/
structure Gateway where
  scheduler : JobScheduler := .empty
  tasks : List String := []
  active : List String := []
  answered : List (String × Bool) := []

namespace Gateway

def enqueued (w : Gateway) (body : DataBackfillRequest) (uuid : Uuid) (now : ℤ) : Ref × JobScheduler :=
  (w.scheduler.construct (candidate body uuid now)).enqueue w.scheduler.heap.length uuid

/-- `job.id == candidate.id and job.status == JobStatus.PENDING` -/
def Starts (w : Gateway) (body : DataBackfillRequest) (uuid : Uuid) (now : ℤ) : Prop :=
  ∃ job ∈ (w.enqueued body uuid now).2.heap[(w.enqueued body uuid now).1]?, job.id = uuid.text ∧ job.status = .pending

instance decidableStarts (w : Gateway) (body : DataBackfillRequest) (uuid : Uuid) (now : ℤ) :
    Decidable (w.Starts body uuid now) := inferInstanceAs (Decidable (∃ job ∈ (_ : Option Job), _))

inductive Event
  /-- `raises`: persisting the job or announcing its progress raises, and no task runs after an error response. -/
  | dataBackfill (body : DataBackfillRequest) (uuid : Uuid) (now : ℤ) (raises : Bool)
  | start (jobId : String) (now touched : ℤ)
  /-- The result and the error of a run, which has both if it raises after `mark_done` and none if it raises before
  the block that catches errors. -/
  | finish (jobId : String) (result error : Option String) (now touched : ℤ)

def step (w : Gateway) : Event → Gateway
  | .dataBackfill body uuid now raises =>
    { w with
      scheduler := (w.enqueued body uuid now).2
      tasks := if ¬raises ∧ w.Starts body uuid now then w.tasks ++ [uuid.text] else w.tasks
      answered := (body.idempotencyKey, raises) :: w.answered }
  | .start jobId now touched =>
    if jobId ∈ w.tasks ∧ (w.scheduler.job? jobId).any (fun job => job.status = .pending) then
      { w with
        scheduler := w.scheduler.markRunning jobId now touched, tasks := w.tasks.erase jobId
        active := w.active ++ [jobId] }
    else { w with tasks := w.tasks.erase jobId }
  | .finish jobId result error now touched =>
    if jobId ∈ w.active then
      let s₁ := match result with
        | some result => w.scheduler.markDone jobId (some result) now touched
        | none => w.scheduler
      { w with
        scheduler := match error with
          | some error => s₁.markFailed jobId error now touched
          | none => s₁
        active := w.active.erase jobId }
    else w

/-- The latest request for these values raised after its job was enqueued, or its job has FAILED. -/
def FailedBefore (w : Gateway) (body : DataBackfillRequest) : Prop :=
  w.answered.lookup body.idempotencyKey = some true ∨
    ∃ r job, w.scheduler.jobFor body.idempotencyKey = some r ∧ w.scheduler.heap[r]? = some job ∧ job.status = .failed

def Restarts (w : Gateway) : Event → Prop
  | .dataBackfill body uuid now false => w.FailedBefore body → w.Starts body uuid now
  | _ => True

/-- The job of an earlier request for these values still waits, and `uuid` has drawn its id again. -/
def Redrawn (w : Gateway) (body : DataBackfillRequest) (uuid : Uuid) : Prop :=
  ∃ r, w.scheduler.jobFor body.idempotencyKey = some r ∧ ∃ job ∈ w.scheduler.heap[r]?, job.id = uuid.text ∧
    job.status = .pending

def RepeatsFailure (w : Gateway) : Event → Prop
  | .dataBackfill body uuid _ false => w.FailedBefore body ∧ ¬w.Redrawn body uuid
  | _ => False

def StartsNewOnly (w : Gateway) : Event → Prop
  | .dataBackfill body uuid now _ =>
    w.Starts body uuid now ↔ w.scheduler.jobFor body.idempotencyKey = none ∨ w.Redrawn body uuid
  | _ => True

structure Kept (w : Gateway) : Prop where
  answered : ∀ key, (w.answered.lookup key).isSome → (w.scheduler.jobFor key).isSome
  refs : ∀ id r, Dict.get? w.scheduler.jobs id = some r → r < w.scheduler.heap.length

variable {w : Gateway} {body : DataBackfillRequest} {uuid : Uuid} {now : ℤ} {s s' : JobScheduler}

theorem key_nonEmpty (body : DataBackfillRequest) : nonEmpty (some body.idempotencyKey) = some body.idempotencyKey := by
  exact nonEmpty_eq_some.mpr ⟨rfl,by simp [DataBackfillRequest.idempotencyKey]⟩

theorem construct_last (s : JobScheduler) (job : Job) : (s.construct job).heap[s.heap.length]? = some job :=
  List.getElem?_concat_length

theorem duplicateOf_candidate : (s.construct (candidate body uuid now)).duplicateOf (candidate body uuid now) =
    s.jobFor body.idempotencyKey := by
  rw [duplicateOf, candidate, key_nonEmpty]
  rfl

theorem enqueued_of_known {r : Ref} (h : w.scheduler.jobFor body.idempotencyKey = some r) :
    w.enqueued body uuid now = (r, w.scheduler.construct (candidate body uuid now)) := by
  simp only [enqueued, enqueue, construct_last, duplicateOf_candidate, h]

theorem enqueued_of_new (h : w.scheduler.jobFor body.idempotencyKey = none) :
    w.enqueued body uuid now = (w.scheduler.heap.length, requeueSort {
      w.scheduler.construct (candidate body uuid now) with
      jobs := w.scheduler.jobs.put uuid.text w.scheduler.heap.length
      idempotencyMap := w.scheduler.idempotencyMap.put body.idempotencyKey uuid.text
      queue := w.scheduler.queue ++ [w.scheduler.heap.length] }) := by
  have hid : enqueueId (candidate body uuid now) uuid = uuid.text := if_neg uuid.nonempty
  have hkey : nonEmpty (candidate body uuid now).idempotencyKey = some body.idempotencyKey := key_nonEmpty body
  have hset : (w.scheduler.construct (candidate body uuid now)).heap.set w.scheduler.heap.length
      { candidate body uuid now with id := uuid.text } = w.scheduler.heap ++ [candidate body uuid now] := by
    simp [construct, candidate]
  simp only [enqueued, enqueue, construct_last, duplicateOf_candidate, h, hid, hkey, hset]
  rfl

theorem starts_iff (hkept : w.Kept) : w.Starts body uuid now ↔
    w.scheduler.jobFor body.idempotencyKey = none ∨ w.Redrawn body uuid := by
  cases h : w.scheduler.jobFor body.idempotencyKey with
  | none =>
    refine iff_of_true ⟨candidate body uuid now,?_,rfl,rfl⟩ (.inl rfl)
    rw [enqueued_of_new h]
    exact List.getElem?_concat_length
  | some r =>
    obtain ⟨id,-,hr⟩ := bind_eq_some_iff.mp h
    have hold : (w.scheduler.construct (candidate body uuid now)).heap[r]? = w.scheduler.heap[r]? :=
      List.getElem?_append_left (hkept.refs id r hr)
    simp only [Starts, Redrawn, enqueued_of_known h, hold, h, reduceCtorEq, false_or, Option.some.injEq,
      exists_eq_left']

/-! ### Jobs stay under their keys -/

/-- The statuses of jobs change, and what the scheduler finds under ids and keys does not. -/
structure SameJobs (s s' : JobScheduler) : Prop where
  jobs : s'.jobs = s.jobs
  keys : s'.idempotencyMap = s.idempotencyMap
  heap : s'.heap.length = s.heap.length

theorem SameJobs.refl (s : JobScheduler) : SameJobs s s := ⟨rfl,rfl,rfl⟩

theorem SameJobs.finish (h : SameJobs s s') (jobId : String) (update : Job → Job) :
    SameJobs s (s'.finish jobId update) := by
  unfold JobScheduler.finish JobScheduler.assign JobScheduler.unregister
  repeat' split
  all_goals exact ⟨h.jobs,h.keys,by simpa using h.heap⟩

theorem sameJobs_markRunning (jobId : String) (now touched : ℤ) : SameJobs s (s.markRunning jobId now touched) := by
  unfold markRunning assign register
  repeat' split
  all_goals exact ⟨rfl,rfl,by simp⟩

theorem Kept.sameJobs {w' : Gateway} (hkept : w.Kept) (h : SameJobs w.scheduler w'.scheduler)
    (hanswered : w'.answered = w.answered) : w'.Kept := by
  refine ⟨fun key hkey => ?_,fun id r hr => ?_⟩
  · rw [jobFor, h.jobs, h.keys]
    exact hkept.answered key (hanswered ▸ hkey)
  · rw [h.heap]
    exact hkept.refs id r (h.jobs ▸ hr)

theorem Kept.dataBackfill (hkept : w.Kept) (raises : Bool) : (w.step (.dataBackfill body uuid now raises)).Kept := by
  have hlen : w.scheduler.heap.length < (w.scheduler.heap ++ [candidate body uuid now]).length := by simp
  have hput (id : String) : Dict.get? (w.scheduler.jobs.put uuid.text w.scheduler.heap.length) id =
      if uuid.text = id then some w.scheduler.heap.length else w.scheduler.jobs.get? id := Dict.get?_put _ _ _ _
  cases h : w.scheduler.jobFor body.idempotencyKey with
  | some =>
    simp only [step, enqueued_of_known h]
    refine ⟨fun key hkey => ?_,fun id r' hr' => (hkept.refs id r' hr').trans hlen⟩
    by_cases he : key = body.idempotencyKey
    · exact isSome_of_eq_some (he ▸ h)
    · rw [List.lookup_cons, beq_false_of_ne he] at hkey
      exact hkept.answered key hkey
  | none =>
    simp only [step, enqueued_of_new h]
    refine ⟨fun key hkey => ?_,fun id r' hr' => ?_⟩
    · show ((Dict.get? (w.scheduler.idempotencyMap.put body.idempotencyKey uuid.text) key).bind
        (Dict.get? (w.scheduler.jobs.put uuid.text w.scheduler.heap.length))).isSome
      rw [Dict.get?_put]
      split <;> rename_i he
      · simp [hput]
      · rw [List.lookup_cons, beq_false_of_ne (Ne.symm he)] at hkey
        obtain ⟨r,hr⟩ := isSome_iff_exists.mp (hkept.answered key hkey)
        obtain ⟨id,hid,hjob⟩ := bind_eq_some_iff.mp hr
        rw [hid, bind_some, hput]
        split <;> simp [hjob]
    · replace hr' := (hput id).symm.trans hr'
      split at hr'
      · cases hr'
        exact hlen
      · exact (hkept.refs id r' hr').trans hlen

/-- Every event keeps the answered requests in the scheduler. -/
theorem Kept.step (hkept : w.Kept) (e : Event) : (w.step e).Kept := by
  cases e with
  | dataBackfill _ _ _ raises => exact hkept.dataBackfill raises
  | start jobId now touched =>
    unfold Gateway.step
    dsimp only
    split
    · exact hkept.sameJobs (sameJobs_markRunning jobId now touched) rfl
    · exact hkept.sameJobs (.refl _) rfl
  | finish _ result error =>
    unfold Gateway.step
    dsimp only
    split
    · refine hkept.sameJobs ?_ rfl
      cases result <;> cases error
      · exact .refl _
      · exact (SameJobs.refl _).finish _ _
      · exact (SameJobs.refl _).finish _ _
      · exact ((SameJobs.refl _).finish _ _).finish _ _
    · exact hkept

theorem kept_start : ({} : Gateway).Kept := ⟨nofun,nofun⟩

theorem FailedBefore.known (hkept : w.Kept) (h : w.FailedBefore body) :
    w.scheduler.jobFor body.idempotencyKey ≠ none := by
  obtain hraised | ⟨r,job,hr,-,-⟩ := h
  · exact isSome_iff_ne_none.mp (hkept.answered _ (isSome_of_eq_some hraised))
  · rw [hr]
    exact nofun

theorem restarts_iff (hkept : w.Kept) (e : Event) : w.Restarts e ↔ ¬w.RepeatsFailure e := by
  match e with
  | .dataBackfill body uuid now false =>
    simp only [Restarts, RepeatsFailure, starts_iff hkept, not_and, not_not]
    refine forall_congr' fun h => ?_
    rw [or_iff_right (h.known hkept)]
  | .dataBackfill _ _ _ true | .start _ _ _ | .finish _ _ _ _ _ => simp [Restarts, RepeatsFailure]

/-- A request starts a run for new values only, so after a failure the same request restarts nothing, unless it draws
the id of the job that still waits. -/
theorem failed_backfill_restarts_iff (events : List Event) : EachStep step StartsNewOnly {} events ∧
      (EachStep step Restarts {} events ↔ EachStep step (fun w e => ¬w.RepeatsFailure e) {} events) := by
  refine ⟨eachStep_of_invariant (I := Kept) (K := fun _ => True) (fun _ e h _ => h.step e)
    (fun w e h _ => ?_) kept_start
    fun _ _ => trivial,eachStep_congr (I := Kept) (K := fun _ => True) (fun _ e h _ _ => h.step e)
      (fun _ e h _ => restarts_iff h e) kept_start fun _ _ => trivial⟩
  cases e with
  | dataBackfill => exact starts_iff h
  | start | finish => trivial

/-- The provider fails in the run of the first request, and the second one is answered as its duplicate. -/
theorem failed_backfill_deduplicated :
    ¬EachStep step Restarts {} [.dataBackfill ⟨"BTCUSDT","1h",0,3600000,"binance","spot"⟩ ⟨"a",by decide⟩ 1 false,
      .start "a" 2 2, .finish "a" none (some "timeout") 3 3,
      .dataBackfill ⟨"BTCUSDT","1h",0,3600000,"binance","spot"⟩ ⟨"b",by decide⟩ 4 false] := by
  rintro ⟨-,-,-,h,-⟩
  exact absurd (h (.inr ⟨0,_,by decide,rfl,by decide⟩)) (by decide)

end Gateway
end OpenPine.Scheduling
