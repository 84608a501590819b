import OpenPine.Jobs.EventLog

/-! # The job of an optimizer search

`optimizer_search` from the moment its job is recorded. The lease of the job is for one hour, whatever the search takes.
Nobody else works on the job meanwhile.
-/
namespace OpenPine.Jobs

/-- A step raises `TypeError` or `ValueError`, or another `Exception`. A request that is cancelled while it waits is not
among them: it passes by every handler and leaves the job running. -/
inductive Raised
  | value (text : String)
  | other

/-- The status of the response, or the code and the detail of the `HTTPException`. -/
inductive Answer
  | response (status : String)
  | raised (code : ℕ) (detail : String)
deriving DecidableEq

def Raised.answer : Raised → Answer
  | .value text => .raised 400 text
  | .other => .raised 500 "Optimizer search failed"

def persistenceFailed : Answer := .raised 503 "JOB_PERSISTENCE_FAILED"

/-- The step that fails from outside. The calls of the store raise a `JobV1Error` if no other error is given. -/
inductive FailingStep
  | markRunning (e : Option Raised)
  | runConfig (e : Raised)
  | search (e : Raised)
  | getResult (e : Raised)
  | markFinished (e : Option Raised)

/-- `asked` is the clock when the lease is asked for, `started` and `finished` when the store marks the job. -/
structure OptimizerSearch where
  optimizationId : String
  (asked started finished : ℤ)
  failing : Option FailingStep
  (resultId resultStatus : String)

namespace OptimizerSearch

def leaseOwner (q : OptimizerSearch) : String := "gateway:" ++ q.optimizationId

def deadline (q : OptimizerSearch) : ℤ := q.asked + 3600000

def mark (c : Contracts) (s : Store) (q : OptimizerSearch) (id : String) (completed : Bool) :
    Except JobV1Error (Job × Store) :=
  if completed then markSucceeded c s id q.leaseOwner q.finished none (some ["optimizer:" ++ id])
  else markFailed c s id "OPTIMIZER_SEARCH_FAILED" (some q.leaseOwner) q.finished none

/-- `_terminalize_optimizer_job`, which only logs the errors of the store. -/
def terminalize (c : Contracts) (s : Store) (q : OptimizerSearch) : Store :=
  match q.mark c s q.resultId (q.resultStatus = "completed") with
  | .ok (_, s') => s'
  | .error _ => s

def fail (c : Contracts) (s : Store) (q : OptimizerSearch) (e : Raised) : Answer × Store :=
  match q.mark c s q.optimizationId false with
  | .ok (_, s') => (e.answer, s')
  | .error _ => (persistenceFailed, s)

def afterStart (c : Contracts) (s : Store) (q : OptimizerSearch) : Answer × Store :=
  match q.failing with
  | some (.runConfig e) => (e.answer, s)
  | some (.search e) => q.fail c s e
  | some (.getResult e) => q.fail c s e
  | some (.markFinished (some e)) => (e.answer, s)
  | some (.markFinished none) => (.response q.resultStatus, s)
  | _ => (.response q.resultStatus, q.terminalize c s)

def optimizerSearch (c : Contracts) (s : Store) (q : OptimizerSearch) : Answer × Store :=
  match q.failing with
  | some (.markRunning e) => ((e.map Raised.answer).getD persistenceFailed, s)
  | _ =>
    match markRunning c s q.optimizationId q.leaseOwner q.deadline q.started none with
    | .ok (_, s') => q.afterStart c s'
    | .error _ => (persistenceFailed, s)

def Agrees (id : String) (r : Answer × Store) : Prop :=
  match r.1 with
  | .response status => stateOf (r.2.job? id) = some (if status = "completed" then .succeeded else .failed)
  | .raised _ _ => stateOf (r.2.job? id) = some .failed ∨ stateOf (r.2.job? id) = some .canceled

/-- The lease outlives the search, and what fails is at most the search or the reading of its result, which is that of
the job. -/
structure Marked (q : OptimizerSearch) : Prop where
  started : q.started < q.deadline
  finished : q.finished ≤ q.deadline
  failing : match q.failing with
    | none => q.resultId = q.optimizationId
    | some (.search _) | some (.getResult _) => True
    | _ => False

structure Leased (c : Contracts) (s : Store) (q : OptimizerSearch) : Prop where
  consistent : s.Consistent c
  job : ∃ job, s.job? q.optimizationId = some job ∧ job.state = .running ∧
    ∀ now, job.LiveLease q.leaseOwner now ↔ now ≤ q.deadline

variable {c : Contracts} {s s' : Store} {q : OptimizerSearch} {job job' : Job}

theorem leaseOwner_ne (q : OptimizerSearch) : q.leaseOwner ≠ "" := by simp [leaseOwner]

/-- Marked running, the job has the lease of the search. -/
theorem leased_of_markRunning (hs : s.Consistent c)
    (h : markRunning c s q.optimizationId q.leaseOwner q.deadline q.started none = .ok (job', s')) : q.Leased c s' := by
  obtain ⟨hne,hlt,job,hjob,-,hqueued,hacc,hr⟩ := (markRunning_ok_iff hs).mp h
  cases hr
  have hid := hs.jobId_eq hjob
  have hpayload : s.job? (runningWrite job q.leaseOwner q.deadline q.started).payload.jobId = some job := by
    rw [← hjob, ← hid]
    rfl
  refine ⟨Write.commit_consistent _ hs hpayload (.running hqueued hne hlt) hacc.2,_,
    hid ▸ Write.commit_job?_self _ hs hpayload,Write.persisted_state c s _,fun now => ?_⟩
  obtain ⟨cursor,hash,hpers⟩ := (runningWrite job q.leaseOwner q.deadline q.started).persisted_eq c s
  rw [hpers]
  simp [Job.LiveLease, runningWrite, hne]

/-- A call that returns has written the final state over the job of that id. -/
theorem mark_written (hs : s.Consistent c) {id : String} {completed : Bool}
    (h : q.mark c s id completed = .ok (job', s')) :
    ∃ w : Write, w.payload.jobId = id ∧ w.payload.state = (if completed then .succeeded else .failed) ∧
      s' = w.commit c s ∧ ∃ job, s.job? w.payload.jobId = some job := by
  cases completed with
  | true =>
    obtain ⟨job,hjob,-,-,-,-,hr⟩ := (markSucceeded_ok_iff hs).mp h
    cases hr
    have hid := hs.jobId_eq hjob
    exact ⟨_,hid,rfl,rfl,job,by rw [← hjob, ← hid]; rfl⟩
  | false =>
    obtain ⟨job,hjob,-,-,-,hr⟩ := (markFailed_ok_iff hs).mp h
    cases hr
    have hid := hs.jobId_eq hjob
    exact ⟨_,hid,rfl,rfl,job,by rw [← hjob, ← hid]; rfl⟩

theorem mark_succeeds_iff (hc : c.Accepts) (h : q.Leased c s) (completed : Bool) :
    (∃ r, q.mark c s q.optimizationId completed = .ok r) ↔ q.finished ≤ q.deadline := by
  obtain ⟨hs,job,hjob,hrun,hlive⟩ := h
  have hver : versionMatches job none := nofun
  rw [← hlive]
  constructor
  · rintro ⟨r,hr⟩
    cases completed with
    | true =>
      obtain ⟨job',hjob',-,-,hl,-⟩ := (markSucceeded_ok_iff hs).mp hr
      cases hjob.symm.trans hjob'
      exact hl
    | false =>
      obtain ⟨job',hjob',-,hq | ⟨-,o,ho,hl⟩,-⟩ := (markFailed_ok_iff hs).mp hr
      · cases hjob.symm.trans hjob'
        cases hrun.symm.trans hq
      · cases hjob.symm.trans hjob'
        cases ho
        exact hl
  · intro hl
    cases completed with
    | true => exact ⟨_,(markSucceeded_ok_iff hs).mpr ⟨job,hjob,hver,hrun,hl,hc.write _ _,rfl⟩⟩
    | false => exact ⟨_,(markFailed_ok_iff hs).mpr ⟨job,hjob,hver,.inr ⟨hrun,_,rfl,hl⟩,hc.write _ _,rfl⟩⟩

theorem Leased.state (h : q.Leased c s) : stateOf (s.job? q.optimizationId) = some .running := by
  obtain ⟨-,job,hjob,hrun,-⟩ := h
  rw [hjob]
  exact congrArg some hrun

section
variable (hc : c.Accepts) (h : q.Leased c s)
include hc h

theorem terminalize_state : stateOf ((q.terminalize c s).job? q.optimizationId) =
    some (if q.resultId = q.optimizationId ∧ q.finished ≤ q.deadline then
      if q.resultStatus = "completed" then .succeeded else .failed else .running) := by
  unfold terminalize
  split <;> rename_i hr
  · obtain ⟨w,hid,hstate,rfl,job,hjob⟩ := mark_written h.consistent hr
    by_cases he : q.resultId = q.optimizationId
    · have hlive := (mark_succeeds_iff hc h _).mp ⟨_,he ▸ hr⟩
      rw [if_pos ⟨he,hlive⟩, ← he, ← hid, w.commit_job?_self h.consistent hjob]
      simpa [stateOf] using hstate
    · rw [if_neg (fun h => he h.1), w.commit_job?_other h.consistent hjob (hid ▸ he), h.state]
  · rw [if_neg, h.state]
    rintro ⟨he,hlive⟩
    obtain ⟨r,hok⟩ := (mark_succeeds_iff hc h _).mpr hlive
    rw [← he, hr] at hok
    cases hok

theorem fail_state (e : Raised) : (∃ code detail, (q.fail c s e).1 = .raised code detail) ∧
      stateOf ((q.fail c s e).2.job? q.optimizationId) =
        some (if q.finished ≤ q.deadline then .failed else .running) := by
  unfold fail
  split <;> rename_i hr
  · obtain ⟨w,hid,hstate,rfl,job,hjob⟩ := mark_written h.consistent hr
    rw [if_pos ((mark_succeeds_iff hc h _).mp ⟨_,hr⟩), ← hid, w.commit_job?_self h.consistent hjob]
    exact ⟨by cases e <;> exact ⟨_,_,rfl⟩,by simpa [stateOf] using hstate⟩
  · rw [if_neg, h.state]
    · exact ⟨⟨_,_,rfl⟩,rfl⟩
    · intro hlive
      obtain ⟨r,hok⟩ := (mark_succeeds_iff hc h _).mpr hlive
      rw [hr] at hok
      cases hok

/-- What becomes of a job that was marked running. -/
theorem afterStart_agrees_iff (hstarted : q.started < q.deadline)
    (hfailing : ∀ e, q.failing ≠ some (.markRunning e)) : Agrees q.optimizationId (q.afterStart c s) ↔ q.Marked := by
  have hrun (e : Raised) : ¬Agrees q.optimizationId (e.answer, s) := by
    cases e <;> simp [Agrees, Raised.answer, h.state]
  have hfail (e : Raised) : Agrees q.optimizationId (q.fail c s e) ↔ q.finished ≤ q.deadline := by
    obtain ⟨⟨code,detail,hanswer⟩,hstate⟩ := fail_state hc h e
    simp only [Agrees, hanswer, hstate]
    split <;> simp [*]
  unfold afterStart
  cases hf : q.failing with
  | none =>
    simp only [Agrees, terminalize_state hc h]
    constructor
    · intro hagrees
      by_cases hlive : q.resultId = q.optimizationId ∧ q.finished ≤ q.deadline
      · exact ⟨hstarted,hlive.2,by rw [hf]; exact hlive.1⟩
      · rw [if_neg hlive] at hagrees
        split at hagrees <;> cases hagrees
    · rintro ⟨-,hlive,hid⟩
      rw [hf] at hid
      rw [if_pos ⟨hid,hlive⟩]
  | some f =>
    cases f with
    | markRunning e => exact absurd hf (hfailing e)
    | runConfig e => exact iff_of_false (hrun e) fun hm => by simpa [hf] using hm.failing
    | search e | getResult e => exact (hfail e).trans ⟨fun hlive => ⟨hstarted,hlive,by simp [hf]⟩,fun hm => hm.finished⟩
    | markFinished e =>
      refine iff_of_false ?_ fun hm => by simpa [hf] using hm.failing
      cases e with
      | some e => exact hrun e
      | none =>
        simp only [Agrees, h.state]
        split <;> simp

end

/-- The answer agrees with the job exactly if the job can be marked running, the search ends within the lease, and no
step fails but the search and the reading of its result. -/
theorem optimizer_agrees_iff (hc : c.Accepts) (hs : s.Consistent c) (hjob : s.job? q.optimizationId = some job)
    (hqueued : job.state = .queued) : Agrees q.optimizationId (q.optimizerSearch c s) ↔ q.Marked := by
  have hstate : stateOf (s.job? q.optimizationId) = some .queued := by
    rw [hjob]
    exact congrArg some hqueued
  have hraised (code : ℕ) (detail : String) : ¬Agrees q.optimizationId (.raised code detail, s) := by
    simp [Agrees, hstate]
  unfold optimizerSearch
  split <;> rename_i hf
  · refine iff_of_false ?_ fun hm => by simpa [hf] using hm.failing
    rename_i e
    obtain _ | _ | _ := e <;> exact hraised _ _
  · split <;> rename_i hr
    · obtain ⟨-,hlt,-⟩ := (markRunning_ok_iff hs).mp hr
      exact afterStart_agrees_iff hc (leased_of_markRunning hs hr) hlt hf
    · refine iff_of_false (hraised _ _) fun hm => ?_
      have hok := (markRunning_ok_iff hs).mpr ⟨q.leaseOwner_ne,hm.started,job,hjob,(nofun : versionMatches job none),
        hqueued,hc.write _ _,rfl⟩
      rw [hr] at hok
      cases hok

def created : Store := step plainContracts .empty (.create (.plain "a"))

theorem search_in_time_agrees :
    Agrees "a" (optimizerSearch plainContracts created ⟨"a",0,0,3600000,none,"a","completed"⟩) := by
  obtain ⟨job,hjob⟩ := Option.isSome_iff_exists.mp (show (created.job? "a").isSome by decide)
  have hstate : stateOf (created.job? "a") = some .queued := by decide
  have hs : created.Consistent plainContracts := step_consistent _ _ (consistent_empty _)
  rw [hjob] at hstate
  refine (optimizer_agrees_iff (q := ⟨"a",0,0,3600000,none,"a","completed"⟩) plainContracts_accepts hs hjob ?_).mpr
    ⟨by decide,by decide,rfl⟩
  exact Option.some.inj hstate

/-- The search ends one millisecond after the lease. -/
theorem late_search_still_running :
    (optimizerSearch plainContracts created ⟨"a",0,0,3600001,none,"a","completed"⟩).1 = .response "completed" ∧
      stateOf ((optimizerSearch plainContracts created ⟨"a",0,0,3600001,none,"a","completed"⟩).2.job? "a") =
        some .running := by
  decide

end OptimizerSearch
end OpenPine.Jobs
