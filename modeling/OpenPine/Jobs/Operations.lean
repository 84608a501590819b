import OpenPine.Jobs.Consistency

/-! # What each operation accepts, and what it then writes

One equivalence for each operation on a stored job: the call returns exactly when
its guards hold, and the result is the closed form of one `Write`. Everything
later is derived from these, so no later proof unfolds an operation again.
-/
namespace OpenPine.Jobs
open JobState
variable {c : Contracts} {s : Store}

/-! ### Guards -/

variable {id owner : String} {job : Job} {v : Option ℤ} {now : ℤ} {r : Job × Store}

theorem getInTransaction_ok_iff (hs : s.Consistent c) : getInTransaction c s id = .ok job ↔ s.job? id = some job := by
  unfold getInTransaction
  cases hrow : s.jobs.find? id with
  | none => simp [Store.job?, hrow]
  | some row =>
    have hval := hs.jobs.accepted row (Table.mem_of_find? hrow)
    simp [Store.job?, hrow, hval]

def versionMatches (job : Job) (expectedVersion : Option ℤ) : Prop := ∀ v ∈ expectedVersion, (job.version : ℤ) = v

theorem requireVersion_ok_iff : requireVersion job v = .ok .unit ↔ versionMatches job v := by
  unfold requireVersion versionMatches
  cases v with
  | none => simp
  | some =>
    simp only [Option.mem_def, Option.some.injEq, forall_eq']
    split <;> rename_i h
    · simpa using h
    · simpa using h

theorem requireLiveLease_ok_iff {leaseOwner : Option String} : requireLiveLease job leaseOwner now = .ok .unit ↔
      ∃ owner, leaseOwner = some owner ∧ job.LiveLease owner now := by
  unfold requireLiveLease Job.LiveLease
  cases leaseOwner with
  | none => simp [nonEmpty]
  | some owner =>
    by_cases ho : owner = ""
    · simp [nonEmpty, ho]
    · have hne : nonEmpty (some owner) ≠ none := by simp [nonEmpty, ho]
      by_cases hl : job.leaseOwner = some owner
      · cases hd : job.leaseDeadlineUtcMs with
        | none => simp [hne, hl]
        | some deadline =>
          by_cases hlt : deadline < now
          · simp [hne, hl, hlt]
          · simp [hne, hl, hlt, ho, Int.not_lt.mp hlt]
      · simp [hl]

/-! ### Writes -/

def Write.Accepted (c : Contracts) (s : Store) (w : Write) : Prop :=
  c.validatePayload (sealContentHash c w.payload) = none ∧ c.validatePayload (w.persisted c s) = none

theorem Contracts.Accepts.write (hc : c.Accepts) (s : Store) (w : Write) : w.Accepted c s := by
  refine ⟨hc _,?_⟩
  unfold Write.persisted
  split
  · exact hc _
  · exact hc _

def Write.outcome (c : Contracts) (s : Store) (w : Write) : Job × Store := (w.returned c s, w.commit c s)

theorem storeThenAppend_stored_iff (hs : s.Consistent c) {w : Write} (hjob : s.job? w.payload.jobId = some job) :
    (storeJobInTransaction c s w.payload job.version >>= fun p =>
      appendEventInTransaction c p.2 w.payload.jobId w.eventType p.1 w.eventId) = .ok r ↔
      w.Accepted c s ∧ r = w.outcome c s := by
  have hrow := hs.job?_eq_some.mp hjob
  rw [storeThenAppend_ok_iff]
  constructor
  · rintro ⟨_,hv,hv',rfl⟩
    exact ⟨⟨hv,hv'⟩,rfl⟩
  · rintro ⟨⟨hv,hv'⟩,rfl⟩
    exact ⟨⟨_,hrow,rfl⟩,hv,hv',rfl⟩

/-- A transition is made exactly if the lifecycle allows it and its write is accepted. -/
theorem transition_ok_iff (hs : s.Consistent c) (w : Write) {target : JobState}
    {updates : Job → Job} (hjob : s.job? id = some job)
    (hw : w.payload = { updates job with state := target, updatedAtUtcMs := now, version := job.version + 1 })
    (hupd : (updates job).jobId = job.jobId) :
    transitionInTransaction c s job target w.eventType now updates w.eventId = .ok r ↔
      target ∈ job.state.allowedTransitions ∧ w.Accepted c s ∧ r = w.outcome c s := by
  have hwid : w.payload.jobId = job.jobId := by
    rw [hw]
    exact hupd
  have hpair := storeThenAppend_stored_iff (r := r) hs (w := w) (by rw [hwid, hs.jobId_eq hjob, hjob])
  unfold transitionInTransaction
  rw [← hw]
  by_cases ht : target ∈ job.state.allowedTransitions
  · rw [if_neg (not_not.mpr ht)]
    simp only [ht, true_and]
    rw [← hpair]
    -- the transition reads the id off the sealed payload, the closed form off the one before
    have hcongr : ∀ v, (storeJobInTransaction c s w.payload v >>= fun p =>
        appendEventInTransaction c p.2 p.1.jobId w.eventType p.1 w.eventId) =
        (storeJobInTransaction c s w.payload v >>= fun p =>
          appendEventInTransaction c p.2 w.payload.jobId w.eventType p.1 w.eventId) := by
      intro v
      cases hst : storeJobInTransaction c s w.payload v with
      | error => rfl
      | ok =>
        obtain ⟨-,-,rfl⟩ := storeJob_ok_iff.mp hst
        rfl
    exact Eq.congr_left (hcongr job.version)
  · rw [if_pos ht]
    simp [ht]

/-! ### The payloads written by the operations -/

def runningWrite (job : Job) (owner : String) (deadline now : ℤ) : Write where
  payload := { job with
    startedAtUtcMs := some now, leaseOwner := some owner, leaseDeadlineUtcMs := some deadline, state := .running
    updatedAtUtcMs := now, version := job.version + 1 }
  eventType := .running

def renewedWrite (job : Job) (deadline now : ℤ) : Write where
  payload := { job with leaseDeadlineUtcMs := some deadline, updatedAtUtcMs := now, version := job.version + 1 }
  eventType := .leaseRenewed

def succeededWrite (job : Job) (refs : Option (List String)) (now : ℤ) : Write where
  payload := { job with
    progress := 100, finishedAtUtcMs := some now, resultArtifactRefs := refs.getD [], leaseOwner := none,
    leaseDeadlineUtcMs := none
    state := .succeeded, updatedAtUtcMs := now, version := job.version + 1 }
  eventType := .succeeded

def failedWrite (job : Job) (code : String) (now : ℤ) : Write where
  payload := { job with
    finishedAtUtcMs := some now, errorCode := some code, leaseOwner := none, leaseDeadlineUtcMs := none,
    state := .failed
    updatedAtUtcMs := now, version := job.version + 1 }
  eventType := .failed

def canceledWrite (job : Job) (key : Option String) (now finished : ℤ) : Write where
  payload := { job with
    finishedAtUtcMs := some finished, leaseOwner := none, leaseDeadlineUtcMs := none, state := .canceled,
    updatedAtUtcMs := now
    version := job.version + 1 }
  eventType := .canceled
  eventId := key

def retriedWrite (job : Job) (now : ℤ) : Write where
  payload := { job with
    retryCount := job.retryCount + 1, finishedAtUtcMs := none, errorCode := none, state := .queued,
    updatedAtUtcMs := now
    version := job.version + 1 }
  eventType := .retried

def lostWrite (job : Job) (now : ℤ) : Write where
  payload := { job with
    finishedAtUtcMs := some now, leaseOwner := none, leaseDeadlineUtcMs := none, state := .lost, updatedAtUtcMs := now
    version := job.version + 1 }
  eventType := .lost

def childLinkedWrite (job : Job) (child : String) (now : ℤ) : Write where
  payload := { job with childJobIds := job.childJobIds ++ [child], updatedAtUtcMs := now, version := job.version + 1 }
  eventType := .childLinked

/-! ### The operations -/

theorem get_bind_ok_iff (hs : s.Consistent c) {body : Job → Except JobV1Error (Job × Store)} :
    (getInTransaction c s id >>= body) = .ok r ↔ ∃ job, s.job? id = some job ∧ body job = .ok r := by
  simp only [Python.bind_eq_ok, getInTransaction_ok_iff hs]

theorem require_bind_ok_iff {x : Except JobV1Error PUnit} {body : PUnit → Except JobV1Error (Job × Store)}
    : (x >>= body) = .ok r ↔ x = .ok .unit ∧ body .unit = .ok r := by
  rw [Python.bind_eq_ok]
  constructor
  · rintro ⟨⟨⟩,hx,hb⟩
    exact ⟨hx,hb⟩
  · rintro ⟨hx,hb⟩
    exact ⟨.unit,hx,hb⟩

section
variable (hs : s.Consistent c)
include hs

theorem markRunning_ok_iff {deadline : ℤ} : markRunning c s id owner deadline now v = .ok r ↔
      owner ≠ "" ∧ now < deadline ∧ ∃ job, s.job? id = some job ∧ versionMatches job v ∧
        job.state = .queued ∧ (runningWrite job owner deadline now).Accepted c s ∧
        r = (runningWrite job owner deadline now).outcome c s := by
  unfold markRunning
  by_cases ho : owner = ""
  · simp [ho]
  by_cases hd : deadline ≤ now
  · have hn : ¬now < deadline := by omega
    simp [ho, hd, hn]
  have hn : now < deadline := by omega
  simp only [ho, hd, hn, if_false, get_bind_ok_iff hs, require_bind_ok_iff, requireVersion_ok_iff,
    ne_eq, not_false_eq_true, true_and]
  refine exists_congr fun job => and_congr_right fun hjob => and_congr_right fun _ => ?_
  refine (transition_ok_iff hs (runningWrite job owner deadline now) hjob rfl rfl).trans ?_
  have hst : running ∈ job.state.allowedTransitions ↔ job.state = .queued := by
    cases job.state <;> simp [allowedTransitions]
  rw [hst]

theorem renewLease_ok_iff {deadline : ℤ} : renewLease c s id owner deadline now v = .ok r ↔
      now < deadline ∧ ∃ job, s.job? id = some job ∧ versionMatches job v ∧ job.LiveLease owner now ∧
        (renewedWrite job deadline now).Accepted c s ∧ r = (renewedWrite job deadline now).outcome c s := by
  unfold renewLease
  by_cases hd : deadline ≤ now
  · have hn : ¬now < deadline := by omega
    simp [hd, hn]
  have hn : now < deadline := by omega
  simp only [hd, hn, if_false, get_bind_ok_iff hs, require_bind_ok_iff, requireVersion_ok_iff,
    requireLiveLease_ok_iff, true_and]
  refine exists_congr fun job => and_congr_right fun hjob => and_congr_right fun _ => ?_
  have hid := hs.jobId_eq hjob
  have hw : s.job? (renewedWrite job deadline now).payload.jobId = some job := by
    change s.job? job.jobId = some job
    rw [hid, hjob]
  have hpair := storeThenAppend_stored_iff (r := r) hs hw
  simp only [Option.some.injEq, exists_eq_left']
  refine and_congr_right fun _ => ?_
  rw [← hpair, ← hid]
  rfl

theorem markSucceeded_ok_iff {refs : Option (List String)} : markSucceeded c s id owner now v refs = .ok r ↔
      ∃ job, s.job? id = some job ∧ versionMatches job v ∧ job.state = .running ∧ job.LiveLease owner now ∧
        (succeededWrite job refs now).Accepted c s ∧ r = (succeededWrite job refs now).outcome c s := by
  unfold markSucceeded
  simp only [get_bind_ok_iff hs, require_bind_ok_iff, requireVersion_ok_iff]
  refine exists_congr fun job => and_congr_right fun hjob => and_congr_right fun _ => ?_
  by_cases hst : job.state = .running
  · simp only [hst, ne_eq, not_true_eq_false, if_false, require_bind_ok_iff, requireLiveLease_ok_iff,
      Option.some.injEq, exists_eq_left', true_and]
    refine and_congr_right fun _ => ?_
    refine (transition_ok_iff hs (succeededWrite job refs now) hjob rfl rfl).trans ?_
    simp [hst, allowedTransitions]
  · simp [hst]

theorem markFailed_ok_iff {code : String} {owner : Option String} :
    markFailed c s id code owner now v = .ok r ↔ ∃ job, s.job? id = some job ∧ versionMatches job v ∧
        (job.state = .queued ∨ job.state = .running ∧ ∃ o, owner = some o ∧ job.LiveLease o now) ∧
        (failedWrite job code now).Accepted c s ∧ r = (failedWrite job code now).outcome c s := by
  unfold markFailed
  simp only [get_bind_ok_iff hs, require_bind_ok_iff, requireVersion_ok_iff]
  refine exists_congr fun job => and_congr_right fun hjob => and_congr_right fun _ => ?_
  by_cases hst : job.state = .running
  · rw [if_pos hst, require_bind_ok_iff, requireLiveLease_ok_iff]
    simp only [hst, true_and, reduceCtorEq, false_or]
    refine and_congr_right fun _ => ?_
    refine (transition_ok_iff hs (failedWrite job code now) hjob rfl rfl).trans ?_
    simp [hst, allowedTransitions]
  · have hq : failed ∈ job.state.allowedTransitions ↔ job.state = .queued := by
      cases h : job.state <;> simp [allowedTransitions]
      exact hst h
    rw [if_neg hst, require_bind_ok_iff]
    simp only [hst, false_and, or_false, true_and]
    refine (transition_ok_iff hs (failedWrite job code now) hjob rfl rfl).trans ?_
    rw [hq]

theorem cancel_ok_iff {key : Option String} {finished : ℤ} : cancel c s id key now finished = .ok r ↔
      ∃ job, s.job? id = some job ∧ (job.state = .canceled ∧ r = (job, s) ∨
          job.state ≠ .succeeded ∧ job.state ≠ .canceled ∧ (canceledWrite job key now finished).Accepted c s ∧
            r = (canceledWrite job key now finished).outcome c s) := by
  unfold cancel
  simp only [get_bind_ok_iff hs]
  refine exists_congr fun job => and_congr_right fun hjob => ?_
  by_cases hc : job.state = .canceled
  · simp [hc, eq_comm]
  · simp only [hc, if_false, false_and, false_or, ne_eq, not_false_eq_true, true_and]
    refine (transition_ok_iff hs (canceledWrite job key now finished) hjob rfl rfl).trans ?_
    have hst : canceled ∈ job.state.allowedTransitions ↔ ¬job.state = .succeeded := by
      cases h : job.state <;> simp [allowedTransitions]
      exact hc h
    rw [hst]

theorem retry_ok_iff : retry c s id now = .ok r ↔ ∃ job, s.job? id = some job ∧
        (job.state = .queued ∧ 0 < job.retryCount ∧ r = (job, s) ∨
          (job.state = .failed ∨ job.state = .lost ∨ job.state = .retryWait) ∧
            (∀ m, job.maxRetries = some m → (job.retryCount : ℤ) + 1 ≤ m) ∧
            (retriedWrite job now).Accepted c s ∧ r = (retriedWrite job now).outcome c s) := by
  unfold retry
  simp only [get_bind_ok_iff hs]
  refine exists_congr fun job => and_congr_right fun hjob => ?_
  by_cases hq : job.state = .queued ∧ 0 < job.retryCount
  · simp [hq.1, hq.2, eq_comm]
  have hq' : ¬(job.state = .queued ∧ 0 < job.retryCount ∧ r = (job, s)) := fun h => hq ⟨h.1,h.2.1⟩
  have hst : queued ∈ job.state.allowedTransitions ↔ job.state = .failed ∨ job.state = .lost ∨
    job.state = .retryWait := by
    cases job.state <;> simp [allowedTransitions]
  rw [if_neg hq]
  simp only [hq', false_or]
  by_cases hm : job.maxRetries.any (fun m => m < (job.retryCount : ℤ) + 1) = true
  · rw [if_pos hm]
    have hbad : ¬∀ m, job.maxRetries = some m → (job.retryCount : ℤ) + 1 ≤ m := by
      intro h
      cases hmax : job.maxRetries with
      | none => simp [hmax] at hm
      | some m =>
        have hle := h m hmax
        simp only [hmax, Option.any_some, decide_eq_true_eq] at hm
        omega
    refine iff_of_false (fun h => ?_) (fun h => hbad h.2.1)
    cases h
  · rw [if_neg hm]
    refine (transition_ok_iff hs (retriedWrite job now) hjob rfl rfl).trans ?_
    have hok : ∀ m, job.maxRetries = some m → (job.retryCount : ℤ) + 1 ≤ m := by
      intro m hmax
      simp only [hmax, Option.any_some, decide_eq_true_eq] at hm
      omega
    rw [hst]
    exact and_congr_right fun _ => (and_iff_right hok).symm

end

end OpenPine.Jobs
