import OpenPine.Foundation.Runs
import OpenPine.Jobs.Creation
import OpenPine.Jobs.Recovery

/-! # What a call can do, and the files that runs reach

`Outcome` lists once what a call that returns can have done. Every committed call
is a sequence of effects, so a reachable file is consistent and the payload under
each id has a history in the abstract life cycle.
-/
namespace OpenPine.Jobs
open Transaction Runs
variable {c : Contracts} {s s' : Store} {op : Op} {res : Result} {id : String}

def Op.target : Op → Option String
  | .create _ | .recoverLostLeases _ => none
  | .markRunning id _ _ _ _ | .renewLease id _ _ _ _ | .markSucceeded id _ _ _ _ | .markFailed id _ _ _ _
  | .cancel id _ _ _ | .retry id _ => some id

/-- The write a call on one stored job makes if it is accepted. A cancel of a
canceled job and a retry of a job that was already requeued make none. -/
def Op.write? (s : Store) : Op → Option Write
  | .create _ => none
  | .markRunning id owner deadline now _ => (s.job? id).map (runningWrite · owner deadline now)
  | .renewLease id _ deadline now _ => (s.job? id).map (renewedWrite · deadline now)
  | .markSucceeded id _ now _ refs => (s.job? id).map (succeededWrite · refs now)
  | .markFailed id code _ now _ => (s.job? id).map (failedWrite · code now)
  | .cancel id key now finished =>
    ((s.job? id).filter (fun job => job.state ≠ .canceled)).map (canceledWrite · key now finished)
  | .retry id now =>
    ((s.job? id).filter (fun job => ¬(job.state = .queued ∧ 0 < job.retryCount))).map (retriedWrite · now)
  | .recoverLostLeases _ => none

inductive Outcome (c : Contracts) (s : Store) : Op → Result → Store → Prop
  | replayed {a : CreateArgs} {existing : Job} (h : replayed s a = some existing) :
    Outcome c s (.create a) (.job existing) s
  | created {a : CreateArgs} {jobId : String} {kind : JobKind} {identity : BuildIdentity} {s₁ s₂ : Store}
      {r : Job × Store} (hrep : Jobs.replayed s a = none) (hid : nonEmpty a.jobId = some jobId)
      (hm : 0 ≤ a.maxRetries) (hval : c.validatePayload (newPayload c a jobId kind identity) = none)
      (h : Created c s a (newPayload c a jobId kind identity) s₁ s₂ r) :
      Outcome c s (.create a) (.job r.1) r.2
  | unchanged {op : Op} {job : Job} (ht : op.target = some job.jobId) (hw : op.write? s = none)
      (hjob : s.job? job.jobId = some job) : Outcome c s op (.job job) s
  | performed {op : Op} {w : Write} {job : Job} (ht : op.target = some job.jobId) (hw : op.write? s = some w)
      (hjob : s.job? w.payload.jobId = some job) (hch : Change job w.eventType w.payload)
      (hacc : w.Accepted c s) : Outcome c s op (.job (w.returned c s)) (w.commit c s)
  | recovered {now : ℤ} {n : ℕ} {s' : Store} (h : recoverLostLeases c s now = .ok (n, s')) :
      Outcome c s (.recoverLostLeases now) (.recovered n) s'

theorem jobResult_ok_iff {x : Except JobV1Error (Job × Store)} :
    jobResult x = .ok (res, s') ↔ ∃ job, x = .ok (job, s') ∧ res = .job job := by
  cases x with
  | error => simp [jobResult, Except.map]
  | ok r =>
    obtain ⟨job,t⟩ := r
    simp only [jobResult, Except.map, Except.ok.injEq, Prod.mk.injEq]
    constructor
    · rintro ⟨rfl,rfl⟩
      exact ⟨job,⟨rfl,rfl⟩,rfl⟩
    · rintro ⟨_,⟨rfl,rfl⟩,rfl⟩
      exact ⟨rfl,rfl⟩

section
variable (hs : s.Consistent c)
include hs

theorem Outcome.ofWrite {job job' : Job} {w : Write} (hjob : s.job? id = some job) (ht : op.target = some id)
    (hw : op.write? s = some w) (hch : Change job w.eventType w.payload) (hacc : w.Accepted c s)
    (hr : (job', s') = w.outcome c s) :
    Outcome c s op (.job job') s' := by
  cases hr
  have hid := hs.jobId_eq hjob
  refine .performed (ht.trans (congrArg some hid.symm)) hw ?_ hch hacc
  rw [hch.sameIdentity.jobId, hid, hjob]

/-- All that a successful call can do. -/
theorem exec_outcome (h : exec c s op = .ok (res, s')) : Outcome c s op res s' := by
  cases op with
  | create =>
    obtain ⟨job,hcall,rfl⟩ := jobResult_ok_iff.mp h
    obtain ⟨jobId,kind,hid,-,hm,⟨existing,hrep,hr⟩ | ⟨hrep,identity,-,hval,s₁,s₂,hc⟩⟩ := create_ok_iff.mp hcall
    · cases hr
      exact .replayed hrep
    · exact .created hrep hid hm hval hc
  | markRunning =>
    obtain ⟨job',hcall,rfl⟩ := jobResult_ok_iff.mp h
    obtain ⟨ho,hd,job,hjob,-,hst,hacc,hr⟩ := (markRunning_ok_iff hs).mp hcall
    exact .ofWrite hs hjob rfl (by simp [Op.write?, hjob]) (.running hst ho hd) hacc hr
  | renewLease =>
    obtain ⟨job',hcall,rfl⟩ := jobResult_ok_iff.mp h
    obtain ⟨hd,job,hjob,-,hl,hacc,hr⟩ := (renewLease_ok_iff hs).mp hcall
    exact .ofWrite hs hjob rfl (by simp [Op.write?, hjob]) (.leaseRenewed hl hd) hacc hr
  | markSucceeded =>
    obtain ⟨job',hcall,rfl⟩ := jobResult_ok_iff.mp h
    obtain ⟨job,hjob,-,hst,hl,hacc,hr⟩ := (markSucceeded_ok_iff hs).mp hcall
    exact .ofWrite hs hjob rfl (by simp [Op.write?, hjob]) (.succeeded hst hl) hacc hr
  | markFailed _ _ _ now =>
    obtain ⟨job',hcall,rfl⟩ := jobResult_ok_iff.mp h
    obtain ⟨job,hjob,-,hst,hacc,hr⟩ := (markFailed_ok_iff hs).mp hcall
    have hst' : job.state = .queued ∨ job.state = .running ∧ ∃ o, job.LiveLease o now := by
      rcases hst with hq | ⟨hrun,o,-,hl⟩
      · exact Or.inl hq
      · exact Or.inr ⟨hrun,o,hl⟩
    exact .ofWrite hs hjob rfl (by simp [Op.write?, hjob]) (.failed hst') hacc hr
  | cancel =>
    obtain ⟨job',hcall,rfl⟩ := jobResult_ok_iff.mp h
    obtain ⟨job,hjob,⟨hst,hr⟩ | ⟨hst,hc,hacc,hr⟩⟩ := (cancel_ok_iff hs).mp hcall
    · cases hr
      exact .unchanged (congrArg some (hs.jobId_eq hjob).symm) (by simp [Op.write?, hjob, hst])
        (by rw [hs.jobId_eq hjob, hjob])
    · exact .ofWrite hs hjob rfl (by simp [Op.write?, hjob, hc]) (.canceled hst hc) hacc hr
  | retry =>
    obtain ⟨job',hcall,rfl⟩ := jobResult_ok_iff.mp h
    obtain ⟨job,hjob,⟨hst,hcount,hr⟩ | ⟨hst,hm,hacc,hr⟩⟩ := (retry_ok_iff hs).mp hcall
    · cases hr
      exact .unchanged (congrArg some (hs.jobId_eq hjob).symm)
        (by simp [Op.write?, hjob, hst, Nat.ne_of_gt hcount]) (by rw [hs.jobId_eq hjob, hjob])
    · have hq : job.state ≠ .queued := by rcases hst with hst | hst | hst <;> simp [hst]
      exact .ofWrite hs hjob rfl (by simp [Op.write?, hjob, hq]) (.retried hst hm) hacc hr
  | recoverLostLeases now =>
    simp only [exec] at h
    cases hrec : recoverLostLeases c s now with
    | error => simp [hrec, Except.map] at h
    | ok =>
      simp only [hrec, Except.map, Except.ok.injEq, Prod.mk.injEq] at h
      obtain ⟨rfl,rfl⟩ := h
      exact .recovered hrec

theorem Outcome.effects (h : Outcome c s op res s') : Effects c s s' := by
  cases h with
  | replayed | unchanged => exact .refl
  | @created a jobId kind identity s₁ s₂ r hrep hid hm hval h => exact h.effects hs (newPayload_initial hid hm hval)
  | performed _ _ hjob hch hacc => exact .single (.commit hjob hch hacc.2)
  | recovered h => exact recover_effects hs h

theorem step_cases (op : Op) : (∃ res, exec c s op = .ok (res, step c s op) ∧ Outcome c s op res (step c s op)) ∨
    ((∃ e, exec c s op = .error e) ∧ step c s op = s) := by
  rcases settle_cases s (exec c s op) with ⟨res,h⟩ | h
  · exact Or.inl ⟨res,h,exec_outcome hs h⟩
  · exact Or.inr h

theorem step_effects (op : Op) : Effects c s (step c s op) := by
  rcases step_cases hs op with ⟨res,-,hout⟩ | ⟨-,hsame⟩
  · exact hout.effects hs
  · rw [hsame]

end

/-- Every call keeps the store consistent. -/
theorem step_consistent (s : Store) (op : Op) (hs : s.Consistent c) : (step c s op).Consistent c :=
  (step_effects hs op).consistent hs

abbrev Reached (c : Contracts) (s : Store) : Prop := Reachable (step c) Store.empty s

theorem Reached.consistent (h : Reached c s) : s.Consistent c := h.invariant (consistent_empty c) step_consistent

theorem run_history (hs : s.Consistent c) (ops : List Op) (id : String) :
    JobHistory (s.job? id) ((run (step c) s ops).job? id) :=
  run_rel (R := fun s t => JobHistory (s.job? id) (t.job? id)) (fun _ => .refl) (fun _ _ _ => .trans)
    step_consistent (fun _ op ht => (step_effects ht op).history ht id) hs ops

theorem Reached.history (h : Reached c s) (id : String) : JobHistory none (s.job? id) := by
  obtain ⟨ops,rfl⟩ := h
  exact run_history (consistent_empty c) ops id

theorem Reached.leaseValid (h : Reached c s) {job : Job} (hjob : s.job? id = some job) : job.LeaseValid :=
  (h.history id).preserves (P := Job.LeaseValid) (fun _ hf => hf.leaseValid) (fun _ _ _ hch => hch.leaseValid)
    (fun _ _ _ hv => ⟨hv.lease,hv.finished⟩) (by simp) job hjob

theorem Reached.retryValid (h : Reached c s) {job : Job} (hjob : s.job? id = some job) : job.RetryValid :=
  (h.history id).preserves (P := Job.RetryValid) (fun _ hf => hf.retryValid) (fun _ _ _ hch => hch.retryValid)
    (fun _ _ _ hv => hv) (by simp) job hjob

end OpenPine.Jobs
