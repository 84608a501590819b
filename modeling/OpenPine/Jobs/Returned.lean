import OpenPine.Jobs.EventTable

/-! # What a call returns against what the file holds

The payload is sealed and stored twice, and the second time only when the event
row is new. Exactly the calls whose event is new return what `get` reads back.
-/
namespace OpenPine.Jobs
open Runs
variable {c : Contracts} {s s' : Store} {op : Op} {a : CreateArgs}

theorem get_ok_iff (hs : s.Consistent c) {id : String} {job : Job} : get c s id = .ok job ↔ s.job? id = some job := by
  unfold get
  split <;> rename_i he
  · subst he
    refine ⟨fun h => (by cases h),fun h => ?_⟩
    have hrow := Table.mem_of_find? (hs.job?_eq_some.mp h)
    exact absurd (hs.jobId_eq h) (hs.jobs.named _ hrow)
  · exact getInTransaction_ok_iff hs

theorem replayed_eq_some (hs : s.Consistent c) {existing : Job} (h : replayed s a = some existing) :
    a.idempotencyKey = existing.idempotencyKey ∧ s.job? existing.jobId = some existing := by
  obtain ⟨key,hkey,hfind⟩ := Option.bind_eq_some_iff.mp h
  obtain ⟨row,hrow,rfl⟩ := Option.map_eq_some_iff.mp hfind
  have hmem := List.mem_of_find?_eq_some hrow
  have hmatch : row.idempotencyKey = some key := by simpa using List.find?_some hrow
  obtain ⟨hmir,hjob⟩ := hs.find?_row (Table.find?_of_mem hmem)
  refine ⟨?_,?_⟩
  · rw [(nonEmpty_eq_some.mp hkey).1, ← hmatch, hmir]
    rfl
  · rw [hs.jobId_eq hjob, hjob]

theorem Write.returned_eq_persisted_iff (w : Write) : w.persisted c s = w.returned c s ↔
      ¬s.HasEvent w.stableId ∨ w.payload.eventCursor = some w.stableId := by
  by_cases ht : s.HasEvent w.stableId
  · have hpers : w.persisted c s = sealContentHash c w.payload := if_pos ht
    have hret : w.returned c s = (sealContentHash c w.payload).withCursor w.stableId := if_pos ht
    rw [hpers, hret]
    simp only [ht, not_true_eq_false, false_or]
    constructor
    · intro h
      exact congrArg Job.eventCursor h
    · intro h
      unfold Job.withCursor
      rw [← h]
      rfl
  · have hret : w.returned c s = w.persisted c s := if_neg ht
    simp [hret, ht]

theorem Write.returned_jobId (w : Write) : (w.returned c s).jobId = w.payload.jobId := by
  unfold Write.returned
  split
  · rfl
  · exact w.persisted_jobId c s

/-- The events that the call writes are new, or the job's cursor already names the
stored one, and a new job is not its own parent. -/
def ReturnsPersisted (s : Store) (op : Op) : Prop :=
  match op with
  | .create a => replayed s a = none → ∀ jobId, nonEmpty a.jobId = some jobId →
      a.parentJobId ≠ some jobId ∧ ¬s.HasEvent (defaultEventId jobId .created 1)
  | op => ∀ w, op.write? s = some w → ¬s.HasEvent w.stableId ∨ w.payload.eventCursor = some w.stableId

theorem returnsPersisted_target {id : String} (h : op.target = some id) : ReturnsPersisted s op ↔
      ∀ w, op.write? s = some w → ¬s.HasEvent w.stableId ∨ w.payload.eventCursor = some w.stableId := by
  cases op with
  | create | recoverLostLeases => cases h
  | _ => exact Iff.rfl

theorem Created.returned_iff {payload : Job} {s₁ s₂ : Store} {r : Job × Store} (h : Created c s a payload s₁ s₂ r)
    (hs : s.Consistent c) (hinit : payload.Initial c) :
    r.1.jobId = payload.jobId ∧ (r.2.job? payload.jobId = some r.1 ↔
      a.parentJobId ≠ some payload.jobId ∧ ¬s.HasEvent (defaultEventId payload.jobId .created 1)) := by
  have hiff := h.linked_hasEvent_created hs hinit
  have hr : r.1.jobId = payload.jobId ∧ r.1.version = 1 := by
    by_cases ht : s₂.HasEvent (defaultEventId payload.jobId .created payload.version)
    · rw [h.announced_taken ht]
      exact ⟨rfl,hinit.fresh.version⟩
    · rw [(h.announced_fresh ht).2]
      exact ⟨rfl,hinit.fresh.version⟩
  refine ⟨hr.1,?_⟩
  by_cases hself : a.parentJobId = some payload.jobId
  · obtain ⟨-,hjob⟩ := h.linked_job?_self hs hinit hself
    rw [h.announced_job?_self hs hinit hself, hjob]
    refine ⟨fun he => ?_,fun hno => absurd hself hno.1⟩
    have hver := congrArg Job.version (Option.some.inj he)
    rw [Write.persisted_version, hr.2] at hver
    simp [childLinkedWrite, hinit.fresh.version] at hver
  · rw [h.announced_job? hs hinit hself, ← hinit.fresh.version]
    by_cases ht : s.HasEvent (defaultEventId payload.jobId .created payload.version)
    · rw [h.announced_taken (hiff.mpr ht), if_pos ht]
      refine ⟨fun he => ?_,fun hno => absurd ht hno.2⟩
      have hcursor := congrArg Job.eventCursor (Option.some.inj he)
      rw [hinit.fresh.eventCursor] at hcursor
      cases hcursor
    · rw [(h.announced_fresh (mt hiff.mp ht)).2, if_neg ht]
      exact ⟨fun _ => ⟨hself,ht⟩,fun _ => rfl⟩

/-- In every reachable file, a call that returns a job returns what `get` reads back
right after it exactly when the events it writes are new. -/
theorem returned_is_persisted_iff (c : Contracts) (s : Store) (hs : Reached c s) (op : Op) (job : Job) (s' : Store)
    (h : exec c s op = .ok (.job job, s')) :
    get c s' job.jobId = .ok job ↔ ReturnsPersisted s op := by
  have hcons := hs.consistent
  have hout := exec_outcome hcons h
  have hs' : s'.Consistent c := (hout.effects hcons).consistent hcons
  rw [get_ok_iff hs']
  cases hout with
  | replayed hrep =>
    refine ⟨fun _ hnone => ?_,fun _ => (replayed_eq_some hcons hrep).2⟩
    rw [hrep] at hnone
    cases hnone
  | @created a jobId kind identity s₁ s₂ r hrep hid hm hval hcr =>
    obtain ⟨hjobId,hiff⟩ := hcr.returned_iff hcons (newPayload_initial hid hm hval)
    rw [hjobId]
    refine hiff.trans ⟨fun hp _ jobId' hid' => ?_,fun hp => hp hrep jobId hid⟩
    cases hid.symm.trans hid'
    exact hp
  | unchanged ht hw hjob =>
    rw [returnsPersisted_target ht]
    refine ⟨fun _ w hw' => ?_,fun _ => hjob⟩
    rw [hw] at hw'
    cases hw'
  | @performed _ w job ht hw hjob hch hacc =>
    rw [returnsPersisted_target ht, w.returned_jobId, w.commit_job? (hcons.job?_eq_some.mp hjob), if_pos rfl,
      Option.some.injEq, w.returned_eq_persisted_iff]
    refine ⟨fun hp w' hw' => ?_,fun hp => hp w hw⟩
    cases hw.symm.trans hw'
    exact hp

theorem running_job_returned_is_persisted :
    ∃ job s', exec plainContracts (run (step plainContracts) Store.empty [.create (.plain "a")])
        (.markRunning "a" "w" 10 1 none) = .ok (.job job, s') ∧
      get plainContracts s' job.jobId = .ok job := by
  have hcall : ∃ job s', exec plainContracts (run (step plainContracts) Store.empty [.create (.plain "a")])
      (.markRunning "a" "w" 10 1 none) = .ok (.job job, s') := ⟨_,_,rfl⟩
  obtain ⟨job,s',h⟩ := hcall
  refine ⟨job,s',h,(returned_is_persisted_iff plainContracts _ ⟨[.create (.plain "a")],rfl⟩ _ job s' h).mpr ?_⟩
  intro w hw
  have hid : (Op.write? (run (step plainContracts) Store.empty [.create (.plain "a")])
      (.markRunning "a" "w" 10 1 none)).map Write.stableId = some "a:running:v2" := by decide
  rw [hw] at hid
  rw [show w.stableId = "a:running:v2" from Option.some.inj hid]
  left
  decide

/-- The second cancellation under one key returns a cursor that its row does not
have, and the creation of a job that is its own parent returns version one of a row
at version two. -/
theorem returned_differs_on_collision_and_self_parent :
    (∃ job s', exec plainContracts (run (step plainContracts) Store.empty [.create (.plain "a"),
        .create (.plain "b"), .cancel "a" (some "k") 1 1]) (.cancel "b" (some "k") 2 2) = .ok (.job job, s') ∧
      get plainContracts s' job.jobId ≠ .ok job) ∧
    ∃ job s', exec plainContracts Store.empty (.create { CreateArgs.plain "a" with parentJobId := some "a" }) =
        .ok (.job job, s') ∧
      get plainContracts s' job.jobId ≠ .ok job := by
  refine ⟨⟨_,_,rfl,?_⟩,⟨_,_,rfl,?_⟩⟩
  · decide
  · decide

end OpenPine.Jobs
