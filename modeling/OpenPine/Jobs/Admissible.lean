import OpenPine.Jobs.Reachable

/-! # Which calls are accepted

`Op.Admissible` is the guard of a call as a condition on its arguments and on the
file before it. Under contracts that accept what the store seals, the admissible
calls are exactly those that return.
-/
namespace OpenPine.Jobs
open Option
variable {c : Contracts} {s : Store} {jobId : String}

/-- The part of the guard of `create` that is about a call that is not replayed. -/
structure CreateArgs.Insertable (s : Store) (a : CreateArgs) (jobId : String) : Prop where
  identity : ∃ identity, a.identity = .ok identity
  unused : ∀ row ∈ s.jobs.rows, row.idempotencyKey = a.idempotencyKey → a.idempotencyKey = none
  absent : s.job? jobId = none
  parent : ∀ parentId, nonEmpty a.parentJobId = some parentId → parentId = jobId ∨ (s.job? parentId).isSome

def CreateArgs.Admissible (s : Store) (a : CreateArgs) : Prop :=
  ∃ jobId, nonEmpty a.jobId = some jobId ∧ (JobKind.ofValue? a.kind).isSome ∧ 0 ≤ a.maxRetries ∧
    ((replayed s a).isSome ∨ a.Insertable s jobId)

def Op.Admissible (s : Store) : Op → Prop
  | .create a => a.Admissible s
  | .markRunning id owner deadline now v => owner ≠ "" ∧ now < deadline ∧
      ∃ job, s.job? id = some job ∧ versionMatches job v ∧ job.state = .queued
  | .renewLease id owner deadline now v => now < deadline ∧
      ∃ job, s.job? id = some job ∧ versionMatches job v ∧ job.LiveLease owner now
  | .markSucceeded id owner now v _ =>
      ∃ job, s.job? id = some job ∧ versionMatches job v ∧ job.state = .running ∧ job.LiveLease owner now
  | .markFailed id _ owner now v => ∃ job, s.job? id = some job ∧ versionMatches job v ∧
      (job.state = .queued ∨ job.state = .running ∧ ∃ o, owner = some o ∧ job.LiveLease o now)
  | .cancel id _ _ _ => ∃ job, s.job? id = some job ∧ job.state ≠ .succeeded
  | .retry id _ => ∃ job, s.job? id = some job ∧ (job.state = .queued ∧ 0 < job.retryCount ∨
        (job.state = .failed ∨ job.state = .lost ∨ job.state = .retryWait) ∧
          ∀ m, job.maxRetries = some m → (job.retryCount : ℤ) + 1 ≤ m)
  | .recoverLostLeases _ => True

/-! ### `create` -/

theorem insertJob_isSome_iff {job : Job} : (∃ s', s.insertJob (rowOf job) = some s') ↔
      (∀ row ∈ s.jobs.rows, row.idempotencyKey = job.idempotencyKey → job.idempotencyKey = none) ∧
      s.job? job.jobId = none := by
  constructor
  · rintro ⟨s',h⟩
    obtain ⟨hkey,jobs,hins,-⟩ := insertJob_eq_some h
    exact ⟨hkey,job?_eq_none.mpr (Table.insert?_fresh hins)⟩
  · rintro ⟨hkey,habs⟩
    have hins : s.jobs.insert? (rowOf job) ≠ none := by
      intro hnone
      have hsome := Table.insert?_eq_none.mp hnone
      rw [rowOf_jobId, job?_eq_none.mp habs] at hsome
      cases hsome
    obtain ⟨jobs,hins⟩ := ne_none_iff_exists'.mp hins
    refine ⟨{ s with jobs := jobs },?_⟩
    unfold Store.insertJob
    rw [if_neg]
    · rw [hins]
      rfl
    · rintro ⟨hsome,hany⟩
      obtain ⟨row,hrow,he⟩ := List.any_eq_true.mp hany
      have hnone := hkey row hrow (of_decide_eq_true he)
      simp [hnone] at hsome

theorem linkParent_succeeds_iff (hc : c.Accepts) (hs : s.Consistent c) {parentJobId : Option String} {now : ℤ} :
    (∃ s', linkParent c s parentJobId jobId now = .ok s') ↔
      ∀ parentId, nonEmpty parentJobId = some parentId → (s.job? parentId).isSome := by
  constructor
  · rintro ⟨s',h⟩ parentId hp
    rcases (linkParent_ok_iff hs).mp h with ⟨hnone,-⟩ | ⟨p,parent,hp',hparent,-⟩
    · rw [hp] at hnone
      cases hnone
    · cases hp.symm.trans hp'
      exact isSome_of_eq_some hparent
  · intro h
    cases hp : nonEmpty parentJobId with
    | none => exact ⟨s,(linkParent_ok_iff hs).mpr (Or.inl ⟨hp,rfl⟩)⟩
    | some parentId =>
      obtain ⟨parent,hparent⟩ := isSome_iff_exists.mp (h parentId hp)
      by_cases hchild : jobId ∈ parent.childJobIds
      · exact ⟨s,(linkParent_ok_iff hs).mpr (Or.inr ⟨parentId,parent,hp,hparent,Or.inl ⟨hchild,rfl⟩⟩)⟩
      · exact ⟨_,(linkParent_ok_iff hs).mpr
          (Or.inr ⟨parentId,parent,hp,hparent,Or.inr ⟨hchild,hc.write _ _,rfl⟩⟩)⟩

theorem append_succeeds (hc : c.Accepts) (s : Store) (jobId : String) (eventType : EventType) (job : Job)
    (eventId : Option String) : ∃ r, appendEventInTransaction c s jobId eventType job eventId = .ok r := by
  by_cases ht : s.HasEvent (stableEventId eventId jobId eventType job.version)
  · exact ⟨_,append_taken c s jobId eventType job eventId ht⟩
  · exact ⟨_,(append_fresh_iff c s jobId eventType job eventId ht).mpr ⟨hc _,rfl⟩⟩

theorem created_exists_iff (hc : c.Accepts) (hs : s.Consistent c) {a : CreateArgs} (kind : JobKind)
    (identity : BuildIdentity) (hid : nonEmpty a.jobId = some jobId) (hm : 0 ≤ a.maxRetries) :
    (∃ r s₁ s₂, Created c s a (newPayload c a jobId kind identity) s₁ s₂ r) ↔
      (∀ row ∈ s.jobs.rows, row.idempotencyKey = a.idempotencyKey → a.idempotencyKey = none) ∧
      s.job? jobId = none ∧
      ∀ parentId, nonEmpty a.parentJobId = some parentId → parentId = jobId ∨ (s.job? parentId).isSome := by
  have hinsert : (∃ s', s.insertJob (rowOf (newPayload c a jobId kind identity)) = some s') ↔
      (∀ row ∈ s.jobs.rows, row.idempotencyKey = a.idempotencyKey → a.idempotencyKey = none) ∧
      s.job? jobId = none := insertJob_isSome_iff
  have hinit : (newPayload c a jobId kind identity).Initial c := newPayload_initial hid hm (hc _)
  have hlink : ∀ s₁, s.insertJob (rowOf (newPayload c a jobId kind identity)) = some s₁ →
      ((∃ s₂, linkParent c s₁ a.parentJobId jobId a.now = .ok s₂) ↔
        ∀ parentId, nonEmpty a.parentJobId = some parentId → parentId = jobId ∨ (s.job? parentId).isSome) := by
    intro s₁ hins
    have hs₁ := Effect.consistent (.insert hinit.fresh hinit.named hinit.accepted hins) hs
    obtain ⟨-,jobs,hjobs,rfl⟩ := insertJob_eq_some hins
    rw [linkParent_succeeds_iff hc hs₁]
    refine forall_congr' fun parentId => imp_congr_right fun _ => ?_
    have hfind := Table.find?_insert? hjobs parentId
    unfold Store.job?
    rw [hfind, eq_comm (a := parentId)]
    change ((if jobId = parentId then _ else _ : Option JobRow).map _).isSome ↔ _
    split <;> rename_i he
    · simp [he]
    · simp [he]
  constructor
  · rintro ⟨r,s₁,s₂,h⟩
    obtain ⟨hkey,habs⟩ := hinsert.mp ⟨s₁,h.inserted⟩
    exact ⟨hkey,habs,(hlink s₁ h.inserted).mp ⟨s₂,h.linked⟩⟩
  · rintro ⟨hkey,habs,hp⟩
    obtain ⟨s₁,hins⟩ := hinsert.mpr ⟨hkey,habs⟩
    obtain ⟨s₂,hlinked⟩ := (hlink s₁ hins).mpr hp
    obtain ⟨r,hr⟩ := append_succeeds hc s₂ jobId .created (newPayload c a jobId kind identity) none
    exact ⟨r,s₁,s₂,⟨hins,hlinked,hr⟩⟩

theorem create_succeeds_iff (hc : c.Accepts) (hs : s.Consistent c) {a : CreateArgs} :
    (∃ r, create c s a = .ok r) ↔ a.Admissible s := by
  simp only [create_ok_iff]
  constructor
  · rintro ⟨r,jobId,kind,hid,hkind,hm,⟨existing,hrep,-⟩ | ⟨-,identity,hident,-,s₁,s₂,hcr⟩⟩
    · exact ⟨jobId,hid,isSome_of_eq_some hkind,hm,Or.inl (isSome_of_eq_some hrep)⟩
    · obtain ⟨hkey,habs,hp⟩ := (created_exists_iff hc hs kind identity hid hm).mp ⟨r,s₁,s₂,hcr⟩
      exact ⟨jobId,hid,isSome_of_eq_some hkind,hm,Or.inr ⟨⟨identity,hident⟩,hkey,habs,hp⟩⟩
  · rintro ⟨jobId,hid,hkind,hm,h⟩
    obtain ⟨kind,hkind⟩ := isSome_iff_exists.mp hkind
    cases hrep : replayed s a with
    | some existing => exact ⟨_,jobId,kind,hid,hkind,hm,Or.inl ⟨existing,rfl,rfl⟩⟩
    | none =>
      rw [hrep] at h
      rcases h with h | ⟨⟨identity,hident⟩,hkey,habs,hp⟩
      · cases h
      · obtain ⟨r,s₁,s₂,hcr⟩ := (created_exists_iff hc hs kind identity hid hm).mpr ⟨hkey,habs,hp⟩
        exact ⟨r,jobId,kind,hid,hkind,hm,Or.inr ⟨rfl,identity,hident,hc _,s₁,s₂,hcr⟩⟩

/-! ### All operations -/

theorem exec_job_succeeds_iff {x : Except JobV1Error (Job × Store)} : (∃ r, jobResult x = .ok r) ↔ ∃ r, x = .ok r := by
  cases x with
  | ok | error => simp [jobResult, Except.map]

section
variable (hc : c.Accepts) (hs : s.Consistent c)
include hc hs

/-- A call succeeds exactly if it is admissible. -/
theorem exec_succeeds_iff (op : Op) : (∃ r, exec c s op = .ok r) ↔ op.Admissible s := by
  cases op with
  | create => exact exec_job_succeeds_iff.trans (create_succeeds_iff hc hs)
  | markRunning =>
    refine exec_job_succeeds_iff.trans ?_
    simp only [markRunning_ok_iff hs]
    constructor
    · rintro ⟨r,ho,hd,job,hjob,hv,hst,-⟩
      exact ⟨ho,hd,job,hjob,hv,hst⟩
    · rintro ⟨ho,hd,job,hjob,hv,hst⟩
      exact ⟨_,ho,hd,job,hjob,hv,hst,hc.write _ _,rfl⟩
  | renewLease =>
    refine exec_job_succeeds_iff.trans ?_
    simp only [renewLease_ok_iff hs]
    constructor
    · rintro ⟨r,hd,job,hjob,hv,hl,-⟩
      exact ⟨hd,job,hjob,hv,hl⟩
    · rintro ⟨hd,job,hjob,hv,hl⟩
      exact ⟨_,hd,job,hjob,hv,hl,hc.write _ _,rfl⟩
  | markSucceeded =>
    refine exec_job_succeeds_iff.trans ?_
    simp only [markSucceeded_ok_iff hs]
    constructor
    · rintro ⟨r,job,hjob,hv,hst,hl,-⟩
      exact ⟨job,hjob,hv,hst,hl⟩
    · rintro ⟨job,hjob,hv,hst,hl⟩
      exact ⟨_,job,hjob,hv,hst,hl,hc.write _ _,rfl⟩
  | markFailed =>
    refine exec_job_succeeds_iff.trans ?_
    simp only [markFailed_ok_iff hs]
    constructor
    · rintro ⟨r,job,hjob,hv,hst,-⟩
      exact ⟨job,hjob,hv,hst⟩
    · rintro ⟨job,hjob,hv,hst⟩
      exact ⟨_,job,hjob,hv,hst,hc.write _ _,rfl⟩
  | cancel =>
    refine exec_job_succeeds_iff.trans ?_
    simp only [cancel_ok_iff hs]
    constructor
    · rintro ⟨r,job,hjob,⟨hst,-⟩ | ⟨hst,-⟩⟩
      · exact ⟨job,hjob,by simp [hst]⟩
      · exact ⟨job,hjob,hst⟩
    · rintro ⟨job,hjob,hst⟩
      by_cases hcan : job.state = .canceled
      · exact ⟨_,job,hjob,Or.inl ⟨hcan,rfl⟩⟩
      · exact ⟨_,job,hjob,Or.inr ⟨hst,hcan,hc.write _ _,rfl⟩⟩
  | retry =>
    refine exec_job_succeeds_iff.trans ?_
    simp only [retry_ok_iff hs]
    constructor
    · rintro ⟨r,job,hjob,⟨hst,hn,-⟩ | ⟨hst,hm,-⟩⟩
      · exact ⟨job,hjob,Or.inl ⟨hst,hn⟩⟩
      · exact ⟨job,hjob,Or.inr ⟨hst,hm⟩⟩
    · rintro ⟨job,hjob,⟨hst,hn⟩ | ⟨hst,hm⟩⟩
      · exact ⟨_,job,hjob,Or.inl ⟨hst,hn,rfl⟩⟩
      · exact ⟨_,job,hjob,Or.inr ⟨hst,hm,hc.write _ _,rfl⟩⟩
  | recoverLostLeases now =>
    obtain ⟨n,s',h⟩ := recover_succeeds hc hs now
    simp [exec, h, Except.map, Op.Admissible]

theorem step_of_not_admissible {op : Op} (h : ¬op.Admissible s) : step c s op = s := by
  rcases step_cases hs op with ⟨res,hok,-⟩ | ⟨-,hsame⟩
  · exact absurd ((exec_succeeds_iff hc hs op).mp ⟨_,hok⟩) h
  · exact hsame

theorem step_of_admissible {op : Op} (h : op.Admissible s) :
    ∃ res, exec c s op = .ok (res, step c s op) ∧ Outcome c s op res (step c s op) := by
  rcases step_cases hs op with hok | ⟨⟨e,he⟩,-⟩
  · exact hok
  · obtain ⟨r,hr⟩ := (exec_succeeds_iff hc hs op).mpr h
    rw [he] at hr
    cases hr

end

end OpenPine.Jobs
