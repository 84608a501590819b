import OpenPine.Jobs.JobV1
import Mathlib.Logic.Relation

/-! # The life of one job

`Change job e job'` is the abstract machine of a single job: what an accepted
call may make of its payload, and the event type it goes with. It says nothing
about tables, hashes or event ids. The store refines it, and the facts below hold
along any sequence of changes because each of them holds along one.
-/
namespace OpenPine.Jobs

/-- The owner holds a lease on the job that has not run out at time `now`. -/
def Job.LiveLease (job : Job) (owner : String) (now : ℤ) : Prop :=
  owner ≠ "" ∧ job.leaseOwner = some owner ∧ ∃ deadline, job.leaseDeadlineUtcMs = some deadline ∧ now ≤ deadline

inductive Change : Job → EventType → Job → Prop
  | running {job : Job} {owner : String} {deadline now : ℤ} (hs : job.state = .queued) (ho : owner ≠
    "") (hd : now < deadline) :
      Change job .running { job with
        startedAtUtcMs := some now, leaseOwner := some owner, leaseDeadlineUtcMs := some deadline, state := .running
        updatedAtUtcMs := now, version := job.version + 1 }
  | leaseRenewed {job : Job} {owner : String} {deadline now : ℤ} (hl : job.LiveLease owner now) (hd : now < deadline) :
      Change job .leaseRenewed { job with
        leaseDeadlineUtcMs := some deadline, updatedAtUtcMs := now, version := job.version + 1 }
  | succeeded {job : Job} {owner : String} {now : ℤ} {refs : List String} (hs : job.state = .running)
      (hl : job.LiveLease owner now) :
      Change job .succeeded { job with
        progress := 100, finishedAtUtcMs := some now, resultArtifactRefs := refs, leaseOwner := none,
        leaseDeadlineUtcMs := none
        state := .succeeded, updatedAtUtcMs := now, version := job.version + 1 }
  | failed {job : Job} {now : ℤ} {code : String}
      (hs : job.state = .queued ∨ job.state = .running ∧ ∃ owner, job.LiveLease owner now) :
      Change job .failed { job with
        finishedAtUtcMs := some now, errorCode := some code, leaseOwner := none, leaseDeadlineUtcMs := none,
        state := .failed
        updatedAtUtcMs := now, version := job.version + 1 }
  | canceled {job : Job} {now finished : ℤ} (hs : job.state ≠ .succeeded) (hc : job.state ≠ .canceled) :
      Change job .canceled { job with
        finishedAtUtcMs := some finished, leaseOwner := none, leaseDeadlineUtcMs := none, state := .canceled,
        updatedAtUtcMs := now
        version := job.version + 1 }
  | retried {job : Job} {now : ℤ} (hs : job.state = .failed ∨ job.state = .lost ∨ job.state = .retryWait)
      (hm : ∀ m, job.maxRetries = some m → (job.retryCount : ℤ) + 1 ≤ m) :
      Change job .retried { job with
        retryCount := job.retryCount + 1, finishedAtUtcMs := none, errorCode := none, state := .queued,
        updatedAtUtcMs := now
        version := job.version + 1 }
  | lost {job : Job} {now deadline : ℤ} (hs : job.state = .running)
      (hd : job.leaseDeadlineUtcMs = some deadline) (hx : deadline < now) :
      Change job .lost { job with
        finishedAtUtcMs := some now, leaseOwner := none, leaseDeadlineUtcMs := none, state := .lost,
        updatedAtUtcMs := now
        version := job.version + 1 }
  | childLinked {job : Job} {child : String} {now : ℤ} (hn : child ∉ job.childJobIds) :
      Change job .childLinked { job with
        childJobIds := job.childJobIds ++ [child], updatedAtUtcMs := now, version := job.version + 1 }

structure Job.Fresh (job : Job) : Prop where
  state : job.state = .queued
  version : job.version = 1
  leaseOwner : job.leaseOwner = none
  finished : job.finishedAtUtcMs = none
  retryCount : job.retryCount = 0
  maxRetries : ∃ m, job.maxRetries = some m ∧ 0 ≤ m
  childJobIds : job.childJobIds = []
  eventCursor : job.eventCursor = none

/-- One elementary step of what the store holds under a job id. The event cursor
and the content hash are left to the store. -/
inductive JobStep : Option Job → Option Job → Prop
  | created {job : Job} (h : job.Fresh) : JobStep none (some job)
  | changed {job job' : Job} {e : EventType} (h : Change job e job') (cursor : Option String) (hash : String) :
      JobStep (some job) (some { job' with eventCursor := cursor, contentHash := hash })
  | resealed (job : Job) (cursor : Option String) (hash : String) :
      JobStep (some job) (some { job with eventCursor := cursor, contentHash := hash })

abbrev JobHistory := Relation.ReflTransGen JobStep

variable {job job' : Job} {e : EventType} {x y : Option Job}

theorem Change.version_succ (h : Change job e job') : job'.version = job.version + 1 := by
  cases h <;> rfl

structure SameIdentity (job job' : Job) : Prop where
  jobId : job'.jobId = job.jobId
  kind : job'.kind = job.kind
  envelope : job'.envelope = job.envelope
  idempotencyKey : job'.idempotencyKey = job.idempotencyKey
  maxRetries : job'.maxRetries = job.maxRetries

theorem SameIdentity.trans {job'' : Job} (h : SameIdentity job job') (h' : SameIdentity job' job'') :
    SameIdentity job job'' where
  jobId := h'.jobId.trans h.jobId
  kind := h'.kind.trans h.kind
  envelope := h'.envelope.trans h.envelope
  idempotencyKey := h'.idempotencyKey.trans h.idempotencyKey
  maxRetries := h'.maxRetries.trans h.maxRetries

theorem Change.sameIdentity (h : Change job e job') : SameIdentity job job' := by
  cases h <;> exact ⟨rfl,rfl,rfl,rfl,rfl⟩

theorem Change.final (h : Change job e job') (hf : job.state = .succeeded ∨ job.state = .canceled) :
    job'.state = job.state := by
  cases h with
  | running hs | succeeded hs | lost hs => simp [hs] at hf
  | leaseRenewed | childLinked => rfl
  | failed hs =>
    rcases hs with hs | ⟨hs,_⟩ <;> simp [hs] at hf
  | canceled hs hc =>
    rcases hf with hf | hf
    · exact absurd hf hs
    · exact absurd hf hc
  | retried hs =>
    rcases hs with hs | hs | hs <;> simp [hs] at hf

/-! ### The lease and finish fields -/

structure Job.LeaseValid (job : Job) : Prop where
  lease : job.state = .running ↔ (∃ owner, job.leaseOwner = some owner ∧ owner ≠ "") ∧ job.leaseDeadlineUtcMs ≠ none
  finished : job.finishedAtUtcMs ≠ none ↔ job.state ∈ JobState.terminal

theorem Job.Fresh.leaseValid (h : job.Fresh) : job.LeaseValid := by
  constructor
  · simp [h.state, h.leaseOwner]
  · simp [h.state, h.finished, JobState.terminal]

theorem Job.LiveLease.running {owner : String} {now : ℤ} (h : job.LiveLease owner now)
    (hv : job.LeaseValid) : job.state = .running := by
  obtain ⟨hne,ho,deadline,hd,_⟩ := h
  exact hv.lease.mpr ⟨⟨owner,ho,hne⟩,by simp [hd]⟩

/-- Running jobs alone have a lease, and ended jobs alone a time of their end. -/
theorem Change.leaseValid (h : Change job e job') (hv : job.LeaseValid) : job'.LeaseValid := by
  cases h with
  | running hs ho =>
    have hf := hv.finished
    simp only [hs, JobState.terminal] at hf
    exact ⟨by simp [ho],by simpa [JobState.terminal] using hf⟩
  | leaseRenewed hl =>
    have hs := hl.running hv
    obtain ⟨hne,ho,_⟩ := hl
    exact ⟨by simp [hs, ho, hne],hv.finished⟩
  | succeeded | failed | canceled | lost => exact ⟨by simp,by simp [JobState.terminal]⟩
  | retried hs =>
    have hn : job.state ≠ .running := by rcases hs with hs | hs | hs <;> simp [hs]
    have hl := mt hv.lease.mpr hn
    exact ⟨by simpa using hl,by simp [JobState.terminal]⟩
  | childLinked => exact ⟨hv.lease,hv.finished⟩

/-! ### The retry budget -/

def Job.RetryValid (job : Job) : Prop := ∃ m, job.maxRetries = some m ∧ (job.retryCount : ℤ) ≤ m

theorem Job.Fresh.retryValid (h : job.Fresh) : job.RetryValid := by
  obtain ⟨m,hm,h0⟩ := h.maxRetries
  exact ⟨m,hm,by simpa [h.retryCount] using h0⟩

theorem Change.retryValid (h : Change job e job') (hv : job.RetryValid) : job'.RetryValid := by
  obtain ⟨m,hm,hle⟩ := hv
  cases h with
  | retried _ hb => exact ⟨m,hm,by simpa using hb m hm⟩
  | _ => exact ⟨m,hm,hle⟩

/-- How often a job can have been leased, judged from its payload alone. -/
def Job.leases (job : Job) : ℕ := job.retryCount + if job.state = .queued then 0 else 1

def stateOf (x : Option Job) : Option JobState := x.map Job.state

def enters (before after : Option Job) : ℕ :=
  if stateOf before ≠ some .running ∧ stateOf after = some .running then 1 else 0

theorem Change.leases_le (h : Change job e job') : enters (some job) (some job') + job.leases ≤ job'.leases := by
  cases h with
  | running hs => simp [enters, stateOf, Job.leases, hs, Nat.add_comm]
  | leaseRenewed | childLinked => by_cases hr : job.state = .running <;> simp [enters, stateOf, Job.leases, hr]
  | succeeded hs | lost hs => simp [enters, stateOf, Job.leases, hs]
  | failed hs =>
    rcases hs with hs | ⟨hs,_⟩ <;> simp [enters, stateOf, Job.leases, hs]
  | canceled => by_cases hq : job.state = .queued <;> simp [enters, stateOf, Job.leases, hq]
  | retried hs =>
    rcases hs with hs | hs | hs <;> simp [enters, stateOf, Job.leases, hs]

/-! ### Along a history -/

def versionOf (x : Option Job) : ℕ := x.elim 0 Job.version
def leasesOf (x : Option Job) : ℕ := x.elim 0 Job.leases

theorem JobHistory.preserves {P : Job → Prop} (hfresh : ∀ job, job.Fresh → P job)
    (hchange : ∀ job e job', Change job e job' → P job → P job')
    (hseal : ∀ job cursor hash, P job → P { job with eventCursor := cursor, contentHash := hash })
    (h : JobHistory x y) (hx : ∀ job ∈ x, P job) : ∀ job ∈ y, P job := by
  induction h with
  | refl => exact hx
  | tail _ hstep ih =>
    cases hstep with
    | created hf => simpa using hfresh _ hf
    | changed hc cursor hash => simpa using hseal _ cursor hash (hchange _ _ _ hc (by simpa using ih))
    | resealed _ cursor hash => simpa using hseal _ cursor hash (by simpa using ih)

theorem JobHistory.version_le (h : JobHistory x y) :
    versionOf x ≤ versionOf y ∧ (versionOf x = versionOf y → stateOf x = stateOf y) := by
  induction h with
  | refl => exact ⟨Nat.le_refl _,fun _ => rfl⟩
  | tail _ hstep ih =>
    cases hstep with
    | created hf =>
      have hv := hf.version
      refine ⟨by simp only [versionOf, Option.elim] at ih ⊢; omega,?_⟩
      intro he
      simp only [versionOf, Option.elim] at ih he
      omega
    | changed hc =>
      have hv := hc.version_succ
      refine ⟨by simp only [versionOf, Option.elim] at ih ⊢; omega,?_⟩
      intro he
      simp only [versionOf, Option.elim] at ih he
      omega
    | resealed => exact ih

theorem JobHistory.version_lt (h : JobHistory x y) (hs : stateOf x ≠ stateOf y) : versionOf x < versionOf y := by
  obtain ⟨hle,heq⟩ := h.version_le
  exact Nat.lt_of_le_of_ne hle (fun he => hs (heq he))

theorem JobHistory.sameIdentity (h : JobHistory (some job) y) : ∃ job', y = some job' ∧ SameIdentity job job' := by
  induction h with
  | refl => exact ⟨job,rfl,⟨rfl,rfl,rfl,rfl,rfl⟩⟩
  | tail _ hstep ih =>
    obtain ⟨job₁,rfl,hid⟩ := ih
    cases hstep with
    | changed hc =>
      have hsame := hid.trans hc.sameIdentity
      exact ⟨_,rfl,⟨hsame.jobId,hsame.kind,hsame.envelope,hsame.idempotencyKey,hsame.maxRetries⟩⟩
    | resealed => exact ⟨_,rfl,⟨hid.jobId,hid.kind,hid.envelope,hid.idempotencyKey,hid.maxRetries⟩⟩

theorem JobHistory.final (h : JobHistory (some job) y)
    (hf : job.state = .succeeded ∨ job.state = .canceled) : stateOf y = some job.state := by
  induction h with
  | refl => rfl
  | tail _ hstep ih =>
    cases hstep with
    | created => cases ih
    | changed hc =>
      have hs : _ = job.state := Option.some.inj ih
      exact congrArg some ((hc.final (by rw [hs]; exact hf)).trans hs)
    | resealed => exact ih

theorem enters_self (x : Option Job) : enters x x = 0 := by
  unfold enters
  rw [if_neg]
  rintro ⟨hn,hr⟩
  exact hn hr

theorem enters_trans (x y z : Option Job) : enters x z ≤ enters x y + enters y z := by
  unfold enters
  by_cases hy : stateOf y = some .running
  · simp only [hy, ne_eq, not_true_eq_false, false_and, and_true, if_false]
    split <;> rename_i hx
    · simp [hx.1]
    · omega
  · simp only [hy, ne_eq, not_false_eq_true, true_and, and_false, if_false]
    split <;> rename_i hx
    · simp [hx.2]
    · omega

theorem JobHistory.leases_le (h : JobHistory x y) : enters x y + leasesOf x ≤ leasesOf y := by
  induction h with
  | refl =>
    have hzero := enters_self x
    omega
  | @tail y z _ hstep ih =>
    have htrans := enters_trans x y z
    have hlast : enters y z + leasesOf y ≤ leasesOf z := by
      cases hstep with
      | created hf => simp [enters, stateOf, leasesOf, Job.leases, hf.state, hf.retryCount]
      | changed hc => exact hc.leases_le
      | resealed job => by_cases hr : job.state = .running <;> simp [enters, stateOf, leasesOf, Job.leases, hr]
    omega

end OpenPine.Jobs
