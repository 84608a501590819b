import OpenPine.Jobs.Reachable

/-! # Leases and retries over whole runs

The lease fields of every stored job agree with its state, at each instant either
the lease holder or the recovery may act and never both, versions a holder saw
are worthless once its lease was lost, and the retry budget bounds the leases.
-/
namespace OpenPine.Jobs
open Transaction Runs
variable {c : Contracts} {s : Store}

/-! ### The lease fields -/

variable {id owner : String} {job : Job} {t : ℤ}

theorem renewLease_running (hs : Reached c s) {deadline now : ℤ} {v : Option ℤ}
    {r : Job × Store} (h : renewLease c s id owner deadline now v = .ok r) :
    ∃ job, s.job? id = some job ∧ job.state = .running := by
  obtain ⟨-,job,hjob,-,hlive,-⟩ := (renewLease_ok_iff hs.consistent).mp h
  exact ⟨job,hjob,hlive.running (hs.leaseValid hjob)⟩

/-- In every reachable file the lease and finish fields of every row follow its
state, the columns mirror the payload, and only RUNNING jobs can be renewed. -/
theorem lease_fields_follow_state (c : Contracts) (s : Store) (hs : Reached c s) : (∀ row ∈ s.jobs.rows,
      (row.payload.state = .running ↔
        (∃ owner, row.payload.leaseOwner = some owner ∧ owner ≠ "") ∧ row.payload.leaseDeadlineUtcMs ≠ none) ∧
      (row.payload.finishedAtUtcMs ≠ none ↔ row.payload.state = .succeeded ∨ row.payload.state = .failed ∨
          row.payload.state = .canceled ∨ row.payload.state = .lost) ∧
      row.state = row.payload.state ∧ row.version = row.payload.version) ∧
    ∀ id owner deadline now v r, renewLease c s id owner deadline now v = .ok r →
      ∃ job, s.job? id = some job ∧ job.state = .running := by
  refine ⟨fun row hrow => ?_,fun id owner deadline now v r h => renewLease_running hs h⟩
  obtain ⟨hmir,hjob⟩ := hs.consistent.find?_row (Table.find?_of_mem hrow)
  have hvalid := hs.leaseValid hjob
  have hfin := hvalid.finished
  simp only [JobState.terminal, List.mem_cons, List.not_mem_nil, or_false] at hfin
  refine ⟨hvalid.lease,hfin,?_,?_⟩
  · rw [hmir]
    rfl
  · rw [hmir]
    rfl

def leasedRun : List Op := [.create (.plain "a"), .markRunning "a" "w" 10 1 (some 1), .renewLease "a" "w" 20 2 (some 2)]

theorem leasedRun_fields_follow_state : Reached plainContracts (run (step plainContracts) .empty leasedRun) ∧
    ∀ row ∈ (run (step plainContracts) .empty leasedRun).jobs.rows, row.state = row.payload.state := by
  have hs : Reached plainContracts (run (step plainContracts) .empty leasedRun) := ⟨leasedRun,rfl⟩
  exact ⟨hs,fun row hrow => ((lease_fields_follow_state _ _ hs).1 row hrow).2.2.1⟩

/-! ### Exclusivity -/

/-- The recorded owner, using the current version, may do all three things at time `t`. -/
structure OwnerMayAct (c : Contracts) (s : Store) (job : Job) (owner : String) (t : ℤ) : Prop where
  renew : ∀ deadline, t < deadline → ∃ r, renewLease c s job.jobId owner deadline t (some job.version) = .ok r
  succeed : ∀ refs, ∃ r, markSucceeded c s job.jobId owner t (some job.version) refs = .ok r
  fail : ∀ code, ∃ r, markFailed c s job.jobId code (some owner) t (some job.version) = .ok r

/-- No call of the three that names the job at time `t` is accepted, whoever makes it. -/
structure NobodyMayAct (c : Contracts) (s : Store) (job : Job) (t : ℤ) : Prop where
  renew : ∀ owner deadline v r, renewLease c s job.jobId owner deadline t v ≠ .ok r
  succeed : ∀ owner v refs r, markSucceeded c s job.jobId owner t v refs ≠ .ok r
  fail : ∀ code owner v r, markFailed c s job.jobId code owner t v ≠ .ok r

theorem ownerMayAct (hc : c.Accepts) (hs : s.Consistent c) (hjob : s.job? job.jobId = some job)
    (hrun : job.state = .running) (hlive : job.LiveLease owner t) :
    OwnerMayAct c s job owner t := by
  have hver : versionMatches job (some (job.version : ℤ)) := by simp [versionMatches]
  constructor
  · intro deadline hd
    exact ⟨_,(renewLease_ok_iff hs).mpr ⟨hd,job,hjob,hver,hlive,hc.write _ _,rfl⟩⟩
  · intro refs
    exact ⟨_,(markSucceeded_ok_iff hs).mpr ⟨job,hjob,hver,hrun,hlive,hc.write _ _,rfl⟩⟩
  · intro code
    exact ⟨_,(markFailed_ok_iff hs).mpr ⟨job,hjob,hver,Or.inr ⟨hrun,owner,rfl,hlive⟩,hc.write _ _,rfl⟩⟩

/-- After its deadline nobody may act on a running job. -/
theorem nobodyMayAct (hs : s.Consistent c) (hjob : s.job? job.jobId = some job) (hrun : job.state = .running)
    (hdead : ∀ owner, ¬job.LiveLease owner t) : NobodyMayAct c s job t := by
  constructor
  · intro owner deadline v r h
    obtain ⟨-,job',hjob',-,hlive,-⟩ := (renewLease_ok_iff hs).mp h
    cases hjob.symm.trans hjob'
    exact hdead owner hlive
  · intro owner v refs r h
    obtain ⟨job',hjob',-,-,hlive,-⟩ := (markSucceeded_ok_iff hs).mp h
    cases hjob.symm.trans hjob'
    exact hdead owner hlive
  · intro code owner v r h
    obtain ⟨job',hjob',-,hst,-⟩ := (markFailed_ok_iff hs).mp h
    cases hjob.symm.trans hjob'
    rcases hst with hq | ⟨-,o,-,hlive⟩
    · rw [hq] at hrun
      cases hrun
    · exact hdead o hlive

theorem liveLease_iff_not_expired (hv : job.LeaseValid) (hrun : job.state = .running)
    (ho : job.leaseOwner = some owner) :
    job.LiveLease owner t ↔ job.expired t = false := by
  obtain ⟨⟨owner',ho',hne⟩,hd⟩ := hv.lease.mp hrun
  cases ho.symm.trans ho'
  obtain ⟨deadline,hd⟩ := Option.ne_none_iff_exists'.mp hd
  simp [Job.LiveLease, Job.expired, ho, hne, hd]

theorem step_recover_job? (hc : c.Accepts) (hs : s.Consistent c) (t : ℤ) (id : String) :
    Recovered t (s.job? id) ((step c s (.recoverLostLeases t)).job? id) := by
  obtain ⟨n,s',h⟩ := recover_succeeds hc hs t
  have hstep : step c s (.recoverLostLeases t) = s' := by simp [step, exec, h, Except.map]
  rw [hstep]
  exact recover_job? hs h id

theorem stale_version_rejected (hs : s.Consistent c) {v : ℕ} (hv : v < versionOf (s.job? id)) :
    (∀ owner deadline now r, renewLease c s id owner deadline now (some v) ≠ .ok r) ∧
    (∀ owner now refs r, markSucceeded c s id owner now (some v) refs ≠ .ok r) ∧
    ∀ code owner now r, markFailed c s id code owner now (some v) ≠ .ok r := by
  have hstale : ∀ job, s.job? id = some job → ¬versionMatches job (some (v : ℤ)) := by
    intro job hjob hm
    rw [hjob] at hv
    have he : (job.version : ℤ) = v := hm v rfl
    simp only [versionOf, Option.elim] at hv
    omega
  refine ⟨?_,?_,?_⟩
  · intro owner deadline now r h
    obtain ⟨-,job,hjob,hm,-⟩ := (renewLease_ok_iff hs).mp h
    exact hstale job hjob hm
  · intro owner now refs r h
    obtain ⟨job,hjob,hm,-⟩ := (markSucceeded_ok_iff hs).mp h
    exact hstale job hjob hm
  · intro code owner now r h
    obtain ⟨job,hjob,hm,-⟩ := (markFailed_ok_iff hs).mp h
    exact hstale job hjob hm

def RecoveredAsLost (c : Contracts) (s : Store) (id : String) (t : ℤ) : Prop :=
  stateOf ((step c s (.recoverLostLeases t)).job? id) = some .lost

structure StaleCallsFail (c : Contracts) (s : Store) (id owner : String) (v : ℕ) : Prop where
  renew : ∀ deadline now, (∃ e, renewLease c s id owner deadline now (some v) = .error e) ∧
    step c s (.renewLease id owner deadline now (some v)) = s
  succeed : ∀ now refs, (∃ e, markSucceeded c s id owner now (some v) refs = .error e) ∧
    step c s (.markSucceeded id owner now (some v) refs) = s
  fail : ∀ code now, (∃ e, markFailed c s id code (some owner) now (some v) = .error e) ∧
    step c s (.markFailed id code (some owner) now (some v)) = s

theorem rejected {x : Except JobV1Error (Job × Store)} (h : ∀ r, x ≠ .ok r) :
    (∃ e, x = .error e) ∧ settle s (jobResult x) = s := by
  cases x with
  | ok r => exact absurd rfl (h r)
  | error e => exact ⟨⟨e,rfl⟩,rfl⟩

theorem staleCallsFail (hs : s.Consistent c) {v : ℕ} (hv : v < versionOf (s.job? id))
    (owner : String) : StaleCallsFail c s id owner v := by
  obtain ⟨hrenew,hsucceed,hfail⟩ := stale_version_rejected hs hv
  exact ⟨fun _ _ => rejected (hrenew _ _ _),fun _ _ => rejected (hsucceed _ _ _), fun _ _ => rejected (hfail _ _ _)⟩

/-- For a RUNNING job exactly one of its recorded owner and the recovery may act at
any instant. Once the lease has been recovered as LOST, whatever happens later,
calls with a version seen during that lease fail. -/
theorem lease_exclusivity (c : Contracts) (hc : c.Accepts) (s : Store) (hs : Reached c s) (id : String)
    (job : Job) (hjob : s.job? id = some job) (hrun : job.state = .running) :
    ∃ owner, job.leaseOwner = some owner ∧
      (∀ t, (OwnerMayAct c s job owner t ∧ (step c s (.recoverLostLeases t)).job? id = some job) ∨
        (NobodyMayAct c s job t ∧ RecoveredAsLost c s id t)) ∧
      ∀ held t later, stateOf ((run (step c) s held).job? id) = some .running →
        RecoveredAsLost c (run (step c) s held) id t →
        StaleCallsFail c (run (step c) (step c (run (step c) s held) (.recoverLostLeases t)) later) id owner
          job.version := by
  have hcons := hs.consistent
  have hvalid := hs.leaseValid hjob
  have hid := hcons.jobId_eq hjob
  subst hid
  obtain ⟨⟨owner,ho,hne⟩,hd⟩ := hvalid.lease.mp hrun
  refine ⟨owner,ho,fun t => ?_,fun held t later hheld hlost => ?_⟩
  · have hlive : ∀ o, job.LiveLease o t → job.expired t = false := fun o hl =>
      (liveLease_iff_not_expired hvalid hrun hl.2.1).mp hl
    rcases step_recover_job? hc hcons t job.jobId with ⟨job',hj,-,hexp,cursor,hash,hafter⟩ | ⟨hexp,hafter⟩
    · cases hjob.symm.trans hj
      refine Or.inr ⟨nobodyMayAct hcons hjob hrun (fun o hl => ?_),?_⟩
      · rw [hlive o hl] at hexp
        cases hexp
      · unfold RecoveredAsLost
        rw [hafter]
        rfl
    · have hl := (liveLease_iff_not_expired hvalid hrun ho).mpr (hexp job hjob hrun)
      exact Or.inl ⟨ownerMayAct hc hcons hjob hrun hl,hafter.trans hjob⟩
  · have hs₁ : Reached c (run (step c) s held) := hs.run held
    have hs₂ : Reached c (step c (run (step c) s held) (.recoverLostLeases t)) := hs₁.next _
    have hlease := (run_history hcons held job.jobId).version_le.1
    have hlater := (run_history hs₂.consistent later job.jobId).version_le.1
    have hmove := (step_effects hs₁.consistent (.recoverLostLeases t)).history hs₁.consistent job.jobId
    have hlt := hmove.version_lt (by rw [hheld, hlost]; simp)
    refine staleCallsFail (Reached.consistent (hs₂.run later)) ?_ owner
    rw [hjob] at hlease
    simp only [versionOf, Option.elim] at hlease hlater hlt ⊢
    omega

/-- The lease of the job is lost at time 30, retried and given to an owner of the
same name; the version of the first lease stays useless. -/
theorem leasedRun_exclusivity : ∃ job, (run (step plainContracts) .empty leasedRun).job? "a" = some job ∧
    job.state = .running ∧
      job.version = 3 ∧
      OwnerMayAct plainContracts (run (step plainContracts) .empty leasedRun) job "w" 20 ∧
      NobodyMayAct plainContracts (run (step plainContracts) .empty leasedRun) job 21 ∧
      StaleCallsFail plainContracts
        (run (step plainContracts) .empty
          (leasedRun ++ [.recoverLostLeases 30, .retry "a" 31, .markRunning "a" "w" 50 32 none]))
        "a" "w" 3 := by
  have hs : Reached plainContracts (run (step plainContracts) .empty leasedRun) := ⟨leasedRun,rfl⟩
  have hsome : ((run (step plainContracts) .empty leasedRun).job? "a").isSome := by decide
  obtain ⟨job,hjob⟩ := Option.isSome_iff_exists.mp hsome
  have hread : ((run (step plainContracts) .empty leasedRun).job? "a").map
      (fun j => (j.state, j.version, j.leaseOwner)) = some (.running, 3, some "w") := by decide
  rw [hjob] at hread
  obtain ⟨hrun,hver,howner⟩ : job.state = .running ∧ job.version = 3 ∧ job.leaseOwner = some "w" := by simpa using hread
  obtain ⟨owner,ho,hex,hstale⟩ := lease_exclusivity plainContracts plainContracts_accepts _ hs "a" job hjob hrun
  cases howner.symm.trans ho
  have hlive : stateOf ((step plainContracts (run (step plainContracts) .empty leasedRun)
      (.recoverLostLeases 20)).job? "a") = some .running := by decide
  have hdead : stateOf ((step plainContracts (run (step plainContracts) .empty leasedRun)
      (.recoverLostLeases 21)).job? "a") = some .lost := by decide
  have hlost : stateOf ((step plainContracts (run (step plainContracts) .empty leasedRun)
      (.recoverLostLeases 30)).job? "a") = some .lost := by decide
  refine ⟨job,hjob,hrun,hver,?_,?_,?_⟩
  · rcases hex 20 with ⟨hmay,-⟩ | ⟨-,hlost⟩
    · exact hmay
    · rw [RecoveredAsLost, hlive] at hlost
      cases hlost
  · rcases hex 21 with ⟨-,hsame⟩ | ⟨hnone,-⟩
    · rw [hsame] at hdead
      simp [stateOf, hrun] at hdead
    · exact hnone
  · rw [run_append]
    have h := hstale [] 30 [.retry "a" 31, .markRunning "a" "w" 50 32 none]
      (by rw [run_nil, hjob]; simp [stateOf, hrun]) hlost
    rwa [hver] at h

/-! ### The retry budget -/

def leasesGranted (c : Contracts) (id : String) (ops : List Op) : ℕ :=
  runCost (step c) (fun s op => enters (s.job? id) ((step c s op).job? id)) Store.empty ops

theorem leasesGranted_le (c : Contracts) (id : String) (ops : List Op) :
    leasesGranted c id ops ≤ leasesOf ((run (step c) Store.empty ops).job? id) := by
  have h : leasesGranted c id ops + leasesOf (Store.empty.job? id) ≤ _ :=
    runCost_add_le (Φ := fun s => leasesOf (s.job? id)) step_consistent
      (fun s op hs => ((step_effects hs op).history hs id).leases_le) (consistent_empty c) ops
  exact (Nat.le_add_right _ _).trans h

theorem Job.leases_le_retryCount (job : Job) : job.leases ≤ job.retryCount + 1 := by
  unfold Job.leases
  split <;> omega

/-- Whatever is called and in whatever order, a job is leased at most once more
often than it may be retried, and a job that succeeded or was canceled stays so. -/
theorem retries_bounded (c : Contracts) (ops : List Op) (id : String) :
    ((run (step c) Store.empty ops).job? id = none → leasesGranted c id ops = 0) ∧
    ∀ job, (run (step c) Store.empty ops).job? id = some job → ∃ maxRetries : ℤ, job.maxRetries = some maxRetries ∧
        (leasesGranted c id ops : ℤ) ≤ maxRetries + 1 ∧ (job.retryCount : ℤ) ≤ maxRetries ∧
        ((job.state = .succeeded ∨ job.state = .canceled) →
          ∀ later, stateOf ((run (step c) (run (step c) Store.empty ops) later).job? id) = some job.state) := by
  have hs : Reached c (run (step c) Store.empty ops) := ⟨ops,rfl⟩
  have hle := leasesGranted_le c id ops
  refine ⟨fun hnone => ?_,fun job hjob => ?_⟩
  · rw [hnone] at hle
    exact Nat.le_zero.mp hle
  · obtain ⟨m,hm,hretry⟩ := hs.retryValid hjob
    have hjobLe := job.leases_le_retryCount
    rw [hjob] at hle
    simp only [leasesOf, Option.elim] at hle
    refine ⟨m,hm,by omega,hretry,fun hfin later => ?_⟩
    have hhist := run_history hs.consistent later id
    rw [hjob] at hhist
    exact hhist.final hfin

example : leasesGranted plainContracts "a"
    [.create { CreateArgs.plain "a" with maxRetries := 1 }, .markRunning "a" "w" 10 1 none,
      .recoverLostLeases 11, .retry "a" 12, .markRunning "a" "w" 20 13 none,
      .markFailed "a" "E" (some "w") 14 none, .retry "a" 15, .markRunning "a" "w" 30 16 none] = 2 := by decide

/-! ### What a version guards -/

/-- What is stored under an id is as it was, or has a later version. -/
def Guards (x y : Option Job) : Prop :=
  ∀ job, x = some job → ∃ job', y = some job' ∧ (job' = job ∨ job.version < job'.version)

theorem Guards.of_eq {x y : Option Job} (h : y = x) : Guards x y := fun job hjob => ⟨job,h.trans hjob,.inl rfl⟩

theorem Guards.trans {x y z : Option Job} (h : Guards x y) (h' : Guards y z) : Guards x z := by
  intro job hjob
  obtain ⟨job₁,hjob₁,hfirst⟩ := h job hjob
  obtain ⟨job₂,hjob₂,hsecond⟩ := h' job₁ hjob₁
  refine ⟨job₂,hjob₂,?_⟩
  rcases hfirst with rfl | hfirst
  · exact hsecond
  · rcases hsecond with rfl | hsecond
    · exact .inr hfirst
    · exact .inr (hfirst.trans hsecond)

theorem Write.guards (w : Write) {s : Store} {job : Job} (hs : s.Consistent c)
    (hjob : s.job? w.payload.jobId = some job) (hch : Change job w.eventType w.payload) (id : String) :
    Guards (s.job? id) ((w.commit c s).job? id) := by
  rw [w.commit_job? (hs.job?_eq_some.mp hjob) id]
  split <;> rename_i he
  · rintro _ hid
    subst he
    cases hjob.symm.trans hid
    refine ⟨_,rfl,.inr ?_⟩
    rw [Write.persisted_version, hch.version_succ]
    exact Nat.lt_succ_self _
  · exact .of_eq rfl

theorem job?_updatePayload_ne (s : Store) {jobId id : String} (h : jobId ≠ id) {version : ℕ} {payload : Job} :
    (s.updatePayload jobId version payload).job? id = s.job? id := by
  unfold Store.updatePayload
  split <;> rename_i hrow
  · split
    · rw [← (Table.find?_eq_some.mp hrow).2] at h
      exact congrArg (Option.map JobRow.payload) (Table.find?_set_ne s.jobs _ h)
    · rfl
  · rfl

theorem Created.guards {s s₁ s₂ : Store} {a : CreateArgs} {payload : Job} {r : Job × Store}
    (h : Created c s a payload s₁ s₂ r) (hs : s.Consistent c) (hinit : payload.Initial c) (id : String) :
    Guards (s.job? id) (r.2.job? id) := by
  by_cases hid : payload.jobId = id
  · subst hid
    rintro job hjob
    cases h.absent.symm.trans hjob
  · -- the new job is another one, so only the link to a parent can change what is stored
    have hannounced : r.2.job? id = s₂.job? id := by
      by_cases ht : s₂.HasEvent (defaultEventId payload.jobId .created payload.version)
      · rw [h.announced_taken ht]
      · rw [(h.announced_fresh ht).2]
        exact job?_updatePayload_ne _ hid
    have hinserted : s₁.job? id = s.job? id := by rw [h.inserted_job?, if_neg hid]
    rw [hannounced, ← hinserted]
    rcases h.linked_cases hs hinit with ⟨-,rfl⟩ | ⟨parent,-,hparent,⟨-,rfl⟩ | ⟨hnew,-,rfl⟩⟩
    · exact .of_eq rfl
    · exact .of_eq rfl
    · exact Write.guards _ (h.inserted_consistent hs hinit) hparent (.childLinked hnew) id

theorem Outcome.guards {s s' : Store} {op : Op} {res : Result} (h : Outcome c s op res s') (hs : s.Consistent c)
    (id : String) :
    Guards (s.job? id) (s'.job? id) := by
  cases h with
  | replayed | unchanged => exact .of_eq rfl
  | created _ hjobId hm hval h => exact h.guards hs (newPayload_initial hjobId hm hval) id
  | performed _ _ hjob hch => exact Write.guards _ hs hjob hch id
  | recovered h =>
    rcases recover_job? hs h id with ⟨job,hjob,-,-,cursor,hash,hlost⟩ | ⟨-,hsame⟩
    · rintro _ hid
      cases hjob.symm.trans hid
      exact ⟨_,hlost,.inr (Nat.lt_succ_self _)⟩
    · exact .of_eq hsame

theorem run_guards {s : Store} (hs : s.Consistent c) (ops : List Op) (id : String) :
    Guards (s.job? id) ((run (step c) s ops).job? id) := by
  refine run_rel (R := fun s t => Guards (s.job? id) (t.job? id)) (fun _ => .of_eq rfl)
    (fun _ _ _ => .trans) step_consistent
    (fun s op hs => ?_) hs ops
  rcases step_cases hs op with ⟨res,-,hout⟩ | ⟨-,hsame⟩
  · exact hout.guards hs id
  · exact .of_eq (by rw [hsame])

/-- A stored job keeps its identity, and while its version is the one that a caller has read, it is the job that the
caller has read. -/
theorem version_guards_payload (c : Contracts) (ops later : List Op) (id : String) :
    versionOf ((run (step c) .empty ops).job? id) ≤ versionOf ((run (step c) .empty (ops ++ later)).job? id) ∧
    ∀ job, (run (step c) .empty ops).job? id = some job →
      ∃ job', (run (step c) .empty (ops ++ later)).job? id = some job' ∧ SameIdentity job job' ∧
        (job'.version = job.version → job' = job) := by
  have hreached : (run (step c) .empty ops).Consistent c := Reached.consistent ⟨ops,rfl⟩
  have hhistory := run_history hreached later id
  rw [run_append]
  refine ⟨hhistory.version_le.1,fun job hjob => ?_⟩
  rw [hjob] at hhistory
  obtain ⟨job',hjob',hidentity⟩ := hhistory.sameIdentity
  obtain ⟨_,hsame,hguards⟩ := run_guards hreached later id job hjob
  cases hjob'.symm.trans hsame
  exact ⟨job',hjob',hidentity,fun he => hguards.resolve_right he.not_gt⟩

end OpenPine.Jobs
