import OpenPine.Jobs.Operations

/-! # The recovery loop

`recover_lost_leases` reads all RUNNING rows first and then changes them one after
the other. The rows are about different jobs, so each row is still the stored one
when its turn comes. `recover_rule` is the induction rule this gives.
-/
namespace OpenPine.Jobs
open Transaction List
variable {c : Contracts} {s : Store}

def Job.expired (job : Job) (now : ℤ) : Bool := job.leaseDeadlineUtcMs.any (fun d => d < now)

variable {now : ℤ} {row : JobRow} {rest : List JobRow} {n : ℕ} {s' : Store}

theorem expired_iff {job : Job} : job.expired now = true ↔ ∃ d, job.leaseDeadlineUtcMs = some d ∧ d < now := by
  unfold Job.expired
  cases job.leaseDeadlineUtcMs <;> simp

theorem lostTransition_ok_iff (hs : s.Consistent c) {id : String} {job : Job} {r : Job × Store}
    (hjob : s.job? id = some job) :
    transitionInTransaction c s job .lost .lost now
      (fun job => { job with finishedAtUtcMs := some now, leaseOwner := none, leaseDeadlineUtcMs := none }) none =
        .ok r ↔
      job.state = .running ∧ (lostWrite job now).Accepted c s ∧ r = (lostWrite job now).outcome c s := by
  refine (transition_ok_iff hs (lostWrite job now) hjob rfl rfl).trans ?_
  have hst : JobState.lost ∈ job.state.allowedTransitions ↔ job.state = .running := by
    cases job.state <;> simp [JobState.allowedTransitions]
  rw [hst]

theorem recoverRow_ok_iff (hs : s.Consistent c) {acc : ℕ × Store} (hrow : s.jobs.find? row.jobId = some row)
    (hrun : row.state = .running) :
    recoverRow c now (n, s) row = .ok acc ↔ row.payload.expired now = false ∧ acc = (n, s) ∨
      row.payload.expired now = true ∧ (lostWrite row.payload now).Accepted c s ∧
        acc = (n + 1, (lostWrite row.payload now).commit c s) := by
  obtain ⟨hmir,hjob⟩ := hs.find?_row hrow
  have hst : row.payload.state = .running := by
    rw [hmir] at hrun
    exact hrun
  unfold recoverRow Job.expired
  cases hd : row.payload.leaseDeadlineUtcMs with
  | none => simp [eq_comm]
  | some deadline =>
    by_cases hlive : now ≤ deadline
    · have hlt : ¬deadline < now := by omega
      simp [hlive, hlt, eq_comm]
    · have hlt : deadline < now := by omega
      simp only [hlive, if_false, Option.any_some, hlt, decide_true, Bool.true_eq_false, false_and, false_or,
        true_and, Python.bind_eq_ok]
      simp only [lostTransition_ok_iff hs hjob]
      constructor
      · rintro ⟨r,⟨-,ha,rfl⟩,hacc⟩
        cases hacc
        exact ⟨ha,rfl⟩
      · rintro ⟨ha,rfl⟩
        exact ⟨_,⟨hst,ha,rfl⟩,rfl⟩

theorem mem_runningRows : row ∈ runningRows s ↔ row ∈ s.jobs.rows ∧ row.state = .running := by
  have hperm := perm_insertionSort (fun r r' : JobRow => r.jobId ≤ r'.jobId)
    (s.jobs.rows.filter (fun r => r.state = .running))
  rw [runningRows, hperm.mem_iff, mem_filter]
  simp

theorem runningRows_nodup (s : Store) : ((runningRows s).map JobRow.jobId).Nodup := by
  have hperm := perm_insertionSort (fun r r' : JobRow => r.jobId ≤ r'.jobId)
    (s.jobs.rows.filter (fun r => r.state = .running))
  have hsub := (filter_sublist (p := fun r : JobRow => r.state = .running) (l := s.jobs.rows)).map
    JobRow.jobId
  exact ((hperm.map JobRow.jobId).nodup_iff).mpr (s.jobs.nodup.sublist hsub)

/-- The rows still to come are all stored, RUNNING and about different jobs. -/
structure Pending (c : Contracts) (rest : List JobRow) (s : Store) : Prop where
  consistent : s.Consistent c
  stored : ∀ row ∈ rest, s.jobs.find? row.jobId = some row ∧ row.state = .running
  distinct : (rest.map JobRow.jobId).Nodup

theorem pending_runningRows (hs : s.Consistent c) : Pending c (runningRows s) s where
  consistent := hs
  stored row hrow := by
    obtain ⟨hmem,hrun⟩ := mem_runningRows.mp hrow
    exact ⟨Table.find?_of_mem hmem,hrun⟩
  distinct := runningRows_nodup s

theorem Pending.tail (h : Pending c (row :: rest) s) : Pending c rest s where
  consistent := h.consistent
  stored r hr := h.stored r (mem_cons_of_mem _ hr)
  distinct := (nodup_cons.mp h.distinct).2

section
variable (h : Pending c (row :: rest) s) (hexp : row.payload.expired now = true)
include h hexp

theorem Pending.change : ∃ job, row = rowOf job ∧ s.job? (lostWrite job now).payload.jobId = some job ∧
      Change job (lostWrite job now).eventType (lostWrite job now).payload := by
  obtain ⟨hrow,hrun⟩ := h.stored row mem_cons_self
  obtain ⟨hmir,hjob⟩ := h.consistent.find?_row hrow
  obtain ⟨d,hd,hlt⟩ := expired_iff.mp hexp
  refine ⟨row.payload,hmir,?_,?_⟩
  · have hid := h.consistent.jobId_eq hjob
    change s.job? row.payload.jobId = some row.payload
    rw [hid, hjob]
  · rw [hmir] at hrun
    exact .lost hrun hd hlt

theorem Pending.commit (hacc : (lostWrite row.payload now).Accepted c s) :
    Pending c rest ((lostWrite row.payload now).commit c s) := by
  obtain ⟨job,rfl,hjob,hch⟩ := h.change hexp
  have hnotin := (nodup_cons.mp h.distinct).1
  refine ⟨Write.commit_consistent _ h.consistent hjob hch hacc.2,?_,h.tail.distinct⟩
  intro r hr
  obtain ⟨hfind,hrun⟩ := h.tail.stored r hr
  refine ⟨?_,hrun⟩
  have hne : (rowOf ((lostWrite job now).persisted c s)).jobId ≠ r.jobId := by
    intro he
    rw [rowOf_jobId, Write.persisted_jobId] at he
    exact hnotin (mem_map.mpr ⟨r,hr,he.symm⟩)
  exact (Table.find?_set_ne s.jobs _ hne).trans hfind

end

theorem recover_rule {P : List JobRow → Store → Prop}
    (hskip : ∀ row rest t, Pending c (row :: rest) t → row.payload.expired now = false → P (row :: rest) t → P rest t)
    (hlost : ∀ row rest t, Pending c (row :: rest) t → row.payload.expired now = true →
      (lostWrite row.payload now).Accepted c t → P (row :: rest) t → P rest ((lostWrite row.payload now).commit c t))
    (hs : s.Consistent c) (hP : P (runningRows s) s) (h : recoverLostLeases c s now = .ok (n, s')) : P [] s' := by
  have hinv := foldlM_invariant (P := fun rest (acc : ℕ × Store) => Pending c rest acc.2 ∧ P rest acc.2)
    (f := recoverRow c now) ?_ (b := (0, s)) ⟨pending_runningRows hs,hP⟩ h
  · exact hinv.2
  · rintro row rest ⟨m,t⟩ acc ⟨hpend,hPt⟩ hstep
    obtain ⟨hrow,hrun⟩ := hpend.stored row mem_cons_self
    rcases (recoverRow_ok_iff hpend.consistent hrow hrun).mp hstep with ⟨hexp,rfl⟩ | ⟨hexp,hacc,rfl⟩
    · exact ⟨hpend.tail,hskip row rest t hpend hexp hPt⟩
    · exact ⟨hpend.commit hexp hacc,hlost row rest t hpend hexp hacc hPt⟩

theorem recover_effects (hs : s.Consistent c) (h : recoverLostLeases c s now = .ok (n, s')) : Effects c s s' := by
  apply recover_rule (P := fun _ t => Effects c s t) ?_ ?_ hs .refl h
  · intro row rest t _ _ ht
    exact ht
  · intro row rest t hpend hexp hacc ht
    obtain ⟨job,rfl,hjob,hch⟩ := hpend.change hexp
    exact ht.tail (.commit hjob hch hacc.2)

def Recovered (now : ℤ) (x y : Option Job) : Prop :=
  (∃ job, x = some job ∧ job.state = .running ∧ job.expired now = true ∧
    ∃ cursor hash, y = some { (lostWrite job now).payload with eventCursor := cursor, contentHash := hash }) ∨
  (∀ job, x = some job → job.state = .running → job.expired now = false) ∧ y = x

/-- The recovery loses the expired leases and touches nothing else. -/
theorem recover_job? (hs : s.Consistent c) (h : recoverLostLeases c s now = .ok (n, s')) (id : String) :
    Recovered now (s.job? id) (s'.job? id) := by
  -- the rows still to come hold what was read before the loop, the others are dealt with
  have hinv := recover_rule (P := fun rest t =>
    (∀ row ∈ rest, row.jobId = id → t.job? id = s.job? id) ∧
    ((∀ row ∈ rest, row.jobId ≠ id) → Recovered now (s.job? id) (t.job? id))) ?_ ?_ hs ?_ h
  · exact hinv.2 (by simp)
  · rintro row rest t hpend hexp ⟨hsame,hdone⟩
    refine ⟨fun r hr => hsame r (mem_cons_of_mem _ hr),fun hrest => ?_⟩
    by_cases he : row.jobId = id
    · have ht := hsame row mem_cons_self he
      obtain ⟨-,hjob⟩ := hpend.consistent.find?_row (hpend.stored row mem_cons_self).1
      rw [he] at hjob
      rw [ht] at hjob ⊢
      exact Or.inr ⟨fun job hj _ => by rw [hjob] at hj; cases hj; exact hexp,rfl⟩
    · exact hdone (by simpa [he] using hrest)
  · rintro row rest t hpend hexp hacc ⟨hsame,hdone⟩
    obtain ⟨job,rfl,hjob,hch⟩ := hpend.change hexp
    have hrow := hpend.consistent.job?_eq_some.mp hjob
    have hrun := (hpend.stored _ mem_cons_self).2
    have hcommit := Write.commit_job? (c := c) _ hrow id
    refine ⟨fun r hr he => ?_,fun hrest => ?_⟩
    · have hne : (lostWrite job now).payload.jobId ≠ id := by
        intro he'
        have hnot := (nodup_cons.mp hpend.distinct).1
        exact hnot (mem_map.mpr ⟨r,hr,he.trans he'.symm⟩)
      rw [rowOf_payload, hcommit, if_neg hne]
      exact hsame r (mem_cons_of_mem _ hr) he
    · rw [rowOf_payload, hcommit]
      split <;> rename_i he
      · have ht := hsame _ mem_cons_self he
        rw [he, ht] at hjob
        obtain ⟨cursor,hash,hpers⟩ := (lostWrite job now).persisted_eq c t
        exact Or.inl ⟨job,hjob,hrun,hexp,cursor,hash,by rw [hpers]⟩
      · refine hdone fun r hr => ?_
        rcases mem_cons.mp hr with rfl | hr
        · exact he
        · exact hrest r hr
  · refine ⟨fun _ _ _ => rfl,fun hnone => Or.inr ⟨fun job hj hrun => ?_,rfl⟩⟩
    have hrow := hs.job?_eq_some.mp hj
    have hmem : rowOf job ∈ runningRows s := mem_runningRows.mpr ⟨Table.mem_of_find? hrow,hrun⟩
    exact absurd (hs.jobId_eq hj) (hnone _ hmem)

theorem recover_succeeds (hc : c.Accepts) (hs : s.Consistent c) (now : ℤ) :
    ∃ n s', recoverLostLeases c s now = .ok (n, s') := by
  have hstep : ∀ row rest (acc : ℕ × Store), Pending c (row :: rest) acc.2 →
      ∃ acc', recoverRow c now acc row = .ok acc' ∧ Pending c rest acc'.2 := by
    rintro row rest ⟨m,t⟩ hpend
    obtain ⟨hrow,hrun⟩ := hpend.stored row mem_cons_self
    have hiff : ∀ acc, recoverRow c now (m, t) row = .ok acc ↔ _ :=
      fun _ => recoverRow_ok_iff hpend.consistent hrow hrun
    cases hexp : row.payload.expired now with
    | false => exact ⟨_,(hiff _).mpr (Or.inl ⟨hexp,rfl⟩),hpend.tail⟩
    | true =>
      have hacc := hc.write t (lostWrite row.payload now)
      exact ⟨_,(hiff _).mpr (Or.inr ⟨hexp,hacc,rfl⟩),hpend.commit hexp hacc⟩
  obtain ⟨⟨n,s'⟩,h,-⟩ := foldlM_succeeds (P := fun rest (acc : ℕ × Store) => Pending c rest acc.2)
    hstep (b := (0, s)) (pending_runningRows hs)
  exact ⟨n,s',h⟩

end OpenPine.Jobs
