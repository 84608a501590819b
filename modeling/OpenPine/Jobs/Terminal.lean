import OpenPine.Foundation.Runs
import OpenPine.Jobs.Scheduler

/-! # Terminal jobs

`cancel` leaves a job that has ended alone. `mark_running`, `mark_done` and
`mark_failed` do not look at the status they overwrite, so the end of a job is final
in a run exactly when none of them is called for a job that has ended otherwise.
-/
namespace OpenPine.Scheduling
open Python Runs JobScheduler
variable {s t u : JobScheduler}

inductive JobStatus.Terminal : JobStatus → Prop
  | done : Terminal .done
  | failed : Terminal .failed
  | cancelled : Terminal .cancelled

namespace JobScheduler

/-- Every job object that has ended in `s` has the same status in `t`. -/
def Absorbs (s t : JobScheduler) : Prop :=
  ∀ (r : Ref) (job : Job), s.heap[r]? = some job → job.status.Terminal → ∃ job', t.heap[r]? = some job' ∧
    job'.status = job.status

theorem Absorbs.refl (s : JobScheduler) : s.Absorbs s := fun _ job hjob _ => ⟨job,hjob,rfl⟩

theorem Absorbs.trans (h : s.Absorbs t) (h' : t.Absorbs u) : s.Absorbs u := by
  intro r job hjob hend
  obtain ⟨job₁,hjob₁,hstatus₁⟩ := h r job hjob hend
  obtain ⟨job₂,hjob₂,hstatus₂⟩ := h' r job₁ hjob₁ (hstatus₁ ▸ hend)
  exact ⟨job₂,hjob₂,hstatus₂.trans hstatus₁⟩

theorem Absorbs.of_heap_eq (h : t.heap = s.heap) : s.Absorbs t := by
  intro r job hjob _
  exact ⟨job,h ▸ hjob,rfl⟩

@[simp] theorem register_heap (job : Job) (id : String) : (s.register job id).heap = s.heap := by
  unfold register
  split <;> rfl

@[simp] theorem unregister_heap (job : Job) (id : String) : (s.unregister job id).heap = s.heap := by
  unfold unregister
  split
  · rfl
  · split <;> rfl

theorem absorbs_congr (h : t.heap = u.heap) : s.Absorbs t ↔ s.Absorbs u := by
  unfold Absorbs
  rw [h]

theorem absorbs_assign (id : String) (update : Job → Job) : s.Absorbs (s.assign id update) ↔
      ∀ job, s.job? id = some job → job.status.Terminal → (update job).status = job.status := by
  unfold assign job?
  cases hr : Dict.get? s.jobs id with
  | none => simpa using Absorbs.refl s
  | some r =>
    simp only [Option.bind_some]
    constructor
    · intro h job hjob hend
      obtain ⟨job',hjob',hstatus⟩ := h r job hjob hend
      rw [List.getElem?_modify, hjob] at hjob'
      cases hjob'
      simpa using hstatus
    · intro h r' job hjob hend
      by_cases he : r = r'
      · subst he
        exact ⟨update job,by simp [hjob],h job hjob hend⟩
      · exact ⟨job,by simp [hjob, he],rfl⟩

theorem absorbs_markRunning (id : String) (now touched : ℤ) :
    s.Absorbs (s.markRunning id now touched) ↔ ∀ job, s.job? id = some job → ¬job.status.Terminal := by
  unfold markRunning
  cases hjob : s.job? id with
  | none => simpa using Absorbs.refl s
  | some job =>
    dsimp only
    rw [absorbs_congr (register_heap job id), absorbs_assign, hjob]
    refine forall₂_congr fun job' _ => ⟨fun h hend => ?_,fun h hend => absurd hend h⟩
    have hrun : JobStatus.running = job'.status := h hend
    rw [← hrun] at hend
    cases hend

theorem absorbs_finish (id : String) (update : Job → Job) : s.Absorbs (s.finish id update) ↔
      ∀ job, s.job? id = some job → job.status.Terminal → (update job).status = job.status := by
  unfold finish
  cases hjob : s.job? id with
  | none => simpa using Absorbs.refl s
  | some job =>
    dsimp only
    rw [absorbs_congr (unregister_heap job id), absorbs_assign, hjob]

theorem absorbs_cancel (id : String) (now touched : ℤ) : s.Absorbs (s.cancel id now touched) := by
  unfold cancel
  cases hjob : s.job? id with
  | none => exact .refl s
  | some job =>
    dsimp only
    split <;> rename_i hended
    · exact .refl s
    · rw [absorbs_finish]
      intro job' hjob' hend
      cases hjob.symm.trans hjob'
      refine absurd ?_ hended
      generalize job.status = status at hend ⊢
      cases hend <;> decide

theorem absorbs_enqueue (r : Ref) (uuid : Uuid) : s.Absorbs (s.enqueue r uuid).2 := by
  unfold enqueue
  cases hobj : s.heap[r]? with
  | none => exact .refl s
  | some obj =>
    dsimp only
    split
    · exact .refl s
    · intro r' job hjob _
      change ∃ job', (s.heap.set r { obj with id := enqueueId obj uuid })[r']? = some job' ∧ _
      by_cases he : r = r'
      · subst he
        cases hobj.symm.trans hjob
        exact ⟨_,List.getElem?_set_self (List.getElem?_eq_some_iff.mp hjob).1,rfl⟩
      · exact ⟨job,(List.getElem?_set_ne he).trans hjob,rfl⟩

theorem absorbs_dequeue : s.Absorbs s.dequeue.2 := by
  unfold dequeue
  split <;> exact .of_heap_eq rfl

theorem absorbs_new (job : Job) : s.Absorbs { s with heap := s.heap ++ [job] } := by
  intro r job' hjob' _
  exact ⟨job',(List.getElem?_append_left (List.getElem?_eq_some_iff.mp hjob').1).trans hjob',rfl⟩

end JobScheduler

/-- No job that has ended is started again, or reported to have ended in another way. -/
def RespectsEnd (σ : System) : Op → Prop
  | .markRunning id _ _ => ∀ job, σ.scheduler.job? id = some job → ¬job.status.Terminal
  | .markDone id _ _ _ => ∀ job, σ.scheduler.job? id = some job → job.status.Terminal → .done = job.status
  | .markFailed id _ _ _ => ∀ job, σ.scheduler.job? id = some job → job.status.Terminal → .failed = job.status
  | _ => True

/-- A call leaves ended jobs alone exactly if it respects their end. -/
theorem step_absorbs_iff (σ : System) (op : Op) : σ.scheduler.Absorbs (σ.step op).scheduler ↔ RespectsEnd σ op := by
  cases op with
  | new job => exact iff_of_true (absorbs_new job) trivial
  | enqueue r uuid => exact iff_of_true (absorbs_enqueue r uuid) trivial
  | dequeue => exact iff_of_true absorbs_dequeue trivial
  | markRunning id now touched => exact absorbs_markRunning id now touched
  | markDone id result now touched | markFailed id error now touched => exact absorbs_finish id _
  | cancel id now touched => exact iff_of_true (absorbs_cancel id now touched) trivial

/-- A job that has ended at one moment of a run has the same status at every later
one, exactly in the runs whose calls respect the end of jobs. -/
theorem terminal_absorbing_iff (ops : List Op) : (∀ n m, n ≤ m → (run System.step .start (ops.take n)).scheduler.Absorbs
      (run System.step .start (ops.take m)).scheduler) ↔ EachStep System.step RespectsEnd .start ops := by
  have hcond : RespectsEnd = fun σ op => σ.scheduler.Absorbs (σ.step op).scheduler := by
    funext σ op
    exact propext (step_absorbs_iff σ op).symm
  rw [hcond]
  exact take_rel_iff_eachStep (R := fun σ τ : System => σ.scheduler.Absorbs τ.scheduler)
    (fun σ => .refl σ.scheduler) (fun _ _ _ h h' => h.trans h')

/-- A worker starts and finishes a job that was cancelled after it had been dequeued. -/
theorem cancelled_job_runs_to_done :
    let started : List Op :=
      [.new { id := "a", createdAt := 1, updatedAt := 1 }, .enqueue 0 ⟨"u",by decide⟩, .dequeue, .cancel "a" 2 2]
    let rest : List Op := [.markRunning "a" 3 3, .markDone "a" none 4 4]
    ((run System.step .start started).scheduler.job? "a").map Job.status = some .cancelled ∧
    ((run System.step .start (started ++ rest)).scheduler.job? "a").map Job.status = some .done := ⟨rfl,rfl⟩

end OpenPine.Scheduling
