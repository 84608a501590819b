import OpenPine.Foundation.Runs
import OpenPine.Jobs.Scheduler

/-! # At most one running job for a serialization key

`dequeue` looks at the keys of running jobs, but a key is recorded only when the
worker calls `mark_running`. Mutual exclusion therefore holds as long as no job is
started while its key is recorded for another one.
-/
namespace OpenPine.Scheduling
open Python Runs Dict Option
variable {s : JobScheduler} {job : Job}

namespace JobScheduler

/-- The dictionary of jobs is well formed, and every running job with a key holds it. -/
structure Valid (s : JobScheduler) : Prop where
  stored : ∀ id r, Dict.get? s.jobs id = some r → ∃ job, s.heap[r]? = some job ∧ job.id = id ∧ id ≠ ""
  registered : ∀ id job key, s.job? id = some job → job.status = .running → job.serializationKey = some key →
    Dict.get? s.running key = some id

def Exclusive (s : JobScheduler) : Prop :=
  ∀ id id' job job' key, s.job? id = some job → s.job? id' = some job' → id ≠ id' →
    job.serializationKey = some key → job'.serializationKey = some key →
    ¬(job.status = .running ∧ job'.status = .running)

theorem Valid.exclusive (h : s.Valid) : s.Exclusive := by
  rintro id id' job job' key hjob hjob' hne hkey hkey' ⟨hrun,hrun'⟩
  have hreg := h.registered id job key hjob hrun hkey
  have hreg' := h.registered id' job' key hjob' hrun' hkey'
  exact hne (Option.some.inj (hreg.symm.trans hreg'))

/-! ### Assignments to one job -/

theorem assign_stored (h : s.Valid) (id : String) (update : Job → Job) (hid : ∀ job, (update job).id = job.id) :
    ∀ id' r, get? (s.assign id update).jobs id' = some r →
      ∃ job, (s.assign id update).heap[r]? = some job ∧ job.id = id' ∧ id' ≠ "" := by
  unfold assign
  cases hr : get? s.jobs id with
  | none => exact h.stored
  | some r =>
    intro id' r' hr'
    obtain ⟨job,hjob,hname,hne⟩ := h.stored id' r' hr'
    rw [List.getElem?_modify, hjob]
    by_cases he : r = r'
    · exact ⟨update job,by simp [he],(hid job).trans hname,hne⟩
    · exact ⟨job,by simp [he],hname,hne⟩

theorem assign_job? (h : s.Valid) (id : String) (update : Job → Job) (id' : String) :
    (s.assign id update).job? id' = if id = id' then (s.job? id).map update else s.job? id' := by
  unfold assign job?
  cases hr : get? s.jobs id with
  | none =>
    by_cases he : id = id'
    · subst he
      simp [hr]
    · simp [he]
  | some r =>
    cases hr' : get? s.jobs id' with
    | none =>
      have hne : id ≠ id' := by
        rintro rfl
        rw [hr] at hr'
        cases hr'
      simp [hne]
    | some r' =>
      simp only [bind_some, List.getElem?_modify]
      by_cases he : id = id'
      · subst he
        cases hr.symm.trans hr'
        simp
      · -- two ids never share an object, since an object knows its id
        have hne : r ≠ r' := by
          rintro rfl
          obtain ⟨job,hjob,hid,-⟩ := h.stored id r hr
          obtain ⟨job',hjob',hid',-⟩ := h.stored id' r hr'
          cases hjob.symm.trans hjob'
          exact he (hid.symm.trans hid')
        simp [he, hne]

/-! ### The table of running keys -/

@[simp] theorem register_job? (job : Job) (id id' : String) : (s.register job id).job? id' = s.job? id' := by
  unfold register
  split <;> rfl

@[simp] theorem unregister_job? (job : Job) (id id' : String) : (s.unregister job id).job? id' = s.job? id' := by
  unfold unregister
  split
  · rfl
  · split <;> rfl

theorem register_running (job : Job) (id key : String) : get? (s.register job id).running key =
      if nonEmpty job.serializationKey = some key then some id else get? s.running key := by
  unfold register
  split <;> rename_i hkey
  · rw [hkey]
    simp
  · rw [hkey]
    simp [get?_put]

theorem unregister_running (job : Job) {id key holder : String} (hne : holder ≠ id)
    (h : get? s.running key = some holder) : get? (s.unregister job id).running key = some holder := by
  unfold unregister
  split
  · exact h
  · rename_i key' _
    split <;> rename_i hheld
    · have hkey : key' ≠ key := by
        rintro rfl
        exact hne (Option.some.inj (h.symm.trans hheld))
      simpa [get?_del, hkey] using h
    · exact h

theorem assign_running (id : String) (update : Job → Job) : (s.assign id update).running = s.running := by
  unfold assign
  split <;> rfl

/-! ### What each call keeps -/

theorem Valid.markRunning (h : s.Valid) {id : String} (now touched : ℤ)
    (hfree : ∀ job key, s.job? id = some job → job.serializationKey = some key →
      key ≠ "" ∧ ∀ holder, get? s.running key = some holder → holder = id) :
    (s.markRunning id now touched).Valid := by
  unfold JobScheduler.markRunning
  cases hjob : s.job? id with
  | none => exact h
  | some job =>
    dsimp only
    refine ⟨?_,?_⟩
    · have hstored := assign_stored h id
        (fun job => ({ job with status := .running, startedAt := some now }).touch touched) (fun _ => rfl)
      unfold register
      split
      · exact hstored
      · exact hstored
    intro id' job' key hjob' hrun hkey
    rw [register_job?, assign_job? h] at hjob'
    rw [register_running, assign_running]
    split at hjob' <;> rename_i he
    · -- the job that is started takes its key
      subst he
      rw [hjob] at hjob'
      cases hjob'
      have hown : job.serializationKey = some key := hkey
      rw [if_pos (nonEmpty_eq_some.mpr ⟨hown,(hfree job key hjob hown).1⟩)]
    · -- a job that ran before keeps its key, since the new one found its own key free
      have hheld := h.registered id' job' key hjob' hrun hkey
      rw [if_neg, hheld]
      intro hsame
      exact he ((hfree job key hjob (nonEmpty_eq_some.mp hsame).1).2 id' hheld).symm

theorem Valid.finish (h : s.Valid) (id : String) (update : Job → Job) (hid : ∀ job, (update job).id = job.id)
    (hended : ∀ job, (update job).status ≠ .running) : (s.finish id update).Valid := by
  unfold JobScheduler.finish
  cases hjob : s.job? id with
  | none => exact h
  | some job =>
    dsimp only
    refine ⟨?_,?_⟩
    · have hstored := assign_stored h id update hid
      unfold unregister
      split
      · exact hstored
      · split
        · exact hstored
        · exact hstored
    intro id' job' key hjob' hrun hkey
    rw [unregister_job?, assign_job? h] at hjob'
    split at hjob' <;> rename_i he
    · rw [hjob] at hjob'
      cases hjob'
      exact absurd hrun (hended job)
    · refine unregister_running job (Ne.symm he) ?_
      rw [assign_running]
      exact h.registered id' job' key hjob' hrun hkey

theorem Valid.cancel (h : s.Valid) (id : String) (now touched : ℤ) : (s.cancel id now touched).Valid := by
  unfold JobScheduler.cancel
  split
  · exact h
  · split
    · exact h
    · exact h.finish id _ (fun _ => rfl) (fun _ => nofun)

theorem enqueueId_ne_empty (job : Job) (uuid : Uuid) : enqueueId job uuid ≠ "" := by
  unfold enqueueId
  split
  · exact uuid.nonempty
  · assumption

theorem Valid.enqueue_ref (h : s.Valid) {r r' : Ref} {id' : String} {uuid : Uuid} (hjob : s.heap[r]? = some job)
    (hr' : get? s.jobs id' = some r') (hne : enqueueId job uuid ≠ id') :
    r ≠ r' := by
  rintro rfl
  obtain ⟨job',hjob',hid,hid'⟩ := h.stored id' r hr'
  cases hjob.symm.trans hjob'
  unfold enqueueId at hne
  rw [if_neg (hid ▸ hid')] at hne
  exact hne hid

theorem Valid.enqueue (h : s.Valid) (r : Ref) (uuid : Uuid)
    (hsound : ∀ job key, s.heap[r]? = some job → job.status = .running → job.serializationKey = some key →
      get? s.running key = some (enqueueId job uuid)) : (s.enqueue r uuid).2.Valid := by
  unfold JobScheduler.enqueue
  cases hjob : s.heap[r]? with
  | none => exact h
  | some job =>
    dsimp only
    split
    · exact h
    have hlt : r < s.heap.length := (List.getElem?_eq_some_iff.mp hjob).1
    refine ⟨fun id' r' hr' => ?_,fun id' job' key hjob' hrun hkey => ?_⟩
    · replace hr' : get? (put s.jobs (enqueueId job uuid) r) id' = some r' := hr'
      change ∃ job', (s.heap.set r { job with id := enqueueId job uuid })[r']? = some job' ∧ _
      rw [get?_put] at hr'
      split at hr' <;> rename_i he
      · cases hr'
        exact ⟨_,List.getElem?_set_self hlt,he,he ▸ enqueueId_ne_empty job uuid⟩
      · rw [List.getElem?_set_ne (h.enqueue_ref hjob hr' he)]
        exact h.stored id' r' hr'
    · obtain ⟨r',hr',hobj⟩ := bind_eq_some_iff.mp hjob'
      replace hr' : get? (put s.jobs (enqueueId job uuid) r) id' = some r' := hr'
      replace hobj : (s.heap.set r { job with id := enqueueId job uuid })[r']? = some job' := hobj
      change get? s.running key = some id'
      rw [get?_put] at hr'
      split at hr' <;> rename_i he
      · cases hr'
        rw [List.getElem?_set_self hlt] at hobj
        cases hobj
        rw [← he]
        exact hsound job key hjob hrun hkey
      · rw [List.getElem?_set_ne (h.enqueue_ref hjob hr' he)] at hobj
        exact h.registered id' job' key (bind_eq_some_iff.mpr ⟨r',hr',hobj⟩) hrun hkey

theorem Valid.new (h : s.Valid) (job : Job) : Valid { s with heap := s.heap ++ [job] } := by
  have hlt : ∀ {id r}, get? s.jobs id = some r → (s.heap ++ [job])[r]? = s.heap[r]? := by
    intro id r hr
    obtain ⟨job',hjob',-⟩ := h.stored id r hr
    exact List.getElem?_append_left (List.getElem?_eq_some_iff.mp hjob').1
  refine ⟨fun id r hr => ?_,fun id job' key hjob' hrun hkey => ?_⟩
  · rw [hlt hr]
    exact h.stored id r hr
  · obtain ⟨r,hr,hobj⟩ := bind_eq_some_iff.mp hjob'
    replace hobj := (hlt hr).symm.trans hobj
    exact h.registered id job' key (bind_eq_some_iff.mpr ⟨r,hr,hobj⟩) hrun hkey

theorem Valid.dequeue (h : s.Valid) : s.dequeue.2.Valid := by
  unfold JobScheduler.dequeue
  split
  · exact h
  · exact ⟨h.stored,h.registered⟩

theorem dequeue_key_free {r : Ref} {key : String} (hr : s.dequeue.1 = some r) (hjob : s.heap[r]? = some job)
    (hkey : job.serializationKey = some key) (hne : key ≠ "") :
    get? s.dequeue.2.running key = none := by
  unfold JobScheduler.dequeue at hr ⊢
  cases hi : s.queue.findIdx? s.ready with
  | none => simp [hi] at hr
  | some =>
    simp only [hi] at hr ⊢
    obtain ⟨hlt,hready,-⟩ := List.findIdx?_eq_some_iff_getElem.mp hi
    cases (List.getElem?_eq_getElem hlt).symm.trans hr
    unfold ready at hready
    simp only [hjob, nonEmpty_eq_some.mpr ⟨hkey,hne⟩, all_some, Bool.and_eq_true, isNone_iff_eq_none] at hready
    exact hready.2

end JobScheduler

/-! ### Runs -/

/-- A job is started only if its key is not empty and recorded for no other job, and
an object is enqueued as RUNNING only if it already holds its key. -/
def SerialCall (σ : System) : Op → Prop
  | .markRunning id _ _ => ∀ job key, σ.scheduler.job? id = some job → job.serializationKey = some key →
      key ≠ "" ∧ ∀ holder, Dict.get? σ.scheduler.running key = some holder → holder = id
  | .enqueue r uuid => ∀ job key, σ.scheduler.heap[r]? = some job → job.status = .running →
      job.serializationKey = some key → Dict.get? σ.scheduler.running key = some (JobScheduler.enqueueId job uuid)
  | _ => True

/-- Serialised calls keep the scheduler valid. -/
theorem step_valid (σ : System) (op : Op) (h : σ.scheduler.Valid) (hop : SerialCall σ op) :
    (σ.step op).scheduler.Valid := by
  cases op with
  | new job => exact h.new job
  | enqueue r uuid => exact h.enqueue r uuid hop
  | dequeue => exact h.dequeue
  | markRunning _ now touched => exact h.markRunning now touched hop
  | markDone id result now touched | markFailed id error now touched =>
    exact h.finish id _ (fun _ => rfl) (fun _ => nofun)
  | cancel id now touched => exact h.cancel id now touched

theorem start_valid : System.start.scheduler.Valid := ⟨fun _ _ h => absurd h nofun,fun _ _ _ h => absurd h nofun⟩

/-- A worker that starts a job in the same moment in which `dequeue` hands it out makes
a serial call. -/
theorem SerialCall.of_dequeue {σ : System} {r : Ref} (hr : σ.scheduler.dequeue.1 = some r)
    (hjob : σ.scheduler.heap[r]? = some job) (hstored : get? σ.scheduler.jobs job.id = some r)
    (hkey : job.serializationKey ≠ some "") (now touched : ℤ) :
    SerialCall (σ.step .dequeue) (.markRunning job.id now touched) := by
  intro job' key hjob' hkey'
  have hsame : job' = job := by
    have hframe : σ.scheduler.dequeue.2.job? job.id = some job := by
      unfold JobScheduler.dequeue JobScheduler.job?
      split <;> simp [hstored, hjob]
    exact Option.some.inj (hjob'.symm.trans hframe)
  subst hsame
  have hne : key ≠ "" := by
    rintro rfl
    exact hkey hkey'
  refine ⟨hne,fun holder hheld => ?_⟩
  cases (JobScheduler.dequeue_key_free hr hjob hkey' hne).symm.trans hheld

/-- Mutual exclusion, in every interleaving whose calls are serial. -/
theorem serial_runs_exclusive (ops : List Op) (h : EachStep System.step SerialCall .start ops) :
    Always System.step (fun σ => σ.scheduler.Exclusive) .start ops :=
  h.always step_valid (fun _ hv => hv.exclusive) start_valid

def twoJobs : List Op :=
  [.new { id := "a", serializationKey := some "strategy", createdAt := 1, updatedAt := 1 },
    .new { id := "b", serializationKey := some "strategy", createdAt := 2, updatedAt := 2 },
    .enqueue 0 ⟨"u",by decide⟩, .enqueue 1 ⟨"v",by decide⟩]

theorem one_after_the_other_exclusive : Always System.step (fun σ => σ.scheduler.Exclusive) .start
      (twoJobs ++ [.dequeue, .markRunning "a" 3 3, .dequeue, .markDone "a" none 4 4, .dequeue,
        .markRunning "b" 5 5]) := by
  apply serial_runs_exclusive
  refine ⟨trivial,trivial,?_,?_,trivial,?_,trivial,trivial,trivial,?_,trivial⟩
  · rintro job key hjob hrun -
    cases hjob
    cases hrun
  · rintro job key hjob hrun -
    cases hjob
    cases hrun
  · intro job key hjob hkey
    cases hjob
    cases hkey
    exact ⟨by decide,nofun⟩
  · intro job key hjob hkey
    cases hjob
    cases hkey
    exact ⟨by decide,nofun⟩

/-- The rule for workers: they start only jobs that `dequeue` has handed to them. -/
def Handed (σ : System) : Op → Prop
  | .markRunning id _ _ => id ∈ σ.handed
  | _ => True

/-- Two workers dequeue before either starts its job: both jobs of the strategy are
handed out, and both run. -/
theorem handed_out_twice_not_exclusive :
    let ops := twoJobs ++ [.dequeue, .dequeue, .markRunning "a" 3 3, .markRunning "b" 4 4]
    EachStep System.step Handed .start ops ∧ ¬(run System.step .start ops).scheduler.Exclusive := by
  refine ⟨⟨trivial,trivial,trivial,trivial,trivial,trivial,?_,?_,trivial⟩,fun h => ?_⟩
  · show "a" ∈ System.handed _
    decide
  · show "b" ∈ System.handed _
    decide
  · exact h "a" "b" _ _ "strategy" rfl rfl (by decide) rfl rfl ⟨rfl,rfl⟩

end OpenPine.Scheduling
