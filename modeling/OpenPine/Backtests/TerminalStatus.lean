import OpenPine.Backtests.WorkerOwnership

/-! # The status of a cancelled backtest

Whoever reserves the outcome of a run also has to write its status. The task does so on all
of its paths. A cancel request that finds no worker reserves the cancellation and
leaves the status to a task that stops at the outcome.
-/
namespace OpenPine.Backtests.Cancellation
open Runs Ownership Option

def Point.marks : Point → Bool
  | .markCancelled _ | .markRejected | .markFailed => true
  | _ => false

def Point.over : Point → Bool
  | .discard | .release | .finished => true
  | _ => false

/-- The points from which the task reaches a terminal status only through another reservation. -/
def Point.quiet : Point → Bool
  | .markCancelled _ | .markRejected | .saveResult | .failureOutcome | .sealFailure | .markFailed => false
  | _ => true

def Handler.seen : Handler → Option Status
  | .request seen | .scan seen _ | .clean seen _ _ => some seen
  | _ => none

def Handler.over : Handler → Bool
  | .absent | .returned => true
  | _ => false

namespace World
variable (w : World)

/-- The calls of the database succeed, and nobody interrupts the task. -/
def permitted : Event → Bool
  | .task event => event ≠ .interrupted && (!w.task.marks || event = .proceeds)
  | .handler i ok => w.handlers i ≠ .mark || ok
  | _ => true

/-- A request for a run that is queued or running has met no worker, and now reserves the cancellation. -/
def gap : Event → Bool
  | .handler i _ =>
    match w.handlers i with
    | .scan seen false => live seen && !w.tables.owned && w.tables.outcome.isNone
    | _ => false
  | _ => false

def TaskWrites : Prop :=
  w.task.marks = true ∨ w.task = .saveResult ∨ w.reservation ≠ none ∧ (w.task = .failureOutcome ∨ w.task = .sealFailure)

def Settled : Prop := terminal w.status = true ∨ w.TaskWrites ∨ ∃ i, w.handlers i = .mark

/-- What the reservation and the executor are like at each point of the task. -/
def Fits : Prop :=
  match w.task with
  | .cancelRequested .caught | .outcome .caught | .sealTerminal .caught => w.execution = .ended .cancelled ∧
    w.reservation = none
  | .outcomeAgain .caught => False
  | .saveResult => w.reservation ≠ none
  | .markCancelled _ | .failureOutcome | .sealFailure | .markFailed | .discard | .release | .finished => True
  | _ => w.reservation = none

structure Settling : Prop where
  status : live w.status = true ∨ terminal w.status = true
  reserved : w.tables.outcome = w.reservation ∨ w.reservation = none ∧ w.tables.outcome = some .cancelled
  settled : w.tables.outcome ≠ none ∨ w.task.over = true → w.Settled
  seen : ∀ i seen, (w.handlers i).seen = some seen → live seen = false → terminal w.status = true
  fits : w.Fits

variable {w} {handler : Handler} {i : ℕ} {event : TaskEvent}

theorem proceeds_of_permitted (h : w.permitted (.task event) = true) (hmarks : w.task.marks = true) :
    event = .proceeds := by
  have hevent : event ≠ .interrupted ∧ event = .proceeds := by simpa [permitted, hmarks] using h
  exact hevent.2

theorem not_taskWrites_of_quiet (h : w.task.quiet = true) : ¬ w.TaskWrites := by
  rintro (hmarks | hsave | ⟨-,hfailure | hseal⟩)
  · cases htask : w.task with
    | markCancelled | markRejected | markFailed => simp [htask, Point.quiet] at h
    | _ => simp [htask, Point.marks] at hmarks
  · simp [hsave, Point.quiet] at h
  · simp [hfailure, Point.quiet] at h
  · simp [hseal, Point.quiet] at h

theorem settling_start : start.Settling := by
  refine ⟨.inl rfl,.inl rfl,fun h => ?_,fun i seen h => ?_,rfl⟩
  · simp [start, Ownership.empty, Point.over] at h
  · simp [start, Handler.seen] at h

namespace Settling

theorem congr {w' : World} (h : w.Settling) (houtcome : w'.tables.outcome = w.tables.outcome)
    (hstatus : w'.status = w.status) (htask : w'.task = w.task) (hreservation : w'.reservation = w.reservation)
    (hhandlers : w'.handlers = w.handlers)
    (hexecution : w.execution = .ended .cancelled → w'.execution = .ended .cancelled) : w'.Settling := by
  refine ⟨?_,?_,?_,?_,?_⟩
  · rw [hstatus]
    exact h.status
  · rw [houtcome, hreservation]
    exact h.reserved
  · simpa only [houtcome, htask, Settled, TaskWrites, hstatus, hreservation, hhandlers] using h.settled
  · rw [hstatus, hhandlers]
    exact h.seen
  · have hfits := h.fits
    unfold Fits at hfits ⊢
    rw [htask, hreservation]
    split at hfits
    · exact ⟨hexecution hfits.1,hfits.2⟩
    · exact ⟨hexecution hfits.1,hfits.2⟩
    · exact ⟨hexecution hfits.1,hfits.2⟩
    all_goals exact hfits

theorem put (h : w.Settling) (hold : w.handlers i ≠ .mark)
    (hseen : ∀ seen, handler.seen = some seen → live seen = false → terminal w.status = true) :
    (w.put i handler).Settling := by
  refine ⟨h.status,h.reserved,fun hw => ?_,fun j seen hj => ?_,h.fits⟩
  · obtain hstatus | hwrites | ⟨j,hj⟩ := h.settled hw
    · exact .inl hstatus
    · exact .inr (.inl hwrites)
    · have hne : j ≠ i := fun hji => hold (hji ▸ hj)
      exact .inr (.inr ⟨j,by simpa [World.put, hne] using hj⟩)
  · by_cases hji : j = i
    · subst hji
      exact hseen seen (by simpa [World.put] using hj)
    · exact h.seen j seen (by simpa [World.put, hji] using hj)

theorem next (h : w.Settling) (hold : w.handlers i ≠ .mark)
    (hseen : handler.seen = none ∨ handler.seen = (w.handlers i).seen) : (w.put i handler).Settling := by
  refine h.put hold fun seen hhandler => ?_
  obtain hseen | hseen := hseen
  · cases hseen.symm.trans hhandler
  · exact h.seen i seen (hseen.symm.trans hhandler)

theorem reserve (h : w.Settling) (hnone : w.tables.outcome = none)
    (hsettled : terminal w.status = true ∨ handler = .mark) (hseen : handler.seen = none) :
    ({ w with tables := { w.tables with terminal := true, outcome := some .cancelled } }.put i handler).Settling := by
  refine ⟨h.status,.inr ⟨?_,rfl⟩,fun _ => ?_,fun j seen hj => ?_,h.fits⟩
  · obtain hreserved | ⟨hreserved,-⟩ := h.reserved
    · exact hreserved.symm.trans hnone
    · exact hreserved
  · obtain hstatus | rfl := hsettled
    · exact .inl hstatus
    · exact .inr (.inr ⟨i,by simp [World.put]⟩)
  · by_cases hji : j = i
    · subst hji
      simp [World.put, hseen] at hj
    · exact h.seen j seen (by simpa [World.put, hji] using hj)

variable {point : Point}

section
variable (h : w.Settling)
include h

theorem goto (hwrites : w.TaskWrites → (w.goto point).TaskWrites)
    (hover : point.over = true → w.tables.outcome ≠ none ∨ w.task.over = true) (hfits : (w.goto point).Fits) :
    (w.goto point).Settling := by
  refine ⟨h.status,h.reserved,fun hw => ?_,h.seen,hfits⟩
  have hsettled : w.Settled := by
    obtain houtcome | hpoint := hw
    · exact h.settled (.inl houtcome)
    · exact h.settled (hover hpoint)
  obtain hstatus | htask | hhandler := hsettled
  · exact .inl hstatus
  · exact .inr (.inl (hwrites htask))
  · exact .inr (.inr hhandler)

theorem proceed (hquiet : w.task.quiet = true) (hover : point.over = false)
    (hfits : (w.goto point).Fits) : (w.goto point).Settling :=
  h.goto (absurd · (not_taskWrites_of_quiet hquiet)) (fun hpoint => by cases hover.symm.trans hpoint) hfits

theorem stop (hwrites : ¬ w.TaskWrites) (houtcome : w.tables.outcome ≠ none)
    (hfits : (w.goto point).Fits) : (w.goto point).Settling := h.goto (absurd · hwrites) (fun _ => .inl houtcome) hfits

theorem sealed {tables : Ownership Unit Unit} {outcome : Outcome} (houtcome : tables.outcome = some outcome)
    (hpoint : (∃ site, point = .markCancelled site) ∨ point = .saveResult ∨ point = .markFailed) :
    { w with tables := tables, reservation := some outcome, task := point }.Settling := by
  refine ⟨h.status,.inl houtcome,fun _ => .inr (.inl ?_),h.seen,?_⟩
  · obtain ⟨site,rfl⟩ | rfl | rfl := hpoint
    · exact .inl rfl
    · exact .inr (.inl rfl)
    · exact .inl rfl
  · obtain ⟨site,rfl⟩ | rfl | rfl := hpoint
    · trivial
    · exact some_ne_none outcome
    · trivial

theorem write {status : Status} (hstatus : terminal status = true)
    (hpoint : point = .discard ∨ point = .release) : { w with status := status, task := point }.Settling := by
  refine ⟨.inr hstatus,h.reserved,fun _ => .inl hstatus,fun _ _ _ _ => hstatus,?_⟩
  obtain rfl | rfl := hpoint
  · trivial
  · trivial

theorem execute (event : ExecutionEvent) : (w.execute event).Settling := by
  have hmove : ∀ (tables : Ownership Unit Unit) (released : Bool) (execution : Execution),
      w.tables.SameSeal tables → w.execution ≠ .ended .cancelled →
      { w with tables := tables, released := released, execution := execution }.Settling :=
    fun _ _ _ hseal hexecution => h.congr hseal.2 rfl rfl rfl rfl fun hw => absurd hw hexecution
  unfold World.execute
  cases hpoint : w.execution with
  | idle =>
    cases event with
    | proceeds =>
      dsimp only
      split
      · exact hmove _ _ _ ⟨rfl,rfl⟩ (by simp [hpoint])
      · exact h
    | fails | finishes result => exact h
  | admission =>
    cases event with
    | proceeds => exact hmove _ _ _ sameSeal_admitBacktestWorkerStart (by simp [hpoint])
    | fails => exact hmove _ _ _ ⟨rfl,rfl⟩ (by simp [hpoint])
    | finishes => exact h
  | start | setup | isolate | close result =>
    cases event with
    | proceeds | fails => exact hmove _ _ _ ⟨rfl,rfl⟩ (by simp [hpoint])
    | finishes => exact h
  | register =>
    cases event with
    | proceeds =>
      have hseal : w.tables.SameSeal ((w.tables.registerBacktestWorker ()).getD w.tables) :=
        sameSeal_registerBacktestWorker
      cases hregister : w.tables.registerBacktestWorker () with
      | none => exact hmove _ _ _ ⟨rfl,rfl⟩ (by simp [hpoint])
      | some =>
        rw [hregister] at hseal
        exact hmove _ _ _ hseal (by simp [hpoint])
    | fails => exact hmove _ _ _ ⟨rfl,rfl⟩ (by simp [hpoint])
    | finishes => exact h
  | abandon =>
    cases event with
    | proceeds => exact hmove _ _ _ sameSeal_unregisterBacktestWorker (by simp [hpoint])
    | fails => exact hmove _ _ _ sameSeal_retainBacktestWorkerForRetry (by simp [hpoint])
    | finishes => exact h
  | unmark | unmarkRegistered => exact hmove _ _ _ ⟨rfl,rfl⟩ (by simp [hpoint])
  | compute =>
    cases event with
    | finishes =>
      dsimp only
      split
      · exact h
      · exact hmove _ _ _ ⟨rfl,rfl⟩ (by simp [hpoint])
    | proceeds | fails => exact h
  | cleanup result =>
    cases event with
    | proceeds => exact hmove _ _ _ sameSeal_unregisterBacktestWorker (by simp [hpoint])
    | fails => exact hmove _ _ _ ⟨rfl,rfl⟩ (by simp [hpoint])
    | finishes => exact h
  | ended => exact h

/-- A step of a cancel request that is not in the gap. -/
theorem handle {ok : Bool} (hpermitted : w.permitted (.handler i ok) = true) (hgap : w.gap (.handler i ok) = false) :
    (w.handle i ok).Settling := by
  unfold World.handle
  cases hpoint : w.handlers i with
  | absent | returned => exact h
  | request seen =>
    have hw : { w with tables := w.tables.requestBacktestCancel.2 }.Settling :=
      h.congr sameSeal_requestBacktestCancel.2 rfl rfl rfl rfl id
    dsimp only
    split
    · exact hw.next (by simp [hpoint]) (.inr (congrArg Handler.seen hpoint).symm)
    · exact hw.next (by simp [hpoint]) (.inl rfl)
  | scan seen found =>
    have hold : w.handlers i ≠ .mark := by simp [hpoint]
    obtain ⟨-,hseal⟩ | ⟨-,-,hseal⟩ | ⟨howned,hnone,hseal⟩ := w.tables.sealBacktestTerminalIfQuiescent_cases
    · simp only [hseal, Bool.false_eq_true, if_false]
      split
      · split
        · exact h
        · exact h.next hold (.inl rfl)
      · exact h.next hold (.inr (congrArg Handler.seen hpoint).symm)
    · simp only [hseal, if_true]
      split
      · exact h.next hold (.inl rfl)
      · split
        · exact h.next hold (.inl rfl)
        · exact h.next hold (.inl rfl)
    · simp only [hseal, if_true]
      split
      · rename_i hlive
        exact h.reserve hnone (.inl (h.seen i seen (congrArg Handler.seen hpoint) (by simpa using hlive))) rfl
      · rename_i hlive
        cases found with
        | true => exact h.reserve hnone (.inr rfl) rfl
        | false =>
          have hdead : live seen = false := by simpa [gap, hpoint, howned, hnone] using hgap
          simp [hdead] at hlive
  | clean seen workers =>
    have hold : w.handlers i ≠ .mark := by simp [hpoint]
    cases workers with
    | nil =>
      dsimp only
      split
      · exact h.next hold (.inr (congrArg Handler.seen hpoint).symm)
      · exact h.next hold (.inl rfl)
    | cons =>
      cases ok with
      | true =>
        have hw : { w.unregister with signalled := true }.Settling :=
          h.congr sameSeal_unregisterBacktestWorker.2 rfl rfl rfl rfl id
        exact hw.next hold (.inr (congrArg Handler.seen hpoint).symm)
      | false =>
        have hw : { w with signalled := true }.Settling := h.congr rfl rfl rfl rfl rfl id
        exact hw.next hold (.inr (congrArg Handler.seen hpoint).symm)
  | mark =>
    have hok : ok = true := by simpa [permitted, hpoint] using hpermitted
    subst hok
    refine ⟨.inr rfl,h.reserved,fun _ => .inl rfl,fun _ _ _ _ => rfl,h.fits⟩
  | discard =>
    have hw : { w with tables := { w.tables with cancelRequested := false } }.Settling := h.congr rfl rfl rfl rfl rfl id
    exact hw.next (by simp [hpoint]) (.inl rfl)

/-- A step of the task. -/
theorem advance (hcleared : w.Cleared) (hpermitted : w.permitted (.task event) = true) :
    (w.advance event).Settling := by
  have hfits := h.fits
  obtain ⟨tables,signalled,status,released,execution,task,reservation,handlers⟩ := w
  cases task with
  | loadStrategy | loadArtifact | loadBars =>
    cases event with
    | proceeds | rejects => exact h.proceed rfl rfl hfits
    | fails | interrupted => exact h.proceed rfl rfl trivial
  | fingerprint | configure =>
    simp only [advance]
    split
    · exact h.proceed rfl rfl hfits
    · exact h.proceed rfl rfl trivial
  | execute =>
    simp only [advance]
    split
    · exact h.proceed rfl rfl hfits
    · exact h.proceed rfl rfl ⟨rfl,hfits⟩
    · exact h.proceed rfl rfl trivial
    · exact h
  | cancelRequested site =>
    simp only [advance]
    split
    · refine h.proceed rfl rfl ?_
      cases site <;> exact hfits
    · cases site with
      | publication => exact h.proceed rfl rfl trivial
      | strategyLoad | artifactLoad | marketDataLoad | backtestSetup | compute | caught => exact h.proceed rfl rfl hfits
  | outcome site =>
    simp only [advance]
    split
    · rename_i hsome
      exact h.stop (not_taskWrites_of_quiet rfl) (isSome_iff_ne_none.mp hsome) trivial
    · refine h.proceed rfl rfl ?_
      cases site <;> exact hfits
  | sealTerminal site =>
    have hreservation : reservation = none := by
      cases site with
      | caught => exact hfits.2
      | strategyLoad | artifactLoad | marketDataLoad | backtestSetup | compute | publication => exact hfits
    obtain ⟨howned,hseal⟩ | ⟨-,hsome,hseal⟩ | ⟨-,-,hseal⟩ := tables.sealBacktestTerminalIfQuiescent_cases
    · simp only [advance, hseal, Bool.false_eq_true, if_false]
      refine h.proceed rfl rfl ?_
      cases site with
      | caught =>
        -- the worker of a cancelled execution has been cleaned up
        have hunowned := hcleared (by rw [hfits.1]; rfl)
        cases howned.symm.trans hunowned
      | strategyLoad | artifactLoad | marketDataLoad | backtestSetup | compute | publication => exact hfits
    · simp only [advance, hseal, if_true]
      refine h.sealed ?_ (.inl ⟨site,rfl⟩)
      obtain houtcome | ⟨-,houtcome⟩ := h.reserved
      · exact absurd (houtcome.trans hreservation) hsome
      · exact houtcome
    · simp only [advance, hseal, if_true]
      exact h.sealed rfl (.inl ⟨site,rfl⟩)
  | outcomeAgain site =>
    simp only [advance]
    split
    · rename_i hsome
      exact h.stop (not_taskWrites_of_quiet rfl) (isSome_iff_ne_none.mp hsome) trivial
    · cases site with
      | caught => exact hfits.elim
      | strategyLoad | artifactLoad | marketDataLoad | backtestSetup | compute | publication =>
        exact h.proceed rfl rfl trivial
  | markCancelled | markFailed =>
    rw [proceeds_of_permitted hpermitted rfl]
    exact h.write rfl (.inl rfl)
  | markRejected =>
    rw [proceeds_of_permitted hpermitted rfl]
    exact h.write rfl (.inr rfl)
  | sealSuccess =>
    obtain hseal | ⟨-,-,-,hseal⟩ := tables.sealBacktestSuccessIfQuiescent_cases
    · simp only [advance, hseal, Bool.false_eq_true, if_false]
      exact h.proceed rfl rfl hfits
    · simp only [advance, hseal, if_true]
      exact h.sealed rfl (.inr (.inl rfl))
  | successOutcome =>
    simp only [advance]
    split
    · rename_i hsome
      exact h.stop (not_taskWrites_of_quiet rfl) (isSome_iff_ne_none.mp hsome) trivial
    · exact h.proceed rfl rfl hfits
  | saveResult =>
    simp only [advance]
    split
    · exact h.write rfl (.inl rfl)
    · exact h.goto (fun _ => .inr (.inr ⟨hfits,.inl rfl⟩)) (by simp [Point.over]) trivial
  | failureOutcome =>
    simp only [advance]
    split
    · rename_i hsome
      simp only [Bool.and_eq_true, isNone_iff_eq_none] at hsome
      exact h.stop (by simp [TaskWrites, Point.marks, hsome.2]) (isSome_iff_ne_none.mp hsome.1) trivial
    · refine h.goto (fun hwrites => ?_) (by simp [Point.over]) trivial
      have hreservation : reservation ≠ none := by simpa [TaskWrites, Point.marks] using hwrites
      exact .inr (.inr ⟨hreservation,.inr rfl⟩)
  | sealFailure =>
    obtain ⟨hsome,hne,hseal⟩ | ⟨-,hseal⟩ := tables.sealBacktestFailure_cases reservation
    · simp only [advance, hseal, Bool.false_eq_true, if_false]
      have hreservation : reservation = none := by
        obtain houtcome | ⟨hnone,-⟩ := h.reserved
        · exact absurd houtcome hne
        · exact hnone
      exact h.stop (by simp [TaskWrites, Point.marks, hreservation]) hsome trivial
    · simp only [advance, hseal, if_true]
      exact h.sealed rfl (.inr (.inr rfl))
  | discard =>
    exact goto (w := ⟨{ tables with cancelRequested := false },signalled,status,released,execution,.discard,
      reservation,handlers⟩)
      (h.congr rfl rfl rfl rfl rfl id) (absurd · (not_taskWrites_of_quiet rfl)) (fun _ => .inr rfl) trivial
  | release =>
    have hfinish : (World.goto ⟨tables,signalled,status,released,execution,.release,reservation,
      handlers⟩ .finished).Settling :=
      h.goto (absurd · (not_taskWrites_of_quiet rfl)) (fun _ => .inr rfl) trivial
    have hseal : tables.SameSeal (((tables.retainBacktestAdmissionLease ()).map Prod.snd).getD tables) :=
      sameSeal_retainBacktestAdmissionLease
    simp only [advance]
    split
    · rename_i hretain
      rw [hretain] at hseal
      exact hfinish.congr hseal.2 rfl rfl rfl rfl id
    · exact hfinish.congr rfl rfl rfl rfl rfl id
    · exact hfinish
  | finished => exact h

/-- Outside of the gap every step keeps status and outcome in agreement. -/
theorem step {e : Event} (hcleared : w.Cleared) (hpermitted : w.permitted e = true) (hgap : w.gap e = false) :
    (w.step e).Settling := by
  cases e with
  | task event =>
    cases event with
    | proceeds | rejects | fails => exact h.advance hcleared hpermitted
    | interrupted => simp [permitted] at hpermitted
  | execution event => exact h.execute event
  | cancel =>
    simp only [World.step]
    split
    · rename_i habsent
      refine h.put (by simp [habsent]) fun seen hseen hlive => ?_
      obtain rfl : w.status = seen := by simpa [Handler.seen] using hseen
      simpa [hlive] using h.status
    · exact h
  | handler => exact h.handle hpermitted hgap

end

end Settling

/-- In any interleaving in which the database succeeds and no request for a live run reserves
the cancellation without having met a worker, the run has a terminal status once the task and all requests
have ended. -/
theorem cancelled_run_terminal (events : List Event)
    (h : EachStep step (fun w e => w.permitted e = true ∧ w.gap e = false) start events)
    (htask : (run step start events).task = .finished)
    (hhandlers : ∀ i, ((run step start events).handlers i).over = true) :
    terminal (run step start events).status = true := by
  have hinv : Always step Settling start events :=
    h.always (I := fun w => w.Marked ∧ w.Cleared ∧ w.Settling) (P := Settling)
      (fun w e hw he => ⟨hw.1.step e,hw.2.1.step hw.1 e,hw.2.2.step hw.2.1 he.1 he.2⟩) (fun w hw => hw.2.2)
      ⟨marked_start,cleared_start,settling_start⟩
  obtain hstatus | hwrites | ⟨i,hi⟩ := hinv.last.settled (.inr (by rw [htask]; rfl))
  · exact hstatus
  · simp [TaskWrites, htask, Point.marks] at hwrites
  · simpa [hi, Handler.over] using hhandlers i

def cancelDuringCompute : List Event :=
  List.replicate 9 (.task .proceeds) ++ List.replicate 7 (.execution .proceeds) ++
    .cancel 0 :: List.replicate 7 (.handler 0 true) ++
    [.execution (.finishes .cancelled), .execution .proceeds, .execution .proceeds] ++
      List.replicate 3 (.task .proceeds)

theorem cancelled_during_compute : terminal (run step start cancelDuringCompute).status = true := by
  refine cancelled_run_terminal cancelDuringCompute (by decide +kernel) (by decide +kernel) fun i => ?_
  cases i with
  | zero => decide +kernel
  | succ => rfl

def cancelWhileLoading : List Event :=
  List.replicate 4 (.task .proceeds) ++ [.cancel 0, .handler 0 true, .handler 0 true] ++
    List.replicate 4 (.task .proceeds)

/-- The request reserves the cancellation, the task stops at it, and the status stays as it was. -/
theorem status_left_running :
    let w := run step start cancelWhileLoading
    EachStep step (fun w e => w.permitted e = true) start cancelWhileLoading ∧
      w.task = .finished ∧ (∀ i, (w.handlers i).over = true) ∧ w.status = .running ∧ terminal w.status = false := by
  refine ⟨by decide +kernel,by decide +kernel,fun i => ?_,by decide +kernel,by decide +kernel⟩
  cases i with
  | zero => decide +kernel
  | succ => rfl

end World
end OpenPine.Backtests.Cancellation
