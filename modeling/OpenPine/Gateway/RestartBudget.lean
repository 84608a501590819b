import Mathlib.Algebra.Order.Ring.Rat
import Mathlib.Data.Nat.Cast.Order.Basic
import OpenPine.Foundation.SlidingWindow
import OpenPine.Gateway.Course

/-! # The restart budget

The supervisor tests its budget, waits as long as the backoff asks, and only then stamps
the attempt; the list of stamps is pruned with the reading of the clock before the wait.
With a clock that never goes back, every closed interval as long as the window still
holds at most as many attempts as the configuration allows.
-/
namespace OpenPine.Gateway
open Hoare SlidingWindow

def Event.stamp : Event → Option ℚ
  | .restart stamp => some stamp
  | _ => none

def restartStamps (trace : List Event) : List ℚ := trace.filterMap Event.stamp

theorem restartStamps_concat {e : Event} (he : e.stamp = none) (trace : List Event) :
    restartStamps (trace ++ [e]) = restartStamps trace := by
  have hnone : [e].filterMap Event.stamp = [] := by rw [List.filterMap_cons_none he, List.filterMap_nil]
  rw [restartStamps, List.filterMap_append, hnone, List.append_nil, restartStamps]

theorem restartStamps_restart (trace : List Event) (stamp : ℚ) :
    restartStamps (trace ++ [.restart stamp]) = restartStamps trace ++ [stamp] := by
  rw [restartStamps, List.filterMap_append]
  rfl

/-- No closed interval of the length of the window holds more attempts than allowed. -/
def WithinBudget (config : SupervisorConfig) (w : MonitorState) : Prop :=
  Bounded config.restartWindowSeconds config.maxRestarts (restartStamps w.trace)

/-- The attempts of the window that ends at the next reading of the clock are all listed. -/
structure Budgeted (env : ℕ → Answers) (config : SupervisorConfig) (w : MonitorState) : Prop where
  bounded : WithinBudget config w
  recent : Recent ((env w.tick).monotonic - config.restartWindowSeconds) (restartStamps w.trace) w.restartTimes

structure Unexhausted (env : ℕ → Answers) (config : SupervisorConfig) (w : MonitorState) : Prop extends
    Budgeted env config w where
  free : w.restartTimes.length < config.maxRestarts

structure Unstamped (w w' : MonitorState) : Prop where
  tick : w.tick ≤ w'.tick
  times : w'.restartTimes = w.restartTimes
  stamps : restartStamps w'.trace = restartStamps w.trace

section Assertions
variable {env : ℕ → Answers} {config : SupervisorConfig} {w w' : MonitorState}

theorem Budgeted.prune (h : Budgeted env config w) {now : ℚ} (hnow : now ≤ (env w.tick).monotonic) : Budgeted env config
      { w with restartTimes := w.restartTimes.filter fun stamp => now - config.restartWindowSeconds ≤ stamp } :=
  ⟨h.bounded,h.recent.prune (sub_le_sub_right hnow _)⟩

variable (hclock : Monotone fun n => (env n).monotonic)
include hclock

theorem Budgeted.congr (h : Budgeted env config w) (hw : Unstamped w w') : Budgeted env config w' := by
  refine ⟨?_,?_⟩
  · unfold WithinBudget
    rw [hw.stamps]
    exact h.bounded
  · rw [hw.times, hw.stamps]
    exact h.recent.mono (sub_le_sub_right (hclock hw.tick) _)

theorem Unexhausted.congr (h : Unexhausted env config w) (hw : Unstamped w w') : Unexhausted env config w' := by
  refine ⟨h.toBudgeted.congr hclock hw,?_⟩
  rw [hw.times]
  exact h.free

theorem Unexhausted.stamp (h : Unexhausted env config w) : Budgeted env config
      { w with
        tick := w.tick + 1, restartTimes := w.restartTimes ++ [(env w.tick).monotonic]
        restartCount := w.restartCount + 1, trace := w.trace ++ [.restart (env w.tick).monotonic] } := by
  refine ⟨?_,?_⟩
  · unfold WithinBudget
    rw [restartStamps_restart]
    exact h.bounded.concat h.recent h.free
  · rw [restartStamps_restart]
    exact (h.recent.concat _).mono (sub_le_sub_right (hclock w.tick.le_succ) _)

end Assertions

theorem kept_of_unstamped {P Q : MonitorState → Prop} (hP : ∀ w w', P w → Unstamped w w' → P w') (hQ : ∀ w, P w → Q w) :
    Kept P fun _ => Q where
  asked w h := hP w _ h ⟨w.tick.le_succ,rfl,rfl⟩
  reported w _ _ h := hP w _ h ⟨le_rfl,rfl,rfl⟩
  answered w _ _ h := hP w _ h ⟨le_rfl,rfl,restartStamps_concat rfl _⟩
  finished w _ _ h _ := hP w _ h ⟨le_rfl,rfl,restartStamps_concat rfl _⟩
  stopped w h := hQ _ (hP w _ h ⟨le_rfl,rfl,rfl⟩)

namespace WorkerSupervisor
variable {env : ℕ → Answers} {config : SupervisorConfig}

def KeepsBudget {α : Type} (env : ℕ → Answers) (config : SupervisorConfig) (x : Monitor α) : Prop :=
  Triple (Budgeted env config) x (fun _ => Budgeted env config) fun _ => Budgeted env config

theorem branch_budget {x : Monitor Bool} (hx : KeepsBudget env config x) :
    Triple (Budgeted env config) x (Branch (Budgeted env config) (Budgeted env config)) fun _ => Budgeted env config :=
  hx.conseq (fun _ h => h) (fun _ _ h => ⟨fun _ => h,fun _ => h⟩) fun _ _ h => h

variable (hclock : Monotone fun n => (env n).monotonic)
include hclock

theorem kept_budgeted : Kept (Budgeted env config) fun _ => Budgeted env config :=
  kept_of_unstamped (fun _ _ h hw => h.congr hclock hw) fun _ h => h

theorem kept_unexhausted : Kept (Unexhausted env config) fun _ => Budgeted env config :=
  kept_of_unstamped (fun _ _ h hw => h.congr hclock hw) fun _ h => h.toBudgeted

theorem modify_budget {f : MonitorState → MonitorState} (hf : ∀ w, Unstamped w (f w)) :
    KeepsBudget env config (modify f) :=
  .update f fun w h => h.congr hclock (hf w)

/-! ### Parts that stamp nothing -/

theorem startCandidate_budget (process : ℕ) (readyEvent heartbeat : Bool) :
    KeepsBudget env config (startCandidate env process readyEvent heartbeat) := by
  have hkept := @kept_budgeted env config hclock
  refine .seq (modify_budget hclock fun _ => ⟨le_rfl,rfl,rfl⟩) ?_
  apply Triple.bind hkept.ask
  intro a
  refine .seq (modify_budget hclock fun _ => ⟨le_rfl,rfl,restartStamps_concat rfl _⟩) ?_
  refine .cond (fun _ => ?_) fun _ => ?_
  · refine .seq (modify_budget hclock fun _ => ⟨le_rfl,rfl,rfl⟩) ?_
    apply Triple.bind (hkept.safeIsAlive process)
    intro liveness
    refine .seq (modify_budget hclock fun _ => ⟨le_rfl,rfl,rfl⟩) ?_
    apply Triple.seq (hkept.markDegraded _)
    exact .ret fun _ h => h
  · refine .seq (modify_budget hclock fun _ => ⟨le_rfl,rfl,rfl⟩) ?_
    apply Triple.seq (hkept.setReason _ _)
    apply Triple.seq (keeps_when (hkept.markDegraded _))
    exact .ret fun _ h => h

theorem startProcess_budget : KeepsBudget env config (startProcess env) :=
  startProcess_of (fun _ h => h.congr hclock ⟨le_rfl,rfl,rfl⟩) (kept_budgeted hclock).toFramed (fun _ h => h)
    (fun _ h => h)
    (startCandidate_budget hclock)

theorem setFailSafe_budget (status : FailSafeStatus) (error : Option String) :
    KeepsBudget env config (setFailSafe status error) := modify_budget hclock fun _ => ⟨le_rfl,rfl,rfl⟩

theorem failSafeAttempts_budget (attempt left : ℕ) :
    KeepsBudget env config (failSafeAttempts env config attempt left) := by
  induction left generalizing attempt with
  | zero => exact .ret fun _ h => h
  | succ _ ih =>
    refine .seq (modify_budget hclock fun _ => ⟨le_rfl,rfl,restartStamps_concat rfl _⟩) ?_
    apply Triple.bind (kept_budgeted hclock).await
    intro ended
    match ended with
    | none | some .ok => exact setFailSafe_budget hclock _ _
    | some (.failed error) =>
      apply Triple.seq (setFailSafe_budget hclock _ _)
      apply Triple.seq (keeps_when (kept_budgeted hclock).sleep)
      exact ih (attempt + 1)
    | some .cancelled => exact .raise fun _ h => h

theorem invokeFailSafeSafely_budget : KeepsBudget env config (invokeFailSafeSafely env config) := by
  refine .read fun w h => .here h (.cond (fun _ => ?_) fun _ => failSafeAttempts_budget hclock _ _)
  apply Triple.bind (kept_budgeted hclock).await
  intro ended
  exact keeps_when (setFailSafe_budget hclock _ _)

theorem waitForFailSafeBeforeRestart_budget : KeepsBudget env config (waitForFailSafeBeforeRestart env) := by
  have hstatus : KeepsBudget env config (do return (← get).failSafeStatus = .ok) :=
    .read fun w h => .here h (.ret fun _ h => h)
  refine .read fun w h => .here h (.cond (fun _ => ?_) fun _ => hstatus)
  apply Triple.bind (kept_budgeted hclock).await
  intro ended
  match ended with
  | none | some .cancelled => exact .raise fun _ h => h
  | some .ok => exact hstatus
  | some (.failed _) => exact .ret fun _ h => h

theorem containStartFailedProcess_budget : KeepsBudget env config (containStartFailedProcess env) := by
  refine .read fun w h => .here h ?_
  split
  · exact .ret fun _ h => h
  · apply Triple.bind ((kept_budgeted hclock).terminateUnhealthyProcess _)
    intro contained
    refine .seq (keeps_when (modify_budget hclock fun _ => ⟨le_rfl,rfl,rfl⟩)) ?_
    exact .ret fun _ h => h

theorem recoverFromFailedStart_budget : KeepsBudget env config (recoverFromFailedStart env config) := by
  refine .read fun w h => .here h (.cond (fun _ => ?_) fun _ => .ret fun _ h => h)
  apply Triple.bind (containStartFailedProcess_budget hclock)
  intro allowed
  refine .cond (fun _ => .ret fun _ h => h) fun _ => ?_
  apply Triple.seq (.read fun w h => .here h (keeps_when (invokeFailSafeSafely_budget hclock)))
  exact .ret fun _ h => h

/-! ### Restarts -/

/-- The loop that restarts a worker stays within the budget. -/
theorem restartUntilStarted_budget (incident : Option Incident) (failSafeOnExhaustion : Bool) (fuel : ℕ) :
    KeepsBudget env config (restartUntilStarted env config incident failSafeOnExhaustion fuel) := by
  have hkept := @kept_budgeted env config hclock
  have hfree := @kept_unexhausted env config hclock
  induction fuel with
  | zero => exact .raise fun _ h => h
  | succ _ ih =>
    refine .read fun w h => .here h (.cond (fun _ => .ret fun _ h => h) fun _ => ?_)
    apply Triple.bind ask_answer
    intro a
    have hprune : Triple (fun w => ∃ w₀, Budgeted env config w₀ ∧ env w₀.tick = a ∧ { w₀ with tick := w₀.tick + 1 } = w)
        (modify fun w => { w with
          restartTimes := w.restartTimes.filter fun stamp => a.monotonic - config.restartWindowSeconds ≤ stamp } :
          Monitor Unit) (fun _ => Budgeted env config) fun _ => Budgeted env config := by
      apply Triple.update
      rintro _ ⟨w,h,rfl,rfl⟩
      exact (hkept.asked w h).prune (hclock w.tick.le_succ)
    apply Triple.seq hprune
    refine .read fun w h => .cond (fun _ => .here h ?_) fun hfew => ?_
    · apply Triple.seq (hkept.setReason _ _)
      apply Triple.seq (keeps_when (invokeFailSafeSafely_budget hclock))
      exact .ret fun _ h => h
    · have hunexhausted : Unexhausted env config w := ⟨h,not_le.mp hfew⟩
      refine .here hunexhausted ?_
      -- the wait may take any time, but the list stays as it was tested
      apply Triple.seq (keeps_when hfree.sleep)
      refine .read fun w h => .here h (.cond (fun _ => .ret fun _ h => h.toBudgeted) fun _ => ?_)
      apply Triple.bind ask_answer
      intro a
      apply Triple.seq (.assign _)
      have hstamp : Triple (fun w => ∃ w₁, (∃ w₀, Unexhausted env config w₀ ∧ env w₀.tick = a ∧
          { w₀ with tick := w₀.tick + 1 } = w₁) ∧
          { w₁ with restartTimes := w₁.restartTimes ++ [a.monotonic], restartCount := w₁.restartCount + 1 } = w)
          (emit (.restart a.monotonic)) (fun _ => Budgeted env config) fun _ => Budgeted env config := by
        apply Triple.update
        rintro _ ⟨_,⟨w,h,rfl,rfl⟩,rfl⟩
        exact h.stamp hclock
      apply Triple.seq hstamp
      apply Triple.bind (startProcess_budget hclock)
      intro started
      refine .cond (fun _ => ?_) fun _ => ?_
      · apply Triple.seq (hkept.setReason _ _)
        exact .ret fun _ h => h
      · apply Triple.bind (recoverFromFailedStart_budget hclock)
        intro allowed
        exact .cond (fun _ => ih) fun _ => .ret fun _ h => h

/-! ### The monitor -/

def budgetCourse : Course env config fun _ => Budgeted env config where
  watched _ := Budgeted env config
  vacant _ := Budgeted env config
  called _ := Budgeted env config
  terminated := Budgeted env config
  up := Budgeted env config
  unstarted := Budgeted env config
  caught := Budgeted env config
  covered := Budgeted env config
  ended := Budgeted env config
  watching _ := kept_budgeted hclock
  vacating := kept_budgeted hclock
  waiting := kept_budgeted hclock
  catching := (kept_budgeted hclock).toFramed
  covering := kept_budgeted hclock
  ending := (kept_budgeted hclock).toFramed
  invoked _ := invokeFailSafeSafely_budget hclock
  contained p := branch_budget ((kept_budgeted hclock).terminateUnhealthyProcess p)
  waited := branch_budget (waitForFailSafeBeforeRestart_budget hclock)
  restarted incident b fuel := branch_budget (restartUntilStarted_budget hclock incident b fuel)
  answered p := ((kept_budgeted hclock).safeIsAlive p).conseq (fun _ h => h) (fun _ _ h => ⟨h,fun _ => h⟩)
    fun _ _ h => h
  started := branch_budget (startProcess_budget hclock)
  slept := (kept_budgeted hclock).sleep
  recovered := branch_budget (recoverFromFailedStart_budget hclock)
  saved := invokeFailSafeSafely_budget hclock
  watched_of_up _ h := h
  up_of_watched _ _ h := h
  vacant_of_watched _ h := h
  ended_of_terminated _ h := h
  ended_of_covered _ h := h
  ended_of_stopping _ h _ := h
  unfinished _ h := h
  caught_of_raised _ h := h

theorem start_budget (fuel : ℕ) : KeepsBudget env config (start env config fuel) :=
  (budgetCourse hclock).start fuel (modify_budget hclock fun _ => ⟨le_rfl,rfl,rfl⟩)

end WorkerSupervisor

/-- In every run of the supervisor with a clock that never goes back, whatever the outside
does, every closed interval as long as the restart window holds at most as many restart
attempts as are allowed. -/
theorem restarts_within_budget (s : Supervisor) (env : ℕ → Answers) (hclock : Monotone fun n => (env n).monotonic)
    (config : SupervisorConfig) (fuel : ℕ) (a : ℚ) :
    within config.restartWindowSeconds a (restartStamps (s.run env config fuel).2.trace) ≤ config.maxRestarts := by
  have hstart : Budgeted env config { s with } := ⟨bounded_nil,recent_nil⟩
  have hspec : WorkerSupervisor.KeepsBudget env config (WorkerSupervisor.start env config fuel) :=
    WorkerSupervisor.start_budget hclock fuel
  have hrun := hspec _ hstart
  unfold Supervisor.run
  split at hrun <;> rename_i hresult
  · rw [hresult]
    exact hrun.bounded a
  · rw [hresult]
    exact hrun.bounded a

/-- Every process dies at once, and a second passes from each question to the next. -/
def dyingWorkers (n : ℕ) : Answers := { created := .pair n, alive := some false, ending := some .ok, monotonic := n }

theorem dying_workers_exhaust_budget :
    let result := ({} : Supervisor).run dyingWorkers {} 8
    result.1 = .ok () ∧ restartStamps result.2.trace = [10, 20, 30] ∧
    within 300 0 (restartStamps result.2.trace) ≤ 3 :=
  ⟨by decide +kernel,by decide +kernel, restarts_within_budget {} dyingWorkers (fun _ _ h => Nat.cast_le.mpr h) {} 8 0⟩

end OpenPine.Gateway
