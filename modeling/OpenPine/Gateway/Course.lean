import OpenPine.Gateway.Frames

/-! # The course of the monitor

The monitor calls the parts of the supervisor in an order that does not depend on what is
proved of them. A course has an assertion for each point between two parts and says what
the parts make of them; what the monitor makes of them follows once for every course.
-/
namespace OpenPine.Gateway
open Hoare WorkerSupervisor

def Branch (P Q : MonitorState → Prop) (answer : Bool) (w : MonitorState) : Prop :=
  (answer = true → P w) ∧ (answer = false → Q w)

section Branch
variable {α : Type} {P Q : MonitorState → Prop} {R : α → MonitorState → Prop} {E : Exit → MonitorState → Prop}
  {answer : Bool}

theorem branch_cond {x y : Monitor α} (hx : Triple P x R E) (hy : Triple Q y R E) :
    Triple (Branch P Q answer) (if answer then x else y) R E := by
  cases answer with
  | true => exact hx.weaken fun w h => h.1 rfl
  | false => exact hy.weaken fun w h => h.2 rfl

theorem branch_true : Triple P (return true) (Branch P Q) E := .ret fun _ h => ⟨fun _ => h,Bool.noConfusion⟩

theorem branch_false : Triple Q (return false) (Branch P Q) E := .ret fun _ h => ⟨Bool.noConfusion,fun _ => h⟩

end Branch

variable {E : Exit → MonitorState → Prop} {env : ℕ → Answers} (fuel : ℕ) (process : Option ℕ)

theorem startProcess_of {P R : MonitorState → Prop} {Q : Bool → MonitorState → Prop}
    (hreset : ∀ w, P w → R { w with startFailedProcess := none, startFailedLiveness := none }) (hframed : Framed R)
    (hraised : ∀ w, R w → E .exception w) (hnone : ∀ w, R w → Q false w)
    (hcandidate : ∀ process readyEvent heartbeat, Triple R (startCandidate env process readyEvent heartbeat) Q E) :
    Triple P (startProcess env) Q E := by
  have hfactory : Triple R (do
      markDegraded .processFactoryFailed
      return false) Q E := by
    apply Triple.seq (hframed.markDegraded _)
    exact .ret hnone
  apply Triple.seq (.update _ hreset)
  apply Triple.bind hframed.ask
  intro a
  cases a.created with
  | raises | wrongLength => exact hfactory
  | noLength => exact .raise hraised
  | pair process => exact hcandidate process false false
  | quadruple process readyEvent heartbeat => exact hcandidate process readyEvent heartbeat

theorem restartUntilStarted_of {config : SupervisorConfig} {incident : Option Incident} {failSafeOnExhaustion : Bool}
    {vacant up unstarted ended : MonitorState → Prop} (hvacant : Kept vacant E) (hup : Framed up)
    (hunfinished : ∀ w, vacant w → E .unfinished w) (hstopping : ∀ w, vacant w → w.stopping = true → ended w)
    (hlisted : ∀ w times count, vacant w → vacant { w with restartTimes := times, restartCount := count })
    (hstamped : ∀ w stamp, vacant w → vacant { w with trace := w.trace ++ [.restart stamp] })
    (hexhausted : Triple vacant (when failSafeOnExhaustion (invokeFailSafeSafely env config)) (fun _ => ended) E)
    (hstarted : Triple vacant (startProcess env) (Branch up unstarted) E)
    (hrecovered : Triple unstarted (recoverFromFailedStart env config) (Branch vacant ended) E) (fuel : ℕ) :
    Triple vacant (restartUntilStarted env config incident failSafeOnExhaustion fuel) (Branch up ended) E := by
  induction fuel with
  | zero => exact .raise hunfinished
  | succ fuel ih =>
    refine .read fun w h => .cond (fun hstop => .here (hstopping w h hstop) branch_false) fun _ => .here h ?_
    apply Triple.bind hvacant.ask
    intro a
    apply Triple.seq (.update _ fun w h => hlisted w _ w.restartCount h)
    refine .read fun w h => .here h (.cond (fun _ => ?_) fun _ => ?_)
    · -- the budget is exhausted
      apply Triple.seq (hvacant.setReason _ _)
      apply Triple.seq hexhausted
      exact branch_false
    · apply Triple.seq (keeps_when hvacant.sleep)
      refine .read fun w h => .cond (fun hstop => .here (hstopping w h hstop) branch_false) fun _ => .here h ?_
      apply Triple.bind hvacant.ask
      intro a
      apply Triple.seq (.update _ fun w h => hlisted w _ _ h)
      apply Triple.seq (.update _ fun w h => hstamped w _ h)
      apply Triple.bind hstarted
      intro started
      refine branch_cond ?_ (.bind hrecovered fun allowed => branch_cond ih branch_false)
      apply Triple.seq (hup.setReason _ _)
      exact branch_true

/-- `watched p` holds while the process `p` is supervised, `vacant b` before a restart that
calls the fail-safe at its end if `b` holds, `up` after a start, and `ended` when the
monitor gives up. -/
structure Course (env : ℕ → Answers) (config : SupervisorConfig) (E : Exit → MonitorState → Prop) where
  watched : Option ℕ → MonitorState → Prop
  vacant : Bool → MonitorState → Prop
  called : ℕ → MonitorState → Prop
  (terminated up unstarted caught covered ended : MonitorState → Prop)
  watching : ∀ process, Kept (watched process) E
  vacating : Kept (vacant true) E
  waiting : Kept up E
  catching : Framed caught
  covering : Kept covered E
  ending : Framed ended
  invoked : ∀ p, Triple (watched (some p)) (invokeFailSafeSafely env config) (fun _ => called p) E
  contained : ∀ p, Triple (called p) (terminateUnhealthyProcess env p) (Branch terminated ended) E
  waited : Triple terminated (waitForFailSafeBeforeRestart env) (Branch (vacant false) ended) E
  restarted : ∀ incident b fuel, Triple (vacant b) (restartUntilStarted env config incident b fuel) (Branch up ended) E
  answered : ∀ p, Triple (watched (some p)) (safeIsAlive env p)
    (fun answer w => watched (some p) w ∧ (answer = some false → vacant true w)) E
  started : Triple (vacant true) (startProcess env) (Branch up unstarted) E
  slept : Maintains unstarted (sleep env) E
  recovered : Triple unstarted (recoverFromFailedStart env config) (Branch (vacant true) ended) E
  saved : Triple caught (invokeFailSafeSafely env config) (fun _ => covered) E
  watched_of_up : ∀ w, up w → watched w.process w
  up_of_watched : ∀ p w, watched (some p) w → up w
  vacant_of_watched : ∀ w, watched none w → vacant true w
  ended_of_terminated : ∀ w, terminated w → ended w
  ended_of_covered : ∀ w, covered w → ended w
  ended_of_stopping : ∀ w, up w → w.stopping = true → ended w
  unfinished : ∀ w, up w → E .unfinished w
  caught_of_raised : ∀ w, E .exception w → caught w

namespace Course
variable {env : ℕ → Answers} {config : SupervisorConfig} {E : Exit → MonitorState → Prop} (c : Course env config E)
include c

theorem replaceProcess (fuel process : ℕ) (incident : Incident) :
    Triple (c.watched (some process)) (replaceProcess env config fuel process incident) (Branch c.up c.ended) E := by
  apply Triple.seq ((c.watching _).setReason _ _)
  apply Triple.seq (c.invoked process)
  apply Triple.bind (c.contained process)
  intro contained
  refine branch_cond (.bind c.waited fun allowed => ?_) branch_false
  refine branch_cond (c.restarted _ _ fuel) ?_
  apply Triple.seq (c.ending.markDegraded _)
  exact branch_false

theorem checkAlive (fuel process : ℕ) :
    Triple (c.watched (some process)) (checkAlive env config fuel process) (Branch c.up c.ended) E := by
  have hgoes : Triple (c.watched (some process)) (return true) (Branch c.up c.ended) E :=
    branch_true.weaken (c.up_of_watched process)
  apply Triple.bind (c.watching _).snapshot
  intro status
  refine .cond (fun _ => ?_) fun _ => ?_
  · apply Triple.seq (c.watching _).noteReady
    exact hgoes
  · apply Triple.bind (c.watching _).safeEventIsSet
    intro isSet
    refine .cond (fun _ => c.replaceProcess fuel process .heartbeatStale) fun _ => ?_
    apply Triple.bind (c.watching _).startupElapsed
    intro elapsed
    exact .cond (fun _ => c.replaceProcess fuel process .startupReadinessTimeout) fun _ => hgoes

/-- One round of the monitor ends with a process that is up, or gives up. -/
theorem check : Triple (c.watched process) (check env config fuel process) (Branch c.up c.ended) E := by
  cases process with
  | none =>
    apply Triple.seq ((c.watching _).markDegraded _)
    exact (c.restarted _ _ fuel).weaken c.vacant_of_watched
  | some process =>
    apply Triple.bind (c.answered process)
    intro answer
    match answer with
    | none =>
      refine .weaken ?_ fun w h => h.1
      apply Triple.seq (c.invoked process)
      refine .bind ((c.contained process).conseq (fun _ h => h) (Q := fun _ => c.ended) ?_ fun _ _ h => h) fun _ =>
        branch_false
      rintro (_ | _) w h
      · exact h.2 rfl
      · exact c.ended_of_terminated w (h.1 rfl)
    | some true => exact (c.checkAlive fuel process).weaken fun w h => h.1
    | some false =>
      refine .weaken ?_ fun w h => h.2 rfl
      apply Triple.seq c.vacating.join
      apply Triple.seq c.vacating.safeExitcode
      exact c.restarted _ _ fuel

theorem monitorFailed : Triple c.caught (monitorFailed env config process) (Branch c.up c.ended) E := by
  have hends : Triple c.covered (return false) (Branch c.up c.ended) E := branch_false.weaken c.ended_of_covered
  apply Triple.seq (c.catching.markDegraded _)
  apply Triple.seq c.saved
  cases process with
  | none => exact hends
  | some process =>
    apply Triple.bind (c.covering.terminateUnhealthyProcess process)
    intro contained
    refine .cond (fun _ => hends) fun _ => ?_
    apply Triple.seq (c.covering.markDegraded _)
    exact hends

theorem monitorLoop : Triple c.up (monitorLoop env config fuel) (fun _ => c.ended) E := by
  induction fuel with
  | zero => exact .raise c.unfinished
  | succ fuel ih =>
    refine .read fun w h => .cond (fun hstop => .here (c.ended_of_stopping w h hstop) (.ret fun _ h => h))
      fun _ => .here h ?_
    apply Triple.seq c.waiting.sleep
    refine .read fun w h => .here (c.watched_of_up w h) ?_
    refine .bind (.handle (c.check fuel w.process) fun e => ?_) fun proceed => branch_cond ih (.ret fun _ h => h)
    cases e with
    | exception => exact (c.monitorFailed w.process).weaken c.caught_of_raised
    | cancelled | unfinished => exact .raise fun _ h => h

theorem monitor : Triple c.unstarted (monitor env config true fuel) (fun _ => c.ended) E := by
  apply Triple.bind c.recovered
  intro allowed
  refine branch_cond (.bind (c.restarted _ _ fuel) fun running => ?_) (.ret fun _ h => h)
  exact branch_cond (c.monitorLoop fuel) (.ret fun _ h => h)

theorem start {P : MonitorState → Prop}
    (hbegin : Triple P (modify fun w => { w with stopping := false } : Monitor Unit) (fun _ => c.vacant true) E) :
    Triple P (start env config fuel) (fun _ => c.ended) E := by
  apply Triple.seq hbegin
  apply Triple.bind c.started
  intro started
  cases started with
  | true =>
    refine .weaken ?_ fun w h => h.1 rfl
    apply Triple.seq c.waiting.sleep
    exact c.monitorLoop fuel
  | false =>
    refine .weaken ?_ fun w h => h.2 rfl
    apply Triple.seq c.slept
    exact c.monitor fuel

end Course
end OpenPine.Gateway
