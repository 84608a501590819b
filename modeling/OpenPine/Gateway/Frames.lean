import OpenPine.Gateway.WorkerSupervisor

/-! # What the parts of the supervisor leave alone

Most parts of the supervisor ask, report a reason, and wait; they write no field that
decides what happens next. An assertion that survives these few changes is kept by all
of them, and that is proved here once.
-/
namespace OpenPine.Gateway
open Hoare

def MonitorState.finished (w : MonitorState) (call : ℕ) (ending : Ending) : MonitorState :=
  { w with
    failSafeTask := none, failSafeStatus := ending.status, failSafeError := ending.error
    trace := w.trace ++ [.failSafeEnded call ending] }

structure Framed (P : MonitorState → Prop) : Prop where
  asked : ∀ w, P w → P { w with tick := w.tick + 1 }
  reported : ∀ w degraded reason, P w → P { w with degraded := degraded, reason := reason }

/-- The assertion survives everything that happens while the supervisor waits for a process
and watches it, and a stop leaves `E`. -/
structure Kept (P : MonitorState → Prop) (E : Exit → MonitorState → Prop) : Prop extends Framed P where
  answered : ∀ w process answer, P w → P { w with trace := w.trace ++ [.alive process answer] }
  finished : ∀ w call ending, P w → w.failSafeTask = some call → P (w.finished call ending)
  stopped : ∀ w, P w → E .cancelled { w with stopping := true }

open WorkerSupervisor

abbrev Maintains {α : Type} (P : MonitorState → Prop) (x : Monitor α) (E : Exit → MonitorState → Prop) : Prop :=
  Triple P x (fun _ => P) E

variable {E : Exit → MonitorState → Prop} {P : MonitorState → Prop}

theorem keeps_when {c : Prop} [Decidable c] {x : Monitor Unit} (hx : Maintains P x E) : Maintains P (when c x) E :=
  .when (fun _ => hx) fun _ _ h => h

theorem ask_answer {env : ℕ → Answers} :
    Triple P (ask env) (fun a w => ∃ w₀, P w₀ ∧ env w₀.tick = a ∧ { w₀ with tick := w₀.tick + 1 } = w) E :=
  fun w h => ⟨w,h,rfl,rfl⟩

namespace Framed
variable {env : ℕ → Answers} {P : MonitorState → Prop} {E : Exit → MonitorState → Prop} (hP : Framed P)
include hP

theorem ask : Maintains P (ask env) E := by
  apply ask_answer.conseq (fun _ h => h) _ fun _ _ h => h
  rintro a _ ⟨w,h,-,rfl⟩
  exact hP.asked w h

theorem markDegraded (reason : Reason) : Maintains P (markDegraded reason) E :=
  .update _ fun w h => hP.reported w true (some reason) h

theorem setReason (degraded : Bool) (reason : Reason) : Maintains P (setReason degraded reason) E :=
  .update _ fun w h => hP.reported w degraded (some reason) h

theorem mark (reasons : List Reason) : Maintains P (mark reasons) E := by
  induction reasons with
  | nil => exact .ret fun _ h => h
  | cons reason _ ih =>
    apply Triple.seq (hP.markDegraded reason)
    exact ih

theorem await {Q : Option Ending → MonitorState → Prop} (hnone : ∀ w, P w → Q none w)
    (hsome : ∀ w call ending, P w → w.failSafeTask = some call → Q (some ending) (w.finished call ending))
    (hstop : ∀ ended w, Q ended w → E .cancelled { w with stopping := true }) : Triple P (await env) Q E := by
  have hsettle : ∀ ending, Triple P (settle ending) Q E := by
    intro ending
    refine .read fun w h => ?_
    split
    · rename_i call ending htask
      have hfinish : Triple (fun w' => w' = w) (finishFailSafeTask call ending) (fun _ => Q (some ending)) E := by
        refine .of_run (g := fun w => w.finished call ending) (fun _ => rfl) ?_
        rintro _ rfl
        exact hsome _ call ending h htask
      exact .bind hfinish fun _ => .ret fun _ h => h
    · refine .ret ?_
      rintro _ rfl
      exact hnone _ h
  have hcancel : ∀ ended, Maintains (Q ended) cancelMonitor E := by
    intro ended
    have hmark : Triple (Q ended) (modify fun w => { w with stopping := true } : Monitor Unit)
      (fun _ => E .cancelled) E :=
      .update _ fun w h => hstop ended w h
    apply Triple.seq hmark
    exact .raise fun _ h => h
  apply Triple.bind hP.ask
  intro a
  apply Triple.seq (hP.mark a.marks)
  apply Triple.bind (hsettle a.ending)
  intro ended
  apply Triple.seq (keeps_when (hcancel ended))
  exact .ret fun _ h => h

theorem sleep (hidle : ∀ w, P w → w.failSafeTask = none) (hstop : ∀ w, P w → E .cancelled { w with stopping := true }) :
    Maintains P (sleep env) E := by
  apply Triple.bind (hP.await (fun _ h => h) _ fun _ => hstop)
  · exact fun _ => .ret fun _ h => h
  · intro w call ending h htask
    cases (hidle w h).symm.trans htask

end Framed

namespace Kept
variable {env : ℕ → Answers} {config : SupervisorConfig} {P : MonitorState → Prop} {E : Exit → MonitorState → Prop}
  (hP : Kept P E)
include hP

theorem await : Maintains P (await env) E := hP.toFramed.await (fun _ h => h) hP.finished fun _ => hP.stopped

theorem sleep : Maintains P (sleep env) E := .bind hP.await fun _ => .ret fun _ h => h

theorem safeIsAlive (process : ℕ) : Maintains P (safeIsAlive env process) E := by
  apply Triple.bind hP.ask
  intro a
  apply Triple.seq (.update _ fun w h => hP.answered w process a.alive h)
  apply Triple.seq (keeps_when (hP.markDegraded _))
  exact .ret fun _ h => h

theorem safeExitcode : Maintains P (safeExitcode env) E := by
  apply Triple.bind hP.ask
  intro a
  exact keeps_when (hP.markDegraded _)

theorem join : Maintains P (join env) E := by
  apply Triple.seq hP.sleep
  apply Triple.bind hP.ask
  intro a
  exact keeps_when (hP.markDegraded _)

theorem terminateUnhealthyProcess (process : ℕ) : Maintains P (terminateUnhealthyProcess env process) E := by
  have hkill : Maintains P (do
      let a ← WorkerSupervisor.ask env
      when a.killRaises (WorkerSupervisor.markDegraded .processKillFailed)
      WorkerSupervisor.join env) E := by
    apply Triple.bind hP.ask
    intro a
    apply Triple.seq (keeps_when (hP.markDegraded _))
    exact hP.join
  apply Triple.bind hP.ask
  intro a
  apply Triple.seq (keeps_when (hP.markDegraded _))
  apply Triple.seq hP.join
  apply Triple.bind (hP.safeIsAlive process)
  intro answer
  apply Triple.seq (keeps_when hkill)
  apply Triple.seq hP.safeExitcode
  apply Triple.bind (hP.safeIsAlive process)
  intro answer
  refine .cond (fun _ => ?_) fun _ => .ret fun _ h => h
  apply Triple.seq (hP.setReason _ _)
  exact .ret fun _ h => h

theorem safeEventIsSet : Maintains P (safeEventIsSet env) E := by
  refine .read fun w h => .here h (.cond (fun _ => ?_) fun _ => .ret fun _ h => h)
  apply Triple.bind hP.ask
  intro a
  cases a.readySet with
  | none =>
    apply Triple.seq (hP.markDegraded _)
    exact .ret fun _ h => h
  | some => exact .ret fun _ h => h

theorem heartbeatStale : Maintains P (heartbeatStale env config) E := by
  refine .read fun w h => .here h (.cond (fun _ => ?_) fun _ => .ret fun _ h => h)
  apply Triple.bind hP.ask
  intro a
  cases a.heartbeatValue with
  | none =>
    apply Triple.seq (hP.markDegraded _)
    exact .ret fun _ h => h
  | some => exact .ret fun _ h => h

theorem snapshot : Maintains P (snapshot env config) E := by
  refine .read fun w h => .here h ?_
  have hrest : ∀ answer : Option Bool, Maintains P (do
      let readySignal ← WorkerSupervisor.safeEventIsSet env
      let stale ← WorkerSupervisor.heartbeatStale env config
      return (decide (answer = some true ∧ readySignal ∧ !stale), stale)) E := by
    intro answer
    apply Triple.bind hP.safeEventIsSet
    intro readySignal
    apply Triple.bind hP.heartbeatStale
    intro stale
    exact .ret fun _ h => h
  cases w.process with
  | none => exact .bind (.ret fun _ h => h) hrest
  | some process => exact .bind (hP.safeIsAlive process) hrest

theorem startupElapsed : Maintains P (startupElapsed env) E := by
  refine .read fun w h => .here h ?_
  cases w.processStartedMonotonic with
  | none => exact .ret fun _ h => h
  | some =>
    apply Triple.bind hP.ask
    intro a
    exact .ret fun _ h => h

theorem noteReady : Maintains P noteReady E := by
  refine .read fun w h => .here h (keeps_when (.cond (fun _ => hP.setReason _ _) fun _ => ?_))
  exact keeps_when (hP.setReason _ _)

end Kept
end OpenPine.Gateway
