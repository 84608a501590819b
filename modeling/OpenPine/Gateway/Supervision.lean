import Mathlib.Data.Set.Insert
import OpenPine.Foundation.Traces
import OpenPine.Gateway.Course

/-! # One worker at a time

Whatever the processes, the factory and the fail-safe do, a process is started only when
every process before it has been seen dead since its start, no call of the fail-safe is
running, and the last call that has ended succeeded. The assertions below say which
processes may still be alive and whether the fail-safe is at rest; every function of the
supervisor has a triple in their terms.
-/
namespace OpenPine.Gateway
open Hoare Traces

/-! ### What a run may do -/

namespace Event

def starts (process : ℕ) : Event → Prop
  | .start p _ => p = process
  | _ => False

def showsDead (process : ℕ) (e : Event) : Prop := e = .alive process (some false)

def begins (call : ℕ) (e : Event) : Prop := e = .failSafeStarted call

def ends (call : ℕ) : Event → Prop
  | .failSafeEnded k _ => k = call
  | _ => False

def failsCall : Event → Prop
  | .failSafeEnded _ ending => ending ≠ .ok
  | _ => False

def succeedsCall : Event → Prop
  | .failSafeEnded _ ending => ending = .ok
  | _ => False

end Event

/-- The process was started, or an attempt was made, and it has not been seen dead since. -/
def Unproven (process : ℕ) : List Event → Prop := Open (Event.starts process) (Event.showsDead process)

def Running (call : ℕ) : List Event → Prop := Open (Event.begins call) (Event.ends call)

def Unrecovered : List Event → Prop := Open Event.failsCall Event.succeedsCall

/-- A process is started only when none before it may be alive and the fail-safe is at rest. -/
def Admits (before : List Event) (e : Event) : Prop :=
  ∀ p, e.starts p → (∀ q, ¬Unproven q before) ∧ (∀ k, ¬Running k before) ∧ ¬Unrecovered before

def NoOverlap : List Event → Prop := Admitted Admits

/-! ### The invariant -/

structure Candidate where
  (process startFailedProcess : Option ℕ)

def MonitorState.candidate (w : MonitorState) : Candidate := ⟨w.process,w.startFailedProcess⟩

/-- The trace is as it should be, and the status says what is known of the fail-safe. -/
structure Safe (w : MonitorState) : Prop where
  noOverlap : NoOverlap w.trace
  running : ∀ k, Running k w.trace → w.failSafeTask = some k
  status : w.failSafeTask ≠ none → w.failSafeStatus = .running
  recovered : w.failSafeStatus = .ok → ¬Unrecovered w.trace

structure Calm (w : MonitorState) : Prop where
  task : w.failSafeTask = none
  recovered : ¬Unrecovered w.trace

/-- Only the processes of `alive` may be alive, and the fail-safe is at rest if `calm` holds. -/
structure Held (v : Candidate) (alive : Set ℕ) (calm : Prop) (w : MonitorState) : Prop where
  safe : Safe w
  unproven : ∀ q, Unproven q w.trace → q ∈ alive
  isCalm : calm → Calm w
  candidate : w.candidate = v

structure Alike (w w' : MonitorState) : Prop where
  trace : w'.trace = w.trace
  task : w'.failSafeTask = w.failSafeTask
  status : w'.failSafeStatus = w.failSafeStatus

structure Same (w w' : MonitorState) : Prop extends Alike w w' where
  candidate : w'.candidate = w.candidate

section Assertions
variable {v : Candidate} {alive alive' : Set ℕ} {calm : Prop} {w w' : MonitorState}

theorem Safe.congr (h : Safe w) (hs : Alike w w') : Safe w' := by
  refine ⟨?_,?_,?_,?_⟩
  · rw [hs.trace]
    exact h.noOverlap
  · rw [hs.trace, hs.task]
    exact h.running
  · rw [hs.task, hs.status]
    exact h.status
  · rw [hs.status, hs.trace]
    exact h.recovered

section
variable (h : Held v alive calm w)
include h

theorem Held.replace (hs : Alike w w') {v' : Candidate} (hv : w'.candidate = v') : Held v' alive calm w' := by
  refine ⟨h.safe.congr hs,?_,fun hcalm => ⟨?_,?_⟩,hv⟩
  · rw [hs.trace]
    exact h.unproven
  · exact hs.task.trans (h.isCalm hcalm).task
  · rw [hs.trace]
    exact (h.isCalm hcalm).recovered

theorem Held.congr (hs : Same w w') : Held v alive calm w' := h.replace hs.toAlike (hs.candidate.trans h.candidate)

theorem Held.mono (hsub : alive ⊆ alive') : Held v alive' calm w :=
  ⟨h.safe,fun q hq => hsub (h.unproven q hq),h.isCalm,h.candidate⟩

theorem Held.restless : Held v alive False w := ⟨h.safe,h.unproven,False.elim,h.candidate⟩

end

theorem Safe.held (h : Safe w) : Held w.candidate Set.univ False w := ⟨h,fun _ _ => trivial,False.elim,rfl⟩

variable {trace : List Event} {e : Event}

theorem unproven_concat {q : ℕ} : Unproven q (trace ++ [e]) ↔ e.starts q ∨ Unproven q trace ∧
    ¬e.showsDead q := open_concat

theorem running_concat {k : ℕ} : Running k (trace ++ [e]) ↔ e.begins k ∨ Running k trace ∧ ¬e.ends k := open_concat

theorem unrecovered_concat : Unrecovered (trace ++ [e]) ↔ e.failsCall ∨ Unrecovered trace ∧
    ¬e.succeedsCall := open_concat

theorem noOverlap_concat : NoOverlap (trace ++ [e]) ↔ NoOverlap trace ∧ Admits trace e := admitted_concat

theorem NoOverlap.concat (h : NoOverlap trace) (he : ∀ p, ¬e.starts p) :
    NoOverlap (trace ++ [e]) := noOverlap_concat.mpr ⟨h,fun p hp => absurd hp (he p)⟩

structure Event.Quiet (e : Event) : Prop where
  starts : ∀ p, ¬e.starts p
  begins : ∀ k, ¬e.begins k
  fails : ¬e.failsCall

theorem Safe.quiet (h : Safe w) (he : e.Quiet) : Safe { w with trace := w.trace ++ [e] } := by
  refine ⟨h.noOverlap.concat he.starts,fun k hk => ?_,h.status,fun hok hun => ?_⟩
  · exact h.running k ((running_concat.mp hk).resolve_left (he.begins k)).1
  · exact h.recovered hok ((unrecovered_concat.mp hun).resolve_left he.fails).1

theorem Held.quiet (h : Held v alive calm w) (he : e.Quiet) (halive : ∀ q ∈ alive, e.showsDead q ∨ q ∈ alive') :
    Held v alive' calm { w with trace := w.trace ++ [e] } := by
  refine ⟨h.safe.quiet he,fun q hq => ?_,fun hcalm => ⟨(h.isCalm hcalm).task,fun hun => ?_⟩,h.candidate⟩
  · obtain ⟨hold,hnot⟩ := (unproven_concat.mp hq).resolve_left (he.starts q)
    exact (halive q (h.unproven q hold)).resolve_left hnot
  · exact (h.isCalm hcalm).recovered ((unrecovered_concat.mp hun).resolve_left he.fails).1

theorem Event.quiet_alive (p : ℕ) (answer : Option Bool) : (Event.alive p answer).Quiet :=
  ⟨fun _ => id,fun _ => Event.noConfusion,id⟩

theorem Event.quiet_restart (stamp : ℚ) : (Event.restart stamp).Quiet := ⟨fun _ => id,fun _ => Event.noConfusion,id⟩

theorem Held.start (h : Held v ∅ True w) (p : ℕ) (started : Bool) :
    Held v {p} True { w with trace := w.trace ++ [.start p started] } := by
  obtain ⟨htask,hrecovered⟩ := h.isCalm trivial
  have hidle : ∀ k, ¬Running k w.trace := fun k hk => by cases htask.symm.trans (h.safe.running k hk)
  refine ⟨⟨?_,fun k hk => ?_,h.safe.status,fun hok hun => ?_⟩,fun q hq => ?_,fun _ => ⟨htask,fun hun => ?_⟩,h.candidate⟩
  · exact noOverlap_concat.mpr ⟨h.safe.noOverlap,fun _ _ => ⟨fun q hq => h.unproven q hq,hidle,hrecovered⟩⟩
  · exact absurd ((running_concat.mp hk).resolve_left Event.noConfusion).1 (hidle k)
  · exact hrecovered ((unrecovered_concat.mp hun).resolve_left id).1
  · rcases unproven_concat.mp hq with rfl | ⟨hold,-⟩
    · rfl
    · exact (h.unproven q hold).elim
  · exact hrecovered ((unrecovered_concat.mp hun).resolve_left id).1

theorem Held.setStatus (h : Held v alive calm w) {status : FailSafeStatus} (error : Option String)
    (hrunning : w.failSafeTask ≠ none → status = .running) (hok : status = .ok → ¬Unrecovered w.trace) :
    Held v alive calm { w with failSafeStatus := status, failSafeError := error } := by
  refine ⟨⟨h.safe.noOverlap,h.safe.running,hrunning,hok⟩,h.unproven,fun hcalm => ?_,h.candidate⟩
  exact ⟨(h.isCalm hcalm).task,(h.isCalm hcalm).recovered⟩

theorem Held.finished (h : Held v alive calm w) {call : ℕ} (htask : w.failSafeTask = some call) (ending : Ending) :
    Held v alive calm (w.finished call ending) := by
  refine ⟨⟨h.safe.noOverlap.concat fun _ => id,fun k hk => ?_,fun hne => absurd rfl hne,fun hok hun => ?_⟩,
    fun q hq => ?_,fun hcalm => ?_,h.candidate⟩
  · obtain ⟨hold,hends⟩ := (running_concat.mp hk).resolve_left Event.noConfusion
    cases htask.symm.trans (h.safe.running k hold)
    exact absurd rfl hends
  · have hending : ending = .ok := by
      cases ending with
      | ok => rfl
      | failed | cancelled => cases hok
    rcases unrecovered_concat.mp hun with hfails | ⟨-,hnot⟩
    · exact hfails hending
    · exact hnot hending
  · exact h.unproven q ((unproven_concat.mp hq).resolve_left id).1
  · cases htask.symm.trans (h.isCalm hcalm).task

theorem Held.createFailSafeTask (h : Held v alive calm w) (htask : w.failSafeTask = none) (attempt : ℕ) :
    Held v alive False
      { w with
        failSafeAttempts := attempt, failSafeStatus := .running, failSafeTask := some w.calls
        calls := w.calls + 1, trace := w.trace ++ [.failSafeStarted w.calls] } := by
  refine ⟨⟨h.safe.noOverlap.concat fun _ => id,fun k hk => ?_,fun _ => rfl,fun hok => ?_⟩,fun q hq => ?_,False.elim,
    h.candidate⟩
  · rcases running_concat.mp hk with hbegins | ⟨hold,-⟩
    · cases hbegins
      rfl
    · cases htask.symm.trans (h.safe.running k hold)
  · cases hok
  · exact h.unproven q ((unproven_concat.mp hq).resolve_left id).1

end Assertions

/-! ### Triples -/

def Spec {α : Type} (P : MonitorState → Prop) (x : Monitor α) (Q : α → MonitorState → Prop) : Prop :=
  Triple P x Q fun _ => Safe

theorem Held.kept {v : Candidate} {alive : Set ℕ} {calm : Prop} : Kept (Held v alive calm) fun _ => Safe where
  asked _ h := h.congr ⟨⟨rfl,rfl,rfl⟩,rfl⟩
  reported _ _ _ h := h.congr ⟨⟨rfl,rfl,rfl⟩,rfl⟩
  answered _ process answer h := h.quiet (Event.quiet_alive process answer) fun _ => .inr
  finished _ _ ending h htask := h.finished htask ending
  stopped _ h := h.safe.congr ⟨rfl,rfl,rfl⟩

theorem Safe.kept : Kept Safe fun _ => Safe where
  asked _ h := h.congr ⟨rfl,rfl,rfl⟩
  reported _ _ _ h := h.congr ⟨rfl,rfl,rfl⟩
  answered _ process answer h := h.quiet (Event.quiet_alive process answer)
  finished _ _ ending h htask := (h.held.finished htask ending).safe
  stopped _ h := h.congr ⟨rfl,rfl,rfl⟩

/-- Only the processes that stand in the relation to the candidate may be alive, and the
fail-safe is at rest. -/
def Only (R : Candidate → ℕ → Prop) (w : MonitorState) : Prop := ∃ v, Held v {q | R v q} True w

abbrev Clear : MonitorState → Prop := Only fun _ _ => False

abbrev Supervised : MonitorState → Prop := Only fun v q => v.process = some q

abbrev StartFailed : MonitorState → Prop := Only fun v q => v.startFailedProcess = some q

section Only
variable {R : Candidate → ℕ → Prop} {v : Candidate} {alive : Set ℕ} {w : MonitorState}

theorem Held.only (h : Held v alive True w) (hR : ∀ q ∈ alive, R v q) : Only R w := ⟨v,h.mono hR⟩

theorem Only.safe (h : Only R w) : Safe w := by
  obtain ⟨v,h⟩ := h
  exact h.safe

theorem Only.kept : Kept (Only R) fun _ => Safe where
  asked w := fun ⟨v,h⟩ => ⟨v,Held.kept.asked w h⟩
  reported w degraded reason := fun ⟨v,h⟩ => ⟨v,Held.kept.reported w degraded reason h⟩
  answered w process answer := fun ⟨v,h⟩ => ⟨v,Held.kept.answered w process answer h⟩
  finished w call ending := fun ⟨v,h⟩ htask => ⟨v,Held.kept.finished w call ending h htask⟩
  stopped w h := Safe.kept.stopped w h.safe

end Only

def Attempted (started : Bool) (w : MonitorState) : Prop :=
  (started = true → Supervised w) ∧ (started = false → StartFailed w)

namespace WorkerSupervisor
variable {env : ℕ → Answers} {config : SupervisorConfig} {v : Candidate} {alive : Set ℕ} {calm : Prop}

variable {f : MonitorState → MonitorState}

theorem keeps (hf : ∀ w, Same w (f w)) :
    Spec (Held v alive calm) (modify f) fun _ => Held v alive calm := .update f fun w h => h.congr (hf w)

theorem keeps_only {R : Candidate → ℕ → Prop} (hf : ∀ w, Same w (f w)) :
    Spec (Only R) (modify f) fun _ => Only R := .update f fun w ⟨v,h⟩ => ⟨v,h.congr (hf w)⟩

theorem replaces {v' : Candidate} (hf : ∀ w, Alike w (f w)) (hv : ∀ w, w.candidate = v → (f w).candidate = v') :
    Spec (Held v alive calm) (modify f) fun _ => Held v' alive calm :=
  .update f fun w h => h.replace (hf w) (hv w h.candidate)

/-! #### Waiting -/

def Settled (ended : Option Ending) (w : MonitorState) : Prop :=
  ∀ ending, ended = some ending → w.failSafeTask = none ∧ w.failSafeStatus = ending.status

theorem await_held : Spec (Held v alive calm) (await env) fun ended w => Held v alive calm w ∧ Settled ended w := by
  apply Held.kept.toFramed.await
  · exact fun w h => ⟨h,nofun⟩
  · intro w call ending h htask
    refine ⟨h.finished htask ending,?_⟩
    rintro _ ⟨⟩
    exact ⟨rfl,rfl⟩
  · exact fun _ w h => Held.kept.stopped w h.1

def Idle (v : Candidate) (alive : Set ℕ) (w : MonitorState) : Prop := Held v alive False w ∧ w.failSafeTask = none

theorem Idle.kept : Kept (Idle v alive) fun _ => Safe where
  asked w h := ⟨Held.kept.asked w h.1,h.2⟩
  reported w degraded reason h := ⟨Held.kept.reported w degraded reason h.1,h.2⟩
  answered w process answer h := ⟨Held.kept.answered w process answer h.1,h.2⟩
  finished _ _ ending h htask := ⟨h.1.finished htask ending,rfl⟩
  stopped w h := Held.kept.stopped w h.1

/-! #### Processes -/

def remaining (alive : Set ℕ) (process : ℕ) (answer : Option Bool) : Set ℕ :=
  if answer = some false then alive \ {process} else alive

theorem remaining_subset (process : ℕ) (answer : Option Bool) : remaining alive process answer ⊆ alive := by
  unfold remaining
  split
  · exact fun q hq => hq.1
  · exact subset_rfl

theorem safeIsAlive_spec (process : ℕ) : Spec (Held v alive calm) (safeIsAlive env process) fun answer =>
    Held v (remaining alive process answer) calm := by
  have hanswer : ∀ answer, Spec (Held v alive calm) (emit (.alive process answer)) fun _ =>
      Held v (remaining alive process answer) calm := by
    intro answer
    refine .update _ fun w h => h.quiet (Event.quiet_alive process answer) fun q hq => ?_
    unfold remaining
    split <;> rename_i hdead
    · by_cases hqp : q = process
      · exact .inl (by rw [Event.showsDead, hqp, hdead])
      · exact .inr ⟨hq,hqp⟩
    · exact .inr hq
  apply Triple.bind (Held.kept.ask)
  intro a
  apply Triple.seq (hanswer a.alive)
  apply Triple.seq (keeps_when (Held.kept.markDegraded _))
  exact .ret fun _ h => h

theorem terminateUnhealthyProcess_spec (process : ℕ) :
    Spec (Held v alive calm) (terminateUnhealthyProcess env process) fun contained w =>
      Held v alive calm w ∧ (contained = true → Held v (alive \ {process}) calm w) := by
  have hkill : Spec (Held v alive calm) (do
      let a ← ask env
      when a.killRaises (markDegraded .processKillFailed)
      join env) fun _ => Held v alive calm := by
    apply Triple.bind (Held.kept.ask)
    intro a
    apply Triple.seq (keeps_when (Held.kept.markDegraded _))
    exact Held.kept.join
  apply Triple.bind (Held.kept.ask)
  intro a
  apply Triple.seq (keeps_when (Held.kept.markDegraded _))
  apply Triple.seq Held.kept.join
  apply Triple.bind (safeIsAlive_spec process)
  intro answer
  -- only the second answer is used
  refine .weaken ?_ fun w (h : Held v _ calm w) => h.mono (remaining_subset process answer)
  apply Triple.seq (keeps_when hkill)
  apply Triple.seq Held.kept.safeExitcode
  apply Triple.bind (safeIsAlive_spec process)
  intro answer
  refine .cond (fun _ => ?_) fun hdead => .ret fun w h => ?_
  · apply Triple.seq (Held.kept.setReason _ _)
    exact .ret fun w h => ⟨h.mono (remaining_subset process answer),Bool.noConfusion⟩
  · rw [not_ne_iff.mp hdead] at h
    exact ⟨h.mono (remaining_subset process _),fun _ => h⟩

/-- A start ends with a supervised process or with one that is known to have failed. -/
theorem startCandidate_spec (process : ℕ) (readyEvent heartbeat : Bool) :
    Spec (Held v ∅ True) (startCandidate env process readyEvent heartbeat) Attempted := by
  have hcandidate : Spec (Held v ∅ True) (modify fun w => { w with
      process := some process, readyEvent := readyEvent, heartbeat := heartbeat }) fun _ =>
      Held ⟨some process,v.startFailedProcess⟩ ∅ True := replaces (fun _ => ⟨rfl,rfl,rfl⟩) fun w hw => by rw [← hw]; rfl
  have hstart : ∀ v started, Spec (Held v ∅ True) (emit (.start process started)) fun _ => Held v {process} True :=
    fun _ started => .update _ fun w h => h.start process started
  apply Triple.seq hcandidate
  apply Triple.bind (Held.kept.ask)
  intro a
  apply Triple.seq (hstart _ _)
  refine .cond (fun _ => ?_) fun _ => ?_
  · -- the start raised: the process is asked whether it is alive all the same
    have hfailed : ∀ v₀ : Option ℕ, Spec (Held ⟨some process,v₀⟩ {process} True) (modify fun w => { w with
        startFailedProcess := some process }) fun _ => Held ⟨some process,some process⟩ {process} True := fun v₀ =>
      replaces (fun _ => ⟨rfl,rfl,rfl⟩) fun w hw => congrArg (Candidate.mk · (some process))
        (congrArg Candidate.process hw)
    apply Triple.seq (hfailed _)
    apply Triple.bind (safeIsAlive_spec process)
    intro answer
    refine .seq (keeps fun _ => ⟨⟨rfl,rfl,rfl⟩,rfl⟩) ?_
    apply Triple.seq (Held.kept.markDegraded _)
    refine .ret fun w h => ⟨Bool.noConfusion,fun _ => h.only fun q hq => ?_⟩
    rw [remaining_subset process answer hq]
  · refine .seq (keeps fun _ => ⟨⟨rfl,rfl,rfl⟩,rfl⟩) ?_
    apply Triple.seq (Held.kept.setReason _ _)
    apply Triple.seq (keeps_when (Held.kept.markDegraded _))
    refine .ret fun w h => ?_
    exact ⟨fun _ => h.only fun q hq => by rw [hq],Bool.noConfusion⟩

theorem startProcess_spec : Spec Clear (startProcess env) Attempted := by
  refine startProcess_of (R := fun w => ∃ v, Held v ∅ True w) ?_ ?_ ?_ ?_ fun process readyEvent heartbeat =>
    .ex fun _ =>
    startCandidate_spec process readyEvent heartbeat
  · rintro w ⟨v,h⟩
    have hreset : Alike w { w with startFailedProcess := none, startFailedLiveness := none } := ⟨rfl,rfl,rfl⟩
    exact ⟨_,(h.mono fun _ hq => False.elim hq).replace hreset rfl⟩
  · exact ⟨fun w ⟨v,h⟩ => ⟨v,Held.kept.asked w h⟩,fun w degraded reason ⟨v,h⟩ =>
      ⟨v,Held.kept.reported w degraded reason h⟩⟩
  · exact fun w ⟨_,h⟩ => h.safe
  · exact fun w ⟨_,h⟩ => ⟨Bool.noConfusion,fun _ => h.only fun q hq => hq.elim⟩

/-! #### The fail-safe -/

/-- The attempts of the fail-safe leave the processes as they are. -/
theorem failSafeAttempts_spec (attempt left : ℕ) :
    Spec (Idle v alive) (failSafeAttempts env config attempt left) fun _ => Held v alive False := by
  induction left generalizing attempt with
  | zero => exact .ret fun w h => h.1
  | succ _ ih =>
    have hcreate : Spec (Idle v alive) (createFailSafeTask attempt) fun _ => Held v alive False :=
      .update _ fun w h => h.1.createFailSafeTask h.2 attempt
    apply Triple.seq hcreate
    apply Triple.bind await_held
    intro ended
    match ended with
    | none => exact .update _ fun w h => h.1.setStatus _ (fun _ => rfl) nofun
    | some .ok =>
      refine .update _ fun w h => ?_
      obtain ⟨htask,hstatus⟩ := h.2 _ rfl
      exact h.1.setStatus _ (fun hne => absurd htask hne) fun _ => h.1.safe.recovered hstatus
    | some (.failed error) =>
      have hset : Spec (fun w => Held v alive False w ∧ Settled (some (.failed error)) w)
        (setFailSafe .failed (some error))
          fun _ => Idle v alive := by
        refine .update _ fun w h => ?_
        obtain ⟨htask,-⟩ := h.2 _ rfl
        exact ⟨h.1.setStatus _ (fun hne => absurd htask hne) nofun,htask⟩
      apply Triple.seq hset
      apply Triple.seq (keeps_when Idle.kept.sleep)
      exact ih (attempt + 1)
    | some .cancelled => exact .raise fun w h => h.1.safe

theorem invokeFailSafeSafely_spec : Spec (Held v alive calm) (invokeFailSafeSafely env config) fun _ =>
    Held v alive False := by
  refine .read fun w h => .cond (fun _ => ?_) fun hnone => ?_
  · refine .here h ?_
    apply Triple.bind await_held
    intro ended
    refine .when (fun _ => .update _ fun w h => ?_) fun w _ h => h.1.restless
    exact h.1.restless.setStatus _ (fun _ => rfl) nofun
  · exact .here ⟨h.restless,Option.not_isSome_iff_eq_none.mp hnone⟩ (failSafeAttempts_spec _ _)

theorem invokeFailSafeSafely_safe : Spec Safe (invokeFailSafeSafely env config) fun _ => Safe := fun w h =>
  (invokeFailSafeSafely_spec.conseq (fun _ h => h) (fun _ _ h => h.safe) fun _ _ h => h : Spec _ _ _) w h.held

theorem waitForFailSafeBeforeRestart_spec : Spec (Held v alive False) (waitForFailSafeBeforeRestart env)
    fun allowed w =>
    Safe w ∧ (allowed = true → Held v alive True w) := by
  have hok : ∀ w, Held v alive False w → w.failSafeTask = none → w.failSafeStatus = .ok → Held v alive True w :=
    fun w h htask hstatus => ⟨h.safe,h.unproven,fun _ => ⟨htask,h.safe.recovered hstatus⟩,h.candidate⟩
  refine .read fun w h => .cond (fun _ => ?_) fun hnone => ?_
  · refine .here h ?_
    apply Triple.bind await_held
    intro ended
    match ended with
    | none | some .cancelled => exact .raise fun w h => h.1.safe
    | some .ok =>
      refine .read fun w h => .ret ?_
      rintro _ rfl
      obtain ⟨htask,hstatus⟩ := h.2 _ rfl
      exact ⟨h.1.safe,fun _ => hok _ h.1 htask hstatus⟩
    | some (.failed _) => exact .ret fun w h => ⟨h.1.safe,Bool.noConfusion⟩
  · refine .read ?_
    rintro _ rfl
    refine .ret ?_
    rintro _ rfl
    exact ⟨h.safe,fun hstatus => hok _ h (Option.not_isSome_iff_eq_none.mp hnone) (of_decide_eq_true hstatus)⟩

/-! #### Restarts -/

theorem containStartFailedProcess_spec : Spec StartFailed (containStartFailedProcess env) fun allowed w =>
    Safe w ∧ (allowed = true → Clear w) := by
  refine .ex fun v => .read fun w h => ?_
  have hprocess : w.startFailedProcess = v.startFailedProcess := congrArg Candidate.startFailedProcess h.candidate
  split <;> rename_i hfailed
  · refine .here h (.ret fun w h => ⟨h.safe,fun _ => h.only fun q hq => ?_⟩)
    cases (hfailed.symm.trans hprocess).trans hq
  · rename_i process
    have hempty : {q | v.startFailedProcess = some q} \ {process} ⊆ ∅ := by
      rintro q ⟨hq,hne⟩
      exact hne (Option.some.inj ((hfailed.symm.trans hprocess).trans hq)).symm
    refine .here h ?_
    apply Triple.bind (terminateUnhealthyProcess_spec process)
    intro contained
    refine .bind (.when (R := fun _ w => Safe w ∧ (contained = true → Clear w))
      (fun hcontained => .update _ fun w h => ?_) ?_)
      fun _ => .ret fun w h => ⟨h.1,fun hallowed => h.2 (of_decide_eq_true hallowed).1⟩
    · have hcleared := (h.2 hcontained).mono hempty
      have hreset : Alike w { w with startFailedProcess := none, startFailedLiveness := none } := ⟨rfl,rfl,rfl⟩
      exact ⟨hcleared.safe.congr hreset,fun _ => (hcleared.replace hreset rfl).only fun _ => id⟩
    · exact fun w hnot h => ⟨h.1.safe,fun hcontained => absurd hcontained hnot⟩

theorem recoverFromFailedStart_spec : Spec StartFailed (recoverFromFailedStart env config) (Branch Clear Safe) := by
  refine .read fun w h => .cond (fun _ => ?_) fun hnone => ?_
  · refine .here h ?_
    apply Triple.bind containStartFailedProcess_spec
    intro allowed
    refine .cond (fun hallowed => ?_) fun _ => .weaken ?_ fun w h => h.1
    · exact .ret fun w h => ⟨fun _ => h.2 hallowed,fun _ => h.1⟩
    · apply Triple.seq (.read fun w h => .here h (keeps_when invokeFailSafeSafely_safe))
      exact branch_false
  · obtain ⟨v,h⟩ := h
    have hprocess : w.startFailedProcess = v.startFailedProcess := congrArg Candidate.startFailedProcess h.candidate
    refine .here h (.ret fun w h => ⟨fun _ => h.only fun q hq => ?_,fun _ => h.safe⟩)
    rw [hprocess, hq] at hnone
    exact hnone rfl

/-- What holds after a part of the loop that returns whether the loop goes on. -/
def Continues (proceed : Bool) (w : MonitorState) : Prop := Safe w ∧ (proceed = true → Supervised w)

theorem restartUntilStarted_spec (incident : Option Incident) (failSafeOnExhaustion : Bool) (fuel : ℕ) :
    Spec Clear (restartUntilStarted env config incident failSafeOnExhaustion fuel) Continues := by
  refine (restartUntilStarted_of Only.kept Only.kept.toFramed (fun _ h => h.safe) (fun _ h _ => h.safe) ?_ ?_ ?_
    startProcess_spec recoverFromFailedStart_spec fuel).conseq (fun _ h => h) ?_ fun _ _ h => h
  · exact fun w _ _ ⟨v,h⟩ => ⟨v,h.congr ⟨⟨rfl,rfl,rfl⟩,rfl⟩⟩
  · exact fun w stamp ⟨v,h⟩ => ⟨v,h.quiet (Event.quiet_restart stamp) fun _ => .inr⟩
  · exact .weaken (keeps_when invokeFailSafeSafely_safe) fun _ h => h.safe
  · rintro (_ | _) w h
    · exact ⟨h.2 rfl,Bool.noConfusion⟩
    · exact ⟨(h.1 rfl).safe,h.1⟩

/-! #### The monitor -/

theorem empty_of_terminated {process : ℕ} : ({process} \ {process} : Set ℕ) ⊆ ∅ := fun _ hq => hq.2 hq.1

def supervisionCourse : Course env config fun _ => Safe where
  watched process := Only fun v q => v.process = process ∧ process = some q
  vacant _ := Clear
  called process w := ∃ v, Held v {process} False w
  terminated w := ∃ v, Held v ∅ False w
  up := Supervised
  unstarted := StartFailed
  caught := Safe
  covered := Safe
  ended := Safe
  watching _ := Only.kept
  vacating := Only.kept
  waiting := Only.kept
  catching := Safe.kept.toFramed
  covering := Safe.kept
  ending := Safe.kept.toFramed
  invoked process := .ex fun v => invokeFailSafeSafely_spec.conseq
    (fun _ h => h.mono fun q hq => (Option.some.inj hq.2).symm) (fun _ _ h => ⟨v,h⟩) fun _ _ h => h
  contained process := .ex fun v => (terminateUnhealthyProcess_spec process).conseq (fun _ h => h)
    (fun _ _ h => ⟨fun hcontained => ⟨v,(h.2 hcontained).mono empty_of_terminated⟩,fun _ => h.1.safe⟩) fun _ _ h => h
  waited := .ex fun v => waitForFailSafeBeforeRestart_spec.conseq (fun _ h => h)
    (fun _ _ h => ⟨fun hallowed => (h.2 hallowed).only fun _ => id,fun _ => h.1⟩) fun _ _ h => h
  restarted incident b fuel := (restartUntilStarted_spec incident b fuel).conseq (fun _ h => h)
    (fun _ _ h => ⟨h.2,fun _ => h.1⟩) fun _ _ h => h
  answered process := .ex fun v => (safeIsAlive_spec process).conseq (fun _ h => h)
    (fun answer _ h => ⟨⟨v,h.mono (remaining_subset process answer)⟩,fun hdead => by
      rw [hdead] at h
      exact h.only fun q hq => hq.2 (Option.some.inj hq.1.2).symm⟩) fun _ _ h => h
  started := startProcess_spec
  slept := Only.kept.sleep
  recovered := recoverFromFailedStart_spec
  saved := invokeFailSafeSafely_safe
  watched_of_up _ := fun ⟨v,h⟩ => ⟨v,h.mono fun _ hq =>
    ⟨(congrArg Candidate.process h.candidate).symm,(congrArg Candidate.process h.candidate).trans hq⟩⟩
  up_of_watched _ _ := fun ⟨v,h⟩ => ⟨v,h.mono fun _ hq => hq.1.trans hq.2⟩
  vacant_of_watched _ := fun ⟨_,h⟩ => h.only fun q hq => absurd hq.2 (Option.some_ne_none q).symm
  ended_of_terminated _ := fun ⟨_,h⟩ => h.safe
  ended_of_covered _ h := h
  ended_of_stopping _ h _ := h.safe
  unfinished _ h := h.safe
  caught_of_raised _ h := h

theorem start_spec (fuel : ℕ) : Spec Clear (start env config fuel) fun _ => Safe :=
  supervisionCourse.start fuel (keeps_only fun _ => ⟨⟨rfl,rfl,rfl⟩,rfl⟩)

end WorkerSupervisor

/-- In every run of the supervisor from a call of `start` when no fail-safe call is running,
whatever the outside answers, a process is started only after every process before it
has been seen dead since its start, never while a fail-safe call is running, and never
after one has failed without another one succeeding. -/
theorem workers_never_overlap (s : Supervisor) (hidle : s.failSafeTask = none) (env : ℕ → Answers)
    (config : SupervisorConfig) (fuel : ℕ) : NoOverlap (s.run env config fuel).2.trace := by
  have hstart : Clear { s with } := by
    refine ⟨_,⟨admitted_nil,fun k hk => absurd hk not_open_nil,fun hne => absurd hidle hne,fun _ => not_open_nil⟩,?_,
      ?_,rfl⟩
    · exact fun q hq => absurd hq not_open_nil
    · exact fun _ => ⟨hidle,not_open_nil⟩
  have hspec : Spec Clear (WorkerSupervisor.start env config fuel) fun _ => Safe := WorkerSupervisor.start_spec fuel
  have hrun := hspec _ hstart
  unfold Supervisor.run
  split at hrun <;> rename_i hresult
  · rw [hresult]
    exact hrun.noOverlap
  · rw [hresult]
    exact hrun.noOverlap

/-- The heartbeat of the first worker is stale, and the fail-safe ends after its timeout. -/
def staleHeartbeat : ℕ → Answers
  | 0 => { created := .quadruple 1 true true }
  | 13 | 15 => { alive := some false }
  | 16 => { ending := some .ok }
  | 20 => { created := .quadruple 2 true true }
  | 22 => { stop := true }
  | _ => {}

theorem stale_worker_replaced :
    let result := ({} : Supervisor).run staleHeartbeat {} 2
    result.1 = .error .cancelled ∧
    result.2.trace = [.start 1 true, .alive 1 (some true), .alive 1 (some true), .failSafeStarted 0,
      .alive 1 (some false), .alive 1 (some false), .failSafeEnded 0 .ok, .restart 0, .start 2 true] ∧
    NoOverlap result.2.trace := ⟨by decide +kernel,by decide +kernel,workers_never_overlap {} rfl staleHeartbeat {} 2⟩

end OpenPine.Gateway
