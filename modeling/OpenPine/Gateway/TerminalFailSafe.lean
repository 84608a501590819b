import Mathlib.Data.List.Induction
import OpenPine.Foundation.Traces
import OpenPine.Gateway.Course

/-! # The fail-safe at the end of the supervision

When the monitor returns, the fail-safe should have been called for the incident that
ended the supervision. The status of the fail-safe is never reset, so a process that did
not start and cannot be contained ends the supervision without a call if an earlier
incident left the status `ok`. Apart from that case a call always comes after the last
process that was started.
-/
namespace OpenPine.Gateway
open Hoare Traces List

/-! ### What the trace says -/

def Event.invokes : Event → Bool
  | .failSafeStarted _ => true
  | _ => false

def Event.succeeds : Event → Bool
  | .start _ true => true
  | _ => false

/-- The fail-safe has been called, and no process has been started since. -/
abbrev Covered (trace : List Event) : Prop := Open (fun e : Event => e.invokes = true)
    (fun e => e.succeeds = true) trace

def FailSafeStatus.next (status : FailSafeStatus) : Event → FailSafeStatus
  | .failSafeStarted _ => .running
  | .failSafeEnded _ ending => ending.status
  | _ => status

def FailSafeStatus.after (status : FailSafeStatus) (trace : List Event) : FailSafeStatus := trace.foldl next status

/-- A process that does not start while the success of an earlier incident stands is seen dead
right after the attempt and again after its termination. -/
def Contained (status : FailSafeStatus) (trace : List Event) : Prop :=
  ∀ before process after, trace = before ++ .start process false :: after → status.after before = .ok → Covered before ∨
    ∃ answer rest, after = .alive process (some false) :: .alive process answer :: .alive process (some false) :: rest

section Traces
variable {status : FailSafeStatus} {trace : List Event} {e : Event} {before : List Event}

theorem covered_concat : Covered (trace ++ [e]) ↔ e.invokes = true ∨ Covered trace ∧ ¬e.succeeds = true := open_concat

theorem Covered.concat (h : Covered trace) (he : e.succeeds = false) : Covered (trace ++ [e]) :=
  covered_concat.mpr (.inr ⟨h,Bool.eq_false_iff.mp he⟩)

theorem FailSafeStatus.after_concat (status : FailSafeStatus) (trace : List Event) (e : Event) :
    status.after (trace ++ [e]) = (status.after trace).next e := by
  rw [FailSafeStatus.after, foldl_append]
  rfl

theorem contained_nil : Contained status [] := fun _ _ _ h =>
  absurd h.symm (append_ne_nil_of_right_ne_nil _ (cons_ne_nil _ _))

theorem Contained.concat (h : Contained status trace) (he : ∀ process, e ≠ .start process false) :
    Contained status (trace ++ [e]) := by
  intro before process after htrace hok
  rcases eq_concat htrace with ⟨-,rfl,-⟩ | ⟨rest,rfl,hrest⟩
  · exact absurd rfl (he process)
  · rcases h before process rest hrest hok with hcovered | ⟨answer,rest,rfl⟩
    · exact .inl hcovered
    · exact .inr ⟨answer,rest ++ [e],rfl⟩

/-- A failed start after a success must be covered, or seen dead at once and at the end. -/
theorem Contained.attempt (h : Contained status before) (process : ℕ) (a₀ a₁ a₂ : Option Bool) :
    Contained status (before ++ .start process false :: [a₀, a₁, a₂].map (.alive process)) ↔
      (status.after before = .ok → Covered before ∨ a₀ = some false ∧ a₂ = some false) := by
  constructor
  · intro hall hok
    rcases hall before process _ rfl hok with hcovered | ⟨answer,rest,hafter⟩
    · exact .inl hcovered
    · cases hafter
      exact .inr ⟨rfl,rfl⟩
  · intro hnew before' process' after' htrace hok
    have hhere : status.after before = .ok → Covered before ∨ ∃ answer rest, [a₀, a₁, a₂].map (Event.alive process) =
        .alive process (some false) :: .alive process answer :: .alive process (some false) :: rest := by
      intro hok
      rcases hnew hok with hcovered | ⟨rfl,rfl⟩
      · exact .inl hcovered
      · exact .inr ⟨a₁,[],rfl⟩
    rcases append_eq_append_iff.mp htrace with ⟨_ | ⟨e,between⟩,rfl,hafter⟩ | ⟨_ | ⟨e,between⟩,rfl,hafter⟩
    · cases hafter
      rw [append_nil] at hok ⊢
      exact hhere hok
    · -- among the answers there is no attempt
      obtain ⟨-,hanswers⟩ := List.cons.inj hafter
      have hmem : Event.start process' false ∈ [a₀, a₁, a₂].map (Event.alive process) := by
        rw [hanswers]
        exact mem_append_right _ mem_cons_self
      obtain ⟨answer,-,hanswer⟩ := mem_map.mp hmem
      cases hanswer
    · cases hafter
      rw [append_nil] at hhere
      exact hhere hok
    · cases hafter
      rcases h before' process' between rfl hok with hcovered | ⟨answer,rest,rfl⟩
      · exact .inl hcovered
      · exact .inr ⟨answer,_,rfl⟩

theorem Covered.attempt (process : ℕ) (answers : List (Option Bool)) :
    Covered (before ++ .start process false :: answers.map (.alive process)) ↔ Covered before := by
  induction answers using List.reverseRecOn with
  | nil =>
    rw [map_nil, covered_concat]
    simp [Event.invokes, Event.succeeds]
  | append_singleton answers answer ih =>
    rw [map_append, ← cons_append, ← append_assoc, map_singleton, covered_concat, ih]
    simp [Event.invokes, Event.succeeds]

end Traces

/-! ### Assertions -/

/-- The status is the one that the trace tells, and a call that is running belongs to the
process that was started last. -/
structure Guarded (initial : FailSafeStatus) (w : MonitorState) : Prop where
  active : w.stopping = false
  status : w.failSafeStatus = initial.after w.trace
  running : w.failSafeTask ≠ none → w.failSafeStatus = .running
  covered : w.failSafeTask ≠ none → Covered w.trace
  contained : Contained initial w.trace

/-- No call is running, and if `known` holds there was one for the current incident. -/
structure Resting (initial : FailSafeStatus) (known : Prop) (w : MonitorState) : Prop extends Guarded initial w where
  idle : w.failSafeTask = none
  called : known → Covered w.trace

structure Shielded (initial : FailSafeStatus) (w : MonitorState) : Prop extends Guarded initial w where
  called : Covered w.trace

/-- A process did not start after the events `before`, and it gave the answers since. -/
structure Observed (initial : FailSafeStatus) (known : Prop) (before : List Event) (process : ℕ)
    (failed : Option ℕ) (answers : List (Option Bool)) (w : MonitorState) : Prop where
  active : w.stopping = false
  status : w.failSafeStatus = initial.after before
  idle : w.failSafeTask = none
  called : known → Covered before
  contained : Contained initial before
  failed : w.startFailedProcess = failed
  trace : w.trace = before ++ .start process false :: answers.map (.alive process)

/-- The supervision may end: there was a call, unless a process was not contained. -/
def Decided (initial : FailSafeStatus) (w : MonitorState) : Prop := Covered w.trace ↔ Contained initial w.trace

abbrev Excepted (initial : FailSafeStatus) (e : Exit) (w : MonitorState) : Prop := e = .exception → Guarded initial w

section Assertions
variable {initial : FailSafeStatus} {known : Prop} {w w' : MonitorState}

theorem Shielded.decided (h : Shielded initial w) : Decided initial w := ⟨fun _ => h.contained,fun _ => h.called⟩

theorem Resting.unknown (h : Resting initial False w) : Resting initial (true = false) w :=
  ⟨h.toGuarded,h.idle,Bool.noConfusion⟩

structure Agree (w w' : MonitorState) : Prop where
  stopping : w'.stopping = w.stopping
  status : w'.failSafeStatus = w.failSafeStatus
  task : w'.failSafeTask = w.failSafeTask
  trace : w'.trace = w.trace

section
variable (h : Guarded initial w)
include h

theorem Guarded.congr (hw : Agree w w') : Guarded initial w' := by
  refine ⟨hw.stopping.trans h.active,?_,?_,?_,?_⟩
  · rw [hw.status, hw.trace]
    exact h.status
  · rw [hw.task, hw.status]
    exact h.running
  · rw [hw.task, hw.trace]
    exact h.covered
  · rw [hw.trace]
    exact h.contained

theorem Guarded.emit {e : Event} (hnext : (initial.after w.trace).next e = initial.after w.trace)
    (hstart : ∀ process, e ≠ .start process false) (hsucceeds : w.failSafeTask ≠ none → e.succeeds = false) :
    Guarded initial { w with trace := w.trace ++ [e] } := by
  refine ⟨h.active,?_,h.running,?_,h.contained.concat hstart⟩
  · rw [FailSafeStatus.after_concat, hnext]
    exact h.status
  · exact fun htask => (h.covered htask).concat (hsucceeds htask)

theorem Guarded.finished (call : ℕ) (ending : Ending) : Guarded initial (w.finished call ending) := by
  refine ⟨h.active,?_,fun hne => absurd rfl hne,fun hne => absurd rfl hne,h.contained.concat fun _ => Event.noConfusion⟩
  exact (FailSafeStatus.after_concat initial w.trace (.failSafeEnded call ending)).symm

theorem Guarded.createFailSafeTask (attempt : ℕ) : Shielded initial
      { w with
        failSafeAttempts := attempt, failSafeStatus := .running, failSafeTask := some w.calls
        calls := w.calls + 1, trace := w.trace ++ [.failSafeStarted w.calls] } := by
  have hcovered : Covered (w.trace ++ [.failSafeStarted w.calls]) := covered_concat.mpr (.inl rfl)
  refine ⟨⟨h.active,?_,fun _ => rfl,fun _ => hcovered,h.contained.concat fun _ => Event.noConfusion⟩,hcovered⟩
  exact (FailSafeStatus.after_concat initial w.trace (.failSafeStarted w.calls)).symm

end

theorem Guarded.kept : Kept (Guarded initial) (Excepted initial) where
  asked _ h := h.congr ⟨rfl,rfl,rfl,rfl⟩
  reported _ _ _ h := h.congr ⟨rfl,rfl,rfl,rfl⟩
  answered _ _ _ h := h.emit rfl (fun _ => Event.noConfusion) fun _ => rfl
  finished _ call ending h _ := h.finished call ending
  stopped _ _ := Exit.noConfusion

theorem Resting.kept : Kept (Resting initial known) (Excepted initial) where
  asked w h := ⟨Guarded.kept.asked w h.toGuarded,h.idle,h.called⟩
  reported w degraded reason h := ⟨Guarded.kept.reported w degraded reason h.toGuarded,h.idle,h.called⟩
  answered w process answer h :=
    ⟨Guarded.kept.answered w process answer h.toGuarded,h.idle,fun hk => (h.called hk).concat rfl⟩
  finished _ call ending h _ := ⟨h.toGuarded.finished call ending,rfl,fun hk => (h.called hk).concat rfl⟩
  stopped _ _ := Exit.noConfusion

theorem Shielded.kept : Kept (Shielded initial) (Excepted initial) where
  asked w h := ⟨Guarded.kept.asked w h.toGuarded,h.called⟩
  reported w degraded reason h := ⟨Guarded.kept.reported w degraded reason h.toGuarded,h.called⟩
  answered w process answer h := ⟨Guarded.kept.answered w process answer h.toGuarded,h.called.concat rfl⟩
  finished _ call ending h _ := ⟨h.toGuarded.finished call ending,h.called.concat rfl⟩
  stopped _ _ := Exit.noConfusion

end Assertions

namespace WorkerSupervisor
variable {env : ℕ → Answers} {config : SupervisorConfig} {initial : FailSafeStatus} {known : Prop}

/-! ### The fail-safe -/

/-- A call of the fail-safe is running, or it has ended as the answer says. -/
def Awaited (initial : FailSafeStatus) (ended : Option Ending) (w : MonitorState) : Prop :=
  Shielded initial w ∧ match ended with
    | none => w.failSafeTask ≠ none
    | some ending => w.failSafeTask = none ∧ w.failSafeStatus = ending.status

theorem await_called : Triple (Awaited initial none) (await env) (Awaited initial) (Excepted initial) := by
  have hframed : Framed (Awaited initial none) :=
    ⟨fun w h => ⟨Shielded.kept.asked w h.1,h.2⟩,fun w degraded reason h =>
      ⟨Shielded.kept.reported w degraded reason h.1,h.2⟩⟩
  apply hframed.await
  · exact fun _ h => h
  · exact fun w call ending h htask => ⟨Shielded.kept.finished w call ending h.1 htask,rfl,rfl⟩
  · exact fun _ _ _ => Exit.noConfusion

theorem setFailSafe_shielded (status : FailSafeStatus) (error : Option String) :
    Triple (fun w => Shielded initial w ∧ w.failSafeStatus = status) (setFailSafe status error)
      (fun _ => Shielded initial) (Excepted initial) := by
  apply Triple.update
  rintro w ⟨h,rfl⟩
  exact ⟨h.toGuarded.congr ⟨rfl,rfl,rfl,rfl⟩,h.called⟩

theorem failSafeAttempts_shielded (attempt left : ℕ) :
    Triple (fun w => Guarded initial w ∧ (left = 0 → Covered w.trace)) (failSafeAttempts env config attempt left)
      (fun _ => Shielded initial) (Excepted initial) := by
  induction left generalizing attempt with
  | zero => exact .ret fun w h => ⟨h.1,h.2 rfl⟩
  | succ left ih =>
    have hcreate : Triple (fun w => Guarded initial w ∧ (left + 1 = 0 → Covered w.trace)) (createFailSafeTask attempt)
        (fun _ => Awaited initial none) (Excepted initial) :=
      .update _ fun w h => ⟨h.1.createFailSafeTask attempt,Option.some_ne_none _⟩
    apply Triple.seq hcreate
    apply Triple.bind await_called
    intro ended
    match ended with
    | none => exact (setFailSafe_shielded _ _).weaken fun w h => ⟨h.1,h.1.running h.2⟩
    | some .ok => exact (setFailSafe_shielded _ _).weaken fun w h => ⟨h.1,h.2.2⟩
    | some (.failed error) =>
      apply Triple.seq ((setFailSafe_shielded _ _).weaken fun w h => ⟨h.1,h.2.2⟩)
      apply Triple.seq (keeps_when Shielded.kept.sleep)
      exact (ih (attempt + 1)).weaken fun w h => ⟨h.toGuarded,fun _ => h.called⟩
    | some .cancelled => exact .raise fun _ _ => Exit.noConfusion

theorem invokeFailSafeSafely_shielded :
    Triple (Guarded initial) (invokeFailSafeSafely env config) (fun _ => Shielded initial) (Excepted initial) := by
  refine .read fun w h => .cond (fun hsome => ?_) fun _ => ?_
  · have htask : w.failSafeTask ≠ none := Option.isSome_iff_ne_none.mp hsome
    refine .here (P := Awaited initial none) ⟨⟨h,h.covered htask⟩,htask⟩ ?_
    apply Triple.bind await_called
    intro ended
    match ended with
    | none =>
      refine .when (fun _ => (setFailSafe_shielded _ _).weaken ?_) fun _ _ h => h.1
      exact fun w h => ⟨h.1,h.1.running h.2⟩
    | some ending => exact .when (fun hnone => Bool.noConfusion hnone) fun _ _ h => h.1
  · refine .here h ((failSafeAttempts_shielded 1 _).weaken fun w h => ⟨h,fun hzero => ?_⟩)
    exact absurd hzero config.attempts_pos.ne'

theorem waitForFailSafeBeforeRestart_resting : Triple (Shielded initial) (waitForFailSafeBeforeRestart env)
      (fun allowed w => Shielded initial w ∧ (allowed = true → Resting initial True w)) (Excepted initial) := by
  have hrest : ∀ w, Shielded initial w → w.failSafeTask = none → Resting initial True w :=
    fun w h htask => ⟨h.toGuarded,htask,fun _ => h.called⟩
  refine .read fun w h => .cond (fun hsome => ?_) fun hnone => ?_
  · refine .here (P := Awaited initial none) ⟨h,Option.isSome_iff_ne_none.mp hsome⟩ ?_
    apply Triple.bind await_called
    intro ended
    match ended with
    | none | some .cancelled => exact .raise fun _ _ => Exit.noConfusion
    | some .ok => exact .read fun w h => .here h (.ret fun w h => ⟨h.1,fun _ => hrest w h.1 h.2.1⟩)
    | some (.failed _) => exact .ret fun w h => ⟨h.1,Bool.noConfusion⟩
  · refine .read ?_
    rintro _ rfl
    refine .ret ?_
    rintro _ rfl
    exact ⟨h,fun _ => hrest _ h (Option.not_isSome_iff_eq_none.mp hnone)⟩

/-! ### Processes that do not start -/

section Observed
variable {before : List Event} {process : ℕ} {failed : Option ℕ} {answers : List (Option Bool)}

theorem observed_framed : Framed (Observed initial known before process failed answers) :=
  ⟨fun _ h => ⟨h.active,h.status,h.idle,h.called,h.contained,h.failed,h.trace⟩,
    fun _ _ _ h => ⟨h.active,h.status,h.idle,h.called,h.contained,h.failed,h.trace⟩⟩

theorem join_observed : Maintains (Observed initial known before process failed answers) (join env)
    (Excepted initial) := by
  apply Triple.seq (observed_framed.sleep (fun _ h => h.idle) fun _ _ => Exit.noConfusion)
  apply Triple.bind observed_framed.ask
  intro a
  exact keeps_when (observed_framed.markDegraded _)

theorem safeIsAlive_observed : Triple (Observed initial known before process failed answers) (safeIsAlive env process)
    (fun answer => Observed initial known before process failed (answers ++ [answer])) (Excepted initial) := by
  have hanswer : ∀ answer, Triple (Observed initial known before process failed answers) (emit (.alive process answer))
      (fun _ => Observed initial known before process failed (answers ++ [answer])) (Excepted initial) := by
    intro answer
    refine .update _ fun w h => ⟨h.active,h.status,h.idle,h.called,h.contained,h.failed,?_⟩
    rw [h.trace, append_assoc, cons_append, map_append]
    rfl
  apply Triple.bind observed_framed.ask
  intro a
  apply Triple.seq (hanswer a.alive)
  apply Triple.seq (keeps_when (observed_framed.markDegraded _))
  exact .ret fun _ h => h

theorem terminateUnhealthyProcess_observed :
    Triple (Observed initial known before process failed answers) (terminateUnhealthyProcess env process)
      (fun contained w => ∃ a₁ a₂, Observed initial known before process failed (answers ++ [a₁] ++ [a₂]) w ∧
        (contained = true ↔ a₂ = some false)) (Excepted initial) := by
  have hkill : ∀ answers, Maintains (Observed initial known before process failed answers) (do
      let a ← ask env
      when a.killRaises (markDegraded .processKillFailed)
      join env) (Excepted initial) := by
    intro answers
    apply Triple.bind observed_framed.ask
    intro a
    apply Triple.seq (keeps_when (observed_framed.markDegraded _))
    exact join_observed
  have hexit : ∀ answers, Maintains (Observed initial known before process failed answers) (safeExitcode env)
    (Excepted initial) := by
    intro answers
    apply Triple.bind observed_framed.ask
    intro a
    exact keeps_when (observed_framed.markDegraded _)
  apply Triple.bind observed_framed.ask
  intro a
  apply Triple.seq (keeps_when (observed_framed.markDegraded _))
  apply Triple.seq join_observed
  apply Triple.bind safeIsAlive_observed
  intro a₁
  apply Triple.seq (keeps_when (hkill _))
  apply Triple.seq (hexit _)
  apply Triple.bind safeIsAlive_observed
  intro a₂
  refine .cond (fun halive => ?_) fun hdead => ?_
  · apply Triple.seq (observed_framed.setReason _ _)
    exact .ret fun w h => ⟨a₁,a₂,h,Bool.noConfusion,fun hdead => absurd hdead halive⟩
  · exact .ret fun w h => ⟨a₁,a₂,h,fun _ => not_ne_iff.mp hdead,fun _ => rfl⟩

end Observed

def Failed (initial : FailSafeStatus) (known : Prop) (w : MonitorState) : Prop :=
  (w.startFailedProcess = none ∧ Resting initial known w) ∨
  ∃ before process answer, Observed initial known before process (some process) [answer] w ∧
    w.startFailedLiveness = answer

def Tried (initial : FailSafeStatus) (known : Prop) (started : Bool) (w : MonitorState) : Prop :=
  (started = true → Resting initial False w) ∧ (started = false → Failed initial known w)

theorem failed_framed : Framed (Failed initial known) where
  asked w h := by
    rcases h with ⟨hnone,h⟩ | ⟨before,process,answer,h,hanswer⟩
    · exact .inl ⟨hnone,Resting.kept.asked w h⟩
    · exact .inr ⟨before,process,answer,observed_framed.asked w h,hanswer⟩
  reported w degraded reason h := by
    rcases h with ⟨hnone,h⟩ | ⟨before,process,answer,h,hanswer⟩
    · exact .inl ⟨hnone,Resting.kept.reported w degraded reason h⟩
    · exact .inr ⟨before,process,answer,observed_framed.reported w degraded reason h,hanswer⟩

theorem Failed.idle {w : MonitorState} (h : Failed initial known w) : w.failSafeTask = none := by
  rcases h with ⟨-,h⟩ | ⟨before,process,answer,h,-⟩
  · exact h.idle
  · exact h.idle

variable {before : List Event} {a₀ a₁ a₂ : Option Bool} {process : ℕ} {failed : Option ℕ}

theorem startRaised_failed (process : ℕ) :
    Triple (fun w => ∃ failed, Observed initial known before process failed [] w) (do
      modify fun w => { w with startFailedProcess := some process }
      let liveness ← safeIsAlive env process
      modify fun w => { w with startFailedLiveness := liveness }
      markDegraded .processStartFailed
      return false : Monitor Bool) (Tried initial known) (Excepted initial) := by
  have hprocess : Triple (fun w => ∃ failed, Observed initial known before process failed [] w)
    (modify fun w => { w with
      startFailedProcess := some process } : Monitor Unit)
      (fun _ => Observed initial known before process (some process) []) (Excepted initial) :=
    .update _ fun w ⟨_,h⟩ => ⟨h.active,h.status,h.idle,h.called,h.contained,rfl,h.trace⟩
  have hliveness : ∀ liveness, Triple (Observed initial known before process (some process) ([] ++ [liveness]))
      (modify fun w => { w with startFailedLiveness := liveness } : Monitor Unit)
      (fun _ => Failed initial known) (Excepted initial) := fun liveness =>
    .update _ fun w h =>
      .inr ⟨before,process,liveness,⟨h.active,h.status,h.idle,h.called,h.contained,h.failed,h.trace⟩,rfl⟩
  apply Triple.seq hprocess
  apply Triple.bind safeIsAlive_observed
  intro liveness
  apply Triple.seq (hliveness liveness)
  apply Triple.seq (failed_framed.markDegraded _)
  exact .ret fun w h => ⟨Bool.noConfusion,fun _ => h⟩

/-- A start leaves the monitor at rest or its failure observed. -/
theorem startCandidate_tried (process : ℕ) (readyEvent heartbeat : Bool) :
    Triple (Resting initial known) (startCandidate env process readyEvent heartbeat) (Tried initial known)
      (Excepted initial) := by
  have hcandidate : Maintains (Resting initial known) (modify fun w => { w with
      process := some process, readyEvent := readyEvent, heartbeat := heartbeat } : Monitor Unit) (Excepted initial) :=
    .update _ fun w h => ⟨h.toGuarded.congr ⟨rfl,rfl,rfl,rfl⟩,h.idle,h.called⟩
  apply Triple.seq hcandidate
  apply Triple.bind Resting.kept.ask
  intro a
  cases a.startRaises with
  | true =>
    have hraises : Triple (Resting initial known) (emit (.start process false))
        (fun _ w => ∃ before failed, Observed initial known before process failed [] w) (Excepted initial) :=
      .update _ fun w h => ⟨w.trace,_,h.active,h.status,h.idle,h.called,h.contained,rfl,rfl⟩
    apply Triple.seq hraises
    refine .ex fun before => ?_
    exact .cond (fun _ => startRaised_failed process) fun hnot => absurd rfl hnot
  | false =>
    have hstarts : Triple (Resting initial known) (emit (.start process true)) (fun _ => Resting initial False)
        (Excepted initial) := by
      refine .update _ fun w h =>
        ⟨h.toGuarded.emit rfl (fun _ => ?_) fun htask => absurd h.idle htask,h.idle,False.elim⟩
      simp
    have hclock : Maintains (Resting initial False) (modify fun w => { w with
        processStartedMonotonic := some a.monotonic } : Monitor Unit) (Excepted initial) :=
      .update _ fun w h => ⟨h.toGuarded.congr ⟨rfl,rfl,rfl,rfl⟩,h.idle,False.elim⟩
    apply Triple.seq hstarts
    refine .cond (fun hraises => absurd hraises Bool.false_ne_true) fun _ => ?_
    apply Triple.seq hclock
    apply Triple.seq (Resting.kept.setReason _ _)
    apply Triple.seq (keeps_when (Resting.kept.markDegraded _))
    exact .ret fun w h => ⟨fun _ => h,Bool.noConfusion⟩

theorem startProcess_tried : Triple (Resting initial known) (startProcess env) (Tried initial known)
    (Excepted initial) := by
  refine startProcess_of (R := fun w => w.startFailedProcess = none ∧ Resting initial known w) ?_ ⟨?_,?_⟩ ?_ ?_ ?_
  · exact fun w h => ⟨rfl,h.toGuarded.congr ⟨rfl,rfl,rfl,rfl⟩,h.idle,h.called⟩
  · exact fun w h => ⟨h.1,Resting.kept.asked w h.2⟩
  · exact fun w degraded reason h => ⟨h.1,Resting.kept.reported w degraded reason h.2⟩
  · exact fun w h _ => h.2.toGuarded
  · exact fun w h => ⟨Bool.noConfusion,fun _ => .inl h⟩
  · exact fun process readyEvent heartbeat => (startCandidate_tried process readyEvent heartbeat).weaken fun w h => h.2

theorem containStartFailedProcess_observed {a₀ : Option Bool} :
    Triple (fun w => Observed initial known before process (some process) [a₀] w ∧ w.startFailedLiveness = a₀)
      (containStartFailedProcess env)
      (fun allowed w => ∃ failed a₁ a₂, Observed initial known before process failed [a₀, a₁, a₂] w ∧
        (allowed = true ↔ a₀ = some false ∧ a₂ = some false)) (Excepted initial) := by
  refine .read fun w h => ?_
  rw [h.1.failed]
  refine .here h.1 ?_
  apply Triple.bind terminateUnhealthyProcess_observed
  intro contained
  refine .ex fun a₁ => .ex fun a₂ => ?_
  have hclear : Triple (fun w => Observed initial known before process (some process) ([a₀] ++ [a₁] ++ [a₂]) w ∧
        (contained = true ↔ a₂ = some false))
      (when contained (modify fun w => { w with startFailedProcess := none, startFailedLiveness := none }))
      (fun _ w => ∃ failed, Observed initial known before process failed [a₀, a₁, a₂] w ∧
        (contained = true ↔ a₂ = some false)) (Excepted initial) := by
    refine .when (fun _ => .update _ fun w h => ?_) fun w _ h => ⟨_,h⟩
    exact ⟨none,⟨h.1.active,h.1.status,h.1.idle,h.1.called,h.1.contained,rfl,h.1.trace⟩,h.2⟩
  apply Triple.seq hclear
  refine .ret fun w' ⟨failed,hobserved,hcontained⟩ => ⟨failed,a₁,a₂,hobserved,?_⟩
  rw [h.2, decide_eq_true_iff, hcontained]
  exact and_comm

theorem guarded_of_observed {w : MonitorState} (h : Observed initial known before process failed [a₀, a₁, a₂] w)
    (hcontained : initial.after before = .ok → Covered before ∨ a₀ = some false ∧ a₂ = some false) :
    Guarded initial w := by
  refine ⟨h.active,?_,fun htask => absurd h.idle htask,fun htask => absurd h.idle htask,?_⟩
  · rw [h.trace, FailSafeStatus.after, foldl_append]
    exact h.status
  · rw [h.trace, h.contained.attempt]
    exact hcontained

theorem ensureTerminalFailSafe_decided (halive : ¬(a₀ = some false ∧ a₂ = some false)) :
    Triple (Observed initial known before process failed [a₀, a₁, a₂]) (ensureTerminalFailSafe env config)
      (fun _ => Decided initial) (Excepted initial) := by
  refine .read fun w h => .when (fun hnot => ?_) ?_
  · -- there was no success before, so the fail-safe is called now
    have hguarded : Guarded initial w := guarded_of_observed h fun hok => absurd (h.status.trans hok) hnot
    exact .here hguarded (invokeFailSafeSafely_shielded.conseq (fun _ h => h) (fun _ _ h => h.decided) fun _ _ h => h)
  · rintro _ hok rfl
    have hok : initial.after before = .ok := h.status.symm.trans (not_ne_iff.mp hok)
    unfold Decided
    rw [h.trace, Covered.attempt, h.contained.attempt]
    exact ⟨fun hcovered _ => .inl hcovered,fun hcontained => (hcontained hok).resolve_right halive⟩

theorem recoverFromFailedStart_decided : Triple (Failed initial known) (recoverFromFailedStart env config)
      (fun allowed w => (allowed = true → Resting initial known w) ∧ (allowed = false → Decided initial w))
      (Excepted initial) := by
  refine .read fun w h => ?_
  rcases h with ⟨hnone,h⟩ | ⟨before,process,a₀,h,hanswer⟩
  · rw [hnone]
    exact .here h (.cond (fun hsome => Bool.noConfusion hsome) fun _ => .ret fun w h => ⟨fun _ => h,Bool.noConfusion⟩)
  · rw [h.failed]
    refine .cond (fun _ => ?_) fun hnone => absurd rfl hnone
    refine .here (P := fun w => Observed initial known before process (some process) [a₀] w ∧
      w.startFailedLiveness = a₀)
      ⟨h,hanswer⟩ ?_
    apply Triple.bind containStartFailedProcess_observed
    intro allowed
    refine .ex fun failed => .ex fun a₁ => .ex fun a₂ => ?_
    refine .cond (fun hallowed => .ret fun w h => ⟨fun _ => ?_,Bool.noConfusion⟩) fun hnot => ?_
    · obtain ⟨hobserved,hiff⟩ := h
      refine ⟨guarded_of_observed hobserved fun _ => .inr (hiff.mp hallowed),hobserved.idle,fun hk => ?_⟩
      rw [hobserved.trace, Covered.attempt]
      exact hobserved.called hk
    · intro w hw
      have hends : ¬(a₀ = some false ∧ a₂ = some false) := fun hends => hnot (hw.2.mpr hends)
      have hensure : Triple (Observed initial known before process failed [a₀, a₁, a₂]) (do
          ensureTerminalFailSafe env config
          return false) (fun allowed w => (allowed = true → Resting initial known w) ∧
            (allowed = false → Decided initial w))
          (Excepted initial) := by
        apply Triple.seq (ensureTerminalFailSafe_decided hends)
        exact .ret fun w h => ⟨Bool.noConfusion,fun _ => h⟩
      exact hensure w hw.1

/-! ### Restarts -/

def Proceeds (initial : FailSafeStatus) (proceed : Bool) (w : MonitorState) : Prop :=
  (proceed = true → Resting initial False w) ∧ (proceed = false → Decided initial w)

theorem restartUntilStarted_proceeds (incident : Option Incident) (failSafeOnExhaustion : Bool) (fuel : ℕ) :
    Triple (Resting initial (failSafeOnExhaustion = false))
      (restartUntilStarted env config incident failSafeOnExhaustion fuel) (Proceeds initial) (Excepted initial) := by
  refine restartUntilStarted_of Resting.kept Resting.kept.toFramed (fun _ _ => Exit.noConfusion) ?_ ?_ ?_
    (.when (fun _ => ?_) fun w hnot h => ?_) startProcess_tried recoverFromFailedStart_decided fuel
  · exact fun w h hstop => Bool.noConfusion (h.active.symm.trans hstop)
  · exact fun w _ _ h => ⟨h.toGuarded.congr ⟨rfl,rfl,rfl,rfl⟩,h.idle,h.called⟩
  · exact fun w stamp h =>
      ⟨h.toGuarded.emit rfl (fun _ => Event.noConfusion) fun _ => rfl,h.idle,fun hk => (h.called hk).concat rfl⟩
  · exact invokeFailSafeSafely_shielded.conseq (fun _ h => h.toGuarded) (fun _ _ h => h.decided) fun _ _ h => h
  · -- the fail-safe was called before
    exact Shielded.decided ⟨h.toGuarded,h.called (Bool.eq_false_iff.mpr hnot)⟩

/-! ### The monitor -/

def failSafeCourse (initial : FailSafeStatus) : Course env config (Excepted initial) where
  watched _ := Resting initial False
  vacant b := Resting initial (b = false)
  called _ := Shielded initial
  terminated := Shielded initial
  up := Resting initial False
  unstarted := Failed initial (true = false)
  caught := Guarded initial
  covered := Shielded initial
  ended := Decided initial
  watching _ := Resting.kept
  vacating := Resting.kept
  waiting := Resting.kept
  catching := Guarded.kept.toFramed
  covering := Shielded.kept
  ending := ⟨fun _ h => h,fun _ _ _ h => h⟩
  invoked _ := invokeFailSafeSafely_shielded.weaken fun _ h => h.toGuarded
  contained process := (Shielded.kept.terminateUnhealthyProcess process).conseq (fun _ h => h)
    (fun _ _ h => ⟨fun _ => h,fun _ => h.decided⟩) fun _ _ h => h
  waited := waitForFailSafeBeforeRestart_resting.conseq (fun _ h => h) (fun _ _ h => ⟨fun hallowed =>
    ⟨(h.2 hallowed).toGuarded,(h.2 hallowed).idle,fun _ => h.1.called⟩,fun _ => h.1.decided⟩) fun _ _ h => h
  restarted := restartUntilStarted_proceeds
  answered process := (Resting.kept.safeIsAlive process).conseq (fun _ h => h) (fun _ _ h => ⟨h,fun _ => h.unknown⟩)
    fun _ _ h => h
  started := startProcess_tried
  slept := failed_framed.sleep (fun _ h => h.idle) fun _ _ => Exit.noConfusion
  recovered := recoverFromFailedStart_decided
  saved := invokeFailSafeSafely_shielded
  watched_of_up _ h := h
  up_of_watched _ _ h := h
  vacant_of_watched _ h := h.unknown
  ended_of_terminated _ h := h.decided
  ended_of_covered _ h := h.decided
  ended_of_stopping _ h hstop := Bool.noConfusion (h.active.symm.trans hstop)
  unfinished _ _ := Exit.noConfusion
  caught_of_raised _ h := h rfl

theorem start_decided (fuel : ℕ) :
    Triple (fun w => w.failSafeTask = none ∧ w.trace = [] ∧ w.failSafeStatus = initial) (start env config fuel)
      (fun _ => Decided initial) (Excepted initial) := by
  refine (failSafeCourse initial).start fuel
    (.update _ fun w ⟨htask,htrace,hstatus⟩ => ⟨⟨rfl,?_,?_,?_,?_⟩,htask,Bool.noConfusion⟩)
  · rw [htrace]
    exact hstatus
  · exact fun hne => absurd htask hne
  · exact fun hne => absurd htask hne
  · rw [htrace]
    exact contained_nil

end WorkerSupervisor

/-- In every run of the supervisor from a call of `start` when no fail-safe call is running:
if the monitor returns, the fail-safe was called after the last process that was started,
exactly when every process that did not start while the success of an earlier incident
stood was contained. -/
theorem covered_at_return_iff (s : Supervisor) (hidle : s.failSafeTask = none) (env : ℕ → Answers)
    (config : SupervisorConfig) (fuel : ℕ) (hreturns : (s.run env config fuel).1 = .ok ()) :
    Covered (s.run env config fuel).2.trace ↔ Contained s.failSafeStatus (s.run env config fuel).2.trace := by
  have hspec : Triple _ (WorkerSupervisor.start env config fuel) (fun _ => Decided s.failSafeStatus)
      (Excepted s.failSafeStatus) := WorkerSupervisor.start_decided fuel
  have hrun := hspec { s with } ⟨hidle,rfl,rfl⟩
  unfold Supervisor.run at hreturns ⊢
  split at hrun <;> rename_i hresult
  · rw [hresult]
    exact hrun
  · rw [hresult] at hreturns
    cases hreturns

/-- A worker is replaced after its heartbeat went stale, the fail-safe ending well. The next
worker dies, and the start of its replacement raises although the process lives. -/
def unstartedSurvivor : ℕ → Answers
  | 0 => { created := .quadruple 1 true true }
  | 9 => { ending := some .ok }
  | 13 | 15 => { alive := some false }
  | 19 => { created := .quadruple 2 true true }
  | 22 => { alive := some false }
  | 29 => { created := .quadruple 3 true true }
  | 30 => { startRaises := true }
  | _ => {}

theorem survivor_not_covered :
    let result := ({} : Supervisor).run unstartedSurvivor {} 4
    result.1 = .ok () ∧ result.2.stopping = false ∧
    result.2.trace = [.start 1 true, .alive 1 (some true), .alive 1 (some true), .failSafeStarted 0,
      .failSafeEnded 0 .ok,
      .alive 1 (some false), .alive 1 (some false), .restart 0, .start 2 true, .alive 2 (some false), .restart 0,
      .start 3 false, .alive 3 (some true), .alive 3 (some true), .alive 3 (some true)] ∧
    ¬Covered result.2.trace := by decide +kernel

/-- The same, but the replacement is dead; after it the factory fails until the budget is spent. -/
def unstartedCorpse (n : ℕ) : Answers :=
  if n < 31 then unstartedSurvivor n else { alive := some false, ending := some .ok }

theorem corpse_covered :
    let result := ({} : Supervisor).run unstartedCorpse {} 6
    result.1 = .ok () ∧ Covered result.2.trace ∧ Contained .notRun result.2.trace :=
  ⟨by decide +kernel,by decide +kernel,
    (covered_at_return_iff {} rfl unstartedCorpse {} 6 (by decide +kernel)).mp (by decide +kernel)⟩

end OpenPine.Gateway
