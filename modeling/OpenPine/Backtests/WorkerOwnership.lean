import OpenPine.Backtests.Cancellation

/-! # What a step does to the owners of a run

`Move` lists what one step of the task, the executor thread or a cancel request can do to the
tables of owners, to the admission lease and to the place of the executor. The invariants on
owners are derived from it.
-/
namespace OpenPine.Backtests

namespace Ownership
variable {W L : Type} [DecidableEq W] {o : Ownership W L} (worker : W)

def SameOwners (o o' : Ownership W L) : Prop :=
  o'.active = o.active ∧ o'.retained = o.retained ∧ o'.starting = o.starting ∧ o'.lease = o.lease

omit [DecidableEq W] in
theorem SameOwners.refl (o : Ownership W L) : o.SameOwners o := ⟨rfl,rfl,rfl,rfl⟩

omit [DecidableEq W] in
theorem SameOwners.owned {o o' : Ownership W L} (h : o.SameOwners o') : o'.owned = o.owned := by
  obtain ⟨hactive,hretained,hstarting,-⟩ := h
  simp [Ownership.owned, hactive, hretained, hstarting]

omit [DecidableEq W] in
theorem sameOwners_requestBacktestCancel : o.SameOwners o.requestBacktestCancel.2 := by
  unfold requestBacktestCancel
  split
  · exact .refl o
  · exact ⟨rfl,rfl,rfl,rfl⟩

theorem sameOwners_sealBacktestTerminalIfQuiescent : o.SameOwners o.sealBacktestTerminalIfQuiescent.2 := by
  obtain ⟨-,h⟩ | ⟨-,-,h⟩ | ⟨-,-,h⟩ := o.sealBacktestTerminalIfQuiescent_cases
  all_goals
    rw [h]
    exact ⟨rfl,rfl,rfl,rfl⟩

theorem sameOwners_sealBacktestSuccessIfQuiescent : o.SameOwners o.sealBacktestSuccessIfQuiescent.2 := by
  obtain h | ⟨-,-,-,h⟩ := o.sealBacktestSuccessIfQuiescent_cases
  all_goals
    rw [h]
    exact ⟨rfl,rfl,rfl,rfl⟩

omit [DecidableEq W] in
theorem sameOwners_sealBacktestFailure {replaceOutcome : Option Outcome} :
    o.SameOwners (o.sealBacktestFailure replaceOutcome).2 := by
  obtain ⟨-,-,h⟩ | ⟨-,h⟩ := o.sealBacktestFailure_cases replaceOutcome
  all_goals
    rw [h]
    exact ⟨rfl,rfl,rfl,rfl⟩

omit [DecidableEq W] in
theorem admitBacktestWorkerStart_cases : o.admitBacktestWorkerStart worker = (false, o) ∨
      o.lease = none ∧ o.admitBacktestWorkerStart worker =
        (true, { o with retained := [worker], starting := true }) := by
  unfold admitBacktestWorkerStart
  split
  · exact .inl rfl
  · rename_i h
    simp only [Bool.or_eq_true, not_or, Bool.not_eq_true] at h
    exact .inr ⟨by simpa using h.2,rfl⟩

theorem registerBacktestWorker_some {worker : W} {o' : Ownership W L} (h : o.registerBacktestWorker worker = some o') :
    o' = { o with retained := [], active := some worker } := by
  unfold registerBacktestWorker at h
  split at h
  · cases h
  · exact (Option.some.inj h).symm

theorem retainBacktestWorkerForRetry_spec :
    (o.retainBacktestWorkerForRetry worker).owned = true ∧
      (o.retainBacktestWorkerForRetry worker).starting = o.starting ∧
      (o.retainBacktestWorkerForRetry worker).lease = o.lease := by
  unfold retainBacktestWorkerForRetry
  split
  · rename_i h
    exact ⟨by simp [owned, h],rfl,rfl⟩
  · split
    · rename_i h
      exact ⟨by simp [owned, List.ne_nil_of_mem h],rfl,rfl⟩
    · exact ⟨by simp [owned],rfl,rfl⟩

theorem unregisterBacktestWorker_starting : (o.unregisterBacktestWorker worker).2.starting = o.starting := by
  unfold unregisterBacktestWorker
  extract_lets o'
  split
  · rfl
  · rfl

theorem unregisterBacktestWorker_lease :
    ((o.unregisterBacktestWorker worker).2.owned = true ∧ (o.unregisterBacktestWorker worker).1 = none ∧
      (o.unregisterBacktestWorker worker).2.lease = o.lease) ∨
    (o.unregisterBacktestWorker worker).1 = o.lease ∧ (o.unregisterBacktestWorker worker).2.lease = none := by
  unfold unregisterBacktestWorker
  extract_lets o'
  split
  · rename_i h
    exact .inl ⟨h,rfl,rfl⟩
  · exact .inr ⟨rfl,rfl⟩

theorem unregisterBacktestWorker_unit (o : Ownership Unit L) (h : o.starting = false) :
    (o.unregisterBacktestWorker ()).2.owned = false := by
  have hactive : (if o.active = some () then none else o.active) = none := by
    cases o.active with
    | none | some => rfl
  simp [unregisterBacktestWorker, owned, hactive, h]

end Ownership

open Ownership

namespace Cancellation

def Execution.unowned : Execution → Bool
  | .idle | .admission | .close .returned | .close .cancelled | .ended .returned | .ended .cancelled => true
  | _ => false

theorem Execution.startsUp_of_unowned {execution : Execution} (h : execution.unowned = true) :
    execution.startsUp = false := by
  cases execution with
  | start | setup | isolate | register | abandon | unmark | unmarkRegistered => cases h
  | _ => rfl

/-- What a step can do to the owners of the run and to its lease. -/
inductive Move (w : World) (e : Event) (w' : World) : Prop
  | keeps (howners : w.tables.SameOwners w'.tables) (hreleased : w'.released = w.released)
      (hstarts : w'.execution.startsUp = w.execution.startsUp)
      (hunowned : w'.execution.unowned = true → w.execution.unowned = true)
      (hfinished : w'.task = .finished → w.task = .finished)
  | unregisters (htables : w'.tables = (w.tables.unregisterBacktestWorker ()).2)
      (hreleased : w'.released = (w.released || (w.tables.unregisterBacktestWorker ()).1.isSome))
      (hstarts : w'.execution.startsUp = w.execution.startsUp) (htask : w'.task = w.task)
  | admits (hlease : w.tables.lease = none) (htables : w'.tables = { w.tables with retained := [()], starting := true })
      (hreleased : w'.released = w.released) (hexecution : w'.execution = .start) (htask : w'.task = w.task)
  | registers (htables : w'.tables = { w.tables with retained := [], active := some () })
      (hreleased : w'.released = w.released) (hstarts : w.execution.startsUp = true)
      (hexecution : w'.execution = .unmarkRegistered) (htask : w'.task = w.task)
  | retains (htables : w'.tables = w.tables.retainBacktestWorkerForRetry ()) (hreleased : w'.released = w.released)
      (hstarts : w.execution.startsUp = true) (hexecution : w'.execution = .unmark) (htask : w'.task = w.task)
  | unmarks (hevent : ∃ event, e = .execution event) (hpoint : w.execution = .unmark ∨ w.execution = .unmarkRegistered)
      (htables : w'.tables = w.tables.setBacktestWorkerStarting false) (hreleased : w'.released = w.released)
      (hexecution : w'.execution = .ended .failed ∨ w'.execution = .compute) (htask : w'.task = w.task)
  | retainsLease (hevent : ∃ event, e = .task event) (hpoint : w.task = .release) (howned : w.tables.owned = true)
      (htables : w'.tables = { w.tables with lease := some () }) (hreleased : w'.released = w.released)
      (hexecution : w'.execution = w.execution)
  | releases (hpoint : w.task = .release) (howned : w.tables.owned = false) (htables : w'.tables = w.tables)
      (hreleased : w'.released = true) (hexecution : w'.execution = w.execution)

namespace Move
variable {w w' : World} {e : Event}

theorem unchanged (howners : w.tables.SameOwners w'.tables) (hreleased : w'.released = w.released)
    (hexecution : w'.execution = w.execution) (hfinished : w'.task = .finished → w.task = .finished) : Move w e w' :=
  .keeps howners hreleased (by rw [hexecution]) (by rw [hexecution]; exact id) hfinished

theorem still : Move w e w := .unchanged (.refl _) rfl rfl id

theorem goto {point : Point} (h : point ≠ .finished) : Move w e (w.goto point) :=
  .unchanged (.refl _) rfl rfl fun hpoint => absurd hpoint h

theorem load {next : Point} {event : TaskEvent} (h : next ≠ .finished) : Move w e (w.load next event) := by
  cases event with
  | proceeds => exact goto h
  | rejects | fails | interrupted => exact goto (by decide)

theorem proceeds {execution : Execution} (hstarts : execution.startsUp = w.execution.startsUp)
    (hunowned : execution.unowned = true → w.execution.unowned = true) : Move w e { w with execution := execution } :=
  .keeps (.refl _) rfl hstarts hunowned id

end Move

namespace World
variable (w : World) {e : Event}

theorem advance_move (event : TaskEvent) (he : e = .task event) : Move w e (w.advance event) := by
  unfold advance
  cases htask : w.task with
  | loadStrategy | loadArtifact | loadBars => exact .load (by decide)
  | fingerprint | configure | failureOutcome =>
    dsimp only
    split
    · exact .goto (by decide)
    · exact .goto (by decide)
  | execute =>
    dsimp only
    split
    · exact .goto (by decide)
    · exact .goto (by decide)
    · exact .goto (by decide)
    · exact .unchanged (.refl _) rfl rfl id
  | cancelRequested site =>
    dsimp only
    split
    · exact .goto (by simp)
    · exact .goto (by cases site <;> decide)
  | outcome site | successOutcome =>
    dsimp only
    split
    · exact .goto (by decide)
    · exact .goto (by simp)
  | sealTerminal =>
    dsimp only
    split
    · exact .unchanged sameOwners_sealBacktestTerminalIfQuiescent rfl rfl (by simp)
    · exact .goto (by simp)
  | outcomeAgain site =>
    dsimp only
    split
    · exact .goto (by decide)
    · exact .goto (by cases site <;> decide)
  | markCancelled site =>
    dsimp only
    split
    · exact .unchanged (.refl _) rfl rfl (by simp)
    · exact .goto (by cases site <;> decide)
  | sealSuccess =>
    dsimp only
    split
    · exact .unchanged sameOwners_sealBacktestSuccessIfQuiescent rfl rfl (by simp)
    · exact .goto (by decide)
  | saveResult | markRejected =>
    dsimp only
    split
    · exact .unchanged (.refl _) rfl rfl (by simp)
    · exact .goto (by decide)
  | sealFailure =>
    dsimp only
    split
    · exact .unchanged sameOwners_sealBacktestFailure rfl rfl (by simp)
    · exact .goto (by decide)
  | markFailed => exact .unchanged (.refl _) rfl rfl (by simp)
  | discard => exact .unchanged ⟨rfl,rfl,rfl,rfl⟩ rfl rfl (by simp)
  | release =>
    cases howned : w.tables.owned with
    | true =>
      have hretain : w.tables.retainBacktestAdmissionLease () = some (true, { w.tables with lease := some () }) := by
        simp [retainBacktestAdmissionLease, howned]
      simp only [hretain]
      exact .retainsLease ⟨event,he⟩ htask howned rfl rfl rfl
    | false =>
      have hretain : w.tables.retainBacktestAdmissionLease () = some (false, w.tables) := by
        simp [retainBacktestAdmissionLease, howned]
      simp only [hretain]
      exact .releases htask howned rfl rfl rfl
  | finished => exact .unchanged (.refl _) rfl rfl fun _ => htask

theorem execute_move (event : ExecutionEvent) (he : e = .execution event) : Move w e (w.execute event) := by
  obtain ⟨tables,signalled,status,released,execution,task,reservation,handlers⟩ := w
  cases execution with
  | idle =>
    cases event with
    | proceeds =>
      simp only [execute]
      split
      · exact .proceeds rfl id
      · exact .still
    | fails | finishes result => exact .still
  | admission =>
    cases event with
    | proceeds =>
      obtain hrefused | ⟨hlease,hadmitted⟩ := tables.admitBacktestWorkerStart_cases ()
      · simp only [execute, hrefused]
        exact .proceeds rfl id
      · simp only [execute, hadmitted]
        exact .admits hlease rfl rfl rfl rfl
    | fails => exact .proceeds rfl (by simp [Execution.unowned])
    | finishes => exact .still
  | start | setup | isolate =>
    cases event with
    | proceeds | fails => exact .proceeds rfl id
    | finishes => exact .still
  | register =>
    cases event with
    | proceeds =>
      cases hregister : tables.registerBacktestWorker () with
      | none =>
        simp only [execute, hregister]
        exact .proceeds rfl id
      | some =>
        simp only [execute, hregister]
        exact .registers (registerBacktestWorker_some hregister) rfl rfl rfl rfl
    | fails => exact .proceeds rfl id
    | finishes => exact .still
  | abandon =>
    cases event with
    | proceeds => exact .unregisters rfl rfl rfl rfl
    | fails => exact .retains rfl rfl rfl rfl rfl
    | finishes => exact .still
  | unmark => exact .unmarks ⟨event,he⟩ (.inl rfl) rfl rfl (.inl rfl) rfl
  | unmarkRegistered => exact .unmarks ⟨event,he⟩ (.inr rfl) rfl rfl (.inr rfl) rfl
  | compute =>
    cases event with
    | finishes =>
      simp only [execute]
      split
      · exact .still
      · exact .proceeds rfl (by simp [Execution.unowned])
    | proceeds | fails => exact .still
  | cleanup result =>
    cases event with
    | proceeds => exact .unregisters rfl rfl rfl rfl
    | fails => exact .proceeds rfl (by simp [Execution.unowned])
    | finishes => exact .still
  | close result =>
    cases event with
    | proceeds => exact .proceeds rfl (by cases result <;> exact id)
    | fails => exact .proceeds rfl (by simp [Execution.unowned])
    | finishes => exact .still
  | ended => exact .still

theorem handle_move (i : ℕ) (ok : Bool) : Move w e (w.handle i ok) := by
  unfold handle
  cases w.handlers i with
  | absent | returned => exact .still
  | request => exact .unchanged sameOwners_requestBacktestCancel rfl rfl id
  | scan =>
    dsimp only
    split
    · exact .unchanged sameOwners_sealBacktestTerminalIfQuiescent rfl rfl id
    · split
      · split
        · exact .still
        · exact .unchanged (.refl _) rfl rfl id
      · exact .unchanged (.refl _) rfl rfl id
  | clean _ workers =>
    cases workers with
    | nil => exact .unchanged (.refl _) rfl rfl id
    | cons =>
      cases ok with
      | true => exact .unregisters rfl rfl rfl rfl
      | false => exact .unchanged (.refl _) rfl rfl id
  | mark =>
    cases ok with
    | true | false => exact .unchanged (.refl _) rfl rfl id
  | discard => exact .unchanged ⟨rfl,rfl,rfl,rfl⟩ rfl rfl id

/-- All that one step does to the owners of the run. -/
theorem step_move (e : Event) : Move w e (w.step e) := by
  cases e with
  | task event =>
    cases event with
    | interrupted =>
      simp only [step, background]
      split
      · exact .still
      · exact .goto (by decide)
    | proceeds | rejects | fails => exact w.advance_move _ rfl
  | execution event => exact w.execute_move event rfl
  | cancel =>
    simp only [step]
    split
    · exact .unchanged (.refl _) rfl rfl id
    · exact .still
  | handler i ok => exact w.handle_move i ok

def Marked : Prop := w.tables.starting = w.execution.startsUp

/-- Nobody owns the run before its worker is admitted and after its worker has been cleaned up. -/
def Cleared : Prop := w.execution.unowned = true → w.tables.owned = false

variable {w}

theorem marked_start : start.Marked := rfl

/-- A run is marked as starting exactly while its worker starts. -/
theorem Marked.step (h : w.Marked) (e : Event) : (w.step e).Marked := by
  unfold Marked at h ⊢
  cases w.step_move e with
  | keeps howners _ hstarts => rw [howners.2.2.1, hstarts, h]
  | unregisters htables _ hstarts => rw [htables, unregisterBacktestWorker_starting, hstarts, h]
  | admits _ htables _ hexecution =>
    rw [htables, hexecution]
    rfl
  | registers htables _ hstarts hexecution =>
    rw [htables, hexecution]
    exact h.trans hstarts
  | retains htables _ hstarts hexecution =>
    rw [htables, hexecution, (retainBacktestWorkerForRetry_spec ()).2.1]
    exact h.trans hstarts
  | unmarks _ _ htables _ hexecution =>
    rw [htables]
    obtain hexecution | hexecution := hexecution
    · rw [hexecution]
      rfl
    · rw [hexecution]
      rfl
  | retainsLease _ _ _ htables _ hexecution => rw [htables, hexecution, ← h]
  | releases _ _ htables _ hexecution => rw [htables, hexecution, h]

theorem cleared_start : start.Cleared := fun _ => rfl

/-- Before the worker and after its clean-up nobody owns the run. -/
theorem Cleared.step (hmarked : w.Marked) (h : w.Cleared) (e : Event) : (w.step e).Cleared := by
  intro hunowned
  cases w.step_move e with
  | keeps howners _ _ hkeep =>
    rw [howners.owned]
    exact h (hkeep hunowned)
  | unregisters htables _ hstarts =>
    rw [htables]
    refine unregisterBacktestWorker_unit _ ?_
    rw [hmarked, ← hstarts]
    exact Execution.startsUp_of_unowned hunowned
  | admits _ _ _ hexecution | registers _ _ _ hexecution | retains _ _ _ hexecution =>
    simp [hexecution, Execution.unowned] at hunowned
  | unmarks _ _ _ _ hexecution =>
    obtain hexecution | hexecution := hexecution
    · simp [hexecution, Execution.unowned] at hunowned
    · simp [hexecution, Execution.unowned] at hunowned
  | retainsLease _ _ _ htables _ hexecution =>
    rw [hexecution] at hunowned
    rw [htables]
    exact h hunowned
  | releases _ _ htables => rwa [htables]

end World
end Cancellation
end OpenPine.Backtests
