import OpenPine.Backtests.WorkerOwnership

/-! # The permits of backtests

A task that ends while its run has owners leaves its admission lease in the tables, and the
operation that removes the last owner gives the permit back. The starting mark counts as
an owner, but the step that clears it gives nothing back.
-/
namespace OpenPine.Backtests.Cancellation
open Runs Ownership

namespace World
variable (w : World)

/-- Without an owner no lease is kept, and the permit of a task that has ended is free again. -/
def NoLeak : Prop := w.tables.owned = false → w.tables.lease = none ∧ (w.task = .finished → w.released = true)

def Accounted : Prop := w.task = .finished → w.released = true ∨ w.tables.lease.isSome = true

def Unmarks : Event → Prop
  | .execution _ => w.execution = .unmark ∨ w.execution = .unmarkRegistered
  | _ => False

/-- The executor clears the starting mark of a run that has lost its worker, and a lease is kept
for the run. -/
def Strands (e : Event) : Prop := w.Unmarks e ∧ w.tables.active = none ∧ w.tables.retained = [] ∧ w.tables.lease ≠ none

def LeavesAtStartup : Event → Prop
  | .task _ => w.task = .release ∧ w.tables.starting = true
  | _ => False

variable {w} {e : Event}

/-- The permit of a task that has ended is free or kept with a lease. -/
theorem Accounted.step (h : w.Accounted) (e : Event) : (w.step e).Accounted := by
  intro htask'
  cases w.step_move e with
  | keeps howners hreleased _ _ hfinished =>
    rw [hreleased, howners.2.2.2]
    exact h (hfinished htask')
  | unregisters htables hreleased _ htask =>
    have hw := h (htask.symm.trans htask')
    rw [htables, hreleased]
    obtain ⟨-,hnone,hlease⟩ | ⟨hlease,-⟩ := w.tables.unregisterBacktestWorker_lease ()
    · rw [hnone, hlease]
      simpa using hw
    · rw [hlease]
      exact .inl (by simpa using hw)
  | admits _ htables hreleased _ htask =>
    rw [htables, hreleased]
    exact h (htask.symm.trans htask')
  | registers htables hreleased _ _ htask =>
    rw [htables, hreleased]
    exact h (htask.symm.trans htask')
  | retains htables hreleased _ _ htask =>
    rw [htables, hreleased, (retainBacktestWorkerForRetry_spec ()).2.2]
    exact h (htask.symm.trans htask')
  | unmarks _ _ htables hreleased _ htask =>
    rw [htables, hreleased]
    exact h (htask.symm.trans htask')
  | retainsLease _ _ _ htables =>
    rw [htables]
    exact .inr rfl
  | releases _ _ _ hreleased => exact .inl hreleased

theorem noLeak_iff (h : w.Accounted) : w.NoLeak ↔ (w.tables.owned = false → w.tables.lease = none) := by
  constructor
  · intro hw howned
    exact (hw howned).1
  · intro hw howned
    have hlease := hw howned
    refine ⟨hlease,fun htask => ?_⟩
    simpa [hlease] using h htask

theorem step_unmarks (h : w.Unmarks e) : (w.step e).tables = w.tables.setBacktestWorkerStarting false := by
  cases e with
  | execution =>
    obtain h | h := h
    · simp [step, execute, h]
    · simp [step, execute, h]
  | task event | cancel i | handler i ok => exact h.elim

theorem lease_step (he : ¬ w.Unmarks e) (h : w.tables.owned = false → w.tables.lease = none) :
    (w.step e).tables.owned = false → (w.step e).tables.lease = none := by
  intro howned'
  cases w.step_move e with
  | keeps howners =>
    rw [howners.2.2.2]
    exact h (howners.owned ▸ howned')
  | unregisters htables =>
    rw [htables] at howned' ⊢
    obtain ⟨howned,-⟩ | ⟨-,hlease⟩ := w.tables.unregisterBacktestWorker_lease ()
    · cases howned.symm.trans howned'
    · exact hlease
  | admits hlease htables =>
    rw [htables]
    exact hlease
  | registers htables => simp [htables, owned] at howned'
  | retains htables =>
    rw [htables, (retainBacktestWorkerForRetry_spec ()).1] at howned'
    cases howned'
  | unmarks hevent hpoint =>
    obtain ⟨event,rfl⟩ := hevent
    exact absurd hpoint he
  | retainsLease _ _ howned htables =>
    rw [htables] at howned'
    cases howned.symm.trans howned'
  | releases _ howned htables =>
    rw [htables]
    exact h howned

/-- A step leaks exactly if it strands a lease. -/
theorem noLeak_step_iff (e : Event) (haccounted : w.Accounted) (h : w.NoLeak) : (w.step e).NoLeak ↔ ¬ w.Strands e := by
  rw [noLeak_iff (haccounted.step e)]
  rw [noLeak_iff haccounted] at h
  by_cases he : w.Unmarks e
  · rw [step_unmarks he]
    simp only [Strands, he, setBacktestWorkerStarting, owned_eq_false]
    tauto
  · simp only [Strands, he, false_and, not_false_eq_true, iff_true]
    exact lease_step he h

/-- Leases are kept only for runs whose worker does not start up any more. -/
def KeptAfterStartup (w : World) : Prop := w.tables.lease ≠ none → w.tables.starting = false

/-- So it stays if no task leaves the run at its startup. -/
theorem KeptAfterStartup.step (h : w.KeptAfterStartup) (he : ¬ w.LeavesAtStartup e) : (w.step e).KeptAfterStartup := by
  intro hlease'
  cases w.step_move e with
  | keeps howners =>
    rw [howners.2.2.2] at hlease'
    rw [howners.2.2.1]
    exact h hlease'
  | unregisters htables =>
    rw [htables] at hlease' ⊢
    rw [unregisterBacktestWorker_starting]
    obtain ⟨-,-,hlease⟩ | ⟨-,hlease⟩ := w.tables.unregisterBacktestWorker_lease ()
    · exact h (hlease ▸ hlease')
    · exact absurd hlease hlease'
  | admits hlease htables =>
    rw [htables] at hlease'
    exact absurd hlease hlease'
  | registers htables | releases _ _ htables =>
    rw [htables] at hlease' ⊢
    exact h hlease'
  | retains htables =>
    obtain ⟨-,hstarting,hlease⟩ := w.tables.retainBacktestWorkerForRetry_spec ()
    rw [htables] at hlease' ⊢
    rw [hstarting]
    exact h (hlease ▸ hlease')
  | unmarks _ _ htables =>
    rw [htables]
    rfl
  | retainsLease hevent hpoint _ htables =>
    obtain ⟨event,rfl⟩ := hevent
    rw [htables]
    simpa [LeavesAtStartup, hpoint] using he

theorem KeptAfterStartup.not_strands (h : w.KeptAfterStartup) (hmarked : w.Marked) : ¬ w.Strands e := by
  rintro ⟨hunmarks,-,-,hlease⟩
  have hstarting : w.execution.startsUp = false := hmarked.symm.trans (h hlease)
  cases e with
  | execution =>
    obtain hpoint | hpoint := hunmarks
    · simp [hpoint, Execution.startsUp] at hstarting
    · simp [hpoint, Execution.startsUp] at hstarting
  | task event | cancel i | handler i ok => exact hunmarks

/-- In any interleaving the permits stay accounted for exactly until the executor clears the
starting mark of a run that has no worker left while a lease is kept for it, and they always do
if no task leaves its lease behind during start-up. -/
theorem permit_leak_iff (events : List Event) :
    (Always step NoLeak start events ↔ EachStep step (fun w e => ¬ w.Strands e) start events) ∧
    (EachStep step (fun w e => ¬ w.LeavesAtStartup e) start events → Always step NoLeak start events) := by
  have hiff : Always step NoLeak start events ↔ EachStep step (fun w e => ¬ w.Strands e) start events := by
    refine always_iff_eachStep (I := Accounted) (fun w e h => h.step e) (fun w e => noLeak_step_iff e) ?_ ?_ events
    · exact fun h => by cases h
    · exact fun _ => ⟨rfl,fun h => by cases h⟩
  refine ⟨hiff,fun h => hiff.mpr ?_⟩
  refine EachStep.mono (I := fun w => w.Marked ∧ w.KeptAfterStartup) ?_ ?_ ⟨marked_start,fun h => absurd rfl h⟩ h
  · exact fun w e hw he => ⟨hw.1.step e,hw.2.step he⟩
  · exact fun w e hw _ => hw.2.not_strands hw.1

/-- The task is cancelled while its worker starts, and then the start fails. -/
def interruptedStartup : List Event :=
  List.replicate 9 (.task .proceeds) ++
    [.execution .proceeds, .execution .proceeds, .task .interrupted, .task .proceeds, .execution .fails,
      .execution .proceeds, .execution .proceeds]

/-- The lease stays in the tables when task and executor have ended, and the permit is not free. -/
theorem permit_stranded :
    let w := run step start interruptedStartup
    w.task = .finished ∧ w.execution = .ended .failed ∧ w.tables.owned = false ∧ w.tables.lease = some () ∧
      w.released = false ∧ ¬ Always step NoLeak start interruptedStartup := by
  intro w
  have howned : w.tables.owned = false := by decide +kernel
  have hlease : w.tables.lease = some () := by decide +kernel
  refine ⟨by decide +kernel,by decide +kernel,howned,hlease,by decide +kernel,fun h => ?_⟩
  have hnone : w.tables.lease = none := (h.last howned).1
  rw [hnone] at hlease
  cases hlease

end World
end OpenPine.Backtests.Cancellation
