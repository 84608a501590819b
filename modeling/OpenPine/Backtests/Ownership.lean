import OpenPine.Foundation.Runs

/-! # Ownership of backtest workers and the outcome of a run

The tables of `openpine/gateway/routes/backtest.py` and the operations on them, each of
which holds the lock. `Ownership` is what the tables hold for one run.
-/
namespace OpenPine.Backtests
open Runs

inductive Outcome
  | success | cancelled | failed
deriving DecidableEq, Repr

structure Ownership (W L : Type) where
  active : Option W
  retained : List W
  (starting terminal : Bool)
  outcome : Option Outcome
  lease : Option L
  cancelRequested : Bool

namespace Ownership
variable {W L : Type} [DecidableEq W] (o : Ownership W L)

def empty : Ownership W L := ⟨none,[],false,false,none,none,false⟩

def owned : Bool := o.active.isSome || !o.retained.isEmpty || o.starting

def setBacktestWorkerStarting (starting : Bool) : Ownership W L := { o with starting := starting }

def requestBacktestCancel : Bool × Ownership W L :=
  if o.terminal then (false, o) else (true, { o with cancelRequested := true })

def admitBacktestWorkerStart (worker : W) : Bool × Ownership W L :=
  if o.cancelRequested || o.terminal || o.starting || o.active.isSome || !o.retained.isEmpty || o.lease.isSome
    then (false, o)
  else (true, { o with retained := [worker], starting := true })

def workers : List W := o.retained.foldl (fun ws w => if w ∈ ws then ws else ws ++ [w]) o.active.toList

def sealBacktestTerminalIfQuiescent : (List W × Bool) × Ownership W L :=
  if !o.workers.isEmpty || o.starting then ((o.workers, false), o)
  else
    match o.outcome with
    | some _ => (([], true), o)
    | none => (([], true), { o with terminal := true, outcome := some .cancelled })

def sealBacktestSuccessIfQuiescent : (List W × Bool) × Ownership W L :=
  if !o.workers.isEmpty || o.starting || o.cancelRequested || o.terminal then ((o.workers, false), o)
  else (([], true), { o with terminal := true, outcome := some .success })

def sealBacktestFailure (replaceOutcome : Option Outcome) : Bool × Ownership W L :=
  if o.outcome ≠ none ∧ o.outcome ≠ replaceOutcome then (false, o)
  else (true, { o with terminal := true, outcome := some .failed })

/-- `_retain_backtest_admission_lease`; it raises if another lease is retained. -/
def retainBacktestAdmissionLease [DecidableEq L] (lease : L) : Option (Bool × Ownership W L) :=
  if !o.owned then some (false, o)
  else if o.lease.any (· ≠ lease) then none
  else some (true, { o with lease := some lease })

/-- `_register_backtest_worker`; it raises if another worker is registered. -/
def registerBacktestWorker (worker : W) : Option (Ownership W L) :=
  if o.active.isSome || !(o.retained.filter (· ≠ worker)).isEmpty then none
  else some { o with retained := [], active := some worker }

def retainBacktestWorkerForRetry (worker : W) : Ownership W L :=
  if o.active = some worker then o
  else if worker ∈ o.retained then o
  else { o with retained := o.retained ++ [worker] }

/-- `_unregister_backtest_worker`, with the lease that it releases. -/
def unregisterBacktestWorker (worker : W) : Option L × Ownership W L :=
  let o' := { o with
    active := if o.active = some worker then none else o.active
    retained := o.retained.filter (· ≠ worker) }
  if o'.owned then (none, o') else (o.lease, { o' with lease := none })

variable {o} {worker : W}

theorem workers_eq_nil : o.workers = [] ↔ o.active = none ∧ o.retained = [] := by
  have hgrow : ∀ (retained ws : List W), ws ≠ [] →
    retained.foldl (fun ws w => if w ∈ ws then ws else ws ++ [w]) ws ≠ [] := by
    intro retained
    induction retained with
    | nil => exact fun _ h => h
    | cons _ _ ih =>
      intro ws h
      simp only [List.foldl_cons]
      split
      · exact ih ws h
      · exact ih _ (by simp)
  unfold workers
  cases ha : o.active with
  | some w => simpa using hgrow o.retained [w] (by simp)
  | none =>
    cases hr : o.retained with
    | nil => simp
    | cons w retained => simpa using hgrow retained [w] (by simp)

omit [DecidableEq W] in
theorem owned_eq_false : o.owned = false ↔ o.active = none ∧ o.retained = [] ∧ o.starting = false := by
  simp [owned, and_assoc]

theorem quiescent_iff : (!o.workers.isEmpty || o.starting) = o.owned := by
  by_cases h : o.workers = []
  · obtain ⟨ha,hr⟩ := workers_eq_nil.mp h
    simp [h, owned, ha, hr]
  · have howned : (o.active.isSome || !o.retained.isEmpty) = true := by
      have hn := mt workers_eq_nil.mpr h
      cases ha : o.active <;> cases hr : o.retained <;> simp_all
    simp [h, owned, howned]

theorem sealBacktestTerminalIfQuiescent_cases (o : Ownership W L) :
    o.owned = true ∧ o.sealBacktestTerminalIfQuiescent = ((o.workers, false), o) ∨
    o.owned = false ∧ o.outcome ≠ none ∧ o.sealBacktestTerminalIfQuiescent = (([], true), o) ∨
    o.owned = false ∧ o.outcome = none ∧
      o.sealBacktestTerminalIfQuiescent = (([], true), { o with terminal := true, outcome := some .cancelled }) := by
  simp only [sealBacktestTerminalIfQuiescent, quiescent_iff]
  cases howned : o.owned with
  | true => exact .inl ⟨rfl,rfl⟩
  | false =>
    cases houtcome : o.outcome with
    | some => exact .inr (.inl ⟨rfl,by simp,rfl⟩)
    | none => exact .inr (.inr ⟨rfl,rfl,rfl⟩)

theorem sealBacktestSuccessIfQuiescent_cases (o : Ownership W L) :
    o.sealBacktestSuccessIfQuiescent = ((o.workers, false), o) ∨
    o.owned = false ∧ o.cancelRequested = false ∧ o.terminal = false ∧
      o.sealBacktestSuccessIfQuiescent = (([], true), { o with terminal := true, outcome := some .success }) := by
  simp only [sealBacktestSuccessIfQuiescent, quiescent_iff]
  split
  · exact .inl rfl
  · rename_i h
    simp only [Bool.or_eq_true, not_or, Bool.not_eq_true] at h
    exact .inr ⟨h.1.1,h.1.2,h.2,rfl⟩

omit [DecidableEq W] in
theorem sealBacktestFailure_cases (o : Ownership W L) (replaceOutcome : Option Outcome) :
    o.outcome ≠ none ∧ o.outcome ≠ replaceOutcome ∧ o.sealBacktestFailure replaceOutcome = (false, o) ∨
    (o.outcome = none ∨ o.outcome = replaceOutcome) ∧
      o.sealBacktestFailure replaceOutcome = (true, { o with terminal := true, outcome := some .failed }) := by
  unfold sealBacktestFailure
  split
  · rename_i h
    exact .inl ⟨h.1,h.2,rfl⟩
  · rename_i h
    exact .inr ⟨by tauto,rfl⟩

def SameSeal (o o' : Ownership W L) : Prop := o'.terminal = o.terminal ∧ o'.outcome = o.outcome

omit [DecidableEq W] in
theorem sameSeal_requestBacktestCancel : o.SameSeal o.requestBacktestCancel.2 := by
  unfold requestBacktestCancel
  split
  · exact ⟨rfl,rfl⟩
  · exact ⟨rfl,rfl⟩

omit [DecidableEq W] in
theorem sameSeal_admitBacktestWorkerStart : o.SameSeal (o.admitBacktestWorkerStart worker).2 := by
  unfold admitBacktestWorkerStart
  split
  · exact ⟨rfl,rfl⟩
  · exact ⟨rfl,rfl⟩

theorem sameSeal_registerBacktestWorker : o.SameSeal ((o.registerBacktestWorker worker).getD o) := by
  unfold registerBacktestWorker
  split
  · exact ⟨rfl,rfl⟩
  · exact ⟨rfl,rfl⟩

theorem sameSeal_retainBacktestWorkerForRetry : o.SameSeal (o.retainBacktestWorkerForRetry worker) := by
  unfold retainBacktestWorkerForRetry
  split
  · exact ⟨rfl,rfl⟩
  · split
    · exact ⟨rfl,rfl⟩
    · exact ⟨rfl,rfl⟩

theorem sameSeal_unregisterBacktestWorker : o.SameSeal (o.unregisterBacktestWorker worker).2 := by
  simp only [unregisterBacktestWorker, apply_ite Prod.snd]
  generalize (if o.active = some worker then none else o.active) = active
  split
  · exact ⟨rfl,rfl⟩
  · exact ⟨rfl,rfl⟩

omit [DecidableEq W] in
theorem sameSeal_retainBacktestAdmissionLease [DecidableEq L] {lease : L} :
    o.SameSeal (((o.retainBacktestAdmissionLease lease).map Prod.snd).getD o) := by
  unfold retainBacktestAdmissionLease
  split
  · exact ⟨rfl,rfl⟩
  · split
    · exact ⟨rfl,rfl⟩
    · exact ⟨rfl,rfl⟩

end Ownership

/-! ### Any order of the operations -/

abbrev Tables (W L : Type) := String → Ownership W L

inductive TableOp (W L : Type)
  | requestCancel (runId : String)
  | discardCancel (runId : String)
  | admitStart (runId : String) (worker : W)
  | setStarting (runId : String) (starting : Bool)
  | register (runId : String) (worker : W)
  | retainForRetry (runId : String) (worker : W)
  | unregister (runId : String) (worker : W)
  | sealTerminal (runId : String)
  | sealSuccess (runId : String)
  | sealFailure (runId : String) (replaceOutcome : Option Outcome)
  | retainLease (runId : String) (lease : L)
deriving DecidableEq

namespace TableOp
variable {W L : Type} [DecidableEq W] [DecidableEq L] (o : Ownership W L)

def runId : TableOp W L → String
  | requestCancel id | discardCancel id | admitStart id _ | setStarting id _ | register id _ | retainForRetry id _
  | unregister id _
  | sealTerminal id | sealSuccess id | sealFailure id _ | retainLease id _ => id

def apply (o : Ownership W L) : TableOp W L → Ownership W L
  | requestCancel _ => o.requestBacktestCancel.2
  | discardCancel _ => { o with cancelRequested := false }
  | admitStart _ worker => (o.admitBacktestWorkerStart worker).2
  | setStarting _ starting => o.setBacktestWorkerStarting starting
  | register _ worker => (o.registerBacktestWorker worker).getD o
  | retainForRetry _ worker => o.retainBacktestWorkerForRetry worker
  | unregister _ worker => (o.unregisterBacktestWorker worker).2
  | sealTerminal _ => o.sealBacktestTerminalIfQuiescent.2
  | sealSuccess _ => o.sealBacktestSuccessIfQuiescent.2
  | sealFailure _ replaceOutcome => (o.sealBacktestFailure replaceOutcome).2
  | retainLease _ lease => ((o.retainBacktestAdmissionLease lease).map Prod.snd).getD o

def step (t : Tables W L) (op : TableOp W L) : Tables W L := Function.update t op.runId (op.apply (t op.runId))

theorem sameSeal_apply (op : TableOp W L) : o.SameSeal (op.apply o) ∨ op = .sealTerminal op.runId ∨
    op = .sealSuccess op.runId ∨
      ∃ replaceOutcome, op = .sealFailure op.runId replaceOutcome := by
  cases op with
  | requestCancel => exact .inl Ownership.sameSeal_requestBacktestCancel
  | admitStart => exact .inl Ownership.sameSeal_admitBacktestWorkerStart
  | register => exact .inl Ownership.sameSeal_registerBacktestWorker
  | retainForRetry => exact .inl Ownership.sameSeal_retainBacktestWorkerForRetry
  | unregister => exact .inl Ownership.sameSeal_unregisterBacktestWorker
  | retainLease => exact .inl Ownership.sameSeal_retainBacktestAdmissionLease
  | discardCancel id | setStarting id starting => exact .inl ⟨rfl,rfl⟩
  | sealTerminal => exact .inr (.inl rfl)
  | sealSuccess => exact .inr (.inr (.inl rfl))
  | sealFailure _ replaceOutcome => exact .inr (.inr (.inr ⟨replaceOutcome,rfl⟩))

/-- An operation seals an outcome only for a run that nobody owns, or as failed. -/
theorem apply_outcome (op : TableOp W L) : o.SameSeal (op.apply o) ∨ (op.apply o).terminal = true ∧
      ((op.apply o).outcome = some .cancelled ∧ o.outcome = none ∧ o.owned = false ∨
      (op.apply o).outcome = some .success ∧ o.terminal = false ∧ o.owned = false ∧ o.cancelRequested = false ∨
      (op.apply o).outcome = some .failed ∧ ∃ replaceOutcome, op = .sealFailure op.runId replaceOutcome ∧
        (o.outcome = none ∨ o.outcome = replaceOutcome)) := by
  obtain h | h | h | ⟨replaceOutcome,h⟩ := sameSeal_apply o op
  · exact .inl h
  · rw [h]
    simp only [apply]
    obtain ⟨-,hseal⟩ | ⟨-,-,hseal⟩ | ⟨howned,hnone,hseal⟩ := o.sealBacktestTerminalIfQuiescent_cases
    · rw [hseal]
      exact .inl ⟨rfl,rfl⟩
    · rw [hseal]
      exact .inl ⟨rfl,rfl⟩
    · rw [hseal]
      exact .inr ⟨rfl,.inl ⟨rfl,hnone,howned⟩⟩
  · rw [h]
    simp only [apply]
    obtain hseal | ⟨howned,hcancel,hterminal,hseal⟩ := o.sealBacktestSuccessIfQuiescent_cases
    · rw [hseal]
      exact .inl ⟨rfl,rfl⟩
    · rw [hseal]
      exact .inr ⟨rfl,.inr (.inl ⟨rfl,hterminal,howned,hcancel⟩)⟩
  · rw [h]
    simp only [apply]
    obtain ⟨-,-,hseal⟩ | ⟨houtcome,hseal⟩ := o.sealBacktestFailure_cases replaceOutcome
    · rw [hseal]
      exact .inl ⟨rfl,rfl⟩
    · rw [hseal]
      exact .inr ⟨rfl,.inr (.inr ⟨rfl,replaceOutcome,rfl,houtcome⟩)⟩

def Closed (o : Ownership W L) : Prop := o.terminal = o.outcome.isSome

theorem closed_apply {o : Ownership W L} (h : Closed o) (op : TableOp W L) : Closed (op.apply o) := by
  unfold Closed at h ⊢
  obtain ⟨hterminal,houtcome⟩ | ⟨hterminal,⟨hnew,-⟩ | ⟨hnew,-⟩ | ⟨hnew,-⟩⟩ := apply_outcome o op
  · rw [hterminal, houtcome, h]
  all_goals simp [hterminal, hnew]

theorem closed_run (ops : List (TableOp W L)) (id : String) : Closed (run step (fun _ => .empty) ops id) := by
  refine run_invariant (P := fun t : Tables W L => ∀ id, Closed (t id)) (fun t op h id => ?_)
    (fun _ => (rfl : Closed (.empty : Ownership W L))) ops id
  by_cases hid : id = op.runId
  · subst hid
    simpa [step] using closed_apply (h op.runId) op
  · simpa [step, hid] using h id

theorem outcome_isSome_run {t : Tables W L} {id : String} (h : (t id).outcome.isSome) (ops : List (TableOp W L)) :
    (run step t ops id).outcome.isSome := by
  refine run_invariant (P := fun t : Tables W L => (t id).outcome.isSome) (fun t op h => ?_) h ops
  by_cases hid : id = op.runId
  · subst hid
    have happly : step t op op.runId = op.apply (t op.runId) := by simp [step]
    rw [happly]
    obtain ⟨-,hsame⟩ | ⟨-,⟨hnew,-⟩ | ⟨hnew,-⟩ | ⟨hnew,-⟩⟩ := apply_outcome (t op.runId) op
    · rwa [hsame]
    all_goals simp [hnew]
  · simpa [step, hid] using h

/-- An outcome is kept, sealed once, or replaced by a failure. -/
theorem step_outcome (t : Tables W L) (op : TableOp W L) (id : String) (hclosed : Closed (t id)) :
    (step t op id).outcome = (t id).outcome ∨ (t id).outcome = none ∧ (t id).owned = false ∧
        ((step t op id).outcome = some .cancelled ∨ (step t op id).outcome = some .success ∧
          (t id).cancelRequested = false) ∨
      (step t op id).outcome = some .failed ∧ ∃ replaceOutcome, op = .sealFailure id replaceOutcome ∧
        ((t id).outcome = none ∨ (t id).outcome = replaceOutcome) := by
  by_cases hid : id = op.runId
  · subst hid
    have happly : step t op op.runId = op.apply (t op.runId) := by simp [step]
    rw [happly]
    obtain ⟨-,hsame⟩ | ⟨-,⟨hnew,hnone,howned⟩ | ⟨hnew,hterminal,howned,hcancel⟩ | hfailed⟩ :=
      apply_outcome (t op.runId) op
    · exact .inl hsame
    · exact .inr (.inl ⟨hnone,howned,.inl hnew⟩)
    · have hnone : (t op.runId).outcome = none := by simpa [Closed, hterminal] using hclosed
      exact .inr (.inl ⟨hnone,howned,.inr ⟨hnew,hcancel⟩⟩)
    · exact .inr (.inr hfailed)
  · exact .inl (by simp [step, hid])

/-- In any order of the operations, on any runs and workers: a run is sealed as a success or as
cancelled only while nobody owns it, it admits no worker once it is sealed, it is no
success while a cancel request is pending, and its outcome is replaced only by a failure that
names it. -/
theorem outcome_and_ownership (ops : List (TableOp W L)) :
    let t := fun n => run step (fun _ => .empty) (ops.take n)
    (∀ n id outcome, outcome ≠ .failed → (t n id).outcome ≠ some outcome → (t (n + 1) id).outcome = some outcome →
      (t n id).owned = false) ∧
    (∀ n m id worker, n ≤ m → (t n id).outcome.isSome → ops[m]? = some (.admitStart id worker) →
      ((t m id).admitBacktestWorkerStart worker).1 = false) ∧
    (∀ n id, (t n id).outcome ≠ some .success → (t (n + 1) id).outcome = some .success →
      (t n id).cancelRequested = false) ∧
    (∀ n id outcome, (t n id).outcome = some outcome → (t (n + 1) id).outcome ≠ some outcome →
      (t (n + 1) id).outcome = some .failed ∧ ops[n]? = some (.sealFailure id (some outcome))) := by
  intro t
  have hstep : ∀ n id, (t (n + 1) id).outcome ≠ (t n id).outcome → ∃ op, ops[n]? = some op ∧
    t (n + 1) = step (t n) op := by
    intro n id hne
    have hsucc : t (n + 1) = _ := run_take_succ step _ ops n
    cases hop : ops[n]? with
    | none =>
      rw [hop] at hsucc
      exact absurd (by rw [hsucc]; rfl) hne
    | some op =>
      rw [hop] at hsucc
      exact ⟨op,rfl,hsucc⟩
  refine ⟨fun n id outcome hfailed hold hnew => ?_,fun n m id worker hnm hsome hop => ?_,fun n id hold hnew => ?_,
    fun n id outcome hold hnew => ?_⟩
  · obtain ⟨op,-,hsucc⟩ := hstep n id (by rw [hnew]; exact Ne.symm hold)
    rw [hsucc] at hnew
    obtain hsame | ⟨-,howned,-⟩ | ⟨hnew',-⟩ := step_outcome (t n) op id (closed_run _ id)
    · exact absurd (hsame.symm.trans hnew) hold
    · exact howned
    · exact absurd (Option.some.inj (hnew.symm.trans hnew')) hfailed
  · have hlater : (t m id).outcome.isSome := by
      have hrun : t m = run step (t n) ((ops.take m).drop n) := run_take_of_le step _ ops hnm
      rw [hrun]
      exact outcome_isSome_run hsome _
    have hterminal : (t m id).terminal = true := (closed_run _ id).trans hlater
    simp [Ownership.admitBacktestWorkerStart, hterminal]
  · obtain ⟨op,-,hsucc⟩ := hstep n id (by rw [hnew]; exact Ne.symm hold)
    rw [hsucc] at hnew
    obtain hsame | ⟨-,-,hnew' | ⟨-,hcancel⟩⟩ | ⟨hnew',-⟩ := step_outcome (t n) op id (closed_run _ id)
    · exact absurd (hsame.symm.trans hnew) hold
    · cases hnew.symm.trans hnew'
    · exact hcancel
    · cases hnew.symm.trans hnew'
  · obtain ⟨op,hop,hsucc⟩ := hstep n id (by rw [hold]; exact hnew)
    rw [hsucc] at hnew ⊢
    obtain hsame | ⟨hnone,-,-⟩ | ⟨hfailed,replaceOutcome,rfl,hnone | hreplace⟩ :=
      step_outcome (t n) op id (closed_run _ id)
    · exact absurd (hsame.trans hold) hnew
    · cases hold.symm.trans hnone
    · cases hold.symm.trans hnone
    · exact ⟨hfailed,by rw [hop, ← hreplace, hold]⟩

end TableOp
end OpenPine.Backtests
