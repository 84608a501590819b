import OpenPine.Strategies.Connection
import OpenPine.Strategies.SafeState

/-! # What a failed creation leaves behind

`register_strategy` and `create_strategy` do not roll back when their `INSERT` fails. What
is stored is unchanged, but the transaction that the statement opened stays open, and the
next call that begins a transaction itself raises.
-/
namespace OpenPine.Strategies
open Hoare Sqlite Connection

def Request.Creates : Request → Prop
  | .call (.registerStrategy _ _ _ _) _ => True
  | .call (.createStrategy _ _ _ _ _) _ => True
  | .unencodable _ => True
  | _ => False

/-- A failed `INSERT` or commit leaves the connection as it was: the statement failed within
a transaction that was open before, or the database gave up the transaction that the
statement had opened. -/
def Untouched (faults : Faults) (c : Connection Registry) (insert : Registry → Except Failure (Row × Registry)) :
    Prop :=
  match faults.statement, insert c.view, faults.commit with
  | some (.kept _), _, _ => c.pending.isSome
  | some (.abandoned _), _, _ => c.pending = none
  | none, .error _, _ => c.pending.isSome
  | none, .ok _, some (.abandoned _) => c.pending = none
  | none, .ok _, _ => False

/-- The same for a request. Parameters that cannot be encoded never reach the connection. -/
def Request.Untouched (c : Connection Registry) : Request → Prop
  | .call (.registerStrategy digest now d name) faults => Strategies.Untouched faults c
    (·.registerStrategy digest now d name)
  | .call (.createStrategy digest now d name semanticProfile) faults =>
    Strategies.Untouched faults c (·.createStrategy digest now d name semanticProfile)
  | _ => True

variable {e : Conversions} {c c' : Connection Registry}

/-! ### Connections that answer alike -/

theorem trip_raises_iff : ((perform e (.call (.tripWorkerCircuit "") {})).run.run c).1 = .error .nestedTransaction ↔
    c.pending.isSome := by
  by_cases hopen : c.pending.isSome
  · simp only [perform, performOp, atomically, run_transaction_nested hopen, hopen]
  · have hidle : c.pending = none := by simpa using hopen
    simp [perform, performOp, atomically, run_transaction_idle hidle, counted, hidle]

theorem listed_eq : ((perform e (.listStrategies none)).run.run c).1 = .ok (.strategies c.view.rows.rows) := rfl

theorem circuit_eq :
    ((perform e .workerCircuitState).run.run c).1 = .ok (.circuit c.view.circuitOpen c.view.circuitReason) := rfl

theorem Registry.eq_of_fields {r r' : Registry} (hrows : r'.rows.rows = r.rows.rows)
    (hopen : r'.circuitOpen = r.circuitOpen) (hreason : r'.circuitReason = r.circuitReason) : r' = r := by
  obtain ⟨⟨rows,hnodup⟩,isOpen,reason⟩ := r
  obtain ⟨⟨rows',hnodup'⟩,isOpen',reason'⟩ := r'
  cases hrows
  cases hopen
  cases hreason
  rfl

/-- Later requests tell two connections apart exactly if they differ. -/
theorem outcomes_eq_iff (hstored : c'.stored = c.stored) :
    (∀ requests, outcomes e c' requests = outcomes e c requests) ↔ c' = c := by
  constructor
  · intro h
    have hfirst : ∀ request, ((perform e request).run.run c').1 = ((perform e request).run.run c).1 := by
      intro request
      simpa [outcomes] using h [request]
    have hopen : c'.pending.isSome ↔ c.pending.isSome := by rw [← trip_raises_iff (e := e), hfirst, trip_raises_iff]
    have hview : c'.view = c.view := by
      have hrows := hfirst (.listStrategies none)
      have hcircuit := hfirst .workerCircuitState
      simp only [listed_eq, circuit_eq, Except.ok.injEq, Answer.strategies.injEq, Answer.circuit.injEq]
        at hrows hcircuit
      exact Registry.eq_of_fields hrows hcircuit.1 hcircuit.2
    obtain ⟨stored,pending⟩ := c
    obtain ⟨stored',pending'⟩ := c'
    cases hstored
    cases pending <;> cases pending' <;> simp_all [view]
  · intro h requests
    rw [h]

/-! ### The failing call -/

theorem same_pending_iff {pending : Option Registry} : ({ c with pending } : Connection Registry) = c ↔
    c.pending = pending := by
  obtain ⟨stored,pending'⟩ := c
  simp [eq_comm]

theorem some_view_iff : c.pending = some c.view ↔ c.pending.isSome := by
  cases h : c.pending with
  | none => simp
  | some => simp [view, h]

theorem unguarded_failed {insert : Registry → Except Failure (Row × Registry)} {faults : Faults} {why : Raised}
    (hinsert : ∀ r row r', insert r = .ok (row, r') → ∃ new, r'.rows.rows = r.rows.rows ++ [new])
    (h : (unguarded faults (statements .strategy insert)).run.run c = (.error why, c')) :
    c'.stored = c.stored ∧ (c' = c ↔ Untouched faults c insert) := by
  unfold unguarded at h
  rw [run_executeThenCommit] at h
  unfold Untouched
  unfold statements at h
  cases hstatement : faults.statement with
  | some fault =>
    rw [hstatement] at h
    cases h
    cases fault with
    | kept => exact ⟨rfl,same_pending_iff.trans some_view_iff⟩
    | abandoned => exact ⟨rfl,same_pending_iff⟩
  | none =>
    rw [hstatement] at h
    cases hrow : insert c.view with
    | error =>
      rw [hrow] at h
      cases h
      exact ⟨rfl,same_pending_iff.trans some_view_iff⟩
    | ok inserted =>
      obtain ⟨row,r⟩ := inserted
      rw [hrow] at h
      cases hcommit : faults.commit with
      | none =>
        rw [hcommit] at h
        cases h
      | some fault =>
        rw [hcommit] at h
        cases h
        cases fault with
        | abandoned => exact ⟨rfl,same_pending_iff⟩
        | kept =>
          refine ⟨rfl,same_pending_iff.trans (iff_of_false (fun hpending => ?_) not_false)⟩
          -- the row that was not committed would already have to be there
          have hview : c.view = r := by simp [view, hpending, Fault.left]
          obtain ⟨new,hrows⟩ := hinsert _ _ _ hrow
          simp [hview] at hrows

/-- Whatever makes a creation raise, the stored strategies are unchanged. Every sequence of
later calls answers as if the failed call had not been made exactly if the failure left the
transaction state of the connection as it was. -/
theorem failed_creation_harmless_iff (e : Conversions) (c c' : Connection Registry) (request : Request)
    (hcreates : request.Creates) (why : Raised) (h : (perform e request).run.run c = (.error why, c')) :
    c'.stored = c.stored ∧
    ((∀ requests, outcomes e c' requests = outcomes e c requests) ↔ request.Untouched c) := by
  have hfailed : c'.stored = c.stored ∧ (c' = c ↔ request.Untouched c) := by
    cases request with
    | call op =>
      cases op with
      | registerStrategy | createStrategy =>
        refine unguarded_failed (fun r row r' hinsert => ?_) h
        obtain ⟨rows,hrows,rfl⟩ := insert_rows hinsert
        exact ⟨_,hrows⟩
      | _ => exact hcreates.elim
    | unencodable =>
      cases h
      exact ⟨rfl,iff_of_true rfl trivial⟩
    | _ => exact hcreates.elim
  exact ⟨hfailed.1,(outcomes_eq_iff hfailed.1).trans hfailed.2⟩

def createTrend (now : ℕ) : Request := .call (.createStrategy "9c5b94b1" now .sample "trend" none) {}

def trendCreated : Connection Registry := ((perform digits (createTrend 1)).run.run ⟨.empty,none⟩).2

def trendRefused : Connection Registry := ((perform digits (createTrend 2)).run.run trendCreated).2

/-- The name is used, so the second creation raises. The emergency stop after it raises too,
although it would have succeeded without the refused creation. -/
theorem refused_name_blocks_trip :
    ((perform digits (createTrend 2)).run.run trendCreated).1 = .error (.failure .uniqueName) ∧
    outcomes digits trendRefused [.call (.tripWorkerCircuit "worker failed") {}] = [.error .nestedTransaction] ∧
    outcomes digits trendCreated [.call (.tripWorkerCircuit "worker failed") {}] = [.ok (.count 0)] := ⟨rfl,rfl,rfl⟩

/-- A third creation under the name raises and changes nothing any more. -/
theorem refused_again_harmless :
    ((perform digits (createTrend 3)).run.run trendRefused).1 = .error (.failure .uniqueName) ∧
    ∀ requests, outcomes digits ((perform digits (createTrend 3)).run.run trendRefused).2 requests =
      outcomes digits trendRefused requests :=
  ⟨rfl,(failed_creation_harmless_iff digits trendRefused _ (createTrend 3) trivial
    (.failure .uniqueName) rfl).2.mpr rfl⟩

end OpenPine.Strategies
