import OpenPine.Foundation.Connection

/-! # The methods of `SQLiteStorage`

Each method holds the lock of the storage while it uses the one connection. A block under
`transaction()` holds it from its first line to its last; it commits when it returns, and
it rolls back whatever transaction the connection has when it raises.
-/
namespace OpenPine.Storage
open Hoare Sqlite
variable {D α : Type}

/-- `except Exception` does not catch an interrupt. -/
inductive Raised
  | exception (text : String)
  | interrupt
deriving DecidableEq, Repr

abbrev Method (D α : Type) := Program Raised (Connection D) α

namespace SQLiteStorage

def execute (fault : Option (Fault Raised)) (statement : D → Except Raised (α × D)) : Method D α :=
  Connection.execute fault statement

def commit (fault : Option (Fault Raised)) : Method D Unit := Connection.commit fault

def rollback : Method D Unit := Connection.rollback

def transaction (last : Option (Fault Raised)) (block : Method D α) : Method D α :=
  tryCatch (do
    let a ← block
    commit last
    return a)
  fun
    | .exception text => do
      rollback
      throw (.exception text)
    | .interrupt => throw .interrupt

section Equations
variable {last : Option (Fault Raised)} {block : Method D α} {c c' : Connection D}

theorem run_transaction_exception {text : String} (h : block.run.run c = (.error (.exception text), c')) :
    (transaction last block).run.run c = (.error (.exception text), { c' with pending := none }) := by
  unfold transaction
  rw [ExceptT.run_tryCatch, StateT.run_bind, run_bind_error h]
  rfl

theorem run_transaction_interrupt (h : block.run.run c = (.error .interrupt, c')) :
    (transaction last block).run.run c = (.error .interrupt, c') := by
  unfold transaction
  rw [ExceptT.run_tryCatch, StateT.run_bind, run_bind_error h]
  rfl

theorem run_transaction_ok {a : α} (h : block.run.run c = (.ok a, c')) :
    (transaction last block).run.run c = match c'.pending, last with
      | none, _ => (.ok a, c')
      | some d, none => (.ok a, ⟨d,none⟩)
      | some d, some f => (.error f.error, match f.error with
        | .exception _ => { c' with pending := none }
        | .interrupt => { c' with pending := f.left d }) := by
  have hcommit : (commit last : Method D Unit).run.run c' = _ := Connection.run_commit
  unfold transaction
  rw [ExceptT.run_tryCatch, StateT.run_bind, run_bind_ok h]
  cases hpending : c'.pending with
  | none =>
    rw [hpending] at hcommit
    rw [run_bind_ok hcommit]
    rfl
  | some =>
    cases last with
    | none =>
      rw [hpending] at hcommit
      rw [run_bind_ok hcommit]
      rfl
    | some f =>
      rw [hpending] at hcommit
      rw [run_bind_error hcommit]
      cases f with
      | kept e | abandoned e => cases e <;> rfl

end Equations
end SQLiteStorage
end OpenPine.Storage
