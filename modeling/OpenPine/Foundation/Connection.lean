import OpenPine.Foundation.Hoare

/-! # A connection with implicit transactions

Python's `sqlite3` in its default mode. A connection sees what is stored or, within a
transaction, what the transaction has made of it. A statement that writes opens a
transaction if there is none, and the transaction stays open when the statement fails.
A failure from outside of the program may also make the database give the transaction up.
-/
namespace OpenPine.Sqlite
open Hoare
variable {ε D α : Type}

structure Connection (D : Type) where
  stored : D
  pending : Option D
deriving DecidableEq

/-- A failure from outside, and what becomes of the transaction. -/
inductive Fault (ε : Type)
  | kept (e : ε)
  | abandoned (e : ε)

def Fault.error : Fault ε → ε
  | .kept e => e
  | .abandoned e => e

def Fault.left (d : D) : Fault ε → Option D
  | .kept _ => some d
  | .abandoned _ => none

namespace Connection

def view (c : Connection D) : D := c.pending.getD c.stored

def select (f : D → Except ε α) : Program ε (Connection D) α := do
  let c ← get
  lift (f c.view)

def execute (fault : Option (Fault ε)) (statement : D → Except ε (α × D)) : Program ε (Connection D) α := do
  let c ← get
  match fault with
  | some f =>
    set { c with pending := f.left c.view }
    throw f.error
  | none =>
    match statement c.view with
    | .error e =>
      set { c with pending := some c.view }
      throw e
    | .ok (a, d) =>
      set { c with pending := some d }
      return a

/-- `BEGIN IMMEDIATE` raises within a transaction. -/
def begin (nested : ε) (fault : Option (Fault ε)) : Program ε (Connection D) Unit := do
  let c ← get
  match c.pending, fault with
  | some _, _ => throw nested
  | none, some f => throw f.error
  | none, none => set { c with pending := some c.stored }

def commit (fault : Option (Fault ε)) : Program ε (Connection D) Unit := do
  let c ← get
  match c.pending, fault with
  | none, _ => return ()
  | some d, some f =>
    set { c with pending := f.left d }
    throw f.error
  | some d, none => set (⟨d,none⟩ : Connection D)

def rollback : Program ε (Connection D) Unit := modify fun c => { c with pending := none }

/-- The statements of a script up to the first that raises, each of them stored at once. -/
def runScript : List (D → Except ε D) → D → Except ε Unit × D
  | [], d => (.ok (), d)
  | statement :: rest, d =>
    match statement d with
    | .error e => (.error e, d)
    | .ok d' => runScript rest d'

/-- An explicit transaction that is rolled back if anything in it raises. -/
def transaction (nested : ε) (first body last : Option (Fault ε)) (statements : D → Except ε (α × D)) :
    Program ε (Connection D) α :=
  tryCatch (do
    begin nested first
    let a ← execute body statements
    commit last
    return a)
  fun e => do
    rollback
    throw e

/-- A statement and its commit, with nothing around them. -/
def executeThenCommit (body last : Option (Fault ε)) (statement : D → Except ε (α × D)) :
    Program ε (Connection D) α := do
  let a ← execute body statement
  commit last
  return a

section Equations
variable {statement : D → Except ε (α × D)} {c : Connection D} {nested : ε} {first body last : Option (Fault ε)}

theorem run_execute : (execute body statement).run.run c = match body, statement c.view with
    | some f, _ => (.error f.error, { c with pending := f.left c.view })
    | none, .error e => (.error e, { c with pending := some c.view })
    | none, .ok (a, d) => (.ok a, { c with pending := some d }) := by
  unfold execute
  rw [run_bind_ok (run_get c)]
  cases body with
  | some => rfl
  | none =>
    cases h : statement c.view with
    | error | ok => rfl

theorem run_begin : (begin nested first).run.run c = match c.pending, first with
    | some _, _ => (.error nested, c)
    | none, some f => (.error f.error, c)
    | none, none => (.ok (), { c with pending := some c.stored }) := by
  unfold begin
  rw [run_bind_ok (run_get c)]
  cases h : c.pending with
  | some => rfl
  | none =>
    cases first with
    | some | none => rfl

theorem run_commit : (commit last).run.run c = match c.pending, last with
    | none, _ => (.ok (), c)
    | some d, some f => (.error f.error, { c with pending := f.left d })
    | some d, none => (.ok (), ⟨d,none⟩) := by
  unfold commit
  rw [run_bind_ok (run_get c)]
  cases h : c.pending with
  | none => rfl
  | some =>
    cases last with
    | some | none => rfl

theorem run_executeThenCommit : (executeThenCommit body last statement).run.run c = match body,
    statement c.view, last with
    | some f, _, _ => (.error f.error, { c with pending := f.left c.view })
    | none, .error e, _ => (.error e, { c with pending := some c.view })
    | none, .ok (_, d), some f => (.error f.error, { c with pending := f.left d })
    | none, .ok (a, d), none => (.ok a, ⟨d,none⟩) := by
  unfold executeThenCommit
  have hrun : (execute body statement).run.run c = _ := run_execute
  cases body with
  | some => exact run_bind_error hrun
  | none =>
    cases h : statement c.view with
    | error =>
      rw [h] at hrun
      exact run_bind_error hrun
    | ok =>
      rw [h] at hrun
      rw [run_bind_ok hrun]
      cases last with
      | some => exact run_bind_error run_commit
      | none => rw [run_bind_ok run_commit]; rfl

theorem run_transaction_nested (h : c.pending.isSome) :
    (transaction nested first body last statement).run.run c = (.error nested, { c with pending := none }) := by
  obtain ⟨d,hd⟩ := Option.isSome_iff_exists.mp h
  have hbegin : (begin nested first).run.run c = (.error nested, c) := by rw [run_begin, hd]
  unfold transaction
  rw [ExceptT.run_tryCatch, StateT.run_bind, run_bind_error hbegin]
  rfl

theorem run_transaction_idle (h : c.pending = none) :
    (transaction nested none none none statement).run.run c = match statement c.stored with
      | .error e => (.error e, c)
      | .ok (a, d) => (.ok a, ⟨d,none⟩) := by
  have hbegin : (begin nested none).run.run c = (.ok (), { c with pending := some c.stored }) := by rw [run_begin, h]
  have hbody : (execute none statement).run.run { c with pending := some c.stored } = _ := run_execute
  unfold transaction
  rw [ExceptT.run_tryCatch, StateT.run_bind, run_bind_ok hbegin]
  change _ = match statement (view { c with pending := some c.stored }) with
    | .error e | .ok (a, d) => _
  cases hs : statement (view { c with pending := some c.stored }) with
  | error =>
    rw [hs] at hbody
    rw [run_bind_error hbody]
    obtain ⟨stored,pending⟩ := c
    cases h
    rfl
  | ok =>
    rw [hs] at hbody
    rw [run_bind_ok hbody, run_bind_ok run_commit]
    rfl

end Equations
end Connection
end OpenPine.Sqlite
