import Mathlib.Data.List.Infix
import OpenPine.Foundation.Runs
import OpenPine.Storage.SQLiteStorage

/-! # Threads that share one storage

A thread writes in one of two ways: with `execute` and then `commit`, each of which takes
the lock for itself, or within a block under `transaction()`, which keeps the lock. All
threads use one connection and so one transaction: what a thread has executed and not yet
committed is stored by the next commit of any thread, and given up by the next rollback of
any thread. The thread's own commit returns normally in either case.
-/
namespace OpenPine.Storage
open Hoare Sqlite Runs SQLiteStorage List
variable {T K V : Type}

/-- An executed write: its number among all writes, and the rows that it changes, where
`none` stands for a row that it deletes. -/
structure Write (K V : Type) where
  number : ℕ
  rows : List (K × Option V)
deriving DecidableEq

abbrev Log (K V : Type) := List (Write K V)

section Content
variable [DecidableEq K] (base : K → Option V)

def Write.changes (x : Write K V) (k : K) : Prop := (x.rows.lookup k).isSome

def Write.apply (table : K → Option V) (x : Write K V) (k : K) : Option V := (x.rows.lookup k).getD (table k)

def content (base : K → Option V) (log : Log K V) : K → Option V := log.foldl Write.apply base

theorem content_of_unchanged {log : Log K V} {k : K} (h : ∀ y ∈ log, ¬y.changes k) : content base log k = base k := by
  induction log generalizing base with
  | nil => rfl
  | cons y log ih =>
    have hy : y.rows.lookup k = none := Option.not_isSome_iff_eq_none.mp (h y mem_cons_self)
    calc content base (y :: log) k = y.apply base k := ih _ fun z hz => h z (mem_cons_of_mem _ hz)
      _ = base k := by simp [Write.apply, hy]

/-- The write is in the database, and each of its rows is as it left it until a later
write changes the row. -/
def Survives (base : K → Option V) (x : Write K V) (log : Log K V) : Prop :=
  ∃ before after, log = before ++ x :: after ∧
    ∀ k v, x.rows.lookup k = some v → (∀ y ∈ after, ¬y.changes k) → content base log k = v

theorem survives_iff {x : Write K V} {log : Log K V} : Survives base x log ↔ x ∈ log := by
  constructor
  · rintro ⟨before,after,rfl,-⟩
    simp
  · intro h
    obtain ⟨before,after,rfl⟩ := append_of_mem h
    refine ⟨before,after,rfl,fun k v hv hafter => ?_⟩
    have hsplit : content base (before ++ x :: after) = content (x.apply (content base before)) after := by
      simp only [content, foldl_append, foldl_cons]
    rw [hsplit, content_of_unchanged _ hafter]
    simp [Write.apply, hv]

end Content

inductive Activity (K V : Type)
  | idle
  | wrote (x : Write K V)
  | inside

/-- How the block under `transaction()` ends before the context manager takes over. -/
inductive Ending
  | returns
  | raises (text : String)
  | interrupted
deriving DecidableEq

def Ending.block {D : Type} : Ending → Method D Unit
  | .returns => return ()
  | .raises text => throw (.exception text)
  | .interrupted => throw .interrupt

inductive Call (K V : Type)
  | execute (rows : List (K × Option V)) (fault : Option (Fault Raised))
  | commit (fault : Option (Fault Raised))
  | enter
  | leave (ending : Ending) (fault : Option (Fault Raised))

def Call.mayGiveUp : Call K V → Bool
  | .execute _ (some (.abandoned _)) => true
  | .commit (some (.abandoned _)) => true
  | .leave .returns (some _) => true
  | .leave (.raises _) _ => true
  | _ => false

/-- The storage, its users, the number of writes so far, and those writes whose `execute`
and following `commit` have returned. -/
structure World (T K V : Type) where
  conn : Connection (Log K V) := ⟨[],none⟩
  lock : Option T := none
  activity : T → Activity K V := fun _ => .idle
  writes : ℕ := 0
  acknowledged : List (Write K V) := []

def appending (x : Write K V) (log : Log K V) : Except Raised (Unit × Log K V) := .ok ((), log ++ [x])

namespace World
variable [DecidableEq T] {w : World T K V} (c : Connection (Log K V))

/-- `RLock`: a thread waits while another one holds the lock. -/
def free (w : World T K V) (t : T) : Prop := w.lock = none ∨ w.lock = some t

instance (w : World T K V) (t : T) : Decidable (w.free t) := inferInstanceAs (Decidable (_ ∨ _))

def goto (w : World T K V) (t : T) (a : Activity K V) : World T K V :=
  { w with activity := Function.update w.activity t a }

def perform (w : World T K V) (t : T) : Activity K V → Call K V → World T K V
  | .idle, .execute rows fault =>
    match (SQLiteStorage.execute fault (appending ⟨w.writes,rows⟩)).run.run w.conn with
    | (.ok _, c) => { w with conn := c, writes := w.writes + 1 }.goto t (.wrote ⟨w.writes,rows⟩)
    | (.error _, c) => { w with conn := c, writes := w.writes + 1 }
  | .wrote x, .commit fault =>
    match (SQLiteStorage.commit fault).run.run w.conn with
    | (.ok _, c) => { w with conn := c, acknowledged := x :: w.acknowledged }.goto t .idle
    | (.error _, c) => { w with conn := c }.goto t .idle
  | .idle, .enter => { w with lock := some t }.goto t .inside
  | .inside, .execute rows fault =>
    { w with
      conn := ((SQLiteStorage.execute fault (appending ⟨w.writes,rows⟩)).run.run w.conn).2, writes := w.writes + 1 }
  | .inside, .leave ending fault =>
    { w with conn := ((SQLiteStorage.transaction fault ending.block).run.run w.conn).2, lock := none }.goto t .idle
  | _, _ => w

def step (w : World T K V) (e : T × Call K V) : World T K V :=
  if w.free e.1 then w.perform e.1 (w.activity e.1) e.2 else w

/-- What a call can do to the connection; `g` says that it may give the transaction up. -/
inductive Moves (g : Prop) (c : Connection (Log K V)) : Connection (Log K V) → Prop
  | extends {c'} (hstored : c'.stored = c.stored) (hview : c.view <+: c'.view) : Moves g c c'
  | stores : Moves g c ⟨c.view,none⟩
  | givesUp (h : g) : Moves g c ⟨c.stored,none⟩

omit [DecidableEq T] in
theorem moves_fault {g : Prop} {f : Fault Raised} (hg : ∀ e, f = .abandoned e → g) :
    Moves g c { c with pending := f.left c.view } := by
  cases f with
  | kept => exact .extends rfl prefix_rfl
  | abandoned e => exact .givesUp (hg e rfl)

theorem moves_execute (x : Write K V) (rows : List (K × Option V)) (fault : Option (Fault Raised)) :
    Moves ((Call.execute rows fault).mayGiveUp = true) c ((execute fault (appending x)).run.run c).2 := by
  unfold execute
  rw [Connection.run_execute]
  cases fault with
  | none => exact .extends rfl (prefix_append _ _)
  | some =>
    refine moves_fault c fun e he => ?_
    rw [he]
    rfl

theorem run_commit_cases (fault : Option (Fault Raised)) : (commit fault).run.run c = (.ok (), ⟨c.view,none⟩) ∨
      ∃ f, fault = some f ∧ (commit fault).run.run c = (.error f.error, { c with pending := f.left c.view }) := by
  unfold commit
  rw [Connection.run_commit]
  obtain ⟨stored,pending⟩ := c
  cases pending with
  | none => exact .inl rfl
  | some =>
    cases fault with
    | none => exact .inl rfl
    | some f => exact .inr ⟨f,rfl,rfl⟩

theorem moves_leave (ending : Ending) (fault : Option (Fault Raised)) :
    Moves ((Call.leave (K := K) (V := V) ending fault).mayGiveUp = true) c
      ((transaction fault ending.block).run.run c).2 := by
  cases ending with
  | raises text =>
    rw [run_transaction_exception (rfl : (Ending.raises text).block.run.run c = (.error (.exception text), c))]
    exact .givesUp rfl
  | interrupted =>
    rw [run_transaction_interrupt (rfl : Ending.interrupted.block.run.run c = (.error .interrupt, c))]
    exact .extends rfl prefix_rfl
  | returns =>
    rw [run_transaction_ok (rfl : Ending.returns.block.run.run c = (.ok (), c))]
    obtain ⟨stored,pending⟩ := c
    cases pending with
    | none => exact .extends rfl prefix_rfl
    | some =>
      cases fault with
      | none => exact .stores
      | some f =>
        cases f with
        | kept e =>
          cases e with
          | exception => exact .givesUp rfl
          | interrupt => exact .extends rfl prefix_rfl
        | abandoned e =>
          cases e with
          | exception | interrupt => exact .givesUp rfl

inductive Happens (w : World T K V) (t : T) (call : Call K V) : World T K V → Prop
  | stays : Happens w t call w
  | writes (x : Write K V) (n : ℕ) : Happens w t call ({ w with
      conn := ⟨w.conn.stored,some (w.conn.view ++ [x])⟩, writes := n }.goto t (.wrote x))
  | works {c : Connection (Log K V)} (hc : Moves (call.mayGiveUp = true) w.conn c) {a : T → Activity K V}
      (ha : ∀ u x, a u = .wrote x → u ≠ t ∧ w.activity u = .wrote x) (l : Option T) (n : ℕ) :
      Happens w t call { w with conn := c, activity := a, lock := l, writes := n }
  | acknowledges (x : Write K V) (hx : w.activity t = .wrote x) : Happens w t call
      ({ w with conn := ⟨w.conn.view,none⟩, acknowledged := x :: w.acknowledged }.goto t .idle)

omit [DecidableEq T] in
theorem owed_of_ne {t : T} (h : ∀ x, w.activity t ≠ .wrote x) (u : T) (x : Write K V) (hu : w.activity u = .wrote x) :
    u ≠ t ∧ w.activity u = .wrote x := by
  refine ⟨?_,hu⟩
  rintro rfl
  exact h x hu

theorem owed_of_goto {t : T} {a : Activity K V} (h : ∀ x, a ≠ .wrote x) (u : T) (x : Write K V)
    (hu : Function.update w.activity t a u = .wrote x) : u ≠ t ∧ w.activity u = .wrote x := by
  by_cases hut : u = t
  · rw [hut, Function.update_self] at hu
    exact absurd hu (h x)
  · rw [Function.update_of_ne hut] at hu
    exact ⟨hut,hu⟩

/-- All that one call can do. -/
theorem happens_step (w : World T K V) (e : T × Call K V) : Happens w e.1 e.2 (w.step e) := by
  obtain ⟨t,call⟩ := e
  unfold step
  split
  case isFalse => exact .stays
  -- the pairs of an activity and a call that are possible
  case isTrue =>
    cases hactivity : w.activity t with
    | idle =>
      have howed := owed_of_ne (w := w) (t := t) (by rw [hactivity]; rintro x ⟨⟩)
      cases call with
      | execute rows fault =>
        cases fault with
        | none => exact .writes ⟨w.writes,rows⟩ (w.writes + 1)
        | some f => exact .works (moves_execute w.conn ⟨w.writes,rows⟩ rows (some f)) howed w.lock (w.writes + 1)
      | enter => exact .works (.extends rfl prefix_rfl) (owed_of_goto (by rintro x ⟨⟩)) (some t) w.writes
      | commit | leave => exact .stays
    | wrote x =>
      cases call with
      | commit fault =>
        obtain h | ⟨f,rfl,h⟩ := run_commit_cases w.conn fault
        · simp only [perform, h]
          exact .acknowledges x hactivity
        · simp only [perform, h]
          refine .works (moves_fault w.conn fun e he => ?_) (owed_of_goto (by rintro y ⟨⟩)) w.lock w.writes
          rw [he]
          rfl
      | execute | enter | leave => exact .stays
    | inside =>
      have howed := owed_of_ne (w := w) (t := t) (by rw [hactivity]; rintro x ⟨⟩)
      cases call with
      | execute rows fault => exact .works (moves_execute w.conn ⟨w.writes,rows⟩ rows fault) howed w.lock (w.writes + 1)
      | leave ending fault =>
        exact .works (moves_leave w.conn ending fault) (owed_of_goto (by rintro x ⟨⟩)) none w.writes
      | enter | commit => exact .stays

def Grows (w : World T K V) : Prop := w.conn.stored <+: w.conn.view

omit [DecidableEq T] in
theorem Moves.stored_prefix {g : Prop} {c c' : Connection (Log K V)} (h : Moves g c c') (hgrows : c.stored <+: c.view) :
    c.stored <+: c'.stored ∧ c'.stored <+: c'.view := by
  cases h with
  | «extends» hstored hview =>
    rw [hstored]
    exact ⟨prefix_rfl,hgrows.trans hview⟩
  | stores => exact ⟨hgrows,prefix_rfl⟩
  | givesUp => exact ⟨prefix_rfl,prefix_rfl⟩

theorem step_grows (h : w.Grows) (e : T × Call K V) : w.conn.stored <+: (w.step e).conn.stored ∧ (w.step e).Grows := by
  have hstep := happens_step w e
  generalize w.step e = w' at hstep ⊢
  cases hstep with
  | stays => exact ⟨prefix_rfl,h⟩
  | writes => exact ⟨prefix_rfl,h.trans (prefix_append _ _)⟩
  | works hc => exact hc.stored_prefix h
  | acknowledges => exact ⟨h,prefix_rfl⟩

/-- The commit of a thread that has executed `x` returns. -/
def Acknowledges (w : World T K V) (e : T × Call K V) (x : Write K V) : Prop :=
  (w.step e).acknowledged = x :: w.acknowledged

/-- The transaction is given up while another thread has a write in it that it has executed
and not yet committed. -/
def Drops (w : World T K V) (e : T × Call K V) : Prop :=
  w.conn.pending.isSome ∧ (w.step e).conn = ⟨w.conn.stored,none⟩ ∧ ∃ u x, u ≠ e.1 ∧ w.activity u = .wrote x ∧
    x ∉ w.conn.stored

section Kept
variable [DecidableEq K] (base : K → Option V) {e : T × Call K V}

/-- Every write whose `execute` and `commit` have returned is in the database. -/
def Kept (w : World T K V) : Prop := ∀ x ∈ w.acknowledged, Survives base x w.conn.stored

/-- A call keeps what is acknowledged exactly if it acknowledges nothing that is lost. -/
theorem step_kept_iff (hgrows : w.Grows) (hkept : w.Kept base) (e : T × Call K V) :
    (w.step e).Kept base ↔ ∀ x, w.Acknowledges e x → x ∈ w.conn.view := by
  have hstored := (step_grows hgrows e).1
  have hstep := happens_step w e
  simp only [Kept, Acknowledges, survives_iff] at hkept ⊢
  generalize w.step e = w' at hstep hstored ⊢
  have hsame : w'.acknowledged = w.acknowledged →
      ((∀ x ∈ w'.acknowledged, x ∈ w'.conn.stored) ↔ ∀ x, w'.acknowledged = x :: w.acknowledged → x ∈ w.conn.view) := by
    intro h
    rw [h]
    exact ⟨fun _ x hx => absurd hx.symm (cons_ne_self x _),fun _ x hx => hstored.subset (hkept x hx)⟩
  cases hstep with
  | stays | writes | works => exact hsame rfl
  | acknowledges x =>
    constructor
    · intro h y hy
      obtain rfl : x = y := (List.cons.inj hy).1
      exact h x mem_cons_self
    · intro h y hy
      rcases mem_cons.mp hy with rfl | hy
      · exact h y rfl
      · exact hgrows.subset (hkept y hy)

/-- A thread's executed write stays in the connection's view until the thread commits. -/
def Owed (w : World T K V) : Prop := ∀ u x, w.activity u = .wrote x → x ∈ w.conn.view

omit [DecidableEq K] in
theorem step_owed (howed : w.Owed) (h : e.2.mayGiveUp = true → ¬w.Drops e) : (w.step e).Owed := by
  have hstep := happens_step w e
  unfold Drops at h
  generalize w.step e = w' at hstep h ⊢
  intro u x hu
  cases hstep with
  | stays => exact howed u x hu
  | writes y =>
    by_cases hut : u = e.1
    · obtain rfl : y = x := by simpa [goto, hut] using hu
      exact mem_append_right _ mem_cons_self
    · have hu' : w.activity u = .wrote x := by simpa [goto, hut] using hu
      exact mem_append_left _ (howed u x hu')
  | works hc ha =>
    obtain ⟨hne,hu'⟩ := ha u x hu
    have hx := howed u x hu'
    cases hc with
    | «extends» hstored hview => exact hview.subset hx
    | stores => exact hx
    | givesUp hg =>
      -- with no transaction open there was nothing to give up
      by_cases hpending : w.conn.pending.isSome
      · by_contra hlost
        exact h hg ⟨hpending,rfl,u,x,hne,hu',hlost⟩
      · have hview : w.conn.view = w.conn.stored := by simp [Connection.view, Option.not_isSome_iff_eq_none.mp hpending]
        rw [hview] at hx
        exact hx
  | acknowledges =>
    have hu' := (owed_of_goto (w := w) (by rintro z ⟨⟩) u x hu).2
    exact howed u x hu'

omit [DecidableEq K] in
theorem Owed.acknowledges (howed : w.Owed) {x : Write K V} (h : w.Acknowledges e x) : x ∈ w.conn.view := by
  have hstep := happens_step w e
  unfold Acknowledges at h
  generalize w.step e = w' at hstep h
  cases hstep with
  | stays | writes | works => exact absurd h.symm (cons_ne_self x _)
  | acknowledges y hy =>
    obtain rfl : y = x := (List.cons.inj h).1
    exact howed e.1 y hy

theorem always_kept_of_spared {events : List (T × Call K V)}
    (h : EachStep step (fun w e => e.2.mayGiveUp = true → ¬w.Drops e) {} events) :
    Always step (Kept base) {} events := by
  refine h.always (I := fun w => w.Grows ∧ w.Owed ∧ w.Kept base) ?_ (fun w hw => hw.2.2) ?_
  · rintro w e ⟨hgrows,howed,hkept⟩ hspared
    exact ⟨(step_grows hgrows e).2,step_owed howed hspared,(step_kept_iff base hgrows hkept e).mpr fun x =>
      howed.acknowledges⟩
  · exact ⟨prefix_rfl,by rintro u x ⟨⟩,by rintro x ⟨⟩⟩

/-- Acknowledged writes are kept, in every state of a run, if no block raises and no failure makes the database give up
a transaction; also if no transaction is given up while another thread has an uncommitted write in it; and exactly if no
commit returns for a write that the connection has lost. -/
theorem acknowledged_kept_iff (events : List (T × Call K V)) :
    ((∀ e ∈ events, e.2.mayGiveUp = false) → Always step (Kept base) {} events) ∧
    (EachStep step (fun w e => ¬w.Drops e) {} events → Always step (Kept base) {} events) ∧
    (Always step (Kept base) {} events ↔
      EachStep step (fun w e => ∀ x, w.Acknowledges e x → x ∈ w.conn.view) {} events) := by
  refine ⟨fun h => ?_,fun h => ?_,?_⟩
  · refine always_kept_of_spared base (eachStep_of_invariant (I := fun _ => True) (K := fun e => e.2.mayGiveUp = false)
      (fun _ _ _ _ => trivial) (fun w e _ he hg => ?_) trivial h)
    rw [he] at hg
    cases hg
  · refine always_kept_of_spared base (h.mono (I := fun _ => True) (fun _ _ _ _ => trivial) ?_ trivial)
    exact fun w e _ hdrops _ => hdrops
  · have hgrows : Grows ({} : World T K V) := prefix_rfl
    exact always_iff_eachStep (I := Grows) (fun w e hw => (step_grows hw e).2)
      (fun w e hw hkept => step_kept_iff base hw hkept e) hgrows (by rintro x ⟨⟩) events

/-- One thread inserts an order. Before it commits, a block of another thread raises. -/
def interrupted : List (Bool × Call String ℕ) :=
  [(true, .execute [("order", some 1)] none), (false, .enter), (false, .leave (.raises "disk full") none),
    (true, .commit none)]

/-- The insert and its commit return, and nothing is stored. -/
theorem acknowledged_write_lost : (run step {} interrupted).acknowledged = [⟨0,[("order", some 1)]⟩] ∧
      (run step {} interrupted).conn = ⟨[],none⟩ ∧
      ¬Always step (Kept fun _ => none) {} interrupted := by
  have hlast : (run step {} interrupted).acknowledged = [⟨0,[("order", some 1)]⟩] := rfl
  have hconn : (run step {} interrupted).conn = ⟨[],none⟩ := rfl
  refine ⟨hlast,hconn,fun h => ?_⟩
  have hkept := h.last ⟨0,[("order", some 1)]⟩ (by rw [hlast]; exact mem_cons_self)
  rw [survives_iff, hconn] at hkept
  cases hkept

end Kept

end World
end OpenPine.Storage
