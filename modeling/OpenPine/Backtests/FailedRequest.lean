import OpenPine.Foundation.Connection
import OpenPine.Backtests.Idempotency
import OpenPine.Backtests.ResultStore

/-! # What a failed backtest request gives back

`run_backtest` of `openpine/gateway/routes/backtest.py` from the admission permit on, with one
step that raises. The claims and the runs are in one database with one connection, so a
statement whose commit has failed waits in its transaction for the next commit; the jobs are in
a database of their own. The clean-up calls succeed.
-/
namespace OpenPine.Backtests.FailedRequest
open Hoare Sqlite Idempotency Connection
variable {H : Type} [DecidableEq H]

/-- The row of the idempotency key and the status of the run that the request creates. -/
structure Database (H : Type) where
  claim : Option (Claim H)
  run : Option Status

/-- The free permits of the limiter, the lease of the request and the connection. -/
structure State (H : Type) where
  free : ℕ
  held : Bool
  database : Connection (Database H)

structure OwnClaim (H : Type) where
  hash : H
  token : ℕ

inductive FailingStep
  | createStatement (fault : Fault RequestError)
  | createCommit (fault : Fault RequestError)
  | persistJob
  | completeStatement (fault : Fault RequestError)
  | completeCommit (fault : Fault RequestError)
  | updateProgress
  | addTask

namespace FailingStep

def atCreateStatement : FailingStep → Option (Fault RequestError)
  | .createStatement fault => some fault
  | _ => none

def atCreateCommit : FailingStep → Option (Fault RequestError)
  | .createCommit fault => some fault
  | _ => none

def atCompleteStatement : FailingStep → Option (Fault RequestError)
  | .completeStatement fault => some fault
  | _ => none

def atCompleteCommit : FailingStep → Option (Fault RequestError)
  | .completeCommit fault => some fault
  | _ => none

/-- There is no clean-up for the step, or it stores what the step has left. -/
def leaks : FailingStep → Bool
  | .persistJob => true
  | .createCommit (.kept _) => true
  | _ => false

end FailingStep

open FailingStep

abbrev Statement (H α : Type) := Program RequestError (Connection (Database H)) α
abbrev Handler (H α : Type) := Program RequestError (State H) α

def createRun (failing : Option FailingStep) : Statement H Unit :=
  Connection.executeThenCommit (failing.bind FailingStep.atCreateStatement) (failing.bind FailingStep.atCreateCommit)
    fun d => .ok ((), { d with run := some .running })

def markFailed : Statement H Unit :=
  Connection.executeThenCommit none none fun d => .ok ((), { d with run := d.run.map fun _ => .failed })

/-- `_complete_backtest_idempotency_storage` -/
def completeClaim (failing : Option FailingStep) (own : OwnClaim H) (now : ℤ) (runId : ℕ) : Statement H Unit := do
  let updated ← Connection.execute (failing.bind FailingStep.atCompleteStatement) fun d =>
    match completeStorage d.claim now own.hash own.token runId with
    | some c => .ok (true, { d with claim := some c })
    | none => .ok (false, d)
  if updated then Connection.commit (failing.bind FailingStep.atCompleteCommit)
  else do
    Connection.rollback
    throw .superseded

/-- `_release_backtest_idempotency_storage` -/
def releaseClaim (own : OwnClaim H) : Statement H Unit :=
  Connection.executeThenCommit none none fun d =>
    .ok ((), { d with claim := releaseStorage d.claim own.hash own.token })

def onDatabase {α : Type} (statement : Statement H α) : Handler H α := do
  let s ← get
  set { s with database := (statement.run.run s.database).2 }
  lift (statement.run.run s.database).1

/-- `_BacktestLease.release` gives the permit back once. -/
def releaseLease : Handler H Unit := modify fun s => if s.held then { s with free := s.free + 1, held := false } else s

/-- `if idempotency_claimed: _release_backtest_idempotency` -/
def releaseOwn : Option (OwnClaim H) → Handler H Unit
  | some own => onDatabase (releaseClaim own)
  | none => return ()

def acquire (own : Option (OwnClaim H)) : Handler H Unit := do
  let s ← get
  if s.free = 0 then
    releaseOwn own
    throw .saturated
  else set { s with free := s.free - 1, held := true }

def create (failing : Option FailingStep) (own : Option (OwnClaim H)) : Handler H Unit :=
  tryCatch (onDatabase (createRun failing)) fun _ => do
    releaseLease
    releaseOwn own
    throw .storageUnavailable

def persistGatewayJob : Option FailingStep → Handler H Unit
  | some .persistJob => throw .jobPersistence
  | _ => return ()

def complete (failing : Option FailingStep) (now : ℤ) (runId : ℕ) : Option (OwnClaim H) → Handler H Unit
  | some own =>
    tryCatch (onDatabase (completeClaim failing own now runId)) fun e => do
      releaseLease
      onDatabase markFailed
      onDatabase (releaseClaim own)
      throw (if e = .superseded then .superseded else .storageUnavailable)
  | none => return ()

/-- `update_progress` and `add_task` -/
def schedule (failing : Option FailingStep) : Handler H Unit :=
  tryCatch
    (match failing with
    | some .updateProgress | some .addTask => throw .scheduling
    | _ => return ())
    fun _ => do
      releaseLease
      onDatabase markFailed
      throw .scheduling

def runBacktest (failing : Option FailingStep) (own : Option (OwnClaim H)) (now : ℤ) (runId : ℕ) : Handler H Unit := do
  acquire own
  create failing own
  persistGatewayJob failing
  complete failing now runId own
  schedule failing

/-! ### What the statements leave -/

def Answered (own : Option (OwnClaim H)) (claim : Option (Claim H)) : Prop :=
  ∀ o, own = some o → ∀ c, claim = some c → c.pendingFor o.hash o.token = false

/-- The database has no pending claim of the request, and the run of the request is not running. -/
def Database.Clean (own : Option (OwnClaim H)) (d : Database H) : Prop := Answered own d.claim ∧ d.run ≠ some .running

/-- The permits are as many as before, and neither what is stored nor what the connection sees
has anything of the request that waits or runs. -/
def GivenBack (own : Option (OwnClaim H)) (free : ℕ) (s : State H) : Prop :=
  s.free = free ∧ s.database.stored.Clean own ∧ s.database.view.Clean own

def Holding (free : ℕ) (s : State H) : Prop := s.held = true ∧ s.free + 1 = free

def Fresh (c : Connection (Database H)) : Prop := c.stored.run = none ∧ c.view.run = none

omit [DecidableEq H] in
theorem run_onDatabase {α : Type} (statement : Statement H α) (s : State H) :
    (onDatabase statement).run.run s =
      ((statement.run.run s.database).1, { s with database := (statement.run.run s.database).2 }) := rfl

variable {E : RequestError → State H → Prop} {now : ℤ} {runId : ℕ} {free : ℕ} {failing : Option FailingStep}
  {P : State H → Prop} {own : Option (OwnClaim H)}

omit [DecidableEq H] in
theorem triple_onDatabase {α : Type} {Q : α → State H → Prop} {statement : Statement H α}
    (h : ∀ s, P s → match statement.run.run s.database with
      | (.ok a, c) => Q a { s with database := c }
      | (.error e, c) => E e { s with database := c }) :
    Triple P (onDatabase statement) Q E := by
  intro s hs
  have h' := h s hs
  rw [run_onDatabase]
  rcases hrun : statement.run.run s.database with ⟨e | a,c⟩
  · rw [hrun] at h'
    exact h'
  · rw [hrun] at h'
    exact h'

omit [DecidableEq H] in
theorem releaseLease_spec {P : Connection (Database H) → Prop} :
    Triple (fun s : State H => Holding free s ∧ P s.database) releaseLease
      (fun _ s => s.free = free ∧ P s.database) E := by
  rintro s ⟨⟨hheld,hfree⟩,hP⟩
  have hrun : (releaseLease : Handler H Unit).run.run s = (.ok (), { s with free := s.free + 1, held := false }) := by
    change (Except.ok (), if s.held then { s with free := s.free + 1, held := false } else s) = _
    rw [if_pos hheld]
  rw [hrun]
  exact ⟨hfree,hP⟩

omit [DecidableEq H] in
theorem cleanup_spec {f : Database H → Database H} {Q : State H → Prop}
    (h : ∀ s, P s → Q { s with database := ⟨f s.database.view,none⟩ }) :
    Triple P (onDatabase (executeThenCommit none none fun d => .ok ((), f d))) (fun _ => Q) E := by
  refine triple_onDatabase fun s hs => ?_
  rw [run_executeThenCommit]
  exact h s hs

theorem answered_none (claim : Option (Claim H)) : Answered none claim := by
  intro o ho
  cases ho

theorem answered_release (own : OwnClaim H) (claim : Option (Claim H)) :
    Answered (some own) (releaseStorage claim own.hash own.token) := by
  intro o ho c hc
  obtain rfl := Option.some.inj ho
  exact releaseStorage_not_pending hc

theorem givenBack_of_idle {s : State H} (hfree : s.free = free) (hpending : s.database.pending = none)
    (hclean : s.database.stored.Clean own) : GivenBack own free s := by
  refine ⟨hfree,hclean,?_⟩
  unfold view
  rw [hpending]
  exact hclean

theorem releaseOwn_spec :
    Triple (fun s => s.free = free ∧ Fresh s.database) (releaseOwn own) (fun _ s => GivenBack own free s) E := by
  cases own with
  | none =>
    refine .ret fun s hs => ?_
    obtain ⟨hfree,hstored,hview⟩ := hs
    exact ⟨hfree,⟨answered_none _,by simp [hstored]⟩,⟨answered_none _,by simp [hview]⟩⟩
  | some own =>
    refine cleanup_spec fun s hs => ?_
    obtain ⟨hfree,-,hview⟩ := hs
    exact givenBack_of_idle hfree rfl ⟨answered_release own _,by simp [hview]⟩

omit [DecidableEq H] in
theorem createRun_spec (h : failing.any leaks = false) :
    Triple (fun s : State H => Holding free s ∧ Fresh s.database) (onDatabase (createRun failing))
      (fun _ s => Holding free s ∧ s.database.pending = none) (fun _ s => Holding free s ∧ Fresh s.database) := by
  refine triple_onDatabase fun s hs => ?_
  obtain ⟨hholding,hfresh⟩ := hs
  unfold createRun
  rw [run_executeThenCommit]
  cases failing with
  | none => exact ⟨hholding,rfl⟩
  | some failing =>
    cases failing with
    | createStatement fault =>
      cases fault with
      | kept => exact ⟨hholding,hfresh.1,hfresh.2⟩
      | abandoned => exact ⟨hholding,hfresh.1,hfresh.1⟩
    | createCommit fault =>
      cases fault with
      | kept => simp [leaks] at h
      | abandoned => exact ⟨hholding,hfresh.1,hfresh.1⟩
    | persistJob | completeStatement fault | completeCommit fault | updateProgress | addTask => exact ⟨hholding,rfl⟩

theorem run_completeClaim {own : OwnClaim H} (c : Connection (Database H)) :
    (completeClaim failing own now runId).run.run c =
      match failing.bind atCompleteStatement, completeStorage c.view.claim now own.hash own.token runId,
        failing.bind atCompleteCommit with
      | some f, _, _ => (.error f.error, { c with pending := f.left c.view })
      | none, none, _ => (.error .superseded, { c with pending := none })
      | none, some claim, some f => (.error f.error, { c with pending := f.left { c.view with claim := some claim } })
      | none, some claim, none => (.ok (), ⟨{ c.view with claim := some claim },none⟩) := by
  unfold completeClaim
  cases hbody : failing.bind atCompleteStatement with
  | some => exact run_bind_error run_execute
  | none =>
    cases hclaim : completeStorage c.view.claim now own.hash own.token runId with
    | none =>
      rw [run_bind_ok (by rw [run_execute, hclaim])]
      rfl
    | some =>
      rw [run_bind_ok (by rw [run_execute, hclaim])]
      cases failing.bind atCompleteCommit with
      | none | some => exact run_commit

theorem completeClaim_spec {own : OwnClaim H} :
    Triple (fun s : State H => Holding free s) (onDatabase (completeClaim failing own now runId))
      (fun _ s => Holding free s ∧ s.database.pending = none ∧ Answered (some own) s.database.stored.claim)
      (fun _ s => Holding free s) := by
  refine triple_onDatabase fun s hholding => ?_
  rw [run_completeClaim]
  cases failing.bind atCompleteStatement with
  | some => exact hholding
  | none =>
    cases hclaim : completeStorage s.database.view.claim now own.hash own.token runId with
    | none => exact hholding
    | some =>
      cases failing.bind atCompleteCommit with
      | some => exact hholding
      | none =>
        refine ⟨hholding,rfl,fun o ho c hc => ?_⟩
        obtain rfl := Option.some.inj ho
        obtain rfl := Option.some.inj hc
        simp [Claim.pendingFor, (completeStorage_some hclaim).2.2.1]

omit [DecidableEq H] in
theorem markFailed_spec {P : Option (Claim H) → Prop} :
    Triple (fun s : State H => s.free = free ∧ P s.database.view.claim) (onDatabase markFailed)
      (fun _ s => s.free = free ∧ s.database.pending = none ∧ s.database.stored.run ≠ some .running ∧
        P s.database.stored.claim) E := by
  refine cleanup_spec fun s hs => ⟨hs.1,rfl,?_,hs.2⟩
  cases s.database.view.run with
  | none | some => simp

/-! ### The steps with their clean-up -/

variable {own : Option (OwnClaim H)} {failing : Option FailingStep} {free : ℕ}

theorem create_spec (h : failing.any leaks = false) :
    Triple (fun s : State H => Holding free s ∧ Fresh s.database) (create failing own)
      (fun _ s => Holding free s ∧ s.database.pending = none) (fun _ s => GivenBack own free s) := by
  refine .handle (createRun_spec h) fun e => ?_
  exact .seq releaseLease_spec (.seq releaseOwn_spec (.raise fun _ hs => hs))

theorem complete_spec : Triple (fun s : State H => Holding free s ∧ s.database.pending = none)
    (complete failing now runId own)
      (fun _ s => Holding free s ∧ s.database.pending = none ∧ Answered own s.database.stored.claim)
      (fun _ s => GivenBack own free s) := by
  cases own with
  | none => exact .ret fun s hs => ⟨hs.1,hs.2,answered_none _⟩
  | some own =>
    refine .handle (completeClaim_spec.weaken fun _ hs => hs.1) fun e => ?_
    have hlease : Triple (fun s : State H => Holding free s) releaseLease (fun _ s => s.free = free ∧ True)
        (fun (_ : RequestError) s => GivenBack (some own) free s) :=
      (releaseLease_spec (P := fun _ => True)).weaken fun _ hs => ⟨hs,trivial⟩
    refine .seq hlease (.seq (markFailed_spec (P := fun _ => True))
      (.seq (cleanup_spec fun s hs => ?_) (.raise fun _ hs => hs)))
    exact givenBack_of_idle hs.1 rfl ⟨answered_release own _,by simpa [view, hs.2.1] using hs.2.2.1⟩

/-- Whatever fails while the run is scheduled, claim, row and lease are given back. -/
theorem schedule_spec :
    Triple (fun s : State H => Holding free s ∧ s.database.pending = none ∧ Answered own s.database.stored.claim)
    (schedule failing)
      (fun _ _ => True) (fun _ s => GivenBack own free s) := by
  have hraise : Triple
    (fun s : State H => Holding free s ∧ s.database.pending = none ∧ Answered own s.database.stored.claim)
      (match failing with
        | some .updateProgress | some .addTask => throw .scheduling
        | _ => return () : Handler H Unit)
      (fun _ _ => True) (fun _ s => Holding free s ∧ Answered own s.database.view.claim) := by
    rintro s ⟨hholding,hpending,hanswered⟩
    have hview : Answered own s.database.view.claim := by simpa [view, hpending] using hanswered
    cases failing with
    | none => trivial
    | some failing =>
      cases failing with
      | updateProgress | addTask => exact ⟨hholding,hview⟩
      | createStatement fault | createCommit fault | persistJob | completeStatement fault
      | completeCommit fault => trivial
  refine .handle hraise fun e => ?_
  refine .seq (releaseLease_spec (P := fun c => Answered own c.view.claim))
    (.seq (markFailed_spec (P := Answered own)) (.raise fun s hs => ?_))
  exact givenBack_of_idle hs.1 hs.2.1 ⟨hs.2.2.2,hs.2.2.1⟩

theorem acquire_spec :
    Triple (fun s : State H => s.free = free ∧ 0 < free ∧ Fresh s.database) (acquire own)
    (fun _ s => Holding free s ∧ Fresh s.database) E := by
  refine .read fun s hs => ?_
  obtain ⟨hfree,hpos,hfresh⟩ := hs
  rw [if_neg (by omega)]
  rintro t rfl
  refine ⟨⟨rfl,?_⟩,hfresh⟩
  change t.free - 1 + 1 = free
  omega

theorem runBacktest_gives_back (h : failing.any leaks = false) (own : Option (OwnClaim H)) (now : ℤ) (runId : ℕ) :
    Triple (fun s : State H => s.free = free ∧ 0 < free ∧ Fresh s.database) (runBacktest failing own now runId)
      (fun _ _ => True) (fun _ s => GivenBack own free s) := by
  have hpersist : Triple (fun s : State H => Holding free s ∧ s.database.pending = none) (persistGatewayJob failing)
      (fun _ s => Holding free s ∧ s.database.pending = none) (fun _ s => GivenBack own free s) := by
    cases failing with
    | none => exact .ret fun _ hs => hs
    | some failing =>
      cases failing with
      | persistJob => cases h
      | createStatement fault | createCommit fault | completeStatement fault | completeCommit fault | updateProgress
      | addTask =>
        exact .ret fun _ hs => hs
  exact .seq acquire_spec (.seq (create_spec h) (.seq hpersist (.seq complete_spec schedule_spec)))

/-- A request that raises after it has got its permit, with at most one step that fails from
outside: everything is given back exactly if that step is neither the job record nor a
commit of the new run that keeps its transaction. -/
theorem failed_request_gives_back_iff (failing : Option FailingStep) (own : Option (OwnClaim H)) (now : ℤ) (runId : ℕ)
    (s : State H) (hpermit : 0 < s.free) (hfresh : Fresh s.database) {e : RequestError} {s' : State H}
    (hraised : (runBacktest failing own now runId).run.run s = (.error e, s')) :
    GivenBack own s.free s' ↔ failing.any FailingStep.leaks = false := by
  cases hleaks : failing.any leaks with
  | false =>
    have hspec := runBacktest_gives_back hleaks own now runId s ⟨rfl,hpermit,hfresh⟩
    rw [hraised] at hspec
    exact ⟨fun _ => rfl,fun _ => hspec⟩
  | true =>
    refine ⟨fun hback => ?_,fun h => by cases h⟩
    obtain ⟨_ | n,held,c⟩ := s
    · cases hpermit
    · cases failing with
      | none => cases hleaks
      | some failing =>
        cases failing with
        | persistJob =>
          -- the permit is not released
          cases hraised
          exact absurd hback.1 (Nat.ne_of_lt (Nat.lt_succ_self n))
        | createCommit fault =>
          cases fault with
          | kept =>
            -- the connection still sees the run in its transaction
            cases own with
            | none | some own =>
              cases hraised
              exact absurd rfl hback.2.2.2
          | abandoned => cases hleaks
        | createStatement fault | completeStatement fault | completeCommit fault | updateProgress
        | addTask => cases hleaks

def State.sample : State String := ⟨1,false,⟨⟨some ⟨"hash",0,none,0⟩,none⟩,none⟩⟩

def OwnClaim.sample : OwnClaim String := ⟨"hash",0⟩

theorem task_failure_gives_back :
    GivenBack (some OwnClaim.sample) 1
      ((runBacktest (some .addTask) (some OwnClaim.sample) 0 0).run.run State.sample).2 :=
  (failed_request_gives_back_iff (some .addTask) (some OwnClaim.sample) 0 0 State.sample Nat.one_pos
    ⟨rfl,rfl⟩ rfl).mpr rfl

/-- After a job that cannot be stored the permit is taken, the claim pending and the run running. -/
theorem job_failure_keeps_everything :
    let outcome := (runBacktest (some .persistJob) (some OwnClaim.sample) 0 0).run.run State.sample
    outcome.1 = .error .jobPersistence ∧ outcome.2.free = 0 ∧
      outcome.2.database = ⟨⟨some ⟨"hash",0,none,0⟩,some .running⟩,none⟩ ∧
        ¬ GivenBack (some OwnClaim.sample) 1 outcome.2 := by
  refine ⟨rfl,rfl,rfl,fun h => ?_⟩
  cases h.1

end OpenPine.Backtests.FailedRequest
