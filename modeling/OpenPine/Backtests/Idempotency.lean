import Mathlib.Data.Option.Basic
import Mathlib.Data.Int.Notation
import Mathlib.Data.Nat.Notation

/-! # Backtest requests under one idempotency key

`run_backtest` of `openpine/gateway/routes/backtest.py` for requests that carry one and the same
`Idempotency-Key`, and the row of `api_idempotency` for that key. The functions on the row are the
statements that hold `_IDEMPOTENCY_LOCK`. A request takes one step at a time, every step
reads a clock of its own, and `claim_token` and `run_id` are fresh, so the number of
the request stands for both.
-/
namespace OpenPine.Backtests.Idempotency

def pendingTtlMs : ℤ := 5 * 60 * 1000
def resultTtlMs : ℤ := 7 * 24 * 60 * 60 * 1000

/-- The row of the key; `created_at` is never read. -/
structure Claim (H : Type) where
  hash : H
  token : ℕ
  result : Option ℕ
  updatedAt : ℤ

/-- The errors of status 409, 429 and 503 that a request is answered with. -/
inductive RequestError
  | differentRequest | stillScheduling | resultUnavailable | superseded | saturated
  | storageUnavailable | jobPersistence | scheduling
deriving DecidableEq, Repr

section Storage
variable {H : Type} [DecidableEq H] {table : Option (Claim H)} {c : Claim H} {hash : H}

def Claim.expired (now : ℤ) (c : Claim H) : Bool :=
  match c.result with
  | none => c.updatedAt < now - pendingTtlMs
  | some _ => c.updatedAt < now - resultTtlMs

def sweep (now : ℤ) (table : Option (Claim H)) : Option (Claim H) := table.filter fun c => !c.expired now

/-- `_claim_backtest_idempotency_storage`: the run of an earlier request or a claim of its own -/
def claimStorage (table : Option (Claim H)) (now : ℤ) (hash : H) (token : ℕ) :
    Option (Claim H) × Except RequestError (Option ℕ) :=
  match sweep now table with
  | none => (some ⟨hash,token,none,now⟩, .ok none)
  | some c =>
    (some c, if c.hash ≠ hash then .error .differentRequest
      else match c.result with
        | none => .error .stillScheduling
        | some runId => .ok (some runId))

def Claim.pendingFor (hash : H) (token : ℕ) (c : Claim H) : Bool := c.hash = hash && c.token = token && c.result.isNone

/-- `_complete_backtest_idempotency_storage`, which raises if it updates no row -/
def completeStorage (table : Option (Claim H)) (now : ℤ) (hash : H) (token runId : ℕ) : Option (Claim H) :=
  (table.filter (Claim.pendingFor hash token)).map fun c => { c with result := some runId, updatedAt := now }

/-- `_release_backtest_idempotency_storage` -/
def releaseStorage (table : Option (Claim H)) (hash : H) (token : ℕ) : Option (Claim H) :=
  table.filter fun c => !c.pendingFor hash token

omit [DecidableEq H] in
theorem sweep_cases (now : ℤ) (table : Option (Claim H)) :
    sweep now table = table ∨ sweep now table = none ∧ ∃ c, table = some c ∧ c.expired now = true := by
  cases table with
  | none => exact .inl rfl
  | some c =>
    cases hexpired : c.expired now with
    | true => exact .inr ⟨by simp [sweep, hexpired],c,rfl,hexpired⟩
    | false => exact .inl (by simp [sweep, hexpired])

/-- A claim is taken over from nobody or an expired one, refused, or answered with its run. -/
theorem claimStorage_cases (table : Option (Claim H)) (now : ℤ) (hash : H) (token : ℕ) :
    (claimStorage table now hash token = (some ⟨hash,token,none,now⟩, .ok none) ∧ ∀ c, table = some c →
      c.expired now = true) ∨
    (∃ error, claimStorage table now hash token = (table, .error error)) ∨
    ∃ c runId, table = some c ∧ c.result = some runId ∧
      claimStorage table now hash token = (table, .ok (some runId)) := by
  unfold claimStorage
  obtain hsame | ⟨hnone,c,rfl,hexpired⟩ := sweep_cases now table
  · rw [hsame]
    cases table with
    | none => exact .inl ⟨rfl,fun c hc => by cases hc⟩
    | some c =>
      dsimp only
      split
      · exact .inr (.inl ⟨_,rfl⟩)
      · cases hresult : c.result with
        | none => exact .inr (.inl ⟨_,rfl⟩)
        | some runId => exact .inr (.inr ⟨c,runId,rfl,hresult,rfl⟩)
  · rw [hnone]
    refine .inl ⟨rfl,fun c' hc' => ?_⟩
    obtain rfl := Option.some.inj hc'
    exact hexpired

theorem pendingFor_iff {token : ℕ} : c.pendingFor hash token = true ↔ c.hash = hash ∧ c.token = token ∧
    c.result = none := by
  simp [Claim.pendingFor, and_assoc]

theorem completeStorage_some {now : ℤ} {token runId : ℕ} (h : completeStorage table now hash token runId = some c) :
    c.hash = hash ∧ c.token = token ∧ c.result = some runId ∧ ∃ c', table = some c' ∧ c'.token = token ∧
      c'.result = none := by
  simp only [completeStorage, Option.map_eq_some_iff, Option.filter_eq_some_iff, pendingFor_iff] at h
  obtain ⟨c',⟨htable,hhash,htoken,hresult⟩,rfl⟩ := h
  exact ⟨hhash,htoken,rfl,c',htable,htoken,hresult⟩

theorem releaseStorage_cases (table : Option (Claim H)) (hash : H) (token : ℕ) :
    releaseStorage table hash token = table ∨
      releaseStorage table hash token = none ∧ ∃ c, table = some c ∧ c.token = token ∧ c.result = none := by
  cases table with
  | none => exact .inl rfl
  | some c =>
    cases hpending : c.pendingFor hash token with
    | true => exact .inr ⟨by simp [releaseStorage, hpending],c,rfl,(pendingFor_iff.mp hpending).2⟩
    | false => exact .inl (by simp [releaseStorage, hpending])

theorem releaseStorage_not_pending {token : ℕ} (h : releaseStorage table hash token = some c) :
    c.pendingFor hash token = false := by
  simpa [releaseStorage] using (Option.filter_eq_some_iff.mp h).2

end Storage

inductive Point
  | claim
  | lookup (runId : ℕ)
  | acquire | create | persist | complete
  | release (error : RequestError)
  | schedule
  | returned (runId : ℕ)
  | raised (error : RequestError)
deriving DecidableEq, Repr

structure Request (H : Type) where
  hash : H
  point : Point

structure World (H : Type) where
  table : Option (Claim H)
  requests : ℕ → Option (Request H)
  /-- The runs that were handed to the background tasks. -/
  scheduled : List ℕ

inductive Event (H : Type)
  | arrive (i : ℕ) (hash : H)
  | step (i : ℕ) (now : ℤ) (ok : Bool)
  /-- A request with another key claims. -/
  | sweep (now : ℤ)

namespace World
variable {H : Type} [DecidableEq H] (w : World H)

def start : World H := ⟨none,fun _ => none,[]⟩

def goto (i : ℕ) (hash : H) (point : Point) : World H :=
  { w with requests := Function.update w.requests i (some ⟨hash,point⟩) }

/-- One step of a request; a step that is not `ok` raises. -/
def advance (i : ℕ) (hash : H) (now : ℤ) (ok : Bool) : Point → World H
  | .claim =>
    if ok then
      let (table, claimed) := claimStorage w.table now hash i
      { w with table := table }.goto i hash
        (match claimed with
        | .ok none => .acquire
        | .ok (some runId) => .lookup runId
        | .error error => .raised error)
    else w.goto i hash (.raised .storageUnavailable)
  | .lookup runId => w.goto i hash (if ok then .returned runId else .raised .resultUnavailable)
  | .acquire => w.goto i hash (if ok then .create else .release .saturated)
  | .create => w.goto i hash (if ok then .persist else .release .storageUnavailable)
  | .persist => w.goto i hash (if ok then .complete else .raised .jobPersistence)
  | .complete =>
    if ok then
      match completeStorage w.table now hash i i with
      | some c => { w with table := some c }.goto i hash .schedule
      | none => w.goto i hash (.release .superseded)
    else w.goto i hash (.release .storageUnavailable)
  | .release error =>
    if ok then { w with table := releaseStorage w.table hash i }.goto i hash (.raised error)
    else w.goto i hash (.raised error)
  | .schedule =>
    if ok then { w with scheduled := i :: w.scheduled }.goto i hash (.returned i)
    else w.goto i hash (.raised .scheduling)
  | .returned _ | .raised _ => w

def step : Event H → World H
  | .arrive i hash => if w.requests i = none then w.goto i hash .claim else w
  | .step i now ok =>
    match w.requests i with
    | none => w
    | some r => w.advance i r.hash now ok r.point
  | .sweep now => { w with table := Idempotency.sweep now w.table }

end World
end OpenPine.Backtests.Idempotency
