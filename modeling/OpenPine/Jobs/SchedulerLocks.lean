import OpenPine.Foundation.Python
import OpenPine.Foundation.Runs
import Mathlib.Data.Int.Notation

/-! # The locks of the scheduler

`acquire_lock`, `release_lock` and `recover_stale_locks` of `openpine/jobs/scheduler.py`,
each of which is one step under the lock of the scheduler. Expiries are in milliseconds.
-/
namespace OpenPine.Scheduling
open Python Runs

abbrev Locks := Dict String (String × ℤ)

def acquireLock (locks : Locks) (resource owner : String) (ttlSeconds now : ℤ) : Bool × Locks :=
  let acquired := Dict.put locks resource (owner, now + ttlSeconds * 1000)
  match Dict.get? locks resource with
  | none => (true, acquired)
  | some (lockOwner, expiry) =>
    if lockOwner = owner then (true, acquired)
    else if expiry > now then (false, locks)
    else (true, acquired)

def releaseLock (locks : Locks) (resource owner : String) : Locks :=
  match Dict.get? locks resource with
  | none => locks
  | some (lockOwner, _) => if lockOwner = owner then Dict.del locks resource else locks

def recoverStaleLocks (locks : Locks) (now : ℤ) : ℕ × Locks :=
  let stale := (locks.rows.filter fun p => p.2.2 ≤ now).map Prod.fst
  (stale.length, stale.foldl Dict.del locks)

/-- Every call comes with the time at which it is made. -/
inductive LockCall
  | acquire (resource owner : String) (ttlSeconds now : ℤ)
  | release (resource owner : String) (now : ℤ)
  | recover (now : ℤ)

def LockCall.now : LockCall → ℤ
  | .acquire _ _ _ now | .release _ _ now | .recover now => now

def LockCall.step (locks : Locks) : LockCall → Locks
  | .acquire resource owner ttlSeconds now => (acquireLock locks resource owner ttlSeconds now).2
  | .release resource owner _ => releaseLock locks resource owner
  | .recover now => (recoverStaleLocks locks now).2

/-- The owner neither acquires the resource anew nor releases it. -/
def LockCall.Leaves (resource owner : String) (locks : Locks) : LockCall → Prop
  | .acquire r o ttlSeconds now => r = resource → o = owner → (acquireLock locks r o ttlSeconds now).1 = false
  | .release r o _ => r = resource → o ≠ owner
  | .recover _ => True

def LockCall.Refused (resource owner : String) (locks : Locks) : LockCall → Prop
  | .acquire r o ttlSeconds now => r = resource → o ≠ owner → (acquireLock locks r o ttlSeconds now).1 = false
  | _ => True

variable {locks : Locks} {resource owner : String} {expiry : ℤ}

theorem get?_foldl_del {keys : List String} (h : resource ∉ keys) :
    Dict.get? (keys.foldl Dict.del locks) resource = Dict.get? locks resource := by
  induction keys generalizing locks with
  | nil => rfl
  | cons _ _ ih =>
    obtain ⟨hkey,hkeys⟩ := not_or.mp (List.mem_cons.not.mp h)
    rw [List.foldl_cons, ih hkeys, Dict.get?_del, if_neg (Ne.symm hkey)]

theorem acquireLock_held (h : Dict.get? locks resource = some (owner, expiry)) {o : String} {ttlSeconds now : ℤ}
    (ho : owner ≠ o) (hnow : now < expiry) : acquireLock locks resource o ttlSeconds now = (false, locks) := by
  simp [acquireLock, h, ho, hnow]

/-- While the owner keeps a lock that has not expired, all others are refused. -/
theorem LockCall.held_step (h : Dict.get? locks resource = some (owner, expiry)) {call : LockCall}
    (hnow : call.now < expiry) (hleaves : call.Leaves resource owner locks) :
    call.Refused resource owner locks ∧ Dict.get? (call.step locks) resource = some (owner, expiry) := by
  cases call with
  | acquire r o ttlSeconds now =>
    by_cases hr : r = resource
    · subst hr
      by_cases ho : owner = o
      · subst ho
        simpa [acquireLock, h] using hleaves rfl rfl
      · have hheld : acquireLock locks r o ttlSeconds now = (false, locks) := acquireLock_held h ho hnow
        simp [Refused, step, hheld, h]
    · refine ⟨fun hr' => absurd hr' hr,?_⟩
      have hput : ∀ v, Dict.get? (Dict.put locks r v) resource = some (owner, expiry) := by
        intro v
        rw [Dict.get?_put, if_neg hr, h]
      simp only [step, acquireLock]
      split
      · exact hput _
      · split_ifs
        · exact hput _
        · exact h
        · exact hput _
  | release r =>
    refine ⟨trivial,?_⟩
    simp only [step, releaseLock]
    split
    · exact h
    · rename_i lockOwner _ hget
      split_ifs with ho
      · have hr : r ≠ resource := by
          rintro rfl
          cases h.symm.trans hget
          exact hleaves rfl ho.symm
        rw [Dict.get?_del, if_neg hr, h]
      · exact h
  | recover now =>
    refine ⟨trivial,?_⟩
    have hstale : resource ∉ (locks.rows.filter fun p => p.2.2 ≤ now).map Prod.fst := by
      intro hmem
      obtain ⟨p,hp,rfl⟩ := List.mem_map.mp hmem
      obtain ⟨hp,hle⟩ := List.mem_filter.mp hp
      have hget : p.2 = (owner, expiry) := by simpa [Dict.get?, Table.find?_of_mem hp] using h
      have hnow : now < expiry := hnow
      simp only [hget, decide_eq_true_eq] at hle
      omega
    exact (get?_foldl_del hstale).trans h

theorem LockCall.eachStep_held {calls : List LockCall} (hclock : calls.Pairwise (fun c c' => c.now ≤ c'.now))
    (hleaves : EachStep step (Leaves resource owner) locks calls)
    (h : Dict.get? locks resource = some (owner, expiry) ∨ ∀ call ∈ calls, expiry ≤ call.now) :
    EachStep step (fun locks call => call.now < expiry →
      call.Refused resource owner locks ∧ Dict.get? (call.step locks) resource = some (owner, expiry)) locks calls := by
  induction calls generalizing locks with
  | nil => trivial
  | cons call _ ih =>
    obtain ⟨hfirst,hrest⟩ := List.pairwise_cons.mp hclock
    by_cases hnow : call.now < expiry
    · have hget := h.resolve_right fun hall => absurd (hall call List.mem_cons_self) (by omega)
      have hstep := held_step hget hnow hleaves.1
      exact ⟨fun _ => hstep,ih hrest hleaves.2 (.inl hstep.2)⟩
    · refine ⟨fun h => absurd h hnow,ih hrest hleaves.2 (.inr fun c hc => ?_)⟩
      have hle := hfirst c hc
      omega

/-- After a granted `acquire_lock`, and until its owner acquires or releases the resource again,
every call before the expiry leaves the lock as it is and grants it to nobody else. -/
theorem lock_held_until_expiry (locks : Locks) (resource owner : String) (ttlSeconds now : ℤ)
    (hgranted : (acquireLock locks resource owner ttlSeconds now).1 = true) (calls : List LockCall)
    (hclock : calls.Pairwise fun c c' => c.now ≤ c'.now)
    (hleaves : EachStep LockCall.step (LockCall.Leaves resource owner)
      (acquireLock locks resource owner ttlSeconds now).2 calls) :
    EachStep LockCall.step (fun locks call => call.now < now + ttlSeconds * 1000 → call.Refused resource owner locks ∧
        Dict.get? (call.step locks) resource = some (owner, now + ttlSeconds * 1000))
      (acquireLock locks resource owner ttlSeconds now).2 calls := by
  refine LockCall.eachStep_held hclock hleaves (.inl ?_)
  unfold acquireLock at hgranted ⊢
  split at hgranted
  · simp [Dict.get?_put]
  · split_ifs at hgranted ⊢
    · simp [Dict.get?_put]
    · simp [Dict.get?_put]

theorem lock_held_until_expiry_two :
    EachStep LockCall.step (fun locks call => call.now < 60000 → call.Refused "bars" "a" locks ∧
        Dict.get? (call.step locks) "bars" = some ("a", 60000))
      (acquireLock .empty "bars" "a" 60 0).2 [.acquire "bars" "b" 60 10, .recover 59999, .release "bars" "b" 59999] :=
  lock_held_until_expiry .empty "bars" "a" 60 0 rfl _ (by decide)
    ⟨fun _ h => by simp at h,trivial,fun _ => by decide,trivial⟩

end OpenPine.Scheduling
