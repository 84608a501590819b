import OpenPine.Foundation.SlidingWindow
import Mathlib.Algebra.Order.Ring.Int
import Mathlib.Data.Finset.Order
import Mathlib.Data.Finset.Dedup
import Mathlib.Data.List.Induction

/-! # The limit on orders per minute

The rule lists the times of the orders it allowed, for every account. The list of an account is pruned only
when that account orders again. As long as the clock does not go back, what is left of it then are the
orders allowed in the minute that ends with the new order.
-/
namespace OpenPine.Risk.MaxOrdersPerMinute
open SlidingWindow List

/-- A list for every account, empty at first. -/
abbrev OrderCounts := String → List ℤ

/-- The check of an order at the time `now`, with the reason of a refusal. -/
def check (maxOrders : ℕ) (counts : OrderCounts) (account : String) (now : ℤ) : OrderCounts × Option String :=
  let cutoff := now - 60
  let kept := (counts account).filter (cutoff < ·)
  if maxOrders ≤ kept.length then
    (Function.update counts account kept,
      some ("Account " ++ account ++ " has exceeded max orders per minute (" ++ toString maxOrders ++ ")"))
  else (Function.update counts account (kept ++ [now]), none)

/-- The lists of the rule and, for every account, all times at which it allowed an order. -/
structure Checked where
  counts : OrderCounts
  allowed : String → List ℤ

def Checked.next (maxOrders : ℕ) (w : Checked) (order : String × ℤ) : Checked :=
  let (counts, refusal) := check maxOrders w.counts order.1 order.2
  ⟨counts, if refusal = none then Function.update w.allowed order.1 (w.allowed order.1 ++ [order.2]) else w.allowed⟩

/-- A new rule after the checks of orders, each with its time. -/
def after (maxOrders : ℕ) (orders : List (String × ℤ)) : Checked :=
  orders.foldl (.next maxOrders) ⟨fun _ => [], fun _ => []⟩

/-- The list of an account and its allowed orders at the time `now`, which is not before them. -/
structure Listed (maxOrders : ℕ) (now : ℤ) (counts stamps : List ℤ) : Prop where
  recent : counts.filter (now - 59 ≤ ·) = stamps.filter (now - 59 ≤ ·)
  past : ∀ stamp ∈ stamps, stamp ≤ now
  bounded : Bounded 59 maxOrders stamps

namespace Listed
variable {maxOrders : ℕ} {now later : ℤ} {counts stamps : List ℤ} (h : Listed maxOrders now counts stamps)
include h

theorem mono (hle : now ≤ later) : Listed maxOrders later counts stamps := by
  have hcut : now - 59 ≤ later - 59 := by omega
  refine ⟨?_,fun stamp hstamp => (h.past stamp hstamp).trans hle,h.bounded⟩
  rw [← filter_filter_of_le hcut, h.recent, filter_filter_of_le hcut]

theorem kept : counts.filter (now - 60 < ·) = stamps.filter (now - 59 ≤ ·) := by
  rw [← h.recent]
  exact filter_congr fun stamp _ => decide_eq_decide.mpr (by omega)

theorem pruned : Listed maxOrders now (counts.filter (now - 60 < ·)) stamps := by
  refine ⟨?_,h.past,h.bounded⟩
  rw [h.kept, filter_filter]
  simp

theorem admitted (hfree : (counts.filter (now - 60 < ·)).length < maxOrders) :
    Listed maxOrders now (counts.filter (now - 60 < ·) ++ [now]) (stamps ++ [now]) := by
  refine ⟨?_,?_,h.bounded.concat (h.kept ▸ List.Sublist.refl _) hfree⟩
  · rw [filter_append, filter_append, h.pruned.recent]
  · simpa [or_imp, forall_and] using h.past

theorem within_eq : within 59 (now - 59) stamps = (counts.filter (now - 60 < ·)).length := by
  rw [within, h.kept, ← countP_eq_length_filter]
  refine countP_congr fun stamp hstamp => ?_
  have := h.past stamp hstamp
  simp only [decide_eq_true_eq]
  omega

end Listed

variable {maxOrders : ℕ} {now : ℤ} {w : Checked} {orders : List (String × ℤ)}

theorem listed_next {account : String} (other : String)
    (h : Listed maxOrders now (w.counts account) (w.allowed account)) :
    Listed maxOrders now ((w.next maxOrders (other, now)).counts account)
    ((w.next maxOrders (other, now)).allowed account) := by
  unfold Checked.next check
  by_cases hown : other = account
  · subst hown
    by_cases hfull : maxOrders ≤ ((w.counts other).filter (now - 60 < ·)).length
    · simpa [hfull] using h.pruned
    · simpa [hfull] using h.admitted (not_le.mp hfull)
  · by_cases hfull : maxOrders ≤ ((w.counts other).filter (now - 60 < ·)).length
    · simpa [hfull, Function.update_of_ne (Ne.symm hown)] using h
    · simpa [hfull, Function.update_of_ne (Ne.symm hown)] using h

/-- The list of an account has its orders of the last minute. -/
theorem listed_after (account : String) (horders : orders.Pairwise (·.2 ≤ ·.2))
    (hnow : ∀ order ∈ orders, order.2 ≤ now) :
    Listed maxOrders now ((after maxOrders orders).counts account) ((after maxOrders orders).allowed account) := by
  induction orders using List.reverseRecOn generalizing now with
  | nil => exact ⟨rfl,fun _ hstamp => absurd hstamp not_mem_nil,bounded_nil⟩
  | append_singleton _ order ih =>
    obtain ⟨horders,-,hlast⟩ := pairwise_append.mp horders
    have hbefore := ih horders fun earlier hearlier => hlast earlier hearlier order mem_cons_self
    rw [after, foldl_concat]
    exact (listed_next order.1 hbefore).mono (hnow order (by simp))

/-- Every minute has at most as many allowed orders of an account as the limit says, and an order is refused only
at the end of a minute that has that many. -/
theorem orders_per_minute_limited (maxOrders : ℕ) (orders : List (String × ℤ)) (hclock : orders.Pairwise (·.2 ≤ ·.2))
    (account : String) :
    (∀ start, within 59 start ((after maxOrders orders).allowed account) ≤ maxOrders) ∧
      ∀ earlier now, earlier ++ [(account, now)] <+: orders →
        (check maxOrders (after maxOrders earlier).counts account now).2 ≠ none →
        within 59 (now - 59) ((after maxOrders earlier).allowed account) = maxOrders := by
  refine ⟨?_,fun earlier now hpre hrefused => ?_⟩
  · obtain ⟨now,hnow⟩ := (orders.map Prod.snd).toFinset.exists_le
    exact (listed_after account hclock fun order horder => hnow _ (by simpa using ⟨_,horder⟩)).bounded
  · obtain ⟨hearlier,-,hlast⟩ := pairwise_append.mp (hclock.sublist hpre.sublist)
    have hlisted : Listed maxOrders now _ _ := listed_after account hearlier fun order horder =>
      hlast order horder _ mem_cons_self
    refine le_antisymm (hlisted.bounded _) ?_
    rw [hlisted.within_eq]
    by_contra hless
    exact hrefused (by simp only [check, if_neg hless])

theorem third_order_refused : let w := after 2 [("a", 0), ("b", 0), ("a", 59)]
    (check 2 w.counts "a" 59).2 = some "Account a has exceeded max orders per minute (2)" ∧
      within 59 0 (w.allowed "a") = 2 :=
  ⟨by decide +kernel,(orders_per_minute_limited 2 [("a", 0), ("b", 0), ("a", 59), ("a", 59)] (by decide) "a").2 _ 59
    ⟨[],rfl⟩
    (by decide +kernel)⟩

end OpenPine.Risk.MaxOrdersPerMinute
