import Mathlib.Algebra.Order.Group.Defs
import Mathlib.Algebra.Order.Sub.Basic
import Mathlib.Data.List.Basic

/-! # A limit on the stamps in every window

Stamps are logged over time. A list keeps those that are not older than a cutoff. If a
new stamp is admitted only while that list is short enough, no closed interval of the
width of the window ever holds more stamps than the limit.
-/
namespace OpenPine.SlidingWindow
open List
variable {T : Type*} [LinearOrder T] {stamps kept : List T} {cutoff later : T}

/-- Every stamp that is not older than the cutoff is in the list. -/
def Recent (cutoff : T) (stamps kept : List T) : Prop := (stamps.filter (cutoff ≤ ·)).Sublist kept

theorem recent_nil : Recent cutoff [] kept := nil_sublist kept

theorem filter_filter_of_le (h : cutoff ≤ later) :
    (stamps.filter (cutoff ≤ ·)).filter (later ≤ ·) = stamps.filter (later ≤ ·) := by
  rw [filter_filter]
  apply filter_congr
  intro s _
  simp only [Bool.and_eq_left_iff_imp, decide_eq_true_eq]
  exact h.trans

theorem Recent.mono (h : Recent cutoff stamps kept) (hle : cutoff ≤ later) : Recent later stamps kept := by
  unfold Recent
  rw [← filter_filter_of_le hle]
  exact filter_sublist.trans h

theorem Recent.prune (h : Recent later stamps kept) (hle : cutoff ≤ later) :
    Recent later stamps (kept.filter (cutoff ≤ ·)) := by
  have hold : (stamps.filter (later ≤ ·)).filter (cutoff ≤ ·) = stamps.filter (later ≤ ·) := by
    apply filter_eq_self.mpr
    intro s hs
    have hs := of_mem_filter hs
    simp only [decide_eq_true_eq] at hs ⊢
    exact hle.trans hs
  unfold Recent
  rw [← hold]
  exact h.filter _

theorem Recent.concat (h : Recent cutoff stamps kept) (t : T) : Recent cutoff (stamps ++ [t]) (kept ++ [t]) := by
  unfold Recent
  rw [filter_append]
  exact h.append filter_sublist

variable [AddCommGroup T] {width t : T} {limit : ℕ}

def within (width a : T) (stamps : List T) : ℕ := stamps.countP fun t => a ≤ t ∧ t ≤ a + width

def Bounded (width : T) (limit : ℕ) (stamps : List T) : Prop := ∀ a, within width a stamps ≤ limit

theorem bounded_nil : Bounded width limit [] := fun _ => Nat.zero_le _

theorem Bounded.concat [IsOrderedAddMonoid T] (h : Bounded width limit stamps)
    (hrecent : Recent (t - width) stamps kept) (hlen : kept.length < limit) : Bounded width limit (stamps ++ [t]) := by
  intro a
  unfold within
  rw [countP_append, countP_singleton]
  split
  · -- the interval ends at or after the new stamp, so what it holds is in the list
    rename_i hin
    have hin : a ≤ t ∧ t ≤ a + width := of_decide_eq_true hin
    have hcount : stamps.countP (fun s => a ≤ s ∧ s ≤ a + width) ≤ (stamps.filter (t - width ≤ ·)).length := by
      rw [← countP_eq_length_filter]
      apply countP_mono_left
      intro s _ hs
      have hs : a ≤ s ∧ s ≤ a + width := of_decide_eq_true hs
      exact decide_eq_true ((sub_le_iff_le_add.mpr hin.2).trans hs.1)
    have hkept : (stamps.filter (t - width ≤ ·)).length ≤ kept.length := hrecent.length_le
    omega
  · exact h a

end OpenPine.SlidingWindow
