import Mathlib.Data.List.Pairwise
import Mathlib.Order.Lattice

/-! # Reading a changing ordered collection in pages

Pages are taken from the keys that are visible at the moment, in increasing order
and behind the last key emitted so far. Whatever else becomes visible or
disappears between two pages, no key is emitted twice, and a key that is visible
at every page is emitted by the time a page leaves nothing over.
-/
namespace OpenPine.Paging
open List
variable {α κ : Type*} [LinearOrder κ] {emitted visible : List κ} {k : κ} {n : ℕ}

theorem filter_after {f : α → κ} {l₁ l₂ : List α} {a : α} (h : (l₁ ++ a :: l₂).Pairwise (fun x y => f x < f y)) :
    (l₁ ++ a :: l₂).filter (fun x => f a < f x) = l₂ := by
  obtain ⟨-,hcons,hcross⟩ := pairwise_append.mp h
  have hafter := (pairwise_cons.mp hcons).1
  have hfront : l₁.filter (fun x => f a < f x) = [] := by
    rw [filter_eq_nil_iff]
    intro x hx
    have hlt := hcross x hx a mem_cons_self
    simpa using hlt.le
  have hback : l₂.filter (fun x => f a < f x) = l₂ := by
    rw [filter_eq_self]
    intro x hx
    simpa using hafter x hx
  rw [filter_append, hfront, filter_cons, if_neg (by simp), hback]
  rfl

def remaining (emitted visible : List κ) : List κ := visible.filter (fun k => ∀ b ∈ emitted.getLast?, b < k)

theorem mem_remaining : k ∈ remaining emitted visible ↔ k ∈ visible ∧ ∀ b ∈ emitted.getLast?, b < k := by
  simp [remaining]

theorem le_getLast? {l : List κ} (h : l.Pairwise (· < ·)) {x b : κ} (hx : x ∈ l) (hb : b ∈ l.getLast?) : x ≤ b := by
  obtain ⟨front,rfl⟩ := List.getLast?_eq_some_iff.mp hb
  rcases mem_append.mp hx with hx | hx
  · exact ((pairwise_append.mp h).2.2 x hx b mem_cons_self).le
  · rw [mem_singleton.mp hx]

theorem page_increasing (he : emitted.Pairwise (· < ·)) (hv : visible.Pairwise (· < ·)) (n : ℕ) :
    (emitted ++ (remaining emitted visible).take n).Pairwise (· < ·) := by
  refine pairwise_append.mpr ⟨he,(hv.sublist filter_sublist).sublist (take_sublist _ _),?_⟩
  intro x hx y hy
  have hy' := (mem_remaining.mp (mem_of_mem_take hy)).2
  cases hlast : emitted.getLast? with
  | none =>
    rw [List.getLast?_eq_none_iff.mp hlast] at hx
    cases hx
  | some b => exact (le_getLast? he hx hlast).trans_lt (hy' b hlast)

def Covered (emitted : List κ) (k : κ) : Prop := k ∈ emitted ∨ ∀ b ∈ emitted.getLast?, b < k

theorem covered_nil (k : κ) : Covered [] k := Or.inr (by simp)

theorem Covered.page (h : Covered emitted k) (hk : k ∈ visible) (hv : visible.Pairwise (· < ·)) (n : ℕ) :
    Covered (emitted ++ (remaining emitted visible).take n) k := by
  rcases h with h | h
  · exact Or.inl (mem_append_left _ h)
  have hrem := mem_remaining.mpr ⟨hk,h⟩
  rw [← take_append_drop n (remaining emitted visible)] at hrem
  rcases mem_append.mp hrem with hin | hout
  · exact Or.inl (mem_append_right _ hin)
  · refine Or.inr fun b hb => ?_
    rw [List.getLast?_append] at hb
    have hsorted : (remaining emitted visible).Pairwise (· < ·) := hv.sublist filter_sublist
    rw [← take_append_drop n (remaining emitted visible)] at hsorted
    cases hlast : ((remaining emitted visible).take n).getLast? with
    | none =>
      rw [hlast] at hb
      exact h b hb
    | some =>
      rw [hlast] at hb
      cases hb
      exact (pairwise_append.mp hsorted).2.2 _ (mem_of_getLast? hlast) k hout

theorem Covered.lastPage (h : Covered emitted k) (hk : k ∈ visible) (hn : (remaining emitted visible).length ≤ n) :
    k ∈ emitted ++ (remaining emitted visible).take n := by
  rw [take_of_length_le hn]
  rcases h with h | h
  · exact mem_append_left _ h
  · exact mem_append_right _ (mem_remaining.mpr ⟨hk,h⟩)

end OpenPine.Paging
