import Mathlib.Data.List.Forall2

/-! # Lists that are related item by item

What holds of the items of one list passes to those of the other.
-/
namespace OpenPine.Pointwise
open List
variable {α β : Type*} {R : α → β → Prop} {xs : List α} {ys : List β}

theorem exists_left (h : List.Forall₂ R xs ys) : ∀ y ∈ ys, ∃ x ∈ xs, R x y := by
  induction h with
  | nil => exact fun _ hmem => absurd hmem not_mem_nil
  | @cons x y _ _ hfirst _ ih =>
    refine forall_mem_cons.mpr ⟨⟨x,mem_cons_self,hfirst⟩,fun y' hmem => ?_⟩
    obtain ⟨x',hx',hrel⟩ := ih y' hmem
    exact ⟨x',mem_cons_of_mem _ hx',hrel⟩

theorem exists_right (h : List.Forall₂ R xs ys) : ∀ x ∈ xs, ∃ y ∈ ys, R x y := exists_left h.flip

theorem exists_forall₂ (h : ∀ x ∈ xs, ∃ y, R x y) : ∃ ys, List.Forall₂ R xs ys := by
  induction xs with
  | nil => exact ⟨[],.nil⟩
  | cons x _ ih =>
    obtain ⟨y,hy⟩ := h x mem_cons_self
    obtain ⟨ys,hys⟩ := ih fun x' hx' => h x' (mem_cons_of_mem _ hx')
    exact ⟨y :: ys,.cons hy hys⟩

theorem mapM_eq_ok {ε : Type*} {α β : Type} {f : α → Except ε β} {xs : List α} {ys : List β} :
    xs.mapM f = .ok ys ↔ List.Forall₂ (fun x y => f x = .ok y) xs ys := by
  induction xs generalizing ys with
  | nil =>
    rw [mapM_nil]
    constructor
    · rintro ⟨⟩
      exact .nil
    · rintro ⟨⟩
      rfl
  | cons x xs ih =>
    rw [mapM_cons]
    cases hx : f x with
    | error =>
      constructor
      · rintro ⟨⟩
      · rintro (_ | ⟨hfirst,-⟩)
        rw [hx] at hfirst
        cases hfirst
    | ok =>
      change (xs.mapM f >>= _) = _ ↔ _
      cases hxs : xs.mapM f with
      | error =>
        constructor
        · rintro ⟨⟩
        · rintro (_ | ⟨-,hrest⟩)
          rw [ih.mpr hrest] at hxs
          cases hxs
      | ok =>
        constructor
        · rintro ⟨⟩
          exact .cons hx (ih.mp hxs)
        · rintro (_ | ⟨hfirst,hrest⟩)
          rw [hx] at hfirst
          rw [ih.mpr hrest] at hxs
          cases hfirst
          cases hxs
          rfl

end OpenPine.Pointwise
