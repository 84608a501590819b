import Mathlib.Data.String.Basic

/-! # Texts joined by a separator

A separator that does not occur in the last part of a joined text can be found
again from the right, so the parts are determined by the text.
-/
namespace OpenPine.Separator
open List

theorem append_sep_inj {α : Type*} {a : α} {xs xs' zs zs' : List α} (hz : a ∉ zs) (hz' : a ∉ zs')
    (h : xs ++ a :: zs = xs' ++ a :: zs') : xs = xs' ∧ zs = zs' := by
  rcases append_eq_append_iff.mp h with ⟨as,hxs,hzs⟩ | ⟨as,hxs,hzs⟩
  · cases as with
    | nil =>
      rw [append_nil] at hxs
      exact ⟨hxs.symm,(List.cons.inj hzs).2⟩
    | cons b as =>
      obtain ⟨-,rfl⟩ := List.cons.inj hzs
      exact absurd (mem_append_right as mem_cons_self) hz
  · cases as with
    | nil =>
      rw [append_nil] at hxs
      exact ⟨hxs,(List.cons.inj hzs).2.symm⟩
    | cons b as =>
      obtain ⟨-,rfl⟩ := List.cons.inj hzs
      exact absurd (mem_append_right as mem_cons_self) hz'

theorem join_inj {a : Char} {x x' z z' : String} (hz : a ∉ z.toList) (hz' : a ∉ z'.toList)
    (h : x ++ String.singleton a ++ z = x' ++ String.singleton a ++ z') : x = x' ∧ z = z' := by
  have hl := congrArg String.toList h
  simp only [String.toList_append, String.toList_singleton, append_assoc, singleton_append] at hl
  obtain ⟨hx,hzz⟩ := append_sep_inj hz hz' hl
  exact ⟨String.toList_inj.mp hx,String.toList_inj.mp hzz⟩

theorem notMem_repr {a : Char} (ha : a.isDigit = false) (n : ℕ) : a ∉ n.repr.toList := by
  intro h
  rw [Nat.repr, String.toList_ofList] at h
  have hd := Nat.isDigit_of_mem_toDigits (by decide) (by decide) h
  rw [ha] at hd
  cases hd

end OpenPine.Separator
