import Mathlib.Data.List.Sort
import Mathlib.Algebra.Ring.Divisibility.Basic
import Mathlib.Tactic.Ring
import Mathlib.Tactic.Linarith

/-! # Steps and half-open intervals

The points that a fixed step visits in a half-open interval, and the joining of
intervals that overlap or touch. Joining keeps the points, leaves the intervals in
order with a gap between them, and invents no new ends.
-/
namespace OpenPine.Intervals
open List

/-- The points `a`, `a + d`, `a + 2d`, … below `b`. -/
def progression (a b d : ℤ) : List ℤ := (List.range ((b - a + d - 1) / d).toNat).map fun i : ℕ => a + d * i

section Progression
variable {a b d t : ℤ} (hd : 0 < d)
include hd

theorem mem_progression : t ∈ progression a b d ↔ a ≤ t ∧ t < b ∧ d ∣ t - a := by
  simp only [progression, mem_map, mem_range]
  constructor
  · rintro ⟨i,hi,rfl⟩
    have hlt : (i : ℤ) + 1 ≤ (b - a + d - 1) / d := by omega
    have hle : ((i : ℤ) + 1) * d ≤ b - a + d - 1 := (Int.le_ediv_iff_mul_le hd).mp hlt
    refine ⟨?_,by linarith,⟨i,by ring⟩⟩
    have : 0 ≤ d * i := mul_nonneg hd.le (Int.natCast_nonneg i)
    omega
  · rintro ⟨hle,hlt,i,hi⟩
    have hnonneg : 0 ≤ i := by
      by_contra hneg
      have : d * i < 0 := mul_neg_of_pos_of_neg hd (not_le.mp hneg)
      omega
    refine ⟨i.toNat,?_,?_⟩
    · have hbound : i + 1 ≤ (b - a + d - 1) / d := by
        rw [Int.le_ediv_iff_mul_le hd]
        linarith
      omega
    · rw [Int.toNat_of_nonneg hnonneg]
      omega

theorem progression_pairwise : (progression a b d).Pairwise (· < ·) := by
  refine pairwise_map.mpr (pairwise_lt_range.imp ?_)
  intro i j hij
  have : d * i < d * j := mul_lt_mul_of_pos_left (by exact_mod_cast hij) hd
  omega

theorem progression_of_mem {a' b' : ℤ} (ha : a' ∈ progression a b d) (hb : b' ≤ b) (ht : t ∈ progression a' b' d) :
    t ∈ progression a b d := by
  rw [mem_progression hd] at *
  refine ⟨by omega,by omega,?_⟩
  have hsum := dvd_add ht.2.2 ha.2.2
  rwa [sub_add_sub_cancel] at hsum

theorem progression_eq {s : ℤ} (hs : s ∈ progression a b d) (ht : t ∈ progression a b d) (hst : s ≤ t)
    (hlt : t < s + d) :
    t = s := by
  rw [mem_progression hd] at *
  have hdvd : d ∣ t - s := by
    have hsub := dvd_sub ht.2.2 hs.2.2
    rwa [sub_sub_sub_cancel_right] at hsub
  have := Int.eq_zero_of_dvd_of_nonneg_of_lt (by omega : 0 ≤ t - s) (by omega : t - s < d) hdvd
  omega

end Progression

/-! ### Joining -/

def Within (i : ℤ × ℤ) (t : ℤ) : Prop := i.1 ≤ t ∧ t < i.2

instance (i : ℤ × ℤ) (t : ℤ) : Decidable (Within i t) := inferInstanceAs (Decidable (_ ∧ _))

/-- The order of pairs by their first and then their second part. -/
def Before (i j : ℤ × ℤ) : Prop := i.1 < j.1 ∨ i.1 = j.1 ∧ i.2 ≤ j.2

instance : DecidableRel Before := fun i j => inferInstanceAs (Decidable (i.1 < j.1 ∨ i.1 = j.1 ∧ i.2 ≤ j.2))

instance : Std.Total Before := ⟨fun i j => by unfold Before; omega⟩

instance : IsTrans (ℤ × ℤ) Before := ⟨fun i j k => by unfold Before; omega⟩

/-- Joins the current interval with those after it while they overlap or touch. -/
def join (current : ℤ × ℤ) : List (ℤ × ℤ) → List (ℤ × ℤ)
  | [] => [current]
  | next :: rest => if next.1 ≤ current.2 then join (current.1, max current.2 next.2) rest
    else current :: join next rest

def coalesce (intervals : List (ℤ × ℤ)) : List (ℤ × ℤ) :=
  match intervals.insertionSort Before with
  | [] => []
  | first :: rest => join first rest

variable {current : ℤ × ℤ} {rest : List (ℤ × ℤ)} {P : ℤ × ℤ → Prop}

theorem starts_joined {next : ℤ × ℤ} (h : (current :: next :: rest).Pairwise (·.1 ≤ ·.1))
    (stop : ℤ) : ((current.1, stop) :: rest).Pairwise (·.1 ≤ ·.1) := by
  obtain ⟨hfirst,hrest⟩ := pairwise_cons.mp h
  exact pairwise_cons.mpr ⟨fun i hi => hfirst i (mem_cons_of_mem _ hi),(pairwise_cons.mp hrest).2⟩

theorem join_within (h : (current :: rest).Pairwise (·.1 ≤ ·.1)) (t : ℤ) :
    (∃ i ∈ join current rest, Within i t) ↔ ∃ i ∈ current :: rest, Within i t := by
  induction rest generalizing current with
  | nil => simp [join]
  | cons next _ ih =>
    obtain ⟨hfirst,hrest⟩ := pairwise_cons.mp h
    have hnext := hfirst next mem_cons_self
    unfold join
    split
    · rename_i htouch
      -- the joined interval has the points of both
      have hboth : Within (current.1, max current.2 next.2) t ↔ Within current t ∨ Within next t := by
        simp only [Within]
        omega
      rw [ih (starts_joined h _)]
      simp only [exists_mem_cons_iff, hboth, or_assoc]
    · rw [exists_mem_cons_iff, ih hrest]
      simp only [exists_mem_cons_iff]

theorem join_forall (hP : ∀ i j, P i → P j → i.1 ≤ j.1 → P (i.1, max i.2 j.2))
    (h : (current :: rest).Pairwise (·.1 ≤ ·.1)) (hall : ∀ i ∈ current :: rest, P i) :
    ∀ i ∈ join current rest, P i := by
  induction rest generalizing current with
  | nil => exact hall
  | cons next _ ih =>
    obtain ⟨hfirst,hrest⟩ := pairwise_cons.mp h
    obtain ⟨hcurrent,hall⟩ := forall_mem_cons.mp hall
    obtain ⟨hnext,hall'⟩ := forall_mem_cons.mp hall
    unfold join
    split
    · refine ih (starts_joined h _) (forall_mem_cons.mpr ⟨?_,hall'⟩)
      exact hP current next hcurrent hnext (hfirst next mem_cons_self)
    · exact forall_mem_cons.mpr ⟨hcurrent,ih hrest hall⟩

theorem join_pairwise (h : (current :: rest).Pairwise (·.1 ≤ ·.1)) : (join current rest).Pairwise (·.2 < ·.1) := by
  induction rest generalizing current with
  | nil => simp [join]
  | cons _ _ ih =>
    obtain ⟨-,hrest⟩ := pairwise_cons.mp h
    unfold join
    split
    · exact ih (starts_joined h _)
    · rename_i hgap
      refine pairwise_cons.mpr ⟨?_,ih hrest⟩
      -- every later interval starts behind the end of the current one
      refine join_forall (P := fun i => current.2 < i.1) (fun i j hi _ _ => hi) hrest ?_
      refine forall_mem_cons.mpr ⟨not_le.mp hgap,fun i hi => ?_⟩
      exact lt_of_lt_of_le (not_le.mp hgap) ((pairwise_cons.mp hrest).1 i hi)

section Coalesce
variable {intervals : List (ℤ × ℤ)}

theorem coalesce_cases (intervals : List (ℤ × ℤ)) : (intervals = [] ∧ coalesce intervals = []) ∨
    ∃ first rest, intervals.Perm (first :: rest) ∧ (first :: rest).Pairwise (·.1 ≤ ·.1) ∧
      coalesce intervals = join first rest := by
  have hperm := intervals.perm_insertionSort Before
  have hsorted := intervals.pairwise_insertionSort Before
  unfold coalesce
  cases hsort : intervals.insertionSort Before with
  | nil =>
    rw [hsort] at hperm
    exact .inl ⟨hperm.symm.eq_nil,rfl⟩
  | cons first rest =>
    rw [hsort] at hperm hsorted
    refine .inr ⟨first,rest,hperm.symm,hsorted.imp ?_,rfl⟩
    rintro i j (hlt | ⟨heq,-⟩)
    · exact hlt.le
    · exact heq.le

theorem coalesce_within (t : ℤ) : (∃ i ∈ coalesce intervals, Within i t) ↔ ∃ i ∈ intervals, Within i t := by
  obtain ⟨rfl,hnil⟩ | ⟨first,rest,hperm,hsorted,hjoin⟩ := coalesce_cases intervals
  · rw [hnil]
  · rw [hjoin, join_within hsorted]
    simp only [hperm.mem_iff]

theorem coalesce_forall (hP : ∀ i j, P i → P j → i.1 ≤ j.1 → P (i.1, max i.2 j.2)) (hall : ∀ i ∈ intervals, P i) :
    ∀ i ∈ coalesce intervals, P i := by
  obtain ⟨-,hnil⟩ | ⟨first,rest,hperm,hsorted,hjoin⟩ := coalesce_cases intervals
  · rw [hnil]
    exact fun _ hi => absurd hi not_mem_nil
  · rw [hjoin]
    exact join_forall hP hsorted fun i hi => hall i (hperm.mem_iff.mpr hi)

theorem coalesce_pairwise (intervals : List (ℤ × ℤ)) : (coalesce intervals).Pairwise (·.2 < ·.1) := by
  obtain ⟨-,hnil⟩ | ⟨first,rest,-,hsorted,hjoin⟩ := coalesce_cases intervals
  · rw [hnil]
    exact .nil
  · rw [hjoin]
    exact join_pairwise hsorted

end Coalesce
end OpenPine.Intervals
