import Mathlib.Data.List.Sort

/-! # Stable sorting

Insertion sort is stable: the last element of the input ends up behind all elements
that may stand before it. Hence its rank in the output is the number of those. Sorting by
a key puts every element behind the smaller ones and the equal ones that come before it. If
no two elements share a key, the result is strictly increasing, and there is only one such
list with given members.
-/
namespace OpenPine.StableSort
open List
variable {α : Type*} (r : α → α → Prop) [DecidableRel r]

/-- Inserts `a` before the first element that may not stand before it. -/
def insertAfter (a : α) : List α → List α
  | [] => [a]
  | b :: l => if r b a then b :: insertAfter a l else a :: b :: l

variable [IsTrans α r]

theorem mem_take_insertAfter {a : α} {l : List α} (hl : l.Pairwise r) (ha : a ∉ l) (n : ℕ) :
    a ∈ (insertAfter r a l).take n ↔ l.countP (fun b => decide (r b a)) < n := by
  induction l generalizing n with
  | nil => cases n <;> simp [insertAfter]
  | cons b l ih =>
    obtain ⟨hfirst,hl⟩ := pairwise_cons.mp hl
    obtain ⟨hne,ha⟩ := not_or.mp (mt mem_cons.mpr ha)
    by_cases hba : r b a
    · cases n with
      | zero => simp
      | succ n => simp [insertAfter, hba, hne, ih hl ha n]
    · have hzero : l.countP (fun c => decide (r c a)) = 0 := by
        rw [countP_eq_zero]
        intro c hc hca
        exact hba (trans_of r (hfirst c hc) (of_decide_eq_true hca))
      cases n <;> simp [insertAfter, hba, hzero]

variable [Std.Total r]

theorem orderedInsert_insertAfter (a b : α) (l : List α) :
    (insertAfter r a l).orderedInsert r b = insertAfter r a (l.orderedInsert r b) := by
  induction l with
  | nil => by_cases hba : r b a <;> simp [insertAfter, hba]
  | cons c l ih =>
    by_cases hca : r c a
    · by_cases hbc : r b c
      · have hba : r b a := trans_of r hbc hca
        simp [insertAfter, hca, hbc, hba]
      · simp [insertAfter, hca, hbc, ih]
    · by_cases hbc : r b c
      · by_cases hba : r b a <;> simp [insertAfter, hca, hbc, hba]
      · -- `a` stands before `c`, so `b` cannot stand before `a`
        have hac : r a c := (total_of r a c).resolve_right hca
        have hba : ¬r b a := fun h => hbc (trans_of r h hac)
        simp [insertAfter, hca, hbc, hba]

theorem insertionSort_concat (a : α) (l : List α) :
    (l ++ [a]).insertionSort r = insertAfter r a (l.insertionSort r) := by
  induction l with
  | nil => rfl
  | cons b l ih => rw [cons_append, insertionSort_cons, ih, orderedInsert_insertAfter, insertionSort_cons]

/-- The last element of a list is among the first `n` of the sorted list exactly if
fewer than `n` others may stand before it. -/
theorem mem_take_insertionSort_concat {a : α} {l : List α} (ha : a ∉ l) (n : ℕ) :
    a ∈ ((l ++ [a]).insertionSort r).take n ↔ l.countP (fun b => decide (r b a)) < n := by
  have hperm := l.perm_insertionSort r
  rw [insertionSort_concat, mem_take_insertAfter r (l.pairwise_insertionSort r) (mt hperm.mem_iff.mp ha),
    hperm.countP_eq]

section ByKey
variable {κ : Type*} [LinearOrder κ] {f : α → κ} {l l' : List α}

instance totalByKey (f : α → κ) : Std.Total (fun a b => f a ≤ f b) := ⟨fun a b => le_total (f a) (f b)⟩

instance transByKey (f : α → κ) : IsTrans α (fun a b => f a ≤ f b) := ⟨fun _ _ _ => le_trans⟩

theorem insertionSort_strict (h : (l.map f).Nodup) : (l.insertionSort (fun a b => f a ≤ f b)).Pairwise (f · < f ·) := by
  have hle := l.pairwise_insertionSort (fun a b => f a ≤ f b)
  have hne := ((l.perm_insertionSort (fun a b => f a ≤ f b)).map f).nodup_iff.mpr h
  exact (hle.and (pairwise_map.mp hne)).imp fun ⟨h,h'⟩ => lt_of_le_of_ne h h'

section
variable (h : l.Pairwise (f · < f ·))
include h

theorem nodup_of_strict : (l.map f).Nodup := pairwise_map.mpr (h.imp ne_of_lt)

theorem strict_ext (h' : l'.Pairwise (f · < f ·)) (hmem : ∀ a, a ∈ l ↔ a ∈ l') : l = l' := by
  have : Std.Antisymm (fun a b => f a < f b) := ⟨fun _ _ hab hba => absurd hba (lt_asymm hab)⟩
  have : Std.Irrefl (fun a b => f a < f b) := ⟨fun a => lt_irrefl (f a)⟩
  exact h.eq_of_mem_iff h' hmem

theorem strict_inj {a b : α} (ha : a ∈ l) (hb : b ∈ l) (hab : f a = f b) : a = b :=
  inj_on_of_nodup_map (nodup_of_strict h) ha hb hab

theorem mem_takeWhile_iff {a : α} (ha : a ∈ l) (p : α → Bool) : a ∈ l.takeWhile p ↔ ∀ b ∈ l, f b ≤ f a → p b := by
  induction l with
  | nil => cases ha
  | cons b l ih =>
    obtain ⟨hfirst,hl⟩ := pairwise_cons.mp h
    have hba : f b ≤ f a := by
      rcases mem_cons.mp ha with rfl | ha
      · exact le_rfl
      · exact (hfirst a ha).le
    rw [forall_mem_cons, takeWhile_cons]
    by_cases hb : p b
    · rw [if_pos hb, mem_cons]
      rcases mem_cons.mp ha with rfl | ha
      · exact iff_of_true (.inl rfl) ⟨fun _ => hb,fun c hc hca => absurd hca (hfirst c hc).not_ge⟩
      · have hne : a ≠ b := fun heq => (hfirst a ha).ne (congrArg f heq.symm)
        rw [ih hl ha]
        simp [hne, hb]
    · simp [hb, hba]

end

theorem forall₂_insertionSort {R : α → α → Prop} (hkeys : (l.map f).Perm (l'.map f))
    (h : ∀ a ∈ l, ∀ b ∈ l', f a = f b → R a b) :
    List.Forall₂ R (l.insertionSort fun a b => f a ≤ f b) (l'.insertionSort fun a b => f a ≤ f b) := by
  have hperm := l.perm_insertionSort fun a b => f a ≤ f b
  have hperm' := l'.perm_insertionSort fun a b => f a ≤ f b
  have heq : (l.insertionSort fun a b => f a ≤ f b).map f = (l'.insertionSort fun a b => f a ≤ f b).map f :=
    ((hperm.map f).trans (hkeys.trans (hperm'.map f).symm)).eq_of_pairwise'
      (pairwise_map.mpr (l.pairwise_insertionSort _))
      (pairwise_map.mpr (l'.pairwise_insertionSort _))
  rw [← forall₂_eq_eq_eq, forall₂_map_left_iff, forall₂_map_right_iff] at heq
  obtain ⟨hlength,hzip⟩ := forall₂_iff_zip.mp heq
  refine forall₂_iff_zip.mpr ⟨hlength,@fun a b hmem => ?_⟩
  obtain ⟨ha,hb⟩ := of_mem_zip hmem
  exact h a (hperm.mem_iff.mp ha) b (hperm'.mem_iff.mp hb) (hzip hmem)

theorem getElem?_cons_of_le {s : List α} {b : α} (hle : ∀ a ∈ s, f b ≤ f a) {a : α} {n : ℕ} :
    (b :: s)[n]? = some a ↔
      (b = a ∧ n = s.countP (fun c => decide (f c < f b))) ∨
        ∃ m, s[m]? = some a ∧ n = m + if f b ≤ f a then 1 else 0 := by
  have hzero : s.countP (fun c => decide (f c < f b)) = 0 := countP_eq_zero.mpr fun c hc => by simpa using hle c hc
  rw [hzero]
  cases n with
  | zero =>
    refine ⟨fun h => .inl ⟨Option.some.inj h,rfl⟩,?_⟩
    rintro (⟨rfl,-⟩ | ⟨m,hm,hn⟩)
    · rfl
    · rw [if_pos (hle a (mem_of_getElem? hm))] at hn
      omega
  | succ n =>
    rw [getElem?_cons_succ]
    constructor
    · intro h
      exact .inr ⟨n,h,by rw [if_pos (hle a (mem_of_getElem? h))]⟩
    · rintro (⟨-,hn⟩ | ⟨m,hm,hn⟩)
      · cases hn
      · rw [if_pos (hle a (mem_of_getElem? hm))] at hn
        obtain rfl : n = m := by omega
        exact hm

/-- What is inserted comes before the first element that is not smaller, and moves the elements from there on. -/
theorem getElem?_orderedInsert {s : List α} (hs : s.Pairwise (f · ≤ f ·)) {a b : α} {n : ℕ} :
    (s.orderedInsert (fun a b => f a ≤ f b) b)[n]? = some a ↔
      (b = a ∧ n = s.countP (fun c => decide (f c < f b))) ∨
        ∃ m, s[m]? = some a ∧ n = m + if f b ≤ f a then 1 else 0 := by
  induction s generalizing n with
  | nil => cases n <;> simp
  | cons c s ih =>
    obtain ⟨hfirst,hs⟩ := pairwise_cons.mp hs
    rw [orderedInsert_cons]
    split <;> rename_i hbc
    · exact getElem?_cons_of_le (forall_mem_cons.mpr ⟨hbc,fun a ha => hbc.trans (hfirst a ha)⟩)
    · have hcount : (c :: s).countP (fun d => decide (f d < f b)) = s.countP (fun d => decide (f d < f b)) + 1 :=
        countP_cons_of_pos (decide_eq_true (not_le.mp hbc))
      rw [hcount]
      cases n with
      | zero =>
        rw [getElem?_cons_zero]
        constructor
        · rintro ⟨⟩
          exact .inr ⟨0,rfl,by rw [if_neg hbc]⟩
        · rintro (⟨-,hn⟩ | ⟨m,hm,hn⟩)
          · cases hn
          · obtain rfl : m = 0 := by omega
            exact hm
      | succ n =>
        rw [getElem?_cons_succ, ih hs]
        refine or_congr (by simp) ⟨?_,?_⟩
        · rintro ⟨m,hm,rfl⟩
          exact ⟨m + 1,hm,by omega⟩
        · rintro ⟨m,hm,hn⟩
          cases m with
          | zero =>
            cases hm
            rw [if_neg hbc] at hn
            cases hn
          | succ m => exact ⟨m,hm,by omega⟩

/-- Where sorting by a key puts an element: behind the smaller ones and the equal ones before it. -/
def rank (f : α → κ) (front : List α) (a : α) (back : List α) : ℕ :=
  front.countP (fun b => decide (f b ≤ f a)) + back.countP (fun b => decide (f b < f a))

theorem getElem?_insertionSort {n : ℕ} {a : α} : (l.insertionSort fun a b => f a ≤ f b)[n]? = some a ↔
      ∃ front back, l = front ++ a :: back ∧ n = rank f front a back := by
  induction l generalizing n with
  | nil => simp
  | cons b l ih =>
    have hcount := (l.perm_insertionSort fun a b => f a ≤ f b).countP_eq fun c => decide (f c < f b)
    rw [insertionSort_cons, getElem?_orderedInsert (l.pairwise_insertionSort _), hcount]
    constructor
    · rintro (⟨rfl,hn⟩ | ⟨m,hm,hn⟩)
      · exact ⟨[],l,rfl,by simpa [rank] using hn⟩
      · obtain ⟨front,back,rfl,rfl⟩ := ih.mp hm
        refine ⟨b :: front,back,rfl,?_⟩
        rw [hn, rank, rank, countP_cons]
        simp only [decide_eq_true_eq]
        omega
    · rintro ⟨front,back,hl,hn⟩
      cases front with
      | nil =>
        obtain ⟨rfl,rfl⟩ := List.cons.inj hl
        exact .inl ⟨rfl,by simpa [rank] using hn⟩
      | cons c front =>
        obtain ⟨rfl,rfl⟩ := List.cons.inj hl
        refine .inr ⟨rank f front a back,ih.mpr ⟨front,back,rfl,rfl⟩,?_⟩
        rw [hn, rank, rank, countP_cons]
        simp only [decide_eq_true_eq]
        omega

/-- Sorted lists are paired element by element exactly as the ranks say. -/
theorem forall₂_insertionSort_iff_rank {R : α → α → Prop} (hlength : l.length = l'.length) :
    List.Forall₂ R (l.insertionSort fun a b => f a ≤ f b) (l'.insertionSort fun a b => f a ≤ f b) ↔
      ∀ front a back front' b back', l = front ++ a :: back → l' = front' ++ b :: back' →
        rank f front a back = rank f front' b back' → R a b := by
  rw [forall₂_iff_get]
  constructor
  · rintro ⟨-,h⟩ front a back front' b back' hl hl' hrank
    obtain ⟨hn,ha⟩ := List.getElem?_eq_some_iff.mp (getElem?_insertionSort (f := f).mpr ⟨front,back,hl,rfl⟩)
    obtain ⟨hn',hb⟩ := List.getElem?_eq_some_iff.mp (getElem?_insertionSort (f := f).mpr ⟨front',back',hl',hrank⟩)
    have hab := h _ hn hn'
    rwa [get_eq_getElem, get_eq_getElem, ha, hb] at hab
  · intro h
    refine ⟨by simpa using hlength,fun n hn hn' => ?_⟩
    obtain ⟨front,back,hl,hrank⟩ := getElem?_insertionSort.mp (getElem?_eq_getElem hn)
    obtain ⟨front',back',hl',hrank'⟩ := getElem?_insertionSort.mp (getElem?_eq_getElem hn')
    exact h front _ back front' _ back' hl hl' (hrank.symm.trans hrank')

end ByKey

end OpenPine.StableSort
