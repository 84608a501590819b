import OpenPine.Foundation.Python

/-! # Items grouped by a key

`defaultdict(list)`: a dictionary of lists in which a missing key stands for the
empty list. A list of items is grouped by appending each item to the list of its
key, and a dictionary is written out by joining its lists in the order of the keys.
-/
namespace OpenPine.Python
open List

abbrev Groups (κ α : Type*) := Dict κ (List α)

namespace Groups
variable {κ α : Type*} [DecidableEq κ] (key : α → κ)

def of (g : Groups κ α) (k : κ) : List α := (Dict.get? g k).getD []

def add (g : Groups κ α) (x : α) : Groups κ α := Dict.put g (key x) (g.of (key x) ++ [x])

def group (xs : List α) : Groups κ α := xs.foldl (add key) .empty

def items (g : Groups κ α) : List α := (Dict.values g).flatten

def Keyed (g : Groups κ α) : Prop := ∀ k, ∀ x ∈ g.of k, key x = k

@[simp] theorem of_put (g : Groups κ α) (k : κ) (xs : List α) (k' : κ) :
    of (Dict.put g k xs) k' = if k = k' then xs else g.of k' := by
  unfold of
  rw [Dict.get?_put]
  split <;> rfl

theorem of_add (g : Groups κ α) (x : α) (k : κ) : (g.add key x).of k = g.of k ++ if key x = k then [x] else [] := by
  rw [add, of_put]
  split <;> rename_i h
  · rw [h]
  · simp

theorem of_foldl_add (xs : List α) (g : Groups κ α) (k : κ) :
    of (xs.foldl (add key) g) k = g.of k ++ xs.filter (fun x => key x = k) := by
  induction xs generalizing g with
  | nil => simp
  | cons x _ ih =>
    rw [foldl_cons, ih, of_add, filter_cons]
    by_cases h : key x = k <;> simp [h]

@[simp] theorem of_group (xs : List α) (k : κ) : (group key xs).of k = xs.filter (fun x => key x = k) :=
  of_foldl_add key xs .empty k

variable {key} {g : Groups κ α} {xs : List α} {p : κ × List α}

theorem keyed_group (xs : List α) : (group key xs).Keyed key := by
  intro k x hx
  rw [of_group] at hx
  exact of_decide_eq_true (mem_filter.mp hx).2

theorem Keyed.put (h : g.Keyed key) {k : κ} (hxs : ∀ x ∈ xs, key x = k) : Keyed key (Dict.put g k xs) := by
  intro k' x hx
  rw [of_put] at hx
  split at hx <;> rename_i hk
  · exact (hxs x hx).trans hk
  · exact h k' x hx

theorem of_eq_of_mem (hp : p ∈ g.rows) : g.of p.1 = p.2 := by
  unfold of Dict.get?
  rw [Table.find?_of_mem hp]
  rfl

theorem exists_of_mem_group (hp : p ∈ (group key xs).rows) : ∃ x ∈ xs, key x = p.1 := by
  suffices ∀ (g : Groups κ α), p ∈ (xs.foldl (add key) g).rows → p.1 ∈ g.rows.map Prod.fst ∨ ∃ x ∈ xs, key x = p.1 by
    simpa using this .empty hp
  clear hp
  induction xs with
  | nil => exact fun g hp => .inl (mem_map_of_mem hp)
  | cons x _ ih =>
    intro g hp
    rcases ih _ hp with hold | ⟨y,hy,hkey⟩
    · obtain ⟨q,hq,hqp⟩ := mem_map.mp hold
      rcases Dict.mem_put hq with rfl | hq
      · exact .inr ⟨x,mem_cons_self,hqp⟩
      · exact .inl (mem_map.mpr ⟨q,hq,hqp⟩)
    · exact .inr ⟨y,mem_cons_of_mem _ hy,hkey⟩

theorem exists_group_of_mem {x : α} (hx : x ∈ xs) : ∃ p ∈ (group key xs).rows, p.1 = key x := by
  have hof : x ∈ (group key xs).of (key x) := by
    rw [of_group]
    exact mem_filter.mpr ⟨hx,by simp⟩
  unfold of Dict.get? at hof
  cases hfind : (group key xs).find? (key x) with
  | none =>
    rw [hfind] at hof
    cases hof
  | some p =>
    obtain ⟨hp,hkey⟩ := Table.find?_eq_some.mp hfind
    exact ⟨p,hp,hkey⟩

private theorem filter_flatten_rows {rows : List (κ × List α)} (hnodup : (rows.map Prod.fst).Nodup)
    (hkeyed : ∀ p ∈ rows, ∀ x ∈ p.2, key x = p.1) (k : κ) :
    (rows.map Prod.snd).flatten.filter (fun x => key x = k) =
      ((rows.find? (fun p => p.1 = k)).map Prod.snd).getD [] := by
  induction rows with
  | nil => rfl
  | cons p rows ih =>
    obtain ⟨hfresh,hnodup⟩ := nodup_cons.mp hnodup
    have hrest := ih hnodup (fun q hq => hkeyed q (mem_cons_of_mem _ hq))
    have hp := hkeyed p mem_cons_self
    rw [map_cons, flatten_cons, filter_append, hrest, List.find?_cons]
    by_cases hk : p.1 = k
    · -- the group of `k` comes first, and no later group has that key
      have hnone : rows.find? (fun q => q.1 = k) = none := by
        rw [List.find?_eq_none]
        intro q hq he
        exact hfresh (mem_map.mpr ⟨q,hq,(of_decide_eq_true he).trans hk.symm⟩)
      have hall : p.2.filter (fun x => key x = k) = p.2 := by
        rw [filter_eq_self]
        intro x hx
        simp [hp x hx, hk]
      simp [hk, hnone, hall]
    · have hnil : p.2.filter (fun x => key x = k) = [] := by
        rw [filter_eq_nil_iff]
        intro x hx
        simp [hp x hx, hk]
      simp [hk, hnil]

theorem Keyed.filter_items (h : g.Keyed key) (k : κ) : g.items.filter (fun x => key x = k) = g.of k := by
  refine filter_flatten_rows g.nodup (fun p hp x hx => ?_) k
  rw [← of_eq_of_mem hp] at hx
  exact h p.1 x hx

end Groups
end OpenPine.Python
