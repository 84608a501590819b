import Mathlib.Data.List.Nodup

/-! # Tables with a primary key

A table is the list of its rows in insertion order, together with the fact that
no two rows share a key. Inserting fails on a taken key, and writing a row over
the row of its key keeps every other row and the order.
-/
namespace OpenPine
open List

structure Table (ρ : Type*) {κ : Type*} (key : ρ → κ) where
  rows : List ρ
  nodup : (rows.map key).Nodup
deriving DecidableEq

namespace Table
variable {ρ κ : Type*} {key : ρ → κ}

def empty : Table ρ key := ⟨[],List.nodup_nil⟩

@[simp] theorem empty_rows : (empty : Table ρ key).rows = [] := rfl

variable {t t' : Table ρ key} {r x : ρ} {k : κ}

theorem eq_of_key {r' : ρ} (hr : r ∈ t.rows) (hr' : r' ∈ t.rows)
    (h : key r = key r') : r = r' := inj_on_of_nodup_map t.nodup hr hr' h

variable [DecidableEq κ]

def find? (t : Table ρ key) (k : κ) : Option ρ := t.rows.find? (fun r => key r = k)

@[simp] theorem empty_find? (k : κ) : (empty : Table ρ key).find? k = none := rfl

theorem find?_eq_some : t.find? k = some r ↔ r ∈ t.rows ∧ key r = k := by
  constructor
  · intro h
    exact ⟨mem_of_find?_eq_some h,by simpa using List.find?_some h⟩
  · rintro ⟨hr,rfl⟩
    cases h : t.find? (key r) with
    | none => simpa using List.find?_eq_none.mp h r hr
    | some r' =>
      have hk : key r' = key r := by simpa using List.find?_some h
      rw [eq_of_key (mem_of_find?_eq_some h) hr hk]

theorem find?_eq_none : t.find? k = none ↔ ∀ r ∈ t.rows, key r ≠ k := by simp [find?, List.find?_eq_none]

theorem key_of_find? (h : t.find? k = some r) : key r = k := (find?_eq_some.mp h).2

theorem mem_of_find? (h : t.find? k = some r) : r ∈ t.rows := (find?_eq_some.mp h).1

theorem find?_of_mem (h : r ∈ t.rows) : t.find? (key r) = some r := find?_eq_some.mpr ⟨h,rfl⟩

/-- Insertion under the primary key; `none` is the integrity error. -/
def insert? (t : Table ρ key) (r : ρ) : Option (Table ρ key) :=
  if h : key r ∈ t.rows.map key then none
  else some ⟨t.rows ++ [r],by
    rw [List.map_append, List.nodup_append]
    refine ⟨t.nodup,by simp,?_⟩
    rintro a ha b hb rfl
    simp only [List.map_cons, List.map_nil, List.mem_singleton] at hb
    exact h (hb ▸ ha)⟩

theorem insert?_eq_none : t.insert? r = none ↔ (t.find? (key r)).isSome := by
  unfold insert?
  split <;> rename_i h
  · obtain ⟨r',hr',hk⟩ := mem_map.mp h
    simp [find?_eq_some.mpr ⟨hr',hk⟩]
  · have hn : t.find? (key r) = none := find?_eq_none.mpr (fun r' hr' hk => h (mem_map.mpr ⟨r',hr',hk⟩))
    simp [hn]

theorem insert?_rows (h : t.insert? r = some t') : t'.rows = t.rows ++ [r] := by
  unfold insert? at h
  split at h
  · cases h
  · cases h
    rfl

theorem forall_mem_insert {P : ρ → Prop} (hi : t.insert? r = some t') (h : ∀ x ∈ t.rows, P x) (hr : P r) :
    ∀ x ∈ t'.rows, P x := by
  rw [insert?_rows hi]
  exact forall_mem_append.mpr ⟨h,forall_mem_singleton.mpr hr⟩

theorem insert?_fresh (h : t.insert? r = some t') : t.find? (key r) = none := by
  cases hf : t.find? (key r) with
  | none => rfl
  | some =>
    have hn : t.insert? r = none := insert?_eq_none.mpr (by simp [hf])
    rw [hn] at h
    cases h

theorem find?_insert? (h : t.insert? r = some t') (k : κ) : t'.find? k = if key r = k then some r else t.find? k := by
  have hfresh := insert?_fresh h
  unfold find? at hfresh ⊢
  rw [insert?_rows h, List.find?_append]
  by_cases hk : key r = k
  · subst hk
    rw [hfresh]
    simp
  · simp [hk]

/-- Write `r` over the row that has its key; a table without that key is unchanged. -/
def set (t : Table ρ key) (r : ρ) : Table ρ key :=
  ⟨t.rows.map (fun x => if key x = key r then r else x),by
    have hkeys : (t.rows.map (fun x => if key x = key r then r else x)).map key = t.rows.map key := by
      rw [List.map_map]
      apply List.map_congr_left
      intro x _
      simp only [Function.comp_apply]
      split <;> simp_all
    rw [hkeys]
    exact t.nodup⟩

theorem mem_set (h : x ∈ (t.set r).rows) : x = r ∨ x ∈ t.rows ∧ key x ≠ key r := by
  obtain ⟨y,hy,rfl⟩ := mem_map.mp h
  split <;> rename_i hk
  · exact Or.inl rfl
  · exact Or.inr ⟨hy,hk⟩

theorem forall_mem_set {P : ρ → Prop} (h : ∀ x ∈ t.rows, P x) (hr : P r) : ∀ x ∈ (t.set r).rows, P x := by
  intro x hx
  rcases mem_set hx with rfl | ⟨hx,-⟩
  · exact hr
  · exact h x hx

theorem find?_set_ne (t : Table ρ key) (r : ρ) (h : key r ≠ k) : (t.set r).find? k = t.find? k := by
  change (t.rows.map (fun x => if key x = key r then r else x)).find? _ = t.rows.find? _
  induction t.rows with
  | nil => rfl
  | cons x _ ih =>
    simp only [map_cons, List.find?_cons]
    by_cases hx : key x = key r
    · have hxk : key x ≠ k := by rw [hx]; exact h
      simpa [hx, h, hxk] using ih
    · by_cases hxk : key x = k
      · rw [if_neg hx]
        simp [hxk]
      · simpa [hx, hxk] using ih

theorem find?_set_self (h : t.find? (key r) = some x) : (t.set r).find? (key r) = some r := by
  apply find?_eq_some.mpr
  refine ⟨mem_map.mpr ⟨x,mem_of_find? h,?_⟩,rfl⟩
  simp [key_of_find? h]

theorem find?_set (h : t.find? (key r) = some x) (k : κ) : (t.set r).find? k = if key r = k then some r
    else t.find? k := by
  by_cases hk : key r = k
  · subst hk
    rw [if_pos rfl, find?_set_self h]
  · rw [if_neg hk, find?_set_ne t r hk]

theorem set_set (t : Table ρ key) {r' : ρ} (h : key r = key r') : (t.set r).set r' = t.set r' := by
  have hrows : ((t.set r).set r').rows = (t.set r').rows := by
    change (t.rows.map _).map _ = t.rows.map _
    rw [map_map]
    apply map_congr_left
    intro x _
    simp only [Function.comp_apply, h]
    by_cases hx : key x = key r'
    · simp [hx, h]
    · simp [hx]
  cases ht : (t.set r).set r' with
  | mk =>
    rw [ht] at hrows
    cases hrows
    rfl

def alter (t : Table ρ key) (f : ρ → ρ) (hf : ∀ r, key (f r) = key r) : Table ρ key :=
  ⟨t.rows.map f,by
    rw [List.map_map, show key ∘ f = key from funext hf]
    exact t.nodup⟩

theorem find?_alter (t : Table ρ key) (f : ρ → ρ) (hf : ∀ r, key (f r) = key r) (k : κ) :
    (t.alter f hf).find? k = (t.find? k).map f := by
  change (t.rows.map f).find? _ = (t.rows.find? _).map f
  rw [List.find?_map]
  congr
  funext r
  simp [hf]

def erase (t : Table ρ key) (k : κ) : Table ρ key :=
  ⟨t.rows.filter (fun r => key r ≠ k),t.nodup.sublist (List.filter_sublist.map _)⟩

theorem mem_erase (h : r ∈ (t.erase k).rows) : r ∈ t.rows := mem_of_mem_filter h

end Table
end OpenPine
