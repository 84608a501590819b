import OpenPine.Foundation.KeyedTable

/-! # Python values

The truth test of an optional string, exceptions, the case of letters, and dictionaries, which keep
the order in which their keys were first stored.
-/
namespace OpenPine.Python
open List
universe u v

/-- The truth test of an optional string: absent and empty count as false. -/
def nonEmpty (x : Option String) : Option String := x.filter (fun v => v ≠ "")

theorem nonEmpty_eq_some {x : Option String} {v : String} : nonEmpty x = some v ↔ x = some v ∧ v ≠ "" := by
  simp [nonEmpty, Option.filter_eq_some_iff]

theorem bind_eq_ok {ε : Type u} {α β : Type v} {x : Except ε α} {f : α → Except ε β} {b : β} :
    (x >>= f) = .ok b ↔ ∃ a, x = .ok a ∧ f a = .ok b := by
  cases x with
  | error =>
    constructor
    · rintro ⟨⟩
    · rintro ⟨_,⟨⟩,_⟩
  | ok a =>
    constructor
    · intro h
      exact ⟨a,rfl,h⟩
    · rintro ⟨_,⟨⟩,h⟩
      exact h

variable {ε α : Type}

theorem throw_ne_ok {e : ε} {a : α} : (throw e : Except ε α) ≠ .ok a := by rintro ⟨⟩

theorem pure_eq_ok {a b : α} : (pure a : Except ε α) = .ok b ↔ a = b :=
  ⟨fun h => Except.ok.inj h,fun h => congrArg Except.ok h⟩

theorem ite_throw_eq_ok {c : Prop} [Decidable c] {x : Except ε α} {e : ε} {a : α} :
    (if c then x else throw e) = .ok a ↔ c ∧ x = .ok a := by
  by_cases hc : c
  · simp [hc]
  · simp [hc, throw_ne_ok]

theorem throw_ite_eq_ok {c : Prop} [Decidable c] {x : Except ε α} {e : ε} {a : α} :
    (if c then throw e else x) = .ok a ↔ ¬c ∧ x = .ok a := by
  by_cases hc : c
  · simp [hc, throw_ne_ok]
  · simp [hc]

/-- `str.lower` and `str.upper`, which change other letters than those of ASCII too. Here they do not: market keys,
exchanges and sides are taken to be in ASCII. -/
def lower (s : String) : String := .ofList (s.toList.map Char.toLower)

def upper (s : String) : String := .ofList (s.toList.map Char.toUpper)

abbrev Dict (κ υ : Type*) := Table (κ × υ) Prod.fst

namespace Dict
variable {κ υ : Type*} [DecidableEq κ]

def get? (d : Dict κ υ) (k : κ) : Option υ := (d.find? k).map Prod.snd

def put (d : Dict κ υ) (k : κ) (v : υ) : Dict κ υ := (d.insert? (k, v)).getD (d.set (k, v))

def del (d : Dict κ υ) (k : κ) : Dict κ υ :=
  ⟨d.rows.filter (fun p => p.1 ≠ k),d.nodup.sublist (List.filter_sublist.map _)⟩

def values (d : Dict κ υ) : List υ := d.rows.map Prod.snd

theorem get?_put (d : Dict κ υ) (k : κ) (v : υ) (k' : κ) : get? (put d k v) k' = if k = k' then some v
    else get? d k' := by
  have hfind : (put d k v).find? k' = if k = k' then some (k, v) else d.find? k' := by
    unfold put
    cases hi : d.insert? (k, v) with
    | some => exact Table.find?_insert? hi k'
    | none =>
      obtain ⟨x,hx⟩ := Option.isSome_iff_exists.mp (Table.insert?_eq_none.mp hi)
      exact Table.find?_set hx k'
  unfold get?
  rw [hfind]
  split
  · rfl
  · rfl

theorem get?_del (d : Dict κ υ) (k k' : κ) : get? (del d k) k' = if k = k' then none else get? d k' := by
  have hfind : (del d k).find? k' = if k = k' then none else d.find? k' := by
    split <;> rename_i he
    · subst he
      refine Table.find?_eq_none.mpr fun p hp hk => ?_
      simpa [hk] using (mem_filter.mp hp).2
    · cases hf : d.find? k' with
      | none => exact Table.find?_eq_none.mpr fun p hp => Table.find?_eq_none.mp hf p (mem_filter.mp hp).1
      | some =>
        obtain ⟨hp,hk⟩ := Table.find?_eq_some.mp hf
        refine Table.find?_eq_some.mpr ⟨mem_filter.mpr ⟨hp,?_⟩,hk⟩
        simpa [hk] using Ne.symm he
  unfold get?
  rw [hfind]
  split
  · rfl
  · rfl

variable {d : Dict κ υ} {key : υ → κ} {xs : List υ} {x : υ}

theorem mem_keys {k : κ} : k ∈ d.rows.map Prod.fst ↔ (get? d k).isSome := by
  rw [get?, Option.isSome_map, mem_map]
  constructor
  · rintro ⟨p,hp,rfl⟩
    rw [Table.find?_of_mem hp]
    rfl
  · intro h
    obtain ⟨p,hp⟩ := Option.isSome_iff_exists.mp h
    obtain ⟨hmem,hkey⟩ := Table.find?_eq_some.mp hp
    exact ⟨p,hmem,hkey⟩

theorem values_put_of_keys {k : κ} (h : ∀ p ∈ d.rows, p.1 = k) (v : υ) : (put d k v).values = [v] := by
  obtain ⟨rows,hnodup⟩ := d
  match rows with
  | [] => rfl
  | [p] =>
    obtain rfl : p.1 = k := h p mem_cons_self
    simp [put, values, Table.insert?, Table.set]
  | p :: q :: rows =>
    have hp : p.1 = k := h p mem_cons_self
    have hq : q.1 = k := h q (mem_cons_of_mem _ mem_cons_self)
    simp [hp, hq] at hnodup

theorem mem_put {k : κ} {v : υ} {p : κ × υ} (h : p ∈ (put d k v).rows) : p = (k, v) ∨ p ∈ d.rows := by
  unfold put at h
  cases hi : d.insert? (k, v) with
  | some =>
    rw [hi, Option.getD_some, Table.insert?_rows hi, mem_append, mem_singleton] at h
    exact h.symm
  | none =>
    rw [hi, Option.getD_none] at h
    exact (Table.mem_set h).imp_right And.left

/-- `{key(x): x for x in xs}`: under each key the last item that has it. -/
def index (key : υ → κ) (xs : List υ) : Dict κ υ := xs.foldl (fun d x => put d (key x) x) .empty

/-- The dictionary has items of the list, each under its key, and one for every key. -/
structure Indexes (key : υ → κ) (d : Dict κ υ) (xs : List υ) : Prop where
  keyed : ∀ p ∈ d.rows, p.1 = key p.2
  found : ∀ p ∈ d.rows, p.2 ∈ xs
  cover : ∀ x ∈ xs, (get? d (key x)).isSome

theorem Indexes.put (h : Indexes key d xs) (x : υ) : Indexes key (put d (key x) x) (xs ++ [x]) := by
  refine ⟨fun p hp => ?_,fun p hp => ?_,fun y hy => ?_⟩
  · rcases mem_put hp with rfl | hp
    · rfl
    · exact h.keyed p hp
  · rcases mem_put hp with rfl | hp
    · exact mem_append_right _ mem_cons_self
    · exact mem_append_left _ (h.found p hp)
  · rw [get?_put]
    split
    · rfl
    · rename_i hne
      rcases mem_append.mp hy with hy | hy
      · exact h.cover y hy
      · cases mem_singleton.mp hy
        exact absurd rfl hne

theorem indexes_index (key : υ → κ) (xs : List υ) : Indexes key (index key xs) xs := by
  have hstart : Indexes key (.empty : Dict κ υ) [] := ⟨by simp,by simp,by simp⟩
  suffices ∀ (ys xs : List υ) d, Indexes key d xs →
      Indexes key (ys.foldl (fun d x => put d (key x) x) d) (xs ++ ys) from this xs [] _ hstart
  intro ys
  induction ys with
  | nil => exact fun xs d h => by simpa using h
  | cons y _ ih => exact fun xs d h => by simpa using ih _ _ (h.put y)

section
variable (h : Indexes key d xs)
include h

theorem Indexes.values_nodup : (d.values.map key).Nodup := by
  have hkeys : d.values.map key = d.rows.map Prod.fst := by
    rw [values, map_map]
    exact map_congr_left fun p hp => (h.keyed p hp).symm
  rw [hkeys]
  exact d.nodup

theorem Indexes.mem_of_mem_values (hx : x ∈ d.values) : x ∈ xs := by
  obtain ⟨p,hp,rfl⟩ := mem_map.mp hx
  exact h.found p hp

theorem Indexes.key_mem_values (hx : x ∈ xs) : key x ∈ d.values.map key := by
  obtain ⟨y,hy⟩ := Option.isSome_iff_exists.mp (h.cover x hx)
  obtain ⟨p,hp,rfl⟩ := Option.map_eq_some_iff.mp hy
  obtain ⟨hmem,hkey⟩ := Table.find?_eq_some.mp hp
  rw [← hkey, h.keyed p hmem]
  exact mem_map_of_mem (mem_map_of_mem hmem)

end

end Dict
end OpenPine.Python
