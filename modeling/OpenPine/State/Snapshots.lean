import OpenPine.Foundation.Grouping
import OpenPine.Foundation.StableSort
import Mathlib.Data.List.MinMax
import Mathlib.Data.Prod.Lex

/-! # Snapshot metadata

`SnapshotMetadata` of `openpine/state/store.py` and what the store does to its
registry, the lists of metadata by strategy: saving, pruning, deleting and
invalidating. Nothing here touches a file.
-/
namespace OpenPine.State
open Python List

abbrev Serialized := List (String × String)

inductive SnapshotStatus
  | active | superseded | invalid
deriving DecidableEq, Repr

inductive Encoding
  | msgpack | pickle
deriving DecidableEq, Repr

/-- Snapshots are named by a `uuid4`. No such name is drawn twice, so the names are
numbered in the order in which they are drawn. -/
abbrev SnapshotId := ℕ

structure SnapshotMetadata where
  snapshotId : SnapshotId
  (strategyId artifactId paramsHash : String)
  (instrumentKey timeframe : Serialized)
  (barTime savedAt : ℤ)
  sizeBytes : ℕ
  status : SnapshotStatus := .active
  reason : String := "scheduled"
  dataFingerprint : Option String := none
  stateEncoding : Encoding := .msgpack
  checksum : Option String := none
deriving DecidableEq

variable {m : SnapshotMetadata} (since : Option ℤ)

namespace SnapshotMetadata

instance : Preorder (ℤ ×ₗ ℤ) := (@Prod.Lex.instLinearOrder ℤ ℤ Int.instLinearOrder Int.instLinearOrder).toPreorder

def age (m : SnapshotMetadata) : ℤ ×ₗ ℤ := toLex (m.barTime, m.savedAt)

def supersede (m : SnapshotMetadata) : SnapshotMetadata :=
  if m.status = .active then { m with status := .superseded } else m

/-- `since_bar_time is None or snap.bar_time >= since_bar_time` -/
def InRange (since : Option ℤ) (m : SnapshotMetadata) : Prop := ∀ t ∈ since, t ≤ m.barTime

instance (since : Option ℤ) (m : SnapshotMetadata) : Decidable (m.InRange since) := by
  unfold InRange
  infer_instance

def invalidate (since : Option ℤ) (m : SnapshotMetadata) : SnapshotMetadata :=
  if m.InRange since then { m with status := .invalid } else m

@[simp] theorem supersede_snapshotId (m : SnapshotMetadata) : m.supersede.snapshotId = m.snapshotId := by
  unfold supersede
  split <;> rfl

@[simp] theorem supersede_strategyId (m : SnapshotMetadata) : m.supersede.strategyId = m.strategyId := by
  unfold supersede
  split <;> rfl

@[simp] theorem supersede_barTime (m : SnapshotMetadata) : m.supersede.barTime = m.barTime := by
  unfold supersede
  split <;> rfl

@[simp] theorem supersede_age (m : SnapshotMetadata) : m.supersede.age = m.age := by
  unfold supersede
  split <;> rfl

@[simp] theorem invalidate_snapshotId (m : SnapshotMetadata) : (m.invalidate since).snapshotId = m.snapshotId := by
  unfold invalidate
  split <;> rfl

@[simp] theorem invalidate_strategyId (m : SnapshotMetadata) : (m.invalidate since).strategyId = m.strategyId := by
  unfold invalidate
  split <;> rfl

theorem supersede_not_active (m : SnapshotMetadata) : m.supersede.status ≠ .active := by
  unfold supersede
  split
  · nofun
  · assumption

theorem invalidate_active {since : Option ℤ} (h : (m.invalidate since).status = .active) :
    m.invalidate since = m ∧ ¬m.InRange since := by
  unfold invalidate at h ⊢
  split at h <;> rename_i hrange
  · cases h
  · exact ⟨if_neg hrange,hrange⟩

end SnapshotMetadata

/-! ### Retention -/

/-- `sorted(…, reverse=True)` by age, which keeps the order of equal ages. -/
def newestFirst (snapshots : List SnapshotMetadata) : List SnapshotMetadata :=
  snapshots.insertionSort (fun m m' => m'.age ≤ m.age)

def retained (limit : ℕ) (snapshots : List SnapshotMetadata) : List SnapshotMetadata :=
  ((newestFirst snapshots).take limit).reverse

def stale (limit : ℕ) (snapshots : List SnapshotMetadata) : List SnapshotMetadata := (newestFirst snapshots).drop limit

theorem retained_append_stale_perm (limit : ℕ) (snapshots : List SnapshotMetadata) :
    (retained limit snapshots ++ stale limit snapshots).Perm snapshots := by
  have hrev : (retained limit snapshots ++ stale limit snapshots).Perm
      ((newestFirst snapshots).take limit ++ (newestFirst snapshots).drop limit) := (reverse_perm _).append_right _
  rw [take_append_drop] at hrev
  exact hrev.trans (perm_insertionSort _ _)

variable {snapshots : List SnapshotMetadata} {limit : ℕ}

theorem mem_of_mem_retained (h : m ∈ retained limit snapshots) : m ∈ snapshots :=
  (retained_append_stale_perm limit snapshots).subset (mem_append_left _ h)

theorem nodup_ids_retained (limit : ℕ) (h : (snapshots.map SnapshotMetadata.snapshotId).Nodup) :
    ((retained limit snapshots ++ stale limit snapshots).map SnapshotMetadata.snapshotId).Nodup :=
  ((retained_append_stale_perm limit snapshots).map _).nodup_iff.mpr h

theorem mem_retained_concat (hm : m ∉ snapshots) :
    m ∈ retained limit (snapshots ++ [m]) ↔ snapshots.countP (fun m' => decide (m.age ≤ m'.age)) < limit := by
  have htrans : IsTrans SnapshotMetadata (fun m m' => m'.age ≤ m.age) := ⟨fun _ _ _ h h' => h'.trans h⟩
  have htotal : Std.Total (fun m m' : SnapshotMetadata => m'.age ≤ m.age) := ⟨fun m m' => le_total m'.age m.age⟩
  rw [retained, mem_reverse, newestFirst]
  exact StableSort.mem_take_insertionSort_concat _ hm limit

/-! ### The registry -/

abbrev Registry := Groups String SnapshotMetadata

namespace Registry

def load (entries : List SnapshotMetadata) : Registry := Groups.group SnapshotMetadata.strategyId entries

def prune (r : Registry) (strategyId : String) (limit : ℕ) : Registry × List SnapshotMetadata :=
  (Dict.put r strategyId (retained limit (r.of strategyId)), stale limit (r.of strategyId))

/-- Supersedes the active snapshots of the strategy, appends the new one and prunes.
The second component is what was pruned. -/
def save (r : Registry) (snap : SnapshotMetadata) (limit : ℕ) : Registry × List SnapshotMetadata :=
  let superseded : Registry := Dict.put r snap.strategyId ((r.of snap.strategyId).map .supersede)
  prune (superseded.add SnapshotMetadata.strategyId snap) snap.strategyId limit

/-- Drops the first snapshot with the id; the result names the strategy it was found under. -/
def delete (r : Registry) (id : SnapshotId) : Option (String × Registry) :=
  (r.rows.find? (fun p => p.2.any (fun m => m.snapshotId = id))).map fun p =>
    (p.1, Dict.put r p.1 (p.2.eraseP (fun m => m.snapshotId = id)))

def markInvalid (r : Registry) (strategyId : String) (since : Option ℤ) : Registry :=
  match Dict.get? r strategyId with
  | none => r
  | some metas => Dict.put r strategyId (metas.map (.invalidate since))

abbrev Keyed (r : Registry) : Prop := Groups.Keyed SnapshotMetadata.strategyId r

theorem keyed_load (entries : List SnapshotMetadata) : (load entries).Keyed := Groups.keyed_group entries

def afterSave (snapshots : List SnapshotMetadata) (snap : SnapshotMetadata) : List SnapshotMetadata :=
  snapshots.map .supersede ++ [snap]

theorem of_save (r : Registry) (snap : SnapshotMetadata) (limit : ℕ) (sid : String) : (r.save snap limit).1.of sid =
      if snap.strategyId = sid then retained limit (afterSave (r.of snap.strategyId) snap) else r.of sid := by
  unfold save prune Groups.add afterSave
  by_cases h : snap.strategyId = sid <;> simp [h]

theorem save_stale (r : Registry) (snap : SnapshotMetadata) (limit : ℕ) :
    (r.save snap limit).2 = stale limit (afterSave (r.of snap.strategyId) snap) := by
  simp [save, prune, Groups.add, afterSave]

variable {id : SnapshotId} {r : Registry}

theorem stale_afterSave {snapshots : List SnapshotMetadata} {snap : SnapshotMetadata}
    (h : id ∈ (stale limit (afterSave snapshots snap)).map SnapshotMetadata.snapshotId) :
    snap.snapshotId = id ∨ ∃ m ∈ snapshots, m.snapshotId = id := by
  obtain ⟨m,hm,rfl⟩ := mem_map.mp h
  have hall := (retained_append_stale_perm limit (afterSave snapshots snap)).subset (mem_append_right _ hm)
  rcases mem_append.mp hall with hold | hnew
  · obtain ⟨m₀,hm₀,rfl⟩ := mem_map.mp hold
    exact .inr ⟨m₀,hm₀,(m₀.supersede_snapshotId).symm⟩
  · rw [mem_singleton.mp hnew]
    exact .inl rfl

theorem strategyId_of_mem_afterSave (h : r.Keyed) {snap m : SnapshotMetadata}
    (hm : m ∈ afterSave (r.of snap.strategyId) snap) : m.strategyId = snap.strategyId := by
  rcases mem_append.mp hm with hm | hm
  · obtain ⟨m',hm',rfl⟩ := mem_map.mp hm
    rw [SnapshotMetadata.supersede_strategyId]
    exact h _ m' hm'
  · rw [mem_singleton.mp hm]

theorem Keyed.save (h : r.Keyed) (snap : SnapshotMetadata) (limit : ℕ) : (r.save snap limit).1.Keyed := by
  intro sid m hm
  rw [of_save] at hm
  split at hm <;> rename_i hsid
  · exact (strategyId_of_mem_afterSave h (mem_of_mem_retained hm)).trans hsid
  · exact h sid m hm

theorem of_markInvalid (r : Registry) (strategyId : String) (since : Option ℤ) (sid : String) :
    (r.markInvalid strategyId since).of sid = if strategyId = sid then (r.of sid).map (.invalidate since)
      else r.of sid := by
  unfold markInvalid
  cases hget : Dict.get? r strategyId with
  | none =>
    by_cases h : strategyId = sid
    · subst h
      simp [Groups.of, hget]
    · simp [h]
  | some =>
    by_cases h : strategyId = sid
    · subst h
      simp [Groups.of, hget, Dict.get?_put]
    · simp [h]

theorem Keyed.markInvalid (h : r.Keyed) (strategyId : String) (since : Option ℤ) :
    (r.markInvalid strategyId since).Keyed := by
  intro sid m hm
  rw [of_markInvalid] at hm
  split at hm
  · obtain ⟨m',hm',rfl⟩ := mem_map.mp hm
    rw [SnapshotMetadata.invalidate_strategyId]
    exact h sid m' hm'
  · exact h sid m hm

theorem delete_eq_some {r' : Registry} {sid : String} (h : r.delete id = some (sid, r')) :
    (∃ m ∈ r.of sid, m.snapshotId = id) ∧ r' = Dict.put r sid ((r.of sid).eraseP (fun m => m.snapshotId = id)) := by
  obtain ⟨p,hp,he⟩ := Option.map_eq_some_iff.mp h
  cases he
  have hany := List.find?_some hp
  obtain ⟨m,hm,hid⟩ := any_eq_true.mp hany
  rw [Groups.of_eq_of_mem (mem_of_find?_eq_some hp)]
  exact ⟨⟨m,hm,of_decide_eq_true hid⟩,rfl⟩

theorem delete_eq_none (h : r.delete id = none) (sid : String) : ∀ m ∈ r.of sid, m.snapshotId ≠ id := by
  intro m hm hid
  unfold Groups.of Dict.get? at hm
  cases hfind : r.find? sid with
  | none => simp [hfind] at hm
  | some p =>
    rw [hfind] at hm
    have hnone := List.find?_eq_none.mp (Option.map_eq_none_iff.mp h) p (Table.mem_of_find? hfind)
    exact hnone (any_eq_true.mpr ⟨m,hm,decide_eq_true hid⟩)

theorem Keyed.delete {r' : Registry} (h : r.Keyed) {sid : String} (hd : r.delete id = some (sid, r')) : r'.Keyed := by
  obtain ⟨-,rfl⟩ := delete_eq_some hd
  exact h.put fun m hm => h sid m (eraseP_subset hm)

end Registry
end OpenPine.State
