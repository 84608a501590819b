import OpenPine.Compare.TvTrades
import Mathlib.Data.List.Permutation

/-! # What a trade list is normalized to

A listing is a trade with the rows that a list has for it. If a file has the rows of some listings,
in any order, and no two listings share a number, then normalizing it gives the row of every listing
that is inside the window.
-/
namespace OpenPine.Compare
open List Option
open Python (Dict)

structure Listing where
  number : String
  direction : Direction
  entry : Row
  exit : Option Row

namespace Listing

def rows (l : Listing) : List Row := l.entry :: l.exit.toList

def bucket (l : Listing) : Bucket := ⟨some l.entry, l.exit, some l.direction⟩

structure Listed (cols : TvColumns) (l : Listing) : Prop where
  numbered : l.number ≠ ""
  number_eq : ∀ row ∈ l.rows, cols.number row = l.number
  entry_type : tradeActionAndDirection (l.entry.get cols.type) = (some .entry, some l.direction)
  exit_type : ∀ row ∈ l.exit, tradeActionAndDirection (row.get cols.type) = (some .exit, some l.direction)

def exitTime (py : Runtime) (cols : TvColumns) (l : Listing) : Option ℤ :=
  l.exit.bind fun row => csvTimeMs py (row.get cols.time)

def cells (py : Runtime) (cols : TvColumns) (l : Listing) : Row :=
  normalizedCells cols l.number (some l.direction) l.entry (l.exit.getD l.entry) (csvTimeMs py (l.entry.get cols.time))
    (l.exitTime py cols)

theorem normalizedRow_bucket (py : Runtime) (cols : TvColumns) (compareFrom compareTo : Option ℤ) (l : Listing) :
    normalizedRow py cols compareFrom compareTo l.number l.bucket =
      if inTradeWindow compareFrom compareTo ((l.exitTime py cols).or (csvTimeMs py (l.entry.get cols.time))) then
        some (l.cells py cols)
      else none := by
  obtain ⟨number,direction,entry,exit⟩ := l
  cases exit with
  | none => rfl
  | some exit =>
    unfold cells exitTime
    simp only [normalizedRow, bucket, some_or, isSome_some, if_true, bind_some, getD_some]
    cases csvTimeMs py (exit.get cols.time) with
    | none | some => rfl

end Listing

structure Lists (cols : TvColumns) (tv : CsvFile) (listings : List Listing) : Prop where
  columns : tvColumns tv.fields = .ok cols
  rows_perm : tv.rows.Perm (listings.flatMap Listing.rows)
  numbers_nodup : (listings.map Listing.number).Nodup
  listed : ∀ l ∈ listings, l.Listed cols

variable {py : Runtime} {cols : TvColumns} {l : Listing}

/-! ### The grouping loop -/

def stepBucket (cols : TvColumns) (b : Option Bucket) (row : Row) : Option Bucket :=
  match tradeActionAndDirection (row.get cols.type) with
  | (none, _) => b
  | (some action, direction) => some ((b.getD .empty).store action row direction)

theorem get?_groupRow (grouped : Dict String Bucket) (row : Row) {n : String} (hn : n ≠ "") :
    Dict.get? (groupRow cols grouped row) n =
      if cols.number row = n then stepBucket cols (Dict.get? grouped n) row else Dict.get? grouped n := by
  unfold groupRow stepBucket
  rcases tradeActionAndDirection (row.get cols.type) with ⟨_ | action,direction⟩
  · simp only [ite_self]
  · by_cases hrow : cols.number row = n
    · rw [if_neg (by rwa [hrow]), if_pos hrow, Dict.get?_put, if_pos hrow, hrow]
    · rw [if_neg hrow]
      split
      · rfl
      · rw [Dict.get?_put, if_neg hrow]

theorem get?_groupRows (rows : List Row) (grouped : Dict String Bucket) {n : String} (hn : n ≠ "") :
    Dict.get? (rows.foldl (groupRow cols) grouped) n =
      (rows.filter fun row => cols.number row = n).foldl (stepBucket cols) (Dict.get? grouped n) := by
  induction rows generalizing grouped with
  | nil => rfl
  | cons row _ ih =>
    rw [foldl_cons, ih, get?_groupRow _ _ hn, filter_cons]
    by_cases hrow : cols.number row = n
    · simp [hrow]
    · simp [hrow]

theorem get?_groupRows_blank (rows : List Row) : Dict.get? (rows.foldl (groupRow cols) .empty) "" = none := by
  suffices ∀ grouped : Dict String Bucket, Dict.get? grouped "" = none →
      Dict.get? (rows.foldl (groupRow cols) grouped) "" = none from this .empty rfl
  induction rows with
  | nil => exact fun _ h => h
  | cons _ _ ih =>
    intro grouped h
    refine ih _ ?_
    unfold groupRow
    split
    · exact h
    · rename_i hrow
      split
      · exact h
      · rw [Dict.get?_put, if_neg hrow]
        exact h

/-! ### The buckets of a list -/

theorem Listing.Listed.fold_eq (h : l.Listed cols) {rows : List Row} (hperm : rows.Perm l.rows) :
    rows.foldl (stepBucket cols) none = some l.bucket := by
  have hentry := h.entry_type
  have hexit := h.exit_type
  obtain ⟨number,direction,entry,exit⟩ := l
  cases exit with
  | none =>
    obtain rfl := perm_singleton.mp hperm
    simp only [foldl_cons, foldl_nil, stepBucket, hentry]
    rfl
  | some exit =>
    -- the two rows may come in either order
    have hexit := hexit exit rfl
    rcases perm_pair.mp hperm with rfl | rfl
    · simp only [foldl_cons, foldl_nil, stepBucket, hentry, hexit]
      rfl
    · simp only [foldl_cons, foldl_nil, stepBucket, hentry, hexit]
      rfl

theorem filter_number {listings : List Listing} (hnodup : (listings.map Listing.number).Nodup)
    (hlisted : ∀ l ∈ listings, l.Listed cols) (hl : l ∈ listings) :
    (listings.flatMap Listing.rows).filter (fun row => cols.number row = l.number) = l.rows := by
  induction listings with
  | nil => cases hl
  | cons first listings ih =>
    obtain ⟨hfresh,hnodup⟩ := nodup_cons.mp hnodup
    obtain ⟨hfirst,hrest⟩ := forall_mem_cons.mp hlisted
    rw [flatMap_cons, filter_append]
    rcases mem_cons.mp hl with rfl | hl
    · have hown : l.rows.filter (fun row => cols.number row = l.number) = l.rows := by
        rw [filter_eq_self]
        exact fun row hrow => decide_eq_true (hfirst.number_eq row hrow)
      have hother : (listings.flatMap Listing.rows).filter (fun row => cols.number row = l.number) = [] := by
        rw [filter_eq_nil_iff]
        intro row hrow hnumber
        obtain ⟨l',hl',hrow⟩ := mem_flatMap.mp hrow
        refine hfresh (mem_map.mpr ⟨l',hl',?_⟩)
        rw [← (hrest l' hl').number_eq row hrow]
        exact of_decide_eq_true hnumber
      rw [hown, hother, append_nil]
    · have hother : first.rows.filter (fun row => cols.number row = l.number) = [] := by
        rw [filter_eq_nil_iff]
        intro row hrow hnumber
        refine hfresh (mem_map.mpr ⟨l,hl,?_⟩)
        rw [← hfirst.number_eq row hrow]
        exact (of_decide_eq_true hnumber).symm
      rw [hother, nil_append, ih hnodup hrest hl]

namespace Lists
variable {tv : CsvFile} {listings : List Listing} (h : Lists cols tv listings)
include h

theorem get?_eq (hl : l ∈ listings) : Dict.get? (tv.rows.foldl (groupRow cols) .empty) l.number = some l.bucket := by
  have hlisted := h.listed l hl
  rw [get?_groupRows _ _ hlisted.numbered]
  refine hlisted.fold_eq ?_
  rw [← filter_number h.numbers_nodup h.listed hl]
  exact h.rows_perm.filter _

/-- Every listed trade has one bucket. -/
theorem numbers_perm :
    ((tv.rows.foldl (groupRow cols) .empty).rows.map Prod.fst).Perm (listings.map Listing.number) := by
  refine (perm_ext_iff_of_nodup (tv.rows.foldl (groupRow cols) .empty).nodup h.numbers_nodup).mpr fun n => ?_
  rw [Dict.mem_keys]
  constructor
  · intro hsome
    have hn : n ≠ "" := by
      rintro rfl
      rw [get?_groupRows_blank] at hsome
      cases hsome
    rw [get?_groupRows _ _ hn] at hsome
    cases hfilter : tv.rows.filter (fun row => cols.number row = n) with
    | nil =>
      rw [hfilter] at hsome
      cases hsome
    | cons row =>
      obtain ⟨hrow,hnumber⟩ := mem_filter.mp (hfilter ▸ mem_cons_self : row ∈ tv.rows.filter _)
      obtain ⟨l,hl,hrow⟩ := mem_flatMap.mp (h.rows_perm.mem_iff.mp hrow)
      refine mem_map.mpr ⟨l,hl,?_⟩
      rw [← (h.listed l hl).number_eq row hrow]
      exact of_decide_eq_true hnumber
  · intro hmem
    obtain ⟨l,hl,rfl⟩ := mem_map.mp hmem
    rw [h.get?_eq hl]
    rfl

theorem normalized (py : Runtime) (compareFrom compareTo : Option ℤ) :
    ∃ rows, writeNormalizedTvTrades py tv compareFrom compareTo = .ok ⟨tvTradeFields, rows⟩ ∧
      rows.Perm ((listings.filter fun l =>
        inTradeWindow compareFrom compareTo ((l.exitTime py cols).or (csvTimeMs py (l.entry.get cols.time)))).map
          (Listing.cells py cols)) := by
  have hrows : (listings.map Listing.number).filterMap (fun tradeNo =>
      (Dict.get? (tv.rows.foldl (groupRow cols) .empty) tradeNo).bind
        (normalizedRow py cols compareFrom compareTo tradeNo)) =
      (listings.filter fun l =>
        inTradeWindow compareFrom compareTo ((l.exitTime py cols).or (csvTimeMs py (l.entry.get cols.time)))).map
          (Listing.cells py cols) := by
    rw [filterMap_map, ← filterMap_eq_map, filterMap_filter]
    refine filterMap_congr fun l hl => ?_
    rw [Function.comp_apply, h.get?_eq hl, bind_some, Listing.normalizedRow_bucket]
    rfl
  rw [← hrows]
  unfold writeNormalizedTvTrades
  rw [h.columns]
  exact ⟨_,rfl,((perm_insertionSort _ _).trans h.numbers_perm).filterMap _⟩

end Lists
end OpenPine.Compare
