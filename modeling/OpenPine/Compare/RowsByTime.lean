import OpenPine.Compare.Csv

/-! # Comparing rows by their times

The rows of both files are indexed by the times they carry. A row without a readable time, or a time
that occurs twice, makes the comparison fail. If the window has no upper bound, the latest time is left out
if both files have it, since its bar may still be open.
-/
namespace OpenPine.Compare
open Python (Dict bind_eq_ok)

variable (py : Runtime)

structure TimeOptions where
  (tvTimeColumn opTimeColumn : String)
  exclude : List String
  (compareFrom compareTo : Option ℤ)
  (dropBlankTvRows closedBarsOnly requireExactColumns : Bool)

structure TimeIndex where
  indexed : Dict ℤ Row
  (seen duplicates : List ℤ)
  invalid : ℕ
  blank : List ℤ

def TimeIndex.empty : TimeIndex := ⟨.empty, [], [], 0, []⟩

def hasComparableValues (columns : List String) (row : Row) : Bool :=
  columns.any fun column => !byTime.isBlank (row.get column)

structure IndexOptions where
  timeColumn : String
  (compareFrom compareTo : Option ℤ)
  dropBlankRows : Bool
  columns : List String

def TimeIndex.add (opts : IndexOptions) (ix : TimeIndex) (row : Row) : TimeIndex :=
  match csvTimeMs py (row.get opts.timeColumn) with
  | none => { ix with invalid := ix.invalid + 1 }
  | some ts =>
    if !timeInCompareWindow ts opts.compareFrom opts.compareTo then ix
    else
      let duplicates := if ts ∈ ix.seen then ix.duplicates.insert ts else ix.duplicates
      let seen := ix.seen.insert ts
      if opts.dropBlankRows && !hasComparableValues opts.columns row then
        { ix with duplicates := duplicates, seen := seen, blank := ix.blank.insert ts }
      else { ix with duplicates := duplicates, seen := seen, indexed := Dict.put ix.indexed ts row }

def rowsByTime (opts : IndexOptions) (rows : List Row) : TimeIndex := rows.foldl (TimeIndex.add py opts) .empty

def latestTime (timeColumn : String) (compareFrom compareTo : Option ℤ) (rows : List Row) : Option ℤ :=
  (rows.filterMap fun row =>
    (csvTimeMs py (row.get timeColumn)).filter fun ts => timeInCompareWindow ts compareFrom compareTo).max?

/-- `indexed.pop(ts, None)` for a time that may be none. -/
def popTime (indexed : Dict ℤ Row) (ts : Option ℤ) : Dict ℤ Row := (ts.map (Dict.del indexed)).getD indexed

def timeKeys (indexed : Dict ℤ Row) : List ℤ := indexed.rows.map Prod.fst

def timeCell (tol : Tolerances) (tv op : Dict ℤ Row) (column : String) (ts : ℤ) : Except String Cell :=
  compareCell py byTime tol ((Dict.get? tv ts).bind (·.get column)) ((Dict.get? op ts).bind (·.get column))

def TimeOptions.columns (opts : TimeOptions) (tv op : CsvFile) : ColumnSets :=
  columnSets (tv.fields.filter fun f => f ∉ opts.exclude ∧ f ≠ opts.tvTimeColumn)
    (op.fields.filter fun f => f ∉ opts.exclude ∧ f ≠ opts.opTimeColumn)

/-- The latest time of both files, which is left out if the window has no upper bound. -/
def TimeOptions.sharedLatest (opts : TimeOptions) (tv op : CsvFile) : Option ℤ :=
  if opts.closedBarsOnly ∧ opts.compareTo = none then
    let latestTv := latestTime py opts.tvTimeColumn opts.compareFrom opts.compareTo tv.rows
    let latestOp := latestTime py opts.opTimeColumn opts.compareFrom opts.compareTo op.rows
    if latestTv = latestOp then latestTv else none
  else none

def TimeOptions.tvOptions (opts : TimeOptions) (tv op : CsvFile) : IndexOptions where
  timeColumn := opts.tvTimeColumn
  compareFrom := opts.compareFrom
  compareTo := opts.compareTo
  dropBlankRows := opts.dropBlankTvRows
  columns := (opts.columns tv op).common

def TimeOptions.opOptions (opts : TimeOptions) (tv op : CsvFile) : IndexOptions where
  timeColumn := opts.opTimeColumn
  compareFrom := opts.compareFrom
  compareTo := opts.compareTo
  dropBlankRows := false
  columns := (opts.columns tv op).common

def TimeOptions.tvIndex (opts : TimeOptions) (tv op : CsvFile) : TimeIndex :=
  rowsByTime py (opts.tvOptions tv op) tv.rows

def TimeOptions.opIndex (opts : TimeOptions) (tv op : CsvFile) : TimeIndex :=
  rowsByTime py (opts.opOptions tv op) op.rows

def TimeOptions.tvByTime (opts : TimeOptions) (tv op : CsvFile) : Dict ℤ Row :=
  popTime (opts.tvIndex py tv op).indexed (opts.sharedLatest py tv op)

def TimeOptions.opByTime (opts : TimeOptions) (tv op : CsvFile) : Dict ℤ Row :=
  popTime ((opts.tvIndex py tv op).blank.foldl Dict.del (opts.opIndex py tv op).indexed) (opts.sharedLatest py tv op)

def TimeOptions.commonTimes (opts : TimeOptions) (tv op : CsvFile) : List ℤ :=
  ((timeKeys (opts.tvByTime py tv op)).filter (· ∈ timeKeys (opts.opByTime py tv op))).insertionSort (· ≤ ·)

def compareRowsByTime (tv op : CsvFile) (opts : TimeOptions) (tol : Tolerances) : Except String Summary := do
  let columns := opts.columns tv op
  let tvIndex := opts.tvIndex py tv op
  let opIndex := opts.opIndex py tv op
  let tvByTime := opts.tvByTime py tv op
  let opByTime := opts.opByTime py tv op
  let commonTimes := opts.commonTimes py tv op
  let tally ← compareCells (timeCell py tol tvByTime opByTime) columns.common commonTimes
  let missingTimes := (timeKeys tvByTime).filter (· ∉ timeKeys opByTime)
  let extraTimes := (timeKeys opByTime).filter (· ∉ timeKeys tvByTime)
  let exactColumns := opts.requireExactColumns → columns.extra = []
  let matched := tally.total ≠ 0 ∧ tally.mismatches = 0 ∧ missingTimes = [] ∧ extraTimes = [] ∧ columns.missing = [] ∧
    exactColumns ∧ tvIndex.duplicates = [] ∧ opIndex.duplicates = [] ∧ tvIndex.invalid = 0 ∧ opIndex.invalid = 0
  let classification :=
    (if columns.common = [] then [Problem.noCommonColumns] else []) ++
    (if columns.missing ≠ [] ∨ ¬exactColumns then [.columnSetMismatch] else []) ++
    (if missingTimes ≠ [] ∨ extraTimes ≠ [] then [.timeWindowMismatch] else []) ++
    (if tvIndex.duplicates ≠ [] ∨ opIndex.duplicates ≠ [] then [.duplicateTimestamps] else []) ++
    (if tvIndex.invalid ≠ 0 ∨ opIndex.invalid ≠ 0 then [.invalidTimestamps] else []) ++
    (if tally.total = 0 then [.noComparableCells] else if tally.mismatches ≠ 0 then [.valueMismatch] else [])
  pure
    { status := if matched then .matched else .mismatch, classification := classification,
      tvRows := (timeKeys tvByTime).length
      openpineRows := (timeKeys opByTime).length, commonTimes := commonTimes.length, missingTimes := missingTimes.length
      extraTimes := extraTimes.length, commonColumns := columns.common.length, missingColumnNames := columns.missing
      extraColumnNames := columns.extra, totalCells := tally.total, mismatchCells := tally.mismatches
      nanMismatches := tally.nanMismatches }

variable {py}

/-! ### Indexing -/

variable {opts : IndexOptions}

theorem invalid_foldl_add (rows : List Row) (ix : TimeIndex) : (rows.foldl (TimeIndex.add py opts) ix).invalid =
      ix.invalid + rows.countP fun row => (csvTimeMs py (row.get opts.timeColumn)).isNone := by
  induction rows generalizing ix with
  | nil => rfl
  | cons row _ ih =>
    have hstep : (ix.add py opts row).invalid = ix.invalid + if (csvTimeMs py (row.get opts.timeColumn)).isNone then 1
      else 0 := by
      unfold TimeIndex.add
      cases csvTimeMs py (row.get opts.timeColumn) with
      | none => rfl
      | some =>
        dsimp only
        split
        · rfl
        · split <;> rfl
    rw [List.foldl_cons, ih, hstep, List.countP_cons]
    omega

theorem invalid_rowsByTime (rows : List Row) :
    (rowsByTime py opts rows).invalid = 0 ↔ ∀ row ∈ rows, (csvTimeMs py (row.get opts.timeColumn)).isSome := by
  unfold rowsByTime
  rw [invalid_foldl_add]
  simp [TimeIndex.empty, List.countP_eq_zero, Option.isSome_iff_ne_none]

theorem isSome_get?_rowsByTime (hdrop : opts.dropBlankRows = false) (rows : List Row) (ts : ℤ) :
    (Dict.get? (rowsByTime py opts rows).indexed ts).isSome ↔
      ∃ row ∈ rows, csvTimeMs py (row.get opts.timeColumn) = some ts ∧
        timeInCompareWindow ts opts.compareFrom opts.compareTo = true := by
  have hstep (ix : TimeIndex) (row : Row) : (Dict.get? (ix.add py opts row).indexed ts).isSome ↔
      (csvTimeMs py (row.get opts.timeColumn) = some ts ∧
        timeInCompareWindow ts opts.compareFrom opts.compareTo = true) ∨
        (Dict.get? ix.indexed ts).isSome := by
    unfold TimeIndex.add
    cases csvTimeMs py (row.get opts.timeColumn) with
    | none => simp
    | some t =>
      by_cases hwindow : timeInCompareWindow t opts.compareFrom opts.compareTo = true
      · simp only [hwindow, hdrop, Bool.not_true, Bool.false_eq_true, if_false, Bool.false_and, Dict.get?_put,
          Option.some.injEq]
        by_cases ht : t = ts
        · subst ht
          simp [hwindow]
        · simp [ht]
      · simp only [hwindow, Bool.not_false, if_true, Option.some.injEq]
        constructor
        · exact .inr
        · rintro (⟨rfl,h⟩ | h)
          · exact absurd h hwindow
          · exact h
  suffices ∀ ix : TimeIndex, (Dict.get? (rows.foldl (TimeIndex.add py opts) ix).indexed ts).isSome ↔
      (∃ row ∈ rows, csvTimeMs py (row.get opts.timeColumn) = some ts ∧
        timeInCompareWindow ts opts.compareFrom opts.compareTo = true) ∨ (Dict.get? ix.indexed ts).isSome by
    rw [rowsByTime, this]
    simp [TimeIndex.empty, Dict.get?]
  induction rows with
  | nil => simp
  | cons _ _ ih =>
    intro ix
    rw [List.foldl_cons, ih, hstep, List.exists_mem_cons_iff, or_left_comm, ← or_assoc]

structure Indexed (opts : IndexOptions) {α : Type} (time : α → ℤ) (row : α → Row) (ix : TimeIndex)
    (items : List α) : Prop where
  invalid : ix.invalid = 0
  duplicates : ix.duplicates = []
  blank : ix.blank = []
  seen : ∀ ts ∈ ix.seen, ∃ x ∈ items, time x = ts
  get?_iff : ∀ ts r, Dict.get? ix.indexed ts = some r ↔
    ∃ x ∈ items, timeInCompareWindow (time x) opts.compareFrom opts.compareTo = true ∧ time x = ts ∧ row x = r

variable {α : Type} {ts : ℤ} {time : α → ℤ} {indexed : Dict ℤ Row}

/-- Indexing one row more. -/
theorem Indexed.add {row : α → Row} {ix : TimeIndex} {items : List α} (h : Indexed opts time row ix items)
    (hdrop : opts.dropBlankRows = false) {x : α} (htime : csvTimeMs py ((row x).get opts.timeColumn) = some (time x))
    (hfresh : time x ∉ items.map time) :
    Indexed opts time row (ix.add py opts (row x)) (items ++ [x]) := by
  have hunseen : time x ∉ ix.seen := fun hmem => hfresh (List.mem_map.mpr (h.seen _ hmem))
  unfold TimeIndex.add
  rw [htime]
  by_cases hwindow : timeInCompareWindow (time x) opts.compareFrom opts.compareTo = true
  · simp only [hwindow, hdrop, hunseen, Bool.not_true, Bool.false_eq_true, if_false, Bool.false_and]
    refine ⟨h.invalid,h.duplicates,h.blank,fun ts hts => ?_,fun ts r => ?_⟩
    · rcases List.mem_insert_iff.mp hts with rfl | hts
      · exact ⟨x,by simp,rfl⟩
      · obtain ⟨y,hy,rfl⟩ := h.seen ts hts
        exact ⟨y,List.mem_append_left _ hy,rfl⟩
    · rw [Dict.get?_put]
      split <;> rename_i hts
      · constructor
        · intro hr
          exact ⟨x,by simp,hwindow,hts,Option.some.inj hr⟩
        · rintro ⟨y,hy,-,rfl,rfl⟩
          rcases List.mem_append.mp hy with hy | hy
          · exact absurd (List.mem_map.mpr ⟨y,hy,hts.symm⟩) hfresh
          · cases List.mem_singleton.mp hy
            rfl
      · rw [h.get?_iff]
        constructor
        · rintro ⟨y,hy,hrest⟩
          exact ⟨y,List.mem_append_left _ hy,hrest⟩
        · rintro ⟨y,hy,hy',rfl,rfl⟩
          rcases List.mem_append.mp hy with hy | hy
          · exact ⟨y,hy,hy',rfl,rfl⟩
          · cases List.mem_singleton.mp hy
            exact absurd rfl hts
  · -- a row outside the window leaves the index as it is
    simp only [hwindow, Bool.not_false, if_true]
    refine ⟨h.invalid,h.duplicates,h.blank,fun ts hts => ?_,fun ts r => ?_⟩
    · obtain ⟨y,hy,rfl⟩ := h.seen ts hts
      exact ⟨y,List.mem_append_left _ hy,rfl⟩
    · rw [h.get?_iff]
      constructor
      · rintro ⟨y,hy,hrest⟩
        exact ⟨y,List.mem_append_left _ hy,hrest⟩
      · rintro ⟨y,hy,hy',hrest⟩
        rcases List.mem_append.mp hy with hy | hy
        · exact ⟨y,hy,hy',hrest⟩
        · cases List.mem_singleton.mp hy
          exact absurd hy' hwindow

theorem indexed_rowsByTime {row : α → Row} {items : List α} (hdrop : opts.dropBlankRows = false)
    (htime : ∀ x ∈ items, csvTimeMs py ((row x).get opts.timeColumn) = some (time x))
    (hnodup : (items.map time).Nodup) :
    Indexed opts time row (rowsByTime py opts (items.map row)) items := by
  have hstart : Indexed opts time row .empty [] := ⟨rfl,rfl,rfl,nofun,fun ts r => by simp [TimeIndex.empty, Dict.get?]⟩
  suffices ∀ (rest before : List α) ix, Indexed opts time row ix before → ((before ++ rest).map time).Nodup →
      (∀ x ∈ rest, csvTimeMs py ((row x).get opts.timeColumn) = some (time x)) →
      Indexed opts time row ((rest.map row).foldl (TimeIndex.add py opts) ix) (before ++ rest) from
    this items [] .empty hstart hnodup htime
  intro rest
  induction rest with
  | nil =>
    intro before ix h _ _
    rwa [List.append_nil]
  | cons x rest ih =>
    intro before ix h hnodup htime
    obtain ⟨hfirst,hrest⟩ := List.forall_mem_cons.mp htime
    have hsplit : before ++ x :: rest = (before ++ [x]) ++ rest := by simp
    rw [hsplit] at hnodup ⊢
    have hfresh : time x ∉ before.map time := by
      rw [List.map_append, List.map_append] at hnodup
      have := (List.nodup_append.mp (List.nodup_append.mp hnodup).1).2.2
      intro hmem
      exact this _ hmem _ (by simp) rfl
    exact ih _ _ (h.add hdrop hfirst hfresh) hnodup hrest

/-! ### The comparison -/

theorem get?_popTime (indexed : Dict ℤ Row) (latest : Option ℤ) (ts : ℤ) :
    Dict.get? (popTime indexed latest) ts = if latest = some ts then none else Dict.get? indexed ts := by
  cases latest with
  | none => rfl
  | some last =>
    change Dict.get? (Dict.del indexed last) ts = _
    rw [Dict.get?_del]
    simp only [Option.some.injEq]

theorem mem_timeKeys : ts ∈ timeKeys indexed ↔ (Dict.get? indexed ts).isSome := Dict.mem_keys

namespace Indexed
variable {time : α → ℤ} {row : α → Row} {ix : TimeIndex} {items : List α} {latest : Option ℤ}
  (h : Indexed opts time row ix items)
  (hwindow : ∀ x ∈ items, timeInCompareWindow (time x) opts.compareFrom opts.compareTo = true)
include h hwindow

theorem mem_timeKeys_popTime : ts ∈ timeKeys (popTime ix.indexed latest) ↔ latest ≠ some ts ∧ ts ∈ items.map time := by
  rw [mem_timeKeys, get?_popTime]
  by_cases hlatest : latest = some ts
  · simp [hlatest]
  · rw [if_neg hlatest, Option.isSome_iff_exists]
    constructor
    · rintro ⟨r,hr⟩
      obtain ⟨x,hx,-,rfl,-⟩ := (h.get?_iff ts r).mp hr
      exact ⟨hlatest,List.mem_map_of_mem hx⟩
    · rintro ⟨-,hmem⟩
      obtain ⟨x,hx,rfl⟩ := List.mem_map.mp hmem
      exact ⟨row x,(h.get?_iff _ _).mpr ⟨x,hx,hwindow x hx,rfl,rfl⟩⟩

theorem get?_popTime_eq {x : α} (hx : x ∈ items) (hlatest : latest ≠ some (time x)) :
    Dict.get? (popTime ix.indexed latest) (time x) = some (row x) := by
  rw [get?_popTime, if_neg hlatest]
  exact (h.get?_iff _ _).mpr ⟨x,hx,hwindow x hx,rfl,rfl⟩

end Indexed

variable {tv op : CsvFile} {options : TimeOptions} {tol : Tolerances} {summary : Summary}

theorem exists_compareRowsByTime (h : tol.Valid) (py : Runtime) (tv op : CsvFile) (options : TimeOptions) :
    ∃ summary, compareRowsByTime py tv op options tol = .ok summary := by
  obtain ⟨tally,htally⟩ := exists_compareCells fun column (ts : ℤ) =>
    (exists_compareCell h : ∃ c, timeCell py tol (options.tvByTime py tv op)
      (options.opByTime py tv op) column ts = .ok c)
  exact ⟨_,bind_eq_ok.mpr ⟨tally,htally,rfl⟩⟩

theorem status_compareRowsByTime (h : compareRowsByTime py tv op options tol = .ok summary) :
    summary.status = .matched ∨ summary.status = .mismatch := by
  obtain ⟨tally,-,⟨⟩⟩ := bind_eq_ok.mp h
  dsimp only
  split
  · exact .inl rfl
  · exact .inr rfl

theorem isSome_time_of_matched (h : compareRowsByTime py tv op options tol = .ok summary)
    (hstatus : summary.status = .matched) : ∀ row ∈ op.rows, (csvTimeMs py (row.get options.opTimeColumn)).isSome := by
  obtain ⟨tally,-,⟨⟩⟩ := bind_eq_ok.mp h
  obtain ⟨-,-,-,-,-,-,-,-,-,hinvalid⟩ := status_eq_matched.mp hstatus
  exact (invalid_rowsByTime op.rows).mp hinvalid

theorem isSome_get?_of_foldl_del (times : List ℤ) (h : (Dict.get? (times.foldl Dict.del indexed) ts).isSome) :
    (Dict.get? indexed ts).isSome := by
  induction times generalizing indexed with
  | nil => exact h
  | cons _ _ ih =>
    have hdel := ih h
    rw [Dict.get?_del] at hdel
    split at hdel
    · cases hdel
    · exact hdel

theorem exists_of_latestTime {timeColumn : String} {compareFrom compareTo : Option ℤ} {rows : List Row}
    (h : latestTime py timeColumn compareFrom compareTo rows = some ts) :
    ∃ row ∈ rows, csvTimeMs py (row.get timeColumn) = some ts := by
  obtain ⟨row,hrow,hts⟩ := List.mem_filterMap.mp (List.max?_mem h)
  exact ⟨row,hrow,(Option.filter_eq_some_iff.mp hts).1⟩

theorem exists_time_of_matched (h : compareRowsByTime py tv op options tol = .ok summary)
    (hstatus : summary.status = .matched) (hdrop : options.dropBlankTvRows = false) {row : Row} (hrow : row ∈ tv.rows)
    (hts : csvTimeMs py (row.get options.tvTimeColumn) = some ts)
    (hwindow : timeInCompareWindow ts options.compareFrom options.compareTo = true) :
    ∃ row ∈ op.rows, csvTimeMs py (row.get options.opTimeColumn) = some ts := by
  obtain ⟨tally,-,⟨⟩⟩ := bind_eq_ok.mp h
  obtain ⟨-,-,hmissing,-⟩ := status_eq_matched.mp hstatus
  by_cases hlatest : options.sharedLatest py tv op = some ts
  · -- the latest time is left out only if it is a time of both files
    unfold TimeOptions.sharedLatest at hlatest
    split at hlatest
    · dsimp only at hlatest
      split at hlatest <;> rename_i hshared
      · exact exists_of_latestTime (hshared ▸ hlatest)
      · cases hlatest
    · cases hlatest
  · have htv : (Dict.get? (options.tvIndex py tv op).indexed ts).isSome :=
      (isSome_get?_rowsByTime hdrop tv.rows ts).mpr ⟨row,hrow,hts,hwindow⟩
    have hkey : ts ∈ timeKeys (options.tvByTime py tv op) := by
      rwa [mem_timeKeys, TimeOptions.tvByTime, get?_popTime, if_neg hlatest]
    have hop : ts ∈ timeKeys (options.opByTime py tv op) := by
      have := List.filter_eq_nil_iff.mp hmissing ts hkey
      simpa using this
    rw [mem_timeKeys, TimeOptions.opByTime, get?_popTime, if_neg hlatest] at hop
    obtain ⟨row',hrow',hts',-⟩ := (isSome_get?_rowsByTime rfl op.rows ts).mp (isSome_get?_of_foldl_del _ hop)
    exact ⟨row',hrow',hts'⟩

/-- Two files with rows for the same items, at least two, that all have times of their own in the window. -/
structure SameTimes (py : Runtime) (options : TimeOptions) (tv op : CsvFile) {α : Type} (time : α → ℤ)
    (tvRow opRow : α → Row) (order items : List α) : Prop where
  tv_rows : tv.rows = order.map tvRow
  op_rows : op.rows = items.map opRow
  perm : order.Perm items
  tv_time : ∀ x ∈ items, csvTimeMs py ((tvRow x).get options.tvTimeColumn) = some (time x)
  op_time : ∀ x ∈ items, csvTimeMs py ((opRow x).get options.opTimeColumn) = some (time x)
  nodup : (items.map time).Nodup
  window : ∀ x ∈ items, timeInCompareWindow (time x) options.compareFrom options.compareTo = true
  two : 2 ≤ items.length

theorem exists_ne_of_two {ts : List ℤ} (hnodup : ts.Nodup) (htwo : 2 ≤ ts.length) (latest : Option ℤ) :
    ∃ t ∈ ts, latest ≠ some t := by
  match ts, hnodup, htwo with
  | a :: b :: rest, hnodup, _ =>
    by_cases ha : latest = some a
    · refine ⟨b,by simp,?_⟩
      rw [ha]
      rintro ⟨⟩
      simp at hnodup
    · exact ⟨a,by simp,ha⟩

/-- Files with the same times match if their cells agree. -/
theorem SameTimes.matched {tvRow opRow : α → Row} {order items : List α}
    (h : SameTimes py options tv op time tvRow opRow order items) (hdrop : options.dropBlankTvRows = false)
    (hcommon : (options.columns tv op).common ≠ []) (hmissing : (options.columns tv op).missing = [])
    (hextra : options.requireExactColumns → (options.columns tv op).extra = [])
    (hagree : ∀ column ∈ (options.columns tv op).common, ∀ x ∈ items, Agree py byTime tol ((tvRow x).get column)
      ((opRow x).get column)) :
    ∃ summary, compareRowsByTime py tv op options tol = .ok summary ∧ summary.status = .matched := by
  have htv : Indexed (options.tvOptions tv op) time tvRow (options.tvIndex py tv op) order := by
    unfold TimeOptions.tvIndex
    rw [h.tv_rows]
    exact indexed_rowsByTime hdrop (fun x hx => h.tv_time x (h.perm.mem_iff.mp hx))
      ((h.perm.map time).nodup_iff.mpr h.nodup)
  have hop : Indexed (options.opOptions tv op) time opRow (options.opIndex py tv op) items := by
    unfold TimeOptions.opIndex
    rw [h.op_rows]
    exact indexed_rowsByTime rfl h.op_time h.nodup
  have hwindow : ∀ x ∈ order, timeInCompareWindow (time x) options.compareFrom options.compareTo = true :=
    fun x hx => h.window x (h.perm.mem_iff.mp hx)
  have htvKeys (ts : ℤ) : ts ∈ timeKeys (options.tvByTime py tv op) ↔
      options.sharedLatest py tv op ≠ some ts ∧ ts ∈ items.map time := by
    rw [TimeOptions.tvByTime, htv.mem_timeKeys_popTime hwindow, (h.perm.map time).mem_iff]
  have hopEq : options.opByTime py tv op = popTime (options.opIndex py tv op).indexed
    (options.sharedLatest py tv op) := by
    rw [TimeOptions.opByTime, htv.blank]
    rfl
  have hopKeys (ts : ℤ) : ts ∈ timeKeys (options.opByTime py tv op) ↔
      options.sharedLatest py tv op ≠ some ts ∧ ts ∈ items.map time := by rw [hopEq, hop.mem_timeKeys_popTime h.window]
  have hcells : ∃ tally, compareCells (timeCell py tol (options.tvByTime py tv op) (options.opByTime py tv op))
      (options.columns tv op).common (options.commonTimes py tv op) = .ok tally ∧ tally.total ≠ 0 ∧
        tally.mismatches = 0 := by
    refine compareCells_equal_iff.mpr ⟨hcommon,?_,fun column hcolumn ts hts => ?_⟩
    · obtain ⟨ts,hts,hne⟩ := exists_ne_of_two h.nodup (by simpa using h.two) (options.sharedLatest py tv op)
      refine List.ne_nil_of_mem (a := ts) ?_
      rw [TimeOptions.commonTimes, List.mem_insertionSort, List.mem_filter, decide_eq_true_eq, htvKeys, hopKeys]
      exact ⟨⟨hne,hts⟩,hne,hts⟩
    · rw [TimeOptions.commonTimes, List.mem_insertionSort, List.mem_filter, htvKeys] at hts
      obtain ⟨⟨hne,hmem⟩,-⟩ := hts
      obtain ⟨x,hx,rfl⟩ := List.mem_map.mp hmem
      unfold timeCell
      rw [hopEq, TimeOptions.tvByTime, htv.get?_popTime_eq hwindow (h.perm.mem_iff.mpr hx) hne,
        hop.get?_popTime_eq h.window hx hne]
      exact hagree column hcolumn x hx
  obtain ⟨tally,htally,htotal,hmismatches⟩ := hcells
  refine ⟨_,bind_eq_ok.mpr ⟨tally,htally,rfl⟩,status_eq_matched.mpr ?_⟩
  refine ⟨htotal,hmismatches,?_,?_,hmissing,hextra,htv.duplicates,hop.duplicates,htv.invalid,hop.invalid⟩
  · simp [List.filter_eq_nil_iff, htvKeys, hopKeys]
  · simp [List.filter_eq_nil_iff, htvKeys, hopKeys]

end OpenPine.Compare
