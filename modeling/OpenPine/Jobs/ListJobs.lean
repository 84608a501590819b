import OpenPine.Foundation.Paging
import OpenPine.Jobs.Reachable

/-! # Walking through the job list page by page

Each page is read with the cursor of the page before, while other callers change
the file. The cursor is looked up in the list as it is filtered now, so a cursor
whose job no longer matches sends the reader back to the beginning.
-/
namespace OpenPine.Jobs
open Runs Paging List
variable {c : Contracts} {s : Store} {kind state : Option String}

def matching (s : Store) (kind state : Option String) : List Job :=
  ((s.jobs.rows.map JobRow.payload).insertionSort (fun a b => listKey a ≤ listKey b)).filter
    (matchesFilters kind state)

instance : Std.Total (fun a b : Job => listKey a ≤ listKey b) := ⟨fun a b => le_total (listKey a) (listKey b)⟩

instance : IsTrans Job (fun a b => listKey a ≤ listKey b) := ⟨fun _ _ _ => le_trans⟩

variable {job : Job} {id : String} {w : Walk} {jobs : List Job} {k : ℤ ×ₗ String} (cursor : Option String) (limit : ℤ)

theorem listKey_jobId {job' : Job} (h : listKey job = listKey job') : job.jobId = job'.jobId := by
  have hpair := toLex.injective h
  exact (Prod.mk.inj hpair).2

theorem SameIdentity.listKey {job' : Job} (h : SameIdentity job job') : listKey job' = listKey job := by
  unfold Jobs.listKey
  rw [h.envelope, h.jobId]

theorem mem_matching (hs : s.Consistent c) :
    job ∈ matching s kind state ↔ s.job? job.jobId = some job ∧ matchesFilters kind state job = true := by
  unfold matching
  rw [mem_filter, mem_insertionSort, mem_map]
  refine and_congr_left fun _ => ?_
  constructor
  · rintro ⟨row,hrow,rfl⟩
    obtain ⟨-,hjob⟩ := hs.find?_row (Table.find?_of_mem hrow)
    rw [hs.jobId_eq hjob, hjob]
  · intro hjob
    exact ⟨rowOf job,Table.mem_of_find? (hs.job?_eq_some.mp hjob),rfl⟩

theorem not_matching_lost (hs : s.Consistent c) (hjob : s.job? id = some job)
    (hmatch : ¬matchesFilters kind state job = true) : ∀ j ∈ matching s kind state, j.jobId ≠ id := by
  intro j hj he
  obtain ⟨hstored,hj'⟩ := (mem_matching hs).mp hj
  rw [he, hjob] at hstored
  cases hstored
  exact hmatch hj'

theorem matching_increasing (hs : s.Consistent c) (kind state : Option String) :
    (matching s kind state).Pairwise (fun a b => listKey a < listKey b) := by
  have hids : ((s.jobs.rows.map JobRow.payload).map Job.jobId).Nodup := by
    have heq : (s.jobs.rows.map JobRow.payload).map Job.jobId = s.jobs.rows.map JobRow.jobId := by
      rw [map_map]
      refine map_congr_left fun row hrow => ?_
      rw [hs.jobs.mirrored row hrow]
      rfl
    rw [heq]
    exact s.jobs.nodup
  have hperm := perm_insertionSort (fun a b : Job => listKey a ≤ listKey b) (s.jobs.rows.map JobRow.payload)
  have hdistinct := pairwise_map.mp ((hperm.map Job.jobId).nodup_iff.mpr hids)
  have hsorted := pairwise_insertionSort (fun a b : Job => listKey a ≤ listKey b) (s.jobs.rows.map JobRow.payload)
  refine ((hsorted.and hdistinct).imp ?_).sublist filter_sublist
  rintro a b ⟨hle,hne⟩
  exact lt_of_le_of_ne hle (fun he => hne (listKey_jobId he))

/-! ### The walk -/

structure Walk where
  store : Store
  cursor : Option String
  finished : Bool
  items : List Job

def Walk.start (s : Store) : Walk := ⟨s,none,false,[]⟩

inductive WalkOp
  | call (op : Op)
  | page (limit : ℤ)

def Walk.step (c : Contracts) (kind state : Option String) (w : Walk) : WalkOp → Walk
  | .call op => { w with store := Jobs.step c w.store op }
  | .page limit =>
    if w.finished then w
    else
      let page := listJobs w.store kind state w.cursor limit
      { w with cursor := page.cursor, finished := page.cursor.isNone, items := w.items ++ page.items }

/-- The reader keeps jobs that are still stored, under the same place in the order,
and its cursor is the last of them. -/
structure Walk.Valid (c : Contracts) (w : Walk) : Prop where
  consistent : w.store.Consistent c
  stored : ∀ item ∈ w.items, ∃ job, w.store.job? item.jobId = some job ∧ listKey job = listKey item
  cursor : w.finished = false → w.cursor = w.items.getLast?.map Job.jobId

def pageSize (limit : ℤ) : ℕ := (max 1 (min limit 1000)).toNat

theorem pageSize_pos : 0 < pageSize limit := by
  unfold pageSize
  omega

theorem listJobs_items : (listJobs s kind state cursor limit).items =
      (afterCursor cursor (matching s kind state)).take (pageSize limit) := rfl

theorem listJobs_cursor : (listJobs s kind state cursor limit).cursor =
      if pageSize limit < (afterCursor cursor (matching s kind state)).length then
        (listJobs s kind state cursor limit).items.getLast?.map Job.jobId else none := by
  change (if ((afterCursor cursor (matching s kind state)).take (pageSize limit)).length < _ then _ else none) = _
  refine if_congr ?_ rfl rfl
  rw [length_take]
  change min _ _ < (afterCursor cursor (matching s kind state)).length ↔ _
  omega

theorem listJobs_cursor_isNone : (listJobs s kind state cursor limit).cursor.isNone = true ↔
      (afterCursor cursor (matching s kind state)).length ≤ pageSize limit := by
  have hpos := pageSize_pos limit
  rw [listJobs_cursor, listJobs_items]
  split <;> rename_i hlt
  · have hne : (afterCursor cursor (matching s kind state)).take (pageSize limit) ≠ [] := by
      intro hnil
      have hlen := congrArg List.length hnil
      rw [length_take, length_nil] at hlen
      omega
    simp only [Option.isNone_map, Option.isNone_iff_eq_none, List.getLast?_eq_none_iff, hne, false_iff, Nat.not_le]
    exact hlt
  · simp only [Option.isNone_none, true_iff]
    omega

theorem mem_afterCursor {cursor : Option String} (h : job ∈ afterCursor cursor jobs) : job ∈ jobs := by
  unfold afterCursor at h
  split at h
  · exact h
  · split at h
    · exact mem_of_mem_drop h
    · exact h

theorem Walk.step_page_finished (w : Walk) (h : w.finished = true) (limit : ℤ) :
    w.step c kind state (.page limit) = w := if_pos h

theorem Walk.step_page (w : Walk) (h : w.finished = false) (limit : ℤ) : w.step c kind state (.page limit) = { w with
        cursor := (listJobs w.store kind state w.cursor limit).cursor
        finished := (listJobs w.store kind state w.cursor limit).cursor.isNone
        items := w.items ++ (listJobs w.store kind state w.cursor limit).items } := if_neg (by simp [h])

/-- Every step keeps the walk valid. -/
theorem Walk.step_valid (w : Walk) (op : WalkOp) (h : w.Valid c) : (w.step c kind state op).Valid c := by
  cases op with
  | call op =>
    have heff := step_effects h.consistent op
    refine ⟨heff.consistent h.consistent,fun item hitem => ?_,h.cursor⟩
    obtain ⟨job,hjob,hkey⟩ := h.stored item hitem
    have hhist := heff.history h.consistent item.jobId
    rw [hjob] at hhist
    obtain ⟨job',hjob',hid⟩ := hhist.sameIdentity
    exact ⟨job',hjob',hid.listKey.trans hkey⟩
  | page limit =>
    cases hfin : w.finished with
    | true =>
      rw [w.step_page_finished hfin]
      exact h
    | false =>
    rw [w.step_page hfin]
    refine ⟨h.consistent,fun item hitem => ?_,fun hcont => ?_⟩
    · rcases mem_append.mp hitem with hold | hnew
      · exact h.stored item hold
      · have hmem := mem_afterCursor (mem_of_mem_take hnew)
        exact ⟨item,((mem_matching h.consistent).mp hmem).1,rfl⟩
    · change (listJobs w.store kind state w.cursor limit).cursor = _
      have hsome : ¬(listJobs w.store kind state w.cursor limit).cursor.isNone = true := ne_true_of_eq_false hcont
      have hlt := mt (listJobs_cursor_isNone w.cursor limit).mpr hsome
      rw [listJobs_cursor] at hsome ⊢
      rw [if_pos (Nat.not_le.mp hlt)] at hsome ⊢
      rw [List.getLast?_append]
      cases hlast : (listJobs w.store kind state w.cursor limit).items.getLast? with
      | none => simp [hlast] at hsome
      | some => rfl

/-! ### One page -/

/-- The cursor's job still matches, or no matching job comes before it in the order. -/
def Walk.Anchored (kind state : Option String) (w : Walk) : Prop :=
  ∀ id job, w.cursor = some id → w.store.job? id = some job →
    matchesFilters kind state job = true ∨ ∀ other ∈ matching w.store kind state, ¬listKey other < listKey job

theorem afterCursor_none : afterCursor none jobs = jobs := rfl

theorem afterCursor_found {front back : List Job} (hne : id ≠ "") (hid : job.jobId = id)
    (hfront : ∀ j ∈ front, j.jobId ≠ id) : afterCursor (some id) (front ++ job :: back) = back := by
  have hidx : (front ++ job :: back).findIdx? (fun j => j.jobId = id) = some front.length := by
    rw [List.findIdx?_append]
    have hnone : front.findIdx? (fun j => j.jobId = id) = none := by
      rw [List.findIdx?_eq_none_iff]
      intro j hj
      simpa using hfront j hj
    simp [hnone, List.findIdx?_cons, hid]
  unfold afterCursor
  rw [nonEmpty_eq_some.mpr ⟨rfl,hne⟩]
  simp only [hidx]
  rw [drop_append]
  simp

theorem afterCursor_lost (h : ∀ j ∈ jobs, j.jobId ≠ id) : afterCursor (some id) jobs = jobs := by
  have hidx : jobs.findIdx? (fun j => j.jobId = id) = none := by
    rw [List.findIdx?_eq_none_iff]
    intro j hj
    simpa using h j hj
  unfold afterCursor
  split
  · rfl
  · rename_i id' hid'
    cases (nonEmpty_eq_some.mp hid').1
    rw [hidx]

theorem Walk.Valid.cursor_cases (h : w.Valid c) (hfin : w.finished = false) : w.items = [] ∧ w.cursor = none ∨
    ∃ last job, w.items.getLast? = some last ∧ w.cursor = some last.jobId ∧ last.jobId ≠ "" ∧
      w.store.job? last.jobId = some job ∧ job.jobId = last.jobId ∧ listKey job = listKey last := by
  have hcursor := h.cursor hfin
  cases hlast : w.items.getLast? with
  | none =>
    rw [hlast] at hcursor
    exact Or.inl ⟨List.getLast?_eq_none_iff.mp hlast,hcursor⟩
  | some last =>
    rw [hlast] at hcursor
    obtain ⟨job,hjob,hkey⟩ := h.stored last (mem_of_getLast? hlast)
    have hid := h.consistent.jobId_eq hjob
    have hnamed := h.consistent.jobs.named _ (Table.mem_of_find? (h.consistent.job?_eq_some.mp hjob))
    rw [rowOf_jobId, hid] at hnamed
    exact Or.inr ⟨last,job,rfl,hcursor,hnamed,hjob,hid,hkey⟩

theorem map_remaining (jobs : List Job) : remaining (w.items.map listKey) (jobs.map listKey) =
      (jobs.filter (fun job => ∀ b ∈ (w.items.map listKey).getLast?, b < listKey job)).map listKey := by
  unfold remaining
  rw [filter_map]
  rfl

section
variable (h : w.Valid c) (hfin : w.finished = false) (hanch : w.Anchored kind state)
include h hfin hanch

theorem Walk.Valid.after_anchored : (afterCursor w.cursor (matching w.store kind state)).map listKey =
      remaining (w.items.map listKey) ((matching w.store kind state).map listKey) := by
  rw [map_remaining]
  refine congrArg (List.map listKey) ?_
  rcases h.cursor_cases hfin with ⟨hnil,hcursor⟩ | ⟨last,job,hlast,hcursor,hne,hjob,hid,hkey⟩
  · rw [hnil, hcursor]
    simp [afterCursor_none]
  have hbound : ∀ j : Job, (∀ b ∈ (w.items.map listKey).getLast?, b < listKey j) ↔ listKey job < listKey j := by
    intro j
    rw [List.getLast?_map, hlast, hkey]
    simp
  simp only [hbound]
  rw [hcursor]
  have hincr := matching_increasing h.consistent kind state
  by_cases hmatch : matchesFilters kind state job = true
  · have hmem : job ∈ matching w.store kind state := (mem_matching h.consistent).mpr ⟨by rw [hid, hjob],hmatch⟩
    obtain ⟨front,back,hsplit⟩ := append_of_mem hmem
    rw [hsplit] at hincr ⊢
    rw [filter_after hincr]
    refine afterCursor_found hne hid fun j hj he => ?_
    have hlt := (pairwise_append.mp hincr).2.2 j hj job mem_cons_self
    have hj' : j ∈ matching w.store kind state := by
      rw [hsplit]
      exact mem_append_left _ hj
    have hstored := ((mem_matching h.consistent).mp hj').1
    rw [he, hjob] at hstored
    cases hstored
    exact lt_irrefl _ hlt
  · have hother := not_matching_lost h.consistent hjob hmatch
    have hfirst := (hanch _ _ hcursor hjob).resolve_left hmatch
    rw [afterCursor_lost hother, eq_comm, filter_eq_self]
    intro j hj
    refine decide_eq_true (lt_of_le_of_ne (not_lt.mp (hfirst j hj)) fun he => hother j hj ?_)
    rw [← listKey_jobId he, hid]

theorem Walk.step_page_keys (limit : ℤ) :
    ((w.step c kind state (.page limit)).items.map listKey = w.items.map listKey ++
        (remaining (w.items.map listKey) ((matching w.store kind state).map listKey)).take (pageSize limit)) ∧
    ((w.step c kind state (.page limit)).finished = true ↔
      (remaining (w.items.map listKey) ((matching w.store kind state).map listKey)).length ≤ pageSize limit) := by
  have hafter := h.after_anchored hfin hanch
  rw [w.step_page hfin, ← hafter]
  refine ⟨?_,?_⟩
  · rw [map_append, listJobs_items, map_take]
  · rw [length_map]
    exact listJobs_cursor_isNone w.cursor limit

end

/-- The items come newest first and then by id, so no job comes twice. -/
def Walk.Increasing (w : Walk) : Prop := (w.items.map listKey).Pairwise (· < ·)

def Walk.PageSound (kind state : Option String) (w : Walk) : WalkOp → Prop
  | .call _ => True
  | .page _ => w.finished = false → w.Anchored kind state

theorem matching_keys_increasing (hs : s.Consistent c) (kind state : Option String) :
    ((matching s kind state).map listKey).Pairwise (· < ·) := pairwise_map.mpr (matching_increasing hs kind state)

theorem Walk.page_not_increasing (h : w.Valid c) (hfin : w.finished = false)
    (hanch : ¬w.Anchored kind state) (limit : ℤ) : ¬(w.step c kind state (.page limit)).Increasing := by
  rcases h.cursor_cases hfin with ⟨hnil,hcursor⟩ | ⟨last,job,hlast,hcursor,hne,hjob,hid,hkey⟩
  · refine absurd (fun id job hc => ?_) hanch
    rw [hcursor] at hc
    cases hc
  have hbad : ¬matchesFilters kind state job = true ∧ ∃ other ∈ matching w.store kind state, listKey other <
    listKey job := by
    by_contra hgood
    refine hanch fun id job' hc hj => ?_
    cases hcursor.symm.trans hc
    cases hjob.symm.trans hj
    by_cases hmatch : matchesFilters kind state job = true
    · exact Or.inl hmatch
    · refine Or.inr fun other hother hlt => hgood ⟨hmatch,other,hother,hlt⟩
  obtain ⟨hmatch,other,hother,hlt⟩ := hbad
  have hlost := not_matching_lost h.consistent hjob hmatch
  have hpos := pageSize_pos limit
  intro hincr
  unfold Walk.Increasing at hincr
  rw [w.step_page hfin, listJobs_items, hcursor, afterCursor_lost hlost, map_append] at hincr
  -- the page starts over with the first matching job, which is not behind the last item
  cases hjobs : matching w.store kind state with
  | nil =>
    rw [hjobs] at hother
    cases hother
  | cons first =>
    obtain ⟨n,hn⟩ := Nat.exists_eq_succ_of_ne_zero (Nat.ne_of_gt hpos)
    have hfirst : first ∈ (matching w.store kind state).take (pageSize limit) := by
      rw [hjobs, hn]
      exact mem_cons_self
    have hle : listKey first ≤ listKey other := by
      have hsorted := matching_increasing h.consistent kind state
      rw [hjobs] at hsorted hother
      rcases mem_cons.mp hother with rfl | hrest
      · exact le_refl _
      · exact ((pairwise_cons.mp hsorted).1 other hrest).le
    have hcross := (pairwise_append.mp hincr).2.2 (listKey last)
      (mem_map_of_mem (mem_of_getLast? hlast)) (listKey first) (mem_map_of_mem hfirst)
    rw [hkey] at hlt
    exact lt_irrefl _ ((hle.trans_lt hlt).trans hcross)

/-- A page goes on in order exactly if it is sound. -/
theorem Walk.step_increasing_iff (w : Walk) (op : WalkOp) (h : w.Valid c) (hincr : w.Increasing) :
    (w.step c kind state op).Increasing ↔ w.PageSound kind state op := by
  cases op with
  | call => exact ⟨fun _ => trivial,fun _ => hincr⟩
  | page limit =>
    cases hfin : w.finished with
    | true =>
      rw [w.step_page_finished hfin]
      refine ⟨fun _ hno => ?_,fun _ => hincr⟩
      rw [hfin] at hno
      cases hno
    | false =>
      constructor
      · intro hnext _
        by_contra hanch
        exact Walk.page_not_increasing h hfin hanch limit hnext
      · intro hsound
        unfold Walk.Increasing
        rw [(Walk.step_page_keys h hfin (hsound hfin) limit).1]
        exact page_increasing hincr (matching_keys_increasing h.consistent kind state) _

/-! ### Whole walks -/

def Walk.Shows (kind state : Option String) (id : String) (w : Walk) : Prop :=
  w.finished = true ∨ ∃ job, w.store.job? id = some job ∧ matchesFilters kind state job = true

/-- The job with this place in the order has been returned or is still to come. -/
structure Walk.Tracks (w : Walk) (id : String) (k : ℤ ×ₗ String) : Prop where
  stored : ∃ job, w.store.job? id = some job ∧ listKey job = k
  covered : w.finished = false → Covered (w.items.map listKey) k
  done : w.finished = true → k ∈ w.items.map listKey

/-- A job that stays in view is not passed over. -/
theorem Walk.Tracks.step (ht : w.Tracks id k) (h : w.Valid c) {op : WalkOp} (hshow : w.Shows kind state id)
    (hsound : w.PageSound kind state op) :
    (w.step c kind state op).Tracks id k := by
  -- a call moves the job but not its place in the order, and a page reads on from the last item
  obtain ⟨job,hjob,hkey⟩ := ht.stored
  cases op with
  | call op =>
    have hhist := (step_effects h.consistent op).history h.consistent id
    rw [hjob] at hhist
    obtain ⟨job',hjob',hid⟩ := hhist.sameIdentity
    exact ⟨⟨job',hjob',hid.listKey.trans hkey⟩,ht.covered,ht.done⟩
  | page limit =>
    cases hfin : w.finished with
    | true =>
      rw [w.step_page_finished hfin]
      exact ht
    | false =>
      obtain ⟨hitems,hdone⟩ := Walk.step_page_keys h hfin (hsound hfin) limit
      have hvisible : k ∈ (matching w.store kind state).map listKey := by
        rcases hshow with hover | ⟨job',hjob',hmatch⟩
        · rw [hfin] at hover
          cases hover
        · cases hjob.symm.trans hjob'
          refine mem_map.mpr ⟨job,(mem_matching h.consistent).mpr ⟨?_,hmatch⟩,hkey⟩
          rw [h.consistent.jobId_eq hjob, hjob]
      have hcov := ht.covered hfin
      refine ⟨⟨job,?_,hkey⟩,fun _ => ?_,fun hover => ?_⟩
      · rw [w.step_page hfin]
        exact hjob
      · rw [hitems]
        exact hcov.page hvisible (matching_keys_increasing h.consistent kind state) _
      · rw [hitems]
        exact hcov.lastPage hvisible (hdone.mp hover)

theorem Walk.tracks_run (ht : w.Tracks id k) (h : w.Valid c) {ops : List WalkOp}
    (hshow : Always (Walk.step c kind state) (Walk.Shows kind state id) w ops)
    (hsound : EachStep (Walk.step c kind state) (Walk.PageSound kind state) w ops) :
    (run (Walk.step c kind state) w ops).Tracks id k := by
  induction ops generalizing w with
  | nil => exact ht
  | cons op _ ih => exact ih (ht.step h hshow.1 hsound.1) (Walk.step_valid w op h) hshow.2 hsound.2

theorem Walk.Valid.nodup (h : w.Valid c) (hincr : w.Increasing) : (w.items.map Job.jobId).Nodup := by
  refine pairwise_map.mpr ((pairwise_map.mp hincr).imp_of_mem ?_)
  intro a b ha hb hlt he
  obtain ⟨job,hjob,hkey⟩ := h.stored a ha
  obtain ⟨job',hjob',hkey'⟩ := h.stored b hb
  rw [he, hjob'] at hjob
  cases hjob
  rw [← hkey, ← hkey'] at hlt
  exact lt_irrefl _ hlt

/-- A walk is in order throughout exactly when no page is read with a cursor whose job
has left the list while jobs before it are listed. Under that condition no job is
returned twice, and a finished walk has returned every job that was always listed. -/
theorem list_walk_sound (c : Contracts) (s : Store) (hs : Reached c s) (kind state : Option String)
    (ops : List WalkOp) :
    (Always (Walk.step c kind state) Walk.Increasing (.start s) ops ↔
      EachStep (Walk.step c kind state) (Walk.PageSound kind state) (.start s) ops) ∧
    (EachStep (Walk.step c kind state) (Walk.PageSound kind state) (.start s) ops →
      (run (Walk.step c kind state) (.start s) ops).Increasing ∧
      ((run (Walk.step c kind state) (.start s) ops).items.map Job.jobId).Nodup ∧
      ((run (Walk.step c kind state) (.start s) ops).finished = true → ∀ id,
        Always (Walk.step c kind state) (Walk.Shows kind state id) (.start s) ops →
        ((run (Walk.step c kind state) (.start s) ops).items.map Job.jobId).count id = 1)) := by
  have hstart : (Walk.start s).Valid c := ⟨hs.consistent,fun _ h => (by cases h),fun _ => rfl⟩
  have hvalid : (run (Walk.step c kind state) (.start s) ops).Valid c := run_invariant Walk.step_valid hstart ops
  have hiff : Always (Walk.step c kind state) Walk.Increasing (.start s) ops ↔
      EachStep (Walk.step c kind state) (Walk.PageSound kind state) (.start s) ops :=
    always_iff_eachStep Walk.step_valid Walk.step_increasing_iff hstart List.Pairwise.nil ops
  refine ⟨hiff,fun hsound => ?_⟩
  have hincr := (hiff.mpr hsound).last
  refine ⟨hincr,hvalid.nodup hincr,fun hfin id hshow => ?_⟩
  rcases hshow.first with hover | ⟨job,hjob,-⟩
  · cases hover
  have ht : (Walk.start s).Tracks id (listKey job) := ⟨⟨job,hjob,rfl⟩,fun _ => covered_nil _,fun h => (by cases h)⟩
  have hin := (Walk.tracks_run ht hstart hshow hsound).done hfin
  obtain ⟨item,hitem,hkey⟩ := mem_map.mp hin
  have hid : item.jobId = id := (listKey_jobId hkey).trans (hs.consistent.jobId_eq hjob)
  exact count_eq_one_of_mem (hvalid.nodup hincr) (mem_map.mpr ⟨item,hitem,hid⟩)

def threeJobs : Store :=
  run (step plainContracts) Store.empty [.create { CreateArgs.plain "a" with now := 3 },
    .create { CreateArgs.plain "b" with now := 2 }, .create { CreateArgs.plain "c" with now := 1 }]

theorem list_walk_of_three_sound : ((run (Walk.step plainContracts none (some "QUEUED")) (.start threeJobs)
      [.page 2, .call (.markRunning "a" "w" 10 4 none), .page 2]).items.map Job.jobId).Nodup ∧
    ((run (Walk.step plainContracts none (some "QUEUED")) (.start threeJobs)
      [.page 2, .call (.markRunning "a" "w" 10 4 none), .page 2]).items.map Job.jobId).count "c" = 1 := by
  have hs : Reached plainContracts threeJobs := ⟨_,rfl⟩
  have hsound : EachStep (Walk.step plainContracts none (some "QUEUED")) (Walk.PageSound none (some "QUEUED"))
      (.start threeJobs) [.page 2, .call (.markRunning "a" "w" 10 4 none), .page 2] := by
    refine ⟨fun _ id job hc _ => (by cases hc),trivial,fun _ id job hc hj => Or.inl ?_,trivial⟩
    have hcursor : (run (Walk.step plainContracts none (some "QUEUED")) (.start threeJobs)
        [.page 2, .call (.markRunning "a" "w" 10 4 none)]).cursor = some "b" := by decide
    have hmatch : ((run (Walk.step plainContracts none (some "QUEUED")) (.start threeJobs)
        [.page 2, .call (.markRunning "a" "w" 10 4 none)]).store.job? "b").all
          (matchesFilters none (some "QUEUED")) = true := by decide
    cases hcursor.symm.trans hc
    exact (Option.all_eq_true _ _).mp hmatch job hj
  have hwalk := (list_walk_sound plainContracts threeJobs hs none (some "QUEUED") _).2 hsound
  refine ⟨hwalk.2.1,hwalk.2.2 (by decide) "c" ?_⟩
  refine ⟨Or.inr ⟨_,rfl,by decide⟩,Or.inr ⟨_,rfl,by decide⟩,Or.inr ⟨_,rfl,by decide⟩,Or.inl (by decide)⟩

/-- The job behind the cursor is started between two pages: the next page begins again. -/
theorem list_walk_repeats_when_cursor_leaves : (run (Walk.step plainContracts none (some "QUEUED")) (.start threeJobs)
      [.page 2, .call (.markRunning "b" "w" 10 4 none), .page 2]).items.map Job.jobId = ["a", "b", "a", "c"] := by
  decide

end OpenPine.Jobs
