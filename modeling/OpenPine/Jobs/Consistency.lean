import OpenPine.Jobs.Commit
import OpenPine.Jobs.Lifecycle

/-! # Elementary effects on the file

A committed call is a sequence of elementary effects: a fresh row is inserted, a
stored job is changed and its event appended, or a creation event is appended.
Each effect keeps the file consistent, moves every job along its life cycle and
only adds to the end of the event table.
-/
namespace OpenPine.Jobs
open List
variable {c : Contracts} {s s' : Store} {row : JobRow} {id : String} {job : Job}
  {jobs : Table JobRow JobRow.jobId} (w : Write)

/-- The columns of every job row mirror its payload, and keys are unique. -/
structure JobsConsistent (c : Contracts) (jobs : Table JobRow JobRow.jobId) : Prop where
  mirrored : ∀ row ∈ jobs.rows, row = rowOf row.payload
  named : ∀ row ∈ jobs.rows, row.jobId ≠ ""
  accepted : ∀ row ∈ jobs.rows, c.validatePayload row.payload = none
  keys : ∀ row ∈ jobs.rows, ∀ row' ∈ jobs.rows, row.idempotencyKey = row'.idempotencyKey →
    row.idempotencyKey ≠ none → row.jobId = row'.jobId

structure EventsConsistent (s : Store) : Prop where
  sequenced : (s.events.rows.map EventRow.seq).Pairwise (· < ·)
  bounded : ∀ e ∈ s.events.rows, e.seq ≤ s.lastSeq
  named : ∀ e ∈ s.events.rows, e.eventId ≠ ""
  described : ∀ e ∈ s.events.rows, e.payload.eventId = e.eventId ∧ e.payload.jobId = e.jobId
  owned : ∀ e ∈ s.events.rows, (s.jobs.find? e.jobId).isSome

structure Store.Consistent (c : Contracts) (s : Store) : Prop where
  jobs : JobsConsistent c s.jobs
  events : EventsConsistent s

theorem consistent_empty (c : Contracts) : Store.empty.Consistent c := by
  constructor
  · constructor <;> simp [Store.empty]
  · constructor <;> simp [Store.empty]

namespace Store.Consistent

theorem job?_eq_some (hs : s.Consistent c) : s.job? id = some job ↔ s.jobs.find? id = some (rowOf job) := by
  unfold Store.job?
  constructor
  · intro h
    obtain ⟨row,hrow,rfl⟩ := Option.map_eq_some_iff.mp h
    rw [hrow, ← hs.jobs.mirrored row (Table.mem_of_find? hrow)]
  · intro h
    simp [h]

theorem find?_row (hs : s.Consistent c) (h : s.jobs.find? id = some row) :
    row = rowOf row.payload ∧ s.job? id = some row.payload := by
  refine ⟨hs.jobs.mirrored row (Table.mem_of_find? h),?_⟩
  simp [Store.job?, h]

theorem jobId_eq (hs : s.Consistent c) (h : s.job? id = some job) : job.jobId = id := by
  have hkey := Table.key_of_find? (hs.job?_eq_some.mp h)
  exact hkey

end Store.Consistent

theorem job?_eq_none : s.job? id = none ↔ s.jobs.find? id = none := by simp [Store.job?]

/-! ### Event ids -/

theorem stableEventId_ne_empty (eventId : Option String) (jobId : String) (e : EventType) (v : ℕ) :
    stableEventId eventId jobId e v ≠ "" := by
  unfold stableEventId
  cases h : nonEmpty eventId with
  | some => exact (nonEmpty_eq_some.mp h).2
  | none =>
    intro he
    have hlen := congrArg String.length he
    simp [defaultEventId, String.length_append] at hlen

/-! ### The tables after a write -/

theorem rows_insert_event {row : EventRow} (h : ¬s.HasEvent row.eventId) :
    ((s.events.insert? row).getD s.events).rows = s.events.rows ++ [row] := by
  cases hi : s.events.insert? row with
  | none => exact absurd (insert?_event_eq_none.mp hi) h
  | some => exact Table.insert?_rows hi

namespace Write

theorem commit_events_taken {w : Write} (h : s.HasEvent w.stableId) :
    (w.commit c s).events = s.events ∧ (w.commit c s).lastSeq = s.lastSeq := by
  have hnone : s.events.insert? (w.eventRow s) = none := insert?_event_eq_none.mpr h
  simp [commit, hnone, h]

theorem commit_events_fresh {w : Write} (h : ¬s.HasEvent w.stableId) :
    (w.commit c s).events.rows = s.events.rows ++ [w.eventRow s] ∧
    (w.commit c s).lastSeq = s.lastSeq + 1 := by exact ⟨rows_insert_event h,by simp [commit, h]⟩

theorem commit_job? (hrow : s.jobs.find? w.payload.jobId = some row) (id : String) : (w.commit c s).job? id =
      if w.payload.jobId = id then some (w.persisted c s) else s.job? id := by
  have hrow' : s.jobs.find? (rowOf (w.persisted c s)).jobId = some row := by simpa using hrow
  have hset := Table.find?_set hrow' id
  unfold Store.job? commit
  rw [hset]
  simp only [rowOf_jobId, persisted_jobId]
  split
  · rfl
  · rfl

end Write

theorem JobsConsistent.set (h : JobsConsistent c jobs) {job job' : Job} (hjob : jobs.find? job.jobId = some (rowOf job))
    (hid : job'.jobId = job.jobId) (hkey : job'.idempotencyKey = job.idempotencyKey)
    (hval : c.validatePayload job' = none) : JobsConsistent c (jobs.set (rowOf job')) := by
  have hmem := Table.mem_of_find? hjob
  refine ⟨Table.forall_mem_set h.mirrored rfl,Table.forall_mem_set h.named ?_,Table.forall_mem_set h.accepted hval,
    Table.forall_mem_set (fun row hrow => Table.forall_mem_set (h.keys row hrow) fun heq hne => ?_)
      (Table.forall_mem_set (fun row hrow heq hne => ?_) fun _ _ => rfl)⟩
  · rw [rowOf_jobId, hid]
    exact h.named _ hmem
  · rw [rowOf_idempotencyKey, hkey] at heq
    rw [rowOf_jobId, hid]
    exact h.keys row hrow _ hmem heq hne
  · rw [rowOf_idempotencyKey, hkey] at heq hne
    rw [rowOf_jobId, hid]
    exact h.keys _ hmem row hrow heq hne

theorem insertJob_eq_some (h : s.insertJob row = some s') :
    (∀ r ∈ s.jobs.rows, r.idempotencyKey = row.idempotencyKey → row.idempotencyKey = none) ∧
    ∃ jobs, s.jobs.insert? row = some jobs ∧ s' = { s with jobs := jobs } := by
  unfold Store.insertJob at h
  split at h <;> rename_i hk
  · cases h
  · obtain ⟨jobs,hj,rfl⟩ := Option.map_eq_some_iff.mp h
    refine ⟨?_,jobs,hj,rfl⟩
    intro r hr heq
    by_contra hne
    apply hk
    exact ⟨Option.isSome_iff_ne_none.mpr hne,any_eq_true.mpr ⟨r,hr,by simpa using heq⟩⟩

theorem JobsConsistent.insert (h : JobsConsistent c s.jobs) (hname : job.jobId ≠ "")
    (hval : c.validatePayload job = none)
    (hkey : ∀ r ∈ s.jobs.rows, r.idempotencyKey = job.idempotencyKey → job.idempotencyKey = none)
    (hi : s.jobs.insert? (rowOf job) = some jobs) : JobsConsistent c jobs := by
  refine ⟨Table.forall_mem_insert hi h.mirrored rfl,Table.forall_mem_insert hi h.named hname,
    Table.forall_mem_insert hi h.accepted hval,
    Table.forall_mem_insert hi (fun row hrow => Table.forall_mem_insert hi (h.keys row hrow) fun heq hne => ?_)
      (Table.forall_mem_insert hi (fun row hrow heq hne => ?_) fun _ _ => rfl)⟩
  · exact absurd (heq.trans (hkey row hrow heq)) hne
  · exact absurd (hkey row hrow heq.symm) hne

theorem EventsConsistent.append (h : EventsConsistent s) {row : EventRow}
    (hrows : s'.events.rows = s.events.rows ++ [row]) (hseq : row.seq = s.lastSeq + 1)
    (hlast : s'.lastSeq = s.lastSeq + 1) (hname : row.eventId ≠ "")
    (hdesc : row.payload.eventId = row.eventId ∧ row.payload.jobId = row.jobId)
    (hjobs : ∀ id, (s.jobs.find? id).isSome → (s'.jobs.find? id).isSome) (hown : (s'.jobs.find? row.jobId).isSome) :
    EventsConsistent s' := by
  have hall {P : EventRow → Prop} (hold : ∀ e ∈ s.events.rows, P e) (hnew : P row) : ∀ e ∈ s'.events.rows, P e := by
    rw [hrows]
    exact forall_mem_append.mpr ⟨hold,forall_mem_singleton.mpr hnew⟩
  refine ⟨?_,hall (fun e he => ?_) (by omega),hall h.named hname,hall h.described hdesc,
    hall (fun e he => hjobs _ (h.owned e he)) hown⟩
  · rw [hrows, map_append, pairwise_append]
    refine ⟨h.sequenced,by simp,?_⟩
    intro a ha b hb
    obtain ⟨e,he,rfl⟩ := mem_map.mp ha
    simp only [map_cons, map_nil, mem_singleton] at hb
    have hle := h.bounded e he
    omega
  · have hle := h.bounded e he
    omega

theorem EventsConsistent.unchanged (h : EventsConsistent s) (hevents : s'.events = s.events)
    (hlast : s'.lastSeq = s.lastSeq) (hjobs : ∀ id, (s.jobs.find? id).isSome → (s'.jobs.find? id).isSome) :
    EventsConsistent s' := by
  constructor
  · rw [hevents]
    exact h.sequenced
  · rw [hevents, hlast]
    exact h.bounded
  · rw [hevents]
    exact h.named
  · rw [hevents]
    exact h.described
  · rw [hevents]
    exact fun e he => hjobs _ (h.owned e he)

/-! ### Effects -/

inductive Effect (c : Contracts) : Store → Store → Prop
  | insert {s s' : Store} {job : Job} (hf : job.Fresh) (hname : job.jobId ≠ "")
      (hval : c.validatePayload job = none) (hi : s.insertJob (rowOf job) = some s') : Effect c s s'
  | commit {s : Store} {w : Write} {job : Job} (hjob : s.job? w.payload.jobId = some job)
      (hch : Change job w.eventType w.payload) (hval : c.validatePayload (w.persisted c s) = none) :
      Effect c s (w.commit c s)
  | announce {s : Store} {row : EventRow} {job : Job} (hjob : s.job? row.jobId = some job)
      (hfresh : ¬s.HasEvent row.eventId) (hseq : row.seq = s.lastSeq + 1) (hname : row.eventId ≠ "")
      (hdesc : row.payload.eventId = row.eventId ∧ row.payload.jobId = row.jobId) :
      Effect c s (s.withEvent row)
  | reseal {s : Store} {job : Job} (hjob : s.job? job.jobId = some job) (cursor : Option String) (hash : String)
      (hval : c.validatePayload { job with eventCursor := cursor, contentHash := hash } = none) :
      Effect c s { s with jobs := s.jobs.set (rowOf { job with eventCursor := cursor, contentHash := hash }) }

abbrev Effects (c : Contracts) := Relation.ReflTransGen (Effect c)

theorem Write.commit_find?_isSome (hrow : s.jobs.find? w.payload.jobId = some row) (id : String)
    (h : (s.jobs.find? id).isSome) : ((w.commit c s).jobs.find? id).isSome := by
  have hrow' : s.jobs.find? (rowOf (w.persisted c s)).jobId = some row := by simpa using hrow
  have hset : (w.commit c s).jobs.find? id = _ := Table.find?_set hrow' id
  rw [hset]
  split
  · rfl
  · exact h

theorem Write.commit_consistent (hs : s.Consistent c) (hjob : s.job? w.payload.jobId = some job)
    (hch : Change job w.eventType w.payload) (hval : c.validatePayload (w.persisted c s) = none) :
    (w.commit c s).Consistent c := by
  have hrow := hs.job?_eq_some.mp hjob
  have hid := hch.sameIdentity
  have hsome := w.commit_find?_isSome (c := c) hrow
  obtain ⟨cursor,hash,hpers⟩ := w.persisted_eq c s
  constructor
  · have hrow' : s.jobs.find? job.jobId = some (rowOf job) := by
      rw [← hid.jobId]
      exact hrow
    refine hs.jobs.set hrow' ?_ ?_ hval
    · rw [hpers]
      exact hid.jobId
    · rw [hpers]
      exact hid.idempotencyKey
  · by_cases htaken : s.HasEvent w.stableId
    · obtain ⟨hev,hlast⟩ := w.commit_events_taken (c := c) htaken
      exact hs.events.unchanged hev hlast hsome
    · obtain ⟨hev,hlast⟩ := w.commit_events_fresh (c := c) htaken
      refine hs.events.append hev rfl hlast (stableEventId_ne_empty _ _ _ _) ⟨rfl,rfl⟩ hsome ?_
      apply hsome
      simp [Write.eventRow, hrow]

/-- What a call does keeps the store consistent. -/
theorem Effect.consistent (h : Effect c s s') (hs : s.Consistent c) : s'.Consistent c := by
  cases h with
  | insert _ hname hval hi =>
    obtain ⟨hkey,jobs,hins,rfl⟩ := insertJob_eq_some hi
    refine ⟨hs.jobs.insert hname hval hkey hins,hs.events.unchanged rfl rfl ?_⟩
    intro id hid
    have hfind := Table.find?_insert? hins id
    change (jobs.find? id).isSome
    rw [hfind]
    split
    · rfl
    · exact hid
  | commit hjob hch hval => exact Write.commit_consistent _ hs hjob hch hval
  | announce hjob hfresh hseq hname hdesc =>
    refine ⟨hs.jobs,hs.events.append (rows_insert_event hfresh) hseq hseq hname hdesc (fun _ h => h) ?_⟩
    have hrow := hs.job?_eq_some.mp hjob
    simp [Store.withEvent, hrow]
  | @reseal job hjob cursor hash hval =>
    have hrow := hs.job?_eq_some.mp hjob
    refine ⟨hs.jobs.set hrow rfl rfl hval,hs.events.unchanged rfl rfl ?_⟩
    intro id hid
    have hset := Table.find?_set (t := s.jobs)
      (r := rowOf { job with eventCursor := cursor, contentHash := hash }) hrow id
    change ((s.jobs.set _).find? id).isSome
    rw [hset]
    split
    · rfl
    · exact hid

/-- Refinement: an effect moves what is stored under an id by at most one step of
the life of a job. -/
theorem Effect.history (h : Effect c s s') (hs : s.Consistent c) (id : String) :
    JobHistory (s.job? id) (s'.job? id) := by
  cases h with
  | @insert _ job hf hname hval hi =>
    obtain ⟨-,jobs,hins,rfl⟩ := insertJob_eq_some hi
    have hfind := Table.find?_insert? hins id
    unfold Store.job?
    rw [hfind]
    by_cases he : (rowOf job).jobId = id
    · have hnone : s.jobs.find? id = none := he ▸ Table.insert?_fresh hins
      rw [if_pos he, hnone]
      exact .single (.created hf)
    · rw [if_neg he]
  | @commit w job hjob hch hval =>
    rw [w.commit_job? (hs.job?_eq_some.mp hjob) id]
    split <;> rename_i he
    · subst he
      obtain ⟨cursor,hash,hpers⟩ := w.persisted_eq c s
      rw [hjob, hpers]
      exact .single (.changed hch cursor hash)
    · exact .refl
  | announce => exact .refl
  | @reseal job hjob cursor hash hval =>
    have hset := Table.find?_set (t := s.jobs)
      (r := rowOf { job with eventCursor := cursor, contentHash := hash }) (hs.job?_eq_some.mp hjob) id
    change JobHistory _ (((s.jobs.set _).find? id).map JobRow.payload)
    rw [hset]
    split <;> rename_i he
    · subst he
      have hj : s.job? job.jobId = some job := hjob
      change JobHistory (s.job? job.jobId) _
      rw [hj]
      exact .single (.resealed job cursor hash)
    · exact .refl

theorem Effect.rows_extend (h : Effect c s s') : s.events.rows <+: s'.events.rows := by
  cases h with
  | insert _ _ _ hi =>
    obtain ⟨-,jobs,-,rfl⟩ := insertJob_eq_some hi
    exact prefix_rfl
  | @commit w job =>
    by_cases htaken : s.HasEvent w.stableId
    · have hrows := (w.commit_events_taken (c := c) htaken).1
      exact hrows.symm ▸ prefix_rfl
    · rw [(w.commit_events_fresh (c := c) htaken).1]
      exact prefix_append _ _
  | announce _ hfresh =>
    have hrows := rows_insert_event hfresh
    change _ <+: ((s.events.insert? _).getD s.events).rows
    rw [hrows]
    exact prefix_append _ _
  | reseal => exact prefix_rfl

theorem Effects.consistent (h : Effects c s s') (hs : s.Consistent c) : s'.Consistent c := by
  induction h with
  | refl => exact hs
  | tail _ he ih => exact he.consistent ih

theorem Effects.history (h : Effects c s s') (hs : s.Consistent c) (id : String) :
    JobHistory (s.job? id) (s'.job? id) := by
  induction h with
  | refl => exact .refl
  | tail hrest he ih => exact ih.trans (he.history (Effects.consistent hrest hs) id)

theorem Effects.rows_extend (h : Effects c s s') : s.events.rows <+: s'.events.rows := by
  induction h with
  | refl => exact prefix_rfl
  | tail _ he ih => exact ih.trans he.rows_extend

end OpenPine.Jobs
