import OpenPine.Jobs.TransactionalStore

/-! # One write of a job in closed form

Every operation that changes a stored job seals the new payload, writes it over
its row and appends one event. `Write.commit` is the file after these two calls,
`Write.persisted` the payload the row then holds and `Write.returned` the payload
the caller gets. The two payloads are not always the same: a taken event id ends
the append before the row is written a second time.
-/
namespace OpenPine.Jobs
variable {c : Contracts} {s : Store} {r : Job × Store}

theorem rehash_ok_iff {job sealed : Job} : rehash c job = .ok sealed ↔
      c.validatePayload (sealContentHash c job) = none ∧ sealed = sealContentHash c job := by
  unfold rehash
  cases h : c.validatePayload (sealContentHash c job) with
  | none => simp [eq_comm]
  | some => simp

def Store.HasEvent (s : Store) (eventId : String) : Prop := (s.events.find? eventId).isSome = true

instance (s : Store) (eventId : String) : Decidable (s.HasEvent eventId) :=
  inferInstanceAs (Decidable ((s.events.find? eventId).isSome = true))

structure Write where
  payload : Job
  eventType : EventType
  eventId : Option String := none

namespace Write

def stableId (w : Write) : String := stableEventId w.eventId w.payload.jobId w.eventType w.payload.version

def eventRow (s : Store) (w : Write) : EventRow :=
  ⟨s.lastSeq + 1,w.stableId,w.payload.jobId,
    ⟨w.stableId,s.lastSeq + 1,w.eventType,w.payload.jobId,w.payload.state,w.payload.version⟩⟩

def persisted (c : Contracts) (s : Store) (w : Write) : Job :=
  if s.HasEvent w.stableId then sealContentHash c w.payload
  else sealContentHash c ((sealContentHash c w.payload).withCursor w.stableId)

def returned (c : Contracts) (s : Store) (w : Write) : Job :=
  if s.HasEvent w.stableId then (sealContentHash c w.payload).withCursor w.stableId
  else w.persisted c s

def commit (c : Contracts) (s : Store) (w : Write) : Store where
  jobs := s.jobs.set (rowOf (w.persisted c s))
  events := (s.events.insert? (w.eventRow s)).getD s.events
  lastSeq := if s.HasEvent w.stableId then s.lastSeq else s.lastSeq + 1

theorem persisted_eq (c : Contracts) (s : Store) (w : Write) :
    ∃ cursor hash, w.persisted c s = { w.payload with eventCursor := cursor, contentHash := hash } := by
  unfold persisted
  split
  · exact ⟨_,_,rfl⟩
  · exact ⟨_,_,rfl⟩

@[simp] theorem persisted_jobId (c : Contracts) (s : Store) (w : Write) :
    (w.persisted c s).jobId = w.payload.jobId := by
  obtain ⟨_,_,h⟩ := w.persisted_eq c s
  rw [h]

@[simp] theorem persisted_version (c : Contracts) (s : Store) (w : Write) :
    (w.persisted c s).version = w.payload.version := by
  obtain ⟨_,_,h⟩ := w.persisted_eq c s
  rw [h]

@[simp] theorem persisted_state (c : Contracts) (s : Store) (w : Write) :
    (w.persisted c s).state = w.payload.state := by
  obtain ⟨_,_,h⟩ := w.persisted_eq c s
  rw [h]

end Write

theorem insert?_event_eq_none {row : EventRow} : s.events.insert? row = none ↔ s.HasEvent row.eventId :=
  Table.insert?_eq_none

theorem storeJob_ok_iff {payload : Job} {v : ℕ} : storeJobInTransaction c s payload v = .ok r ↔
      c.validatePayload (sealContentHash c payload) = none ∧
      (∃ row, s.jobs.find? payload.jobId = some row ∧ row.version = v) ∧
      r = (sealContentHash c payload, { s with jobs := s.jobs.set (rowOf (sealContentHash c payload)) }) := by
  unfold storeJobInTransaction
  rw [Python.bind_eq_ok]
  simp only [rehash_ok_iff]
  constructor
  · rintro ⟨_,⟨hv,rfl⟩,h⟩
    cases hrow : s.jobs.find? (sealContentHash c payload).jobId with
    | none => simp [hrow] at h
    | some row =>
      simp only [hrow] at h
      split at h <;> rename_i hver
      · cases h
        exact ⟨hv,⟨row,hrow,hver⟩,rfl⟩
      · cases h
  · rintro ⟨hv,⟨row,hrow,hver⟩,rfl⟩
    refine ⟨_,⟨hv,rfl⟩,?_⟩
    replace hrow : s.jobs.find? (sealContentHash c payload).jobId = some row := hrow
    simp [hrow, hver]

theorem append_taken (c : Contracts) (s : Store) (jobId : String) (eventType : EventType) (job : Job)
    (eventId : Option String) (h : s.HasEvent (stableEventId eventId jobId eventType job.version)) :
    appendEventInTransaction c s jobId eventType job eventId =
      .ok (job.withCursor (stableEventId eventId jobId eventType job.version), s) := by
  unfold appendEventInTransaction
  dsimp only
  rw [insert?_event_eq_none.mpr h]

def Store.withEvent (s : Store) (row : EventRow) : Store :=
  { s with events := (s.events.insert? row).getD s.events, lastSeq := row.seq }

theorem append_fresh_iff (c : Contracts) (s : Store) (jobId : String) (eventType : EventType) (job : Job)
    (eventId : Option String) (h : ¬s.HasEvent (stableEventId eventId jobId eventType job.version)) :
    let stable := stableEventId eventId jobId eventType job.version
    let job' := sealContentHash c (job.withCursor stable)
    appendEventInTransaction c s jobId eventType job eventId = .ok r ↔ c.validatePayload job' = none ∧
      r = (job', (s.withEvent ⟨s.lastSeq + 1,stable,jobId,
        ⟨stable,s.lastSeq + 1,eventType,jobId,job.state,job.version⟩⟩).updatePayload jobId job.version job') := by
  intro stable job'
  unfold appendEventInTransaction
  dsimp only
  cases hi : s.events.insert?
    ⟨s.lastSeq + 1,stable,jobId, ⟨stable,s.lastSeq + 1,eventType,jobId,job.state,job.version⟩⟩ with
  | none => exact absurd (insert?_event_eq_none.mp hi) h
  | some =>
    simp only [Python.bind_eq_ok, rehash_ok_iff]
    constructor
    · rintro ⟨_,⟨hv,rfl⟩,hr⟩
      cases hr
      exact ⟨hv,by simp only [Store.withEvent, stable, hi]; rfl⟩
    · rintro ⟨hv,rfl⟩
      exact ⟨_,⟨hv,rfl⟩,by simp only [Store.withEvent, hi]; rfl⟩

theorem updatePayload_set (s : Store) (row : JobRow) (jobId : String) (payload : Job)
    (hrow : s.jobs.find? jobId = some row) :
    s.updatePayload jobId row.version payload = { s with jobs := s.jobs.set { row with payload := payload } } := by
  simp [Store.updatePayload, hrow]

/-- The file between the two calls: the row is written, the event is not. -/
def Write.stored (c : Contracts) (s : Store) (w : Write) : Store :=
  { s with jobs := s.jobs.set (rowOf (sealContentHash c w.payload)) }

theorem Write.stored_append_fresh (w : Write) {row : JobRow} (hrow : s.jobs.find? w.payload.jobId = some row)
    (hfresh : ¬s.HasEvent w.stableId) :
    ((w.stored c s).withEvent (w.eventRow s)).updatePayload w.payload.jobId w.payload.version
      (w.persisted c s) = w.commit c s := by
  have hself : ((w.stored c s).withEvent (w.eventRow s)).jobs.find? w.payload.jobId =
      some (rowOf (sealContentHash c w.payload)) := Table.find?_set_self hrow
  have hset := updatePayload_set _ _ _ (w.persisted c s) hself
  refine hset.trans ?_
  simp only [Write.commit, if_neg hfresh, Write.persisted]
  refine congrArg (fun jobs => (⟨jobs,_,_⟩ : Store)) ?_
  exact Table.set_set s.jobs rfl

/-- A write stores the job and appends its event, or neither. -/
theorem storeThenAppend_ok_iff {w : Write} {v : ℕ} : (storeJobInTransaction c s w.payload v >>= fun p =>
      appendEventInTransaction c p.2 w.payload.jobId w.eventType p.1 w.eventId) = .ok r ↔
      (∃ row, s.jobs.find? w.payload.jobId = some row ∧ row.version = v) ∧
      c.validatePayload (sealContentHash c w.payload) = none ∧
      c.validatePayload (w.persisted c s) = none ∧
      r = (w.returned c s, w.commit c s) := by
  rw [Python.bind_eq_ok]
  simp only [storeJob_ok_iff, ← Write.stored.eq_1]
  by_cases htaken : s.HasEvent w.stableId
  · have happ := append_taken c (w.stored c s) w.payload.jobId w.eventType
      (sealContentHash c w.payload) w.eventId htaken
    have hnone : s.events.insert? (w.eventRow s) = none := insert?_event_eq_none.mpr htaken
    have hcommit : w.commit c s = w.stored c s := by
      simp only [Write.commit, Write.stored, Write.persisted, if_pos htaken, hnone, Option.getD_none]
    have hpers : w.persisted c s = sealContentHash c w.payload := if_pos htaken
    have hret : w.returned c s = (sealContentHash c w.payload).withCursor w.stableId := if_pos htaken
    rw [hcommit, hpers, hret]
    constructor
    · rintro ⟨_,⟨hv,hrow,rfl⟩,h⟩
      rw [happ] at h
      cases h
      exact ⟨hrow,hv,hv,rfl⟩
    · rintro ⟨hrow,hv,_,rfl⟩
      exact ⟨_,⟨hv,hrow,rfl⟩,happ⟩
  · have hpers : w.persisted c s = sealContentHash c
        ((sealContentHash c w.payload).withCursor w.stableId) := if_neg htaken
    have hret : w.returned c s = w.persisted c s := if_neg htaken
    constructor
    · rintro ⟨_,⟨hv,⟨row,hfind,hver⟩,rfl⟩,h⟩
      obtain ⟨hv',rfl⟩ := (append_fresh_iff c (w.stored c s) w.payload.jobId w.eventType
        (sealContentHash c w.payload) w.eventId htaken).mp h
      rw [hret, ← w.stored_append_fresh hfind htaken, hpers]
      exact ⟨⟨row,hfind,hver⟩,hv,hv',rfl⟩
    · rintro ⟨⟨row,hfind,hver⟩,hv,hv',rfl⟩
      refine ⟨_,⟨hv,⟨row,hfind,hver⟩,rfl⟩,?_⟩
      rw [hpers] at hv'
      apply (append_fresh_iff c (w.stored c s) w.payload.jobId w.eventType
        (sealContentHash c w.payload) w.eventId htaken).mpr
      rw [hret, ← w.stored_append_fresh hfind htaken, hpers]
      exact ⟨hv',rfl⟩

end OpenPine.Jobs
