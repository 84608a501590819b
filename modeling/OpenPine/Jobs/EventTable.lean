import OpenPine.Foundation.Separator
import OpenPine.Jobs.Reachable

/-! # The event table

The automatic id `job_id:event_type:vN` determines the job, the type and the
version, so automatic ids collide only with the ids that callers of `cancel`
choose themselves. The log of a job is followed through a write and a creation.
-/
namespace OpenPine.Jobs
open List
variable {c : Contracts} {s s' : Store} {id : String}

theorem defaultEventId_inj {id id' : String} {e e' : EventType} {v v' : ℕ}
    (h : defaultEventId id e v = defaultEventId id' e' v') : id = id' ∧ e = e' ∧ v = v' := by
  have hsplit : ∀ id e v, defaultEventId id e v =
      (id ++ String.singleton ':' ++ EventType.value e) ++ String.singleton ':' ++ ("v" ++ Nat.repr v) := by
    intro id e v
    have hsep : (":v" : String) = String.singleton ':' ++ "v" := by decide
    have hcolon : (":" : String) = String.singleton ':' := by decide
    unfold defaultEventId
    rw [hsep, hcolon]
    simp only [String.append_assoc]
  have hver : ∀ v, ':' ∉ ("v" ++ Nat.repr v).toList := by
    intro v hmem
    rw [String.toList_append, mem_append] at hmem
    rcases hmem with hmem | hmem
    · revert hmem
      decide
    · exact Separator.notMem_repr (by decide) v hmem
  have htype : ∀ e, ':' ∉ (EventType.value e).toList := by
    intro e
    cases e <;> decide
  rw [hsplit, hsplit] at h
  obtain ⟨hfront,hv⟩ := Separator.join_inj (hver v) (hver v') h
  obtain ⟨hid,he⟩ := Separator.join_inj (htype e) (htype e') hfront
  refine ⟨hid,?_,?_⟩
  · revert he
    cases e <;> cases e' <;> decide
  · have hdigits := congrArg String.toList hv
    simp only [String.toList_append, append_cancel_left_eq, Nat.repr, String.toList_ofList] at hdigits
    have hread := congrArg (fun ds => Nat.ofDigitChars 10 ds 0) hdigits
    simpa using hread

theorem hasEvent_iff {eventId : String} : s.HasEvent eventId ↔ ∃ e ∈ s.events.rows, e.eventId = eventId := by
  unfold Store.HasEvent
  constructor
  · intro h
    obtain ⟨e,he⟩ := Option.isSome_iff_exists.mp h
    exact ⟨e,Table.mem_of_find? he,Table.key_of_find? he⟩
  · rintro ⟨e,he,rfl⟩
    exact Option.isSome_of_eq_some (Table.find?_of_mem he)

theorem Write.hasEvent_commit (w : Write) {eventId : String} :
    (w.commit c s).HasEvent eventId ↔ s.HasEvent eventId ∨ w.stableId = eventId := by
  by_cases ht : s.HasEvent w.stableId
  · rw [Store.HasEvent, (w.commit_events_taken (c := c) ht).1]
    constructor
    · exact Or.inl
    · rintro (h | rfl)
      · exact h
      · exact ht
  · rw [hasEvent_iff, hasEvent_iff, (w.commit_events_fresh (c := c) ht).1]
    simp only [mem_append, mem_singleton, or_and_right, exists_or, exists_eq_left]
    rfl

/-! ### The log of a job -/

def Store.log (s : Store) (id : String) : List Event := (Jobs.events s "").filter (fun e => e.jobId = id)

theorem events_all (h : EventsConsistent s) : events s "" = s.events.rows.map EventRow.payload := by
  have hsorted : s.events.rows.Pairwise (fun r r' => r.seq ≤ r'.seq) := (pairwise_map.mp h.sequenced).imp Nat.le_of_lt
  unfold events
  rw [if_neg (by simp), hsorted.insertionSort_eq]

theorem log_append (h : EventsConsistent s) (h' : EventsConsistent s') {row : EventRow}
    (hrows : s'.events.rows = s.events.rows ++ [row]) (id : String) :
    s'.log id = s.log id ++ if row.payload.jobId = id then [row.payload] else [] := by
  unfold Store.log
  rw [events_all h, events_all h', hrows, map_append, filter_append]
  refine congrArg _ ?_
  by_cases he : row.payload.jobId = id
  · simp [he]
  · simp [he]

theorem log_congr (h : s'.events = s.events) (id : String) : s'.log id = s.log id := by
  unfold Store.log events
  rw [h]

theorem log_absent (hs : s.Consistent c) (h : s.job? id = none) : s.log id = [] := by
  unfold Store.log
  rw [events_all hs.events, filter_eq_nil_iff]
  intro e he
  obtain ⟨row,hrow,rfl⟩ := mem_map.mp he
  have howned := hs.events.owned row hrow
  have hid := (hs.events.described row hrow).2
  simp only [decide_eq_true_eq]
  rintro rfl
  rw [← hid, job?_eq_none.mp h] at howned
  cases howned

namespace Write
variable (w : Write) {job : Job} (hs : s.Consistent c) (hjob : s.job? w.payload.jobId = some job)
  (hch : Change job w.eventType w.payload) (hval : c.validatePayload (w.persisted c s) = none)
include hs hjob hch hval

theorem commit_log (id : String) : (w.commit c s).log id = s.log id ++
    if ¬s.HasEvent w.stableId ∧ w.payload.jobId = id then [(w.eventRow s).payload] else [] := by
  have hs' := w.commit_consistent hs hjob hch hval
  by_cases ht : s.HasEvent w.stableId
  · rw [log_congr (w.commit_events_taken (c := c) ht).1]
    simp [ht]
  · rw [log_append hs.events hs'.events (w.commit_events_fresh (c := c) ht).1]
    simp only [ht, not_false_eq_true, true_and]
    rfl

theorem commit_log_other (hne : w.payload.jobId ≠ id) : (w.commit c s).log id = s.log id := by
  rw [w.commit_log hs hjob hch hval]
  simp [hne]

end Write

/-! ### The file after a creation -/

namespace Created
variable {a : CreateArgs} {payload : Job} {s₁ s₂ : Store} {r : Job × Store} (h : Created c s a payload s₁ s₂ r)
  (hs : s.Consistent c) (hinit : payload.Initial c)
include h hs hinit

omit hs hinit in
theorem inserted_log (id : String) : s₁.log id = s.log id := log_congr h.inserted_events.1 id

omit hs hinit in
theorem inserted_hasEvent (eventId : String) : s₁.HasEvent eventId ↔ s.HasEvent eventId := by
  rw [Store.HasEvent, h.inserted_events.1, Store.HasEvent]

theorem linked_hasEvent_created : s₂.HasEvent (defaultEventId payload.jobId .created payload.version) ↔
      s.HasEvent (defaultEventId payload.jobId .created payload.version) := by
  rcases h.linked_cases hs hinit with ⟨-,rfl⟩ | ⟨parent,-,-,⟨-,rfl⟩ | ⟨-,-,rfl⟩⟩
  · exact h.inserted_hasEvent _
  · exact h.inserted_hasEvent _
  · rw [Write.hasEvent_commit, h.inserted_hasEvent, or_iff_left]
    intro he
    obtain ⟨-,htype,-⟩ := defaultEventId_inj he
    cases htype

theorem announced_log (id : String) : r.2.log id = s₂.log id ++
      if ¬s.HasEvent (defaultEventId payload.jobId .created payload.version) ∧ payload.jobId = id then
        [(createdEvent s₂ payload).payload] else [] := by
  have hs₂ := h.linked_consistent hs hinit
  have hs₃ := (h.effects hs hinit).consistent hs
  have hiff := h.linked_hasEvent_created hs hinit
  by_cases ht : s₂.HasEvent (defaultEventId payload.jobId .created payload.version)
  · rw [h.announced_taken ht]
    simp [hiff.mp ht]
  · have hrows := h.announced_rows hs hinit ht
    rw [log_append hs₂.events hs₃.events hrows]
    simp only [mt hiff.mpr ht, not_false_eq_true, true_and]
    rfl

theorem announced_job?_other (hne : payload.jobId ≠ id) : r.2.job? id = s₂.job? id := by
  by_cases ht : s₂.HasEvent (defaultEventId payload.jobId .created payload.version)
  · rw [h.announced_taken ht]
  · by_cases hself : a.parentJobId = some payload.jobId
    · rw [h.announced_fresh_self hs hinit ht hself]
      rfl
    · rw [h.announced_fresh_other hs hinit ht hself]
      have hset := Table.find?_set_ne s₂.jobs (rowOf (announcedPayload c payload)) hne
      change ((s₂.jobs.set _).find? id).map _ = _
      rw [hset]
      rfl

theorem announced_job?_self (hself : a.parentJobId = some payload.jobId) :
    r.2.job? payload.jobId = s₂.job? payload.jobId := by
  by_cases ht : s₂.HasEvent (defaultEventId payload.jobId .created payload.version)
  · rw [h.announced_taken ht]
  · rw [h.announced_fresh_self hs hinit ht hself]
    rfl

theorem announced_job? (hself : a.parentJobId ≠ some payload.jobId) : r.2.job? payload.jobId = some
      (if s.HasEvent (defaultEventId payload.jobId .created payload.version) then payload
        else announcedPayload c payload) := by
  have hs₂ := h.linked_consistent hs hinit
  have hjob := h.linked_job? hs hinit hself
  have hiff := h.linked_hasEvent_created hs hinit
  by_cases ht : s₂.HasEvent (defaultEventId payload.jobId .created payload.version)
  · rw [h.announced_taken ht, if_pos (hiff.mp ht)]
    exact hjob
  · rw [h.announced_fresh_other hs hinit ht hself, if_neg (mt hiff.mpr ht)]
    have hrow : s₂.jobs.find? (rowOf (announcedPayload c payload)).jobId = some (rowOf payload) :=
      hs₂.job?_eq_some.mp hjob
    have hset := Table.find?_set_self hrow
    change ((s₂.jobs.set _).find? payload.jobId).map _ = _
    rw [show (s₂.jobs.set (rowOf (announcedPayload c payload))).find? payload.jobId = _ from hset]
    rfl

end Created

end OpenPine.Jobs
