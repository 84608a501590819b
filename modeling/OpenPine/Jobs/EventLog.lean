import OpenPine.Jobs.Admissible
import OpenPine.Jobs.EventTable

/-! # Completeness of the event log

The log of a job is complete when its events carry the versions 1 to v in order and
the last of them the stored state. A call keeps all logs complete exactly when no
event id it writes is already stored and it does not create a job that is its own
parent.
-/
namespace OpenPine.Jobs
open Runs List Option
variable {c : Contracts} {s s' : Store}

def Store.JobLogComplete (s : Store) (id : String) : Prop :=
  ∀ job, s.job? id = some job → (s.log id).map Event.version = List.range' 1 job.version ∧
    (s.log id).getLast?.map Event.state = some job.state

def Store.LogComplete (s : Store) : Prop := ∀ id, s.JobLogComplete id

variable {id : String} {op : Op}

theorem Store.JobLogComplete.congr (hjob : s'.job? id = s.job? id) (hlog : s'.log id = s.log id) :
    s'.JobLogComplete id ↔ s.JobLogComplete id := by
  unfold Store.JobLogComplete
  rw [hjob, hlog]

theorem Store.LogComplete.versions (h : s.LogComplete) (id : String) (hsome : (s.job? id).isSome = true) :
    (s.log id).map Event.version = List.range' 1 (versionOf (s.job? id)) := by
  obtain ⟨job,hjob⟩ := isSome_iff_exists.mp hsome
  rw [hjob]
  exact (h id job hjob).1

def Store.LogShort (s : Store) (id : String) : Prop := ∃ job, s.job? id = some job ∧ (s.log id).length < job.version

theorem Store.JobLogComplete.length {job : Job} (h : s.JobLogComplete id) (hjob : s.job? id = some job) :
    (s.log id).length = job.version := by
  have hlen := congrArg List.length (h job hjob).1
  simpa using hlen

theorem Store.LogShort.not_complete (h : s.LogShort id) : ¬s.LogComplete := by
  obtain ⟨job,hjob,hlt⟩ := h
  intro hc
  have hlen := (hc id).length hjob
  omega

/-! ### One write -/

namespace Write
variable (w : Write) {job : Job} (hs : s.Consistent c) (hjob : s.job? w.payload.jobId = some job)
  (hch : Change job w.eventType w.payload) (hval : c.validatePayload (w.persisted c s) = none)
include hs hjob

theorem commit_job?_self : (w.commit c s).job? w.payload.jobId = some (w.persisted c s) := by
  rw [w.commit_job? (hs.job?_eq_some.mp hjob), if_pos rfl]

theorem commit_job?_other {id : String} (hne : w.payload.jobId ≠ id) : (w.commit c s).job? id = s.job? id := by
  rw [w.commit_job? (hs.job?_eq_some.mp hjob), if_neg hne]

include hch hval

theorem commit_jobLogComplete_other {id : String} (hne : w.payload.jobId ≠ id) :
    (w.commit c s).JobLogComplete id ↔ s.JobLogComplete id :=
  Store.JobLogComplete.congr (w.commit_job?_other hs hjob hne) (w.commit_log_other hs hjob hch hval hne)

theorem commit_short_of_taken (ht : s.HasEvent w.stableId) (hlog : (s.log w.payload.jobId).length ≤ job.version) :
    (w.commit c s).LogShort w.payload.jobId := by
  refine ⟨_,w.commit_job?_self hs hjob,?_⟩
  have hv := hch.version_succ
  rw [w.commit_log hs hjob hch hval, w.persisted_version]
  simp only [ht, not_true_eq_false, false_and, if_false, append_nil]
  omega

theorem commit_short {id : String} (h : s.LogShort id) : (w.commit c s).LogShort id := by
  obtain ⟨job',hjob',hlt⟩ := h
  by_cases he : w.payload.jobId = id
  · subst he
    cases hjob.symm.trans hjob'
    have hv := hch.version_succ
    refine ⟨_,w.commit_job?_self hs hjob,?_⟩
    rw [w.commit_log hs hjob hch hval, w.persisted_version]
    split
    · simp only [length_append, length_singleton]
      omega
    · simp only [append_nil]
      omega
  · refine ⟨job',?_,?_⟩
    · rw [w.commit_job?_other hs hjob he, hjob']
    · rw [w.commit_log_other hs hjob hch hval he]
      exact hlt

theorem commit_jobLogComplete (hfresh : ¬s.HasEvent w.stableId) (h : s.JobLogComplete w.payload.jobId) :
    (w.commit c s).JobLogComplete w.payload.jobId := by
  intro job' hjob'
  rw [w.commit_job?_self hs hjob] at hjob'
  cases hjob'
  obtain ⟨hver,-⟩ := h job hjob
  have hv := hch.version_succ
  rw [w.commit_log hs hjob hch hval, if_pos ⟨hfresh,rfl⟩, w.persisted_version, w.persisted_state, hv]
  rw [map_append, hver, List.range'_concat]
  simp [Write.eventRow, hv, Nat.add_comm]

theorem commit_logComplete (hfresh : ¬s.HasEvent w.stableId) (h : s.LogComplete) : (w.commit c s).LogComplete := by
  intro id
  by_cases he : w.payload.jobId = id
  · subst he
    exact w.commit_jobLogComplete hs hjob hch hval hfresh (h _)
  · exact (w.commit_jobLogComplete_other hs hjob hch hval he).mpr (h id)

theorem commit_logComplete_iff (h : s.LogComplete) : (w.commit c s).LogComplete ↔ ¬s.HasEvent w.stableId := by
  constructor
  · intro hc ht
    have hlen := (h _).length hjob
    exact (w.commit_short_of_taken hs hjob hch hval ht (Nat.le_of_eq hlen)).not_complete hc
  · intro hfresh
    exact w.commit_logComplete hs hjob hch hval hfresh h

end Write

open Write

/-! ### Recovery -/

theorem lostWrite_stableId (job : Job) (now : ℤ) :
    (lostWrite job now).stableId = defaultEventId job.jobId .lost (job.version + 1) := rfl

section Recovery
variable {now : ℤ} {n : ℕ} (hs : s.Consistent c) (h : recoverLostLeases c s now = .ok (n, s')) (hcomp : s.LogComplete)
include hs h hcomp

theorem recover_complete (hfresh : ∀ row ∈ runningRows s, row.payload.expired now = true →
      ¬s.HasEvent (lostWrite row.payload now).stableId) : s'.LogComplete := by
  have hinv := recover_rule (P := fun rest t => t.LogComplete ∧ ∀ row ∈ rest, row.payload.expired now = true →
    ¬t.HasEvent (lostWrite row.payload now).stableId) ?_ ?_ hs ⟨hcomp,hfresh⟩ h
  · exact hinv.1
  · rintro row rest t - - ⟨ht,hf⟩
    exact ⟨ht,fun r hr => hf r (mem_cons_of_mem _ hr)⟩
  · rintro row rest t hpend hexp hacc ⟨ht,hf⟩
    have hnew := hf row mem_cons_self hexp
    obtain ⟨job,rfl,hjob,hch⟩ := hpend.change hexp
    refine ⟨commit_logComplete _ hpend.consistent hjob hch hacc.2 hnew ht,?_⟩
    intro r hr hexp'
    rw [hasEvent_commit]
    rintro (htaken | he)
    · exact hf r (mem_cons_of_mem _ hr) hexp' htaken
    · -- two jobs of one recovery have different ids, so their events do too
      obtain ⟨hid,-⟩ := defaultEventId_inj he
      have hmir := (hpend.consistent.find?_row (hpend.tail.stored r hr).1).1
      have hrid : r.jobId = job.jobId := by
        rw [hmir]
        exact hid.symm
      exact (nodup_cons.mp hpend.distinct).1 (mem_map.mpr ⟨r,hr,hrid⟩)

theorem recover_short {row : JobRow} (hrow : row ∈ runningRows s) (hexp : row.payload.expired now = true)
    (htaken : s.HasEvent (lostWrite row.payload now).stableId) : s'.LogShort row.jobId := by
  have hinv := recover_rule (P := fun rest t => t.HasEvent (lostWrite row.payload now).stableId ∧
    (row ∈ rest ∧ t.log row.jobId = s.log row.jobId ∨ t.LogShort row.jobId)) ?_ ?_ hs ⟨htaken,Or.inl ⟨hrow,rfl⟩⟩ h
  · rcases hinv.2 with ⟨hmem,-⟩ | hshort
    · cases hmem
    · exact hshort
  · rintro r rest t - hlive ⟨ht,⟨hmem,hlog⟩ | hshort⟩
    · refine ⟨ht,Or.inl ⟨?_,hlog⟩⟩
      rcases mem_cons.mp hmem with rfl | hmem
      · rw [hexp] at hlive
        cases hlive
      · exact hmem
    · exact ⟨ht,Or.inr hshort⟩
  · rintro r rest t hpend hexp' hacc ⟨ht,hrest⟩
    obtain ⟨job,rfl,hjob,hch⟩ := hpend.change hexp'
    refine ⟨(hasEvent_commit _).mpr (Or.inl ht),?_⟩
    rcases hrest with ⟨hmem,hlog⟩ | hshort
    · rcases mem_cons.mp hmem with rfl | hmem
      · refine Or.inr (commit_short_of_taken _ hpend.consistent hjob hch hacc.2 ht ?_)
        obtain ⟨-,hsjob⟩ := hs.find?_row (Table.find?_of_mem (mem_runningRows.mp hrow).1)
        have hlen := (hcomp _).length hsjob
        change (t.log job.jobId).length ≤ job.version
        change (s.log job.jobId).length = job.version at hlen
        rw [show t.log job.jobId = s.log job.jobId from hlog]
        omega
      · have hne : (lostWrite job now).payload.jobId ≠ row.jobId := by
          intro he
          exact (nodup_cons.mp hpend.distinct).1 (mem_map.mpr ⟨row,hmem,he.symm⟩)
        exact Or.inl ⟨hmem,(commit_log_other _ hpend.consistent hjob hch hacc.2 hne).trans hlog⟩
    · exact Or.inr (commit_short _ hpend.consistent hjob hch hacc.2 hshort)

theorem recover_complete_iff : s'.LogComplete ↔ ∀ row ∈ runningRows s, row.payload.expired now = true →
    ¬s.HasEvent (lostWrite row.payload now).stableId := by
  constructor
  · intro hc row hrow hexp htaken
    exact (recover_short hs h hcomp hrow hexp htaken).not_complete hc
  · exact recover_complete hs h hcomp

end Recovery

/-! ### Creation -/

/-- The event ids that a create call writes are new, and the job is not its own parent. -/
structure CleanCreate (s : Store) (a : CreateArgs) (jobId : String) : Prop where
  parent : a.parentJobId ≠ some jobId
  created : ¬s.HasEvent (defaultEventId jobId .created 1)
  linked : ∀ parent, nonEmpty a.parentJobId = some parent.jobId → s.job? parent.jobId = some parent →
    jobId ∉ parent.childJobIds → ¬s.HasEvent (defaultEventId parent.jobId .childLinked (parent.version + 1))

namespace Created
variable {a : CreateArgs} {payload : Job} {s₁ s₂ : Store} {r : Job × Store} (h : Created c s a payload s₁ s₂ r)
  (hs : s.Consistent c) (hinit : payload.Initial c)
include h hs hinit

/-- A job that is its own parent is at version two, and no order of its two
events is the right one. -/
theorem self_not_complete (hself : a.parentJobId = some payload.jobId) : ¬r.2.LogComplete := by
  obtain ⟨rfl,hjob⟩ := h.linked_job?_self hs hinit hself
  have hs₁ := h.inserted_consistent hs hinit
  have hlog : (r.2.log payload.jobId).map Event.version ∈ [[], [1], [2], [2, 1]] := by
    have hin : s₁.job? payload.jobId = some payload := by rw [h.inserted_job?, if_pos rfl]
    have hnew : payload.jobId ∉ payload.childJobIds := by simp [hinit.fresh.childJobIds]
    have hval₂ := (h.linked_consistent hs hinit).jobs.accepted _
      (Table.mem_of_find? ((h.linked_consistent hs hinit).job?_eq_some.mp hjob))
    have hlinked := commit_log (childLinkedWrite payload payload.jobId a.now) hs₁ hin
      (.childLinked hnew) hval₂ payload.jobId
    rw [h.announced_log hs hinit, hlinked, h.inserted_log, log_absent hs h.absent]
    split <;> split <;> simp [eventRow, childLinkedWrite, createdEvent, hinit.fresh.version]
  intro hc
  have hver := (hc payload.jobId _ ((h.announced_job?_self hs hinit hself).trans hjob)).1
  have htwo : ((childLinkedWrite payload payload.jobId a.now).persisted c s₁).version = 2 := by
    rw [persisted_version]
    simp [childLinkedWrite, hinit.fresh.version]
  rw [hver, htwo] at hlog
  revert hlog
  decide

theorem jobLogComplete_new_iff (hself : a.parentJobId ≠ some payload.jobId) :
    r.2.JobLogComplete payload.jobId ↔ ¬s.HasEvent (defaultEventId payload.jobId .created payload.version) := by
  have hlog : s₂.log payload.jobId = [] := by
    rcases h.linked_cases hs hinit with ⟨-,rfl⟩ | ⟨parent,hp,hparent,⟨-,rfl⟩ | ⟨hnew,hacc,rfl⟩⟩
    · rw [h.inserted_log, log_absent hs h.absent]
    · rw [h.inserted_log, log_absent hs h.absent]
    · have hne : (childLinkedWrite parent payload.jobId a.now).payload.jobId ≠ payload.jobId := by
        rintro he
        exact hself ((nonEmpty_eq_some.mp hp).1.trans (congrArg some he))
      rw [commit_log_other _ (h.inserted_consistent hs hinit) hparent (.childLinked hnew) hacc.2 hne,
        h.inserted_log, log_absent hs h.absent]
  unfold Store.JobLogComplete
  rw [h.announced_job? hs hinit hself, h.announced_log hs hinit, hlog]
  by_cases ht : s.HasEvent (defaultEventId payload.jobId .created payload.version)
  · simp only [ht, not_true_eq_false, false_and, if_true, if_false, iff_false]
    intro hall
    have hver := (hall payload rfl).1
    rw [hinit.fresh.version] at hver
    cases hver
  · simp only [ht, not_false_eq_true, true_and, if_true, if_false, iff_true]
    rintro job ⟨⟩
    have hver : (announcedPayload c payload).version = 1 := hinit.fresh.version
    rw [hver]
    exact ⟨congrArg (fun v => [v]) hinit.fresh.version,rfl⟩

theorem jobLogComplete_other_iff (hcomp : s.LogComplete) : (∀ id, payload.jobId ≠ id → r.2.JobLogComplete id) ↔
      ∀ parent, payload.jobId ≠ parent.jobId → nonEmpty a.parentJobId = some parent.jobId →
        s.job? parent.jobId = some parent → payload.jobId ∉ parent.childJobIds →
        ¬s.HasEvent (defaultEventId parent.jobId .childLinked (parent.version + 1)) := by
  have hs₁ := h.inserted_consistent hs hinit
  have hann : ∀ id, payload.jobId ≠ id → (r.2.JobLogComplete id ↔ s₂.JobLogComplete id) := by
    intro id hne
    refine Store.JobLogComplete.congr (h.announced_job?_other hs hinit hne) ?_
    rw [h.announced_log hs hinit]
    simp [hne]
  have hins : ∀ id, payload.jobId ≠ id → s₁.job? id = s.job? id := by
    intro id hne
    rw [h.inserted_job?, if_neg hne]
  have hold : ∀ id, payload.jobId ≠ id → s₁.JobLogComplete id := by
    intro id hne
    exact (Store.JobLogComplete.congr (hins id hne) (h.inserted_log id)).mpr (hcomp id)
  -- only the parent can have got an event that is not its own creation
  rcases h.linked_cases hs hinit with ⟨hnone,rfl⟩ | ⟨parent,hp,hparent,⟨hmem,rfl⟩ | ⟨hnew,hacc,rfl⟩⟩
  · refine ⟨fun _ parent _ hp => ?_,fun _ id hne => (hann id hne).mpr (hold id hne)⟩
    rw [hnone] at hp
    cases hp
  · refine ⟨fun _ parent' hne hp' hjob' hnew => ?_,fun _ id hne => (hann id hne).mpr (hold id hne)⟩
    rw [Option.some.inj (hp.symm.trans hp'), hins _ hne, hjob'] at hparent
    cases hparent
    exact absurd hmem hnew
  · have hch : Change parent _ (childLinkedWrite parent payload.jobId a.now).payload := .childLinked hnew
    constructor
    · rintro hall parent' hne hp' hjob' - htaken
      rw [Option.some.inj (hp.symm.trans hp'), hins _ hne, hjob'] at hparent
      cases hparent
      have hstored : s₁.job? parent.jobId = some parent := (hins _ hne).trans hjob'
      have hlen := (hold _ hne).length hstored
      have hshort := commit_short_of_taken (childLinkedWrite parent payload.jobId a.now) hs₁ hstored hch hacc.2
        ((h.inserted_hasEvent _).mpr htaken) (Nat.le_of_eq hlen)
      obtain ⟨job,hjob,hlt⟩ := hshort
      have hlen' := ((hann _ hne).mp (hall _ hne)).length hjob
      exact absurd hlen' (Nat.ne_of_lt hlt)
    · intro hclean id hne
      refine (hann id hne).mpr ?_
      by_cases he : parent.jobId = id
      · subst he
        refine commit_jobLogComplete (childLinkedWrite parent payload.jobId a.now) hs₁ hparent hch hacc.2 ?_
          (hold _ hne)
        rw [h.inserted_hasEvent]
        exact hclean parent hne hp ((hins _ hne).symm.trans hparent) hnew
      · exact (commit_jobLogComplete_other _ hs₁ hparent hch hacc.2 he).mpr (hold id hne)

theorem complete_iff (hcomp : s.LogComplete) : r.2.LogComplete ↔ CleanCreate s a payload.jobId := by
  by_cases hself : a.parentJobId = some payload.jobId
  · have hno := h.self_not_complete hs hinit hself
    exact ⟨fun hc => absurd hc hno,fun hclean => absurd hself hclean.parent⟩
  have hnew := h.jobLogComplete_new_iff hs hinit hself
  have hother := h.jobLogComplete_other_iff hs hinit hcomp
  rw [hinit.fresh.version] at hnew
  constructor
  · intro hc
    refine ⟨hself,hnew.mp (hc _),fun parent hp => ?_⟩
    refine hother.mp (fun id _ => hc id) parent ?_ hp
    intro he
    exact hself ((nonEmpty_eq_some.mp hp).1.trans (congrArg some he.symm))
  · intro hclean id
    by_cases he : payload.jobId = id
    · subst he
      exact hnew.mpr hclean.created
    · exact hother.mpr (fun parent _ => hclean.linked parent) id he

end Created

/-! ### Whole runs -/

/-- If the call is accepted, no event id it writes is stored yet, and it does not
create a job that is its own parent. -/
def CleanCall (s : Store) (op : Op) : Prop :=
  op.Admissible s → match op with
    | .create a => replayed s a = none → ∀ jobId, nonEmpty a.jobId = some jobId → CleanCreate s a jobId
    | .recoverLostLeases now => ∀ row ∈ runningRows s, row.payload.expired now = true →
        ¬s.HasEvent (lostWrite row.payload now).stableId
    | op => ∀ w, op.write? s = some w → ¬s.HasEvent w.stableId

theorem cleanCall_target (h : op.target = some id) :
    CleanCall s op ↔ (op.Admissible s → ∀ w, op.write? s = some w → ¬s.HasEvent w.stableId) := by
  cases op with
  | create | recoverLostLeases => cases h
  | _ => exact Iff.rfl

/-- A call leaves the log complete exactly if it is clean. -/
theorem step_complete_iff (hc : c.Accepts) (hs : s.Consistent c) (hcomp : s.LogComplete) (op : Op) :
    (step c s op).LogComplete ↔ CleanCall s op := by
  by_cases hadm : op.Admissible s
  case neg =>
    rw [step_of_not_admissible hc hs hadm]
    exact ⟨fun _ h => absurd h hadm,fun _ => hcomp⟩
  obtain ⟨res,-,hout⟩ := step_of_admissible hc hs hadm
  generalize step c s op = s' at hout
  cases hout with
  | replayed hrep =>
    refine ⟨fun _ _ hnone => ?_,fun _ => hcomp⟩
    rw [hrep] at hnone
    cases hnone
  | @created a jobId kind identity s₁ s₂ r hrep hid hm hval hcr =>
    have hiff := hcr.complete_iff hs (newPayload_initial hid hm hval) hcomp
    refine hiff.trans ⟨fun hclean _ _ jobId' hid' => ?_,fun hclean => hclean hadm hrep jobId hid⟩
    cases hid.symm.trans hid'
    exact hclean
  | unchanged ht hw =>
    rw [cleanCall_target ht]
    refine ⟨fun _ _ w hw' => ?_,fun _ => hcomp⟩
    rw [hw] at hw'
    cases hw'
  | @performed _ w job ht hw hjob hch hacc =>
    rw [w.commit_logComplete_iff hs hjob hch hacc.2 hcomp, cleanCall_target ht]
    refine ⟨fun hfresh _ w' hw' => ?_,fun hclean => hclean hadm w hw⟩
    cases hw.symm.trans hw'
    exact hfresh
  | recovered hrec => exact (recover_complete_iff hs hrec hcomp).trans ⟨fun h _ => h,fun h => h hadm⟩

/-! ### Runs without chosen event ids -/

/-- A cancel that leaves the event id to the store, a create that does not name
the new job as its own parent, or any other call. -/
def Op.Keyless : Op → Prop
  | .create a => ∀ jobId, nonEmpty a.jobId = some jobId → a.parentJobId ≠ some jobId
  | .cancel _ key _ _ => nonEmpty key = none
  | _ => True

/-- Every stored event id is the automatic one of a version the job has reached. -/
def AutomaticIds (s : Store) : Prop :=
  ∀ e ∈ s.events.rows, e.eventId = defaultEventId e.jobId e.payload.type e.payload.version ∧
    e.payload.version ≤ versionOf (s.job? e.jobId)

theorem AutomaticIds.fresh (h : AutomaticIds s) {t : EventType} {v : ℕ}
    (hv : versionOf (s.job? id) < v) : ¬s.HasEvent (defaultEventId id t v) := by
  intro htaken
  obtain ⟨e,he,hid⟩ := hasEvent_iff.mp htaken
  obtain ⟨hauto,hle⟩ := h e he
  obtain ⟨hjob,-,hver⟩ := defaultEventId_inj (hauto.symm.trans hid)
  rw [hjob, hver] at hle
  omega

theorem AutomaticIds.unchanged (h : AutomaticIds s) (hrows : s'.events.rows = s.events.rows)
    (hmono : ∀ id, versionOf (s.job? id) ≤ versionOf (s'.job? id)) : AutomaticIds s' := by
  intro e he
  rw [hrows] at he
  obtain ⟨hauto,hle⟩ := h e he
  exact ⟨hauto,hle.trans (hmono _)⟩

theorem AutomaticIds.append (h : AutomaticIds s) {row : EventRow} (hrows : s'.events.rows = s.events.rows ++ [row])
    (hmono : ∀ id, versionOf (s.job? id) ≤ versionOf (s'.job? id))
    (hauto : row.eventId = defaultEventId row.jobId row.payload.type row.payload.version)
    (hle : row.payload.version ≤ versionOf (s'.job? row.jobId)) : AutomaticIds s' := by
  intro e he
  rw [hrows] at he
  rcases mem_append.mp he with he | he
  · obtain ⟨hauto',hle'⟩ := h e he
    exact ⟨hauto',hle'.trans (hmono _)⟩
  · cases mem_singleton.mp he
    exact ⟨hauto,hle⟩

theorem Effects.version_le (h : Effects c s s') (hs : s.Consistent c) (id : String) :
    versionOf (s.job? id) ≤ versionOf (s'.job? id) := (h.history hs id).version_le.1

theorem Write.stableId_automatic (w : Write) (h : nonEmpty w.eventId = none) :
    w.stableId = defaultEventId w.payload.jobId w.eventType w.payload.version := by
  unfold stableId stableEventId
  rw [h]
  rfl

theorem Write.commit_automaticIds (w : Write) {job : Job} (hs : s.Consistent c)
    (hjob : s.job? w.payload.jobId = some job) (hch : Change job w.eventType w.payload)
    (hval : c.validatePayload (w.persisted c s) = none) (hkey : nonEmpty w.eventId = none)
    (h : AutomaticIds s) : AutomaticIds (w.commit c s) := by
  have hmono := Effects.version_le (.single (.commit hjob hch hval)) hs
  by_cases ht : s.HasEvent w.stableId
  · exact h.unchanged (congrArg Table.rows (w.commit_events_taken (c := c) ht).1) hmono
  · refine h.append (w.commit_events_fresh (c := c) ht).1 hmono ?_ ?_
    · exact w.stableId_automatic hkey
    · change w.payload.version ≤ versionOf ((w.commit c s).job? w.payload.jobId)
      rw [w.commit_job?_self hs hjob]
      exact (w.persisted_version c s).ge

theorem Created.automaticIds {a : CreateArgs} {payload : Job} {s₁ s₂ : Store} {r : Job × Store}
    (h : Created c s a payload s₁ s₂ r) (hs : s.Consistent c) (hinit : payload.Initial c)
    (hself : a.parentJobId ≠ some payload.jobId) (hauto : AutomaticIds s) : AutomaticIds r.2 := by
  have hs₁ := h.inserted_consistent hs hinit
  have hs₂ := h.linked_consistent hs hinit
  have hins : AutomaticIds s₁ :=
    hauto.unchanged (congrArg Table.rows h.inserted_events.1)
      (Effects.version_le (.single (h.inserted_effect hinit)) hs)
  have hlinked : AutomaticIds s₂ := by
    rcases h.linked_cases hs hinit with ⟨-,rfl⟩ | ⟨parent,-,hparent,⟨-,rfl⟩ | ⟨hnew,hacc,rfl⟩⟩
    · exact hins
    · exact hins
    · exact commit_automaticIds _ hs₁ hparent (.childLinked hnew) hacc.2 rfl hins
  have hmono := (h.announced_effects hs hinit).version_le hs₂
  by_cases ht : s₂.HasEvent (defaultEventId payload.jobId .created payload.version)
  · rw [h.announced_taken ht]
    exact hlinked
  · refine hlinked.append (h.announced_rows hs hinit ht) hmono rfl ?_
    have hjob := h.linked_job? hs hinit hself
    have hle := hmono payload.jobId
    rw [hjob] at hle
    exact hle

theorem recover_automaticIds (hs : s.Consistent c) {now : ℤ} {n : ℕ}
    (h : recoverLostLeases c s now = .ok (n, s')) (hauto : AutomaticIds s) : AutomaticIds s' := by
  refine recover_rule (P := fun _ t => AutomaticIds t) (fun _ _ _ _ _ ht => ht) ?_ hs hauto h
  intro row rest t hpend hexp hacc ht
  obtain ⟨job,rfl,hjob,hch⟩ := hpend.change hexp
  exact commit_automaticIds _ hpend.consistent hjob hch hacc.2 rfl ht

theorem Op.Keyless.write {w : Write} (h : op.Keyless) (hw : op.write? s = some w) : nonEmpty w.eventId = none := by
  cases op with
  | create | recoverLostLeases => cases hw
  | cancel =>
    obtain ⟨job,-,rfl⟩ := map_eq_some_iff.mp hw
    exact h
  | _ =>
    obtain ⟨job,-,rfl⟩ := map_eq_some_iff.mp hw
    rfl

/-- Calls without ids of their own leave only automatic ids. -/
theorem step_automaticIds (hs : s.Consistent c) (hop : op.Keyless) (h : AutomaticIds s) :
    AutomaticIds (step c s op) := by
  rcases step_cases hs op with ⟨res,-,hout⟩ | ⟨-,hsame⟩
  case inr =>
    rw [hsame]
    exact h
  generalize step c s op = s' at hout
  cases hout with
  | replayed | unchanged => exact h
  | @created a jobId kind identity s₁ s₂ r hrep hid hm hval hcr =>
    exact hcr.automaticIds hs (newPayload_initial hid hm hval) (hop jobId hid) h
  | performed _ hw hjob hch hacc => exact commit_automaticIds _ hs hjob hch hacc.2 (hop.write hw) h
  | recovered hrec => exact recover_automaticIds hs hrec h

theorem write?_version (hs : s.Consistent c) {w : Write} (hw : op.write? s = some w) :
    versionOf (s.job? w.payload.jobId) < w.payload.version := by
  have hstored : ∀ {id : String} {job : Job}, s.job? id = some job →
    versionOf (s.job? job.jobId) < job.version + 1 := by
    intro id job hjob
    rw [hs.jobId_eq hjob, hjob]
    exact Nat.lt_succ_self _
  cases op with
  | create | recoverLostLeases => cases hw
  | cancel | retry =>
    obtain ⟨job,hjob,rfl⟩ := map_eq_some_iff.mp hw
    exact hstored (filter_eq_some_iff.mp hjob).1
  | _ =>
    obtain ⟨job,hjob,rfl⟩ := map_eq_some_iff.mp hw
    exact hstored hjob

theorem AutomaticIds.cleanCall (h : AutomaticIds s) (hs : s.Consistent c) (hop : op.Keyless) : CleanCall s op := by
  intro hadm
  cases op with
  | create =>
    intro hrep jobId hid
    obtain ⟨jobId',hid',-,-,hsome | hins⟩ := hadm
    · rw [hrep] at hsome
      cases hsome
    cases hid.symm.trans hid'
    refine ⟨hop jobId hid,h.fresh ?_,fun parent _ hparent _ => h.fresh ?_⟩
    · rw [hins.absent]
      exact Nat.one_pos
    · rw [hparent]
      exact Nat.lt_succ_self _
  | recoverLostLeases =>
    intro row hrow _
    obtain ⟨hmem,-⟩ := mem_runningRows.mp hrow
    obtain ⟨-,hjob⟩ := hs.find?_row (Table.find?_of_mem hmem)
    rw [lostWrite_stableId]
    refine h.fresh ?_
    rw [hs.jobId_eq hjob, hjob]
    exact Nat.lt_succ_self _
  | _ =>
    intro w hw
    rw [w.stableId_automatic (hop.write hw)]
    exact h.fresh (write?_version hs hw)

theorem keyless_clean (c : Contracts) {ops : List Op} (h : ∀ op ∈ ops, op.Keyless) :
    EachStep (step c) CleanCall Store.empty ops := by
  refine eachStep_of_invariant (I := fun s => s.Consistent c ∧ AutomaticIds s) ?_ ?_ ⟨consistent_empty c,?_⟩ h
  · rintro s op ⟨hs,hauto⟩ hop
    exact ⟨step_consistent s op hs,step_automaticIds hs hop hauto⟩
  · rintro s op ⟨hs,hauto⟩ hop
    exact hauto.cleanCall hs hop
  · intro e he
    cases he

/-- The logs are complete at every moment of a run exactly when every accepted call
of the run writes new event ids only and creates no job that is its own parent. -/
theorem log_complete_iff_clean_calls (c : Contracts) (hc : c.Accepts) (ops : List Op) :
    Always (step c) Store.LogComplete Store.empty ops ↔ EachStep (step c) CleanCall Store.empty ops := by
  refine always_iff_eachStep step_consistent (fun s op hs hcomp => step_complete_iff hc hs hcomp op)
    (consistent_empty c) ?_ ops
  intro id job hjob
  cases hjob

theorem keyless_run_log_complete : Always (step plainContracts) Store.LogComplete Store.empty
      [.create (.plain "a"), .create { CreateArgs.plain "b" with parentJobId := some "a" },
        .markRunning "a" "w" 10 1 (some 2), .recoverLostLeases 11, .retry "a" 12, .cancel "b" none 13 13] := by
  refine (log_complete_iff_clean_calls plainContracts plainContracts_accepts _).mpr (keyless_clean _ ?_)
  simp [Op.Keyless, CreateArgs.plain, nonEmpty]

/-- Two jobs canceled under one idempotency key: the second cancellation is stored
without an event. And a job that is its own parent: its events come as 2, 1. -/
theorem log_incomplete_on_collision_and_self_parent :
    ¬(run (step plainContracts) Store.empty [.create (.plain "a"), .create (.plain "b"),
      .cancel "a" (some "k") 1 1, .cancel "b" (some "k") 2 2]).LogComplete ∧
    ¬(run (step plainContracts) Store.empty
      [.create { CreateArgs.plain "a" with parentJobId := some "a" }]).LogComplete := by
  constructor
  · intro h
    have hver := h.versions "b" (by decide)
    revert hver
    decide
  · intro h
    have hver := h.versions "a" (by decide)
    revert hver
    decide

end OpenPine.Jobs
