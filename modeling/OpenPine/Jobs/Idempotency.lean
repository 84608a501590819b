import OpenPine.Jobs.EventLog
import OpenPine.Jobs.Returned

/-! # Idempotent creation

A create call under a key answers with the one job that carries the key. The store
looks up the empty key as if there were none, but the unique index treats it like
any other, so the second call under the empty key raises. The creation event can be
missing when a cancellation has chosen its id.
-/
namespace OpenPine.Jobs
open Runs List
variable {c : Contracts} {s s' : Store}

def Store.Carries (s : Store) (key : String) : Prop := ∃ row ∈ s.jobs.rows, row.idempotencyKey = some key

def CreateArgs.Rejected (s : Store) (a : CreateArgs) : Prop :=
  nonEmpty a.jobId = none ∨ a.kind ∉ jobKinds.map JobKind.value ∨ a.maxRetries < 0 ∨
    (∀ key, a.idempotencyKey = some key → ¬s.Carries key) ∧ ((∃ jobId, a.jobId = some jobId ∧ (s.job? jobId).isSome) ∨
        ∃ parentId, a.parentJobId = some parentId ∧ parentId ≠ "" ∧ a.jobId ≠ some parentId ∧ s.job? parentId = none)

theorem ofValue?_isSome_iff {kind : String} : (JobKind.ofValue? kind).isSome ↔ kind ∈ jobKinds.map JobKind.value := by
  unfold JobKind.ofValue?
  rw [List.find?_isSome, mem_map]
  simp

variable {a : CreateArgs} {job payload : Job} {s₁ s₂ : Store} {r : Job × Store} {id key : String}

theorem replayed_isSome_iff : (replayed s a).isSome ↔ ∃ key, a.idempotencyKey = some key ∧ key ≠ "" ∧
    s.Carries key := by
  unfold replayed
  constructor
  · intro h
    obtain ⟨job,hjob⟩ := Option.isSome_iff_exists.mp h
    obtain ⟨key,hkey,hfind⟩ := Option.bind_eq_some_iff.mp hjob
    obtain ⟨row,hrow,-⟩ := Option.map_eq_some_iff.mp hfind
    obtain ⟨hk,hne⟩ := nonEmpty_eq_some.mp hkey
    exact ⟨key,hk,hne,row,mem_of_find?_eq_some hrow,by simpa using List.find?_some hrow⟩
  · rintro ⟨key,hk,hne,row,hrow,hcar⟩
    rw [nonEmpty_eq_some.mpr ⟨hk,hne⟩]
    simp only [Option.bind_some, byIdempotencyInTransaction, Option.isSome_map, List.find?_isSome]
    exact ⟨row,hrow,by simpa using hcar⟩

theorem insertable_or_replayed_iff {jobId : String} (hjobId : a.jobId = some jobId)
    (hident : ∃ identity, a.identity = .ok identity) :
    (replayed s a).isSome ∨ a.Insertable s jobId ↔ ¬((∀ key, a.idempotencyKey = some key → ¬s.Carries key) ∧
        ((∃ jobId, a.jobId = some jobId ∧ (s.job? jobId).isSome) ∨
          ∃ parentId, a.parentJobId = some parentId ∧ parentId ≠ "" ∧ a.jobId ≠ some parentId ∧
            s.job? parentId = none)) ∧
      ¬(a.idempotencyKey = some "" ∧ s.Carries "") := by
  rw [replayed_isSome_iff]
  constructor
  · rintro (⟨key,hkey,hne,hcar⟩ | hins)
    · refine ⟨fun h => h.1 key hkey hcar,fun h => hne ?_⟩
      exact Option.some.inj (hkey.symm.trans h.1)
    · refine ⟨?_,?_⟩
      · rintro ⟨-,⟨jobId',hid',hsome⟩ | ⟨parentId,hp,hne,hother,hnone⟩⟩
        · cases hjobId.symm.trans hid'
          rw [hins.absent] at hsome
          cases hsome
        · rcases hins.parent parentId (nonEmpty_eq_some.mpr ⟨hp,hne⟩) with rfl | hsome
          · exact hother hjobId
          · rw [hnone] at hsome
            cases hsome
      · rintro ⟨hkey,row,hrow,hcar⟩
        have hnone := hins.unused row hrow (hcar.trans hkey.symm)
        rw [hkey] at hnone
        cases hnone
  · rintro ⟨hgood,hempty⟩
    by_cases hcar : ∃ key, a.idempotencyKey = some key ∧ s.Carries key
    · obtain ⟨key,hkey,hcar⟩ := hcar
      refine Or.inl ⟨key,hkey,?_,hcar⟩
      rintro rfl
      exact hempty ⟨hkey,hcar⟩
    · have hunused : ∀ key, a.idempotencyKey = some key → ¬s.Carries key := fun key hkey h => hcar ⟨key,hkey,h⟩
      refine Or.inr ⟨hident,?_,?_,?_⟩
      · intro row hrow he
        cases hkey : a.idempotencyKey with
        | none => rfl
        | some key => exact absurd ⟨row,hrow,he.trans hkey⟩ (hunused key hkey)
      · by_contra htaken
        exact hgood ⟨hunused,Or.inl ⟨jobId,hjobId,Option.isSome_iff_ne_none.mpr htaken⟩⟩
      · intro parentId hp
        obtain ⟨hp,hne⟩ := nonEmpty_eq_some.mp hp
        by_contra hbad
        rw [not_or, Option.not_isSome_iff_eq_none] at hbad
        refine hgood ⟨hunused,Or.inr ⟨parentId,hp,hne,fun he => hbad.1 ?_,hbad.2⟩⟩
        exact (Option.some.inj (hjobId.symm.trans he)).symm

theorem admissible_iff (hident : ∃ identity, a.identity = .ok identity) :
    a.Admissible s ↔ ¬a.Rejected s ∧ (nonEmpty a.jobId ≠ none → ¬(a.idempotencyKey = some "" ∧ s.Carries "")) := by
  unfold CreateArgs.Admissible CreateArgs.Rejected
  cases hid : nonEmpty a.jobId with
  | none => simp
  | some =>
    have hcore := insertable_or_replayed_iff (s := s) (nonEmpty_eq_some.mp hid).1 hident
    simp only [Option.some.injEq, exists_eq_left', ofValue?_isSome_iff, hcore, reduceCtorEq, false_or, not_or,
      not_not, Int.not_lt, ne_eq, not_false_eq_true, forall_const, and_assoc]

/-! ### Creation events -/

def creationEvents (s : Store) (id : String) : ℕ := (s.log id).countP (fun e => e.type = .created)

theorem Change.not_created {job' : Job} {e : EventType} (h : Change job e job') : e ≠ .created := by
  cases h <;> simp

def Announced (s : Store) : Prop := ∀ id job, s.job? id = some job → job.idempotencyKey ≠ none → creationEvents s id = 1

/-- Every job of the later file is a job of the earlier one, with the same creation events. -/
def Descends (s s' : Store) (id : String) : Prop :=
  creationEvents s' id = creationEvents s id ∧
  ∀ job', s'.job? id = some job' → ∃ job, s.job? id = some job ∧ SameIdentity job job'

theorem Descends.refl (s : Store) (id : String) : Descends s s id :=
  ⟨rfl,fun job hjob => ⟨job,hjob,⟨rfl,rfl,rfl,rfl,rfl⟩⟩⟩

theorem Descends.trans {t : Store} (h : Descends s s' id) (h' : Descends s' t id) : Descends s t id := by
  refine ⟨h'.1.trans h.1,fun job'' hjob'' => ?_⟩
  obtain ⟨job',hjob',hid'⟩ := h'.2 job'' hjob''
  obtain ⟨job,hjob,hid⟩ := h.2 job' hjob'
  exact ⟨job,hjob,hid.trans hid'⟩

theorem Announced.descends (h : Announced s) (hd : ∀ id, Descends s s' id) : Announced s' := by
  intro id job' hjob' hkey
  obtain ⟨job,hjob,hid⟩ := (hd id).2 job' hjob'
  rw [(hd id).1]
  exact h id job hjob (by rw [← hid.idempotencyKey]; exact hkey)

namespace Write
variable (w : Write) (hs : s.Consistent c) (hjob : s.job? w.payload.jobId = some job)
  (hch : Change job w.eventType w.payload) (hval : c.validatePayload (w.persisted c s) = none) (id : String)
include hs hjob hch hval

theorem commit_creationEvents : creationEvents (w.commit c s) id = creationEvents s id := by
  unfold creationEvents
  rw [w.commit_log hs hjob hch hval, countP_append]
  split
  · simp [Write.eventRow, hch.not_created]
  · simp

theorem commit_descends : Descends s (w.commit c s) id := by
  refine ⟨w.commit_creationEvents hs hjob hch hval id,fun job' hjob' => ?_⟩
  have hhist := Effect.history (.commit hjob hch hval) hs id
  cases hold : s.job? id with
  | none =>
    have hne : w.payload.jobId ≠ id := by
      rintro rfl
      rw [hjob] at hold
      cases hold
    rw [w.commit_job? (hs.job?_eq_some.mp hjob), if_neg hne, hold] at hjob'
    cases hjob'
  | some old =>
    rw [hold, hjob'] at hhist
    obtain ⟨new,hnew,hid⟩ := hhist.sameIdentity
    cases hnew
    exact ⟨old,rfl,hid⟩

end Write

theorem Created.creationEvents_eq
    (h : Created c s a payload s₁ s₂ r) (hs : s.Consistent c) (hinit : payload.Initial c) (id : String) :
    creationEvents r.2 id = creationEvents s id +
      if ¬s.HasEvent (defaultEventId payload.jobId .created 1) ∧ payload.jobId = id then 1 else 0 := by
  have hs₁ := h.inserted_consistent hs hinit
  have hlinked : creationEvents s₂ id = creationEvents s id := by
    have hins : creationEvents s₁ id = creationEvents s id := congrArg (List.countP _) (h.inserted_log id)
    rcases h.linked_cases hs hinit with ⟨-,rfl⟩ | ⟨parent,-,hparent,⟨-,rfl⟩ | ⟨hnew,hacc,rfl⟩⟩
    · exact hins
    · exact hins
    · exact (Write.commit_creationEvents _ hs₁ hparent (.childLinked hnew) hacc.2 id).trans hins
  rw [← hlinked, ← hinit.fresh.version]
  unfold creationEvents
  rw [h.announced_log hs hinit, countP_append]
  split
  · simp [createdEvent, hinit.fresh.version]
  · simp

theorem recover_descends (hs : s.Consistent c) {now : ℤ} {n : ℕ}
    (h : recoverLostLeases c s now = .ok (n, s')) (id : String) : Descends s s' id := by
  refine recover_rule (P := fun _ t => Descends s t id) (fun _ _ _ _ _ ht => ht) ?_ hs (.refl s id) h
  intro row rest t hpend hexp hacc ht
  obtain ⟨job,rfl,hjob,hch⟩ := hpend.change hexp
  exact ht.trans (Write.commit_descends _ hpend.consistent hjob hch hacc.2 id)

theorem Created.descends
    (h : Created c s a payload s₁ s₂ r) (hs : s.Consistent c) (hinit : payload.Initial c) (hne : payload.jobId ≠ id) :
    Descends s r.2 id := by
  have hs₁ := h.inserted_consistent hs hinit
  refine ⟨?_,?_⟩
  · rw [h.creationEvents_eq hs hinit]
    simp [hne]
  · intro job hjob
    rw [h.announced_job?_other hs hinit hne] at hjob
    have hlinked : Descends s₁ s₂ id := by
      rcases h.linked_cases hs hinit with ⟨-,rfl⟩ | ⟨parent,-,hparent,⟨-,rfl⟩ | ⟨hnew,hacc,rfl⟩⟩
      · exact .refl _ id
      · exact .refl _ id
      · exact Write.commit_descends _ hs₁ hparent (.childLinked hnew) hacc.2 id
    have hold := hlinked.2 job hjob
    rwa [h.inserted_job?, if_neg hne] at hold

/-! ### The rows that carry a key -/

theorem rows_carrying (hs : s.Consistent c) (hjob : s.job? id = some job) (hkey : job.idempotencyKey = some key) :
    (s.jobs.rows.filter (fun r => r.idempotencyKey = some key)).map JobRow.jobId = [id] := by
  have hrow := Table.mem_of_find? (hs.job?_eq_some.mp hjob)
  have hid := hs.jobId_eq hjob
  have hmem : rowOf job ∈ s.jobs.rows.filter (fun r => r.idempotencyKey = some key) :=
    mem_filter.mpr ⟨hrow,decide_eq_true hkey⟩
  have hall : ∀ x ∈ (s.jobs.rows.filter (fun r => r.idempotencyKey = some key)).map JobRow.jobId, x = id := by
    intro x hx
    obtain ⟨row,hr,rfl⟩ := mem_map.mp hx
    obtain ⟨hr,hk⟩ := mem_filter.mp hr
    have hk' : row.idempotencyKey = some key := of_decide_eq_true hk
    rw [← hid]
    refine hs.jobs.keys row hr _ hrow (hk'.trans hkey.symm) ?_
    simp [hk']
  have hnodup : ((s.jobs.rows.filter (fun r => r.idempotencyKey = some key)).map JobRow.jobId).Nodup :=
    s.jobs.nodup.sublist (filter_sublist.map _)
  have hrep := eq_replicate_of_mem hall
  rw [hrep, nodup_replicate] at hnodup
  have hpos := length_pos_of_mem (mem_map_of_mem (f := JobRow.jobId) hmem)
  rw [hrep, Nat.le_antisymm hnodup hpos]
  rfl

/-! ### One call -/

/-- What a create call promises: it raises exactly when it should and then changes
nothing, and under a key it answers with the one job that carries the key. -/
structure CreateSpec (c : Contracts) (s : Store) (a : CreateArgs) : Prop where
  raises : (∃ e, create c s a = .error e) ↔ a.Rejected s
  atomic : ∀ e, create c s a = .error e → step c s (.create a) = s
  keyed : ∀ key job s', a.idempotencyKey = some key → create c s a = .ok (job, s') →
    (s'.jobs.rows.filter (fun r => r.idempotencyKey = some key)).map JobRow.jobId = [job.jobId] ∧
    creationEvents s' job.jobId = 1 ∧
    (s.Carries key → s' = s) ∧
    ∀ later a' job' s'', a'.idempotencyKey = some key → create c (run (step c) s' later) a' = .ok (job', s'') →
      job'.jobId = job.jobId ∧ s'' = run (step c) s' later

/-- The empty key is not used a second time, and no cancellation has taken the id
of the creation event. -/
def SoundCreate (s : Store) (a : CreateArgs) : Prop :=
  ¬a.Rejected s → ∀ key jobId, a.idempotencyKey = some key → a.jobId = some jobId →
    (s.Carries key → key ≠ "") ∧ (¬s.Carries key → ¬s.HasEvent (defaultEventId jobId .created 1))

theorem create_carried (hs : s.Consistent c)
    (hkey : a.idempotencyKey = some key) (hcar : s.Carries key) (h : create c s a = .ok (job, s')) :
    s' = s ∧ s.job? job.jobId = some job ∧ job.idempotencyKey = some key := by
  obtain ⟨jobId,kind,-,-,-,⟨existing,hrep,hr⟩ | ⟨-,identity,-,-,s₁,s₂,hcr⟩⟩ := create_ok_iff.mp h
  · cases hr
    obtain ⟨hk,hjob⟩ := replayed_eq_some hs hrep
    exact ⟨rfl,hjob,hk.symm.trans hkey⟩
  · obtain ⟨row,hrow,hrowKey⟩ := hcar
    have hnone := (insertJob_eq_some hcr.inserted).1 row hrow (hrowKey.trans hkey.symm)
    have hsome : (rowOf (newPayload c a jobId kind identity)).idempotencyKey = some key := hkey
    rw [hsome] at hnone
    cases hnone

theorem create_uncarried (hkey : a.idempotencyKey = some key) (hcar : ¬s.Carries key) (h : create c s a = .ok r) :
    ∃ jobId kind identity s₁ s₂, a.jobId = some jobId ∧ (newPayload c a jobId kind identity).Initial c ∧
      Created c s a (newPayload c a jobId kind identity) s₁ s₂ r := by
  obtain ⟨jobId,kind,hid,-,hm,⟨existing,hrep,-⟩ | ⟨-,identity,-,hval,s₁,s₂,hcr⟩⟩ := create_ok_iff.mp h
  · obtain ⟨key',hkey',-,hcar'⟩ := replayed_isSome_iff.mp (Option.isSome_of_eq_some hrep)
    cases hkey.symm.trans hkey'
    exact absurd hcar' hcar
  · exact ⟨jobId,kind,identity,s₁,s₂,(nonEmpty_eq_some.mp hid).1,newPayload_initial hid hm hval,hcr⟩

theorem Created.stored (h : Created c s a payload s₁ s₂ r) (hs : s.Consistent c) (hinit : payload.Initial c) :
    r.1.jobId = payload.jobId ∧ ∃ job, r.2.job? payload.jobId = some job ∧ SameIdentity payload job := by
  have hs₁ := h.inserted_consistent hs hinit
  have hjob : s₁.job? payload.jobId = some payload := by rw [h.inserted_job?, if_pos rfl]
  have heff : Effects c s₁ r.2 := (h.linked_effects hs hinit).trans (h.announced_effects hs hinit)
  have hhist := heff.history hs₁ payload.jobId
  rw [hjob] at hhist
  exact ⟨(h.returned_iff hs hinit).1,hhist.sameIdentity⟩

section
variable (hs : s.Consistent c) (hkey : a.idempotencyKey = some key) (h : create c s a = .ok (job, s'))
include hs hkey h

theorem create_stored : s'.Consistent c ∧ ∃ stored, s'.job? job.jobId = some stored ∧
    stored.idempotencyKey = some key := by
  by_cases hcar : s.Carries key
  · obtain ⟨rfl,hjob,hk⟩ := create_carried hs hkey hcar h
    exact ⟨hs,job,hjob,hk⟩
  · obtain ⟨jobId,kind,identity,s₁,s₂,hid,hinit,hcr⟩ := create_uncarried hkey hcar h
    obtain ⟨hret,stored,hstored,hsame⟩ := hcr.stored hs hinit
    refine ⟨(hcr.effects hs hinit).consistent hs,stored,?_,hsame.idempotencyKey.trans hkey⟩
    rw [hret]
    exact hstored

theorem create_again {a' : CreateArgs} {job' : Job} {s'' : Store} (later : List Op)
    (hkey' : a'.idempotencyKey = some key) (h' : create c (run (step c) s' later) a' = .ok (job', s'')) :
    job'.jobId = job.jobId ∧ s'' = run (step c) s' later := by
  obtain ⟨hs',stored,hstored,hk⟩ := create_stored hs hkey h
  have ht : (run (step c) s' later).Consistent c := run_invariant step_consistent hs' later
  have hhist := run_history hs' later job.jobId
  rw [hstored] at hhist
  obtain ⟨now,hnow,hsame⟩ := hhist.sameIdentity
  have hknow := hsame.idempotencyKey.trans hk
  have hcar : (run (step c) s' later).Carries key := ⟨rowOf now,Table.mem_of_find? (ht.job?_eq_some.mp hnow),hknow⟩
  obtain ⟨hsame',hjob',hk'⟩ := create_carried ht hkey' hcar h'
  have hrows := (rows_carrying ht hjob' hk').symm.trans (rows_carrying ht hnow hknow)
  exact ⟨(List.cons.inj hrows).1,hsame'⟩

end

theorem create_raises_iff (hc : c.Accepts) (hs : s.Consistent c) (hident : ∃ identity, a.identity = .ok identity) :
    (∃ e, create c s a = .error e) ↔ a.Rejected s ∨ nonEmpty a.jobId ≠ none ∧ a.idempotencyKey = some "" ∧
      s.Carries "" := by
  have hok := (create_succeeds_iff hc hs).trans (admissible_iff (s := s) hident)
  have hflip : (∃ e, create c s a = .error e) ↔ ¬∃ r, create c s a = .ok r := by
    cases create c s a with
    | error | ok => simp
  rw [hflip, hok]
  tauto

theorem Created.new_creationEvents (h : Created c s a payload s₁ s₂ r) (hs : s.Consistent c)
    (hinit : payload.Initial c) :
    creationEvents r.2 payload.jobId = 1 ↔ ¬s.HasEvent (defaultEventId payload.jobId .created 1) := by
  have hnone : creationEvents s payload.jobId = 0 := by
    unfold creationEvents
    rw [log_absent hs h.absent]
    rfl
  rw [h.creationEvents_eq hs hinit, hnone]
  simp

theorem CreateSpec.sound (hspec : CreateSpec c s a) (hc : c.Accepts) (hs : s.Consistent c)
    (hident : ∃ identity, a.identity = .ok identity) : SoundCreate s a := by
  intro hgood key jobId hkey hjobId
  refine ⟨?_,fun hcar => ?_⟩
  · rintro hcar rfl
    have hnamed : nonEmpty a.jobId ≠ none := fun h => hgood (Or.inl h)
    exact hgood (hspec.raises.mp ((create_raises_iff hc hs hident).mpr (Or.inr ⟨hnamed,hkey,hcar⟩)))
  · cases hcall : create c s a with
    | error e => exact absurd (hspec.raises.mp ⟨e,hcall⟩) hgood
    | ok r =>
      obtain ⟨jobId',kind,identity,s₁,s₂,hid,hinit,hcr⟩ := create_uncarried hkey hcar hcall
      cases hid.symm.trans hjobId
      have hone := (hspec.keyed key r.1 r.2 hkey hcall).2.1
      rw [(hcr.stored hs hinit).1] at hone
      exact (hcr.new_creationEvents hs hinit).mp hone

theorem SoundCreate.raises (hsound : SoundCreate s a) (hc : c.Accepts) (hs : s.Consistent c)
    (hident : ∃ identity, a.identity = .ok identity) : (∃ e, create c s a = .error e) ↔ a.Rejected s := by
  rw [create_raises_iff hc hs hident]
  refine ⟨fun h => h.elim id ?_,Or.inl⟩
  -- the empty key in use is the one case that the store rejects and the specification does not
  rintro ⟨hnamed,hkey,hcar⟩
  by_contra hgood
  obtain ⟨jobId,hid⟩ := Option.ne_none_iff_exists'.mp hnamed
  exact (hsound hgood "" jobId hkey (nonEmpty_eq_some.mp hid).1).1 hcar rfl

theorem SoundCreate.creationEvents (hsound : SoundCreate s a)
    (hs : s.Consistent c) (hann : Announced s) (hgood : ¬a.Rejected s) (hkey : a.idempotencyKey = some key)
    (h : create c s a = .ok (job, s')) : creationEvents s' job.jobId = 1 := by
  by_cases hcar : s.Carries key
  · obtain ⟨rfl,hjob,hk⟩ := create_carried hs hkey hcar h
    exact hann _ _ hjob (by simp [hk])
  · obtain ⟨jobId,kind,identity,s₁,s₂,hid,hinit,hcr⟩ := create_uncarried hkey hcar h
    have hret : job.jobId = _ := (hcr.stored hs hinit).1
    rw [hret]
    exact (hcr.new_creationEvents hs hinit).mpr ((hsound hgood key jobId hkey hid).2 hcar)

theorem createSpec_iff (hc : c.Accepts) (hs : s.Consistent c) (hann : Announced s)
    (hident : ∃ identity, a.identity = .ok identity) : CreateSpec c s a ↔ SoundCreate s a := by
  refine ⟨fun hspec => hspec.sound hc hs hident,fun hsound => ?_⟩
  have hraises := hsound.raises hc hs hident
  refine ⟨hraises,fun e he => ?_,fun key job s' hkey h => ?_⟩
  · simp [step, exec, he, jobResult, Except.map]
  · have hgood : ¬a.Rejected s := by
      intro hrej
      obtain ⟨e,he⟩ := hraises.mpr hrej
      rw [he] at h
      cases h
    obtain ⟨hs',stored,hstored,hk⟩ := create_stored hs hkey h
    exact ⟨rows_carrying hs' hstored hk,hsound.creationEvents hs hann hgood hkey h,
      fun hcar => (create_carried hs hkey hcar h).1,
      fun later a' job' s'' hkey' h' => create_again hs hkey h later hkey' h'⟩

/-! ### Whole runs -/

def Op.Identified (op : Op) : Prop := ∀ a, op = .create a → ∃ identity, a.identity = .ok identity

/-- Under sound calls every job with a key has one creation event. -/
theorem step_announced (hc : c.Accepts) (hs : s.Consistent c) (hann : Announced s) {op : Op} (hop : op.Identified)
    (hsound : ∀ a, op = .create a → SoundCreate s a) : Announced (step c s op) := by
  rcases step_cases hs op with ⟨res,hok,hout⟩ | ⟨-,hsame⟩
  case inr =>
    rw [hsame]
    exact hann
  have hadm : op.Admissible s := (exec_succeeds_iff hc hs op).mp ⟨_,hok⟩
  generalize step c s op = s' at hout
  cases hout with
  | replayed | unchanged => exact hann
  | @created a jobId kind identity s₁ s₂ r hrep hid hm hval hcr =>
    have hinit := newPayload_initial hid hm hval
    intro id job hjob hkey
    by_cases he : (newPayload c a jobId kind identity).jobId = id
    · subst he
      obtain ⟨-,stored,hstored,hsame⟩ := hcr.stored hs hinit
      cases hstored.symm.trans hjob
      rw [hsame.idempotencyKey] at hkey
      obtain ⟨key,hkey⟩ := Option.ne_none_iff_exists'.mp hkey
      have hgood := ((admissible_iff (hop a rfl)).mp hadm).1
      refine (hcr.new_creationEvents hs hinit).mpr ?_
      refine (hsound a rfl hgood key jobId hkey (nonEmpty_eq_some.mp hid).1).2 ?_
      rintro ⟨row,hrow,hrowKey⟩
      have hnone := (insertJob_eq_some hcr.inserted).1 row hrow (hrowKey.trans hkey.symm)
      rw [rowOf_idempotencyKey, hkey] at hnone
      cases hnone
    · obtain ⟨hcount,hjobs⟩ := hcr.descends hs hinit he
      obtain ⟨old,hold,hsame⟩ := hjobs job hjob
      rw [hcount]
      exact hann id old hold (by rw [← hsame.idempotencyKey]; exact hkey)
  | performed _ _ hjob hch hacc => exact hann.descends (Write.commit_descends _ hs hjob hch hacc.2)
  | recovered hrec => exact hann.descends (recover_descends hs hrec)

theorem keyless_sound (c : Contracts) {ops : List Op}
    (h : ∀ op ∈ ops, op.Keyless ∧ ∀ a, op = .create a → a.idempotencyKey ≠ some "") :
    EachStep (step c) (fun s op => ∀ a, op = .create a → SoundCreate s a) Store.empty ops := by
  refine eachStep_of_invariant (I := fun s => s.Consistent c ∧ AutomaticIds s) ?_ ?_ ⟨consistent_empty c,?_⟩ h
  · rintro s op ⟨hs,hauto⟩ ⟨hop,-⟩
    exact ⟨step_consistent s op hs,step_automaticIds hs hop hauto⟩
  · rintro s _ ⟨hs,hauto⟩ ⟨-,hempty⟩ a rfl hgood key jobId hkey hjobId
    refine ⟨fun _ he => hempty a rfl (by rw [hkey, he]),fun hcar => hauto.fresh ?_⟩
    have habsent : s.job? jobId = none := by
      by_contra htaken
      refine hgood (Or.inr (Or.inr (Or.inr ⟨fun key' hkey' => ?_,Or.inl ⟨jobId,hjobId,?_⟩⟩)))
      · cases hkey.symm.trans hkey'
        exact hcar
      · exact Option.isSome_iff_ne_none.mpr htaken
    rw [habsent]
    exact Nat.one_pos
  · intro e he
    cases he

/-- Along any run, every create call keeps its promise exactly when every create call
of the run is sound. -/
theorem create_idempotent_iff_sound (c : Contracts) (hc : c.Accepts) (ops : List Op)
    (hident : ∀ op ∈ ops, op.Identified) :
    EachStep (step c) (fun s op => ∀ a, op = .create a → CreateSpec c s a) Store.empty ops ↔
      EachStep (step c) (fun s op => ∀ a, op = .create a → SoundCreate s a) Store.empty ops := by
  refine eachStep_congr (I := fun s => s.Consistent c ∧ Announced s) ?_ ?_ ⟨consistent_empty c,?_⟩ hident
  · rintro s op ⟨hs,hann⟩ hop hsound
    exact ⟨step_consistent s op hs,step_announced hc hs hann hop hsound⟩
  · rintro s op ⟨hs,hann⟩ hop
    refine forall_congr' fun a => forall_congr' fun he => ?_
    exact createSpec_iff hc hs hann (hop a he)
  · intro id job hjob
    cases hjob

theorem repeated_create_idempotent :
    EachStep (step plainContracts) (fun s op => ∀ a, op = .create a → CreateSpec plainContracts s a) Store.empty
      [.create { CreateArgs.plain "a" with idempotencyKey := some "k" }, .markRunning "a" "w" 10 1 none,
        .create { CreateArgs.plain "b" with idempotencyKey := some "k" }] := by
  refine (create_idempotent_iff_sound plainContracts plainContracts_accepts _ ?_).mpr (keyless_sound _ ?_)
  · simp [Op.Identified, CreateArgs.plain]
  · simp [Op.Keyless, CreateArgs.plain]

/-- The second call under the empty key raises although it should be replayed, and a
job whose creation event id a cancellation took has no creation event. -/
theorem create_not_idempotent : (create plainContracts
        (run (step plainContracts) Store.empty [.create { CreateArgs.plain "a" with idempotencyKey := some "" }])
        { CreateArgs.plain "b" with idempotencyKey := some "" } = .error (.jobAlreadyExists "b") ∧
      ¬CreateArgs.Rejected
        (run (step plainContracts) Store.empty [.create { CreateArgs.plain "a" with idempotencyKey := some "" }])
        { CreateArgs.plain "b" with idempotencyKey := some "" }) ∧
    ∃ job s', create plainContracts
        (run (step plainContracts) Store.empty [.create (.plain "a"), .cancel "a" (some "b:created:v1") 1 1])
        { CreateArgs.plain "b" with idempotencyKey := some "k" } = .ok (job, s') ∧
      creationEvents s' job.jobId = 0 := by
  refine ⟨⟨rfl,?_⟩,⟨_,_,rfl,?_⟩⟩
  · rintro (h | h | h | ⟨h,-⟩)
    · cases h
    · revert h
      decide
    · cases h
    · refine h "" rfl ?_
      unfold Store.Carries
      decide
  · decide

end OpenPine.Jobs
