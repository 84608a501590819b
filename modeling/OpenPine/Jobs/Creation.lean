import OpenPine.Jobs.Operations

/-! # What `create` accepts, and what it then writes

A replayed key returns the stored job. Otherwise the sealed payload is inserted,
the parent, if there is one, gets a new child, and the creation event is appended.
A job may name itself as its parent: its own row is then at version two when the
creation event is appended, and the final UPDATE of version one finds nothing.
-/
namespace OpenPine.Jobs
open Python
variable {c : Contracts} {s : Store} {jobId : String} {a : CreateArgs}

/-- The stored job that a call with this idempotency key is answered with. -/
def replayed (s : Store) (a : CreateArgs) : Option Job :=
  (nonEmpty a.idempotencyKey).bind (byIdempotencyInTransaction s)

def newPayload (c : Contracts) (a : CreateArgs) (jobId : String) (kind : JobKind) (identity : BuildIdentity) :
    Job := sealContentHash c (newJob c a jobId kind identity)

/-- What happens between the INSERT and the return of `create`. -/
structure Created (c : Contracts) (s : Store) (a : CreateArgs) (payload : Job) (s₁ s₂ : Store)
    (r : Job × Store) : Prop where
  inserted : s.insertJob (rowOf payload) = some s₁
  linked : linkParent c s₁ a.parentJobId payload.jobId a.now = .ok s₂
  announced : appendEventInTransaction c s₂ payload.jobId .created payload none = .ok r

/-- A creation replays the job of its key or inserts a new one. -/
theorem create_ok_iff {r : Job × Store} : create c s a = .ok r ↔
      ∃ jobId kind, nonEmpty a.jobId = some jobId ∧ JobKind.ofValue? a.kind = some kind ∧ 0 ≤ a.maxRetries ∧
        ((∃ existing, replayed s a = some existing ∧ r = (existing, s)) ∨
          replayed s a = none ∧ ∃ identity, a.identity = .ok identity ∧
            c.validatePayload (newPayload c a jobId kind identity) = none ∧
            ∃ s₁ s₂, Created c s a (newPayload c a jobId kind identity) s₁ s₂ r) := by
  unfold create
  cases hid : nonEmpty a.jobId with
  | none => simp
  | some jobId =>
    cases hkind : JobKind.ofValue? a.kind with
    | none => simp
    | some kind =>
      by_cases hm : a.maxRetries < 0
      · have hm' : ¬0 ≤ a.maxRetries := by omega
        simp [hm, hm']
      · have hm' : 0 ≤ a.maxRetries := by omega
        simp only [hm, hm', if_false, Option.some.injEq, exists_and_left, exists_eq_left', true_and]
        unfold createInTransaction
        rw [← replayed]
        cases hrep : replayed s a with
        | some => simp [eq_comm]
        | none =>
          simp only [reduceCtorEq, false_and, exists_false, false_or, true_and, bind_eq_ok]
          constructor
          · rintro ⟨payload,henv,h⟩
            unfold envelope at henv
            cases hident : a.identity with
            | error => simp [hident] at henv
            | ok identity =>
              simp only [hident, rehash_ok_iff] at henv
              obtain ⟨hval,rfl⟩ := henv
              refine ⟨identity,rfl,hval,?_⟩
              cases hins : s.insertJob (rowOf (sealContentHash c (newJob c a jobId kind identity))) with
              | none => simp [hins] at h
              | some s₁ =>
                simp only [hins, bind_eq_ok] at h
                obtain ⟨s₂,hlink,happ⟩ := h
                exact ⟨s₁,s₂,⟨hins,hlink,happ⟩⟩
          · rintro ⟨identity,hident,hval,s₁,s₂,hins,hlink,happ⟩
            refine ⟨newPayload c a jobId kind identity,?_,?_⟩
            · simp only [envelope, hident, rehash_ok_iff]
              exact ⟨hval,rfl⟩
            · simp only [hins, bind_eq_ok]
              exact ⟨s₂,hlink,happ⟩

structure Job.Initial (c : Contracts) (payload : Job) : Prop where
  fresh : payload.Fresh
  named : payload.jobId ≠ ""
  accepted : c.validatePayload payload = none

theorem newPayload_initial {kind : JobKind} {identity : BuildIdentity} (hid : nonEmpty a.jobId = some jobId)
    (hm : 0 ≤ a.maxRetries) (hval : c.validatePayload (newPayload c a jobId kind identity) = none) :
    (newPayload c a jobId kind identity).Initial c :=
  ⟨⟨rfl,rfl,rfl,rfl,rfl,⟨a.maxRetries,rfl,hm⟩,rfl,rfl⟩,(nonEmpty_eq_some.mp hid).2,hval⟩

theorem linkParent_ok_iff (hs : s.Consistent c) {parentJobId : Option String} {now : ℤ} {s' : Store} :
    linkParent c s parentJobId jobId now = .ok s' ↔ nonEmpty parentJobId = none ∧ s' = s ∨
      ∃ parentId parent, nonEmpty parentJobId = some parentId ∧ s.job? parentId = some parent ∧
        (jobId ∈ parent.childJobIds ∧ s' = s ∨ jobId ∉ parent.childJobIds ∧
          (childLinkedWrite parent jobId now).Accepted c s ∧
            s' = (childLinkedWrite parent jobId now).commit c s) := by
  unfold linkParent
  cases hp : nonEmpty parentJobId with
  | none => simp [eq_comm]
  | some parentId =>
    simp only [reduceCtorEq, false_and, false_or, Option.some.injEq, exists_and_left, exists_eq_left',
      bind_eq_ok, getInTransaction_ok_iff hs]
    refine exists_congr fun parent => and_congr_right fun hparent => ?_
    by_cases hc : jobId ∈ parent.childJobIds
    · simp [hc, eq_comm]
    · have hid := hs.jobId_eq hparent
      have hw : s.job? (childLinkedWrite parent jobId now).payload.jobId = some parent := by
        change s.job? parent.jobId = some parent
        rw [hid, hparent]
      have hpair := fun r => storeThenAppend_stored_iff (r := r) hs hw
      have hname : (childLinkedWrite parent jobId now).payload.jobId = parentId := hid
      rw [hname] at hpair
      simp only [hc, if_false, false_and, false_or, not_false_eq_true, true_and]
      constructor
      · intro h
        obtain ⟨p,hst,hrest⟩ := bind_eq_ok.mp h
        obtain ⟨q,happ,hs'⟩ := bind_eq_ok.mp hrest
        obtain ⟨hacc,rfl⟩ := (hpair q).mp (bind_eq_ok.mpr ⟨p,hst,happ⟩)
        cases hs'
        exact ⟨hacc,rfl⟩
      · rintro ⟨hacc,rfl⟩
        obtain ⟨p,hst,happ⟩ := bind_eq_ok.mp ((hpair _).mpr ⟨hacc,rfl⟩)
        exact bind_eq_ok.mpr ⟨p,hst,bind_eq_ok.mpr ⟨_,happ,rfl⟩⟩

def createdEvent (s : Store) (payload : Job) : EventRow :=
  let stable := defaultEventId payload.jobId .created payload.version
  ⟨s.lastSeq + 1,stable,payload.jobId, ⟨stable,s.lastSeq + 1,.created,payload.jobId,payload.state,payload.version⟩⟩

def announcedPayload (c : Contracts) (payload : Job) : Job :=
  sealContentHash c (payload.withCursor (defaultEventId payload.jobId .created payload.version))

namespace Created
variable {a : CreateArgs} {payload : Job} {s₁ s₂ : Store} {r : Job × Store} (h : Created c s a payload s₁ s₂ r)
include h

theorem absent : s.job? payload.jobId = none := by
  obtain ⟨-,jobs,hins,-⟩ := insertJob_eq_some h.inserted
  exact job?_eq_none.mpr (Table.insert?_fresh hins)

theorem inserted_job? (id : String) : s₁.job? id = if payload.jobId = id then some payload else s.job? id := by
  obtain ⟨-,jobs,hins,rfl⟩ := insertJob_eq_some h.inserted
  have hfind := Table.find?_insert? hins id
  unfold Store.job?
  rw [hfind, rowOf_jobId]
  split
  · rfl
  · rfl

theorem inserted_events : s₁.events = s.events ∧ s₁.lastSeq = s.lastSeq := by
  obtain ⟨-,jobs,-,rfl⟩ := insertJob_eq_some h.inserted
  exact ⟨rfl,rfl⟩

variable (hs : s.Consistent c) (hinit : payload.Initial c)
include hs hinit

omit hs in
theorem inserted_effect : Effect c s s₁ := .insert hinit.fresh hinit.named hinit.accepted h.inserted

theorem inserted_consistent : s₁.Consistent c := (h.inserted_effect hinit).consistent hs

theorem linked_cases : nonEmpty a.parentJobId = none ∧ s₂ = s₁ ∨
    ∃ parent, nonEmpty a.parentJobId = some parent.jobId ∧ s₁.job? parent.jobId = some parent ∧
      (payload.jobId ∈ parent.childJobIds ∧ s₂ = s₁ ∨
        payload.jobId ∉ parent.childJobIds ∧ (childLinkedWrite parent payload.jobId a.now).Accepted c s₁ ∧
          s₂ = (childLinkedWrite parent payload.jobId a.now).commit c s₁) := by
  have hs₁ := h.inserted_consistent hs hinit
  rcases (linkParent_ok_iff hs₁).mp h.linked with hnone | ⟨parentId,parent,hp,hparent,hrest⟩
  · exact Or.inl hnone
  · have hid := hs₁.jobId_eq hparent
    subst hid
    exact Or.inr ⟨parent,hp,hparent,hrest⟩

theorem linked_effects : Effects c s₁ s₂ := by
  rcases h.linked_cases hs hinit with ⟨-,rfl⟩ | ⟨parent,-,hparent,⟨-,rfl⟩ | ⟨hnew,hacc,rfl⟩⟩
  · exact .refl
  · exact .refl
  · exact .single (.commit hparent (.childLinked hnew) hacc.2)

theorem linked_consistent : s₂.Consistent c := (h.linked_effects hs hinit).consistent (h.inserted_consistent hs hinit)

theorem linked_job? (hself : a.parentJobId ≠ some payload.jobId) : s₂.job? payload.jobId = some payload := by
  have hs₁ := h.inserted_consistent hs hinit
  have hjob : s₁.job? payload.jobId = some payload := by rw [h.inserted_job?, if_pos rfl]
  rcases h.linked_cases hs hinit with ⟨-,rfl⟩ | ⟨parent,hp,hparent,⟨-,rfl⟩ | ⟨-,-,rfl⟩⟩
  · exact hjob
  · exact hjob
  · have hne : (childLinkedWrite parent payload.jobId a.now).payload.jobId ≠ payload.jobId := by
      intro he
      apply hself
      rw [(nonEmpty_eq_some.mp hp).1]
      exact congrArg some he
    rw [Write.commit_job? _ (hs₁.job?_eq_some.mp hparent), if_neg hne, hjob]

theorem linked_job?_self (hself : a.parentJobId = some payload.jobId) :
    s₂ = (childLinkedWrite payload payload.jobId a.now).commit c s₁ ∧
    s₂.job? payload.jobId = some ((childLinkedWrite payload payload.jobId a.now).persisted c s₁) := by
  have hs₁ := h.inserted_consistent hs hinit
  have hjob : s₁.job? payload.jobId = some payload := by rw [h.inserted_job?, if_pos rfl]
  have hp : nonEmpty a.parentJobId = some payload.jobId := nonEmpty_eq_some.mpr ⟨hself,hinit.named⟩
  rcases h.linked_cases hs hinit with ⟨hnone,-⟩ | ⟨parent,hp',hparent,hrest⟩
  · rw [hp] at hnone
    cases hnone
  · have hid : payload.jobId = parent.jobId := Option.some.inj (hp.symm.trans hp')
    rw [← hid, hjob] at hparent
    cases hparent
    rcases hrest with ⟨hmem,-⟩ | ⟨-,-,rfl⟩
    · rw [hinit.fresh.childJobIds] at hmem
      cases hmem
    · refine ⟨rfl,?_⟩
      rw [Write.commit_job? _ (hs₁.job?_eq_some.mp hjob)]
      exact if_pos rfl

omit hs hinit in
theorem announced_taken
    (ht : s₂.HasEvent (defaultEventId payload.jobId .created payload.version)) :
    r = (payload.withCursor (defaultEventId payload.jobId .created payload.version), s₂) := by
  have happ := append_taken c s₂ payload.jobId .created payload none ht
  exact (Except.ok.inj (happ.symm.trans h.announced)).symm

omit hs hinit in
theorem announced_fresh
    (ht : ¬s₂.HasEvent (defaultEventId payload.jobId .created payload.version)) :
    c.validatePayload (announcedPayload c payload) = none ∧
    r = (announcedPayload c payload, (s₂.withEvent (createdEvent s₂ payload)).updatePayload
      payload.jobId payload.version (announcedPayload c payload)) :=
  (append_fresh_iff c s₂ payload.jobId .created payload none ht).mp h.announced

section
variable (ht : ¬s₂.HasEvent (defaultEventId payload.jobId .created payload.version))
include ht

theorem announced_fresh_other (hself : a.parentJobId ≠ some payload.jobId) :
    r = (announcedPayload c payload, { s₂.withEvent (createdEvent s₂ payload) with
      jobs := s₂.jobs.set (rowOf (announcedPayload c payload)) }) := by
  have hs₂ := h.linked_consistent hs hinit
  have hrow := hs₂.job?_eq_some.mp (h.linked_job? hs hinit hself)
  obtain ⟨-,hr⟩ := h.announced_fresh ht
  rw [hr]
  refine congrArg (Prod.mk _) ?_
  exact updatePayload_set _ (rowOf payload) _ _ hrow

theorem announced_fresh_self (hself : a.parentJobId = some payload.jobId) :
    r = (announcedPayload c payload, s₂.withEvent (createdEvent s₂ payload)) := by
  have hs₂ := h.linked_consistent hs hinit
  obtain ⟨-,hjob⟩ := h.linked_job?_self hs hinit hself
  have hrow : (s₂.withEvent (createdEvent s₂ payload)).jobs.find? payload.jobId = _ := hs₂.job?_eq_some.mp hjob
  obtain ⟨-,hr⟩ := h.announced_fresh ht
  rw [hr]
  refine congrArg (Prod.mk _) ?_
  have hver : (rowOf ((childLinkedWrite payload payload.jobId a.now).persisted c s₁)).version ≠ payload.version := by
    rw [rowOf_version, Write.persisted_version]
    simp [childLinkedWrite]
  simp only [Store.updatePayload, hrow]
  rw [if_neg hver]

end

theorem announced_effects : Effects c s₂ r.2 := by
  by_cases ht : s₂.HasEvent (defaultEventId payload.jobId .created payload.version)
  · rw [h.announced_taken ht]
  · have hnamed := stableEventId_ne_empty none payload.jobId .created payload.version
    by_cases hself : a.parentJobId = some payload.jobId
    · obtain ⟨-,hjob⟩ := h.linked_job?_self hs hinit hself
      rw [h.announced_fresh_self hs hinit ht hself]
      exact .single (.announce hjob ht rfl hnamed ⟨rfl,rfl⟩)
    · have hjob := h.linked_job? hs hinit hself
      have hvalid := (h.announced_fresh ht).1
      rw [h.announced_fresh_other hs hinit ht hself]
      have hann : Effect c s₂ (s₂.withEvent (createdEvent s₂ payload)) := .announce hjob ht rfl hnamed ⟨rfl,rfl⟩
      refine (Relation.ReflTransGen.single hann).tail ?_
      exact .reseal (s := s₂.withEvent (createdEvent s₂ payload)) hjob _ _ hvalid

theorem announced_rows
    (ht : ¬s₂.HasEvent (defaultEventId payload.jobId .created payload.version)) :
    r.2.events.rows = s₂.events.rows ++ [createdEvent s₂ payload] := by
  by_cases hself : a.parentJobId = some payload.jobId
  · rw [h.announced_fresh_self hs hinit ht hself]
    exact rows_insert_event ht
  · rw [h.announced_fresh_other hs hinit ht hself]
    exact rows_insert_event ht

theorem effects : Effects c s r.2 :=
  ((h.linked_effects hs hinit).head (h.inserted_effect hinit)).trans
    (h.announced_effects hs hinit)

end Created

end OpenPine.Jobs
