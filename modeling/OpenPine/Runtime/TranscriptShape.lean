import Mathlib.Data.List.Chain
import OpenPine.Foundation.Runs
import OpenPine.Foundation.Traces
import OpenPine.Runtime.WorkerProtocol

/-! # The shape of a transcript

A call of `append` or `accept` adds one message or changes nothing. What it adds fits the
messages before it, so every transcript that is reached is numbered and linked, carries
the identity of its context, and follows the order of the protocol.
-/
namespace OpenPine.Runtime
open Hoare Traces Runs Python List

def Message.kind? {B : Type} (message : Message B) : Option Kind := Kind.ofName? message.kind.text

theorem Message.kind?_eq_some {B : Type} {message : Message B} {kind : Kind} :
    message.kind? = some kind ↔ message.kind.text = kind.name := by
  constructor
  · exact Kind.eq_name_of_ofName?
  · intro h
    rw [Message.kind?, h, Kind.ofName?_name]

theorem Value.str_text {v : Value} (h : v.isText = true) : .str v.text = v := by
  cases v with
  | str => rfl
  | null | int | other => cases h

namespace WorkerProtocolTranscript
variable {B : Type} {contracts : Contracts B} {t t' : WorkerProtocolTranscript B} {message : Message B} {kind : Kind}
  {role : Role} {text : String} {t₀ : WorkerProtocolTranscript B} {message' : Message B} {createdAtUtcMs : ℤ}

/-! ### The checks -/

def Follows (messages : List (Message B)) (kind : Kind) : Prop :=
  match messages.getLast? with
  | none => kind = .hello
  | some last => ∃ previous, last.kind? = some previous ∧ kind ∈ allowedAfter previous

theorem supportedKind_eq_ok : supportedKind text = .ok kind ↔ text = kind.name := by
  unfold supportedKind
  constructor
  · intro h
    split at h
    · rename_i hkind
      cases h
      exact Kind.eq_name_of_ofName? hkind
    · cases h
  · rintro rfl
    rw [Kind.ofName?_name]
    rfl

theorem allowedRole_eq_ok : allowedRole kind text = .ok role ↔ text = role.name ∧ role ∈ rolesByKind kind := by
  unfold allowedRole
  constructor
  · intro h
    split at h
    · rename_i hrole
      obtain ⟨hmem,heq⟩ := ite_throw_eq_ok.mp h
      cases heq
      exact ⟨Role.eq_name_of_ofName? hrole,hmem⟩
    · cases h
  · rintro ⟨rfl,hmem⟩
    rw [Role.ofName?_name]
    exact if_pos hmem

theorem checkTransition_eq_ok : t.checkTransition kind = .ok () ↔ Follows t.messages kind := by
  unfold checkTransition Follows
  cases t.messages.getLast? with
  | none => exact ite_throw_eq_ok.trans (and_iff_left rfl)
  | some last =>
    simp only [Message.kind?]
    cases Kind.ofName? last.kind.text with
    | none =>
      constructor
      · intro h
        cases h
      · rintro ⟨previous,⟨⟩,-⟩
    | some previous =>
      refine ite_throw_eq_ok.trans ?_
      constructor
      · exact fun h => ⟨previous,rfl,h.1⟩
      · rintro ⟨_,⟨⟩,hallowed⟩
        exact ⟨hallowed,rfl⟩

theorem admitted_eq_ok {α : Type} {asked : Kind → String} {f : Kind → Role → Except Raised α} {a : α} :
    (do
      let kind ← supportedKind text
      let role ← allowedRole kind (asked kind)
      t.checkTransition kind
      f kind role) = .ok a ↔
      ∃ kind, text = kind.name ∧ ∃ role, asked kind = role.name ∧ role ∈ rolesByKind kind ∧ Follows t.messages kind ∧
        f kind role = .ok a := by
  simp only [bind_eq_ok, supportedKind_eq_ok, allowedRole_eq_ok, and_assoc, Unique.exists_iff, PUnit.default_eq_unit,
    checkTransition_eq_ok]

/-- The message has the fields that the transcript asks of its next one. -/
def Identified (t : WorkerProtocolTranscript B) (kind : Kind) (role : Role) (message : Message B) : Prop :=
  ∀ entry ∈ t.expected (componentFor kind role) role message, entry.2.1 = entry.2.2

theorem find?_mismatch_eq_none : ((t.expected (componentFor kind role) role message).find? fun entry =>
    entry.2.1 ≠ entry.2.2) = none ↔ Identified t kind role message := by
  rw [List.find?_eq_none]
  simp [Identified]

theorem check_eq_ok : t.check contracts message = .ok kind ↔
    contracts.validatePayload message = true ∧ contracts.verifyContentHash message = true ∧ message.kind? = some kind ∧
    ∃ role, message.senderRole.text = role.name ∧ role ∈ rolesByKind kind ∧ Follows t.messages kind ∧
      Identified t kind role message := by
  unfold check
  rw [throw_ite_eq_ok, throw_ite_eq_ok, Bool.not_eq_false, Bool.not_eq_false, Message.kind?_eq_some, admitted_eq_ok]
  refine and_congr_right fun _ => and_congr_right fun _ => ?_
  constructor
  · rintro ⟨kind',hkind,role,htext,hmem,hfollows,h⟩
    split at h
    · cases h
    · rename_i hnone
      cases h
      exact ⟨hkind,role,htext,hmem,hfollows,find?_mismatch_eq_none.mp hnone⟩
  · rintro ⟨hkind,role,htext,hmem,hfollows,hidentified⟩
    refine ⟨kind,hkind,role,htext,hmem,hfollows,?_⟩
    rw [find?_mismatch_eq_none.mpr hidentified]
    rfl

def askedRole (kind : Kind) (senderRole : Option String) : String :=
  (Python.nonEmpty senderRole).getD (roleByKind kind).name

theorem compose_eq_ok {name : String} {body : B} {senderRole : Option String} :
    t.compose contracts name body createdAtUtcMs senderRole = .ok (kind, message) ↔
      name = kind.name ∧ ∃ role, askedRole kind senderRole = role.name ∧ role ∈ rolesByKind kind ∧
        Follows t.messages kind ∧ contracts.sealContentHash (t.payload kind role body createdAtUtcMs) = some message ∧
        contracts.validatePayload message = true := by
  unfold compose
  rw [admitted_eq_ok]
  constructor
  · rintro ⟨kind',hkind,role,htext,hmem,hfollows,h⟩
    split at h
    · cases h
    · rename_i message' hseal
      obtain ⟨hvalid,hpair⟩ := throw_ite_eq_ok.mp h
      cases hpair
      exact ⟨hkind,role,htext,hmem,hfollows,hseal,(Bool.not_eq_false _).mp hvalid⟩
  · rintro ⟨hkind,role,htext,hmem,hfollows,hseal,hvalid⟩
    refine ⟨kind,hkind,role,htext,hmem,hfollows,?_⟩
    rw [hseal]
    exact if_neg ((Bool.not_eq_false _).mpr hvalid)

/-! ### What a call adds -/

def add (t : WorkerProtocolTranscript B) (message : Message B) : WorkerProtocolTranscript B :=
  { t with messages := t.messages ++ [message] }

theorem run_record (kind : Kind) (message : Message B) (t : WorkerProtocolTranscript B) :
    (record contracts kind message).run.run t =
      if contracts.RejectsEnd kind (t.messages ++ [message]) then (.error .contract, t)
      else (.ok message, t.add message) := by
  unfold record
  rw [run_bind_ok (run_get t)]
  exact run_guard t

theorem record_eq_ok : (record contracts kind message).run.run t = (.ok message', t') ↔
    ¬contracts.RejectsEnd kind (t.messages ++ [message]) ∧ message' = message ∧ t' = t.add message := by
  rw [run_record]
  exact guarded_eq_ok

inductive Call (B : Type)
  | append (kind : String) (body : B) (createdAtUtcMs : ℤ) (senderRole : Option String)
  | accept (message : Message B)

def Call.perform (contracts : Contracts B) : Call B → Program Raised (WorkerProtocolTranscript B) (Message B)
  | .append kind body createdAtUtcMs senderRole =>
    WorkerProtocolTranscript.append contracts kind body createdAtUtcMs senderRole
  | .accept message => WorkerProtocolTranscript.accept contracts message

/-- The next message of a call, before the whole transcript is validated. -/
def Call.next (contracts : Contracts B) (t : WorkerProtocolTranscript B) : Call B → Except Raised (Kind × Message B)
  | .append kind body createdAtUtcMs senderRole => t.compose contracts kind body createdAtUtcMs senderRole
  | .accept message => (t.check contracts message).map (·, message)

theorem run_perform (call : Call B) (t : WorkerProtocolTranscript B) :
    (call.perform contracts).run.run t = match call.next contracts t with
      | .ok (kind, message) => (record contracts kind message).run.run t
      | .error e => (.error e, t) := by
  cases call with
  | append name body createdAtUtcMs senderRole =>
    refine (run_read_lift t).trans ?_
    cases hcompose : t.compose contracts name body createdAtUtcMs senderRole with
    | ok | error => simp only [Call.next, hcompose]
  | accept message =>
    refine (run_read_lift t).trans ?_
    cases hcheck : t.check contracts message with
    | ok | error => simp only [Call.next, hcheck]; rfl

theorem identified_of_seal {body : B}
    (h : contracts.sealContentHash (t.payload kind role body createdAtUtcMs) = some message) :
    Identified t kind role message := by
  obtain ⟨hash,-,rfl⟩ := Option.map_eq_some_iff.mp h
  intro entry hentry
  simp only [expected, mem_cons, not_mem_nil, or_false] at hentry
  rcases hentry with rfl | rfl | rfl | rfl | rfl | rfl | rfl | rfl | rfl | rfl
  case inr.inr.inr.inr.inl => exact Value.str_text t.session
  case inr.inr.inr.inr.inr.inl => exact Value.str_text t.run
  case inr.inr.inr.inr.inr.inr.inr.inl => exact Value.str_text t.run
  all_goals rfl

/-- The message fits the transcript with the given messages as its next one. -/
structure Fits (contracts : Contracts B) (t : WorkerProtocolTranscript B) (before : List (Message B))
    (message : Message B) (kind : Kind) (role : Role) : Prop where
  valid : contracts.validatePayload message = true
  allowed : role ∈ rolesByKind kind
  named : message.kind? = some kind
  follows : Follows before kind
  identified : Identified { t with messages := before } kind role message

variable {call : Call B} {i : ℕ}

theorem next_fits (h : call.next contracts t = .ok (kind, message)) :
    ∃ role, Fits contracts t t.messages message kind role := by
  cases call with
  | append =>
    obtain ⟨-,role,-,hmem,hfollows,hseal,hvalid⟩ := compose_eq_ok.mp h
    refine ⟨role,hvalid,hmem,?_,hfollows,identified_of_seal hseal⟩
    obtain ⟨hash,-,rfl⟩ := Option.map_eq_some_iff.mp hseal
    exact Kind.ofName?_name kind
  | accept message' =>
    simp only [Call.next] at h
    cases hcheck : t.check contracts message' with
    | error =>
      rw [hcheck] at h
      cases h
    | ok =>
      rw [hcheck] at h
      cases h
      obtain ⟨hvalid,-,hkind,role,-,hmem,hfollows,hidentified⟩ := check_eq_ok.mp hcheck
      exact ⟨role,hvalid,hmem,hkind,hfollows,hidentified⟩

theorem perform_ok (h : (call.perform contracts).run.run t = (.ok message, t')) :
    t' = t.add message ∧ ∃ kind role, Fits contracts t t.messages message kind role := by
  rw [run_perform] at h
  cases hnext : call.next contracts t with
  | error =>
    rw [hnext] at h
    cases h
  | ok next =>
    obtain ⟨kind,message'⟩ := next
    rw [hnext] at h
    obtain ⟨-,rfl,rfl⟩ := record_eq_ok.mp h
    exact ⟨rfl,kind,next_fits hnext⟩

theorem perform_error {e : Raised} (h : (call.perform contracts).run.run t = (.error e, t')) : t' = t := by
  rw [run_perform] at h
  cases hnext : call.next contracts t with
  | error =>
    rw [hnext] at h
    cases h
    rfl
  | ok =>
    simp only [hnext, run_record] at h
    split at h
    · cases h
      rfl
    · cases h

/-! ### Runs -/

def step (contracts : Contracts B) (t : WorkerProtocolTranscript B) (call : Call B) : WorkerProtocolTranscript B :=
  ((call.perform contracts).run.run t).2

/-- A call is refused or appends one message that fits. -/
theorem step_cases (contracts : Contracts B) (t : WorkerProtocolTranscript B) (call : Call B) :
    step contracts t call = t ∨ ∃ message, step contracts t call = t.add message ∧
      ∃ kind role, Fits contracts t t.messages message kind role := by
  unfold step
  rcases hrun : (call.perform contracts).run.run t with ⟨_ | message,t'⟩
  · exact .inl (perform_error hrun)
  · exact .inr ⟨message,perform_ok hrun⟩

/-- The transcript is the first one with messages that each fit those before it. -/
structure Grown (contracts : Contracts B) (t₀ t : WorkerProtocolTranscript B) : Prop where
  same : t = { t₀ with messages := t.messages }
  admitted : Admitted (fun before message => ∃ kind role, Fits contracts t₀ before message kind role) t.messages

theorem grown_step (h : Grown contracts t₀ t) (call : Call B) : Grown contracts t₀ (step contracts t call) := by
  rcases step_cases contracts t call with hsame | ⟨message,hadd,kind,role,hfits⟩
  · rw [hsame]
    exact h
  · rw [hadd]
    refine ⟨congrArg (add · message) h.same,admitted_concat.mpr ⟨h.admitted,kind,role,?_⟩⟩
    refine ⟨hfits.valid,hfits.allowed,hfits.named,hfits.follows,?_⟩
    rw [← h.same]
    exact hfits.identified

theorem run_grown (hempty : t₀.messages = []) (calls : List (Call B)) :
    Grown contracts t₀ (Runs.run (step contracts) t₀ calls) := by
  apply run_invariant (P := Grown contracts t₀)
  · exact fun t call h => grown_step h call
  · refine ⟨rfl,?_⟩
    rw [hempty]
    exact admitted_nil

/-! ### The order of the kinds -/

def Next (message message' : Message B) : Prop :=
  ∃ kind kind', message.kind? = some kind ∧ message'.kind? = some kind' ∧ kind' ∈ allowedAfter kind

/-- What holds of the transcripts that can be reached. -/
structure WellFormed (t : WorkerProtocolTranscript B) : Prop where
  numbered : ∀ (i : ℕ) message, t.messages[i]? = some message → message.sequence = .int i
  first_causation : ∀ message, t.messages[0]? = some message → message.causationId = .null
  causation : ∀ (i : ℕ) message message', t.messages[i]? = some message → t.messages[i + 1]? = some message' →
    message'.causationId = message.messageId
  identity : ∀ message ∈ t.messages, message.sessionId = t.executionContext.sessionId ∧
    message.runId = t.executionContext.runId ∧ message.stackId = t.executionContext.stackManifestHash
  component : ∀ message ∈ t.messages, ∃ kind role, message.kind? = some kind ∧ message.senderRole = .str role.name ∧
    role ∈ rolesByKind kind ∧ message.producer = .str (componentFor kind role).name ∧
    message.producerVersion = .str (t.components.of (componentFor kind role)).1 ∧
    message.producerCommit = (t.components.of (componentFor kind role)).2
  hello : ∀ (i : ℕ) message, t.messages[i]? = some message → (message.kind? = some .hello ↔ i = 0)
  ended : ∀ (i : ℕ) message, t.messages[i]? = some message →
    (message.kind? = some .finalize ∨ message.kind? = some .abort) → i + 1 = t.messages.length
  committed : ∀ before start between start' after, t.messages = before ++ start :: (between ++ start' :: after) →
    start.kind? = some .barBegin → start'.kind? = some .barBegin →
      (∀ message ∈ between, message.kind? ≠ some .barBegin) →
    between.countP (·.kind? = some .barCommit) = 1
  recalculated : ∀ (i : ℕ) message message', t.messages[i]? = some message → t.messages[i + 1]? = some message' →
    message.kind? = some .recalcRequest → message'.kind? = some .recalcResult ∨ message'.kind? = some .abort

theorem allowedAfter_ne_hello {kind kind' : Kind} (h : kind' ∈ allowedAfter kind) : kind' ≠ .hello := by
  rintro rfl
  cases kind <;> simp [allowedAfter] at h

/-- The kinds after which the commit of the current bar is still to come. -/
def insideBar : List Kind := [.barBegin, .intentBatch, .brokerEventBatch, .recalcRequest, .recalcResult]

def afterBar : List Kind := [.barCommit, .checkpoint, .restore]

theorem allowedAfter_phase (kind : Kind) : ∀ kind' ∈ allowedAfter kind, kind' ≠ .barBegin → allowedAfter kind' ≠ [] →
    (kind ∈ insideBar → kind' ∈ insideBar ∧ kind' ≠ .barCommit ∨ kind' = .barCommit) ∧
    (kind ∈ afterBar → kind' ∈ afterBar ∧ kind' ≠ .barCommit) := by
  cases kind <;> decide

/-- From inside a bar the next start of a bar is reached by way of one commit, from between
two bars by way of none. -/
theorem countP_barCommit {between : List (Message B)} {start : Message B} (hstart : start.kind? = some .barBegin)
    (hbetween : ∀ message ∈ between, message.kind? ≠ some .barBegin) {message : Message B} {kind : Kind}
    (hkind : message.kind? = some kind) (hchain : (message :: (between ++ [start])).IsChain Next) :
    (kind ∈ insideBar → between.countP (·.kind? = some .barCommit) = 1) ∧
    (kind ∈ afterBar → between.countP (·.kind? = some .barCommit) = 0) := by
  induction between generalizing message kind with
  | nil =>
    obtain ⟨⟨_,_,hk,hk',hallowed⟩,-⟩ := isChain_cons_cons.mp hchain
    cases hkind.symm.trans hk
    cases hstart.symm.trans hk'
    refine ⟨fun hin => ?_,fun _ => rfl⟩
    cases kind <;> simp [allowedAfter, insideBar] at hin hallowed
  | cons next between ih =>
    rw [cons_append] at hchain
    obtain ⟨⟨_,kind',hk,hk',hallowed⟩,hrest⟩ := isChain_cons_cons.mp hchain
    cases hkind.symm.trans hk
    obtain ⟨hinside,hafter⟩ := ih (fun m hm => hbetween m (mem_cons_of_mem _ hm)) hk' hrest
    have hne : kind' ≠ .barBegin := fun h => hbetween next mem_cons_self (h ▸ hk')
    -- the chain goes on, so the next message does not end it
    have hopen : allowedAfter kind' ≠ [] := by
      intro hend
      obtain ⟨after,rest,hsplit⟩ := exists_cons_of_ne_nil (append_ne_nil_of_right_ne_nil between
        (cons_ne_nil start []))
      rw [hsplit] at hrest
      obtain ⟨⟨_,_,hk,-,hallowed⟩,-⟩ := isChain_cons_cons.mp hrest
      cases hk'.symm.trans hk
      rw [hend] at hallowed
      cases hallowed
    obtain ⟨hfrom,hback⟩ := allowedAfter_phase kind kind' hallowed hne hopen
    rw [countP_cons, hk']
    constructor
    · intro hin
      rcases hfrom hin with ⟨hin',hcommit⟩ | rfl
      · rw [hinside hin']
        simp [hcommit]
      · rw [hafter (by decide)]
        simp
    · intro hout
      obtain ⟨hout',hcommit⟩ := hback hout
      rw [hafter hout']
      simp [hcommit]

theorem identified_iff : Identified t kind role message ↔ message.producer = .str (componentFor kind role).name ∧
    message.producerVersion = .str (t.components.of (componentFor kind role)).1 ∧
    message.producerCommit = (t.components.of (componentFor kind role)).2 ∧
    message.stackId = t.executionContext.stackManifestHash ∧ message.sessionId = t.executionContext.sessionId ∧
    message.runId = t.executionContext.runId ∧ message.sequence = .int t.messages.length ∧
    message.correlationId = t.executionContext.runId ∧ message.causationId = t.lastMessageId ∧
    message.senderRole = .str role.name := by
  simp only [Identified, expected, forall_mem_cons, not_mem_nil, false_imp_iff, implies_true, and_true]

theorem getLast?_take_add_one (hi : t.messages[i]? = some message) :
    (t.messages.take (i + 1)).getLast? = some message := by
  rw [take_add_one, hi]
  simp

section Shape
variable {t₀ : WorkerProtocolTranscript B} (h : Grown contracts t₀ t)
include h

theorem Grown.fits (hi : t.messages[i]? = some message) :
    ∃ kind role, Fits contracts t (t.messages.take i) message kind role := by
  obtain ⟨kind,role,hvalid,hmem,hkind,hfollows,hidentified⟩ := h.admitted.getElem? hi
  refine ⟨kind,role,hvalid,hmem,hkind,hfollows,?_⟩
  rw [h.same]
  exact hidentified

theorem Grown.next (hi : t.messages[i]? = some message) (hnext : t.messages[i + 1]? = some message') :
    Next message message' := by
  obtain ⟨kind',role,hfits⟩ := h.fits hnext
  have hfollows := hfits.follows
  unfold Follows at hfollows
  rw [getLast?_take_add_one hi] at hfollows
  obtain ⟨kind,hkind,hallowed⟩ := hfollows
  exact ⟨kind,kind',hkind,hfits.named,hallowed⟩

theorem Grown.chain : t.messages.IsChain Next := by
  rw [isChain_iff_getElem]
  intro i hi
  exact h.next (List.getElem?_eq_getElem (by omega)) (List.getElem?_eq_getElem hi)

/-- By induction on its growth a transcript is well formed. -/
theorem Grown.wellFormed (hids : ∀ message, contracts.validatePayload message = true →
    ∃ id, message.messageId = .str id) :
    WellFormed t := by
  refine ⟨?_,?_,?_,?_,?_,?_,?_,?_,?_⟩
  · intro i message hi
    obtain ⟨kind,role,hfits⟩ := h.fits hi
    obtain ⟨-,-,-,-,-,-,hsequence,-⟩ := identified_iff.mp hfits.identified
    obtain ⟨hlt,-⟩ := List.getElem?_eq_some_iff.mp hi
    rw [hsequence, length_take_of_le hlt.le]
  · intro message hi
    obtain ⟨kind,role,hfits⟩ := h.fits hi
    obtain ⟨-,-,-,-,-,-,-,-,hcausation,-⟩ := identified_iff.mp hfits.identified
    exact hcausation
  · intro i message message' hi hnext
    obtain ⟨kind,role,hfits⟩ := h.fits hi
    obtain ⟨id,hid⟩ := hids message hfits.valid
    obtain ⟨kind',role',hfits'⟩ := h.fits hnext
    obtain ⟨-,-,-,-,-,-,-,-,hcausation,-⟩ := identified_iff.mp hfits'.identified
    have hcausation : message'.causationId = .str message.messageId.text := by
      rw [hcausation, lastMessageId, getLast?_take_add_one hi]
    rw [hcausation, hid]
    rfl
  · intro message hmem
    obtain ⟨i,hi⟩ := mem_iff_getElem?.mp hmem
    obtain ⟨kind,role,hfits⟩ := h.fits hi
    obtain ⟨-,-,-,hstack,hsession,hrun,-⟩ := identified_iff.mp hfits.identified
    exact ⟨hsession,hrun,hstack⟩
  · intro message hmem
    obtain ⟨i,hi⟩ := mem_iff_getElem?.mp hmem
    obtain ⟨kind,role,hfits⟩ := h.fits hi
    obtain ⟨hproducer,hversion,hcommit,-,-,-,-,-,-,hrole⟩ := identified_iff.mp hfits.identified
    exact ⟨kind,role,hfits.named,hrole,hfits.allowed,hproducer,hversion,hcommit⟩
  · intro i message hi
    obtain ⟨kind,role,hfits⟩ := h.fits hi
    rw [hfits.named, Option.some.injEq]
    cases i with
    | zero => exact iff_of_true hfits.follows rfl
    | succ i =>
      obtain ⟨hlt,-⟩ := List.getElem?_eq_some_iff.mp hi
      obtain ⟨_,_,-,hk,hallowed⟩ := h.next (List.getElem?_eq_getElem (by omega)) hi
      cases hfits.named.symm.trans hk
      exact iff_of_false (allowedAfter_ne_hello hallowed) (Nat.succ_ne_zero i)
  · intro i message hi hkind
    obtain ⟨hlt,-⟩ := List.getElem?_eq_some_iff.mp hi
    by_contra hne
    obtain ⟨kind,_,hk,-,hallowed⟩ := h.next hi (List.getElem?_eq_getElem (by omega : i + 1 < t.messages.length))
    rcases hkind with hkind | hkind
    · cases hkind.symm.trans hk
      cases hallowed
    · cases hkind.symm.trans hk
      cases hallowed
  · intro before start between start' after hsplit hstart hstart' hbetween
    have hchain := h.chain
    rw [hsplit, isChain_append] at hchain
    have hinner : (start :: (between ++ [start'])).IsChain Next := by
      have hsuffix : start :: (between ++ start' :: after) = start :: (between ++ [start']) ++ after := by simp
      exact (hsuffix ▸ hchain.2.1).left_of_append
    exact (countP_barCommit hstart' hbetween hstart hinner).1 (by decide)
  · intro i message message' hi hnext hkind
    obtain ⟨_,kind',hk,hk',hallowed⟩ := h.next hi hnext
    cases hkind.symm.trans hk
    rw [hk']
    simpa [allowedAfter] using hallowed

end Shape

theorem create_eq_ok {context : ExecutionContext} (h : create contracts context = .ok t) :
    t.executionContext = context ∧ t.messages = [] ∧ componentIdentities context = .ok t.components := by
  unfold create at h
  rw [throw_ite_eq_ok, throw_ite_eq_ok, bind_eq_ok] at h
  obtain ⟨-,-,components,hcomponents,h⟩ := h
  split at h
  · split at h
    · split at h
      · cases h
        exact ⟨rfl,rfl,hcomponents⟩
      · cases h
    · cases h
  · cases h

/-- From a context that the transcript accepts, after every sequence of calls that may each
fail for any reason: the transcript belongs to the context and is well formed, and a
call that fails leaves it as it is. The schema gives messages a text as their id. -/
theorem transcript_well_formed (contracts : Contracts B)
    (hids : ∀ message, contracts.validatePayload message = true → ∃ id, message.messageId = .str id)
    (context : ExecutionContext) (t₀ : WorkerProtocolTranscript B) (hcreate : create contracts context = .ok t₀)
    (calls : List (Call B)) :
    let t := Runs.run (step contracts) t₀ calls
    t.executionContext = context ∧ componentIdentities context = .ok t.components ∧ WellFormed t ∧
    ∀ (call : Call B) e t', (call.perform contracts).run.run t = (.error e, t') → t' = t := by
  obtain ⟨hcontext,hempty,hcomponents⟩ := create_eq_ok hcreate
  have hgrown : Grown contracts t₀ (Runs.run (step contracts) t₀ calls) := run_grown hempty calls
  refine ⟨?_,?_,hgrown.wellFormed hids,fun _ _ _ hfails => perform_error hfails⟩
  · rw [hgrown.same]
    exact hcontext
  · rw [hgrown.same]
    exact hcomponents

end WorkerProtocolTranscript

/-- Contracts that ask for a text as the id and seal every message with the same hash. -/
def Contracts.plain : Contracts String where
  validateContext _ := true
  verifyContext _ := true
  validatePayload message := message.messageId = .str message.messageId.text
  verifyContentHash message := message.contentHash = .str "sha256"
  contentHash _ := some (.str "sha256")
  validateWorkerProtocolSequence _ := true

def ExecutionContext.sample : ExecutionContext where
  sessionId := .str "session"
  runId := .str "run"
  stackManifestHash := .str "stack"
  producerCommits :=
    let commit : Value := .str "0123456789012345678901234567890123456789"
    some [("openpine", commit), ("pinelib", commit), ("backtest_engine", commit)]
  wheelIdentities := some [some ⟨some (.str "openpine"),some (.str "5.0.0rc5")⟩,
    some ⟨some (.str "pinelib"),some (.str "1.0")⟩,
    some ⟨some (.str "backtest_engine"),some (.str "1.0")⟩]

namespace WorkerProtocolTranscript

def sample : WorkerProtocolTranscript String where
  executionContext := .sample
  messages := []
  components :=
    let commit : Value := .str "0123456789012345678901234567890123456789"
    { openpine := ("5.0.0-rc.5", commit), pinelib := ("1.0", commit), backtestEngine := ("1.0", commit) }
  session := by decide
  run := by decide
  stack := by decide

theorem one_bar_well_formed :
    let calls : List (Call String) := ["HELLO", "LOAD_ARTIFACT", "INIT_RUN", "BAR_BEGIN", "CHECKPOINT", "INTENT_BATCH",
      "BAR_COMMIT", "CHECKPOINT", "BAR_BEGIN", "ABORT", "HELLO"].map fun kind => .append kind "" 0 none
    let t := Runs.run (step .plain) sample calls
    t.messages.map (·.kind?) = [some .hello, some .loadArtifact, some .initRun, some .barBegin, some .intentBatch,
      some .barCommit, some .checkpoint, some .barBegin, some .abort] ∧ WellFormed t := by
  refine ⟨by decide +kernel,?_⟩
  have hids : ∀ message, Contracts.plain.validatePayload message = true → ∃ id, message.messageId = .str id :=
    fun message hvalid => ⟨_,of_decide_eq_true hvalid⟩
  exact (transcript_well_formed .plain hids .sample sample (by rfl) _).2.2.1

end WorkerProtocolTranscript
end OpenPine.Runtime
