import OpenPine.Runtime.IsolatedWorker
import OpenPine.Runtime.TranscriptShape

/-! # Parent and sandbox agree

The two transcripts are kept by separate code. As long as they are equal and hold only
kinds that both tables know, a message that one side appends is accepted by the other.
The sandbox knows neither `CHECKPOINT` nor `RESTORE`.
-/
namespace OpenPine.Runtime
open Hoare Runs Python WorkerProtocolTranscript List

theorem Kind.name_injective : Function.Injective Kind.name := by
  intro kind kind' h
  rw [← Option.some_inj, ← Kind.ofName?_name, h, Kind.ofName?_name]

def Kind.Shared (kind : Kind) : Prop := kind ≠ .checkpoint ∧ kind ≠ .restore

namespace Protocol
variable {B : Type} {contracts : Contracts B} {p p' : WorkerProtocolTranscript B} {c c' : Protocol B}
  {message : Message B}
  {kind : Kind}

/-! ### The tables -/

theorem tables_eq (h : kind.Shared) : component kind = some (componentByKind kind) ∧
    role kind = some (roleByKind kind) ∧
    roles kind = some (rolesByKind kind) := by
  cases kind
  case checkpoint => exact absurd rfl h.1
  case restore => exact absurd rfl h.2
  all_goals exact ⟨rfl,rfl,rfl⟩

theorem mem_allowedAfter {previous : Kind} (h : previous.Shared) : ∃ allowed, allowedAfter previous = some allowed ∧
      ∀ kind, kind ∈ allowed ↔ kind ∈ Runtime.allowedAfter previous ∧ kind.Shared := by
  cases previous
  case checkpoint => exact absurd rfl h.1
  case restore => exact absurd rfl h.2
  all_goals
    refine ⟨_,rfl,fun kind => ?_⟩
    cases kind <;> simp [Runtime.allowedAfter, Kind.Shared]

theorem shared_of_component {component' : Component} (h : component kind = some component') : kind.Shared := by
  constructor
  · rintro rfl
    cases h
  · rintro rfl
    cases h

theorem entry_name {α : Type} {table : Kind → Option α} {a : α} : entry table (.str kind.name) = .ok a ↔
    table kind = some a := by
  simp only [entry, Kind.ofName?_name, Option.bind_some]
  cases table kind with
  | none => exact ⟨fun h => absurd h throw_ne_ok,fun h => nomatch h⟩
  | some => rw [Option.some_inj]; exact pure_eq_ok

theorem componentFor_eq (h : kind.Shared) (role : Role) :
    componentFor (.str kind.name) (.str role.name) = .ok (Runtime.componentFor kind role) := by
  cases kind
  case checkpoint => exact absurd rfl h.1
  case restore => exact absurd rfl h.2
  all_goals cases role <;> rfl

/-! ### The checks -/

/-- Both sides hold the same messages, of kinds that both know, under the same context. -/
structure Linked (p : WorkerProtocolTranscript B) (c : Protocol B) : Prop where
  messages : p.messages = c.messages
  context : p.executionContext = c.context
  identities : p.components = c.identities
  known : ∀ message ∈ c.messages, ∃ (id : String) (kind : Kind),
    message.messageId = .str id ∧ message.kind = .str kind.name ∧ kind.Shared

theorem Linked.lastMessageId (h : Linked p c) : p.lastMessageId = c.lastId := by
  unfold WorkerProtocolTranscript.lastMessageId lastId
  rw [h.messages]
  cases hlast : c.messages.getLast? with
  | none => rfl
  | some last =>
    obtain ⟨id,kind,hid,-⟩ := h.known last (mem_of_getLast? hlast)
    simp only [hid, Value.text]

theorem Linked.transition_eq_ok (h : Linked p c) :
    c.transition (.str kind.name) = .ok () ↔ Follows p.messages kind ∧ kind.Shared := by
  unfold transition Follows
  rw [h.messages]
  cases hlast : c.messages.getLast? with
  | none =>
    refine ite_throw_eq_ok.trans ?_
    constructor
    · rintro ⟨hname,-⟩
      cases Kind.name_injective (Value.str.inj hname : kind.name = Kind.hello.name)
      exact ⟨rfl,by decide,by decide⟩
    · rintro ⟨rfl,-⟩
      exact ⟨rfl,rfl⟩
  | some last =>
    obtain ⟨id,previous,-,hprevious,hshared⟩ := h.known last (mem_of_getLast? hlast)
    obtain ⟨allowed,hallowed,hmem⟩ := mem_allowedAfter hshared
    have hkind : last.kind? = some previous := by
      rw [Message.kind?, hprevious]
      exact Kind.ofName?_name previous
    have hin : (.str kind.name : Value) ∈ allowed.map (fun kind => .str kind.name) ↔ kind ∈ allowed :=
      mem_map_of_injective fun _ _ heq => Kind.name_injective (Value.str.inj heq)
    rw [bind_eq_ok, hprevious]
    constructor
    · rintro ⟨allowed',hentry,hnext⟩
      cases hallowed.symm.trans (entry_name.mp hentry)
      obtain ⟨hnext,hshared'⟩ := (hmem kind).mp (hin.mp (ite_throw_eq_ok.mp hnext).1)
      exact ⟨⟨previous,hkind,hnext⟩,hshared'⟩
    · rintro ⟨⟨previous',hkind',hnext⟩,hshared'⟩
      cases hkind.symm.trans hkind'
      exact ⟨allowed,entry_name.mpr hallowed,ite_throw_eq_ok.mpr ⟨hin.mpr ((hmem kind).mpr ⟨hnext,hshared'⟩),rfl⟩⟩

theorem check_eq_ok : c.check contracts message = .ok () ↔
    contracts.validatePayload message = true ∧ contracts.verifyContentHash message = true ∧
    c.transition message.kind = .ok () ∧ ∃ allowed, entry roles message.kind = .ok allowed ∧
      message.senderRole ∈ allowed.map (fun role => .str role.name) ∧
      ∃ component, componentFor message.kind message.senderRole = .ok component ∧
        ∀ entry ∈ c.expected component message.senderRole message, entry.1 = entry.2 := by
  unfold check
  rw [throw_ite_eq_ok, throw_ite_eq_ok, Bool.not_eq_false, Bool.not_eq_false, bind_eq_ok]
  refine and_congr_right fun _ => and_congr_right fun _ => ?_
  simp only [bind_eq_ok, ite_throw_eq_ok, throw_ite_eq_ok, any_eq_true, not_exists, not_and, decide_eq_true_eq, not_not]
  constructor
  · rintro ⟨_,htransition,allowed,hallowed,hmem,component,hcomponent,hfields,-⟩
    exact ⟨htransition,allowed,hallowed,hmem,component,hcomponent,hfields⟩
  · rintro ⟨htransition,allowed,hallowed,hmem,component,hcomponent,hfields⟩
    exact ⟨(),htransition,allowed,hallowed,hmem,component,hcomponent,hfields,rfl⟩

theorem Linked.expected_iff (h : Linked p c) {role : Role} (hrole : message.senderRole = .str role.name) :
    (∀ entry ∈ c.expected (Runtime.componentFor kind role) message.senderRole message, entry.1 = entry.2) ↔
      Identified p kind role message := by
  rw [identified_iff, h.lastMessageId, h.messages, h.context, h.identities]
  simp only [expected, forall_mem_cons, not_mem_nil, false_imp_iff, implies_true, and_true, hrole]

theorem Linked.check_iff (h : Linked p c) (hkind : message.kind = .str kind.name) :
    c.check contracts message = .ok () ↔ p.check contracts message = .ok kind ∧ kind.Shared := by
  have hnamed : message.kind? = some kind := by
    rw [Message.kind?, hkind]
    exact Kind.ofName?_name kind
  rw [check_eq_ok, WorkerProtocolTranscript.check_eq_ok, hkind, h.transition_eq_ok]
  constructor
  · rintro ⟨hvalid,hverify,⟨hfollows,hshared⟩,allowed,hallowed,hmem,component,hcomponent,hfields⟩
    cases (tables_eq hshared).2.2.symm.trans (entry_name.mp hallowed)
    obtain ⟨role,hrole,hsender⟩ := mem_map.mp hmem
    rw [← hsender, componentFor_eq hshared] at hcomponent
    cases hcomponent
    have hsent : message.senderRole.text = role.name := by
      rw [← hsender]
      rfl
    exact ⟨⟨hvalid,hverify,hnamed,role,hsent,hrole,hfollows,(h.expected_iff hsender.symm).mp hfields⟩,hshared⟩
  · rintro ⟨⟨hvalid,hverify,-,role,-,hrole,hfollows,hidentified⟩,hshared⟩
    have hsender : message.senderRole = .str role.name := by
      obtain ⟨-,-,-,-,-,-,-,-,-,hsender⟩ := identified_iff.mp hidentified
      exact hsender
    refine ⟨hvalid,hverify,⟨hfollows,hshared⟩,_,entry_name.mpr (tables_eq hshared).2.2,?_,_,?_,
      (h.expected_iff hsender).mpr hidentified⟩
    · rw [hsender]
      exact mem_map_of_mem hrole
    · rw [hsender]
      exact componentFor_eq hshared role

end Protocol

/-! ### What a side sends -/

namespace WorkerProtocolTranscript
variable {B : Type} {contracts : Contracts B} {t t' : WorkerProtocolTranscript B} {message message' : Message B}
  {name : String}
  {body : B} {createdAtUtcMs : ℤ} {senderRole : Option String}

theorem append_eq_ok : (append contracts name body createdAtUtcMs senderRole).run.run t = (.ok message, t') ↔
    ∃ kind, t.compose contracts name body createdAtUtcMs senderRole = .ok (kind, message) ∧
      ¬contracts.RejectsEnd kind (t.messages ++ [message]) ∧ t' = t.add message := by
  refine run_read_lift_eq_ok.trans ?_
  constructor
  · rintro ⟨⟨kind,sent⟩,hcompose,hrecord⟩
    obtain ⟨hend,rfl,rfl⟩ := record_eq_ok.mp hrecord
    exact ⟨kind,hcompose,hend,rfl⟩
  · rintro ⟨kind,hcompose,hend,rfl⟩
    exact ⟨_,hcompose,record_eq_ok.mpr ⟨hend,rfl,rfl⟩⟩

theorem accept_eq_ok : (accept contracts message).run.run t = (.ok message', t') ↔
    ∃ kind, t.check contracts message = .ok kind ∧ ¬contracts.RejectsEnd kind (t.messages ++ [message]) ∧
      message' = message ∧ t' = t.add message := by
  refine run_read_lift_eq_ok.trans ?_
  simp only [record_eq_ok]

theorem check_of_compose
    (hverify : ∀ m m', contracts.sealContentHash m = some m' → contracts.verifyContentHash m' = true) {kind : Kind}
    (h : t.compose contracts name body createdAtUtcMs senderRole = .ok (kind, message)) :
    name = kind.name ∧ message.kind = .str kind.name ∧ (∃ id, message.messageId = .str id) ∧
      t.check contracts message = .ok kind := by
  obtain ⟨hname,role,-,hmem,hfollows,hseal,hvalid⟩ := compose_eq_ok.mp h
  have hidentified := identified_of_seal hseal
  have hhash := hverify _ _ hseal
  obtain ⟨hash,-,rfl⟩ := Option.map_eq_some_iff.mp hseal
  refine ⟨hname,rfl,⟨_,rfl⟩,check_eq_ok.mpr ⟨hvalid,hhash,?_,role,rfl,hmem,hfollows,hidentified⟩⟩
  exact Kind.ofName?_name kind

end WorkerProtocolTranscript

namespace Protocol
variable {B : Type} {contracts : Contracts B} {p p' : WorkerProtocolTranscript B} {c c' : Protocol B}
  {message message' : Message B} {name : String} {body : B} {createdAtUtcMs : ℤ} {kind : Kind}

def add (c : Protocol B) (message : Message B) : Protocol B := { c with messages := c.messages ++ [message] }

theorem run_record (kind : Value) (message : Message B) (c : Protocol B) : (record contracts kind message).run.run c =
      if RejectsEnd contracts kind (c.messages ++ [message]) then (.error .contract, c)
      else (.ok message, c.add message) := by
  unfold record
  rw [run_bind_ok (run_get c)]
  exact run_guard c

theorem record_eq_ok {kind : Value} : (record contracts kind message).run.run c = (.ok message', c') ↔
    ¬RejectsEnd contracts kind (c.messages ++ [message]) ∧ message' = message ∧ c' = c.add message := by
  rw [run_record]
  exact guarded_eq_ok

theorem append_eq_ok : (append contracts name body createdAtUtcMs).run.run c = (.ok message, c') ↔
    c.compose contracts name body createdAtUtcMs = .ok message ∧
      ¬RejectsEnd contracts (.str name) (c.messages ++ [message]) ∧ c' = c.add message := by
  refine run_read_lift_eq_ok.trans ?_
  constructor
  · rintro ⟨sent,hcompose,hrecord⟩
    obtain ⟨hend,rfl,rfl⟩ := record_eq_ok.mp hrecord
    exact ⟨hcompose,hend,rfl⟩
  · rintro ⟨hcompose,hend,rfl⟩
    exact ⟨_,hcompose,record_eq_ok.mpr ⟨hend,rfl,rfl⟩⟩

theorem append_error {e : Raised} (h : (append contracts name body createdAtUtcMs).run.run c = (.error e, c')) :
    c' = c := by
  have hrun := (run_read_lift c).symm.trans h
  split at hrun
  · rw [run_record] at hrun
    split at hrun
    · cases hrun
      rfl
    · cases hrun
  · cases hrun
    rfl

theorem accept_eq_ok : (accept contracts message).run.run c = (.ok message', c') ↔
    c.check contracts message = .ok () ∧ ¬RejectsEnd contracts message.kind (c.messages ++ [message]) ∧
      message' = message ∧ c' = c.add message := by
  refine run_read_lift_eq_ok.trans ?_
  simp only [record_eq_ok]
  exact ⟨fun ⟨_,h⟩ => h,fun h => ⟨(),h⟩⟩

theorem rejectsEnd_iff {candidate : List (Message B)} :
    RejectsEnd contracts (.str kind.name) candidate ↔ contracts.RejectsEnd kind candidate := by
  unfold RejectsEnd Contracts.RejectsEnd
  cases kind <;> simp [Kind.name]

theorem componentFor_roleByKind (kind : Kind) : Runtime.componentFor kind (roleByKind kind) = componentByKind kind := by
  cases kind <;> rfl

theorem roleByKind_mem (kind : Kind) : roleByKind kind ∈ rolesByKind kind := by
  cases kind <;> decide

theorem check_of_compose
    (hverify : ∀ m m', contracts.sealContentHash m = some m' → contracts.verifyContentHash m' = true)
    (h : c.compose contracts name body createdAtUtcMs = .ok message) :
    ∃ kind : Kind, kind.Shared ∧ name = kind.name ∧ message.kind = .str kind.name ∧
      (∃ id, message.messageId = .str id) ∧
      c.check contracts message = .ok () := by
  obtain ⟨_,htransition,h⟩ := bind_eq_ok.mp h
  obtain ⟨kind,hkind,h⟩ := bind_eq_ok.mp h
  obtain ⟨component,hcomponent,h⟩ := bind_eq_ok.mp h
  obtain ⟨role,hrole,h⟩ := bind_eq_ok.mp h
  obtain rfl : name = kind.name := by
    simp only [entry] at hkind
    split at hkind
    · rename_i found hfound
      cases hkind
      rw [Option.bind_fun_some] at hfound
      exact Kind.eq_name_of_ofName? hfound
    · cases hkind
  have hshared := shared_of_component (entry_name.mp hcomponent)
  cases (tables_eq hshared).1.symm.trans (entry_name.mp hcomponent)
  cases (tables_eq hshared).2.1.symm.trans (entry_name.mp hrole)
  split at h
  · cases h
  · rename_i sent hseal
    obtain ⟨hvalid,hsent⟩ := throw_ite_eq_ok.mp h
    cases hsent
    have hhash := hverify _ _ hseal
    obtain ⟨hash,-,rfl⟩ := Option.map_eq_some_iff.mp hseal
    refine ⟨kind,hshared,rfl,rfl,⟨_,rfl⟩,check_eq_ok.mpr ⟨(Bool.not_eq_false _).mp hvalid,hhash,htransition,?_⟩⟩
    refine ⟨_,entry_name.mpr (tables_eq hshared).2.2,mem_map_of_mem (roleByKind_mem kind),_,
      componentFor_eq hshared _,?_⟩
    rw [componentFor_roleByKind]
    simp only [expected, payload, Message.build, forall_mem_cons, not_mem_nil, false_imp_iff, implies_true, and_true]

/-! ### One message -/

theorem Linked.add (h : Linked p c) {id : String} (hid : message.messageId = .str id)
    (hkind : message.kind = .str kind.name) (hshared : kind.Shared) : Linked (p.add message) (c.add message) := by
  refine ⟨congrArg (· ++ [message]) h.messages,h.context,h.identities,?_⟩
  intro sent hmem
  rcases mem_append.mp hmem with hmem | hmem
  · exact h.known sent hmem
  · cases mem_singleton.mp hmem
    exact ⟨id,kind,hid,hkind,hshared⟩

section Sends
variable (hverify : ∀ m m', contracts.sealContentHash m = some m' → contracts.verifyContentHash m' = true)
  (h : Linked p c)
include hverify h

theorem Linked.parent_sends {senderRole : Option String}
    (hsend : (WorkerProtocolTranscript.append contracts name body createdAtUtcMs senderRole).run.run p =
      (.ok message, p')) :
    ∃ kind : Kind, name = kind.name ∧
      (kind.Shared → (accept contracts message).run.run c = (.ok message, c.add message) ∧ Linked p' (c.add message)) ∧
      (¬kind.Shared → ∀ c', (accept contracts message).run.run c ≠ (.ok message, c')) := by
  obtain ⟨kind,hcompose,hend,rfl⟩ := WorkerProtocolTranscript.append_eq_ok.mp hsend
  obtain ⟨hname,hkind,⟨id,hid⟩,hcheck⟩ := WorkerProtocolTranscript.check_of_compose hverify hcompose
  refine ⟨kind,hname,fun hshared => ⟨?_,h.add hid hkind hshared⟩,fun hshared c' haccept => ?_⟩
  · refine accept_eq_ok.mpr ⟨(h.check_iff hkind).mpr ⟨hcheck,hshared⟩,?_,rfl,rfl⟩
    rw [hkind, rejectsEnd_iff, ← h.messages]
    exact hend
  · exact hshared ((h.check_iff hkind).mp (accept_eq_ok.mp haccept).1).2

theorem Linked.child_sends (hsend : (append contracts name body createdAtUtcMs).run.run c = (.ok message, c')) :
    (WorkerProtocolTranscript.accept contracts message).run.run p = (.ok message, p.add message) ∧
      Linked (p.add message) c' := by
  obtain ⟨hcompose,hend,rfl⟩ := append_eq_ok.mp hsend
  obtain ⟨kind,hshared,rfl,hkind,⟨id,hid⟩,hcheck⟩ := check_of_compose hverify hcompose
  refine ⟨?_,h.add hid hkind hshared⟩
  refine WorkerProtocolTranscript.accept_eq_ok.mpr ⟨kind,((h.check_iff hkind).mp hcheck).1,?_,rfl,rfl⟩
  rw [h.messages, ← rejectsEnd_iff]
  exact hend

end Sends

/-! ### The start -/

section Versions
variable {rows : List (Option WheelIdentity)} {known : List (String × String)} {all : List (Value × String)}
  (hparent : WorkerProtocolTranscript.versions rows = .ok known) (hchild : versions rows = .ok all)
include hparent hchild

theorem versions_agree (name : String) : lastEntry (.str name) all = lastEntry name known := by
  induction rows generalizing known all with
  | nil =>
    cases hparent
    cases hchild
    rfl
  | cons _ _ ih =>
    unfold versions at hchild
    split at hchild
    · rename_i heq
      cases heq
    · rename_i wheel version rest heq
      cases heq
      obtain ⟨all',hrest,hall⟩ := bind_eq_ok.mp hchild
      cases hall
      unfold WorkerProtocolTranscript.versions at hparent
      split at hparent
      · rename_i heq
        cases heq
      · rename_i text version' rest heq
        cases heq
        obtain ⟨parsed,hparsed,h⟩ := bind_eq_ok.mp hparent
        obtain ⟨known',hknown,hpair⟩ := bind_eq_ok.mp h
        cases hpair
        have hversion : semver version = parsed := by
          unfold WorkerProtocolTranscript.semver at hparsed
          split at hparsed
          · rename_i value heq
            cases heq
            obtain ⟨-,hparsed⟩ := throw_ite_eq_ok.mp hparsed
            cases hparsed
            rfl
          · cases hparsed
        simp only [lastEntry, ih hknown hrest, hversion, Value.str.injEq]
      · rename_i rest hskipped heq
        cases heq
        have hne : wheel ≠ .str name := by
          rintro rfl
          exact hskipped name _ rfl
        simp only [lastEntry, ih hparent hrest, hne, if_false, Option.or_none]
    · cases hchild

theorem identity_agree {commits : List (String × Value)} {component : Component} {x y : String × Value}
    (hx : componentIdentity known commits component = .ok x)
    (hy : identity all commits component = .ok y) : x = y := by
  unfold componentIdentity at hx
  unfold identity at hy
  rw [versions_agree hparent hchild] at hy
  split at hx
  · rename_i version commit hversion hcommit
    simp only [hversion, hcommit] at hy
    obtain ⟨-,hx⟩ := ite_throw_eq_ok.mp hx
    cases hx
    cases hy
    rfl
  · cases hx

end Versions

theorem linked_create {context : ExecutionContext} (hparent : WorkerProtocolTranscript.create contracts context = .ok p)
    (hchild : create contracts context = .ok c) : Linked p c := by
  obtain ⟨hcontext,hempty,hcomponents⟩ := create_eq_ok hparent
  obtain ⟨-,hchild⟩ := throw_ite_eq_ok.mp hchild
  obtain ⟨-,hchild⟩ := throw_ite_eq_ok.mp hchild
  split at hchild
  · rename_i commits wheels hcommits hwheels
    obtain ⟨all,hall,hchild⟩ := bind_eq_ok.mp hchild
    obtain ⟨openpine,hopenpine,hchild⟩ := bind_eq_ok.mp hchild
    obtain ⟨pinelib,hpinelib,hchild⟩ := bind_eq_ok.mp hchild
    obtain ⟨backtestEngine,hbacktestEngine,hchild⟩ := bind_eq_ok.mp hchild
    cases hchild
    unfold componentIdentities at hcomponents
    simp only [hcommits, hwheels] at hcomponents
    obtain ⟨known,hknown,hcomponents⟩ := bind_eq_ok.mp hcomponents
    obtain ⟨x,hx,hcomponents⟩ := bind_eq_ok.mp hcomponents
    obtain ⟨y,hy,hcomponents⟩ := bind_eq_ok.mp hcomponents
    obtain ⟨z,hz,hcomponents⟩ := bind_eq_ok.mp hcomponents
    refine ⟨hempty,hcontext,?_,fun _ hmem => absurd hmem not_mem_nil⟩
    cases identity_agree hknown hall hx hopenpine
    cases identity_agree hknown hall hy hpinelib
    cases identity_agree hknown hall hz hbacktestEngine
    exact (Except.ok.inj hcomponents).symm
  · cases hchild

/-! ### Runs of the two sides -/

structure Ends (B : Type) where
  parent : WorkerProtocolTranscript B
  child : Protocol B

/-- One side appends a message and sends it to the other. -/
inductive Move (B : Type)
  | parent (kind : String) (body : B) (createdAtUtcMs : ℤ) (senderRole : Option String)
  | child (kind : String) (body : B) (createdAtUtcMs : ℤ)

namespace Move

def send (contracts : Contracts B) (ends : Ends B) : Move B → Except Raised (Message B) × Ends B
  | .parent kind body createdAtUtcMs senderRole =>
    let result := (WorkerProtocolTranscript.append contracts kind body createdAtUtcMs senderRole).run.run ends.parent
    (result.1, { ends with parent := result.2 })
  | .child kind body createdAtUtcMs =>
    let result := (append contracts kind body createdAtUtcMs).run.run ends.child
    (result.1, { ends with child := result.2 })

def receive (contracts : Contracts B) (ends : Ends B) (message : Message B) :
    Move B → Except Raised (Message B) × Ends B
  | .parent .. =>
    let result := (accept contracts message).run.run ends.child
    (result.1, { ends with child := result.2 })
  | .child .. =>
    let result := (WorkerProtocolTranscript.accept contracts message).run.run ends.parent
    (result.1, { ends with parent := result.2 })

/-- The parent does not send a message of a kind that the sandbox lacks. -/
def Shared : Move B → Prop
  | .parent kind .. => kind ≠ "CHECKPOINT" ∧ kind ≠ "RESTORE"
  | .child .. => True

end Move

def step (contracts : Contracts B) (ends : Ends B) (move : Move B) : Ends B :=
  match move.send contracts ends with
  | (.ok message, sent) => (move.receive contracts sent message).2
  | (.error _, sent) => sent

/-- What is sent is accepted, and both sides then hold the same messages. -/
def Delivered (contracts : Contracts B) (ends : Ends B) (move : Move B) : Prop :=
  ∀ message sent, move.send contracts ends = (.ok message, sent) →
    ∃ received, move.receive contracts sent message = (.ok message, received) ∧
      received.parent.messages = received.child.messages

section Steps
variable (hverify : ∀ m m', contracts.sealContentHash m = some m' → contracts.verifyContentHash m' = true)
  {ends : Ends B}
  {move : Move B} (h : Linked ends.parent ends.child)
include hverify h

theorem send_ok (hshared : move.Shared) {message : Message B} {sent : Ends B}
    (hsend : move.send contracts ends = (.ok message, sent)) :
    ∃ received, move.receive contracts sent message = (.ok message, received) ∧
      Linked received.parent received.child := by
  cases move with
  | parent name =>
    obtain ⟨hsent,rfl⟩ := Prod.mk.inj hsend
    obtain ⟨kind,rfl,haccept,-⟩ := h.parent_sends hverify (Prod.ext hsent rfl)
    have hkind : kind.Shared :=
      ⟨fun heq => hshared.1 (congrArg Kind.name heq),fun heq => hshared.2 (congrArg Kind.name heq)⟩
    obtain ⟨haccept,hlinked⟩ := haccept hkind
    simp only [Move.receive, haccept]
    exact ⟨_,rfl,hlinked⟩
  | child =>
    obtain ⟨hsent,rfl⟩ := Prod.mk.inj hsend
    obtain ⟨haccept,hlinked⟩ := h.child_sends hverify (Prod.ext hsent rfl)
    simp only [Move.receive, haccept]
    exact ⟨_,rfl,hlinked⟩

/-- A message that both ends share leaves them linked. -/
theorem linked_step (hshared : move.Shared) :
    Linked (step contracts ends move).parent (step contracts ends move).child := by
  unfold step
  rcases hsend : move.send contracts ends with ⟨e | message,sent⟩
  · cases move with
    | parent name body createdAtUtcMs senderRole =>
      obtain ⟨hsent,rfl⟩ := Prod.mk.inj hsend
      have hfails : ((Call.append name body createdAtUtcMs senderRole).perform contracts).run.run
          ends.parent = (.error e, _) := Prod.ext hsent rfl
      rw [← perform_error hfails] at h
      exact h
    | child name body createdAtUtcMs =>
      obtain ⟨hsent,rfl⟩ := Prod.mk.inj hsend
      have hfails : (append contracts name body createdAtUtcMs).run.run ends.child = (.error e, _) := Prod.ext hsent rfl
      rw [← append_error hfails] at h
      exact h
  · obtain ⟨received,hreceive,hlinked⟩ := send_ok hverify h hshared hsend
    simp only [hreceive]
    exact hlinked

end Steps

/-- After every sequence of messages in which the parent sends neither `CHECKPOINT` nor
`RESTORE`, both sides hold the same messages, and whatever either side sends next is
accepted by the other. A message of one of the two kinds that the parent sends is not. -/
theorem transcripts_agree (contracts : Contracts B)
    (hverify : ∀ m m', contracts.sealContentHash m = some m' → contracts.verifyContentHash m' = true)
    (context : ExecutionContext) (p : WorkerProtocolTranscript B) (c : Protocol B)
    (hparent : WorkerProtocolTranscript.create contracts context = .ok p) (hchild : create contracts context = .ok c)
    (moves : List (Move B)) (hmoves : ∀ move ∈ moves, move.Shared) :
    let ends := Runs.run (step contracts) ⟨p,c⟩ moves
    ends.parent.messages = ends.child.messages ∧ (∀ move, move.Shared → Delivered contracts ends move) ∧
    ∀ (move : Move B) message sent, ¬move.Shared → move.send contracts ends = (.ok message, sent) →
      ∀ received, move.receive contracts sent message ≠ (.ok message, received) := by
  have hlinked : Linked (Runs.run (step contracts) ⟨p,c⟩ moves).parent
    (Runs.run (step contracts) ⟨p,c⟩ moves).child := by
    apply run_invariant_of_mem (P := fun ends : Ends B => Linked ends.parent ends.child)
    · exact fun ends move hmem h => linked_step hverify h (hmoves move hmem)
    · exact linked_create hparent hchild
  refine ⟨hlinked.messages,?_,?_⟩
  · intro move hshared message sent hsend
    obtain ⟨received,hreceive,hnext⟩ := send_ok hverify hlinked hshared hsend
    exact ⟨received,hreceive,hnext.messages⟩
  · intro move message sent hshared hsend received hreceive
    cases move with
    | child => exact hshared trivial
    | parent =>
      obtain ⟨hsent,rfl⟩ := Prod.mk.inj hsend
      obtain ⟨kind,rfl,-,hrejects⟩ := hlinked.parent_sends hverify (Prod.ext hsent rfl)
      obtain ⟨hreceived,-⟩ := Prod.mk.inj hreceive
      refine hrejects (fun hkind => hshared ?_) _ (Prod.ext hreceived rfl)
      exact ⟨fun heq => hkind.1 (Kind.name_injective heq),fun heq => hkind.2 (Kind.name_injective heq)⟩

def sample : Protocol String where
  context := .sample
  identities := WorkerProtocolTranscript.sample.components
  messages := []

def initMoves : List (Move String) :=
  [.child "HELLO" "" 0, .parent "LOAD_ARTIFACT" "" 0 none, .parent "INIT_RUN" "" 0 none]

/-- After `INIT_RUN` the parent sends `RESTORE`, which the sandbox rejects. -/
theorem restore_rejected :
    let ends := Runs.run (step .plain) ⟨.sample,sample⟩ initMoves
    let move : Move String := .parent "RESTORE" "" 0 none
    ends.parent.messages = ends.child.messages ∧
    (∃ message sent, move.send .plain ends = (.ok message, sent) ∧
      (move.receive .plain sent message).1 = .error (.protocol "invalid worker protocol transition")) ∧
    (step .plain ends move).parent.messages.length = 4 ∧ (step .plain ends move).child.messages.length = 3 :=
  ⟨by decide +kernel,⟨_,_,rfl,by rfl⟩,by decide +kernel,by decide +kernel⟩

theorem bar_delivered :
    let moves : List (Move String) := initMoves ++ [.parent "BAR_BEGIN" "" 0 none, .child "INTENT_BATCH" "" 0,
      .parent "BAR_COMMIT" "" 0 none]
    let ends := Runs.run (step .plain) ⟨.sample,sample⟩ moves
    ends.parent.messages.length = 6 ∧ ends.parent.messages = ends.child.messages ∧
    Delivered .plain ends (.parent "ABORT" "" 0 (some "engine")) := by
  have hagree := transcripts_agree .plain (fun m m' hseal => ?_) .sample .sample sample (by rfl) (by rfl)
    (initMoves ++ [.parent "BAR_BEGIN" "" 0 none, .child "INTENT_BATCH" "" 0, .parent "BAR_COMMIT" "" 0 none]) ?_
  · exact ⟨by decide +kernel,hagree.1,hagree.2.1 _ ⟨by decide,by decide⟩⟩
  · obtain ⟨hash,hhash,rfl⟩ := Option.map_eq_some_iff.mp hseal
    cases hhash
    rfl
  · simp [initMoves, Move.Shared]

end Protocol
end OpenPine.Runtime
