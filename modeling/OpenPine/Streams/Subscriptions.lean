import OpenPine.Foundation.Python
import OpenPine.Foundation.Runs

/-! # Subscriptions of the stream manager

`subscribe` looks for an active subscription of the instrument and timeframe before it makes one. The other three
methods set the status of a subscription, whatever it was.
-/
namespace OpenPine.Streams
open Runs Python Option

inductive SubscriptionStatus
  | active | paused | stopped
deriving DecidableEq

/-- `K` and `T` are instrument keys and timeframes in their serialized form. -/
structure StreamSubscription (K T : Type) where
  subscriptionId : String
  instrumentKey : K
  timeframe : T
  status : SubscriptionStatus := .active
  provider : String := "marketdata-provider"
deriving DecidableEq

variable {K T : Type} [DecidableEq K] [DecidableEq T]

def StreamSubscription.create (uuid : String) (instrumentKey : K) (timeframe : T) : StreamSubscription K T :=
  { subscriptionId := "sub_" ++ uuid, instrumentKey := instrumentKey, timeframe := timeframe }

def StreamSubscription.Serves (sub : StreamSubscription K T) (instrumentKey : K) (timeframe : T) : Prop :=
  sub.status = .active ∧ sub.instrumentKey = instrumentKey ∧ sub.timeframe = timeframe

instance decidableServes (sub : StreamSubscription K T) (instrumentKey : K) (timeframe : T) :
    Decidable (sub.Serves instrumentKey timeframe) := inferInstanceAs (Decidable (_ ∧ _ ∧ _))

/-- `MarketDataStreamManager._subscriptions` -/
abbrev Subscriptions (K T : Type) := Dict String (StreamSubscription K T)

namespace Subscriptions

def subscribe (m : Subscriptions K T) (instrumentKey : K) (timeframe : T) (uuid : String) :
    StreamSubscription K T × Subscriptions K T :=
  match m.values.find? (fun sub => sub.Serves instrumentKey timeframe) with
  | some sub => (sub, m)
  | none =>
    let sub := StreamSubscription.create uuid instrumentKey timeframe
    (sub, m.put sub.subscriptionId sub)

def setStatus (m : Subscriptions K T) (subscriptionId : String) (status : SubscriptionStatus) : Subscriptions K T :=
  match m.get? subscriptionId with
  | none => m
  | some sub => m.put subscriptionId { sub with status := status }

def unsubscribe (m : Subscriptions K T) (subscriptionId : String) : Subscriptions K T :=
  m.setStatus subscriptionId .stopped

def pause (m : Subscriptions K T) (subscriptionId : String) : Subscriptions K T := m.setStatus subscriptionId .paused

def resume (m : Subscriptions K T) (subscriptionId : String) : Subscriptions K T := m.setStatus subscriptionId .active

inductive Call (K T : Type)
  | subscribe (instrumentKey : K) (timeframe : T) (uuid : String)
  | unsubscribe (subscriptionId : String)
  | pause (subscriptionId : String)
  | resume (subscriptionId : String)

def step (m : Subscriptions K T) : Call K T → Subscriptions K T
  | .subscribe instrumentKey timeframe uuid => (m.subscribe instrumentKey timeframe uuid).2
  | .unsubscribe id => m.unsubscribe id
  | .pause id => m.pause id
  | .resume id => m.resume id

/-- At most one subscription of each instrument and timeframe is active. -/
def Unique (m : Subscriptions K T) : Prop :=
  ∀ id id' sub sub', m.get? id = some sub → m.get? id' = some sub' → sub.status = .active →
    sub'.Serves sub.instrumentKey sub.timeframe → id = id'

def Stopped (m : Subscriptions K T) (id : String) : Prop := ∃ sub, m.get? id = some sub ∧ sub.status = .stopped

def StayStopped (m m' : Subscriptions K T) : Prop := ∀ id, m.Stopped id → m'.Stopped id

/-- A subscription is resumed while another one has taken its place. -/
def Doubles (m : Subscriptions K T) : Call K T → Prop
  | .resume id => ∃ sub, m.get? id = some sub ∧
      ∃ id' sub', id ≠ id' ∧ m.get? id' = some sub' ∧ sub'.Serves sub.instrumentKey sub.timeframe
  | _ => False

/-- A stopped subscription is paused or resumed, or its id is drawn again for a new one. -/
def Revives (m : Subscriptions K T) : Call K T → Prop
  | .subscribe instrumentKey timeframe uuid =>
    (∀ sub ∈ m.values, ¬sub.Serves instrumentKey timeframe) ∧ m.Stopped ("sub_" ++ uuid)
  | .unsubscribe _ => False
  | .pause id => m.Stopped id
  | .resume id => m.Stopped id

variable {m : Subscriptions K T} {id id' : String} {status : SubscriptionStatus}

omit [DecidableEq K] [DecidableEq T] in
theorem mem_values {sub : StreamSubscription K T} (h : m.get? id = some sub) : sub ∈ m.values := by
  obtain ⟨p,hp,rfl⟩ := map_eq_some_iff.mp h
  exact List.mem_map_of_mem (Table.find?_eq_some.mp hp).1

omit [DecidableEq K] [DecidableEq T] in
theorem get?_setStatus (status : SubscriptionStatus) : (m.setStatus id status).get? id' =
    if id = id' then (m.get? id).map fun sub => { sub with status := status } else m.get? id' := by
  unfold setStatus
  cases h : m.get? id with
  | some => exact Dict.get?_put m id _ id'
  | none =>
    by_cases he : id = id'
    · rw [if_pos he, ← he, h, map_none]
    · rw [if_neg he]

theorem subscribe_cases (instrumentKey : K) (timeframe : T) (uuid : String) :
    (m.subscribe instrumentKey timeframe uuid).2 = m ∧ (∃ sub ∈ m.values, sub.Serves instrumentKey timeframe) ∨
      (∀ sub ∈ m.values, ¬sub.Serves instrumentKey timeframe) ∧
        (m.subscribe instrumentKey timeframe uuid).2 = m.put ("sub_" ++ uuid)
        (.create uuid instrumentKey timeframe) := by
  unfold subscribe
  cases h : m.values.find? (fun sub => sub.Serves instrumentKey timeframe) with
  | some sub => exact .inl ⟨rfl,sub,List.mem_of_find?_eq_some h,by simpa using List.find?_some h⟩
  | none => exact .inr ⟨by simpa using h,rfl⟩

theorem Unique.subscribe (h : m.Unique) (instrumentKey : K) (timeframe : T) (uuid : String) :
    (m.subscribe instrumentKey timeframe uuid).2.Unique := by
  obtain ⟨hsame,-⟩ | ⟨hnone,hnew⟩ := m.subscribe_cases instrumentKey timeframe uuid
  · rw [hsame]
    exact h
  rw [hnew]
  intro id id' sub sub' hsub hsub' hactive hserves
  rw [Dict.get?_put] at hsub hsub'
  split at hsub <;> split at hsub' <;> rename_i hid hid'
  · exact hid.symm.trans hid'
  · cases hsub
    exact absurd hserves (hnone _ (mem_values hsub'))
  · cases hsub'
    exact absurd ⟨hactive,hserves.2.1.symm,hserves.2.2.symm⟩ (hnone _ (mem_values hsub))
  · exact h id id' sub sub' hsub hsub' hactive hserves

omit [DecidableEq K] [DecidableEq T] in
/-- A status other than ACTIVE makes no subscription active. -/
theorem Unique.setStatus (h : m.Unique) (id : String) (hstatus : status ≠ .active) :
    (m.setStatus id status).Unique := by
  have hold {j : String} {sub : StreamSubscription K T} (hsub : (m.setStatus id status).get? j = some sub)
      (hactive : sub.status = .active) : m.get? j = some sub := by
    rw [get?_setStatus] at hsub
    split at hsub
    · obtain ⟨_,_,rfl⟩ := map_eq_some_iff.mp hsub
      exact absurd hactive hstatus
    · exact hsub
  intro i j sub sub' hsub hsub' hactive hserves
  exact h i j sub sub' (hold hsub hactive) (hold hsub' hserves.1) hactive hserves

omit [DecidableEq K] [DecidableEq T] in
theorem unique_resume_iff (h : m.Unique) (id : String) : (m.resume id).Unique ↔ ¬m.Doubles (.resume id) := by
  constructor
  · rintro hunique ⟨sub,hsub,id',sub',hne,hsub',hserves⟩
    refine hne (hunique id id' { sub with status := .active } sub' ?_ ?_ rfl hserves)
    · rw [resume, get?_setStatus, if_pos rfl, hsub, map_some]
    · rw [resume, get?_setStatus, if_neg hne, hsub']
  · intro hdoubles i j sub sub' hsub hsub' hactive hserves
    rw [resume, get?_setStatus] at hsub hsub'
    split at hsub <;> split at hsub' <;> rename_i hi hj
    · exact hi.symm.trans hj
    · obtain ⟨old,hold,rfl⟩ := map_eq_some_iff.mp hsub
      exact absurd ⟨old,hold,j,sub',hj,hsub',hserves⟩ hdoubles
    · obtain ⟨old,hold,rfl⟩ := map_eq_some_iff.mp hsub'
      exact absurd ⟨old,hold,i,sub,hi,hsub,hactive,hserves.2.1.symm,hserves.2.2.symm⟩ hdoubles
    · exact h i j sub sub' hsub hsub' hactive hserves

/-- A call keeps the subscriptions unique exactly if it doubles none. -/
theorem unique_step_iff (h : m.Unique) (c : Call K T) : (m.step c).Unique ↔ ¬m.Doubles c := by
  cases c with
  | subscribe instrumentKey timeframe uuid => exact iff_of_true (h.subscribe instrumentKey timeframe uuid) id
  | unsubscribe i | pause i => exact iff_of_true (h.setStatus i (by simp)) id
  | resume i => exact unique_resume_iff h i

omit [DecidableEq K] [DecidableEq T] in
theorem stayStopped_setStatus_iff (hstatus : status ≠ .stopped) : m.StayStopped (m.setStatus id status) ↔
    ¬m.Stopped id := by
  constructor
  · intro h hstopped
    obtain ⟨sub,hsub,hnew⟩ := h id hstopped
    rw [get?_setStatus, if_pos rfl] at hsub
    obtain ⟨_,_,rfl⟩ := map_eq_some_iff.mp hsub
    exact hstatus hnew
  · rintro h j ⟨sub,hsub,hold⟩
    have hne : id ≠ j := by
      rintro rfl
      exact h ⟨sub,hsub,hold⟩
    exact ⟨sub,by rw [get?_setStatus, if_neg hne, hsub],hold⟩

/-- Stopped subscriptions stay so exactly if the call revives none. -/
theorem stayStopped_step_iff (m : Subscriptions K T) (c : Call K T) : m.StayStopped (m.step c) ↔ ¬m.Revives c := by
  cases c with
  | subscribe instrumentKey timeframe uuid =>
    simp only [step, Revives]
    obtain ⟨hsame,hsome⟩ | ⟨hnone,hnew⟩ := m.subscribe_cases instrumentKey timeframe uuid
    · rw [hsame]
      obtain ⟨sub,hmem,hserves⟩ := hsome
      exact iff_of_true (fun _ h => h) fun h => h.1 sub hmem hserves
    · rw [hnew, and_iff_right hnone]
      constructor
      · intro h hstopped
        obtain ⟨sub,hsub,hold⟩ := h _ hstopped
        rw [Dict.get?_put, if_pos rfl] at hsub
        cases hsub
        cases hold
      · rintro h j ⟨sub,hsub,hold⟩
        refine ⟨sub,?_,hold⟩
        rw [Dict.get?_put, if_neg, hsub]
        rintro rfl
        exact h ⟨sub,hsub,hold⟩
  | unsubscribe =>
    refine iff_of_true ?_ id
    rintro j ⟨sub,hsub,hold⟩
    unfold Stopped
    rw [step, unsubscribe, get?_setStatus]
    split <;> rename_i he
    · rw [he, hsub]
      exact ⟨_,rfl,rfl⟩
    · exact ⟨sub,hsub,hold⟩
  | pause | resume => exact stayStopped_setStatus_iff (by simp)

/-- Over any calls from an empty manager, active subscriptions are unique exactly if none is resumed beside another one,
and stopped subscriptions stay stopped exactly if no call revives one. -/
theorem subscriptions_sound_iff (calls : List (Call K T)) :
    (Always step Unique .empty calls ↔ EachStep step (fun m c => ¬m.Doubles c) .empty calls) ∧
      ((∀ n k, n ≤ k → StayStopped (run step .empty (calls.take n)) (run step .empty (calls.take k))) ↔
        EachStep step (fun m c => ¬m.Revives c) .empty calls) := by
  constructor
  · exact always_iff_eachStep (I := fun _ => True) (fun _ _ _ => trivial) (fun m c _ h => unique_step_iff h c) trivial
      (by rintro _ _ _ _ ⟨⟩) calls
  · rw [take_rel_iff_eachStep (R := StayStopped) (fun m id h => h) (fun a b c hab hbc id h => hbc id (hab id h))]
    simp only [stayStopped_step_iff]

/-- A paused subscription is replaced by a new one and resumed, and a stopped one is resumed. -/
theorem resumed_twice : ∃ m : Subscriptions Unit Unit,
    m = run step .empty [.subscribe () () "a", .pause "sub_a", .subscribe () () "b", .resume "sub_a"] ∧ ¬m.Unique ∧
      ¬StayStopped (run step .empty [.subscribe () () "a", .unsubscribe "sub_a"])
        (run step .empty [.subscribe () () "a", .unsubscribe "sub_a",
          Call.resume "sub_a" (K := Unit) (T := Unit)]) := by
  refine ⟨_,rfl,fun h => ?_,fun h => ?_⟩
  · have hsame := h "sub_a" "sub_b" (.create "a" () ()) (.create "b" () ()) (by decide) (by decide) rfl ⟨rfl,rfl,rfl⟩
    exact absurd hsame (by decide)
  · obtain ⟨sub,hsub,hstatus⟩ :=
      h "sub_a" ⟨{ StreamSubscription.create "a" () () with status := .stopped },by decide,rfl⟩
    have hactive : (run step .empty [.subscribe () () "a", .unsubscribe "sub_a",
      Call.resume "sub_a" (K := Unit) (T := Unit)]).get?
        "sub_a" = some (.create "a" () ()) := by decide
    rw [hactive] at hsub
    cases hsub
    cases hstatus

end Subscriptions
end OpenPine.Streams
