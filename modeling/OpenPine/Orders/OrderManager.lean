import Mathlib.Data.List.Nodup
import OpenPine.Foundation.Runs
import OpenPine.Orders.Models
import OpenPine.Storage.SQLiteStorage

/-! # De-duplication of orders

An `OrderManager` keeps the client order ids that it has seen beside the table of the orders,
whose column `client_order_id` is unique. It adds an id to its set before it inserts the order
and commits; when one of the two raises, the id stays in the set. The managers of one storage
share its connection, and with it a transaction that a failed call has left open.
-/
namespace OpenPine.Orders
open Hoare Sqlite Storage Runs List

structure OrderRow where
  (orderId strategyId accountId : String)
  providerOrderId : Option String
  (clientOrderId symbol side orderType : String)
  qty : Number
  (limitPrice stopPrice : Option Number)
  status : String
  reduceOnly : Bool
  filledQuantity : Number
  avgFillPrice : Option Number
  intentJson : String
  (riskDecisionJson error : Option String)
  (createdAt updatedAt : ℤ)
deriving DecidableEq

abbrev OrderTable := List OrderRow

/-- The constraints of the table. SQLite takes NaN for NULL. -/
def insertOrder (row : OrderRow) (orders : OrderTable) : Except Raised (Unit × OrderTable) :=
  if row.qty = .nan then .error (.exception "NOT NULL constraint failed: orders.qty")
  else if row.orderId ∈ orders.map OrderRow.orderId then .error (.exception "UNIQUE constraint failed: orders.order_id")
  else if row.clientOrderId ∈ orders.map OrderRow.clientOrderId then
    .error (.exception "UNIQUE constraint failed: orders.client_order_id")
  else .ok ((), orders ++ [row])

structure Faults where
  insert : Option (Fault Raised) := none
  commit : Option (Fault Raised) := none

structure OrderManager where
  seenClientIds : List String

namespace OrderManager

def create (conn : Connection OrderTable) : OrderManager := ⟨conn.view.map OrderRow.clientOrderId⟩

/-- What a call finds outside: the new order id, the clock and the JSON text of the intent. -/
structure Given where
  orderId : String
  now : ℤ
  intentJson : OrderIntent → String

def row (g : Given) (order : OrderIntent) : OrderRow where
  orderId := g.orderId
  strategyId := order.strategyId
  accountId := order.accountId
  providerOrderId := none
  clientOrderId := order.clientOrderId
  symbol := order.symbol
  side := order.side.value
  orderType := order.orderType.value
  qty := order.quantity
  limitPrice := order.price
  stopPrice := order.stopPrice
  status := OrderStatus.pending.value
  reduceOnly := false
  filledQuantity := .finite 0
  avgFillPrice := none
  intentJson := g.intentJson order
  riskDecisionJson := none
  error := none
  createdAt := order.createdAt
  updatedAt := g.now

def accepted (g : Given) (order : OrderIntent) : Order where
  orderId := g.orderId
  clientOrderId := order.clientOrderId
  strategyId := order.strategyId
  accountId := order.accountId
  symbol := order.symbol
  side := order.side
  orderType := order.orderType
  quantity := order.quantity
  price := order.price
  stopPrice := order.stopPrice
  status := .pending
  createdAt := order.createdAt
  updatedAt := g.now

def store (faults : Faults) (row : OrderRow) : Method OrderTable Unit :=
  Connection.executeThenCommit faults.insert faults.commit (insertOrder row)

def submitOrder (m : OrderManager) (faults : Faults) (g : Given) (order : OrderIntent) (conn : Connection OrderTable) :
    Except Raised (Option Order) × OrderManager × Connection OrderTable :=
  if order.clientOrderId ∈ m.seenClientIds then (.ok none, m, conn)
  else
    let m := ⟨order.clientOrderId :: m.seenClientIds⟩
    match (store faults (row g order)).run.run conn with
    | (.ok _, conn) => (.ok (some (accepted g order)), m, conn)
    | (.error e, conn) => (.error e, m, conn)

section Equations
variable {m : OrderManager} {faults : Faults} {g : Given} {order : OrderIntent} {conn conn' : Connection OrderTable}

theorem submitOrder_seen (h : order.clientOrderId ∈ m.seenClientIds) :
    m.submitOrder faults g order conn = (.ok none, m, conn) := by rw [submitOrder, if_pos h]

theorem submitOrder_ok (h : order.clientOrderId ∉ m.seenClientIds)
    (hrun : (store faults (row g order)).run.run conn = (.ok (), conn')) :
    m.submitOrder faults g order conn = (.ok (some (accepted g order)), ⟨order.clientOrderId :: m.seenClientIds⟩,
      conn') := by
  rw [submitOrder, if_neg h, hrun]

theorem submitOrder_error {why : Raised} (h : order.clientOrderId ∉ m.seenClientIds)
    (hrun : (store faults (row g order)).run.run conn = (.error why, conn')) :
    m.submitOrder faults g order conn = (.error why, ⟨order.clientOrderId :: m.seenClientIds⟩, conn') := by
  rw [submitOrder, if_neg h, hrun]

end Equations

end OrderManager

open OrderManager

/-- Managers of one storage, and the intents whose submission has raised, with their managers. -/
structure World where
  conn : Connection OrderTable := ⟨[],none⟩
  managers : List OrderManager := []
  raised : List (ℕ × OrderIntent) := []

inductive Event
  | create
  | submit (i : ℕ) (order : OrderIntent) (given : OrderManager.Given) (faults : Faults)

namespace World

def stored (w : World) (id : String) : Prop := id ∈ w.conn.stored.map OrderRow.clientOrderId

instance (w : World) (id : String) : Decidable (w.stored id) := inferInstanceAs (Decidable (_ ∈ _))

def answer (w : World) (i : ℕ) (order : OrderIntent) (g : OrderManager.Given) (faults : Faults) :
    Option (Except Raised (Option Order)) := w.managers[i]?.map fun m => (m.submitOrder faults g order w.conn).1

def step (w : World) : Event → World
  | .create => { w with managers := w.managers ++ [.create w.conn] }
  | .submit i order g faults =>
    match w.managers[i]? with
    | none => w
    | some m =>
      let (result, m', conn) := m.submitOrder faults g order w.conn
      ⟨conn,w.managers.set i m',match result with
        | .ok _ => w.raised
        | .error _ => (i, order) :: w.raised⟩

def AtMostOne (w : World) : Prop := (w.conn.stored.map OrderRow.clientOrderId).Nodup

/-- An order is only refused as a duplicate if an order with its id is stored. -/
def RefusesOnlyStored (w : World) : Prop :=
  ∀ i order g faults, w.answer i order g faults = some (.ok none) → w.stored order.clientOrderId

/-- An intent whose submission has raised is accepted when it is submitted again, unless an
order with its id is stored. Nothing fails from outside, the order id is new and the quantity
is a number. -/
def AcceptsAgain (w : World) : Prop :=
  ∀ i order g, (i, order) ∈ w.raised → ¬w.stored order.clientOrderId → order.quantity ≠ .nan →
    g.orderId ∉ w.conn.stored.map OrderRow.orderId →
    w.answer i order g {} = some (.ok (some (OrderManager.accepted g order)))

/-- The insertion or the commit fails from outside, or the table refuses the row. -/
def Fails (faults : Faults) (row : OrderRow) (orders : OrderTable) : Prop :=
  faults.insert ≠ none ∨ faults.commit ≠ none ∨ ∀ d, insertOrder row orders ≠ .ok ((), d)

/-- An order that is neither in the set of its manager nor stored fails. -/
def Forgets (w : World) : Event → Prop
  | .create => False
  | .submit i order g faults => (∃ m, w.managers[i]? = some m ∧ order.clientOrderId ∉ m.seenClientIds) ∧
      ¬w.stored order.clientOrderId ∧ Fails faults (OrderManager.row g order) w.conn.view

/-- What a call does that does not find the id in the set of its manager. -/
inductive Stores (faults : Faults) (c : Connection OrderTable) (row : OrderRow) :
    Except Raised Unit → Connection OrderTable → Prop
  | raises (why : Raised) {pending : Option OrderTable} (hfails : Fails faults row c.view)
      (h : ∀ d ∈ pending, d = c.view ∨ insertOrder row c.view = .ok ((), d)) :
      Stores faults c row (.error why) ⟨c.stored,pending⟩
  | stores {d : OrderTable} (hfails : ¬Fails faults row c.view) (h : insertOrder row c.view = .ok ((), d)) :
      Stores faults c row (.ok ()) ⟨d,none⟩

theorem stores_store (faults : Faults) (row : OrderRow) (c : Connection OrderTable) :
    Stores faults c row ((store faults row).run.run c).1 ((store faults row).run.run c).2 := by
  unfold store
  rw [Connection.run_executeThenCommit]
  have hleft : ∀ (f : Fault Raised) (d : OrderTable), ∀ d' ∈ f.left d, d' = d := by
    rintro (e | e) d d' ⟨⟩
    rfl
  cases hfault : faults.insert with
  | some f => exact .raises _ (.inl (by simp [hfault])) fun d hd => .inl (hleft f _ d hd)
  | none =>
    cases hinsert : insertOrder row c.view with
    | error =>
      refine .raises _ (.inr (.inr (by simp [hinsert]))) fun d hd => .inl ?_
      cases hd
      rfl
    | ok =>
      cases hcommit : faults.commit with
      | some f => exact .raises _ (.inr (.inl (by simp [hcommit]))) fun d hd => .inr (by rw [hinsert, hleft f _ d hd])
      | none =>
        refine .stores ?_ hinsert
        rintro (hne | hne | hrefused)
        · exact hne hfault
        · exact hne hcommit
        · exact hrefused _ hinsert

theorem insertOrder_ok {row : OrderRow} {orders d : OrderTable} (h : insertOrder row orders = .ok ((), d)) :
    d = orders ++ [row] ∧ row.clientOrderId ∉ orders.map OrderRow.clientOrderId := by
  unfold insertOrder at h
  repeat' split at h
  all_goals cases h
  exact ⟨rfl,by assumption⟩

/-- The table that the connection sees extends what is stored and has no id twice. What is in
it and not stored was put there by a manager, which has seen it. -/
structure Inv (w : World) : Prop where
  grows : w.conn.stored <+: w.conn.view
  nodup : (w.conn.view.map OrderRow.clientOrderId).Nodup
  known : ∀ id ∈ w.conn.view.map OrderRow.clientOrderId, w.stored id ∨ ∃ m ∈ w.managers, id ∈ m.seenClientIds
  raised : ∀ p ∈ w.raised, p.1 < w.managers.length

def Faithful (w : World) : Prop := ∀ m ∈ w.managers, ∀ id ∈ m.seenClientIds, w.stored id

/-- The moves of the world: a new manager, a call that changes nothing, or one that has
tried to store its order. -/
inductive Happens (w : World) : Event → World → Prop
  | creates : Happens w .create { w with managers := w.managers ++ [.create w.conn] }
  | stays {e : Event} (h : ¬w.Forgets e) : Happens w e w
  | stores {i : ℕ} {m : OrderManager} (hi : w.managers[i]? = some m) (order : OrderIntent) (g : OrderManager.Given)
      (faults : Faults) {d : OrderTable} (hfails : ¬Fails faults (OrderManager.row g order) w.conn.view)
      (h : insertOrder (OrderManager.row g order) w.conn.view = .ok ((), d)) :
      Happens w (.submit i order g faults)
        { w with conn := ⟨d,none⟩, managers := w.managers.set i ⟨order.clientOrderId :: m.seenClientIds⟩ }
  | raises {i : ℕ} {m : OrderManager} (hi : w.managers[i]? = some m) (order : OrderIntent) (g : OrderManager.Given)
      (faults : Faults) {pending : Option OrderTable} (hseen : order.clientOrderId ∉ m.seenClientIds)
      (hfails : Fails faults (OrderManager.row g order) w.conn.view)
      (h : ∀ d ∈ pending, d = w.conn.view ∨ insertOrder (OrderManager.row g order) w.conn.view = .ok ((), d)) :
      Happens w (.submit i order g faults)
        ⟨⟨w.conn.stored,pending⟩,w.managers.set i ⟨order.clientOrderId :: m.seenClientIds⟩,(i, order) :: w.raised⟩

/-- All that one event can do. -/
theorem happens_step (w : World) (e : Event) : Happens w e (w.step e) := by
  cases e with
  | create => exact .creates
  | submit i order g faults =>
    simp only [step]
    cases hi : w.managers[i]? with
    | none =>
      refine .stays ?_
      rintro ⟨⟨m,hm,-⟩,-⟩
      cases hi.symm.trans hm
    | some m =>
      simp only
      by_cases hseen : order.clientOrderId ∈ m.seenClientIds
      · have hsubmit : m.submitOrder faults g order w.conn = (.ok none, m, w.conn) := submitOrder_seen hseen
        have hset : w.managers.set i m = w.managers := by
          obtain ⟨hlt,hget⟩ := List.getElem?_eq_some_iff.mp hi
          rw [← hget, set_getElem_self]
        simp only [hsubmit, hset]
        refine .stays ?_
        rintro ⟨⟨m',hm',hnot⟩,-⟩
        cases hi.symm.trans hm'
        exact hnot hseen
      · have hstores := stores_store faults (row g order) w.conn
        rcases hrun : (store faults (row g order)).run.run w.conn with ⟨result,c⟩
        rw [hrun] at hstores
        cases hstores with
        | raises why hfails hpending =>
          simp only [submitOrder_error hseen hrun]
          exact .raises hi order g faults hseen hfails hpending
        | stores hfails hd =>
          simp only [submitOrder_ok hseen hrun]
          exact .stores hi order g faults hfails hd

theorem seen_set {ms : List OrderManager} {i : ℕ} {m : OrderManager} (hi : ms[i]? = some m) (new id : String) :
    (∃ x ∈ ms.set i ⟨new :: m.seenClientIds⟩, id ∈ x.seenClientIds) ↔ id = new ∨ ∃ x ∈ ms, id ∈ x.seenClientIds := by
  obtain ⟨hlt,hm⟩ := List.getElem?_eq_some_iff.mp hi
  constructor
  · rintro ⟨x,hx,hid⟩
    rcases mem_or_eq_of_mem_set hx with hx | rfl
    · exact .inr ⟨x,hx,hid⟩
    · exact (mem_cons.mp hid).imp_right fun hid => ⟨m,hm ▸ getElem_mem hlt,hid⟩
  · rintro (rfl | ⟨x,hx,hid⟩)
    · exact ⟨_,mem_set hlt _,mem_cons_self⟩
    · obtain ⟨j,hj⟩ := List.getElem?_of_mem hx
      by_cases hij : i = j
      · subst hij
        obtain rfl : m = x := Option.some.inj (hi.symm.trans hj)
        exact ⟨_,mem_set hlt _,mem_cons_of_mem _ hid⟩
      · refine ⟨x,mem_of_getElem? (i := j) ?_,hid⟩
        rw [List.getElem?_set_ne hij, hj]

variable {w : World}

theorem Inv.insert (h : w.Inv) {g : Given} {order : OrderIntent} {d : OrderTable}
    (hd : insertOrder (row g order) w.conn.view = .ok ((), d)) :
    w.conn.stored <+: d ∧ (d.map OrderRow.clientOrderId).Nodup ∧
      ∀ id ∈ d.map OrderRow.clientOrderId, id ∈ w.conn.view.map OrderRow.clientOrderId ∨ id = order.clientOrderId := by
  obtain ⟨rfl,hnew⟩ := insertOrder_ok hd
  refine ⟨h.grows.trans (prefix_append _ _),?_,fun id hid => ?_⟩
  · rw [map_append, nodup_append]
    refine ⟨h.nodup,nodup_singleton _,?_⟩
    rintro id hid _ hid' rfl
    obtain rfl := mem_singleton.mp hid'
    exact hnew hid
  · rw [map_append, mem_append] at hid
    exact hid.imp_right mem_singleton.mp

/-- Every event keeps the invariant. -/
theorem step_inv (h : w.Inv) (e : Event) : (w.step e).Inv := by
  have hstep := happens_step w e
  generalize w.step e = w' at hstep ⊢
  cases hstep with
  | creates =>
    refine ⟨h.grows,h.nodup,fun id hid => ?_,fun p hp => ?_⟩
    · exact (h.known id hid).imp_right fun ⟨m,hm,hid⟩ => ⟨m,mem_append_left _ hm,hid⟩
    · have hlt := h.raised p hp
      simp only [length_append]
      omega
  | stays => exact h
  | stores _ _ _ _ _ hd =>
    obtain ⟨-,hnodup,-⟩ := h.insert hd
    refine ⟨prefix_rfl,hnodup,fun id hid => .inl hid,fun p hp => ?_⟩
    simpa using h.raised p hp
  | @raises i m hi order g faults pending _ _ hpending =>
    -- the new id is in the set of its manager, whether or not the row is in the transaction
    have hknown : ∀ id, id ∈ w.conn.view.map OrderRow.clientOrderId ∨ id = order.clientOrderId →
        w.stored id ∨ ∃ x ∈ w.managers.set i ⟨order.clientOrderId :: m.seenClientIds⟩, id ∈ x.seenClientIds := by
      rintro id (hid | rfl)
      · exact (h.known id hid).imp_right fun hseen => (seen_set hi _ _).mpr (.inr hseen)
      · exact .inr ((seen_set hi _ _).mpr (.inl rfl))
    have hraised : ∀ p ∈ (i, order) :: w.raised,
      p.1 < (w.managers.set i ⟨order.clientOrderId :: m.seenClientIds⟩).length := by
      rw [length_set]
      exact forall_mem_cons.mpr ⟨(List.getElem?_eq_some_iff.mp hi).1,h.raised⟩
    cases pending with
    | none => refine ⟨prefix_rfl,(h.grows.sublist.map _).nodup h.nodup,fun id hid => .inl hid,hraised⟩
    | some d =>
      rcases hpending d rfl with rfl | hd
      · exact ⟨h.grows,h.nodup,fun id hid => hknown id (.inl hid),hraised⟩
      · obtain ⟨hgrows,hnodup,hids⟩ := h.insert hd
        exact ⟨hgrows,hnodup,fun id hid => hknown id (hids id hid),hraised⟩

theorem Inv.atMostOne (h : w.Inv) : w.AtMostOne := (h.grows.sublist.map _).nodup h.nodup

theorem Inv.view_eq (h : w.Inv) (hfaithful : w.Faithful) : w.conn.view = w.conn.stored := by
  obtain ⟨extra,hview⟩ := h.grows
  cases extra with
  | nil => rw [← hview, append_nil]
  | cons row =>
    have hmem : row.clientOrderId ∈ w.conn.view.map OrderRow.clientOrderId :=
      mem_map_of_mem (by rw [← hview]; exact mem_append_right _ mem_cons_self)
    have hstored : w.stored row.clientOrderId := (h.known _ hmem).elim id fun ⟨m,hm,hid⟩ => hfaithful m hm _ hid
    have hnodup := h.nodup
    rw [← hview, map_append, nodup_append] at hnodup
    exact absurd rfl (hnodup.2.2 _ hstored _ mem_cons_self)

theorem refusesOnlyStored_iff (w : World) : w.RefusesOnlyStored ↔ w.Faithful := by
  constructor
  · intro h m hm id hid
    obtain ⟨i,hi⟩ := List.getElem?_of_mem hm
    refine h i ⟨id,"","","",.buy,.market,.finite 0,none,none,0⟩ ⟨"",0,fun _ => ""⟩ {} ?_
    simp [answer, hi, submitOrder, hid]
  · intro h i order g faults hanswer
    obtain ⟨m,hi,hresult⟩ := Option.map_eq_some_iff.mp hanswer
    by_cases hseen : order.clientOrderId ∈ m.seenClientIds
    · exact h m (mem_of_getElem? hi) _ hseen
    · -- a call that goes on to the table never answers with nothing
      rcases hrun : (store faults (row g order)).run.run w.conn with ⟨e | u,c⟩
      · rw [submitOrder_error hseen hrun] at hresult
        cases hresult
      · rw [submitOrder_ok hseen hrun] at hresult
        cases hresult

theorem Inv.acceptsAgain (h : w.Inv) (hfaithful : w.Faithful) : w.AcceptsAgain := by
  intro i order g hraised hstored hqty hfresh
  obtain ⟨m,hi⟩ : ∃ m, w.managers[i]? = some m := ⟨_,List.getElem?_eq_getElem (h.raised _ hraised)⟩
  have hseen : order.clientOrderId ∉ m.seenClientIds := fun hid => hstored (hfaithful m (mem_of_getElem? hi) _ hid)
  have hview := h.view_eq hfaithful
  have hinsert : insertOrder (row g order) w.conn.view = .ok ((), w.conn.view ++ [row g order]) := by
    rw [hview]
    exact (if_neg hqty).trans ((if_neg hfresh).trans (if_neg hstored))
  have hrun : (store {} (row g order)).run.run w.conn = (.ok (), ⟨w.conn.view ++ [row g order],none⟩) := by
    unfold store
    rw [Connection.run_executeThenCommit, hinsert]
  simp only [answer, hi, Option.map_some, submitOrder_ok hseen hrun]

theorem faithful_iff_of_set {w' : World} (hfaithful : w.Faithful) {i : ℕ} {m : OrderManager} {new : String}
    (hi : w.managers[i]? = some m) (hmanagers : w'.managers = w.managers.set i ⟨new :: m.seenClientIds⟩)
    (hkeep : ∀ id, w.stored id → w'.stored id) : w'.Faithful ↔ w'.stored new := by
  constructor
  · intro h
    obtain ⟨x,hx,hid⟩ := (seen_set hi new new).mpr (.inl rfl)
    exact h x (by rw [hmanagers]; exact hx) new hid
  · intro hnew x hx id hid
    rw [hmanagers] at hx
    rcases (seen_set hi new id).mp ⟨x,hx,hid⟩ with rfl | ⟨y,hy,hid⟩
    · exact hnew
    · exact hkeep id (hfaithful y hy id hid)

/-- A call keeps the sets faithful exactly if it forgets no order. -/
theorem step_faithful_iff (h : w.Inv) (hfaithful : w.Faithful) (e : Event) : (w.step e).Faithful ↔ ¬w.Forgets e := by
  have hview := h.view_eq hfaithful
  have hstep := happens_step w e
  generalize w.step e = w' at hstep ⊢
  cases hstep with
  | creates =>
    refine iff_of_true (fun m hm id hid => ?_) id
    rcases mem_append.mp hm with hm | hm
    · exact hfaithful m hm id hid
    · obtain rfl := mem_singleton.mp hm
      rw [create, hview] at hid
      exact hid
  | stays hstays => exact iff_of_true hfaithful hstays
  | stores hi order g _ hfails hd =>
    obtain ⟨rfl,-⟩ := insertOrder_ok hd
    have hstored : ∀ id, w.stored id → id ∈ (w.conn.view ++ [row g order]).map OrderRow.clientOrderId := by
      intro id hid
      rw [hview, map_append]
      exact mem_append_left _ hid
    have hnew : order.clientOrderId ∈ (w.conn.view ++ [row g order]).map OrderRow.clientOrderId := by
      rw [map_append]
      exact mem_append_right _ mem_cons_self
    refine iff_of_true ((faithful_iff_of_set hfaithful hi ?_ ?_).mpr hnew) fun hforgets => hfails hforgets.2.2
    · rfl
    · exact hstored
  | @raises i m hi order g faults pending hseen hfails hpending =>
    -- nothing is stored by the call, and the id is in the set of the manager
    refine (faithful_iff_of_set hfaithful hi ?_ ?_).trans ⟨fun hnew hforgets => hforgets.2.1 hnew,fun hforgets => ?_⟩
    · rfl
    · exact fun id hid => hid
    · by_contra hnew
      exact hforgets ⟨⟨m,hi,hseen⟩,hnew,hfails⟩

/-- No two stored orders share a client order id, whatever fails. In every state of a run orders
are refused only as duplicates of stored ones, and intents whose submission has raised are
accepted again, exactly if no call fails for an order that is neither stored nor in the set of its manager. -/
theorem deduplication_exact_iff (events : List Event) : Always step AtMostOne {} events ∧
      (Always step (fun w => w.RefusesOnlyStored ∧ w.AcceptsAgain) {} events ↔
        EachStep step (fun w e => ¬w.Forgets e) {} events) := by
  have hinit : Inv ({} : World) := ⟨prefix_rfl,nodup_nil,by rintro id ⟨⟩,by rintro p ⟨⟩⟩
  have hfaithful : Faithful ({} : World) := by rintro m ⟨⟩
  have hinv : ∀ n, Inv (run step {} (events.take n)) :=
    fun n => run_invariant (P := Inv) (fun w e hw => step_inv hw e) hinit _
  refine ⟨always_iff_take.mpr fun n => (hinv n).atMostOne,?_⟩
  rw [← always_iff_eachStep (I := Inv) (fun w e hw => step_inv hw e)
    (fun w e hw hf => step_faithful_iff hw hf e) hinit hfaithful]
  simp only [always_iff_take]
  constructor
  · intro h n
    exact (refusesOnlyStored_iff _).mp (h n).1
  · intro h n
    exact ⟨(refusesOnlyStored_iff _).mpr (h n),(hinv n).acceptsAgain (h n)⟩

def trend : OrderIntent := ⟨"c_1","trend","paper","BTCUSDT",.buy,.market,.finite 1,none,none,0⟩

def given : OrderManager.Given := ⟨"ord_1",0,fun _ => ""⟩

def lockedOut : List Event :=
  [.create, .submit 0 trend given { insert := some (.kept (.exception "database is locked")) }]

/-- Submitted again, the order is refused as a duplicate of an order that does not exist. -/
theorem failed_insert_refused : (run step {} lockedOut).conn.stored = [] ∧
    (run step {} lockedOut).raised = [(0, trend)] ∧
      (run step {} lockedOut).answer 0 trend given {} = some (.ok none) ∧
      ¬Always step (fun w => w.RefusesOnlyStored ∧ w.AcceptsAgain) {} lockedOut := by
  have hanswer : (run step {} lockedOut).answer 0 trend given {} = some (.ok none) := rfl
  refine ⟨rfl,rfl,hanswer,fun h => ?_⟩
  have hstored := h.last.1 0 trend given {} hanswer
  exact absurd hstored not_mem_nil

end World
end OpenPine.Orders
