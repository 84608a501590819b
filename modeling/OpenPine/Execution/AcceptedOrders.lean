import OpenPine.Execution.Binance
import OpenPine.Foundation.Text

/-! # Orders that the exchange has accepted

An order that the exchange has accepted is reported as rejected if its answer says that
`filled` is null. What is returned can be cancelled, or asked for, only if the id that OpenPine
has made up for it happens to be the id that the exchange has given it.
-/
namespace OpenPine.Execution.Adapter
open Python Hoare Orders Runs
open Sqlite (Number)

variable {py : Runtime} {a : Adapter} {α : Type}

/-! ### The client stays -/

def HasClient (a : Adapter) : Prop := a.client = true

variable {orderId : String} {symbol : Field} {now : ℤ} {answer : Answer (Option Response)} {c : ClientCall}
  {router : ExecutionRouter} {accountId : String}

theorem keeps_raising {x : Except String α} : Keeps HasClient (raising x) := Keeps.lift _

theorem keeps_call {answer : Answer α} : Keeps HasClient (call c answer) :=
  Keeps.bind (.change fun _ ha => ha) fun _ => keeps_raising

theorem keeps_trackOrderSymbol {orderId : Field} : Keeps HasClient (trackOrderSymbol py orderId symbol) :=
  Keeps.bind keeps_raising fun _ => .change fun _ ha => ha

theorem keeps_orUnavailable {what : String} {x : Method α} (h : Keeps HasClient x) :
    Keeps HasClient (orUnavailable what x) :=
  Keeps.handle h fun _ => .raise _

theorem keeps_parseClientResponse {symbol : String} {response : Option Response} :
    Keeps HasClient (parseClientResponse py symbol response) := by
  cases response with
  | none => exact .ret _
  | some =>
    refine .bind keeps_raising fun _ => .bind keeps_raising fun _ => ?_
    exact .bind (.when keeps_trackOrderSymbol) fun _ => .bind keeps_raising fun _ => .ret _

theorem keeps_submitOrder {order : OrderIntent} {g : Given} : Keeps HasClient (submitOrder py order g) := by
  refine .read fun a => .cond (.ret _) ?_
  rcases validateOrder py a order with (message | text) | _
  · exact .ret _
  · exact .raise _
  · refine .handle (.bind (.bind keeps_call fun _ => keeps_parseClientResponse) fun _ => .ret _) ?_
    exact fun _ => .ret _

theorem keeps_cancelOrderForSymbol : Keeps HasClient (cancelOrderForSymbol py orderId symbol answer) := by
  refine .read fun a => .cond (.raise _) (keeps_orUnavailable ?_)
  refine .bind (.bind keeps_call fun response => ?_) fun _ => .ret _
  cases response with
  | none => exact .ret _
  | some => exact .bind keeps_raising fun _ => .ret _

theorem keeps_cancelOrder : Keeps HasClient (cancelOrder py orderId answer) := by
  refine .read fun a => ?_
  cases a.getTrackedSymbol orderId with
  | none => exact .raise _
  | some => exact keeps_cancelOrderForSymbol

theorem keeps_routerCancelOrder : Keeps HasClient (router.cancelOrder py orderId accountId answer) := by
  unfold ExecutionRouter.cancelOrder
  cases router.account accountId with
  | none => exact .ret _
  | some =>
    refine .cond (.raise _) (.handle keeps_cancelOrder fun e => ?_)
    cases e with
    | unavailable | exception => exact .raise _

theorem keeps_getOrderStatusForSymbol : Keeps HasClient (getOrderStatusForSymbol py orderId symbol now answer) := by
  refine .read fun a => .cond (.raise _) (keeps_orUnavailable ?_)
  refine .bind keeps_call fun response => ?_
  cases response with
  | none => exact .ret _
  | some => exact .bind keeps_raising fun _ => .ret _

theorem keeps_getOrderStatus : Keeps HasClient (getOrderStatus py orderId now answer) := by
  refine .read fun a => ?_
  cases a.getTrackedSymbol orderId with
  | none => exact .raise _
  | some => exact keeps_getOrderStatusForSymbol

theorem keeps_reconcileOrders {responses : List Response} : Keeps HasClient (reconcileOrders py now responses) := by
  induction responses with
  | nil => exact .ret _
  | cons _ _ ih =>
    refine .bind keeps_raising fun order => .bind (.when keeps_trackOrderSymbol) fun _ => ?_
    exact .bind ih fun _ => .ret _

theorem keeps_reconcile {answer : Answer (Option (List Response))} : Keeps HasClient (reconcile py now answer) := by
  refine .read fun a => .cond (.raise _) (keeps_orUnavailable (.bind keeps_call fun responses => ?_))
  cases responses with
  | none => exact .raise _
  | some => exact keeps_reconcileOrders

/-- An adapter keeps its client. -/
theorem hasClient_step (e : Event) (h : a.HasClient) : (a.step py e).HasClient := by
  cases e with
  | submitOrder => exact keeps_submitOrder.run h
  | cancelOrder => exact keeps_cancelOrder.run h
  | cancelOrderForSymbol => exact keeps_cancelOrderForSymbol.run h
  | routerCancelOrder => exact keeps_routerCancelOrder.run h
  | getOrderStatus => exact keeps_getOrderStatus.run h
  | getOrderStatusForSymbol => exact keeps_getOrderStatusForSymbol.run h
  | reconcile => exact keeps_reconcile.run h
  | addInstrumentRules => exact h

theorem hasClient_run (h : a.HasClient) (events : List Event) : (run (step py) a events).HasClient :=
  run_invariant (fun _ e h => hasClient_step e h) h events

/-! ### Calls that reach the client -/

def called (a : Adapter) (c : ClientCall) : Adapter := { a with calls := a.calls ++ [c] }

theorem called_inj {c c' : ClientCall} : (a.called c).calls = a.calls ++ [c'] ↔ c = c' := by simp [called]

theorem not_reaches_self : ¬a.calls = a.calls ++ [c] := by simp

theorem run_call_ok (c : ClientCall) (x : α) : (call c (.ok x)).run.run a = (.ok x, a.called c) := rfl

theorem after_handle {x : Method α} {h : Raised → Method α} (hh : ∀ e b, after (h e) b = b) :
    after (tryCatch x h) a = after x a := by
  unfold after
  rcases hrun : x.run.run a with ⟨e | r,b⟩
  · rw [run_tryCatch_error hrun]
    exact hh e b
  · rw [run_tryCatch_ok hrun]

theorem after_bind {β : Type} {x : Method β} {f : β → Method α} (hf : ∀ r b, after (f r) b = b) :
    after (x >>= f) a = after x a := by
  unfold after
  rcases hrun : x.run.run a with ⟨e | r,b⟩
  · rw [run_bind_error hrun]
  · rw [run_bind_ok hrun]
    exact hf r b

theorem after_required (h : a.HasClient) (e : Raised) (x : Method α) :
    after ((get : Method Adapter) >>= fun a => if ¬a.client then throw e else x) a = after x a := by
  unfold after
  rw [run_bind_ok (rfl : (get : Method Adapter).run.run a = (.ok a, a)), if_neg (not_not.mpr (id h : a.client = true))]

variable {orderId id : String} {intent : OrderIntent} {response : Response}

theorem calls_tracked {c : Field → String → ClientCall} (hc : ∀ {s s' i i'}, c s i = c s' i' ↔ s = s' ∧ i = i')
    {m : Method α} (e : Raised) {f : Field → Method α}
    (hm : m = (get : Method Adapter) >>= fun a => match a.getTrackedSymbol orderId with
      | none => throw e
      | some symbol => f symbol)
    (hf : ∀ symbol, after (f symbol) a = a.called (c symbol orderId)) (symbol : Field) :
    (after m a).calls = a.calls ++ [c symbol id] ↔ orderId = id ∧ a.getTrackedSymbol id = some symbol := by
  unfold after
  rw [hm, run_bind_ok (rfl : (get : Method Adapter).run.run a = (.ok a, a))]
  cases htracked : a.getTrackedSymbol orderId with
  | none =>
    refine iff_of_false not_reaches_self ?_
    rintro ⟨rfl,hsome⟩
    rw [htracked] at hsome
    cases hsome
  | some tracked =>
    change (after (f tracked) a).calls = _ ↔ _
    rw [hf, called_inj, hc]
    constructor
    · rintro ⟨rfl,rfl⟩
      exact ⟨rfl,htracked⟩
    · rintro ⟨rfl,hsome⟩
      rw [htracked] at hsome
      exact ⟨Option.some.inj hsome,rfl⟩

section
variable (h : a.HasClient)
include h

theorem after_cancelOrderForSymbol : after (cancelOrderForSymbol py orderId symbol answer) a =
    a.called (.cancelOrder symbol orderId) := by
  unfold cancelOrderForSymbol
  rw [after_required h, orUnavailable, after_handle fun _ _ => rfl]
  refine (after_bind fun _ _ => rfl).trans (after_bind fun response b => ?_)
  cases response with
  | none => rfl
  | some => exact after_bind fun _ _ => rfl

theorem after_getOrderStatusForSymbol :
    after (getOrderStatusForSymbol py orderId symbol now answer) a = a.called (.fetchOrder symbol orderId) := by
  unfold getOrderStatusForSymbol
  rw [after_required h, orUnavailable, after_handle fun _ _ => rfl]
  refine after_bind fun response b => ?_
  cases response with
  | none => rfl
  | some => exact after_bind fun _ _ => rfl

theorem reaches_cancelOrder :
    a.Reaches py (.cancelOrder orderId answer) (.cancelOrder symbol id) ↔
      orderId = id ∧ a.getTrackedSymbol id = some symbol := by
  refine calls_tracked (fun {s s' i i'} => ?_) _ rfl (fun _ => after_cancelOrderForSymbol h) symbol
  rw [ClientCall.cancelOrder.injEq]

theorem reaches_getOrderStatus :
    a.Reaches py (.getOrderStatus orderId now answer) (.fetchOrder symbol id) ↔
      orderId = id ∧ a.getTrackedSymbol id = some symbol := by
  refine calls_tracked (fun {s s' i i'} => ?_) _ rfl (fun _ => after_getOrderStatusForSymbol h) symbol
  rw [ClientCall.fetchOrder.injEq]

theorem reaches_routerCancelOrder {accountType : AccountType} (haccount : router.account accountId = some accountType)
    (hregistered : router.registered accountType) :
    a.Reaches py (.routerCancelOrder router orderId accountId answer) (.cancelOrder symbol id) ↔
      orderId = id ∧ a.getTrackedSymbol id = some symbol := by
  have hafter : after (router.cancelOrder py orderId accountId answer) a = after (cancelOrder py orderId answer) a := by
    simp only [ExecutionRouter.cancelOrder, haccount, hregistered, not_true, if_false]
    refine after_handle fun e b => ?_
    cases e with
    | unavailable | exception => rfl
  rw [Reaches, step, hafter]
  exact reaches_cancelOrder h

end

/-! ### Submission -/

/-- The answer has an id, and a status that the adapter takes for success. -/
structure Accepted (py : Runtime) (response : Response) : Prop where
  id : (exchangeId response).truthy
  status : ∃ status, mapStatus py (response.get "status" (.str "unknown")) = .ok status ∧
    status ∈ ["new","filled","partial"]

def Plain (response : Response) (name : String) : Prop :=
  ∀ x, Dict.get? response name = some x → x = .null ∨ (∃ i, x = .int i) ∨ ∃ y, x = .float y

def Readable (response : Response) : Prop :=
  Dict.get? response "filled" ≠ some .null ∧
    ∀ i, Dict.get? response "filled" = some (.int i) ∨ averagePrice response = .int i → InFloatRange i

theorem inFloatRange_zero : InFloatRange 0 := by decide +kernel

theorem float_int_iff (py : Runtime) {i : ℤ} : (∃ x, py.float (.int i) = .ok x) ↔ InFloatRange i := by
  change (∃ x, (if InFloatRange i then .ok (py.rounded i) else .error "int too large to convert to float") =
    Except.ok x) ↔ _
  by_cases h : InFloatRange i
  · rw [if_pos h]
    exact iff_of_true ⟨_,rfl⟩ h
  · rw [if_neg h]
    exact iff_of_false (fun ⟨_,hx⟩ => by cases hx) h

theorem float_filled_iff (h : Plain response "filled") : (∃ x, py.float (response.get "filled" (.int 0)) = .ok x) ↔
      Dict.get? response "filled" ≠ some .null ∧ ∀ i, Dict.get? response "filled" = some (.int i) → InFloatRange i := by
  unfold Response.get
  cases hfield : Dict.get? response "filled" with
  | none => exact iff_of_true ((float_int_iff py).mpr inFloatRange_zero) ⟨nofun,nofun⟩
  | some x =>
    rcases h x hfield with rfl | ⟨i,rfl⟩ | ⟨y,rfl⟩
    · exact iff_of_false (fun ⟨_,hx⟩ => by cases hx) fun h => h.1 rfl
    · simp [float_int_iff]
    · exact iff_of_true ⟨y,rfl⟩ ⟨nofun,nofun⟩

theorem plain_get {name : String} (h : Plain response name) :
    response.get name = .null ∨ (∃ i, response.get name = .int i) ∨ ∃ y, response.get name = .float y := by
  unfold Response.get
  cases hfield : Dict.get? response name with
  | none => exact .inl rfl
  | some x => exact h x hfield

section
variable (h : Plain response "average") (h' : Plain response "avgPrice")
include h h'

theorem plain_averagePrice :
    averagePrice response = .null ∨ (∃ i, averagePrice response = .int i) ∨ ∃ y, averagePrice response = .float y := by
  unfold averagePrice Field.orElse
  split
  · exact plain_get h
  · exact plain_get h'

theorem average_iff : (∃ x, average py response = .ok x) ↔ ∀ i, averagePrice response = .int i → InFloatRange i := by
  unfold average
  rcases plain_averagePrice h h' with hprice | ⟨i,hprice⟩ | ⟨y,hprice⟩
  · rw [hprice]
    exact iff_of_true ⟨none,rfl⟩ nofun
  · rw [hprice]
    simp only [Field.int.injEq, forall_eq']
    by_cases hi : i = 0
    · subst hi
      exact iff_of_true ⟨none,rfl⟩ inFloatRange_zero
    · rw [← float_int_iff py, if_pos (by simpa [Field.truthy] using hi)]
      cases py.float (.int i) with
      | error => exact iff_of_false (fun ⟨_,hx⟩ => by cases hx) fun ⟨_,hx⟩ => by cases hx
      | ok x => exact iff_of_true ⟨some x,rfl⟩ ⟨x,rfl⟩
  · rw [hprice]
    refine iff_of_true ?_ nofun
    split
    · exact ⟨some y,rfl⟩
    · exact ⟨none,rfl⟩

end

def tracking (py : Runtime) (a : Adapter) (response : Response) (symbol : String) : Adapter :=
  if (exchangeId response).truthy ∧ symbol ≠ "" then
    { a with orderSymbols := Dict.put a.orderSymbols (.str (py.str (exchangeId response))) (.str symbol) }
  else a

theorem run_track (response : Response) (symbol : String) : (when ((exchangeId response).truthy ∧ symbol ≠ "")
      (trackOrderSymbol py (.str (py.str (exchangeId response))) (.str symbol))).run.run a =
        (.ok (), tracking py a response symbol) := by
  unfold when tracking
  split
  · rfl
  · rfl

variable {response : Response} {symbol status text : String} {filled : Number}

theorem run_parse_unfilled (hstatus : mapStatus py (response.get "status" (.str "unknown")) = .ok status)
    (hfilled : py.float (response.get "filled" (.int 0)) = .error text) :
    (parseFields py symbol response).run.run a = (.error (.exception text), a) := by
  unfold parseFields
  rw [hstatus, hfilled]
  rfl

theorem run_parse_filled (a : Adapter) (symbol : String)
    (hstatus : mapStatus py (response.get "status" (.str "unknown")) = .ok status)
    (hfilled : py.float (response.get "filled" (.int 0)) = .ok filled) :
    ∃ result : LiveOrderResult, (result.success = true ↔ status ∈ ["new","filled","partial"]) ∧
      (parseFields py symbol response).run.run a = match average py response with
        | .error text => (.error (.exception text), tracking py a response symbol)
        | .ok _ => (.ok result, tracking py a response symbol) := by
  unfold parseFields
  rw [hstatus, hfilled]
  simp only [run_bind_ok (rfl : (raising (.ok status)).run.run a = (.ok status, a)),
    run_bind_ok (rfl : (raising (.ok filled)).run.run a = (.ok filled, a)), run_bind_ok (run_track response symbol)]
  cases average py response with
  | error => exact ⟨{ success := status ∈ ["new","filled","partial"] },decide_eq_true_iff,rfl⟩
  | ok => exact ⟨_,decide_eq_true_iff,rfl⟩

theorem status_resultToOrder {result : LiveOrderResult} (h : result.success = true) (intent : OrderIntent)
    (orderId : String) (now : ℤ) :
    (resultToOrder result intent orderId now).status ≠ .rejected ∧
      (resultToOrder result intent orderId now).orderId = orderId := by
  unfold resultToOrder acceptedStatus
  rw [if_pos h]
  refine ⟨?_,rfl⟩
  repeat' split
  all_goals nofun

theorem run_submitOrder_valid (g : Given) (hclient : a.HasClient) (hvalid : validateOrder py a intent = .ok ()) :
    (submitOrder py intent g).run.run a = (placeOrder py intent g).run.run a := by
  unfold submitOrder
  rw [run_bind_ok (rfl : (get : Method Adapter).run.run a = (.ok a, a)),
    if_neg (not_not.mpr (id hclient : a.client = true)), hvalid]

/-- A submission that the exchange accepts. -/
theorem run_submitOrder {g : Given} (hclient : a.HasClient) (hvalid : validateOrder py a intent = .ok ())
    (hanswer : g.answer = .ok (some response)) (haccepted : Accepted py response) :
    ∃ order, (submitOrder py intent g).run.run a = (.ok order, after (submitOrder py intent g) a) ∧
      order.orderId = generateOrderId g.hex ∧
      (order.status ≠ .rejected ↔
        (∃ x, py.float (response.get "filled" (.int 0)) = .ok x) ∧ ∃ price, average py response = .ok price) ∧
      ((∃ x, py.float (response.get "filled" (.int 0)) = .ok x) →
        after (submitOrder py intent g) a = tracking py (a.called (createCall py intent)) response intent.symbol) := by
  obtain ⟨status,hstatus,hsuccess⟩ := haccepted.status
  have hcreate : (callCreateOrder py intent g.answer).run.run a =
      (parseFields py intent.symbol response).run.run (a.called (createCall py intent)) := by
    rw [hanswer]
    exact run_bind_ok (run_call_ok _ _)
  unfold after
  rw [run_submitOrder_valid g hclient hvalid]
  unfold placeOrder
  cases hfilled : py.float (response.get "filled" (.int 0)) with
  | error =>
    rw [run_parse_unfilled hstatus hfilled] at hcreate
    rw [run_tryCatch_error (run_bind_error hcreate)]
    exact ⟨_,rfl,rfl,iff_of_false (fun h => h rfl) (fun ⟨⟨_,hx⟩,_⟩ => by cases hx),fun ⟨_,hx⟩ => by cases hx⟩
  | ok filled =>
    obtain ⟨result,hresult,hparse⟩ := run_parse_filled (a.called (createCall py intent)) intent.symbol hstatus hfilled
    rw [hparse] at hcreate
    cases haverage : average py response with
    | error =>
      rw [haverage] at hcreate
      rw [run_tryCatch_error (run_bind_error hcreate)]
      exact ⟨_,rfl,rfl,iff_of_false (fun h => h rfl) (fun ⟨_,_,hx⟩ => by cases hx),fun _ => rfl⟩
    | ok price =>
      rw [haverage] at hcreate
      obtain ⟨hne,hid⟩ := status_resultToOrder (hresult.mpr hsuccess) intent (generateOrderId g.hex) g.now
      rw [run_tryCatch_ok ((run_bind_ok hcreate).trans rfl)]
      exact ⟨_,rfl,hid,iff_of_true hne ⟨⟨filled,rfl⟩,price,rfl⟩,fun _ => rfl⟩

theorem getTrackedSymbol_tracking (haccepted : Accepted py response) (hsymbol : symbol ≠ "") :
    (tracking py a response symbol).getTrackedSymbol (py.str (exchangeId response)) = some (.str symbol) := by
  unfold tracking
  rw [if_pos ⟨haccepted.id,hsymbol⟩]
  simp [getTrackedSymbol, Dict.get?_put]

/-- A later call for an order, and the call that it should make of the client. -/
inductive Concerns (intent : OrderIntent) (orderId id : String) : Event → ClientCall → Prop
  | cancel (answer : Answer (Option Response)) :
    Concerns intent orderId id (.cancelOrder orderId answer) (.cancelOrder (.str intent.symbol) id)
  | routerCancel {router : ExecutionRouter} {accountType : AccountType} (answer : Answer (Option Response))
      (haccount : router.account intent.accountId = some accountType) (hregistered : router.registered accountType) :
    Concerns intent orderId id (.routerCancelOrder router orderId intent.accountId answer)
    (.cancelOrder (.str intent.symbol) id)
  | status (now : ℤ) (answer : Answer (Option Response)) :
    Concerns intent orderId id (.getOrderStatus orderId now answer) (.fetchOrder (.str intent.symbol) id)

theorem Concerns.reaches_iff {e : Event} (h : Concerns intent orderId id e c) (hclient : a.HasClient) :
    a.Reaches py e c ↔ orderId = id ∧ a.getTrackedSymbol id = some (.str intent.symbol) := by
  cases h with
  | cancel => exact reaches_cancelOrder hclient
  | routerCancel _ haccount hregistered => exact reaches_routerCancelOrder hclient haccount hregistered
  | status => exact reaches_getOrderStatus hclient

theorem readable_iff (h : ∀ name ∈ ["filled","average","avgPrice"], Plain response name) :
    ((∃ x, py.float (response.get "filled" (.int 0)) = .ok x) ∧ ∃ price, average py response = .ok price) ↔
      Readable response := by
  rw [float_filled_iff (h "filled" (by simp)), average_iff (h "average" (by simp)) (h "avgPrice" (by simp)),
    Readable, and_assoc]
  refine and_congr_right fun _ => ?_
  constructor
  · rintro ⟨hfilled,haverage⟩ i (hi | hi)
    · exact hfilled i hi
    · exact haverage i hi
  · exact fun h => ⟨fun i hi => h i (.inl hi),fun i hi => h i (.inr hi)⟩

/-- An order that the exchange has accepted is not reported as rejected exactly if the amounts of
the answer can be read. Later calls for it reach the client exactly if it has got the id of the
exchange and the adapter has its symbol, as it has after the submission. -/
theorem accepted_order_iff {intent : OrderIntent} {g : Given} (hclient : a.HasClient)
    (hvalid : validateOrder py a intent = .ok ()) (hanswer : g.answer = .ok (some response))
    (haccepted : Accepted py response) (hplain : ∀ name ∈ ["filled","average","avgPrice"], Plain response name) :
    ∃ order submitted, (submitOrder py intent g).run.run a = (.ok order, submitted) ∧
      order.orderId = generateOrderId g.hex ∧
      (order.status ≠ .rejected ↔ Readable response) ∧
      (Readable response → intent.symbol ≠ "" →
        submitted.getTrackedSymbol (py.str (exchangeId response)) = some (.str intent.symbol)) ∧
      ∀ events e c, Concerns intent order.orderId (py.str (exchangeId response)) e c →
        ((run (step py) submitted events).Reaches py e c ↔ order.orderId = py.str (exchangeId response) ∧
          (run (step py) submitted events).getTrackedSymbol (py.str (exchangeId response)) =
            some (.str intent.symbol)) := by
  obtain ⟨order,hrun,hid,hstatus,hafter⟩ := run_submitOrder hclient hvalid hanswer haccepted
  rw [readable_iff hplain] at hstatus
  refine ⟨order,_,hrun,hid,hstatus,fun hreadable hsymbol => ?_,fun events e c hconcerns => ?_⟩
  · rw [hafter ((readable_iff hplain).mpr hreadable).1]
    exact getTrackedSymbol_tracking haccepted hsymbol
  · exact hconcerns.reaches_iff (hasClient_run (keeps_submitOrder.run hclient) events)

/-! ### A limit order -/

def sampleRuntime : Runtime where
  str
    | .null => "None"
    | .bool b => if b then "True" else "False"
    | .int i => toString i
    | .float (.finite q) => Text.decimal q
    | .float (.infinite negative) => if negative then "-inf" else "inf"
    | .float .nan => "nan"
    | .str s => s
    | .other _ => "\x7b\x7d"
  str_str _ := rfl
  otherType := "dict"
  rounded i := .finite i
  parseFloat s := .error ("could not convert string to float: '" ++ s ++ "'")
  times
    | .finite x, .finite y => .finite (x * y)
    | _, _ => .nan
  multiple _ _ := .ok true

def sampleAdapter : Adapter where
  client := true
  rules := Dict.put .empty "BTCUSDT" ⟨"BTCUSDT",.finite 1,.finite 1,.finite 1,.finite 1,none,true⟩

def sampleIntent : OrderIntent := ⟨"c_1","trend","account","BTCUSDT",.buy,.limit,.finite 2,some (.finite 3),none,0⟩

def sampleResponse (id : String) (filled : Field) : Response :=
  Dict.put (Dict.put (Dict.put .empty "id" (.str id)) "status" (.str "NEW")) "filled" filled

def sampleGiven (response : Response) : Given := ⟨"0123456789ab",0,.ok (some response)⟩

theorem sample_hasClient : sampleAdapter.HasClient := rfl

theorem sample_valid : validateOrder sampleRuntime sampleAdapter sampleIntent = .ok () := by decide +kernel

/-- An order that has got the id of the exchange can be cancelled. -/
theorem same_id_reaches : ∃ order submitted, (submitOrder sampleRuntime sampleIntent
        (sampleGiven (sampleResponse "ord_0123456789ab" (.float (.finite 0))))).run.run sampleAdapter =
          (.ok order, submitted) ∧
      order.status ≠ .rejected ∧
      submitted.Reaches sampleRuntime (.cancelOrder order.orderId (.ok none))
      (.cancelOrder (.str "BTCUSDT") "ord_0123456789ab") := by
  generalize hresponse : sampleResponse "ord_0123456789ab" (.float (.finite 0)) = response
  have haccepted : Accepted sampleRuntime response := by
    subst hresponse
    exact ⟨by decide,"new",by decide +kernel,by decide⟩
  have hfilled : Dict.get? response "filled" = some (.float (.finite 0)) := by
    subst hresponse
    rfl
  have haverage : averagePrice response = .null := by
    subst hresponse
    rfl
  have hreadable : Readable response := by
    refine ⟨by rw [hfilled]; nofun,fun i hi => ?_⟩
    rw [hfilled, haverage] at hi
    rcases hi with hi | hi
    · cases hi
    · cases hi
  have hplain : ∀ name ∈ ["filled","average","avgPrice"], Plain response name := by
    have habsent : ∀ name ∈ ["average","avgPrice"], Dict.get? response name = none := by
      subst hresponse
      decide
    intro name hname x hx
    rcases List.mem_cons.mp hname with rfl | hname
    · rw [hfilled] at hx
      exact .inr (.inr ⟨_,(Option.some.inj hx).symm⟩)
    · rw [habsent name hname] at hx
      cases hx
  have hid : sampleRuntime.str (exchangeId response) = "ord_0123456789ab" := by
    subst hresponse
    rfl
  have hanswer : (sampleGiven response).answer = .ok (some response) := rfl
  obtain ⟨order,submitted,hrun,horder,hstatus,htracked,hreaches⟩ :=
    accepted_order_iff sample_hasClient sample_valid hanswer haccepted hplain
  rw [hid] at htracked hreaches
  exact ⟨order,submitted,hrun,hstatus.mpr hreadable,
    (hreaches [] _ _ (.cancel (.ok none))).mpr ⟨horder,htracked hreadable (by decide)⟩⟩

/-- An order with an id of its own cannot be cancelled, and one of which nothing is filled yet is
reported as rejected if the exchange says so by null. -/
theorem accepted_order_lost :
    (∃ order submitted,
      (submitOrder sampleRuntime sampleIntent (sampleGiven (sampleResponse "42" (.float (.finite 0))))).run.run
        sampleAdapter = (.ok order, submitted) ∧ order.status = .new ∧
          submitted.getTrackedSymbol "42" = some (.str "BTCUSDT") ∧
      ∀ answer, (cancelOrder sampleRuntime order.orderId answer).run.run submitted =
        (.error (.unavailable "Binance cancel requires a tracked symbol or explicit symbol"), submitted)) ∧
    ∃ order submitted, (submitOrder sampleRuntime sampleIntent (sampleGiven (sampleResponse "42" .null))).run.run
        sampleAdapter = (.ok order, submitted) ∧ order.status = .rejected ∧
      order.error =
        some "Binance adapter error: float() argument must be a string or a real number, not 'NoneType'" := by
  rw [run_submitOrder_valid _ sample_hasClient sample_valid, run_submitOrder_valid _ sample_hasClient sample_valid]
  exact ⟨⟨_,_,rfl,rfl,rfl,fun _ => rfl⟩,_,_,rfl,rfl,rfl⟩

end OpenPine.Execution.Adapter
