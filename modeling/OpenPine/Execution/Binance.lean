import OpenPine.Execution.Models
import OpenPine.Foundation.Hoare
import OpenPine.Foundation.Runs

/-! # The Binance adapter

`BinanceLiveExecutionAdapter` sends orders to an exchange client. It keeps the symbol of every
order that it has seen under the id of the exchange, since the client wants the symbol to cancel
an order or to ask for its status. The order that `submit_order` returns carries another id, one
that OpenPine has made up.
-/
namespace OpenPine.Execution
open Python Hoare Orders
open Sqlite (Number)

inductive Raised
  | unavailable (text : String)
  | exception (text : String)
deriving DecidableEq

def Raised.text : Raised → String
  | .unavailable text => text
  | .exception text => text

inductive ClientCall
  | createOrder (symbol type side amount : String) (price : Option String) (params : List (String × String))
  | cancelOrder (symbol : Field) (id : String)
  | fetchOrder (symbol : Field) (id : String)
  | fetchOpenOrders
deriving DecidableEq

/-- The adapter, with the calls that it has made. Ids and symbols of open orders are stored as
the exchange reports them. -/
structure Adapter where
  client : Bool
  rules : Dict String InstrumentRules
  orderSymbols : Dict Field Field := .empty
  calls : List ClientCall := []

abbrev Method := Program Raised Adapter

abbrev Answer (α : Type) := Except String α

namespace Adapter
variable (py : Runtime)

def binanceStatusMap : List (String × String) :=
  [("new","new"),("filled","filled"),("partial","partial"),("canceled","cancelled"),("cancelled","cancelled"),
    ("rejected","rejected"),("expired","cancelled"),("pending","pending")]

/-- `_map_binance_status`, after `lower` -/
def mapBinanceStatus (raw : String) : String := (binanceStatusMap.lookup raw).getD raw

def mapStatus (raw : Field) : Except String String := mapBinanceStatus <$> py.lowered raw

/-- `except Exception as exc: raise ExecutionUnavailableError(..) from exc` -/
def orUnavailable {α : Type} (what : String) (x : Method α) : Method α :=
  tryCatch x fun e => throw (.unavailable (what ++ e.text))

def raising {α : Type} (x : Except String α) : Method α := lift (x.mapError .exception)

def call {α : Type} (c : ClientCall) (answer : Answer α) : Method α := do
  modify fun a => { a with calls := a.calls ++ [c] }
  raising answer

def trackOrderSymbol (orderId symbol : Field) : Method Unit := do
  let key ← raising (py.hashable orderId)
  modify fun a => { a with orderSymbols := Dict.put a.orderSymbols key symbol }

def getTrackedSymbol (a : Adapter) (orderId : String) : Option Field := Dict.get? a.orderSymbols (.str orderId)

def addInstrumentRules (rules : InstrumentRules) : Method Unit :=
  modify fun a => { a with rules := Dict.put a.rules rules.symbol rules }

/-! ### Submission -/

def validateOrder (a : Adapter) (order : OrderIntent) : Except Refusal Unit :=
  match Dict.get? a.rules order.symbol with
  | none => throw (.invalid ("No instrument rules for " ++ order.symbol))
  | some rules => rules.validateOrder py order.quantity order.price order.orderType.value

def exchangeId (response : Response) : Field := (response.get "id").orElse (response.get "orderId")

def averagePrice (response : Response) : Field := (response.get "average").orElse (response.get "avgPrice")

def average (response : Response) : Except String (Option Number) :=
  if (averagePrice response).truthy then some <$> py.float (averagePrice response) else .ok none

/-- What is read of an answer. The symbol of the order is noted before its average price is read. -/
def parseFields (symbol : String) (response : Response) : Method LiveOrderResult := do
  let status ← raising (mapStatus py (response.get "status" (.str "unknown")))
  let filled ← raising (py.float (response.get "filled" (.int 0)))
  when ((exchangeId response).truthy ∧ symbol ≠ "")
    (trackOrderSymbol py (.str (py.str (exchangeId response))) (.str symbol))
  let avgFillPrice ← raising (average py response)
  return {
    success := status ∈ ["new","filled","partial"]
    orderId := if (exchangeId response).truthy then some (py.str (exchangeId response)) else none
    status := some status
    filledQty := filled
    avgFillPrice
    error := if status ∈ ["new","filled","partial"] then none
      else some ("Unknown exchange status '" ++ py.str (response.get "status" (.str "unknown")) ++ "'") }

def parseClientResponse (symbol : String) : Option Response → Method LiveOrderResult
  | none => return { success := false, error := some "Empty response" }
  | some response => parseFields py symbol response

def createParams (order : OrderIntent) : List (String × String) :=
  (if order.clientOrderId = "" then [] else [("clientOrderId",order.clientOrderId)]) ++ match order.stopPrice with
    | some stopPrice =>
      if order.orderType = .stop ∨ order.orderType = .stopLimit then [("stopPrice",py.str (.float stopPrice))] else []
    | none => []

def createCall (order : OrderIntent) : ClientCall :=
  .createOrder order.symbol order.orderType.value order.side.value (py.str (.float order.quantity))
    ((order.price.filter (· ≠ .finite 0)).map fun price => py.str (.float price)) (createParams py order)

def callCreateOrder (order : OrderIntent) (answer : Answer (Option Response)) : Method LiveOrderResult := do
  let response ← call (createCall py order) answer
  parseClientResponse py order.symbol response

def acceptedStatus (status : Option String) : OrderStatus :=
  if status = some "new" then .new
  else if status = some "partial" then .partialFill
  else .filled

def resultToOrder (result : LiveOrderResult) (intent : OrderIntent) (orderId : String) (now : ℤ) : Order :=
  if result.success then {
    orderId
    clientOrderId := intent.clientOrderId
    strategyId := intent.strategyId
    accountId := intent.accountId
    symbol := intent.symbol
    side := intent.side
    orderType := intent.orderType
    quantity := intent.quantity
    price := intent.price
    stopPrice := intent.stopPrice
    status := acceptedStatus result.status
    filledQuantity := result.filledQty
    avgFillPrice := result.avgFillPrice
    createdAt := intent.createdAt
    updatedAt := now }
  else rejectedLiveOrder intent orderId now ((nonEmpty result.error).getD "Binance adapter returned unsuccessful order")

/-- What a submission finds outside: the digits of the new id, the clock and the client's answer. -/
structure Given where
  hex : String
  now : ℤ
  answer : Answer (Option Response)

/-- The part of `submit_order` in which every exception rejects the order. -/
def placeOrder (order : OrderIntent) (g : Given) : Method Order :=
  tryCatch (callCreateOrder py order g.answer >>= fun result =>
      return resultToOrder result order (generateOrderId g.hex) g.now)
    fun e => return rejectedLiveOrder order (generateOrderId g.hex) g.now ("Binance adapter error: " ++ e.text)

def submitOrder (order : OrderIntent) (g : Given) : Method Order := do
  let a ← get
  if ¬a.client then
    return rejectedLiveOrder order (generateOrderId g.hex) g.now "Binance adapter: no client injected (fail-closed)"
  else match validateOrder py a order with
    | .error (.invalid message) =>
      return rejectedLiveOrder order (generateOrderId g.hex) g.now ("Binance adapter validation failed: " ++ message)
    | .error (.raised text) => throw (.exception text)
    | .ok () => placeOrder py order g

/-! ### Cancellation -/

def callCancelOrder (orderId : String) (symbol : Field) (answer : Answer (Option Response)) : Method CancelResult := do
  match ← call (.cancelOrder symbol orderId) answer with
  | none => return { success := false, error := some "Empty response" }
  | some response =>
    let status ← raising (mapStatus py (response.get "status" (.str "")))
    return { success := status = "cancelled" }

def cancelOrderForSymbol (orderId : String) (symbol : Field) (answer : Answer (Option Response)) : Method Bool := do
  let a ← get
  if ¬a.client then throw (.unavailable "Binance cancel requires an injected client")
  else orUnavailable "Binance cancel failed: " (CancelResult.success <$> callCancelOrder py orderId symbol answer)

def cancelOrder (orderId : String) (answer : Answer (Option Response)) : Method Bool := do
  let a ← get
  match a.getTrackedSymbol orderId with
  | none => throw (.unavailable "Binance cancel requires a tracked symbol or explicit symbol")
  | some symbol => cancelOrderForSymbol py orderId symbol answer

/-! ### Status -/

structure ReportedOrder where
  (orderId clientOrderId accountId symbol side orderType : Field)
  quantity : Number
  (price stopPrice : Option Number)
  status : OrderStatus
  filledQuantity : Number
  avgFillPrice : Option Number
  createdAt : Field
  updatedAt : ℤ
  error : Option String

def orderStatuses : List OrderStatus := [.pending,.new,.filled,.partialFill,.cancelled,.rejected]

def nonZero (x : Number) : Option Number := if x = .finite 0 then none else some x

def responseToOrderStatus (now : ℤ) (response : Response) : Except String ReportedOrder := do
  let mapped ← mapStatus py (response.get "status" (.str "unknown"))
  let quantity ← py.float (response.get "amount" (.int 0))
  let price ← py.float (response.get "price" (.int 0))
  let stopPrice ← py.float (response.get "stopPrice" (.int 0))
  let filled ← py.float ((response.get "filled" (.int 0)).orElse (.int 0))
  let average ← py.float (response.get "average" (.int 0))
  let known := orderStatuses.find? (·.value = mapped)
  return {
    orderId := (exchangeId response).orElse (.str "")
    clientOrderId := response.get "clientOrderId" (.str "")
    accountId := response.get "account_id" (.str "")
    symbol := response.get "symbol" (.str "")
    side := response.get "side" (.str "buy")
    orderType := response.get "type" (.str "limit")
    quantity
    price := nonZero price
    stopPrice := nonZero stopPrice
    status := known.getD .rejected
    filledQuantity := filled
    avgFillPrice := nonZero average
    createdAt := response.get "timestamp" (.int 0)
    updatedAt := now
    error := if known.isSome then none
      else some ("Unknown exchange status '" ++ py.str (response.get "status" (.str "unknown")) ++ "'") }

def callGetOrder (orderId : String) (symbol : Field) (now : ℤ) (answer : Answer (Option Response)) :
    Method (Option ReportedOrder) := do
  match ← call (.fetchOrder symbol orderId) answer with
  | none => return none
  | some response => some <$> raising (responseToOrderStatus py now response)

def getOrderStatusForSymbol (orderId : String) (symbol : Field) (now : ℤ) (answer : Answer (Option Response)) :
    Method (Option ReportedOrder) := do
  let a ← get
  if ¬a.client then throw (.unavailable "Binance order status requires an injected client")
  else orUnavailable "Binance order status failed: " (callGetOrder py orderId symbol now answer)

def getOrderStatus (orderId : String) (now : ℤ) (answer : Answer (Option Response)) :
    Method (Option ReportedOrder) := do
  let a ← get
  match a.getTrackedSymbol orderId with
  | none => throw (.unavailable "Binance order status requires a tracked symbol or explicit symbol")
  | some symbol => getOrderStatusForSymbol py orderId symbol now answer

/-! ### Reconciliation -/

def reconcileOrders (now : ℤ) : List Response → Method (List ReportedOrder)
  | [] => return []
  | raw :: rest => do
    let order ← raising (responseToOrderStatus py now raw)
    when (order.orderId.truthy ∧ order.symbol.truthy) (trackOrderSymbol py order.orderId order.symbol)
    return order :: (← reconcileOrders now rest)

def callReconcile (now : ℤ) (answer : Answer (Option (List Response))) : Method (List ReportedOrder) := do
  match ← call .fetchOpenOrders answer with
  | none => throw (.exception "'NoneType' object is not iterable")
  | some responses => reconcileOrders py now responses

def reconcile (now : ℤ) (answer : Answer (Option (List Response))) : Method (List ReportedOrder) := do
  let a ← get
  if ¬a.client then throw (.unavailable "Binance reconcile requires an injected client")
  else orUnavailable "Binance reconcile failed: " (callReconcile py now answer)

end Adapter

/-! ### The router -/

inductive AccountType
  | live | paper | backtest
deriving DecidableEq, Repr

def AccountType.value : AccountType → String
  | .live => "live"
  | .paper => "paper"
  | .backtest => "backtest"

/-- The types of the accounts, and those for which the adapter is registered. -/
structure ExecutionRouter where
  account : String → Option AccountType
  registered : AccountType → Bool

def ExecutionRouter.cancelOrder (py : Runtime) (router : ExecutionRouter) (orderId accountId : String)
    (answer : Answer (Option Response)) : Method Bool :=
  match router.account accountId with
  | none => return false
  | some accountType =>
    if ¬router.registered accountType then
      throw (.unavailable ("No adapter registered for account type: " ++ accountType.value))
    else tryCatch (Adapter.cancelOrder py orderId answer) fun
      | .unavailable text => throw (.unavailable text)
      | .exception text => throw (.unavailable ("Adapter cancel failed: " ++ text))

/-! ### Runs -/

inductive Event
  | submitOrder (order : OrderIntent) (g : Adapter.Given)
  | cancelOrder (orderId : String) (answer : Answer (Option Response))
  | cancelOrderForSymbol (orderId symbol : String) (answer : Answer (Option Response))
  | routerCancelOrder (router : ExecutionRouter) (orderId accountId : String) (answer : Answer (Option Response))
  | getOrderStatus (orderId : String) (now : ℤ) (answer : Answer (Option Response))
  | getOrderStatusForSymbol (orderId symbol : String) (now : ℤ) (answer : Answer (Option Response))
  | reconcile (now : ℤ) (answer : Answer (Option (List Response)))
  | addInstrumentRules (rules : InstrumentRules)

namespace Adapter
variable (py : Runtime)

def after {α : Type} (m : Method α) (a : Adapter) : Adapter := (m.run.run a).2

def step (a : Adapter) : Event → Adapter
  | .submitOrder order g => after (submitOrder py order g) a
  | .cancelOrder orderId answer => after (cancelOrder py orderId answer) a
  | .cancelOrderForSymbol orderId symbol answer => after (cancelOrderForSymbol py orderId (.str symbol) answer) a
  | .routerCancelOrder router orderId accountId answer => after (router.cancelOrder py orderId accountId answer) a
  | .getOrderStatus orderId now answer => after (getOrderStatus py orderId now answer) a
  | .getOrderStatusForSymbol orderId symbol now answer =>
    after (getOrderStatusForSymbol py orderId (.str symbol) now answer) a
  | .reconcile now answer => after (reconcile py now answer) a
  | .addInstrumentRules rules => after (addInstrumentRules rules) a

def Reaches (a : Adapter) (e : Event) (c : ClientCall) : Prop := (a.step py e).calls = a.calls ++ [c]

end Adapter

end OpenPine.Execution
