import OpenPine.Foundation.Sqlite

/-! # Orders

An order intent is what a strategy asks for, and an order is what is known of it once it was
submitted. Floats are the numbers of `Sqlite.Number`.
-/
namespace OpenPine.Orders
open Sqlite

inductive OrderSide
  | buy | sell
deriving DecidableEq, Repr

def OrderSide.value : OrderSide → String
  | .buy => "buy"
  | .sell => "sell"

inductive OrderType
  | market | limit | stop | stopLimit
deriving DecidableEq, Repr

def OrderType.value : OrderType → String
  | .market => "market"
  | .limit => "limit"
  | .stop => "stop"
  | .stopLimit => "stop_limit"

inductive OrderStatus
  | pending | new | filled | partialFill | cancelled | rejected
deriving DecidableEq, Repr

def OrderStatus.value : OrderStatus → String
  | .pending => "pending"
  | .new => "new"
  | .filled => "filled"
  | .partialFill => "partial"
  | .cancelled => "cancelled"
  | .rejected => "rejected"

structure OrderIntent where
  (clientOrderId strategyId accountId symbol : String)
  side : OrderSide
  orderType : OrderType
  quantity : Number
  price : Option Number := none
  stopPrice : Option Number := none
  createdAt : ℤ
deriving DecidableEq

structure Order where
  (orderId clientOrderId strategyId accountId symbol : String)
  side : OrderSide
  orderType : OrderType
  quantity : Number
  (price stopPrice : Option Number)
  status : OrderStatus
  filledQuantity : Number := .finite 0
  avgFillPrice : Option Number := none
  (createdAt updatedAt : ℤ)
  error : Option String := none
deriving DecidableEq

end OpenPine.Orders
