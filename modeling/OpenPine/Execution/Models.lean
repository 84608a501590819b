import Mathlib.Algebra.Ring.Int.Defs
import OpenPine.Foundation.Python
import OpenPine.Orders.Models

/-! # Live orders

The rules of an instrument, which are checked before an order goes to the exchange, and the
values that are read from the answers of a client.
-/
namespace OpenPine.Execution
open Python Orders
open Sqlite (Number)

def floatLt : Number → Number → Bool
  | .finite x, .finite y => x < y
  | .infinite true, .finite _ => true
  | .infinite true, .infinite false => true
  | .finite _, .infinite false => true
  | _, _ => false

def floatLe (x y : Number) : Bool := floatLt x y || (x = y && x ≠ .nan)

/-! ### Answers of a client -/

/-- A value in an answer. Of a list or an object only the truth value is known. -/
inductive Field
  | null
  | bool (b : Bool)
  | int (i : ℤ)
  | float (x : Number)
  | str (s : String)
  | other (truthy : Bool)
deriving DecidableEq

namespace Field

def truthy : Field → Bool
  | .null => false
  | .bool b => b
  | .int i => i ≠ 0
  | .float x => x ≠ .finite 0
  | .str s => s ≠ ""
  | .other truthy => truthy

def orElse (a b : Field) : Field := if a.truthy then a else b

end Field

abbrev Response := Dict String Field

def Response.get (response : Response) (name : String) (default : Field := .null) : Field :=
  (Dict.get? response name).getD default

def InFloatRange (i : ℤ) : Prop := -(2 ^ 1024 - 2 ^ 970) < i ∧ i < 2 ^ 1024 - 2 ^ 970

instance (i : ℤ) : Decidable (InFloatRange i) := inferInstanceAs (Decidable (_ ∧ _))

/-- What Python does with numbers and texts that the model does not look into. -/
structure Runtime where
  str : Field → String
  str_str : ∀ s, str (.str s) = s
  /-- The type of a list or an object. -/
  otherType : String
  rounded : ℤ → Number
  parseFloat : String → Except String Number
  times : Number → Number → Number
  /-- Whether the decimal of the first number is a multiple of that of the second. -/
  multiple : Number → Number → Except String Bool

namespace Runtime
variable (py : Runtime)

def typeName : Field → String
  | .null => "NoneType"
  | .bool _ => "bool"
  | .int _ => "int"
  | .float _ => "float"
  | .str _ => "str"
  | .other _ => py.otherType

def float : Field → Except String Number
  | .bool b => .ok (.finite (if b then 1 else 0))
  | .int i => if InFloatRange i then .ok (py.rounded i) else .error "int too large to convert to float"
  | .float x => .ok x
  | .str s => py.parseFloat s
  | x => .error ("float() argument must be a string or a real number, not '" ++ py.typeName x ++ "'")

def lowered : Field → Except String String
  | .str s => .ok (lower s)
  | x => .error ("'" ++ py.typeName x ++ "' object has no attribute 'lower'")

def hashable : Field → Except String Field
  | .other _ => .error ("unhashable type: '" ++ py.otherType ++ "'")
  | x => .ok x

end Runtime

/-! ### Instrument rules -/

inductive Refusal
  | invalid (message : String)
  | raised (text : String)
deriving DecidableEq

structure InstrumentRules where
  symbol : String
  (tickSize stepSize minQty minNotional : Number)
  maxQty : Option Number := none
  marketOrderSupported : Bool := true

namespace InstrumentRules
variable (py : Runtime) (rules : InstrumentRules)

def isAligned (value step : Number) : Except Refusal Bool :=
  if floatLe step (.finite 0) then .ok false
  else match py.multiple value step with
    | .ok aligned => .ok aligned
    | .error text => .error (.raised text)

def validatePrice : Option Number → Except Refusal Unit
  | none => return ()
  | some price =>
    if floatLe price (.finite 0) then throw (.invalid ("Price must be positive, got " ++ py.str (.float price)))
    else do
      let aligned ← isAligned py price rules.tickSize
      if aligned then return ()
      else throw (.invalid ("Price " ++ py.str (.float price) ++ " does not align to tick_size " ++
        py.str (.float rules.tickSize)))

def validateSize (quantity : Number) : Except Refusal Unit :=
  if floatLt quantity rules.minQty then
    throw (.invalid ("Quantity " ++ py.str (.float quantity) ++ " below min_qty " ++ py.str (.float rules.minQty)))
  else match rules.maxQty with
    | none => return ()
    | some maxQty =>
      if floatLt maxQty quantity then
        throw (.invalid ("Quantity " ++ py.str (.float quantity) ++ " above max_qty " ++ py.str (.float maxQty)))
      else return ()

def validateQuantity (quantity : Number) : Except Refusal Unit :=
  if floatLe quantity (.finite 0) then throw (.invalid ("Quantity must be positive, got " ++ py.str (.float quantity)))
  else do
    let aligned ← isAligned py quantity rules.stepSize
    if aligned then rules.validateSize py quantity
    else throw (.invalid ("Quantity " ++ py.str (.float quantity) ++ " does not align to step_size " ++
      py.str (.float rules.stepSize)))

def validateNotional (quantity : Number) : Option Number → Except Refusal Unit
  | none => return ()
  | some price =>
    if floatLt (py.times price quantity) rules.minNotional then
      throw (.invalid ("Notional " ++ py.str (.float (py.times price quantity)) ++ " below min_notional " ++
        py.str (.float rules.minNotional)))
    else return ()

def validateOrder (quantity : Number) (price : Option Number) (orderType : String) : Except Refusal Unit :=
  if orderType = "market" ∧ ¬rules.marketOrderSupported then
    throw (.invalid ("Market orders not supported for " ++ rules.symbol))
  else do
    rules.validateQuantity py quantity
    rules.validatePrice py price
    rules.validateNotional py quantity price

end InstrumentRules

structure LiveOrderResult where
  success : Bool
  orderId : Option String := none
  status : Option String := none
  filledQty : Number := .finite 0
  avgFillPrice : Option Number := none
  error : Option String := none

structure CancelResult where
  success : Bool
  error : Option String := none

def rejectedLiveOrder (intent : OrderIntent) (orderId : String) (now : ℤ) (error : String) : Order where
  orderId := orderId
  clientOrderId := intent.clientOrderId
  strategyId := intent.strategyId
  accountId := intent.accountId
  symbol := intent.symbol
  side := intent.side
  orderType := intent.orderType
  quantity := intent.quantity
  price := intent.price
  stopPrice := intent.stopPrice
  status := .rejected
  createdAt := intent.createdAt
  updatedAt := now
  error := some error

/-- `generate_order_id`, from the digits of a new UUID. -/
def generateOrderId (hex : String) : String := "ord_" ++ hex

end OpenPine.Execution
