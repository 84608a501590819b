import OpenPine.Execution.Binance

/-! # The gate before the adapters

`ExecutionRouter.submit_order` looks the account up, asks the risk manager and hands the order to the adapter of the
account's type. The manager asks the kill switch and then its rules, and none of them reads `live_enabled`.
-/
namespace OpenPine.Execution
open Orders Runs List

structure Account where
  id : String
  accountType : AccountType := .paper
  liveEnabled : Bool := false

/-- The answer is `(allowed, error_message)`, or the rule raises. `σ` is what the rules keep between two orders. -/
structure RiskRule (σ : Type) where
  className : String
  check : σ → OrderIntent → Account → Except String (Bool × Option String) × σ

/-- `rules` are those after the kill switch, which is always the first. -/
structure RiskManager (σ : Type) where
  killSwitch : Bool := false
  rules : List (RiskRule σ) := []
  violations : List (String × String) := []
  state : σ

variable {σ A : Type}

def messageOr (message : Option String) (default : String) : String :=
  match message with
  | none => default
  | some text => if text = "" then default else text

def killSwitchRule (enabled : Bool) : RiskRule σ where
  className := "KillSwitchRule"
  check s _ _ := (.ok (if enabled then (false, some "Kill switch is active — all orders blocked") else (true, none)), s)

section Check
variable (order : OrderIntent) (account : Account)

def checkRules : List (RiskRule σ) → RiskManager σ → Except String (Bool × Option String) × RiskManager σ
  | [], m => (.ok (true, none), m)
  | rule :: rest, m =>
    match rule.check m.state order account with
    | (.error text, s) => (.error text, { m with state := s })
    | (.ok (true, _), s) => checkRules rest { m with state := s }
    | (.ok (false, message), s) =>
      let violation := (account.id, messageOr message ("Order blocked by " ++ rule.className))
      (.ok (false, message), { m with state := s, violations := m.violations ++ [violation] })

def RiskManager.checkOrder (m : RiskManager σ) : Except String (Bool × Option String) × RiskManager σ :=
  checkRules order account (killSwitchRule m.killSwitch :: m.rules) m

def Allow : List (RiskRule σ) → σ → Prop
  | [], _ => True
  | rule :: rest, s => ∃ message s', rule.check s order account = (.ok (true, message), s') ∧ Allow rest s'

end Check

/-- `A` are the adapters. What they have received is recorded with them. -/
structure Router (σ A : Type) where
  riskManager : RiskManager σ
  accounts : String → Option Account
  adapters : AccountType → Option A
  received : List (A × OrderIntent) := []

namespace Router

/-- The clock, a new id, and the answer of the adapter if it is asked. -/
structure Given where
  hex : String
  now : ℤ
  answer : Except String Order

def submitOrder (r : Router σ A) (order : OrderIntent) (g : Given) : Except String Order × Router σ A :=
  let rejected := rejectedLiveOrder order (generateOrderId g.hex) g.now
  match r.accounts order.accountId with
  | none => (.ok (rejected ("Account not found: " ++ order.accountId)), r)
  | some account =>
    match r.riskManager.checkOrder order account with
    | (.error text, m) => (.error text, { r with riskManager := m })
    | (.ok (false, message), m) =>
      (.ok (rejected (messageOr message "RiskManager blocked order")), { r with riskManager := m })
    | (.ok (true, _), m) =>
      match r.adapters account.accountType with
      | none =>
        let error := "No adapter registered for account type: " ++ account.accountType.value
        (.ok (rejected error), { r with riskManager := m })
      | some adapter =>
        let returned := match g.answer with
          | .ok submitted => submitted
          | .error text => rejected ("Adapter error: " ++ text)
        (.ok returned, { r with riskManager := m, received := r.received ++ [(adapter, order)] })

inductive Event (σ A : Type)
  | submitOrder (order : OrderIntent) (g : Given)
  | setKillSwitch (enabled : Bool)
  | updateAccounts (accounts : String → Option Account)
  | addRule (rule : RiskRule σ)
  | registerAdapter (accountType : AccountType) (adapter : A)

def step (r : Router σ A) : Event σ A → Router σ A
  | .submitOrder order g => (r.submitOrder order g).2
  | .setKillSwitch enabled => { r with riskManager := { r.riskManager with killSwitch := enabled } }
  | .updateAccounts accounts => { r with accounts := accounts }
  | .addRule rule => { r with riskManager := { r.riskManager with rules := r.riskManager.rules ++ [rule] } }
  | .registerAdapter accountType adapter => { r with adapters := Function.update r.adapters accountType (some adapter) }

def Receives (r : Router σ A) (e : Event σ A) (adapter : A) (order : OrderIntent) : Prop :=
  (r.step e).received = r.received ++ [(adapter, order)]

/-- The order may go to an adapter for the account. -/
structure Passes (r : Router σ A) (order : OrderIntent) (account : Account) : Prop where
  found : r.accounts order.accountId = some account
  off : r.riskManager.killSwitch = false
  allowed : Allow order account r.riskManager.rules r.riskManager.state

def LiveGate (r : Router σ A) (e : Event σ A) : Prop :=
  ∀ adapter order, r.adapters .live = some adapter → r.Receives e adapter order →
    ∃ account, r.Passes order account ∧ account.liveEnabled = true

/-- What the gate asks beyond the checks that are made: an order that passes them goes to the adapter for live orders
only for an account that is enabled. -/
def Enabled (r : Router σ A) (e : Event σ A) : Prop :=
  ∀ order g account adapter, e = .submitOrder order g → r.Passes order account →
    r.adapters account.accountType = some adapter → r.adapters .live = some adapter → account.liveEnabled = true

variable {order : OrderIntent} {account : Account} {rules : List (RiskRule σ)}

theorem checkRules_allowed {m m' : RiskManager σ} {message : Option String}
    (h : checkRules order account rules m = (.ok (true, message), m')) : Allow order account rules m.state := by
  induction rules generalizing m with
  | nil => trivial
  | cons _ _ ih =>
    rw [checkRules] at h
    split at h <;> rename_i hcheck
    · cases h
    · exact ⟨_,_,hcheck,ih h⟩
    · cases h

theorem checkRules_of_allow {m : RiskManager σ} (h : Allow order account rules m.state) :
    ∃ m', checkRules order account rules m = (.ok (true, none), m') := by
  induction rules generalizing m with
  | nil => exact ⟨m,rfl⟩
  | cons _ _ ih =>
    obtain ⟨message,s,hcheck,hrest⟩ := h
    rw [checkRules, hcheck]
    exact ih hrest

/-- An adapter receives an order only in a call of `submit_order` that passes every check. -/
theorem passes_of_receives {r : Router σ A} {e : Event σ A} {adapter : A} (h : r.Receives e adapter order) :
    ∃ g account, e = .submitOrder order g ∧ r.Passes order account ∧ r.adapters account.accountType = some adapter := by
  unfold Receives at h
  cases e with
  | submitOrder =>
    rw [step, submitOrder] at h
    split at h
    · simp at h
    rename_i account hfound
    split at h
    · simp at h
    · simp at h
    rename_i hcheck
    split at h
    · simp at h
    rename_i hadapter
    obtain ⟨rfl,rfl⟩ := Prod.mk.inj (List.cons.inj (append_cancel_left h)).1
    -- the kill switch is the first rule
    obtain ⟨_,s,hfirst,hrest⟩ := checkRules_allowed hcheck
    obtain ⟨hoff,rfl⟩ := Prod.mk.inj hfirst
    refine ⟨_,account,rfl,⟨hfound,?_,hrest⟩,hadapter⟩
    cases hswitch : r.riskManager.killSwitch with
    | false => rfl
    | true => simp [hswitch] at hoff
  | setKillSwitch | updateAccounts | addRule | registerAdapter => simp [step] at h

/-- An order that passes every check is handed over, whatever the flag of its account. -/
theorem receives_of_passes {r : Router σ A} {adapter : A} (h : r.Passes order account)
    (hadapter : r.adapters account.accountType = some adapter) (g : Given) :
    r.Receives (.submitOrder order g) adapter order := by
  have hallowed : Allow order account
    (killSwitchRule r.riskManager.killSwitch :: r.riskManager.rules) r.riskManager.state :=
    ⟨none,_,by simp [killSwitchRule, h.off],h.allowed⟩
  obtain ⟨m,hcheck⟩ := checkRules_of_allow hallowed
  rw [Receives, step, submitOrder, h.found]
  simp only [RiskManager.checkOrder, hcheck, hadapter]

/-- A step keeps to the gate exactly if the orders that pass are of enabled accounts. -/
theorem liveGate_iff_enabled (r : Router σ A) (e : Event σ A) : r.LiveGate e ↔ r.Enabled e := by
  constructor
  · rintro h order g account adapter rfl hpasses hadapter hlive
    obtain ⟨found,hfound,henabled⟩ := h adapter order hlive (receives_of_passes hpasses hadapter g)
    cases hpasses.found.symm.trans hfound.found
    exact henabled
  · intro h adapter order hlive hreceives
    obtain ⟨g,account,he,hpasses,hadapter⟩ := passes_of_receives hreceives
    exact ⟨account,hpasses,h order g account adapter he hpasses hadapter hlive⟩

/-- Whatever happens, an order reaches an adapter only for an account of its type that exists, with the kill switch off
and allowed by every rule. The gate holds exactly if each order that passes these checks, and whose account has the
adapter for live orders, is of an account that is enabled. -/
theorem live_gate_iff (r : Router σ A) (events : List (Event σ A)) :
    EachStep step (fun r e => ∀ adapter order, r.Receives e adapter order →
      ∃ account, r.Passes order account ∧ r.adapters account.accountType = some adapter) r events ∧
    (EachStep step LiveGate r events ↔ EachStep step Enabled r events) := by
  constructor
  · refine eachStep_of_invariant (I := fun _ => True) (K := fun _ => True) (fun _ _ _ _ => trivial)
      (fun _ _ _ _ adapter order h => ?_) trivial fun _ _ => trivial
    obtain ⟨-,account,-,hpasses⟩ := passes_of_receives h
    exact ⟨account,hpasses⟩
  · exact eachStep_congr (I := fun _ => True) (K := fun _ => True) (fun _ _ _ _ _ => trivial)
      (fun r e _ _ => liveGate_iff_enabled r e) trivial fun _ _ => trivial

def oneAccount (liveEnabled : Bool) : Router Unit String where
  riskManager := { state := () }
  accounts id := if id = "acct_1" then some ⟨"acct_1", .live, liveEnabled⟩ else none
  adapters
    | .live => some "binance"
    | _ => none

def firstOrder : OrderIntent := ⟨"c_1","trend","acct_1","BTCUSDT",.buy,.market,.finite 1,none,none,0⟩

/-- The order of an account that is enabled is received, and the gate holds. -/
theorem enabled_order_received :
    (oneAccount true).Receives (.submitOrder firstOrder ⟨"0", 0, .error "timeout"⟩) "binance" firstOrder ∧
      EachStep step LiveGate (oneAccount true) [.submitOrder firstOrder ⟨"0", 0, .error "timeout"⟩] := by
  refine ⟨rfl,(live_gate_iff _ _).2.mpr ⟨?_,trivial⟩⟩
  rintro order g account adapter ⟨⟩ hpasses - -
  cases hpasses.found
  rfl

/-- The account is not enabled, and its order is handed to the live adapter. -/
theorem disabled_order_received :
    (oneAccount false).Receives (.submitOrder firstOrder ⟨"0", 0, .error "timeout"⟩) "binance" firstOrder ∧
      ¬EachStep step LiveGate (oneAccount false) [.submitOrder firstOrder ⟨"0", 0, .error "timeout"⟩] := by
  refine ⟨rfl,fun h => ?_⟩
  obtain ⟨account,hpasses,henabled⟩ := h.1 "binance" firstOrder rfl rfl
  cases hpasses.found
  cases henabled

end Router
end OpenPine.Execution
