import OpenPine.Foundation.Hoare
import OpenPine.Runtime.Mtf
import OpenPine.Strategies.SafeState

/-! # Refused starts

`start_paper` and `start_live` of `openpine/gateway/routes/trading.py`. The admitted profile and the requested series
are committed, each on its own, before the guard asks for the worker and the strategy is activated.
-/
namespace OpenPine.Strategies.Starts
open Hoare Sqlite Runtime.Mtf

/-- An `HTTPException`, the `ValueError` of a request for series, or what else the registry raises. -/
inductive Refusal
  | http (code : ℕ) (text : String)
  | valueError (text : String)
  | registry (why : Failure)
deriving DecidableEq

inductive Mode
  | paper | live
deriving DecidableEq

def Mode.name : Mode → String
  | .paper => "paper"
  | .live => "live"

structure StartRequest where
  strategyId : String
  semanticProfile : Option String := none
  allowLegacy : Bool := false
  htfTimeframe : Option String := none
  mtfSeries : List Runtime.Mtf.Request := []

/-- What the routes depend on besides the registry. The first checks of a route, which are over before the profile is
looked at, only read; so does the guard, which gives its reason if the worker is not ready. -/
structure Gateway where
  library : Library
  conversions : Conversions
  dumps : List MtfSeriesKey → String
  profiles : List String
  legacy4x : String
  admission : Mode → Except Refusal Unit
  executionRouter : Bool
  workerReady : Except (Option String) Unit

variable (g : Gateway) (mode : Mode) (body : StartRequest)

def requireSemanticProfile : Except Refusal String :=
  match body.semanticProfile with
  | none => .error (.http 403 "semantic profile required")
  | some profile =>
    if profile ∉ g.profiles then .error (.http 403 "unknown semantic profile")
    else if profile = g.legacy4x ∧ body.allowLegacy = false then
      .error (.http 403 "legacy semantic profile is not allowed without explicit policy")
    else .ok profile

/-- Everything that a route checks before it writes. -/
def check (r : Registry) : Except Refusal (String × Row) := do
  g.admission mode
  let admitted ← requireSemanticProfile g body
  match r.rows.find? body.strategyId with
  | none => throw (.http 404 ("Strategy not found: " ++ body.strategyId))
  | some row =>
    if row.cells .status = .text "error" then
      throw (.http 400 ("Cannot start " ++ mode.name ++ ": strategy is in error state."))
    else if row.archived then throw (.http 400 "Archived strategy cannot be started")
    else if mode = .paper ∧ g.executionRouter = false then throw (.http 503 "CANONICAL_EXECUTION_ROUTER_REQUIRED")
    else return (admitted, row)

def admittedMtfRequests (chartSymbol : String) : Except String (List MtfSeriesKey) := do
  let explicit ← normalizeMtfRequests g.library body.mtfSeries
  let legacy := Text.strip (body.htfTimeframe.getD "")
  if legacy ≠ "" ∧ explicit ≠ [] then throw "htf_timeframe and mtf_series cannot be combined"
  else if legacy ≠ "" then normalizeMtfRequests g.library [(some chartSymbol, some legacy)]
  else return explicit

/-- The text for `mtf_series_json`; `mtf_requests_json` normalizes once more. -/
def durablePayload (row : Row) : Except String String := do
  let requests ← admittedMtfRequests g body (g.conversions.str (row.cells .symbol))
  let keys ← normalizeMtfRequests g.library (requests.map fun key => (some key.symbol, some key.timeframe))
  return g.dumps keys

def guardedActivation (r : Registry) : Except Refusal Registry :=
  match g.workerReady with
  | .error reason => .error
    (.http 503 ("Background worker is not ready: " ++ (Python.nonEmpty reason).getD "unavailable"))
  | .ok () =>
    match r.activateStrategy g.conversions body.strategyId (some "running") (some mode.name) with
    | .error (.workerCircuitOpen text) => .error (.http 503 text)
    | .error (.archivedActivation text) => .error (.http 400 text)
    | .error why => .error (.registry why)
    | .ok ((), r') => .ok r'

def call (method : Registry → Except Failure (Unit × Registry)) : Program Refusal Registry Unit := do
  let r ← get
  let p ← lift ((method r).mapError .registry)
  set p.2

def activate : Program Refusal Registry Unit := do
  let r ← get
  let r' ← lift (guardedActivation g mode body r)
  set r'

def start : Program Refusal Registry Unit := do
  let r ← get
  let (admitted, row) ← lift (check g mode body r)
  call (·.setSemanticProfile body.strategyId admitted)
  let payload ← lift ((durablePayload g body row).mapError .valueError)
  call (·.setMtfSeries body.strategyId (.ok payload))
  activate g mode body

/-- The row that is stored when a start that has passed the first checks is refused. -/
def written (admitted : String) (row : Row) : Row :=
  match durablePayload g body row with
  | .error _ => (Registry.setTo .semanticProfile admitted).apply row
  | .ok payload => (Registry.setTo .mtfSeriesJson payload).apply ((Registry.setTo .semanticProfile admitted).apply row)

/-- The strategy has the profile and, if they are valid, the series that the request asks for. -/
def Stamped (admitted : String) (row : Row) : Prop :=
  row.cells .semanticProfile = .text admitted ∧
    ∀ payload, durablePayload g body row = .ok payload → row.cells .mtfSeriesJson = .text payload

variable {g mode body} {r r' : Registry} {strategyId admitted : String} {row : Row} {why : Refusal}

theorem check_found (h : check g mode body r = .ok (admitted, row)) : r.rows.find? body.strategyId = some row := by
  obtain ⟨_,-,h⟩ := Python.bind_eq_ok.mp h
  obtain ⟨_,-,h⟩ := Python.bind_eq_ok.mp h
  split at h
  · cases h
  · rename_i hrow
    split_ifs at h
    cases h
    exact hrow

theorem find?_updateStrategy (h : r.rows.find? strategyId = some row) (changes : Changes) :
    (r.updateStrategy strategyId changes).rows.find? strategyId = some (changes.apply row) := by
  obtain rfl : row.strategyId = strategyId := Table.key_of_find? h
  simp only [Registry.updateStrategy, Registry.updateWhere, Table.find?_alter, h, Option.map_some, decide_true, if_true]

/-- A method that writes one field of a stored strategy. -/
theorem run_call (h : r.rows.find? strategyId = some row) (column : Column) (text : String) :
    (call (·.updateField strategyId column (.ok text))).run.run r =
      (.ok (), r.updateStrategy strategyId (Registry.setTo column text)) := by
  have hfield : r.updateField strategyId column (.ok text) =
      .ok ((), r.updateStrategy strategyId (Registry.setTo column text)) := by
    simp only [Registry.updateField, Registry.requireInstance, h]
    rfl
  unfold call
  rw [run_read_lift]
  simp only [hfield]
  rfl

theorem activate_error (h : (activate g mode body).run.run r = (.error why, r')) : r' = r := by
  unfold activate at h
  rw [run_read_lift] at h
  split at h
  · cases h
  · cases h
    rfl

theorem written_eq_iff : written g body admitted row = row ↔ Stamped g body admitted row := by
  obtain ⟨strategyId,cells⟩ := row
  unfold written Stamped
  cases durablePayload g body ⟨strategyId,cells⟩ with
  | error =>
    simp only [Changes.apply, Row.mk.injEq, true_and, reduceCtorEq, false_implies, implies_true, and_true]
    constructor
    · exact fun h => (congrFun h .semanticProfile).symm
    · intro h
      funext column
      cases column with
      | semanticProfile => exact h.symm
      | _ => rfl
  | ok payload =>
    simp only [Changes.apply, Row.mk.injEq, true_and, Except.ok.injEq, forall_eq']
    constructor
    · exact fun h => ⟨(congrFun h .semanticProfile).symm,(congrFun h .mtfSeriesJson).symm⟩
    · rintro ⟨hprofile,hseries⟩
      funext column
      cases column with
      | semanticProfile => exact hprofile.symm
      | mtfSeriesJson => exact hseries.symm
      | _ => rfl

/-- A refused start leaves the row with what it has stamped. -/
theorem start_error (hcheck : check g mode body r = .ok (admitted, row))
    (h : (start g mode body).run.run r = (.error why, r')) :
    r'.rows.find? body.strategyId = some (written g body admitted row) := by
  have hfound := find?_updateStrategy (check_found hcheck) (Registry.setTo .semanticProfile admitted)
  have hprofile : (call (·.setSemanticProfile body.strategyId admitted)).run.run r = _ :=
    run_call (check_found hcheck) .semanticProfile admitted
  unfold start at h
  rw [run_read_lift, hcheck] at h
  simp only [run_bind_ok hprofile] at h
  unfold written
  cases hpayload : durablePayload g body row with
  | error =>
    simp only [hpayload] at h
    cases h
    exact hfound
  | ok payload =>
    have hseries : (call (·.setMtfSeries body.strategyId (.ok payload))).run.run _ = _ :=
      run_call hfound .mtfSeriesJson payload
    simp only [hpayload] at h
    have hactivate := activate_error ((run_bind_ok hseries).symm.trans h)
    rw [hactivate]
    exact find?_updateStrategy hfound _

/-- A refused start leaves the strategy as it was exactly if the checks before the first write refuse it, or what it has
written was stored already. -/
theorem refused_start_unchanged_iff (g : Gateway) (mode : Mode) (body : StartRequest) (r r' : Registry) (why : Refusal)
    (h : (start g mode body).run.run r = (.error why, r')) :
    r'.rows.find? body.strategyId = r.rows.find? body.strategyId ↔
      ∀ admitted row, check g mode body r = .ok (admitted, row) → Stamped g body admitted row := by
  cases hcheck : check g mode body r with
  | error =>
    unfold start at h
    rw [run_read_lift, hcheck] at h
    cases h
    exact ⟨fun _ => nofun,fun _ => rfl⟩
  | ok p =>
    obtain ⟨admitted,row⟩ := p
    rw [start_error hcheck h, check_found hcheck, Option.some_inj, written_eq_iff]
    constructor
    · rintro hstamped _ _ ⟨⟩
      exact hstamped
    · exact fun hall => hall admitted row rfl

def sampleGateway : Gateway :=
  ⟨sampleLibrary,digits,fun _ => "[]",["legacy_4x", "strict_5x"],"legacy_4x",fun _ => .ok (),true,.error none⟩

def trend (semanticProfile : Option String) : Registry :=
  step digits .empty (.createStrategy "9c5b94b1" 1 .sample "trend" semanticProfile)

def strictStart : StartRequest := ⟨"strat_9c5b94b1_1",some "strict_5x",false,none,[]⟩

/-- The worker is not ready, and the strategy has got the profile. -/
theorem refused_start_stamps :
    let final := (start sampleGateway .paper strictStart).run.run (trend none)
    final.1 = .error (.http 503 "Background worker is not ready: unavailable") ∧
      final.2.rows.find? strictStart.strategyId ≠ (trend none).rows.find? strictStart.strategyId := by
  intro final
  refine ⟨by decide +kernel,fun h => ?_⟩
  have hprofile := congrArg (Option.map (·.cells .semanticProfile)) h
  exact absurd hprofile (by decide +kernel)

/-- A profile that is refused, and one that is stored already when the worker refuses. -/
theorem legacy_start_unchanged :
    let legacyStart : StartRequest := { strictStart with semanticProfile := some "legacy_4x" }
    ((start sampleGateway .paper legacyStart).run.run (trend none)).2.rows.find? legacyStart.strategyId =
        (trend none).rows.find? legacyStart.strategyId ∧
      ((start sampleGateway .paper strictStart).run.run (trend (some "strict_5x"))).2.rows.find?
        strictStart.strategyId =
        (trend (some "strict_5x")).rows.find? strictStart.strategyId := by
  constructor
  · exact (refused_start_unchanged_iff sampleGateway .paper _ (trend none) _
      (.http 403 "legacy semantic profile is not allowed without explicit policy") rfl).mpr fun _ _ h => nomatch h
  · refine (refused_start_unchanged_iff sampleGateway .paper strictStart (trend (some "strict_5x")) _
      (.http 503 "Background worker is not ready: unavailable") rfl).mpr ?_
    rintro _ _ ⟨⟩
    refine ⟨rfl,?_⟩
    rintro _ ⟨⟩
    rfl

end OpenPine.Strategies.Starts
