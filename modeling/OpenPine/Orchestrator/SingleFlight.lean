import OpenPine.Foundation.Runs
import OpenPine.Orchestrator.Admission

/-! # One fetch at a time for a series

`_load_provider` of `openpine/data/orchestrator.py` for any number of threads. A flight is
registered, fetched for, removed from the table and resolved in separate steps, and
other threads may run between any two of them. A call owns at most one flight, so a
flight is known by the call that owns it.
-/
namespace OpenPine.Orchestrator
open Python Runs List

/-- `_provider_series_key` -/
structure SeriesKey where
  (exchange market symbol timeframe : String)
deriving DecidableEq

def providerSeriesKey (query : BarQuery) : SeriesKey :=
  ⟨query.instrument.exchange,query.instrument.market,query.instrument.symbol,query.timeframe.canonical⟩

/-- Where a call is: at the lookup, waiting for the flight of another call, fetching, about
to remove its flight, about to resolve it, or at its end. -/
inductive Point (β : Type)
  | lookup
  | waiting (owner : ℕ)
  | fetching
  | fetched (outcome : Except Thrown β)
  | removed (outcome : Except Thrown β)
  | done (outcome : Except Thrown β)
  | unavailable

structure ProviderCall (β : Type) where
  query : BarQuery
  point : Point β

/-- `_ProviderFlight`, with the state of its future. -/
structure ProviderFlight (β : Type) where
  query : BarQuery
  future : Option (Except Thrown β)

/-- All calls, the table of flights, the flights by their owners, and how the fetches ended. -/
structure Flights (β : Type) where
  calls : ℕ → Option (ProviderCall β)
  table : Dict SeriesKey ℕ
  flights : ℕ → Option (ProviderFlight β)
  fetches : List (BarQuery × Except Thrown β)

namespace Flights
variable {β : Type}

def start : Flights β := ⟨fun _ => none,.empty,fun _ => none,[]⟩

def move (s : Flights β) (i : ℕ) (query : BarQuery) (point : Point β) : Flights β :=
  { s with calls := Function.update s.calls i (some ⟨query,point⟩) }

def advance (s : Flights β) (i : ℕ) (query : BarQuery) (outcome : Except Thrown β) : Point β → Flights β
  | .lookup =>
    match s.table.get? (providerSeriesKey query) with
    | some owner => s.move i query (.waiting owner)
    | none =>
      { s.move i query .fetching with
        table := s.table.put (providerSeriesKey query) i, flights := Function.update s.flights i (some ⟨query,none⟩) }
  | .waiting owner =>
    match s.flights owner with
    | some ⟨query',some result⟩ =>
      if query' = query then s.move i query (.done result)
      else
        match result with
        | .ok _ => s.move i query .lookup
        | .error e => if e.ordinary then s.move i query .lookup else s.move i query (.done (.error e))
    | _ => s
  | .fetching => { s.move i query (.fetched outcome) with fetches := s.fetches ++ [(query, outcome)] }
  | .fetched outcome =>
    { s.move i query (.removed outcome) with
      table := if s.table.get? (providerSeriesKey query) = some i then s.table.del (providerSeriesKey query)
        else s.table }
  | .removed outcome =>
    { s.move i query (.done outcome) with flights := Function.update s.flights i (some ⟨query,some outcome⟩) }
  | .done _ => s
  | .unavailable => s

inductive Op (β : Type)
  /-- A new call begins, with or without a provider. -/
  | call (i : ℕ) (query : BarQuery) (configured : Bool)
  /-- A call takes a step; the outcome is that of its fetch if it ends there. -/
  | step (i : ℕ) (outcome : Except Thrown β)

def step (s : Flights β) : Op β → Flights β
  | .call i query configured =>
    match s.calls i with
    | none => s.move i query (if configured then .lookup else .unavailable)
    | some _ => s
  | .step i outcome =>
    match s.calls i with
    | none => s
    | some call => s.advance i call.query outcome call.point

/-! ### What is asked -/

def OneFetch (s : Flights β) : Prop :=
  ∀ i j query query', s.calls i = some ⟨query,.fetching⟩ → s.calls j = some ⟨query',.fetching⟩ →
    providerSeriesKey query = providerSeriesKey query' → i = j

def ReturnsOwn (s : Flights β) : Prop :=
  ∀ i query series, s.calls i = some ⟨query,.done (.ok series)⟩ → (query, .ok series) ∈ s.fetches

def RaisesOwn (s : Flights β) : Prop :=
  ∀ i query e, s.calls i = some ⟨query,.done (.error e)⟩ → (query, .error e) ∈ s.fetches

def Point.Ended : Point β → Prop
  | .done _ => True
  | .unavailable => True
  | _ => False

def EmptyAtRest (s : Flights β) : Prop := (∀ i call, s.calls i = some call → Point.Ended call.point) → s.table.rows = []

/-! ### The invariant -/

def Point.Listed : Point β → Prop
  | .fetching => True
  | .fetched _ => True
  | _ => False

/-- The outcome that a call carries is that of a fetch for its query. Only an exception that
is not ordinary may come from another fetch. -/
def Point.From (fetches : List (BarQuery × Except Thrown β)) (query : BarQuery) : Point β → Prop
  | .fetched outcome => (query, outcome) ∈ fetches
  | .removed outcome => (query, outcome) ∈ fetches
  | .done outcome => (query, outcome) ∈ fetches ∨
      ∃ e query', outcome = .error e ∧ e.ordinary = false ∧ (query', .error e) ∈ fetches
  | _ => True

theorem Point.From.mono {fetches : List (BarQuery × Except Thrown β)} {query : BarQuery} {point : Point β}
    (h : Point.From fetches query point) (fetch : BarQuery × Except Thrown β) :
    Point.From (fetches ++ [fetch]) query point := by
  cases point with
  | fetched | removed => exact mem_append_left _ h
  | done => exact h.imp (mem_append_left _) fun ⟨e,query',he,hextra,hmem⟩ => ⟨e,query',he,hextra,mem_append_left _ hmem⟩
  | lookup | waiting | fetching | unavailable => trivial

structure Sound (s : Flights β) : Prop where
  listed : ∀ i query point, s.calls i = some ⟨query,point⟩ → Point.Listed point →
    s.table.get? (providerSeriesKey query) = some i
  owned : ∀ key i, s.table.get? key = some i →
    ∃ query point, s.calls i = some ⟨query,point⟩ ∧ Point.Listed point ∧ providerSeriesKey query = key
  resolved : ∀ i query result, s.flights i = some ⟨query,some result⟩ → (query, result) ∈ s.fetches
  carried : ∀ i query point, s.calls i = some ⟨query,point⟩ → Point.From s.fetches query point

variable {s : Flights β} {i : ℕ} {query : BarQuery} {point point' : Point β} {outcome : Except Thrown β}

theorem calls_move (s : Flights β) (i : ℕ) (query : BarQuery) (point : Point β) (j : ℕ) :
    (s.move i query point).calls j = if j = i then some ⟨query,point⟩ else s.calls j := Function.update_apply ..

/-- What holds of the call that moves and of all others holds of every call. -/
theorem forall_calls_move {P : ℕ → BarQuery → Point β → Prop} (hi : P i query point)
    (hother : ∀ j query' point', j ≠ i → s.calls j = some ⟨query',point'⟩ → P j query' point') :
    ∀ j query' point', (s.move i query point).calls j = some ⟨query',point'⟩ → P j query' point' := by
  intro j query' point' hcall
  rw [calls_move] at hcall
  split at hcall
  · rename_i hj
    cases hcall
    exact hj ▸ hi
  · rename_i hj
    exact hother j query' point' hj hcall

theorem unlisted (hcall : s.calls i = some ⟨query,point⟩) (h : ¬Point.Listed point) :
    ∀ query' point', s.calls i = some ⟨query',point'⟩ → ¬Point.Listed point' := by
  intro query' point' hcall'
  cases hcall.symm.trans hcall'
  exact h

section
variable (h : Sound s)
include h

theorem Sound.move (hbefore : ∀ query' point, s.calls i = some ⟨query',point⟩ → ¬Point.Listed point)
    (hafter : ¬Point.Listed point') (hfrom : Point.From s.fetches query point') : Sound (s.move i query point') := by
  refine ⟨forall_calls_move (absurd · hafter) fun j query' point _ => h.listed j query' point,fun key j hentry => ?_,
    h.resolved,forall_calls_move hfrom fun j query' point _ => h.carried j query' point⟩
  obtain ⟨query',point,hcall,hlisted,hkey⟩ := h.owned key j hentry
  refine ⟨query',point,(calls_move ..).trans ((if_neg ?_).trans hcall),hlisted,hkey⟩
  rintro rfl
  exact hbefore query' point hcall hlisted

theorem Sound.register (hcall : s.calls i = some ⟨query,.lookup⟩)
    (hfree : s.table.get? (providerSeriesKey query) = none) :
    Sound { s.move i query .fetching with
      table := s.table.put (providerSeriesKey query) i
      flights := Function.update s.flights i (some ⟨query,none⟩) } := by
  refine ⟨forall_calls_move (fun _ => ?_) fun j query' point _ hcall' hlisted => ?_,fun key j hentry => ?_,
    fun j query' result hflight => ?_,forall_calls_move trivial fun j query' point _ => h.carried j query' point⟩
  · rw [Dict.get?_put, if_pos rfl]
  · have hother := h.listed j query' point hcall' hlisted
    rw [Dict.get?_put, if_neg]
    · exact hother
    · intro hkey
      rw [← hkey, hfree] at hother
      cases hother
  · rw [Dict.get?_put] at hentry
    split at hentry
    · rename_i hkey
      cases hentry
      exact ⟨query,.fetching,(calls_move ..).trans (if_pos rfl),trivial,hkey⟩
    · obtain ⟨query',point,hcall',hlisted,hkey⟩ := h.owned key j hentry
      refine ⟨query',point,(calls_move ..).trans ((if_neg ?_).trans hcall'),hlisted,hkey⟩
      rintro rfl
      cases hcall.symm.trans hcall'
      exact hlisted
  · replace hflight := (Function.update_apply s.flights i (some ⟨query,none⟩) j).symm.trans hflight
    split at hflight
    · cases hflight
    · exact h.resolved j query' result hflight

theorem Sound.fetch (hcall : s.calls i = some ⟨query,.fetching⟩) (outcome : Except Thrown β) :
    Sound { s.move i query (.fetched outcome) with fetches := s.fetches ++ [(query, outcome)] } := by
  refine ⟨forall_calls_move (fun _ => h.listed i query .fetching hcall trivial) fun j query' point _ =>
    h.listed j query' point,
    fun key j hentry => ?_,fun j query' result hflight => mem_append_left _ (h.resolved j query' result hflight),
    forall_calls_move (mem_append_right _ mem_cons_self) fun j query' point _ hcall' =>
      (h.carried j query' point hcall').mono _⟩
  obtain ⟨query',point,hcall',hlisted,hkey⟩ := h.owned key j hentry
  by_cases hj : j = i
  · subst hj
    cases hcall.symm.trans hcall'
    exact ⟨query,.fetched outcome,(calls_move ..).trans (if_pos rfl),trivial,hkey⟩
  · exact ⟨query',point,(calls_move ..).trans ((if_neg hj).trans hcall'),hlisted,hkey⟩

theorem Sound.remove (hcall : s.calls i = some ⟨query,.fetched outcome⟩) :
    Sound { s.move i query (.removed outcome) with
      table := if s.table.get? (providerSeriesKey query) = some i then s.table.del (providerSeriesKey query)
        else s.table } := by
  have hmine : s.table.get? (providerSeriesKey query) = some i := h.listed i query _ hcall trivial
  have hfetched : (query, outcome) ∈ s.fetches := h.carried i query _ hcall
  rw [if_pos hmine]
  refine ⟨forall_calls_move False.elim fun j query' point hj hcall' hlisted => ?_,fun key j hentry => ?_,h.resolved,
    forall_calls_move hfetched fun j query' point _ => h.carried j query' point⟩
  · have hother := h.listed j query' point hcall' hlisted
    rw [Dict.get?_del, if_neg]
    · exact hother
    · intro hkey
      rw [← hkey, hmine] at hother
      exact hj (Option.some.inj hother).symm
  · rw [Dict.get?_del] at hentry
    split at hentry
    · cases hentry
    · rename_i hne
      obtain ⟨query',point,hcall',hlisted,hkey⟩ := h.owned key j hentry
      refine ⟨query',point,(calls_move ..).trans ((if_neg ?_).trans hcall'),hlisted,hkey⟩
      rintro rfl
      cases hcall.symm.trans hcall'
      exact hne hkey

theorem Sound.resolve (hcall : s.calls i = some ⟨query,.removed outcome⟩) :
    Sound { s.move i query (.done outcome) with
      flights := Function.update s.flights i (some ⟨query,some outcome⟩) } := by
  have hfetched : (query, outcome) ∈ s.fetches := h.carried i query _ hcall
  obtain ⟨hlisted,howned,-,hcarried⟩ : Sound (s.move i query (.done outcome)) :=
    h.move (unlisted hcall id) id (.inl hfetched)
  refine ⟨hlisted,howned,fun j query' result hflight => ?_,hcarried⟩
  replace hflight := (Function.update_apply s.flights i (some ⟨query,some outcome⟩) j).symm.trans hflight
  split at hflight
  · cases hflight
    exact hfetched
  · exact h.resolved j query' result hflight

/-- A call that waited leaves with a result for its own query, or with an exception that is
not ordinary, or looks again. -/
theorem Sound.wake {owner : ℕ} (hcall : s.calls i = some ⟨query,.waiting owner⟩) (outcome : Except Thrown β) :
    Sound (s.advance i query outcome (.waiting owner)) := by
  simp only [advance]
  split
  · rename_i query' result hflight
    have hfetched := h.resolved owner query' result hflight
    split
    · rename_i hsame
      rw [hsame] at hfetched
      exact h.move (unlisted hcall id) id (.inl hfetched)
    · split
      · exact h.move (unlisted hcall id) id trivial
      · rename_i e
        split
        · exact h.move (unlisted hcall id) id trivial
        · rename_i hordinary
          exact h.move (unlisted hcall id) id (.inr ⟨e,query',rfl,(Bool.not_eq_true _).mp hordinary,hfetched⟩)
  · exact h

/-- Every step keeps the table of flights sound. -/
theorem sound_step (op : Op β) : Sound (step s op) := by
  cases op with
  | call i _ configured =>
    simp only [step]
    split
    · rename_i hnone
      have hunlisted : ∀ query' point, s.calls i = some ⟨query',point⟩ → ¬Point.Listed point := by
        intro query' point hcall
        cases hnone.symm.trans hcall
      cases configured with
      | true | false => exact h.move hunlisted id trivial
    · exact h
  | step _ outcome =>
    simp only [step]
    split
    · exact h
    · rename_i call hcall
      obtain ⟨query,point⟩ := call
      cases point with
      | lookup =>
        simp only [advance]
        split
        · exact h.move (unlisted hcall id) id trivial
        · exact h.register hcall ‹_›
      | waiting => exact h.wake hcall outcome
      | fetching => exact h.fetch hcall outcome
      | fetched => exact h.remove hcall
      | removed => exact h.resolve hcall
      | done | unavailable => exact h

end

theorem sound_run (ops : List (Op β)) : Sound (Runs.run step (start : Flights β) ops) := by
  refine run_invariant (P := Sound) (fun s op h => sound_step h op) ⟨?_,?_,?_,?_⟩ ops
  · rintro i query point ⟨⟩
  · rintro key i ⟨⟩
  · rintro i query result ⟨⟩
  · rintro i query point ⟨⟩

/-- In every interleaving at most one fetch runs for a series, a call returns only what was
fetched for its own query, and the table is empty when all calls have ended. As long
as no fetch raises something that is not an `Exception`, a call raises only what a fetch
for its own query raised. -/
theorem single_flight (ops : List (Op β)) :
    let s := Runs.run step (start : Flights β) ops
    OneFetch s ∧ ReturnsOwn s ∧ EmptyAtRest s ∧
    ((∀ query e, (query, .error e) ∈ s.fetches → e.ordinary = true) → RaisesOwn s) := by
  have h := sound_run ops
  refine ⟨?_,?_,?_,?_⟩
  · intro i j query query' hi hj hkey
    have hlisted := h.listed i query .fetching hi trivial
    rw [hkey, h.listed j query' .fetching hj trivial] at hlisted
    exact (Option.some.inj hlisted).symm
  · intro i query series hcall
    rcases h.carried i query _ hcall with hfetched | ⟨e,query',herror,-⟩
    · exact hfetched
    · cases herror
  · intro hended
    by_contra hne
    obtain ⟨⟨key,i⟩,hrow⟩ := exists_mem_of_ne_nil _ hne
    have hentry : (Runs.run step (start : Flights β) ops).table.get? key = some i :=
      congrArg (Option.map Prod.snd) (Table.find?_of_mem hrow)
    obtain ⟨query,point,hcall,hlisted,-⟩ := h.owned key i hentry
    have hend := hended i _ hcall
    cases point <;> first | exact hend | exact hlisted
  · intro hordinary i query e hcall
    rcases h.carried i query _ hcall with hfetched | ⟨e',query',herror,hextra,hfetched⟩
    · exact hfetched
    · cases herror
      exact absurd (hordinary query' e hfetched) (by rw [hextra]; exact Bool.false_ne_true)

def minute (startMs : ℤ) : BarQuery :=
  ⟨⟨"binance","spot","BTCUSDT"⟩,.minute,startMs,startMs + 60000,.provider,.fail,"raise"⟩

/-- A call for the first minute is fetching when a call for the second minute begins and
waits. The fetch ends with the exception, and the waiting call goes on. -/
def failing (e : Thrown) : List (Op Unit) :=
  [.call 0 (minute 0) true, .step 0 (.ok ()), .call 1 (minute 60000) true, .step 1 (.ok ()), .step 0 (.error e),
   .step 0 (.ok ()), .step 0 (.ok ()), .step 1 (.ok ())]

/-- `KeyboardInterrupt` reaches the second call, although nothing was fetched for its query. -/
theorem interrupt_reaches_other_query : ¬RaisesOwn (Runs.run step start (failing ⟨"KeyboardInterrupt",false⟩)) := by
  intro h
  have hown := h 1 (minute 60000) ⟨"KeyboardInterrupt",false⟩ rfl
  cases hown with
  | tail _ hmem => cases hmem

theorem ordinary_failure_stays : RaisesOwn (Runs.run step start (failing ⟨"TimeoutError",true⟩)) := by
  refine (single_flight (failing ⟨"TimeoutError",true⟩)).2.2.2 fun query e hmem => ?_
  cases hmem with
  | head => rfl
  | tail _ hmem => cases hmem

end Flights
end OpenPine.Orchestrator
