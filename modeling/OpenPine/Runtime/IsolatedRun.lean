import Mathlib.Data.Int.Notation
import Mathlib.Tactic.Push
import OpenPine.Foundation.Python

/-! # Isolated runs

`BacktestEngineAdapter.run_isolated` and `run_isolated_artifact`: the engine goes through the
bars of a run and asks a worker process for the intents of each. The worker and the engine are
outside. What is modelled is what is checked before they start, how the intents of the bars are
gathered to a tape, and what becomes of the result.
-/
namespace OpenPine.Runtime.IsolatedRun
open Python

/-! ### The identity of a run -/

structure ExecutionContext where
  generatedArtifactHash : Option String := none
  emittedModuleHash : Option String := none
  producerCommits : Option (List (String × String)) := none
  stackManifestHash : Option String := none
  stackId : Option String := none

structure GeneratedArtifact where
  contentHash : Option String := none
  emittedModuleHash : Option String := none
  stackId : Option String := none
  producerCommits : Option (List (String × String)) := none

structure Attributes where
  executionContext : Option ExecutionContext := none
  generatedArtifact : Option GeneratedArtifact := none
  instrumentId : Option String := none
  runHash : Option String := none
  protocolArtifactDir : Option String := none

/-- The attributes of `a` where they are set, and those of `b` elsewhere. -/
def Attributes.over (a b : Attributes) : Attributes where
  executionContext := a.executionContext.or b.executionContext
  generatedArtifact := a.generatedArtifact.or b.generatedArtifact
  instrumentId := a.instrumentId.or b.instrumentId
  runHash := a.runHash.or b.runHash
  protocolArtifactDir := a.protocolArtifactDir.or b.protocolArtifactDir

structure RunConfig (S : Type) where
  (symbol timeframe exchange marketType : String)
  (startTime endTime : ℤ)
  semanticProfile : String
  settings : S
  attributes : Attributes := {}

structure Inputs (S π η : Type) where
  source : String
  config : RunConfig S
  params : π
  htfBars : η

structure EngineResult (ρ R : Type) where
  status : String := "ok"
  resumeState : Option ρ
  raw : R

/-- The intents that the worker hands over in the callbacks of a run, and how the engine ends. -/
structure Run (ι ρ R : Type) where
  batches : List (List ι)
  outcome : Except String (EngineResult ρ R)

structure Engine (S π η ι ρ R B : Type) where
  (validContext hashedContext : ExecutionContext → Bool)
  (validArtifact hashedArtifact : GeneratedArtifact → Bool)
  digest : String → String
  /-- The attributes that a configuration of the engine has by itself. -/
  attributes : Attributes
  stampConfirmedHtfBars : Option η → Except String η
  noParams : π
  requireLiveTape : List ι → Except String Unit
  run : Inputs S π η → List B → Option ρ → Run ι ρ R

structure BacktestRunResult (ρ R : Type) where
  status : String
  barsProcessed : ℕ
  rawResult : R
  resumeState : Option ρ

def blank (s : String) : Bool := s.toList.all Char.isWhitespace

def sealedHash (runHash : String) : Bool :=
  "sha256:".toList.isPrefixOf runHash.toList && runHash ≠ "sha256:" ++ String.ofList (List.replicate 64 '0')

def identityComponents : List String := ["openpine-contracts","pine2ast","ast2python","pinelib"]

variable {S π η ι ρ R B : Type} (e : Engine S π η ι ρ R B)

/-- From the resume state of a run the engine goes on as if it had not stopped. -/
def Engine.ResumesExactly : Prop :=
  ∀ (i i' i'' : Inputs S π η) (xs ys : List B) (r : EngineResult ρ R) (state : ρ), i.source = i'.source →
    i.source = i''.source →
    i.params = i'.params → i.params = i''.params → (e.run i xs none).outcome = .ok r → r.resumeState = some state →
    (e.run i' ys (some state)).outcome = (e.run i'' (xs ++ ys) none).outcome

/-! ### The start of a session -/

/-- The checks of `InteractiveWorkerSession`, in their order. -/
def sessionChecks (source : String) (a : Attributes) (symbol timeframe : String) : List (Bool × String) :=
  let context := a.executionContext.getD {}
  let artifact := a.generatedArtifact.getD {}
  [(decide (source.utf8ByteSize ≤ 500000),"artifact source exceeds size limit"),
    (e.validContext context,"execution_context is invalid"),
    (e.hashedContext context,"execution_context content hash is invalid"),
    (e.validArtifact artifact,"generated artifact is invalid"),
    (e.hashedArtifact artifact,"generated artifact content hash is invalid"),
    (decide (artifact.emittedModuleHash = some (e.digest source)),"generated artifact module hash mismatch"),
    (decide (context.generatedArtifactHash = artifact.contentHash ∧
      context.emittedModuleHash = artifact.emittedModuleHash),
      "generated artifact admission identity mismatch"),
    (decide (artifact.stackId = some "openpine-5.0"),"generated artifact stack family mismatch"),
    (artifact.producerCommits.isSome && context.producerCommits.isSome,
      "generated artifact producer identity is missing")] ++
  identityComponents.map (fun name =>
    (decide ((artifact.producerCommits.getD []).lookup name = (context.producerCommits.getD []).lookup name),
      "generated artifact producer identity mismatch: " ++ name)) ++
  [(sealedHash (a.runHash.getD ""),"sealed run hash is required"),
    (decide (context.stackManifestHash = context.stackId),"execution_context stack manifest identity mismatch"),
    (!blank ((nonEmpty a.instrumentId).getD symbol),"instrument identity is required"),
    (!blank timeframe,"chart_timeframe required"),
    (decide (a.protocolArtifactDir.getD "" ≠ ""),"protocol artifact directory is required")]

def openSession (source : String) (a : Attributes) (symbol timeframe : String) : Except String Unit :=
  match (sessionChecks e source a symbol timeframe).find? (fun check => !check.1) with
  | some check => .error check.2
  | none => .ok ()

/-! ### The run -/

/-- The callbacks of `_process_bar`: the tape is checked whenever it grows. -/
def gather (requireLiveTape : List ι → Except String Unit) : List ι → List (List ι) → Except String (List ι)
  | events, [] => return events
  | events, batch :: rest =>
    if batch.isEmpty then gather requireLiveTape events rest
    else do
      requireLiveTape (events ++ batch)
      gather requireLiveTape (events ++ batch) rest

def semanticProfiles : List String := ["legacy_4x","strict_5x"]

def semanticProfile (raw : String) : Except String String :=
  if blank raw then .error "semantic_profile is required"
  else if raw ∈ semanticProfiles then .ok raw
  else .error ("semantic_profile '" ++ raw ++ "' is unknown")

def chartTimeframe (timeframe : String) : Except String Unit :=
  if timeframe = "" then .error "chart timeframe is required" else .ok ()

def finalTape (events : List ι) : Except String Unit :=
  if events.isEmpty then .error "live pinelib tape is empty" else e.requireLiveTape events

def runIsolatedArtifact (source : String) (bars : List B) (config : RunConfig S) (resumeState : Option ρ)
    (htfBars : Option η) (params : Option π) : Except String (EngineResult ρ R) :=
  if resumeState.isSome then .error "RESUME_UNSUPPORTED_FOR_WORKER_PROTOCOL"
  else do
    let _ ← semanticProfile config.semanticProfile
    chartTimeframe config.timeframe
    let htf ← e.stampConfirmedHtfBars htfBars
    openSession e source config.attributes config.symbol config.timeframe
    let run := e.run ⟨source,config,params.getD e.noParams,htf⟩ bars resumeState
    let events ← gather e.requireLiveTape [] run.batches
    let result ← run.outcome
    finalTape e events
    return result

/-- `_to_engine_config`: the attributes that are set on the configuration go to that of the engine. -/
def toEngineConfig (config : RunConfig S) : RunConfig S :=
  { config with attributes := config.attributes.over e.attributes }

def runIsolated (source : String) (bars : List B) (config : RunConfig S) (resumeState : Option ρ) (htfBars : Option η)
    (params : Option π) : Except String (BacktestRunResult ρ R) :=
  if blank config.semanticProfile then .error "semantic_profile is required"
  else do
    let result ← runIsolatedArtifact e source bars (toEngineConfig e config) resumeState htfBars params
    return ⟨result.status,bars.length,result.raw,result.resumeState⟩

/-! ### What a run that returns has passed -/

variable {e} {source : String} {bars : List B} {config : RunConfig S} {htfBars : Option η} {params : Option π}
  {symbol timeframe : String}

theorem openSession_eq_ok {a : Attributes} : openSession e source a symbol timeframe = .ok () ↔
    ∀ check ∈ sessionChecks e source a symbol timeframe, check.1 = true := by
  unfold openSession
  cases hfind : (sessionChecks e source a symbol timeframe).find? (fun check => !check.1) with
  | some check =>
    refine iff_of_false nofun fun h => ?_
    have hfalse := List.find?_some hfind
    rw [h check (List.mem_of_find?_eq_some hfind)] at hfalse
    cases hfalse
  | none => exact iff_of_true rfl fun check hcheck => by simpa using List.find?_eq_none.mp hfind check hcheck

/-- Nothing refuses the run: the session opens, the engine answers, and the intents make a tape that is accepted. -/
structure Passes (e : Engine S π η ι ρ R B) (source : String) (config : RunConfig S) (htf : η) (params : π)
    (bars : List B) (result : EngineResult ρ R) : Prop where
  profile : config.semanticProfile ∈ semanticProfiles
  timeframe : config.timeframe ≠ ""
  session : ∀ check ∈ sessionChecks e source config.attributes config.symbol config.timeframe, check.1 = true
  outcome : (e.run ⟨source,config,params,htf⟩ bars none).outcome = .ok result
  tape : ∃ events, gather e.requireLiveTape [] (e.run ⟨source,config,params,htf⟩ bars none).batches = .ok events ∧
    events ≠ [] ∧ e.requireLiveTape events = .ok ()

theorem gather_eq_ok {requireLiveTape : List ι → Except String Unit} {events tape : List ι} {batches : List (List ι)}
    (h : gather requireLiveTape events batches = .ok tape) : tape = events ++ batches.flatten := by
  induction batches generalizing events with
  | nil =>
    cases h
    simp
  | cons _ _ ih =>
    unfold gather at h
    split at h
    · rename_i hempty
      rw [ih h, List.isEmpty_iff.mp hempty]
      simp
    · obtain ⟨-,-,h⟩ := bind_eq_ok.mp h
      rw [ih h]
      simp

theorem runIsolated_resumed (state : ρ) (r : BacktestRunResult ρ R) :
    runIsolated e source bars config (some state) htfBars params ≠ .ok r := by
  unfold runIsolated
  split
  · nofun
  · intro h
    obtain ⟨-,h,-⟩ := bind_eq_ok.mp h
    cases h

theorem semanticProfile_eq_ok {raw profile : String} :
    semanticProfile raw = .ok profile ↔ raw ∈ semanticProfiles ∧ profile = raw := by
  have hblank : raw ∈ semanticProfiles → blank raw = false := by
    simp only [semanticProfiles, List.mem_cons, List.not_mem_nil, or_false]
    rintro (rfl | rfl) <;> decide
  unfold semanticProfile
  by_cases hmem : raw ∈ semanticProfiles
  · simp [hmem, hblank hmem, eq_comm]
  · cases blank raw <;> simp [hmem]

theorem finalTape_eq_ok {events : List ι} : finalTape e events = .ok () ↔
    events ≠ [] ∧ e.requireLiveTape events = .ok () := by
  cases events <;> simp [finalTape]

/-- A run returns what the engine answers, if all checks pass. -/
theorem runIsolated_ok_iff {r : BacktestRunResult ρ R} : runIsolated e source bars config none htfBars params = .ok r ↔
    ∃ htf result, e.stampConfirmedHtfBars htfBars = .ok htf ∧
      Passes e source (toEngineConfig e config) htf (params.getD e.noParams) bars result ∧
      r = ⟨result.status,bars.length,result.raw,result.resumeState⟩ := by
  unfold runIsolated runIsolatedArtifact
  constructor
  · intro h
    split at h
    · cases h
    · obtain ⟨result,h,hr⟩ := bind_eq_ok.mp h
      obtain ⟨_,hprofile,h⟩ := bind_eq_ok.mp h
      obtain ⟨_,htimeframe,h⟩ := bind_eq_ok.mp h
      obtain ⟨htf,hhtf,h⟩ := bind_eq_ok.mp h
      obtain ⟨_,hopen,h⟩ := bind_eq_ok.mp h
      obtain ⟨events,hgather,h⟩ := bind_eq_ok.mp h
      obtain ⟨_,houtcome,h⟩ := bind_eq_ok.mp h
      obtain ⟨_,hfinal,h⟩ := bind_eq_ok.mp h
      cases h
      cases hr
      refine ⟨htf,result,hhtf,
        ⟨(semanticProfile_eq_ok.mp hprofile).1,?_,openSession_eq_ok.mp hopen,houtcome,events,hgather,
        finalTape_eq_ok.mp hfinal⟩,rfl⟩
      intro hempty
      rw [chartTimeframe, if_pos hempty] at htimeframe
      cases htimeframe
  · rintro ⟨htf,result,hhtf,h,rfl⟩
    obtain ⟨events,hgather,hfinal⟩ := h.tape
    have hprofile : semanticProfile config.semanticProfile = .ok config.semanticProfile :=
      semanticProfile_eq_ok.mpr ⟨h.profile,rfl⟩
    rw [if_neg]
    · refine bind_eq_ok.mpr ⟨result,bind_eq_ok.mpr ⟨_,hprofile,bind_eq_ok.mpr ⟨(),if_neg h.timeframe,?_⟩⟩,rfl⟩
      refine bind_eq_ok.mpr ⟨htf,hhtf,bind_eq_ok.mpr ⟨(),openSession_eq_ok.mpr h.session,?_⟩⟩
      exact bind_eq_ok.mpr ⟨events,hgather,bind_eq_ok.mpr ⟨result,h.outcome,
        bind_eq_ok.mpr ⟨(),finalTape_eq_ok.mpr hfinal,rfl⟩⟩⟩
    · intro hblank
      rw [semanticProfile, if_pos hblank] at hprofile
      cases hprofile

section Passes
variable {htf : η} {params : π} {result : EngineResult ρ R} (h : Passes e source config htf params bars result)
include h

theorem Passes.sealed : sealedHash (config.attributes.runHash.getD "") = true :=
  h.session (sealedHash (config.attributes.runHash.getD ""),"sealed run hash is required") (by simp [sessionChecks])

theorem Passes.intents : ∃ batch ∈ (e.run ⟨source,config,params,htf⟩ bars none).batches, batch ≠ [] := by
  obtain ⟨events,hgather,hne,-⟩ := h.tape
  rw [gather_eq_ok hgather, List.nil_append] at hne
  by_contra hnone
  push Not at hnone
  exact hne (List.flatten_eq_nil_iff.mpr hnone)

end Passes

end OpenPine.Runtime.IsolatedRun
