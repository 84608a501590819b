import OpenPine.Foundation.Python
import Mathlib.Data.List.Sort

/-! # The parallel fetcher

`ParallelDataFetcher` of `openpine/data/parallel_fetcher.py`. The type of bars, the
parser of timeframes and the orchestrator behind `get_bars` are parameters, and an
exception is its text. The order in which the futures of a call complete is an
argument too: any rearrangement of the jobs that were submitted.
-/
namespace OpenPine.Data
open Python

structure FetchJob where
  (symbol timeframe : String)
  (startMs endMs : Option ℤ)
  exchange : String := "binance"
  marketType : String := "usdm"
deriving DecidableEq, Repr

inductive FetchError
  | parallelFetchError (message : String)
  | valueError (message : String)
deriving DecidableEq, Repr

structure BarQuery (τ : Type*) where
  (exchange market symbol : String)
  timeframe : τ
  (startMs endMs : ℤ)
  source : String

/-- What the fetcher calls: `parse_timeframe` and the orchestrator's `get_bars`. -/
structure Provider (τ β : Type) where
  parseTimeframe : String → Except String τ
  getBars : BarQuery τ → Except String (List β)

structure Completion where
  order : List FetchJob → List FetchJob
  perm : ∀ jobs, (order jobs).Perm jobs

variable {τ β : Type} (p : Provider τ β) (time : β → ℤ)

def fetchSingle (symbol timeframe : String) (startMs endMs : Option ℤ) (exchange : String) :
    Except String (List β) := do
  let timeframe ← p.parseTimeframe timeframe
  p.getBars
    { exchange := exchange, market := "usdm", symbol := symbol, timeframe := timeframe
      startMs := startMs.getD 0, endMs := endMs.getD 1000000000000000000, source := "provider" }

/-! ### `fetch_many` -/

def FetchJob.key (job : FetchJob) : String := job.symbol ++ ":" ++ job.timeframe

def FetchJob.fetch (job : FetchJob) : Except String (List β) :=
  fetchSingle p job.symbol job.timeframe job.startMs job.endMs job.exchange

/-- The local variables of the loop over completed futures, and the calls of the
progress callback. -/
structure Collected (β : Type) where
  results : Dict String (List β)
  completed : ℕ
  progress : List (String × ℕ × ℕ)

def Collected.empty : Collected β := ⟨.empty,0,[]⟩

def collect (total : ℕ) (c : Collected β) (job : FetchJob) : Except FetchError (Collected β) :=
  match job.fetch p with
  | .error exc => .error (.parallelFetchError ("parallel fetch failed for " ++ job.key ++ ": " ++ exc))
  | .ok bars =>
    .ok
      { results := Dict.put c.results job.key bars, completed := c.completed + 1
        progress := c.progress ++ [(job.key, c.completed + 1, total)] }

def fetchMany (completion : Completion) (jobs : List FetchJob) : Except FetchError (Collected β) :=
  if jobs = [] then .ok .empty
  else (completion.order jobs).foldlM (collect p jobs.length) .empty

/-! ### `fetch_chunked` -/

/-- The loop that cuts the window into jobs. A chunk size that is not positive keeps
it running for ever, and then no number of iterations is enough. -/
def chunkJobs (symbol timeframe exchange : String) (chunkSizeMs endMs : ℤ) : ℕ → ℤ → Option (List FetchJob)
  | 0, chunkStart => if chunkStart < endMs then none else some []
  | fuel + 1, chunkStart =>
    if chunkStart < endMs then
      let chunkEnd := min (chunkStart + chunkSizeMs) endMs
      (chunkJobs symbol timeframe exchange chunkSizeMs endMs fuel chunkEnd).map
        ({ symbol := symbol, timeframe := timeframe, startMs := some chunkStart, endMs := some chunkEnd
           exchange := exchange } :: ·)
    else some []

structure Merged (β : Type) where
  allBars : List β
  seenTimes : List ℤ

def Merged.add (m : Merged β) (bar : β) : Merged β :=
  if time bar ∈ m.seenTimes then m else ⟨m.allBars ++ [bar],time bar :: m.seenTimes⟩

def mergeBars (results : List (List β)) : List β :=
  (results.foldl (fun m bars => List.foldl (Merged.add time) m bars) (⟨[],[]⟩ : Merged β)).allBars

/-- `none` is a call that never returns. -/
def fetchChunked (completion : Completion) (symbol timeframe : String) (startMs endMs : ℤ)
    (chunkSizeMs : ℤ := 7200000) (exchange : String := "binance") : Option (Except FetchError (List β)) :=
  if endMs ≤ startMs then
    some (.error (.valueError
      ("invalid fetch window: start_ms=" ++ toString startMs ++ " end_ms=" ++ toString endMs)))
  else
    (chunkJobs symbol timeframe exchange chunkSizeMs endMs (endMs - startMs).toNat startMs).map fun jobs => do
      let collected ← fetchMany p completion jobs
      return (mergeBars time (Dict.values collected.results)).insertionSort (fun b b' => time b ≤ time b')

end OpenPine.Data
