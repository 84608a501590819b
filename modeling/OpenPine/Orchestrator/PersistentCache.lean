import OpenPine.Orchestrator.Admission

/-! # The persistent cache

`openpine/data/persistent_cache.py` and `cache_io.py`. An entry is a pair of files, the
bars and a description that makes them valid, written in this order. The key is the
description that is compared.
-/
namespace OpenPine.Orchestrator
open Python

structure Key where
  (exchange market symbol timeframe : String)
  (startMs endMs : ℤ)
  source : Source
  gapPolicy : GapPolicy
deriving DecidableEq

def queryKey (query : BarQuery) : Key where
  exchange := lower query.instrument.exchange
  market := lower query.instrument.market
  symbol := upper query.instrument.symbol
  timeframe := query.timeframe.canonical
  startMs := query.startMs
  endMs := query.endMs
  source := query.source
  gapPolicy := query.gapPolicy

structure Entry (V : Type) where
  described : Bool
  data : Option (List (Bar V))
deriving DecidableEq

abbrev Cache (V : Type) := Dict Key (Entry V)

section
variable {V : Type} (library : Library V)

def rereadBar (bar : Bar V) : Bar V := { bar with values := library.reread bar.values }

def cachedBars (cache : Cache V) (key : Key) : Option (List (Bar V)) :=
  match cache.get? key with
  | some ⟨true,some bars⟩ => some bars
  | _ => none

/-- `load_bar_series`: a file without a single row cannot be read. -/
def loadBarSeries (cache : Cache V) (query : BarQuery) : Except Raised (Option (BarSeries V)) :=
  match cachedBars cache (queryKey query) with
  | none => return none
  | some [] => throw .emptyData
  | some rows =>
    let bars := rows.map (rereadBar library)
    return some { query, bars, coverage := coverageFor query bars "persistent_cache" }

/-- `save_bar_series`, as far as the file system lets it come. -/
def saveBarSeries (saving : Saving) (cache : Cache V) (series : BarSeries V) : Cache V :=
  let key := queryKey series.query
  match saving with
  | .nothing => cache
  | .dataOnly => cache.put key ⟨((cache.get? key).map (·.described)).getD false,some series.bars⟩
  | .all => cache.put key ⟨true,some series.bars⟩

end
end OpenPine.Orchestrator
