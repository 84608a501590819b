import OpenPine.Foundation.StableSort
import OpenPine.Foundation.Transaction
import OpenPine.Data.ParallelFetcher

/-! # What a chunked fetch returns

The bars of all chunks are stored under the one key of their symbol and timeframe,
so of the chunks only the one that completes last reaches the merge.
-/
namespace OpenPine.Data
open Python Transaction List Option
variable {τ β : Type} {p : Provider τ β} {time : β → ℤ}

/-! ### The merge -/

structure Merged.Keeps (time : β → ℤ) (m : Merged β) (bars : List β) : Prop where
  seen : ∀ t, t ∈ m.seenTimes ↔ t ∈ m.allBars.map time
  distinct : (m.allBars.map time).Nodup
  subset : ∀ b ∈ m.allBars, b ∈ bars
  cover : ∀ b ∈ bars, time b ∈ m.allBars.map time

variable {bars : List β} {jobs : List FetchJob}

theorem Merged.Keeps.add {m : Merged β} (h : m.Keeps time bars) (bar : β) :
    (m.add time bar).Keeps time (bars ++ [bar]) := by
  unfold Merged.add
  split <;> rename_i hseen
  · refine ⟨h.seen,h.distinct,fun b hb => mem_append_left _ (h.subset b hb),fun b hb => ?_⟩
    rcases mem_append.mp hb with hb | hb
    · exact h.cover b hb
    · obtain rfl := mem_singleton.mp hb
      exact (h.seen _).mp hseen
  · have hnew : time bar ∉ m.allBars.map time := fun hm => hseen ((h.seen _).mpr hm)
    refine ⟨fun t => ?_,?_,fun b hb => ?_,fun b hb => ?_⟩
    · rw [mem_cons, h.seen, map_append, mem_append]
      simp [or_comm]
    · rw [map_append]
      exact List.Nodup.append h.distinct (nodup_singleton _) (by simpa using hnew)
    · rcases mem_append.mp hb with hb | hb
      · exact mem_append_left _ (h.subset b hb)
      · exact mem_append_right _ hb
    · rw [map_append]
      rcases mem_append.mp hb with hb | hb
      · exact mem_append_left _ (h.cover b hb)
      · exact mem_append_right _ (mem_map_of_mem hb)

theorem Merged.Keeps.foldl {m : Merged β} (h : m.Keeps time bars) (bars' : List β) :
    (bars'.foldl (Merged.add time) m).Keeps time (bars ++ bars') := by
  induction bars' generalizing m bars with
  | nil => simpa using h
  | cons bar _ ih => simpa using ih (h.add bar)

theorem mergeBars_keeps (time : β → ℤ) (results : List (List β)) :
    ∃ m : Merged β, mergeBars time results = m.allBars ∧ m.Keeps time results.flatten := by
  refine ⟨_,rfl,?_⟩
  have hstart : Merged.Keeps time ⟨[],[]⟩ [] := ⟨by simp,by simp,by simp,by simp⟩
  rw [← foldl_flatten]
  exact hstart.foldl results.flatten

theorem sort_mergeBars {series : List β} (hseries : series.Pairwise (time · < time ·)) {P : β → Prop}
    [DecidablePred P] {results : List (List β)} (h : ∀ b, b ∈ results.flatten ↔ b ∈ series ∧ P b) :
    (mergeBars time results).insertionSort (fun b b' => time b ≤ time b') = series.filter P := by
  obtain ⟨m,hm,hkeeps⟩ := mergeBars_keeps time results
  rw [hm]
  have hsorted := StableSort.insertionSort_strict hkeeps.distinct
  refine StableSort.strict_ext hsorted (hseries.sublist filter_sublist) fun b => ?_
  rw [mem_insertionSort, mem_filter, decide_eq_true_iff, ← h b]
  constructor
  · exact hkeeps.subset b
  · intro hb
    -- the merge kept a bar of the same time, and the series has only one
    obtain ⟨b',hb',ht⟩ := mem_map.mp (hkeeps.cover b hb)
    have hmem := ((h b).mp hb).1
    have hmem' := ((h b').mp (hkeeps.subset b' hb')).1
    rwa [← StableSort.strict_inj hseries hmem' hmem ht]

/-! ### The chunks of a window -/

section Chunks
variable (symbol timeframe exchange : String)

def chunk (a b : ℤ) : FetchJob :=
  { symbol := symbol, timeframe := timeframe, startMs := some a, endMs := some b, exchange := exchange }

variable {size endMs : ℤ} {startMs : ℤ}

/-- A positive chunk size makes the loop end. The chunks after the first one start
where it ends or later, and there are such chunks unless the window fits into one. -/
theorem chunkJobs_eq (hsize : 0 < size) {fuel : ℕ} (hfuel : (endMs - startMs).toNat ≤ fuel) (h : startMs < endMs) :
    ∃ rest, chunkJobs symbol timeframe exchange size endMs fuel startMs =
        some (chunk symbol timeframe exchange startMs (min (startMs + size) endMs) :: rest) ∧
      (∀ job ∈ rest, ∃ a b, job = chunk symbol timeframe exchange a b ∧ startMs + size ≤ a ∧ a < b ∧ b ≤ endMs) ∧
      (startMs + size < endMs → rest ≠ []) := by
  induction fuel generalizing startMs with
  | zero => omega
  | succ fuel ih =>
    rw [chunkJobs, if_pos h]
    -- either a full chunk and the loop goes on, or the rest of the window and it stops
    rcases lt_or_ge (startMs + size) endMs with hmore | hone
    · obtain ⟨rest,hrest,hjobs,-⟩ := ih (show (endMs - (startMs + size)).toNat ≤ fuel by omega) hmore
      simp only [min_eq_left hmore.le, hrest, map_some]
      refine ⟨_,rfl,fun job hjob => ?_,fun _ => cons_ne_nil _ _⟩
      rcases mem_cons.mp hjob with rfl | hjob
      · exact ⟨_,_,rfl,le_refl _,lt_min (by omega) hmore,min_le_right _ _⟩
      · obtain ⟨a,b,hab,hle,hbounds⟩ := hjobs job hjob
        exact ⟨a,b,hab,by omega,hbounds⟩
    · have hstop : chunkJobs symbol timeframe exchange size endMs fuel endMs = some [] := by
        cases fuel <;> simp [chunkJobs]
      simp only [min_eq_right hone, hstop, map_some]
      exact ⟨[],rfl,by simp,fun hlt => absurd hlt (not_lt.mpr hone)⟩

end Chunks

/-! ### What `fetch_many` keeps of jobs with one key -/

theorem collect_ok {job : FetchJob} (h : job.fetch p = .ok bars) (total : ℕ) (c : Collected β) :
    collect p total c job = .ok ⟨Dict.put c.results job.key bars,c.completed + 1,
      c.progress ++ [(job.key, c.completed + 1, total)]⟩ := by rw [collect, h]

theorem collect_one_key {key : String} (hkey : ∀ job ∈ jobs, job.key = key)
    (hok : ∀ job ∈ jobs, ∃ bars, job.fetch p = .ok bars) (total : ℕ) :
    ∃ c, jobs.foldlM (collect p total) .empty = .ok c ∧ ∀ q ∈ c.results.rows, q.1 = key := by
  let P : List FetchJob → Collected β → Prop := fun todo c =>
    (∀ q ∈ c.results.rows, q.1 = key) ∧ ∀ job ∈ todo, job ∈ jobs
  have hstep : ∀ job todo c, P (job :: todo) c → ∃ c', collect p total c job = .ok c' ∧ P todo c' := by
    rintro job todo c ⟨hkeys,htodo⟩
    have hjob := htodo job mem_cons_self
    obtain ⟨bars,hbars⟩ := hok job hjob
    refine ⟨_,collect_ok hbars total c,fun q hq => ?_,fun job' h => htodo job' (mem_cons_of_mem _ h)⟩
    rcases Dict.mem_put hq with rfl | hq
    · exact hkey job hjob
    · exact hkeys q hq
  have hstart : P jobs .empty := ⟨by simp [Collected.empty],fun _ h => h⟩
  obtain ⟨c,hc,hkeys,-⟩ := foldlM_succeeds hstep hstart
  exact ⟨c,hc,hkeys⟩

/-- Jobs under one key overwrite each other: the last one to complete stays. -/
theorem fetchMany_one_key {completion : Completion} {last : FetchJob} {key : String}
    (hkey : ∀ job ∈ jobs, job.key = key) (hok : ∀ job ∈ jobs, ∃ bars, job.fetch p = .ok bars)
    (hlast : (completion.order jobs).getLast? = some last) (hbars : last.fetch p = .ok bars) :
    ∃ c, fetchMany p completion jobs = .ok c ∧ Dict.values c.results = [bars] := by
  obtain ⟨first,horder⟩ := List.getLast?_eq_some_iff.mp hlast
  have hmem : ∀ job ∈ first ++ [last], job ∈ jobs := fun job hjob =>
    (completion.perm jobs).mem_iff.mp (horder ▸ hjob)
  have hfirst : ∀ job ∈ first, job ∈ jobs := fun job hjob => hmem job (mem_append_left _ hjob)
  have hlastmem : last ∈ jobs := hmem last (mem_append_right _ mem_cons_self)
  obtain ⟨c,hc,hkeys⟩ := collect_one_key (fun job h => hkey job (hfirst job h))
    (fun job h => hok job (hfirst job h)) jobs.length
  have hput : (Dict.put c.results last.key bars).values = [bars] := by
    rw [hkey last hlastmem]
    exact Dict.values_put_of_keys hkeys bars
  -- the last iteration overwrites whatever the others have stored
  have hrun : fetchMany p completion jobs = collect p jobs.length c last := by
    rw [fetchMany, if_neg (ne_nil_of_mem hlastmem), horder, foldlM_append, hc]
    exact bind_pure (collect p jobs.length c last)
  exact ⟨_,hrun.trans (collect_ok hbars _ c),hput⟩

/-! ### The result of a chunked fetch -/

section Result
variable (time)

def window (series : List β) (a b : ℤ) : List β := series.filter (fun bar => a ≤ time bar ∧ time bar < b)

/-- A fetch of any window returns the bars of the series in it, in any order. -/
def Serves (p : Provider τ β) (symbol timeframe exchange : String) (series : List β) : Prop :=
  ∀ a b, a < b → ∃ bars, fetchSingle p symbol timeframe (some a) (some b) exchange = .ok bars ∧
    ∀ bar, bar ∈ bars ↔ bar ∈ series ∧ a ≤ time bar ∧ time bar < b

def lastChunk (completion : Completion) (symbol timeframe exchange : String) (startMs endMs size : ℤ) :
    Option FetchJob :=
  (chunkJobs symbol timeframe exchange size endMs (endMs - startMs).toNat startMs).bind fun jobs =>
    (completion.order jobs).getLast?

variable {time} {completion : Completion} {symbol timeframe exchange : String} {series : List β}
variable {startMs endMs size : ℤ}

theorem mem_window {bar : β} {a b : ℤ} : bar ∈ window time series a b ↔ bar ∈ series ∧ a ≤ time bar ∧ time bar < b := by
  simp [window]

variable (hsize : 0 < size) (hwindow : startMs < endMs)

include hsize hwindow in
theorem chunkJobs_within (symbol timeframe exchange : String) :
    ∃ jobs, chunkJobs symbol timeframe exchange size endMs (endMs - startMs).toNat startMs = some jobs ∧
      jobs ≠ [] ∧ ∀ job ∈ jobs, ∃ a b, job = chunk symbol timeframe exchange a b ∧ startMs ≤ a ∧ a < b ∧ b ≤ endMs := by
  obtain ⟨rest,hjobs,hrest,-⟩ := chunkJobs_eq symbol timeframe exchange hsize le_rfl hwindow
  refine ⟨_,hjobs,cons_ne_nil _ _,fun job hjob => ?_⟩
  rcases mem_cons.mp hjob with rfl | hjob
  · exact ⟨_,_,rfl,le_rfl,lt_min (by omega) hwindow,min_le_right _ _⟩
  · obtain ⟨a,b,hab,hle,hbounds⟩ := hrest job hjob
    exact ⟨a,b,hab,by omega,hbounds⟩

include hsize hwindow in
theorem exists_lastChunk (completion : Completion) (symbol timeframe exchange : String) :
    ∃ a b, lastChunk completion symbol timeframe exchange startMs endMs size =
      some (chunk symbol timeframe exchange a b) ∧ startMs ≤ a ∧ a < b ∧ b ≤ endMs := by
  obtain ⟨jobs,hjobs,hne,hwithin⟩ := chunkJobs_within hsize hwindow symbol timeframe exchange
  have hperm := completion.perm jobs
  have horder : completion.order jobs ≠ [] := by
    intro h
    rw [h] at hperm
    exact hne hperm.nil_eq.symm
  have hmem := hperm.mem_iff.mp (getLast_mem horder)
  obtain ⟨a,b,hab,hbounds⟩ := hwithin _ hmem
  refine ⟨a,b,?_,hbounds⟩
  rw [lastChunk, hjobs, bind_some, List.getLast?_eq_getLast_of_ne_nil horder, hab]

variable (hseries : series.Pairwise (time · < time ·)) (hserves : Serves time p symbol timeframe exchange series)
  {a b : ℤ}
  (hlast : lastChunk completion symbol timeframe exchange startMs endMs size =
    some (chunk symbol timeframe exchange a b))

include hsize hwindow hseries hserves hlast in
theorem fetchChunked_eq : fetchChunked p time completion symbol timeframe startMs endMs size exchange =
      some (.ok (window time series a b)) := by
  obtain ⟨jobs,hjobs,-,hwithin⟩ := chunkJobs_within hsize hwindow symbol timeframe exchange
  rw [lastChunk, hjobs, bind_some] at hlast
  have hmem := (completion.perm jobs).mem_iff.mp (mem_of_getLast? hlast)
  have hkey : ∀ job ∈ jobs, job.key = symbol ++ ":" ++ timeframe := by
    intro job hjob
    obtain ⟨a,b,rfl,-⟩ := hwithin job hjob
    rfl
  have hok : ∀ job ∈ jobs, ∃ bars, job.fetch p = .ok bars := by
    intro job hjob
    obtain ⟨a,b,rfl,-,hlt,-⟩ := hwithin job hjob
    exact (hserves a b hlt).imp fun _ h => h.1
  have hlt : a < b := by
    obtain ⟨a',b',he,-,hlt,-⟩ := hwithin _ hmem
    cases he
    exact hlt
  obtain ⟨bars,hbars,hiff⟩ := hserves a b hlt
  obtain ⟨c,hc,hvalues⟩ := fetchMany_one_key hkey hok hlast hbars
  have hall : ∀ bar, bar ∈ [bars].flatten ↔ bar ∈ series ∧ a ≤ time bar ∧ time bar < b := by simpa using hiff
  rw [fetchChunked, if_neg (not_le.mpr hwindow), hjobs, map_some, hc]
  change some (Except.ok _) = _
  rw [hvalues, sort_mergeBars hseries hall]
  rfl

include hsize hwindow hseries hserves hlast in
theorem fetchChunked_eq_window_iff (hle : startMs ≤ a) (hge : b ≤ endMs) :
    fetchChunked p time completion symbol timeframe startMs endMs size exchange =
      some (.ok (window time series startMs endMs)) ↔
      ∀ bar ∈ window time series startMs endMs, a ≤ time bar ∧ time bar < b := by
  rw [fetchChunked_eq hsize hwindow hseries hserves hlast]
  constructor
  · intro h bar hbar
    have hsame : window time series a b = window time series startMs endMs := by simpa using h
    exact (mem_window.mp (hsame ▸ hbar)).2
  · intro h
    have hsame : window time series a b = window time series startMs endMs := by
      refine filter_congr fun bar hbar => ?_
      rw [decide_eq_decide]
      constructor
      · rintro ⟨hl,hr⟩
        exact ⟨by omega,by omega⟩
      · intro hin
        exact h bar (mem_window.mpr ⟨hbar,hin⟩)
    rw [hsame]

def Completion.submitted : Completion := ⟨id,fun _ => .refl _⟩

def Completion.reversed : Completion := ⟨List.reverse,List.reverse_perm⟩

include hsize hwindow in
theorem lastChunk_reversed (symbol timeframe exchange : String) :
    lastChunk .reversed symbol timeframe exchange startMs endMs size =
      some (chunk symbol timeframe exchange startMs (min (startMs + size) endMs)) := by
  obtain ⟨rest,hjobs,-⟩ := chunkJobs_eq symbol timeframe exchange hsize le_rfl hwindow
  rw [lastChunk, hjobs]
  simp [Completion.reversed]

include hsize in
theorem lastChunk_submitted (symbol timeframe exchange : String) (hmore : startMs + size < endMs) :
    ∃ a b, lastChunk .submitted symbol timeframe exchange startMs endMs size =
      some (chunk symbol timeframe exchange a b) ∧ startMs + size ≤ a ∧ b ≤ endMs := by
  obtain ⟨rest,hjobs,hrest,hne⟩ := chunkJobs_eq symbol timeframe exchange hsize le_rfl
    (show startMs < endMs by omega)
  obtain ⟨a,b,hab,hle,-,hge⟩ := hrest _ (getLast_mem (hne hmore))
  refine ⟨a,b,?_,hle,hge⟩
  rw [lastChunk, hjobs, ← hab]
  simp [Completion.submitted, List.getLast?_cons, List.getLast?_eq_getLast_of_ne_nil (hne hmore)]

include hsize hwindow in
theorem lastChunk_single (completion : Completion) (symbol timeframe exchange : String)
    (hone : endMs ≤ startMs + size) :
    lastChunk completion symbol timeframe exchange startMs endMs size =
      some (chunk symbol timeframe exchange startMs endMs) := by
  obtain ⟨rest,hjobs,hrest,-⟩ := chunkJobs_eq symbol timeframe exchange hsize le_rfl hwindow
  have hnil : rest = [] := by
    refine eq_nil_iff_forall_not_mem.mpr fun job hjob => ?_
    obtain ⟨a,b,-,hle,hlt,hge⟩ := hrest job hjob
    omega
  have horder := perm_singleton.mp (completion.perm [chunk symbol timeframe exchange startMs endMs])
  rw [lastChunk, hjobs, hnil, min_eq_right hone, bind_some, horder]
  rfl

/-- A chunked fetch agrees with the series in every order of completion exactly if the
window fits into one chunk or has no bars. -/
theorem fetchChunked_complete_iff (hseries : series.Pairwise (time · < time ·))
    (hserves : Serves time p symbol timeframe exchange series) (hsize : 0 < size) (hwindow : startMs < endMs) :
    (∀ completion, fetchChunked p time completion symbol timeframe startMs endMs size exchange =
        some (.ok (window time series startMs endMs))) ↔
      endMs ≤ startMs + size ∨ window time series startMs endMs = [] := by
  constructor
  · intro h
    refine or_iff_not_imp_left.mpr fun hmore => eq_nil_iff_forall_not_mem.mpr fun bar hbar => ?_
    replace hmore := not_le.mp hmore
    -- the first chunk completes last, and then the last one does
    have hfirst := (fetchChunked_eq_window_iff hsize hwindow hseries hserves
      (lastChunk_reversed hsize hwindow symbol timeframe exchange) le_rfl (min_le_right _ _)).mp (h _) bar hbar
    obtain ⟨a,b,hlast,hle,hge⟩ := lastChunk_submitted hsize symbol timeframe exchange hmore
    have hsecond := (fetchChunked_eq_window_iff hsize hwindow hseries hserves hlast (by omega) hge).mp (h _) bar hbar
    omega
  · rintro (hone | hempty) completion
    · refine (fetchChunked_eq_window_iff hsize hwindow hseries hserves
        (lastChunk_single hsize hwindow completion symbol timeframe exchange hone) le_rfl le_rfl).mpr ?_
      exact fun bar hbar => (mem_window.mp hbar).2
    · obtain ⟨a,b,hlast,hle,-,hge⟩ := exists_lastChunk hsize hwindow completion symbol timeframe exchange
      refine (fetchChunked_eq_window_iff hsize hwindow hseries hserves hlast hle hge).mpr ?_
      simp [hempty]

end Result

/-! ### Two minutes of one-minute bars -/

def listProvider (times : List ℤ) : Provider String ℤ where
  parseTimeframe := .ok
  getBars q := .ok (times.filter fun t => q.startMs ≤ t ∧ t < q.endMs)

theorem listProvider_serves (times : List ℤ) (symbol timeframe exchange : String) :
    Serves id (listProvider times) symbol timeframe exchange times := by
  intro a b _
  refine ⟨times.filter fun t => a ≤ t ∧ t < b,rfl,fun t => ?_⟩
  simp

theorem one_chunk_complete : fetchChunked (listProvider [0, 60000]) id .submitted "BTCUSDT" "1m" 0 120000 120000 =
      some (.ok (window id [0, 60000] 0 120000)) := by
  have h := fetchChunked_complete_iff (by decide) (listProvider_serves [0, 60000] "BTCUSDT" "1m" "binance")
    (show (0 : ℤ) < 120000 by decide) (show (0 : ℤ) < 120000 by decide)
  exact h.mpr (Or.inl (by decide)) .submitted

/-- Two chunks with one bar each: the bar of the first chunk is lost. -/
theorem two_chunks_lose_a_bar : Serves id (listProvider [0, 60000]) "BTCUSDT" "1m" "binance" [0, 60000] ∧
      window id [0, 60000] 0 120000 = [0, 60000] ∧
      fetchChunked (listProvider [0, 60000]) id .submitted "BTCUSDT" "1m" 0 120000 60000 = some (.ok [60000]) :=
  ⟨listProvider_serves _ _ _ _,by decide,rfl⟩

end OpenPine.Data
