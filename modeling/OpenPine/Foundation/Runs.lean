import Mathlib.Data.List.Basic

/-! # Runs of a total step function

A system is a step function on states and operations, and a run is a finite list
of operations. The rules below turn a statement about one step into a statement
about every run: an invariant, a relation between two moments of a run, a
property that must hold at every moment, and a potential that pays for a cost.
-/
namespace OpenPine.Runs
open List
variable {σ ω : Type*} (step : σ → ω → σ) (s : σ)

def run (s : σ) (ops : List ω) : σ := ops.foldl step s

@[simp] theorem run_nil : run step s [] = s := rfl
@[simp] theorem run_cons (op : ω) (ops : List ω) : run step s (op :: ops) = run step (step s op) ops := rfl
theorem run_append (ops ops' : List ω) : run step s (ops ++ ops') = run step (run step s ops) ops' := foldl_append

theorem run_take_succ (ops : List ω) (n : ℕ) :
    run step s (ops.take (n + 1)) = (ops[n]?.map (step (run step s (ops.take n)))).getD (run step s (ops.take n)) := by
  rw [take_add_one, run_append]
  cases ops[n]? with
  | none | some => rfl

theorem run_take_of_le (ops : List ω) {n m : ℕ} (h : n ≤ m) :
    run step s (ops.take m) = run step (run step s (ops.take n)) ((ops.take m).drop n) := by
  have hsplit := take_append_drop n (ops.take m)
  rw [take_take, Nat.min_eq_left h] at hsplit
  rw [← run_append, hsplit]

def Reachable (init s : σ) : Prop := ∃ ops, run step init ops = s

variable {step}

variable {init s t : σ} {P I : σ → Prop} {ops : List ω} {Q : σ → ω → Prop} {R : σ → σ → Prop}

theorem Reachable.next (h : Reachable step init s) (op : ω) : Reachable step init (step s op) := by
  obtain ⟨ops,rfl⟩ := h
  exact ⟨ops ++ [op],by rw [run_append]; rfl⟩

theorem Reachable.run (h : Reachable step init s) (ops : List ω) : Reachable step init (run step s ops) := by
  obtain ⟨ops',rfl⟩ := h
  exact ⟨ops' ++ ops,run_append step init ops' ops⟩

theorem run_invariant (hstep : ∀ s op, P s → P (step s op)) (hs : P s) (ops : List ω) : P (run step s ops) := by
  induction ops generalizing s with
  | nil => exact hs
  | cons op _ ih => exact ih (hstep s op hs)

theorem run_invariant_of_mem (hstep : ∀ s, ∀ op ∈ ops, P s → P (step s op)) (hs : P s) : P (run step s ops) := by
  induction ops generalizing s with
  | nil => exact hs
  | cons op _ ih =>
    refine ih (fun t op' hop' => hstep t op' (mem_cons_of_mem _ hop')) ?_
    exact hstep s op mem_cons_self hs

theorem Reachable.invariant (h : Reachable step init s) (hinit : P init)
    (hstep : ∀ s op, P s → P (step s op)) : P s := by
  obtain ⟨ops,rfl⟩ := h
  exact run_invariant hstep hinit ops

theorem run_rel (hrefl : ∀ s, R s s) (htrans : ∀ s t u, R s t → R t u → R s u) (hI : ∀ s op, I s → I (step s op))
    (hstep : ∀ s op, I s → R s (step s op)) (hs : I s) (ops : List ω) :
    R s (run step s ops) := by
  induction ops generalizing s with
  | nil => exact hrefl s
  | cons op _ ih => exact htrans _ _ _ (hstep s op hs) (ih (hI s op hs))

variable (step)

/-- `P` holds in every state the run visits, the first and the last included. -/
def Always (P : σ → Prop) : σ → List ω → Prop
  | s, [] => P s
  | s, op :: ops => P s ∧ Always P (step s op) ops

/-- `Q` holds of every operation of the run in the state it is performed in. -/
def EachStep (Q : σ → ω → Prop) : σ → List ω → Prop
  | _, [] => True
  | s, op :: ops => Q s op ∧ EachStep Q (step s op) ops

instance decidableEachStep {Q : σ → ω → Prop} [∀ s op, Decidable (Q s op)] :
    ∀ (s : σ) (ops : List ω), Decidable (EachStep step Q s ops)
  | _, [] => .isTrue trivial
  | s, op :: ops =>
    have := decidableEachStep (Q := Q) (step s op) ops
    inferInstanceAs (Decidable (Q s op ∧ EachStep step Q (step s op) ops))

variable {step} {K : ω → Prop}

theorem Always.first (h : Always step P s ops) : P s := by
  cases ops with
  | nil => exact h
  | cons => exact h.1

theorem always_iff_take : Always step P s ops ↔ ∀ n, P (run step s (ops.take n)) := by
  induction ops generalizing s with
  | nil => simp [Always]
  | cons _ _ ih =>
    simp only [Always, ih]
    constructor
    · rintro ⟨hs,h⟩ n
      cases n with
      | zero => exact hs
      | succ n => exact h n
    · intro h
      exact ⟨h 0,fun n => h (n + 1)⟩

theorem Always.last (h : Always step P s ops) : P (run step s ops) := by
  have hn := always_iff_take.mp h ops.length
  rwa [take_length] at hn

/-- If a step keeps `P` exactly when it meets `Q`, then `P` holds throughout a
run exactly when every step of the run meets `Q`. -/
theorem always_iff_eachStep (hI : ∀ s op, I s → I (step s op)) (hstep : ∀ s op, I s → P s → (P (step s op) ↔ Q s op))
    (hs : I s) (hP : P s) (ops : List ω) :
    Always step P s ops ↔ EachStep step Q s ops := by
  induction ops generalizing s with
  | nil => exact ⟨fun _ => trivial,fun _ => hP⟩
  | cons op _ ih =>
    simp only [Always, EachStep]
    constructor
    · rintro ⟨-,h⟩
      have hP' := h.first
      exact ⟨(hstep s op hs hP).mp hP',(ih (hI s op hs) hP').mp h⟩
    · rintro ⟨hq,h⟩
      have hP' := (hstep s op hs hP).mpr hq
      exact ⟨hP,(ih (hI s op hs) hP').mpr h⟩

/-- What a step keeps whenever it meets `Q` holds throughout a run of such steps,
and so does everything that follows from it. -/
theorem EachStep.always (hstep : ∀ s op, I s → Q s op → I (step s op)) (hP : ∀ s, I s → P s) (hs : I s)
    (h : EachStep step Q s ops) : Always step P s ops := by
  induction ops generalizing s with
  | nil => exact hP s hs
  | cons op _ ih => exact ⟨hP s hs,ih (hstep s op hs h.1) h.2⟩

theorem EachStep.mono {R : σ → ω → Prop} (hI : ∀ s op, I s → Q s op → I (step s op))
    (hR : ∀ s op, I s → Q s op → R s op) (hs : I s) (h : EachStep step Q s ops) :
    EachStep step R s ops := by
  induction ops generalizing s with
  | nil => trivial
  | cons op _ ih => exact ⟨hR s op hs h.1,ih (hI s op hs h.1) h.2⟩

theorem eachStep_append {ops' : List ω} :
    EachStep step Q s (ops ++ ops') ↔ EachStep step Q s ops ∧ EachStep step Q (run step s ops) ops' := by
  induction ops generalizing s with
  | nil => simp [EachStep]
  | cons _ _ ih => simp [EachStep, ih, and_assoc]

theorem EachStep.and_mem (h : EachStep step Q s ops) (hK : ∀ op ∈ ops, K op) :
    EachStep step (fun s op => Q s op ∧ K op) s ops := by
  induction ops generalizing s with
  | nil => trivial
  | cons op _ ih => exact ⟨⟨h.1,hK op mem_cons_self⟩,ih h.2 fun op' hop' => hK op' (mem_cons_of_mem _ hop')⟩

/-- Two moments of a run are related, for every two of them, exactly when each step
relates its two states. -/
theorem take_rel_iff_eachStep (hrefl : ∀ s, R s s) (htrans : ∀ s t u, R s t → R t u → R s u) :
    (∀ n m, n ≤ m → R (run step s (ops.take n)) (run step s (ops.take m))) ↔
      EachStep step (fun s op => R s (step s op)) s ops := by
  induction ops generalizing s with
  | nil => simp [EachStep, hrefl]
  | cons _ _ ih =>
    simp only [EachStep, ← ih]
    constructor
    · intro h
      exact ⟨h 0 1 (by omega),fun n m hnm => h (n + 1) (m + 1) (by omega)⟩
    · rintro ⟨hfirst,h⟩ n m hnm
      cases n with
      | zero =>
        cases m with
        | zero => exact hrefl _
        | succ m => exact htrans _ _ _ hfirst (h 0 m (by omega))
      | succ n =>
        cases m with
        | zero => omega
        | succ m => exact h n m (by omega)

/-- Operations of a kind `K` that keep `I` and meet `Q` under it meet `Q` throughout. -/
theorem eachStep_of_invariant (hstep : ∀ s op, I s → K op → I (step s op)) (hQ : ∀ s op, I s → K op → Q s op) (hs : I s)
    (h : ∀ op ∈ ops, K op) : EachStep step Q s ops := by
  induction ops generalizing s with
  | nil => trivial
  | cons op _ ih =>
    have hop := h op mem_cons_self
    exact ⟨hQ s op hs hop,ih (hstep s op hs hop) (fun o ho => h o (mem_cons_of_mem _ ho))⟩

/-- Two conditions on steps that agree under an invariant, which the second one
keeps, are met by the same runs. -/
theorem eachStep_congr {R : σ → ω → Prop} (hI : ∀ s op, I s → K op → R s op → I (step s op))
    (hQR : ∀ s op, I s → K op → (Q s op ↔ R s op)) (hs : I s) (h : ∀ op ∈ ops, K op) :
    EachStep step Q s ops ↔ EachStep step R s ops := by
  induction ops generalizing s with
  | nil => exact Iff.rfl
  | cons op _ ih =>
    have hop := h op mem_cons_self
    simp only [EachStep, hQR s op hs hop]
    refine and_congr_right fun hr => ?_
    exact ih (hI s op hs hop hr) (fun o ho => h o (mem_cons_of_mem _ ho))

variable (step)

/-- Repeating one operation leads from the first state to the second. -/
def Reaches (op : ω) (s t : σ) : Prop := ∃ n, run step s (List.replicate n op) = t

variable {step} {op : ω}

theorem Reaches.refl (op : ω) (s : σ) : Reaches step op s s := ⟨0,rfl⟩

theorem Reaches.trans {u : σ} (h : Reaches step op s t) (h' : Reaches step op t u) : Reaches step op s u := by
  obtain ⟨n,rfl⟩ := h
  obtain ⟨m,rfl⟩ := h'
  exact ⟨n + m,by rw [replicate_add, run_append]⟩

theorem Reaches.single (h : step s op = t) : Reaches step op s t := ⟨1,h⟩

theorem Reaches.head {u : σ} (h : step s op = t) (h' : Reaches step op t u) : Reaches step op s u :=
  (Reaches.single h).trans h'

variable (step)

def runCost (cost : σ → ω → ℕ) : σ → List ω → ℕ
  | _, [] => 0
  | s, op :: ops => cost s op + runCost cost (step s op) ops

variable {step}

/-- The potential rule: when every step raises `Φ` by at least its cost, the total
cost of a run is at most the rise of `Φ` over the run. -/
theorem runCost_add_le {cost : σ → ω → ℕ} {Φ : σ → ℕ} (hI : ∀ s op, I s → I (step s op))
    (hstep : ∀ s op, I s → cost s op + Φ s ≤ Φ (step s op)) (hs : I s)
    (ops : List ω) : runCost step cost s ops + Φ s ≤ Φ (run step s ops) := by
  induction ops generalizing s with
  | nil => simp [runCost]
  | cons op _ ih =>
    have hfirst := hstep s op hs
    have hrest := ih (hI s op hs)
    simp only [runCost, run_cons]
    omega

end OpenPine.Runs
