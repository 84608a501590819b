import Mathlib.Init

/-! # Pre- and postconditions of programs with state and exceptions

A triple has two postconditions, one for a program that returns and one for a program
that ends in an exception. The rules follow the constructs of `do` blocks. A program
that is built from parts with known triples is verified by the rules alone.
-/
namespace OpenPine.Hoare
variable {ε σ α β : Type}

abbrev Program (ε σ α : Type) := ExceptT ε (StateM σ) α

def when (c : Prop) [Decidable c] (x : Program ε σ Unit) : Program ε σ Unit := if c then x else return ()

def lift (x : Except ε α) : Program ε σ α := ExceptT.mk (pure x)

variable {x : Program ε σ α} {f : α → Program ε σ β} {s s' : σ} {c : Prop} {a : α} {e : ε} {g : α → Program ε σ β}
  {y : Program ε σ α}

theorem run_bind_ok (h : x.run.run s = (.ok a, s')) : (x >>= f).run.run s = (f a).run.run s' := by
  rw [ExceptT.run_bind, StateT.run_bind, h]
  rfl

theorem run_get (s : σ) : (get : Program ε σ σ).run.run s = (.ok s, s) := rfl

theorem run_bind_error (h : x.run.run s = (.error e, s')) : (x >>= f).run.run s = (.error e, s') := by
  rw [ExceptT.run_bind, StateT.run_bind, h]
  rfl

theorem state_bind_pure {g : α → β} : ((x >>= fun a => pure (g a)).run.run s).2 = (x.run.run s).2 := by
  rcases hx : x.run.run s with ⟨e | a,s'⟩
  · rw [run_bind_error hx]
  · rw [run_bind_ok hx]
    rfl

theorem run_tryCatch_ok {f : ε → Program ε σ α} (h : x.run.run s = (.ok a, s')) :
    (tryCatch x f).run.run s = (.ok a, s') := by
  rw [ExceptT.run_tryCatch, StateT.run_bind, h]
  rfl

theorem run_tryCatch_error {f : ε → Program ε σ α} (h : x.run.run s = (.error e, s')) :
    (tryCatch x f).run.run s = (f e).run.run s' := by
  rw [ExceptT.run_tryCatch, StateT.run_bind, h]
  rfl

theorem run_bind_eq_ok {b : β} :
    (x >>= f).run.run s = (.ok b, s') ↔ ∃ a s₁, x.run.run s = (.ok a, s₁) ∧ (f a).run.run s₁ = (.ok b, s') := by
  rcases hx : x.run.run s with ⟨e | a,s₁⟩
  · rw [run_bind_error hx]
    constructor
    · rintro ⟨⟩
    · rintro ⟨a,s₁,⟨⟩,-⟩
  · rw [run_bind_ok hx]
    constructor
    · exact fun h => ⟨a,s₁,rfl,h⟩
    · rintro ⟨_,_,⟨⟩,h⟩
      exact h

theorem run_lift_eq_ok {x : Except ε α} : (lift x : Program ε σ α).run.run s = (.ok a, s') ↔ x = .ok a ∧ s' = s := by
  constructor
  · intro h
    obtain ⟨hx,hs⟩ := Prod.mk.inj h
    exact ⟨hx,hs.symm⟩
  · rintro ⟨rfl,rfl⟩
    rfl

theorem run_pure_eq_ok {a b : α} : (pure a : Program ε σ α).run.run s = (.ok b, s') ↔ b = a ∧ s' = s := by
  constructor
  · rintro ⟨⟩
    exact ⟨rfl,rfl⟩
  · rintro ⟨rfl,rfl⟩
    rfl

theorem run_modify_eq_ok {f : σ → σ} {u : Unit} : (modify f : Program ε σ Unit).run.run s = (.ok u, s') ↔ s' = f s := by
  constructor
  · rintro ⟨⟩
    rfl
  · rintro rfl
    rfl

theorem run_when_eq_ok [Decidable c] {x : Program ε σ Unit} {u : Unit} :
    (when c x).run.run s = (.ok u, s') ↔ if c then x.run.run s = (.ok u, s') else s' = s := by
  unfold when
  split
  · exact Iff.rfl
  · exact run_pure_eq_ok.trans (and_iff_right rfl)

theorem run_read_lift {f : σ → Except ε α} (s : σ) :
    ((get : Program ε σ σ) >>= fun s => lift (f s) >>= g).run.run s = match f s with
      | .ok a => (g a).run.run s
      | .error e => (.error e, s) := by
  rw [run_bind_ok (run_get s)]
  cases h : f s with
  | ok => exact run_bind_ok rfl
  | error => exact run_bind_error rfl

theorem run_read_lift_eq_ok {f : σ → Except ε α} {b : β} :
    ((get : Program ε σ σ) >>= fun s => lift (f s) >>= g).run.run s = (.ok b, s') ↔
      ∃ a, f s = .ok a ∧ (g a).run.run s = (.ok b, s') := by
  rw [run_read_lift]
  cases f s with
  | ok => simp
  | error =>
    constructor
    · rintro ⟨⟩
    · rintro ⟨a,⟨⟩,-⟩

theorem run_guard [Decidable c] (s : σ) :
    ((when c (throw e) : Program ε σ Unit) >>= fun _ => x).run.run s = if c then (.error e, s) else x.run.run s := by
  unfold when
  split
  · rfl
  · rfl

theorem guarded_eq_ok [Decidable c] {s₁ : σ} {a b : α} :
    (if c then (.error e, s) else (.ok a, s₁) : Except ε α × σ) = (.ok b, s') ↔ ¬c ∧ b = a ∧ s' = s₁ := by
  split
  · rename_i hc
    constructor
    · rintro ⟨⟩
    · exact fun h => absurd hc h.1
  · rename_i hc
    constructor
    · rintro ⟨⟩
      exact ⟨hc,rfl,rfl⟩
    · rintro ⟨-,rfl,rfl⟩
      rfl

/-- From a state with `P` the program returns with `Q` or raises with `E`. -/
def Triple (P : σ → Prop) (x : Program ε σ α) (Q : α → σ → Prop) (E : ε → σ → Prop) : Prop :=
  ∀ s, P s → match x.run.run s with
    | (.ok a, s') => Q a s'
    | (.error e, s') => E e s'

namespace Triple
variable {P P' : σ → Prop} {Q : α → σ → Prop} {R : β → σ → Prop} {E E' : ε → σ → Prop} {x : Program ε σ α}

theorem ret (h : ∀ s, P s → Q a s) : Triple P (pure a : Program ε σ α) Q E := h

theorem raise (h : ∀ s, P s → E e s) : Triple P (throw e : Program ε σ α) Q E := h

theorem bind {f : α → Program ε σ β} (hx : Triple P x Q E) (hf : ∀ a, Triple (Q a) (f a) R E) :
    Triple P (x >>= f) R E := by
  intro s hs
  have h := hx s hs
  rw [ExceptT.run_bind, StateT.run_bind]
  rcases hrun : x.run.run s with ⟨e | a,s'⟩
  · rw [hrun] at h
    exact h
  · rw [hrun] at h
    exact hf a s' h

theorem seq {y : Program ε σ β} (hx : Triple P x (fun _ => P') E) (hy : Triple P' y R E) :
    Triple P (x >>= fun _ => y) R E := bind hx fun _ => hy

theorem weaken (h : Triple P' x Q E) (hpre : ∀ s, P s → P' s) : Triple P x Q E := fun s hs => h s (hpre s hs)

theorem conseq {Q' : α → σ → Prop} (h : Triple P' x Q' E') (hpre : ∀ s, P s → P' s) (hpost : ∀ a s, Q' a s → Q a s)
    (hraise : ∀ e s, E' e s → E e s) : Triple P x Q E := by
  intro s hs
  have h' := h s (hpre s hs)
  rcases hrun : x.run.run s with ⟨e | a,s'⟩
  · rw [hrun] at h'
    exact hraise e s' h'
  · rw [hrun] at h'
    exact hpost a s' h'

theorem ex {ι : Sort*} {P : ι → σ → Prop} (h : ∀ i, Triple (P i) x Q E) : Triple (fun s => ∃ i, P i s) x Q E :=
  fun s ⟨i,hi⟩ => h i s hi

theorem read {f : σ → Program ε σ α} (h : ∀ s, P s → Triple (fun s' => s' = s) (f s) Q E) :
    Triple P (get >>= f) Q E := fun s hs => h s hs s rfl

theorem here {s : σ} (hs : P s) (h : Triple P x Q E) : Triple (fun s' => s' = s) x Q E := by
  rintro _ rfl
  exact h _ hs

theorem update {R : Unit → σ → Prop} (f : σ → σ) (h : ∀ s, P s → R () (f s)) :
    Triple P (modify f : Program ε σ Unit) R E := fun s hs => h s hs

theorem assign (f : σ → σ) : Triple P (modify f : Program ε σ Unit) (fun _ s => ∃ s₀, P s₀ ∧ f s₀ = s) E :=
  fun s hs => ⟨s,hs,rfl⟩

theorem of_run {g : σ → σ} (hrun : ∀ s, x.run.run s = (.ok a, g s)) (h : ∀ s, P s → Q a (g s)) : Triple P x Q E := by
  intro s hs
  rw [hrun]
  exact h s hs

theorem cond [Decidable c] (hx : c → Triple P x Q E) (hy : ¬c → Triple P y Q E) :
    Triple P (if c then x else y) Q E := by
  split
  · exact hx ‹_›
  · exact hy ‹_›

theorem when [Decidable c] {x : Program ε σ Unit} {R : Unit → σ → Prop} (hx : c → Triple P x R E)
    (hskip : ∀ s, ¬c → P s → R () s) : Triple P (Hoare.when c x) R E := by
  exact cond hx fun hc => ret fun s hs => hskip s hc hs

theorem handle {f : ε → Program ε σ α} (hx : Triple P x Q E') (hf : ∀ e, Triple (E' e) (f e) Q E) :
    Triple P (tryCatch x f) Q E := by
  intro s hs
  have h := hx s hs
  rw [ExceptT.run_tryCatch, StateT.run_bind]
  rcases hrun : x.run.run s with ⟨e | a,s'⟩
  · rw [hrun] at h
    exact hf e s' h
  · rw [hrun] at h
    exact h

end Triple

/-- However the program ends, what held before it holds after it. -/
def Keeps (P : σ → Prop) (x : Program ε σ α) : Prop := Triple P x (fun _ => P) (fun _ => P)

namespace Keeps
variable {P : σ → Prop} {x : Program ε σ α}

theorem bind {f : α → Program ε σ β} (hx : Keeps P x) (hf : ∀ a, Keeps P (f a)) : Keeps P (x >>= f) := Triple.bind hx hf

theorem ret (a : α) : Keeps P (pure a : Program ε σ α) := fun _ hs => hs

theorem raise (e : ε) : Keeps P (throw e : Program ε σ α) := fun _ hs => hs

theorem lift (x : Except ε α) : Keeps P (lift x : Program ε σ α) := by
  intro s hs
  cases x with
  | ok | error => exact hs

theorem change {f : σ → σ} (h : ∀ s, P s → P (f s)) : Keeps P (modify f : Program ε σ Unit) := h

theorem read {f : σ → Program ε σ α} (h : ∀ s, Keeps P (f s)) : Keeps P (get >>= f) := fun s hs => h s s hs

theorem cond [Decidable c] (hx : Keeps P x) (hy : Keeps P y) : Keeps P (if c then x else y) :=
  Triple.cond (fun _ => hx) fun _ => hy

theorem handle {f : ε → Program ε σ α} (hx : Keeps P x) (hf : ∀ e, Keeps P (f e)) : Keeps P (tryCatch x f) :=
  Triple.handle hx hf

theorem when [Decidable c] {x : Program ε σ Unit} (hx : Keeps P x) : Keeps P (Hoare.when c x) :=
  Triple.when (fun _ => hx) fun _ _ hs => hs

theorem run (h : Keeps P x) {s : σ} (hs : P s) : P (x.run.run s).2 := by
  have h' := h s hs
  rcases hrun : x.run.run s with ⟨e | a,s'⟩
  · rw [hrun] at h'
    exact h'
  · rw [hrun] at h'
    exact h'

end Keeps
end OpenPine.Hoare
