import OpenPine.Foundation.Python

/-! # Atomic transactions over an explicit state

A transaction body takes the state and either fails or returns a value with the
new state. Whatever the body did before a failure is rolled back, so the durable
state afterwards is the old one.
-/
namespace OpenPine.Transaction
universe u v
variable {σ α β : Type u} {ε : Type v} {f : β → α → Except ε β} {P : List α → β → Prop}

/-- The durable state once the transaction has committed or rolled back. -/
def settle (s : σ) : Except ε (α × σ) → σ
  | .ok (_, s') => s'
  | .error _ => s

@[simp] theorem settle_ok (s : σ) (a : α) (s' : σ) : settle s (.ok (a, s') : Except ε (α × σ)) = s' := rfl
@[simp] theorem settle_error (s : σ) (e : ε) : settle s (.error e : Except ε (α × σ)) = s := rfl

theorem settle_cases (s : σ) (r : Except ε (α × σ)) :
    (∃ a, r = .ok (a, settle s r)) ∨ ((∃ e, r = .error e) ∧ settle s r = s) := by
  cases r with
  | ok p => exact Or.inl ⟨p.1,rfl⟩
  | error e => exact Or.inr ⟨⟨e,rfl⟩,rfl⟩

/-- The rule for a loop inside a transaction: `P` relates the rows still to come
to the state, and every iteration that succeeds keeps it. -/
theorem foldlM_invariant (hstep : ∀ a as b b', P (a :: as) b → f b a = .ok b' → P as b') {as : List α} {b b' : β}
    (hb : P as b) (h : as.foldlM f b = .ok b') : P [] b' := by
  induction as generalizing b with
  | nil => cases h; exact hb
  | cons a as ih =>
    rw [List.foldlM_cons, Python.bind_eq_ok] at h
    obtain ⟨b₁,hf,hrest⟩ := h
    exact ih (hstep a as b b₁ hb hf) hrest

theorem foldlM_succeeds (hstep : ∀ a as b, P (a :: as) b → ∃ b', f b a = .ok b' ∧ P as b') {as : List α} {b : β}
    (hb : P as b) : ∃ b', as.foldlM f b = .ok b' ∧ P [] b' := by
  induction as generalizing b with
  | nil => exact ⟨b,rfl,hb⟩
  | cons a as ih =>
    obtain ⟨b₁,hf,hb₁⟩ := hstep a as b hb
    obtain ⟨b',h,hb'⟩ := ih hb₁
    exact ⟨b',by rw [List.foldlM_cons, hf]; exact h,hb'⟩

end OpenPine.Transaction
