import Mathlib.Data.List.Basic

/-! # Events and the events before them

A trace is a list of events, the oldest first. Some events leave something open that a
later event has to close, and some events may occur only after certain others. Both
notions come with the rule for one more event at the end, so that they can serve as
invariants of a system that appends to its trace.
-/
namespace OpenPine.Traces
open List
variable {ε : Type*} {opens closes : ε → Prop} {admits : List ε → ε → Prop} {trace : List ε} {e : ε}

/-- An event that opens is not followed by one that closes. -/
def Open (opens closes : ε → Prop) (trace : List ε) : Prop :=
  ∃ before e after, trace = before ++ e :: after ∧ opens e ∧ ∀ e' ∈ after, ¬closes e'

def Admitted (admits : List ε → ε → Prop) (trace : List ε) : Prop :=
  ∀ before e after, trace = before ++ e :: after → admits before e

theorem eq_concat {before after : List ε} {e' : ε} (h : trace ++ [e] = before ++ e' :: after) :
    (before = trace ∧ e' = e ∧ after = []) ∨ ∃ rest, after = rest ++ [e] ∧ trace = before ++ e' :: rest := by
  rcases eq_nil_or_concat' after with rfl | ⟨rest,last,rfl⟩
  · obtain ⟨rfl,hlast⟩ := append_inj' h rfl
    cases hlast
    exact .inl ⟨rfl,rfl,rfl⟩
  · rw [← cons_append, ← append_assoc] at h
    obtain ⟨htrace,hlast⟩ := append_inj' h rfl
    cases hlast
    exact .inr ⟨rest,rfl,htrace⟩

theorem not_open_nil : ¬Open opens closes ([] : List ε) := by
  rintro ⟨before,e,after,h,-⟩
  exact append_ne_nil_of_right_ne_nil _ (cons_ne_nil _ _) h.symm

theorem open_concat : Open opens closes (trace ++ [e]) ↔ opens e ∨ Open opens closes trace ∧ ¬closes e := by
  constructor
  · rintro ⟨before,e',after,h,hopens,hopen⟩
    rcases eq_concat h with ⟨-,rfl,-⟩ | ⟨rest,rfl,htrace⟩
    · exact .inl hopens
    · refine .inr ⟨⟨before,e',rest,htrace,hopens,fun x hx => hopen x (mem_append_left _ hx)⟩,?_⟩
      exact hopen e (mem_append_right _ mem_cons_self)
  · rintro (hopens | ⟨⟨before,e',after,rfl,hopens,hopen⟩,hcloses⟩)
    · exact ⟨trace,e,[],rfl,hopens,fun _ h => absurd h not_mem_nil⟩
    · refine ⟨before,e',after ++ [e],by rw [append_assoc, cons_append],hopens,fun x hx => ?_⟩
      rcases mem_append.mp hx with hx | hx
      · exact hopen x hx
      · rw [mem_singleton.mp hx]
        exact hcloses

theorem open_cons : Open opens closes (e :: trace) ↔ (opens e ∧ ∀ e' ∈ trace, ¬closes e') ∨
    Open opens closes trace := by
  constructor
  · rintro ⟨before,e',after,h,hopens,hopen⟩
    rcases cons_eq_append_iff.mp h with ⟨rfl,hcons⟩ | ⟨rest,rfl,htrace⟩
    · cases hcons
      exact .inl ⟨hopens,hopen⟩
    · exact .inr ⟨rest,e',after,htrace,hopens,hopen⟩
  · rintro (⟨hopens,hopen⟩ | ⟨before,e',after,rfl,hopens,hopen⟩)
    · exact ⟨[],e,trace,rfl,hopens,hopen⟩
    · exact ⟨e :: before,e',after,rfl,hopens,hopen⟩

instance decidableOpen [DecidablePred opens] [DecidablePred closes] :
    (trace : List ε) → Decidable (Open opens closes trace)
  | [] => isFalse not_open_nil
  | _ :: trace =>
    have := decidableOpen trace
    decidable_of_iff' _ open_cons

theorem admitted_nil : Admitted admits ([] : List ε) := fun _ _ _ h =>
  absurd h.symm (append_ne_nil_of_right_ne_nil _ (cons_ne_nil _ _))

theorem admitted_concat : Admitted admits (trace ++ [e]) ↔ Admitted admits trace ∧ admits trace e := by
  constructor
  · intro h
    refine ⟨fun before e' after htrace => h before e' (after ++ [e]) ?_,h trace e [] rfl⟩
    rw [htrace, append_assoc, cons_append]
  · rintro ⟨htrace,he⟩ before e' after h
    rcases eq_concat h with ⟨rfl,rfl,-⟩ | ⟨rest,-,hrest⟩
    · exact he
    · exact htrace before e' rest hrest

theorem Admitted.getElem? (h : Admitted admits trace) {i : ℕ} (hi : (trace)[i]? = some e) :
    admits (trace.take i) e := by
  obtain ⟨hlt,rfl⟩ := List.getElem?_eq_some_iff.mp hi
  apply h _ _ (trace.drop (i + 1))
  rw [← drop_eq_getElem_cons hlt, take_append_drop]

end OpenPine.Traces
