import Mathlib.Data.List.Infix
import OpenPine.Foundation.Python
import OpenPine.Foundation.Text

/-! # Redaction of a configuration

Before a configuration goes into a backup, the values of sensitive keys are replaced. Lists are searched only if they
begin with a dictionary, and of such a list only the dictionaries.
-/
namespace OpenPine.Storage.Redaction

/-- A value of a configuration: a list by its length and items, a dictionary by its keys and values. -/
inductive Config (V : Type)
  | leaf (v : V)
  | list (length : ℕ) (item : ℕ → Config V)
  | dict (keys : List String) (value : String → Config V)

/-- `str.lower`, which leaves no capital letter of ASCII. -/
structure Lower where
  lower : String → String
  lowercase : ∀ s, ∀ c ∈ (lower s).toList, c.isUpper = false

namespace Config
variable (py : Lower) {V : Type} (redacted : V)

/-- `any(s in low for s in sensitive_keys)` -/
def redacts (key : String) : Bool :=
  ["token", "secret", "password", "api_key", "apiSecret"].any (Text.containsChars (py.lower key).toList)

/-- The key contains one of the names, ignoring case. -/
def sensitive (key : String) : Bool :=
  ["token", "secret", "password", "api_key"].any (Text.containsChars (py.lower key).toList)

def isDict : Config V → Bool
  | dict _ _ => true
  | _ => false

/-- `_redact_sensitive` for a dictionary, and what its loop does with the other values under plain keys. -/
def redactSensitive : Config V → Config V
  | leaf v => leaf v
  | list length item =>
    if 0 < length ∧ (item 0).isDict then list length fun i => if (item i).isDict then (item i).redactSensitive
    else item i
    else list length item
  | dict keys value => dict keys fun key => if redacts py key then leaf redacted else (value key).redactSensitive

/-- Every value of a sensitive key, at any depth, is the redaction text. -/
def Hidden : Config V → Prop
  | leaf _ => True
  | list length item => ∀ i < length, (item i).Hidden
  | dict keys value => ∀ key ∈ keys, if sensitive py key then value key = leaf redacted else (value key).Hidden

/-- All leaves that are not below a sensitive key are the same. -/
def Kept : Config V → Config V → Prop
  | leaf v, leaf v' => v = v'
  | list length item, list length' item' => length = length' ∧ ∀ i < length, (item i).Kept (item' i)
  | dict keys value, dict keys' value' => keys = keys' ∧ ∀ key ∈ keys, ¬sensitive py key → (value key).Kept (value' key)
  | _, _ => False

/-- The lists that are not searched have nothing to hide. -/
def Searched : Config V → Prop
  | leaf _ => True
  | list length item => ∀ i < length, if (item 0).isDict ∧ (item i).isDict then (item i).Searched
    else (item i).Hidden py redacted
  | dict keys value => ∀ key ∈ keys, ¬sensitive py key → (value key).Searched

theorem redacts_eq (key : String) : redacts py key = sensitive py key := by
  have hnot : Text.containsChars (py.lower key).toList "apiSecret" = false := by
    refine List.any_eq_false.mpr fun rest hrest hmatch => ?_
    have hmem : 'S' ∈ rest := (List.isPrefixOf_iff_prefix.mp hmatch).subset (by decide)
    cases py.lowercase key 'S' (((List.mem_tails _ _).mp hrest).subset hmem)
  simp [redacts, sensitive, hnot]

theorem kept_refl (c : Config V) : c.Kept py c := by
  induction c with
  | leaf => rfl
  | list _ _ ih => exact ⟨rfl,fun i _ => ih i⟩
  | dict _ _ ih => exact ⟨rfl,fun key _ _ => ih key⟩

/-- By induction on the tree, leaves under plain keys are kept. -/
theorem kept_redactSensitive (c : Config V) : c.Kept py (c.redactSensitive py redacted) := by
  induction c with
  | leaf => rfl
  | list length item ih =>
    unfold redactSensitive
    split
    · refine ⟨rfl,fun i _ => ?_⟩
      dsimp only
      split
      · exact ih i
      · exact kept_refl py _
    · exact kept_refl py _
  | dict keys value ih =>
    refine ⟨rfl,fun key _ hkey => ?_⟩
    rw [← redacts_eq] at hkey
    simpa only [if_neg hkey] using ih key

theorem hidden_redactSensitive_iff (c : Config V) : (c.redactSensitive py redacted).Hidden py redacted ↔
    c.Searched py redacted := by
  induction c with
  | leaf => exact Iff.rfl
  | list length item ih =>
    unfold redactSensitive
    split <;> rename_i hfirst
    · refine forall₂_congr fun i _ => ?_
      by_cases hi : (item i).isDict
      · simpa [hi, hfirst.2] using ih i
      · simp [hi]
    · refine forall₂_congr fun i hi => ?_
      have hnot : ¬((item 0).isDict ∧ (item i).isDict) := fun h => hfirst ⟨by omega,h.1⟩
      rw [if_neg hnot]
  | dict keys value ih =>
    refine forall₂_congr fun key _ => ?_
    by_cases hkey : sensitive py key
    · simp [hkey, redacts_eq]
    · simpa [hkey, redacts_eq] using ih key

/-- Redaction keeps all other leaves, and is complete exactly if the lists that it does not search hide nothing. -/
theorem redaction_complete_iff (keys : List String) (value : String → Config V) :
    (dict keys value).Kept py ((dict keys value).redactSensitive py redacted) ∧
      (((dict keys value).redactSensitive py redacted).Hidden py redacted ↔ (dict keys value).Searched py redacted) :=
  ⟨kept_redactSensitive py redacted _,hidden_redactSensitive_iff py redacted _⟩

/-- `{"accounts": ["main", {"token": "t"}]}` -/
def mixedList : Config String :=
  dict ["accounts"] fun _ => list 2 fun i => if i = 0 then leaf "main" else dict ["token"] fun _ => leaf "t"

def ascii : Lower where
  lower := Python.lower
  lowercase s c hc := by
    simp only [Python.lower, String.toList_ofList, List.mem_map] at hc
    obtain ⟨c,-,rfl⟩ := hc
    unfold Char.toLower Char.isUpper
    grind

/-- The list begins with a text, so the token stays. -/
theorem mixedList_not_redacted : ¬(mixedList.redactSensitive ascii "<REDACTED>").Hidden ascii "<REDACTED>" := by
  intro hhidden
  have h := (redaction_complete_iff ascii "<REDACTED>" _ _).2.mp hhidden
  have htoken := h "accounts" (by simp) (by decide +kernel) 1 (by decide) "token" (by simp)
  rw [if_pos (by decide +kernel)] at htoken
  simp at htoken

end Config
end OpenPine.Storage.Redaction
