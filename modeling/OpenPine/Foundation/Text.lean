import Mathlib.Data.Rat.Floor
import Mathlib.Data.List.DropRight

/-! # Texts and floats

The text methods `strip`, `lower`, `replace` and `split`, the test whether one text occurs in
another, and the values of a float other than NaN, which are linearly ordered.
-/
namespace OpenPine.Text

/-- The characters that `strip` and `split` count as white space. -/
def isSpace (c : Char) : Bool :=
  (9 ≤ c.toNat && c.toNat ≤ 13) || (28 ≤ c.toNat && c.toNat ≤ 32) || (0x2000 ≤ c.toNat && c.toNat ≤ 0x200a) ||
    c.toNat ∈ [0x85, 0xa0, 0x1680, 0x2028, 0x2029, 0x202f, 0x205f, 0x3000]

def stripChars (cs : List Char) : List Char := (cs.dropWhile isSpace).rdropWhile isSpace

def strip (s : String) : String := .ofList (stripChars s.toList)

/-- The decimals of a fraction below one, as many as there are up to the bound. -/
def decimals : ℕ → ℚ → String
  | 0, _ => ""
  | bound + 1, q => toString (10 * q).floor ++ if (10 * q).den = 1 then "" else decimals bound (10 * q - (10 * q).floor)

/-- The text of a float that needs at most seventeen decimals and no exponent. -/
def decimal (q : ℚ) : String := (if q < 0 then "-" else "") ++ toString |q|.floor ++ "." ++
    decimals 17 (|q| - |q|.floor)

def lowerChar (c : Char) : Char :=
  if 0x410 ≤ c.toNat && c.toNat ≤ 0x42f then .ofNat (c.toNat + 0x20)
  else if 0x400 ≤ c.toNat && c.toNat ≤ 0x40f then .ofNat (c.toNat + 0x50)
  else c.toLower

def lower (s : String) : String := .ofList (s.toList.map lowerChar)

@[simp] theorem lower_eq_empty {s : String} : lower s = "" ↔ s = "" := by
  rw [lower, ← String.toList_inj, ← String.toList_inj]
  simp

def replaceChars (old : Char) (new : List Char) (cs : List Char) : List Char :=
  cs.flatMap fun c => if c = old then new else [c]

/-- `" ".join(s.split())` -/
def squeezeChars (cs : List Char) : List Char := [' '].intercalate ((cs.splitOnP isSpace).filter (· ≠ []))

def containsChars (cs : List Char) (needle : String) : Bool := cs.tails.any fun rest => needle.toList.isPrefixOf rest

theorem strip_eq_self {s : String} (h : ∀ c ∈ s.toList, isSpace c = false) : strip s = s := by
  have hleft : s.toList.dropWhile isSpace = s.toList := by
    cases hs : s.toList with
    | nil => rfl
    | cons c => exact List.dropWhile_cons_of_neg (by simp [h c (by simp [hs])])
  have hright : s.toList.rdropWhile isSpace = s.toList := by
    rw [List.rdropWhile_eq_self_iff]
    intro hne
    simp [h _ (List.getLast_mem hne)]
  rw [strip, stripChars, hleft, hright, String.ofList_toList]

theorem isSpace_of_isDigit {c : Char} (h : c.isDigit) : isSpace c = false := by
  simp only [Char.isDigit, Bool.and_eq_true, decide_eq_true_eq, UInt32.le_iff_toNat_le, ge_iff_le] at h
  change 48 ≤ c.toNat ∧ c.toNat ≤ 57 at h
  simp only [isSpace, List.mem_cons, List.not_mem_nil, or_false, Bool.or_eq_false_iff, Bool.and_eq_false_iff,
    decide_eq_false_iff_not]
  omega

theorem isSpace_of_mem_toString {n : ℤ} {c : Char} (h : c ∈ (toString n).toList) : isSpace c = false := by
  rw [Int.toString_eq_repr, Int.repr_eq_if] at h
  split at h
  · rw [Nat.toList_repr] at h
    exact isSpace_of_isDigit (Nat.isDigit_of_mem_toDigits (by decide) le_rfl h)
  · rw [String.toList_append, Nat.toList_repr] at h
    rcases List.mem_append.mp h with hsign | hdigit
    · obtain rfl : c = '-' := by simpa using hsign
      rfl
    · exact isSpace_of_isDigit (Nat.isDigit_of_mem_toDigits (by decide) le_rfl hdigit)

@[simp] theorem strip_toString (n : ℤ) : strip (toString n) = toString n :=
  strip_eq_self fun _ hc => isSpace_of_mem_toString hc

theorem toString_ne_empty (n : ℤ) : toString n ≠ "" := by
  rw [Int.toString_eq_repr, Int.repr_eq_if]
  split
  · exact Nat.repr_ne_empty
  · simp

inductive Double where
  | negInf
  | finite (q : ℚ)
  | posInf
  deriving DecidableEq

namespace Double

def key : Double → WithBot (WithTop ℚ)
  | negInf => ⊥
  | finite q => ((q : WithTop ℚ) : WithBot (WithTop ℚ))
  | posInf => ((⊤ : WithTop ℚ) : WithBot (WithTop ℚ))

theorem key_injective : Function.Injective key := by
  rintro (_ | p | _) (_ | q | _) h
  all_goals first
    | rfl
    | simp_all [key]

instance : LinearOrder Double := LinearOrder.lift' key key_injective

def abs : Double → Double
  | finite q => finite |q|
  | _ => posInf

def neg : Double → Double
  | negInf => posInf
  | finite q => finite (-q)
  | posInf => negInf

/-- `int(x)` and `round(x)`; none where they raise. -/
def trunc : Double → Option ℤ
  | finite q => some (q.num.tdiv q.den)
  | _ => none

def round : Double → Option ℤ
  | finite q =>
    let below := ⌊q⌋
    some (if q - below < 1 / 2 ∨ q - below = 1 / 2 ∧ Even below then below else below + 1)
  | _ => none

@[simp] theorem trunc_int (n : ℤ) : trunc (finite n) = some n := by simp [trunc]

end Double
end OpenPine.Text
