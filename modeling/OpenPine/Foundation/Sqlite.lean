import Mathlib.Data.Rat.Defs

/-! # Values in SQLite columns

The values that Python hands to SQLite, the storage classes that they are bound to,
and what a column with an affinity makes of them.
-/
namespace OpenPine.Sqlite

inductive Number
  | finite (x : ℚ)
  | infinite (negative : Bool)
  | nan
deriving DecidableEq

inductive Cell
  | null
  | integer (i : ℤ)
  | real (x : Number)
  | text (s : String)
  | blob (content : List UInt8)
deriving DecidableEq

/-- A Python object. One that SQLite cannot bind is only known by its truth value. -/
inductive Value
  | none
  | bool (b : Bool)
  | int (i : ℤ)
  | float (x : Number)
  | str (s : String)
  | bytes (content : List UInt8)
  | other (truthy : Bool)
deriving DecidableEq

/-- `bool(cell)` for a cell that was read. -/
def Cell.truthy : Cell → Bool
  | .null => false
  | .integer i => i ≠ 0
  | .real x => x ≠ .finite 0
  | .text s => s ≠ ""
  | .blob content => content ≠ []

def Value.truthy : Value → Bool
  | .none => false
  | .bool b => b
  | .int i => i ≠ 0
  | .float x => x ≠ .finite 0
  | .str s => s ≠ ""
  | .bytes content => content ≠ []
  | .other truthy => truthy

/-- `cell = 1` in a condition -/
def Cell.isOne : Cell → Bool
  | .integer i => i = 1
  | .real x => x = .finite 1
  | _ => false

def Cell.flag (b : Bool) : Cell := .integer (if b then 1 else 0)

@[simp] theorem Cell.truthy_flag (b : Bool) : (Cell.flag b).truthy = b := by cases b <;> rfl

@[simp] theorem Cell.isOne_flag (b : Bool) : (Cell.flag b).isOne = b := by cases b <;> rfl

def fits (i : ℤ) : Prop := -9223372036854775808 ≤ i ∧ i < 9223372036854775808

instance (i : ℤ) : Decidable (fits i) := inferInstanceAs (Decidable (_ ∧ _))

/-- The cell that a value is bound to, unless binding raises. -/
def Value.bind : Value → Option Cell
  | .none => some .null
  | .bool b => some (.flag b)
  | .int i => if fits i then some (.integer i) else Option.none
  | .float .nan => some .null
  | .float x => some (.real x)
  | .str s => some (.text s)
  | .bytes content => some (.blob content)
  | .other _ => Option.none

inductive Affinity
  | text | integer
deriving DecidableEq

/-- How texts and numbers are converted: the number that a text denotes, the text of a
number, and Python's `str` of a cell. -/
structure Conversions where
  numeric : String → Option Number
  (print str : Cell → String)
  numeric_empty : numeric "" = none
  str_text : ∀ s, str (.text s) = s

namespace Conversions
variable (e : Conversions)

/-- A number without a fraction is stored as an integer. -/
def integral : Number → Cell
  | .finite x => if x.den = 1 ∧ fits x.num then .integer x.num else .real (.finite x)
  | x => .real x

def stored : Affinity → Cell → Cell
  | .integer, .real x => integral x
  | .integer, .text s => ((e.numeric s).map integral).getD (.text s)
  | .text, .integer i => .text (e.print (.integer i))
  | .text, .real x => .text (e.print (.real x))
  | _, cell => cell

theorem truthy_stored {v : Value} {cell : Cell} (hv : v.truthy = false) (hbind : v.bind = some cell) :
    (e.stored .integer cell).truthy = false := by
  cases v with
  | none =>
    cases hbind
    rfl
  | bool =>
    cases hv
    cases hbind
    rfl
  | int i =>
    obtain rfl : i = 0 := by simpa [Value.truthy] using hv
    cases hbind
    rfl
  | float x =>
    obtain rfl : x = .finite 0 := by simpa [Value.truthy] using hv
    cases hbind
    exact (by decide : (integral (.finite 0)).truthy = false)
  | str s =>
    obtain rfl : s = "" := by simpa [Value.truthy] using hv
    cases hbind
    simp only [stored, e.numeric_empty]
    decide
  | bytes content =>
    obtain rfl : content = [] := by simpa [Value.truthy] using hv
    cases hbind
    rfl
  | other => cases hbind

end Conversions
end OpenPine.Sqlite
