import Mathlib.Data.Int.Notation
import OpenPine.Foundation.Python

/-! # The imports of an artifact

The scan of an artifact reads its import statements. The import function in its namespace goes by the caller that
the globals name: it checks the calls of `__artifact__` and of callers without a name, and passes all others on. The
arguments are objects of the artifact, whose own methods answer what the guard asks of them.
-/
namespace OpenPine.Runtime.ImportGuard
open Python

def forbidden : List String := ["socket", "subprocess", "ctypes", "multiprocessing", "pathlib"]

def allowed : List String :=
  ["os", "math", "json", "decimal", "datetime", "collections", "typing", "abc", "enum", "dataclasses", "functools",
    "itertools", "operator", "re", "copy", "numbers", "pinelib", "openpine_contracts", "__future__", "ast2python"]

/-- `name.split(".", 1)[0]` -/
def root (name : String) : String := .ofList (name.toList.takeWhile (· ≠ '.'))

/-- The arguments of a call: the characters of the name and the number of the level, which the real import reads, and
what the guard gets to see. A class of the artifact may override `split` and `==`. The values of the globals are given
by their texts, those that count as false by the empty one. -/
structure Call where
  name : String
  first : String := root name
  globals : Dict String String := .empty
  fromlist : List String := []
  level : ℤ := 0
  isZero : Bool := level = 0

def Call.caller (call : Call) : String := (Dict.get? call.globals "__name__").getD ""

/-- What the guard sees is enough for it: another caller, or a first part that it accepts. -/
def Call.LetThrough (call : Call) : Prop :=
  (call.caller ≠ "" ∧ call.caller ≠ "__artifact__") ∨ (call.first ∉ forbidden ∧ (call.isZero → call.first ∈ allowed))

/-- An absolute call under the artifact's own name or none, with a text and a number that answer as those of Python. -/
structure Call.Ordinary (call : Call) : Prop where
  own : call.caller = "" ∨ call.caller = "__artifact__"
  first : call.first = root call.name
  level : call.level = 0
  isZero : call.isZero = true

def Permitted (r : String) : Prop := r ∈ allowed ∧ r ∉ forbidden

theorem Call.Ordinary.permitted {call : Call} (h : call.Ordinary) (hthrough : call.LetThrough) :
    Permitted (root call.name) := by
  obtain ⟨hnamed,hother⟩ | ⟨hforbidden,hallowed⟩ := hthrough
  · exact absurd h.own (not_or.mpr ⟨hnamed,hother⟩)
  · rw [← h.first]
    exact ⟨hallowed h.isZero,hforbidden⟩

end OpenPine.Runtime.ImportGuard
