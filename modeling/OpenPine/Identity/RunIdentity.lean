import Mathlib.Data.Rat.Defs

/-! # The identity of a run on disk

`persist_run_identity` of `openpine/run_identity.py`, as the file system steps of its
calls. A call looks for the file of the run, writes its payload to a temporary file,
links that file under the name of the run and compares, whenever it finds the name taken.
The temporary name carries a fresh UUID, so every call has a file of its own.
-/
namespace OpenPine.Identity

inductive Atom
  | null
  | bool (b : Bool)
  | number (x : ℚ)
  | text (s : String)
deriving DecidableEq

/-- `==` of what `json.load` makes of them: `True` and `False` are numbers too. -/
def Atom.equal : Atom → Atom → Bool
  | .bool b, .number x => x = if b then 1 else 0
  | .number x, .bool b => x = if b then 1 else 0
  | a, b => a = b

def Atom.same (a b : Atom) : Bool := a = b

/-- A value of JSON. An object has its keys and a value for each of them. -/
inductive Json
  | atom (a : Atom)
  | array (length : ℕ) (item : ℕ → Json)
  | object (keys : List String) (value : String → Json)

/-- Two values that agree up to the comparison of atoms; the order of keys is irrelevant. -/
def Json.alike (compare : Atom → Atom → Bool) : Json → Json → Bool
  | .atom a, .atom b => compare a b
  | .array n f, .array m g => n = m && (List.range n).all fun i => (f i).alike compare (g i)
  | .object keys f, .object keys' g =>
    keys.all (· ∈ keys') && keys'.all (· ∈ keys) && keys.all fun k => (f k).alike compare (g k)
  | _, _ => false

/-- The comparison `existing == dict(payload)`. -/
def Json.equal : Json → Json → Bool := Json.alike Atom.equal

def Json.same : Json → Json → Bool := Json.alike Atom.same

/-- `json.dumps` gives the pieces that are written one after the other, and `json.load`
reads back something that compares as the payload does. -/
structure Codec (C : Type) where
  dumps : Json → List C
  loads : List C → Option Json
  faithful : ∀ p, ∃ q, loads (dumps p) = some q ∧ ∀ x, q.equal x = p.equal x

inductive AdmitError
  | corrupt | conflicting
deriving DecidableEq, Repr

abbrev Result := Except AdmitError Unit

inductive Point
  | stat | mkdir | openExisting
  | load (inode : ℕ)
  | create
  | write (written : ℕ)
  | link | openLinked
  | loadLinked (inode : ℕ)
  | unlink (result : Result)
  | ended (result : Result)

structure Call where
  payload : Json
  point : Point

/-- The directory of the run identities and the calls for one run id. The file that a call
creates has the number of the call. -/
structure World (C : Type) where
  directory : Bool
  published : Option ℕ
  temporary : ℕ → Bool
  content : ℕ → List C
  calls : ℕ → Option Call

inductive Op
  | call (i : ℕ) (payload : Json)
  | step (i : ℕ)

def Op.schedules (i : ℕ) : Op → Bool
  | .call _ _ => false
  | .step j => j = i

variable {C : Type} (codec : Codec C)

/-- `require_existing_match(read_existing())` on the content that was found -/
def requireExistingMatch (content : List C) (payload : Json) : Result :=
  match codec.loads content with
  | none => .error .corrupt
  | some existing => if existing.equal payload then .ok () else .error .conflicting

namespace World

def empty : World C := ⟨false,none,fun _ => false,fun _ => [],fun _ => none⟩

def goto (w : World C) (i : ℕ) (payload : Json) (point : Point) : World C :=
  { w with calls := Function.update w.calls i (some ⟨payload,point⟩) }

/-- One step of a call. A process that stops is not scheduled any more. -/
def advance (w : World C) (i : ℕ) (payload : Json) : Point → World C
  | .stat => w.goto i payload (if w.directory then .openExisting else .mkdir)
  | .mkdir => { w with directory := true }.goto i payload .openExisting
  | .openExisting =>
    match w.published with
    | none => w.goto i payload .create
    | some inode => w.goto i payload (.load inode)
  | .load inode => w.goto i payload (.ended (requireExistingMatch codec (w.content inode) payload))
  | .create =>
    { w with temporary := Function.update w.temporary i true, content := Function.update w.content i [] }.goto i
      payload (.write 0)
  | .write written =>
    match (codec.dumps payload)[written]? with
    | some piece =>
      { w with content := Function.update w.content i (w.content i ++ [piece]) }.goto i payload (.write (written + 1))
    | none => w.goto i payload .link
  | .link =>
    match w.published with
    | none => { w with published := some i }.goto i payload (.unlink (.ok ()))
    | some _ => w.goto i payload .openLinked
  | .openLinked =>
    match w.published with
    | none => w.goto i payload (.unlink (.error .conflicting))
    | some inode => w.goto i payload (.loadLinked inode)
  | .loadLinked inode => w.goto i payload (.unlink (requireExistingMatch codec (w.content inode) payload))
  | .unlink result => { w with temporary := Function.update w.temporary i false }.goto i payload (.ended result)
  | .ended _ => w

def step (w : World C) : Op → World C
  | .call i payload =>
    match w.calls i with
    | none => w.goto i payload .stat
    | some _ => w
  | .step i =>
    match w.calls i with
    | none => w
    | some c => w.advance codec i c.payload c.point

def file (w : World C) : Option (List C) := w.published.map w.content

def identity (w : World C) : Option Json := w.published.bind fun i => (w.calls i).map Call.payload

end World
end OpenPine.Identity
