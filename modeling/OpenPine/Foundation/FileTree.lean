import Mathlib.Data.List.Infix
import OpenPine.Foundation.Python

/-! # Files under paths

A disk has regular files and directories under absolute paths; the root is no file, and
nothing lies below a file. A file can be written wherever it stands below no other file and replaces no
directory; the directories above it are made.
-/
namespace OpenPine.FileTree
open Python List
variable {B : Type}

abbrev Path := List String

def Related (p q : Path) : Prop := p <+: q ∨ q <+: p

theorem Related.append_left_iff {p q r : Path} : Related (r ++ p) (r ++ q) ↔ Related p q := by
  simp [Related, prefix_append_right_inj]

structure Disk (B : Type) where
  files : Dict Path B
  directories : List Path
  root : ∀ x ∈ files.rows, x.1 ≠ []
  leaf : ∀ x ∈ files.rows, ∀ y ∈ files.rows, x.1 <+: y.1 → x.1 = y.1
  apart : ∀ x ∈ files.rows, ∀ q ∈ directories, ¬x.1 <+: q

namespace Disk

def read? (d : Disk B) (p : Path) : Option B := Dict.get? d.files p

def isFile (d : Disk B) (p : Path) : Bool := (d.read? p).isSome

/-- A path exists as a file, as a directory, or because there is something below it. -/
def pathExists (d : Disk B) (p : Path) : Bool :=
  d.files.rows.any (fun x => p <+: x.1) || d.directories.any (fun q => p <+: q)

theorem read?_eq_some {d : Disk B} {p : Path} {b : B} : d.read? p = some b ↔ (p, b) ∈ d.files.rows := by
  unfold read? Dict.get?
  rw [Option.map_eq_some_iff]
  constructor
  · rintro ⟨⟨q,b'⟩,hfind,rfl⟩
    obtain ⟨hmem,rfl⟩ := Table.find?_eq_some.mp hfind
    exact hmem
  · intro h
    exact ⟨(p, b),Table.find?_eq_some.mpr ⟨h,rfl⟩,rfl⟩

theorem rows_pairwise (d : Disk B) : d.files.rows.Pairwise fun x y => ¬Related x.1 y.1 := by
  have hkeys : d.files.rows.Pairwise fun x y => x.1 ≠ y.1 := pairwise_map.mp d.files.nodup
  refine hkeys.imp_of_mem fun {x y} hx hy hne hrel => ?_
  rcases hrel with hxy | hyx
  · exact hne (d.leaf x hx y hy hxy)
  · exact hne (d.leaf y hy x hx hyx).symm

def room (d : Disk B) (p : Path) : Prop :=
  p ≠ [] ∧ (∀ x ∈ d.files.rows, x.1 <+: p ∨ p <+: x.1 → x.1 = p) ∧ ∀ q ∈ d.directories, ¬p <+: q

instance (d : Disk B) (p : Path) : Decidable (d.room p) := inferInstanceAs (Decidable (_ ∧ _))

def write? (d : Disk B) (p : Path) (b : B) : Option (Disk B) :=
  if h : d.room p then
    some {
      files := Dict.put d.files p b
      directories := d.directories
      root := by
        intro x hx
        rcases Dict.mem_put hx with rfl | hx
        · exact h.1
        · exact d.root x hx
      leaf := by
        intro x hx y hy hxy
        rcases Dict.mem_put hx with rfl | hx
        · rcases Dict.mem_put hy with rfl | hy
          · rfl
          · exact (h.2.1 y hy (.inr hxy)).symm
        · rcases Dict.mem_put hy with rfl | hy
          · exact h.2.1 x hx (.inl hxy)
          · exact d.leaf x hx y hy hxy
      apart := by
        intro x hx q hq
        rcases Dict.mem_put hx with rfl | hx
        · exact h.2.2 q hq
        · exact d.apart x hx q hq }
  else none

/-- `mkdir(parents=True, exist_ok=True)` -/
def mkdir? (d : Disk B) (p : Path) : Option (Disk B) :=
  if h : ∀ x ∈ d.files.rows, ¬x.1 <+: p then
    some { d with
      directories := p :: d.directories
      apart := by
        intro x hx q hq
        rcases List.mem_cons.mp hq with rfl | hq
        · exact h x hx
        · exact d.apart x hx q hq }
  else none

theorem write?_of_room {d : Disk B} {p : Path} (h : d.room p) (b : B) :
    ∃ d', d.write? p b = some d' ∧ (∀ q, d'.read? q = if p = q then some b else d.read? q) ∧
      ∀ q, d.room q → ¬Related p q → d'.room q := by
  unfold write?
  rw [dif_pos h]
  refine ⟨_,rfl,fun q => Dict.get?_put _ _ _ _,fun q hq hne => ⟨hq.1,fun x hx hrel => ?_,hq.2.2⟩⟩
  rcases Dict.mem_put hx with rfl | hx
  · exact absurd hrel hne
  · exact hq.2.1 x hx hrel

/-- Files written one after the other until one is refused, and whether none was. -/
def writeAll : List (Path × B) → Disk B → Bool × Disk B
  | [], d => (true, d)
  | (p, b) :: rest, d =>
    match d.write? p b with
    | none => (false, d)
    | some d' => writeAll rest d'

theorem writeAll_of_room {members : List (Path × B)} {d : Disk B}
    (hapart : members.Pairwise fun x y => ¬Related x.1 y.1) (hroom : ∀ x ∈ members, d.room x.1) :
    ∃ d', writeAll members d = (true, d') ∧ (∀ x ∈ members, d'.read? x.1 = some x.2) ∧
      ∀ q, q ∉ members.map Prod.fst → d'.read? q = d.read? q := by
  induction members generalizing d with
  | nil => exact ⟨d,rfl,by rintro x ⟨⟩,fun _ _ => rfl⟩
  | cons x rest ih =>
    obtain ⟨hfirst,hrest⟩ := pairwise_cons.mp hapart
    obtain ⟨d₁,hwrite,hread,hkeep⟩ := write?_of_room (hroom x mem_cons_self) x.2
    have hroom₁ : ∀ y ∈ rest, d₁.room y.1 := fun y hy => hkeep y.1 (hroom y (mem_cons_of_mem _ hy)) (hfirst y hy)
    obtain ⟨d',hall,hmembers,hother⟩ := ih hrest hroom₁
    refine ⟨d',by simp only [writeAll, hwrite, hall],fun y hy => ?_,fun q hq => ?_⟩
    · rcases mem_cons.mp hy with rfl | hy
      · -- no later file has the same path
        have hnot : y.1 ∉ rest.map Prod.fst := by
          rintro hmem
          obtain ⟨z,hz,hzy⟩ := mem_map.mp hmem
          exact hfirst z hz (.inl (by rw [hzy]))
        rw [hother _ hnot, hread, if_pos rfl]
      · exact hmembers y hy
    · obtain ⟨hne,hq⟩ := not_or.mp (mt mem_cons.mpr hq)
      rw [hother q hq, hread, if_neg (Ne.symm hne)]

end Disk
end OpenPine.FileTree
