import OpenPine.Backtests.ResultStore
import OpenPine.Foundation.Runs

/-! # Removing and renaming directories

What a removal leaves when nobody else is at work, for any machine that contains it, and
what every step of it keeps.
-/
namespace OpenPine.Backtests
open Runs List
variable {C σ ω : Type} {f f' : Folder C} {place : Place} {inode : ℕ} {r : Removal}

namespace Folder

theorem filter_names_cons (fs : Files C) (name : String) (names : List String) (h : ∀ e ∈ fs, e.1 ∈ name :: names) :
    ∀ e ∈ fs.filter (·.1 ≠ name), e.1 ∈ names := by
  intro e he
  obtain ⟨hmem,hne⟩ := mem_filter.mp he
  have hname := h e hmem
  simp only [mem_cons] at hname
  simp only [ne_eq, decide_not, Bool.not_eq_eq_eq_not, Bool.not_true, decide_eq_false_iff_not] at hne
  tauto

def removed (f : Folder C) (place : Place) (inode : ℕ) : Folder C :=
  { f.unlink place with files := Function.update f.files inode [] }

@[simp] theorem entry_files (f : Folder C) (files : ℕ → Files C) (place : Place) :
    entry { f with files := files } place = f.entry place := by
  cases place <;> rfl

@[simp] theorem unlink_files (f : Folder C) (place : Place) : (f.unlink place).files = f.files := by cases place <;> rfl

theorem removed_files (f : Folder C) (place : Place) (inode : ℕ) (fs : Files C) :
    removed { f with files := Function.update f.files inode fs } place inode = f.removed place inode := by
  cases place <;> simp [removed, unlink]

theorem rename_some {source target : Place} (h : f.rename source target = some f') :
    ∃ i, f.entry source = some i ∧ (∀ j, f.entry target = some j → f.files j = []) ∧
      f' = ((f.unlink target).unlink source).link i target := by
  unfold rename at h
  split at h
  · cases h
  · rename_i i hentry
    split at h
    · rename_i hall
      refine ⟨i,hentry,fun j hj => ?_,(Option.some.inj h).symm⟩
      simpa [hj] using hall
    · cases h

theorem removed_of_empty (h : f.files inode = []) : f.removed place inode = f.unlink place := by
  have hupdate : Function.update f.files inode [] = f.files := by rw [← h, Function.update_eq_self]
  cases place <;> simp [removed, unlink, hupdate]

end Folder

section Put
variable {R T : Type} {store : Store C R T} {key : String × String}

@[simp] theorem Store.put_folders_self : (store.put key f).folders key = f := by simp [Store.put]

theorem Store.put_put : (store.put key f).put key f' = store.put key f' := by simp [Store.put]

theorem Store.put_self : store.put key (store.folders key) = store := by simp [Store.put]

end Put

/-- A removal that nothing disturbs ends with the directory gone. -/
theorem reaches_removed {step : σ → ω → σ} {op : ω} (machine : Folder C → Option Removal → σ)
    (hstep : ∀ f r p, Removal.step f r = some p → step (machine f (some r)) op = machine p.1 p.2)
    (hentry : f.entry place = some inode) :
    Reaches step op (machine f (some (.enter place))) (machine (f.removed place inode) none) := by
  have hchildren : ∀ names (f : Folder C), f.entry place = some inode → (∀ e ∈ f.files inode, e.1 ∈ names) →
      Reaches step op (machine f (some (.children place inode names))) (machine (f.removed place inode) none) := by
    intro names
    induction names with
    | nil =>
      intro f hentry hnames
      have hempty : f.files inode = [] := eq_nil_iff_forall_not_mem.mpr fun e he => not_mem_nil (hnames e he)
      refine .head (hstep f _ (f,some (.rmdir place)) rfl) ?_
      refine .single (hstep f _ (f.removed place inode,none) ?_)
      simp [Removal.step, hentry, hempty, Folder.removed_of_empty hempty]
    | cons name names ih =>
      intro f hentry hnames
      refine .head (hstep f _ _ rfl) ?_
      rw [← Folder.removed_files f place inode ((f.files inode).filter (·.1 ≠ name))]
      refine ih _ (by simpa using hentry) ?_
      simpa using Folder.filter_names_cons (f.files inode) name names hnames
  refine .head (hstep f (.enter place) (f,some (.children place inode ((f.files inode).map Prod.fst))) ?_)
    (hchildren _ f hentry ?_)
  · simp [Removal.step, hentry]
  · intro e he
    exact mem_map_of_mem he

theorem Removal.rmdir_some {next : Option Removal} (h : (Removal.rmdir place).step f = some (f', next)) :
    ∃ i, f.entry place = some i ∧ f.files i = [] ∧ f' = f.unlink place ∧ next = none := by
  simp only [Removal.step] at h
  split at h
  · cases h
  · rename_i i hentry
    split at h
    · rename_i hempty
      cases h
      exact ⟨i,hentry,by simpa using hempty,rfl,rfl⟩
    · cases h

/-- The removal is at work on this directory, and has seen all its files. -/
def Removal.Targets (f : Folder C) (place : Place) (inode : ℕ) : Removal → Prop
  | .enter place' => place' = place
  | .children place' inode' names => place' = place ∧ inode' = inode ∧ ∀ e ∈ f.files inode, e.1 ∈ names
  | .rmdir place' => place' = place ∧ f.files inode = []

/-- The names of the directories are the same, and so are the files of all but one of them. -/
structure Folder.SameBut (inode : ℕ) (f f' : Folder C) : Prop where
  run : f'.run = f.run
  tmp : f'.tmp = f.tmp
  backups : f'.backups = f.backups
  files : ∀ j, j ≠ inode → f'.files j = f.files j

/-- A step of a removal touches only the directory that it has open. -/
theorem Removal.step_of_targets (hentry : f.entry place = some inode) (h : r.Targets f place inode) :
    (∃ f' r', r.step f = some (f', some r') ∧ r'.Targets f' place inode ∧ f.SameBut inode f') ∨
      r.step f = some (f.unlink place, none) := by
  cases r with
  | enter =>
    cases h
    refine .inl ⟨f,.children place inode ((f.files inode).map Prod.fst),by simp [step, hentry],⟨rfl,rfl,?_⟩,
      ⟨rfl,rfl,rfl,fun _ _ => rfl⟩⟩
    intro e he
    exact mem_map_of_mem he
  | children place' inode' names =>
    obtain ⟨rfl,rfl,hnames⟩ := h
    cases names with
    | nil =>
      have hempty : f.files inode' = [] := eq_nil_iff_forall_not_mem.mpr fun e he => not_mem_nil (hnames e he)
      exact .inl ⟨f,.rmdir place',rfl,⟨rfl,hempty⟩,⟨rfl,rfl,rfl,fun _ _ => rfl⟩⟩
    | cons name names =>
      refine .inl ⟨_,_,rfl,⟨rfl,rfl,?_⟩,⟨rfl,rfl,rfl,fun j hj => by simp [hj]⟩⟩
      simpa using Folder.filter_names_cons (f.files inode') name names hnames
  | rmdir =>
    obtain ⟨rfl,hempty⟩ := h
    exact .inr (by simp [step, hentry, hempty])

end OpenPine.Backtests
