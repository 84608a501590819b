import OpenPine.Foundation.FileTree

/-! # Backup and restore

`backup_openpine` writes an archive of the SQLite file, the DuckDB file and the three trees
`artifacts`, `manifests` and `state` of the data directory, and `restore_openpine` extracts
it. A file of a tree is named by the tree's name and its path relative to the parent of the
tree, which begins with that name again: extracted into the data directory it comes one level
too deep.
-/
namespace OpenPine.Storage.Backup
open FileTree Python List
variable {B C : Type}

/-- The paths of a configuration, and the dictionary without secrets that is saved of it. -/
structure Config (C : Type) where
  (dataDir sqlitePath duckdbPath configPath : Path)
  safeDict : C

structure Manifest (C : Type) where
  config : C
  (backupVersion schema : String)

/-- How a manifest is written as JSON, and what is read as its schema. -/
structure Codec (C B : Type) where
  dumps : Manifest C → B
  readSchema : B → Except String String
  readSchema_dumps : ∀ m, readSchema (dumps m) = .ok m.schema

/-- A member of an archive: the file it was made of, its name and its content. -/
structure Member (B : Type) where
  source : Option Path
  arcname : Path
  content : B

abbrev Archive (B : Type) := List (Member B)

def treeNames : List String := ["artifacts", "manifests", "state"]

def dirsToBackup (config : Config C) : List (String × Path) :=
  [("sqlite", config.sqlitePath), ("duckdb", config.duckdbPath)] ++ treeNames.map fun name =>
    (name, config.dataDir ++ [name])

/-- `path.parent`, `path.name` and `path.suffix` -/
def parent (path : Path) : Path := path.dropLast

def fileName (path : Path) : String := path.getLastD ""

def isSqlite (path : Path) : Bool := (fileName path).endsWith ".sqlite" && fileName path ≠ ".sqlite"

def relativeTo (item base : Path) : Path := item.drop base.length

section Backup
variable (codec : Codec C B) (checkpointSqlite : Path → Disk B → Except String (Disk B))

def checkpointed (name : String) (path : Path) (disk : Disk B) : Except String (Disk B) :=
  if name = "sqlite" ∧ isSqlite path then checkpointSqlite path disk else .ok disk

def addFile (name : String) (path : Path) (disk : Disk B) : Except String (Archive B × Disk B) := do
  let disk ← checkpointed checkpointSqlite name path disk
  match disk.read? path with
  | none => .error "No such file"
  | some content => return ([⟨some path,[name, fileName path],content⟩], disk)

def addTree (name : String) (path : Path) (disk : Disk B) : Archive B :=
  (disk.files.rows.filter fun x => path <+: x.1).map fun x => ⟨some x.1,name :: relativeTo x.1 (parent path),x.2⟩

def addAll : List (String × Path) → Disk B → Except String (Archive B × List Path × Disk B)
  | [], disk => .ok ([], [], disk)
  | (name, path) :: rest, disk =>
    if disk.pathExists path = false then addAll rest disk
    else if disk.isFile path then do
      let (members, disk) ← addFile checkpointSqlite name path disk
      let (members', backedUp, disk) ← addAll rest disk
      return (members ++ members', path :: backedUp, disk)
    else do
      let (members, backedUp, disk') ← addAll rest disk
      return (addTree name path disk ++ members, path :: backedUp, disk')

def manifestName : Path := ["config", "manifest.json"]

/-- The archive, the list of paths that is returned, and the disk after the checkpoint. -/
def backupOpenpine (config : Config C) (disk : Disk B) : Except String (Archive B × List Path × Disk B) := do
  let (members, backedUp, disk) ← addAll checkpointSqlite (dirsToBackup config) disk
  let manifest : Manifest C := ⟨config.safeDict,"1.0","openpine.backup.v1"⟩
  return (members ++ [⟨none,manifestName,codec.dumps manifest⟩], backedUp ++ [config.configPath], disk)

inductive RestoreError
  | notFound | targetBlocked | missingManifest
  | unreadable (text : String)
  | unknownSchema (schema : String)
  | notExtracted
deriving DecidableEq

def RestoreError.message (backupPath : String) : RestoreError → String
  | .notFound => "Backup not found: " ++ backupPath
  | .targetBlocked => "Not a directory"
  | .missingManifest => "Invalid backup: missing manifest"
  | .unreadable text => text
  | .unknownSchema schema => "Unknown backup schema: " ++ schema
  | .notExtracted => "Not extracted"

/-- `tar.getmember` finds the last member of a name. -/
def restoreOpenpine (archive : Option (Archive B)) (targetDir : Path) (disk : Disk B) :
    Except RestoreError Unit × Disk B :=
  match archive with
  | none => (.error .notFound, disk)
  | some members =>
    match disk.mkdir? targetDir with
    | none => (.error .targetBlocked, disk)
    | some disk =>
      match members.reverse.find? fun m => m.arcname = manifestName with
      | none => (.error .missingManifest, disk)
      | some m =>
        match codec.readSchema m.content with
        | .error text => (.error (.unreadable text), disk)
        | .ok schema =>
          if schema ≠ "openpine.backup.v1" then (.error (.unknownSchema schema), disk)
          else
            let (done, disk) := disk.writeAll (members.map fun m => (targetDir ++ m.arcname, m.content))
            (if done then .ok () else .error .notExtracted, disk)

end Backup

def Emptied (disk : Disk B) (dir : Path) : Prop :=
  (∀ x ∈ disk.files.rows, ¬Related dir x.1) ∧ ∀ q ∈ disk.directories, dir <+: q → q = dir

variable {m : Member B} {codec : Codec C B} {config : Config C}

section Archive

variable {path dir : Path} {name : String} {disk : Disk B}

theorem filter_of_read? {content : B} (h : disk.read? path = some content) :
    (disk.files.rows.filter fun x => path <+: x.1) = [(path, content)] := by
  have hmem := Disk.read?_eq_some.mp h
  have honly : ∀ x ∈ disk.files.rows, path <+: x.1 → x = (path, content) := by
    intro x hx hpath
    exact Table.eq_of_key hx hmem (disk.leaf _ hmem x hx hpath).symm
  have hnodup : disk.files.rows.Nodup := List.Nodup.of_map _ disk.files.nodup
  generalize disk.files.rows = rows at hmem honly hnodup
  obtain ⟨before,after,rfl⟩ := append_of_mem hmem
  obtain ⟨-,hafter,hbefore⟩ := nodup_append.mp hnodup
  have hleft : before.filter (fun x => path <+: x.1) = [] := by
    refine filter_eq_nil_iff.mpr fun x hx hpath => ?_
    have heq := honly x (mem_append_left _ hx) (of_decide_eq_true hpath)
    exact hbefore x hx _ mem_cons_self heq
  have hright : after.filter (fun x => path <+: x.1) = [] := by
    refine filter_eq_nil_iff.mpr fun x hx hpath => ?_
    have heq := honly x (mem_append_right _ (mem_cons_of_mem _ hx)) (of_decide_eq_true hpath)
    rw [heq] at hx
    exact (nodup_cons.mp hafter).1 hx
  simp [filter_append, hleft, hright]

theorem addTree_of_file {content : B} (h : disk.read? path = some content) :
    addTree name path disk = [⟨some path,[name, fileName path],content⟩] := by
  have hpath : path ≠ [] := disk.root _ (Disk.read?_eq_some.mp h)
  have hlast : relativeTo path (parent path) = [fileName path] := by
    obtain ⟨before,last,rfl⟩ := (eq_nil_or_concat path).resolve_left hpath
    simp [relativeTo, parent, fileName]
  rw [addTree, filter_of_read? h]
  simp [hlast]

theorem addTree_of_not_exists (h : disk.pathExists path = false) : addTree name path disk = [] := by
  have hnone : ∀ x ∈ disk.files.rows, ¬path <+: x.1 := by
    have hfiles : (disk.files.rows.any fun x => path <+: x.1) = false := (Bool.or_eq_false_iff.mp h).1
    simpa using hfiles
  simp only [addTree, map_eq_nil_iff, filter_eq_nil_iff, decide_eq_true_eq]
  exact hnone

variable {checkpointSqlite : Path → Disk B → Except String (Disk B)} {disk disk' : Disk B} {members : Archive B}
  {backedUp : List Path}

theorem addFile_eq (h : addFile checkpointSqlite name path disk = .ok (members, disk')) :
    members = addTree name path disk' ∧ (name ≠ "sqlite" → disk' = disk) := by
  unfold addFile at h
  obtain ⟨disk₁,hdisk,h⟩ := bind_eq_ok.mp h
  cases hread : disk₁.read? path with
  | none =>
    simp only [hread] at h
    cases h
  | some =>
    simp only [hread] at h
    cases h
    refine ⟨(addTree_of_file hread).symm,fun hname => ?_⟩
    rw [checkpointed, if_neg (fun hsqlite => hname hsqlite.1)] at hdisk
    exact (Except.ok.inj hdisk).symm

theorem addAll_cons {rest : List (String × Path)}
    (h : addAll checkpointSqlite ((name, path) :: rest) disk = .ok (members, backedUp, disk')) :
    ∃ disk₁ later backedUp', addAll checkpointSqlite rest disk₁ = .ok (later, backedUp', disk') ∧
      members = addTree name path disk₁ ++ later ∧ (name ≠ "sqlite" → disk₁ = disk) := by
  unfold addAll at h
  split at h
  · rename_i hexists
    exact ⟨disk,members,backedUp,h,by rw [addTree_of_not_exists hexists, nil_append],fun _ => rfl⟩
  split at h
  · obtain ⟨⟨first,disk₁⟩,hfirst,h⟩ := bind_eq_ok.mp h
    obtain ⟨⟨later,backedUp',disk₂⟩,hlater,h⟩ := bind_eq_ok.mp h
    cases h
    obtain ⟨rfl,hdisk⟩ := addFile_eq hfirst
    exact ⟨disk₁,later,backedUp',hlater,rfl,hdisk⟩
  · obtain ⟨⟨later,backedUp',disk₂⟩,hlater,h⟩ := bind_eq_ok.mp h
    cases h
    exact ⟨disk,later,backedUp',hlater,rfl,fun _ => rfl⟩

theorem addAll_eq {dirs : List (String × Path)} (hnames : ∀ x ∈ dirs, x.1 ≠ "sqlite")
    (h : addAll checkpointSqlite dirs disk = .ok (members, backedUp, disk')) :
    disk' = disk ∧ members = dirs.flatMap fun x => addTree x.1 x.2 disk := by
  induction dirs generalizing members backedUp with
  | nil =>
    cases h
    exact ⟨rfl,rfl⟩
  | cons x _ ih =>
    obtain ⟨disk₁,later,backedUp',hlater,rfl,hdisk⟩ := addAll_cons h
    obtain rfl := hdisk (hnames x mem_cons_self)
    obtain ⟨rfl,rfl⟩ := ih (fun y hy => hnames y (mem_cons_of_mem _ hy)) hlater
    exact ⟨rfl,rfl⟩

/-- For each of the five sections the files below its path, and the manifest. -/
def archived (codec : Codec C B) (config : Config C) (disk : Disk B) : Archive B :=
  ((dirsToBackup config).flatMap fun x => addTree x.1 x.2 disk) ++
    [⟨none,manifestName,codec.dumps ⟨config.safeDict,"1.0","openpine.backup.v1"⟩⟩]

theorem archive_eq {archive : Archive B}
    (h : backupOpenpine codec checkpointSqlite config disk = .ok (archive, backedUp, disk')) :
    archive = archived codec config disk' := by
  unfold backupOpenpine at h
  obtain ⟨⟨members,backedUp',disk₂⟩,hall,h⟩ := bind_eq_ok.mp h
  cases h
  obtain ⟨disk₁,later,backedUp'',hlater,rfl,-⟩ := addAll_cons hall
  obtain ⟨rfl,rfl⟩ := addAll_eq (by simp [treeNames]) hlater
  rfl

theorem mem_addTree : m ∈ addTree name path disk ↔ ∃ item content, disk.read? item = some content ∧ path <+: item ∧
      m = ⟨some item,name :: relativeTo item (parent path),content⟩ := by
  simp only [addTree, mem_map, mem_filter, decide_eq_true_eq]
  constructor
  · rintro ⟨⟨item,content⟩,⟨hmem,hpath⟩,rfl⟩
    exact ⟨item,content,Disk.read?_eq_some.mpr hmem,hpath,rfl⟩
  · rintro ⟨item,content,hread,hpath,rfl⟩
    exact ⟨(item, content),⟨Disk.read?_eq_some.mp hread,hpath⟩,rfl⟩

theorem parent_append_relativeTo {item : Path} (h : path <+: item) :
    parent path ++ relativeTo item (parent path) = item := by
  have hparent : parent path <+: item := ( dropLast_prefix path).trans h
  exact prefix_iff_eq_append.mp hparent

theorem addTree_pairwise (name : String) (path : Path) (disk : Disk B) :
    (addTree name path disk).Pairwise fun m m' => ¬Related m.arcname m'.arcname := by
  refine pairwise_map.mpr ?_
  have hfiles := disk.rows_pairwise.filter fun x => path <+: x.1
  refine hfiles.imp_of_mem fun {x y} hx hy hne hrel => hne ?_
  have hx' := parent_append_relativeTo (of_decide_eq_true (mem_filter.mp hx).2)
  have hy' := parent_append_relativeTo (of_decide_eq_true (mem_filter.mp hy).2)
  rw [← hx', ← hy']
  exact Related.append_left_iff.mpr ((Related.append_left_iff (r := [name])).mp hrel)

theorem not_related_of_sections {x y : String × Path} {m m' : Member B} (hm : m ∈ addTree x.1 x.2 disk)
    (hm' : m' ∈ addTree y.1 y.2 disk) (hne : x.1 ≠ y.1) : ¬Related m.arcname m'.arcname := by
  obtain ⟨item,content,-,-,rfl⟩ := mem_addTree.mp hm
  obtain ⟨item',content',-,-,rfl⟩ := mem_addTree.mp hm'
  rintro (h | h)
  · exact hne (cons_prefix_cons.mp h).1
  · exact hne (cons_prefix_cons.mp h).1.symm

theorem archived_pairwise (codec : Codec C B) (config : Config C) (disk : Disk B) :
    (archived codec config disk).Pairwise fun m m' => ¬Related m.arcname m'.arcname := by
  have hnames : (dirsToBackup config).Pairwise fun x y => x.1 ≠ y.1 := by simp [dirsToBackup, treeNames]
  refine pairwise_append.mpr ⟨pairwise_flatMap.mpr ⟨fun x _ => addTree_pairwise x.1 x.2 disk,?_⟩,by simp,?_⟩
  · exact hnames.imp fun hne m hm m' hm' => not_related_of_sections hm hm' hne
  · intro m hm m' hm'
    obtain ⟨x,hx,hmx⟩ := mem_flatMap.mp hm
    obtain ⟨item,content,-,-,rfl⟩ := mem_addTree.mp hmx
    obtain rfl := mem_singleton.mp hm'
    have hne : x.1 ≠ "config" := by
      simp only [dirsToBackup, treeNames, map_cons, map_nil, mem_append, mem_cons, not_mem_nil, or_false] at hx
      rcases hx with (rfl | rfl) | rfl | rfl | rfl <;> simp
    rintro (h | h)
    · exact hne (cons_prefix_cons.mp h).1
    · exact hne (cons_prefix_cons.mp h).1.symm

theorem room_of_emptied {d d' : Disk B} (hempty : Emptied d dir) (hmkdir : d.mkdir? dir = some d') {arcname : Path}
    (hne : arcname ≠ []) : d'.room (dir ++ arcname) := by
  unfold Disk.mkdir? at hmkdir
  split at hmkdir
  · cases hmkdir
    refine ⟨by simp [hne],fun x hx hrel => absurd ?_ (hempty.1 x hx),fun q hq hprefix => ?_⟩
    · rcases hrel with h | h
      · exact ( prefix_or_prefix_of_prefix (prefix_append dir arcname) h)
      · exact .inl ((prefix_append dir arcname).trans h)
    · have hdir : q = dir := by
        rcases mem_cons.mp hq with rfl | hq
        · rfl
        · exact hempty.2 q hq ((prefix_append dir arcname).trans hprefix)
      rw [hdir] at hprefix
      have hlength := hprefix.length_le
      rw [length_append] at hlength
      exact hne (length_eq_zero_iff.mp (by omega))
  · cases hmkdir

theorem mkdir?_of_emptied {d : Disk B} (hempty : Emptied d dir) :
    ∃ d', d.mkdir? dir = some d' ∧ ∀ q, d'.read? q = d.read? q := by
  unfold Disk.mkdir?
  rw [dif_pos fun x hx h => hempty.1 x hx (.inr h)]
  exact ⟨_,rfl,fun _ => rfl⟩

theorem arcname_ne_nil (hm : m ∈ archived codec config disk) : m.arcname ≠ [] := by
  rcases mem_append.mp hm with hm | hm
  · obtain ⟨x,-,hx⟩ := mem_flatMap.mp hm
    obtain ⟨item,content,-,-,rfl⟩ := mem_addTree.mp hx
    exact cons_ne_nil _ _
  · obtain rfl := mem_singleton.mp hm
    exact cons_ne_nil _ _

/-- An archive restores what it was made of. -/
theorem restore_archived (codec : Codec C B) (config : Config C) (disk : Disk B) {empty : Disk B}
    (hempty : Emptied empty dir) :
    ∃ restored, restoreOpenpine codec (some (archived codec config disk)) dir empty = (.ok (), restored) ∧
      (∀ m ∈ archived codec config disk, restored.read? (dir ++ m.arcname) = some m.content) ∧
      ∀ q, (∀ m ∈ archived codec config disk, q ≠ dir ++ m.arcname) → restored.read? q = empty.read? q := by
  obtain ⟨made,hmkdir,hsame⟩ := mkdir?_of_emptied hempty
  have hfind : (archived codec config disk).reverse.find? (fun m => m.arcname = manifestName) =
      some ⟨none,manifestName,codec.dumps ⟨config.safeDict,"1.0","openpine.backup.v1"⟩⟩ := by simp [archived]
  have hapart : ((archived codec config disk).map fun m => (dir ++ m.arcname, m.content)).Pairwise
      fun x y => ¬Related x.1 y.1 := by
    refine pairwise_map.mpr ((archived_pairwise codec config disk).imp fun hne hrel => hne ?_)
    exact Related.append_left_iff.mp hrel
  have hroom : ∀ x ∈ (archived codec config disk).map fun m => (dir ++ m.arcname, m.content), made.room x.1 := by
    intro x hx
    obtain ⟨m,hm,rfl⟩ := mem_map.mp hx
    exact room_of_emptied hempty hmkdir (arcname_ne_nil hm)
  obtain ⟨restored,hall,hmembers,hother⟩ := Disk.writeAll_of_room hapart hroom
  refine ⟨restored,?_,fun m hm => ?_,fun q hq => ?_⟩
  · simp only [restoreOpenpine, hmkdir, hfind, codec.readSchema_dumps, hall, ne_eq, not_true_eq_false, ↓reduceIte]
  · exact hmembers _ (mem_map_of_mem hm)
  · rw [hother q, hsame]
    rintro hmem
    obtain ⟨x,hx,rfl⟩ := mem_map.mp hmem
    obtain ⟨m,hm,rfl⟩ := mem_map.mp hx
    exact hq m hm rfl

end Archive

/-- What a restore must give: each file of the three trees is back at its path with its
content, and of none is there a copy under another name. -/
structure RoundTrip (dataDir : Path) (before : Disk B) (archive : Archive B) (restored : Disk B) : Prop where
  back : ∀ name ∈ treeNames, ∀ rel content, before.read? (dataDir ++ name :: rel) = some content →
    restored.read? (dataDir ++ name :: rel) = some content
  alone : ∀ name ∈ treeNames, ∀ rel, ∀ m ∈ archive, m.source = some (dataDir ++ name :: rel) → m.arcname = name :: rel

section Trees
variable {codec : Codec C B} {config : Config C} {disk : Disk B} {name : String} {rel : Path} {content : B}

theorem mem_archived_of_tree (hname : name ∈ treeNames)
    (hread : disk.read? (config.dataDir ++ name :: rel) = some content) :
    ⟨some (config.dataDir ++ name :: rel),name :: name :: rel,content⟩ ∈ archived codec config disk := by
  refine mem_append_left _ (mem_flatMap.mpr ⟨(name, config.dataDir ++ [name]),?_,mem_addTree.mpr ?_⟩)
  · exact mem_append_right _ (mem_map_of_mem hname)
  · refine ⟨_,_,hread,?_,?_⟩
    · exact (prefix_append_right_inj _).mpr (cons_prefix_cons.mpr ⟨rfl, nil_prefix⟩)
    · simp [relativeTo, parent]

theorem path_of_tree {path : Path} (h : (name, path) ∈ dirsToBackup config) (hname : name ∈ treeNames) :
    path = config.dataDir ++ [name] := by
  rcases mem_append.mp h with h | h
  · have hnot : name ≠ "sqlite" ∧ name ≠ "duckdb" := by
      simp only [treeNames, mem_cons, not_mem_nil, or_false] at hname
      rcases hname with rfl | rfl | rfl <;> decide
    simp [hnot.1, hnot.2] at h
  · obtain ⟨name',-,heq⟩ := mem_map.mp h
    obtain ⟨rfl,rfl⟩ := Prod.mk.inj heq
    rfl

theorem tree_of_mem_archived (hm : m ∈ archived codec config disk) (hname : name ∈ treeNames)
    (harc : m.arcname = name :: rel) :
    ∃ rel' content, rel = name :: rel' ∧ disk.read? (config.dataDir ++ name :: rel') = some content := by
  rcases mem_append.mp hm with hm | hm
  · obtain ⟨⟨first,path⟩,hx,hmx⟩ := mem_flatMap.mp hm
    obtain ⟨item,content,hread,hpath,rfl⟩ := mem_addTree.mp hmx
    obtain ⟨rfl,rfl⟩ := List.cons.inj harc
    obtain rfl := path_of_tree hx hname
    obtain ⟨rel',rfl⟩ := hpath
    refine ⟨rel',content,?_,?_⟩
    · simp [relativeTo, parent]
    · simpa using hread
  · obtain rfl := mem_singleton.mp hm
    obtain ⟨rfl,-⟩ := List.cons.inj harc
    exact absurd hname (by decide)

end Trees

/-- A backup that is restored into the emptied data directory is extracted without a failure.
Each file of the three trees then stands in a directory with the name of its tree below the
tree, so that the round trip succeeds exactly if the trees hold no file. -/
theorem backup_round_trip_iff {codec : Codec C B} {checkpointSqlite : Path → Disk B → Except String (Disk B)}
    {config : Config C} {disk disk' : Disk B} {archive : Archive B} {backedUp : List Path}
    (hbackup : backupOpenpine codec checkpointSqlite config disk = .ok (archive, backedUp, disk'))
    {empty : Disk B} (hempty : Emptied empty config.dataDir) :
    ∃ restored, restoreOpenpine codec (some archive) config.dataDir empty = (.ok (), restored) ∧
      (∀ name ∈ treeNames, ∀ rel content, disk'.read? (config.dataDir ++ name :: rel) = some content →
        restored.read? (config.dataDir ++ name :: name :: rel) = some content) ∧
      (RoundTrip config.dataDir disk' archive restored ↔
        ∀ name ∈ treeNames, ∀ rel, disk'.read? (config.dataDir ++ name :: rel) = none) := by
  obtain rfl := archive_eq hbackup
  obtain ⟨restored,hrestore,hmembers,hother⟩ := restore_archived codec config disk' hempty
  refine ⟨restored,hrestore,fun name hname rel content hread => ?_,fun htrip => ?_,fun hnone => ⟨?_,?_⟩⟩
  · exact hmembers _ (mem_archived_of_tree hname hread)
  · -- a file of least depth in its tree stands where no member is extracted
    intro name hname rel
    induction hlength : rel.length using Nat.strong_induction_on generalizing rel with
    | _ n ih =>
      cases hread : disk'.read? (config.dataDir ++ name :: rel) with
      | none => rfl
      | some content =>
        have hback := htrip.back name hname rel content hread
        by_cases hmember : ∃ m ∈ archived codec config disk', config.dataDir ++
          name :: rel = config.dataDir ++ m.arcname
        · obtain ⟨m,hm,heq⟩ := hmember
          obtain ⟨rel',content',rfl,hread'⟩ := tree_of_mem_archived hm hname (append_cancel_left heq).symm
          have hless : rel'.length < n := by rw [← hlength]; exact Nat.lt_succ_self _
          rw [ih _ hless rel' rfl] at hread'
          cases hread'
        · have hempty' : restored.read? (config.dataDir ++ name :: rel) = empty.read? (config.dataDir ++ name :: rel) :=
            hother _ fun m hm heq => hmember ⟨m,hm,heq⟩
          rw [hempty'] at hback
          have hrow := Disk.read?_eq_some.mp hback
          exact absurd (.inl (prefix_append _ _)) (hempty.1 _ hrow)
  · intro name hname rel content hread
    rw [hnone name hname rel] at hread
    cases hread
  · intro name hname rel m hm hsource
    rcases mem_append.mp hm with hm | hm
    · obtain ⟨x,-,hx⟩ := mem_flatMap.mp hm
      obtain ⟨item,content,hread,-,rfl⟩ := mem_addTree.mp hx
      obtain rfl := Option.some.inj hsource
      rw [hnone name hname rel] at hread
      cases hread
    · obtain rfl := mem_singleton.mp hm
      cases hsource

section Instance

def schemaCodec : Codec Unit String := ⟨fun m => m.schema,.ok,fun _ => rfl⟩

def small : Config Unit := ⟨["data"],["openpine.sqlite"],["openpine.duckdb"],["config.yaml"],()⟩

def holding (path : Path) (content : String) (h : path ≠ []) : Disk String where
  files := ⟨[(path, content)],List.nodup_singleton _⟩
  directories := []
  root := by simp [h]
  leaf := by simp
  apart := by simp

def blank : Disk String := ⟨.empty,[],by simp,by simp,by simp⟩

theorem blank_emptied : Emptied blank ["data"] := ⟨by simp [blank],by simp [blank]⟩

theorem database_round_trip : ∃ archive backedUp restored,
    backupOpenpine schemaCodec (fun _ disk => .ok disk) small (holding ["openpine.duckdb"] "rows" (by simp)) =
        .ok (archive, backedUp, holding ["openpine.duckdb"] "rows" (by simp)) ∧
      restoreOpenpine schemaCodec (some archive) ["data"] blank = (.ok (), restored) ∧
      RoundTrip ["data"] (holding ["openpine.duckdb"] "rows" (by simp)) archive restored := by
  have hbackup : ∃ archive backedUp, backupOpenpine schemaCodec (fun _ disk => .ok disk) small
      (holding ["openpine.duckdb"] "rows" (by simp)) =
        .ok (archive, backedUp, holding ["openpine.duckdb"] "rows" (by simp)) :=
    ⟨_,_,rfl⟩
  obtain ⟨archive,backedUp,hbackup⟩ := hbackup
  obtain ⟨restored,hrestore,-,hiff⟩ := backup_round_trip_iff hbackup blank_emptied
  refine ⟨archive,backedUp,restored,hbackup,hrestore,hiff.mpr fun name _ rel => ?_⟩
  rfl

/-- A file of the artifacts is restored one level too deep. -/
theorem artifact_misplaced : ∃ archive backedUp restored,
    backupOpenpine schemaCodec (fun _ disk => .ok disk) small (holding ["data", "artifacts", "a.py"] "code" (by simp)) =
        .ok (archive, backedUp, holding ["data", "artifacts", "a.py"] "code" (by simp)) ∧
      restoreOpenpine schemaCodec (some archive) ["data"] blank = (.ok (), restored) ∧
      restored.read? ["data", "artifacts", "a.py"] = none ∧
      restored.read? ["data", "artifacts", "artifacts", "a.py"] = some "code" := ⟨_,_,_,rfl,rfl,rfl,rfl⟩

end Instance

end OpenPine.Storage.Backup
