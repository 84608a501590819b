import Mathlib.Data.List.Sort
import OpenPine.Storage.SQLiteStorage

/-! # The migrations of the schema

`MigrationRunner.run_migrations` goes through the migration files in order. A file that is not
recorded in `schema_migrations` is run as a script and recorded, both under
`storage.transaction()`. The script commits by itself, statement by statement, and only the
record is part of a transaction: what the block rolls back when it raises is the record.
-/
namespace OpenPine.Storage.Migrations
open Hoare Sqlite SQLiteStorage List
variable {S : Type}

structure Migration where
  version : String
  appliedAt : ℤ
  (description checksum : String)
  id : ℕ
  name : String
deriving DecidableEq

/-- The tables other than `schema_migrations`, and this one if it exists. -/
structure Database (S : Type) where
  schema : S
  schemaMigrations : Option (List Migration) := none
deriving DecidableEq

abbrev Statement (S : Type) := Database S → Except String (Database S)

/-- The text of a script, and its statements as the parser of SQLite finds them. -/
structure Script (S : Type) where
  sql : String
  statements : List (Statement S)

structure MigrationFile (S : Type) where
  order : ℕ
  name : String
  script : Script S

structure Entry (S : Type) where
  fileName : String
  isFile : Bool
  script : Script S

/-- What the runner calls: the digest, the look at the columns of `strategy_instances`, and
the normalizers of `schema_compat`. They commit the schema that they end with. Those of the
achievements catch what they raise, but `ensure_events_compat_schema` does not: then there are
the schema it has stored and that of a transaction it has left open. -/
structure Environment (S : Type) where
  sha256 : String → String
  hasSemanticProfile : S → Bool
  ensureSchemaCompatibility : S → Except (String × S × Option S) S

structure Faults where
  readText : Option String := none
  statement : ℕ → Option String := fun _ => none
  insert : Option (Fault String) := none
  commit : Option (Fault String) := none

namespace MigrationFile

def version (f : MigrationFile S) : String :=
  let digits := toString f.order
  .ofList (List.replicate (3 - digits.length) '0') ++ digits

def description (f : MigrationFile S) : String := f.name.map fun c => if c = '_' then ' ' else c

def row (e : Environment S) (now : ℕ → ℤ) (f : MigrationFile S) : Migration where
  version := f.version
  appliedAt := now f.order
  description := f.description
  checksum := e.sha256 f.script.sql
  id := f.order
  name := f.name

/-- `_schema_already_satisfies_migration` -/
def alreadySatisfied (e : Environment S) (f : MigrationFile S) (schema : S) : Bool :=
  f.version = "020" ∧ f.name = "strategy_semantic_profile" ∧ e.hasSemanticProfile schema

/-- The statements of the script, those that fail for an outside reason included. -/
def statements (faults : Faults) (f : MigrationFile S) : List (Statement S) :=
  f.script.statements.mapIdx fun i statement db =>
    match faults.statement i with
    | some text => .error text
    | none => statement db

end MigrationFile

/-- `INSERT INTO schema_migrations`, whose version, id and name are unique. -/
def recorded (row : Migration) (db : Database S) : Except String (Database S) :=
  match db.schemaMigrations with
  | none => .error "no such table: schema_migrations"
  | some rows =>
    if row.version ∈ rows.map Migration.version then .error "UNIQUE constraint failed: schema_migrations.version"
    else if row.id ∈ rows.map Migration.id then .error "UNIQUE constraint failed: schema_migrations.id"
    else if row.name ∈ rows.map Migration.name then .error "UNIQUE constraint failed: schema_migrations.name"
    else .ok { db with schemaMigrations := some (rows ++ [row]) }

/-- `applied_versions` and `applied_names` -/
structure Applied where
  (versions names : List String)

namespace Applied

def has (applied : Applied) (f : MigrationFile S) : Prop := f.version ∈ applied.versions ∨ f.name ∈ applied.names

instance (applied : Applied) (f : MigrationFile S) : Decidable (applied.has f) := inferInstanceAs (Decidable (_ ∨ _))

def add (applied : Applied) (f : MigrationFile S) : Applied := ⟨f.version :: applied.versions,f.name :: applied.names⟩

end Applied

def appliedRows (db : Database S) : List Migration := db.schemaMigrations.getD []

/-- What the table lists. -/
def Database.applied (db : Database S) : Applied :=
  ⟨(appliedRows db).map Migration.version,(appliedRows db).map Migration.name⟩

def normalized (e : Environment S) (db : Database S) : Except (String × Connection (Database S)) (Database S) :=
  match e.ensureSchemaCompatibility db.schema with
  | .ok schema => .ok { db with schema := schema }
  | .error (text, schema, pending) =>
    .error (text, ⟨{ db with schema := schema },pending.map fun schema => { db with schema := schema }⟩)

/-- The normalizers, called where there is no transaction. -/
def ensureSchemaCompatibility (e : Environment S) : Method (Database S) Unit := do
  let c ← get
  match normalized e c.view with
  | .ok db => set (⟨db,none⟩ : Connection (Database S))
  | .error (text, left) => do
    set left
    throw (.exception text)

section Whole
variable (e : Environment S) (now : ℕ → ℤ)

/-- What the script of a file does, unless the schema satisfies the migration already: how it
ends, and the database that it leaves. -/
def runFile (faults : Faults) (f : MigrationFile S) (db : Database S) : Except String Unit × Database S :=
  if f.alreadySatisfied e db.schema then (.ok (), db) else Connection.runScript (f.statements faults) db

def migrated (faults : Faults) (f : MigrationFile S) (db : Database S) : Except String (Database S) :=
  match faults.readText with
  | some text => .error text
  | none =>
    match runFile e faults f db with
    | (.error text, _) => .error text
    | (.ok _, db₁) =>
      match faults.insert with
      | some fault => .error fault.error
      | none =>
        match recorded (f.row e now) db₁ with
        | .error text => .error text
        | .ok db' =>
          match faults.commit with
          | some fault => .error fault.error
          | none => .ok db'

/-- How a run over files ends: with the names it has applied, or at a file whose migration
raises, on the database that the files before it have made. -/
inductive Outcome (S : Type)
  | finished (names : List String) (db : Database S)
  | failed (db : Database S) (f : MigrationFile S) (text : String)

def Outcome.after (names : List String) : Outcome S → Outcome S
  | .finished names' db => .finished (names ++ names') db
  | .failed db f text => .failed db f text

/-- The files one after the other, each applied as a whole or skipped. -/
def outcome (faults : ℕ → Faults) : List (MigrationFile S) → Applied → Database S → Outcome S
  | [], _, db => .finished [] db
  | f :: rest, applied, db =>
    if applied.has f then outcome faults rest applied db
    else
      match migrated e now (faults f.order) f db with
      | .error text => .failed db f text
      | .ok db' => (outcome faults rest (applied.add f) db').after [f.name]

variable {db db' : Database S} {faults : Faults} {f : MigrationFile S} {names : List String} {applied : Applied}
  {pre rest files : List (MigrationFile S)}

/-- The statement neither reads nor changes `schema_migrations`. -/
def Apart (statement : Statement S) : Prop :=
  ∃ g : S → Except String S, ∀ schema table, statement ⟨schema,table⟩ = (g schema).map fun schema' => ⟨schema',table⟩

def MigrationFile.Apart (f : MigrationFile S) : Prop := ∀ statement ∈ f.script.statements, Migrations.Apart statement

/-- Nothing that the runner does depends on the times in the table. -/
def Migration.erased (row : Migration) : Migration := { row with appliedAt := 0 }

def Database.erased (db : Database S) : Database S :=
  { db with schemaMigrations := db.schemaMigrations.map (List.map Migration.erased) }

def Outcome.erased : Outcome S → Outcome S
  | .finished names db => .finished names db.erased
  | .failed db f text => .failed db.erased f text

end Whole

def create (table : String) (db : Database (List String)) : Except String (Database (List String)) :=
  if table ∈ db.schema then .error ("table " ++ table ++ " already exists")
  else .ok { db with schema := db.schema ++ [table] }

def plain : Environment (List String) := ⟨id,fun tables => "strategy_instances" ∈ tables,.ok⟩

end OpenPine.Storage.Migrations
