import Argus.Audit.Migration
import Argus.Base.Interleave
import Argus.Migrations.Load

/-!
# Starting against a schema

`Run` of the package `db`: a process that starts takes the migration lock on a connection of its
own, compares `schema_migrations` with the migrations of its build, and either applies what is
missing, each migration in a transaction with its row, or only says whether anything is. Any number
of processes of different builds run at the same time; connections can break and processes can die
between any two statements.

A migration's SQL is opaque: the schema is the list of the migrations whose SQL has been committed.
-/

namespace Argus.Migrations

open SortedAssoc (KeyOrder)

/-! ## The database -/

/-- A row of `schema_migrations`. -/
structure Row where
  version : ℕ
  name : String
  checksum : String
  breaking : Bool
deriving DecidableEq, Repr

def Migration.row (m : Migration) : Row := ⟨m.version, m.name, m.checksum, m.breaking⟩

/-- `schema_migrations`, with its primary key. -/
structure Table where
  /-- the second statement has added the column `breaking` -/
  breakingColumn : Bool
  rows : List Row
  nodup : (rows.map (·.version)).Nodup

structure Database where
  table : Option Table
  /-- the migrations whose SQL has been committed, in order -/
  committed : List Migration

namespace Database

def empty : Database := ⟨none, []⟩

def rows (db : Database) : List Row := db.table.elim [] Table.rows

/-- `CREATE TABLE IF NOT EXISTS schema_migrations`. -/
def createTable (db : Database) : Database :=
  { db with table := db.table <|> some ⟨false, [], List.nodup_nil⟩ }

/-- `ALTER TABLE schema_migrations ADD COLUMN IF NOT EXISTS breaking ... DEFAULT false`. -/
def addBreaking (db : Database) : Except String Database :=
  match db.table with
  | none => .error "relation \"schema_migrations\" does not exist"
  | some t =>
    if t.breakingColumn then .ok db
    else
      let table : Table :=
        { breakingColumn := true
          rows := t.rows.map fun r => { r with breaking := false }
          nodup := by rw [List.map_map]; exact t.nodup }
      .ok { db with table := some table }

/-- A value in a column of type `CHAR(64)`: padded with blanks, and only blanks beyond. -/
def char64 (s : String) : Option String :=
  if s.length ≤ 64 then some (s ++ String.ofList (List.replicate (64 - s.length) ' '))
  else if (s.toList.drop 64).all (· == ' ') then some (String.ofList (s.toList.take 64))
  else none

/-- The table after `INSERT INTO schema_migrations`. -/
def insert (db : Database) (m : Migration) : Except String Table :=
  match db.table with
  | none => .error "relation \"schema_migrations\" does not exist"
  | some t =>
    if t.breakingColumn then
      match char64 m.checksum with
      | none => .error "value too long for type character(64)"
      | some checksum =>
        if h : m.version ∈ t.rows.map (·.version) then
          .error "duplicate key value violates unique constraint \"schema_migrations_pkey\""
        else .ok
          { breakingColumn := true
            rows := t.rows ++ [⟨m.version, m.name, checksum, m.breaking⟩]
            nodup := by
              rw [List.map_append, List.map_singleton, List.nodup_append]
              refine ⟨t.nodup, List.nodup_singleton _, ?_⟩
              rintro a ha b hb rfl
              obtain rfl : a = m.version := List.mem_singleton.mp hb
              exact h ha }
    else .error "column \"breaking\" of relation \"schema_migrations\" does not exist"

/-- The rows as `to_jsonb` gives them: without the column a row reads as not breaking. -/
def read (t : Table) : List Row :=
  if t.breakingColumn then t.rows else t.rows.map fun r => { r with breaking := false }

end Database

/-! ## Comparing a build with the database -/

/-- `Mode`. -/
inductive Mode where
  | apply
  | verify
deriving DecidableEq, Repr

/-- `Report`. -/
structure Report where
  applied : List Migration := []
  newer : List ℕ := []
deriving DecidableEq, Repr

/-- What `Run` fails with. -/
inductive RunError where
  | embedded (e : LoadError)
  /-- a statement failed -/
  | statement (context e : String)
  /-- `ErrMigrationModified` -/
  | modified (m : Migration) (recorded : String)
  /-- `ErrSchemaNewer` -/
  | newer (breaking : List String) (known : ℕ)
  /-- `ErrSchemaBehind` -/
  | behind (pending : ℕ) (first : Migration)
  | ledger (e : Audit.MigrateError)

def errSchemaNewer : String := "database schema has a breaking migration newer than this build"

def errSchemaBehind : String := "database schema is behind this build"

def errMigrationModified : String := "applied migration was modified"

/-- The text of an error; `quote` is the `%q` verb, `ledgerText` the text of an error of the ledger.
-/
def RunError.message (quote : String → String) (ledgerText : Audit.MigrateError → String) :
    RunError → String
  | embedded e => e.message quote
  | statement context e => context ++ ": " ++ e
  | modified m recorded => errMigrationModified ++ ": " ++ m.label ++ " checksum " ++ m.checksum ++
      ", database recorded " ++ recorded
  | newer breaking known => errSchemaNewer ++ ": [" ++ " ".intercalate breaking ++
      "] applied, this build knows up to " ++ fourDigits known ++
      "; deploy a build that includes them"
  | behind pending first => errSchemaBehind ++ ": " ++ toString pending ++
      " migration(s) pending, first " ++ first.label ++ "; run `argus-api migrate`"
  | ledger e => "migrate tamper-evident audit ledger: " ++ ledgerText e

/-- The map of a build's migrations by version; the last one of a version stays. -/
def known (set : List Migration) (version : ℕ) : Option Migration :=
  set.reverse.find? (·.version == version)

/-- The loop over the applied versions: those unknown, and which of them are breaking. -/
def compare (set : List Migration) :
    List Row → Report → List String → Report × Except RunError (List String)
  | [], report, breaking => (report, .ok breaking)
  | row :: rows, report, breaking =>
    match known set row.version with
    | none =>
      compare set rows { report with newer := report.newer ++ [row.version] }
        (if row.breaking then breaking ++ [numbered row.version row.name] else breaking)
    | some m =>
      if row.checksum ≠ m.checksum then (report, .error (.modified m row.checksum))
      else compare set rows report breaking

/-- The applied migrations by ascending version. -/
def ordered (applied : List Row) : List Row :=
  Sorting.stableSort (fun r r' => decide (r.version < r'.version)) applied

/-- The migrations that are not applied yet. -/
def pending (set : List Migration) (applied : List Row) : List Migration :=
  set.filter fun m => !applied.any (·.version == m.version)

/-- What a build does with the migrations it finds: the pending ones, or an error. -/
def judge (mode : Mode) (set : List Migration) (applied : List Row) :
    Report × Except RunError (List Migration) :=
  match compare set (ordered applied) {} [] with
  | (report, .error e) => (report, .error e)
  | (report, .ok breaking) =>
    if breaking ≠ [] then (report, .error (.newer breaking set.length))
    else match mode, pending set applied with
      | .verify, first :: rest => (report, .error (.behind (rest.length + 1) first))
      | _, missing => (report, .ok missing)

/-! ## Shared state -/

structure Shared where
  db : Database
  ledger : Audit.Database
  /-- the session that holds the migration lock -/
  exclusive : Option ℕ
  /-- the sessions that hold it in shared mode -/
  sharing : List ℕ
  /-- the sessions that have ended -/
  ended : List ℕ
  /-- history: the rows that were there when a run looked -/
  found : ℕ → Option (List Row)
  /-- history: what a run has committed -/
  applied : ℕ → List Migration

def Shared.initial (ledger : Audit.Database) : Shared :=
  ⟨.empty, ledger, none, [], [], fun _ => none, fun _ => []⟩

namespace Shared

/-- The end of a session releases its locks. -/
def endSession (s : Shared) (i : ℕ) : Shared :=
  { s with
    exclusive := if s.exclusive = some i then none else s.exclusive
    sharing := s.sharing.filter (· ≠ i)
    ended := i :: s.ended }

/-- `pg_advisory_lock` or `pg_advisory_lock_shared`; nothing while it waits. -/
def lock (s : Shared) (mode : Mode) (i : ℕ) : Option Shared :=
  match mode with
  | .apply =>
    if s.exclusive = none ∧ s.sharing = [] then some { s with exclusive := some i } else none
  | .verify => if s.exclusive = none then some { s with sharing := i :: s.sharing } else none

/-- `pg_advisory_unlock` or `pg_advisory_unlock_shared`. -/
def unlock (s : Shared) (mode : Mode) (i : ℕ) : Shared :=
  match mode with
  | .apply => { s with exclusive := if s.exclusive = some i then none else s.exclusive }
  | .verify => { s with sharing := s.sharing.filter (· ≠ i) }

/-- The run holds the migration lock. -/
def Holds (s : Shared) (i : ℕ) : Prop := s.exclusive = some i ∨ i ∈ s.sharing

end Shared

/-! ## Programs -/

/-- A call of `Run`: its mode, the set it is given, and the files that its build embeds. -/
structure Call where
  mode : Mode
  set : Option (List Migration)
  files : Except String (List Entry)

/-- The migrations of a call; a nil set means the embedded ones. -/
def Call.migrations (c : Call) : Except LoadError (List Migration) :=
  match c.set with
  | some set => .ok set
  | none => load c.files

/-- The statements of a run. -/
inductive Label where
  | connect
  | lock (mode : Mode)
  | createTable
  | addBreaking
  | inspect (set : List Migration)
  | read
  | begin (m : Migration)
  | exec (m : Migration)
  | insert (m : Migration)
  | commit (m : Migration)
  | ledger
  | unlock (mode : Mode)

/-- How a statement goes: it is done, it fails, or it is done and the answer is lost. -/
inductive Outcome where
  | done
  | failed (e : String)
  | lost (e : String)

abbrev Program (α : Type) := Interleave.Prog Call Label Outcome Shared α

abbrev Answer := Report × Option RunError

/-- A statement on the connection of process `i`; every one fails once the session has ended. -/
def statement {β : Type} (i : ℕ) (l : Label) (act : Shared → Option (Except String β × Shared)) :
    Program (Except String β) :=
  .perform l fun o s =>
    if i ∈ s.ended then some (.error "driver: bad connection", s)
    else match o with
      | .failed e => some (.error e, s)
      | .done => act s
      | .lost e => (act s).map fun r => (.error e, r.2)

/-- A statement whose failure is reported with a context. -/
def checked {β : Type} (i : ℕ) (l : Label) (context : String)
    (act : Shared → Option (Except String β × Shared)) : Program (Except RunError β) := do
  match ← statement i l act with
  | .error e => return .error (.statement context e)
  | .ok b => return .ok b

/-- The statements that make sure of `schema_migrations`. -/
def prepare (i : ℕ) : Program (Except RunError Unit) := do
  match ← checked i .createTable "prepare schema_migrations"
      fun s => some (.ok (), { s with db := s.db.createTable }) with
  | .error e => return .error e
  | .ok () =>
  checked i .addBreaking "prepare schema_migrations" fun s =>
    match s.db.addBreaking with
    | .error e => some (.error e, s)
    | .ok db => some (.ok (), { s with db := db })

/-- `appliedMigrations`; a missing table means that nothing is applied. -/
def appliedMigrations (i : ℕ) (set : List Migration) : Program (Except RunError (List Row)) := do
  match ← checked i (.inspect set) "inspect schema_migrations" fun s =>
      some (.ok s.db.table.isSome,
        { s with found := Function.update s.found i (some s.db.rows) }) with
  | .error e => return .error e
  | .ok false => return .ok []
  | .ok true =>
  checked i .read "read schema_migrations" fun s =>
    match s.db.table with
    | none => some (.error "relation \"schema_migrations\" does not exist", s)
    | some t => some (.ok (Database.read t), s)

/-- `applyOne`: the SQL and the row become visible together, when the transaction commits. -/
def applyOne (i : ℕ) (m : Migration) : Program (Except RunError Unit) := do
  match ← checked i (.begin m) ("begin migration " ++ m.label) fun s => some (.ok (), s) with
  | .error e => return .error e
  | .ok () =>
  match ← checked i (.exec m) ("apply migration " ++ m.label) fun s => some (.ok (), s) with
  | .error e => return .error e
  | .ok () =>
  match ← checked i (.insert m) ("record migration " ++ m.label) fun s =>
      some ((s.db.insert m).map fun _ => (), s) with
  | .error e => return .error e
  | .ok () =>
  checked i (.commit m) ("commit migration " ++ m.label) fun s =>
    match s.db.insert m with
    | .error e => some (.error e, s)
    | .ok table => some (.ok (), { s with
        db := ⟨some table, s.db.committed ++ [m]⟩
        applied := Function.update s.applied i (s.applied i ++ [m]) })

/-- The pending migrations in order, up to the first that fails. -/
def applyAll (i : ℕ) : List Migration → Report → Program Answer
  | [], report => return (report, none)
  | m :: rest, report => do
      match ← applyOne i m with
      | .error e => return (report, some e)
      | .ok () => applyAll i rest { report with applied := report.applied ++ [m] }

/-- `audit.MigrateLedger`, on a connection of its own. -/
def migrateLedger (collation : KeyOrder String) : Program (Option RunError) :=
  .perform .ledger fun o s =>
    match o with
    | .failed e => some (some (.statement "migrate tamper-evident audit ledger" e), s)
    | .done =>
      let (e, ledger) := Audit.migrateLedger collation s.ledger
      some (e.map .ledger, { s with ledger := ledger })
    | .lost e =>
      some (some (.statement "migrate tamper-evident audit ledger" e),
        { s with ledger := (Audit.migrateLedger collation s.ledger).2 })

/-- What a run does once it holds the lock. -/
def locked (collation : KeyOrder String) (i : ℕ) (mode : Mode) (set : List Migration) :
    Program Answer := do
  match ← (match mode with | .apply => prepare i | .verify => pure (.ok ())) with
  | .error e => return ({}, some e)
  | .ok () =>
  match ← appliedMigrations i set with
  | .error e => return ({}, some e)
  | .ok applied =>
  match judge mode set applied, mode with
  | (report, .error e), _ => return (report, some e)
  | (report, .ok _), .verify => return (report, none)
  | (report, .ok missing), .apply =>
  match ← applyAll i missing report with
  | (report, some e) => return (report, some e)
  | (report, none) => return (report, ← migrateLedger collation)

/-- `Run`. -/
def run (collation : KeyOrder String) (i : ℕ) (c : Call) : Program Answer :=
  match c.migrations with
  | .error e => return ({}, some (.embedded e))
  | .ok set => do
      match ← checked i .connect "reserve migration connection" fun s =>
          some (.ok (), { s with applied := Function.update s.applied i [] }) with
      | .error e => return ({}, some e)
      | .ok () =>
      match ← checked i (.lock c.mode) "acquire migration lock" fun s =>
          (s.lock c.mode i).map fun s' => (.ok (), s') with
      | .error e => return ({}, some e)
      | .ok () =>
      let answer ← locked collation i c.mode set
      let _ ← statement i (.unlock c.mode) fun s => some (.ok (), s.unlock c.mode i)
      return answer

/-! ## The system -/

/-- What happens by itself: a connection breaks. -/
inductive Fault where
  | disconnect (i : ℕ)

/-- The processes that start against one database. The death of a process ends its session. -/
def starting (collation : KeyOrder String) :
    Interleave.System Call Label Outcome Fault Shared Answer where
  program := run collation
  external _ := true
  environment := fun | .disconnect i, s => some (s.endSession i)
  crash i s := s.endSession i

abbrev World := Interleave.World Call Label Outcome Shared Answer

abbrev Event := Interleave.Event Call Outcome Fault

end Argus.Migrations
