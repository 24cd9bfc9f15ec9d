import Argus.Base.Fallible
import Argus.Base.Sha256
import Argus.Base.Sorting
import Argus.Base.Strings

/-!
# Migration files

`Load` reads the files of a build. A list that it returns is numbered from 1 without a gap, every
migration has the SHA-256 of its text as its checksum, and its flag says whether the comments before
the first statement declare it breaking.
-/

namespace Argus.Migrations

/-- `Migration`. -/
structure Migration where
  version : ℕ
  name : String
  sql : String
  checksum : String
  /-- older builds cannot run against it -/
  breaking : Bool
deriving DecidableEq, Repr

/-- `%04d`. -/
def fourDigits (n : ℕ) : String :=
  let digits := Nat.toDigits 10 n
  String.ofList (List.replicate (4 - digits.length) '0' ++ digits)

/-- `%04d_%s`. -/
def numbered (version : ℕ) (name : String) : String := fourDigits version ++ "_" ++ name

def Migration.label (m : Migration) : String := numbered m.version m.name

/-- An entry of the directory. -/
structure Entry where
  name : String
  isDir : Bool
  /-- what reading it gives -/
  body : Except String String
deriving DecidableEq

/-- Why `Load` refuses. -/
inductive LoadError where
  | list (e : String)
  | name (file : String)
  | read (file e : String)
  | gap (m : Migration) (position : ℕ)
  | empty
deriving DecidableEq, Repr

/-- `quote` is the `%q` verb. -/
def LoadError.message (quote : String → String) : LoadError → String
  | list e => "list migrations: " ++ e
  | name file => "migration file " ++ quote file ++ " does not match NNNN_name.sql"
  | read file e => "read migration " ++ file ++ ": " ++ e
  | gap m position => "migration versions must be contiguous from 0001: found " ++ m.label ++
      " at position " ++ toString position
  | empty => "no migrations embedded"

/-! ## Reading a file -/

def isNameChar (c : Char) : Bool := c.isLower || c.isDigit || c == '_'

/-- The version and the name in a file name, `^(\d{4})_([a-z0-9_]+)\.sql$`. -/
def fileName (file : String) : Option (ℕ × String) :=
  let digits := file.toList.take 4
  match file.toList.drop 4 with
  | '_' :: rest =>
    let name := rest.takeWhile isNameChar
    if digits.all Char.isDigit && !name.isEmpty && rest.dropWhile isNameChar == ".sql".toList then
      some (Nat.ofDigitChars 10 digits 0, String.ofList name)
    else none
  | _ => none

/-- The lines of `declares`, up to the first that is no comment. -/
def declaresIn (directive : String) : List String → Bool
  | [] => false
  | line :: lines =>
    let line := Strings.trimSpace line
    if line = "" then declaresIn directive lines
    else if Strings.hasPrefix line "--" then
      let text := Strings.trimSpace (Strings.trimPrefix line "--")
      if text = directive || Strings.hasPrefix text (directive ++ " ") then true
      else declaresIn directive lines
    else false

def declares (body directive : String) : Bool := declaresIn directive (Strings.split body '\n')

def declaresBreaking (body : String) : Bool := declares body "argus:breaking"

/-- The hexadecimal SHA-256 of a file. -/
def checksum (body : String) : String :=
  String.ofList (Sha256.hexText (Sha256.sum256 (Sha256.utf8 body.toList)))

/-- The migration in a file; directories are skipped. -/
def readEntry (entry : Entry) : Except LoadError (Option Migration) :=
  if entry.isDir then .ok none
  else match fileName entry.name with
    | none => .error (.name entry.name)
    | some (version, name) =>
      match entry.body with
      | .error e => .error (.read entry.name e)
      | .ok body => .ok (some ⟨version, name, body, checksum body, declaresBreaking body⟩)

def readEntries : List Entry → Except LoadError (List Migration)
  | [] => .ok []
  | entry :: entries => do
      let m ← readEntry entry
      let rest ← readEntries entries
      return m.toList ++ rest

/-! ## The list -/

/-- The migration at each place has the number of the place. -/
def checkContiguous : ℕ → List Migration → Except LoadError Unit
  | _, [] => .ok ()
  | position, m :: rest =>
    if m.version = position then checkContiguous (position + 1) rest else .error (.gap m position)

/-- `Load`, from what listing the directory gives. -/
def load (files : Except String (List Entry)) : Except LoadError (List Migration) :=
  match files with
  | .error e => .error (.list e)
  | .ok entries => do
      let read ← readEntries entries
      let out := Sorting.stableSort (fun m m' => decide (m.version < m'.version)) read
      checkContiguous 1 out
      if out = [] then .error .empty else .ok out

/-! ## What is loaded -/

/-- A list of migrations as `Load` produces it. -/
structure Loaded (all : List Migration) : Prop where
  versions : all.map (·.version) = List.range' 1 all.length
  checksums : ∀ m ∈ all, m.checksum = checksum m.sql
  flags : ∀ m ∈ all, m.breaking = declaresBreaking m.sql

theorem length_checksum (body : String) : (checksum body).length = 64 := by
  rw [checksum, String.length_ofList, Sha256.length_hexText, Sha256.length_sum256]

theorem of_readEntry {entry : Entry} {m : Migration} (h : readEntry entry = .ok (some m)) :
    m.checksum = checksum m.sql ∧ m.breaking = declaresBreaking m.sql := by
  unfold readEntry at h
  split at h
  · cases h
  · split at h
    · cases h
    · split at h
      · cases h
      · obtain rfl := Option.some.inj (Except.ok.inj h)
        exact ⟨rfl, rfl⟩

theorem of_mem_readEntries {entries : List Entry} {read : List Migration}
    (h : readEntries entries = .ok read) :
    ∀ m ∈ read, m.checksum = checksum m.sql ∧ m.breaking = declaresBreaking m.sql := by
  induction entries generalizing read with
  | nil =>
    cases h
    simp
  | cons entry entries ih =>
    obtain ⟨m?, hentry, h⟩ := exists_of_bind_eq_ok h
    obtain ⟨rest, hrest, h⟩ := exists_of_bind_eq_ok h
    obtain rfl := Except.ok.inj h
    intro m hm
    rcases List.mem_append.mp hm with hm | hm
    · obtain rfl := Option.mem_toList.mp hm
      exact of_readEntry hentry
    · exact ih hrest m hm

theorem versions_of_checkContiguous {position : ℕ} {all : List Migration}
    (h : checkContiguous position all = .ok ()) :
    all.map (·.version) = List.range' position all.length := by
  induction all generalizing position with
  | nil => rfl
  | cons m rest ih =>
    rw [checkContiguous] at h
    split at h
    · rename_i hversion
      rw [List.map_cons, List.length_cons, List.range'_succ, hversion, ih h]
    · cases h

theorem loaded_of_load {files : Except String (List Entry)} {all : List Migration}
    (h : load files = .ok all) : Loaded all := by
  unfold load at h
  split at h
  · cases h
  · obtain ⟨read, hread, h⟩ := exists_of_bind_eq_ok h
    obtain ⟨⟨⟩, hcontiguous, h⟩ := exists_of_bind_eq_ok h
    split at h
    · cases h
    · obtain rfl := Except.ok.inj h
      have hfiles := of_mem_readEntries hread
      refine ⟨versions_of_checkContiguous hcontiguous, fun m hm => ?_, fun m hm => ?_⟩
      · exact (hfiles m (Sorting.mem_stableSort.mp hm)).1
      · exact (hfiles m (Sorting.mem_stableSort.mp hm)).2

namespace Loaded

variable {all : List Migration}

theorem nodup (h : Loaded all) : (all.map (·.version)).Nodup := by
  rw [h.versions]
  exact List.nodup_range'

theorem length_checksum (h : Loaded all) {m : Migration} (hm : m ∈ all) :
    m.checksum.length = 64 := by
  rw [h.checksums m hm, Migrations.length_checksum]

end Loaded

example : fileName "0002_remediation_dispatches.sql" = some (2, "remediation_dispatches") := by
  decide +kernel

example : declaresBreaking "-- Drops y.\n-- argus:breaking\nALTER TABLE x DROP y;" = true := by
  decide +kernel

end Argus.Migrations
