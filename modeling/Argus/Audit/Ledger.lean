import Argus.Audit.Chain
import Mathlib.Data.List.Sort

/-!
# The audit ledger

`internal/audit/service.go`: `WriteTx` appends a row behind the persisted head, `Verify` walks the
rows in chain order. A ledger verifies exactly when its rows are linked from the genesis hash to the
head hash and there are as many of them as the head says (`verify_valid_iff`).
-/

namespace Argus.Audit

open Digits (Text)

/-! ## Tables -/

/-- A row of `audit_logs`; the optional columns are nullable. -/
structure Row where
  id : String
  actorID : Option String
  actorType : String
  action : String
  resourceType : String
  resourceID : Option String
  requestID : Option String
  ipAddress : Option String
  beforeState : Option Jsonb
  afterState : Option Jsonb
  metadata : Option Jsonb
  createdAt : ℤ
  chainPosition : ℤ
  previousHash : String
  entryHash : String
  hashVersion : ℤ

/-- The row of `audit_chain_state`. -/
structure ChainState where
  lastPosition : ℤ
  lastHash : String
deriving DecidableEq

structure Ledger where
  rows : List Row
  state : Option ChainState

/-- The ledger that the migration leaves when there are no entries. -/
def Ledger.empty : Ledger := ⟨[], some ⟨0, genesisHash⟩⟩

/-! ## Appending -/

/-- An entry handed to `WriteTx`; `createdAt` is in nanoseconds since the Unix epoch. -/
structure Entry where
  id : String
  actorID : String
  actorType : String
  action : String
  resourceType : String
  resourceID : String
  requestID : String
  ipAddress : String
  beforeState : Option (List (String × Json GoJson.Number))
  afterState : Option (List (String × Json GoJson.Number))
  metadata : Option (List (String × Json GoJson.Number))
  createdAt : ℤ

/-- Go's zero time, 1 January of year 1. -/
def zeroTime : ℤ := -62135596800000000000

inductive WriteError
  | prepareBefore
  | prepareAfter
  | prepareMetadata
  | lockHead
  | hash (e : HashError)
  | insert
deriving DecidableEq, Repr

/-- The columns of an entry with its defaults, the time cut to microseconds. -/
def Entry.columns (entry : Entry) (newID : String) (now : ℤ) : Columns where
  id := if entry.id = "" then newID else entry.id
  actorID := entry.actorID
  actorType := entry.actorType
  action := entry.action
  resourceType := entry.resourceType
  resourceID := entry.resourceID
  requestID := entry.requestID
  ipAddress := entry.ipAddress
  createdAt := (if entry.createdAt = zeroTime then now else entry.createdAt) / 1000

/-- Text that a PostgreSQL text column can hold. -/
def storable (s : String) : Bool := !s.toList.any (· == '\x00')

/-- The row that `INSERT INTO audit_logs` stores, unless a value cannot be stored. -/
def Columns.toRow (c : Columns) (beforeJSON afterJSON metadataJSON : Text) (position : ℤ)
    (previousHash entryHash : String) : Option Row := do
  let before ← Jsonb.ofText beforeJSON
  let after ← Jsonb.ofText afterJSON
  let metadata ← Jsonb.ofText metadataJSON
  if [c.id, c.actorID, c.actorType, c.action, c.resourceType, c.resourceID, c.requestID,
      c.ipAddress].all storable then
    some
      { id := c.id
        actorID := some c.actorID
        actorType := c.actorType
        action := c.action
        resourceType := c.resourceType
        resourceID := some c.resourceID
        requestID := some c.requestID
        ipAddress := some c.ipAddress
        beforeState := some before
        afterState := some after
        metadata := some metadata
        createdAt := c.createdAt
        chainPosition := position
        previousHash := previousHash
        entryHash := entryHash
        hashVersion := hashVersion }
  else none

/-- The primary key and the unique indexes of `audit_logs`. -/
def Ledger.uniqueFor (l : Ledger) (r : Row) : Bool :=
  l.rows.all fun r' => r'.id != r.id && r'.chainPosition != r.chainPosition &&
    r'.entryHash != r.entryHash

/-- `WriteTx`, which holds the lock on the head from its read to its update. `newID` and `now` are
the defaults for a missing id and time. -/
def writeTx (newID : String) (now : ℤ) (entry : Entry) (l : Ledger) : Except WriteError Ledger := do
  let columns := entry.columns newID now
  let beforeJSON ← (canonicalJSON entry.beforeState).elim (.error .prepareBefore) .ok
  let afterJSON ← (canonicalJSON entry.afterState).elim (.error .prepareAfter) .ok
  let metadataJSON ← (canonicalJSON entry.metadata).elim (.error .prepareMetadata) .ok
  let state ← l.state.elim (.error .lockHead) .ok
  let position := state.lastPosition + 1
  let entryHash ← (calculateHash columns position state.lastHash beforeJSON afterJSON
    metadataJSON).mapError .hash
  let row ← (columns.toRow beforeJSON afterJSON metadataJSON position state.lastHash entryHash).elim
    (.error .insert) .ok
  if l.uniqueFor row then .ok ⟨l.rows ++ [row], some ⟨position, entryHash⟩⟩
  else .error .insert

/-! ## Verification -/

structure Verification where
  valid : Bool
  entriesVerified : ℤ
  headPosition : ℤ
  headHash : String
  invalidPosition : ℤ
  expectedHash : String
  actualHash : String
  reason : String
  verifiedAt : ℤ
deriving DecidableEq

inductive VerifyError
  | readHead
  | recompute (position : ℤ) (e : HashError)
deriving DecidableEq, Repr

def invalidReport (report : Verification) (position : ℤ) (reason expected actual : String) :
    Verification :=
  { report with
    valid := false
    invalidPosition := position
    reason := reason
    expectedHash := expected
    actualHash := actual }

/-- The columns as `Verify` selects them, with `NULL` coalesced. -/
def Row.columns (r : Row) : Columns where
  id := r.id
  actorID := r.actorID.getD ""
  actorType := r.actorType
  action := r.action
  resourceType := r.resourceType
  resourceID := r.resourceID.getD ""
  requestID := r.requestID.getD ""
  ipAddress := r.ipAddress.getD ""
  createdAt := r.createdAt

/-- A JSON column as `Verify` selects it. -/
def jsonColumn (j : Option Jsonb) : Jsonb := j.getD .null

/-- The payload that `Verify` hashes for a row. -/
def Row.payload (r : Row) : Except HashError Text :=
  Audit.payload r.columns r.chainPosition r.previousHash (jsonColumn r.beforeState).text
    (jsonColumn r.afterState).text (jsonColumn r.metadata).text

/-- `calculateHash` on the columns of a row. -/
def Row.hash (r : Row) : Except HashError String :=
  calculateHash r.columns r.chainPosition r.previousHash (jsonColumn r.beforeState).text
    (jsonColumn r.afterState).text (jsonColumn r.metadata).text

/-- The variables of the loop of `Verify`. -/
structure Cursor where
  report : Verification
  previousHash : String
  expectedPosition : ℤ

/-- One turn of the loop: an invalid report, or the cursor behind the row. -/
def verifyRow (r : Row) (c : Cursor) : Except VerifyError (Verification ⊕ Cursor) :=
  let report := { c.report with entriesVerified := c.report.entriesVerified + 1 }
  if r.chainPosition ≠ c.expectedPosition then
    .ok (.inl (invalidReport report r.chainPosition
      ("chain position gap: expected " ++ toString c.expectedPosition) "" ""))
  else if r.hashVersion ≠ hashVersion then
    .ok (.inl (invalidReport report r.chainPosition
      ("unsupported hash version " ++ toString r.hashVersion) "" ""))
  else if !validHash r.previousHash || !validHash r.entryHash then
    .ok (.inl (invalidReport report r.chainPosition "malformed chain hash" "" r.entryHash))
  else if r.previousHash ≠ c.previousHash then
    .ok (.inl (invalidReport report r.chainPosition "previous hash does not match prior entry"
      c.previousHash r.previousHash))
  else match r.hash with
    | .error e => .error (.recompute r.chainPosition e)
    | .ok expectedHash =>
      if r.entryHash ≠ expectedHash then
        .ok (.inl (invalidReport report r.chainPosition "entry hash mismatch" expectedHash
          r.entryHash))
      else .ok (.inr ⟨report, r.entryHash, c.expectedPosition + 1⟩)

def verifyRows : List Row → Cursor → Except VerifyError (Verification ⊕ Cursor)
  | [], c => .ok (.inr c)
  | r :: rs, c =>
    match verifyRow r c with
    | .error e => .error e
    | .ok (.inl report) => .ok (.inl report)
    | .ok (.inr c') => verifyRows rs c'

/-- The rows in the order `ORDER BY chain_position ASC`. -/
def Ledger.ordered (l : Ledger) : List Row :=
  l.rows.insertionSort fun a b => a.chainPosition ≤ b.chainPosition

def verify (now : ℤ) (l : Ledger) : Except VerifyError Verification :=
  match l.state with
  | none => .error .readHead
  | some state =>
    let report : Verification := ⟨true, 0, state.lastPosition, state.lastHash, 0, "", "", "", now⟩
    match verifyRows l.ordered ⟨report, genesisHash, 1⟩ with
    | .error e => .error e
    | .ok (.inl report) => .ok report
    | .ok (.inr c) =>
      if c.report.entriesVerified ≠ state.lastPosition then
        .ok (invalidReport c.report c.report.entriesVerified
          "persisted head position does not match ledger length"
          (toString c.report.entriesVerified) (toString state.lastPosition))
      else if c.previousHash ≠ state.lastHash then
        .ok (invalidReport c.report state.lastPosition
          "persisted head hash does not match ledger head" c.previousHash state.lastHash)
      else .ok c.report

/-! ## Linked chains -/

/-- What `Verify` requires of a row at a position behind a hash. -/
structure Row.Follows (r : Row) (previous : String) (position : ℤ) : Prop where
  chainPosition_eq : r.chainPosition = position
  hashVersion_eq : r.hashVersion = Audit.hashVersion
  validHash_previousHash : validHash r.previousHash = true
  validHash_entryHash : validHash r.entryHash = true
  previousHash_eq : r.previousHash = previous
  hash_eq : r.hash = .ok r.entryHash

/-- Rows that follow one another from a hash and a position to a last hash. -/
def Linked : String → ℤ → List Row → String → Prop
  | previous, _, [], last => previous = last
  | previous, position, r :: rs, last =>
    r.Follows previous position ∧ Linked r.entryHash (position + 1) rs last

variable {rs : List Row} {r : Row}

theorem linked_append_singleton {previous : String} {position : ℤ} {last : String} :
    Linked previous position (rs ++ [r]) last ↔
      Linked previous position rs r.previousHash ∧ r.Follows r.previousHash (position + rs.length) ∧
        r.entryHash = last := by
  induction rs generalizing previous position with
  | nil =>
    have hlen : position + (([] : List Row).length : ℤ) = position := by simp
    rw [hlen]
    simp only [List.nil_append, Linked]
    constructor
    · rintro ⟨hr, hlast⟩
      exact ⟨hr.previousHash_eq.symm, { hr with previousHash_eq := rfl }, hlast⟩
    · rintro ⟨hprev, hr, hlast⟩
      exact ⟨{ hr with previousHash_eq := hprev.symm }, hlast⟩
  | cons a rs ih =>
    have hlen : position + 1 + (rs.length : ℤ) = position + ((a :: rs).length : ℤ) := by
      rw [List.length_cons]
      omega
    simp only [List.cons_append, Linked, ih, hlen, and_assoc]

/-! ## What verification decides -/

/-- The cursor behind a row that follows. -/
def Cursor.advance (c : Cursor) (r : Row) : Cursor :=
  ⟨{ c.report with entriesVerified := c.report.entriesVerified + 1 }, r.entryHash,
    c.expectedPosition + 1⟩

variable {c : Cursor}

theorem verifyRow_of_follows (h : r.Follows c.previousHash c.expectedPosition) :
    verifyRow r c = .ok (.inr (c.advance r)) := by
  simp [verifyRow, h.chainPosition_eq, h.hashVersion_eq, h.validHash_previousHash,
    h.validHash_entryHash, ← h.previousHash_eq, h.hash_eq, Cursor.advance]

theorem follows_of_verifyRow {c' : Cursor} (h : verifyRow r c = .ok (.inr c')) :
    r.Follows c.previousHash c.expectedPosition ∧ c' = c.advance r := by
  simp only [verifyRow] at h
  split at h
  · simp at h
  rename_i hposition
  split at h
  · simp at h
  rename_i hversion
  split at h
  · simp at h
  rename_i hvalid
  split at h
  · simp at h
  rename_i hprevious
  split at h
  · simp at h
  rename_i expected hhash
  split at h
  · simp at h
  rename_i hentry
  simp only [Bool.or_eq_true, Bool.not_eq_true', not_or, Bool.not_eq_false] at hvalid
  refine ⟨⟨not_not.mp hposition, not_not.mp hversion, hvalid.1, hvalid.2, not_not.mp hprevious, ?_⟩,
    ?_⟩
  · rw [hhash, not_not.mp hentry]
  · simpa [Cursor.advance] using h.symm

/-- A report from the loop is an invalid one. -/
theorem valid_of_verifyRow {report : Verification} (h : verifyRow r c = .ok (.inl report)) :
    report.valid = false := by
  simp only [verifyRow] at h
  split_ifs at h
  case neg =>
    split at h
    · simp at h
    · split_ifs at h
      · simp only [Except.ok.injEq, Sum.inl.injEq] at h
        exact h ▸ rfl
      · simp at h
  all_goals
    simp only [Except.ok.injEq, Sum.inl.injEq] at h
    exact h ▸ rfl

/-- The cursor behind a linked chain. -/
def Cursor.behind (c : Cursor) (n : ℕ) (last : String) : Cursor :=
  ⟨{ c.report with entriesVerified := c.report.entriesVerified + n }, last, c.expectedPosition + n⟩

theorem advance_behind (c : Cursor) (r : Row) (n : ℕ) (last : String) :
    (c.advance r).behind n last = c.behind (n + 1) last := by
  simp only [Cursor.advance, Cursor.behind, Cursor.mk.injEq, Verification.mk.injEq, and_true,
    true_and]
  omega

theorem verifyRows_of_linked {last : String} (h : Linked c.previousHash c.expectedPosition rs last) :
    verifyRows rs c = .ok (.inr (c.behind rs.length last)) := by
  induction rs generalizing c with
  | nil =>
    simp only [Linked] at h
    subst h
    simp [verifyRows, Cursor.behind]
  | cons r rs ih =>
    simp only [verifyRows, verifyRow_of_follows h.1]
    rw [ih h.2, advance_behind, List.length_cons]

theorem linked_of_verifyRows {c' : Cursor} (h : verifyRows rs c = .ok (.inr c')) :
    Linked c.previousHash c.expectedPosition rs c'.previousHash ∧
      c' = c.behind rs.length c'.previousHash := by
  induction rs generalizing c with
  | nil =>
    simp only [verifyRows, Except.ok.injEq, Sum.inr.injEq] at h
    subst h
    exact ⟨rfl, by simp [Cursor.behind]⟩
  | cons r rs ih =>
    simp only [verifyRows] at h
    split at h
    · simp at h
    · simp at h
    · rename_i c₁ hrow
      obtain ⟨hfollows, rfl⟩ := follows_of_verifyRow hrow
      obtain ⟨hlinked, hc'⟩ := ih h
      exact ⟨⟨hfollows, hlinked⟩, by rw [List.length_cons, ← advance_behind]; exact hc'⟩

theorem valid_of_verifyRows {report : Verification} (h : verifyRows rs c = .ok (.inl report)) :
    report.valid = false := by
  induction rs generalizing c with
  | nil => simp [verifyRows] at h
  | cons r rs ih =>
    simp only [verifyRows] at h
    split at h
    · simp at h
    · rename_i report' hrow
      simp only [Except.ok.injEq, Sum.inl.injEq] at h
      exact h ▸ valid_of_verifyRow hrow
    · exact ih h

/-- The rows are linked from the genesis hash to the persisted head, which counts them. -/
def Ledger.Intact (l : Ledger) (state : ChainState) : Prop :=
  l.state = some state ∧ Linked genesisHash 1 l.ordered state.lastHash ∧
    (l.ordered.length : ℤ) = state.lastPosition

/-- The report on an intact ledger. -/
theorem verify_of_intact {l : Ledger} {state : ChainState} (h : l.Intact state) (now : ℤ) :
    verify now l = .ok ⟨true, l.ordered.length, l.ordered.length, state.lastHash, 0, "", "", "", now⟩ := by
  obtain ⟨hstate, hlinked, hlength⟩ := h
  simp only [verify, hstate]
  rw [verifyRows_of_linked (c := ⟨_, genesisHash, 1⟩) hlinked]
  simp [Cursor.behind, hlength]

/-- A ledger verifies exactly when it is intact. -/
theorem verify_valid_iff (now : ℤ) (l : Ledger) :
    (∃ report, verify now l = .ok report ∧ report.valid = true) ↔ ∃ state, l.Intact state := by
  constructor
  · rintro ⟨report, hverify, hvalid⟩
    simp only [verify] at hverify
    split at hverify
    · simp at hverify
    rename_i state hstate
    split at hverify
    · simp at hverify
    · rename_i report' hrows
      cases hverify
      rw [valid_of_verifyRows hrows] at hvalid
      cases hvalid
    · rename_i c hrows
      obtain ⟨hlinked, hc⟩ := linked_of_verifyRows hrows
      split at hverify
      · cases hverify
        cases hvalid
      rename_i hcount
      split at hverify
      · cases hverify
        cases hvalid
      rename_i hlast
      refine ⟨state, hstate, not_not.mp hlast ▸ hlinked, ?_⟩
      have hverified : c.report.entriesVerified = l.ordered.length := by
        rw [hc]
        simp [Cursor.behind]
      rw [← hverified]
      exact not_not.mp hcount
  · rintro ⟨state, hintact⟩
    exact ⟨_, verify_of_intact hintact now, rfl⟩

end Argus.Audit
