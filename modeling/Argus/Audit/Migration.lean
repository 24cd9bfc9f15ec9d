import Argus.Audit.Append
import Argus.Audit.Tamper
import Mathlib

/-!
# The ledger migration

`MigrateLedger` brings `audit_logs` from any content to one whose rows are all chained, or refuses.
A table without chain fields and without a head is chained in the order of its rows; any other table
is left as it is. The migration is one serializable transaction, so that it takes effect as a whole
or not at all.
-/

namespace Argus.Audit

open SortedAssoc (KeyOrder)

/-! ## Tables before the migration -/

/-- The columns of `audit_logs` besides the chain fields. -/
structure Body where
  id : String
  actorID : Option String
  actorType : String
  action : String
  resourceType : String
  resourceID : Option String
  requestID : Option String
  ipAddress : Option String
  beforeState : Option Jsonb
  afterState : Option Jsonb
  metadata : Option Jsonb
  createdAt : ℤ

/-- A row whose chain fields may be `NULL`. -/
structure TableRow extends Body where
  chainPosition : Option ℤ
  previousHash : Option String
  entryHash : Option String
  hashVersion : Option ℤ

/-- A row with these chain fields. -/
def Body.row (b : Body) (position : ℤ) (previousHash entryHash : String) (version : ℤ) : Row where
  id := b.id
  actorID := b.actorID
  actorType := b.actorType
  action := b.action
  resourceType := b.resourceType
  resourceID := b.resourceID
  requestID := b.requestID
  ipAddress := b.ipAddress
  beforeState := b.beforeState
  afterState := b.afterState
  metadata := b.metadata
  createdAt := b.createdAt
  chainPosition := position
  previousHash := previousHash
  entryHash := entryHash
  hashVersion := version

/-- The columns as the backfill selects them, with `NULL` coalesced. -/
def Body.columns (b : Body) : Columns where
  id := b.id
  actorID := b.actorID.getD ""
  actorType := b.actorType
  action := b.action
  resourceType := b.resourceType
  resourceID := b.resourceID.getD ""
  requestID := b.requestID.getD ""
  ipAddress := b.ipAddress.getD ""
  createdAt := b.createdAt

/-- `chain_position IS NULL OR previous_hash IS NULL OR entry_hash IS NULL OR hash_version IS NULL`.
-/
def TableRow.unchained (r : TableRow) : Bool :=
  r.chainPosition.isNone || r.previousHash.isNone || r.entryHash.isNone || r.hashVersion.isNone

/-- The row as `Verify` scans it: `NULL` does not fit its variables. -/
def TableRow.scan (r : TableRow) : Option Row := do
  let position ← r.chainPosition
  let previousHash ← r.previousHash
  let entryHash ← r.entryHash
  let version ← r.hashVersion
  return r.toBody.row position previousHash entryHash version

/-- What the final statements require of the rows: no `NULL` in a chain field, and the positions and
the entry hashes each unique. -/
def Hardened (rows : List TableRow) : Prop :=
  (∀ r ∈ rows, r.unchained = false) ∧ (rows.map TableRow.chainPosition).Nodup ∧
    (rows.map TableRow.entryHash).Nodup

instance (rows : List TableRow) : Decidable (Hardened rows) := inferInstanceAs (Decidable (_ ∧ _))

/-- The two tables; `hardened` says whether the final statements have been executed. -/
structure Database where
  rows : List TableRow
  state : Option ChainState
  hardened : Bool
  nodup_ids : (rows.map fun r => r.id).Nodup
  constrained : hardened = true → Hardened rows

/-! ## Verification -/

inductive TableError
  | scan
  | verify (e : VerifyError)
deriving DecidableEq, Repr

/-- The position that rows are ordered by; `NULL` comes last. -/
def TableRow.key (r : TableRow) : WithTop ℤ := r.chainPosition

/-- The rows in the order `ORDER BY chain_position ASC`. -/
def orderedRows (rows : List TableRow) : List TableRow :=
  rows.insertionSort fun a b => a.key ≤ b.key

/-- The loop of `Verify`, which scans a row at each turn. -/
def verifyTable : List TableRow → Cursor → Except TableError (Verification ⊕ Cursor)
  | [], c => .ok (.inr c)
  | r :: rs, c =>
    match r.scan with
    | none => .error .scan
    | some row =>
      match verifyRow row c with
      | .error e => .error (.verify e)
      | .ok (.inl report) => .ok (.inl report)
      | .ok (.inr c') => verifyTable rs c'

/-- `Verify`. -/
def Database.verify (now : ℤ) (db : Database) : Except TableError Verification :=
  match db.state with
  | none => .error (.verify .readHead)
  | some state =>
    let report : Verification := ⟨true, 0, state.lastPosition, state.lastHash, 0, "", "", "", now⟩
    match verifyTable (orderedRows db.rows) ⟨report, genesisHash, 1⟩ with
    | .error e => .error e
    | .ok (.inl report) => .ok report
    | .ok (.inr c) =>
      if c.report.entriesVerified ≠ state.lastPosition then
        .ok (invalidReport c.report c.report.entriesVerified
          "persisted head position does not match ledger length"
          (toString c.report.entriesVerified) (toString state.lastPosition))
      else if c.previousHash ≠ state.lastHash then
        .ok (invalidReport c.report state.lastPosition
          "persisted head hash does not match ledger head" c.previousHash state.lastHash)
      else .ok c.report

/-! ## Migration -/

inductive MigrateError
  /-- A legacy row could not be hashed. -/
  | hash (id : String) (e : HashError)
  /-- Legacy audit rows found with an existing chain head; refusing ambiguous backfill. -/
  | ambiguousBackfill
  /-- Partially chained audit ledger detected; manual recovery is required. -/
  | partiallyChained
  /-- Chained audit ledger is missing its persisted head. -/
  | missingHead
  /-- A final statement failed. -/
  | finalize
deriving DecidableEq, Repr

/-- `ORDER BY created_at ASC, id ASC`, ids in the order of the collation. -/
def legacyLe (collation : KeyOrder String) (a b : TableRow) : Prop :=
  a.createdAt < b.createdAt ∨ a.createdAt = b.createdAt ∧ ¬ collation.lt b.id a.id

instance (collation : KeyOrder String) : DecidableRel (legacyLe collation) := fun a b =>
  inferInstanceAs (Decidable (a.createdAt < b.createdAt ∨ _ ∧ ¬ collation.lt b.id a.id))

def legacyRows (collation : KeyOrder String) (rows : List TableRow) : List TableRow :=
  rows.insertionSort (legacyLe collation)

/-- The variables of the loop of `backfillLegacyRows`, and the table. -/
structure Backfill where
  rows : List TableRow
  position : ℤ
  previousHash : String

/-- `UPDATE audit_logs SET chain_position = $2, ... WHERE id = $1`. -/
def TableRow.chain (id : String) (position : ℤ) (previousHash entryHash : String) (t : TableRow) :
    TableRow :=
  if t.id = id then
    { t with
      chainPosition := some position
      previousHash := some previousHash
      entryHash := some entryHash
      hashVersion := some Audit.hashVersion }
  else t

/-- One turn of the loop. -/
def backfillRow (s : Backfill) (r : TableRow) : Except MigrateError Backfill := do
  let position := s.position + 1
  let entryHash ← (calculateHash r.columns position s.previousHash (jsonColumn r.beforeState).text
    (jsonColumn r.afterState).text (jsonColumn r.metadata).text).mapError (.hash r.id)
  return ⟨s.rows.map (TableRow.chain r.id position s.previousHash entryHash), position, entryHash⟩

def backfillLegacyRows (collation : KeyOrder String) (rows : List TableRow) :
    Except MigrateError Backfill :=
  (legacyRows collation rows).foldlM backfillRow ⟨rows, 0, genesisHash⟩

/-- The switch of `MigrateLedger` on the numbers of rows, unchained rows and heads. -/
def migrateRows (collation : KeyOrder String) (rows : List TableRow) (state : Option ChainState) :
    Except MigrateError (List TableRow × Option ChainState) :=
  let total := rows.length
  let unchained := rows.countP TableRow.unchained
  let stateRows := state.toList.length
  if total = 0 then .ok (rows, state.or (some ⟨0, genesisHash⟩))
  else if unchained = total then
    if stateRows ≠ 0 then .error .ambiguousBackfill
    else (backfillLegacyRows collation rows).map fun s =>
      (s.rows, some ⟨s.position, s.previousHash⟩)
  else if 0 < unchained then .error .partiallyChained
  else if stateRows ≠ 1 then .error .missingHead
  else .ok (rows, state)

/-! ## Scanned rows -/

variable {row : Row} {r : TableRow}

theorem TableRow.scan_eq_some_iff : r.scan = some row ↔
    ∃ position previousHash entryHash version, r.chainPosition = some position ∧
      r.previousHash = some previousHash ∧ r.entryHash = some entryHash ∧
      r.hashVersion = some version ∧
      row = r.toBody.row position previousHash entryHash version := by
  simp only [scan, Option.bind_eq_bind, Option.bind_eq_some_iff, Option.pure_def, Option.some_inj]
  constructor
  · rintro ⟨position, hposition, previous, hprevious, entry, hentry, version, hversion, rfl⟩
    exact ⟨position, previous, entry, version, hposition, hprevious, hentry, hversion, rfl⟩
  · rintro ⟨position, previous, entry, version, hposition, hprevious, hentry, hversion, rfl⟩
    exact ⟨position, hposition, previous, hprevious, entry, hentry, version, hversion, rfl⟩

theorem TableRow.unchained_of_scan (h : r.scan = some row) : r.unchained = false := by
  obtain ⟨_, _, _, _, hposition, hprevious, hentry, hversion, -⟩ := scan_eq_some_iff.mp h
  simp only [unchained, hposition, hprevious, hentry, hversion, Option.isNone_some, Bool.or_self]

theorem TableRow.chainPosition_of_scan (h : r.scan = some row) :
    r.chainPosition = some row.chainPosition := by
  obtain ⟨_, _, _, _, hposition, -, -, -, rfl⟩ := scan_eq_some_iff.mp h
  exact hposition

theorem TableRow.entryHash_of_scan (h : r.scan = some row) : r.entryHash = some row.entryHash := by
  obtain ⟨_, _, _, _, -, -, hentry, -, rfl⟩ := scan_eq_some_iff.mp h
  exact hentry

/-- The rows that these rows are scanned as. -/
def Scanned (rows : List TableRow) (rs : List Row) : Prop := rows.map TableRow.scan = rs.map some

variable {rs : List Row} {rows : List TableRow}

theorem Scanned.cons_iff :
    Scanned (r :: rows) rs ↔ ∃ row rs', rs = row :: rs' ∧ r.scan = some row ∧ Scanned rows rs' := by
  unfold Scanned
  cases rs with
  | nil => simp
  | cons row rs => simp

theorem Scanned.map_eq {β : Type} {f : TableRow → β} {g : Row → β}
    (hfg : ∀ r row, r.scan = some row → f r = g row) (h : Scanned rows rs) :
    rows.map f = rs.map g := by
  induction rows generalizing rs with
  | nil =>
    obtain rfl : rs = [] := List.map_eq_nil_iff.mp h.symm
    rfl
  | cons r rows ih =>
    obtain ⟨row, rs', rfl, hscan, hrest⟩ := Scanned.cons_iff.mp h
    rw [List.map_cons, List.map_cons, hfg r row hscan, ih hrest]

theorem Scanned.exists_of_mem (h : Scanned rows rs) (hr : r ∈ rows) :
    ∃ row ∈ rs, r.scan = some row := by
  have hmem : r.scan ∈ rs.map some := h ▸ List.mem_map_of_mem hr
  obtain ⟨row, hrow, heq⟩ := List.mem_map.mp hmem
  exact ⟨row, hrow, heq.symm⟩

theorem Scanned.mem (h : Scanned rows rs) (hrow : row ∈ rs) : ∃ r ∈ rows, r.scan = some row := by
  have hmem : some row ∈ rows.map TableRow.scan := h ▸ List.mem_map_of_mem hrow
  exact List.mem_map.mp hmem

/-- The keys of scanned rows are their positions. -/
theorem Scanned.pairwise_key_iff (h : Scanned rows rs) {R : WithTop ℤ → WithTop ℤ → Prop} :
    (rows.Pairwise fun a b => R a.key b.key) ↔
      rs.Pairwise fun a b => R a.chainPosition b.chainPosition := by
  have hkeys : rows.map TableRow.key = rs.map fun row => (row.chainPosition : WithTop ℤ) :=
    h.map_eq fun _ _ => TableRow.chainPosition_of_scan
  rw [← List.pairwise_map, hkeys, List.pairwise_map]

/-! ## Verification of scanned rows -/

theorem verifyTable_of_scanned (h : Scanned rows rs) (c : Cursor) :
    verifyTable rows c = (verifyRows rs c).mapError TableError.verify := by
  induction rows generalizing rs c with
  | nil =>
    obtain rfl : rs = [] := List.map_eq_nil_iff.mp h.symm
    rfl
  | cons r rows ih =>
    obtain ⟨row, rs', rfl, hscan, hrows⟩ := Scanned.cons_iff.mp h
    rw [verifyTable, hscan, verifyRows]
    dsimp only
    cases verifyRow row c with
    | error e => rfl
    | ok r =>
      cases r with
      | inl report => rfl
      | inr c' => exact ih hrows c'

/-- A loop that comes to its end has scanned every row. -/
theorem scanned_of_verifyTable {c c' : Cursor} (h : verifyTable rows c = .ok (.inr c')) :
    ∃ rs, Scanned rows rs := by
  induction rows generalizing c with
  | nil => exact ⟨[], rfl⟩
  | cons r rows ih =>
    rw [verifyTable] at h
    split at h
    · cases h
    · rename_i row hscan
      split at h
      · cases h
      · cases h
      · obtain ⟨rs, hrs⟩ := ih h
        exact ⟨row :: rs, Scanned.cons_iff.mpr ⟨row, rs, rfl, hscan, hrs⟩⟩

theorem pairwise_orderedRows (rows : List TableRow) :
    (orderedRows rows).Pairwise fun a b => a.key ≤ b.key := by
  have : Std.Total fun a b : TableRow => a.key ≤ b.key := ⟨fun a b => le_total a.key b.key⟩
  have : IsTrans TableRow fun a b => a.key ≤ b.key := ⟨fun _ _ _ hab hbc => hab.trans hbc⟩
  exact List.pairwise_insertionSort _ rows

/-- On scanned rows `Verify` is as on a ledger without `NULL`. -/
theorem Database.verify_of_scanned {db : Database} (h : Scanned (orderedRows db.rows) rs) (now : ℤ) :
    db.verify now = (Audit.verify now ⟨rs, db.state⟩).mapError TableError.verify := by
  have hpairs : rs.Pairwise fun a b => a.chainPosition ≤ b.chainPosition :=
    (h.pairwise_key_iff.mp (pairwise_orderedRows db.rows)).imp WithTop.coe_le_coe.mp
  have hordered : Ledger.ordered ⟨rs, db.state⟩ = rs := hpairs.insertionSort_eq
  rw [Database.verify, Audit.verify, hordered]
  cases db.state with
  | none => rfl
  | some state =>
    dsimp only
    rw [verifyTable_of_scanned h]
    cases verifyRows rs ⟨⟨true, 0, state.lastPosition, state.lastHash, 0, "", "", "", now⟩,
      genesisHash, 1⟩ with
    | error e => rfl
    | ok r =>
      cases r with
      | inl report => rfl
      | inr c =>
        dsimp only [Except.mapError]
        split
        · rfl
        · split <;> rfl

/-! ## The backfill -/

theorem TableRow.toBody_chain (id : String) (position : ℤ) (previousHash entryHash : String)
    (t : TableRow) : (t.chain id position previousHash entryHash).toBody = t.toBody := by
  unfold chain
  split <;> rfl

theorem TableRow.chain_of_ne {id : String} {t : TableRow} (h : t.id ≠ id) (position : ℤ)
    (previousHash entryHash : String) : t.chain id position previousHash entryHash = t :=
  if_neg h

theorem TableRow.scan_chain (t : TableRow) (position : ℤ) (previousHash entryHash : String) :
    (t.chain t.id position previousHash entryHash).scan =
      some (t.toBody.row position previousHash entryHash Audit.hashVersion) := by
  rw [chain, if_pos rfl]
  rfl

/-- The hash of a row that is being chained. -/
theorem exists_entryHash (r : TableRow) (position : ℤ) (previousHash : String) :
    ∃ entryHash, calculateHash r.columns position previousHash (jsonColumn r.beforeState).text
        (jsonColumn r.afterState).text (jsonColumn r.metadata).text = .ok entryHash ∧
      validHash entryHash = true := by
  have h := (r.toBody.row position previousHash "" Audit.hashVersion).hash_eq
  exact ⟨_, h, validHash_digest _⟩

/-- The loop chains the rows that it goes through, from the hash and the position it starts at, and
touches neither other rows nor other columns. -/
theorem backfill_spec {rs : List TableRow} (hnodup : (rs.map fun r => r.id).Nodup) (s : Backfill)
    (hvalid : validHash s.previousHash = true) :
    ∃ (u : TableRow → TableRow) (chain : List Row) (last : String),
      rs.foldlM backfillRow s = .ok ⟨s.rows.map u, s.position + rs.length, last⟩ ∧
      (∀ t, (u t).toBody = t.toBody) ∧ (∀ t : TableRow, t.id ∉ rs.map (fun r => r.id) → u t = t) ∧
      Scanned (rs.map u) chain ∧ Linked s.previousHash (s.position + 1) chain last := by
  induction rs generalizing s with
  | nil =>
    refine ⟨id, [], s.previousHash, ?_, fun _ => rfl, fun _ _ => rfl, rfl, rfl⟩
    rw [List.foldlM_nil, List.map_id, List.length_nil, Int.ofNat_zero, Int.add_zero]
    rfl
  | cons r rs ih =>
    obtain ⟨hr, hnodup⟩ := List.nodup_cons.mp hnodup
    obtain ⟨entryHash, hhash, hentry⟩ := exists_entryHash r (s.position + 1) s.previousHash
    let f := TableRow.chain r.id (s.position + 1) s.previousHash entryHash
    obtain ⟨u, chain, last, hrun, hbody, hother, hscanned, hlinked⟩ :=
      ih hnodup ⟨s.rows.map f, s.position + 1, entryHash⟩ hentry
    have hfirst : u (f r) = f r := hother (f r) (by
      rw [show (f r).id = r.id from congrArg Body.id (TableRow.toBody_chain ..)]
      exact hr)
    have hrest : ∀ t ∈ rs, u (f t) = u t := fun t ht => by
      have hne : t.id ≠ r.id := fun h => hr (List.mem_map.mpr ⟨t, ht, h⟩)
      exact congrArg u (TableRow.chain_of_ne hne ..)
    refine ⟨u ∘ f, r.toBody.row (s.position + 1) s.previousHash entryHash hashVersion :: chain,
      last, ?_, fun t => ?_, fun t ht => ?_, ?_, ?_⟩
    · have hturn : backfillRow s r = .ok ⟨s.rows.map f, s.position + 1, entryHash⟩ := by
        simp only [backfillRow, hhash]
        rfl
      rw [List.foldlM_cons, hturn]
      refine hrun.trans ?_
      rw [List.map_map, List.length_cons]
      congr 2
      push_cast
      omega
    · exact (hbody (f t)).trans (TableRow.toBody_chain ..)
    · have hne := not_or.mp (mt List.mem_cons.mpr ht)
      rw [Function.comp_apply, show f t = t from TableRow.chain_of_ne hne.1 .., hother t hne.2]
    · refine Scanned.cons_iff.mpr ⟨_, chain, rfl, ?_, ?_⟩
      · rw [Function.comp_apply, hfirst]
        exact TableRow.scan_chain ..
      · rwa [show rs.map (u ∘ f) = rs.map u from List.map_congr_left hrest]
    · exact ⟨⟨rfl, rfl, hvalid, hentry, rfl, hhash⟩, hlinked⟩

/-! ## Chained tables -/

variable {last : String}

theorem pairwise_lt_of_linked {previous : String} {position : ℤ}
    (h : Linked previous position rs last) :
    rs.Pairwise fun a b => a.chainPosition < b.chainPosition := by
  induction rs generalizing previous position with
  | nil => exact .nil
  | cons r rs ih =>
    refine List.pairwise_cons.mpr ⟨fun s hs => ?_, ih h.2⟩
    have hr := h.1.chainPosition_eq
    have hs := (pairwise_of_linked h.2).1 s hs
    omega

variable {rows' : List TableRow}

/-- Ordering by position gives the one order in which positions increase. -/
theorem orderedRows_eq (hperm : rows'.Perm rows) (hrows : rows'.Pairwise fun a b => a.key < b.key) :
    orderedRows rows = rows' := by
  have hperm' : (orderedRows rows).Perm rows' := (List.perm_insertionSort _ rows).trans hperm.symm
  have hnodup : (rows'.map TableRow.key).Nodup := List.pairwise_map.mpr (hrows.imp ne_of_lt)
  refine List.Perm.eq_of_pairwise (fun a b ha hb hab hba => ?_) (pairwise_orderedRows rows)
    (hrows.imp le_of_lt) hperm'
  exact List.inj_on_of_nodup_map hnodup (hperm'.mem_iff.mp ha) hb (le_antisymm hab hba)

theorem hash_of_linked {previous : String} {position : ℤ} (h : Linked previous position rs last) :
    ∀ r ∈ rs, r.hash = .ok r.entryHash := by
  induction rs generalizing previous position with
  | nil => exact fun _ hr => absurd hr List.not_mem_nil
  | cons r rs ih => exact List.forall_mem_cons.mpr ⟨h.1.hash_eq, ih h.2⟩

/-- Rows of a chain with one hash have one position, where SHA-256 does not collide. -/
theorem position_eq_of_entryHash_eq {texts : Set Digits.Text}
    (hinj : Set.InjOn Sha256.sum256 (Sha256.utf8 '' texts)) {r s : Row}
    (hr : r.hash = .ok r.entryHash) (hs : s.hash = .ok s.entryHash)
    (hrtext : JsonText.print GoJson.style r.payloadJson ∈ texts)
    (hstext : JsonText.print GoJson.style s.payloadJson ∈ texts) (heq : r.entryHash = s.entryHash) :
    r.chainPosition = s.chainPosition := by
  rw [r.hash_eq] at hr
  rw [s.hash_eq] at hs
  have hdigest := (Except.ok.inj hr).trans (heq.trans (Except.ok.inj hs).symm)
  have hpayload := JsonText.print_injective _ (digest_injOn hinj hrtext hstext hdigest)
  exact (payloadJson_inj hpayload).2.1

/-- A table that is a chain in some order of its rows satisfies the final statements, where SHA-256
does not collide. -/
theorem hardened_of_linked {chain : List Row} (hperm : rows'.Perm rows)
    (hscanned : Scanned rows' chain) (hlinked : Linked genesisHash 1 chain last)
    (hinj : Set.InjOn Sha256.sum256 (Sha256.utf8 '' payloads (rows.filterMap TableRow.scan))) :
    Hardened rows := by
  have hpairs := pairwise_lt_of_linked hlinked
  refine ⟨fun r hr => ?_, ?_, ?_⟩
  · obtain ⟨row, -, hscan⟩ := hscanned.exists_of_mem (hperm.mem_iff.mpr hr)
    exact TableRow.unchained_of_scan hscan
  · rw [← (hperm.map TableRow.chainPosition).nodup_iff,
      hscanned.map_eq fun _ _ => TableRow.chainPosition_of_scan]
    refine List.pairwise_map.mpr (hpairs.imp fun hlt heq => ?_)
    rw [Option.some_inj.mp heq] at hlt
    exact lt_irrefl _ hlt
  · rw [← (hperm.map TableRow.entryHash).nodup_iff,
      hscanned.map_eq fun _ _ => TableRow.entryHash_of_scan]
    have htext : ∀ row ∈ chain, JsonText.print GoJson.style row.payloadJson ∈
        payloads (rows.filterMap TableRow.scan) := fun row hrow => by
      obtain ⟨r, hr, hscan⟩ := hscanned.mem hrow
      exact Row.mem_payloads (List.mem_filterMap.mpr ⟨r, hperm.mem_iff.mp hr, hscan⟩)
    refine List.pairwise_map.mpr (hpairs.imp_of_mem fun {a b} ha hb hlt heq => ?_)
    have hposition := position_eq_of_entryHash_eq hinj (hash_of_linked hlinked a ha)
      (hash_of_linked hlinked b hb) (htext a ha) (htext b hb) (Option.some_inj.mp heq)
    exact absurd hposition (ne_of_lt hlt)

/-! ## The switch -/

theorem ids_eq_of_toBody_eq (h : rows'.map TableRow.toBody = rows.map TableRow.toBody) :
    (rows'.map fun r => r.id) = rows.map fun r => r.id := by
  have hids := congrArg (List.map Body.id) h
  rwa [List.map_map, List.map_map] at hids

/-- What the backfill makes of a table of legacy rows. -/
structure Backfilled (collation : KeyOrder String) (rows : List TableRow) (s : Backfill) :
    Prop where
  bodies : s.rows.map TableRow.toBody = rows.map TableRow.toBody
  order : (orderedRows s.rows).map TableRow.toBody =
    (legacyRows collation rows).map TableRow.toBody
  chain : ∃ chain, Scanned (orderedRows s.rows) chain ∧
    Linked genesisHash 1 chain s.previousHash ∧ (chain.length : ℤ) = s.position

theorem backfilled (collation : KeyOrder String) (hnodup : (rows.map fun r => r.id).Nodup) :
    ∃ s, backfillLegacyRows collation rows = .ok s ∧ Backfilled collation rows s := by
  have hperm : (legacyRows collation rows).Perm rows := List.perm_insertionSort _ rows
  have hlegacy : ((legacyRows collation rows).map fun r => r.id).Nodup :=
    (hperm.map _).nodup_iff.mpr hnodup
  obtain ⟨u, chain, last, hrun, hbody, -, hscanned, hlinked⟩ :=
    backfill_spec hlegacy ⟨rows, 0, genesisHash⟩ validHash_genesisHash
  have hbodies (l : List TableRow) : (l.map u).map TableRow.toBody = l.map TableRow.toBody := by
    rw [List.map_map]
    exact List.map_congr_left fun t _ => hbody t
  have hordered : orderedRows (rows.map u) = (legacyRows collation rows).map u :=
    orderedRows_eq (hperm.map u) (hscanned.pairwise_key_iff.mpr
      ((pairwise_lt_of_linked hlinked).imp WithTop.coe_lt_coe.mpr))
  refine ⟨_, hrun, hbodies rows, ?_, chain, ?_, hlinked, ?_⟩
  · rw [hordered, hbodies]
  · rw [hordered]
    exact hscanned
  · have hlength := congrArg List.length hscanned
    rw [List.length_map, List.length_map, List.length_map] at hlength
    rw [← hlength, Int.zero_add]

theorem toBody_of_migrateRows {collation : KeyOrder String} {state state' : Option ChainState}
    (hnodup : (rows.map fun r => r.id).Nodup)
    (h : migrateRows collation rows state = .ok (rows', state')) :
    rows'.map TableRow.toBody = rows.map TableRow.toBody := by
  unfold migrateRows at h
  dsimp only at h
  split_ifs at h
  · cases h
    rfl
  · obtain ⟨s, hs, hbackfilled⟩ := backfilled collation hnodup
    rw [hs] at h
    cases h
    exact hbackfilled.bodies
  · cases h
    rfl

/-- `MigrateLedger`. -/
def migrateLedger (collation : KeyOrder String) (db : Database) : Option MigrateError × Database :=
  match h : migrateRows collation db.rows db.state with
  | .error e => (some e, db)
  | .ok (rows, state) =>
    if hhardened : Hardened rows then
      (none,
        { rows := rows
          state := state
          hardened := true
          nodup_ids := ids_eq_of_toBody_eq (toBody_of_migrateRows db.nodup_ids h) ▸ db.nodup_ids
          constrained := fun _ => hhardened })
    else (some .finalize, db)

end Argus.Audit
