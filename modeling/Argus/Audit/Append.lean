import Argus.Audit.Ledger

/-!
# Appended ledgers verify

Every run of committed appends from the empty ledger leaves an intact one, as long as every number of
the JSON columns is written in plain decimal. A number that Go writes with an exponent, or as a negative
zero, is hashed as written but read back differently from `jsonb`: the entry then fails verification.
-/

namespace Argus.Audit

open JsonText

/-! ## Plain numbers -/

/-- A number that Go writes without an exponent and not as a negative zero. -/
def PlainNumber : GoJson.Number → Prop
  | .int _ => True
  | .float f => f.plain = true ∧ (f.neg = true → f.coeff ≠ 0)
  | .literal l => l.Plain

/-- All numbers of a JSON column are plain. -/
def PlainMap (value : Option (List (String × Json GoJson.Number))) : Prop :=
  ∀ members, value = some members → ∀ m ∈ members, m.2.NumbersSatisfy PlainNumber

/-- All numbers of an entry are plain. -/
def Entry.Plain (entry : Entry) : Prop :=
  PlainMap entry.beforeState ∧ PlainMap entry.afterState ∧ PlainMap entry.metadata

variable {entry : Entry} {l l' : Ledger} {entryHash newID previousHash : String} {n : ℕ}
  {now position : ℤ}

/-- The last of the fixed digits is the last digit of the number. -/
theorem exists_ne_zero_of_fixedDigits {k : ℕ} (hk : 0 < k) (hn : n % 10 ≠ 0) :
    ∃ d ∈ Digits.fixedDigits k n, d ≠ 0 := by
  obtain ⟨k, rfl⟩ := Nat.exists_eq_succ_of_ne_zero (Nat.ne_of_gt hk)
  refine ⟨Fin.ofNat 10 n, List.mem_append_right _ List.mem_cons_self, ?_⟩
  simpa [Fin.ofNat, Fin.ext_iff] using hn

theorem plain_toLiteral {n : GoJson.Number} (h : PlainNumber n) : n.toLiteral.Plain := by
  cases n with
  | int z =>
    refine ⟨rfl, fun hneg => Or.inl ?_⟩
    have : z < 0 := by simpa [GoJson.Number.toLiteral] using hneg
    simp only [GoJson.Number.toLiteral]
    omega
  | float f =>
    obtain ⟨hplain, hsign⟩ := h
    simp only [GoJson.Number.toLiteral, hplain, if_true]
    refine ⟨rfl, fun hneg => ?_⟩
    have hcoeff : f.coeff ≠ 0 := hsign hneg
    have hlast : f.coeff % 10 ≠ 0 := f.shortest.resolve_right fun hz => hcoeff hz.1
    by_cases hk : (-f.exp10).toNat = 0
    · left
      simp only [GoJson.Float.fixed, hk, Nat.pow_zero, Nat.div_one]
      exact Nat.mul_ne_zero hcoeff (Nat.ne_of_gt (Nat.pow_pos (by decide)))
    · exact Or.inr (exists_ne_zero_of_fixedDigits (Nat.pos_of_ne_zero hk) hlast)
  | literal l => exact h

theorem plain_mapJson {value : Option (List (String × Json GoJson.Number))} (h : PlainMap value) :
    (mapJson value).NumbersSatisfy Literal.Plain := by
  refine Json.numbersSatisfy_map (P := PlainNumber) (fun n => plain_toLiteral) ?_
  cases value with
  | none => exact trivial
  | some members => exact Json.numbersSatisfy_obj.mpr (h members rfl)

/-! ## One append -/

/-- What every append keeps: the rows, in table order, are linked to the head. -/
structure Ledger.Grown (l : Ledger) (n : ℕ) : Prop where
  exists_state : ∃ state, l.state = some state ∧ Linked genesisHash 1 l.rows state.lastHash ∧
    state.lastPosition = n ∧ validHash state.lastHash = true
  length_eq : l.rows.length = n

theorem grown_empty : Ledger.empty.Grown 0 :=
  ⟨⟨⟨0, genesisHash⟩, rfl, rfl, rfl, validHash_genesisHash⟩, rfl⟩

/-- A stored row hashes as the entry it was written for. -/
theorem hash_toRow {columns : Columns} {before after metadata : Json Literal}
    (hbefore : before.NumbersSatisfy Literal.Plain) (hafter : after.NumbersSatisfy Literal.Plain)
    (hmetadata : metadata.NumbersSatisfy Literal.Plain) {row : Row}
    (hrow : columns.toRow (print GoJson.style before) (print GoJson.style after) (print
      GoJson.style metadata) position previousHash entryHash = some row) :
    row.hash = calculateHash columns position previousHash (print GoJson.style before)
        (print GoJson.style after) (print GoJson.style metadata) ∧
      row.chainPosition = position ∧ row.hashVersion = hashVersion ∧
      row.previousHash = previousHash ∧ row.entryHash = entryHash := by
  simp only [Columns.toRow, Option.bind_eq_bind, Option.bind_eq_some_iff] at hrow
  obtain ⟨b, hb, a, ha, m, hm, hrow⟩ := hrow
  split at hrow
  case isFalse => cases hrow
  cases hrow
  refine ⟨?_, rfl, rfl, rfl, rfl⟩
  have hstored : ∀ {v : Json Literal} {j : Jsonb}, v.NumbersSatisfy Literal.Plain →
      Jsonb.ofText (print GoJson.style v) = some j →
      canonicalizeRawJSON j.text = canonicalizeRawJSON (print GoJson.style v) := fun hv hj => by
    rw [canonicalizeRawJSON_text, canonicalizeRawJSON_print, Jsonb.normalize_toJson_of_ofText hv hj]
  simp only [Row.hash, calculateHash, payload, jsonColumn, Option.getD_some, hstored hbefore hb,
    hstored hafter ha, hstored hmetadata hm]
  rfl

/-- A committed append stores one row, hashed behind the head, and moves the head to it. -/
theorem exists_row_of_writeTx (h : writeTx newID now entry l = .ok l') :
    ∃ state entryHash row, l.state = some state ∧
      calculateHash (entry.columns newID now) (state.lastPosition + 1) state.lastHash
        (columnText entry.beforeState) (columnText entry.afterState) (columnText entry.metadata)
          = .ok entryHash ∧
      (entry.columns newID now).toRow (columnText entry.beforeState) (columnText entry.afterState)
        (columnText entry.metadata) (state.lastPosition + 1) state.lastHash entryHash = some row ∧
      l' = ⟨l.rows ++ [row], some ⟨state.lastPosition + 1, entryHash⟩⟩ := by
  simp only [writeTx, canonicalJSON_eq, Option.elim_some] at h
  cases hstate : l.state with
  | none => simp [hstate, bind, Except.bind] at h
  | some state =>
    simp only [hstate, Option.elim_some, bind, Except.bind] at h
    cases hhash : calculateHash (entry.columns newID now) (state.lastPosition + 1) state.lastHash
        (columnText entry.beforeState) (columnText entry.afterState)
        (columnText entry.metadata) with
    | error e => simp [hhash, Except.mapError] at h
    | ok entryHash =>
      simp only [hhash, Except.mapError] at h
      cases hrow : (entry.columns newID now).toRow (columnText entry.beforeState)
          (columnText entry.afterState) (columnText entry.metadata) (state.lastPosition + 1)
          state.lastHash entryHash with
      | none => simp [hrow] at h
      | some row =>
        simp only [hrow, Option.elim_some] at h
        split at h
        case isFalse => cases h
        cases h
        exact ⟨state, entryHash, row, rfl, hhash, hrow, rfl⟩

theorem validHash_calculateHash {entry : Columns} {beforeJSON afterJSON metadataJSON : Digits.Text}
    (h : calculateHash entry position previousHash beforeJSON afterJSON metadataJSON = .ok
      entryHash) : validHash entryHash = true := by
  simp only [calculateHash, Except.map] at h
  split at h
  · cases h
  · cases h
    exact validHash_digest _

/-- One append of plain numbers keeps the ledger linked. -/
theorem grown_writeTx (hplain : entry.Plain) (hl : l.Grown n)
    (hwrite : writeTx newID now entry l = .ok l') : l'.Grown (n + 1) := by
  obtain ⟨⟨state, hstate, hlinked, hposition, hvalid⟩, hlength⟩ := hl
  obtain ⟨state', entryHash, row, hstate', hhash, hrow, rfl⟩ := exists_row_of_writeTx hwrite
  obtain rfl : state' = state := by simpa [hstate] using hstate'.symm
  have hcolumn : ∀ value, PlainMap value →
      ((mapJson value).normalize GoJson.keyOrder).NumbersSatisfy Literal.Plain := fun value hv =>
    Json.numbersSatisfy_normalize _ (plain_mapJson hv)
  obtain ⟨hash_eq, hrowPosition, hversion, hprevious, hentry⟩ :=
    hash_toRow (hcolumn _ hplain.1) (hcolumn _ hplain.2.1) (hcolumn _ hplain.2.2) hrow
  have hvalidEntry := validHash_calculateHash hhash
  have hfollows : row.Follows row.previousHash (1 + l.rows.length) := by
    refine ⟨?_, hversion, hprevious ▸ hvalid, hentry ▸ hvalidEntry, rfl, ?_⟩
    · rw [hrowPosition, hposition, hlength]
      omega
    · rw [hash_eq, hentry]
      exact hhash
  refine ⟨⟨⟨state'.lastPosition + 1, entryHash⟩, rfl, ?_, ?_, hvalidEntry⟩, ?_⟩
  · exact linked_append_singleton.mpr ⟨hprevious ▸ hlinked, hfollows, hentry⟩
  · simp only [hposition]
    omega
  · simp [hlength]

/-! ## Whole runs -/

/-- One call of `WriteTx`. -/
structure Write where
  newID : String
  now : ℤ
  entry : Entry

/-- Committed appends, in the order in which they held the lock on the head. -/
def commit : List Write → Ledger → Except WriteError Ledger
  | [], l => .ok l
  | w :: ws, l => do
      let l ← writeTx w.newID w.now w.entry l
      commit ws l

theorem grown_commit {writes : List Write} (hplain : ∀ w ∈ writes, w.entry.Plain) (hl : l.Grown n)
    (h : commit writes l = .ok l') : l'.Grown (n + writes.length) := by
  induction writes generalizing l n with
  | nil =>
    cases h
    exact hl
  | cons w ws ih =>
    simp only [commit, bind, Except.bind] at h
    split at h
    · cases h
    · rename_i l₁ hwrite
      have hl₁ := grown_writeTx (hplain w List.mem_cons_self) hl hwrite
      have hl' := ih (fun v hv => hplain v (List.mem_cons_of_mem _ hv)) hl₁ h
      rwa [Nat.add_right_comm] at hl'

/-- Linked rows stand in the order of their positions. -/
theorem pairwise_of_linked {previous last : String} {rs : List Row}
    (h : Linked previous position rs last) :
    (∀ r ∈ rs, position ≤ r.chainPosition) ∧
      rs.Pairwise fun a b => a.chainPosition ≤ b.chainPosition := by
  induction rs generalizing previous position with
  | nil => simp
  | cons r rs ih =>
    obtain ⟨hge, hsorted⟩ := ih h.2
    have hr := h.1.chainPosition_eq
    have hrs : ∀ s ∈ rs, position + 1 ≤ s.chainPosition := hge
    refine ⟨fun s hs => ?_, List.pairwise_cons.mpr ⟨fun s hs => ?_, hsorted⟩⟩
    · rcases List.mem_cons.mp hs with rfl | hs
      · omega
      · have := hrs s hs
        omega
    · have := hrs s hs
      omega

theorem intact_of_grown (h : l.Grown n) : ∃ state, l.Intact state ∧ l.ordered.length = n := by
  obtain ⟨⟨state, hstate, hlinked, hposition, -⟩, hlength⟩ := h
  have hordered : l.ordered = l.rows := (pairwise_of_linked hlinked).2.insertionSort_eq
  refine ⟨state, ⟨hstate, hordered ▸ hlinked, ?_⟩, hordered ▸ hlength⟩
  rw [hordered, hlength, hposition]

/-- In every run of committed appends whose numbers are all plain, verification succeeds and counts
every entry. -/
theorem verify_of_commit {writes : List Write} {l : Ledger} (hplain : ∀ w ∈ writes, w.entry.Plain)
    (hrun : commit writes .empty = .ok l) (now : ℤ) :
    ∃ report, verify now l = .ok report ∧ report.valid = true ∧
      report.headPosition = writes.length ∧ report.entriesVerified = writes.length := by
  have hgrown := grown_commit hplain grown_empty hrun
  rw [Nat.zero_add] at hgrown
  obtain ⟨state, hintact, hlength⟩ := intact_of_grown hgrown
  exact ⟨_, verify_of_intact hintact now, rfl, by rw [hlength], by rw [hlength]⟩

/-- An entry with one number in its metadata. -/
def numberEntry (n : GoJson.Number) : Entry where
  id := "aud_1"
  actorID := "alice"
  actorType := "user"
  action := "incident.created"
  resourceType := "incident"
  resourceID := "inc_1"
  requestID := ""
  ipAddress := ""
  beforeState := none
  afterState := none
  metadata := some [("n", .num n)]
  createdAt := 1700000000123456789

theorem verify_of_commit_int :
    ∃ l, commit [⟨"", 0, numberEntry (.int 42)⟩] .empty = .ok l ∧
      ∃ report, verify 0 l = .ok report ∧ report.valid = true ∧
        report.headPosition = (1 : ℕ) ∧ report.entriesVerified = (1 : ℕ) := by
  have hok : (commit [⟨"", 0, numberEntry (.int 42)⟩] .empty).isOk = true := by decide +kernel
  have hplain : (numberEntry (.int 42)).Plain := by
    refine ⟨nofun, nofun, fun members h => ?_⟩
    cases h
    simp [Json.NumbersSatisfy, Json.fold, PlainNumber]
  cases hrun : commit [⟨"", 0, numberEntry (.int 42)⟩] .empty with
  | error e =>
    rw [hrun] at hok
    cases hok
  | ok l => exact ⟨l, rfl, verify_of_commit (by simpa using hplain) hrun 0⟩

/-- The float `1e21`, which Go writes in exponent form. -/
def exponentFloat : GoJson.Float := ⟨false, 1, 21, by decide⟩

/-- One append of the float `1e21` leaves a ledger that does not verify. -/
theorem verify_rejects_exponent :
    ((commit [⟨"", 0, numberEntry (.float exponentFloat)⟩] .empty).toOption.bind fun l =>
        (verify 0 l).toOption).map (fun report => (report.valid, report.reason))
      = some (false, "entry hash mismatch") := by
  decide +kernel

end Argus.Audit
