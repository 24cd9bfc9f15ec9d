import Argus.Audit.Migration
import Argus.Base.Fallible
import Argus.Base.Sorting

/-!
# The ledger migration is safe

What `MigrateLedger` does to each kind of table. With a head it changes neither the rows nor the
head, so it never makes an invalid ledger valid, and once it has succeeded it has no further effect.
-/

namespace Argus.Audit

open SortedAssoc (KeyOrder)

/-! ## What the migration does -/

section

variable {collation : KeyOrder String} {db : Database}

theorem migrateLedger_of_error {e : MigrateError}
    (h : migrateRows collation db.rows db.state = .error e) :
    migrateLedger collation db = (some e, db) := by
  unfold migrateLedger
  split
  · rename_i h'
    rw [Except.error.inj (h'.symm.trans h)]
  · rename_i h'
    cases h'.symm.trans h

variable {rows : List TableRow}

theorem migrateLedger_of_ok {state : Option ChainState}
    (h : migrateRows collation db.rows db.state = .ok (rows, state)) (hhardened : Hardened rows) :
    ∃ db', migrateLedger collation db = (none, db') ∧ db'.rows = rows ∧ db'.state = state := by
  unfold migrateLedger
  split
  · rename_i h'
    cases h'.symm.trans h
  · rename_i rows' state' h'
    obtain ⟨rfl, rfl⟩ := Prod.mk.inj (Except.ok.inj (h'.symm.trans h))
    rw [dif_pos hhardened]
    exact ⟨_, rfl, rfl, rfl⟩

/-- The tables after the migration are those that the switch leaves, or those before. -/
theorem migrateLedger_cases (collation : KeyOrder String) (db : Database) :
    (∃ e, migrateLedger collation db = (some e, db)) ∨
    ∃ db', migrateLedger collation db = (none, db') ∧
      migrateRows collation db.rows db.state = .ok (db'.rows, db'.state) ∧ Hardened db'.rows := by
  cases h : migrateRows collation db.rows db.state with
  | error e => exact .inl ⟨e, migrateLedger_of_error h⟩
  | ok r =>
    obtain ⟨rows, state⟩ := r
    by_cases hhardened : Hardened rows
    · obtain ⟨db', hmigrate, rfl, rfl⟩ := migrateLedger_of_ok h hhardened
      exact .inr ⟨db', hmigrate, rfl, hhardened⟩
    · refine .inl ⟨.finalize, ?_⟩
      unfold migrateLedger
      split
      · rename_i h'
        cases h'.symm.trans h
      · rename_i rows' state' h'
        obtain ⟨rfl, rfl⟩ := Prod.mk.inj (Except.ok.inj (h.symm.trans h'))
        exact dif_neg hhardened

/-- A table of legacy rows, which may be empty, is backfilled. -/
theorem migrateRows_legacy (hall : ∀ r ∈ rows, r.unchained = true) :
    migrateRows collation rows none = (backfillLegacyRows collation rows).map fun s =>
      (s.rows, some ⟨s.position, s.previousHash⟩) := by
  by_cases hne : rows = []
  · rw [hne]
    rfl
  · have hcount : rows.countP TableRow.unchained = rows.length := List.countP_eq_length.mpr hall
    unfold migrateRows
    dsimp only
    rw [if_neg (mt List.length_eq_zero_iff.mp hne), if_pos hcount]
    rfl

/-- With a head the migration changes neither the rows nor the head. -/
theorem migrateRows_of_state {rows' : List TableRow} {state : ChainState}
    {state' : Option ChainState} (h : migrateRows collation rows (some state) = .ok (rows', state')) :
    rows' = rows ∧ state' = some state := by
  unfold migrateRows at h
  dsimp only at h
  split_ifs at h
  · cases h
    exact ⟨rfl, rfl⟩
  · rename_i hcount hstate
    exact absurd hstate (by simp)
  · cases h
    exact ⟨rfl, rfl⟩

/-- A table that is neither legacy nor chained is refused. -/
theorem migrateRows_refuses {state : Option ChainState}
    (h : (∃ r ∈ rows, r.unchained = true) ∧ ((∃ r ∈ rows, r.unchained = false) ∨ state ≠ none) ∨ (∃
      r ∈ rows, r.unchained = false) ∧ state = none) :
    ∃ e, migrateRows collation rows state = .error e := by
  have hchained (hall : rows.countP TableRow.unchained = rows.length) :
      ¬ ∃ r ∈ rows, r.unchained = false := by
    rintro ⟨r, hr, hfalse⟩
    rw [List.countP_eq_length.mp hall r hr] at hfalse
    cases hfalse
  unfold migrateRows
  dsimp only
  split_ifs with hempty hall hstate hsome hstate
  · -- there are rows
    obtain rfl := List.length_eq_zero_iff.mp hempty
    simp at h
  · exact ⟨_, rfl⟩
  · -- all rows are unchained and there is no head
    have hnone : state = none := by simpa using hstate
    rcases h with ⟨-, hone | hhead⟩ | ⟨hone, -⟩
    · exact absurd hone (hchained hall)
    · exact absurd hnone hhead
    · exact absurd hone (hchained hall)
  · exact ⟨_, rfl⟩
  · exact ⟨_, rfl⟩
  · -- no row is unchained and there is a head
    have hnot : ¬ ∃ r ∈ rows, r.unchained = true := fun hone => hsome (List.countP_pos_iff.mpr hone)
    rcases h with ⟨hone, -⟩ | ⟨-, rfl⟩
    · exact absurd hone hnot
    · exact absurd Nat.zero_ne_one hstate

/-! ## Safety -/

variable {db' : Database}

/-- The chained table verifies. -/
theorem Backfilled.verify {s : Backfill} (h : Backfilled collation rows s)
    (hrows : db'.rows = s.rows) (hstate : db'.state = some ⟨s.position, s.previousHash⟩) (now : ℤ) :
    ∃ report, db'.verify now = .ok report ∧ report.valid = true := by
  obtain ⟨chain, hscanned, hlinked, hlength⟩ := h.chain
  have hordered : Ledger.ordered ⟨chain, db'.state⟩ = chain :=
    (pairwise_of_linked hlinked).2.insertionSort_eq
  have hintact : Ledger.Intact ⟨chain, db'.state⟩ ⟨s.position, s.previousHash⟩ := by
    refine ⟨hstate, ?_, ?_⟩
    · rw [hordered]
      exact hlinked
    · rw [hordered]
      exact hlength
  rw [← hrows] at hscanned
  rw [Database.verify_of_scanned hscanned, verify_of_intact hintact]
  exact ⟨_, rfl, rfl⟩

variable {report : Verification}

/-- A report from the loop is an invalid one. -/
theorem valid_of_verifyTable {c : Cursor} (h : verifyTable rows c = .ok (.inl report)) :
    report.valid = false := by
  induction rows generalizing c with
  | nil => simp [verifyTable] at h
  | cons r rows ih =>
    rw [verifyTable] at h
    split at h
    · cases h
    · split at h
      · cases h
      · rename_i hrow
        simp only [Except.ok.injEq, Sum.inl.injEq] at h
        exact h ▸ valid_of_verifyRow hrow
      · exact ih h

/-- A valid report has scanned every row. -/
theorem Database.scanned_of_valid {db : Database} {now : ℤ} (h : db.verify now = .ok report)
    (hvalid : report.valid = true) : ∃ rs, Scanned (orderedRows db.rows) rs := by
  unfold Database.verify at h
  split at h
  · cases h
  · dsimp only at h
    split at h
    · cases h
    · rename_i hloop
      have hfalse := valid_of_verifyTable hloop
      rw [Except.ok.inj h, hvalid] at hfalse
      cases hfalse
    · rename_i hloop
      exact scanned_of_verifyTable hloop

/-- Whether a report is valid depends on the rows and the head only. -/
theorem Database.valid_of_valid {db : Database} (hrows : db'.rows = db.rows)
    (hstate : db'.state = db.state) {now now' : ℤ} {report' : Verification}
    (h : db.verify now = .ok report) (h' : db'.verify now' = .ok report')
    (hvalid : report'.valid = true) : report.valid = true := by
  obtain ⟨rs, hscanned⟩ := Database.scanned_of_valid h' hvalid
  rw [Database.verify_of_scanned hscanned] at h'
  rw [hrows] at hscanned
  rw [Database.verify_of_scanned hscanned, ← hstate] at h
  obtain ⟨state, hintact⟩ : ∃ state, Ledger.Intact ⟨rs, db'.state⟩ state := by
    refine (verify_valid_iff now' _).mp ⟨report', ?_, hvalid⟩
    cases hverify : Audit.verify now' ⟨rs, db'.state⟩ with
    | error e =>
      rw [hverify] at h'
      cases h'
    | ok r =>
      rw [hverify] at h'
      exact congrArg Except.ok (Except.ok.inj h')
  rw [verify_of_intact hintact] at h
  exact (Except.ok.inj h) ▸ rfl

/-- Rows in the order of their creation times, then of their ids. -/
def Chronological (collation : KeyOrder String) (a b : Body) : Prop :=
  a.createdAt < b.createdAt ∨ a.createdAt = b.createdAt ∧ collation.lt a.id b.id

theorem pairwise_legacyRows (collation : KeyOrder String) (rows : List TableRow) :
    (legacyRows collation rows).Pairwise (legacyLe collation) := by
  have hasymm (a b : String) (hab : collation.lt a b) : ¬ collation.lt b a := fun hba =>
    collation.irrefl a (collation.trans a b a hab hba)
  have : Std.Total (legacyLe collation) := ⟨fun a b => by
    rcases lt_trichotomy a.createdAt b.createdAt with hlt | heq | hgt
    · exact .inl (.inl hlt)
    · by_cases hid : collation.lt b.id a.id
      · exact .inr (.inr ⟨heq.symm, hasymm _ _ hid⟩)
      · exact .inl (.inr ⟨heq, hid⟩)
    · exact .inr (.inl hgt)⟩
  have : IsTrans TableRow (legacyLe collation) := ⟨fun a b c hab hbc => by
    rcases hab with hab | ⟨hab, hidab⟩
    · rcases hbc with hbc | ⟨hbc, -⟩
      · exact .inl (hab.trans hbc)
      · exact .inl (hbc ▸ hab)
    · rcases hbc with hbc | ⟨hbc, hidbc⟩
      · exact .inl (hab ▸ hbc)
      · refine .inr ⟨hab.trans hbc, fun hca => ?_⟩
        by_cases hid : b.id = c.id
        · exact hidab (hid ▸ hca)
        · have hlt := (collation.connected _ _ hid).resolve_right hidbc
          exact hidab (collation.trans _ _ _ hlt hca)⟩
  exact List.pairwise_insertionSort _ rows

theorem chronological_legacyRows (hnodup : (rows.map fun r => r.id).Nodup) :
    ((legacyRows collation rows).map TableRow.toBody).Pairwise (Chronological collation) := by
  have hperm : (legacyRows collation rows).Perm rows := List.perm_insertionSort _ rows
  have hids : (legacyRows collation rows).Pairwise fun a b => a.id ≠ b.id :=
    List.pairwise_map.mp ((hperm.map _).nodup_iff.mpr hnodup)
  refine List.pairwise_map.mpr (((pairwise_legacyRows collation rows).and hids).imp ?_)
  rintro a b ⟨hlt | ⟨heq, hid⟩, hne⟩
  · exact .inl hlt
  · exact .inr ⟨heq, (collation.connected _ _ hne).resolve_right hid⟩

/-- SHA-256 does not collide on the payloads that the backfill of a table hashes. -/
def CollisionFree (collation : KeyOrder String) (rows : List TableRow) : Prop :=
  ∀ s, backfillLegacyRows collation rows = .ok s →
    Set.InjOn Sha256.sum256 (Sha256.utf8 '' payloads (s.rows.filterMap TableRow.scan))

/-- A legacy table is chained in the order of its rows. -/
theorem migrateLedger_legacy (hall : ∀ r ∈ db.rows, r.unchained = true) (hstate : db.state = none)
    (hfree : CollisionFree collation db.rows) :
    ∃ db', migrateLedger collation db = (none, db') ∧
      db'.rows.map TableRow.toBody = db.rows.map TableRow.toBody ∧
      ((orderedRows db'.rows).map TableRow.toBody).Pairwise (Chronological collation) ∧
      ∀ now, ∃ report, db'.verify now = .ok report ∧ report.valid = true := by
  obtain ⟨s, hs, hbackfilled⟩ := backfilled collation db.nodup_ids
  have hmigrate : migrateRows collation db.rows db.state =
      .ok (s.rows, some ⟨s.position, s.previousHash⟩) := by
    rw [hstate, migrateRows_legacy hall, hs]
    rfl
  have hhardened : Hardened s.rows := by
    obtain ⟨chain, hscanned, hlinked, -⟩ := hbackfilled.chain
    exact hardened_of_linked (List.perm_insertionSort _ s.rows) hscanned hlinked (hfree s hs)
  obtain ⟨db', hresult, hrows, hhead⟩ := migrateLedger_of_ok hmigrate hhardened
  refine ⟨db', hresult, ?_, ?_, hbackfilled.verify hrows hhead⟩
  · rw [hrows]
    exact hbackfilled.bodies
  · rw [hrows, hbackfilled.order]
    exact chronological_legacyRows db.nodup_ids

/-- With a head the migration changes neither the rows nor the head. -/
theorem migrateLedger_of_state {state : ChainState} (hstate : db.state = some state) :
    (migrateLedger collation db).2.rows = db.rows ∧
      (migrateLedger collation db).2.state = db.state := by
  rcases migrateLedger_cases collation db with ⟨e, he⟩ | ⟨db', hresult, hrows, -⟩
  · rw [he]
    exact ⟨rfl, rfl⟩
  · rw [hstate] at hrows
    rw [hresult, hstate]
    exact migrateRows_of_state hrows

/-- A successful migration leaves a head. -/
theorem exists_state_of_migrateLedger (h : migrateLedger collation db = (none, db')) :
    ∃ state, db'.state = some state := by
  rcases migrateLedger_cases collation db with ⟨e, he⟩ | ⟨db'', hresult, hrows, -⟩
  · rw [he] at h
    cases congrArg Prod.fst h
  · obtain rfl : db'' = db' := congrArg Prod.snd (hresult.symm.trans h)
    unfold migrateRows at hrows
    dsimp only at hrows
    split_ifs at hrows with hempty hall hstate hsome hstate
    · -- an existing head stays, and otherwise that of the empty chain is inserted
      have hor := (Prod.mk.inj (Except.ok.inj hrows)).2
      cases hhead : db.state with
      | none => exact ⟨_, by rw [← hor, hhead]; rfl⟩
      | some state => exact ⟨state, by rw [← hor, hhead]; rfl⟩
    · obtain ⟨s, -, hs⟩ := exists_of_map_eq_ok hrows
      exact ⟨_, (Prod.mk.inj hs).2.symm⟩
    · have hone : db.state.toList.length = 1 := not_not.mp hstate
      have hhead := (Prod.mk.inj (Except.ok.inj hrows)).2
      cases hdb : db.state with
      | none =>
        rw [hdb] at hone
        cases hone
      | some state => exact ⟨state, by rw [← hhead, hdb]⟩

/-- The migration chains a legacy table, leaves an empty or a chained one as it is, and refuses any
other. So it makes no invalid ledger valid, and has no effect when it is repeated. -/
theorem migrateLedger_safe (collation : KeyOrder String) (db : Database) :
    ((∀ r ∈ db.rows, r.unchained = true) → db.state = none → CollisionFree collation db.rows →
      ∃ db', migrateLedger collation db = (none, db') ∧
        db'.rows.map TableRow.toBody = db.rows.map TableRow.toBody ∧
        ((orderedRows db'.rows).map TableRow.toBody).Pairwise (Chronological collation) ∧
        ∀ now, ∃ report, db'.verify now = .ok report ∧ report.valid = true) ∧
    (db.rows = [] ∨ (∀ r ∈ db.rows, r.unchained = false) ∧ db.state ≠ none →
      (migrateLedger collation db).2.rows = db.rows ∧
      ∀ state, db.state = some state → (migrateLedger collation db).2.state = some state) ∧
    ((∃ r ∈ db.rows, r.unchained = true) ∧ (∃ r ∈ db.rows, r.unchained = false) ∨
        (∃ r ∈ db.rows, r.unchained = true) ∧ db.state ≠ none ∨
        (∃ r ∈ db.rows, r.unchained = false) ∧ db.state = none →
      ∃ e, migrateLedger collation db = (some e, db)) ∧
    (∀ now now' report report', db.verify now = .ok report → report.valid = false →
      (migrateLedger collation db).2.verify now' = .ok report' → report'.valid = false) ∧
    ∀ db', migrateLedger collation db = (none, db') →
      (migrateLedger collation db').2.rows = db'.rows ∧
        (migrateLedger collation db').2.state = db'.state := by
  refine ⟨migrateLedger_legacy, fun h => ⟨?_, fun state hstate => ?_⟩, fun h => ?_, ?_, ?_⟩
  · rcases h with hempty | ⟨-, hhead⟩
    · rcases migrateLedger_cases collation db with ⟨e, he⟩ | ⟨db', hresult, hrows, -⟩
      · rw [he]
      · have hbodies := toBody_of_migrateRows db.nodup_ids hrows
        rw [hempty] at hbodies ⊢
        rw [hresult]
        exact List.map_eq_nil_iff.mp hbodies
    · obtain ⟨state, hstate⟩ := Option.ne_none_iff_exists'.mp hhead
      exact (migrateLedger_of_state hstate).1
  · rw [(migrateLedger_of_state hstate).2, hstate]
  · have hrefuses : ∃ e, migrateRows collation db.rows db.state = .error e := by
      refine migrateRows_refuses ?_
      rcases h with ⟨hun, hch⟩ | ⟨hun, hstate⟩ | hmissing
      · exact .inl ⟨hun, .inl hch⟩
      · exact .inl ⟨hun, .inr hstate⟩
      · exact .inr hmissing
    obtain ⟨e, he⟩ := hrefuses
    exact ⟨e, migrateLedger_of_error he⟩
  · intro now now' report report' hverify hinvalid hverify'
    obtain ⟨state, hstate⟩ : ∃ state, db.state = some state := by
      cases hstate : db.state with
      | none =>
        simp only [Database.verify, hstate] at hverify
        cases hverify
      | some state => exact ⟨state, rfl⟩
    by_contra hvalid
    have htrue := Database.valid_of_valid (migrateLedger_of_state hstate).1
      (migrateLedger_of_state hstate).2 hverify hverify' ((Bool.not_eq_false _).mp hvalid)
    rw [hinvalid] at htrue
    cases htrue
  · intro db' h
    obtain ⟨state, hstate⟩ := exists_state_of_migrateLedger h
    exact migrateLedger_of_state hstate

/-- A table with one legacy row. -/
def legacyDatabase : Database where
  rows :=
    [{ id := "aud_1"
       actorID := some "alice"
       actorType := "user"
       action := "incident.created"
       resourceType := "incident"
       resourceID := some "inc_1"
       requestID := none
       ipAddress := none
       beforeState := none
       afterState := none
       metadata := none
       createdAt := 1700000000123456
       chainPosition := none
       previousHash := none
       entryHash := none
       hashVersion := none }]
  state := none
  hardened := false
  nodup_ids := List.nodup_singleton _
  constrained h := by cases h

/-- One payload cannot collide. -/
theorem migrateLedger_safe_one : ∃ db',
    migrateLedger Sorting.stringOrder legacyDatabase = (none, db') ∧
      ∀ now, ∃ report, db'.verify now = .ok report ∧ report.valid = true := by
  have hfree : CollisionFree Sorting.stringOrder legacyDatabase.rows := by
    intro s hs
    obtain ⟨s', hs', hbackfilled⟩ := backfilled Sorting.stringOrder legacyDatabase.nodup_ids
    obtain rfl : s = s' := Except.ok.inj (hs.symm.trans hs')
    have hlength : s.rows.length = 1 := by
      have h := congrArg List.length hbackfilled.bodies
      rwa [List.length_map, List.length_map] at h
    obtain ⟨r, hr⟩ := List.length_eq_one_iff.mp hlength
    have hone : (payloads (s.rows.filterMap TableRow.scan)).Subsingleton := by
      rintro t ⟨row, hrow, ht⟩ t' ⟨row', hrow', ht'⟩
      rw [hr, List.mem_filterMap] at hrow hrow'
      obtain ⟨_, hmem, hscan⟩ := hrow
      obtain ⟨_, hmem', hscan'⟩ := hrow'
      rw [List.mem_singleton.mp hmem] at hscan
      rw [List.mem_singleton.mp hmem'] at hscan'
      obtain rfl := Option.some_inj.mp (hscan.symm.trans hscan')
      exact Except.ok.inj (ht.symm.trans ht')
    exact (hone.image _).injOn _
  have hall : ∀ r ∈ legacyDatabase.rows, r.unchained = true := List.forall_mem_singleton.mpr rfl
  obtain ⟨db', hresult, -, -, hverify⟩ :=
    (migrateLedger_safe Sorting.stringOrder legacyDatabase).1 hall rfl hfree
  exact ⟨db', hresult, hverify⟩

end

end Argus.Audit
