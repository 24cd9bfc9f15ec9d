import Argus.Audit.Ledger

/-!
# Tamper evidence

Where SHA-256 is injective on the payloads hashed, a persisted head determines the ledger: two ledgers
that verify against it agree row by row. The proof runs backward from the head, each entry hash giving
the row's payload and with it the hash of the entry before.
-/

namespace Argus.Audit

open JsonText

/-- What a row records, `NULL` read as the empty string or as JSON `null`. -/
structure Content where
  columns : Columns
  beforeState : Jsonb
  afterState : Jsonb
  metadata : Jsonb
  chainPosition : ℤ
  previousHash : String
  entryHash : String
  hashVersion : ℤ

def Row.content (r : Row) : Content where
  columns := r.columns
  beforeState := jsonColumn r.beforeState
  afterState := jsonColumn r.afterState
  metadata := jsonColumn r.metadata
  chainPosition := r.chainPosition
  previousHash := r.previousHash
  entryHash := r.entryHash
  hashVersion := r.hashVersion

/-- The contents of a ledger, position by position. -/
def Ledger.contents (l : Ledger) : List Content := l.ordered.map Row.content

/-- The payloads that verification of the rows hashes. -/
def payloads (rs : List Row) : Set Digits.Text := {t | ∃ r ∈ rs, r.payload = .ok t}

/-- The ledger is reported valid. -/
def Accepts (now : ℤ) (l : Ledger) : Prop :=
  ∃ report, verify now l = .ok report ∧ report.valid = true

/-- The payload of a row as a JSON value. -/
def Row.payloadJson (r : Row) : Json Literal :=
  Audit.payloadJson r.columns r.chainPosition r.previousHash
    ((jsonColumn r.beforeState).toJson.normalize GoJson.keyOrder)
    ((jsonColumn r.afterState).toJson.normalize GoJson.keyOrder)
    ((jsonColumn r.metadata).toJson.normalize GoJson.keyOrder)

theorem Row.payload_eq (r : Row) : r.payload = .ok (print GoJson.style r.payloadJson) :=
  payload_of_canonical (canonicalizeRawJSON_text _) (canonicalizeRawJSON_text _)
    (canonicalizeRawJSON_text _)

theorem Row.hash_eq (r : Row) : r.hash = .ok (digest (print GoJson.style r.payloadJson)) := by
  rw [Row.hash, calculateHash, ← Row.payload, r.payload_eq]
  rfl

theorem Row.mem_payloads {r : Row} {rs : List Row} (h : r ∈ rs) :
    print GoJson.style r.payloadJson ∈ payloads rs :=
  ⟨r, h, r.payload_eq⟩

/-- Rows with the same payload and entry hash record the same. -/
theorem content_eq_of_payloadJson_eq {r s : Row} (hpayload : r.payloadJson = s.payloadJson)
    (hentry : r.entryHash = s.entryHash) (hversion : r.hashVersion = s.hashVersion) :
    r.content = s.content := by
  obtain ⟨hcolumns, hposition, hprevious, hbefore, hafter, hmetadata⟩ := payloadJson_inj hpayload
  simp only [Row.content, Content.mk.injEq]
  exact ⟨hcolumns, Jsonb.eq_of_normalize_toJson_eq hbefore, Jsonb.eq_of_normalize_toJson_eq hafter,
    Jsonb.eq_of_normalize_toJson_eq hmetadata, hposition, hprevious, hentry, hversion⟩

/-- Chains of one length to one last hash record the same. -/
theorem linked_unique {texts : Set Digits.Text} (hinj : Set.InjOn digest texts) {previous : String}
    {position : ℤ} {rs ss : List Row} {last : String} (hrs : Linked previous position rs last)
    (hss : Linked previous position ss last) (hlength : rs.length = ss.length)
    (hrt : payloads rs ⊆ texts) (hst : payloads ss ⊆ texts) :
    rs.map Row.content = ss.map Row.content := by
  -- from the last row backward: its hash gives its payload, and that the hash before it
  induction rs using List.reverseRecOn generalizing ss last with
  | nil => rw [List.eq_nil_of_length_eq_zero hlength.symm]
  | append_singleton rs r ih =>
    obtain ⟨ss, s, rfl⟩ : ∃ ss' s, ss = ss' ++ [s] :=
      List.eq_nil_or_concat' ss |>.resolve_left fun hnil => by simp [hnil] at hlength
    obtain ⟨hrs, hr, hrlast⟩ := linked_append_singleton.mp hrs
    obtain ⟨hss, hs, hslast⟩ := linked_append_singleton.mp hss
    have hentry : r.entryHash = s.entryHash := hrlast.trans hslast.symm
    have hdigest : digest (print GoJson.style r.payloadJson)
        = digest (print GoJson.style s.payloadJson) := by
      have hr' := r.hash_eq.symm.trans hr.hash_eq
      have hs' := s.hash_eq.symm.trans hs.hash_eq
      rw [Except.ok.inj hr', Except.ok.inj hs', hentry]
    have hpayload : r.payloadJson = s.payloadJson :=
      print_injective _ (hinj (hrt (Row.mem_payloads (by simp)))
        (hst (Row.mem_payloads (by simp))) hdigest)
    have hprevious : r.previousHash = s.previousHash := (payloadJson_inj hpayload).2.2.1
    have hrest := ih hrs (hprevious ▸ hss) (by simpa using hlength)
      (fun t ⟨q, hq, ht⟩ => hrt ⟨q, List.mem_append_left _ hq, ht⟩)
      (fun t ⟨q, hq, ht⟩ => hst ⟨q, List.mem_append_left _ hq, ht⟩)
    have hcontent := content_eq_of_payloadJson_eq hpayload hentry
      (hr.hashVersion_eq.trans hs.hashVersion_eq.symm)
    rw [List.map_append, List.map_append, hrest, List.map_singleton, List.map_singleton, hcontent]

theorem contents_eq_of_intact {l l' : Ledger} {state : ChainState}
    (hinj : Set.InjOn Sha256.sum256 (Sha256.utf8 '' (payloads l.ordered ∪ payloads l'.ordered)))
    (hl : l.Intact state) (hl' : l'.Intact state) : l.contents = l'.contents := by
  obtain ⟨-, hlinked, hlength⟩ := hl
  obtain ⟨-, hlinked', hlength'⟩ := hl'
  have hsame : l.ordered.length = l'.ordered.length := by
    have := hlength.trans hlength'.symm
    omega
  exact linked_unique (digest_injOn hinj) hlinked hlinked' hsame Set.subset_union_left
    Set.subset_union_right

/-- Two ledgers accepted with one head have the same contents, so a ledger whose contents changed
under the same head is not accepted. -/
theorem verify_tamper_evident {l l' : Ledger} (hstate : l.state = l'.state)
    (hinj : Set.InjOn Sha256.sum256 (Sha256.utf8 '' (payloads l.ordered ∪ payloads l'.ordered)))
    {now : ℤ} (hl : Accepts now l) (now' : ℤ) :
    (Accepts now' l' → l.rows.length = l'.rows.length ∧ l.contents = l'.contents) ∧
      (l.contents ≠ l'.contents → ¬ Accepts now' l') := by
  have hsame : Accepts now' l' → l.contents = l'.contents := by
    intro hl'
    obtain ⟨state, hintact⟩ := (verify_valid_iff now l).mp hl
    obtain ⟨state', hintact'⟩ := (verify_valid_iff now' l').mp hl'
    obtain rfl : state = state' := by
      simpa [hintact.1, hintact'.1] using hstate
    exact contents_eq_of_intact hinj hintact hintact'
  refine ⟨fun hl' => ⟨?_, hsame hl'⟩, fun hne hl' => hne (hsame hl')⟩
  have hlength := congrArg List.length (hsame hl')
  simpa [Ledger.contents, Ledger.ordered] using hlength

/-- A sealed first row whose request id is either `NULL` or empty. -/
def oneRow (requestID : Option String) : Row where
  id := "aud_1"
  actorID := some "alice"
  actorType := "user"
  action := "incident.created"
  resourceType := "incident"
  resourceID := some "inc_1"
  requestID := requestID
  ipAddress := none
  beforeState := none
  afterState := none
  metadata := none
  createdAt := 1700000000123456
  chainPosition := 1
  previousHash := genesisHash
  entryHash := "7bfaf9e8f3608bcb269c0864220fecbdd9f96860497fed24d2b032ae89f9e9c6"
  hashVersion := hashVersion

def oneRowLedger (requestID : Option String) : Ledger :=
  ⟨[oneRow requestID], some ⟨1, (oneRow requestID).entryHash⟩⟩

theorem payload_oneRow_empty : (oneRow (some "")).payload = (oneRow none).payload := by
  simp only [Row.payload, Row.columns, oneRow, Option.getD_some, Option.getD_none]

theorem verify_tamper_evident_null_empty :
    Accepts 0 (oneRowLedger none) ∧ Accepts 0 (oneRowLedger (some "")) ∧
      (oneRowLedger none).contents = (oneRowLedger (some "")).contents := by
  have haccepts : ∀ l : Ledger, (verify 0 l).toOption.map (·.valid) = some true → Accepts 0 l := by
    intro l h
    cases hverify : verify 0 l with
    | error e =>
      rw [hverify] at h
      cases h
    | ok report =>
      rw [hverify] at h
      exact ⟨report, hverify, by simpa [Except.toOption] using h⟩
  have hnull : Accepts 0 (oneRowLedger none) := haccepts _ (by decide +kernel)
  have hempty : Accepts 0 (oneRowLedger (some "")) := haccepts _ (by decide +kernel)
  refine ⟨hnull, hempty, ?_⟩
  -- both rows hash one and the same payload
  have hinj : Set.InjOn Sha256.sum256 (Sha256.utf8 ''
      (payloads (oneRowLedger none).ordered ∪ payloads (oneRowLedger (some "")).ordered)) := by
    rintro _ ⟨s, hs, rfl⟩ _ ⟨t, ht, rfl⟩ -
    have hone : ∀ u ∈ payloads (oneRowLedger none).ordered ∪
        payloads (oneRowLedger (some "")).ordered, (oneRow none).payload = .ok u := by
      rintro u (⟨r, hr, hu⟩ | ⟨r, hr, hu⟩)
      · obtain rfl : r = oneRow none := List.mem_singleton.mp hr
        exact hu
      · obtain rfl : r = oneRow (some "") := List.mem_singleton.mp hr
        rwa [payload_oneRow_empty] at hu
    rw [Except.ok.inj ((hone s hs).symm.trans (hone t ht))]
  have hstate : (oneRowLedger none).state = (oneRowLedger (some "")).state := rfl
  exact ((verify_tamper_evident hstate hinj hnull 0).1 hempty).2

end Argus.Audit
