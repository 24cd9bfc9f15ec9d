import Argus.Base.Jsonb
import Argus.Base.Rfc3339
import Argus.Base.Sha256
import Argus.Base.Strings
import Mathlib.Data.Set.Function

/-!
# Audit entries and their hashes

`internal/audit/chain.go`: the canonical form of the JSON columns and the hash over the canonical
payload of an entry. The payload is the JSON object that `json.Marshal` writes for `chainPayload`;
its text determines every field, so equal hashes mean equal entries wherever the digest is injective.
-/

namespace Argus.Audit

open Digits (Text)
open JsonText

def hashVersion : ℤ := 1

def genesisHash : String := "0000000000000000000000000000000000000000000000000000000000000000"

/-- The columns of an entry that its hash covers, besides the JSON columns and the chain fields.
`createdAt` is in microseconds since the Unix epoch. -/
structure Columns where
  id : String
  actorID : String
  actorType : String
  action : String
  resourceType : String
  resourceID : String
  requestID : String
  ipAddress : String
  createdAt : ℤ
deriving DecidableEq

def canonicalizeRawJSON (raw : Text) : Option Text :=
  if raw.all Strings.isSpace then some ['n', 'u', 'l', 'l'] else GoJson.canonicalize raw

/-- `canonicalJSON` of a map; a nil map is marshalled as `null`. -/
def canonicalJSON (value : Option (List (String × Json GoJson.Number))) : Option Text :=
  canonicalizeRawJSON <| GoJson.marshal <|
    match value with
    | none => .null
    | some members => .obj members

/-- The text of an integer. -/
def intText (z : ℤ) : Text := (GoJson.Number.toLiteral (.int z)).text

/-- `json.Marshal` of `chainPayload`, whose raw messages are already compact. -/
def payloadText (entry : Columns) (position : ℤ) (previousHash : String)
    (beforeJSON afterJSON metadataJSON : Text) : Text :=
  let string (s : String) : Text := quote GoJson.style s
  objectText GoJson.style
    [("hash_version", intText hashVersion),
      ("chain_position", intText position),
      ("previous_hash", string previousHash),
      ("id", string entry.id),
      ("actor_id", string entry.actorID),
      ("actor_type", string entry.actorType),
      ("action", string entry.action),
      ("resource_type", string entry.resourceType),
      ("resource_id", string entry.resourceID),
      ("request_id", string entry.requestID),
      ("ip_address", string entry.ipAddress),
      ("before_state", beforeJSON),
      ("after_state", afterJSON),
      ("metadata", metadataJSON),
      ("created_at", string (String.ofList (Rfc3339.format entry.createdAt)))]

/-- The column whose stored text could not be canonicalized. -/
inductive HashError
  | beforeState
  | afterState
  | metadata
deriving DecidableEq, Repr

/-- The payload that `calculateHash` hashes. -/
def payload (entry : Columns) (position : ℤ) (previousHash : String)
    (beforeJSON afterJSON metadataJSON : Text) : Except HashError Text := do
  let beforeJSON ← (canonicalizeRawJSON beforeJSON).elim (.error .beforeState) .ok
  let afterJSON ← (canonicalizeRawJSON afterJSON).elim (.error .afterState) .ok
  let metadataJSON ← (canonicalizeRawJSON metadataJSON).elim (.error .metadata) .ok
  return payloadText entry position previousHash beforeJSON afterJSON metadataJSON

/-- The hexadecimal SHA-256 digest of a text. -/
def digest (t : Text) : String := String.ofList (Sha256.hexText (Sha256.sum256 (Sha256.utf8 t)))

def calculateHash (entry : Columns) (position : ℤ) (previousHash : String)
    (beforeJSON afterJSON metadataJSON : Text) : Except HashError String :=
  (payload entry position previousHash beforeJSON afterJSON metadataJSON).map digest

def validHash (value : String) : Bool :=
  (Sha256.utf8 value.toList).length == 64 && value.toList.all (fun c => (hexValue c).isSome) &&
    value.toList.all (fun c => c.toLower == c)

/-! ## Canonical JSON columns -/

theorem canonicalizeRawJSON_print (st : Style) (v : Json Literal) :
    canonicalizeRawJSON (print st v) = some (print GoJson.style (v.normalize GoJson.keyOrder)) := by
  have hspace : (print st v).all Strings.isSpace = false := by
    obtain ⟨c, t, hprint, hlow, hhigh, -⟩ := exists_print_eq_cons st v
    rw [hprint, List.all_cons, Strings.isSpace_of_visible hlow hhigh, Bool.false_and]
  rw [canonicalizeRawJSON, hspace]
  exact GoJson.canonicalize_print st v

theorem canonicalizeRawJSON_text (j : Jsonb) :
    canonicalizeRawJSON j.text
      = some (print GoJson.style (j.toJson.normalize GoJson.keyOrder)) :=
  canonicalizeRawJSON_print Jsonb.style j.toJson

/-- A map as a JSON value with numbers as Go writes them. -/
def mapJson (value : Option (List (String × Json GoJson.Number))) : Json Literal :=
  Json.map GoJson.Number.toLiteral (value.elim .null .obj)

/-- The text written for a JSON column. -/
def columnText (value : Option (List (String × Json GoJson.Number))) : Text :=
  print GoJson.style ((mapJson value).normalize GoJson.keyOrder)

theorem canonicalJSON_eq (value : Option (List (String × Json GoJson.Number))) :
    canonicalJSON value = some (columnText value) := by
  cases value <;> exact canonicalizeRawJSON_print GoJson.style _

/-! ## The payload determines the entry -/

/-- The payload as a JSON value. -/
def payloadJson (entry : Columns) (position : ℤ) (previousHash : String)
    (before after metadata : Json Literal) : Json Literal :=
  .obj
    [("hash_version", .num (GoJson.Number.toLiteral (.int hashVersion))),
      ("chain_position", .num (GoJson.Number.toLiteral (.int position))),
      ("previous_hash", .str previousHash),
      ("id", .str entry.id),
      ("actor_id", .str entry.actorID),
      ("actor_type", .str entry.actorType),
      ("action", .str entry.action),
      ("resource_type", .str entry.resourceType),
      ("resource_id", .str entry.resourceID),
      ("request_id", .str entry.requestID),
      ("ip_address", .str entry.ipAddress),
      ("before_state", before),
      ("after_state", after),
      ("metadata", metadata),
      ("created_at", .str (String.ofList (Rfc3339.format entry.createdAt)))]

/-- The payload over JSON columns that are texts of values. -/
theorem payload_of_canonical {entry : Columns} {position : ℤ} {previousHash : String}
    {beforeJSON afterJSON metadataJSON : Text} {before after metadata : Json Literal}
    (hbefore : canonicalizeRawJSON beforeJSON = some (print GoJson.style before))
    (hafter : canonicalizeRawJSON afterJSON = some (print GoJson.style after))
    (hmetadata : canonicalizeRawJSON metadataJSON = some (print GoJson.style metadata)) :
    payload entry position previousHash beforeJSON afterJSON metadataJSON
      = .ok (print GoJson.style
          (payloadJson entry position previousHash before after metadata)) := by
  simp only [payload, hbefore, hafter, hmetadata, Option.elim_some]
  rw [payloadJson, print_obj]
  rfl

theorem toLiteral_int_injective {a b : ℤ}
    (h : GoJson.Number.toLiteral (.int a) = GoJson.Number.toLiteral (.int b)) : a = b := by
  simp only [GoJson.Number.toLiteral, Literal.mk.injEq, decide_eq_decide] at h
  omega

theorem payloadJson_inj {entry entry' : Columns} {position position' : ℤ}
    {previousHash previousHash' : String} {before after metadata before' after' metadata' : Json Literal}
    (h : payloadJson entry position previousHash before after metadata
      = payloadJson entry' position' previousHash' before' after' metadata') :
    entry = entry' ∧ position = position' ∧ previousHash = previousHash' ∧ before = before' ∧
      after = after' ∧ metadata = metadata' := by
  simp only [payloadJson, Json.obj.injEq, List.cons.injEq, Prod.mk.injEq, Json.num.injEq,
    Json.str.injEq, true_and, and_true] at h
  obtain ⟨hposition, hprevious, hid, hactor, htype, haction, hrtype, hresource, hrequest, hip,
    hbefore, hafter, hmetadata, hcreated⟩ := h
  have htime : entry.createdAt = entry'.createdAt :=
    Rfc3339.format_injective (String.ofList_injective hcreated)
  refine ⟨?_, toLiteral_int_injective hposition, hprevious, hbefore, hafter, hmetadata⟩
  cases entry
  cases entry'
  simp_all

/-! ## Digests -/

theorem validHash_digest (t : Text) : validHash (digest t) = true := by
  have hdigit : ∀ n : Fin 16, (String.utf8EncodeChar (Nat.digitChar n)).length = 1 ∧
      (hexValue (Nat.digitChar n)).isSome = true ∧
      (Nat.digitChar n).toLower = Nat.digitChar n := by decide
  have hchar : ∀ c ∈ (digest t).toList, (String.utf8EncodeChar c).length = 1 ∧
      (hexValue c).isSome = true ∧ c.toLower = c := by
    intro c hc
    rw [digest, String.toList_ofList] at hc
    obtain ⟨n, rfl⟩ := Sha256.exists_of_mem_hexText (Sha256.sum256_lt _) hc
    exact hdigit n
  have hlength : (digest t).toList.length = 64 := by
    rw [digest, String.toList_ofList, Sha256.length_hexText, Sha256.length_sum256]
  have hbytes : (Sha256.utf8 (digest t).toList).length = 64 := by
    rw [Sha256.length_utf8_of_ascii fun c hc => (hchar c hc).1, hlength]
  simp only [validHash, hbytes, beq_self_eq_true, Bool.true_and, Bool.and_eq_true, List.all_eq_true,
    beq_iff_eq]
  exact ⟨fun c hc => (hchar c hc).2.1, fun c hc => (hchar c hc).2.2⟩

theorem validHash_genesisHash : validHash genesisHash = true := by decide +kernel

/-- Equal digests of texts on which SHA-256 is injective come from equal texts. -/
theorem digest_injOn {texts : Set Text}
    (hinj : Set.InjOn Sha256.sum256 (Sha256.utf8 '' texts)) : Set.InjOn digest texts := by
  intro s hs t ht h
  have hhex := Sha256.hexText_injOn (Sha256.sum256_lt _) (Sha256.sum256_lt _)
    (String.ofList_injective h)
  exact Sha256.utf8_injective (hinj ⟨s, hs, rfl⟩ ⟨t, ht, rfl⟩ hhex)

end Argus.Audit
