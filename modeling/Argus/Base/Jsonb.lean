import Argus.Base.GoJson
import Mathlib

/-!
# PostgreSQL's `jsonb`

A `jsonb` value holds exact decimals with their scale and objects without duplicate keys, ordered by
the length of the key and then by its bytes. Its text has no exponents and no negative zero, so a
number written with either is printed differently from how it was read.
-/

namespace Argus

open SortedAssoc (KeyOrder)
open Digits JsonText

/-! ## Decimals -/

/-- A decimal: its integer part and the digits of its scale. There is no negative zero. -/
structure Numeric where
  neg : Bool
  int : ℕ
  frac : List (Fin 10)
  neg_ne_zero : neg = true → int ≠ 0 ∨ ∃ d ∈ frac, d ≠ 0

namespace Numeric

@[ext] theorem ext {m n : Numeric} (hneg : m.neg = n.neg) (hint : m.int = n.int)
    (hfrac : m.frac = n.frac) : m = n := by
  cases m
  cases n
  simp_all

/-- The literal printed for a decimal. -/
def toLiteral (n : Numeric) : Literal := ⟨n.neg, n.int, n.frac, none⟩

/-- A decimal from its parts; the sign of zero is dropped. -/
def ofParts (neg : Bool) (int : ℕ) (frac : List (Fin 10)) : Numeric where
  neg := neg && (int != 0 || frac.any (· != 0))
  int := int
  frac := frac
  neg_ne_zero h := by simpa using (Bool.and_eq_true_iff.mp h).2

/-- The value of a literal: the exponent moves the decimal point, and the scale with it. -/
def ofLiteral (l : Literal) : Numeric :=
  match l.exp with
  | none => ofParts l.neg l.int l.frac
  | some e =>
    let k := Nat.ofDigitChars 10 (digitText (e.lead :: e.rest)) 0
    if e.negative = some true then
      ofParts l.neg (l.int / 10 ^ k) (fixedDigits k l.int ++ l.frac)
    else
      let moved := l.frac.take k ++ List.replicate (k - l.frac.length) 0
      ofParts l.neg (moved.foldl (fun n d => n * 10 + d) l.int) (l.frac.drop k)

end Numeric

/-- A literal that reads and prints as itself: no exponent and no negative zero. -/
def JsonText.Literal.Plain (l : Literal) : Prop :=
  l.exp = none ∧ (l.neg = true → l.int ≠ 0 ∨ ∃ d ∈ l.frac, d ≠ 0)

theorem Numeric.toLiteral_ofLiteral {l : Literal} (h : l.Plain) :
    (Numeric.ofLiteral l).toLiteral = l := by
  obtain ⟨neg, int, frac, exp⟩ := l
  obtain ⟨rfl, hneg⟩ := h
  have hsign : (neg && (int != 0 || frac.any (· != 0))) = neg := by
    cases neg with
    | false => rfl
    | true => simpa using hneg rfl
  simp only [ofLiteral, ofParts, toLiteral, hsign]

theorem Numeric.ofLiteral_toLiteral (n : Numeric) : Numeric.ofLiteral n.toLiteral = n := by
  have hplain : n.toLiteral.Plain := ⟨rfl, n.neg_ne_zero⟩
  have h := Numeric.toLiteral_ofLiteral hplain
  injection h with hneg hint hfrac
  exact Numeric.ext hneg hint hfrac

/-! ## Values -/

namespace Jsonb

/-- Keys are ordered by their length in bytes, then bytewise. -/
def keyOrder : KeyOrder String :=
  KeyOrder.ofKey (fun k => (toLex (k.utf8ByteSize, k.toList) : ℕ ×ₗ List Char)) fun a b h => by
    have hpair := toLex.injective h
    exact String.toList_injective (Prod.ext_iff.mp hpair).2

/-- The style of `jsonb` output: a blank after each comma and colon. -/
def style : Style where
  escape := escapeBasic
  gap := [' ']
  readChar_escape := readChar_escapeBasic
  escape_ne_quote := escapeBasic_ne_quote
  isBlank_gap := by simp [isBlank]

end Jsonb

/-- A stored value: every object in key order, without duplicates. -/
structure Jsonb where
  value : Json Numeric
  normalized : value.normalize Jsonb.keyOrder = value

variable {v : Json Literal} {a b j : Jsonb} {st : Style}

namespace Jsonb

@[ext] theorem ext (h : a.value = b.value) : a = b := by
  cases a
  cases b
  simp_all

/-- Strings, keys included, that contain the character U+0000, which `jsonb` cannot store. -/
def hasNul (v : Json Literal) : Bool :=
  v.fold
    { null := false
      bool := fun _ => false
      num := fun _ => false
      str := fun s => s.toList.any (· == '\x00')
      arr := fun items => items.any id
      obj := fun members => members.any fun m => m.1.toList.any (· == '\x00') || m.2 }

def ofJson (v : Json Literal) : Jsonb where
  value := (v.map Numeric.ofLiteral).normalize keyOrder
  normalized := Json.normalize_normalize _ _ _

/-- The value stored for a text. -/
def ofText (t : Text) : Option Jsonb := do
  let v ← parse t
  if hasNul v then none else some (ofJson v)

/-- The value as literals. -/
def toJson (j : Jsonb) : Json Literal := j.value.map Numeric.toLiteral

/-- The text of a stored value. -/
def text (j : Jsonb) : Text := print style j.toJson

/-- JSON `null`, which stands for SQL `NULL` where it is coalesced. -/
def null : Jsonb where
  value := .null
  normalized := rfl

theorem toJson_ofJson (h : v.NumbersSatisfy Literal.Plain) :
    (ofJson v).toJson = v.normalize keyOrder := by
  have hplain : v.map (Numeric.toLiteral ∘ Numeric.ofLiteral) = v.map id :=
    Json.map_congr_of_numbersSatisfy (fun l hl => Numeric.toLiteral_ofLiteral hl) h
  rw [toJson, ofJson, ← Json.normalize_map, Json.map_map, hplain, Json.map_id]

theorem eq_ofJson_of_ofText (hj : ofText (print st v) = some j) : j = ofJson v := by
  simp only [ofText, parse_print, Option.bind_eq_bind, Option.bind_some] at hj
  split at hj
  · cases hj
  · exact (Option.some_inj.mp hj).symm

/-- Storing a text keeps its canonical form when its numbers are plain. -/
theorem normalize_toJson_of_ofText (h : v.NumbersSatisfy Literal.Plain)
    (hj : ofText (print st v) = some j) :
    j.toJson.normalize GoJson.keyOrder = v.normalize GoJson.keyOrder := by
  rw [eq_ofJson_of_ofText hj, toJson_ofJson h, Json.normalize_normalize]

/-- The value as a Go map determines the stored value. -/
theorem eq_of_normalize_toJson_eq
    (h : a.toJson.normalize GoJson.keyOrder = b.toJson.normalize GoJson.keyOrder) : a = b := by
  have hsorted := congrArg (Json.normalize keyOrder) h
  rw [Json.normalize_normalize, Json.normalize_normalize, toJson, toJson, Json.normalize_map,
    Json.normalize_map, a.normalized, b.normalized] at hsorted
  exact Jsonb.ext (Json.map_injective Numeric.ofLiteral_toLiteral hsorted)

end Jsonb

end Argus
