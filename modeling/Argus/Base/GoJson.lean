import Argus.Base.JsonText
import Mathlib

/-!
# Go's `encoding/json`

How Go writes numbers, strings and objects. A `float64` is given by its shortest decimal; it is
written without an exponent from `1e-6` up to, but not including, `1e21`, and in exponent form outside.
Decoding with `UseNumber` keeps every number as written and reads an object as a map.
-/

namespace Argus.GoJson

open SortedAssoc (KeyOrder)
open Digits JsonText

/-! ## Numbers -/

/-- The value `coeff * 10 ^ exp10` of a finite `float64`, with the shortest digits that identify it. -/
structure Float where
  neg : Bool
  coeff : ℕ
  exp10 : ℤ
  shortest : coeff % 10 ≠ 0 ∨ coeff = 0 ∧ exp10 = 0

/-- The numbers that `json.Marshal` writes: integers of any Go type, floats, and literals
(`json.Number`, or inside a `json.RawMessage`) as they are. -/
inductive Number where
  | int (z : ℤ)
  | float (f : Float)
  | literal (l : Literal)

/-- The exponent of the first digit. -/
def Float.magnitude (f : Float) : ℤ := f.exp10 + ((Nat.toDigits 10 f.coeff).length - 1 : ℕ)

/-- Whether the float is in `[1e-6, 1e21)` or zero, where the format is `'f'`. -/
def Float.plain (f : Float) : Bool := f.coeff == 0 || (-6 ≤ f.magnitude && f.magnitude < 21)

/-- Format `'f'`: all digits around the decimal point. -/
def Float.fixed (f : Float) : Literal :=
  let k := (-f.exp10).toNat
  { neg := f.neg
    int := f.coeff * 10 ^ f.exp10.toNat / 10 ^ k
    frac := fixedDigits k f.coeff
    exp := none }

/-- Format `'e'`: one digit before the point, and an exponent with its sign and no padding. -/
def Float.scientific (f : Float) : Literal :=
  let n := (Nat.toDigits 10 f.coeff).length - 1
  let e := (Nat.toDigits 10 f.magnitude.natAbs).map charDigit
  { neg := f.neg
    int := f.coeff / 10 ^ n
    frac := fixedDigits n f.coeff
    exp := some ⟨false, some (f.magnitude < 0), e.headD 0, e.tail⟩ }

/-- The literal that Go writes for a number. -/
def Number.toLiteral : Number → Literal
  | .int z => ⟨z < 0, z.natAbs, [], none⟩
  | .float f => if f.plain then f.fixed else f.scientific
  | .literal l => l

/-! ## Text -/

/-- Go also escapes what HTML and JavaScript would interpret. -/
def escape (c : Char) : Text :=
  if c = '<' then ['\\', 'u', '0', '0', '3', 'c']
  else if c = '>' then ['\\', 'u', '0', '0', '3', 'e']
  else if c = '&' then ['\\', 'u', '0', '0', '2', '6']
  else if c = '\u2028' then ['\\', 'u', '2', '0', '2', '8']
  else if c = '\u2029' then ['\\', 'u', '2', '0', '2', '9']
  else escapeBasic c

/-- The style of `json.Marshal`. -/
def style : Style where
  escape := escape
  gap := []
  readChar_escape c t := by
    unfold escape
    split_ifs with h1 h2 h3 h4 h5
    case pos => rw [h1]; rfl
    case pos => rw [h2]; rfl
    case pos => rw [h3]; rfl
    case pos => rw [h4]; rfl
    case pos => rw [h5]; rfl
    case neg => exact readChar_escapeBasic c t
  escape_ne_quote c := by
    unfold escape
    split_ifs
    case neg => exact escapeBasic_ne_quote c
    all_goals exact ⟨_, _, rfl, by decide⟩
  isBlank_gap := by simp

/-- Map keys are written in the order of their bytes, which is that of their characters. -/
def keyOrder : KeyOrder String :=
  KeyOrder.ofKey String.toList fun _ _ => String.toList_injective

/-- `json.Marshal`. -/
def marshal (v : Json Number) : Text := print style (v.map Number.toLiteral)

/-- `Decoder.Decode` into an `any` with `UseNumber`, then `json.Marshal`. -/
def canonicalize (raw : Text) : Option Text :=
  (parse raw).map fun v => print style (v.normalize keyOrder)

/-- Canonical text depends on the parsed value only. -/
theorem canonicalize_print (st : Style) (v : Json Literal) :
    canonicalize (print st v) = some (print style (v.normalize keyOrder)) := by
  rw [canonicalize, parse_print, Option.map_some]

end Argus.GoJson
