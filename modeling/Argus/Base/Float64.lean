import Argus.Base.Decimals
import Argus.Base.Rounding
import Mathlib.Data.Int.Log

/-!
# Numbers as `float64`

Reading a literal as a `float64` takes the nearest value of 53 significant bits, and writing one
takes the shortest decimal that reads as it. A number is kept by this when the decimal that is
written for what was read is the one that was stored.
-/

namespace Argus

open Digits JsonText

namespace Float64

/-- The nearest double, an even significand half-way between two; none beyond the largest. -/
def nearest (q : ℚ) : Option ℚ :=
  if q = 0 then some 0
  else
    let ulp : ℚ := 2 ^ max (Int.log 2 |q| - 52) (-1074)
    let r := Rounding.nearestEven (q / ulp) * ulp
    if 2 ^ 1024 ≤ |r| then none else some r

/-- The decimals of one to seventeen digits closest to a positive number. -/
def decimals (q : ℚ) : List (ℕ × ℤ) :=
  (List.range 17).map fun k =>
    let e := Int.log 10 q - k
    ((Rounding.nearestEven (q / 10 ^ e)).toNat, e)

/-- The shortest decimal that reads as a positive double. Seventeen digits always do. -/
def shortest (q : ℚ) : ℕ × ℤ :=
  ((decimals q).find? fun d => nearest (d.1 * 10 ^ d.2) = some q).getD
    ((decimals q).getLastD (0, 0))

/-- The value of a literal without its sign. -/
def magnitude (l : Literal) : ℚ :=
  let exponent : ℤ := match l.exp with
    | none => 0
    | some e =>
      let k : ℕ := Nat.ofDigitChars 10 (digitText (e.lead :: e.rest)) 0
      if e.negative = some true then -k else k
  extend l.int l.frac * 10 ^ (exponent - l.frac.length)

/-- `strconv.ParseFloat(literal, 64)`; none where it is out of range. -/
def parse (l : Literal) : Option GoJson.Float := do
  let q ← nearest (magnitude l)
  return if q = 0 then .ofDecimal l.neg 0 0
    else .ofDecimal l.neg (shortest q).1 (shortest q).2

end Float64

end Argus
