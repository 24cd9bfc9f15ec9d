import Argus.Base.Digits
import Mathlib

/-!
# Rounding to decimal places

Truncation and rounding of rational numbers, and their text with a fixed number of decimals. A number
that already has few enough decimals is its own rounding, whatever the rule for half-way cases.
-/

namespace Argus.Rounding

/-- The integer part: the fraction is dropped. -/
def truncate (q : ℚ) : ℤ := if q < 0 then ⌈q⌉ else ⌊q⌋

/-- The nearest integer, the even one half-way between two. -/
def nearestEven (q : ℚ) : ℤ :=
  let low := ⌊q⌋
  if q - low < 1 / 2 then low
  else if 1 / 2 < q - low then low + 1
  else if low % 2 = 0 then low else low + 1

/-- The nearest number with so many decimals, the one with an even last digit half-way. -/
def toPlaces (places : ℕ) (q : ℚ) : ℚ := nearestEven (q * 10 ^ places) / 10 ^ places

/-- The text with so many decimals. -/
def fixed (places : ℕ) (q : ℚ) : String :=
  let scaled := (nearestEven (|q| * 10 ^ places)).toNat
  let whole := toString (scaled / 10 ^ places)
  let fraction := String.ofList (Digits.digitText (Digits.fixedDigits places scaled))
  (if q < 0 then "-" else "") ++ whole ++ (if places = 0 then "" else "." ++ fraction)

theorem truncate_add_half {z : ℤ} (hz : 0 ≤ z) : truncate (z + 1 / 2) = z := by
  have hnonneg : ¬ ((z : ℚ) + 1 / 2 < 0) := by
    have : (0 : ℚ) ≤ z := by exact_mod_cast hz
    linarith
  rw [truncate, if_neg hnonneg, Int.floor_eq_iff]
  constructor <;> linarith

theorem truncate_sub_half {z : ℤ} (hz : z < 0) : truncate (z - 1 / 2) = z := by
  have hneg : (z : ℚ) - 1 / 2 < 0 := by
    have : (z : ℚ) < 0 := by exact_mod_cast hz
    linarith
  rw [truncate, if_pos hneg, Int.ceil_eq_iff]
  constructor <;> linarith

theorem truncate_mono : Monotone truncate := by
  intro p q hpq
  unfold truncate
  split_ifs with hp hq hq
  · exact Int.ceil_mono hpq
  · exact (Int.ceil_le.mpr (by exact_mod_cast hp.le)).trans (Int.floor_nonneg.mpr (not_lt.mp hq))
  · exact absurd (hpq.trans_lt hq) hp
  · exact Int.floor_mono hpq

theorem nearestEven_intCast (z : ℤ) : nearestEven (z : ℚ) = z := by
  simp [nearestEven]

/-- A number with few enough decimals is its own rounding. -/
theorem toPlaces_of_int {places : ℕ} {q : ℚ} {z : ℤ} (h : q * 10 ^ places = z) :
    toPlaces places q = q := by
  have hpos : (10 : ℚ) ^ places ≠ 0 := by positivity
  rw [toPlaces, h, nearestEven_intCast, ← h, mul_div_assoc, div_self hpos, mul_one]

example : (fixed 2 (3 / 8), fixed 4 (-19 / 20), fixed 2 12) = ("0.38", "-0.9500", "12.00") := by
  decide +kernel

end Argus.Rounding
