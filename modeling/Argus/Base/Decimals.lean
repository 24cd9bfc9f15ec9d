import Argus.Base.Jsonb

/-!
# Decimals and Go numbers

The number that digits write, and the decimal without trailing zeros. Where a number is an integer
in the range of `int64`, its digits say so, whatever Go type it has.
-/

namespace Argus

/-! ## The value of digits -/

namespace Digits

/-- The number whose digits are those of a number followed by others. -/
def extend (n : ℕ) (ds : List (Fin 10)) : ℕ := ds.foldl (fun n (d : Fin 10) => n * 10 + d) n

/-- A coefficient and an exponent without the trailing zeros. -/
def trimZeros : ℕ → ℕ → ℤ → ℕ × ℤ
  | 0, c, e => (c, e)
  | fuel + 1, c, e => if c % 10 = 0 then trimZeros fuel (c / 10) (e + 1) else (c, e)

theorem trimZeros_mod {fuel c : ℕ} (hc : c ≠ 0) (hfuel : c ≤ fuel) (e : ℤ) :
    (trimZeros fuel c e).1 % 10 ≠ 0 := by
  induction fuel generalizing c e with
  | zero => omega
  | succ fuel ih =>
    rw [trimZeros]
    split
    · exact ih (by omega) (by omega) (e + 1)
    · assumption

end Digits

open Digits JsonText

/-! ## Floats -/

namespace GoJson.Float

instance : DecidableEq GoJson.Float := fun a b =>
  decidable_of_iff (a.neg = b.neg ∧ a.coeff = b.coeff ∧ a.exp10 = b.exp10) <| by
    cases a
    cases b
    simp

/-- The value without the sign of a zero. -/
def unsignedZero (f : GoJson.Float) : GoJson.Float :=
  { f with neg := f.neg && f.coeff != 0 }

/-- Not the negative zero. -/
def Plain (f : GoJson.Float) : Prop := f.coeff = 0 → f.neg = false

theorem unsignedZero_of_plain {f : GoJson.Float} (h : f.Plain) : f.unsignedZero = f := by
  obtain ⟨neg, coeff, exp10, shortest⟩ := f
  by_cases hc : coeff = 0
  · have hneg : neg = false := h hc
    simp [unsignedZero, hneg]
  · simp [unsignedZero, hc]

theorem plain_unsignedZero (f : GoJson.Float) : f.unsignedZero.Plain := by
  intro hzero
  have hcoeff : f.coeff = 0 := hzero
  simp [unsignedZero, hcoeff]

theorem unsignedZero_unsignedZero (f : GoJson.Float) : f.unsignedZero.unsignedZero = f.unsignedZero :=
  unsignedZero_of_plain (plain_unsignedZero f)

/-- The float of a decimal whose digits identify one. -/
def ofDecimal (neg : Bool) (c : ℕ) (e : ℤ) : GoJson.Float :=
  if h : c = 0 then ⟨neg, 0, 0, .inr ⟨rfl, rfl⟩⟩
  else ⟨neg, (trimZeros c c e).1, (trimZeros c c e).2, .inl (trimZeros_mod h le_rfl e)⟩

/-- `float64(n)`, for an integer that is one. -/
def ofInt (n : ℤ) : GoJson.Float := ofDecimal (n < 0) n.natAbs 0

end GoJson.Float

/-! ## Integers -/

/-- The range of `int64`. -/
def IsInt64 (n : ℤ) : Prop := -2 ^ 63 ≤ n ∧ n < 2 ^ 63

instance (n : ℤ) : Decidable (IsInt64 n) := inferInstanceAs (Decidable (_ ∧ _))

/-- `json.Number.Int64`: an integer without a fraction or an exponent. -/
def JsonText.Literal.int64 (l : Literal) : Option ℤ :=
  let n : ℤ := (if l.neg then -1 else 1) * l.int
  if l.exp = none ∧ l.frac = [] ∧ IsInt64 n then some n else none

namespace GoJson

/-- The integer a `float64` is, if it is one in the range of `int`. -/
def Float.integer (f : Float) : Option ℤ :=
  let n : ℤ := (if f.neg then -1 else 1) * (f.coeff * 10 ^ f.exp10.toNat : ℕ)
  if 0 ≤ f.exp10 ∧ -2 ^ 63 ≤ n ∧ n ≤ 2 ^ 63 then some n else none

/-- The integer that a number is by its type. -/
def Number.integer : Number → Option ℤ
  | .int z => if IsInt64 z then some z else none
  | .float f => f.integer
  | .literal l => l.int64

@[simp] theorem Float.integer_unsignedZero (f : Float) : f.unsignedZero.integer = f.integer := by
  by_cases hzero : f.coeff = 0 <;> simp [unsignedZero, integer, hzero]

/-- A float in exponent form is too large for an integer of type `int64`. -/
theorem Float.lt_of_not_plain {f : Float} (hplain : f.plain = false) (hexp : 0 ≤ f.exp10) :
    2 ^ 63 < f.coeff * 10 ^ f.exp10.toNat := by
  obtain ⟨hcoeff, hmagnitude⟩ : f.coeff ≠ 0 ∧ (-6 ≤ f.magnitude → 21 ≤ f.magnitude) := by
    simpa [plain] using hplain
  obtain ⟨n, hn⟩ : ∃ n, (Nat.toDigits 10 f.coeff).length = n + 1 :=
    Nat.exists_eq_add_one.mpr Nat.length_toDigits_pos
  have hdigits : 21 ≤ n + f.exp10.toNat := by
    rw [magnitude, hn, Nat.add_sub_cancel] at hmagnitude
    omega
  have hlow : 10 ^ n ≤ f.coeff := by
    rcases Nat.eq_zero_or_pos n with rfl | hpos
    · exact Nat.one_le_iff_ne_zero.mpr hcoeff
    · have hiff := Nat.length_toDigits_le_iff (b := 10) (n := f.coeff) (by decide) hpos
      by_contra hlt
      have hle := hiff.mpr (Nat.lt_of_not_le hlt)
      omega
  calc 2 ^ 63 < 10 ^ 21 := by decide
    _ ≤ 10 ^ (n + f.exp10.toNat) := Nat.pow_le_pow_right (by decide) hdigits
    _ = 10 ^ n * 10 ^ f.exp10.toNat := Nat.pow_add ..
    _ ≤ f.coeff * 10 ^ f.exp10.toNat := Nat.mul_le_mul_right _ hlow

/-- Where a float is written as an integer, that is its value. -/
theorem Float.int64_fixed_iff {z : ℤ} (hz : IsInt64 z) (f : Float) :
    f.fixed.int64 = some z ↔ f.integer = some z := by
  by_cases hexp : 0 ≤ f.exp10
  · have hscale : (-f.exp10).toNat = 0 := by omega
    simp only [Literal.int64, fixed, hscale, fixedDigits, Nat.pow_zero, Nat.div_one, integer, hexp,
      true_and, Option.ite_none_right_eq_some, Option.some.injEq]
    refine and_congr_left ?_
    rintro rfl
    exact ⟨fun h => ⟨h.1, h.2.le⟩, fun _ => hz⟩
  · have hfrac : f.fixed.frac ≠ [] := by
      rw [← List.length_pos_iff, fixed, length_fixedDigits]
      omega
    simp [Literal.int64, hfrac, integer, hexp]

theorem Float.int64_scientific_iff {z : ℤ} (hz : IsInt64 z) {f : Float} (hplain : f.plain = false) :
    f.scientific.int64 = some z ↔ f.integer = some z := by
  have hliteral : f.scientific.int64 = none := by simp [Literal.int64, scientific]
  rw [hliteral]
  constructor
  · rintro ⟨⟩
  intro h
  simp only [integer, Option.ite_none_right_eq_some, Option.some.injEq] at h
  obtain ⟨⟨hexp, -⟩, hvalue⟩ := h
  have hlarge := lt_of_not_plain hplain hexp
  obtain ⟨hlow, hhigh⟩ := hz
  split at hvalue <;> omega

/-- The digits of a number say which integer it is, whatever type it has. -/
theorem Number.int64_toLiteral_iff {z : ℤ} (hz : IsInt64 z) (n : Number) :
    n.toLiteral.int64 = some z ↔ n.integer = some z := by
  cases n with
  | int y =>
    have hvalue : (if y < 0 then -1 else 1) * (y.natAbs : ℤ) = y := by
      split <;> omega
    simp only [toLiteral, Literal.int64, decide_eq_true_eq, hvalue, true_and, integer]
  | literal l => rfl
  | float f =>
    rw [toLiteral]
    split
    · exact Float.int64_fixed_iff hz f
    · exact Float.int64_scientific_iff hz (by simpa using ‹¬ f.plain = true›)

end GoJson

end Argus
