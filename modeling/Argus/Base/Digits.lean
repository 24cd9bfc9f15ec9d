import Mathlib

/-!
# Decimal digits in text

Runs of decimal digits: writing them, reading the run at the start of a text, and the digits of a
number at a fixed width.
-/

namespace Argus.Digits

instance neZero_ten : NeZero 10 := ⟨by decide⟩

/-- Text as its characters. -/
abbrev Text := List Char

def digitText (ds : List (Fin 10)) : Text := ds.map fun d : Fin 10 => Nat.digitChar d

def charDigit (c : Char) : Fin 10 := Fin.ofNat 10 (c.toNat - '0'.toNat)

/-- The digits at the start of a text. -/
def scanDigits (t : Text) : List (Fin 10) × Text :=
  ((t.takeWhile Char.isDigit).map charDigit, t.dropWhile Char.isDigit)

/-- A text that does not continue a run of digits. -/
def EndsDigits (t : Text) : Prop := ∀ c ∈ t.head?, c.isDigit = false

theorem takeWhile_isDigit {ds t : Text} (hds : ∀ c ∈ ds, c.isDigit = true) (ht : EndsDigits t) :
    (ds ++ t).takeWhile Char.isDigit = ds := by
  rw [List.takeWhile_append_of_pos hds]
  cases t with
  | nil => simp
  | cons c t => simp [ht c rfl]

theorem dropWhile_isDigit {ds t : Text} (hds : ∀ c ∈ ds, c.isDigit = true) (ht : EndsDigits t) :
    (ds ++ t).dropWhile Char.isDigit = t := by
  rw [List.dropWhile_append_of_pos hds]
  cases t with
  | nil => simp
  | cons c t => simp [ht c rfl]

theorem isDigit_of_mem_digitText {ds : List (Fin 10)} {c : Char} (h : c ∈ digitText ds) :
    c.isDigit = true := by
  have hdigit : ∀ d : Fin 10, (Nat.digitChar d).isDigit = true := by decide
  obtain ⟨d, -, rfl⟩ := List.mem_map.mp h
  exact hdigit d

theorem scanDigits_digitText (ds : List (Fin 10)) {t : Text} (ht : EndsDigits t) :
    scanDigits (digitText ds ++ t) = (ds, t) := by
  have hds : ∀ c ∈ digitText ds, c.isDigit = true := fun c => isDigit_of_mem_digitText
  have hinv : ∀ d : Fin 10, charDigit (Nat.digitChar d) = d := by decide
  rw [scanDigits, takeWhile_isDigit hds ht, dropWhile_isDigit hds ht, digitText, List.map_map]
  refine Prod.ext ?_ rfl
  calc ds.map (charDigit ∘ fun d : Fin 10 => Nat.digitChar d) = ds.map id :=
        List.map_congr_left fun d _ => hinv d
    _ = ds := List.map_id ds

/-! ## Digits at a fixed width -/

/-- The `k` low decimal digits of a number, most significant first. -/
def fixedDigits : ℕ → ℕ → List (Fin 10)
  | 0, _ => []
  | k + 1, n => fixedDigits k (n / 10) ++ [Fin.ofNat 10 n]

@[simp] theorem length_fixedDigits (k n : ℕ) : (fixedDigits k n).length = k := by
  induction k generalizing n with
  | zero => rfl
  | succ k ih => simp [fixedDigits, ih]

theorem eq_of_fixedDigits_eq {k m n : ℕ} (hm : m < 10 ^ k) (hn : n < 10 ^ k)
    (h : fixedDigits k m = fixedDigits k n) : m = n := by
  induction k generalizing m n with
  | zero => simp at hm hn; omega
  | succ k ih =>
    obtain ⟨hhigh, hlow⟩ := List.append_inj' h rfl
    have hdiv := ih (by rw [Nat.pow_succ] at hm; omega) (by rw [Nat.pow_succ] at hn; omega) hhigh
    have hmod : m % 10 = n % 10 := by
      simpa [Fin.ofNat, Fin.ext_iff] using hlow
    omega

theorem digitText_injective : Function.Injective digitText := by
  intro ds es h
  have hend : EndsDigits [] := by simp [EndsDigits]
  have hscan := congrArg scanDigits (congrArg (· ++ []) h)
  rw [scanDigits_digitText ds hend, scanDigits_digitText es hend] at hscan
  exact (Prod.ext_iff.mp hscan).1

end Argus.Digits
