import Argus.Base.Digits
import Mathlib

/-!
# RFC 3339 timestamps

Go's `time.RFC3339Nano` layout in UTC for a time in microseconds since the Unix epoch: the proleptic
Gregorian date, the time of day and the fraction of the second without trailing zeros. The text
determines the time.
-/

namespace Argus.Rfc3339

open Digits

/-! ## Dates -/

/-- Days from 1 January of year 1 to the Unix epoch. -/
def unixEpochDays : ℤ := 719162

/-- The year and the day of the year, from days since 1 January of year 1: whole cycles of 400, 100
and 4 years and single years are cut off in turn. The last century of a cycle of 400 and the last
year of a cycle of 4 are a day longer, so a fourth cut is not one. -/
def yearDay (days : ℤ) : ℤ × ℕ :=
  let d := (days % 146097).toNat
  let n100 := d / 36524 - d / 36524 / 4
  let d100 := d - 36524 * n100
  let n4 := d100 / 1461
  let d4 := d100 - 1461 * n4
  let n1 := d4 / 365 - d4 / 365 / 4
  (1 + 400 * (days / 146097) + (100 * n100 + 4 * n4 + n1 : ℕ), d4 - 365 * n1)

def isLeap (year : ℤ) : Bool := year % 4 == 0 && (year % 100 != 0 || year % 400 == 0)

/-- Days of a common year before each month, and after the last. -/
def daysBefore (month : ℕ) : ℕ :=
  [0, 31, 59, 90, 120, 151, 181, 212, 243, 273, 304, 334, 365].getD month 0

/-- Month and day of a day of the year. The day is looked up in a common year, to which the days
after 29 February of a leap year are shifted. -/
def monthDay (leap : Bool) (yday : ℕ) : ℕ × ℕ :=
  if leap ∧ yday = 59 then (2, 29)
  else
    let day := if leap ∧ 59 < yday then yday - 1 else yday
    let month := day / 31
    if daysBefore (month + 1) ≤ day then (month + 2, day - daysBefore (month + 1) + 1)
    else (month + 1, day - daysBefore month + 1)

theorem yearDay_snd_le (days : ℤ) : (yearDay days).2 ≤ 365 := by
  have hlt : (days % 146097).toNat < 146097 := by omega
  simp only [yearDay]
  generalize (days % 146097).toNat = d at hlt
  omega

/-- The cuts of a day in a cycle of 400 years are the digits of the year in it. -/
theorem yearDay_cuts {d : ℕ} (hd : d < 146097) :
    ∃ n100 n4 n1 r, n100 < 4 ∧ n4 < 25 ∧ n1 < 4 ∧ d = 36524 * n100 + 1461 * n4 + 365 * n1 + r ∧
      n100 = d / 36524 - d / 36524 / 4 ∧ n4 = (d - 36524 * n100) / 1461 ∧
      n1 = (d - 36524 * n100 - 1461 * n4) / 365 - (d - 36524 * n100 - 1461 * n4) / 365 / 4 ∧
      r = d - 36524 * n100 - 1461 * n4 - 365 * n1 := by
  refine ⟨_, _, _, _, ?_, ?_, ?_, ?_, rfl, rfl, rfl, rfl⟩ <;> omega

/-- The day back from the year and the day of the year. -/
def ofYearDay (p : ℤ × ℕ) : ℤ :=
  let r := (p.1 - 1) % 400
  146097 * ((p.1 - 1) / 400) + 36524 * (r / 100) + 1461 * (r % 100 / 4) + 365 * (r % 4) + p.2

theorem ofYearDay_yearDay (days : ℤ) : ofYearDay (yearDay days) = days := by
  have hlt : (days % 146097).toNat < 146097 := by omega
  have hcycle : days = 146097 * (days / 146097) + ((days % 146097).toNat : ℤ) := by omega
  obtain ⟨n100, n4, n1, r, h100, h4, h1, hsum, e100, e4, e1, er⟩ := yearDay_cuts hlt
  have hpair : yearDay days = (1 + 400 * (days / 146097) + (100 * n100 + 4 * n4 + n1 : ℕ), r) := by
    simp only [yearDay, ← e100, ← e4, ← e1, ← er]
  rw [hpair]
  simp only [ofYearDay]
  omega

theorem yearDay_injective : Function.Injective yearDay :=
  Function.LeftInverse.injective ofYearDay_yearDay

/-- The day of the year back from month and day. -/
def ofMonthDay (leap : Bool) (p : ℕ × ℕ) : ℕ :=
  daysBefore (p.1 - 1) + p.2 - 1 + if leap ∧ 2 < p.1 then 1 else 0

theorem ofMonthDay_monthDay :
    ∀ (leap : Bool) (yday : Fin 366), ofMonthDay leap (monthDay leap yday) = yday := by
  decide +kernel

/-- The civil date of a day since the Unix epoch: year, month and day. -/
def date (days : ℤ) : ℤ × ℕ × ℕ :=
  let p := yearDay (days + unixEpochDays)
  (p.1, monthDay (isLeap p.1) p.2)

theorem date_injective : Function.Injective date := by
  intro a b h
  simp only [date, Prod.mk.injEq] at h
  obtain ⟨hyear, hmd⟩ := h
  have hyday : ∀ d : ℤ, ofMonthDay (isLeap (yearDay d).1) (monthDay (isLeap (yearDay d).1)
      (yearDay d).2) = (yearDay d).2 := fun d =>
    ofMonthDay_monthDay _ ⟨(yearDay d).2, Nat.lt_succ_of_le (yearDay_snd_le d)⟩
  have hpair : yearDay (a + unixEpochDays) = yearDay (b + unixEpochDays) := by
    refine Prod.ext hyear ?_
    rw [← hyday (a + unixEpochDays), ← hyday (b + unixEpochDays), hmd, hyear]
  have := yearDay_injective hpair
  omega

theorem monthDay_lt : ∀ (leap : Bool) (yday : Fin 366),
    (monthDay leap yday).1 < 100 ∧ (monthDay leap yday).2 < 100 := by
  decide +kernel

theorem date_lt (days : ℤ) : (date days).2.1 < 100 ∧ (date days).2.2 < 100 :=
  monthDay_lt _ ⟨(yearDay (days + unixEpochDays)).2, Nat.lt_succ_of_le (yearDay_snd_le _)⟩

/-! ## Text -/

/-- A number with at least `width` digits, and a sign if it is negative. -/
def padded (width : ℕ) (z : ℤ) : Text :=
  (if z < 0 then ['-'] else []) ++
    (List.replicate (width - (Nat.toDigits 10 z.natAbs).length) '0' ++ Nat.toDigits 10 z.natAbs)

/-- Two digits. -/
def two (n : ℕ) : Text := digitText (fixedDigits 2 n)

/-- The fraction of a second without trailing zeros, and without a point if there is none. -/
def fraction (micros : ℕ) : Text :=
  let ds := (fixedDigits 6 micros).rdropWhile (· == 0)
  if ds = [] then [] else '.' :: digitText ds

/-- `time.RFC3339Nano` of a time in microseconds since the Unix epoch. -/
def format (t : ℤ) : Text :=
  let d := date (t / 86400000000)
  let micros := (t % 86400000000).toNat
  let seconds := micros / 1000000
  padded 4 d.1 ++ ('-' :: two d.2.1 ++ ('-' :: two d.2.2 ++ ('T' :: two (seconds / 3600) ++
    (':' :: two (seconds / 60 % 60) ++ (':' :: two (seconds % 60) ++
      (fraction (micros % 1000000) ++ ['Z']))))))

/-! ## The text determines the time -/

variable {s t : Text} {m n width : ℕ}

theorem isDigit_padding :
    ∀ c ∈ List.replicate (width - (Nat.toDigits 10 n).length) '0' ++ Nat.toDigits 10 n,
      c.isDigit = true := by
  intro c hc
  rcases List.mem_append.mp hc with hc | hc
  · rw [List.eq_of_mem_replicate hc]
    decide
  · exact Nat.isDigit_of_mem_toDigits (by decide) (by decide) hc

theorem padding_append_inj (hs : EndsDigits s) (ht : EndsDigits t)
    (h : List.replicate (width - (Nat.toDigits 10 m).length) '0' ++ Nat.toDigits 10 m ++ s =
      List.replicate (width - (Nat.toDigits 10 n).length) '0' ++ Nat.toDigits 10 n ++ t) :
    m = n ∧ s = t := by
  have htake := congrArg (List.takeWhile Char.isDigit) h
  have hdrop := congrArg (List.dropWhile Char.isDigit) h
  rw [takeWhile_isDigit isDigit_padding hs, takeWhile_isDigit isDigit_padding ht] at htake
  rw [dropWhile_isDigit isDigit_padding hs, dropWhile_isDigit isDigit_padding ht] at hdrop
  refine ⟨?_, hdrop⟩
  have hvalue := congrArg (fun ds => Nat.ofDigitChars 10 ds 0) htake
  simpa [Nat.ofDigitChars_append, Nat.ofDigitChars_replicate_zero] using hvalue

/-- The first character after the sign is a digit, so a minus sign is a sign. -/
theorem padding_append_ne_minus (width n : ℕ) (s t : Text) :
    List.replicate (width - (Nat.toDigits 10 n).length) '0' ++ Nat.toDigits 10 n ++ s
      ≠ '-' :: t := by
  have hne : List.replicate (width - (Nat.toDigits 10 n).length) '0' ++ Nat.toDigits 10 n ≠ [] :=
    List.append_ne_nil_of_right_ne_nil _ Nat.toDigits_ne_nil
  obtain ⟨c, cs, hcs⟩ := List.exists_cons_of_ne_nil hne
  have hc : c.isDigit = true := isDigit_padding c (hcs ▸ List.mem_cons_self)
  rw [hcs]
  intro h
  obtain ⟨rfl, -⟩ := List.cons_eq_cons.mp h
  exact absurd hc (by decide)

theorem padded_append_inj {a b : ℤ} (hs : EndsDigits s) (ht : EndsDigits t)
    (h : padded width a ++ s = padded width b ++ t) : a = b ∧ s = t := by
  unfold padded at h
  by_cases ha : a < 0 <;> by_cases hb : b < 0 <;>
    simp only [ha, hb, if_true, if_false, List.nil_append, List.cons_append] at h
  · obtain ⟨hab, hst⟩ := padding_append_inj hs ht (List.cons_inj_right _ |>.mp h)
    exact ⟨by omega, hst⟩
  · exact absurd h.symm (padding_append_ne_minus _ _ _ _)
  · exact absurd h (padding_append_ne_minus _ _ _ _)
  · obtain ⟨hab, hst⟩ := padding_append_inj hs ht h
    exact ⟨by omega, hst⟩

theorem two_append_inj (hm : m < 100) (hn : n < 100) (h : two m ++ s = two n ++ t) :
    m = n ∧ s = t := by
  obtain ⟨htwo, hst⟩ := List.append_inj h (by simp [two, digitText])
  exact ⟨eq_of_fixedDigits_eq hm hn (digitText_injective htwo), hst⟩

/-- The digits dropped at the end are zeros, as many as are missing. -/
theorem rdropWhile_append_zeros (ds : List (Fin 10)) :
    ds.rdropWhile (· == 0) ++ List.replicate (ds.length - (ds.rdropWhile (· == 0)).length) 0
      = ds := by
  induction ds using List.reverseRecOn with
  | nil => rfl
  | append_singleton ds d ih =>
    by_cases hd : d = 0
    · subst hd
      have hle : (ds.rdropWhile (· == 0)).length ≤ ds.length :=
        (List.rdropWhile_prefix (· == 0) ds).length_le
      rw [List.rdropWhile_concat_pos _ _ _ (by simp), List.length_append, List.length_singleton,
        Nat.sub_add_comm hle, List.replicate_succ', ← List.append_assoc, ih]
    · rw [List.rdropWhile_concat_neg _ _ _ (by simpa using hd)]
      simp

theorem fraction_inj (hm : m < 1000000) (hn : n < 1000000) (h : fraction m = fraction n) :
    m = n := by
  have hds : (fixedDigits 6 m).rdropWhile (· == 0) = (fixedDigits 6 n).rdropWhile (· == 0) := by
    unfold fraction at h
    simp only at h
    split at h <;> split at h
    · rename_i h1 h2
      rw [h1, h2]
    · simp at h
    · simp at h
    · exact digitText_injective (List.cons_inj_right _ |>.mp h)
  refine eq_of_fixedDigits_eq (k := 6) hm hn ?_
  rw [← rdropWhile_append_zeros (fixedDigits 6 m), ← rdropWhile_append_zeros (fixedDigits 6 n), hds]
  simp

/-- A timestamp is determined by its text. -/
theorem format_injective : Function.Injective format := by
  intro a b h
  simp only [format] at h
  have hdash : ∀ t : Text, EndsDigits ('-' :: t) := fun t => by simp [EndsDigits]
  obtain ⟨hyear, h⟩ := padded_append_inj (hdash _) (hdash _) h
  simp only [List.cons_append, List.cons_inj_right] at h
  obtain ⟨hmonth, h⟩ := two_append_inj (date_lt _).1 (date_lt _).1 h
  simp only [List.cons_inj_right] at h
  obtain ⟨hday, h⟩ := two_append_inj (date_lt _).2 (date_lt _).2 h
  simp only [List.cons_inj_right] at h
  obtain ⟨hhour, h⟩ := two_append_inj (by omega) (by omega) h
  simp only [List.cons_inj_right] at h
  obtain ⟨hminute, h⟩ := two_append_inj (by omega) (by omega) h
  simp only [List.cons_inj_right] at h
  obtain ⟨hsecond, h⟩ := two_append_inj (by omega) (by omega) h
  have hmicros := fraction_inj (by omega) (by omega) (List.append_cancel_right h)
  have hdate := date_injective (Prod.ext hyear (Prod.ext hmonth hday))
  omega

end Argus.Rfc3339
