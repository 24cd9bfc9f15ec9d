import Argus.Actions.Catalog

/-!
# Parameters from proposal to execution

Parameters are validated as a Go map, where a number may be an integer, and validated again as read back from
their `jsonb` column, where every number is a `float64`. What lies between is their JSON text, and that
determines the verdict and the integers that `Integer` reads.
-/

namespace Argus

open Digits JsonText

namespace GoMap

variable {ν μ : Type}

theorem get_map (f : ν → μ) (p : GoMap ν) (key : String) :
    (p.map f).get key = (p.get key).map (Json.map f) :=
  SortedAssoc.lookup_map (Json.map f) key p.members

theorem isNone_get_map (f : ν → μ) (p : GoMap ν) (key : String) :
    ((p.map f).get key).isNone = (p.get key).isNone := by
  rw [get_map, Option.isNone_map]

/-- `json.Marshal(parameters)`. -/
def encoded (g : GoMap GoJson.Number) : Text := GoJson.marshal (.obj g.members)

/-- The text of parameters determines them up to the types of their numbers. -/
theorem map_toLiteral_eq {g : GoMap GoJson.Number} {p : Parameters} (h : g.encoded = p.encoded) :
    g.map GoJson.Number.toLiteral = p.map fun f => (GoJson.Number.float f).toLiteral := by
  have hvalue := print_injective _ h
  rw [Json.map_map, Json.map_obj, Json.map_obj] at hvalue
  exact GoMap.ext (Json.obj.inj hvalue)

end GoMap

namespace Actions

/-! ## Validation -/

variable {ν μ : Type}

theorem bool_map (f : ν → μ) (p : GoMap ν) (key : String) (b : Bool) :
    (p.map f).get key = some (.bool b) ↔ p.get key = some (.bool b) := by
  rw [GoMap.get_map]
  cases p.get key with
  | none => simp
  | some v => cases v <;> simp [Json.map, Json.fold, Json.mapAlgebra]

theorem validateKeys_map (f : ν → μ) (p : GoMap ν) (required : List String) :
    validateKeys (p.map f) required = validateKeys p required := by
  simp only [validateKeys, GoMap.isNone_get_map]
  simp only [GoMap.map, List.length_map]

theorem validateToggleFeatureFlag_map (f : ν → μ) (target : String) (p : GoMap ν) :
    validateToggleFeatureFlag target (p.map f) = validateToggleFeatureFlag target p := by
  simp only [validateToggleFeatureFlag, validateKeys_map, GoMap.get_map]
  cases p.get "enabled" with
  | none => rfl
  | some v => cases v <;> rfl

variable [HasInteger ν] [HasInteger μ] {f : ν → μ}

/-- The numbers are the same integers, as far as these are of type `int64`. -/
def SameIntegers (f : ν → μ) : Prop :=
  ∀ n z, IsInt64 z → (HasInteger.integer (f n) = some z ↔ HasInteger.integer n = some z)

theorem integer_map (hf : SameIntegers f) (p : GoMap ν) (key : String) {z : ℤ} (hz : IsInt64 z) :
    integer ((p.map f).get key) = some z ↔ integer (p.get key) = some z := by
  rw [GoMap.get_map]
  cases p.get key with
  | none => rfl
  | some v =>
    cases v with
    | num n => exact hf n z hz
    | null | bool _ | str _ | arr _ | obj _ => rfl

variable {p : GoMap ν} {high low : ℤ}

theorem validateInteger_eq_ok_iff {key : String} {message : String} :
    validateInteger p key low high message = .ok () ↔
      ∃ n, integer (p.get key) = some n ∧ low ≤ n ∧ n ≤ high := by
  unfold validateInteger
  cases integer (p.get key) with
  | none => simp
  | some n => simp

/-- A check that fails says so with its message. -/
theorem validateInteger_of_ne_ok {key : String} {message : String}
    (h : validateInteger p key low high message ≠ .ok ()) :
    validateInteger p key low high message = .error message := by
  unfold validateInteger at h ⊢
  split
  · split
    · simp_all
    · rfl
  · rfl

theorem validateInteger_map (hf : SameIntegers f) (p : GoMap ν) (key : String) (hlow : IsInt64 low)
    (hhigh : IsInt64 high) (message : String) :
    validateInteger (p.map f) key low high message = validateInteger p key low high message := by
  have hiff : validateInteger (p.map f) key low high message = .ok () ↔
      validateInteger p key low high message = .ok () := by
    rw [validateInteger_eq_ok_iff, validateInteger_eq_ok_iff]
    refine exists_congr fun n => and_congr_left fun ⟨hn, hn'⟩ => ?_
    exact integer_map hf p key ⟨hlow.1.trans hn, hn'.trans_lt hhigh.2⟩
  by_cases hok : validateInteger p key low high message = .ok ()
  · rw [hok, hiff.mpr hok]
  · rw [validateInteger_of_ne_ok hok, validateInteger_of_ne_ok (mt hiff.mp hok)]

/-- `Validate` does not depend on the types of numbers. -/
theorem validate_map (hf : SameIntegers f) (action target : String) (p : GoMap ν) :
    validate action target (p.map f) = validate action target p := by
  unfold validate
  split
  · simp only [validateRestartPod, validateKeys_map]
  · simp only [validateResizeConnectionPool, validateKeys_map,
      validateInteger_map hf p _ (by decide : IsInt64 2) (by decide : IsInt64 50)]
  · exact validateToggleFeatureFlag_map f target p
  · simp only [validatePurgeCache, validateKeys_map,
      validateInteger_map hf p _ (by decide : IsInt64 1) (by decide : IsInt64 1000)]
  · rfl
  · rfl

theorem sameIntegers_toLiteral : SameIntegers GoJson.Number.toLiteral :=
  fun n _ hz => GoJson.Number.int64_toLiteral_iff hz n

theorem sameIntegers_float : SameIntegers fun f : GoJson.Float => (GoJson.Number.float f).toLiteral :=
  fun f _ hz => GoJson.Number.int64_toLiteral_iff hz (.float f)

theorem sameIntegers_unsignedZero : SameIntegers GoJson.Float.unsignedZero :=
  fun f z _ => Iff.of_eq (congrArg (· = some z) (GoJson.Float.integer_unsignedZero f))

/-! ## From the Go map to the row -/

section

variable {g : GoMap GoJson.Number} {p : Parameters}

/-- The verdict on a Go map is that on its text. -/
theorem validate_of_encoded_eq (h : g.encoded = p.encoded) (action target : String) :
    validate action target g = validate action target p := by
  rw [← validate_map sameIntegers_toLiteral, GoMap.map_toLiteral_eq h,
    validate_map sameIntegers_float]

/-- The verdict on what is read back is that on what was stored. -/
theorem validate_decoded (action target : String) (p : Parameters) :
    validate action target p.decoded = validate action target p :=
  validate_map sameIntegers_unsignedZero action target p

theorem integer_get_iff (h : g.encoded = p.encoded) (key : String) {z : ℤ} (hz : IsInt64 z) :
    integer (g.get key) = some z ↔ integer (p.decoded.get key) = some z := by
  rw [Parameters.decoded, integer_map sameIntegers_unsignedZero p key hz,
    ← integer_map sameIntegers_toLiteral g key hz, GoMap.map_toLiteral_eq h,
    integer_map sameIntegers_float p key hz]

theorem bool_get_iff (h : g.encoded = p.encoded) (key : String) (b : Bool) :
    g.get key = some (.bool b) ↔ p.decoded.get key = some (.bool b) := by
  rw [Parameters.decoded, bool_map, ← bool_map GoJson.Number.toLiteral, GoMap.map_toLiteral_eq h,
    bool_map]

end

/-! ## What validated parameters contain -/

private theorem ok_of_bind {x y : Except String Unit} (h : (x >>= fun _ => y) = .ok ()) :
    y = .ok () := by
  cases x with
  | error e => cases h
  | ok _ => exact h

variable {target : String}

theorem size_of_validate (h : validate Action.resizeConnectionPool.name target p = .ok ()) :
    ∃ n, integer (p.get "size") = some n ∧ 2 ≤ n ∧ n ≤ 50 := by
  have hresize : validateResizeConnectionPool target p = .ok () := h
  unfold validateResizeConnectionPool at hresize
  split at hresize
  · cases hresize
  · exact validateInteger_eq_ok_iff.mp (ok_of_bind hresize)

theorem maxKeys_of_validate (h : validate Action.purgeCache.name target p = .ok ()) :
    ∃ n, integer (p.get "max_keys") = some n ∧ 1 ≤ n ∧ n ≤ 1000 :=
  validateInteger_eq_ok_iff.mp (ok_of_bind (ok_of_bind h))

theorem enabled_of_validate (h : validate Action.toggleFeatureFlag.name target p = .ok ()) :
    ∃ b, p.get "enabled" = some (.bool b) := by
  have htoggle : validateToggleFeatureFlag target p = .ok () := h
  by_cases hflag : target ∈ allowedFlags
  · simp only [validateToggleFeatureFlag, hflag, not_true, if_false] at htoggle
    have hbool := ok_of_bind htoggle
    split at hbool
    · rename_i b hget
      exact ⟨b, hget⟩
    · cases hbool
  · simp only [validateToggleFeatureFlag, hflag, not_false_iff, if_true] at htoggle
    cases htoggle

end Actions

end Argus
