import Argus.Base.Decimals

/-!
# Parameters of an action

A `map[string]any` as decoded from JSON. `encoded` is the text `json.Marshal` writes for it, which
the idempotency key digests. `stored` is what the `jsonb` column compares: the same value, except that
PostgreSQL compares numbers by value, and so does not see the sign of a zero. That sign is the only
thing `encoded` can tell apart and `stored` cannot.
-/

namespace Argus

/-- A `map[string]any`: in key order, no key twice, and so for nested objects. -/
structure GoMap (ν : Type) where
  members : List (String × Json ν)
  normalized : (Json.obj members).normalize GoJson.keyOrder = .obj members

namespace GoMap

variable {ν μ : Type}

@[ext] theorem ext {p q : GoMap ν} (h : p.members = q.members) : p = q := by
  cases p
  cases q
  simp_all

instance [DecidableEq ν] : DecidableEq (GoMap ν) := fun p q =>
  decidable_of_iff (p.members = q.members) ⟨GoMap.ext, fun h => h ▸ rfl⟩

/-- `parameters[key]`. -/
def get (p : GoMap ν) (key : String) : Option (Json ν) := SortedAssoc.lookup key p.members

/-- The empty map, which also stands for a nil one. -/
def nil : GoMap ν where
  members := []
  normalized := rfl

/-- One scalar member. -/
def single (key : String) (value : Json ν) (h : value.normalize GoJson.keyOrder = value) :
    GoMap ν where
  members := [(key, value)]
  normalized := by
    have hcollect : SortedAssoc.collect GoJson.keyOrder [(key, value)] = [(key, value)] := rfl
    rw [Json.normalize_obj, hcollect, List.map_cons, List.map_nil, h]

/-- The map that these members make. -/
def ofMembers (ms : List (String × Json ν)) : GoMap ν where
  members := (SortedAssoc.collect GoJson.keyOrder ms).map fun m =>
    (m.1, m.2.normalize GoJson.keyOrder)
  normalized := by rw [← Json.normalize_obj, Json.normalize_normalize]

/-- The same map with other numbers. -/
def map (f : ν → μ) (p : GoMap ν) : GoMap μ where
  members := p.members.map fun m => (m.1, m.2.map f)
  normalized := by rw [← Json.map_obj, Json.normalize_map, p.normalized]

end GoMap

/-- Parameters as decoded from JSON. -/
abbrev Parameters := GoMap GoJson.Float

namespace Parameters

/-- The empty map, which also stands for a nil one. -/
def empty : Parameters where
  members := []
  normalized := rfl

/-- `json.Marshal(parameters)`. -/
def encoded (p : Parameters) : Digits.Text :=
  GoJson.marshal ((Json.obj p.members).map GoJson.Number.float)

/-- The value of `$4::jsonb`, up to `jsonb` equality. -/
def stored (p : Parameters) : Json GoJson.Float :=
  (Json.obj p.members).map GoJson.Float.unsignedZero

/-- What is read back from the column. -/
def decoded (p : Parameters) : Parameters := p.map GoJson.Float.unsignedZero

/-- No number is a negative zero. -/
def Plain (p : Parameters) : Prop := (Json.obj p.members).NumbersSatisfy GoJson.Float.Plain

theorem stored_of_plain {p : Parameters} (h : p.Plain) : p.stored = .obj p.members := by
  have hid : (Json.obj p.members).map GoJson.Float.unsignedZero = (Json.obj p.members).map id :=
    Json.map_congr_of_numbersSatisfy (fun _ hf => GoJson.Float.unsignedZero_of_plain hf) h
  rw [stored, hid, Json.map_id]

theorem plain_decoded (p : Parameters) : p.decoded.Plain := by
  rw [Plain, decoded, GoMap.map, ← Json.map_obj]
  exact Json.numbersSatisfy_map (P := fun _ => True)
    (fun f _ => GoJson.Float.plain_unsignedZero f) (Json.numbersSatisfy_true _)

/-- Reading back does not change what the column compares. -/
theorem stored_decoded (p : Parameters) : p.decoded.stored = p.stored := by
  rw [stored, decoded, GoMap.map, ← Json.map_obj, Json.map_map]
  exact congrArg (fun f => (Json.obj p.members).map f)
    (funext GoJson.Float.unsignedZero_unsignedZero)

/-- Without negative zeros the column compares parameters as the encoder writes them. -/
theorem eq_of_stored_eq {p q : Parameters} (hp : p.Plain) (hq : q.Plain)
    (h : p.stored = q.stored) : p = q := by
  rw [stored_of_plain hp, stored_of_plain hq] at h
  exact GoMap.ext (Json.obj.inj h)

theorem members_eq_nil_iff_of_stored_eq {p q : Parameters} (h : p.stored = q.stored) :
    p.members = [] ↔ q.members = [] := by
  rw [stored, stored, Json.map_obj, Json.map_obj] at h
  have hlen := congrArg List.length (Json.obj.inj h)
  rw [List.length_map, List.length_map] at hlen
  rw [← List.length_eq_zero_iff, hlen, List.length_eq_zero_iff]

end Parameters

end Argus
