import Argus.Actions.RoundTrip
import Argus.Base.Float64

/-!
# Maps in `jsonb` columns

A `map[string]any` is stored as the `jsonb` value of its JSON text and read back with every number a
`float64`. A map whose numbers are kept by this is stored again as what was stored, and assignments
to the map as read back are stored as the same assignments to the map itself.
-/

namespace Argus

open Digits JsonText

/-! ## Numbers -/

instance : DecidableEq Numeric := fun m n =>
  decidable_of_iff (m.neg = n.neg ∧ m.int = n.int ∧ m.frac = n.frac)
    ⟨fun ⟨hneg, hint, hfrac⟩ => Numeric.ext hneg hint hfrac, fun h => h ▸ ⟨rfl, rfl, rfl⟩⟩

namespace GoJson.Number

/-- The decimal that is stored for a number. -/
def numeric (n : Number) : Numeric := Numeric.ofLiteral n.toLiteral

/-- The number as read back. -/
def readBack (n : Number) : Option Float := Float64.parse n.numeric.toLiteral

/-- Reading the number back and storing it again stores the same decimal. -/
def Kept (n : Number) : Prop := n.readBack.map (fun f => (Number.float f).numeric) = some n.numeric

instance (n : Number) : Decidable n.Kept := inferInstanceAs (Decidable (_ = _))

theorem Kept.exists_float {n : Number} (h : n.Kept) :
    ∃ f, n.readBack = some f ∧ (Number.float f).numeric = n.numeric :=
  Option.map_eq_some_iff.mp h

/-- What was read back of a kept number is kept. -/
theorem Kept.float {n : Number} (h : n.Kept) {f : Float} (hf : n.readBack = some f) :
    (Number.float f).Kept := by
  obtain ⟨f', hf', hnumeric⟩ := h.exists_float
  obtain rfl := Option.some_inj.mp (hf.symm.trans hf')
  have hread : (Number.float f).readBack = some f := by rw [readBack, hnumeric]; exact hf
  rw [Kept, hread, Option.map_some]

end GoJson.Number

open GoJson (Number)

namespace GoMap

variable {ν μ ξ : Type}

/-! ## Assignments -/

/-- `m[key] = value` for each of these members in turn. -/
def assign (p : GoMap ν) (ms : List (String × Json ν)) : GoMap ν := ofMembers (p.members ++ ms)

theorem get_ofMembers (ms : List (String × Json ν)) (key : String) :
    (ofMembers ms).get key =
      (SortedAssoc.lookup key ms.reverse).map (Json.normalize GoJson.keyOrder) := by
  rw [← SortedAssoc.lookup_collect (o := GoJson.keyOrder)]
  exact SortedAssoc.lookup_map (Json.normalize GoJson.keyOrder) key _

theorem map_map (f : ν → μ) (g : μ → ξ) (p : GoMap ν) : (p.map f).map g = p.map (g ∘ f) := by
  refine GoMap.ext ?_
  simp only [map, List.map_map]
  exact List.map_congr_left fun m _ => Prod.ext rfl (Json.map_map f g m.2)

theorem map_ofMembers (f : ν → μ) (ms : List (String × Json ν)) :
    (ofMembers ms).map f = ofMembers (ms.map fun m => (m.1, m.2.map f)) := by
  have h := Json.normalize_map GoJson.keyOrder f (.obj ms)
  rw [Json.map_obj, Json.normalize_obj, Json.normalize_obj, Json.map_obj] at h
  exact GoMap.ext (Json.obj.inj h).symm

theorem map_assign (f : ν → μ) (p : GoMap ν) (ms : List (String × Json ν)) :
    (p.assign ms).map f = (p.map f).assign (ms.map fun m => (m.1, m.2.map f)) := by
  rw [assign, map_ofMembers, List.map_append]
  rfl

theorem ofMembers_members (p : GoMap ν) : ofMembers p.members = p := by
  have h := p.normalized
  rw [Json.normalize_obj] at h
  exact GoMap.ext (Json.obj.inj h)

/-- A member is what was assigned last, or what it was. -/
theorem get_assign (p : GoMap ν) (ms : List (String × Json ν)) (key : String) :
    (p.assign ms).get key =
      ((SortedAssoc.lookup key ms.reverse).map (Json.normalize GoJson.keyOrder)).or
        (p.get key) := by
  have hp := get_ofMembers p.members key
  rw [ofMembers_members] at hp
  rw [assign, get_ofMembers, List.reverse_append, SortedAssoc.lookup_append, Option.map_or, ← hp]

/-! ## Conditions on numbers -/

/-- A condition on every number of a map. -/
def All (P : ν → Prop) (p : GoMap ν) : Prop := (Json.obj p.members).NumbersSatisfy P

theorem all_nil (P : ν → Prop) : (nil : GoMap ν).All P :=
  Json.numbersSatisfy_obj.mpr fun _ hm => absurd hm List.not_mem_nil

theorem all_ofMembers {P : ν → Prop} {ms : List (String × Json ν)}
    (h : ∀ m ∈ ms, m.2.NumbersSatisfy P) : (ofMembers ms).All P := by
  have hnormalize := Json.numbersSatisfy_normalize GoJson.keyOrder (Json.numbersSatisfy_obj.mpr h)
  rwa [Json.normalize_obj] at hnormalize

theorem All.assign {P : ν → Prop} {p : GoMap ν} (hp : p.All P) {ms : List (String × Json ν)}
    (hms : ∀ m ∈ ms, m.2.NumbersSatisfy P) : (p.assign ms).All P :=
  all_ofMembers (List.forall_mem_append.mpr ⟨Json.numbersSatisfy_obj.mp hp, hms⟩)

theorem All.map {P : ν → Prop} {Q : μ → Prop} {f : ν → μ} (hf : ∀ n, P n → Q (f n)) {p : GoMap ν}
    (h : p.All P) : (p.map f).All Q := by
  have hmap := Json.numbersSatisfy_map hf h
  rwa [Json.map_obj] at hmap

theorem All.map_congr {P : ν → Prop} {f g : ν → μ} (hfg : ∀ n, P n → f n = g n) {p : GoMap ν}
    (h : p.All P) : p.map f = p.map g := by
  have hmap := Json.map_congr_of_numbersSatisfy hfg h
  rw [Json.map_obj, Json.map_obj] at hmap
  exact GoMap.ext (Json.obj.inj hmap)

/-! ## Storage -/

/-- The value stored for a map. -/
def jsonb (g : GoMap Number) : Jsonb := .ofJson ((Json.obj g.members).map Number.toLiteral)

theorem value_jsonb (g : GoMap Number) :
    g.jsonb.value = (Json.obj (g.map Number.numeric).members).normalize Jsonb.keyOrder := by
  have hmap : ((Json.obj g.members).map Number.toLiteral).map Numeric.ofLiteral =
      .obj (g.map Number.numeric).members := by
    rw [Json.map_map, Json.map_obj]
    rfl
  exact congrArg (Json.normalize Jsonb.keyOrder) hmap

/-- The stored value is the map with its numbers as decimals. -/
theorem jsonb_eq_iff {g g' : GoMap Number} :
    g.jsonb = g'.jsonb ↔ g.map Number.numeric = g'.map Number.numeric := by
  constructor
  · intro h
    have hvalue := congrArg (fun j => Json.normalize GoJson.keyOrder (Jsonb.value j)) h
    simp only [value_jsonb, Json.normalize_normalize, GoMap.normalized] at hvalue
    exact GoMap.ext (Json.obj.inj hvalue)
  · intro h
    exact Jsonb.ext (by rw [value_jsonb, value_jsonb, h])

theorem eq_jsonb_of_ofText {g : GoMap Number} {j : Jsonb} (h : Jsonb.ofText g.encoded = some j) :
    j = g.jsonb :=
  Jsonb.eq_ofJson_of_ofText h

/-- `json.Unmarshal` of a column into a `map[string]any`; `null` leaves the map nil. -/
def decode (j : Jsonb) : Option (GoMap GoJson.Float) := do
  let v ← JsonText.parse j.text
  match ← (v.normalize GoJson.keyOrder).traverse Float64.parse with
  | .obj members => some (ofMembers members)
  | .null => some nil
  | _ => none

/-- A stored map as literals. -/
private theorem toJson_jsonb (g : GoMap Number) : g.jsonb.toJson.normalize GoJson.keyOrder =
    .obj (g.map (Numeric.toLiteral ∘ Number.numeric)).members := by
  rw [Jsonb.toJson, value_jsonb, Json.normalize_map, Json.normalize_normalize, GoMap.normalized,
    Json.map_obj, ← map_map]
  rfl

/-- A map of kept numbers is read back, and would be stored as it is. -/
theorem decode_jsonb {g : GoMap Number} (h : g.All Number.Kept) :
    ∃ p, decode g.jsonb = some p ∧ (p.map Number.float).jsonb = g.jsonb ∧
      (p.map Number.float).All Number.Kept := by
  -- the numbers that are read, with a value for those that are not
  obtain ⟨read, hparse⟩ : ∃ read : Literal → GoJson.Float,
      ∀ l f, Float64.parse l = some f → read l = f :=
    ⟨fun l => (Float64.parse l).getD (.ofInt 0), fun l f hf => by simp only [hf, Option.getD_some]⟩
  have hread (n : Number) (hn : n.Kept) : n.readBack = some (read n.numeric.toLiteral) ∧
      (Number.float (read n.numeric.toLiteral)).numeric = n.numeric := by
    obtain ⟨f, hf, hnumeric⟩ := hn.exists_float
    rw [hparse _ f hf]
    exact ⟨hf, hnumeric⟩
  have hall : (g.map (Numeric.toLiteral ∘ Number.numeric)).All
      fun l => Float64.parse l = some (read l) :=
    h.map fun n hn => (hread n hn).1
  refine ⟨g.map (read ∘ Numeric.toLiteral ∘ Number.numeric), ?_, ?_, ?_⟩
  · simp only [decode, Jsonb.text, parse_print, Option.bind_eq_bind, Option.bind_some, toJson_jsonb,
      Json.traverse_eq_some_map hall, Json.map_obj]
    rw [← map_map (Numeric.toLiteral ∘ Number.numeric) read]
    exact congrArg some
      (ofMembers_members ((g.map (Numeric.toLiteral ∘ Number.numeric)).map read))
  · rw [jsonb_eq_iff, map_map, map_map]
    exact h.map_congr fun n hn => (hread n hn).2
  · rw [map_map]
    exact h.map fun n hn => hn.float (hread n hn).1

end GoMap

end Argus
