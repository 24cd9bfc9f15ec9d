import Argus.Base.SortedAssoc

/-!
# JSON values

JSON values over an arbitrary type of numbers, an object being the list of its members as written.
Functions on values are instances of one fold. `normalize o` reads every object as a map: members
sorted by `o`, the last of equal keys kept.
-/

namespace Argus

open SortedAssoc (KeyOrder)

/-- JSON values with numbers in `ν`. -/
inductive Json (ν : Type*) where
  | null
  | bool (b : Bool)
  | num (n : ν)
  | str (s : String)
  | arr (items : List (Json ν))
  | obj (members : List (String × Json ν))

namespace Json

variable {ν μ α : Type*}

/-- One operation for each form of a value. -/
structure Algebra (ν α : Type*) where
  null : α
  bool : Bool → α
  num : ν → α
  str : String → α
  arr : List α → α
  obj : List (String × α) → α

/-! ## The fold -/

mutual

/-- The value of an algebra on a JSON value. -/
def fold (a : Algebra ν α) : Json ν → α
  | .null => a.null
  | .bool b => a.bool b
  | .num n => a.num n
  | .str s => a.str s
  | .arr items => a.arr (foldItems a items)
  | .obj members => a.obj (foldMembers a members)
termination_by structural v => v

/-- `fold` on the items of an array. -/
def foldItems (a : Algebra ν α) : List (Json ν) → List α
  | [] => []
  | v :: vs => v.fold a :: foldItems a vs
termination_by structural vs => vs

/-- `fold` on the members of an object. -/
def foldMembers (a : Algebra ν α) : List (String × Json ν) → List (String × α)
  | [] => []
  | (k, v) :: ms => (k, v.fold a) :: foldMembers a ms
termination_by structural ms => ms

end

theorem foldItems_eq_map (a : Algebra ν α) (items : List (Json ν)) :
    foldItems a items = items.map (fold a) := by
  induction items with
  | nil => rfl
  | cons v vs ih => rw [foldItems, ih, List.map_cons]

theorem foldMembers_eq_map (a : Algebra ν α) (members : List (String × Json ν)) :
    foldMembers a members = members.map fun m => (m.1, m.2.fold a) := by
  induction members with
  | nil => rfl
  | cons m ms ih => rw [foldMembers, ih, List.map_cons]

theorem fold_arr (a : Algebra ν α) (items : List (Json ν)) :
    (arr items).fold a = a.arr (items.map (fold a)) := by
  rw [fold, foldItems_eq_map]

theorem fold_obj (a : Algebra ν α) (members : List (String × Json ν)) :
    (obj members).fold a = a.obj (members.map fun m => (m.1, m.2.fold a)) := by
  rw [fold, foldMembers_eq_map]

/-- Induction on values, with the hypothesis for every item and every member. -/
@[elab_as_elim]
theorem induction {motive : Json ν → Prop} (null : motive .null) (bool : ∀ b, motive (.bool b))
    (num : ∀ n, motive (.num n)) (str : ∀ s, motive (.str s))
    (arr : ∀ items, (∀ v ∈ items, motive v) → motive (.arr items))
    (obj : ∀ members, (∀ m ∈ members, motive m.2) → motive (.obj members)) (v : Json ν) :
    motive v :=
  @Json.rec ν motive (fun items => ∀ v ∈ items, motive v)
    (fun members => ∀ m ∈ members, motive m.2) (fun m => motive m.2)
    null bool num str arr obj
    (fun _ h => by cases h)
    (fun _ _ hv hvs => List.forall_mem_cons.mpr ⟨hv, hvs⟩)
    (fun _ h => by cases h)
    (fun _ _ hm hms => List.forall_mem_cons.mpr ⟨hm, hms⟩)
    (fun _ _ hv => hv) v

/-! ## Equality -/

mutual

/-- Whether two values are the same. -/
def beq [DecidableEq ν] : Json ν → Json ν → Bool
  | .null, .null => true
  | .bool a, .bool b => a == b
  | .num m, .num n => decide (m = n)
  | .str s, .str t => s == t
  | .arr vs, .arr ws => beqItems vs ws
  | .obj ms, .obj ns => beqMembers ms ns
  | _, _ => false
termination_by structural v => v

/-- `beq` on the items of two arrays. -/
def beqItems [DecidableEq ν] : List (Json ν) → List (Json ν) → Bool
  | [], [] => true
  | v :: vs, w :: ws => v.beq w && beqItems vs ws
  | _, _ => false
termination_by structural vs => vs

/-- `beq` on the members of two objects. -/
def beqMembers [DecidableEq ν] : List (String × Json ν) → List (String × Json ν) → Bool
  | [], [] => true
  | (j, v) :: ms, (k, w) :: ns => j == k && v.beq w && beqMembers ms ns
  | _, _ => false
termination_by structural ms => ms

end

theorem beqItems_iff [DecidableEq ν] {vs ws : List (Json ν)}
    (h : ∀ v ∈ vs, ∀ w, v.beq w = true ↔ v = w) : beqItems vs ws = true ↔ vs = ws := by
  induction vs generalizing ws with
  | nil => cases ws <;> simp [beqItems]
  | cons v vs ih =>
    cases ws with
    | nil => simp [beqItems]
    | cons w ws =>
      have htail : beqItems vs ws = true ↔ vs = ws :=
        ih fun v hv => h v (List.mem_cons_of_mem _ hv)
      rw [beqItems, Bool.and_eq_true, htail, h v List.mem_cons_self, List.cons.injEq]

theorem beqMembers_iff [DecidableEq ν] {ms ns : List (String × Json ν)}
    (h : ∀ m ∈ ms, ∀ w, m.2.beq w = true ↔ m.2 = w) : beqMembers ms ns = true ↔ ms = ns := by
  induction ms generalizing ns with
  | nil => cases ns <;> simp [beqMembers]
  | cons m ms ih =>
    cases ns with
    | nil => simp [beqMembers]
    | cons n ns =>
      have htail : beqMembers ms ns = true ↔ ms = ns :=
        ih fun m hm => h m (List.mem_cons_of_mem _ hm)
      rw [beqMembers, Bool.and_eq_true, Bool.and_eq_true, htail,
        h m List.mem_cons_self, beq_iff_eq, List.cons.injEq, Prod.ext_iff]

theorem beq_iff [DecidableEq ν] (v w : Json ν) : v.beq w = true ↔ v = w := by
  induction v using Json.induction generalizing w with
  | null | bool | num | str => cases w <;> simp [beq]
  | arr vs ih =>
    cases w with
    | arr ws => rw [beq, beqItems_iff ih, arr.injEq]
    | _ => simp [beq]
  | obj ms ih =>
    cases w with
    | obj ns => rw [beq, beqMembers_iff ih, obj.injEq]
    | _ => simp [beq]

instance [DecidableEq ν] : DecidableEq (Json ν) := fun v w => decidable_of_iff _ (beq_iff v w)

/-! ## Maps on numbers -/

/-- The algebra that rebuilds a value with mapped numbers. -/
def mapAlgebra (f : ν → μ) : Algebra ν (Json μ) where
  null := .null
  bool := .bool
  num n := .num (f n)
  str := .str
  arr := .arr
  obj := .obj

/-- Replace every number. -/
def map (f : ν → μ) : Json ν → Json μ := fold (mapAlgebra f)

theorem map_arr (f : ν → μ) (items : List (Json ν)) :
    (arr items).map f = arr (items.map (map f)) :=
  fold_arr _ _

theorem map_obj (f : ν → μ) (members : List (String × Json ν)) :
    (obj members).map f = obj (members.map fun m => (m.1, m.2.map f)) :=
  fold_obj _ _

/-- Replace every number by one that may not exist. -/
def traverse (f : ν → Option μ) : Json ν → Option (Json μ) :=
  fold
    { null := some .null
      bool := fun b => some (.bool b)
      num := fun n => (f n).map .num
      str := fun s => some (.str s)
      arr := fun items => (items.mapM id).map .arr
      obj := fun members =>
        (members.mapM fun m : String × Option (Json μ) => m.2.map (Prod.mk m.1)).map .obj }

/-- A condition on every number of a value. -/
def NumbersSatisfy (P : ν → Prop) : Json ν → Prop :=
  fold
    { null := True
      bool := fun _ => True
      num := P
      str := fun _ => True
      arr := fun items => ∀ p ∈ items, p
      obj := fun members => ∀ m ∈ members, m.2 }

variable {P : ν → Prop}

theorem numbersSatisfy_arr {items : List (Json ν)} :
    NumbersSatisfy P (arr items) ↔ ∀ v ∈ items, NumbersSatisfy P v := by
  rw [NumbersSatisfy, fold_arr]
  simp only [List.forall_mem_map]

theorem numbersSatisfy_obj {members : List (String × Json ν)} :
    NumbersSatisfy P (obj members) ↔ ∀ m ∈ members, NumbersSatisfy P m.2 := by
  rw [NumbersSatisfy, fold_obj]
  simp only [List.forall_mem_map]

theorem numbersSatisfy_true (v : Json ν) : NumbersSatisfy (fun _ => True) v := by
  induction v using Json.induction with
  | null | bool | num | str => exact trivial
  | arr items ih => exact numbersSatisfy_arr.mpr ih
  | obj members ih => exact numbersSatisfy_obj.mpr ih

variable {v : Json ν} {f : ν → μ}

theorem numbersSatisfy_map {Q : μ → Prop} (hf : ∀ n, P n → Q (f n)) (h : NumbersSatisfy P v) :
    NumbersSatisfy Q (v.map f) := by
  induction v using Json.induction with
  | null | bool | str => exact trivial
  | num n => exact hf n h
  | arr items ih =>
    rw [map_arr, numbersSatisfy_arr]
    exact List.forall_mem_map.mpr fun v hv => ih v hv (numbersSatisfy_arr.mp h v hv)
  | obj members ih =>
    rw [map_obj, numbersSatisfy_obj]
    exact List.forall_mem_map.mpr fun m hm => ih m hm (numbersSatisfy_obj.mp h m hm)

/-- Maps that agree on the numbers of a value agree on it. -/
theorem map_congr_of_numbersSatisfy {g : ν → μ} (hfg : ∀ n, P n → f n = g n)
    (h : NumbersSatisfy P v) : v.map f = v.map g := by
  induction v using Json.induction with
  | null => rfl
  | bool b => rfl
  | num n => exact congrArg num (hfg n h)
  | str s => rfl
  | arr items ih =>
    rw [map_arr, map_arr]
    exact congrArg arr (List.map_congr_left fun v hv => ih v hv (numbersSatisfy_arr.mp h v hv))
  | obj members ih =>
    rw [map_obj, map_obj]
    refine congrArg obj (List.map_congr_left fun m hm => ?_)
    rw [ih m hm (numbersSatisfy_obj.mp h m hm)]

private theorem mapM_map_eq_some {α β γ : Type*} {f : α → β} {g : β → Option γ} {h : α → γ}
    {xs : List α} (heq : ∀ x ∈ xs, g (f x) = some (h x)) : (xs.map f).mapM g = some (xs.map h) := by
  induction xs with
  | nil => rfl
  | cons x xs ih =>
    obtain ⟨hx, hxs⟩ := List.forall_mem_cons.mp heq
    rw [List.map_cons, List.mapM_cons, hx, ih hxs]
    rfl

/-- Where every number has a replacement, so has the value. -/
theorem traverse_eq_some_map {f : ν → Option μ} {g : ν → μ}
    (h : NumbersSatisfy (fun n => f n = some (g n)) v) : v.traverse f = some (v.map g) := by
  induction v using Json.induction with
  | null | bool | str => rfl
  | num n =>
    have hn : f n = some (g n) := h
    simp only [traverse, map, fold, mapAlgebra, hn, Option.map_some]
  | arr items ih =>
    have hitems : ∀ v ∈ items, id (v.traverse f) = some (v.map g) := fun v hv =>
      ih v hv (numbersSatisfy_arr.mp h v hv)
    rw [traverse, fold_arr, map_arr]
    exact congrArg (Option.map arr) (mapM_map_eq_some hitems)
  | obj members ih =>
    have hmembers : ∀ m ∈ members,
        (m.2.traverse f).map (Prod.mk m.1) = some (m.1, m.2.map g) := fun m hm => by
      rw [ih m hm (numbersSatisfy_obj.mp h m hm), Option.map_some]
    rw [traverse, fold_obj, map_obj]
    exact congrArg (Option.map obj) (mapM_map_eq_some hmembers)

theorem map_map {ξ : Type*} (f : ν → μ) (g : μ → ξ) (v : Json ν) :
    (v.map f).map g = v.map (g ∘ f) := by
  induction v using Json.induction with
  | null | bool | num | str => rfl
  | arr items ih =>
    rw [map_arr, map_arr, map_arr, List.map_map]
    exact congrArg arr (List.map_congr_left ih)
  | obj members ih =>
    rw [map_obj, map_obj, map_obj, List.map_map]
    refine congrArg obj (List.map_congr_left fun m hm => ?_)
    simp only [Function.comp_apply, ih m hm]

theorem map_id (v : Json ν) : v.map id = v := by
  induction v using Json.induction with
  | null | bool | num | str => rfl
  | arr items ih =>
    rw [map_arr, List.map_congr_left ih, List.map_id']
  | obj members ih =>
    have hmem : ∀ m ∈ members, (m.1, m.2.map id) = m := fun m hm => by rw [ih m hm]
    rw [map_obj, List.map_congr_left hmem, List.map_id']

theorem map_injective {g : μ → ν} (h : ∀ n, g (f n) = n) : Function.Injective (map f) := by
  intro v w hvw
  have hid : g ∘ f = id := funext h
  have := congrArg (map g) hvw
  rwa [map_map, map_map, hid, map_id, map_id] at this

/-! ## Texts -/

/-- Replace every text that is a value. -/
def mapText (f : String → String) : Json ν → Json ν :=
  fold
    { null := .null
      bool := .bool
      num := .num
      str := fun s => .str (f s)
      arr := .arr
      obj := .obj }

/-- The texts that are values. -/
def texts : Json ν → List String :=
  fold
    { null := []
      bool := fun _ => []
      num := fun _ => []
      str := fun s => [s]
      arr := List.flatten
      obj := fun members => members.flatMap (·.2) }

/-- The keys of all objects. -/
def keys : Json ν → List String :=
  fold
    { null := []
      bool := fun _ => []
      num := fun _ => []
      str := fun _ => []
      arr := List.flatten
      obj := fun members => members.flatMap fun m => m.1 :: m.2 }

section

variable {g : String → String} {items : List (Json ν)} {members : List (String × Json ν)}

theorem mapText_arr : (arr items).mapText g = arr (items.map (mapText g)) := fold_arr _ _

theorem mapText_obj : (obj members).mapText g = obj (members.map fun m => (m.1, m.2.mapText g)) :=
  fold_obj _ _

theorem texts_arr : (arr items).texts = items.flatMap texts :=
  (fold_arr _ _).trans (List.flatMap_def ..).symm

theorem texts_obj : (obj members).texts = members.flatMap fun m => m.2.texts :=
  (fold_obj _ _).trans (List.flatMap_map ..)

theorem keys_arr : (arr items).keys = items.flatMap keys :=
  (fold_arr _ _).trans (List.flatMap_def ..).symm

theorem keys_obj : (obj members).keys = members.flatMap fun m => m.1 :: m.2.keys :=
  (fold_obj _ _).trans (List.flatMap_map ..)

theorem texts_mapText (g : String → String) (v : Json ν) : (v.mapText g).texts = v.texts.map g := by
  induction v using Json.induction with
  | null | bool | num | str => rfl
  | arr items ih =>
    rw [mapText_arr, texts_arr, texts_arr, List.flatMap_map, List.map_flatMap]
    exact List.flatMap_congr ih
  | obj members ih =>
    rw [mapText_obj, texts_obj, texts_obj, List.flatMap_map, List.map_flatMap]
    exact List.flatMap_congr ih

theorem keys_mapText (g : String → String) (v : Json ν) : (v.mapText g).keys = v.keys := by
  induction v using Json.induction with
  | null | bool | num | str => rfl
  | arr items ih =>
    rw [mapText_arr, keys_arr, keys_arr, List.flatMap_map]
    exact List.flatMap_congr ih
  | obj members ih =>
    rw [mapText_obj, keys_obj, keys_obj, List.flatMap_map]
    exact List.flatMap_congr fun m hm => congrArg (m.1 :: ·) (ih m hm)

theorem mapText_mapText (g h : String → String) (v : Json ν) :
    (v.mapText g).mapText h = v.mapText (h ∘ g) := by
  induction v using Json.induction with
  | null | bool | num | str => rfl
  | arr items ih =>
    rw [mapText_arr, mapText_arr, mapText_arr, List.map_map]
    exact congrArg arr (List.map_congr_left ih)
  | obj members ih =>
    rw [mapText_obj, mapText_obj, mapText_obj, List.map_map]
    exact congrArg obj (List.map_congr_left fun m hm => congrArg (Prod.mk m.1) (ih m hm))

/-- A map that changes no text of a value leaves it as it is. -/
theorem mapText_eq_self {v : Json ν} (hg : ∀ s ∈ v.texts, g s = s) : v.mapText g = v := by
  induction v using Json.induction with
  | null | bool | num => rfl
  | str s => exact congrArg str (hg s (List.mem_singleton_self s))
  | arr items ih =>
    rw [texts_arr] at hg
    rw [mapText_arr]
    refine congrArg arr ((List.map_congr_left fun v hv => ?_).trans (List.map_id items))
    exact ih v hv fun s hs => hg s (List.mem_flatMap_of_mem hv hs)
  | obj members ih =>
    rw [texts_obj] at hg
    rw [mapText_obj]
    refine congrArg obj ((List.map_congr_left fun m hm => ?_).trans (List.map_id members))
    exact congrArg (Prod.mk m.1) (ih m hm fun s hs => hg s (List.mem_flatMap_of_mem hm hs))

end

/-! ## Objects as maps -/

/-- Every object sorted by `o`, the last of equal keys kept. -/
def normalize (o : KeyOrder String) : Json ν → Json ν :=
  fold { mapAlgebra id with obj := fun members => .obj (SortedAssoc.collect o members) }

variable (o o' : KeyOrder String)

theorem normalize_arr (items : List (Json ν)) :
    (arr items).normalize o = arr (items.map (normalize o)) :=
  fold_arr _ _

theorem normalize_obj (members : List (String × Json ν)) :
    (obj members).normalize o
      = obj ((SortedAssoc.collect o members).map fun m => (m.1, m.2.normalize o)) := by
  rw [normalize, fold_obj]
  exact congrArg obj (SortedAssoc.collect_map _ _)

/-- The last normalization determines the order, and none of them loses a member. -/
theorem normalize_normalize (v : Json ν) : (v.normalize o').normalize o = v.normalize o := by
  induction v using Json.induction with
  | null | bool | num | str => rfl
  | arr items ih =>
    rw [normalize_arr, normalize_arr, normalize_arr, List.map_map]
    exact congrArg arr (List.map_congr_left ih)
  | obj members ih =>
    rw [normalize_obj, normalize_obj, normalize_obj, SortedAssoc.collect_map,
      SortedAssoc.collect_collect, List.map_map]
    refine congrArg obj (List.map_congr_left fun m hm => ?_)
    simp only [Function.comp_apply, ih m (SortedAssoc.mem_of_mem_collect hm)]

theorem numbersSatisfy_normalize (h : NumbersSatisfy P v) : NumbersSatisfy P (v.normalize o) := by
  induction v using Json.induction with
  | null | bool | num | str => exact h
  | arr items ih =>
    rw [normalize_arr, numbersSatisfy_arr]
    exact List.forall_mem_map.mpr fun v hv => ih v hv (numbersSatisfy_arr.mp h v hv)
  | obj members ih =>
    rw [normalize_obj, numbersSatisfy_obj]
    refine List.forall_mem_map.mpr fun m hm => ?_
    have hm' := SortedAssoc.mem_of_mem_collect hm
    exact ih m hm' (numbersSatisfy_obj.mp h m hm')

theorem normalize_map (f : ν → μ) (v : Json ν) :
    (v.map f).normalize o = (v.normalize o).map f := by
  induction v using Json.induction with
  | null | bool | num | str => rfl
  | arr items ih =>
    rw [map_arr, normalize_arr, normalize_arr, map_arr, List.map_map, List.map_map]
    exact congrArg arr (List.map_congr_left ih)
  | obj members ih =>
    rw [map_obj, normalize_obj, normalize_obj, map_obj, SortedAssoc.collect_map, List.map_map,
      List.map_map]
    refine congrArg obj (List.map_congr_left fun m hm => ?_)
    simp only [Function.comp_apply, ih m (SortedAssoc.mem_of_mem_collect hm)]

end Json

end Argus
