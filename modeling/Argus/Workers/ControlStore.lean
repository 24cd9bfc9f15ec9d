import Argus.Actions.Columns
import Argus.Base.Fallible

/-!
# The control-state tables

`PostgresControlStateStore` at the level of its rows. States and receipts are `jsonb` columns, so
what a call merges into is the state as read back from its column. The advisory locks serialise the
calls that share a key or a target, and a call that fails leaves nothing behind: a history is a
sequence of calls, each of which commits as a whole or not at all.
-/

namespace Argus.Workers.ControlStore

open GoJson (Number)

/-! ## Tables -/

/-- A row of `remediation_target_states`. -/
structure StateRow where
  resourceType : String
  target : String
  state : Jsonb

/-- A row of `remediation_execution_receipts`. -/
structure ReceiptRow where
  idempotencyKey : String
  actionType : String
  target : String
  result : Jsonb

/-- Whether a row is that of a target. -/
def StateRow.names (resourceType target : String) (r : StateRow) : Bool :=
  r.resourceType == resourceType && r.target == target

structure Tables where
  states : List StateRow
  receipts : List ReceiptRow

def Tables.empty : Tables := ⟨[], []⟩

/-- The state column of a target. -/
def Tables.stateAt (t : Tables) (resourceType target : String) : Option Jsonb :=
  (t.states.find? (StateRow.names resourceType target)).map StateRow.state

/-- The receipt of a key. -/
def Tables.receiptFor (t : Tables) (key : String) : Option Jsonb :=
  (t.receipts.find? fun r => r.idempotencyKey == key).map ReceiptRow.result

/-- `INSERT ... ON CONFLICT (resource_type, target) DO UPDATE SET state = EXCLUDED.state`. -/
def upsert (rows : List StateRow) (resourceType target : String) (state : Jsonb) : List StateRow :=
  if rows.any (StateRow.names resourceType target) then
    rows.map fun r => if r.names resourceType target then { r with state := state } else r
  else rows ++ [⟨resourceType, target, state⟩]

/-! ## Calls -/

abbrev Result := GoMap Number

/-- `decodeState`; a target without a row has the empty state. -/
def decodeState : Option Jsonb → Except String (GoMap Number)
  | none => .ok .nil
  | some state =>
    match GoMap.decode state with
    | some current => .ok (current.map Number.float)
    | none => .error "decode remediation target state"

/-- `mergeState`: the desired members override the current ones. -/
def mergeState (current desired : GoMap Number) : GoMap Number :=
  (GoMap.nil.assign current.members).assign desired.members

def stateResult (mode resourceType target : String) (before after : GoMap Number) (reused : Bool) :
    Result :=
  .ofMembers
    [("mode", .str mode),
      ("backend", .str "durable-local-control-state"),
      ("resource_type", .str resourceType),
      ("target", .str target),
      ("before", .obj before.members),
      ("after", .obj after.members),
      ("reused", .bool reused)]

/-- The arguments of `ApplyOnce`. -/
structure Call where
  idempotencyKey : String
  actionType : String
  resourceType : String
  target : String
  desired : GoMap Number

/-- `Preview`. -/
def preview (t : Tables) (resourceType target : String) (desired : GoMap Number) :
    Except String Result := do
  let current ← decodeState (t.stateAt resourceType target)
  return stateResult "dry-run" resourceType target current (mergeState current desired) false

/-- A value that a statement writes to a `jsonb` column. -/
def stored (g : GoMap Number) (message : String) : Except String Jsonb :=
  match Jsonb.ofText g.encoded with
  | some j => .ok j
  | none => .error message

/-- The result of a call that merges into a state. -/
def executed (c : Call) (current : GoMap Number) : Result :=
  (stateResult "execute" c.resourceType c.target current
    (mergeState current c.desired) false).assign [("idempotency_key", .str c.idempotencyKey)]

/-- `ApplyOnce`, up to its commit. -/
def applyOnce (t : Tables) (c : Call) : Except String (Result × Tables) :=
  match t.receiptFor c.idempotencyKey with
  | some receipt =>
    match GoMap.decode receipt with
    | some result => .ok ((result.map Number.float).assign [("reused", .bool true)], t)
    | none => .error "decode remediation receipt"
  | none => do
      let current ← decodeState (t.stateAt c.resourceType c.target)
      let state ← stored (mergeState current c.desired) "apply remediation target state"
      let result ← stored (executed c current) "write remediation receipt"
      return (executed c current,
        { states := upsert t.states c.resourceType c.target state
          receipts := t.receipts ++ [⟨c.idempotencyKey, c.actionType, c.target, result⟩] })

/-! ## Histories -/

/-- A call, and the error of a statement or of the commit that ends it, if there is one. -/
inductive Op where
  | apply (call : Call) (failure : Option String)
  | preview (resourceType target : String) (desired : GoMap Number) (failure : Option String)

/-- What a call returns, and the tables after it. -/
def Op.exec (t : Tables) : Op → Except String Result × Tables
  | .apply _ (some e) => (.error e, t)
  | .apply call none =>
    match applyOnce t call with
    | .ok (result, t') => (.ok result, t')
    | .error e => (.error e, t)
  | .preview _ _ _ (some e) => (.error e, t)
  | .preview resourceType target desired none =>
    (ControlStore.preview t resourceType target desired, t)

/-- A successful `ApplyOnce` with what it returned. -/
structure Use where
  call : Call
  result : Result

/-- The tables, and the successful uses of keys in the order of their commits. -/
structure History where
  tables : Tables
  uses : List Use

def History.start : History := ⟨.empty, []⟩

/-- What a call adds to the successful uses. -/
def Op.use (t : Tables) : Op → List Use
  | .preview .. => []
  | .apply call failure =>
    match (Op.exec t (.apply call failure)).1 with
    | .ok result => [⟨call, result⟩]
    | .error _ => []

def History.step (h : History) (op : Op) : History where
  tables := (op.exec h.tables).2
  uses := h.uses ++ op.use h.tables

def History.run (ops : List Op) : History := ops.foldl History.step .start

/-! ## The fold over first uses -/

/-- A use is kept if no earlier one has its key. -/
def keepFirst (kept : List Use) (u : Use) : List Use :=
  if kept.any fun v => v.call.idempotencyKey == u.call.idempotencyKey then kept else kept ++ [u]

/-- The uses that were the first of their key. -/
def firstUses (uses : List Use) : List Use := uses.foldl keepFirst []

/-- The first uses that named a target. -/
def usesOf (uses : List Use) (resourceType target : String) : List Use :=
  (firstUses uses).filter fun u => u.call.resourceType == resourceType && u.call.target == target

/-- `mergeState` folded over the desired maps of these uses. -/
def folded (uses : List Use) : GoMap Number :=
  uses.foldl (fun state u => mergeState state u.call.desired) .nil

/-! ## Rows -/

theorem mergeState_eq (current desired : GoMap Number) :
    mergeState current desired = current.assign desired.members := by
  rw [mergeState, show GoMap.nil.assign current.members = current from current.ofMembers_members]

variable {resourceType target : String}

theorem StateRow.names_iff {r : StateRow} :
    r.names resourceType target = true ↔ r.resourceType = resourceType ∧ r.target = target := by
  simp only [names, Bool.and_eq_true, beq_iff_eq]

/-- Overwriting the rows of a target leaves every row that of its target. -/
private theorem find?_overwrite (rows : List StateRow) (resourceType target : String)
    (state : Jsonb) (resourceType' target' : String) :
    (rows.map fun r => if r.names resourceType target then { r with state := state } else r).find?
        (StateRow.names resourceType' target') =
      (rows.find? (StateRow.names resourceType' target')).map fun r =>
        if r.names resourceType target then { r with state := state } else r := by
  rw [List.find?_map]
  refine congrArg (Option.map _) (congrArg (fun p => rows.find? p) (funext fun r => ?_))
  rw [Function.comp_apply]
  split <;> rfl

/-- The upsert writes the row of its target and no other. -/
theorem stateAt_upsert (t : Tables) (resourceType target : String) (state : Jsonb)
    (receipts : List ReceiptRow) (resourceType' target' : String) :
    Tables.stateAt ⟨upsert t.states resourceType target state, receipts⟩ resourceType' target' =
      if resourceType' = resourceType ∧ target' = target then some state
      else t.stateAt resourceType' target' := by
  rw [Tables.stateAt, Tables.stateAt, upsert]
  by_cases hany : t.states.any (StateRow.names resourceType target) = true
  · rw [if_pos hany, find?_overwrite, Option.map_map]
    cases hfind : t.states.find? (StateRow.names resourceType' target') with
    | none =>
      -- the target has a row, so it is another one
      have hother : ¬ (resourceType' = resourceType ∧ target' = target) := by
        rintro ⟨rfl, rfl⟩
        obtain ⟨r, hr, hnames⟩ := List.any_eq_true.mp hany
        exact List.find?_eq_none.mp hfind r hr hnames
      rw [if_neg hother, Option.map_none, Option.map_none]
    | some r =>
      obtain ⟨rfl, rfl⟩ := StateRow.names_iff.mp (List.find?_some hfind)
      rw [Option.map_some, Option.map_some, Function.comp_apply]
      by_cases hsame : r.resourceType = resourceType ∧ r.target = target
      · rw [if_pos hsame, if_pos (StateRow.names_iff.mpr hsame)]
      · rw [if_neg hsame, if_neg (mt StateRow.names_iff.mp hsame)]
  · have hnone : t.states.find? (StateRow.names resourceType target) = none :=
      List.find?_eq_none.mpr fun r hr hnames => hany (List.any_eq_true.mpr ⟨r, hr, hnames⟩)
    rw [if_neg hany, List.find?_append, Option.map_or, List.find?_singleton]
    by_cases hsame : resourceType' = resourceType ∧ target' = target
    · obtain ⟨rfl, rfl⟩ := hsame
      have hnew : StateRow.names resourceType' target' ⟨resourceType', target', state⟩ = true :=
        StateRow.names_iff.mpr ⟨rfl, rfl⟩
      rw [hnone, if_pos hnew, if_pos ⟨rfl, rfl⟩]
      rfl
    · have hnot : ¬ StateRow.names resourceType' target' ⟨resourceType, target, state⟩ = true :=
        fun hnames => hsame ((StateRow.names_iff.mp hnames).imp Eq.symm Eq.symm)
      rw [if_neg hsame, if_neg hnot, Option.map_none, Option.or_none]

theorem receiptFor_append (states : List StateRow) (receipts : List ReceiptRow) (r : ReceiptRow)
    (key : String) : Tables.receiptFor ⟨states, receipts ++ [r]⟩ key =
      (Tables.receiptFor ⟨states, receipts⟩ key).or
        (if r.idempotencyKey = key then some r.result else none) := by
  rw [Tables.receiptFor, Tables.receiptFor, List.find?_append, Option.map_or, List.find?_singleton]
  by_cases hkey : r.idempotencyKey = key
  · rw [if_pos hkey, if_pos (beq_iff_eq.mpr hkey), Option.map_some]
  · rw [if_neg hkey, if_neg (by simpa using hkey), Option.map_none]

/-! ## What a call does -/

theorem eq_jsonb_of_stored {g : GoMap Number} {message : String} {j : Jsonb}
    (h : stored g message = .ok j) : j = g.jsonb := by
  unfold stored at h
  split at h
  · rename_i hj
    cases h
    exact GoMap.eq_jsonb_of_ofText hj
  · cases h

variable {c : Call}

/-- A used key returns its receipt. A fresh one merges into the state as read back, and records the
result. -/
theorem applyOnce_cases {t t' : Tables} {result : Result} (h : applyOnce t c = .ok (result, t')) :
    (∃ receipt p, t.receiptFor c.idempotencyKey = some receipt ∧ GoMap.decode receipt = some p ∧
      result = (p.map Number.float).assign [("reused", .bool true)] ∧ t' = t) ∨
    t.receiptFor c.idempotencyKey = none ∧
      ∃ current, decodeState (t.stateAt c.resourceType c.target) = .ok current ∧
        result = executed c current ∧
        t' = { states := upsert t.states c.resourceType c.target
                (mergeState current c.desired).jsonb
               receipts := t.receipts ++
                [⟨c.idempotencyKey, c.actionType, c.target, (executed c current).jsonb⟩] } := by
  unfold applyOnce at h
  split at h
  · rename_i receipt hreceipt
    split at h
    · rename_i p hp
      cases h
      exact .inl ⟨receipt, p, hreceipt, hp, rfl, rfl⟩
    · cases h
  · rename_i hnone
    obtain ⟨current, hcurrent, h⟩ := exists_of_bind_eq_ok h
    obtain ⟨state, hstate, h⟩ := exists_of_bind_eq_ok h
    obtain ⟨receipt, hreceipt, h⟩ := exists_of_bind_eq_ok h
    obtain ⟨hresult, htables⟩ := Prod.mk.inj (Except.ok.inj h)
    rw [eq_jsonb_of_stored hstate, eq_jsonb_of_stored hreceipt] at htables
    exact .inr ⟨hnone, current, hcurrent, hresult.symm, htables.symm⟩

theorem run_append (ops : List Op) (op : Op) :
    History.run (ops ++ [op]) = (History.run ops).step op := by
  rw [History.run, History.run, List.foldl_append]
  rfl

/-! ## The invariant of a history -/

theorem firstUses_append (uses : List Use) (u : Use) :
    firstUses (uses ++ [u]) = keepFirst (firstUses uses) u := by
  rw [firstUses, firstUses, List.foldl_append]
  rfl

/-- Every number of a desired map is kept. -/
def Op.Kept : Op → Prop
  | .apply call _ => call.desired.All Number.Kept
  | .preview _ _ desired _ => desired.All Number.Kept

/-- What the columns hold: for each target the fold over its first uses, and for each key the result
of its first use. -/
structure Inv (h : History) : Prop where
  states : ∀ resourceType target, h.tables.stateAt resourceType target =
    if usesOf h.uses resourceType target = [] then none
    else some (folded (usesOf h.uses resourceType target)).jsonb
  receipts : ∀ key, h.tables.receiptFor key =
    ((firstUses h.uses).find? fun u => u.call.idempotencyKey == key).map fun u => u.result.jsonb
  kept : ∀ u ∈ firstUses h.uses, u.call.desired.All Number.Kept ∧ u.result.All Number.Kept

theorem kept_mergeState {current desired : GoMap Number} (hcurrent : current.All Number.Kept)
    (hdesired : desired.All Number.Kept) : (mergeState current desired).All Number.Kept := by
  rw [mergeState_eq]
  exact hcurrent.assign (Json.numbersSatisfy_obj.mp hdesired)

theorem kept_folded {uses : List Use} (h : ∀ u ∈ uses, u.call.desired.All Number.Kept) :
    (folded uses).All Number.Kept := by
  refine List.foldlRecOn uses _ (GoMap.all_nil _) fun state hstate u hu => ?_
  exact kept_mergeState hstate (h u hu)

theorem kept_executed {current : GoMap Number} (hcurrent : current.All Number.Kept)
    (hdesired : c.desired.All Number.Kept) : (executed c current).All Number.Kept := by
  refine GoMap.All.assign (GoMap.all_ofMembers ?_) ?_
  · simp only [List.forall_mem_cons]
    exact ⟨trivial, trivial, trivial, trivial, hcurrent, kept_mergeState hcurrent hdesired, trivial,
      fun _ hm => absurd hm List.not_mem_nil⟩
  · exact List.forall_mem_singleton.mpr trivial

variable {h : History}

/-- What is merged into is the fold, up to the types of its numbers. -/
theorem Inv.current (hinv : Inv h) {current : GoMap Number}
    (hcurrent : decodeState (h.tables.stateAt resourceType target) = .ok current) :
    current.jsonb = (folded (usesOf h.uses resourceType target)).jsonb ∧
      current.All Number.Kept := by
  rw [hinv.states] at hcurrent
  split at hcurrent
  · rename_i hnone
    cases hcurrent
    rw [hnone]
    exact ⟨rfl, GoMap.all_nil _⟩
  · have hkept : (folded (usesOf h.uses resourceType target)).All Number.Kept :=
      kept_folded fun u hu => (hinv.kept u (List.mem_filter.mp hu).1).1
    obtain ⟨p, hdecode, hjsonb, hp⟩ := GoMap.decode_jsonb hkept
    simp only [decodeState, hdecode] at hcurrent
    cases hcurrent
    exact ⟨hjsonb, hp⟩

theorem jsonb_mergeState {a b desired : GoMap Number} (h : a.jsonb = b.jsonb) :
    (mergeState a desired).jsonb = (mergeState b desired).jsonb := by
  rw [GoMap.jsonb_eq_iff] at h ⊢
  rw [mergeState_eq, mergeState_eq, GoMap.map_assign, GoMap.map_assign, h]

/-- A call adds nothing, or one successful use. -/
theorem step_cases (h : History) (op : Op) :
    h.step op = h ∨
    ∃ c result t', op = .apply c none ∧ applyOnce h.tables c = .ok (result, t') ∧
      h.step op = ⟨t', h.uses ++ [⟨c, result⟩]⟩ := by
  have hsame (h' : History) (htables : h'.tables = h.tables) (huses : h'.uses = h.uses ++ []) :
      h' = h := by
    obtain ⟨tables, uses⟩ := h'
    obtain rfl : tables = h.tables := htables
    obtain rfl : uses = h.uses := huses.trans (List.append_nil _)
    rfl
  cases op with
  | preview resourceType target desired failure => cases failure <;> exact .inl (hsame _ rfl rfl)
  | apply c failure =>
    cases failure with
    | some e => exact .inl (hsame _ rfl rfl)
    | none =>
      cases happly : applyOnce h.tables c with
      | error e =>
        refine .inl (hsame _ ?_ ?_)
        · simp only [History.step, Op.exec, happly]
        · simp only [History.step, Op.use, Op.exec, happly]
      | ok r =>
        refine .inr ⟨c, r.1, r.2, rfl, happly, ?_⟩
        simp only [History.step, Op.use, Op.exec, happly]

theorem find?_firstUses (uses : List Use) (key : String) :
    (firstUses uses).find? (fun u => u.call.idempotencyKey == key) =
      uses.find? fun u => u.call.idempotencyKey == key := by
  induction uses using List.reverseRecOn with
  | nil => rfl
  | append_singleton uses u ih =>
    rw [firstUses_append, keepFirst, List.find?_append, ← ih]
    split
    · rename_i hany
      by_cases hkey : u.call.idempotencyKey = key
      · -- an earlier use of the key is found first
        subst hkey
        have hsome := List.find?_isSome.mpr (List.any_eq_true.mp hany)
        rw [Option.or_of_isSome hsome]
      · have hother : [u].find? (fun u => u.call.idempotencyKey == key) = none := by
          rw [List.find?_singleton, if_neg (by simpa using hkey)]
        rw [hother, Option.or_none]
    · rw [List.find?_append]

theorem Inv.receiptFor (hinv : Inv h) (key : String) : h.tables.receiptFor key =
    (h.uses.find? fun u => u.call.idempotencyKey == key).map fun u => u.result.jsonb := by
  rw [hinv.receipts, find?_firstUses]

variable {u : Use}

theorem firstUses_of_receipt (hinv : Inv h) {receipt : Jsonb}
    (hreceipt : h.tables.receiptFor u.call.idempotencyKey = some receipt) :
    firstUses (h.uses ++ [u]) = firstUses h.uses := by
  rw [hinv.receipts] at hreceipt
  obtain ⟨v, hv, -⟩ := Option.map_eq_some_iff.mp hreceipt
  have hany : (firstUses h.uses).any
      (fun v => v.call.idempotencyKey == u.call.idempotencyKey) = true :=
    List.any_eq_true.mpr (List.find?_isSome.mp (Option.isSome_of_eq_some hv))
  rw [firstUses_append, keepFirst, if_pos hany]

theorem firstUses_of_fresh (hinv : Inv h) (hnone : h.tables.receiptFor u.call.idempotencyKey = none) :
    firstUses (h.uses ++ [u]) = firstUses h.uses ++ [u] := by
  rw [hinv.receipts, Option.map_eq_none_iff, List.find?_eq_none] at hnone
  have hany : ¬ (firstUses h.uses).any
      (fun v => v.call.idempotencyKey == u.call.idempotencyKey) = true := by
    rw [List.any_eq_true]
    rintro ⟨v, hv, hkey⟩
    exact hnone v hv hkey
  rw [firstUses_append, keepFirst, if_neg hany]

/-- A first use is folded into the state of its target. -/
theorem Inv.fresh (hinv : Inv h) (hdesired : c.desired.All Number.Kept)
    (hnone : h.tables.receiptFor c.idempotencyKey = none) {current : GoMap Number}
    (hcurrent : decodeState (h.tables.stateAt c.resourceType c.target) = .ok current) :
    Inv
      { tables :=
          { states := upsert h.tables.states c.resourceType c.target
              (mergeState current c.desired).jsonb
            receipts := h.tables.receipts ++
              [⟨c.idempotencyKey, c.actionType, c.target, (executed c current).jsonb⟩] }
        uses := h.uses ++ [⟨c, executed c current⟩] } := by
  obtain ⟨hjsonb, hkept⟩ := hinv.current hcurrent
  have hfirst : firstUses (h.uses ++ [⟨c, executed c current⟩]) =
      firstUses h.uses ++ [⟨c, executed c current⟩] := firstUses_of_fresh hinv hnone
  refine ⟨fun resourceType target => ?_, fun key => ?_, ?_⟩
  · rw [stateAt_upsert, usesOf, hfirst, List.filter_append, ← usesOf]
    by_cases hsame : resourceType = c.resourceType ∧ target = c.target
    · obtain ⟨rfl, rfl⟩ := hsame
      have hlast : [(⟨c, executed c current⟩ : Use)].filter (fun u =>
          u.call.resourceType == c.resourceType && u.call.target == c.target) =
            [⟨c, executed c current⟩] := by simp
      rw [if_pos ⟨rfl, rfl⟩, hlast, if_neg (by simp), folded, List.foldl_append, ← folded,
        jsonb_mergeState hjsonb]
      rfl
    · have hlast : [(⟨c, executed c current⟩ : Use)].filter (fun u =>
          u.call.resourceType == resourceType && u.call.target == target) = [] := by
        refine List.filter_eq_nil_iff.mpr (List.forall_mem_singleton.mpr fun hnames => hsame ?_)
        rw [Bool.and_eq_true, beq_iff_eq, beq_iff_eq] at hnames
        exact hnames.imp Eq.symm Eq.symm
      rw [if_neg hsame, hlast, List.append_nil, hinv.states]
  · rw [receiptFor_append, hfirst, List.find?_append, Option.map_or, ← hinv.receipts,
      List.find?_singleton]
    congr 1
    by_cases hkey : c.idempotencyKey = key
    · rw [if_pos hkey, if_pos (beq_iff_eq.mpr hkey), Option.map_some]
    · rw [if_neg hkey, if_neg (by simpa using hkey), Option.map_none]
  · rw [hfirst]
    exact List.forall_mem_append.mpr
      ⟨hinv.kept, List.forall_mem_singleton.mpr ⟨hdesired, kept_executed hkept hdesired⟩⟩

theorem Inv.step (hinv : Inv h) {op : Op} (hop : op.Kept) : Inv (h.step op) := by
  rcases step_cases h op with heq | ⟨c, result, t', rfl, happly, heq⟩
  · rwa [heq]
  · rw [heq]
    rcases applyOnce_cases happly with
      ⟨receipt, -, hreceipt, -, -, rfl⟩ | ⟨hnone, current, hcurrent, rfl, rfl⟩
    · have hfirst : firstUses (h.uses ++ [⟨c, result⟩]) = firstUses h.uses :=
        firstUses_of_receipt hinv hreceipt
      refine ⟨fun resourceType target => ?_, fun key => ?_, ?_⟩
      · rw [usesOf, hfirst]
        exact hinv.states resourceType target
      · rw [hfirst]
        exact hinv.receipts key
      · rw [hfirst]
        exact hinv.kept
    · exact hinv.fresh hop hnone hcurrent

theorem Inv.run {ops : List Op} (h : ∀ op ∈ ops, op.Kept) : Inv (History.run ops) := by
  induction ops using List.reverseRecOn with
  | nil => exact ⟨fun _ _ => rfl, fun _ => rfl, fun _ hu => absurd hu List.not_mem_nil⟩
  | append_singleton ops op ih =>
    rw [List.forall_mem_append, List.forall_mem_singleton] at h
    rw [run_append]
    exact (ih h.1).step h.2

/-! ## Results -/

/-- A key that was used returns its first result as stored, marked as reused. -/
theorem Inv.reused (hinv : Inv h)
    (hfirst : h.uses.find? (fun v => v.call.idempotencyKey == c.idempotencyKey) = some u) :
    ∃ result, applyOnce h.tables c = .ok (result, h.tables) ∧
      result.jsonb = (u.result.assign [("reused", .bool true)]).jsonb := by
  have hmem : u ∈ firstUses h.uses := List.mem_of_find?_eq_some ((find?_firstUses _ _).trans hfirst)
  obtain ⟨p, hdecode, hjsonb, -⟩ := GoMap.decode_jsonb (hinv.kept u hmem).2
  refine ⟨(p.map Number.float).assign [("reused", .bool true)], ?_, ?_⟩
  · have hreceipt : h.tables.receiptFor c.idempotencyKey = some u.result.jsonb := by
      rw [hinv.receiptFor, hfirst, Option.map_some]
    simp only [applyOnce, hreceipt, hdecode]
  · rw [GoMap.jsonb_eq_iff] at hjsonb ⊢
    rw [GoMap.map_assign, GoMap.map_assign, hjsonb]

/-- A member of a result does not depend on its mode. -/
theorem get_executed (c : Call) (current : GoMap Number) {key : String}
    (hkey : key = "before" ∨ key = "after") :
    (executed c current).get key = (stateResult "dry-run" c.resourceType c.target current
      (mergeState current c.desired) false).get key := by
  rcases hkey with rfl | rfl
  all_goals
    simp [executed, stateResult, GoMap.get_assign, GoMap.get_ofMembers, SortedAssoc.lookup]

/-- Two calls on one target, each with a key of its own. -/
def calls (first second : GoMap Number) : List Op :=
  [.apply ⟨"key-1", "scale_service", "service", "checkout", first⟩ none,
    .apply ⟨"key-2", "scale_service", "service", "checkout", second⟩ none]

end Argus.Workers.ControlStore
