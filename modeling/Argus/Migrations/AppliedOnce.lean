import Argus.Migrations.Serialized

/-!
# Across builds

Any number of processes start against an empty database, in any interleaving, with failing
migrations, breaking connections and dying processes. Their builds have sets that are prefixes of
one list, as the releases of one repository do; a build with an edited migration may join once that
migration is applied.
-/

namespace Argus.Migrations

open Interleave (Safe Obligations Compatible Sound Within)
open SortedAssoc (KeyOrder)

variable {all : List Migration} {collation : KeyOrder String} {ledger : Audit.Database}
  {w w' : World}

/-- A build looks at the database only if its set is a prefix of the list, or has an applied
migration with another checksum. -/
def Deployed (all : List Migration) (w : World) (e : Event) : Prop :=
  ∀ i o set, e = .act i o → w.waiting i = some (.inspect set) →
    set <+: all ∨ Modified set w.shared.db.rows

/-- The states reached from `w`. -/
def Continues (collation : KeyOrder String) (all : List Migration) (w w' : World) : Prop :=
  (starting collation).Reach (Deployed all) w w'

/-- The states reached from an empty database. -/
def Reachable (collation : KeyOrder String) (all : List Migration) (ledger : Audit.Database)
    (w : World) : Prop :=
  Continues collation all (Interleave.System.idle (.initial ledger)) w

/-! ## Soundness -/

/-- What a call promises. -/
def Promised (i : ℕ) (c : Call) (answer : Answer) (s : Shared) : Prop :=
  ∀ set, c.migrations = .ok set → Answered c.mode set i answer s

theorem obligations (hall : Loaded all) (collation : KeyOrder String) :
    Obligations (starting collation) (specification all) Promised where
  program i c s _ _ := run_safe hall collation i c s
  external _ _ _ _ _ := trivial
  post i c answer s s' hstep h set hset :=
    keeps_answered c.mode set i answer s s' hstep.2.1 (h set hset)

theorem compatible (collation : KeyOrder String) (all : List Migration) :
    Compatible (starting collation) (specification all) (Deployed all) where
  permits w i o c β l act k hok hp set hl := by
    refine hok i o set rfl ?_
    rw [Interleave.World.waiting, hp, ← hl]
    rfl
  act w i o c β l act k b s' _ _ _ hinv hstep := by
    refine ⟨hstep.invariant, fun j c' p hj _ => hstep.rely hinv fun hji => hj ?_⟩
    rw [hji]
  crash w i _ hinv := ⟨hinv.endSession i, fun j _ _ _ _ => rely_endSession w.shared i j⟩
  environment w e s' _ henv hinv := by
    obtain ⟨i⟩ := e
    obtain rfl := Option.some.inj henv
    exact ⟨hinv.endSession i, fun j _ _ _ _ => rely_endSession w.shared i j⟩

theorem invariant_initial (all : List Migration) (ledger : Audit.Database) :
    Invariant all (.initial ledger) where
  applied := ⟨0, rfl, rfl⟩
  column _ ht := nomatch ht
  alone _ hi := nomatch hi
  ended _ hi := nomatch hi

section

variable (hall : Loaded all) (h : Reachable collation all ledger w)

include hall h

theorem sound_of_reachable : Sound (specification all) Promised w := by
  have hidle : Sound (specification all) Promised
      (Interleave.System.idle (.initial ledger) : World) :=
    ⟨invariant_initial all ledger, fun _ _ _ hp => nomatch hp⟩
  exact Sound.reach (obligations hall collation) (compatible collation all) hidle h

/-! ## What a run found -/

/-- One step: rows are added only, and what process `i` found is recorded by a step of its own. -/
theorem grows_of_step {e : Event} (hok : Deployed all w e)
    (hstep : (starting collation).step w e = some w') :
    w.shared.db.rows <+: w'.shared.db.rows ∧ ∀ i, w'.shared.found i = w.shared.found i ∨
      w.shared.Holds i ∧ w'.shared.found i = some w.shared.db.rows ∧
        ∃ c p, w.procs i = some (c, p) := by
  rcases Interleave.System.step_shared hstep with
    hsame | ⟨j, o, c, β, l, act, k, b, rfl, hp, hact, -⟩ | ⟨j, -, hcrash⟩ | ⟨⟨j⟩, -, henv⟩
  · rw [hsame]
    exact ⟨List.prefix_rfl, fun _ => .inl rfl⟩
  · have hpermits := (compatible collation all).permits w j o c β l act k hok hp
    have hG := ((sound_of_reachable hall h).guarantee hp hpermits hact).1
    refine ⟨hG.grows, fun i => ?_⟩
    by_cases hij : i = j
    · subst hij
      exact hG.look.imp_right fun hlook => ⟨hlook.1, hlook.2, c, _, hp⟩
    · exact .inl (hG.found i hij)
  · rw [hcrash]
    exact ⟨List.prefix_rfl, fun _ => .inl rfl⟩
  · rw [← Option.some.inj henv]
    exact ⟨List.prefix_rfl, fun _ => .inl rfl⟩

/-- Rows stay. -/
theorem grows_of_continues (hrun : Continues collation all w w') :
    w.shared.db.rows <+: w'.shared.db.rows := by
  have hreach : Reachable collation all ledger w' ∧ w.shared.db.rows <+: w'.shared.db.rows := by
    induction hrun with
    | refl => exact ⟨h, List.prefix_rfl⟩
    | tail _ hok hstep ih =>
      exact ⟨ih.1.tail hok hstep, ih.2.trans (grows_of_step hall ih.1 hok hstep).1⟩
  exact hreach.2

/-- What a run found was there at some time while it ran and held the lock. -/
theorem exists_of_found {i : ℕ} {rows : List Row} (hfound : w.shared.found i = some rows) :
    ∃ w₁ c p, Reachable collation all ledger w₁ ∧ Continues collation all w₁ w ∧
      w₁.procs i = some (c, p) ∧ w₁.shared.Holds i ∧ w₁.shared.db.rows = rows := by
  induction h with
  | refl => cases hfound
  | tail hbefore hok hstep ih =>
    rcases (grows_of_step hall hbefore hok hstep).2 i with hsame | ⟨hholds, hlook, c, p, hp⟩
    · obtain ⟨w₁, c, p, hw₁, hrun, hrest⟩ := ih (hsame ▸ hfound)
      exact ⟨w₁, c, p, hw₁, hrun.tail hok hstep, hrest⟩
    · refine ⟨_, c, p, hbefore, .tail .refl hok hstep, hp, hholds, ?_⟩
      exact Option.some_inj.mp (hlook.symm.trans hfound)

end

/-! ## Verifying -/

/-- Neither the schema nor the ledger changes. -/
def SameSchema (s s' : Shared) : Prop := s'.db = s.db ∧ s'.ledger = s.ledger

theorem statement_within {β : Type} {i : ℕ} {l : Label}
    {act : Shared → Option (Except String β × Shared)}
    (h : ∀ s r s', act s = some (r, s') → SameSchema s s') :
    Within SameSchema (statement i l act) := by
  refine Within.perform fun o s b s' hact => ?_
  split at hact
  · cases hact
    exact ⟨rfl, rfl⟩
  · split at hact
    · cases hact
      exact ⟨rfl, rfl⟩
    · exact h s b s' hact
    · obtain ⟨⟨r, s₂⟩, hr, hpair⟩ := Option.map_eq_some_iff.mp hact
      obtain ⟨-, rfl⟩ := Prod.mk.inj hpair
      exact h s r s₂ hr

theorem checked_within {β : Type} {i : ℕ} {l : Label} {context : String}
    {act : Shared → Option (Except String β × Shared)}
    (h : ∀ s r s', act s = some (r, s') → SameSchema s s') :
    Within SameSchema (checked i l context act) := by
  refine Within.bind (statement_within h) ?_
  rintro (e | b) <;> exact Within.ret _

theorem appliedMigrations_within (i : ℕ) (set : List Migration) :
    Within SameSchema (appliedMigrations i set) := by
  refine Within.bind (checked_within fun s r s' hact => ?_) ?_
  · cases hact
    exact ⟨rfl, rfl⟩
  · rintro (e | _ | _)
    · exact Within.ret _
    · exact Within.ret _
    · refine checked_within fun s r s' hact => ?_
      split at hact
      all_goals
        cases hact
        exact ⟨rfl, rfl⟩

theorem locked_within (collation : KeyOrder String) (i : ℕ) (set : List Migration) :
    Within SameSchema (locked collation i .verify set) := by
  refine Within.bind (Within.ret _) ?_
  rintro (e | _)
  · exact Within.ret _
  · refine Within.bind (appliedMigrations_within i set) ?_
    rintro (e | rows)
    · exact Within.ret _
    · obtain ⟨report, verdict, hjudge⟩ :
          ∃ report verdict, judge .verify set rows = (report, verdict) := ⟨_, _, rfl⟩
      simp only [hjudge]
      cases verdict <;> exact Within.ret _

/-- A run that verifies changes nothing. -/
theorem run_within (collation : KeyOrder String) (i : ℕ) {c : Call} (hmode : c.mode = .verify) :
    Within SameSchema (run collation i c) := by
  unfold run
  rw [hmode]
  split
  · exact Within.ret _
  · refine Within.bind (checked_within fun s r s' hact => ?_) ?_
    · cases hact
      exact ⟨rfl, rfl⟩
    rintro (e | _)
    · exact Within.ret _
    refine Within.bind (checked_within fun s r s' hact => ?_) ?_
    · obtain ⟨s₂, hlock, hpair⟩ := Option.map_eq_some_iff.mp hact
      obtain ⟨-, rfl⟩ := Prod.mk.inj hpair
      simp only [Shared.lock, Option.ite_none_right_eq_some, Option.some.injEq] at hlock
      obtain ⟨-, rfl⟩ := hlock
      exact ⟨rfl, rfl⟩
    rintro (e | _)
    · exact Within.ret _
    refine Within.bind (locked_within collation i _) fun answer => ?_
    refine Within.bind (statement_within fun s r s' hact => ?_) fun _ => Within.ret _
    cases hact
    exact ⟨rfl, rfl⟩

/-! ## All runs -/

/-- Two releases: the second adds a breaking migration. -/
def releases : List Migration :=
  [⟨1, "baseline", "SELECT 1;", checksum "SELECT 1;", false⟩,
    ⟨2, "rename", "-- argus:breaking\nSELECT 2;", checksum "-- argus:breaking\nSELECT 2;", true⟩]

def releaseFiles : Except String (List Entry) :=
  .ok [⟨"0001_baseline.sql", false, .ok "SELECT 1;"⟩,
    ⟨"0002_rename.sql", false, .ok "-- argus:breaking\nSELECT 2;"⟩]

def emptyLedger : Audit.Database where
  rows := []
  state := none
  hardened := false
  nodup_ids := List.nodup_nil
  constrained h := nomatch h

/-- Whether an event is a look by a build of the releases, or no look. -/
def deployedCheck (w : World) : Event → Bool
  | .act i _ =>
    match w.waiting i with
    | some (.inspect set) => set.isPrefixOf releases
    | _ => true
  | _ => true

theorem deployed_of_check (w : World) (e : Event) (h : deployedCheck w e = true) :
    Deployed releases w e := by
  rintro i o set rfl hwaiting
  simp only [deployedCheck, hwaiting] at h
  exact .inl (List.isPrefixOf_iff_prefix.mp h)

/-- The second process was refused because the schema is newer. -/
def refusedAsNewer (w : World) : Bool :=
  match w.procs 1 with
  | some (_, .ret (_, some (.newer _ _))) => true
  | _ => false

end Argus.Migrations
