import Argus.System.Ownership

/-!
# What the programs guarantee

The specification of the system: every state satisfies the invariant, every step is a `Step`, and the
others do what `Others` allows. The rest of the module are the rules for statements: a transaction is safe
if what it commits is a step, since one that fails does nothing.
-/

namespace Argus.System

open Interleave (Spec Safe Yields)
open Remediation (RemediationAction Failure)
open Workers (Handler findHandler)

/-- When a handler may start. -/
structure HandlerReady (cfg : Config) (h : Handler) (job : RemediationAction) (channel : ℕ)
    (s : Shared) : Prop where
  opened : s.jobs[channel]? = some job
  registered : findHandler cfg.handlers job.actionType = some h

/-- The specification of the system under a discipline. -/
def specification (cfg : Config) (d : Discipline) : Spec Call Label Oracle Shared where
  Inv := Invariant cfg d
  Ok _ l _ s := Permitted cfg d l s
  R i l := Others cfg d i l
  G i := Step cfg d i
  Pre _ c s := ∀ h job channel, c = .handler h job channel → HandlerReady cfg h job channel s

/-! ## Nothing happens -/

theorem forall₂_sameDispatch_refl (dispatches : List Outbox.Dispatch) :
    List.Forall₂ Outbox.SameDispatch dispatches dispatches :=
  List.forall₂_same.mpr fun x _ => .refl x

theorem Quiet.refl (s : Shared) : Quiet s s :=
  ⟨rfl, fun _ h => h, forall₂_sameDispatch_refl _, ⟨[], by simp, by simp⟩, rfl, rfl, rfl, rfl, rfl,
    rfl⟩

/-- Whatever leaves the database, workflows, reservations and locks alone is quiet. -/
theorem Quiet.of_db_eq {s s' : Shared} (hdb : s'.db = s.db)
    (hreservations : s'.reservations = s.reservations) (hworkflows : s'.workflows = s.workflows)
    (hreconciler : s'.reconciler = s.reconciler) (hlocks : s'.rowLocks = s.rowLocks)
    (hattempts : s'.cancelAttempts = s.cancelAttempts) (hholders : s'.holders = s.holders) :
    Quiet s s' where
  remediations := by rw [hdb]
  incidents id h := h.congr (congrArg Db.incidents hdb)
  dispatches := by rw [hdb]; exact forall₂_sameDispatch_refl _
  audit := ⟨[], by simp [hdb], by simp⟩
  reservations := hreservations
  workflows := hworkflows
  reconciler := hreconciler
  rowLocks := hlocks
  cancelAttempts := hattempts
  holders := hholders

section

variable {cfg : Config} {d : Discipline} {i : ℕ} {l : Label} {β : Type} {s : Shared}

theorem Step.nothing (o : Oracle) (s : Shared) : Step cfg d i l o s s :=
  .quiet (.refl s) .refl

/-! ## What the others keep -/

/-- Every change keeps `P`. -/
def Keeps (cfg : Config) (d : Discipline) (P : Shared → Prop) : Prop :=
  ∀ l s s', Tables cfg d s → Change cfg d l s s' → P s → P s'

variable {P : Shared → Prop}

theorem Keeps.changes (h : Keeps cfg d P) {s s' : Shared} (htables : Tables cfg d s)
    (hchanges : Changes cfg d l s s') (hs : P s) : P s' := by
  induction hchanges with
  | refl => exact hs
  | tail hbefore hstep ih => exact h l _ _ (htables.changes hbefore) hstep ih

theorem Keeps.step (h : Keeps cfg d P) {o : Oracle} {s s' : Shared} (hinv : Invariant cfg d s)
    (hstep : Step cfg d i l o s s') (hs : P s) : P s' := by
  obtain ⟨l', hchanges⟩ := hstep.changes
  exact h.changes hinv.tables hchanges hs

theorem Keeps.stable (h : Keeps cfg d P) (i : ℕ) (l : Option Label) :
    (specification cfg d).Stable i l P := by
  rintro s s' ⟨hinv, hothers, -⟩ hs
  obtain ⟨l', hchanges⟩ := hothers.moves.changes
  exact h.changes hinv.tables hchanges hs

theorem keeps_const (cfg : Config) (d : Discipline) (p : Prop) : Keeps cfg d fun _ => p :=
  fun _ _ _ _ _ h => h

theorem Keeps.and {Q : Shared → Prop} (hP : Keeps cfg d P) (hQ : Keeps cfg d Q) :
    Keeps cfg d fun s => P s ∧ Q s :=
  fun l s s' htables hstep h => ⟨hP l s s' htables hstep h.1, hQ l s s' htables hstep h.2⟩

/-- A program keeps what every change keeps. -/
theorem Keeps.frame (h : Keeps cfg d P) {Q : β → Shared → Prop} {p : Program β} (hs : P s)
    (hp : Safe (specification cfg d) i Q p s) :
    Safe (specification cfg d) i (fun a s => Q a s ∧ P s) p s :=
  Safe.frame (h.stable i) (fun _ _ _ _ hinv hstep hs => h.step hinv hstep hs) hs hp

/-- Whoever owns what `P` speaks of keeps it, apart from workflows of one remediation. -/
def Owns (cfg : Config) (d : Discipline) (i : ℕ) (exempt : Option String) (P : Shared → Prop) :
    Prop :=
  ∀ s s', Invariant cfg d s → Invariant cfg d s' → Undisturbed d i exempt s s' → P s → P s'

theorem Owns.stable (h : Owns cfg d i none P) (l : Option Label) :
    (specification cfg d).Stable i l P := by
  rintro s s' ⟨hinv, hothers, hinv'⟩ hs
  exact h s s' hinv hinv' (hothers.moves.undisturbed hinv) hs

/-! ## Statements -/

variable {Q : Except Failure β → Shared → Prop} {f : Oracle → Shared → Except Failure (β × Shared)}

section

variable (P) (hstable : (specification cfg d).Stable i (some l) P) (hs : P s)

include hstable hs

theorem safe_transact
    (hok : ∀ o s₁ b s₂, Invariant cfg d s₁ → Permitted cfg d l s₁ → P s₁ → f o s₁ = .ok (b, s₂) →
      Step cfg d i l o s₁ s₂ ∧ Q (.ok b) s₂)
    (herr : ∀ e s₁, Invariant cfg d s₁ → P s₁ → Q (.error e) s₁) :
    Safe (specification cfg d) i Q (transact l f) s := by
  refine Safe.perform P hstable hs ?_
  intro s₁ o r s₂ hinv hp hpermitted hact
  rcases attempt_cases (Option.some.inj hact) with ⟨b, rfl, hf⟩ | ⟨e, rfl, rfl⟩
  · exact hok o s₁ b s₂ hinv hpermitted hp hf
  · exact ⟨Step.nothing o s₂, herr e s₂ hinv hp⟩

theorem safe_transactOn {id : String}
    (hok : ∀ o s₁ b s₂, Invariant cfg d s₁ → Permitted cfg d l s₁ → id ∉ s₁.rowLocks → P s₁ →
      f o s₁ = .ok (b, s₂) → Step cfg d i l o s₁ s₂ ∧ Q (.ok b) s₂)
    (herr : ∀ e s₁, Invariant cfg d s₁ → P s₁ → Q (.error e) s₁) :
    Safe (specification cfg d) i Q (transactOn l id f) s := by
  refine Safe.perform P hstable hs ?_
  intro s₁ o r s₂ hinv hp hpermitted hact
  split at hact
  · cases hact
  · rename_i hfree
    rcases attempt_cases (Option.some.inj hact) with ⟨b, rfl, hf⟩ | ⟨e, rfl, rfl⟩
    · exact hok o s₁ b s₂ hinv hpermitted hfree hp hf
    · exact ⟨Step.nothing o s₂, herr e s₂ hinv hp⟩

theorem safe_query {f : Oracle → Db → Except Failure β}
    (hok : ∀ o s₁ b, Invariant cfg d s₁ → P s₁ → f o s₁.db = .ok b → Q (.ok b) s₁)
    (herr : ∀ e s₁, Invariant cfg d s₁ → P s₁ → Q (.error e) s₁) :
    Safe (specification cfg d) i Q (query l f) s := by
  refine safe_transact P hstable hs ?_ herr
  intro o s₁ b s₂ hinv _ hp hf
  obtain ⟨b', hdb, heq⟩ := exists_of_map_eq_ok hf
  obtain ⟨rfl, rfl⟩ := Prod.mk.inj heq
  exact ⟨Step.nothing o s₁, hok o s₁ b' hinv hp hdb⟩

end

/-! ### Statements without an assertion -/

theorem transact_yields
    (hok : ∀ o s b s', Invariant cfg d s → Permitted cfg d l s → f o s = .ok (b, s') →
      Step cfg d i l o s s') :
    Yields (specification cfg d) i (fun _ => True) (transact l f) := by
  refine ⟨fun s => safe_transact (fun _ => True) ((keeps_const cfg d _).stable i _) trivial ?_
    fun _ _ _ _ => trivial⟩
  intro o s₁ b s₂ hinv hpermitted _ hf
  exact ⟨hok o s₁ b s₂ hinv hpermitted hf, trivial⟩

theorem transactOn_yields {id : String}
    (hok : ∀ o s b s', Invariant cfg d s → Permitted cfg d l s → id ∉ s.rowLocks →
      f o s = .ok (b, s') → Step cfg d i l o s s') :
    Yields (specification cfg d) i (fun _ => True) (transactOn l id f) := by
  refine ⟨fun s => safe_transactOn (fun _ => True) ((keeps_const cfg d _).stable i _) trivial ?_
    fun _ _ _ _ => trivial⟩
  intro o s₁ b s₂ hinv hpermitted hfree _ hf
  exact ⟨hok o s₁ b s₂ hinv hpermitted hfree hf, trivial⟩

theorem query_yields {f : Oracle → Db → Except Failure β} :
    Yields (specification cfg d) i (fun _ => True) (query l f) :=
  ⟨fun _ => safe_query (fun _ => True) ((keeps_const cfg d _).stable i _) trivial
    (fun _ _ _ _ _ _ => trivial) fun _ _ _ _ => trivial⟩

/-- A step outside of the database's transactions. -/
theorem perform_yields {act : Oracle → Shared → Option (β × Shared)}
    (hact : ∀ o s b s', Invariant cfg d s → Permitted cfg d l s → act o s = some (b, s') →
      Step cfg d i l o s s') :
    Yields (specification cfg d) i (fun _ => True)
      (Interleave.Prog.perform l act : Program β) := by
  refine Yields.perform fun s o b s' hinv hpermitted h => ⟨?_, trivial⟩
  exact hact o s b s' hinv hpermitted h

end

end Argus.System
