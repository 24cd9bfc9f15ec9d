import Mathlib.Data.Nat.Notation
import Mathlib.Logic.Function.Basic
import Mathlib.Logic.Relation

/-!
# Interleaved programs over shared state

A program is a tree of atomic steps. A step reads and changes the shared state, under choices that an
oracle makes for it (does the statement fail, what does the clock say), and is blocked where it returns
nothing; between two steps anything may happen. A system runs any number of programs, each on behalf of
a call, together with steps of the environment and crashes.

`Safe` is the rely-guarantee condition on a program: if the others only do what its rely allows, every
step it takes is within its guarantee, and what it returns satisfies the postcondition. `Sound.reach`
puts programs together: when every call is safe and each tolerates what the others do, the invariant
holds in every state of every run, and every answer given so far is as promised.
-/

namespace Argus.Interleave

variable {C L O E S A : Type}

/-! ## Programs -/

/-- Programs that return an `α`: calls in `C` to fork, labels in `L`, oracles in `O`, shared state `S`. -/
inductive Prog (C L O S α : Type) : Type 1 where
  | ret (a : α)
  | atomic {β : Type} (l : L) (act : O → S → Option (β × S)) (k : β → Prog C L O S α)
  | fork (c : C) (rest : Prog C L O S α)

namespace Prog

variable {α β : Type}

def bind : Prog C L O S α → (α → Prog C L O S β) → Prog C L O S β
  | ret a, f => f a
  | atomic l act k, f => atomic l act fun b => (k b).bind f
  | fork c rest, f => fork c (rest.bind f)

instance : Monad (Prog C L O S) where
  pure := ret
  bind := bind

/-- A program of one atomic step. -/
def perform (l : L) (act : O → S → Option (β × S)) : Prog C L O S β := atomic l act ret

/-- Start another call. -/
def spawn (c : C) : Prog C L O S Unit := fork c (ret ())

/-- The label of the step the program waits at. -/
def next : Prog C L O S α → Option L
  | atomic l _ _ => some l
  | ret _ | fork _ _ => none

end Prog

/-! ## Systems -/

/-- The state of a system: the shared state, and the live calls with the rest of their programs. Calls are
numbered in the order in which they start. -/
structure World (C L O S A : Type) : Type 1 where
  shared : S
  procs : ℕ → Option (C × Prog C L O S A)
  /-- the number of the next call -/
  next : ℕ

/-- The label of the step that process `i` waits at. -/
def World.waiting (w : World C L O S A) (i : ℕ) : Option L := (w.procs i).bind fun p => p.2.next

/-- What a system consists of. -/
structure System (C L O E S A : Type) : Type 1 where
  /-- the program of a call, run as process `i` -/
  program : ℕ → C → Prog C L O S A
  /-- the calls that come from outside -/
  external : C → Bool
  environment : E → S → Option S
  /-- what the death of process `i` undoes -/
  crash : ℕ → S → S

/-- What happens next. -/
inductive Event (C O E : Type) where
  | start (c : C)
  | act (i : ℕ) (o : O)
  | fork (i : ℕ)
  | crash (i : ℕ)
  | environment (e : E)

namespace System

variable (sys : System C L O E S A)

/-- The world after a call starts. -/
def begin (c : C) (w : World C L O S A) : World C L O S A :=
  ⟨w.shared, Function.update w.procs w.next (some (c, sys.program w.next c)), w.next + 1⟩

/-- The step that process `i` takes. -/
def advance (i : ℕ) (o : O) (w : World C L O S A) : Option (World C L O S A) :=
  match w.procs i with
  | some (c, .atomic _ act k) =>
    (act o w.shared).map fun r => ⟨r.2, Function.update w.procs i (some (c, k r.1)), w.next⟩
  | _ => none

/-- The call that process `i` starts. -/
def split (i : ℕ) (w : World C L O S A) : Option (World C L O S A) :=
  match w.procs i with
  | some (c, .fork c' rest) =>
    some (sys.begin c' ⟨w.shared, Function.update w.procs i (some (c, rest)), w.next⟩)
  | _ => none

/-- One step; nothing where it is not possible. -/
def step (w : World C L O S A) : Event C O E → Option (World C L O S A)
  | .start c => if sys.external c then some (sys.begin c w) else none
  | .act i o => advance i o w
  | .fork i => sys.split i w
  | .crash i => some ⟨sys.crash i w.shared, Function.update w.procs i none, w.next⟩
  | .environment e => (sys.environment e w.shared).map fun s => ⟨s, w.procs, w.next⟩

/-- No call is live. -/
def idle (s : S) : World C L O S A := ⟨s, fun _ => none, 0⟩

/-- The states reached from `w₀` by steps that all satisfy `ok`. -/
inductive Reach (ok : World C L O S A → Event C O E → Prop) (w₀ : World C L O S A) :
    World C L O S A → Prop
  | refl : Reach ok w₀ w₀
  | tail {w w' : World C L O S A} {e : Event C O E} (h : Reach ok w₀ w) (hok : ok w e)
      (hstep : sys.step w e = some w') : Reach ok w₀ w'

variable {sys}

variable {w : World C L O S A} {ok : World C L O S A → Event C O E → Prop}

theorem Reach.mono {ok' : World C L O S A → Event C O E → Prop} {w₀ : World C L O S A}
    (h : sys.Reach ok w₀ w) (himp : ∀ w e, ok w e → ok' w e) : sys.Reach ok' w₀ w := by
  induction h with
  | refl => exact .refl
  | tail _ hok hstep ih => exact ih.tail (himp _ _ hok) hstep

variable {c : C} {p : Prog C L O S A} {i : ℕ}

theorem procs_begin {d : C} (h : (sys.begin c w).procs i = some (d, p)) :
    i = w.next ∧ p = sys.program i d ∨ w.procs i = some (d, p) := by
  by_cases hi : i = w.next
  · subst hi
    simp only [begin, Function.update_self, Option.some.injEq, Prod.mk.injEq] at h
    obtain ⟨rfl, rfl⟩ := h
    exact .inl ⟨rfl, rfl⟩
  · exact .inr (by simpa only [begin, Function.update_of_ne hi] using h)

variable {w' : World C L O S A}

/-- How a step changes the shared state. -/
theorem step_shared {e : Event C O E} (h : sys.step w e = some w') :
    w'.shared = w.shared ∨
      (∃ (i : ℕ) (o : O) (c : C) (β : Type) (l : L) (act : O → S → Option (β × S))
        (k : β → Prog C L O S A) (b : β), e = .act i o ∧ w.procs i = some (c, .atomic l act k) ∧
          act o w.shared = some (b, w'.shared) ∧ w'.procs i = some (c, k b)) ∨
      (∃ i, e = .crash i ∧ w'.shared = sys.crash i w.shared) ∨
      ∃ x, e = .environment x ∧ sys.environment x w.shared = some w'.shared := by
  cases e with
  | start c =>
    simp only [step] at h
    split at h
    · obtain rfl := Option.some.inj h
      exact .inl rfl
    · cases h
  | act i o =>
    simp only [step, advance] at h
    split at h
    · rename_i c β l act k hp
      obtain ⟨⟨b, s'⟩, hact, rfl⟩ := Option.map_eq_some_iff.mp h
      exact .inr (.inl ⟨i, o, c, β, l, act, k, b, rfl, hp, hact, Function.update_self ..⟩)
    · cases h
  | fork i =>
    simp only [step, split] at h
    split at h
    · obtain rfl := Option.some.inj h
      exact .inl rfl
    · cases h
  | crash i =>
    obtain rfl := Option.some.inj h
    exact .inr (.inr (.inl ⟨i, rfl, rfl⟩))
  | environment x =>
    obtain ⟨s', henv, rfl⟩ := Option.map_eq_some_iff.mp h
    exact .inr (.inr (.inr ⟨x, rfl, henv⟩))

/-- How a step changes a process. -/
theorem step_procs {e : Event C O E} (h : sys.step w e = some w') (hp : w'.procs i = some (c, p)) :
    w.procs i = some (c, p) ∨ i = w.next ∧ p = sys.program i c ∨
      (∃ (o : O) (β : Type) (l : L) (act : O → S → Option (β × S)) (k : β → Prog C L O S A) (b : β),
        w.procs i = some (c, .atomic l act k) ∧ act o w.shared = some (b, w'.shared) ∧ p = k b) ∨
      ∃ c', w.procs i = some (c, .fork c' p) := by
  cases e with
  | start d =>
    simp only [step] at h
    split at h
    · obtain rfl := Option.some.inj h
      rcases procs_begin hp with hnew | hold
      · exact .inr (.inl hnew)
      · exact .inl hold
    · cases h
  | act j o =>
    simp only [step, advance] at h
    split at h
    · rename_i d β l act k hj
      obtain ⟨⟨b, s'⟩, hact, rfl⟩ := Option.map_eq_some_iff.mp h
      by_cases hij : i = j
      · subst hij
        simp only [Function.update_self, Option.some.injEq, Prod.mk.injEq] at hp
        obtain ⟨rfl, rfl⟩ := hp
        exact .inr (.inr (.inl ⟨o, β, l, act, k, b, hj, hact, rfl⟩))
      · exact .inl (by simpa only [Function.update_of_ne hij] using hp)
    · cases h
  | fork j =>
    simp only [step, split] at h
    split at h
    · rename_i d d' rest hj
      obtain rfl := Option.some.inj h
      rcases procs_begin hp with hnew | hold
      · exact .inr (.inl hnew)
      · by_cases hij : i = j
        · subst hij
          simp only [Function.update_self, Option.some.injEq, Prod.mk.injEq] at hold
          obtain ⟨rfl, rfl⟩ := hold
          exact .inr (.inr (.inr ⟨d', hj⟩))
        · exact .inl (by simpa only [Function.update_of_ne hij] using hold)
    · cases h
  | crash j =>
    obtain rfl := Option.some.inj h
    by_cases hij : i = j
    · subst hij
      simp at hp
    · exact .inl (by simpa only [Function.update_of_ne hij] using hp)
  | environment x =>
    obtain ⟨s', -, rfl⟩ := Option.map_eq_some_iff.mp h
    exact .inl hp

/-! ### Runs on fixed events -/

/-- The numbers of calls yet to start are unused. -/
def Numbered (w : World C L O S A) : Prop := ∀ j, w.next ≤ j → w.procs j = none

theorem numbered_idle (s : S) : Numbered (idle s : World C L O S A) := fun _ _ => rfl

namespace Numbered

variable {w w' : World C L O S A}

theorem lt (h : Numbered w) {i : ℕ} {p : C × Prog C L O S A} (hp : w.procs i = some p) :
    i < w.next := by
  by_contra hi
  rw [h i (by omega)] at hp
  cases hp

private theorem update (h : Numbered w) {i : ℕ} (hi : i < w.next)
    (p : Option (C × Prog C L O S A)) (s : S) :
    Numbered ⟨s, Function.update w.procs i p, w.next⟩ := by
  intro j hj
  exact (Function.update_of_ne (Nat.ne_of_gt (Nat.lt_of_lt_of_le hi hj)) ..).trans (h j hj)

private theorem begin (h : Numbered w) (c : C) : Numbered (sys.begin c w) := by
  intro j hj
  have hlt : w.next < j := hj
  exact (Function.update_of_ne (Nat.ne_of_gt hlt) ..).trans (h j (Nat.le_of_lt hlt))

theorem step (h : Numbered w) {e : Event C O E} (hstep : sys.step w e = some w') :
    Numbered w' := by
  cases e with
  | start c =>
    simp only [System.step] at hstep
    split at hstep
    · obtain rfl := Option.some.inj hstep
      exact h.begin c
    · cases hstep
  | act i o =>
    simp only [System.step, advance] at hstep
    split at hstep
    · rename_i c β l act k hp
      obtain ⟨⟨b, s'⟩, -, rfl⟩ := Option.map_eq_some_iff.mp hstep
      exact h.update (h.lt hp) _ _
    · cases hstep
  | fork i =>
    simp only [System.step, split] at hstep
    split at hstep
    · rename_i c c' rest hp
      obtain rfl := Option.some.inj hstep
      exact (h.update (h.lt hp) _ _).begin c'
    · cases hstep
  | crash i =>
    obtain rfl := Option.some.inj hstep
    intro j hj
    by_cases hij : j = i
    · subst hij
      exact Function.update_self ..
    · exact (Function.update_of_ne hij ..).trans (h j hj)
  | environment x =>
    obtain ⟨s', -, rfl⟩ := Option.map_eq_some_iff.mp hstep
    exact h

end Numbered

/-- The state after a list of events that all pass a check. -/
def runIf (sys : System C L O E S A) (check : World C L O S A → Event C O E → Bool)
    (w : World C L O S A) (events : List (Event C O E)) : Option (World C L O S A) :=
  events.foldlM (fun w e => if check w e then sys.step w e else none) w

theorem reach_of_runIf {check : World C L O S A → Event C O E → Bool}
    (hcheck : ∀ w e, Numbered w → check w e = true → ok w e) {events : List (Event C O E)}
    (hw : Numbered w) (hrun : sys.runIf check w events = some w') : sys.Reach ok w w' := by
  have hrest {w₀ : World C L O S A} (h : sys.Reach ok w₀ w) : sys.Reach ok w₀ w' := by
    induction events generalizing w with
    | nil =>
      obtain rfl : w = w' := by simpa [System.runIf] using hrun
      exact h
    | cons e events ih =>
      rw [System.runIf, List.foldlM_cons] at hrun
      split at hrun
      · rename_i hok
        obtain ⟨w₁, hstep, hrest⟩ := Option.bind_eq_some_iff.mp hrun
        exact ih (hw.step hstep) hrest (h.tail (hcheck w e hw hok) hstep)
      · cases hrun
  exact hrest .refl

/-- A run on fixed events that ends as it should. -/
theorem exists_reach_of_runIf (sys : System C L O E S A) (s₀ : S) (events : List (Event C O E))
    (p : World C L O S A → Bool) {check : World C L O S A → Event C O E → Bool}
    (hcheck : ∀ w e, Numbered w → check w e = true → ok w e)
    (hrun : (sys.runIf check (idle s₀) events).any p = true) :
    ∃ w, sys.Reach ok (idle s₀) w ∧ p w = true := by
  cases hw : sys.runIf check (idle s₀) events with
  | none =>
    rw [hw] at hrun
    cases hrun
  | some w =>
    rw [hw] at hrun
    exact ⟨w, reach_of_runIf hcheck (numbered_idle s₀) hw, hrun⟩

/-- What the programs of calls satisfy and every step of theirs keeps, all live programs satisfy. -/
theorem Reach.programs {s₀ : S} (P : C → Prog C L O S A → Prop)
    (hprogram : ∀ i c, P c (sys.program i c))
    (hact : ∀ c (β : Type) l (act : O → S → Option (β × S)) k o s b s', P c (.atomic l act k) → act
      o s = some (b, s') → P c (k b)) (hfork : ∀ c c' rest, P c (.fork c' rest) → P c rest)
    (h : sys.Reach ok (idle s₀) w) (hp : w.procs i = some (c, p)) : P c p := by
  induction h generalizing i c p with
  | refl => cases hp
  | tail _ _ hstep ih =>
    rcases step_procs hstep hp with
      hold | ⟨-, rfl⟩ | ⟨o, β, l, act, k, b, hold, hb, rfl⟩ | ⟨c', hold⟩
    · exact ih hold
    · exact hprogram i c
    · exact hact c β l act k o _ b _ (ih hold) hb
    · exact hfork c c' p (ih hold)

end System

/-! ## Rely and guarantee -/

/-- What programs assume and promise. -/
structure Spec (C L O S : Type) where
  /-- holds in every state -/
  Inv : S → Prop
  /-- when a process is assumed to take a step -/
  Ok : ℕ → L → O → S → Prop
  /-- what others may do while a process waits at a label -/
  R : ℕ → Option L → S → S → Prop
  /-- what a step of a process does, by its label and the choices made for it -/
  G : ℕ → L → O → S → S → Prop
  /-- what a call may assume when it starts as a process -/
  Pre : ℕ → C → S → Prop

namespace Spec

variable (spec : Spec C L O S) (i : ℕ)

/-- A step of others, between states that satisfy the invariant. -/
def Interferes (l : Option L) (s s' : S) : Prop := spec.Inv s ∧ spec.R i l s s' ∧ spec.Inv s'

/-- The others keep `P` while process `i` waits at `l`. -/
def Stable (l : Option L) (P : S → Prop) : Prop := ∀ s s', spec.Interferes i l s s' → P s → P s'

variable {spec i}

theorem Stable.star {l : Option L} {P : S → Prop} (h : spec.Stable i l P) {s s' : S}
    (hstar : Relation.ReflTransGen (spec.Interferes i l) s s') (hs : P s) : P s' := by
  induction hstar with
  | refl => exact hs
  | tail _ hstep ih => exact h _ _ hstep ih

theorem stable_const (l : Option L) (p : Prop) : spec.Stable i l fun _ => p := fun _ _ _ h => h

end Spec

/-- From `s`, under interference within the rely, every step of the program of process `i` is within the
guarantee, every call it starts may start, and its result satisfies `Q`. -/
def Safe {α : Type} (spec : Spec C L O S) (i : ℕ) (Q : α → S → Prop) : Prog C L O S α → S → Prop
  | .ret a, s => Q a s
  | .atomic l act k, s =>
    ∀ s₁, Relation.ReflTransGen (spec.Interferes i (some l)) s s₁ → spec.Inv s₁ →
      ∀ o b s₂, spec.Ok i l o s₁ → act o s₁ = some (b, s₂) →
        spec.G i l o s₁ s₂ ∧ Safe spec i Q (k b) s₂
  | .fork c rest, s =>
    ∀ s₁, Relation.ReflTransGen (spec.Interferes i none) s s₁ → spec.Inv s₁ →
      (∀ j, spec.Pre j c s₁) ∧ Safe spec i Q rest s₁

namespace Safe

variable {α β : Type} {spec : Spec C L O S} {i : ℕ} {s : S}

variable {Q : α → S → Prop}

theorem ret {a : α} (h : Q a s) :
    Safe spec i Q (Prog.ret a : Prog C L O S α) s := h

/-- One step from an assertion that the others keep. -/
theorem perform {Q : β → S → Prop} {l : L} {act : O → S → Option (β × S)} (P : S → Prop)
    (hstable : spec.Stable i (some l) P) (hs : P s)
    (h : ∀ s₁ o b s₂, spec.Inv s₁ → P s₁ → spec.Ok i l o s₁ → act o s₁ = some (b, s₂) →
      spec.G i l o s₁ s₂ ∧ Q b s₂) :
    Safe spec i Q (Prog.perform l act : Prog C L O S β) s := by
  intro s₁ hstar hinv o b s₂ hok hact
  exact h s₁ o b s₂ hinv (hstable.star hstar hs) hok hact

theorem spawn {Q : Unit → S → Prop} {c : C} (P : S → Prop) (hstable : spec.Stable i none P)
    (hs : P s) (h : ∀ s₁, spec.Inv s₁ → P s₁ → (∀ j, spec.Pre j c s₁) ∧ Q () s₁) :
    Safe spec i Q (Prog.spawn c : Prog C L O S Unit) s := by
  intro s₁ hstar hinv
  exact h s₁ hinv (hstable.star hstar hs)

variable {p : Prog C L O S α} {s : S}

theorem mono {Q' : α → S → Prop} (hQ : ∀ a s, Q a s → Q' a s) (h : Safe spec i Q p s) :
    Safe spec i Q' p s := by
  induction p generalizing s with
  | ret a => exact hQ a s h
  | atomic l act k ih =>
    intro s₁ hstar hinv o b s₂ hok hact
    obtain ⟨hG, hk⟩ := h s₁ hstar hinv o b s₂ hok hact
    exact ⟨hG, ih b hk⟩
  | fork c rest ih =>
    intro s₁ hstar hinv
    obtain ⟨hpre, hrest⟩ := h s₁ hstar hinv
    exact ⟨hpre, ih hrest⟩

/-- Sequencing: the first program ends where the second is safe. -/
theorem bind {Q : β → S → Prop} {f : α → Prog C L O S β}
    (h : Safe spec i (fun a s => Safe spec i Q (f a) s) p s) : Safe spec i Q (p >>= f) s := by
  show Safe spec i Q (p.bind f) s
  induction p generalizing s with
  | ret a => exact h
  | atomic l act k ih =>
    intro s₁ hstar hinv o b s₂ hok hact
    obtain ⟨hG, hk⟩ := h s₁ hstar hinv o b s₂ hok hact
    exact ⟨hG, ih b hk⟩
  | fork c rest ih =>
    intro s₁ hstar hinv
    obtain ⟨hpre, hrest⟩ := h s₁ hstar hinv
    exact ⟨hpre, ih hrest⟩

/-- What neither the others nor steps within the guarantee change holds to the end. -/
theorem frame {P : S → Prop} (hstable : ∀ l, spec.Stable i l P)
    (hstep : ∀ l o s s', spec.Inv s → spec.G i l o s s' → P s → P s') (hs : P s)
    (h : Safe spec i Q p s) : Safe spec i (fun a s => Q a s ∧ P s) p s := by
  induction p generalizing s with
  | ret a => exact ⟨h, hs⟩
  | atomic l act k ih =>
    intro s₁ hstar hinv o b s₂ hok hact
    obtain ⟨hG, hk⟩ := h s₁ hstar hinv o b s₂ hok hact
    exact ⟨hG, ih b (hstep l o s₁ s₂ hinv hG ((hstable _).star hstar hs)) hk⟩
  | fork c rest ih =>
    intro s₁ hstar hinv
    obtain ⟨hpre, hrest⟩ := h s₁ hstar hinv
    exact ⟨hpre, ih ((hstable _).star hstar hs) hrest⟩

/-- A waiting program tolerates its rely. -/
theorem interfere (hQ : ∀ a, spec.Stable i none (Q a)) {s' : S} (h : Safe spec i Q p s)
    (hstep : spec.Interferes i p.next s s') : Safe spec i Q p s' := by
  cases p with
  | ret a => exact hQ a s s' hstep h
  | atomic l act k | fork c rest =>
    intro s₁ hstar hinv
    exact h s₁ (.head hstep hstar) hinv

/-- What a program that waits at a step guarantees. -/
theorem of_atomic {l : L} {act : O → S → Option (β × S)} {k : β → Prog C L O S α}
    (h : Safe spec i Q (.atomic l act k) s) (hinv : spec.Inv s) {o : O} {b : β} {s' : S}
    (hok : spec.Ok i l o s) (hact : act o s = some (b, s')) :
    spec.G i l o s s' ∧ Safe spec i Q (k b) s' :=
  h s .refl hinv o b s' hok hact

/-- What a program that starts a call guarantees. -/
theorem of_fork {c : C} {rest : Prog C L O S α} (h : Safe spec i Q (.fork c rest) s)
    (hinv : spec.Inv s) : (∀ j, spec.Pre j c s) ∧ Safe spec i Q rest s :=
  h s .refl hinv

/-- What a finished program has established. -/
theorem of_ret {a : α} (h : Safe spec i Q (Prog.ret a : Prog C L O S α) s) : Q a s := h

end Safe

attribute [irreducible] Safe

/-- Safe from every state, with a result that satisfies `P`: the program needs no assertion. -/
structure Yields {α : Type} (spec : Spec C L O S) (i : ℕ) (P : α → Prop) (p : Prog C L O S α) :
    Prop where
  safe : ∀ s, Safe spec i (fun a _ => P a) p s

namespace Yields

variable {α β : Type} {spec : Spec C L O S} {i : ℕ}

theorem ret {P : α → Prop} {a : α} (h : P a) : Yields spec i P (Prog.ret a : Prog C L O S α) :=
  ⟨fun _ => Safe.ret h⟩

theorem perform {P : β → Prop} {l : L} {act : O → S → Option (β × S)}
    (h : ∀ s o b s', spec.Inv s → spec.Ok i l o s → act o s = some (b, s') →
      spec.G i l o s s' ∧ P b) :
    Yields spec i P (Prog.perform l act : Prog C L O S β) := by
  refine ⟨fun s => Safe.perform (fun _ => True) (Spec.stable_const _ _) trivial ?_⟩
  intro s₁ o b s₂ hinv _ hok hact
  exact h s₁ o b s₂ hinv hok hact

theorem bind {P : α → Prop} {Q : β → Prop} {p : Prog C L O S α} {f : α → Prog C L O S β}
    (hp : Yields spec i P p) (hf : ∀ a, P a → Yields spec i Q (f a)) :
    Yields spec i Q (p >>= f) :=
  ⟨fun s => Safe.bind ((hp.safe s).mono fun a s ha => (hf a ha).safe s)⟩

end Yields

/-! ## Runs of safe programs -/

/-- The invariant holds and every live call is safe. -/
structure Sound (spec : Spec C L O S) (Post : ℕ → C → A → S → Prop) (w : World C L O S A) : Prop where
  inv : spec.Inv w.shared
  safe : ∀ i c p, w.procs i = some (c, p) → Safe spec i (Post i c) p w.shared

/-- What has to be shown of a system, once for each call and once for the shared state. -/
structure Obligations (sys : System C L O E S A) (spec : Spec C L O S)
    (Post : ℕ → C → A → S → Prop) : Prop where
  program : ∀ i c s, spec.Inv s → spec.Pre i c s → Safe spec i (Post i c) (sys.program i c) s
  external : ∀ i c s, sys.external c = true → spec.Inv s → spec.Pre i c s
  post : ∀ i c a, spec.Stable i none (Post i c a)

/-- Every call but process `i` tolerates a change of the shared state to `s'`. -/
def Tolerated (spec : Spec C L O S) (w : World C L O S A) (i : Option ℕ) (s' : S) : Prop :=
  ∀ j c p, some j ≠ i → w.procs j = some (c, p) → spec.R j p.next w.shared s'

/-- The steps that satisfy `ok` keep the invariant and are tolerated. -/
structure Compatible (sys : System C L O E S A) (spec : Spec C L O S)
    (ok : World C L O S A → Event C O E → Prop) : Prop where
  permits : ∀ w i o c β l (act : O → S → Option (β × S)) k, ok w (.act i o) →
    w.procs i = some (c, .atomic l act k) → spec.Ok i l o w.shared
  act : ∀ w i o c β l (act : O → S → Option (β × S)) k b s', ok w (.act i o) →
    w.procs i = some (c, .atomic l act k) → act o w.shared = some (b, s') →
    spec.Inv w.shared → spec.G i l o w.shared s' → spec.Inv s' ∧ Tolerated spec w (some i) s'
  crash : ∀ w i, ok w (.crash i) → spec.Inv w.shared →
    spec.Inv (sys.crash i w.shared) ∧ Tolerated spec w (some i) (sys.crash i w.shared)
  environment : ∀ w e s', ok w (.environment e) → sys.environment e w.shared = some s' →
    spec.Inv w.shared → spec.Inv s' ∧ Tolerated spec w none s'

namespace Sound

variable {sys : System C L O E S A} {spec : Spec C L O S} {Post : ℕ → C → A → S → Prop}
  {ok : World C L O S A → Event C O E → Prop} {w w' : World C L O S A}

variable {c : C}

/-- The others after a step of process `i`. -/
private theorem others (hob : Obligations sys spec Post) (h : Sound spec Post w) {s' : S}
    (hinv : spec.Inv s') {i : Option ℕ} (htol : Tolerated spec w i s') {j : ℕ} {p : Prog C L O S A}
    (hj : some j ≠ i) (hp : w.procs j = some (c, p)) : Safe spec j (Post j c) p s' :=
  (h.safe j c p hp).interfere (hob.post j c) ⟨h.inv, htol j c p hj hp, hinv⟩

variable {i : ℕ}

/-- A step of a live call is within its guarantee. -/
theorem guarantee (h : Sound spec Post w) {o : O} {β : Type} {l : L} {act : O → S → Option (β × S)}
    {k : β → Prog C L O S A} (hp : w.procs i = some (c, .atomic l act k))
    (hok : spec.Ok i l o w.shared) {b : β} {s' : S} (hact : act o w.shared = some (b, s')) :
    spec.G i l o w.shared s' ∧ Safe spec i (Post i c) (k b) s' :=
  (h.safe i c _ hp).of_atomic h.inv hok hact

private theorem act (hob : Obligations sys spec Post) (hcompat : Compatible sys spec ok)
    (h : Sound spec Post w) {o : O} (hok : ok w (.act i o)) (hstep : System.advance i o w = some w') :
    Sound spec Post w' := by
  unfold System.advance at hstep
  split at hstep
  · rename_i c β l act k hp
    obtain ⟨⟨b, s'⟩, hact, rfl⟩ := Option.map_eq_some_iff.mp hstep
    obtain ⟨hG, hk⟩ := h.guarantee hp (hcompat.permits w i o c β l act k hok hp) hact
    obtain ⟨hinv, htol⟩ := hcompat.act w i o c β l act k b s' hok hp hact h.inv hG
    refine ⟨hinv, fun j c' p hj => ?_⟩
    by_cases hij : j = i
    · subst hij
      simp only [Function.update_self, Option.some.injEq, Prod.mk.injEq] at hj
      obtain ⟨rfl, rfl⟩ := hj
      exact hk
    · simp only [Function.update_of_ne hij] at hj
      exact h.others hob hinv htol (by simpa using hij) hj
  · cases hstep

/-- A call that may start is safe from the start. -/
private theorem begin (hob : Obligations sys spec Post) (h : Sound spec Post w)
    (hpre : ∀ i, spec.Pre i c w.shared) : Sound spec Post (sys.begin c w) := by
  refine ⟨h.inv, fun i d p hp => ?_⟩
  by_cases hi : i = w.next
  · subst hi
    simp only [System.begin, Function.update_self, Option.some.injEq, Prod.mk.injEq] at hp
    obtain ⟨rfl, rfl⟩ := hp
    exact hob.program w.next c _ h.inv (hpre w.next)
  · simp only [System.begin, Function.update_of_ne hi] at hp
    exact h.safe i d p hp

private theorem fork (hob : Obligations sys spec Post) (h : Sound spec Post w)
    (hstep : sys.split i w = some w') : Sound spec Post w' := by
  unfold System.split at hstep
  split at hstep
  · rename_i c c' rest hp
    obtain rfl := Option.some.inj hstep
    obtain ⟨hpre, hrest⟩ := (h.safe i c _ hp).of_fork h.inv
    have hrest : Sound spec Post ⟨w.shared, Function.update w.procs i (some (c, rest)), w.next⟩ := by
      refine ⟨h.inv, fun j d p hj => ?_⟩
      by_cases hij : j = i
      · subst hij
        simp only [Function.update_self, Option.some.injEq, Prod.mk.injEq] at hj
        obtain ⟨rfl, rfl⟩ := hj
        exact hrest
      · simp only [Function.update_of_ne hij] at hj
        exact h.safe j d p hj
    exact hrest.begin hob hpre
  · cases hstep

/-- One step. -/
theorem step (hob : Obligations sys spec Post) (hcompat : Compatible sys spec ok)
    (h : Sound spec Post w) {e : Event C O E} (hok : ok w e) (hstep : sys.step w e = some w') :
    Sound spec Post w' := by
  cases e with
  | start c =>
    simp only [System.step] at hstep
    split at hstep
    · rename_i hext
      obtain rfl := Option.some.inj hstep
      exact h.begin hob fun i => hob.external i c _ hext h.inv
    · cases hstep
  | act i o => exact h.act hob hcompat hok hstep
  | fork i => exact h.fork hob hstep
  | crash i =>
    obtain rfl := Option.some.inj hstep
    obtain ⟨hinv, htol⟩ := hcompat.crash w i hok h.inv
    refine ⟨hinv, fun j c p hj => ?_⟩
    by_cases hij : j = i
    · subst hij
      simp at hj
    · simp only [Function.update_of_ne hij] at hj
      exact h.others hob hinv htol (by simpa using hij) hj
  | environment e =>
    obtain ⟨s', henv, rfl⟩ := Option.map_eq_some_iff.mp hstep
    obtain ⟨hinv, htol⟩ := hcompat.environment w e s' hok henv h.inv
    refine ⟨hinv, fun j c p hj => ?_⟩
    exact h.others hob hinv htol (by simp) hj

/-- Every state of every run. -/
theorem reach (hob : Obligations sys spec Post) (hcompat : Compatible sys spec ok)
    {w₀ : World C L O S A} (h₀ : Sound spec Post w₀) (h : sys.Reach ok w₀ w) :
    Sound spec Post w := by
  induction h with
  | refl => exact h₀
  | tail _ hok hstep ih => exact ih.step hob hcompat hok hstep

end Sound

end Argus.Interleave
