import Argus.Base.Interleave

/-!
# Statements of a transaction

A transaction is a sequence of statements, each a function of the state it finds and of choices that an
oracle makes for it (a fresh identifier, a reading of the clock, a failure). The first failing statement
ends the transaction. `exec` runs it alone, on a given sequence of choices. `Runs R` relates it to every
outcome in which, before each statement, others may have changed the state by `R`: with `R` equality it
is the transaction alone. A proof about a transaction takes `Runs` apart with `runs_bind`, cites what is
known of each function it calls, and treats a loop by `Runs.foldlM`.
-/

namespace Argus

/-- Programs of statements that return an `α`: oracles in `O`, state `S`, errors in `ε`. -/
inductive Tx (O S ε α : Type) : Type 1 where
  | ret (a : α)
  | fail (e : ε)
  | stmt {β : Type} (act : O → S → Except ε (β × S)) (k : β → Tx O S ε α)

namespace Tx

variable {O S ε α β σ : Type}

def bind : Tx O S ε α → (α → Tx O S ε β) → Tx O S ε β
  | ret a, f => f a
  | fail e, _ => fail e
  | stmt act k, f => stmt act fun b => (k b).bind f

instance : Monad (Tx O S ε) where
  pure := ret
  bind := bind

/-- A program of one statement. -/
def perform (act : O → S → Except ε (β × S)) : Tx O S ε β := stmt act ret

/-- Run a transaction alone; each statement takes the next choice. -/
def exec : Tx O S ε α → (ℕ → O) → S → Except ε (α × S)
  | ret a, _, s => .ok (a, s)
  | fail e, _, _ => .error e
  | stmt act k, o, s =>
    match act (o 0) s with
    | .error e => .error e
    | .ok (b, s') => (k b).exec (fun n => o (n + 1)) s'

/-- From `s` the transaction may return `a` in `s'`, where others change the state by `R` before each
statement. -/
def Runs (R : S → S → Prop) : Tx O S ε α → S → α → S → Prop
  | ret a, s, b, s' => b = a ∧ s' = s
  | fail _, _, _, _ => False
  | stmt act k, s, b, s' =>
    ∃ s₁ o c s₂, R s s₁ ∧ act o s₁ = .ok (c, s₂) ∧ (k c).Runs R s₂ b s'

variable {R : S → S → Prop} {s s' : S}

@[simp] theorem runs_pure {a b : α} :
    (pure a : Tx O S ε α).Runs R s b s' ↔ b = a ∧ s' = s := Iff.rfl

@[simp] theorem runs_perform {act : O → S → Except ε (β × S)} {b : β} :
    (perform act).Runs R s b s' ↔ ∃ s₁ o, R s s₁ ∧ act o s₁ = .ok (b, s') := by
  constructor
  · rintro ⟨s₁, o, c, s₂, hR, hact, rfl, rfl⟩
    exact ⟨s₁, o, hR, hact⟩
  · rintro ⟨s₁, o, hR, hact⟩
    exact ⟨s₁, o, b, s', hR, hact, rfl, rfl⟩

variable {p : Tx O S ε α}

/-- A sequence runs when its parts do. -/
@[simp] theorem runs_bind {f : α → Tx O S ε β} {b : β} :
    (p >>= f).Runs R s b s' ↔ ∃ a s₁, p.Runs R s a s₁ ∧ (f a).Runs R s₁ b s' := by
  show (p.bind f).Runs R s b s' ↔ _
  induction p generalizing s with
  | ret a =>
    constructor
    · intro h
      exact ⟨a, s, ⟨rfl, rfl⟩, h⟩
    · rintro ⟨_, _, ⟨rfl, rfl⟩, h⟩
      exact h
  | fail e =>
    constructor
    · exact False.elim
    · rintro ⟨_, _, h, -⟩
      exact h
  | stmt act k ih =>
    constructor
    · rintro ⟨s₁, o, c, s₂, hR, hact, h⟩
      obtain ⟨a, s₃, hk, hf⟩ := (ih c).mp h
      exact ⟨a, s₃, ⟨s₁, o, c, s₂, hR, hact, hk⟩, hf⟩
    · rintro ⟨a, s₃, ⟨s₁, o, c, s₂, hR, hact, hk⟩, hf⟩
      exact ⟨s₁, o, c, s₂, hR, hact, (ih c).mpr ⟨a, s₃, hk, hf⟩⟩

/-- What a transaction returns when it runs alone is one of its outcomes. -/
theorem runs_of_exec (hR : ∀ s, R s s) {o : ℕ → O} {a : α} (h : p.exec o s = .ok (a, s')) :
    p.Runs R s a s' := by
  induction p generalizing s o with
  | ret b =>
    cases h
    exact ⟨rfl, rfl⟩
  | fail e => cases h
  | stmt act k ih =>
    simp only [exec] at h
    split at h
    · cases h
    · rename_i b s₁ hact
      exact ⟨s, o 0, b, s₁, hR s, hact, ih b h⟩

/-- Run alone, the transaction returns something with the property. -/
def returns (p : Tx O S ε α) (o : ℕ → O) (s : S) (P : α → S → Bool) : Bool :=
  match p.exec o s with
  | .ok (a, s') => P a s'
  | .error _ => false

theorem exists_runs_of_returns (hR : ∀ s, R s s) {o : ℕ → O} {P : α → S → Bool}
    (h : p.returns o s P = true) : ∃ a s', p.Runs R s a s' ∧ P a s' = true := by
  unfold returns at h
  split at h
  · rename_i a s' hexec
    exact ⟨a, s', runs_of_exec hR hexec, h⟩
  · cases h

/-! ## Loops -/

variable {acc acc' : σ} {f : σ → β → Tx O S ε σ}

@[simp] theorem runs_foldlM_nil :
    (([] : List β).foldlM f acc).Runs R s acc' s' ↔ acc' = acc ∧ s' = s := Iff.rfl

@[simp] theorem runs_foldlM_cons {x : β} {xs : List β} :
    ((x :: xs).foldlM f acc).Runs R s acc' s' ↔
      ∃ acc₁ s₁, (f acc x).Runs R s acc₁ s₁ ∧ (xs.foldlM f acc₁).Runs R s₁ acc' s' := by
  rw [List.foldlM_cons]
  exact runs_bind

attribute [irreducible] Runs

/-- A loop invariant, over the elements treated so far. -/
theorem Runs.foldlM {I : List β → σ → S → Prop} {xs done : List β}
    (hstep : ∀ done x rest acc acc' s s', done ++ x :: rest = xs → I done acc s → (f acc x).Runs R
      s acc' s' → I (done ++ [x]) acc' s') {todo : List β} (hxs : done ++ todo = xs)
    (h : (todo.foldlM f acc).Runs R s acc' s') (hI : I done acc s) : I xs acc' s' := by
  induction todo generalizing done acc s with
  | nil =>
    obtain ⟨rfl, rfl⟩ := runs_foldlM_nil.mp h
    rw [← hxs, List.append_nil]
    exact hI
  | cons x todo ih =>
    obtain ⟨acc₁, s₁, hx, hrest⟩ := runs_foldlM_cons.mp h
    refine ih ?_ hrest (hstep done x todo acc acc₁ s s₁ hxs hI hx)
    rw [List.append_assoc]
    exact hxs

end Tx

end Argus
