import Argus.Base.Interleave

/-!
# What an answer says about the steps before it

Some answers of a call mean that it changed nothing: on every path to such an answer, every step
leaves the shared state as it was. `Silent` says so of a program, and `unchanged_of_returns` of the
steps of a run that lead to the answer. Some calls change nothing of a kind whatever they answer:
`Within` bounds every step of a program, and `within_of_step` the steps of a run.
-/

namespace Argus.Interleave

variable {C L O E S A α β : Type}

/-! ## Results -/

/-- Some path of the program returns `a`. -/
inductive CanReturn (a : α) : Prog C L O S α → Prop
  | ret : CanReturn a (.ret a)
  | atomic {β : Type} {l : L} {act : O → S → Option (β × S)} {k : β → Prog C L O S α} (b : β)
      (h : CanReturn a (k b)) : CanReturn a (.atomic l act k)
  | fork {c : C} {rest : Prog C L O S α} (h : CanReturn a rest) : CanReturn a (.fork c rest)

theorem canReturn_ret {a a' : α} (h : CanReturn a (Prog.ret a' : Prog C L O S α)) : a = a' := by
  cases h
  rfl

theorem CanReturn.of_bind {p : Prog C L O S α} {f : α → Prog C L O S β} {b : β}
    (h : CanReturn b (p >>= f)) : ∃ a, CanReturn a p ∧ CanReturn b (f a) := by
  change CanReturn b (p.bind f) at h
  induction p with
  | ret a => exact ⟨a, .ret, h⟩
  | atomic l act k ih =>
    cases h with
    | atomic x h =>
      obtain ⟨a, ha, hb⟩ := ih x h
      exact ⟨a, .atomic x ha, hb⟩
  | fork c rest ih =>
    cases h with
    | fork h =>
      obtain ⟨a, ha, hb⟩ := ih h
      exact ⟨a, .fork ha, hb⟩

/-- On every path to a result that satisfies `Q`, no step changes the shared state. -/
def Silent (Q : α → Prop) : Prog C L O S α → Prop
  | .ret _ => True
  | .atomic _ act k => ∀ b, (∀ o s s', act o s = some (b, s') →
      (∃ a, Q a ∧ CanReturn a (k b)) → s' = s) ∧ Silent Q (k b)
  | .fork _ rest => Silent Q rest

namespace Silent

theorem ret {Q : α → Prop} (a : α) : Silent Q (Prog.ret a : Prog C L O S α) := trivial

theorem perform {Q : β → Prop} {l : L} {act : O → S → Option (β × S)}
    (h : ∀ o s b s', act o s = some (b, s') → Q b → s' = s) :
    Silent Q (Prog.perform l act : Prog C L O S β) := by
  refine fun b => ⟨fun o s s' hact ⟨a, ha, hreturn⟩ => ?_, trivial⟩
  obtain rfl := canReturn_ret hreturn
  exact h o s a s' hact ha

theorem bind {Q : β → Prop} {p : Prog C L O S α} {f : α → Prog C L O S β}
    (hp : Silent (fun a => ∃ b, Q b ∧ CanReturn b (f a)) p) (hf : ∀ a, Silent Q (f a)) :
    Silent Q (p >>= f) := by
  show Silent Q (p.bind f)
  induction p with
  | ret a => exact hf a
  | atomic l act k ih =>
    intro b
    obtain ⟨hstep, hk⟩ := hp b
    refine ⟨fun o s s' hact ⟨c, hc, hreturn⟩ => hstep o s s' hact ?_, ih b hk⟩
    obtain ⟨a, ha, hb⟩ := CanReturn.of_bind (p := k b) hreturn
    exact ⟨a, ⟨c, hc, hb⟩, ha⟩
  | fork c rest ih => exact ih hp

/-- Where no path leads to such a result. -/
theorem of_not_canReturn {Q : α → Prop} {p : Prog C L O S α}
    (h : ∀ a, Q a → ¬ CanReturn a p) : Silent Q p := by
  induction p with
  | ret a => trivial
  | atomic l act k ih =>
    refine fun b => ⟨fun _ _ _ _ ⟨a, ha, hreturn⟩ => absurd (.atomic b hreturn) (h a ha), ?_⟩
    exact ih b fun a ha hreturn => h a ha (.atomic b hreturn)
  | fork c rest ih => exact ih fun a ha hreturn => h a ha (.fork hreturn)

/-- What is known of a program that waits at a step. -/
theorem of_atomic {Q : α → Prop} {l : L} {act : O → S → Option (β × S)} {k : β → Prog C L O S α}
    (h : Silent Q (.atomic l act k)) (b : β) :
    (∀ o s s', act o s = some (b, s') → (∃ a, Q a ∧ CanReturn a (k b)) → s' = s) ∧
      Silent Q (k b) :=
  h b

theorem of_fork {Q : α → Prop} {c : C} {rest : Prog C L O S α} (h : Silent Q (.fork c rest)) :
    Silent Q rest := h

end Silent

attribute [irreducible] Silent

/-! ## All steps -/

/-- Every step of the program is within `T`. -/
def Within (T : S → S → Prop) : Prog C L O S α → Prop
  | .ret _ => True
  | .atomic _ act k => ∀ o s b s', act o s = some (b, s') → T s s' ∧ Within T (k b)
  | .fork _ rest => Within T rest

namespace Within

variable {T : S → S → Prop}

theorem ret (a : α) : Within T (Prog.ret a : Prog C L O S α) := trivial

theorem perform {l : L} {act : O → S → Option (β × S)}
    (h : ∀ o s b s', act o s = some (b, s') → T s s') :
    Within T (Prog.perform l act : Prog C L O S β) :=
  fun o s b s' hact => ⟨h o s b s' hact, trivial⟩

theorem bind {p : Prog C L O S α} {f : α → Prog C L O S β} (hp : Within T p)
    (hf : ∀ a, Within T (f a)) : Within T (p >>= f) := by
  show Within T (p.bind f)
  induction p with
  | ret a => exact hf a
  | atomic l act k ih =>
    intro o s b s' hact
    obtain ⟨hT, hk⟩ := hp o s b s' hact
    exact ⟨hT, ih b hk⟩
  | fork c rest ih => exact ih hp

/-- What is known of a program that waits at a step. -/
theorem of_atomic {l : L} {act : O → S → Option (β × S)} {k : β → Prog C L O S α}
    (h : Within T (.atomic l act k)) {o : O} {s s' : S} {b : β} (hact : act o s = some (b, s')) :
    T s s' ∧ Within T (k b) :=
  h o s b s' hact

theorem of_fork {c : C} {rest : Prog C L O S α} (h : Within T (.fork c rest)) : Within T rest := h

end Within

attribute [irreducible] Within

/-! ## Runs -/

namespace System

variable {sys : System C L O E S A} {ok ok' : World C L O S A → Event C O E → Prop}
  {w w' : World C L O S A}

theorem step_next_le {e : Event C O E} (h : sys.step w e = some w') : w.next ≤ w'.next := by
  cases e with
  | start c =>
    simp only [step] at h
    split at h
    · obtain rfl := Option.some.inj h
      exact Nat.le_succ _
    · cases h
  | act i o =>
    simp only [step, advance] at h
    split at h
    · obtain ⟨_, -, rfl⟩ := Option.map_eq_some_iff.mp h
      exact Nat.le_refl _
    · cases h
  | fork i =>
    simp only [step, split] at h
    split at h
    · obtain rfl := Option.some.inj h
      exact Nat.le_succ _
    · cases h
  | crash i =>
    obtain rfl := Option.some.inj h
    exact Nat.le_refl _
  | environment x =>
    obtain ⟨_, -, rfl⟩ := Option.map_eq_some_iff.mp h
    exact Nat.le_refl _

theorem Reach.next_le (h : sys.Reach ok w w') : w.next ≤ w'.next := by
  induction h with
  | refl => exact Nat.le_refl _
  | tail _ _ hstep ih => exact Nat.le_trans ih (step_next_le hstep)

/-- A call that answers did so on a path from where it was. -/
theorem Reach.returns (h : sys.Reach ok w w') {i : ℕ} {c : C} {p : Prog C L O S A}
    (hi : i < w.next) (hp : w.procs i = some (c, p)) {c' : C} {p' : Prog C L O S A}
    (hp' : w'.procs i = some (c', p')) :
    c' = c ∧ ∀ a, CanReturn a p' → CanReturn a p := by
  induction h generalizing c' p' with
  | refl =>
    obtain ⟨rfl, rfl⟩ := Prod.mk.inj (Option.some.inj (hp.symm.trans hp'))
    exact ⟨rfl, fun _ h => h⟩
  | @tail w₁ w₂ e hbefore _ hstep ih =>
    rcases step_procs hstep hp' with
      hold | ⟨rfl, -⟩ | ⟨o, β, l, act, k, b, hold, -, rfl⟩ | ⟨c'', hold⟩
    · exact ih hold
    · -- numbers are not used again
      exact absurd hi (Nat.not_lt_of_le hbefore.next_le)
    · obtain ⟨rfl, hreturn⟩ := ih hold
      exact ⟨rfl, fun a ha => hreturn a (.atomic b ha)⟩
    · obtain ⟨rfl, hreturn⟩ := ih hold
      exact ⟨rfl, fun a ha => hreturn a (.fork ha)⟩

theorem Reach.numbered {s₀ : S} (h : sys.Reach ok (idle s₀) w) : Numbered w := by
  induction h with
  | refl => exact numbered_idle s₀
  | tail _ _ hstep ih => exact ih.step hstep

/-- The steps of a call whose answer says that it changed nothing. -/
theorem unchanged_of_returns {Q : C → A → Prop} (hsilent : ∀ i c, Silent (Q c) (sys.program i c))
    {s₀ : S} {w₁ w₂ w₃ : World C L O S A} (h : sys.Reach ok (idle s₀) w₁) {i : ℕ} {o : O}
    (hstep : sys.step w₁ (.act i o) = some w₂) (hrun : sys.Reach ok' w₂ w₃) {c : C} {a : A}
    (hp : w₃.procs i = some (c, .ret a)) (hQ : Q c a) : w₂.shared = w₁.shared := by
  simp only [step, advance] at hstep
  split at hstep
  · rename_i c₁ β l act k hp₁
    obtain ⟨⟨b, s'⟩, hact, rfl⟩ := Option.map_eq_some_iff.mp hstep
    have hi : i < w₁.next := h.numbered.lt hp₁
    obtain ⟨rfl, hreturn⟩ := hrun.returns hi (Function.update_self ..) hp
    have hall : Silent (Q c) (.atomic l act k) :=
      h.programs (fun c p => Silent (Q c) p) hsilent
        (fun c β l act k o s b s' hp _ => (hp.of_atomic b).2) (fun c c' rest hp => hp.of_fork) hp₁
    exact (hall.of_atomic b).1 o w₁.shared s' hact ⟨a, hQ, hreturn a .ret⟩
  · cases hstep

/-- The steps of a call whose program is within `T`. -/
theorem within_of_step {T : S → S → Prop} {c : C} (hwithin : ∀ i, Within T (sys.program i c))
    {s₀ : S} (h : sys.Reach ok (idle s₀) w) {i : ℕ} {o : O}
    (hstep : sys.step w (.act i o) = some w') {p : Prog C L O S A} (hp : w.procs i = some (c, p)) :
    T w.shared w'.shared := by
  have hall : c = c → Within T p := h.programs (fun d p => d = c → Within T p)
    (fun i d hd => hd ▸ hwithin i)
    (fun d β l act k o s b s' hp hact hd => ((hp hd).of_atomic hact).2)
    (fun d c' rest hp hd => (hp hd).of_fork) hp
  simp only [step, advance, hp] at hstep
  split at hstep
  · rename_i heq
    cases heq
    obtain ⟨⟨b, s'⟩, hact, rfl⟩ := Option.map_eq_some_iff.mp hstep
    exact ((hall rfl).of_atomic hact).1
  · cases hstep

end System

end Argus.Interleave
