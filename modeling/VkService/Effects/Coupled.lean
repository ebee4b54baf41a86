import VkService.Effects.Weakest

/-! Two runs side by side. A program and its twin end alike and leave related states behind
when each pair of their calls does. -/
namespace Effects.Prog
variable {Op : Type} {Reply : Op → Type} {ε α α' β β' σ σ' : Type}

/-- Two ways to end: with related results, or with the same exception. -/
inductive Alike (V : α → α' → Prop) : Except ε α → Except ε α' → Prop
  | ok {a : α} {a' : α'} (h : V a a') : Alike V (.ok a) (.ok a')
  | error (e : ε) : Alike V (.error e) (.error e)

theorem alike_eq_iff {r r' : Except ε α} : Alike Eq r r' ↔ r = r' := by
  constructor
  · rintro (⟨rfl⟩ | _) <;> rfl
  · rintro rfl
    cases r with
    | ok a => exact .ok rfl
    | error e => exact .error e

/-- Two handlers with what relates their runs. The first run is only followed while its
history is fair. -/
structure Pairing (Op : Type) (Reply : Op → Type) (ε σ σ' : Type) where
  left : History Op Reply ε → (op : Op) → σ → Except ε (Reply op) × σ
  right : History Op Reply ε → (op : Op) → σ' → Except ε (Reply op) × σ'
  Fair : History Op Reply ε → Prop
  fair_of_append : ∀ new h, Fair (new ++ h) → Fair h
  Related : History Op Reply ε → σ → History Op Reply ε → σ' → Prop

namespace Pairing
variable (P : Pairing Op Reply ε σ σ')

/-- Two outcomes of runs that have stayed together. -/
def Together (V : α → α' → Prop) (out : Except ε α × History Op Reply ε × σ)
    (out' : Except ε α' × History Op Reply ε × σ') : Prop :=
  P.Fair out.2.1 → Alike V out.1 out'.1 ∧ P.Related out.2.1 out.2.2 out'.2.1 out'.2.2

/-- The programs stay together from every pair of related states. -/
def Coupled (V : α → α' → Prop) (p : Prog Op Reply ε α) (q : Prog Op Reply ε α') : Prop :=
  ∀ h s h' s', P.Related h s h' s' → P.Together V (p.run P.left h s) (q.run P.right h' s')

/-- The calls get related replies and keep the states related. -/
def Agree (op op' : Op) (U : Reply op → Reply op' → Prop) : Prop :=
  ∀ h s h' s', P.Related h s h' s' → P.Fair (⟨op, (P.left h op s).1⟩ :: h) →
    Alike U (P.left h op s).1 (P.right h' op' s').1 ∧
    P.Related (⟨op, (P.left h op s).1⟩ :: h) (P.left h op s).2 (⟨op', (P.right h' op' s').1⟩ :: h')
    (P.right h' op' s').2

variable {P} {V : α → α' → Prop} {W : β → β' → Prop}

theorem Coupled.ret {a : α} {a' : α'} (h : V a a') : P.Coupled V (.ret a) (.ret a') :=
  fun _ _ _ _ hrel _ => ⟨.ok h, hrel⟩

theorem Coupled.raise (e : ε) : P.Coupled V (.raise e) (.raise e) :=
  fun _ _ _ _ hrel _ => ⟨.error e, hrel⟩

theorem Coupled.perform {op op' : Op} {U : Reply op → Reply op' → Prop} (h : P.Agree op op' U) :
    P.Coupled U (Prog.perform op) (Prog.perform op') := by
  intro h₁ s h₂ s' hrel hfair
  rw [run_perform] at hfair ⊢
  rw [run_perform]
  exact h _ _ _ _ hrel hfair

/-- What the first run was fair at the end of, it was fair at the start of. -/
private theorem fair_of_run {p : Prog Op Reply ε α} {h : History Op Reply ε} {s : σ}
    (hfair : P.Fair (p.run P.left h s).2.1) : P.Fair h := by
  obtain ⟨new, hnew⟩ := @wp_history _ _ _ _ _ P.left h s p
  exact P.fair_of_append new h (hnew ▸ hfair)

theorem Coupled.bind {p : Prog Op Reply ε α} {q : Prog Op Reply ε α'} {f : α → Prog Op Reply ε β}
    {g : α' → Prog Op Reply ε β'} (hp : P.Coupled V p q) (hf : ∀ a a', V a a' → P.Coupled W (f a) (g a')) :
    P.Coupled W (p >>= f) (q >>= g) := by
  intro h s h' s' hrel
  have hpq := hp h s h' s' hrel
  rw [run_bind, run_bind]
  generalize p.run P.left h s = out at hpq ⊢
  generalize q.run P.right h' s' = out' at hpq ⊢
  obtain ⟨r, h₁, s₁⟩ := out
  obtain ⟨r', h₂, s₂⟩ := out'
  intro hfair
  cases r with
  | error e =>
    obtain ⟨halike, hrel'⟩ := hpq hfair
    cases halike with
    | error => exact ⟨.error e, hrel'⟩
  | ok a =>
    obtain ⟨halike, hrel'⟩ := hpq (fair_of_run hfair)
    cases halike with
    | ok hV => exact hf _ _ hV _ _ _ _ hrel' hfair

theorem Coupled.tryCatch {p : Prog Op Reply ε α} {q : Prog Op Reply ε α'} {f : ε → Prog Op Reply ε α}
    {g : ε → Prog Op Reply ε α'} (hp : P.Coupled V p q) (hf : ∀ e, P.Coupled V (f e) (g e)) :
    P.Coupled V (MonadExcept.tryCatch p f) (MonadExcept.tryCatch q g) := by
  intro h s h' s' hrel
  have hpq := hp h s h' s' hrel
  rw [run_tryCatch, run_tryCatch]
  generalize p.run P.left h s = out at hpq ⊢
  generalize q.run P.right h' s' = out' at hpq ⊢
  obtain ⟨r, h₁, s₁⟩ := out
  obtain ⟨r', h₂, s₂⟩ := out'
  intro hfair
  cases r with
  | error e =>
    obtain ⟨halike, hrel'⟩ := hpq (fair_of_run hfair)
    cases halike with
    | error => exact hf e _ _ _ _ hrel' hfair
  | ok a =>
    obtain ⟨halike, hrel'⟩ := hpq hfair
    cases halike with
    | ok hV => exact ⟨.ok hV, hrel'⟩

theorem Coupled.attempt {p : Prog Op Reply ε α} {q : Prog Op Reply ε α'} (hp : P.Coupled V p q) :
    P.Coupled (Alike V) (Prog.attempt p) (Prog.attempt q) :=
  .tryCatch (.bind hp fun _ _ hV => .ret (.ok hV)) fun e => .ret (.error e)

theorem Coupled.ofExcept {r : Except ε α} {r' : Except ε α'} (h : Alike V r r') :
    P.Coupled V (MonadExcept.ofExcept r) (MonadExcept.ofExcept r') := by
  cases h with
  | ok hV => exact .ret hV
  | error e => exact .raise e

/-- A program is its own twin when it keeps to calls that agree. -/
theorem Coupled.self {allowed : Op → Prop} (hagree : ∀ op, allowed op → P.Agree op op Eq)
    {h₀ : History Op Reply ε} {p : Prog Op Reply ε α}
    (hp : Conforms (fun _ op => allowed op) (fun _ _ => True) h₀ p) : P.Coupled Eq p p := by
  induction p generalizing h₀ with
  | ret a => exact .ret rfl
  | raise e => exact .raise e
  | call op k ih =>
    intro h s h' s' hrel hfair
    rw [run_call] at hfair ⊢
    rw [run_call]
    obtain ⟨halike, hrel'⟩ := hagree op hp.1 h s h' s' hrel (fair_of_run hfair)
    have hreply : (P.left h op s).1 = (P.right h' op s').1 := alike_eq_iff.mp halike
    rw [← hreply] at hrel' ⊢
    exact ih _ (hp.2 _) _ _ _ _ hrel' hfair

end Pairing
end Effects.Prog
