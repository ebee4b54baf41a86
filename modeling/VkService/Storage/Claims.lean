import Mathlib.Logic.Function.Basic

/-! Holders that claim keys: a holder enters, claims a key that nobody has, is turned off and
on by its key, and leaves. -/
namespace Claims

/-- Where a holder stands. -/
inductive Standing (π : Type) where
  | absent
  | pending
  | linked (key : π) (off : Bool)
  deriving DecidableEq

abbrev Stages (υ π : Type) := υ → Standing π

variable {υ π : Type}

def HasKey (S : Stages υ π) (u : υ) (p : π) : Prop := ∃ off, S u = .linked p off

def Free (S : Stages υ π) (p : π) : Prop := ∀ u, ¬ HasKey S u p

/-- No key has two holders. -/
def OneHolder (S : Stages υ π) : Prop := ∀ u v p, HasKey S u p → HasKey S v p → u = v

/-- Nobody has entered. -/
def nobody : Stages υ π := fun _ => .absent

theorem exclusive_nobody : OneHolder (nobody : Stages υ π) := by
  rintro u v p ⟨off, h⟩
  cases h

variable [DecidableEq υ] {S S' : Stages υ π} {u v : υ} {p q : π}

/-- One move of a holder, or none. -/
inductive Moves (S : Stages υ π) : Stages υ π → Prop
  | stay : Moves S S
  | enter {u : υ} (h : S u = .absent) : Moves S (Function.update S u .pending)
  | claim {u : υ} {p : π} (h : S u = .pending) (hfree : Free S p) : Moves S (Function.update S u (.linked p false))
  | turn {u : υ} {p : π} (h : HasKey S u p) (off : Bool) : Moves S (Function.update S u (.linked p off))
  | leave (u : υ) : Moves S (Function.update S u .absent)

/-- A holder of a key after the stage of `u` has changed. -/
theorem HasKey.of_update {stage : Standing π} (h : HasKey (Function.update S u stage) v p) :
    v = u ∧ (∃ off, stage = .linked p off) ∨ v ≠ u ∧ HasKey S v p := by
  obtain ⟨off, h⟩ := h
  by_cases hv : v = u
  · subst hv
    rw [Function.update_self] at h
    exact .inl ⟨rfl, off, h⟩
  · rw [Function.update_of_ne hv] at h
    exact .inr ⟨hv, off, h⟩

/-- Keys stay exclusive when the new holder is the only one. -/
theorem OneHolder.update (hS : OneHolder S) {stage : Standing π}
    (hnew : ∀ p off, stage = .linked p off → ∀ v, HasKey S v p → v = u) : OneHolder (Function.update S u stage) := by
  intro v v' p hv hv'
  rcases hv.of_update with ⟨rfl, off, hstage⟩ | ⟨hne, hold⟩
  · rcases hv'.of_update with ⟨rfl, -⟩ | ⟨hne', hold'⟩
    · rfl
    · exact absurd (hnew p off hstage v' hold') hne'
  · rcases hv'.of_update with ⟨rfl, off, hstage⟩ | ⟨-, hold'⟩
    · exact absurd (hnew p off hstage v hold) hne
    · exact hS v v' p hold hold'

theorem Moves.exclusive (h : Moves S S') (hS : OneHolder S) : OneHolder S' := by
  cases h with
  | stay => exact hS
  | enter h => exact hS.update fun p off hstage => by cases hstage
  | claim h hfree =>
    refine hS.update fun p off hstage v hv => ?_
    cases hstage
    exact absurd hv (hfree v)
  | turn h off =>
    refine hS.update fun p off' hstage v hv => ?_
    cases hstage
    exact hS v _ _ hv h
  | leave u => exact hS.update fun p off hstage => by cases hstage

/-- Nobody but the entered can hold, be turned or leave to any effect. -/
theorem update_absent (h : S u = .absent) : Function.update S u .absent = S := by
  rw [← h, Function.update_eq_self]

end Claims
