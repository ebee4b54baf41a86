import Mathlib.Logic.Relation
import Mathlib.Order.Defs.PartialOrder
import Mathlib.Order.Defs.Unbundled

/-! Locks taken in an order. When everyone wants a key above all the keys it holds, nobody
waits, directly or through others, for itself. -/
namespace LockOrder
variable {τ κ : Type}

/-- Somebody else holds the key that `t` wants. -/
def WaitsFor (wants holds : τ → κ → Prop) (t t' : τ) : Prop :=
  t' ≠ t ∧ ∃ k, wants t k ∧ holds t' k

variable {wants holds : τ → κ → Prop} {lt : κ → κ → Prop}

/-- Along a chain of waiting the wanted keys rise. -/
theorem lt_of_waits [IsTrans κ lt] (hone : ∀ t k k', wants t k → wants t k' → k = k')
    (horder : ∀ t k k', holds t k → wants t k' → lt k k') {t t' : τ}
    (hwaits : Relation.TransGen (WaitsFor wants holds) t t') {k k' : κ} (hk : wants t k) (hk' : wants t' k') :
    lt k k' := by
  induction hwaits using Relation.TransGen.head_induction_on generalizing k with
  | single hedge =>
    obtain ⟨-, k₀, hwant, hhold⟩ := hedge
    rw [hone _ _ _ hk hwant]
    exact horder _ _ _ hhold hk'
  | head hedge hrest ih =>
    obtain ⟨-, k₀, hwant, hhold⟩ := hedge
    obtain ⟨_, ⟨-, k₁, hwant₁, -⟩, -⟩ := Relation.TransGen.head'_iff.mp hrest
    rw [hone _ _ _ hk hwant]
    exact IsTrans.trans _ _ _ (horder _ _ _ hhold hwant₁) (ih hwant₁)

/-- There is no cycle of waiting. -/
theorem acyclic [IsTrans κ lt] [Std.Irrefl lt] (hone : ∀ t k k', wants t k → wants t k' → k = k')
    (horder : ∀ t k k', holds t k → wants t k' → lt k k') (t : τ) :
    ¬ Relation.TransGen (WaitsFor wants holds) t t := by
  intro hcycle
  obtain ⟨_, ⟨-, k, hwant, -⟩, -⟩ := Relation.TransGen.head'_iff.mp hcycle
  exact Std.Irrefl.irrefl k (lt_of_waits hone horder hcycle hwant hwant)

section Ranks
variable {waits : τ → τ → Prop}

/-- The last one in a circle through `t` is waited for itself. -/
theorem last_of_circle (hirrefl : ∀ t, ¬ waits t t) {t : τ} (hcycle : Relation.TransGen waits t t) :
    ∃ t' t'', waits t' t'' ∧ waits t'' t := by
  obtain ⟨t'', hchain, hlast⟩ := Relation.TransGen.tail'_iff.mp hcycle
  rcases Relation.ReflTransGen.cases_tail hchain with rfl | ⟨t', -, hedge⟩
  · exact absurd hlast (hirrefl _)
  · exact ⟨t', t'', hedge, hlast⟩

/-- Along a chain of waiting to somebody who waits himself, the ranks rise. -/
theorem rank_lt_of_waits {rank : τ → Nat} (hrise : ∀ t t' t'', waits t t' → waits t' t'' → rank t < rank t') {t t' : τ}
    (hchain : Relation.TransGen waits t t') : ∀ t'', waits t' t'' → rank t < rank t' := by
  induction hchain with
  | single hedge => exact fun t'' hnext => hrise _ _ t'' hedge hnext
  | tail hrest hedge ih => exact fun t'' hnext => Nat.lt_trans (ih _ hedge) (hrise _ _ t'' hedge hnext)

/-- Where waiting rises in rank, save for those who are waited for and do not wait, it is no cycle. -/
theorem acyclic_of_rank (rank : τ → Nat) (hrise : ∀ t t' t'', waits t t' → waits t' t'' → rank t < rank t') (t : τ) :
    ¬ Relation.TransGen waits t t := by
  intro hcycle
  obtain ⟨t', hedge, -⟩ := Relation.TransGen.head'_iff.mp hcycle
  exact Nat.lt_irrefl _ (rank_lt_of_waits hrise hcycle t' hedge)

/-- And where the ranks are bounded, every chain of waiting leads to somebody who does not wait. -/
theorem leads_out_of_rank (rank : τ → Nat) {n : Nat} (hbound : ∀ t, rank t ≤ n)
    (hrise : ∀ t t' t'', waits t t' → waits t' t'' → rank t < rank t') (t : τ) :
    ∃ t', Relation.ReflTransGen waits t t' ∧ ∀ t'', ¬ waits t' t'' := by
  by_cases hfree : ∀ t', ¬ waits t t'
  · exact ⟨t, .refl, hfree⟩
  · obtain ⟨t', hedge⟩ := Classical.not_forall_not.mp hfree
    by_cases hfree' : ∀ t'', ¬ waits t' t''
    · exact ⟨t', .single hedge, hfree'⟩
    · obtain ⟨t'', hnext⟩ := Classical.not_forall_not.mp hfree'
      have hlt := hrise t t' t'' hedge hnext
      have hle := hbound t'
      obtain ⟨u, hchain, hlast⟩ := leads_out_of_rank rank hbound hrise t'
      exact ⟨u, .head hedge hchain, hlast⟩
termination_by n - rank t

end Ranks
end LockOrder
