import VkService.Storage.CellSteps

/-! A unique index under read committed. Rows that exclude each other may stand in one heap
only while the transaction that holds the one has also written over the other, so no
transaction ever sees two of them. -/
namespace RowStore
variable {τ ρ κ : Type}

/-- Versions of different cells exclude each other at most where one is a committed version
that the holder of the other has replaced. -/
structure Apart (clash : ρ → ρ → Prop) (cells : κ → Cell τ ρ) : Prop where
  committed : ∀ {k k' r r'}, k ≠ k' → (cells k).committed = some r → (cells k').committed = some r' → ¬ clash r r'
  pending : ∀ {k k' t t' r r'}, k ≠ k' → (cells k).pending = some (t, r) → (cells k').pending = some (t', r') →
    ¬ clash r r'
  mixed : ∀ {k k' t r r'}, k ≠ k' → (cells k).committed = some r → (cells k').pending = some (t, r') → clash r r' →
    ∃ r₀, (cells k).pending = some (t, r₀)

namespace Apart
variable {clash : ρ → ρ → Prop} {cells : κ → Cell τ ρ}

/-- A heap between transactions. -/
theorem of_unheld (hnone : ∀ k, (cells k).pending = none)
    (hapart : ∀ {k k' r r'}, k ≠ k' → (cells k).committed = some r → (cells k').committed = some r' → ¬ clash r r') :
    Apart clash cells where
  committed := hapart
  pending := by
    intro k k' t t' r r' _ hp
    rw [hnone k] at hp
    cases hp
  mixed := by
    intro k k' t r r' _ _ hp
    rw [hnone k'] at hp
    cases hp

variable [DecidableEq τ] {t : τ} (hsymm : ∀ {a b}, clash a b → clash b a) (h : Apart clash cells)
include h

include hsymm in
/-- No transaction sees two rows that exclude each other. -/
theorem read {k k' : κ} {r r' : ρ} (hne : k ≠ k') (hr : (cells k).read t = some r) (hr' : (cells k').read t = some r') :
    ¬ clash r r' := by
  rcases Cell.read_cases hr with hp | ⟨hc, hno⟩
  · rcases Cell.read_cases hr' with hp' | ⟨hc', hno'⟩
    · exact h.pending hne hp hp'
    · intro hclash
      obtain ⟨r₀, hp'⟩ := h.mixed hne.symm hc' hp (hsymm hclash)
      exact hno' r₀ hp'
  · rcases Cell.read_cases hr' with hp' | ⟨hc', -⟩
    · intro hclash
      obtain ⟨r₀, hp⟩ := h.mixed hne hc hp' hclash
      exact hno r₀ hp
    · exact h.committed hne hc hc'

include hsymm in
/-- A commit shows what its transaction saw. -/
theorem commit : Apart clash (fun k => (cells k).commit t) where
  committed := by
    intro k k' r r' hne hr hr'
    rw [Cell.committed_commit] at hr hr'
    exact h.read hsymm hne hr hr'
  pending := by
    intro k k' t₀ t₀' r r' hne hp hp'
    rcases Cell.commit_cases t (cells k) with ⟨_, -, heq⟩ | ⟨-, heq⟩
    · rw [heq] at hp
      cases hp
    · rcases Cell.commit_cases t (cells k') with ⟨_, -, heq'⟩ | ⟨-, heq'⟩
      · rw [heq'] at hp'
        cases hp'
      · exact h.pending hne (heq ▸ hp) (heq' ▸ hp')
  mixed := by
    intro k k' t₀ r r' hne hc hp hclash
    rcases Cell.commit_cases t (cells k') with ⟨_, -, heq'⟩ | ⟨-, heq'⟩
    · rw [heq'] at hp
      cases hp
    · rw [heq'] at hp
      rcases Cell.commit_cases t (cells k) with ⟨r₀, hp₀, heq⟩ | ⟨-, heq⟩
      · rw [heq] at hc
        cases hc
        exact absurd hclash (h.pending hne hp₀ hp)
      · rw [heq] at hc ⊢
        exact h.mixed hne hc hp hclash

/-- A rollback shows nothing new. -/
theorem rollback : Apart clash (fun k => (cells k).rollback t) where
  committed := by
    intro k k' r r' hne hr hr'
    rw [Cell.committed_rollback] at hr hr'
    exact h.committed hne hr hr'
  pending := by
    intro k k' t₀ t₀' r r' hne hp hp'
    rcases Cell.rollback_cases t (cells k) with ⟨_, -, heq⟩ | ⟨-, heq⟩
    · rw [heq] at hp
      cases hp
    · rcases Cell.rollback_cases t (cells k') with ⟨_, -, heq'⟩ | ⟨-, heq'⟩
      · rw [heq'] at hp'
        cases hp'
      · exact h.pending hne (heq ▸ hp) (heq' ▸ hp')
  mixed := by
    intro k k' t₀ r r' hne hc hp hclash
    rw [Cell.committed_rollback] at hc
    rcases Cell.rollback_cases t (cells k') with ⟨_, -, heq'⟩ | ⟨hno', heq'⟩
    · rw [heq'] at hp
      cases hp
    · rw [heq'] at hp
      obtain ⟨r₀, hp₀⟩ := h.mixed hne hc hp hclash
      have ht : t₀ ≠ t := fun ht => hno' r' (ht ▸ hp)
      rcases Cell.rollback_cases t (cells k) with ⟨r₁, hp₁, -⟩ | ⟨-, heq⟩
      · exact absurd (Prod.mk.inj (Option.some.inj (hp₀.symm.trans hp₁))).1 ht
      · refine ⟨r₀, ?_⟩
        rw [heq]
        exact hp₀

include hsymm in
/-- One new version keeps apart when the transaction sees nothing that excludes it and no
other transaction holds a cell with such a version. -/
theorem place [DecidableEq κ] {x : κ} {z : ρ} (hfree : (cells x).lockedByOther t = false)
    (hseen : ∀ k ≠ x, ∀ r, (cells k).read t = some r → ¬ clash z r)
    (hheld : ∀ k ≠ x, (cells k).lockedByOther t = true → ∀ r ∈ (cells k).versions, ¬ clash z r)
    {cells' : κ → Cell τ ρ} (hplaced : cells' x = ⟨(cells x).committed, some (t, z)⟩)
    (hrest : ∀ k ≠ x, cells' k = cells k) : Apart clash cells' where
  committed := by
    intro k k' r r' hne hr hr'
    have hsame : ∀ k, (cells' k).committed = (cells k).committed := by
      intro k
      by_cases hk : k = x
      · rw [hk, hplaced]
      · rw [hrest k hk]
    exact h.committed hne (hsame k ▸ hr) (hsame k' ▸ hr')
  pending := by
    -- the new version against a pending one
    have hnew : ∀ {k t' r}, k ≠ x → (cells k).pending = some (t', r) → ¬ clash z r := by
      intro k t' r hk hp
      by_cases ht : t' = t
      · exact hseen k hk r (Cell.read_of_pending (ht ▸ hp))
      · exact hheld k hk (by simp [Cell.lockedByOther, hp, ht]) r (Cell.pending_mem hp)
    intro k k' t₁ t₂ r r' hne hp hp'
    by_cases hk : k = x
    · have hk' : k' ≠ x := fun hk' => hne (hk.trans hk'.symm)
      rw [hk, hplaced] at hp
      rw [hrest k' hk'] at hp'
      cases hp
      exact hnew hk' hp'
    · rw [hrest k hk] at hp
      by_cases hk' : k' = x
      · rw [hk', hplaced] at hp'
        cases hp'
        exact fun hclash => hnew hk hp (hsymm hclash)
      · rw [hrest k' hk'] at hp'
        exact h.pending hne hp hp'
  mixed := by
    intro k k' t₁ r r' hne hc hp hclash
    by_cases hk' : k' = x
    · have hk : k ≠ x := fun hk => hne (hk.trans hk'.symm)
      rw [hrest k hk] at hc ⊢
      rw [hk', hplaced] at hp
      cases hp
      cases hlocked : (cells k).lockedByOther t with
      | true => exact absurd (hsymm hclash) (hheld k hk hlocked r (Cell.committed_mem hc))
      | false =>
        rcases Cell.free_cases hlocked with hnone | hown
        · have hread : (cells k).read t = some r := by rw [Cell.read_of_not_pending (by simp [hnone]), hc]
          exact absurd (hsymm hclash) (hseen k hk r hread)
        · exact hown
    · rw [hrest k' hk'] at hp
      by_cases hk : k = x
      · subst hk
        rw [hplaced] at hc ⊢
        obtain ⟨r₁, hp₁⟩ := h.mixed hne hc hp hclash
        rcases Cell.free_cases hfree with hnone | ⟨r₂, hown⟩
        · rw [hnone] at hp₁
          cases hp₁
        · exact ⟨z, by rw [(Prod.mk.inj (Option.some.inj (hp₁.symm.trans hown))).1]⟩
      · rw [hrest k hk] at hc ⊢
        exact h.mixed hne hc hp hclash

include hsymm in
/-- New versions keep apart when each excludes no more than the one it is made from. -/
theorem write {p : ρ → Bool} {f : ρ → ρ} (hready : ∀ k, ((cells k).read t).any p = false ∨ (cells k).lockedByOther t = false)
    (hf : ∀ r q, clash (f r) q → clash r q) : Apart clash (fun k => (cells k).write t p f) where
  committed := by
    intro k k' r r' hne hr hr'
    rw [Cell.write_committed] at hr hr'
    exact h.committed hne hr hr'
  pending := by
    -- a rewritten version against one left alone
    have hnew : ∀ {k k' t' r q}, k ≠ k' → (cells k).read t = some r → p r = true → (cells k').pending = some (t', q) →
        ¬ clash (f r) q := by
      intro k k' t' r q hne hread hp hq hclash
      have hclash := hf r q hclash
      rcases Cell.read_cases hread with hown | ⟨hc, hno⟩
      · exact h.pending hne hown hq hclash
      · obtain ⟨r₁, hp₁⟩ := h.mixed hne hc hq hclash
        rcases Cell.free_cases ((hready k).resolve_left (by simp [hread, hp])) with hnone | ⟨r₂, hown⟩
        · rw [hnone] at hp₁
          cases hp₁
        · exact hno r₂ hown
    intro k k' t₁ t₂ r r' hne hp hp'
    rcases Cell.write_cases t p f (cells k) with ⟨r₁, hread, hpr, heq⟩ | ⟨-, heq⟩
    · rw [heq] at hp
      cases hp
      rcases Cell.write_cases t p f (cells k') with ⟨r₂, hread', hpr', heq'⟩ | ⟨-, heq'⟩
      · rw [heq'] at hp'
        cases hp'
        exact fun hclash => h.read hsymm hne hread hread' (hsymm (hf r₂ r₁ (hsymm (hf r₁ _ hclash))))
      · rw [heq'] at hp'
        exact hnew hne hread hpr hp'
    · rw [heq] at hp
      rcases Cell.write_cases t p f (cells k') with ⟨r₂, hread', hpr', heq'⟩ | ⟨-, heq'⟩
      · rw [heq'] at hp'
        cases hp'
        exact fun hclash => hnew hne.symm hread' hpr' hp (hsymm hclash)
      · rw [heq'] at hp'
        exact h.pending hne hp hp'
  mixed := by
    -- what another transaction held before the write it holds after it
    have hstill : ∀ {k t' r}, (cells k).pending = some (t', r) →
        ∃ z, ((cells k).write t p f).pending = some (t', z) := by
      intro k t' r hp
      rcases Cell.write_cases t p f (cells k) with ⟨r₁, hread, hpr, heq⟩ | ⟨-, heq⟩
      · rcases Cell.free_cases ((hready k).resolve_left (by simp [hread, hpr])) with hnone | ⟨r₂, hown⟩
        · rw [hnone] at hp
          cases hp
        · exact ⟨f r₁, by rw [heq, (Prod.mk.inj (Option.some.inj (hp.symm.trans hown))).1]⟩
      · exact ⟨r, by rw [heq, hp]⟩
    intro k k' t₁ r r' hne hc hp hclash
    rw [Cell.write_committed] at hc
    rcases Cell.write_cases t p f (cells k') with ⟨r₂, hread', -, heq'⟩ | ⟨-, heq'⟩
    · rw [heq'] at hp
      cases hp
      have hclash := hsymm (hf r₂ r (hsymm hclash))
      rcases Cell.read_cases hread' with hown | ⟨hc', -⟩
      · obtain ⟨r₁, hp₁⟩ := h.mixed hne hc hown hclash
        exact hstill hp₁
      · exact absurd hclash (h.committed hne hc hc')
    · rw [heq'] at hp
      obtain ⟨r₁, hp₁⟩ := h.mixed hne hc hp hclash
      exact hstill hp₁

end Apart
end RowStore
