import VkService.Storage.CellSteps

/-! Items that depend on rows, under read committed. A live item belongs to an open row, and a
row has at most one. Two transactions that each keep to this may not do so together: it takes
that neither holds what excludes what the other holds. -/
namespace RowStore
variable {τ ρ σ κ κ' : Type}

namespace Cell
variable [DecidableEq τ] {t t' : τ} {c c' : Cell τ ρ} {r : ρ} {d : Deed ρ}

/-- What is seen after a commit was held before, or seen by both transactions. -/
theorem commit_origin (h : (c.commit t).read t' = some r) : (t' ≠ t ∧ c.pending = some (t', r)) ∨
    c.pending = some (t, r) ∨ c.read t = some r ∧ c.read t' = some r := by
  rcases commit_cases t c with ⟨r', hp, heq⟩ | ⟨hno, heq⟩
  · rw [heq] at h
    obtain rfl : r' = r := Option.some.inj h
    exact .inr (.inl hp)
  · rw [heq] at h
    rcases read_cases h with hp | ⟨hc, hno'⟩
    · exact .inl ⟨fun ht => hno r (ht ▸ hp), hp⟩
    · exact .inr (.inr ⟨(read_of_not_pending hno).trans hc, h⟩)

theorem pending_of_commit (h : (c.commit t).pending = some (t', r)) : c.pending = some (t', r) := by
  rcases commit_cases t c with ⟨r', -, heq⟩ | ⟨-, heq⟩
  · rw [heq] at h
    cases h
  · exact heq ▸ h

theorem pending_of_rollback (h : (c.rollback t).pending = some (t', r)) : c.pending = some (t', r) := by
  rcases rollback_cases t c with ⟨r', -, heq⟩ | ⟨-, heq⟩
  · rw [heq] at h
    cases h
  · exact heq ▸ h

/-- A step of `t` that does not end its transaction. -/
structure ByOne (t : τ) (c c' : Cell τ ρ) : Prop where
  committed : c'.committed = c.committed
  others : ∀ t' ≠ t, ∀ r, c'.pending = some (t', r) ↔ c.pending = some (t', r)

theorem Step.byOne (h : Step t d c c') (hc : ¬ d.commits) : ByOne t c c' where
  committed := h.committed_cases.resolve_right fun ⟨_, hd, _⟩ => hc hd
  others t' hne r := by
    constructor
    · intro hp
      rcases h.pending_cases hp with ⟨hp, -⟩ | ⟨ht, -⟩
      · exact hp
      · exact absurd ht hne
    · intro hp
      rw [h.other hp hne]
      exact hp

theorem ByOne.read (h : ByOne t c c') (hne : t' ≠ t) (hread : c'.read t' = some r) : c.read t' = some r := by
  rcases read_cases hread with hp | ⟨hc, hno⟩
  · exact read_of_pending ((h.others t' hne r).mp hp)
  · rw [read_of_not_pending fun r' hp => hno r' ((h.others t' hne r').mpr hp), ← h.committed, hc]

/-- The version a transaction sees after its own step is the old one, or the step has written it. -/
theorem Step.read_self (h : Step t d c c') (hc : ¬ d.commits) (hr : ¬ d.rollsBack) {r' : ρ}
    (hread : c'.read t = some r') :
    c.read t = some r' ∨ d.creates r' ∨ ∃ r, d.rewrites r r' ∧ c.read t = some r := by
  rcases read_cases hread with hp | ⟨hcommitted, hno⟩
  · rcases h.pending_cases hp with ⟨hp, -⟩ | ⟨-, ⟨hd, -⟩ | ⟨r, hd, hread, -⟩⟩
    · exact .inl (read_of_pending hp)
    · exact .inr (.inl hd)
    · exact .inr (.inr ⟨r, hd, hread⟩)
  · left
    rw [(h.byOne hc).committed] at hcommitted
    rw [read_of_not_pending fun r₀ hp => ?_, hcommitted]
    obtain ⟨r₁, hp₁, -⟩ := h.held hp (fun _ => hc) fun _ => hr
    exact hno r₁ hp₁

end Cell

/-- Another transaction holds a version with `p`. -/
def heldByOthers [DecidableEq τ] (t : τ) (p : ρ → Bool) (h : Heap τ ρ) : Bool :=
  h.any fun c => c.lockedByOther t && (c.pending.map Prod.snd).any p

theorem not_heldByOthers [DecidableEq τ] {t t' : τ} {p : ρ → Bool} {h : Heap τ ρ} {r : ρ}
    (hno : heldByOthers t p h = false) (hne : t' ≠ t) (hheld : Held t' r h) : p r = false := by
  obtain ⟨c, hc, hp⟩ := hheld
  simpa [Cell.lockedByOther, hp, hne] using List.any_eq_false.mp hno c hc

/-- Rows of which some are open, and items of which some are live, each with its row. -/
structure Dependency (ρ σ κ : Type) where
  isOpen : ρ → Prop
  live : σ → Prop
  owner : σ → κ

namespace Dependency
variable (D : Dependency ρ σ κ)

/-- A live item that is not excused belongs to an open row, and a row has one of them at most. -/
structure Fits (readRow : κ → Option ρ) (readItem : κ' → Option σ) (excused : σ → Prop) : Prop where
  belongs {y c r} (hc : readItem y = some c) (hlive : D.live c) (hr : readRow (D.owner c) = some r) :
    D.isOpen r ∨ excused c
  single {y y' c c'} (hc : readItem y = some c) (hlive : D.live c) (hc' : readItem y' = some c') (hlive' : D.live c')
    (howner : D.owner c = D.owner c') : y = y'

/-- The committed versions fit, each transaction sees what fits but for what it is excused, and
no two transactions hold versions that do not go together. -/
structure Fitting [DecidableEq τ] (rows : κ → Cell τ ρ) (items : κ' → Cell τ σ) (excused : τ → σ → Prop) : Prop where
  committed : D.Fits (fun x => (rows x).committed) (fun y => (items y).committed) fun _ => False
  seen (t : τ) : D.Fits (fun x => (rows x).read t) (fun y => (items y).read t) (excused t)
  rowHeld {t t' y c r} (hne : t ≠ t') (hc : (items y).pending = some (t, c)) (hlive : D.live c)
    (hr : (rows (D.owner c)).pending = some (t', r)) : D.isOpen r
  itemHeld {t t' y y' c c'} (hne : t ≠ t') (hc : (items y).pending = some (t, c)) (hlive : D.live c)
    (hc' : (items y').pending = some (t', c')) (hlive' : D.live c') : D.owner c ≠ D.owner c'

/-- Nobody else holds a live item of the row. -/
def NoItems (t : τ) (items : κ' → Cell τ σ) (x : κ) : Prop :=
  ∀ t' ≠ t, ∀ y c, (items y).pending = some (t', c) → D.live c → D.owner c ≠ x

/-- Nobody else holds a closed version of the row. -/
def NoClosed (t : τ) (rows : κ → Cell τ ρ) (x : κ) : Prop :=
  ∀ t' ≠ t, ∀ r, (rows x).pending = some (t', r) → D.isOpen r

namespace Fitting
variable {D} [DecidableEq τ] {rows rows' : κ → Cell τ ρ} {items items' : κ' → Cell τ σ}
    {excused excused' : τ → σ → Prop}
  {t : τ}

theorem of_unheld (hrows : ∀ x, (rows x).pending = none) (hitems : ∀ y, (items y).pending = none)
    (hfits : D.Fits (fun x => (rows x).committed) (fun y => (items y).committed) fun _ => False) :
    D.Fitting rows items excused where
  committed := hfits
  seen t := by
    have hrow : ∀ x, (rows x).read t = (rows x).committed := fun x => Cell.read_of_not_pending (by simp [hrows x])
    have hitem : ∀ y, (items y).read t = (items y).committed := fun y => Cell.read_of_not_pending (by simp [hitems y])
    simp only [hrow, hitem]
    exact ⟨fun hc hlive hr => .inl ((hfits.belongs hc hlive hr).resolve_right id), hfits.single⟩
  rowHeld _ hc := by
    rw [hitems] at hc
    cases hc
  itemHeld _ hc := by
    rw [hitems] at hc
    cases hc

/-- A rollback shows a transaction what is committed. -/
theorem rollback (h : D.Fitting rows items excused) (hexcused : ∀ t' ≠ t, ∀ c, excused t' c → excused' t' c) :
    D.Fitting (fun x => (rows x).rollback t) (fun y => (items y).rollback t) excused' where
  committed := by
    simp only [Cell.committed_rollback]
    exact h.committed
  seen t' := by
    by_cases ht : t' = t
    · subst ht
      simp only [Cell.read_rollback_self]
      exact ⟨fun hc hlive hr => .inl ((h.committed.belongs hc hlive hr).resolve_right id), h.committed.single⟩
    · simp only [Cell.read_rollback_ne ht]
      exact ⟨fun hc hlive hr => ((h.seen t').belongs hc hlive hr).imp_right (hexcused t' ht _), (h.seen t').single⟩
  rowHeld hne hc hlive hr := h.rowHeld hne (Cell.pending_of_rollback hc) hlive (Cell.pending_of_rollback hr)
  itemHeld hne hc hlive hc' hlive' := h.itemHeld hne (Cell.pending_of_rollback hc) hlive
    (Cell.pending_of_rollback hc') hlive'

/-- A commit shows the others what its transaction has seen, next to what they hold. -/
theorem commit (h : D.Fitting rows items excused) (hnone : ∀ c, ¬ excused t c)
    (hexcused : ∀ t' ≠ t, ∀ c, excused t' c → excused' t' c) :
    D.Fitting (fun x => (rows x).commit t) (fun y => (items y).commit t) excused' where
  committed := by
    simp only [Cell.committed_commit]
    exact ⟨fun hc hlive hr => .inl (((h.seen t).belongs hc hlive hr).resolve_right (hnone _)), (h.seen t).single⟩
  seen t' := by
    refine ⟨fun {y c r} hc hlive hr => ?_, fun {y y' c c'} hc hlive hc' hlive' howner => ?_⟩
    · have hmine : ∀ {r}, (items y).read t = some c → (rows (D.owner c)).read t = some r → D.isOpen r := fun hc hr =>
        ((h.seen t).belongs hc hlive hr).resolve_right (hnone _)
      have htheirs : t' ≠ t → (items y).read t' = some c → (rows (D.owner c)).read t' = some r →
          D.isOpen r ∨ excused' t' c := fun hne hc hr => ((h.seen t').belongs hc hlive hr).imp_right (hexcused t' hne _)
      rcases Cell.commit_origin hc with ⟨hne, hitem⟩ | hitem | ⟨hitem, hitem'⟩
      · rcases Cell.commit_origin hr with ⟨-, hrow⟩ | hrow | ⟨-, hrow⟩
        · exact htheirs hne (Cell.read_of_pending hitem) (Cell.read_of_pending hrow)
        · exact .inl (h.rowHeld hne hitem hlive hrow)
        · exact htheirs hne (Cell.read_of_pending hitem) hrow
      · rcases Cell.commit_origin hr with ⟨hne, hrow⟩ | hrow | ⟨hrow, -⟩
        · exact .inl (h.rowHeld hne.symm hitem hlive hrow)
        · exact .inl (hmine (Cell.read_of_pending hitem) (Cell.read_of_pending hrow))
        · exact .inl (hmine (Cell.read_of_pending hitem) hrow)
      · rcases Cell.commit_origin hr with ⟨hne, hrow⟩ | hrow | ⟨hrow, -⟩
        · exact htheirs hne hitem' (Cell.read_of_pending hrow)
        · exact .inl (hmine hitem (Cell.read_of_pending hrow))
        · exact .inl (hmine hitem hrow)
    · have hmine : (items y).read t = some c → (items y').read t = some c' → y = y' := fun hc hc' =>
        (h.seen t).single hc hlive hc' hlive' howner
      have htheirs : (items y).read t' = some c → (items y').read t' = some c' → y = y' := fun hc hc' =>
        (h.seen t').single hc hlive hc' hlive' howner
      rcases Cell.commit_origin hc with ⟨hne, hitem⟩ | hitem | ⟨hitem, hitem₀⟩
      · rcases Cell.commit_origin hc' with ⟨-, hitem'⟩ | hitem' | ⟨-, hitem'⟩
        · exact htheirs (Cell.read_of_pending hitem) (Cell.read_of_pending hitem')
        · exact absurd howner (h.itemHeld hne hitem hlive hitem' hlive')
        · exact htheirs (Cell.read_of_pending hitem) hitem'
      · rcases Cell.commit_origin hc' with ⟨hne, hitem'⟩ | hitem' | ⟨hitem', -⟩
        · exact absurd howner (h.itemHeld hne.symm hitem hlive hitem' hlive')
        · exact hmine (Cell.read_of_pending hitem) (Cell.read_of_pending hitem')
        · exact hmine (Cell.read_of_pending hitem) hitem'
      · rcases Cell.commit_origin hc' with ⟨-, hitem'⟩ | hitem' | ⟨hitem', -⟩
        · exact htheirs hitem₀ (Cell.read_of_pending hitem')
        · exact hmine hitem (Cell.read_of_pending hitem')
        · exact hmine hitem hitem'
  rowHeld hne hc hlive hr := h.rowHeld hne (Cell.pending_of_commit hc) hlive (Cell.pending_of_commit hr)
  itemHeld hne hc hlive hc' hlive' := h.itemHeld hne (Cell.pending_of_commit hc) hlive
    (Cell.pending_of_commit hc') hlive'

/-- A step goes on fitting when its transaction sees what fits, closes rows only of which nobody
else holds a live item, and makes items live only where nobody else holds what excludes them. -/
theorem step (h : D.Fitting rows items excused) (hrows : ∀ x, Cell.ByOne t (rows x) (rows' x))
    (hitems : ∀ y, Cell.ByOne t (items y) (items' y)) (hexcused : ∀ t' ≠ t, ∀ c, excused t' c → excused' t' c)
    (hseen : D.Fits (fun x => (rows' x).read t) (fun y => (items' y).read t) (excused' t))
    (hclosed : ∀ x r, (rows' x).pending = some (t, r) → D.isOpen r ∨ (rows x).pending = some (t, r) ∨ D.NoItems t items x)
    (hlive : ∀ y c, (items' y).pending = some (t, c) → D.live c → (items y).pending = some (t, c) ∨
      D.NoClosed t rows (D.owner c) ∧ D.NoItems t items (D.owner c)) : D.Fitting rows' items' excused' where
  committed := by
    simp only [(hrows _).committed, (hitems _).committed]
    exact h.committed
  seen t' := by
    by_cases ht : t' = t
    · subst ht
      exact hseen
    · exact ⟨fun hc hl hr => ((h.seen t').belongs ((hitems _).read ht hc) hl ((hrows _).read ht hr)).imp_right
        (hexcused t' ht _), fun hc hl hc' => (h.seen t').single ((hitems _).read ht hc) hl ((hitems _).read ht hc')⟩
  rowHeld {t₁ t₂ y c r} hne hc hl hr := by
    by_cases h₁ : t₁ = t
    · subst h₁
      have hr := ((hrows _).others t₂ hne.symm r).mp hr
      rcases hlive y c hc hl with hold | ⟨hfree, -⟩
      · exact h.rowHeld hne hold hl hr
      · exact hfree t₂ hne.symm r hr
    · have hc := ((hitems y).others t₁ h₁ c).mp hc
      by_cases h₂ : t₂ = t
      · subst h₂
        rcases hclosed _ r hr with hopen | hold | hfree
        · exact hopen
        · exact h.rowHeld hne hc hl hold
        · exact absurd rfl (hfree t₁ h₁ y c hc hl)
      · exact h.rowHeld hne hc hl (((hrows _).others t₂ h₂ r).mp hr)
  itemHeld {t₁ t₂ y y' c c'} hne hc hl hc' hl' := by
    by_cases h₁ : t₁ = t
    · subst h₁
      have hc' := ((hitems y').others t₂ hne.symm c').mp hc'
      rcases hlive y c hc hl with hold | ⟨-, hfree⟩
      · exact h.itemHeld hne hold hl hc' hl'
      · exact (hfree t₂ hne.symm y' c' hc' hl').symm
    · have hc := ((hitems y).others t₁ h₁ c).mp hc
      by_cases h₂ : t₂ = t
      · subst h₂
        rcases hlive y' c' hc' hl' with hold | ⟨-, hfree⟩
        · exact h.itemHeld hne hc hl hold hl'
        · exact hfree t₁ h₁ y c hc hl
      · exact h.itemHeld hne hc hl (((hitems y').others t₂ h₂ c').mp hc') hl'

end Fitting
end Dependency
end RowStore
