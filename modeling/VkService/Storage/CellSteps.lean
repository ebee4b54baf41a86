import VkService.Storage.Keyed

/-! The life of one cell. A step of a transaction lands or undoes its own version, creates a
row in an empty cell, or rewrites the version it sees when nobody else holds the cell. -/
namespace RowStore
variable {τ ρ κ : Type}

/-- What a step is for the rows of one table: whether it ends its transaction, and which
versions it may write. -/
structure Deed (ρ : Type) where
  commits : Prop
  rollsBack : Prop
  creates : ρ → Prop
  rewrites : ρ → ρ → Prop

/-- A transaction that is killed only loses its versions. -/
def Deed.killed : Deed ρ := ⟨False, True, fun _ => False, fun _ _ => False⟩

namespace Cell
variable [DecidableEq τ]

/-- Everything transaction `t` can do to a cell in one step. -/
inductive Step (t : τ) (d : Deed ρ) (c : Cell τ ρ) : Cell τ ρ → Prop
  | same : Step t d c c
  | landed {r : ρ} (hd : d.commits) (hp : c.pending = some (t, r)) : Step t d c ⟨some r, none⟩
  | undone {r : ρ} (hd : d.rollsBack) (hp : c.pending = some (t, r)) : Step t d c ⟨c.committed, none⟩
  | created {r : ρ} (hd : d.creates r) (hempty : c = empty) : Step t d c ⟨none, some (t, r)⟩
  | rewritten {r r' : ρ} (hd : d.rewrites r r') (hread : c.read t = some r) (hfree : c.lockedByOther t = false) :
      Step t d c ⟨c.committed, some (t, r')⟩

variable {t t' : τ} {d : Deed ρ} {c c' : Cell τ ρ} {r : ρ}

theorem commit_cases (t : τ) (c : Cell τ ρ) : (∃ r, c.pending = some (t, r) ∧ c.commit t = ⟨some r, none⟩) ∨
    (∀ r, c.pending ≠ some (t, r)) ∧ c.commit t = c := by
  unfold commit
  cases hp : c.pending with
  | none => exact .inr ⟨by simp, rfl⟩
  | some v =>
    obtain ⟨t', r⟩ := v
    by_cases ht : t' = t
    · exact .inl ⟨r, by rw [ht], by simp [ht]⟩
    · exact .inr ⟨by simp [ht], by simp [ht]⟩

theorem commit_of_pending (hp : c.pending = some (t, r)) : c.commit t = ⟨some r, none⟩ := by
  simp [commit, hp]

/-- A transaction that has committed holds the cell no more. -/
theorem commit_not_pending (t : τ) (c : Cell τ ρ) (r : ρ) : (c.commit t).pending ≠ some (t, r) := by
  rcases commit_cases t c with ⟨_, -, heq⟩ | ⟨hno, heq⟩
  · simp [heq]
  · exact heq.symm ▸ hno r

theorem rollback_cases (t : τ) (c : Cell τ ρ) :
    (∃ r, c.pending = some (t, r) ∧ c.rollback t = ⟨c.committed, none⟩) ∨
      (∀ r, c.pending ≠ some (t, r)) ∧ c.rollback t = c := by
  unfold rollback
  cases hp : c.pending with
  | none => exact .inr ⟨by simp, rfl⟩
  | some v =>
    obtain ⟨t', r⟩ := v
    by_cases ht : t' = t
    · exact .inl ⟨r, by rw [ht], by simp [ht]⟩
    · exact .inr ⟨by simp [ht], by simp [ht]⟩

theorem step_commit (hd : d.commits) : Step t d c (c.commit t) := by
  rcases commit_cases t c with ⟨r, hp, heq⟩ | ⟨-, heq⟩
  · exact heq ▸ .landed hd hp
  · exact heq.symm ▸ .same

theorem step_rollback (hd : d.rollsBack) : Step t d c (c.rollback t) := by
  rcases rollback_cases t c with ⟨r, hp, heq⟩ | ⟨-, heq⟩
  · exact heq ▸ .undone hd hp
  · exact heq.symm ▸ .same

theorem step_write {p : ρ → Bool} {f : ρ → ρ} (hready : (c.read t).any p = false ∨ c.lockedByOther t = false)
    (hd : ∀ r, c.read t = some r → p r = true → d.rewrites r (f r)) : Step t d c (c.write t p f) := by
  rcases write_cases t p f c with ⟨r, hread, hp, heq⟩ | ⟨-, heq⟩
  · have hfree : c.lockedByOther t = false := hready.resolve_left (by simp [hread, hp])
    exact heq ▸ .rewritten (hd r hread hp) hread hfree
  · exact heq.symm ▸ .same

/-- What a transaction sees in a cell is its own version, or a committed one nobody else holds. -/
theorem read_cases (hread : c.read t = some r) :
    c.pending = some (t, r) ∨ c.committed = some r ∧ ∀ r', c.pending ≠ some (t, r') := by
  unfold read at hread
  cases hp : c.pending with
  | none => exact .inr ⟨by simpa [hp] using hread, by simp⟩
  | some v =>
    obtain ⟨t', r'⟩ := v
    simp only [hp] at hread
    split at hread
    · rename_i ht
      cases hread
      exact .inl (by rw [ht])
    · rename_i ht
      exact .inr ⟨hread, by simp [ht]⟩

theorem free_cases (hfree : c.lockedByOther t = false) : c.pending = none ∨ ∃ r, c.pending = some (t, r) := by
  unfold lockedByOther at hfree
  cases hp : c.pending with
  | none => exact .inl rfl
  | some v =>
    obtain ⟨t', r⟩ := v
    have ht : t' = t := by simpa [hp] using hfree
    exact .inr ⟨r, by rw [ht]⟩

theorem read_of_pending (hp : c.pending = some (t, r)) : c.read t = some r := by
  simp [read, hp]

theorem read_of_not_pending (hp : ∀ r, c.pending ≠ some (t, r)) : c.read t = c.committed := by
  unfold read
  cases hc : c.pending with
  | none => rfl
  | some v =>
    obtain ⟨t', r⟩ := v
    have ht : t' ≠ t := fun ht => hp r (by rw [hc, ht])
    simp [ht]

/-- A committed row is seen by everybody, in some version. -/
theorem read_of_committed (hc : c.committed = some r) : ∃ r', c.read t = some r' := by
  by_cases hp : ∃ r', c.pending = some (t, r')
  · obtain ⟨r', hp⟩ := hp
    exact ⟨r', read_of_pending hp⟩
  · exact ⟨r, (read_of_not_pending fun r' hr' => hp ⟨r', hr'⟩).trans hc⟩

namespace Step

/-- A cell that another transaction holds stays as it is. -/
theorem other (h : Step t d c c') (hp : c.pending = some (t', r)) (hne : t' ≠ t) : c' = c := by
  cases h with
  | same => rfl
  | landed _ hown => exact absurd (Prod.mk.inj (Option.some.inj (hp.symm.trans hown))).1 hne
  | undone _ hown => exact absurd (Prod.mk.inj (Option.some.inj (hp.symm.trans hown))).1 hne
  | created _ hempty =>
    rw [hempty] at hp
    cases hp
  | rewritten _ _ hfree =>
    rcases free_cases hfree with hnone | ⟨r', hown⟩
    · rw [hp] at hnone
      cases hnone
    · exact absurd (Prod.mk.inj (Option.some.inj (hp.symm.trans hown))).1 hne

/-- A transaction that does not end keeps the cells it holds. -/
theorem own (h : Step t d c c') (hp : c.pending = some (t, r)) :
    (∃ r', c'.pending = some (t, r') ∧ c'.committed = c.committed ∧ (r' = r ∨ d.rewrites r r')) ∨
      d.commits ∧ c' = ⟨some r, none⟩ ∨ d.rollsBack ∧ c' = ⟨c.committed, none⟩ := by
  cases h with
  | same => exact .inl ⟨r, hp, rfl, .inl rfl⟩
  | landed hd hown =>
    obtain rfl := (Prod.mk.inj (Option.some.inj (hp.symm.trans hown))).2
    exact .inr (.inl ⟨hd, rfl⟩)
  | undone hd _ => exact .inr (.inr ⟨hd, rfl⟩)
  | created _ hempty =>
    rw [hempty] at hp
    cases hp
  | rewritten hd hread _ =>
    obtain rfl := Option.some.inj ((read_of_pending hp).symm.trans hread)
    exact .inl ⟨_, rfl, rfl, .inr hd⟩

/-- A held cell stays held until its holder ends. -/
theorem held (h : Step t d c c') (hp : c.pending = some (t', r)) (hc : t' = t → ¬ d.commits)
    (hr : t' = t → ¬ d.rollsBack) : ∃ r', c'.pending = some (t', r') ∧ c'.committed = c.committed := by
  by_cases hne : t' = t
  · subst hne
    rcases h.own hp with ⟨r', hp', hcommitted, -⟩ | ⟨hd, -⟩ | ⟨hd, -⟩
    · exact ⟨r', hp', hcommitted⟩
    · exact absurd hd (hc rfl)
    · exact absurd hd (hr rfl)
  · exact ⟨r, h.other hp hne ▸ hp, by rw [h.other hp hne]⟩

/-- The committed version is the old one, or what the committing transaction held. -/
theorem committed_cases (h : Step t d c c') :
    c'.committed = c.committed ∨ ∃ r, d.commits ∧ c.pending = some (t, r) ∧ c' = ⟨some r, none⟩ := by
  cases h with
  | same => exact .inl rfl
  | landed hd hp => exact .inr ⟨_, hd, hp, rfl⟩
  | undone => exact .inl rfl
  | created _ hempty => exact .inl (by rw [hempty]; rfl)
  | rewritten => exact .inl rfl

/-- A pending version is an old one, or the step has written it. -/
theorem pending_cases {r' : ρ} (h : Step t d c c') (hp : c'.pending = some (t', r')) :
    c.pending = some (t', r') ∧ c'.committed = c.committed ∨
      t' = t ∧ (d.creates r' ∧ c = empty ∨
        ∃ r, d.rewrites r r' ∧ c.read t = some r ∧ c'.committed = c.committed ∧ c.lockedByOther t = false) := by
  cases h with
  | same => exact .inl ⟨hp, rfl⟩
  | landed => cases hp
  | undone => cases hp
  | created hd hempty =>
    obtain ⟨rfl, rfl⟩ := Prod.mk.inj (Option.some.inj hp)
    exact .inr ⟨rfl, .inl ⟨hd, hempty⟩⟩
  | rewritten hd hread hfree =>
    obtain ⟨rfl, rfl⟩ := Prod.mk.inj (Option.some.inj hp)
    exact .inr ⟨rfl, .inr ⟨_, hd, hread, rfl, hfree⟩⟩

/-- A version after a step is an old one, a new row, or a rewritten one. -/
theorem versions {r' : ρ} (h : Step t d c c') (hr : r' ∈ c'.versions) :
    r' ∈ c.versions ∨ d.creates r' ∨ ∃ r, d.rewrites r r' ∧ c.read t = some r := by
  rcases mem_versions.mp hr with hr | ⟨t', hr⟩
  · rcases h.committed_cases with heq | ⟨r, -, hp, heq⟩
    · exact .inl (committed_mem (heq ▸ hr))
    · rw [heq] at hr
      cases hr
      exact .inl (pending_mem hp)
  · rcases h.pending_cases hr with ⟨hp, -⟩ | ⟨-, ⟨hd, -⟩ | ⟨r, hd, hread, -⟩⟩
    · exact .inl (pending_mem hp)
    · exact .inr (.inl hd)
    · exact .inr (.inr ⟨r, hd, hread⟩)

/-- A property of rows that holds of every version goes on holding. -/
theorem forall_versions {P : ρ → Prop} (h : Step t d c c') (hall : ∀ r ∈ c.versions, P r)
    (hnew : ∀ r, d.creates r → P r) (hkeep : ∀ r r', r ∈ c.versions → P r → d.rewrites r r' → P r') :
    ∀ r ∈ c'.versions, P r := by
  intro r' hr'
  rcases h.versions hr' with hr | hd | ⟨r, hd, hread⟩
  · exact hall r' hr
  · exact hnew r' hd
  · exact hkeep r r' (read_mem_versions hread) (hall r (read_mem_versions hread)) hd

/-- A committed row stays committed, in some version of the cell. -/
theorem committed_stays (h : Step t d c c') (hc : c.committed = some r) :
    ∃ r' ∈ c.versions, c'.committed = some r' := by
  rcases h.committed_cases with heq | ⟨r', -, hp, heq⟩
  · exact ⟨r, committed_mem hc, heq.trans hc⟩
  · exact ⟨r', pending_mem hp, by rw [heq]⟩

/-- What a transaction sees goes on being there while it does not end. -/
theorem read_stays (h : Step t d c c') (hread : c.read t' = some r) (hc : t' = t → ¬ d.commits)
    (hr : t' = t → ¬ d.rollsBack) : ∃ r', c'.read t' = some r' := by
  rcases read_cases hread with hp | ⟨hcommitted, -⟩
  · obtain ⟨r', hp', -⟩ := h.held hp hc hr
    exact ⟨r', read_of_pending hp'⟩
  · obtain ⟨r', -, hc'⟩ := h.committed_stays hcommitted
    exact read_of_committed hc'

end Step

/-- From the commit of a row with `P` on, every version has `P`. -/
def Settles (P : ρ → Prop) (c : Cell τ ρ) : Prop :=
  ∀ r, c.committed = some r → P r → ∀ r' ∈ c.versions, P r'

omit [DecidableEq τ] in
theorem settles_of_unheld {P : ρ → Prop} (h : c.pending = none) : c.Settles P := by
  intro r hr hP r' hr'
  rcases mem_versions.mp hr' with hr' | ⟨t', hr'⟩
  · rw [hr] at hr'
    exact Option.some.inj hr' ▸ hP
  · rw [h] at hr'
    cases hr'

theorem Settles.step {P : ρ → Prop} (hs : c.Settles P) (h : Step t d c c')
    (hkeep : ∀ r r', P r → d.rewrites r r' → P r') : c'.Settles P := by
  intro r hr hP r' hr'
  rcases h.committed_cases with heq | ⟨r₀, -, -, heq⟩
  · have hall := hs r (heq ▸ hr) hP
    rcases mem_versions.mp hr' with hr' | ⟨t', hr'⟩
    · exact hall r' (committed_mem (heq ▸ hr'))
    · rcases h.pending_cases hr' with ⟨hp, -⟩ | ⟨-, ⟨-, hempty⟩ | ⟨r₁, hd, hread, -⟩⟩
      · exact hall r' (pending_mem hp)
      · rw [heq, hempty] at hr
        cases hr
      · exact hkeep r₁ r' (hall r₁ (read_mem_versions hread)) hd
  · subst heq
    cases hr
    rcases mem_versions.mp hr' with hr' | ⟨t', hr'⟩
    · cases hr'
      exact hP
    · cases hr'

/-- A settled committed row keeps `P` for good. -/
theorem Settles.committed {P : ρ → Prop} (hs : c.Settles P) (h : Step t d c c')
    (hc : ∃ r, c.committed = some r ∧ P r) : ∃ r, c'.committed = some r ∧ P r := by
  obtain ⟨r, hr, hP⟩ := hc
  obtain ⟨r', hr', hc'⟩ := h.committed_stays hr
  exact ⟨r', hc', hs r hr hP r' hr'⟩

/-- Once a row with `P` is committed, nobody holds its cell. -/
def Sealed (P : ρ → Prop) (c : Cell τ ρ) : Prop := ∀ r, c.committed = some r → P r → c.pending = none

/-- A sealed row is not touched any more. -/
theorem Sealed.eq {P : ρ → Prop} (hs : c.Sealed P) (h : Step t d c c') (hkeep : ∀ r r', d.rewrites r r' → ¬ P r)
    (hc : c.committed = some r) (hP : P r) : c' = c := by
  have hnone := hs r hc hP
  cases h with
  | same => rfl
  | landed _ hp | undone _ hp =>
    rw [hnone] at hp
    cases hp
  | created _ hempty =>
    rw [hempty] at hc
    cases hc
  | rewritten hd hread _ =>
    rw [read_of_not_pending (by simp [hnone]), hc] at hread
    cases hread
    exact absurd hP (hkeep _ _ hd)

theorem Sealed.step {P : ρ → Prop} (hs : c.Sealed P) (h : Step t d c c') (hkeep : ∀ r r', d.rewrites r r' → ¬ P r) :
    c'.Sealed P := by
  intro r hr hP
  rcases h.committed_cases with heq | ⟨r', -, -, heq⟩
  · rw [heq] at hr
    rw [hs.eq h hkeep hr hP]
    exact hs r hr hP
  · rw [heq]

end Cell

/-- Between transactions nobody holds a cell. -/
theorem pending_cellOf_ofRows [DecidableEq κ] {key : ρ → κ} (k : κ) (rows : List ρ) :
    (cellOf key k (ofRows rows : Heap τ ρ)).pending = none := by
  rcases cellOf_mem_or_empty key k (ofRows rows : Heap τ ρ) with hmem | hempty
  · obtain ⟨r, -, hcell⟩ := List.mem_map.mp hmem
    rw [← hcell]
  · rw [hempty]
    rfl

section Held
variable [DecidableEq τ] {t : τ} {h : Heap τ ρ} {r : ρ}

/-- A transaction that holds nothing sees the committed rows. -/
theorem view_eq_snapshot (hno : ∀ r, ¬ Held t r h) : view t h = snapshot h := by
  refine List.filterMap_congr fun c hc => Cell.read_of_not_pending fun r hp => hno r ⟨c, hc, hp⟩

theorem commit_eq_self (hno : ∀ r, ¬ Held t r h) : commit t h = h := by
  have hsame : ∀ c ∈ h, c.commit t = id c := fun c hc =>
    ((Cell.commit_cases t c).resolve_left fun ⟨r, hp, _⟩ => hno r ⟨c, hc, hp⟩).2
  rw [commit, List.map_congr_left hsame, List.map_id]

theorem rollback_eq_self (hno : ∀ r, ¬ Held t r h) : rollback t h = h := by
  have hsame : ∀ c ∈ h, c.rollback t = id c := fun c hc =>
    ((Cell.rollback_cases t c).resolve_left fun ⟨r, hp, _⟩ => hno r ⟨c, hc, hp⟩).2
  rw [rollback, List.map_congr_left hsame, List.map_id]

theorem not_locked_of_not_held (hno : ∀ t' ≠ t, ∀ r, ¬ Held t' r h) {c : Cell τ ρ} (hc : c ∈ h) :
    c.lockedByOther t = false := by
  unfold Cell.lockedByOther
  cases hp : c.pending with
  | none => rfl
  | some v =>
    obtain ⟨t', r⟩ := v
    simpa using fun hne => hno t' hne r ⟨c, hc, hp⟩

/-- Nothing waits when no other transaction holds a row. -/
theorem ready_of_not_held (hno : ∀ t' ≠ t, ∀ r, ¬ Held t' r h) (p : ρ → Bool) :
    rowsReady t p h = true ∧ keyReady t p h = true := by
  refine ⟨rowsReady_iff.mpr fun c hc => .inr (not_locked_of_not_held hno hc), keyReady_iff.mpr fun c hc hlocked => ?_⟩
  rw [not_locked_of_not_held hno hc] at hlocked
  cases hlocked

omit [DecidableEq τ] in
theorem held_iff [DecidableEq κ] {key : ρ → κ} (hkeyed : Keyed key h) :
    Held t r h ↔ (cellOf key (key r) h).pending = some (t, r) := by
  constructor
  · rintro ⟨c, hc, hp⟩
    rwa [cellOf_eq hkeyed hc (Cell.pending_mem hp)]
  · intro hp
    rcases cellOf_mem_or_empty key (key r) h with hmem | hempty
    · exact ⟨_, hmem, hp⟩
    · rw [hempty] at hp
      cases hp

end Held
end RowStore
