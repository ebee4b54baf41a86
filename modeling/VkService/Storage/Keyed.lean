import VkService.Storage.RowStore

/-! A heap whose rows have a key that no write changes. Then a heap is a function from keys
to cells, and every operation acts on the cell of a key alone. -/
namespace RowStore
variable {τ ρ κ : Type}

namespace Cell

def empty : Cell τ ρ := ⟨none, none⟩

@[simp] theorem versions_empty : (empty : Cell τ ρ).versions = [] := rfl

theorem eq_empty_of_versions {c : Cell τ ρ} (h : ∀ r, r ∉ c.versions) : c = empty := by
  obtain ⟨committed, pending⟩ := c
  cases committed with
  | some r => exact absurd (mem_versions.mpr (.inl rfl)) (h r)
  | none =>
    cases pending with
    | some v => exact absurd (mem_versions.mpr (.inr ⟨v.1, rfl⟩)) (h v.2)
    | none => rfl

theorem committed_mem {c : Cell τ ρ} {r : ρ} (h : c.committed = some r) : r ∈ c.versions :=
  mem_versions.mpr (.inl h)

theorem pending_mem {c : Cell τ ρ} {t : τ} {r : ρ} (h : c.pending = some (t, r)) : r ∈ c.versions :=
  mem_versions.mpr (.inr ⟨t, h⟩)

variable [DecidableEq τ] {t : τ} {c : Cell τ ρ}

@[simp] theorem read_empty : (empty : Cell τ ρ).read t = none := rfl
@[simp] theorem write_empty (p : ρ → Bool) (f : ρ → ρ) : (empty : Cell τ ρ).write t p f = empty := rfl
@[simp] theorem commit_empty : (empty : Cell τ ρ).commit t = empty := rfl
@[simp] theorem rollback_empty : (empty : Cell τ ρ).rollback t = empty := rfl

theorem mem_versions_write {p : ρ → Bool} {f : ρ → ρ} {r : ρ} (h : r ∈ (c.write t p f).versions) :
    r ∈ c.versions ∨ ∃ r₀, c.read t = some r₀ ∧ p r₀ = true ∧ r = f r₀ := by
  rcases write_cases t p f c with ⟨r₀, hread, hp, hw⟩ | ⟨-, hw⟩
  · rw [hw, mem_versions] at h
    rcases h with h | ⟨t', h⟩
    · exact .inl (committed_mem h)
    · simp only [Option.some.injEq, Prod.mk.injEq] at h
      exact .inr ⟨r₀, hread, hp, h.2.symm⟩
  · exact .inl (hw ▸ h)

theorem mem_versions_commit {r : ρ} (h : r ∈ (c.commit t).versions) : r ∈ c.versions := by
  unfold commit at h
  split at h
  · rename_i t' r' heq
    split at h
    · obtain rfl : r = r' := by simpa [versions] using h
      exact pending_mem heq
    · exact h
  · exact h

theorem mem_versions_rollback {r : ρ} (h : r ∈ (c.rollback t).versions) : r ∈ c.versions := by
  unfold rollback at h
  split at h
  · split at h
    · have hcommitted : c.committed = some r := by simpa [versions] using h
      exact committed_mem hcommitted
    · exact h
  · exact h

end Cell

section Keyed
variable (key : ρ → κ)

/-- One cell for each key. -/
structure Keyed (h : Heap τ ρ) : Prop where
  within : ∀ c ∈ h, ∀ r ∈ c.versions, ∀ r' ∈ c.versions, key r = key r'
  across : h.Pairwise fun c c' => ∀ r ∈ c.versions, ∀ r' ∈ c'.versions, key r ≠ key r'

variable {key} {h : Heap τ ρ}

theorem keyed_ofRows {rows : List ρ} (hrows : (rows.map key).Nodup) : Keyed key (ofRows rows : Heap τ ρ) where
  within := by
    intro c hc r hr r' hr'
    obtain ⟨r₀, -, rfl⟩ := List.mem_map.mp hc
    simp only [Cell.versions, Option.toList_some, Option.map_none, Option.toList_none, List.append_nil,
      List.mem_singleton] at hr hr'
    rw [hr, hr']
  across := by
    rw [ofRows, List.pairwise_map]
    refine (List.pairwise_map.mp hrows).imp fun {a b} hab r hr r' hr' => ?_
    simp only [Cell.versions, Option.toList_some, Option.map_none, Option.toList_none, List.append_nil,
      List.mem_singleton] at hr hr'
    rwa [hr, hr']

/-- An operation on cells that gives no cell a key it had not. -/
structure KeepsKeys (key : ρ → κ) (g : Cell τ ρ → Cell τ ρ) (h : Heap τ ρ) : Prop where
  keys : ∀ c ∈ h, ∀ r ∈ (g c).versions, ∃ r' ∈ c.versions, key r' = key r
  empty : g Cell.empty = Cell.empty

theorem Keyed.map (hkeyed : Keyed key h) {g : Cell τ ρ → Cell τ ρ} (hg : KeepsKeys key g h) : Keyed key (h.map g) where
  within := by
    intro c hc r hr r' hr'
    obtain ⟨c₀, hc₀, rfl⟩ := List.mem_map.mp hc
    obtain ⟨r₀, hr₀, hkey⟩ := hg.keys c₀ hc₀ r hr
    obtain ⟨r₁, hr₁, hkey'⟩ := hg.keys c₀ hc₀ r' hr'
    rw [← hkey, ← hkey']
    exact hkeyed.within c₀ hc₀ r₀ hr₀ r₁ hr₁
  across := by
    rw [List.pairwise_map]
    refine hkeyed.across.imp_of_mem fun {c c'} hc hc' hne r hr r' hr' => ?_
    obtain ⟨r₀, hr₀, hkey⟩ := hg.keys c hc r hr
    obtain ⟨r₁, hr₁, hkey'⟩ := hg.keys c' hc' r' hr'
    rw [← hkey, ← hkey']
    exact hne r₀ hr₀ r₁ hr₁

section Operations
variable [DecidableEq τ] {t : τ} {p : ρ → Bool} {f : ρ → ρ}

theorem keepsKeys_write (hf : ∀ r, key (f r) = key r) : KeepsKeys key (Cell.write t p f) h where
  keys c _ r hr := by
    rcases Cell.mem_versions_write hr with hr | ⟨r₀, hread, -, rfl⟩
    · exact ⟨r, hr, rfl⟩
    · exact ⟨r₀, Cell.read_mem_versions hread, (hf r₀).symm⟩
  empty := rfl

theorem keepsKeys_commit : KeepsKeys key (Cell.commit t) h where
  keys _ _ r hr := ⟨r, Cell.mem_versions_commit hr, rfl⟩
  empty := rfl

theorem keepsKeys_rollback : KeepsKeys key (Cell.rollback t) h where
  keys _ _ r hr := ⟨r, Cell.mem_versions_rollback hr, rfl⟩
  empty := rfl

theorem Keyed.update (hkeyed : Keyed key h) (hf : ∀ r, key (f r) = key r) : Keyed key (update t p f h) :=
  hkeyed.map (keepsKeys_write hf)

theorem Keyed.commit (hkeyed : Keyed key h) : Keyed key (commit t h) := hkeyed.map keepsKeys_commit

theorem Keyed.rollback (hkeyed : Keyed key h) : Keyed key (rollback t h) := hkeyed.map keepsKeys_rollback

end Operations

theorem Keyed.insert {t : τ} {r : ρ} (hkeyed : Keyed key h) (hr : ∀ r' ∈ versions h, key r' ≠ key r) : Keyed key
    (insert t r h) where
  within := by
    intro c hc r₁ hr₁ r₂ hr₂
    rcases List.mem_append.mp hc with hc | hc
    · exact hkeyed.within c hc r₁ hr₁ r₂ hr₂
    · obtain rfl := List.mem_singleton.mp hc
      have h₁ : r₁ = r := by simpa [Cell.versions] using hr₁
      have h₂ : r₂ = r := by simpa [Cell.versions] using hr₂
      rw [h₁, h₂]
  across := by
    refine List.pairwise_append.mpr ⟨hkeyed.across, List.pairwise_singleton _ _, fun c hc c' hc' r₁ hr₁ r₂ hr₂ => ?_⟩
    obtain rfl := List.mem_singleton.mp hc'
    have h₂ : r₂ = r := by simpa [Cell.versions] using hr₂
    rw [h₂]
    exact hr r₁ (mem_versions.mpr ⟨c, hc, hr₁⟩)

/-- A key that is ready to be taken and not in sight is nowhere. -/
theorem Keyed.absent [DecidableEq τ] (hkeyed : Keyed key h) {t : τ} {p : ρ → Bool}
    (hp : ∀ r r', key r = key r' → p r = p r') (hready : keyReady t p h = true) (hview : (view t h).any p = false) :
    ∀ r ∈ versions h, p r = false := by
  intro r hr
  obtain ⟨c, hc, hrc⟩ := mem_versions.mp hr
  cases hlocked : c.lockedByOther t with
  | true => exact keyReady_iff.mp hready c hc hlocked r hrc
  | false =>
    have hread := Cell.read_of_unlocked hlocked
    have hseen : ∃ r', c.read t = some r' := by
      rw [hread]
      rcases Cell.mem_versions.mp hrc with h | ⟨t', h⟩
      · cases hp : c.pending <;> simp [h]
      · simp [h]
    obtain ⟨r', hr'⟩ := hseen
    rw [hp r r' (hkeyed.within c hc r hrc r' (Cell.read_mem_versions hr'))]
    simpa using List.any_eq_false.mp hview r' (mem_view.mpr ⟨c, hc, hr'⟩)

end Keyed

section Cells
variable (key : ρ → κ) {h : Heap τ ρ} {k : κ} [DecidableEq κ]

/-- The cell of a key, empty when no row has it. -/
def cellOf (k : κ) (h : Heap τ ρ) : Cell τ ρ :=
  (h.find? fun c => c.versions.any fun r => key r = k).getD Cell.empty

variable {key}

theorem key_of_mem_cellOf (hkeyed : Keyed key h) {r : ρ} (hr : r ∈ (cellOf key k h).versions) : key r = k := by
  unfold cellOf at hr
  cases hfind : h.find? fun c => c.versions.any fun r => key r = k with
  | none =>
    rw [hfind] at hr
    cases hr
  | some c =>
    rw [hfind] at hr
    have hany : (c.versions.any fun r => key r = k) = true :=
      List.find?_some (p := fun c : Cell τ ρ => c.versions.any fun r => key r = k) hfind
    obtain ⟨r', hr', hkey⟩ := List.any_eq_true.mp hany
    exact (hkeyed.within c (List.mem_of_find?_eq_some hfind) r hr r' hr').trans (by simpa using hkey)

theorem cellOf_mem_or_empty (key : ρ → κ) (k : κ) (h : Heap τ ρ) :
    cellOf key k h ∈ h ∨ cellOf key k h = Cell.empty := by
  unfold cellOf
  cases hfind : h.find? fun c => c.versions.any fun r => key r = k with
  | none => exact .inr rfl
  | some c => exact .inl (List.mem_of_find?_eq_some hfind)

/-- The cell that holds a row is the one of its key. -/
theorem cellOf_eq (hkeyed : Keyed key h) {c : Cell τ ρ} (hc : c ∈ h) {r : ρ} (hr : r ∈ c.versions) :
    cellOf key (key r) h = c := by
  have hacross := hkeyed.across
  have hwithin := hkeyed.within
  clear hkeyed
  induction h with
  | nil => cases hc
  | cons c' h ih =>
    unfold cellOf at ih ⊢
    rw [List.find?_cons]
    rcases List.mem_cons.mp hc with rfl | hc
    · have hany : (c.versions.any fun r' => key r' = key r) = true := List.any_eq_true.mpr ⟨r, hr, by simp⟩
      rw [hany]
      rfl
    · have hnot : (c'.versions.any fun r' => key r' = key r) = false := by
        rw [List.any_eq_false]
        intro r' hr' heq
        exact (List.pairwise_cons.mp hacross).1 c hc r' hr' r hr (by simpa using heq)
      rw [hnot]
      exact ih hc (List.pairwise_cons.mp hacross).2 fun c hc => hwithin c (List.mem_cons_of_mem _ hc)

theorem cellOf_eq_empty (hno : ∀ r ∈ versions h, key r ≠ k) : cellOf key k h = Cell.empty := by
  have hfind : h.find? (fun c => c.versions.any fun r => key r = k) = none := by
    rw [List.find?_eq_none]
    intro c hc hany
    obtain ⟨r, hr, hkey⟩ := List.any_eq_true.mp hany
    exact hno r (mem_versions.mpr ⟨c, hc, hr⟩) (by simpa using hkey)
  rw [cellOf, hfind]
  rfl

theorem mem_versions_iff (hkeyed : Keyed key h) {r : ρ} :
    r ∈ versions h ↔ r ∈ (cellOf key (key r) h).versions := by
  constructor
  · intro hr
    obtain ⟨c, hc, hrc⟩ := mem_versions.mp hr
    rwa [cellOf_eq hkeyed hc hrc]
  · intro hr
    rcases cellOf_mem_or_empty key (key r) h with hmem | hempty
    · exact mem_versions.mpr ⟨_, hmem, hr⟩
    · rw [hempty] at hr
      cases hr

theorem mem_snapshot_iff (hkeyed : Keyed key h) {r : ρ} :
    r ∈ snapshot h ↔ (cellOf key (key r) h).committed = some r := by
  constructor
  · intro hr
    obtain ⟨c, hc, hrc⟩ := mem_snapshot.mp hr
    rwa [cellOf_eq hkeyed hc (Cell.committed_mem hrc)]
  · intro hr
    rcases cellOf_mem_or_empty key (key r) h with hmem | hempty
    · exact mem_snapshot.mpr ⟨_, hmem, hr⟩
    · rw [hempty] at hr
      cases hr

theorem mem_view_iff [DecidableEq τ] (hkeyed : Keyed key h) {t : τ} {r : ρ} :
    r ∈ view t h ↔ (cellOf key (key r) h).read t = some r := by
  constructor
  · intro hr
    obtain ⟨c, hc, hrc⟩ := mem_view.mp hr
    rwa [cellOf_eq hkeyed hc (Cell.read_mem_versions hrc)]
  · intro hr
    rcases cellOf_mem_or_empty key (key r) h with hmem | hempty
    · exact mem_view.mpr ⟨_, hmem, hr⟩
    · rw [hempty] at hr
      cases hr

/-- Such an operation acts on the cell of each key. -/
theorem cellOf_map (hkeyed : Keyed key h) {g : Cell τ ρ → Cell τ ρ} (hg : KeepsKeys key g h) (k : κ) :
    cellOf key k (h.map g) = g (cellOf key k h) := by
  have hkeyed' := hkeyed.map hg
  by_cases hver : ∃ r, r ∈ (g (cellOf key k h)).versions
  · obtain ⟨r, hr⟩ := hver
    rcases cellOf_mem_or_empty key k h with hmem | hempty
    · obtain ⟨r', hr', hkey⟩ := hg.keys _ hmem r hr
      have hk : key r = k := hkey.symm.trans (key_of_mem_cellOf hkeyed hr')
      have hcell := cellOf_eq hkeyed' (List.mem_map_of_mem hmem) hr
      rwa [hk] at hcell
    · rw [hempty, hg.empty] at hr
      cases hr
  · have hnone : g (cellOf key k h) = Cell.empty := Cell.eq_empty_of_versions fun r hr => hver ⟨r, hr⟩
    rw [hnone]
    refine cellOf_eq_empty fun r hr hk => ?_
    obtain ⟨c', hc', hrc⟩ := mem_versions.mp hr
    obtain ⟨c, hc, rfl⟩ := List.mem_map.mp hc'
    obtain ⟨r', hr', hkey⟩ := hg.keys c hc r hrc
    have hcell := cellOf_eq hkeyed hc hr'
    rw [hkey, hk] at hcell
    rw [hcell] at hnone
    rw [hnone] at hrc
    cases hrc

section Operations
variable [DecidableEq τ] {t : τ} {p : ρ → Bool} {f : ρ → ρ}

theorem cellOf_update (hkeyed : Keyed key h) (hf : ∀ r, key (f r) = key r) (k : κ) :
    cellOf key k (update t p f h) = (cellOf key k h).write t p f :=
  cellOf_map hkeyed (keepsKeys_write hf) k

theorem cellOf_commit (hkeyed : Keyed key h) (k : κ) : cellOf key k (commit t h) = (cellOf key k h).commit t :=
  cellOf_map hkeyed keepsKeys_commit k

theorem cellOf_rollback (hkeyed : Keyed key h) (k : κ) : cellOf key k (rollback t h) = (cellOf key k h).rollback t :=
  cellOf_map hkeyed keepsKeys_rollback k

end Operations

theorem cellOf_insert {t : τ} {r : ρ} (hkeyed : Keyed key h) (hr : ∀ r' ∈ versions h, key r' ≠ key r) (k : κ) :
    cellOf key k (insert t r h) = if key r = k then ⟨none, some (t, r)⟩ else cellOf key k h := by
  have hkeyed' := hkeyed.insert (t := t) hr
  split
  · rename_i hk
    have hcell := cellOf_eq hkeyed' (c := ⟨none, some (t, r)⟩) (r := r) (List.mem_append_right _ (by simp))
      (Cell.pending_mem rfl)
    rwa [hk] at hcell
  · rename_i hk
    by_cases hver : ∃ r', r' ∈ (cellOf key k h).versions
    · obtain ⟨r', hr'⟩ := hver
      have hkey := key_of_mem_cellOf hkeyed hr'
      rcases cellOf_mem_or_empty key k h with hmem | hempty
      · have hcell := cellOf_eq hkeyed' (List.mem_append_left _ hmem) hr'
        rwa [hkey] at hcell
      · rw [hempty] at hr'
        cases hr'
    · have hempty : cellOf key k h = Cell.empty := Cell.eq_empty_of_versions fun r' hr' => hver ⟨r', hr'⟩
      rw [hempty]
      refine cellOf_eq_empty fun r' hr' hkey => ?_
      rcases mem_versions_insert.mp hr' with hr' | rfl
      · rw [mem_versions_iff hkeyed, hkey] at hr'
        exact hver ⟨r', hr'⟩
      · exact hk hkey

omit [DecidableEq κ] in
/-- Keys are unique among the rows that a transaction sees. -/
theorem nodup_view [DecidableEq τ] {t : τ} (hkeyed : Keyed key h) : ((view t h).map key).Nodup := by
  rw [List.Nodup, List.pairwise_map, view, List.pairwise_filterMap]
  exact hkeyed.across.imp fun hne r hr r' hr' => hne r (Cell.read_mem_versions hr) r' (Cell.read_mem_versions hr')

end Cells
end RowStore
