import VkService.Storage.RowStore

/-! A table that is only appended to. Each of its rows is committed or held by the transaction
that has inserted it, so a commit adds the rows of its transaction to the others. -/
namespace RowStore
variable {τ ρ : Type} {h : Heap τ ρ} {t t' : τ} {r r' : ρ}

/-- No committed row is written a second time. -/
def Appended (h : Heap τ ρ) : Prop := ∀ c ∈ h, c.committed = none ∨ c.pending = none

theorem appended_ofRows (rows : List ρ) : Appended (ofRows rows : Heap τ ρ) := by
  intro c hc
  obtain ⟨r, -, rfl⟩ := List.mem_map.mp hc
  exact .inr rfl

theorem Appended.insert (happ : Appended h) : Appended (insert t r h) := by
  intro c hc
  rcases List.mem_append.mp hc with hc | hc
  · exact happ c hc
  · rw [List.mem_singleton.mp hc]
    exact .inl rfl

theorem Held.insert (hheld : Held t r h) : Held t r (insert t' r' h) := by
  obtain ⟨c, hc, hp⟩ := hheld
  exact ⟨c, List.mem_append_left _ hc, hp⟩

theorem held_insert_self : Held t r (insert t r h) := ⟨_, List.mem_append_right _ (List.mem_singleton_self _), rfl⟩

variable [DecidableEq τ]

theorem Appended.commit (happ : Appended h) : Appended (commit t h) := by
  intro c' hc'
  obtain ⟨c, hc, rfl⟩ := List.mem_map.mp hc'
  unfold Cell.commit
  split
  · split
    · exact .inr rfl
    · exact happ c hc
  · exact happ c hc

theorem Appended.rollback (happ : Appended h) : Appended (rollback t h) := by
  intro c' hc'
  obtain ⟨c, hc, rfl⟩ := List.mem_map.mp hc'
  unfold Cell.rollback
  split
  · split
    · exact .inr rfl
    · exact happ c hc
  · exact happ c hc

theorem Held.commit (hheld : Held t r h) (hne : t ≠ t') : Held t r (commit t' h) := by
  obtain ⟨c, hc, hp⟩ := hheld
  exact ⟨_, List.mem_map_of_mem hc, by simp [Cell.commit, hp, hne]⟩

theorem Held.rollback (hheld : Held t r h) (hne : t ≠ t') : Held t r (rollback t' h) := by
  obtain ⟨c, hc, hp⟩ := hheld
  exact ⟨_, List.mem_map_of_mem hc, by simp [Cell.rollback, hp, hne]⟩

/-- Every transaction sees the committed rows. -/
theorem Appended.snapshot_sublist_view (happ : Appended h) (t : τ) : (snapshot h).Sublist (view t h) := by
  induction h with
  | nil => exact .slnil
  | cons c h ih =>
    have ih := ih fun c' hc' => happ c' (List.mem_cons_of_mem _ hc')
    simp only [snapshot, view, List.filterMap_cons] at ih ⊢
    rcases happ c List.mem_cons_self with hc | hp
    · rw [hc]
      cases c.read t with
      | none => exact ih
      | some r => exact ih.cons r
    · rw [Cell.read, hp]
      cases c.committed with
      | none => exact ih
      | some r => exact ih.cons_cons r

/-- A commit adds at least the row that its transaction holds. -/
theorem Appended.countP_lt_commit (happ : Appended h) (hheld : Held t r h) {p : ρ → Bool} (hp : p r = true) :
    (snapshot h).countP p < (snapshot (RowStore.commit t h)).countP p := by
  obtain ⟨c, hc, hpending⟩ := hheld
  have hnone : c.committed = none := (happ c hc).resolve_right (by simp [hpending])
  have hread : c.read t = some r := by simp [Cell.read, hpending]
  obtain ⟨before, after, rfl⟩ := List.append_of_mem hc
  have hbefore := (Appended.snapshot_sublist_view (h := before) (fun c' hc' => happ c' (by simp [hc'])) t).countP_le
    (p := p)
  have hafter := (Appended.snapshot_sublist_view (h := after) (fun c' hc' => happ c' (by simp [hc'])) t).countP_le
    (p := p)
  rw [snapshot_commit]
  simp only [snapshot, view, List.filterMap_append, List.filterMap_cons, hnone, hread, List.countP_append,
    List.countP_cons, hp, ↓reduceIte] at hbefore hafter ⊢
  omega

/-- The rows that a transaction has inserted and not committed yet. -/
def Cell.heldBy (t : τ) (c : Cell τ ρ) : Option ρ := c.pending.bind fun p => if p.1 = t then some p.2 else none

def heldRows (t : τ) (h : Heap τ ρ) : List ρ := h.filterMap (Cell.heldBy t)

theorem heldRows_ofRows (rows : List ρ) : heldRows t (ofRows rows) = [] := by
  refine List.filterMap_eq_nil_iff.mpr fun c hc => ?_
  obtain ⟨r, -, rfl⟩ := List.mem_map.mp hc
  rfl

theorem heldRows_insert_self : heldRows t (insert t r h) = heldRows t h ++ [r] := by
  simp [heldRows, insert, Cell.heldBy]

theorem heldRows_insert_ne (hne : t' ≠ t) : heldRows t (insert t' r h) = heldRows t h := by
  simp [heldRows, insert, Cell.heldBy, hne]

private theorem heldBy_commit_self (c : Cell τ ρ) : (c.commit t).heldBy t = none := by
  obtain ⟨committed, _ | ⟨t', r⟩⟩ := c
  · rfl
  · by_cases ht : t' = t <;> simp [Cell.commit, Cell.heldBy, ht]

private theorem heldBy_commit_ne (hne : t ≠ t') (c : Cell τ ρ) : (c.commit t').heldBy t = c.heldBy t := by
  obtain ⟨committed, _ | ⟨u, r⟩⟩ := c
  · rfl
  · by_cases ht : u = t'
    · subst ht
      simp [Cell.commit, Cell.heldBy, hne.symm]
    · simp [Cell.commit, ht]

private theorem heldBy_rollback_self (c : Cell τ ρ) : (c.rollback t).heldBy t = none := by
  obtain ⟨committed, _ | ⟨t', r⟩⟩ := c
  · rfl
  · by_cases ht : t' = t <;> simp [Cell.rollback, Cell.heldBy, ht]

private theorem heldBy_rollback_ne (hne : t ≠ t') (c : Cell τ ρ) : (c.rollback t').heldBy t = c.heldBy t := by
  obtain ⟨committed, _ | ⟨u, r⟩⟩ := c
  · rfl
  · by_cases ht : u = t'
    · subst ht
      simp [Cell.rollback, Cell.heldBy, hne.symm]
    · simp [Cell.rollback, ht]

theorem heldRows_commit_self : heldRows t (RowStore.commit t h) = [] := by
  refine List.filterMap_eq_nil_iff.mpr fun c' hc' => ?_
  obtain ⟨c, -, rfl⟩ := List.mem_map.mp hc'
  exact heldBy_commit_self c

theorem heldRows_commit_ne (hne : t ≠ t') : heldRows t (RowStore.commit t' h) = heldRows t h := by
  simp only [heldRows, RowStore.commit, List.filterMap_map]
  exact List.filterMap_congr fun c _ => heldBy_commit_ne hne c

theorem heldRows_rollback_self : heldRows t (RowStore.rollback t h) = [] := by
  refine List.filterMap_eq_nil_iff.mpr fun c' hc' => ?_
  obtain ⟨c, -, rfl⟩ := List.mem_map.mp hc'
  exact heldBy_rollback_self c

theorem heldRows_rollback_ne (hne : t ≠ t') : heldRows t (RowStore.rollback t' h) = heldRows t h := by
  simp only [heldRows, RowStore.rollback, List.filterMap_map]
  exact List.filterMap_congr fun c _ => heldBy_rollback_ne hne c

/-- A commit adds exactly the rows of its transaction. -/
theorem Appended.snapshot_commit_perm (happ : Appended h) (t : τ) :
    (snapshot (RowStore.commit t h)).Perm (snapshot h ++ heldRows t h) := by
  rw [snapshot_commit]
  induction h with
  | nil => exact .nil
  | cons c h ih =>
    have ih := ih fun c' hc' => happ c' (List.mem_cons_of_mem _ hc')
    have hc := happ c List.mem_cons_self
    obtain ⟨committed, _ | ⟨t', r⟩⟩ := c
    · cases committed with
      | none => exact ih
      | some r => exact ih.cons r
    · obtain rfl : committed = none := hc.resolve_right nofun
      by_cases ht : t' = t
      · have hread : Cell.read t (⟨none, some (t', r)⟩ : Cell τ ρ) = some r := if_pos ht
        have hheld : Cell.heldBy t (⟨none, some (t', r)⟩ : Cell τ ρ) = some r := if_pos ht
        simp only [view, snapshot, heldRows, List.filterMap_cons, hread, hheld] at ih ⊢
        exact (ih.cons r).trans List.perm_middle.symm
      · have hread : Cell.read t (⟨none, some (t', r)⟩ : Cell τ ρ) = none := if_neg ht
        have hheld : Cell.heldBy t (⟨none, some (t', r)⟩ : Cell τ ρ) = none := if_neg ht
        simp only [view, snapshot, heldRows, List.filterMap_cons, hread, hheld] at ih ⊢
        exact ih

end RowStore
