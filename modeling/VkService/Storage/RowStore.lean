import Mathlib.Data.List.Basic

/-! Rows under read committed. A cell holds the committed version of a row and the version
an open transaction has written; writing a version is holding the row's lock. -/
namespace RowStore
variable {τ ρ κ : Type}

structure Cell (τ ρ : Type) where
  committed : Option ρ
  pending : Option (τ × ρ)

abbrev Heap (τ ρ : Type) := List (Cell τ ρ)

namespace Cell

def versions (c : Cell τ ρ) : List ρ :=
  c.committed.toList ++ (c.pending.map Prod.snd).toList

variable [DecidableEq τ]

/-- A transaction sees its own version, every other transaction the committed one. -/
def read (t : τ) (c : Cell τ ρ) : Option ρ :=
  match c.pending with
  | some (t', r) => if t' = t then some r else c.committed
  | none => c.committed

def lockedByOther (t : τ) (c : Cell τ ρ) : Bool :=
  match c.pending with
  | some (t', _) => t' ≠ t
  | none => false

/-- The effect of an UPDATE on one row: the WHERE clause is checked on what `t` sees. -/
def write (t : τ) (p : ρ → Bool) (f : ρ → ρ) (c : Cell τ ρ) : Cell τ ρ :=
  match c.read t with
  | some r => if p r then { c with pending := some (t, f r) } else c
  | none => c

def commit (t : τ) (c : Cell τ ρ) : Cell τ ρ :=
  match c.pending with
  | some (t', r) => if t' = t then ⟨some r, none⟩ else c
  | none => c

def rollback (t : τ) (c : Cell τ ρ) : Cell τ ρ :=
  match c.pending with
  | some (t', _) => if t' = t then ⟨c.committed, none⟩ else c
  | none => c

end Cell

/-- The committed rows. -/
def snapshot (h : Heap τ ρ) : List ρ := h.filterMap Cell.committed

def versions (h : Heap τ ρ) : List ρ := h.flatMap Cell.versions

/-- Cells made of committed rows only. -/
def ofRows (rows : List ρ) : Heap τ ρ := rows.map fun r => ⟨some r, none⟩

section Transactions
variable [DecidableEq τ]

/-- The rows transaction `t` sees. -/
def view (t : τ) (h : Heap τ ρ) : List ρ := h.filterMap (Cell.read t)

def insert (t : τ) (r : ρ) (h : Heap τ ρ) : Heap τ ρ := h ++ [⟨none, some (t, r)⟩]

def update (t : τ) (p : ρ → Bool) (f : ρ → ρ) (h : Heap τ ρ) : Heap τ ρ := h.map (Cell.write t p f)

def commit (t : τ) (h : Heap τ ρ) : Heap τ ρ := h.map (Cell.commit t)

def rollback (t : τ) (h : Heap τ ρ) : Heap τ ρ := h.map (Cell.rollback t)

/-- No row an UPDATE selects is locked by another transaction. -/
def rowsReady (t : τ) (p : ρ → Bool) (h : Heap τ ρ) : Bool :=
  h.all fun c => !((c.read t).any p && c.lockedByOther t)

/-- No row that another transaction is writing could collide with a new key. -/
def keyReady (t : τ) (p : ρ → Bool) (h : Heap τ ρ) : Bool :=
  h.all fun c => !(c.versions.any p && c.lockedByOther t)

end Transactions

namespace Cell

theorem mem_versions {c : Cell τ ρ} {r : ρ} :
    r ∈ c.versions ↔ c.committed = some r ∨ ∃ t, c.pending = some (t, r) := by
  simp [versions]

variable [DecidableEq τ] {t t' : τ} {p : ρ → Bool} {f : ρ → ρ} {c : Cell τ ρ} {r : ρ}

theorem read_mem_versions (h : c.read t = some r) : r ∈ c.versions := by
  rw [mem_versions]
  unfold read at h
  split at h
  · rename_i t' r' hp
    split at h
    · cases h
      exact .inr ⟨_, hp⟩
    · exact .inl h
  · exact .inl h

theorem read_of_unlocked (h : c.lockedByOther t = false) :
    c.read t = ((c.pending.map Prod.snd).or c.committed) := by
  unfold lockedByOther at h
  unfold read
  split at h
  · rename_i t' r' hp
    simp_all
  · simp_all

/-- What an UPDATE does to one row, by cases. -/
theorem write_cases (t : τ) (p : ρ → Bool) (f : ρ → ρ) (c : Cell τ ρ) :
    (∃ r, c.read t = some r ∧ p r = true ∧ c.write t p f = { c with pending := some (t, f r) }) ∨
      ((∀ r, c.read t = some r → p r = false) ∧ c.write t p f = c) := by
  unfold write
  cases hr : c.read t with
  | none => exact .inr ⟨by simp, rfl⟩
  | some r =>
    cases hp : p r with
    | true => exact .inl ⟨r, rfl, hp, by simp [hp]⟩
    | false => exact .inr ⟨by simpa using hp, by simp [hp]⟩

@[simp] theorem write_committed : (c.write t p f).committed = c.committed := by
  rcases write_cases t p f c with ⟨r, -, -, h⟩ | ⟨-, h⟩ <;> rw [h]

theorem committed_commit : (c.commit t).committed = c.read t := by
  unfold commit read
  split
  · rename_i t₀ r₀ heq
    by_cases ht : t₀ = t <;> simp [ht]
  · rfl

@[simp] theorem committed_rollback : (c.rollback t).committed = c.committed := by
  unfold rollback
  split
  · split <;> rfl
  · rfl

theorem read_rollback_self : (c.rollback t).read t = c.committed := by
  unfold rollback
  split
  · rename_i t₀ r₀ heq
    by_cases ht : t₀ = t
    · simp [ht, read]
    · simp [ht, read, heq]
  · rename_i heq
    simp [read, heq]

theorem read_rollback_ne (hne : t' ≠ t) : (c.rollback t).read t' = c.read t' := by
  unfold rollback
  split
  · rename_i t₀ r₀ heq
    by_cases ht : t₀ = t
    · simp [ht, read, heq, Ne.symm hne]
    · simp [ht]
  · rfl

end Cell

section Rows
variable {t : τ} {h : Heap τ ρ} {r : ρ}

theorem mem_snapshot : r ∈ snapshot h ↔ ∃ c ∈ h, c.committed = some r := by
  simp [snapshot, List.mem_filterMap]

theorem mem_versions : r ∈ versions h ↔ ∃ c ∈ h, r ∈ c.versions := by
  simp [versions, List.mem_flatMap]

@[simp] theorem snapshot_insert : snapshot (insert t r h) = snapshot h := by
  simp [snapshot, insert]

@[simp] theorem snapshot_ofRows (rows : List ρ) : snapshot (ofRows rows : Heap τ ρ) = rows := by
  simp [snapshot, ofRows, List.filterMap_map]

theorem mem_versions_insert {r' : ρ} : r' ∈ versions (insert t r h) ↔ r' ∈ versions h ∨ r' = r := by
  simp [versions, insert, Cell.versions]

end Rows

section Transactions
variable [DecidableEq τ] {t t' : τ} {p : ρ → Bool} {f : ρ → ρ} {h : Heap τ ρ} {r : ρ}

theorem mem_view : r ∈ view t h ↔ ∃ c ∈ h, c.read t = some r := by
  simp [view, List.mem_filterMap]

theorem versions_of_view (hr : r ∈ view t h) : r ∈ versions h := by
  obtain ⟨c, hc, hread⟩ := mem_view.mp hr
  exact mem_versions.mpr ⟨c, hc, Cell.read_mem_versions hread⟩

theorem rowsReady_iff : rowsReady t p h = true ↔
    ∀ c ∈ h, (c.read t).any p = false ∨ c.lockedByOther t = false := by
  simp only [rowsReady, List.all_eq_true, Bool.not_eq_eq_eq_not, Bool.not_true, Bool.and_eq_false_iff]

theorem keyReady_iff : keyReady t p h = true ↔
    ∀ c ∈ h, c.lockedByOther t = true → ∀ r ∈ c.versions, p r = false := by
  simp only [keyReady, List.all_eq_true, Bool.not_eq_eq_eq_not, Bool.not_true, Bool.and_eq_false_iff]
  constructor
  · intro hall c hc hl r hr
    rcases hall c hc with hn | hn
    · simpa using List.any_eq_false.mp hn r hr
    · simp [hl] at hn
  · intro hall c hc
    cases hl : c.lockedByOther t with
    | false => exact .inr rfl
    | true => exact .inl (List.any_eq_false.mpr fun r hr => by simp [hall c hc hl r hr])

@[simp] theorem snapshot_commit : snapshot (commit t h) = view t h := by
  rw [snapshot, commit, List.filterMap_map]
  exact List.filterMap_congr fun c _ => Cell.committed_commit

@[simp] theorem snapshot_rollback : snapshot (rollback t h) = snapshot h := by
  rw [snapshot, rollback, List.filterMap_map]
  exact List.filterMap_congr fun c _ => Cell.committed_rollback

@[simp] theorem view_rollback_self : view t (rollback t h) = snapshot h := by
  rw [view, rollback, List.filterMap_map]
  exact List.filterMap_congr fun c _ => Cell.read_rollback_self

/-- A version that transaction `t` has written and not committed. -/
def Held (t : τ) (r : ρ) (h : Heap τ ρ) : Prop := ∃ c ∈ h, c.pending = some (t, r)

section Held
variable {r' : ρ}

omit [DecidableEq τ] in
theorem Held.of_insert (hheld : Held t' r' (insert t r h)) : Held t' r' h ∨ t' = t ∧ r' = r := by
  obtain ⟨c, hc, hpending⟩ := hheld
  rcases List.mem_append.mp hc with hc | hc
  · exact .inl ⟨c, hc, hpending⟩
  · obtain rfl := List.mem_singleton.mp hc
    obtain ⟨rfl, rfl⟩ := Prod.mk.inj (Option.some.inj hpending)
    exact .inr ⟨rfl, rfl⟩

theorem Held.of_update (hheld : Held t' r' (update t p f h)) :
    Held t' r' h ∨ t' = t ∧ ∃ r ∈ view t h, p r = true ∧ r' = f r := by
  obtain ⟨c', hc', hpending⟩ := hheld
  obtain ⟨c, hc, rfl⟩ := List.mem_map.mp hc'
  rcases Cell.write_cases t p f c with ⟨r, hread, hp, hw⟩ | ⟨-, hw⟩
  · rw [hw] at hpending
    obtain ⟨rfl, rfl⟩ := Prod.mk.inj (Option.some.inj hpending)
    exact .inr ⟨rfl, r, mem_view.mpr ⟨c, hc, hread⟩, hp, rfl⟩
  · exact .inl ⟨c, hc, hw ▸ hpending⟩

theorem Held.of_commit (hheld : Held t' r' (commit t h)) : Held t' r' h ∧ t' ≠ t := by
  obtain ⟨c', hc', hpending⟩ := hheld
  obtain ⟨c, hc, rfl⟩ := List.mem_map.mp hc'
  unfold Cell.commit at hpending
  split at hpending
  · rename_i t₀ r₀ heq
    split at hpending
    · cases hpending
    · rename_i hne
      rw [heq] at hpending
      obtain ⟨rfl, rfl⟩ := Prod.mk.inj (Option.some.inj hpending)
      exact ⟨⟨c, hc, heq⟩, hne⟩
  · rename_i heq
    rw [heq] at hpending
    cases hpending

theorem Held.of_rollback (hheld : Held t' r' (rollback t h)) : Held t' r' h ∧ t' ≠ t := by
  obtain ⟨c', hc', hpending⟩ := hheld
  obtain ⟨c, hc, rfl⟩ := List.mem_map.mp hc'
  unfold Cell.rollback at hpending
  split at hpending
  · rename_i t₀ r₀ heq
    split at hpending
    · cases hpending
    · rename_i hne
      rw [heq] at hpending
      obtain ⟨rfl, rfl⟩ := Prod.mk.inj (Option.some.inj hpending)
      exact ⟨⟨c, hc, heq⟩, hne⟩
  · rename_i heq
    rw [heq] at hpending
    cases hpending

end Held

end Transactions

section Waiting
variable {t t' : τ} {p : ρ → Bool} {h : Heap τ ρ}

/-- A new key waits for a version, written by `t'`, that could collide with it. -/
def KeyBlocked (t' : τ) (p : ρ → Bool) (h : Heap τ ρ) : Prop :=
  ∃ c ∈ h, c.versions.any p = true ∧ ∃ r, c.pending = some (t', r)

theorem KeyBlocked.held (hblocked : KeyBlocked t' p h) : ∃ r, Held t' r h := by
  obtain ⟨c, hc, -, r, hp⟩ := hblocked
  exact ⟨r, c, hc, hp⟩

variable [DecidableEq τ]

/-- An UPDATE of `t` waits for a row that `t'` has written. -/
def RowBlocked (t t' : τ) (p : ρ → Bool) (h : Heap τ ρ) : Prop :=
  ∃ c ∈ h, (c.read t).any p = true ∧ ∃ r, c.pending = some (t', r)

theorem RowBlocked.held (hblocked : RowBlocked t t' p h) : ∃ r, Held t' r h := by
  obtain ⟨c, hc, -, r, hp⟩ := hblocked
  exact ⟨r, c, hc, hp⟩

theorem Cell.lockedByOther_iff {c : Cell τ ρ} : c.lockedByOther t = true ↔ ∃ t' ≠ t, ∃ r, c.pending = some (t', r) := by
  unfold Cell.lockedByOther
  cases hp : c.pending with
  | none => simp
  | some v =>
    obtain ⟨t', r⟩ := v
    simp

/-- A statement waits when another transaction is in its way. -/
theorem rowsReady_eq_false : rowsReady t p h = false ↔ ∃ t' ≠ t, RowBlocked t t' p h := by
  simp only [rowsReady, List.all_eq_false, Bool.not_eq_true, Bool.not_eq_false', Bool.and_eq_true,
    Cell.lockedByOther_iff, RowBlocked]
  constructor
  · rintro ⟨c, hc, hread, t', hne, hp⟩
    exact ⟨t', hne, c, hc, hread, hp⟩
  · rintro ⟨t', hne, c, hc, hread, hp⟩
    exact ⟨c, hc, hread, t', hne, hp⟩

theorem keyReady_eq_false : keyReady t p h = false ↔ ∃ t' ≠ t, KeyBlocked t' p h := by
  simp only [keyReady, List.all_eq_false, Bool.not_eq_true, Bool.not_eq_false', Bool.and_eq_true,
    Cell.lockedByOther_iff, KeyBlocked]
  constructor
  · rintro ⟨c, hc, hkey, t', hne, hp⟩
    exact ⟨t', hne, c, hc, hkey, hp⟩
  · rintro ⟨t', hne, c, hc, hkey, hp⟩
    exact ⟨c, hc, hkey, t', hne, hp⟩

end Waiting
end RowStore
