import Mathlib.Data.ENat.Lattice
import Mathlib.Order.CompletePartialOrder

/-! Retrying in rounds: a task is tried once in every round until its first success, and
rounds are repeated until all tasks have succeeded or a bound is reached. -/
namespace Retry
variable {s : ℕ → Bool} {n : ℕ}

/-- One of the first `n` tries of the task succeeds. -/
def succeeded (s : ℕ → Bool) (n : ℕ) : Bool := (List.range n).any s

/-- How often the task is tried in `n` rounds. -/
def tries (s : ℕ → Bool) : ℕ → ℕ
  | 0 => 0
  | n + 1 => if succeeded s n then tries s n else tries s n + 1

/-- The position of the first success, counted from one. -/
noncomputable def firstSuccess (s : ℕ → Bool) : ℕ∞ := ⨅ (n : ℕ) (_ : s n = true), ((n + 1 : ℕ) : ℕ∞)

@[simp] theorem succeeded_zero : succeeded s 0 = false := rfl

theorem succeeded_succ : succeeded s (n + 1) = (succeeded s n || s n) := by
  simp [succeeded, List.range_succ]

theorem succeeded_iff : succeeded s n = true ↔ ∃ m < n, s m = true := by
  simp [succeeded]

theorem tries_of_open (h : succeeded s n = false) : tries s n = n := by
  induction n with
  | zero => rfl
  | succ n ih =>
    rw [succeeded_succ, Bool.or_eq_false_iff] at h
    rw [tries, h.1, ih h.1]
    rfl

theorem firstSuccess_le_iff : firstSuccess s ≤ (n : ℕ∞) ↔ succeeded s n = true := by
  rw [succeeded_iff]
  constructor
  · intro h
    by_contra hnone
    have hlt : ((n + 1 : ℕ) : ℕ∞) ≤ firstSuccess s := by
      refine le_iInf fun m => le_iInf fun hm => ?_
      have : n ≤ m := not_lt.mp fun hlt => hnone ⟨m, hlt, hm⟩
      exact_mod_cast Nat.succ_le_succ this
    have : ((n + 1 : ℕ) : ℕ∞) ≤ (n : ℕ∞) := hlt.trans h
    have : n + 1 ≤ n := by exact_mod_cast this
    omega
  · rintro ⟨m, hlt, hm⟩
    refine (iInf₂_le m hm).trans ?_
    exact_mod_cast hlt

/-- After its first success the task is not tried again. -/
theorem tries_of_first {k : ℕ} (hopen : succeeded s k = false) (hk : s k = true) (h : k < n) : tries s n = k + 1 := by
  induction n, h using Nat.le_induction with
  | base => rw [tries, hopen, tries_of_open hopen]; rfl
  | succ n hn ih => rw [tries, if_pos (succeeded_iff.mpr ⟨k, hn, hk⟩), ih]

/-- The task is tried up to its first success. -/
theorem coe_tries : (tries s n : ℕ∞) = min (firstSuccess s) n := by
  induction n with
  | zero => simp [tries]
  | succ n ih =>
    rw [tries]
    cases h : succeeded s n with
    | true =>
      have hle := firstSuccess_le_iff.mpr h
      rw [min_eq_left hle] at ih
      rw [min_eq_left (hle.trans (by exact_mod_cast Nat.le_succ n))]
      exact ih
    | false =>
      have hlt : (n : ℕ∞) < firstSuccess s := by
        rw [← not_le, firstSuccess_le_iff, h]
        simp
      rw [tries_of_open h, min_eq_right (by simpa using Order.add_one_le_of_lt hlt)]
      rfl

/-- `N` rounds were made: at least one, at most `D`, and none after everything was done. -/
structure Stops (done : ℕ → Prop) (D N : ℕ) : Prop where
  pos : 1 ≤ N
  le : N ≤ D
  last : N = D ∨ done N
  first : ∀ m, 1 ≤ m → m < N → ¬ done m

namespace Stops
variable {done : ℕ → Prop} {D N : ℕ} {K k : ℕ∞}

/-- The number of rounds is determined by what is done. -/
theorem unique {M : ℕ} (h : Stops done D N) (h' : Stops done D M) : N = M := by
  have hle : ∀ {N M : ℕ}, Stops done D N → Stops done D M → N ≤ M := by
    intro N M h h'
    by_contra hlt
    have hbefore : M < N := not_le.mp hlt
    rcases h'.last with rfl | hdone
    · exact hlt h.le
    · exact h.first M h'.pos hbefore hdone
  exact le_antisymm (hle h h') (hle h' h)

/-- The number of rounds, when everything is done from round `K` on. -/
theorem rounds_eq (h : Stops done D N) (hK : ∀ n : ℕ, done n ↔ K ≤ n) : (N : ℕ∞) = min (D : ℕ∞) (max 1 K) := by
  refine le_antisymm (le_min (by exact_mod_cast h.le) ?_) ?_
  · by_contra hlt
    obtain ⟨hone, hK'⟩ := max_lt_iff.mp (not_le.mp hlt)
    obtain ⟨m, rfl⟩ : ∃ m : ℕ, K = m := ⟨_, (ENat.natCast_toNat hK'.ne_top).symm⟩
    have hone : 1 < N := by exact_mod_cast hone
    have hm : m < N := by exact_mod_cast hK'
    refine h.first (N - 1) (by omega) (by omega) ((hK _).mpr ?_)
    exact_mod_cast Nat.le_sub_one_of_lt hm
  · rcases h.last with rfl | hdone
    · exact min_le_left _ _
    · exact (min_le_right _ _).trans (max_le (by exact_mod_cast h.pos) ((hK N).mp hdone))

/-- A task is tried as often as `D` rounds would try it. -/
theorem min_eq (h : Stops done D N) (hK : ∀ n : ℕ, done n ↔ K ≤ n) (hk : k ≤ K) :
    min k (N : ℕ∞) = min k (D : ℕ∞) := by
  rcases h.last with rfl | hdone
  · rfl
  · have hN := hk.trans ((hK N).mp hdone)
    rw [min_eq_left hN, min_eq_left (hN.trans (by exact_mod_cast h.le))]

/-- A task has succeeded when `D` rounds would have let it. -/
theorem le_iff (h : Stops done D N) (hK : ∀ n : ℕ, done n ↔ K ≤ n) (hk : k ≤ K) :
    k ≤ (N : ℕ∞) ↔ k ≤ (D : ℕ∞) := by
  rw [← min_eq_left_iff, h.min_eq hK hk, min_eq_left_iff]

end Stops
end Retry
