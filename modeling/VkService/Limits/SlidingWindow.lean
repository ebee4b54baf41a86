import Mathlib.Algebra.Group.Hom.Basic
import Mathlib.Algebra.Order.Group.Defs
import Mathlib.Algebra.Order.Monoid.Defs
import Mathlib.Data.Finset.Card
import Mathlib.Data.List.Induction
import Mathlib.Tactic.Linarith

/-! Limiting by counting: an event is let through when fewer than `M` earlier stamps lie in
the window before it. Then no window, wherever it begins, holds more than `M` stamps. -/
namespace SlidingWindow

/-- An event with the clock reading of its check and the time it is recorded at. -/
structure Stamped (τ : Type) where
  checked : τ
  stamp : τ

variable {τ : Type} [AddCommGroup τ] [LinearOrder τ]

/-- Events in the order of their checks, each let through by the counting rule. -/
def LetThrough (W : τ) (M : Nat) (events : List (Stamped τ)) : Prop :=
  ∀ earlier e later, events = earlier ++ e :: later →
    earlier.countP (fun e' => e.checked - W ≤ e'.stamp) < M

theorem LetThrough.init {W : τ} {M : Nat} {events : List (Stamped τ)} {e : Stamped τ}
    (h : LetThrough W M (events ++ [e])) : LetThrough W M events := by
  intro earlier e' later heq
  exact h earlier e' (later ++ [e]) (by simp [heq])

section Map
variable {τ' : Type} [AddCommGroup τ'] [LinearOrder τ']

/-- The same event on another time line. -/
def Stamped.map (f : τ → τ') (e : Stamped τ) : Stamped τ' := ⟨f e.checked, f e.stamp⟩

/-- The rule does not depend on the time line that stamps and window are read on. -/
theorem LetThrough.map {W : τ} {M : Nat} {events : List (Stamped τ)} (h : LetThrough W M events) (f : τ →+ τ')
    (hf : ∀ a b, f a ≤ f b ↔ a ≤ b) : LetThrough (f W) M (events.map (Stamped.map f)) := by
  intro earlier e later heq
  obtain ⟨first, rest, rfl, rfl, hrest⟩ := List.map_eq_append_iff.mp heq
  obtain ⟨e', later', rfl, rfl, rfl⟩ := List.map_eq_cons_iff.mp hrest
  have hcount := h first e' later' rfl
  rw [List.countP_map]
  refine lt_of_le_of_lt (List.countP_mono_left fun e'' _ hin => ?_) hcount
  simpa [Stamped.map, ← map_sub, hf] using hin

end Map

/-- No window of length `W` holds more than `M` events recorded at or after their checks. -/
theorem LetThrough.window_le [IsOrderedAddMonoid τ] {W : τ} {M : Nat} {events : List (Stamped τ)}
    (h : LetThrough W M events) (hstamp : ∀ e ∈ events, e.checked ≤ e.stamp) (s : τ) :
    events.countP (fun e => s ≤ e.stamp ∧ e.stamp ≤ s + W) ≤ M := by
  induction events using List.reverseRecOn with
  | nil => simp
  | append_singleton events e ih =>
    have hinit := ih h.init fun e' he' => hstamp e' (List.mem_append_left _ he')
    rw [List.countP_append, List.countP_singleton]
    by_cases hin : s ≤ e.stamp ∧ e.stamp ≤ s + W
    · -- what lies in this window also lies in the window the last event was checked against
      have hlast := h events e [] (by simp)
      have hsub : events.countP (fun e' => s ≤ e'.stamp ∧ e'.stamp ≤ s + W) ≤
          events.countP (fun e' => e.checked - W ≤ e'.stamp) := by
        refine List.countP_mono_left fun e' _ he' => ?_
        have hwithin : s ≤ e'.stamp ∧ e'.stamp ≤ s + W := by simpa using he'
        have hchecked := hstamp e (by simp)
        have hstart : e.checked - W ≤ s := sub_le_iff_le_add.mpr (hchecked.trans hin.2)
        simpa using hstart.trans hwithin.1
      simp only [hin, and_self, decide_true, ↓reduceIte]
      omega
    · simpa [hin] using hinit

section Overlapping
variable {ι χ : Type} [DecidableEq ι] {M : Nat} {admitted admitted' recent recent' : ι → χ → Prop} {i : ι}

/-- Attempts that may overlap: `admitted i x` when `i` was let through by a check `x`, and
`recent j x` while `j` may still turn out to lie in the window of that check. The last one let
through has found fewer than `M` others. -/
def Overlapping (M : Nat) (admitted recent : ι → χ → Prop) : Prop :=
  ∀ ts : Finset ι, ts.Nonempty → (∀ i ∈ ts, ∃ x, admitted i x) →
    ∃ i ∈ ts, ∃ x, admitted i x ∧ ∀ us ⊆ ts.erase i, (∀ j ∈ us, recent j x) → us.card < M

theorem overlapping_start (hnone : ∀ i x, ¬ admitted i x) : Overlapping M admitted recent := by
  rintro ts ⟨i, hi⟩ hts
  obtain ⟨x, hx⟩ := hts i hi
  exact absurd hx (hnone i x)

/-- Nobody is let through, and some attempts come to their end. -/
theorem Overlapping.step (h : Overlapping M admitted recent) (hadmitted : ∀ i x, admitted' i x ↔ admitted i x)
    (hrecent : ∀ i x, (∃ y, admitted i y) → recent' i x → recent i x) : Overlapping M admitted' recent' := by
  intro ts hne hts
  have hold : ∀ i ∈ ts, ∃ x, admitted i x := fun i hi => (hts i hi).imp fun x => (hadmitted i x).mp
  obtain ⟨i, hi, x, hx, hfew⟩ := h ts hne hold
  exact ⟨i, hi, x, (hadmitted i x).mpr hx, fun us hus hall =>
    hfew us hus fun j hj => hrecent j x (hold j (Finset.mem_of_mem_erase (hus hj))) (hall j hj)⟩

/-- One more attempt is let through, by a check that finds fewer than `M` others. -/
theorem Overlapping.admit (h : Overlapping M admitted recent) {x : χ} (hnew : admitted' i x)
    (hadmitted : ∀ j, j ≠ i → ∀ y, admitted' j y ↔ admitted j y)
    (hrecent : ∀ j, j ≠ i → ∀ y, recent' j y → recent j y)
    (hfew : ∀ us : Finset ι, (∀ j ∈ us, j ≠ i ∧ (∃ y, admitted j y) ∧ recent j x) → us.card < M) :
    Overlapping M admitted' recent' := by
  intro ts hne hts
  by_cases hi : i ∈ ts
  · refine ⟨i, hi, x, hnew, fun us hus hall => hfew us fun j hj => ?_⟩
    obtain ⟨hji, hjts⟩ := Finset.mem_erase.mp (hus hj)
    exact ⟨hji, (hts j hjts).imp fun y => (hadmitted j hji y).mp, hrecent j hji x (hall j hj)⟩
  · have hother : ∀ j ∈ ts, j ≠ i := fun j hj heq => hi (heq ▸ hj)
    obtain ⟨j, hj, y, hy, hless⟩ := h ts hne fun j hj => (hts j hj).imp fun y => (hadmitted j (hother j hj) y).mp
    refine ⟨j, hj, y, (hadmitted j (hother j hj) y).mpr hy, fun us hus hall => hless us hus fun u hu => ?_⟩
    exact hrecent u (hother u (Finset.mem_of_mem_erase (hus hu))) y (hall u hu)

/-- At most `M` attempts lie in a window, when each of them is recent to every check that has
let one of them through. -/
theorem Overlapping.card_le (h : Overlapping M admitted recent) (ts : Finset ι) (hts : ∀ i ∈ ts, ∃ x, admitted i x)
    (hwindow : ∀ i ∈ ts, ∀ x, admitted i x → ∀ j ∈ ts, recent j x) : ts.card ≤ M := by
  rcases ts.eq_empty_or_nonempty with rfl | hne
  · simp
  · obtain ⟨i, hi, x, hx, hfew⟩ := h ts hne hts
    have hothers := hfew (ts.erase i) (fun _ hj => hj) fun j hj => hwindow i hi x hx j (Finset.mem_of_mem_erase hj)
    rw [Finset.card_erase_of_mem hi] at hothers
    omega

end Overlapping
end SlidingWindow
