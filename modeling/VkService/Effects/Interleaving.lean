import Mathlib.Logic.Function.Basic
import VkService.Effects.Program

/-! Interleaved execution of programs over shared state. One operation is one atomic
step; an operation that has to wait is not enabled. -/
namespace Effects
open Prog

variable {Op : Type} {Reply : Op → Type} {ε α Tid World σ : Type}

/-- What one operation of one thread does to the shared state, and what is left of the
thread's work when it is killed. `none` means that the operation waits. -/
structure Machine (Op : Type) (Reply : Op → Type) (ε Tid World σ : Type) where
  exec : Tid → World → (op : Op) → σ → Option (Except ε (Reply op) × σ)
  kill : Tid → σ → σ

/-- A system state: `prog t` is what thread `t` still has to do, `none` once killed. -/
structure Sys (Op : Type) (Reply : Op → Type) (ε α Tid σ : Type) where
  shared : σ
  prog : Tid → Option (Prog Op Reply ε α)
  trace : List (Tid × Event Op Reply ε)

inductive Move (Tid World : Type) where
  | step (t : Tid) (w : World)
  | kill (t : Tid)

/-- The events of one thread in a trace, newest first. -/
def historyOf [DecidableEq Tid] (t : Tid) (trace : List (Tid × Event Op Reply ε)) :
    History Op Reply ε :=
  trace.filterMap fun entry => if entry.1 = t then some entry.2 else none

section History
variable [DecidableEq Tid]

@[simp] theorem historyOf_nil (t : Tid) :
    historyOf t ([] : List (Tid × Event Op Reply ε)) = [] := rfl
@[simp] theorem historyOf_cons_self (t : Tid) (e : Event Op Reply ε)
    (trace : List (Tid × Event Op Reply ε)) :
    historyOf t ((t, e) :: trace) = e :: historyOf t trace := by
  simp [historyOf]
theorem historyOf_cons_ne {t t' : Tid} (h : t' ≠ t) (e : Event Op Reply ε)
    (trace : List (Tid × Event Op Reply ε)) :
    historyOf t ((t', e) :: trace) = historyOf t trace := by
  simp [historyOf, h]
theorem historyOf_append (t : Tid) (later earlier : List (Tid × Event Op Reply ε)) :
    historyOf t (later ++ earlier) = historyOf t later ++ historyOf t earlier :=
  List.filterMap_append
theorem mem_historyOf {t : Tid} {e : Event Op Reply ε} {trace : List (Tid × Event Op Reply ε)} :
    e ∈ historyOf t trace ↔ (t, e) ∈ trace := by
  constructor
  · intro h
    obtain ⟨⟨t', e'⟩, hmem, heq⟩ := List.mem_filterMap.mp h
    by_cases ht : t' = t
    · simp only [ht, ↓reduceIte, Option.some.injEq] at heq
      exact heq ▸ ht ▸ hmem
    · simp [ht] at heq
  · intro h
    exact List.mem_filterMap.mpr ⟨_, h, by simp⟩
end History

namespace Sys

def start (pool : Tid → Prog Op Reply ε α) (init : σ) : Sys Op Reply ε α Tid σ where
  shared := init
  prog t := some (pool t)
  trace := []

@[simp] theorem start_shared (pool : Tid → Prog Op Reply ε α) (init : σ) :
    (start pool init).shared = init := rfl
@[simp] theorem start_trace (pool : Tid → Prog Op Reply ε α) (init : σ) :
    (start pool init).trace = [] := rfl
@[simp] theorem start_prog (pool : Tid → Prog Op Reply ε α) (init : σ) (t : Tid) :
    (start pool init).prog t = some (pool t) := rfl

variable [DecidableEq Tid]

/-- Thread `t` got reply `r` for `op`. -/
def advance (s : Sys Op Reply ε α Tid σ) (t : Tid) (op : Op)
    (k : Except ε (Reply op) → Prog Op Reply ε α) (r : Except ε (Reply op)) (next : σ) :
    Sys Op Reply ε α Tid σ where
  shared := next
  prog := Function.update s.prog t (some (k r))
  trace := (t, ⟨op, r⟩) :: s.trace

/-- Thread `t` stops for good. -/
def drop (s : Sys Op Reply ε α Tid σ) (t : Tid) (next : σ) : Sys Op Reply ε α Tid σ where
  shared := next
  prog := Function.update s.prog t none
  trace := s.trace

abbrev history (s : Sys Op Reply ε α Tid σ) (t : Tid) : History Op Reply ε :=
  historyOf t s.trace

variable (s : Sys Op Reply ε α Tid σ) (t : Tid) (op : Op)
  (k : Except ε (Reply op) → Prog Op Reply ε α) (r : Except ε (Reply op)) (next : σ)

@[simp] theorem advance_shared : (s.advance t op k r next).shared = next := rfl
@[simp] theorem advance_trace : (s.advance t op k r next).trace = (t, ⟨op, r⟩) :: s.trace := rfl
@[simp] theorem advance_prog_self : (s.advance t op k r next).prog t = some (k r) := by
  simp [advance]
theorem advance_prog_ne {t' : Tid} (h : t' ≠ t) :
    (s.advance t op k r next).prog t' = s.prog t' := by
  simp [advance, h]
@[simp] theorem drop_shared : (s.drop t next).shared = next := rfl
@[simp] theorem drop_trace : (s.drop t next).trace = s.trace := rfl
@[simp] theorem drop_prog_self : (s.drop t next).prog t = none := by simp [drop]
theorem drop_prog_ne {t' : Tid} (h : t' ≠ t) : (s.drop t next).prog t' = s.prog t' := by
  simp [drop, h]

@[simp] theorem history_advance_self : (s.advance t op k r next).history t = ⟨op, r⟩ :: s.history t := by
  simp [history]
theorem history_advance_ne {t' : Tid} (h : t' ≠ t) : (s.advance t op k r next).history t' = s.history t' := by
  simp [history, historyOf_cons_ne (Ne.symm h)]
@[simp] theorem history_drop {t' : Tid} : (s.drop t next).history t' = s.history t' := rfl

/-- What has happened to a thread stays in its history. -/
theorem mem_history_advance {t' : Tid} {e : Event Op Reply ε} (h : e ∈ s.history t') :
    e ∈ (s.advance t op k r next).history t' := by
  by_cases ht : t' = t
  · subst ht
    rw [history_advance_self]
    exact List.mem_cons_of_mem _ h
  · rwa [history_advance_ne _ _ _ _ _ _ ht]
end Sys

namespace Machine
variable [DecidableEq Tid] (M : Machine Op Reply ε Tid World σ)

/-- One move, when it is enabled. Only a thread with an operation to issue can move. -/
def next : Move Tid World → Sys Op Reply ε α Tid σ → Option (Sys Op Reply ε α Tid σ)
  | .step t w, s =>
    match s.prog t with
    | some (.call op k) =>
      match M.exec t w op s.shared with
      | some (r, σ') => some (s.advance t op k r σ')
      | none => none
    | _ => none
  | .kill t, s =>
    match s.prog t with
    | some (.call _ _) => some (s.drop t (M.kill t s.shared))
    | _ => none

/-- Everything a move can do. -/
theorem next_cases {m : Move Tid World} {s s' : Sys Op Reply ε α Tid σ} (h : M.next m s = some s') :
    (∃ t w op k r σ', m = .step t w ∧ s.prog t = some (.call op k) ∧
      M.exec t w op s.shared = some (r, σ') ∧ s' = s.advance t op k r σ') ∨
    (∃ t op k, m = .kill t ∧ s.prog t = some (.call op k) ∧ s' = s.drop t (M.kill t s.shared)) := by
  cases m with
  | step t w =>
    left
    cases hp : s.prog t with
    | none => simp [next, hp] at h
    | some p =>
      cases p with
      | ret a => simp [next, hp] at h
      | raise e => simp [next, hp] at h
      | call op k =>
        cases he : M.exec t w op s.shared with
        | none => simp [next, hp, he] at h
        | some out =>
          simp only [next, hp, he, Option.some.injEq] at h
          exact ⟨t, w, op, k, out.1, out.2, rfl, hp, he, h.symm⟩
  | kill t =>
    right
    cases hp : s.prog t with
    | none => simp [next, hp] at h
    | some p =>
      cases p with
      | ret a => simp [next, hp] at h
      | raise e => simp [next, hp] at h
      | call op k =>
        simp only [next, hp, Option.some.injEq] at h
        exact ⟨t, op, k, rfl, hp, h.symm⟩

/-- Runs whose every move meets a condition on the move and the state before it. -/
def Reach (cond : Move Tid World → Sys Op Reply ε α Tid σ → Prop) :
    Sys Op Reply ε α Tid σ → Sys Op Reply ε α Tid σ → Prop :=
  Relation.ReflTransGen fun s s' => ∃ m, cond m s ∧ M.next m s = some s'

/-- Perform the moves of a list in order; every one must be enabled. -/
def runMoves : List (Move Tid World) → Sys Op Reply ε α Tid σ → Option (Sys Op Reply ε α Tid σ)
  | [], s => some s
  | m :: rest, s => (M.next m s).bind (runMoves rest)

theorem reach_of_runMoves {moves : List (Move Tid World)} {s s' : Sys Op Reply ε α Tid σ}
    (h : M.runMoves moves s = some s') : M.Reach (fun _ _ => True) s s' := by
  induction moves generalizing s with
  | nil =>
    obtain rfl : s = s' := by simpa [runMoves] using h
    exact .refl
  | cons m rest ih =>
    obtain ⟨mid, hmid, hrest⟩ := Option.bind_eq_some_iff.mp h
    exact .head ⟨m, trivial, hmid⟩ (ih hrest)

/-- Perform the moves of a list in order, each of which must meet the condition. -/
def runMovesIf (ok : Move Tid World → Sys Op Reply ε α Tid σ → Bool) :
    List (Move Tid World) → Sys Op Reply ε α Tid σ → Option (Sys Op Reply ε α Tid σ)
  | [], s => some s
  | m :: rest, s => if ok m s then (M.next m s).bind (runMovesIf ok rest) else none

theorem reach_of_runMovesIf {ok : Move Tid World → Sys Op Reply ε α Tid σ → Bool} {moves : List (Move Tid World)}
    {s s' : Sys Op Reply ε α Tid σ} (h : M.runMovesIf ok moves s = some s') :
    M.Reach (fun m s => ok m s = true) s s' := by
  induction moves generalizing s with
  | nil =>
    obtain rfl : s = s' := by simpa [runMovesIf] using h
    exact .refl
  | cons m rest ih =>
    rw [runMovesIf] at h
    split at h
    · rename_i hok
      obtain ⟨mid, hmid, hrest⟩ := Option.bind_eq_some_iff.mp h
      exact .head ⟨m, hok, hmid⟩ (ih hrest)
    · cases h

/-- Induction along a run. What is already known of the states reached may be used in a step. -/
theorem reach_induction {cond : Move Tid World → Sys Op Reply ε α Tid σ → Prop}
    {I : Sys Op Reply ε α Tid σ → Prop} {s₀ s : Sys Op Reply ε α Tid σ} (h0 : I s₀)
    (hstep : ∀ s t w op k r σ', M.Reach cond s₀ s → I s → cond (.step t w) s →
      s.prog t = some (.call op k) → M.exec t w op s.shared = some (r, σ') → I (s.advance t op k r σ'))
    (hkill : ∀ s t op k, M.Reach cond s₀ s → I s → cond (.kill t) s →
      s.prog t = some (.call op k) → I (s.drop t (M.kill t s.shared)))
    (hreach : M.Reach cond s₀ s) : I s := by
  induction hreach with
  | refl => exact h0
  | tail hreach hmove ih =>
    obtain ⟨m, hcond, hnext⟩ := hmove
    rcases M.next_cases hnext with ⟨t, w, op, k, r, σ', rfl, hp, he, rfl⟩ | ⟨t, op, k, rfl, hp, rfl⟩
    · exact hstep _ t w op k r σ' hreach ih hcond hp he
    · exact hkill _ t op k hreach ih hcond hp

/-- On a run from `s₀` to `s`, thread `t` made the call `e` in the state `s₁`. -/
def MakesAt (cond : Move Tid World → Sys Op Reply ε α Tid σ → Prop) (s₀ s : Sys Op Reply ε α Tid σ) (t : Tid)
    (e : Event Op Reply ε) (s₁ : Sys Op Reply ε α Tid σ) : Prop :=
  M.Reach cond s₀ s₁ ∧ ∃ w k σ', cond (.step t w) s₁ ∧ s₁.prog t = some (.call e.op k) ∧
    M.exec t w e.op s₁.shared = some (e.reply, σ') ∧ M.Reach cond (s₁.advance t e.op k e.reply σ') s

section MakesAt
variable {M} {cond : Move Tid World → Sys Op Reply ε α Tid σ → Prop} {s₀ s s₁ : Sys Op Reply ε α Tid σ} {t : Tid}
  {e : Event Op Reply ε}

/-- Histories only grow. -/
theorem Reach.history (h : M.Reach cond s₀ s) (t : Tid) : ∃ later, s.history t = later ++ s₀.history t := by
  refine M.reach_induction (I := fun s => ∃ later, s.history t = later ++ s₀.history t) ⟨[], rfl⟩ ?_ ?_ h
  · rintro s t' w op k r σ' - ⟨later, hlater⟩ - - -
    by_cases ht : t = t'
    · subst ht
      exact ⟨⟨op, r⟩ :: later, by rw [Sys.history_advance_self, hlater, List.cons_append]⟩
    · exact ⟨later, by rw [Sys.history_advance_ne _ _ _ _ _ _ ht, hlater]⟩
  · rintro s t' op k - hlater - -
    exact hlater

theorem MakesAt.history (h : M.MakesAt cond s₀ s t e s₁) : ∃ later, s.history t = later ++ e :: s₁.history t := by
  obtain ⟨-, w, k, σ', -, -, -, hlater⟩ := h
  obtain ⟨later, hhistory⟩ := hlater.history t
  exact ⟨later, by rw [hhistory, Sys.history_advance_self]⟩

/-- The run goes on to its end from the state of the call. -/
theorem MakesAt.later (h : M.MakesAt cond s₀ s t e s₁) : M.Reach cond s₁ s := by
  obtain ⟨-, w, k, σ', hcond, hp, hexec, hlater⟩ := h
  refine .head ⟨.step t w, hcond, ?_⟩ hlater
  simp only [next, hp, hexec]

/-- A call of a history was made in some state of the run. -/
theorem Reach.makesAt (h : M.Reach cond s₀ s) (he : e ∈ s.history t) (hnew : e ∉ s₀.history t) :
    ∃ s₁, M.MakesAt cond s₀ s t e s₁ := by
  refine M.reach_induction (I := fun s => e ∈ s.history t → ∃ s₁, M.MakesAt cond s₀ s t e s₁)
    (fun he => absurd he hnew) ?_ ?_ h he
  · intro s t' w op k r σ' hreach ih hcond hp hexec he
    have hmove : M.Reach cond s (s.advance t' op k r σ') :=
      .single ⟨.step t' w, hcond, by simp only [next, hp, hexec]⟩
    by_cases hold : e ∈ s.history t
    · obtain ⟨s₁, hstart, w₁, k₁, σ₁, hcond₁, hp₁, hexec₁, hlater⟩ := ih hold
      exact ⟨s₁, hstart, w₁, k₁, σ₁, hcond₁, hp₁, hexec₁, hlater.trans hmove⟩
    · by_cases ht : t = t'
      · subst ht
        rw [Sys.history_advance_self] at he
        obtain rfl := (List.mem_cons.mp he).resolve_right hold
        exact ⟨s, hreach, w, k, σ', hcond, hp, hexec, .refl⟩
      · rw [Sys.history_advance_ne _ _ _ _ _ _ ht] at he
        exact absurd he hold
  · intro s t' op k hreach ih hcond hp he
    obtain ⟨s₁, hstart, w₁, k₁, σ₁, hcond₁, hp₁, hexec₁, hlater⟩ := ih he
    exact ⟨s₁, hstart, w₁, k₁, σ₁, hcond₁, hp₁, hexec₁, hlater.tail ⟨.kill t', hcond, by simp only [next, hp]⟩⟩

end MakesAt

/-- Every thread has kept what is promised of it, and the rest of its program conforms. -/
structure Conforming (P : Tid → History Op Reply ε → Op → Prop)
    (Q : Tid → History Op Reply ε → Except ε α → Prop) (s : Sys Op Reply ε α Tid σ) : Prop where
  traced : ∀ t, Traced (P t) (s.history t)
  rest : ∀ t p, s.prog t = some p → Conforms (P t) (Q t) (s.history t) p

section Invariant
variable {P : Tid → History Op Reply ε → Op → Prop} {Q : Tid → History Op Reply ε → Except ε α → Prop}

theorem conforming_start {pool : Tid → Prog Op Reply ε α} {init : σ}
    (h : ∀ t, Conforms (P t) (Q t) [] (pool t)) : Conforming P Q (Sys.start pool init) where
  traced _ := .nil
  rest t p hp := by
    obtain rfl : pool t = p := by simpa using hp
    exact h t

theorem conforming_advance {s : Sys Op Reply ε α Tid σ} (h : Conforming P Q s) {t : Tid} {op : Op}
    {k : Except ε (Reply op) → Prog Op Reply ε α} (hp : s.prog t = some (.call op k))
    (r : Except ε (Reply op)) (next : σ) : Conforming P Q (s.advance t op k r next) where
  traced t' := by
    by_cases ht : t' = t
    · subst ht
      rw [Sys.history, Sys.advance_trace, historyOf_cons_self]
      exact .cons r (h.traced _) (h.rest _ _ hp).1
    · rw [Sys.history, Sys.advance_trace, historyOf_cons_ne (Ne.symm ht)]
      exact h.traced t'
  rest t' p hp' := by
    by_cases ht : t' = t
    · subst ht
      obtain rfl : k r = p := by simpa using hp'
      rw [Sys.history, Sys.advance_trace, historyOf_cons_self]
      exact (h.rest _ _ hp).2 r
    · rw [Sys.advance_prog_ne _ _ _ _ _ _ ht] at hp'
      rw [Sys.history, Sys.advance_trace, historyOf_cons_ne (Ne.symm ht)]
      exact h.rest _ _ hp'

theorem conforming_drop {s : Sys Op Reply ε α Tid σ} (h : Conforming P Q s) (t : Tid) (next : σ) :
    Conforming P Q (s.drop t next) where
  traced := h.traced
  rest t' p hp' := by
    by_cases ht : t' = t
    · subst ht
      simp at hp'
    · rw [Sys.drop_prog_ne _ _ _ ht] at hp'
      exact h.rest _ _ hp'

/-- The invariant rule. What the programs promise about themselves is available in the
step obligation, so an invariant never looks inside a program. -/
theorem invariant {cond : Move Tid World → Sys Op Reply ε α Tid σ → Prop}
    {I : Sys Op Reply ε α Tid σ → Prop} {s₀ s : Sys Op Reply ε α Tid σ}
    (hstart : Conforming P Q s₀) (h0 : I s₀)
    (hstep : ∀ s t w op k r σ', Conforming P Q s → I s → cond (.step t w) s →
      s.prog t = some (.call op k) → P t (s.history t) op →
      M.exec t w op s.shared = some (r, σ') → I (s.advance t op k r σ'))
    (hkill : ∀ s t op k, Conforming P Q s → I s → cond (.kill t) s →
      s.prog t = some (.call op k) → I (s.drop t (M.kill t s.shared)))
    (hreach : M.Reach cond s₀ s) : Conforming P Q s ∧ I s := by
  refine M.reach_induction (I := fun s => Conforming P Q s ∧ I s) ⟨hstart, h0⟩ ?_ ?_ hreach
  · rintro s t w op k r σ' - ⟨hc, hi⟩ hcond hp he
    exact ⟨conforming_advance hc hp r σ', hstep s t w op k r σ' hc hi hcond hp (hc.rest _ _ hp).1 he⟩
  · rintro s t op k - ⟨hc, hi⟩ hcond hp
    exact ⟨conforming_drop hc t _, hkill s t op k hc hi hcond hp⟩

/-- Every thread keeps its promise in every run. -/
theorem conforming_reach {cond : Move Tid World → Sys Op Reply ε α Tid σ → Prop} {s₀ s : Sys Op Reply ε α Tid σ}
    (hstart : Conforming P Q s₀) (hreach : M.Reach cond s₀ s) : Conforming P Q s :=
  M.reach_induction hstart (fun _ _ _ _ _ r σ' _ hc _ hp _ => conforming_advance hc hp r σ')
    (fun _ t _ _ _ hc _ _ => conforming_drop hc t _) hreach

end Invariant
end Machine
end Effects
