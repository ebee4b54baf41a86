import Mathlib.Logic.Relation

/-! Programs as trees of calls. A call may fail with an exception; a program sees the
outside only through the replies, so its history determines what it does next. -/
namespace Effects
universe u

/-- A program returns, raises, or issues one operation and continues with the reply. -/
inductive Prog (Op : Type) (Reply : Op → Type) (ε : Type) (α : Type) where
  | ret (a : α)
  | raise (e : ε)
  | call (op : Op) (k : Except ε (Reply op) → Prog Op Reply ε α)

/-- One issued operation with the reply it got. -/
structure Event (Op : Type) (Reply : Op → Type) (ε : Type) where
  op : Op
  reply : Except ε (Reply op)

/-- The events of one program, newest first. -/
abbrev History (Op : Type) (Reply : Op → Type) (ε : Type) := List (Event Op Reply ε)

/-- A failed call is not one that succeeded. -/
theorem ok_mem_error_cons {Op : Type} {Reply : Op → Type} {ε : Type} {op op' : Op} {a : Reply op} {x : ε}
    {h : History Op Reply ε} : (⟨op, .ok a⟩ : Event Op Reply ε) ∈ (⟨op', .error x⟩ :: h : History Op Reply ε) ↔
      (⟨op, .ok a⟩ : Event Op Reply ε) ∈ h := by
  refine List.mem_cons.trans (or_iff_right fun heq => ?_)
  cases heq

namespace Prog
variable {Op : Type} {Reply : Op → Type} {ε α β σ : Type}

protected def bind : Prog Op Reply ε α → (α → Prog Op Reply ε β) → Prog Op Reply ε β
  | .ret a, f => f a
  | .raise e, _ => .raise e
  | .call op k, f => .call op (fun r => (k r).bind f)

protected def tryCatch : Prog Op Reply ε α → (ε → Prog Op Reply ε α) → Prog Op Reply ε α
  | .ret a, _ => .ret a
  | .raise e, f => f e
  | .call op k, f => .call op (fun r => (k r).tryCatch f)

instance : Monad (Prog Op Reply ε) where
  pure := .ret
  bind := Prog.bind

instance : MonadExcept ε (Prog Op Reply ε) where
  throw := .raise
  tryCatch := Prog.tryCatch

/-- Issue one operation; its failure is raised. -/
def perform (op : Op) : Prog Op Reply ε (Reply op) :=
  .call op fun
    | .ok a => .ret a
    | .error e => .raise e

/-- Turn the way a program ends into a value. -/
def attempt (p : Prog Op Reply ε α) : Prog Op Reply ε (Except ε α) :=
  tryCatch (do let a ← p; pure (.ok a)) (fun e => pure (.error e))

@[simp] theorem pure_eq (a : α) : (pure a : Prog Op Reply ε α) = .ret a := rfl
@[simp] theorem throw_eq (e : ε) : (throw e : Prog Op Reply ε α) = .raise e := rfl

@[simp] theorem ret_bind (a : α) (f : α → Prog Op Reply ε β) : (Prog.ret a >>= f) = f a := rfl
@[simp] theorem raise_bind (e : ε) (f : α → Prog Op Reply ε β) :
    (Prog.raise e >>= f) = Prog.raise e := rfl
@[simp] theorem call_bind (op : Op) (k : Except ε (Reply op) → Prog Op Reply ε α)
    (f : α → Prog Op Reply ε β) : (Prog.call op k >>= f) = Prog.call op (fun r => k r >>= f) := rfl

@[simp] theorem ret_tryCatch (a : α) (f : ε → Prog Op Reply ε α) :
    tryCatch (Prog.ret a : Prog Op Reply ε α) f = .ret a := rfl
@[simp] theorem raise_tryCatch (e : ε) (f : ε → Prog Op Reply ε α) :
    tryCatch (Prog.raise e : Prog Op Reply ε α) f = f e := rfl
@[simp] theorem call_tryCatch (op : Op) (k : Except ε (Reply op) → Prog Op Reply ε α)
    (f : ε → Prog Op Reply ε α) :
    tryCatch (Prog.call op k) f = .call op (fun r => tryCatch (k r) f) := rfl

@[simp] theorem ofExcept_ok (a : α) : (ofExcept (.ok a : Except ε α) : Prog Op Reply ε α) = .ret a := rfl
@[simp] theorem ofExcept_error (e : ε) :
    (ofExcept (.error e : Except ε α) : Prog Op Reply ε α) = .raise e := rfl

/-- A single-session run. The handler may look at the history, which is how it knows
the position of a call; the history is returned with the outcome. -/
def run (exec : History Op Reply ε → (op : Op) → σ → Except ε (Reply op) × σ) :
    Prog Op Reply ε α → History Op Reply ε → σ → Except ε α × History Op Reply ε × σ
  | .ret a, h, s => (.ok a, h, s)
  | .raise e, h, s => (.error e, h, s)
  | .call op k, h, s =>
      let out := exec h op s
      (k out.1).run exec (⟨op, out.1⟩ :: h) out.2

section Run
variable (exec : History Op Reply ε → (op : Op) → σ → Except ε (Reply op) × σ)

@[simp] theorem run_ret (a : α) (h : History Op Reply ε) (s : σ) :
    (Prog.ret a).run exec h s = (.ok a, h, s) := rfl
@[simp] theorem run_raise (e : ε) (h : History Op Reply ε) (s : σ) :
    (Prog.raise e : Prog Op Reply ε α).run exec h s = (.error e, h, s) := rfl
theorem run_call (op : Op) (k : Except ε (Reply op) → Prog Op Reply ε α)
    (h : History Op Reply ε) (s : σ) :
    (Prog.call op k).run exec h s =
      (k (exec h op s).1).run exec (⟨op, (exec h op s).1⟩ :: h) (exec h op s).2 := rfl

theorem run_perform (op : Op) (h : History Op Reply ε) (s : σ) :
    (perform op : Prog Op Reply ε (Reply op)).run exec h s =
      ((exec h op s).1, ⟨op, (exec h op s).1⟩ :: h, (exec h op s).2) := by
  rw [perform, run_call]
  rcases exec h op s with ⟨_ | _, s'⟩ <;> rfl

theorem run_bind (p : Prog Op Reply ε α) (f : α → Prog Op Reply ε β)
    (h : History Op Reply ε) (s : σ) :
    (p >>= f).run exec h s =
      match p.run exec h s with
      | (.ok a, h', s') => (f a).run exec h' s'
      | (.error e, h', s') => (.error e, h', s') := by
  induction p generalizing h s with
  | ret a => rfl
  | raise e => rfl
  | call op k ih =>
    simp only [call_bind, run_call]
    exact ih _ _ _

theorem run_tryCatch (p : Prog Op Reply ε α) (f : ε → Prog Op Reply ε α)
    (h : History Op Reply ε) (s : σ) :
    (tryCatch p f).run exec h s =
      match p.run exec h s with
      | (.ok a, h', s') => (.ok a, h', s')
      | (.error e, h', s') => (f e).run exec h' s' := by
  induction p generalizing h s with
  | ret a => rfl
  | raise e => rfl
  | call op k ih =>
    simp only [call_tryCatch, run_call]
    exact ih _ _ _

@[simp] theorem run_attempt (p : Prog Op Reply ε α) (h : History Op Reply ε) (s : σ) :
    (attempt p).run exec h s = ((.ok (p.run exec h s).1 : Except ε (Except ε α)), (p.run exec h s).2) := by
  rw [attempt, run_tryCatch, run_bind]
  rcases p.run exec h s with ⟨_ | _, _, _⟩ <;> rfl

@[simp] theorem run_ofExcept (r : Except ε α) (h : History Op Reply ε) (s : σ) :
    (ofExcept r : Prog Op Reply ε α).run exec h s = (r, h, s) := by
  cases r <;> rfl

end Run

/-- Reasoning about one program without knowing what replies: every issued operation
satisfies `P` of the history so far and every ending satisfies `Q`. -/
def Conforms (P : History Op Reply ε → Op → Prop) (Q : History Op Reply ε → Except ε α → Prop) :
    History Op Reply ε → Prog Op Reply ε α → Prop
  | h, .ret a => Q h (.ok a)
  | h, .raise e => Q h (.error e)
  | h, .call op k => P h op ∧ ∀ r, Conforms P Q (⟨op, r⟩ :: h) (k r)

/-- A history whose every operation was allowed when it was issued. -/
inductive Traced (P : History Op Reply ε → Op → Prop) : History Op Reply ε → Prop
  | nil : Traced P []
  | cons {h : History Op Reply ε} {op : Op} (r : Except ε (Reply op)) (ht : Traced P h) (hop : P h op) :
      Traced P (⟨op, r⟩ :: h)

namespace Traced
variable {P : History Op Reply ε → Op → Prop}

theorem drop {later h : History Op Reply ε} (ht : Traced P (later ++ h)) : Traced P h := by
  induction later with
  | nil => exact ht
  | cons e later ih =>
    cases ht with
    | cons r ht hop => exact ih ht

/-- An event of the history was allowed by what came before it. -/
theorem before {later earlier : History Op Reply ε} {e : Event Op Reply ε} (ht : Traced P (later ++ e :: earlier)) :
    P earlier e.op := by
  cases ht.drop with
  | cons r ht hop => exact hop

theorem mono {P' : History Op Reply ε → Op → Prop} (hP : ∀ h op, P h op → P' h op) {h : History Op Reply ε}
    (ht : Traced P h) : Traced P' h := by
  induction ht with
  | nil => exact .nil
  | cons r ht hop ih => exact .cons r ih (hP _ _ hop)

theorem of_mem {h : History Op Reply ε} {e : Event Op Reply ε} (ht : Traced P h) (he : e ∈ h) :
    ∃ later earlier, h = later ++ e :: earlier ∧ P earlier e.op := by
  obtain ⟨later, earlier, rfl⟩ := List.append_of_mem he
  exact ⟨later, earlier, rfl, ht.before⟩

end Traced

namespace Conforms
variable {P P' : History Op Reply ε → Op → Prop}

@[simp] theorem ret_iff {Q : History Op Reply ε → Except ε α → Prop} (h : History Op Reply ε) (a : α) :
    Conforms P Q h (.ret a) ↔ Q h (.ok a) := Iff.rfl
@[simp] theorem raise_iff {Q : History Op Reply ε → Except ε α → Prop} (h : History Op Reply ε) (e : ε) :
    Conforms P Q h (.raise e) ↔ Q h (.error e) := Iff.rfl

theorem mono {Q Q' : History Op Reply ε → Except ε α → Prop} (hP : ∀ h op, P h op → P' h op)
    (hQ : ∀ h r, Q h r → Q' h r) (h : History Op Reply ε) (p : Prog Op Reply ε α)
    (hp : Conforms P Q h p) : Conforms P' Q' h p := by
  induction p generalizing h with
  | ret a => exact hQ _ _ hp
  | raise e => exact hQ _ _ hp
  | call op k ih => exact ⟨hP _ _ hp.1, fun r => ih r _ (hp.2 r)⟩

/-- Promises that hold of everything are kept by every program. -/
theorem of_forall {Q : History Op Reply ε → Except ε α → Prop} (hP : ∀ h op, P h op) (hQ : ∀ h r, Q h r)
    (h : History Op Reply ε) (p : Prog Op Reply ε α) : Conforms P Q h p := by
  induction p generalizing h with
  | ret a => exact hQ _ _
  | raise e => exact hQ _ _
  | call op k ih => exact ⟨hP _ _, fun r => ih r _⟩

theorem bind {Q : History Op Reply ε → Except ε α → Prop} {Q' : History Op Reply ε → Except ε β → Prop}
    (p : Prog Op Reply ε α) (f : α → Prog Op Reply ε β) (h : History Op Reply ε)
    (hp : Conforms P Q h p) (hok : ∀ h a, Q h (.ok a) → Conforms P Q' h (f a))
    (herr : ∀ h e, Q h (.error e) → Q' h (.error e)) : Conforms P Q' h (p >>= f) := by
  induction p generalizing h with
  | ret a => exact hok _ _ hp
  | raise e => exact herr _ _ hp
  | call op k ih => exact ⟨hp.1, fun r => ih r _ (hp.2 r)⟩

theorem tryCatch {Q Q' : History Op Reply ε → Except ε α → Prop}
    (p : Prog Op Reply ε α) (f : ε → Prog Op Reply ε α) (h : History Op Reply ε)
    (hp : Conforms P Q h p) (hok : ∀ h a, Q h (.ok a) → Q' h (.ok a))
    (herr : ∀ h e, Q h (.error e) → Conforms P Q' h (f e)) :
    Conforms P Q' h (MonadExcept.tryCatch p f) := by
  induction p generalizing h with
  | ret a => exact hok _ _ hp
  | raise e => exact herr _ _ hp
  | call op k ih => exact ⟨hp.1, fun r => ih r _ (hp.2 r)⟩

theorem attempt {Q : History Op Reply ε → Except ε α → Prop}
    {Q' : History Op Reply ε → Except ε (Except ε α) → Prop}
    (p : Prog Op Reply ε α) (h : History Op Reply ε) (hp : Conforms P Q h p)
    (hQ : ∀ h r, Q h r → Q' h (.ok r)) : Conforms P Q' h (Prog.attempt p) := by
  induction p generalizing h with
  | ret a => exact hQ _ _ hp
  | raise e => exact hQ _ _ hp
  | call op k ih => exact ⟨hp.1, fun r => ih r _ (hp.2 r)⟩

theorem perform {op : Op} {Q : History Op Reply ε → Except ε (Reply op) → Prop}
    (h : History Op Reply ε) (hop : P h op) (hQ : ∀ r, Q (⟨op, r⟩ :: h) r) :
    Conforms P Q h (Prog.perform op) := by
  refine ⟨hop, fun r => ?_⟩
  cases r with
  | ok a => exact hQ _
  | error e => exact hQ _

/-- One call and what follows it. -/
theorem perform_bind {op : Op} {f : Reply op → Prog Op Reply ε α} {Q : History Op Reply ε → Except ε α → Prop}
    {h : History Op Reply ε} (hop : P h op) (hok : ∀ a, Conforms P Q (⟨op, .ok a⟩ :: h) (f a))
    (herr : ∀ e, Q (⟨op, .error e⟩ :: h) (.error e)) : Conforms P Q h (Prog.perform op >>= f) := by
  refine ⟨hop, fun r => ?_⟩
  cases r with
  | ok a => exact hok a
  | error e => exact herr e

/-- What a program promises it promises of the part of a longer history that it adds. -/
theorem after {Q : History Op Reply ε → Except ε α → Prop} (past : History Op Reply ε) {h : History Op Reply ε}
    {p : Prog Op Reply ε α} (hp : Conforms P Q h p) :
    Conforms (fun h' op => ∃ new, h' = new ++ past ∧ P new op) (fun h' r => ∃ new, h' = new ++ past ∧ Q new r)
      (h ++ past) p := by
  induction p generalizing h with
  | ret a => exact ⟨h, rfl, hp⟩
  | raise e => exact ⟨h, rfl, hp⟩
  | call op k ih => exact ⟨⟨h, rfl, hp.1⟩, fun r => ih r (hp.2 r)⟩

/-- What every allowed call keeps true of the history is true at every call and at the end. -/
theorem always {J : History Op Reply ε → Prop} {Q : History Op Reply ε → Except ε α → Prop}
    (hJ : ∀ h op r, J h → P h op → J (⟨op, r⟩ :: h)) {h : History Op Reply ε} {p : Prog Op Reply ε α} (h0 : J h)
    (hp : Conforms P Q h p) : Conforms (fun h op => P h op ∧ J h) (fun h r => Q h r ∧ J h) h p := by
  induction p generalizing h with
  | ret a => exact ⟨hp, h0⟩
  | raise e => exact ⟨hp, h0⟩
  | call op k ih => exact ⟨⟨hp.1, h0⟩, fun r => ih r (hJ h op r h0 hp.1) (hp.2 r)⟩

theorem keeps {J : History Op Reply ε → Prop} {Q : History Op Reply ε → Except ε α → Prop}
    (hJ : ∀ h op r, J h → P h op → J (⟨op, r⟩ :: h)) {h : History Op Reply ε} {p : Prog Op Reply ε α} (h0 : J h)
    (hp : Conforms P Q h p) : Conforms P (fun h r => Q h r ∧ J h) h p :=
  .mono (fun _ _ hop => hop.1) (fun _ _ hQ => hQ) _ _ (always hJ h0 hp)

/-- Two handlers that keep two states related give equal outcomes and histories to a
program that issues only operations on which they agree. -/
theorem run_related {σ σ' : Type} (R : σ → σ' → Prop) {allowed : Op → Prop}
    (exec : History Op Reply ε → (op : Op) → σ → Except ε (Reply op) × σ)
    (exec' : History Op Reply ε → (op : Op) → σ' → Except ε (Reply op) × σ')
    (hstep : ∀ h op s s', allowed op → R s s' →
      (exec h op s).1 = (exec' h op s').1 ∧ R (exec h op s).2 (exec' h op s').2)
    (p : Prog Op Reply ε α) (h : History Op Reply ε)
    (hp : Conforms (fun _ op => allowed op) (fun _ _ => True) h p)
    (s : σ) (s' : σ') (hR : R s s') :
    (p.run exec h s).1 = (p.run exec' h s').1 ∧
      (p.run exec h s).2.1 = (p.run exec' h s').2.1 ∧
      R (p.run exec h s).2.2 (p.run exec' h s').2.2 := by
  induction p generalizing h s s' with
  | ret a => exact ⟨rfl, rfl, hR⟩
  | raise e => exact ⟨rfl, rfl, hR⟩
  | call op k ih =>
    obtain ⟨hop, hk⟩ := hp
    obtain ⟨hreply, hnext⟩ := hstep h op s s' hop hR
    simp only [run_call]
    rw [← hreply]
    exact ih _ _ (hk _) _ _ hnext

end Conforms
end Prog
end Effects
