import VkService.Effects.Program

/-! Weakest preconditions of single-session runs. A postcondition speaks of the outcome,
the history and the final state, and a proof walks through the calls in program order. -/
namespace Effects.Prog
variable {Op : Type} {Reply : Op → Type} {ε α β σ : Type}

/-- The run from history `h` and state `s` ends as `Φ` says. -/
def wp (exec : History Op Reply ε → (op : Op) → σ → Except ε (Reply op) × σ) (p : Prog Op Reply ε α)
    (Φ : Except ε α → History Op Reply ε → σ → Prop) (h : History Op Reply ε) (s : σ) : Prop :=
  Φ (p.run exec h s).1 (p.run exec h s).2.1 (p.run exec h s).2.2

section Rules
variable {exec : History Op Reply ε → (op : Op) → σ → Except ε (Reply op) × σ}
  {Φ Ψ : Except ε α → History Op Reply ε → σ → Prop} {h : History Op Reply ε} {s : σ}

theorem wp_ret (a : α) : wp exec (.ret a) Φ h s ↔ Φ (.ok a) h s := Iff.rfl
theorem wp_raise (e : ε) : wp exec (.raise e) Φ h s ↔ Φ (.error e) h s := Iff.rfl

theorem wp_mono {p : Prog Op Reply ε α} (hp : wp exec p Φ h s) (himp : ∀ r h s, Φ r h s → Ψ r h s) :
    wp exec p Ψ h s :=
  himp _ _ _ hp

theorem wp_and {p : Prog Op Reply ε α} (hp : wp exec p Φ h s) (hp' : wp exec p Ψ h s) :
    wp exec p (fun r h s => Φ r h s ∧ Ψ r h s) h s :=
  ⟨hp, hp'⟩

/-- What happens after the first program, by the way it ends. -/
def andThen (exec : History Op Reply ε → (op : Op) → σ → Except ε (Reply op) × σ)
    (f : α → Prog Op Reply ε β) (Φ : Except ε β → History Op Reply ε → σ → Prop) :
    Except ε α → History Op Reply ε → σ → Prop
  | .ok a, h, s => wp exec (f a) Φ h s
  | .error e, h, s => Φ (.error e) h s

@[simp] theorem andThen_ok (f : α → Prog Op Reply ε β) (Φ : Except ε β → History Op Reply ε → σ → Prop)
    (a : α) : andThen exec f Φ (.ok a) h s = wp exec (f a) Φ h s := rfl
@[simp] theorem andThen_error (f : α → Prog Op Reply ε β) (Φ : Except ε β → History Op Reply ε → σ → Prop)
    (e : ε) : andThen exec f Φ (.error e : Except ε α) h s = Φ (.error e) h s := rfl

theorem wp_bind {p : Prog Op Reply ε α} {f : α → Prog Op Reply ε β}
    {Φ : Except ε β → History Op Reply ε → σ → Prop} :
    wp exec (p >>= f) Φ h s ↔ wp exec p (andThen exec f Φ) h s := by
  unfold wp
  rw [run_bind]
  rcases p.run exec h s with ⟨_ | _, _, _⟩ <;> rfl

/-- What happens after a guarded program, by the way it ends. -/
def orElse (exec : History Op Reply ε → (op : Op) → σ → Except ε (Reply op) × σ)
    (f : ε → Prog Op Reply ε α) (Φ : Except ε α → History Op Reply ε → σ → Prop) :
    Except ε α → History Op Reply ε → σ → Prop
  | .ok a, h, s => Φ (.ok a) h s
  | .error e, h, s => wp exec (f e) Φ h s

@[simp] theorem orElse_ok (f : ε → Prog Op Reply ε α) (a : α) :
    orElse exec f Φ (.ok a) h s = Φ (.ok a) h s := rfl
@[simp] theorem orElse_error (f : ε → Prog Op Reply ε α) (e : ε) :
    orElse exec f Φ (.error e) h s = wp exec (f e) Φ h s := rfl

theorem wp_tryCatch {p : Prog Op Reply ε α} {f : ε → Prog Op Reply ε α} :
    wp exec (tryCatch p f) Φ h s ↔ wp exec p (orElse exec f Φ) h s := by
  unfold wp
  rw [run_tryCatch]
  rcases p.run exec h s with ⟨_ | _, _, _⟩ <;> rfl

theorem wp_attempt {p : Prog Op Reply ε α} {Φ : Except ε (Except ε α) → History Op Reply ε → σ → Prop} :
    wp exec (attempt p) Φ h s ↔ wp exec p (fun r h s => Φ (.ok r) h s) h s := by
  unfold wp
  rw [run_attempt]

theorem wp_ofExcept (r : Except ε α) : wp exec (ofExcept r) Φ h s ↔ Φ r h s := by
  unfold wp
  rw [run_ofExcept]

/-- One call: its reply enters the history. -/
theorem wp_perform {op : Op} {Φ : Except ε (Reply op) → History Op Reply ε → σ → Prop} :
    wp exec (perform op) Φ h s ↔ Φ (exec h op s).1 (⟨op, (exec h op s).1⟩ :: h) (exec h op s).2 := by
  unfold wp
  rw [run_perform]

/-- The calls of a run are added to the history. -/
theorem wp_history (p : Prog Op Reply ε α) : wp exec p (fun _ h' _ => ∃ new, h' = new ++ h) h s := by
  induction p generalizing h s with
  | ret a => exact ⟨[], rfl⟩
  | raise e => exact ⟨[], rfl⟩
  | call op k ih =>
    obtain ⟨new, hnew⟩ := ih (exec h op s).1 (h := ⟨op, (exec h op s).1⟩ :: h) (s := (exec h op s).2)
    exact ⟨new ++ [⟨op, (exec h op s).1⟩], by simpa [run_call] using hnew⟩

/-- Promises made without knowing the replies hold of a run. -/
theorem wp_of_conforms {P : History Op Reply ε → Op → Prop} {Q : History Op Reply ε → Except ε α → Prop}
    {p : Prog Op Reply ε α} (hp : Conforms P Q h p) : wp exec p (fun r h' _ => Q h' r) h s := by
  induction p generalizing h s with
  | ret a => exact hp
  | raise e => exact hp
  | call op k ih => exact ih _ (hp.2 _)

/-- What every issued call keeps, the run keeps. -/
theorem wp_invariant {I : History Op Reply ε → σ → Prop} {P : History Op Reply ε → Op → Prop}
    {Q : History Op Reply ε → Except ε α → Prop} {p : Prog Op Reply ε α}
    (hstep : ∀ h op s, P h op → I h s → I (⟨op, (exec h op s).1⟩ :: h) (exec h op s).2)
    (hp : Conforms P Q h p) (hs : I h s) : wp exec p (fun _ h' s' => I h' s') h s := by
  induction p generalizing h s with
  | ret a => exact hs
  | raise e => exact hs
  | call op k ih => exact ih _ (hp.2 _) (hstep _ _ _ hp.1 hs)

/-- The history of a run was allowed call by call. -/
theorem wp_traced {P : History Op Reply ε → Op → Prop} {Q : History Op Reply ε → Except ε α → Prop}
    {p : Prog Op Reply ε α} (hp : Conforms P Q h p) (hs : Traced P h) : wp exec p (fun _ h' _ => Traced P h') h s :=
  wp_invariant (fun _ _ _ hop ht => .cons _ ht hop) hp hs

/-- A run adds only calls that its program may issue. -/
theorem wp_calls {allowed : Op → Prop} {Q : History Op Reply ε → Except ε α → Prop} {p : Prog Op Reply ε α}
    (hp : Conforms (fun _ op => allowed op) Q h p) :
    wp exec p (fun _ h' _ => ∃ new, h' = new ++ h ∧ ∀ e ∈ new, allowed e.op) h s := by
  refine wp_invariant (I := fun h' _ => ∃ new, h' = new ++ h ∧ ∀ e ∈ new, allowed e.op) ?_ hp
    ⟨[], rfl, fun e he => by cases he⟩
  intro h' op s' hop hI
  obtain ⟨new, rfl, hnew⟩ := hI
  exact ⟨_ :: new, rfl, List.forall_mem_cons.mpr ⟨hop, hnew⟩⟩

end Rules
end Effects.Prog
