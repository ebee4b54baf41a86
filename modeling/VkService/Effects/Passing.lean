import VkService.Effects.Weakest

/-! Exceptions that no handler of a program catches. When a call fails with one, the
program raises it and makes no further call. -/
namespace Effects.Prog
variable {Op : Type} {Reply : Op → Type} {ε α β σ : Type}

/-- Some call has failed with `x`. -/
def Failed (x : ε) (h : History Op Reply ε) : Prop := ∃ e ∈ h, e.reply = .error x

@[simp] theorem not_failed_nil (x : ε) : ¬ Failed x ([] : History Op Reply ε) := fun ⟨_, he, _⟩ => nomatch he

@[simp] theorem failed_cons {x : ε} {e : Event Op Reply ε} {h : History Op Reply ε} :
    Failed x (e :: h) ↔ e.reply = .error x ∨ Failed x h := by
  simp [Failed]

theorem Failed.append {x : ε} {h : History Op Reply ε} (hf : Failed x h) (new : History Op Reply ε) :
    Failed x (new ++ h) := by
  obtain ⟨e, he, hx⟩ := hf
  exact ⟨e, List.mem_append_right _ he, hx⟩

/-- The program makes allowed calls only, and one that can fail with `x` lets it through. -/
def Passes (allowed fails : Op → Prop) (x : ε) : Prog Op Reply ε α → Prop
  | .ret _ | .raise _ => True
  | .call op k => allowed op ∧ (fails op → k (.error x) = .raise x) ∧ ∀ r, Passes allowed fails x (k r)

namespace Passes
variable {allowed fails : Op → Prop} {x : ε}

theorem ret (a : α) : Passes allowed fails x (.ret a : Prog Op Reply ε α) := trivial
theorem raise (e : ε) : Passes allowed fails x (.raise e : Prog Op Reply ε α) := trivial

theorem perform {op : Op} (hop : allowed op) :
    Passes allowed fails x (Prog.perform op : Prog Op Reply ε (Reply op)) := by
  refine ⟨hop, fun _ => rfl, fun r => ?_⟩
  cases r <;> trivial

theorem bind {p : Prog Op Reply ε α} {f : α → Prog Op Reply ε β} (hp : p.Passes allowed fails x)
    (hf : ∀ a, (f a).Passes allowed fails x) : (p >>= f).Passes allowed fails x := by
  induction p with
  | ret a => exact hf a
  | raise e => trivial
  | call op k ih =>
    refine ⟨hp.1, fun hop => ?_, fun r => ih r (hp.2.2 r)⟩
    have hk : k (.error x) = .raise x := hp.2.1 hop
    show (k (.error x) >>= f) = _
    rw [hk, raise_bind]

/-- A call and what follows it. -/
theorem perform_bind {op : Op} {f : Reply op → Prog Op Reply ε α} (hop : allowed op)
    (hf : ∀ a, (f a).Passes allowed fails x) : (Prog.perform op >>= f).Passes allowed fails x :=
  .bind (.perform hop) hf

theorem tryCatch {p : Prog Op Reply ε α} {f : ε → Prog Op Reply ε α} (hp : p.Passes allowed fails x)
    (hx : f x = .raise x) (hf : ∀ e, (f e).Passes allowed fails x) :
    (MonadExcept.tryCatch p f).Passes allowed fails x := by
  induction p with
  | ret a => trivial
  | raise e => exact hf e
  | call op k ih =>
    refine ⟨hp.1, fun hop => ?_, fun r => ih r (hp.2.2 r)⟩
    have hk : k (.error x) = .raise x := hp.2.1 hop
    show MonadExcept.tryCatch (k (.error x)) f = _
    rw [hk, raise_tryCatch, hx]

/-- The run ends with its first failure by `x`, and keeps what the allowed calls keep. -/
theorem wp_passes {exec : History Op Reply ε → (op : Op) → σ → Except ε (Reply op) × σ}
    (hfails : ∀ h op s, (exec h op s).1 = .error x → fails op) {I : σ → Prop}
    (hI : ∀ h op s, allowed op → I s → I (exec h op s).2) {p : Prog Op Reply ε α}
    (hp : p.Passes allowed fails x) {h : History Op Reply ε} (h0 : ¬ Failed x h) {s : σ} (hs : I s) :
    wp exec p (fun r h' s' => (Failed x h' → r = .error x) ∧ I s') h s := by
  induction p generalizing h s with
  | ret a => exact ⟨fun hf => absurd hf h0, hs⟩
  | raise e => exact ⟨fun hf => absurd hf h0, hs⟩
  | call op k ih =>
    have hnext := hI h op s hp.1 hs
    by_cases hx : (exec h op s).1 = .error x
    · have hend : k (exec h op s).1 = .raise x := by rw [hx, hp.2.1 (hfails h op s hx)]
      rw [wp, run_call, hend]
      exact ⟨fun _ => rfl, hnext⟩
    · refine ih _ (hp.2.2 _) ?_ hnext
      rw [failed_cons, not_or]
      exact ⟨hx, h0⟩

end Passes
end Effects.Prog
