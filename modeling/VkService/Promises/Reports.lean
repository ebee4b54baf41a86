import VkService.Promises.Requests

/-! What an unlink and a permission event say they have done: the row they read, the journal
row they write about it, and the answer they give after their commit. -/
namespace VkService
open PyStr Effects Effects.Prog

/-- The calls that may come after the report of an operation: the notice and the end of the transaction. -/
def Call.closing : Call → Bool
  | .sendMessage .. | .commit | .rollback | .close => true
  | _ => false

section Reports
variable {steps : Option UserVk → CallHistory → Prop} {h : CallHistory} {found : Option UserVk} {α : Type}
  {answerOf : Bool → α}

/-- The history of an operation that has made its steps and at most closed after them. -/
def Reported (steps : Option UserVk → CallHistory → Prop) (found : Option UserVk) (h : CallHistory) : Prop :=
  ∃ later made, h = later ++ made ∧ steps found made ∧ ∀ e ∈ later, e.op.closing = true

theorem Reported.cons (hreport : Reported steps found h) {e : CallEvent} (he : e.op.closing = true) :
    Reported steps found (e :: h) := by
  obtain ⟨later, made, rfl, hsteps, hlater⟩ := hreport
  exact ⟨e :: later, made, rfl, hsteps, List.forall_mem_cons.mpr ⟨he, hlater⟩⟩

theorem Reported.append (hreport : Reported steps found h) {later : CallHistory}
    (hlater : ∀ e ∈ later, e.op.closing = true) :
    Reported steps found (later ++ h) := by
  induction later with
  | nil => exact hreport
  | cons e later ih =>
    obtain ⟨he, hlater⟩ := List.forall_mem_cons.mp hlater
    exact (ih hlater).cons he

end Reports

section Requests
variable (settings : VkSettings)

end Requests
end VkService
