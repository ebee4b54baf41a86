import VkService.Concurrent.Finality
import VkService.Concurrent.Provenance
import VkService.Concurrent.Views
import VkService.Promises.Reports

/-! Whether an unlink and a permission event do what they report. Both look a row up with one
statement and change it with another, without the result of the second. What they report is
true when the row they have found is still what they found when they change it. -/
namespace VkService
open PyStr Effects Effects.Prog Effects.Machine RowStore UserVkRepository

section Runs
variable {hashtext : String → Int} {settings : VkSettings} {pool : Tid → Request} {T : Tables} {s s₁ : Run}
  {cond : Move Tid World → Run → Prop} {t : Tid} {userId : UUID} {vkPeerId : PeerId} {b : UserVk}

/-- The permission events, with the state they set and the action they journal. -/
inductive SetsState : Request → PeerId → BindingState → LogAction → Prop
  | block (vkPeerId : PeerId) : SetsState (.block vkPeerId) vkPeerId .blocked .deny
  | unblock (vkPeerId : PeerId) : SetsState (.unblock vkPeerId) vkPeerId .active .allow

section Transition
variable {state : BindingState} {action : LogAction}

theorem SetsState.allowed {request : Request} {h : CallHistory} {c : Call}
    (hevent : SetsState request vkPeerId state action) (hcall : RequestCall settings request h c) :
    TransitionCall vkPeerId state h c := by
  cases hevent <;> exact hcall

end Transition
end Runs

section Deeds
variable (hashtext : String → Int) (cond : Move Tid World → Run → Prop) (start s : Run) (t : Tid)

end Deeds

section Example

/-- The binding they remove. -/
def pendingBinding : UserVk := ⟨1, 1, none, .pending, none, none, none, 0, 0⟩

end Example
end VkService
