import VkService.Api.Endpoints
import VkService.Sequential.Journal
import VkService.Sequential.Lifecycle

/-! What the HTTP interface answers, and does, in every state that requests one after the
other lead to: the stages of the bindings decide. -/
namespace VkService
open PyStr Effects Effects.Prog Claims UserVkRepository

def VkBindingResponse.stage (row : VkBindingResponse) : Standing PeerId :=
  match row.vkPeerId with
  | none => .pending
  | some peer => .linked peer (row.state == .blocked)

section Programs
variable {world : CallHistory → World} {h : CallHistory} {s : Session} {α : Type}

end Programs

section Listed
variable {T : Tables} {ids : List UUID} {wanted : Option BindingState}

end Listed

section Requests
variable {settings : VkSettings} {group : GroupSettings} {T : Tables} {o : Surroundings}

end Requests

end VkService
