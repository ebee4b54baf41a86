import VkService.Effects.Program
import VkService.Domain.Repositories

/-! The calls a service makes: repository methods, session endings, the clock, the random
generator and the VK client. Each is one atomic step. -/
namespace VkService
open PyStr Effects

inductive Call where
  | now
  | choices (n : Nat)
  | sendMessage (peerId : PeerId) (text : String)
  | getProfile (peerId : PeerId)
  | userVkCreate (userId : UUID)
  | userVkGetById (recordId : UUID)
  | userVkGetByUserId (userId : UUID)
  | userVkGetByUserIds (userIds : List UUID) (state : Option BindingState)
  | userVkGetByPeerId (vkPeerId : PeerId)
  | userVkActivate (recordId : UUID) (vkPeerId : PeerId) (screenName displayName : Option String)
  | userVkSetState (recordId : UUID) (state : BindingState)
  | userVkSoftDelete (userId : UUID)
  | confirmationCreate (userVkId : UUID) (code : Str) (expiresAt : Time)
  | confirmationGetByCode (code : Str)
  | confirmationMarkUsed (confirmationId : UUID)
  | confirmationInvalidatePrevious (userVkId : UUID)
  | logAction (action : LogAction) (status : LogStatus) (details : Details)
  | countFailedSince (action : LogAction) (vkPeerId : PeerId) (since : Time) (failed : List LogStatus)
  | claimAttempt (eventUuid userId : UUID) (vkPeerId : PeerId)
  | markSent (eventUuid userId : UUID)
  | markFailed (eventUuid userId : UUID) (errorCategory : String)
  | commit
  | rollback
  | close

abbrev Call.Reply : Call → Type
  | .now => Time
  | .choices n => Fin n → Fin 32
  | .sendMessage .. => Bool
  | .getProfile _ => Option VkUserProfile
  | .userVkCreate _ => UserVk
  | .userVkGetById _ | .userVkGetByUserId _ | .userVkGetByPeerId _ => Option UserVk
  | .userVkGetByUserIds .. => List UserVk
  | .userVkActivate .. => UserVk
  | .userVkSetState .. => Option UserVk
  | .userVkSoftDelete _ => Bool
  | .confirmationCreate .. => VkConfirmation
  | .confirmationGetByCode _ => Option VkConfirmation
  | .confirmationMarkUsed _ => Unit
  | .confirmationInvalidatePrevious _ => Nat
  | .logAction .. => VkLog
  | .countFailedSince .. => Nat
  | .claimAttempt .. => Option VkNotificationDelivery
  | .markSent .. | .markFailed .. => VkNotificationDelivery
  | .commit | .rollback | .close => Unit

/-- A program of the service. -/
abbrev Py (α : Type) := Prog Call Call.Reply Exn α

/-- Make one call and wait for its reply. -/
abbrev await (c : Call) : Py c.Reply := Prog.perform c

abbrev CallEvent := Event Call Call.Reply Exn
abbrev CallHistory := History Call Call.Reply Exn

/-- The reply to a call and the change it asks for, given the rows the caller sees. -/
def answer (w : World) (ids : NewIds) (T : Tables) : (c : Call) → Except Exn c.Reply × Change
  | .now => (.ok w.now, .nothing)
  | .choices _ => (.ok fun i => w.draws i, .nothing)
  | .sendMessage peerId _ => (.ok (w.accepts peerId), .nothing)
  | .getProfile _ => (.ok w.profile, .nothing)
  | .userVkCreate userId => UserVkRepository.create w ids T userId
  | .userVkGetById recordId => (UserVkRepository.getById T recordId, .nothing)
  | .userVkGetByUserId userId => (UserVkRepository.getByUserId T userId, .nothing)
  | .userVkGetByUserIds userIds state => (.ok (UserVkRepository.getByUserIds T userIds state), .nothing)
  | .userVkGetByPeerId vkPeerId => (UserVkRepository.getByPeerId T vkPeerId, .nothing)
  | .userVkActivate recordId vkPeerId sn dn => UserVkRepository.activate w T recordId vkPeerId sn dn
  | .userVkSetState recordId state => UserVkRepository.setState w T recordId state
  | .userVkSoftDelete userId => UserVkRepository.softDelete w T userId
  | .confirmationCreate userVkId code exp => VkConfirmationRepository.create w ids T userVkId code exp
  | .confirmationGetByCode code => (VkConfirmationRepository.getByCode T code, .nothing)
  | .confirmationMarkUsed confirmationId => VkConfirmationRepository.markUsed w confirmationId
  | .confirmationInvalidatePrevious userVkId => VkConfirmationRepository.invalidatePrevious w T userVkId
  | .logAction action status details => VkLogRepository.logAction w action status details
  | .countFailedSince action peer since failed =>
      (.ok (VkLogRepository.countFailedSince T action peer since failed), .nothing)
  | .claimAttempt event user peer => VkNotificationDeliveryRepository.claimAttempt w T event user peer
  | .markSent event user => VkNotificationDeliveryRepository.markSent w T event user
  | .markFailed event user category => VkNotificationDeliveryRepository.markFailed w T event user category
  | .commit => (.ok (), .commit)
  | .rollback => (.ok (), .rollback)
  | .close => (.ok (), .rollback)

/-- The effect of a change on the rows its own transaction sees. -/
def Change.apply (T : Tables) : Change → Tables
  | .nothing | .commit | .rollback => T
  | .insertUserVk row => { T with userVks := T.userVks ++ [row] }
  | .updateUserVk p f => { T with userVks := T.userVks.map fun r => if p r then f r else r }
  | .insertVkConfirmation row => { T with vkConfirmations := T.vkConfirmations ++ [row] }
  | .updateVkConfirmation p f => { T with vkConfirmations := T.vkConfirmations.map fun c => if p c then f c else c }
  | .insertVkLog row => { T with vkLogs := T.vkLogs ++ [row] }
  | .insertDelivery row => { T with vkNotificationDeliveries := T.vkNotificationDeliveries ++ [row] }
  | .updateDelivery p f =>
      { T with vkNotificationDeliveries := T.vkNotificationDeliveries.map fun d => if p d then f d else d }

end VkService
