import Mathlib.Data.List.Infix
import VkService.Domain.Services

/-! The edges of the service: sessions of HTTP requests, the bot's event handlers and the
handler of notification commands. They decide what is committed. -/
namespace VkService
open PyStr Effects Effects.Prog
variable {α : Type}

/-- `async with session_factory()`: the session is closed on every way out. -/
def withSession (body : Py α) : Py α := do
  let r ← attempt body
  await .close
  ofExcept r

/-- `get_session`: commit on return, rollback on an exception. -/
def getSession (body : Py α) : Py α :=
  withSession <|
    tryCatch (do let a ← body; await .commit; pure a) fun e =>
      if e.isException then do await .rollback; throw e else throw e

/-! `BotEventHandler` -/

def chatPeerThreshold : PeerId := 2000000000

def isChatPeer (peerId : PeerId) : Bool := chatPeerThreshold ≤ peerId

def parseLinkCommand (text linkCommand : Str) : Option Str :=
  let stripped := strip text
  if stripped.isEmpty then none
  else
    match split stripped with
    | [] => none
    | command :: rest =>
      if casefold command ≠ casefold linkCommand then none
      else
        match rest with
        | [] => some []
        | code :: _ => some code

namespace Replies

def linked : String :=
  "Готово! Этот аккаунт VK привязан к вашему профилю EqSiteCMS. Уведомления будут приходить в этот диалог."
def alreadyLinked : String :=
  "Этот аккаунт VK уже привязан к вашему профилю EqSiteCMS, повторное подтверждение не требуется."
def codeInvalid : String :=
  "Код не подходит. Получите новый код в настройках уведомлений EqSiteCMS и отправьте его снова."
def codeUsed : String :=
  "Этот код уже использован. Получите новый код в настройках уведомлений EqSiteCMS."
def codeExpired : String :=
  "Срок действия кода истёк. Получите новый код в настройках уведомлений EqSiteCMS."
def peerConflict : String :=
  "Этот аккаунт VK уже привязан к другому профилю EqSiteCMS. Сначала отвяжите его в настройках."
def rateLimited : String := "Слишком много неудачных попыток. Попробуйте ещё раз позже."

def instruction (linkCommand : Str) : String :=
  "Чтобы привязать аккаунт VK к профилю EqSiteCMS, отправьте сообщение в формате " ++
    "«" ++ String.ofList linkCommand ++
    " КОД». Код можно получить в CMS: «Уведомления» → «Настройки» → «VK для уведомлений»."

end Replies

inductive Outcome where
  | ignoredChat | unknownCommand | missingCode | rateLimited | notFound | expired | peerConflict | used
  | alreadyConfirmed | confirmed
  deriving DecidableEq, Repr

/-- The errors for which `_confirm` has an `except` clause. -/
def Exn.isDomain : Exn → Bool
  | .rateLimited _ | .notFound _ | .gone _ | .conflict _ => true
  | _ => false

/-- Run a bot operation; a domain error becomes a value, any other exception escapes. -/
def attemptDomain (body : Py α) : Py (Except Exn α) :=
  tryCatch (do let a ← body; pure (.ok a)) fun e =>
    if e.isDomain then pure (.error e) else throw e

/-- `Services.commit`: commit, and close in `finally`. -/
def botCommit : Py Unit := do
  let r ← attempt (await .commit)
  await .close
  ofExcept r

/-- How `_confirm` reads the result of `confirm`. The two conflicts differ only in the
text of the message. -/
def confirmOutcome : Except Exn ConfirmationResult → Outcome × String
  | .ok result =>
    match result.status with
    | .alreadyConfirmed => (.alreadyConfirmed, Replies.alreadyLinked)
    | .confirmed => (.confirmed, Replies.linked)
  | .error (.rateLimited _) => (.rateLimited, Replies.rateLimited)
  | .error (.notFound _) => (.notFound, Replies.codeInvalid)
  | .error (.gone _) => (.expired, Replies.codeExpired)
  | .error (.conflict message) =>
    if "другому пользователю".toList <:+: message.toList then (.peerConflict, Replies.peerConflict)
    else (.used, Replies.codeUsed)
  | .error _ => (.used, Replies.codeUsed)

theorem confirmOutcome_conflict (message : String) : confirmOutcome (.error (.conflict message)) =
    if "другому пользователю".toList <:+: message.toList then (.peerConflict, Replies.peerConflict)
    else (.used, Replies.codeUsed) := rfl

/-- `_confirm`. -/
def confirmForReply (settings : VkSettings) (fromId : PeerId) (code : Str) : Py (Outcome × String) := do
  let profile ← await (.getProfile fromId)
  let r ← attemptDomain (confirm settings code fromId (profile.bind (·.screenName)) (profile.bind (·.displayName)))
  pure (confirmOutcome r)

def handleMessage (settings : VkSettings) (peerId fromId : PeerId) (text : Str) : Py Outcome := do
  if isChatPeer peerId then do
    let _ ← await (.logAction .message .ignoredChat [("vk_peer_id", toString peerId)])
    botCommit
    pure .ignoredChat
  else
    match parseLinkCommand text settings.vkBotLinkCommand with
    | none => do
      let _ ← await (.logAction .message .unknownCommand [("vk_peer_id", toString peerId)])
      botCommit
      let _ ← await (.sendMessage peerId (Replies.instruction settings.vkBotLinkCommand))
      pure .unknownCommand
    | some [] => do
      let _ ← await (.logAction .message .missingCode [("vk_peer_id", toString peerId)])
      botCommit
      let _ ← await (.sendMessage peerId (Replies.instruction settings.vkBotLinkCommand))
      pure .missingCode
    | some code => do
      let (outcome, reply) ← confirmForReply settings fromId code
      botCommit
      let _ ← await (.sendMessage peerId reply)
      pure outcome

/-! `NotificationCommandsSendVkHandler` and its consumer -/

/-- `handle`, from the point where the command is validated. A retryable failure is
committed before it is raised again, any other exception rolls the session back. -/
def handleCommand (command : NotificationCommandSendVkData) : Py Unit :=
  withSession do
    tryCatch (deliver command) fun
      | .deliveryRetryable => do await .commit; throw .deliveryRetryable
      | e => if e.isException then do await .rollback; throw e else throw e
    await .commit

inductive Settlement where
  | ack | nak
  deriving DecidableEq

/-- `_process_message`: NAK for an exception of the handler, ACK otherwise. A cancellation
passes through and settles nothing. -/
def settlement : Except Exn Unit → Option Settlement
  | .ok () => some .ack
  | .error e => if e.isException then some .nak else none

/-! The requests of the running system -/

inductive Request where
  | ensureBinding (userId : UUID)
  | issueConfirmation (userId : UUID)
  | unlink (userId : UUID)
  | confirm (code : Str) (vkPeerId : PeerId) (screenName displayName : Option String)
  | block (vkPeerId : PeerId)
  | unblock (vkPeerId : PeerId)
  | deliver (command : NotificationCommandSendVkData)

inductive Answer where
  | binding (row : UserVk) (created : Bool)
  | issued (confirmation : IssuedConfirmation)
  | unlinked (done : Bool)
  | confirmation (r : Except Exn ConfirmationResult)
  | transitioned (done : Bool)
  | delivered

/-- Each request in its own session: `get_session` for the HTTP operations, the bot's
commit for the VK events. -/
def Request.prog (settings : VkSettings) : Request → Py Answer
  | .ensureBinding userId => getSession do
      let (row, created) ← VkService.ensureBinding userId
      pure (.binding row created)
  | .issueConfirmation userId => getSession do
      let issued ← VkService.issueConfirmation settings userId
      pure (.issued issued)
  | .unlink userId => getSession do
      let done ← VkService.unlink userId
      pure (.unlinked done)
  | .confirm code vkPeerId screenName displayName => do
      let r ← attemptDomain (VkService.confirm settings code vkPeerId screenName displayName)
      botCommit
      pure (.confirmation r)
  | .block vkPeerId => do
      let done ← VkService.block vkPeerId
      botCommit
      pure (.transitioned done)
  | .unblock vkPeerId => do
      let done ← VkService.unblock vkPeerId
      botCommit
      pure (.transitioned done)
  | .deliver command => do
      handleCommand command
      pure .delivered

end VkService
