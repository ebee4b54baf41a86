import VkService.Domain.Calls

/-! The domain services: issuing and removing bindings, confirming a code, following the
permission events and delivering notifications. -/
namespace VkService
open PyStr Effects Effects.Prog

/-! `vk_code` -/

def codeAlphabet : Str := "ABCDEFGHJKLMNPQRSTUVWXYZ23456789".toList

def maxGenerationAttempts : Nat := 5

def codeLetter (i : Fin 32) : Char := codeAlphabet.getD i 'A'

def generateCode (length : Nat) : Py Str :=
  if length = 0 then throw (.valueError "Confirmation code length must be positive")
  else do
    let draws ← await (.choices length)
    pure (List.ofFn fun i => codeLetter (draws i))

def normalizeCode (raw : Str) : Str := upper (strip raw)

def maskCode (code : Str) : String :=
  String.ofList (code.take 2) ++ "***(len=" ++ toString code.length ++ ")"

/-! `VkBindingService` -/

def unlinkMessage : String :=
  "Привязка этого аккаунта VK к профилю EqSiteCMS отменена. " ++
    "Чтобы привязать аккаунт снова, получите новый код в настройках уведомлений."

def ensureBinding (userId : UUID) : Py (UserVk × Bool) := do
  match ← await (.userVkGetByUserId userId) with
  | some current => pure (current, false)
  | none =>
    tryCatch (do let row ← await (.userVkCreate userId); pure (row, true)) fun
      | .alreadyExists message => do
        match ← await (.userVkGetByUserId userId) with
        | none => throw (.alreadyExists message)
        | some existing => pure (existing, false)
      | e => throw e

/-- Up to `attempts` codes are generated until one is not taken. -/
def createUniqueCode (codeLength : Nat) : (attempts : Nat) → Py Str
  | 0 => throw (.conflict "Не удалось сгенерировать уникальный код подтверждения, повторите попытку")
  | attempts + 1 => do
    let code ← generateCode codeLength
    match ← await (.confirmationGetByCode code) with
    | none => pure code
    | some _ => createUniqueCode codeLength attempts

structure IssuedConfirmation where
  code : Str
  expiresAt : Time
  state : BindingState
  deriving DecidableEq

def issueConfirmation (settings : VkSettings) (userId : UUID) : Py IssuedConfirmation := do
  let (binding, _) ← ensureBinding userId
  match binding.state with
  | .active => do
    let _ ← await (.logAction .issue .conflictActive
      [("user_id", toString userId), ("user_vk_id", toString binding.id)])
    throw (.conflict "Аккаунт VK уже привязан")
  | .blocked => do
    let _ ← await (.logAction .issue .conflictBlocked
      [("user_id", toString userId), ("user_vk_id", toString binding.id)])
    throw (.conflict "Бот заблокирован: разрешите сообщения от группы в диалоге с ботом")
  | .pending => do
    let _ ← await (.confirmationInvalidatePrevious binding.id)
    let code ← createUniqueCode settings.vkConfirmationCodeLength maxGenerationAttempts
    let now ← await .now
    let confirmation ← await
      (.confirmationCreate binding.id code (now + minutes settings.vkConfirmationTtlMinutes))
    let _ ← await (.logAction .issue .success
      [("user_id", toString userId), ("user_vk_id", toString binding.id), ("code", maskCode code)])
    pure ⟨code, confirmation.expiresAt, binding.state⟩

/-- A delivery failure does not change the outcome of `unlink`. -/
def notifyUnlinked (previousState : BindingState) : Option PeerId → Py Unit
  | none => pure ()
  | some peerId =>
    if previousState ≠ .active then pure ()
    else tryCatch (do let _ ← await (.sendMessage peerId unlinkMessage); pure ()) fun e =>
      if e.isException then pure () else throw e

def unlink (userId : UUID) : Py Bool := do
  match ← await (.userVkGetByUserId userId) with
  | none => do
    let _ ← await (.logAction .unlink .noop [("user_id", toString userId)])
    pure false
  | some binding => do
    let _ ← await (.confirmationInvalidatePrevious binding.id)
    let _ ← await (.userVkSoftDelete userId)
    let _ ← await (.logAction .unlink .success
      [("user_id", toString userId), ("user_vk_id", toString binding.id),
       ("previous_state", binding.state.text)])
    notifyUnlinked binding.state binding.vkPeerId
    pure true

/-! `VkConfirmationService` -/

def failedStatuses : List LogStatus := [.notFound, .used, .expired, .peerConflict]

inductive ConfirmationStatus where
  | confirmed | alreadyConfirmed
  deriving DecidableEq

structure ConfirmationResult where
  status : ConfirmationStatus
  userId : UUID
  userVkId : UUID
  deriving DecidableEq

def peerTakenMessage : String := "Этот аккаунт VK уже привязан к другому пользователю"

/-- `_log`: every journal row of a confirmation names the peer first. -/
def logConfirmation (status : LogStatus) (vkPeerId : PeerId) (details : Details) : Py Unit := do
  let _ ← await (.logAction .confirmation status (("vk_peer_id", toString vkPeerId) :: details))
  pure ()

def enforceRateLimit (settings : VkSettings) (vkPeerId : PeerId) (masked : String) : Py Unit := do
  let now ← await .now
  let failures ← await (.countFailedSince .confirmation vkPeerId
    (now - minutes settings.vkConfirmationAttemptWindowMinutes) failedStatuses)
  if settings.vkConfirmationMaxAttempts ≤ failures then do
    logConfirmation .rateLimited vkPeerId [("code", masked)]
    throw (.rateLimited "Слишком много неудачных попыток, повторите позже")
  else pure ()

def isSamePeerActive (vkPeerId : PeerId) : Option UserVk → Bool
  | none => false
  | some binding => binding.live && binding.state == .active && binding.vkPeerId == some vkPeerId

/-- The part of `confirm` after the checks: activate, use up the code, journal. -/
def activateConfirmed (confirmation : VkConfirmation) (binding : UserVk) (masked : String) (vkPeerId : PeerId)
    (screenName displayName : Option String) : Py ConfirmationResult := do
  let recordId := confirmation.userVkId
  tryCatch
    (do let _ ← await (.userVkActivate recordId vkPeerId screenName displayName)
        pure ()) fun
    | .alreadyExists _ => do
      logConfirmation .peerConflict vkPeerId [("code", masked), ("user_vk_id", toString recordId)]
      throw (.conflict peerTakenMessage)
    | e => throw e
  await (.confirmationMarkUsed confirmation.id)
  logConfirmation .success vkPeerId
    [("code", masked), ("user_vk_id", toString recordId), ("user_id", toString binding.userId)]
  pure ⟨.confirmed, binding.userId, recordId⟩

def confirm (settings : VkSettings) (code : Str) (vkPeerId : PeerId)
    (screenName displayName : Option String) : Py ConfirmationResult := do
  let normalized := normalizeCode code
  let masked := maskCode normalized
  enforceRateLimit settings vkPeerId masked
  match ← await (.confirmationGetByCode normalized) with
  | none => do
    logConfirmation .notFound vkPeerId [("code", masked)]
    throw (.notFound "Код подтверждения недействителен")
  | some confirmation => do
    let recordId := confirmation.userVkId
    let details := [("code", masked), ("user_vk_id", toString recordId)]
    let binding ← await (.userVkGetById recordId)
    if confirmation.usedAt.isSome then
      match binding, isSamePeerActive vkPeerId binding with
      | some b, true => do
        logConfirmation .alreadyConfirmed vkPeerId details
        pure ⟨.alreadyConfirmed, b.userId, recordId⟩
      | _, _ => do
        logConfirmation .used vkPeerId details
        throw (.conflict "Код подтверждения уже использован")
    else do
      let now ← await .now
      if confirmation.expiresAt ≤ now then do
        logConfirmation .expired vkPeerId details
        throw (.gone "Срок действия кода подтверждения истёк")
      else
        match binding with
        | none => do
          logConfirmation .error vkPeerId (details ++ [("reason", "binding_missing")])
          throw (.notFound "Привязка не найдена")
        | some b =>
          if !b.live then do
            logConfirmation .error vkPeerId (details ++ [("reason", "binding_missing")])
            throw (.notFound "Привязка не найдена")
          else do
            let occupied ← await (.userVkGetByPeerId vkPeerId)
            if occupied.any (·.id ≠ recordId) then do
              logConfirmation .peerConflict vkPeerId details
              throw (.conflict peerTakenMessage)
            else activateConfirmed confirmation b masked vkPeerId screenName displayName

/-! `VkStateService` -/

def transition (vkPeerId : PeerId) (state : BindingState) (action : LogAction) : Py Bool := do
  match ← await (.userVkGetByPeerId vkPeerId) with
  | none => do
    let _ ← await (.logAction action .noBinding [("vk_peer_id", toString vkPeerId)])
    pure false
  | some binding => do
    let _ ← await (.userVkSetState binding.id state)
    let _ ← await (.logAction action .success
      [("vk_peer_id", toString vkPeerId), ("user_vk_id", toString binding.id),
       ("previous_state", binding.state.text), ("state", state.text)])
    pure true

def block (vkPeerId : PeerId) : Py Bool := transition vkPeerId .blocked .deny

def unblock (vkPeerId : PeerId) : Py Bool := transition vkPeerId .active .allow

/-! `VkNotificationDeliveryService` -/

/-- The peers of the bindings, by user. A later row of the same user would win, as in a
dict comprehension. -/
def activePeers (bindings : List UserVk) : List (UUID × PeerId) :=
  bindings.reverse.filterMap fun b =>
    match b.live, b.vkPeerId with
    | true, some peerId => some (b.userId, peerId)
    | _, _ => none

/-- The recipient loop; the result is the `failed` flag. -/
def deliverTo (eventUuid : UUID) (text : String) (active : List (UUID × PeerId)) :
    List UUID → (failed : Bool) → Py Bool
  | [], failed => pure failed
  | userId :: rest, failed =>
    match active.lookup userId with
    | none => deliverTo eventUuid text active rest failed
    | some peerId => do
      match ← await (.claimAttempt eventUuid userId peerId) with
      | none => deliverTo eventUuid text active rest failed
      | some _ => do
        if ← await (.sendMessage peerId text) then do
          let _ ← await (.markSent eventUuid userId)
          deliverTo eventUuid text active rest failed
        else do
          let _ ← await (.markFailed eventUuid userId "VK_API_SEND_FAILED")
          deliverTo eventUuid text active rest true

def deliver (command : NotificationCommandSendVkData) : Py Unit := do
  let bindings ← await (.userVkGetByUserIds command.userIds (some .active))
  let failed ← deliverTo command.eventUuid command.text (activePeers bindings) command.userIds false
  if failed then throw .deliveryRetryable else pure ()

end VkService
