import Mathlib.Data.Set.Operations
import VkService.Domain.Handlers
import VkService.Text.UuidText

/-! The handler of notification commands up to the point where a command is accepted: decoding
and validation of the payload, and the identity that the header has to carry. -/
namespace VkService
open PyStr Effects Effects.Prog

def namespaceDns : UUID := 0x6ba7b8109dad11d180b400c04fd430c8

section Identity
variable (uuid5 : UUID → Str → UUID)

def namespaceNotificationCommand : UUID := uuid5 namespaceDns "notification-commands.eqcms".toList

def vkChannelCode : Str := "vk".toList

def commandName (correlationId : UUID) (channelCode : Str) : Str := uuidText correlationId ++ ':' :: channelCode

def buildCommandMsgId (correlationId : UUID) (channelCode : Str) : UUID :=
  uuid5 (namespaceNotificationCommand uuid5) (commandName correlationId channelCode)

end Identity

/-- The fields of a payload as their types and lengths admit them. -/
structure SendVkFields where
  eventUuid : UUID
  callbackRequestId : UUID
  userIds : List UUID
  text : Str
  callback_lt : callbackRequestId < 2 ^ 128
  userIds_nonempty : userIds ≠ []
  text_length : 1 ≤ text.length ∧ text.length ≤ 4096

/-- The validated command with its correlation. -/
structure SendVkCommand extends NotificationCommandSendVkData where
  callbackRequestId : UUID

/-- What decoding can raise. The first three are caught by the handler. -/
inductive DecodeExn where
  | validationError | valueError | keyError
  | other (e : Exn)

def deduplicateUserIds (value : List UUID) : List UUID := value.eraseDups

/-- A `ValueError` of a validator becomes a `ValidationError`. -/
def validateText (value : Str) : Except DecodeExn Str :=
  let value := strip value
  if value.isEmpty then throw .validationError else pure value

theorem mem_deduplicateUserIds {u : UUID} {value : List UUID} : u ∈ deduplicateUserIds value ↔ u ∈ value :=
  List.mem_eraseDups

theorem deduplicateUserIds_cons (u : UUID) (value : List UUID) :
    deduplicateUserIds (u :: value) = u :: deduplicateUserIds (value.filter (! · == u)) :=
  List.eraseDups_cons

theorem nodup_deduplicateUserIds (value : List UUID) : (deduplicateUserIds value).Nodup := by
  induction hlen : value.length using Nat.strongRecOn generalizing value with
  | _ n ih =>
    cases value with
    | nil => exact List.nodup_nil
    | cons u value =>
      have hshorter : (value.filter (! · == u)).length < n := by
        have := List.length_filter_le (! · == u) value
        rw [List.length_cons] at hlen
        omega
      rw [deduplicateUserIds_cons, List.nodup_cons, mem_deduplicateUserIds, List.mem_filter]
      exact ⟨fun h => by simp at h, ih _ hshorter _ rfl⟩

theorem deduplicateUserIds_ne_nil {value : List UUID} (h : value ≠ []) : deduplicateUserIds value ≠ [] := by
  obtain ⟨u, value, rfl⟩ := List.exists_cons_of_ne_nil h
  rw [deduplicateUserIds_cons]
  exact List.cons_ne_nil _ _

/-- The command behind its validators. -/
def validatedCommand (eventUuid : UUID) (userIds : List UUID) (hne : userIds ≠ []) (text : String) :
    NotificationCommandSendVkData where
  eventUuid := eventUuid
  userIds := deduplicateUserIds userIds
  text := text
  userIds_nonempty := deduplicateUserIds_ne_nil hne
  userIds_nodup := nodup_deduplicateUserIds userIds

/-- The field validators. -/
def modelValidate (fields : SendVkFields) : Except DecodeExn SendVkCommand := do
  let text ← validateText fields.text
  pure {
    toNotificationCommandSendVkData :=
      validatedCommand fields.eventUuid fields.userIds fields.userIds_nonempty (String.ofList text)
    callbackRequestId := fields.callbackRequestId }

def readMessageId (headers : List (String × String)) : Except DecodeExn UUID :=
  match headers.lookup "Nats-Msg-Id" with
  | none => throw .keyError
  | some value =>
    match readUuid value.toList with
    | none => throw .valueError
    | some messageId => pure messageId

/-- The outside of the handler: the JSON parser of the schema library, and `uuid5`. -/
structure Decoding where
  parse : List UInt8 → Except DecodeExn SendVkFields
  uuid5 : UUID → Str → UUID

def decodeCommand (d : Decoding) (payload : List UInt8) (headers : List (String × String)) :
    Except DecodeExn (SendVkCommand × UUID) := do
  let command ← d.parse payload >>= modelValidate
  let messageId ← readMessageId headers
  pure (command, messageId)

/-- `NotificationCommandsSendVkHandler.handle`. -/
def handle (d : Decoding) (payload : List UInt8) (headers : List (String × String)) : Py Unit :=
  match decodeCommand d payload headers with
  | .error (.other e) => throw e
  | .error _ => throw (.valueError "Invalid VK notification command")
  | .ok (command, messageId) =>
    if messageId ≠ buildCommandMsgId d.uuid5 command.callbackRequestId vkChannelCode then
      throw (.valueError "Nats-Msg-Id does not match the VK command identity")
    else handleCommand command.toNotificationCommandSendVkData

/-- The payload is this command, and the header carries its identity on the VK channel. -/
structure OwnIdentity (d : Decoding) (payload : List UInt8) (headers : List (String × String))
    (command : SendVkCommand) : Prop where
  decoded : (d.parse payload >>= modelValidate) = .ok command
  header : ∃ value, headers.lookup "Nats-Msg-Id" = some value ∧ readUuid value.toList =
    some (d.uuid5 (namespaceNotificationCommand d.uuid5) (uuidText command.callbackRequestId ++ ":vk".toList))

theorem readMessageId_eq {headers : List (String × String)} {messageId : UUID} :
    readMessageId headers = .ok messageId ↔
      ∃ value, headers.lookup "Nats-Msg-Id" = some value ∧ readUuid value.toList = some messageId := by
  rw [readMessageId]
  split
  next hnone => simp [hnone, throw, throwThe, MonadExceptOf.throw]
  next value hvalue =>
    split
    next hbad => simp [hvalue, hbad, throw, throwThe, MonadExceptOf.throw]
    next id hread => simp [hvalue, hread, pure, Except.pure]

/-- A chain fails where one of its parts does. -/
theorem bind_eq_error {ε α β : Type} {x : Except ε α} {f : α → Except ε β} {e : ε} (h : (x >>= f) = .error e) :
    x = .error e ∨ ∃ a, x = .ok a ∧ f a = .error e := by
  cases x with
  | error e' => exact .inl (congrArg Except.error (Except.error.inj h))
  | ok a => exact .inr ⟨a, rfl, h⟩

section Handle
variable {d : Decoding} {payload : List UInt8} {headers : List (String × String)}

theorem handle_ok {command : SendVkCommand} {messageId : UUID}
    (h : decodeCommand d payload headers = .ok (command, messageId)) :
    handle d payload headers = if messageId ≠ buildCommandMsgId d.uuid5 command.callbackRequestId vkChannelCode then
      .raise (.valueError "Nats-Msg-Id does not match the VK command identity")
    else handleCommand command.toNotificationCommandSendVkData := by
  rw [handle, h]
  rfl

theorem decodeCommand_ok {command : SendVkCommand} {messageId : UUID} :
    decodeCommand d payload headers = .ok (command, messageId) ↔
      (d.parse payload >>= modelValidate) = .ok command ∧ readMessageId headers = .ok messageId := by
  rw [decodeCommand]
  cases d.parse payload >>= modelValidate with
  | error e => simp [bind, Except.bind]
  | ok c =>
    cases readMessageId headers with
    | error e => simp [bind, Except.bind]
    | ok id => simp [bind, Except.bind, pure, Except.pure]

theorem modelValidate_error {fields : SendVkFields} {e : DecodeExn} (h : modelValidate fields = .error e) :
    e = .validationError := by
  rw [modelValidate, validateText] at h
  by_cases hblank : (strip fields.text).isEmpty = true
  · simp only [if_pos hblank] at h
    exact (Except.error.inj h).symm
  · simp only [if_neg hblank] at h
    exact nomatch h

theorem modelValidate_callback {fields : SendVkFields} {command : SendVkCommand}
    (h : modelValidate fields = .ok command) :
    command.callbackRequestId = fields.callbackRequestId := by
  rw [modelValidate] at h
  cases hv : validateText fields.text with
  | error e =>
    rw [hv] at h
    exact nomatch h
  | ok text =>
    rw [hv] at h
    rw [← Except.ok.inj h]

theorem readMessageId_error {e : DecodeExn} (h : readMessageId headers = .error e) :
    e = .keyError ∨ e = .valueError := by
  rw [readMessageId] at h
  split at h
  · exact .inl (Except.error.inj h).symm
  · split at h
    · exact .inr (Except.error.inj h).symm
    · exact nomatch h

/-- Every failure to decode is caught, if the parser raises what it documents. -/
theorem handle_error (hparse : ∀ payload e, d.parse payload ≠ .error (.other e)) {e : DecodeExn}
    (h : decodeCommand d payload headers = .error e) :
    handle d payload headers = .raise (.valueError "Invalid VK notification command") := by
  have hcaught : ∀ x, e ≠ .other x := by
    rintro x rfl
    obtain h | ⟨c, -, h⟩ := bind_eq_error h
    · obtain h | ⟨fields, -, h⟩ := bind_eq_error h
      · exact hparse payload x h
      · exact nomatch modelValidate_error h
    · obtain h | ⟨id, -, h⟩ := bind_eq_error h
      · obtain h | h := readMessageId_error h
        · cases h
        · cases h
      · cases h
  rw [handle, h]
  cases e with
  | validationError | valueError | keyError => rfl
  | other x => exact (hcaught x rfl).elim

theorem ownIdentity_iff {command : SendVkCommand} : OwnIdentity d payload headers command ↔
    decodeCommand d payload headers = .ok (command, buildCommandMsgId d.uuid5 command.callbackRequestId vkChannelCode) := by
  rw [decodeCommand_ok, readMessageId_eq]
  exact ⟨fun h => ⟨h.decoded, h.header⟩, fun h => ⟨h.1, h.2⟩⟩

end Handle

theorem commandName_inj {r r' : UUID} {ch ch' : Str} (hr : r < 2 ^ 128) (hr' : r' < 2 ^ 128)
    (h : commandName r ch = commandName r' ch') : r = r' ∧ ch = ch' := by
  have hlength : (uuidText r).length = (uuidText r').length := (length_uuidText r).trans (length_uuidText r').symm
  obtain ⟨htext, hrest⟩ := List.append_inj h hlength
  exact ⟨uuidText_inj hr hr' htext, (List.cons.inj hrest).2⟩

/-- Only a command with its own VK identity is delivered. Anything else raises `ValueError`
before a session is opened, and so does the identity of another callback or channel. -/
theorem handle_own_identity (d : Decoding) (hparse : ∀ payload e, d.parse payload ≠ .error (.other e)) :
    (∀ payload headers, (∃ command, OwnIdentity d payload headers command ∧
        handle d payload headers = handleCommand command.toNotificationCommandSendVkData) ∨
      ((∀ command, ¬ OwnIdentity d payload headers command) ∧
        ∃ message, handle d payload headers = .raise (.valueError message))) ∧
    ∀ names : Set Str, Set.InjOn (d.uuid5 (namespaceNotificationCommand d.uuid5)) names →
      ∀ r r' ch, r < 2 ^ 128 → r' < 2 ^ 128 → commandName r vkChannelCode ∈ names → commandName r' ch ∈ names →
      (r', ch) ≠ (r, vkChannelCode) →
      ∀ payload headers fields value, d.parse payload = .ok fields → fields.callbackRequestId = r →
      headers.lookup "Nats-Msg-Id" = some value → readUuid value.toList = some (buildCommandMsgId d.uuid5 r' ch) →
      ∃ message, handle d payload headers = .raise (.valueError message) := by
  have hfirst : ∀ payload headers, (∃ command, OwnIdentity d payload headers command ∧
        handle d payload headers = handleCommand command.toNotificationCommandSendVkData) ∨
      ((∀ command, ¬ OwnIdentity d payload headers command) ∧
        ∃ message, handle d payload headers = .raise (.valueError message)) := by
    intro payload headers
    simp only [ownIdentity_iff]
    cases hdecode : decodeCommand d payload headers with
    | error e => exact .inr ⟨fun _ h => (nomatch h), _, handle_error hparse hdecode⟩
    | ok decoded =>
      obtain ⟨command, messageId⟩ := decoded
      rw [handle_ok hdecode]
      by_cases hid : messageId = buildCommandMsgId d.uuid5 command.callbackRequestId vkChannelCode
      · exact .inl ⟨command, by rw [hid], if_neg (not_not_intro hid)⟩
      · refine .inr ⟨fun command' h => hid ?_, _, if_pos hid⟩
        obtain ⟨rfl, hid'⟩ := Prod.mk.inj (Except.ok.inj h)
        exact hid'
  refine ⟨hfirst, ?_⟩
  intro names hinj r r' ch hr hr' hname hname' hne payload headers fields value hfields hcallback hvalue hread
  obtain ⟨command, howns, -⟩ | ⟨-, hraise⟩ := hfirst payload headers
  · exfalso
    obtain ⟨hdecoded, value', hvalue', hread'⟩ := howns
    obtain rfl := Option.some.inj (hvalue.symm.trans hvalue')
    have hsame : command.callbackRequestId = r := by
      rw [hfields] at hdecoded
      exact (modelValidate_callback hdecoded).trans hcallback
    rw [hsame] at hread'
    have hids := Option.some.inj (hread.symm.trans hread')
    obtain ⟨rfl, rfl⟩ := commandName_inj hr' hr (hinj hname' hname hids)
    exact hne rfl
  · exact hraise

section Vector

def vectorCallbackId : UUID := 0xe317a8b95513437bae2aabb0a8883ca8

/-- The values of `uuid5` for the fixed vector of the tests. -/
def vectorUuid5 (namespaceId : UUID) (name : Str) : UUID :=
  if namespaceId = namespaceDns then 0xc93931272bab5de181765a66012af5d7
  else if name = commandName vectorCallbackId vkChannelCode then 0xaacfe433467a5b34812d165f7773589d
  else 0x0a08d7c9ac685c4f8e7a7c30d3c8c1d4

def vectorPayload : List UInt8 :=
  ("\x7b\"event_uuid\":\"00000000-0000-4000-8000-000000000001\",\"user_ids\":[\"00000000-0000-4000-8000-000000000002\"]," ++
    "\"callback_request_id\":\"e317a8b9-5513-437b-ae2a-abb0a8883ca8\",\"text\":\"New request\"\x7d").toUTF8.toList

def vectorFields : SendVkFields where
  eventUuid := 0x00000000000040008000000000000001
  callbackRequestId := vectorCallbackId
  userIds := [0x00000000000040008000000000000002]
  text := "New request".toList
  callback_lt := by decide
  userIds_nonempty := by decide
  text_length := by decide

def vectorDecoding : Decoding where
  parse payload := if payload = vectorPayload then .ok vectorFields else .error .validationError
  uuid5 := vectorUuid5

/-- The command of the vector with the identity of its e-mail twin. -/
theorem handle_own_identity_email : ∃ message, handle vectorDecoding vectorPayload
    [("Nats-Msg-Id", "0a08d7c9-ac68-5c4f-8e7a-7c30d3c8c1d4")] = .raise (.valueError message) := by
  have hparse : ∀ payload e, vectorDecoding.parse payload ≠ .error (.other e) := by
    intro payload e h
    by_cases hp : payload = vectorPayload
    · exact nomatch (if_pos hp).symm.trans h
    · exact nomatch (if_neg hp).symm.trans h
  have hvk : buildCommandMsgId vectorUuid5 vectorCallbackId vkChannelCode = 0xaacfe433467a5b34812d165f7773589d := by
    decide +kernel
  have hemail : buildCommandMsgId vectorUuid5 vectorCallbackId "email".toList = 0x0a08d7c9ac685c4f8e7a7c30d3c8c1d4 := by
    decide +kernel
  have hinj : Set.InjOn (vectorUuid5 (namespaceNotificationCommand vectorUuid5))
      {commandName vectorCallbackId vkChannelCode, commandName vectorCallbackId "email".toList} := by
    rintro _ (rfl | rfl) _ (rfl | rfl) h
    · rfl
    · exact absurd (hvk.symm.trans (h.trans hemail)) (by decide)
    · exact absurd (hvk.symm.trans (h.symm.trans hemail)) (by decide)
    · rfl
  exact (handle_own_identity vectorDecoding hparse).2 _ hinj vectorCallbackId vectorCallbackId "email".toList
    (by decide)
    (by decide) (.inl rfl) (.inr rfl) (by decide) vectorPayload _ vectorFields _ (if_pos rfl) rfl rfl
    ((congrArg some hemail).symm ▸ (by decide +kernel))

end Vector

end VkService
