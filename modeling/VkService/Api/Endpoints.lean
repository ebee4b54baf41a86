import VkService.Configuration.GroupId
import VkService.Domain.Handlers
import VkService.Text.Separated
import VkService.Text.UuidText

/-! The HTTP interface: the query parameters, the endpoints in their sessions, and the
responses to results and errors. -/
namespace VkService
open PyStr Effects Effects.Prog

/-- The error with which an endpoint refuses its parameters. -/
structure ClientError where
  message : Str
  deriving DecidableEq

def badUserIdMessage : Str := "Некорректный идентификатор пользователя: ".toList
def noUserIdsMessage : Str := "Параметр user_ids не содержит идентификаторов".toList
def unknownStateMessage : Str := "Неизвестное состояние привязки: ".toList
def notConfiguredMessage : Str := "Конфигурация группы VK не завершена".toList

def parseUserIds (raw : Str) : Except ClientError (List UUID) :=
  match readItems readUuid (fields ',' raw) with
  | .error candidate => .error ⟨badUserIdMessage ++ candidate⟩
  | .ok [] => .error ⟨noUserIdsMessage⟩
  | .ok parsed => .ok parsed

def allowedStates : List BindingState := [.pending, .active, .blocked]

def validateState : Option Str → Except ClientError (Option BindingState)
  | none => .ok none
  | some state =>
    match allowedStates.find? (·.text.toList == state) with
    | none => .error ⟨unknownStateMessage ++ state⟩
    | some allowed => .ok (some allowed)

/-- `VkBindingResponse`. -/
structure VkBindingResponse where
  id : UUID
  userId : UUID
  vkPeerId : Option PeerId
  state : BindingState
  vkScreenName : Option String
  vkDisplayName : Option String
  deriving DecidableEq

def VkBindingResponse.ofRow (r : UserVk) : VkBindingResponse where
  id := r.id
  userId := r.userId
  vkPeerId := r.vkPeerId
  state := r.state
  vkScreenName := r.vkScreenName
  vkDisplayName := r.vkDisplayName

/-- The settings of the group that the endpoints publish. -/
structure GroupSettings where
  vkGroupId : Int
  vkGroupScreenName : Str

namespace GroupSettings

def isConfigured (g : GroupSettings) : Bool := isGroupConfigured g.vkGroupScreenName g.vkGroupId

def groupUrl (g : GroupSettings) : Str := "https://vk.com/".toList ++ strip g.vkGroupScreenName

def dialogUrl (g : GroupSettings) : Str := "https://vk.me/".toList ++ strip g.vkGroupScreenName

end GroupSettings

inductive Body where
  | bindings (rows : List VkBindingResponse)
  | binding (row : VkBindingResponse)
  | botInfo (groupId : Int) (groupScreenName linkCommand groupUrl dialogUrl : Str)
  | issued (code : Str) (expiresAt : Time) (state : BindingState) (linkCommand dialogUrl : Str)
  | detail (message : Str)
  | serverError
  | empty
  deriving DecidableEq

structure Response where
  status : Nat
  body : Body
  deriving DecidableEq

/-- The status of an `AppError`, with its message. -/
def Exn.appError : Exn → Option (Nat × String)
  | .notFound message => some (404, message)
  | .alreadyExists message | .conflict message => some (409, message)
  | .gone message => some (410, message)
  | .rateLimited message => some (429, message)
  | _ => none

/-- `app_error_handler`, and the answer of the server to any other exception. -/
def errorResponse (e : Exn) : Response :=
  match e.appError with
  | some (status, message) => ⟨status, .detail message.toList⟩
  | none => ⟨500, .serverError⟩

def respond (endpoint : Py Response) : Py Response :=
  tryCatch endpoint fun e => if e.isException then pure (errorResponse e) else throw e

/-- `get_session` around an endpoint that raises before its first call. -/
def refuse (e : ClientError) : Py Response := do
  withSession (await .rollback)
  pure ⟨400, .detail e.message⟩

inductive HttpRequest where
  | getBindings (userIds : Str) (state : Option Str)
  | getBotInfo
  | createBinding (userId : UUID)
  | issueConfirmation (userId : UUID)
  | deleteBinding (userId : UUID)

def getBindings (userIds : Str) (state : Option Str) : Py Response :=
  match parseUserIds userIds, validateState state with
  | .error e, _ => refuse e
  | .ok _, .error e => refuse e
  | .ok ids, .ok wanted => do
    let rows ← getSession (await (.userVkGetByUserIds ids wanted))
    pure ⟨200, .bindings (rows.map .ofRow)⟩

def getBotInfo (settings : VkSettings) (group : GroupSettings) : Response :=
  if group.isConfigured then
    ⟨200, .botInfo group.vkGroupId (strip group.vkGroupScreenName) settings.vkBotLinkCommand group.groupUrl
      group.dialogUrl⟩
  else ⟨503, .detail notConfiguredMessage⟩

def createBinding (userId : UUID) : Py Response := do
  let (binding, created) ← getSession (ensureBinding userId)
  pure ⟨if created then 201 else 200, .binding (.ofRow binding)⟩

def issueConfirmationEndpoint (settings : VkSettings) (group : GroupSettings) (userId : UUID) : Py Response := do
  let issued ← getSession (issueConfirmation settings userId)
  pure ⟨201, .issued issued.code issued.expiresAt issued.state settings.vkBotLinkCommand group.dialogUrl⟩

def deleteBinding (userId : UUID) : Py Response := do
  let _ ← getSession (unlink userId)
  pure ⟨204, .empty⟩

def HttpRequest.prog (settings : VkSettings) (group : GroupSettings) : HttpRequest → Py Response
  | .getBindings userIds state => respond (VkService.getBindings userIds state)
  | .getBotInfo => pure (VkService.getBotInfo settings group)
  | .createBinding userId => respond (VkService.createBinding userId)
  | .issueConfirmation userId => respond (issueConfirmationEndpoint settings group userId)
  | .deleteBinding userId => respond (VkService.deleteBinding userId)

section Parameters
variable {raw : Str} {ids : List UUID} {e : ClientError}

theorem parseUserIds_ok : parseUserIds raw = .ok ids ↔ ids ≠ [] ∧ (fields ',' raw).map readUuid = ids.map some := by
  rw [parseUserIds, ← readItems_ok]
  cases hread : readItems readUuid (fields ',' raw) with
  | error candidate => simp
  | ok parsed =>
    cases parsed with
    | nil =>
      refine iff_of_false (fun h => by cases h) ?_
      rintro ⟨hne, h⟩
      exact hne (Except.ok.inj h).symm
    | cons id parsed =>
      constructor
      · intro h
        obtain rfl := Except.ok.inj h
        exact ⟨List.cons_ne_nil _ _, rfl⟩
      · rintro ⟨-, h⟩
        rw [← Except.ok.inj h]

theorem parseUserIds_error : parseUserIds raw = .error e ↔
    fields ',' raw = [] ∧ e.message = noUserIdsMessage ∨
    ∃ before item after, fields ',' raw = before ++ item :: after ∧ readUuid item = none ∧
      (∀ item' ∈ before, readUuid item' ≠ none) ∧ e.message = badUserIdMessage ++ item := by
  rw [parseUserIds]
  cases hread : readItems readUuid (fields ',' raw) with
  | error candidate =>
    obtain ⟨before, after, hfields, hnone, hbefore⟩ := readItems_error.mp hread
    constructor
    · intro h
      rw [← Except.error.inj h]
      exact .inr ⟨before, candidate, after, hfields, hnone, hbefore, rfl⟩
    · rintro (⟨hempty, -⟩ | ⟨before', item, after', hfields', hnone', hbefore', hmessage⟩)
      · rw [hempty] at hread
        cases hread
      · have hsame := readItems_error.mpr ⟨before', after', hfields', hnone', hbefore'⟩
        rw [hread] at hsame
        rw [Except.error.inj hsame]
        exact congrArg Except.error (congrArg ClientError.mk hmessage.symm)
  | ok parsed =>
    have hvalues := readItems_ok.mp hread
    have hreadable : ∀ before item after, fields ',' raw = before ++ item :: after → readUuid item ≠ none := by
      intro before item after hfields hnone
      have hmem : none ∈ parsed.map some := hvalues ▸ List.mem_map.mpr ⟨item, by simp [hfields], hnone⟩
      simp at hmem
    have hempty : fields ',' raw = [] ↔ parsed = [] := by
      rw [← List.map_eq_nil_iff, hvalues, List.map_eq_nil_iff]
    cases parsed with
    | nil =>
      have hfields := hempty.mpr rfl
      constructor
      · intro h
        rw [← Except.error.inj h]
        exact .inl ⟨hfields, rfl⟩
      · rintro (⟨-, hmessage⟩ | ⟨before, item, after, hfields', hnone, -⟩)
        · exact congrArg Except.error (congrArg ClientError.mk hmessage.symm)
        · exact absurd hnone (hreadable _ _ _ hfields')
    | cons id parsed =>
      refine iff_of_false (fun h => by cases h) ?_
      rintro (⟨hnone, -⟩ | ⟨before, item, after, hfields, hnone, -⟩)
      · exact List.cons_ne_nil _ _ (hempty.mp hnone)
      · exact hreadable _ _ _ hfields hnone

theorem validateState_ok {state : Option Str} {wanted : Option BindingState} :
    validateState state = .ok wanted ↔ state = wanted.map fun s => s.text.toList := by
  cases state with
  | none => cases wanted <;> simp [validateState]
  | some text =>
    have hfind : ∀ s : BindingState, allowedStates.find? (·.text.toList == s.text.toList) = some s := by
      intro s
      cases s <;> decide
    rw [validateState]
    cases hstate : allowedStates.find? (·.text.toList == text) with
    | none =>
      refine iff_of_false (fun h => by cases h) fun h => ?_
      cases wanted with
      | none => cases h
      | some s =>
        obtain rfl := Option.some.inj h
        rw [hfind s] at hstate
        cases hstate
    | some s =>
      have htext : s.text.toList = text := by simpa using List.find?_some hstate
      constructor
      · intro h
        obtain rfl := Except.ok.inj h
        rw [Option.map_some, htext]
      · intro h
        cases wanted with
        | none => cases h
        | some s' =>
          obtain rfl := Option.some.inj h
          rw [hfind s'] at hstate
          rw [Option.some.inj hstate]

end Parameters

/-- Identifiers between commas are read as written, with any white space around them and
blanks between them. Any other text is refused, and the message names the first item in it
that is no identifier. -/
theorem parseUserIds_reads :
    (∀ (ids : List UUID) (parts : List Str), ids ≠ [] → (∀ id ∈ ids, id < 2 ^ 128) → (∀ part ∈ parts, ',' ∉ part) →
      (parts.map strip).filter (!·.isEmpty) = ids.map uuidText →
      parseUserIds ([','].intercalate parts) = .ok ids) ∧
    ∀ raw, (∃ ids, ids ≠ [] ∧ parseUserIds raw = .ok ids ∧ (fields ',' raw).map readUuid = ids.map some) ∨
      (parseUserIds raw = .error ⟨noUserIdsMessage⟩ ∧ ∀ item ∈ items ',' raw, item = []) ∨
      ∃ before item after, fields ',' raw = before ++ item :: after ∧ readUuid item = none ∧
        (∀ item' ∈ before, readUuid item' ≠ none) ∧ parseUserIds raw = .error ⟨badUserIdMessage ++ item⟩ := by
  constructor
  · intro ids parts hne hrange hcomma hparts
    have hparts_ne : parts ≠ [] := by
      rintro rfl
      exact hne (List.map_eq_nil_iff.mp hparts.symm)
    have hround : ∀ id ∈ ids, readUuid (uuidText id) = some id := fun id hid => readUuid_uuidText (hrange id hid)
    have hread : (fields ',' ([','].intercalate parts)).map readUuid = ids.map some := by
      rw [fields, items_intercalate hparts_ne hcomma, hparts, List.map_map]
      refine List.map_congr_left fun id hid => ?_
      rw [Function.comp_apply, hround id hid]
    exact parseUserIds_ok.mpr ⟨hne, hread⟩
  · intro raw
    cases hparse : parseUserIds raw with
    | ok ids =>
      obtain ⟨hne, hread⟩ := parseUserIds_ok.mp hparse
      exact .inl ⟨ids, hne, rfl, hread⟩
    | error e =>
      right
      rcases parseUserIds_error.mp hparse with ⟨hempty, hmessage⟩ |
        ⟨before, item, after, hfields, hnone, hbefore, hmessage⟩
      · exact .inl ⟨congrArg Except.error (congrArg ClientError.mk hmessage), fields_eq_nil.mp hempty⟩
      · exact .inr ⟨before, item, after, hfields, hnone, hbefore, congrArg Except.error (congrArg ClientError.mk hmessage)⟩

example : parseUserIds " 00000000-0000-4000-8000-000000000001 ,, 00000000000040008000000000000002".toList =
    .ok [0x00000000000040008000000000000001, 0x00000000000040008000000000000002] := by
  decide +kernel

end VkService
