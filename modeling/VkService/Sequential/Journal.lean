import VkService.Sequential.EndToEnd
import VkService.Sequential.Frame

/-! The journal rows of the requests that decide something. A refused issue raises behind
its own journal row, and the session of the API takes that row back. -/
namespace VkService
open PyStr Effects Effects.Prog UserVkRepository VkConfirmationRepository

/-- The requests of the API and the events of the bot that decide about a binding. -/
inductive Handled where
  | issueConfirmation (userId : UUID)
  | unlink (userId : UUID)
  | message (peerId fromId : PeerId) (text : Str)
  | messageDeny (userId : PeerId)
  | messageAllow (userId : PeerId)

inductive HandledReply where
  | issued (confirmation : IssuedConfirmation)
  | unlinked (done : Bool)
  | outcome (outcome : Outcome)
  | changed (done : Bool)

namespace Handled

def prog (settings : VkSettings) : Handled → Py HandledReply
  | .issueConfirmation userId => getSession do
      let issued ← VkService.issueConfirmation settings userId
      pure (.issued issued)
  | .unlink userId => getSession do
      let done ← VkService.unlink userId
      pure (.unlinked done)
  | .message peerId fromId text => do
      let outcome ← handleMessage settings peerId fromId text
      pure (.outcome outcome)
  | .messageDeny userId => do
      let done ← block userId
      botCommit
      pure (.changed done)
  | .messageAllow userId => do
      let done ← unblock userId
      botCommit
      pure (.changed done)

/-- Of the messages, the private ones with the link command and a code. -/
def Decides (settings : VkSettings) : Handled → Prop
  | .message peerId _ text => peerId < chatPeerThreshold ∧
      ∃ code, code ≠ [] ∧ parseLinkCommand text settings.vkBotLinkCommand = some code
  | _ => True

end Handled

/-- The journal statuses of an outcome. A code whose binding is gone is answered as not found. -/
def Outcome.Journals : Outcome → LogStatus → Prop
  | .confirmed, status => status = .success
  | .alreadyConfirmed, status => status = .alreadyConfirmed
  | .notFound, status => status = .notFound ∨ status = .error
  | .used, status => status = .used
  | .expired, status => status = .expired
  | .peerConflict, status => status = .peerConflict
  | .rateLimited, status => status = .rateLimited
  | _, _ => False

def conflictActiveMessage : String := "Аккаунт VK уже привязан"
def conflictBlockedMessage : String := "Бот заблокирован: разрешите сообщения от группы в диалоге с ботом"
def codesTakenMessage : String := "Не удалось сгенерировать уникальный код подтверждения, повторите попытку"

/-- The journal row agrees with the response. -/
def Handled.Agrees : Handled → Except Exn HandledReply → VkLog → Prop
  | .issueConfirmation _, .ok (.issued _), l => l.action = .issue ∧ l.status = .success
  | .issueConfirmation _, .error (.conflict reason), l => l.action = .issue ∧
      (reason = conflictActiveMessage ∧ l.status = .conflictActive ∨
        reason = conflictBlockedMessage ∧ l.status = .conflictBlocked)
  | .unlink _, .ok (.unlinked done), l => l.action = .unlink ∧ l.status = if done then .success else .noop
  | .message _ _ _, .ok (.outcome outcome), l => l.action = .confirmation ∧ outcome.Journals l.status
  | .messageDeny _, .ok (.changed done), l => l.action = .deny ∧ l.status = if done then .success else .noBinding
  | .messageAllow _, .ok (.changed done), l => l.action = .allow ∧ l.status = if done then .success else .noBinding
  | _, _, _ => False

/-- The request left one journal row, which agrees with its response. -/
def Journalled (settings : VkSettings) (T : Tables) (o : Surroundings) (request : Handled) : Prop :=
  ∃ l, (runAlone (request.prog settings) o T).2.2.vkLogs = T.vkLogs ++ [l] ∧
    request.Agrees (runAlone (request.prog settings) o T).1 l

/-- The code that `generate_code` makes of what is drawn. -/
def drawnCode (settings : VkSettings) (w : World) : Str :=
  List.ofFn fun i : Fin settings.vkConfirmationCodeLength => codeLetter (w.draws i)

/-- The call with which the first code of an issue is drawn. -/
def firstDraw (T : Tables) (userId : UUID) : Nat := if (userRow T userId).isSome then 2 else 3

/-- One of the codes that an issue draws is taken by no other row. -/
def CodeFree (settings : VkSettings) (T : Tables) (o : Surroundings) (userId : UUID) : Prop :=
  ∃ j < maxGenerationAttempts, codeRow T (drawnCode settings (o (firstDraw T userId + 2 * j))) = none

/-- The request is not an issue that is refused. -/
def Handled.GoesThrough (settings : VkSettings) (T : Tables) (o : Surroundings) : Handled → Prop
  | .issueConfirmation userId =>
      (∀ b, userRow T userId = some b → b.state = .pending) ∧ CodeFree settings T o userId
  | _ => True

/-- Why an issue is refused, and with which message. -/
inductive IssueRefused (settings : VkSettings) (T : Tables) (o : Surroundings) (userId : UUID) : String → Prop
  | active {b : UserVk} (hrow : userRow T userId = some b) (hstate : b.state = .active) :
      IssueRefused settings T o userId conflictActiveMessage
  | blocked {b : UserVk} (hrow : userRow T userId = some b) (hstate : b.state = .blocked) :
      IssueRefused settings T o userId conflictBlockedMessage
  | codesTaken (hpending : ∀ b, userRow T userId = some b → b.state = .pending)
      (htaken : ¬ CodeFree settings T o userId) :
      IssueRefused settings T o userId codesTakenMessage

section Issue
variable {settings : VkSettings} {o : Surroundings} {C T : Tables} {h : CallHistory}

/-- The loop returns the first drawn code that is free, if there is one. -/
theorem createUniqueCode_drawn (settings : VkSettings) (hT : T.Wf) (attempts : Nat) :
    wp (handler fun h => o h.length) (createUniqueCode settings.vkConfirmationCodeLength attempts) (fun r _ s =>
      s = ⟨C, T⟩ ∧ ((∃ j < attempts, codeRow T (drawnCode settings (o (h.length + 2 * j))) = none) →
        ∃ code, r = .ok code ∧ codeRow T code = none) ∧
      ((∀ j < attempts, codeRow T (drawnCode settings (o (h.length + 2 * j))) ≠ none) →
        r = .error (.conflict codesTakenMessage))) h ⟨C, T⟩ := by
  induction attempts generalizing h with
  | zero => exact ⟨rfl, by simp, fun _ => rfl⟩
  | succ attempts ih =>
    have hlen : settings.vkConfirmationCodeLength ≠ 0 := by
      have := settings.codeLength_ge
      omega
    simp only [createUniqueCode, generateCode, if_neg hlen, await, pure_eq, wp_bind, wp_perform, handler_choices,
      andThen_ok, wp_ret, handler_getByCode _ _ hT]
    have hdrawn : (List.ofFn fun i : Fin settings.vkConfirmationCodeLength => codeLetter ((o h.length).draws i)) =
        drawnCode settings (o h.length) := rfl
    rw [hdrawn]
    cases hrow : codeRow T (drawnCode settings (o h.length)) with
    | none =>
      refine ⟨rfl, fun _ => ⟨_, rfl, hrow⟩, fun hall => absurd hrow (by simpa using hall 0 (by omega))⟩
    | some c =>
      refine wp_mono ih ?_
      rintro r h' s ⟨rfl, hfree, htaken⟩
      have hshift : ∀ j, (List.length (⟨Call.confirmationGetByCode (drawnCode settings (o h.length)), .ok (some c)⟩ ::
          ⟨.choices settings.vkConfirmationCodeLength, .ok fun i => (o h.length).draws i⟩ :: h : CallHistory)) + 2 * j =
            h.length + 2 * (j + 1) := by
        intro j
        simp only [List.length_cons]
        omega
      refine ⟨rfl, fun hsome => hfree ?_, fun hall => htaken fun j hj => ?_⟩
      · obtain ⟨j, hj, hnone⟩ := hsome
        cases j with
        | zero =>
          rw [Nat.mul_zero, Nat.add_zero, hrow] at hnone
          cases hnone
        | succ j => exact ⟨j, by omega, by rw [hshift]; exact hnone⟩
      · rw [hshift]
        exact hall (j + 1) (by omega)

theorem codeRow_invalidated (w : World) (recordId : UUID) (code : Str) :
    codeRow { T with vkConfirmations := invalidated w recordId T.vkConfirmations } code = none ↔
      codeRow T code = none := by
  simp only [codeRow, List.find?_eq_none, beq_iff_eq, mem_invalidated]
  constructor
  · intro hnone c hc hcode
    refine hnone _ ⟨c, hc, rfl⟩ ?_
    split
    · exact hcode
    · exact hcode
  · rintro hnone _ ⟨c, hc, rfl⟩ hcode
    refine hnone c hc ?_
    split at hcode
    · exact hcode
    · exact hcode

/-- How an issue ends: with its journal row when it goes through, else by raising. -/
def IssueEnds (settings : VkSettings) (C T : Tables) (o : Surroundings) (userId : UUID)
    (r : Except Exn IssuedConfirmation) (s : Session) : Prop :=
  s.committed = C ∧
  ((Handled.issueConfirmation userId).GoesThrough settings T o → ∃ i l, r = .ok i ∧
    s.working.vkLogs = T.vkLogs ++ [l] ∧ l.action = .issue ∧ l.status = .success) ∧
  (¬ (Handled.issueConfirmation userId).GoesThrough settings T o →
    ∃ message, r = .error (.conflict message) ∧ IssueRefused settings T o userId message)

/-- The issue for a row that is found or made in `T₁`. -/
theorem issuePending_journal {userId : UUID} {b : UserVk} {T₁ : Tables} (hT : T₁.Wf)
    (hcodes : T₁.vkConfirmations = T.vkConfirmations) (hlogs : T₁.vkLogs = T.vkLogs) (hb : b ∈ T₁.userVks)
    (hlen : h.length + 1 = firstDraw T userId) (hrow : ∀ b, userRow T userId = some b → b.state = .pending) :
    wp (handler fun h => o h.length) (do
        let _ ← await (.confirmationInvalidatePrevious b.id)
        let code ← createUniqueCode settings.vkConfirmationCodeLength maxGenerationAttempts
        let now ← await .now
        let confirmation ← await (.confirmationCreate b.id code (now + minutes settings.vkConfirmationTtlMinutes))
        let _ ← await (.logAction .issue .success
          [("user_id", toString userId), ("user_vk_id", toString b.id), ("code", maskCode code)])
        pure (⟨code, confirmation.expiresAt, .pending⟩ : IssuedConfirmation))
      (fun r _ s => IssueEnds settings C T o userId r s) h ⟨C, T₁⟩ := by
  have hthrough : (Handled.issueConfirmation userId).GoesThrough settings T o ↔ CodeFree settings T o userId :=
    and_iff_right hrow
  simp only [await, wp_bind, wp_perform, handler_invalidatePrevious, andThen_ok]
  have hT₂ : ({ T₁ with vkConfirmations := invalidated (o h.length) b.id T₁.vkConfirmations } : Tables).Wf :=
    hT.updateVkConfirmation fun _ => ⟨rfl, rfl, rfl⟩
  refine wp_mono (createUniqueCode_drawn settings hT₂ maxGenerationAttempts) ?_
  have hsame : ∀ code, codeRow { T₁ with vkConfirmations := invalidated (o h.length) b.id T₁.vkConfirmations } code = none ↔
      codeRow T code = none := by
    intro code
    rw [codeRow_invalidated, codeRow, codeRow, hcodes]
  rintro r h₂ s ⟨rfl, hfree, htaken⟩
  simp only [List.length_cons, hlen, ne_eq, hsame] at hfree htaken
  by_cases hcode : CodeFree settings T o userId
  · obtain ⟨code, rfl, hnew⟩ := hfree hcode
    simp only [andThen_ok, wp_bind, wp_perform, handler_now]
    obtain ⟨id, hid, hcreate⟩ := handler_confirmationCreate (fun h => o h.length)
      (⟨.now, .ok (o h₂.length).now⟩ :: h₂) (C := C) ((hsame code).mpr hnew) hb rfl
      ((o h₂.length).now + minutes settings.vkConfirmationTtlMinutes)
    simp only [hcreate, andThen_ok, wp_bind, wp_perform, handler_logAction, pure_eq, wp_ret]
    exact ⟨rfl, fun _ => ⟨_, _, rfl, by rw [← hlogs], rfl, rfl⟩, fun hnot => absurd (hthrough.mpr hcode) hnot⟩
  · obtain rfl := htaken fun j hj hnone => hcode ⟨j, hj, hnone⟩
    exact ⟨rfl, fun hgo => absurd (hthrough.mp hgo) hcode, fun _ => ⟨_, rfl, .codesTaken hrow hcode⟩⟩

/-- An issue succeeds and is journalled, or is refused. -/
theorem issueConfirmation_journal (settings : VkSettings) (userId : UUID) (hT : T.Wf) :
    wp (handler fun h => o h.length) (issueConfirmation settings userId)
      (fun r _ s => IssueEnds settings C T o userId r s) [] ⟨C, T⟩ := by
  simp only [issueConfirmation, ensureBinding, await, wp_bind, wp_perform, handler_getByUserId _ _ hT, andThen_ok]
  cases hrow : userRow T userId with
  | some b =>
    have hstuck : b.state ≠ .pending → ¬ (Handled.issueConfirmation userId).GoesThrough settings T o :=
      fun hne hgo => hne (hgo.1 b hrow)
    simp only [pure_eq, wp_ret, andThen_ok]
    cases hstate : b.state with
    | active =>
      simp only [throw_eq, wp_bind, wp_perform, handler_logAction, andThen_ok, wp_raise]
      exact ⟨rfl, fun hgo => absurd hgo (hstuck (by simp [hstate])), fun _ => ⟨_, rfl, .active hrow hstate⟩⟩
    | blocked =>
      simp only [throw_eq, wp_bind, wp_perform, handler_logAction, andThen_ok, wp_raise]
      exact ⟨rfl, fun hgo => absurd hgo (hstuck (by simp [hstate])), fun _ => ⟨_, rfl, .blocked hrow hstate⟩⟩
    | pending =>
      refine issuePending_journal hT rfl rfl (userRow_some hrow).1 (by simp [firstDraw, hrow]) fun b' hb' => ?_
      rw [hrow, Option.some.injEq] at hb'
      rwa [← hb']
  | none =>
    obtain ⟨id, hid, hcreate⟩ := handler_create (fun h => o h.length)
      [⟨.userVkGetByUserId userId, .ok none⟩] (C := C) hrow
    simp only [wp_tryCatch, wp_bind, wp_perform, hcreate, andThen_ok, pure_eq, wp_ret, orElse_ok]
    refine issuePending_journal (hT.insertUserVk hid (pendingRow_free hrow _ _)) rfl rfl
      (List.mem_append_right _ (by simp)) (by simp [firstDraw, hrow]) fun b hb => ?_
    rw [hrow] at hb
    cases hb

end Issue

section Others
variable {settings : VkSettings} {world : CallHistory → World} {C T : Tables} {h : CallHistory}

/-- The session ends with one more journal row. -/
def EndsJournalled (C T : Tables) (action : LogAction) (status : LogStatus) (s : Session) : Prop :=
  s.committed = C ∧ ∃ l, s.working.vkLogs = T.vkLogs ++ [l] ∧ l.action = action ∧ l.status = status

theorem unlink_journal (userId : UUID) (hT : T.Wf) :
    wp (handler world) (unlink userId) (fun r _ s => ∃ done, r = .ok done ∧
      EndsJournalled C T .unlink (if done then .success else .noop) s) h ⟨C, T⟩ := by
  simp only [unlink, await, wp_bind, wp_perform, handler_getByUserId _ _ hT, andThen_ok]
  cases hrow : userRow T userId with
  | none =>
    simp only [wp_bind, wp_perform, handler_logAction, andThen_ok, pure_eq, wp_ret]
    exact ⟨false, rfl, rfl, _, rfl, rfl, rfl⟩
  | some b =>
    simp only [wp_bind, wp_perform, handler_invalidatePrevious, handler_softDelete, handler_logAction, andThen_ok]
    refine wp_mono (notifyUnlinked_wp _ _ _) ?_
    rintro r h' s ⟨rfl, rfl, -⟩
    exact ⟨true, rfl, rfl, _, rfl, rfl, rfl⟩

theorem transition_journal (vkPeerId : PeerId) (state : BindingState) (action : LogAction) (hT : T.Wf) :
    wp (handler world) (transition vkPeerId state action) (fun r _ s => ∃ done, r = .ok done ∧
      EndsJournalled C T action (if done then .success else .noBinding) s) h ⟨C, T⟩ := by
  simp only [transition, await, wp_bind, wp_perform, handler_getByPeerId _ _ hT, andThen_ok]
  cases hrow : peerRow T vkPeerId with
  | none =>
    simp only [wp_bind, wp_perform, handler_logAction, andThen_ok, pure_eq, wp_ret]
    exact ⟨false, rfl, rfl, _, rfl, rfl, rfl⟩
  | some b =>
    obtain ⟨reply, hset⟩ := handler_setState world (⟨.userVkGetByPeerId vkPeerId, .ok (some b)⟩ :: h)
      (C := C) hT b.id state
    simp only [wp_bind, wp_perform, hset, andThen_ok, handler_logAction, pure_eq, wp_ret]
    exact ⟨true, rfl, rfl, _, rfl, rfl, rfl⟩

/-- The outcome of a message tells the status of its confirmation. -/
theorem journals_confirmOutcome (e : ConfirmExit) : (confirmOutcome e.result).1.Journals e.status := by
  have hused : ¬ "другому пользователю".toList <:+: "Код подтверждения уже использован".toList := by decide +kernel
  have htaken : "другому пользователю".toList <:+: peerTakenMessage.toList := by decide +kernel
  cases e with
  | bindingMissing c => exact .inr rfl
  | notFound => exact .inl rfl
  | used c =>
    rw [ConfirmExit.result, confirmOutcome_conflict, if_neg hused]
    rfl
  | peerConflict c =>
    rw [ConfirmExit.result, confirmOutcome_conflict, if_pos htaken]
    rfl
  | _ => rfl

end Others

section Requests
variable {settings : VkSettings} {T : Tables}

theorem issue_journalled (hT : T.Wf) (o : Surroundings) (userId : UUID) :
    Journalled settings T o (.issueConfirmation userId) ↔
    (Handled.issueConfirmation userId).GoesThrough settings T o := by
  have hrun : wp (handler fun h => o h.length) ((Handled.issueConfirmation userId).prog settings) (fun r _ s =>
      ((Handled.issueConfirmation userId).GoesThrough settings T o → ∃ i l, r = .ok (.issued i) ∧
        s.committed.vkLogs = T.vkLogs ++ [l] ∧ l.action = .issue ∧ l.status = .success) ∧
      (¬ (Handled.issueConfirmation userId).GoesThrough settings T o → s.committed.vkLogs = T.vkLogs)) [] ⟨T, T⟩ := by
    refine getSession_wp ?_
    simp only [wp_bind]
    refine wp_mono (issueConfirmation_journal settings userId hT) ?_
    rintro r h s ⟨hC, hgoes, hstuck⟩
    cases r with
    | ok i =>
      intro h' _
      refine ⟨fun hgo => ?_, fun hnot => ?_⟩
      · obtain ⟨i', l, hr, hl⟩ := hgoes hgo
        exact ⟨i, l, rfl, hl⟩
      · obtain ⟨message, hr, -⟩ := hstuck hnot
        cases hr
    | error e =>
      intro h' _
      refine ⟨fun hgo => ?_, fun _ => congrArg Tables.vkLogs hC⟩
      obtain ⟨i', l, hr, -⟩ := hgoes hgo
      cases hr
  obtain ⟨hgoes, hstuck⟩ := hrun
  constructor
  · rintro ⟨l, hlogs, -⟩
    by_contra hnot
    have hsame : T.vkLogs = T.vkLogs ++ [l] := (hstuck hnot).symm.trans hlogs
    simp at hsame
  · intro hgo
    obtain ⟨i, l, hr, hlogs, haction, hstatus⟩ := hgoes hgo
    refine ⟨l, hlogs, ?_⟩
    rw [show (runAlone ((Handled.issueConfirmation userId).prog settings) o T).1 = _ from hr]
    exact ⟨haction, hstatus⟩

theorem unlink_journalled (hT : T.Wf) (o : Surroundings) (userId : UUID) :
    Journalled settings T o (.unlink userId) := by
  have hrun : wp (handler fun h => o h.length) ((Handled.unlink userId).prog settings) (fun r _ s =>
      ∃ l, s.committed.vkLogs = T.vkLogs ++ [l] ∧ (Handled.unlink userId).Agrees r l) [] ⟨T, T⟩ := by
    refine getSession_wp ?_
    simp only [wp_bind]
    refine wp_mono (unlink_journal userId hT) ?_
    rintro r h s ⟨done, rfl, -, l, hlogs, haction, hstatus⟩ h' _
    exact ⟨l, hlogs, haction, hstatus⟩
  exact hrun

/-- A permission event commits the row that it wrote. -/
theorem transition_journalled (hT : T.Wf) (o : Surroundings) (vkPeerId : PeerId) (state : BindingState)
    (action : LogAction) :
    wp (handler fun h => o h.length)
      (do let done ← transition vkPeerId state action; botCommit; pure (HandledReply.changed done)) (fun r _ s =>
      ∃ l done, s.committed.vkLogs = T.vkLogs ++ [l] ∧ r = .ok (.changed done) ∧ l.action = action ∧
        l.status = if done then .success else .noBinding) [] ⟨T, T⟩ := by
  simp only [wp_bind]
  refine wp_mono (transition_journal vkPeerId state action hT) ?_
  rintro r h ⟨C, T'⟩ ⟨done, rfl, -, l, hlogs, haction, hstatus⟩
  simp only [andThen_ok, wp_bind]
  refine wp_mono botCommit_wp ?_
  rintro r h' s ⟨rfl, rfl, -⟩
  exact ⟨l, done, hlogs, rfl, haction, hstatus⟩

theorem message_journalled (hT : T.Wf) (o : Surroundings) {peerId fromId : PeerId} {text : Str}
    (hdecides : (Handled.message peerId fromId text).Decides settings) :
    Journalled settings T o (.message peerId fromId text) := by
  obtain ⟨hpeer, code, hne, hparse⟩ := hdecides
  have hrun : wp (handler fun h => o h.length) ((Handled.message peerId fromId text).prog settings) (fun r _ s =>
      ∃ l, s.committed.vkLogs = T.vkLogs ++ [l] ∧ (Handled.message peerId fromId text).Agrees r l) [] ⟨T, T⟩ := by
    simp only [Handled.prog, wp_bind]
    refine wp_mono (handleMessage_wp hT o hpeer hparse hne) ?_
    rintro r h s ⟨rfl, masked, sn, dn, hafter⟩
    refine ⟨(messageExit settings T code fromId o).log
      (o (1 + (messageExit settings T code fromId o).callsBeforeLog)) fromId masked, ?_, rfl, journals_confirmOutcome _⟩
    exact congrArg Tables.vkLogs hafter
  exact hrun

end Requests

/-- A request that decides leaves its journal row exactly when it is not a refused issue. -/
theorem decided_request_journalled_iff (settings : VkSettings) {T : Tables} (hT : T.Wf) (o : Surroundings)
    (request : Handled) (hdecides : request.Decides settings) :
    Journalled settings T o request ↔ request.GoesThrough settings T o := by
  cases request with
  | issueConfirmation userId => exact issue_journalled hT o userId
  | unlink userId => exact iff_of_true (unlink_journalled hT o userId) trivial
  | message peerId fromId text => exact iff_of_true (message_journalled hT o hdecides) trivial
  | messageDeny userId =>
    obtain ⟨l, done, hlogs, hr, hrest⟩ := transition_journalled hT o userId .blocked .deny
    refine iff_of_true ⟨l, hlogs, ?_⟩ trivial
    rw [show (runAlone ((Handled.messageDeny userId).prog settings) o T).1 = _ from hr]
    exact hrest
  | messageAllow userId =>
    obtain ⟨l, done, hlogs, hr, hrest⟩ := transition_journalled hT o userId .active .allow
    refine iff_of_true ⟨l, hlogs, ?_⟩ trivial
    rw [show (runAlone ((Handled.messageAllow userId).prog settings) o T).1 = _ from hr]
    exact hrest

/-- A linked user who asks for a code is refused, and nothing of that is journalled. -/
theorem refused_issue_not_journalled : ¬ ∀ settings T o request, Tables.Wf T → Handled.Decides settings request →
    Journalled settings T o request := by
  intro hclaim
  have hwf : (serveAll .least Tables.empty [⟨.issueConfirmation 7, fun _ => .still 0⟩,
    ⟨.confirm "AAAA".toList 1 none none, fun _ => .still 0⟩]).Wf := (serveAll_consistent .least _).wf
  obtain ⟨l, hlogs, -⟩ := hclaim .least _ (fun _ => .still 0) (.issueConfirmation 7) hwf trivial
  have hlength := congrArg List.length hlogs
  revert hlength
  rw [List.length_append, List.length_singleton]
  decide +kernel

/-- The first issue for a user is journalled. -/
theorem decided_request_journalled_iff_first :
    Journalled .least Tables.empty (fun _ => .still 0) (.issueConfirmation 7) ↔
      (Handled.issueConfirmation 7).GoesThrough .least Tables.empty fun _ => .still 0 :=
  decided_request_journalled_iff .least Tables.empty_wf (fun _ => .still 0) (.issueConfirmation 7) trivial

end VkService
