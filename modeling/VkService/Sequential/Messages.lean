import VkService.Promises.Messages
import VkService.Sequential.EndToEnd

/-! A message handled alone: one commit, one reply, and the reply that belongs to the journal
row of the message. -/
namespace VkService
open PyStr Effects Effects.Prog

/-- What a message with this journal status is answered with. -/
def statusAnswer (linkCommand : Str) : LogStatus → Option (Outcome × String)
  | .unknownCommand => some (.unknownCommand, Replies.instruction linkCommand)
  | .missingCode => some (.missingCode, Replies.instruction linkCommand)
  | .success => some (.confirmed, Replies.linked)
  | .alreadyConfirmed => some (.alreadyConfirmed, Replies.alreadyLinked)
  | .notFound | .error => some (.notFound, Replies.codeInvalid)
  | .used => some (.used, Replies.codeUsed)
  | .peerConflict => some (.peerConflict, Replies.peerConflict)
  | .expired => some (.expired, Replies.codeExpired)
  | .rateLimited => some (.rateLimited, Replies.rateLimited)
  | _ => none

def Call.isCommit : Call → Bool
  | .commit => true
  | _ => false

def Call.isSend : Call → Bool
  | .sendMessage .. => true
  | _ => false

/-- The presented code was open before, is used after, and its row is linked to the sender. -/
def LinksCode (T T' : Tables) (code : Str) (fromId : PeerId) : Prop :=
  ∃ c c' b w sn dn, codeRow T code = some c ∧ c.usedAt = none ∧ codeRow T' code = some c' ∧ c'.usedAt.isSome = true ∧
    bindingRow T c.userVkId = some b ∧ b.live = true ∧
    bindingRow T' c.userVkId = some (UserVkRepository.activated w fromId sn dn b)

/-- A chat message leaves a journal row and no reply. -/
structure ChatHandled (T T' : Tables) (r : Except Exn Outcome) (h : CallHistory) : Prop where
  result : r = .ok .ignoredChat
  silent : h.countP (·.op.isSend) = 0
  committed : h.countP (·.op.isCommit) = 1
  bindings : T'.userVks = T.userVks
  codes : T'.vkConfirmations = T.vkConfirmations
  journal : ∃ l, T'.vkLogs = T.vkLogs ++ [l] ∧ l.status = .ignoredChat

/-- A private message is answered once, after its one commit, as its journal row says. -/
structure PrivateHandled (linkCommand text : Str) (peerId fromId : PeerId) (T T' : Tables) (r : Except Exn Outcome)
    (h : CallHistory) : Prop where
  committed : h.countP (·.op.isCommit) = 1
  sent : h.countP (·.op.isSend) = 1
  agrees : ∃ outcome reply l delivered earlier, r = .ok outcome ∧
    h = ⟨.sendMessage peerId reply, .ok delivered⟩ :: earlier ∧ ⟨.commit, .ok ()⟩ ∈ earlier ∧
    T'.vkLogs = T.vkLogs ++ [l] ∧ statusAnswer linkCommand l.status = some (outcome, reply) ∧
    (reply = Replies.linked ↔ ∃ code, code ≠ [] ∧ parseLinkCommand text linkCommand = some code ∧
      LinksCode T T' (normalizeCode code) fromId)

section Answers

private theorem head_append {s t : String} {c : Char} (h : s.toList.head? = some c) :
    (s ++ t).toList.head? = some c := by
  rw [String.toList_append, List.head?_append, h]
  rfl

theorem instruction_head (linkCommand : Str) : (Replies.instruction linkCommand).toList.head? = some 'Ч' :=
  head_append (head_append (head_append (by decide +kernel)))

theorem instruction_ne_linked (linkCommand : Str) : Replies.instruction linkCommand ≠ Replies.linked := by
  intro h
  have hlinked : Replies.linked.toList.head? = some 'Г' := by decide +kernel
  rw [← h, instruction_head] at hlinked
  exact absurd hlinked (by decide)

/-- The exit of a confirmation tells the answer through its status. -/
theorem statusAnswer_exit (linkCommand : Str) (e : ConfirmExit) :
    statusAnswer linkCommand e.status = some (confirmOutcome e.result) := by
  have hused : ¬ "другому пользователю".toList <:+: "Код подтверждения уже использован".toList := by decide +kernel
  have htaken : "другому пользователю".toList <:+: peerTakenMessage.toList := by decide +kernel
  cases e with
  | used c =>
    rw [ConfirmExit.result, confirmOutcome_conflict, if_neg hused]
    rfl
  | peerConflict c =>
    rw [ConfirmExit.result, confirmOutcome_conflict, if_pos htaken]
    rfl
  | _ => rfl

/-- The reply to each outcome of a message with a code. -/
def Outcome.linkReply : Outcome → String
  | .confirmed => Replies.linked
  | .alreadyConfirmed => Replies.alreadyLinked
  | .notFound => Replies.codeInvalid
  | .expired => Replies.codeExpired
  | .peerConflict => Replies.peerConflict
  | .rateLimited => Replies.rateLimited
  | _ => Replies.codeUsed

theorem confirmOutcome_reply (r : Except Exn ConfirmationResult) :
    (confirmOutcome r).2 = (confirmOutcome r).1.linkReply := by
  cases r with
  | ok result =>
    obtain ⟨status, userId, userVkId⟩ := result
    cases status with
    | confirmed | alreadyConfirmed => rfl
  | error e =>
    cases e with
    | conflict message =>
      rw [confirmOutcome_conflict]
      split <;> rfl
    | _ => rfl

theorem statusAnswer_linked {linkCommand : Str} {status : LogStatus} {answer : Outcome × String}
    (h : statusAnswer linkCommand status = some answer) : answer.2 = Replies.linked ↔ status = .success := by
  cases status with
  | unknownCommand | missingCode =>
    obtain rfl := Option.some.inj h
    exact iff_of_false (instruction_ne_linked linkCommand) nofun
  | success =>
    obtain rfl := Option.some.inj h
    exact iff_of_true rfl rfl
  | alreadyConfirmed | notFound | error | used | peerConflict | expired | rateLimited =>
    obtain rfl := Option.some.inj h
    exact iff_of_false (by decide +kernel) nofun
  | _ => cases h

end Answers

theorem Call.confirms_quiet {c : Call} (h : c.confirms = true) : c.isSend = false ∧ c.isCommit = false := by
  cases c <;> simp_all [confirms, isSend, isCommit]

section Counts
variable {earlier : CallHistory} (hearlier : ∀ e ∈ earlier, e.op.confirms = true)
include hearlier

theorem countP_quiet : earlier.countP (·.op.isSend) = 0 ∧ earlier.countP (·.op.isCommit) = 0 := by
  simp only [List.countP_eq_zero, Bool.not_eq_true]
  exact ⟨fun e he => (Call.confirms_quiet (hearlier e he)).1, fun e he => (Call.confirms_quiet (hearlier e he)).2⟩

theorem countP_closed (u v : Except Exn Unit) :
    (⟨.close, u⟩ :: ⟨.commit, v⟩ :: earlier : CallHistory).countP (·.op.isSend) = 0 ∧
      (⟨.close, u⟩ :: ⟨.commit, v⟩ :: earlier : CallHistory).countP (·.op.isCommit) = 1 := by
  obtain ⟨hsend, hcommit⟩ := countP_quiet hearlier
  simp only [List.countP_cons, hsend, hcommit]
  exact ⟨rfl, rfl⟩

theorem countP_answered (peerId : PeerId) (reply : String) (b : Except Exn Bool) (u v : Except Exn Unit) :
    (⟨.sendMessage peerId reply, b⟩ :: ⟨.close, u⟩ :: ⟨.commit, v⟩ :: earlier : CallHistory).countP
        (·.op.isCommit) = 1 ∧
      (⟨.sendMessage peerId reply, b⟩ :: ⟨.close, u⟩ :: ⟨.commit, v⟩ :: earlier : CallHistory).countP
        (·.op.isSend) = 1 := by
  obtain ⟨hsend, hcommit⟩ := countP_closed hearlier u v
  refine ⟨(List.countP_cons ..).trans ?_, (List.countP_cons ..).trans ?_⟩
  · rw [hcommit]
    rfl
  · rw [hsend]
    rfl

end Counts

section Messages
variable {settings : VkSettings} {T : Tables} {peerId fromId : PeerId} {text : Str}

/-- A journal row with the peer, the commit, and what follows them. -/
theorem logOnly_wp (o : Surroundings) {α : Type} {status : LogStatus} {k : Py α}
    {Φ : Except Exn α → CallHistory → Session → Prop}
    (hk : ∀ l : VkLog, l.status = status → ∀ e : CallEvent, e.op.confirms = true → wp (handler fun h => o h.length) k Φ
      [⟨.close, .ok ()⟩, ⟨.commit, .ok ()⟩, e] (Session.start { T with vkLogs := T.vkLogs ++ [l] })) :
    wp (handler fun h => o h.length)
      (do let _ ← await (.logAction .message status [("vk_peer_id", toString peerId)]); botCommit; k) Φ [] ⟨T, T⟩ := by
  simp only [botCommit, await, wp_bind, wp_perform, handler_logAction, andThen_ok, wp_attempt, handler_commit, Session.start,
    handler_close, wp_ofExcept]
  exact hk _ rfl _ rfl

theorem handleMessage_chat (o : Surroundings) (hchat : isChatPeer peerId = true) :
    wp (handler fun h => o h.length) (handleMessage settings peerId fromId text)
      (fun r h s => ChatHandled T s.committed r h) [] ⟨T, T⟩ := by
  simp only [handleMessage, hchat, if_true]
  refine logOnly_wp o fun l hl e he => ?_
  obtain ⟨hsend, hcommit⟩ := countP_closed (List.forall_mem_singleton.mpr he) (.ok ()) (.ok ())
  exact ⟨rfl, hsend, hcommit, rfl, rfl, l, rfl, hl⟩

/-- The instruction, as the answer to a message without a code. -/
theorem instruction_handled {o : Surroundings} {outcome : Outcome} {status : LogStatus}
    (hanswer : statusAnswer settings.vkBotLinkCommand status = some (outcome, Replies.instruction settings.vkBotLinkCommand))
    (hcode : ∀ code, parseLinkCommand text settings.vkBotLinkCommand = some code → code = []) :
    wp (handler fun h => o h.length) (do
        let _ ← await (.logAction .message status [("vk_peer_id", toString peerId)])
        botCommit
        let _ ← await (.sendMessage peerId (Replies.instruction settings.vkBotLinkCommand))
        pure outcome)
      (fun r h s => PrivateHandled settings.vkBotLinkCommand text peerId fromId T s.committed r h) [] ⟨T, T⟩ := by
  refine logOnly_wp o fun l hl e he => ?_
  simp only [await, wp_bind, wp_perform, handler_sendMessage, andThen_ok, pure_eq, wp_ret]
  obtain ⟨hcommit, hsend⟩ := countP_answered (List.forall_mem_singleton.mpr he) peerId
    (Replies.instruction settings.vkBotLinkCommand) (.ok ((o 3).accepts peerId)) (.ok ()) (.ok ())
  refine ⟨hcommit, hsend, outcome, _, l, _, _, rfl, rfl, by simp, rfl, hl ▸ hanswer, ?_⟩
  refine iff_of_false (instruction_ne_linked _) ?_
  rintro ⟨code, hne, hparse, -⟩
  exact hne (hcode code hparse)

theorem not_linksCode {T' : Tables} {code : Str} (h : T'.vkConfirmations = T.vkConfirmations) :
    ¬ LinksCode T T' code fromId := by
  rintro ⟨c, c', -, -, -, -, hc, hunused, hc', hused, -⟩
  rw [codeRow, h, ← codeRow, hc, Option.some.injEq] at hc'
  rw [← hc', hunused] at hused
  cases hused

/-- The code is linked by this message exactly when its confirmation succeeds. -/
theorem linksCode_iff {code : Str} {o : Surroundings} {masked : String} {sn dn : Option String}
    {checkedAt readAt : Time} (hwf : (afterConfirm o T masked fromId sn dn (confirmExit settings T code fromId checkedAt readAt)).Wf) :
    (confirmExit settings T code fromId checkedAt readAt).status = .success ↔
      LinksCode T (afterConfirm o T masked fromId sn dn (confirmExit settings T code fromId checkedAt readAt)) code
        fromId := by
  have hcase := confirmExit_case settings T code fromId checkedAt readAt
  generalize confirmExit settings T code fromId checkedAt readAt = e at hcase hwf
  cases e with
  | confirmed c b =>
    obtain ⟨-, hlimit⟩ | ⟨-, hcase⟩ := hcase
    · cases hlimit
    cases hcase with
    | confirmed hc hunused hexp hb hlive hpeer =>
      refine iff_of_true rfl ⟨c, VkConfirmationRepository.used (o 7) c, b, o 6, sn, dn, hc, hunused, ?_, rfl, hb, hlive, ?_⟩
      · obtain ⟨hmem, hcode⟩ := codeRow_some hc
        rw [← hcode]
        refine hwf.codeRow_of_mem (c := VkConfirmationRepository.used (o 7) c) ?_
        exact List.mem_map.mpr ⟨c, hmem, if_pos (by simp)⟩
      · obtain ⟨hmem, hid⟩ := bindingRow_some hb
        rw [← hid]
        refine hwf.bindingRow_of_mem (r := UserVkRepository.activated (o 6) fromId sn dn b) ?_
        exact List.mem_map.mpr ⟨b, hmem, if_pos (by simp [UserVkRepository.liveWithId, hid, hlive])⟩
  | rateLimited | notFound | alreadyConfirmed | used | expired | bindingMissing | peerConflict =>
    exact iff_of_false (fun h => by cases h) (not_linksCode rfl)

/-- A private message with a code is answered as its confirmation ended. -/
theorem handleMessage_code (hT : T.Wf) (o : Surroundings) (hprivate : isChatPeer peerId = false) {code : Str}
    (hparse : parseLinkCommand text settings.vkBotLinkCommand = some code) (hne : code ≠ []) :
    wp (handler fun h => o h.length) (handleMessage settings peerId fromId text)
      (fun r h s => PrivateHandled settings.vkBotLinkCommand text peerId fromId T s.committed r h) [] ⟨T, T⟩ := by
  have hpeer : peerId < chatPeerThreshold := by simpa [isChatPeer] using hprivate
  have hends := @handleMessage_wp settings T fromId text code hT o peerId hpeer hparse hne
  have hanswers : wp (handler fun h => o h.length) (handleMessage settings peerId fromId text) (fun r h' _ => _) []
    ⟨T, T⟩ :=
    wp_of_conforms (handleMessage_answers settings hprivate hparse hne)
  have hwf : wp (handler fun h => o h.length) (handleMessage settings peerId fromId text) (fun _ _ s => s.Wf) []
    ⟨T, T⟩ :=
    run_wf _ _ _ ⟨hT, hT⟩
  refine wp_mono (wp_and hends (wp_and hanswers hwf)) ?_
  rintro r h s ⟨⟨rfl, masked, sn, dn, hafter⟩, ⟨-, hanswered⟩, hwf⟩
  obtain ⟨r, delivered, earlier, houtcome, rfl, hquiet⟩ := hanswered _ rfl
  obtain ⟨hcommit, hsend⟩ := countP_answered hquiet peerId (confirmOutcome r).2 (.ok delivered) (.ok ()) (.ok ())
  have hreply : (confirmOutcome r).2 = (confirmOutcome (messageExit settings T code fromId o).result).2 := by
    rw [confirmOutcome_reply, confirmOutcome_reply, houtcome]
  have hanswer := statusAnswer_exit settings.vkBotLinkCommand (messageExit settings T code fromId o)
  have hlinked : LinksCode T s.committed (normalizeCode code) fromId ↔
      (messageExit settings T code fromId o).status = .success := by
    have hwf := hwf.committed
    rw [hafter] at hwf ⊢
    exact (linksCode_iff hwf).symm
  refine ⟨hcommit, hsend, _, _, _, delivered, _, rfl, rfl, by simp, congrArg Tables.vkLogs hafter, hreply ▸ hanswer, ?_⟩
  rw [hreply, statusAnswer_linked hanswer]
  constructor
  · exact fun hsuccess => ⟨code, hne, hparse, hlinked.mpr hsuccess⟩
  · rintro ⟨code', -, hparse', hlinks⟩
    obtain rfl := Option.some.inj (hparse.symm.trans hparse')
    exact hlinked.mp hlinks

end Messages

/-- A message handled alone commits once. A chat message is not answered; any other is answered
once, after the commit, with the reply that belongs to the status of its journal row, and
`LINKED` means that the presented code was used up by linking its row to the sender. -/
theorem handleMessage_reply_agrees (settings : VkSettings) {T : Tables} (hT : T.Wf) (o : Surroundings)
    (peerId fromId : PeerId) (text : Str) :
    let handled := runAlone (handleMessage settings peerId fromId text) o T
    (chatPeerThreshold ≤ peerId → ChatHandled T handled.2.2 handled.1 handled.2.1) ∧
    (peerId < chatPeerThreshold →
      PrivateHandled settings.vkBotLinkCommand text peerId fromId T handled.2.2 handled.1 handled.2.1) := by
  refine ⟨fun hchat => handleMessage_chat o (by simpa [isChatPeer] using hchat), fun hprivate => ?_⟩
  have hprivate : isChatPeer peerId = false := by simpa [isChatPeer] using hprivate
  cases hparse : parseLinkCommand text settings.vkBotLinkCommand with
  | none =>
    have hhandled : wp (handler fun h => o h.length) (handleMessage settings peerId fromId text)
        (fun r h s => PrivateHandled settings.vkBotLinkCommand text peerId fromId T s.committed r h) [] ⟨T, T⟩ := by
      simp only [handleMessage, hprivate, hparse, Bool.false_eq_true, if_false]
      exact instruction_handled rfl (by simp [hparse])
    exact hhandled
  | some code =>
    by_cases hne : code = []
    · have hhandled : wp (handler fun h => o h.length) (handleMessage settings peerId fromId text)
          (fun r h s => PrivateHandled settings.vkBotLinkCommand text peerId fromId T s.committed r h) [] ⟨T, T⟩ := by
        subst hne
        simp only [handleMessage, hprivate, hparse, Bool.false_eq_true, if_false]
        exact instruction_handled rfl (by simp [hparse])
      exact hhandled
    · exact handleMessage_code hT o hprivate hparse hne

end VkService
