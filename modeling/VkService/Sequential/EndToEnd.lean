import VkService.Messaging.Commands
import VkService.Sequential.Consistency
import VkService.Sequential.DeliveryRun

/-! The way of a code: issued, typed into a message, confirmed, and the notifications that
reach the linked peer afterwards. -/
namespace VkService
open PyStr Effects Effects.Prog UserVkRepository VkConfirmationRepository

/-- The code of an issued confirmation is unused and belongs to a row of the user. -/
def Usable (userId : UUID) (i : IssuedConfirmation) (T : Tables) : Prop :=
  ∃ c ∈ T.vkConfirmations, c.code = i.code ∧ c.usedAt = none ∧ c.expiresAt = i.expiresAt ∧
    ∃ b ∈ T.userVks, b.id = c.userVkId ∧ b.userId = userId

/-- A request after which the code is still good: it neither replaces it, nor removes the
binding, nor presents it. -/
structure Undisturbed (userId : UUID) (code : Str) (ep : Episode) : Prop where
  issue : ∀ i, ep.visit.request = .issueConfirmation userId → ep.result ≠ .ok (.issued i)
  unlink : ep.visit.request ≠ .unlink userId
  confirm : ∀ typed peer sn dn, ep.visit.request = .confirm typed peer sn dn → normalizeCode typed ≠ code

section Usable
variable {settings : VkSettings} {userId : UUID} {i : IssuedConfirmation} {T T' : Tables}

theorem Issued.usable (h : Issued settings userId T i T') : Usable userId i T' ∧ IsCode settings i.code := by
  cases h with
  | @intro b created T₁ code id w₁ w₂ exp l hensured hb hcode hnew hid hl =>
    have huser : b.userId = userId := by
      cases hensured with
      | found hrow => exact (userRow_some hrow).2.1
      | created w id hrow hid hb => rw [hb, pendingRow]
    exact ⟨⟨_, List.mem_append_right _ (List.mem_singleton_self _), rfl, rfl, rfl, b, hensured.mem, rfl, huser⟩, hcode⟩

/-- Another user's row is not the row of the code. -/
private theorem Usable.invalidated (h : T.Wf) {b b' : UserVk} (hb : b ∈ T.userVks) (hb' : b' ∈ T.userVks)
    (hne : b.userId ≠ b'.userId) (w : World) {c : VkConfirmation} (hc : c ∈ T.vkConfirmations)
    (hid : b.id = c.userVkId) :
    c ∈ VkService.invalidated w b'.id T.vkConfirmations := by
  refine mem_invalidated.mpr ⟨c, hc, if_neg fun hu => hne ?_⟩
  simp only [unusedOf, Bool.and_eq_true, beq_iff_eq] at hu
  exact congrArg UserVk.userId (eq_of_key h.userVkIds hb hb' (hid.trans hu.1))

/-- An update that keeps identifiers and users keeps the row of the code. -/
private theorem Usable.row {f : UserVk → UserVk} (hf : ∀ r, (f r).id = r.id ∧ (f r).userId = r.userId)
    {p : UserVk → Bool} {rows : List UserVk} {id : UUID} (h : ∃ b ∈ rows, b.id = id ∧ b.userId = userId) :
    ∃ b ∈ rows.map fun r => if p r then f r else r, b.id = id ∧ b.userId = userId := by
  obtain ⟨b, hb, hid, huser⟩ := h
  refine ⟨_, List.mem_map_of_mem hb, ?_⟩
  split
  · rw [(hf b).1, (hf b).2]
    exact ⟨hid, huser⟩
  · exact ⟨hid, huser⟩

theorem Usable.ensured {userId' : UUID} {b : UserVk} {created : Bool} (h : Usable userId i T)
    (hensured : Ensured userId' T b created T') : Usable userId i T' := by
  cases hensured with
  | found => exact h
  | created =>
    obtain ⟨c, hc, hcode, hunused, hexp, b', hb', hrest⟩ := h
    exact ⟨c, hc, hcode, hunused, hexp, b', List.mem_append_left _ hb', hrest⟩

theorem Usable.transitioned {peer : PeerId} {state : BindingState} {done : Bool} (h : Usable userId i T)
    (htrans : Transitioned peer state T done T') : Usable userId i T' := by
  cases htrans with
  | nothing => exact h
  | changed w l hrow hl =>
    obtain ⟨c, hc, hcode, hunused, hexp, hrow⟩ := h
    exact ⟨c, hc, hcode, hunused, hexp, Usable.row (f := withState w state) (fun _ => ⟨rfl, rfl⟩) hrow⟩

/-- Every undisturbing request keeps the code usable. -/
theorem Usable.served (h : Usable userId i T) (hT : T.Wf) {v : Visit} {r : Except Exn Answer}
    (hserved : Served settings T v r T') (hund : Undisturbed userId i.code ⟨v, T, r, T'⟩) : Usable userId i T' := by
  cases hserved with
  | ensured hensured => exact h.ensured hensured
  | @issued o userId' i' T' hissued =>
    have hne : userId' ≠ userId := by
      rintro rfl
      exact hund.issue i' rfl rfl
    cases hissued with
    | @intro b created T₁ code id w₁ w₂ exp l hensured hb hcode hnew hid hl =>
      obtain ⟨c, hc, hcode, hunused, hexp, b', hb', hid', huser⟩ := h.ensured hensured
      have hother : b'.userId ≠ b.userId := by
        rw [huser]
        cases hensured with
        | found hrow => exact (userRow_some hrow).2.1 ▸ hne.symm
        | created w id hrow hid hb => rw [hb, pendingRow]; exact hne.symm
      exact ⟨c, List.mem_append_left _ (Usable.invalidated (hensured.wf hT) hb' hensured.mem hother _ hc hid'),
        hcode, hunused, hexp, b', hb', hid', huser⟩
  | refused => exact h
  | @unlinked o userId' done T' hunlinked =>
    have hne : userId' ≠ userId := by
      rintro rfl
      exact hund.unlink rfl
    cases hunlinked with
    | nothing => exact h
    | removed w₁ w₂ l hrow hl =>
      obtain ⟨c, hc, hcode, hunused, hexp, b', hb', hid', huser⟩ := h
      have hother := huser.trans_ne (hne.symm.trans_eq (userRow_some hrow).2.1.symm)
      exact ⟨c, Usable.invalidated hT hb' (userRow_some hrow).1 hother _ hc hid', hcode, hunused, hexp,
        Usable.row (f := deleted w₂) (fun _ => ⟨rfl, rfl⟩) ⟨b', hb', hid', huser⟩⟩
  | @confirmed o typed peer sn dn e he =>
    have hcode' := hund.confirm typed peer sn dn rfl
    cases e with
    | confirmed c' b' =>
      obtain ⟨c, hc, hcode, hunused, hexp, hrow⟩ := h
      have hcase := (confirmExit_case settings T (normalizeCode typed) peer (o 0).now (o 4).now)
      rw [← he] at hcase
      obtain ⟨-, hcase⟩ | ⟨-, hcase⟩ := hcase
      · cases hcase
      cases hcase with
      | confirmed hc' =>
        obtain ⟨hc', htyped⟩ := codeRow_some hc'
        refine ⟨c, List.mem_map.mpr ⟨c, hc, if_neg ?_⟩, hcode, hunused, hexp,
          Usable.row (f := activated (o 6) peer sn dn) (fun _ => ⟨rfl, rfl⟩) hrow⟩
        intro hid
        have := eq_of_key hT.confirmationIds hc hc' (by simpa using hid)
        exact hcode' (by rw [← htyped, ← this, hcode])
    | _ => exact h
  | blocked htrans => exact h.transitioned htrans
  | unblocked htrans => exact h.transitioned htrans
  | delivered hsame =>
    obtain ⟨hrows, hcodes, -⟩ := hsame
    obtain ⟨c, hc, hcode, hunused, hexp, b, hb, hrest⟩ := h
    exact ⟨c, hcodes ▸ hc, hcode, hunused, hexp, b, hrows ▸ hb, hrest⟩

/-- A sequence of undisturbing requests keeps the code usable. -/
theorem Usable.serveAll (h : Usable userId i T) (hT : Consistent T) (later : List Visit)
    (hlater : ∀ ep ∈ episodes settings T later, Undisturbed userId i.code ep) :
    Usable userId i (serveAll settings T later) ∧ Consistent (VkService.serveAll settings T later) := by
  induction later generalizing T with
  | nil => exact ⟨h, hT⟩
  | cons v later ih =>
    have hund := hlater (episode settings T v) (by simp [episodes])
    exact ih (h.served hT.wf (serve_spec settings hT.wf v).1 hund) (serve_consistent settings hT v)
      fun ep hep => hlater ep (List.mem_cons_of_mem _ hep)

end Usable

/-- The clock reading with which a handled message is checked against the limit. Fetching
the profile comes first. -/
def limitCheckedAt (o : Surroundings) : Time := (o 1).now

/-- The clock reading that is compared with the expiry of the code. -/
def expiryCheckedAt (o : Surroundings) : Time := (o 5).now

/-- The exit of the confirmation inside a handled message. -/
def messageExit (settings : VkSettings) (T : Tables) (code : Str) (vkPeerId : PeerId)
    (o : Surroundings) : ConfirmExit :=
  confirmExit settings T (normalizeCode code) vkPeerId (limitCheckedAt o) (expiryCheckedAt o)

section Message
variable {settings : VkSettings} {T : Tables} {vkPeerId : PeerId} {text code : Str}

/-- A message with a code ends as its confirmation does. -/
theorem handleMessage_wp (hT : T.Wf) (o : Surroundings) {peerId : PeerId} (hpeer : peerId < chatPeerThreshold)
    (hparse : parseLinkCommand text settings.vkBotLinkCommand = some code) (hne : code ≠ []) :
    wp (handler fun h => o h.length) (handleMessage settings peerId vkPeerId text)
      (fun r _ s => r = .ok (confirmOutcome (messageExit settings T code vkPeerId o).result).1 ∧
        ∃ masked sn dn, s.committed = afterConfirm (fun n => o (1 + n)) T masked vkPeerId sn dn
          (messageExit settings T code vkPeerId o)) [] ⟨T, T⟩ := by
  have hchat : isChatPeer peerId = false := by simpa [isChatPeer] using hpeer
  obtain ⟨c, code, rfl⟩ := List.exists_cons_of_ne_nil hne
  simp only [handleMessage, hchat, Bool.false_eq_true, ↓reduceIte, hparse, confirmForReply, await, wp_bind, wp_perform,
    handler_getProfile, andThen_ok]
  refine attemptDomain_wp (wp_mono (confirm_wp o vkPeerId _ _ settings _ hT) ?_)
  rintro r h s ⟨rfl, rfl, -⟩
  refine ⟨fun _ => ConfirmExit.isDomain, ?_⟩
  simp only [andThen_ok, pure_eq, wp_ret, wp_bind]
  refine wp_mono botCommit_wp ?_
  rintro r h' s ⟨rfl, rfl, -⟩
  simp only [andThen_ok, wp_bind, wp_perform, Session.start, handler_sendMessage, wp_ret]
  exact ⟨rfl, _, _, _, rfl⟩

/-- A live pending row of the code's user takes any peer that no other user holds. -/
theorem confirmExit_usable (hT : Consistent T) {userId : UUID} {i : IssuedConfirmation} (h : Usable userId i T)
    {checkedAt readAt : Time} (hlimit : ¬ overLimit settings T vkPeerId checkedAt) :
    (i.expiresAt ≤ readAt → ∃ c, confirmExit settings T i.code vkPeerId checkedAt readAt = .expired c) ∧
    ((∀ r ∈ T.userVks, r.live = true → r.vkPeerId = some vkPeerId → r.userId = userId) → readAt < i.expiresAt →
      ∃ c b, confirmExit settings T i.code vkPeerId checkedAt readAt = .confirmed c b ∧ c ∈ T.vkConfirmations ∧
        c.code = i.code ∧ b ∈ T.userVks ∧ b.id = c.userVkId ∧ b.live = true ∧ b.userId = userId) := by
  obtain ⟨c, hc, hcode, hunused, hexp, b, hb, hid, huser⟩ := h
  have hrow := hcode ▸ hT.wf.codeRow_of_mem hc
  rw [confirmExit, if_neg hlimit]
  have hlive : b.live = true := by
    obtain ⟨b', hb', hid', hlive, -⟩ := hT.unusedPending c hc hunused
    rwa [eq_of_key hT.wf.userVkIds hb hb' (hid.trans hid'.symm)]
  refine ⟨fun hle => ⟨c, ?_⟩, fun hfree hlt => ⟨c, b, ?_, hc, hcode, hb, hid, hlive, huser⟩⟩
  · simp only [lookupExit, hrow, hunused, hexp, hle, ↓reduceIte]
  · have hbinding : bindingRow T c.userVkId = some b := hid ▸ hT.wf.bindingRow_of_mem hb
    have hpeer : (peerRow T vkPeerId).any (·.id ≠ c.userVkId) = false := by
      cases hq : peerRow T vkPeerId with
      | none => rfl
      | some q =>
        -- the peer can only be held by a row of the same user, and that is this row
        obtain ⟨hq, hqpeer, hqlive⟩ := peerRow_some hq
        have hqb : q = b := by
          refine hT.wf.eq_of_clashes hq hb ?_
          simp [UserVk.clashes, hqlive, hlive, hfree q hq hqlive hqpeer, huser]
        simp [hqb, hid]
    simp only [lookupExit, hrow, hunused, hexp, Int.not_le.mpr hlt, ↓reduceIte, hbinding, hlive, Bool.not_true,
      Bool.false_eq_true, hpeer]

/-- A confirmed code is used, and its row is linked to the peer. -/
theorem linked_of_confirmed {o : Surroundings} {masked : String} {sn dn : Option String}
    {c : VkConfirmation} {b : UserVk} (hwf : (afterConfirm o T masked vkPeerId sn dn (.confirmed c b)).Wf)
    (hc : c ∈ T.vkConfirmations) (hb : b ∈ T.userVks) (hid : b.id = c.userVkId) (hlive : b.live = true) :
    (∃ r, userRow (afterConfirm o T masked vkPeerId sn dn (.confirmed c b)) b.userId = some r ∧ r.state = .active ∧
      r.vkPeerId = some vkPeerId) ∧
    ∃ c', codeRow (afterConfirm o T masked vkPeerId sn dn (.confirmed c b)) c.code = some c' ∧
    c'.usedAt.isSome = true := by
  constructor
  · refine ⟨activated (o 6) vkPeerId sn dn b, hwf.userRow_of_mem (r := activated (o 6) vkPeerId sn dn b) ?_ hlive, rfl, rfl⟩
    exact List.mem_map.mpr ⟨b, hb, if_pos (by simp [liveWithId, hid, hlive])⟩
  · refine ⟨used (o 7) c, hwf.codeRow_of_mem (c := used (o 7) c) ?_, rfl⟩
    exact List.mem_map.mpr ⟨c, hc, if_pos (by simp)⟩

end Message

section Delivered
variable {T : Tables} {u : UUID} {p : PeerId}

/-- A delivery of a new event sends to the peer of each of its active recipients. -/
theorem serve_deliver_sends (settings : VkSettings) (hT : T.Wf) (command : NotificationCommandSendVkData)
    (o : Surroundings) (hu : u ∈ command.userIds) (hpeer : recipientPeer T u = some p)
    (hnew : ∀ d ∈ T.vkNotificationDeliveries, d.eventUuid ≠ command.eventUuid) :
    ∃ went, ⟨.sendMessage p command.text, .ok went⟩ ∈ (serve settings T ⟨.deliver command, o⟩).2.1 := by
  have hunsent : ∀ d, deliveryRow T command.eventUuid u = some d → d.status ≠ .sent := by
    intro d hrow
    obtain ⟨hd, hevent, -⟩ := deliveryRow_some hrow
    exact absurd hevent (hnew d hd)
  suffices h : wp (handler fun h => o h.length) ((Request.deliver command).prog settings)
      (fun _ h' _ => ∃ went, ⟨.sendMessage p command.text, .ok went⟩ ∈ h') [] ⟨T, T⟩ from h
  simp only [Request.prog, wp_bind]
  refine handleCommand_of_loop (wp_mono (deliverTo_tries ((lookup_activePeers hT hu).trans hpeer) hu
    command.userIds_nodup hT hunsent) ?_)
  rintro r h' s ⟨⟨failed, rfl⟩, -, went, hsend⟩
  refine ⟨failed, rfl, ?_⟩
  have hmem : ⟨.sendMessage p command.text, .ok went⟩ ∈ (⟨.close, .ok ()⟩ :: ⟨.commit, .ok ()⟩ :: h' : CallHistory) :=
    List.mem_cons_of_mem _ (List.mem_cons_of_mem _ hsend)
  cases failed with
  | true => exact ⟨went, hmem⟩
  | false => exact ⟨went, hmem⟩

end Delivered

/-- An issued code links its user's row to the peer that sends it in time, and the user's
notifications go to that peer. After the expiry it is answered as expired. -/
theorem issued_code_end_to_end (settings : VkSettings) (userId : UUID) (visits : List Visit) (o : Surroundings)
    (i : IssuedConfirmation) (later : List Visit) (vkPeerId : PeerId) (ws typed : Str) (o' : Surroundings) :
    let issue : Visit := ⟨.issueConfirmation userId, o⟩
    let T₀ := serveAll settings Tables.empty visits
    let T₁ := (serve settings T₀ issue).2.2
    let T := serveAll settings T₁ later
    let message := settings.vkBotLinkCommand ++ ws ++ typed
    let handled := runAlone (handleMessage settings vkPeerId vkPeerId message) o' T
    (serve settings T₀ issue).1 = .ok (.issued i) →
    (∀ ep ∈ episodes settings T₁ later, Undisturbed userId i.code ep) →
    IsToken settings.vkBotLinkCommand → (∀ c ∈ ws, isSpace c = true) → ws ≠ [] → typed.map Char.toUpper = i.code →
    vkPeerId < chatPeerThreshold → ¬ overLimit settings T vkPeerId (limitCheckedAt o') →
    ((∀ r ∈ T.userVks, r.live = true → r.vkPeerId = some vkPeerId → r.userId = userId) →
      expiryCheckedAt o' < i.expiresAt →
      handled.1 = .ok .confirmed ∧
      (∃ r, userRow handled.2.2 userId = some r ∧ r.state = .active ∧ r.vkPeerId = some vkPeerId) ∧
      (∃ c, codeRow handled.2.2 i.code = some c ∧ c.usedAt.isSome = true) ∧
      ∀ (command : NotificationCommandSendVkData) (o'' : Surroundings), userId ∈ command.userIds →
        (∀ d ∈ handled.2.2.vkNotificationDeliveries, d.eventUuid ≠ command.eventUuid) →
        ∃ went, ⟨.sendMessage vkPeerId command.text, .ok went⟩ ∈
          (serve settings handled.2.2 ⟨.deliver command, o''⟩).2.1) ∧
    (i.expiresAt ≤ expiryCheckedAt o' →
      handled.1 = .ok .expired ∧ userRow handled.2.2 userId = userRow T userId) := by
  intro issue T₀ T₁ T message handled hissued hlater hlink hws hne htyped hpeer hlimit
  have hT₀ : Consistent T₀ := serveAll_consistent settings visits
  have hserved : Served settings T₀ ⟨.issueConfirmation userId, o⟩ (.ok (.issued i)) T₁ :=
    hissued ▸ (serve_spec settings hT₀.wf issue).1
  obtain ⟨husable₁, hcode⟩ : Usable userId i T₁ ∧ IsCode settings i.code := by
    cases hserved with
    | issued h => exact h.usable
  obtain ⟨husable, hT⟩ := husable₁.serveAll (serve_consistent settings hT₀ issue) later hlater
  have htoken := typed_isToken hcode.ne_nil hcode.2 htyped
  obtain ⟨hresult, masked, sn, dn, hafter⟩ := handleMessage_wp hT.wf o' hpeer
    (parseLinkCommand_plain hlink hws hne htoken) htoken.nonempty
  have hwf : handled.2.2.Wf := (run_wf _ _ _ ⟨hT.wf, hT.wf⟩).committed
  obtain ⟨hexpired, hconfirmed⟩ := confirmExit_usable hT husable hlimit
  rw [messageExit, normalizeCode_typed hcode.2 htyped] at hresult hafter
  refine ⟨fun hfree hlt => ?_, fun hle => ?_⟩
  · obtain ⟨c, b, hexit, hc, hcode', hb, hid, hlive, huser⟩ := hconfirmed hfree hlt
    rw [hexit] at hresult hafter
    have hafter : handled.2.2 = afterConfirm (fun n => o' (1 + n)) T masked vkPeerId sn dn (.confirmed c b) := hafter
    obtain ⟨hrow, hused⟩ := linked_of_confirmed (hafter ▸ hwf) hc hb hid hlive
    rw [← hafter, huser] at hrow
    rw [← hafter, hcode'] at hused
    refine ⟨hresult, hrow, hused, fun command o'' hu hnew => serve_deliver_sends settings hwf command o'' hu ?_ hnew⟩
    obtain ⟨r, hr, hactive, hpeer'⟩ := hrow
    simp [recipientPeer, hr, hactive, hpeer']
  · obtain ⟨c, hexit⟩ := hexpired hle
    rw [hexit] at hresult hafter
    have hafter : handled.2.2 = afterConfirm (fun n => o' (1 + n)) T masked vkPeerId sn dn (.expired c) := hafter
    exact ⟨hresult, by rw [hafter]; rfl⟩

/-- User 7 gets a code and sends it in lower case a microsecond later, or a minute later. -/
theorem issued_code_end_to_end_least :
    let T := (serve .least Tables.empty ⟨.issueConfirmation 7, fun _ => .still 0⟩).2.2
    (runAlone (handleMessage .least 1 1 ("/link".toList ++ [' '] ++ "aaaa".toList)) (fun _ => .still 1) T).1 =
      .ok .confirmed ∧
    (runAlone (handleMessage .least 1 1 ("/link".toList ++ [' '] ++ "aaaa".toList)) (fun _ => .still 60000000) T).1 =
      .ok .expired := by
  have hlink : IsToken "/link".toList := isToken_of_check (by decide)
  have hend := fun t => issued_code_end_to_end .least 7 [] (fun _ => .still 0) ⟨"AAAA".toList, 60000000, .pending⟩ [] 1
    [' '] "aaaa".toList (fun _ => .still t) rfl (by simp [episodes]) hlink (List.all_eq_true.mp (by decide))
    (by decide) (by decide) (by decide)
  refine ⟨((hend 1 (by decide +kernel)).1 (by decide +kernel) (by decide)).1,
    ((hend 60000000 (by decide +kernel)).2 (by decide)).1⟩

end VkService
