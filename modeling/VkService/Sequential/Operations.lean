import VkService.Promises.Delivery
import VkService.Sequential.ConfirmRun

/-! What each request does to the committed tables when it runs alone. -/
namespace VkService
open PyStr Effects Effects.Prog UserVkRepository VkConfirmationRepository

/-- The live row of the user is found, or a new one is added. -/
inductive Ensured (userId : UUID) (T : Tables) (b : UserVk) : Bool → Tables → Prop
  | found (hrow : userRow T userId = some b) : Ensured userId T b false T
  | created (w : World) (id : UUID) (hrow : userRow T userId = none) (hid : id ∉ T.userVks.map (·.id))
      (hb : b = pendingRow w id userId) : Ensured userId T b true { T with userVks := T.userVks ++ [b] }

/-- The unused codes of a row are used up. -/
def invalidated (w : World) (userVkId : UUID) (rows : List VkConfirmation) : List VkConfirmation :=
  rows.map fun c => if unusedOf userVkId c then used w c else c

@[simp] theorem mem_invalidated {w : World} {userVkId : UUID} {rows : List VkConfirmation} {c : VkConfirmation} :
    c ∈ invalidated w userVkId rows ↔ ∃ c' ∈ rows, (if unusedOf userVkId c' then used w c' else c') = c := by
  simp [invalidated]

@[simp] theorem map_id_invalidated (w : World) (userVkId : UUID) (rows : List VkConfirmation) :
    (invalidated w userVkId rows).map (·.id) = rows.map (·.id) := by
  rw [invalidated, List.map_map]
  refine List.map_congr_left fun c _ => ?_
  by_cases hc : unusedOf userVkId c = true <;> simp [hc, used]

def Tables.journal (T : Tables) (l : VkLog) : Tables := { T with vkLogs := T.vkLogs ++ [l] }

/-- A code that `generate_code` can return. -/
def IsCode (settings : VkSettings) (code : Str) : Prop :=
  code.length = settings.vkConfirmationCodeLength ∧ ∀ c ∈ code, c ∈ codeAlphabet

theorem IsCode.ne_nil {settings : VkSettings} {code : Str} (h : IsCode settings code) : code ≠ [] := by
  rintro rfl
  have hlen : 0 = settings.vkConfirmationCodeLength := h.1
  have := settings.codeLength_ge
  omega

/-- A pending binding gets a new code, and its earlier codes are used up. -/
inductive Issued (settings : VkSettings) (userId : UUID) (T : Tables) : IssuedConfirmation → Tables → Prop
  | intro {b : UserVk} {created : Bool} {T₁ : Tables} {code : Str} {id : UUID} (w₁ w₂ : World) (exp : Time) (l : VkLog)
      (hensured : Ensured userId T b created T₁) (hb : b.state = .pending) (hcode : IsCode settings code)
      (hnew : ∀ c ∈ T₁.vkConfirmations, c.code ≠ code) (hid : id ∉ T₁.vkConfirmations.map (·.id))
      (hl : l.action = .issue) :
      Issued settings userId T ⟨code, exp, .pending⟩ (Tables.journal { T₁ with
        vkConfirmations := invalidated w₁ b.id T₁.vkConfirmations ++ [⟨id, b.id, code, exp, w₂.now, none⟩] } l)

inductive Unlinked (userId : UUID) (T : Tables) : Bool → Tables → Prop
  | nothing (l : VkLog) (hrow : userRow T userId = none) (hl : l.action = .unlink) :
      Unlinked userId T false (T.journal l)
  | removed {b : UserVk} (w₁ w₂ : World) (l : VkLog) (hrow : userRow T userId = some b) (hl : l.action = .unlink) :
      Unlinked userId T true (Tables.journal { T with
        vkConfirmations := invalidated w₁ b.id T.vkConfirmations
        userVks := T.userVks.map fun r => if liveOfUser userId r then deleted w₂ r else r } l)

/-- Only the row that holds the peer changes its state. -/
inductive Transitioned (vkPeerId : PeerId) (state : BindingState) (T : Tables) : Bool → Tables → Prop
  | nothing (l : VkLog) (hrow : peerRow T vkPeerId = none) (hl : l.action ≠ .confirmation) :
      Transitioned vkPeerId state T false (T.journal l)
  | changed {b : UserVk} (w : World) (l : VkLog) (hrow : peerRow T vkPeerId = some b) (hl : l.action ≠ .confirmation) :
      Transitioned vkPeerId state T true (Tables.journal { T with
        userVks := T.userVks.map fun r => if liveWithId b.id r then withState w state r else r } l)

/-- Two states of the tables that differ in the ledger at most. -/
def SameButLedger (T T' : Tables) : Prop :=
  T'.userVks = T.userVks ∧ T'.vkConfirmations = T.vkConfirmations ∧ T'.vkLogs = T.vkLogs

/-- What a request answers and leaves committed. -/
inductive Served (settings : VkSettings) (T : Tables) : Visit → Except Exn Answer → Tables → Prop
  | ensured {o : Surroundings} {userId : UUID} {b : UserVk} {created : Bool} {T' : Tables}
      (h : Ensured userId T b created T') :
      Served settings T ⟨.ensureBinding userId, o⟩ (.ok (.binding b created)) T'
  | issued {o : Surroundings} {userId : UUID} {i : IssuedConfirmation} {T' : Tables}
      (h : Issued settings userId T i T') :
      Served settings T ⟨.issueConfirmation userId, o⟩ (.ok (.issued i)) T'
  | refused {o : Surroundings} {userId : UUID} (message : String) :
      Served settings T ⟨.issueConfirmation userId, o⟩ (.error (.conflict message)) T
  | unlinked {o : Surroundings} {userId : UUID} {done : Bool} {T' : Tables} (h : Unlinked userId T done T') :
      Served settings T ⟨.unlink userId, o⟩ (.ok (.unlinked done)) T'
  | confirmed {o : Surroundings} {code : Str} {vkPeerId : PeerId} {sn dn : Option String} {e : ConfirmExit}
      (h : e = confirmExit settings T (normalizeCode code) vkPeerId (o 0).now (o 4).now) :
      Served settings T ⟨.confirm code vkPeerId sn dn, o⟩ (.ok (.confirmation e.result))
        (afterConfirm o T (maskCode (normalizeCode code)) vkPeerId sn dn e)
  | blocked {o : Surroundings} {vkPeerId : PeerId} {done : Bool} {T' : Tables}
      (h : Transitioned vkPeerId .blocked T done T') :
      Served settings T ⟨.block vkPeerId, o⟩ (.ok (.transitioned done)) T'
  | unblocked {o : Surroundings} {vkPeerId : PeerId} {done : Bool} {T' : Tables}
      (h : Transitioned vkPeerId .active T done T') :
      Served settings T ⟨.unblock vkPeerId, o⟩ (.ok (.transitioned done)) T'
  | delivered {o : Surroundings} {command : NotificationCommandSendVkData} {r : Except Exn Answer} {T' : Tables}
      (h : SameButLedger T T') (hr : ∀ a, r = .ok a → a = .delivered) :
      Served settings T ⟨.deliver command, o⟩ r T'

/-- Nothing of `h'` that was not in `h` is an IntegrityError. -/
abbrev StaysClean (h h' : CallHistory) : Prop := NoIntegrityError h → NoIntegrityError h'

section Programs
variable {world : CallHistory → World} {C T : Tables} {h : CallHistory}

theorem ensureBinding_wp (userId : UUID) (hT : T.Wf) :
    wp (handler world) (ensureBinding userId) (fun r h' s => ∃ b created T', r = .ok (b, created) ∧ s = ⟨C, T'⟩ ∧
      Ensured userId T b created T' ∧ StaysClean h h') h ⟨C, T⟩ := by
  simp only [ensureBinding, await, wp_bind, wp_perform, handler_getByUserId _ _ hT, andThen_ok]
  cases hrow : userRow T userId with
  | some b => exact ⟨b, false, T, rfl, rfl, .found hrow, by simp [StaysClean]⟩
  | none =>
    obtain ⟨id, hid, hcreate⟩ := handler_create world (⟨.userVkGetByUserId userId, .ok none⟩ :: h) (C := C) hrow
    simp only [wp_tryCatch, wp_bind, wp_perform, hcreate, andThen_ok, pure_eq, wp_ret, orElse_ok]
    exact ⟨_, true, _, rfl, rfl, .created _ id hrow hid rfl, by simp [StaysClean]⟩

private theorem codeLetter_mem (i : Fin 32) : codeLetter i ∈ codeAlphabet := by
  revert i
  decide

theorem generateCode_wp (settings : VkSettings) {s : Session} :
    wp (handler world) (generateCode settings.vkConfirmationCodeLength) (fun r h' s' => ∃ code, r = .ok code ∧ s' = s ∧
      IsCode settings code ∧ StaysClean h h') h s := by
  have hlen : settings.vkConfirmationCodeLength ≠ 0 := by
    have := settings.codeLength_ge
    omega
  simp only [generateCode, if_neg hlen, await, wp_bind, wp_perform, handler_choices, andThen_ok, pure_eq, wp_ret]
  refine ⟨_, rfl, trivial, ⟨by simp, fun c hc => ?_⟩, by simp [StaysClean]⟩
  obtain ⟨i, rfl⟩ := List.mem_ofFn.mp hc
  exact codeLetter_mem _

/-- The loop gives a code that no row has, or gives up. -/
theorem createUniqueCode_wp (settings : VkSettings) (hT : T.Wf) (attempts : Nat) :
    wp (handler world) (createUniqueCode settings.vkConfirmationCodeLength attempts) (fun r h' s' => s' = ⟨C, T⟩ ∧
      StaysClean h h' ∧ ((∃ code, r = .ok code ∧ IsCode settings code ∧ codeRow T code = none) ∨
        ∃ message, r = .error (.conflict message))) h ⟨C, T⟩ := by
  induction attempts generalizing h with
  | zero => exact ⟨rfl, id, .inr ⟨_, rfl⟩⟩
  | succ attempts ih =>
    simp only [createUniqueCode, wp_bind]
    refine wp_mono (generateCode_wp settings) ?_
    rintro r h' s' ⟨code, rfl, rfl, hcode, hclean⟩
    simp only [andThen_ok, await, wp_bind, wp_perform, handler_getByCode _ _ hT]
    cases hrow : codeRow T code with
    | none => exact ⟨rfl, by simpa [StaysClean] using hclean, .inl ⟨code, rfl, hcode, hrow⟩⟩
    | some c =>
      refine wp_mono ih ?_
      rintro r h'' s' ⟨hs, hclean', hr⟩
      exact ⟨hs, fun h0 => hclean' (by simpa using hclean h0), hr⟩

theorem Ensured.mem {userId : UUID} {b : UserVk} {created : Bool} {T' : Tables} (h : Ensured userId T b created T') :
    b ∈ T'.userVks := by
  cases h with
  | found hrow => exact (userRow_some hrow).1
  | created => exact List.mem_append_right _ (by simp)

theorem Ensured.live {userId : UUID} {b : UserVk} {created : Bool} {T' : Tables} (h : Ensured userId T b created T') :
    b.live = true := by
  cases h with
  | found hrow => exact (userRow_some hrow).2.2
  | created w id hrow hid hb => rw [hb, UserVk.live, pendingRow, Option.isNone_none]

theorem Ensured.wf {userId : UUID} {b : UserVk} {created : Bool} {T' : Tables} (h : Ensured userId T b created T')
    (hT : T.Wf) : T'.Wf := by
  cases h with
  | found => exact hT
  | created w id hrow hid hb => exact hT.insertUserVk (hb ▸ hid) (hb ▸ pendingRow_free hrow w id)

theorem issueConfirmation_wp (settings : VkSettings) (userId : UUID) (hC : C.Wf) (hT : T.Wf) :
    wp (handler world) (issueConfirmation settings userId) (fun r h' s => s.committed = C ∧ StaysClean h h' ∧
      ((∃ i, r = .ok i ∧ Issued settings userId T i s.working) ∨ ∃ message, r = .error (.conflict message)))
      h ⟨C, T⟩ := by
  have hwf : wp (handler world) (ensureBinding userId) (fun _ _ s => s.Wf) h ⟨C, T⟩ := run_wf _ world h ⟨hC, hT⟩
  simp only [issueConfirmation, wp_bind]
  refine wp_mono (wp_and hwf (ensureBinding_wp userId hT)) ?_
  rintro r h₁ s ⟨hs, b, created, T₁, rfl, rfl, hensured, hclean⟩
  have hT₁ : T₁.Wf := hs.working
  simp only [andThen_ok]
  cases hstate : b.state with
  | active =>
    simp only [await, throw_eq, wp_bind, wp_perform, handler_logAction, andThen_ok, wp_raise]
    exact ⟨trivial, by simpa [StaysClean] using hclean, .inr ⟨_, rfl⟩⟩
  | blocked =>
    simp only [await, throw_eq, wp_bind, wp_perform, handler_logAction, andThen_ok, wp_raise]
    exact ⟨trivial, by simpa [StaysClean] using hclean, .inr ⟨_, rfl⟩⟩
  | pending =>
    simp only [await, wp_bind, wp_perform, handler_invalidatePrevious, andThen_ok]
    have hT₂ : ({ T₁ with vkConfirmations := invalidated (world h₁) b.id T₁.vkConfirmations } : Tables).Wf :=
      hT₁.updateVkConfirmation fun _ => ⟨rfl, rfl, rfl⟩
    refine wp_mono (createUniqueCode_wp settings hT₂ maxGenerationAttempts) ?_
    rintro r h₂ s ⟨rfl, hclean', ⟨code, rfl, hcode, hnew⟩ | ⟨message, rfl⟩⟩
    · simp only [andThen_ok, wp_bind, wp_perform, handler_now]
      obtain ⟨id, hid, hcreate⟩ := handler_confirmationCreate world
        (⟨.now, .ok (world h₂).now⟩ :: h₂) (C := C) hnew hensured.mem rfl
        ((world h₂).now + minutes settings.vkConfirmationTtlMinutes)
      simp only [hcreate, andThen_ok, wp_bind, wp_perform, handler_logAction, pure_eq, wp_ret]
      refine ⟨trivial, fun h0 => ?_, .inl ⟨_, rfl, ?_⟩⟩
      · simpa using hclean' (by simpa using hclean h0)
      · refine .intro (world h₁) _ _ _ hensured hstate hcode (fun c hc => ?_) (by simpa using hid) rfl
        have := codeRow_none hnew _ (mem_invalidated.mpr ⟨c, hc, rfl⟩)
        by_cases hu : unusedOf b.id c = true <;> simpa [hu, used] using this
    · exact ⟨rfl, fun h0 => hclean' (by simpa using hclean h0), .inr ⟨_, rfl⟩⟩

/-- The message to the peer does not decide anything. -/
theorem notifyUnlinked_wp (previousState : BindingState) (vkPeerId : Option PeerId) (s : Session) :
    wp (handler world) (notifyUnlinked previousState vkPeerId)
    (fun r h' s' => r = .ok () ∧ s' = s ∧ StaysClean h h') h s := by
  cases vkPeerId with
  | none => exact ⟨rfl, rfl, id⟩
  | some peerId =>
    by_cases hactive : previousState ≠ .active
    · rw [notifyUnlinked, if_pos hactive]
      exact ⟨rfl, rfl, id⟩
    · rw [notifyUnlinked, if_neg hactive]
      simp only [await, pure_eq, wp_tryCatch, wp_bind, wp_perform, handler_sendMessage, andThen_ok, wp_ret, orElse_ok]
      exact ⟨trivial, trivial, by simp [StaysClean]⟩

theorem unlink_wp (userId : UUID) (hT : T.Wf) :
    wp (handler world) (unlink userId) (fun r h' s => ∃ done T', r = .ok done ∧ s = ⟨C, T'⟩ ∧
      Unlinked userId T done T' ∧ StaysClean h h') h ⟨C, T⟩ := by
  simp only [unlink, await, wp_bind, wp_perform, handler_getByUserId _ _ hT, andThen_ok]
  cases hrow : userRow T userId with
  | none =>
    simp only [wp_bind, wp_perform, handler_logAction, andThen_ok, pure_eq, wp_ret]
    exact ⟨false, _, rfl, rfl, .nothing _ hrow rfl, by simp [StaysClean]⟩
  | some b =>
    simp only [wp_bind, wp_perform, handler_invalidatePrevious, handler_softDelete, handler_logAction, andThen_ok]
    refine wp_mono (notifyUnlinked_wp _ _ _) ?_
    rintro r h' s ⟨rfl, rfl, hclean⟩
    exact ⟨true, _, rfl, rfl, .removed _ _ _ hrow rfl, fun h0 => hclean (by simpa using h0)⟩

theorem transition_wp (vkPeerId : PeerId) (state : BindingState) {action : LogAction} (hT : T.Wf)
    (haction : action ≠ .confirmation) :
    wp (handler world) (transition vkPeerId state action) (fun r h' s => ∃ done T', r = .ok done ∧ s = ⟨C, T'⟩ ∧
      Transitioned vkPeerId state T done T' ∧ StaysClean h h') h ⟨C, T⟩ := by
  simp only [transition, await, wp_bind, wp_perform, handler_getByPeerId _ _ hT, andThen_ok]
  cases hrow : peerRow T vkPeerId with
  | none =>
    simp only [wp_bind, wp_perform, handler_logAction, andThen_ok, pure_eq, wp_ret]
    exact ⟨false, _, rfl, rfl, .nothing _ hrow haction, by simp [StaysClean]⟩
  | some b =>
    obtain ⟨reply, hset⟩ := handler_setState world (⟨.userVkGetByPeerId vkPeerId, .ok (some b)⟩ :: h)
      (C := C) hT b.id state
    simp only [wp_bind, wp_perform, hset, andThen_ok, handler_logAction, pure_eq, wp_ret]
    exact ⟨true, _, rfl, rfl, .changed _ _ hrow haction, by simp [StaysClean]⟩

/-- A request in `get_session` leaves what its body leaves, or nothing. -/
theorem getSession_wp {α : Type} {body : Py α} {s : Session} {Φ : Except Exn α → CallHistory → Session → Prop}
    (hbody : wp (handler world) body (fun r h₁ s₁ => ∀ h₂, StaysClean h₁ h₂ →
      Φ r h₂ (Session.start (match r with | .ok _ => s₁.working | .error _ => s₁.committed))) h s) :
    wp (handler world) (getSession body) Φ h s := by
  simp only [getSession, withSession, wp_bind, wp_attempt, wp_tryCatch]
  refine wp_mono hbody ?_
  rintro (e | a) h₁ ⟨C₁, T₁⟩ hΦ
  · simp only [andThen_error, orElse_error, await, throw_eq]
    split
    · simp only [wp_bind, wp_perform, handler_rollback, andThen_ok, wp_raise, Session.start, handler_close, wp_ofExcept]
      exact hΦ _ (by simp [StaysClean])
    · simp only [wp_raise, andThen_ok, wp_bind, wp_perform, handler_close, wp_ofExcept]
      exact hΦ _ (by simp [StaysClean])
  · simp only [andThen_ok, await, wp_bind, wp_perform, handler_commit, pure_eq, wp_ret, orElse_ok, Session.start,
      handler_close, wp_ofExcept]
    exact hΦ _ (by simp [StaysClean])

theorem attemptDomain_wp {α : Type} {body : Py α} {s : Session}
    {Φ : Except Exn (Except Exn α) → CallHistory → Session → Prop}
    (hbody : wp (handler world) body (fun r h s => (∀ x, r = .error x → x.isDomain = true) ∧ Φ (.ok r) h s) h s) :
    wp (handler world) (attemptDomain body) Φ h s := by
  simp only [attemptDomain, wp_tryCatch, wp_bind]
  refine wp_mono hbody ?_
  rintro (e | a) h s ⟨hdomain, hΦ⟩
  · rw [andThen_error, orElse_error, if_pos (hdomain e rfl)]
    exact hΦ
  · exact hΦ

theorem botCommit_wp : wp (handler world) botCommit
    (fun r h' s => r = .ok () ∧ s = Session.start T ∧ StaysClean h h') h ⟨C, T⟩ := by
  simp only [botCommit, await, wp_bind, wp_attempt, wp_perform, handler_commit, andThen_ok, Session.start,
    handler_close, wp_ofExcept]
  exact ⟨trivial, trivial, by simp [StaysClean]⟩

end Programs

/-- Changes that leave bindings, codes and journal alone. -/
def Change.onLedger : Change → Bool
  | .nothing | .insertDelivery _ | .updateDelivery .. | .commit | .rollback => true
  | _ => false

theorem DeliveryCall.onLedger {command : NotificationCommandSendVkData} {h : CallHistory} {c : Call}
    (hcall : DeliveryCall command h c) (w : World) (ids : NewIds) (T : Tables) :
    (answer w ids T c).2.onLedger = true := by
  cases c with
  | claimAttempt e u p =>
    simp only [answer, VkNotificationDeliveryRepository.claimAttempt]
    split
    · rfl
    · rfl
    · split <;> rfl
  | sendMessage => rfl
  | userVkGetByUserIds => rfl
  | markSent => rfl
  | markFailed => rfl
  | commit => rfl
  | rollback => rfl
  | close => rfl
  | _ => exact hcall.elim

theorem SameButLedger.apply {T : Tables} {s : Session} (hs : SameButLedger T s.committed ∧ SameButLedger T s.working)
    {c : Change} (hc : c.onLedger = true) :
    SameButLedger T (s.apply c).committed ∧ SameButLedger T (s.apply c).working := by
  cases c with
  | nothing => exact hs
  | insertDelivery row => exact hs
  | updateDelivery p f => exact hs
  | commit => exact ⟨hs.2, hs.2⟩
  | rollback => exact ⟨hs.1, hs.1⟩
  | _ => cases hc

/-- A delivery never meets an IntegrityError. -/
theorem DeliveryCall.noIntegrityError {command : NotificationCommandSendVkData} {h : CallHistory} {c : Call}
    (hcall : DeliveryCall command h c) {w : World} {ids : NewIds} {T : Tables} {x : Exn}
    (hx : (answer w ids T c).1 = .error x) : x ≠ .integrityError ∧ ∀ m, x ≠ .alreadyExists m := by
  have hone : ∀ {ρ : Type} (rows : List ρ) (x : Exn), one rows = .error x →
      x ≠ .integrityError ∧ ∀ m, x ≠ .alreadyExists m := by
    rintro ρ (_ | ⟨r, _ | ⟨r', rows⟩⟩) x hx <;> cases hx <;> simp
  have honeOrNone : ∀ {ρ : Type} (rows : List ρ) (x : Exn), oneOrNone rows = .error x →
      x ≠ .integrityError ∧ ∀ m, x ≠ .alreadyExists m := by
    rintro ρ (_ | ⟨r, _ | ⟨r', rows⟩⟩) x hx <;> cases hx
    simp
  cases c with
  | claimAttempt e u p =>
    simp only [answer, VkNotificationDeliveryRepository.claimAttempt] at hx
    split at hx
    · rename_i y hy
      cases hx
      exact honeOrNone _ _ hy
    · cases hx
    · split at hx <;> cases hx
  | markSent => exact hone _ _ hx
  | markFailed => exact hone _ _ hx
  | sendMessage => cases hx
  | userVkGetByUserIds => cases hx
  | commit => cases hx
  | rollback => cases hx
  | close => cases hx
  | _ => exact hcall.elim

theorem handleCommand_wp {world : CallHistory → World} {T : Tables} (command : NotificationCommandSendVkData) :
    wp (handler world) (handleCommand command)
      (fun _ h s => SameButLedger T s.committed ∧ NoIntegrityError h) [] ⟨T, T⟩ := by
  refine wp_mono (wp_invariant (I := fun h s =>
    (SameButLedger T s.committed ∧ SameButLedger T s.working) ∧ NoIntegrityError h) ?_ (handleCommand_conforms command)
    ⟨⟨⟨rfl, rfl, rfl⟩, rfl, rfl, rfl⟩, noIntegrityError_nil⟩) fun _ _ _ hs => ⟨hs.1.1, hs.2⟩
  rintro h c s hc ⟨hs, hclean⟩
  exact ⟨SameButLedger.apply hs (hc.onLedger _ _ _),
    noIntegrityError_cons _ _ |>.mpr ⟨fun x hx => hc.noIntegrityError hx, hclean⟩⟩

section Serve
variable (settings : VkSettings) {T : Tables} (o : Surroundings)

/-- How a request ends that starts from the tables `T`. -/
def ServedAs (settings : VkSettings) (T : Tables) (v : Visit) (r : Except Exn Answer) (h : CallHistory)
    (s : Session) : Prop :=
  Served settings T v r s.committed ∧ NoIntegrityError h

/-- A failing exit raises one of the errors that the bot catches. -/
theorem ConfirmExit.isDomain {e : ConfirmExit} {x : Exn} (hx : e.result = .error x) : x.isDomain = true := by
  cases e <;> cases hx <;> rfl

theorem confirmRequest_wp (hT : T.Wf) (code : Str) (vkPeerId : PeerId) (sn dn : Option String) :
    wp (handler fun h => o h.length) ((Request.confirm code vkPeerId sn dn).prog settings)
      (ServedAs settings T ⟨.confirm code vkPeerId sn dn, o⟩) [] ⟨T, T⟩ := by
  simp only [Request.prog, wp_bind]
  refine attemptDomain_wp (wp_mono (confirm_wp o vkPeerId sn dn settings code hT) ?_)
  rintro r h s ⟨rfl, rfl, hclean⟩
  refine ⟨fun _ => ConfirmExit.isDomain, ?_⟩
  simp only [andThen_ok, wp_bind]
  refine wp_mono botCommit_wp ?_
  rintro r h' s ⟨rfl, rfl, hclean'⟩
  simp only [List.length_nil, Nat.zero_add]
  exact ⟨.confirmed rfl, hclean' (hclean noIntegrityError_nil)⟩

theorem transitionRequest_wp (hT : T.Wf) (vkPeerId : PeerId) (state : BindingState) {action : LogAction}
    (haction : action ≠ .confirmation) {Φ : Except Exn Answer → CallHistory → Session → Prop}
    (hΦ : ∀ done T' h, Transitioned vkPeerId state T done T' → NoIntegrityError h →
      Φ (.ok (.transitioned done)) h (Session.start T')) :
    wp (handler fun h => o h.length) (do let done ← transition vkPeerId state action; botCommit; pure (.transitioned done))
      Φ [] ⟨T, T⟩ := by
  simp only [wp_bind]
  refine wp_mono (transition_wp vkPeerId state hT haction) ?_
  rintro r h s ⟨done, T', rfl, rfl, htrans, hclean⟩
  simp only [andThen_ok, wp_bind]
  refine wp_mono botCommit_wp ?_
  rintro r h' s ⟨rfl, rfl, hclean'⟩
  exact hΦ _ _ _ htrans (hclean' (hclean noIntegrityError_nil))

/-- Each request runs as specified when nothing else runs. -/
theorem serve_spec (hT : T.Wf) (v : Visit) :
    Served settings T v (serve settings T v).1 (serve settings T v).2.2 ∧
      NoIntegrityError (serve settings T v).2.1 := by
  obtain ⟨request, o⟩ := v
  suffices wp (handler fun h => o h.length) (request.prog settings) (ServedAs settings T ⟨request, o⟩) []
    ⟨T, T⟩ from this
  cases request with
  | ensureBinding userId =>
    refine getSession_wp ?_
    simp only [wp_bind]
    refine wp_mono (ensureBinding_wp userId hT) ?_
    rintro r h s ⟨b, created, T', rfl, rfl, hensured, hclean⟩ h' hclean'
    exact ⟨.ensured hensured, hclean' (hclean noIntegrityError_nil)⟩
  | issueConfirmation userId =>
    refine getSession_wp ?_
    simp only [wp_bind]
    refine wp_mono (issueConfirmation_wp settings userId hT hT) ?_
    rintro r h s ⟨hC, hclean, ⟨i, rfl, hissued⟩ | ⟨message, rfl⟩⟩ h' hclean'
    · exact ⟨.issued hissued, hclean' (hclean noIntegrityError_nil)⟩
    · exact ⟨hC ▸ .refused message, hclean' (hclean noIntegrityError_nil)⟩
  | unlink userId =>
    refine getSession_wp ?_
    simp only [wp_bind]
    refine wp_mono (unlink_wp userId hT) ?_
    rintro r h s ⟨done, T', rfl, rfl, hunlinked, hclean⟩ h' hclean'
    exact ⟨.unlinked hunlinked, hclean' (hclean noIntegrityError_nil)⟩
  | confirm code vkPeerId sn dn => exact confirmRequest_wp settings o hT code vkPeerId sn dn
  | block vkPeerId =>
    exact transitionRequest_wp o hT vkPeerId .blocked (by decide) fun _ _ _ htrans hclean => ⟨.blocked htrans, hclean⟩
  | unblock vkPeerId =>
    exact transitionRequest_wp o hT vkPeerId .active (by decide) fun _ _ _ htrans hclean => ⟨.unblocked htrans, hclean⟩
  | deliver command =>
    simp only [Request.prog, wp_bind]
    refine wp_mono (handleCommand_wp command) ?_
    rintro (e | a) h s ⟨hsame, hclean⟩
    · exact ⟨.delivered hsame (by simp), hclean⟩
    · exact ⟨.delivered hsame (by simp), hclean⟩

end Serve
end VkService
