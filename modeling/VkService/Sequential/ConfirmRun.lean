import VkService.Sequential.Replies

/-! `confirm` run alone decides on one of eight exits, then makes the one change and writes
the one journal row of that exit. -/
namespace VkService
open PyStr Effects Effects.Prog UserVkRepository VkConfirmationRepository

/-- How `confirm` ends. -/
inductive ConfirmExit where
  | rateLimited
  | notFound
  | alreadyConfirmed (c : VkConfirmation) (binding : UserVk)
  | used (c : VkConfirmation)
  | expired (c : VkConfirmation)
  | bindingMissing (c : VkConfirmation)
  | peerConflict (c : VkConfirmation)
  | confirmed (c : VkConfirmation) (binding : UserVk)

/-- The limit as seen by an attempt that looks at the clock at `checkedAt`. -/
def overLimit (settings : VkSettings) (T : Tables) (vkPeerId : PeerId) (checkedAt : Time) : Prop :=
  settings.vkConfirmationMaxAttempts ≤ VkLogRepository.countFailedSince T .confirmation vkPeerId
    (checkedAt - minutes settings.vkConfirmationAttemptWindowMinutes) failedStatuses

instance (settings : VkSettings) (T : Tables) (vkPeerId : PeerId) (checkedAt : Time) :
    Decidable (overLimit settings T vkPeerId checkedAt) := inferInstanceAs (Decidable (_ ≤ _))

/-- The exit once the limit is passed. -/
def lookupExit (T : Tables) (code : Str) (vkPeerId : PeerId) (readAt : Time) : ConfirmExit :=
  match codeRow T code with
  | none => .notFound
  | some c =>
    match c.usedAt, bindingRow T c.userVkId with
    | some _, none => .used c
    | some _, some b => if isSamePeerActive vkPeerId (some b) then .alreadyConfirmed c b else .used c
    | none, b =>
      if c.expiresAt ≤ readAt then .expired c
      else
        match b with
        | none => .bindingMissing c
        | some b =>
          if !b.live then .bindingMissing c
          else if (peerRow T vkPeerId).any (·.id ≠ c.userVkId) then .peerConflict c
          else .confirmed c b

def confirmExit (settings : VkSettings) (T : Tables) (code : Str) (vkPeerId : PeerId) (checkedAt readAt : Time) :
    ConfirmExit :=
  if overLimit settings T vkPeerId checkedAt then .rateLimited else lookupExit T code vkPeerId readAt

/-- What each exit past the limit says about the tables. -/
inductive LookupCase (T : Tables) (code : Str) (vkPeerId : PeerId) (readAt : Time) : ConfirmExit → Prop
  | notFound (hc : codeRow T code = none) : LookupCase T code vkPeerId readAt .notFound
  | alreadyConfirmed {c : VkConfirmation} {b : UserVk} (hc : codeRow T code = some c) (hused : c.usedAt.isSome = true)
      (hb : bindingRow T c.userVkId = some b) (hsame : isSamePeerActive vkPeerId (some b) = true) :
      LookupCase T code vkPeerId readAt (.alreadyConfirmed c b)
  | used {c : VkConfirmation} (hc : codeRow T code = some c) (hused : c.usedAt.isSome = true)
      (hother : isSamePeerActive vkPeerId (bindingRow T c.userVkId) = false) :
      LookupCase T code vkPeerId readAt (.used c)
  | expired {c : VkConfirmation} (hc : codeRow T code = some c) (hunused : c.usedAt = none)
      (hexp : c.expiresAt ≤ readAt) : LookupCase T code vkPeerId readAt (.expired c)
  | bindingMissing {c : VkConfirmation} (hc : codeRow T code = some c) (hunused : c.usedAt = none)
      (hb : ∀ b, bindingRow T c.userVkId = some b → b.live = false) :
      LookupCase T code vkPeerId readAt (.bindingMissing c)
  | peerConflict {c : VkConfirmation} {q : UserVk} (hc : codeRow T code = some c) (hunused : c.usedAt = none)
      (hq : peerRow T vkPeerId = some q) (hne : q.id ≠ c.userVkId) :
      LookupCase T code vkPeerId readAt (.peerConflict c)
  | confirmed {c : VkConfirmation} {b : UserVk} (hc : codeRow T code = some c) (hunused : c.usedAt = none)
      (hexp : readAt < c.expiresAt) (hb : bindingRow T c.userVkId = some b) (hlive : b.live = true)
      (hpeer : ∀ q, peerRow T vkPeerId = some q → q.id = c.userVkId) :
      LookupCase T code vkPeerId readAt (.confirmed c b)

theorem lookupExit_case (T : Tables) (code : Str) (vkPeerId : PeerId) (readAt : Time) :
    LookupCase T code vkPeerId readAt (lookupExit T code vkPeerId readAt) := by
  unfold lookupExit
  cases hc : codeRow T code with
  | none => exact .notFound hc
  | some c =>
    dsimp only
    cases hused : c.usedAt with
    | some at' =>
      have hsome : c.usedAt.isSome = true := by simp [hused]
      cases hb : bindingRow T c.userVkId with
      | none => exact .used hc hsome (by rw [hb, isSamePeerActive])
      | some b =>
        cases hsame : isSamePeerActive vkPeerId (some b) with
        | true =>
          simp only [hsame, ↓reduceIte]
          exact .alreadyConfirmed hc hsome hb hsame
        | false =>
          simp only [hsame, Bool.false_eq_true, ↓reduceIte]
          exact .used hc hsome (by rw [hb, hsame])
    | none =>
      dsimp only
      by_cases hexp : c.expiresAt ≤ readAt
      · rw [if_pos hexp]
        exact .expired hc hused hexp
      · rw [if_neg hexp]
        have hexp := Int.not_le.mp hexp
        cases hb : bindingRow T c.userVkId with
        | none => exact .bindingMissing hc hused (by simp [hb])
        | some b =>
          cases hlive : b.live with
          | false =>
            simp only [hlive, Bool.not_false, ↓reduceIte]
            exact .bindingMissing hc hused (by simp [hb, hlive])
          | true =>
            simp only [hlive, Bool.not_true, Bool.false_eq_true, ↓reduceIte]
            cases hq : peerRow T vkPeerId with
            | none => exact .confirmed hc hused hexp hb hlive (by simp [hq])
            | some q =>
              by_cases hid : q.id = c.userVkId
              · rw [if_neg (by simp [hid])]
                exact .confirmed hc hused hexp hb hlive (by simp [hq, hid])
              · rw [if_pos (by simp [hid])]
                exact .peerConflict hc hused hq hid

theorem confirmExit_case (settings : VkSettings) (T : Tables) (code : Str) (vkPeerId : PeerId)
    (checkedAt readAt : Time) :
    (overLimit settings T vkPeerId checkedAt ∧
      confirmExit settings T code vkPeerId checkedAt readAt = .rateLimited) ∨
    (¬ overLimit settings T vkPeerId checkedAt ∧
      LookupCase T code vkPeerId readAt (confirmExit settings T code vkPeerId checkedAt readAt)) := by
  unfold confirmExit
  split
  · exact .inl ⟨‹_›, rfl⟩
  · exact .inr ⟨‹_›, lookupExit_case T code vkPeerId readAt⟩

namespace ConfirmExit

def status : ConfirmExit → LogStatus
  | .rateLimited => .rateLimited
  | .notFound => .notFound
  | .alreadyConfirmed .. => .alreadyConfirmed
  | .used _ => .used
  | .expired _ => .expired
  | .bindingMissing _ => .error
  | .peerConflict _ => .peerConflict
  | .confirmed .. => .success

def result : ConfirmExit → Except Exn ConfirmationResult
  | .rateLimited => .error (.rateLimited "Слишком много неудачных попыток, повторите позже")
  | .notFound => .error (.notFound "Код подтверждения недействителен")
  | .alreadyConfirmed c b => .ok ⟨.alreadyConfirmed, b.userId, c.userVkId⟩
  | .used _ => .error (.conflict "Код подтверждения уже использован")
  | .expired _ => .error (.gone "Срок действия кода подтверждения истёк")
  | .bindingMissing _ => .error (.notFound "Привязка не найдена")
  | .peerConflict _ => .error (.conflict peerTakenMessage)
  | .confirmed c b => .ok ⟨.confirmed, b.userId, c.userVkId⟩

/-- The details of the journal row after the peer. -/
def details (masked : String) : ConfirmExit → Details
  | .rateLimited | .notFound => [("code", masked)]
  | .alreadyConfirmed c _ | .used c | .expired c | .peerConflict c =>
      [("code", masked), ("user_vk_id", toString c.userVkId)]
  | .bindingMissing c =>
      [("code", masked), ("user_vk_id", toString c.userVkId), ("reason", "binding_missing")]
  | .confirmed c b =>
      [("code", masked), ("user_vk_id", toString c.userVkId), ("user_id", toString b.userId)]

/-- How many calls come before the journal row. -/
def callsBeforeLog : ConfirmExit → Nat
  | .rateLimited => 2
  | .notFound => 3
  | .alreadyConfirmed .. | .used _ => 4
  | .expired _ | .bindingMissing _ => 5
  | .peerConflict _ => 6
  | .confirmed .. => 8

/-- The bindings after the exit. -/
def userVks (w : World) (vkPeerId : PeerId) (sn dn : Option String) (T : Tables) : ConfirmExit → List UserVk
  | .confirmed c _ =>
      T.userVks.map fun r => if liveWithId c.userVkId r then activated w vkPeerId sn dn r else r
  | _ => T.userVks

/-- The codes after the exit. -/
def vkConfirmations (w : World) (T : Tables) : ConfirmExit → List VkConfirmation
  | .confirmed c _ => T.vkConfirmations.map fun c' => if c'.id == c.id then VkConfirmationRepository.used w c' else c'
  | _ => T.vkConfirmations

/-- The journal row of the exit. -/
def log (w : World) (vkPeerId : PeerId) (masked : String) (e : ConfirmExit) : VkLog :=
  ⟨.confirmation, e.status, ("vk_peer_id", toString vkPeerId) :: e.details masked, w.dbNow⟩

end ConfirmExit

/-- The tables after `confirm`, whose n-th call happens in `o n`. -/
def afterConfirm (o : Surroundings) (T : Tables) (masked : String) (vkPeerId : PeerId) (sn dn : Option String)
    (e : ConfirmExit) : Tables where
  userVks := e.userVks (o 6) vkPeerId sn dn T
  vkConfirmations := e.vkConfirmations (o 7) T
  vkLogs := T.vkLogs ++ [e.log (o e.callsBeforeLog) vkPeerId masked]
  vkNotificationDeliveries := T.vkNotificationDeliveries

/-- What a run of `confirm` from `h` and `T` ends with, given its exit. -/
def EndsWith (o : Surroundings) (C T : Tables) (masked : String) (vkPeerId : PeerId) (sn dn : Option String)
    (h : CallHistory) (e : ConfirmExit) (r : Except Exn ConfirmationResult) (h' : CallHistory) (s : Session) : Prop :=
  r = e.result ∧ s = ⟨C, afterConfirm (fun n => o (h.length + n)) T masked vkPeerId sn dn e⟩ ∧
    (NoIntegrityError h → NoIntegrityError h')

section Confirm
variable (o : Surroundings) {C T : Tables} (masked : String) (vkPeerId : PeerId) (sn dn : Option String)
  {h h' : CallHistory}

/-- Every exit writes its journal row last. -/
theorem exit_wp (e : ConfirmExit) (hlen : h'.length = h.length + e.callsBeforeLog)
    (hno : NoIntegrityError h → NoIntegrityError h') :
    wp (handler fun h => o h.length)
      (do logConfirmation e.status vkPeerId (e.details masked); ofExcept e.result)
      (EndsWith o C T masked vkPeerId sn dn h e) h'
      ⟨C, { T with userVks := e.userVks (o (h.length + 6)) vkPeerId sn dn T,
                   vkConfirmations := e.vkConfirmations (o (h.length + 7)) T }⟩ := by
  simp only [logConfirmation, await, wp_bind, wp_perform, handler_logAction, andThen_ok, pure_eq, wp_ret, wp_ofExcept]
  refine ⟨rfl, ?_, by simpa using hno⟩
  rw [afterConfirm, ConfirmExit.log, hlen]

/-- Past the checks nothing can fail. -/
theorem activateConfirmed_wp (hT : T.Wf) {c : VkConfirmation} {b : UserVk}
    (hb : bindingRow T c.userVkId = some b) (hlive : b.live = true)
    (hpeer : (peerRow T vkPeerId).any (·.id ≠ c.userVkId) = false)
    (hlen : h'.length = h.length + 6) (hno : NoIntegrityError h → NoIntegrityError h') :
    wp (handler fun h => o h.length) (activateConfirmed c b masked vkPeerId sn dn)
      (EndsWith o C T masked vkPeerId sn dn h (.confirmed c b)) h' ⟨C, T⟩ := by
  have hid : b.id = c.userVkId := by simpa using List.find?_some hb
  have hfree : ∀ q, peerRow T vkPeerId = some q → q.id = b.id := by
    intro q hq
    simpa [hq, hid] using hpeer
  have hact := handler_activate (fun h => o h.length) h' (C := C) hT
    (List.mem_of_find?_eq_some hb) hlive vkPeerId hfree sn dn
  rw [hid] at hact
  simp only [activateConfirmed, await, wp_bind, wp_tryCatch, wp_perform, hact, andThen_ok, pure_eq, wp_ret, orElse_ok,
    handler_markUsed, logConfirmation, handler_logAction]
  refine ⟨rfl, ?_, by simpa using hno⟩
  simp [afterConfirm, ConfirmExit.userVks, ConfirmExit.vkConfirmations, ConfirmExit.log, ConfirmExit.status,
    ConfirmExit.details, ConfirmExit.callsBeforeLog, hlen]

theorem confirm_wp (settings : VkSettings) (code : Str) (hT : T.Wf) :
    wp (handler fun h => o h.length) (confirm settings code vkPeerId sn dn)
      (EndsWith o C T (maskCode (normalizeCode code)) vkPeerId sn dn h
        (confirmExit settings T (normalizeCode code) vkPeerId (o h.length).now (o (h.length + 4)).now)) h ⟨C, T⟩ := by
  simp only [confirm, enforceRateLimit, wp_bind, await, wp_perform, handler_now, handler_countFailedSince, andThen_ok]
  rw [confirmExit]
  by_cases hlim : overLimit settings T vkPeerId (o h.length).now
  · rw [if_pos hlim, if_pos (by simpa only [overLimit] using hlim)]
    exact exit_wp o _ vkPeerId sn dn .rateLimited rfl (by simp)
  · rw [if_neg hlim, if_neg (by simpa only [overLimit] using hlim), lookupExit]
    simp only [pure_eq, wp_ret, andThen_ok, wp_bind, wp_perform, handler_getByCode _ _ hT]
    cases hc : codeRow T (normalizeCode code) with
    | none => exact exit_wp o _ vkPeerId sn dn .notFound rfl (by simp)
    | some c =>
      simp only [wp_bind, wp_perform, handler_getById _ _ hT, andThen_ok]
      cases hused : c.usedAt with
      | some at' =>
        simp only [Option.isSome_some, ↓reduceIte]
        cases hb : bindingRow T c.userVkId with
        | none => exact exit_wp o _ vkPeerId sn dn (.used c) rfl (by simp)
        | some b =>
          cases hs : isSamePeerActive vkPeerId (some b) with
          | true =>
            simp only [hs, ↓reduceIte]
            exact exit_wp o _ vkPeerId sn dn (.alreadyConfirmed c b) rfl (by simp)
          | false =>
            simp only [hs, Bool.false_eq_true, ↓reduceIte]
            exact exit_wp o _ vkPeerId sn dn (.used c) rfl (by simp)
      | none =>
        simp only [Option.isSome_none, Bool.false_eq_true, ↓reduceIte, wp_bind, wp_perform, handler_now, andThen_ok,
          List.length_cons, Nat.add_assoc, Nat.reduceAdd]
        by_cases hexp : c.expiresAt ≤ (o (h.length + 4)).now
        · rw [if_pos hexp, if_pos hexp]
          exact exit_wp o _ vkPeerId sn dn (.expired c) rfl (by simp)
        · rw [if_neg hexp, if_neg hexp]
          cases hb : bindingRow T c.userVkId with
          | none => exact exit_wp o _ vkPeerId sn dn (.bindingMissing c) rfl (by simp)
          | some b =>
            cases hlive : b.live with
            | false =>
              simp only [hlive, Bool.not_false, ↓reduceIte]
              exact exit_wp o _ vkPeerId sn dn (.bindingMissing c) rfl (by simp)
            | true =>
              simp only [hlive, Bool.not_true, Bool.false_eq_true, ↓reduceIte, wp_bind, wp_perform,
                handler_getByPeerId _ _ hT, andThen_ok]
              cases hpeer : (peerRow T vkPeerId).any (·.id ≠ c.userVkId) with
              | true =>
                simp only [↓reduceIte]
                exact exit_wp o _ vkPeerId sn dn (.peerConflict c) rfl (by simp)
              | false =>
                simp only [Bool.false_eq_true, ↓reduceIte]
                exact activateConfirmed_wp o _ vkPeerId sn dn hT hb hlive hpeer rfl (by simp)

end Confirm
end VkService
