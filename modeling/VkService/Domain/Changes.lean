import VkService.Domain.Calls

/-! Everything a call can ask of the database, with the guard under which it does. -/
namespace VkService
open PyStr UserVkRepository VkConfirmationRepository VkNotificationDeliveryRepository

/-- The calls that ask for no change. -/
def Call.reads : Call → Bool
  | .now | .choices _ | .sendMessage .. | .getProfile _ | .userVkGetById _ | .userVkGetByUserId _
  | .userVkGetByUserIds .. | .userVkGetByPeerId _ | .confirmationGetByCode _ | .countFailedSince .. => true
  | _ => false

/-- The calls that end a transaction. -/
def Call.ends : Call → Bool
  | .commit | .rollback | .close => true
  | _ => false

inductive Asks (w : World) (ids : NewIds) (T : Tables) : (c : Call) → Except Exn c.Reply → Change → Prop
  | read {c : Call} (hc : c.reads = true) (r : Except Exn c.Reply) : Asks w ids T c r .nothing
  | userTaken {userId : UUID} (h : T.userVks.any (pendingRow w ids.userVk userId).clashes = true) :
      Asks w ids T (.userVkCreate userId)
        (.error (.alreadyExists s!"VK binding already exists for user_id={userId}")) .rollback
  | created {userId : UUID} (h : T.userVks.any (pendingRow w ids.userVk userId).clashes = false) :
      Asks w ids T (.userVkCreate userId) (.ok (pendingRow w ids.userVk userId))
        (.insertUserVk (pendingRow w ids.userVk userId))
  | unactivated {recordId : UUID} {vkPeerId : PeerId} {sn dn : Option String} {e : Exn}
      (h : one (T.userVks.filter (liveWithId recordId)) = .error e) :
      Asks w ids T (.userVkActivate recordId vkPeerId sn dn) (.error e) .nothing
  | peerTaken {recordId : UUID} {vkPeerId : PeerId} {sn dn : Option String} {r : UserVk}
      (h : T.userVks.filter (liveWithId recordId) = [r])
      (hocc : occupied T.userVks (activated w vkPeerId sn dn r) = true) :
      Asks w ids T (.userVkActivate recordId vkPeerId sn dn)
        (.error (.alreadyExists s!"VK account already linked: vk_peer_id={vkPeerId}")) .rollback
  | activated {recordId : UUID} {vkPeerId : PeerId} {sn dn : Option String} {r : UserVk}
      (h : T.userVks.filter (liveWithId recordId) = [r])
      (hfree : occupied T.userVks (activated w vkPeerId sn dn r) = false) :
      Asks w ids T (.userVkActivate recordId vkPeerId sn dn) (.ok (activated w vkPeerId sn dn r))
        (.updateUserVk (liveWithId recordId) (activated w vkPeerId sn dn))
  | stateSet (recordId : UUID) (state : BindingState) :
      Asks w ids T (.userVkSetState recordId state)
        (oneOrNone ((T.userVks.filter (liveWithId recordId)).map (withState w state)))
        (.updateUserVk (liveWithId recordId) (withState w state))
  | softDeleted (userId : UUID) : Asks w ids T (.userVkSoftDelete userId) (.ok (T.userVks.any (liveOfUser userId)))
      (.updateUserVk (liveOfUser userId) (deleted w))
  | codeTaken {userVkId : UUID} {code : Str} {expiresAt : Time}
      (h : T.vkConfirmations.any (·.code == code) = true ∨ T.userVks.any (·.id == userVkId) = false) :
      Asks w ids T (.confirmationCreate userVkId code expiresAt) (.error .integrityError) .nothing
  | codeCreated {userVkId : UUID} {code : Str} {expiresAt : Time}
      (h : T.vkConfirmations.any (·.code == code) = false) (hrow : T.userVks.any (·.id == userVkId) = true) :
      Asks w ids T (.confirmationCreate userVkId code expiresAt)
        (.ok ⟨ids.vkConfirmation, userVkId, code, expiresAt, w.now, none⟩)
        (.insertVkConfirmation ⟨ids.vkConfirmation, userVkId, code, expiresAt, w.now, none⟩)
  | markedUsed (confirmationId : UUID) :
      Asks w ids T (.confirmationMarkUsed confirmationId) (.ok ())
        (.updateVkConfirmation (·.id == confirmationId) (used w))
  | invalidated (userVkId : UUID) :
      Asks w ids T (.confirmationInvalidatePrevious userVkId) (.ok (T.vkConfirmations.countP (unusedOf userVkId)))
        (.updateVkConfirmation (unusedOf userVkId) (used w))
  | logged (action : LogAction) (status : LogStatus) (details : Details) :
      Asks w ids T (.logAction action status details) (.ok ⟨action, status, details, w.dbNow⟩)
        (.insertVkLog ⟨action, status, details, w.dbNow⟩)
  | ledgerBroken {event user : UUID} {peer : PeerId} {e : Exn}
      (h : oneOrNone (T.vkNotificationDeliveries.filter (keyed event user)) = .error e) :
      Asks w ids T (.claimAttempt event user peer) (.error e) .nothing
  | alreadySent {event user : UUID} {peer : PeerId} {d : VkNotificationDelivery}
      (h : T.vkNotificationDeliveries.filter (keyed event user) = [d]) (hsent : d.status = .sent) :
      Asks w ids T (.claimAttempt event user peer) (.ok none) .nothing
  | claimed {event user : UUID} {peer : PeerId} (h : T.vkNotificationDeliveries.filter (keyed event user) = []) :
      Asks w ids T (.claimAttempt event user peer) (.ok (some ⟨event, user, peer, .pending, 1, none, w.now, none⟩))
        (.insertDelivery ⟨event, user, peer, .pending, 1, none, w.now, none⟩)
  | reclaimed {event user : UUID} {peer : PeerId} {d : VkNotificationDelivery}
      (h : T.vkNotificationDeliveries.filter (keyed event user) = [d]) (hsent : d.status ≠ .sent) :
      Asks w ids T (.claimAttempt event user peer) (.ok (some (reclaimed w peer d)))
        (.updateDelivery (keyed event user) (reclaimed w peer))
  | markedSent (event user : UUID) :
      Asks w ids T (.markSent event user)
        (one ((T.vkNotificationDeliveries.filter (keyed event user)).map (sent w)))
        (.updateDelivery (keyed event user) (sent w))
  | markedFailed (event user : UUID) (category : String) :
      Asks w ids T (.markFailed event user category)
        (one ((T.vkNotificationDeliveries.filter (keyed event user)).map (failed w category)))
        (.updateDelivery (keyed event user) (failed w category))
  | commit : Asks w ids T .commit (.ok ()) .commit
  | rollback : Asks w ids T .rollback (.ok ()) .rollback
  | close : Asks w ids T .close (.ok ()) .rollback

section Rows
variable {ρ : Type} {rows : List ρ}

theorem oneOrNone_none (h : oneOrNone rows = .ok none) : rows = [] := by
  match rows with
  | [] => rfl
  | [_] => cases h
  | _ :: _ :: _ => cases h

theorem oneOrNone_some {r : ρ} (h : oneOrNone rows = .ok (some r)) : rows = [r] := by
  match rows with
  | [] => cases h
  | [_] =>
    cases h
    rfl
  | _ :: _ :: _ => cases h

theorem one_ok {r : ρ} (h : one rows = .ok r) : rows = [r] := by
  match rows with
  | [] => cases h
  | [_] =>
    cases h
    rfl
  | _ :: _ :: _ => cases h

end Rows

/-- The guide to `answer`: what is asked, and when. -/
theorem answer_asks (w : World) (ids : NewIds) (T : Tables) (c : Call) :
    Asks w ids T c (answer w ids T c).1 (answer w ids T c).2 := by
  cases c with
  | userVkCreate userId =>
    cases h : T.userVks.any (pendingRow w ids.userVk userId).clashes with
    | true => simpa only [answer, UserVkRepository.create, h] using .userTaken h
    | false => simpa only [answer, UserVkRepository.create, h] using .created h
  | userVkActivate recordId vkPeerId sn dn =>
    cases hone : one (T.userVks.filter (liveWithId recordId)) with
    | error e => simpa only [answer, activate, hone] using .unactivated hone
    | ok r =>
      cases hocc : occupied T.userVks (UserVkRepository.activated w vkPeerId sn dn r) with
      | true => simpa only [answer, activate, hone, hocc] using .peerTaken (one_ok hone) hocc
      | false => simpa only [answer, activate, hone, hocc] using .activated (one_ok hone) hocc
  | userVkSetState recordId state => exact .stateSet recordId state
  | userVkSoftDelete userId => exact .softDeleted userId
  | confirmationCreate userVkId code expiresAt =>
    cases hcode : T.vkConfirmations.any (·.code == code) with
    | true => simpa only [answer, VkConfirmationRepository.create, hcode] using .codeTaken (.inl hcode)
    | false =>
      cases hrow : T.userVks.any (·.id == userVkId) with
      | true => simpa only [answer, VkConfirmationRepository.create, hcode, hrow] using .codeCreated hcode hrow
      | false => simpa only [answer, VkConfirmationRepository.create, hcode, hrow] using .codeTaken (.inr hrow)
  | confirmationMarkUsed confirmationId => exact .markedUsed confirmationId
  | confirmationInvalidatePrevious userVkId => exact .invalidated userVkId
  | logAction action status details => exact .logged action status details
  | claimAttempt event user peer =>
    cases hone : oneOrNone (T.vkNotificationDeliveries.filter (keyed event user)) with
    | error e => simpa only [answer, claimAttempt, hone] using .ledgerBroken hone
    | ok found =>
      cases found with
      | none => simpa only [answer, claimAttempt, hone] using .claimed (oneOrNone_none hone)
      | some d =>
        by_cases hsent : d.status = .sent
        · simpa only [answer, claimAttempt, hone, hsent] using .alreadySent (oneOrNone_some hone) hsent
        · simpa only [answer, claimAttempt, hone, hsent] using .reclaimed (oneOrNone_some hone) hsent
  | markSent event user => exact .markedSent event user
  | markFailed event user category => exact .markedFailed event user category
  | commit => exact .commit
  | rollback => exact .rollback
  | close => exact .close
  | _ => exact .read rfl _

end VkService
