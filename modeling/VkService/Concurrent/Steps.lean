import VkService.Concurrent.Database
import VkService.Domain.Changes
import VkService.Storage.Keyed

/-! What one step of the database does to each table, by cases on the call. -/
namespace VkService
open PyStr Effects RowStore UserVkRepository VkConfirmationRepository VkNotificationDeliveryRepository

/-- The transaction was rolled back: by its end, or by a repository that met a taken key. -/
def RolledBack (c : Call) (r : Except Exn c.Reply) : Prop :=
  c = .rollback ∨ c = .close ∨ ∃ message, r = .error (.alreadyExists message)

/-- What a step can do to `user_vks`. -/
inductive UserVksStep (t : Tid) (w : World) (s : Store) :
    (c : Call) → Except Exn c.Reply → Heap Tid UserVk → Prop
  | same {c : Call} (hc : c.ends = false) (r : Except Exn c.Reply) : UserVksStep t w s c r s.userVks
  | committed : UserVksStep t w s .commit (.ok ()) (commit t s.userVks)
  | rolledBack {c : Call} {r : Except Exn c.Reply} (hr : RolledBack c r) : UserVksStep t w s c r (rollback t s.userVks)
  | created {userId : UUID}
      (hready : keyReady t (pendingRow w (s.newIds w).userVk userId).clashes s.userVks = true)
      (hfree : (view t s.userVks).any (pendingRow w (s.newIds w).userVk userId).clashes = false) :
      UserVksStep t w s (.userVkCreate userId) (.ok (pendingRow w (s.newIds w).userVk userId))
        (insert t (pendingRow w (s.newIds w).userVk userId) s.userVks)
  | activated {recordId : UUID} {vkPeerId : PeerId} {sn dn : Option String} {r : UserVk}
      (hready : rowsReady t (liveWithId recordId) s.userVks = true)
      (hrow : (view t s.userVks).filter (liveWithId recordId) = [r])
      (hkey : keyReady t (fun r' => r'.id != r.id && (activated w vkPeerId sn dn r).clashes r') s.userVks = true)
      (hfree : occupied (view t s.userVks) (activated w vkPeerId sn dn r) = false) :
      UserVksStep t w s (.userVkActivate recordId vkPeerId sn dn) (.ok (activated w vkPeerId sn dn r))
        (update t (liveWithId recordId) (activated w vkPeerId sn dn) s.userVks)
  | stateSet {recordId : UUID} {state : BindingState} {r : Except Exn (Option UserVk)}
      (hready : rowsReady t (liveWithId recordId) s.userVks = true) :
      UserVksStep t w s (.userVkSetState recordId state) r
        (update t (liveWithId recordId) (withState w state) s.userVks)
  | softDeleted {userId : UUID} {r : Except Exn Bool} (hready : rowsReady t (liveOfUser userId) s.userVks = true) :
      UserVksStep t w s (.userVkSoftDelete userId) r (update t (liveOfUser userId) (deleted w) s.userVks)

/-- What a step can do to `vk_confirmations`. -/
inductive VkConfirmationsStep (t : Tid) (w : World) (s : Store) :
    (c : Call) → Except Exn c.Reply → Heap Tid VkConfirmation → Prop
  | same {c : Call} (hc : c.ends = false) (r : Except Exn c.Reply) : VkConfirmationsStep t w s c r s.vkConfirmations
  | committed : VkConfirmationsStep t w s .commit (.ok ()) (commit t s.vkConfirmations)
  | rolledBack {c : Call} {r : Except Exn c.Reply} (hr : RolledBack c r) :
      VkConfirmationsStep t w s c r (rollback t s.vkConfirmations)
  | codeCreated {userVkId : UUID} {code : Str} {expiresAt : Time}
      (hready : keyReady t (·.code == code) s.vkConfirmations = true)
      (hnew : (view t s.vkConfirmations).any (·.code == code) = false)
      (hrow : (view t s.userVks).any (·.id == userVkId) = true) :
      VkConfirmationsStep t w s (.confirmationCreate userVkId code expiresAt)
        (.ok ⟨(s.newIds w).vkConfirmation, userVkId, code, expiresAt, w.now, none⟩)
        (insert t ⟨(s.newIds w).vkConfirmation, userVkId, code, expiresAt, w.now, none⟩ s.vkConfirmations)
  | markedUsed {confirmationId : UUID} (hready : rowsReady t (·.id == confirmationId) s.vkConfirmations = true) :
      VkConfirmationsStep t w s (.confirmationMarkUsed confirmationId) (.ok ())
        (update t (·.id == confirmationId) (used w) s.vkConfirmations)
  | invalidated {userVkId : UUID} {n : Nat} (hready : rowsReady t (unusedOf userVkId) s.vkConfirmations = true) :
      VkConfirmationsStep t w s (.confirmationInvalidatePrevious userVkId) (.ok n)
        (update t (unusedOf userVkId) (used w) s.vkConfirmations)

/-- What a step can do to `vk_notification_deliveries`. -/
inductive DeliveriesStep (t : Tid) (w : World) (s : Store) :
    (c : Call) → Except Exn c.Reply → Heap Tid VkNotificationDelivery → Prop
  | same {c : Call} (hc : c.ends = false) (r : Except Exn c.Reply) :
      DeliveriesStep t w s c r s.vkNotificationDeliveries
  | committed : DeliveriesStep t w s .commit (.ok ()) (commit t s.vkNotificationDeliveries)
  | rolledBack {c : Call} {r : Except Exn c.Reply} (hr : RolledBack c r) :
      DeliveriesStep t w s c r (rollback t s.vkNotificationDeliveries)
  | claimed {event user : UUID} {peer : PeerId}
      (hready : keyReady t (keyed event user) s.vkNotificationDeliveries = true)
      (hnew : (view t s.vkNotificationDeliveries).filter (keyed event user) = []) :
      DeliveriesStep t w s (.claimAttempt event user peer)
        (.ok (some ⟨event, user, peer, .pending, 1, none, w.now, none⟩))
        (insert t ⟨event, user, peer, .pending, 1, none, w.now, none⟩ s.vkNotificationDeliveries)
  | reclaimed {event user : UUID} {peer : PeerId} {d : VkNotificationDelivery}
      (hready : keyReady t (keyed event user) s.vkNotificationDeliveries = true)
      (hrow : (view t s.vkNotificationDeliveries).filter (keyed event user) = [d]) (hsent : d.status ≠ .sent) :
      DeliveriesStep t w s (.claimAttempt event user peer) (.ok (some (reclaimed w peer d)))
        (update t (keyed event user) (reclaimed w peer) s.vkNotificationDeliveries)
  | markedSent {event user : UUID} (hready : rowsReady t (keyed event user) s.vkNotificationDeliveries = true) :
      DeliveriesStep t w s (.markSent event user)
        (one (((view t s.vkNotificationDeliveries).filter (keyed event user)).map (sent w)))
        (update t (keyed event user) (sent w) s.vkNotificationDeliveries)
  | markedFailed {event user : UUID} {category : String}
      (hready : rowsReady t (keyed event user) s.vkNotificationDeliveries = true) :
      DeliveriesStep t w s (.markFailed event user category)
        (one (((view t s.vkNotificationDeliveries).filter (keyed event user)).map (failed w category)))
        (update t (keyed event user) (failed w category) s.vkNotificationDeliveries)

/-- What a step can do to `vk_logs`. -/
inductive VkLogsStep (t : Tid) (w : World) (s : Store) : (c : Call) → Except Exn c.Reply → Heap Tid VkLog → Prop
  | same {c : Call} (hc : c.ends = false) (hlog : ∀ action status details, c ≠ .logAction action status details)
      (r : Except Exn c.Reply) : VkLogsStep t w s c r s.vkLogs
  | committed : VkLogsStep t w s .commit (.ok ()) (commit t s.vkLogs)
  | rolledBack {c : Call} {r : Except Exn c.Reply} (hr : RolledBack c r) : VkLogsStep t w s c r (rollback t s.vkLogs)
  | logged (action : LogAction) (status : LogStatus) (details : Details) :
      VkLogsStep t w s (.logAction action status details) (.ok ⟨action, status, details, w.dbNow⟩)
        (insert t ⟨action, status, details, w.dbNow⟩ s.vkLogs)

section Steps
variable {hashtext : String → Int} {t : Tid} {w : World} {c : Call} {s s' : Store} {r : Except Exn c.Reply}

/-- A step asks for a change in the rows its transaction sees. -/
theorem exec_asks (h : (database hashtext).exec t w c s = some (r, s')) : ready hashtext t w s c = true ∧
    ∃ change, Asks w (s.newIds w) (s.view t) c r change ∧ s' = acquire hashtext t (s.apply t change) c := by
  obtain ⟨hready, rfl, rfl⟩ := execCall_cases h
  exact ⟨hready, _, answer_asks w (s.newIds w) (s.view t) c, rfl⟩

@[simp] theorem acquire_userVks (s : Store) (c : Call) : (acquire hashtext t s c).userVks = s.userVks := by
  cases c <;> rfl
@[simp] theorem acquire_vkConfirmations (s : Store) (c : Call) :
    (acquire hashtext t s c).vkConfirmations = s.vkConfirmations := by
  cases c <;> rfl
@[simp] theorem acquire_vkLogs (s : Store) (c : Call) : (acquire hashtext t s c).vkLogs = s.vkLogs := by
  cases c <;> rfl
@[simp] theorem acquire_deliveries (s : Store) (c : Call) :
    (acquire hashtext t s c).vkNotificationDeliveries = s.vkNotificationDeliveries := by
  cases c <;> rfl

theorem exec_userVks (h : (database hashtext).exec t w c s = some (r, s')) : UserVksStep t w s c r s'.userVks := by
  obtain ⟨hready, change, hasks, rfl⟩ := exec_asks h
  rw [acquire_userVks]
  cases hasks with
  | read hc => exact .same (by cases c <;> first | rfl | cases hc) _
  | created hfree => exact .created hready hfree
  | activated hrow hfree =>
    simp only [ready, Bool.and_eq_true] at hready
    have hkey := List.all_eq_true.mp hready.2 _ (hrow ▸ List.mem_singleton_self _)
    exact .activated hready.1 hrow hkey hfree
  | stateSet => exact .stateSet hready
  | softDeleted => exact .softDeleted hready
  | userTaken | peerTaken => exact .rolledBack (.inr (.inr ⟨_, rfl⟩))
  | commit => exact .committed
  | rollback => exact .rolledBack (.inl rfl)
  | close => exact .rolledBack (.inr (.inl rfl))
  | _ => exact .same rfl _

theorem exec_vkConfirmations (h : (database hashtext).exec t w c s = some (r, s')) :
    VkConfirmationsStep t w s c r s'.vkConfirmations := by
  obtain ⟨hready, change, hasks, rfl⟩ := exec_asks h
  rw [acquire_vkConfirmations]
  cases hasks with
  | read hc => exact .same (by cases c <;> first | rfl | cases hc) _
  | codeCreated hnew hrow => exact .codeCreated hready hnew hrow
  | markedUsed => exact .markedUsed hready
  | invalidated => exact .invalidated hready
  | userTaken | peerTaken => exact .rolledBack (.inr (.inr ⟨_, rfl⟩))
  | commit => exact .committed
  | rollback => exact .rolledBack (.inl rfl)
  | close => exact .rolledBack (.inr (.inl rfl))
  | _ => exact .same rfl _

theorem exec_deliveries (h : (database hashtext).exec t w c s = some (r, s')) :
    DeliveriesStep t w s c r s'.vkNotificationDeliveries := by
  obtain ⟨hready, change, hasks, rfl⟩ := exec_asks h
  rw [acquire_deliveries]
  cases hasks with
  | read hc => exact .same (by cases c <;> first | rfl | cases hc) _
  | claimed hnew =>
    simp only [ready, Bool.and_eq_true] at hready
    exact .claimed hready.2 hnew
  | reclaimed hrow hsent =>
    simp only [ready, Bool.and_eq_true] at hready
    exact .reclaimed hready.2 hrow hsent
  | markedSent => exact .markedSent hready
  | markedFailed => exact .markedFailed hready
  | userTaken | peerTaken => exact .rolledBack (.inr (.inr ⟨_, rfl⟩))
  | commit => exact .committed
  | rollback => exact .rolledBack (.inl rfl)
  | close => exact .rolledBack (.inr (.inl rfl))
  | _ => exact .same rfl _

theorem exec_vkLogs (h : (database hashtext).exec t w c s = some (r, s')) : VkLogsStep t w s c r s'.vkLogs := by
  obtain ⟨-, change, hasks, rfl⟩ := exec_asks h
  rw [acquire_vkLogs]
  cases hasks with
  | read hc => exact .same (by cases c <;> first | rfl | cases hc) (by rintro _ _ _ rfl; cases hc) _
  | logged action status details => exact .logged action status details
  | userTaken | peerTaken => exact .rolledBack (.inr (.inr ⟨_, rfl⟩))
  | commit => exact .committed
  | rollback => exact .rolledBack (.inl rfl)
  | close => exact .rolledBack (.inr (.inl rfl))
  | _ => exact .same rfl (by simp) _

/-- Only a call that takes a unique key can meet a taken one. -/
theorem alreadyExists_of_answer {ids : NewIds} {T : Tables} {message : String}
    (h : (answer w ids T c).1 = .error (.alreadyExists message)) :
    (∃ userId, c = .userVkCreate userId) ∨ ∃ x vkPeerId sn dn, c = .userVkActivate x vkPeerId sn dn := by
  have hrow : ∀ {ρ : Type} {rows : List ρ}, oneOrNone rows ≠ .error (.alreadyExists message) := by
    intro ρ rows hrows
    match rows, hrows with
    | _ :: _ :: _, hrows => cases hrows
  have hone : ∀ {ρ : Type} {rows : List ρ}, one rows ≠ .error (.alreadyExists message) := by
    intro ρ rows hrows
    match rows, hrows with
    | [], hrows => cases hrows
    | _ :: _ :: _, hrows => cases hrows
  cases c with
  | userVkCreate userId => exact .inl ⟨userId, rfl⟩
  | userVkActivate x vkPeerId sn dn => exact .inr ⟨x, vkPeerId, sn, dn, rfl⟩
  | userVkGetById | userVkGetByUserId | userVkGetByPeerId | userVkSetState | confirmationGetByCode =>
    exact absurd h hrow
  | markSent | markFailed => exact absurd h hone
  | confirmationCreate =>
    simp only [answer, VkConfirmationRepository.create] at h
    split at h <;> cases h
  | claimAttempt =>
    simp only [answer, claimAttempt] at h
    split at h
    · rename_i x hx
      cases h
      exact absurd hx hrow
    · cases h
    · split at h <;> cases h
  | _ => cases h

theorem rolledBack_cases (h : (database hashtext).exec t w c s = some (r, s')) (hr : RolledBack c r) :
    c.ends = true ∨ (∃ userId, c = .userVkCreate userId) ∨
    ∃ x vkPeerId sn dn, c = .userVkActivate x vkPeerId sn dn := by
  obtain ⟨-, hreply, -⟩ := execCall_cases h
  rcases hr with rfl | rfl | ⟨message, hr⟩
  · exact .inl rfl
  · exact .inl rfl
  · exact .inr (alreadyExists_of_answer (hreply.symm.trans hr))

/-- A step that rolls back undoes its whole transaction. -/
theorem exec_rolledBack (h : (database hashtext).exec t w c s = some (r, s')) (hr : RolledBack c r) :
    s' = s.rollback t := by
  obtain ⟨-, hreply, hnext⟩ := execCall_cases h
  rcases hr with rfl | rfl | ⟨message, hr⟩
  · exact hnext
  · exact hnext
  · have hanswer := hreply.symm.trans hr
    have hasks := answer_asks w (s.newIds w) (s.view t) c
    rw [hanswer] at hasks
    rw [hnext]
    generalize (answer w (s.newIds w) (s.view t) c).2 = change at hasks
    rcases alreadyExists_of_answer hanswer with ⟨userId, rfl⟩ | ⟨x, vkPeerId, sn, dn, rfl⟩
    · cases hasks with
      | read hc => cases hc
      | userTaken => rfl
    · cases hasks with
      | read hc => cases hc
      | unactivated hone =>
        generalize (s.view t).userVks.filter (liveWithId x) = rows at hone
        match rows, hone with
        | [], hone => cases hone
        | _ :: _ :: _, hone => cases hone
      | peerTaken => rfl

end Steps
end VkService
