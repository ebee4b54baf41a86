import VkService.Domain.Constraints
import VkService.Effects.Weakest
import VkService.Sequential.Session

/-! What each call of an open session replies, and what it leaves, when the tables meet
the constraints of the schema. -/
namespace VkService
open PyStr Effects Effects.Prog UserVkRepository VkConfirmationRepository

/-- Both sides of an open session meet the constraints. -/
structure Session.Wf (s : Session) : Prop where
  committed : s.committed.Wf
  working : s.working.Wf

theorem Session.newIds_fresh (w : World) (s : Session) : (s.newIds w).Fresh s.working :=
  ⟨w.newId_fresh _, w.newId_fresh _⟩

theorem Session.Wf.apply {s : Session} (hs : s.Wf) {c : Change} (hc : (c.apply s.working).Wf) :
    (s.apply c).Wf := by
  cases c with
  | commit => exact ⟨hs.working, hs.working⟩
  | rollback => exact ⟨hs.committed, hs.committed⟩
  | _ => exact ⟨hs.committed, hc⟩

theorem Session.Wf.exec {s : Session} (hs : s.Wf) (w : World) (c : Call) : (s.exec w c).2.Wf :=
  hs.apply (hs.working.answer (s.newIds_fresh w) c)

/-- No program can break the constraints. -/
theorem run_wf {α : Type} (p : Py α) (world : CallHistory → World) (h : CallHistory) {s : Session} (hs : s.Wf) :
    (p.run (handler world) h s).2.2.Wf := by
  induction p generalizing h s with
  | ret a => exact hs
  | raise e => exact hs
  | call c k ih => exact ih _ _ (hs.exec _ _)

theorem serve_wf (settings : VkSettings) {T : Tables} (hT : T.Wf) (v : Visit) : (serve settings T v).2.2.Wf :=
  (run_wf _ _ _ ⟨hT, hT⟩).committed

/-- No call of the history ended in an IntegrityError or the domain error that stands for it. -/
def NoIntegrityError (h : CallHistory) : Prop :=
  ∀ e ∈ h, ∀ x, e.reply = .error x → x ≠ .integrityError ∧ ∀ m, x ≠ .alreadyExists m

@[simp] theorem noIntegrityError_nil : NoIntegrityError [] := by simp [NoIntegrityError]

@[simp] theorem noIntegrityError_cons (e : CallEvent) (h : CallHistory) :
    NoIntegrityError (e :: h) ↔
      (∀ x, e.reply = .error x → x ≠ .integrityError ∧ ∀ m, x ≠ .alreadyExists m) ∧ NoIntegrityError h :=
  List.forall_mem_cons

section Calls
variable (world : CallHistory → World) (h : CallHistory) {C T : Tables}

@[simp] theorem handler_now (s : Session) : handler world h .now s = (.ok (world h).now, s) := rfl

@[simp] theorem handler_choices (n : Nat) (s : Session) :
    handler world h (.choices n) s = (.ok fun i => (world h).draws i, s) := rfl

@[simp] theorem handler_sendMessage (peerId : PeerId) (text : String) (s : Session) :
    handler world h (.sendMessage peerId text) s = (.ok ((world h).accepts peerId), s) := rfl

@[simp] theorem handler_getProfile (peerId : PeerId) (s : Session) :
    handler world h (.getProfile peerId) s = (.ok (world h).profile, s) := rfl

@[simp] theorem handler_logAction (action : LogAction) (status : LogStatus) (details : Details) :
    handler world h (.logAction action status details) ⟨C, T⟩ =
      (.ok ⟨action, status, details, (world h).dbNow⟩,
        ⟨C, { T with vkLogs := T.vkLogs ++ [⟨action, status, details, (world h).dbNow⟩] }⟩) := rfl

@[simp] theorem handler_countFailedSince (action : LogAction) (vkPeerId : PeerId) (since : Time)
    (failed : List LogStatus) :
    handler world h (.countFailedSince action vkPeerId since failed) ⟨C, T⟩ =
      (.ok (VkLogRepository.countFailedSince T action vkPeerId since failed), ⟨C, T⟩) := rfl

@[simp] theorem handler_markUsed (confirmationId : UUID) :
    handler world h (.confirmationMarkUsed confirmationId) ⟨C, T⟩ = (.ok (),
      ⟨C, { T with vkConfirmations :=
        T.vkConfirmations.map fun c => if c.id == confirmationId then used (world h) c else c }⟩) := rfl

@[simp] theorem handler_invalidatePrevious (userVkId : UUID) :
    handler world h (.confirmationInvalidatePrevious userVkId) ⟨C, T⟩ =
      (.ok (T.vkConfirmations.countP (unusedOf userVkId)),
        ⟨C, { T with vkConfirmations :=
          T.vkConfirmations.map fun c => if unusedOf userVkId c then used (world h) c else c }⟩) := rfl

@[simp] theorem handler_softDelete (userId : UUID) :
    handler world h (.userVkSoftDelete userId) ⟨C, T⟩ = (.ok (T.userVks.any (liveOfUser userId)),
      ⟨C, { T with userVks := T.userVks.map fun r => if liveOfUser userId r then deleted (world h) r else r }⟩) :=
  rfl

@[simp] theorem handler_getByUserIds (userIds : List UUID) (state : Option BindingState) :
    handler world h (.userVkGetByUserIds userIds state) ⟨C, T⟩ = (.ok (getByUserIds T userIds state), ⟨C, T⟩) := rfl

@[simp] theorem handler_commit : handler world h .commit ⟨C, T⟩ = (.ok (), Session.start T) := rfl

@[simp] theorem handler_rollback : handler world h .rollback ⟨C, T⟩ = (.ok (), Session.start C) := rfl

@[simp] theorem handler_close : handler world h .close ⟨C, T⟩ = (.ok (), Session.start C) := rfl

section Wf
variable (hT : T.Wf)
include hT

theorem handler_getByCode (code : Str) :
    handler world h (.confirmationGetByCode code) ⟨C, T⟩ = (.ok (codeRow T code), ⟨C, T⟩) :=
  congrArg (·, Session.mk C T) (hT.getByCode_eq code)

theorem handler_getById (recordId : UUID) :
    handler world h (.userVkGetById recordId) ⟨C, T⟩ = (.ok (bindingRow T recordId), ⟨C, T⟩) :=
  congrArg (·, Session.mk C T) (hT.getById_eq recordId)

theorem handler_getByUserId (userId : UUID) :
    handler world h (.userVkGetByUserId userId) ⟨C, T⟩ = (.ok (userRow T userId), ⟨C, T⟩) :=
  congrArg (·, Session.mk C T) (hT.getByUserId_eq userId)

theorem handler_getByPeerId (vkPeerId : PeerId) :
    handler world h (.userVkGetByPeerId vkPeerId) ⟨C, T⟩ = (.ok (peerRow T vkPeerId), ⟨C, T⟩) :=
  congrArg (·, Session.mk C T) (hT.getByPeerId_eq vkPeerId)

/-- No other row is in the way when the peer is free or held by the row itself. -/
theorem handler_activate {r : UserVk} (hr : r ∈ T.userVks) (hlive : r.live = true) (vkPeerId : PeerId)
    (hpeer : ∀ q, peerRow T vkPeerId = some q → q.id = r.id) (screenName displayName : Option String) :
    handler world h (.userVkActivate r.id vkPeerId screenName displayName) ⟨C, T⟩ =
      (.ok (activated (world h) vkPeerId screenName displayName r),
        ⟨C, { T with userVks := T.userVks.map fun r' =>
          if liveWithId r.id r' then activated (world h) vkPeerId screenName displayName r' else r' }⟩) := by
  have hact : UserVkRepository.activate (world h) T r.id vkPeerId screenName displayName =
      (.ok (activated (world h) vkPeerId screenName displayName r),
        .updateUserVk (liveWithId r.id) (activated (world h) vkPeerId screenName displayName)) := by
    simp [UserVkRepository.activate, hT.one_liveWithId, hT.find?_liveWithId hr hlive, hT.not_occupied hr hlive hpeer]
  simp only [handler, Session.exec, answer, hact]
  rfl

theorem handler_setState (recordId : UUID) (state : BindingState) : ∃ reply,
    handler world h (.userVkSetState recordId state) ⟨C, T⟩ = (.ok reply,
      ⟨C, { T with userVks := T.userVks.map fun r =>
        if liveWithId recordId r then withState (world h) state r else r }⟩) := by
  have hone : oneOrNone ((T.userVks.filter (liveWithId recordId)).map (withState (world h) state)) =
      .ok ((T.userVks.find? (liveWithId recordId)).map (withState (world h) state)) := by
    rw [filter_of_unique (hT.pairwise_liveWithId recordId)]
    cases T.userVks.find? (liveWithId recordId) <;> rfl
  exact ⟨_, congrArg (·, _) hone⟩

end Wf

/-- A new row collides with nothing when its user has no live row. -/
theorem pendingRow_free {T : Tables} {userId : UUID} (hnone : userRow T userId = none) (w : World) (id : UUID) :
    T.userVks.any (pendingRow w id userId).clashes = false := by
  rw [List.any_eq_false]
  intro r hr hbad
  simp only [UserVk.clashes, pendingRow, Option.isSome_none, Bool.false_and, Bool.or_false, Bool.and_eq_true,
    beq_iff_eq] at hbad
  exact userRow_none hnone r hr hbad.1.2 hbad.2.symm

/-- A user without a live row gets one. -/
theorem handler_create {userId : UUID} (hnone : userRow T userId = none) : ∃ id ∉ T.userVks.map (·.id),
    handler world h (.userVkCreate userId) ⟨C, T⟩ = (.ok (pendingRow (world h) id userId),
      ⟨C, { T with userVks := T.userVks ++ [pendingRow (world h) id userId] }⟩) := by
  let id := ((Session.mk C T).newIds (world h)).userVk
  have hfree := pendingRow_free hnone (world h) id
  have hcreate : UserVkRepository.create (world h) ((Session.mk C T).newIds (world h)) T userId =
      (.ok (pendingRow (world h) id userId), .insertUserVk (pendingRow (world h) id userId)) := by
    simp [UserVkRepository.create, id, hfree]
  refine ⟨id, ((Session.mk C T).newIds_fresh (world h)).userVk, ?_⟩
  simp only [handler, Session.exec, answer, hcreate]
  rfl

theorem handler_confirmationCreate {code : Str} (hcode : codeRow T code = none) {userVkId : UUID} {r : UserVk}
    (hr : r ∈ T.userVks) (hid : r.id = userVkId) (expiresAt : Time) : ∃ id ∉ T.vkConfirmations.map (·.id),
    handler world h (.confirmationCreate userVkId code expiresAt) ⟨C, T⟩ =
      (.ok ⟨id, userVkId, code, expiresAt, (world h).now, none⟩,
        ⟨C, { T with vkConfirmations :=
          T.vkConfirmations ++ [⟨id, userVkId, code, expiresAt, (world h).now, none⟩] }⟩) := by
  let ids := (Session.mk C T).newIds (world h)
  have hfree : (T.vkConfirmations.any (·.code == code) || !T.userVks.any (·.id == userVkId)) = false := by
    have hrow : T.userVks.any (·.id == userVkId) = true := List.any_eq_true.mpr ⟨r, hr, by simp [hid]⟩
    rw [hrow, Bool.not_true, Bool.or_false, List.any_eq_false]
    intro c hc
    simpa using codeRow_none hcode c hc
  have hcreate : VkConfirmationRepository.create (world h) ids T userVkId code expiresAt =
      (.ok ⟨ids.vkConfirmation, userVkId, code, expiresAt, (world h).now, none⟩,
        .insertVkConfirmation ⟨ids.vkConfirmation, userVkId, code, expiresAt, (world h).now, none⟩) := by
    simp [VkConfirmationRepository.create, hfree]
  refine ⟨ids.vkConfirmation, ((Session.mk C T).newIds_fresh (world h)).vkConfirmation, ?_⟩
  simp only [handler, Session.exec, answer, ids, hcreate]
  rfl

end Calls
end VkService
