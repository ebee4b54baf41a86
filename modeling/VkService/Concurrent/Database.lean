import VkService.Effects.Interleaving
import VkService.Storage.RowStore
import VkService.Domain.Handlers

/-! PostgreSQL under READ COMMITTED with one repository call as one step. A statement waits
while a row it selects, or a key it writes, is locked by another open transaction. -/
namespace VkService
open PyStr Effects RowStore

/-- A running request with its own session. -/
abbrev Tid := Nat

structure Store where
  userVks : Heap Tid UserVk
  vkConfirmations : Heap Tid VkConfirmation
  vkLogs : Heap Tid VkLog
  vkNotificationDeliveries : Heap Tid VkNotificationDelivery
  /-- the advisory locks held, with their holders -/
  advisory : List (Tid × Int × Int)

namespace Store

/-- The rows transaction `t` sees. -/
def view (t : Tid) (s : Store) : Tables where
  userVks := RowStore.view t s.userVks
  vkConfirmations := RowStore.view t s.vkConfirmations
  vkLogs := RowStore.view t s.vkLogs
  vkNotificationDeliveries := RowStore.view t s.vkNotificationDeliveries

/-- The committed rows. -/
def committed (s : Store) : Tables where
  userVks := snapshot s.userVks
  vkConfirmations := snapshot s.vkConfirmations
  vkLogs := snapshot s.vkLogs
  vkNotificationDeliveries := snapshot s.vkNotificationDeliveries

/-- A store between transactions. -/
def ofTables (T : Tables) : Store where
  userVks := ofRows T.userVks
  vkConfirmations := ofRows T.vkConfirmations
  vkLogs := ofRows T.vkLogs
  vkNotificationDeliveries := ofRows T.vkNotificationDeliveries
  advisory := []

def newIds (w : World) (s : Store) : NewIds where
  userVk := w.newId ((versions s.userVks).map (·.id))
  vkConfirmation := w.newId ((versions s.vkConfirmations).map (·.id))

def commit (t : Tid) (s : Store) : Store where
  userVks := RowStore.commit t s.userVks
  vkConfirmations := RowStore.commit t s.vkConfirmations
  vkLogs := RowStore.commit t s.vkLogs
  vkNotificationDeliveries := RowStore.commit t s.vkNotificationDeliveries
  advisory := s.advisory.filter (·.1 ≠ t)

def rollback (t : Tid) (s : Store) : Store where
  userVks := RowStore.rollback t s.userVks
  vkConfirmations := RowStore.rollback t s.vkConfirmations
  vkLogs := RowStore.rollback t s.vkLogs
  vkNotificationDeliveries := RowStore.rollback t s.vkNotificationDeliveries
  advisory := s.advisory.filter (·.1 ≠ t)

def apply (t : Tid) (s : Store) : Change → Store
  | .nothing => s
  | .insertUserVk row => { s with userVks := insert t row s.userVks }
  | .updateUserVk p f => { s with userVks := update t p f s.userVks }
  | .insertVkConfirmation row => { s with vkConfirmations := insert t row s.vkConfirmations }
  | .updateVkConfirmation p f => { s with vkConfirmations := update t p f s.vkConfirmations }
  | .insertVkLog row => { s with vkLogs := insert t row s.vkLogs }
  | .insertDelivery row => { s with vkNotificationDeliveries := insert t row s.vkNotificationDeliveries }
  | .updateDelivery p f => { s with vkNotificationDeliveries := update t p f s.vkNotificationDeliveries }
  | .commit => s.commit t
  | .rollback => s.rollback t

end Store

/-- The arguments of `pg_advisory_xact_lock`, for the `hashtext` of the server. -/
def lockKey (hashtext : String → Int) (eventUuid userId : UUID) : Int × Int :=
  (hashtext (toString eventUuid), hashtext (toString userId))

/-- Whether a call can go through now, or has to wait for another transaction. -/
def ready (hashtext : String → Int) (t : Tid) (w : World) (s : Store) : Call → Bool
  | .userVkCreate userId =>
      keyReady t (UserVkRepository.pendingRow w (s.newIds w).userVk userId).clashes s.userVks
  | .userVkActivate recordId vkPeerId screenName displayName =>
      rowsReady t (UserVkRepository.liveWithId recordId) s.userVks &&
        ((s.view t).userVks.filter (UserVkRepository.liveWithId recordId)).all fun r =>
          keyReady t (fun r' => r'.id != r.id &&
            (UserVkRepository.activated w vkPeerId screenName displayName r).clashes r') s.userVks
  | .userVkSetState recordId _ => rowsReady t (UserVkRepository.liveWithId recordId) s.userVks
  | .userVkSoftDelete userId => rowsReady t (UserVkRepository.liveOfUser userId) s.userVks
  | .confirmationCreate _ code _ => keyReady t (·.code == code) s.vkConfirmations
  | .confirmationMarkUsed confirmationId => rowsReady t (·.id == confirmationId) s.vkConfirmations
  | .confirmationInvalidatePrevious userVkId =>
      rowsReady t (VkConfirmationRepository.unusedOf userVkId) s.vkConfirmations
  | .claimAttempt eventUuid userId _ =>
      (s.advisory.all fun held => held.1 = t || held.2 ≠ lockKey hashtext eventUuid userId) &&
        keyReady t (VkNotificationDeliveryRepository.keyed eventUuid userId) s.vkNotificationDeliveries
  | .markSent eventUuid userId | .markFailed eventUuid userId _ =>
      rowsReady t (VkNotificationDeliveryRepository.keyed eventUuid userId) s.vkNotificationDeliveries
  | _ => true

/-- The advisory lock that `claim_attempt` leaves with its transaction. -/
def acquire (hashtext : String → Int) (t : Tid) (s : Store) : Call → Store
  | .claimAttempt eventUuid userId _ =>
      { s with advisory := (t, lockKey hashtext eventUuid userId) :: s.advisory }
  | _ => s

def execCall (hashtext : String → Int) (t : Tid) (w : World) (c : Call) (s : Store) :
    Option (Except Exn c.Reply × Store) :=
  if ready hashtext t w s c then
    let out := answer w (s.newIds w) (s.view t) c
    some (out.1, acquire hashtext t (s.apply t out.2) c)
  else none

/-- The database as a machine: killing a session rolls its transaction back. -/
def database (hashtext : String → Int) : Machine Call Call.Reply Exn Tid World Store where
  exec := execCall hashtext
  kill := Store.rollback

abbrev Run := Sys Call Call.Reply Exn Answer Tid Store

/-- Requests started together over a store. -/
def launch (settings : VkSettings) (pool : Tid → Request) (s : Store) : Run :=
  Sys.start (fun t => (pool t).prog settings) s

@[simp] theorem history_launch (settings : VkSettings) (pool : Tid → Request) (s : Store) (t : Tid) :
    (launch settings pool s).history t = [] := rfl

/-- States reached by moves that all meet `cond`. -/
abbrev Reaches (hashtext : String → Int) (cond : Move Tid World → Run → Prop) : Run → Run → Prop :=
  (database hashtext).Reach cond

/-- Any interleaving, any abort. -/
def anyMove : Move Tid World → Run → Prop := fun _ _ => True

namespace Store

@[simp] theorem committed_ofTables (T : Tables) : (ofTables T).committed = T := by
  simp [committed, ofTables]

@[simp] theorem committed_rollback (t : Tid) (s : Store) : (s.rollback t).committed = s.committed := by
  simp [committed, rollback]

@[simp] theorem view_rollback_self (t : Tid) (s : Store) : (s.rollback t).view t = s.committed := by
  simp [committed, rollback, view]

end Store

/-- Everything one step of the database can do. -/
theorem execCall_cases {hashtext : String → Int} {t : Tid} {w : World} {c : Call} {s s' : Store}
    {r : Except Exn c.Reply} (h : (database hashtext).exec t w c s = some (r, s')) :
    ready hashtext t w s c = true ∧ r = (answer w (s.newIds w) (s.view t) c).1 ∧
      s' = acquire hashtext t (s.apply t (answer w (s.newIds w) (s.view t) c).2) c := by
  simp only [database, execCall] at h
  split at h
  · rename_i hr
    simp only [Option.some.injEq, Prod.mk.injEq] at h
    exact ⟨hr, h.1.symm, h.2.symm⟩
  · cases h

end VkService
