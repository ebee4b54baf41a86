import VkService.Domain.Records

/-! The repository methods. Each reads the rows its transaction sees and says what it
returns and which single change it asks of the database. -/
namespace VkService
open PyStr

/-- What the surroundings answer at one step: the two clocks, fresh randomness, and VK. -/
structure World where
  /-- `datetime.now(UTC)` -/
  now : Time
  /-- PostgreSQL's `now()`, the start of the transaction -/
  dbNow : Time
  /-- the wish of `gen_random_uuid()` and `uuid4()` -/
  seed : UUID
  /-- `secrets.choice` over 32 letters -/
  draws : Nat → Fin 32
  /-- whether `messages.send` goes through for a peer -/
  accepts : PeerId → Bool
  profile : Option VkUserProfile

/-- Both clocks agree, nothing is drawn but zeros, and VK accepts every message. -/
def World.still (t : Time) : World where
  now := t
  dbNow := t
  seed := 0
  draws _ := 0
  accepts _ := true
  profile := none

/-- As `still`, but one letter is drawn throughout. -/
def World.drawing (letter : Fin 32) (t : Time) : World := { World.still t with draws := fun _ => letter }

/-- The second letter of the alphabet. -/
def World.second : Fin 32 := 1

/-- A generated identifier is arbitrary among those not in use. -/
def World.newId (w : World) (inUse : List UUID) : UUID :=
  if w.seed ∈ inUse then inUse.foldr max 0 + 1 else w.seed

private theorem le_foldr_max {l : List Nat} {n : Nat} (h : n ∈ l) : n ≤ l.foldr max 0 := by
  induction l with
  | nil => simp at h
  | cons m l ih =>
    rcases List.mem_cons.mp h with rfl | h
    · exact Nat.le_max_left _ _
    · exact Nat.le_trans (ih h) (Nat.le_max_right _ _)

theorem World.newId_fresh (w : World) (inUse : List UUID) : w.newId inUse ∉ inUse := by
  unfold World.newId
  split
  · intro h
    have := le_foldr_max h
    omega
  · assumption

/-- The identifiers the database would hand out at this step. -/
structure NewIds where
  userVk : UUID
  vkConfirmation : UUID

inductive Change where
  | nothing
  | insertUserVk (row : UserVk)
  | updateUserVk (p : UserVk → Bool) (f : UserVk → UserVk)
  | insertVkConfirmation (row : VkConfirmation)
  | updateVkConfirmation (p : VkConfirmation → Bool) (f : VkConfirmation → VkConfirmation)
  | insertVkLog (row : VkLog)
  | insertDelivery (row : VkNotificationDelivery)
  | updateDelivery (p : VkNotificationDelivery → Bool) (f : VkNotificationDelivery → VkNotificationDelivery)
  | commit
  | rollback

/-- `one_or_none()`. -/
def oneOrNone {ρ : Type} : List ρ → Except Exn (Option ρ)
  | [] => .ok none
  | [r] => .ok (some r)
  | _ => .error .multipleResultsFound

/-- `one()`. -/
def one {ρ : Type} : List ρ → Except Exn ρ
  | [] => .error .noResultFound
  | [r] => .ok r
  | _ => .error .multipleResultsFound

namespace UserVkRepository

def pendingRow (w : World) (id userId : UUID) : UserVk where
  id := id
  userId := userId
  vkPeerId := none
  state := .pending
  vkScreenName := none
  vkDisplayName := none
  deletedAt := none
  createdAt := w.now
  updatedAt := w.now

/-- An IntegrityError rolls the session back before it is turned into the domain error. -/
def create (w : World) (ids : NewIds) (T : Tables) (userId : UUID) : Except Exn UserVk × Change :=
  let row := pendingRow w ids.userVk userId
  if T.userVks.any row.clashes then
    (.error (.alreadyExists s!"VK binding already exists for user_id={userId}"), .rollback)
  else (.ok row, .insertUserVk row)

def getById (T : Tables) (recordId : UUID) : Except Exn (Option UserVk) :=
  oneOrNone (T.userVks.filter fun r => r.id == recordId)

def getByUserId (T : Tables) (userId : UUID) : Except Exn (Option UserVk) :=
  oneOrNone (T.userVks.filter fun r => r.userId == userId && r.live)

def getByUserIds (T : Tables) (userIds : List UUID) (state : Option BindingState) : List UserVk :=
  T.userVks.filter fun r => userIds.contains r.userId && r.live && state.all (r.state == ·)

def getByPeerId (T : Tables) (vkPeerId : PeerId) : Except Exn (Option UserVk) :=
  oneOrNone (T.userVks.filter fun r => r.vkPeerId == some vkPeerId && r.live)

/-- The WHERE clause of `activate` and `set_state`. -/
def liveWithId (recordId : UUID) (r : UserVk) : Bool := r.id == recordId && r.live

def activated (w : World) (vkPeerId : PeerId) (screenName displayName : Option String) (r : UserVk) : UserVk :=
  { r with vkPeerId := some vkPeerId, state := .active, vkScreenName := screenName,
           vkDisplayName := displayName, updatedAt := w.now }

/-- The indexed columns collide with another live row. -/
def occupied (rows : List UserVk) (row : UserVk) : Bool :=
  rows.any fun r => r.id != row.id && row.clashes r

/-- Over any values; `Domain.Columns` says which of them the columns refuse. -/
def activate (w : World) (T : Tables) (recordId : UUID) (vkPeerId : PeerId)
    (screenName displayName : Option String) : Except Exn UserVk × Change :=
  let f := activated w vkPeerId screenName displayName
  match one (T.userVks.filter (liveWithId recordId)) with
  | .error e => (.error e, .nothing)
  | .ok r =>
    if occupied T.userVks (f r) then
      (.error (.alreadyExists s!"VK account already linked: vk_peer_id={vkPeerId}"), .rollback)
    else (.ok (f r), .updateUserVk (liveWithId recordId) f)

def withState (w : World) (state : BindingState) (r : UserVk) : UserVk :=
  { r with state := state, updatedAt := w.now }

def setState (w : World) (T : Tables) (recordId : UUID) (state : BindingState) :
    Except Exn (Option UserVk) × Change :=
  (oneOrNone ((T.userVks.filter (liveWithId recordId)).map (withState w state)),
    .updateUserVk (liveWithId recordId) (withState w state))

/-- The WHERE clause of `soft_delete`. -/
def liveOfUser (userId : UUID) (r : UserVk) : Bool := r.userId == userId && r.live

def deleted (w : World) (r : UserVk) : UserVk :=
  { r with deletedAt := some w.now, updatedAt := w.now }

def softDelete (w : World) (T : Tables) (userId : UUID) : Except Exn Bool × Change :=
  (.ok (T.userVks.any (liveOfUser userId)), .updateUserVk (liveOfUser userId) (deleted w))

end UserVkRepository

namespace VkConfirmationRepository

/-- The unique index on `code` and the foreign key are not caught here. -/
def create (w : World) (ids : NewIds) (T : Tables) (userVkId : UUID) (code : Str) (expiresAt : Time) :
    Except Exn VkConfirmation × Change :=
  if T.vkConfirmations.any (·.code == code) || !T.userVks.any (·.id == userVkId) then
    (.error .integrityError, .nothing)
  else
    let row : VkConfirmation := ⟨ids.vkConfirmation, userVkId, code, expiresAt, w.now, none⟩
    (.ok row, .insertVkConfirmation row)

def getByCode (T : Tables) (code : Str) : Except Exn (Option VkConfirmation) :=
  oneOrNone (T.vkConfirmations.filter (·.code == code))

def used (w : World) (c : VkConfirmation) : VkConfirmation := { c with usedAt := some w.now }

def markUsed (w : World) (confirmationId : UUID) : Except Exn Unit × Change :=
  (.ok (), .updateVkConfirmation (·.id == confirmationId) (used w))

/-- The WHERE clause of `invalidate_previous`. -/
def unusedOf (userVkId : UUID) (c : VkConfirmation) : Bool := c.userVkId == userVkId && c.usedAt.isNone

def invalidatePrevious (w : World) (T : Tables) (userVkId : UUID) : Except Exn Nat × Change :=
  (.ok (T.vkConfirmations.countP (unusedOf userVkId)), .updateVkConfirmation (unusedOf userVkId) (used w))

end VkConfirmationRepository

namespace VkLogRepository

def logAction (w : World) (action : LogAction) (status : LogStatus) (details : Details) :
    Except Exn VkLog × Change :=
  let row : VkLog := ⟨action, status, details, w.dbNow⟩
  (.ok row, .insertVkLog row)

/-- The WHERE clause of `count_failed_since`. -/
def failedSince (action : LogAction) (vkPeerId : PeerId) (since : Time) (failedStatuses : List LogStatus)
    (l : VkLog) : Bool :=
  l.action == action && failedStatuses.contains l.status && since ≤ l.createdAt &&
    l.details.lookup "vk_peer_id" == some (toString vkPeerId)

def countFailedSince (T : Tables) (action : LogAction) (vkPeerId : PeerId) (since : Time)
    (failedStatuses : List LogStatus) : Nat :=
  T.vkLogs.countP (failedSince action vkPeerId since failedStatuses)

end VkLogRepository

namespace VkNotificationDeliveryRepository

def keyed (eventUuid userId : UUID) (d : VkNotificationDelivery) : Bool :=
  d.eventUuid == eventUuid && d.userId == userId

def reclaimed (w : World) (vkPeerId : PeerId) (d : VkNotificationDelivery) : VkNotificationDelivery :=
  { d with vkPeerId := vkPeerId, status := .pending, attempts := d.attempts + 1, lastError := none,
           updatedAt := w.now }

/-- The SELECT and the upsert, both under the advisory lock. -/
def claimAttempt (w : World) (T : Tables) (eventUuid userId : UUID) (vkPeerId : PeerId) :
    Except Exn (Option VkNotificationDelivery) × Change :=
  match oneOrNone (T.vkNotificationDeliveries.filter (keyed eventUuid userId)) with
  | .error e => (.error e, .nothing)
  | .ok none =>
    let row : VkNotificationDelivery := ⟨eventUuid, userId, vkPeerId, .pending, 1, none, w.now, none⟩
    (.ok (some row), .insertDelivery row)
  | .ok (some d) =>
    if d.status = .sent then (.ok none, .nothing)
    else (.ok (some (reclaimed w vkPeerId d)), .updateDelivery (keyed eventUuid userId) (reclaimed w vkPeerId))

def sent (w : World) (d : VkNotificationDelivery) : VkNotificationDelivery :=
  { d with status := .sent, lastError := none, sentAt := some w.now, updatedAt := w.now }

def failed (w : World) (category : String) (d : VkNotificationDelivery) : VkNotificationDelivery :=
  { d with status := .failed, lastError := some (String.ofList (category.toList.take 64)), updatedAt := w.now }

/-- `mark_sent` and `mark_failed`: an UPDATE by key that must hit one row. -/
def mark (f : VkNotificationDelivery → VkNotificationDelivery) (T : Tables) (eventUuid userId : UUID) :
    Except Exn VkNotificationDelivery × Change :=
  (one ((T.vkNotificationDeliveries.filter (keyed eventUuid userId)).map f), .updateDelivery (keyed eventUuid userId) f)

def markSent (w : World) (T : Tables) (eventUuid userId : UUID) : Except Exn VkNotificationDelivery × Change :=
  mark (sent w) T eventUuid userId

def markFailed (w : World) (T : Tables) (eventUuid userId : UUID) (errorCategory : String) :
    Except Exn VkNotificationDelivery × Change :=
  mark (failed w errorCategory) T eventUuid userId

end VkNotificationDeliveryRepository
end VkService
