import VkService.Text.PythonStr

/-! The rows of the four tables, the domain errors and the settings of the service. -/
namespace VkService
open PyStr

/-- Row identifiers and user identifiers; only their equality and their text matter. -/
abbrev UUID := Nat

/-- Microseconds since the epoch, the resolution of `datetime` and `timestamptz`. -/
abbrev Time := Int

/-- Any integer; `Domain.Columns` says which ones a `BigInteger` column takes. -/
abbrev PeerId := Int

/-- `timedelta(minutes=n)`. -/
def minutes (n : Nat) : Time := n * 60000000

/-- `ALLOWED_STATES`. -/
inductive BindingState where
  | pending | active | blocked
  deriving DecidableEq, Repr

def BindingState.text : BindingState → String
  | .pending => "PENDING"
  | .active => "ACTIVE"
  | .blocked => "BLOCKED"

/-- A row of `user_vks`. -/
structure UserVk where
  id : UUID
  userId : UUID
  vkPeerId : Option PeerId
  state : BindingState
  vkScreenName : Option String
  vkDisplayName : Option String
  deletedAt : Option Time
  createdAt : Time
  updatedAt : Time
  deriving DecidableEq, Repr

namespace UserVk

/-- `deleted_at IS NULL`. -/
def live (r : UserVk) : Bool := r.deletedAt.isNone

/-- Two rows that the partial unique indexes on `user_id` and `vk_peer_id` exclude. -/
def clashes (a b : UserVk) : Bool :=
  a.live && b.live && (a.userId == b.userId || (a.vkPeerId.isSome && a.vkPeerId == b.vkPeerId))

theorem clashes_comm (a b : UserVk) : a.clashes b = b.clashes a := by
  have hu : (a.userId == b.userId) = (b.userId == a.userId) := Bool.beq_comm
  have hp : (a.vkPeerId.isSome && a.vkPeerId == b.vkPeerId) = (b.vkPeerId.isSome && b.vkPeerId == a.vkPeerId) := by
    cases a.vkPeerId <;> cases b.vkPeerId <;> simp [Bool.beq_comm]
  rw [clashes, clashes, Bool.and_comm a.live, hu, hp]

end UserVk

/-- A row of `vk_confirmations`. -/
structure VkConfirmation where
  id : UUID
  userVkId : UUID
  code : Str
  expiresAt : Time
  createdAt : Time
  usedAt : Option Time
  deriving DecidableEq, Repr

inductive LogAction where
  | confirmation | issue | unlink | deny | allow | message
  deriving DecidableEq, Repr

inductive LogStatus where
  | success | notFound | used | expired | error | peerConflict | rateLimited | alreadyConfirmed
  | conflictActive | conflictBlocked | noop | noBinding | ignoredChat | unknownCommand | missingCode
  deriving DecidableEq, Repr

/-- The JSON object in `vk_logs.details`. -/
abbrev Details := List (String × String)

/-- A row of `vk_logs`. -/
structure VkLog where
  action : LogAction
  status : LogStatus
  details : Details
  createdAt : Time
  deriving DecidableEq, Repr

inductive DeliveryStatus where
  | pending | sent | failed
  deriving DecidableEq, Repr

/-- A row of `vk_notification_deliveries`. -/
structure VkNotificationDelivery where
  eventUuid : UUID
  userId : UUID
  vkPeerId : PeerId
  status : DeliveryStatus
  attempts : Nat
  lastError : Option String
  updatedAt : Time
  sentAt : Option Time
  deriving DecidableEq, Repr

structure Tables where
  userVks : List UserVk
  vkConfirmations : List VkConfirmation
  vkLogs : List VkLog
  vkNotificationDeliveries : List VkNotificationDelivery

def Tables.empty : Tables := ⟨[], [], [], []⟩

/-- What a call can raise. `foreign` stands for any other `Exception` of a driver or
client; `cancelled` is `asyncio.CancelledError`, which is not an `Exception`. -/
inductive Exn where
  | notFound (message : String)
  | conflict (message : String)
  | gone (message : String)
  | rateLimited (message : String)
  | alreadyExists (message : String)
  | valueError (message : String)
  | integrityError
  | noResultFound
  | multipleResultsFound
  | deliveryRetryable
  | foreign (n : Nat)
  | cancelled
  deriving DecidableEq, Repr

/-- Caught by `except Exception`. -/
def Exn.isException : Exn → Bool
  | .cancelled => false
  | _ => true

/-- Public attributes of a VK user. -/
structure VkUserProfile where
  screenName : Option String
  displayName : Option String
  deriving DecidableEq, Repr

/-- The validated settings the domain reads. -/
structure VkSettings where
  vkBotLinkCommand : Str
  vkConfirmationTtlMinutes : Nat
  vkConfirmationCodeLength : Nat
  vkConfirmationMaxAttempts : Nat
  vkConfirmationAttemptWindowMinutes : Nat
  ttl_ge : 1 ≤ vkConfirmationTtlMinutes
  codeLength_ge : 4 ≤ vkConfirmationCodeLength
  codeLength_le : vkConfirmationCodeLength ≤ 16
  maxAttempts_ge : 1 ≤ vkConfirmationMaxAttempts
  window_ge : 1 ≤ vkConfirmationAttemptWindowMinutes

/-- The least values that pass the validation. -/
def VkSettings.least : VkSettings where
  vkBotLinkCommand := "/link".toList
  vkConfirmationTtlMinutes := 1
  vkConfirmationCodeLength := 4
  vkConfirmationMaxAttempts := 1
  vkConfirmationAttemptWindowMinutes := 1
  ttl_ge := by decide
  codeLength_ge := by decide
  codeLength_le := by decide
  maxAttempts_ge := by decide
  window_ge := by decide

/-- The validated command of a notification. `NotificationCommandSendVkData` removes
duplicate user ids and rejects an empty list. -/
structure NotificationCommandSendVkData where
  eventUuid : UUID
  userIds : List UUID
  text : String
  userIds_nonempty : userIds ≠ []
  userIds_nodup : userIds.Nodup

end VkService
