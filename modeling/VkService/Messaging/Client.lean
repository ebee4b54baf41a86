import Mathlib.Algebra.Order.Field.Rat
import VkService.Effects.Weakest
import VkService.Text.PythonStr

/-! The NATS client and the life of its consumer: connecting and closing, registering the
durable consumer with a bounded retry, starting and stopping the task. -/
namespace VkService
open PyStr Effects Effects.Prog

/-- The identity of a connection object. -/
abbrev Conn := Nat

/-- The identity of a task of the event loop. -/
abbrev TaskId := Nat

/-- The settings that the client and the start of the consumer read. -/
structure NatsClientSettings where
  natsServers : List Str
  natsStreamNotificationCommands : Str
  natsConsumerNotificationCommandsSendVk : Str
  natsSubjectNotificationCommandsSendVk : Str
  natsConsumerAckWaitSeconds : Nat
  natsConsumerMaxDeliver : Nat
  natsSetupMaxAttempts : Nat
  natsSetupBackoffSeconds : Rat
  ackWait_ge : 1 ≤ natsConsumerAckWaitSeconds
  maxDeliver_ge : 1 ≤ natsConsumerMaxDeliver
  maxAttempts_ge : 1 ≤ natsSetupMaxAttempts
  backoff_ge : 0 ≤ natsSetupBackoffSeconds

/-- The attributes `_connection` and `_jetstream` of the client, `_subscription` and `_task` of
the consumer. A JetStream context and a subscription are known by the connection they belong to. -/
structure Attributes where
  connection : Option Conn
  jetstream : Option Conn
  subscription : Option Conn
  task : Option TaskId
  deriving DecidableEq

def Attributes.unset : Attributes := ⟨none, none, none, none⟩

inductive DeliverPolicy where
  | all | last | new | lastPerSubject | byStartSequence | byStartTime
  deriving DecidableEq

inductive AckPolicy where
  | none | all | explicit
  deriving DecidableEq

structure ConsumerConfig where
  durableName : Str
  filterSubject : Str
  deliverPolicy : DeliverPolicy
  ackPolicy : AckPolicy
  ackWait : Nat
  maxDeliver : Nat
  deriving DecidableEq

inductive ClientCall where
  | attributes
  | assign (a : Attributes)
  | resetPolicy
  | newConnection
  | isConnected (c : Conn)
  | isClosed (c : Conn)
  | connect (c : Conn) (servers : List Str)
  | drain (c : Conn)
  | closeConnection (c : Conn)
  | addConsumer (js : Conn) (stream : Str) (config : ConsumerConfig)
  | pullSubscribe (js : Conn) (subject durable stream : Str)
  | publish (js : Conn) (subject : Str) (payload : List UInt8) (headers : Option (List (String × String)))
  | sleep (seconds : Rat)
  | createTask
  | taskDone (t : TaskId)
  | cancelTask (t : TaskId)
  | joinTask (t : TaskId)
  | startMetrics
  | closeMetrics
  | serve
  | disposeDatabase
  deriving DecidableEq

abbrev ClientCall.Reply : ClientCall → Type
  | .attributes => Attributes
  | .newConnection => Conn
  | .createTask => TaskId
  | .isConnected _ | .isClosed _ | .taskDone _ | .startMetrics => Bool
  | _ => Unit

/-- What a call can raise, by the classes that the code tells apart. `TimeoutError` is an
`OSError`, and the one of the NATS library is both it and an error of that library. -/
inductive ClientExn where
  | osError (n : Nat)
  | timeoutError
  | natsTimeoutError
  | natsError (n : Nat)
  | notFoundError
  | runtimeError (message : String)
  | other (n : Nat)
  | cancelled
  deriving DecidableEq

namespace ClientExn

/-- Caught by `except (ConnectionRefusedError, OSError)`. -/
def isOSError : ClientExn → Bool
  | .osError _ | .timeoutError | .natsTimeoutError => true
  | _ => false

/-- Caught by `except (TimeoutError, nats.errors.Error)`. -/
def failsDrain : ClientExn → Bool
  | .timeoutError | .natsTimeoutError | .natsError _ | .notFoundError => true
  | _ => false

end ClientExn

abbrev ClientPy (α : Type) := Prog ClientCall ClientCall.Reply ClientExn α
abbrev clientAwait (c : ClientCall) : ClientPy c.Reply := perform c
abbrev ClientHistory := History ClientCall ClientCall.Reply ClientExn

/-- Assignments to the attributes. -/
def updateAttributes (f : Attributes → Attributes) : ClientPy Unit := do
  let a ← clientAwait .attributes
  clientAwait (.assign (f a))

namespace NatsJetstreamClient

def notConnectedMessage : String := "NATS JetStream client is not connected"

def isConnected : ClientPy Bool := do
  match (← clientAwait .attributes).connection with
  | none => pure false
  | some c => clientAwait (.isConnected c)

/-- `_get_jetstream`, which the property `jetstream` returns. -/
def getJetstream : ClientPy Conn := do
  match (← clientAwait .attributes).jetstream with
  | none => throw (.runtimeError notConnectedMessage)
  | some js => if ← isConnected then pure js else throw (.runtimeError notConnectedMessage)

def connect (settings : NatsClientSettings) : ClientPy Unit := do
  if ← isConnected then pure ()
  else do
    let c ← clientAwait .newConnection
    updateAttributes fun a => { a with connection := some c }
    clientAwait .resetPolicy
    clientAwait (.connect c settings.natsServers)
    updateAttributes fun a => { a with jetstream := some c }

/-- The part of `close` in `try`. -/
def drainOrClose (c : Conn) : ClientPy Unit := do
  if ← clientAwait (.isClosed c) then pure ()
  else
    tryCatch (clientAwait (.drain c)) fun e =>
      if e.failsDrain then clientAwait (.closeConnection c) else throw e

def close : ClientPy Unit := do
  match (← clientAwait .attributes).connection with
  | none => pure ()
  | some c => do
    let r ← attempt (drainOrClose c)
    updateAttributes fun a => { a with connection := none, jetstream := none }
    ofExcept r

def addNotificationCommandsSendVkConsumer (settings : NatsClientSettings) : ClientPy Unit := do
  let js ← getJetstream
  clientAwait (.addConsumer js settings.natsStreamNotificationCommands {
    durableName := settings.natsConsumerNotificationCommandsSendVk
    filterSubject := settings.natsSubjectNotificationCommandsSendVk
    deliverPolicy := .all
    ackPolicy := .explicit
    ackWait := settings.natsConsumerAckWaitSeconds
    maxDeliver := settings.natsConsumerMaxDeliver })

/-- The wait before the next attempt. -/
def waitTime (settings : NatsClientSettings) (attempt : Nat) : Rat :=
  if 0 < settings.natsSetupBackoffSeconds then settings.natsSetupBackoffSeconds * attempt else 0

/-- One round of the loop in `setup_consumers`: whether the consumer is registered. -/
def setupAttempt (settings : NatsClientSettings) (attempt : Nat) : ClientPy Bool :=
  tryCatch (do addNotificationCommandsSendVkConsumer settings; pure true) fun e =>
    if e = .notFoundError then
      if settings.natsSetupMaxAttempts ≤ attempt then throw e
      else do
        if waitTime settings attempt ≠ 0 then clientAwait (.sleep (waitTime settings attempt)) else pure ()
        pure false
    else throw e

/-- The attempts that are left, from number `attempt` on. -/
def setupFrom (settings : NatsClientSettings) : (left attempt : Nat) → ClientPy Unit
  | 0, _ => pure ()
  | left + 1, attempt => do
    if ← setupAttempt settings attempt then pure () else setupFrom settings left (attempt + 1)

def setupConsumers (settings : NatsClientSettings) : ClientPy Unit :=
  setupFrom settings settings.natsSetupMaxAttempts 1

/-- `setup_streams` does nothing. -/
def setup (settings : NatsClientSettings) : ClientPy Unit := do
  if ← isConnected then setupConsumers settings
  else throw (.runtimeError "NATS client must be connected before setup")

def publish (subject : Str) (payload : List UInt8) (headers : Option (List (String × String))) : ClientPy Unit := do
  let js ← getJetstream
  clientAwait (.publish js subject payload headers)

end NatsJetstreamClient

namespace NotificationCommandsSendVkConsumer
open NatsJetstreamClient

def isRunning : ClientPy Bool := do
  match (← clientAwait .attributes).task with
  | none => pure false
  | some t => do
    let done ← clientAwait (.taskDone t)
    pure !done

def start (settings : NatsClientSettings) : ClientPy Unit := do
  if ← isRunning then pure ()
  else do
    let js ← getJetstream
    clientAwait (.pullSubscribe js settings.natsSubjectNotificationCommandsSendVk
      settings.natsConsumerNotificationCommandsSendVk settings.natsStreamNotificationCommands)
    updateAttributes fun a => { a with subscription := some js }
    let t ← clientAwait .createTask
    updateAttributes fun a => { a with task := some t }

def stop : ClientPy Unit := do
  match (← clientAwait .attributes).task with
  | none => pure ()
  | some t => do
    clientAwait (.cancelTask t)
    let r ← attempt (tryCatch (clientAwait (.joinTask t)) fun e => if e = .cancelled then pure () else throw e)
    updateAttributes fun a => { a with task := none, subscription := none }
    ofExcept r

end NotificationCommandsSendVkConsumer

/-- The attributes after the calls of a history. -/
def attributesAfter : ClientHistory → Attributes
  | [] => .unset
  | ⟨.assign a, _⟩ :: _ => a
  | _ :: h => attributesAfter h

/-- Connection objects and tasks made so far. -/
def made (h : ClientHistory) : Nat :=
  h.countP fun e => match e.op with
    | .newConnection | .createTask => true
    | _ => false

/-- Calls that only look at the client's own objects. -/
def ClientCall.looks : ClientCall → Bool
  | .resetPolicy | .isConnected _ | .isClosed _ | .taskDone _ | .cancelTask _ => true
  | _ => false

/-- Everything the broker, the event loop and the application may do. Looking at an object
raises nothing, `asyncio.sleep` nothing but its cancellation, and a connection object that
has not been connected never reports that it is. -/
structure NatsEnvironment where
  reply : ClientHistory → (c : ClientCall) → Except ClientExn c.Reply
  looks_ok : ∀ h c e, c.looks = true → reply h c ≠ .error e
  sleep_error : ∀ h seconds e, reply h (.sleep seconds) = .error e → e = .cancelled
  connected : ∀ h c, reply h (.isConnected c) = .ok true → ∃ servers, ⟨.connect c servers, .ok ()⟩ ∈ h

/-- The attributes are kept, and new objects are new; the rest is the environment's. -/
def clientExec (env : NatsEnvironment) (h : ClientHistory) (c : ClientCall) (s : Unit) :
    Except ClientExn c.Reply × Unit :=
  match c with
  | .attributes => (.ok (attributesAfter h), s)
  | .assign _ => (.ok (), s)
  | .newConnection | .createTask => (.ok (made h), s)
  | c => (env.reply h c, s)

end VkService
