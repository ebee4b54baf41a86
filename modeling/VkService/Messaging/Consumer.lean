import VkService.Domain.Handlers
import VkService.Effects.Weakest

/-! The consumer of notification commands: fetch a batch, process its messages one by one,
settle each. The loop runs for as long as nothing escapes from it. -/
namespace VkService
open Effects Effects.Prog

/-- A message of the stream. -/
structure Msg where
  data : List UInt8
  headers : Option (List (String × String))
  deriving DecidableEq

structure NatsSettings where
  natsConsumerFetchBatchSize : Nat
  natsConsumerFetchTimeoutSeconds : Rat
  batchSize_ge : 1 ≤ natsConsumerFetchBatchSize
  timeout_gt : 0 < natsConsumerFetchTimeoutSeconds

def NatsSettings.standard : NatsSettings where
  natsConsumerFetchBatchSize := 10
  natsConsumerFetchTimeoutSeconds := 5
  batchSize_ge := by decide
  timeout_gt := by decide

/-- What the consumer waits for. -/
inductive NatsCall where
  | fetch (batch : Nat) (timeout : Rat)
  | sleep (seconds : Nat)
  | handle (payload : List UInt8) (headers : List (String × String))
  | ack (message : Msg)
  | nak (message : Msg)

abbrev NatsCall.Reply : NatsCall → Type
  | .fetch .. => List Msg
  | _ => Unit

/-- What a call of the consumer can raise: the timeouts of an idle fetch, and everything else. -/
inductive NatsExn where
  | timeoutError
  | natsTimeoutError
  | runtimeError (message : String)
  | raised (e : Exn)
  deriving DecidableEq

/-- Caught by `except Exception`. -/
def NatsExn.isException : NatsExn → Bool
  | .raised e => e.isException
  | _ => true

abbrev NatsPy (α : Type) := Prog NatsCall NatsCall.Reply NatsExn α
abbrev natsAwait (c : NatsCall) : NatsPy c.Reply := perform c

abbrev NatsHistory := History NatsCall NatsCall.Reply NatsExn

/-- `_process_message`. Neither the ACK nor the NAK is guarded. -/
def processMessage (message : Msg) : NatsPy Unit := do
  let headers := message.headers.getD []
  let returned ← tryCatch (do natsAwait (.handle message.data headers); pure true) fun e =>
    if e.isException then do natsAwait (.nak message); pure false else throw e
  if returned then natsAwait (.ack message) else pure ()

def processMessages : List Msg → NatsPy Unit
  | [] => pure ()
  | message :: messages => do
    processMessage message
    processMessages messages

/-- The fetch of `_consume`; `none` is its `continue`. -/
def fetchMessages (settings : NatsSettings) : NatsPy (Option (List Msg)) :=
  tryCatch (do
    let messages ← natsAwait
      (.fetch settings.natsConsumerFetchBatchSize settings.natsConsumerFetchTimeoutSeconds)
    pure (some messages)) fun
    | .timeoutError | .natsTimeoutError => pure none
    | .raised .cancelled => throw (.raised .cancelled)
    | _ => do
      natsAwait (.sleep 1)
      pure none

/-- The first `rounds` rounds of the `while True` in `_consume`. -/
def consumeRounds (settings : NatsSettings) : (rounds : Nat) → NatsPy Unit
  | 0 => pure ()
  | rounds + 1 => do
    match ← fetchMessages settings with
    | none => consumeRounds settings rounds
    | some messages => do
      processMessages messages
      consumeRounds settings rounds

/-- `_consume`, for some rounds. -/
def consume (settings : NatsSettings) (subscribed : Bool) (rounds : Nat) : NatsPy Unit :=
  if subscribed then consumeRounds settings rounds
  else throw (.runtimeError "VK notification consumer has no subscription")

/-- Everything the broker and the handler may do. `asyncio.sleep` raises nothing but its
cancellation. -/
structure Broker where
  reply : NatsHistory → (c : NatsCall) → Except NatsExn c.Reply
  sleep_error : ∀ h seconds e, reply h (.sleep seconds) = .error e → e = .raised .cancelled

/-- How `_consume` stands after some rounds, and the calls it has made. -/
def consumed (settings : NatsSettings) (broker : Broker) (rounds : Nat) : Except NatsExn Unit × NatsHistory :=
  let out := (consume settings true rounds).run (fun h c (_ : Unit) => (broker.reply h c, ())) [] ()
  (out.1, out.2.1)

section Projections

/-- The messages of all fetched batches, in order. -/
def fetched (h : NatsHistory) : List Msg :=
  h.reverse.flatMap fun
    | ⟨.fetch _ _, .ok messages⟩ => messages
    | _ => []

/-- What was given to the handler, in order, with the way each call of it ended. -/
def handled (h : NatsHistory) : List ((List UInt8 × List (String × String)) × Except NatsExn Unit) :=
  h.reverse.filterMap fun
    | ⟨.handle payload headers, r⟩ => some ((payload, headers), r)
    | _ => none

/-- The attempts to settle a message, in order. -/
def settled (h : NatsHistory) : List (Msg × Settlement) :=
  h.reverse.filterMap fun
    | ⟨.ack message, _⟩ => some (message, .ack)
    | ⟨.nak message, _⟩ => some (message, .nak)
    | _ => none

/-- What the handler is given of a message. -/
def Msg.handedOver (message : Msg) : List UInt8 × List (String × String) :=
  (message.data, message.headers.getD [])

/-- ACK if the handler returned, NAK if it raised. -/
def settlementOf : Except NatsExn Unit → Settlement
  | .ok () => .ack
  | .error _ => .nak

/-- No call was cancelled. -/
def Uncancelled (h : NatsHistory) : Prop := ∀ e ∈ h, e.reply ≠ .error (.raised .cancelled)

def NatsCall.settles : NatsCall → Bool
  | .ack _ | .nak _ => true
  | _ => false

/-- Every ACK and every NAK that was attempted has returned. -/
def SettledQuietly (h : NatsHistory) : Prop := ∀ e ∈ h, e.op.settles = true → ∃ a, e.reply = .ok a

end Projections

/-- The loop is still running, every fetched message went to the handler once and in order,
and was then settled once as its handling asks. -/
def Survives (settings : NatsSettings) (broker : Broker) (rounds : Nat) : Prop :=
  let (r, h) := consumed settings broker rounds
  r = .ok () ∧ (handled h).map Prod.fst = (fetched h).map Msg.handedOver ∧
    settled h = List.zipWith (fun message call => (message, settlementOf call.2)) (fetched h) (handled h)

section Rounds
variable {settings : NatsSettings} {h : NatsHistory}

theorem fetched_cons (e : Event NatsCall NatsCall.Reply NatsExn) : fetched (e :: h) = fetched h ++ fetched [e] := by
  simp [fetched]

theorem handled_cons (e : Event NatsCall NatsCall.Reply NatsExn) : handled (e :: h) = handled h ++ handled [e] := by
  simp [handled]

theorem settled_cons (e : Event NatsCall NatsCall.Reply NatsExn) : settled (e :: h) = settled h ++ settled [e] := by
  simp [settled]

/-- All fetched messages but the given ones have been handled and settled. -/
def Remaining (messages : List Msg) (h : NatsHistory) : Prop :=
  ∃ done, fetched h = done ++ messages ∧ (handled h).map Prod.fst = done.map Msg.handedOver ∧
    settled h = List.zipWith (fun message call => (message, settlementOf call.2)) done (handled h)

/-- A sleep was ended by nothing but its cancellation. -/
def SleepsThrough (h : NatsHistory) : Prop :=
  ∀ e ∈ h, ∀ seconds, e.op = .sleep seconds → ∀ x, e.reply = .error x → x = .raised .cancelled

def Uninterrupted (h : NatsHistory) : Prop := Uncancelled h ∧ SleepsThrough h

/-- A program of the consumer returns with these messages remaining, unless it is cancelled
or a settlement fails. -/
def LeavesMessages {α : Type} (messages : α → List Msg) (h : NatsHistory) (r : Except NatsExn α) : Prop :=
  (Uninterrupted h → SettledQuietly h → ∃ a, r = .ok a ∧ Remaining (messages a) h) ∧
    ∀ a, r = .ok a → SettledQuietly h ∧ Remaining (messages a) h

theorem LeavesMessages.error {α β : Type} {messages : α → List Msg} {messages' : β → List Msg} {e : NatsExn}
    (hend : LeavesMessages messages h (.error e)) : LeavesMessages messages' h (.error e) := by
  refine ⟨fun hun hquiet => ?_, fun a ha => by cases ha⟩
  obtain ⟨a, ha, -⟩ := hend.1 hun hquiet
  cases ha

/-- A message is given to the handler and settled as the handler ended. -/
theorem Remaining.settle {message : Msg} {messages : List Msg} (hrest : Remaining (message :: messages) h)
    {r : Except NatsExn Unit} {settle : Event NatsCall NatsCall.Reply NatsExn}
    (hsettle : settled [settle] = [(message, settlementOf r)] ∧ fetched [settle] = [] ∧ handled [settle] = []) :
    Remaining messages (settle :: ⟨.handle message.data (message.headers.getD []), r⟩ :: h) := by
  obtain ⟨done, hfetched, hhandled, hsettled⟩ := hrest
  obtain ⟨hsettle, hnofetch, hnohandle⟩ := hsettle
  have hlen : done.length = (handled h).length := by
    rw [← List.length_map (f := Msg.handedOver), ← hhandled, List.length_map]
  have hcall : handled [⟨.handle message.data (message.headers.getD []), r⟩] =
      [((message.data, message.headers.getD []), r)] := rfl
  have hother : fetched [⟨.handle message.data (message.headers.getD []), r⟩] = [] := rfl
  have hnone : settled [⟨.handle message.data (message.headers.getD []), r⟩] = [] := rfl
  refine ⟨done ++ [message], ?_, ?_, ?_⟩
  · rw [fetched_cons, fetched_cons, hnofetch, hother, hfetched]
    simp
  · rw [handled_cons, handled_cons, hnohandle, hcall, List.append_nil, List.map_append, hhandled, List.map_append]
    rfl
  · rw [settled_cons, settled_cons, hsettle, hnone, List.append_nil, handled_cons, handled_cons, hnohandle, hcall,
      List.append_nil, hsettled, List.zipWith_append hlen]
    rfl

theorem settledQuietly_cons {e : Event NatsCall NatsCall.Reply NatsExn} :
    SettledQuietly (e :: h) ↔ (e.op.settles = true → ∃ a, e.reply = .ok a) ∧ SettledQuietly h :=
  List.forall_mem_cons

/-- A settlement that fails ends the round. -/
private theorem leavesMessages_error {α : Type} {messages : α → List Msg} {e x : NatsExn} {c : NatsCall}
    (hc : c.settles = true) : LeavesMessages messages (⟨c, .error x⟩ :: h) (.error e) := by
  refine ⟨fun _ hquiet => ?_, fun a ha => by cases ha⟩
  obtain ⟨a, ha⟩ := (settledQuietly_cons.mp hquiet).1 hc
  cases ha

/-- What is not an `Exception` is a cancellation. -/
private theorem leavesMessages_cancelled {α : Type} {messages : α → List Msg} {e : NatsExn} {c : NatsCall}
    (he : e.isException = false) : LeavesMessages messages (⟨c, .error e⟩ :: h) (.error e) := by
  refine ⟨fun hun _ => ?_, fun a ha => by cases ha⟩
  have hcancelled : e = .raised .cancelled := by
    cases e with
    | raised x =>
      cases x with
      | cancelled => rfl
      | _ => cases he
    | _ => cases he
  exact absurd (congrArg Except.error hcancelled) (hun.1 _ List.mem_cons_self)

theorem processMessage_conforms {message : Msg} {messages : List Msg} (hquiet : SettledQuietly h)
    (hrest : Remaining (message :: messages) h) :
    Conforms (fun _ _ => True) (LeavesMessages fun _ => messages) h (processMessage message) := by
  -- the settlement that follows the handler, whichever it is
  have hsettle : ∀ (r : Except NatsExn Unit) (c : NatsCall) (u : c.Reply), c.settles = true →
      settled [⟨c, .ok u⟩] = [(message, settlementOf r)] → fetched [⟨c, .ok u⟩] = [] → handled [⟨c, .ok u⟩] = [] →
      LeavesMessages (fun _ : Unit => messages)
        (⟨c, .ok u⟩ :: ⟨.handle message.data (message.headers.getD []), r⟩ :: h) (.ok ()) := by
    intro r c u hc hsettled hfetched hhandled
    have hrest' := hrest.settle ⟨hsettled, hfetched, hhandled⟩
    have hquiet' : SettledQuietly (⟨c, .ok u⟩ :: ⟨.handle message.data (message.headers.getD []), r⟩ :: h) :=
      settledQuietly_cons.mpr ⟨fun _ => ⟨u, rfl⟩, settledQuietly_cons.mpr ⟨nofun, hquiet⟩⟩
    exact ⟨fun _ _ => ⟨(), rfl, hrest'⟩, fun _ _ => ⟨hquiet', hrest'⟩⟩
  refine ⟨trivial, fun reply => ?_⟩
  cases reply with
  | ok u =>
    refine ⟨trivial, fun reply => ?_⟩
    cases reply with
    | ok u' => exact hsettle _ _ u' rfl rfl rfl rfl
    | error e => exact leavesMessages_error rfl
  | error e =>
    change Conforms _ _ _ ((if e.isException = true then do natsAwait (.nak message); pure false else throw e) >>=
      fun returned => if returned = true then natsAwait (.ack message) else pure ())
    split
    · refine ⟨trivial, fun reply => ?_⟩
      cases reply with
      | ok u' => exact hsettle _ _ u' rfl rfl rfl rfl
      | error e' => exact leavesMessages_error rfl
    · rename_i he
      exact leavesMessages_cancelled (by simpa using he)

theorem processMessages_conforms (messages : List Msg) (hquiet : SettledQuietly h) (hrest : Remaining messages h) :
    Conforms (fun _ _ => True) (LeavesMessages fun _ => []) h (processMessages messages) := by
  induction messages generalizing h with
  | nil => exact ⟨fun _ _ => ⟨(), rfl, hrest⟩, fun _ _ => ⟨hquiet, hrest⟩⟩
  | cons message messages ih =>
    refine .bind _ _ _ (processMessage_conforms hquiet hrest) (fun h _ hend => ?_) fun h e hend => ?_
    · obtain ⟨hquiet, hrest⟩ := hend.2 () rfl
      exact ih hquiet hrest
    · exact hend.error

/-- A call that is no settlement and no work on a message. -/
theorem Remaining.idle {c : NatsCall} {r : Except NatsExn c.Reply} (hrest : Remaining [] h)
    (hfetch : fetched [⟨c, r⟩] = []) (hhandle : handled [⟨c, r⟩] = []) (hsettle : settled [⟨c, r⟩] = []) :
    Remaining [] (⟨c, r⟩ :: h) := by
  obtain ⟨done, hfetched, hhandled, hsettled⟩ := hrest
  exact ⟨done, by rw [fetched_cons, hfetch, hfetched, List.append_nil],
    by rw [handled_cons, hhandle, List.append_nil, hhandled],
    by rw [settled_cons, handled_cons, hhandle, hsettle, List.append_nil, List.append_nil, hsettled]⟩

theorem fetchMessages_conforms (settings : NatsSettings) (hquiet : SettledQuietly h) (hrest : Remaining [] h) :
    Conforms (fun _ _ => True) (LeavesMessages fun found => found.getD []) h (fetchMessages settings) := by
  refine ⟨trivial, fun reply => ?_⟩
  have hquiet' : SettledQuietly (⟨.fetch settings.natsConsumerFetchBatchSize
      settings.natsConsumerFetchTimeoutSeconds, reply⟩ :: h) := settledQuietly_cons.mpr ⟨nofun, hquiet⟩
  cases reply with
  | ok messages =>
    obtain ⟨done, hfetched, hhandled, hsettled⟩ := hrest
    have hrest' : Remaining messages (⟨.fetch settings.natsConsumerFetchBatchSize
        settings.natsConsumerFetchTimeoutSeconds, .ok messages⟩ :: h) := by
      refine ⟨done, ?_, ?_, ?_⟩
      · rw [fetched_cons, hfetched]
        simp [fetched]
      · rw [handled_cons, ← hhandled]
        simp [handled]
      · rw [settled_cons, handled_cons, hsettled]
        simp [settled, handled]
    exact ⟨fun _ _ => ⟨some messages, rfl, hrest'⟩, fun found hfound => by cases hfound; exact ⟨hquiet', hrest'⟩⟩
  | error e =>
    have hidle := hrest.idle (c := .fetch settings.natsConsumerFetchBatchSize settings.natsConsumerFetchTimeoutSeconds)
      (r := .error e) rfl rfl rfl
    have hsleep : Conforms (fun _ _ => True) (LeavesMessages fun found => found.getD [])
        (⟨.fetch settings.natsConsumerFetchBatchSize settings.natsConsumerFetchTimeoutSeconds, .error e⟩ :: h)
        (do natsAwait (.sleep 1); pure (none : Option (List Msg))) := by
      refine ⟨trivial, fun reply => ?_⟩
      cases reply with
      | ok u =>
        have hrest' := hidle.idle (c := .sleep 1) (r := .ok u) rfl rfl rfl
        have hquiet'' := settledQuietly_cons (e := ⟨.sleep 1, .ok u⟩).mpr ⟨fun _ => ⟨u, rfl⟩, hquiet'⟩
        exact ⟨fun _ _ => ⟨none, rfl, hrest'⟩, fun found hfound => by cases hfound; exact ⟨hquiet'', hrest'⟩⟩
      | error x =>
        refine ⟨fun hun _ => ?_, fun a ha => by cases ha⟩
        have hcancelled := hun.2 _ List.mem_cons_self 1 rfl x rfl
        exact absurd (congrArg Except.error hcancelled) (hun.1 _ List.mem_cons_self)
    cases e with
    | timeoutError | natsTimeoutError =>
      exact ⟨fun _ _ => ⟨none, rfl, hidle⟩, fun found hfound => by cases hfound; exact ⟨hquiet', hidle⟩⟩
    | raised x =>
      cases x with
      | cancelled => exact leavesMessages_cancelled rfl
      | _ => exact hsleep
    | runtimeError message => exact hsleep

/-- A round that goes on leaves nothing behind, whether it has fetched messages or not. -/
theorem consumeRounds_conforms (settings : NatsSettings) (rounds : Nat) (hquiet : SettledQuietly h)
    (hrest : Remaining [] h) :
    Conforms (fun _ _ => True) (LeavesMessages fun _ => []) h (consumeRounds settings rounds) := by
  induction rounds generalizing h with
  | zero => exact ⟨fun _ _ => ⟨(), rfl, hrest⟩, fun _ _ => ⟨hquiet, hrest⟩⟩
  | succ rounds ih =>
    refine .bind _ _ _ (fetchMessages_conforms settings hquiet hrest) (fun h found hend => ?_) fun h e hend => ?_
    · obtain ⟨hquiet, hrest⟩ := hend.2 found rfl
      cases found with
      | none => exact ih hquiet hrest
      | some messages =>
        refine .bind _ _ _ (processMessages_conforms messages hquiet hrest) (fun h _ hend => ?_) fun h e hend => ?_
        · obtain ⟨hquiet, hrest⟩ := hend.2 () rfl
          exact ih hquiet hrest
        · exact hend.error
    · exact hend.error

/-- What the rounds come to. -/
theorem consumed_leaves (settings : NatsSettings) (broker : Broker) (rounds : Nat) :
    LeavesMessages (fun _ => []) (consumed settings broker rounds).2 (consumed settings broker rounds).1 :=
  wp_of_conforms (consumeRounds_conforms settings rounds (h := []) (by simp [SettledQuietly]) ⟨[], rfl, rfl, rfl⟩)

theorem consumed_uninterrupted (settings : NatsSettings) (broker : Broker) (rounds : Nat)
    (hun : Uncancelled (consumed settings broker rounds).2) : Uninterrupted (consumed settings broker rounds).2 := by
  have hsleeps : wp (fun h c (_ : Unit) => (broker.reply h c, ())) (consumeRounds settings rounds)
      (fun _ h _ => SleepsThrough h) [] () := by
    refine wp_invariant (fun h c _ _ hI => List.forall_mem_cons.mpr ⟨?_, hI⟩)
      (consumeRounds_conforms settings rounds (h := []) (by simp [SettledQuietly]) ⟨[], rfl, rfl, rfl⟩)
      (by simp [SleepsThrough])
    rintro seconds rfl x hx
    exact broker.sleep_error h seconds x hx
  exact ⟨hun, hsleeps⟩

end Rounds

/-- The loop survives everything but cancellation exactly when no ACK and no NAK raises. -/
theorem consumer_survives_iff (settings : NatsSettings) (broker : Broker) :
    (∀ rounds, Uncancelled (consumed settings broker rounds).2 → Survives settings broker rounds) ↔
      ∀ rounds, Uncancelled (consumed settings broker rounds).2 →
      SettledQuietly (consumed settings broker rounds).2 := by
  refine forall_congr' fun rounds => imp_congr_right fun hun => ?_
  obtain ⟨hsurvives, hquiet⟩ := consumed_leaves settings broker rounds
  constructor
  · intro hok
    exact (hquiet () hok.1).1
  · intro hsettled
    obtain ⟨u, hr, done, hfetched, hhandled, hsettle⟩ :=
      hsurvives (consumed_uninterrupted settings broker rounds hun) hsettled
    rw [List.append_nil] at hfetched
    subst hfetched
    exact ⟨hr, hhandled, hsettle⟩

/-- A connection on which every message can be fetched and none can be settled. -/
def halfClosed : Broker where
  reply _
    | .fetch .. => .ok [⟨[], none⟩]
    | .ack _ | .nak _ => .error (.raised (.foreign 0))
    | .sleep _ | .handle .. => .ok ()
  sleep_error := nofun

/-- One ACK that raises ends the loop. -/
theorem failed_ack_ends_consumer : ¬ ∀ settings broker rounds, Uncancelled (consumed settings broker rounds).2 →
    Survives settings broker rounds := by
  intro hclaim
  have huncancelled : Uncancelled (consumed .standard halfClosed 1).2 := by
    have hcalls : (consumed .standard halfClosed 1).2 = [⟨.ack ⟨[], none⟩, .error (.raised (.foreign 0))⟩,
        ⟨.handle [] [], .ok ()⟩, ⟨.fetch 10 5, .ok [⟨[], none⟩]⟩] := rfl
    simp [Uncancelled, hcalls]
  have hresult : (consumed .standard halfClosed 1).1 = .error (.raised (.foreign 0)) := rfl
  have hok : (consumed .standard halfClosed 1).1 = .ok () := (hclaim .standard halfClosed 1 huncancelled).1
  rw [hresult] at hok
  cases hok

end VkService
