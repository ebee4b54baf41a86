import Mathlib.Data.List.Range
import VkService.Messaging.Client

/-! Registering the durable consumer. The owner of the stream may not have created it yet, so
the registration is tried again a bounded number of times, after waits that grow. -/
namespace VkService
open PyStr Effects Effects.Prog NatsJetstreamClient

section Environment
variable {env : NatsEnvironment} {h : ClientHistory}

variable {s : Unit}

@[simp] theorem clientExec_attributes : clientExec env h .attributes s = (.ok (attributesAfter h), s) := rfl
@[simp] theorem clientExec_assign (a : Attributes) : clientExec env h (.assign a) s = (.ok (), s) := rfl
@[simp] theorem clientExec_newConnection : clientExec env h .newConnection s = (.ok (made h), s) := rfl
@[simp] theorem clientExec_createTask : clientExec env h .createTask s = (.ok (made h), s) := rfl

/-- Assignments read the attributes and write them back. -/
theorem wp_updateAttributes {f : Attributes → Attributes} {Φ : Except ClientExn Unit → ClientHistory → Unit → Prop} :
    wp (clientExec env) (updateAttributes f) Φ h s ↔
      Φ (.ok ()) (⟨.assign (f (attributesAfter h)), .ok ()⟩ :: ⟨.attributes, .ok (attributesAfter h)⟩ :: h) s := Iff.rfl

/-- A call that only looks returns. -/
theorem clientExec_looks (env : NatsEnvironment) (h : ClientHistory) {c : ClientCall} (hc : c.looks = true) :
    ∃ a, clientExec env h c () = (.ok a, ()) := by
  have hreply : clientExec env h c () = (env.reply h c, ()) := by
    cases c <;> first | rfl | cases hc
  rw [hreply]
  cases hr : env.reply h c with
  | ok a => exact ⟨a, rfl⟩
  | error e => exact absurd hr (env.looks_ok h c e hc)

end Environment

/-- The connection was made: its `connect` returned. -/
def Connected (h : ClientHistory) (c : Conn) : Prop := ∃ servers, ⟨.connect c servers, .ok ()⟩ ∈ h

/-- Calls that leave no trace in the attributes. -/
def ClientCall.peeks : ClientCall → Bool
  | .attributes | .isConnected _ => true
  | _ => false

/-- Some peeking has been done since. -/
def Peeked (h h' : ClientHistory) : Prop := ∃ new, h' = new ++ h ∧ ∀ e ∈ new, e.op.peeks = true

namespace Peeked
variable {h h' h'' : ClientHistory}

theorem refl : Peeked h h := ⟨[], rfl, fun _ he => nomatch he⟩

theorem cons (hh : Peeked h h') {c : ClientCall} (hc : c.peeks = true) (r : Except ClientExn c.Reply) :
    Peeked h (⟨c, r⟩ :: h') := by
  obtain ⟨new, rfl, hnew⟩ := hh
  exact ⟨⟨c, r⟩ :: new, rfl, List.forall_mem_cons.mpr ⟨hc, hnew⟩⟩

theorem mem (hh : Peeked h h') {e : Event ClientCall ClientCall.Reply ClientExn} (he : e ∈ h) : e ∈ h' := by
  obtain ⟨new, rfl, -⟩ := hh
  exact List.mem_append_right _ he

/-- What is read off the other calls is as before. -/
theorem same {β : Type} {f : ClientHistory → β}
    (hf : ∀ (h : ClientHistory) (c : ClientCall) (r : Except ClientExn c.Reply), c.peeks = true → f (⟨c, r⟩ :: h) = f h)
    (hh : Peeked h h') : f h' = f h := by
  obtain ⟨new, rfl, hnew⟩ := hh
  induction new with
  | nil => rfl
  | cons e new ih =>
    obtain ⟨he, hnew⟩ := List.forall_mem_cons.mp hnew
    exact (hf _ e.op e.reply he).trans (ih hnew)

theorem attributesAfter_eq (hh : Peeked h h') : attributesAfter h' = attributesAfter h := by
  refine hh.same fun h c r hc => ?_
  cases c <;> first | rfl | cases hc

end Peeked

section Looking
variable {env : NatsEnvironment} {h : ClientHistory}

/-- `is_connected` is right about the connections that were never made. -/
theorem isConnected_spec : wp (clientExec env) isConnected (fun r h' _ => Peeked h h' ∧ ∃ b, r = .ok b ∧
    (b = true → ∃ c, (attributesAfter h).connection = some c ∧ Connected h c ∧
      ∃ past, h' = ⟨.isConnected c, .ok true⟩ :: past)) h () := by
  simp only [isConnected, clientAwait, wp_bind, wp_perform, clientExec_attributes, andThen_ok]
  cases hc : (attributesAfter h).connection with
  | none => exact ⟨.cons .refl rfl _, false, rfl, fun hb => absurd hb (by decide)⟩
  | some c =>
    obtain ⟨b, hb⟩ := clientExec_looks env (⟨.attributes, .ok (attributesAfter h)⟩ :: h)
      (c := .isConnected c) rfl
    simp only [wp_perform, hb]
    refine ⟨.cons (.cons .refl rfl _) rfl _, b, rfl, fun hb' => ?_⟩
    subst hb'
    obtain ⟨servers, hs⟩ := env.connected _ c (congrArg Prod.fst hb)
    refine ⟨c, rfl, ⟨servers, ?_⟩, _, rfl⟩
    rcases List.mem_cons.mp hs with heq | hs
    · cases heq
    · exact hs

/-- The JetStream context is given out right after its client was seen connected. -/
theorem getJetstream_spec : wp (clientExec env) getJetstream (fun r h' _ => Peeked h h' ∧ match r with
    | .ok js => (attributesAfter h).jetstream = some js ∧ ∃ c, (attributesAfter h).connection = some c ∧
        Connected h c ∧ ∃ past, h' = ⟨.isConnected c, .ok true⟩ :: past
    | .error e => e = .runtimeError notConnectedMessage) h () := by
  simp only [getJetstream, clientAwait, wp_bind, wp_perform, clientExec_attributes, andThen_ok]
  cases hj : (attributesAfter h).jetstream with
  | none => exact ⟨.cons .refl rfl _, rfl⟩
  | some js =>
    simp only [wp_bind]
    refine wp_mono isConnected_spec fun r h' _ hr => ?_
    obtain ⟨hpeek, b, rfl, hb⟩ := hr
    have hpeek : Peeked h h' := by
      obtain ⟨new, rfl, hnew⟩ := hpeek
      refine ⟨new ++ [⟨.attributes, .ok (attributesAfter h)⟩], by simp, fun e he => ?_⟩
      rcases List.mem_append.mp he with he | he
      · exact hnew e he
      · rw [List.mem_singleton.mp he]
        rfl
    cases b with
    | false => exact ⟨hpeek, rfl⟩
    | true =>
      obtain ⟨c, hc, ⟨servers, hs⟩, past, rfl⟩ := hb rfl
      refine ⟨hpeek, rfl, c, hc, ⟨servers, ?_⟩, past, rfl⟩
      rcases List.mem_cons.mp hs with heq | hs
      · cases heq
      · exact hs

end Looking

/-- The durable consumer that the service registers. -/
def requested (settings : NatsClientSettings) : Str × ConsumerConfig :=
  (settings.natsStreamNotificationCommands, {
    durableName := settings.natsConsumerNotificationCommandsSendVk
    filterSubject := settings.natsSubjectNotificationCommandsSendVk
    deliverPolicy := .all
    ackPolicy := .explicit
    ackWait := settings.natsConsumerAckWaitSeconds
    maxDeliver := settings.natsConsumerMaxDeliver })

/-- The registrations asked for, in order, with the answers to them. -/
def registrations (h : ClientHistory) : List ((Str × ConsumerConfig) × Except ClientExn Unit) :=
  h.reverse.filterMap fun
    | ⟨.addConsumer _ stream config, r⟩ => some ((stream, config), r)
    | _ => none

/-- The waits, in order. -/
def waits (h : ClientHistory) : List Rat :=
  h.reverse.filterMap fun
    | ⟨.sleep seconds, _⟩ => some seconds
    | _ => none

/-- How the retry can end with `n` answers "not found" and `limit` attempts: `last` is the
answer to the attempt after them, if there was one. -/
inductive RetryEnd (limit n : Nat) : (last : List (Except ClientExn Unit)) → Except ClientExn Unit → Prop
  | registered (hn : n < limit) : RetryEnd limit n [.ok ()] (.ok ())
  | refused {e : ClientExn} (hn : n < limit) (he : e ≠ .notFoundError) : RetryEnd limit n [.error e] (.error e)
  | disconnected (hn : n < limit) : RetryEnd limit n [] (.error (.runtimeError notConnectedMessage))
  | cancelled (hn : n < limit) (hpos : 0 < n) : RetryEnd limit n [] (.error .cancelled)
  | exhausted (hn : n = limit) : RetryEnd limit n [] (.error .notFoundError)

/-- `n` answers "not found", then the last. -/
def answered (n : Nat) (last : List (Except ClientExn Unit)) : List (Except ClientExn Unit) :=
  List.replicate n (.error .notFoundError) ++ last

theorem RetryEnd.later {limit n : Nat} {last : List (Except ClientExn Unit)} {r : Except ClientExn Unit}
    (h : RetryEnd limit n last r) : RetryEnd (limit + 1) (n + 1) last r := by
  cases h with
  | registered hn => exact .registered (by omega)
  | refused hn he => exact .refused (by omega) he
  | disconnected hn => exact .disconnected (by omega)
  | cancelled hn hpos => exact .cancelled (by omega) (by omega)
  | exhausted hn => exact .exhausted (by omega)

/-- The waits that are made after the attempts `attempt`, `attempt + 1`, …, `attempt + n - 1`. -/
def waitsFrom (settings : NatsClientSettings) (attempt n : Nat) : List Rat :=
  ((List.range' attempt n).map (waitTime settings)).filter (· ≠ 0)

theorem waitsFrom_succ (settings : NatsClientSettings) (attempt n : Nat) : waitsFrom settings attempt (n + 1) =
    (if waitTime settings attempt ≠ 0 then [waitTime settings attempt] else []) ++
      waitsFrom settings (attempt + 1) n := by
  simp only [waitsFrom, List.range'_succ, List.map_cons, List.filter_cons, decide_eq_true_eq]
  split <;> rfl

theorem waitsFrom_append (settings : NatsClientSettings) (attempt n : Nat) :
    waitsFrom settings attempt (n + 1) = waitsFrom settings attempt 1 ++ waitsFrom settings (attempt + 1) n := by
  rw [waitsFrom_succ, waitsFrom_succ settings attempt 0]
  simp [waitsFrom]

section Retry
variable {env : NatsEnvironment} {settings : NatsClientSettings} {h h' : ClientHistory}

theorem Peeked.registrations_eq (hh : Peeked h h') : registrations h' = registrations h := by
  refine hh.same fun h c r hc => ?_
  cases c <;> first | (simp [registrations]; done) | cases hc

theorem Peeked.waits_eq (hh : Peeked h h') : waits h' = waits h := by
  refine hh.same fun h c r hc => ?_
  cases c <;> first | (simp [waits]; done) | cases hc

/-- One attempt asks at most once, and waits for nothing. -/
theorem addNotificationCommandsSendVkConsumer_spec :
    wp (clientExec env) (addNotificationCommandsSendVkConsumer settings) (fun r h' _ => waits h' = waits h ∧
      ((r = .error (.runtimeError notConnectedMessage) ∧ registrations h' = registrations h) ∨
        registrations h' = registrations h ++ [(requested settings, r)])) h () := by
  simp only [addNotificationCommandsSendVkConsumer, wp_bind]
  refine wp_mono getJetstream_spec fun r h' _ hr => ?_
  obtain ⟨hpeek, hr⟩ := hr
  cases r with
  | error e => exact ⟨hpeek.waits_eq, .inl ⟨congrArg _ hr, hpeek.registrations_eq⟩⟩
  | ok js =>
    simp only [andThen_ok, clientAwait, wp_perform]
    refine ⟨?_, .inr ?_⟩
    · rw [← hpeek.waits_eq]
      simp [waits]
    · rw [← hpeek.registrations_eq]
      simp [registrations, requested]

/-- One round: registered, told to go on after the wait, or ended by an exception. -/
theorem setupAttempt_spec (attempt : Nat) : wp (clientExec env) (setupAttempt settings attempt) (fun r h' _ =>
    match r with
    | .ok true => registrations h' = registrations h ++ [(requested settings, .ok ())] ∧ waits h' = waits h
    | .ok false => attempt < settings.natsSetupMaxAttempts ∧
        registrations h' = registrations h ++ [(requested settings, .error .notFoundError)] ∧
        waits h' = waits h ++ waitsFrom settings attempt 1
    | .error e => (attempt < settings.natsSetupMaxAttempts ∧ e = .cancelled ∧
          registrations h' = registrations h ++ [(requested settings, .error .notFoundError)] ∧
          waits h' = waits h ++ waitsFrom settings attempt 1) ∨
        ((e = .notFoundError → settings.natsSetupMaxAttempts ≤ attempt) ∧ waits h' = waits h ∧
          ((e = .runtimeError notConnectedMessage ∧ registrations h' = registrations h) ∨
            registrations h' = registrations h ++ [(requested settings, .error e)]))) h () := by
  simp only [setupAttempt, wp_bind, wp_tryCatch]
  refine wp_mono addNotificationCommandsSendVkConsumer_spec fun r h₁ _ hr => ?_
  obtain ⟨hwaits, hr⟩ := hr
  cases r with
  | ok u =>
    refine ⟨hr.resolve_left fun hno => ?_, hwaits⟩
    cases hno.1
  | error e =>
    simp only [andThen_error, orElse_error]
    by_cases he : e = .notFoundError
    · subst he
      have hreg : registrations h₁ = registrations h ++ [(requested settings, .error .notFoundError)] :=
        hr.resolve_left fun hno => by cases hno.1
      by_cases hfinal : settings.natsSetupMaxAttempts ≤ attempt
      · simp only [↓reduceIte, if_pos hfinal, throw_eq, wp_raise]
        exact .inr ⟨fun _ => hfinal, hwaits, .inr hreg⟩
      · have hmore : attempt < settings.natsSetupMaxAttempts := by omega
        by_cases hwait : waitTime settings attempt ≠ 0
        · have hone : waitsFrom settings attempt 1 = [waitTime settings attempt] := by
            rw [waitsFrom_succ, if_pos hwait]
            rfl
          simp only [↓reduceIte, if_neg hfinal, if_pos hwait, clientAwait, wp_bind, wp_perform]
          cases hslept : (clientExec env h₁ (.sleep (waitTime settings attempt)) ()).1 with
          | error e =>
            refine .inl ⟨hmore, env.sleep_error _ _ _ hslept, ?_, ?_⟩
            · rw [← hreg]
              simp [registrations]
            · rw [hone, ← hwaits]
              simp [waits]
          | ok u =>
            refine ⟨hmore, ?_, ?_⟩
            · rw [← hreg]
              simp [registrations]
            · rw [hone, ← hwaits]
              simp [waits]
        · have hnone : waitsFrom settings attempt 1 = [] := by
            rw [waitsFrom_succ, if_neg hwait]
            rfl
          simp only [↓reduceIte, if_neg hfinal, if_neg hwait, pure_eq, wp_ret]
          exact ⟨hmore, hreg, by rw [hnone, hwaits, List.append_nil]⟩
    · have herr : (e = .runtimeError notConnectedMessage ∧ registrations h₁ = registrations h) ∨
          registrations h₁ = registrations h ++ [(requested settings, .error e)] :=
        hr.imp_left fun hno => ⟨by injection hno.1, hno.2⟩
      simp only [if_neg he, throw_eq, wp_raise]
      exact .inr ⟨fun heq => absurd heq he, hwaits, herr⟩

/-- The attempts from number `attempt` on. -/
theorem setupFrom_spec (left attempt : Nat) (hlast : attempt + left = settings.natsSetupMaxAttempts + 1)
    (hleft : 0 < left) (h : ClientHistory) : wp (clientExec env) (setupFrom settings left attempt) (fun r h' _ =>
      ∃ n last, RetryEnd left n last r ∧
        registrations h' = registrations h ++ (answered n last).map (requested settings, ·) ∧
        waits h' = waits h ++ waitsFrom settings attempt (min n (left - 1))) h () := by
  induction left generalizing attempt h with
  | zero => omega
  | succ left ih =>
    simp only [setupFrom, wp_bind]
    refine wp_mono (setupAttempt_spec attempt) fun r h₁ _ hr => ?_
    cases r with
    | ok found =>
      cases found with
      | true =>
        obtain ⟨hreg, hwaits⟩ := hr
        exact ⟨0, [.ok ()], .registered (by omega), hreg, by simpa [waitsFrom] using hwaits⟩
      | false =>
        obtain ⟨hmore, hreg, hwaits⟩ := hr
        simp only [andThen_ok, Bool.false_eq_true, ↓reduceIte]
        refine wp_mono (ih (attempt + 1) (by omega) (by omega) h₁) fun r h₂ _ hr => ?_
        obtain ⟨n, last, hend, hreg', hwaits'⟩ := hr
        have hmin : min (n + 1) (left + 1 - 1) = min n (left - 1) + 1 := by omega
        refine ⟨n + 1, last, hend.later, ?_, ?_⟩
        · rw [hreg', hreg, List.append_assoc]
          rfl
        · rw [hwaits', hwaits, hmin, waitsFrom_append settings attempt (min n (left - 1)), List.append_assoc]
    | error e =>
      obtain ⟨hmore, rfl, hreg, hwaits⟩ | ⟨hlate, hwaits, hr⟩ := hr
      · have hmin : min 1 (left + 1 - 1) = 1 := by omega
        exact ⟨1, [], .cancelled (by omega) Nat.one_pos, hreg, by rw [hmin]; exact hwaits⟩
      · by_cases he : e = .notFoundError
        · subst he
          have hzero : left = 0 := by
            have := hlate rfl
            omega
          subst hzero
          refine ⟨1, [], .exhausted rfl, hr.resolve_left fun hno => ?_, by simpa [waitsFrom] using hwaits⟩
          cases hno.1
        · obtain ⟨rfl, hreg⟩ | hreg := hr
          · exact ⟨0, [], .disconnected (by omega), by simpa [answered] using hreg, by simpa [waitsFrom] using hwaits⟩
          · exact ⟨0, [.error e], .refused (by omega) he, hreg, by simpa [waitsFrom] using hwaits⟩

theorem setupConsumers_spec : wp (clientExec env) (setupConsumers settings) (fun r h' _ =>
    ∃ n last, RetryEnd settings.natsSetupMaxAttempts n last r ∧
      registrations h' = registrations h ++ (answered n last).map (requested settings, ·) ∧
      waits h' = waits h ++ waitsFrom settings 1 (min n (settings.natsSetupMaxAttempts - 1))) h () :=
  setupFrom_spec settings.natsSetupMaxAttempts 1 (by omega) settings.maxAttempts_ge h

/-- The consumer is registered unless the stream stays missing for all the attempts, the
connection is lost, or an attempt fails in another way. -/
theorem setupConsumers_retries (settings : NatsClientSettings) (env : NatsEnvironment) (h : ClientHistory) :
    let out := (setupConsumers settings).run (clientExec env) h ()
    ∃ n last, RetryEnd settings.natsSetupMaxAttempts n last out.1 ∧
      registrations out.2.1 = registrations h ++ (answered n last).map (requested settings, ·) ∧
      waits out.2.1 = waits h ++ waitsFrom settings 1 (min n (settings.natsSetupMaxAttempts - 1)) :=
  setupConsumers_spec

end Retry
end VkService
