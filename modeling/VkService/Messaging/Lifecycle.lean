import Mathlib.Data.List.Basic

/-! What the policy of the NATS connection reports. Failures are counted from one reconnect
to the next, and an incident is escalated once, when the count passes the threshold. -/
namespace VkService

inductive LogLevel where
  | info | warning | error
  deriving DecidableEq, Repr

/-- One record of the service's log. -/
structure Report where
  level : LogLevel
  message : String
  excInfo : Option String
  deriving DecidableEq, Repr

structure NatsConnectionErrorPolicy where
  serviceName : String
  reportAfterAttempts : Nat
  consecutiveFailures : Nat
  escalated : Bool

namespace NatsConnectionErrorPolicy

/-- `__init__`. -/
def start (serviceName : String) (reportAfterAttempts : Nat) : NatsConnectionErrorPolicy where
  serviceName := serviceName
  reportAfterAttempts := reportAfterAttempts
  consecutiveFailures := 0
  escalated := false

def reset (p : NatsConnectionErrorPolicy) : NatsConnectionErrorPolicy :=
  { p with consecutiveFailures := 0, escalated := false }

/-- The failure is given by its text. -/
def onError (error : String) (p : NatsConnectionErrorPolicy) : NatsConnectionErrorPolicy × Report :=
  let p := { p with consecutiveFailures := p.consecutiveFailures + 1 }
  if p.reportAfterAttempts < p.consecutiveFailures && !p.escalated then
    ({ p with escalated := true },
      ⟨.error,
        s!"NATS is unavailable for {p.serviceName}: {p.consecutiveFailures} consecutive failed attempts", some error⟩)
  else
    (p, ⟨.warning,
      s!"NATS connection error for {p.serviceName} (attempt {p.consecutiveFailures}): {error}", none⟩)

def onDisconnected (p : NatsConnectionErrorPolicy) : NatsConnectionErrorPolicy × Report :=
  (p, ⟨.warning, s!"NATS disconnected for {p.serviceName}", none⟩)

def onReconnected (p : NatsConnectionErrorPolicy) : NatsConnectionErrorPolicy × Report :=
  (p.reset, ⟨.info, s!"NATS reconnected for {p.serviceName} after {p.consecutiveFailures} failed attempts", none⟩)

def onClosed (p : NatsConnectionErrorPolicy) : NatsConnectionErrorPolicy × Report :=
  (p, ⟨.info, s!"NATS connection closed for {p.serviceName}", none⟩)

end NatsConnectionErrorPolicy

/-- What can happen to the policy: the callbacks of the connection, and `reset`. -/
inductive PolicyEvent where
  | error (error : String)
  | disconnected
  | reconnected
  | closed
  | reset

namespace PolicyEvent
open NatsConnectionErrorPolicy

/-- The policy after an event, and what it has reported. -/
def handle (p : NatsConnectionErrorPolicy) : PolicyEvent → NatsConnectionErrorPolicy × Option Report
  | .error e => (p.onError e).map id some
  | .disconnected => p.onDisconnected.map id some
  | .reconnected => p.onReconnected.map id some
  | .closed => p.onClosed.map id some
  | .reset => (p.reset, none)

def isError : PolicyEvent → Bool
  | .error _ => true
  | _ => false

/-- The events between two incidents. -/
def endsIncident : PolicyEvent → Bool
  | .reconnected | .reset => true
  | _ => false

end PolicyEvent

/-- The policy after some events. -/
def followed (p : NatsConnectionErrorPolicy) (events : List PolicyEvent) : NatsConnectionErrorPolicy :=
  events.foldl (fun p e => (e.handle p).1) p

/-- The events, each with its report. -/
def reported : NatsConnectionErrorPolicy → List PolicyEvent → List (PolicyEvent × Option Report)
  | _, [] => []
  | p, e :: events => (e, (e.handle p).2) :: reported (e.handle p).1 events

/-- An incident: the events from one reconnect or reset to the next. -/
abbrev Incident := List (PolicyEvent × Option Report)

def incidents (p : NatsConnectionErrorPolicy) (events : List PolicyEvent) : List Incident :=
  (reported p events).splitOnP (·.1.endsIncident)

namespace Incident

def errors (piece : Incident) : Nat := piece.countP (·.1.isError)

def escalations (piece : Incident) : Nat := piece.countP fun x => x.2.any (·.level == .error)

/-- After `k` failures of the incident, exactly the failure number `n + 1` is escalated. -/
def Graded (n : Nat) : (k : Nat) → Incident → Prop
  | _, [] => True
  | k, (.error _, r) :: rest => r.map (·.level) = some (if k = n then .error else .warning) ∧ Graded n (k + 1) rest
  | k, (_, r) :: rest => r.any (·.level == .error) = false ∧ Graded n k rest

@[simp] theorem errors_cons_error (e : String) (r : Option Report) (piece : Incident) :
    errors ((.error e, r) :: piece) = errors piece + 1 := by
  simp [errors, PolicyEvent.isError]

theorem errors_cons_other {event : PolicyEvent} (h : event.isError = false) (r : Option Report) (piece : Incident) :
    errors ((event, r) :: piece) = errors piece := by
  simp [errors, h]

theorem escalations_cons (event : PolicyEvent) (r : Option Report) (piece : Incident) :
    escalations ((event, r) :: piece) = escalations piece + if r.any (·.level == .error) then 1 else 0 := by
  simp [escalations, List.countP_cons]

variable {n k : Nat} {piece : Incident}

theorem Graded.at_error (h : Graded n k piece) {front back : Incident} {e : String} {r : Option Report}
    (hpiece : piece = front ++ (.error e, r) :: back) :
    r.map (·.level) = some (if k + errors front = n then .error else .warning) := by
  induction front generalizing k piece with
  | nil =>
    subst hpiece
    exact h.1
  | cons x front ih =>
    subst hpiece
    obtain ⟨event, r'⟩ := x
    cases event with
    | error e' =>
      rw [ih h.2 rfl, errors_cons_error, Nat.add_assoc, Nat.add_comm 1]
    | disconnected | reconnected | closed | reset =>
      rw [ih h.2 rfl, errors_cons_other rfl]

/-- An incident is escalated once, if it has more than `n` failures. -/
theorem Graded.escalations_eq (h : Graded n k piece) :
    escalations piece = if k ≤ n ∧ n < k + errors piece then 1 else 0 := by
  induction piece generalizing k with
  | nil =>
    have hnot : ¬ (k ≤ n ∧ n < k + errors []) := by simp [errors]
    rw [if_neg hnot]
    rfl
  | cons x piece ih =>
    obtain ⟨event, r⟩ := x
    cases event with
    | error e =>
      obtain ⟨hr, hrest⟩ := h
      obtain ⟨report, rfl, hlevel⟩ := Option.map_eq_some_iff.mp hr
      rw [escalations_cons, ih hrest, errors_cons_error]
      by_cases hk : k = n
      · have hpast : ¬ (k + 1 ≤ n ∧ n < k + 1 + errors piece) := by omega
        have hnow : k ≤ n ∧ n < k + (errors piece + 1) := by omega
        rw [if_neg hpast, if_pos hnow, Option.any_some, hlevel, if_pos hk]
        rfl
      · simp only [Option.any_some, hlevel, if_neg hk]
        split <;> split <;> grind
    | disconnected | reconnected | closed | reset =>
      rw [escalations_cons, h.1, ih h.2, errors_cons_other rfl]
      rfl

end Incident

section Runs
open Incident NatsConnectionErrorPolicy
variable {p : NatsConnectionErrorPolicy} {events : List PolicyEvent}

/-- The flag follows the counter. -/
def NatsConnectionErrorPolicy.Linked (p : NatsConnectionErrorPolicy) : Prop :=
  p.escalated = true ↔ p.reportAfterAttempts < p.consecutiveFailures

theorem NatsConnectionErrorPolicy.linked_start (serviceName : String) (n : Nat) : (start serviceName n).Linked := by
  simp [Linked, start]

/-- What an event does to the counter. -/
theorem PolicyEvent.handle_counter (p : NatsConnectionErrorPolicy) (event : PolicyEvent) :
    (event.handle p).1.consecutiveFailures = if event.endsIncident then 0
      else if event.isError then p.consecutiveFailures + 1 else p.consecutiveFailures := by
  cases event with
  | error e =>
    simp only [handle, onError, Prod.map_fst, id]
    split <;> simp [endsIncident, isError]
  | disconnected | reconnected | closed | reset => rfl

theorem PolicyEvent.handle_threshold (p : NatsConnectionErrorPolicy) (event : PolicyEvent) :
    (event.handle p).1.reportAfterAttempts = p.reportAfterAttempts := by
  cases event with
  | error e =>
    simp only [handle, onError, Prod.map_fst, id]
    split <;> rfl
  | disconnected | reconnected | closed | reset => rfl

/-- A failure is escalated when it is the first past the threshold. -/
theorem NatsConnectionErrorPolicy.Linked.level_onError (h : p.Linked) (e : String) :
    (p.onError e).2.level = if p.consecutiveFailures = p.reportAfterAttempts then .error else .warning := by
  have hflag : p.escalated = decide (p.reportAfterAttempts < p.consecutiveFailures) := by
    rw [Bool.eq_iff_iff, decide_eq_true_eq]
    exact h
  simp only [onError, hflag]
  by_cases hcount : p.consecutiveFailures = p.reportAfterAttempts
  · simp [hcount]
  · have hnot : (decide (p.reportAfterAttempts < p.consecutiveFailures + 1) &&
        !decide (p.reportAfterAttempts < p.consecutiveFailures)) = false := by
      simp only [Bool.and_eq_false_iff, Bool.not_eq_false', decide_eq_false_iff_not, decide_eq_true_eq]
      omega
    rw [hnot, if_neg hcount]
    rfl

theorem NatsConnectionErrorPolicy.Linked.handle (h : p.Linked) (event : PolicyEvent) : (event.handle p).1.Linked := by
  cases event with
  | error e =>
    simp only [PolicyEvent.handle, onError, Prod.map_fst, id]
    split
    next hnow =>
      simp only [Bool.and_eq_true, decide_eq_true_eq] at hnow
      simpa [Linked] using hnow.1
    next hnow =>
      simp only [Bool.and_eq_true, decide_eq_true_eq, Bool.not_eq_true', not_and, Bool.not_eq_false] at hnow
      exact ⟨fun hflag => Nat.lt_succ_of_lt (h.mp hflag), hnow⟩
  | disconnected | closed => exact h
  | reconnected | reset => simp [Linked, PolicyEvent.handle, onReconnected, reset]

theorem NatsConnectionErrorPolicy.Linked.followed (h : p.Linked) (events : List PolicyEvent) :
    (followed p events).Linked := by
  induction events generalizing p with
  | nil => exact h
  | cons event events ih => exact ih (h.handle event)

theorem followed_threshold (p : NatsConnectionErrorPolicy) (events : List PolicyEvent) :
    (followed p events).reportAfterAttempts = p.reportAfterAttempts := by
  induction events generalizing p with
  | nil => rfl
  | cons event events ih => exact (ih _).trans (event.handle_threshold p)

/-- Only a failure is escalated. -/
theorem PolicyEvent.handle_quiet (p : NatsConnectionErrorPolicy) {event : PolicyEvent} (h : event.isError = false) :
    (event.handle p).2.any (·.level == .error) = false := by
  cases event with
  | error e => cases h
  | disconnected | reconnected | closed | reset => rfl

/-- The first incident goes on from the count so far, every later one begins at zero. -/
theorem incidents_graded (h : p.Linked) (events : List PolicyEvent) : ∃ first rest, incidents p events = first :: rest ∧
    Graded p.reportAfterAttempts p.consecutiveFailures first ∧
    ∀ piece ∈ rest, Graded p.reportAfterAttempts 0 piece := by
  induction events generalizing p with
  | nil => exact ⟨[], [], rfl, trivial, fun _ hpiece => nomatch hpiece⟩
  | cons event events ih =>
    obtain ⟨first, rest, heq, hfirst, hrest⟩ := ih (h.handle event)
    rw [event.handle_threshold p, event.handle_counter p] at hfirst
    rw [event.handle_threshold p] at hrest
    rw [incidents, reported, List.splitOnP_cons_eq_if_modifyHead, ← incidents, heq]
    by_cases hends : event.endsIncident = true
    · rw [if_pos hends] at hfirst
      refine ⟨[], first :: rest, if_pos hends, trivial, fun piece hpiece => ?_⟩
      obtain rfl | hpiece := List.mem_cons.mp hpiece
      · exact hfirst
      · exact hrest piece hpiece
    · refine ⟨(event, (event.handle p).2) :: first, rest, if_neg hends, ?_, hrest⟩
      rw [if_neg hends] at hfirst
      cases event with
      | error e => exact ⟨congrArg some (h.level_onError e), hfirst⟩
      | disconnected | reconnected | closed | reset => exact ⟨rfl, hfirst⟩

theorem incident_graded (h : p.Linked) (hzero : p.consecutiveFailures = 0) {piece : Incident}
    (hpiece : piece ∈ incidents p events) : Graded p.reportAfterAttempts 0 piece := by
  obtain ⟨first, rest, heq, hfirst, hrest⟩ := incidents_graded h events
  rw [heq] at hpiece
  rw [hzero] at hfirst
  obtain rfl | hpiece := List.mem_cons.mp hpiece
  · exact hfirst
  · exact hrest piece hpiece

theorem reported_quiet {x : PolicyEvent × Option Report} (hx : x ∈ reported p events) (h : x.1.isError = false) :
    x.2.any (·.level == .error) = false := by
  induction events generalizing p with
  | nil => cases hx
  | cons event events ih =>
    obtain rfl | hx := List.mem_cons.mp hx
    · exact event.handle_quiet p h
    · exact ih hx

/-- One escalation per incident: at the failure that passes the threshold, and nowhere else. -/
theorem policy_escalates_once (serviceName : String) (n : Nat) (events : List PolicyEvent) :
    (∀ piece ∈ incidents (start serviceName n) events,
        (escalations piece = if n < errors piece then 1 else 0) ∧
        ∀ front back e r, piece = front ++ (.error e, r) :: back →
          r.map (·.level) = some (if errors front = n then .error else .warning)) ∧
      (∀ x ∈ reported (start serviceName n) events, x.1.isError = false → x.2.any (·.level == .error) = false) ∧
      ((followed (start serviceName n) events).escalated = true ↔
        n < (followed (start serviceName n) events).consecutiveFailures) := by
  refine ⟨fun piece hpiece => ?_, fun x hx => reported_quiet hx, ?_⟩
  · have hgraded : Graded n 0 piece := incident_graded (linked_start serviceName n) rfl hpiece
    refine ⟨?_, fun front back e r hsplit => ?_⟩
    · simpa using hgraded.escalations_eq
    · simpa using hgraded.at_error hsplit
  · have hlinked := (linked_start serviceName n).followed events
    rwa [Linked, followed_threshold] at hlinked

example : (incidents (start "vk-service" 1)
    [.error "a", .disconnected, .error "b", .reconnected, .error "c", .error "d"]).map escalations = [1, 1] := by
  decide

end Runs
end VkService
