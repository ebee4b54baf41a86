import VkService.Domain.Changes
import VkService.Domain.Handlers

/-! What the code around a service adds to the calls the service makes. -/
namespace VkService
open Effects Effects.Prog

/-- The transaction has been ended. -/
def Ended (h : CallHistory) : Prop :=
  ∃ e ∈ h, e.op = .commit ∨ e.op = .rollback ∨ e.op = .close

@[simp] theorem not_ended_nil : ¬ Ended [] := by simp [Ended]

theorem ended_cons {e : CallEvent} {h : CallHistory} :
    Ended (e :: h) ↔ (e.op = .commit ∨ e.op = .rollback ∨ e.op = .close) ∨ Ended h := by
  simp [Ended]

/-- The exceptions that only the services raise. -/
def Exn.isOwn : Exn → Bool
  | .rateLimited _ | .notFound _ | .gone _ | .conflict _ | .deliveryRetryable => true
  | _ => false

theorem Exn.isOwn_of_isDomain {e : Exn} (h : e.isDomain = true) : e.isOwn = true := by
  cases e <;> simp [Exn.isDomain, Exn.isOwn] at h ⊢

/-- The exceptions that the repositories raise. -/
def Exn.isRepository : Exn → Bool
  | .alreadyExists _ | .integrityError | .noResultFound | .multipleResultsFound => true
  | _ => false

private theorem oneOrNone_isRepository {ρ : Type} {rows : List ρ} {x : Exn} (h : oneOrNone rows = .error x) :
    x.isRepository = true := by
  match rows, h with
  | _ :: _ :: _, h => cases h; rfl

private theorem one_isRepository {ρ : Type} {rows : List ρ} {x : Exn} (h : one rows = .error x) :
    x.isRepository = true := by
  match rows, h with
  | [], h => cases h; rfl
  | _ :: _ :: _, h => cases h; rfl

theorem answer_isRepository {w : World} {ids : NewIds} {T : Tables} {c : Call} {x : Exn}
    (h : (answer w ids T c).1 = .error x) : x.isRepository = true := by
  cases c with
  | userVkCreate userId =>
    simp only [answer, UserVkRepository.create] at h
    split at h <;> cases h
    rfl
  | userVkGetById => exact oneOrNone_isRepository h
  | userVkGetByUserId => exact oneOrNone_isRepository h
  | userVkGetByPeerId => exact oneOrNone_isRepository h
  | userVkActivate =>
    simp only [answer, UserVkRepository.activate] at h
    split at h
    · rename_i y hy
      cases h
      exact one_isRepository hy
    · split at h <;> cases h
      rfl
  | userVkSetState => exact oneOrNone_isRepository h
  | confirmationCreate =>
    simp only [answer, VkConfirmationRepository.create] at h
    split at h <;> cases h
    rfl
  | confirmationGetByCode => exact oneOrNone_isRepository h
  | claimAttempt =>
    simp only [answer, VkNotificationDeliveryRepository.claimAttempt] at h
    split at h
    · rename_i y hy
      cases h
      exact oneOrNone_isRepository hy
    · cases h
    · split at h <;> cases h
  | markSent => exact one_isRepository h
  | markFailed => exact one_isRepository h
  | _ => cases h

/-- The repositories raise none of the services' own exceptions. -/
theorem answer_notOwn {w : World} {ids : NewIds} {T : Tables} {c : Call} {x : Exn}
    (h : (answer w ids T c).1 = .error x) : x.isOwn = false := by
  have hx := answer_isRepository h
  cases x with
  | rateLimited | notFound | gone | conflict | deliveryRetryable => cases hx
  | _ => rfl

/-- No call has failed with an exception of the services' own. -/
def Honest (h : CallHistory) : Prop := ∀ e ∈ h, ∀ x, e.reply = .error x → x.isOwn = false

theorem honest_cons {e : CallEvent} {h : CallHistory} :
    Honest (e :: h) ↔ (∀ x, e.reply = .error x → x.isOwn = false) ∧ Honest h :=
  List.forall_mem_cons

section Rules
variable {α : Type} {P : CallHistory → Call → Prop} {h : CallHistory}

/-- Nothing but the end of the session comes after its body. -/
theorem withSession_conforms {body : Py α} {Q Q' : CallHistory → Except Exn α → Prop} (hbody : Conforms P Q h body)
    (hclose : ∀ h r, Q h r → P h .close) (hend : ∀ h r, Q h r → Q' (⟨.close, .ok ()⟩ :: h) r)
    (hfail : ∀ h r e, Q h r → Q' (⟨.close, .error e⟩ :: h) (.error e)) : Conforms P Q' h (withSession body) := by
  refine .bind (Q := fun h r => ∃ r', r = .ok r' ∧ Q h r') _ _ _ (.attempt _ _ hbody fun _ r hQ => ⟨r, rfl, hQ⟩)
    (fun h r hr => ?_) fun h e hr => ?_
  · obtain ⟨_, ⟨⟩, hQ⟩ := hr
    refine .perform_bind (hclose h r hQ) (fun u => ?_) fun e => hfail h r e hQ
    cases r with
    | ok a => exact hend h _ hQ
    | error e => exact hend h _ hQ
  · obtain ⟨_, ⟨⟩, -⟩ := hr

/-- `get_session` commits after a return and rolls back after an exception. -/
theorem getSession_conforms {body : Py α} {Q : CallHistory → Except Exn α → Prop} (hbody : Conforms P Q h body)
    (hcommit : ∀ h a, Q h (.ok a) → P h .commit) (hrollback : ∀ h, P h .rollback) (hclose : ∀ h, P h .close) :
    Conforms P (fun _ _ => True) h (getSession body) := by
  refine withSession_conforms (Q := fun _ _ => True)
    (.tryCatch (Q := fun _ _ => True) _ _ _ ?_ (fun _ _ _ => trivial) ?_)
    (fun h _ _ => hclose h) (fun _ _ _ => trivial) fun _ _ _ _ => trivial
  · exact .bind _ _ _ hbody (fun h a hQ => .perform_bind (hcommit h a hQ) (fun _ => trivial) fun _ => trivial)
      fun _ _ _ => trivial
  · intro h e _
    split
    · exact .perform_bind (hrollback h) (fun _ => trivial) fun _ => trivial
    · trivial

theorem botCommit_conforms (hcommit : P h .commit) (hclose : ∀ r, P (⟨.commit, r⟩ :: h) .close) :
    Conforms P (fun _ _ => True) h botCommit := by
  refine .bind (Q := fun h' _ => ∃ r, h' = ⟨.commit, r⟩ :: h) _ _ _ (.attempt _ _ (.perform h hcommit fun r => ⟨r, rfl⟩)
    fun _ _ hr => hr) (fun h' r hr => ?_) fun _ _ _ => trivial
  obtain ⟨r', rfl⟩ := hr
  refine .perform_bind (hclose r') (fun _ => ?_) fun _ => trivial
  cases r <;> trivial

/-- The two ways an operation can fail behind `attemptDomain`, made one. -/
def joined : Except Exn (Except Exn α) → Except Exn α
  | .ok r => r
  | .error e => .error e

/-- A caught failure is a domain error, and one that escapes is none. -/
theorem attemptDomain_conforms {body : Py α} {Q : CallHistory → Except Exn α → Prop} (hbody : Conforms P Q h body) :
    Conforms P (fun h r => Q h (joined r) ∧ (∀ e, r = .ok (.error e) → e.isDomain = true) ∧
      ∀ e, r = .error e → e.isDomain = false) h (attemptDomain body) := by
  refine .tryCatch (Q := fun h r => Q h (joined r) ∧ ∀ e, r ≠ .ok (.error e)) _ _ _ ?_
    (fun _ a hQ => ⟨hQ.1, fun e he => absurd he (hQ.2 e), by simp⟩) fun h e hQ => ?_
  · exact .bind _ _ _ hbody (fun _ _ hQ => ⟨hQ, by simp⟩) fun _ _ hQ => ⟨hQ, by simp⟩
  · split
    · rename_i hdomain
      exact ⟨hQ.1, by simpa using hdomain, by simp⟩
    · rename_i hdomain
      exact ⟨hQ.1, by simp, by simpa using hdomain⟩

end Rules
end VkService
