import VkService.Promises.Messages
import VkService.Promises.Requests

/-! What a session has locked when it locks a binding or a presented code. Only `unlink` locks
codes before a binding. -/
namespace VkService
open PyStr Effects Effects.Prog

/-- The call locks bindings, other than by deleting them. -/
def Call.locksUserVk : Call → Bool
  | .userVkCreate _ | .userVkActivate .. | .userVkSetState .. => true
  | _ => false

/-- The call locks rows, keys, or an advisory lock. -/
def Call.locks : Call → Bool
  | .userVkCreate _ | .userVkActivate .. | .userVkSetState .. | .userVkSoftDelete _ | .confirmationCreate ..
  | .confirmationMarkUsed _ | .confirmationInvalidatePrevious _ | .claimAttempt .. | .markSent .. | .markFailed .. => true
  | _ => false

/-- A binding is created, activated or set before anything else is locked, and a code is marked used
right after the activation. -/
structure LocksFirst (h : CallHistory) (c : Call) : Prop where
  binding : c.locksUserVk = true → ∀ e ∈ h, e.op.locks = false
  code : ∀ y, c = .confirmationMarkUsed y → ∃ x vkPeerId sn dn row earlier,
    h = ⟨.userVkActivate x vkPeerId sn dn, .ok row⟩ :: earlier ∧ ∀ e ∈ earlier, e.op.locks = false

section Histories
variable {settings : VkSettings} {code : Str} {vkPeerId : PeerId} {sn dn : Option String} {h : CallHistory} {c : Call}

theorem LocksFirst.of_other (hbinding : c.locksUserVk = false) (hcode : ∀ y, c ≠ .confirmationMarkUsed y) :
    LocksFirst h c :=
  ⟨fun hc => by simp [hbinding] at hc, fun y hc => absurd hc (hcode y)⟩

/-- A read before it changes nothing of that. -/
theorem LocksFirst.after {e : CallEvent} (hfirst : LocksFirst h c) (he : e.op.locks = false) :
    LocksFirst (h ++ [e]) c := by
  have hwith : ∀ {h' : CallHistory}, (∀ e ∈ h', e.op.locks = false) → ∀ e' ∈ h' ++ [e], e'.op.locks = false := by
    intro h' hh e' he'
    rcases List.mem_append.mp he' with hmem | hmem
    · exact hh e' hmem
    · exact (List.mem_singleton.mp hmem) ▸ he
  refine ⟨fun hc => hwith (hfirst.binding hc), fun y hc => ?_⟩
  obtain ⟨x, peer, sn, dn, row, earlier, rfl, hearlier⟩ := hfirst.code y hc
  exact ⟨x, peer, sn, dn, row, earlier ++ [e], rfl, hwith hearlier⟩

/-- Up to this point a confirmation has only read. -/
def ConfirmPoint.reads : ConfirmPoint → Bool
  | .occupied _ | .activated .. | .used .. => false
  | _ => true

theorem ConfirmAt.not_locks {p : ConfirmPoint} (hat : ConfirmAt settings code vkPeerId sn dn h p)
    (hp : p.reads = true) :
    ∀ e ∈ h, e.op.locks = false := by
  induction hat with
  | start => simp
  | occupied | lost | activated | used => cases hp
  | _ =>
    rename_i ih
    exact List.forall_mem_cons.mpr ⟨rfl, ih rfl⟩

theorem ConfirmCall.locksFirst (hcall : ConfirmCall settings code vkPeerId sn dn h c) : LocksFirst h c := by
  cases hcall with
  | activate hat => exact ⟨fun _ => hat.not_locks rfl, by simp⟩
  | markUsed hat =>
    refine ⟨fun hc => Bool.noConfusion hc, fun y _ => ?_⟩
    cases hat with
    | activated row hat => exact ⟨_, _, _, _, row, _, rfl, hat.not_locks rfl⟩
  | _ => exact .of_other rfl (by simp)

/-- After one read nothing is locked. -/
private theorem not_locks_of_one {e : CallEvent} (hh : h = [e]) (he : e.op.locks = false) :
    ∀ e ∈ h, e.op.locks = false := by
  subst hh
  exact List.forall_mem_cons.mpr ⟨he, by simp⟩

theorem TransitionCall.locksFirst {state : BindingState} (hcall : TransitionCall vkPeerId state h c) :
    LocksFirst h c := by
  cases hcall with
  | set hh => exact ⟨fun _ => not_locks_of_one hh rfl, by simp⟩
  | _ => exact .of_other rfl (by simp)

theorem IssueCall.locksFirst {userId : UUID} (hcall : IssueCall userId h c) : LocksFirst h c := by
  cases hcall with
  | create hh => exact ⟨fun _ => not_locks_of_one hh rfl, by simp⟩
  | _ => exact .of_other rfl (by simp)

theorem RequestCall.locksFirst {request : Request} (hcall : RequestCall settings request h c) : LocksFirst h c := by
  cases request with
  | ensureBinding | issueConfirmation => exact IssueCall.locksFirst hcall
  | unlink => cases hcall <;> exact .of_other rfl (by simp)
  | confirm => exact ConfirmCall.locksFirst hcall
  | block | unblock => exact TransitionCall.locksFirst hcall
  | deliver =>
    cases c with
    | userVkCreate | userVkActivate | userVkSetState | confirmationMarkUsed => exact hcall.elim
    | _ => exact .of_other rfl (by simp)

end Histories

/-- The calls of a message: those of a confirmation, a journal row, the end of its session and a reply. -/
structure HandlerCall (h : CallHistory) (c : Call) : Prop where
  locksFirst : LocksFirst h c
  kind : c.confirms = true ∨ c = .commit ∨ c = .close ∨ ∃ peerId text, c = .sendMessage peerId text

section Messages
variable {settings : VkSettings} {code : Str} {vkPeerId : PeerId} {sn dn : Option String} {h : CallHistory}

theorem ConfirmCall.handlerCall {c : Call} (hcall : ConfirmCall settings code vkPeerId sn dn h c) :
    HandlerCall h c := by
  refine ⟨hcall.locksFirst, ?_⟩
  cases hcall with
  | commit => exact .inr (.inl rfl)
  | close => exact .inr (.inr (.inl rfl))
  | _ => exact .inl rfl

private theorem handlerCall_commit : HandlerCall h .commit := ⟨.of_other rfl (by simp), .inr (.inl rfl)⟩

private theorem handlerCall_close : HandlerCall h .close := ⟨.of_other rfl (by simp), .inr (.inr (.inl rfl))⟩

/-- The session is committed and closed, and the reply is sent. -/
private theorem replies_conforms (peerId : PeerId) (text : String) (outcome : Outcome) :
    Conforms HandlerCall (fun _ _ => True) h (do botCommit; let _ ← await (.sendMessage peerId text); pure outcome) := by
  refine .bind _ _ _ (botCommit_conforms handlerCall_commit fun _ => handlerCall_close)
    (fun _ _ _ => ?_) fun _ _ _ => trivial
  exact .perform_bind ⟨.of_other rfl (by simp), .inr (.inr (.inr ⟨_, _, rfl⟩))⟩ (fun _ => trivial) fun _ => trivial

theorem handleMessage_locksFirst (settings : VkSettings) (peerId fromId : PeerId) (text : Str) :
    Conforms HandlerCall (fun _ _ => True) [] (handleMessage settings peerId fromId text) := by
  have hlog : ∀ {status details}, HandlerCall [] (.logAction .message status details) :=
    ⟨.of_other rfl (by simp), .inl rfl⟩
  unfold handleMessage
  split
  · refine .perform_bind hlog (fun _ => ?_) fun _ => trivial
    exact .bind _ _ _ (botCommit_conforms handlerCall_commit fun _ => handlerCall_close)
      (fun _ _ _ => trivial) fun _ _ _ => trivial
  · split
    · exact .perform_bind hlog (fun _ => replies_conforms _ _ _) fun _ => trivial
    · exact .perform_bind hlog (fun _ => replies_conforms _ _ _) fun _ => trivial
    · refine .bind (Q := fun _ _ => True) _ _ _ ?_ (fun _ _ _ => replies_conforms _ _ _) fun _ _ _ => trivial
      refine .perform_bind ⟨.of_other rfl (by simp), .inl rfl⟩ (fun profile => ?_) fun _ => trivial
      refine .bind (Q := fun _ _ => True) _ _ _ (.mono (fun h c hc => ?_) (fun _ _ _ => trivial) _ _
        (.after [⟨.getProfile fromId, .ok profile⟩] (attemptDomain_conforms (confirm_conforms settings _ fromId _ _))))
        (fun _ _ _ => trivial) fun _ _ _ => trivial
      obtain ⟨new, rfl, hcall⟩ := hc
      exact ⟨hcall.locksFirst.after rfl, hcall.handlerCall.kind⟩

end Messages
end VkService
