import VkService.Promises.Confirm
import VkService.Promises.Delivery

/-! The order of calls of the other operations, and of every request to its end. -/
namespace VkService
open PyStr Effects Effects.Prog

/-- `ensure_binding` has found or made the row `b`. -/
inductive Bound (userId : UUID) : CallHistory → UserVk → Prop
  | found (b : UserVk) : Bound userId [⟨.userVkGetByUserId userId, .ok (some b)⟩] b
  | created (b : UserVk) :
      Bound userId [⟨.userVkCreate userId, .ok b⟩, ⟨.userVkGetByUserId userId, .ok none⟩] b
  | raced (b : UserVk) (message : String) :
      Bound userId [⟨.userVkGetByUserId userId, .ok (some b)⟩, ⟨.userVkCreate userId, .error (.alreadyExists message)⟩,
        ⟨.userVkGetByUserId userId, .ok none⟩] b

/-- The codes of a pending row have been invalidated, and a new one is being looked for. -/
def Preparing (userId : UUID) (h : CallHistory) (b : UserVk) : Prop :=
  ∃ later n earlier, h = later ++ ⟨.confirmationInvalidatePrevious b.id, .ok n⟩ :: earlier ∧
    Bound userId earlier b ∧ b.state = .pending ∧
    ∀ e ∈ later, (∃ n, e.op = .choices n) ∨ (∃ code, e.op = .confirmationGetByCode code) ∨ e.op = .now

/-- When `ensure_binding` and `issue_confirmation` may make a call. -/
inductive IssueCall (userId : UUID) (h : CallHistory) : Call → Prop
  | look (hh : h = [] ∨ ∃ message, h = [⟨.userVkCreate userId, .error (.alreadyExists message)⟩,
      ⟨.userVkGetByUserId userId, .ok none⟩]) : IssueCall userId h (.userVkGetByUserId userId)
  | create (hh : h = [⟨.userVkGetByUserId userId, .ok none⟩]) : IssueCall userId h (.userVkCreate userId)
  | invalidate {b : UserVk} (hb : Bound userId h b) (hpending : b.state = .pending) :
      IssueCall userId h (.confirmationInvalidatePrevious b.id)
  | choices {b : UserVk} (n : Nat) (hb : Preparing userId h b) : IssueCall userId h (.choices n)
  | lookup {b : UserVk} (code : Str) (hb : Preparing userId h b) : IssueCall userId h (.confirmationGetByCode code)
  | now {b : UserVk} (hb : Preparing userId h b) : IssueCall userId h .now
  | createCode {b : UserVk} {code : Str} (exp : Time) (hb : Preparing userId h b)
      (hnew : ⟨.confirmationGetByCode code, .ok none⟩ ∈ h) : IssueCall userId h (.confirmationCreate b.id code exp)
  | log (status : LogStatus) (details : Details) : IssueCall userId h (.logAction .issue status details)
  | commit : IssueCall userId h .commit
  | rollback : IssueCall userId h .rollback
  | close : IssueCall userId h .close

/-- When `unlink` may make a call. -/
inductive UnlinkCall (userId : UUID) (h : CallHistory) : Call → Prop
  | look (hh : h = []) : UnlinkCall userId h (.userVkGetByUserId userId)
  | invalidate {b : UserVk} (hh : h = [⟨.userVkGetByUserId userId, .ok (some b)⟩]) :
      UnlinkCall userId h (.confirmationInvalidatePrevious b.id)
  | delete {b : UserVk} {n : Nat} (hh : h = [⟨.confirmationInvalidatePrevious b.id, .ok n⟩,
      ⟨.userVkGetByUserId userId, .ok (some b)⟩]) : UnlinkCall userId h (.userVkSoftDelete userId)
  | log (status : LogStatus) (details : Details) : UnlinkCall userId h (.logAction .unlink status details)
  | send (peerId : PeerId) (text : String) : UnlinkCall userId h (.sendMessage peerId text)
  | commit : UnlinkCall userId h .commit
  | rollback : UnlinkCall userId h .rollback
  | close : UnlinkCall userId h .close

/-- When a permission event may make a call. -/
inductive TransitionCall (vkPeerId : PeerId) (state : BindingState) (h : CallHistory) : Call → Prop
  | look (hh : h = []) : TransitionCall vkPeerId state h (.userVkGetByPeerId vkPeerId)
  | set {b : UserVk} (hh : h = [⟨.userVkGetByPeerId vkPeerId, .ok (some b)⟩]) :
      TransitionCall vkPeerId state h (.userVkSetState b.id state)
  | log {action : LogAction} (haction : action ≠ .confirmation) (status : LogStatus) (details : Details) :
      TransitionCall vkPeerId state h (.logAction action status details)
  | commit : TransitionCall vkPeerId state h .commit
  | close : TransitionCall vkPeerId state h .close

section Operations
variable {userId : UUID} {h : CallHistory}

theorem ensureBinding_conforms (userId : UUID) :
    Conforms (IssueCall userId) (fun h r => ∀ b created, r = .ok (b, created) → Bound userId h b) []
      (ensureBinding userId) := by
  refine .perform_bind (.look (.inl rfl)) (fun found => ?_) (by simp)
  cases found with
  | some b =>
    rintro b' created ⟨⟩
    exact .found b
  | none =>
    refine ⟨.create rfl, fun reply => ?_⟩
    cases reply with
    | ok b =>
      rintro b' created ⟨⟩
      exact .created b
    | error e =>
      cases e with
      | alreadyExists message =>
        refine .perform_bind (.look (.inr ⟨message, rfl⟩)) (fun found => ?_) (by simp)
        cases found with
        | none => exact fun b created hr => by cases hr
        | some b =>
          rintro b' created ⟨⟩
          exact .raced b message
      | _ => exact fun b created hr => by cases hr

/-- Looking for a code goes on preparing. -/
theorem Preparing.cons {b : UserVk} {e : CallEvent} (hb : Preparing userId h b)
    (he : (∃ n, e.op = .choices n) ∨ (∃ code, e.op = .confirmationGetByCode code) ∨ e.op = .now) :
    Preparing userId (e :: h) b := by
  obtain ⟨later, n, earlier, rfl, hbound, hpending, hlater⟩ := hb
  exact ⟨e :: later, n, earlier, rfl, hbound, hpending, List.forall_mem_cons.mpr ⟨he, hlater⟩⟩

theorem createUniqueCode_conforms {b : UserVk} (codeLength attempts : Nat) (hb : Preparing userId h b) :
    Conforms (IssueCall userId) (fun h r => ∀ code, r = .ok code →
      Preparing userId h b ∧ ⟨.confirmationGetByCode code, .ok none⟩ ∈ h) h (createUniqueCode codeLength attempts) := by
  induction attempts generalizing h with
  | zero => exact fun code hr => by cases hr
  | succ attempts ih =>
    refine .bind (Q := fun h _ => Preparing userId h b) _ _ _ ?_ (fun h code hb => ?_)
      fun h e hb code hr => by cases hr
    · unfold generateCode
      split
      · exact hb
      · exact .perform_bind (.choices _ hb) (fun _ => hb.cons (.inl ⟨_, rfl⟩)) fun _ => hb.cons (.inl ⟨_, rfl⟩)
    · refine .perform_bind (.lookup code hb) (fun found => ?_) fun e code hr => by cases hr
      have hnext : Preparing userId (⟨.confirmationGetByCode code, .ok found⟩ :: h) b :=
        hb.cons (.inr (.inl ⟨code, rfl⟩))
      cases found with
      | none =>
        rintro code' ⟨⟩
        exact ⟨hnext, by simp⟩
      | some c => exact ih hnext

theorem issueConfirmation_conforms (settings : VkSettings) (userId : UUID) :
    Conforms (IssueCall userId) (fun _ _ => True) [] (issueConfirmation settings userId) := by
  refine .bind _ _ _ (ensureBinding_conforms userId) (fun h found hbound => ?_) fun _ _ _ => trivial
  obtain ⟨b, created⟩ := found
  have hb : Bound userId h b := hbound b created rfl
  dsimp only
  cases hstate : b.state with
  | active => exact .perform_bind (.log _ _) (fun _ => trivial) fun _ => trivial
  | blocked => exact .perform_bind (.log _ _) (fun _ => trivial) fun _ => trivial
  | pending =>
    refine .perform_bind (.invalidate hb hstate) (fun n => ?_) fun _ => trivial
    have hprep : Preparing userId (⟨.confirmationInvalidatePrevious b.id, .ok n⟩ :: h) b :=
      ⟨[], n, h, rfl, hb, hstate, by simp⟩
    refine .bind _ _ _ (createUniqueCode_conforms _ _ hprep) (fun h code hcode => ?_) fun _ _ _ => trivial
    obtain ⟨hprep, hnew⟩ := hcode code rfl
    refine .perform_bind (.now hprep) (fun t => ?_) fun _ => trivial
    refine .perform_bind (.createCode _ (hprep.cons (.inr (.inr rfl))) (List.mem_cons_of_mem _ hnew)) (fun c => ?_)
      fun _ => trivial
    exact .perform_bind (.log _ _) (fun _ => trivial) fun _ => trivial

theorem unlink_conforms (userId : UUID) : Conforms (UnlinkCall userId) (fun _ _ => True) [] (unlink userId) := by
  refine .perform_bind (.look rfl) (fun found => ?_) fun _ => trivial
  cases found with
  | none => exact .perform_bind (.log _ _) (fun _ => trivial) fun _ => trivial
  | some b =>
    refine .perform_bind (.invalidate rfl) (fun n => ?_) fun _ => trivial
    refine .perform_bind (.delete rfl) (fun done => ?_) fun _ => trivial
    refine .perform_bind (.log _ _) (fun row => ?_) fun _ => trivial
    refine .bind (Q := fun _ _ => True) _ _ _ ?_ (fun _ _ _ => trivial) fun _ _ _ => trivial
    cases b.vkPeerId with
    | none => trivial
    | some peerId =>
      rw [notifyUnlinked]
      split
      · trivial
      · refine .tryCatch (Q := fun _ _ => True) _ _ _
          (.perform_bind (.send _ _) (fun _ => trivial) fun _ => trivial) (fun _ _ _ => trivial) fun h e _ => ?_
        split <;> trivial

theorem transition_conforms (vkPeerId : PeerId) (state : BindingState) {action : LogAction}
    (haction : action ≠ .confirmation) :
    Conforms (TransitionCall vkPeerId state) (fun _ _ => True) [] (transition vkPeerId state action) := by
  refine .perform_bind (.look rfl) (fun found => ?_) fun _ => trivial
  cases found with
  | none => exact .perform_bind (.log haction _ _) (fun _ => trivial) fun _ => trivial
  | some b =>
    refine .perform_bind (.set rfl) (fun _ => ?_) fun _ => trivial
    exact .perform_bind (.log haction _ _) (fun _ => trivial) fun _ => trivial

end Operations

section Requests
variable (settings : VkSettings)

/-- What a request promises of each call. -/
def RequestCall : Request → CallHistory → Call → Prop
  | .ensureBinding userId | .issueConfirmation userId => IssueCall userId
  | .unlink userId => UnlinkCall userId
  | .confirm code vkPeerId sn dn => ConfirmCall settings code vkPeerId sn dn
  | .block vkPeerId => TransitionCall vkPeerId .blocked
  | .unblock vkPeerId => TransitionCall vkPeerId .active
  | .deliver command => DeliveryCall command

/-- What a request promises of its end: a confirmed answer is given after the code was
marked used and the transaction committed. -/
def RequestEnd : Request → CallHistory → Except Exn Answer → Prop
  | .confirm code vkPeerId sn dn, h, .ok (.confirmation (.ok result)) => result.status = .confirmed →
      ∃ c b, c.userVkId = result.userVkId ∧ Reached settings code vkPeerId sn dn h (.used c b) ∧
        ⟨.commit, .ok ()⟩ ∈ h
  | _, _, _ => True

theorem confirmRequest_conforms (code : Str) (vkPeerId : PeerId) (sn dn : Option String) :
    Conforms (RequestCall settings (.confirm code vkPeerId sn dn))
    (RequestEnd settings (.confirm code vkPeerId sn dn)) []
      ((Request.confirm code vkPeerId sn dn).prog settings) := by
  refine .bind _ _ _ (attemptDomain_conforms (confirm_conforms settings code vkPeerId sn dn)) (fun h r hend => ?_)
    fun _ _ _ => trivial
  obtain ⟨hend, hdomain, -⟩ := hend
  have hcommit : ConfirmCall settings code vkPeerId sn dn h .commit := by
    cases r with
    | ok result => exact .commit hend.1 fun _ => hend.2.1
    | error e => exact .commit hend.1 fun hhonest => hend.2 hhonest (hdomain e rfl)
  refine ⟨hcommit, fun reply => ?_⟩
  cases reply with
  | error e => exact ⟨.close, fun reply' => by cases reply' <;> trivial⟩
  | ok u =>
    refine ⟨.close, fun reply' => ?_⟩
    cases reply' with
    | error e => trivial
    | ok u' =>
      cases r with
      | error e => trivial
      | ok result =>
        intro hconfirmed
        obtain ⟨c, b, hid, later, earlier, rfl, hclosing, hused⟩ := hend.2.2 hconfirmed
        refine ⟨c, b, hid, ⟨⟨.close, _⟩ :: ⟨.commit, _⟩ :: later, earlier, rfl, ?_, hused⟩, by simp⟩
        simpa [Closing] using hclosing

private theorem transitionRequest_conforms (vkPeerId : PeerId) (state : BindingState) {action : LogAction}
    (haction : action ≠ .confirmation) : Conforms (TransitionCall vkPeerId state) (fun _ _ => True) []
      (do let done ← transition vkPeerId state action; botCommit; pure (Answer.transitioned done)) := by
  refine .bind _ _ _ (transition_conforms vkPeerId state haction) (fun h done _ => ?_) fun _ _ _ => trivial
  exact .bind _ _ _ (botCommit_conforms .commit fun _ => .close) (fun _ _ _ => trivial) fun _ _ _ => trivial

/-- Every request keeps to its order of calls. -/
theorem request_conforms (request : Request) :
    Conforms (RequestCall settings request) (RequestEnd settings request) [] (request.prog settings) := by
  cases request with
  | ensureBinding userId =>
    exact getSession_conforms (Q := fun _ _ => True)
      (.bind _ _ _ (ensureBinding_conforms userId) (fun _ _ _ => trivial) fun _ _ _ => trivial)
      (fun _ _ _ => .commit) (fun _ => .rollback) fun _ => .close
  | issueConfirmation userId =>
    exact getSession_conforms (Q := fun _ _ => True)
      (.bind _ _ _ (issueConfirmation_conforms settings userId) (fun _ _ _ => trivial) fun _ _ _ => trivial)
      (fun _ _ _ => .commit) (fun _ => .rollback) fun _ => .close
  | unlink userId =>
    exact getSession_conforms (Q := fun _ _ => True)
      (.bind _ _ _ (unlink_conforms userId) (fun _ _ _ => trivial) fun _ _ _ => trivial)
      (fun _ _ _ => .commit) (fun _ => .rollback) fun _ => .close
  | confirm code vkPeerId sn dn => exact confirmRequest_conforms settings code vkPeerId sn dn
  | block vkPeerId => exact transitionRequest_conforms vkPeerId .blocked (by decide)
  | unblock vkPeerId => exact transitionRequest_conforms vkPeerId .active (by decide)
  | deliver command =>
    exact .bind _ _ _ (handleCommand_conforms command) (fun _ _ _ => trivial) fun _ _ _ => trivial

section Calls
variable {settings} {request : Request} {h : CallHistory}

/-- Only a confirmation activates a binding, the one of the code it has checked. -/
theorem RequestCall.activation {x : UUID} {vkPeerId : PeerId} {sn dn : Option String}
    (hcall : RequestCall settings request h (.userVkActivate x vkPeerId sn dn)) :
    ∃ code sn' dn' c b, request = .confirm code vkPeerId sn' dn' ∧ c.userVkId = x ∧
      ConfirmAt settings code vkPeerId sn' dn' h (.free c b) := by
  cases request with
  | confirm code vkPeerId' sn' dn' =>
    obtain ⟨c, b, hid, rfl, hat⟩ := ConfirmCall.activating hcall
    exact ⟨code, sn', dn', c, b, rfl, hid, hat⟩
  | _ => cases hcall

/-- Only a permission event sets a state, that of the binding it has found by its peer. -/
theorem RequestCall.stateSetting {x : UUID} {state : BindingState}
    (hcall : RequestCall settings request h (.userVkSetState x state)) :
    ∃ vkPeerId b, (request = .block vkPeerId ∨ request = .unblock vkPeerId) ∧ b.id = x ∧
      h = [⟨.userVkGetByPeerId vkPeerId, .ok (some b)⟩] := by
  cases request with
  | block vkPeerId =>
    cases hcall with
    | set hh => exact ⟨vkPeerId, _, .inl rfl, rfl, hh⟩
  | unblock vkPeerId =>
    cases hcall with
    | set hh => exact ⟨vkPeerId, _, .inr rfl, rfl, hh⟩
  | _ => cases hcall

/-- Only a delivery claims and marks pairs. -/
theorem RequestCall.delivering {ev u : UUID} {c : Call}
    (hc : (∃ vkPeerId, c = .claimAttempt ev u vkPeerId) ∨ MarksOf ev u c) (hcall : RequestCall settings request h c) :
    ∃ command, request = .deliver command ∧ DeliveryCall command h c := by
  cases request with
  | deliver command => exact ⟨command, rfl, hcall⟩
  | _ => rcases hc with ⟨vkPeerId, rfl⟩ | rfl | ⟨category, rfl⟩ <;> cases hcall

end Calls

/-- Codes are created by `issue_confirmation` only. -/
theorem request_issues (request : Request) :
    Conforms (fun _ c => ∀ userVkId code exp, c = .confirmationCreate userVkId code exp →
      ∃ userId, request = .issueConfirmation userId) (fun _ _ => True) [] (request.prog settings) := by
  cases request with
  | ensureBinding userId =>
    refine getSession_conforms (Q := fun _ _ => True)
      (.bind (Q := fun _ _ => True) _ _ _ ?_ (fun _ _ _ => trivial) fun _ _ _ => trivial)
      (fun _ _ _ => by simp) (fun _ => by simp) fun _ => by simp
    refine .perform_bind (by simp) (fun found => ?_) fun _ => trivial
    cases found with
    | some b => trivial
    | none =>
      refine .tryCatch (Q := fun _ _ => True) _ _ _ (.perform_bind (by simp) (fun _ => trivial) fun _ => trivial)
        (fun _ _ _ => trivial) fun h e _ => ?_
      cases e with
      | alreadyExists message =>
        refine .perform_bind (by simp) (fun found => ?_) fun _ => trivial
        cases found <;> trivial
      | _ => trivial
  | issueConfirmation userId =>
    exact .mono (fun _ _ _ _ _ _ _ => ⟨userId, rfl⟩) (fun _ _ _ => trivial) _ _ (request_conforms settings _)
  | _ =>
    refine .mono (fun _ _ hcall _ _ _ hc => ?_) (fun _ _ _ => trivial) _ _ (request_conforms settings _)
    subst hc
    cases hcall

end Requests
end VkService
