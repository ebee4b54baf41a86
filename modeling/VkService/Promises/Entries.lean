import VkService.Promises.Messages
import VkService.Promises.Ensure
import VkService.Sequential.ConfirmRun

/-! What a session enters in the journal. An entry is lost when its transaction is rolled back,
also by a repository that has met a taken key; the commit saves what is left. -/
namespace VkService
open PyStr Effects Effects.Prog

/-- The journal row that a call has written. -/
def CallEvent.entry : CallEvent → List VkLog
  | ⟨.logAction action status details, .ok l⟩ => [⟨action, status, details, l.createdAt⟩]
  | _ => []

def CallEvent.commits : CallEvent → Bool
  | ⟨.commit, .ok _⟩ => true
  | _ => false

/-- The transaction holds nothing any more. -/
def CallEvent.clears : CallEvent → Bool
  | ⟨.commit, .ok _⟩ => true
  | ⟨.rollback, _⟩ => true
  | ⟨.close, _⟩ => true
  | ⟨.userVkCreate _, .error (.alreadyExists _)⟩ => true
  | ⟨.userVkActivate .., .error (.alreadyExists _)⟩ => true
  | _ => false

/-- The journal rows that the open transaction holds. -/
def unsaved : CallHistory → List VkLog
  | [] => []
  | e :: h => if CallEvent.clears e then [] else unsaved h ++ CallEvent.entry e

/-- The journal rows that the session has committed. -/
def saved : CallHistory → List VkLog
  | [] => []
  | e :: h => if CallEvent.commits e then saved h ++ unsaved h else saved h

def Call.journals : Call → Bool
  | .logAction .. => true
  | _ => false

section Histories
variable {e : CallEvent} {h : CallHistory}

theorem entry_eq_nil (he : e.op.journals = false) : e.entry = [] := by
  obtain ⟨c, r⟩ := e
  cases c with
  | logAction => cases he
  | _ => rfl

theorem unsaved_quiet (he : e.op.journals = false) (h0 : unsaved h = []) : unsaved (e :: h) = [] := by
  rw [unsaved, h0, entry_eq_nil he]
  split <;> rfl

theorem unsaved_kept (he : e.op.journals = false) (hc : e.clears = false) : unsaved (e :: h) = unsaved h := by
  rw [unsaved, entry_eq_nil he, if_neg (by simp [hc]), List.append_nil]

theorem unsaved_log {action : LogAction} {status : LogStatus} {details : Details} {l : VkLog} (h0 : unsaved h = []) :
    unsaved (⟨.logAction action status details, .ok l⟩ :: h) = [⟨action, status, details, l.createdAt⟩] := by
  show unsaved h ++ _ = _
  rw [h0]
  rfl

theorem saved_eq_nil (hnone : ⟨.commit, .ok ()⟩ ∉ h) : saved h = [] := by
  induction h with
  | nil => rfl
  | cons e h ih =>
    rw [List.mem_cons, not_or] at hnone
    rw [saved, ih hnone.2, if_neg]
    rintro hcommits
    obtain ⟨c, r⟩ := e
    cases c with
    | commit =>
      cases r with
      | ok => exact hnone.1 rfl
      | error => cases hcommits
    | _ => cases hcommits

end Histories

/-! The entries behind the answers -/

inductive IssueEntry (userId : UUID) : IssuedConfirmation → List VkLog → Prop
  | issued (i : IssuedConfirmation) (recordId : UUID) (at' : Time) : IssueEntry userId i [⟨.issue, .success,
      [("user_id", toString userId), ("user_vk_id", toString recordId), ("code", maskCode i.code)], at'⟩]

inductive UnlinkEntry (userId : UUID) : Bool → List VkLog → Prop
  | nothing (at' : Time) : UnlinkEntry userId false [⟨.unlink, .noop, [("user_id", toString userId)], at'⟩]
  | removed (b : UserVk) (at' : Time) : UnlinkEntry userId true [⟨.unlink, .success,
      [("user_id", toString userId), ("user_vk_id", toString b.id), ("previous_state", b.state.text)], at'⟩]

inductive TransitionEntry (vkPeerId : PeerId) (state : BindingState) (action : LogAction) : Bool → List VkLog → Prop
  | nothing (at' : Time) : TransitionEntry vkPeerId state action false
      [⟨action, .noBinding, [("vk_peer_id", toString vkPeerId)], at'⟩]
  | changed (b : UserVk) (at' : Time) : TransitionEntry vkPeerId state action true [⟨action, .success,
      [("vk_peer_id", toString vkPeerId), ("user_vk_id", toString b.id), ("previous_state", b.state.text),
        ("state", state.text)], at'⟩]

/-- One row for the exit that the confirmation has taken. -/
def ConfirmEntry (code : Str) (vkPeerId : PeerId) (r : Except Exn ConfirmationResult) (ls : List VkLog) : Prop :=
  ∃ (e : ConfirmExit) (at' : Time), r = e.result ∧ ls = [⟨.confirmation, e.status,
    ("vk_peer_id", toString vkPeerId) :: e.details (maskCode (normalizeCode code)), at'⟩]

/-- What a request has entered in the journal when it gives an answer. -/
inductive Request.Records : Request → Answer → List VkLog → Prop
  | ensureBinding (userId : UUID) (row : UserVk) (created : Bool) :
      Request.Records (.ensureBinding userId) (.binding row created) []
  | issueConfirmation {userId : UUID} {i : IssuedConfirmation} {ls : List VkLog} (hentry : IssueEntry userId i ls) :
      Request.Records (.issueConfirmation userId) (.issued i) ls
  | unlink {userId : UUID} {done : Bool} {ls : List VkLog} (hentry : UnlinkEntry userId done ls) :
      Request.Records (.unlink userId) (.unlinked done) ls
  | confirm {code : Str} {vkPeerId : PeerId} {r : Except Exn ConfirmationResult} {ls : List VkLog}
      (sn dn : Option String) (hentry : ConfirmEntry code vkPeerId r ls) :
      Request.Records (.confirm code vkPeerId sn dn) (.confirmation r) ls
  | block {vkPeerId : PeerId} {done : Bool} {ls : List VkLog}
      (hentry : TransitionEntry vkPeerId .blocked .deny done ls) :
      Request.Records (.block vkPeerId) (.transitioned done) ls
  | unblock {vkPeerId : PeerId} {done : Bool} {ls : List VkLog}
      (hentry : TransitionEntry vkPeerId .active .allow done ls) :
      Request.Records (.unblock vkPeerId) (.transitioned done) ls
  | deliver (command : NotificationCommandSendVkData) : Request.Records (.deliver command) .delivered []

/-- What a message has entered in the journal when it has an outcome. -/
inductive MessageEntry (linkCommand : Str) (peerId fromId : PeerId) (text : Str) : Outcome → List VkLog → Prop
  | ignoredChat (hchat : isChatPeer peerId = true)
      (at' : Time) : MessageEntry linkCommand peerId fromId text .ignoredChat
      [⟨.message, .ignoredChat, [("vk_peer_id", toString peerId)], at'⟩]
  | unknownCommand (hprivate : isChatPeer peerId = false) (hparse : parseLinkCommand text linkCommand = none)
      (at' : Time) :
      MessageEntry linkCommand peerId fromId text .unknownCommand
        [⟨.message, .unknownCommand, [("vk_peer_id", toString peerId)], at'⟩]
  | missingCode (hprivate : isChatPeer peerId = false) (hparse : parseLinkCommand text linkCommand = some [])
      (at' : Time) :
      MessageEntry linkCommand peerId fromId text .missingCode
        [⟨.message, .missingCode, [("vk_peer_id", toString peerId)], at'⟩]
  | confirmation (hprivate : isChatPeer peerId = false) {code : Str} (hcode : code ≠ [])
      (hparse : parseLinkCommand text linkCommand = some code) {r : Except Exn ConfirmationResult} {ls : List VkLog}
      (hentry : ConfirmEntry code fromId r ls) : MessageEntry linkCommand peerId fromId text (confirmOutcome r).1 ls

section Bodies
variable {α β : Type} {h : CallHistory} {F : Except Exn α → List VkLog → Prop}

/-- How a body leaves its entries to the session around it. -/
def Enters (F : Except Exn α → List VkLog → Prop) (h : CallHistory) (r : Except Exn α) : Prop :=
    Honest h → F r (unsaved h)

/-- Nothing is said about an exception that comes from a call. -/
def SparesCalls (F : Except Exn α → List VkLog → Prop) : Prop := ∀ e ls, e.isOwn = false → F (.error e) ls

/-- A call that writes no entry. -/
theorem quiet_step {c : Call} {f : c.Reply → Py α} (hF : SparesCalls F) (hends : c.ends = false)
    (hc : c.journals = false) (h0 : unsaved h = [])
    (hok : ∀ a, unsaved (⟨c, .ok a⟩ :: h) = [] → Conforms (fun _ c => c.ends = false) (Enters F) (⟨c, .ok a⟩ :: h) (f a)) :
    Conforms (fun _ c => c.ends = false) (Enters F) h (await c >>= f) :=
  .perform_bind hends (fun a => hok a (unsaved_quiet hc h0)) fun e hhonest => hF e _ ((honest_cons.mp hhonest).1 e rfl)

/-- One that does. -/
theorem log_step {action : LogAction} {status : LogStatus} {details : Details} {r : Except Exn α} (hF : SparesCalls F)
    (h0 : unsaved h = []) (hr : ∀ at', F r [⟨action, status, details, at'⟩]) :
    Conforms (fun _ c => c.ends = false) (Enters F) h
      (do let _ ← await (.logAction action status details); ofExcept r) := by
  refine .perform_bind rfl (fun l => ?_) fun e hhonest => hF e _ ((honest_cons.mp hhonest).1 e rfl)
  cases r with
  | ok a => exact fun _ => unsaved_log h0 ▸ hr l.createdAt
  | error e => exact fun _ => unsaved_log h0 ▸ hr l.createdAt

theorem logConfirmation_step {status : LogStatus} {vkPeerId : PeerId} {details : Details} {r : Except Exn α}
    (hF : SparesCalls F) (h0 : unsaved h = [])
    (hr : ∀ at', F r [⟨.confirmation, status, ("vk_peer_id", toString vkPeerId) :: details, at'⟩]) :
    Conforms (fun _ c => c.ends = false) (Enters F) h (do logConfirmation status vkPeerId details; ofExcept r) := by
  obtain ⟨hop, hreply⟩ := log_step (r := r) hF h0 hr
  refine ⟨hop, fun reply => ?_⟩
  have hreply := hreply reply
  cases reply <;> exact hreply

end Bodies

section Operations
variable {h : CallHistory}

theorem ensureBinding_quiet (userId : UUID) :
    Conforms (fun _ c => c.ends = false) (fun h _ => unsaved h = []) [] (ensureBinding userId) := by
  refine .perform_bind rfl (fun found => ?_) fun e => unsaved_quiet rfl rfl
  cases found with
  | some b => exact unsaved_quiet rfl rfl
  | none =>
    have hlooked := unsaved_quiet (e := ⟨.userVkGetByUserId userId, .ok none⟩) (h := []) rfl rfl
    refine ⟨rfl, fun reply => ?_⟩
    have hcreated := unsaved_quiet (e := ⟨.userVkCreate userId, reply⟩) rfl hlooked
    cases reply with
    | ok b => exact hcreated
    | error e =>
      cases e with
      | alreadyExists message =>
        refine .perform_bind rfl (fun found => ?_) fun e => unsaved_quiet rfl hcreated
        cases found with
        | none => exact unsaved_quiet rfl hcreated
        | some b => exact unsaved_quiet rfl hcreated
      | _ => exact hcreated

theorem createUniqueCode_quiet (codeLength attempts : Nat) (h0 : unsaved h = []) :
    Conforms (fun _ c => c.ends = false) (fun h _ => unsaved h = []) h (createUniqueCode codeLength attempts) := by
  induction attempts generalizing h with
  | zero => exact h0
  | succ attempts ih =>
    refine .bind (Q := fun h _ => unsaved h = []) _ _ _ ?_ (fun h code h0 => ?_) fun _ _ h0 => h0
    · unfold generateCode
      split
      · exact h0
      · exact .perform_bind rfl (fun _ => unsaved_quiet rfl h0) fun _ => unsaved_quiet rfl h0
    · refine .perform_bind rfl (fun found => ?_) fun _ => unsaved_quiet rfl h0
      cases found with
      | none => exact unsaved_quiet rfl h0
      | some c => exact ih (unsaved_quiet rfl h0)

/-- A returned operation is recorded by `R`, whatever it may raise. -/
def Recorded {α : Type} (R : α → List VkLog → Prop) (r : Except Exn α) (ls : List VkLog) : Prop :=
    ∀ a, r = .ok a → R a ls

theorem sparesCalls_recorded {α : Type} (R : α → List VkLog → Prop) : SparesCalls (Recorded R) :=
  fun _ _ _ _ hr => by cases hr

theorem recorded_error {α : Type} {R : α → List VkLog → Prop} (e : Exn) (ls : List VkLog) : Recorded R (.error e) ls :=
  fun _ hr => by cases hr

theorem issueConfirmation_enters (settings : VkSettings) (userId : UUID) :
    Conforms (fun _ c => c.ends = false) (Enters (Recorded (IssueEntry userId))) []
    (issueConfirmation settings userId) := by
  have hF := sparesCalls_recorded (IssueEntry userId)
  refine .bind _ _ _ (ensureBinding_quiet userId) (fun h found h0 => ?_) fun h e h0 _ => recorded_error e _
  obtain ⟨b, created⟩ := found
  dsimp only
  cases b.state with
  | active => exact log_step (r := .error _) hF h0 fun _ => recorded_error _ _
  | blocked => exact log_step (r := .error _) hF h0 fun _ => recorded_error _ _
  | pending =>
    refine quiet_step hF rfl rfl h0 fun n h0 => ?_
    refine .bind _ _ _ (createUniqueCode_quiet _ _ h0) (fun h code h0 => ?_) fun h e h0 _ => recorded_error e _
    refine quiet_step hF rfl rfl h0 fun now h0 => ?_
    refine quiet_step hF rfl rfl h0 fun confirmation h0 => ?_
    refine log_step (r := .ok _) hF h0 fun at' i hi => ?_
    obtain rfl := Except.ok.inj hi
    exact .issued _ b.id at'

theorem notifyUnlinked_keeps (previousState : BindingState) (peer? : Option PeerId) (ls : List VkLog)
    (hls : unsaved h = ls) : Conforms (fun _ c => c.ends = false) (fun h _ => unsaved h = ls) h
      (notifyUnlinked previousState peer?) := by
  cases peer? with
  | none => exact hls
  | some peerId =>
    rw [notifyUnlinked]
    split
    · exact hls
    · refine .tryCatch (Q := fun h _ => unsaved h = ls) _ _ _
        (.perform_bind rfl (fun _ => (unsaved_kept rfl rfl).trans hls)
        fun _ => (unsaved_kept rfl rfl).trans hls) (fun _ _ hls => hls) fun h e hls => ?_
      split <;> exact hls

theorem unlink_enters (userId : UUID) :
    Conforms (fun _ c => c.ends = false) (Enters (Recorded (UnlinkEntry userId))) [] (unlink userId) := by
  have hF := sparesCalls_recorded (UnlinkEntry userId)
  refine quiet_step hF rfl rfl rfl fun found h0 => ?_
  cases found with
  | none =>
    refine log_step (r := .ok false) hF h0 fun at' done hdone => ?_
    obtain rfl := Except.ok.inj hdone
    exact .nothing at'
  | some b =>
    refine quiet_step hF rfl rfl h0 fun n h0 => ?_
    refine quiet_step hF rfl rfl h0 fun done h0 => ?_
    refine .perform_bind rfl (fun l => ?_) fun e _ => recorded_error e _
    refine .bind _ _ _ (notifyUnlinked_keeps b.state b.vkPeerId _ rfl) (fun h u hls _ done hdone => ?_)
      fun h e _ _ => recorded_error e _
    obtain rfl := Except.ok.inj hdone
    rw [hls]
    exact UnlinkEntry.removed b l.createdAt

theorem transition_enters (vkPeerId : PeerId) (state : BindingState) (action : LogAction) :
    Conforms (fun _ c => c.ends = false) (Enters (Recorded (TransitionEntry vkPeerId state action))) []
      (transition vkPeerId state action) := by
  have hF := sparesCalls_recorded (TransitionEntry vkPeerId state action)
  refine quiet_step hF rfl rfl rfl fun found h0 => ?_
  cases found with
  | none =>
    refine log_step (r := .ok false) hF h0 fun at' done hdone => ?_
    obtain rfl := Except.ok.inj hdone
    exact .nothing at'
  | some b =>
    refine quiet_step hF rfl rfl h0 fun n h0 => ?_
    refine log_step (r := .ok true) hF h0 fun at' done hdone => ?_
    obtain rfl := Except.ok.inj hdone
    exact .changed b at'

end Operations

section Confirm
variable {h : CallHistory} {code : Str} {vkPeerId : PeerId}

/-- A confirmation that has ended, by a result or by an exception of its own, is recorded. -/
def Decided (code : Str) (vkPeerId : PeerId) (r : Except Exn ConfirmationResult) (ls : List VkLog) : Prop :=
  (∀ e, r = .error e → e.isOwn = true) → ConfirmEntry code vkPeerId r ls

theorem sparesCalls_decided : SparesCalls (Decided code vkPeerId) := by
  intro e ls he hown
  rw [hown e rfl] at he
  cases he

theorem decided_exit (e : ConfirmExit) (at' : Time) : Decided code vkPeerId e.result
    [⟨.confirmation, e.status, ("vk_peer_id", toString vkPeerId) :: e.details (maskCode (normalizeCode code)), at'⟩] :=
  fun _ => ⟨e, at', rfl, rfl⟩

/-- How the limit leaves the journal to what comes after it. -/
def LimitEnters (code : Str) (vkPeerId : PeerId) (h : CallHistory) : Except Exn Unit → Prop
  | .ok _ => unsaved h = []
  | .error e => Enters (Decided code vkPeerId) h (.error e)

theorem enforceRateLimit_enters (settings : VkSettings) (code : Str) (vkPeerId : PeerId) (h0 : unsaved h = []) :
    Conforms (fun _ c => c.ends = false) (LimitEnters code vkPeerId) h
      (enforceRateLimit settings vkPeerId (maskCode (normalizeCode code))) := by
  have hfails : ∀ {c : Call} {h e}, LimitEnters code vkPeerId (⟨c, .error e⟩ :: h) (.error e) :=
    fun hhonest => sparesCalls_decided _ _ ((honest_cons.mp hhonest).1 _ rfl)
  refine .perform_bind rfl (fun now => ?_) fun e => hfails
  refine .perform_bind rfl (fun n => ?_) fun e => hfails
  have h0 : unsaved (⟨.countFailedSince .confirmation vkPeerId
      (now - minutes settings.vkConfirmationAttemptWindowMinutes) failedStatuses, .ok n⟩ :: ⟨.now, .ok now⟩ :: h) = [] :=
    unsaved_quiet rfl (unsaved_quiet rfl h0)
  split
  · refine ⟨rfl, fun reply => ?_⟩
    cases reply with
    | ok l => exact fun _ => unsaved_log h0 ▸ decided_exit .rateLimited l.createdAt
    | error e => exact hfails
  · exact h0

theorem activateConfirmed_enters {c : VkConfirmation} {b : UserVk} (sn dn : Option String) (h0 : unsaved h = []) :
    Conforms (fun _ c => c.ends = false) (Enters (Decided code vkPeerId)) h
      (activateConfirmed c b (maskCode (normalizeCode code)) vkPeerId sn dn) := by
  have hF := @sparesCalls_decided code vkPeerId
  refine ⟨rfl, fun reply => ?_⟩
  have hactivated := unsaved_quiet (e := ⟨.userVkActivate c.userVkId vkPeerId sn dn, reply⟩) rfl h0
  cases reply with
  | error e =>
    cases e with
    | alreadyExists message =>
      obtain ⟨hop, hreply⟩ := logConfirmation_step (r := .error (.conflict peerTakenMessage)) hF hactivated
        (decided_exit (.peerConflict c))
      refine ⟨hop, fun reply => ?_⟩
      have hreply := hreply reply
      cases reply <;> exact hreply
    | _ => exact fun hhonest => hF _ _ ((honest_cons.mp hhonest).1 _ rfl)
  | ok row =>
    refine quiet_step (f := fun _ => do logConfirmation _ vkPeerId _; ofExcept (.ok _)) hF rfl rfl hactivated fun u h0 => ?_
    exact logConfirmation_step (r := .ok _) hF h0 (decided_exit (.confirmed c b))

theorem confirm_enters (settings : VkSettings) (code : Str) (vkPeerId : PeerId) (sn dn : Option String)
    (h0 : unsaved h = []) : Conforms (fun _ c => c.ends = false) (Enters (Decided code vkPeerId)) h
      (confirm settings code vkPeerId sn dn) := by
  have hF := @sparesCalls_decided code vkPeerId
  refine .bind _ _ _ (enforceRateLimit_enters settings code vkPeerId h0) (fun h _ h0 => ?_) fun _ _ hfailed => hfailed
  refine quiet_step hF rfl rfl h0 fun found h0 => ?_
  cases found with
  | none => exact logConfirmation_step (r := .error _) hF h0 (decided_exit .notFound)
  | some c =>
    refine quiet_step hF rfl rfl h0 fun b h0 => ?_
    split
    · split
      · exact logConfirmation_step (r := .ok _) hF h0 (decided_exit (.alreadyConfirmed c _))
      · exact logConfirmation_step (r := .error _) hF h0 (decided_exit (.used c))
    · refine quiet_step hF rfl rfl h0 fun now h0 => ?_
      split
      · exact logConfirmation_step (r := .error _) hF h0 (decided_exit (.expired c))
      · cases b with
        | none => exact logConfirmation_step (r := .error _) hF h0 (decided_exit (.bindingMissing c))
        | some b =>
          dsimp only
          split
          · exact logConfirmation_step (r := .error _) hF h0 (decided_exit (.bindingMissing c))
          · refine quiet_step hF rfl rfl h0 fun occupied h0 => ?_
            split
            · exact logConfirmation_step (r := .error _) hF h0 (decided_exit (.peerConflict c))
            · exact activateConfirmed_enters sn dn h0

/-- The bot takes the domain errors of a confirmation as answers. -/
theorem attemptConfirm_enters (settings : VkSettings) (code : Str) (vkPeerId : PeerId) (sn dn : Option String)
    (h0 : unsaved h = []) : Conforms (fun _ c => c.ends = false) (Enters (Recorded (ConfirmEntry code vkPeerId))) h
      (attemptDomain (confirm settings code vkPeerId sn dn)) := by
  refine .mono (fun _ _ hc => hc) (fun h r hend hhonest a ha => ?_) _ _
    (attemptDomain_conforms (confirm_enters settings code vkPeerId sn dn h0))
  subst ha
  exact hend.1 hhonest fun e he => Exn.isOwn_of_isDomain (hend.2.1 e (congrArg _ he))

end Confirm

section Sessions
variable {α β : Type} {h : CallHistory} {c : Call} {R : α → List VkLog → Prop} {R' : β → List VkLog → Prop}

/-- A session commits once, and what it commits records an answer. -/
def CommitsRecorded (R : α → List VkLog → Prop) (h : CallHistory) (c : Call) : Prop :=
  c = .commit → ⟨.commit, .ok ()⟩ ∉ h ∧ (Honest h → ∃ a, R a (unsaved h))

/-- An answer is recorded in what the session has committed. -/
def AnswersRecorded (R : α → List VkLog → Prop) (h : CallHistory) (r : Except Exn α) : Prop :=
  Honest h → ∀ a, r = .ok a → R a (saved h)

theorem commitsRecorded_of_ne (hc : c ≠ .commit) : CommitsRecorded R h c := fun heq => absurd heq hc

theorem commitsRecorded_of_running (hc : c.ends = false) : CommitsRecorded R h c := by
  refine commitsRecorded_of_ne fun heq => ?_
  subst heq
  cases hc

theorem answersRecorded_error (e : Exn) : AnswersRecorded R h (.error e) := fun _ _ hr => by cases hr

theorem saved_commit (hnone : ⟨.commit, .ok ()⟩ ∉ h) : saved (⟨.commit, .ok ()⟩ :: h) = unsaved h := by
  show saved h ++ unsaved h = _
  rw [saved_eq_nil hnone, List.nil_append]

/-- What is committed records an answer, before the session has given it. -/
theorem recorded_of_committed (ht : Traced (CommitsRecorded R) h) (hhonest : Honest h)
    (hcommit : ⟨.commit, .ok ()⟩ ∈ h) :
    ∃ a, R a (saved h) := by
  induction ht with
  | nil => cases hcommit
  | @cons h c r ht hop ih =>
    have hearlier := (honest_cons.mp hhonest).2
    by_cases hc : (⟨c, r⟩ : CallEvent) = ⟨.commit, .ok ()⟩
    · cases hc
      obtain ⟨hnone, hentered⟩ := hop rfl
      rw [saved_commit hnone]
      exact hentered hearlier
    · have hkept : saved (⟨c, r⟩ :: h) = saved h := by
        rw [saved, if_neg]
        intro hcommits
        cases c with
        | commit =>
          cases r with
          | ok => exact hc rfl
          | error => cases hcommits
        | _ => cases hcommits
      rw [hkept]
      exact ih hearlier ((List.mem_cons.mp hcommit).resolve_left (Ne.symm hc))

/-- A body, which ends nothing, has committed nothing. -/
theorem body_uncommitted {Q : CallHistory → Except Exn α → Prop} {body : Py α} (hnone : ⟨.commit, .ok ()⟩ ∉ h)
    (hbody : Conforms (fun _ c => c.ends = false) Q h body) :
    Conforms (CommitsRecorded R') (fun h r => Q h r ∧ ⟨.commit, .ok ()⟩ ∉ h) h body := by
  refine .mono (fun _ _ hc => commitsRecorded_of_running hc) (fun _ _ hQ => hQ) _ _
    (.keeps (J := fun h => ⟨.commit, .ok ()⟩ ∉ h) (fun h c r hJ hc => ?_) hnone hbody)
  rw [List.mem_cons, not_or]
  refine ⟨fun heq => ?_, hJ⟩
  cases heq
  cases hc

theorem enters_map {body : Py α} (f : α → β) (hR : ∀ a ls, R a ls → R' (f a) ls)
    (hbody : Conforms (fun _ c => c.ends = false) (Enters (Recorded R)) h body) :
    Conforms (fun _ c => c.ends = false) (Enters (Recorded R')) h (do let a ← body; pure (f a)) := by
  refine .bind _ _ _ hbody (fun h a hentered hhonest b hb => ?_) fun _ e _ _ => recorded_error e _
  cases hb
  exact hR a _ (hentered hhonest a rfl)

/-- What is made of an answer is recorded with it. -/
theorem records_map {p : Py α} (f : α → β) (hR : ∀ a ls, R a ls → R' (f a) ls)
    (hp : Conforms (CommitsRecorded R) (AnswersRecorded R) h p) :
    Conforms (CommitsRecorded R') (AnswersRecorded R') h (do let a ← p; pure (f a)) := by
  have hcommits : ∀ h c, CommitsRecorded R h c → CommitsRecorded R' h c := fun h c hc heq =>
    ⟨(hc heq).1, fun hhonest => ((hc heq).2 hhonest).imp' f fun a => hR a _⟩
  refine .bind _ _ _ (.mono hcommits (fun _ _ hQ => hQ) _ _ hp) (fun h a hsaved hhonest b hb => ?_)
    fun _ e _ => answersRecorded_error e
  cases hb
  exact hR a _ (hsaved hhonest a rfl)

/-- `get_session` commits the entries behind what its body has returned. -/
theorem getSession_records {body : Py α} (hbody : Conforms (fun _ c => c.ends = false) (Enters (Recorded R)) [] body) :
    Conforms (CommitsRecorded R) (AnswersRecorded R) [] (getSession body) := by
  refine withSession_conforms (Q := AnswersRecorded R) ?_ (fun _ _ _ => commitsRecorded_of_ne nofun)
    (fun _ _ hQ hhonest => hQ (honest_cons.mp hhonest).2) fun _ _ e _ => answersRecorded_error e
  refine .tryCatch (Q := AnswersRecorded R) _ _ _ ?_ (fun _ _ hQ => hQ) fun h e hQ => ?_
  · refine .bind _ _ _ (body_uncommitted nofun hbody) (fun h a hend => ?_) fun _ e _ => answersRecorded_error e
    refine .perform_bind (fun _ => ⟨hend.2, fun hhonest => ⟨a, hend.1 hhonest a rfl⟩⟩) (fun _ hhonest b hb => ?_)
      fun e => answersRecorded_error e
    cases hb
    rw [saved_commit hend.2]
    exact hend.1 (honest_cons.mp hhonest).2 a rfl
  · split
    · exact .perform_bind (commitsRecorded_of_ne nofun) (fun _ => answersRecorded_error e) fun e =>
        answersRecorded_error e
    · exact answersRecorded_error e

/-- So does the bot, before it goes on. -/
theorem botCommit_records {a : α} (hnone : ⟨.commit, .ok ()⟩ ∉ h) (hentered : Honest h → R a (unsaved h)) :
    Conforms (CommitsRecorded R) (fun h r => ∀ u, r = .ok u → Honest h → R a (saved h)) h botCommit := by
  refine .bind (Q := fun h' r => ∃ reply, r = .ok reply ∧ h' = ⟨.commit, reply⟩ :: h) _ _ _
    (.attempt (Q := fun h' r => h' = ⟨.commit, r⟩ :: h) _ _
      (.perform h (fun _ => ⟨hnone, fun hhonest => ⟨a, hentered hhonest⟩⟩) fun _ => rfl) fun _ r hr => ⟨r, rfl, hr⟩)
    (fun h' r hr => ?_) fun _ _ hr => by simp at hr
  obtain ⟨_, ⟨⟩, rfl⟩ := hr
  refine .perform_bind (commitsRecorded_of_ne nofun) (fun _ => ?_) fun e u hu => by cases hu
  cases r with
  | error e => exact fun u hu => by cases hu
  | ok u =>
    intro _ _ hhonest
    show R a (saved (⟨.commit, .ok ()⟩ :: h))
    rw [saved_commit hnone]
    exact hentered (honest_cons.mp (honest_cons.mp hhonest).2).2

theorem botSession_records {body : Py α} (f : α → β) (hR : ∀ a ls, R a ls → R' (f a) ls)
    (hbody : Conforms (fun _ c => c.ends = false) (Enters (Recorded R)) [] body) :
    Conforms (CommitsRecorded R') (AnswersRecorded R') [] (do let a ← body; botCommit; pure (f a)) := by
  refine .bind _ _ _ (body_uncommitted nofun hbody) (fun h a hend => ?_) fun _ e _ => answersRecorded_error e
  refine .bind _ _ _ (botCommit_records (a := f a) hend.2 fun hhonest => hR a _ (hend.1 hhonest a rfl))
    (fun h u hsaved hhonest b hb => ?_) fun _ e _ => answersRecorded_error e
  cases hb
  exact hsaved u rfl hhonest

/-- Nothing is entered by a delivery. -/
theorem handleCommand_records (command : NotificationCommandSendVkData) :
    Conforms (CommitsRecorded fun (_ : Unit) ls => ls = []) (AnswersRecorded fun _ ls => ls = []) []
    (handleCommand command) := by
  have hquiet := (handleCommand_conforms command).always (J := fun h => unsaved h = [] ∧ saved h = [])
    (fun h c r hJ hc => by
      have hjournals : c.journals = false := by cases c <;> first | rfl | cases hc
      refine ⟨unsaved_quiet hjournals hJ.1, ?_⟩
      rw [saved, hJ.1, hJ.2]
      split <;> rfl) ⟨rfl, rfl⟩
  refine .mono (fun h c hc heq => ?_) (fun h r hQ _ _ _ => hQ.2.2) _ _ hquiet
  subst heq
  exact ⟨fun hcommit => hc.1.1 ⟨_, hcommit, .inl rfl⟩, fun _ => ⟨(), hc.2.1⟩⟩

end Sessions

section Requests
variable (settings : VkSettings)

/-- Every request commits the entries behind its answer. -/
theorem request_records (request : Request) :
    Conforms (CommitsRecorded request.Records) (AnswersRecorded request.Records) [] (request.prog settings) := by
  cases request with
  | ensureBinding userId =>
    refine getSession_records (.bind _ _ _ (ensureBinding_quiet userId) (fun h found h0 _ a ha => ?_)
      fun _ e _ _ => recorded_error e _)
    cases ha
    rw [h0]
    exact .ensureBinding userId _ _
  | issueConfirmation userId =>
    exact getSession_records (enters_map Answer.issued (fun _ _ => .issueConfirmation)
      (issueConfirmation_enters settings userId))
  | unlink userId =>
    exact getSession_records (enters_map Answer.unlinked (fun _ _ => .unlink) (unlink_enters userId))
  | confirm code vkPeerId sn dn =>
    exact botSession_records Answer.confirmation (fun _ _ => .confirm sn dn)
      (attemptConfirm_enters settings code vkPeerId sn dn rfl)
  | block vkPeerId =>
    exact botSession_records Answer.transitioned (fun _ _ => .block) (transition_enters vkPeerId .blocked .deny)
  | unblock vkPeerId =>
    exact botSession_records Answer.transitioned (fun _ _ => .unblock) (transition_enters vkPeerId .active .allow)
  | deliver command =>
    refine records_map (fun _ => Answer.delivered) (fun _ ls hls => ?_) (handleCommand_records command)
    rw [hls]
    exact .deliver command

variable {peerId fromId : PeerId} {text : Str}

/-- A message that is no confirmation is entered, committed and answered, or ignored in a chat. -/
private theorem logged_records {R : Outcome → List VkLog → Prop} {action : LogAction} {status : LogStatus}
    {details : Details} {outcome : Outcome} {rest : Py Outcome} (hR : ∀ at', R outcome [⟨action, status, details, at'⟩])
    (hrest : ∀ h, (Honest h → R outcome (saved h)) → Conforms (CommitsRecorded R) (AnswersRecorded R) h rest) :
    Conforms (CommitsRecorded R) (AnswersRecorded R) []
    (do let _ ← await (.logAction action status details); botCommit; rest) := by
  refine .perform_bind (commitsRecorded_of_ne nofun) (fun l => ?_) fun e => answersRecorded_error e
  refine .bind _ _ _ (botCommit_records (by simp) fun _ => hR l.createdAt) (fun h u hsaved => ?_) fun _ e _ =>
    answersRecorded_error e
  exact hrest h (hsaved u rfl)

private theorem reply_records {R : Outcome → List VkLog → Prop} {outcome : Outcome} {reply : String} {h : CallHistory}
    (hsaved : Honest h → R outcome (saved h)) : Conforms (CommitsRecorded R) (AnswersRecorded R) h
      (do let _ ← await (.sendMessage peerId reply); pure outcome) := by
  refine .perform_bind (commitsRecorded_of_ne nofun) (fun _ hhonest a ha => ?_) fun e => answersRecorded_error e
  cases ha
  exact hsaved (honest_cons.mp hhonest).2

theorem confirmForReply_enters (fromId : PeerId) (code : Str) : Conforms (fun _ c => c.ends = false)
    (Enters (Recorded fun out ls => ∃ r, out = confirmOutcome r ∧ ConfirmEntry code fromId r ls)) []
    (confirmForReply settings fromId code) := by
  refine quiet_step (sparesCalls_recorded _) rfl rfl rfl fun profile h0 => ?_
  exact enters_map confirmOutcome (fun r ls hentry => ⟨r, rfl, hentry⟩)
    (attemptConfirm_enters settings code fromId _ _ h0)

/-- So does the handling of every message. -/
theorem handleMessage_records (peerId fromId : PeerId) (text : Str) :
    Conforms (CommitsRecorded (MessageEntry settings.vkBotLinkCommand peerId fromId text))
      (AnswersRecorded (MessageEntry settings.vkBotLinkCommand peerId fromId text)) []
      (handleMessage settings peerId fromId text) := by
  unfold handleMessage
  cases hchat : isChatPeer peerId with
  | true =>
    refine logged_records (.ignoredChat hchat) fun h hsaved hhonest a ha => ?_
    cases ha
    exact hsaved hhonest
  | false =>
    rw [if_neg (by simp)]
    split
    · rename_i hparse
      exact logged_records (.unknownCommand hchat hparse) fun h => reply_records
    · rename_i hparse
      exact logged_records (.missingCode hchat hparse) fun h => reply_records
    · rename_i code hcode hparse
      refine .bind _ _ _ (body_uncommitted nofun (confirmForReply_enters settings fromId code)) (fun h out hend => ?_)
        fun _ e _ => answersRecorded_error e
      refine .bind _ _ _ (botCommit_records (a := out.1) hend.2 fun hhonest => ?_)
        (fun h u hsaved => reply_records (hsaved u rfl))
        fun _ e _ => answersRecorded_error e
      obtain ⟨r, rfl, hentry⟩ := hend.1 hhonest out rfl
      exact .confirmation hchat hcode hparse hentry

end Requests
end VkService
