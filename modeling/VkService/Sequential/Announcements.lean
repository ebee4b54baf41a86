import VkService.Promises.Confirm
import VkService.Sequential.Faults
import VkService.Sequential.Messages

/-! The messages that tell a VK user of a change, and the commit of that change. The bot commits
before it replies, an unlink sends its notice from inside the transaction. -/
namespace VkService
open PyStr Effects Effects.Prog

/-- A call that changes rows. -/
def Call.writes (c : Call) : Bool := !c.reads && !c.ends

/-- A message that announces a change, and the call that has made the change. -/
inductive Announces : String → CallEvent → Prop
  | linked (recordId : UUID) (vkPeerId : PeerId) (sn dn : Option String) (row : UserVk) :
      Announces Replies.linked ⟨.userVkActivate recordId vkPeerId sn dn, .ok row⟩
  | unlinked (userId : UUID) (done : Bool) : Announces unlinkMessage ⟨.userVkSoftDelete userId, .ok done⟩

/-- The texts that announce a change. -/
def IsAnnouncement (text : String) : Prop := text = Replies.linked ∨ text = unlinkMessage

/-- The announced change is among what a commit has made permanent. -/
def ChangeCommitted (text : String) (h : CallHistory) : Prop :=
  ∃ since before change, h = since ++ ⟨.commit, .ok ()⟩ :: before ∧ change ∈ before ∧ Announces text change

/-- Whatever announces a change is sent after its commit, and no row is changed after that commit. -/
def AnnouncedAfterCommit (h : CallHistory) : Prop :=
  ∀ later p text answer earlier, h = later ++ ⟨.sendMessage p text, answer⟩ :: earlier → IsAnnouncement text →
    ∃ since before change, earlier = since ++ ⟨.commit, .ok ()⟩ :: before ∧ change ∈ before ∧ Announces text change ∧
      ∀ e ∈ later ++ since, e.op.writes = false

/-- A run in which calls may fail: its history and the committed tables. -/
def runFaulty {α : Type} (p : Py α) (o : Surroundings) (faults : Faults) (T : Tables) : CallHistory × Tables :=
  let out := p.run (faultyHandler faults fun h => o h.length) [] (Session.start T)
  (out.2.1, out.2.2.committed)

/-- When an operation that keeps the order may make a call. -/
structure OrderedCall (h : CallHistory) (c : Call) : Prop where
  running : c.writes = true → ⟨.commit, .ok ()⟩ ∉ h
  committed : ∀ p text, c = .sendMessage p text → IsAnnouncement text → ChangeCommitted text h

section Order
variable {h : CallHistory}

/-- Calls that were made in order keep the announcements behind their commits. -/
theorem announcedAfterCommit_of_traced (ht : Traced OrderedCall h) : AnnouncedAfterCommit h := by
  rintro later p text answer earlier rfl htext
  obtain ⟨since, before, change, rfl, hchange, hmade⟩ := ht.before.committed p text rfl htext
  refine ⟨since, before, change, rfl, hchange, hmade, fun e he => ?_⟩
  rw [Bool.eq_false_iff]
  intro hwrites
  -- the commit lies before a write, which a write does not allow
  have hsplit : ∃ newer older, later ++ ⟨.sendMessage p text, answer⟩ :: (since ++ ⟨.commit, .ok ()⟩ :: before) =
      newer ++ e :: older ∧ ⟨.commit, .ok ()⟩ ∈ older := by
    obtain he | he := List.mem_append.mp he
    · obtain ⟨l₁, l₂, rfl⟩ := List.append_of_mem he
      exact ⟨l₁, _, by rw [List.append_assoc, List.cons_append], by simp⟩
    · obtain ⟨l₁, l₂, rfl⟩ := List.append_of_mem he
      exact ⟨later ++ ⟨.sendMessage p text, answer⟩ :: l₁, l₂ ++ ⟨.commit, .ok ()⟩ :: before, by simp, by simp⟩
  obtain ⟨newer, older, heq, hmem⟩ := hsplit
  rw [heq] at ht
  exact ht.before.running hwrites hmem

theorem orderedCall_quiet {c : Call} (hwrites : c.writes = false) (hsend : c.isSend = false) : OrderedCall h c where
  running hw := by
    rw [hwrites] at hw
    cases hw
  committed p text heq _ := by
    subst heq
    cases hsend

theorem orderedCall_write {c : Call} (hrun : ¬ Ended h) (hsend : c.isSend = false) : OrderedCall h c where
  running _ hmem := hrun ⟨_, hmem, .inl rfl⟩
  committed p text heq _ := by
    subst heq
    cases hsend

theorem botCommit_ordered : Conforms OrderedCall
    (fun h' r => ∀ u, r = .ok u → h' = ⟨.close, .ok ()⟩ :: ⟨.commit, .ok ()⟩ :: h) h botCommit := by
  refine .bind (Q := fun h' r => ∃ reply, h' = ⟨.commit, reply⟩ :: h ∧ r = .ok reply) _ _ _
    (.attempt (Q := fun h' r => h' = ⟨.commit, r⟩ :: h) _ _
      (.perform h (orderedCall_quiet rfl rfl) fun _ => rfl) fun _ r hr => ⟨r, hr, rfl⟩)
    (fun h' r hr => ?_) fun _ _ hr => by simp at hr
  obtain ⟨reply, rfl, heq⟩ := hr
  obtain rfl : r = reply := by simpa using heq
  refine .perform_bind (orderedCall_quiet rfl rfl) (fun _ => ?_) fun e => by simp
  cases r with
  | ok u => exact fun _ _ => rfl
  | error e => exact fun _ he => by cases he

/-- A reply after the commit, if it announces something then what was committed. -/
theorem replyCommitted_ordered {α : Type} {peerId : PeerId} {reply : String} (a : α)
    (hmade : IsAnnouncement reply → ∃ change ∈ h, Announces reply change) :
    Conforms OrderedCall (fun _ _ => True) h (do
      botCommit
      let _ ← await (.sendMessage peerId reply)
      pure a) := by
  refine .bind _ _ _ botCommit_ordered (fun h' u hclosed => ?_) fun _ _ _ => trivial
  obtain rfl := hclosed u rfl
  refine .perform_bind ⟨fun hw => (nomatch hw), fun p text heq htext => ?_⟩ (fun _ => trivial) fun _ => trivial
  cases heq
  obtain ⟨change, hchange, hmade⟩ := hmade htext
  exact ⟨[⟨.close, .ok ()⟩], h, change, rfl, hchange, hmade⟩

theorem not_announcement_instruction (linkCommand : Str) : ¬ IsAnnouncement (Replies.instruction linkCommand) := by
  rintro (heq | heq)
  · exact instruction_ne_linked linkCommand heq
  · have hunlink : unlinkMessage.toList.head? = some 'П' := by decide +kernel
    rw [← heq, instruction_head] at hunlink
    exact absurd hunlink (by decide)

theorem linkReply_ne_unlinkMessage (outcome : Outcome) : outcome.linkReply ≠ unlinkMessage := by
  cases outcome <;> decide +kernel

/-- The reply that announces a link belongs to a confirmation. -/
theorem confirmOutcome_linked {r : Except Exn ConfirmationResult} (hr : (confirmOutcome r).2 = Replies.linked) :
    ∃ result, r = .ok result ∧ result.status = .confirmed := by
  rw [confirmOutcome_reply] at hr
  cases r with
  | ok result =>
    obtain ⟨status, userId, userVkId⟩ := result
    cases status with
    | confirmed => exact ⟨_, rfl, rfl⟩
    | alreadyConfirmed => exact absurd hr (show Replies.alreadyLinked ≠ Replies.linked by decide +kernel)
  | error e =>
    cases e with
    | conflict message =>
      rw [confirmOutcome_conflict] at hr
      split at hr
      · exact absurd hr (show Replies.peerConflict ≠ Replies.linked by decide +kernel)
      · exact absurd hr (show Replies.codeUsed ≠ Replies.linked by decide +kernel)
    | rateLimited => exact absurd hr (show Replies.rateLimited ≠ Replies.linked by decide +kernel)
    | notFound => exact absurd hr (show Replies.codeInvalid ≠ Replies.linked by decide +kernel)
    | gone => exact absurd hr (show Replies.codeExpired ≠ Replies.linked by decide +kernel)
    | _ => exact absurd hr (show Replies.codeUsed ≠ Replies.linked by decide +kernel)

/-- A confirmation writes while its transaction runs, and sends nothing. -/
theorem ConfirmCall.ordered {settings : VkSettings} {code : Str} {fromId : PeerId} {sn dn : Option String} {c : Call}
    {e : CallEvent} (hcall : ConfirmCall settings code fromId sn dn h c) (he : ¬ Ended [e]) :
    OrderedCall (h ++ [e]) c := by
  have hrun : ∀ {p}, ConfirmAt settings code fromId sn dn h p → ¬ Ended (h ++ [e]) := by
    rintro p hat ⟨x, hx, hend⟩
    obtain hx | hx := List.mem_append.mp hx
    · exact hat.not_ended ⟨x, hx, hend⟩
    · exact he ⟨x, hx, hend⟩
  cases hcall with
  | activate hat | markUsed hat | log _ hat => exact orderedCall_write (hrun hat) rfl
  | _ => exact orderedCall_quiet rfl rfl

/-- The outcome of `_confirm` announces a link only if it was made. -/
theorem confirmForReply_ordered (settings : VkSettings) (fromId : PeerId) (code : Str) :
    Conforms OrderedCall (fun h r => ∀ out, r = .ok out → IsAnnouncement out.2 → ∃ change ∈ h, Announces out.2 change) []
      (confirmForReply settings fromId code) := by
  refine .perform_bind (orderedCall_quiet rfl rfl) (fun profile => ?_) fun e => by simp
  let read : CallEvent := ⟨.getProfile fromId, .ok profile⟩
  have hconfirm := (attemptDomain_conforms (confirm_conforms settings code fromId (profile.bind (·.screenName))
    (profile.bind (·.displayName)))).after [read]
  refine .bind _ _ _ (.mono ?_ (fun _ _ hQ => hQ) _ _ hconfirm) (fun h r hr => ?_) fun h e _ => by simp
  · rintro h c ⟨new, rfl, hcall⟩
    exact hcall.ordered (by simp [Ended, read])
  · obtain ⟨new, rfl, hend, -⟩ := hr
    intro out hout htext
    obtain rfl := Except.ok.inj hout
    have hlinked : (confirmOutcome r).2 = Replies.linked :=
      htext.resolve_right (confirmOutcome_reply r ▸ linkReply_ne_unlinkMessage _)
    obtain ⟨result, rfl, hstatus⟩ := confirmOutcome_linked hlinked
    obtain ⟨c, b, -, later, earlier, rfl, -, hat⟩ := hend.2.2 hstatus
    cases hat with
    | used hat =>
      cases hat with
      | activated row hat =>
        rw [hlinked]
        exact ⟨_, List.mem_append_left _ (List.mem_append_right _ (List.mem_cons_of_mem _ List.mem_cons_self)),
          .linked c.userVkId fromId _ _ row⟩

/-- The bot commits before it announces. -/
theorem handleMessage_ordered (settings : VkSettings) (peerId fromId : PeerId) (text : Str) :
    Conforms OrderedCall (fun _ _ => True) [] (handleMessage settings peerId fromId text) := by
  rw [handleMessage]
  split
  · refine .perform_bind (orderedCall_write not_ended_nil rfl) (fun _ => ?_) fun _ => trivial
    exact .bind _ _ _ botCommit_ordered (fun _ _ _ => trivial) fun _ _ _ => trivial
  · split
    · refine .perform_bind (orderedCall_write not_ended_nil rfl) (fun _ => ?_) fun _ => trivial
      exact replyCommitted_ordered _ fun htext => absurd htext (not_announcement_instruction _)
    · refine .perform_bind (orderedCall_write not_ended_nil rfl) (fun _ => ?_) fun _ => trivial
      exact replyCommitted_ordered _ fun htext => absurd htext (not_announcement_instruction _)
    · refine .bind _ _ _ (confirmForReply_ordered settings fromId _) (fun h out hout => ?_) fun _ _ _ => trivial
      exact replyCommitted_ordered out.1 (hout out rfl)

end Order

section Unlink
variable {faults : Faults} {world : CallHistory → World} {h : CallHistory} {s : Session} {T : Tables}

/-- Where no message is sent, nothing is announced too early. -/
theorem announcedAfterCommit_of_silent (hsilent : ∀ e ∈ h, e.op.isSend = false) : AnnouncedAfterCommit h := by
  rintro later p text answer earlier rfl -
  have hsend : Call.isSend (.sendMessage p text) = false :=
    hsilent ⟨.sendMessage p text, answer⟩ (List.mem_append_right _ List.mem_cons_self)
  cases hsend

/-- An announcement with no commit before it comes too early. -/
theorem not_announcedAfterCommit {later earlier : CallHistory} {p : PeerId} {text : String} {answer : Except Exn Bool}
    (htext : IsAnnouncement text) (hearlier : ∀ e ∈ earlier, e.op ≠ .commit) :
    ¬ AnnouncedAfterCommit (later ++ ⟨.sendMessage p text, answer⟩ :: earlier) := by
  intro hannounced
  obtain ⟨since, before, -, rfl, -⟩ := hannounced later p text answer earlier rfl htext
  exact hearlier ⟨.commit, .ok ()⟩ (List.mem_append_right _ List.mem_cons_self) rfl

/-- The end of a request adds the calls that end its transaction. -/
theorem getSession_ends {α : Type} {body : Py α} {R : CallHistory → Prop}
    {exec : CallHistory → (c : Call) → Session → Except Exn c.Reply × Session}
    (hbody : wp exec body (fun _ h' _ => ∀ ends, (∀ e ∈ ends, e.op.ends = true) → R (ends ++ h')) h s) :
    wp exec (getSession body) (fun _ h' _ => R h') h s := by
  have hsplit : wp exec (getSession body) (fun _ h' _ => R h') h s ↔
      wp exec body (fun r h' s' => wp exec (getSession (ofExcept r)) (fun _ h'' _ => R h'') h' s') h s := by
    simp only [getSession, withSession, wp_bind, wp_attempt, wp_tryCatch, wp_ofExcept]
  refine hsplit.mpr (wp_mono hbody fun r h' s' hR => ?_)
  have hends : Conforms (fun _ c => c.ends = true) (fun _ _ => True) h' (getSession (ofExcept r)) := by
    refine getSession_conforms (Q := fun _ _ => True) ?_ (fun _ _ _ => rfl) (fun _ => rfl) fun _ => rfl
    cases r <;> trivial
  have hadded := hends.keeps (J := fun h'' => ∃ ends, h'' = ends ++ h' ∧ ∀ e ∈ ends, e.op.ends = true)
    (fun h'' c reply hJ hc => by
      obtain ⟨ends, rfl, hends⟩ := hJ
      exact ⟨⟨c, reply⟩ :: ends, rfl, List.forall_mem_cons.mpr ⟨hc, hends⟩⟩) ⟨[], rfl, by simp⟩
  refine wp_mono (wp_of_conforms hadded) ?_
  rintro r _ s'' ⟨-, ends, rfl, hends⟩
  exact hR ends hends

/-- One call that may fail, and what follows it. -/
theorem wp_faulty {α : Type} {c : Call} {a : c.Reply} {s' : Session} {f : c.Reply → Py α}
    {Φ : Except Exn α → CallHistory → Session → Prop} (hcall : handler world h c s = (.ok a, s'))
    (hraised : ∀ x, faults.raised h.length = some x → Φ (.error x) (⟨c, .error x⟩ :: h) s)
    (hnext : faults.raised h.length = none → wp (faultyHandler faults world) (f a) Φ (⟨c, .ok a⟩ :: h) s') :
    wp (faultyHandler faults world) (perform c >>= f) Φ h s := by
  rw [wp_bind, wp_perform, faultyHandler]
  cases hx : faults.raised h.length with
  | none =>
    simp only [hcall, andThen_ok]
    exact hnext hx
  | some x => exact hraised x hx

/-- The notice goes out when the user has an active peer and none of the four calls before it fails. -/
def NoticeSent (T : Tables) (faults : Faults) (userId : UUID) : Prop :=
  recipientPeer T userId ≠ none ∧ ∀ n < 4, faults.raised n = none

theorem not_noticeSent_of_raised {userId : UUID} {n : Nat} {x : Exn} (hx : faults.raised n = some x) (hn : n < 4) :
    ¬ NoticeSent T faults userId := by
  intro hsent
  rw [hsent.2 n hn] at hx
  cases hx

/-- A request that is over without a message. -/
theorem unnoticed {userId : UUID} (hno : ¬ NoticeSent T faults userId) (hh : ∀ e ∈ h, e.op.isSend = false)
    (ends : CallHistory) (hends : ∀ e ∈ ends, e.op.ends = true) :
    AnnouncedAfterCommit (ends ++ h) ↔ ¬ NoticeSent T faults userId := by
  refine iff_of_true (announcedAfterCommit_of_silent fun e he => ?_) hno
  obtain he | he := List.mem_append.mp he
  · have := hends e he
    cases hop : e.op <;> simp_all [Call.ends, Call.isSend]
  · exact hh e he

/-- The notice is the last call of an unlink. -/
theorem noticed (p : PeerId) : Conforms (fun _ _ => True)
    (fun h' _ => ∃ answer, h' = ⟨.sendMessage p unlinkMessage, answer⟩ :: h) h (do
      tryCatch (do let _ ← await (.sendMessage p unlinkMessage); pure ()) fun e =>
        if e.isException then pure () else throw e
      pure true) := by
  refine ⟨trivial, fun answer => ?_⟩
  cases answer with
  | ok a => exact ⟨_, rfl⟩
  | error e =>
    show Conforms _ _ _ (Prog.bind (if e.isException then pure () else throw e) _)
    split <;> exact ⟨_, rfl⟩

/-- An unlink announces before it commits whenever it announces. -/
theorem unlink_notice {C : Tables} (hT : T.Wf) (userId : UUID) : wp (faultyHandler faults world) (unlink userId)
    (fun _ h _ => ∀ ends, (∀ e ∈ ends, e.op.ends = true) → (AnnouncedAfterCommit (ends ++ h) ↔ ¬ NoticeSent T faults userId))
    [] ⟨C, T⟩ := by
  rw [unlink]
  refine wp_faulty (handler_getByUserId _ _ hT userId) (fun x hx => ?_) fun h0 => ?_
  · exact unnoticed (not_noticeSent_of_raised hx (by simp)) (by simp [Call.isSend])
  cases hrow : userRow T userId with
  | none =>
    have hno : ¬ NoticeSent T faults userId := fun hsent => hsent.1 (by rw [recipientPeer, hrow, Option.bind_none])
    refine wp_faulty (handler_logAction ..) (fun x hx => ?_) fun h1 => ?_
    · exact unnoticed hno (by simp [Call.isSend])
    · exact unnoticed hno (by simp [Call.isSend])
  | some b =>
    refine wp_faulty (handler_invalidatePrevious ..) (fun x hx => ?_) fun h1 => ?_
    · exact unnoticed (not_noticeSent_of_raised hx (by simp)) (by simp [Call.isSend])
    refine wp_faulty (handler_softDelete ..) (fun x hx => ?_) fun h2 => ?_
    · exact unnoticed (not_noticeSent_of_raised hx (by simp)) (by simp [Call.isSend])
    refine wp_faulty (handler_logAction ..) (fun x hx => ?_) fun h3 => ?_
    · exact unnoticed (not_noticeSent_of_raised hx (by simp)) (by simp [Call.isSend])
    have hpeer : recipientPeer T userId = if b.state = .active then b.vkPeerId else none := by
      rw [recipientPeer, hrow, Option.bind_some]
    rw [notifyUnlinked.eq_def]
    cases hp : b.vkPeerId with
    | none =>
      refine unnoticed (fun hsent => hsent.1 ?_) (by simp [Call.isSend])
      rw [hpeer, hp, ite_self]
    | some p =>
      by_cases hactive : b.state = .active
      · simp only [hactive, ne_eq, not_true_eq_false, ↓reduceIte]
        refine wp_mono (wp_of_conforms (noticed p)) ?_
        rintro r _ s ⟨answer, rfl⟩ ends hends
        refine iff_of_false (not_announcedAfterCommit (.inr rfl) (by simp)) (not_not_intro ⟨?_, fun n hn => ?_⟩)
        · rw [hpeer, if_pos hactive, hp]
          exact Option.some_ne_none p
        · interval_cases n
          · exact h0
          · exact h1
          · exact h2
          · exact h3
      · simp only [ne_eq, hactive, not_false_eq_true, ↓reduceIte]
        refine unnoticed (fun hsent => hsent.1 ?_) (by simp [Call.isSend])
        rw [hpeer, if_neg hactive]

theorem unlinkRequest_notice (settings : VkSettings) (hT : T.Wf) (o : Surroundings) (userId : UUID) :
    AnnouncedAfterCommit (runFaulty (Request.prog settings (.unlink userId)) o faults T).1 ↔
    ¬ NoticeSent T faults userId := by
  have hrun : wp (faultyHandler faults fun h => o h.length) (Request.prog settings (.unlink userId))
      (fun _ h _ => AnnouncedAfterCommit h ↔ ¬ NoticeSent T faults userId) [] (Session.start T) := by
    refine getSession_ends (wp_bind.mpr (wp_mono (unlink_notice hT userId) ?_))
    rintro (e | done) h s hnotice
    · exact hnotice
    · exact hnotice
  exact hrun

end Unlink

/-- The bot announces a link only after the commit of the link, whatever fails. The notice of an unlink always precedes
the
commit: the order is kept exactly when there is no notice to send, because the user has no active peer or
because one of the calls before the notice fails. -/
theorem announced_after_commit_iff (settings : VkSettings) {T : Tables} (hT : T.Wf) (o : Surroundings)
    (faults : Faults) :
    (∀ peerId fromId text, AnnouncedAfterCommit (runFaulty (handleMessage settings peerId fromId text) o faults T).1) ∧
    ∀ userId, AnnouncedAfterCommit (runFaulty (Request.prog settings (.unlink userId)) o faults T).1 ↔
      recipientPeer T userId = none ∨ ∃ n < 4, faults.raised n ≠ none := by
  refine ⟨fun peerId fromId text => ?_, fun userId => ?_⟩
  · have hrun : wp (faultyHandler faults fun h => o h.length) (handleMessage settings peerId fromId text)
        (fun _ h _ => Traced OrderedCall h) [] (Session.start T) :=
      wp_traced (handleMessage_ordered settings peerId fromId text) .nil
    exact announcedAfterCommit_of_traced hrun
  · rw [unlinkRequest_notice settings hT o userId, NoticeSent, not_and_or, not_not]
    push Not
    rfl

section Example

theorem linkedOnce_wf : linkedOnce.Wf := serveAll_induction Tables.empty_wf (fun _ v h => serve_wf .least h v) _

/-- The commit of an unlink fails. -/
def commitFails : Faults where
  raised n := if n = 5 then some (.foreign 0) else .none
  notOwn n x h := by
    split at h <;> cases h
    rfl

theorem commitFails_notice : NoticeSent linkedOnce commitFails 7 := by
  refine ⟨?_, fun n hn => if_neg (by omega)⟩
  have hpeer : recipientPeer linkedOnce 7 = some 1 := by decide +kernel
  rw [hpeer]
  exact Option.some_ne_none 1

/-- The user is told that the binding is cancelled, and stays bound. -/
theorem cancelled_but_bound :
    (⟨.sendMessage 1 unlinkMessage, .ok true⟩ ∈
      (runFaulty (Request.prog .least (.unlink 7)) (fun _ => .still 0) commitFails linkedOnce).1) ∧
    recipientPeer (runFaulty (Request.prog .least (.unlink 7)) (fun _ => .still 0) commitFails linkedOnce).2 7 =
    some 1 ∧
    ¬ ∀ (settings : VkSettings) (T : Tables) (o : Surroundings) (faults : Faults), T.Wf →
      (∀ peerId fromId text, AnnouncedAfterCommit (runFaulty (handleMessage settings peerId fromId text) o faults T).1) ∧
      ∀ userId, AnnouncedAfterCommit (runFaulty (Request.prog settings (.unlink userId)) o faults T).1 := by
  refine ⟨List.mem_of_getElem? (i := 3) rfl, by decide +kernel, fun hclaim => ?_⟩
  have hordered := (hclaim .least linkedOnce (fun _ => .still 0) commitFails linkedOnce_wf).2 7
  exact (unlinkRequest_notice .least linkedOnce_wf _ 7).mp hordered commitFails_notice

/-- The third call of an operation fails. -/
def thirdFails : Faults where
  raised n := if n = 2 then some (.foreign 0) else .none
  notOwn n x h := by
    split at h <;> cases h
    rfl

/-- With a failing commit the order is kept for a message and for a user without a peer, and not for a
user with one; with a failing deletion it is kept for that user as well. -/
theorem announced_after_commit_iff_faults :
    AnnouncedAfterCommit (runFaulty (handleMessage .least 5 5 "/link AAAA".toList)
    (fun _ => .still 0) commitFails linkedOnce).1 ∧
    AnnouncedAfterCommit (runFaulty (Request.prog .least (.unlink 8)) (fun _ => .still 0) commitFails linkedOnce).1 ∧
    ¬ AnnouncedAfterCommit (runFaulty (Request.prog .least (.unlink 7)) (fun _ => .still 0) commitFails linkedOnce).1 ∧
    AnnouncedAfterCommit (runFaulty (Request.prog .least (.unlink 7)) (fun _ => .still 0) thirdFails linkedOnce).1 := by
  have hcommit := announced_after_commit_iff .least linkedOnce_wf (fun _ => .still 0) commitFails
  have hthird := announced_after_commit_iff .least linkedOnce_wf (fun _ => .still 0) thirdFails
  refine ⟨hcommit.1 5 5 _, (hcommit.2 8).mpr (.inl (by decide +kernel)), fun hordered => ?_,
    (hthird.2 7).mpr (.inr ⟨2, by decide, by simp [thirdFails]⟩)⟩
  rcases (hcommit.2 7).mp hordered with hpeer | ⟨n, hn, hraised⟩
  · exact commitFails_notice.1 hpeer
  · exact hraised (commitFails_notice.2 n hn)

end Example
end VkService
