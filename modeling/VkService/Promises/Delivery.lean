import VkService.Promises.SessionRules

/-! The order in which a delivery makes its calls: claim, send, mark, and an end only when
every claim is marked. -/
namespace VkService
open PyStr Effects Effects.Prog

/-- Some call claimed the pair and got its row. -/
def Claimed (h : CallHistory) (eventUuid userId : UUID) : Prop :=
  ∃ peerId row, ⟨.claimAttempt eventUuid userId peerId, .ok (some row)⟩ ∈ h

def MarkedSent (h : CallHistory) (eventUuid userId : UUID) : Prop :=
  ∃ row, ⟨.markSent eventUuid userId, .ok row⟩ ∈ h

def MarkedFailed (h : CallHistory) (eventUuid userId : UUID) : Prop :=
  ∃ category row, ⟨.markFailed eventUuid userId category, .ok row⟩ ∈ h

/-- Every claim has been marked. -/
def Settled (h : CallHistory) : Prop :=
  ∀ e u, Claimed h e u → MarkedSent h e u ∨ MarkedFailed h e u

/-- The last call but one claimed the pair, and the last one sent to its peer. -/
def JustSent (h : CallHistory) (eventUuid userId : UUID) (went : Bool) : Prop :=
  ∃ peerId text row rest, h = ⟨.sendMessage peerId text, .ok went⟩ ::
    ⟨.claimAttempt eventUuid userId peerId, .ok (some row)⟩ :: rest

/-- No call has failed, up to the closing of the session. -/
def Smooth (h : CallHistory) : Prop := ∀ e ∈ h, e.op ≠ .close → ∀ x, e.reply ≠ .error x

/-- The peer was the user's when the bindings were read. -/
def Looked (command : NotificationCommandSendVkData) (h : CallHistory) (userId : UUID) (peerId : PeerId) : Prop :=
  ∃ bindings, ⟨.userVkGetByUserIds command.userIds (some .active), .ok bindings⟩ ∈ h ∧
    (activePeers bindings).lookup userId = some peerId

/-- When a delivery may make a call. -/
def DeliveryCall (command : NotificationCommandSendVkData) (h : CallHistory) : Call → Prop
  | .userVkGetByUserIds userIds state => h = [] ∧ userIds = command.userIds ∧ state = some .active
  | .claimAttempt e u peerId => e = command.eventUuid ∧ u ∈ command.userIds ∧ Looked command h u peerId ∧ ¬ Ended h ∧
      Settled h ∧ ∀ peerId r, ⟨.claimAttempt e u peerId, r⟩ ∉ h
  | .sendMessage peerId text => text = command.text ∧ ¬ Ended h ∧
      ∃ e u row rest, h = ⟨.claimAttempt e u peerId, .ok (some row)⟩ :: rest
  | .markSent e u => ¬ Ended h ∧ JustSent h e u true
  | .markFailed e u _ => ¬ Ended h ∧ JustSent h e u false
  | .commit => ¬ Ended h ∧ (Honest h → Settled h ∧ Smooth h)
  | .rollback => ¬ Ended h
  | .close => True
  | _ => False

theorem Smooth.cons {op : Call} {a : op.Reply} {h : CallHistory} (hs : Smooth h) : Smooth (⟨op, .ok a⟩ :: h) := by
  intro e he hop x
  rcases List.mem_cons.mp he with rfl | he
  · simp
  · exact hs e he hop x

/-- A call that marks the pair. -/
def MarksOf (eventUuid userId : UUID) (c : Call) : Prop :=
  c = .markSent eventUuid userId ∨ ∃ category, c = .markFailed eventUuid userId category

section Order
variable {command : NotificationCommandSendVkData} {h : CallHistory} {ev u : UUID}

theorem JustSent.claimed {went : Bool} (hjust : JustSent h ev u went) : Claimed h ev u := by
  obtain ⟨peerId, text, row, rest, rfl⟩ := hjust
  exact ⟨peerId, row, by simp⟩

theorem DeliveryCall.justSent {c : Call} (hcall : DeliveryCall command h c) (hc : MarksOf ev u c) :
    ∃ went, JustSent h ev u went := by
  rcases hc with rfl | ⟨category, rfl⟩
  · exact ⟨true, hcall.2⟩
  · exact ⟨false, hcall.2⟩

/-- Only a claimed pair is marked. -/
theorem claimed_of_marks (ht : Traced (DeliveryCall command) h) {e : CallEvent} (he : e ∈ h) (hop : MarksOf ev u e.op) :
    Claimed h ev u := by
  obtain ⟨later, earlier, rfl, hcall⟩ := ht.of_mem he
  obtain ⟨went, hjust⟩ := hcall.justSent hop
  obtain ⟨peerId, row, hmem⟩ := hjust.claimed
  exact ⟨peerId, row, List.mem_append_right _ (List.mem_cons_of_mem _ hmem)⟩

/-- A pair is marked once, right after its message. -/
theorem JustSent.not_marks {went : Bool} (hjust : JustSent h ev u went) (ht : Traced (DeliveryCall command) h) :
    ∀ e ∈ h, ¬ MarksOf ev u e.op := by
  obtain ⟨peerId, text, row, rest, rfl⟩ := hjust
  intro e he hop
  have hrest : e ∈ rest := by
    rcases List.mem_cons.mp he with rfl | he
    · rcases hop with hop | ⟨_, hop⟩ <;> cases hop
    rcases List.mem_cons.mp he with rfl | he
    · rcases hop with hop | ⟨_, hop⟩ <;> cases hop
    exact he
  cases ht with
  | cons _ ht _ =>
    cases ht with
    | cons _ ht hclaim =>
      obtain ⟨peerId', row', hmem⟩ := claimed_of_marks ht hrest hop
      exact hclaim.2.2.2.2.2 _ _ hmem

/-- The message for the pair has gone out: the send after its claim returned `True`, with `n`
calls after it. -/
def WentOut (h : CallHistory) (eventUuid userId : UUID) (n : Nat) : Prop :=
  ∃ later earlier peerId text row, later.length = n ∧ h = later ++ ⟨.sendMessage peerId text, .ok true⟩ ::
    ⟨.claimAttempt eventUuid userId peerId, .ok (some row)⟩ :: earlier

/-- A delivery claims a pair once. -/
theorem claim_unique (ht : Traced (DeliveryCall command) h) {later later' earlier earlier' : CallHistory}
    {p p' : PeerId} {r r' : Except Exn (Option VkNotificationDelivery)}
    (hh : h = later ++ ⟨.claimAttempt ev u p, r⟩ :: earlier)
    (hh' : h = later' ++ ⟨.claimAttempt ev u p', r'⟩ :: earlier') :
    later = later' := by
  have hfresh : ∀ {l r₀ : CallHistory} {q r}, h = l ++ ⟨.claimAttempt ev u q, r⟩ :: r₀ →
    ∀ q' r', ⟨.claimAttempt ev u q', r'⟩ ∉ r₀ := by
    rintro l r₀ q r hl
    exact (show DeliveryCall command r₀ (.claimAttempt ev u q) from (hl ▸ ht).before).2.2.2.2.2
  rcases List.append_eq_append_iff.mp (hh.symm.trans hh') with ⟨a, rfl, ha⟩ | ⟨a, rfl, ha⟩
  · cases a with
    | nil => exact (List.append_nil later).symm
    | cons e a =>
      obtain ⟨-, rfl⟩ := List.cons.inj ha
      exact absurd (List.mem_append_right _ List.mem_cons_self) (hfresh hh p' r')
  · cases a with
    | nil => exact List.append_nil later'
    | cons e a =>
      obtain ⟨-, rfl⟩ := List.cons.inj ha
      exact absurd (List.mem_append_right _ List.mem_cons_self) (hfresh hh' p r)

theorem WentOut.claimed {n : Nat} (hout : WentOut h ev u n) : Claimed h ev u := by
  obtain ⟨later, earlier, peerId, text, row, -, rfl⟩ := hout
  exact ⟨peerId, row, by simp⟩

theorem WentOut.unique (ht : Traced (DeliveryCall command) h) {n n' : Nat} (hout : WentOut h ev u n)
    (hout' : WentOut h ev u n') : n = n' := by
  obtain ⟨later, earlier, p, text, row, rfl, hh⟩ := hout
  obtain ⟨later', earlier', p', text', row', rfl, hh'⟩ := hout'
  rw [List.append_cons] at hh hh'
  have hsame := claim_unique ht hh hh'
  simpa using congrArg List.length hsame

/-- A message that went out is not marked as failed. -/
theorem WentOut.not_markedFailed (ht : Traced (DeliveryCall command) h) {n : Nat} (hout : WentOut h ev u n) :
    ¬ MarkedFailed h ev u := by
  rintro ⟨category, row', hmem⟩
  obtain ⟨later', earlier', hh', hcall⟩ := ht.of_mem hmem
  obtain ⟨-, p', text', row'', rest, rfl⟩ := hcall
  obtain ⟨later, earlier, p, text, row, -, hh⟩ := hout
  rw [List.append_cons] at hh
  rw [List.append_cons, List.append_cons] at hh'
  have hsame := claim_unique ht hh hh'
  cases List.append_inj_right' hsame rfl

/-- What a committed delivery has claimed it has marked. -/
theorem committed_marked (ht : Traced (DeliveryCall command) h) (hhonest : Honest h)
    (hcommit : (⟨.commit, .ok ()⟩ : CallEvent) ∈ h) (hclaimed : Claimed h ev u) :
    MarkedSent h ev u ∨ MarkedFailed h ev u := by
  obtain ⟨later, earlier, rfl, hcall⟩ := ht.of_mem hcommit
  have hsettled := (hcall.2 fun e he => hhonest e (List.mem_append_right _ (List.mem_cons_of_mem _ he))).1
  obtain ⟨peerId, row, hmem⟩ := hclaimed
  have hbefore : Claimed earlier ev u := by
    rcases List.mem_append.mp hmem with hmem | hmem
    · -- no claim follows the commit
      obtain ⟨later', between, rfl⟩ := List.append_of_mem hmem
      rw [List.append_assoc, List.cons_append] at ht
      exact absurd ⟨_, List.mem_append_right _ List.mem_cons_self, .inl rfl⟩
        (show DeliveryCall command _ (.claimAttempt ev u peerId) from ht.before).2.2.2.1
    · exact ⟨peerId, row, (List.mem_cons.mp hmem).resolve_left (by simp)⟩
  have hsub : ∀ e ∈ earlier, e ∈ later ++ ⟨.commit, .ok ()⟩ :: earlier := fun e he =>
    List.mem_append_right _ (List.mem_cons_of_mem _ he)
  exact (hsettled ev u hbefore).imp (fun ⟨row, h⟩ => ⟨row, hsub _ h⟩) fun ⟨category, row, h⟩ =>
    ⟨category, row, hsub _ h⟩

end Order

theorem claimed_cons {e : CallEvent} {h : CallHistory} {ev u : UUID} :
    Claimed (e :: h) ev u ↔ (∃ peerId row, e = ⟨.claimAttempt ev u peerId, .ok (some row)⟩) ∨ Claimed h ev u := by
  simp only [Claimed, List.mem_cons, exists_or, eq_comm (a := e)]

theorem Settled.cons {e : CallEvent} {h : CallHistory} (hs : Settled h)
    (he : ∀ ev u peerId row, e ≠ ⟨.claimAttempt ev u peerId, .ok (some row)⟩) : Settled (e :: h) := by
  intro ev u hc
  rcases claimed_cons.mp hc with ⟨peerId, row, rfl⟩ | hc
  · exact absurd rfl (he _ _ _ _)
  · rcases hs ev u hc with ⟨row, hm⟩ | ⟨category, row, hm⟩
    · exact .inl ⟨row, List.mem_cons_of_mem _ hm⟩
    · exact .inr ⟨category, row, List.mem_cons_of_mem _ hm⟩

/-- A claim followed by its mark leaves nothing open. -/
theorem Settled.marked {mark : CallEvent} {h : CallHistory} {ev u : UUID} {peerId : PeerId}
    {row : VkNotificationDelivery} {text : String} {went : Bool} (hs : Settled h)
    (hmark : MarkedSent [mark] ev u ∨ MarkedFailed [mark] ev u) :
    Settled (mark :: ⟨.sendMessage peerId text, .ok went⟩ :: ⟨.claimAttempt ev u peerId, .ok (some row)⟩ :: h) := by
  intro ev' u' hc
  by_cases hpair : ev' = ev ∧ u' = u
  · obtain ⟨rfl, rfl⟩ := hpair
    rcases hmark with ⟨row', hm⟩ | ⟨category, row', hm⟩
    · exact .inl ⟨row', List.mem_cons.mpr (.inl (by simpa using hm))⟩
    · exact .inr ⟨category, row', List.mem_cons.mpr (.inl (by simpa using hm))⟩
  · have hold : Claimed h ev' u' := by
      rcases claimed_cons.mp hc with ⟨peerId', row', rfl⟩ | hc
      · rcases hmark with ⟨_, hm⟩ | ⟨_, _, hm⟩ <;> simp at hm
      rcases claimed_cons.mp hc with ⟨peerId', row', heq⟩ | hc
      · simp at heq
      rcases claimed_cons.mp hc with ⟨peerId', row', heq⟩ | hc
      · simp only [Event.mk.injEq, Call.claimAttempt.injEq] at heq
        exact absurd ⟨heq.1.1.symm, heq.1.2.1.symm⟩ hpair
      · exact hc
    rcases hs ev' u' hold with ⟨row', hm⟩ | ⟨category, row', hm⟩
    · exact .inl ⟨row', by simp [hm]⟩
    · exact .inr ⟨category, row', by simp [hm]⟩

/-- What holds whenever the recipient loop looks at the rest of its list. -/
structure AtRecipient (command : NotificationCommandSendVkData) (bindings : List UserVk) (rest : List UUID)
    (h : CallHistory) : Prop where
  sub : ∀ u ∈ rest, u ∈ command.userIds
  looked : ⟨.userVkGetByUserIds command.userIds (some .active), .ok bindings⟩ ∈ h
  smooth : Smooth h
  nodup : rest.Nodup
  running : ¬ Ended h
  settled : Settled h
  fresh : ∀ u ∈ rest, ∀ peerId r, ⟨.claimAttempt command.eventUuid u peerId, r⟩ ∉ h

/-- How a delivery leaves its transaction to the code around it: with everything marked, or
with the exception of a call. -/
def DeliveryEnd {α : Type} (h : CallHistory) : Except Exn α → Prop
  | .ok _ => ¬ Ended h ∧ Settled h ∧ Smooth h
  | .error e => ¬ Ended h ∧ (e = .deliveryRetryable ∧ Settled h ∧ Smooth h ∨ ∃ event ∈ h, event.reply = .error e)

section Loop
variable {command : NotificationCommandSendVkData} {bindings : List UserVk}

/-- Calls other than claims of the remaining recipients keep the loop's condition. -/
theorem AtRecipient.next {u : UUID} {rest : List UUID} {h : CallHistory}
    (hat : AtRecipient command bindings (u :: rest) h) (new : CallHistory) (hend : ¬ Ended new)
    (hsmooth : Smooth (new ++ h)) (hsettled : Settled (new ++ h))
    (hnew : ∀ u' peerId r, ⟨.claimAttempt command.eventUuid u' peerId, r⟩ ∈ new → u' = u) :
    AtRecipient command bindings rest (new ++ h) where
  sub u' hu' := hat.sub u' (List.mem_cons_of_mem _ hu')
  looked := List.mem_append_right _ hat.looked
  smooth := hsmooth
  nodup := (List.nodup_cons.mp hat.nodup).2
  running := by
    rintro ⟨e, he, hop⟩
    rcases List.mem_append.mp he with he | he
    · exact hend ⟨e, he, hop⟩
    · exact hat.running ⟨e, he, hop⟩
  settled := hsettled
  fresh u' hu' peerId r hmem := by
    rcases List.mem_append.mp hmem with hmem | hmem
    · exact (List.nodup_cons.mp hat.nodup).1 (hnew u' peerId r hmem ▸ hu')
    · exact hat.fresh u' (List.mem_cons_of_mem _ hu') peerId r hmem

/-- The loop goes on after a claim, its send and its mark. -/
theorem AtRecipient.marked {u : UUID} {rest : List UUID} {h : CallHistory}
    (hat : AtRecipient command bindings (u :: rest) h) {mark : CallEvent} {peerId : PeerId}
    {row : VkNotificationDelivery} {went : Bool}
    (hmark : MarkedSent [mark] command.eventUuid u ∨ MarkedFailed [mark] command.eventUuid u) :
    AtRecipient command bindings rest (mark :: ⟨.sendMessage peerId command.text, .ok went⟩ ::
      ⟨.claimAttempt command.eventUuid u peerId, .ok (some row)⟩ :: h) := by
  refine hat.next [_, _, _] ?_ ?_ (hat.settled.marked hmark) fun u' peerId' r hmem => ?_
  · rcases hmark with ⟨row', hm⟩ | ⟨category, row', hm⟩ <;> simp [Ended, ← List.mem_singleton.mp hm]
  · rcases hmark with ⟨row', hm⟩ | ⟨category, row', hm⟩
    · exact List.mem_singleton.mp hm ▸ hat.smooth.cons.cons.cons
    · exact List.mem_singleton.mp hm ▸ hat.smooth.cons.cons.cons
  · rcases hmark with ⟨row', hm⟩ | ⟨category, row', hm⟩ <;>
      simp only [← List.mem_singleton.mp hm, List.mem_cons, Event.mk.injEq, reduceCtorEq, false_and, false_or,
        List.not_mem_nil, or_false, Call.claimAttempt.injEq] at hmem <;>
      exact hmem.1.2.1

/-- The exception of a call ends a delivery. -/
private theorem deliveryEnd_error {α : Type} {c : Call} {e : Exn} {h : CallHistory} (hrun : ¬ Ended h)
    (hc : c ≠ .commit ∧ c ≠ .rollback ∧ c ≠ .close) : DeliveryEnd (α := α) (⟨c, .error e⟩ :: h) (.error e) :=
  ⟨by simpa [ended_cons, hc] using hrun, .inr ⟨_, List.mem_cons_self, rfl⟩⟩

theorem deliverTo_conforms (rest : List UUID) (failed : Bool) (h : CallHistory)
    (hat : AtRecipient command bindings rest h) :
    Conforms (DeliveryCall command) DeliveryEnd h
      (deliverTo command.eventUuid command.text (activePeers bindings) rest failed) := by
  induction rest generalizing h failed with
  | nil => exact ⟨hat.running, hat.settled, hat.smooth⟩
  | cons u rest ih =>
    rw [deliverTo]
    cases hlookup : (activePeers bindings).lookup u with
    | none => exact ih failed h (hat.next [] (by simp [Ended]) hat.smooth hat.settled (by simp))
    | some peerId =>
      refine .perform_bind ⟨rfl, hat.sub u (by simp), ⟨bindings, hat.looked, hlookup⟩, hat.running, hat.settled,
        hat.fresh u (by simp)⟩ ?_ fun e => deliveryEnd_error hat.running (by simp)
      rintro (_ | row)
      · refine ih failed _ (hat.next [_] (by simp [Ended]) hat.smooth.cons (hat.settled.cons (by simp)) ?_)
        rintro u' peerId' r hmem
        simp only [List.mem_singleton, Event.mk.injEq, Call.claimAttempt.injEq] at hmem
        exact hmem.1.2.1
      · have hclaimed : ¬ Ended (⟨.claimAttempt command.eventUuid u peerId, .ok (some row)⟩ :: h) := by
          simpa [ended_cons] using hat.running
        refine .perform_bind ⟨rfl, hclaimed, _, _, _, _, rfl⟩ (fun went => ?_)
          fun e => deliveryEnd_error hclaimed (by simp)
        have hsent : ¬ Ended (⟨.sendMessage peerId command.text, .ok went⟩ ::
            ⟨.claimAttempt command.eventUuid u peerId, .ok (some row)⟩ :: h) := by
          simpa [ended_cons] using hat.running
        cases went with
        | false =>
          refine .perform_bind ⟨hsent, _, _, _, _, rfl⟩ (fun row' => ?_)
            fun e => deliveryEnd_error hsent (by simp)
          exact ih true _ (hat.marked (.inr ⟨_, row', by simp⟩))
        | true =>
          refine .perform_bind ⟨hsent, _, _, _, _, rfl⟩ (fun row' => ?_)
            fun e => deliveryEnd_error hsent (by simp)
          exact ih failed _ (hat.marked (.inl ⟨row', by simp⟩))

theorem deliver_conforms (command : NotificationCommandSendVkData) :
    Conforms (DeliveryCall command) DeliveryEnd [] (deliver command) := by
  refine .perform_bind ⟨rfl, rfl, rfl⟩ (fun bindings => ?_) fun e => deliveryEnd_error (by simp [Ended]) (by simp)
  refine .bind _ _ _ (@deliverTo_conforms _ bindings _ _ _ ?_) (fun h failed hend => ?_) fun h e hend => hend
  · exact ⟨fun u hu => hu, List.mem_singleton_self _, .cons (by simp [Smooth]), command.userIds_nodup, by simp [Ended],
      by simp [Settled, Claimed], by simp⟩
  · cases failed with
    | false => exact hend
    | true => exact ⟨hend.1, .inl ⟨rfl, hend.2⟩⟩

/-- A delivery in which no call fails is committed. -/
def HandleEnd (h : CallHistory) (_ : Except Exn Unit) : Prop := Smooth h → ⟨.commit, .ok ()⟩ ∈ h

private theorem handleEnd_error {c : Call} {e : Exn} {h : CallHistory} {r : Except Exn Unit} (hc : c ≠ .close) :
    HandleEnd (⟨c, .error e⟩ :: h) r :=
  fun hsmooth => absurd rfl (hsmooth _ List.mem_cons_self hc e)

/-- How the guarded delivery leaves its session to the last commit. -/
def DeliverLeft (h : CallHistory) : Except Exn Unit → Prop
  | .ok _ => ¬ Ended h ∧ Settled h ∧ Smooth h
  | .error e => HandleEnd h (.error e)

/-- A delivery keeps to this order of calls up to its end. -/
theorem handleCommand_conforms (command : NotificationCommandSendVkData) :
    Conforms (DeliveryCall command) HandleEnd [] (handleCommand command) := by
  have hclosed : ∀ {h r r'} (reply : Except Exn Unit), HandleEnd h r → HandleEnd (⟨.close, reply⟩ :: h) r' :=
    fun _ hend hsmooth => List.mem_cons_of_mem _ (hend fun e he => hsmooth e (List.mem_cons_of_mem _ he))
  refine withSession_conforms (Q := HandleEnd) ?_ (fun _ _ _ => trivial) (fun _ _ hend => hclosed _ hend)
    fun _ _ _ hend => hclosed _ hend
  refine .bind (Q := DeliverLeft) _ _ _
    (.tryCatch _ _ _ (deliver_conforms command) (fun _ _ hend => hend) fun h e hend => ?_) (fun h _ hend => ?_)
    fun _ _ hend => hend
  · obtain ⟨hrun, ⟨rfl, hsettled, hsmooth⟩ | ⟨event, hevent, hreply⟩⟩ := hend
    · exact .perform_bind ⟨hrun, fun _ => ⟨hsettled, hsmooth⟩⟩ (fun _ _ => List.mem_cons_self)
        fun e => handleEnd_error (r := .error e) (by simp)
    · have hrough : ∀ {op : Call} (reply : Except Exn op.Reply), ¬ Smooth (⟨op, reply⟩ :: h) := fun _ hsmooth =>
        hsmooth event (List.mem_cons_of_mem _ hevent) (fun hop => hrun ⟨event, hevent, .inr (.inr hop)⟩) e hreply
      have hrollback : Conforms (DeliveryCall command) DeliverLeft h
          (if e.isException then do await .rollback; throw e else throw e : Py Unit) := by
        split
        · exact .perform_bind hrun (fun _ hsmooth => absurd hsmooth (hrough _)) fun e =>
            handleEnd_error (r := .error e) (by simp)
        · exact fun hsmooth => absurd hreply (hsmooth event hevent (fun hop => hrun ⟨event, hevent, .inr (.inr hop)⟩) e)
      cases e with
      | deliveryRetryable =>
        refine .perform_bind ⟨hrun, fun hhonest => ?_⟩ (fun _ hsmooth => absurd hsmooth (hrough _))
          fun e => handleEnd_error (r := .error e) (by simp)
        exact absurd (hhonest event hevent _ hreply) (by simp [Exn.isOwn])
      | _ => exact hrollback
  · exact .perform _ ⟨hend.1, fun _ => hend.2⟩ fun r => by
      cases r with
      | ok u => exact fun _ => List.mem_cons_self
      | error e => exact handleEnd_error (by simp)

end Loop
end VkService
