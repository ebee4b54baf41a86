import VkService.Promises.Requests
import VkService.Sequential.Links
import VkService.Sequential.Redelivery

/-! Who gets a notification, told from the history of the run: the confirmations, unlinks
and permission events before the delivery, and the messages already sent for its event. -/
namespace VkService
open PyStr Effects Effects.Prog UserVkRepository VkNotificationDeliveryRepository

/-- A message sent for a recipient of an event. -/
structure Sending where
  eventUuid : UUID
  userId : UUID
  peer : PeerId
  went : Bool
  deriving DecidableEq

/-- The messages of a history that follow the claim of a recipient, newest first. -/
def sendingsOf : CallHistory → List Sending
  | [] => []
  | ⟨.sendMessage peer _, .ok went⟩ :: ⟨.claimAttempt e u p, r⟩ :: h =>
    ⟨e, u, peer, went⟩ :: sendingsOf (⟨.claimAttempt e u p, r⟩ :: h)
  | _ :: h => sendingsOf h

section Sendings
variable {h : CallHistory} {e u : UUID} {p : PeerId}

theorem sendingsOf_cons {event : CallEvent} (hop : ∀ peer text, event.op ≠ .sendMessage peer text) :
    sendingsOf (event :: h) = sendingsOf h := by
  obtain ⟨op, reply⟩ := event
  cases op with
  | sendMessage peer text => exact absurd rfl (hop peer text)
  | _ => simp [sendingsOf]

theorem sendingsOf_sent {text : String} {went : Bool} {r : Except Exn (Option VkNotificationDelivery)} :
    sendingsOf (⟨.sendMessage p text, .ok went⟩ :: ⟨.claimAttempt e u p, r⟩ :: h) =
    ⟨e, u, p, went⟩ :: sendingsOf h := by
  rw [sendingsOf, sendingsOf_cons (by simp)]

/-- Without a claim there is no recipient. -/
theorem sendingsOf_eq_nil (hclaim : ∀ event ∈ h, ∀ e u p, event.op ≠ .claimAttempt e u p) : sendingsOf h = [] := by
  induction h with
  | nil => rfl
  | cons event h ih =>
    have hrest := ih fun event he => hclaim event (List.mem_cons_of_mem _ he)
    unfold sendingsOf
    split
    · rfl
    · rename_i heq
      obtain ⟨-, rfl⟩ := List.cons.inj heq
      exact absurd rfl (hclaim _ (List.mem_cons_of_mem _ List.mem_cons_self) _ _ _)
    · rename_i heq
      rw [← (List.cons.inj heq).2]
      exact hrest

end Sendings

/-- What a delivery sent to the recipients of its list, and what it recorded. -/
structure Delivered (e : UUID) (active : List (UUID × PeerId)) (rest : List UUID) (T T' : Tables)
    (sendings : List Sending) :
    Prop where
  wf : T'.Wf
  users : (sendings.map (·.userId)).Nodup
  mem : ∀ e' u p, (∃ went, ⟨e', u, p, went⟩ ∈ sendings) ↔
    e' = e ∧ u ∈ rest ∧ active.lookup u = some p ∧ ¬ SentRow T e u
  sent : ∀ e' u, SentRow T' e' u ↔ SentRow T e' u ∨ ∃ p, ⟨e', u, p, true⟩ ∈ sendings

section Loop
variable {world : CallHistory → World} {h : CallHistory} {C T T' : Tables} {e u : UUID} {text : String}
  {active : List (UUID × PeerId)} {rest : List UUID} {failed : Bool} {sendings : List Sending}

theorem Attempted.sentRow {went : Bool} (h : Attempted e u went T T') (hunsent : ¬ SentRow T e u) (e' u' : UUID) :
    SentRow T' e' u' ↔ SentRow T e' u' ∨ (e' = e ∧ u' = u ∧ went = true) := by
  by_cases hpair : e' = e ∧ u' = u
  · obtain ⟨rfl, rfl⟩ := hpair
    obtain ⟨d, hrow, hstatus, -⟩ := h.own
    have hnow : SentRow T' e' u' ↔ went = true := by
      simp only [SentRow, hrow, hstatus, Option.some.injEq, exists_eq_left']
      cases went <;> simp
    simp [hnow, hunsent]
  · rw [SentRow, SentRow, h.other e' u' hpair]
    simp only [iff_self_or]
    exact fun hp => absurd ⟨hp.1, hp.2.1⟩ hpair

/-- A recipient who is skipped gets no message. -/
theorem Delivered.skip (h : Delivered e active rest T T' sendings)
    (hskip : active.lookup u = none ∨ SentRow T e u) : Delivered e active (u :: rest) T T' sendings := by
  refine ⟨h.wf, h.users, fun e' u' p => (h.mem e' u' p).trans ?_, h.sent⟩
  refine and_congr_right fun _ => ⟨fun hu => ⟨List.mem_cons_of_mem _ hu.1, hu.2⟩, fun hu => ⟨?_, hu.2⟩⟩
  rcases List.mem_cons.mp hu.1 with rfl | hmem
  · rcases hskip with hnone | hsent
    · rw [hnone] at hu
      cases hu.2.1
    · exact absurd hsent hu.2.2
  · exact hmem

private theorem mem_snoc {e' u' : UUID} {p p' : PeerId} {went went' : Bool} :
    ⟨e', u', p', went'⟩ ∈ sendings ++ [⟨e, u, p, went⟩] ↔
      ⟨e', u', p', went'⟩ ∈ sendings ∨ e' = e ∧ u' = u ∧ p' = p ∧ went' = went := by
  simp only [List.mem_append, List.mem_singleton, Sending.mk.injEq]

/-- A recipient who is tried gets one message. -/
theorem Delivered.tried {T₁ : Tables} {p : PeerId} {went : Bool} (h : Delivered e active rest T₁ T' sendings)
    (hattempted : Attempted e u went T T₁) (hlookup : active.lookup u = some p) (hunsent : ¬ SentRow T e u)
    (hu : u ∉ rest) : Delivered e active (u :: rest) T T' (sendings ++ [⟨e, u, p, went⟩]) := by
  have hsent := hattempted.sentRow hunsent
  refine ⟨h.wf, ?_, fun e' u' p' => ?_, fun e' u' => ?_⟩
  · rw [List.map_append, List.nodup_append]
    refine ⟨h.users, by simp, ?_⟩
    rintro u₁ hu₁ u₂ hu₂ rfl
    obtain ⟨s, hs, rfl⟩ := List.mem_map.mp hu₁
    have := ((h.mem s.eventUuid s.userId s.peer).mp ⟨s.went, hs⟩).2.1
    have heq : s.userId = u := by simpa using hu₂
    exact hu (heq ▸ this)
  · simp only [mem_snoc]
    by_cases hself : u' = u
    · subst hself
      have hrest : ∀ went', ⟨e', u', p', went'⟩ ∉ sendings := fun went' hmem =>
        hu ((h.mem e' u' p').mp ⟨went', hmem⟩).2.1
      simp only [hrest, false_or, true_and, List.mem_cons, true_or, hlookup, Option.some.injEq, hunsent,
        not_false_eq_true, and_true, eq_comm (a := p)]
      exact ⟨fun ⟨_, he, hp, _⟩ => ⟨he, hp⟩, fun ⟨he, hp⟩ => ⟨went, he, hp, rfl⟩⟩
    · have hsame : SentRow T₁ e u' ↔ SentRow T e u' := (hsent e u').trans (or_iff_left fun hp => hself hp.2.1)
      simp only [hself, false_and, and_false, or_false, List.mem_cons, false_or]
      rw [h.mem, hsame]
  · rw [h.sent, hsent, or_assoc]
    simp only [mem_snoc]
    refine or_congr_right ⟨?_, ?_⟩
    · rintro (⟨rfl, rfl, rfl⟩ | ⟨p', hmem⟩)
      · exact ⟨p, .inr ⟨rfl, rfl, rfl, rfl⟩⟩
      · exact ⟨p', .inl hmem⟩
    · rintro ⟨p', hmem | ⟨rfl, rfl, -, hwent⟩⟩
      · exact .inr ⟨p', hmem⟩
      · exact .inl ⟨rfl, rfl, hwent.symm⟩

theorem IsMark.not_sendMessage {mark : CallEvent} (hmark : IsMark e u mark) (peer : PeerId) (text : String) :
    mark.op ≠ .sendMessage peer text := by
  rcases hmark with ⟨row, rfl⟩ | ⟨category, row, rfl⟩ <;> simp

/-- The recipient loop, recipient by recipient. -/
theorem deliverTo_delivered (hT : T.Wf) (hnodup : rest.Nodup) :
    wp (handler world) (deliverTo e text active rest failed) (fun r h' s => (∃ failed', r = .ok failed') ∧
      ∃ T' sendings, s = ⟨C, T'⟩ ∧ sendingsOf h' = sendings ++ sendingsOf h ∧ Delivered e active rest T T' sendings)
      h ⟨C, T⟩ := by
  induction rest generalizing failed h T with
  | nil => exact ⟨⟨failed, rfl⟩, T, [], rfl, rfl, hT, by simp, by simp, by simp⟩
  | cons u rest ih =>
    obtain ⟨hu, hnodup⟩ := List.nodup_cons.mp hnodup
    refine deliverTo_cons_wp hT (fun hnone => ?_) (fun p d hlookup hrow hstatus => ?_) ?_
    · refine wp_mono (ih hT hnodup) ?_
      rintro r h' s ⟨hr, T', sendings, rfl, hsendings, hdelivered⟩
      exact ⟨hr, T', sendings, rfl, hsendings, hdelivered.skip (.inl hnone)⟩
    · refine wp_mono (ih hT hnodup) ?_
      rintro r h' s ⟨hr, T', sendings, rfl, hsendings, hdelivered⟩
      rw [sendingsOf_cons (by simp)] at hsendings
      exact ⟨hr, T', sendings, rfl, hsendings, hdelivered.skip (.inr ⟨d, hrow, hstatus⟩)⟩
    · intro p row mark T₁ hlookup hunsent hmark hattempted _
      refine wp_mono (ih hattempted.wf hnodup) ?_
      rintro r h' s ⟨hr, T', sendings, rfl, hsendings, hdelivered⟩
      rw [sendingsOf_cons hmark.not_sendMessage, sendingsOf_sent] at hsendings
      refine ⟨hr, T', _, rfl, by rw [hsendings, List.append_cons], hdelivered.tried hattempted hlookup ?_ hu⟩
      rintro ⟨d, hrow, hstatus⟩
      exact hunsent d hrow hstatus

end Loop

namespace Episode

/-- The calls of the request. -/
def calls (settings : VkSettings) (ep : Episode) : CallHistory := (serve settings ep.before ep.visit).2.1

def sendings (settings : VkSettings) (ep : Episode) : List Sending := sendingsOf (ep.calls settings)

end Episode

section Served
variable {settings : VkSettings} {T T' : Tables}

/-- A delivery sends to the active recipients of its command that are not recorded as sent. -/
theorem serve_delivered (settings : VkSettings) (hT : T.Wf) (command : NotificationCommandSendVkData)
    (o : Surroundings) :
    Delivered command.eventUuid (activePeers (UserVkRepository.getByUserIds T command.userIds (some .active)))
      command.userIds T (serve settings T ⟨.deliver command, o⟩).2.2
      ((episode settings T ⟨.deliver command, o⟩).sendings settings) := by
  suffices hrun : wp (handler fun h => o h.length) ((Request.deliver command).prog settings)
      (fun _ h s => Delivered command.eventUuid
        (activePeers (UserVkRepository.getByUserIds T command.userIds (some .active))) command.userIds T s.committed
        (sendingsOf h)) [] ⟨T, T⟩ from hrun
  simp only [Request.prog, wp_bind]
  refine handleCommand_of_loop (wp_mono (deliverTo_delivered hT command.userIds_nodup) ?_)
  rintro r h s ⟨⟨failed, rfl⟩, T', sendings, rfl, hsendings, hdelivered⟩
  have hall : sendingsOf (⟨.close, .ok ()⟩ :: ⟨.commit, .ok ()⟩ :: h) = sendings := by
    rw [sendingsOf_cons (by simp), sendingsOf_cons (by simp), hsendings, sendingsOf_cons (by simp)]
    exact List.append_nil _
  rw [← hall] at hdelivered
  refine ⟨failed, rfl, ?_⟩
  cases failed with
  | true => exact hdelivered
  | false => exact hdelivered

/-- Every message of a delivery is one to a recipient. -/
theorem serve_sends (settings : VkSettings) (command : NotificationCommandSendVkData) (o : Surroundings) (p : PeerId) :
    sendsTo p ((episode settings T ⟨.deliver command, o⟩).calls settings) =
      ((episode settings T ⟨.deliver command, o⟩).sendings settings).countP (·.peer == p) := by
  have hcalls : Conforms (DeliveryCall command) (fun _ _ => True) [] ((Request.deliver command).prog settings) :=
    .mono (fun _ _ hc => hc) (fun _ _ _ => trivial) _ _ (request_conforms settings (.deliver command))
  refine @wp_invariant _ _ _ _ _ (handler fun h => o h.length) [] (Session.start T) (fun h _ =>
    sendsTo p h = (sendingsOf h).countP (·.peer == p)) _ _ _ ?_ hcalls rfl
  intro h c s hc ih
  rw [sendsTo] at ih ⊢
  cases c with
  | sendMessage q text =>
    obtain ⟨-, -, e, u, row, rest, rfl⟩ := hc
    rw [handler_sendMessage, sendingsOf_sent]
    rw [sendingsOf_cons (by simp)] at ih
    rw [List.countP_cons (l := _ :: _), ih, List.countP_cons]
    rfl
  | _ => rw [sendingsOf_cons (by simp), List.countP_cons_of_neg (by simp [CallEvent.isSendTo]), ih]

/-- Only deliveries write to the ledger. -/
theorem Served.ledger {v : Visit} {r : Except Exn Answer} (hserved : Served settings T v r T')
    (hother : ∀ command, v.request ≠ .deliver command) : T'.vkNotificationDeliveries = T.vkNotificationDeliveries := by
  cases hserved with
  | ensured hensured => cases hensured <;> rfl
  | issued hissued =>
    obtain ⟨w₁, w₂, exp, l, hensured, -⟩ := hissued
    cases hensured <;> rfl
  | refused message => rfl
  | unlinked hunlinked => cases hunlinked <;> rfl
  | confirmed he => rfl
  | blocked htrans => cases htrans <;> rfl
  | unblocked htrans => cases htrans <;> rfl
  | delivered hsame hr => exact absurd rfl (hother _)

/-- Only deliveries send to recipients. -/
theorem sendings_other {v : Visit} (hother : ∀ command, v.request ≠ .deliver command) :
    (episode settings T v).sendings settings = [] := by
  refine sendingsOf_eq_nil fun event hevent e u p hop => ?_
  have htraced : Traced (RequestCall settings v.request) (serve settings T v).2.1 :=
    @wp_traced _ _ _ _ _ (handler fun h => v.world h.length) [] (Session.start T) _ _ _
    (request_conforms settings v.request) .nil
  obtain ⟨later, earlier, -, hcall⟩ := htraced.of_mem hevent
  rw [hop] at hcall
  obtain ⟨request, o⟩ := v
  cases request with
  | deliver command => exact hother command rfl
  | _ => cases hcall

/-- What is recorded as sent is what was recorded, or has just been sent. -/
theorem sentRow_serve (hT : T.Wf) (v : Visit) (e u : UUID) : SentRow (serve settings T v).2.2 e u ↔
    SentRow T e u ∨ ∃ p, ⟨e, u, p, true⟩ ∈ (episode settings T v).sendings settings := by
  obtain ⟨request, o⟩ := v
  by_cases hdeliver : ∃ command, request = .deliver command
  · obtain ⟨command, rfl⟩ := hdeliver
    exact (serve_delivered settings hT command o).sent e u
  · have hother : ∀ command, (Visit.mk request o).request ≠ .deliver command := fun command heq =>
      hdeliver ⟨command, heq⟩
    have hledger := (serve_spec settings hT ⟨request, o⟩).1.ledger hother
    rw [sendings_other hother, SentRow, deliveryRow, hledger]
    simp [SentRow, deliveryRow]

end Served

/-- A message for the user about the event went through. -/
def SentEarlier (settings : VkSettings) (eps : List Episode) (e u : UUID) : Prop :=
  ∃ ep ∈ eps, ∃ p, ⟨e, u, p, true⟩ ∈ ep.sendings settings

/-- The state that the last successful block or unblock of the peer led to, if there was one. -/
def lastTransition (p : PeerId) (eps : List Episode) : Option BindingState :=
  ((eps.filterMap Episode.transitions).filter (·.1 == p)).getLast?.map Prod.snd

/-- A confirmation linked the user to the peer, no unlink of the user came after it, and the
events of the peer after it have led to the state. -/
def LinkedSince (u : UUID) (k : Link) (eps : List Episode) : Prop :=
  ∃ past ep since, eps = past ++ ep :: since ∧ ep.confirms u = some (k.peer, k.recordId) ∧
    (∀ x ∈ since, x.unlinks u = false) ∧ k.state = (lastTransition k.peer since).getD .active

section Histories
variable {settings : VkSettings}

theorem sentRow_serveAll (visits : List Visit) (e u : UUID) :
    SentRow (serveAll settings Tables.empty visits) e u ↔
      SentEarlier settings (episodes settings Tables.empty visits) e u := by
  induction visits using List.reverseRecOn with
  | nil => simp [SentRow, deliveryRow, Tables.empty, SentEarlier, episodes]
  | append_singleton visits v ih =>
    rw [serveAll_append, episodes_append]
    simp only [serveAll_cons, serveAll_nil, episodes]
    rw [sentRow_serve (serveAll_consistent settings visits).wf, ih]
    simp only [SentEarlier, List.mem_append, List.mem_singleton, or_and_right, exists_or, exists_eq_left]

theorem lastTransition_snoc (p : PeerId) (eps : List Episode) (ep : Episode) : lastTransition p (eps ++ [ep]) =
    match ep.transitions with
    | some (q, state) => if q = p then some state else lastTransition p eps
    | none => lastTransition p eps := by
  rw [lastTransition, List.filterMap_append, List.filter_append]
  cases htrans : ep.transitions with
  | none => simp [htrans, lastTransition]
  | some change =>
    obtain ⟨q, state⟩ := change
    by_cases hq : q = p <;> simp [htrans, hq, lastTransition]

/-- The last request is behind the confirmation, or is the confirmation. -/
theorem linkedSince_snoc {u : UUID} {k : Link} {eps : List Episode} {ep : Episode} :
    LinkedSince u k (eps ++ [ep]) ↔ (ep.confirms u = some (k.peer, k.recordId) ∧ k.state = .active) ∨
      ∃ k', LinkedSince u k' eps ∧ k'.peer = k.peer ∧ k'.recordId = k.recordId ∧ ep.unlinks u = false ∧
        k.state = (match ep.transitions with
          | some (q, state) => if q = k.peer then state else k'.state
          | none => k'.state) := by
  constructor
  · rintro ⟨past, ep', since, heps, hconfirms, hunlinks, hstate⟩
    rcases List.eq_nil_or_concat since with rfl | ⟨since, last, rfl⟩
    · obtain ⟨-, heq⟩ := List.append_inj' heps rfl
      obtain rfl : ep = ep' := by simpa using heq
      exact .inl ⟨hconfirms, hstate⟩
    · rw [List.concat_eq_append, ← List.cons_append, ← List.append_assoc] at heps
      obtain ⟨rfl, heq⟩ := List.append_inj' heps rfl
      obtain rfl : ep = last := by simpa using heq
      rw [List.concat_eq_append] at hunlinks hstate
      refine .inr ⟨⟨k.recordId, k.peer, (lastTransition k.peer since).getD .active⟩, ⟨past, ep', since, rfl, hconfirms,
        fun x hx => hunlinks x (List.mem_append_left _ hx), rfl⟩, rfl, rfl, hunlinks ep (by simp), ?_⟩
      rw [hstate, lastTransition_snoc]
      cases ep.transitions with
      | none => rfl
      | some change =>
        dsimp only
        split <;> rfl
  · rintro (⟨hconfirms, hstate⟩ | ⟨k', ⟨past, ep', since, rfl, hconfirms, hunlinks, hstate'⟩, hpeer, hid, hunlink, hstate⟩)
    · exact ⟨eps, ep, [], rfl, hconfirms, by simp, hstate⟩
    · refine ⟨past, ep', since ++ [ep], by simp, by rw [← hpeer, ← hid]; exact hconfirms, ?_, ?_⟩
      · simp only [List.mem_append, List.mem_singleton]
        rintro x (hx | rfl)
        · exact hunlinks x hx
        · exact hunlink
      · rw [hstate, lastTransition_snoc, hstate', hpeer]
        cases ep.transitions with
        | none => rfl
        | some change =>
          dsimp only
          split <;> rfl

/-- The link in the tables is the link of the history. -/
theorem linkOf_serveAll (visits : List Visit) (u : UUID) (k : Link) :
    linkOf (serveAll settings Tables.empty visits) u = some k ↔
      LinkedSince u k (episodes settings Tables.empty visits) := by
  induction visits using List.reverseRecOn generalizing k with
  | nil => simp [linkOf, userRow, Tables.empty, LinkedSince, episodes]
  | append_singleton visits v ih =>
    have hT := serveAll_consistent settings visits
    rw [serveAll_append, episodes_append]
    simp only [serveAll_cons, serveAll_nil, episodes]
    rw [linkOf_serve hT, linkedSince_snoc]
    generalize hep : episode settings (serveAll settings Tables.empty visits) v = ep
    rw [Episode.relink]
    cases hconfirms : ep.confirms u with
    | some peer =>
      have hnone := linkOf_of_confirms hT (u := u) (v := v) (by rw [hep, hconfirms]; simp)
      have hbefore : ∀ k', ¬ LinkedSince u k' (episodes settings Tables.empty visits) := by
        intro k' hk'
        rw [← ih, hnone] at hk'
        cases hk'
      obtain ⟨peer, recordId⟩ := peer
      obtain ⟨recordId', peer', state⟩ := k
      simp only [hbefore, false_and, exists_false, or_false, Option.some.injEq, Link.mk.injEq, Prod.mk.injEq]
      constructor
      · rintro ⟨h, h', h''⟩
        exact ⟨⟨h', h⟩, h''.symm⟩
      · rintro ⟨⟨h, h'⟩, h''⟩
        exact ⟨h', h, h''.symm⟩
    | none =>
      simp only [reduceCtorEq, false_and, false_or]
      cases hunlinks : ep.unlinks u with
      | true => simp
      | false =>
        simp only [Bool.false_eq_true, ↓reduceIte, true_and]
        constructor
        · intro hlink
          cases htrans : ep.transitions with
          | none =>
            rw [htrans] at hlink
            exact ⟨k, (ih k).mp hlink, rfl, rfl, rfl⟩
          | some change =>
            obtain ⟨q, state⟩ := change
            rw [htrans] at hlink
            obtain ⟨k', hk', rfl⟩ := Option.map_eq_some_iff.mp hlink
            refine ⟨k', (ih k').mp hk', ?_⟩
            by_cases hq : k'.peer = q
            · simp [hq]
            · simp [hq, Ne.symm hq]
        · rintro ⟨k', hk', hpeer, hid, hstate⟩
          rw [← ih] at hk'
          obtain ⟨recordId, peer, state⟩ := k
          obtain ⟨recordId', peer', state'⟩ := k'
          obtain rfl : peer' = peer := hpeer
          obtain rfl : recordId' = recordId := hid
          dsimp only at hstate
          rw [hk', hstate]
          cases ep.transitions with
          | none => rfl
          | some change =>
            obtain ⟨q, s⟩ := change
            by_cases hq : peer' = q
            · simp [hq]
            · simp [hq, Ne.symm hq]

theorem recipientPeer_iff_linkOf {T : Tables} {u : UUID} {p : PeerId} :
    recipientPeer T u = some p ↔ ∃ recordId, linkOf T u = some ⟨recordId, p, .active⟩ := by
  rw [recipientPeer, linkOf]
  cases userRow T u with
  | none => simp
  | some b =>
    simp only [Option.bind_some, UserVk.link, Option.ite_none_right_eq_some, Option.map_eq_some_iff, Link.mk.injEq]
    constructor
    · rintro ⟨hactive, hpeer⟩
      exact ⟨b.id, p, hpeer, rfl, rfl, hactive⟩
    · rintro ⟨_, _, hpeer, -, rfl, hactive⟩
      exact ⟨hactive, hpeer⟩

end Histories

/-- The history says that the user gets the command's message at the peer: it was linked by a
confirmation, not unlinked since, not last blocked, and nothing was sent for the event. -/
def Receives (settings : VkSettings) (earlier : List Episode) (command : NotificationCommandSendVkData) (u : UUID)
    (p : PeerId) : Prop :=
  u ∈ command.userIds ∧ ¬ SentEarlier settings earlier command.eventUuid u ∧
    ∃ past ep since, earlier = past ++ ep :: since ∧ (∃ recordId, ep.confirms u = some (p, recordId)) ∧
      (∀ x ∈ since, x.unlinks u = false) ∧ ∀ state, lastTransition p since = some state → state = .active

theorem recipientPeer_serveAll {settings : VkSettings} (visits : List Visit) (u : UUID) (p : PeerId) :
    recipientPeer (serveAll settings Tables.empty visits) u = some p ↔
      ∃ past ep since, episodes settings Tables.empty visits = past ++ ep :: since ∧
        (∃ recordId, ep.confirms u = some (p, recordId)) ∧ (∀ x ∈ since, x.unlinks u = false) ∧
        ∀ state, lastTransition p since = some state → state = .active := by
  have hstate : ∀ since : List Episode, .active = (lastTransition p since).getD .active ↔
      ∀ state, lastTransition p since = some state → state = .active := by
    intro since
    cases lastTransition p since <;> simp [eq_comm]
  simp only [recipientPeer_iff_linkOf, linkOf_serveAll, LinkedSince, hstate]
  constructor
  · rintro ⟨recordId, past, ep, since, heps, hconfirms, hrest⟩
    exact ⟨past, ep, since, heps, ⟨recordId, hconfirms⟩, hrest⟩
  · rintro ⟨past, ep, since, heps, ⟨recordId, hconfirms⟩, hrest⟩
    exact ⟨recordId, past, ep, since, heps, hconfirms, hrest⟩

/-- The messages of a delivery, from the tables it starts with. -/
theorem Delivered.countP {e : UUID} {active : List (UUID × PeerId)} {rest : List UUID} {T T' : Tables}
    {sendings : List Sending} (h : Delivered e active rest T T' sendings) (u : UUID) (p : PeerId) :
    (u ∈ rest ∧ active.lookup u = some p ∧ ¬ SentRow T e u →
      sendings.countP (fun s => s.userId == u && s.peer == p) = 1) ∧
    (¬ (u ∈ rest ∧ active.lookup u = some p ∧ ¬ SentRow T e u) →
      sendings.countP (fun s => s.userId == u && s.peer == p) = 0) := by
  constructor
  · intro hin
    obtain ⟨went, hmem⟩ := (h.mem e u p).mpr ⟨rfl, hin⟩
    have hle : sendings.countP (fun s => s.userId == u && s.peer == p) ≤ 1 := by
      refine le_trans (List.countP_mono_left (q := fun s => s.userId == u) fun s _ hs => ?_) ?_
      · simp only [Bool.and_eq_true] at hs
        exact hs.1
      · have hcount := List.nodup_iff_count_le_one.mp h.users u
        rwa [List.count, List.countP_map] at hcount
    have hpos : 0 < sendings.countP (fun s => s.userId == u && s.peer == p) :=
      List.countP_pos_iff.mpr ⟨_, hmem, by simp⟩
    omega
  · intro hout
    refine List.countP_eq_zero.mpr fun s hs hbad => hout ?_
    obtain ⟨-, hrest⟩ := (h.mem s.eventUuid s.userId s.peer).mp ⟨s.went, hs⟩
    simp only [Bool.and_eq_true, beq_iff_eq] at hbad
    rw [hbad.1, hbad.2] at hrest
    exact hrest

/-- A delivery sends one message to each recipient that the history before it names, and no
other message. -/
theorem recipients_from_history (settings : VkSettings) (visits : List Visit) (earlier : List Episode) (ep : Episode)
    (later : List Episode) (command : NotificationCommandSendVkData)
    (heps : episodes settings Tables.empty visits = earlier ++ ep :: later)
    (hreq : ep.visit.request = .deliver command) :
    (∀ u p, (Receives settings earlier command u p →
        (ep.sendings settings).countP (fun s => s.userId == u && s.peer == p) = 1) ∧
      (¬ Receives settings earlier command u p →
        (ep.sendings settings).countP (fun s => s.userId == u && s.peer == p) = 0)) ∧
    (∀ s ∈ ep.sendings settings, s.eventUuid = command.eventUuid) ∧
    ∀ p, sendsTo p (ep.calls settings) = (ep.sendings settings).countP (·.peer == p) := by
  obtain ⟨vs, ⟨request, o⟩, vs', -, rfl, rfl⟩ := episodes_split heps
  obtain rfl : request = .deliver command := hreq
  have hT := (serveAll_consistent settings vs).wf
  have hdelivered := serve_delivered settings hT command o
  have hreceives : ∀ u p, Receives settings (episodes settings Tables.empty vs) command u p ↔
      u ∈ command.userIds ∧ (activePeers (UserVkRepository.getByUserIds (serveAll settings Tables.empty vs)
        command.userIds (some .active))).lookup u = some p ∧
        ¬ SentRow (serveAll settings Tables.empty vs) command.eventUuid u := by
    intro u p
    refine and_congr_right fun hu => ?_
    rw [lookup_activePeers hT hu, sentRow_serveAll, recipientPeer_serveAll, and_comm]
  refine ⟨fun u p => ?_, fun s hs => ?_, serve_sends settings command o⟩
  · rw [hreceives]
    exact hdelivered.countP u p
  · exact ((hdelivered.mem s.eventUuid s.userId s.peer).mp ⟨s.went, hs⟩).1

/-- User 7 links peer 1. -/
def linkingOnce : List Visit :=
  [⟨.issueConfirmation 7, fun _ => .still 0⟩, ⟨.confirm "AAAA".toList 1 none none, fun _ => .still 0⟩]

/-- After the confirmation the user's message goes to peer 1. -/
theorem recipients_from_history_linkingOnce :
    (((episode .least (serveAll .least Tables.empty linkingOnce)
      ⟨.deliver ⟨3, [7], "text", by decide, by decide⟩, fun _ => .still 0⟩).sendings .least).countP
        fun s => s.userId == 7 && s.peer == 1) = 1 := by
  have hsent : ∀ ep ∈ episodes .least Tables.empty linkingOnce, ep.sendings .least = [] := by decide +kernel
  refine ((recipients_from_history .least (linkingOnce ++ [⟨.deliver ⟨3, [7], "text", by decide, by decide⟩,
    fun _ => .still 0⟩]) (episodes .least Tables.empty linkingOnce) _ [] ⟨3, [7], "text", by decide, by decide⟩ rfl
    rfl).1 7 1).1 ⟨by decide, ?_, [episode .least Tables.empty ⟨.issueConfirmation 7, fun _ => .still 0⟩], _, [], rfl,
      ⟨0, rfl⟩, by simp, fun state hstate => by simp [lastTransition] at hstate⟩
  rintro ⟨ep, hep, p, hmem⟩
  rw [hsent ep hep] at hmem
  cases hmem

end VkService
