import VkService.Messaging.SendCommand
import VkService.Sequential.Redelivery

/-! One delivery as a function of each recipient: the row that the ledger holds afterwards
depends on the row before, the recipient's peer and what VK answers for it. -/
namespace VkService
open Effects Effects.Prog UserVkRepository VkNotificationDeliveryRepository

/-- A run of `deliver`: its result, its calls and the tables of its session. -/
def deliverAlone (command : NotificationCommandSendVkData) (o : Surroundings) (T : Tables) :
    Except Exn Unit × CallHistory × Tables :=
  let out := (deliver command).run (handler fun h => o h.length) [] (Session.start T)
  (out.1, out.2.1, out.2.2.working)

/-- Surroundings in which VK answers each peer the same at every call. -/
def Surroundings.answering (accepts : PeerId → Bool) (o : Surroundings) : Surroundings :=
  fun n => { o n with accepts := accepts }

/-- The messages sent, in their order, with the answers. -/
def CallEvent.message : CallEvent → Option (PeerId × String × Except Exn Bool)
  | ⟨.sendMessage p text, answer⟩ => some (p, text, answer)
  | _ => none

def messagesOf (h : CallHistory) : List (PeerId × String × Except Exn Bool) := h.reverse.filterMap CallEvent.message

/-- The row without its readings of the clock. -/
def shownRow (d : VkNotificationDelivery) : VkNotificationDelivery :=
  { d with updatedAt := 0, sentAt := d.sentAt.map fun _ => 0 }

def isSent (T : Tables) (e u : UUID) : Bool := (deliveryRow T e u).any (·.status == .sent)

/-- The peer that a recipient is tried at: its own, unless the message went through before. -/
def tryPeer (active : UUID → Option PeerId) (T : Tables) (e u : UUID) : Option PeerId :=
  if isSent T e u then none else active u

/-- The recipient's row after a delivery that tries it at `peer?`. -/
def rowAfter (w w' : World) (accepts : PeerId → Bool) (e u : UUID) (peer? : Option PeerId)
    (row : Option VkNotificationDelivery) : Option VkNotificationDelivery :=
  match peer? with
  | none => row
  | some p => some (markedRow w' (accepts p) (claimedRow w e u p row))

section Rows
variable {e u : UUID} {T T' : Tables}

theorem messagesOf_cons (event : CallEvent) (h : CallHistory) :
    messagesOf (event :: h) = messagesOf h ++ event.message.toList := by
  rw [messagesOf, List.reverse_cons, List.filterMap_append, ← messagesOf]
  cases hm : event.message <;> simp [hm]

/-- Only the clock tells two deliveries of a row apart. -/
theorem rowAfter_shown (w₁ w₁' w₂ w₂' : World) (accepts : PeerId → Bool) (peer? : Option PeerId)
    (row : Option VkNotificationDelivery) :
    (rowAfter w₁ w₁' accepts e u peer? row).map shownRow = (rowAfter w₂ w₂' accepts e u peer? row).map shownRow := by
  cases peer? with
  | none => rfl
  | some p =>
    cases hwent : accepts p <;> cases row <;> simp [rowAfter, markedRow, claimedRow, hwent, shownRow, sent, failed,
      reclaimed]

theorem SameButLedger.trans {T'' : Tables} (h : SameButLedger T T') (h' : SameButLedger T' T'') : SameButLedger T T'' :=
  ⟨h'.1.trans h.1, h'.2.1.trans h.2.1, h'.2.2.trans h.2.2⟩

theorem isSent_iff : isSent T e u = true ↔ ∃ d, deliveryRow T e u = some d ∧ d.status = .sent := by
  simp [isSent, Option.any_eq_true]

theorem tryPeer_congr {active : UUID → Option PeerId} (h : deliveryRow T' e u = deliveryRow T e u) :
    tryPeer active T' e u = tryPeer active T e u := by
  rw [tryPeer, tryPeer, isSent, isSent, h]

end Rows

/-- What the recipient loop leaves behind, from what it finds. -/
structure LoopDone (o : Surroundings) (accepts : PeerId → Bool) (e : UUID) (text : String)
    (active : UUID → Option PeerId)
    (rest : List UUID) (failed : Bool) (h : CallHistory) (T : Tables) (r : Except Exn Bool) (h' : CallHistory)
    (T' : Tables) : Prop where
  wf : T'.Wf
  same : SameButLedger T T'
  other : ∀ e' u', ¬ (e' = e ∧ u' ∈ rest) → deliveryRow T' e' u' = deliveryRow T e' u'
  row : ∀ u ∈ rest, ∃ k, h.length ≤ k ∧
    deliveryRow T' e u = rowAfter (o k) (o (k + 2)) accepts e u (tryPeer active T e u) (deliveryRow T e u)
  head : ∀ u ∈ rest.head?, deliveryRow T' e u =
    rowAfter (o h.length) (o (h.length + 2)) accepts e u (tryPeer active T e u) (deliveryRow T e u)
  messages : messagesOf h' = messagesOf h ++
    (rest.filterMap (tryPeer active T e)).map fun p => (p, text, .ok (accepts p))
  result : r = .ok (failed || (rest.filterMap (tryPeer active T e)).any (!accepts ·))

section Loop
variable {o : Surroundings} {accepts : PeerId → Bool} {e u : UUID} {text : String} {active : UUID → Option PeerId}
  {rest : List UUID} {failed : Bool} {h h₁ h' : CallHistory} {T T₁ T' : Tables} {r : Except Exn Bool}

theorem LoopDone.congr {active' : UUID → Option PeerId}
    (hdone : LoopDone o accepts e text active rest failed h T r h' T') (heq : ∀ u ∈ rest, active u = active' u) :
    LoopDone o accepts e text active' rest failed h T r h' T' := by
  have htry : ∀ u ∈ rest, tryPeer active T e u = tryPeer active' T e u := fun u hu => by rw [tryPeer, tryPeer, heq u hu]
  have hall : rest.filterMap (tryPeer active T e) = rest.filterMap (tryPeer active' T e) := List.filterMap_congr htry
  refine ⟨hdone.wf, hdone.same, hdone.other, fun u hu => ?_, fun u hu => ?_, ?_, ?_⟩
  · rw [← htry u hu]
    exact hdone.row u hu
  · rw [← htry u (List.mem_of_mem_head? hu)]
    exact hdone.head u hu
  · rw [hdone.messages, hall]
  · rw [hdone.result, hall]

/-- A recipient that is not tried keeps its row. -/
theorem LoopDone.skip (hdone : LoopDone o accepts e text active rest failed h₁ T r h' T') (hu : u ∉ rest)
    (hnone : tryPeer active T e u = none) (hlen : h.length ≤ h₁.length) (hmessages : messagesOf h₁ = messagesOf h) :
    LoopDone o accepts e text active (u :: rest) failed h T r h' T' where
  wf := hdone.wf
  same := hdone.same
  other e' u' hne := hdone.other e' u' fun hin => hne ⟨hin.1, List.mem_cons_of_mem _ hin.2⟩
  row u' hu' := by
    obtain rfl | hu' := List.mem_cons.mp hu'
    · refine ⟨h.length, le_rfl, ?_⟩
      rw [hnone, hdone.other e u' fun hin => hu hin.2]
      rfl
    · obtain ⟨k, hk, hrow⟩ := hdone.row u' hu'
      exact ⟨k, hlen.trans hk, hrow⟩
  head u' hu' := by
    obtain rfl := Option.some.inj hu'
    rw [hnone, hdone.other e u fun hin => hu hin.2]
    rfl
  messages := by rw [hdone.messages, hmessages, List.filterMap_cons_none hnone]
  result := by rw [hdone.result, List.filterMap_cons_none hnone]

/-- A recipient that is tried has the row of its attempt. -/
theorem LoopDone.tried {p : PeerId} (hdone : LoopDone o accepts e text active rest (failed || !accepts p) h₁ T₁ r h' T')
    (hu : u ∉ rest) (hpeer : tryPeer active T e u = some p) (hattempted : Attempted e u (accepts p) T T₁)
    (hrow : deliveryRow T₁ e u =
      some (markedRow (o (h.length + 2)) (accepts p) (claimedRow (o h.length) e u p (deliveryRow T e u))))
    (hlen : h.length ≤ h₁.length) (hmessages : messagesOf h₁ = messagesOf h ++ [(p, text, .ok (accepts p))]) :
    LoopDone o accepts e text active (u :: rest) failed h T r h' T' := by
  have hrest : ∀ u' ∈ rest, deliveryRow T₁ e u' = deliveryRow T e u' :=
    fun u' hu' => hattempted.other e u' fun hin => hu (hin.2 ▸ hu')
  have htry : rest.filterMap (tryPeer active T₁ e) = rest.filterMap (tryPeer active T e) :=
    List.filterMap_congr fun u' hu' => tryPeer_congr (hrest u' hu')
  have hown : deliveryRow T' e u =
      rowAfter (o h.length) (o (h.length + 2)) accepts e u (tryPeer active T e u) (deliveryRow T e u) := by
    rw [hdone.other e u fun hin => hu hin.2, hrow, hpeer]
    rfl
  refine ⟨hdone.wf, hattempted.same.trans hdone.same, fun e' u' hne => ?_, fun u' hu' => ?_, fun u' hu' => ?_, ?_, ?_⟩
  · rw [hdone.other e' u' fun hin => hne ⟨hin.1, List.mem_cons_of_mem _ hin.2⟩]
    exact hattempted.other e' u' fun hin => hne ⟨hin.1, hin.2 ▸ List.mem_cons_self⟩
  · obtain rfl | hu' := List.mem_cons.mp hu'
    · exact ⟨h.length, le_rfl, hown⟩
    · obtain ⟨k, hk, hk'⟩ := hdone.row u' hu'
      rw [tryPeer_congr (hrest u' hu'), hrest u' hu'] at hk'
      exact ⟨k, hlen.trans hk, hk'⟩
  · obtain rfl := Option.some.inj hu'
    exact hown
  · rw [hdone.messages, hmessages, htry, List.filterMap_cons_some hpeer, List.map_cons, List.append_assoc]
    rfl
  · rw [hdone.result, htry, List.filterMap_cons_some hpeer, List.any_cons, Bool.or_assoc]

theorem IsMark.message {mark : CallEvent} (h : IsMark e u mark) : mark.message = none := by
  obtain ⟨row, rfl⟩ | ⟨category, row, rfl⟩ := h
  · rfl
  · rfl

/-- The loop over distinct recipients treats each on its own. -/
theorem deliverTo_done {C : Tables} {peers : List (UUID × PeerId)} (haccepts : ∀ n, (o n).accepts = accepts) (hT : T.Wf)
    (hnodup : rest.Nodup) :
    wp (handler fun h => o h.length) (deliverTo e text peers rest failed)
      (fun r h' s => LoopDone o accepts e text (fun u => peers.lookup u) rest failed h T r h' s.working) h ⟨C, T⟩ := by
  induction rest generalizing failed h T with
  | nil =>
    show LoopDone o accepts e text (fun u => peers.lookup u) [] failed h T (.ok failed) h T
    refine ⟨hT, ⟨rfl, rfl, rfl⟩, fun _ _ _ => rfl, fun _ hu => (nomatch hu), fun _ hu => (nomatch hu), ?_, ?_⟩
    · rw [List.filterMap_nil, List.map_nil, List.append_nil]
    · rw [List.filterMap_nil, List.any_nil, Bool.or_false]
  | cons u rest ih =>
    obtain ⟨hu, hnodup⟩ := List.nodup_cons.mp hnodup
    refine deliverTo_cons_wp hT (fun hnone => ?_) (fun p d hlookup hrow hstatus => ?_) ?_
    · refine wp_mono (ih hT hnodup) fun r h' s hdone => hdone.skip hu ?_ le_rfl rfl
      rw [tryPeer, hnone, ite_self]
    · refine wp_mono (ih hT hnodup) fun r h' s hdone => hdone.skip hu ?_ (Nat.le_succ _) ?_
      · exact if_pos (isSent_iff.mpr ⟨d, hrow, hstatus⟩)
      · rw [messagesOf_cons]
        exact List.append_nil _
    · intro p row mark T₁ hlookup hunsent hmark hattempted hrow
      have hpeer : tryPeer (fun u => peers.lookup u) T e u = some p := by
        rw [tryPeer, if_neg, hlookup]
        rw [isSent_iff]
        rintro ⟨d, hd, hsent⟩
        exact hunsent d hd hsent
      simp only [haccepts, List.length_cons] at hattempted hrow ⊢
      refine wp_mono (ih hattempted.wf hnodup) fun r h' s hdone =>
        hdone.tried hu hpeer hattempted hrow (by simp only [List.length_cons]; omega) ?_
      rw [messagesOf_cons, messagesOf_cons, messagesOf_cons, hmark.message]
      simp [CallEvent.message]

end Loop

section Deliver
variable {o : Surroundings} {accepts : PeerId → Bool} {T : Tables}

/-- The loop of a command starts after the bindings are read. -/
theorem deliverAlone_done (command : NotificationCommandSendVkData) (haccepts : ∀ n, (o n).accepts = accepts)
    (hT : T.Wf) :
    ∃ failed h, h.length = 1 ∧ messagesOf h = [] ∧
      LoopDone o accepts command.eventUuid command.text (recipientPeer T) command.userIds false h T (.ok failed)
        (deliverAlone command o T).2.1 (deliverAlone command o T).2.2 ∧
      (deliverAlone command o T).1 = if failed then .error .deliveryRetryable else .ok () := by
  suffices hrun : wp (handler fun h => o h.length) (deliver command) (fun r h' s => ∃ failed h, h.length = 1 ∧
      messagesOf h = [] ∧ LoopDone o accepts command.eventUuid command.text (recipientPeer T) command.userIds false h T
        (.ok failed) h' s.working ∧ r = if failed then .error .deliveryRetryable else .ok ()) []
        (Session.start T) from hrun
  simp only [deliver, await, wp_bind, wp_perform, handler_getByUserIds, andThen_ok, Session.start]
  refine wp_mono (deliverTo_done haccepts hT command.userIds_nodup) fun r h' s hdone => ?_
  replace hdone := hdone.congr fun u hu => lookup_activePeers hT hu
  obtain ⟨failed, rfl⟩ : ∃ failed, r = .ok failed := ⟨_, hdone.result⟩
  cases failed with
  | true => exact ⟨true, _, rfl, rfl, hdone, rfl⟩
  | false => exact ⟨false, _, rfl, rfl, hdone, rfl⟩

/-- Two deliveries of an event show the same row for a recipient of both. -/
theorem deliverAlone_shown {o' : Surroundings} {command command' : NotificationCommandSendVkData} {u : UUID}
    (haccepts : ∀ n, (o n).accepts = accepts) (haccepts' : ∀ n, (o' n).accepts = accepts) (hT : T.Wf)
    (hevent : command'.eventUuid = command.eventUuid) (hu : u ∈ command.userIds) (hu' : u ∈ command'.userIds) :
    (deliveryRow (deliverAlone command o T).2.2 command.eventUuid u).map shownRow =
      (deliveryRow (deliverAlone command' o' T).2.2 command.eventUuid u).map shownRow := by
  obtain ⟨_, _, _, _, hdone, _⟩ := deliverAlone_done command haccepts hT
  obtain ⟨_, _, _, _, hdone', _⟩ := deliverAlone_done command' haccepts' hT
  rw [hevent] at hdone'
  obtain ⟨k, -, hrow⟩ := hdone.row u hu
  obtain ⟨k', -, hrow'⟩ := hdone'.row u hu'
  rw [hrow, hrow']
  exact rowAfter_shown ..

end Deliver

/-- A delivery treats its recipients independently. Each row is the one that a command to this
recipient alone leaves, in surroundings that start when the loop comes to it, so that only the
clock's readings tell it from any other run, in any order of the recipients. No other row is
touched. Each recipient with a peer that was not sent to before gets one message, in the order of
the list, and the command is to be retried exactly when VK refused one of these messages. -/
theorem delivery_row_by_row {T : Tables} (hT : T.Wf) (e : UUID) (listed : List UUID) (hne : listed ≠ []) (text : String)
    (accepts : PeerId → Bool) (o : Surroundings) :
    let after := deliverAlone (validatedCommand e listed hne text) (o.answering accepts) T
    let alone := fun (u : UUID) (o' : Surroundings) =>
      deliverAlone (validatedCommand e [u] (List.cons_ne_nil u []) text) (o'.answering accepts) T
    let tried := (deduplicateUserIds listed).filterMap fun u => if isSent T e u then none else recipientPeer T u
    after.2.2.Wf ∧
    (∀ u ∈ listed, (∃ n, deliveryRow after.2.2 e u = deliveryRow (alone u fun m => o (n + m)).2.2 e u) ∧
      ∀ o', (deliveryRow after.2.2 e u).map shownRow = (deliveryRow (alone u o').2.2 e u).map shownRow) ∧
    (∀ (listed' : List UUID) (hne' : listed' ≠ []) (o' : Surroundings), listed'.Perm listed → ∀ e' u,
       (deliveryRow after.2.2 e' u).map shownRow = (deliveryRow
        (deliverAlone (validatedCommand e listed' hne' text) (o'.answering accepts) T).2.2 e' u).map shownRow) ∧
    (∀ e' u, ¬ (e' = e ∧ u ∈ listed) → deliveryRow after.2.2 e' u = deliveryRow T e' u) ∧ SameButLedger T after.2.2 ∧
    messagesOf after.2.1 = tried.map (fun p => (p, text, .ok (accepts p))) ∧
    after.1 = if ∃ p ∈ tried, accepts p = false then .error .deliveryRetryable else .ok () := by
  intro after alone tried
  have hanswers : ∀ (o : Surroundings) n, (o.answering accepts n).accepts = accepts := fun _ _ => rfl
  obtain ⟨failed, h, hlen, hnone, hdone, hresult⟩ :=
    deliverAlone_done (validatedCommand e listed hne text) (hanswers o) hT
  have hmem : ∀ {u : UUID} {listed : List UUID} (hne : listed ≠ []),
      u ∈ (validatedCommand e listed hne text).userIds ↔ u ∈ listed := fun _ => mem_deduplicateUserIds
  have hother : ∀ e' u, ¬ (e' = e ∧ u ∈ listed) → deliveryRow after.2.2 e' u = deliveryRow T e' u :=
    fun e' u hnot => hdone.other e' u fun hin => hnot ⟨hin.1, (hmem hne).mp hin.2⟩
  refine ⟨hdone.wf, fun u hu => ⟨?_, fun o' => ?_⟩, fun listed' hne' o' hperm e' u => ?_, hother, hdone.same, ?_, ?_⟩
  · obtain ⟨k, hk, hrow⟩ := hdone.row u ((hmem hne).mpr hu)
    obtain ⟨n, rfl⟩ : ∃ n, k = n + 1 := ⟨k - 1, by omega⟩
    refine ⟨n, ?_⟩
    obtain ⟨_, h', hlen', _, hdone', _⟩ := deliverAlone_done (validatedCommand e [u] (List.cons_ne_nil u []) text)
      (hanswers fun m => o (n + m)) hT
    refine hrow.trans (Eq.trans ?_ (hdone'.head u rfl).symm)
    rw [hlen']
    rfl
  · exact deliverAlone_shown (hanswers o) (hanswers o') hT rfl ((hmem hne).mpr hu)
      ((hmem _).mpr (List.mem_singleton_self u))
  · by_cases hin : e' = e ∧ u ∈ listed
    · obtain ⟨rfl, hu⟩ := hin
      exact deliverAlone_shown (hanswers o) (hanswers o') hT rfl ((hmem hne).mpr hu)
        ((hmem hne').mpr (hperm.mem_iff.mpr hu))
    · obtain ⟨_, _, _, _, hdone', _⟩ := deliverAlone_done (validatedCommand e listed' hne' text) (hanswers o') hT
      rw [hother e' u hin, hdone'.other e' u fun hin' => hin ⟨hin'.1, hperm.mem_iff.mp ((hmem hne').mp hin'.2)⟩]
  · rw [hdone.messages, hnone]
    rfl
  · have hfailed : failed = true ↔ ∃ p ∈ tried, accepts p = false := by
      rw [Except.ok.inj hdone.result, Bool.false_or, List.any_eq_true]
      refine exists_congr fun p => and_congr_right fun _ => ?_
      rw [Bool.not_eq_true']
    rw [hresult]
    exact if_congr hfailed rfl rfl

/-- User 7 is listed twice and has a peer, user 8 has none: one message is sent, and VK refuses it. -/
theorem delivery_row_by_row_refused :
    let after := deliverAlone (validatedCommand 3 [7, 8, 7] (by decide) "text")
      (Surroundings.answering (fun _ => false) fun _ => .still 0) linkedOnce
    messagesOf after.2.1 = [(1, "text", .ok false)] ∧ after.1 = .error .deliveryRetryable := by
  have hconsistent : Consistent linkedOnce := serveAll_consistent .least _
  obtain ⟨-, -, -, -, -, hmessages, hresult⟩ :=
    delivery_row_by_row hconsistent.wf 3 [7, 8, 7] (by decide) "text" (fun _ => false) fun _ => .still 0
  have htried : (deduplicateUserIds [7, 8, 7]).filterMap
      (fun u => if isSent linkedOnce 3 u then none else recipientPeer linkedOnce u) = [1] := by decide +kernel
  rw [htried] at hmessages hresult
  exact ⟨hmessages, hresult⟩

end VkService
