import VkService.Sequential.Operations

/-! A delivery that runs alone, recipient by recipient: who is tried, and what the ledger
holds after an attempt. -/
namespace VkService
open PyStr Effects Effects.Prog UserVkRepository VkNotificationDeliveryRepository

/-- The peer that a user's notifications go to. -/
def recipientPeer (T : Tables) (userId : UUID) : Option PeerId :=
  (userRow T userId).bind fun b => if b.state = .active then b.vkPeerId else none

section Recipients
variable {T : Tables}

theorem recipientPeer_eq_some (hT : T.Wf) {u : UUID} {p : PeerId} : recipientPeer T u = some p ↔
    ∃ b ∈ T.userVks, b.userId = u ∧ b.live = true ∧ b.state = .active ∧ b.vkPeerId = some p := by
  simp only [recipientPeer, Option.bind_eq_some_iff, Option.ite_none_right_eq_some]
  constructor
  · rintro ⟨b, hrow, hactive, hpeer⟩
    obtain ⟨hb, huser, hlive⟩ := userRow_some hrow
    exact ⟨b, hb, huser, hlive, hactive, hpeer⟩
  · rintro ⟨b, hb, rfl, hlive, hactive, hpeer⟩
    exact ⟨b, hT.userRow_of_mem hb hlive, hactive, hpeer⟩

/-- Different users get their notifications at different peers. -/
theorem recipientPeer_injective (hT : T.Wf) {u u' : UUID} {p : PeerId} (hu : recipientPeer T u = some p)
    (hu' : recipientPeer T u' = some p) : u = u' := by
  obtain ⟨b, hb, rfl, hlive, -, hpeer⟩ := (recipientPeer_eq_some hT).mp hu
  obtain ⟨b', hb', rfl, hlive', -, hpeer'⟩ := (recipientPeer_eq_some hT).mp hu'
  have hrow := hT.peerRow_of_mem hb hlive hpeer
  rw [hT.peerRow_of_mem hb' hlive' hpeer'] at hrow
  rw [Option.some.inj hrow]

theorem lookup_eq_some_iff {α β : Type} [BEq α] [LawfulBEq α] {l : List (α × β)} {a : α}
    (h : ∀ b b', (a, b) ∈ l → (a, b') ∈ l → b = b') {b : β} : l.lookup a = some b ↔ (a, b) ∈ l := by
  induction l with
  | nil => simp
  | cons x l ih =>
    obtain ⟨a', b'⟩ := x
    have hrest := ih fun b b' hb hb' => h b b' (List.mem_cons_of_mem _ hb) (List.mem_cons_of_mem _ hb')
    by_cases ha : a = a'
    · subst ha
      rw [List.lookup_cons_self, Option.some.injEq]
      exact ⟨fun hb => by simp [hb], fun hb => h _ _ (by simp) hb⟩
    · rw [List.lookup_cons, beq_false_of_ne ha]
      simpa [ha] using hrest

theorem mem_activePeers {bindings : List UserVk} {u : UUID} {p : PeerId} :
    (u, p) ∈ activePeers bindings ↔ ∃ b ∈ bindings, b.userId = u ∧ b.live = true ∧ b.vkPeerId = some p := by
  simp only [activePeers, List.mem_filterMap, List.mem_reverse]
  refine exists_congr fun b => and_congr_right fun _ => ?_
  cases b.live <;> cases b.vkPeerId <;> simp

/-- The dict of active peers holds the recipient's peer. -/
theorem lookup_activePeers (hT : T.Wf) {userIds : List UUID} {u : UUID} (hu : u ∈ userIds) :
    (activePeers (getByUserIds T userIds (some .active))).lookup u = recipientPeer T u := by
  have hmem : ∀ p, (u, p) ∈ activePeers (getByUserIds T userIds (some .active)) ↔ recipientPeer T u = some p := by
    intro p
    rw [mem_activePeers, recipientPeer_eq_some hT]
    refine exists_congr fun b => ?_
    simp only [getByUserIds, List.mem_filter, Option.all_some, Bool.and_eq_true, beq_iff_eq, List.contains_iff_mem]
    constructor
    · rintro ⟨⟨hb, ⟨-, hlive⟩, hactive⟩, huser, -, hpeer⟩
      exact ⟨hb, huser, hlive, hactive, hpeer⟩
    · rintro ⟨hb, huser, hlive, hactive, hpeer⟩
      exact ⟨⟨hb, ⟨huser ▸ hu, hlive⟩, hactive⟩, huser, hlive, hpeer⟩
  refine Option.ext fun p => ?_
  rw [lookup_eq_some_iff, hmem]
  intro p p' hp hp'
  rw [hmem] at hp hp'
  exact Option.some.inj (hp.symm.trans hp')

end Recipients

section Ledger
variable {T : Tables} {e u : UUID}

/-- How often the recipient was tried. -/
def attemptsOf (T : Tables) (e u : UUID) : Nat := ((deliveryRow T e u).map (·.attempts)).getD 0

theorem deliveryRow_some {d : VkNotificationDelivery} (h : deliveryRow T e u = some d) :
    d ∈ T.vkNotificationDeliveries ∧ d.eventUuid = e ∧ d.userId = u := by
  have := List.find?_some h
  simp only [keyed, Bool.and_eq_true, beq_iff_eq] at this
  exact ⟨List.mem_of_find?_eq_some h, this⟩

/-- An UPDATE by key changes the row of that key. -/
theorem deliveryRow_update {f : VkNotificationDelivery → VkNotificationDelivery}
    (hf : ∀ d, (f d).eventUuid = d.eventUuid ∧ (f d).userId = d.userId) (e' u' : UUID) :
    deliveryRow { T with vkNotificationDeliveries :=
        T.vkNotificationDeliveries.map fun d => if keyed e u d then f d else d } e' u' =
      (deliveryRow T e' u').map fun d => if e' = e ∧ u' = u then f d else d := by
  simp only [deliveryRow, List.find?_map]
  have hkey : (keyed e' u' ∘ fun d => if keyed e u d then f d else d) = keyed e' u' := by
    funext d
    by_cases hd : keyed e u d = true
    · rw [Function.comp_apply, if_pos hd, keyed, keyed, (hf d).1, (hf d).2]
    · simp only [Function.comp_apply, hd, Bool.false_eq_true, ↓reduceIte]
  rw [hkey]
  cases hrow : T.vkNotificationDeliveries.find? (keyed e' u') with
  | none => rfl
  | some d =>
    obtain ⟨-, rfl, rfl⟩ := deliveryRow_some hrow
    simp [keyed]

theorem deliveryRow_insert (row : VkNotificationDelivery) (hnone : deliveryRow T row.eventUuid row.userId = none)
    (e' u' : UUID) : deliveryRow { T with vkNotificationDeliveries := T.vkNotificationDeliveries ++ [row] } e' u' =
      if e' = row.eventUuid ∧ u' = row.userId then some row else deliveryRow T e' u' := by
  simp only [deliveryRow, List.find?_append] at hnone ⊢
  by_cases hkey : e' = row.eventUuid ∧ u' = row.userId
  · obtain ⟨rfl, rfl⟩ := hkey
    simp [hnone, keyed]
  · have hrow : keyed e' u' row = false := by
      rw [Bool.eq_false_iff]
      intro hk
      simp only [keyed, Bool.and_eq_true, beq_iff_eq] at hk
      exact hkey ⟨hk.1.symm, hk.2.symm⟩
    simp [hkey, hrow]

/-- The message to the recipient is recorded as sent. -/
def SentRow (T : Tables) (e u : UUID) : Prop := ∃ d, deliveryRow T e u = some d ∧ d.status = .sent

/-- One more attempt at the recipient has been recorded. -/
structure Attempted (e u : UUID) (went : Bool) (T T' : Tables) : Prop where
  wf : T'.Wf
  same : SameButLedger T T'
  own : ∃ d, deliveryRow T' e u = some d ∧ d.status = (if went then .sent else .failed) ∧
    d.attempts = attemptsOf T e u + 1
  other : ∀ e' u', ¬ (e' = e ∧ u' = u) → deliveryRow T' e' u' = deliveryRow T e' u'

/-- The row that a claim leaves. -/
def claimedRow (w : World) (e u : UUID) (p : PeerId) : Option VkNotificationDelivery → VkNotificationDelivery
  | none => ⟨e, u, p, .pending, 1, none, w.now, none⟩
  | some d => reclaimed w p d

/-- The row that the mark of an attempt leaves. -/
def markedRow (w : World) (went : Bool) (d : VkNotificationDelivery) : VkNotificationDelivery :=
  if went then sent w d else failed w "VK_API_SEND_FAILED" d

/-- The recipient's row has been claimed. -/
structure ClaimedRow (w : World) (e u : UUID) (p : PeerId) (T T' : Tables) (row : VkNotificationDelivery) : Prop where
  wf : T'.Wf
  same : SameButLedger T T'
  own : deliveryRow T' e u = some row
  claimed : row = claimedRow w e u p (deliveryRow T e u)
  attempts : row.attempts = attemptsOf T e u + 1
  other : ∀ e' u', ¬ (e' = e ∧ u' = u) → deliveryRow T' e' u' = deliveryRow T e' u'

end Ledger

section Calls
variable (world : CallHistory → World) (h : CallHistory) {C T : Tables} {e u : UUID}

theorem handler_claim_sent (hT : T.Wf) {d : VkNotificationDelivery} (hrow : deliveryRow T e u = some d)
    (hsent : d.status = .sent) (p : PeerId) :
    handler world h (.claimAttempt e u p) ⟨C, T⟩ = (.ok none, ⟨C, T⟩) := by
  simp only [handler, Session.exec, answer, claimAttempt, hT.find_delivery_eq, hrow, hsent, ↓reduceIte]
  rfl

theorem handler_claim (hT : T.Wf) (hunsent : ∀ d, deliveryRow T e u = some d → d.status ≠ .sent) (p : PeerId) :
    ∃ row T', handler world h (.claimAttempt e u p) ⟨C, T⟩ = (.ok (some row), ⟨C, T'⟩) ∧
      ClaimedRow (world h) e u p T T' row := by
  cases hrow : deliveryRow T e u with
  | none =>
    let row : VkNotificationDelivery := ⟨e, u, p, .pending, 1, none, (world h).now, none⟩
    have hins := deliveryRow_insert row (T := T) (by simpa [row] using hrow)
    refine ⟨row, { T with vkNotificationDeliveries := T.vkNotificationDeliveries ++ [row] }, ?_, ?_, ⟨rfl, rfl, rfl⟩,
      ?_, by rw [hrow, claimedRow], ?_, ?_⟩
    · simp only [handler, Session.exec, answer, claimAttempt, hT.find_delivery_eq, hrow]
      rfl
    · exact hT.insertDelivery hrow
    · rw [hins]
      simp [row]
    · simp [attemptsOf, hrow, row]
    · intro e' u' hne
      rw [hins, if_neg hne]
  | some d =>
    have hupd := deliveryRow_update (T := T) (e := e) (u := u) (f := reclaimed (world h) p) fun _ => ⟨rfl, rfl⟩
    refine ⟨reclaimed (world h) p d, Change.apply T (.updateDelivery (keyed e u) (reclaimed (world h) p)), ?_, ?_,
      ⟨rfl, rfl, rfl⟩, ?_, by rw [hrow, claimedRow], ?_, ?_⟩
    · simp only [handler, Session.exec, answer, claimAttempt, hT.find_delivery_eq, hrow, hunsent d hrow, ↓reduceIte]
      rfl
    · exact hT.updateDelivery fun _ => ⟨rfl, rfl⟩
    · rw [Change.apply, hupd, hrow]
      simp
    · simp [attemptsOf, hrow, reclaimed]
    · intro e' u' hne
      rw [Change.apply, hupd]
      simp [hne]

/-- Marking a claimed row completes the attempt. -/
theorem handler_mark {w : World} {p : PeerId} {T₀ : Tables} {row : VkNotificationDelivery}
    (hclaimed : ClaimedRow w e u p T₀ T row) (went : Bool) : ∃ row' T',
    (if went then (handler world h (.markSent e u) ⟨C, T⟩) = (.ok row', ⟨C, T'⟩)
      else (handler world h (.markFailed e u "VK_API_SEND_FAILED") ⟨C, T⟩) = (.ok row', ⟨C, T'⟩)) ∧
      Attempted e u went T₀ T' ∧
      deliveryRow T' e u = some (markedRow (world h) went (claimedRow w e u p (deliveryRow T₀ e u))) := by
  have hone : ∀ f : VkNotificationDelivery → VkNotificationDelivery,
      one ((T.vkNotificationDeliveries.filter (keyed e u)).map f) = .ok (f row) := by
    intro f
    have hfilter : T.vkNotificationDeliveries.filter (keyed e u) = [row] := by
      rw [filter_of_unique (hclaimed.wf.pairwise_delivery e u)]
      exact congrArg Option.toList hclaimed.own
    rw [hfilter]
    rfl
  have hattempted : ∀ f : VkNotificationDelivery → VkNotificationDelivery,
      (∀ d, (f d).eventUuid = d.eventUuid ∧ (f d).userId = d.userId) →
      (∀ d, (f d).status = (if went then .sent else .failed) ∧ (f d).attempts = d.attempts) →
      f = markedRow (world h) went → Attempted e u went T₀ (Change.apply T (.updateDelivery (keyed e u) f)) ∧
        deliveryRow (Change.apply T (.updateDelivery (keyed e u) f)) e u =
          some (markedRow (world h) went (claimedRow w e u p (deliveryRow T₀ e u))) := by
    intro f hkey hf hmarked
    have hupd := deliveryRow_update (T := T) (e := e) (u := u) hkey
    have hown : deliveryRow (Change.apply T (.updateDelivery (keyed e u) f)) e u = some (f row) := by
      rw [Change.apply, hupd, hclaimed.own]
      simp
    refine ⟨⟨hclaimed.wf.updateDelivery hkey, hclaimed.same, ⟨f row, hown, (hf row).1, ?_⟩, fun e' u' hne => ?_⟩,
      by rw [hown, hmarked, ← hclaimed.claimed]⟩
    · rw [(hf row).2, hclaimed.attempts]
    · rw [Change.apply, hupd]
      simp [hne, hclaimed.other e' u' hne]
  cases went with
  | true =>
    refine ⟨sent (world h) row, _, ?_, hattempted (sent (world h)) (fun _ => ⟨rfl, rfl⟩) (fun _ => ⟨rfl, rfl⟩) rfl⟩
    simp only [↓reduceIte, handler, Session.exec, answer, markSent, mark, hone]
    rfl
  | false =>
    refine ⟨failed (world h) "VK_API_SEND_FAILED" row, _, ?_,
      hattempted (failed (world h) "VK_API_SEND_FAILED") (fun _ => ⟨rfl, rfl⟩) (fun _ => ⟨rfl, rfl⟩) rfl⟩
    simp only [Bool.false_eq_true, ↓reduceIte, handler, Session.exec, answer, markFailed, mark, hone]
    rfl

end Calls

/-- A message was sent for the recipient: the call right after a claim that got its row. -/
def SendsFor (e u : UUID) (h : CallHistory) : Prop :=
  ∃ p text reply row later earlier, h = later ++ ⟨.sendMessage p text, reply⟩ ::
    ⟨.claimAttempt e u p, .ok (some row)⟩ :: earlier

theorem SendsFor.append {e u : UUID} {h : CallHistory} (hs : SendsFor e u h) (new : CallHistory) :
    SendsFor e u (new ++ h) := by
  obtain ⟨p, text, reply, row, later, earlier, rfl⟩ := hs
  exact ⟨p, text, reply, row, new ++ later, earlier, by simp⟩

/-- An event by which an attempt is marked. -/
def IsMark (e u : UUID) (mark : CallEvent) : Prop :=
  (∃ row, mark = ⟨.markSent e u, .ok row⟩) ∨ ∃ category row, mark = ⟨.markFailed e u category, .ok row⟩

section Loop
variable {world : CallHistory → World} {h : CallHistory} {C T : Tables} {e u : UUID} {text : String}
  {active : List (UUID × PeerId)} {rest : List UUID} {failed : Bool}
  {Φ : Except Exn Bool → CallHistory → Session → Prop}

/-- One turn of the recipient loop: no active binding, a message already sent, or an attempt. -/
theorem deliverTo_cons_wp (hT : T.Wf)
    (habsent : active.lookup u = none → wp (handler world) (deliverTo e text active rest failed) Φ h ⟨C, T⟩)
    (hsent : ∀ p d, active.lookup u = some p → deliveryRow T e u = some d → d.status = .sent →
      wp (handler world) (deliverTo e text active rest failed) Φ (⟨.claimAttempt e u p, .ok none⟩ :: h) ⟨C, T⟩)
    (htry : ∀ p row mark T', active.lookup u = some p → (∀ d, deliveryRow T e u = some d → d.status ≠ .sent) →
      IsMark e u mark → Attempted e u ((world (⟨.claimAttempt e u p, .ok (some row)⟩ :: h)).accepts p) T T' →
      deliveryRow T' e u = some (markedRow
        (world (⟨.sendMessage p text, .ok ((world (⟨.claimAttempt e u p, .ok (some row)⟩ :: h)).accepts p)⟩ ::
          ⟨.claimAttempt e u p, .ok (some row)⟩ :: h))
        ((world (⟨.claimAttempt e u p, .ok (some row)⟩ :: h)).accepts p)
        (claimedRow (world h) e u p (deliveryRow T e u))) →
      wp (handler world)
        (deliverTo e text active rest (failed || !(world (⟨.claimAttempt e u p, .ok (some row)⟩ :: h)).accepts p)) Φ
        (mark :: ⟨.sendMessage p text, .ok ((world (⟨.claimAttempt e u p, .ok (some row)⟩ :: h)).accepts p)⟩ ::
          ⟨.claimAttempt e u p, .ok (some row)⟩ :: h) ⟨C, T'⟩) :
    wp (handler world) (deliverTo e text active (u :: rest) failed) Φ h ⟨C, T⟩ := by
  rw [deliverTo]
  cases hlookup : active.lookup u with
  | none => exact habsent hlookup
  | some p =>
    simp only [await, wp_bind, wp_perform]
    by_cases hdone : ∃ d, deliveryRow T e u = some d ∧ d.status = .sent
    · obtain ⟨d, hrow, hstatus⟩ := hdone
      rw [handler_claim_sent world h hT hrow hstatus]
      exact hsent p d hlookup hrow hstatus
    · have hunsent : ∀ d, deliveryRow T e u = some d → d.status ≠ .sent := fun d hrow hs => hdone ⟨d, hrow, hs⟩
      obtain ⟨row, T₁, hclaim, hclaimed⟩ := handler_claim world h (C := C) hT hunsent p
      rw [hclaim]
      simp only [andThen_ok, wp_bind, wp_perform, handler_sendMessage]
      have hnext := htry p row
      generalize (world (⟨.claimAttempt e u p, .ok (some row)⟩ :: h)).accepts p = went at hnext
      obtain ⟨row', T', hmark, hattempted, hrow⟩ := handler_mark world
        (⟨.sendMessage p text, .ok went⟩ :: ⟨.claimAttempt e u p, .ok (some row)⟩ :: h) (C := C) hclaimed went
      cases went with
      | true =>
        simp only [↓reduceIte] at hmark
        simp only [↓reduceIte, wp_bind, wp_perform, hmark, andThen_ok]
        simpa using hnext _ T' hlookup hunsent (.inl ⟨row', rfl⟩) hattempted hrow
      | false =>
        simp only [Bool.false_eq_true, ↓reduceIte] at hmark
        simp only [Bool.false_eq_true, ↓reduceIte, wp_bind, wp_perform, hmark, andThen_ok]
        simpa using hnext _ T' hlookup hunsent (.inr ⟨_, row', rfl⟩) hattempted hrow

/-- The loop always comes to its end. -/
theorem deliverTo_ends (hT : T.Wf) (rest : List UUID) (failed : Bool) (h : CallHistory) :
    wp (handler world) (deliverTo e text active rest failed)
      (fun r h' _ => (∃ failed', r = .ok failed') ∧ ∃ new, h' = new ++ h) h ⟨C, T⟩ := by
  refine wp_and ?_ (wp_history _)
  induction rest generalizing failed h T with
  | nil => exact ⟨failed, rfl⟩
  | cons u rest ih =>
    exact deliverTo_cons_wp hT (fun _ => ih hT failed h) (fun _ _ _ _ _ => ih hT failed _)
      fun _ _ _ _ _ _ _ hattempted _ => ih hattempted.wf _ _

/-- The loop tries every recipient of its list that was not sent to before. -/
theorem deliverTo_tries {p : PeerId} (hlookup : active.lookup u = some p) {rest : List UUID} (hu : u ∈ rest)
    (hnodup : rest.Nodup) {h : CallHistory} {failed : Bool} (hT : T.Wf)
    (hunsent : ∀ d, deliveryRow T e u = some d → d.status ≠ .sent) :
    wp (handler world) (deliverTo e text active rest failed)
      (fun r h' _ => (∃ failed', r = .ok failed') ∧ SendsFor e u h' ∧ ∃ went, ⟨.sendMessage p text, .ok went⟩ ∈ h')
      h ⟨C, T⟩ := by
  induction rest generalizing failed h T with
  | nil => cases hu
  | cons u' rest ih =>
    obtain ⟨hhead, hnodup⟩ := List.nodup_cons.mp hnodup
    rcases List.mem_cons.mp hu with rfl | hu
    · refine deliverTo_cons_wp hT (fun hnone => ?_) (fun p' d _ hrow hs => absurd hs (hunsent d hrow)) ?_
      · rw [hlookup] at hnone
        cases hnone
      · intro p' row mark T' hp' _ _ hattempted _
        rw [hlookup, Option.some.injEq] at hp'
        subst hp'
        refine wp_mono (deliverTo_ends hattempted.wf rest _ _) ?_
        rintro r h' s ⟨hr, new, rfl⟩
        exact ⟨hr, .append ⟨p, text, _, row, [mark], h, rfl⟩ new, _,
          List.mem_append_right _ (List.mem_cons_of_mem _ List.mem_cons_self)⟩
    · have hne : u ≠ u' := fun heq => hhead (heq ▸ hu)
      refine deliverTo_cons_wp hT (fun _ => ih hu hnodup hT hunsent) (fun _ _ _ _ _ => ih hu hnodup hT hunsent) ?_
      intro p' row mark T' _ _ _ hattempted _
      refine ih hu hnodup hattempted.wf fun d hrow => hunsent d ?_
      rwa [hattempted.other e u fun h => hne h.2] at hrow

/-- The command of a failed recipient is committed before it is raised. -/
theorem handleCommand_of_loop {command : NotificationCommandSendVkData}
    {Φ : Except Exn Unit → CallHistory → Session → Prop}
    (hloop : wp (handler world) (deliverTo command.eventUuid command.text
        (activePeers (getByUserIds T command.userIds (some .active))) command.userIds false)
      (fun r h' s => ∃ failed, r = .ok failed ∧ Φ (if failed then .error .deliveryRetryable else .ok ())
        (⟨.close, .ok ()⟩ :: ⟨.commit, .ok ()⟩ :: h') (Session.start s.working))
      (⟨.userVkGetByUserIds command.userIds (some .active), .ok (getByUserIds T command.userIds (some .active))⟩ :: h)
      ⟨C, T⟩) :
    wp (handler world) (handleCommand command) Φ h ⟨C, T⟩ := by
  simp only [handleCommand, withSession, deliver, await, wp_bind, wp_attempt, wp_tryCatch, wp_perform,
    handler_getByUserIds, andThen_ok]
  refine wp_mono hloop ?_
  rintro r h' ⟨C', T'⟩ ⟨failed, rfl, hΦ⟩
  cases failed with
  | true =>
    simp only [andThen_ok, ↓reduceIte, throw_eq, wp_raise, orElse_error, wp_bind, wp_perform, handler_commit,
      andThen_error, Session.start, handler_close, wp_ofExcept]
    exact hΦ
  | false =>
    simp only [andThen_ok, Bool.false_eq_true, ↓reduceIte, pure_eq, wp_ret, orElse_ok, wp_perform, handler_commit,
      Session.start, handler_close, wp_ofExcept]
    exact hΦ

end Loop
end VkService
