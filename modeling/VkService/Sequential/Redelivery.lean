import VkService.Limits.Retry
import VkService.Sequential.Consistency
import VkService.Sequential.DeliveryRun

/-! Redelivery of one command until it is acknowledged. What has become of a recipient
depends only on the number of rounds and on what VK answers for that recipient. -/
namespace VkService
open PyStr Effects Effects.Prog UserVkRepository VkNotificationDeliveryRepository

def CallEvent.isSendTo (p : PeerId) (e : CallEvent) : Bool :=
  match e.op with
  | .sendMessage q _ => q == p
  | _ => false

/-- A message to the peer that went through. -/
def CallEvent.wentTo (p : PeerId) : CallEvent → Bool
  | ⟨.sendMessage q _, .ok went⟩ => q == p && went
  | _ => false

/-- How many messages the peer was sent. -/
def sendsTo (p : PeerId) (h : CallHistory) : Nat := h.countP (CallEvent.isSendTo p)

/-- What VK answers to the successive messages to a peer. -/
abbrev Outcomes := PeerId → Nat → Bool

/-- Surroundings in which VK answers the n-th message to a peer by its outcomes. -/
def vkWorld (outcomes : Outcomes) (o : Surroundings) (past : CallHistory) (h : CallHistory) : World :=
  { o h.length with accepts := fun p => outcomes p (sendsTo p (h ++ past)) }

/-- A message of the stream under redelivery: how often it was processed, the calls made,
how the last processing was settled, and the committed tables. -/
structure Course where
  processed : Nat
  history : CallHistory
  last : Option Settlement
  tables : Tables

/-- One processing of the message. -/
def process (command : NotificationCommandSendVkData) (outcomes : Outcomes) (o : Nat → Surroundings) (course : Course) :
    Course :=
  let out := (handleCommand command).run (handler (vkWorld outcomes (o course.processed) course.history)) []
    (Session.start course.tables)
  ⟨course.processed + 1, out.2.1 ++ course.history, settlement out.1, out.2.2.committed⟩

/-- The message is delivered up to `max_deliver` times, and again only after a NAK. -/
def redeliver (command : NotificationCommandSendVkData) (outcomes : Outcomes) (o : Nat → Surroundings) :
    (deliveries : Nat) → Course → Course
  | 0, course => course
  | deliveries + 1, course =>
    let next := process command outcomes o course
    if next.last = some .nak then redeliver command outcomes o deliveries next else next

/-- What the ledger holds for a recipient after `n` rounds. -/
def RowAfter (s : ℕ → Bool) : ℕ → Option VkNotificationDelivery → Prop
  | 0, row => row = none
  | n + 1, row => ∃ d, row = some d ∧ d.status = (if Retry.succeeded s (n + 1) then .sent else .failed) ∧
      d.attempts = Retry.tries s (n + 1)

/-- How often a recipient was sent to after `n` rounds, and with what success. -/
structure RecipientAfter (s : ℕ → Bool) (n : ℕ) (p : PeerId) (row : Option VkNotificationDelivery) (h : CallHistory) :
    Prop where
  row : RowAfter s n row
  sends : sendsTo p h = Retry.tries s n
  went : h.countP (CallEvent.wentTo p) = (Retry.succeeded s n).toNat

/-- How far the recipients of a command are, each after its own number of rounds. -/
structure Progress (T₀ : Tables) (command : NotificationCommandSendVkData) (outcomes : Outcomes) (stage : UUID → ℕ)
    (h : CallHistory) (T : Tables) : Prop where
  wf : T.Wf
  same : SameButLedger T₀ T
  recipient : ∀ u ∈ command.userIds, ∀ p, recipientPeer T₀ u = some p →
    RecipientAfter (outcomes p) (stage u) p (deliveryRow T command.eventUuid u) h
  absent : ∀ u, u ∉ command.userIds ∨ recipientPeer T₀ u = none → deliveryRow T command.eventUuid u = none
  only : ∀ e ∈ h, ∀ p text, e.op = .sendMessage p text →
    ∃ u ∈ command.userIds, recipientPeer T₀ u = some p

section Recipient
variable {s : ℕ → Bool} {n : ℕ} {p : PeerId} {row : Option VkNotificationDelivery} {h : CallHistory}

theorem RowAfter.sent_iff (hrow : RowAfter s n row) :
    (∃ d, row = some d ∧ d.status = .sent) ↔ Retry.succeeded s n = true := by
  cases n with
  | zero => simp [show row = none from hrow]
  | succ n =>
    obtain ⟨d, rfl, hstatus, -⟩ := hrow
    simp only [Option.some.injEq, exists_eq_left', hstatus]
    split <;> simp_all

theorem RowAfter.attempts (hrow : RowAfter s n row) : (row.map (·.attempts)).getD 0 = Retry.tries s n := by
  cases n with
  | zero => simp [show row = none from hrow, Retry.tries]
  | succ n =>
    obtain ⟨d, rfl, -, hattempts⟩ := hrow
    simpa using hattempts

/-- After its success nothing changes for a recipient. -/
theorem RecipientAfter.done (hr : RecipientAfter s n p row h) (hdone : Retry.succeeded s n = true) :
    RecipientAfter s (n + 1) p row h := by
  have htries : Retry.tries s (n + 1) = Retry.tries s n := by rw [Retry.tries, if_pos hdone]
  have hsucceeded : Retry.succeeded s (n + 1) = Retry.succeeded s n := by rw [Retry.succeeded_succ, hdone, Bool.true_or]
  refine ⟨?_, htries ▸ hr.sends, hsucceeded ▸ hr.went⟩
  have hrow := hr.row
  cases n with
  | zero => simp at hdone
  | succ n =>
    obtain ⟨d, rfl, hstatus, hattempts⟩ := hrow
    exact ⟨d, rfl, hsucceeded ▸ hstatus, htries ▸ hattempts⟩

theorem sendsTo_append (p : PeerId) (new h : CallHistory) : sendsTo p (new ++ h) = sendsTo p new + sendsTo p h :=
  List.countP_append

/-- Calls that send nothing to the peer do not count for it. -/
theorem RecipientAfter.calls (hr : RecipientAfter s n p row h) (new : CallHistory)
    (hnew : ∀ e ∈ new, ∀ text, e.op ≠ .sendMessage p text) : RecipientAfter s n p row (new ++ h) := by
  have hnone : ∀ e ∈ new, CallEvent.isSendTo p e = false ∧ CallEvent.wentTo p e = false := by
    rintro ⟨op, reply⟩ he
    have hop := hnew _ he
    cases op with
    | sendMessage q text =>
      have hq : (q == p) = false := beq_false_of_ne fun heq => hop text (by rw [heq])
      cases reply <;> simp [CallEvent.isSendTo, CallEvent.wentTo, hq]
    | _ => exact ⟨rfl, rfl⟩
  refine ⟨hr.row, ?_, ?_⟩
  · rw [sendsTo_append, sendsTo, List.countP_eq_zero.mpr fun e he => by simp [(hnone e he).1], Nat.zero_add, hr.sends]
  · rw [List.countP_append, List.countP_eq_zero.mpr fun e he => by simp [(hnone e he).2], Nat.zero_add, hr.went]

/-- One more try of a recipient that has not been reached, answered by its stream. -/
theorem RecipientAfter.tried (hr : RecipientAfter s n p row h) (hopen : Retry.succeeded s n = false)
    {d : VkNotificationDelivery} (hstatus : d.status = (if s n then .sent else .failed))
    (hattempts : d.attempts = (row.map (·.attempts)).getD 0 + 1) {mark claim : CallEvent} {text : String}
    (hmark : ∀ text, mark.op ≠ .sendMessage p text) (hclaim : ∀ text, claim.op ≠ .sendMessage p text) :
    RecipientAfter s (n + 1) p (some d) (mark :: ⟨.sendMessage p text, .ok (s n)⟩ :: claim :: h) := by
  have htries : Retry.tries s (n + 1) = Retry.tries s n + 1 := by rw [Retry.tries, hopen]; rfl
  have hsucceeded : Retry.succeeded s (n + 1) = s n := by rw [Retry.succeeded_succ, hopen, Bool.false_or]
  have hcalls : RecipientAfter s n p row (claim :: h) := hr.calls [claim] (by simpa using hclaim)
  have hsent : RecipientAfter s (n + 1) p (some d) (⟨.sendMessage p text, .ok (s n)⟩ :: claim :: h) := by
    refine ⟨⟨d, rfl, by rw [hstatus, hsucceeded], by rw [hattempts, hr.row.attempts, htries]⟩, ?_, ?_⟩
    · rw [htries, ← hcalls.sends]
      exact List.countP_cons_of_pos (by simp [CallEvent.isSendTo])
    · rw [List.countP_cons, hcalls.went, hopen, hsucceeded]
      cases s n <;> simp [CallEvent.wentTo]
  exact hsent.calls [mark] (by simpa using hmark)

end Recipient

section Round
variable {T₀ T : Tables} {command : NotificationCommandSendVkData} {outcomes : Outcomes} {stage : UUID → ℕ}
  {h : CallHistory} {u : UUID} {p : PeerId}

/-- Calls that send nothing keep the progress. -/
theorem Progress.calls (hp : Progress T₀ command outcomes stage h T) (new : CallHistory)
    (hnew : ∀ e ∈ new, ∀ p text, e.op ≠ .sendMessage p text) : Progress T₀ command outcomes stage (new ++ h) T := by
  refine ⟨hp.wf, hp.same, fun u hu p hpeer => (hp.recipient u hu p hpeer).calls new fun e he => hnew e he p, hp.absent,
    fun e he p text hop => ?_⟩
  rcases List.mem_append.mp he with he | he
  · exact absurd hop (hnew e he p text)
  · exact hp.only e he p text hop

theorem Progress.congr (hp : Progress T₀ command outcomes stage h T) (stage' : UUID → ℕ)
    (hstage : ∀ u ∈ command.userIds, recipientPeer T₀ u ≠ none → stage' u = stage u) :
    Progress T₀ command outcomes stage' h T := by
  refine ⟨hp.wf, hp.same, fun u hu p hpeer => ?_, hp.absent, hp.only⟩
  rw [hstage u hu (by simp [hpeer])]
  exact hp.recipient u hu p hpeer

/-- A recipient that was sent to is skipped. -/
theorem Progress.skipped (hp : Progress T₀ command outcomes stage h T)
    (hpeer : recipientPeer T₀ u = some p) (hdone : Retry.succeeded (outcomes p) (stage u) = true) :
    Progress T₀ command outcomes (Function.update stage u (stage u + 1)) h T := by
  refine ⟨hp.wf, hp.same, fun u' hu' p' hpeer' => ?_, hp.absent, hp.only⟩
  by_cases hne : u' = u
  · subst hne
    obtain rfl : p = p' := Option.some.inj (hpeer.symm.trans hpeer')
    rw [Function.update_self]
    exact (hp.recipient u' hu' p hpeer).done hdone
  · rw [Function.update_of_ne hne]
    exact hp.recipient u' hu' p' hpeer'

/-- A recipient that was not reached yet is tried. -/
theorem Progress.tried (hp : Progress T₀ command outcomes stage h T) (hT₀ : T₀.Wf) (hu : u ∈ command.userIds)
    (hpeer : recipientPeer T₀ u = some p) (hopen : Retry.succeeded (outcomes p) (stage u) = false) {T' : Tables}
    (hattempted : Attempted command.eventUuid u (outcomes p (stage u)) T T') {mark claim : CallEvent}
    (hmark : ∀ p text, mark.op ≠ .sendMessage p text) (hclaim : ∀ p text, claim.op ≠ .sendMessage p text) :
    Progress T₀ command outcomes (Function.update stage u (stage u + 1))
      (mark :: ⟨.sendMessage p command.text, .ok (outcomes p (stage u))⟩ :: claim :: h) T' := by
  obtain ⟨d, hrow, hstatus, hattempts⟩ := hattempted.own
  have hother : ∀ u', u' ≠ u → deliveryRow T' command.eventUuid u' = deliveryRow T command.eventUuid u' :=
    fun u' hne => hattempted.other _ u' fun heq => hne heq.2
  refine ⟨hattempted.wf, ?_, fun u' hu' p' hpeer' => ?_, fun u' hu' => ?_, fun e he q text hop => ?_⟩
  · exact ⟨hattempted.same.1.trans hp.same.1, hattempted.same.2.1.trans hp.same.2.1,
      hattempted.same.2.2.trans hp.same.2.2⟩
  · by_cases hne : u' = u
    · subst hne
      obtain rfl : p = p' := Option.some.inj (hpeer.symm.trans hpeer')
      rw [Function.update_self, hrow]
      exact (hp.recipient u' hu' p hpeer).tried hopen hstatus hattempts (hmark p) (hclaim p)
    · rw [Function.update_of_ne hne, hother u' hne]
      have hpeers : p ≠ p' := fun heq => hne (recipientPeer_injective hT₀ hpeer' (heq ▸ hpeer))
      refine (hp.recipient u' hu' p' hpeer').calls [mark, _, claim] ?_
      rintro e he text hop
      simp only [List.mem_cons, List.not_mem_nil, or_false] at he
      rcases he with rfl | rfl | rfl
      · exact hmark _ _ hop
      · simp only [Call.sendMessage.injEq] at hop
        exact hpeers hop.1
      · exact hclaim _ _ hop
  · have hne : u' ≠ u := by
      rintro rfl
      rcases hu' with hnot | hnone
      · exact hnot hu
      · simp [hpeer] at hnone
    rw [hother u' hne]
    exact hp.absent u' hu'
  · simp only [List.mem_cons] at he
    rcases he with rfl | rfl | rfl | he
    · exact absurd hop (hmark _ _)
    · simp only [Call.sendMessage.injEq] at hop
      exact ⟨u, hu, hop.1 ▸ hpeer⟩
    · exact absurd hop (hclaim _ _)
    · exact hp.only e he q text hop

/-- The recipient is still to be reached after `n` rounds. -/
def unfinished (T : Tables) (outcomes : Outcomes) (n : ℕ) (u : UUID) : Bool :=
  (recipientPeer T u).any fun p => !Retry.succeeded (outcomes p) n

theorem IsMark.not_send {e u : UUID} {mark : CallEvent} (hmark : IsMark e u mark) (p : PeerId) (text : String) :
    mark.op ≠ .sendMessage p text := by
  rcases hmark with ⟨row, rfl⟩ | ⟨category, row, rfl⟩ <;> simp

/-- One round of the recipient loop. The induction is on the recipients that are left. -/
theorem deliverTo_round (hT₀ : T₀.Wf) {o : Surroundings} {past : CallHistory} {active : List (UUID × PeerId)}
    (hactive : ∀ u ∈ command.userIds, active.lookup u = recipientPeer T₀ u) {n : ℕ} {rest : List UUID}
    (hsub : ∀ u ∈ rest, u ∈ command.userIds) (hnodup : rest.Nodup) (hstage : ∀ u ∈ rest, stage u = n) {C : Tables}
    (hp : Progress T₀ command outcomes stage (h ++ past) T) (failed : Bool) :
    wp (handler (vkWorld outcomes o past)) (deliverTo command.eventUuid command.text active rest failed)
      (fun r h' s => r = .ok (failed || rest.any (unfinished T₀ outcomes (n + 1))) ∧
        ∃ stage', (∀ u ∈ rest, recipientPeer T₀ u ≠ none → stage' u = n + 1) ∧ (∀ u ∉ rest, stage' u = stage u) ∧
          Progress T₀ command outcomes stage' (h' ++ past) s.working) h ⟨C, T⟩ := by
  induction rest generalizing h T stage failed with
  | nil =>
    rw [List.any_nil, Bool.or_false]
    exact ⟨rfl, stage, by simp, fun _ _ => rfl, hp⟩
  | cons u rest ih =>
    obtain ⟨hhead, hnodup⟩ := List.nodup_cons.mp hnodup
    have hu := hsub u (by simp)
    have hrest : ∀ u ∈ rest, u ∈ command.userIds := fun u hu => hsub u (List.mem_cons_of_mem _ hu)
    -- what the rest of the loop does after `u` has come to its next stage
    have hnext : ∀ {h' : CallHistory} {T' : Tables} (failed' : Bool),
        Progress T₀ command outcomes (Function.update stage u (stage u + 1)) (h' ++ past) T' →
        (failed || unfinished T₀ outcomes (n + 1) u) = failed' →
        wp (handler (vkWorld outcomes o past)) (deliverTo command.eventUuid command.text active rest failed')
          (fun r h' s => r = .ok (failed || (u :: rest).any (unfinished T₀ outcomes (n + 1))) ∧
            ∃ stage', (∀ u' ∈ u :: rest, recipientPeer T₀ u' ≠ none → stage' u' = n + 1) ∧
              (∀ u' ∉ u :: rest, stage' u' = stage u') ∧
              Progress T₀ command outcomes stage' (h' ++ past) s.working) h' ⟨C, T'⟩ := by
      intro h' T' failed' hp' hfailed'
      have hstage' : ∀ u' ∈ rest, Function.update stage u (stage u + 1) u' = n := by
        intro u' hu'
        have hne : u' ≠ u := fun heq => hhead (heq ▸ hu')
        rw [Function.update_of_ne hne]
        exact hstage u' (List.mem_cons_of_mem _ hu')
      refine wp_mono (ih hrest hnodup hstage' hp' failed') ?_
      rintro r h'' s ⟨rfl, stage', hin, hout, hprogress⟩
      refine ⟨by rw [← hfailed', List.any_cons, Bool.or_assoc], stage', fun u' hu' hpeer => ?_, fun u' hu' => ?_, hprogress⟩
      · rcases List.mem_cons.mp hu' with rfl | hu'
        · rw [hout u' hhead, Function.update_self, hstage u' (by simp)]
        · exact hin u' hu' hpeer
      · rw [List.mem_cons, not_or] at hu'
        rw [hout u' hu'.2, Function.update_of_ne hu'.1]
    refine deliverTo_cons_wp hp.wf (fun hnone => ?_) (fun p d hlookup hrow hsent => ?_) ?_
    · rw [hactive u hu] at hnone
      refine hnext failed (hp.congr _ fun u' _ hpeer => ?_) (by simp [unfinished, hnone])
      have hne : u' ≠ u := fun heq => hpeer (heq ▸ hnone)
      exact Function.update_of_ne hne _ _
    · have hpeer := (hactive u hu).symm.trans hlookup
      have hdone := (hp.recipient u hu p hpeer).row.sent_iff.mp ⟨d, hrow, hsent⟩
      refine hnext failed ((hp.skipped hpeer hdone).calls [_] (by simp)) ?_
      rw [hstage u (by simp)] at hdone
      simp [unfinished, hpeer, Retry.succeeded_succ, hdone]
    · intro p row mark T' hlookup hunsent hmark hattempted _
      have hpeer := (hactive u hu).symm.trans hlookup
      have hrecipient := hp.recipient u hu p hpeer
      have hopen : Retry.succeeded (outcomes p) (stage u) = false := by
        rw [Bool.eq_false_iff]
        intro hdone
        obtain ⟨d, hrow, hsent⟩ := hrecipient.row.sent_iff.mpr hdone
        exact hunsent d hrow hsent
      -- VK has answered this recipient once in every round so far
      have hwent : (vkWorld outcomes o past
          (⟨.claimAttempt command.eventUuid u p, .ok (some row)⟩ :: h)).accepts p = outcomes p (stage u) := by
        have hsends : sendsTo p (⟨.claimAttempt command.eventUuid u p, .ok (some row)⟩ :: (h ++ past)) = stage u := by
          rw [sendsTo, List.countP_cons_of_neg (by simp [CallEvent.isSendTo])]
          exact hrecipient.sends.trans (Retry.tries_of_open hopen)
        simp only [vkWorld, List.cons_append, hsends]
      rw [hwent] at hattempted ⊢
      refine hnext _ (hp.tried hT₀ hu hpeer hopen hattempted hmark.not_send (by simp)) ?_
      rw [hstage u (by simp)] at hopen ⊢
      simp [unfinished, hpeer, Retry.succeeded_succ, hopen]

/-- Every recipient has been reached. -/
def Done (T : Tables) (command : NotificationCommandSendVkData) (outcomes : Outcomes) (n : ℕ) : Prop :=
  ∀ u ∈ command.userIds, unfinished T outcomes n u = false

theorem recipientPeer_congr (hsame : SameButLedger T₀ T) (u : UUID) : recipientPeer T u = recipientPeer T₀ u := by
  simp only [recipientPeer, userRow, hsame.1]

/-- One processing is one round; it ends in a NAK while somebody is still to be reached. -/
theorem process_progress (hT₀ : T₀.Wf) {o : Nat → Surroundings} {course : Course} {n : ℕ}
    (hp : Progress T₀ command outcomes (fun _ => n) course.history course.tables) :
    Progress T₀ command outcomes (fun _ => n + 1) (process command outcomes o course).history
      (process command outcomes o course).tables ∧
    (process command outcomes o course).last =
      some (if command.userIds.any (unfinished T₀ outcomes (n + 1)) then .nak else .ack) := by
  suffices hrun : wp (handler (vkWorld outcomes (o course.processed) course.history)) (handleCommand command)
      (fun r h s => Progress T₀ command outcomes (fun _ => n + 1) (h ++ course.history) s.committed ∧
        settlement r = some (if command.userIds.any (unfinished T₀ outcomes (n + 1)) then .nak else .ack))
      [] ⟨course.tables, course.tables⟩ from hrun
  refine handleCommand_of_loop (wp_mono (deliverTo_round hT₀ (fun u hu => ?_) (fun u hu => hu) command.userIds_nodup
    (fun _ _ => rfl) (hp.calls [_] (by simp)) false) ?_)
  · rw [lookup_activePeers hp.wf hu, recipientPeer_congr hp.same]
  · rintro r h ⟨C, T⟩ ⟨rfl, stage, hin, -, hprogress⟩
    refine ⟨_, rfl, ?_⟩
    have hprogress := (hprogress.congr (fun _ => n + 1) fun u hu hpeer => (hin u hu hpeer).symm).calls
      [⟨.close, .ok ()⟩, ⟨.commit, .ok ()⟩] (by simp)
    refine ⟨hprogress, ?_⟩
    cases command.userIds.any (unfinished T₀ outcomes (n + 1)) <;> rfl

/-- The message is processed until everybody is reached, `deliveries` times at most. -/
theorem redeliver_stops (hT₀ : T₀.Wf) {o : Nat → Surroundings} {deliveries : ℕ} (hpos : 1 ≤ deliveries)
    (course : Course) (hp : Progress T₀ command outcomes (fun _ => course.processed) course.history course.tables) :
    ∃ N, Retry.Stops (fun m => Done T₀ command outcomes (course.processed + m)) deliveries N ∧
      (redeliver command outcomes o deliveries course).processed = course.processed + N ∧
      Progress T₀ command outcomes (fun _ => course.processed + N)
      (redeliver command outcomes o deliveries course).history
        (redeliver command outcomes o deliveries course).tables ∧
      ((redeliver command outcomes o deliveries course).last = some .ack ↔
        Done T₀ command outcomes (course.processed + N)) := by
  induction deliveries generalizing course with
  | zero => omega
  | succ deliveries ih =>
    obtain ⟨hnext, hlast⟩ := process_progress hT₀ (o := o) hp
    have hdone : command.userIds.any (unfinished T₀ outcomes (course.processed + 1)) = false ↔
        Done T₀ command outcomes (course.processed + 1) := by simp [Done]
    rw [redeliver]
    cases hany : command.userIds.any (unfinished T₀ outcomes (course.processed + 1)) with
    | false =>
      rw [hany] at hlast
      have hacked := hdone.mp hany
      rw [if_neg (by simp [hlast])]
      refine ⟨1, ⟨le_refl 1, by omega, .inr hacked, fun m _ _ => by omega⟩, rfl, hnext, by simp [hlast, hacked]⟩
    | true =>
      rw [hany] at hlast
      have hopen : ¬ Done T₀ command outcomes (course.processed + 1) := by
        rw [← hdone, hany]
        simp
      rw [if_pos (by simp [hlast])]
      by_cases hzero : deliveries = 0
      · subst hzero
        refine ⟨1, ⟨le_refl 1, le_refl 1, .inl rfl, fun m _ _ => by omega⟩, rfl, hnext, ?_⟩
        simp [redeliver, hlast, hopen]
      · obtain ⟨N, hstops, hprocessed, hprogress, hfinal⟩ := ih (by omega) (process command outcomes o course) hnext
        have hshift : ∀ m, (process command outcomes o course).processed + m = course.processed + (m + 1) := by
          intro m
          simp only [process]
          omega
        simp only [hshift] at hstops hprocessed hprogress hfinal
        refine ⟨N + 1, ⟨by omega, by have := hstops.le; omega, ?_, fun m hm hlt => ?_⟩, hprocessed, hprogress, hfinal⟩
        · exact hstops.last.imp (congrArg (· + 1)) id
        · obtain ⟨m, rfl⟩ : ∃ m', m = m' + 1 := ⟨m - 1, by omega⟩
          by_cases hm0 : m = 0
          · subst hm0
            exact hopen
          · exact hstops.first m (by omega) (by omega)

end Round
/-- The recipients of a command that have an active binding. -/
def activeRecipients (T : Tables) (command : NotificationCommandSendVkData) : Set UUID :=
  {u | u ∈ command.userIds ∧ ∃ b ∈ T.userVks, b.userId = u ∧ b.live = true ∧ b.state = .active}

/-- VK answers the messages to a peer as it does for the user who holds the peer. -/
def outcomesOf (T : Tables) (results : UUID → ℕ → Bool) : Outcomes := fun p =>
  match peerRow T p with
  | some b => results b.userId
  | none => fun _ => true

section Converges
variable {T : Tables} {command : NotificationCommandSendVkData} {results : UUID → ℕ → Bool}

theorem outcomesOf_recipient (hT : T.Wf) {u : UUID} {p : PeerId} (hpeer : recipientPeer T u = some p) :
    outcomesOf T results p = results u := by
  obtain ⟨b, hb, rfl, hlive, -, hp⟩ := (recipientPeer_eq_some hT).mp hpeer
  rw [outcomesOf, hT.peerRow_of_mem hb hlive hp]

/-- An active binding always has a peer, in every state that the operations reach. -/
def Linked (T : Tables) : Prop := ∀ b ∈ T.userVks, b.state = .active → b.vkPeerId ≠ none

theorem Consistent.linked (h : Consistent T) : Linked T := by
  intro b hb hactive hnone
  simp [(h.pendingIff b hb).mpr hnone] at hactive

theorem activeRecipients_iff (hT : T.Wf) (hlinked : Linked T) {u : UUID} : u ∈ activeRecipients T command ↔
    u ∈ command.userIds ∧ ∃ p, recipientPeer T u = some p := by
  refine and_congr_right fun _ => ?_
  simp only [recipientPeer_eq_some hT]
  constructor
  · rintro ⟨b, hb, huser, hlive, hactive⟩
    obtain ⟨p, hp⟩ := Option.ne_none_iff_exists'.mp (hlinked b hb hactive)
    exact ⟨p, b, hb, huser, hlive, hactive, hp⟩
  · rintro ⟨p, b, hb, huser, hlive, hactive, -⟩
    exact ⟨b, hb, huser, hlive, hactive⟩

/-- Everybody has been reached once the last of the first successes is behind. -/
theorem done_iff (command : NotificationCommandSendVkData) (results : UUID → ℕ → Bool) (hT : T.Wf)
    (hlinked : Linked T) (n : ℕ) : Done T command (outcomesOf T results) n ↔
    ⨆ u ∈ activeRecipients T command, Retry.firstSuccess (results u) ≤ n := by
  simp only [iSup_le_iff, activeRecipients_iff hT hlinked, Retry.firstSuccess_le_iff]
  constructor
  · rintro hdone u ⟨hu, p, hpeer⟩
    have := hdone u hu
    simpa [unfinished, hpeer, outcomesOf_recipient hT hpeer] using this
  · intro h u hu
    cases hpeer : recipientPeer T u with
    | none => simp [unfinished, hpeer]
    | some p => simpa [unfinished, hpeer, outcomesOf_recipient hT hpeer] using h u ⟨hu, p, hpeer⟩

theorem progress_start (hT : T.Wf) (hnew : ∀ d ∈ T.vkNotificationDeliveries, d.eventUuid ≠ command.eventUuid)
    (outcomes : Outcomes) : Progress T command outcomes (fun _ => 0) [] T := by
  have hnone : ∀ u, deliveryRow T command.eventUuid u = none := by
    intro u
    by_contra hsome
    obtain ⟨d, hd⟩ := Option.ne_none_iff_exists'.mp hsome
    obtain ⟨hd, hevent, -⟩ := deliveryRow_some hd
    exact hnew d hd hevent
  exact ⟨hT, ⟨rfl, rfl, rfl⟩, fun u _ p _ => ⟨hnone u, rfl, rfl⟩, fun u _ => hnone u, by simp⟩

end Converges

/-- Redelivery converges: every active recipient is tried up to its first success or the
delivery limit, and the message is acknowledged exactly when all of them succeed. -/
theorem redelivery_converges (command : NotificationCommandSendVkData) (results : UUID → ℕ → Bool)
    (o : Nat → Surroundings) {T : Tables} (hT : T.Wf) (hlinked : Linked T)
    (hnew : ∀ d ∈ T.vkNotificationDeliveries, d.eventUuid ≠ command.eventUuid) {maxDeliver : ℕ}
    (hpos : 1 ≤ maxDeliver) :
    let course := redeliver command (outcomesOf T results) o maxDeliver ⟨0, [], none, T⟩
    let E := activeRecipients T command
    let k := fun u => Retry.firstSuccess (results u)
    (course.processed : ℕ∞) = min (maxDeliver : ℕ∞) (max 1 (⨆ u ∈ E, k u)) ∧
    (∀ u ∈ E, ∃ p, recipientPeer T u = some p ∧ (sendsTo p course.history : ℕ∞) = min (k u) maxDeliver ∧
      course.history.countP (CallEvent.wentTo p) ≤ 1 ∧
      ∃ d, deliveryRow course.tables command.eventUuid u = some d ∧
        d.status = (if k u ≤ maxDeliver then .sent else .failed) ∧ (d.attempts : ℕ∞) = min (k u) maxDeliver) ∧
    (∀ e ∈ course.history, ∀ p text, e.op = .sendMessage p text → ∃ u ∈ E, recipientPeer T u = some p) ∧
    (∀ u ∉ E, deliveryRow course.tables command.eventUuid u = none) ∧
    (course.last = some .ack ↔ ∀ u ∈ E, k u ≤ maxDeliver) := by
  intro course E k
  obtain ⟨N, hstops, hprocessed, hp, hlast⟩ := redeliver_stops hT (o := o) hpos ⟨0, [], none, T⟩
    (progress_start hT hnew (outcomesOf T results))
  simp only [Nat.zero_add] at hstops hprocessed hp hlast
  have hE : ∀ u, u ∈ E ↔ u ∈ command.userIds ∧ ∃ p, recipientPeer T u = some p := fun u =>
    activeRecipients_iff hT hlinked
  have hdone := fun n => done_iff command results hT hlinked n
  have hk : ∀ u ∈ E, k u ≤ ⨆ u ∈ E, k u := fun u hu => le_iSup₂ (f := fun u (_ : u ∈ E) => k u) u hu
  refine ⟨?_, fun u hu => ?_, fun e he p text hop => ?_, fun u hu => ?_, ?_⟩
  · rw [hprocessed]
    exact hstops.rounds_eq hdone
  · obtain ⟨hmem, p, hpeer⟩ := (hE u).mp hu
    obtain ⟨hrow, hsends, hwent⟩ := hp.recipient u hmem p hpeer
    rw [outcomesOf_recipient hT hpeer] at hrow hsends hwent
    have htries : (Retry.tries (results u) N : ℕ∞) = min (k u) maxDeliver := by
      rw [Retry.coe_tries, hstops.min_eq hdone (hk u hu)]
    refine ⟨p, hpeer, hsends ▸ htries, hwent ▸ Bool.toNat_le _, ?_⟩
    obtain ⟨n, rfl⟩ : ∃ n, N = n + 1 := ⟨N - 1, by have := hstops.pos; omega⟩
    obtain ⟨d, hd, hstatus, hattempts⟩ := hrow
    refine ⟨d, hd, ?_, hattempts ▸ htries⟩
    rw [hstatus]
    exact if_congr (Retry.firstSuccess_le_iff.symm.trans (hstops.le_iff hdone (hk u hu))) rfl rfl
  · obtain ⟨u, hu, hpeer⟩ := hp.only e he p text hop
    exact ⟨u, (hE u).mpr ⟨hu, p, hpeer⟩, hpeer⟩
  · refine hp.absent u ?_
    by_cases hmem : u ∈ command.userIds
    · right
      by_contra hsome
      obtain ⟨p, hpeer⟩ := Option.ne_none_iff_exists'.mp hsome
      exact hu ((hE u).mpr ⟨hmem, p, hpeer⟩)
    · exact .inl hmem
  · rw [hlast, hdone, iSup₂_le_iff]
    exact forall₂_congr fun u hu => hstops.le_iff hdone (hk u hu)

/-- User 7 has linked peer 1. -/
def linkedOnce : Tables :=
  serveAll .least Tables.empty [⟨.issueConfirmation 7, fun _ => .still 0⟩,
    ⟨.confirm "AAAA".toList 1 none none, fun _ => .still 0⟩]

/-- VK fails once for the user, and the message is acknowledged within five deliveries. -/
theorem redelivery_converges_linkedOnce :
    (redeliver ⟨3, [7], "text", by decide, by decide⟩ (outcomesOf linkedOnce fun _ n => n != 0)
      (fun _ _ => .still 0) 5 ⟨0, [], none, linkedOnce⟩).last = some .ack := by
  have hconsistent : Consistent linkedOnce := serveAll_consistent .least _
  have hnew : ∀ d ∈ linkedOnce.vkNotificationDeliveries, d.eventUuid ≠ 3 := by decide +kernel
  refine (redelivery_converges ⟨3, [7], "text", by decide, by decide⟩ (fun _ n => n != 0) (fun _ _ => .still 0)
    hconsistent.wf hconsistent.linked hnew (by decide)).2.2.2.2.mpr fun u _ => ?_
  exact Retry.firstSuccess_le_iff.mpr (by decide)

end VkService
