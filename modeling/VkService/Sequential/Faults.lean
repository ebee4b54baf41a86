import VkService.Sequential.Recipients

/-! Deliveries in which calls fail or the task is cancelled. What was recorded of a recipient
stays recorded exactly when nothing fails before the transaction is committed. -/
namespace VkService
open PyStr Effects Effects.Prog UserVkRepository VkNotificationDeliveryRepository

/-- Which calls raise, and what: any exception of a driver or client, or a cancellation, but
none of the services' own errors. -/
structure Faults where
  raised : Nat → Option Exn
  notOwn : ∀ n x, raised n = some x → x.isOwn = false

def Faults.none : Faults := ⟨fun _ => .none, by simp⟩

/-- A call that raises has no effect. -/
def faultyHandler (faults : Faults) (world : CallHistory → World) (h : CallHistory) (c : Call) (s : Session) :
    Except Exn c.Reply × Session :=
  match faults.raised h.length with
  | some x => (.error x, s)
  | .none => handler world h c s

/-- One run of the handler of a command, with faults. -/
def handleOnce (command : NotificationCommandSendVkData) (o : Surroundings) (faults : Faults) (T : Tables) :
    Except Exn Unit × CallHistory × Tables :=
  let out := (handleCommand command).run (faultyHandler faults fun h => o h.length) [] (Session.start T)
  (out.1, out.2.1, out.2.2.committed)

/-- The calls of later runs of the handler, each after some other requests. -/
def redeliveries (settings : VkSettings) (command : NotificationCommandSendVkData) :
    Tables → List (List Visit × Surroundings × Faults) → List CallHistory
  | _, [] => []
  | T, (visits, o, faults) :: rest =>
    let out := handleOnce command o faults (serveAll settings T visits)
    out.2.1 :: redeliveries settings command out.2.2 rest

/-- What holds of a recipient throughout a run of the handler. -/
structure RunInv (command : NotificationCommandSendVkData) (u : UUID) (T : Tables) (h : CallHistory) (s : Session) :
    Prop where
  traced : Traced (DeliveryCall command) h
  honest : Honest h
  wf : s.Wf
  same : SameButLedger T s.committed ∧ SameButLedger T s.working
  looked : ∀ bindings, ⟨.userVkGetByUserIds command.userIds (some .active), .ok bindings⟩ ∈ h →
    bindings = getByUserIds T command.userIds (some .active)
  base : ⟨.commit, .ok ()⟩ ∉ h → s.committed = T
  unclaimed : ¬ Ended h → ¬ Claimed h command.eventUuid u →
    deliveryRow s.working command.eventUuid u = deliveryRow T command.eventUuid u
  unsent : Claimed h command.eventUuid u → ¬ SentRow T command.eventUuid u
  marked : ¬ Ended h → MarkedSent h command.eventUuid u → SentRow s.working command.eventUuid u
  kept : ⟨.commit, .ok ()⟩ ∈ h → ¬ Claimed h command.eventUuid u →
    deliveryRow s.committed command.eventUuid u = deliveryRow T command.eventUuid u
  done : ⟨.commit, .ok ()⟩ ∈ h → MarkedSent h command.eventUuid u → SentRow s.committed command.eventUuid u

section Events
variable {h : CallHistory} {e u : UUID}

theorem markedSent_cons {event : CallEvent} :
    MarkedSent (event :: h) e u ↔ (∃ row, event = ⟨.markSent e u, .ok row⟩) ∨ MarkedSent h e u := by
  simp only [MarkedSent, List.mem_cons, exists_or, eq_comm (a := event)]

theorem MarkedSent.claimed {command : NotificationCommandSendVkData} (hm : MarkedSent h e u)
    (ht : Traced (DeliveryCall command) h) : Claimed h e u := by
  obtain ⟨row, hmem⟩ := hm
  exact claimed_of_marks ht hmem (.inl rfl)

end Events

section Step
variable {command : NotificationCommandSendVkData} {u : UUID} {T : Tables} {h : CallHistory} {s : Session}

/-- A call that raises keeps everything. -/
theorem RunInv.raised (hi : RunInv command u T h s) {c : Call} (hc : DeliveryCall command h c) {x : Exn}
    (hx : x.isOwn = false) : RunInv command u T (⟨c, .error x⟩ :: h) s := by
  have hcommit : (⟨.commit, .ok ()⟩ : CallEvent) ∈ (⟨c, .error x⟩ :: h : CallHistory) ↔ ⟨.commit, .ok ()⟩ ∈ h :=
    ok_mem_error_cons
  have hclaimed : Claimed (⟨c, .error x⟩ :: h) command.eventUuid u ↔ Claimed h command.eventUuid u := by
    simp only [Claimed, ok_mem_error_cons]
  have hmarked : MarkedSent (⟨c, .error x⟩ :: h) command.eventUuid u ↔ MarkedSent h command.eventUuid u := by
    simp only [MarkedSent, ok_mem_error_cons]
  have hrun : ¬ Ended (⟨c, .error x⟩ :: h) → ¬ Ended h := fun hend hh => hend (ended_cons.mpr (.inr hh))
  refine ⟨.cons _ hi.traced hc, honest_cons.mpr ⟨by simpa using hx, hi.honest⟩, hi.wf, hi.same, ?_, ?_, ?_, ?_, ?_, ?_, ?_⟩
  · intro bindings hmem
    exact hi.looked bindings (ok_mem_error_cons.mp hmem)
  · rw [hcommit]
    exact hi.base
  · rw [hclaimed]
    exact fun hend => hi.unclaimed (hrun hend)
  · rw [hclaimed]
    exact hi.unsent
  · rw [hmarked]
    exact fun hend => hi.marked (hrun hend)
  · rw [hcommit, hclaimed]
    exact hi.kept
  · rw [hcommit, hmarked]
    exact hi.done

/-- A call other than the commit, by what it does to the recipient's row. -/
theorem RunInv.called (hi : RunInv command u T h s) {c : Call} (hc : DeliveryCall command h c) {w : World}
    (hcommit : c ≠ .commit) (hcommitted : (s.exec w c).2.committed = s.committed)
    (hlooked : ∀ bindings, (⟨c, (s.exec w c).1⟩ : CallEvent) =
      ⟨.userVkGetByUserIds command.userIds (some .active), .ok bindings⟩ →
      bindings = getByUserIds T command.userIds (some .active))
    (hclaim : (∃ p row, (⟨c, (s.exec w c).1⟩ : CallEvent) = ⟨.claimAttempt command.eventUuid u p, .ok (some row)⟩) →
      ¬ SentRow T command.eventUuid u)
    (hunclaimed : ¬ Ended (⟨c, (s.exec w c).1⟩ :: h) → ¬ Claimed (⟨c, (s.exec w c).1⟩ :: h) command.eventUuid u →
      deliveryRow (s.exec w c).2.working command.eventUuid u = deliveryRow s.working command.eventUuid u)
    (hmarked : ¬ Ended (⟨c, (s.exec w c).1⟩ :: h) → MarkedSent (⟨c, (s.exec w c).1⟩ :: h) command.eventUuid u →
      SentRow (s.exec w c).2.working command.eventUuid u) :
    RunInv command u T (⟨c, (s.exec w c).1⟩ :: h) (s.exec w c).2 := by
  have hmem : (⟨.commit, .ok ()⟩ : CallEvent) ∈ (⟨c, (s.exec w c).1⟩ :: h : CallHistory) ↔ ⟨.commit, .ok ()⟩ ∈ h := by
    refine List.mem_cons.trans (or_iff_right fun heq => hcommit ?_)
    exact (congrArg Event.op heq).symm
  have hrun : ¬ Ended (⟨c, (s.exec w c).1⟩ :: h) → ¬ Ended h := fun hend hh => hend (ended_cons.mpr (.inr hh))
  have hstill : ¬ Claimed (⟨c, (s.exec w c).1⟩ :: h) command.eventUuid u → ¬ Claimed h command.eventUuid u :=
    fun hno hclaimed => hno (claimed_cons.mpr (.inr hclaimed))
  refine ⟨.cons _ hi.traced hc, honest_cons.mpr ⟨fun x => answer_notOwn, hi.honest⟩, hi.wf.exec w c,
    SameButLedger.apply hi.same (hc.onLedger _ _ _), ?_, ?_, ?_, ?_, hmarked, ?_, ?_⟩
  · intro bindings hb
    rcases List.mem_cons.mp hb with heq | hb
    · exact hlooked bindings heq.symm
    · exact hi.looked bindings hb
  · rw [hmem, hcommitted]
    exact hi.base
  · exact fun hend hno => (hunclaimed hend hno).trans (hi.unclaimed (hrun hend) (hstill hno))
  · intro hclaimed
    rcases claimed_cons.mp hclaimed with hnew | hold
    · exact hclaim hnew
    · exact hi.unsent hold
  · rw [hmem, hcommitted]
    exact fun hdone hno => hi.kept hdone (hstill hno)
  · rw [hmem, hcommitted]
    intro hdone hm
    rcases markedSent_cons.mp hm with ⟨row, heq⟩ | hm
    · -- nothing is marked after the commit
      have hop : c = .markSent command.eventUuid u := congrArg Event.op heq
      subst hop
      exact absurd ⟨_, hdone, .inl rfl⟩ hc.1
    · exact hi.done hdone hm

/-- A call that neither claims nor marks leaves the recipient's row alone. -/
theorem RunInv.idle (hi : RunInv command u T h s) {c : Call} (hc : DeliveryCall command h c) {w : World}
    (hcommit : c ≠ .commit) (hcommitted : (s.exec w c).2.committed = s.committed)
    (hlooked : ∀ bindings, (⟨c, (s.exec w c).1⟩ : CallEvent) =
      ⟨.userVkGetByUserIds command.userIds (some .active), .ok bindings⟩ →
      bindings = getByUserIds T command.userIds (some .active))
    (hclaim : ∀ p, c ≠ .claimAttempt command.eventUuid u p) (hmark : c ≠ .markSent command.eventUuid u)
    (hworking : ¬ Ended (⟨c, (s.exec w c).1⟩ :: h) →
      deliveryRow (s.exec w c).2.working command.eventUuid u = deliveryRow s.working command.eventUuid u) :
    RunInv command u T (⟨c, (s.exec w c).1⟩ :: h) (s.exec w c).2 := by
  refine hi.called hc hcommit hcommitted hlooked ?_ (fun hend _ => hworking hend) fun hend hm => ?_
  · rintro ⟨p, row, heq⟩
    exact absurd (congrArg Event.op heq) (hclaim p)
  · rcases markedSent_cons.mp hm with ⟨row, heq⟩ | hm
    · exact absurd (congrArg Event.op heq) hmark
    · obtain ⟨d, hrow, hsent⟩ := hi.marked (fun hh => hend (ended_cons.mpr (.inr hh))) hm
      exact ⟨d, (hworking hend).trans hrow, hsent⟩

/-- A claim of the recipient, or of another one. -/
theorem RunInv.claim (hi : RunInv command u T h s) {e u' : UUID} {p : PeerId}
    (hc : DeliveryCall command h (.claimAttempt e u' p)) (w : World) :
    RunInv command u T (⟨.claimAttempt e u' p, (s.exec w (.claimAttempt e u' p)).1⟩ :: h)
      (s.exec w (.claimAttempt e u' p)).2 := by
  obtain ⟨C, W⟩ := s
  obtain ⟨rfl, -, -, hrun, -, hfresh⟩ := id hc
  have hunclaimed : ¬ Claimed h command.eventUuid u' := fun ⟨p', row, hmem⟩ => hfresh _ _ hmem
  by_cases hsent : SentRow W command.eventUuid u'
  · obtain ⟨d, hrow, hstatus⟩ := hsent
    have hexec := handler_claim_sent (fun _ => w) h (C := C) hi.wf.working hrow hstatus p
    rw [handler] at hexec
    refine hi.called hc (by simp) (by rw [hexec]) (by simp) (by simp [hexec]) (by simp [hexec]) fun hend hm => ?_
    rw [hexec] at hm hend ⊢
    exact hi.marked hrun ((markedSent_cons.mp hm).resolve_left (by simp))
  · obtain ⟨row, W', hexec, hclaimed⟩ := handler_claim (fun _ => w) h (C := C) hi.wf.working
      (fun d hrow hstatus => hsent ⟨d, hrow, hstatus⟩) p
    rw [handler] at hexec
    by_cases hu : u' = u
    · subst hu
      refine hi.called hc (by simp) (by rw [hexec]) (by simp) ?_ ?_ fun hend hm => ?_
      · rintro - ⟨d, hrow, hstatus⟩
        exact hsent ⟨d, (hi.unclaimed hrun hunclaimed).trans hrow, hstatus⟩
      · rw [hexec]
        exact fun _ hno => absurd ⟨p, row, List.mem_cons_self⟩ hno
      · have hm := (markedSent_cons.mp hm).resolve_left (by simp)
        exact absurd (hm.claimed hi.traced) hunclaimed
    · refine hi.idle hc (by simp) (by rw [hexec]) (by simp) (by simp [hu]) (by simp) fun _ => ?_
      rw [hexec]
      exact hclaimed.other _ u fun heq => hu heq.2.symm

/-- A mark of the recipient, or of another one. -/
theorem RunInv.mark (hi : RunInv command u T h s) {c : Call} {e u' : UUID} (hop : MarksOf e u' c)
    (hc : DeliveryCall command h c) (w : World) : RunInv command u T (⟨c, (s.exec w c).1⟩ :: h) (s.exec w c).2 := by
  obtain ⟨C, W⟩ := s
  obtain ⟨went, hjust⟩ := hc.justSent hop
  have hnot := hjust.not_marks hi.traced
  obtain ⟨f, hf, hworking, hsent⟩ : ∃ f : VkNotificationDelivery → VkNotificationDelivery,
      (∀ d, (f d).eventUuid = d.eventUuid ∧ (f d).userId = d.userId) ∧
      (Session.exec w c ⟨C, W⟩).2 = ⟨C, Change.apply W (.updateDelivery (keyed e u') f)⟩ ∧
      (∀ row, (⟨c, (Session.exec w c ⟨C, W⟩).1⟩ : CallEvent) = ⟨.markSent e u', .ok row⟩ →
        (∃ d, deliveryRow W e u' = some d) ∧ ∀ d, (f d).status = .sent) := by
    rcases hop with rfl | ⟨category, rfl⟩
    · refine ⟨sent w, fun _ => ⟨rfl, rfl⟩, rfl, fun row heq => ⟨?_, fun _ => rfl⟩⟩
      have hreply : (Session.exec w (.markSent e u') ⟨C, W⟩).1 = .ok row := by simpa using heq
      have hone : one ((W.vkNotificationDeliveries.filter (keyed e u')).map (sent w)) = .ok row := hreply
      rw [filter_of_unique (hi.wf.working.pairwise_delivery e u')] at hone
      cases hrow : deliveryRow W e u' with
      | some d => exact ⟨d, rfl⟩
      | none =>
        rw [deliveryRow] at hrow
        simp [hrow, one] at hone
    · exact ⟨failed w category, fun _ => ⟨rfl, rfl⟩, rfl, fun row heq => by simp at heq⟩
  have hupd := deliveryRow_update (T := W) (e := e) (u := u') hf
  have hcommit : c ≠ .commit := by rcases hop with rfl | ⟨_, rfl⟩ <;> simp
  have hlooked : c ≠ .userVkGetByUserIds command.userIds (some .active) := by rcases hop with rfl | ⟨_, rfl⟩ <;> simp
  have hclaim : ∀ p, c ≠ .claimAttempt command.eventUuid u p := by rcases hop with rfl | ⟨_, rfl⟩ <;> simp
  by_cases hpair : command.eventUuid = e ∧ u = u'
  · obtain ⟨rfl, rfl⟩ := hpair
    refine hi.called hc hcommit (by rw [hworking])
      (fun _ heq => absurd (congrArg Event.op heq) hlooked) ?_ ?_ fun _ hm => ?_
    · rintro ⟨p, row, heq⟩
      exact absurd (congrArg Event.op heq) (hclaim p)
    · exact fun _ hno => absurd (claimed_cons.mpr (.inr hjust.claimed)) hno
    · rcases markedSent_cons.mp hm with ⟨row, heq⟩ | ⟨row, hmem⟩
      · obtain ⟨⟨d, hrow⟩, hstatus⟩ := hsent row heq
        refine ⟨f d, ?_, hstatus d⟩
        rw [hworking, Change.apply, hupd, hrow]
        simp
      · exact absurd (.inl rfl) (hnot _ hmem)
  · refine hi.idle hc hcommit (by rw [hworking])
      (fun _ heq => absurd (congrArg Event.op heq) hlooked) hclaim ?_ fun _ => ?_
    · rintro rfl
      rcases hop with hop | ⟨_, hop⟩
      · simp only [Call.markSent.injEq] at hop
        exact hpair hop
      · cases hop
    · rw [hworking, Change.apply, hupd]
      simp [hpair]

/-- The commit shows what the recipient's row has become. -/
theorem RunInv.commit (hi : RunInv command u T h s) (hc : DeliveryCall command h .commit) (w : World) :
    RunInv command u T (⟨.commit, (s.exec w .commit).1⟩ :: h) (s.exec w .commit).2 := by
  have hended : Ended (⟨.commit, .ok ()⟩ :: h : CallHistory) := ⟨_, List.mem_cons_self, .inl rfl⟩
  have hclaimed : Claimed (⟨.commit, .ok ()⟩ :: h) command.eventUuid u ↔ Claimed h command.eventUuid u := by
    simp [claimed_cons]
  have hmarked : MarkedSent (⟨.commit, .ok ()⟩ :: h) command.eventUuid u ↔ MarkedSent h command.eventUuid u := by
    simp [markedSent_cons]
  refine ⟨.cons _ hi.traced hc, honest_cons.mpr ⟨by simp [Session.exec, answer], hi.honest⟩, hi.wf.exec w _,
    ⟨hi.same.2, hi.same.2⟩, fun b hb => hi.looked b (by simpa using hb), fun hno => absurd List.mem_cons_self hno,
    fun hend => absurd hended hend, fun h' => hi.unsent (hclaimed.mp h'), fun hend => absurd hended hend, ?_, ?_⟩
  · exact fun _ hno => hi.unclaimed hc.1 fun h' => hno (hclaimed.mpr h')
  · exact fun _ hm => hi.marked hc.1 (hmarked.mp hm)

/-- Every call keeps what holds of the recipient. -/
theorem RunInv.step (hi : RunInv command u T h s) {c : Call} (hc : DeliveryCall command h c) (w : World) :
    RunInv command u T (⟨c, (s.exec w c).1⟩ :: h) (s.exec w c).2 := by
  have hended : ∀ c, c = .commit ∨ c = .rollback ∨ c = .close → ∀ reply, Ended (⟨c, reply⟩ :: h : CallHistory) :=
    fun c hc reply => ⟨_, List.mem_cons_self, hc⟩
  cases c with
  | userVkGetByUserIds userIds state =>
    refine hi.idle hc (by simp) rfl (fun bindings heq => ?_) (by simp) (by simp) fun _ => rfl
    obtain ⟨-, rfl, rfl⟩ := hc
    have hreply : getByUserIds s.working command.userIds (some .active) = bindings := by
      simpa [Session.exec, answer] using heq
    rw [← hreply, getByUserIds, getByUserIds, hi.same.2.1]
  | claimAttempt e u' p => exact hi.claim hc w
  | sendMessage peerId text => exact hi.idle hc (by simp) rfl (by simp) (by simp) (by simp) fun _ => rfl
  | markSent e u' => exact hi.mark (.inl rfl) hc w
  | markFailed e u' category => exact hi.mark (.inr ⟨category, rfl⟩) hc w
  | commit => exact hi.commit hc w
  | rollback =>
    exact hi.idle hc (by simp) rfl (by simp) (by simp) (by simp) fun hend => absurd (hended _ (.inr (.inl rfl)) _) hend
  | close =>
    exact hi.idle hc (by simp) rfl (by simp) (by simp) (by simp) fun hend => absurd (hended _ (.inr (.inr rfl)) _) hend
  | _ => exact hc.elim

end Step
section Runs
variable {command : NotificationCommandSendVkData} {u : UUID} {T : Tables} {h : CallHistory}

theorem runInv_start (hT : T.Wf) : RunInv command u T [] (Session.start T) where
  traced := .nil
  honest := by simp [Honest]
  wf := ⟨hT, hT⟩
  same := ⟨⟨rfl, rfl, rfl⟩, rfl, rfl, rfl⟩
  looked := by simp
  base _ := rfl
  unclaimed _ _ := rfl
  unsent := by simp [Claimed]
  marked := by simp [MarkedSent]
  kept := by simp
  done := by simp

/-- A run of the handler, whatever fails on the way. -/
theorem handleOnce_inv (command : NotificationCommandSendVkData) (u : UUID) (hT : T.Wf) (o : Surroundings)
    (faults : Faults) : ∃ s : Session, s.committed = (handleOnce command o faults T).2.2 ∧
    RunInv command u T (handleOnce command o faults T).2.1 s := by
  have hrun : wp (faultyHandler faults fun h => o h.length) (handleCommand command)
      (fun _ h s => RunInv command u T h s) [] (Session.start T) := by
    refine wp_invariant (fun h c s hc hi => ?_) (handleCommand_conforms command) (runInv_start hT)
    rw [faultyHandler]
    cases hfault : faults.raised h.length with
    | some x => exact hi.raised hc (faults.notOwn _ _ hfault)
    | none => exact hi.step hc _
  exact ⟨_, rfl, hrun⟩

/-- Nothing fails before a commit, and only the session is closed after it. -/
theorem smooth_of_committed (ht : Traced (DeliveryCall command) h) (hhonest : Honest h)
    (hcommit : (⟨.commit, .ok ()⟩ : CallEvent) ∈ h) : Smooth h := by
  obtain ⟨later, earlier, rfl, hcall⟩ := ht.of_mem hcommit
  have hsmooth : Smooth earlier := (hcall.2 fun e he => hhonest e (List.mem_append_right _ (List.mem_cons_of_mem _ he))).2
  intro e he hop x
  rcases List.mem_append.mp he with he | he
  · -- every later call was made after the end of the transaction
    obtain ⟨later', between, rfl⟩ := List.append_of_mem he
    rw [List.append_assoc, List.cons_append] at ht
    have hlater := ht.before
    have hended : Ended (between ++ ⟨.commit, .ok ()⟩ :: earlier) :=
      ⟨_, List.mem_append_right _ List.mem_cons_self, .inl rfl⟩
    obtain ⟨op, reply⟩ := e
    cases op with
    | close => exact absurd rfl hop
    | userVkGetByUserIds => exact absurd hlater.1 (by simp)
    | claimAttempt => exact absurd hended hlater.2.2.2.1
    | sendMessage => exact absurd hended hlater.2.1
    | markSent => exact absurd hended hlater.1
    | markFailed => exact absurd hended hlater.1
    | commit => exact absurd hended hlater.1
    | rollback => exact absurd hended hlater
    | _ => exact hlater.elim
  · rcases List.mem_cons.mp he with rfl | he
    · simp
    · exact hsmooth e he hop x

/-- A recorded message is not sent again by any later run. -/
theorem not_sendsFor_of_sentRow (settings : VkSettings) (hT : T.Wf) (hsent : SentRow T command.eventUuid u)
    (runs : List (List Visit × Surroundings × Faults)) :
    ∀ h ∈ redeliveries settings command T runs, ¬ SendsFor command.eventUuid u h := by
  induction runs generalizing T with
  | nil => simp [redeliveries]
  | cons run runs ih =>
    obtain ⟨visits, o, faults⟩ := run
    obtain ⟨hT, hsent⟩ : (serveAll settings T visits).Wf ∧ SentRow (serveAll settings T visits) command.eventUuid u :=
      serveAll_induction (P := fun T => T.Wf ∧ SentRow T command.eventUuid u) ⟨hT, hsent⟩
        (fun T v h => ⟨serve_wf settings h.1 v, (sentRow_serve h.1 v _ _).mpr (.inl h.2)⟩) visits
    rw [redeliveries]
    generalize serveAll settings T visits = T at hT hsent
    obtain ⟨s, hs, hi⟩ := handleOnce_inv command u hT o faults
    have hunclaimed : ¬ Claimed (handleOnce command o faults T).2.1 command.eventUuid u := fun hc => hi.unsent hc hsent
    have hsent' : SentRow (handleOnce command o faults T).2.2 command.eventUuid u := by
      rw [← hs]
      by_cases hcommit : (⟨.commit, .ok ()⟩ : CallEvent) ∈ (handleOnce command o faults T).2.1
      · obtain ⟨d, hrow, hstatus⟩ := hsent
        exact ⟨d, (hi.kept hcommit hunclaimed).trans hrow, hstatus⟩
      · rwa [hi.base hcommit]
    intro h hh
    rcases List.mem_cons.mp hh with rfl | hh
    · rintro ⟨p, text, reply, row, later, earlier, heq⟩
      exact hunclaimed ⟨p, row, by simp [heq]⟩
    · exact ih (hs ▸ hi.wf.committed) hsent' h hh

/-- An undisturbed run sends for every active recipient that is not recorded as sent. -/
theorem handleOnce_sendsFor (hT : T.Wf) (o : Surroundings) (hu : u ∈ command.userIds) {p : PeerId}
    (hpeer : recipientPeer T u = some p) (hunsent : ¬ SentRow T command.eventUuid u) :
    SendsFor command.eventUuid u (handleOnce command o .none T).2.1 := by
  suffices hrun : wp (handler fun h => o h.length) (handleCommand command)
      (fun _ h _ => SendsFor command.eventUuid u h) [] ⟨T, T⟩ from hrun
  refine handleCommand_of_loop (wp_mono (deliverTo_tries ((lookup_activePeers hT hu).trans hpeer) hu
    command.userIds_nodup hT fun d hrow hstatus => hunsent ⟨d, hrow, hstatus⟩) ?_)
  rintro r h s ⟨⟨failed, rfl⟩, hsends, -⟩
  exact ⟨failed, rfl, hsends.append [_, _]⟩

end Runs

/-- What a run recorded as sent is never sent again exactly when no call of the run fails up
to its commit. Otherwise the next run sends again. -/
theorem delivery_survives_iff (settings : VkSettings) (command : NotificationCommandSendVkData) (u : UUID)
    (o : Surroundings) (faults : Faults) {T : Tables} (hT : T.Wf)
    (hmarked : MarkedSent (handleOnce command o faults T).2.1 command.eventUuid u) :
    (∀ runs, ∀ h ∈ redeliveries settings command (handleOnce command o faults T).2.2 runs,
      ¬ SendsFor command.eventUuid u h) ↔ Smooth (handleOnce command o faults T).2.1 := by
  obtain ⟨s, hs, hi⟩ := handleOnce_inv command u hT o faults
  constructor
  · intro hsurvives
    by_contra hrough
    have hcommit : (⟨.commit, .ok ()⟩ : CallEvent) ∉ (handleOnce command o faults T).2.1 :=
      fun hmem => hrough (smooth_of_committed hi.traced hi.honest hmem)
    obtain ⟨p, row, hmem⟩ := hmarked.claimed hi.traced
    obtain ⟨later, earlier, heq, hcall⟩ := hi.traced.of_mem hmem
    obtain ⟨-, hu, ⟨bindings, hread, hlookup⟩, -⟩ := hcall
    have hbindings := hi.looked bindings (heq ▸ List.mem_append_right _ (List.mem_cons_of_mem _ hread))
    have hpeer : recipientPeer T u = some p := by
      rw [← lookup_activePeers hT hu, ← hbindings, hlookup]
    have hsends := handleOnce_sendsFor hT o hu hpeer (hi.unsent ⟨p, row, hmem⟩)
    refine hsurvives [([], o, .none)] _ List.mem_cons_self ?_
    rw [serveAll_nil, ← hs, hi.base hcommit]
    exact hsends
  · intro hsmooth
    have hend : wp (faultyHandler faults fun h => o h.length) (handleCommand command) (fun r h _ => HandleEnd h r) []
        (Session.start T) := wp_of_conforms (handleCommand_conforms command)
    have hsent : SentRow (handleOnce command o faults T).2.2 command.eventUuid u := hs ▸ hi.done (hend hsmooth) hmarked
    exact not_sendsFor_of_sentRow settings (hs ▸ hi.wf.committed) hsent

section Example

/-- Users 7 and 8 have linked peers 1 and 2. -/
def linkedTwice : Tables :=
  serveAll .least Tables.empty [⟨.issueConfirmation 7, fun _ => .still 0⟩,
    ⟨.confirm "AAAA".toList 1 none none, fun _ => .still 0⟩,
    ⟨.issueConfirmation 8, fun _ => .drawing World.second 0⟩,
    ⟨.confirm "BBBB".toList 2 none none, fun _ => .still 0⟩]

theorem linkedTwice_wf : linkedTwice.Wf :=
  serveAll_induction Tables.empty_wf (fun _ v h => serve_wf .least h v) _

/-- A notification for both users. -/
def toBoth : NotificationCommandSendVkData := ⟨3, [7, 8], "text", by decide, by decide⟩

/-- The claim for the second user fails, after the first one was sent to and recorded. -/
def secondClaimFails : Faults where
  raised n := if n = 4 then some (.foreign 0) else .none
  notOwn n x h := by
    split at h <;> cases h
    rfl

theorem secondClaimFails_marked :
    MarkedSent (handleOnce toBoth (fun _ => .still 0) secondClaimFails linkedTwice).2.1 toBoth.eventUuid 7 :=
  ⟨_, List.mem_of_getElem? (i := 3) rfl⟩

/-- The first user is sent the message a second time. -/
theorem recorded_delivery_can_be_lost : ¬ ∀ (settings : VkSettings) (command : NotificationCommandSendVkData)
    (u : UUID) (o : Surroundings) (faults : Faults) (T : Tables), T.Wf →
    MarkedSent (handleOnce command o faults T).2.1 command.eventUuid u →
    ∀ runs, ∀ h ∈ redeliveries settings command (handleOnce command o faults T).2.2 runs,
      ¬ SendsFor command.eventUuid u h := by
  intro hclaim
  obtain ⟨s, hs, hi⟩ := handleOnce_inv toBoth 7 linkedTwice_wf (fun _ => .still 0) secondClaimFails
  have hwf := hs ▸ hi.wf.committed
  refine hclaim .least toBoth 7 (fun _ => .still 0) secondClaimFails linkedTwice linkedTwice_wf secondClaimFails_marked
    [([], fun _ => .still 0, .none)] _ List.mem_cons_self ?_
  refine handleOnce_sendsFor hwf _ (by decide) (show recipientPeer _ 7 = some 1 by decide +kernel) ?_
  rintro ⟨d, hrow, -⟩
  have hnone : (handleOnce toBoth (fun _ => .still 0) secondClaimFails linkedTwice).2.2.vkNotificationDeliveries =
    [] := by
    decide +kernel
  have hmem := (deliveryRow_some hrow).1
  rw [hnone] at hmem
  cases hmem

/-- The failed run is one in which the recorded message is lost. -/
theorem delivery_survives_iff_secondClaimFails :
    (∀ runs, ∀ h ∈ redeliveries .least toBoth (handleOnce toBoth (fun _ => .still 0) secondClaimFails linkedTwice).2.2 runs,
      ¬ SendsFor toBoth.eventUuid 7 h) ↔ Smooth
      (handleOnce toBoth (fun _ => .still 0) secondClaimFails linkedTwice).2.1 :=
  delivery_survives_iff .least toBoth 7 (fun _ => .still 0) secondClaimFails linkedTwice_wf secondClaimFails_marked

end Example
end VkService
