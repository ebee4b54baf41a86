import VkService.Sequential.Faults
import VkService.Smoke.Config

/-! What a smoke run observes: the messenger that it scripts, the fixtures of its scenario and the
evidence it collects after the deliveries. -/
namespace VkService
open PyStr Effects Effects.Prog

/-- The plans by peer, and how often each planned peer was sent to. -/
structure ScriptedVkMessenger where
  plans : PeerId → Option ScriptedPlan
  attempts : PeerId → Nat

namespace ScriptedVkMessenger

def new (peerPlans : PeerId → Option ScriptedPlan) : ScriptedVkMessenger := ⟨peerPlans, fun _ => 0⟩

/-- `send_message`, with the messenger after it. -/
def sendMessage (m : ScriptedVkMessenger) (peerId : PeerId) : Bool × ScriptedVkMessenger :=
  match m.plans peerId with
  | none => (false, m)
  | some plan =>
    let counted := { m with attempts := Function.update m.attempts peerId (m.attempts peerId + 1) }
    match plan with
    | .success => (true, counted)
    | .failFirstThenSuccess => (decide (1 < counted.attempts peerId), counted)
    | .failAlways => (false, counted)

def afterCall (e : CallEvent) (m : ScriptedVkMessenger) : ScriptedVkMessenger :=
  match e.op with
  | .sendMessage peerId _ => (m.sendMessage peerId).2
  | _ => m

/-- The messenger once it has sent the messages of a history. -/
def after (m : ScriptedVkMessenger) (h : CallHistory) : ScriptedVkMessenger := h.foldr afterCall m

/-- Surroundings in which the messenger sends. -/
def world (m : ScriptedVkMessenger) (o : Surroundings) (past h : CallHistory) : World :=
  { o h.length with accepts := fun peerId => ((m.after (h ++ past)).sendMessage peerId).1 }

end ScriptedVkMessenger

/-- What a plan answers to a message that comes after `n` others. -/
def ScriptedPlan.answer : ScriptedPlan → Nat → Bool
  | .success, _ => true
  | .failFirstThenSuccess, n => 0 < n
  | .failAlways, _ => false

def ScriptedVkMessenger.outcomes (m : ScriptedVkMessenger) : Outcomes := fun peerId n =>
    (m.plans peerId).any (·.answer n)

/-- `SMOKE_MAX_DELIVER` -/
def smokeMaxDeliver : Nat := 3

/-- The rows of the targets. -/
def bindingRows (config : SmokeHarnessConfig) (T : Tables) : List UserVk :=
  T.userVks.filter fun r => config.targetUserIds.contains r.userId

/-- The rows that a scenario starts from. -/
def fixtureHolds (config : SmokeHarnessConfig) (rows : List UserVk) : Bool :=
  let inState (state : BindingState) :=
    rows.length == config.targetUserIds.length && rows.all fun r => r.state == state && r.live
  match config.scenario with
  | .malformed => true
  | .unknownUser => rows.isEmpty
  | .softDeletedBinding => rows.length == config.targetUserIds.length && rows.all fun r => !r.live
  | .pendingBinding => inState .pending
  | .blockedBinding => inState .blocked
  | .repeatedEvent | .concurrentDuplicate | .deliveryFailure | .partialRetry => inState .active

def validateFixtureState (config : SmokeHarnessConfig) (rows : List UserVk) : Except String Unit :=
  if fixtureHolds config rows then .ok () else .error "synthetic fixtures do not match the guarded scenario"

def peerByUser (config : SmokeHarnessConfig) (T : Tables) : List (UUID × PeerId) :=
  activePeers ((bindingRows config T).filter (·.state == .active))

/-- The messenger of a run, which has the plan of its user for each peer. -/
def SmokeHarnessConfig.messenger (config : SmokeHarnessConfig) (T : Tables) : ScriptedVkMessenger :=
  .new fun peerId => ((peerByUser config T).find? (·.2 == peerId)).bind fun entry => config.plans.lookup entry.1

/-- `status` is none for a recipient that is skipped. -/
structure RecipientEvidence where
  recipient : Nat
  status : Option DeliveryStatus
  attempts : Nat
  deriving DecidableEq

/-- `_collect_result`, after a course that began with the tables `T`. -/
def collectResult (config : SmokeHarnessConfig) (T : Tables) (course : Course) : List RecipientEvidence :=
  let messenger := (config.messenger T).after course.history
  config.targetUserIds.mapIdx fun i userId =>
    { recipient := i + 1
      status := (deliveryRow course.tables config.eventUuid userId).map (·.status)
      attempts := match (peerByUser config T).lookup userId with
        | some peerId => messenger.attempts peerId
        | none => 0 }

/-- How a recipient with a plan ends: its status and its attempts. -/
def ScriptedPlan.ending : ScriptedPlan → DeliveryStatus × Nat
  | .success => (.sent, 1)
  | .failFirstThenSuccess => (.sent, 2)
  | .failAlways => (.failed, smokeMaxDeliver)

/-- The scenarios whose targets are linked. -/
def SmokeScenario.delivers : SmokeScenario → Bool
  | .repeatedEvent | .concurrentDuplicate | .deliveryFailure | .partialRetry => true
  | .malformed | .unknownUser | .pendingBinding | .blockedBinding | .softDeletedBinding => false

/-- How often the message of a scenario is processed. -/
def SmokeScenario.processings : SmokeScenario → Nat
  | .partialRetry => 2
  | .deliveryFailure => smokeMaxDeliver
  | _ => 1

/-- What a run of the scenario is to show: the plans of linked targets played to their end, and
nothing for the others. -/
def expectedResult (config : SmokeHarnessConfig) : List RecipientEvidence :=
  config.targetUserIds.mapIdx fun i userId =>
    match config.plans.lookup userId, config.scenario.delivers with
    | some plan, true => ⟨i + 1, some plan.ending.1, plan.ending.2⟩
    | _, _ => ⟨i + 1, none, 0⟩

namespace ScriptedVkMessenger
variable {m : ScriptedVkMessenger}

theorem sendMessage_plans (peerId : PeerId) : (m.sendMessage peerId).2.plans = m.plans := by
  unfold sendMessage
  split
  · rfl
  · split <;> rfl

theorem sendMessage_attempts (peerId p : PeerId) :
    (m.sendMessage peerId).2.attempts p = m.attempts p + if peerId = p ∧ (m.plans p).isSome then 1 else 0 := by
  unfold sendMessage
  by_cases hp : peerId = p
  · subst hp
    cases hplan : m.plans peerId with
    | none => simp
    | some plan => cases plan <;> simp
  · have hne : p ≠ peerId := fun h => hp h.symm
    cases m.plans peerId with
    | none => simp [hp]
    | some plan => cases plan <;> simp [hp, hne]

theorem afterCall_plans (e : CallEvent) : (afterCall e m).plans = m.plans := by
  unfold afterCall
  split
  · exact sendMessage_plans _
  · rfl

theorem after_plans (h : CallHistory) : (m.after h).plans = m.plans := by
  induction h with
  | nil => rfl
  | cons e h ih => exact (afterCall_plans e).trans ih

theorem after_attempts (h : CallHistory) (p : PeerId) :
    (m.after h).attempts p = m.attempts p + if (m.plans p).isSome then sendsTo p h else 0 := by
  induction h with
  | nil => simp [after, sendsTo]
  | cons e h ih =>
    have hstep : (m.after (e :: h)) = afterCall e (m.after h) := rfl
    obtain ⟨op, reply⟩ := e
    have hcount : sendsTo p (⟨op, reply⟩ :: h) = sendsTo p h + if CallEvent.isSendTo p ⟨op, reply⟩ then 1 else 0 :=
      List.countP_cons
    rw [hstep, hcount]
    cases op with
    | sendMessage q text =>
      have hsend : (afterCall ⟨.sendMessage q text, reply⟩ (m.after h)).attempts p =
          (m.after h).attempts p + if q = p ∧ ((m.after h).plans p).isSome then 1 else 0 := sendMessage_attempts q p
      rw [hsend, ih, after_plans]
      by_cases hq : q = p <;> cases (m.plans p).isSome <;> simp [CallEvent.isSendTo, hq, Nat.add_assoc]
    | _ => exact ih

/-- The messenger answers each message to a peer by the peer's plan and the messages before it. -/
theorem new_answers (peerPlans : PeerId → Option ScriptedPlan) (h : CallHistory) (p : PeerId) :
    (((new peerPlans).after h).sendMessage p).1 = (new peerPlans).outcomes p (sendsTo p h) := by
  unfold sendMessage outcomes
  rw [after_plans]
  cases hplan : (new peerPlans).plans p with
  | none => rfl
  | some plan =>
    have hcount : ((new peerPlans).after h).attempts p = sendsTo p h := by
      rw [after_attempts, hplan]
      exact Nat.zero_add _
    cases plan <;> simp [ScriptedPlan.answer, hcount]

theorem new_world (peerPlans : PeerId → Option ScriptedPlan) (o : Surroundings) (past h : CallHistory) :
    (new peerPlans).world o past h = vkWorld (new peerPlans).outcomes o past h := by
  simp only [world, vkWorld, new_answers]

end ScriptedVkMessenger

namespace ScriptedPlan

/-- After this many rounds the plan has come to its end. -/
def EndsAt : ScriptedPlan → ℕ → Prop
  | .success, n => 1 ≤ n
  | .failFirstThenSuccess, n => 2 ≤ n
  | .failAlways, n => n = smokeMaxDeliver

theorem succeeded_iff {plan : ScriptedPlan} {n : ℕ} :
    Retry.succeeded plan.answer n = true ↔ plan ≠ .failAlways ∧ plan.EndsAt n := by
  rw [Retry.succeeded_iff]
  cases plan with
  | success =>
    exact ⟨fun ⟨m, hm, _⟩ => ⟨by decide, Nat.lt_of_le_of_lt (Nat.zero_le m) hm⟩, fun ⟨_, h⟩ => ⟨0, h, rfl⟩⟩
  | failFirstThenSuccess =>
    refine ⟨fun ⟨m, hm, hanswer⟩ => ⟨by decide, ?_⟩, fun ⟨_, h⟩ => ⟨1, h, rfl⟩⟩
    have hpos : 0 < m := of_decide_eq_true hanswer
    exact Nat.lt_of_le_of_lt hpos hm
  | failAlways => exact ⟨fun ⟨_, _, hanswer⟩ => (by cases hanswer), fun h => absurd rfl h.1⟩

theorem tries_eq {plan : ScriptedPlan} {n : ℕ} (h : plan.EndsAt n) : Retry.tries plan.answer n = plan.ending.2 := by
  cases plan with
  | success => exact Retry.tries_of_first rfl rfl h
  | failFirstThenSuccess => exact Retry.tries_of_first rfl rfl h
  | failAlways =>
    obtain rfl : n = smokeMaxDeliver := h
    rfl

theorem status_eq {plan : ScriptedPlan} {n : ℕ} (h : plan.EndsAt n) :
    (if Retry.succeeded plan.answer n then DeliveryStatus.sent else .failed) = plan.ending.1 := by
  cases plan with
  | failAlways =>
    rw [if_neg fun hsent => (succeeded_iff.mp hsent).1 rfl]
    rfl
  | _ => rw [if_pos (succeeded_iff.mpr ⟨by decide, h⟩)]; rfl

end ScriptedPlan

section Fixture
variable {config : SmokeHarnessConfig} {T : Tables} {u : UUID} {p : PeerId}

theorem mem_peerByUser (hT : T.Wf) :
    (u, p) ∈ peerByUser config T ↔ u ∈ config.targetUserIds ∧ recipientPeer T u = some p := by
  rw [peerByUser, mem_activePeers, recipientPeer_eq_some hT]
  simp only [bindingRows, List.mem_filter, List.contains_iff_mem, beq_iff_eq]
  constructor
  · rintro ⟨b, ⟨⟨hb, hmem⟩, hactive⟩, rfl, hlive, hpeer⟩
    exact ⟨hmem, b, hb, rfl, hlive, hactive, hpeer⟩
  · rintro ⟨hmem, b, hb, rfl, hlive, hactive, hpeer⟩
    exact ⟨b, ⟨⟨hb, hmem⟩, hactive⟩, rfl, hlive, hpeer⟩

theorem lookup_peerByUser (hT : T.Wf) (hu : u ∈ config.targetUserIds) :
    (peerByUser config T).lookup u = recipientPeer T u := by
  refine Option.ext fun p => ?_
  rw [lookup_eq_some_iff, mem_peerByUser hT]
  · exact and_iff_right hu
  · intro p p' hp hp'
    exact Option.some.inj (((mem_peerByUser hT).mp hp).2.symm.trans ((mem_peerByUser hT).mp hp').2)

/-- A linked target's peer has the plan of the target. -/
theorem messenger_plans (hT : T.Wf) (hu : u ∈ config.targetUserIds) (hpeer : recipientPeer T u = some p) :
    (config.messenger T).plans p = config.plans.lookup u := by
  have hmem : (u, p) ∈ peerByUser config T := (mem_peerByUser hT).mpr ⟨hu, hpeer⟩
  have hfound : (peerByUser config T).find? (·.2 == p) = some (u, p) := by
    cases hfind : (peerByUser config T).find? (·.2 == p) with
    | none => simpa using List.find?_eq_none.mp hfind (u, p) hmem
    | some entry =>
      obtain ⟨u', p'⟩ := entry
      obtain rfl : p' = p := by simpa using List.find?_some hfind
      have hpeer' := ((mem_peerByUser hT).mp (List.mem_of_find?_eq_some hfind)).2
      rw [recipientPeer_injective hT hpeer' hpeer]
  simp [SmokeHarnessConfig.messenger, ScriptedVkMessenger.new, hfound]

theorem messenger_outcomes (hT : T.Wf) (hu : u ∈ config.targetUserIds) (hpeer : recipientPeer T u = some p)
    {plan : ScriptedPlan} (hplan : config.plans.lookup u = some plan) :
    (config.messenger T).outcomes p = plan.answer := by
  funext n
  rw [ScriptedVkMessenger.outcomes, messenger_plans hT hu hpeer, hplan]
  rfl

theorem validateFixtureState_ok {rows : List UserVk} {v : Unit} :
    validateFixtureState config rows = .ok v ↔ fixtureHolds config rows = true := by
  unfold validateFixtureState
  split <;> simp_all

/-- Every target has a row, and the row is linked, when the scenario delivers. -/
theorem fixture_linked (hT : T.Wf) (hlinked : Linked T) (hdelivers : config.scenario.delivers = true)
    (h : fixtureHolds config (bindingRows config T) = true) (hu : u ∈ config.targetUserIds) :
    ∃ p, recipientPeer T u = some p := by
  obtain ⟨hlength, hrows⟩ : (bindingRows config T).length = config.targetUserIds.length ∧
      ∀ r ∈ bindingRows config T, r.state = .active ∧ r.live = true := by
    unfold fixtureHolds at h
    cases hs : config.scenario <;> simp_all [SmokeScenario.delivers]
  have hsub : (bindingRows config T).map (·.userId) ⊆ config.targetUserIds := by
    intro u hu
    obtain ⟨r, hr, rfl⟩ := List.mem_map.mp hu
    simpa [bindingRows] using (List.mem_filter.mp hr).2
  have hnodup : ((bindingRows config T).map (·.userId)).Nodup := by
    refine List.pairwise_map.mpr ((hT.noClash.sublist List.filter_sublist).imp_of_mem fun {a b} ha hb hclash huser => ?_)
    simp [UserVk.clashes, (hrows a ha).2, (hrows b hb).2, huser] at hclash
  -- as many rows as targets, of different targets
  have hperm : ((bindingRows config T).map (·.userId)).Perm config.targetUserIds :=
    (List.subperm_of_subset hnodup hsub).perm_of_length_le (by simp [hlength])
  obtain ⟨b, hb, rfl⟩ := List.mem_map.mp (hperm.mem_iff.mpr hu)
  have hmem : b ∈ T.userVks := (List.mem_filter.mp hb).1
  obtain ⟨hactive, hlive⟩ := hrows b hb
  obtain ⟨p, hp⟩ := Option.ne_none_iff_exists'.mp (hlinked b hmem hactive)
  exact ⟨p, (recipientPeer_eq_some hT).mpr ⟨b, hmem, rfl, hlive, hactive, hp⟩⟩

/-- In the other scenarios no target is linked. -/
theorem fixture_unlinked (hT : T.Wf) (hscenario : config.scenario ≠ .malformed)
    (hdelivers : config.scenario.delivers = false) (h : fixtureHolds config (bindingRows config T) = true)
    (hu : u ∈ config.targetUserIds) : recipientPeer T u = none := by
  have hrows : ∀ r ∈ bindingRows config T, ¬ (r.state = .active ∧ r.live = true) := by
    unfold fixtureHolds at h
    cases hs : config.scenario <;> simp_all [SmokeScenario.delivers]
  by_contra hsome
  obtain ⟨p, hpeer⟩ := Option.ne_none_iff_exists'.mp hsome
  obtain ⟨b, hb, rfl, hlive, hactive, -⟩ := (recipientPeer_eq_some hT).mp hpeer
  exact hrows b (List.mem_filter.mpr ⟨hb, by simpa using hu⟩) ⟨hactive, hlive⟩

end Fixture

section Plans
variable {finalSigma : Str → Str → Bool} {loads : Str → Except LoadError Decoded} {env : Environ}
  {config : SmokeHarnessConfig} {u : UUID} {plan : ScriptedPlan}

theorem SmokeHarness.Accepted.lookup_iff (h : SmokeHarness.Accepted finalSigma loads env config) :
    config.plans.lookup u = some plan ↔ (u, plan) ∈ config.plans := by
  refine lookup_eq_some_iff fun plan plan' hplan hplan' => ?_
  have hkeys : (config.plans.map Prod.fst).Nodup := h.planned.nodup_iff.mpr h.distinct.2.2
  exact congrArg Prod.snd (List.inj_on_of_nodup_map hkeys hplan hplan' rfl)

theorem SmokeHarness.Accepted.planned_target (h : SmokeHarness.Accepted finalSigma loads env config)
    (hu : u ∈ config.targetUserIds) : ∃ plan, (u, plan) ∈ config.plans := by
  obtain ⟨⟨_, plan⟩, hplan, rfl⟩ := List.mem_map.mp (h.planned.mem_iff.mpr hu)
  exact ⟨plan, hplan⟩

theorem SmokeHarness.Accepted.target_planned (h : SmokeHarness.Accepted finalSigma loads env config)
    (hplan : (u, plan) ∈ config.plans) : u ∈ config.targetUserIds :=
  h.planned.mem_iff.mp (List.mem_map.mpr ⟨_, hplan, rfl⟩)

theorem processings_of_idle {scenario : SmokeScenario} (h : scenario.delivers = false) : scenario.processings = 1 := by
  cases scenario <;> first | rfl | cases h

/-- The plans of a scenario all end with its last processing. -/
theorem fit_ends {scenario : SmokeScenario} {plans : List (UUID × ScriptedPlan)}
    (hfit : SmokeHarness.PlansFit scenario plans) (hplan : (u, plan) ∈ plans) :
    plan.EndsAt scenario.processings ∧ (plan = .failAlways ↔ scenario = .deliveryFailure) := by
  cases scenario with
  | partialRetry =>
    obtain ⟨a, b, hperm⟩ := hfit
    have hmem := hperm.mem_iff.mp hplan
    simp only [List.mem_cons, Prod.mk.injEq, List.not_mem_nil, or_false] at hmem
    rcases hmem with ⟨-, rfl⟩ | ⟨-, rfl⟩
    · exact ⟨Nat.le_succ 1, by simp⟩
    · exact ⟨le_refl 2, by simp⟩
  | deliveryFailure =>
    obtain ⟨a, rfl⟩ := hfit
    obtain ⟨-, rfl⟩ := Prod.mk.inj (List.mem_singleton.mp hplan)
    exact ⟨rfl, by simp⟩
  | _ =>
    obtain rfl : plan = .success := hfit _ hplan
    exact ⟨le_refl 1, by simp⟩

/-- Before that one of them is still open. -/
theorem fit_open {scenario : SmokeScenario} {plans : List (UUID × ScriptedPlan)}
    (hfit : SmokeHarness.PlansFit scenario plans) {n : ℕ} (hpos : 1 ≤ n) (hlt : n < scenario.processings) :
    ∃ entry ∈ plans, ¬ (entry.2 ≠ .failAlways ∧ entry.2.EndsAt n) := by
  cases scenario with
  | partialRetry =>
    obtain ⟨a, b, hperm⟩ := hfit
    refine ⟨(b, .failFirstThenSuccess), hperm.mem_iff.mpr (by simp), fun hend => ?_⟩
    exact absurd hlt (not_lt.mpr hend.2)
  | deliveryFailure =>
    obtain ⟨a, rfl⟩ := hfit
    exact ⟨(a, .failAlways), List.mem_singleton_self _, fun hend => hend.1 rfl⟩
  | _ => exact absurd hlt (not_lt.mpr hpos)

theorem ScriptedPlan.EndsAt.later {n n' : ℕ} (h : plan.EndsAt n) (hplan : plan ≠ .failAlways) (hle : n ≤ n') :
    plan.EndsAt n' := by
  cases plan with
  | failAlways => exact absurd rfl hplan
  | _ => exact le_trans h hle

/-- Where no plan is to fail, all of them have succeeded from the last processing on. -/
theorem SmokeHarness.Accepted.ended (h : SmokeHarness.Accepted finalSigma loads env config)
    (hsucceeds : config.scenario ≠ .deliveryFailure) {n : ℕ} (hle : config.scenario.processings ≤ n)
    (hplan : config.plans.lookup u = some plan) : plan ≠ .failAlways ∧ plan.EndsAt n := by
  obtain ⟨hend, hnever⟩ := fit_ends h.fit (h.lookup_iff.mp hplan)
  have hreached : plan ≠ .failAlways := fun heq => hsucceeds (hnever.mp heq)
  exact ⟨hreached, hend.later hreached hle⟩

end Plans

/-- The targets of a fixture: linked, each with its plan, or none of them linked. -/
def FixtureReady (config : SmokeHarnessConfig) (T : Tables) : Prop :=
  ∀ u ∈ config.targetUserIds, if config.scenario.delivers then
    ∃ p plan, recipientPeer T u = some p ∧ config.plans.lookup u = some plan
  else recipientPeer T u = none

section Run
variable {config : SmokeHarnessConfig} {T : Tables} {command : NotificationCommandSendVkData}

theorem FixtureReady.linked (hready : FixtureReady config T) (hdelivers : config.scenario.delivers = true) {u : UUID}
    (hu : u ∈ config.targetUserIds) : ∃ p plan, recipientPeer T u = some p ∧ config.plans.lookup u = some plan := by
  have h := hready u hu
  rwa [if_pos hdelivers] at h

theorem FixtureReady.unlinked (hready : FixtureReady config T) (hdelivers : config.scenario.delivers = false) {u : UUID}
    (hu : u ∈ config.targetUserIds) : recipientPeer T u = none := by
  have h := hready u hu
  rwa [hdelivers, if_neg Bool.false_ne_true] at h

/-- Everybody has been reached when each plan has succeeded. -/
theorem done_of_ready (hT : T.Wf) (husers : command.userIds = config.targetUserIds) (hready : FixtureReady config T)
    {n : ℕ} : Done T command (config.messenger T).outcomes n ↔
      (config.scenario.delivers = true → ∀ u ∈ config.targetUserIds, ∀ plan, config.plans.lookup u = some plan →
        plan ≠ .failAlways ∧ plan.EndsAt n) := by
  rw [Done, husers]
  constructor
  · intro hdone hdelivers u hu plan hplan
    obtain ⟨p, plan', hpeer, hplan'⟩ := hready.linked hdelivers hu
    obtain rfl : plan = plan' := Option.some.inj (hplan.symm.trans hplan')
    have hunfinished := hdone u hu
    rw [unfinished, hpeer, Option.any_some, messenger_outcomes hT hu hpeer hplan, Bool.not_eq_false'] at hunfinished
    exact ScriptedPlan.succeeded_iff.mp hunfinished
  · intro hended u hu
    cases hdelivers : config.scenario.delivers with
    | false =>
      rw [unfinished, hready.unlinked hdelivers hu, Option.any_none]
    | true =>
      obtain ⟨p, plan, hpeer, hplan⟩ := hready.linked hdelivers hu
      rw [unfinished, hpeer, Option.any_some, messenger_outcomes hT hu hpeer hplan, Bool.not_eq_false']
      exact ScriptedPlan.succeeded_iff.mpr (hended hdelivers u hu plan hplan)

section Accepted
variable {finalSigma : Str → Str → Bool} {loads : Str → Except LoadError Decoded} {env : Environ}

/-- A fixture that matches its scenario is ready for the plans of the guard. -/
theorem fixtureReady_of_holds (haccepted : SmokeHarness.Accepted finalSigma loads env config)
    (hscenario : config.scenario ≠ .malformed) (hT : T.Wf) (hlinked : Linked T)
    (hfixture : fixtureHolds config (bindingRows config T) = true) : FixtureReady config T := by
  intro u hu
  split
  · rename_i hdelivers
    obtain ⟨p, hpeer⟩ := fixture_linked hT hlinked hdelivers hfixture hu
    obtain ⟨plan, hplan⟩ := haccepted.planned_target hu
    exact ⟨p, plan, hpeer, haccepted.lookup_iff.mpr hplan⟩
  · rename_i hdelivers
    exact fixture_unlinked hT hscenario (Bool.eq_false_iff.mpr hdelivers) hfixture hu

/-- From the last processing on everybody has been reached, in the scenarios that are to succeed. -/
theorem done_iff_succeeds (haccepted : SmokeHarness.Accepted finalSigma loads env config) (hT : T.Wf)
    (husers : command.userIds = config.targetUserIds) (hready : FixtureReady config T) {n : ℕ}
    (hle : config.scenario.processings ≤ n) :
    Done T command (config.messenger T).outcomes n ↔ config.scenario ≠ .deliveryFailure := by
  rw [done_of_ready hT husers hready]
  constructor
  · intro hdone hfails
    -- the only plan of this scenario never succeeds
    obtain ⟨a, hplans⟩ : ∃ a, config.plans = [(a, .failAlways)] := by
      have hfit := haccepted.fit
      rwa [hfails] at hfit
    have hplan : (a, .failAlways) ∈ config.plans := by rw [hplans]; exact List.mem_singleton_self _
    exact (hdone (by rw [hfails]; rfl) a (haccepted.target_planned hplan) _ (haccepted.lookup_iff.mpr hplan)).1 rfl
  · exact fun hsucceeds _ u _ plan hplan => haccepted.ended hsucceeds hle hplan

/-- The message is processed until the plans of the scenario have come to their end. -/
theorem stops_at_processings (haccepted : SmokeHarness.Accepted finalSigma loads env config) (hT : T.Wf)
    (husers : command.userIds = config.targetUserIds) (hready : FixtureReady config T) :
    Retry.Stops (Done T command (config.messenger T).outcomes) smokeMaxDeliver config.scenario.processings := by
  refine ⟨?_, ?_, ?_, fun n hpos hlt hdone => ?_⟩
  · cases config.scenario <;> decide
  · cases config.scenario <;> decide
  · by_cases hfails : config.scenario = .deliveryFailure
    · exact .inl (by rw [hfails]; rfl)
    · exact .inr ((done_iff_succeeds haccepted hT husers hready (le_refl _)).mpr hfails)
  · cases hdelivers : config.scenario.delivers with
    | false => exact absurd (processings_of_idle hdelivers ▸ hlt) (not_lt.mpr hpos)
    | true =>
      obtain ⟨⟨u, plan⟩, hplan, hopen⟩ := fit_open haccepted.fit hpos hlt
      exact hopen ((done_of_ready hT husers hready).mp hdone hdelivers u (haccepted.target_planned hplan) plan
        (haccepted.lookup_iff.mpr hplan))

end Accepted

/-- The evidence is the expected one as soon as the plans have come to their end. -/
theorem collectResult_of_progress (hT : T.Wf) (hevent : command.eventUuid = config.eventUuid)
    (husers : command.userIds = config.targetUserIds) (hready : FixtureReady config T) {course : Course} {n : ℕ}
    (hends : ∀ u ∈ config.targetUserIds, ∀ plan, config.plans.lookup u = some plan → plan.EndsAt n)
    (hp : Progress T command (config.messenger T).outcomes (fun _ => n) course.history course.tables) :
    collectResult config T course = expectedResult config := by
  refine List.ext_getElem (by simp [collectResult, expectedResult]) fun i hi hi' => ?_
  simp only [collectResult, expectedResult, List.getElem_mapIdx]
  rw [collectResult, List.length_mapIdx] at hi
  have hu : config.targetUserIds[i] ∈ config.targetUserIds := List.getElem_mem hi
  generalize config.targetUserIds[i] = u at hu
  rw [lookup_peerByUser hT hu]
  cases hdelivers : config.scenario.delivers with
  | false =>
    have hnone := hready.unlinked hdelivers hu
    rw [hnone, ← hevent, hp.absent u (.inr hnone)]
    cases config.plans.lookup u <;> rfl
  | true =>
    obtain ⟨p, plan, hpeer, hplan⟩ := hready.linked hdelivers hu
    have hend := hends u hu plan hplan
    obtain ⟨hrow, hsends, -⟩ := hp.recipient u (husers ▸ hu) p hpeer
    rw [messenger_outcomes hT hu hpeer hplan] at hrow hsends
    obtain ⟨k, rfl⟩ : ∃ k, n = k + 1 := by
      cases n with
      | zero => cases plan <;> cases hend
      | succ k => exact ⟨k, rfl⟩
    obtain ⟨d, hd, hstatus, -⟩ := hrow
    have hattempts : ((config.messenger T).after course.history).attempts p = plan.ending.2 := by
      rw [ScriptedVkMessenger.after_attempts, messenger_plans hT hu hpeer, hplan, ← ScriptedPlan.tries_eq hend, ← hsends]
      exact Nat.zero_add _
    rw [hpeer, hplan, ← hevent, hd]
    simp only [Option.map_some, hstatus, ScriptedPlan.status_eq hend, hattempts]

end Run

/-- A smoke run that the guard and the fixtures let through shows what its scenario is for: the
message is processed as often as the plans need, a scenario that is to fail is not acknowledged,
and a second copy of the message changes nothing. -/
theorem smoke_evidence {finalSigma : Str → Str → Bool} {loads : Str → Except LoadError Decoded} {env : Environ}
    {config : SmokeHarnessConfig} (hguard : SmokeHarness.fromEnvironment finalSigma loads env = .ok config)
    (hscenario : config.scenario ≠ .malformed) {T : Tables} (hT : T.Wf) (hlinked : Linked T)
    (hnew : ∀ d ∈ T.vkNotificationDeliveries, d.eventUuid ≠ config.eventUuid)
    (hfixture : validateFixtureState config (bindingRows config T) = .ok ()) {command : NotificationCommandSendVkData}
    (hevent : command.eventUuid = config.eventUuid) (husers : command.userIds = config.targetUserIds)
    (o o' : Nat → Surroundings) :
    let messenger := config.messenger T
    let course := redeliver command messenger.outcomes o smokeMaxDeliver ⟨0, [], none, T⟩
    let again := redeliver command messenger.outcomes o' smokeMaxDeliver course
    (∀ o past h, vkWorld messenger.outcomes o past h = messenger.world o past h) ∧
    course.processed = config.scenario.processings ∧
    (course.last = some .ack ↔ config.scenario ≠ .deliveryFailure) ∧
    collectResult config T course = expectedResult config ∧
    (config.scenario ≠ .deliveryFailure → again.processed = course.processed + 1 ∧ again.last = some .ack ∧
      collectResult config T again = expectedResult config) := by
  intro messenger course again
  have haccepted := SmokeHarness.fromEnvironment_ok.mp hguard
  have hready := fixtureReady_of_holds haccepted hscenario hT hlinked (validateFixtureState_ok.mp hfixture)
  obtain ⟨N, hstops, hprocessed, hp, hlast⟩ := redeliver_stops hT (o := o)
    (show 1 ≤ smokeMaxDeliver by decide) ⟨0, [], none, T⟩ (progress_start hT (hevent ▸ hnew) messenger.outcomes)
  simp only [Nat.zero_add] at hstops hprocessed hp hlast
  obtain rfl : N = config.scenario.processings := hstops.unique (stops_at_processings haccepted hT husers hready)
  have hcourse : course.processed = config.scenario.processings := hprocessed
  refine ⟨fun o past h => (ScriptedVkMessenger.new_world _ o past h).symm, hcourse,
    hlast.trans (done_iff_succeeds haccepted hT husers hready (le_refl _)),
    collectResult_of_progress hT hevent husers hready
      (fun u _ plan hplan => (fit_ends haccepted.fit (haccepted.lookup_iff.mp hplan)).1) hp,
    fun hsucceeds => ?_⟩
  have hlater : ∀ m, config.scenario.processings ≤ course.processed + m := fun m => hcourse ▸ Nat.le_add_right _ m
  have hdone : ∀ m, Done T command messenger.outcomes (course.processed + m) := fun m =>
    (done_iff_succeeds haccepted hT husers hready (hlater m)).mpr hsucceeds
  obtain ⟨M, hstops', hprocessed', hp', hlast'⟩ := redeliver_stops hT (o := o')
    (show 1 ≤ smokeMaxDeliver by decide) course (hcourse ▸ hp)
  -- one more processing finds everybody reached
  obtain rfl : M = 1 := hstops'.unique ⟨le_refl 1, by decide, .inr (hdone 1), fun m hm hlt => absurd hlt (not_lt.mpr hm)⟩
  exact ⟨hprocessed', hlast'.mpr (hdone 1), collectResult_of_progress hT hevent husers hready
    (fun u _ plan hplan => (haccepted.ended hsucceeds (hlater 1) hplan).2) hp'⟩

/-- The plans of the users 7 and 8. -/
private def partialPlans : Str :=
  ("\x7b\"00000000-0000-0000-0000-000000000007\": \"success\", " ++
    "\"00000000-0000-0000-0000-000000000008\": \"fail-first-then-success\"\x7d").toList

private def partialLoads (text : Str) : Except LoadError Decoded :=
  if text = partialPlans then
    .ok (.dict ⟨[(uuidText 7, some "success".toList), (uuidText 8, some "fail-first-then-success".toList)], by decide⟩)
  else .error .jsonDecode

private def partialEnvironment : Environ := fun name => List.lookup name
  [("EQSITECMS_SMOKE_HARNESS".toList, "1".toList), ("EQSITECMS_ENVIRONMENT".toList, "local".toList),
    ("EQSITECMS_SMOKE_RUN_ID".toList, uuidText 1), ("EQSITECMS_SMOKE_EVENT_ID".toList, uuidText 3),
    ("EQSITECMS_SMOKE_CALLBACK_REQUEST_ID".toList, uuidText 4),
    ("EQSITECMS_SMOKE_SCENARIO".toList, "partial-retry".toList),
    ("EQSITECMS_SMOKE_SYNTHETIC_TARGETS".toList, uuidText 7 ++ ",".toList ++ uuidText 8),
    ("EQSITECMS_SMOKE_SCRIPTED_PLANS".toList, partialPlans)]

private def partialConfig : SmokeHarnessConfig where
  scenario := .partialRetry
  runId := 1
  targetUserIds := [7, 8]
  plans := [(7, .success), (8, .failFirstThenSuccess)]
  eventUuid := 3
  callbackRequestId := 4

/-- One user is reached at once, the other by the second delivery. -/
theorem smoke_evidence_partial :
    collectResult partialConfig linkedTwice (redeliver toBoth (partialConfig.messenger linkedTwice).outcomes
      (fun _ _ => .still 0) smokeMaxDeliver ⟨0, [], none, linkedTwice⟩) = [⟨1, some .sent, 1⟩, ⟨2, some .sent, 2⟩] := by
  have hguard : SmokeHarness.fromEnvironment (fun _ _ => false) partialLoads partialEnvironment =
    .ok partialConfig := by
    decide +kernel
  have hnew : ∀ d ∈ linkedTwice.vkNotificationDeliveries, d.eventUuid ≠ partialConfig.eventUuid := by decide +kernel
  have hfixture : fixtureHolds partialConfig (bindingRows partialConfig linkedTwice) = true := by decide +kernel
  have hconsistent : Consistent linkedTwice := serveAll_consistent .least _
  exact (smoke_evidence hguard (by decide) hconsistent.wf hconsistent.linked hnew (validateFixtureState_ok.mpr hfixture)
    (show toBoth.eventUuid = _ from rfl) (show toBoth.userIds = _ from rfl) (fun _ _ => .still 0)
    (fun _ _ => .still 0)).2.2.2.1

end VkService
