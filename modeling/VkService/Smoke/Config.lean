import Mathlib.Data.List.Nodup
import VkService.Domain.Records
import VkService.Text.Separated
import VkService.Text.UuidText

/-! The configuration of the smoke harness. The guard reads it from the environment, and the
names that a run uses are its own. -/
namespace VkService
open PyStr

inductive ScriptedPlan where
  | success | failAlways | failFirstThenSuccess
  deriving DecidableEq

def ScriptedPlan.text : ScriptedPlan → Str
  | .success => "success".toList
  | .failAlways => "fail-always".toList
  | .failFirstThenSuccess => "fail-first-then-success".toList

/-- The constructor of the enumeration on a JSON value, of which only texts are members. -/
def ScriptedPlan.ofValue (value : Option Str) : Option ScriptedPlan :=
  [success, failAlways, failFirstThenSuccess].find? fun plan => value == some plan.text

inductive SmokeScenario where
  | malformed | unknownUser | pendingBinding | blockedBinding | softDeletedBinding | repeatedEvent
  | concurrentDuplicate | deliveryFailure | partialRetry
  deriving DecidableEq

def SmokeScenario.text : SmokeScenario → Str
  | .malformed => "malformed".toList
  | .unknownUser => "unknown-user".toList
  | .pendingBinding => "pending-binding".toList
  | .blockedBinding => "blocked-binding".toList
  | .softDeletedBinding => "soft-deleted-binding".toList
  | .repeatedEvent => "repeated-event".toList
  | .concurrentDuplicate => "concurrent-duplicate".toList
  | .deliveryFailure => "delivery-failure".toList
  | .partialRetry => "partial-retry".toList

def SmokeScenario.ofText (text : Str) : Option SmokeScenario :=
  [malformed, unknownUser, pendingBinding, blockedBinding, softDeletedBinding, repeatedEvent, concurrentDuplicate,
    deliveryFailure, partialRetry].find? (·.text == text)

structure SmokeTopology where
  stream : Str
  subject : Str
  durable : Str

namespace SmokeTopology

def forRun (runId : UUID) : SmokeTopology :=
  let suffix := hexDigits 32 runId
  { stream := "EQSITECMS_SMOKE_VK_".toList ++ upper suffix
    subject := "smoke.eqsitecms.vk.".toList ++ suffix ++ ".send".toList
    durable := "eqsitecms-smoke-vk-".toList ++ suffix }

def assertIsolated (topology : SmokeTopology) : Except String Unit :=
  if topology.stream = "NOTIFICATION_COMMANDS".toList then .error "production stream is forbidden"
  else if topology.subject = "commands.notification.vk.send".toList ∨
      !"smoke.eqsitecms.vk.".toList.isPrefixOf topology.subject then .error "production subject is forbidden"
  else if topology.durable = "vk-service-commands-send-vk".toList ∨
      !"eqsitecms-smoke-vk-".toList.isPrefixOf topology.durable then .error "production durable is forbidden"
  else .ok ()

end SmokeTopology

/-- A JSON object as a dict. Its values are kept as far as the guard looks at them: a text, or
something else. -/
structure JsonDict where
  entries : List (Str × Option Str)
  keys_nodup : (entries.map Prod.fst).Nodup

inductive Decoded where
  | dict (object : JsonDict)
  | other

/-- `json.loads` fails with a `JSONDecodeError`, or with something that the guard does not expect. -/
inductive LoadError where
  | jsonDecode | other

/-- A `SmokeHarnessGuardError`, or an exception that is not the guard's. -/
inductive ConfigError where
  | guard (message : Str)
  | uncaught
  deriving DecidableEq

abbrev Environ := Str → Option Str

structure SmokeHarnessConfig where
  scenario : SmokeScenario
  runId : UUID
  targetUserIds : List UUID
  plans : List (UUID × ScriptedPlan)
  eventUuid : UUID
  callbackRequestId : UUID
  deriving DecidableEq

def SmokeHarnessConfig.topology (config : SmokeHarnessConfig) : SmokeTopology := .forRun config.runId

namespace SmokeHarness

/-- Raise the guard's error unless the condition holds. -/
def require (condition : Prop) [Decidable condition] (message : Str) : Except ConfigError Unit :=
  if condition then .ok () else .error (.guard message)

/-- A value that the guard cannot do without. -/
def demand {α : Type} (value : Option α) (message : Str) : Except ConfigError α :=
  match value with
  | some a => .ok a
  | none => .error (.guard message)

def requiredUuid (env : Environ) (name : Str) : Except ConfigError UUID := do
  let value ← demand (readUuid (strip ((env name).getD []))) (name ++ " must be an exact UUID".toList)
  require (value ≠ 0) (name ++ " must not be nil".toList)
  pure value

def uuidList (raw : Str) : Except ConfigError (List UUID) :=
  if (strip raw).isEmpty ∨ '*' ∈ raw ∨ '>' ∈ raw then pure []
  else do
    let values ← demand (readItems readUuid (items ',' raw)).toOption "synthetic targets must be exact UUIDs".toList
    require (0 ∉ values ∧ values.Nodup) "synthetic targets must be unique non-nil UUIDs".toList
    pure values

/-- The plans of a scenario. Sorted lists of plans are equal when the lists are permutations. -/
def validateScenarioPlan (scenario : SmokeScenario) (targets : List UUID) (plans : List (UUID × ScriptedPlan)) :
    Except ConfigError Unit :=
  match scenario with
  | .partialRetry =>
    require (targets.length = 2 ∧ (plans.map Prod.snd).Perm [.success, .failFirstThenSuccess])
      "partial-retry requires one success and one fail-first target".toList
  | .deliveryFailure =>
    require (targets.length = 1 ∧ (targets.head?.bind fun user => plans.lookup user) = some .failAlways)
      "delivery-failure requires one fail-always target".toList
  | _ => require (∀ entry ∈ plans, entry.2 = .success) "this scenario permits only success scripted plans".toList

/-- `json.loads` and the check of what it gives. -/
def readDict (loads : Str → Except LoadError Decoded) (raw : Str) : Except ConfigError JsonDict :=
  match loads raw with
  | .error .jsonDecode => .error (.guard "scripted plans must be a JSON object".toList)
  | .error .other => .error .uncaught
  | .ok (.dict object) => .ok object
  | .ok .other => .error (.guard "scripted plans must exactly match synthetic targets".toList)

def readPlan (entry : Str × Option Str) : Option (UUID × ScriptedPlan) :=
  (readUuid entry.1).bind fun user => (ScriptedPlan.ofValue entry.2).map (user, ·)

def fromEnvironment (finalSigma : Str → Str → Bool) (loads : Str → Except LoadError Decoded) (env : Environ) :
    Except ConfigError SmokeHarnessConfig := do
  require (env "EQSITECMS_SMOKE_HARNESS".toList = some "1".toList) "smoke harness is disabled".toList
  require (lower finalSigma (strip ((env "EQSITECMS_ENVIRONMENT".toList).getD [])) = "local".toList)
    "smoke harness requires local environment".toList
  let runId ← requiredUuid env "EQSITECMS_SMOKE_RUN_ID".toList
  let eventUuid ← requiredUuid env "EQSITECMS_SMOKE_EVENT_ID".toList
  let callbackRequestId ← requiredUuid env "EQSITECMS_SMOKE_CALLBACK_REQUEST_ID".toList
  let scenario ← demand (SmokeScenario.ofText ((env "EQSITECMS_SMOKE_SCENARIO".toList).getD []))
    "a supported exact smoke scenario is required".toList
  let targets ← uuidList ((env "EQSITECMS_SMOKE_SYNTHETIC_TARGETS".toList).getD [])
  require (targets ≠ []) "at least one exact synthetic target is required".toList
  let decoded ← readDict loads ((env "EQSITECMS_SMOKE_SCRIPTED_PLANS".toList).getD [])
  require ((∀ key ∈ decoded.entries.map Prod.fst, key ∈ targets.map uuidText) ∧
      ∀ key ∈ targets.map uuidText, key ∈ decoded.entries.map Prod.fst)
    "scripted plans must exactly match synthetic targets".toList
  let plans ← demand (decoded.entries.mapM readPlan) "scripted plans contain an invalid target or outcome".toList
  validateScenarioPlan scenario targets plans
  pure ⟨scenario, runId, targets, plans, eventUuid, callbackRequestId⟩

section Steps
variable {α β : Type} {condition : Prop} [Decidable condition] {message : Str}

theorem bind_ok {x : Except ConfigError α} {f : α → Except ConfigError β} {b : β} :
    (x >>= f) = .ok b ↔ ∃ a, x = .ok a ∧ f a = .ok b := by
  cases x with
  | error e => exact iff_of_false (fun h => by cases h) fun ⟨_, h, _⟩ => by cases h
  | ok a => exact ⟨fun h => ⟨a, rfl, h⟩, fun ⟨_, h, hf⟩ => by cases h; exact hf⟩

@[simp] theorem require_ok {u : Unit} : require condition message = .ok u ↔ condition := by
  unfold require
  split <;> simp_all

@[simp] theorem demand_ok {value : Option α} {a : α} : demand value message = .ok a ↔ value = some a := by
  cases value <;> simp [demand]

theorem requiredUuid_ok {env : Environ} {name : Str} {id : UUID} :
    requiredUuid env name = .ok id ↔ readUuid (strip ((env name).getD [])) = some id ∧ id ≠ 0 := by
  simp only [requiredUuid, bind_ok, demand_ok, require_ok, pure, Except.pure, Except.ok.injEq, exists_const]
  constructor
  · rintro ⟨_, hread, hne, rfl⟩
    exact ⟨hread, hne⟩
  · rintro ⟨hread, hne⟩
    exact ⟨id, hread, hne, rfl⟩

/-- A blank text has one item, which is blank. -/
theorem items_blank {raw : Str} (hblank : strip raw = []) : items ',' raw = [[]] := by
  obtain ⟨lead, tail, hlead, htail, hraw⟩ := strip_spec raw
  have hcomma : ∀ part ∈ [raw], ',' ∉ part := by
    intro part hpart hmem
    rw [List.mem_singleton.mp hpart, hraw, hblank, List.append_nil] at hmem
    rcases List.mem_append.mp hmem with hmem | hmem
    · exact absurd (hlead ',' hmem) (by decide)
    · exact absurd (htail ',' hmem) (by decide)
  have hitems := items_intercalate (List.cons_ne_nil raw []) hcomma
  rwa [List.intercalate_singleton, List.map_singleton, hblank] at hitems

/-- The targets are read when there are no wildcards and every item is the text of a new UUID. -/
theorem uuidList_ok {raw : Str} {ids : List UUID} (hne : ids ≠ []) : uuidList raw = .ok ids ↔
    '*' ∉ raw ∧ '>' ∉ raw ∧ (items ',' raw).map readUuid = ids.map some ∧ 0 ∉ ids ∧ ids.Nodup := by
  have hread : ∀ {values : List UUID}, (readItems readUuid (items ',' raw)).toOption = some values ↔
      (items ',' raw).map readUuid = values.map some := by
    intro values
    rw [← readItems_ok]
    cases readItems readUuid (items ',' raw) <;> simp [Except.toOption]
  unfold uuidList
  split
  · rename_i hblank
    refine iff_of_false (fun h => ?_) fun ⟨hstar, hgreater, hitems, _⟩ => ?_
    · exact hne (Except.ok.inj h).symm
    · rcases hblank with hblank | hmem | hmem
      · rw [items_blank (List.isEmpty_iff.mp hblank)] at hitems
        cases ids with
        | nil => exact hne rfl
        | cons id ids => exact absurd (List.cons.inj hitems).1 (by simp [show readUuid [] = none by decide])
      · exact hstar hmem
      · exact hgreater hmem
  · rename_i hopen
    simp only [bind_ok, demand_ok, hread, require_ok, pure, Except.pure, Except.ok.injEq, exists_const]
    constructor
    · rintro ⟨_, hitems, hvalid, rfl⟩
      exact ⟨fun h => hopen (.inr (.inl h)), fun h => hopen (.inr (.inr h)), hitems, hvalid⟩
    · rintro ⟨-, -, hitems, hvalid⟩
      exact ⟨ids, hitems, hvalid, rfl⟩

theorem scenario_ofText {text : Str} {scenario : SmokeScenario} :
    SmokeScenario.ofText text = some scenario ↔ text = scenario.text := by
  constructor
  · intro h
    have hfound := List.find?_some (p := fun scenario : SmokeScenario => scenario.text == text) h
    exact (beq_iff_eq.mp hfound).symm
  · rintro rfl
    cases scenario <;> decide

theorem plan_ofValue {value : Option Str} {plan : ScriptedPlan} :
    ScriptedPlan.ofValue value = some plan ↔ value = some plan.text := by
  constructor
  · intro h
    have hfound := List.find?_some (p := fun plan : ScriptedPlan => value == some plan.text) h
    exact beq_iff_eq.mp hfound
  · rintro rfl
    cases plan <;> decide

theorem readPlan_some {entry : Str × Option Str} {user : UUID} {plan : ScriptedPlan} :
    readPlan entry = some (user, plan) ↔ readUuid entry.1 = some user ∧ entry.2 = some plan.text := by
  simp only [readPlan, Option.bind_eq_some_iff, Option.map_eq_some_iff, Prod.mk.injEq, plan_ofValue]
  constructor
  · rintro ⟨_, hread, _, hvalue, rfl, rfl⟩
    exact ⟨hread, hvalue⟩
  · rintro ⟨hread, hvalue⟩
    exact ⟨user, hread, plan, hvalue, rfl, rfl⟩

theorem readDict_ok {loads : Str → Except LoadError Decoded} {raw : Str} {object : JsonDict} :
    readDict loads raw = .ok object ↔ loads raw = .ok (.dict object) := by
  unfold readDict
  split <;> simp_all

end Steps

/-- The plans that a scenario is run with. -/
def PlansFit : SmokeScenario → List (UUID × ScriptedPlan) → Prop
  | .partialRetry, plans => ∃ a b, plans.Perm [(a, .success), (b, .failFirstThenSuccess)]
  | .deliveryFailure, plans => ∃ a, plans = [(a, .failAlways)]
  | _, plans => ∀ entry ∈ plans, entry.2 = .success

/-- What the environment says when the guard accepts it. -/
structure Accepted (finalSigma : Str → Str → Bool) (loads : Str → Except LoadError Decoded) (env : Environ)
    (config : SmokeHarnessConfig) : Prop where
  enabled : env "EQSITECMS_SMOKE_HARNESS".toList = some "1".toList
  isLocal : lower finalSigma (strip ((env "EQSITECMS_ENVIRONMENT".toList).getD [])) = "local".toList
  runId : readUuid (strip ((env "EQSITECMS_SMOKE_RUN_ID".toList).getD [])) = some config.runId
  eventUuid : readUuid (strip ((env "EQSITECMS_SMOKE_EVENT_ID".toList).getD [])) = some config.eventUuid
  callbackRequestId : readUuid (strip ((env "EQSITECMS_SMOKE_CALLBACK_REQUEST_ID".toList).getD [])) =
    some config.callbackRequestId
  not_nil : config.runId ≠ 0 ∧ config.eventUuid ≠ 0 ∧ config.callbackRequestId ≠ 0
  scenario : (env "EQSITECMS_SMOKE_SCENARIO".toList).getD [] = config.scenario.text
  targets : ∀ raw, raw = (env "EQSITECMS_SMOKE_SYNTHETIC_TARGETS".toList).getD [] →
    '*' ∉ raw ∧ '>' ∉ raw ∧ (items ',' raw).map readUuid = config.targetUserIds.map some
  distinct : config.targetUserIds ≠ [] ∧ 0 ∉ config.targetUserIds ∧ config.targetUserIds.Nodup
  plans : ∃ object, loads ((env "EQSITECMS_SMOKE_SCRIPTED_PLANS".toList).getD []) = .ok (.dict object) ∧
    object.entries = config.plans.map fun entry => (uuidText entry.1, some entry.2.text)
  planned : (config.plans.map Prod.fst).Perm config.targetUserIds
  fit : PlansFit config.scenario config.plans

private theorem plans_of_perm {plan plan' : ScriptedPlan} (h : [plan, plan'].Perm [.success, .failFirstThenSuccess]) :
    plan = .success ∧ plan' = .failFirstThenSuccess ∨ plan = .failFirstThenSuccess ∧ plan' = .success := by
  revert h
  cases plan <;> cases plan' <;> decide

theorem validateScenarioPlan_ok {scenario : SmokeScenario} {targets : List UUID} {plans : List (UUID × ScriptedPlan)}
    (hplanned : (plans.map Prod.fst).Perm targets) {u : Unit} :
    validateScenarioPlan scenario targets plans = .ok u ↔ PlansFit scenario plans := by
  have hlength : plans.length = targets.length := by simpa using hplanned.length_eq
  cases scenario with
  | partialRetry =>
    rw [validateScenarioPlan, require_ok]
    constructor
    · rintro ⟨htwo, hplans⟩
      obtain ⟨⟨a, plan⟩, ⟨b, plan'⟩, rfl⟩ := List.length_eq_two.mp (hlength.trans htwo)
      rcases plans_of_perm hplans with ⟨rfl, rfl⟩ | ⟨rfl, rfl⟩
      · exact ⟨a, b, .refl _⟩
      · exact ⟨b, a, .swap _ _ _⟩
    · rintro ⟨a, b, hplans⟩
      exact ⟨hlength ▸ hplans.length_eq, hplans.map _⟩
  | deliveryFailure =>
    rw [validateScenarioPlan, require_ok]
    constructor
    · rintro ⟨hone, hplan⟩
      obtain ⟨⟨a, plan⟩, rfl⟩ := List.length_eq_one_iff.mp (hlength.trans hone)
      obtain rfl := List.singleton_perm.mp hplanned
      simp only [List.head?_cons, Option.bind_some, List.lookup_cons_self, Option.some.injEq] at hplan
      exact ⟨a, by rw [hplan]⟩
    · rintro ⟨a, rfl⟩
      obtain rfl := List.singleton_perm.mp hplanned
      exact ⟨rfl, by simp⟩
  | _ => rw [validateScenarioPlan, require_ok] <;> first | rfl | simp

private theorem mapM_some {α β : Type} {f : α → Option β} {as : List α} {bs : List β} :
    as.mapM f = some bs ↔ as.map f = bs.map some := by
  induction as generalizing bs with
  | nil => cases bs <;> simp
  | cons a as ih =>
    cases bs with
    | nil => simp [List.mapM_cons, Option.bind_eq_some_iff]
    | cons b bs => simp [List.mapM_cons, Option.bind_eq_some_iff, ih]

/-- An entry whose key is the text of a target is the plan of that target. -/
private theorem entries_read {entries : List (Str × Option Str)} {targets : List UUID}
    {plans : List (UUID × ScriptedPlan)} (hbound : ∀ user ∈ targets, user < 2 ^ 128)
    (hkeys : ∀ key ∈ entries.map Prod.fst, key ∈ targets.map uuidText) (hread : entries.map readPlan = plans.map some) :
    entries = plans.map (fun entry => (uuidText entry.1, some entry.2.text)) ∧
      ∀ user ∈ plans.map Prod.fst, user ∈ targets := by
  induction entries generalizing plans with
  | nil =>
    obtain rfl : plans = [] := by simpa using hread.symm
    exact ⟨rfl, by simp⟩
  | cons entry entries ih =>
    cases plans with
    | nil => cases hread
    | cons plan plans =>
      obtain ⟨hentry, hrest⟩ := List.cons.inj hread
      obtain ⟨hkey, hkeys⟩ := List.forall_mem_cons.mp hkeys
      obtain ⟨hentries, husers⟩ := ih hkeys hrest
      obtain ⟨hid, htext⟩ := readPlan_some.mp hentry
      obtain ⟨user, huser, htarget⟩ := List.mem_map.mp hkey
      have hsame : user = plan.1 := by
        rw [← htarget, readUuid_uuidText (hbound user huser)] at hid
        exact Option.some.inj hid
      subst hsame
      refine ⟨?_, List.forall_mem_cons.mpr ⟨huser, husers⟩⟩
      rw [List.map_cons, ← hentries, htarget, ← htext]

/-- The entries of the object, once they are read: one plan for each target. -/
theorem readPlans_ok {object : JsonDict} {targets : List UUID} {plans : List (UUID × ScriptedPlan)}
    (hbound : ∀ user ∈ targets, user < 2 ^ 128) (hdistinct : targets.Nodup) :
    (((∀ key ∈ object.entries.map Prod.fst, key ∈ targets.map uuidText) ∧
        ∀ key ∈ targets.map uuidText, key ∈ object.entries.map Prod.fst) ∧ object.entries.mapM readPlan = some plans) ↔
      object.entries = plans.map (fun entry => (uuidText entry.1, some entry.2.text)) ∧
      (plans.map Prod.fst).Perm targets := by
  have hkeysOf : object.entries = plans.map (fun entry => (uuidText entry.1, some entry.2.text)) →
      object.entries.map Prod.fst = (plans.map Prod.fst).map uuidText := by
    intro hentries
    rw [hentries, List.map_map, List.map_map]
    rfl
  rw [mapM_some]
  constructor
  · rintro ⟨⟨hkeys, hall⟩, hread⟩
    obtain ⟨hentries, husers⟩ := entries_read hbound hkeys hread
    have hnodup := object.keys_nodup
    rw [hkeysOf hentries] at hnodup hall
    refine ⟨hentries, (List.perm_ext_iff_of_nodup (List.Nodup.of_map _ hnodup) hdistinct).mpr fun user =>
      ⟨husers user, fun hmem => ?_⟩⟩
    obtain ⟨user', huser', htext⟩ := List.mem_map.mp (hall _ (List.mem_map_of_mem hmem))
    rwa [← uuidText_inj (hbound _ (husers user' huser')) (hbound user hmem) htext]
  · rintro ⟨hentries, hplanned⟩
    rw [hkeysOf hentries]
    refine ⟨⟨fun key hkey => (hplanned.map uuidText).mem_iff.mp hkey,
      fun key hkey => (hplanned.map uuidText).mem_iff.mpr hkey⟩, ?_⟩
    rw [hentries, List.map_map]
    refine List.map_congr_left fun ⟨user, plan⟩ hplan => ?_
    have huser : user ∈ targets := hplanned.mem_iff.mp (List.mem_map.mpr ⟨_, hplan, rfl⟩)
    have hread : readPlan (uuidText user, some plan.text) = some (user, plan) :=
      readPlan_some.mpr ⟨readUuid_uuidText (hbound user huser), rfl⟩
    rw [Function.comp_apply]
    exact hread

private theorem targets_bounded {texts : List Str} {targets : List UUID}
    (hread : texts.map readUuid = targets.map some) :
    ∀ user ∈ targets, user < 2 ^ 128 := by
  intro user huser
  have hmem : some user ∈ texts.map readUuid := by
    rw [hread]
    exact List.mem_map_of_mem huser
  obtain ⟨text, -, htext⟩ := List.mem_map.mp hmem
  exact readUuid_lt htext

/-- The guard accepts exactly the environments that say so, and configures the run by them. -/
theorem fromEnvironment_ok {finalSigma : Str → Str → Bool} {loads : Str → Except LoadError Decoded} {env : Environ}
    {config : SmokeHarnessConfig} :
    fromEnvironment finalSigma loads env = .ok config ↔ Accepted finalSigma loads env config := by
  simp only [fromEnvironment, bind_ok, require_ok, demand_ok, requiredUuid_ok, readDict_ok, scenario_ofText]
  constructor
  · rintro ⟨_, henabled, _, hlocal, runId, ⟨hrun, hrun0⟩, eventUuid, ⟨hevent, hevent0⟩, callback,
      ⟨hcallback, hcallback0⟩,
      scenario, hscenario, targets, htargets, _, hne, object, hload, _, hkeys, plans, hplans, _, hfit, hconfig⟩
    obtain rfl := Except.ok.inj hconfig
    obtain ⟨hstar, hgreater, hread, hnil, hdistinct⟩ := (uuidList_ok hne).mp htargets
    obtain ⟨hentries, hplanned⟩ := (readPlans_ok (targets_bounded hread) hdistinct).mp ⟨hkeys, hplans⟩
    exact ⟨henabled, hlocal, hrun, hevent, hcallback, ⟨hrun0, hevent0, hcallback0⟩, hscenario,
      fun raw hraw => hraw ▸ ⟨hstar, hgreater, hread⟩, ⟨hne, hnil, hdistinct⟩, ⟨object, hload, hentries⟩, hplanned,
      (validateScenarioPlan_ok hplanned).mp hfit⟩
  · intro h
    obtain ⟨hstar, hgreater, hread⟩ := h.targets _ rfl
    obtain ⟨hne, hnil, hdistinct⟩ := h.distinct
    obtain ⟨object, hload, hentries⟩ := h.plans
    obtain ⟨hkeys, hplans⟩ := (readPlans_ok (targets_bounded hread) hdistinct).mpr ⟨hentries, h.planned⟩
    exact ⟨(), h.enabled, (), h.isLocal, config.runId, ⟨h.runId, h.not_nil.1⟩, config.eventUuid,
      ⟨h.eventUuid, h.not_nil.2.1⟩,
      config.callbackRequestId, ⟨h.callbackRequestId, h.not_nil.2.2⟩, config.scenario, h.scenario, config.targetUserIds,
      (uuidList_ok hne).mpr ⟨hstar, hgreater, hread, hnil, hdistinct⟩, (), hne, object, hload, (), hkeys, config.plans,
      hplans, (),
      (validateScenarioPlan_ok h.planned).mpr h.fit, rfl⟩

end SmokeHarness

namespace SmokeTopology

private theorem hexDigit_cases : ∀ d < 16, (hexDigit d).toNat < 128 ∧ (hexDigit d).toUpper.toLower = hexDigit d := by
  decide

/-- Upper case keeps the digits apart. -/
private theorem lower_upper (n : Nat) : (upper (hexDigits 32 n)).map Char.toLower = hexDigits 32 n := by
  have htable : ∀ c ∈ hexDigits 32 n, c.toNat < 128 ∧ c.toUpper.toLower = c := by
    intro c hc
    obtain ⟨d, hd, rfl⟩ := mem_hexDigits hc
    exact hexDigit_cases d hd
  rw [upper_ascii fun c hc => (htable c hc).1, List.map_map]
  exact (List.map_congr_left fun c hc => (htable c hc).2).trans (List.map_id _)

private theorem ne_of_other_start {name text : Str} (h : ¬ name <+: text) (suffix : Str) : name ++ suffix ≠ text :=
  fun heq => h ⟨suffix, heq⟩

private theorem startsWith {name : Str} (suffix : Str) : ¬ (!name.isPrefixOf (name ++ suffix)) = true := by
  rw [Bool.not_eq_true', Bool.not_eq_false, List.isPrefixOf_iff_prefix]
  exact List.prefix_append name suffix

/-- A run never uses the names of production. -/
theorem assertIsolated_forRun (runId : UUID) : (forRun runId).assertIsolated = .ok () := by
  unfold assertIsolated forRun
  generalize hexDigits 32 runId = suffix
  dsimp only
  have hsubject : ¬ ("smoke.eqsitecms.vk.".toList ++ suffix ++ ".send".toList = "commands.notification.vk.send".toList ∨
      (!"smoke.eqsitecms.vk.".toList.isPrefixOf ("smoke.eqsitecms.vk.".toList ++ suffix ++ ".send".toList)) = true) := by
    rw [List.append_assoc]
    exact not_or.mpr ⟨ne_of_other_start (by decide) _, startsWith _⟩
  have hdurable : ¬ ("eqsitecms-smoke-vk-".toList ++ suffix = "vk-service-commands-send-vk".toList ∨
      (!"eqsitecms-smoke-vk-".toList.isPrefixOf ("eqsitecms-smoke-vk-".toList ++ suffix)) = true) :=
    not_or.mpr ⟨ne_of_other_start (by decide) _, startsWith _⟩
  rw [if_neg (ne_of_other_start (by decide) _), if_neg hsubject, if_neg hdurable]

/-- Two runs that share a name are the same run. -/
theorem forRun_inj {m n : UUID} (hm : m < 2 ^ 128) (hn : n < 2 ^ 128)
    (h : (forRun m).stream = (forRun n).stream ∨ (forRun m).subject = (forRun n).subject ∨
      (forRun m).durable = (forRun n).durable) : m = n := by
  have hdigits : hexDigits 32 m = hexDigits 32 n := by
    rcases h with h | h | h
    · have hupper := congrArg (List.map Char.toLower) (List.append_cancel_left h)
      rwa [lower_upper, lower_upper] at hupper
    · exact List.append_cancel_left (List.append_cancel_right h)
    · exact List.append_cancel_left h
  have hread := hexNat_uuid hm
  rw [hdigits, hexNat_uuid hn] at hread
  exact (Option.some.inj hread).symm

end SmokeTopology

/-- The guard lets a run through exactly when the environment asks for it in full: it is enabled and
local, names its run, event and request, and has one plan, fit for the scenario, for each of its
distinct targets. No run uses a name of production or of another run. -/
theorem smoke_guard (finalSigma : Str → Str → Bool) (loads : Str → Except LoadError Decoded) :
    (∀ env config, SmokeHarness.fromEnvironment finalSigma loads env = .ok config ↔
      SmokeHarness.Accepted finalSigma loads env config) ∧
    ∀ env config, SmokeHarness.fromEnvironment finalSigma loads env = .ok config →
      config.topology.assertIsolated = .ok () ∧
      ∀ env' config', SmokeHarness.fromEnvironment finalSigma loads env' = .ok config' →
        config.topology.stream = config'.topology.stream ∨ config.topology.subject = config'.topology.subject ∨
          config.topology.durable = config'.topology.durable → config.runId = config'.runId := by
  refine ⟨fun env config => SmokeHarness.fromEnvironment_ok, fun env config haccepted =>
    ⟨SmokeTopology.assertIsolated_forRun _, fun env' config' haccepted' hshared => ?_⟩⟩
  have h := SmokeHarness.fromEnvironment_ok.mp haccepted
  have h' := SmokeHarness.fromEnvironment_ok.mp haccepted'
  exact SmokeTopology.forRun_inj (readUuid_lt h.runId) (readUuid_lt h'.runId) hshared

end VkService
