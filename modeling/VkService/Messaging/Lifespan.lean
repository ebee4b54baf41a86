import VkService.Messaging.ClientRuns

/-! The lifespan of the application: it starts without a broker that does not answer, and gives
back what it holds when it ends, up to the first call of the shutdown that raises. -/
namespace VkService
open PyStr Effects Effects.Prog

/-- The first part of `lifespan`; the result is `nats_connected`. -/
def startNats (settings : NatsClientSettings) : ClientPy Bool := do
  let connected ← attempt (do
    NatsJetstreamClient.connect settings
    NatsJetstreamClient.setup settings)
  match connected with
  | .error e => if e.isOSError then pure false else throw e
  | .ok () =>
    match ← attempt (NotificationCommandsSendVkConsumer.start settings) with
    | .error e => if e.isOSError then pure true else throw e
    | .ok () => pure true

/-- The `finally` of `lifespan`. -/
def shutdown (natsConnected metricsRuntime : Bool) : ClientPy Unit := do
  if natsConnected then do
    NotificationCommandsSendVkConsumer.stop
    NatsJetstreamClient.close
  else pure ()
  clientAwait .disposeDatabase
  if metricsRuntime then clientAwait .closeMetrics else pure ()

def lifespan (settings : NatsClientSettings) : ClientPy Unit := do
  let natsConnected ← startNats settings
  let metricsRuntime ← clientAwait .startMetrics
  let served ← attempt (clientAwait .serve)
  shutdown natsConnected metricsRuntime
  ofExcept served

section Marks

/-- The application was served. -/
def AppServed (h : ClientHistory) : Prop := ∃ r, ⟨.serve, r⟩ ∈ h

def Disposed (h : ClientHistory) : Prop := ∃ r, ⟨.disposeDatabase, r⟩ ∈ h

/-- The connection is known to be closed. -/
def Released (h : ClientHistory) (c : Conn) : Prop :=
  ⟨.isClosed c, .ok true⟩ ∈ h ∨ ⟨.drain c, .ok ()⟩ ∈ h ∨ ⟨.closeConnection c, .ok ()⟩ ∈ h

/-- The calls of the shutdown that end it: a task that failed, a drain that failed in another way
than the broker's, a close that failed. -/
def endsShutdown : Event ClientCall ClientCall.Reply ClientExn → Bool
  | ⟨.joinTask _, .error e⟩ => e ≠ .cancelled
  | ⟨.drain _, .error e⟩ => !e.failsDrain
  | ⟨.closeConnection _, .error _⟩ => true
  | _ => false

/-- An exception ended the shutdown before its end. -/
def ShutdownCut (h : ClientHistory) : Prop := ∃ e ∈ h, endsShutdown e = true

/-- Every task that was created was told to stop. -/
def AllToldToStop (h : ClientHistory) : Prop := ∀ t, ⟨.createTask, .ok t⟩ ∈ h → ∃ r, ⟨.cancelTask t, r⟩ ∈ h

/-- The registration of the consumer failed as an unreachable broker fails. -/
def SetupFailed (h : ClientHistory) : Prop :=
  ∃ x ∈ registrations h, ∃ e : ClientExn, x.2 = .error e ∧ e.isOSError = true

end Marks

section Parts
variable {env : NatsEnvironment} {settings : NatsClientSettings} {h : ClientHistory}
open NatsJetstreamClient NotificationCommandsSendVkConsumer

/-- Calls of the shutdown's own. -/
def ClientCall.ofShutdown : ClientCall → Bool
  | .attributes | .assign _ | .cancelTask _ | .joinTask _ | .isClosed _ | .drain _ | .closeConnection _ => true
  | _ => false

/-- `stop` raises exactly when the task failed; else no task is left. -/
theorem stop_spec : wp (clientExec env) stop (fun r h' _ => ∃ new, h' = new ++ h ∧
    (∀ e ∈ new, e.op.ofShutdown = true) ∧ (ShutdownCut new ↔ ∃ e, r = .error e) ∧ (∀ c, ¬ Released new c) ∧
    (attributesAfter h').connection = (attributesAfter h).connection ∧ (attributesAfter h').task = none) h () := by
  simp only [stop, clientAwait, wp_bind, wp_perform, clientExec_attributes, andThen_ok]
  cases htask : (attributesAfter h).task with
  | none =>
    refine ⟨[⟨.attributes, .ok (attributesAfter h)⟩], rfl, ?_, ?_, ?_, rfl, htask⟩
    · simp [ClientCall.ofShutdown]
    · simp [ShutdownCut, endsShutdown]
    · simp [Released]
  | some t =>
    obtain ⟨u, hu⟩ := clientExec_looks env (⟨.attributes, .ok (attributesAfter h)⟩ :: h)
      (c := .cancelTask t) rfl
    simp only [wp_bind, wp_perform, hu, andThen_ok, wp_attempt, wp_tryCatch]
    cases (clientExec env (⟨.cancelTask t, .ok u⟩ :: ⟨.attributes, .ok (attributesAfter h)⟩ :: h) (.joinTask t) ()).1 with
    | ok u' =>
      simp only [orElse_ok, andThen_ok, wp_updateAttributes, wp_ofExcept]
      refine ⟨_ :: _ :: _ :: _ :: [_], rfl, ?_, ?_, ?_, rfl, rfl⟩
      · simp [ClientCall.ofShutdown]
      · simp [ShutdownCut, endsShutdown]
      · simp [Released]
    | error e =>
      simp only [orElse_error]
      by_cases he : e = .cancelled
      · simp only [if_pos he, pure_eq, wp_ret, andThen_ok, wp_updateAttributes, wp_ofExcept]
        refine ⟨_ :: _ :: _ :: _ :: [_], rfl, ?_, ?_, ?_, rfl, rfl⟩
        · simp [ClientCall.ofShutdown]
        · simp [ShutdownCut, endsShutdown, he]
        · simp [Released]
      · simp only [if_neg he, throw_eq, wp_raise, andThen_ok, wp_updateAttributes, wp_ofExcept]
        refine ⟨_ :: _ :: _ :: _ :: [_], rfl, ?_, ?_, ?_, rfl, rfl⟩
        · simp [ClientCall.ofShutdown]
        · simp [ShutdownCut, endsShutdown, he]
        · simp [Released]

/-- `drainOrClose` ends with the connection closed, or raises. -/
theorem drainOrClose_spec {c : Conn} : wp (clientExec env) (drainOrClose c) (fun r h' _ => ∃ new, h' = new ++ h ∧
    (∀ e ∈ new, e.op.ofShutdown = true) ∧ (ShutdownCut new ↔ ∃ e, r = .error e) ∧
    (Released new c ↔ r = .ok ())) h () := by
  obtain ⟨closed, hclosed⟩ := clientExec_looks env h (c := .isClosed c) rfl
  simp only [drainOrClose, clientAwait, wp_bind, wp_perform, hclosed, andThen_ok]
  cases closed with
  | true =>
    refine ⟨[⟨.isClosed c, .ok true⟩], rfl, ?_, ?_, ?_⟩
    · simp [ClientCall.ofShutdown]
    · simp [ShutdownCut, endsShutdown]
    · simp [Released]
  | false =>
    simp only [Bool.false_eq_true, ↓reduceIte, wp_tryCatch, wp_perform]
    cases (clientExec env (⟨.isClosed c, .ok false⟩ :: h) (.drain c) ()).1 with
    | ok u =>
      refine ⟨_ :: [_], rfl, ?_, ?_, ?_⟩
      · simp [ClientCall.ofShutdown]
      · simp [ShutdownCut, endsShutdown]
      · simp [Released]
    | error e =>
      simp only [orElse_error]
      by_cases he : e.failsDrain = true
      · simp only [if_pos he, wp_perform]
        cases (clientExec env (⟨.drain c, .error e⟩ :: ⟨.isClosed c, .ok false⟩ :: h) (.closeConnection c) ()).1 with
        | ok u =>
          refine ⟨_ :: _ :: [_], rfl, ?_, ?_, ?_⟩
          · simp [ClientCall.ofShutdown]
          · simp [ShutdownCut, endsShutdown, he]
          · simp [Released]
        | error e' =>
          refine ⟨_ :: _ :: [_], rfl, ?_, ?_, ?_⟩
          · simp [ClientCall.ofShutdown]
          · simp [ShutdownCut, endsShutdown]
          · simp [Released]
      · simp only [if_neg he, throw_eq, wp_raise]
        refine ⟨_ :: [_], rfl, ?_, ?_, ?_⟩
        · simp [ClientCall.ofShutdown]
        · simp [ShutdownCut, endsShutdown, he]
        · simp [Released]

/-- `close` ends with the current connection closed, or raises. -/
theorem close_spec {c : Conn} (hc : (attributesAfter h).connection = some c) : wp (clientExec env) close
    (fun r h' _ => ∃ new, h' = new ++ h ∧ (∀ e ∈ new, e.op.ofShutdown = true) ∧
      (ShutdownCut new ↔ ∃ e, r = .error e) ∧ (Released new c ↔ r = .ok ())) h () := by
  simp only [close, clientAwait, wp_bind, wp_perform, clientExec_attributes, andThen_ok, hc, wp_attempt]
  refine wp_mono drainOrClose_spec fun r h₁ _ hr => ?_
  obtain ⟨new, rfl, hnew, hcut, hreleased⟩ := hr
  simp only [andThen_ok, wp_updateAttributes, wp_ofExcept]
  rw [List.append_cons]
  refine ⟨_ :: _ :: (new ++ [⟨.attributes, .ok (attributesAfter h)⟩]), rfl, ?_, ?_, ?_⟩
  · simpa [ClientCall.ofShutdown, or_imp, forall_and] using hnew
  · rw [← hcut]
    simp [ShutdownCut, endsShutdown]
  · rw [← hreleased]
    simp [Released]

/-- Calls of the startup's own. -/
def ClientCall.ofStartup : ClientCall → Bool
  | .attributes | .assign _ | .resetPolicy | .newConnection | .isConnected _ | .connect .. | .addConsumer ..
  | .pullSubscribe .. | .sleep _ | .createTask | .taskDone _ => true
  | _ => false

/-- Calls of `setup`. -/
def ClientCall.ofSetup : ClientCall → Bool
  | .attributes | .isConnected _ | .addConsumer .. | .sleep _ => true
  | _ => false

theorem ClientCall.ofSetup_leavesAll {c : ClientCall} (hc : c.ofSetup = true) :
    c.leavesAll = true ∧ c.ofStartup = true := by
  cases c <;> first | exact ⟨rfl, rfl⟩ | cases hc

private abbrev OfSetup (_ : ClientHistory) (c : ClientCall) : Prop := c.ofSetup = true

private abbrev AnyEnd {α : Type} (_ : ClientHistory) (_ : Except ClientExn α) : Prop := True

theorem isConnected_calls : Conforms OfSetup AnyEnd h isConnected := by
  refine .perform_bind rfl (fun a => ?_) fun e => trivial
  cases a.connection with
  | none => exact trivial
  | some c => exact .perform _ rfl fun _ => trivial

theorem getJetstream_calls : Conforms OfSetup AnyEnd h getJetstream := by
  refine .perform_bind rfl (fun a => ?_) fun e => trivial
  cases a.jetstream with
  | none => exact trivial
  | some js =>
    refine .bind _ _ _ isConnected_calls (fun h b _ => ?_) fun h e _ => trivial
    cases b with
    | false => exact trivial
    | true => exact trivial

theorem setupAttempt_calls (attempt : Nat) : Conforms OfSetup AnyEnd h (setupAttempt settings attempt) := by
  refine .tryCatch _ _ _ (Q := AnyEnd) (.bind _ _ _ (Q := AnyEnd) ?_ (fun h a _ => trivial) fun h e _ => trivial)
    (fun h b _ => trivial) fun h e _ => ?_
  · refine .bind _ _ _ getJetstream_calls (fun h js _ => ?_) fun h e _ => trivial
    exact .perform _ rfl fun _ => trivial
  · split
    · split
      · exact trivial
      · split
        · exact .perform_bind rfl (fun _ => trivial) fun _ => trivial
        · exact trivial
    · exact trivial

theorem setup_calls : Conforms OfSetup AnyEnd h (setup settings) := by
  have hfrom : ∀ left attempt h, Conforms OfSetup AnyEnd h (setupFrom settings left attempt) := by
    intro left
    induction left with
    | zero => exact fun attempt h => trivial
    | succ left ih =>
      intro attempt h
      refine .bind _ _ _ (setupAttempt_calls attempt) (fun h found _ => ?_) fun h e _ => trivial
      cases found with
      | true => exact trivial
      | false => exact ih (attempt + 1) h
  refine .bind _ _ _ isConnected_calls (fun h b _ => ?_) fun h e _ => trivial
  cases b with
  | false => exact trivial
  | true => exact hfrom _ _ h

theorem setupFailed_append {h h' : ClientHistory} {n : Nat} {last : List (Except ClientExn Unit)}
    {request : Str × ConsumerConfig}
    (hreg : registrations h' = registrations h ++ (answered n last).map (request, ·)) :
    SetupFailed h' ↔ SetupFailed h ∨ ∃ e : ClientExn, .error e ∈ last ∧ e.isOSError = true := by
  constructor
  · intro ⟨x, hx, e, he, hos⟩
    rw [hreg] at hx
    rcases List.mem_append.mp hx with hx | hx
    · exact .inl ⟨x, hx, e, he, hos⟩
    · obtain ⟨r, hr, rfl⟩ := List.mem_map.mp hx
      have he : r = .error e := he
      subst he
      rcases List.mem_append.mp hr with hr | hr
      · cases List.eq_of_mem_replicate hr
        cases hos
      · exact .inr ⟨e, hr, hos⟩
  · intro hx
    obtain ⟨x, hx, hbad⟩ | ⟨e, he, hos⟩ := hx
    · exact ⟨x, by rw [hreg]; exact List.mem_append_left _ hx, hbad⟩
    · refine ⟨(request, .error e), ?_, e, rfl, hos⟩
      rw [hreg]
      exact List.mem_append_right _ (List.mem_map.mpr ⟨_, List.mem_append_right _ he, rfl⟩)

/-- `setup` raises an `OSError` only when a registration did. -/
theorem setup_spec : wp (clientExec env) (setup settings) (fun r h' _ => ∃ new, h' = new ++ h ∧
    (∀ e ∈ new, e.op.ofSetup = true) ∧ (r = .ok () → (SetupFailed h' ↔ SetupFailed h)) ∧
    ∀ e, r = .error e → e.isOSError = true → SetupFailed h') h () := by
  have hend : wp (clientExec env) (setup settings) (fun r h' _ =>
      (r = .ok () → (SetupFailed h' ↔ SetupFailed h)) ∧
        ∀ e, r = .error e → e.isOSError = true → SetupFailed h') h () := by
    simp only [setup, wp_bind]
    refine wp_mono isConnected_spec fun r h₁ _ hr => ?_
    obtain ⟨hpeek, b, rfl, -⟩ := hr
    cases b with
    | false => exact ⟨fun hr => (by cases hr), fun e hr hos => by cases hr; cases hos⟩
    | true =>
      rw [andThen_ok, if_pos rfl]
      refine wp_mono setupConsumers_spec fun r h₂ _ hr => ?_
      obtain ⟨n, last, hend, hreg, -⟩ := hr
      rw [hpeek.registrations_eq] at hreg
      rw [setupFailed_append hreg]
      cases hend with
      | registered hn => simp
      | refused hn he => simpa using fun hos => Or.inr hos
      | disconnected hn => simp [ClientExn.isOSError]
      | cancelled hn hpos => simp [ClientExn.isOSError]
      | exhausted hn => simp [ClientExn.isOSError]
  refine wp_mono (wp_and hend (wp_calls setup_calls)) fun r h' _ hr => ?_
  obtain ⟨⟨hok, herr⟩, new, rfl, hnew⟩ := hr
  exact ⟨new, rfl, hnew, hok, herr⟩

/-- Calls of `start`. -/
def ClientCall.ofStart : ClientCall → Bool
  | .attributes | .assign _ | .isConnected _ | .taskDone _ | .pullSubscribe .. | .createTask => true
  | _ => false

/-- Asks whether a task has ended. -/
def ClientCall.asksTask : ClientCall → Bool
  | .taskDone _ => true
  | _ => false

theorem ClientCall.ofSetup_asksTask {c : ClientCall} (hc : c.ofSetup = true) : c.asksTask = false := by
  cases c <;> first | rfl | cases hc

theorem ClientCall.ofStart_ofStartup {c : ClientCall} (hc : c.ofStart = true) : c.ofStartup = true := by
  cases c <;> first | rfl | cases hc

private abbrev OfStart (_ : ClientHistory) (c : ClientCall) : Prop := c.ofStart = true

theorem updateAttributes_calls {f : Attributes → Attributes} : Conforms OfStart AnyEnd h (updateAttributes f) :=
  .perform_bind rfl (fun _ => .perform _ rfl fun _ => trivial) fun _ => trivial

theorem start_calls : Conforms OfStart AnyEnd h (start settings) := by
  have hrunning : ∀ h, Conforms OfStart AnyEnd h isRunning := by
    refine fun h => .perform_bind rfl (fun a => ?_) fun e => trivial
    cases a.task with
    | none => exact trivial
    | some t => exact .perform_bind rfl (fun done => trivial) fun e => trivial
  have hcontext : ∀ h, Conforms OfStart AnyEnd h getJetstream := by
    refine fun h => .perform_bind rfl (fun a => ?_) fun e => trivial
    cases a.jetstream with
    | none => exact trivial
    | some js =>
      refine .bind _ _ _ (Q := AnyEnd) (.perform_bind rfl (fun a => ?_) fun e => trivial) (fun h b _ => ?_)
        fun h e _ => trivial
      · cases a.connection with
        | none => exact trivial
        | some c => exact .perform _ rfl fun _ => trivial
      · cases b with
        | false => exact trivial
        | true => exact trivial
  refine .bind _ _ _ (hrunning h) (fun h running _ => ?_) fun h e _ => trivial
  cases running with
  | true => exact trivial
  | false =>
    refine .bind _ _ _ (hcontext h) (fun h js _ => ?_) fun h e _ => trivial
    refine .perform_bind rfl (fun u => ?_) fun e => trivial
    refine .bind _ _ _ updateAttributes_calls (fun h u _ => ?_) fun h e _ => trivial
    exact .perform_bind rfl (fun t => updateAttributes_calls) fun e => trivial

private abbrev AsksNoTask (_ : ClientHistory) (c : ClientCall) : Prop := c.asksTask = false

/-- Without a task `start` asks for none. -/
theorem start_asksNoTask (htask : (attributesAfter h).task = none) : wp (clientExec env) (start settings)
    (fun _ h' _ => ∃ new, h' = new ++ h ∧ ∀ e ∈ new, e.op.asksTask = false) h () := by
  have hupdate : ∀ (f : Attributes → Attributes) h, Conforms AsksNoTask AnyEnd h (updateAttributes f) :=
    fun f h => .perform_bind rfl (fun _ => .perform _ rfl fun _ => trivial) fun _ => trivial
  have hcalls : ∀ h, Conforms AsksNoTask AnyEnd h (do
      let js ← getJetstream
      clientAwait (.pullSubscribe js settings.natsSubjectNotificationCommandsSendVk
        settings.natsConsumerNotificationCommandsSendVk settings.natsStreamNotificationCommands)
      updateAttributes fun a => { a with subscription := some js }
      let t ← clientAwait .createTask
      updateAttributes fun a => { a with task := some t }) := by
    intro h
    refine .bind _ _ _ (.mono (fun _ _ hc => ClientCall.ofSetup_asksTask hc) (fun _ _ hQ => hQ) _ _ getJetstream_calls)
      (fun h js _ => ?_) fun _ _ _ => trivial
    refine .perform_bind rfl (fun u => ?_) fun _ => trivial
    refine .bind _ _ _ (hupdate _ _) (fun h u _ => ?_) fun _ _ _ => trivial
    exact .perform_bind rfl (fun t => hupdate _ _) fun _ => trivial
  have hrunning : wp (clientExec env) isRunning
      (fun r h' _ => r = .ok false ∧ h' = ⟨.attributes, .ok (attributesAfter h)⟩ :: h) h () := by
    simp only [isRunning, clientAwait, wp_bind, wp_perform, clientExec_attributes, andThen_ok, htask, pure_eq, wp_ret,
      and_self]
  rw [start, wp_bind]
  refine wp_mono hrunning ?_
  rintro r h' - ⟨rfl, rfl⟩
  rw [andThen_ok, if_neg Bool.false_ne_true]
  refine wp_mono (wp_calls (hcalls _)) fun r h' _ hnew => ?_
  obtain ⟨new, rfl, hnew⟩ := hnew
  refine ⟨new ++ [⟨.attributes, .ok (attributesAfter h)⟩], List.append_cons _ _ _, ?_⟩
  exact List.forall_mem_append.mpr ⟨hnew, by simp [ClientCall.asksTask]⟩

/-- `start` keeps the connection. -/
theorem start_connection (hh : InOrder h) : wp (clientExec env) (start settings)
    (fun _ h' _ => (attributesAfter h').connection = (attributesAfter h).connection) h () := by
  simp only [start, wp_bind]
  refine wp_mono (isRunning_spec hh) fun r h₁ _ hr => ?_
  obtain ⟨hh₁, hattr, b, rfl, -⟩ := hr
  cases b with
  | true => exact congrArg _ hattr
  | false =>
    simp only [andThen_ok, Bool.false_eq_true, ↓reduceIte, wp_bind]
    refine wp_mono (getJetstream_usableContext hh₁) fun r h₂ _ hr => ?_
    obtain ⟨-, hpeek, -⟩ := hr
    have hattr : (attributesAfter h₂).connection = (attributesAfter h).connection := by
      rw [hpeek.attributesAfter_eq, hattr]
    cases r with
    | error e => exact hattr
    | ok js =>
      simp only [andThen_ok, clientAwait, wp_bind, wp_perform]
      cases (clientExec env h₂ (.pullSubscribe js settings.natsSubjectNotificationCommandsSendVk
        settings.natsConsumerNotificationCommandsSendVk settings.natsStreamNotificationCommands) _).1 with
      | error e => exact hattr
      | ok u =>
        simp only [andThen_ok]
        exact hattr

/-- The first `connect`: one connection object, which is the current one, and no task. -/
theorem connect_first : wp (clientExec env) (connect settings) (fun r h' _ => (∀ e ∈ h', e.op.ofStartup = true) ∧
    ((attributesAfter h').task = none ∧ ∀ e ∈ h', e.op.asksTask = false) ∧ (∀ t, ⟨.createTask, .ok t⟩ ∉ h') ∧
    ¬ SetupFailed h' ∧ (∀ e, r = .error e → ∀ c, ¬ Connected h' c) ∧
    ∃ c, (attributesAfter h').connection = some c ∧ ∀ c', Connected h' c' → c' = c) [] () := by
  have hunset : attributesAfter [] = .unset := rfl
  simp only [connect, isConnected, clientAwait, wp_bind, wp_perform, clientExec_attributes, andThen_ok, hunset,
    Attributes.unset, pure_eq, wp_ret, Bool.false_eq_true, ↓reduceIte, clientExec_newConnection, wp_updateAttributes]
  generalize (made _ : Conn) = c
  generalize hh₁ : (⟨.assign _, .ok ()⟩ :: _ : ClientHistory) = h₁
  obtain ⟨u, hu⟩ := clientExec_looks env h₁ (c := .resetPolicy) rfl
  rw [hu, andThen_ok, wp_bind, wp_perform]
  subst hh₁
  cases (clientExec env _ (.connect c settings.natsServers) _).1 with
  | error e =>
    rw [andThen_error]
    refine ⟨?_, ⟨rfl, ?_⟩, ?_, ?_, ?_, c, rfl, ?_⟩
    · simp [ClientCall.ofStartup]
    · simp [ClientCall.asksTask]
    · simp
    · simp [SetupFailed, registrations]
    · simp [Connected]
    · simp [Connected]
  | ok u' =>
    rw [andThen_ok, wp_updateAttributes]
    refine ⟨?_, ⟨rfl, ?_⟩, ?_, ?_, ?_, c, rfl, ?_⟩
    · simp [ClientCall.ofStartup]
    · simp [ClientCall.asksTask]
    · simp
    · simp [SetupFailed, registrations]
    · simp
    · simp [Connected]

theorem registrations_append (new h : ClientHistory) :
    registrations (new ++ h) = registrations h ++ registrations new := by
  simp [registrations]

/-- What calls that leave the attributes alone keep. -/
theorem leavesAll_append {new : ClientHistory} (hnew : ∀ e ∈ new, e.op.leavesAll = true) :
    attributesAfter (new ++ h) = attributesAfter h ∧ (∀ c, Connected (new ++ h) c → Connected h c) ∧
      ∀ t, ⟨.createTask, .ok t⟩ ∈ new ++ h → ⟨.createTask, .ok t⟩ ∈ h := by
  induction new with
  | nil => exact ⟨rfl, fun _ hc => hc, fun _ ht => ht⟩
  | cons e new ih =>
    obtain ⟨he, hnew⟩ := List.forall_mem_cons.mp hnew
    obtain ⟨hattr, hconn, htask⟩ := ih hnew
    refine ⟨(attributesAfter_cons he e.reply).trans hattr, fun c hc => hconn c (hc.of_cons he), fun t ht => ?_⟩
    rcases List.mem_cons.mp ht with heq | ht
    · subst heq
      cases he
    · exact htask t ht

/-- Calls of the whole `finally`. -/
def ClientCall.ofFinally (c : ClientCall) : Prop :=
  c.ofShutdown = true ∨ c = .disposeDatabase ∨ c = .closeMetrics

/-- Calls that make a connection or register the consumer. -/
def ClientCall.begins : ClientCall → Bool
  | .connect .. | .addConsumer .. => true
  | _ => false

theorem begins_append {new : ClientHistory} (hnew : ∀ e ∈ new, e.op.begins = false) :
    (∀ c, Connected (new ++ h) c ↔ Connected h c) ∧ (SetupFailed (new ++ h) ↔ SetupFailed h) := by
  have hnone : registrations new = [] := by
    refine List.filterMap_eq_nil_iff.mpr fun e he => ?_
    have he := hnew e (List.mem_reverse.mp he)
    obtain ⟨c, r⟩ := e
    cases c <;> first | rfl | cases he
  refine ⟨fun c => ⟨fun hc => ?_, fun hc => ?_⟩, ?_⟩
  · obtain ⟨servers, hs⟩ := hc
    rcases List.mem_append.mp hs with hs | hs
    · cases hnew _ hs
    · exact ⟨servers, hs⟩
  · obtain ⟨servers, hs⟩ := hc
    exact ⟨servers, List.mem_append_right _ hs⟩
  · simp only [SetupFailed, registrations_append, hnone, List.append_nil]

theorem ClientCall.ofStart_begins {c : ClientCall} (hc : c.ofStart = true) : c.begins = false := by
  cases c <;> first | rfl | cases hc

theorem ClientCall.ofFinally_begins {c : ClientCall} (hc : c.ofFinally) : c.begins = false := by
  obtain hc | rfl | rfl := hc
  · cases c <;> first | rfl | cases hc
  · rfl
  · rfl

/-- How the first part of `lifespan` leaves things: with a connection that is registered, with
none that is, or with an exception that is not an unreachable broker's. -/
def StartedAs (h : ClientHistory) : Except ClientExn Bool → Prop
  | .ok true => (∃ c, (attributesAfter h).connection = some c ∧ ∀ c', Connected h c' → c' = c) ∧ ¬ SetupFailed h
  | .ok false => (∀ t, ⟨.createTask, .ok t⟩ ∉ h) ∧ ∀ c, Connected h c → SetupFailed h
  | .error e => e.isOSError = false

/-- An exception of the startup is swallowed if it is an unreachable broker's. -/
theorem swallow_spec {e : ClientExn} {connected : Bool} (hos : e.isOSError = true → StartedAs h (.ok connected)) :
    wp (clientExec env) (if e.isOSError then pure connected else throw e : ClientPy Bool)
      (fun r h' _ => h' = h ∧ StartedAs h' r) h () := by
  by_cases he : e.isOSError = true
  · rw [if_pos he]
    exact ⟨rfl, hos he⟩
  · rw [if_neg he]
    exact ⟨rfl, Bool.eq_false_of_not_eq_true he⟩

theorem startNats_spec : wp (clientExec env) (startNats settings) (fun r h' _ => InOrder h' ∧
    (∀ e ∈ h', e.op.ofStartup = true ∧ e.op.asksTask = false) ∧ StartedAs h' r) [] () := by
  simp only [startNats, wp_bind, wp_attempt]
  refine wp_mono (wp_and connect_first (connect_inOrder .nil)) fun r h₁ _ hr => ?_
  obtain ⟨⟨hstartup, ⟨htask₁, hasks⟩, htasks, hfine, herr, c, hc, hone⟩, hh₁⟩ := hr
  have hcalls : ∀ e ∈ h₁, e.op.ofStartup = true ∧ e.op.asksTask = false := fun e he => ⟨hstartup e he, hasks e he⟩
  cases r with
  | error e =>
    rw [andThen_error, andThen_ok]
    refine wp_mono (swallow_spec fun _ => ?_) fun r h' _ hr => ?_
    · exact ⟨htasks, fun c hconn => absurd hconn (herr e rfl c)⟩
    · obtain ⟨rfl, hstarted⟩ := hr
      exact ⟨hh₁, hcalls, hstarted⟩
  | ok u =>
    rw [andThen_ok]
    refine wp_mono (wp_and setup_spec (setup_inOrder hh₁)) fun r h₂ _ hr => ?_
    obtain ⟨⟨new, rfl, hnew, hok, herr⟩, hh₂⟩ := hr
    obtain ⟨hattr, hconn, htask⟩ := leavesAll_append (h := h₁) fun e he => (ClientCall.ofSetup_leavesAll (hnew e he)).1
    have hcalls₂ : ∀ e ∈ new ++ h₁, e.op.ofStartup = true ∧ e.op.asksTask = false := by
      refine List.forall_mem_append.mpr ⟨fun e he => ?_, hcalls⟩
      exact ⟨(ClientCall.ofSetup_leavesAll (hnew e he)).2, ClientCall.ofSetup_asksTask (hnew e he)⟩
    cases r with
    | error e =>
      rw [andThen_ok]
      refine wp_mono (swallow_spec fun hos => ?_) fun r h' _ hr => ?_
      · exact ⟨fun t ht => htasks t (htask t ht), fun _ _ => herr e rfl hos⟩
      · obtain ⟨rfl, hstarted⟩ := hr
        exact ⟨hh₂, hcalls₂, hstarted⟩
    | ok u =>
      simp only [andThen_ok, wp_bind, wp_attempt]
      have hasks' : wp (clientExec env) (NotificationCommandsSendVkConsumer.start settings)
          (fun _ h' _ => ∃ newer, h' = newer ++ (new ++ h₁) ∧ ∀ e ∈ newer, e.op.asksTask = false) (new ++ h₁) () :=
        start_asksNoTask (hattr ▸ htask₁)
      have hstart := wp_and hasks' (wp_calls start_calls)
      refine wp_mono (wp_and (wp_and (start_connection hh₂) (start_inOrder hh₂)) hstart) fun r h₃ _ hr => ?_
      obtain ⟨⟨hkept, hh₃⟩, ⟨newer, rfl, hasks'⟩, newer', heq, hnewer⟩ := hr
      obtain rfl := List.append_cancel_right heq
      obtain ⟨hconn', hfailed⟩ := begins_append (h := new ++ h₁) fun e he => ClientCall.ofStart_begins (hnewer e he)
      have hcalls₃ : ∀ e ∈ newer ++ (new ++ h₁), e.op.ofStartup = true ∧ e.op.asksTask = false := by
        refine List.forall_mem_append.mpr ⟨fun e he => ?_, hcalls₂⟩
        exact ⟨ClientCall.ofStart_ofStartup (hnewer e he), hasks' e he⟩
      have hstarted : StartedAs (newer ++ (new ++ h₁)) (.ok true) := by
        refine ⟨⟨c, ?_, fun c' hc' => hone c' (hconn c' ((hconn' c').mp hc'))⟩,
          fun hx => hfine ((hok rfl).mp (hfailed.mp hx))⟩
        rw [hkept, hattr, hc]
      cases r with
      | ok u => exact ⟨hh₃, hcalls₃, hstarted⟩
      | error e =>
        refine wp_mono (swallow_spec fun _ => hstarted) fun r h' _ hr => ?_
        obtain ⟨rfl, hstarted'⟩ := hr
        exact ⟨hh₃, hcalls₃, hstarted'⟩

theorem shutdownCut_append (new h : ClientHistory) : ShutdownCut (new ++ h) ↔ ShutdownCut new ∨ ShutdownCut h := by
  simp [ShutdownCut, or_and_right, exists_or]

theorem released_append (new h : ClientHistory) (c : Conn) : Released (new ++ h) c ↔ Released new c ∨ Released h c := by
  simp only [Released, List.mem_append]
  tauto

/-- Calls that neither end the shutdown nor close a connection. -/
def ClientCall.ofService : ClientCall → Bool
  | .joinTask _ | .isClosed _ | .drain _ | .closeConnection _ => false
  | _ => true

theorem ofService_none {new : ClientHistory} (hnew : ∀ e ∈ new, e.op.ofService = true) :
    ¬ ShutdownCut new ∧ ∀ c, ¬ Released new c := by
  refine ⟨fun hcut => ?_, fun c hreleased => ?_⟩
  · obtain ⟨e, he, hends⟩ := hcut
    have he := hnew e he
    obtain ⟨op, r⟩ := e
    cases op <;> first | cases hends | cases he
  · obtain he | he | he := hreleased
    all_goals cases hnew _ he

theorem ofStartup_ofService {c : ClientCall} (hc : c.ofStartup = true) : c.ofService = true := by
  cases c <;> first | rfl | cases hc

/-- The database is disposed of last, with the metrics. -/
theorem disposal_spec (metricsRuntime : Bool) : wp (clientExec env) (do
      clientAwait .disposeDatabase
      if metricsRuntime then clientAwait .closeMetrics else pure ()) (fun _ h' _ => ∃ new, h' = new ++ h ∧
    Disposed new ∧ ∀ e ∈ new, e.op = .disposeDatabase ∨ e.op = .closeMetrics) h () := by
  simp only [clientAwait, wp_bind, wp_perform]
  cases (clientExec env h .disposeDatabase ()).1 with
  | error e => exact ⟨[⟨.disposeDatabase, .error e⟩], rfl, ⟨_, List.mem_singleton_self _⟩, by simp⟩
  | ok u =>
    cases metricsRuntime with
    | false => exact ⟨[⟨.disposeDatabase, .ok u⟩], rfl, ⟨_, List.mem_singleton_self _⟩, by simp⟩
    | true =>
      simp only [andThen_ok, ↓reduceIte, wp_perform]
      exact ⟨[_, ⟨.disposeDatabase, .ok u⟩], rfl, ⟨_, List.mem_cons_of_mem _ (List.mem_singleton_self _)⟩, by simp⟩

theorem ofShutdown_disposed {new : ClientHistory} (hnew : ∀ e ∈ new, e.op.ofShutdown = true) : ¬ Disposed new :=
  fun ⟨_, hr⟩ => by cases hnew _ hr

/-- The `finally` disposes of the database unless `stop` or `close` raises, and then it has closed
the connection that it was told of. -/
theorem shutdown_spec (natsConnected metricsRuntime : Bool) (hh : InOrder h)
    (hc : natsConnected = true → ∃ c, (attributesAfter h).connection = some c) :
    wp (clientExec env) (shutdown natsConnected metricsRuntime) (fun _ h' _ => ∃ new, h' = new ++ h ∧
      (∀ e ∈ new, e.op.ofFinally) ∧ (Disposed new ↔ ¬ ShutdownCut new) ∧
      (natsConnected = false → ¬ ShutdownCut new ∧ ∀ c, ¬ Released new c) ∧
      (natsConnected = true → ∀ c, (attributesAfter h).connection = some c → (Released new c ↔ ¬ ShutdownCut new)) ∧
      (natsConnected = true → NoneRuns (new ++ h))) h () := by
  cases natsConnected with
  | false =>
    simp only [shutdown, Bool.false_eq_true, ↓reduceIte]
    refine wp_mono (disposal_spec metricsRuntime) fun r h' _ hr => ?_
    obtain ⟨new, rfl, hdisposed, hnew⟩ := hr
    have hnone : ¬ ShutdownCut new ∧ ∀ c, ¬ Released new c := ofService_none fun e he => by
      rcases hnew e he with hop | hop <;> rw [hop] <;> rfl
    exact ⟨new, rfl, fun e he => .inr (hnew e he), iff_of_true hdisposed hnone.1, fun _ => hnone,
      (fun hno => by cases hno), fun hno => by cases hno⟩
  | true =>
    obtain ⟨c, hc⟩ := hc rfl
    rw [shutdown, if_pos rfl, wp_bind]
    refine wp_mono (wp_and stop_spec (stop_inOrder hh)) fun r h₁ _ hr => ?_
    obtain ⟨⟨stopped, rfl, hstopped, hcut, hnot, hkept, htask⟩, hh₁⟩ := hr
    have hnone₁ : NoneRuns (stopped ++ h) := fun t ht => (hh₁.tracked.tasks t ht).resolve_left fun hsome => by
      cases htask.symm.trans hsome
    cases r with
    | error e =>
      have hraised : ShutdownCut stopped := hcut.mpr ⟨e, rfl⟩
      refine ⟨stopped, rfl, fun e he => .inl (hstopped e he),
        iff_of_false (ofShutdown_disposed hstopped) (not_not.mpr hraised), (fun hno => by cases hno),
        fun _ c' _ => iff_of_false (hnot c') (not_not.mpr hraised), fun _ => hnone₁⟩
    | ok u =>
      have hquiet : ¬ ShutdownCut stopped := fun hcut' => by
        obtain ⟨e, he⟩ := hcut.mp hcut'
        cases he
      rw [andThen_ok, wp_bind]
      refine wp_mono (close_spec (hkept.trans hc)) fun r h₂ _ hr => ?_
      obtain ⟨closed, rfl, hclosed, hcut', hreleased⟩ := hr
      cases r with
      | error e =>
        have hraised : ShutdownCut (closed ++ stopped) := (shutdownCut_append _ _).mpr (.inl (hcut'.mpr ⟨e, rfl⟩))
        have hcalls : ∀ e ∈ closed ++ stopped, e.op.ofShutdown = true := List.forall_mem_append.mpr ⟨hclosed, hstopped⟩
        have hopen : ¬ Released (closed ++ stopped) c := by
          rw [released_append, hreleased]
          rintro (heq | hr)
          · cases heq
          · exact hnot c hr
        refine ⟨closed ++ stopped, (List.append_assoc _ _ _).symm, fun e he => .inl (hcalls e he),
          iff_of_false (ofShutdown_disposed hcalls) (not_not.mpr hraised), (fun hno => by cases hno),
          fun _ c' hc' => ?_, fun _ => ?_⟩
        · cases hc.symm.trans hc'
          exact iff_of_false hopen (not_not.mpr hraised)
        · rw [List.append_assoc]
          exact hnone₁.append fun e he hop => by cases hop ▸ hclosed e he
      | ok u =>
        have hquiet' : ¬ ShutdownCut (closed ++ stopped) := by
          rw [shutdownCut_append, hcut']
          rintro (⟨e, he⟩ | hcut)
          · cases he
          · exact hquiet hcut
        rw [andThen_ok]
        refine wp_mono (disposal_spec metricsRuntime) fun r h₃ _ hr => ?_
        obtain ⟨disposed, rfl, ⟨r', hr'⟩, hdisposed⟩ := hr
        have hnone : ¬ ShutdownCut disposed ∧ ∀ c, ¬ Released disposed c := ofService_none fun e he => by
          rcases hdisposed e he with hop | hop <;> rw [hop] <;> rfl
        have hno : ¬ ShutdownCut (disposed ++ (closed ++ stopped)) := by
          rw [shutdownCut_append]
          exact not_or.mpr ⟨hnone.1, hquiet'⟩
        refine ⟨disposed ++ (closed ++ stopped), by simp only [List.append_assoc], fun e he => ?_,
          iff_of_true ⟨r', List.mem_append_left _ hr'⟩ hno, (fun hno => by cases hno), fun _ c' hc' => ?_, fun _ => ?_⟩
        · rcases List.mem_append.mp he with he | he
          · exact .inr (hdisposed e he)
          · exact .inl ((List.forall_mem_append.mpr ⟨hclosed, hstopped⟩) e he)
        · cases hc.symm.trans hc'
          refine iff_of_true ?_ hno
          exact (released_append _ _ _).mpr (.inr ((released_append _ _ _).mpr (.inl (hreleased.mpr rfl))))
        · rw [List.append_assoc, List.append_assoc]
          refine (hnone₁.append fun e he hop => ?_).append fun e he hop => ?_
          · cases hop ▸ hclosed e he
          · rcases hdisposed e he with heq | heq <;> cases hop.symm.trans heq

/-- What holds of the calls of a whole lifespan. -/
structure LifespanEnd (h : ClientHistory) (r : Except ClientExn Unit) : Prop where
  disposed : AppServed h → (Disposed h ↔ ¬ ShutdownCut h)
  released : AppServed h → ∀ c, Connected h c → (Released h c ↔ ¬ SetupFailed h ∧ ¬ ShutdownCut h)
  tasks : AppServed h → AllToldToStop h
  unserved : ¬ AppServed h → ¬ Disposed h ∧ (∀ c, ¬ Released h c) ∧
    ∃ e, r = .error e ∧ (e.isOSError = true → ∃ past, h = ⟨.startMetrics, .error e⟩ :: past)

/-- The end of a lifespan that was served, from what the `finally` did. -/
theorem served_end {h h₁ new : ClientHistory} {natsConnected : Bool} {served : Except ClientExn Unit}
    {metrics : Except ClientExn Bool} (hh : h = ⟨.serve, served⟩ :: ⟨.startMetrics, metrics⟩ :: h₁)
    (hcalls : ∀ e ∈ h₁, e.op.ofStartup = true ∧ e.op.asksTask = false) (hstarted : StartedAs h₁ (.ok natsConnected))
    (hnew : ∀ e ∈ new, e.op.ofFinally) (hdisposed : Disposed new ↔ ¬ ShutdownCut new)
    (hfalse : natsConnected = false → ¬ ShutdownCut new ∧ ∀ c, ¬ Released new c)
    (htrue : natsConnected = true → ∀ c, (attributesAfter h).connection = some c → (Released new c ↔ ¬ ShutdownCut new))
    (htasks : natsConnected = true → NoneRuns (new ++ h)) (r : Except ClientExn Unit) : LifespanEnd (new ++ h) r := by
  have hservice : ∀ e ∈ h, e.op.ofService = true := by
    subst hh
    refine List.forall_mem_cons.mpr ⟨rfl, List.forall_mem_cons.mpr ⟨rfl, fun e he => ?_⟩⟩
    exact ofStartup_ofService (hcalls e he).1
  have hbegins : ∀ e ∈ ([⟨.serve, served⟩, ⟨.startMetrics, metrics⟩] : ClientHistory), e.op.begins = false := by
    simp [ClientCall.begins]
  obtain ⟨hcut, hreleased⟩ := ofService_none hservice
  obtain ⟨hconn, hfailed⟩ := begins_append (h := h) fun e he => ClientCall.ofFinally_begins (hnew e he)
  obtain ⟨hconn₁, hfailed₁⟩ := begins_append (h := h₁) hbegins
  have hserved : AppServed (new ++ h) := ⟨served, List.mem_append_right _ (hh ▸ List.mem_cons_self)⟩
  have hundisposed : ¬ Disposed h := fun ⟨r, hr⟩ => by
    subst hh
    simp only [List.mem_cons, Event.mk.injEq, reduceCtorEq, false_and, false_or] at hr
    cases (hcalls _ hr).1
  subst hh
  have hcutnew : ShutdownCut (new ++ ⟨.serve, served⟩ :: ⟨.startMetrics, metrics⟩ :: h₁) ↔ ShutdownCut new := by
    rw [shutdownCut_append, or_iff_left hcut]
  have hfailednew : SetupFailed (new ++ ⟨.serve, served⟩ :: ⟨.startMetrics, metrics⟩ :: h₁) ↔ SetupFailed h₁ :=
    hfailed.trans hfailed₁
  refine ⟨fun _ => ?_, fun _ c hc => ?_, fun _ => ?_, fun hno => absurd hserved hno⟩
  · rw [hcutnew, ← hdisposed]
    simp only [Disposed, List.mem_append, exists_or]
    exact or_iff_left hundisposed
  · rw [released_append, or_iff_left (hreleased c), hcutnew, hfailednew]
    have hc : Connected h₁ c := (hconn₁ c).mp ((hconn c).mp hc)
    cases natsConnected with
    | false => exact iff_of_false ((hfalse rfl).2 c) fun hno => hno.1 (hstarted.2 c hc)
    | true =>
      obtain ⟨⟨c', hc', hone⟩, hfine⟩ := hstarted
      obtain rfl := hone c hc
      rw [htrue rfl c hc']
      exact (and_iff_right hfine).symm
  · -- nobody has asked for a task, so whatever has ended was told to
    have hended : NoneRuns (new ++ ⟨.serve, served⟩ :: ⟨.startMetrics, metrics⟩ :: h₁) := by
      cases natsConnected with
      | true => exact htasks rfl
      | false =>
        have hnone : NoneRuns h₁ := fun t ht => absurd ht (hstarted.1 t)
        refine ((hnone.cons (c := .startMetrics) (by simp) metrics).cons (c := .serve) (by simp) served).append ?_
        intro e he hop
        have hfinal := hnew e he
        rw [hop] at hfinal
        obtain hfinal | hfinal | hfinal := hfinal
        all_goals cases hfinal
    refine fun t ht => (hended t ht).resolve_right fun hasked => ?_
    rcases List.mem_append.mp hasked with hasked | hasked
    · have hfinal := hnew _ hasked
      obtain hfinal | hfinal | hfinal := hfinal
      all_goals cases hfinal
    · simp only [List.mem_cons, Event.mk.injEq, reduceCtorEq, false_and, false_or] at hasked
      cases (hcalls _ hasked).2

theorem lifespan_spec : wp (clientExec env) (lifespan settings) (fun r h' _ => LifespanEnd h' r) [] () := by
  rw [lifespan, wp_bind]
  refine wp_mono startNats_spec fun r h₁ _ hr => ?_
  obtain ⟨hh₁, hcalls, hstarted⟩ := hr
  have hnone : ¬ ShutdownCut h₁ ∧ ∀ c, ¬ Released h₁ c := ofService_none fun e he => ofStartup_ofService (hcalls e he).1
  have hunserved : ¬ AppServed h₁ := fun ⟨r, hr⟩ => by cases (hcalls _ hr).1
  have hundisposed : ¬ Disposed h₁ := fun ⟨r, hr⟩ => by cases (hcalls _ hr).1
  cases r with
  | error e =>
    refine ⟨fun hs => absurd hs hunserved, fun hs => absurd hs hunserved, fun hs => absurd hs hunserved,
      fun _ => ⟨hundisposed, hnone.2, e, rfl, fun hos => ?_⟩⟩
    cases hstarted.symm.trans hos
  | ok natsConnected =>
    simp only [andThen_ok, clientAwait, wp_bind, wp_perform]
    cases (clientExec env h₁ .startMetrics _).1 with
    | error e =>
      rw [andThen_error]
      have hcons : ∀ e' ∈ (⟨.startMetrics, .error e⟩ :: h₁ : ClientHistory), e'.op.ofService = true :=
        List.forall_mem_cons.mpr ⟨rfl, fun e he => ofStartup_ofService (hcalls e he).1⟩
      have hno : ¬ AppServed (⟨.startMetrics, .error e⟩ :: h₁) := fun ⟨r, hr⟩ => by
        rcases List.mem_cons.mp hr with heq | hr
        · cases heq
        · exact hunserved ⟨r, hr⟩
      refine ⟨fun hs => absurd hs hno, fun hs => absurd hs hno, fun hs => absurd hs hno,
        fun _ => ⟨fun ⟨r, hr⟩ => ?_, (ofService_none hcons).2, e, rfl, fun _ => ⟨h₁, rfl⟩⟩⟩
      rcases List.mem_cons.mp hr with heq | hr
      · cases heq
      · exact hundisposed ⟨r, hr⟩
    | ok metricsRuntime =>
      simp only [andThen_ok, wp_bind, wp_attempt, wp_perform]
      generalize (clientExec env _ .serve _).1 = served
      have hh₂ : InOrder (⟨.serve, served⟩ :: ⟨.startMetrics, .ok metricsRuntime⟩ :: h₁) :=
        (hh₁.cons (c := .startMetrics) rfl trivial _).cons (c := .serve) rfl trivial _
      refine wp_mono (shutdown_spec natsConnected metricsRuntime hh₂ fun htrue => ?_) fun r h₃ _ hr => ?_
      · subst htrue
        obtain ⟨⟨c, hc, -⟩, -⟩ := hstarted
        exact ⟨c, hc⟩
      · obtain ⟨new, rfl, hnew, hdisposed, hfalse, htrue, htasks⟩ := hr
        have hend := served_end rfl hcalls hstarted hnew hdisposed hfalse htrue htasks
        cases r with
        | error e => exact hend _
        | ok u =>
          rw [andThen_ok, wp_ofExcept]
          exact hend _

end Parts

/-- Served or not, a lifespan gives back what it holds: the database unless an exception ends the
shutdown first, every task told to stop, the connection unless its registration failed as well. -/
theorem lifespan_shutdown (settings : NatsClientSettings) (env : NatsEnvironment) :
    let out := (lifespan settings).run (clientExec env) [] ()
    LifespanEnd out.2.1 out.1 :=
  lifespan_spec

/-- A broker that answers, except for what it says to a registration. -/
private def answering (registered : Except ClientExn Unit) : NatsEnvironment where
  reply h
    | .isConnected c => .ok (h.any fun
      | ⟨.connect c' _, .ok _⟩ => c' == c
      | _ => false)
    | .isClosed _ | .taskDone _ => .ok false
    | .startMetrics => .ok true
    | .addConsumer .. => registered
    | .attributes => .ok .unset
    | .newConnection | .createTask => .ok (0 : Nat)
    | .assign _ | .resetPolicy | .connect .. | .drain _ | .closeConnection _ | .pullSubscribe .. | .publish .. | .sleep _
    | .cancelTask _ | .joinTask _ | .closeMetrics | .serve | .disposeDatabase => .ok ()
  looks_ok h c e hc := by
    cases c <;> first | (simp; done) | cases hc
  sleep_error h seconds e he := by simp at he
  connected h c hc := by
    simp only [Except.ok.injEq, List.any_eq_true] at hc
    obtain ⟨⟨op, r⟩, he, hc⟩ := hc
    cases op <;> try cases hc
    case connect c' servers =>
      cases r with
      | error e => cases hc
      | ok u =>
        have hc : c' = c := by simpa using hc
        exact ⟨servers, hc ▸ he⟩

private def demoSettings : NatsClientSettings where
  natsServers := []
  natsStreamNotificationCommands := []
  natsConsumerNotificationCommandsSendVk := []
  natsSubjectNotificationCommandsSendVk := []
  natsConsumerAckWaitSeconds := 30
  natsConsumerMaxDeliver := 5
  natsSetupMaxAttempts := 10
  natsSetupBackoffSeconds := 0
  ackWait_ge := Nat.le_add_left 1 29
  maxDeliver_ge := Nat.le_add_left 1 4
  maxAttempts_ge := Nat.le_add_left 1 9
  backoff_ge := Rat.le_refl

/-- The main calls of a lifespan, in order. -/
private def mainCalls (registered : Except ClientExn Unit) : List ClientCall :=
  (((lifespan demoSettings).run (clientExec (answering registered)) [] ()).2.1.reverse.map (·.op)).filter fun
    | .connect .. | .createTask | .serve | .cancelTask _ | .drain _ | .disposeDatabase => true
    | _ => false

example : mainCalls (.ok ()) = [.connect 0 [], .createTask, .serve, .cancelTask 1, .drain 0, .disposeDatabase] := by
  decide +kernel

-- a registration that times out leaves the connection open
example : mainCalls (.error .timeoutError) = [.connect 0 [], .serve, .disposeDatabase] := by
  decide +kernel

end VkService
