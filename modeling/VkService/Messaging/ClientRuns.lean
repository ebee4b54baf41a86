import VkService.Messaging.Registration

/-! The client and its consumer over any sequence of calls, each of which may fail. Only a
connection that was made is used, and a task is created only when the earlier ones were stopped. -/
namespace VkService
open PyStr Effects Effects.Prog NatsJetstreamClient

/-- What the application does with the client and its consumer. -/
inductive ClientStep where
  | connect
  | close
  | setup
  | publish (subject : Str) (payload : List UInt8) (headers : Option (List (String × String)))
  | start
  | stop

def ClientStep.prog (settings : NatsClientSettings) : ClientStep → ClientPy Unit
  | .connect => NatsJetstreamClient.connect settings
  | .close => NatsJetstreamClient.close
  | .setup => NatsJetstreamClient.setup settings
  | .publish subject payload headers => NatsJetstreamClient.publish subject payload headers
  | .start => NotificationCommandsSendVkConsumer.start settings
  | .stop => NotificationCommandsSendVkConsumer.stop

/-- The steps one after another; a step that raises does not keep the others from being made. -/
def clientSession (settings : NatsClientSettings) : List ClientStep → ClientPy Unit
  | [] => pure ()
  | step :: steps => do
    let _ ← attempt (step.prog settings)
    clientSession settings steps

/-- The task was told to stop, or was seen to have ended. -/
def TaskEnded (h : ClientHistory) (t : TaskId) : Prop :=
  (∃ r, ⟨.cancelTask t, r⟩ ∈ h) ∨ ⟨.taskDone t, .ok true⟩ ∈ h

/-- The current connection, made and just seen connected. -/
def UsableContext (h : ClientHistory) (c : Conn) : Prop :=
  (attributesAfter h).connection = some c ∧ Connected h c ∧ ∃ past, h = ⟨.isConnected c, .ok true⟩ :: past

/-- When each call is in order. -/
def CallInOrder (h : ClientHistory) : ClientCall → Prop
  | .addConsumer js _ _ | .pullSubscribe js _ _ _ | .publish js _ _ _ => UsableContext h js
  | .connect c _ => (attributesAfter h).connection = some c ∧ ∀ servers r, ⟨.connect c servers, r⟩ ∉ h
  | .drain c | .closeConnection c => (attributesAfter h).connection = some c ∧ ⟨.isClosed c, .ok false⟩ ∈ h
  | .createTask => ∀ t, ⟨.createTask, .ok t⟩ ∈ h → TaskEnded h t
  | .joinTask t => (attributesAfter h).task = some t ∧ ∃ r, ⟨.cancelTask t, r⟩ ∈ h
  | _ => True

/-- Connections are new, and the tasks that may run are known. -/
structure Tracked (h : ClientHistory) : Prop where
  fresh : ∀ c servers r, ⟨.connect c servers, r⟩ ∈ h → c < made h
  tasks : ∀ t, ⟨.createTask, .ok t⟩ ∈ h → (attributesAfter h).task = some t ∨ TaskEnded h t

/-- The context is the one of the current connection, if that was made. -/
def ContextSet (h : ClientHistory) : Prop :=
  ∀ c, (attributesAfter h).connection = some c → Connected h c → (attributesAfter h).jetstream = some c

/-- Calls that neither change the attributes nor make a connection or a task. -/
def ClientCall.leavesAll : ClientCall → Bool
  | .assign _ | .connect .. | .createTask => false
  | _ => true

section Invariant
variable {h : ClientHistory} {c : ClientCall}

theorem attributesAfter_cons (hc : c.leavesAll = true) (r : Except ClientExn c.Reply) :
    attributesAfter (⟨c, r⟩ :: h) = attributesAfter h := by
  cases c <;> first | rfl | cases hc

theorem made_le_cons (c : ClientCall) (r : Except ClientExn c.Reply) : made h ≤ made (⟨c, r⟩ :: h) :=
  List.Sublist.countP_le (List.sublist_cons_self _ _)

theorem TaskEnded.cons {t : TaskId} (ht : TaskEnded h t) (c : ClientCall) (r : Except ClientExn c.Reply) :
    TaskEnded (⟨c, r⟩ :: h) t :=
  ht.imp (fun ⟨r, hr⟩ => ⟨r, List.mem_cons_of_mem _ hr⟩) (List.mem_cons_of_mem _)

theorem Connected.of_cons {n : Conn} (hc : c.leavesAll = true) {r : Except ClientExn c.Reply}
    (hn : Connected (⟨c, r⟩ :: h) n) : Connected h n := by
  obtain ⟨servers, hs⟩ := hn
  rcases List.mem_cons.mp hs with heq | hs
  · cases heq
    cases hc
  · exact ⟨servers, hs⟩

theorem Tracked.cons (hh : Tracked h) (hc : c.leavesAll = true ∨ ∃ n servers, c = .connect n servers ∧ n < made h)
    (r : Except ClientExn c.Reply) : Tracked (⟨c, r⟩ :: h) := by
  refine ⟨fun n servers r' hmem => lt_of_lt_of_le ?_ (made_le_cons c r), fun t hmem => ?_⟩
  · rcases List.mem_cons.mp hmem with heq | hmem
    · cases heq
      obtain hc | ⟨n', servers', heq, hlt⟩ := hc
      · cases hc
      · cases heq
        exact hlt
    · exact hh.fresh n servers r' hmem
  · have hattr : attributesAfter (⟨c, r⟩ :: h) = attributesAfter h := by
      obtain hc | ⟨n', servers', rfl, -⟩ := hc
      · exact attributesAfter_cons hc r
      · rfl
    rw [hattr]
    rcases List.mem_cons.mp hmem with heq | hmem
    · cases heq
      obtain hc | ⟨n', servers', heq, -⟩ := hc
      · cases hc
      · cases heq
    · exact (hh.tasks t hmem).imp_right fun ht => ht.cons c r

theorem Tracked.assign (hh : Tracked h) (a : Attributes)
    (htasks : ∀ t, ⟨.createTask, .ok t⟩ ∈ h → a.task = some t ∨ TaskEnded h t) (r : Except ClientExn Unit) :
    Tracked (⟨.assign a, r⟩ :: h) := by
  refine ⟨fun n servers r' hmem => ?_, fun t hmem => ?_⟩
  · rcases List.mem_cons.mp hmem with heq | hmem
    · cases heq
    · exact lt_of_lt_of_le (hh.fresh n servers r' hmem) (made_le_cons (.assign a) r)
  · rcases List.mem_cons.mp hmem with heq | hmem
    · cases heq
    · exact (htasks t hmem).imp_right fun ht => ht.cons (.assign a) r

/-- How things stand between two steps: in order so far, and the context set. -/
structure InOrder (h : ClientHistory) : Prop where
  traced : Traced CallInOrder h
  tracked : Tracked h
  context : ContextSet h

theorem InOrder.nil : InOrder [] := by
  refine ⟨.nil, ⟨fun c servers r hmem => ?_, fun t hmem => ?_⟩, fun c hc => ?_⟩
  · cases hmem
  · cases hmem
  · cases hc

theorem InOrder.cons (hh : InOrder h) (hc : c.leavesAll = true) (ho : CallInOrder h c) (r : Except ClientExn c.Reply) :
    InOrder (⟨c, r⟩ :: h) := by
  refine ⟨.cons r hh.traced ho, hh.tracked.cons (.inl hc) r, fun n hn hconn => ?_⟩
  rw [attributesAfter_cons hc] at hn ⊢
  exact hh.context n hn (hconn.of_cons hc)

theorem InOrder.peeked {h' : ClientHistory} (hh : InOrder h) (hpeek : Peeked h h') : InOrder h' := by
  obtain ⟨new, rfl, hnew⟩ := hpeek
  induction new with
  | nil => exact hh
  | cons e new ih =>
    obtain ⟨he, hnew⟩ := List.forall_mem_cons.mp hnew
    refine (ih hnew).cons ?_ ?_ e.reply
    · cases hc : e.op <;> rw [hc] at he <;> first | rfl | cases he
    · cases hc : e.op <;> rw [hc] at he <;> trivial

theorem InOrder.attributes (hh : InOrder h) (r : Except ClientExn Attributes) : InOrder (⟨.attributes, r⟩ :: h) :=
  hh.cons (c := .attributes) rfl (show CallInOrder h .attributes from trivial) r

end Invariant

section Steps
variable {env : NatsEnvironment} {settings : NatsClientSettings} {h : ClientHistory}

/-- One call that leaves the attributes, made in order. -/
theorem wp_inOrder {c : ClientCall} {Φ : Except ClientExn c.Reply → ClientHistory → Unit → Prop} (hh : InOrder h)
    (hc : c.leavesAll = true) (ho : CallInOrder h c)
    (hΦ : ∀ r, (clientExec env h c ()).1 = r → InOrder (⟨c, r⟩ :: h) → Φ r (⟨c, r⟩ :: h) ()) :
    wp (clientExec env) (perform c) Φ h () :=
  wp_perform.mpr (hΦ _ rfl (hh.cons hc ho _))

theorem getJetstream_usableContext (hh : InOrder h) : wp (clientExec env) getJetstream (fun r h' _ => InOrder h' ∧
    Peeked h h' ∧ ∀ js, r = .ok js → UsableContext h' js) h () := by
  refine wp_mono getJetstream_spec fun r h' _ hr => ?_
  obtain ⟨hpeek, hr⟩ := hr
  refine ⟨hh.peeked hpeek, hpeek, fun js hjs => ?_⟩
  subst hjs
  obtain ⟨hjs, c, hc, ⟨servers, hs⟩, hpast⟩ := hr
  have heq : some c = some js := (hh.context c hc ⟨servers, hs⟩).symm.trans hjs
  cases heq
  exact ⟨hpeek.attributesAfter_eq ▸ hc, ⟨servers, hpeek.mem hs⟩, hpast⟩

theorem publish_inOrder (subject : Str) (payload : List UInt8) (headers : Option (List (String × String)))
    (hh : InOrder h) :
    wp (clientExec env) (publish subject payload headers) (fun _ h' _ => InOrder h') h () := by
  simp only [publish, wp_bind]
  refine wp_mono (getJetstream_usableContext hh) fun r h₁ _ hr => ?_
  obtain ⟨hh₁, -, hr⟩ := hr
  cases r with
  | error e => exact hh₁
  | ok js =>
    rw [andThen_ok]
    refine wp_inOrder hh₁ rfl ?_ fun r _ hh₂ => hh₂
    exact hr js rfl

theorem addConsumer_inOrder (hh : InOrder h) : wp (clientExec env)
    (addNotificationCommandsSendVkConsumer settings) (fun _ h' _ => InOrder h') h () := by
  simp only [addNotificationCommandsSendVkConsumer, wp_bind]
  refine wp_mono (getJetstream_usableContext hh) fun r h₁ _ hr => ?_
  obtain ⟨hh₁, -, hr⟩ := hr
  cases r with
  | error e => exact hh₁
  | ok js =>
    rw [andThen_ok]
    refine wp_inOrder hh₁ rfl ?_ fun r _ hh₂ => hh₂
    exact hr js rfl

theorem setupAttempt_inOrder (attempt : Nat) (hh : InOrder h) : wp (clientExec env)
    (setupAttempt settings attempt) (fun _ h' _ => InOrder h') h () := by
  simp only [setupAttempt, wp_tryCatch, wp_bind]
  refine wp_mono (addConsumer_inOrder hh) fun r h₁ _ hh₁ => ?_
  cases r with
  | ok u => exact hh₁
  | error e =>
    simp only [andThen_error, orElse_error]
    split
    · split
      · exact hh₁
      · split
        · rw [wp_bind]
          refine wp_inOrder hh₁ rfl trivial fun r _ hh₂ => ?_
          cases r with
          | ok u => exact hh₂
          | error e => exact hh₂
        · exact hh₁
    · exact hh₁

theorem setup_inOrder (hh : InOrder h) :
    wp (clientExec env) (setup settings) (fun _ h' _ => InOrder h') h () := by
  have hfrom : ∀ left attempt h, InOrder h →
      wp (clientExec env) (setupFrom settings left attempt) (fun _ h' _ => InOrder h') h () := by
    intro left
    induction left with
    | zero => exact fun attempt h hh => hh
    | succ left ih =>
      intro attempt h hh
      simp only [setupFrom, wp_bind]
      refine wp_mono (setupAttempt_inOrder attempt hh) fun r h₁ _ hh₁ => ?_
      cases r with
      | error e => exact hh₁
      | ok found =>
        cases found with
        | true => exact hh₁
        | false => exact ih (attempt + 1) h₁ hh₁
  simp only [setup, wp_bind]
  refine wp_mono isConnected_spec fun r h₁ _ hr => ?_
  obtain ⟨hpeek, b, rfl, -⟩ := hr
  cases b with
  | false => exact hh.peeked hpeek
  | true => exact hfrom _ _ _ (hh.peeked hpeek)

theorem drainOrClose_inOrder (hh : InOrder h) {c : Conn} (hc : (attributesAfter h).connection = some c) :
    wp (clientExec env) (drainOrClose c) (fun _ h' _ => InOrder h') h () := by
  simp only [drainOrClose, wp_bind]
  refine wp_inOrder hh rfl trivial fun r _ hh₁ => ?_
  cases r with
  | error e => exact hh₁
  | ok closed =>
    cases closed with
    | true => exact hh₁
    | false =>
      simp only [andThen_ok, Bool.false_eq_true, ↓reduceIte, wp_tryCatch]
      refine wp_inOrder hh₁ rfl ?_ fun r _ hh₂ => ?_
      · exact ⟨hc, List.mem_cons_self⟩
      · cases r with
        | ok u => exact hh₂
        | error e =>
          rw [orElse_error]
          split
          · refine wp_inOrder hh₂ rfl ?_ fun r _ hh₃ => hh₃
            exact ⟨hc, List.mem_cons_of_mem _ List.mem_cons_self⟩
          · exact hh₂

/-- An assignment that keeps the context set, and forgets no live task. -/
theorem updateAttributes_inOrder (hh : InOrder h) {f : Attributes → Attributes}
    {Φ : Except ClientExn Unit → ClientHistory → Unit → Prop}
    (hcontext : ∀ c, (f (attributesAfter h)).connection = some c → Connected h c →
      (f (attributesAfter h)).jetstream = some c)
    (htasks : ∀ t, ⟨.createTask, .ok t⟩ ∈ h → (f (attributesAfter h)).task = some t ∨ TaskEnded h t)
    (hΦ : ∀ h', InOrder h' → attributesAfter h' = f (attributesAfter h) →
      h' = ⟨.assign (f (attributesAfter h)), .ok ()⟩ :: ⟨.attributes, .ok (attributesAfter h)⟩ :: h → Φ (.ok ()) h' ()) :
    wp (clientExec env) (updateAttributes f) Φ h () := by
  rw [wp_updateAttributes]
  refine hΦ _ ⟨.cons _ (hh.attributes _).traced trivial, (hh.attributes _).tracked.assign _ (fun t ht => ?_) _,
    fun c hc hconn => ?_⟩ rfl rfl
  · rcases List.mem_cons.mp ht with heq | ht
    · cases heq
    · exact (htasks t ht).imp_right fun hended => hended.cons _ _
  · obtain ⟨servers, hs⟩ := hconn
    rcases List.mem_cons.mp hs with heq | hs
    · cases heq
    · exact hcontext c hc (Connected.of_cons rfl ⟨servers, hs⟩)

theorem close_inOrder (hh : InOrder h) : wp (clientExec env) close (fun _ h' _ => InOrder h') h () := by
  simp only [close, clientAwait, wp_bind, wp_perform, clientExec_attributes, andThen_ok]
  cases hc : (attributesAfter h).connection with
  | none => exact hh.attributes _
  | some c =>
    simp only [wp_bind, wp_attempt]
    refine wp_mono (drainOrClose_inOrder (hh.attributes (.ok (attributesAfter h))) hc) fun r h₁ _ hh₁ => ?_
    simp only [andThen_ok, wp_bind]
    refine updateAttributes_inOrder hh₁ (fun c hc => by cases hc) hh₁.tracked.tasks fun h₂ hh₂ _ _ => ?_
    simpa only [andThen_ok, wp_ofExcept] using hh₂

theorem stop_inOrder (hh : InOrder h) : wp (clientExec env)
    NotificationCommandsSendVkConsumer.stop (fun _ h' _ => InOrder h') h () := by
  simp only [NotificationCommandsSendVkConsumer.stop, clientAwait, wp_bind, wp_perform, clientExec_attributes,
    andThen_ok]
  cases ht : (attributesAfter h).task with
  | none => exact hh.attributes _
  | some t =>
    simp only [wp_bind]
    refine wp_inOrder (hh.attributes _) rfl trivial fun r _ hh₁ => ?_
    cases r with
    | error e => exact hh₁
    | ok u =>
      have hjoin : CallInOrder (⟨.cancelTask t, .ok u⟩ :: ⟨.attributes, .ok (attributesAfter h)⟩ :: h) (.joinTask t) :=
        ⟨ht, _, List.mem_cons_self⟩
      simp only [andThen_ok, wp_attempt, wp_tryCatch, wp_bind]
      refine wp_inOrder hh₁ rfl hjoin fun r _ hh₂ => ?_
      -- the only task that may still have run is the one that was just cancelled
      have hend : ∀ r', wp (clientExec env) (do
          updateAttributes fun a => { a with task := none, subscription := none }
          ofExcept r' : ClientPy Unit) (fun _ h' _ => InOrder h')
          (⟨.joinTask t, r⟩ :: ⟨.cancelTask t, .ok u⟩ :: ⟨.attributes, .ok (attributesAfter h)⟩ :: h) () := by
        intro r'
        rw [wp_bind]
        refine updateAttributes_inOrder hh₂ hh₂.context (fun t' ht' => .inr ?_) fun h₃ hh₃ _ _ => ?_
        · rcases hh₂.tracked.tasks t' ht' with htask | hended
          · have heq : some t = some t' := ht.symm.trans htask
            cases heq
            exact .inl ⟨_, List.mem_cons_of_mem _ List.mem_cons_self⟩
          · exact hended
        · simpa only [andThen_ok, wp_ofExcept] using hh₃
      cases r with
      | ok u => exact hend (.ok u)
      | error e =>
        rw [orElse_error]
        split
        · exact hend (.ok ())
        · exact hend (.error e)

section Connecting
variable {c : Conn} {servers : List Str}

theorem connect_failed (hh : InOrder h) (ho : CallInOrder h (.connect c servers)) (hc : c < made h) (e : ClientExn) :
    InOrder (⟨.connect c servers, .error e⟩ :: h) := by
  refine ⟨.cons _ hh.traced ho, hh.tracked.cons (.inr ⟨c, servers, rfl, hc⟩) _, fun n hn hconn => ?_⟩
  obtain ⟨servers', hs⟩ := hconn
  exact hh.context n hn ⟨servers', ok_mem_error_cons.mp hs⟩

/-- Between the return of `connect` and the assignment that follows, the context is not set. -/
theorem connect_returned (hh : InOrder h) (ho : CallInOrder h (.connect c servers)) (hc : c < made h) :
    wp (clientExec env) (updateAttributes fun a => { a with jetstream := some c }) (fun _ h' _ => InOrder h')
      (⟨.connect c servers, .ok ()⟩ :: h) () := by
  rw [wp_updateAttributes]
  have htracked : Tracked (⟨.connect c servers, .ok ()⟩ :: h) := hh.tracked.cons (.inr ⟨c, servers, rfl, hc⟩) _
  have hread := htracked.cons (c := .attributes) (.inl rfl)
    (.ok (attributesAfter (⟨.connect c servers, .ok ()⟩ :: h)))
  refine ⟨.cons _ (.cons _ (.cons _ hh.traced ho) trivial) trivial, hread.assign _ ?_ _, fun n hn _ => ?_⟩
  · exact hread.tasks
  · exact ho.1.symm.trans hn

end Connecting

theorem connect_inOrder (hh : InOrder h) :
    wp (clientExec env) (connect settings) (fun _ h' _ => InOrder h') h () := by
  simp only [connect, wp_bind]
  refine wp_mono isConnected_spec fun r h₁ _ hr => ?_
  obtain ⟨hpeek, b, rfl, -⟩ := hr
  have hh₁ := hh.peeked hpeek
  cases b with
  | true => exact hh₁
  | false =>
    simp only [andThen_ok, Bool.false_eq_true, ↓reduceIte, wp_bind]
    refine wp_inOrder hh₁ rfl trivial fun r hr hh₂ => ?_
    have hr : r = .ok (made h₁) := hr.symm
    subst hr
    have hnew : ∀ servers r, ⟨.connect (made h₁) servers, r⟩ ∉
        (⟨.newConnection, .ok (made h₁)⟩ :: h₁ : ClientHistory) := by
      intro servers r hmem
      rcases List.mem_cons.mp hmem with heq | hmem
      · cases heq
      · exact Nat.lt_irrefl _ (hh₁.tracked.fresh _ _ _ hmem)
    rw [andThen_ok, wp_bind]
    refine updateAttributes_inOrder hh₂ (fun c hc hconn => ?_) ?_ fun h₃ hh₃ hattr hh₃eq => ?_
    · cases hc
      obtain ⟨servers, hs⟩ := hconn
      exact absurd hs (hnew _ _)
    · exact hh₂.tracked.tasks
    · rw [andThen_ok, wp_bind]
      refine wp_inOrder hh₃ rfl trivial fun r _ hh₄ => ?_
      cases r with
      | error e => exact hh₄
      | ok u =>
        have hlt : made h₁ < made (⟨.resetPolicy, .ok u⟩ :: h₃) := by
          rw [hh₃eq]
          simp [made]
        have ho : CallInOrder (⟨.resetPolicy, .ok u⟩ :: h₃) (.connect (made h₁) settings.natsServers) := by
          have hconn : (attributesAfter h₃).connection = some (made h₁) := congrArg Attributes.connection hattr
          refine ⟨hconn, fun servers r hmem => ?_⟩
          rw [hh₃eq] at hmem
          refine hnew servers r ?_
          simpa using hmem
        simp only [andThen_ok, clientAwait, wp_bind, wp_perform]
        cases (clientExec env (⟨.resetPolicy, .ok u⟩ :: h₃) (.connect (made h₁) settings.natsServers) ()).1 with
        | error e => exact connect_failed hh₄ ho hlt e
        | ok u => exact connect_returned hh₄ ho hlt

/-- Every task that was created was told to stop, or was seen to have ended. -/
def NoneRuns (h : ClientHistory) : Prop := ∀ t, ⟨.createTask, .ok t⟩ ∈ h → TaskEnded h t

theorem NoneRuns.cons (hn : NoneRuns h) {c : ClientCall} (hc : c ≠ .createTask) (r : Except ClientExn c.Reply) :
    NoneRuns (⟨c, r⟩ :: h) := by
  intro t ht
  rcases List.mem_cons.mp ht with heq | ht
  · cases heq
    exact absurd rfl hc
  · exact (hn t ht).cons c r

theorem NoneRuns.append {new : ClientHistory} (hn : NoneRuns h) (hnew : ∀ e ∈ new, e.op ≠ .createTask) :
    NoneRuns (new ++ h) := by
  induction new with
  | nil => exact hn
  | cons e new ih =>
    obtain ⟨he, hnew⟩ := List.forall_mem_cons.mp hnew
    exact (ih hnew).cons he e.reply

theorem NoneRuns.peeked {h' : ClientHistory} (hn : NoneRuns h) (hpeek : Peeked h h') : NoneRuns h' := by
  obtain ⟨new, rfl, hnew⟩ := hpeek
  refine hn.append fun e he hop => ?_
  have he := hnew e he
  rw [hop] at he
  cases he

/-- A consumer that does not run has no task that may run. -/
theorem isRunning_spec (hh : InOrder h) : wp (clientExec env) NotificationCommandsSendVkConsumer.isRunning
    (fun r h' _ => InOrder h' ∧ attributesAfter h' = attributesAfter h ∧
      ∃ b, r = .ok b ∧ (b = false → NoneRuns h')) h () := by
  simp only [NotificationCommandsSendVkConsumer.isRunning, clientAwait, wp_bind, wp_perform, clientExec_attributes,
    andThen_ok]
  have hh₁ : InOrder (⟨.attributes, .ok (attributesAfter h)⟩ :: h) := hh.attributes _
  cases htask : (attributesAfter h).task with
  | none =>
    refine ⟨hh₁, rfl, false, rfl, fun _ t ht => (hh₁.tracked.tasks t ht).resolve_left fun hsome => ?_⟩
    have : none = some t := htask.symm.trans hsome
    cases this
  | some t =>
    obtain ⟨done, hdone⟩ := clientExec_looks env (⟨.attributes, .ok (attributesAfter h)⟩ :: h)
      (c := .taskDone t) rfl
    simp only [wp_bind, wp_perform, hdone, andThen_ok, pure_eq, wp_ret]
    have hh₂ := hh₁.cons (c := .taskDone t) rfl trivial (.ok done)
    refine ⟨hh₂, rfl, _, rfl, fun hnot t' ht' => ?_⟩
    rcases hh₂.tracked.tasks t' ht' with hsome | hended
    · have heq : some t = some t' := htask.symm.trans hsome
      cases heq
      rw [Bool.not_eq_false'] at hnot
      subst hnot
      exact .inr List.mem_cons_self
    · exact hended

/-- A new task is made when none may run, and is remembered. -/
theorem createTask_inOrder (hh : InOrder h) (hnone : NoneRuns h) : wp (clientExec env) (do
      let t ← clientAwait .createTask
      updateAttributes fun a => { a with task := some t }) (fun _ h' _ => InOrder h') h () := by
  simp only [clientAwait, wp_bind, wp_perform, clientExec_createTask, andThen_ok, wp_updateAttributes]
  refine ⟨.cons _ (.cons _ (.cons _ hh.traced hnone) trivial) trivial, ⟨fun n servers r hmem => ?_, fun t hmem => ?_⟩,
    fun n hn hconn => ?_⟩
  · have hmem : ⟨.connect n servers, r⟩ ∈ h := by simpa using hmem
    have := hh.tracked.fresh n servers r hmem
    simp only [made, List.countP_cons] at this ⊢
    omega
  · have hmem : t = made h ∨ ⟨.createTask, .ok t⟩ ∈ h := by simpa using hmem
    rcases hmem with rfl | hmem
    · exact .inl rfl
    · exact .inr (((hnone t hmem).cons _ _).cons _ _ |>.cons _ _)
  · refine hh.context n hn ?_
    obtain ⟨servers, hs⟩ := hconn
    exact ⟨servers, by simpa using hs⟩

theorem start_inOrder (hh : InOrder h) : wp (clientExec env)
    (NotificationCommandsSendVkConsumer.start settings) (fun _ h' _ => InOrder h') h () := by
  simp only [NotificationCommandsSendVkConsumer.start, wp_bind]
  refine wp_mono (isRunning_spec hh) fun r h₁ _ hr => ?_
  obtain ⟨hh₁, -, b, rfl, hnone⟩ := hr
  cases b with
  | true => exact hh₁
  | false =>
    have hnone := hnone rfl
    simp only [andThen_ok, Bool.false_eq_true, ↓reduceIte, wp_bind]
    refine wp_mono (getJetstream_usableContext hh₁) fun r h₂ _ hr => ?_
    obtain ⟨hh₂, hpeek, hr⟩ := hr
    cases r with
    | error e => exact hh₂
    | ok js =>
      rw [andThen_ok, wp_bind]
      refine wp_inOrder hh₂ rfl ?_ fun r _ hh₃ => ?_
      · exact hr js rfl
      · cases r with
        | error e => exact hh₃
        | ok u =>
          rw [andThen_ok, wp_bind]
          refine updateAttributes_inOrder hh₃ hh₃.context hh₃.tracked.tasks fun h₄ hh₄ _ heq => ?_
          subst heq
          refine createTask_inOrder hh₄ ?_
          exact (((hnone.peeked hpeek).cons (by simp) _).cons (by simp) _).cons (by simp) _

theorem step_inOrder (step : ClientStep) (hh : InOrder h) :
    wp (clientExec env) (step.prog settings) (fun _ h' _ => InOrder h') h () := by
  cases step with
  | connect => exact connect_inOrder hh
  | close => exact close_inOrder hh
  | setup => exact setup_inOrder hh
  | publish subject payload headers => exact publish_inOrder subject payload headers hh
  | start => exact start_inOrder hh
  | stop => exact stop_inOrder hh

theorem session_inOrder (steps : List ClientStep) (hh : InOrder h) :
    wp (clientExec env) (clientSession settings steps) (fun _ h' _ => InOrder h') h () := by
  induction steps generalizing h with
  | nil => exact hh
  | cons step steps ih =>
    simp only [clientSession, wp_bind, wp_attempt]
    exact wp_mono (step_inOrder step hh) fun r h₁ _ hh₁ => ih hh₁

/-- Whatever the broker answers, every call of a session is in order, and at most one task of it
may still run. -/
theorem clientSession_safe (settings : NatsClientSettings) (env : NatsEnvironment) (steps : List ClientStep) :
    let h := ((clientSession settings steps).run (clientExec env) [] ()).2.1
    (∀ later earlier e, h = later ++ e :: earlier → CallInOrder earlier e.op) ∧
      ∀ t t', ⟨.createTask, .ok t⟩ ∈ h → ⟨.createTask, .ok t'⟩ ∈ h → ¬ TaskEnded h t → ¬ TaskEnded h t' → t = t' := by
  have hh : InOrder ((clientSession settings steps).run (clientExec env) [] ()).2.1 := session_inOrder steps .nil
  refine ⟨fun later earlier e heq => ?_, fun t t' ht ht' hruns hruns' => ?_⟩
  · have htraced := hh.traced
    rw [heq] at htraced
    exact htraced.before
  · have hcurrent := (hh.tracked.tasks t ht).resolve_right hruns
    have hcurrent' := (hh.tracked.tasks t' ht').resolve_right hruns'
    exact Option.some.inj (hcurrent.symm.trans hcurrent')

end Steps
end VkService
