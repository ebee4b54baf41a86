import VkService.Effects.Weakest
import VkService.Text.PythonStr

/-! The process of the bot: what is checked before the long poll begins, and what is closed after it. -/
namespace VkService
open PyStr Effects Effects.Prog

/-- The settings that decide whether the bot can start. -/
structure BotSettings where
  vkGroupToken : Str
  vkGroupId : Int

def BotSettings.isTokenUsable (settings : BotSettings) : Bool :=
  let token := strip settings.vkGroupToken
  !token.isEmpty && !"<".toList.isPrefixOf token

inductive StopSignal where
  | sigterm | sigint
  deriving DecidableEq

inductive BotCall where
  | getLongPollServer (groupId : Int)
  | addSignalHandler (sig : StopSignal)
  | runPolling
  | closeDatabase
  deriving DecidableEq

abbrev BotCall.Reply : BotCall → Type := fun _ => Unit

/-- What is raised, by the classes that the code tells apart. -/
inductive BotExn where
  | vkApiError (code : Option Int) (text : Str)
  | preflightError (message : Str)
  | notImplementedError
  | runtimeError (n : Nat)
  | other (n : Nat)
  | keyboardInterrupt
  | cancelled
  deriving DecidableEq

/-- Caught by `except Exception`. -/
def BotExn.isException : BotExn → Bool
  | .keyboardInterrupt | .cancelled => false
  | _ => true

/-- Caught by `except NotImplementedError, RuntimeError`; a `PreflightError` is a `RuntimeError`. -/
def BotExn.lacksSignals : BotExn → Bool
  | .notImplementedError | .runtimeError _ | .preflightError _ => true
  | _ => false

abbrev BotPy (α : Type) := Prog BotCall BotCall.Reply BotExn α
abbrev botAwait (c : BotCall) : BotPy Unit := perform c
abbrev BotHistory := History BotCall BotCall.Reply BotExn

def groupIdRequiredMessage : Str :=
  ("VK_GROUP_ID is not set to a positive community id. " ++
    "Fill it in services/vk-service/.env before starting the bot runtime.").toList

def longpollAccessMessage : Str :=
  ("VK rejected groups.getLongPollServer. The community token needs BOTH the " ++
    "'messages' and the 'manage' (Управление сообществом) scopes, and Long Poll API " ++
    "must be enabled in the community settings " ++
    "(Управление -> Работа с API -> Long Poll API) with the message_new, " ++
    "message_allow and message_deny event types switched on. " ++
    "Re-issue the token with both scopes and restart the bot.").toList

def invalidTokenMessage : Str :=
  ("VK rejected the community token as invalid or expired. " ++
    "Re-issue VK_GROUP_TOKEN for the community and restart the bot.").toList

def accessDeniedCodes : List Int := [15, 100]
def invalidTokenCodes : List Int := [5, 27, 28]

def errorCodeText : Option Int → Str
  | some code => (toString code).toList
  | none => "None".toList

/-- What the preflight says about an error of VK. -/
def rejection (code : Option Int) (text : Str) : Str :=
  if code.any (invalidTokenCodes.contains ·) then
    invalidTokenMessage ++ " (VK error ".toList ++ errorCodeText code ++ ")".toList
  else if code.any (accessDeniedCodes.contains ·) then
    longpollAccessMessage ++ " (VK error ".toList ++ errorCodeText code ++ ")".toList
  else "VK rejected groups.getLongPollServer with error ".toList ++ errorCodeText code ++ ": ".toList ++ text

/-- The answer to the question for a long poll server. VK out of reach is no reason to stop. -/
def refusal : Except BotExn Unit → Except BotExn (Option Str)
  | .ok () => .ok none
  | .error (.vkApiError code text) => .ok (some (rejection code text))
  | .error e => if e.isException then .ok none else .error e

def preflight (settings : BotSettings) : BotPy (Option Str) :=
  if settings.vkGroupId ≤ 0 then pure (some groupIdRequiredMessage)
  else do
    let asked ← attempt (botAwait (.getLongPollServer settings.vkGroupId))
    ofExcept (refusal asked)

def installShutdownHandlers : List StopSignal → BotPy Unit
  | [] => pure ()
  | sig :: rest => do
    tryCatch (botAwait (.addSignalHandler sig)) fun e => if e.lacksSignals then pure () else throw e
    installShutdownHandlers rest

/-- `run` -/
def runBot (settings : BotSettings) : BotPy Unit := do
  match ← preflight settings with
  | some problem =>
    botAwait .closeDatabase
    throw (.preflightError problem)
  | none =>
    installShutdownHandlers [.sigterm, .sigint]
    let polled ← attempt (botAwait .runPolling)
    botAwait .closeDatabase
    ofExcept polled

def exitCode : Except BotExn Unit → Except BotExn Nat
  | .ok () => .ok 0
  | .error (.preflightError _) => .ok 1
  | .error .keyboardInterrupt => .ok 0
  | .error e => .error e

/-- `main` -/
def botMain (settings : BotSettings) : BotPy Nat :=
  if settings.isTokenUsable then do
    let ended ← attempt (runBot settings)
    ofExcept (exitCode ended)
  else pure 1

/-- What VK, the platform and the database answer. Only the bot raises a `PreflightError`. -/
structure BotEnvironment where
  reply : BotHistory → BotCall → Except BotExn Unit
  no_preflight : ∀ h c message, reply h c ≠ .error (.preflightError message)

def botExec (env : BotEnvironment) (h : BotHistory) (c : BotCall) (s : Unit) : Except BotExn c.Reply × Unit :=
  (env.reply h c, s)

/-- The bot did not raise this itself. -/
def Foreign (r : Except BotExn Unit) : Prop := ∀ message, r ≠ .error (.preflightError message)

/-- Everything a run of the bot can do. -/
inductive RunPath (settings : BotSettings) : BotHistory → Except BotExn Unit → Prop
  | ungrouped (closed : Except BotExn Unit) (hgroup : settings.vkGroupId ≤ 0) (hclosed : Foreign closed) :
      RunPath settings [⟨.closeDatabase, closed⟩] (closed.bind fun _ => .error (.preflightError groupIdRequiredMessage))
  | refused (code : Option Int) (text : Str) (closed : Except BotExn Unit) (hpos : 0 < settings.vkGroupId)
      (hclosed : Foreign closed) :
      RunPath settings [⟨.closeDatabase, closed⟩, ⟨.getLongPollServer settings.vkGroupId, .error (.vkApiError code text)⟩]
        (closed.bind fun _ => .error (.preflightError (rejection code text)))
  | interrupted (e : BotExn) (hpos : 0 < settings.vkGroupId) (he : e.isException = false) :
      RunPath settings [⟨.getLongPollServer settings.vkGroupId, .error e⟩] (.error e)
  | unsignalled (asked : Except BotExn Unit) (installed : BotHistory) (sig : StopSignal) (e : BotExn)
      (hpos : 0 < settings.vkGroupId) (hasked : refusal asked = .ok none)
      (hinstalled : ∀ x ∈ installed, ∃ sig, x.op = .addSignalHandler sig) (he : e.lacksSignals = false) :
      RunPath settings (⟨.addSignalHandler sig, .error e⟩ ::
        (installed ++ [⟨.getLongPollServer settings.vkGroupId, asked⟩])) (.error e)
  | served (asked : Except BotExn Unit) (installed : BotHistory) (polled closed : Except BotExn Unit)
      (hpos : 0 < settings.vkGroupId) (hasked : refusal asked = .ok none)
      (hinstalled : ∀ x ∈ installed, ∃ sig, x.op = .addSignalHandler sig) (hpolled : Foreign polled)
      (hclosed : Foreign closed) :
      RunPath settings (⟨.closeDatabase, closed⟩ :: ⟨.runPolling, polled⟩ ::
        (installed ++ [⟨.getLongPollServer settings.vkGroupId, asked⟩])) (closed.bind fun _ => polled)

section Steps
variable {settings : BotSettings} {env : BotEnvironment} {h : BotHistory} {s : Unit}

theorem installShutdownHandlers_wp (signals : List StopSignal) {Φ : Except BotExn Unit → BotHistory → Unit → Prop}
    (hok : ∀ installed : BotHistory, (∀ x ∈ installed, ∃ sig, x.op = .addSignalHandler sig) →
      Φ (.ok ()) (installed ++ h) s)
    (herror : ∀ (installed : BotHistory) sig e, (∀ x ∈ installed, ∃ sig, x.op = .addSignalHandler sig) →
      e.lacksSignals = false → Φ (.error e) (⟨.addSignalHandler sig, .error e⟩ :: (installed ++ h)) s) :
    wp (botExec env) (installShutdownHandlers signals) Φ h s := by
  induction signals generalizing h with
  | nil => exact hok [] (by simp)
  | cons sig rest ih =>
    -- what the rest of the loop does once this signal is dealt with
    have hrest : ∀ res, wp (botExec env) (installShutdownHandlers rest) Φ (⟨.addSignalHandler sig, res⟩ :: h) s := by
      intro res
      have hlast : ∀ x ∈ ([⟨.addSignalHandler sig, res⟩] : BotHistory), ∃ sig, x.op = .addSignalHandler sig :=
        fun x hx => ⟨sig, by rw [List.mem_singleton.mp hx]⟩
      refine ih (fun installed hinstalled => ?_) fun installed sig' e hinstalled he => ?_
      · have hall := hok (installed ++ [⟨.addSignalHandler sig, res⟩]) (List.forall_mem_append.mpr ⟨hinstalled, hlast⟩)
        rwa [List.append_assoc] at hall
      · have hall := herror (installed ++ [⟨.addSignalHandler sig, res⟩]) sig' e
          (List.forall_mem_append.mpr ⟨hinstalled, hlast⟩) he
        rwa [List.append_assoc] at hall
    rw [installShutdownHandlers, wp_bind, wp_tryCatch, wp_perform]
    generalize (botExec env h (.addSignalHandler sig) s).1 = res
    cases res with
    | ok u => exact hrest (.ok u)
    | error e =>
      rw [orElse_error]
      split
      · exact hrest (.error e)
      · rename_i he
        exact herror [] sig e (by simp) (Bool.eq_false_iff.mpr he)

/-- `refusal` tells the three answers apart. -/
theorem refusal_cases (asked : Except BotExn Unit) :
    refusal asked = .ok none ∨ (∃ code text, asked = .error (.vkApiError code text)) ∨
      ∃ e, asked = .error e ∧ e.isException = false ∧ refusal asked = .error e := by
  cases asked with
  | ok u => exact .inl rfl
  | error e =>
    cases e with
    | vkApiError code text => exact .inr (.inl ⟨code, text, rfl⟩)
    | keyboardInterrupt => exact .inr (.inr ⟨_, rfl, rfl, rfl⟩)
    | cancelled => exact .inr (.inr ⟨_, rfl, rfl, rfl⟩)
    | _ => exact .inl rfl

theorem closed_wp {r : Except BotExn Unit} {Φ : Except BotExn Unit → BotHistory → Unit → Prop}
    (hΦ : ∀ closed, Foreign closed → Φ (closed.bind fun _ => r) (⟨.closeDatabase, closed⟩ :: h) s) :
    wp (botExec env) (do botAwait .closeDatabase; ofExcept r) Φ h s := by
  have hclosed := hΦ (env.reply h .closeDatabase) (env.no_preflight h .closeDatabase)
  rw [wp_bind, wp_perform]
  simp only [botExec]
  revert hclosed
  generalize env.reply h .closeDatabase = closed
  intro hclosed
  cases closed with
  | ok u =>
    rw [andThen_ok, wp_ofExcept]
    exact hclosed
  | error e => exact hclosed

theorem runBot_path : wp (botExec env) (runBot settings) (fun r h _ => RunPath settings h r) [] s := by
  unfold runBot preflight
  split
  · rename_i hgroup
    exact closed_wp (r := .error (.preflightError groupIdRequiredMessage)) fun closed hclosed =>
      .ungrouped closed hgroup hclosed
  · rename_i hgroup
    have hpos : 0 < settings.vkGroupId := Int.not_le.mp hgroup
    simp only [wp_bind, wp_attempt, wp_perform, andThen_ok, wp_ofExcept]
    generalize (botExec env [] (.getLongPollServer settings.vkGroupId) s).1 = asked
    rcases refusal_cases asked with hasked | ⟨code, text, rfl⟩ | ⟨e, rfl, he, hraised⟩
    · rw [hasked, andThen_ok, wp_bind]
      refine installShutdownHandlers_wp _ (fun installed hinstalled => ?_) fun installed sig e hinstalled he =>
        .unsignalled asked installed sig e hpos hasked hinstalled he
      rw [andThen_ok, wp_bind, wp_attempt, wp_perform, andThen_ok]
      exact closed_wp fun closed hclosed => .served asked installed _ closed hpos hasked hinstalled
        (env.no_preflight _ _) hclosed
    · have hproblem : refusal (.error (.vkApiError code text)) = .ok (some (rejection code text)) := rfl
      rw [hproblem, andThen_ok]
      exact closed_wp (r := .error (.preflightError (rejection code text))) fun closed hclosed =>
        .refused code text closed hpos hclosed
    · rw [hraised]
      exact .interrupted e hpos he

end Steps

/-- Calls before the long poll. -/
def BotCall.prepares : BotCall → Bool
  | .getLongPollServer _ | .addSignalHandler _ => true
  | .runPolling | .closeDatabase => false

def Prepared (h : BotHistory) : Prop := ∀ x ∈ h, x.op.prepares = true

/-- VK refused the long poll with an error of its own. -/
def Refused (settings : BotSettings) (h : BotHistory) : Prop :=
  ∃ code text, ⟨.getLongPollServer settings.vkGroupId, .error (.vkApiError code text)⟩ ∈ h

/-- The history and the exit of a run of the process. -/
structure BotEnd (settings : BotSettings) (h : BotHistory) (r : Except BotExn Nat) : Prop where
  idle : settings.isTokenUsable = false → h = []
  polls : ∀ polled, ⟨.runPolling, polled⟩ ∈ h → 0 < settings.vkGroupId ∧ ¬ Refused settings h ∧
    ∃ closed earlier, h = ⟨.closeDatabase, closed⟩ :: ⟨.runPolling, polled⟩ :: earlier ∧ Prepared earlier
  stops : settings.isTokenUsable = true → settings.vkGroupId ≤ 0 ∨ Refused settings h →
    ∃ closed earlier, h = ⟨.closeDatabase, closed⟩ :: earlier ∧ Prepared earlier
  leaves : settings.isTokenUsable = true → (∀ closed, ⟨.closeDatabase, closed⟩ ∉ h) →
    Prepared h ∧ ∃ op e earlier, h = ⟨op, .error e⟩ :: earlier ∧ r = exitCode (.error e)
  exit_one : r = .ok 1 ↔ settings.isTokenUsable = false ∨
    (settings.vkGroupId ≤ 0 ∨ Refused settings h) ∧ ⟨.closeDatabase, .ok ()⟩ ∈ h

section Ends
variable {settings : BotSettings} {asked closed polled : Except BotExn Unit} {installed : BotHistory}

theorem exitCode_foreign {r : Except BotExn Unit} (hr : Foreign r) : exitCode r ≠ .ok 1 := by
  cases r with
  | ok u => simp [exitCode]
  | error e =>
    cases e with
    | preflightError message => exact absurd rfl (hr message)
    | _ => simp [exitCode]

theorem Foreign.bind {r : Except BotExn Unit} (hclosed : Foreign closed) (hr : Foreign r) :
    Foreign (closed.bind fun _ => r) := by
  cases closed with
  | ok u => exact hr
  | error e => exact hclosed

/-- A problem that was found is the exit, unless the database does not close. -/
theorem exitCode_problem {problem : Str} (hclosed : Foreign closed) :
    exitCode (closed.bind fun _ => .error (.preflightError problem)) = .ok 1 ↔ closed = .ok () := by
  cases closed with
  | ok u => exact iff_of_true rfl rfl
  | error e => exact iff_of_false (exitCode_foreign hclosed) (by simp)

theorem prepared_of_installed (hinstalled : ∀ x ∈ installed, ∃ sig, x.op = .addSignalHandler sig) :
    Prepared (installed ++ [⟨.getLongPollServer settings.vkGroupId, asked⟩]) := by
  intro x hx
  rcases List.mem_append.mp hx with hx | hx
  · obtain ⟨sig, hop⟩ := hinstalled x hx
    rw [hop]
    rfl
  · rw [List.mem_singleton.mp hx]
    rfl

theorem Prepared.not_mem {h : BotHistory} (hprepared : Prepared h) {c : BotCall} (hc : c.prepares = false)
    (r : Except BotExn Unit) : ⟨c, r⟩ ∉ h := fun hmem => by
  have hcall := hprepared _ hmem
  rw [hc] at hcall
  cases hcall

/-- An answer that is no refusal is the only one there is. -/
theorem not_refused (hasked : refusal asked = .ok none)
    (hinstalled : ∀ x ∈ installed, ∃ sig, x.op = .addSignalHandler sig) (later : BotHistory)
    (hlater : ∀ x ∈ later, ∀ group, x.op ≠ .getLongPollServer group) :
    ¬ Refused settings (later ++ (installed ++ [⟨.getLongPollServer settings.vkGroupId, asked⟩])) := by
  rintro ⟨code, text, hmem⟩
  rcases List.mem_append.mp hmem with hmem | hmem
  · exact hlater _ hmem _ rfl
  rcases List.mem_append.mp hmem with hmem | hmem
  · obtain ⟨sig, hop⟩ := hinstalled _ hmem
    cases hop
  · obtain rfl : asked = .error (.vkApiError code text) := by simpa using (List.mem_singleton.mp hmem).symm
    simp [refusal] at hasked

/-- A run that an exception ends in its preparation. -/
theorem BotEnd.cut (husable : settings.isTokenUsable = true) (hpos : 0 < settings.vkGroupId) {op : BotCall} {e : BotExn}
    {earlier : BotHistory} (hprepared : Prepared (⟨op, .error e⟩ :: earlier))
    (hrefused : ¬ Refused settings (⟨op, .error e⟩ :: earlier)) (hforeign : Foreign (.error e)) :
    BotEnd settings (⟨op, .error e⟩ :: earlier) (exitCode (.error e)) := by
  have hproblem : ¬ (settings.vkGroupId ≤ 0 ∨ Refused settings (⟨op, .error e⟩ :: earlier)) :=
    not_or.mpr ⟨Int.not_le.mpr hpos, hrefused⟩
  refine ⟨fun hunusable => by simp [husable] at hunusable, fun polled hmem => absurd hmem (hprepared.not_mem rfl _),
    fun _ h => absurd h hproblem, fun _ _ => ⟨hprepared, op, e, earlier, rfl, rfl⟩, ?_⟩
  exact iff_of_false (exitCode_foreign hforeign) fun hone => hproblem (hone.resolve_left (by simp [husable])).1

theorem RunPath.ends {h : BotHistory} {r : Except BotExn Unit} (hpath : RunPath settings h r)
    (husable : settings.isTokenUsable = true) : BotEnd settings h (exitCode r) := by
  have hidle : settings.isTokenUsable = false → h = [] := fun hunusable => by simp [husable] at hunusable
  cases hpath with
  | ungrouped closed hgroup hclosed =>
    refine ⟨hidle, fun polled hmem => by simp at hmem, fun _ _ => ⟨closed, [], rfl, by simp [Prepared]⟩,
      fun _ hopen => absurd (List.mem_singleton_self _) (hopen closed), ?_⟩
    rw [exitCode_problem hclosed]
    simp [husable, hgroup, eq_comm]
  | refused code text closed hpos hclosed =>
    refine ⟨hidle, fun polled hmem => by simp at hmem, fun _ _ => ⟨closed, _, rfl, by simp [Prepared, BotCall.prepares]⟩,
      fun _ hopen => absurd List.mem_cons_self (hopen closed), ?_⟩
    have hrefused : Refused settings [⟨.closeDatabase, closed⟩,
      ⟨.getLongPollServer settings.vkGroupId, .error (.vkApiError code text)⟩] := ⟨code, text, by simp⟩
    rw [exitCode_problem hclosed]
    simp [husable, hrefused, eq_comm]
  | interrupted e hpos he =>
    refine BotEnd.cut husable hpos (by simp [Prepared, BotCall.prepares]) ?_ fun message heq => ?_
    · rintro ⟨code, text, hmem⟩
      obtain rfl : e = .vkApiError code text := by simpa using (List.mem_singleton.mp hmem).symm
      cases he
    · rw [Except.error.inj heq] at he
      cases he
  | unsignalled asked installed sig e hpos hasked hinstalled he =>
    refine BotEnd.cut husable hpos (List.forall_mem_cons.mpr
      ⟨rfl, prepared_of_installed hinstalled⟩) ?_ fun message heq => ?_
    · exact not_refused hasked hinstalled [⟨.addSignalHandler sig, .error e⟩] (by simp)
    · rw [Except.error.inj heq] at he
      cases he
  | served asked installed polled closed hpos hasked hinstalled hpolled hclosed =>
    have hprepared : Prepared (installed ++ [⟨.getLongPollServer settings.vkGroupId, asked⟩]) :=
      prepared_of_installed hinstalled
    have hrefused : ¬ Refused settings (⟨.closeDatabase, closed⟩ :: ⟨.runPolling, polled⟩ ::
        (installed ++ [⟨.getLongPollServer settings.vkGroupId, asked⟩])) :=
      not_refused hasked hinstalled [⟨.closeDatabase, closed⟩, ⟨.runPolling, polled⟩] (by simp)
    refine ⟨hidle, fun polled' hmem => ⟨hpos, hrefused, closed, _, ?_, hprepared⟩,
      fun _ hproblem => absurd hproblem (not_or.mpr ⟨Int.not_le.mpr hpos, hrefused⟩),
      fun _ hopen => absurd List.mem_cons_self (hopen closed), ?_⟩
    · have hpoll : polled' = polled := by
        rcases List.mem_cons.mp hmem with heq | hmem
        · cases heq
        rcases List.mem_cons.mp hmem with heq | hmem
        · simpa using heq
        · exact absurd hmem (hprepared.not_mem rfl _)
      rw [hpoll]
    · exact iff_of_false (exitCode_foreign (hclosed.bind hpolled)) fun hone =>
        absurd (hone.resolve_left (by simp [husable])).1 (not_or.mpr ⟨Int.not_le.mpr hpos, hrefused⟩)

end Ends

/-- The bot polls only with a usable token, a group and no refusal of VK, and closes the database
after it; its exit code is 1 exactly when it found a reason not to start. -/
theorem bot_lifetime (settings : BotSettings) (env : BotEnvironment) :
    let out := (botMain settings).run (botExec env) [] ()
    BotEnd settings out.2.1 out.1 := by
  suffices hrun : wp (botExec env) (botMain settings) (fun r h _ => BotEnd settings h r) [] () from hrun
  unfold botMain
  split
  · rename_i husable
    rw [wp_bind, wp_attempt]
    refine wp_mono runBot_path fun r h s hpath => ?_
    rw [andThen_ok, wp_ofExcept]
    exact hpath.ends husable
  · rename_i husable
    have hunusable : settings.isTokenUsable = false := Bool.eq_false_iff.mpr husable
    exact ⟨fun _ => rfl, fun polled hmem => absurd hmem List.not_mem_nil, fun h => absurd h husable,
      fun h => absurd h husable, iff_of_true rfl (.inl hunusable)⟩

/-- Everything answers, except that VK is asked for a long poll with an answer of its own. -/
private def answeringBot (asked : Except BotExn Unit) (hasked : Foreign asked) : BotEnvironment where
  reply _ c := match c with
    | .getLongPollServer _ => asked
    | _ => .ok ()
  no_preflight h c := by
    cases c with
    | getLongPollServer group => exact hasked
    | _ => exact fun message heq => by cases heq

-- an expired token is found out before the long poll, and VK out of reach is not waited for
example : ((botMain ⟨"token".toList, 5⟩).run (botExec (answeringBot (.error (.vkApiError (some 5) []))
    fun _ h => by cases h)) [] ()).1 = .ok 1 := by decide
example : ((botMain ⟨"token".toList, 5⟩).run (botExec (answeringBot (.error (.other 0)) fun _ h => by cases h)) [] ()).1 =
    .ok 0 := by decide

end VkService
