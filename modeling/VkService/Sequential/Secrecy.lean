import VkService.Domain.Changes
import VkService.Promises.Requests
import VkService.Sequential.Journal
import VkService.Sequential.Pairs

/-! Two runs that differ in the codes only. The services compare codes and show their mask,
so the journal, the bindings and the way each request ends are the same in both. -/
namespace VkService
open PyStr Effects Effects.Prog UserVkRepository VkConfirmationRepository

/-- A renaming of codes that keeps what the mask of a code shows. -/
structure Recoding where
  code : Str → Str
  injective : Function.Injective code
  length_eq : ∀ c, (code c).length = c.length
  take_two : ∀ c, (code c).take 2 = c.take 2

def VkConfirmation.recode (σ : Recoding) (c : VkConfirmation) : VkConfirmation := { c with code := σ.code c.code }

def Tables.recode (σ : Recoding) (T : Tables) : Tables :=
  { T with vkConfirmations := T.vkConfirmations.map (·.recode σ) }

def Session.recode (σ : Recoding) (s : Session) : Session := ⟨s.committed.recode σ, s.working.recode σ⟩

def Answer.recode (σ : Recoding) : Answer → Answer
  | .issued i => .issued { i with code := σ.code i.code }
  | a => a

/-- The same request, but for the code that is presented. -/
inductive Request.Recoded (σ : Recoding) : Request → Request → Prop
  | confirm {code code' : Str} (h : normalizeCode code' = σ.code (normalizeCode code)) (vkPeerId : PeerId)
      (screenName displayName : Option String) :
      Recoded σ (.confirm code vkPeerId screenName displayName) (.confirm code' vkPeerId screenName displayName)
  | other {request : Request} (h : request.IsOther) : Recoded σ request request

/-- Codes are drawn at this place of the run. -/
def DrawsAt (h : CallHistory) (n : Nat) : Prop :=
  ∃ later length reply earlier, h = later ++ ⟨.choices length, reply⟩ :: earlier ∧ earlier.length = n

/-- Two visits that differ in the presented and in the produced codes at most. -/
structure SameButCodes (settings : VkSettings) (σ : Recoding) (T : Tables) (v v' : Visit) : Prop where
  request : v.request.Recoded σ v'.request
  world : ∀ n, ∃ draws, v'.world n = { v.world n with draws := draws }
  drawn : ∀ n, DrawsAt (serve settings T v).2.1 n →
    drawnCode settings (v'.world n) = σ.code (drawnCode settings (v.world n))

/-- Two runs that differ in the codes only. -/
inductive RunsSameButCodes (settings : VkSettings) (σ : Recoding) : Tables → List Visit → List Visit → Prop
  | nil (T : Tables) : RunsSameButCodes settings σ T [] []
  | cons {T : Tables} {v v' : Visit} {vs vs' : List Visit} (h : SameButCodes settings σ T v v')
      (hrest : RunsSameButCodes settings σ (serve settings T v).2.2 vs vs') :
      RunsSameButCodes settings σ T (v :: vs) (v' :: vs')

/-- The calls that neither take a code nor give one. -/
def Call.codeFree : Call → Bool
  | .choices _ | .confirmationCreate .. | .confirmationGetByCode _ => false
  | _ => true

section Calls
variable (σ : Recoding) (w : World) (draws : Nat → Fin 32) (s : Session)

theorem maskCode_recode (c : Str) : maskCode (σ.code c) = maskCode c := by
  rw [maskCode, maskCode, σ.take_two, σ.length_eq]

theorem newIds_recode : (s.recode σ).newIds { w with draws := draws } = s.newIds w := by
  have hids : (s.recode σ).working.vkConfirmations.map (·.id) = s.working.vkConfirmations.map (·.id) :=
    List.map_map
  simp only [Session.newIds, hids]
  rfl

/-- An update that does not look at the codes. -/
theorem apply_recode_update {p : VkConfirmation → Bool} {f : VkConfirmation → VkConfirmation}
    (hp : ∀ c, p (c.recode σ) = p c) (hf : ∀ c, f (c.recode σ) = (f c).recode σ) :
    (s.recode σ).apply (.updateVkConfirmation p f) = (s.apply (.updateVkConfirmation p f)).recode σ := by
  have hrows : (s.recode σ).working.vkConfirmations.map (fun c => if p c then f c else c) =
      (s.working.vkConfirmations.map fun c => if p c then f c else c).map (·.recode σ) := by
    simp only [Session.recode, Tables.recode, List.map_map]
    refine List.map_congr_left fun c _ => ?_
    simp only [Function.comp_apply, hp, hf]
    split <;> rfl
  simp only [Session.apply, Change.apply, hrows]
  rfl

theorem answer_recode (ids : NewIds) (T : Tables) {c : Call} (hc : c.codeFree = true) :
    answer { w with draws := draws } ids (T.recode σ) c = answer w ids T c := by
  cases c with
  | choices | confirmationCreate | confirmationGetByCode => cases hc
  | confirmationInvalidatePrevious userVkId =>
    simp only [answer, invalidatePrevious, Tables.recode, List.countP_map]
    rfl
  | _ => rfl

/-- A call without codes replies the same and changes the same. -/
theorem exec_recode {c : Call} (hc : c.codeFree = true) :
    (s.recode σ).exec { w with draws := draws } c = ((s.exec w c).1, (s.exec w c).2.recode σ) := by
  have happly : (s.recode σ).apply (answer w (s.newIds w) s.working c).2 =
      (s.apply (answer w (s.newIds w) s.working c).2).recode σ := by
    have hasks := answer_asks w (s.newIds w) s.working c
    generalize (answer w (s.newIds w) s.working c).1 = r at hasks
    generalize (answer w (s.newIds w) s.working c).2 = change at hasks ⊢
    cases hasks with
    | codeCreated => cases hc
    | markedUsed | invalidated => exact apply_recode_update σ s (fun _ => rfl) fun _ => rfl
    | _ => rfl
  have hanswer := answer_recode σ w draws (s.newIds w) s.working hc
  simp only [Session.exec, newIds_recode]
  rw [show (s.recode σ).working = s.working.recode σ from rfl, hanswer, happly]

theorem filter_recode (code : Str) (codes : List VkConfirmation) :
    (codes.map (·.recode σ)).filter (·.code == σ.code code) = (codes.filter (·.code == code)).map (·.recode σ) := by
  rw [List.filter_map]
  refine congrArg _ (List.filter_congr fun c _ => ?_)
  simp [VkConfirmation.recode, σ.injective.eq_iff]

theorem oneOrNone_recode (codes : List VkConfirmation) :
    oneOrNone (codes.map (·.recode σ)) = (oneOrNone codes).map (Option.map (·.recode σ)) := by
  match codes with
  | [] => rfl
  | [_] => rfl
  | _ :: _ :: _ => rfl

theorem exec_getByCode_recode (code : Str) :
    (s.recode σ).exec { w with draws := draws } (.confirmationGetByCode (σ.code code)) =
      ((s.exec w (.confirmationGetByCode code)).1.map (Option.map (·.recode σ)),
        (s.exec w (.confirmationGetByCode code)).2.recode σ) := by
  simp only [Session.exec, answer, getByCode]
  rw [← oneOrNone_recode, ← filter_recode]
  rfl

theorem exec_create_recode (userVkId : UUID) (code : Str) (expiresAt : Time) :
    (s.recode σ).exec { w with draws := draws } (.confirmationCreate userVkId (σ.code code) expiresAt) =
      ((s.exec w (.confirmationCreate userVkId code expiresAt)).1.map (·.recode σ),
        (s.exec w (.confirmationCreate userVkId code expiresAt)).2.recode σ) := by
  have htaken : (s.recode σ).working.vkConfirmations.any (·.code == σ.code code) =
      s.working.vkConfirmations.any (·.code == code) := by
    simp only [Session.recode, Tables.recode, List.any_map]
    refine congrArg _ (funext fun c => ?_)
    simp [VkConfirmation.recode, σ.injective.eq_iff]
  have hrows : (s.recode σ).working.userVks = s.working.userVks := rfl
  simp only [Session.exec, newIds_recode, answer, VkConfirmationRepository.create, htaken, hrows]
  split
  · rfl
  · simp [Session.apply, Change.apply, Session.recode, Tables.recode, VkConfirmation.recode, Except.map]

end Calls

/-- A place where codes are drawn stays one. -/
theorem DrawsAt.append {h : CallHistory} {n : Nat} (hn : DrawsAt h n) (new : CallHistory) : DrawsAt (new ++ h) n := by
  obtain ⟨later, length, reply, earlier, rfl, hlen⟩ := hn
  exact ⟨new ++ later, length, reply, earlier, by simp, hlen⟩

/-- A visit and its twin: the codes are renamed, everything else is the same. -/
def twins (settings : VkSettings) (σ : Recoding) (o o' : Surroundings) :
    Pairing Call Call.Reply Exn Session Session where
  left := handler fun h => o h.length
  right := handler fun h => o' h.length
  Fair h := ∀ n, DrawsAt h n → drawnCode settings (o' n) = σ.code (drawnCode settings (o n))
  fair_of_append new _ hfair n hn := hfair n (hn.append new)
  Related h s h' s' := h'.length = h.length ∧ s' = s.recode σ

section Coupling
variable {settings : VkSettings} {σ : Recoding} {o o' : Surroundings}
  (hworld : ∀ n, ∃ draws, o' n = { o n with draws := draws })
include hworld

/-- Calls whose second run is the renamed first one. -/
private theorem agree_of_exec {c c' : Call} {U : c.Reply → c'.Reply → Prop} {f : c.Reply → c'.Reply}
    (hexec : ∀ w draws (s : Session), (s.recode σ).exec { w with draws := draws } c' =
      ((s.exec w c).1.map f, (s.exec w c).2.recode σ)) (hU : ∀ a, U a (f a)) :
    (twins settings σ o o').Agree c c' U := by
  rintro h s h' _ ⟨hlen, rfl⟩ -
  obtain ⟨draws, hdraws⟩ := hworld h.length
  have hright : (twins settings σ o o').right h' c' (s.recode σ) =
      ((s.exec (o h.length) c).1.map f, (s.exec (o h.length) c).2.recode σ) := by
    simp only [twins, handler, hlen, hdraws, hexec]
  rw [hright]
  refine ⟨?_, by simp [hlen], rfl⟩
  change Alike U (s.exec (o h.length) c).1 ((s.exec (o h.length) c).1.map f)
  cases (s.exec (o h.length) c).1 with
  | ok a => exact .ok (hU a)
  | error e => exact .error e

theorem agree_codeFree (c : Call) (hc : c.codeFree = true) :
    (twins settings σ o o').Agree c c Eq := by
  refine agree_of_exec hworld (f := id) (fun w draws s => ?_) fun _ => rfl
  rw [exec_recode σ w draws s hc]
  cases (s.exec w c).1 <;> rfl

theorem agree_getByCode (code : Str) :
    (twins settings σ o o').Agree (.confirmationGetByCode code) (.confirmationGetByCode (σ.code code))
      fun c c' => c' = c.map (·.recode σ) :=
  agree_of_exec hworld (fun w draws s => exec_getByCode_recode σ w draws s code) fun _ => rfl

theorem agree_create (userVkId : UUID) (code : Str) (expiresAt : Time) :
    (twins settings σ o o').Agree (.confirmationCreate userVkId code expiresAt)
      (.confirmationCreate userVkId (σ.code code) expiresAt) fun c c' => c' = c.recode σ :=
  agree_of_exec hworld (fun w draws s => exec_create_recode σ w draws s userVkId code expiresAt) fun _ => rfl

/-- A program without codes is its own twin. -/
theorem coupled_codeFree {α : Type} {p : Py α} {h : CallHistory}
    (hp : Conforms (fun _ c => c.codeFree = true) (fun _ _ => True) h p) : (twins settings σ o o').Coupled Eq p p :=
  .self (agree_codeFree hworld) hp

omit hworld in
theorem coupled_generateCode : (twins settings σ o o').Coupled (fun code code' => code' = σ.code code)
    (generateCode settings.vkConfirmationCodeLength) (generateCode settings.vkConfirmationCodeLength) := by
  unfold generateCode
  split
  · exact .raise _
  · refine .bind (.perform (U := fun d d' => List.ofFn (fun i => codeLetter (d' i)) =
      σ.code (List.ofFn fun i => codeLetter (d i))) ?_) fun d d' hd => .ret hd
    rintro h s h' _ ⟨hlen, rfl⟩ hfair
    refine ⟨.ok ?_, by simp [hlen], rfl⟩
    dsimp only
    rw [hlen]
    exact hfair h.length ⟨[], _, _, h, rfl, rfl⟩

theorem coupled_createUniqueCode (attempts : Nat) :
    (twins settings σ o o').Coupled (fun code code' => code' = σ.code code)
      (createUniqueCode settings.vkConfirmationCodeLength attempts)
      (createUniqueCode settings.vkConfirmationCodeLength attempts) := by
  induction attempts with
  | zero => exact .raise _
  | succ attempts ih =>
    refine .bind (coupled_generateCode) ?_
    rintro code _ rfl
    refine .bind (.perform (agree_getByCode hworld code)) ?_
    rintro found _ rfl
    cases found with
    | none => exact .ret rfl
    | some c => exact ih

omit hworld in
private theorem ensureBinding_codeFree (userId : UUID) :
    Conforms (fun _ c => c.codeFree = true) (fun _ _ => True) [] (ensureBinding userId) := by
  refine .perform_bind rfl (fun found => ?_) fun _ => trivial
  cases found with
  | some b => trivial
  | none =>
    refine ⟨rfl, fun reply => ?_⟩
    cases reply with
    | ok b => trivial
    | error e =>
      cases e with
      | alreadyExists message =>
        refine .perform_bind rfl (fun found => ?_) fun _ => trivial
        cases found <;> trivial
      | _ => trivial

theorem coupled_issueConfirmation (userId : UUID) : (twins settings σ o o').Coupled
    (fun i i' => i' = { i with code := σ.code i.code }) (issueConfirmation settings userId)
    (issueConfirmation settings userId) := by
  refine .bind (coupled_codeFree hworld (ensureBinding_codeFree userId)) ?_
  rintro ⟨b, created⟩ _ rfl
  dsimp only
  cases b.state with
  | active => exact .bind (.perform (agree_codeFree hworld _ rfl)) fun _ _ _ => .raise _
  | blocked => exact .bind (.perform (agree_codeFree hworld _ rfl)) fun _ _ _ => .raise _
  | pending =>
    refine .bind (.perform (agree_codeFree hworld _ rfl)) fun _ _ _ => ?_
    refine .bind (coupled_createUniqueCode hworld _) ?_
    rintro code _ rfl
    refine .bind (.perform (agree_codeFree hworld _ rfl)) ?_
    rintro now _ rfl
    refine .bind (.perform (agree_create hworld _ _ _)) ?_
    rintro c _ rfl
    rw [maskCode_recode]
    exact .bind (.perform (agree_codeFree hworld _ rfl)) fun _ _ _ => .ret rfl

omit hworld in
private theorem enforceRateLimit_codeFree (vkPeerId : PeerId) (masked : String) :
    Conforms (fun _ c => c.codeFree = true) (fun _ _ => True) [] (enforceRateLimit settings vkPeerId masked) := by
  refine .perform_bind rfl (fun t => ?_) fun _ => trivial
  refine .perform_bind rfl (fun n => ?_) fun _ => trivial
  split
  · refine ⟨rfl, fun reply => ?_⟩
    cases reply <;> trivial
  · trivial

omit hworld in
private theorem logConfirmation_codeFree {α : Type} (status : LogStatus) (vkPeerId : PeerId) (details : Details)
    (r : Except Exn α) (h : CallHistory) : Conforms (fun _ c => c.codeFree = true) (fun _ _ => True) h
      (do logConfirmation status vkPeerId details; ofExcept r) := by
  refine ⟨rfl, fun reply => ?_⟩
  cases reply <;> cases r <;> trivial

omit hworld in
private theorem activateConfirmed_codeFree (c : VkConfirmation) (b : UserVk) (masked : String) (vkPeerId : PeerId)
    (sn dn : Option String) (h : CallHistory) : Conforms (fun _ c => c.codeFree = true) (fun _ _ => True) h
      (activateConfirmed c b masked vkPeerId sn dn) := by
  refine ⟨rfl, fun reply => ?_⟩
  cases reply with
  | ok row =>
    refine .perform_bind rfl (fun _ => ?_) fun _ => trivial
    exact logConfirmation_codeFree _ _ _ (.ok _) _
  | error e =>
    cases e with
    | alreadyExists message =>
      refine ⟨rfl, fun reply => ?_⟩
      cases reply <;> trivial
    | _ => trivial

/-- Of a found code only its binding, its times and its mask are used. -/
theorem coupled_confirm {code code' : Str} (hcode : normalizeCode code' = σ.code (normalizeCode code))
    (vkPeerId : PeerId) (sn dn : Option String) : (twins settings σ o o').Coupled Eq
      (confirm settings code vkPeerId sn dn) (confirm settings code' vkPeerId sn dn) := by
  unfold confirm
  dsimp only
  rw [hcode, maskCode_recode]
  refine .bind (coupled_codeFree hworld (enforceRateLimit_codeFree vkPeerId _)) fun _ _ _ => ?_
  refine .bind (.perform (agree_getByCode hworld (normalizeCode code))) ?_
  rintro found _ rfl
  cases found with
  | none => exact coupled_codeFree hworld (logConfirmation_codeFree _ _ _ (.error _) [])
  | some c =>
    refine coupled_codeFree hworld (h := []) ?_
    refine .perform_bind rfl (fun b => ?_) fun _ => trivial
    split
    · split
      · exact logConfirmation_codeFree _ _ _ (.ok _) _
      · exact logConfirmation_codeFree _ _ _ (.error _) _
    · refine .perform_bind rfl (fun t => ?_) fun _ => trivial
      split
      · exact logConfirmation_codeFree _ _ _ (.error _) _
      · cases b with
        | none => exact logConfirmation_codeFree _ _ _ (.error _) _
        | some b =>
          dsimp only
          split
          · exact logConfirmation_codeFree _ _ _ (.error _) _
          · refine .perform_bind rfl (fun q => ?_) fun _ => trivial
            split
            · exact logConfirmation_codeFree _ _ _ (.error _) _
            · exact activateConfirmed_codeFree _ _ _ _ _ _ _

private theorem coupled_session {α α' : Type} {V : α → α' → Prop} {body : Py α} {body' : Py α'}
    (hbody : (twins settings σ o o').Coupled V body body') :
    (twins settings σ o o').Coupled V (getSession body) (getSession body') :=
  coupled_getSession (agree_codeFree hworld _ rfl) (agree_codeFree hworld _ rfl) (agree_codeFree hworld _ rfl) hbody

private theorem coupled_commit : (twins settings σ o o').Coupled Eq botCommit botCommit :=
  coupled_botCommit (agree_codeFree hworld _ rfl) (agree_codeFree hworld _ rfl)

theorem coupled_transition (vkPeerId : PeerId) (state : BindingState) (action : LogAction) :
    (twins settings σ o o').Coupled (fun a a' => a' = a.recode σ)
      (do let done ← transition vkPeerId state action; botCommit; pure (Answer.transitioned done))
      (do let done ← transition vkPeerId state action; botCommit; pure (Answer.transitioned done)) := by
  refine .bind (coupled_codeFree hworld (h := []) ?_) ?_
  · refine .perform_bind rfl (fun found => ?_) fun _ => trivial
    cases found with
    | none => exact .perform_bind rfl (fun _ => trivial) fun _ => trivial
    | some b =>
      refine .perform_bind rfl (fun _ => ?_) fun _ => trivial
      exact .perform_bind rfl (fun _ => trivial) fun _ => trivial
  · rintro done _ rfl
    exact .bind (coupled_commit hworld) fun _ _ _ => .ret rfl

theorem coupled_unlink (userId : UUID) : (twins settings σ o o').Coupled Eq (unlink userId) (unlink userId) := by
  refine coupled_codeFree hworld (.mono ?_ (fun _ _ _ => trivial) _ _ (unlink_conforms userId))
  intro h c hcall
  cases hcall <;> rfl

theorem coupled_handleCommand (command : NotificationCommandSendVkData) :
    (twins settings σ o o').Coupled Eq (handleCommand command) (handleCommand command) := by
  refine coupled_codeFree hworld (.mono ?_ (fun _ _ _ => trivial) _ _ (handleCommand_conforms command))
  intro h c hcall
  cases c with
  | choices | confirmationCreate | confirmationGetByCode => exact hcall.elim
  | _ => rfl

theorem coupled_request {request request' : Request} (h : request.Recoded σ request') :
    (twins settings σ o o').Coupled (fun a a' => a' = a.recode σ) (request.prog settings) (request'.prog settings) := by
  cases h with
  | confirm hcode vkPeerId sn dn =>
    refine .bind (coupled_attemptDomain (coupled_confirm hworld hcode vkPeerId sn dn)) ?_
    rintro r _ rfl
    exact .bind (coupled_commit hworld) fun _ _ _ => .ret rfl
  | other hother =>
    cases request with
    | ensureBinding userId =>
      refine coupled_session hworld (.bind (coupled_codeFree hworld (ensureBinding_codeFree userId)) ?_)
      rintro ⟨b, created⟩ _ rfl
      exact .ret rfl
    | issueConfirmation userId =>
      refine coupled_session hworld (.bind (coupled_issueConfirmation hworld userId) ?_)
      rintro i _ rfl
      exact .ret rfl
    | unlink userId =>
      refine coupled_session hworld (.bind (coupled_unlink hworld userId) ?_)
      rintro done _ rfl
      exact .ret rfl
    | confirm code vkPeerId sn dn => exact absurd rfl (hother code vkPeerId sn dn)
    | block vkPeerId => exact coupled_transition hworld vkPeerId .blocked .deny
    | unblock vkPeerId => exact coupled_transition hworld vkPeerId .active .allow
    | deliver command =>
      exact .bind (coupled_handleCommand hworld command) fun _ _ _ => .ret rfl

end Coupling

section Runs
variable {settings : VkSettings} {σ : Recoding} {T : Tables}

/-- A request and its twin end alike. -/
theorem serve_recode {v v' : Visit} (h : SameButCodes settings σ T v v') :
    (serve settings (T.recode σ) v').1 = (serve settings T v).1.map (·.recode σ) ∧
      (serve settings (T.recode σ) v').2.2 = (serve settings T v).2.2.recode σ := by
  obtain ⟨halike, -, hstate⟩ := coupled_request h.world h.request [] (Session.start T) []
    (Session.start (T.recode σ)) ⟨rfl, rfl⟩ h.drawn
  refine ⟨?_, congrArg Session.committed hstate⟩
  simp only [serve, runAlone]
  change Alike _ ((v.request.prog settings).run (handler fun h => v.world h.length) [] (Session.start T)).1
    ((v'.request.prog settings).run (handler fun h => v'.world h.length) [] (Session.start (T.recode σ))).1 at halike
  generalize ((v.request.prog settings).run (handler fun h => v.world h.length) [] (Session.start T)).1 = r at *
  generalize ((v'.request.prog settings).run (handler fun h => v'.world h.length) []
    (Session.start (T.recode σ))).1 = r' at *
  cases halike with
  | ok h =>
    rw [h]
    rfl
  | error e => rfl

theorem run_recode {visits visits' : List Visit} (h : RunsSameButCodes settings σ T visits visits') :
    (episodes settings (T.recode σ) visits').map (·.result) =
      (episodes settings T visits).map (fun ep => ep.result.map (·.recode σ)) ∧
    serveAll settings (T.recode σ) visits' = (serveAll settings T visits).recode σ := by
  induction h with
  | nil T => exact ⟨rfl, rfl⟩
  | cons h hrest ih =>
    obtain ⟨hresult, hafter⟩ := serve_recode h
    simp only [episodes, List.map_cons, serveAll_cons, hafter]
    exact ⟨List.cons_eq_cons.mpr ⟨hresult, ih.1⟩, ih.2⟩

end Runs

/-- The journal, the bindings and the outcomes do not tell two runs apart that differ in the
codes, as long as these have the same length and the same first two letters. -/
theorem journal_blind_to_codes (settings : VkSettings) (σ : Recoding) (visits visits' : List Visit)
    (h : RunsSameButCodes settings σ Tables.empty visits visits') :
    (serveAll settings Tables.empty visits').vkLogs = (serveAll settings Tables.empty visits).vkLogs ∧
    (episodes settings Tables.empty visits').map (·.result) =
      (episodes settings Tables.empty visits).map (fun ep => ep.result.map (·.recode σ)) ∧
    (serveAll settings Tables.empty visits').userVks = (serveAll settings Tables.empty visits).userVks := by
  obtain ⟨hresults, htables⟩ := run_recode h
  have hstart : Tables.empty.recode σ = Tables.empty := rfl
  rw [hstart] at hresults htables
  rw [htables]
  exact ⟨rfl, hresults, rfl⟩

section Example

/-- The codes `AAAA` and `AABB` change places. -/
def swapped : Recoding where
  code := Equiv.swap "AAAA".toList "AABB".toList
  injective := (Equiv.swap _ _).injective
  length_eq c := by
    have hlen : "AABB".toList.length = "AAAA".toList.length := by decide +kernel
    rw [Equiv.swap_apply_def]
    split_ifs with h h'
    · rw [h, hlen]
    · rw [h', hlen]
    · rfl
  take_two c := by
    have htake : "AABB".toList.take 2 = "AAAA".toList.take 2 := by decide +kernel
    rw [Equiv.swap_apply_def]
    split_ifs with h h'
    · rw [h, htake]
    · rw [h', htake]
    · rfl

/-- The surroundings in which the code `AABB` is drawn. -/
def drawingB : World := { World.still 0 with draws := fun i => if i < 2 then (World.still 0).draws i else World.second }

private theorem drawn_swapped : drawnCode .least drawingB = swapped.code (drawnCode .least (.still 0)) := by
  have hleft : drawnCode .least (.still 0) = "AAAA".toList := by decide +kernel
  have hright : drawnCode .least drawingB = "AABB".toList := by decide +kernel
  rw [hleft, hright]
  exact (Equiv.swap_apply_left _ _).symm

private theorem normalized_swapped : normalizeCode "AABB".toList = swapped.code (normalizeCode "AAAA".toList) := by
  have hleft : normalizeCode "AAAA".toList = "AAAA".toList := by decide +kernel
  have hright : normalizeCode "AABB".toList = "AABB".toList := by decide +kernel
  rw [hleft, hright]
  exact (Equiv.swap_apply_left _ _).symm

private theorem issue_swapped (T : Tables) : SameButCodes .least swapped T ⟨.issueConfirmation 7, fun _ => .still 0⟩
    ⟨.issueConfirmation 7, fun _ => drawingB⟩ :=
  ⟨.other (by simp [Request.IsOther]), fun _ => ⟨_, rfl⟩, fun _ _ => drawn_swapped⟩

private theorem confirm_swapped (T : Tables) : SameButCodes .least swapped T
    ⟨.confirm "AAAA".toList 1 none none, fun _ => .still 0⟩ ⟨.confirm "AABB".toList 1 none none, fun _ => drawingB⟩ :=
  ⟨.confirm normalized_swapped 1 none none, fun _ => ⟨_, rfl⟩, fun _ _ => drawn_swapped⟩

/-- A user links with the code `AAAA`, and in the other run with `AABB`: the journals agree. -/
theorem journal_blind_to_codes_swapped :
    (serveAll .least Tables.empty [⟨.issueConfirmation 7, fun _ => drawingB⟩,
      ⟨.confirm "AABB".toList 1 none none, fun _ => drawingB⟩]).vkLogs =
    (serveAll .least Tables.empty [⟨.issueConfirmation 7, fun _ => .still 0⟩,
      ⟨.confirm "AAAA".toList 1 none none, fun _ => .still 0⟩]).vkLogs :=
  (journal_blind_to_codes .least swapped _ _ (.cons (issue_swapped _) (.cons (confirm_swapped _) (.nil _)))).1

end Example
end VkService
