import VkService.Domain.Columns
import VkService.Effects.Passing
import VkService.Promises.Requests
import VkService.Sequential.Frame
import VkService.Sequential.Messages
import VkService.Sequential.Pairs

/-! Operations on tables whose columns have types. A refused statement raises an exception that
nothing catches, so that the operation raises it and leaves the tables as they were; any other
run is a run without types on the names as the columns keep them. -/
namespace VkService
open PyStr Effects Effects.Prog UserVkRepository VkConfirmationRepository

/-- `handler` with the types of the columns. -/
def handlerInColumns (world : CallHistory → World) (h : CallHistory) (c : Call) (s : Session) :
    Except Exn c.Reply × Session :=
  let out := answerInColumns (world h) (s.newIds (world h)) s.working c
  (out.1, s.apply out.2)

def runInColumns {α : Type} (p : Py α) (o : Surroundings) (T : Tables) : Except Exn α × CallHistory × Tables :=
  let out := p.run (handlerInColumns fun h => o h.length) [] (Session.start T)
  (out.1, out.2.1, out.2.2.committed)

def serveInColumns (settings : VkSettings) (T : Tables) (v : Visit) : Except Exn Answer × CallHistory × Tables :=
  runInColumns (v.request.prog settings) v.world T

/-- The database has refused a statement. -/
abbrev StatementRefused (h : CallHistory) : Prop := Failed dbapiError h

section Handler
variable {world : CallHistory → World} {h : CallHistory} {c : Call} {s : Session}

theorem handlerInColumns_refuses (hc : c.fits = false) : handlerInColumns world h c s = (.error dbapiError, s) := by
  simp only [handlerInColumns, answerInColumns, hc, Bool.false_eq_true, if_false]
  rfl

theorem handlerInColumns_activate {recordId : UUID} {vkPeerId : PeerId} {sn dn : Option String}
    (hc : (Call.userVkActivate recordId vkPeerId sn dn).fits = true) :
    handlerInColumns world h (.userVkActivate recordId vkPeerId sn dn) s =
      handler world h (.userVkActivate recordId vkPeerId (sn.map (cut 64)) (dn.map (cut 255))) s := by
  simp only [handlerInColumns, answerInColumns, hc, if_true]
  rfl

def Call.activates : Call → Bool
  | .userVkActivate .. => true
  | _ => false

/-- Only `activate` has values to cut. -/
theorem handlerInColumns_eq (hc : c.fits = true) (hno : c.activates = false) :
    handlerInColumns world h c s = handler world h c s := by
  simp only [handlerInColumns, answerInColumns, hc, if_true]
  cases c with
  | userVkActivate => cases hno
  | _ => rfl

/-- No repository raises what the database raises for a refused value. -/
theorem handler_ne_dbapiError (world : CallHistory → World) (h : CallHistory) (c : Call) (s : Session) :
    (handler world h c s).1 ≠ .error dbapiError := by
  intro hx
  have hrepository := answer_isRepository (show (answer (world h) (s.newIds (world h)) s.working c).1 = _ from hx)
  cases hrepository

end Handler

/-- The run in columns beside the run without types whose names are cut before they are stored. -/
def columnPairing (o : Surroundings) : Pairing Call Call.Reply Exn Session Session where
  left := handlerInColumns fun h => o h.length
  right := handler fun h => (o h.length).cut
  Fair h := ¬ StatementRefused h
  fair_of_append new _ hfair hf := hfair (hf.append new)
  Related h s h' s' := h' = h.map cutEvent ∧ s' = s

section Pairing
variable {o : Surroundings}

/-- A call that succeeds in columns has a twin without types. -/
theorem agree_of_handler {c c' : Call} {U : c.Reply → c'.Reply → Prop}
    (hreply : ∀ h s, c.fits = true → Alike U (handlerInColumns (fun h => o h.length) h c s).1
      (handler (fun h => (o h.length).cut) (h.map cutEvent) c' s).1)
    (hstate : ∀ h s, c.fits = true → (handler (fun h => (o h.length).cut) (h.map cutEvent) c' s).2 =
      (handlerInColumns (fun h => o h.length) h c s).2)
    (hevent : ∀ h s, c.fits = true → (⟨c', (handler (fun h => (o h.length).cut) (h.map cutEvent) c' s).1⟩ : CallEvent) =
      cutEvent ⟨c, (handlerInColumns (fun h => o h.length) h c s).1⟩) :
    (columnPairing o).Agree c c' U := by
  rintro h _ _ s ⟨rfl, rfl⟩ hfair
  cases hc : c.fits with
  | false =>
    refine absurd (failed_cons.mpr (.inl ?_)) hfair
    show (handlerInColumns (fun h => o h.length) h c s).1 = _
    rw [handlerInColumns_refuses hc]
  | true => exact ⟨hreply h s hc, by rw [List.map_cons]; exact congrArg (· :: _) (hevent h s hc), hstate h s hc⟩

def Call.asksProfile : Call → Bool
  | .getProfile _ => true
  | _ => false

theorem handler_cut (h : CallHistory) {c : Call} (hc : c.asksProfile = false) (s : Session) :
    handler (fun h => (o h.length).cut) (h.map cutEvent) c s = handler (fun h => o h.length) h c s := by
  simp only [handler, List.length_map]
  cases c with
  | getProfile => cases hc
  | _ => rfl

/-- The calls that neither read nor store a name. -/
theorem agree_nameless {c : Call} (hc : c.activates = false ∧ c.asksProfile = false) :
    (columnPairing o).Agree c c Eq := by
  have heq : ∀ h s, c.fits = true → handler (fun h => (o h.length).cut) (h.map cutEvent) c s =
      handlerInColumns (fun h => o h.length) h c s := fun h s hfits => by
    rw [handler_cut h hc.2, handlerInColumns_eq hfits hc.1]
  refine agree_of_handler (fun h s hfits => alike_eq_iff.mpr ?_) (fun h s hfits => ?_) fun h s hfits => ?_
  · rw [heq h s hfits]
  · rw [heq h s hfits]
  · rw [heq h s hfits]
    cases c with
    | userVkActivate => cases hc.1
    | getProfile => cases hc.2
    | _ => rfl

theorem agree_activate (recordId : UUID) (vkPeerId : PeerId) (sn dn : Option String) :
    (columnPairing o).Agree (.userVkActivate recordId vkPeerId sn dn)
      (.userVkActivate recordId vkPeerId (sn.map (cut 64)) (dn.map (cut 255))) Eq := by
  have heq : ∀ h s, (Call.userVkActivate recordId vkPeerId sn dn).fits = true →
      handler (fun h => (o h.length).cut) (h.map cutEvent)
        (.userVkActivate recordId vkPeerId (sn.map (cut 64)) (dn.map (cut 255))) s =
      handlerInColumns (fun h => o h.length) h (.userVkActivate recordId vkPeerId sn dn) s := fun h s hfits => by
    rw [handler_cut h rfl, handlerInColumns_activate hfits]
  refine agree_of_handler (fun h s hfits => alike_eq_iff.mpr ?_) (fun h s hfits => ?_) fun h s hfits => ?_
  · exact (congrArg Prod.fst (heq h s hfits)).symm
  · exact congrArg Prod.snd (heq h s hfits)
  · exact congrArg (Event.mk _) (congrArg Prod.fst (heq h s hfits))

theorem agree_getProfile (peerId : PeerId) :
    (columnPairing o).Agree (.getProfile peerId) (.getProfile peerId) fun p p' => p' = p.map VkUserProfile.cut :=
  agree_of_handler (fun h s _ => .ok (by simp only [List.length_map]; rfl)) (fun _ _ _ => rfl) fun h s _ => by
    simp only [handler, List.length_map]
    rfl

/-- A program without names is its own twin. -/
theorem coupled_nameless {α : Type} {p : Py α} {h : CallHistory}
    (hp : Conforms (fun _ c => c.activates = false ∧ c.asksProfile = false) (fun _ _ => True) h p) :
    (columnPairing o).Coupled Eq p p :=
  .self (fun _ => agree_nameless) hp

private theorem logConfirmation_coupled {α : Type} (status : LogStatus) (vkPeerId : PeerId) (details : Details)
    (r : Except Exn α) : (columnPairing o).Coupled Eq (do logConfirmation status vkPeerId details; ofExcept r)
      (do logConfirmation status vkPeerId details; ofExcept r) := by
  refine coupled_nameless (h := []) ⟨⟨rfl, rfl⟩, fun reply => ?_⟩
  cases reply <;> cases r <;> trivial

private theorem enforceRateLimit_coupled (settings : VkSettings) (vkPeerId : PeerId) (masked : String) :
    (columnPairing o).Coupled Eq (enforceRateLimit settings vkPeerId masked)
    (enforceRateLimit settings vkPeerId masked) := by
  refine coupled_nameless (h := []) (.perform_bind ⟨rfl, rfl⟩ (fun t => ?_) fun _ => trivial)
  refine .perform_bind ⟨rfl, rfl⟩ (fun n => ?_) fun _ => trivial
  split
  · refine ⟨⟨rfl, rfl⟩, fun reply => ?_⟩
    cases reply <;> trivial
  · trivial

private theorem activateConfirmed_coupled (c : VkConfirmation) (b : UserVk) (masked : String) (vkPeerId : PeerId)
    (sn dn : Option String) : (columnPairing o).Coupled Eq (activateConfirmed c b masked vkPeerId sn dn)
      (activateConfirmed c b masked vkPeerId (sn.map (cut 64)) (dn.map (cut 255))) := by
  refine .bind (V := Eq) (.tryCatch ?_ fun e => ?_) fun _ _ _ => ?_
  · exact .bind (.perform (agree_activate _ _ _ _)) fun _ _ _ => .ret rfl
  · cases e with
    | alreadyExists message => exact logConfirmation_coupled _ _ _ (.error _)
    | _ => exact .raise _
  · exact .bind (.perform (agree_nameless ⟨rfl, rfl⟩)) fun _ _ _ => logConfirmation_coupled _ _ _ (.ok _)

/-- A confirmation uses the names to store them only. -/
theorem coupled_confirm_cut (settings : VkSettings) (code : Str) (vkPeerId : PeerId) (sn dn : Option String) :
    (columnPairing o).Coupled Eq (confirm settings code vkPeerId sn dn)
      (confirm settings code vkPeerId (sn.map (cut 64)) (dn.map (cut 255))) := by
  refine .bind (enforceRateLimit_coupled settings vkPeerId _) fun _ _ _ => ?_
  refine .bind (.perform (agree_nameless ⟨rfl, rfl⟩)) ?_
  rintro found _ rfl
  cases found with
  | none => exact logConfirmation_coupled _ _ _ (.error _)
  | some c =>
    refine .bind (.perform (agree_nameless ⟨rfl, rfl⟩)) ?_
    rintro b _ rfl
    split
    · split
      · exact logConfirmation_coupled _ _ _ (.ok _)
      · exact logConfirmation_coupled _ _ _ (.error _)
    · refine .bind (.perform (agree_nameless ⟨rfl, rfl⟩)) ?_
      rintro t _ rfl
      split
      · exact logConfirmation_coupled _ _ _ (.error _)
      · cases b with
        | none => exact logConfirmation_coupled _ _ _ (.error _)
        | some b =>
          dsimp only
          split
          · exact logConfirmation_coupled _ _ _ (.error _)
          · refine .bind (.perform (agree_nameless ⟨rfl, rfl⟩)) ?_
            rintro q _ rfl
            split
            · exact logConfirmation_coupled _ _ _ (.error _)
            · exact activateConfirmed_coupled c b _ vkPeerId sn dn

private theorem coupled_commit_cut : (columnPairing o).Coupled Eq botCommit botCommit :=
  coupled_botCommit (agree_nameless ⟨rfl, rfl⟩) (agree_nameless ⟨rfl, rfl⟩)

end Pairing

/-- The request with the names as the columns keep them. -/
def Request.cut : Request → Request
  | .confirm code vkPeerId screenName displayName =>
      .confirm code vkPeerId (screenName.map (VkService.cut 64)) (displayName.map (VkService.cut 255))
  | request => request

theorem coupled_request_cut (settings : VkSettings) (o : Surroundings) (request : Request) :
    (columnPairing o).Coupled Eq (request.prog settings) (request.cut.prog settings) := by
  have hnameless : ∀ request : Request, (∀ code peer sn dn, request ≠ .confirm code peer sn dn) →
      (columnPairing o).Coupled Eq (request.prog settings) (request.prog settings) := fun request hno => by
    refine coupled_nameless (.mono (fun h c hcall => ?_) (fun _ _ _ => trivial) _ _ (request_conforms settings request))
    cases request with
    | confirm code peer sn dn => exact absurd rfl (hno code peer sn dn)
    | deliver command => cases c <;> first | exact ⟨rfl, rfl⟩ | exact hcall.elim
    | _ => cases hcall <;> exact ⟨rfl, rfl⟩
  cases request with
  | confirm code peer sn dn =>
    refine .bind (coupled_attemptDomain (coupled_confirm_cut settings code peer sn dn)) ?_
    rintro r _ rfl
    exact .bind coupled_commit_cut fun _ _ _ => .ret rfl
  | _ => exact hnameless _ (by simp)

private theorem confirmForReply_coupled (settings : VkSettings) (o : Surroundings) (fromId : PeerId) (code : Str) :
    (columnPairing o).Coupled Eq (confirmForReply settings fromId code) (confirmForReply settings fromId code) := by
  refine .bind (.perform (agree_getProfile fromId)) ?_
  rintro profile _ rfl
  have hnames := coupled_attemptDomain (coupled_confirm_cut (o := o) settings code fromId
    (profile.bind (·.screenName)) (profile.bind (·.displayName)))
  cases profile with
  | none => exact .bind hnames fun r _ hr => .ret (congrArg confirmOutcome hr)
  | some p => exact .bind hnames fun r _ hr => .ret (congrArg confirmOutcome hr)

theorem coupled_handleMessage_cut (settings : VkSettings) (o : Surroundings) (peerId fromId : PeerId) (text : Str) :
    (columnPairing o).Coupled Eq (handleMessage settings peerId fromId text)
    (handleMessage settings peerId fromId text) := by
  have hreply : ∀ (reply : String) (outcome : Outcome), (columnPairing o).Coupled Eq
      (do botCommit; let _ ← await (.sendMessage peerId reply); pure outcome)
      (do botCommit; let _ ← await (.sendMessage peerId reply); pure outcome) := fun reply outcome =>
    .bind coupled_commit_cut fun _ _ _ => .bind (.perform (agree_nameless ⟨rfl, rfl⟩)) fun _ _ _ => .ret rfl
  unfold handleMessage
  split
  · exact .bind (.perform (agree_nameless ⟨rfl, rfl⟩)) fun _ _ _ => .bind coupled_commit_cut fun _ _ _ => .ret rfl
  · split
    · exact .bind (.perform (agree_nameless ⟨rfl, rfl⟩)) fun _ _ _ => hreply _ _
    · exact .bind (.perform (agree_nameless ⟨rfl, rfl⟩)) fun _ _ _ => hreply _ _
    · refine .bind (confirmForReply_coupled settings o fromId _) ?_
      rintro ⟨outcome, reply⟩ _ rfl
      exact hreply reply outcome

/-- The program neither ends the transaction nor catches what the database raises for a refused
value. Only the messages to VK do not go to the database. -/
abbrev LetsThrough {α : Type} (p : Py α) : Prop :=
  p.Passes (fun c => c.ends = false) (fun c => c.isSend = false) dbapiError

section Bodies

theorem ensureBinding_letsThrough (userId : UUID) : LetsThrough (ensureBinding userId) := by
  refine .perform_bind rfl fun found => ?_
  cases found with
  | some current => exact .ret _
  | none =>
    refine .tryCatch (.perform_bind rfl fun _ => .ret _) rfl fun e => ?_
    cases e with
    | alreadyExists message =>
      refine .perform_bind rfl fun found => ?_
      cases found with
      | none => exact .raise _
      | some existing => exact .ret _
    | _ => exact .raise _

theorem generateCode_letsThrough (length : Nat) : LetsThrough (generateCode length) := by
  unfold generateCode
  split
  · exact .raise _
  · exact .perform_bind rfl fun _ => .ret _

theorem createUniqueCode_letsThrough (codeLength attempts : Nat) :
    LetsThrough (createUniqueCode codeLength attempts) := by
  induction attempts with
  | zero => exact .raise _
  | succ attempts ih =>
    refine .bind (generateCode_letsThrough codeLength) fun code => .perform_bind rfl fun found => ?_
    cases found with
    | none => exact .ret _
    | some c => exact ih

theorem issueConfirmation_letsThrough (settings : VkSettings) (userId : UUID) :
    LetsThrough (issueConfirmation settings userId) := by
  refine .bind (ensureBinding_letsThrough userId) fun out => ?_
  obtain ⟨binding, created⟩ := out
  dsimp only
  cases binding.state with
  | active => exact .perform_bind rfl fun _ => .raise _
  | blocked => exact .perform_bind rfl fun _ => .raise _
  | pending =>
    refine .perform_bind rfl fun _ => .bind (createUniqueCode_letsThrough _ _) fun code => ?_
    exact .perform_bind rfl fun _ => .perform_bind rfl fun _ => .perform_bind rfl fun _ => .ret _

/-- What is caught here comes from the message to VK. -/
theorem notifyUnlinked_letsThrough (previousState : BindingState) (vkPeerId : Option PeerId) :
    LetsThrough (notifyUnlinked previousState vkPeerId) := by
  cases vkPeerId with
  | none => exact .ret _
  | some peerId =>
    by_cases hactive : previousState ≠ .active
    · rw [notifyUnlinked, if_pos hactive]
      exact .ret _
    · rw [notifyUnlinked, if_neg hactive]
      refine ⟨rfl, fun hdatabase => Bool.noConfusion hdatabase, fun reply => ?_⟩
      cases reply with
      | ok went => exact .ret _
      | error e =>
        show LetsThrough (if e.isException then pure () else throw e)
        split
        · exact .ret _
        · exact .raise _

theorem unlink_letsThrough (userId : UUID) : LetsThrough (unlink userId) := by
  refine .perform_bind rfl fun found => ?_
  cases found with
  | none => exact .perform_bind rfl fun _ => .ret _
  | some binding =>
    refine .perform_bind rfl fun _ => .perform_bind rfl fun _ => .perform_bind rfl fun _ => ?_
    exact .bind (notifyUnlinked_letsThrough _ _) fun _ => .ret _

theorem transition_letsThrough (vkPeerId : PeerId) (state : BindingState) (action : LogAction) :
    LetsThrough (transition vkPeerId state action) := by
  refine .perform_bind rfl fun found => ?_
  cases found with
  | none => exact .perform_bind rfl fun _ => .ret _
  | some binding => exact .perform_bind rfl fun _ => .perform_bind rfl fun _ => .ret _

private theorem logConfirmation_letsThrough {α : Type} (status : LogStatus) (vkPeerId : PeerId) (details : Details)
    (r : Except Exn α) : LetsThrough (do logConfirmation status vkPeerId details; ofExcept r) := by
  refine .bind (.perform_bind rfl fun _ => .ret _) fun _ => ?_
  cases r with
  | ok a => exact .ret a
  | error e => exact .raise e

theorem enforceRateLimit_letsThrough (settings : VkSettings) (vkPeerId : PeerId) (masked : String) :
    LetsThrough (enforceRateLimit settings vkPeerId masked) := by
  refine .perform_bind rfl fun now => .perform_bind rfl fun failures => ?_
  split
  · exact logConfirmation_letsThrough _ _ _ (.error _)
  · exact .ret _

theorem activateConfirmed_letsThrough (c : VkConfirmation) (b : UserVk) (masked : String) (vkPeerId : PeerId)
    (sn dn : Option String) : LetsThrough (activateConfirmed c b masked vkPeerId sn dn) := by
  refine .bind (.tryCatch (.perform_bind rfl fun _ => .ret _) rfl fun e => ?_) fun _ => ?_
  · cases e with
    | alreadyExists message => exact logConfirmation_letsThrough _ _ _ (.error _)
    | _ => exact .raise _
  · exact .perform_bind rfl fun _ => logConfirmation_letsThrough _ _ _ (.ok _)

theorem confirm_letsThrough (settings : VkSettings) (code : Str) (vkPeerId : PeerId) (sn dn : Option String) :
    LetsThrough (confirm settings code vkPeerId sn dn) := by
  refine .bind (enforceRateLimit_letsThrough settings vkPeerId _) fun _ => .perform_bind rfl fun found => ?_
  cases found with
  | none => exact logConfirmation_letsThrough _ _ _ (.error _)
  | some c =>
    refine .perform_bind rfl fun b => ?_
    split
    · split
      · exact logConfirmation_letsThrough _ _ _ (.ok _)
      · exact logConfirmation_letsThrough _ _ _ (.error _)
    · refine .perform_bind rfl fun t => ?_
      split
      · exact logConfirmation_letsThrough _ _ _ (.error _)
      · cases b with
        | none => exact logConfirmation_letsThrough _ _ _ (.error _)
        | some b =>
          dsimp only
          split
          · exact logConfirmation_letsThrough _ _ _ (.error _)
          · refine .perform_bind rfl fun q => ?_
            split
            · exact logConfirmation_letsThrough _ _ _ (.error _)
            · exact activateConfirmed_letsThrough c b _ vkPeerId sn dn

/-- `_confirm` has clauses for the domain errors only. -/
theorem attemptDomain_letsThrough {α : Type} {body : Py α} (hbody : LetsThrough body) :
    LetsThrough (attemptDomain body) := by
  refine .tryCatch (.bind hbody fun _ => .ret _) rfl fun e => ?_
  split
  · exact .ret _
  · exact .raise _

theorem confirmForReply_letsThrough (settings : VkSettings) (fromId : PeerId) (code : Str) :
    LetsThrough (confirmForReply settings fromId code) :=
  .perform_bind rfl fun _ => .bind (attemptDomain_letsThrough (confirm_letsThrough settings code fromId _ _)) fun _ => .ret _

theorem deliverTo_letsThrough (eventUuid : UUID) (text : String) (active : List (UUID × PeerId)) (userIds : List UUID)
    (failed : Bool) : LetsThrough (deliverTo eventUuid text active userIds failed) := by
  induction userIds generalizing failed with
  | nil => exact .ret _
  | cons userId rest ih =>
    unfold deliverTo
    split
    · exact ih failed
    · refine .perform_bind rfl fun claimed => ?_
      cases claimed with
      | none => exact ih failed
      | some row =>
        refine .perform_bind rfl fun went => ?_
        split
        · exact .perform_bind rfl fun _ => ih failed
        · exact .perform_bind rfl fun _ => ih true

theorem deliver_letsThrough (command : NotificationCommandSendVkData) : LetsThrough (deliver command) := by
  refine .perform_bind rfl fun bindings => .bind (deliverTo_letsThrough _ _ _ _ _) fun failed => ?_
  split
  · exact .raise _
  · exact .ret _

end Bodies

end VkService
