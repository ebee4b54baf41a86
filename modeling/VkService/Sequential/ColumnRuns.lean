import VkService.Sequential.Columns

/-! Whole requests and messages on tables with column types: a refused statement ends them, with
the exception of the database and with everything as it was. -/
namespace VkService
open PyStr Effects Effects.Prog UserVkRepository VkConfirmationRepository

section Sessions
variable {world : CallHistory → World} {h : CallHistory} {C T : Tables}

theorem handlerInColumns_commit : handlerInColumns world h .commit ⟨C, T⟩ = (.ok (), Session.start T) := rfl
theorem handlerInColumns_rollback : handlerInColumns world h .rollback ⟨C, T⟩ = (.ok (), Session.start C) := rfl
theorem handlerInColumns_close : handlerInColumns world h .close ⟨C, T⟩ = (.ok (), Session.start C) := rfl
theorem handlerInColumns_sendMessage (peerId : PeerId) (text : String) (s : Session) :
    handlerInColumns world h (.sendMessage peerId text) s = (.ok ((world h).accepts peerId), s) := rfl

/-- What is refused is no message. -/
theorem handlerInColumns_refused {c : Call} {s : Session} (hx : (handlerInColumns world h c s).1 = .error dbapiError) :
    c.isSend = false := by
  cases c with
  | sendMessage peerId text =>
    rw [handlerInColumns_sendMessage] at hx
    cases hx
  | _ => rfl

theorem Session.apply_committed {s : Session} {change : Change} (hne : change ≠ .commit) :
    (s.apply change).committed = s.committed := by
  cases change with
  | commit => exact absurd rfl hne
  | _ => rfl

theorem answer_ne_commit {w : World} {ids : NewIds} {c : Call} (hends : c.ends = false) :
    (answer w ids T c).2 ≠ .commit := by
  have hasks := answer_asks w ids T c
  generalize (answer w ids T c).1 = r at hasks
  generalize (answer w ids T c).2 = change at hasks
  rintro rfl
  cases hasks
  cases hends

/-- Only `commit` changes the committed tables. -/
theorem handlerInColumns_committed {c : Call} {s : Session} (hends : c.ends = false) :
    (handlerInColumns world h c s).2.committed = s.committed := by
  refine Session.apply_committed ?_
  unfold answerInColumns
  split
  · cases c with
    | userVkActivate recordId vkPeerId sn dn =>
      exact @answer_ne_commit s.working (world h) (s.newIds (world h))
        (.userVkActivate recordId vkPeerId (sn.map (cut 64)) (dn.map (cut 255))) rfl
    | _ => exact answer_ne_commit hends
  · exact nofun

/-- A body that returns has not been refused anything. -/
theorem not_refused_of_ok {α : Type} {a : α} (hend : StatementRefused h → (.ok a : Except Exn α) = .error dbapiError) :
    ¬ StatementRefused h := by
  intro hrefused
  cases hend hrefused

/-- A refused statement ends the body of a session. -/
theorem LetsThrough.wp {α : Type} {p : Py α} (hp : LetsThrough p) (h0 : ¬ StatementRefused h) :
    wp (handlerInColumns world) p (fun r h' s => (StatementRefused h' → r = .error dbapiError) ∧ s.committed = C)
      h ⟨C, T⟩ := by
  have hfails : ∀ h c s, (handlerInColumns world h c s).1 = .error dbapiError → c.isSend = false :=
    fun _ _ _ => handlerInColumns_refused
  have hkeeps : ∀ h c s, c.ends = false → s.committed = C → (handlerInColumns world h c s).2.committed = C :=
    fun _ _ _ hends hs => (handlerInColumns_committed hends).trans hs
  exact Passes.wp_passes hfails hkeeps hp h0 rfl

/-- The run raises what the database raised, and nothing is committed. -/
def Undone {α : Type} (C : Tables) (r : Except Exn α) (h : CallHistory) (s : Session) : Prop :=
  StatementRefused h → r = .error dbapiError ∧ s.committed = C

theorem getSession_undone {α : Type} {body : Py α} (hbody : LetsThrough body) :
    wp (handlerInColumns world) (getSession body) (Undone C) [] ⟨C, C⟩ := by
  simp only [getSession, withSession, wp_bind, wp_attempt, wp_tryCatch]
  refine wp_mono (hbody.wp (not_failed_nil _)) ?_
  rintro (e | a) h ⟨C', T⟩ ⟨hend, rfl⟩
  · simp only [andThen_error, orElse_error, await, throw_eq]
    split
    · simp only [wp_bind, wp_perform, handlerInColumns_rollback, andThen_ok, wp_raise, Session.start,
        handlerInColumns_close, wp_ofExcept]
      refine fun hrefused => ⟨hend ?_, rfl⟩
      simpa using hrefused
    · simp only [wp_raise, wp_bind, andThen_ok, wp_perform, handlerInColumns_close, wp_ofExcept]
      refine fun hrefused => ⟨hend ?_, rfl⟩
      simpa using hrefused
  · have hnone : ¬ StatementRefused h := not_refused_of_ok hend
    simp only [andThen_ok, await, wp_bind, wp_perform, handlerInColumns_commit, pure_eq, wp_ret, orElse_ok, Session.start,
      handlerInColumns_close, wp_ofExcept]
    exact fun hrefused => absurd (by simpa using hrefused) hnone

theorem botSession_undone {α β : Type} {body : Py α} {k : α → Py β} (hbody : LetsThrough body)
    (hk : ∀ a h s, ¬ StatementRefused h → wp (handlerInColumns world) (k a) (fun _ h' _ => ¬ StatementRefused h') h s) :
    wp (handlerInColumns world) (do let a ← body; botCommit; k a) (Undone C) [] ⟨C, C⟩ := by
  simp only [wp_bind]
  refine wp_mono (hbody.wp (not_failed_nil _)) ?_
  rintro (e | a) h ⟨C', T⟩ ⟨hend, rfl⟩
  · exact fun hrefused => ⟨congrArg _ (Except.error.inj (hend hrefused)), rfl⟩
  · have hnone : ¬ StatementRefused h := not_refused_of_ok hend
    simp only [botCommit, await, wp_bind, wp_attempt, wp_perform, handlerInColumns_commit, andThen_ok, Session.start,
      handlerInColumns_close, wp_ofExcept]
    refine wp_mono (hk a _ _ (by simpa using hnone)) fun _ _ _ hno hrefused => absurd hrefused hno

theorem handleCommand_undone (command : NotificationCommandSendVkData) :
    wp (handlerInColumns world) (handleCommand command) (Undone C) [] ⟨C, C⟩ := by
  simp only [handleCommand, withSession, wp_bind, wp_attempt, wp_tryCatch]
  refine wp_mono ((deliver_letsThrough command).wp (not_failed_nil _)) ?_
  rintro (e | a) h ⟨C', T⟩ ⟨hend, rfl⟩
  · simp only [orElse_error]
    split
    · have hnone : ¬ StatementRefused h := by
        intro hrefused
        cases hend hrefused
      simp only [await, throw_eq, wp_bind, wp_perform, handlerInColumns_commit, andThen_ok, wp_raise, Session.start,
        andThen_error, handlerInColumns_close, wp_ofExcept]
      exact fun hrefused => absurd (by simpa using hrefused) hnone
    · split
      · simp only [await, throw_eq, wp_bind, wp_perform, handlerInColumns_rollback, andThen_ok, wp_raise, Session.start,
          andThen_error, handlerInColumns_close, wp_ofExcept]
        exact fun hrefused => ⟨hend (by simpa using hrefused), rfl⟩
      · simp only [await, throw_eq, wp_bind, wp_perform, andThen_ok, wp_raise, andThen_error, handlerInColumns_close,
          wp_ofExcept]
        exact fun hrefused => ⟨hend (by simpa using hrefused), rfl⟩
  · have hnone : ¬ StatementRefused h := not_refused_of_ok hend
    simp only [andThen_ok, orElse_ok, await, wp_bind, wp_perform, handlerInColumns_commit, Session.start,
      handlerInColumns_close, wp_ofExcept]
    exact fun hrefused => absurd (by simpa using hrefused) hnone

theorem request_undone (settings : VkSettings) (request : Request) :
    wp (handlerInColumns world) (request.prog settings) (Undone C) [] ⟨C, C⟩ := by
  cases request with
  | ensureBinding userId => exact getSession_undone (.bind (ensureBinding_letsThrough userId) fun _ => .ret _)
  | issueConfirmation userId =>
    exact getSession_undone (.bind (issueConfirmation_letsThrough settings userId) fun _ => .ret _)
  | unlink userId => exact getSession_undone (.bind (unlink_letsThrough userId) fun _ => .ret _)
  | confirm code vkPeerId sn dn =>
    exact botSession_undone (attemptDomain_letsThrough
      (confirm_letsThrough settings code vkPeerId sn dn)) fun _ _ _ hno => hno
  | block vkPeerId => exact botSession_undone (transition_letsThrough vkPeerId .blocked .deny) fun _ _ _ hno => hno
  | unblock vkPeerId => exact botSession_undone (transition_letsThrough vkPeerId .active .allow) fun _ _ _ hno => hno
  | deliver command =>
    simp only [Request.prog, wp_bind]
    refine wp_mono (handleCommand_undone command) ?_
    rintro (e | a) h s hundone
    · exact fun hrefused => ⟨congrArg _ (Except.error.inj (hundone hrefused).1), (hundone hrefused).2⟩
    · exact fun hrefused => absurd hrefused (not_refused_of_ok fun hrefused => (hundone hrefused).1)

end Sessions

/-- The visit with every name as the columns keep it. -/
def Visit.cut (v : Visit) : Visit := ⟨v.request.cut, fun n => (v.world n).cut⟩

/-- With column types a request raises and changes nothing, or it runs as without them. -/
theorem serveInColumns_spec (settings : VkSettings) (T : Tables) (v : Visit) :
    (StatementRefused (serveInColumns settings T v).2.1 →
      (serveInColumns settings T v).1 = .error dbapiError ∧ (serveInColumns settings T v).2.2 = T) ∧
    (¬ StatementRefused (serveInColumns settings T v).2.1 →
      (serveInColumns settings T v).1 = (serve settings T v.cut).1 ∧
      (serveInColumns settings T v).2.2 = (serve settings T v.cut).2.2) := by
  refine ⟨fun hrefused => @request_undone (fun h => v.world h.length) T settings v.request hrefused, fun hfair => ?_⟩
  have hpair := coupled_request_cut settings v.world v.request [] (Session.start T) [] (Session.start T) ⟨rfl, rfl⟩
  obtain ⟨halike, -, hstate⟩ := hpair hfair
  refine ⟨?_, (congrArg Session.committed hstate).symm⟩
  exact alike_eq_iff.mp halike

/-- What a confirmation looks up and stores has the types of the columns. -/
structure ConfirmFits (code : Str) (vkPeerId : PeerId) (sn dn : Option String) : Prop where
  code : nulFree (normalizeCode code) = true
  peer : bigInteger vkPeerId = true
  names : (VkUserProfile.mk sn dn).varchar = true

section Fits
variable {h : CallHistory}

/-- A program whose calls fit is refused nothing. -/
theorem wp_unrefused {α : Type} {world : CallHistory → World} {p : Py α} {s : Session}
    (hp : Conforms (fun _ c => c.fits = true) (fun _ _ => True) h p) (h0 : ¬ StatementRefused h) :
    wp (handlerInColumns world) p (fun _ h' _ => ¬ StatementRefused h') h s := by
  refine wp_invariant (I := fun h' _ => ¬ StatementRefused h') (fun h c s hc hno => ?_) hp h0
  refine fun hrefused => (failed_cons.mp hrefused).elim ?_ hno
  cases c with
  | userVkActivate recordId vkPeerId sn dn =>
    rw [handlerInColumns_activate hc]
    exact handler_ne_dbapiError world h _ s
  | _ =>
    rw [handlerInColumns_eq hc rfl]
    exact handler_ne_dbapiError world h _ s

private theorem log_fits {status : LogStatus} {details : Details} {vkPeerId : PeerId}
    (hdetails : details.all fun field => nulFree field.2.toList) :
    (Call.logAction .confirmation status (("vk_peer_id", toString vkPeerId) :: details)).fits = true := by
  rw [Call.fits, List.all_cons, nulFree_int, Bool.true_and]
  exact hdetails

private theorem logConfirmation_fits {α : Type} {status : LogStatus} {details : Details} {vkPeerId : PeerId}
    {r : Except Exn α} (hdetails : details.all fun field => nulFree field.2.toList) :
    Conforms (fun _ c => c.fits = true) (fun _ _ => True) h
    (do logConfirmation status vkPeerId details; ofExcept r) := by
  refine ⟨log_fits hdetails, fun reply => ?_⟩
  cases reply <;> cases r <;> trivial

private theorem enforceRateLimit_fits (settings : VkSettings) (vkPeerId : PeerId) {masked : String}
    (hmasked : nulFree masked.toList = true) :
    Conforms (fun _ c => c.fits = true) (fun _ _ => True) h (enforceRateLimit settings vkPeerId masked) := by
  refine .perform_bind rfl (fun now => ?_) fun _ => trivial
  refine .perform_bind rfl (fun failures => ?_) fun _ => trivial
  split
  · exact logConfirmation_fits (r := .error _) (by simp [hmasked])
  · trivial

private theorem activateConfirmed_fits {c : VkConfirmation} {b : UserVk} {masked : String} {vkPeerId : PeerId}
    {sn dn : Option String} (hmasked : nulFree masked.toList = true) (hpeer : bigInteger vkPeerId = true)
    (hnames : (VkUserProfile.mk sn dn).varchar = true) :
    Conforms (fun _ c => c.fits = true) (fun _ _ => True) h (activateConfirmed c b masked vkPeerId sn dn) := by
  have hactivate : (Call.userVkActivate c.userVkId vkPeerId sn dn).fits = true := by
    rw [Call.fits, hpeer, hnames, Bool.and_true]
  refine ⟨hactivate, fun reply => ?_⟩
  cases reply with
  | ok row =>
    refine .perform_bind rfl (fun _ => ?_) fun _ => trivial
    refine logConfirmation_fits (r := .ok _) ?_
    simp only [List.all_cons, List.all_nil, hmasked, nulFree_nat, Bool.and_self]
  | error e =>
    cases e with
    | alreadyExists message =>
      refine ⟨log_fits ?_, fun reply => ?_⟩
      · simp only [List.all_cons, List.all_nil, hmasked, nulFree_nat, Bool.and_self]
      · cases reply <;> trivial
    | _ => trivial

theorem confirm_fits (settings : VkSettings) {code : Str} {vkPeerId : PeerId} {sn dn : Option String}
    (hfits : ConfirmFits code vkPeerId sn dn) :
    Conforms (fun _ c => c.fits = true) (fun _ _ => True) h (confirm settings code vkPeerId sn dn) := by
  have hmasked := nulFree_maskCode hfits.code
  have hrow : ∀ userVkId : UUID, [("code", maskCode (normalizeCode code)), ("user_vk_id", toString userVkId)].all
      (fun field => nulFree field.2.toList) = true := fun userVkId => by
    simp only [List.all_cons, List.all_nil, hmasked, nulFree_nat, Bool.and_self]
  refine .bind _ _ _ (enforceRateLimit_fits settings vkPeerId hmasked) (fun h _ _ => ?_) fun _ _ _ => trivial
  refine .perform_bind hfits.code (fun found => ?_) fun _ => trivial
  cases found with
  | none => exact logConfirmation_fits (r := .error _) (by simp [hmasked])
  | some c =>
    refine .perform_bind rfl (fun b => ?_) fun _ => trivial
    split
    · split
      · exact logConfirmation_fits (r := .ok _) (hrow _)
      · exact logConfirmation_fits (r := .error _) (hrow _)
    · refine .perform_bind rfl (fun t => ?_) fun _ => trivial
      have hmissing : ([("code", maskCode (normalizeCode code)), ("user_vk_id", toString c.userVkId)] ++
          [("reason", "binding_missing")]).all (fun field => nulFree field.2.toList) = true := by
        rw [List.all_append, hrow]
        rfl
      split
      · exact logConfirmation_fits (r := .error _) (hrow _)
      · cases b with
        | none => exact logConfirmation_fits (r := .error _) hmissing
        | some b =>
          dsimp only
          split
          · exact logConfirmation_fits (r := .error _) hmissing
          · refine .perform_bind hfits.peer (fun q => ?_) fun _ => trivial
            split
            · exact logConfirmation_fits (r := .error _) (hrow _)
            · exact activateConfirmed_fits hmasked hfits.peer hfits.names

theorem attemptDomain_fits {α : Type} {body : Py α}
    (hbody : Conforms (fun _ c => c.fits = true) (fun _ _ => True) h body) :
    Conforms (fun _ c => c.fits = true) (fun _ _ => True) h (attemptDomain body) :=
  .mono (fun _ _ hc => hc) (fun _ _ _ => trivial) _ _ (attemptDomain_conforms hbody)

theorem confirmRequest_fits (settings : VkSettings) {code : Str} {vkPeerId : PeerId} {sn dn : Option String}
    (hfits : ConfirmFits code vkPeerId sn dn) :
    Conforms (fun _ c => c.fits = true) (fun _ _ => True) [] ((Request.confirm code vkPeerId sn dn).prog settings) := by
  refine .bind _ _ _ (attemptDomain_fits (confirm_fits settings hfits)) (fun h r _ => ?_) fun _ _ _ => trivial
  exact .bind _ _ _ (botCommit_conforms rfl fun _ => rfl) (fun _ _ _ => trivial) fun _ _ _ => trivial

end Fits

theorem ownRow_cut (T T' : Tables) (request : Request) : ownRow T T' request.cut = ownRow T T' request := by
  cases request <;> rfl

/-- Every operation on tables with column types is atomic and keeps to its own row. A confirmation
leaves its one journal row and the names as the columns keep them, unless its arguments do not fit
and the database has refused a statement: then it raises what the database raised. -/
theorem operations_atomic_inColumns (settings : VkSettings) {T : Tables} (hT : T.Wf) (v : Visit) :
    let r := (serveInColumns settings T v).1
    let T' := (serveInColumns settings T v).2.2
    (Raised r → T'.userVks = T.userVks ∧ T'.vkConfirmations = T.vkConfirmations) ∧
    OnlyRow (ownRow T T' v.request) T T' ∧
    ∀ code vkPeerId sn dn, v.request = .confirm code vkPeerId sn dn →
      (r = .error dbapiError ∧ T' = T ∧ ¬ ConfirmFits code vkPeerId sn dn) ∨
      ∃ outcome l, r = .ok (.confirmation outcome) ∧
        ConfirmEffect T T' code vkPeerId (sn.map (cut 64)) (dn.map (cut 255)) outcome ∧
        T'.vkLogs = T.vkLogs ++ [l] ∧ l.action = .confirmation ∧ l.status = outcomeStatus outcome := by
  intro r T'
  obtain ⟨hrefused, hran⟩ := serveInColumns_spec settings T v
  by_cases h : StatementRefused (serveInColumns settings T v).2.1
  · obtain ⟨hr, hT'⟩ := hrefused h
    refine ⟨fun _ => ?_, ?_, fun code peer sn dn hreq => .inl ⟨hr, hT', fun hfits => ?_⟩⟩
    · rw [show T' = T from hT']
      exact ⟨rfl, rfl⟩
    · rw [show T' = T from hT']
      exact ⟨rfl, rfl⟩
    · obtain ⟨request, o⟩ := v
      obtain rfl : request = .confirm code peer sn dn := hreq
      exact @wp_unrefused [] _ (fun h => o h.length) _ (Session.start T) (confirmRequest_fits settings hfits)
        (not_failed_nil _) h
  · obtain ⟨hr, hT'⟩ := hran h
    obtain ⟨hraised, honly, hconfirm⟩ := operations_atomic settings hT v.cut
    rw [← hr, ← hT'] at hraised hconfirm
    rw [← hT', show v.cut.request = v.request.cut from rfl, ownRow_cut] at honly
    refine ⟨hraised, honly, fun code peer sn dn hreq => .inr (hconfirm code peer _ _ ?_)⟩
    rw [show v.cut.request = v.request.cut from rfl, hreq]
    rfl

/-- User 1 is linked to peer 7, and user 2 has an unused code. -/
def linkedAndPending : Tables where
  userVks := [⟨1, 1, some 7, .active, some "ann", none, none, 0, 0⟩, ⟨2, 2, none, .pending, none, none, none, 0, 0⟩]
  vkConfirmations := [⟨1, 1, "BBBB".toList, 60000000, 0, some 0⟩, ⟨2, 2, "AAAA".toList, 60000000, 0, none⟩]
  vkLogs := []
  vkNotificationDeliveries := []

theorem linkedAndPending_wf : linkedAndPending.Wf := by
  constructor <;> simp [linkedAndPending, UserVk.clashes, UserVk.live]

/-- The code of user 2 from a peer with a profile. -/
def presents (vkPeerId : PeerId) (screenName : String) : Visit :=
  ⟨.confirm "AAAA".toList vkPeerId (some screenName) (some "Bob"), fun _ => .still 0⟩

/-- A new peer is linked, the peer of user 1 is not; each attempt leaves its journal row. -/
theorem operations_atomic_inColumns_pending :
    (∃ outcome l, (serveInColumns .least linkedAndPending (presents 5 "bob")).1 = .ok (.confirmation outcome) ∧
      ConfirmEffect linkedAndPending (serveInColumns .least linkedAndPending (presents 5 "bob")).2.2 "AAAA".toList 5
        (some "bob") (some "Bob") outcome ∧
      (serveInColumns .least linkedAndPending (presents 5 "bob")).2.2.vkLogs = linkedAndPending.vkLogs ++ [l] ∧
      l.action = .confirmation ∧ l.status = outcomeStatus outcome) ∧
    (serveInColumns .least linkedAndPending (presents 5 "bob")).2.2.userVks.map (·.vkPeerId) = [some 7, some 5] ∧
    (serveInColumns .least linkedAndPending (presents 7 "ann")).2.2.userVks = linkedAndPending.userVks := by
  refine ⟨?_, by decide, ?_⟩
  · refine ((operations_atomic_inColumns .least linkedAndPending_wf (presents 5 "bob")).2.2 _ _ _ _ rfl).resolve_left ?_
    exact fun hrefused => hrefused.2.2 ⟨by decide, by decide, by decide⟩
  · exact ((operations_atomic_inColumns .least linkedAndPending_wf (presents 7 "ann")).1
      (show Raised (.ok (.confirmation (.error _))) from trivial)).1

/-- The screen name is one character too long: the confirmation raises and leaves no journal row. -/
theorem confirm_name_refused :
    (serveInColumns .least linkedAndPending (presents 5 (String.ofList (List.replicate 65 'a')))).1 =
    .error dbapiError ∧
    ¬ ∃ l, (serveInColumns .least linkedAndPending (presents 5 (String.ofList (List.replicate 65 'a')))).2.2.vkLogs =
      linkedAndPending.vkLogs ++ [l] := by
  refine ⟨rfl, ?_⟩
  rintro ⟨l, hl⟩
  have hnone : (serveInColumns .least linkedAndPending
    (presents 5 (String.ofList (List.replicate 65 'a')))).2.2.vkLogs = [] := by
    decide
  rw [hnone] at hl
  cases hl

/-- The database refused a statement of a message: no commit, no reply, nothing changed. -/
structure MessageRefused (T T' : Tables) (r : Except Exn Outcome) (h : CallHistory) : Prop where
  result : r = .error dbapiError
  unchanged : T' = T
  uncommitted : h.countP (·.op.isCommit) = 0
  silent : h.countP (·.op.isSend) = 0

/-- The code of a message, if it has one, its sender and the names of the sender fit. -/
def MessageFits (linkCommand text : Str) (fromId : PeerId) (profile : Option VkUserProfile) : Prop :=
  ∀ code, code ≠ [] → parseLinkCommand text linkCommand = some code →
    ConfirmFits code fromId (profile.bind (·.screenName)) (profile.bind (·.displayName))

section Messages
variable {settings : VkSettings} {T T' : Tables} {o : Surroundings} {peerId fromId : PeerId} {text : Str}
    {h : CallHistory}

theorem cutEvent_op (e : CallEvent) : (cutEvent e).op.isCommit = e.op.isCommit ∧
    (cutEvent e).op.isSend = e.op.isSend := by
  obtain ⟨op, reply⟩ := e
  cases op <;> exact ⟨rfl, rfl⟩

theorem cutEvent_eq {c : Call} {reply : Except Exn c.Reply} (hc : c.activates = false ∧ c.asksProfile = false)
    {e : CallEvent} (he : cutEvent e = ⟨c, reply⟩) : e = ⟨c, reply⟩ := by
  obtain ⟨op, reply'⟩ := e
  cases op with
  | userVkActivate =>
    cases he
    cases hc.1
  | getProfile =>
    cases he
    cases hc.2
  | _ => exact he

theorem countP_cut (h : CallHistory) : (h.map cutEvent).countP (·.op.isCommit) = h.countP (·.op.isCommit) ∧
    (h.map cutEvent).countP (·.op.isSend) = h.countP (·.op.isSend) := by
  rw [List.countP_map, List.countP_map]
  refine ⟨congrArg (List.countP · h) (funext fun e => (cutEvent_op e).1), ?_⟩
  exact congrArg (List.countP · h) (funext fun e => (cutEvent_op e).2)

theorem ChatHandled.of_cut {r : Except Exn Outcome}
    (hchat : ChatHandled T T' r (h.map cutEvent)) : ChatHandled T T' r h where
  result := hchat.result
  silent := (countP_cut h).2 ▸ hchat.silent
  committed := (countP_cut h).1 ▸ hchat.committed
  bindings := hchat.bindings
  codes := hchat.codes
  journal := hchat.journal

theorem PrivateHandled.of_cut {linkCommand : Str} {r : Except Exn Outcome}
    (hprivate : PrivateHandled linkCommand text peerId fromId T T' r (h.map cutEvent)) :
    PrivateHandled linkCommand text peerId fromId T T' r h := by
  obtain ⟨hcommitted, hsent, outcome, reply, l, delivered, earlier, hr, hh, hcommit, hrest⟩ := hprivate
  obtain ⟨e, earlier', rfl, he, rfl⟩ := List.map_eq_cons_iff.mp hh
  obtain rfl := cutEvent_eq ⟨rfl, rfl⟩ he
  obtain ⟨e', he', hcut⟩ := List.mem_map.mp hcommit
  obtain rfl := cutEvent_eq ⟨rfl, rfl⟩ hcut
  rw [(countP_cut _).1] at hcommitted
  rw [(countP_cut _).2] at hsent
  exact ⟨hcommitted, hsent, outcome, reply, l, delivered, earlier', hr, rfl, he', hrest⟩

private theorem reply_fits (h : CallHistory) (peerId : PeerId) (reply : String) (outcome : Outcome) :
    Conforms (fun _ c => c.fits = true) (fun _ _ => True) h
      (do botCommit; let _ ← await (.sendMessage peerId reply); pure outcome) := by
  refine .bind _ _ _ (botCommit_conforms rfl fun _ => rfl) (fun h _ _ => ?_) fun _ _ _ => trivial
  exact .perform_bind rfl (fun _ => trivial) fun _ => trivial

/-- Of the calls of a message only those of a confirmation may not fit. -/
theorem handleMessage_unrefused {T : Tables}
    (hfits : isChatPeer peerId = false → MessageFits settings.vkBotLinkCommand text fromId (o 0).profile) :
    wp (handlerInColumns fun h => o h.length) (handleMessage settings peerId fromId text)
      (fun _ h _ => ¬ StatementRefused h) [] (Session.start T) := by
  have hlog : ∀ status, (Call.logAction .message status [("vk_peer_id", toString peerId)]).fits = true :=
    fun status => by
    rw [Call.fits, List.all_cons, nulFree_int]
    rfl
  cases hchat : isChatPeer peerId with
  | true =>
    refine wp_unrefused ?_ (not_failed_nil _)
    simp only [handleMessage, hchat, if_true]
    refine .perform_bind (hlog _) (fun _ => ?_) fun _ => trivial
    exact .bind _ _ _ (botCommit_conforms rfl fun _ => rfl) (fun _ _ _ => trivial) fun _ _ _ => trivial
  | false =>
    simp only [handleMessage, hchat, Bool.false_eq_true, if_false]
    split
    · exact wp_unrefused (.perform_bind (hlog _) (fun _ => reply_fits _ _ _ _) fun _ => trivial) (not_failed_nil _)
    · exact wp_unrefused (.perform_bind (hlog _) (fun _ => reply_fits _ _ _ _) fun _ => trivial) (not_failed_nil _)
    · rename_i code hne hparse
      have hconfirm := confirm_fits (h := [⟨.getProfile fromId, .ok (o 0).profile⟩]) settings
        (hfits hchat code hne hparse)
      have hbody : wp (handlerInColumns fun h => o h.length) (confirmForReply settings fromId code)
          (fun _ h _ => ¬ StatementRefused h) [] (Session.start T) := by
        rw [confirmForReply, await, wp_bind, wp_perform]
        refine @wp_unrefused [⟨.getProfile fromId, .ok (o 0).profile⟩] _ (fun h => o h.length) _ (Session.start T) ?_
          (by simp)
        exact .bind _ _ _ (attemptDomain_fits hconfirm) (fun _ _ _ => trivial) fun _ _ _ => trivial
      rw [wp_bind]
      refine wp_mono hbody ?_
      rintro (e | out) h s hno
      · exact hno
      · exact wp_unrefused (reply_fits h peerId out.2 out.1) hno

/-- A refused message is left as it is, and so are the tables. -/
theorem handleMessage_refused (settings : VkSettings) (T : Tables) (o : Surroundings) (peerId fromId : PeerId)
    (text : Str) :
    wp (handlerInColumns fun h => o h.length) (handleMessage settings peerId fromId text)
      (fun r h s => StatementRefused h → MessageRefused T s.committed r h) [] (Session.start T) := by
  by_cases hcode : isChatPeer peerId = false ∧ ∃ code, code ≠ [] ∧ parseLinkCommand text settings.vkBotLinkCommand =
    some code
  · obtain ⟨hprivate, code, hne, hparse⟩ := hcode
    simp only [handleMessage, hprivate, hparse, Bool.false_eq_true, if_false]
    obtain _ | ⟨a, rest⟩ := code
    · exact absurd rfl hne
    have hbody : wp (handlerInColumns fun h => o h.length) (confirmForReply settings fromId (a :: rest))
        (fun r h s => (StatementRefused h → r = .error dbapiError) ∧ s.committed = T) [] (Session.start T) :=
      (confirmForReply_letsThrough settings fromId (a :: rest)).wp (not_failed_nil _)
    have hquiet : wp (handlerInColumns fun h => o h.length) (confirmForReply settings fromId (a :: rest))
        (fun _ h _ => ∀ e ∈ h, e.op.confirms = true) [] (Session.start T) :=
      wp_mono (wp_of_conforms (confirmForReply_answers settings fromId (a :: rest))) fun _ _ _ hend => hend.2.2
    rw [wp_bind]
    refine wp_mono (wp_and hbody hquiet) ?_
    rintro (e | out) h s ⟨⟨hend, hs⟩, hquiet⟩
    · obtain ⟨hsend, hcommit⟩ := countP_quiet hquiet
      exact fun hrefused => ⟨congrArg _ (Except.error.inj (hend hrefused)), hs, hcommit, hsend⟩
    · have hno : ¬ StatementRefused h := not_refused_of_ok hend
      rw [andThen_ok]
      exact wp_mono (wp_unrefused (reply_fits h peerId out.2 out.1) hno) fun _ _ _ hno hrefused => absurd hrefused hno
  · refine wp_mono (handleMessage_unrefused fun hprivate code hne hparse => ?_) fun _ _ _ hno hrefused =>
      absurd hrefused hno
    exact absurd ⟨hprivate, code, hne, hparse⟩ hcode

end Messages

/-- A message handled alone on tables with column types commits once and is answered as its journal
row says, unless the code, the sender or the names of the sender do not fit and the database has
refused a statement: then nothing is committed and nothing is sent. -/
theorem handleMessage_reply_agrees_inColumns (settings : VkSettings) {T : Tables} (hT : T.Wf) (o : Surroundings)
    (peerId fromId : PeerId) (text : Str) :
    let handled := runInColumns (handleMessage settings peerId fromId text) o T
    (chatPeerThreshold ≤ peerId → ChatHandled T handled.2.2 handled.1 handled.2.1) ∧
    (peerId < chatPeerThreshold →
      (MessageRefused T handled.2.2 handled.1 handled.2.1 ∧
        ¬ MessageFits settings.vkBotLinkCommand text fromId (o 0).profile) ∨
      PrivateHandled settings.vkBotLinkCommand text peerId fromId T handled.2.2 handled.1 handled.2.1) := by
  intro handled
  -- what is not refused is the plain run with the names cut
  have hplain : ¬ StatementRefused handled.2.1 →
      (chatPeerThreshold ≤ peerId → ChatHandled T handled.2.2 handled.1 handled.2.1) ∧
      (peerId < chatPeerThreshold →
        PrivateHandled settings.vkBotLinkCommand text peerId fromId T handled.2.2 handled.1 handled.2.1) := by
    intro hfair
    obtain ⟨halike, hhistory, hstate⟩ := coupled_handleMessage_cut settings o peerId fromId text [] (Session.start T) []
      (Session.start T) ⟨rfl, rfl⟩ hfair
    have hresult : (runAlone (handleMessage settings peerId fromId text) (fun n => (o n).cut) T).1 = handled.1 :=
      (alike_eq_iff.mp halike).symm
    have hhistory : (runAlone (handleMessage settings peerId fromId text) (fun n => (o n).cut) T).2.1 =
        handled.2.1.map cutEvent := hhistory
    have htables : (runAlone (handleMessage settings peerId fromId text) (fun n => (o n).cut) T).2.2 = handled.2.2 :=
      congrArg Session.committed hstate
    obtain ⟨hchat, hprivate⟩ := handleMessage_reply_agrees settings hT (fun n => (o n).cut) peerId fromId text
    rw [hresult, hhistory, htables] at hchat hprivate
    exact ⟨fun h => (hchat h).of_cut, fun h => (hprivate h).of_cut⟩
  refine ⟨fun hchat => ?_, fun hprivate => ?_⟩
  · refine (hplain ?_).1 hchat
    refine handleMessage_unrefused fun hprivate => ?_
    rw [isChatPeer, decide_eq_false_iff_not] at hprivate
    exact absurd hchat hprivate
  · by_cases hrefused : StatementRefused handled.2.1
    · exact .inl ⟨handleMessage_refused settings T o peerId fromId text hrefused, fun hfits =>
        handleMessage_unrefused (fun _ => hfits) hrefused⟩
    · exact .inr ((hplain hrefused).2 hprivate)

/-- The code of user 2 from a new peer is answered, and so is the code of user 1 from its own peer. -/
theorem handleMessage_reply_agrees_inColumns_linked :
    PrivateHandled VkSettings.least.vkBotLinkCommand "/link aaaa".toList 5 5 linkedAndPending
      (runInColumns (handleMessage .least 5 5 "/link aaaa".toList) (fun _ => .still 0) linkedAndPending).2.2
      (runInColumns (handleMessage .least 5 5 "/link aaaa".toList) (fun _ => .still 0) linkedAndPending).1
      (runInColumns (handleMessage .least 5 5 "/link aaaa".toList) (fun _ => .still 0) linkedAndPending).2.1 ∧
    (runInColumns (handleMessage .least 5 5 "/link aaaa".toList) (fun _ => .still 0) linkedAndPending).2.2.userVks.map
      (·.vkPeerId) = [some 7, some 5] := by
  refine ⟨?_, by decide⟩
  refine ((handleMessage_reply_agrees_inColumns .least linkedAndPending_wf (fun _ => .still 0) 5 5 "/link aaaa".toList).2
    (by decide)).resolve_left ?_
  rintro ⟨-, hno⟩
  refine hno fun code hne hparse => ?_
  obtain rfl : code = "aaaa".toList := by
    have hcode : parseLinkCommand "/link aaaa".toList VkSettings.least.vkBotLinkCommand = some "aaaa".toList :=
      by decide
    exact Option.some.inj (hparse.symm.trans hcode)
  exact ⟨by decide, by decide, by decide⟩

/-- A profile with a screen name of 65 characters. -/
def longNamed : World := { World.still 0 with profile := some ⟨some (String.ofList (List.replicate 65 'a')), none⟩ }

/-- The screen name is one character too long: the message is neither committed nor answered. -/
theorem message_name_refused :
    (runInColumns (handleMessage .least 5 5 "/link AAAA".toList) (fun _ => longNamed) linkedAndPending).1 =
    .error dbapiError ∧
    (runInColumns (handleMessage .least 5 5 "/link AAAA".toList) (fun _ => longNamed) linkedAndPending).2.1.countP
        (·.op.isCommit) = 0 ∧
    (runInColumns (handleMessage .least 5 5 "/link AAAA".toList) (fun _ => longNamed) linkedAndPending).2.1.countP
        (·.op.isSend) = 0 :=
  ⟨rfl, by decide, by decide⟩

end VkService
