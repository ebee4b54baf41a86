import VkService.Promises.SessionRules

/-! What a link message asks for, and how its handling ends when no call of it fails but an
activation whose peer is taken. -/
namespace VkService
open PyStr Effects Effects.Prog

/-- The calls between the message and its commit. -/
def Call.confirms : Call → Bool
  | .now | .getProfile _ | .countFailedSince .. | .confirmationGetByCode _ | .userVkGetById _ | .userVkGetByPeerId _
  | .userVkActivate .. | .confirmationMarkUsed _ | .logAction .. => true
  | _ => false

/-- Nothing has failed but activations of a peer that was taken. -/
def OnlyTaken (h : CallHistory) : Prop :=
  ∀ e ∈ h, ∀ x, e.reply = .error x →
    ∃ recordId vkPeerId sn dn message, e = ⟨.userVkActivate recordId vkPeerId sn dn, .error (.alreadyExists message)⟩

theorem onlyTaken_cons {e : CallEvent} {h : CallHistory} : OnlyTaken (e :: h) ↔
    (∀ x, e.reply = .error x → ∃ recordId vkPeerId sn dn message,
      e = ⟨.userVkActivate recordId vkPeerId sn dn, .error (.alreadyExists message)⟩) ∧ OnlyTaken h :=
  List.forall_mem_cons

/-- A confirmation that goes on to its own end: it returns, or raises an error that the
handler catches. -/
def EndsWell {α : Type} (h : CallHistory) (r : Except Exn α) : Prop :=
  OnlyTaken h → ∀ e, r = .error e → e.isDomain = true

section Confirm
variable {α : Type} {h : CallHistory} {n : Nat}

/-- At most `n` calls of a confirmation come before the call. -/
def ConfirmsWithin (n : Nat) (h : CallHistory) (c : Call) : Prop := c.confirms = true ∧ h.length < n

private theorem endsWell_ok (a : α) : EndsWell h (.ok a) := fun _ _ he => by cases he

private theorem endsWell_domain {e : Exn} (he : e.isDomain = true) : EndsWell h (.error e : Except Exn α) := by
  rintro - _ ⟨⟩
  exact he

/-- Such a failure does not happen. -/
private theorem endsWell_failed {c : Call} {e : Exn}
    (hc : ∀ recordId vkPeerId sn dn, c ≠ .userVkActivate recordId vkPeerId sn dn) :
    EndsWell (⟨c, .error e⟩ :: h) (.error e : Except Exn α) := by
  intro honly
  obtain ⟨recordId, vkPeerId, sn, dn, message, heq⟩ := (onlyTaken_cons.mp honly).1 e rfl
  exact absurd (congrArg Event.op heq) (hc recordId vkPeerId sn dn)

/-- A journal row and a result. -/
private theorem log_endsWell {status : LogStatus} {details : Details} {vkPeerId : PeerId}
    {r : Except Exn ConfirmationResult} (hn : h.length < n) (hr : ∀ e, r = .error e → e.isDomain = true) :
    Conforms (ConfirmsWithin n) EndsWell h (do logConfirmation status vkPeerId details; ofExcept r) := by
  refine ⟨⟨rfl, hn⟩, fun reply => ?_⟩
  cases reply with
  | error e => exact endsWell_failed (by simp)
  | ok row =>
    cases r with
    | ok a => exact endsWell_ok a
    | error e => exact endsWell_domain (hr e rfl)

theorem enforceRateLimit_endsWell (settings : VkSettings) (vkPeerId : PeerId) (masked : String)
    (hn : h.length + 3 ≤ n) :
    Conforms (ConfirmsWithin n) (fun h' r => EndsWell h' r ∧ ∀ u, r = .ok u → h'.length = h.length + 2) h
      (enforceRateLimit settings vkPeerId masked) := by
  refine .perform_bind ⟨rfl, by omega⟩ (fun t => ?_) fun e => ⟨endsWell_failed (by simp), by simp⟩
  refine .perform_bind ⟨rfl, by simp only [List.length_cons]; omega⟩ (fun count => ?_)
    fun e => ⟨endsWell_failed (by simp), by simp⟩
  split
  · refine ⟨⟨rfl, by simp only [List.length_cons]; omega⟩, fun reply => ?_⟩
    cases reply with
    | ok row => exact ⟨endsWell_domain rfl, by simp⟩
    | error e => exact ⟨endsWell_failed (by simp), by simp⟩
  · exact ⟨endsWell_ok (), fun _ _ => rfl⟩

theorem activateConfirmed_endsWell {c : VkConfirmation} {b : UserVk} {masked : String} {vkPeerId : PeerId}
    {sn dn : Option String} (hn : h.length + 3 ≤ n) :
    Conforms (ConfirmsWithin n) EndsWell h (activateConfirmed c b masked vkPeerId sn dn) := by
  refine ⟨⟨rfl, by omega⟩, fun reply => ?_⟩
  cases reply with
  | error e =>
    cases e with
    | alreadyExists message =>
      refine ⟨⟨rfl, by simp only [List.length_cons]; omega⟩, fun reply => ?_⟩
      cases reply with
      | ok row => exact endsWell_domain rfl
      | error e => exact endsWell_failed (by simp)
    | _ =>
      intro honly
      obtain ⟨_, _, _, _, _, heq⟩ := (onlyTaken_cons.mp honly).1 _ rfl
      cases heq
  | ok row =>
    refine .perform_bind ⟨rfl, by simp only [List.length_cons]; omega⟩ (fun u => ?_) fun e => endsWell_failed (by simp)
    exact log_endsWell (r := .ok _) (by simp only [List.length_cons]; omega) (by simp)

/-- A confirmation makes at most nine calls. -/
theorem confirm_endsWell (settings : VkSettings) (code : Str) (vkPeerId : PeerId) (sn dn : Option String)
    (hn : h.length + 9 ≤ n) : Conforms (ConfirmsWithin n) EndsWell h (confirm settings code vkPeerId sn dn) := by
  refine .bind _ _ _ (enforceRateLimit_endsWell settings vkPeerId _ (by omega)) (fun h' _ hpassed => ?_)
    fun _ e hend honly e' he => hend.1 honly e' (by cases he; rfl)
  have hlen : h'.length = h.length + 2 := hpassed.2 _ rfl
  refine .perform_bind ⟨rfl, by omega⟩ (fun found => ?_) fun e => endsWell_failed (by simp)
  cases found with
  | none => exact log_endsWell (r := .error _) (by simp only [List.length_cons]; omega) (by simp [Exn.isDomain])
  | some c =>
    refine .perform_bind ⟨rfl, by simp only [List.length_cons]; omega⟩ (fun b => ?_) fun e => endsWell_failed (by simp)
    split
    · split
      · exact log_endsWell (r := .ok _) (by simp only [List.length_cons]; omega) (by simp)
      · exact log_endsWell (r := .error _) (by simp only [List.length_cons]; omega) (by simp [Exn.isDomain])
    · refine .perform_bind ⟨rfl, by simp only [List.length_cons]; omega⟩ (fun now => ?_) fun e =>
        endsWell_failed (by simp)
      split
      · exact log_endsWell (r := .error _) (by simp only [List.length_cons]; omega) (by simp [Exn.isDomain])
      · cases b with
        | none => exact log_endsWell (r := .error _) (by simp only [List.length_cons]; omega) (by simp [Exn.isDomain])
        | some b =>
          dsimp only
          split
          · exact log_endsWell (r := .error _) (by simp only [List.length_cons]; omega) (by simp [Exn.isDomain])
          · refine .perform_bind ⟨rfl, by simp only [List.length_cons]; omega⟩ (fun q => ?_)
              fun e => endsWell_failed (by simp)
            split
            · exact log_endsWell (r := .error _) (by simp only [List.length_cons]; omega) (by simp [Exn.isDomain])
            · exact activateConfirmed_endsWell (by simp only [List.length_cons]; omega)

end Confirm

/-- The outcomes of a link message with a code. -/
def linkOutcomes : List Outcome :=
  [.confirmed, .alreadyConfirmed, .notFound, .used, .expired, .peerConflict, .rateLimited]

theorem confirmOutcome_mem (r : Except Exn ConfirmationResult) : (confirmOutcome r).1 ∈ linkOutcomes := by
  cases r with
  | ok result =>
    obtain ⟨status, userId, userVkId⟩ := result
    cases status with
    | confirmed =>
      show Outcome.confirmed ∈ linkOutcomes
      decide
    | alreadyConfirmed =>
      show Outcome.alreadyConfirmed ∈ linkOutcomes
      decide
  | error e =>
    cases e with
    | conflict message =>
      rw [confirmOutcome_conflict]
      split <;> simp [linkOutcomes]
    | notFound =>
      show Outcome.notFound ∈ linkOutcomes
      decide
    | gone =>
      show Outcome.expired ∈ linkOutcomes
      decide
    | rateLimited =>
      show Outcome.rateLimited ∈ linkOutcomes
      decide
    | _ =>
      show Outcome.used ∈ linkOutcomes
      decide

/-- The message was answered: its calls, one commit, one close and one reply, in this order. -/
def Answered (peerId : PeerId) (outcome : Outcome) (h : CallHistory) : Prop :=
  ∃ r delivered earlier, outcome = (confirmOutcome r).1 ∧
    h = ⟨.sendMessage peerId (confirmOutcome r).2, .ok delivered⟩ :: ⟨.close, .ok ()⟩ :: ⟨.commit, .ok ()⟩ :: earlier ∧
    ∀ e ∈ earlier, e.op.confirms = true

/-- The calls of a message, of which there are at most thirteen. -/
def MessageCall (h : CallHistory) (c : Call) : Prop :=
  h.length < 13 ∧ (c.confirms = true ∨ c = .commit ∨ c = .close ∨ ∃ peerId reply, c = .sendMessage peerId reply)

section Message
variable {h : CallHistory}

/-- A call that only an activation could have seen fail. -/
private theorem not_onlyTaken {c : Call} {e : Exn} (hc : c.confirms = false) : ¬ OnlyTaken (⟨c, .error e⟩ :: h) := by
  intro honly
  obtain ⟨_, _, _, _, _, heq⟩ := (onlyTaken_cons.mp honly).1 e rfl
  cases heq
  cases hc

theorem botCommit_answers (hlen : h.length < 11) : Conforms MessageCall (fun h' r => h'.length = h.length + 2 ∧
    (OnlyTaken h' → ∃ u, r = .ok u) ∧ ∀ u, r = .ok u → h' = ⟨.close, .ok ()⟩ :: ⟨.commit, .ok ()⟩ :: h) h botCommit := by
  refine .bind (Q := fun h' r => ∃ reply, h' = ⟨.commit, reply⟩ :: h ∧ r = .ok reply) _ _ _
    (.attempt (Q := fun h' r => h' = ⟨.commit, r⟩ :: h) _ _
      (.perform h ⟨by omega, .inr (.inl rfl)⟩ fun _ => rfl) fun _ r hr => ⟨r, hr, rfl⟩)
    (fun h' r hr => ?_) fun _ _ hr => by simp at hr
  obtain ⟨reply, rfl, heq⟩ := hr
  obtain rfl : r = reply := by simpa using heq
  refine .perform_bind ⟨by simp only [List.length_cons]; omega, .inr (.inr (.inl rfl))⟩ (fun _ => ?_)
    fun e => ⟨rfl, fun honly => absurd honly (not_onlyTaken rfl), by simp⟩
  cases r with
  | ok u => exact ⟨rfl, fun _ => ⟨(), rfl⟩, fun _ _ => rfl⟩
  | error e => exact ⟨rfl, fun honly => absurd (onlyTaken_cons.mp honly).2 (not_onlyTaken rfl), by simp⟩

/-- `_confirm` leaves the session to the handler, with an outcome and its reply. -/
theorem confirmForReply_answers (settings : VkSettings) (fromId : PeerId) (code : Str) :
    Conforms (ConfirmsWithin 10) (fun h r => ((OnlyTaken h → ∃ out, r = .ok out) ∧
      ∀ out, r = .ok out → ∃ r', out = confirmOutcome r') ∧ h.length ≤ 10 ∧ ∀ e ∈ h, e.op.confirms = true) []
      (confirmForReply settings fromId code) := by
  have hconf : Conforms (ConfirmsWithin 10) (fun h r => (OnlyTaken h → ∃ out, r = .ok out) ∧
      ∀ out, r = .ok out → ∃ r', out = confirmOutcome r') [] (confirmForReply settings fromId code) := by
    refine .perform_bind ⟨rfl, by simp⟩ (fun profile => ?_) fun e => ⟨fun honly => ?_, by simp⟩
    · refine .bind _ _ _ (attemptDomain_conforms (confirm_endsWell settings code fromId _ _ (by simp)))
        (fun h r hr => ⟨fun _ => ⟨_, rfl⟩, fun out hout => ⟨r, (Except.ok.inj hout).symm⟩⟩)
        fun h e hr => ⟨fun honly => ?_, by simp⟩
      have hdomain := hr.1 honly e rfl
      rw [hr.2.2 e rfl] at hdomain
      cases hdomain
    · obtain ⟨_, _, _, _, _, heq⟩ := (onlyTaken_cons.mp honly).1 e rfl
      cases heq
  refine .keeps (fun h c r hJ hc => ?_) ⟨by simp, by simp⟩ hconf
  exact ⟨hc.2, List.forall_mem_cons.mpr ⟨hc.1, hJ.2⟩⟩

/-- The handling of a private message with the link command and a code. -/
theorem handleMessage_answers (settings : VkSettings) {peerId fromId : PeerId} {text code : Str}
    (hprivate : isChatPeer peerId = false) (hlink : parseLinkCommand text settings.vkBotLinkCommand = some code)
    (hcode : code ≠ []) :
    Conforms MessageCall (fun h r => (OnlyTaken h → ∃ outcome, r = .ok outcome) ∧
      ∀ outcome, r = .ok outcome → Answered peerId outcome h) [] (handleMessage settings peerId fromId text) := by
  simp only [handleMessage, hprivate, hlink, Bool.false_eq_true, if_false]
  cases code with
  | nil => exact absurd rfl hcode
  | cons a rest =>
    refine .bind _ _ _ (.mono (fun h c hc => ?_) (fun _ _ hQ => hQ) _ _
      (confirmForReply_answers settings fromId (a :: rest)))
      (fun h out hout => ?_) fun h e hend => ⟨fun honly => ?_, by simp⟩
    · exact ⟨Nat.lt_of_lt_of_le hc.2 (by decide), .inl hc.1⟩
    · obtain ⟨⟨-, hout⟩, hlen, hconfirms⟩ := hout
      obtain ⟨r, rfl⟩ := hout out rfl
      refine .bind _ _ _ (botCommit_answers (by omega)) (fun h' u hclosed => ?_) fun h' e hclosed =>
        ⟨fun honly => ?_, by simp⟩
      · obtain ⟨hlen', -, hclosed⟩ := hclosed
        obtain rfl := hclosed u rfl
        refine .perform_bind ⟨by omega, .inr (.inr (.inr ⟨_, _, rfl⟩))⟩ (fun delivered => ?_)
          fun e => ⟨fun honly => absurd honly (not_onlyTaken rfl), by simp⟩
        refine ⟨fun _ => ⟨_, rfl⟩, fun outcome houtcome => ?_⟩
        exact ⟨r, delivered, h, (Except.ok.inj houtcome).symm, rfl, hconfirms⟩
      · obtain ⟨u, hu⟩ := hclosed.2.1 honly
        cases hu
    · obtain ⟨out, hout⟩ := hend.1.1 honly
      cases hout

end Message

end VkService
