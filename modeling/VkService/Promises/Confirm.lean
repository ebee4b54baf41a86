import VkService.Promises.SessionRules

/-! The control flow of a confirmation: the points it passes, and the calls it makes there. -/
namespace VkService
open PyStr Effects Effects.Prog

/-- Where a confirmation stands. -/
inductive ConfirmPoint where
  | start
  | clocked (t : Time)
  | checked (t : Time) (n : Nat)
  | missing
  | read (c : VkConfirmation)
  | loaded (c : VkConfirmation) (b : Option UserVk)
  | expired (c : VkConfirmation)
  | fresh (c : VkConfirmation) (b : Option UserVk)
  | free (c : VkConfirmation) (b : UserVk)
  | occupied (c : VkConfirmation)
  | activated (c : VkConfirmation) (b : UserVk)
  | used (c : VkConfirmation) (b : UserVk)

section Flow
variable (settings : VkSettings) (code : Str) (vkPeerId : PeerId) (sn dn : Option String)

/-- The histories that lead to a point. -/
inductive ConfirmAt : CallHistory → ConfirmPoint → Prop
  | start : ConfirmAt [] .start
  | clocked {h : CallHistory} (t : Time) (hat : ConfirmAt h .start) : ConfirmAt (⟨.now, .ok t⟩ :: h) (.clocked t)
  | checked {h : CallHistory} {t : Time} (n : Nat) (hat : ConfirmAt h (.clocked t)) :
      ConfirmAt (⟨.countFailedSince .confirmation vkPeerId
        (t - minutes settings.vkConfirmationAttemptWindowMinutes) failedStatuses, .ok n⟩ :: h) (.checked t n)
  | missing {h : CallHistory} {t : Time} {n : Nat} (hat : ConfirmAt h (.checked t n))
      (hn : n < settings.vkConfirmationMaxAttempts) :
      ConfirmAt (⟨.confirmationGetByCode (normalizeCode code), .ok none⟩ :: h) .missing
  | read {h : CallHistory} {t : Time} {n : Nat} (c : VkConfirmation) (hat : ConfirmAt h (.checked t n))
      (hn : n < settings.vkConfirmationMaxAttempts) :
      ConfirmAt (⟨.confirmationGetByCode (normalizeCode code), .ok (some c)⟩ :: h) (.read c)
  | loaded {h : CallHistory} {c : VkConfirmation} (b : Option UserVk) (hat : ConfirmAt h (.read c)) :
      ConfirmAt (⟨.userVkGetById c.userVkId, .ok b⟩ :: h) (.loaded c b)
  | expired {h : CallHistory} {c : VkConfirmation} {b : Option UserVk} {t : Time} (hat : ConfirmAt h (.loaded c b))
      (hunused : c.usedAt = none) (hexp : c.expiresAt ≤ t) : ConfirmAt (⟨.now, .ok t⟩ :: h) (.expired c)
  | fresh {h : CallHistory} {c : VkConfirmation} {b : Option UserVk} {t : Time} (hat : ConfirmAt h (.loaded c b))
      (hunused : c.usedAt = none) (hexp : t < c.expiresAt) : ConfirmAt (⟨.now, .ok t⟩ :: h) (.fresh c b)
  | free {h : CallHistory} {c : VkConfirmation} {b : UserVk} {q : Option UserVk} (hat : ConfirmAt h (.fresh c (some b)))
      (hlive : b.live = true) (hq : q.any (·.id ≠ c.userVkId) = false) :
      ConfirmAt (⟨.userVkGetByPeerId vkPeerId, .ok q⟩ :: h) (.free c b)
  | occupied {h : CallHistory} {c : VkConfirmation} {b : UserVk} {q : Option UserVk}
      (hat : ConfirmAt h (.fresh c (some b))) (hq : q.any (·.id ≠ c.userVkId) = true) :
      ConfirmAt (⟨.userVkGetByPeerId vkPeerId, .ok q⟩ :: h) (.occupied c)
  | lost {h : CallHistory} {c : VkConfirmation} {b : UserVk} (message : String) (hat : ConfirmAt h (.free c b)) :
      ConfirmAt (⟨.userVkActivate c.userVkId vkPeerId sn dn, .error (.alreadyExists message)⟩ :: h) (.occupied c)
  | activated {h : CallHistory} {c : VkConfirmation} {b : UserVk} (row : UserVk) (hat : ConfirmAt h (.free c b)) :
      ConfirmAt (⟨.userVkActivate c.userVkId vkPeerId sn dn, .ok row⟩ :: h) (.activated c b)
  | used {h : CallHistory} {c : VkConfirmation} {b : UserVk} (hat : ConfirmAt h (.activated c b)) :
      ConfirmAt (⟨.confirmationMarkUsed c.id, .ok ()⟩ :: h) (.used c b)

/-- The journal status that can be written at a point. -/
def ConfirmPoint.Logs (settings : VkSettings) : ConfirmPoint → LogStatus → Prop
  | .checked _ n, status => settings.vkConfirmationMaxAttempts ≤ n ∧ status = .rateLimited
  | .missing, status => status = .notFound
  | .loaded c _, status => c.usedAt.isSome = true ∧ (status = .used ∨ status = .alreadyConfirmed)
  | .expired _, status => status = .expired
  | .fresh _ _, status => status = .error
  | .occupied _, status => status = .peerConflict
  | .used _ _, status => status = .success
  | _, _ => False

/-- What may follow the control flow: journal rows, the end, and calls that failed. -/
def Closing (h : CallHistory) : Prop :=
  ∀ e ∈ h, (∃ x, e.reply = .error x) ∨ (∃ action status details, e.op = .logAction action status details) ∨
    e.op = .commit ∨ e.op = .close

/-- The control flow has reached a point and at most closed after it. -/
def Reached (h : CallHistory) (p : ConfirmPoint) : Prop :=
  ∃ later earlier, h = later ++ earlier ∧ Closing later ∧ ConfirmAt settings code vkPeerId sn dn earlier p

/-- When a confirmation may make a call. -/
inductive ConfirmCall (h : CallHistory) : Call → Prop
  | check (hat : ConfirmAt settings code vkPeerId sn dn h .start) : ConfirmCall h .now
  | count {t : Time} (hat : ConfirmAt settings code vkPeerId sn dn h (.clocked t)) :
      ConfirmCall h (.countFailedSince .confirmation vkPeerId
        (t - minutes settings.vkConfirmationAttemptWindowMinutes) failedStatuses)
  | lookup {t : Time} {n : Nat} (hat : ConfirmAt settings code vkPeerId sn dn h (.checked t n))
      (hn : n < settings.vkConfirmationMaxAttempts) : ConfirmCall h (.confirmationGetByCode (normalizeCode code))
  | load {c : VkConfirmation} (hat : ConfirmAt settings code vkPeerId sn dn h (.read c)) :
      ConfirmCall h (.userVkGetById c.userVkId)
  | reread {c : VkConfirmation} {b : Option UserVk} (hat : ConfirmAt settings code vkPeerId sn dn h (.loaded c b))
      (hunused : c.usedAt = none) : ConfirmCall h .now
  | peer {c : VkConfirmation} {b : UserVk} (hat : ConfirmAt settings code vkPeerId sn dn h (.fresh c (some b)))
      (hlive : b.live = true) : ConfirmCall h (.userVkGetByPeerId vkPeerId)
  | activate {c : VkConfirmation} {b : UserVk} (hat : ConfirmAt settings code vkPeerId sn dn h (.free c b)) :
      ConfirmCall h (.userVkActivate c.userVkId vkPeerId sn dn)
  | markUsed {c : VkConfirmation} {b : UserVk} (hat : ConfirmAt settings code vkPeerId sn dn h (.activated c b)) :
      ConfirmCall h (.confirmationMarkUsed c.id)
  | log {p : ConfirmPoint} {status : LogStatus} (details : Details)
      (hat : ConfirmAt settings code vkPeerId sn dn h p) (hs : p.Logs settings status) :
      ConfirmCall h (.logAction .confirmation status (("vk_peer_id", toString vkPeerId) :: details))
  | commit (hrun : ¬ Ended h) (hused : Honest h → ∀ c b, ¬ Reached settings code vkPeerId sn dn h (.activated c b)) :
      ConfirmCall h .commit
  | close : ConfirmCall h .close

end Flow

section Histories
variable {settings : VkSettings} {code : Str} {vkPeerId : PeerId} {sn dn : Option String} {h : CallHistory}

theorem ConfirmCall.activating {x : UUID} {peer : PeerId} {sn' dn' : Option String}
    (hcall : ConfirmCall settings code vkPeerId sn dn h (.userVkActivate x peer sn' dn')) :
    ∃ c b, c.userVkId = x ∧ peer = vkPeerId ∧ ConfirmAt settings code vkPeerId sn dn h (.free c b) := by
  cases hcall with
  | activate hat => exact ⟨_, _, rfl, rfl, hat⟩

theorem ConfirmCall.marking {y : UUID} (hcall : ConfirmCall settings code vkPeerId sn dn h (.confirmationMarkUsed y)) :
    ∃ c b, c.id = y ∧ ConfirmAt settings code vkPeerId sn dn h (.activated c b) := by
  cases hcall with
  | markUsed hat => exact ⟨_, _, rfl, hat⟩

theorem ConfirmCall.looking {code' : Str}
    (hcall : ConfirmCall settings code vkPeerId sn dn h (.confirmationGetByCode code')) :
    code' = normalizeCode code ∧ ∃ t n, ConfirmAt settings code vkPeerId sn dn h (.checked t n) := by
  cases hcall with
  | lookup hat _ => exact ⟨rfl, _, _, hat⟩

/-- A call that succeeded and changed a binding or a code. -/
def Writes (e : CallEvent) : Prop :=
  (∃ id peer sn dn row, e = ⟨.userVkActivate id peer sn dn, .ok row⟩) ∨ ∃ id u, e = ⟨.confirmationMarkUsed id, .ok u⟩

/-- Nothing has been changed before the activation. -/
def ConfirmPoint.early : ConfirmPoint → Bool
  | .activated .. | .used .. => false
  | _ => true

theorem ConfirmAt.not_writes {p : ConfirmPoint} (hat : ConfirmAt settings code vkPeerId sn dn h p)
    (hp : p.early = true) : ∀ e ∈ h, ¬ Writes e := by
  induction hat with
  | start => simp
  | activated row hat ih => cases hp
  | used hat ih => cases hp
  | _ =>
    rename_i ih
    rintro e he
    rcases List.mem_cons.mp he with rfl | he
    · simp [Writes]
    · exact ih rfl e he
theorem ConfirmAt.not_ended {p : ConfirmPoint} (hat : ConfirmAt settings code vkPeerId sn dn h p) : ¬ Ended h := by
  induction hat with
  | start => exact not_ended_nil
  | _ =>
    rename_i ih
    simpa [ended_cons] using ih

/-- The code a confirmation has read by then. -/
def ConfirmPoint.confirmation : ConfirmPoint → Option VkConfirmation
  | .start | .clocked _ | .checked .. | .missing => none
  | .read c | .loaded c _ | .expired c | .fresh c _ | .free c _ | .occupied c | .activated c _ | .used c _ => some c

theorem ConfirmAt.looked {p : ConfirmPoint} {c : VkConfirmation} (hat : ConfirmAt settings code vkPeerId sn dn h p)
    (hp : p.confirmation = some c) : ⟨.confirmationGetByCode (normalizeCode code), .ok (some c)⟩ ∈ h := by
  induction hat with
  | start | clocked | checked | missing => cases hp
  | read c' hat ih =>
    cases hp
    exact List.mem_cons_self
  | _ =>
    rename_i ih
    exact List.mem_cons_of_mem _ (ih hp)

theorem not_reached_of_not_writes (hno : ∀ e ∈ h, ¬ Writes e) (c : VkConfirmation) (b : UserVk) :
    ¬ Reached settings code vkPeerId sn dn h (.activated c b) := by
  rintro ⟨later, earlier, rfl, -, hat⟩
  cases hat with
  | activated row hat => exact hno _ (List.mem_append_right _ List.mem_cons_self) (.inl ⟨_, _, _, _, _, rfl⟩)

/-- Once the code is marked used, the activation is behind. -/
theorem not_reached_of_used (later : CallHistory) {earlier : CallHistory} {c : VkConfirmation} {b : UserVk}
    (hat : ConfirmAt settings code vkPeerId sn dn earlier (.used c b)) (c' : VkConfirmation) (b' : UserVk) :
    ¬ Reached settings code vkPeerId sn dn (later ++ earlier) (.activated c' b') := by
  rintro ⟨later', earlier', heq, hclosing, hat'⟩
  cases hat with
  | used hat =>
    have hmem : (⟨.confirmationMarkUsed c.id, .ok ()⟩ : CallEvent) ∈ later' ++ earlier' := by
      rw [← heq]
      exact List.mem_append_right _ List.mem_cons_self
    cases hat' with
    | activated row hat' =>
      rcases List.mem_append.mp hmem with hmem | hmem
      · rcases hclosing _ hmem with ⟨x, hx⟩ | ⟨_, _, _, hop⟩ | hop | hop <;> simp at *
      · rcases List.mem_cons.mp hmem with he | hmem
        · simp at he
        · exact hat'.not_writes rfl _ hmem (.inr ⟨_, _, rfl⟩)

/-- How `confirm` leaves its transaction to the code around it. -/
def ConfirmEnd (settings : VkSettings) (code : Str) (vkPeerId : PeerId) (sn dn : Option String) (h : CallHistory) :
    Except Exn ConfirmationResult → Prop
  | .ok result => ¬ Ended h ∧ (∀ c b, ¬ Reached settings code vkPeerId sn dn h (.activated c b)) ∧
      (result.status = .confirmed → ∃ c b, c.userVkId = result.userVkId ∧
        Reached settings code vkPeerId sn dn h (.used c b))
  | .error e => ¬ Ended h ∧ (Honest h → e.isDomain = true →
      ∀ c b, ¬ Reached settings code vkPeerId sn dn h (.activated c b))

/-- A call that fails with an exception of its own is no domain error. -/
private theorem error_end {op : Call} {e : Exn} (hrun : ¬ Ended h) (hop : op ≠ .commit ∧ op ≠ .rollback ∧ op ≠ .close) :
    ConfirmEnd settings code vkPeerId sn dn (⟨op, .error e⟩ :: h) (.error e) := by
  refine ⟨by simpa [ended_cons, hop] using hrun, fun hhonest hdomain => ?_⟩
  have := (honest_cons.mp hhonest).1 e rfl
  rw [Exn.isOwn_of_isDomain hdomain] at this
  cases this

/-- A journal row of a confirmation that has changed nothing. -/
private theorem logged {p : ConfirmPoint} {c : Call} (reply : Except Exn c.Reply)
    (hat : ConfirmAt settings code vkPeerId sn dn h p) (hearly : p.early = true)
    (hc : ∃ status details, c = .logAction .confirmation status details) :
    ¬ Ended (⟨c, reply⟩ :: h) ∧ ∀ c' b, ¬ Reached settings code vkPeerId sn dn (⟨c, reply⟩ :: h) (.activated c' b) := by
  obtain ⟨status, details, rfl⟩ := hc
  refine ⟨by simpa [ended_cons] using hat.not_ended, not_reached_of_not_writes fun e he => ?_⟩
  rcases List.mem_cons.mp he with rfl | he
  · simp [Writes]
  · exact hat.not_writes hearly e he

/-- A journal row and a result end such a confirmation. -/
private theorem log_conforms {p : ConfirmPoint} {status : LogStatus} {details : Details}
    {r : Except Exn ConfirmationResult} (hat : ConfirmAt settings code vkPeerId sn dn h p) (hearly : p.early = true)
    (hs : p.Logs settings status) (hr : ∀ a, r = .ok a → a.status ≠ .confirmed) :
    Conforms (ConfirmCall settings code vkPeerId sn dn) (ConfirmEnd settings code vkPeerId sn dn) h
      (do logConfirmation status vkPeerId details; ofExcept r) := by
  refine ⟨.log details hat hs, fun reply => ?_⟩
  have hend := logged reply hat hearly ⟨_, _, rfl⟩
  cases reply with
  | ok row =>
    cases r with
    | ok a => exact ⟨hend.1, hend.2, fun hc => absurd hc (hr a rfl)⟩
    | error x => exact ⟨hend.1, fun _ _ => hend.2⟩
  | error e => exact ⟨hend.1, fun _ _ => hend.2⟩

/-- Past the limit the confirmation goes on from what it has read. -/
def PassedLimit (settings : VkSettings) (code : Str) (vkPeerId : PeerId) (sn dn : Option String) (h : CallHistory) :
    Except Exn Unit → Prop
  | .ok _ => ∃ t n, n < settings.vkConfirmationMaxAttempts ∧ ConfirmAt settings code vkPeerId sn dn h (.checked t n)
  | .error e => ConfirmEnd settings code vkPeerId sn dn h (.error e)

theorem enforceRateLimit_conforms (settings : VkSettings) (code : Str) (vkPeerId : PeerId) (sn dn : Option String)
    (masked : String) : Conforms (ConfirmCall settings code vkPeerId sn dn) (PassedLimit settings code vkPeerId sn dn)
      [] (enforceRateLimit settings vkPeerId masked) := by
  have hstart : ConfirmAt settings code vkPeerId sn dn [] .start := .start
  refine .perform_bind (.check hstart) (fun t => ?_) fun e => error_end hstart.not_ended (by simp)
  have hclocked := ConfirmAt.clocked t hstart
  refine .perform_bind (.count hclocked) (fun n => ?_) fun e => error_end hclocked.not_ended (by simp)
  have hchecked := ConfirmAt.checked n hclocked
  split
  · rename_i hn
    refine ⟨.log _ hchecked ⟨hn, rfl⟩, fun reply => ?_⟩
    have hend := logged reply hchecked rfl ⟨_, _, rfl⟩
    cases reply with
    | ok row => exact ⟨hend.1, fun _ _ => hend.2⟩
    | error e => exact ⟨hend.1, fun _ _ => hend.2⟩
  · rename_i hn
    exact ⟨t, n, by omega, hchecked⟩

/-- The activation is followed by its mark, whatever fails on the way. -/
theorem activateConfirmed_conforms {c : VkConfirmation} {b : UserVk} {masked : String}
    (hat : ConfirmAt settings code vkPeerId sn dn h (.free c b)) :
    Conforms (ConfirmCall settings code vkPeerId sn dn) (ConfirmEnd settings code vkPeerId sn dn) h
      (activateConfirmed c b masked vkPeerId sn dn) := by
  refine ⟨.activate hat, fun reply => ?_⟩
  cases reply with
  | error e =>
    cases e with
    | alreadyExists message =>
      have hlost := ConfirmAt.lost message hat
      refine ⟨.log _ hlost rfl, fun reply => ?_⟩
      have hend := logged reply hlost rfl ⟨_, _, rfl⟩
      cases reply with
      | ok row => exact ⟨hend.1, fun _ _ => hend.2⟩
      | error e => exact ⟨hend.1, fun _ _ => hend.2⟩
    | _ => exact error_end hat.not_ended (by simp)
  | ok row =>
    have hactivated := ConfirmAt.activated row hat
    refine ⟨.markUsed hactivated, fun reply => ?_⟩
    cases reply with
    | error e => exact error_end hactivated.not_ended (by simp)
    | ok u =>
      have hused := ConfirmAt.used hactivated
      refine ⟨.log _ hused rfl, fun reply => ?_⟩
      have hnot := not_reached_of_used [⟨.logAction .confirmation .success _, reply⟩] hused
      cases reply with
      | error e => exact error_end hused.not_ended (by simp)
      | ok row' =>
        refine ⟨by simpa [ended_cons] using hused.not_ended, hnot, fun _ => ⟨c, b, rfl, [_], _, rfl, ?_, hused⟩⟩
        simp [Closing]

theorem confirm_conforms (settings : VkSettings) (code : Str) (vkPeerId : PeerId) (sn dn : Option String) :
    Conforms (ConfirmCall settings code vkPeerId sn dn) (ConfirmEnd settings code vkPeerId sn dn) []
      (confirm settings code vkPeerId sn dn) := by
  refine .bind _ _ _ (enforceRateLimit_conforms settings code vkPeerId sn dn _)
    (fun h _ hpassed => ?_) fun _ _ hend => hend
  obtain ⟨t, n, hn, hchecked⟩ := hpassed
  refine .perform_bind (.lookup hchecked hn) (fun found => ?_) fun e => error_end hchecked.not_ended (by simp)
  cases found with
  | none => exact log_conforms (r := .error _) (.missing hchecked hn) rfl rfl (by simp)
  | some c =>
    have hread := ConfirmAt.read c hchecked hn
    refine .perform_bind (.load hread) (fun b => ?_) fun e => error_end hread.not_ended (by simp)
    have hloaded := ConfirmAt.loaded b hread
    split
    · rename_i hused
      split
      · exact log_conforms (r := .ok _) hloaded rfl ⟨hused, .inr rfl⟩ (by simp)
      · exact log_conforms (r := .error _) hloaded rfl ⟨hused, .inl rfl⟩ (by simp)
    · rename_i hused
      have hunused : c.usedAt = none := by simpa using hused
      refine .perform_bind (.reread hloaded hunused) (fun now => ?_) fun e => error_end hloaded.not_ended (by simp)
      split
      · rename_i hexp
        exact log_conforms (r := .error _) (.expired hloaded hunused hexp) rfl rfl (by simp)
      · rename_i hexp
        have hfresh := ConfirmAt.fresh hloaded hunused (Int.not_le.mp hexp)
        cases b with
        | none => exact log_conforms (r := .error _) hfresh rfl rfl (by simp)
        | some b =>
          dsimp only
          split
          · exact log_conforms (r := .error _) hfresh rfl rfl (by simp)
          · rename_i hlive
            have hlive : b.live = true := by simpa using hlive
            refine .perform_bind (.peer hfresh hlive) (fun q => ?_) fun e => error_end hfresh.not_ended (by simp)
            split
            · rename_i hq
              exact log_conforms (r := .error _) (.occupied hfresh hq) rfl rfl (by simp)
            · rename_i hq
              exact activateConfirmed_conforms (.free hfresh hlive (by simpa using hq))

end Histories
end VkService
