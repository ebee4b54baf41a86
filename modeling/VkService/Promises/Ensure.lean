import VkService.Promises.Requests

/-! What a session around `ensure_binding` promises: it commits only after the call has
returned, and it fails with AlreadyExistsError only when a failed insert is followed by a
look-up that finds nothing. -/
namespace VkService
open PyStr Effects Effects.Prog

/-- `ensure_binding` has returned the row with its `created` flag. -/
inductive EnsureAnswer (userId : UUID) : CallHistory → UserVk → Bool → Prop
  | found (b : UserVk) : EnsureAnswer userId [⟨.userVkGetByUserId userId, .ok (some b)⟩] b false
  | created (b : UserVk) :
      EnsureAnswer userId [⟨.userVkCreate userId, .ok b⟩, ⟨.userVkGetByUserId userId, .ok none⟩] b true
  | raced (b : UserVk) (message : String) : EnsureAnswer userId [⟨.userVkGetByUserId userId, .ok (some b)⟩,
      ⟨.userVkCreate userId, .error (.alreadyExists message)⟩, ⟨.userVkGetByUserId userId, .ok none⟩] b false

/-- The call has returned, at the start of the session. -/
def EnsureReturned (userId : UUID) (h : CallHistory) (b : UserVk) (created : Bool) : Prop :=
  ∃ later earlier, h = later ++ earlier ∧ EnsureAnswer userId earlier b created

/-- An insert failed, and the row in its way was gone when it was looked up. -/
def LostRace (userId : UUID) (h : CallHistory) : Prop :=
  ∃ later message, h = later ++ [⟨.userVkGetByUserId userId, .ok none⟩,
    ⟨.userVkCreate userId, .error (.alreadyExists message)⟩, ⟨.userVkGetByUserId userId, .ok none⟩]

/-- Where an AlreadyExistsError can come from: a lost race, or a call that is no insert. -/
def Taken (userId : UUID) (h : CallHistory) (message : String) : Prop :=
  LostRace userId h ∨ ∃ e ∈ h, e.reply = .error (.alreadyExists message) ∧ ∀ u, e.op ≠ .userVkCreate u

section History
variable {userId : UUID} {h : CallHistory} {message : String}

theorem EnsureReturned.cons {b : UserVk} {created : Bool} (hr : EnsureReturned userId h b created) (e : CallEvent) :
    EnsureReturned userId (e :: h) b created := by
  obtain ⟨later, earlier, rfl, hanswer⟩ := hr
  exact ⟨e :: later, earlier, rfl, hanswer⟩

theorem Taken.cons (ht : Taken userId h message) (e : CallEvent) : Taken userId (e :: h) message := by
  rcases ht with ⟨later, m, rfl⟩ | ⟨e', he', hreply⟩
  · exact .inl ⟨e :: later, m, rfl⟩
  · exact .inr ⟨e', List.mem_cons_of_mem _ he', hreply⟩

/-- A way to end that accounts for every AlreadyExistsError. -/
def Accounted {α : Type} (userId : UUID) (h : CallHistory) (r : Except Exn α) : Prop :=
  ∀ message, r = .error (.alreadyExists message) → Taken userId h message

theorem accounted_ok {α : Type} (a : α) : Accounted userId h (.ok a) := fun _ hr => by cases hr

/-- The exception of a call that is no insert. -/
theorem accounted_error {α : Type} {c : Call} {e : Exn} (hc : ∀ u, c ≠ .userVkCreate u) :
    Accounted (α := α) userId (⟨c, .error e⟩ :: h) (.error e) := by
  rintro message ⟨⟩
  exact .inr ⟨_, List.mem_cons_self, rfl, hc⟩

/-- What the body of such a session promises of its end. -/
def BodyEnd {α : Type} (userId : UUID) (R : UserVk → Bool → α → Prop) (h : CallHistory) (r : Except Exn α) : Prop :=
  Accounted userId h r ∧ ∀ a, r = .ok a → ∃ b created, EnsureReturned userId h b created ∧ R b created a

theorem bodyEnd_error {α : Type} {R : UserVk → Bool → α → Prop} {c : Call} {e : Exn} (hc : ∀ u, c ≠ .userVkCreate u) :
    BodyEnd userId R (⟨c, .error e⟩ :: h) (.error e) :=
  ⟨accounted_error hc, fun _ hr => by cases hr⟩

end History

section Bodies
variable {userId : UUID} {h : CallHistory}

theorem ensureBinding_returns (userId : UUID) : Conforms (fun _ c => c.ends = false)
    (BodyEnd userId fun b created found => found = (b, created)) [] (ensureBinding userId) := by
  have hreturn : ∀ {h b created}, EnsureAnswer userId h b created →
      BodyEnd userId (fun b created found => found = (b, created)) h (.ok (b, created)) := by
    intro h b created hanswer
    refine ⟨accounted_ok _, fun a ha => ?_⟩
    cases ha
    exact ⟨b, created, ⟨[], h, rfl, hanswer⟩, rfl⟩
  refine .perform_bind rfl (fun found => ?_) fun e => bodyEnd_error (by simp)
  cases found with
  | some b => exact hreturn (.found b)
  | none =>
    refine ⟨rfl, fun reply => ?_⟩
    cases reply with
    | ok b => exact hreturn (.created b)
    | error e =>
      cases e with
      | alreadyExists message =>
        refine .perform_bind rfl (fun found => ?_) fun e => bodyEnd_error (by simp)
        cases found with
        | some b => exact hreturn (.raced b message)
        | none => exact ⟨fun _ _ => .inl ⟨[], message, rfl⟩, fun _ hr => by cases hr⟩
      | _ => exact ⟨fun _ hr => (by cases hr), fun _ hr => by cases hr⟩

/-- What comes after `ensure_binding` has returned. -/
def AfterEnsure {α : Type} (userId : UUID) (b : UserVk) (created : Bool) (h : CallHistory) (r : Except Exn α) : Prop :=
  EnsureReturned userId h b created ∧ Accounted userId h r

section After
variable {α : Type} {b : UserVk} {created : Bool} (hr : EnsureReturned userId h b created)
include hr

theorem EnsureReturned.after_ok (e : CallEvent) (a : α) : AfterEnsure userId b created (e :: h) (.ok a) :=
  ⟨hr.cons e, accounted_ok a⟩

/-- A call that is no insert fails, and its exception escapes. -/
theorem EnsureReturned.after_error {c : Call} {e : Exn} (hc : ∀ u, c ≠ .userVkCreate u) :
    AfterEnsure (α := α) userId b created (⟨c, .error e⟩ :: h) (.error e) :=
  ⟨hr.cons _, accounted_error hc⟩

theorem EnsureReturned.after_conflict (e : CallEvent) (message : String) :
    AfterEnsure (α := α) userId b created (e :: h) (.error (.conflict message)) :=
  ⟨hr.cons e, fun _ hr => by cases hr⟩

end After

theorem createUniqueCode_returns {b : UserVk} {created : Bool} (codeLength attempts : Nat)
    (hr : EnsureReturned userId h b created) : Conforms (fun _ c => c.ends = false) (AfterEnsure userId b created) h
      (createUniqueCode codeLength attempts) := by
  induction attempts generalizing h with
  | zero => exact ⟨hr, fun _ hr => by cases hr⟩
  | succ attempts ih =>
    refine .bind (Q := AfterEnsure userId b created) _ _ _ ?_ (fun h code hr => ?_) fun _ _ hr => hr
    · unfold generateCode
      split
      · exact ⟨hr, fun _ hr => by cases hr⟩
      · exact .perform_bind rfl (fun _ => hr.after_ok _ _) fun _ => hr.after_error (by simp)
    · refine .perform_bind rfl (fun found => ?_) fun _ => hr.1.after_error (by simp)
      cases found with
      | none => exact hr.1.after_ok _ _
      | some c => exact ih (hr.1.cons _)

theorem issueConfirmation_returns (settings : VkSettings) (userId : UUID) : Conforms (fun _ c => c.ends = false)
    (BodyEnd userId fun _ _ _ => True) [] (issueConfirmation settings userId) := by
  refine .bind _ _ _ (ensureBinding_returns userId) (fun h found hend => ?_) fun h e hend =>
    ⟨fun message he => hend.1 message (by cases he; rfl), fun _ hr => by cases hr⟩
  obtain ⟨b, created, hr, rfl⟩ := hend.2 _ rfl
  refine .mono (Q := AfterEnsure userId b created) (fun _ _ hc => hc)
    (fun _ _ hend => ⟨hend.2, fun _ _ => ⟨b, created, hend.1, trivial⟩⟩) _ _ ?_
  dsimp only
  cases b.state with
  | active =>
    exact .perform_bind rfl (fun _ => hr.after_conflict _ _) fun _ => hr.after_error (by simp)
  | blocked =>
    exact .perform_bind rfl (fun _ => hr.after_conflict _ _) fun _ => hr.after_error (by simp)
  | pending =>
    refine .perform_bind rfl (fun n => ?_) fun _ => hr.after_error (by simp)
    refine .bind _ _ _ (createUniqueCode_returns _ _ (hr.cons _)) (fun h code hcode => ?_) fun _ _ hend =>
      ⟨hend.1, fun message he => hend.2 message (by cases he; rfl)⟩
    have hr := hcode.1
    refine .perform_bind rfl (fun t => ?_) fun _ => hr.after_error (by simp)
    refine .perform_bind rfl (fun c => ?_) fun _ => (hr.cons _).after_error (by simp)
    exact .perform_bind rfl (fun _ => ((hr.cons _).cons _).after_ok _ _) fun _ =>
      ((hr.cons _).cons _).after_error (by simp)

end Bodies

section Sessions
variable {userId : UUID}

/-- When a session around `ensure_binding` may commit. -/
def CommitsReturned (userId : UUID) (h : CallHistory) (c : Call) : Prop :=
  c = .commit → ¬ Ended h ∧ ∃ b created, EnsureReturned userId h b created

/-- `get_session` commits what the body has returned, and lets its exception through. -/
theorem getSession_returns {α : Type} {body : Py α} {R : UserVk → Bool → α → Prop}
    (hbody : Conforms (fun _ c => c.ends = false) (BodyEnd userId R) [] body) :
    Conforms (CommitsReturned userId) (BodyEnd userId R) [] (getSession body) := by
  have hrunning := hbody.keeps (J := fun h => ¬ Ended h) (fun h c r hh hc => by
    rw [ended_cons, not_or]
    exact ⟨by rintro (hc' | hc' | hc') <;> simp_all [Call.ends], hh⟩) not_ended_nil
  have hend : ∀ {h r} {c : Call} (reply : Except Exn c.Reply), BodyEnd userId R h r →
      BodyEnd userId R (⟨c, reply⟩ :: h) r := by
    rintro h r c reply ⟨haccounted, hok⟩
    refine ⟨fun message hr => (haccounted message hr).cons _, fun a ha => ?_⟩
    obtain ⟨b, created, hr, hR⟩ := hok a ha
    exact ⟨b, created, hr.cons _, hR⟩
  refine withSession_conforms (Q := BodyEnd userId R) ?_ (fun _ _ _ hc => by cases hc)
    (fun _ _ hQ => hend _ hQ) fun _ _ _ _ => bodyEnd_error (by simp)
  refine .tryCatch (Q := BodyEnd userId R) _ _ _ ?_ (fun _ _ hQ => hQ) fun h e hQ => ?_
  · refine .bind _ _ _ (.mono (fun _ _ hc hcommit => by rw [hcommit] at hc; cases hc) (fun _ _ hQ => hQ) _ _ hrunning)
      (fun h a hQ => ?_) fun _ _ hQ => hQ.1
    obtain ⟨b, created, hr, -⟩ := hQ.1.2 a rfl
    exact .perform_bind (fun _ => ⟨hQ.2, b, created, hr⟩) (fun _ => hend _ hQ.1) fun _ => bodyEnd_error (by simp)
  · split
    · exact .perform_bind (fun hc => by cases hc) (fun _ => hend _ hQ) fun _ => bodyEnd_error (by simp)
    · exact hQ

/-- How a session around `ensure_binding` ends. -/
def EnsureEnd (userId : UUID) : CallHistory → Except Exn Answer → Prop :=
  BodyEnd userId fun b created a => ∀ b' created', a = .binding b' created' → b' = b ∧ created' = created

/-- The requests that get or create the binding of the user. -/
def Ensures (userId : UUID) (request : Request) : Prop :=
  request = .ensureBinding userId ∨ request = .issueConfirmation userId

section Calls
variable {settings : VkSettings} {request : Request} {h : CallHistory}

theorem Ensures.issues {c : Call} (hensures : Ensures userId request) (hcall : RequestCall settings request h c) :
    IssueCall userId h c := by
  rcases hensures with rfl | rfl <;> exact hcall

/-- Only `ensure_binding` creates a binding, after it has found none. -/
theorem RequestCall.creation (hcall : RequestCall settings request h (.userVkCreate userId)) :
    Ensures userId request ∧ h = [⟨.userVkGetByUserId userId, .ok none⟩] := by
  cases request with
  | ensureBinding userId' =>
    cases hcall with
    | create hh => exact ⟨.inl rfl, hh⟩
  | issueConfirmation userId' =>
    cases hcall with
    | create hh => exact ⟨.inr rfl, hh⟩
  | _ => cases hcall

/-- Only `unlink` removes a binding. -/
theorem RequestCall.removal (hcall : RequestCall settings request h (.userVkSoftDelete userId)) :
    request = .unlink userId := by
  cases request with
  | unlink userId' =>
    cases hcall with
    | delete => rfl
  | _ => cases hcall

end Calls

theorem ensures_returns (settings : VkSettings) {request : Request} (hensures : Ensures userId request) :
    Conforms (CommitsReturned userId) (EnsureEnd userId) [] (request.prog settings) := by
  have herror : ∀ {α : Type} {R : UserVk → Bool → α → Prop} {h : CallHistory} {e : Exn},
      BodyEnd userId R h (.error e) → EnsureEnd userId h (.error e) :=
    fun hend => ⟨fun message he => hend.1 message (by cases he; rfl), fun _ hr => by cases hr⟩
  rcases hensures with rfl | rfl
  · refine getSession_returns (.bind _ _ _ (ensureBinding_returns userId) (fun h found hend => ?_) fun _ _ => herror)
    obtain ⟨b, created, hr, rfl⟩ := hend.2 _ rfl
    refine ⟨accounted_ok _, fun a ha => ⟨b, created, hr, ?_⟩⟩
    cases ha
    rintro b' created' ⟨⟩
    exact ⟨rfl, rfl⟩
  · refine getSession_returns (.bind _ _ _ (issueConfirmation_returns settings userId) (fun h found hend => ?_)
      fun _ _ => herror)
    obtain ⟨b, created, hr, -⟩ := hend.2 _ rfl
    refine ⟨accounted_ok _, fun a ha => ⟨b, created, hr, ?_⟩⟩
    cases ha
    exact fun _ _ ha => by cases ha

end Sessions
end VkService
