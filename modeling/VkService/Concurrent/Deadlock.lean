import VkService.Concurrent.Database
import VkService.Promises.Requests
import VkService.Storage.LockOrder

/-! The advisory locks of concurrent deliveries. Every delivery locks its recipients in the
order of its list, so redeliveries of one message never wait in a circle. -/
namespace VkService
open PyStr Effects Effects.Prog Machine

section Order

/-- A claim comes after the claims of recipients earlier in the list, and after no others. -/
def ClaimsInOrder (command : NotificationCommandSendVkData) (h : CallHistory) (c : Call) : Prop :=
  ∀ event user peer, c = .claimAttempt event user peer → event = command.eventUuid ∧
    ∃ front later, command.userIds = front ++ user :: later ∧
      ∀ event' user' peer' r, ⟨.claimAttempt event' user' peer', r⟩ ∈ h → user' ∈ front

/-- The order in which a request takes advisory locks. -/
def LockCall (request : Request) (h : CallHistory) (c : Call) : Prop :=
  match request with
  | .deliver command => ClaimsInOrder command h c
  | _ => ∀ event user peer, c ≠ .claimAttempt event user peer

/-- The claims so far are of recipients in front of the rest of the list. -/
def ClaimedIn (front : List UUID) (h : CallHistory) : Prop :=
  ∀ event user peer r, ⟨.claimAttempt event user peer, r⟩ ∈ h → user ∈ front

theorem ClaimedIn.cons {front : List UUID} {h : CallHistory} {e : CallEvent} (hin : ClaimedIn front h)
    (he : ∀ event user peer, e.op = .claimAttempt event user peer → user ∈ front) : ClaimedIn front (e :: h) := by
  intro event user peer r hmem
  rcases List.mem_cons.mp hmem with heq | hmem
  · exact he event user peer (by rw [← heq])
  · exact hin event user peer r hmem

variable {command : NotificationCommandSendVkData} {h : CallHistory}

/-- Calls that lock nothing are allowed at any time. -/
private theorem ClaimsInOrder.free {c : Call} (hc : ∀ event user peer, c ≠ .claimAttempt event user peer) :
    ClaimsInOrder command h c :=
  fun event user peer heq => absurd heq (hc event user peer)

theorem deliverTo_inOrder (active : List (UUID × PeerId)) (front rest : List UUID) (failed : Bool)
    (hlist : command.userIds = front ++ rest) (hin : ClaimedIn front h) :
    Conforms (ClaimsInOrder command) (fun _ _ => True) h
      (deliverTo command.eventUuid command.text active rest failed) := by
  induction rest generalizing front failed h with
  | nil => trivial
  | cons user rest ih =>
    have hlist' : command.userIds = (front ++ [user]) ++ rest := by simp [hlist]
    have hin' : ClaimedIn (front ++ [user]) h := fun event u peer r hmem =>
      List.mem_append_left _ (hin event u peer r hmem)
    rw [deliverTo]
    cases active.lookup user with
    | none => exact ih (front ++ [user]) failed hlist' hin'
    | some peer =>
      refine .perform_bind ?_ (fun found => ?_) fun _ => trivial
      · rintro event u p ⟨⟩
        exact ⟨rfl, front, rest, hlist, hin⟩
      · have hclaimed : ClaimedIn (front ++ [user])
            (⟨.claimAttempt command.eventUuid user peer, .ok found⟩ :: h) := by
          refine hin'.cons ?_
          rintro event u p ⟨⟩
          simp
        cases found with
        | none => exact ih (front ++ [user]) failed hlist' hclaimed
        | some row =>
          refine .perform_bind (.free (by simp)) (fun went => ?_) fun _ => trivial
          have hsent := hclaimed.cons (e := ⟨.sendMessage peer command.text, .ok went⟩) (by simp)
          cases went with
          | false =>
            refine .perform_bind (.free (by simp)) (fun row => ?_) fun _ => trivial
            exact ih (front ++ [user]) true hlist' (hsent.cons (by simp))
          | true =>
            refine .perform_bind (.free (by simp)) (fun row => ?_) fun _ => trivial
            exact ih (front ++ [user]) failed hlist' (hsent.cons (by simp))

theorem handleCommand_inOrder (command : NotificationCommandSendVkData) :
    Conforms (ClaimsInOrder command) (fun _ _ => True) [] (handleCommand command) := by
  have hdeliver : Conforms (ClaimsInOrder command) (fun _ _ => True) [] (deliver command) := by
    refine .perform_bind (.free (by simp)) (fun bindings => ?_) fun _ => trivial
    refine .bind (Q := fun _ _ => True) _ _ _ ?_ (fun h failed _ => ?_) fun _ _ _ => trivial
    · exact deliverTo_inOrder _ [] _ _ rfl (by simp [ClaimedIn])
    · split <;> trivial
  refine withSession_conforms (Q := fun _ _ => True) ?_ (fun _ _ _ => .free (by simp)) (fun _ _ _ => trivial)
    fun _ _ _ _ => trivial
  refine .bind (Q := fun _ _ => True) _ _ _ (.tryCatch (Q := fun _ _ => True) _ _ _ hdeliver (fun _ _ _ => trivial)
    fun h e _ => ?_) (fun h _ _ => .perform _ (.free (by simp)) fun _ => trivial) fun _ _ _ => trivial
  have hrollback : Conforms (ClaimsInOrder command) (fun _ _ => True) h
      (if e.isException then do await .rollback; throw e else throw e : Py Unit) := by
    split
    · exact .perform_bind (.free (by simp)) (fun _ => trivial) fun _ => trivial
    · trivial
  cases e with
  | deliveryRetryable => exact .perform_bind (.free (by simp)) (fun _ => trivial) fun _ => trivial
  | _ => exact hrollback

/-- Only deliveries take advisory locks. -/
theorem request_lockCall (settings : VkSettings) (request : Request) :
    Conforms (LockCall request) (fun _ _ => True) [] (request.prog settings) := by
  have hother : (∀ command, request ≠ .deliver command) → Conforms (fun _ c => ∀ event user peer,
      c ≠ .claimAttempt event user peer) (fun _ _ => True) [] (request.prog settings) := by
    intro hne
    refine .mono (fun h c hcall event user peer hc => ?_) (fun _ _ _ => trivial) _ _ (request_conforms settings request)
    subst hc
    cases request with
    | deliver command => exact hne command rfl
    | _ => cases hcall
  cases request with
  | deliver command => exact .bind _ _ _ (handleCommand_inOrder command) (fun _ _ _ => trivial) fun _ _ _ => trivial
  | _ => exact hother (by simp)

end Order
section Runs
variable {hashtext : String → Int} {settings : VkSettings} {pool : Tid → Request}

/-- The next call of `t` is a claim whose advisory lock is held by `t'`. -/
def WaitsForLock (hashtext : String → Int) (s : Run) (t t' : Tid) : Prop :=
  t' ≠ t ∧ ∃ event user peer k, s.prog t = some (.call (.claimAttempt event user peer) k) ∧
    (t', lockKey hashtext event user) ∈ s.shared.advisory

/-- Commands for the same event have the same recipients. -/
def Redeliveries (pool : Tid → Request) : Prop :=
  ∀ t t' command command', pool t = .deliver command → pool t' = .deliver command' →
    command.eventUuid = command'.eventUuid → command.userIds = command'.userIds

/-- Distinct pairs of the delivered commands have distinct lock keys. -/
def DistinctKeys (hashtext : String → Int) (pool : Tid → Request) : Prop :=
  ∀ t t' command command', pool t = .deliver command → pool t' = .deliver command' →
    ∀ user ∈ command.userIds, ∀ user' ∈ command'.userIds,
      lockKey hashtext command.eventUuid user = lockKey hashtext command'.eventUuid user' →
      command.eventUuid = command'.eventUuid ∧ user = user'

/-- Every held lock was taken by a claim of its holder. -/
def LocksClaimed {α : Type} (hashtext : String → Int) (s : Sys Call Call.Reply Exn α Tid Store) : Prop :=
  ∀ t key, (t, key) ∈ s.shared.advisory → ∃ event user peer r,
    ⟨.claimAttempt event user peer, r⟩ ∈ s.history t ∧ key = lockKey hashtext event user

/-- A lock that is held after a call was held before it, or the call has claimed it. -/
theorem advisory_cases {t t' : Tid} {s : Store} {change : Change} {c : Call} {key : Int × Int}
    (h : (t', key) ∈ (acquire hashtext t (s.apply t change) c).advisory) : (t', key) ∈ s.advisory ∨
      t' = t ∧ ∃ event user peer, c = .claimAttempt event user peer ∧ key = lockKey hashtext event user := by
  have hkept : (t', key) ∈ (s.apply t change).advisory → (t', key) ∈ s.advisory := by
    intro hmem
    cases change with
    | commit | rollback => exact List.mem_of_mem_filter hmem
    | _ => exact hmem
  cases c with
  | claimAttempt event user peer =>
    rcases List.mem_cons.mp h with heq | hmem
    · obtain ⟨ht, hkey⟩ := Prod.mk.inj heq
      exact .inr ⟨ht, event, user, peer, rfl, hkey⟩
    · exact .inl (hkept hmem)
  | _ => exact .inl (hkept h)

theorem locksClaimed_reach {α : Type} {programs : Tid → Py α} {T : Tables} {s : Sys Call Call.Reply Exn α Tid Store}
    {cond : Move Tid World → Sys Call Call.Reply Exn α Tid Store → Prop}
    (hreach : (database hashtext).Reach cond (Sys.start programs (Store.ofTables T)) s) : LocksClaimed hashtext s := by
  refine reach_induction (database hashtext) (fun t key hmem => by cases hmem) ?_ ?_ hreach
  · intro s t w c k r next _ hinv _ _ hexec t' key hmem
    obtain ⟨-, -, rfl⟩ := execCall_cases hexec
    rcases advisory_cases hmem with hheld | ⟨rfl, event, user, peer, rfl, rfl⟩
    · obtain ⟨event, user, peer, r', hclaim, hkey⟩ := hinv t' key hheld
      exact ⟨event, user, peer, r', s.mem_history_advance t c k r _ hclaim, hkey⟩
    · refine ⟨event, user, peer, r, ?_, rfl⟩
      rw [Sys.history_advance_self]
      exact List.mem_cons_self
  · intro s t c k _ hinv _ _ t' key hmem
    exact hinv t' key (List.mem_of_mem_filter hmem)

/-- Every delivery keeps to its order of claims. -/
theorem lockCalls_reach {T : Tables} {s : Run}
    (hreach : Reaches hashtext anyMove (launch settings pool (.ofTables T)) s) :
    Conforming (fun t => LockCall (pool t)) (fun _ _ _ => True) s :=
  conforming_reach (database hashtext) (conforming_start fun t => request_lockCall settings (pool t)) hreach

/-- Of two recipients of one event, the one that is claimed first. -/
def ClaimedBefore (pool : Tid → Request) (pair pair' : UUID × UUID) : Prop :=
  pair.1 = pair'.1 ∧ ∃ t command, pool t = .deliver command ∧ command.eventUuid = pair.1 ∧
    command.userIds.idxOf pair.2 < command.userIds.idxOf pair'.2

theorem claimedBefore_trans (hsame : Redeliveries pool) : IsTrans (UUID × UUID) (ClaimedBefore pool) where
  trans := by
    rintro a b c ⟨hab, t, command, hpool, hevent, hlt⟩ ⟨hbc, t', command', hpool', hevent', hlt'⟩
    have hids : command.userIds = command'.userIds :=
      hsame t t' command command' hpool hpool' (by rw [hevent, hevent', hab])
    rw [← hids] at hlt'
    exact ⟨hab.trans hbc, t, command, hpool, hevent, Nat.lt_trans hlt hlt'⟩

theorem claimedBefore_irrefl : Std.Irrefl (ClaimedBefore pool) where
  irrefl := by
    rintro a ⟨-, t, command, -, -, hlt⟩
    exact Nat.lt_irrefl _ hlt

/-- A recipient in front of another has the smaller place in a list without duplicates. -/
private theorem idxOf_lt {front later : List UUID} {u v : UUID} (hnodup : (front ++ v :: later).Nodup)
    (hu : u ∈ front) :
    (front ++ v :: later).idxOf u < (front ++ v :: later).idxOf v := by
  have hv : v ∉ front := fun hv => (List.nodup_append.mp hnodup).2.2 v hv v List.mem_cons_self rfl
  rw [List.idxOf_append_of_mem hu, List.idxOf_append_of_notMem hv, List.idxOf_cons_self, Nat.add_zero]
  exact List.idxOf_lt_length_of_mem hu

/-- A claim that a request makes is of a recipient of its command. -/
private theorem LockCall.claim {request : Request} {h : CallHistory} {event user : UUID} {peer : PeerId}
    (hcall : LockCall request h (.claimAttempt event user peer)) :
    ∃ command, request = .deliver command ∧ ClaimsInOrder command h (.claimAttempt event user peer) := by
  cases request with
  | deliver command => exact ⟨command, rfl, hcall⟩
  | _ => exact absurd rfl (hcall event user peer)

private theorem LockCall.recipient {request : Request} {h : CallHistory} {event user : UUID} {peer : PeerId}
    (hcall : LockCall request h (.claimAttempt event user peer)) :
    ∃ command, request = .deliver command ∧ event = command.eventUuid ∧ user ∈ command.userIds := by
  obtain ⟨command, rfl, horder⟩ := hcall.claim
  obtain ⟨hevent, front, later, hlist, -⟩ := horder event user peer rfl
  exact ⟨command, rfl, hevent, by simp [hlist]⟩

/-- The wait-for graph over the advisory locks has no cycle. -/
theorem advisory_locks_never_deadlock (hashtext : String → Int) (settings : VkSettings) (pool : Tid → Request)
    (T : Tables) (s : Run) (hsame : Redeliveries pool) (hkeys : DistinctKeys hashtext pool)
    (hreach : Reaches hashtext anyMove (launch settings pool (.ofTables T)) s) (t : Tid) :
    ¬ Relation.TransGen (WaitsForLock hashtext s) t t := by
  have hconf := lockCalls_reach hreach
  have hlocks := locksClaimed_reach hreach
  have := claimedBefore_trans hsame
  have : Std.Irrefl (ClaimedBefore pool) := claimedBefore_irrefl
  let wants : Tid → UUID × UUID → Prop := fun t pair =>
    ∃ peer k, s.prog t = some (.call (.claimAttempt pair.1 pair.2 peer) k)
  let holds : Tid → UUID × UUID → Prop := fun t pair =>
    ∃ peer r, ⟨.claimAttempt pair.1 pair.2 peer, r⟩ ∈ s.history t
  have hwants : ∀ t pair, wants t pair → ∃ peer, LockCall (pool t) (s.history t)
    (.claimAttempt pair.1 pair.2 peer) := by
    rintro t pair ⟨peer, k, hp⟩
    exact ⟨peer, (hconf.rest t _ hp).1⟩
  have hholds : ∀ t pair, holds t pair →
      ∃ peer h, LockCall (pool t) h (.claimAttempt pair.1 pair.2 peer) := by
    rintro t pair ⟨peer, r, hmem⟩
    obtain ⟨later, earlier, -, hcall⟩ := (hconf.traced t).of_mem hmem
    exact ⟨peer, earlier, hcall⟩
  have hone : ∀ t pair pair', wants t pair → wants t pair' → pair = pair' := by
    rintro t pair pair' ⟨peer, k, hp⟩ ⟨peer', k', hp'⟩
    rw [hp, Option.some.injEq, Prog.call.injEq, Call.claimAttempt.injEq] at hp'
    exact Prod.ext hp'.1.1 hp'.1.2.1
  have horder : ∀ t pair pair', holds t pair → wants t pair' → ClaimedBefore pool pair pair' := by
    intro t pair pair' hhold hwant
    obtain ⟨peer', hcall⟩ := hwants t pair' hwant
    obtain ⟨command, hpool, hin⟩ := hcall.claim
    obtain ⟨hevent', front, later, hlist, hfront⟩ := hin _ _ _ rfl
    obtain ⟨peer₀, h₀, hcall₀⟩ := hholds t pair hhold
    obtain ⟨command₀, hpool₀, hevent, -⟩ := hcall₀.recipient
    obtain rfl : command = command₀ := by simpa [hpool] using hpool₀
    obtain ⟨peer, r, hmem⟩ := hhold
    have hlt := idxOf_lt (hlist ▸ command.userIds_nodup) (hfront _ _ _ _ hmem)
    exact ⟨hevent.trans hevent'.symm, t, command, hpool, hevent.symm, hlist ▸ hlt⟩
  have hedge : ∀ t t', WaitsForLock hashtext s t t' → LockOrder.WaitsFor wants holds t t' := by
    rintro t t' ⟨hne, event, user, peer, k, hp, hheld⟩
    obtain ⟨event', user', peer', r, hmem, hkey⟩ := hlocks t' _ hheld
    obtain ⟨_, hcall⟩ := hwants t (event, user) ⟨peer, k, hp⟩
    obtain ⟨command, hpool, rfl, huser⟩ := hcall.recipient
    obtain ⟨_, _, hcall'⟩ := hholds t' (event', user') ⟨peer', r, hmem⟩
    obtain ⟨command', hpool', rfl, huser'⟩ := hcall'.recipient
    obtain ⟨hevents, rfl⟩ := hkeys t t' command command' hpool hpool' user huser user' huser' hkey
    exact ⟨hne, (command.eventUuid, user), ⟨peer, k, hp⟩, peer', r, hevents ▸ hmem⟩
  exact fun hcycle => LockOrder.acyclic hone horder t (Relation.TransGen.mono hedge _ _ hcycle)

end Runs
section Example

/-- A hash that tells the texts of the two users apart. -/
def tellsApart (text : String) : Int := text.length + if text = "1" then 1 else 0

/-- User 1 is linked to peer 10 and user 2 to peer 20. -/
def twoLinked : Tables where
  userVks := [⟨1, 1, some 10, .active, none, none, none, 0, 0⟩, ⟨2, 2, some 20, .active, none, none, none, 0, 0⟩]
  vkConfirmations := []
  vkLogs := []
  vkNotificationDeliveries := []

def forBoth : NotificationCommandSendVkData where
  eventUuid := 5
  userIds := [1, 2]
  text := "text"
  userIds_nonempty := by decide
  userIds_nodup := by decide

/-- Every session delivers the same command. -/
def redelivered : Tid → Request := fun _ => .deliver forBoth

/-- Session 0 has claimed the first recipient when session 1 comes to it. -/
def secondWaits : Option Run :=
  (database tellsApart).runMoves
    [.step 0 (.still 0), .step 0 (.still 0), .step 1 (.still 0)] (launch .least redelivered (.ofTables twoLinked))

private theorem secondWaits_isSome : secondWaits.isSome = true := rfl

private theorem secondWaits_reached : Reaches tellsApart anyMove
    (launch .least redelivered (.ofTables twoLinked)) (secondWaits.get secondWaits_isSome) :=
  reach_of_runMoves _ (Option.some_get secondWaits_isSome).symm

private theorem redelivered_redeliveries : Redeliveries redelivered := by
  rintro t t' command command' ⟨⟩ ⟨⟩ -
  rfl

private theorem redelivered_distinctKeys :
    DistinctKeys tellsApart redelivered := by
  rintro t t' command command' ⟨⟩ ⟨⟩
  decide

/-- A session that waits for another does not wait for itself. -/
theorem advisory_locks_never_deadlock_secondWaits :
    WaitsForLock tellsApart (secondWaits.get secondWaits_isSome) 1 0 ∧
    ¬ Relation.TransGen (WaitsForLock tellsApart
      (secondWaits.get secondWaits_isSome)) 1 1 :=
  ⟨⟨by decide, 5, 1, 10, _, rfl, List.mem_cons_self⟩,
    advisory_locks_never_deadlock _ .least redelivered twoLinked _ redelivered_redeliveries redelivered_distinctKeys
      secondWaits_reached 1⟩

end Example
end VkService
