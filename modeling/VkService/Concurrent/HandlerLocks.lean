import VkService.Concurrent.Deadlock
import VkService.Concurrent.RowLocks

/-! The locks of a handler and of the sessions beside it. `confirm` locks the binding before the
code and `unlink` the codes before the binding; where the two do not cross, the handler waits in
no circle. -/
namespace VkService
open PyStr Effects Effects.Prog Effects.Machine RowStore UserVkRepository VkConfirmationRepository

/-- A message to the bot, or one of the other requests. -/
inductive Task where
  | message (peerId fromId : PeerId) (text : Str)
  | request (request : Request)

def Task.prog (settings : VkSettings) : Task → Py (Outcome ⊕ Answer)
  | .message peerId fromId text => do
      let outcome ← handleMessage settings peerId fromId text
      pure (.inl outcome)
  | .request r => do
      let answer ← r.prog settings
      pure (.inr answer)

abbrev MixedRun := Sys Call Call.Reply Exn (Outcome ⊕ Answer) Tid Store

/-- Messages and requests started together over a store. -/
def launchTasks (settings : VkSettings) (pool : Tid → Task) (s : Store) : MixedRun :=
  Sys.start (fun t => (pool t).prog settings) s

/-- What a task promises of each call. -/
def TaskCall (settings : VkSettings) : Task → CallHistory → Call → Prop
  | .message .. => HandlerCall
  | .request r => RequestCall settings r

theorem task_conforms (settings : VkSettings) (task : Task) :
    Conforms (TaskCall settings task) (fun _ _ => True) [] (task.prog settings) := by
  cases task with
  | message peerId fromId text =>
    exact .bind _ _ _ (handleMessage_locksFirst settings peerId fromId text) (fun _ _ _ => trivial) fun _ _ _ => trivial
  | request r => exact .bind _ _ _ (request_conforms settings r) (fun _ _ _ => trivial) fun _ _ _ => trivial

/-- Every task keeps to its order of calls. -/
theorem tasks_conform {hashtext : String → Int} {settings : VkSettings} {pool : Tid → Task} {s₀ : Store} {s : MixedRun}
    {cond : Move Tid World → MixedRun → Prop}
    (hreach : (database hashtext).Reach cond (launchTasks settings pool s₀) s) :
    Conforming (fun t => TaskCall settings (pool t)) (fun _ _ _ => True) s :=
  conforming_reach (database hashtext) (conforming_start fun t => task_conforms settings (pool t)) hreach

section Calls
variable {settings : VkSettings} {task : Task} {h : CallHistory} {c : Call}

theorem TaskCall.locksFirst (hcall : TaskCall settings task h c) : LocksFirst h c := by
  cases task with
  | message => exact HandlerCall.locksFirst hcall
  | request => exact RequestCall.locksFirst hcall

/-- The task unlinks the user. -/
def Task.unlinks (userId : UUID) : Task → Bool
  | .request (.unlink userId') => userId' == userId
  | _ => false

theorem Task.unlinks_iff {userId : UUID} : task.unlinks userId = true ↔ task = .request (.unlink userId) := by
  cases task with
  | message => simp [Task.unlinks]
  | request r => cases r <;> simp [Task.unlinks]

/-- Only `unlink` deletes a binding, after it has used up codes. -/
theorem TaskCall.deleting {userId : UUID} (hcall : TaskCall settings task h (.userVkSoftDelete userId)) :
    task.unlinks userId = true ∧ ∃ x n b, h =
    [⟨.confirmationInvalidatePrevious x, .ok n⟩, ⟨.userVkGetByUserId userId, .ok b⟩] := by
  cases task with
  | message => rcases HandlerCall.kind hcall with hc | hc | hc | ⟨_, _, hc⟩ <;> cases hc
  | request r =>
    cases r with
    | unlink userId' =>
      cases hcall with
      | delete hh => exact ⟨by simp [Task.unlinks], _, _, _, hh⟩
    | _ => cases hcall

end Calls

/-! ### Who holds locks -/

/-- A session holds a row, a key or an advisory lock. -/
def HoldsLock (t : Tid) (s : Store) : Prop :=
  (∃ row, Held t row s.userVks) ∨ (∃ row, Held t row s.vkConfirmations) ∨
    (∃ row, Held t row s.vkNotificationDeliveries) ∨ ∃ key, (t, key) ∈ s.advisory

/-- Whoever keeps a call waiting holds a binding that the call locks, or something that is none. -/
theorem Blocks.holds_cases {hashtext : String → Int} {t t' : Tid} {w : World} {s : Store} {c : Call}
    (hblocks : Blocks hashtext t t' w s c) :
    (c.locksUserVk = true ∧ ∃ row, Held t' row s.userVks) ∨
    (∃ userId, c = .userVkSoftDelete userId ∧ RowBlocked t t' (liveOfUser userId) s.userVks) ∨
    (∃ row, Held t' row s.vkConfirmations) ∨ (∃ row, Held t' row s.vkNotificationDeliveries) ∨
    ∃ key, (t', key) ∈ s.advisory := by
  cases c with
  | userVkCreate | userVkSetState | userVkActivate => exact .inl ⟨rfl, hblocks.holdsUserVk rfl⟩
  | userVkSoftDelete userId => exact .inr (.inl ⟨userId, rfl, hblocks⟩)
  | confirmationCreate | confirmationMarkUsed | confirmationInvalidatePrevious => exact .inr (.inr (.inl hblocks.held))
  | claimAttempt =>
    exact hblocks.elim (fun h => .inr (.inr (.inr (.inr ⟨_, h⟩)))) fun h => .inr (.inr (.inr (.inl h.held)))
  | markSent | markFailed => exact .inr (.inr (.inr (.inl hblocks.held)))
  | _ => exact hblocks.elim

theorem Blocks.holds {hashtext : String → Int} {t t' : Tid} {w : World} {s : Store} {c : Call}
    (hblocks : Blocks hashtext t t' w s c) : HoldsLock t' s := by
  rcases hblocks.holds_cases with ⟨-, h⟩ | ⟨userId, -, h⟩ | h | h | h
  · exact .inl h
  · exact .inl h.held
  · exact .inr (.inl h)
  · exact .inr (.inr (.inl h))
  · exact .inr (.inr (.inr h))

theorem WritesUserVk.locks {r : UserVk} {e : CallEvent} (h : WritesUserVk r e) : e.op.locks = true := by
  cases h <;> rfl

theorem WritesConfirmation.locks {c : VkConfirmation} {e : CallEvent} (h : WritesConfirmation c e) :
    e.op.locks = true := by
  cases h <;> rfl

theorem WritesDelivery.locks {d : VkNotificationDelivery} {e : CallEvent} (h : WritesDelivery d e) :
    e.op.locks = true := by
  cases h with
  | claimed => rfl
  | marked hc => rcases hc with rfl | ⟨_, rfl⟩ <;> rfl

section Sessions
variable {α : Type} {hashtext : String → Int} {s : Sys Call Call.Reply Exn α Tid Store} {t : Tid}

/-- Whoever holds something has made a call that locks. -/
theorem HoldsLock.locks (hsound : Sound s) (hlocks : LocksClaimed hashtext s) (hholds : HoldsLock t s.shared) :
    ∃ e ∈ s.history t, e.op.locks = true := by
  rcases hholds with ⟨row, hheld⟩ | ⟨row, hheld⟩ | ⟨row, hheld⟩ | ⟨key, hmem⟩
  · obtain ⟨e, he, hwrites⟩ := hsound.owned.userVks t row hheld
    exact ⟨e, he, hwrites.locks⟩
  · obtain ⟨e, he, hwrites⟩ := hsound.owned.vkConfirmations t row hheld
    exact ⟨e, he, hwrites.locks⟩
  · obtain ⟨e, he, hwrites⟩ := hsound.owned.deliveries t row hheld
    exact ⟨e, he, hwrites.locks⟩
  · obtain ⟨event, user, peer, r, he, -⟩ := hlocks t key hmem
    exact ⟨_, he, rfl⟩

/-- After the activation a session holds a binding and nothing else. -/
theorem holds_of_activated (hsound : Sound s) (hlocks : LocksClaimed hashtext s) {x : UUID} {vkPeerId : PeerId}
    {sn dn : Option String} {row : UserVk} {earlier : CallHistory}
    (hh : s.history t = ⟨.userVkActivate x vkPeerId sn dn, .ok row⟩ :: earlier)
    (hearlier : ∀ e ∈ earlier, e.op.locks = false) :
    (∀ c, ¬ Held t c s.shared.vkConfirmations) ∧ (∀ d, ¬ Held t d s.shared.vkNotificationDeliveries) ∧
      ∀ key, (t, key) ∉ s.shared.advisory := by
  have honly : ∀ e ∈ s.history t, e.op.locks = true → e = ⟨.userVkActivate x vkPeerId sn dn, .ok row⟩ := by
    intro e he hlocks
    rw [hh] at he
    rcases List.mem_cons.mp he with rfl | hmem
    · rfl
    · rw [hearlier e hmem] at hlocks
      cases hlocks
  refine ⟨fun c hheld => ?_, fun d hheld => ?_, fun key hmem => ?_⟩
  · obtain ⟨e, he, hwrites⟩ := hsound.owned.vkConfirmations t c hheld
    cases honly e he hwrites.locks ▸ hwrites
  · obtain ⟨e, he, hwrites⟩ := hsound.owned.deliveries t d hheld
    cases honly e he hwrites.locks ▸ hwrites with
    | marked hc => rcases hc with hc | ⟨_, hc⟩ <;> cases hc
  · obtain ⟨event, user, peer, r, he, -⟩ := hlocks t key hmem
    cases honly _ he rfl

end Sessions
end VkService
