import VkService.Concurrent.HandlerLocks
import VkService.Concurrent.Views

/-! Whether every link message is answered. `confirm` reads the binding before its UPDATE, so
the row can be removed in between; `activate` then finds no row to return. When every
activation of the handler still finds its row, and no unlink of the user holds codes meanwhile,
nothing escapes from the handler and it never waits in a circle. -/
namespace VkService
open PyStr Effects Effects.Prog Effects.Machine RowStore UserVkRepository VkConfirmationRepository

/-- An unlink of the user has used up codes and not yet ended. -/
def unlinksUncommitted (pool : Tid → Task) (userId : UUID) (s : Store) : Bool :=
  s.vkConfirmations.any fun cell => cell.pending.any fun p => (pool p.1).unlinks userId

/-- The activation of the handler `t` is taken while the row is live, and while no unlink of its
user holds codes. -/
def activatesLive (pool : Tid → Task) (t t' : Tid) (s : MixedRun) : Bool :=
  match s.prog t with
  | some (.call (.userVkActivate recordId ..) _) => t' != t ||
      (s.shared.view t).userVks.any fun row => liveWithId recordId row && !unlinksUncommitted pool row.userId s.shared
  | _ => true

/-- No unlink of the user uses up codes while the handler has its row and is about to mark its code used. -/
def unlinksApart (pool : Tid → Task) (t t' : Tid) (s : MixedRun) : Bool :=
  match s.prog t, s.prog t' with
  | some (.call (.confirmationMarkUsed _) _), some (.call (.confirmationInvalidatePrevious userVkId) _) =>
    !(s.shared.view t').vkConfirmations.any (unusedOf userVkId) ||
      s.shared.userVks.all fun cell => cell.pending.all fun p => p.1 != t || !(pool t').unlinks p.2.userId
  | _, _ => true

/-- The handler `t` is not aborted, its activation finds the row live, and from there to the mark of
its code no unlink of the user holds codes. -/
def answersBetween (pool : Tid → Task) (t : Tid) : Move Tid World → MixedRun → Bool
  | .step t' _, s => activatesLive pool t t' s && unlinksApart pool t t' s
  | .kill t', _ => t' != t

abbrev AnswersBetween (pool : Tid → Task) (t : Tid) (m : Move Tid World) (s : MixedRun) : Prop :=
  answersBetween pool t m s = true

section Crossing
variable {hashtext : String → Int} {settings : VkSettings} {pool : Tid → Task} {T : Tables} {s : MixedRun} {t : Tid}
  {peerId fromId : PeerId} {text : Str}

theorem unlinksUncommitted_iff {userId : UUID} {s : Store} : unlinksUncommitted pool userId s = true ↔
    ∃ u c, (pool u).unlinks userId = true ∧ Held u c s.vkConfirmations := by
  simp only [unlinksUncommitted, List.any_eq_true, Option.any_eq_true, Held]
  constructor
  · rintro ⟨cell, hcell, ⟨u, c⟩, hpending, hunlinks⟩
    exact ⟨u, c, hunlinks, cell, hcell, hpending⟩
  · rintro ⟨u, c, hunlinks, cell, hcell, hpending⟩
    exact ⟨cell, hcell, ⟨u, c⟩, hpending, hunlinks⟩

/-- While the handler has a binding and is about to mark its code used, no unlink of the user holds codes. -/
def Uncrossed (pool : Tid → Task) (t : Tid) (s : MixedRun) : Prop :=
  ∀ y k row, s.prog t = some (.call (.confirmationMarkUsed y) k) → Held t row s.shared.userVks →
    unlinksUncommitted pool row.userId s.shared = false

/-- The activation is the step after which the handler has its binding. -/
theorem uncrossed_activated (hsound : Sound s) (hpool : pool t = .message peerId fromId text) {w : World} {x : UUID}
    {vkPeerId : PeerId} {sn dn : Option String} {row row' : UserVk} {next : Store}
    {k : Except Exn UserVk → Py (Outcome ⊕ Answer)}
    (hp : s.prog t = some (.call (.userVkActivate x vkPeerId sn dn) k))
    (hfirst : ∀ e ∈ s.history t, e.op.locks = false)
    (hexec : (database hashtext).exec t w (.userVkActivate x vkPeerId sn dn) s.shared = some (.ok row', next))
    (hlive : activatesLive pool t t s = true) (hheld : Held t row next.userVks) :
    unlinksUncommitted pool row.userId next = false := by
  rw [← Bool.not_eq_true, unlinksUncommitted_iff]
  rintro ⟨u, c, hunlinks, hcode⟩
  have hold : Held u c s.shared.vkConfirmations := by
    rcases (exec_vkConfirmations hexec).held hcode with hold | ⟨rfl, -⟩
    · exact hold
    · rw [hpool] at hunlinks
      cases hunlinks
  have hfree : ∀ row, ¬ Held t row s.shared.userVks := fun row hheld => by
    obtain ⟨e, he, hwrites⟩ := hsound.owned.userVks t row hheld
    cases (hfirst e he).symm.trans hwrites.locks
  simp only [activatesLive, hp, bne_self_eq_false, Bool.false_or, List.any_eq_true, Bool.and_eq_true,
    Bool.not_eq_true'] at hlive
  obtain ⟨row₁, hview, hrow₁, hnone⟩ := hlive
  have hstep := exec_userVks hexec
  generalize next.userVks = after at hstep hheld
  cases hstep with
  | same => exact hfree row hheld
  | rolledBack => exact hfree row hheld.of_rollback.1
  | @activated _ _ _ _ r _ hrow =>
    rcases hheld.of_update with hheld | ⟨-, row₀, hrow₀, hp₀, rfl⟩
    · exact hfree row hheld
    · have hone : ∀ row₂ ∈ view t s.shared.userVks, liveWithId x row₂ = true → row₂ = r := fun row₂ hmem hp₂ =>
        List.mem_singleton.mp (hrow ▸ List.mem_filter.mpr ⟨hmem, hp₂⟩)
      rw [hone row₀ hrow₀ hp₀] at hunlinks
      rw [hone row₁ hview hrow₁, ← Bool.not_eq_true, unlinksUncommitted_iff] at hnone
      exact hnone ⟨u, c, hunlinks, hold⟩

/-- Other sessions use up the user's codes only when the handler is not between its two updates. -/
theorem uncrossed_step (hconf : Conforming (fun t => TaskCall settings (pool t)) (fun _ _ _ => True) s)
    (hinv : Uncrossed pool t s) {u : Tid} (hne : t ≠ u) {w : World} {c : Call}
    {k : Except Exn c.Reply → Py (Outcome ⊕ Answer)} {r : Except Exn c.Reply} {next : Store}
    (hp : s.prog u = some (.call c k)) (hexec : (database hashtext).exec u w c s.shared = some (r, next))
    (hapart : unlinksApart pool t u s = true) :
    Uncrossed pool t (s.advance u c k r next) := by
  intro y k' row hp' hheld
  rw [Sys.advance_prog_ne _ _ _ _ _ _ hne] at hp'
  have hold : Held t row s.shared.userVks := ((exec_userVks hexec).held hheld).resolve_right fun h => hne h.1
  have hnone := hinv y k' row hp' hold
  rw [← Bool.not_eq_true, unlinksUncommitted_iff] at hnone ⊢
  rintro ⟨v, d, hunlinks, hd : Held v d next.vkConfirmations⟩
  rcases (exec_vkConfirmations hexec).held hd with hd' | ⟨rfl, hwrites⟩
  · exact hnone ⟨v, d, hunlinks, hd'⟩
  · have hcall := (hconf.rest v _ hp).1
    rw [Task.unlinks_iff.mp hunlinks] at hcall
    cases hwrites with
    | created | used => cases hcall
    | invalidated n =>
      have hstep := exec_vkConfirmations hexec
      generalize next.vkConfirmations = after at hstep hd
      cases hstep with
      | same => exact hnone ⟨v, d, hunlinks, hd⟩
      | rolledBack => exact hnone ⟨v, d, hunlinks, hd.of_rollback.1⟩
      | invalidated =>
        rcases hd.of_update with hd | ⟨-, d₀, hview, hunused, -⟩
        · exact hnone ⟨v, d, hunlinks, hd⟩
        · simp only [unlinksApart, hp', hp, Bool.or_eq_true, Bool.not_eq_true', List.any_eq_false, List.all_eq_true,
            Option.all_eq_true] at hapart
          rcases hapart with hnone' | hall
          · exact hnone' d₀ hview hunused
          · obtain ⟨cell, hcell, hpending⟩ := hold
            simpa [hunlinks] using hall cell hcell _ hpending

theorem uncrossed_reach (hT : T.Wf) (hpool : pool t = .message peerId fromId text)
    (hreach : (database hashtext).Reach (AnswersBetween pool t) (launchTasks settings pool (.ofTables T)) s) :
    Uncrossed pool t s := by
  refine reach_induction (database hashtext) (fun y k row _ hheld => absurd hheld not_held_ofRows) ?_ ?_ hreach
  · intro s u w c k r next hreach hinv hcond hp hexec
    obtain ⟨hlive, hapart⟩ := Bool.and_eq_true_iff.mp hcond
    by_cases ht : t = u
    · subst ht
      intro y k' row hp' hheld
      obtain ⟨x, peer, sn, dn, row', earlier, hh, hearlier⟩ :=
        ((conforming_advance (tasks_conform hreach) hp r next).rest t _ hp').1.locksFirst.code y rfl
      rw [Sys.history_advance_self] at hh
      obtain ⟨heq, rfl⟩ := List.cons.inj hh
      cases heq
      exact uncrossed_activated (sound_reach hT hreach) hpool hp hearlier hexec hlive hheld
    · exact uncrossed_step (tasks_conform hreach) hinv ht hp hexec hapart
  · intro s u c k _ hinv hcond _ y k' row hp' hheld
    have ht : t ≠ u := fun heq => by simp [AnswersBetween, answersBetween, heq] at hcond
    rw [Sys.drop_prog_ne _ _ _ ht] at hp'
    have hnone := hinv y k' row hp' hheld.of_rollback.1
    rw [← Bool.not_eq_true, unlinksUncommitted_iff] at hnone ⊢
    rintro ⟨v, d, hunlinks, hd⟩
    exact hnone ⟨v, d, hunlinks, hd.of_rollback.1⟩

/-- The handler waits in no circle, so that no session of a circle has to be aborted for it. -/
theorem handler_in_no_circle (hT : T.Wf) (hpool : pool t = .message peerId fromId text)
    (hreach : (database hashtext).Reach (AnswersBetween pool t) (launchTasks settings pool (.ofTables T)) s) :
    ¬ Relation.TransGen (WaitsOn hashtext s) t t := by
  intro hcycle
  have hconf := tasks_conform hreach
  have hsound := sound_reach hT hreach
  have hlocks : LocksClaimed hashtext s := locksClaimed_reach hreach
  obtain ⟨v, u, ⟨-, _, _, _, -, hblocksU⟩, -, c, k, w, hp, hblocks⟩ :=
    LockOrder.last_of_circle (fun _ hwaits => hwaits.1 rfl) hcycle
  obtain ⟨_, ⟨-, c', k', w', hp', hblocks'⟩, -⟩ := Relation.TransGen.head'_iff.mp hcycle
  have hcall : TaskCall settings (pool u) (s.history u) c := (hconf.rest u _ hp).1
  have hcall' : HandlerCall (s.history t) c' := by
    have := (hconf.rest t _ hp').1
    rwa [hpool] at this
  -- a handler that waits and is waited for has activated its binding
  obtain ⟨y, rfl⟩ : ∃ y, c' = .confirmationMarkUsed y := by
    rcases hcall'.kind with hc | rfl | rfl | ⟨_, _, rfl⟩
    · cases c' with
      | userVkActivate =>
        obtain ⟨e, he, hlocked⟩ := hblocks.holds.locks hsound hlocks
        rw [hcall'.locksFirst.binding rfl e he] at hlocked
        cases hlocked
      | confirmationMarkUsed y => exact ⟨y, rfl⟩
      | now | getProfile | countFailedSince | confirmationGetByCode | userVkGetById | userVkGetByPeerId | logAction =>
        exact hblocks'.elim
      | _ => cases hc
    all_goals exact hblocks'.elim
  obtain ⟨x, peer, sn, dn, row', earlier, hh, hearlier⟩ := hcall'.locksFirst.code y rfl
  obtain ⟨hnocode, hnodelivery, hnoadvisory⟩ := holds_of_activated hsound hlocks hh hearlier
  rcases hblocks.holds_cases with ⟨hlocksUserVk, -⟩ | ⟨userId, rfl, cell, hcell, hread, row, hpending⟩ | ⟨d, hd⟩ |
    ⟨d, hd⟩ | ⟨key, hkey⟩
  · -- whoever waits for its binding to lock one holds nothing
    obtain ⟨e, he, hlocked⟩ := hblocksU.holds.locks hsound hlocks
    rw [hcall.locksFirst.binding hlocksUserVk e he] at hlocked
    cases hlocked
  · -- and whoever waits to delete it is an unlink of its user, which holds codes
    obtain ⟨hunlinks, x', n, b, hhistory⟩ := hcall.deleting
    obtain ⟨row₀, hrow₀, hlive⟩ := (Option.any_eq_true _ _).mp hread
    have huser : row.userId = userId := by
      have hcore := hsound.keyed.userVkCores.within cell hcell row (Cell.pending_mem hpending) row₀
        (Cell.read_mem_versions hrow₀)
      simp only [liveOfUser, Bool.and_eq_true, beq_iff_eq] at hlive
      exact (congrArg (·.2.1) hcore).trans hlive.1
    have hnone := uncrossed_reach hT hpool hreach y k' row hp' ⟨cell, hcell, hpending⟩
    rw [huser, ← Bool.not_eq_true, unlinksUncommitted_iff] at hnone
    have hmem : ∀ {e : CallEvent}, e ∈ s.history u → e = ⟨.confirmationInvalidatePrevious x', .ok n⟩ ∨
        e = ⟨.userVkGetByUserId userId, .ok b⟩ := fun he => by simpa [hhistory] using he
    rcases hblocksU.holds with ⟨row₁, hheld⟩ | ⟨d, hheld⟩ | ⟨d, hheld⟩ | ⟨key, hkey⟩
    · obtain ⟨e, he, hwrites⟩ := hsound.owned.userVks u row₁ hheld
      rcases hmem he with rfl | rfl <;> cases hwrites
    · exact hnone ⟨u, d, hunlinks, hheld⟩
    · obtain ⟨e, he, hwrites⟩ := hsound.owned.deliveries u d hheld
      rcases hmem he with rfl | rfl
      · cases hwrites with
        | marked hc => rcases hc with hc | ⟨_, hc⟩ <;> cases hc
      · cases hwrites with
        | marked hc => rcases hc with hc | ⟨_, hc⟩ <;> cases hc
    · obtain ⟨event, user, peer, r, he, -⟩ := hlocks u key hkey
      rcases hmem he with heq | heq <;> cases heq
  · exact hnocode d hd
  · exact hnodelivery d hd
  · exact hnoadvisory key hkey

end Crossing

/-- Another transaction holds a binding or a code. -/
def HeldByOther (t : Tid) (s : Store) : Prop :=
  ∃ t' ≠ t, (∃ row, Held t' row s.userVks) ∨ ∃ row, Held t' row s.vkConfirmations

/-- How the handling of a message may stand: it has a few calls left, the next of which can only
wait for another transaction and never in a circle, or it has answered. -/
inductive Handling (hashtext : String → Int) (s : MixedRun) (t : Tid) (peerId : PeerId) : Prop
  | underway {c : Call} {k : Except Exn c.Reply → Py (Outcome ⊕ Answer)} (hp : s.prog t = some (.call c k))
      (hlen : (s.history t).length < 13)
      (hwaits : ∀ w, HeldByOther t s.shared ∨ ∃ r next, (database hashtext).exec t w c s.shared = some (r, next))
      (hcircle : ¬ Relation.TransGen (WaitsOn hashtext s) t t)
  | answered {outcome : Outcome} (hp : s.prog t = some (.ret (.inl outcome))) (hmem : outcome ∈ linkOutcomes)
      (hanswered : Answered peerId outcome (s.history t))

section Calls
variable {hashtext : String → Int} {t : Tid} {w : World} {c : Call} {s : Store} {T : Tables} {ids : NewIds}
    {h : CallHistory}

/-- A call of a message fails only for a taken peer, when an activation finds its row. -/
theorem MessageCall.fails (hcall : MessageCall h c) (hT : T.Wf)
    (hlive : ∀ x vkPeerId sn dn, c = .userVkActivate x vkPeerId sn dn → T.userVks.any (liveWithId x) = true) {e : Exn}
    (he : (answer w ids T c).1 = .error e) : ∃ x vkPeerId sn dn message,
      (⟨c, .error e⟩ : CallEvent) = ⟨.userVkActivate x vkPeerId sn dn, .error (.alreadyExists message)⟩ := by
  rcases hcall.2 with hc | rfl | rfl | ⟨peerId, reply, rfl⟩
  · cases c with
    | userVkGetById x =>
      rw [answer, hT.getById_eq] at he
      cases he
    | userVkGetByPeerId vkPeerId =>
      rw [answer, hT.getByPeerId_eq] at he
      cases he
    | confirmationGetByCode code =>
      rw [answer, hT.getByCode_eq] at he
      cases he
    | userVkActivate x vkPeerId sn dn =>
      obtain ⟨row, hfind⟩ := Option.isSome_iff_exists.mp
        ((List.find?_isSome.trans List.any_eq_true.symm).mpr (hlive _ _ _ _ rfl))
      simp only [answer, activate, hT.one_liveWithId, hfind, Option.elim] at he
      split at he
      · cases he
        exact ⟨x, vkPeerId, sn, dn, _, rfl⟩
      · cases he
    | now | getProfile | countFailedSince | confirmationMarkUsed | logAction => cases he
    | _ => cases hc
  all_goals cases he

/-- A call of a message waits only for another transaction. -/
theorem MessageCall.waits (hcall : MessageCall h c) (w : World) :
    HeldByOther t s ∨ ∃ r next, (database hashtext).exec t w c s = some (r, next) := by
  by_cases hheld : HeldByOther t s
  · exact .inl hheld
  right
  have huser : ∀ t' ≠ t, ∀ row, ¬ Held t' row s.userVks := fun t' ht row hrow => hheld ⟨t', ht, .inl ⟨row, hrow⟩⟩
  have hcode : ∀ t' ≠ t, ∀ row, ¬ Held t' row s.vkConfirmations := fun t' ht row hrow =>
    hheld ⟨t', ht, .inr ⟨row, hrow⟩⟩
  have hready : ready hashtext t w s c = true := by
    rcases hcall.2 with hc | rfl | rfl | ⟨peerId, reply, rfl⟩
    · cases c with
      | userVkActivate x vkPeerId sn dn =>
        simp only [ready, Bool.and_eq_true, List.all_eq_true]
        exact ⟨(ready_of_not_held huser _).1, fun _ _ => (ready_of_not_held huser _).2⟩
      | confirmationMarkUsed y => exact (ready_of_not_held hcode _).1
      | now | getProfile | countFailedSince | confirmationGetByCode | userVkGetById | userVkGetByPeerId | logAction => rfl
      | _ => cases hc
    all_goals rfl
  simp only [database, execCall, hready, if_true]
  exact ⟨_, _, rfl⟩

end Calls

section Runs
variable {hashtext : String → Int} {settings : VkSettings} {pool : Tid → Task} {T : Tables} {s : MixedRun} {t : Tid}
  {peerId fromId : PeerId} {text code : Str}

theorem message_answers (hpool : pool t = .message peerId fromId text) (hprivate : isChatPeer peerId = false)
    (hlink : parseLinkCommand text settings.vkBotLinkCommand = some code) (hcode : code ≠ []) :
    Conforms MessageCall (fun h r => OnlyTaken h → ∃ outcome, r = .ok (.inl outcome) ∧ Answered peerId outcome h) []
      ((pool t).prog settings) := by
  rw [hpool]
  refine .bind _ _ _ (handleMessage_answers settings hprivate hlink hcode)
    (fun h outcome hout _ => ⟨outcome, rfl, hout.2 outcome rfl⟩) fun h e hout honly => ?_
  obtain ⟨_, hr⟩ := hout.1 honly
  cases hr

/-- No call of the handler fails but for a taken peer. -/
theorem reaches_onlyTaken (hT : T.Wf) (hpool : pool t = .message peerId fromId text)
    (hprivate : isChatPeer peerId = false) (hlink : parseLinkCommand text settings.vkBotLinkCommand = some code)
    (hcode : code ≠ []) (hreach : (database hashtext).Reach (AnswersBetween pool t)
    (launchTasks settings pool (.ofTables T)) s) :
    Conforming (fun t' h c => t' = t → MessageCall h c) (fun t' h r => t' = t → OnlyTaken h →
      ∃ outcome, r = .ok (.inl outcome) ∧ Answered peerId outcome h) s ∧
      s.shared.Lawful ∧ OnlyTaken (s.history t) ∧ ∃ p, s.prog t = some p := by
  refine invariant (M := database hashtext)
    (I := fun s => s.shared.Lawful ∧ OnlyTaken (s.history t) ∧ ∃ p, s.prog t = some p)
    (conforming_start fun t' => ?_) ⟨Store.lawful_ofTables hT, (fun _ he => nomatch he), _, rfl⟩ ?_ ?_ hreach
  · by_cases ht : t' = t
    · subst ht
      exact .mono (fun _ _ hc _ => hc) (fun _ _ hQ _ => hQ) _ _ (message_answers hpool hprivate hlink hcode)
    · exact .of_forall (fun _ _ h => absurd h ht) (fun _ _ h => absurd h ht) _ _
  · rintro s t' w c k r next _ ⟨hlawful, honly, p, hp⟩ hcond hprog hcall hexec
    refine ⟨hlawful.exec hexec, ?_, ?_⟩
    · by_cases ht : t = t'
      · subst ht
        rw [Sys.history_advance_self, onlyTaken_cons]
        refine ⟨fun e he => ?_, honly⟩
        obtain rfl : r = .error e := he
        obtain ⟨-, hreply, -⟩ := execCall_cases hexec
        refine (hcall rfl).fails (hlawful.view_wf t) ?_ hreply.symm
        rintro x vkPeerId sn dn rfl
        have hlive := (Bool.and_eq_true_iff.mp hcond).1
        simp only [activatesLive, hprog, bne_self_eq_false, Bool.false_or, List.any_eq_true, Bool.and_eq_true] at hlive
        obtain ⟨row, hrow, hlive, -⟩ := hlive
        exact List.any_eq_true.mpr ⟨row, hrow, hlive⟩
      · rwa [Sys.history_advance_ne _ _ _ _ _ _ ht]
    · by_cases ht : t = t'
      · exact ⟨k r, by simp [ht]⟩
      · exact ⟨p, by rwa [Sys.advance_prog_ne _ _ _ _ _ _ ht]⟩
  · rintro s t' c k _ ⟨hlawful, honly, p, hp⟩ hcond _
    have ht : t ≠ t' := fun ht => by simp [AnswersBetween, answersBetween, ht] at hcond
    exact ⟨hlawful.rollback, honly, p, by rwa [Sys.drop_prog_ne _ _ _ ht]⟩

/-- In every run in which the handler is not aborted, its activation still finds the row live and no
unlink of the user crosses it, the message is under way or answered. -/
theorem link_message_answered (hashtext : String → Int) (settings : VkSettings) (pool : Tid → Task) (T : Tables)
    (hT : T.Wf) (s : MixedRun) (t : Tid) (peerId fromId : PeerId) (text code : Str)
    (hpool : pool t = .message peerId fromId text) (hprivate : isChatPeer peerId = false)
    (hlink : parseLinkCommand text settings.vkBotLinkCommand = some code) (hcode : code ≠ [])
    (hreach : (database hashtext).Reach (AnswersBetween pool t) (launchTasks settings pool (.ofTables T)) s) :
    Handling hashtext s t peerId := by
  obtain ⟨hconf, -, honly, p, hp⟩ := reaches_onlyTaken hT hpool hprivate hlink hcode hreach
  have hrest := hconf.rest t p hp
  cases p with
  | ret a =>
    obtain ⟨outcome, heq, hanswered⟩ := hrest rfl honly
    cases heq
    obtain ⟨r, -, -, rfl, -⟩ := id hanswered
    exact .answered hp (confirmOutcome_mem r) hanswered
  | raise e =>
    obtain ⟨_, heq, -⟩ := hrest rfl honly
    cases heq
  | call c k =>
    have hcall := hrest.1 rfl
    exact .underway hp hcall.1 hcall.waits (handler_in_no_circle hT hpool hreach)

end Runs

section Example

/-- Session 0 handles a link message, every other one removes the binding. -/
def linkedAndUnlinked : Tid → Task
  | 0 => .message 5 5 "/link AAAA".toList
  | _ => .request (.unlink 1)

/-- The handler `t` is not aborted. -/
def spares (t : Tid) : Move Tid World → MixedRun → Bool
  | .step .., _ => true
  | .kill t', _ => t' != t

/-- Session 1 removes the binding between the last read of session 0 and its activation. -/
def removedBeforeActivation : Option MixedRun :=
  (database fun _ => 0).runMovesIf (spares 0)
    (List.replicate 7 (.step 0 (.still 0)) ++ List.replicate 6 (.step 1 (.still 0)) ++ [.step 0 (.still 0)])
    (launchTasks .least linkedAndUnlinked (.ofTables onePending))

private theorem removedBeforeActivation_isSome : removedBeforeActivation.isSome = true := by decide +kernel

/-- The handler ends in an exception for which it has no clause; it has neither committed nor
closed its session nor replied. -/
theorem link_message_unanswered : ∃ s, (database fun _ => 0).Reach (fun m s => spares 0 m s = true)
    (launchTasks .least linkedAndUnlinked (.ofTables onePending)) s ∧
    linkedAndUnlinked 0 = .message 5 5 "/link AAAA".toList ∧
    isChatPeer 5 = false ∧ parseLinkCommand "/link AAAA".toList VkSettings.least.vkBotLinkCommand = some "AAAA".toList ∧
    s.prog 0 = some (.raise .noResultFound) ∧ (s.history 0).all (·.op.confirms) = true :=
  ⟨removedBeforeActivation.get removedBeforeActivation_isSome,
    reach_of_runMovesIf _ (Option.some_get removedBeforeActivation_isSome).symm, rfl, by decide, by decide +kernel, rfl,
    by decide +kernel⟩

/-- Session 1 has read the binding between the two updates of session 0, and goes on after its end. -/
def answeredMeanwhile : Option MixedRun :=
  (database fun _ => 0).runMovesIf (answersBetween linkedAndUnlinked 0)
    (List.replicate 8 (.step 0 (.still 0)) ++ [.step 1 (.still 0)] ++ List.replicate 5 (.step 0 (.still 0)) ++
      List.replicate 5 (.step 1 (.still 0)))
    (launchTasks .least linkedAndUnlinked (.ofTables onePending))

private theorem answeredMeanwhile_isSome : answeredMeanwhile.isSome = true := by decide +kernel

theorem link_message_answered_meanwhile :
    (answeredMeanwhile.get answeredMeanwhile_isSome).prog 0 = some (.ret (.inl .confirmed)) ∧
      Handling (fun _ => 0) (answeredMeanwhile.get answeredMeanwhile_isSome) 0 5 :=
  ⟨rfl, link_message_answered (fun _ => 0) .least linkedAndUnlinked onePending onePending_wf _ 0 5 5 "/link AAAA".toList
    "AAAA".toList rfl (by decide) (by decide +kernel) (by decide)
    (reach_of_runMovesIf _ (Option.some_get answeredMeanwhile_isSome).symm)⟩

end Example
end VkService
