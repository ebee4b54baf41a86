import VkService.Concurrent.RowLocks
import VkService.Concurrent.Views

/-! No session is stuck behind the others. Whoever holds a row goes on to give it up, and where
the requests lock in order a chain of waiting leads to a session that can go on. -/
namespace VkService
open PyStr Effects Effects.Prog Effects.Machine RowStore UserVkRepository

/-- The requests of the bot, which leave an exception to its runtime. -/
def Request.fromBot : Request → Bool
  | .confirm .. | .block _ | .unblock _ => true
  | _ => false

/-- The last call has failed. -/
def JustFailed (h : CallHistory) : Prop := ∃ (e : CallEvent) (rest : CallHistory) (x : Exn), h = e :: rest ∧
    e.reply = .error x

def JustClosed (h : CallHistory) : Prop := ∃ r rest, h = ⟨.close, r⟩ :: rest

/-- A session is over: it is closed, or an exception of its last call has left it open. -/
def Over (request : Request) (h : CallHistory) : Prop := JustClosed h ∨ request.fromBot = true ∧ JustFailed h

section Ends
variable {α β : Type} {h : CallHistory}

/-- Only domain errors are raised by a program itself. -/
def Passes (h : CallHistory) : Except Exn α → Prop
  | .ok _ => True
  | .error e => e.isDomain = true ∨ JustFailed h

theorem passes_call {op : Call} {f : op.Reply → Py α}
    (hok : ∀ a, Conforms (fun _ _ => True) Passes (⟨op, .ok a⟩ :: h) (f a)) :
    Conforms (fun _ _ => True) Passes h (await op >>= f) :=
  .perform_bind trivial hok fun _ => .inr ⟨_, _, _, rfl, rfl⟩

theorem passes_bind {body : Py α} {f : α → Py β} (hbody : Conforms (fun _ _ => True) Passes h body)
    (hok : ∀ h a, Conforms (fun _ _ => True) Passes h (f a)) : Conforms (fun _ _ => True) Passes h (body >>= f) :=
  .bind _ _ _ hbody (fun h a _ => hok h a) fun _ _ hpasses => hpasses

theorem passes_log {status : LogStatus} {vkPeerId : PeerId} {details : Details} {f : Unit → Py α}
    (hok : ∀ h, Conforms (fun _ _ => True) Passes h (f ())) :
    Conforms (fun _ _ => True) Passes h (logConfirmation status vkPeerId details >>= f) :=
  passes_bind (passes_call fun _ => trivial) fun h _ => hok h

theorem activateConfirmed_passes (conf : VkConfirmation) (b : UserVk) (masked : String) (vkPeerId : PeerId)
    (sn dn : Option String) :
    Conforms (fun _ _ => True) Passes h (activateConfirmed conf b masked vkPeerId sn dn) := by
  refine passes_bind (.tryCatch (Q := fun h r => ∀ e, r = .error e → JustFailed h) _ _ _ ?_
    (fun _ _ _ => trivial) fun h e hfailed => ?_)
    fun h _ => passes_call fun _ => passes_log fun _ => trivial
  · exact .perform_bind trivial (fun _ => by intro e he; cases he) fun _ _ _ => ⟨_, _, _, rfl, rfl⟩
  · cases e with
    | alreadyExists message => exact passes_log fun _ => .inl rfl
    | _ => exact .inr (hfailed _ rfl)

theorem confirm_passes (settings : VkSettings) (code : Str) (vkPeerId : PeerId) (sn dn : Option String) :
    Conforms (fun _ _ => True) Passes h (confirm settings code vkPeerId sn dn) := by
  refine passes_bind (passes_call fun now => passes_call fun failures => ?_) fun h _ => passes_call fun found => ?_
  · split
    · exact passes_log fun _ => .inl rfl
    · trivial
  cases found with
  | none => exact passes_log fun _ => .inl rfl
  | some conf =>
    refine passes_call fun b => ?_
    split
    · split
      · exact passes_log fun _ => trivial
      · exact passes_log fun _ => .inl rfl
    refine passes_call fun now => ?_
    split
    · exact passes_log fun _ => .inl rfl
    cases b with
    | none => exact passes_log fun _ => .inl rfl
    | some b =>
      dsimp only
      split
      · exact passes_log fun _ => .inl rfl
      refine passes_call fun q => ?_
      split
      · exact passes_log fun _ => .inl rfl
      · exact activateConfirmed_passes _ _ _ _ _ _

theorem withSession_closed (body : Py α) : Conforms (fun _ _ => True) (fun h _ => JustClosed h) h (withSession body) :=
  withSession_conforms (Q := fun _ _ => True) (.of_forall (fun _ _ => trivial) (fun _ _ => trivial) _ _)
  (fun _ _ _ => trivial)
    (fun _ _ _ => ⟨_, _, rfl⟩) fun _ _ _ _ => ⟨_, _, rfl⟩

theorem botCommit_closed : Conforms (fun _ _ => True) (fun h _ => JustClosed h) h botCommit := by
  refine .bind (Q := fun _ r => ∃ r', r = .ok r') _ _ _
    (.attempt (Q := fun _ _ => True) _ _ (.perform _ trivial fun _ => trivial) fun _ r _ => ⟨r, rfl⟩)
    (fun h r _ => ?_) fun h e hr => ?_
  · refine .perform_bind trivial (fun _ => ?_) fun _ => ⟨_, _, rfl⟩
    cases r <;> exact ⟨_, _, rfl⟩
  · obtain ⟨_, ⟨⟩⟩ := hr

/-- What a session of the bot does before its commit. -/
theorem bot_over {request : Request} (hbot : request.fromBot = true) {body : Py α} {f : α → Answer}
    (hbody : Conforms (fun _ _ => True) (fun h r => ∀ e, r = .error e → JustFailed h) h body) :
    Conforms (fun _ _ => True) (fun h _ => Over request h) h (do let a ← body; botCommit; pure (f a)) :=
  .bind _ _ _ hbody
    (fun _ _ _ => .bind _ _ _ botCommit_closed (fun _ _ hclosed => .inl hclosed) fun _ _ hclosed => .inl hclosed)
    fun _ e hfailed => .inr ⟨hbot, hfailed e rfl⟩

theorem transition_fails (vkPeerId : PeerId) (state : BindingState) (action : LogAction) :
    Conforms (fun _ _ => True) (fun h r => ∀ e, r = .error e → JustFailed h) h (transition vkPeerId state action) := by
  refine .perform_bind trivial (fun found => ?_) fun _ _ _ => ⟨_, _, _, rfl, rfl⟩
  cases found with
  | none => exact .perform_bind trivial (fun _ e he => by cases he) fun _ _ _ => ⟨_, _, _, rfl, rfl⟩
  | some b =>
    exact .perform_bind trivial (fun _ => .perform_bind trivial (fun _ e he => by cases he) fun _ _ _ => ⟨_, _, _, rfl, rfl⟩)
      fun _ _ _ => ⟨_, _, _, rfl, rfl⟩

/-- Every request comes to such an end. -/
theorem request_over (settings : VkSettings) (request : Request) :
    Conforms (fun _ _ => True) (fun h _ => Over request h) [] (request.prog settings) := by
  cases request with
  | ensureBinding | issueConfirmation | unlink =>
    exact .mono (fun _ _ h => h) (fun _ _ hclosed => .inl hclosed) _ _ (withSession_closed _)
  | deliver =>
    exact .bind _ _ _ (withSession_closed _) (fun _ _ hclosed => .inl hclosed) fun _ _ hclosed => .inl hclosed
  | confirm code vkPeerId sn dn =>
    refine bot_over rfl (.mono (fun _ _ h => h) (fun h r hr e he => ?_) _ _
      (attemptDomain_conforms (confirm_passes settings code vkPeerId sn dn)))
    subst he
    exact hr.1.resolve_left (by simp [hr.2.2 e rfl])
  | block | unblock => exact bot_over rfl (transition_fails _ _ _)

end Ends

section Runs
variable {hashtext : String → Int} {settings : VkSettings} {pool : Tid → Request} {T : Tables} {s : Run}
  {cond : Move Tid World → Run → Prop}

/-- With the constraints of the schema, only the activation of a binding can fail in a session of the bot. -/
theorem activates_of_fails {t : Tid} {w : World} {ids : NewIds} {V : Tables} (hV : V.Wf) {c : Call} {h : CallHistory}
    (hallowed : RequestCall settings (pool t) h c) (hbot : (pool t).fromBot = true) {x : Exn}
    (hfails : (answer w ids V c).1 = .error x) :
    ∃ recordId vkPeerId sn dn, c = .userVkActivate recordId vkPeerId sn dn := by
  have htransition : ∀ {vkPeerId state}, TransitionCall vkPeerId state h c →
      ∃ recordId vkPeerId sn dn, c = .userVkActivate recordId vkPeerId sn dn := by
    intro vkPeerId state hcall
    cases hcall with
    | look => cases (hV.getByPeerId_eq vkPeerId).symm.trans hfails
    | @set b =>
      have hrows := filter_of_unique (hV.pairwise_liveWithId b.id)
      simp only [answer, setState, hrows] at hfails
      cases hfind : V.userVks.find? (liveWithId b.id) with
      | none =>
        rw [hfind] at hfails
        cases hfails
      | some row =>
        rw [hfind] at hfails
        cases hfails
    | _ => cases hfails
  cases hreq : pool t with
  | confirm code vkPeerId sn dn =>
    rw [hreq] at hallowed
    cases hallowed with
    | activate => exact ⟨_, _, _, _, rfl⟩
    | lookup => cases (hV.getByCode_eq _).symm.trans hfails
    | load => cases (hV.getById_eq _).symm.trans hfails
    | peer => cases (hV.getByPeerId_eq _).symm.trans hfails
    | _ => cases hfails
  | block | unblock =>
    rw [hreq] at hallowed
    exact htransition hallowed
  | _ =>
    rw [hreq] at hbot
    cases hbot

/-- And when it fails the session holds nothing. -/
theorem idle_of_fails (hT : T.Wf) (hreach : Reaches hashtext cond (launch settings pool (.ofTables T)) s) {t : Tid}
    {w : World} {c : Call} {r : Except Exn c.Reply} {next : Store}
    (hcalls : Calls hashtext settings pool s t w c r next) (hbot : (pool t).fromBot = true) {x : Exn}
    (hr : r = .error x) :
    (∀ row, ¬ Held t row next.userVks) ∧ ∀ row, ¬ Held t row next.vkConfirmations := by
  obtain ⟨-, hreply, -⟩ := execCall_cases hcalls.exec
  obtain ⟨recordId, vkPeerId, sn, dn, rfl⟩ :=
    activates_of_fails ((reaches_lawful hT hreach).view_wf t) hcalls.allowed hbot
    (hreply.symm.trans hr)
  obtain ⟨code, sn', dn', conf, b, hreq, -, hat⟩ := hcalls.allowed.activation
  have hidle := confirm_idle hcalls.orderly hcalls.sound.owned hreq (hat.not_writes rfl)
  subst hr
  refine ⟨fun row hheld => ?_, fun row hheld => ?_⟩
  · rcases (exec_userVks hcalls.exec).held hheld with hold | ⟨-, hwrites⟩
    · exact hidle.1 row hold
    · cases hwrites
  · rcases (exec_vkConfirmations hcalls.exec).held hheld with hold | ⟨-, hwrites⟩
    · exact hidle.2 row hold
    · cases hwrites

/-- A session has written a binding or a code that it has not committed. -/
def HoldsRows (s : Run) (t : Tid) : Prop :=
  (∃ row, Held t row s.shared.userVks) ∨ ∃ row, Held t row s.shared.vkConfirmations

theorem not_holding_of_over (hT : T.Wf) (hreach : Reaches hashtext cond (launch settings pool (.ofTables T)) s)
    {t : Tid} {w : World} {c : Call} {k : Except Exn c.Reply → Py Answer} {r : Except Exn c.Reply} {next : Store}
    (hcalls : Calls hashtext settings pool s t w c r next) (hover : Over (pool t) (⟨c, r⟩ :: s.history t)) :
    ¬ HoldsRows (s.advance t c k r next) t := by
  have hno : (∀ row, ¬ Held t row next.userVks) ∧ ∀ row, ¬ Held t row next.vkConfirmations := by
    rcases hover with ⟨r', rest, heq⟩ | ⟨hbot, e, rest, x, heq, hx⟩
    · cases heq
      have hnone := not_held_of_ends hcalls.exec rfl
      exact ⟨hnone.1, hnone.2.1⟩
    · obtain ⟨rfl, -⟩ := List.cons.inj heq
      exact idle_of_fails hT hreach hcalls hbot hx
  rintro (⟨row, hheld⟩ | ⟨row, hheld⟩)
  · exact hno.1 row hheld
  · exact hno.2 row hheld

/-- Whoever holds something has a call to make. -/
theorem calls_of_holding (hT : T.Wf) (hreach : Reaches hashtext cond (launch settings pool (.ofTables T)) s) {t : Tid}
    (hholding : HoldsRows s t) : ∃ c k, s.prog t = some (.call c k) := by
  refine reach_induction (database hashtext) (I := fun s => HoldsRows s t → ∃ c k, s.prog t = some (.call c k)) ?_ ?_ ?_
    hreach hholding
  · rintro (⟨row, hheld⟩ | ⟨row, hheld⟩) <;> exact absurd hheld not_held_ofRows
  · intro s u w c k r next hreach hinv hcond hp hexec hholding
    have horderly := reaches_orderly hreach
    have hcalls : Calls hashtext settings pool s u w c r next :=
      ⟨horderly, reaches_sound hT hreach, ⟨k, hp⟩, (horderly.rest u _ hp).1, hexec⟩
    by_cases ht : t = u
    · subst ht
      have hend := (conforming_advance (reaches_conforming (fun t => request_over settings (pool t)) hreach) hp r next).rest t (k r)
        (Sys.advance_prog_self ..)
      rw [Sys.history_advance_self] at hend
      cases hk : k r with
      | call c' k' => exact ⟨c', k', by rw [Sys.advance_prog_self, hk]⟩
      | ret | raise =>
        rw [hk] at hend
        exact absurd hholding (not_holding_of_over hT hreach hcalls hend)
    · have hbefore : HoldsRows s t := by
        rcases hholding with ⟨row, hheld⟩ | ⟨row, hheld⟩
        · exact .inl ⟨row, ((exec_userVks hexec).held hheld).resolve_right fun h => ht h.1⟩
        · exact .inr ⟨row, ((exec_vkConfirmations hexec).held hheld).resolve_right fun h => ht h.1⟩
      obtain ⟨c', k', hp'⟩ := hinv hbefore
      exact ⟨c', k', by rw [Sys.advance_prog_ne _ _ _ _ _ _ ht, hp']⟩
  · intro s u c k hreach hinv _ hp hholding
    have hbefore : t ≠ u ∧ HoldsRows s t := by
      rcases hholding with ⟨row, hheld⟩ | ⟨row, hheld⟩
      · exact ⟨hheld.of_rollback.2, .inl ⟨row, hheld.of_rollback.1⟩⟩
      · exact ⟨hheld.of_rollback.2, .inr ⟨row, hheld.of_rollback.1⟩⟩
    obtain ⟨c', k', hp'⟩ := hinv hbefore.2
    exact ⟨c', k', by rw [Sys.drop_prog_ne _ _ _ hbefore.1, hp']⟩

/-- A delivery holds no binding and no code. -/
theorem not_holding_of_deliver (hT : T.Wf) (hreach : Reaches hashtext cond (launch settings pool (.ofTables T)) s)
    {t : Tid} {command : NotificationCommandSendVkData} (hpool : pool t = .deliver command) : ¬ HoldsRows s t := by
  have horderly := reaches_orderly hreach
  have howned := (reaches_sound hT hreach).owned
  rintro (⟨row, hheld⟩ | ⟨row, hheld⟩)
  · obtain ⟨e, he, hwrites⟩ := howned.userVks t row hheld
    obtain ⟨later, earlier, -, hcall⟩ := (horderly.traced t).of_mem he
    rw [hpool] at hcall
    cases hwrites <;> exact hcall
  · obtain ⟨e, he, hwrites⟩ := howned.vkConfirmations t row hheld
    obtain ⟨later, earlier, -, hcall⟩ := (horderly.traced t).of_mem he
    rw [hpool] at hcall
    cases hwrites <;> exact hcall

/-- A session that locks in order waits for rows only. -/
theorem holding_of_waits {t t' : Tid} (horderly : Orderly settings pool s) (hpool : (pool t).locksInOrder = true)
    (hwaits : WaitsOn hashtext s t t') : HoldsRows s t' := by
  obtain ⟨-, c, k, w, hp, hblocks⟩ := hwaits
  rcases locks_of_blocks hpool (horderly.rest t _ hp).1 hblocks with hlevel | hlevel | ⟨x, code, exp, rfl⟩
  · exact .inl (hblocks.holdsUserVk hlevel)
  · exact .inr (hblocks.holdsConfirmation hlevel)
  · exact .inr hblocks.held

/-- A call is held up exactly when its session waits for another. -/
theorem stuck_iff_blocked {t : Tid} {c : Call} {k : Except Exn c.Reply → Py Answer} (hp : s.prog t = some (.call c k))
    (w : World) :
    (database hashtext).next (.step t w) s = none ↔ ∃ t' ≠ t, Blocks hashtext t t' w s.shared c := by
  rw [← waits_iff_blocked]
  simp only [Machine.next, hp, database, execCall]
  cases ready hashtext t w s.shared c <;> simp

/-- Both sessions lock in order, and the first waits for the second. -/
def WaitsInOrder (hashtext : String → Int) (pool : Tid → Request) (s : Run) (t t' : Tid) : Prop :=
  WaitsOn hashtext s t t' ∧ (pool t).locksInOrder = true ∧ (pool t').locksInOrder = true

theorem waitsInOrder_rises (hT : T.Wf) (hreach : Reaches hashtext cond (launch settings pool (.ofTables T)) s)
    (t t' t'' : Tid) (hwaits : WaitsInOrder hashtext pool s t t') (hwaits' : WaitsInOrder hashtext pool s t' t'') :
    lockRank s t < lockRank s t' :=
  lockRank_lt hT hreach hwaits.2.1 hwaits.2.2 hwaits.1 hwaits'.1

theorem unlinks_of_not_in_order {request : Request} (horder : request.locksInOrder = false)
    (hdeliver : ∀ command, request ≠ .deliver command) : ∃ userId, request = .unlink userId := by
  cases request with
  | unlink userId => exact ⟨userId, rfl⟩
  | deliver command => exact absurd rfl (hdeliver command)
  | _ => cases horder

/-- A session that does not deliver can go on, or it waits for one that can, or for one that unlinks. -/
theorem waiting_leads_out (hT : T.Wf) (hreach : Reaches hashtext cond (launch settings pool (.ofTables T)) s) {t : Tid}
    (hdeliver : ∀ command, pool t ≠ .deliver command) (hcalls : ∃ c k, s.prog t = some (.call c k)) :
    ∃ t', Relation.ReflTransGen (WaitsOn hashtext s) t t' ∧
      ((∃ userId, pool t' = .unlink userId) ∨ ∀ w, (database hashtext).next (.step t' w) s ≠ none) := by
  have horderly := reaches_orderly hreach
  obtain ⟨t', hchain, hlast⟩ := LockOrder.leads_out_of_rank (lockRank s) (lockRank_le s)
    (show ∀ u u' u'', WaitsInOrder hashtext pool s u u' → _ from waitsInOrder_rises hT hreach) t
  have hwaited : ∀ {u u'}, (pool u).locksInOrder = true → WaitsOn hashtext s u u' →
      (∀ command, pool u' ≠ .deliver command) ∧ ∃ c k, s.prog u' = some (.call c k) := by
    intro u u' horder hwaits
    have hholding := holding_of_waits horderly horder hwaits
    exact ⟨fun _ hpool => not_holding_of_deliver hT hreach hpool hholding, calls_of_holding hT hreach hholding⟩
  have hend : (∀ command, pool t' ≠ .deliver command) ∧ ∃ c k, s.prog t' = some (.call c k) := by
    rcases Relation.ReflTransGen.cases_tail hchain with rfl | ⟨u, -, hwaits⟩
    · exact ⟨hdeliver, hcalls⟩
    · exact hwaited hwaits.2.1 hwaits.1
  have hchain' := Relation.ReflTransGen.mono (fun _ _ hwaits => hwaits.1) _ _ hchain
  cases horder : (pool t').locksInOrder with
  | false => exact ⟨t', hchain', .inl (unlinks_of_not_in_order horder hend.1)⟩
  | true =>
    by_cases hwaits : ∃ t'', WaitsOn hashtext s t' t''
    · obtain ⟨t'', hwaits⟩ := hwaits
      have horder' : (pool t'').locksInOrder = false :=
        Bool.eq_false_iff.mpr fun horder' => hlast t'' ⟨hwaits, horder, horder'⟩
      exact ⟨t'', hchain'.tail hwaits, .inl (unlinks_of_not_in_order horder' (hwaited horder hwaits).1)⟩
    · refine ⟨t', hchain', .inr fun w hnone => hwaits ?_⟩
      obtain ⟨c, k, hp⟩ := hend.2
      obtain ⟨t'', hne, hblocks⟩ := (stuck_iff_blocked hp w).mp hnone
      exact ⟨t'', hne, c, k, w, hp, hblocks⟩

end Runs

section Example

/-- Session 0 confirms the code, and the others unlink the same user. -/
def confirmAndUnlink : Tid → Request
  | 0 => .confirm "AAAA".toList 10 none none
  | _ => .unlink 1

/-- One has written the binding, the other has written the code. -/
private def crossed : Option Run :=
  (database fun _ => 0).runMoves (List.replicate 7 (.step 0 (.still 0)) ++ List.replicate 2 (.step 1 (.still 0)))
    (launch .least confirmAndUnlink (.ofTables onePending))

private theorem crossed_isSome : crossed.isSome = true := by decide +kernel

private theorem crossed_confirms :
    ∃ k, (crossed.get crossed_isSome).prog 0 = some (.call (.confirmationMarkUsed 7) k) := by
  exact ⟨_, rfl⟩

private theorem crossed_unlinks : ∃ k, (crossed.get crossed_isSome).prog 1 = some (.call (.userVkSoftDelete 1) k) := by
  exact ⟨_, rfl⟩

end Example

/-- In every state of every run, a session that does not deliver and is not at its end can go on, or
waits for one that can or for one that unlinks; and the sessions that neither deliver nor unlink do
not wait in a circle. A confirmation and an unlink of the same user can. -/
theorem deadlocks_pass_unlink :
    (∀ (hashtext : String → Int) (settings : VkSettings) (pool : Tid → Request) (T : Tables), T.Wf →
      ∀ s, Reaches hashtext anyMove (launch settings pool (.ofTables T)) s → ∀ t,
        ((∀ command, pool t ≠ .deliver command) → (∃ c k, s.prog t = some (.call c k)) →
          ∃ t', Relation.ReflTransGen (WaitsOn hashtext s) t t' ∧
            ((∃ userId, pool t' = .unlink userId) ∨ ∀ w, (database hashtext).next (.step t' w) s ≠ none)) ∧
        ¬ Relation.TransGen (WaitsInOrder hashtext pool s) t t) ∧
    ∃ s, Reaches (fun _ => 0) anyMove (launch .least confirmAndUnlink (.ofTables onePending)) s ∧
      (∃ c k, s.prog 0 = some (.call c k)) ∧ (∃ c k, s.prog 1 = some (.call c k)) ∧
      ∀ w, (database fun _ => 0).next (.step 0 w) s = none ∧ (database fun _ => 0).next (.step 1 w) s = none := by
  refine ⟨fun hashtext settings pool T hT s hreach t => ⟨waiting_leads_out hT hreach,
    LockOrder.acyclic_of_rank (lockRank s) (waitsInOrder_rises hT hreach) t⟩,
    crossed.get crossed_isSome, reach_of_runMoves _ (Option.some_get crossed_isSome).symm, ?_⟩
  obtain ⟨k, hp⟩ := crossed_confirms
  obtain ⟨k', hp'⟩ := crossed_unlinks
  exact ⟨⟨_, k, hp⟩, ⟨_, k', hp'⟩, fun w => ⟨(stuck_iff_blocked hp w).mpr (rowsReady_eq_false.mp (by decide +kernel)),
    (stuck_iff_blocked hp' w).mpr (rowsReady_eq_false.mp (by decide +kernel))⟩⟩

end VkService
