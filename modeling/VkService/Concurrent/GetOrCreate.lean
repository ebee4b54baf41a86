import VkService.Concurrent.Views
import VkService.Promises.Ensure

/-! Get-or-create is linearizable. A session that has found no binding inserts one, and the
unique index on the user lets one insert through; every other session finds that row. -/
namespace VkService
open PyStr Effects Effects.Machine RowStore UserVkRepository

/-- A live row of the user. -/
def UserVk.LiveOf (userId : UUID) (r : UserVk) : Prop := r.userId = userId ∧ r.live = true

/-- The user has a committed live row. -/
def HasLive (userId : UUID) (s : Run) : Prop := ∃ r ∈ s.shared.committed.userVks, r.LiveOf userId

/-- The session has inserted a row for the user. -/
def Created (userId : UUID) (s : Run) (t : Tid) : Prop := ∃ row, ⟨.userVkCreate userId, .ok row⟩ ∈ s.history t

section Step
variable {hashtext : String → Int} {t : Tid} {w : World} {s s' : Store} {userId : UUID}

/-- A successful insert takes an empty cell, and nobody else has a live row of the user in sight. -/
theorem exec_create (hs : s.Keyed) {row : UserVk}
    (h : (database hashtext).exec t w (.userVkCreate userId) s = some (.ok row, s')) :
    (s'.userVk row.id).pending = some (t, row) ∧ row.LiveOf userId ∧ (∀ r ∈ (s.view t).userVks, ¬ r.LiveOf userId) ∧
      ∀ x, (s.userVk x).lockedByOther t = true → ∀ r ∈ (s.userVk x).versions, ¬ r.LiveOf userId := by
  have hclash : ∀ {x : UUID} {r : UserVk}, r.LiveOf userId → (pendingRow w x userId).clashes r = true := by
    rintro x r ⟨huser, hlive⟩
    simp [UserVk.clashes, hlive, pendingRow, huser]
    rfl
  obtain ⟨hready, change, hasks, rfl⟩ := exec_asks h
  cases hasks with
  | read hc => cases hc
  | created hfree =>
    refine ⟨?_, ⟨rfl, rfl⟩, fun r hr hlive => ?_, fun x hlocked r hr hlive => ?_⟩
    · rw [Store.userVk, acquire_userVks]
      simp only [Store.apply]
      rw [cellOf_insert hs.userVks (newId_userVk w s), if_pos rfl]
    · exact List.any_eq_false.mp hfree r hr (hclash hlive)
    · have hnot := ready_apart hready hlocked r hr
      rw [hclash hlive] at hnot
      cases hnot

/-- An insert that fails has met a live row of the user. -/
theorem exec_create_failed {message : String}
    (h : (database hashtext).exec t w (.userVkCreate userId) s = some (.error (.alreadyExists message), s')) :
    ∃ r ∈ (s.view t).userVks, r.LiveOf userId := by
  obtain ⟨-, change, hasks, -⟩ := exec_asks h
  cases hasks with
  | read hc => cases hc
  | userTaken htaken =>
    obtain ⟨r, hr, hclash⟩ := List.any_eq_true.mp htaken
    simp only [UserVk.clashes, pendingRow, Bool.and_eq_true, beq_iff_eq, Option.isSome_none, Bool.false_and,
      Bool.or_false] at hclash
    exact ⟨r, hr, hclash.2.symm, hclash.1.2⟩

end Step

section Runs
variable {hashtext : String → Int} {settings : VkSettings} {pool : Tid → Request} {T : Tables} {s : Run}
  {cond : Move Tid World → Run → Prop} {userId : UUID} {t : Tid} {w : World} {c : Call}
  {k : Except Exn c.Reply → Py Answer} {r : Except Exn c.Reply} {next : Store}

theorem hasLive_iff (hkeyed : s.shared.Keyed) :
    HasLive userId s ↔ ∃ x row, (s.shared.userVk x).committed = some row ∧ row.LiveOf userId := by
  constructor
  · rintro ⟨row, hrow, hlive⟩
    exact ⟨row.id, row, (committed_userVk hkeyed).mp hrow, hlive⟩
  · rintro ⟨x, row, hrow, hlive⟩
    have hid := id_of_userVk hkeyed (Cell.committed_mem hrow)
    exact ⟨row, (committed_userVk hkeyed).mpr (hid ▸ hrow), hlive⟩

/-- Without an unlink of the user, no call takes a live row away from it. -/
theorem liveOf_rewritten (hno : ∀ t, pool t ≠ .unlink userId) (hcalls : Calls hashtext settings pool s t w c r next)
    {row row' : UserVk} (hlive : row.LiveOf userId) (hw : RewritesUserVk w row c r row') : row'.LiveOf userId := by
  cases hw with
  | activated | stateSet => exact hlive
  | softDeleted => exact absurd hcalls.allowed.removal (hlive.1 ▸ hno t)

theorem liveOf_kept (hno : ∀ t, pool t ≠ .unlink userId) (x : UUID) :
    KeptBy settings pool T cond (userVkCell hashtext x) (UserVk.LiveOf userId) :=
  ⟨fun _ hcalls hlive hw => liveOf_rewritten hno hcalls hlive hw⟩

theorem hasLive_advance (hT : T.Wf) (hno : ∀ t, pool t ≠ .unlink userId)
    (hreach : Reaches hashtext cond (launch settings pool (.ofTables T)) s)
    (hcalls : Calls hashtext settings pool s t w c r next) (h : HasLive userId s) :
    HasLive userId (s.advance t c k r next) := by
  obtain ⟨x, hx⟩ := (hasLive_iff hcalls.sound.keyed).mp h
  exact (hasLive_iff (hcalls.sound.keyed.exec hcalls.exec)).mpr
    ⟨x, ((liveOf_kept hno x).settles hT hreach).committed (exec_userVk hcalls.sound.keyed hcalls.exec x) hx⟩

theorem hasLive_drop (h : HasLive userId s) : HasLive userId (s.drop t (s.shared.rollback t)) := by
  obtain ⟨row, hrow, hlive⟩ := h
  exact ⟨row, by rwa [Sys.drop_shared, Store.committed_rollback], hlive⟩

/-- A session that gets or creates a binding writes bindings by its insert only. -/
theorem ensures_idle (horderly : Orderly settings pool s) (howned : Owned s) (hensures : Ensures userId (pool t))
    (hnone : ¬ Created userId s t) : ∀ row, ¬ Held t row s.shared.userVks := by
  intro row hheld
  obtain ⟨e, he, hwrites⟩ := howned.userVks t row hheld
  obtain ⟨later, earlier, -, hcall⟩ := (horderly.traced t).of_mem he
  have hissues := hensures.issues hcall
  generalize huser : row.userId = u at hwrites
  generalize hid : row.id = x at hwrites
  cases hwrites with
  | created row' =>
    cases hissues with
    | create => exact hnone ⟨row', he⟩
  | _ => cases hissues

/-- What such a session looks up or runs into is committed. -/
theorem ensures_view (hcalls : Calls hashtext settings pool s t w c r next) (hensures : Ensures userId (pool t))
    (hc : c = .userVkGetByUserId userId ∨ c = .userVkCreate userId) :
    (s.shared.view t).userVks = s.shared.committed.userVks := by
  refine view_eq_snapshot (ensures_idle hcalls.orderly hcalls.sound.owned hensures ?_)
  rintro ⟨row, hmem⟩
  have hissues := hensures.issues hcalls.allowed
  rcases hc with rfl | rfl
  · cases hissues with
    | look hh =>
      rcases hh with hh | ⟨message, hh⟩ <;> rw [hh] at hmem <;> simp at hmem
  · cases hissues with
    | create hh =>
      rw [hh] at hmem
      simp at hmem

/-- What the history of a session that gets or creates says about the committed rows. -/
structure Seen (userId : UUID) (s : Run) (t : Tid) : Prop where
  found : ∀ b, ⟨.userVkGetByUserId userId, .ok (some b)⟩ ∈ s.history t →
    ∃ row, (s.shared.userVk b.id).committed = some row ∧ row.LiveOf userId
  failed : ∀ message, ⟨.userVkCreate userId, .error (.alreadyExists message)⟩ ∈ s.history t → HasLive userId s
  raised : ∀ e ∈ s.history t, ∀ message, e.reply = .error (.alreadyExists message) → ∃ u, e.op = .userVkCreate u
  notLost : ¬ LostRace userId (s.history t)

/-- What a step adds to the history of such a session, from what was seen before. -/
theorem Seen.step (hensures : Ensures userId (pool t)) (hcalls : Calls hashtext settings pool s t w c r next)
    (hlive : HasLive userId s → HasLive userId (s.advance t c k r next))
    (hkept : ∀ x, (∃ row, (s.shared.userVk x).committed = some row ∧ row.LiveOf userId) →
      ∃ row, (next.userVk x).committed = some row ∧ row.LiveOf userId) (hs : Seen userId s t) :
    Seen userId (s.advance t c k r next) t where
  found b hmem := by
    rw [Sys.history_advance_self] at hmem
    rcases List.mem_cons.mp hmem with heq | hmem
    · cases heq
      obtain ⟨-, hreply, -⟩ := execCall_cases hcalls.exec
      have hrow := oneOrNone_some (show oneOrNone _ = .ok (some b) from hreply.symm)
      obtain ⟨hview, hp⟩ := List.mem_filter.mp (hrow ▸ List.mem_singleton_self b)
      rw [ensures_view hcalls hensures (.inl rfl)] at hview
      simp only [Bool.and_eq_true, beq_iff_eq] at hp
      exact hkept b.id ⟨b, (committed_userVk hcalls.sound.keyed).mp hview, hp⟩
    · exact hkept b.id (hs.found b hmem)
  failed message hmem := by
    rw [Sys.history_advance_self] at hmem
    rcases List.mem_cons.mp hmem with heq | hmem
    · cases heq
      have hfailed := exec_create_failed hcalls.exec
      rw [ensures_view hcalls hensures (.inr rfl)] at hfailed
      exact hlive hfailed
    · exact hlive (hs.failed message hmem)
  raised e he message hreply := by
    rw [Sys.history_advance_self] at he
    rcases List.mem_cons.mp he with rfl | he
    · obtain ⟨-, hanswer, -⟩ := execCall_cases hcalls.exec
      rcases alreadyExists_of_answer (hanswer.symm.trans hreply) with hcreate | ⟨x, vkPeerId, sn, dn, rfl⟩
      · exact hcreate
      · cases hensures.issues hcalls.allowed
    · exact hs.raised e he message hreply
  notLost := by
    rw [Sys.history_advance_self]
    rintro ⟨later, message, hlost⟩
    cases later with
    | cons e later => exact hs.notLost ⟨later, message, (List.cons.inj hlost).2⟩
    | nil =>
      -- the row that the insert has met is committed, so the look-up finds it
      obtain ⟨heq, hrest⟩ := List.cons.inj hlost
      cases heq
      obtain ⟨row, hrow, huser, hlive⟩ := hs.failed message (hrest ▸ List.mem_cons_self)
      rw [← ensures_view hcalls hensures (.inl rfl)] at hrow
      obtain ⟨-, hreply, -⟩ := execCall_cases hcalls.exec
      have hnone := oneOrNone_none (show oneOrNone _ = .ok none from hreply.symm)
      exact List.filter_eq_nil_iff.mp hnone row hrow (by simp [huser, hlive])

theorem seen (hT : T.Wf) (hno : ∀ t, pool t ≠ .unlink userId) (hensures : Ensures userId (pool t))
    (hreach : Reaches hashtext cond (launch settings pool (.ofTables T)) s) : Seen userId s t := by
  refine reaches_induction (I := fun s => Seen userId s t) hT .refl
    ⟨by simp, by simp, by simp, by simp [LostRace]⟩ ?_ ?_ hreach
  · intro s t' w c k r next hreach hinv _ hcalls
    have hlive := hasLive_advance (k := k) hT hno hreach hcalls
    have hkept : ∀ x, (∃ row, (s.shared.userVk x).committed = some row ∧ row.LiveOf userId) →
        ∃ row, (next.userVk x).committed = some row ∧ row.LiveOf userId := fun x =>
      ((liveOf_kept hno x).settles hT hreach).committed (exec_userVk hcalls.sound.keyed hcalls.exec x)
    by_cases ht : t = t'
    · subst ht
      exact hinv.step hensures hcalls hlive hkept
    · have hhistory := s.history_advance_ne t' c k r next ht
      exact ⟨fun b hmem => hkept b.id (hinv.found b (hhistory ▸ hmem)),
        fun message hmem => hlive (hinv.failed message (hhistory ▸ hmem)), hhistory ▸ hinv.raised, hhistory ▸ hinv.notLost⟩
  · intro s t' hreach hinv
    have hkept : ∀ x, (∃ row, (s.shared.userVk x).committed = some row ∧ row.LiveOf userId) →
        ∃ row, ((s.shared.rollback t').userVk x).committed = some row ∧ row.LiveOf userId := fun x =>
      ((liveOf_kept hno x).settles hT hreach).committed (rollback_userVk (reaches_sound hT hreach).keyed t' x)
    exact ⟨fun b hmem => hkept b.id (hinv.found b hmem), fun message hmem => hasLive_drop (hinv.failed message hmem),
      hinv.raised, hinv.notLost⟩

/-- The calls and the end of such a session, in a run. -/
theorem ensures_conforming (hreach : Reaches hashtext cond (launch settings pool (.ofTables T)) s) :
    Conforming (fun t h c => ∀ userId, Ensures userId (pool t) → CommitsReturned userId h c)
      (fun t h r => ∀ userId, Ensures userId (pool t) → EnsureEnd userId h r) s := by
  refine reaches_conforming (fun t => ?_) hreach
  by_cases hensures : ∃ userId, Ensures userId (pool t)
  · obtain ⟨userId, hensures⟩ := hensures
    have hsame : ∀ {userId'}, Ensures userId' (pool t) → userId' = userId := by
      intro userId' hensures'
      rcases hensures with h | h <;> rcases hensures' with h' | h' <;> rw [h] at h' <;> cases h' <;> rfl
    exact .mono (fun _ _ hc userId' hensures' => hsame hensures' ▸ hc)
      (fun _ _ hr userId' hensures' => hsame hensures' ▸ hr)
      _ _ (ensures_returns settings hensures)
  · exact .mono (fun _ _ _ userId hensures' => absurd ⟨userId, hensures'⟩ hensures)
      (fun _ _ _ userId hensures' => absurd ⟨userId, hensures'⟩ hensures) _ _ (request_conforms settings (pool t))

/-- No session ends with AlreadyExistsError. -/
theorem ensures_not_raised (hT : T.Wf) (hno : ∀ t, pool t ≠ .unlink userId) (hensures : Ensures userId (pool t))
    (hreach : Reaches hashtext cond (launch settings pool (.ofTables T)) s) (message : String) :
    s.prog t ≠ some (.raise (.alreadyExists message)) := by
  intro hp
  have hseen := seen hT hno hensures hreach
  rcases ((ensures_conforming hreach).rest t _ hp userId hensures).1 message rfl with hlost | ⟨e, he, hreply, hop⟩
  · exact hseen.notLost hlost
  · obtain ⟨u, hu⟩ := hseen.raised e he message hreply
    exact hop u hu

/-! ### Who creates the row -/

/-- An insert of the user holds its row until the commit makes it visible. -/
theorem ensures_writes (hno : ∀ t, pool t ≠ .unlink userId) (hensures : Ensures userId (pool t)) (x : UUID) :
    WritesCell settings pool T cond (userVkCell hashtext x) (UserVk.LiveOf userId) t
      fun e => ∃ row, row.id = x ∧ e = ⟨.userVkCreate userId, .ok row⟩ where
  puts := by
    rintro s w c r next - hcalls ⟨row, rfl, heq⟩
    cases heq
    obtain ⟨hp, hlive, -, -⟩ := exec_create hcalls.sound.keyed hcalls.exec
    exact ⟨row, hp, hlive⟩
  opens := by
    rintro s w c r next hcalls ⟨row, rfl, heq⟩
    cases heq
    rw [hcalls.allowed.creation.2]
    simp [Ended]
  keeps hcalls _ hlive hw := liveOf_rewritten hno hcalls hlive hw
  stays := by
    rintro s w c r next hcalls ⟨_, he, row, -, rfl⟩ hc hr
    have hissues := hensures.issues hcalls.allowed
    rcases rolledBack_cases hcalls.exec hr with hends | ⟨u, rfl⟩ | ⟨_, _, _, _, rfl⟩
    · rw [hc] at hends
      cases hends
    · cases hissues with
      | create hh =>
        rw [hh] at he
        simp at he
    · cases hissues

theorem ensures_commitsOnce (hensures : Ensures userId (pool t)) : CommitsOnce hashtext settings pool T cond t := by
  intro s w r next hreach hcalls
  obtain ⟨k, hp⟩ := hcalls.running
  exact (((ensures_conforming hreach).rest t _ hp).1 userId hensures rfl).1

/-- The insert of the session has not been rolled back. -/
def Lasting (s : Run) (t : Tid) : Prop := Running s t ∨ Committed s t

theorem Lasting.before (honce : CommitsOnce hashtext settings pool T cond t) {t' : Tid}
    (hreach : Reaches hashtext cond (launch settings pool (.ofTables T)) s)
    (hcalls : Calls hashtext settings pool s t' w c r next) (h : Lasting (s.advance t' c k r next) t) :
    Lasting s t := by
  rcases h with hrun | hcommitted
  · exact .inl (hrun.before hcalls).1
  · rcases hcommitted.cases with hcommitted | ⟨rfl, rfl⟩
    · exact .inr hcommitted
    · obtain ⟨k', hp⟩ := hcalls.running
      exact .inl ⟨honce _ _ _ _ hreach hcalls, _, hp⟩

/-- When one session inserts, no other one has a row for the user, pending or committed. -/
theorem create_alone (hT : T.Wf) (hno : ∀ t, pool t ≠ .unlink userId)
    (hreach : Reaches hashtext cond (launch settings pool (.ofTables T)) s) {row : UserVk}
    (hcalls : Calls hashtext settings pool s t w (.userVkCreate userId) (.ok row) next) :
    ¬ HasLive userId s ∧ ∀ t', t' ≠ t → Ensures userId (pool t') → Created userId s t' → ¬ Lasting s t' := by
  obtain ⟨hensures, -⟩ := hcalls.allowed.creation
  obtain ⟨-, -, hview, hlocked⟩ := exec_create hcalls.sound.keyed hcalls.exec
  have hnone : ¬ HasLive userId s := by
    rintro ⟨row', hrow, hlive⟩
    rw [← ensures_view hcalls hensures (.inr rfl)] at hrow
    exact hview row' hrow hlive
  refine ⟨hnone, ?_⟩
  rintro t' hne hensures' ⟨row', hmem⟩ (hrun | hcommitted)
  · obtain ⟨row'', hp, hlive⟩ := (ensures_writes hno hensures' row'.id).held hT hreach ⟨_, hmem, row', rfl, rfl⟩ hrun
    exact hlocked row'.id (by simp [show (s.shared.userVk row'.id).pending = _ from hp, Cell.lockedByOther, hne]) row''
      (Cell.pending_mem hp) hlive
  · refine hnone ((hasLive_iff hcalls.sound.keyed).mpr ⟨row'.id, ?_⟩)
    exact (ensures_writes hno hensures' row'.id).committed hT (liveOf_kept hno row'.id) (ensures_commitsOnce hensures')
      hreach ⟨_, hmem, row', rfl, rfl⟩ hcommitted

theorem Created.cases {t' : Tid} (h : Created userId (s.advance t' c k r next) t) :
    Created userId s t ∨ t = t' ∧ ∃ row, (⟨c, r⟩ : CallEvent) = ⟨.userVkCreate userId, .ok row⟩ := by
  obtain ⟨row, hmem⟩ := h
  rcases mem_history_cases hmem with hmem | ⟨ht, heq⟩
  · exact .inl ⟨row, hmem⟩
  · exact .inr ⟨ht, row, heq.symm⟩

/-- At most one insert lasts. -/
theorem creators_alone (hT : T.Wf) (hno : ∀ t, pool t ≠ .unlink userId)
    (hreach : Reaches hashtext cond (launch settings pool (.ofTables T)) s) {t' : Tid}
    (hensures : Ensures userId (pool t)) (hensures' : Ensures userId (pool t')) (hcreated : Created userId s t)
    (hcreated' : Created userId s t') (hlasts : Lasting s t) (hlasts' : Lasting s t') : t = t' := by
  refine reaches_induction (I := fun s => Created userId s t → Created userId s t' → Lasting s t → Lasting s t' → t = t')
    hT .refl (fun ⟨_, hmem⟩ => by cases hmem) ?_ ?_ hreach hcreated hcreated' hlasts hlasts'
  · intro s t₀ w c k r next hreach hinv _ hcalls hcreated hcreated' hlasts hlasts'
    have hold := hlasts.before (ensures_commitsOnce hensures) hreach hcalls
    have hold' := hlasts'.before (ensures_commitsOnce hensures') hreach hcalls
    rcases hcreated.cases with hbefore | ⟨rfl, row, heq⟩
    · rcases hcreated'.cases with hbefore' | ⟨rfl, row, heq⟩
      · exact hinv hbefore hbefore' hold hold'
      · cases heq
        by_contra hne
        exact (create_alone hT hno hreach hcalls).2 t hne hensures hbefore hold
    · cases heq
      rcases hcreated'.cases with hbefore' | ⟨rfl, -⟩
      · by_contra hne
        exact (create_alone hT hno hreach hcalls).2 t' (Ne.symm hne) hensures' hbefore' hold'
      · rfl
  · intro s t₀ _ hinv hcreated hcreated' hlasts hlasts'
    exact hinv hcreated hcreated' (hlasts.imp (fun h => h.before_drop.1) id) (hlasts'.imp (fun h => h.before_drop.1) id)

/-- A user with a row at the start never gets another one. -/
theorem not_created_of_userRow (hT : T.Wf) (hno : ∀ t, pool t ≠ .unlink userId)
    (hreach : Reaches hashtext cond (launch settings pool (.ofTables T)) s) (hrow : userRow T userId ≠ none)
    (t : Tid) : ¬ Created userId s t := by
  have hlive : ∀ {s}, Reaches hashtext cond (launch settings pool (.ofTables T)) s → HasLive userId s := by
    intro s hreach
    refine reaches_induction (I := HasLive userId) hT .refl ?_ (fun s t w c k r next hreach h _ hcalls =>
      hasLive_advance hT hno hreach hcalls h) (fun s t _ h => hasLive_drop h) hreach
    obtain ⟨row, hrow⟩ := Option.ne_none_iff_exists'.mp hrow
    obtain ⟨hmem, hlive⟩ := userRow_some hrow
    exact ⟨row, by rwa [launch, Sys.start_shared, Store.committed_ofTables], hlive⟩
  refine reaches_induction (I := fun s => ¬ Created userId s t) hT .refl (fun ⟨_, hmem⟩ => by cases hmem) ?_
    (fun s t' _ h => h) hreach
  intro s t' w c k r next hreach hinv _ hcalls hcreated
  rcases hcreated.cases with hbefore | ⟨rfl, row, heq⟩
  · exact hinv hbefore
  · cases heq
    exact (create_alone hT hno hreach hcalls).1 (hlive hreach)

/-- Where the live row of a user comes from. -/
structure Sourced (userId : UUID) (pool : Tid → Request) (T : Tables) (s : Run) : Prop where
  pending : ∀ x t row, (s.shared.userVk x).pending = some (t, row) → row.LiveOf userId →
    HasLive userId s ∨ Ensures userId (pool t) ∧ Created userId s t
  committed : HasLive userId s →
    userRow T userId ≠ none ∨ ∃ t, Ensures userId (pool t) ∧ Created userId s t ∧ Committed s t

theorem Created.advance {t' : Tid} (h : Created userId s t) : Created userId (s.advance t' c k r next) t := by
  obtain ⟨row, hmem⟩ := h
  exact ⟨row, s.mem_history_advance t' c k r next hmem⟩

/-- A live row is written over a live row of the same user. -/
theorem liveOf_of_rewritten {row row' : UserVk} (hw : RewritesUserVk w row c r row') (hlive : row'.LiveOf userId) :
    row.LiveOf userId := by
  cases hw with
  | activated hrow | stateSet hrow => exact ⟨hlive.1, hrow⟩
  | softDeleted => cases hlive.2

theorem Sourced.step (hT : T.Wf) (hno : ∀ t, pool t ≠ .unlink userId)
    (hreach : Reaches hashtext cond (launch settings pool (.ofTables T)) s)
    (hcalls : Calls hashtext settings pool s t w c r next) (hs : Sourced userId pool T s) :
    Sourced userId pool T (s.advance t c k r next) where
  pending x t' row hp hlive := by
    have hkept := hasLive_advance (k := k) hT hno hreach hcalls
    rcases (exec_userVk hcalls.sound.keyed hcalls.exec x).pending_cases hp with ⟨hp, -⟩ |
      ⟨rfl, ⟨hnew, -⟩ | ⟨row₀, hw, hread, -⟩⟩
    · exact (hs.pending x t' row hp hlive).imp hkept fun h => ⟨h.1, h.2.advance⟩
    · cases hnew with
      | mk u =>
        obtain rfl : u = userId := hlive.1
        exact .inr ⟨hcalls.allowed.creation.1, _, by rw [Sys.history_advance_self]; exact List.mem_cons_self⟩
    · have hlive₀ := liveOf_of_rewritten hw hlive
      rcases Cell.read_cases hread with hp | ⟨hcommitted, -⟩
      · exact (hs.pending x t' row₀ hp hlive₀).imp hkept fun h => ⟨h.1, h.2.advance⟩
      · exact .inl (hkept ((hasLive_iff hcalls.sound.keyed).mpr ⟨x, row₀, hcommitted, hlive₀⟩))
  committed hlive := by
    have hbefore : HasLive userId s ∨ c = .commit ∧ Ensures userId (pool t) ∧ Created userId s t := by
      obtain ⟨x, row, hrow, hlive⟩ := (hasLive_iff (hcalls.sound.keyed.exec hcalls.exec)).mp hlive
      rcases (exec_userVk hcalls.sound.keyed hcalls.exec x).committed_cases with heq | ⟨row', hc, hp, heq⟩
      · exact .inl ((hasLive_iff hcalls.sound.keyed).mpr ⟨x, row, heq ▸ hrow, hlive⟩)
      · obtain rfl : row' = row := by
          rw [Sys.advance_shared, heq] at hrow
          exact Option.some.inj hrow
        exact (hs.pending x t row' hp hlive).imp id fun h => ⟨hc, h⟩
    rcases hbefore with hbefore | ⟨rfl, hensures, hcreated⟩
    · refine (hs.committed hbefore).imp id ?_
      rintro ⟨t', hensures, hcreated, hcommitted⟩
      exact ⟨t', hensures, hcreated.advance, s.mem_history_advance t c k r next hcommitted⟩
    · refine .inr ⟨t, hensures, hcreated.advance, ?_⟩
      obtain ⟨-, rfl, -⟩ := execCall_cases hcalls.exec
      rw [Committed, Sys.history_advance_self]
      exact List.mem_cons_self

theorem sourced_launch (hT : T.Wf) : Sourced userId pool T (launch settings pool (.ofTables T)) where
  pending x t row hp := by
    rw [launch, Sys.start_shared, show ((Store.ofTables T).userVk x).pending = none from pending_cellOf_ofRows x _] at hp
    cases hp
  committed := by
    rintro ⟨row, hrow, hlive⟩
    rw [launch, Sys.start_shared, Store.committed_ofTables] at hrow
    rw [← hlive.1, hT.userRow_of_mem hrow hlive.2]
    exact .inl (Option.some_ne_none row)

theorem sourced (hT : T.Wf) (hno : ∀ t, pool t ≠ .unlink userId)
    (hreach : Reaches hashtext cond (launch settings pool (.ofTables T)) s) : Sourced userId pool T s := by
  refine reaches_induction (I := Sourced userId pool T) hT .refl (sourced_launch hT)
    (fun s t w c k r next hreach hs _ hcalls => hs.step hT hno hreach hcalls) (fun s t hreach hs => ⟨?_, ?_⟩) hreach
  · intro x t' row hp hlive
    rcases (rollback_userVk (reaches_sound hT hreach).keyed t x).pending_cases hp with ⟨hp, -⟩ |
      ⟨-, ⟨hd, -⟩ | ⟨_, hd, -⟩⟩
    · exact (hs.pending x t' row hp hlive).imp hasLive_drop id
    · exact hd.elim
    · exact hd.elim
  · rintro ⟨row, hrow, hlive⟩
    exact hs.committed ⟨row, by rwa [Sys.drop_shared, Store.committed_rollback] at hrow, hlive⟩

/-! ### Linearizability -/

/-- The row that a committed session has returned is committed and live. -/
theorem returned_committed (hT : T.Wf) (hno : ∀ t, pool t ≠ .unlink userId) (hensures : Ensures userId (pool t))
    (hreach : Reaches hashtext cond (launch settings pool (.ofTables T)) s) (hcommitted : Committed s t) {b : UserVk}
    {created : Bool} (hr : EnsureReturned userId (s.history t) b created) :
    ∃ row ∈ s.shared.committed.userVks, row.LiveOf userId ∧ row.id = b.id := by
  have hkeyed := (reaches_sound hT hreach).keyed
  have hcell : ∃ row, (s.shared.userVk b.id).committed = some row ∧ row.LiveOf userId := by
    obtain ⟨later, earlier, hhistory, hanswer⟩ := hr
    have hsub : ∀ e ∈ earlier, e ∈ s.history t := fun e he => hhistory ▸ List.mem_append_right _ he
    cases hanswer with
    | found => exact (seen hT hno hensures hreach).found b (hsub _ (by simp))
    | created =>
      exact (ensures_writes hno hensures b.id).committed hT (liveOf_kept hno b.id) (ensures_commitsOnce hensures) hreach
        ⟨_, hsub _ (by simp), b, rfl, rfl⟩ hcommitted
    | raced => exact (seen hT hno hensures hreach).found b (hsub _ (by simp))
  obtain ⟨row, hrow, hlive⟩ := hcell
  have hid := id_of_userVk hkeyed (Cell.committed_mem hrow)
  exact ⟨row, (committed_userVk hkeyed).mpr (hid ▸ hrow), hlive, hid⟩

/-- A session commits what its call has returned. -/
theorem committed_returned (hensures : Ensures userId (pool t))
    (hreach : Reaches hashtext cond (launch settings pool (.ofTables T)) s) (hcommitted : Committed s t) :
    ∃ b created, EnsureReturned userId (s.history t) b created := by
  obtain ⟨later, earlier, hhistory, hcall⟩ := ((ensures_conforming hreach).traced t).of_mem hcommitted
  obtain ⟨-, b, created, hr⟩ := hcall userId hensures rfl
  obtain ⟨later', first, rfl, hanswer⟩ := hr
  exact ⟨b, created, later ++ ⟨.commit, .ok ()⟩ :: later', first, by simp [hhistory], hanswer⟩

theorem EnsureReturned.created {b : UserVk} (hr : EnsureReturned userId (s.history t) b true) : Created userId s t := by
  obtain ⟨later, earlier, hhistory, hanswer⟩ := hr
  cases hanswer with
  | created => exact ⟨b, hhistory ▸ List.mem_append_right _ List.mem_cons_self⟩

/-- An insert that went through is what the call returns. -/
theorem returned_of_created (hreach : Reaches hashtext cond (launch settings pool (.ofTables T)) s)
    (hcreated : Created userId s t) :
    ∃ b, EnsureReturned userId (s.history t) b true := by
  obtain ⟨b, hmem⟩ := hcreated
  obtain ⟨later, earlier, hhistory, hcall⟩ := ((reaches_orderly hreach).traced t).of_mem hmem
  obtain ⟨-, rfl⟩ := hcall.creation
  exact ⟨b, later, _, hhistory, .created b⟩

/-- Get-or-create is linearizable. Whatever the interleaving of sessions without an unlink of
the user, none of them raises AlreadyExistsError, and once one has committed the user has one
live row, which every committed session has returned; exactly one of these has created it if
the user had none at the start, and none of them otherwise. -/
theorem ensure_binding_linearizable (hashtext : String → Int) (settings : VkSettings) (pool : Tid → Request)
    (T : Tables) (hT : T.Wf) (userId : UUID) (hno : ∀ t, pool t ≠ .unlink userId) (s : Run)
    (hreach : Reaches hashtext anyMove (launch settings pool (.ofTables T)) s) :
    (∀ t message, Ensures userId (pool t) → s.prog t ≠ some (.raise (.alreadyExists message))) ∧
    (∀ t row created, pool t = .ensureBinding userId → s.prog t = some (.ret (.binding row created)) →
      EnsureReturned userId (s.history t) row created) ∧
    ((∃ t, Ensures userId (pool t) ∧ Committed s t) → ∃ row,
      s.shared.committed.userVks.filter (liveOfUser userId) = [row] ∧
      (∀ t, Ensures userId (pool t) → Committed s t →
        ∃ b created, EnsureReturned userId (s.history t) b created ∧ b.id = row.id) ∧
      (userRow T userId = none →
        ∃! t, Ensures userId (pool t) ∧ Committed s t ∧ ∃ b, EnsureReturned userId (s.history t) b true) ∧
      (userRow T userId ≠ none → ∀ t b, Ensures userId (pool t) → Committed s t →
        ¬ EnsureReturned userId (s.history t) b true)) := by
  refine ⟨fun t message hensures => ensures_not_raised hT hno hensures hreach message, fun t row created hpool hp => ?_, ?_⟩
  · obtain ⟨b, created', hr, heq⟩ := ((ensures_conforming hreach).rest t _ hp userId (.inl hpool)).2 _ rfl
    obtain ⟨rfl, rfl⟩ := heq row created rfl
    exact hr
  · rintro ⟨t, hensures, hcommitted⟩
    obtain ⟨b, created, hr⟩ := committed_returned hensures hreach hcommitted
    obtain ⟨row, hrow, hlive, -⟩ := returned_committed hT hno hensures hreach hcommitted hr
    have hwf : s.shared.committed.Wf := (reaches_lawful hT hreach).committed_wf
    have huser : userRow s.shared.committed userId = some row := hlive.1 ▸ hwf.userRow_of_mem hrow hlive.2
    refine ⟨row, ?_, fun t' hensures' hcommitted' => ?_, fun hnone => ?_, fun hsome t' b' _ _ hr' => ?_⟩
    · rw [filter_of_unique (hwf.pairwise_user userId)]
      exact congrArg Option.toList huser
    · obtain ⟨b', created', hr'⟩ := committed_returned hensures' hreach hcommitted'
      obtain ⟨row', hrow', hlive', hid'⟩ := returned_committed hT hno hensures' hreach hcommitted' hr'
      have huser' := hlive'.1 ▸ hwf.userRow_of_mem hrow' hlive'.2
      obtain rfl : row = row' := Option.some.inj (huser.symm.trans huser')
      exact ⟨b', created', hr', hid'.symm⟩
    · -- the live row was committed by the session that has created it
      rcases (sourced hT hno hreach).committed ⟨row, hrow, hlive⟩ with hsome | ⟨t', hensures', hcreated', hcommitted'⟩
      · exact absurd hnone hsome
      · refine ⟨t', ⟨hensures', hcommitted', returned_of_created hreach hcreated'⟩, ?_⟩
        rintro t'' ⟨hensures'', hcommitted'', b'', hr''⟩
        exact creators_alone hT hno hreach hensures'' hensures' hr''.created hcreated' (.inr hcommitted'')
          (.inr hcommitted')
    · exact not_created_of_userRow hT hno hreach hsome t' hr'.created

end Runs

section Example

/-- Every session gets or creates the binding of user 1. -/
def allEnsure : Tid → Request := fun _ => .ensureBinding 1

/-- Sessions 0 and 1 both find no binding; session 0 inserts one and commits, session 1 runs into it. -/
def insertRace : Option Run :=
  (database fun _ => 0).runMoves
    ([.step 0 (.still 0), .step 1 (.still 0)] ++ List.replicate 3 (.step 0 (.still 0)) ++
      List.replicate 4 (.step 1 (.still 0))) (launch .least allEnsure (.ofTables .empty))

private theorem insertRace_isSome : insertRace.isSome = true := by decide +kernel

/-- Both have committed, and the row is one. -/
theorem ensure_binding_linearizable_insertRace : ∃ row,
    (insertRace.get insertRace_isSome).shared.committed.userVks.filter (liveOfUser 1) = [row] :=
  ((ensure_binding_linearizable (fun _ => 0) .least allEnsure .empty Tables.empty_wf 1 (by simp [allEnsure]) _
    (reach_of_runMoves _ (Option.some_get insertRace_isSome).symm)).2.2
    ⟨1, .inl rfl, .tail _ (.head _)⟩).imp fun _ h => h.1

end Example
end VkService
