import VkService.Concurrent.Codes
import VkService.Promises.Locks
import VkService.Storage.LockOrder

/-! The row and key locks of concurrent sessions. All but `unlink` write a binding before they
write its codes, so a deadlock needs a session that unlinks. -/
namespace VkService
open PyStr Effects Effects.Machine RowStore UserVkRepository VkConfirmationRepository VkNotificationDeliveryRepository

/-- What `t'` has locked keeps a call of `t` waiting. -/
def Blocks (hashtext : String → Int) (t t' : Tid) (w : World) (s : Store) : Call → Prop
  | .userVkCreate userId => KeyBlocked t' (pendingRow w (s.newIds w).userVk userId).clashes s.userVks
  | .userVkActivate recordId vkPeerId screenName displayName => RowBlocked t t' (liveWithId recordId) s.userVks ∨
      ∃ r ∈ (s.view t).userVks.filter (liveWithId recordId), KeyBlocked t'
        (fun r' => r'.id != r.id && (activated w vkPeerId screenName displayName r).clashes r') s.userVks
  | .userVkSetState recordId _ => RowBlocked t t' (liveWithId recordId) s.userVks
  | .userVkSoftDelete userId => RowBlocked t t' (liveOfUser userId) s.userVks
  | .confirmationCreate _ code _ => KeyBlocked t' (·.code == code) s.vkConfirmations
  | .confirmationMarkUsed confirmationId => RowBlocked t t' (·.id == confirmationId) s.vkConfirmations
  | .confirmationInvalidatePrevious userVkId => RowBlocked t t' (unusedOf userVkId) s.vkConfirmations
  | .claimAttempt eventUuid userId _ => (t', lockKey hashtext eventUuid userId) ∈ s.advisory ∨
      KeyBlocked t' (keyed eventUuid userId) s.vkNotificationDeliveries
  | .markSent eventUuid userId | .markFailed eventUuid userId _ =>
      RowBlocked t t' (keyed eventUuid userId) s.vkNotificationDeliveries
  | _ => False

/-- The next call of `t` has to wait for `t'`. -/
def WaitsOn {α : Type} (hashtext : String → Int) (s : Sys Call Call.Reply Exn α Tid Store) (t t' : Tid) : Prop :=
  t' ≠ t ∧ ∃ c k w, s.prog t = some (.call c k) ∧ Blocks hashtext t t' w s.shared c

/-- The requests that lock bindings before codes. -/
def Request.locksInOrder : Request → Bool
  | .unlink _ | .deliver _ => false
  | _ => true

/-- A call waits exactly when another transaction blocks it. -/
theorem waits_iff_blocked (hashtext : String → Int) (t : Tid) (w : World) (s : Store) (c : Call) :
    ready hashtext t w s c = false ↔ ∃ t' ≠ t, Blocks hashtext t t' w s c := by
  cases c with
  | userVkCreate => exact keyReady_eq_false
  | userVkSetState | userVkSoftDelete | confirmationMarkUsed | confirmationInvalidatePrevious | markSent | markFailed =>
    exact rowsReady_eq_false
  | confirmationCreate => exact keyReady_eq_false
  | userVkActivate recordId vkPeerId sn dn =>
    simp only [ready, Bool.and_eq_false_iff, rowsReady_eq_false, List.all_eq_false, Bool.not_eq_true,
      keyReady_eq_false, Blocks]
    constructor
    · rintro (⟨t', hne, hrow⟩ | ⟨r, hr, t', hne, hkey⟩)
      · exact ⟨t', hne, .inl hrow⟩
      · exact ⟨t', hne, .inr ⟨r, hr, hkey⟩⟩
    · rintro ⟨t', hne, hrow | ⟨r, hr, hkey⟩⟩
      · exact .inl ⟨t', hne, hrow⟩
      · exact .inr ⟨r, hr, t', hne, hkey⟩
  | claimAttempt event user peer =>
    simp only [ready, Bool.and_eq_false_iff, List.all_eq_false, Bool.or_eq_true, decide_eq_true_eq, not_or, not_not, ne_eq,
      keyReady_eq_false, Blocks]
    constructor
    · rintro (⟨⟨t', key⟩, hheld, hne, rfl⟩ | ⟨t', hne, hkey⟩)
      · exact ⟨t', hne, .inl hheld⟩
      · exact ⟨t', hne, .inr hkey⟩
    · rintro ⟨t', hne, hheld | hkey⟩
      · exact .inl ⟨_, hheld, hne, rfl⟩
      · exact .inr ⟨t', hne, hkey⟩
  | _ => exact iff_of_false (by simp [ready]) (by simp [Blocks])

/-- In which table, and how, a call locks. -/
def Call.lockLevel : Call → Nat
  | .confirmationMarkUsed _ | .confirmationInvalidatePrevious _ => 1
  | .confirmationCreate .. => 2
  | _ => 0

theorem Call.lockLevel_of_locksUserVk {c : Call} (hc : c.locksUserVk = true) : c.lockLevel = 0 := by
  cases c with
  | userVkCreate | userVkActivate | userVkSetState => rfl
  | _ => cases hc

theorem Blocks.holdsUserVk {hashtext : String → Int} {t t' : Tid} {w : World} {s : Store} {c : Call}
    (hblocks : Blocks hashtext t t' w s c) (hc : c.locksUserVk = true) : ∃ row, Held t' row s.userVks := by
  cases c with
  | userVkCreate | userVkSetState => exact hblocks.held
  | userVkActivate => exact hblocks.elim (·.held) fun ⟨_, _, hkey⟩ => hkey.held
  | _ => cases hc

theorem Blocks.holdsConfirmation {hashtext : String → Int} {t t' : Tid} {w : World} {s : Store} {c : Call}
    (hblocks : Blocks hashtext t t' w s c) (hc : c.lockLevel = 1) : ∃ row, Held t' row s.vkConfirmations := by
  cases c with
  | confirmationMarkUsed | confirmationInvalidatePrevious => exact hblocks.held
  | _ => cases hc

theorem Call.lockLevel_le (c : Call) : c.lockLevel ≤ 2 := by
  cases c <;> simp [Call.lockLevel]

/-- The codes of a binding have been invalidated. -/
def CallEvent.invalidates : CallEvent → Bool
  | ⟨.confirmationInvalidatePrevious _, .ok _⟩ => true
  | _ => false

/-- The moment at which a session has last invalidated codes. -/
def preparedAt : List (Tid × CallEvent) → Tid → Nat
  | [], _ => 0
  | (u, e) :: rest, t => if u = t ∧ CallEvent.invalidates e = true then rest.length + 1 else preparedAt rest t

section Moments
variable {t u : Tid} {e : CallEvent} {trace later earlier : List (Tid × CallEvent)}

theorem preparedAt_le (trace : List (Tid × CallEvent)) (t : Tid) : preparedAt trace t ≤ trace.length := by
  induction trace with
  | nil => exact le_rfl
  | cons entry rest ih =>
    obtain ⟨u, e⟩ := entry
    rw [preparedAt, List.length_cons]
    split
    · exact le_rfl
    · exact ih.trans (Nat.le_succ _)

theorem preparedAt_le_cons (t : Tid) (entry : Tid × CallEvent) (trace : List (Tid × CallEvent)) :
    preparedAt trace t ≤ preparedAt (entry :: trace) t := by
  obtain ⟨u, e⟩ := entry
  rw [preparedAt]
  split
  · exact (preparedAt_le trace t).trans (Nat.le_succ _)
  · exact le_rfl

/-- What comes later does not count when it invalidates nothing. -/
theorem preparedAt_append (hno : ∀ e ∈ historyOf t later, CallEvent.invalidates e = false) :
    preparedAt (later ++ earlier) t = preparedAt earlier t := by
  induction later with
  | nil => rfl
  | cons entry later ih =>
    obtain ⟨u, e⟩ := entry
    by_cases hu : u = t
    · subst hu
      rw [historyOf_cons_self, List.forall_mem_cons] at hno
      rw [List.cons_append, preparedAt, if_neg (by simp [hno.1]), ih hno.2]
    · rw [historyOf_cons_ne hu] at hno
      rw [List.cons_append, preparedAt, if_neg (by simp [hu]), ih hno]

end Moments

section Held
variable {hashtext : String → Int} {settings : VkSettings} {pool : Tid → Request} {s : Run} {t : Tid} {c : Call}
  {k : Except Exn c.Reply → Py Answer}

/-- A session that is about to lock a binding holds nothing. -/
theorem idle_of_level_zero (horderly : Orderly settings pool s) (howned : Owned s)
    (hpool : (pool t).locksInOrder = true) (hp : s.prog t = some (.call c k)) (hc : c.locksUserVk = true) :
    (∀ row, ¬ Held t row s.shared.userVks) ∧ ∀ row, ¬ Held t row s.shared.vkConfirmations := by
  have hallowed := (horderly.rest t _ hp).1
  have hread : ∀ e : CallEvent, s.history t = [e] → (∀ row, ¬ WritesUserVk row e) →
    (∀ row, ¬ WritesConfirmation row e) →
      (∀ row, ¬ Held t row s.shared.userVks) ∧ ∀ row, ¬ Held t row s.shared.vkConfirmations := by
    intro e hh huser hconf
    refine ⟨fun row hheld => ?_, fun row hheld => ?_⟩
    · obtain ⟨e', he', hwrites⟩ := howned.userVks t row hheld
      rw [hh, List.mem_singleton] at he'
      exact huser row (he' ▸ hwrites)
    · obtain ⟨e', he', hwrites⟩ := howned.vkConfirmations t row hheld
      rw [hh, List.mem_singleton] at he'
      exact hconf row (he' ▸ hwrites)
  cases c with
  | userVkCreate userId =>
    cases hreq : pool t with
    | ensureBinding | issueConfirmation =>
      rw [hreq] at hallowed
      cases hallowed with
      | create hh => exact hread _ hh (fun _ h => by cases h) fun _ h => by cases h
    | unlink | deliver =>
      rw [hreq] at hpool
      cases hpool
    | _ =>
      rw [hreq] at hallowed
      cases hallowed
  | userVkActivate x vkPeerId sn dn =>
    obtain ⟨code, sn', dn', conf, b, hreq, -, hat⟩ := hallowed.activation
    exact confirm_idle horderly howned hreq (hat.not_writes rfl)
  | userVkSetState x state =>
    obtain ⟨vkPeerId, b, -, -, hh⟩ := hallowed.stateSetting
    exact hread _ hh (fun _ h => by cases h) fun _ h => by cases h
  | _ => cases hc

/-- One that is about to lock codes by an UPDATE holds no code. -/
theorem idle_of_level_one (horderly : Orderly settings pool s) (howned : Owned s) (hpool : (pool t).locksInOrder = true)
    (hp : s.prog t = some (.call c k)) (hc : c.lockLevel = 1) (row : VkConfirmation) :
    ¬ Held t row s.shared.vkConfirmations := by
  have hallowed := (horderly.rest t _ hp).1
  intro hheld
  cases hreq : pool t with
  | ensureBinding | issueConfirmation =>
    rw [hreq] at hallowed
    obtain ⟨e, he, hwrites⟩ := howned.vkConfirmations t row hheld
    cases hallowed with
    | invalidate hb =>
      generalize s.history t = h at hb he
      cases hb with
      | found => cases List.mem_singleton.mp he ▸ hwrites
      | created | raced =>
        simp only [List.mem_cons, List.not_mem_nil, or_false] at he
        rcases he with rfl | rfl | rfl <;> cases hwrites
    | _ => cases hc
  | confirm code vkPeerId sn dn =>
    have hmarked := confirm_marked horderly howned hreq hheld
    rw [hreq] at hallowed
    cases hallowed with
    | markUsed hat =>
      generalize s.history t = h at hat hmarked
      cases hat with
      | activated row' hfree =>
        rcases List.mem_cons.mp hmarked with heq | hmem
        · cases heq
        · exact hfree.not_writes rfl _ hmem (.inr ⟨_, _, rfl⟩)
    | _ => cases hc
  | unlink | deliver =>
    rw [hreq] at hpool
    cases hpool
  | _ =>
    rw [hreq] at hallowed
    cases hallowed <;> cases hc

/-- A session that is about to insert a code has invalidated the ones before, looked the new one
up after that, and inserted none yet. -/
theorem prepared_of_level_two (horderly : Orderly settings pool s) {userVkId : UUID} {code : Str} {expiresAt : Time}
    {k : Except Exn VkConfirmation → Py Answer}
    (hp : s.prog t = some (.call (.confirmationCreate userVkId code expiresAt) k)) :
    (∃ userId, pool t = .issueConfirmation userId ∨ pool t = .ensureBinding userId) ∧
      ⟨.confirmationGetByCode code, .ok none⟩ ∈ s.history t ∧
      (∀ x code' exp row, ⟨.confirmationCreate x code' exp, .ok row⟩ ∉ s.history t) ∧
      ∀ later earlier, s.history t = later ++ ⟨.confirmationGetByCode code, .ok none⟩ :: earlier →
        ∀ e ∈ later, CallEvent.invalidates e = false := by
  have hallowed := (horderly.rest t _ hp).1
  obtain ⟨userId, hreq, hcall⟩ : ∃ userId, (pool t = .issueConfirmation userId ∨ pool t = .ensureBinding userId) ∧
      IssueCall userId (s.history t) (.confirmationCreate userVkId code expiresAt) := by
    cases hreq : pool t with
    | ensureBinding userId | issueConfirmation userId =>
      rw [hreq] at hallowed
      exact ⟨userId, by simp, hallowed⟩
    | _ =>
      rw [hreq] at hallowed
      cases hallowed
  cases hcall with
  | createCode exp hb hnew =>
    refine ⟨⟨userId, hreq⟩, hnew, ?_⟩
    obtain ⟨after, n, before, hh, hbound, -, hafter⟩ := hb
    have hquiet : ∀ e ∈ after, CallEvent.invalidates e = false := fun e he => by
      obtain ⟨c, r⟩ := e
      rcases hafter _ he with ⟨_, rfl⟩ | ⟨_, rfl⟩ | rfl <;> rfl
    have hlooked : ∀ e ∈ before, e.op ≠ .confirmationGetByCode code := by
      cases hbound <;> simp
    refine ⟨fun x code' exp' row hmem => ?_, fun later earlier heq e he => ?_⟩
    · rw [hh] at hmem
      rcases List.mem_append.mp hmem with hmem | hmem
      · rcases hafter _ hmem with ⟨_, h⟩ | ⟨_, h⟩ | h <;> cases h
      · rcases List.mem_cons.mp hmem with heq | hmem
        · cases heq
        · cases hbound <;> simp at hmem
    · rw [hh] at heq
      rcases List.append_eq_append_iff.mp heq with ⟨middle, hlater, hrest⟩ | ⟨middle, hafter', -⟩
      · -- the look-up would come before the invalidation
        cases middle with
        | nil => cases (List.cons.inj hrest).1
        | cons e' middle =>
          rw [List.cons_append] at hrest
          have hmem : (⟨.confirmationGetByCode code, .ok none⟩ : CallEvent) ∈ before := by
            rw [(List.cons.inj hrest).2]
            exact List.mem_append_right _ List.mem_cons_self
          exact absurd rfl (hlooked _ hmem)
      · exact hquiet e (hafter' ▸ List.mem_append_left _ he)

end Held

section Runs
variable {hashtext : String → Int} {settings : VkSettings} {pool : Tid → Request} {T : Tables} {s : Run}
  {cond : Move Tid World → Run → Prop}

/-- A code that nobody has committed yet was inserted by its holder. -/
theorem inserted_of_uncommitted (hT : T.Wf) (hreach : Reaches hashtext cond (launch settings pool (.ofTables T)) s)
    (y : UUID) {t : Tid} {row : VkConfirmation} (hp : (s.shared.confirmation y).pending = some (t, row))
    (hnone : (s.shared.confirmation y).committed = none) :
    ∃ x code exp row', ⟨.confirmationCreate x code exp, .ok row'⟩ ∈ s.history t := by
  refine reaches_induction (I := fun s => ∀ t row, (s.shared.confirmation y).pending = some (t, row) →
    (s.shared.confirmation y).committed = none → ∃ x code exp row', ⟨.confirmationCreate x code exp, .ok row'⟩ ∈ s.history t)
    hT .refl (fun t row hp => ?_) ?_ ?_ hreach t row hp hnone
  · cases (pending_cellOf_ofRows y T.vkConfirmations).symm.trans hp
  · intro s u w c k r next _ hinv _ hcalls t row hp hnone
    have hstep := exec_confirmation hcalls.sound.keyed hcalls.exec y
    rcases hstep.pending_cases hp with ⟨hold, hcommitted⟩ | ⟨rfl, ⟨hcreates, -⟩ | ⟨row₀, -, hread, hcommitted, -⟩⟩
    · obtain ⟨x, code, exp, row', hmem⟩ := hinv t row hold (hcommitted ▸ hnone)
      exact ⟨x, code, exp, row', s.mem_history_advance u c k r next hmem⟩
    · cases hcreates with
      | mk x code exp => exact ⟨x, code, exp, _, by rw [Sys.history_advance_self]; exact List.mem_cons_self⟩
    · rcases Cell.read_cases hread with hold | ⟨hsome, -⟩
      · obtain ⟨x, code, exp, row', hmem⟩ := hinv t row₀ hold (hcommitted ▸ hnone)
        exact ⟨x, code, exp, row', s.mem_history_advance t c k r next hmem⟩
      · cases hsome.symm.trans (hcommitted ▸ hnone)
  · intro s u hreach hinv t row hp hnone
    have hstep := rollback_confirmation (reaches_sound hT hreach).keyed u y
    rcases hstep.pending_cases hp with ⟨hold, hcommitted⟩ | ⟨-, ⟨hcreates, -⟩ | ⟨_, hrewrites, -⟩⟩
    · exact hinv t row hold (hcommitted ▸ hnone)
    · exact hcreates.elim
    · exact hrewrites.elim

/-- What is committed under a code is seen by everybody under it. -/
theorem seen_of_committed_code (hkeyed : s.shared.Keyed) {y : UUID} {q : VkConfirmation} (t : Tid)
    (hq : (s.shared.confirmation y).committed = some q) :
    ∃ row ∈ (s.shared.view t).vkConfirmations, row.code = q.code := by
  obtain ⟨row, hread⟩ := Cell.read_of_committed (t := t) hq
  have hcore := core_of_confirmation hkeyed (Cell.read_mem_versions hread) (Cell.committed_mem hq)
  exact ⟨row, (view_of_cell hkeyed.vkConfirmations hread).1, congrArg (·.2.2.1) hcore⟩

/-- A code that was not there when a session looked it up, and is now committed and held by a
session that issues, was invalidated by that session after the look-up. -/
theorem invalidated_after_lookup (hT : T.Wf) (hreach : Reaches hashtext cond (launch settings pool (.ofTables T)) s)
    (y : UUID) {t' : Tid} {row q : VkConfirmation}
    (hissue : ∃ userId, pool t' = .issueConfirmation userId ∨ pool t' = .ensureBinding userId)
    (hp : (s.shared.confirmation y).pending = some (t', row)) (hq : (s.shared.confirmation y).committed = some q)
    {later earlier : List (Tid × CallEvent)} {t : Tid}
    (htrace : s.trace = later ++ (t, ⟨.confirmationGetByCode q.code, .ok none⟩) :: earlier) :
    earlier.length < preparedAt s.trace t' := by
  refine reaches_induction (I := fun s => ∀ t' row q later earlier t,
    (∃ userId, pool t' = .issueConfirmation userId ∨ pool t' = .ensureBinding userId) →
    (s.shared.confirmation y).pending = some (t', row) → (s.shared.confirmation y).committed = some q →
    s.trace = later ++ (t, ⟨.confirmationGetByCode q.code, .ok none⟩) :: earlier → earlier.length < preparedAt s.trace t')
    hT .refl (fun t' row q later earlier t _ hp => ?_) ?_ ?_ hreach t' row q later earlier t hissue hp hq htrace
  · cases (pending_cellOf_ofRows y T.vkConfirmations).symm.trans hp
  · intro s u w c k r next _ hinv _ hcalls t' row q later earlier t hissue hp hq htrace
    have hstep := exec_confirmation hcalls.sound.keyed hcalls.exec y
    have hlength : earlier.length ≤ s.trace.length := by
      have := congrArg List.length htrace
      simp only [Sys.advance_trace, List.length_cons, List.length_append] at this
      omega
    rcases hstep.pending_cases hp with ⟨hold, hcommitted⟩ | ⟨rfl, ⟨-, hempty⟩ | ⟨row₀, hrewrites, -⟩⟩
    · have hq' : (s.shared.confirmation y).committed = some q := hcommitted ▸ hq
      cases later with
      | nil =>
        -- the look-up is this very step, which sees the code
        obtain ⟨hentry, -⟩ := List.cons.inj htrace
        obtain ⟨rfl, hevent⟩ := Prod.mk.inj hentry
        cases hevent
        obtain ⟨row', hview, hcode⟩ := seen_of_committed_code hcalls.sound.keyed u hq'
        obtain ⟨-, hreply, -⟩ := execCall_cases hcalls.exec
        have hrows := oneOrNone_none (show oneOrNone _ = .ok none from hreply.symm)
        exact absurd (beq_iff_eq.mpr hcode) (List.filter_eq_nil_iff.mp hrows row' hview)
      | cons entry later =>
        obtain ⟨hentry, hrest⟩ := List.cons.inj htrace
        exact Nat.lt_of_lt_of_le (hinv t' row q later earlier t hissue hold hq' hrest) (preparedAt_le_cons t' _ s.trace)
    · -- a row that was just created is not committed
      rcases hstep.committed_cases with heq | ⟨_, -, hpending, -⟩
      · have hold : (s.shared.confirmation y).committed = some q := heq.symm.trans hq
        rw [hempty] at hold
        cases hold
      · rw [hempty] at hpending
        cases hpending
    · have hprepared : CallEvent.invalidates ⟨c, r⟩ = true := by
        cases hrewrites with
        | marked =>
          have hallowed := hcalls.allowed
          obtain ⟨userId, hpool | hpool⟩ := hissue <;> rw [hpool] at hallowed <;> cases hallowed
        | invalidated => rfl
      rw [Sys.advance_trace, preparedAt, if_pos ⟨rfl, hprepared⟩]
      omega
  · intro s u hreach hinv t' row q later earlier t hissue hp hq htrace
    have hstep := rollback_confirmation (reaches_sound hT hreach).keyed u y
    rcases hstep.pending_cases hp with ⟨hold, hcommitted⟩ | ⟨-, ⟨hcreates, -⟩ | ⟨_, hrewrites, -⟩⟩
    · exact hinv t' row q later earlier t hissue hold (hcommitted ▸ hq) htrace
    · exact hcreates.elim
    · exact hrewrites.elim

/-- The order in which those sessions wait: for the table they want to lock, and among those that
insert a code for the moment at which they last invalidated codes. -/
def lockRank (s : Run) (t : Tid) : Nat :=
  match s.prog t with
  | some (.call c _) => c.lockLevel * (s.trace.length + 1) + preparedAt s.trace t
  | _ => 0

theorem lockRank_of_call {t : Tid} {c : Call} {k : Except Exn c.Reply → Py Answer} (hp : s.prog t = some (.call c k)) :
    lockRank s t = c.lockLevel * (s.trace.length + 1) + preparedAt s.trace t := by
  rw [lockRank, hp]

theorem lockRank_le (s : Run) (t : Tid) : lockRank s t ≤ 3 * (s.trace.length + 1) := by
  have hprepared := preparedAt_le s.trace t
  unfold lockRank
  split
  · rename_i c _ _
    have hlevel := Nat.mul_le_mul_right (s.trace.length + 1) (Call.lockLevel_le c)
    omega
  · exact Nat.zero_le _

/-- The tables count more than the moments. -/
theorem lockRank_lt_of_level {t t' : Tid} {c c' : Call} {k : Except Exn c.Reply → Py Answer}
    {k' : Except Exn c'.Reply → Py Answer} (hp : s.prog t = some (.call c k)) (hp' : s.prog t' = some (.call c' k'))
    (hlevel : c.lockLevel < c'.lockLevel) : lockRank s t < lockRank s t' := by
  rw [lockRank_of_call hp, lockRank_of_call hp']
  calc c.lockLevel * (s.trace.length + 1) + preparedAt s.trace t
      < (c.lockLevel + 1) * (s.trace.length + 1) := by
        rw [Nat.succ_mul]
        exact Nat.add_lt_add_left (Nat.lt_succ_of_le (preparedAt_le s.trace t)) _
    _ ≤ c'.lockLevel * (s.trace.length + 1) := Nat.mul_le_mul_right _ hlevel
    _ ≤ c'.lockLevel * (s.trace.length + 1) + preparedAt s.trace t' := Nat.le_add_right _ _

/-- The calls at which those sessions can wait. -/
theorem locks_of_blocks {t t' : Tid} {w : World} {c : Call} {h : CallHistory} (hpool : (pool t).locksInOrder = true)
    (hallowed : RequestCall settings (pool t) h c) (hblocks : Blocks hashtext t t' w s.shared c) :
    c.locksUserVk = true ∨ c.lockLevel = 1 ∨ ∃ x code exp, c = .confirmationCreate x code exp := by
  cases hreq : pool t with
  | unlink | deliver =>
    rw [hreq] at hpool
    cases hpool
  | _ =>
    rw [hreq] at hallowed
    cases hallowed <;> first | exact hblocks.elim | simp [Call.locksUserVk, Call.lockLevel]

/-- Whoever waits for a session that waits itself is below it. -/
theorem lockRank_lt (hT : T.Wf) (hreach : Reaches hashtext cond (launch settings pool (.ofTables T)) s) {t t' t'' : Tid}
    (hpool : (pool t).locksInOrder = true) (hpool' : (pool t').locksInOrder = true)
    (hwaits : WaitsOn hashtext s t t') (hwaits' : WaitsOn hashtext s t' t'') : lockRank s t < lockRank s t' := by
  have horderly := reaches_orderly hreach
  have hsound := reaches_sound hT hreach
  obtain ⟨-, c, k, w, hp, hblocks⟩ := hwaits
  obtain ⟨-, c', k', w', hp', hblocks'⟩ := hwaits'
  have hkind := locks_of_blocks hpool (horderly.rest t _ hp).1 hblocks
  have hkind' := locks_of_blocks hpool' (horderly.rest t' _ hp').1 hblocks'
  rcases hkind with hlevel | hlevel | ⟨x, code, exp, rfl⟩
  · -- whoever holds a binding is past the calls that lock one
    obtain ⟨row, hheld⟩ := hblocks.holdsUserVk hlevel
    refine lockRank_lt_of_level hp hp' ?_
    rw [Call.lockLevel_of_locksUserVk hlevel]
    rcases hkind' with hlevel' | hlevel' | ⟨x', code', exp', rfl⟩
    · exact absurd hheld ((idle_of_level_zero horderly hsound.owned hpool' hp' hlevel').1 row)
    · rw [hlevel']
      exact Nat.zero_lt_one
    · exact Nat.zero_lt_two
  · -- and whoever holds a code can only be about to insert another
    obtain ⟨row, hheld⟩ := hblocks.holdsConfirmation hlevel
    refine lockRank_lt_of_level hp hp' ?_
    rcases hkind' with hlevel' | hlevel' | ⟨x', code', exp', rfl⟩
    · exact absurd hheld ((idle_of_level_zero horderly hsound.owned hpool' hp' hlevel').2 row)
    · exact absurd hheld (idle_of_level_one horderly hsound.owned hpool' hp' hlevel' row)
    · rw [hlevel]
      exact Nat.one_lt_two
  · obtain ⟨cell, hcell, hany, row, hpending⟩ := hblocks
    have hheld : Held t' row s.shared.vkConfirmations := ⟨cell, hcell, hpending⟩
    rcases hkind' with hlevel' | hlevel' | ⟨x', code', exp', rfl⟩
    · exact absurd hheld ((idle_of_level_zero horderly hsound.owned hpool' hp' hlevel').2 row)
    · exact absurd hheld (idle_of_level_one horderly hsound.owned hpool' hp' hlevel' row)
    · -- the code is an old one, which `t'` has invalidated since `t` looked for it in vain
      obtain ⟨hissue, -, hfresh, -⟩ := prepared_of_level_two horderly hp'
      obtain ⟨-, hlooked, -, hquiet⟩ := prepared_of_level_two horderly hp
      obtain ⟨q, hq, hcode⟩ := List.any_eq_true.mp hany
      have hcellOf : s.shared.confirmation row.id = cell :=
        cellOf_eq hsound.keyed.vkConfirmations hcell (Cell.pending_mem hpending)
      have hpending' : (s.shared.confirmation row.id).pending = some (t', row) := hcellOf ▸ hpending
      rw [lockRank_of_call hp, lockRank_of_call hp']
      refine Nat.add_lt_add_left ?_ _
      cases hcommitted : (s.shared.confirmation row.id).committed with
      | none =>
        obtain ⟨x₀, code₀, exp₀, row₀, hmem⟩ := inserted_of_uncommitted hT hreach row.id hpending' hcommitted
        exact absurd hmem (hfresh x₀ code₀ exp₀ row₀)
      | some q₀ =>
        have hsame := core_of_confirmation hsound.keyed (Cell.committed_mem hcommitted) (hcellOf ▸ hq)
        have hcode₀ : q₀.code = code := (congrArg (·.2.2.1) hsame).trans (beq_iff_eq.mp hcode)
        obtain ⟨later, earlier, htrace⟩ := List.append_of_mem (mem_historyOf.mp hlooked)
        have hafter := invalidated_after_lookup hT hreach row.id hissue hpending' hcommitted (hcode₀ ▸ htrace)
        have hnone : ∀ e ∈ historyOf t later, CallEvent.invalidates e = false := by
          refine hquiet _ (historyOf t earlier) ?_
          rw [Sys.history, htrace, historyOf_append, historyOf_cons_self]
        calc preparedAt s.trace t
            = preparedAt ((t, ⟨.confirmationGetByCode code, .ok none⟩) :: earlier) t := by
              rw [htrace, preparedAt_append hnone]
          _ = preparedAt earlier t := by rw [preparedAt, if_neg (by simp [CallEvent.invalidates])]
          _ ≤ earlier.length := preparedAt_le earlier t
          _ < preparedAt s.trace t' := hafter

end Runs
end VkService
