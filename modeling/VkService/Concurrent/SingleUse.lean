import VkService.Concurrent.Provenance

/-! Whether a code is used once. `used_at` is read before the activation and written after
it, so two confirmations can both find the code unused. When every activation is taken while
the code is still unused, the binding's row lock makes them exclude each other. -/
namespace VkService
open PyStr Effects Effects.Machine RowStore UserVkRepository VkConfirmationRepository

/-- An activation is taken while the code presented is committed as unused. -/
def activatesUnused (pool : Tid → Request) : Move Tid World → Run → Bool
  | .step t _, s =>
    match pool t, s.prog t with
    | .confirm code _ _ _, some (.call (.userVkActivate ..) _) =>
      s.shared.committed.vkConfirmations.all fun c => c.code != normalizeCode code || c.usedAt.isNone
    | _, _ => true
  | .kill _, _ => true

abbrev ActivatesUnused (pool : Tid → Request) (m : Move Tid World) (s : Run) : Prop := activatesUnused pool m s = true

theorem ActivatesUnused.unused {pool : Tid → Request} {s : Run} {t : Tid} {w : World}
    (h : ActivatesUnused pool (.step t w) s) {code : Str} {vkPeerId vkPeerId' : PeerId}
    {sn dn sn' dn' : Option String} {x : UUID} {k : Except Exn UserVk → Py Answer}
    (hpool : pool t = .confirm code vkPeerId sn dn)
    (hp : s.prog t = some (.call (.userVkActivate x vkPeerId' sn' dn') k)) :
    ∀ c ∈ s.shared.committed.vkConfirmations, c.code = normalizeCode code → c.usedAt = none := by
  intro c hc hcode
  simp only [ActivatesUnused, activatesUnused, hpool, hp, List.all_eq_true] at h
  simpa [hcode] using h c hc

/-- The call has returned `confirmed`, after its commit. -/
def Confirmed (s : Run) (t : Tid) : Prop :=
  ∃ result, s.prog t = some (.ret (.confirmation (.ok result))) ∧ result.status = .confirmed

/-- Two sessions that confirm with the same code. -/
def SameCode (pool : Tid → Request) (t t' : Tid) : Prop :=
  ∃ code vkPeerId sn dn code' vkPeerId' sn' dn', pool t = .confirm code vkPeerId sn dn ∧
    pool t' = .confirm code' vkPeerId' sn' dn' ∧ normalizeCode code = normalizeCode code'

theorem SameCode.symm {pool : Tid → Request} {t t' : Tid} (h : SameCode pool t t') : SameCode pool t' t := by
  obtain ⟨code, vkPeerId, sn, dn, code', vkPeerId', sn', dn', hpool, hpool', hcode⟩ := h
  exact ⟨code', vkPeerId', sn', dn', code, vkPeerId, sn, dn, hpool', hpool, hcode.symm⟩

def ActivatedAs (s : Run) (t : Tid) (x : UUID) : Prop :=
  ∃ vkPeerId sn dn row, ⟨.userVkActivate x vkPeerId sn dn, .ok row⟩ ∈ s.history t

def Marked (s : Run) (t : Tid) (y : UUID) : Prop := ⟨.confirmationMarkUsed y, .ok ()⟩ ∈ s.history t

/-- The session has used its code up and committed. -/
def Finished (s : Run) (t : Tid) : Prop := (∃ y, Marked s t y) ∧ ⟨.commit, .ok ()⟩ ∈ s.history t

/-- The session has activated a binding and not ended yet. -/
def Holding (s : Run) (t : Tid) : Prop := (∃ x, ActivatedAs s t x) ∧ Running s t

section Effects
variable {hashtext : String → Int} {t : Tid} {w : World} {s s' : Store}

/-- A successful activation takes the row. -/
theorem exec_activate (hs : s.Keyed) {x : UUID} {vkPeerId : PeerId} {sn dn : Option String} {row : UserVk}
    (h : (database hashtext).exec t w (.userVkActivate x vkPeerId sn dn) s = some (.ok row, s')) :
    ∃ row', (s'.userVk x).pending = some (t, row') := by
  obtain ⟨hready, change, hasks, rfl⟩ := exec_asks h
  cases hasks with
  | read hc => cases hc
  | @activated _ _ _ _ r hrow hfree =>
    obtain ⟨hview, hp⟩ := List.mem_filter.mp (hrow ▸ List.mem_singleton_self r)
    have hid : r.id = x := by
      simp only [liveWithId, Bool.and_eq_true, beq_iff_eq] at hp
      exact hp.1
    have hread : (s.userVk x).read t = some r := hid ▸ (mem_view_iff hs.userVks).mp hview
    refine ⟨activated w vkPeerId sn dn r, ?_⟩
    rw [Store.userVk, acquire_userVks]
    simp only [Store.apply]
    rw [cellOf_update hs.userVks (f := activated w vkPeerId sn dn) fun _ => rfl]
    simp only [Store.userVk] at hread
    simp [Cell.write, hread, hp]

/-- Marking a committed code takes its row. -/
theorem exec_markUsed (hs : s.Keyed) {y : UUID} {c : VkConfirmation} {r : Except Exn Unit}
    (hc : (s.confirmation y).committed = some c)
    (h : (database hashtext).exec t w (.confirmationMarkUsed y) s = some (r, s')) :
    ∃ c', (s'.confirmation y).pending = some (t, c') ∧ c'.usedAt ≠ none := by
  obtain ⟨hready, change, hasks, rfl⟩ := exec_asks h
  cases hasks with
  | read hc => cases hc
  | markedUsed =>
    have hfree := ready_cell VkConfirmation.id y hready
    have hseen : ∃ c', (s.confirmation y).read t = some c' := by
      by_cases hp : ∃ c', (s.confirmation y).pending = some (t, c')
      · obtain ⟨c', hp⟩ := hp
        exact ⟨c', Cell.read_of_pending hp⟩
      · exact ⟨c, (Cell.read_of_not_pending fun c' hc' => hp ⟨c', hc'⟩).trans hc⟩
    obtain ⟨c', hread⟩ := hseen
    have hid : c'.id = y := id_of_confirmation hs (Cell.read_mem_versions hread)
    refine ⟨used w c', ?_, by simp [used]⟩
    rw [Store.confirmation, acquire_vkConfirmations]
    simp only [Store.apply]
    rw [cellOf_update hs.vkConfirmations (f := used w) fun _ => rfl]
    simp only [Store.confirmation] at hread
    simp [Cell.write, hread, hid]

end Effects

section Histories
variable {settings : VkSettings} {pool : Tid → Request} {s : Run} {t : Tid} {code : Str} {vkPeerId : PeerId}
  {sn dn : Option String}

/-- An activated binding is that of the code read before. -/
theorem activated_history (horderly : Orderly settings pool s) (hpool : pool t = .confirm code vkPeerId sn dn)
    {x : UUID} (h : ActivatedAs s t x) : ∃ c, c.userVkId = x ∧
      ⟨.confirmationGetByCode (normalizeCode code), .ok (some c)⟩ ∈ s.history t := by
  obtain ⟨vkPeerId', sn', dn', row, hmem⟩ := h
  obtain ⟨later, earlier, hhistory, hcall⟩ := (horderly.traced t).of_mem hmem
  rw [hpool] at hcall
  obtain ⟨c, b, hid, -, hat⟩ := ConfirmCall.activating hcall
  exact ⟨c, hid, hhistory ▸ List.mem_append_right _ (List.mem_cons_of_mem _ (hat.looked rfl))⟩

/-- A code is marked after the activation of its binding. -/
theorem marked_history (horderly : Orderly settings pool s) (hpool : pool t = .confirm code vkPeerId sn dn) {y : UUID}
    (h : Marked s t y) : ∃ c, c.id = y ∧ ActivatedAs s t c.userVkId ∧
      ⟨.confirmationGetByCode (normalizeCode code), .ok (some c)⟩ ∈ s.history t := by
  obtain ⟨later, earlier, hhistory, hcall⟩ := (horderly.traced t).of_mem h
  rw [hpool] at hcall
  obtain ⟨c, b, hid, hat⟩ := ConfirmCall.marking hcall
  have hsub : ∀ e ∈ earlier, e ∈ s.history t := fun e he =>
    hhistory ▸ List.mem_append_right _ (List.mem_cons_of_mem _ he)
  refine ⟨c, hid, ?_, hsub _ (hat.looked rfl)⟩
  cases hat with
  | activated row hat => exact ⟨_, _, _, row, hsub _ List.mem_cons_self⟩

end Histories

section Runs
variable {hashtext : String → Int} {settings : VkSettings} {pool : Tid → Request} {T : Tables} {s : Run}
  {cond : Move Tid World → Run → Prop} {t : Tid} {code : Str} {vkPeerId : PeerId} {sn dn : Option String}

/-- A confirmation that has activated rolls back only by ending. -/
theorem confirm_not_rolledBack {w : World} {c : Call} {r : Except Exn c.Reply} {next : Store}
    (hcalls : Calls hashtext settings pool s t w c r next) (hpool : pool t = .confirm code vkPeerId sn dn) {x : UUID}
    (hact : ActivatedAs s t x) (hc : c.ends = false) : ¬ RolledBack c r := by
  intro hr
  have hallowed := hcalls.allowed
  rw [hpool] at hallowed
  rcases rolledBack_cases hcalls.exec hr with hends | ⟨userId, rfl⟩ | ⟨x', vkPeerId', sn', dn', rfl⟩
  · rw [hc] at hends
    cases hends
  · cases hallowed
  · obtain ⟨c, b, -, -, hat⟩ := ConfirmCall.activating hallowed
    obtain ⟨_, _, _, row, hmem⟩ := hact
    exact hat.not_writes rfl _ hmem (.inl ⟨_, _, _, _, _, rfl⟩)

/-- An activation holds the row of the binding. -/
theorem activation_writes (hpool : pool t = .confirm code vkPeerId sn dn) (x : UUID) :
    WritesCell settings pool T cond (userVkCell hashtext x) (fun _ => True) t
      fun e => ∃ vkPeerId sn dn row, e = ⟨.userVkActivate x vkPeerId sn dn, .ok row⟩ where
  puts := by
    rintro s w c r next - hcalls ⟨vkPeerId', sn', dn', row, heq⟩
    cases heq
    obtain ⟨row', hp⟩ := exec_activate hcalls.sound.keyed hcalls.exec
    exact ⟨row', hp, trivial⟩
  opens := by
    rintro s w c r next hcalls ⟨vkPeerId', sn', dn', row, heq⟩
    cases heq
    have hallowed := hcalls.allowed
    rw [hpool] at hallowed
    obtain ⟨conf, b, -, -, hat⟩ := ConfirmCall.activating hallowed
    exact hat.not_ended
  keeps _ _ _ _ := trivial
  stays := by
    rintro s w c r next hcalls ⟨_, hmem, vkPeerId', sn', dn', row, rfl⟩ hc
    exact confirm_not_rolledBack hcalls hpool ⟨vkPeerId', sn', dn', row, hmem⟩ hc

/-- From its activation to its end a confirmation holds the row of the binding. -/
theorem activation_held (hT : T.Wf) (hreach : Reaches hashtext cond (launch settings pool (.ofTables T)) s)
    (hpool : pool t = .confirm code vkPeerId sn dn) {x : UUID} (hact : ActivatedAs s t x) (hrun : Running s t) :
    ∃ row, (s.shared.userVk x).pending = some (t, row) := by
  obtain ⟨vkPeerId', sn', dn', row, hmem⟩ := hact
  obtain ⟨row', hp, -⟩ := (activation_writes hpool x).held hT hreach ⟨_, hmem, _, _, _, _, rfl⟩ hrun
  exact ⟨row', hp⟩

/-- A code that is used up. -/
def VkConfirmation.Used (c : VkConfirmation) : Prop := c.usedAt ≠ none

theorem UsesUp.used {w : World} {c : Call} {r : Except Exn c.Reply} {row row' : VkConfirmation}
    (h : UsesUp w row c r row') :
    row'.Used := by
  cases h <;> simp [VkConfirmation.Used, VkConfirmationRepository.used]

/-- No step makes a used code usable again. -/
theorem used_kept (y : UUID) : KeptBy settings pool T cond (confirmationCell hashtext y) VkConfirmation.Used :=
  ⟨fun _ _ _ hw => UsesUp.used hw⟩

/-- A mark holds the row of the code, used up. -/
theorem mark_writes (hT : T.Wf) (hpool : pool t = .confirm code vkPeerId sn dn) (y : UUID) :
    WritesCell settings pool T cond (confirmationCell hashtext y) VkConfirmation.Used t
      fun e => e = ⟨.confirmationMarkUsed y, .ok ()⟩ where
  puts := by
    rintro s w c r next hreach hcalls heq
    cases heq
    have hallowed := hcalls.allowed
    rw [hpool] at hallowed
    obtain ⟨conf, b, rfl, hat⟩ := ConfirmCall.marking hallowed
    obtain ⟨-, -, conf', hcommitted, -⟩ := codesRead hT hreach t code vkPeerId sn dn _ conf hpool (hat.looked rfl)
    exact exec_markUsed hcalls.sound.keyed hcommitted hcalls.exec
  opens := by
    rintro s w c r next hcalls heq
    cases heq
    have hallowed := hcalls.allowed
    rw [hpool] at hallowed
    obtain ⟨conf, b, -, hat⟩ := ConfirmCall.marking hallowed
    exact hat.not_ended
  keeps _ _ _ hw := UsesUp.used hw
  stays := by
    rintro s w c r next hcalls ⟨_, hmark, rfl⟩ hc
    obtain ⟨_, -, hact, -⟩ := marked_history hcalls.orderly hpool hmark
    exact confirm_not_rolledBack hcalls hpool hact hc

/-- The two codes that sessions with the same code have read are one. -/
theorem sameCode_core (hT : T.Wf) (hreach : Reaches hashtext cond (launch settings pool (.ofTables T)) s)
    {code' : Str} {vkPeerId' : PeerId} {sn' dn' : Option String} {t' : Tid}
    (hpool : pool t = .confirm code vkPeerId sn dn) (hpool' : pool t' = .confirm code' vkPeerId' sn' dn')
    (hcode : normalizeCode code = normalizeCode code') {c c' : VkConfirmation}
    (hc : ⟨.confirmationGetByCode (normalizeCode code), .ok (some c)⟩ ∈ s.history t)
    (hc' : ⟨.confirmationGetByCode (normalizeCode code'), .ok (some c')⟩ ∈ s.history t') : c.core = c'.core := by
  obtain ⟨-, h, hkept⟩ := codesRead hT hreach t code vkPeerId sn dn _ c hpool hc
  obtain ⟨-, h', hkept'⟩ := codesRead hT hreach t' code' vkPeerId' sn' dn' _ c' hpool' hc'
  obtain ⟨c₁, hc₁, hcore⟩ := hkept.version
  obtain ⟨c₁', hc₁', hcore'⟩ := hkept'.version
  have hsame : c₁.code = c₁'.code := by
    rw [show c₁.code = c.code from congrArg (·.2.2.1) hcore, show c₁'.code = c'.code from congrArg (·.2.2.1) hcore', h, h',
      hcode]
  rw [← hcore, ← hcore']
  exact core_of_code (reaches_sound hT hreach).keyed hc₁ hc₁' hsame

/-- A confirmation commits only while its transaction is open. -/
theorem confirm_commits_running {w : World} {r : Except Exn Unit} {next : Store}
    (hcalls : Calls hashtext settings pool s t w .commit r next) (hpool : pool t = .confirm code vkPeerId sn dn) :
    Running s t := by
  have hallowed := hcalls.allowed
  obtain ⟨k, hp⟩ := hcalls.running
  rw [hpool] at hallowed
  cases hallowed with
  | commit hrun _ => exact ⟨hrun, _, hp⟩

/-- A mark is made before the end of its transaction. -/
theorem confirm_marks_running {w : World} {y : UUID} {r : Except Exn Unit} {next : Store}
    (hcalls : Calls hashtext settings pool s t w (.confirmationMarkUsed y) r next)
    (hpool : pool t = .confirm code vkPeerId sn dn) : ⟨.commit, .ok ()⟩ ∉ s.history t := by
  have hallowed := hcalls.allowed
  rw [hpool] at hallowed
  obtain ⟨c, b, -, hat⟩ := ConfirmCall.marking hallowed
  exact fun hcommit => hat.not_ended ⟨⟨.commit, .ok ()⟩, hcommit, .inl rfl⟩

/-- A confirmation that is done was done before, or it has just committed. -/
theorem done_cases {t₀ : Tid} {w : World} {c : Call} {k : Except Exn c.Reply → Py Answer} {r : Except Exn c.Reply}
    {next : Store} (hcalls : Calls hashtext settings pool s t₀ w c r next)
    (hpool : pool t = .confirm code vkPeerId sn dn) {y : UUID} (hmark : Marked (s.advance t₀ c k r next) t y)
    (hcommit : ⟨.commit, .ok ()⟩ ∈ (s.advance t₀ c k r next).history t) :
    Marked s t y ∧ (⟨.commit, .ok ()⟩ ∈ s.history t ∨ t = t₀ ∧ c = .commit ∧ Running s t) := by
  rcases mem_history_cases hmark with hmark | ⟨rfl, heq⟩
  · refine ⟨hmark, (mem_history_cases hcommit).imp id ?_⟩
    rintro ⟨rfl, heq⟩
    cases heq
    exact ⟨rfl, rfl, confirm_commits_running hcalls hpool⟩
  · cases heq
    rcases mem_history_cases hcommit with hcommit | ⟨-, heq⟩
    · exact absurd hcommit (confirm_marks_running hcalls hpool)
    · cases heq

/-- The code of a finished confirmation is committed as used. -/
theorem done_used (hT : T.Wf) (hreach : Reaches hashtext cond (launch settings pool (.ofTables T)) s)
    (hpool : pool t = .confirm code vkPeerId sn dn) {y : UUID} (hmark : Marked s t y) (hcommit : Committed s t) :
    ∃ c, (s.shared.confirmation y).committed = some c ∧ c.Used :=
  (mark_writes hT hpool y).committed hT (used_kept y) (fun _ _ _ _ _ hcalls => (confirm_commits_running hcalls hpool).1)
    hreach ⟨_, hmark, rfl⟩ hcommit

/-- Two sessions with one code do not hold its binding together. -/
theorem holding_alone (hT : T.Wf) (hreach : Reaches hashtext cond (launch settings pool (.ofTables T)) s) {t' : Tid}
    (hsame : SameCode pool t t') (h : Holding s t) (h' : Holding s t') : t = t' := by
  obtain ⟨code, vkPeerId, sn, dn, code', vkPeerId', sn', dn', hpool, hpool', hcode⟩ := hsame
  obtain ⟨⟨x, hact⟩, hrun⟩ := h
  obtain ⟨⟨x', hact'⟩, hrun'⟩ := h'
  obtain ⟨c, rfl, hlooked⟩ := activated_history (reaches_orderly hreach) hpool hact
  obtain ⟨c', rfl, hlooked'⟩ := activated_history (reaches_orderly hreach) hpool' hact'
  have hcore := sameCode_core hT hreach hpool hpool' hcode hlooked hlooked'
  have hid : c.userVkId = c'.userVkId := congrArg (·.2.1) hcore
  obtain ⟨row, hp⟩ := activation_held hT hreach hpool hact hrun
  obtain ⟨row', hp'⟩ := activation_held hT hreach hpool' hact' hrun'
  rw [hid, hp'] at hp
  exact (Prod.mk.inj (Option.some.inj hp)).1.symm

/-- After a finished confirmation its code is not found unused. -/
theorem done_not_unused (hT : T.Wf) (hreach : Reaches hashtext cond (launch settings pool (.ofTables T)) s)
    (hpool : pool t = .confirm code vkPeerId sn dn) (hdone : Finished s t) :
    ∃ c ∈ s.shared.committed.vkConfirmations, c.code = normalizeCode code ∧ c.Used := by
  obtain ⟨⟨y, hmark⟩, hcommit⟩ := hdone
  obtain ⟨c, hc, hused⟩ := done_used hT hreach hpool hmark hcommit
  obtain ⟨c', rfl, -, hlooked⟩ := marked_history (reaches_orderly hreach) hpool hmark
  obtain ⟨-, hcode, c'', hc'', hcore⟩ := codesRead hT hreach t code vkPeerId sn dn _ c' hpool hlooked
  obtain rfl : c = c'' := Option.some.inj (hc.symm.trans hc'')
  have hid : c.id = c'.id := congrArg (·.1) hcore
  refine ⟨c, (committed_confirmation (reaches_sound hT hreach).keyed).mpr (hid ▸ hc), ?_, hused⟩
  exact (show c.code = c'.code from congrArg (·.2.2.1) hcore).trans hcode

/-- Nobody activates next to a finished confirmation with the same code, and no second one
finishes. -/
def Exclusive (pool : Tid → Request) (s : Run) : Prop :=
  ∀ t t', SameCode pool t t' → t ≠ t' → Finished s t → ¬ Holding s t' ∧ ¬ Finished s t'

section Step
variable {t' t₀ : Tid} {w : World} {c : Call} {k : Except Exn c.Reply → Py Answer} {r : Except Exn c.Reply}
    {next : Store}

/-- When activations find their codes unused, none is taken next to a finished confirmation. -/
theorem not_holding_step (hT : T.Wf) (hreach : Reaches hashtext cond (launch settings pool (.ofTables T)) s)
    (hcond : ActivatesUnused pool (.step t₀ w) s) (hcalls : Calls hashtext settings pool s t₀ w c r next)
    (hsame : SameCode pool t t') (hdone : Finished s t) (hnot : ¬ Holding s t') :
    ¬ Holding (s.advance t₀ c k r next) t' := by
  rintro ⟨⟨x, vkPeerId, sn, dn, row, hmem⟩, hrun⟩
  rcases mem_history_cases hmem with hmem | ⟨rfl, heq⟩
  · exact hnot ⟨⟨x, _, _, _, _, hmem⟩, (hrun.before hcalls).1⟩
  · cases heq
    obtain ⟨code, vkPeerId₁, sn₁, dn₁, code', vkPeerId', sn', dn', hpool, hpool', hcode⟩ := hsame
    obtain ⟨conf, hconf, hcode', hused⟩ := done_not_unused hT hreach hpool hdone
    obtain ⟨k', hp⟩ := hcalls.running
    exact hused (hcond.unused hpool' hp conf hconf (hcode'.trans hcode))

/-- Who becomes done held the binding until then. -/
theorem done_step (hcalls : Calls hashtext settings pool s t₀ w c r next)
    (hpool : pool t = .confirm code vkPeerId sn dn) (hdone : Finished (s.advance t₀ c k r next) t) :
    Finished s t ∨ t = t₀ ∧ c = .commit ∧ Holding s t := by
  obtain ⟨⟨y, hmark⟩, hcommit⟩ := hdone
  obtain ⟨hmark, hcommit | ⟨ht, hc, hrun⟩⟩ := done_cases hcalls hpool hmark hcommit
  · exact .inl ⟨⟨y, hmark⟩, hcommit⟩
  · obtain ⟨conf, -, hact, -⟩ := marked_history hcalls.orderly hpool hmark
    exact .inr ⟨ht, hc, ⟨_, hact⟩, hrun⟩

/-- A commit activates nothing. -/
theorem holding_of_commit {r : Except Exn Unit} (hcalls : Calls hashtext settings pool s t₀ w .commit r next)
    {k : Except Exn Unit → Py Answer} (h : Holding (s.advance t₀ .commit k r next) t) : Holding s t := by
  obtain ⟨⟨x, vkPeerId, sn, dn, row, hmem⟩, hrun⟩ := h
  refine ⟨⟨x, vkPeerId, sn, dn, row, ?_⟩, (hrun.before hcalls).1⟩
  rcases mem_history_cases hmem with hmem | ⟨-, heq⟩
  · exact hmem
  · cases heq

end Step

theorem exclusive (hT : T.Wf) (hreach : Reaches hashtext (ActivatesUnused pool) (launch settings pool (.ofTables T)) s) :
    Exclusive pool s := by
  refine reaches_induction hT .refl ?_ ?_ ?_ hreach
  · rintro t t' - - ⟨⟨y, hmem⟩, -⟩
    cases hmem
  · intro s t₀ w c k r next hreach hinv hcond hcalls t t' hsame hne hd
    obtain ⟨code, vkPeerId, sn, dn, code', vkPeerId', sn', dn', hpool, hpool', hcode⟩ := id hsame
    rcases done_step hcalls hpool hd with hd | ⟨rfl, rfl, hholds⟩
    · obtain ⟨hnot, hnot'⟩ := hinv t t' hsame hne hd
      refine ⟨not_holding_step hT hreach hcond hcalls hsame hd hnot, fun hd' => ?_⟩
      rcases done_step hcalls hpool' hd' with hd' | ⟨-, -, hholds'⟩
      · exact hnot' hd'
      · exact hnot hholds'
    · refine ⟨fun hholds' => hne (holding_alone hT hreach hsame hholds (holding_of_commit hcalls hholds')), fun hd' => ?_⟩
      rcases done_step hcalls hpool' hd' with hd' | ⟨ht, -, -⟩
      · exact (hinv t' t hsame.symm hne.symm hd').1 hholds
      · exact hne ht.symm
  · rintro s t₀ hreach hinv t t' hsame hne hdone
    obtain ⟨hholds, hdone'⟩ := hinv t t' hsame hne hdone
    exact ⟨fun ⟨hact, hrun⟩ => hholds ⟨hact, hrun.before_drop.1⟩, hdone'⟩

/-- What a confirmation holds it holds with its transaction open. -/
theorem held_running (hT : T.Wf) (hreach : Reaches hashtext cond (launch settings pool (.ofTables T)) s)
    (hpool : pool t = .confirm code vkPeerId sn dn) {row : UserVk} (hheld : Held t row s.shared.userVks) :
    Running s t := by
  refine reaches_induction (I := fun s => (∃ row, Held t row s.shared.userVks) → Running s t) hT .refl
    (fun ⟨_, hheld⟩ => absurd hheld not_held_ofRows) ?_ ?_ hreach ⟨row, hheld⟩
  · rintro s t' w c k r next _ hinv _ hcalls ⟨row, hheld⟩
    have hrun : Running s t := by
      rcases (exec_userVks hcalls.exec).held hheld with hold | ⟨rfl, hwrites⟩
      · exact hinv ⟨row, hold⟩
      · obtain ⟨k', hp⟩ := hcalls.running
        have hallowed := hcalls.allowed
        rw [hpool] at hallowed
        cases hwrites with
        | created | stateSet | softDeleted => cases hallowed
        | activated =>
          obtain ⟨_, _, -, -, hat⟩ := ConfirmCall.activating hallowed
          exact ⟨hat.not_ended, _, hp⟩
    by_cases ht : t = t'
    · subst ht
      refine ⟨?_, k r, by simp⟩
      rw [Sys.history_advance_self, ended_cons, not_or]
      refine ⟨fun hends => (not_held_of_ends hcalls.exec ?_).1 row hheld, hrun.1⟩
      rcases hends with rfl | rfl | rfl <;> rfl
    · obtain ⟨hrun, p, hp⟩ := hrun
      exact ⟨by rwa [Sys.history_advance_ne _ _ _ _ _ _ ht], p, by rwa [Sys.advance_prog_ne _ _ _ _ _ _ ht]⟩
  · rintro s t' hreach hinv ⟨row, hheld⟩
    obtain ⟨hold, hne⟩ := hheld.of_rollback
    obtain ⟨hrun, p, hp⟩ := hinv ⟨row, hold⟩
    exact ⟨hrun, p, by rwa [Sys.drop_prog_ne _ _ _ hne]⟩

theorem Confirmed.done (horderly : Orderly settings pool s) (hpool : pool t = .confirm code vkPeerId sn dn)
    (h : Confirmed s t) : Finished s t := by
  obtain ⟨result, hp, hstatus⟩ := h
  have hend := horderly.rest t _ hp
  rw [hpool] at hend
  obtain ⟨c, b, -, ⟨later, earlier, hhistory, -, hat⟩, hcommit⟩ := hend hstatus
  refine ⟨⟨c.id, ?_⟩, hcommit⟩
  cases hat with
  | used hat => exact (hhistory ▸ List.mem_append_right _ List.mem_cons_self : _ ∈ s.history t)

/-- Next to a finished confirmation with the same code, no move of a session changes a binding. -/
theorem keeps_userVks_after (hT : T.Wf) (hreach : Reaches hashtext cond (launch settings pool (.ofTables T)) s)
    (hexcl : Exclusive pool s) {t' : Tid} (hsame : SameCode pool t t') (hne : t ≠ t') (hdone : Finished s t) {w : World}
    (hcond : ActivatesUnused pool (.step t' w) s) {c : Call} {r : Except Exn c.Reply} {next : Store}
    (hcalls : Calls hashtext settings pool s t' w c r next) : next.userVks = s.shared.userVks := by
  obtain ⟨code, vkPeerId, sn, dn, code', vkPeerId', sn', dn', hpool, hpool', hcode⟩ := id hsame
  have hno : ∀ row, ¬ Held t' row s.shared.userVks := by
    intro row hheld
    obtain ⟨_, _, _, _, _, _, row', hhistory, -, -⟩ := confirm_activated hcalls.orderly hcalls.sound.owned hpool' hheld
    exact (hexcl t t' hsame hne hdone).1 ⟨⟨row.id, _, _, _, row', hhistory ▸ List.mem_append_right _ List.mem_cons_self⟩,
      held_running hT hreach hpool' hheld⟩
  have hallowed := hcalls.allowed
  rw [hpool'] at hallowed
  have hstep := exec_userVks hcalls.exec
  generalize next.userVks = after at hstep
  cases hstep with
  | same => rfl
  | committed => exact commit_eq_self hno
  | rolledBack => exact rollback_eq_self hno
  | created | stateSet | softDeleted => cases hallowed
  | activated =>
    obtain ⟨conf, hconf, hcode', hused⟩ := done_not_unused hT hreach hpool hdone
    obtain ⟨k', hp⟩ := hcalls.running
    exact absurd (hcond.unused hpool' hp conf hconf (hcode'.trans hcode)) hused

/-- When every activation is taken while its code is still unused, at most one of the
confirmations with a code returns `confirmed`, and from then on none of the others changes
any binding. -/
theorem code_single_use (hashtext : String → Int) (settings : VkSettings) (pool : Tid → Request) (T : Tables)
    (hT : T.Wf) (s : Run) (hreach : Reaches hashtext (ActivatesUnused pool) (launch settings pool (.ofTables T)) s)
    (t t' : Tid) (hsame : SameCode pool t t') (hconfirmed : Confirmed s t) :
    (Confirmed s t' → t = t') ∧
      (t ≠ t' → ∀ m s', m = .kill t' ∨ (∃ w, m = .step t' w) → ActivatesUnused pool m s →
        (database hashtext).next m s = some s' → s'.shared.userVks = s.shared.userVks) := by
  have horderly := reaches_orderly hreach
  have hexcl := exclusive hT hreach
  obtain ⟨code, vkPeerId, sn, dn, code', vkPeerId', sn', dn', hpool, hpool', hcode⟩ := id hsame
  have hdone := hconfirmed.done horderly hpool
  refine ⟨fun hconfirmed' => ?_, fun hne m s' hm hcond hmove => ?_⟩
  · by_contra hne
    exact (hexcl t t' hsame hne hdone).2 (hconfirmed'.done horderly hpool')
  · rcases next_cases _ hmove with ⟨t₀, w, c, k, r, next, rfl, hp, hexec, rfl⟩ | ⟨t₀, c, k, rfl, -, rfl⟩
    · rcases hm with hm | ⟨w', hm⟩ <;> cases hm
      exact keeps_userVks_after hT hreach hexcl hsame hne hdone hcond
        ⟨horderly, reaches_sound hT hreach, ⟨k, hp⟩, (horderly.rest _ _ hp).1, hexec⟩
    · rcases hm with hm | ⟨w', hm⟩ <;> cases hm
      refine rollback_eq_self fun row hheld => ?_
      obtain ⟨_, _, _, _, _, _, row', hhistory, -, -⟩ :=
        confirm_activated horderly (reaches_sound hT hreach).owned hpool' hheld
      exact (hexcl t t' hsame hne hdone).1 ⟨⟨row.id, _, _, _, row', hhistory ▸ List.mem_append_right _ List.mem_cons_self⟩,
        held_running hT hreach hpool' hheld⟩

end Runs

section Example

/-- Session 0 confirms for peer 5, every other one for peer 6, with the same code. -/
def bothConfirm : Tid → Request
  | 0 => .confirm "AAAA".toList 5 none none
  | _ => .confirm "AAAA".toList 6 none none

/-- Both sessions have read the code as unused; then session 0 goes on to its end. -/
def firstConfirmed : Option Run :=
  (database fun _ => 0).runMoves
    (List.replicate 6 (.step 0 (.still 0)) ++ List.replicate 6 (.step 1 (.still 0)) ++ List.replicate 5 (.step 0 (.still 0)))
    (launch .least bothConfirm (.ofTables onePending))

private theorem firstConfirmed_isSome : firstConfirmed.isSome = true := rfl

/-- Then session 1 activates the binding a second time. -/
def secondConfirmed : Option Run :=
  (database fun _ => 0).runMoves (List.replicate 5 (.step 1 (.still 0))) (firstConfirmed.get firstConfirmed_isSome)

private theorem secondConfirmed_isSome : secondConfirmed.isSome = true := rfl

/-- Two confirmations of one code both return `confirmed`, and the second takes the binding
that the first has committed for its peer over to another peer. -/
theorem code_confirmed_twice : ∃ s s', Reaches (fun _ => 0) anyMove
    (launch .least bothConfirm (.ofTables onePending)) s ∧
    Reaches (fun _ => 0) anyMove s s' ∧ SameCode bothConfirm 0 1 ∧ Confirmed s 0 ∧
    s.shared.committed.userVks.map (fun r => (r.id, r.vkPeerId)) = [(1, some 5)] ∧ Confirmed s' 0 ∧ Confirmed s' 1 ∧
    s'.shared.committed.userVks.map (fun r => (r.id, r.vkPeerId)) = [(1, some 6)] :=
  ⟨firstConfirmed.get firstConfirmed_isSome, secondConfirmed.get secondConfirmed_isSome,
    reach_of_runMoves _ (Option.some_get firstConfirmed_isSome).symm,
    reach_of_runMoves _ (Option.some_get secondConfirmed_isSome).symm,
    ⟨_, _, _, _, _, _, _, _, rfl, rfl, rfl⟩, ⟨_, rfl, rfl⟩, by decide +kernel, ⟨_, rfl, rfl⟩, ⟨_, rfl, rfl⟩,
    by decide +kernel⟩

/-- Session 1 has passed its limit when session 0 activates and confirms; then it reads the code. -/
def firstActivates : Option Run :=
  (database fun _ => 0).runMovesIf (activatesUnused bothConfirm)
    (List.replicate 6 (.step 0 (.still 0)) ++ List.replicate 2 (.step 1 (.still 0)) ++
      List.replicate 5 (.step 0 (.still 0)) ++ List.replicate 5 (.step 1 (.still 0)))
    (launch .least bothConfirm (.ofTables onePending))

private theorem firstActivates_isSome : firstActivates.isSome = true := by decide +kernel

/-- Session 1 has come to its end, and has confirmed nothing. -/
theorem code_single_use_firstActivates : Confirmed (firstActivates.get firstActivates_isSome) 0 ∧
    (∃ a, (firstActivates.get firstActivates_isSome).prog 1 = some (.ret a)) ∧
    ¬ Confirmed (firstActivates.get firstActivates_isSome) 1 :=
  ⟨⟨_, rfl, rfl⟩, ⟨_, rfl⟩, fun hconfirmed =>
    absurd ((code_single_use (fun _ => 0) .least bothConfirm onePending onePending_wf _
    (reach_of_runMovesIf _ (Option.some_get firstActivates_isSome).symm) 0 1 ⟨_, _, _, _, _, _, _, _, rfl, rfl, rfl⟩
    ⟨_, rfl, rfl⟩).1 hconfirmed) (by decide)⟩

end Example
end VkService
