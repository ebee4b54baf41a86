import VkService.Concurrent.Sessions

/-! What a running confirmation knows of its code. It has changed nothing before it
activates, so the code it has read is a committed one, and no step ever gives that code to
another binding. -/
namespace VkService
open PyStr Effects RowStore UserVkRepository VkConfirmationRepository

section Keys
variable {s : Store}

/-- Two versions of one code agree in the columns that no statement changes. -/
theorem core_of_code (hs : s.Keyed) {c c' : VkConfirmation} (hc : c ∈ versions s.vkConfirmations)
    (hc' : c' ∈ versions s.vkConfirmations) (hcode : c.code = c'.code) : c.core = c'.core := by
  obtain ⟨cell, hcell, hmem⟩ := mem_versions.mp hc
  obtain ⟨cell', hcell', hmem'⟩ := mem_versions.mp hc'
  have heq : cell = cell' := by
    rw [← cellOf_eq hs.codes hcell hmem, ← cellOf_eq hs.codes hcell' hmem', hcode]
  subst heq
  exact hs.confirmationCores.within cell hcell c hmem c' hmem'

theorem core_of_confirmation (hs : s.Keyed) {y : UUID} {c c' : VkConfirmation} (hc : c ∈ (s.confirmation y).versions)
    (hc' : c' ∈ (s.confirmation y).versions) : c.core = c'.core := by
  rcases cellOf_mem_or_empty VkConfirmation.id y s.vkConfirmations with hmem | hempty
  · exact hs.confirmationCores.within _ hmem c hc c' hc'
  · rw [Store.confirmation, hempty] at hc
    cases hc

theorem id_of_userVk (hs : s.Keyed) {x : UUID} {r : UserVk} (hr : r ∈ (s.userVk x).versions) : r.id = x :=
  key_of_mem_cellOf hs.userVks hr

theorem id_of_confirmation (hs : s.Keyed) {y : UUID} {c : VkConfirmation} (hc : c ∈ (s.confirmation y).versions) :
    c.id = y :=
  key_of_mem_cellOf hs.vkConfirmations hc

/-- The committed version of a row, found in its cell. -/
theorem committed_userVk (hs : s.Keyed) {r : UserVk} :
    r ∈ s.committed.userVks ↔ (s.userVk r.id).committed = some r :=
  mem_snapshot_iff hs.userVks

theorem committed_confirmation (hs : s.Keyed) {c : VkConfirmation} :
    c ∈ s.committed.vkConfirmations ↔ (s.confirmation c.id).committed = some c :=
  mem_snapshot_iff hs.vkConfirmations

end Keys

section Runs
variable {hashtext : String → Int} {settings : VkSettings} {pool : Tid → Request} {T : Tables} {s s₁ : Run}
  {cond : Move Tid World → Run → Prop} {t : Tid} {code : Str} {vkPeerId : PeerId} {sn dn : Option String}

/-- A confirmation holds a binding only when it has activated it. -/
theorem confirm_activated (horderly : Orderly settings pool s) (howned : Owned s)
    (hpool : pool t = .confirm code vkPeerId sn dn) {row : UserVk} (hheld : Held t row s.shared.userVks) :
    ∃ later earlier sn' dn' c b row', s.history t = later ++
    ⟨.userVkActivate row.id vkPeerId sn' dn', .ok row'⟩ :: earlier ∧
      c.userVkId = row.id ∧ ConfirmAt settings code vkPeerId sn dn earlier (.free c b) := by
  obtain ⟨e, he, hwrites⟩ := howned.userVks t row hheld
  obtain ⟨later, earlier, hhistory, hcall⟩ := (horderly.traced t).of_mem he
  rw [hpool] at hcall
  generalize hid : row.id = x at hwrites ⊢
  cases hwrites with
  | created | stateSet | softDeleted => cases hcall
  | activated vkPeerId' sn' dn' row' =>
    subst hid
    obtain ⟨c, b, hrow, rfl, hat⟩ := hcall.activating
    exact ⟨later, earlier, sn', dn', c, b, row', hhistory, hrow, hat⟩

/-- A confirmation holds a code only when it has marked it used. -/
theorem confirm_marked (horderly : Orderly settings pool s) (howned : Owned s)
    (hpool : pool t = .confirm code vkPeerId sn dn) {c : VkConfirmation} (hheld : Held t c s.shared.vkConfirmations) :
    ⟨.confirmationMarkUsed c.id, .ok ()⟩ ∈ s.history t := by
  obtain ⟨e, he, hwrites⟩ := howned.vkConfirmations t c hheld
  obtain ⟨later, earlier, hhistory, hcall⟩ := (horderly.traced t).of_mem he
  rw [hpool] at hcall
  cases hwrites with
  | created | invalidated => cases hcall
  | used => exact he

/-- Before its activation a confirmation holds nothing. -/
theorem confirm_idle (horderly : Orderly settings pool s) (howned : Owned s)
    (hpool : pool t = .confirm code vkPeerId sn dn) (hno : ∀ e ∈ s.history t, ¬ Writes e) :
    (∀ row, ¬ Held t row s.shared.userVks) ∧ ∀ c, ¬ Held t c s.shared.vkConfirmations := by
  constructor
  · intro row hheld
    obtain ⟨later, earlier, sn', dn', c, b, row', hhistory, -, -⟩ := confirm_activated horderly howned hpool hheld
    exact hno _ (hhistory ▸ List.mem_append_right _ List.mem_cons_self) (.inl ⟨_, _, _, _, _, rfl⟩)
  · intro c hheld
    exact hno _ (confirm_marked horderly howned hpool hheld) (.inr ⟨_, _, rfl⟩)

/-- The core of a committed code stays in its cell. -/
def CodeKept (c : VkConfirmation) (s : Run) : Prop :=
  ∃ c', (s.shared.confirmation c.id).committed = some c' ∧ c'.core = c.core

theorem CodeKept.version {c : VkConfirmation} (h : CodeKept c s) :
    ∃ c' ∈ versions s.shared.vkConfirmations, c'.core = c.core := by
  obtain ⟨c', hc', hcore⟩ := h
  rcases cellOf_mem_or_empty VkConfirmation.id c.id s.shared.vkConfirmations with hmem | hempty
  · exact ⟨c', mem_versions.mpr ⟨_, hmem, Cell.committed_mem hc'⟩, hcore⟩
  · rw [Store.confirmation, hempty] at hc'
    cases hc'

theorem codeKept_advance {c : VkConfirmation} {w : World} {op : Call} {k : Except Exn op.Reply → Py Answer}
    {r : Except Exn op.Reply} {next : Store} (hkeyed : s.shared.Keyed)
    (hexec : (database hashtext).exec t w op s.shared = some (r, next)) (h : CodeKept c s) :
    CodeKept c (s.advance t op k r next) := by
  obtain ⟨c', hc', hcore⟩ := h
  obtain ⟨c'', hmem, hcommitted⟩ := (exec_confirmation hkeyed hexec c.id).committed_stays hc'
  exact ⟨c'', hcommitted, (core_of_confirmation hkeyed hmem (Cell.committed_mem hc')).trans hcore⟩

theorem codeKept_drop {c : VkConfirmation} (hkeyed : s.shared.Keyed) (h : CodeKept c s) :
    CodeKept c (s.drop t (s.shared.rollback t)) := by
  obtain ⟨c', hc', hcore⟩ := h
  obtain ⟨c'', hmem, hcommitted⟩ := (rollback_confirmation hkeyed t c.id).committed_stays hc'
  exact ⟨c'', hcommitted, (core_of_confirmation hkeyed hmem (Cell.committed_mem hc')).trans hcore⟩

/-- A committed code is kept in every later state. -/
theorem codeKept_later (hT : T.Wf) {c : VkConfirmation}
    (hstart : Reaches hashtext cond (launch settings pool (.ofTables T)) s₁) (hreach : Reaches hashtext cond s₁ s)
    (h : CodeKept c s₁) : CodeKept c s :=
  reaches_induction hT hstart h (fun _ _ _ _ _ _ _ _ h _ hcalls => codeKept_advance hcalls.sound.keyed hcalls.exec h)
    (fun _ _ hreach h => codeKept_drop (reaches_sound hT hreach).keyed h) hreach

/-- The code that a confirmation has read is the one it was given, and committed. -/
def CodesRead (pool : Tid → Request) (s : Run) : Prop :=
  ∀ t code vkPeerId sn dn code' c, pool t = .confirm code vkPeerId sn dn →
    ⟨.confirmationGetByCode code', .ok (some c)⟩ ∈ s.history t →
    code' = normalizeCode code ∧ c.code = normalizeCode code ∧ CodeKept c s

theorem codesRead (hT : T.Wf) (hreach : Reaches hashtext cond (launch settings pool (.ofTables T)) s) :
    CodesRead pool s := by
  refine reaches_induction hT .refl (fun t _ _ _ _ _ _ _ hmem => by cases hmem) ?_ ?_ hreach
  · intro s t w op k r next hreach hinv _ hcalls t' code vkPeerId sn dn code' c hpool hmem
    have hkept : CodeKept c s → CodeKept c (s.advance t op k r next) :=
      codeKept_advance hcalls.sound.keyed hcalls.exec
    by_cases ht : t' = t
    · subst ht
      rw [Sys.history_advance_self] at hmem
      rcases List.mem_cons.mp hmem with heq | hmem
      · -- a confirmation that looks a code up has changed nothing, so what it sees is committed
        cases heq
        have hallowed := hcalls.allowed
        rw [hpool] at hallowed
        obtain ⟨rfl, tm, n, hat⟩ := hallowed.looking
        have hidle := confirm_idle hcalls.orderly hcalls.sound.owned hpool (hat.not_writes rfl)
        obtain ⟨-, hreply, -⟩ := execCall_cases hcalls.exec
        have hrow := oneOrNone_some (show oneOrNone _ = .ok (some c) from hreply.symm)
        have hfound : c ∈ (s.shared.view t').vkConfirmations.filter (·.code == normalizeCode code) :=
          hrow ▸ List.mem_singleton_self c
        obtain ⟨hview, hcode⟩ := List.mem_filter.mp hfound
        have hcommitted : c ∈ snapshot s.shared.vkConfirmations := by
          rw [← view_eq_snapshot hidle.2]
          exact hview
        exact ⟨rfl, by simpa using hcode, hkept ⟨c, (committed_confirmation hcalls.sound.keyed).mp hcommitted, rfl⟩⟩
      · obtain ⟨hcode, hcode', h⟩ := hinv t' code vkPeerId sn dn code' c hpool hmem
        exact ⟨hcode, hcode', hkept h⟩
    · rw [Sys.history_advance_ne _ _ _ _ _ _ ht] at hmem
      obtain ⟨hcode, hcode', h⟩ := hinv t' code vkPeerId sn dn code' c hpool hmem
      exact ⟨hcode, hcode', hkept h⟩
  · intro s t hreach hinv t' code vkPeerId sn dn code' c hpool hmem
    obtain ⟨hcode, hcode', h⟩ := hinv t' code vkPeerId sn dn code' c hpool hmem
    exact ⟨hcode, hcode', codeKept_drop (reaches_sound hT hreach).keyed h⟩

end Runs

section Example

/-- A pending binding with one code. -/
def onePending : Tables where
  userVks := [⟨1, 1, none, .pending, none, none, none, 0, 0⟩]
  vkConfirmations := [⟨7, 1, "AAAA".toList, 100, 0, none⟩]
  vkLogs := []
  vkNotificationDeliveries := []

theorem onePending_wf : onePending.Wf := by
  constructor <;> decide

end Example
end VkService
