import VkService.Concurrent.Codes

/-! A removed binding is final: nobody writes its row again, and no code that was ever issued
for it changes any binding. -/
namespace VkService
open PyStr Effects Effects.Machine RowStore UserVkRepository

section Rows
variable {hashtext : String → Int} {settings : VkSettings} {pool : Tid → Request} {T : Tables} {s s₁ : Run}
  {cond : Move Tid World → Run → Prop}

/-- A binding with `deleted_at` set. -/
def UserVk.Dead (r : UserVk) : Prop := r.live = false

/-- Every UPDATE of a binding selects live rows only. -/
theorem RewritesUserVk.not_dead {w : World} {c : Call} {r : Except Exn c.Reply} {row row' : UserVk}
    (h : RewritesUserVk w row c r row') : ¬ row.Dead := by
  cases h <;> simp_all [UserVk.Dead]

theorem removed_sealed (hT : T.Wf) (hreach : Reaches hashtext cond (launch settings pool (.ofTables T)) s) (x : UUID) :
    (s.shared.userVk x).Sealed UserVk.Dead := by
  refine reaches_induction (I := fun s => (s.shared.userVk x).Sealed UserVk.Dead) hT .refl
    (fun _ _ _ => pending_cellOf_ofRows x _) ?_ ?_ hreach
  · intro s t w c k r next _ hinv _ hcalls
    exact hinv.step (exec_userVk hcalls.sound.keyed hcalls.exec x) fun _ _ h => h.not_dead
  · intro s t hreach hinv
    exact hinv.step (rollback_userVk (reaches_sound hT hreach).keyed t x) fun _ _ h => h.elim

/-- The cell of a removed binding stays what it is. -/
theorem removed_cell (hT : T.Wf) (hstart : Reaches hashtext cond (launch settings pool (.ofTables T)) s₁)
    (hreach : Reaches hashtext cond s₁ s) {x : UUID} {row : UserVk} (hrow : (s₁.shared.userVk x).committed = some row)
    (hdead : row.Dead) : s.shared.userVk x = ⟨some row, none⟩ := by
  have hcell : s₁.shared.userVk x = ⟨some row, none⟩ := by
    have hnone := removed_sealed hT hstart x row hrow hdead
    generalize s₁.shared.userVk x = cell at hrow hnone
    cases cell
    simp_all
  refine reaches_induction (I := fun s => s.shared.userVk x = ⟨some row, none⟩) hT hstart hcell ?_ ?_ hreach
  · intro s t w c k r next hreach hinv _ hcalls
    have hstep := exec_userVk hcalls.sound.keyed hcalls.exec x
    exact ((removed_sealed hT hreach x).eq hstep (fun _ _ h => h.not_dead) (by rw [hinv]) hdead).trans hinv
  · intro s t hreach hinv
    have hstep := rollback_userVk (reaches_sound hT hreach).keyed t x
    exact ((removed_sealed hT hreach x).eq hstep (fun _ _ h => h.elim) (by rw [hinv]) hdead).trans hinv

/-- The code was issued for the binding: by then it had been committed, or it is in the table
then or later, committed or in flight. -/
def EverIssued (hashtext : String → Int) (settings : VkSettings) (pool : Tid → Request) (T : Tables) (s : Run)
    (recordId : UUID) (code : Str) : Prop :=
  (∃ s₁, Reaches hashtext anyMove (launch settings pool (.ofTables T)) s₁ ∧ Reaches hashtext anyMove s₁ s ∧
    ∃ c ∈ s₁.shared.committed.vkConfirmations, c.userVkId = recordId ∧ c.code = code) ∨
  ∃ s₂, Reaches hashtext anyMove s s₂ ∧ ∃ c ∈ versions s₂.shared.vkConfirmations, c.userVkId = recordId ∧ c.code = code

/-- A confirmation that has read such a code has read it for this binding. -/
theorem EverIssued.read (hT : T.Wf) (hreach : Reaches hashtext anyMove (launch settings pool (.ofTables T)) s)
    {recordId : UUID} {code : Str} (hissued : EverIssued hashtext settings pool T s recordId code)
    {c : VkConfirmation} (hcode : c.code = code) (hkept : CodeKept c s) : c.userVkId = recordId := by
  have hsame : ∀ s' : Run, s'.shared.Keyed → CodeKept c s' → ∀ c₂ ∈ versions s'.shared.vkConfirmations,
      c₂.code = code → c.userVkId = c₂.userVkId := by
    intro s' hkeyed hkept' c₂ hc₂ hcode₂
    obtain ⟨c₁, hc₁, hcore₁⟩ := hkept'.version
    have hcode₁ : c₁.code = c₂.code := (congrArg (·.2.2.1) hcore₁).trans (hcode.trans hcode₂.symm)
    exact congrArg (·.2.1) (hcore₁.symm.trans (core_of_code hkeyed hc₁ hc₂ hcode₁))
  rcases hissued with ⟨s₁, hstart, hlater, c₂, hc₂, hrow₂, hcode₂⟩ | ⟨s₂, hlater, c₂, hc₂, hrow₂, hcode₂⟩
  · have hkept₂ : CodeKept c₂ s := codeKept_later hT hstart hlater
      ⟨c₂, (committed_confirmation (reaches_sound hT hstart).keyed).mp hc₂, rfl⟩
    obtain ⟨c₃, hc₃, hcore₃⟩ := hkept₂.version
    have hcode₃ : c₃.code = code := (congrArg (·.2.2.1) hcore₃).trans hcode₂
    exact (hsame s (reaches_sound hT hreach).keyed hkept c₃ hc₃ hcode₃).trans ((congrArg (·.2.1) hcore₃).trans hrow₂)
  · have hkept₂ := codeKept_later hT hreach hlater hkept
    exact (hsame s₂ (reaches_sound hT (hreach.trans hlater)).keyed hkept₂ c₂ hc₂ hcode₂).trans hrow₂

/-- A confirmation with a code issued for a removed binding holds no binding. -/
theorem confirm_not_held (hT : T.Wf) (hreach : Reaches hashtext anyMove (launch settings pool (.ofTables T)) s)
    {row : UserVk} (hcell : s.shared.userVk row.id = ⟨some row, none⟩) {t : Tid} {code : Str} {vkPeerId : PeerId}
    {sn dn : Option String} (hpool : pool t = .confirm code vkPeerId sn dn)
    (hissued : EverIssued hashtext settings pool T s row.id (normalizeCode code)) (row' : UserVk) :
    ¬ Held t row' s.shared.userVks := by
  intro hheld
  have hsound := reaches_sound hT hreach
  obtain ⟨later, earlier, sn', dn', c, b, row'', hhistory, hid, hat⟩ :=
    confirm_activated (reaches_orderly hreach) hsound.owned hpool hheld
  have hlooked : ⟨.confirmationGetByCode (normalizeCode code), .ok (some c)⟩ ∈ s.history t :=
    hhistory ▸ List.mem_append_right _ (List.mem_cons_of_mem _ (hat.looked rfl))
  obtain ⟨-, hcode, hkept⟩ := codesRead hT hreach t code vkPeerId sn dn _ c hpool hlooked
  -- the binding it holds is the removed one, whose cell nobody holds
  have hrow : row'.id = row.id := hid.symm.trans (hissued.read hT hreach hcode hkept)
  have hpending := (held_iff hsound.keyed.userVks).mp hheld
  rw [hrow] at hpending
  rw [Store.userVk] at hcell
  rw [hcell] at hpending
  cases hpending

/-- Nor does it change any in its next call. -/
theorem confirm_keeps_userVks (hT : T.Wf) (hreach : Reaches hashtext anyMove (launch settings pool (.ofTables T)) s)
    {row : UserVk} (hcell : s.shared.userVk row.id = ⟨some row, none⟩) (hdead : row.Dead) {t : Tid} {code : Str}
    {vkPeerId : PeerId} {sn dn : Option String} (hpool : pool t = .confirm code vkPeerId sn dn)
    (hissued : EverIssued hashtext settings pool T s row.id (normalizeCode code)) {w : World} {c : Call}
    {r : Except Exn c.Reply} {next : Store} (hcalls : Calls hashtext settings pool s t w c r next) :
    next.userVks = s.shared.userVks := by
  have hno := confirm_not_held hT hreach hcell hpool hissued
  have hallowed := hcalls.allowed
  rw [hpool] at hallowed
  have hstep := exec_userVks hcalls.exec
  generalize next.userVks = after at hstep
  cases hstep with
  | same => rfl
  | committed => exact commit_eq_self hno
  | rolledBack => exact rollback_eq_self hno
  | created | stateSet | softDeleted => cases hallowed
  | @activated recordId _ _ _ row' _ hrow' =>
    obtain ⟨c, b, rfl, -, hat⟩ := hallowed.activating
    obtain ⟨-, hcode, hkept⟩ := codesRead hT hreach t code vkPeerId sn dn _ c hpool (hat.looked rfl)
    have hmem : row' ∈ (view t s.shared.userVks).filter (liveWithId c.userVkId) := hrow' ▸ List.mem_singleton_self _
    obtain ⟨hview, hp⟩ := List.mem_filter.mp hmem
    simp only [liveWithId, Bool.and_eq_true, beq_iff_eq] at hp
    -- the row it would write is the removed one, which is not live
    have hread := (mem_view_iff hcalls.sound.keyed.userVks).mp hview
    rw [hp.1, hissued.read hT hreach hcode hkept] at hread
    rw [Store.userVk] at hcell
    rw [hcell] at hread
    obtain rfl := Option.some.inj hread
    rw [UserVk.Dead, hp.2] at hdead
    cases hdead

/-- Once a binding is committed as removed, its row never changes again, and no move of a
confirmation with a code that was ever issued for it changes any binding. -/
theorem removed_binding_final (hashtext : String → Int) (settings : VkSettings) (pool : Tid → Request) (T : Tables)
    (hT : T.Wf) (s s' : Run) (hreach : Reaches hashtext anyMove (launch settings pool (.ofTables T)) s)
    (hlater : Reaches hashtext anyMove s s') (row : UserVk) (hrow : row ∈ s.shared.committed.userVks)
    (hdead : row.deletedAt.isSome = true) :
    (row ∈ s'.shared.committed.userVks ∧ ∀ row' ∈ versions s'.shared.userVks, row'.id = row.id → row' = row) ∧
    ∀ t code vkPeerId sn dn w s'', pool t = .confirm code vkPeerId sn dn →
      EverIssued hashtext settings pool T s' row.id (normalizeCode code) →
      (database hashtext).next (.step t w) s' = some s'' ∨ (database hashtext).next (.kill t) s' = some s'' →
      s''.shared.userVks = s'.shared.userVks := by
  have hdead : row.Dead := by
    rw [UserVk.Dead, UserVk.live]
    cases h : row.deletedAt <;> simp_all
  have hreach' := hreach.trans hlater
  have hkeyed := (reaches_sound hT hreach').keyed
  have hcell : s'.shared.userVk row.id = ⟨some row, none⟩ :=
    removed_cell hT hreach hlater ((committed_userVk (reaches_sound hT hreach).keyed).mp hrow) hdead
  refine ⟨⟨(committed_userVk hkeyed).mpr (by rw [hcell]), fun row' hrow' hid => ?_⟩, ?_⟩
  · have hmem := (mem_versions_iff hkeyed.userVks).mp hrow'
    rw [hid] at hmem
    rw [Store.userVk] at hcell
    rw [hcell] at hmem
    simpa [Cell.versions] using hmem
  · intro t code vkPeerId sn dn w s'' hpool hissued hmove
    rcases hmove with hmove | hmove
    · rcases next_cases _ hmove with ⟨t', w', c, k, r, next, heq, hp, hexec, rfl⟩ | ⟨t', c, k, heq, -, -⟩
      · cases heq
        have horderly := reaches_orderly hreach'
        exact confirm_keeps_userVks hT hreach' hcell hdead hpool hissued
          ⟨horderly, reaches_sound hT hreach', ⟨k, hp⟩, (horderly.rest t _ hp).1, hexec⟩
      · cases heq
    · rcases next_cases _ hmove with ⟨t', w', c, k, r, next, heq, -, -, -⟩ | ⟨t', c, k, heq, -, rfl⟩
      · cases heq
      · cases heq
        exact rollback_eq_self (confirm_not_held hT hreach' hcell hpool hissued)

end Rows

section Example

/-- Session 0 removes the binding, every other one confirms its code. -/
def unlinkedMeanwhile : Tid → Request
  | 0 => .unlink 1
  | _ => .confirm "AAAA".toList 5 none none

/-- Session 1 has read the code and the binding when session 0 removes it and commits. -/
def removedUnderway : Option Run :=
  (database fun _ => 0).runMoves
    (List.replicate 6 (.step 1 (.still 0)) ++ List.replicate 5 (.step 0 (.still 0)))
    (launch .least unlinkedMeanwhile (.ofTables onePending))

private theorem removedUnderway_isSome : removedUnderway.isSome = true := rfl

private theorem removedUnderway_reached : Reaches (fun _ => 0) anyMove
    (launch .least unlinkedMeanwhile (.ofTables onePending)) (removedUnderway.get removedUnderway_isSome) :=
  reach_of_runMoves _ (Option.some_get removedUnderway_isSome).symm

/-- The binding as session 0 leaves it. -/
def removedRow : UserVk := ⟨1, 1, none, .pending, none, none, some 0, 0, 0⟩

private theorem removedUnderway_row : removedRow ∈
    (removedUnderway.get removedUnderway_isSome).shared.committed.userVks := by
  decide +kernel

private theorem removedUnderway_issued : EverIssued (fun _ => 0) .least unlinkedMeanwhile onePending
    (removedUnderway.get removedUnderway_isSome) 1 (normalizeCode "AAAA".toList) :=
  .inr ⟨_, .refl, ⟨7, 1, "AAAA".toList, 100, 0, some 0⟩, by decide +kernel, rfl, by decide +kernel⟩

/-- Then session 1 goes on to its activation. -/
def removedActivation : Option Run :=
  (database fun _ => 0).next (.step 1 (.still 0)) (removedUnderway.get removedUnderway_isSome)

private theorem removedActivation_isSome : removedActivation.isSome = true := rfl

/-- The confirmation that was under way goes on, and activates nothing any more. -/
theorem removed_binding_final_underway : removedRow ∈
    (removedUnderway.get removedUnderway_isSome).shared.committed.userVks ∧
    (∃ s'', (database fun _ => 0).next (.step 1 (.still 0)) (removedUnderway.get removedUnderway_isSome) = some s'' ∧
      s''.prog 1 = some (.raise .noResultFound)) ∧
    ∀ w s'', (database fun _ => 0).next (.step 1 w) (removedUnderway.get removedUnderway_isSome) = some s'' →
      s''.shared.userVks = (removedUnderway.get removedUnderway_isSome).shared.userVks :=
  ⟨removedUnderway_row, ⟨_, (Option.some_get removedActivation_isSome).symm, rfl⟩, fun w s'' hmove =>
    (removed_binding_final (fun _ => 0) .least unlinkedMeanwhile onePending onePending_wf _ _ removedUnderway_reached .refl
      removedRow removedUnderway_row rfl).2 1 _ 5 none none w s'' rfl removedUnderway_issued (.inl hmove)⟩

end Example
end VkService
