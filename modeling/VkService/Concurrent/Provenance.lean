import VkService.Concurrent.Codes

/-! Where a link comes from. Whatever the interleaving, a binding has a peer only because a
confirmation by that peer has read, unused and in time, a code that was issued for it. -/
namespace VkService
open PyStr Effects Effects.Machine RowStore UserVkRepository

/-- The code was created by an `issue_confirmation`, for the binding it names. -/
def IssuedBy (pool : Tid → Request) (s : Run) (c : VkConfirmation) : Prop :=
  ∃ t userId row, pool t = .issueConfirmation userId ∧ row.id = c.id ∧
    ⟨.confirmationCreate c.userVkId c.code c.expiresAt, .ok row⟩ ∈ s.history t

/-- The confirmation has read the code with `used_at` null, and then a clock before its expiry. -/
def ReadValid (h : CallHistory) (code : Str) (c : VkConfirmation) : Prop :=
  ∃ later earlier b clock, h = later ++ ⟨.now, .ok clock⟩ :: ⟨.userVkGetById c.userVkId, .ok b⟩ ::
    ⟨.confirmationGetByCode (normalizeCode code), .ok (some c)⟩ :: earlier ∧ c.usedAt = none ∧ clock < c.expiresAt

/-- The peer has confirmed the binding with a code issued for it. -/
def ConfirmedBy (pool : Tid → Request) (s : Run) (recordId : UUID) (vkPeerId : PeerId) : Prop :=
  ∃ t code sn dn c, pool t = .confirm code vkPeerId sn dn ∧ c.userVkId = recordId ∧ c.code = normalizeCode code ∧
    ReadValid (s.history t) code c ∧ IssuedBy pool s c

theorem ConfirmAt.readValid {settings : VkSettings} {code : Str} {vkPeerId : PeerId} {sn dn : Option String}
    {h : CallHistory} {c : VkConfirmation} {b : UserVk} (hat : ConfirmAt settings code vkPeerId sn dn h (.free c b)) :
    ReadValid h code c := by
  cases hat with
  | free hat _ _ =>
    cases hat with
    | fresh hat hunused hexp =>
      cases hat with
      | loaded b hat =>
        cases hat with
        | read c hat _ => exact ⟨[_], _, _, _, rfl, hunused, hexp⟩

section History
variable {pool : Tid → Request} {s : Run} {t : Tid} {c : Call} {k : Except Exn c.Reply → Py Answer}
  {r : Except Exn c.Reply} {next : Store}

theorem IssuedBy.advance {conf : VkConfirmation} (h : IssuedBy pool s conf) :
    IssuedBy pool (s.advance t c k r next) conf := by
  obtain ⟨t', userId, row, hpool, hid, hmem⟩ := h
  exact ⟨t', userId, row, hpool, hid, s.mem_history_advance t c k r next hmem⟩

theorem ReadValid.cons {h : CallHistory} {code : Str} {conf : VkConfirmation} (hread : ReadValid h code conf)
    (e : CallEvent) : ReadValid (e :: h) code conf := by
  obtain ⟨later, earlier, b, clock, rfl, hvalid⟩ := hread
  exact ⟨e :: later, earlier, b, clock, rfl, hvalid⟩

theorem ConfirmedBy.advance {recordId : UUID} {vkPeerId : PeerId} (h : ConfirmedBy pool s recordId vkPeerId) :
    ConfirmedBy pool (s.advance t c k r next) recordId vkPeerId := by
  obtain ⟨t', code, sn, dn, conf, hpool, hid, hcode, hread, hissued⟩ := h
  refine ⟨t', code, sn, dn, conf, hpool, hid, hcode, ?_, hissued.advance⟩
  by_cases ht : t' = t
  · subst ht
    rw [Sys.history_advance_self]
    exact hread.cons _
  · rwa [Sys.history_advance_ne _ _ _ _ _ _ ht]

end History

section Runs
variable {hashtext : String → Int} {settings : VkSettings} {pool : Tid → Request} {T : Tables} {s : Run}
  {cond : Move Tid World → Run → Prop}

/-- Every code was issued. -/
theorem codes_issued (hreach : Reaches hashtext cond (launch settings pool (.ofTables .empty)) s) (y : UUID) :
    ∀ c ∈ (s.shared.confirmation y).versions, IssuedBy pool s c := by
  refine reaches_induction (I := fun s => ∀ c ∈ (s.shared.confirmation y).versions, IssuedBy pool s c)
    Tables.empty_wf .refl (fun c hc => by cases hc) ?_ ?_ hreach
  · intro s t w c k r next hreach hinv _ hcalls
    refine (exec_confirmation hcalls.sound.keyed hcalls.exec y).forall_versions
      (fun conf hconf => (hinv conf hconf).advance)
      (fun conf hnew => ?_) fun conf conf' _ hissued hw => ?_
    · cases hnew with
      | mk userVkId code exp =>
        obtain ⟨k', hp⟩ := hcalls.running
        obtain ⟨userId, hpool⟩ :=
          ((reaches_conforming (fun t => request_issues settings (pool t)) hreach).rest t _ hp).1 _ _ _ rfl
        exact ⟨t, userId, _, hpool, rfl, by rw [Sys.history_advance_self]; exact List.mem_cons_self⟩
    · cases hw <;> exact hissued
  · intro s t hreach hinv
    exact (rollback_confirmation (reaches_sound Tables.empty_wf hreach).keyed t y).forall_versions hinv
      (fun _ h => h.elim)
      fun _ _ _ _ h => h.elim

/-- A confirmation reads issued codes only. -/
theorem reads_issued (hreach : Reaches hashtext cond (launch settings pool (.ofTables .empty)) s) {t : Tid} {code : Str}
    {vkPeerId : PeerId} {sn dn : Option String} {code' : Str} {c : VkConfirmation}
    (hpool : pool t = .confirm code vkPeerId sn dn)
    (hmem : ⟨.confirmationGetByCode code', .ok (some c)⟩ ∈ s.history t) :
    IssuedBy pool s c := by
  obtain ⟨-, -, c', hc', hcore⟩ := codesRead Tables.empty_wf hreach t code vkPeerId sn dn code' c hpool hmem
  obtain ⟨t', userId, row, hpool', hid, hcreated⟩ := codes_issued hreach c.id c' (Cell.committed_mem hc')
  simp only [VkConfirmation.core, Prod.mk.injEq] at hcore
  obtain ⟨h₁, h₂, h₃, h₄⟩ := hcore
  exact ⟨t', userId, row, hpool', hid.trans h₁, h₂ ▸ h₃ ▸ h₄ ▸ hcreated⟩

/-- A binding with a peer. -/
def UserVk.Linked (r : UserVk) : Prop := r.vkPeerId ≠ none

/-- No UPDATE takes the peer away. -/
theorem RewritesUserVk.linked {w : World} {c : Call} {r : Except Exn c.Reply} {row row' : UserVk}
    (h : RewritesUserVk w row c r row') (hlinked : row.Linked) : row'.Linked := by
  cases h with
  | activated => simp [UserVk.Linked, UserVkRepository.activated]
  | stateSet => exact hlinked
  | softDeleted => exact hlinked

theorem linked_kept (x : UUID) : KeptBy settings pool T cond (userVkCell hashtext x) UserVk.Linked :=
  ⟨fun _ _ hlinked hw => RewritesUserVk.linked hw hlinked⟩

theorem linked_settles (hT : T.Wf) (hreach : Reaches hashtext cond (launch settings pool (.ofTables T)) s) (x : UUID) :
    (s.shared.userVk x).Settles UserVk.Linked :=
  (linked_kept x).settles hT hreach

/-- A call that nothing precedes is made by a transaction that holds nothing. -/
theorem idle_of_nil (howned : Owned s) {t : Tid} (hnil : s.history t = []) : ∀ row, ¬ Held t row s.shared.userVks := by
  intro row hheld
  obtain ⟨e, he, -⟩ := howned.userVks t row hheld
  rw [hnil] at he
  cases he

/-- The binding that a permission event has found is a committed one, and linked for good. -/
def EventsFoundLinked (pool : Tid → Request) (s : Run) : Prop :=
  ∀ t vkPeerId vkPeerId' b, pool t = .block vkPeerId ∨ pool t = .unblock vkPeerId →
    ⟨.userVkGetByPeerId vkPeerId', .ok (some b)⟩ ∈ s.history t →
    ∃ row, (s.shared.userVk b.id).committed = some row ∧ row.Linked

theorem events_found_linked (hT : T.Wf) (hreach : Reaches hashtext cond (launch settings pool (.ofTables T)) s) :
    EventsFoundLinked pool s := by
  refine reaches_induction hT .refl (fun t _ _ _ _ hmem => by cases hmem) ?_ ?_ hreach
  · intro s t w c k r next hreach hinv _ hcalls t' vkPeerId vkPeerId' b hpool hmem
    have hstep := exec_userVk hcalls.sound.keyed hcalls.exec b.id
    have hkept : (∃ row, (s.shared.userVk b.id).committed = some row ∧ row.Linked) →
        ∃ row, (next.userVk b.id).committed = some row ∧ row.Linked :=
      (linked_settles hT hreach b.id).committed hstep
    by_cases ht : t' = t
    · subst ht
      rw [Sys.history_advance_self] at hmem
      rcases List.mem_cons.mp hmem with heq | hmem
      · cases heq
        have hnil : s.history t' = [] := by
          have hallowed := hcalls.allowed
          rcases hpool with hpool | hpool <;> rw [hpool] at hallowed <;> cases hallowed with
          | look hh => exact hh
        obtain ⟨-, hreply, -⟩ := execCall_cases hcalls.exec
        have hrow := oneOrNone_some (show oneOrNone _ = .ok (some b) from hreply.symm)
        obtain ⟨hview, hpeer⟩ := List.mem_filter.mp (hrow ▸ List.mem_singleton_self b)
        have hcommitted : b ∈ snapshot s.shared.userVks := by
          rw [← view_eq_snapshot (idle_of_nil hcalls.sound.owned hnil)]
          exact hview
        simp only [Bool.and_eq_true, beq_iff_eq] at hpeer
        exact hkept ⟨b, (committed_userVk hcalls.sound.keyed).mp hcommitted, by simp [UserVk.Linked, hpeer.1]⟩
      · exact hkept (hinv t' vkPeerId vkPeerId' b hpool hmem)
    · rw [Sys.history_advance_ne _ _ _ _ _ _ ht] at hmem
      exact hkept (hinv t' vkPeerId vkPeerId' b hpool hmem)
  · intro s t hreach hinv t' vkPeerId vkPeerId' b hpool hmem
    exact (linked_settles hT hreach b.id).committed (rollback_userVk (reaches_sound hT hreach).keyed t b.id)
      (hinv t' vkPeerId vkPeerId' b hpool hmem)

/-- The origin of a version: its peer has confirmed it, and it left PENDING with a peer only. -/
def Originates (pool : Tid → Request) (s : Run) (row : UserVk) : Prop :=
  (∀ vkPeerId, row.vkPeerId = some vkPeerId → ConfirmedBy pool s row.id vkPeerId) ∧ (row.state ≠ .pending → row.Linked)

theorem Originates.advance {row : UserVk} (h : Originates pool s row) {t : Tid} {c : Call}
    {k : Except Exn c.Reply → Py Answer} {r : Except Exn c.Reply} {next : Store} :
    Originates pool (s.advance t c k r next) row :=
  ⟨fun vkPeerId hpeer => (h.1 vkPeerId hpeer).advance, h.2⟩

/-- A rewritten version has an origin when the one it is made from has. -/
theorem originates_rewritten (hreach : Reaches hashtext cond (launch settings pool (.ofTables .empty)) s)
    {t : Tid} {w : World} {c : Call} {k : Except Exn c.Reply → Py Answer} {r : Except Exn c.Reply} {next : Store}
    (hcalls : Calls hashtext settings pool s t w c r next) {x : UUID} {row row' : UserVk}
    (hrow : row ∈ (s.shared.userVk x).versions) (horigin : Originates pool (s.advance t c k r next) row)
    (hw : RewritesUserVk w row c r row') : Originates pool (s.advance t c k r next) row' := by
  cases hw with
  | activated _ vkPeerId sn dn =>
    obtain ⟨code, sn', dn', conf, b, hpool, hid, hat⟩ := hcalls.allowed.activation
    have hlooked := hat.looked rfl
    obtain ⟨-, hcode, -⟩ := codesRead Tables.empty_wf hreach t code vkPeerId sn' dn' _ conf hpool hlooked
    refine ⟨fun vkPeerId' hpeer => ?_, fun _ => by simp [UserVk.Linked, UserVkRepository.activated]⟩
    obtain rfl : vkPeerId = vkPeerId' := Option.some.inj hpeer
    refine ⟨t, code, sn', dn', conf, hpool, hid, hcode, ?_, (reads_issued hreach hpool hlooked).advance⟩
    rw [Sys.history_advance_self]
    exact hat.readValid.cons _
  | stateSet _ state =>
    obtain ⟨vkPeerId, b, hpool, hid, hhistory⟩ := hcalls.allowed.stateSetting
    -- the event has found this very row by its peer
    obtain ⟨row₀, hcommitted, hlinked⟩ := events_found_linked Tables.empty_wf hreach t vkPeerId vkPeerId b hpool
      (hhistory ▸ List.mem_singleton_self _)
    rw [hid, id_of_userVk hcalls.sound.keyed hrow] at hcommitted
    exact ⟨horigin.1, fun _ => linked_settles Tables.empty_wf hreach x row₀ hcommitted hlinked row hrow⟩
  | softDeleted => exact ⟨horigin.1, horigin.2⟩

theorem bindings_originate (hreach : Reaches hashtext cond (launch settings pool (.ofTables .empty)) s) (x : UUID) :
    ∀ row ∈ (s.shared.userVk x).versions, Originates pool s row := by
  refine reaches_induction (I := fun s => ∀ row ∈ (s.shared.userVk x).versions, Originates pool s row)
    Tables.empty_wf .refl (fun row hrow => by cases hrow) ?_ ?_ hreach
  · intro s t w c k r next hreach hinv _ hcalls
    refine (exec_userVk hcalls.sound.keyed hcalls.exec x).forall_versions (fun row hrow => (hinv row hrow).advance)
      (fun row hnew => ?_) fun row row' hrow horigin hw => originates_rewritten hreach hcalls hrow horigin hw
    cases hnew with
    | mk userId => exact ⟨fun vkPeerId hpeer => (by cases hpeer), fun hstate => absurd rfl hstate⟩
  · intro s t hreach hinv
    exact (rollback_userVk (reaches_sound Tables.empty_wf hreach).keyed t x).forall_versions hinv (fun _ h => h.elim)
      fun _ _ _ _ h => h.elim

/-- In every state reached from empty tables, a binding has a peer only if that peer has
confirmed it, and is ACTIVE or BLOCKED only if it has a peer. -/
theorem binding_provenance (hashtext : String → Int) (settings : VkSettings) (pool : Tid → Request) (s : Run)
    (hreach : Reaches hashtext anyMove (launch settings pool (.ofTables .empty)) s) (row : UserVk)
    (hrow : row ∈ versions s.shared.userVks) :
    (∀ vkPeerId, row.vkPeerId = some vkPeerId → ConfirmedBy pool s row.id vkPeerId) ∧
      (row.state = .active ∨ row.state = .blocked → row.vkPeerId.isSome = true) := by
  have hkeyed := (reaches_sound Tables.empty_wf hreach).keyed
  obtain ⟨hpeer, hstate⟩ := bindings_originate hreach row.id row ((mem_versions_iff hkeyed.userVks).mp hrow)
  refine ⟨hpeer, fun hleft => Option.isSome_iff_ne_none.mpr (hstate ?_)⟩
  rcases hleft with h | h <;> simp [h]

end Runs

section Example

/-- Session 0 issues a code, every other one confirms it for peer 5. -/
def issuedThenConfirmed : Tid → Request
  | 0 => .issueConfirmation 1
  | _ => .confirm "AAAA".toList 5 none none

/-- Both sessions one after the other, up to the commit of the second. -/
def linkedRun : Option Run :=
  (database fun _ => 0).runMoves (List.replicate 10 (.step 0 (.still 0)) ++ List.replicate 10 (.step 1 (.still 0)))
    (launch .least issuedThenConfirmed (.ofTables .empty))

private theorem linkedRun_isSome : linkedRun.isSome = true := by decide +kernel

private theorem linkedRun_reached : Reaches (fun _ => 0) anyMove (launch .least issuedThenConfirmed (.ofTables .empty))
    (linkedRun.get linkedRun_isSome) :=
  reach_of_runMoves _ (Option.some_get linkedRun_isSome).symm

/-- The row that the second session has linked. -/
theorem binding_provenance_linkedOnce : ConfirmedBy issuedThenConfirmed (linkedRun.get linkedRun_isSome) 0 5 :=
  (binding_provenance (fun _ => 0) .least issuedThenConfirmed _ linkedRun_reached
    ⟨0, 1, some 5, .active, none, none, none, 0, 0⟩ (by decide +kernel)).1 5 rfl

end Example
end VkService
