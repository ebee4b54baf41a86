import VkService.Concurrent.SingleUse
import VkService.Promises.Entries

/-! What a session still finds of the codes it has used up. The UPDATE goes over the codes there
are: from then on the session holds them as used, and an unused code of the binding can only
come from another session that commits one after it. -/
namespace VkService
open PyStr Effects Effects.Machine RowStore UserVkRepository VkConfirmationRepository

/-- The event uses up the codes of a binding. -/
def CallEvent.usesUpCodesOf (x : UUID) : CallEvent → Bool
  | ⟨.confirmationInvalidatePrevious x', .ok _⟩ => x' == x
  | _ => false

/-- The event gives the binding a code. -/
def CallEvent.createsCodeOf (x : UUID) : CallEvent → Bool
  | ⟨.confirmationCreate x' _ _, .ok _⟩ => x' == x
  | _ => false

/-- What has happened since `t` last used up the codes of a binding. -/
def sinceUsedUp (t : Tid) (x : UUID) (trace : List (Tid × CallEvent)) : List (Tid × CallEvent) :=
  trace.takeWhile fun entry => !(entry.1 == t && entry.2.usesUpCodesOf x)

/-- Since then another session has committed that has created a code of the binding. -/
def overtaken (s : Run) (t : Tid) (x : UUID) : Bool :=
  (sinceUsedUp t x s.trace).any fun entry =>
    entry.1 != t && entry.2.commits && (s.history entry.1).any (CallEvent.createsCodeOf x)

section Events
variable {x : UUID} {e : CallEvent} {s : Run} {t u : Tid} {c : Call} {k : Except Exn c.Reply → Py Answer}
  {r : Except Exn c.Reply} {next : Store}

theorem usesUpCodesOf_iff : CallEvent.usesUpCodesOf x e = true ↔
    ∃ n, e = ⟨.confirmationInvalidatePrevious x, .ok n⟩ := by
  constructor
  · intro h
    unfold CallEvent.usesUpCodesOf at h
    split at h
    · rename_i x' n
      exact ⟨n, by rw [beq_iff_eq.mp h]⟩
    · cases h
  · rintro ⟨n, rfl⟩
    simp [CallEvent.usesUpCodesOf]

theorem createsCodeOf_iff :
    CallEvent.createsCodeOf x e = true ↔ ∃ code exp row, e = ⟨.confirmationCreate x code exp, .ok row⟩ := by
  constructor
  · intro h
    unfold CallEvent.createsCodeOf at h
    split at h
    · rename_i x' code exp row
      exact ⟨code, exp, row, by rw [beq_iff_eq.mp h]⟩
    · cases h
  · rintro ⟨code, exp, row, rfl⟩
    simp [CallEvent.createsCodeOf]

/-- A session stays overtaken until it uses the codes up again. -/
theorem overtaken_advance (hold : ¬ (u = t ∧ CallEvent.usesUpCodesOf x ⟨c, r⟩ = true)) (h : overtaken s t x = true) :
    overtaken (s.advance u c k r next) t x = true := by
  obtain ⟨entry, hmem, hentry⟩ := List.any_eq_true.mp h
  simp only [Bool.and_eq_true, List.any_eq_true] at hentry
  obtain ⟨hcommits, e, he, hcreates⟩ := hentry
  refine List.any_eq_true.mpr ⟨entry, ?_, ?_⟩
  · rw [sinceUsedUp, Sys.advance_trace, List.takeWhile_cons_of_pos (by simpa [← imp_iff_not_or] using hold)]
    exact List.mem_cons_of_mem _ hmem
  · simp only [Bool.and_eq_true, List.any_eq_true]
    exact ⟨hcommits, e, s.mem_history_advance u c k r next he, hcreates⟩

/-- The commit of another session that has created a code overtakes. -/
theorem overtaken_of_commit {r : Except Exn Unit} {k : Except Exn Unit → Py Answer} (hne : u ≠ t) (hr : r = .ok ())
    (hcreated : ∃ e ∈ s.history u, CallEvent.createsCodeOf x e = true) :
    overtaken (s.advance u .commit k r next) t x = true := by
  obtain ⟨e, he, hcreates⟩ := hcreated
  subst hr
  refine List.any_eq_true.mpr ⟨(u, ⟨.commit, .ok ()⟩), ?_, ?_⟩
  · rw [sinceUsedUp, Sys.advance_trace, List.takeWhile_cons_of_pos (by simp [CallEvent.usesUpCodesOf])]
    exact List.mem_cons_self
  · simp only [Bool.and_eq_true, List.any_eq_true, bne_iff_ne]
    exact ⟨⟨hne, rfl⟩, e, s.mem_history_advance u .commit k (.ok ()) next he, hcreates⟩

end Events

section Runs
variable {hashtext : String → Int} {settings : VkSettings} {pool : Tid → Request} {T : Tables} {s : Run}
  {cond : Move Tid World → Run → Prop} {t : Tid} {w : World} {c : Call} {r : Except Exn c.Reply} {next : Store}
  {x y : UUID} {conf : VkConfirmation}

/-- An unused version that is not committed is a new code of its holder. -/
theorem unused_created (hT : T.Wf) (hreach : Reaches hashtext cond (launch settings pool (.ofTables T)) s)
    (hp : (s.shared.confirmation y).pending = some (t, conf)) (hunused : conf.usedAt = none) :
    ∃ e ∈ s.history t, CallEvent.createsCodeOf conf.userVkId e = true := by
  refine reaches_induction (I := fun s => ∀ t conf, (s.shared.confirmation y).pending = some (t, conf) →
    conf.usedAt = none → ∃ e ∈ s.history t, CallEvent.createsCodeOf conf.userVkId e = true) hT .refl
    (fun t conf hp => ?_) ?_ ?_ hreach t conf hp hunused
  · cases (pending_cellOf_ofRows y T.vkConfirmations).symm.trans hp
  · intro s u w c k r next _ hinv _ hcalls t conf hp hunused
    have hstep := exec_confirmation hcalls.sound.keyed hcalls.exec y
    rcases hstep.pending_cases hp with ⟨hold, -⟩ | ⟨rfl, ⟨hcreates, -⟩ | ⟨conf₀, hused, -⟩⟩
    · obtain ⟨e, he, hcreates⟩ := hinv t conf hold hunused
      exact ⟨e, s.mem_history_advance u c k r next he, hcreates⟩
    · cases hcreates with
      | mk x code exp =>
        exact ⟨_, by rw [Sys.history_advance_self]; exact List.mem_cons_self, createsCodeOf_iff.mpr ⟨_, _, _, rfl⟩⟩
    · exact absurd hunused hused.used
  · intro s u hreach hinv t conf hp hunused
    have hstep := rollback_confirmation (reaches_sound hT hreach).keyed u y
    rcases hstep.pending_cases hp with ⟨hold, -⟩ | ⟨-, ⟨hcreates, -⟩ | ⟨_, hrewrites, -⟩⟩
    · exact hinv t conf hold hunused
    · exact hcreates.elim
    · exact hrewrites.elim

/-- The UPDATE takes every unused committed code of the binding. -/
theorem exec_invalidatePrevious (hs : s.shared.Keyed) {r : Except Exn Nat}
    (hc : (s.shared.confirmation y).committed = some conf) (hx : conf.userVkId = x) (hunused : conf.usedAt = none)
    (h : (database hashtext).exec t w (.confirmationInvalidatePrevious x) s.shared = some (r, next)) :
    ∃ conf', (next.confirmation y).pending = some (t, conf') ∧ conf'.Used := by
  obtain ⟨hready, change, hasks, rfl⟩ := exec_asks h
  cases hasks with
  | read hc => cases hc
  | invalidated =>
    obtain ⟨conf', hread⟩ := Cell.read_of_committed (t := t) hc
    have hcore := core_of_confirmation hs (Cell.read_mem_versions hread) (Cell.committed_mem hc)
    have hx' : conf'.userVkId = x := (congrArg (·.2.1) hcore).trans hx
    rw [Store.confirmation, acquire_vkConfirmations]
    simp only [Store.apply]
    rw [cellOf_update hs.vkConfirmations (f := used w) fun _ => rfl]
    simp only [Store.confirmation] at hread
    by_cases hused : conf'.usedAt = none
    · refine ⟨used w conf', ?_, by simp [VkConfirmation.Used, used]⟩
      simp [Cell.write, hread, unusedOf, hx', hused]
    · -- the session has used this code before
      have hp : (cellOf VkConfirmation.id y s.shared.vkConfirmations).pending = some (t, conf') := by
        refine (Cell.read_cases hread).resolve_right fun hcommitted => hused ?_
        rw [Option.some.inj (hcommitted.1.symm.trans hc), hunused]
      refine ⟨conf', ?_, hused⟩
      rw [Cell.write, hread]
      simp [unusedOf, hused, hp]

/-- Codes are used up by a session that issues or unlinks. -/
theorem usesUp_requests {request : Request} {h : CallHistory}
    (hcall : RequestCall settings request h (.confirmationInvalidatePrevious x)) :
    ∃ userId, request = .ensureBinding userId ∨ request = .issueConfirmation userId ∨ request = .unlink userId := by
  cases request with
  | ensureBinding userId | issueConfirmation userId | unlink userId => exact ⟨userId, by simp⟩
  | _ => cases hcall

theorem Bound.looks {userId : UUID} {h : CallHistory} {b : UserVk} (hb : Bound userId h b) :
    ∀ e ∈ h, e.op = .userVkGetByUserId userId ∨ e.op = .userVkCreate userId := by
  cases hb <;> simp

theorem not_ended_of_ends {h : CallHistory} (hno : ∀ e ∈ h, e.op.ends = false) : ¬ Ended h := by
  rintro ⟨e, he, hends⟩
  have hnot := hno e he
  rcases hends with h | h | h <;> simp [h, Call.ends] at hnot

/-- A session that is to create a code has used up the others and created none. -/
theorem Preparing.usedUp {userId : UUID} {h : CallHistory} {b : UserVk} (hb : Preparing userId h b) :
    (∃ e ∈ h, CallEvent.usesUpCodesOf b.id e = true) ∧ (∀ e ∈ h, CallEvent.createsCodeOf x e = false) ∧ ¬ Ended h := by
  obtain ⟨later, n, earlier, rfl, hbound, -, hlater⟩ := hb
  have hplain : ∀ e ∈ later ++ ⟨.confirmationInvalidatePrevious b.id, .ok n⟩ :: earlier, e.op.ends = false ∧
      ∀ x code exp, e.op ≠ .confirmationCreate x code exp := by
    intro e he
    rcases List.mem_append.mp he with he | he
    · rcases hlater e he with ⟨_, h⟩ | ⟨_, h⟩ | h <;> simp [h, Call.ends]
    · rcases List.mem_cons.mp he with rfl | he
      · simp [Call.ends]
      · rcases hbound.looks e he with h | h <;> simp [h, Call.ends]
  refine ⟨⟨_, List.mem_append_right _ List.mem_cons_self, usesUpCodesOf_iff.mpr ⟨n, rfl⟩⟩, fun e he => ?_, ?_⟩
  · refine Bool.eq_false_iff.mpr fun hcreates => ?_
    obtain ⟨code, exp, row, rfl⟩ := createsCodeOf_iff.mp hcreates
    exact (hplain _ he).2 x code exp rfl
  · exact not_ended_of_ends fun e he => (hplain e he).1

/-- A session that has used up codes rolls back only by ending. -/
theorem usedUp_not_rolledBack (hcalls : Calls hashtext settings pool s t w c r next)
    (he : ∃ e ∈ s.history t, CallEvent.usesUpCodesOf x e = true) (hc : c.ends = false) : ¬ RolledBack c r := by
  obtain ⟨e, hmem, huses⟩ := he
  obtain ⟨n, rfl⟩ := usesUpCodesOf_iff.mp huses
  intro hr
  obtain ⟨later, earlier, -, hearlier⟩ := (hcalls.orderly.traced t).of_mem hmem
  obtain ⟨userId, hpool⟩ := usesUp_requests hearlier
  have hallowed := hcalls.allowed
  rcases rolledBack_cases hcalls.exec hr with hends | ⟨userId', rfl⟩ | ⟨x', vkPeerId, sn, dn, rfl⟩
  · rw [hc] at hends
    cases hends
  · have hcreate : IssueCall userId (s.history t) (.userVkCreate userId') := by
      rcases hpool with hpool | hpool | hpool <;> rw [hpool] at hallowed
      · exact hallowed
      · exact hallowed
      · cases hallowed
    cases hcreate with
    | create hh =>
      rw [hh] at hmem
      cases List.mem_singleton.mp hmem
  · rcases hpool with hpool | hpool | hpool <;> rw [hpool] at hallowed <;> cases hallowed

/-- While a session that has used up the codes of a binding is open, it holds every unused
committed code of it as used, unless it has been overtaken. -/
theorem usedUp_held (hT : T.Wf) (hreach : Reaches hashtext cond (launch settings pool (.ofTables T)) s)
    (hrun : Running s t) (huses : ∃ e ∈ s.history t, CallEvent.usesUpCodesOf x e = true)
    (hfirst : overtaken s t x = false) (hc : (s.shared.confirmation y).committed = some conf) (hx : conf.userVkId = x)
    (hunused : conf.usedAt = none) :
    ∃ conf', (s.shared.confirmation y).pending = some (t, conf') ∧ conf'.Used := by
  refine reaches_induction (I := fun s => Running s t → (∃ e ∈ s.history t, CallEvent.usesUpCodesOf x e = true) →
    overtaken s t x = false → ∀ conf, (s.shared.confirmation y).committed = some conf → conf.userVkId = x →
      conf.usedAt = none → ∃ conf', (s.shared.confirmation y).pending = some (t, conf') ∧ conf'.Used) hT .refl
    (fun _ ⟨_, he, _⟩ => by cases he) ?_ ?_ hreach hrun huses hfirst conf hc hx hunused
  · intro s u w c k r next hreach hinv _ hcalls hrun huses hfirst conf hc hx hunused
    obtain ⟨hrun, hopen⟩ := hrun.before hcalls
    have hstep := exec_confirmation hcalls.sound.keyed hcalls.exec y
    rcases hstep.committed_cases with heq | ⟨conf', hcommit, hp, heq⟩
    · have hc₀ : (s.shared.confirmation y).committed = some conf := heq.symm.trans hc
      by_cases hagain : u = t ∧ CallEvent.usesUpCodesOf x ⟨c, r⟩ = true
      · obtain ⟨rfl, hagain⟩ := hagain
        obtain ⟨n, hevent⟩ := usesUpCodesOf_iff.mp hagain
        cases hevent
        exact exec_invalidatePrevious hcalls.sound.keyed hc₀ hx hunused hcalls.exec
      · obtain ⟨e, he, huses⟩ := huses
        have hold : e ∈ s.history t := by
          rcases mem_history_cases he with hold | ⟨rfl, rfl⟩
          · exact hold
          · exact absurd ⟨rfl, huses⟩ hagain
        have hfirst₀ : overtaken s t x = false := by
          cases hover : overtaken s t x with
          | false => rfl
          | true => rw [overtaken_advance hagain hover] at hfirst; cases hfirst
        obtain ⟨conf', hp, hused⟩ := hinv hrun ⟨e, hold, huses⟩ hfirst₀ conf hc₀ hx hunused
        by_cases ht : t = u
        · subst ht
          rcases hstep.own hp with ⟨conf'', hp', -, rfl | hw⟩ | ⟨hcommit, -⟩ | ⟨hr, -⟩
          · exact ⟨conf'', hp', hused⟩
          · exact ⟨conf'', hp', hw.used⟩
          · have hends := hopen rfl
            rw [show c = .commit from hcommit] at hends
            cases hends
          · exact absurd hr (usedUp_not_rolledBack hcalls ⟨e, hold, huses⟩ (hopen rfl))
        · exact ⟨conf', hstep.other hp ht ▸ hp, hused⟩
    · -- an unused code has been committed by the session that created it
      have hcommit : c = .commit := hcommit
      subst hcommit
      obtain rfl : conf' = conf := by
        rw [Sys.advance_shared, heq] at hc
        exact Option.some.inj hc
      have hne : u ≠ t := fun ht => by cases hopen ht.symm
      have hcreated := unused_created hT hreach hp hunused
      rw [hx] at hcreated
      obtain ⟨-, hreply, -⟩ := execCall_cases hcalls.exec
      rw [overtaken_of_commit hne hreply hcreated] at hfirst
      cases hfirst
  · intro s u hreach hinv hrun huses hfirst conf hc hx hunused
    obtain ⟨hrun, hne⟩ := hrun.before_drop
    have hstep := rollback_confirmation (reaches_sound hT hreach).keyed u y
    have hc₀ : (s.shared.confirmation y).committed = some conf := by
      rw [Sys.drop_shared, confirmation_rollback (reaches_sound hT hreach).keyed, Cell.committed_rollback] at hc
      exact hc
    obtain ⟨conf', hp, hused⟩ := hinv hrun huses hfirst conf hc₀ hx hunused
    exact ⟨conf', hstep.other hp hne ▸ hp, hused⟩

/-- What an open session that has used up the codes of a binding and created none sees of them
is used, unless it has been overtaken. -/
theorem usedUp_seen (hT : T.Wf) (hreach : Reaches hashtext cond (launch settings pool (.ofTables T)) s)
    (hrun : Running s t) (huses : ∃ e ∈ s.history t, CallEvent.usesUpCodesOf x e = true)
    (hnone : ∀ e ∈ s.history t, CallEvent.createsCodeOf x e = false) (hfirst : overtaken s t x = false)
    (hread : (s.shared.confirmation y).read t = some conf) (hx : conf.userVkId = x) : conf.usedAt ≠ none := by
  intro hunused
  rcases Cell.read_cases hread with hp | ⟨hc, hno⟩
  · obtain ⟨e, he, hcreates⟩ := unused_created hT hreach hp hunused
    rw [hx, hnone e he] at hcreates
    cases hcreates
  · obtain ⟨conf', hp, -⟩ := usedUp_held hT hreach hrun huses hfirst hc hx hunused
    exact hno conf' hp

/-- In every interleaving, while a session that has used up the codes of a binding is open: it
holds each unused committed code of the binding as used, and sees no unused one but a code it
has created itself, unless another session that has created one has committed since. -/
theorem used_up_codes_held (hashtext : String → Int) (settings : VkSettings) (pool : Tid → Request) (T : Tables)
    (hT : T.Wf) (s : Run) (hreach : Reaches hashtext anyMove (launch settings pool (.ofTables T)) s) (t : Tid)
    (x : UUID) (hrun : Running s t) (huses : (s.history t).any (CallEvent.usesUpCodesOf x) = true) :
    (∀ c ∈ s.shared.committed.vkConfirmations, unusedOf x c = true →
      (∃ c', (s.shared.confirmation c.id).pending = some (t, c') ∧ c'.Used) ∨ overtaken s t x = true) ∧
    ∀ c ∈ (s.shared.view t).vkConfirmations, unusedOf x c = true →
      (s.history t).any (CallEvent.createsCodeOf x) = true ∨ overtaken s t x = true := by
  have hkeyed := (reaches_sound hT hreach).keyed
  have huses := List.any_eq_true.mp huses
  refine ⟨fun c hc hunused => ?_, fun c hc hunused => ?_⟩
  · simp only [unusedOf, Bool.and_eq_true, beq_iff_eq, Option.isNone_iff_eq_none] at hunused
    by_cases hover : overtaken s t x = true
    · exact .inr hover
    · exact .inl (usedUp_held hT hreach hrun huses (Bool.eq_false_iff.mpr hover) ((committed_confirmation hkeyed).mp hc)
        hunused.1 hunused.2)
  · simp only [unusedOf, Bool.and_eq_true, beq_iff_eq, Option.isNone_iff_eq_none] at hunused
    by_contra hnot
    rw [not_or] at hnot
    exact usedUp_seen hT hreach hrun huses
      (fun e he => Bool.eq_false_iff.mpr fun hcreates => hnot.1 (List.any_eq_true.mpr ⟨e, he, hcreates⟩))
      (Bool.eq_false_iff.mpr hnot.2) ((mem_view_iff hkeyed.vkConfirmations).mp hc) hunused.1 hunused.2

end Runs

section Example

/-- Session 0 issues a code, every other one removes the binding. -/
def issuedAndUnlinked : Tid → Request
  | 0 => .issueConfirmation 1
  | _ => .unlink 1

/-- Session 0 has used up the code, and session 1 has read the binding. -/
def usedUpMeanwhile : Option Run :=
  (database fun _ => 0).runMoves (List.replicate 2 (.step 0 (.still 0)) ++ [.step 1 (.still 0)])
    (launch .least issuedAndUnlinked (.ofTables onePending))

private theorem usedUpMeanwhile_isSome : usedUpMeanwhile.isSome = true := by decide +kernel

private theorem usedUpMeanwhile_open : ∀ e ∈ (usedUpMeanwhile.get usedUpMeanwhile_isSome).history 0,
    e.op.ends = false := by
  decide +kernel

theorem used_up_codes_held_meanwhile :
    ∃ c', ((usedUpMeanwhile.get usedUpMeanwhile_isSome).shared.confirmation 7).pending = some (0, c') ∧ c'.Used :=
  ((used_up_codes_held (fun _ => 0) .least issuedAndUnlinked onePending onePending_wf _
    (reach_of_runMoves _ (Option.some_get usedUpMeanwhile_isSome).symm) 0 1
    ⟨not_ended_of_ends usedUpMeanwhile_open, _, rfl⟩
    (by decide +kernel)).1 ⟨7, 1, "AAAA".toList, 100, 0, none⟩ (by decide +kernel) (by decide)).resolve_right
    (by decide +kernel)

end Example
end VkService
