import Mathlib.Data.List.Perm.Subperm
import VkService.Concurrent.UsedUp
import VkService.Concurrent.Views
import VkService.Storage.Dependents

/-! Whether the usable codes go with their bindings. Issuing, removing and confirming each read
the binding, change the codes and change the binding in separate statements, so two of them
can cross. The codes stay consistent when each session writes while what it has read before is
still so: no other session has come between its reads and its writes. -/
namespace VkService
open PyStr Effects Effects.Machine RowStore UserVkRepository VkConfirmationRepository

/-- A binding that awaits its confirmation. -/
def UserVk.awaits (r : UserVk) : Bool := r.live && r.state == .pending

/-- A row has at most one unused code, and only a live pending row has one. -/
structure CodesUsable (T : Tables) : Prop where
  single : ∀ r ∈ T.userVks, T.vkConfirmations.countP (unusedOf r.id) ≤ 1
  pending : ∀ c ∈ T.vkConfirmations, c.usedAt = none →
    ∃ r ∈ T.userVks, r.id = c.userVkId ∧ r.live = true ∧ r.state = .pending

/-- The code is the one that a confirmation presents. -/
def Request.presents (c : VkConfirmation) : Request → Bool
  | .confirm code _ _ _ => c.code == normalizeCode code
  | _ => false

/-- Since `t` used up the codes of the binding no other session has committed a new one, and
none holds one. -/
def stillUsedUp (s : Run) (t : Tid) (x : UUID) : Bool :=
  !overtaken s t x && !heldByOthers t (unusedOf x) s.shared.vkConfirmations

/-- What a session has read is still so when it writes. A code is created while the codes of the
binding are still used up and the binding is pending, as it was read; a binding is activated
while the code that was read is unused and held by nobody else; and the binding removed is the
one whose codes the session has used up, and they still are. -/
def keepsUsable (pool : Tid → Request) : Move Tid World → Run → Bool
  | .step t _, s =>
    let seen := s.shared.view t
    match s.prog t with
    | some (.call (.confirmationCreate x _ _) _) =>
      stillUsedUp s t x && (seen.userVks.any fun r => r.id == x && r.awaits) &&
        !heldByOthers t (fun r => r.id == x && !r.awaits) s.shared.userVks
    | some (.call (.userVkActivate ..) _) =>
      (seen.vkConfirmations.any fun c => (pool t).presents c && c.usedAt.isNone) &&
        !heldByOthers t (pool t).presents s.shared.vkConfirmations
    | some (.call (.userVkSoftDelete userId) _) =>
      seen.userVks.all fun r => !liveOfUser userId r ||
        (s.history t).any (CallEvent.usesUpCodesOf r.id) && stillUsedUp s t r.id
    | _ => true
  | .kill _, _ => true

abbrev KeepsUsable (pool : Tid → Request) (m : Move Tid World) (s : Run) : Prop := keepsUsable pool m s = true

/-- The requests that issue, remove and use codes. -/
inductive Request.HandlesCodes : Request → Prop
  | issueConfirmation (userId : UUID) : HandlesCodes (.issueConfirmation userId)
  | unlink (userId : UUID) : HandlesCodes (.unlink userId)
  | confirm (code : Str) (vkPeerId : PeerId) (sn dn : Option String) : HandlesCodes (.confirm code vkPeerId sn dn)

/-- Codes depend on bindings: an unused code on one that awaits it. -/
def codesOfBindings : Dependency UserVk VkConfirmation UUID where
  isOpen r := r.awaits = true
  live c := c.usedAt = none
  owner c := c.userVkId

/-- The session has activated the binding of this code just now and is to mark the code. -/
def Activating (pool : Tid → Request) (s : Run) (t : Tid) (c : VkConfirmation) : Prop :=
  ∃ code vkPeerId sn dn x vkPeerId' sn' dn' row h, pool t = .confirm code vkPeerId sn dn ∧
    s.history t = ⟨.userVkActivate x vkPeerId' sn' dn', .ok row⟩ :: h ∧ c.code = normalizeCode code

/-- The codes fit the bindings, committed and as every transaction sees them. -/
abbrev UsableFit (pool : Tid → Request) (s : Run) : Prop :=
  codesOfBindings.Fitting s.shared.userVk s.shared.confirmation (Activating pool s)

section Runs
variable {hashtext : String → Int} {settings : VkSettings} {pool : Tid → Request} {T : Tables} {s : Run}
  {cond : Move Tid World → Run → Prop} {t : Tid} {w : World} {c : Call} {k : Except Exn c.Reply → Py Answer}
  {r : Except Exn c.Reply} {next : Store} {conf : VkConfirmation}

theorem unusedOf_iff {x : UUID} : unusedOf x conf = true ↔ conf.userVkId = x ∧ conf.usedAt = none := by
  simp [unusedOf]

/-- After its activation a session marks a code it has looked up, or ends. -/
theorem Activating.goes_on (hcalls : Calls hashtext settings pool s t w c r next) (h : Activating pool s t conf) :
    (∃ code vkPeerId sn dn c₀ b, pool t = .confirm code vkPeerId sn dn ∧ conf.code = normalizeCode code ∧
      ConfirmAt settings code vkPeerId sn dn (s.history t) (.activated c₀ b) ∧ c = .confirmationMarkUsed c₀.id) ∨
      c.ends = true := by
  obtain ⟨code, vkPeerId, sn, dn, x, vkPeerId', sn', dn', row, h, hpool, hhistory, hcode⟩ := h
  have hallowed := hcalls.allowed
  rw [hpool] at hallowed
  cases hallowed with
  | commit | close => exact .inr rfl
  | markUsed hat => exact .inl ⟨code, vkPeerId, sn, dn, _, _, hpool, hcode, hat, rfl⟩
  | log _ hat hs =>
    rw [hhistory] at hat
    cases hat
    cases hs
  | check hat | count hat | lookup hat | load hat | reread hat | peer hat | activate hat =>
    rw [hhistory] at hat
    cases hat

/-- A session does not commit between its activation and its mark. -/
theorem Activating.not_commit (hT : T.Wf) (hreach : Reaches hashtext cond (launch settings pool (.ofTables T)) s)
    {r : Except Exn Unit} (hcalls : Calls hashtext settings pool s t w .commit r next) :
    ¬ Activating pool s t conf := by
  rintro ⟨code, vkPeerId, sn, dn, x, vkPeerId', sn', dn', row, h, hpool, hhistory, -⟩
  have htraced := hcalls.orderly.traced t
  rw [hhistory, hpool] at htraced
  have hallowed := hcalls.allowed
  rw [hpool] at hallowed
  cases hallowed with
  | commit hrun hused =>
    cases htraced with
    | cons _ _ hactivate =>
      cases hactivate with
      | @activate c₀ b hat =>
        refine hused (reaches_honest hT hreach t) c₀ b ⟨[], s.history t, rfl, by simp [Closing], ?_⟩
        rw [hhistory]
        exact .activated row hat

/-- Once the session has marked its code, it sees it as used. -/
theorem marked_not_unused (hT : T.Wf) (hreach : Reaches hashtext cond (launch settings pool (.ofTables T)) s)
    {code : Str} {vkPeerId : PeerId} {sn dn : Option String} (hpool : pool t = .confirm code vkPeerId sn dn) {y : UUID}
    {r : Except Exn Unit} (hcalls : Calls hashtext settings pool s t w (.confirmationMarkUsed y) r next)
    (hcode : conf.code = normalizeCode code) {z : UUID} (hread : (next.confirmation z).read t = some conf) :
    conf.usedAt ≠ none := by
  have hallowed := hcalls.allowed
  rw [hpool] at hallowed
  obtain ⟨c₀, b, rfl, hat⟩ := ConfirmCall.marking hallowed
  obtain ⟨-, hcode₀, c₁, hcommitted, hcore⟩ := codesRead hT hreach t code vkPeerId sn dn _ c₀ hpool (hat.looked rfl)
  have hkeyed := hcalls.sound.keyed
  have hkeyed' := hkeyed.exec hcalls.exec
  obtain ⟨c₂, hp, hused⟩ := exec_markUsed hkeyed hcommitted hcalls.exec
  -- the version it has written is that of the code it presents, as every version of its cell
  have hsame : c₂.core = c₁.core := by
    obtain ⟨c₃, hc₃, hcommitted'⟩ := (exec_confirmation hkeyed hcalls.exec c₀.id).committed_stays hcommitted
    rw [core_of_confirmation hkeyed' (Cell.pending_mem hp) (Cell.committed_mem hcommitted'),
      core_of_confirmation hkeyed hc₃ (Cell.committed_mem hcommitted)]
  have hcode₂ : c₂.code = conf.code := by
    rw [show c₂.code = c₁.code from congrArg (·.2.2.1) hsame, show c₁.code = c₀.code from congrArg (·.2.2.1) hcore, hcode₀,
      hcode]
  have hid : z = c₀.id := by
    have hview := (view_of_cell hkeyed'.vkConfirmations hread)
    have hpending := Cell.read_of_pending hp
    have hcores := core_of_code hkeyed' (versions_of_view (view_of_cell hkeyed'.vkConfirmations hpending).1)
      (versions_of_view hview.1) hcode₂
    rw [← hview.2, ← (view_of_cell hkeyed'.vkConfirmations hpending).2]
    exact (congrArg (·.1) hcores).symm
  subst hid
  rw [Cell.read_of_pending hp] at hread
  exact Option.some.inj hread ▸ hused

section Conditions
variable (hs : s.shared.Keyed)
include hs

theorem noItems_of_not_held {x : UUID} (hno : heldByOthers t (unusedOf x) s.shared.vkConfirmations = false) :
    codesOfBindings.NoItems t s.shared.confirmation x := by
  intro t' hne y conf hp hunused hx
  obtain rfl := id_of_confirmation hs (Cell.pending_mem hp)
  have hnot := not_heldByOthers hno hne ((held_iff hs.vkConfirmations).mpr hp)
  rw [unusedOf_iff.mpr ⟨hx, hunused⟩] at hnot
  cases hnot

theorem noClosed_of_not_held {x : UUID}
    (hno : heldByOthers t (fun row => row.id == x && !row.awaits) s.shared.userVks = false) :
    codesOfBindings.NoClosed t s.shared.userVk x := by
  intro t' hne row hp
  obtain rfl := id_of_userVk hs (Cell.pending_mem hp)
  have hnot := not_heldByOthers hno hne ((held_iff hs.userVks).mpr hp)
  show row.awaits = true
  simpa using hnot

end Conditions

section Stale
variable (hT : T.Wf) (hreach : Reaches hashtext (KeepsUsable pool) (launch settings pool (.ofTables T)) s)
  (hcond : KeepsUsable pool (.step t w) s)
include hT hreach hcond

/-- A session that creates a code has used up the others: it sees no unused one, and the binding
awaits the new one. -/
theorem KeepsUsable.creates {x : UUID} {code : Str} {expiresAt : Time} {r : Except Exn VkConfirmation}
    (hcalls : Calls hashtext settings pool s t w (.confirmationCreate x code expiresAt) r next) :
    (∀ row, (s.shared.userVk x).read t = some row → row.awaits = true) ∧
      (∀ y conf, (s.shared.confirmation y).read t = some conf → conf.usedAt = none → conf.userVkId ≠ x) ∧
      codesOfBindings.NoClosed t s.shared.userVk x ∧ codesOfBindings.NoItems t s.shared.confirmation x := by
  have hs := hcalls.sound.keyed
  obtain ⟨k, hp⟩ := hcalls.running
  obtain ⟨userId, b, rfl, hprepared⟩ : ∃ userId b, b.id = x ∧ Preparing userId (s.history t) b := by
    have hallowed := hcalls.allowed
    cases hpool : pool t <;> rw [hpool] at hallowed <;> cases hallowed <;> exact ⟨_, _, rfl, ‹_›⟩
  obtain ⟨huses, hnone, hopen⟩ := hprepared.usedUp (x := b.id)
  simp only [KeepsUsable, keepsUsable, hp, stillUsedUp, Bool.and_eq_true, Bool.not_eq_true', List.any_eq_true,
    beq_iff_eq] at hcond
  obtain ⟨⟨⟨hfirst, hunused⟩, row, hview, hid, hawaits⟩, hclosed⟩ := hcond
  refine ⟨fun row' hread => ?_, fun y conf hread hlive hx =>
    usedUp_seen hT hreach ⟨hopen, _, hp⟩ huses hnone hfirst hread hx hlive, noClosed_of_not_held hs hclosed,
    noItems_of_not_held hs hunused⟩
  rw [← hid, Store.userVk, (mem_view_iff hs.userVks).mp hview] at hread
  exact Option.some.inj hread ▸ hawaits

/-- A binding is activated with the one unused code that it has. -/
theorem KeepsUsable.activates (hfit : UsableFit pool s) {x : UUID} {vkPeerId : PeerId} {sn dn : Option String}
    {r : Except Exn UserVk} (hcalls : Calls hashtext settings pool s t w (.userVkActivate x vkPeerId sn dn) r next) :
    (∀ y conf, (s.shared.confirmation y).read t = some conf → conf.usedAt = none → conf.userVkId = x →
      (pool t).presents conf = true) ∧ codesOfBindings.NoItems t s.shared.confirmation x := by
  have hs := hcalls.sound.keyed
  obtain ⟨k, hp⟩ := hcalls.running
  obtain ⟨code, peer, sn₀, dn₀, hpool⟩ : ∃ code peer sn₀ dn₀, pool t = .confirm code peer sn₀ dn₀ := by
    have hallowed := hcalls.allowed
    cases hpool : pool t <;> rw [hpool] at hallowed <;> first | exact ⟨_, _, _, _, rfl⟩ | cases hallowed
  have hallowed := hcalls.allowed
  rw [hpool] at hallowed
  obtain ⟨c₁, b, hid, -, hat⟩ := ConfirmCall.activating hallowed
  obtain ⟨-, hcode₁, c₂, hcommitted, hcore⟩ := codesRead hT hreach t code peer sn₀ dn₀ _ c₁ hpool (hat.looked rfl)
  simp only [KeepsUsable, keepsUsable, hp, hpool, Request.presents, Bool.and_eq_true, Bool.not_eq_true', List.any_eq_true,
    beq_iff_eq, Option.isNone_iff_eq_none] at hcond
  obtain ⟨⟨c₀, hview, hcode₀, hunused₀⟩, hheld⟩ := hcond
  -- the session has written nothing yet: the code that it sees is committed
  have hidle := confirm_idle hcalls.orderly hcalls.sound.owned hpool (hat.not_writes rfl)
  have hidle' : ∀ {y v}, (s.shared.confirmation y).pending ≠ some (t, v) := fun {y v} hv =>
    hidle.2 v ((held_iff hs.vkConfirmations).mpr (id_of_confirmation hs (Cell.pending_mem hv) ▸ hv))
  have hread₀ : (s.shared.confirmation c₀.id).read t = some c₀ := (mem_view_iff hs.vkConfirmations).mp hview
  have hcommitted₀ : (s.shared.confirmation c₀.id).committed = some c₀ :=
    (Cell.read_of_not_pending fun _ => hidle').symm.trans hread₀
  have hread₂ : (s.shared.confirmation c₁.id).read t = some c₂ :=
    (Cell.read_of_not_pending fun _ => hidle').trans hcommitted
  have hsame : c₀.core = c₂.core := core_of_code hs (versions_of_view hview)
    (versions_of_view (view_of_cell hs.vkConfirmations hread₂).1)
    (hcode₀.trans (hcode₁.symm.trans (congrArg (·.2.2.1) hcore).symm))
  have howner : c₀.userVkId = x := ((congrArg (·.2.1) hsame).trans (congrArg (·.2.1) hcore)).trans hid
  refine ⟨fun y conf hread hlive hx => ?_, fun t' hne y conf hp' hlive hx => ?_⟩
  · have hy := (hfit.seen t).single hread hlive hread₀ hunused₀ (hx.trans howner.symm)
    rw [hy] at hread
    obtain rfl := Option.some.inj (hread₀.symm.trans hread)
    simpa [hpool, Request.presents] using hcode₀
  · -- whoever holds another unused code of the binding holds this one too
    have hfree : ∀ v, (s.shared.confirmation c₀.id).pending ≠ some (t', v) := by
      intro v hv
      have hcodeV : v.code = c₀.code := congrArg (·.2.2.1) (core_of_confirmation hs (Cell.pending_mem hv)
        (Cell.committed_mem hcommitted₀))
      have hidV := id_of_confirmation hs (Cell.pending_mem hv)
      have hnot := not_heldByOthers hheld hne ((held_iff hs.vkConfirmations).mpr (hidV.symm ▸ hv))
      simp [hcodeV, hcode₀] at hnot
    have hread' : (s.shared.confirmation c₀.id).read t' = some c₀ := (Cell.read_of_not_pending hfree).trans hcommitted₀
    have hy := (hfit.seen t').single (Cell.read_of_pending hp') hlive hread' hunused₀ (hx.trans howner.symm)
    exact hfree conf (hy ▸ hp')

/-- The binding that is removed has no unused code. -/
theorem KeepsUsable.deletes {userId x : UUID} {r : Except Exn Bool}
    (hcalls : Calls hashtext settings pool s t w (.userVkSoftDelete userId) r next) {row : UserVk}
    (hrow : (s.shared.userVk x).read t = some row) (huser : row.userId = userId) (hlive : row.live = true) :
    (∀ y conf, (s.shared.confirmation y).read t = some conf → conf.usedAt = none → conf.userVkId ≠ x) ∧
      codesOfBindings.NoItems t s.shared.confirmation x := by
  have hs := hcalls.sound.keyed
  obtain ⟨k, hp⟩ := hcalls.running
  obtain ⟨b, n, hh⟩ : ∃ b n, s.history t = [⟨.confirmationInvalidatePrevious b.id, .ok n⟩,
      ⟨.userVkGetByUserId userId, .ok (some b)⟩] := by
    have hallowed := hcalls.allowed
    cases hpool : pool t <;> rw [hpool] at hallowed <;> cases hallowed
    exact ⟨_, _, ‹_›⟩
  have hnone : ∀ e ∈ s.history t, CallEvent.createsCodeOf x e = false := by
    rw [hh]
    simp [CallEvent.createsCodeOf]
  have hopen : ¬ Ended (s.history t) := by
    rw [hh]
    exact not_ended_of_ends (by simp [Call.ends])
  obtain ⟨hview, rfl⟩ := view_of_cell hs.userVks hrow
  simp only [KeepsUsable, keepsUsable, hp, stillUsedUp, List.all_eq_true] at hcond
  have hfree := hcond row hview
  simp only [liveOfUser, huser, hlive, BEq.rfl, Bool.and_self, Bool.not_true, Bool.false_or, Bool.and_eq_true,
    Bool.not_eq_true'] at hfree
  obtain ⟨huses, hfirst, hunused⟩ := hfree
  exact ⟨fun y conf hread hunused hx => usedUp_seen hT hreach ⟨hopen, _, hp⟩
    (List.any_eq_true.mp huses) hnone hfirst hread hx
    hunused, noItems_of_not_held hs hunused⟩

end Stale

/-- No request of these sets a state alone. -/
theorem Request.HandlesCodes.not_setState {request : Request} (hrequest : request.HandlesCodes) {h : CallHistory}
    {x : UUID} {state : BindingState} : ¬ RequestCall settings request h (.userVkSetState x state) := by
  intro hcall
  cases hrequest <;> cases hcall

theorem not_ends (hcommit : c ≠ .commit) (hroll : ¬ RolledBack c r) : ¬ c.ends = true := by
  intro hends
  cases c with
  | commit => exact hcommit rfl
  | rollback => exact hroll (.inl rfl)
  | close => exact hroll (.inr (.inl rfl))
  | _ => cases hends

section Step
variable (hpool : ∀ t, (pool t).HandlesCodes) (hT : T.Wf)
  (hreach : Reaches hashtext (KeepsUsable pool) (launch settings pool (.ofTables T)) s)
  (hfit : UsableFit pool s) (hcond : KeepsUsable pool (.step t w) s)
  (hcalls : Calls hashtext settings pool s t w c r next) (hcommit : c ≠ .commit) (hroll : ¬ RolledBack c r)
include hpool hT hreach hfit hcond hcalls hcommit hroll

/-- After a step that does not end its transaction, the session sees what fits. -/
theorem seen_fits : codesOfBindings.Fits (fun x => (next.userVk x).read t) (fun y => (next.confirmation y).read t)
    (Activating pool (s.advance t c k r next) t) := by
  have hkeyed := hcalls.sound.keyed
  obtain ⟨k', hp⟩ := hcalls.running
  have hconf : ∀ {y conf}, (next.confirmation y).read t = some conf → (s.shared.confirmation y).read t = some conf ∨
      CreatesConfirmation w y c r conf ∨ ∃ conf₀, UsesUp w conf₀ c r conf ∧
      (s.shared.confirmation y).read t = some conf₀ :=
    fun hread => (exec_confirmation hkeyed hcalls.exec _).read_self hcommit hroll hread
  have hrow : ∀ {x row}, (next.userVk x).read t = some row → (s.shared.userVk x).read t = some row ∨
      CreatesUserVk w x c r row ∨ ∃ row₀, RewritesUserVk w row₀ c r row ∧ (s.shared.userVk x).read t = some row₀ :=
    fun hread => (exec_userVk hkeyed hcalls.exec _).read_self hcommit hroll hread
  refine ⟨fun {y conf row} hc hlive hr => ?_, fun {y y' conf conf'} hc hlive hc' hlive' howner => ?_⟩
  · rcases hconf hc with hold | hcreated | ⟨conf₀, hused, -⟩
    · rcases hrow hr with hrow | hcreated | ⟨row₀, hrewritten, hrow₀⟩
      · rcases (hfit.seen t).belongs hold hlive hrow with hopen | hactivating
        · exact .inl hopen
        · rcases hactivating.goes_on hcalls with ⟨code, peer, sn, dn, c₀, b, hpool', hcode, -, rfl⟩ | hends
          · exact absurd hlive (marked_not_unused hT hreach hpool' hcalls hcode hc)
          · exact absurd hends (not_ends hcommit hroll)
      · cases hcreated
        exact .inl rfl
      · have hid : row₀.id = conf.userVkId := (view_of_cell hkeyed.userVks hrow₀).2
        cases hrewritten with
        | activated _ vkPeerId sn dn =>
          -- the code that is still unused is the one it presents, and it is to mark it
          have hpresents := (hcond.activates hT hreach hfit hcalls).1 y conf hold hlive hid.symm
          right
          generalize hrequest : pool t = request at hpresents
          cases request with
          | confirm code peer sn₀ dn₀ =>
            refine ⟨code, peer, sn₀, dn₀, row₀.id, vkPeerId, sn, dn, activated w vkPeerId sn dn row₀, s.history t, hrequest,
              Sys.history_advance_self .., ?_⟩
            simpa [Request.presents] using hpresents
          | _ => cases hpresents
        | stateSet => exact absurd hcalls.allowed (hpool t).not_setState
        | softDeleted hlive₀ =>
          exact absurd rfl ((hcond.deletes hT hreach hcalls hrow₀ rfl hlive₀).1 y conf hold hlive)
    · cases hcreated with
      | mk x code expiresAt =>
        rcases hrow hr with hrow | hcreated | ⟨row₀, hrewritten, -⟩
        · exact .inl ((hcond.creates hT hreach hcalls).1 row hrow)
        · cases hcreated
        · cases hrewritten
    · exact absurd hlive hused.used
  · rcases hconf hc with hold | hcreated | ⟨conf₀, hused, -⟩
    · rcases hconf hc' with hold' | hcreated' | ⟨conf₀, hused, -⟩
      · exact (hfit.seen t).single hold hlive hold' hlive' howner
      · cases hcreated' with
        | mk x code expiresAt => exact absurd howner ((hcond.creates hT hreach hcalls).2.1 y conf hold hlive)
      · exact absurd hlive' hused.used
    · rcases hconf hc' with hold' | hcreated' | ⟨conf₀, hused, -⟩
      · cases hcreated with
        | mk x code expiresAt => exact absurd howner.symm ((hcond.creates hT hreach hcalls).2.1 y' conf' hold' hlive')
      · cases hcreated
        cases hcreated'
        rfl
      · exact absurd hlive' hused.used
    · exact absurd hlive hused.used

/-- Such a step keeps the codes fitting. -/
theorem usableFit_step : UsableFit pool (s.advance t c k r next) := by
  have hkeyed := hcalls.sound.keyed
  obtain ⟨k', hp⟩ := hcalls.running
  refine hfit.step (fun x => (exec_userVk hkeyed hcalls.exec x).byOne hcommit)
    (fun y => (exec_confirmation hkeyed hcalls.exec y).byOne hcommit) (fun t' hne conf => ?_)
    (seen_fits hpool hT hreach hfit hcond hcalls hcommit hroll) (fun x row hpending => ?_)
    (fun y conf hpending hlive => ?_)
  · rintro ⟨code, peer, sn, dn, x, peer', sn', dn', row, h, hpool', hhistory, hcode⟩
    refine ⟨code, peer, sn, dn, x, peer', sn', dn', row, h, hpool', ?_, hcode⟩
    rw [Sys.history_advance_ne _ _ _ _ _ _ hne, hhistory]
  · rcases (exec_userVk hkeyed hcalls.exec x).pending_cases hpending with ⟨hold, -⟩ |
      ⟨-, ⟨hcreated, -⟩ | ⟨row₀, hrewritten,
      hrow₀, -⟩⟩
    · exact .inr (.inl hold)
    · cases hcreated
      exact .inl rfl
    · have hid : row₀.id = x := (view_of_cell hkeyed.userVks hrow₀).2
      cases hrewritten with
      | activated => exact .inr (.inr (hid ▸ (hcond.activates hT hreach hfit hcalls).2))
      | stateSet => exact absurd hcalls.allowed (hpool t).not_setState
      | softDeleted hlive₀ => exact .inr (.inr (hcond.deletes hT hreach hcalls hrow₀ rfl hlive₀).2)
  · rcases (exec_confirmation hkeyed hcalls.exec y).pending_cases hpending with ⟨hold, -⟩ |
      ⟨-, ⟨hcreated, -⟩ | ⟨conf₀, hused,
      -⟩⟩
    · exact .inl hold
    · cases hcreated with
      | mk x code expiresAt => exact .inr (hcond.creates hT hreach hcalls).2.2
    · exact absurd hlive hused.used

end Step

theorem countP_le_one {α : Type} {p : α → Bool} {l : List α} (hnodup : l.Nodup)
    (hone : ∀ a ∈ l, ∀ b ∈ l, p a = true → p b = true → a = b) : l.countP p ≤ 1 := by
  induction l with
  | nil => simp
  | cons a l ih =>
    obtain ⟨ha, hnodup⟩ := List.nodup_cons.mp hnodup
    by_cases hp : p a = true
    · have hzero : l.countP p = 0 := List.countP_eq_zero.mpr fun b hb hpb =>
        ha (hone a (by simp) b (by simp [hb]) hp hpb ▸ hb)
      rw [List.countP_cons_of_pos hp, hzero]
    · rw [List.countP_cons_of_neg hp]
      exact ih hnodup fun b hb c hc => hone b (by simp [hb]) c (by simp [hc])

theorem CodesUsable.fits (hT : T.Wf) (hstart : CodesUsable T) : codesOfBindings.Fits
    (fun x => ((Store.ofTables T).userVk x).committed) (fun y => ((Store.ofTables T).confirmation y).committed)
      fun _ => False := by
  have hkeyed := Store.keyed_ofTables hT
  have hconf : ∀ {y conf}, ((Store.ofTables T).confirmation y).committed = some conf →
      conf ∈ T.vkConfirmations ∧ conf.id = y := by
    intro y conf hc
    obtain rfl := id_of_confirmation hkeyed (Cell.committed_mem hc)
    have hmem := (committed_confirmation hkeyed).mpr hc
    rw [Store.committed_ofTables] at hmem
    exact ⟨hmem, rfl⟩
  refine ⟨fun {y conf row} hc hlive hr => .inl ?_, fun {y y' conf conf'} hc hlive hc' hlive' howner => ?_⟩
  · obtain ⟨hmem, -⟩ := hconf hc
    obtain ⟨row', hrow', hid, hrowlive, hpending⟩ := hstart.pending conf hmem hlive
    have hread : ((Store.ofTables T).userVk row'.id).committed = some row' :=
      (committed_userVk hkeyed).mp (by rwa [Store.committed_ofTables])
    rw [hid] at hread
    obtain rfl := Option.some.inj (hread.symm.trans hr)
    simp [codesOfBindings, UserVk.awaits, hrowlive, hpending]
  · obtain ⟨hmem, rfl⟩ := hconf hc
    obtain ⟨hmem', rfl⟩ := hconf hc'
    obtain ⟨row, hrow, hid, -, -⟩ := hstart.pending conf hmem hlive
    -- two unused codes of one row would both be counted
    by_contra hne
    have hsub : [conf, conf'].Subperm T.vkConfirmations :=
      List.subperm_of_subset (by simpa using fun h => hne (congrArg (·.id) h)) (by simp [hmem, hmem'])
    have htwo := hsub.countP_le (unusedOf row.id)
    have hunused : unusedOf row.id conf = true := unusedOf_iff.mpr ⟨hid.symm, hlive⟩
    have hunused' : unusedOf row.id conf' = true := unusedOf_iff.mpr ⟨howner.symm.trans hid.symm, hlive'⟩
    rw [List.countP_cons_of_pos hunused, List.countP_cons_of_pos hunused'] at htwo
    have hone := hstart.single row hrow
    omega

/-- The codes go on fitting the bindings, committed and as every transaction sees them. -/
theorem usableFit (hpool : ∀ t, (pool t).HandlesCodes) (hT : T.Wf) (hstart : CodesUsable T)
    (hreach : Reaches hashtext (KeepsUsable pool) (launch settings pool (.ofTables T)) s) : UsableFit pool s := by
  refine reaches_induction (I := UsableFit pool) hT .refl ?_ ?_ ?_ hreach
  · exact .of_unheld (fun x => pending_cellOf_ofRows x _) (fun y => pending_cellOf_ofRows y _) (hstart.fits hT)
  · intro s t w c k r next hreach hfit hcond hcalls
    have hkeyed := hcalls.sound.keyed
    have hothers : ∀ t' ≠ t, ∀ conf, Activating pool s t' conf → Activating pool (s.advance t c k r next) t' conf := by
      rintro t' hne conf ⟨code, peer, sn, dn, x, peer', sn', dn', row, h, hpool', hhistory, hcode⟩
      refine ⟨code, peer, sn, dn, x, peer', sn', dn', row, h, hpool', ?_, hcode⟩
      rw [Sys.history_advance_ne _ _ _ _ _ _ hne, hhistory]
    by_cases hcommit : c = .commit
    · subst hcommit
      have hfit' := hfit.commit (t := t) (fun conf => Activating.not_commit hT hreach hcalls) hothers
      rw [UsableFit, Sys.advance_shared, exec_commit hcalls.exec, funext (userVk_commit hkeyed t),
        funext (confirmation_commit hkeyed t)]
      exact hfit'
    by_cases hroll : RolledBack c r
    · rw [UsableFit, Sys.advance_shared, exec_rolledBack hcalls.exec hroll, funext (userVk_rollback hkeyed t),
        funext (confirmation_rollback hkeyed t)]
      exact hfit.rollback hothers
    · exact usableFit_step hpool hT hreach hfit hcond hcalls hcommit hroll
  · intro s t hreach hfit
    have hkeyed := (reaches_sound hT hreach).keyed
    rw [UsableFit, Sys.drop_shared, funext (userVk_rollback hkeyed t), funext (confirmation_rollback hkeyed t)]
    exact hfit.rollback fun t' _ conf h => h

end Runs

/-- When every session writes while what it has read is still so, the committed rows have at most
one unused code each, and only live pending rows have one, in every state of every run. -/
theorem usable_codes_kept (hashtext : String → Int) (settings : VkSettings) (pool : Tid → Request)
    (hpool : ∀ t, (pool t).HandlesCodes) (T : Tables) (hT : T.Wf) (hstart : CodesUsable T) (s : Run)
    (hreach : Reaches hashtext (KeepsUsable pool) (launch settings pool (.ofTables T)) s) :
    CodesUsable s.shared.committed := by
  have hfits := (usableFit hpool hT hstart hreach).committed
  have hlawful := reaches_lawful hT hreach
  have hcell : ∀ {conf}, conf ∈ s.shared.committed.vkConfirmations →
      (s.shared.confirmation conf.id).committed = some conf := (committed_confirmation hlawful.keyed).mp
  refine ⟨fun row _ => ?_, fun conf hconf hunused => ?_⟩
  · refine countP_le_one (List.Nodup.of_map _ hlawful.committed_wf.confirmationIds) fun conf hconf conf' hconf' hp hp' => ?_
    rw [unusedOf_iff] at hp hp'
    have hid := hfits.single (hcell hconf) hp.2 (hcell hconf') hp'.2 (hp.1.trans hp'.1.symm)
    exact Option.some.inj ((hcell hconf).symm.trans (hid ▸ hcell hconf'))
  · obtain ⟨row, hrow⟩ := hlawful.committedKey _ conf (hcell hconf)
    have hid := id_of_userVk hlawful.keyed (Cell.committed_mem hrow)
    have hawaits : row.awaits = true := (hfits.belongs (hcell hconf) hunused hrow).resolve_right id
    simp only [UserVk.awaits, Bool.and_eq_true, beq_iff_eq] at hawaits
    exact ⟨row, (committed_userVk hlawful.keyed).mpr (hid.symm ▸ hrow), hid, hawaits.1, hawaits.2⟩

section Example

/-- Every session issues a code for one user. -/
def allIssue : Tid → Request := fun _ => .issueConfirmation 1

theorem allIssue_handlesCodes (t : Tid) : (allIssue t).HandlesCodes := .issueConfirmation 1

/-- A pending binding without a code. -/
def pendingOnly : Tables where
  userVks := [⟨1, 1, none, .pending, none, none, none, 0, 0⟩]
  vkConfirmations := []
  vkLogs := []
  vkNotificationDeliveries := []

/-- Both sessions find nothing to invalidate, draw different codes and issue them. -/
def bothIssued : Option Run :=
  (database fun _ => 0).runMoves
    (List.replicate 2 (.step 0 (.still 0)) ++ List.replicate 2 (.step 1 (.still 0)) ++
      List.replicate 7 (.step 0 (.still 0)) ++ List.replicate 7 (.step 1 (.drawing World.second 0)))
    (launch .least allIssue (.ofTables pendingOnly))

private theorem bothIssued_isSome : bothIssued.isSome = true := by decide +kernel

private theorem bothIssued_sessions :
    ∀ entry ∈ (bothIssued.get bothIssued_isSome).trace, entry.1 = 0 ∨ entry.1 = 1 := by
  decide +kernel

/-- Two overlapping issues leave two usable codes of one binding, with no call in progress. -/
theorem issues_overlap : CodesUsable pendingOnly ∧ (∀ t, (allIssue t).HandlesCodes) ∧
    ∃ s, Reaches (fun _ => 0) anyMove (launch .least allIssue (.ofTables pendingOnly)) s ∧
      (∀ t, s.history t = [] ∨ ∃ a, s.prog t = some (.ret a)) ∧
      s.shared.committed.vkConfirmations.countP (unusedOf 1) = 2 ∧
      ¬ CodesUsable s.shared.committed := by
  have htwo : (bothIssued.get bothIssued_isSome).shared.committed.vkConfirmations.countP (unusedOf 1) = 2 := by
    decide +kernel
  refine ⟨⟨by decide, by decide⟩, allIssue_handlesCodes, bothIssued.get bothIssued_isSome,
    reach_of_runMoves _ (Option.some_get bothIssued_isSome).symm, fun t => ?_, htwo, fun husable => ?_⟩
  · by_cases ht : t = 0 ∨ t = 1
    · rcases ht with rfl | rfl <;> exact .inr ⟨_, rfl⟩
    · refine .inl (List.eq_nil_iff_forall_not_mem.mpr fun e he => ht ?_)
      exact bothIssued_sessions _ (mem_historyOf.mp he)
  · have hone := husable.single ⟨1, 1, none, .pending, none, none, none, 0, 0⟩ (by decide +kernel)
    rw [htwo] at hone
    omega

/-- Session 1 looks the binding up before session 0 issues its code, and replaces it. -/
def issuedInTurn : Option Run :=
  (database fun _ => 0).runMovesIf (keepsUsable allIssue)
    ([.step 1 (.still 0)] ++ List.replicate 9 (.step 0 (.still 0)) ++ List.replicate 8 (.step 1 (.drawing World.second 0)))
    (launch .least allIssue (.ofTables pendingOnly))

private theorem issuedInTurn_isSome : issuedInTurn.isSome = true := by decide +kernel

theorem usable_codes_kept_inTurn :
    (issuedInTurn.get issuedInTurn_isSome).shared.committed.vkConfirmations.length = 2 ∧
      CodesUsable (issuedInTurn.get issuedInTurn_isSome).shared.committed :=
  ⟨by decide +kernel, usable_codes_kept (fun _ => 0) .least allIssue allIssue_handlesCodes pendingOnly
    (by constructor <;> decide) ⟨by decide, by decide⟩ _ (reach_of_runMovesIf _ (Option.some_get issuedInTurn_isSome).symm)⟩

end Example
end VkService
