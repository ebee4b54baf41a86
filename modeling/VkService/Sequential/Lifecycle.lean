import VkService.Sequential.Links
import VkService.Storage.Claims

/-! What the service is for, seen from outside: users enter, claim a peer by a code, are
turned off and on by the peer, and leave. Requests one after the other refine this. -/
namespace VkService
open PyStr Effects Claims UserVkRepository VkConfirmationRepository

abbrev BindingStages := Stages UUID PeerId

def UserVk.stage (r : UserVk) : Standing PeerId :=
  match r.vkPeerId with
  | none => .pending
  | some peer => .linked peer (r.state == .blocked)

/-- Where the binding of a user stands. -/
def stageOf (T : Tables) : BindingStages := fun u => (userRow T u).elim .absent UserVk.stage

/-- What a request may be answered at these stages, and the stages it leads to. -/
inductive StageStep (S : BindingStages) : Request → Except Exn Answer → BindingStages → Prop
  | entered {u : UUID} {row : UserVk} (h : S u = .absent) (huser : row.userId = u) (hrow : row.stage = .pending) :
      StageStep S (.ensureBinding u) (.ok (.binding row true)) (Function.update S u .pending)
  | found {u : UUID} {row : UserVk} (huser : row.userId = u) (h : S u = row.stage) :
      StageStep S (.ensureBinding u) (.ok (.binding row false)) S
  | issued {u : UUID} {i : IssuedConfirmation} (h : S u = .absent ∨ S u = .pending) (hstate : i.state = .pending) :
      StageStep S (.issueConfirmation u) (.ok (.issued i)) (Function.update S u .pending)
  | refused {u : UUID} (message : String) : StageStep S (.issueConfirmation u) (.error (.conflict message)) S
  | left (u : UUID) : StageStep S (.unlink u) (.ok (.unlinked (decide (S u ≠ .absent)))) (Function.update S u .absent)
  | confirmed {code : Str} {peer : PeerId} {sn dn : Option String} {u recordId : UUID} (h : S u = .pending)
      (hfree : Free S peer) : StageStep S (.confirm code peer sn dn)
        (.ok (.confirmation (.ok ⟨.confirmed, u, recordId⟩))) (Function.update S u (.linked peer false))
  | repeated {code : Str} {peer : PeerId} {sn dn : Option String} {u recordId : UUID} (h : S u = .linked peer false) :
      StageStep S (.confirm code peer sn dn) (.ok (.confirmation (.ok ⟨.alreadyConfirmed, u, recordId⟩))) S
  | rejected {code : Str} {peer : PeerId} {sn dn : Option String} (e : Exn) :
      StageStep S (.confirm code peer sn dn) (.ok (.confirmation (.error e))) S
  | blocked {peer : PeerId} {u : UUID} (h : HasKey S u peer) :
      StageStep S (.block peer) (.ok (.transitioned true)) (Function.update S u (.linked peer true))
  | unblocked {peer : PeerId} {u : UUID} (h : HasKey S u peer) :
      StageStep S (.unblock peer) (.ok (.transitioned true)) (Function.update S u (.linked peer false))
  | blockedNobody {peer : PeerId} (h : Free S peer) : StageStep S (.block peer) (.ok (.transitioned false)) S
  | unblockedNobody {peer : PeerId} (h : Free S peer) : StageStep S (.unblock peer) (.ok (.transitioned false)) S
  | delivered (command : NotificationCommandSendVkData) (r : Except Exn Answer) : StageStep S (.deliver command) r S

/-- The requests of a run with their answers, and the stages before and after it. -/
inductive StageRun : BindingStages → List (Request × Except Exn Answer) → BindingStages → Prop
  | nil (S : BindingStages) : StageRun S [] S
  | cons {S S' S'' : BindingStages} {request : Request} {r : Except Exn Answer}
      {rest : List (Request × Except Exn Answer)} (h : StageStep S request r S') (hrest : StageRun S' rest S'') :
      StageRun S ((request, r) :: rest) S''

section Machine
variable {S S' : BindingStages} {request : Request} {r : Except Exn Answer}

theorem StageStep.moves (h : StageStep S request r S') : Moves S S' := by
  cases h with
  | entered h => exact .enter h
  | issued h =>
    rcases h with h | h
    · exact .enter h
    · rw [← h, Function.update_eq_self]
      exact .stay
  | left u => exact .leave u
  | confirmed h hfree => exact .claim h hfree
  | blocked h => exact .turn h true
  | unblocked h => exact .turn h false
  | _ => exact .stay

/-- The answer to a request tells which stages it leads to. -/
theorem StageStep.unique {S₁ S₂ : BindingStages} (hS : OneHolder S) (h₁ : StageStep S request r S₁)
    (h₂ : StageStep S request r S₂) : S₁ = S₂ := by
  cases h₁ with
  | @blocked peer u hu =>
    cases h₂ with
    | @blocked _ u' hu' => rw [hS u u' peer hu hu']
  | @unblocked peer u hu =>
    cases h₂ with
    | @unblocked _ u' hu' => rw [hS u u' peer hu hu']
  | _ =>
    cases h₂
    rfl

theorem StageRun.unique {observed : List (Request × Except Exn Answer)} {S₁ S₂ : BindingStages} (hS : OneHolder S)
    (h₁ : StageRun S observed S₁) (h₂ : StageRun S observed S₂) : S₁ = S₂ := by
  induction h₁ with
  | nil =>
    cases h₂
    rfl
  | cons h _ ih =>
    cases h₂ with
    | cons h' hrest' =>
      obtain rfl := h.unique hS h'
      exact ih (h.moves.exclusive hS) hrest'

theorem StageRun.exclusive {observed : List (Request × Except Exn Answer)} (h : StageRun S observed S')
    (hS : OneHolder S) : OneHolder S' := by
  induction h with
  | nil => exact hS
  | cons h _ ih => exact ih (h.moves.exclusive hS)

end Machine

section Stages
variable {T T' : Tables} {u : UUID} {b : UserVk} {peer : PeerId}

theorem UserVk.stage_ne_absent (r : UserVk) : r.stage ≠ .absent := by
  unfold UserVk.stage
  cases r.vkPeerId with
  | none => intro h; cases h
  | some peer => intro h; cases h

theorem UserVk.stage_pending {r : UserVk} (h : r.vkPeerId = none) : r.stage = .pending := by
  rw [UserVk.stage, h]

theorem UserVk.stage_linked {r : UserVk} (h : r.vkPeerId = some peer) :
    r.stage = .linked peer (r.state == .blocked) := by
  rw [UserVk.stage, h]

theorem stageOf_some (h : userRow T u = some b) : stageOf T u = b.stage := by
  rw [stageOf, h, Option.elim_some]

theorem stageOf_absent : stageOf T u = .absent ↔ userRow T u = none := by
  rw [stageOf]
  cases h : userRow T u with
  | none => simp
  | some r => simp [r.stage_ne_absent]

theorem stageOf_congr (h : T'.userVks = T.userVks) : stageOf T' = stageOf T := by
  funext u
  simp only [stageOf, userRow, h]

/-- The holder of a peer is the user of its row. -/
theorem holds_iff (hT : T.Wf) : HasKey (stageOf T) u peer ↔ ∃ r, peerRow T peer = some r ∧ r.userId = u := by
  constructor
  · rintro ⟨off, h⟩
    cases hrow : userRow T u with
    | none =>
      rw [stageOf_absent.mpr hrow] at h
      cases h
    | some r =>
      obtain ⟨hr, huser, hlive⟩ := userRow_some hrow
      rw [stageOf_some hrow, UserVk.stage] at h
      cases hp : r.vkPeerId with
      | none =>
        rw [hp] at h
        cases h
      | some q =>
        rw [hp] at h
        cases h
        exact ⟨r, hT.peerRow_of_mem hr hlive hp, huser⟩
  · rintro ⟨r, hrow, rfl⟩
    obtain ⟨hr, hp, hlive⟩ := peerRow_some hrow
    exact ⟨_, (stageOf_some (hT.userRow_of_mem hr hlive)).trans (UserVk.stage_linked hp)⟩

theorem free_iff (hT : T.Wf) : Free (stageOf T) peer ↔ peerRow T peer = none := by
  constructor
  · intro h
    cases hrow : peerRow T peer with
    | none => rfl
    | some r => exact absurd ((holds_iff hT).mpr ⟨r, hrow, rfl⟩) (h _)
  · intro h u hu
    obtain ⟨r, hrow, -⟩ := (holds_iff hT).mp hu
    rw [h] at hrow
    cases hrow

/-- An update of one live row changes the stage of its user. -/
theorem stageOf_update (hT : T.Wf) (hb : b ∈ T.userVks) (hlive : b.live = true) {f : UserVk → UserVk}
    (hf : ∀ r, (f r).userId = r.userId ∧ (f r).live = r.live) :
    stageOf { T with userVks := T.userVks.map fun r => if liveWithId b.id r then f r else r } =
      Function.update (stageOf T) b.userId (f b).stage := by
  funext u
  rw [stageOf, userRow_map fun r _ => by split <;> simp [hf]]
  by_cases hu : u = b.userId
  · subst hu
    rw [Function.update_self, hT.userRow_of_mem hb hlive, Option.map_some, Option.elim_some,
      if_pos (by simp [liveWithId, hlive])]
  · rw [Function.update_of_ne hu, stageOf]
    cases hrow : userRow T u with
    | none => rfl
    | some r =>
      obtain ⟨hr, huser, -⟩ := userRow_some hrow
      have hne : ¬ liveWithId b.id r = true := by
        intro hid
        simp only [liveWithId, Bool.and_eq_true, beq_iff_eq] at hid
        exact hu (by rw [← huser, eq_of_key hT.userVkIds hr hb hid.1])
      simp [hne]

theorem stageOf_append (hnone : userRow T b.userId = none) (hlive : b.live = true) :
    stageOf { T with userVks := T.userVks ++ [b] } = Function.update (stageOf T) b.userId b.stage := by
  funext u
  by_cases hu : u = b.userId
  · subst hu
    rw [Function.update_self, stageOf_some (userRow_append_self hnone hlive)]
  · rw [Function.update_of_ne hu, stageOf, userRow_append_ne hu, stageOf]

theorem stageOf_delete (w : World) (userId : UUID) :
    stageOf { T with userVks := T.userVks.map fun r => if liveOfUser userId r then deleted w r else r } =
      Function.update (stageOf T) userId .absent := by
  funext u
  rw [stageOf, userRow_delete]
  by_cases hu : u = userId
  · subst hu
    rw [if_pos rfl, Function.update_self, Option.elim_none]
  · rw [if_neg hu, Function.update_of_ne hu, stageOf]

end Stages

section Served
variable {settings : VkSettings} {T T' : Tables} {v : Visit} {r : Except Exn Answer}

theorem Ensured.stages {userId : UUID} {b : UserVk} {created : Bool} (h : Ensured userId T b created T') :
    stageOf T' userId = b.stage ∧ b.userId = userId ∧
      stageOf T' = if created then Function.update (stageOf T) userId .pending else stageOf T := by
  cases h with
  | found hrow => exact ⟨stageOf_some hrow, (userRow_some hrow).2.1, rfl⟩
  | created w id hrow hid hb =>
    have huser : b.userId = userId := by rw [hb, pendingRow]
    have hstage : b.stage = .pending := UserVk.stage_pending (by rw [hb, pendingRow])
    have happend := stageOf_append (T := T) (b := b) (huser.symm ▸ hrow) (by rw [hb]; rfl)
    rw [huser, hstage] at happend
    refine ⟨?_, huser, happend⟩
    rw [happend, Function.update_self, hstage]

theorem Ensured.step {o : Surroundings} {userId : UUID} {b : UserVk} {created : Bool}
    (h : Ensured userId T b created T') :
    StageStep (stageOf T) (Visit.mk (.ensureBinding userId) o).request (.ok (.binding b created)) (stageOf T') := by
  obtain ⟨hself, huser, hstages⟩ := h.stages
  cases h with
  | found hrow => exact .found huser hself
  | created w id hrow hid hb =>
    rw [hstages]
    refine .entered (stageOf_absent.mpr hrow) huser (UserVk.stage_pending ?_)
    rw [hb, pendingRow]

/-- A code is issued to a user without a link, who is pending from then on. -/
theorem Issued.step (hT : Consistent T) {userId : UUID} {i : IssuedConfirmation} (hwf : T'.Wf)
    (h : Issued settings userId T i T') :
    StageStep (stageOf T) (.issueConfirmation userId) (.ok (.issued i)) (stageOf T') := by
  cases h with
  | @intro b created T₁ code id w₁ w₂ exp l hensured hb hcode hnew hid hl =>
    obtain ⟨hself, huser, hstages⟩ := hensured.stages
    have hpeer : b.vkPeerId = none := ((hT.ensured hensured).pendingIff b hensured.mem).mp hb
    rw [UserVk.stage_pending hpeer] at hself
    have hT' : stageOf (Tables.journal { T₁ with
        vkConfirmations := invalidated w₁ b.id T₁.vkConfirmations ++ [⟨id, b.id, code, exp, w₂.now, none⟩] } l) =
        stageOf T₁ := stageOf_congr rfl
    rw [hT']
    cases created with
    | true =>
      have hpending : stageOf T userId = .absent := by
        cases hensured with
        | created w id hrow hid hb => exact stageOf_absent.mpr hrow
      rw [hstages, if_pos rfl]
      exact .issued (.inl hpending) rfl
    | false =>
      rw [if_neg (by simp)] at hstages
      rw [hstages] at hself ⊢
      have hsame : Function.update (stageOf T) userId .pending = stageOf T := by
        rw [← hself, Function.update_eq_self]
      have hstep : StageStep (stageOf T) (.issueConfirmation userId) (.ok (.issued ⟨code, exp, .pending⟩))
          (Function.update (stageOf T) userId .pending) := .issued (.inr hself) rfl
      rwa [hsame] at hstep

theorem Unlinked.step {userId : UUID} {done : Bool} (h : Unlinked userId T done T') :
    StageStep (stageOf T) (.unlink userId) (.ok (.unlinked done)) (stageOf T') := by
  cases h with
  | nothing l hrow hl =>
    have habsent := stageOf_absent.mpr hrow
    have hstep : StageStep (stageOf T) (.unlink userId) (.ok (.unlinked (decide (stageOf T userId ≠ .absent))))
        (Function.update (stageOf T) userId .absent) := .left userId
    rw [update_absent habsent, decide_eq_false (not_not_intro habsent)] at hstep
    exact hstep
  | @removed b w₁ w₂ l hrow hl =>
    have hpresent : stageOf T userId ≠ .absent := by
      rw [ne_eq, stageOf_absent, hrow]
      exact Option.some_ne_none b
    have hstep : StageStep (stageOf T) (.unlink userId) (.ok (.unlinked (decide (stageOf T userId ≠ .absent))))
        (Function.update (stageOf T) userId .absent) := .left userId
    rw [decide_eq_true hpresent, ← stageOf_delete w₂ userId] at hstep
    exact hstep

private theorem Transitioned.stages (hT : T.Wf) {peer : PeerId} {state : BindingState} {done : Bool}
    (h : Transitioned peer state T done T') :
    done = false ∧ Free (stageOf T) peer ∧ stageOf T' = stageOf T ∨
    done = true ∧ ∃ u, HasKey (stageOf T) u peer ∧
      stageOf T' = Function.update (stageOf T) u (.linked peer (state == .blocked)) := by
  cases h with
  | nothing l hrow hl => exact .inl ⟨rfl, (free_iff hT).mpr hrow, stageOf_congr rfl⟩
  | @changed b w l hrow hl =>
    obtain ⟨hb, hpeer, hlive⟩ := peerRow_some hrow
    refine .inr ⟨rfl, b.userId, (holds_iff hT).mpr ⟨b, hrow, rfl⟩, ?_⟩
    have hstage : (withState w state b).stage = .linked peer (state == .blocked) := UserVk.stage_linked hpeer
    rw [← hstage]
    exact stageOf_update hT hb hlive (f := withState w state) fun _ => ⟨rfl, rfl⟩

/-- A confirmation links a pending user to a peer that nobody holds. -/
private theorem confirmed_step (hT : Consistent T) {o : Surroundings} {code : Str} {peer : PeerId}
    {sn dn : Option String} {e : ConfirmExit}
    (he : e = confirmExit settings T (normalizeCode code) peer (o 0).now (o 4).now) :
    StageStep (stageOf T) (.confirm code peer sn dn) (.ok (.confirmation e.result))
      (stageOf (afterConfirm o T (maskCode (normalizeCode code)) peer sn dn e)) := by
  have hcase := confirmExit_case settings T (normalizeCode code) peer (o 0).now (o 4).now
  rw [← he] at hcase
  cases e with
  | confirmed c b =>
    rcases hcase with ⟨-, hcase⟩ | ⟨-, hcase⟩
    · cases hcase
    cases hcase with
    | confirmed hc hunused hexp hbinding hlive hpeer =>
      obtain ⟨hb, hid⟩ := bindingRow_some hbinding
      obtain ⟨row, hrow, hrowid, -, hpending⟩ := hT.unusedPending c (codeRow_some hc).1 hunused
      obtain rfl : row = b := eq_of_key hT.wf.userVkIds hrow hb (hrowid.trans hid.symm)
      have hnone : row.vkPeerId = none := (hT.pendingIff row hrow).mp hpending
      have hfree : peerRow T peer = none := by
        cases hq : peerRow T peer with
        | none => rfl
        | some q =>
          -- the holder would be the pending row itself
          obtain ⟨hqmem, hqpeer, -⟩ := peerRow_some hq
          have hsame : q = row := eq_of_key hT.wf.userVkIds hqmem hrow ((hpeer q hq).trans hid.symm)
          rw [hsame, hnone] at hqpeer
          cases hqpeer
      have hupdate := stageOf_update hT.wf hb hlive (f := activated (o 6) peer sn dn) fun _ => ⟨rfl, rfl⟩
      have hstage : (activated (o 6) peer sn dn row).stage = .linked peer false := UserVk.stage_linked rfl
      rw [hid, hstage] at hupdate
      have hstep : StageStep (stageOf T) (.confirm code peer sn dn)
          (.ok (.confirmation (.ok ⟨.confirmed, row.userId, c.userVkId⟩)))
          (Function.update (stageOf T) row.userId (.linked peer false)) :=
        .confirmed ((stageOf_some (hT.wf.userRow_of_mem hb hlive)).trans (UserVk.stage_pending hnone))
          ((free_iff hT.wf).mpr hfree)
      rw [← hupdate] at hstep
      exact hstep
  | alreadyConfirmed c b =>
    rcases hcase with ⟨-, hcase⟩ | ⟨-, hcase⟩
    · cases hcase
    cases hcase with
    | alreadyConfirmed hc hused hbinding hsame =>
      obtain ⟨hb, -⟩ := bindingRow_some hbinding
      simp only [isSamePeerActive, Bool.and_eq_true, beq_iff_eq] at hsame
      obtain ⟨⟨hlive, hactive⟩, hpeer⟩ := hsame
      refine .repeated ?_
      rw [stageOf_some (hT.wf.userRow_of_mem hb hlive), UserVk.stage_linked hpeer, hactive]
      rfl
  | _ => exact .rejected _

/-- Every request is a step of the stages. -/
theorem Served.stageStep (hT : Consistent T) (hserved : Served settings T v r T') (hwf : T'.Wf) :
    StageStep (stageOf T) v.request r (stageOf T') := by
  cases hserved with
  | ensured hensured => exact hensured.step
  | issued hissued => exact hissued.step hT hwf
  | refused message => exact .refused message
  | unlinked hunlinked => exact hunlinked.step
  | confirmed he => exact confirmed_step hT he
  | blocked htrans =>
    rcases htrans.stages hT.wf with ⟨rfl, hfree, hstages⟩ | ⟨rfl, u, hholds, hstages⟩
    · rw [hstages]
      exact .blockedNobody hfree
    · rw [hstages]
      exact .blocked hholds
  | unblocked htrans =>
    rcases htrans.stages hT.wf with ⟨rfl, hfree, hstages⟩ | ⟨rfl, u, hholds, hstages⟩
    · rw [hstages]
      exact .unblockedNobody hfree
    · rw [hstages]
      exact .unblocked hholds
  | delivered hsame hr =>
    rw [stageOf_congr hsame.1]
    exact .delivered _ _

end Served

/-- The requests of a run and their answers. -/
def observed (settings : VkSettings) (T : Tables) (visits : List Visit) : List (Request × Except Exn Answer) :=
  (episodes settings T visits).map fun ep => (ep.visit.request, ep.result)

theorem serveAll_stageRun (settings : VkSettings) {T : Tables} (hT : Consistent T) (visits : List Visit) :
    StageRun (stageOf T) (observed settings T visits) (stageOf (serveAll settings T visits)) := by
  induction visits generalizing T with
  | nil => exact .nil _
  | cons v visits ih =>
    have hnext := serve_consistent settings hT v
    exact .cons ((serve_spec settings hT.wf v).1.stageStep hT hnext.wf) (ih hnext)

/-- Every run is a run of the stages. Its requests and answers alone tell where every binding
stands at its end, and no peer has two holders. -/
theorem serveAll_refines_stages (settings : VkSettings) (visits : List Visit) :
    let S := stageOf (serveAll settings Tables.empty visits)
    (∀ S', StageRun nobody (observed settings Tables.empty visits) S' ↔ S' = S) ∧ OneHolder S := by
  intro S
  have hempty : stageOf Tables.empty = nobody := rfl
  have hrun := serveAll_stageRun settings Tables.empty_consistent visits
  rw [hempty] at hrun
  refine ⟨fun S' => ⟨fun h => h.unique exclusive_nobody hrun, ?_⟩, hrun.exclusive exclusive_nobody⟩
  rintro rfl
  exact hrun

end VkService
