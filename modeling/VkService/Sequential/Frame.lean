import VkService.Sequential.Links

/-! What one operation can change: nothing when it raises, and otherwise the one binding it
is about with its codes. Every confirmation leaves one journal row that tells its outcome. -/
namespace VkService
open PyStr Effects UserVkRepository VkConfirmationRepository

/-- The operation raised, to its caller or to the bot's event handler. -/
def Raised : Except Exn Answer → Prop
  | .error _ | .ok (.confirmation (.error _)) => True
  | _ => False

/-- The binding an operation is about: the live row of the user, which may be new, the live
row of the peer, or the row that the presented code was issued for. -/
def ownRow (T T' : Tables) : Request → Option UUID
  | .ensureBinding userId | .issueConfirmation userId | .unlink userId =>
      ((userRow T userId).or (userRow T' userId)).map (·.id)
  | .confirm code _ _ _ => (codeRow T (normalizeCode code)).map (·.userVkId)
  | .block vkPeerId | .unblock vkPeerId => (peerRow T vkPeerId).map (·.id)
  | .deliver _ => none

/-- All bindings and codes but those of one row are the same. -/
structure OnlyRow (recordId : Option UUID) (T T' : Tables) : Prop where
  userVks : T'.userVks.filter (fun r => some r.id != recordId) = T.userVks.filter fun r => some r.id != recordId
  vkConfirmations : T'.vkConfirmations.filter (fun c => some c.userVkId != recordId) =
    T.vkConfirmations.filter fun c => some c.userVkId != recordId

/-- The journal status that an outcome of `confirm` calls for. -/
def outcomeStatus : Except Exn ConfirmationResult → LogStatus
  | .ok result =>
    match result.status with
    | .confirmed => .success
    | .alreadyConfirmed => .alreadyConfirmed
  | .error (.rateLimited _) => .rateLimited
  | .error (.gone _) => .expired
  | .error (.notFound message) => if message = "Привязка не найдена" then .error else .notFound
  | .error (.conflict message) => if message = peerTakenMessage then .peerConflict else .used
  | .error _ => .error

theorem ConfirmExit.outcomeStatus (e : ConfirmExit) : VkService.outcomeStatus e.result = e.status := by
  cases e <;> rfl

section Filter
variable {ρ : Type} {rows : List ρ} {p : ρ → Bool} {f : ρ → ρ}

/-- An update of rows that a filter drops is not seen through the filter. -/
theorem filter_map_eq (hf : ∀ r ∈ rows, f r = r ∨ (p r = false ∧ p (f r) = false)) :
    (rows.map f).filter p = rows.filter p := by
  induction rows with
  | nil => rfl
  | cons r rows ih =>
    have hrest := ih fun r hr => hf r (List.mem_cons_of_mem _ hr)
    rcases hf r (by simp) with heq | ⟨hr, hfr⟩
    · rw [List.map_cons, heq, List.filter_cons, List.filter_cons, hrest]
    · rw [List.map_cons, List.filter_cons_of_neg (by simp [hfr]), List.filter_cons_of_neg (by simp [hr]), hrest]

theorem filter_append_eq {r : ρ} (hr : p r = false) : (rows ++ [r]).filter p = rows.filter p := by
  simp [hr]

end Filter

section OnlyRow
variable {settings : VkSettings} {T T' : Tables} {userId : UUID}

theorem filter_invalidated (w : World) (recordId : UUID) (codes : List VkConfirmation) :
    (invalidated w recordId codes).filter (fun c => some c.userVkId != some recordId) =
      codes.filter fun c => some c.userVkId != some recordId := by
  refine filter_map_eq fun c _ => ?_
  split
  · rename_i hu
    simp only [unusedOf, Bool.and_eq_true, beq_iff_eq] at hu
    exact .inr ⟨by simp [hu.1], by simp [used, hu.1]⟩
  · exact .inl rfl

theorem filter_update {recordId : UUID} {q : UserVk → Bool} {f : UserVk → UserVk} (hid : ∀ r, (f r).id = r.id)
    {rows : List UserVk} (hq : ∀ r ∈ rows, q r = true → r.id = recordId) :
    (rows.map fun r => if q r then f r else r).filter (fun r => some r.id != some recordId) =
      rows.filter fun r => some r.id != some recordId := by
  refine filter_map_eq fun r hr => ?_
  split
  · rename_i hu
    exact .inr ⟨by simp [hq r hr hu], by simp [hid, hq r hr hu]⟩
  · exact .inl rfl

theorem Ensured.own {b : UserVk} {created : Bool} (h : Ensured userId T b created T') :
    ((userRow T userId).or (userRow T' userId)).map (·.id) = some b.id ∧
      T'.userVks.filter (fun r => some r.id != some b.id) = T.userVks.filter fun r => some r.id != some b.id := by
  cases h with
  | found hrow => exact ⟨by rw [hrow]; rfl, rfl⟩
  | created w id hrow hid hb =>
    have huser : b.userId = userId := by rw [hb, pendingRow]
    have hself := userRow_append_self (T := T) (b := b) (huser.symm ▸ hrow) (by simp [hb, UserVk.live, pendingRow])
    rw [huser] at hself
    exact ⟨by rw [hrow, hself]; rfl, filter_append_eq (by simp)⟩

private theorem id_of_liveWithId {recordId : UUID} {r : UserVk} (h : liveWithId recordId r = true) :
    r.id = recordId := by
  simp only [liveWithId, Bool.and_eq_true, beq_iff_eq] at h
  exact h.1

theorem Transitioned.onlyRow {peer : PeerId} {state : BindingState} {done : Bool}
    (h : Transitioned peer state T done T') : OnlyRow ((peerRow T peer).map (·.id)) T T' := by
  cases h with
  | nothing => exact ⟨rfl, rfl⟩
  | changed w l hrow hl =>
    rw [hrow, Option.map_some]
    exact ⟨filter_update (f := withState w state) (fun _ => rfl) fun r _ hu => id_of_liveWithId hu, rfl⟩

/-- An operation changes its own row and the codes of that row only. -/
theorem Served.onlyRow (hT : T.Wf) {v : Visit} {r : Except Exn Answer} (hserved : Served settings T v r T') :
    OnlyRow (ownRow T T' v.request) T T' := by
  cases hserved with
  | ensured hensured =>
    obtain ⟨hown, hrows⟩ := hensured.own
    rw [ownRow, hown]
    refine ⟨hrows, ?_⟩
    cases hensured <;> rfl
  | issued hissued =>
    obtain ⟨w₁, w₂, exp, l, hensured, -⟩ := hissued
    obtain ⟨hown, hrows⟩ := hensured.own
    refine Eq.mpr (congrArg (OnlyRow · _ _) hown) ⟨hrows, ?_⟩
    refine (filter_append_eq (by simp)).trans ((filter_invalidated w₁ _ _).trans ?_)
    cases hensured <;> rfl
  | refused message => exact ⟨rfl, rfl⟩
  | @unlinked o userId done T' hunlinked =>
    cases hunlinked with
    | nothing => exact ⟨rfl, rfl⟩
    | @removed b w₁ w₂ l hrow hl =>
      rw [ownRow, hrow, Option.some_or, Option.map_some]
      refine ⟨filter_update (f := deleted w₂) (fun _ => rfl) fun r hr hu => ?_, filter_invalidated w₁ _ _⟩
      simp only [liveOfUser, Bool.and_eq_true, beq_iff_eq] at hu
      have := hT.userRow_of_mem hr hu.2
      rw [hu.1, hrow, Option.some.injEq] at this
      rw [this]
  | @confirmed o code peer sn dn e he =>
    cases e with
    | confirmed c b =>
      have hcase := confirmExit_case settings T (normalizeCode code) peer (o 0).now (o 4).now
      rw [← he] at hcase
      rcases hcase with ⟨-, hcase⟩ | ⟨-, hcase⟩
      · cases hcase
      cases hcase with
      | confirmed hc =>
        rw [ownRow, hc, Option.map_some]
        refine ⟨filter_update (f := activated (o 6) peer sn dn) (fun _ => rfl) fun r _ hu => id_of_liveWithId hu,
          filter_map_eq fun c' hc' => ?_⟩
        · split
          · rename_i hid
            obtain rfl : c' = c := eq_of_key hT.confirmationIds hc' (codeRow_some hc).1 (by simpa using hid)
            exact .inr ⟨by simp, by simp [used]⟩
          · exact .inl rfl
    | _ => exact ⟨rfl, rfl⟩
  | blocked htrans => exact htrans.onlyRow
  | unblocked htrans => exact htrans.onlyRow
  | delivered hsame hr => exact ⟨by rw [hsame.1], by rw [hsame.2.1]⟩

/-- An operation that raises leaves bindings and codes alone. -/
theorem Served.unchanged {v : Visit} {r : Except Exn Answer} (hserved : Served settings T v r T') (hraised : Raised r) :
    T'.userVks = T.userVks ∧ T'.vkConfirmations = T.vkConfirmations := by
  cases hserved with
  | refused message => exact ⟨rfl, rfl⟩
  | @confirmed o code peer sn dn e he =>
    cases e with
    | confirmed c b => exact hraised.elim
    | _ => exact ⟨rfl, rfl⟩
  | delivered hsame hr => exact ⟨hsame.1, hsame.2.1⟩
  | _ => exact hraised.elim

end OnlyRow

/-- What a confirmation does to bindings and codes: nothing, unless it answers that it
confirmed. Then the row of the code is linked to the peer and the code is used. -/
def ConfirmEffect (T T' : Tables) (code : Str) (vkPeerId : PeerId) (sn dn : Option String) :
    Except Exn ConfirmationResult → Prop
  | .ok ⟨.confirmed, userId, userVkId⟩ => ∃ c b t t', codeRow T (normalizeCode code) = some c ∧ c.userVkId = userVkId ∧
      bindingRow T userVkId = some b ∧ b.userId = userId ∧ b.live = true ∧ c.usedAt = none ∧
      T'.userVks = T.userVks.map (fun r => if r.id = userVkId then { b with
        vkPeerId := some vkPeerId, state := .active, vkScreenName := sn, vkDisplayName := dn, updatedAt := t } else r) ∧
      T'.vkConfirmations = T.vkConfirmations.map fun c' => if c'.id = c.id then { c with usedAt := some t' } else c'
  | _ => T'.userVks = T.userVks ∧ T'.vkConfirmations = T.vkConfirmations

/-- The one change a confirmation can make. -/
theorem confirmEffect_exit (settings : VkSettings) {T : Tables} (hT : T.Wf) (o : Surroundings) (code : Str)
    (peer : PeerId) (sn dn : Option String) {e : ConfirmExit}
    (he : e = confirmExit settings T (normalizeCode code) peer (o 0).now (o 4).now) (masked : String) :
    ConfirmEffect T (afterConfirm o T masked peer sn dn e) code peer sn dn e.result := by
  have hcase := confirmExit_case settings T (normalizeCode code) peer (o 0).now (o 4).now
  rw [← he] at hcase
  cases e with
  | confirmed c b =>
    rcases hcase with ⟨-, hcase⟩ | ⟨-, hcase⟩
    · cases hcase
    cases hcase with
    | confirmed hc hunused hexp hbinding hlive hpeer =>
      obtain ⟨hb, hid⟩ := bindingRow_some hbinding
      refine ⟨c, b, (o 6).now, (o 7).now, hc, rfl, hbinding, rfl, hlive, hunused, ?_, ?_⟩
      · refine List.map_congr_left fun r hr => ?_
        by_cases hrid : r.id = c.userVkId
        · obtain rfl : r = b := eq_of_key hT.userVkIds hr hb (hrid.trans hid.symm)
          simp [liveWithId, hrid, hlive, activated]
        · simp [liveWithId, hrid]
      · refine List.map_congr_left fun c' hc' => ?_
        by_cases hid' : c'.id = c.id
        · obtain rfl : c' = c := eq_of_key hT.confirmationIds hc' (codeRow_some hc).1 hid'
          simp [used]
        · simp [hid']
  | _ => exact ⟨rfl, rfl⟩

/-- Every operation is atomic and keeps to its own row, in any tables that meet the
constraints of the schema. -/
theorem operations_atomic (settings : VkSettings) {T : Tables} (hT : T.Wf) (v : Visit) :
    let r := (serve settings T v).1
    let T' := (serve settings T v).2.2
    (Raised r → T'.userVks = T.userVks ∧ T'.vkConfirmations = T.vkConfirmations) ∧
    OnlyRow (ownRow T T' v.request) T T' ∧
    ∀ code vkPeerId sn dn, v.request = .confirm code vkPeerId sn dn → ∃ outcome l, r = .ok (.confirmation outcome) ∧
      ConfirmEffect T T' code vkPeerId sn dn outcome ∧
      T'.vkLogs = T.vkLogs ++ [l] ∧ l.action = .confirmation ∧ l.status = outcomeStatus outcome := by
  intro r T'
  have hserved := (serve_spec settings hT v).1
  refine ⟨hserved.unchanged, hserved.onlyRow hT, ?_⟩
  rintro code peer sn dn hreq
  obtain ⟨request, o⟩ := v
  obtain rfl : request = .confirm code peer sn dn := hreq
  obtain ⟨e, he, hr, hafter⟩ := hserved.confirm_inv
  refine ⟨e.result, e.log (o e.callsBeforeLog) peer (maskCode (normalizeCode code)), hr, ?_, ?_, rfl, ?_⟩
  · rw [show T' = _ from hafter]
    exact confirmEffect_exit settings hT o code peer sn dn he _
  · exact congrArg Tables.vkLogs hafter
  · exact e.outcomeStatus.symm

end VkService
