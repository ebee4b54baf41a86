import VkService.Sequential.Operations

/-! The invariant of requests that run one after the other: bindings and codes agree. -/
namespace VkService
open PyStr Effects UserVkRepository VkConfirmationRepository

/-- Bindings and codes agree. Unused codes belong to live pending rows, one at most to each. -/
structure Consistent (T : Tables) : Prop where
  wf : T.Wf
  pendingIff : ∀ r ∈ T.userVks, r.state = .pending ↔ r.vkPeerId = none
  unusedPending : ∀ c ∈ T.vkConfirmations, c.usedAt = none →
    ∃ r ∈ T.userVks, r.id = c.userVkId ∧ r.live = true ∧ r.state = .pending
  unusedOnce : ∀ c ∈ T.vkConfirmations, ∀ c' ∈ T.vkConfirmations, c.usedAt = none → c'.usedAt = none →
    c.userVkId = c'.userVkId → c = c'
  noError : ∀ l ∈ T.vkLogs, l.action = .confirmation → l.status ≠ .error

theorem Tables.empty_consistent : Consistent Tables.empty := by
  refine ⟨Tables.empty_wf, ?_, ?_, ?_, ?_⟩ <;> simp [Tables.empty]

/-- A code that is still unused was not invalidated. -/
theorem unused_of_mem_invalidated {w : World} {userVkId : UUID} {rows : List VkConfirmation} {c : VkConfirmation}
    (hc : c ∈ invalidated w userVkId rows) (hunused : c.usedAt = none) : c ∈ rows ∧ c.userVkId ≠ userVkId := by
  obtain ⟨c', hc', rfl⟩ := mem_invalidated.mp hc
  by_cases hu : unusedOf userVkId c' = true
  · simp [hu, used] at hunused
  · rw [if_neg hu] at hunused ⊢
    exact ⟨hc', fun he => hu (by simp [unusedOf, he, hunused])⟩

theorem unused_of_mem_markUsed {w : World} {id : UUID} {rows : List VkConfirmation} {c : VkConfirmation}
    (hc : c ∈ rows.map fun c => if c.id == id then used w c else c) (hunused : c.usedAt = none) :
    c ∈ rows ∧ c.id ≠ id := by
  obtain ⟨c', hc', rfl⟩ := List.mem_map.mp hc
  by_cases hid : c'.id = id
  · simp [hid, used] at hunused
  · simp only [beq_iff_eq, hid, ↓reduceIte] at hunused ⊢
    exact ⟨hc', hid⟩

section Preserved
variable {settings : VkSettings} {T T' : Tables} (h : Consistent T)
include h

theorem Consistent.noErrorWith {l : VkLog} (hl : l.action = .confirmation → l.status ≠ .error) :
    ∀ l' ∈ T.vkLogs ++ [l], l'.action = .confirmation → l'.status ≠ .error := by
  intro l' hl'
  rcases List.mem_append.mp hl' with hl' | hl'
  · exact h.noError l' hl'
  · obtain rfl : l' = l := by simpa using hl'
    exact hl

theorem Consistent.ensured {userId : UUID} {b : UserVk} {created : Bool} (hensured : Ensured userId T b created T') :
    Consistent T' := by
  have hwf := hensured.wf h.wf
  cases hensured with
  | found hrow => exact h
  | created w id hrow hid hb =>
    refine ⟨hwf, fun r hr => ?_, fun c hc hunused => ?_, h.unusedOnce, h.noError⟩
    · rcases List.mem_append.mp hr with hr | hr
      · exact h.pendingIff r hr
      · obtain rfl : r = b := by simpa using hr
        simp [hb, pendingRow]
    · obtain ⟨r, hr, hrest⟩ := h.unusedPending c hc hunused
      exact ⟨r, List.mem_append_left _ hr, hrest⟩

theorem Consistent.issued {userId : UUID} {i : IssuedConfirmation} (hissued : Issued settings userId T i T')
    (hwf : T'.Wf) : Consistent T' := by
  cases hissued with
  | @intro b created T₁ code id w₁ w₂ exp l hensured hb hcode hnew hid hl =>
    have h₁ := h.ensured hensured
    have hold : ∀ c ∈ invalidated w₁ b.id T₁.vkConfirmations ++ [⟨id, b.id, code, exp, w₂.now, none⟩],
        c.usedAt = none → (c ∈ T₁.vkConfirmations ∧ c.userVkId ≠ b.id) ∨ c = ⟨id, b.id, code, exp, w₂.now, none⟩ := by
      intro c hc hunused
      rcases List.mem_append.mp hc with hc | hc
      · exact .inl (unused_of_mem_invalidated hc hunused)
      · exact .inr (by simpa using hc)
    refine ⟨hwf, h₁.pendingIff, fun c hc hunused => ?_, fun c hc c' hc' hunused hunused' hsame => ?_,
      h₁.noErrorWith (by simp [hl])⟩
    · rcases hold c hc hunused with ⟨hc, -⟩ | rfl
      · exact h₁.unusedPending c hc hunused
      · exact ⟨b, hensured.mem, rfl, hensured.live, hb⟩
    · rcases hold c hc hunused with ⟨hc, hne⟩ | rfl
      · rcases hold c' hc' hunused' with ⟨hc', -⟩ | rfl
        · exact h₁.unusedOnce c hc c' hc' hunused hunused' hsame
        · exact absurd hsame hne
      · rcases hold c' hc' hunused' with ⟨hc', hne⟩ | rfl
        · exact absurd hsame.symm hne
        · rfl

/-- The removed row takes its codes with it. -/
theorem Consistent.unlinked {userId : UUID} {done : Bool} (hunlinked : Unlinked userId T done T')
    (hwf : T'.Wf) : Consistent T' := by
  cases hunlinked with
  | nothing l hrow hl => exact ⟨hwf, h.pendingIff, h.unusedPending, h.unusedOnce, h.noErrorWith (by simp [hl])⟩
  | @removed b w₁ w₂ l hrow hl =>
    refine ⟨hwf, fun r hr => ?_, fun c hc hunused => ?_, fun c hc c' hc' hunused hunused' hsame => ?_,
      h.noErrorWith (by simp [hl])⟩
    · obtain ⟨r', hr', rfl⟩ := List.mem_map.mp hr
      have := h.pendingIff r' hr'
      split <;> exact this
    · obtain ⟨hc, hne⟩ := unused_of_mem_invalidated hc hunused
      obtain ⟨r, hr, hid, hlive, hpending⟩ := h.unusedPending c hc hunused
      refine ⟨r, List.mem_map.mpr ⟨r, hr, if_neg fun hu => hne ?_⟩, hid, hlive, hpending⟩
      -- the only live row of the user is the removed one, and its codes are gone
      have huser : r.userId = userId := by
        simp only [liveOfUser, Bool.and_eq_true, beq_iff_eq] at hu
        exact hu.1
      have := h.wf.userRow_of_mem hr hlive
      rw [huser, hrow] at this
      rw [← hid, Option.some.inj this]
    · obtain ⟨hc, -⟩ := unused_of_mem_invalidated hc hunused
      obtain ⟨hc', -⟩ := unused_of_mem_invalidated hc' hunused'
      exact h.unusedOnce c hc c' hc' hunused hunused' hsame

/-- A permission event touches linked rows only. -/
theorem Consistent.transitioned {vkPeerId : PeerId} {state : BindingState} {done : Bool} (hstate : state ≠ .pending)
    (htrans : Transitioned vkPeerId state T done T') (hwf : T'.Wf) : Consistent T' := by
  cases htrans with
  | nothing l hrow hl => exact ⟨hwf, h.pendingIff, h.unusedPending, h.unusedOnce, h.noErrorWith (absurd · hl)⟩
  | @changed b w l hrow hl =>
    obtain ⟨hb, hpeer, hlive⟩ := peerRow_some hrow
    have hself : ∀ r ∈ T.userVks, liveWithId b.id r = true → r = b := by
      intro r hr hu
      simp only [liveWithId, Bool.and_eq_true, beq_iff_eq] at hu
      exact eq_of_key h.wf.userVkIds hr hb hu.1
    refine ⟨hwf, fun r hr => ?_, fun c hc hunused => ?_, h.unusedOnce, h.noErrorWith (absurd · hl)⟩
    · obtain ⟨r', hr', rfl⟩ := List.mem_map.mp hr
      by_cases hu : liveWithId b.id r' = true
      · rw [if_pos hu, hself r' hr' hu]
        simp [withState, hstate, hpeer]
      · rw [if_neg hu]
        exact h.pendingIff r' hr'
    · obtain ⟨r, hr, hid, hrlive, hpending⟩ := h.unusedPending c hc hunused
      refine ⟨r, List.mem_map.mpr ⟨r, hr, if_neg fun hu => ?_⟩, hid, hrlive, hpending⟩
      have hnone := (h.pendingIff r hr).mp hpending
      rw [hself r hr hu, hpeer] at hnone
      cases hnone

/-- An unused code always has a live binding, so `confirm` never misses it. -/
theorem Consistent.not_bindingMissing {code : Str} {vkPeerId : PeerId} {checkedAt readAt : Time} {c : VkConfirmation} :
    confirmExit settings T code vkPeerId checkedAt readAt ≠ .bindingMissing c := by
  intro he
  rcases confirmExit_case settings T code vkPeerId checkedAt readAt with ⟨-, hcase⟩ | ⟨-, hcase⟩
  · rw [he] at hcase
    cases hcase
  · rw [he] at hcase
    cases hcase with
    | bindingMissing hc hunused hb =>
      obtain ⟨r, hr, hid, hlive, -⟩ := h.unusedPending c (codeRow_some hc).1 hunused
      have := hb r (hid ▸ h.wf.bindingRow_of_mem hr)
      rw [hlive] at this
      cases this

/-- A successful confirmation uses up the one code of the row it activates. -/
theorem Consistent.confirmed {o : Surroundings} {code : Str} {vkPeerId : PeerId} {sn dn : Option String}
    {masked : String} {e : ConfirmExit} (he : e = confirmExit settings T code vkPeerId (o 0).now (o 4).now)
    (hwf : (afterConfirm o T masked vkPeerId sn dn e).Wf) : Consistent (afterConfirm o T masked vkPeerId sn dn e) := by
  have hnoError : ∀ l ∈ T.vkLogs ++ [e.log (o e.callsBeforeLog) vkPeerId masked],
      l.action = .confirmation → l.status ≠ .error := by
    refine h.noErrorWith fun _ herror => ?_
    cases e with
    | bindingMissing c => exact h.not_bindingMissing he.symm
    | _ => cases herror
  have hcase := confirmExit_case settings T code vkPeerId (o 0).now (o 4).now
  rw [← he] at hcase
  cases e with
  | confirmed c b =>
    rcases hcase with ⟨-, hcase⟩ | ⟨-, hcase⟩
    · cases hcase
    cases hcase with
    | confirmed hc hunused hexp hb hlive hpeer =>
      obtain ⟨hcT, -⟩ := codeRow_some hc
      refine ⟨hwf, fun r hr => ?_, fun c' hc' hunused' => ?_, fun c₁ hc₁ c₂ hc₂ hu₁ hu₂ hsame => ?_, hnoError⟩
      · obtain ⟨r', hr', rfl⟩ := List.mem_map.mp hr
        split
        · simp [activated]
        · exact h.pendingIff r' hr'
      · obtain ⟨hc', hne⟩ := unused_of_mem_markUsed hc' hunused'
        obtain ⟨r, hr, hid, hrlive, hpending⟩ := h.unusedPending c' hc' hunused'
        refine ⟨r, List.mem_map.mpr ⟨r, hr, if_neg fun hu => hne ?_⟩, hid, hrlive, hpending⟩
        -- the activated row had one unused code, the one that is now used
        simp only [liveWithId, Bool.and_eq_true, beq_iff_eq] at hu
        rw [h.unusedOnce c' hc' c hcT hunused' hunused (hid.symm.trans hu.1)]
      · obtain ⟨hc₁, -⟩ := unused_of_mem_markUsed hc₁ hu₁
        obtain ⟨hc₂, -⟩ := unused_of_mem_markUsed hc₂ hu₂
        exact h.unusedOnce c₁ hc₁ c₂ hc₂ hu₁ hu₂ hsame
  | _ => exact ⟨hwf, h.pendingIff, h.unusedPending, h.unusedOnce, hnoError⟩

/-- Every request keeps the invariant. -/
theorem Consistent.served {v : Visit} {r : Except Exn Answer} (hserved : Served settings T v r T')
    (hwf : T'.Wf) : Consistent T' := by
  cases hserved with
  | ensured hensured => exact h.ensured hensured
  | issued hissued => exact h.issued hissued hwf
  | refused message => exact h
  | unlinked hunlinked => exact h.unlinked hunlinked hwf
  | confirmed he => exact h.confirmed he hwf
  | blocked htrans => exact h.transitioned (by decide) htrans hwf
  | unblocked htrans => exact h.transitioned (by decide) htrans hwf
  | delivered hsame hr =>
    obtain ⟨hrows, hcodes, hlogs⟩ := hsame
    exact ⟨hwf, hrows ▸ h.pendingIff, hcodes ▸ hrows ▸ h.unusedPending, hcodes ▸ h.unusedOnce, hlogs ▸ h.noError⟩

end Preserved

theorem serve_consistent (settings : VkSettings) {T : Tables} (h : Consistent T) (v : Visit) :
    Consistent (serve settings T v).2.2 :=
  h.served (serve_spec settings h.wf v).1 (serve_wf settings h.wf v)

theorem serveAll_consistent (settings : VkSettings) (visits : List Visit) :
    Consistent (serveAll settings Tables.empty visits) :=
  serveAll_induction Tables.empty_consistent (fun _ v h => serve_consistent settings h v) visits

/-- No request is answered with a missing binding. -/
theorem Consistent.answer_ne_bindingMissing {settings : VkSettings} {T T' : Tables} (h : Consistent T)
    {v : Visit} {r : Except Exn Answer} (hserved : Served settings T v r T') :
    r ≠ .ok (.confirmation (.error (.notFound "Привязка не найдена"))) := by
  cases hserved with
  | @confirmed o code vkPeerId sn dn e he =>
    intro hr
    cases e with
    | bindingMissing c => exact h.not_bindingMissing he.symm
    | _ => simp [ConfirmExit.result] at hr
  | delivered hsame hr =>
    rintro rfl
    cases hr _ rfl
  | _ => simp

/-- The invariant of all sequential runs, and the branches that no call of one can take. -/
theorem sequential_runs_consistent (settings : VkSettings) (visits : List Visit) :
    let T := serveAll settings Tables.empty visits
    (T.userVks.Pairwise fun a b => a.live = true → b.live = true →
      a.userId ≠ b.userId ∧ (a.vkPeerId ≠ none → a.vkPeerId ≠ b.vkPeerId)) ∧
    (∀ r ∈ T.userVks, r.state = .pending ↔ r.vkPeerId = none) ∧
    (∀ c ∈ T.vkConfirmations, c.usedAt = none →
      ∃ r ∈ T.userVks, r.id = c.userVkId ∧ r.live = true ∧ r.state = .pending) ∧
    (T.vkConfirmations.Pairwise fun c c' => c.usedAt = none → c'.usedAt = none → c.userVkId ≠ c'.userVkId) ∧
    (T.vkConfirmations.map (·.code)).Nodup ∧
    ∀ v : Visit, (serve settings T v).1 ≠ .ok (.confirmation (.error (.notFound "Привязка не найдена"))) ∧
      NoIntegrityError (serve settings T v).2.1 := by
  intro T
  have h : Consistent T := serveAll_consistent settings visits
  refine ⟨?_, h.pendingIff, h.unusedPending, ?_, h.wf.codes, fun v => ?_⟩
  · refine h.wf.noClash.imp fun {a b} hab hlive hlive' => ?_
    simp only [UserVk.clashes, hlive, hlive', Bool.and_self, Bool.true_and, Bool.or_eq_false_iff,
      beq_eq_false_iff_ne, Bool.and_eq_false_iff] at hab
    refine ⟨hab.1, fun hsome hpeer => ?_⟩
    rcases hab.2 with hnone | hne
    · exact hsome (by simpa using hnone)
    · exact hne hpeer
  · refine (List.pairwise_map.mp h.wf.confirmationIds).imp_of_mem fun {c c'} hc hc' hne hu hu' hsame => ?_
    exact hne (congrArg VkConfirmation.id (h.unusedOnce c hc c' hc' hu hu' hsame))
  · have hserved := serve_spec settings h.wf v
    exact ⟨h.answer_ne_bindingMissing hserved.1, hserved.2⟩

end VkService
