import VkService.Sequential.Links

/-! A confirmation repeated by the same peer: whatever other users and peers did in between,
it is answered as already confirmed and leaves one journal row. -/
namespace VkService
open PyStr Effects UserVkRepository VkConfirmationRepository VkLogRepository

/-- A request that leaves the link between a user and a peer, and does not count as an
attempt of the peer. -/
def Request.LeavesLink (userId : UUID) (vkPeerId : PeerId) : Request → Prop
  | .unlink u => u ≠ userId
  | .confirm _ peer _ _ | .block peer | .unblock peer => peer ≠ vkPeerId
  | _ => True

/-- The code was used up by the row. -/
def UsedBy (code : Str) (recordId : UUID) (codes : List VkConfirmation) : Prop :=
  ∃ c ∈ codes, c.code = code ∧ c.usedAt.isSome = true ∧ c.userVkId = recordId

section Kept
variable {settings : VkSettings} {T T' : Tables} {code : Str} {recordId : UUID} {codes : List VkConfirmation}

/-- Setting `used_at` and adding codes keeps a used code. -/
theorem UsedBy.update (h : UsedBy code recordId codes) (p : VkConfirmation → Bool) (w : World) :
    UsedBy code recordId (codes.map fun c => if p c then used w c else c) := by
  obtain ⟨c, hc, hcode, hused, hid⟩ := h
  refine ⟨_, List.mem_map_of_mem hc, ?_⟩
  split
  · exact ⟨hcode, rfl, hid⟩
  · exact ⟨hcode, hused, hid⟩

theorem UsedBy.append (h : UsedBy code recordId codes) (new : List VkConfirmation) :
    UsedBy code recordId (codes ++ new) := by
  obtain ⟨c, hc, hrest⟩ := h
  exact ⟨c, List.mem_append_left _ hc, hrest⟩

/-- A used code stays used, whatever is requested. -/
theorem UsedBy.served (h : UsedBy code recordId T.vkConfirmations) {v : Visit} {r : Except Exn Answer}
    (hserved : Served settings T v r T') : UsedBy code recordId T'.vkConfirmations := by
  cases hserved with
  | ensured hensured => cases hensured <;> exact h
  | issued hissued =>
    obtain ⟨w₁, w₂, exp, l, hensured, -⟩ := hissued
    cases hensured <;> exact (h.update _ w₁).append _
  | refused message => exact h
  | unlinked hunlinked =>
    cases hunlinked with
    | nothing => exact h
    | removed w₁ w₂ l hrow hl => exact h.update _ w₁
  | @confirmed o typed peer sn dn e he =>
    cases e with
    | confirmed c b => exact h.update _ (o 7)
    | _ => exact h
  | blocked htrans => cases htrans <;> exact h
  | unblocked htrans => cases htrans <;> exact h
  | delivered hsame hr =>
    rw [hsame.2.1]
    exact h

/-- The link is what such a request leaves. -/
theorem relink_of_leavesLink {ep : Episode} {userId : UUID} {link : Link}
    (hreq : ep.visit.request.LeavesLink userId link.peer) (hnone : ep.confirms userId = none) :
    ep.relink userId (some link) = some link := by
  have hunlinks : ep.unlinks userId = false := by
    unfold Episode.unlinks
    split
    · rename_i u hrequest
      rw [hrequest] at hreq
      exact beq_false_of_ne hreq
    · rfl
  rw [Episode.relink, hnone, hunlinks]
  cases htrans : ep.transitions with
  | none => rfl
  | some change =>
    obtain ⟨peer, state⟩ := change
    have hne : link.peer ≠ peer := by
      rcases Episode.transitions_some htrans with hrequest | hrequest <;> rw [hrequest] at hreq <;> exact Ne.symm hreq
    simp [hne]

/-- What a confirmed link and its code keep through the requests that leave it, and how many
failures of the peer are counted. -/
structure Holds (code : Str) (userId : UUID) (link : Link) (n : Time → Nat) (T : Tables) : Prop where
  consistent : Consistent T
  linked : linkOf T userId = some link
  used : UsedBy code link.recordId T.vkConfirmations
  failures : ∀ since, countFailedSince T .confirmation link.peer since failedStatuses = n since

theorem Holds.serve {userId : UUID} {link : Link} {n : Time → Nat} (h : Holds code userId link n T) {v : Visit}
    (hreq : v.request.LeavesLink userId link.peer) : Holds code userId link n (serve settings T v).2.2 where
  consistent := serve_consistent settings h.consistent v
  linked := by
    rw [linkOf_serve h.consistent, h.linked]
    refine relink_of_leavesLink hreq ?_
    by_contra hsome
    have := linkOf_of_confirms h.consistent hsome
    rw [h.linked] at this
    cases this
  used := h.used.served (serve_spec settings h.consistent.wf v).1
  failures since := by
    have hfailed : (episode settings T v).failed link.peer = false := by
      obtain ⟨request, o⟩ := v
      rcases request.cases_confirm with ⟨typed, peer, sn, dn, rfl⟩ | hother
      · have hne : peer ≠ link.peer := hreq
        rw [episode_confirm h.consistent.wf, confirmEpisode_failed]
        split <;> simp [hne]
      · simp [Episode.failed, Episode.raised_other (episode settings T ⟨request, o⟩) hother]
    rw [countFailedSince_serve h.consistent, hfailed, h.failures]
    rfl

theorem Holds.serveAll (settings : VkSettings) {userId : UUID} {link : Link} {n : Time → Nat}
    (h : Holds code userId link n T) {later : List Visit}
    (hlater : ∀ v ∈ later, v.request.LeavesLink userId link.peer) :
    Holds code userId link n (serveAll settings T later) := by
  induction later generalizing T with
  | nil => exact h
  | cons v later ih =>
    exact ih (h.serve (hlater v (by simp))) fun v' hv' => hlater v' (List.mem_cons_of_mem _ hv')

/-- What a confirmed answer establishes. -/
theorem holds_of_confirmed (hT : Consistent T) {typed : Str} {vkPeerId : PeerId} {sn dn : Option String}
    {o : Surroundings} {userId userVkId : UUID}
    (hconfirmed : (serve settings T ⟨.confirm typed vkPeerId sn dn, o⟩).1 =
      .ok (.confirmation (.ok ⟨.confirmed, userId, userVkId⟩))) :
    Holds (normalizeCode typed) userId ⟨userVkId, vkPeerId, .active⟩
      (fun since => countFailedSince T .confirmation vkPeerId since failedStatuses)
      (serve settings T ⟨.confirm typed vkPeerId sn dn, o⟩).2.2 ∧ ¬ overLimit settings T vkPeerId (o 0).now := by
  obtain ⟨e, he, hr, hafter⟩ := (serve_spec settings hT.wf ⟨.confirm typed vkPeerId sn dn, o⟩).1.confirm_inv
  rw [hconfirmed] at hr
  cases e with
  | confirmed c b =>
    simp only [ConfirmExit.result, Except.ok.injEq, Answer.confirmation.injEq, ConfirmationResult.mk.injEq] at hr
    obtain ⟨-, rfl, rfl⟩ := hr
    have hcase := confirmExit_case settings T (normalizeCode typed) vkPeerId (o 0).now (o 4).now
    rw [← he] at hcase
    obtain ⟨-, hcase⟩ | ⟨hlimit, hcase⟩ := hcase
    · cases hcase
    cases hcase with
    | confirmed hc hunused hexp hbinding hlive hpeer =>
      obtain ⟨hc, hcode⟩ := codeRow_some hc
      refine ⟨⟨serve_consistent settings hT _, ?_, ?_, fun since => ?_⟩, hlimit⟩
      · rw [hafter, (linkOf_confirmed hT he.symm _ _).1, if_pos rfl]
      · rw [hafter]
        exact ⟨used (o 7) c, List.mem_map.mpr ⟨c, hc, if_pos (by simp)⟩, hcode, rfl, rfl⟩
      · have hfailed : (episode settings T ⟨.confirm typed vkPeerId sn dn, o⟩).failed vkPeerId = false := by
          rw [episode_confirm hT.wf, confirmEpisode_failed, ← he]
          rfl
        rw [countFailedSince_serve hT, hfailed]
        rfl
  | _ => cases hr

/-- The exit of a repeated confirmation. -/
theorem Holds.confirmExit {userId recordId : UUID} {vkPeerId : PeerId} {n : Time → Nat}
    (h : Holds code userId ⟨recordId, vkPeerId, .active⟩ n T) {checkedAt : Time} (readAt : Time)
    (hlimit : n (checkedAt - minutes settings.vkConfirmationAttemptWindowMinutes) < settings.vkConfirmationMaxAttempts) :
    ∃ c b, confirmExit settings T code vkPeerId checkedAt readAt = .alreadyConfirmed c b ∧ b.userId = userId ∧
      c.userVkId = recordId := by
  obtain ⟨c, hc, hcode, hused, hid⟩ := h.used
  obtain ⟨b, hrow, hlink⟩ := Option.bind_eq_some_iff.mp h.linked
  obtain ⟨hb, huser, hlive⟩ := userRow_some hrow
  obtain ⟨p, hp, hlink⟩ := Option.map_eq_some_iff.mp hlink
  obtain ⟨hbid, rfl, hstate⟩ := Link.mk.inj hlink
  refine ⟨c, b, ?_, huser, hid⟩
  have hunder : ¬ overLimit settings T p checkedAt := by
    rw [overLimit, h.failures]
    exact Nat.not_le.mpr hlimit
  obtain ⟨at', hused⟩ := Option.isSome_iff_exists.mp hused
  have hcodeRow : codeRow T code = some c := hcode ▸ h.consistent.wf.codeRow_of_mem hc
  have hbinding : bindingRow T c.userVkId = some b := by
    rw [show c.userVkId = b.id from hid.trans hbid.symm]
    exact h.consistent.wf.bindingRow_of_mem hb
  simp [VkService.confirmExit, hunder, lookupExit, hcodeRow, hused, hbinding, isSamePeerActive, hlive, hstate, hp]

end Kept

/-- A peer that repeats its confirmed code is told so, however much others did in between. -/
theorem repeated_confirmation_idempotent (settings : VkSettings) (visits : List Visit) (typed : Str) (vkPeerId : PeerId)
    (sn dn : Option String) (o : Surroundings) (userId userVkId : UUID) (later : List Visit) (typed' : Str)
    (sn' dn' : Option String) (o' : Surroundings) :
    let first : Visit := ⟨.confirm typed vkPeerId sn dn, o⟩
    let again : Visit := ⟨.confirm typed' vkPeerId sn' dn', o'⟩
    let T₀ := serveAll settings Tables.empty visits
    let T := serveAll settings (serve settings T₀ first).2.2 later
    (serve settings T₀ first).1 = .ok (.confirmation (.ok ⟨.confirmed, userId, userVkId⟩)) →
    (∀ v ∈ later, v.request.LeavesLink userId vkPeerId) →
    normalizeCode typed' = normalizeCode typed → (o 0).now ≤ (o' 0).now →
    (serve settings T again).1 = .ok (.confirmation (.ok ⟨.alreadyConfirmed, userId, userVkId⟩)) ∧
      ∃ l, l.action = .confirmation ∧ l.status = .alreadyConfirmed ∧ (serve settings T again).2.2 = T.journal l := by
  intro first again T₀ T hconfirmed hlater hcode hclock
  have hT₀ : Consistent T₀ := serveAll_consistent settings visits
  obtain ⟨hholds₁, hlimit⟩ := holds_of_confirmed hT₀ hconfirmed
  have hholds := hholds₁.serveAll settings hlater
  have hunder : countFailedSince T₀ .confirmation vkPeerId
      ((o' 0).now - minutes settings.vkConfirmationAttemptWindowMinutes) failedStatuses <
        settings.vkConfirmationMaxAttempts := by
    refine lt_of_le_of_lt (List.countP_mono_left fun l _ hl => ?_) (Nat.not_le.mp hlimit)
    simp only [failedSince, Bool.and_eq_true, decide_eq_true_eq] at hl ⊢
    exact ⟨⟨hl.1.1, le_trans (sub_le_sub_right hclock _) hl.1.2⟩, hl.2⟩
  obtain ⟨c, b, hexit, huser, hid⟩ := hholds.confirmExit (o' 4).now hunder
  obtain ⟨e, he, hr, hafter⟩ := (serve_spec settings hholds.consistent.wf again).1.confirm_inv
  rw [hcode, hexit] at he
  subst he
  refine ⟨by rw [hr, ConfirmExit.result, huser, hid], _, rfl, rfl, hafter⟩

/-- User 7 is linked to peer 1, is refused a new code, and peer 2 tries the old one before
peer 1 sends it again in lower case. -/
theorem repeated_confirmation_idempotent_least :
    let T := serveAll .least Tables.empty [⟨.issueConfirmation 7, fun _ => .still 0⟩,
      ⟨.confirm "AAAA".toList 1 none none, fun _ => .still 0⟩, ⟨.issueConfirmation 7, fun _ => .still 1⟩,
      ⟨.confirm "AAAA".toList 2 none none, fun _ => .still 2⟩]
    (serve .least T ⟨.confirm " aaaa".toList 1 none none, fun _ => .still 3⟩).1 =
      .ok (.confirmation (.ok ⟨.alreadyConfirmed, 7, 0⟩)) :=
  (repeated_confirmation_idempotent .least [⟨.issueConfirmation 7, fun _ => .still 0⟩] "AAAA".toList 1 none none
    (fun _ => .still 0) 7 0 [⟨.issueConfirmation 7, fun _ => .still 1⟩,
    ⟨.confirm "AAAA".toList 2 none none, fun _ => .still 2⟩]
    " aaaa".toList none none (fun _ => .still 3) rfl (by simp [Request.LeavesLink]) (by decide +kernel)
    (by decide)).1

end VkService
