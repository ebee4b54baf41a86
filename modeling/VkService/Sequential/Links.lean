import VkService.Sequential.RateLimit

/-! Which peer a user is linked to, read off the tables and followed through the requests:
confirmations make a link, an unlink removes it, and permission events change its state. -/
namespace VkService
open PyStr Effects UserVkRepository VkConfirmationRepository

/-- The link of a user: the row that holds it, the peer and the state. -/
structure Link where
  recordId : UUID
  peer : PeerId
  state : BindingState
  deriving DecidableEq

def UserVk.link (r : UserVk) : Option Link := r.vkPeerId.map fun p => ⟨r.id, p, r.state⟩

def linkOf (T : Tables) (userId : UUID) : Option Link := (userRow T userId).bind UserVk.link

namespace Episode

/-- A confirmation by a peer that was answered as confirmed for the user. -/
def confirms (userId : UUID) (ep : Episode) : Option (PeerId × UUID) :=
  match ep.visit.request, ep.result with
  | .confirm _ peer _ _, .ok (.confirmation (.ok ⟨.confirmed, u, recordId⟩)) =>
    if u = userId then some (peer, recordId) else none
  | _, _ => none

def unlinks (userId : UUID) (ep : Episode) : Bool :=
  match ep.visit.request with
  | .unlink u => u == userId
  | _ => false

/-- A successful block or unblock of a peer, and the state it leads to. -/
def transitions (ep : Episode) : Option (PeerId × BindingState) :=
  match ep.visit.request, ep.result with
  | .block peer, .ok (.transitioned true) => some (peer, .blocked)
  | .unblock peer, .ok (.transitioned true) => some (peer, .active)
  | _, _ => none

/-- What a request does to the link of a user. -/
def relink (userId : UUID) (ep : Episode) (link : Option Link) : Option Link :=
  match ep.confirms userId with
  | some (peer, recordId) => some ⟨recordId, peer, .active⟩
  | none =>
    if ep.unlinks userId then none
    else
      match ep.transitions with
      | some (peer, state) => link.map fun k => if k.peer = peer then { k with state := state } else k
      | none => link

theorem transitions_some {ep : Episode} {peer : PeerId} {state : BindingState}
    (h : ep.transitions = some (peer, state)) :
    ep.visit.request = .block peer ∨ ep.visit.request = .unblock peer := by
  unfold transitions at h
  split at h <;> cases h
  · exact .inl (by assumption)
  · exact .inr (by assumption)

end Episode

section Rows
variable {T : Tables} {u : UUID}

/-- An update that keeps users and liveness is seen through the lookup. -/
theorem userRow_map {f : UserVk → UserVk} (hf : ∀ r ∈ T.userVks, (f r).userId = r.userId ∧ (f r).live = r.live) :
    userRow { T with userVks := T.userVks.map f } u = (userRow T u).map f := by
  simp only [userRow, List.find?_map]
  congr 1
  suffices ∀ rows : List UserVk, (∀ r ∈ rows, (f r).userId = r.userId ∧ (f r).live = r.live) →
      rows.find? (liveOfUser u ∘ f) = rows.find? (liveOfUser u) from this _ hf
  intro rows hrows
  induction rows with
  | nil => rfl
  | cons r rows ih =>
    obtain ⟨huser, hlive⟩ := hrows r (by simp)
    simp only [List.find?_cons, Function.comp_apply, liveOfUser, huser, hlive]
    rw [show (liveOfUser u ∘ f) = fun r => (liveOfUser u ∘ f) r from rfl] at ih
    split
    · rfl
    · exact ih fun r hr => hrows r (List.mem_cons_of_mem _ hr)

theorem userRow_append_self {b : UserVk} (hnone : userRow T b.userId = none) (hlive : b.live = true) :
    userRow { T with userVks := T.userVks ++ [b] } b.userId = some b := by
  simp only [userRow] at hnone
  simp [userRow, List.find?_append, hnone, liveOfUser, hlive]

theorem userRow_append_ne {b : UserVk} (hne : u ≠ b.userId) :
    userRow { T with userVks := T.userVks ++ [b] } u = userRow T u := by
  simp [userRow, List.find?_append, liveOfUser, Ne.symm hne]

theorem userRow_delete (w : World) (userId : UUID) :
    userRow { T with userVks := T.userVks.map fun r => if liveOfUser userId r then deleted w r else r } u =
      if u = userId then none else userRow T u := by
  by_cases hu : u = userId
  · subst hu
    rw [if_pos rfl, userRow, List.find?_eq_none]
    intro r hr
    obtain ⟨r', -, rfl⟩ := List.mem_map.mp hr
    by_cases hr' : liveOfUser u r' = true
    · rw [if_pos hr']
      simp [liveOfUser, UserVk.live, deleted]
    · rwa [if_neg hr']
  · rw [if_neg hu]
    simp only [userRow, List.find?_map]
    have hother : ∀ r, liveOfUser userId r = true → liveOfUser u r = false := by
      intro r hr
      simp only [liveOfUser, Bool.and_eq_true, beq_iff_eq] at hr
      simp [liveOfUser, hr.1, Ne.symm hu]
    have hsame : (liveOfUser u ∘ fun r => if liveOfUser userId r then deleted w r else r) = liveOfUser u := by
      funext r
      by_cases hr : liveOfUser userId r = true
      · rw [Function.comp_apply, if_pos hr, hother r hr]
        simp [liveOfUser, UserVk.live, deleted]
      · rw [Function.comp_apply, if_neg hr]
    rw [hsame]
    cases hrow : T.userVks.find? (liveOfUser u) with
    | none => rfl
    | some r =>
      have hne : ¬ liveOfUser userId r = true := by
        intro hr
        simpa [hother r hr] using List.find?_some hrow
      simp [hne]

end Rows

section Served
variable {settings : VkSettings} {T T' : Tables} {v : Visit} {r : Except Exn Answer}

theorem linkOf_congr (h : T'.userVks = T.userVks) (u : UUID) : linkOf T' u = linkOf T u := by
  simp only [linkOf, userRow, h]

/-- A request that neither confirms, unlinks nor changes a state leaves every link. -/
theorem relink_idle {ep : Episode} {u : UUID} {link : Option Link} (hc : ep.confirms u = none)
    (hu : ep.unlinks u = false) (ht : ep.transitions = none) : ep.relink u link = link := by
  simp [Episode.relink, hc, hu, ht]

/-- An update of one row by its identifier is seen by its user alone. -/
theorem linkOf_update (hT : T.Wf) {b : UserVk} (hb : b ∈ T.userVks) (hlive : b.live = true) {f : UserVk → UserVk}
    (hf : ∀ r, (f r).userId = r.userId ∧ (f r).live = r.live) (u : UUID) :
    linkOf { T with userVks := T.userVks.map fun r => if liveWithId b.id r then f r else r } u =
      if u = b.userId then (f b).link else linkOf T u := by
  rw [linkOf, userRow_map fun r _ => by split <;> simp [hf]]
  by_cases hu : u = b.userId
  · subst hu
    rw [if_pos rfl, hT.userRow_of_mem hb hlive, Option.map_some, Option.bind_some, if_pos (by simp [liveWithId, hlive])]
  · rw [if_neg hu, linkOf]
    cases hrow : userRow T u with
    | none => rfl
    | some r =>
      obtain ⟨hr, huser, -⟩ := userRow_some hrow
      have hne : ¬ liveWithId b.id r = true := by
        intro hid
        simp only [liveWithId, Bool.and_eq_true, beq_iff_eq] at hid
        exact hu (by rw [← huser, eq_of_key hT.userVkIds hr hb hid.1])
      simp [hne]

theorem Ensured.linkOf {userId : UUID} {b : UserVk} {created : Bool} (h : Ensured userId T b created T') (u : UUID) :
    linkOf T' u = linkOf T u := by
  cases h with
  | found => rfl
  | created w id hrow hid hb =>
    have huser : b.userId = userId := by rw [hb, pendingRow]
    by_cases hu : u = userId
    · subst hu
      have hself := userRow_append_self (T := T) (b := b) (huser.symm ▸ hrow) (by simp [hb, UserVk.live, pendingRow])
      rw [huser] at hself
      rw [VkService.linkOf, hself, VkService.linkOf, hrow, Option.bind_some, UserVk.link, hb]
      rfl
    · rw [VkService.linkOf, userRow_append_ne (huser.symm ▸ hu), VkService.linkOf]

theorem Transitioned.linkOf (hT : T.Wf) {peer : PeerId} {state : BindingState} {done : Bool}
    (h : Transitioned peer state T done T') (u : UUID) : linkOf T' u =
      if done then (linkOf T u).map fun k => if k.peer = peer then
        { k with state := state } else k else linkOf T u := by
  cases h with
  | nothing => rfl
  | @changed b w l hrow hl =>
    obtain ⟨hb, hpeer, hlive⟩ := peerRow_some hrow
    refine (linkOf_update hT hb hlive (f := withState w state) (fun _ => ⟨rfl, rfl⟩) u).trans ?_
    by_cases hu : u = b.userId
    · subst hu
      simp [VkService.linkOf, hT.userRow_of_mem hb hlive, UserVk.link, withState, hpeer]
    · rw [if_neg hu, if_pos rfl, VkService.linkOf]
      cases hrow' : userRow T u with
      | none => rfl
      | some r =>
        obtain ⟨hr, huser, hlive'⟩ := userRow_some hrow'
        have hne : r.vkPeerId ≠ some peer := by
          intro hp
          have := hT.peerRow_of_mem hr hlive' hp
          rw [hrow, Option.some.injEq] at this
          exact hu (by rw [← huser, this])
        cases hp : r.vkPeerId with
        | none => simp [UserVk.link, hp]
        | some q =>
          have hq : q ≠ peer := fun heq => hne (hp.trans (congrArg some heq))
          simp [UserVk.link, hp, hq]

/-- A confirmation is answered as confirmed for the user of a row that had no peer, and links it. -/
theorem linkOf_confirmed (hT : Consistent T) {o : Surroundings} {code : Str} {peer : PeerId} {sn dn : Option String}
    {c : VkConfirmation} {b : UserVk} (he : confirmExit settings T code peer (o 0).now (o 4).now = .confirmed c b)
    (masked : String) (u : UUID) :
    linkOf (afterConfirm o T masked peer sn dn (.confirmed c b)) u =
      (if u = b.userId then some ⟨c.userVkId, peer, .active⟩ else linkOf T u) ∧ linkOf T b.userId = none := by
  have hcase := confirmExit_case settings T code peer (o 0).now (o 4).now
  rw [he] at hcase
  rcases hcase with ⟨-, hcase⟩ | ⟨-, hcase⟩
  · cases hcase
  cases hcase with
  | confirmed hc hunused hexp hbinding hlive hpeer =>
    obtain ⟨hb, hid⟩ := bindingRow_some hbinding
    refine ⟨?_, ?_⟩
    · have hupd := linkOf_update hT.wf hb hlive (f := activated (o 6) peer sn dn) (fun _ => ⟨rfl, rfl⟩) u
      rw [hid] at hupd
      rw [← hid]
      exact hupd
    · obtain ⟨r, hr, hrid, -, hpending⟩ := hT.unusedPending c (codeRow_some hc).1 hunused
      obtain rfl : r = b := eq_of_key hT.wf.userVkIds hr hb (hrid.trans hid.symm)
      simp [linkOf, hT.wf.userRow_of_mem hr hlive, UserVk.link, (hT.pendingIff r hr).mp hpending]

/-- What a request does to the links is read off its episode. -/
theorem Served.linkOf (hT : Consistent T) (hserved : Served settings T v r T') (u : UUID) :
    linkOf T' u = (Episode.mk v T r T').relink u (linkOf T u) ∧
      ((Episode.mk v T r T').confirms u ≠ none → linkOf T u = none) := by
  cases hserved with
  | ensured hensured =>
    rw [hensured.linkOf, relink_idle rfl rfl rfl]
    exact ⟨rfl, by simp [Episode.confirms]⟩
  | issued hissued =>
    obtain ⟨w₁, w₂, exp, l, hensured, -⟩ := hissued
    rw [relink_idle rfl rfl rfl, ← hensured.linkOf]
    exact ⟨rfl, by simp [Episode.confirms]⟩
  | refused message => exact ⟨(relink_idle rfl rfl rfl).symm, by simp [Episode.confirms]⟩
  | @unlinked o userId done T' hunlinked =>
    refine ⟨?_, by simp [Episode.confirms]⟩
    have hrelink : ∀ link, (Episode.mk ⟨.unlink userId, o⟩ T (.ok (.unlinked done)) T').relink u link =
        if u = userId then none else link := by
      intro link
      simp [Episode.relink, Episode.confirms, Episode.unlinks, Episode.transitions, eq_comm (a := u)]
    rw [hrelink]
    cases hunlinked with
    | nothing l hrow hl =>
      by_cases hu : u = userId
      · rw [if_pos hu, hu]
        exact congrArg (Option.bind · UserVk.link) hrow
      · rw [if_neg hu]
        rfl
    | removed w₁ w₂ l hrow hl =>
      have hdel := userRow_delete (T := T) (u := u) w₂ userId
      by_cases hu : u = userId
      · rw [if_pos hu] at hdel ⊢
        exact congrArg (Option.bind · UserVk.link) hdel
      · rw [if_neg hu] at hdel ⊢
        exact congrArg (Option.bind · UserVk.link) hdel
  | @confirmed o code peer sn dn e he =>
    cases e with
    | confirmed c b =>
      obtain ⟨hlink, hnone⟩ := linkOf_confirmed hT he.symm (maskCode (normalizeCode code)) u
      rw [hlink]
      by_cases hu : u = b.userId
      · subst hu
        exact ⟨by simp [Episode.relink, Episode.confirms, ConfirmExit.result], fun _ => hnone⟩
      · simp [Episode.relink, Episode.confirms, ConfirmExit.result, Episode.unlinks, Episode.transitions, hu, Ne.symm hu]
    | _ => exact ⟨(relink_idle rfl rfl rfl).symm, fun h => absurd rfl h⟩
  | @blocked o peer done T' htrans =>
    refine ⟨?_, by simp [Episode.confirms]⟩
    rw [htrans.linkOf hT.wf]
    cases done <;> rfl
  | @unblocked o peer done T' htrans =>
    refine ⟨?_, by simp [Episode.confirms]⟩
    rw [htrans.linkOf hT.wf]
    cases done <;> rfl
  | delivered hsame hr =>
    rw [linkOf_congr hsame.1, relink_idle rfl rfl rfl]
    exact ⟨rfl, by simp [Episode.confirms]⟩

/-- The link of a user after a request. -/
theorem linkOf_serve (hT : Consistent T) (v : Visit) (u : UUID) :
    linkOf (serve settings T v).2.2 u = (episode settings T v).relink u (linkOf T u) :=
  ((serve_spec settings hT.wf v).1.linkOf hT u).1

/-- Only a user without a link is confirmed. -/
theorem linkOf_of_confirms (hT : Consistent T) {v : Visit} {u : UUID}
    (h : (episode settings T v).confirms u ≠ none) : linkOf T u = none :=
  ((serve_spec settings hT.wf v).1.linkOf hT u).2 h

end Served
end VkService
