import Mathlib
import VkService.Limits.SlidingWindow
import VkService.Sequential.Consistency

/-! The limit on failed confirmations in sequential runs: the bound over every window, when
a call is refused, and what the attempts of one peer cannot do to the others. -/
namespace VkService
open PyStr Effects UserVkRepository VkLogRepository

def Exn.isRateLimited : Exn → Bool
  | .rateLimited _ => true
  | _ => false

namespace Episode

/-- The journal rows of the request. -/
def entries (ep : Episode) : List VkLog := ep.after.vkLogs.drop ep.before.vkLogs.length

/-- When the request is recorded. -/
def stamp (ep : Episode) : Time := (ep.entries.head?.map (·.createdAt)).getD 0

/-- The clock reading a confirmation compares the journal with. -/
def checkedAt (ep : Episode) : Time := (ep.visit.world 0).now

/-- The peer of a confirmation and the exception it raised. -/
def raised (ep : Episode) : Option (PeerId × Exn) :=
  match ep.visit.request, ep.result with
  | .confirm _ peer _ _, .ok (.confirmation (.error x)) => some (peer, x)
  | _, _ => none

/-- A confirm call by the peer that raised anything but `RateLimitedError`. -/
def failed (vkPeerId : PeerId) (ep : Episode) : Bool :=
  ep.raised.any fun (peer, x) => peer == vkPeerId && !x.isRateLimited

def refused (vkPeerId : PeerId) (ep : Episode) : Bool :=
  ep.raised.any fun (peer, x) => peer == vkPeerId && x.isRateLimited

end Episode

/-- Journal rows are stamped after the check of their call, and checks after earlier stamps. -/
structure ClockOk (eps : List Episode) : Prop where
  stamped : ∀ ep ∈ eps, ∀ l ∈ ep.entries, l.action = .confirmation → ep.checkedAt ≤ l.createdAt
  nondecreasing : eps.Pairwise fun ep ep' => ∀ l ∈ ep.entries, l.action = .confirmation → l.createdAt ≤ ep'.checkedAt

section Count
variable {settings : VkSettings} {T T' : Tables}

theorem failedSince_other {l : VkLog} (hl : l.action ≠ .confirmation) (vkPeerId : PeerId) (since : Time) :
    failedSince .confirmation vkPeerId since failedStatuses l = false := by
  simp [failedSince, hl]

/-- The journal row of an exit counts for its own peer, when its status does. -/
theorem failedSince_log (w : World) (peer vkPeerId : PeerId) (since : Time) (masked : String) (e : ConfirmExit) :
    failedSince .confirmation vkPeerId since failedStatuses (e.log w peer masked) =
      (failedStatuses.contains e.status && since ≤ w.dbNow && peer == vkPeerId) := by
  have hpeer : (Int.repr peer == Int.repr vkPeerId) = (peer == vkPeerId) := by
    rw [Bool.eq_iff_iff, beq_iff_eq, beq_iff_eq]
    exact ⟨Int.repr_injective, congrArg Int.repr⟩
  simp [failedSince, ConfirmExit.log, hpeer]

/-- The exits that raise something else than `RateLimitedError` are the counted ones. -/
theorem counted_eq_failed {e : ConfirmExit} (he : ∀ c, e ≠ .bindingMissing c) :
    failedStatuses.contains e.status = (match e.result with
      | .error x => !x.isRateLimited
      | .ok _ => false) := by
  cases e with
  | bindingMissing c => exact absurd rfl (he c)
  | _ => rfl

theorem countFailedSince_append (rows : List VkLog) (hlogs : T'.vkLogs = T.vkLogs ++ rows) (vkPeerId : PeerId)
    (since : Time) : countFailedSince T' .confirmation vkPeerId since failedStatuses =
      countFailedSince T .confirmation vkPeerId since failedStatuses +
        rows.countP (failedSince .confirmation vkPeerId since failedStatuses) := by
  rw [countFailedSince, countFailedSince, hlogs, List.countP_append]

/-- What a request other than a confirmation writes to the journal. -/
theorem Served.entries_other {v : Visit} {r : Except Exn Answer} (hserved : Served settings T v r T')
    (hother : ∀ code peer sn dn, v.request ≠ .confirm code peer sn dn) :
    ∃ rows, T'.vkLogs = T.vkLogs ++ rows ∧ ∀ l ∈ rows, l.action ≠ .confirmation := by
  cases hserved with
  | ensured hensured => cases hensured <;> exact ⟨[], by simp, by simp⟩
  | issued hissued =>
    obtain ⟨w₁, w₂, exp, l, hensured, -, -, -, -, hl⟩ := hissued
    refine ⟨[l], ?_, by simp [hl]⟩
    cases hensured <;> rfl
  | refused message => exact ⟨[], by simp, by simp⟩
  | unlinked hunlinked =>
    cases hunlinked with
    | nothing l hrow hl => exact ⟨[l], rfl, by simp [hl]⟩
    | removed w₁ w₂ l hrow hl => exact ⟨[l], rfl, by simp [hl]⟩
  | confirmed he => exact absurd rfl (hother _ _ _ _)
  | blocked htrans =>
    cases htrans with
    | nothing l hrow hl => exact ⟨[l], rfl, by simp [hl]⟩
    | changed w l hrow hl => exact ⟨[l], rfl, by simp [hl]⟩
  | unblocked htrans =>
    cases htrans with
    | nothing l hrow hl => exact ⟨[l], rfl, by simp [hl]⟩
    | changed w l hrow hl => exact ⟨[l], rfl, by simp [hl]⟩
  | delivered hsame hr => exact ⟨[], by simp [hsame.2.2], by simp⟩

/-- A confirmation ends at its exit. -/
theorem Served.confirm_inv {code : Str} {peer : PeerId} {sn dn : Option String} {o : Surroundings}
    {r : Except Exn Answer} (hserved : Served settings T ⟨.confirm code peer sn dn, o⟩ r T') :
    ∃ e, e = confirmExit settings T (normalizeCode code) peer (o 0).now (o 4).now ∧
      r = .ok (.confirmation e.result) ∧ T' = afterConfirm o T (maskCode (normalizeCode code)) peer sn dn e := by
  cases hserved with
  | confirmed he => exact ⟨_, he, rfl, rfl⟩

/-- The episode of a confirmation that ends at `e`. -/
def confirmEpisode (T : Tables) (o : Surroundings) (code : Str) (peer : PeerId) (sn dn : Option String)
    (e : ConfirmExit) : Episode :=
  ⟨⟨.confirm code peer sn dn, o⟩, T, .ok (.confirmation e.result),
    afterConfirm o T (maskCode (normalizeCode code)) peer sn dn e⟩

section ConfirmEpisode
variable (o : Surroundings) (code : Str) (peer : PeerId) (sn dn : Option String) (e : ConfirmExit)

theorem confirmEpisode_entries : (confirmEpisode T o code peer sn dn e).entries =
    [e.log (o e.callsBeforeLog) peer (maskCode (normalizeCode code))] := by
  simp [confirmEpisode, Episode.entries, afterConfirm]

theorem confirmEpisode_stamp : (confirmEpisode T o code peer sn dn e).stamp = (o e.callsBeforeLog).dbNow := by
  simp [Episode.stamp, confirmEpisode_entries, ConfirmExit.log]

theorem confirmEpisode_failed (vkPeerId : PeerId) : (confirmEpisode T o code peer sn dn e).failed vkPeerId =
    (match e.result with
      | .error x => peer == vkPeerId && !x.isRateLimited
      | .ok _ => false) := by
  rw [Episode.failed, Episode.raised, confirmEpisode]
  cases e.result <;> rfl

theorem confirmEpisode_refused (vkPeerId : PeerId) : (confirmEpisode T o code peer sn dn e).refused vkPeerId =
    (match e.result with
      | .error x => peer == vkPeerId && x.isRateLimited
      | .ok _ => false) := by
  rw [Episode.refused, Episode.raised, confirmEpisode]
  cases e.result <;> rfl

end ConfirmEpisode

theorem episode_confirm (h : T.Wf) (o : Surroundings) (code : Str) (peer : PeerId) (sn dn : Option String) :
    episode settings T ⟨.confirm code peer sn dn, o⟩ = confirmEpisode T o code peer sn dn
      (confirmExit settings T (normalizeCode code) peer (o 0).now (o 4).now) := by
  obtain ⟨e, rfl, hr, hafter⟩ := (serve_spec settings h ⟨.confirm code peer sn dn, o⟩).1.confirm_inv
  rw [episode, hr, hafter]
  rfl

/-- A request that is no confirmation. -/
def Request.IsOther (request : Request) : Prop := ∀ code peer sn dn, request ≠ .confirm code peer sn dn

theorem Request.cases_confirm (request : Request) :
    (∃ code peer sn dn, request = .confirm code peer sn dn) ∨ request.IsOther := by
  cases request with
  | confirm code peer sn dn => exact .inl ⟨code, peer, sn, dn, rfl⟩
  | _ => exact .inr (by simp [Request.IsOther])

theorem Episode.raised_other (ep : Episode) (hother : ep.visit.request.IsOther) : ep.raised = none := by
  unfold Episode.raised
  split
  · rename_i hrequest _
    exact absurd hrequest (hother _ _ _ _)
  · rfl

/-- A request adds to the count of a peer exactly when it is a failed confirmation by it. -/
theorem countFailedSince_serve (h : Consistent T) (v : Visit) (vkPeerId : PeerId) (since : Time) :
    countFailedSince (serve settings T v).2.2 .confirmation vkPeerId since failedStatuses =
      countFailedSince T .confirmation vkPeerId since failedStatuses +
        (if (episode settings T v).failed vkPeerId && since ≤ (episode settings T v).stamp then 1 else 0) := by
  obtain ⟨request, o⟩ := v
  rcases request.cases_confirm with ⟨code, peer, sn, dn, rfl⟩ | hother
  · have hafter : (serve settings T ⟨.confirm code peer sn dn, o⟩).2.2 =
        (episode settings T ⟨.confirm code peer sn dn, o⟩).after := rfl
    rw [hafter, episode_confirm h.wf]
    generalize he : confirmExit settings T (normalizeCode code) peer (o 0).now (o 4).now = e
    have hne : ∀ c, e ≠ .bindingMissing c := fun c hc => h.not_bindingMissing (he.trans hc)
    rw [countFailedSince_append (T := T) [e.log (o e.callsBeforeLog) peer (maskCode (normalizeCode code))] rfl,
      confirmEpisode_failed, confirmEpisode_stamp, List.countP_singleton, failedSince_log, counted_eq_failed hne]
    cases e.result with
    | ok a => simp
    | error x => simp only [Bool.and_comm, Bool.and_left_comm]
  · obtain ⟨rows, hlogs, hrows⟩ := (serve_spec settings h.wf ⟨request, o⟩).1.entries_other hother
    rw [countFailedSince_append rows hlogs, List.countP_eq_zero.mpr fun l hl => by simp [failedSince_other (hrows l hl)]]
    simp [Episode.failed, episode, Episode.raised_other ⟨⟨request, o⟩, _, _, _⟩ hother]

/-- The journal counts the failed confirmations of the peer itself. -/
theorem countFailedSince_serveAll (h : Consistent T) (visits : List Visit) (vkPeerId : PeerId) (since : Time) :
    countFailedSince (serveAll settings T visits) .confirmation vkPeerId since failedStatuses =
      countFailedSince T .confirmation vkPeerId since failedStatuses +
        (episodes settings T visits).countP fun ep => ep.failed vkPeerId && since ≤ ep.stamp := by
  induction visits generalizing T with
  | nil => simp [episodes]
  | cons v vs ih =>
    rw [serveAll_cons, ih (serve_consistent settings h v), countFailedSince_serve h, episodes, List.countP_cons]
    omega

end Count

section Runs
variable {settings : VkSettings} {T : Tables}

/-- A confirmation raises `RateLimitedError` exactly when it finds the limit reached. -/
theorem refused_iff_overLimit (h : T.Wf) (o : Surroundings) (code : Str) (peer : PeerId) (sn dn : Option String) :
    (episode settings T ⟨.confirm code peer sn dn, o⟩).refused peer = true ↔ overLimit settings T peer (o 0).now := by
  rw [episode_confirm h, confirmEpisode_refused]
  rcases confirmExit_case settings T (normalizeCode code) peer (o 0).now (o 4).now with ⟨hover, he⟩ | ⟨hunder, hcase⟩
  · simp [he, ConfirmExit.result, Exn.isRateLimited, hover]
  · generalize confirmExit settings T (normalizeCode code) peer (o 0).now (o 4).now = e at hcase
    cases hcase <;> simp [ConfirmExit.result, Exn.isRateLimited, hunder]

/-- A confirmation fails otherwise only inside the limit. -/
theorem not_overLimit_of_failed (h : T.Wf) {v : Visit} {vkPeerId : PeerId}
    (hfailed : (episode settings T v).failed vkPeerId = true) : ¬ overLimit settings T vkPeerId (v.world 0).now := by
  obtain ⟨request, o⟩ := v
  rcases request.cases_confirm with ⟨code, peer, sn, dn, rfl⟩ | hother
  · intro hover
    rw [episode_confirm h, confirmEpisode_failed] at hfailed
    have hpeer : peer = vkPeerId := by
      split at hfailed
      · simp only [Bool.and_eq_true, beq_iff_eq] at hfailed
        exact hfailed.1
      · cases hfailed
    subst hpeer
    rw [confirmExit, if_pos hover] at hfailed
    simp [ConfirmExit.result, Exn.isRateLimited] at hfailed
  · simp [Episode.failed, Episode.raised_other (episode settings T ⟨request, o⟩) hother] at hfailed

end Runs

section Window
variable {settings : VkSettings} {visits : List Visit}

/-- The failed confirmations of a peer, as the limiter sees them. -/
def failures (vkPeerId : PeerId) (eps : List Episode) : List (SlidingWindow.Stamped Time) :=
  (eps.filter (·.failed vkPeerId)).map fun ep => ⟨ep.checkedAt, ep.stamp⟩

theorem episodes_failed_count (vkPeerId : PeerId) (eps : List Episode) (p : Time → Bool) :
    eps.countP (fun ep => ep.failed vkPeerId && p ep.stamp) = (failures vkPeerId eps).countP fun e => p e.stamp := by
  rw [failures, List.countP_map, List.countP_filter]
  simp [Bool.and_comm]

theorem countFailedSince_eq (vs : List Visit) (vkPeerId : PeerId) (since : Time) :
    countFailedSince (serveAll settings Tables.empty vs) .confirmation vkPeerId since failedStatuses =
      (failures vkPeerId (episodes settings Tables.empty vs)).countP fun e => since ≤ e.stamp := by
  rw [countFailedSince_serveAll Tables.empty_consistent, episodes_failed_count vkPeerId _ fun stamp => since ≤ stamp]
  simp [countFailedSince, Tables.empty]

private theorem filter_map_split {α β : Type} {p : α → Bool} {f : α → β} {l : List α} {earlier later : List β} {e : β}
    (h : (l.filter p).map f = earlier ++ e :: later) :
    ∃ first a rest, l = first ++ a :: rest ∧ p a = true ∧ earlier = (first.filter p).map f ∧ e = f a := by
  induction l generalizing earlier with
  | nil => simp at h
  | cons x l ih =>
    by_cases hx : p x = true
    · rw [List.filter_cons_of_pos hx, List.map_cons] at h
      cases earlier with
      | nil =>
        simp only [List.nil_append, List.cons.injEq] at h
        exact ⟨[], x, l, rfl, hx, rfl, h.1.symm⟩
      | cons y earlier =>
        simp only [List.cons_append, List.cons.injEq] at h
        obtain ⟨first, a, rest, rfl, ha, rfl, he⟩ := ih h.2
        exact ⟨x :: first, a, rest, rfl, ha, by simp [hx, h.1], he⟩
    · rw [List.filter_cons_of_neg hx] at h
      obtain ⟨first, a, rest, rfl, ha, rfl, he⟩ := ih h
      exact ⟨x :: first, a, rest, rfl, ha, by simp [hx], he⟩

/-- The journal lets a confirmation through by the counting rule of the window. -/
theorem failures_letThrough (settings : VkSettings) (visits : List Visit) (vkPeerId : PeerId) :
    SlidingWindow.LetThrough (minutes settings.vkConfirmationAttemptWindowMinutes) settings.vkConfirmationMaxAttempts
      (failures vkPeerId (episodes settings Tables.empty visits)) := by
  intro earlier e later heq
  obtain ⟨first, ep, rest, heps, hfailed, rfl, rfl⟩ := filter_map_split heq
  obtain ⟨vs, v, vs', -, rfl, rfl⟩ := episodes_split heps
  have hunder := not_overLimit_of_failed (serveAll_consistent settings vs).wf hfailed
  rw [overLimit, Nat.not_le, countFailedSince_eq] at hunder
  exact hunder

/-- A failed confirmation has one journal row, which carries its stamp. -/
theorem entry_of_failed {ep : Episode} (hep : ep ∈ episodes settings Tables.empty visits) {vkPeerId : PeerId}
    (hfailed : ep.failed vkPeerId = true) :
    ∃ l, l ∈ ep.entries ∧ l.action = .confirmation ∧ ep.stamp = l.createdAt := by
  obtain ⟨earlier, later, heps⟩ := List.append_of_mem hep
  obtain ⟨vs, ⟨request, o⟩, vs', -, -, rfl⟩ := episodes_split heps
  rcases request.cases_confirm with ⟨code, peer, sn, dn, rfl⟩ | hother
  · rw [episode_confirm (serveAll_consistent settings vs).wf, confirmEpisode_entries, confirmEpisode_stamp]
    exact ⟨_, List.mem_singleton_self _, rfl, rfl⟩
  · simp [Episode.failed, Episode.raised_other (episode settings _ ⟨request, o⟩) hother] at hfailed

/-- At most `max_attempts` failures of a peer are recorded in a window, wherever it begins. -/
theorem failed_in_window_le {eps : List Episode} (heps : eps = episodes settings Tables.empty visits)
    (hclock : ClockOk eps) (vkPeerId : PeerId) (s : ℝ) :
    eps.countP (fun ep => ep.failed vkPeerId && decide (s ≤ (ep.stamp : ℝ) ∧
      (ep.stamp : ℝ) ≤ s + (minutes settings.vkConfirmationAttemptWindowMinutes : ℝ))) ≤
      settings.vkConfirmationMaxAttempts := by
  subst heps
  have hlet := (failures_letThrough settings visits vkPeerId).map (Int.castAddHom ℝ)
    fun a b => by simp
  refine le_trans (le_of_eq ?_) (hlet.window_le ?_ s)
  · rw [failures, List.map_map, List.countP_map, List.countP_filter]
    refine List.countP_congr fun ep _ => ?_
    simp only [Function.comp_apply, Bool.and_eq_true, decide_eq_true_eq]
    exact and_comm
  · intro e he
    obtain ⟨e', he', rfl⟩ := List.mem_map.mp he
    obtain ⟨ep, hep, rfl⟩ := List.mem_map.mp he'
    obtain ⟨hep, hfailed⟩ := List.mem_filter.mp hep
    obtain ⟨l, hl, haction, hstamp⟩ := entry_of_failed hep hfailed
    simpa [SlidingWindow.Stamped.map, hstamp] using hclock.stamped ep hep l hl haction

/-- The failures of a peer that a confirmation finds in its window. -/
def recentFailures (settings : VkSettings) (vkPeerId : PeerId) (checkedAt : Time) (earlier : List Episode) : Nat :=
  earlier.countP fun ep => ep.failed vkPeerId &&
    decide (checkedAt - minutes settings.vkConfirmationAttemptWindowMinutes ≤ ep.stamp ∧ ep.stamp ≤ checkedAt)

/-- A call is refused exactly when its own peer has used up the attempts of the window. -/
theorem refused_iff_recentFailures {earlier later : List Episode} {ep : Episode}
    (heps : episodes settings Tables.empty visits = earlier ++ ep :: later)
    (hclock : ClockOk (episodes settings Tables.empty visits)) {code : Str} {vkPeerId : PeerId} {sn dn : Option String}
    (hreq : ep.visit.request = .confirm code vkPeerId sn dn) :
    ep.refused vkPeerId = true ↔
      settings.vkConfirmationMaxAttempts ≤ recentFailures settings vkPeerId ep.checkedAt earlier := by
  obtain ⟨vs, ⟨request, o⟩, vs', -, rfl, rfl⟩ := episodes_split heps
  obtain rfl : request = .confirm code vkPeerId sn dn := hreq
  rw [refused_iff_overLimit (serveAll_consistent settings vs).wf, overLimit,
    countFailedSince_serveAll Tables.empty_consistent, recentFailures]
  have hempty : ∀ since, countFailedSince Tables.empty .confirmation vkPeerId since failedStatuses = 0 := fun _ => rfl
  rw [hempty, Nat.zero_add]
  suffices heq : ∀ ep' ∈ episodes settings Tables.empty vs, ep'.failed vkPeerId = true → ep'.stamp ≤ (o 0).now by
    refine iff_of_eq (congrArg _ (List.countP_congr fun ep' hep' => ?_))
    by_cases hfailed : ep'.failed vkPeerId = true
    · simp [hfailed, heq ep' hep' hfailed, Episode.checkedAt, episode]
    · simp [hfailed]
  intro ep' hep' hfailed
  have hpair := hclock.nondecreasing
  rw [heps, List.pairwise_append] at hpair
  obtain ⟨l, hl, haction, hstamp⟩ := entry_of_failed hep' hfailed
  exact hstamp ▸ hpair.2.2 ep' hep' _ List.mem_cons_self l hl haction

end Window
end VkService
