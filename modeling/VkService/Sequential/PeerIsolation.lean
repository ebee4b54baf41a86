import VkService.Promises.Requests
import VkService.Sequential.RateLimit

/-! Two runs side by side, one without some failed confirmations of other peers. They agree
in everything but the journal, as long as no kept call owes its refusal to a removed one. -/
namespace VkService
open PyStr Effects Effects.Prog VkLogRepository

/-- Two states of the tables that differ in the journal at most. -/
def SameButJournal (T T' : Tables) : Prop :=
  T'.userVks = T.userVks ∧ T'.vkConfirmations = T.vkConfirmations ∧
    T'.vkNotificationDeliveries = T.vkNotificationDeliveries

theorem SameButJournal.refl (T : Tables) : SameButJournal T T := ⟨rfl, rfl, rfl⟩

theorem SameButJournal.symm {T T' : Tables} (h : SameButJournal T T') : SameButJournal T' T :=
  ⟨h.1.symm, h.2.1.symm, h.2.2.symm⟩

theorem SameButJournal.trans {T T' T'' : Tables} (h : SameButJournal T T') (h' : SameButJournal T' T'') :
    SameButJournal T T'' :=
  ⟨h'.1.trans h.1, h'.2.1.trans h.2.1, h'.2.2.trans h.2.2⟩

/-- The calls whose reply depends on the journal. -/
def Call.readsJournal : Call → Bool
  | .countFailedSince .. => true
  | _ => false

section Calls
variable {T T' : Tables}

theorem answer_sameButJournal (h : SameButJournal T T') (w : World) (ids : NewIds) {c : Call}
    (hc : c.readsJournal = false) : answer w ids T' c = answer w ids T c := by
  obtain ⟨rows, codes, logs, deliveries⟩ := T
  obtain ⟨rows', codes', logs', deliveries'⟩ := T'
  obtain ⟨rfl, rfl, rfl⟩ := h
  cases c with
  | countFailedSince => cases hc
  | _ => rfl

theorem SameButJournal.change (h : SameButJournal T T') (c : Change) : SameButJournal (c.apply T) (c.apply T') := by
  obtain ⟨hrows, hcodes, hdeliveries⟩ := h
  cases c <;> exact ⟨by simp [Change.apply, hrows], by simp [Change.apply, hcodes], by simp [Change.apply, hdeliveries]⟩

/-- Sessions that differ in the journal at most. -/
def Session.SameButJournal (s s' : Session) : Prop :=
  VkService.SameButJournal s.committed s'.committed ∧ VkService.SameButJournal s.working s'.working

/-- A call that does not read the journal keeps two such sessions together. -/
theorem handler_sameButJournal {s s' : Session} (h : s.SameButJournal s') (world : CallHistory → World)
    (history : CallHistory) {c : Call} (hc : c.readsJournal = false) :
    (handler world history c s).1 = (handler world history c s').1 ∧
      (handler world history c s).2.SameButJournal (handler world history c s').2 := by
  have hids : s'.newIds (world history) = s.newIds (world history) := by
    simp only [Session.newIds, h.2.1, h.2.2.1]
  simp only [handler, Session.exec, hids, answer_sameButJournal h.2 _ _ hc, true_and]
  generalize (answer (world history) (s.newIds (world history)) s.working c).2 = change
  cases change with
  | commit => exact ⟨h.2, h.2⟩
  | rollback => exact ⟨h.1, h.1⟩
  | _ => exact ⟨h.1, h.2.change _⟩

end Calls

section Requests
variable {settings : VkSettings} {T T' : Tables}

/-- Only a confirmation reads the journal. -/
theorem RequestCall.readsJournal {request : Request} (hother : request.IsOther) {h : CallHistory} {c : Call}
    (hc : RequestCall settings request h c) : c.readsJournal = false := by
  cases c with
  | countFailedSince =>
    cases request with
    | confirm code peer sn dn => exact absurd rfl (hother code peer sn dn)
    | deliver command => exact hc.elim
    | _ => cases hc
  | _ => rfl

theorem serve_other (settings : VkSettings) (h : SameButJournal T T') (v : Visit) (hother : v.request.IsOther) :
    (serve settings T' v).1 = (serve settings T v).1 ∧
      SameButJournal (serve settings T v).2.2 (serve settings T' v).2.2 := by
  have hcalls : Conforms (fun _ c => c.readsJournal = false) (fun _ _ => True) [] (v.request.prog settings) :=
    .mono (fun _ _ hc => hc.readsJournal hother) (fun _ _ _ => trivial) _ _ (request_conforms settings v.request)
  obtain ⟨hresult, -, hsame⟩ := hcalls.run_related Session.SameButJournal (handler fun h => v.world h.length)
    (handler fun h => v.world h.length) (fun history _ _ _ hc hs => handler_sameButJournal hs _ history hc)
    _ _ (Session.start T) (Session.start T') ⟨h, h⟩
  exact ⟨hresult.symm, hsame.1⟩

theorem lookupExit_sameButJournal (h : SameButJournal T T') (code : Str) (peer : PeerId) (readAt : Time) :
    lookupExit T' code peer readAt = lookupExit T code peer readAt := by
  obtain ⟨rows, codes, logs, deliveries⟩ := T
  obtain ⟨rows', codes', logs', deliveries'⟩ := T'
  obtain ⟨rfl, rfl, rfl⟩ := h
  rfl

theorem afterConfirm_sameButJournal (h : SameButJournal T T') (o : Surroundings) (masked : String) (peer : PeerId)
    (sn dn : Option String) (e : ConfirmExit) :
    SameButJournal (afterConfirm o T masked peer sn dn e) (afterConfirm o T' masked peer sn dn e) := by
  obtain ⟨hrows, hcodes, hdeliveries⟩ := h
  cases e <;> exact ⟨by simp [afterConfirm, ConfirmExit.userVks, hrows],
    by simp [afterConfirm, ConfirmExit.vkConfirmations, hcodes], hdeliveries⟩

/-- The limit says the same to a confirmation in both states. -/
def SameLimit (settings : VkSettings) (T T' : Tables) (v : Visit) : Prop :=
  ∀ code peer sn dn, v.request = .confirm code peer sn dn →
    (overLimit settings T peer (v.world 0).now ↔ overLimit settings T' peer (v.world 0).now)

theorem Episode.failed_congr (ep ep' : Episode) (hvisit : ep'.visit = ep.visit) (hresult : ep'.result = ep.result)
    (vkPeerId : PeerId) : ep'.failed vkPeerId = ep.failed vkPeerId := by
  simp only [Episode.failed, Episode.raised, hvisit, hresult]

/-- A request goes the same way in both states when the limit does. -/
theorem episode_sameButJournal (hT : T.Wf) (hT' : T'.Wf) (h : SameButJournal T T') {v : Visit}
    (hlim : SameLimit settings T T' v) : (episode settings T' v).result = (episode settings T v).result ∧
      SameButJournal (episode settings T v).after (episode settings T' v).after ∧
      ∀ q, (episode settings T v).failed q = true → (episode settings T' v).stamp = (episode settings T v).stamp := by
  obtain ⟨request, o⟩ := v
  rcases request.cases_confirm with ⟨code, peer, sn, dn, rfl⟩ | hother
  · have hexit : confirmExit settings T' (normalizeCode code) peer (o 0).now (o 4).now =
        confirmExit settings T (normalizeCode code) peer (o 0).now (o 4).now := by
      simp only [confirmExit, lookupExit_sameButJournal h, hlim _ _ _ _ rfl]
    rw [episode_confirm hT, episode_confirm hT', hexit]
    refine ⟨rfl, afterConfirm_sameButJournal h _ _ _ _ _ _, fun q _ => ?_⟩
    rw [confirmEpisode_stamp, confirmEpisode_stamp]
  · obtain ⟨hresult, hafter⟩ := serve_other settings h ⟨request, o⟩ hother
    refine ⟨hresult, hafter, fun q hfailed => ?_⟩
    simp [Episode.failed, Episode.raised_other (episode settings T ⟨request, o⟩) hother] at hfailed

/-- A confirmation that raises writes to the journal only. -/
theorem episode_raised (hT : T.Wf) {v : Visit} {q : PeerId} {x : Exn}
    (hraised : (episode settings T v).raised = some (q, x)) : SameButJournal T (serve settings T v).2.2 := by
  obtain ⟨request, o⟩ := v
  rcases request.cases_confirm with ⟨code, peer, sn, dn, rfl⟩ | hother
  · have hafter : (serve settings T ⟨.confirm code peer sn dn, o⟩).2.2 =
        (episode settings T ⟨.confirm code peer sn dn, o⟩).after := rfl
    rw [episode_confirm hT] at hraised
    rw [hafter, episode_confirm hT]
    generalize confirmExit settings T (normalizeCode code) peer (o 0).now (o 4).now = e at *
    cases e with
    | confirmed c b => simp [Episode.raised, confirmEpisode, ConfirmExit.result] at hraised
    | _ => exact ⟨rfl, rfl, rfl⟩
  · rw [Episode.raised_other (episode settings T ⟨request, o⟩) hother] at hraised
    cases hraised

end Requests

section Removal
variable {settings : VkSettings} {vkPeerId : PeerId} {T T' : Tables}

/-- The episodes of a run whose requests are marked as kept or not. -/
def markedEpisodes (settings : VkSettings) : Tables → List (Visit × Bool) → List (Episode × Bool)
  | _, [] => []
  | T, (v, keep) :: rest => (episode settings T v, keep) :: markedEpisodes settings (serve settings T v).2.2 rest

def kept {α : Type} (marked : List (α × Bool)) : List α := (marked.filter Prod.snd).map Prod.fst

@[simp] theorem kept_nil {α : Type} : kept ([] : List (α × Bool)) = [] := rfl
@[simp] theorem kept_cons_true {α : Type} (a : α) (rest : List (α × Bool)) :
    kept ((a, true) :: rest) = a :: kept rest := rfl
@[simp] theorem kept_cons_false {α : Type} (a : α) (rest : List (α × Bool)) :
    kept ((a, false) :: rest) = kept rest := rfl
@[simp] theorem kept_append {α : Type} (l l' : List (α × Bool)) : kept (l ++ l') = kept l ++ kept l' := by
  simp [kept]

theorem countP_kept_le {α : Type} (p : α → Bool) (marked : List (α × Bool)) :
    (kept marked).countP p ≤ (marked.map Prod.fst).countP p :=
  (List.filter_sublist.map Prod.fst).countP_le

/-- A confirmation by the peer. -/
def Episode.isBy (vkPeerId : PeerId) (ep : Episode) : Bool :=
  match ep.visit.request with
  | .confirm _ peer _ _ => peer == vkPeerId
  | _ => false

/-- What is removed are failing confirmations of other peers, and a kept refusal of another
peer is still due to failures that are kept. -/
structure Removal (settings : VkSettings) (vkPeerId : PeerId) (marked : List (Episode × Bool)) : Prop where
  removed : ∀ x ∈ marked, x.2 = false → ∃ q ≠ vkPeerId, ∃ e, x.1.raised = some (q, e)
  refused : ∀ earlier x later, marked = earlier ++ x :: later → x.2 = true → ∀ q ≠ vkPeerId,
    x.1.refused q = true → settings.vkConfirmationMaxAttempts ≤
      recentFailures settings q x.1.checkedAt (kept earlier)

/-- The journal counts the failures among some episodes. -/
def Counts (T : Tables) (eps : List Episode) : Prop :=
  ∀ q since, countFailedSince T .confirmation q since failedStatuses =
    eps.countP fun ep => ep.failed q && since ≤ ep.stamp

theorem Counts.serve (settings : VkSettings) {eps : List Episode} (h : Counts T eps) (hT : Consistent T) (v : Visit) :
    Counts (serve settings T v).2.2 (eps ++ [episode settings T v]) := by
  intro q since
  rw [countFailedSince_serve hT, h q since, List.countP_append, List.countP_singleton]

/-- The failures of the peer itself are all kept. -/
theorem Removal.countP_kept {past : List (Episode × Bool)}
    (h : ∀ x ∈ past, x.2 = false → ∃ q ≠ vkPeerId, ∃ e, x.1.raised = some (q, e)) (p : Episode → Bool) :
    (kept past).countP (fun ep => ep.failed vkPeerId && p ep) =
      (past.map Prod.fst).countP fun ep => ep.failed vkPeerId && p ep := by
  induction past with
  | nil => rfl
  | cons x past ih =>
    have hrest := ih fun y hy => h y (List.mem_cons_of_mem _ hy)
    obtain ⟨ep, keep⟩ := x
    cases keep with
    | true => simp [hrest, List.countP_cons]
    | false =>
      obtain ⟨q, hq, e, hraised⟩ := h (ep, false) (by simp) rfl
      have hfailed : ep.failed vkPeerId = false := by simp [Episode.failed, hraised, hq]
      simp [hrest, hfailed]

/-- A kept request finds the limit as it was. -/
theorem Removal.sameLimit {past later : List (Episode × Bool)} {v : Visit}
    (h : Removal settings vkPeerId (past ++ (episode settings T v, true) :: later)) (hT : T.Wf)
    (hcounts : Counts T (past.map Prod.fst)) (hcounts' : Counts T' (kept past)) : SameLimit settings T T' v := by
  rintro code peer sn dn hreq
  obtain ⟨request, o⟩ := v
  obtain rfl : request = .confirm code peer sn dn := hreq
  have hpast : ∀ x ∈ past, x.2 = false → ∃ q ≠ vkPeerId, ∃ e, x.1.raised = some (q, e) :=
    fun x hx => h.removed x (List.mem_append_left _ hx)
  constructor
  · intro hover
    by_cases hpeer : peer = vkPeerId
    · rw [overLimit, hcounts']
      rw [overLimit, hcounts] at hover
      rwa [hpeer, Removal.countP_kept hpast, ← hpeer]
    · have hrefused := (refused_iff_overLimit hT o code peer sn dn).mpr hover
      have hmany := h.refused past _ later rfl rfl peer hpeer hrefused
      rw [overLimit, hcounts']
      refine hmany.trans (List.countP_mono_left fun ep _ hin => ?_)
      simp only [Bool.and_eq_true, decide_eq_true_eq] at hin ⊢
      exact ⟨hin.1, hin.2.1⟩
  · intro hover
    rw [overLimit, hcounts'] at hover
    rw [overLimit, hcounts]
    exact hover.trans (countP_kept_le _ _)

/-- Run side by side, the two runs stay together. -/
theorem removal_run {marks : List (Visit × Bool)} (past : List (Episode × Bool))
    (h : Removal settings vkPeerId (past ++ markedEpisodes settings T marks)) (hT : Consistent T) (hT' : Consistent T')
    (hsame : SameButJournal T T') (hcounts : Counts T (past.map Prod.fst)) (hcounts' : Counts T' (kept past)) :
    (episodes settings T' (kept marks)).map (·.result) = (kept (markedEpisodes settings T marks)).map (·.result) ∧
      SameButJournal (serveAll settings T (marks.map Prod.fst)) (serveAll settings T' (kept marks)) := by
  induction marks generalizing T T' past with
  | nil => exact ⟨rfl, hsame⟩
  | cons m marks ih =>
    obtain ⟨v, keep⟩ := m
    have hnext := hcounts.serve settings hT v
    rw [markedEpisodes] at h
    have h' : Removal settings vkPeerId
        ((past ++ [(episode settings T v, keep)]) ++ markedEpisodes settings (serve settings T v).2.2 marks) := by
      simpa using h
    cases keep with
    | false =>
      obtain ⟨q, -, e, hraised⟩ := h.removed (episode settings T v, false) (by simp) rfl
      exact ih _ h' (serve_consistent settings hT v) hT' ((episode_raised hT.wf hraised).symm.trans hsame)
        (by simpa using hnext) (by simpa using hcounts')
    | true =>
      obtain ⟨hresult, hafter, hstamp⟩ := episode_sameButJournal hT.wf hT'.wf hsame (h.sameLimit hT.wf hcounts hcounts')
      have hnext' : Counts (serve settings T' v).2.2 (kept (past ++ [(episode settings T v, true)])) := by
        intro q since
        rw [hcounts'.serve settings hT' v q since]
        simp only [kept_append, kept_cons_true, kept_nil, List.countP_append, List.countP_singleton,
          Episode.failed_congr (episode settings T v) (episode settings T' v) rfl hresult]
        by_cases hfailed : (episode settings T v).failed q = true
        · simp [hfailed, hstamp q hfailed]
        · simp [hfailed]
      obtain ⟨hresults, hrows⟩ := ih _ h' (serve_consistent settings hT v) (serve_consistent settings hT' v) hafter
        (by simpa using hnext) hnext'
      refine ⟨?_, hrows⟩
      simp only [kept_cons_true, episodes, List.map_cons, markedEpisodes]
      rw [hresult]
      exact congrArg _ hresults

end Removal

/-- The limit on failed confirmations: its bound in every window, when it refuses, and what
the failures of other peers can be removed without. -/
theorem sliding_window_limit (settings : VkSettings) (visits : List Visit)
    (hclock : ClockOk (episodes settings Tables.empty visits)) :
    (∀ (vkPeerId : PeerId) (s : ℝ), (episodes settings Tables.empty visits).countP (fun ep => ep.failed vkPeerId &&
        decide (s ≤ (ep.stamp : ℝ) ∧
          (ep.stamp : ℝ) ≤ s + (minutes settings.vkConfirmationAttemptWindowMinutes : ℝ))) ≤
      settings.vkConfirmationMaxAttempts) ∧
    (∀ earlier ep later code vkPeerId sn dn, episodes settings Tables.empty visits = earlier ++ ep :: later →
      ep.visit.request = .confirm code vkPeerId sn dn →
      (ep.refused vkPeerId = true ↔
        settings.vkConfirmationMaxAttempts ≤ recentFailures settings vkPeerId ep.checkedAt earlier)) ∧
    ∀ vkPeerId marks, marks.map Prod.fst = visits →
      Removal settings vkPeerId (markedEpisodes settings Tables.empty marks) →
      (episodes settings Tables.empty (kept marks)).map (·.result) =
        (kept (markedEpisodes settings Tables.empty marks)).map (·.result) ∧
      (serveAll settings Tables.empty (kept marks)).userVks = (serveAll settings Tables.empty visits).userVks ∧
      (serveAll settings Tables.empty (kept marks)).vkConfirmations =
        (serveAll settings Tables.empty visits).vkConfirmations := by
  refine ⟨fun vkPeerId s => failed_in_window_le rfl hclock vkPeerId s, ?_, ?_⟩
  · intro earlier ep later code vkPeerId sn dn heps hreq
    exact refused_iff_recentFailures heps hclock hreq
  · rintro vkPeerId marks rfl hremoval
    obtain ⟨hresults, hsame⟩ := removal_run [] hremoval Tables.empty_consistent Tables.empty_consistent
      (.refl _) (fun _ _ => rfl) fun _ _ => rfl
    exact ⟨hresults, hsame.1, hsame.2.1⟩

section Example

/-- User 7 is issued the code `AAAA`, peer 1 mistypes it and is refused, peer 2 links it. -/
def mistypedOnce : List (Visit × Bool) :=
  [(⟨.issueConfirmation 7, fun _ => .still 0⟩, true),
   (⟨.confirm "BAD".toList 1 none none, fun _ => .still 0⟩, false),
   (⟨.confirm "AAAA".toList 1 none none, fun _ => .still 0⟩, true),
   (⟨.confirm "AAAA".toList 2 none none, fun _ => .still 0⟩, true)]

theorem mistypedOnce_clockOk : ClockOk (episodes .least Tables.empty (mistypedOnce.map Prod.fst)) where
  stamped := by decide +kernel
  nondecreasing := by decide +kernel

theorem mistypedOnce_removed : ∀ x ∈ markedEpisodes .least Tables.empty mistypedOnce, x.2 = false →
    ∃ q ≠ 2, ∃ e, x.1.raised = some (q, e) := by
  have hraised : ∀ x ∈ markedEpisodes .least Tables.empty mistypedOnce, x.2 = false →
      x.1.raised = some (1, .notFound "Код подтверждения недействителен") := by decide +kernel
  exact fun x hx hremoved => ⟨1, by decide, _, hraised x hx hremoved⟩

/-- Without the mistyped code the refused call goes through and takes the binding. -/
theorem removal_can_lift_a_refusal : ¬ ∀ settings marks vkPeerId,
    ClockOk (episodes settings Tables.empty (marks.map Prod.fst)) →
    (∀ x ∈ markedEpisodes settings Tables.empty marks, x.2 = false → ∃ q ≠ vkPeerId, ∃ e, x.1.raised = some (q, e)) →
    ((episodes settings Tables.empty (kept marks)).filter (·.isBy vkPeerId)).map (·.result) =
      ((kept (markedEpisodes settings Tables.empty marks)).filter (·.isBy vkPeerId)).map (·.result) ∧
    (serveAll settings Tables.empty (kept marks)).userVks =
      (serveAll settings Tables.empty (marks.map Prod.fst)).userVks ∧
    (serveAll settings Tables.empty (kept marks)).vkConfirmations =
      (serveAll settings Tables.empty (marks.map Prod.fst)).vkConfirmations := by
  intro hclaim
  have hrows := (hclaim .least mistypedOnce 2 mistypedOnce_clockOk mistypedOnce_removed).2.1
  have hpeers : (serveAll .least Tables.empty (kept mistypedOnce)).userVks.map (·.vkPeerId) ≠
      (serveAll .least Tables.empty (mistypedOnce.map Prod.fst)).userVks.map (·.vkPeerId) := by decide +kernel
  exact hpeers (congrArg (List.map (·.vkPeerId)) hrows)

/-- A mistyped code. -/
def mistyped : Visit := ⟨.confirm "BAD".toList 1 none none, fun _ => .still 0⟩

private theorem mistyped_clockOk : ClockOk (episodes .least Tables.empty [mistyped, mistyped]) where
  stamped := by decide +kernel
  nondecreasing := by decide +kernel

private theorem mistyped_removal :
    Removal .least 2 (markedEpisodes .least Tables.empty [(mistyped, true), (mistyped, false)]) where
  removed := by
    have hraised : ∀ x ∈ markedEpisodes .least Tables.empty [(mistyped, true), (mistyped, false)], x.2 = false →
        x.1.raised = some (1, .rateLimited "Слишком много неудачных попыток, повторите позже") := by decide +kernel
    exact fun x hx hremoved => ⟨1, by decide, _, hraised x hx hremoved⟩
  refused := by
    have hraised : ∀ x ∈ markedEpisodes .least Tables.empty [(mistyped, true), (mistyped, false)], x.2 = true →
        x.1.raised = some (1, .notFound "Код подтверждения недействителен") := by decide +kernel
    intro earlier x later heq hkept q _ hrefused
    have hx := hraised x (by simp [heq]) hkept
    simp [Episode.refused, hx, Exn.isRateLimited] at hrefused

/-- Peer 1 mistypes a code twice: one failure is counted, the second call is refused, and
nothing but the journal would miss it. -/
theorem sliding_window_limit_mistyped :
    (episodes .least Tables.empty [mistyped, mistyped]).countP (fun ep => ep.failed 1 &&
      decide ((0 : ℝ) ≤ (ep.stamp : ℝ) ∧ (ep.stamp : ℝ) ≤ 0 + (minutes 1 : ℝ))) ≤ 1 ∧
    (episode .least (serve .least Tables.empty mistyped).2.2 mistyped).refused 1 = true ∧
    (serveAll .least Tables.empty [mistyped]).userVks =
    (serveAll .least Tables.empty [mistyped, mistyped]).userVks := by
  obtain ⟨hbound, hrefused, hremoval⟩ := sliding_window_limit .least [mistyped, mistyped] mistyped_clockOk
  refine ⟨hbound 1 0, ?_, (hremoval 2 [(mistyped, true), (mistyped, false)] rfl mistyped_removal).2.1⟩
  exact (hrefused [episode .least Tables.empty mistyped] _ [] "BAD".toList 1 none none rfl rfl).mpr (by decide +kernel)

end Example
end VkService
