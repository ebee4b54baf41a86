import Mathlib.Data.Real.Basic
import VkService.Limits.SlidingWindow
import VkService.Storage.Appended
import VkService.Concurrent.Sessions

/-! Whether the limit on failed confirmations holds for attempts that overlap. The limiter counts
journal rows that are committed, and an attempt writes its own row last. So the attempts of a
peer that are under way are not counted, and the limit holds when they are few enough. -/
namespace VkService
open PyStr Effects Effects.Machine RowStore VkLogRepository SlidingWindow

/-- A count under the limit, which lets its confirmation through. -/
def CallEvent.passes (settings : VkSettings) : CallEvent → Bool
  | ⟨.countFailedSince .., .ok n⟩ => n < settings.vkConfirmationMaxAttempts
  | _ => false

def Request.confirmsFor (vkPeerId : PeerId) : Request → Bool
  | .confirm _ peer _ _ => peer == vkPeerId
  | _ => false

/-- The confirmations of a peer under way: let through, and neither ended nor aborted. -/
def underway (settings : VkSettings) (pool : Tid → Request) (vkPeerId : PeerId) (s : Run) : List Tid :=
  (s.trace.map (·.1)).dedup.filter fun t =>
    (pool t).confirmsFor vkPeerId && (s.history t).any (CallEvent.passes settings) &&
      (s.history t).all (fun e : CallEvent => !e.op.ends) && (s.prog t).isSome

/-- A confirmation is let through only while the failures counted and the attempts of its peer
under way are fewer than the limit; and no journal row is stamped before the check of its call. -/
def countsUnderway (settings : VkSettings) (pool : Tid → Request) : Move Tid World → Run → Bool
  | .step t w, s =>
    match s.prog t with
    | some (.call (.countFailedSince action vkPeerId since failed) _) =>
      let n := countFailedSince (s.shared.view t) action vkPeerId since failed
      settings.vkConfirmationMaxAttempts ≤ n ||
        n + (underway settings pool vkPeerId s).length < settings.vkConfirmationMaxAttempts
    | some (.call (.logAction ..) _) =>
      (s.history t).all fun e : CallEvent =>
        match e.op with
        | .countFailedSince _ _ since _ => since + minutes settings.vkConfirmationAttemptWindowMinutes ≤ w.dbNow
        | _ => true
    | _ => true
  | .kill _, _ => true

abbrev CountsUnderway (settings : VkSettings) (pool : Tid → Request) (m : Move Tid World) (s : Run) : Prop :=
  countsUnderway settings pool m s = true

section Attempts
variable (settings : VkSettings) (pool : Tid → Request) (vkPeerId : PeerId) (s : Run) (t : Tid)

/-- A confirmation of the peer was let through by a count of its failures from this time on. -/
def Admitted (since : Time) : Prop :=
  (∃ code sn dn, pool t = .confirm code vkPeerId sn dn) ∧ ∃ n < settings.vkConfirmationMaxAttempts,
    ⟨.countFailedSince .confirmation vkPeerId since failedStatuses, .ok n⟩ ∈ s.history t

/-- The journal row of a failed confirmation. -/
def FailedEntry (h : CallHistory) (l : VkLog) : Prop :=
  ∃ status ∈ failedStatuses, ∃ details,
    ⟨.logAction .confirmation status (("vk_peer_id", toString vkPeerId) :: details), .ok l⟩ ∈ h

/-- A confirmation of the peer has looked its code up and ended in a failed status, recorded by
this journal row. -/
structure FailedAttempt (l : VkLog) : Prop where
  confirms : ∃ code sn dn, pool t = .confirm code vkPeerId sn dn
  lookedUp : ∃ code reply, ⟨.confirmationGetByCode code, reply⟩ ∈ s.history t
  entry : FailedEntry vkPeerId (s.history t) l
  committed : Committed s t

/-- An attempt that may turn out to have failed at this time or later. -/
def MayFailSince (since : Time) : Prop :=
  Running s t ∨ ∃ l, FailedAttempt pool vkPeerId s t l ∧ since ≤ l.createdAt

end Attempts

section Histories
variable {settings : VkSettings} {code : Str} {vkPeerId : PeerId} {sn dn : Option String} {h : CallHistory}
    {p : ConfirmPoint}

/-- The journal is written after the control flow. -/
theorem ConfirmAt.not_logged (hat : ConfirmAt settings code vkPeerId sn dn h p) (action : LogAction)
    (status : LogStatus) (details : Details) (reply : Except Exn VkLog) :
    ⟨.logAction action status details, reply⟩ ∉ h := by
  induction hat with
  | start => simp
  | _ =>
    rename_i ih
    simpa using ih

/-- Past the limit the count is behind. -/
theorem ConfirmAt.counted {τ : Time} {n : Nat} (hat : ConfirmAt settings code vkPeerId sn dn h (.checked τ n)) :
    ⟨.countFailedSince .confirmation vkPeerId (τ - minutes settings.vkConfirmationAttemptWindowMinutes) failedStatuses,
      .ok n⟩ ∈ h := by
  cases hat with
  | checked _ hat => exact List.mem_cons_self

theorem ConfirmCall.counting {action : LogAction} {peer : PeerId} {since : Time} {failed : List LogStatus}
    (hcall : ConfirmCall settings code vkPeerId sn dn h (.countFailedSince action peer since failed)) :
    action = .confirmation ∧ peer = vkPeerId ∧ failed = failedStatuses ∧
      ∃ τ, ConfirmAt settings code vkPeerId sn dn h (.clocked τ) := by
  cases hcall with
  | count hat => exact ⟨rfl, rfl, rfl, _, hat⟩

theorem ConfirmCall.logging {action : LogAction} {status : LogStatus} {details : Details}
    (hcall : ConfirmCall settings code vkPeerId sn dn h (.logAction action status details)) :
    ∃ p, ConfirmAt settings code vkPeerId sn dn h p := by
  cases hcall with
  | log details hat hs => exact ⟨_, hat⟩

/-- Once a failure is in the journal, only the end of the transaction is left. -/
theorem ConfirmCall.closing_of_logged {c : Call} {l : VkLog} (hcall : ConfirmCall settings code vkPeerId sn dn h c)
    (hentry : FailedEntry vkPeerId h l) : c.ends = true := by
  obtain ⟨status, -, details, hmem⟩ := hentry
  cases hcall with
  | commit | close => rfl
  | check hat | count hat | lookup hat | load hat | reread hat | peer hat | activate hat | markUsed hat | log _ hat =>
    exact absurd hmem (hat.not_logged _ _ _ _)

end Histories

section Runs
variable {hashtext : String → Int} {settings : VkSettings} {pool : Tid → Request} {T : Tables} {s : Run}
  {cond : Move Tid World → Run → Prop} {t : Tid} {vkPeerId : PeerId} {l : VkLog}

/-- The journal row of a failure is counted from any time up to its stamp. -/
theorem failed_row (hT : T.Wf) (hreach : Reaches hashtext cond (launch settings pool (.ofTables T)) s)
    (hentry : FailedEntry vkPeerId (s.history t) l) {since : Time} (hsince : since ≤ l.createdAt) :
    failedSince .confirmation vkPeerId since failedStatuses l = true := by
  obtain ⟨status, hstatus, details, hmem⟩ := hentry
  obtain ⟨s₁, hmade⟩ := Reach.makesAt hreach hmem nofun
  obtain ⟨w, next, -, hcalls⟩ := made_calls hT hmade
  obtain ⟨-, hreply, -⟩ := execCall_cases hcalls.exec
  obtain rfl : l = ⟨.confirmation, status, ("vk_peer_id", toString vkPeerId) :: details, w.dbNow⟩ :=
    Except.ok.inj hreply
  simp [failedSince, hstatus, hsince]

/-- A failure is stamped after the check that has let it through. -/
theorem failed_stamp (hT : T.Wf)
    (hreach : Reaches hashtext (CountsUnderway settings pool) (launch settings pool (.ofTables T)) s) {since : Time}
    (hadmitted : Admitted settings pool vkPeerId s t since) (hentry : FailedEntry vkPeerId (s.history t) l) :
    since + minutes settings.vkConfirmationAttemptWindowMinutes ≤ l.createdAt := by
  obtain ⟨⟨code, sn, dn, hpool⟩, n, -, hcount⟩ := hadmitted
  obtain ⟨status, -, details, hmem⟩ := hentry
  obtain ⟨s₁, hmade⟩ := Reach.makesAt hreach hmem nofun
  obtain ⟨later, hhistory⟩ := hmade.history
  obtain ⟨w, next, hcond, hcalls⟩ := made_calls hT hmade
  have hbefore : ⟨.countFailedSince .confirmation vkPeerId since failedStatuses, .ok n⟩ ∈ s₁.history t := by
    rw [hhistory] at hcount
    rcases List.mem_append.mp hcount with hlater | hcount
    · -- nothing is counted any more once the journal is written
      have htraced := (reaches_orderly hreach).traced t
      obtain ⟨newer, older, rfl⟩ := List.append_of_mem hlater
      rw [hhistory, List.append_assoc, List.cons_append, hpool] at htraced
      obtain ⟨-, -, -, τ, hat⟩ := ConfirmCall.counting htraced.before
      exact absurd (List.mem_append_right _ List.mem_cons_self) (hat.not_logged _ _ _ _)
    · exact (List.mem_cons.mp hcount).resolve_left nofun
  obtain ⟨k, hp⟩ := hcalls.running
  simp only [CountsUnderway, countsUnderway, hp, List.all_eq_true] at hcond
  obtain ⟨-, hreply, -⟩ := execCall_cases hcalls.exec
  obtain rfl : l = ⟨.confirmation, status, ("vk_peer_id", toString vkPeerId) :: details, w.dbNow⟩ :=
    Except.ok.inj hreply
  simpa using hcond _ hbefore

/-- The journal is only appended to. -/
theorem vkLogs_appended (hreach : Reaches hashtext cond (launch settings pool (.ofTables T)) s) :
    Appended s.shared.vkLogs := by
  refine reach_induction (database hashtext) (I := fun s => Appended s.shared.vkLogs) (appended_ofRows _) ?_ ?_ hreach
  · intro s t w op k r next _ happ _ _ hexec
    have hstep := exec_vkLogs hexec
    show Appended next.vkLogs
    generalize next.vkLogs = after at hstep
    cases hstep with
    | same => exact happ
    | committed => exact happ.commit
    | rolledBack => exact happ.rollback
    | logged => exact happ.insert
  · intro s t op k _ happ _ _
    exact happ.rollback

/-- Until its commit an attempt holds the row of its failure. -/
theorem failed_held (hT : T.Wf) (hreach : Reaches hashtext cond (launch settings pool (.ofTables T)) s)
    (hpool : ∃ code sn dn, pool t = .confirm code vkPeerId sn dn) (hentry : FailedEntry vkPeerId (s.history t) l)
    (hrun : Running s t) : Held t l s.shared.vkLogs := by
  obtain ⟨code, sn, dn, hpool⟩ := hpool
  refine reaches_induction (I := fun s => FailedEntry vkPeerId (s.history t) l → Running s t → Held t l s.shared.vkLogs)
    hT .refl (fun ⟨_, _, _, hmem⟩ => by cases hmem) ?_ ?_ hreach hentry hrun
  · rintro s t' w c k r next - hinv - hcalls ⟨status, hstatus, details, hmem⟩ hrun
    obtain ⟨hrun, hopen⟩ := hrun.before hcalls
    have hstep := exec_vkLogs hcalls.exec
    show Held t l next.vkLogs
    rcases mem_history_cases hmem with hold | ⟨rfl, heq⟩
    · have hheld := hinv ⟨status, hstatus, details, hold⟩ hrun
      by_cases ht : t = t'
      · -- it makes no call any more that does not end its transaction
        subst ht
        have hallowed := hcalls.allowed
        rw [hpool] at hallowed
        have hends := ConfirmCall.closing_of_logged hallowed ⟨status, hstatus, details, hold⟩
        rw [hopen rfl] at hends
        cases hends
      · generalize next.vkLogs = after at hstep
        cases hstep with
        | same => exact hheld
        | committed => exact hheld.commit ht
        | rolledBack => exact hheld.rollback ht
        | logged => exact hheld.insert
    · cases heq
      generalize next.vkLogs = after at hstep
      generalize hreply : (Except.ok l : Except Exn VkLog) = reply at hstep
      cases hstep with
      | same _ hlog => exact absurd rfl (hlog _ _ _)
      | rolledBack hr =>
        rcases hr with hr | hr | ⟨_, hr⟩
        · cases hr
        · cases hr
        · cases hreply.trans hr
      | logged =>
        cases hreply
        exact held_insert_self
  · intro s t' hreach hinv hentry hrun
    obtain ⟨hrun, hne⟩ := hrun.before_drop
    exact (hinv hentry hrun).rollback hne

/-- A failed attempt after a step was one before, or it was under way and has committed now. -/
theorem FailedAttempt.before {t' : Tid} {w : World} {c : Call} {k : Except Exn c.Reply → Py Answer}
    {r : Except Exn c.Reply} {next : Store} (hcalls : Calls hashtext settings pool s t' w c r next)
    (h : FailedAttempt pool vkPeerId (s.advance t' c k r next) t l) : FailedAttempt pool vkPeerId s t l ∨
      (t = t' ∧ c = .commit ∧ Running s t ∧ FailedEntry vkPeerId (s.history t) l) := by
  obtain ⟨⟨code, sn, dn, hpool⟩, ⟨code', reply, hlooked⟩, ⟨status, hstatus, details, hmem⟩, hcommitted⟩ := h
  have hallowed : t = t' → ConfirmCall settings code vkPeerId sn dn (s.history t) c := by
    rintro rfl
    have hallowed := hcalls.allowed
    rw [hpool] at hallowed
    exact hallowed
  have hwritten : ⟨.logAction .confirmation status (("vk_peer_id", toString vkPeerId) :: details), .ok l⟩ ∈ s.history t := by
    rcases mem_history_cases hmem with hold | ⟨ht, heq⟩
    · exact hold
    · cases heq
      rcases hcommitted.cases with hbefore | ⟨-, hc⟩
      · obtain ⟨p, hat⟩ := (hallowed ht).logging
        exact absurd hbefore.ended hat.not_ended
      · cases hc
  rcases hcommitted.cases with hbefore | ⟨rfl, rfl⟩
  · left
    refine ⟨⟨code, sn, dn, hpool⟩, ⟨code', ?_⟩, ⟨status, hstatus, details, hwritten⟩, hbefore⟩
    rcases mem_history_cases hlooked with hold | ⟨ht, heq⟩
    · exact ⟨reply, hold⟩
    · cases heq
      cases (hallowed ht).closing_of_logged ⟨status, hstatus, details, hwritten⟩
  · right
    obtain ⟨k', hp⟩ := hcalls.running
    refine ⟨rfl, rfl, ⟨?_, _, hp⟩, status, hstatus, details, hwritten⟩
    cases hallowed rfl with
    | commit hrun => exact hrun

/-- Every failed attempt has a committed row of its own, which the limiter counts. -/
theorem failed_counted (hT : T.Wf) (hreach : Reaches hashtext cond (launch settings pool (.ofTables T)) s)
    (since : Time) (ts : Finset Tid) (hts : ∀ t ∈ ts, ∃ l, FailedAttempt pool vkPeerId s t l ∧ since ≤ l.createdAt) :
    ts.card ≤ (snapshot s.shared.vkLogs).countP (failedSince .confirmation vkPeerId since failedStatuses) := by
  refine reaches_induction (I := fun s => ∀ ts : Finset Tid,
    (∀ t ∈ ts, ∃ l, FailedAttempt pool vkPeerId s t l ∧ since ≤ l.createdAt) →
      ts.card ≤ (snapshot s.shared.vkLogs).countP (failedSince .confirmation vkPeerId since failedStatuses))
    hT .refl ?_ ?_ ?_ hreach ts hts
  · intro ts hts
    rcases ts.eq_empty_or_nonempty with rfl | ⟨t, ht⟩
    · simp
    · obtain ⟨l, hfailed, -⟩ := hts t ht
      cases hfailed.committed
  · rintro s t' w c k r next hreach hinv - hcalls ts hts
    by_cases hcommit : c = .commit
    · subst hcommit
      obtain rfl := exec_commit hcalls.exec
      -- at most one of them has its row from this commit
      have hold : ∀ t ∈ ts.erase t', ∃ l, FailedAttempt pool vkPeerId s t l ∧ since ≤ l.createdAt := by
        intro t ht
        obtain ⟨hne, ht⟩ := Finset.mem_erase.mp ht
        obtain ⟨l, hfailed, hsince⟩ := hts t ht
        exact ⟨l, (hfailed.before hcalls).resolve_right fun h => hne h.1, hsince⟩
      have hothers := hinv (ts.erase t') hold
      have happ := vkLogs_appended hreach
      by_cases ht : t' ∈ ts
      · obtain ⟨l, hfailed, hsince⟩ := hts t' ht
        rcases hfailed.before hcalls with hbefore | ⟨-, -, hrun, hentry⟩
        · obtain ⟨code, sn, dn, hpool⟩ := hbefore.confirms
          have hallowed := hcalls.allowed
          rw [hpool] at hallowed
          cases hallowed with
          | commit hrun => exact absurd hbefore.committed.ended hrun
        · have hmore := happ.countP_lt_commit (failed_held hT hreach hfailed.confirms hentry hrun)
            (failed_row hT hreach hentry hsince)
          rw [Finset.card_erase_of_mem ht] at hothers
          exact Nat.le_of_pred_lt (hothers.trans_lt hmore)
      · rw [Finset.erase_eq_of_notMem ht] at hothers
        rw [Sys.advance_shared, Store.commit, snapshot_commit]
        exact hothers.trans (happ.snapshot_sublist_view t').countP_le
    · have hsame : snapshot next.vkLogs = snapshot s.shared.vkLogs := by
        have hstep := exec_vkLogs hcalls.exec
        generalize next.vkLogs = after at hstep
        cases hstep with
        | same => rfl
        | committed => exact absurd rfl hcommit
        | rolledBack => exact snapshot_rollback
        | logged => exact snapshot_insert
      rw [Sys.advance_shared, hsame]
      refine hinv ts fun t ht => ?_
      obtain ⟨l, hfailed, hsince⟩ := hts t ht
      exact ⟨l, (hfailed.before hcalls).resolve_right fun h => hcommit h.2.1, hsince⟩
  · intro s t' hreach hinv ts hts
    rw [Sys.drop_shared, Store.rollback, snapshot_rollback]
    exact hinv ts fun t ht => (hts t ht).imp fun l h => ⟨⟨h.1.confirms, h.1.lookedUp, h.1.entry, h.1.committed⟩, h.2⟩

theorem mem_underway {since : Time} (hadmitted : Admitted settings pool vkPeerId s t since) (hrun : Running s t) :
    t ∈ underway settings pool vkPeerId s := by
  obtain ⟨⟨code, sn, dn, hpool⟩, n, hn, hcount⟩ := hadmitted
  obtain ⟨hended, p, hp⟩ := hrun
  refine List.mem_filter.mpr ⟨List.mem_dedup.mpr (List.mem_map.mpr ⟨_, mem_historyOf.mp hcount, rfl⟩), ?_⟩
  have hpasses : (s.history t).any (CallEvent.passes settings) = true :=
    List.any_eq_true.mpr ⟨_, hcount, by simpa [CallEvent.passes] using hn⟩
  have hopen : (s.history t).all (fun e : CallEvent => !e.op.ends) = true := by
    refine List.all_eq_true.mpr fun e he => ?_
    by_contra hends
    refine hended ⟨e, he, ?_⟩
    obtain ⟨op, reply⟩ := e
    cases op <;> simp_all [Call.ends]
  simp [hpool, Request.confirmsFor, hpasses, hopen, hp]

/-- What may still fail after a step may have failed before it. -/
theorem MayFailSince.before {t' : Tid} {w : World} {c : Call} {k : Except Exn c.Reply → Py Answer}
    {r : Except Exn c.Reply} {next : Store} (hcalls : Calls hashtext settings pool s t' w c r next) {since : Time}
    (h : MayFailSince pool vkPeerId (s.advance t' c k r next) t since) : MayFailSince pool vkPeerId s t since := by
  rcases h with hrun | ⟨l, hfailed, hsince⟩
  · exact .inl (hrun.before hcalls).1
  · rcases hfailed.before hcalls with hbefore | ⟨-, -, hrun, -⟩
    · exact .inr ⟨l, hbefore, hsince⟩
    · exact .inl hrun

/-- A count that lets its confirmation through has found few others, counted or under way. -/
theorem admitted_few (hT : T.Wf) (hreach : Reaches hashtext cond (launch settings pool (.ofTables T)) s) {w : World}
    {since : Time} {n : Nat} {next : Store} (hn : n < settings.vkConfirmationMaxAttempts)
    (hcond : CountsUnderway settings pool (.step t w) s)
    (hcalls : Calls hashtext settings pool s t w (.countFailedSince .confirmation vkPeerId since failedStatuses)
    (.ok n) next)
    (us : Finset Tid) (hus : ∀ u ∈ us, (∃ y, Admitted settings pool vkPeerId s u y) ∧ MayFailSince pool vkPeerId s u since) :
    us.card < settings.vkConfirmationMaxAttempts := by
  classical
  obtain ⟨k, hp⟩ := hcalls.running
  simp only [CountsUnderway, countsUnderway, hp, Bool.or_eq_true, decide_eq_true_eq] at hcond
  obtain ⟨-, hreply, -⟩ := execCall_cases hcalls.exec
  have hcount : n = countFailedSince (s.shared.view t) .confirmation vkPeerId since failedStatuses :=
    Except.ok.inj hreply
  rw [← hcount] at hcond
  have hrunning : (us.filter fun u => Running s u).card ≤ (underway settings pool vkPeerId s).length := by
    refine (Finset.card_le_card fun u hu => ?_).trans (List.toFinset_card_le _)
    obtain ⟨hu, hrun⟩ := Finset.mem_filter.mp hu
    obtain ⟨⟨y, hadmitted⟩, -⟩ := hus u hu
    exact List.mem_toFinset.mpr (mem_underway hadmitted hrun)
  have hfailed : (us.filter fun u => ¬ Running s u).card ≤
      (snapshot s.shared.vkLogs).countP (failedSince .confirmation vkPeerId since failedStatuses) := by
    refine failed_counted hT hreach since _ fun u hu => ?_
    obtain ⟨hu, hnot⟩ := Finset.mem_filter.mp hu
    exact (hus u hu).2.resolve_left hnot
  have hseen : (snapshot s.shared.vkLogs).countP (failedSince .confirmation vkPeerId since failedStatuses) ≤ n :=
    hcount ▸ ((vkLogs_appended hreach).snapshot_sublist_view t).countP_le
  have hsplit := Finset.card_filter_add_card_filter_not (s := us) fun u => Running s u
  omega

/-- A confirmation is let through by its one count. -/
theorem Admitted.cases {t' : Tid} {c : Call} {k : Except Exn c.Reply → Py Answer} {r : Except Exn c.Reply}
    {next : Store} {since : Time} (h : Admitted settings pool vkPeerId (s.advance t' c k r next) t since) :
    Admitted settings pool vkPeerId s t since ∨ t = t' ∧ (∃ code sn dn, pool t = .confirm code vkPeerId sn dn) ∧
      ∃ n < settings.vkConfirmationMaxAttempts,
        (⟨.countFailedSince .confirmation vkPeerId since failedStatuses, .ok n⟩ : CallEvent) = ⟨c, r⟩ := by
  obtain ⟨hpool, n, hn, hcount⟩ := h
  rcases mem_history_cases hcount with hold | ⟨ht, heq⟩
  · exact .inl ⟨hpool, n, hn, hold⟩
  · exact .inr ⟨ht, hpool, n, hn, heq⟩

theorem Admitted.advance {t' : Tid} {c : Call} {k : Except Exn c.Reply → Py Answer} {r : Except Exn c.Reply}
    {next : Store} {since : Time} (h : Admitted settings pool vkPeerId s t since) :
    Admitted settings pool vkPeerId (s.advance t' c k r next) t since := by
  obtain ⟨hpool, n, hn, hcount⟩ := h
  exact ⟨hpool, n, hn, Sys.mem_history_advance _ _ _ _ _ _ hcount⟩

/-- The attempts of a peer overlap as the limit allows. -/
theorem attempts_overlapping (hT : T.Wf) (vkPeerId : PeerId)
    (hreach : Reaches hashtext (CountsUnderway settings pool) (launch settings pool (.ofTables T)) s) :
    Overlapping settings.vkConfirmationMaxAttempts (Admitted settings pool vkPeerId s)
    (MayFailSince pool vkPeerId s) := by
  refine reaches_induction (I := fun s => Overlapping settings.vkConfirmationMaxAttempts
    (Admitted settings pool vkPeerId s) (MayFailSince pool vkPeerId s)) hT .refl ?_ ?_ ?_ hreach
  · exact overlapping_start fun t since ⟨_, _, _, hmem⟩ => by cases hmem
  · intro s t w c k r next hreach hinv hcond hcalls
    by_cases hnew : ∃ since, (∃ code sn dn, pool t = .confirm code vkPeerId sn dn) ∧
      ∃ n < settings.vkConfirmationMaxAttempts,
        (⟨.countFailedSince .confirmation vkPeerId since failedStatuses, .ok n⟩ : CallEvent) = ⟨c, r⟩
    · obtain ⟨since, hpool, n, hn, heq⟩ := hnew
      cases heq
      refine hinv.admit (i := t) (x := since) ⟨hpool, n, hn, ?_⟩ (fun u hne y => ⟨fun h => ?_, .advance⟩)
        (fun u _ y => .before hcalls) fun us hus => admitted_few hT hreach hn hcond hcalls us fun u hu => (hus u hu).2
      · rw [Sys.history_advance_self]
        exact List.mem_cons_self
      · exact h.cases.resolve_right fun h => hne h.1
    · refine hinv.step (fun u y => ⟨fun h => h.cases.resolve_right ?_, .advance⟩) fun u y _ => .before hcalls
      rintro ⟨rfl, hcount⟩
      exact hnew ⟨y, hcount⟩
  · intro s t hreach hinv
    refine hinv.step (fun u y => .rfl) fun u y _ h => ?_
    rcases h with hrun | ⟨l, hfailed, hsince⟩
    · exact .inl hrun.before_drop.1
    · exact .inr ⟨l, ⟨hfailed.confirms, hfailed.lookedUp, hfailed.entry, hfailed.committed⟩, hsince⟩

/-- A failed attempt had been let through. -/
theorem FailedAttempt.admitted (horderly : Orderly settings pool s) (h : FailedAttempt pool vkPeerId s t l) :
    ∃ since, Admitted settings pool vkPeerId s t since := by
  obtain ⟨⟨code, sn, dn, hpool⟩, ⟨code', reply, hlooked⟩, -, -⟩ := h
  obtain ⟨later, earlier, hhistory, hcall⟩ := (horderly.traced t).of_mem hlooked
  rw [hpool] at hcall
  cases hcall with
  | lookup hat hn =>
    exact ⟨_, ⟨code, sn, dn, hpool⟩, _, hn, hhistory ▸ List.mem_append_right _ (List.mem_cons_of_mem _ hat.counted)⟩

end Runs

/-- In a run in which the confirmations let through are few enough together with those under way,
at most `max_attempts` of one peer look a code up and fail within a window, wherever it begins. -/
theorem failed_attempts_le (hashtext : String → Int) (settings : VkSettings) (pool : Tid → Request) (T : Tables)
    (hT : T.Wf) (s : Run) (hreach : Reaches hashtext (CountsUnderway settings pool) (launch settings pool (.ofTables T)) s)
    (vkPeerId : PeerId) (start : ℝ) (ts : Finset Tid)
    (hts : ∀ t ∈ ts, ∃ l, FailedAttempt pool vkPeerId s t l ∧ start ≤ (l.createdAt : ℝ) ∧
      (l.createdAt : ℝ) ≤ start + (minutes settings.vkConfirmationAttemptWindowMinutes : ℝ)) :
    ts.card ≤ settings.vkConfirmationMaxAttempts := by
  refine (attempts_overlapping hT vkPeerId hreach).card_le ts (fun t ht => ?_) fun t ht since hadmitted u hu => ?_
  · obtain ⟨l, hfailed, -⟩ := hts t ht
    exact hfailed.admitted (reaches_orderly hreach)
  · obtain ⟨l, hfailed, -, hend⟩ := hts t ht
    obtain ⟨l', hfailed', hstart, -⟩ := hts u hu
    have hstamp : ((since + minutes settings.vkConfirmationAttemptWindowMinutes : Time) : ℝ) ≤ l.createdAt :=
      Int.cast_le.mpr (failed_stamp hT hreach hadmitted hfailed.entry)
    rw [Int.cast_add] at hstamp
    refine .inr ⟨l', hfailed', (Int.cast_le (R := ℝ)).mp ?_⟩
    linarith

section Example

/-- Every session confirms for peer 5 with a code that was never issued. -/
def allGuess : Tid → Request := fun _ => .confirm "ZZZZ".toList 5 none none

/-- Both sessions have counted no failure; then they go on to their ends. -/
def bothGuessed : Option Run :=
  (database fun _ => 0).runMoves
    (List.replicate 2 (.step 0 (.still 0)) ++ List.replicate 2 (.step 1 (.still 0)) ++
      List.replicate 4 (.step 0 (.still 0)) ++ List.replicate 4 (.step 1 (.still 0)))
    (launch .least allGuess (.ofTables Tables.empty))

private theorem bothGuessed_isSome : bothGuessed.isSome = true := rfl

/-- The journal row of a guess. -/
def guessEntry : VkLog :=
  ⟨.confirmation, .notFound, [("vk_peer_id", toString 5), ("code", maskCode (normalizeCode "ZZZZ".toList))], 0⟩

/-- What a session that guesses does, in reverse. -/
def guessHistory : CallHistory :=
  [⟨.close, .ok ()⟩, ⟨.commit, .ok ()⟩, ⟨.logAction .confirmation .notFound guessEntry.details, .ok guessEntry⟩,
    ⟨.confirmationGetByCode (normalizeCode "ZZZZ".toList), .ok none⟩,
    ⟨.countFailedSince .confirmation 5 (0 - minutes 1) failedStatuses, .ok 0⟩, ⟨.now, .ok 0⟩]

private theorem guess_failed {s : Run} {t : Tid} (hhistory : s.history t = guessHistory) :
    ∃ l, FailedAttempt allGuess 5 s t l ∧ (0 : ℝ) ≤ (l.createdAt : ℝ) ∧
      (l.createdAt : ℝ) ≤ 0 + (minutes VkSettings.least.vkConfirmationAttemptWindowMinutes : ℝ) := by
  refine ⟨guessEntry, ⟨⟨_, _, _, rfl⟩, ⟨normalizeCode "ZZZZ".toList, .ok none, ?_⟩,
    ⟨.notFound, by decide, guessEntry.details.tail, ?_⟩, ?_⟩, ?_, ?_⟩
  · rw [hhistory]
    exact .tail _ (.tail _ (.tail _ (.head _)))
  · rw [hhistory]
    exact .tail _ (.tail _ (.head _))
  · rw [Committed, hhistory]
    exact .tail _ (.head _)
  · simp [guessEntry]
  · simp [guessEntry, minutes]

/-- Two guesses fail at once where one is allowed. -/
theorem guesses_overlap : VkSettings.least.vkConfirmationMaxAttempts = 1 ∧
    ∃ s, Reaches (fun _ => 0) anyMove (launch .least allGuess (.ofTables Tables.empty)) s ∧
      ∀ t ∈ ({0, 1} : Finset Tid), ∃ l, FailedAttempt allGuess 5 s t l ∧ (0 : ℝ) ≤ (l.createdAt : ℝ) ∧
        (l.createdAt : ℝ) ≤ 0 + (minutes VkSettings.least.vkConfirmationAttemptWindowMinutes : ℝ) := by
  refine ⟨rfl, bothGuessed.get bothGuessed_isSome, reach_of_runMoves _ (Option.some_get bothGuessed_isSome).symm, ?_⟩
  intro t ht
  rcases Finset.mem_insert.mp ht with rfl | ht
  · exact guess_failed rfl
  · obtain rfl := Finset.mem_singleton.mp ht
    exact guess_failed rfl

/-- Session 0 fails and commits before session 1 counts, and session 1 is refused. -/
def oneGuessed : Option Run :=
  (database fun _ => 0).runMovesIf (countsUnderway .least allGuess)
    (List.replicate 6 (.step 0 (.still 0)) ++ List.replicate 5 (.step 1 (.still 0)))
    (launch .least allGuess (.ofTables Tables.empty))

private theorem oneGuessed_isSome : oneGuessed.isSome = true := by decide +kernel

theorem failed_attempts_le_oneGuessed : (oneGuessed.get oneGuessed_isSome).history 0 = guessHistory ∧
    ({0} : Finset Tid).card ≤ VkSettings.least.vkConfirmationMaxAttempts :=
  ⟨rfl, failed_attempts_le (fun _ => 0) .least allGuess Tables.empty Tables.empty_wf _
    (reach_of_runMovesIf _ (Option.some_get oneGuessed_isSome).symm) 5 0 {0} fun t ht => by
      obtain rfl := Finset.mem_singleton.mp ht
      exact guess_failed rfl⟩

end Example
end VkService
