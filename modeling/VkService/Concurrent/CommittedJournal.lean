import VkService.Storage.Appended
import VkService.Concurrent.Steps
import VkService.Concurrent.Answers
import VkService.Promises.Entries

/-! The journal as a whole. Whatever the interleaving, it holds what it held at the start and the
entries of the sessions that have committed, each once. -/
namespace VkService
open PyStr Effects Effects.Prog Effects.Machine RowStore

/-- What an answered task has entered in the journal. -/
inductive Task.Records (settings : VkSettings) : Task → Outcome ⊕ Answer → List VkLog → Prop
  | message {peerId fromId : PeerId} {text : Str} {outcome : Outcome} {ls : List VkLog}
      (hentry : MessageEntry settings.vkBotLinkCommand peerId fromId text outcome ls) :
      Task.Records settings (.message peerId fromId text) (.inl outcome) ls
  | request {r : Request} {answer : Answer} {ls : List VkLog} (hentry : r.Records answer ls) :
      Task.Records settings (.request r) (.inr answer) ls

/-- What a step does to the journal, by what it does to the entries of its session. -/
inductive EntryStep (t : Tid) (logs : Heap Tid VkLog) (e : CallEvent) : Heap Tid VkLog → Prop
  | same (hclears : e.clears = false) (hentry : e.entry = []) : EntryStep t logs e logs
  | entered {l : VkLog} (hclears : e.clears = false) (hentry : e.entry = [l]) : EntryStep t logs e (insert t l logs)
  | committed (he : e = ⟨.commit, .ok ()⟩) : EntryStep t logs e (commit t logs)
  | undone (hclears : e.clears = true) (hcommits : e.commits = false) : EntryStep t logs e (rollback t logs)

section Steps
variable {hashtext : String → Int} {t : Tid} {w : World} {c : Call} {s s' : Store} {r : Except Exn c.Reply}

theorem exec_entry (h : (database hashtext).exec t w c s = some (r, s')) : EntryStep t s.vkLogs ⟨c, r⟩ s'.vkLogs := by
  obtain ⟨-, change, hasks, rfl⟩ := exec_asks h
  rw [acquire_vkLogs]
  cases hasks with
  | read hc => cases c <;> first | exact .same rfl rfl | cases hc
  | userTaken | peerTaken => exact .undone rfl rfl
  | unactivated hone =>
    refine .same ?_ rfl
    generalize (s.view t).userVks.filter _ = rows at hone
    match rows, hone with
    | [], hone =>
      cases hone
      rfl
    | _ :: _ :: _, hone =>
      cases hone
      rfl
  | logged => exact .entered rfl rfl
  | commit => exact .committed rfl
  | rollback | close => exact .undone rfl rfl
  | _ => exact .same rfl rfl

end Steps

section Threads
variable {ts : List Tid} {t : Tid} {f g : Tid → List VkLog} {x : List VkLog}

/-- One of the sessions gets more entries. -/
theorem flatMap_updated (hnodup : ts.Nodup) (ht : t ∈ ts) (hself : g t = f t ++ x) (hother : ∀ t' ≠ t, g t' = f t') :
    (ts.flatMap g).Perm (ts.flatMap f ++ x) := by
  induction ts with
  | nil => cases ht
  | cons a ts ih =>
    obtain ⟨ha, hnodup⟩ := List.nodup_cons.mp hnodup
    rw [List.flatMap_cons, List.flatMap_cons]
    rcases List.mem_cons.mp ht with rfl | hmem
    · have hrest : ts.flatMap g = ts.flatMap f :=
        List.flatMap_congr fun t' ht' => hother t' fun heq => ha (heq ▸ ht')
      rw [hself, hrest, List.append_assoc, List.append_assoc]
      exact List.perm_append_comm.append_left _
    · rw [hother a fun heq => ha (heq ▸ hmem), List.append_assoc]
      exact (ih hnodup hmem).append_left _

end Threads

section Runs
variable {hashtext : String → Int} {α : Type} {pool : Tid → Py α} {T : Tables} {s : Sys Call Call.Reply Exn α Tid Store}
  {cond : Move Tid World → Sys Call Call.Reply Exn α Tid Store → Prop}

/-- How the journal stands: each open transaction holds the entries of its session, and what is
committed are the first rows and the entries of the sessions `ts` that have committed. -/
structure JournalStands (first : List VkLog) (s : Sys Call Call.Reply Exn α Tid Store) (ts : List Tid) : Prop where
  appended : Appended s.shared.vkLogs
  held : ∀ t, heldRows t s.shared.vkLogs = if (s.prog t).isSome then unsaved (s.history t) else []
  nodup : ts.Nodup
  committed : ∀ t, t ∈ ts ↔ ⟨.commit, .ok ()⟩ ∈ s.history t
  rows : (snapshot s.shared.vkLogs).Perm (first ++ ts.flatMap fun t => saved (s.history t))

variable {first : List VkLog} {ts : List Tid} {t : Tid} {w : World} {c : Call} {k : Except Exn c.Reply → Py α}
  {r : Except Exn c.Reply} {next : Store}

/-- The entries that a session has after a step. -/
theorem unsaved_advance (hstands : JournalStands first s ts) (hp : s.prog t = some (.call c k))
    (hexec : (database hashtext).exec t w c s.shared = some (r, next)) (t' : Tid) :
    heldRows t' next.vkLogs = if ((s.advance t c k r next).prog t').isSome
      then unsaved ((s.advance t c k r next).history t') else [] := by
  have hstep := exec_entry hexec
  have hheld := hstands.held t'
  generalize next.vkLogs = after at hstep
  by_cases ht : t' = t
  · subst ht
    rw [hp, Option.isSome_some, if_pos rfl] at hheld
    rw [Sys.advance_prog_self, Option.isSome_some, if_pos rfl, Sys.history_advance_self, unsaved, ← hheld]
    cases hstep with
    | same hclears hentry => rw [hclears, hentry, if_neg Bool.false_ne_true, List.append_nil]
    | entered hclears hentry => rw [hclears, hentry, if_neg Bool.false_ne_true, heldRows_insert_self]
    | committed he =>
      rw [he, heldRows_commit_self]
      rfl
    | undone hclears => rw [hclears, if_pos rfl, heldRows_rollback_self]
  · rw [Sys.advance_prog_ne _ _ _ _ _ _ ht, Sys.history_advance_ne _ _ _ _ _ _ ht, ← hheld]
    cases hstep with
    | same => rfl
    | entered => exact heldRows_insert_ne (Ne.symm ht)
    | committed => exact heldRows_commit_ne ht
    | undone => exact heldRows_rollback_ne ht

/-- A step of a session that is no commit leaves what is committed. -/
private theorem stands_uncommitted (hstands : JournalStands first s ts) (hp : s.prog t = some (.call c k))
    (hexec : (database hashtext).exec t w c s.shared = some (r, next)) (happ : Appended next.vkLogs)
    (hsnapshot : snapshot next.vkLogs = snapshot s.shared.vkLogs) (hcommits : CallEvent.commits ⟨c, r⟩ = false) :
    JournalStands first (s.advance t c k r next) ts := by
  have hsaved : ∀ t', saved ((s.advance t c k r next).history t') = saved (s.history t') := fun t' => by
    by_cases ht : t' = t
    · subst ht
      rw [Sys.history_advance_self, saved, hcommits, if_neg Bool.false_ne_true]
    · rw [Sys.history_advance_ne _ _ _ _ _ _ ht]
  refine ⟨happ, unsaved_advance hstands hp hexec, hstands.nodup, fun t' => ?_, ?_⟩
  · rw [hstands.committed t']
    by_cases ht : t' = t
    · subst ht
      rw [Sys.history_advance_self, List.mem_cons]
      refine (or_iff_right fun heq => ?_).symm
      rw [← heq] at hcommits
      cases hcommits
    · rw [Sys.history_advance_ne _ _ _ _ _ _ ht]
  · simp only [hsaved]
    show (snapshot next.vkLogs).Perm _
    rw [hsnapshot]
    exact hstands.rows

/-- A commit adds the entries of its session. -/
private theorem stands_committed {k : Except Exn Unit → Py α} (hstands : JournalStands first s ts)
    (hp : s.prog t = some (.call .commit k)) (hexec : (database hashtext).exec t w .commit s.shared = some (.ok (), next))
    (hnext : next.vkLogs = commit t s.shared.vkLogs) :
    ∃ ts', JournalStands first (s.advance t .commit k (.ok ()) next) ts' := by
  -- the session joins those that have committed, if it is not among them yet
  obtain ⟨ts', hnodup, hmem, hts', hrows⟩ : ∃ ts' : List Tid, ts'.Nodup ∧ t ∈ ts' ∧
    (∀ t', t' ∈ ts' ↔ t' = t ∨ t' ∈ ts) ∧
      ts'.flatMap (fun t => saved (s.history t)) = ts.flatMap fun t => saved (s.history t) := by
    by_cases ht : t ∈ ts
    · exact ⟨ts, hstands.nodup, ht, fun t' => (or_iff_right_of_imp fun heq => heq ▸ ht).symm, rfl⟩
    · refine ⟨t :: ts, List.nodup_cons.mpr ⟨ht, hstands.nodup⟩, List.mem_cons_self, fun t' => List.mem_cons, ?_⟩
      rw [List.flatMap_cons, saved_eq_nil fun hcommit => ht ((hstands.committed t).mpr hcommit), List.nil_append]
  refine ⟨ts', hnext ▸ hstands.appended.commit, unsaved_advance hstands hp hexec, hnodup, fun t' => ?_, ?_⟩
  · rw [hts', hstands.committed t']
    by_cases ht : t' = t
    · subst ht
      rw [Sys.history_advance_self, List.mem_cons]
      exact iff_of_true (.inl rfl) (.inl rfl)
    · rw [Sys.history_advance_ne _ _ _ _ _ _ ht]
      exact or_iff_right ht
  · have hheld := hstands.held t
    rw [hp, Option.isSome_some, if_pos rfl] at hheld
    have hflat := flatMap_updated (f := fun t => saved (s.history t)) (x := unsaved (s.history t))
      (g := fun t' => saved ((s.advance t .commit k (.ok ()) next).history t')) hnodup hmem
      (by rw [Sys.history_advance_self]; rfl) fun t' ht => by rw [Sys.history_advance_ne _ _ _ _ _ _ ht]
    have hcommit := hstands.appended.snapshot_commit_perm t
    rw [hheld] at hcommit
    show (snapshot next.vkLogs).Perm _
    rw [hnext]
    refine hcommit.trans ((hstands.rows.append_right _).trans ?_)
    rw [List.append_assoc, ← hrows]
    exact hflat.symm.append_left _

/-- Every step keeps the journal standing. -/
theorem JournalStands.advance (hstands : JournalStands first s ts) (hp : s.prog t = some (.call c k))
    (hexec : (database hashtext).exec t w c s.shared = some (r, next)) :
    ∃ ts', JournalStands first (s.advance t c k r next) ts' := by
  have hstep := exec_entry hexec
  generalize hafter : next.vkLogs = after at hstep
  cases hstep with
  | same hclears hentry =>
    refine ⟨ts, stands_uncommitted hstands hp hexec (hafter ▸ hstands.appended) (by rw [hafter]) ?_⟩
    cases c <;> first | rfl | (cases r <;> first | rfl | cases hclears)
  | entered hclears hentry =>
    refine ⟨ts, stands_uncommitted hstands hp hexec (hafter ▸ hstands.appended.insert) (by rw [hafter, snapshot_insert]) ?_⟩
    cases c <;> first | rfl | cases hentry
  | committed he =>
    cases he
    exact stands_committed hstands hp hexec hafter
  | undone hclears hcommits =>
    exact ⟨ts, stands_uncommitted hstands hp hexec (hafter ▸ hstands.appended.rollback)
      (by rw [hafter, snapshot_rollback]) hcommits⟩

/-- A session that is killed loses the entries it holds. -/
theorem JournalStands.drop (hstands : JournalStands first s ts) (t : Tid) :
    JournalStands first (s.drop t (s.shared.rollback t)) ts := by
  refine ⟨hstands.appended.rollback, fun t' => ?_, hstands.nodup, hstands.committed, ?_⟩
  · by_cases ht : t' = t
    · subst ht
      rw [Sys.drop_prog_self]
      exact heldRows_rollback_self
    · rw [Sys.drop_prog_ne _ _ _ ht]
      exact (heldRows_rollback_ne ht).trans (hstands.held t')
  · show (snapshot (rollback t s.shared.vkLogs)).Perm _
    rw [snapshot_rollback]
    exact hstands.rows

theorem reach_stands (hreach : (database hashtext).Reach cond (Sys.start pool (.ofTables T)) s) :
    ∃ ts, JournalStands T.vkLogs s ts := by
  refine reach_induction (database hashtext) (I := fun s => ∃ ts, JournalStands T.vkLogs s ts) ⟨[], ?_⟩ ?_ ?_ hreach
  · refine ⟨appended_ofRows _, fun t => heldRows_ofRows _, List.nodup_nil, fun t => by simp [Sys.history], ?_⟩
    have hfirst : snapshot (Store.ofTables T).vkLogs = T.vkLogs := congrArg Tables.vkLogs (Store.committed_ofTables T)
    simp [hfirst]
  · rintro s t w c k r next - ⟨ts, hstands⟩ - hp hexec
    exact hstands.advance hp hexec
  · rintro s t c k - ⟨ts, hstands⟩ - -
    exact ⟨ts, hstands.drop t⟩

/-- In any run the repositories raise none of the services' own exceptions. -/
theorem reach_honest (hreach : (database hashtext).Reach cond (Sys.start pool (.ofTables T)) s) (t : Tid) :
    Honest (s.history t) := by
  refine reach_induction (database hashtext) (I := fun s => Honest (s.history t)) (fun e he => by cases he) ?_
    (fun _ _ _ _ _ h _ _ => h) hreach
  intro s t' w c k r next _ hinv _ _ hexec
  by_cases ht : t = t'
  · subst ht
    rw [Sys.history_advance_self, honest_cons]
    refine ⟨fun x hx => ?_, hinv⟩
    obtain ⟨-, hreply, -⟩ := execCall_cases hexec
    exact answer_notOwn (hreply.symm.trans hx)
  · rwa [Sys.history_advance_ne _ _ _ _ _ _ ht]

end Runs

section Tasks

theorem task_records (settings : VkSettings) (task : Task) :
    Conforms (CommitsRecorded (task.Records settings)) (AnswersRecorded (task.Records settings)) []
    (task.prog settings) := by
  cases task with
  | message peerId fromId text =>
    exact records_map Sum.inl (fun _ _ => .message) (handleMessage_records settings peerId fromId text)
  | request r => exact records_map Sum.inr (fun _ _ => .request) (request_records settings r)

/-- In every state of every interleaving of messages and requests the committed journal is the
first one with the entries of the sessions that have committed. These are the entries behind an
answer of the task, and behind the one it gives when it has ended. -/
theorem committed_journal (hashtext : String → Int) (settings : VkSettings) (pool : Tid → Task) (T : Tables)
    (s : MixedRun) (hreach : (database hashtext).Reach (fun _ _ => True) (launchTasks settings pool (.ofTables T)) s) :
    (∃ ts : List Tid, ts.Nodup ∧ (∀ t, t ∈ ts ↔ ⟨.commit, .ok ()⟩ ∈ s.history t) ∧
      s.shared.committed.vkLogs.Perm (T.vkLogs ++ ts.flatMap fun t => saved (s.history t))) ∧
    ∀ t, (⟨.commit, .ok ()⟩ ∈ s.history t → ∃ a, (pool t).Records settings a (saved (s.history t))) ∧
      ∀ a, s.prog t = some (.ret a) → (pool t).Records settings a (saved (s.history t)) := by
  obtain ⟨ts, hstands⟩ := reach_stands hreach
  have hconforming : Conforming (fun t => CommitsRecorded ((pool t).Records settings))
      (fun t => AnswersRecorded ((pool t).Records settings)) s :=
    (invariant (M := database hashtext) (I := fun _ => True)
    (conforming_start fun t => task_records settings (pool t)) trivial
      (fun _ _ _ _ _ _ _ _ _ _ _ _ _ => trivial) (fun _ _ _ _ _ _ _ _ => trivial) hreach).1
  refine ⟨⟨ts, hstands.nodup, hstands.committed, hstands.rows⟩, fun t => ⟨fun hcommit => ?_, fun a hp => ?_⟩⟩
  · exact recorded_of_committed (hconforming.traced t) (reach_honest hreach t) hcommit
  · exact hconforming.rest t _ hp (reach_honest hreach t) a rfl

end Tasks

section Example

/-- A code is issued; a message with the command alone comes in between and is answered. -/
def issuedAndAsked : Tid → Task
  | 0 => .request (.issueConfirmation 1)
  | _ => .message 5 5 "/link".toList

private def askedMeanwhile : Option MixedRun :=
  (database fun _ => 0).runMoves (List.replicate 6 (.step 0 (.still 0)) ++ List.replicate 4 (.step 1 (.still 0)) ++
    List.replicate 4 (.step 0 (.still 0))) (launchTasks .least issuedAndAsked (.ofTables .empty))

private theorem askedMeanwhile_isSome : askedMeanwhile.isSome = true := by decide +kernel

theorem committed_journal_asked :
    (askedMeanwhile.get askedMeanwhile_isSome).shared.committed.vkLogs.length = 2 ∧
      (∃ ts : List Tid, ts.Nodup ∧ (∀ t, t ∈ ts ↔ ⟨.commit, .ok ()⟩ ∈ (askedMeanwhile.get askedMeanwhile_isSome).history t) ∧
        (askedMeanwhile.get askedMeanwhile_isSome).shared.committed.vkLogs.Perm
          ([] ++ ts.flatMap fun t => saved ((askedMeanwhile.get askedMeanwhile_isSome).history t))) :=
  ⟨by decide +kernel, (committed_journal (fun _ => 0) .least issuedAndAsked .empty _
    (reach_of_runMoves _ (Option.some_get askedMeanwhile_isSome).symm)).1⟩

end Example
end VkService
