import Mathlib.Data.Finset.Card
import VkService.Concurrent.Sessions

/-! The ledger of deliveries. A transaction that has claimed a pair holds its row until it
ends, and it ends with the row marked; so committed rows are closed, their attempts count the
committed claims, and no pair is sent twice. -/
namespace VkService
open PyStr Effects Effects.Prog Effects.Machine RowStore VkNotificationDeliveryRepository

namespace VkNotificationDelivery

/-- A delivery that went out. -/
def Sent (d : VkNotificationDelivery) : Prop := d.status = .sent ∧ d.sentAt.isSome = true ∧ d.lastError = none

/-- A delivery that failed. -/
def Failed (d : VkNotificationDelivery) : Prop := d.status = .failed ∧ d.sentAt = none ∧ d.lastError.isSome = true

/-- A row after its attempt. -/
def Closed (d : VkNotificationDelivery) : Prop := d.Sent ∨ d.Failed

/-- A row during its attempt. -/
def Open (d : VkNotificationDelivery) : Prop := d.status = .pending ∧ d.sentAt = none ∧ d.lastError = none

end VkNotificationDelivery

/-- How far a transaction has come with the row it has claimed. -/
inductive Stage (h : CallHistory) (pair : UUID × UUID) (d : VkNotificationDelivery) : Prop
  | claimed (hno : ∀ e ∈ h, ¬ MarksOf pair.1 pair.2 e.op) (hd : d.Open)
  | sent (hmark : ∃ e ∈ h, MarksOf pair.1 pair.2 e.op)
      (hmarks : ∀ e ∈ h, MarksOf pair.1 pair.2 e.op → e.op = .markSent pair.1 pair.2) (hd : d.Sent)
  | failed (hmark : ∃ e ∈ h, MarksOf pair.1 pair.2 e.op)
      (hmarks : ∀ e ∈ h, MarksOf pair.1 pair.2 e.op → e.op ≠ .markSent pair.1 pair.2) (hd : d.Failed)

section Stages
variable {h : CallHistory} {pair : UUID × UUID} {d : VkNotificationDelivery}

theorem Stage.cons (hs : Stage h pair d) {e : CallEvent} (he : ¬ MarksOf pair.1 pair.2 e.op) :
    Stage (e :: h) pair d := by
  cases hs with
  | claimed hno hd => exact .claimed (List.forall_mem_cons.mpr ⟨he, hno⟩) hd
  | sent hmark hmarks hd =>
    obtain ⟨e', he', hmark⟩ := hmark
    exact .sent ⟨e', List.mem_cons_of_mem _ he', hmark⟩ (List.forall_mem_cons.mpr ⟨fun h => absurd h he, hmarks⟩) hd
  | failed hmark hmarks hd =>
    obtain ⟨e', he', hmark⟩ := hmark
    exact .failed ⟨e', List.mem_cons_of_mem _ he', hmark⟩ (List.forall_mem_cons.mpr ⟨fun h => absurd h he, hmarks⟩) hd

theorem Stage.sent_of_marked (hs : Stage h pair d) (hmark : MarkedSent h pair.1 pair.2) : d.Sent := by
  obtain ⟨row, hmem⟩ := hmark
  cases hs with
  | claimed hno => exact absurd (.inl rfl) (hno _ hmem)
  | sent _ _ hd => exact hd
  | failed _ hmarks => exact absurd rfl (hmarks _ hmem (.inl rfl))

theorem Stage.closed_of_marked (hs : Stage h pair d)
    (hmark : MarkedSent h pair.1 pair.2 ∨ MarkedFailed h pair.1 pair.2) : d.Closed := by
  cases hs with
  | claimed hno =>
    rcases hmark with ⟨row, hmem⟩ | ⟨category, row, hmem⟩
    · exact absurd (.inl rfl) (hno _ hmem)
    · exact absurd (.inr ⟨category, rfl⟩) (hno _ hmem)
  | sent _ _ hd => exact .inl hd
  | failed _ _ hd => exact .inr hd

end Stages

section Steps
variable {hashtext : String → Int} {t : Tid} {w : World} {c : Call} {s s' : Store} {r : Except Exn c.Reply}
  {pair : UUID × UUID}

/-- A claim that gets its row takes the cell, which nobody else holds. -/
theorem exec_claim (hs : s.Keyed) {peer : PeerId} {row : VkNotificationDelivery}
    (h : (database hashtext).exec t w (.claimAttempt pair.1 pair.2 peer) s = some (.ok (some row), s')) :
    s'.delivery pair = ⟨(s.delivery pair).committed, some (t, row)⟩ ∧ (s.delivery pair).lockedByOther t = false ∧
      ((s.delivery pair) = Cell.empty ∧ row = ⟨pair.1, pair.2, peer, .pending, 1, none, w.now, none⟩ ∨
        ∃ d, (s.delivery pair).read t = some d ∧ d.status ≠ .sent ∧ row = reclaimed w peer d) := by
  obtain ⟨hready, change, hasks, rfl⟩ := exec_asks h
  simp only [ready, Bool.and_eq_true] at hready
  rw [Store.delivery, acquire_deliveries]
  cases hasks with
  | read hc => cases hc
  | claimed hnew =>
    have hno := delivery_absent hs hready.2 hnew
    have hempty : s.delivery pair = Cell.empty := cellOf_eq_empty hno
    refine ⟨?_, by rw [hempty]; rfl, .inl ⟨hempty, rfl⟩⟩
    simp only [Store.apply]
    rw [delivery_insert (d := ⟨pair.1, pair.2, peer, .pending, 1, none, w.now, none⟩) hs hno,
      if_pos (show VkNotificationDelivery.pair _ = pair from rfl), hempty]
    rfl
  | reclaimed hrow hsent =>
    rename_i d
    obtain ⟨hread, hfree⟩ := delivery_found hs hready.2 hrow
    refine ⟨?_, hfree, .inr ⟨d, hread, hsent, rfl⟩⟩
    obtain ⟨-, hp⟩ := List.mem_filter.mp (hrow ▸ List.mem_singleton_self d)
    simp only [Store.apply]
    rw [cellOf_update hs.deliveries (f := reclaimed w peer) fun _ => rfl]
    simp only [Store.delivery] at hread
    simp [Cell.write, hread, hp, Store.delivery]

/-- A mark rewrites the row that its transaction holds. -/
theorem exec_mark (hs : s.Keyed) (hmark : MarksOf pair.1 pair.2 c) {d : VkNotificationDelivery}
    (hp : (s.delivery pair).pending = some (t, d)) (h : (database hashtext).exec t w c s = some (r, s')) :
    ∃ d', s'.delivery pair = ⟨(s.delivery pair).committed, some (t, d')⟩ ∧
      (c = .markSent pair.1 pair.2 ∧ d' = sent w d ∨ ∃ category, c = .markFailed pair.1 pair.2 category ∧
      d' = failed w category d) := by
  have hread : (cellOf VkNotificationDelivery.pair pair s.vkNotificationDeliveries).read t = some d :=
    Cell.read_of_pending hp
  have hkeyed : VkNotificationDeliveryRepository.keyed pair.1 pair.2 d = true :=
    keyed_of_pair (view_of_cell hs.deliveries hread).2
  obtain ⟨-, change, hasks, rfl⟩ := exec_asks h
  rw [Store.delivery, acquire_deliveries]
  rcases hmark with rfl | ⟨category, rfl⟩
  · refine ⟨sent w d, ?_, .inl ⟨rfl, rfl⟩⟩
    cases hasks with
    | read hc => cases hc
    | markedSent =>
      simp only [Store.apply]
      rw [cellOf_update hs.deliveries (f := sent w) fun _ => rfl]
      simp [Cell.write, hread, hkeyed, Store.delivery]
  · refine ⟨failed w category d, ?_, .inr ⟨category, rfl, rfl⟩⟩
    cases hasks with
    | read hc => cases hc
    | markedFailed =>
      simp only [Store.apply]
      rw [cellOf_update hs.deliveries (f := failed w category) fun _ => rfl]
      simp [Cell.write, hread, hkeyed, Store.delivery]

end Steps

/-- The attempts that a cell has committed. -/
def attemptsIn (c : Cell Tid VkNotificationDelivery) : Nat := (c.committed.map (·.attempts)).getD 0

/-- What holds of the row of one pair in every state. -/
structure LedgerAt (pair : UUID × UUID) (s : Run) : Prop where
  held : ∀ t d, (s.shared.delivery pair).pending = some (t, d) → Running s t ∧ Claimed (s.history t) pair.1 pair.2 ∧
    Stage (s.history t) pair d ∧ d.attempts = attemptsIn (s.shared.delivery pair) + 1 ∧
      ∀ r, (s.shared.delivery pair).committed = some r → r.status ≠ .sent
  holds : ∀ t, Running s t → Claimed (s.history t) pair.1 pair.2 → ∃ d, (s.shared.delivery pair).pending = some (t, d)
  closed : ∀ r, (s.shared.delivery pair).committed = some r → r.Closed
  counted : ∃ claimers : Finset Tid, (∀ t, t ∈ claimers ↔ Claimed (s.history t) pair.1 pair.2 ∧ Committed s t) ∧
    attemptsIn (s.shared.delivery pair) = claimers.card
  sentRow : ∀ t, Committed s t → MarkedSent (s.history t) pair.1 pair.2 →
    ∃ r, (s.shared.delivery pair).committed = some r ∧ r.status = .sent
  sentOnce : ∀ t t', Committed s t → MarkedSent (s.history t) pair.1 pair.2 → Committed s t' →
    MarkedSent (s.history t') pair.1 pair.2 → t = t'

section Runs
variable {hashtext : String → Int} {settings : VkSettings} {pool : Tid → Request} {T : Tables} {s : Run}
  {cond : Move Tid World → Run → Prop} {t t₀ : Tid} {w : World} {c : Call} {k : Except Exn c.Reply → Py Answer}
  {r : Except Exn c.Reply} {next : Store} {pair : UUID × UUID}

theorem claimed_delivers (horderly : Orderly settings pool s) {ev u : UUID} (hclaimed : Claimed (s.history t) ev u) :
    ∃ command, pool t = .deliver command ∧ Traced (DeliveryCall command) (s.history t) := by
  obtain ⟨peerId, row, hmem⟩ := hclaimed
  obtain ⟨later, earlier, -, hcall⟩ := (horderly.traced t).of_mem hmem
  obtain ⟨command, hpool, -⟩ := hcall.delivering (.inl ⟨peerId, rfl⟩)
  refine ⟨command, hpool, ?_⟩
  have htraced := horderly.traced t
  rwa [hpool] at htraced

/-- Whoever has marked a row has claimed it. -/
theorem marks_claimed (horderly : Orderly settings pool s) {ev u : UUID} {e : CallEvent} (he : e ∈ s.history t)
    (hmark : MarksOf ev u e.op) : Claimed (s.history t) ev u := by
  obtain ⟨later, earlier, -, hcall⟩ := (horderly.traced t).of_mem he
  obtain ⟨command, hpool, -⟩ := hcall.delivering (.inr hmark)
  have htraced := horderly.traced t
  rw [hpool] at htraced
  exact claimed_of_marks htraced he hmark

theorem markedSent_claimed (horderly : Orderly settings pool s) {ev u : UUID} (hmark : MarkedSent (s.history t) ev u) :
    Claimed (s.history t) ev u :=
  marks_claimed horderly hmark.choose_spec (.inl rfl)

/-- A claim after a step is an old one, or the step has made it. -/
theorem claimed_cases {ev u : UUID} (h : Claimed ((s.advance t₀ c k r next).history t) ev u) :
    Claimed (s.history t) ev u ∨ t = t₀ ∧ ∃ peerId row, (⟨c, r⟩ : CallEvent) =
    ⟨.claimAttempt ev u peerId, .ok (some row)⟩ := by
  obtain ⟨peerId, row, hmem⟩ := h
  rcases mem_history_cases hmem with hmem | ⟨ht, heq⟩
  · exact .inl ⟨peerId, row, hmem⟩
  · exact .inr ⟨ht, peerId, row, heq.symm⟩

theorem markedSent_cases {ev u : UUID} (h : MarkedSent ((s.advance t₀ c k r next).history t) ev u) :
    MarkedSent (s.history t) ev u ∨ t = t₀ ∧ c = .markSent ev u := by
  obtain ⟨row, hmem⟩ := h
  rcases mem_history_cases hmem with hmem | ⟨ht, heq⟩
  · exact .inl ⟨row, hmem⟩
  · cases heq
    exact .inr ⟨ht, rfl⟩

/-- A transaction that has claimed rolls back only by ending. -/
theorem claimed_not_rolledBack (hcalls : Calls hashtext settings pool s t w c r next) {ev u : UUID}
    (hclaimed : Claimed (s.history t) ev u) (hc : c.ends = false) : ¬ RolledBack c r := by
  intro hr
  obtain ⟨command, hpool, -⟩ := claimed_delivers hcalls.orderly hclaimed
  have hallowed := hcalls.allowed
  rw [hpool] at hallowed
  rcases rolledBack_cases hcalls.exec hr with hends | ⟨userId, rfl⟩ | ⟨_, _, _, _, rfl⟩
  · rw [hc] at hends
    cases hends
  · exact hallowed
  · exact hallowed

/-- A transaction that has claimed commits while it is open. -/
theorem claimed_commits_running {r : Except Exn Unit} (hcalls : Calls hashtext settings pool s t w .commit r next)
    {ev u : UUID} (hclaimed : Claimed (s.history t) ev u) : Running s t := by
  obtain ⟨command, hpool, -⟩ := claimed_delivers hcalls.orderly hclaimed
  obtain ⟨k', hp⟩ := hcalls.running
  have hallowed := hcalls.allowed
  rw [hpool] at hallowed
  exact ⟨hallowed.1, _, hp⟩

/-- A transaction does not claim a row again. -/
theorem claim_fresh {peer : PeerId} {r : Except Exn (Option VkNotificationDelivery)}
    (hcalls : Calls hashtext settings pool s t w (.claimAttempt pair.1 pair.2 peer) r next) :
    ¬ Claimed (s.history t) pair.1 pair.2 := by
  rintro ⟨peer', row, hmem⟩
  obtain ⟨command, -, hcall⟩ := hcalls.allowed.delivering (.inl ⟨peer, rfl⟩)
  exact hcall.2.2.2.2.2 _ _ hmem

/-- The committed row changes only by a commit of its holder. -/
theorem delivery_committed_cases (hcalls : Calls hashtext settings pool s t₀ w c r next) (pair : UUID × UUID) :
    (next.delivery pair).committed = (s.shared.delivery pair).committed ∨
      c = .commit ∧ ∃ d, (s.shared.delivery pair).pending = some (t₀, d) ∧ next.delivery pair = ⟨some d, none⟩ := by
  rcases (exec_delivery hcalls.sound.keyed hcalls.exec pair).committed_cases with heq | ⟨d, hc, hp, heq⟩
  · exact .inl heq
  · exact .inr ⟨hc, d, hp, heq⟩

/-- A commit shows what its transaction holds. -/
theorem delivery_landed {r : Except Exn Unit} (hcalls : Calls hashtext settings pool s t₀ w .commit r next)
    {d : VkNotificationDelivery} (hp : (s.shared.delivery pair).pending = some (t₀, d)) :
    next.delivery pair = ⟨some d, none⟩ := by
  rw [exec_commit hcalls.exec, delivery_commit hcalls.sound.keyed, Cell.commit_of_pending hp]

/-- A transaction that still holds a row has not ended. -/
theorem not_ends_of_pending (hcalls : Calls hashtext settings pool s t₀ w c r next) {d : VkNotificationDelivery}
    (hp : (next.delivery pair).pending = some (t₀, d)) : c.ends = false := by
  cases hends : c.ends with
  | false => rfl
  | true =>
    have hkeyed := hcalls.sound.keyed.exec hcalls.exec
    have hpair : d.pair = pair := key_of_mem_cellOf hkeyed.deliveries (Cell.pending_mem hp)
    exact absurd ((held_iff hkeyed.deliveries).mpr (hpair ▸ hp)) ((not_held_of_ends hcalls.exec hends).2.2 d)

/-- The transactions that have claimed and committed are those from before, and the one that commits now. -/
theorem claimed_committed_iff (hcalls : Calls hashtext settings pool s t₀ w c r next) (t : Tid) :
    Claimed ((s.advance t₀ c k r next).history t) pair.1 pair.2 ∧
    Committed (s.advance t₀ c k r next) t ↔ (Claimed (s.history t) pair.1 pair.2 ∧ Committed s t) ∨
      t = t₀ ∧ c = .commit ∧ Claimed (s.history t₀) pair.1 pair.2 := by
  constructor
  · rintro ⟨hclaimed, hcommitted⟩
    rcases claimed_cases hclaimed with hbefore | ⟨rfl, peer, row, heq⟩
    · rcases hcommitted.cases with hcommitted | ⟨rfl, hc⟩
      · exact .inl ⟨hbefore, hcommitted⟩
      · exact .inr ⟨rfl, hc, hbefore⟩
    · cases heq
      obtain ⟨command, -, hcall⟩ := hcalls.allowed.delivering (.inl ⟨peer, rfl⟩)
      rcases hcommitted.cases with hcommitted | ⟨-, hc⟩
      · exact absurd hcommitted.ended hcall.2.2.2.1
      · cases hc
  · have hmono : Claimed (s.history t) pair.1 pair.2 → Claimed ((s.advance t₀ c k r next).history t) pair.1 pair.2 :=
      fun ⟨peer, row, hmem⟩ => ⟨peer, row, s.mem_history_advance t₀ c k r next hmem⟩
    rintro (⟨hclaimed, hcommitted⟩ | ⟨rfl, rfl, hclaimed⟩)
    · exact ⟨hmono hclaimed, s.mem_history_advance t₀ c k r next hcommitted⟩
    · refine ⟨hmono hclaimed, ?_⟩
      obtain ⟨-, rfl, -⟩ := execCall_cases hcalls.exec
      rw [Committed, Sys.history_advance_self]
      exact List.mem_cons_self

section Step
variable (hs : LedgerAt pair s) (hcalls : Calls hashtext settings pool s t₀ w c r next)
include hs hcalls

/-- A claim finds the row as the last committed attempt has left it. -/
theorem LedgerAt.claim {peer : PeerId} {d : VkNotificationDelivery}
    (hclaim : (⟨c, r⟩ : CallEvent) = ⟨.claimAttempt pair.1 pair.2 peer, .ok (some d)⟩) :
    next.delivery pair = ⟨(s.shared.delivery pair).committed, some (t₀, d)⟩ ∧ (s.shared.delivery pair).pending = none ∧
      (∀ e ∈ s.history t₀, ¬ MarksOf pair.1 pair.2 e.op) ∧ d.Open ∧
      d.attempts = attemptsIn (s.shared.delivery pair) + 1 ∧
      ∀ r, (s.shared.delivery pair).committed = some r → r.status ≠ .sent := by
  cases hclaim
  obtain ⟨hcell, hfree, hrow⟩ := exec_claim hcalls.sound.keyed hcalls.exec
  have hfresh := claim_fresh hcalls
  have hnone : (s.shared.delivery pair).pending = none := by
    rcases Cell.free_cases hfree with hnone | ⟨d', hp⟩
    · exact hnone
    · exact absurd (hs.held _ _ hp).2.1 hfresh
  refine ⟨hcell, hnone, fun e he hmarks => hfresh (marks_claimed hcalls.orderly he hmarks), ?_⟩
  rcases hrow with ⟨hempty, rfl⟩ | ⟨d', hread, hsent, rfl⟩
  · rw [hempty]
    exact ⟨⟨rfl, rfl, rfl⟩, rfl, fun r hr => by cases hr⟩
  · rw [Cell.read_of_not_pending (by simp [hnone])] at hread
    have hfailed := (hs.closed d' hread).resolve_left fun hd => hsent hd.1
    refine ⟨⟨rfl, hfailed.2.1, rfl⟩, by simp [attemptsIn, hread, reclaimed], fun r hr => ?_⟩
    rw [hread] at hr
    cases hr
    exact hsent

/-- A mark closes the row that its transaction has claimed. -/
theorem LedgerAt.mark (hmark : MarksOf pair.1 pair.2 c) : ∃ d d', (s.shared.delivery pair).pending = some (t₀, d) ∧
    next.delivery pair = ⟨(s.shared.delivery pair).committed, some (t₀, d')⟩ ∧ d'.attempts = d.attempts ∧
      Stage (⟨c, r⟩ :: s.history t₀) pair d' := by
  obtain ⟨command, hpool, hcall⟩ := hcalls.allowed.delivering (.inr hmark)
  obtain ⟨went, hjust⟩ := hcall.justSent hmark
  have htraced := hcalls.orderly.traced t₀
  rw [hpool] at htraced
  have hno := hjust.not_marks htraced
  have hrun : Running s t₀ := by
    obtain ⟨k', hp⟩ := hcalls.running
    refine ⟨?_, _, hp⟩
    rcases hmark with rfl | ⟨category, rfl⟩ <;> exact hcall.1
  obtain ⟨d, hp⟩ := hs.holds t₀ hrun hjust.claimed
  obtain ⟨-, -, hstage, -⟩ := hs.held t₀ d hp
  have hopen : d.Open := by
    cases hstage with
    | claimed _ hd => exact hd
    | sent hmark | failed hmark =>
      obtain ⟨e, he, hmark⟩ := hmark
      exact absurd hmark (hno e he)
  obtain ⟨d', hcell, hd'⟩ := exec_mark hcalls.sound.keyed hmark hp hcalls.exec
  refine ⟨d, d', hp, hcell, ?_⟩
  rcases hd' with ⟨rfl, rfl⟩ | ⟨category, rfl, rfl⟩
  · exact ⟨rfl, .sent ⟨_, List.mem_cons_self, .inl rfl⟩
      (List.forall_mem_cons.mpr ⟨fun _ => rfl, fun e he hmarks => absurd hmarks (hno e he)⟩) ⟨rfl, rfl, rfl⟩⟩
  · exact ⟨rfl, .failed ⟨_, List.mem_cons_self, .inr ⟨category, rfl⟩⟩
      (List.forall_mem_cons.mpr ⟨fun _ => by simp, fun e he hmarks => absurd hmarks (hno e he)⟩) ⟨rfl, hopen.2.1, rfl⟩⟩

theorem LedgerAt.step_holds (hrun : Running (s.advance t₀ c k r next) t)
    (hclaimed : Claimed ((s.advance t₀ c k r next).history t) pair.1 pair.2) :
    ∃ d, (next.delivery pair).pending = some (t, d) := by
  obtain ⟨hrun, hopen⟩ := hrun.before hcalls
  rcases claimed_cases hclaimed with hclaimed | ⟨rfl, peer, row, heq⟩
  · obtain ⟨d, hp⟩ := hs.holds t hrun hclaimed
    obtain ⟨d', hp', -⟩ := (exec_delivery hcalls.sound.keyed hcalls.exec pair).held hp
      (fun ht hc => by rw [show c = .commit from hc] at hopen; cases hopen ht)
      fun ht hr => claimed_not_rolledBack (ht ▸ hcalls) hclaimed (hopen ht) hr
    exact ⟨d', hp'⟩
  · exact ⟨row, by rw [(hs.claim hcalls heq).1]⟩

theorem LedgerAt.step_held {d : VkNotificationDelivery} (hp : (next.delivery pair).pending = some (t, d)) :
    Running (s.advance t₀ c k r next) t ∧ Claimed ((s.advance t₀ c k r next).history t) pair.1 pair.2 ∧
      Stage ((s.advance t₀ c k r next).history t) pair d ∧ d.attempts = attemptsIn (next.delivery pair) + 1 ∧
      ∀ r, (next.delivery pair).committed = some r → r.status ≠ .sent := by
  by_cases hmark : t = t₀ ∧ MarksOf pair.1 pair.2 c
  · -- the row that was claimed has been marked
    obtain ⟨rfl, hmark⟩ := hmark
    obtain ⟨d₀, d', hp₀, hcell, hattempts, hstage⟩ := hs.mark hcalls hmark
    obtain ⟨hrun, hclaimed, -, hcount, hsent⟩ := hs.held t d₀ hp₀
    rw [hcell] at hp ⊢
    cases hp
    refine ⟨hrun.advance fun _ => not_ends_of_pending hcalls (by rw [hcell]), ?_, ?_, ?_, hsent⟩
    · rw [Sys.history_advance_self]
      exact claimed_cons.mpr (.inr hclaimed)
    · rwa [Sys.history_advance_self]
    · rw [hattempts, hcount]
      rfl
  rcases (exec_delivery hcalls.sound.keyed hcalls.exec pair).pending_cases hp with ⟨hp₀, heq⟩ | ⟨rfl, hnew⟩
  · -- the row was there, and the call was no mark of it
    obtain ⟨hrun, hclaimed, hstage, hcount, hsent⟩ := hs.held t d hp₀
    refine ⟨hrun.advance fun ht => not_ends_of_pending hcalls (ht ▸ hp), ?_, ?_, ?_, fun r hr => hsent r (heq ▸ hr)⟩
    · obtain ⟨peer, row, hmem⟩ := hclaimed
      exact ⟨peer, row, s.mem_history_advance t₀ c k r next hmem⟩
    · by_cases ht : t = t₀
      · subst ht
        rw [Sys.history_advance_self]
        exact hstage.cons fun hm => hmark ⟨rfl, hm⟩
      · rwa [Sys.history_advance_ne _ _ _ _ _ _ ht]
    · rw [hcount, attemptsIn, attemptsIn, heq]
  · -- the call has claimed it
    have hclaim : ∃ peer row, (⟨c, r⟩ : CallEvent) = ⟨.claimAttempt pair.1 pair.2 peer, .ok (some row)⟩ := by
      rcases hnew with ⟨hd, -⟩ | ⟨d₀, hd, hread, -, -⟩
      · cases hd with
        | mk peer => exact ⟨peer, _, rfl⟩
      · have hpair := (view_of_cell hcalls.sound.keyed.deliveries hread).2
        subst hpair
        cases hd with
        | reclaimed peer => exact ⟨peer, _, rfl⟩
        | markedSent => exact absurd ⟨rfl, .inl rfl⟩ hmark
        | markedFailed category => exact absurd ⟨rfl, .inr ⟨category, rfl⟩⟩ hmark
    obtain ⟨peer, row, hclaim⟩ := hclaim
    obtain ⟨hcell, -, hno, hopen, hattempts, hsent⟩ := hs.claim hcalls hclaim
    rw [hcell] at hp ⊢
    cases hp
    cases hclaim
    obtain ⟨command, -, hcall⟩ := hcalls.allowed.delivering (.inl ⟨peer, rfl⟩)
    obtain ⟨k', hp'⟩ := hcalls.running
    refine ⟨Running.advance ⟨hcall.2.2.2.1, _, hp'⟩ fun _ => rfl, ?_, ?_, ?_, hsent⟩
    · rw [Sys.history_advance_self]
      exact ⟨peer, _, List.mem_cons_self⟩
    · rw [Sys.history_advance_self]
      exact .claimed (List.forall_mem_cons.mpr ⟨(by rintro (h | ⟨_, h⟩) <;> cases h), hno⟩) hopen
    · exact hattempts

theorem LedgerAt.step_closed (hhonest : Honest (s.history t₀)) {d : VkNotificationDelivery}
    (hd : (next.delivery pair).committed = some d) : d.Closed := by
  rcases delivery_committed_cases hcalls pair with heq | ⟨rfl, d', hp, heq⟩
  · exact hs.closed d (heq ▸ hd)
  · -- the transaction that commits has marked what it has claimed
    rw [heq] at hd
    cases hd
    obtain ⟨-, hclaimed, hstage, -⟩ := hs.held t₀ d hp
    obtain ⟨command, hpool, -⟩ := claimed_delivers hcalls.orderly hclaimed
    have hallowed := hcalls.allowed
    rw [hpool] at hallowed
    exact hstage.closed_of_marked ((hallowed.2 hhonest).1 pair.1 pair.2 hclaimed)

theorem LedgerAt.step_counted : ∃ claimers : Finset Tid,
    (∀ t, t ∈ claimers ↔ Claimed ((s.advance t₀ c k r next).history t) pair.1 pair.2 ∧
    Committed (s.advance t₀ c k r next) t) ∧
      attemptsIn (next.delivery pair) = claimers.card := by
  obtain ⟨claimers, hmem, hcard⟩ := hs.counted
  by_cases hlands : c = .commit ∧ Claimed (s.history t₀) pair.1 pair.2
  · obtain ⟨rfl, hclaimed⟩ := hlands
    have hrun := claimed_commits_running hcalls hclaimed
    obtain ⟨d, hp⟩ := hs.holds t₀ hrun hclaimed
    have hnew : t₀ ∉ claimers := fun h => hrun.1 ((hmem t₀).mp h).2.ended
    refine ⟨insert t₀ claimers, fun t => ?_, ?_⟩
    · rw [Finset.mem_insert, hmem, claimed_committed_iff hcalls]
      constructor
      · rintro (rfl | h)
        · exact .inr ⟨rfl, rfl, hclaimed⟩
        · exact .inl h
      · rintro (h | ⟨rfl, -, -⟩)
        · exact .inr h
        · exact .inl rfl
    · rw [Finset.card_insert_of_notMem hnew, ← hcard, ← (hs.held t₀ d hp).2.2.2.1, delivery_landed hcalls hp]
      rfl
  · refine ⟨claimers, fun t => ?_, ?_⟩
    · rw [hmem, claimed_committed_iff hcalls]
      exact ⟨.inl, fun h => h.resolve_right fun ⟨_, hc⟩ => hlands hc⟩
    · rcases delivery_committed_cases hcalls pair with heq | ⟨hc, d, hp, -⟩
      · rw [attemptsIn, heq]
        exact hcard
      · exact absurd ⟨hc, (hs.held t₀ d hp).2.1⟩ hlands

/-- A transaction that has committed a sent row had done so before, or its commit lands the row. -/
theorem LedgerAt.step_sent_cases (hcommitted : Committed (s.advance t₀ c k r next) t)
    (hmark : MarkedSent ((s.advance t₀ c k r next).history t) pair.1 pair.2) :
    Committed s t ∧ MarkedSent (s.history t) pair.1 pair.2 ∨ t = t₀ ∧
      ∃ d, (s.shared.delivery pair).pending = some (t₀, d) ∧ next.delivery pair = ⟨some d, none⟩ ∧ d.status = .sent := by
  rcases markedSent_cases hmark with hbefore | ⟨rfl, rfl⟩
  · rcases hcommitted.cases with hcommitted | ⟨rfl, rfl⟩
    · exact .inl ⟨hcommitted, hbefore⟩
    · have hclaimed := markedSent_claimed hcalls.orderly hbefore
      obtain ⟨d, hp⟩ := hs.holds t (claimed_commits_running hcalls hclaimed) hclaimed
      exact .inr ⟨rfl, d, hp, delivery_landed hcalls hp, ((hs.held t d hp).2.2.1.sent_of_marked hbefore).1⟩
  · obtain ⟨command, -, hcall⟩ := hcalls.allowed.delivering (.inr (.inl rfl))
    rcases hcommitted.cases with hcommitted | ⟨-, hc⟩
    · exact absurd hcommitted.ended hcall.1
    · cases hc

theorem LedgerAt.step (hhonest : Honest (s.history t₀)) : LedgerAt pair (s.advance t₀ c k r next) where
  held _ _ hp := hs.step_held hcalls hp
  holds _ hrun hclaimed := hs.step_holds hcalls hrun hclaimed
  closed _ hd := hs.step_closed hcalls hhonest hd
  counted := hs.step_counted hcalls
  sentRow t hcommitted hmark := by
    rcases hs.step_sent_cases hcalls hcommitted hmark with ⟨hcommitted, hmark⟩ | ⟨-, d, -, hcell, hsent⟩
    · obtain ⟨d, hd, hsent⟩ := hs.sentRow t hcommitted hmark
      rcases delivery_committed_cases hcalls pair with heq | ⟨-, d', hp, -⟩
      · exact ⟨d, heq.trans hd, hsent⟩
      · exact absurd hsent ((hs.held t₀ d' hp).2.2.2.2 d hd)
    · exact ⟨d, by rw [Sys.advance_shared, hcell], hsent⟩
  sentOnce t t' hcommitted hmark hcommitted' hmark' := by
    -- the row is not committed as sent while a transaction holds it
    have hnot : ∀ {t d}, Committed s t → MarkedSent (s.history t) pair.1 pair.2 →
        (s.shared.delivery pair).pending ≠ some (t₀, d) := by
      intro t d hcommitted hmark hp
      obtain ⟨d', hd', hsent⟩ := hs.sentRow t hcommitted hmark
      exact (hs.held t₀ d hp).2.2.2.2 d' hd' hsent
    rcases hs.step_sent_cases hcalls hcommitted hmark with ⟨hbefore, hmark⟩ | ⟨rfl, d, hp, -⟩
    · rcases hs.step_sent_cases hcalls hcommitted' hmark' with ⟨hbefore', hmark'⟩ | ⟨-, d', hp', -⟩
      · exact hs.sentOnce t t' hbefore hmark hbefore' hmark'
      · exact absurd hp' (hnot hbefore hmark)
    · rcases hs.step_sent_cases hcalls hcommitted' hmark' with ⟨hbefore', hmark'⟩ | ⟨rfl, -⟩
      · exact absurd hp (hnot hbefore' hmark')
      · rfl

end Step

theorem LedgerAt.drop (hs : LedgerAt pair s) (hkeyed : s.shared.Keyed) (t₀ : Tid) :
    LedgerAt pair (s.drop t₀ (s.shared.rollback t₀)) := by
  have hcell := delivery_rollback hkeyed t₀ pair
  have hcommitted : ((s.shared.rollback t₀).delivery pair).committed = (s.shared.delivery pair).committed := by
    rw [hcell, Cell.committed_rollback]
  have hattempts : attemptsIn ((s.shared.rollback t₀).delivery pair) = attemptsIn (s.shared.delivery pair) := by
    rw [attemptsIn, attemptsIn, hcommitted]
  refine ⟨fun t d hp => ?_, fun t hrun hclaimed => ?_, fun d hd => hs.closed d (hcommitted ▸ hd), ?_, ?_, hs.sentOnce⟩
  · rw [Sys.drop_shared, hcell] at hp
    rcases Cell.rollback_cases t₀ (s.shared.delivery pair) with ⟨_, -, heq⟩ | ⟨hno, heq⟩
    · rw [heq] at hp
      cases hp
    · rw [heq] at hp
      obtain ⟨⟨hnot, p, hprog⟩, hclaimed, hstage, hcount, hsent⟩ := hs.held t d hp
      have hne : t ≠ t₀ := fun ht => hno d (ht ▸ hp)
      refine ⟨⟨hnot, p, by rwa [Sys.drop_prog_ne _ _ _ hne]⟩, hclaimed, hstage, ?_, ?_⟩
      · rw [Sys.drop_shared, hattempts]
        exact hcount
      · rw [Sys.drop_shared, hcommitted]
        exact hsent
  · obtain ⟨hrun, hne⟩ := hrun.before_drop
    obtain ⟨d, hp⟩ := hs.holds t hrun hclaimed
    exact ⟨d, (rollback_delivery hkeyed t₀ pair).other hp hne ▸ hp⟩
  · obtain ⟨claimers, hmem, hcard⟩ := hs.counted
    exact ⟨claimers, hmem, hattempts.trans hcard⟩
  · intro t hdone hmark
    obtain ⟨d, hd, hsent⟩ := hs.sentRow t hdone hmark
    exact ⟨d, hcommitted.trans hd, hsent⟩

theorem ledger_start (hempty : T.vkNotificationDeliveries = []) : LedgerAt pair (launch settings pool (.ofTables T)) :=
  have hcell : (launch settings pool (.ofTables T)).shared.delivery pair = Cell.empty := by
    simp only [launch, Sys.start_shared, Store.delivery, Store.ofTables, hempty]
    rfl
  { held := fun t d hp => by
      rw [hcell] at hp
      cases hp
    holds := fun t _ ⟨_, _, hmem⟩ => by cases hmem
    closed := fun d hd => by
      rw [hcell] at hd
      cases hd
    counted := ⟨∅, fun t => ⟨by simp, fun ⟨_, hmem⟩ => by cases hmem⟩, by rw [hcell]; rfl⟩
    sentRow := fun t hmem => by cases hmem
    sentOnce := fun t t' hmem => by cases hmem }

/-- The ledger invariant holds in every run. -/
theorem reaches_ledger (hT : T.Wf) (hempty : T.vkNotificationDeliveries = [])
    (hreach : Reaches hashtext cond (launch settings pool (.ofTables T)) s) (pair : UUID × UUID) : LedgerAt pair s :=
  reaches_induction (I := LedgerAt pair) hT .refl (ledger_start hempty)
    (fun _ t _ _ _ _ _ hreach hs _ hcalls => hs.step hcalls (reaches_honest hT hreach t))
    (fun _ t hreach hs => hs.drop (reaches_sound hT hreach).keyed t) hreach

/-- From its claim to its end a transaction holds the row. -/
theorem claim_writes (t : Tid) (pair : UUID × UUID) :
    WritesCell settings pool T cond (deliveryCell hashtext pair) (fun _ => True) t
      fun e => ∃ peer row, e = ⟨.claimAttempt pair.1 pair.2 peer, .ok (some row)⟩ where
  puts := by
    rintro s w c r next - hcalls ⟨peer, row, heq⟩
    cases heq
    obtain ⟨hcell, -⟩ := exec_claim hcalls.sound.keyed hcalls.exec
    exact ⟨row, congrArg Cell.pending hcell, trivial⟩
  opens := by
    rintro s w c r next hcalls ⟨peer, row, heq⟩
    cases heq
    obtain ⟨command, -, hcall⟩ := hcalls.allowed.delivering (.inl ⟨peer, rfl⟩)
    exact hcall.2.2.2.1
  keeps _ _ _ _ := trivial
  stays := by
    rintro s w c r next hcalls ⟨_, hmem, peer, row, rfl⟩ hc
    exact claimed_not_rolledBack hcalls ⟨peer, row, hmem⟩ hc

theorem claim_held (hT : T.Wf) (hreach : Reaches hashtext cond (launch settings pool (.ofTables T)) s)
    (hrun : Running s t) (hclaimed : Claimed (s.history t) pair.1 pair.2) :
    ∃ d, (s.shared.delivery pair).pending = some (t, d) := by
  obtain ⟨peer, row, hmem⟩ := hclaimed
  obtain ⟨d, hp, -⟩ := (claim_writes t pair).held hT hreach ⟨_, hmem, peer, row, rfl⟩ hrun
  exact ⟨d, hp⟩

/-- A call that marks a row is made by an open transaction that has claimed it, and holds it. -/
theorem mark_held (hT : T.Wf) (hreach : Reaches hashtext cond (launch settings pool (.ofTables T)) s)
    (hcalls : Calls hashtext settings pool s t w c r next) (hmark : MarksOf pair.1 pair.2 c) :
    ¬ Ended (s.history t) ∧ ∃ d, (s.shared.delivery pair).pending = some (t, d) := by
  obtain ⟨command, -, hcall⟩ := hcalls.allowed.delivering (.inr hmark)
  have hopen : ¬ Ended (s.history t) := by
    rcases hmark with rfl | ⟨category, rfl⟩ <;> exact hcall.1
  obtain ⟨went, hjust⟩ := hcall.justSent hmark
  obtain ⟨k', hp⟩ := hcalls.running
  exact ⟨hopen, claim_held hT hreach ⟨hopen, _, hp⟩ hjust.claimed⟩

/-- From its mark to its end a transaction holds a row that is PENDING no more. -/
theorem settling_writes (hT : T.Wf) (t : Tid) (pair : UUID × UUID) :
    WritesCell settings pool T cond (deliveryCell hashtext pair) (fun d => d.pair = pair ∧ d.status ≠ .pending) t
      fun e => MarksOf pair.1 pair.2 e.op where
  puts hreach hcalls hmark := by
    obtain ⟨-, d, hp⟩ := mark_held hT hreach hcalls hmark
    obtain ⟨d', hcell, hd'⟩ := exec_mark hcalls.sound.keyed hmark hp hcalls.exec
    have hp' := congrArg Cell.pending hcell
    refine ⟨d', hp', key_of_mem_cellOf (hcalls.sound.keyed.exec hcalls.exec).deliveries (Cell.pending_mem hp'), ?_⟩
    rcases hd' with ⟨-, rfl⟩ | ⟨category, -, rfl⟩ <;> simp [sent, failed]
  opens hcalls hmark := by
    obtain ⟨command, -, hcall⟩ := hcalls.allowed.delivering (.inr hmark)
    rcases hmark with h | ⟨category, h⟩ <;> cases h <;> exact hcall.1
  keeps hcalls he hP hw := by
    obtain ⟨e, he, hmark⟩ := he
    cases hw with
    | reclaimed peer =>
      obtain ⟨rfl, -⟩ := hP
      exact absurd (marks_claimed hcalls.orderly he hmark) (claim_fresh hcalls)
    | markedSent => exact ⟨hP.1, by simp [sent]⟩
    | markedFailed => exact ⟨hP.1, by simp [failed]⟩
  stays := by
    rintro s w c r next hcalls ⟨e, he, hmark⟩ hc
    exact claimed_not_rolledBack hcalls (marks_claimed hcalls.orderly he hmark) hc

/-- What a transaction holds of the ledger it has claimed. -/
theorem claimed_of_held (hT : T.Wf) (hreach : Reaches hashtext cond (launch settings pool (.ofTables T)) s)
    {d : VkNotificationDelivery} (hp : (s.shared.delivery pair).pending = some (t, d)) :
    Claimed (s.history t) pair.1 pair.2 := by
  have hsound := reaches_sound hT hreach
  have hpair : d.pair = pair := key_of_mem_cellOf hsound.keyed.deliveries (Cell.pending_mem hp)
  subst hpair
  obtain ⟨e, he, hwrites⟩ := hsound.owned.deliveries t d ((held_iff hsound.keyed.deliveries).mpr hp)
  cases hwrites with
  | claimed peer row => exact ⟨peer, row, he⟩
  | marked hmark => exact marks_claimed (reaches_orderly hreach) he hmark

/-- Only rows with a mark are committed: a row that has left PENDING does not return to it. -/
theorem settled_stays (hT : T.Wf) {s₁ : Run} (hstart : Reaches hashtext cond (launch settings pool (.ofTables T)) s₁)
    (hreach : Reaches hashtext cond s₁ s)
    (h : ∃ d, (s₁.shared.delivery pair).committed = some d ∧ d.status ≠ .pending) :
    ∃ d, (s.shared.delivery pair).committed = some d ∧ d.status ≠ .pending := by
  refine reaches_induction (I := fun s => ∃ d, (s.shared.delivery pair).committed = some d ∧ d.status ≠ .pending)
    hT hstart h ?_ ?_ hreach
  · rintro s t₀ w c k r next hreach ⟨d, hd, hsettled⟩ - hcalls
    rcases delivery_committed_cases hcalls pair with heq | ⟨rfl, d', hp, hcell⟩
    · exact ⟨d, heq.trans hd, hsettled⟩
    · have hclaimed := claimed_of_held hT hreach hp
      obtain ⟨command, hpool, -⟩ := claimed_delivers hcalls.orderly hclaimed
      have hallowed := hcalls.allowed
      rw [hpool] at hallowed
      have hmark : ∃ e ∈ s.history t₀, MarksOf pair.1 pair.2 e.op := by
        rcases (hallowed.2 (reaches_honest hT hreach t₀)).1 pair.1 pair.2 hclaimed with ⟨row, hmem⟩ |
          ⟨category, row, hmem⟩
        · exact ⟨_, hmem, .inl rfl⟩
        · exact ⟨_, hmem, .inr ⟨category, rfl⟩⟩
      obtain ⟨d'', hp', -, hstatus⟩ :=
        (settling_writes hT t₀ pair).held hT hreach hmark (claimed_commits_running hcalls hclaimed)
      obtain rfl := (Prod.mk.inj (Option.some.inj (hp.symm.trans hp'))).2
      exact ⟨d', by rw [Sys.advance_shared, hcell], hstatus⟩
  · rintro s t₀ hreach ⟨d, hd, hsettled⟩
    refine ⟨d, ?_, hsettled⟩
    rw [Sys.drop_shared, delivery_rollback (reaches_sound hT hreach).keyed, Cell.committed_rollback, hd]

/-- A step takes no row that was sent. -/
theorem rewrites_unsent (hT : T.Wf) (hreach : Reaches hashtext cond (launch settings pool (.ofTables T)) s)
    (hcalls : Calls hashtext settings pool s t w c r next) {d d' : VkNotificationDelivery}
    (hw : RewritesDelivery w d c r d') (hread : (s.shared.delivery pair).read t = some d) :
    d.status ≠ .sent ∨ ∃ d, (s.shared.delivery pair).pending = some (t, d) := by
  have hpair : d.pair = pair := (view_of_cell hcalls.sound.keyed.deliveries hread).2
  subst hpair
  cases hw with
  | reclaimed peer hsent => exact .inl hsent
  | markedSent => exact .inr (mark_held hT hreach hcalls (.inl rfl)).2
  | markedFailed category => exact .inr (mark_held hT hreach hcalls (.inr ⟨category, rfl⟩)).2

/-- A row that is committed as sent is held by nobody. -/
theorem sent_unheld (hT : T.Wf) (hreach : Reaches hashtext cond (launch settings pool (.ofTables T)) s)
    (pair : UUID × UUID) : (s.shared.delivery pair).Sealed (·.status = .sent) := by
  refine reaches_induction (I := fun s => (s.shared.delivery pair).Sealed (·.status = .sent)) hT .refl
    (fun _ _ _ => pending_cellOf_ofRows pair T.vkNotificationDeliveries) ?_ ?_ hreach
  · intro s t w c k r next hreach hinv _ hcalls d hd hsent
    have hstep := exec_delivery hcalls.sound.keyed hcalls.exec pair
    rcases hstep.committed_cases with heq | ⟨d', -, -, heq⟩
    · have hnone := hinv d (heq ▸ hd) hsent
      cases hp : (next.delivery pair).pending with
      | none => exact hp
      | some held =>
        rcases hstep.pending_cases hp with ⟨hold, -⟩ | ⟨-, ⟨-, hempty⟩ | ⟨d', hw, hread, -⟩⟩
        · rw [hnone] at hold
          cases hold
        · rw [Sys.advance_shared, heq, hempty] at hd
          cases hd
        · rcases rewrites_unsent hT hreach hcalls hw hread with hunsent | ⟨d'', hp'⟩
          · rw [Cell.read_of_not_pending (by simp [hnone]), ← heq] at hread
            obtain rfl := Option.some.inj (hread.symm.trans hd)
            exact absurd hsent hunsent
          · rw [hnone] at hp'
            cases hp'
    · rw [Sys.advance_shared, heq]
  · intro s t hreach hinv d hd hsent
    have hcell := delivery_rollback (reaches_sound hT hreach).keyed t pair
    rw [Sys.drop_shared, hcell] at hd ⊢
    rw [Cell.committed_rollback] at hd
    have hnone := hinv d hd hsent
    rw [Cell.rollback, hnone]
    exact hnone

/-- It stays what it is. -/
theorem sent_final (hT : T.Wf) {s₁ : Run} (hstart : Reaches hashtext cond (launch settings pool (.ofTables T)) s₁)
    (hreach : Reaches hashtext cond s₁ s) {d : VkNotificationDelivery}
    (hd : (s₁.shared.delivery pair).committed = some d) (hsent : d.status = .sent) :
    (s.shared.delivery pair).committed = some d := by
  refine reaches_induction (I := fun s => (s.shared.delivery pair).committed = some d) hT hstart hd ?_ ?_ hreach
  · intro s t₀ w c k r next hreach hinv _ hcalls
    rcases delivery_committed_cases hcalls pair with heq | ⟨-, d', hp, -⟩
    · exact heq.trans hinv
    · cases (sent_unheld hT hreach pair d hinv hsent).symm.trans hp
  · intro s t₀ hreach hinv
    rw [Sys.drop_shared, delivery_rollback (reaches_sound hT hreach).keyed, Cell.committed_rollback, hinv]

theorem committed_delivery (hkeyed : s.shared.Keyed) {d : VkNotificationDelivery} :
    d ∈ s.shared.committed.vkNotificationDeliveries ↔ (s.shared.delivery d.pair).committed = some d :=
  mem_snapshot_iff hkeyed.deliveries

/-- A delivery sends a message right after it has claimed the row of its recipient. -/
theorem send_follows_claim (hreach : Reaches hashtext cond (launch settings pool (.ofTables T)) s)
    {command : NotificationCommandSendVkData} (hpool : pool t = .deliver command) {later earlier : CallHistory}
    {peerId : PeerId} {text : String} {reply : Except Exn Bool}
    (hh : s.history t = later ++ ⟨.sendMessage peerId text, reply⟩ :: earlier) :
    ∃ u ∈ command.userIds, ∃ row rest, earlier =
    ⟨.claimAttempt command.eventUuid u peerId, .ok (some row)⟩ :: rest := by
  have htraced := (reaches_orderly hreach).traced t
  rw [hpool, hh] at htraced
  obtain ⟨-, -, ev, u, row, rest, rfl⟩ :=
    show DeliveryCall command earlier (.sendMessage peerId text) from htraced.before
  rw [List.append_cons] at htraced
  obtain ⟨rfl, hu, -⟩ := show DeliveryCall command rest (.claimAttempt ev u peerId) from htraced.before
  exact ⟨u, hu, row, rest, rfl⟩

/-- A message that a committed transaction has sent is recorded by it. -/
theorem wentOut_marked (hT : T.Wf) (hreach : Reaches hashtext cond (launch settings pool (.ofTables T)) s)
    (hcommitted : Committed s t) {ev u : UUID} {n : Nat} (hout : WentOut (s.history t) ev u n) :
    MarkedSent (s.history t) ev u := by
  obtain ⟨command, -, htraced⟩ := claimed_delivers (reaches_orderly hreach) hout.claimed
  exact (committed_marked htraced (reaches_honest hT hreach t) hcommitted hout.claimed).resolve_right
    (hout.not_markedFailed htraced)

/-- From an empty ledger, in every state of every run: a committed row is SENT or FAILED, with
`sent_at` exactly when it is SENT and `last_error` exactly when it is FAILED; its attempts count
the committed transactions that have claimed it; a SENT row is the same in every later state;
of the committed transactions at most one has sent its message, once; and a delivery sends no
message but right after its claim of the recipient's row. -/
theorem ledger_invariant (hashtext : String → Int) (settings : VkSettings) (pool : Tid → Request) (T : Tables)
    (hT : T.Wf) (hempty : T.vkNotificationDeliveries = []) (s : Run)
    (hreach : Reaches hashtext anyMove (launch settings pool (.ofTables T)) s) :
    (∀ d ∈ s.shared.committed.vkNotificationDeliveries,
      (d.status = .sent ∨ d.status = .failed) ∧ (d.sentAt.isSome = true ↔ d.status = .sent) ∧
      (d.lastError.isSome = true ↔ d.status = .failed) ∧
      (∃ claimers : Finset Tid, (∀ t, t ∈ claimers ↔ Claimed (s.history t) d.eventUuid d.userId ∧ Committed s t) ∧
        d.attempts = claimers.card) ∧
      (d.status = .sent → ∀ s', Reaches hashtext anyMove s s' → d ∈ s'.shared.committed.vkNotificationDeliveries)) ∧
    (∀ ev u t t' n n', Committed s t → Committed s t' → WentOut (s.history t) ev u n → WentOut (s.history t') ev u n' →
      t = t' ∧ n = n') ∧
    ∀ t command, pool t = .deliver command → ∀ later earlier peerId text reply,
      s.history t = later ++ ⟨.sendMessage peerId text, reply⟩ :: earlier →
      ∃ u ∈ command.userIds, ∃ row rest, earlier =
      ⟨.claimAttempt command.eventUuid u peerId, .ok (some row)⟩ :: rest := by
  have hkeyed := (reaches_sound hT hreach).keyed
  refine ⟨fun d hd => ?_, fun ev u t t' n n' hcommitted hcommitted' hout hout' => ?_,
    fun t command hpool _ _ _ _ _ hh => send_follows_claim hreach hpool hh⟩
  · have hs := reaches_ledger hT hempty hreach d.pair
    have hcell := (committed_delivery hkeyed).mp hd
    obtain ⟨claimers, hmem, hcard⟩ := hs.counted
    have hattempts : attemptsIn (s.shared.delivery d.pair) = d.attempts := by simp [attemptsIn, hcell]
    have hfinal : d.status = .sent → ∀ s', Reaches hashtext anyMove s s' →
      d ∈ s'.shared.committed.vkNotificationDeliveries := by
      intro hsent s' hlater
      exact (committed_delivery (reaches_sound hT (hreach.trans hlater)).keyed).mpr
        (sent_final hT hreach hlater hcell hsent)
    rcases hs.closed d hcell with ⟨hstatus, hsentAt, herror⟩ | ⟨hstatus, hsentAt, herror⟩
    · exact ⟨.inl hstatus, by simp [hstatus, hsentAt], by simp [hstatus, herror],
        ⟨claimers, hmem, hattempts ▸ hcard⟩, hfinal⟩
    · exact ⟨.inr hstatus, by simp [hstatus, hsentAt], by simp [hstatus, herror],
        ⟨claimers, hmem, hattempts ▸ hcard⟩, hfinal⟩
  · have hs := reaches_ledger hT hempty hreach (ev, u)
    obtain rfl := hs.sentOnce t t' hcommitted (wentOut_marked hT hreach hcommitted hout) hcommitted'
      (wentOut_marked hT hreach hcommitted' hout')
    obtain ⟨command, -, htraced⟩ := claimed_delivers (reaches_orderly hreach) hout.claimed
    exact ⟨rfl, hout.unique htraced hout'⟩

end Runs

section Example

/-- An active binding and an empty ledger. -/
def oneLinked : Tables where
  userVks := [⟨1, 1, some 5, .active, none, none, none, 0, 0⟩]
  vkConfirmations := []
  vkLogs := []
  vkNotificationDeliveries := []

theorem oneLinked_wf : oneLinked.Wf := by
  constructor <;> decide

/-- A command for user 1. -/
def toOne : NotificationCommandSendVkData := ⟨9, [1], "hello", by decide, by decide⟩

/-- Session 0 fails to send and commits, session 1 sends and commits. -/
def failedThenSent : Option Run :=
  (database fun _ => 0).runMoves
    (List.replicate 6 (.step 0 { World.still 0 with accepts := fun _ => false }) ++ List.replicate 6 (.step 1 (.still 0)))
    (launch .least (fun _ => .deliver toOne) (.ofTables oneLinked))

private theorem failedThenSent_isSome : failedThenSent.isSome = true := by decide +kernel

/-- Two committed claims, and a row that says so. -/
theorem ledger_invariant_failedThenSent : ∃ claimers : Finset Tid,
    (∀ t, t ∈ claimers ↔ Claimed ((failedThenSent.get failedThenSent_isSome).history t) 9 1 ∧
      Committed (failedThenSent.get failedThenSent_isSome) t) ∧ 2 = claimers.card :=
  ((ledger_invariant (fun _ => 0) .least (fun _ => .deliver toOne) oneLinked oneLinked_wf rfl _
    (reach_of_runMoves _ (Option.some_get failedThenSent_isSome).symm)).1
    ⟨9, 1, 5, .sent, 2, none, 0, some 0⟩ (by decide +kernel)).2.2.2.1

end Example
end VkService
