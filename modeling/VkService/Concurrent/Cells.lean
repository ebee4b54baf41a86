import VkService.Concurrent.Ownership
import VkService.Storage.CellSteps

/-! What a step of the database does to the cell of one binding, one code and one ledger row. -/
namespace VkService
open PyStr Effects RowStore UserVkRepository VkConfirmationRepository VkNotificationDeliveryRepository

/-- A binding that the call has created. -/
inductive CreatesUserVk (w : World) (x : UUID) : (c : Call) → Except Exn c.Reply → UserVk → Prop
  | mk (userId : UUID) : CreatesUserVk w x (.userVkCreate userId) (.ok (pendingRow w x userId)) (pendingRow w x userId)

/-- A new version of a binding that the call has written over a live one. -/
inductive RewritesUserVk (w : World) (row : UserVk) : (c : Call) → Except Exn c.Reply → UserVk → Prop
  | activated (hlive : row.live = true) (vkPeerId : PeerId) (sn dn : Option String) :
      RewritesUserVk w row (.userVkActivate row.id vkPeerId sn dn) (.ok (activated w vkPeerId sn dn row))
        (activated w vkPeerId sn dn row)
  | stateSet (hlive : row.live = true) (state : BindingState) (r : Except Exn (Option UserVk)) :
      RewritesUserVk w row (.userVkSetState row.id state) r (withState w state row)
  | softDeleted (hlive : row.live = true) (r : Except Exn Bool) :
      RewritesUserVk w row (.userVkSoftDelete row.userId) r (deleted w row)

inductive CreatesConfirmation (w : World) (y : UUID) : (c : Call) → Except Exn c.Reply → VkConfirmation → Prop
  | mk (userVkId : UUID) (code : Str) (expiresAt : Time) :
      CreatesConfirmation w y (.confirmationCreate userVkId code expiresAt)
        (.ok ⟨y, userVkId, code, expiresAt, w.now, none⟩) ⟨y, userVkId, code, expiresAt, w.now, none⟩

/-- The call has used up a code. -/
inductive UsesUp (w : World) (row : VkConfirmation) : (c : Call) → Except Exn c.Reply → VkConfirmation → Prop
  | marked : UsesUp w row (.confirmationMarkUsed row.id) (.ok ()) (used w row)
  | invalidated (n : Nat) (hunused : row.usedAt = none) :
      UsesUp w row (.confirmationInvalidatePrevious row.userVkId) (.ok n) (used w row)

inductive ClaimsNew (w : World) (pair : UUID × UUID) : (c : Call) → Except Exn c.Reply → VkNotificationDelivery → Prop
  | mk (peer : PeerId) : ClaimsNew w pair (.claimAttempt pair.1 pair.2 peer)
      (.ok (some ⟨pair.1, pair.2, peer, .pending, 1, none, w.now, none⟩))
      ⟨pair.1, pair.2, peer, .pending, 1, none, w.now, none⟩

inductive RewritesDelivery (w : World) (d : VkNotificationDelivery) :
    (c : Call) → Except Exn c.Reply → VkNotificationDelivery → Prop
  | reclaimed (peer : PeerId) (hsent : d.status ≠ .sent) :
      RewritesDelivery w d (.claimAttempt d.eventUuid d.userId peer) (.ok (some (reclaimed w peer d)))
      (reclaimed w peer d)
  | markedSent (r : Except Exn VkNotificationDelivery) :
      RewritesDelivery w d (.markSent d.eventUuid d.userId) r (sent w d)
  | markedFailed (category : String) (r : Except Exn VkNotificationDelivery) :
      RewritesDelivery w d (.markFailed d.eventUuid d.userId category) r (failed w category d)

section Deeds
variable (w : World) (c : Call) (r : Except Exn c.Reply)

/-- What a call is for the binding `x`, for the code `y` and for the ledger row of a pair. -/
def userVkDeed (x : UUID) : Deed UserVk where
  commits := c = .commit
  rollsBack := RolledBack c r
  creates := CreatesUserVk w x c r
  rewrites row row' := RewritesUserVk w row c r row'

def confirmationDeed (y : UUID) : Deed VkConfirmation where
  commits := c = .commit
  rollsBack := RolledBack c r
  creates := CreatesConfirmation w y c r
  rewrites row row' := UsesUp w row c r row'

def deliveryDeed (pair : UUID × UUID) : Deed VkNotificationDelivery where
  commits := c = .commit
  rollsBack := RolledBack c r
  creates := ClaimsNew w pair c r
  rewrites d d' := RewritesDelivery w d c r d'

end Deeds

section Cells
variable {hashtext : String → Int} {t : Tid} {w : World} {c : Call} {s s' : Store} {r : Except Exn c.Reply}

/-- A row that an UPDATE selects in a cell is held by nobody else. -/
theorem ready_cell {ρ κ : Type} [DecidableEq κ] (key : ρ → κ) (k : κ) {p : ρ → Bool} {h : Heap Tid ρ}
    (hready : rowsReady t p h = true) :
    ((cellOf key k h).read t).any p = false ∨ (cellOf key k h).lockedByOther t = false := by
  rcases cellOf_mem_or_empty key k h with hmem | hempty
  · exact rowsReady_iff.mp hready _ hmem
  · exact .inr (by rw [hempty]; rfl)

/-- What is seen in the cell of a key is seen in the table, with that key. -/
theorem view_of_cell {ρ κ : Type} [DecidableEq κ] {key : ρ → κ} {k : κ} {h : Heap Tid ρ} (hkeyed : Keyed key h)
    {row : ρ} (hread : (cellOf key k h).read t = some row) : row ∈ view t h ∧ key row = k := by
  have hkey := key_of_mem_cellOf hkeyed (Cell.read_mem_versions hread)
  refine ⟨(mem_view_iff hkeyed).mpr ?_, hkey⟩
  rwa [hkey]

theorem exec_userVk (hs : s.Keyed) (h : (database hashtext).exec t w c s = some (r, s')) (x : UUID) :
    (s.userVk x).Step t (userVkDeed w c r x) (s'.userVk x) := by
  have hstep := exec_userVks h
  unfold Store.userVk
  generalize s'.userVks = after at hstep
  cases hstep with
  | same => exact .same
  | committed => exact cellOf_commit hs.userVks x ▸ Cell.step_commit rfl
  | rolledBack hr => exact cellOf_rollback hs.userVks x ▸ Cell.step_rollback hr
  | @created userId hready hfree =>
    rw [cellOf_insert hs.userVks (newId_userVk w s)]
    split
    · rename_i hx
      obtain rfl : (s.newIds w).userVk = x := hx
      refine .created (.mk userId) (cellOf_eq_empty fun row hrow heq => ?_)
      exact newId_userVk w s row hrow heq
    · exact .same
  | @activated recordId vkPeerId sn dn row hready hrow hkey hfree =>
    rw [cellOf_update hs.userVks (f := activated w vkPeerId sn dn) fun _ => rfl]
    refine Cell.step_write (ready_cell _ _ hready) fun row' hread hp => ?_
    have hmem : row' ∈ (view t s.userVks).filter (liveWithId recordId) :=
      List.mem_filter.mpr ⟨(view_of_cell hs.userVks hread).1, hp⟩
    rw [hrow] at hmem
    obtain rfl := List.mem_singleton.mp hmem
    simp only [liveWithId, Bool.and_eq_true, beq_iff_eq] at hp
    obtain ⟨rfl, hlive⟩ := hp
    exact .activated hlive vkPeerId sn dn
  | @stateSet recordId state r hready =>
    rw [cellOf_update hs.userVks (f := withState w state) fun _ => rfl]
    refine Cell.step_write (ready_cell _ _ hready) fun row' hread hp => ?_
    simp only [liveWithId, Bool.and_eq_true, beq_iff_eq] at hp
    obtain ⟨rfl, hlive⟩ := hp
    exact .stateSet hlive state r
  | @softDeleted userId r hready =>
    rw [cellOf_update hs.userVks (f := deleted w) fun _ => rfl]
    refine Cell.step_write (ready_cell _ _ hready) fun row' hread hp => ?_
    simp only [liveOfUser, Bool.and_eq_true, beq_iff_eq] at hp
    obtain ⟨rfl, hlive⟩ := hp
    exact .softDeleted hlive r

theorem exec_confirmation (hs : s.Keyed) (h : (database hashtext).exec t w c s = some (r, s')) (y : UUID) :
    (s.confirmation y).Step t (confirmationDeed w c r y) (s'.confirmation y) := by
  have hstep := exec_vkConfirmations h
  unfold Store.confirmation
  generalize s'.vkConfirmations = after at hstep
  cases hstep with
  | same => exact .same
  | committed => exact cellOf_commit hs.vkConfirmations y ▸ Cell.step_commit rfl
  | rolledBack hr => exact cellOf_rollback hs.vkConfirmations y ▸ Cell.step_rollback hr
  | codeCreated =>
    rw [cellOf_insert hs.vkConfirmations (newId_vkConfirmation w s)]
    split
    · rename_i hy
      obtain rfl : (s.newIds w).vkConfirmation = y := hy
      refine .created (.mk ..) (cellOf_eq_empty fun row hrow heq => ?_)
      exact newId_vkConfirmation w s row hrow heq
    · exact .same
  | markedUsed hready =>
    rw [cellOf_update hs.vkConfirmations (f := used w) fun _ => rfl]
    refine Cell.step_write (ready_cell _ _ hready) fun row' hread hp => ?_
    obtain rfl : row'.id = _ := by simpa using hp
    exact .marked
  | invalidated hready =>
    rw [cellOf_update hs.vkConfirmations (f := used w) fun _ => rfl]
    refine Cell.step_write (ready_cell _ _ hready) fun row' hread hp => ?_
    simp only [unusedOf, Bool.and_eq_true, beq_iff_eq, Option.isNone_iff_eq_none] at hp
    obtain ⟨rfl, hunused⟩ := hp
    exact .invalidated _ hunused

theorem pair_of_keyed {event user : UUID} {d : VkNotificationDelivery} (h : keyed event user d = true) :
    d.pair = (event, user) := by
  simp only [keyed, Bool.and_eq_true, beq_iff_eq] at h
  exact Prod.ext h.1 h.2

theorem keyed_of_pair {event user : UUID} {d : VkNotificationDelivery} (h : d.pair = (event, user)) :
    keyed event user d = true := by
  obtain ⟨rfl, rfl⟩ := Prod.mk.inj h
  simp [keyed]

/-- A pair that a claim finds nowhere has no version. -/
theorem delivery_absent (hs : s.Keyed) {event user : UUID}
    (hready : keyReady t (keyed event user) s.vkNotificationDeliveries = true)
    (hnew : (view t s.vkNotificationDeliveries).filter (keyed event user) = []) :
    ∀ d ∈ versions s.vkNotificationDeliveries, d.pair ≠ (event, user) := by
  intro d hd hpair
  have habsent := hs.deliveries.absent (p := keyed event user)
    (fun d d' heq => by simp [keyed, (Prod.mk.inj heq).1, (Prod.mk.inj heq).2]) hready
    (List.any_eq_false.mpr fun d hd => List.filter_eq_nil_iff.mp hnew d hd) d hd
  rw [keyed_of_pair hpair] at habsent
  cases habsent

/-- A row that a claim finds is held by nobody else. -/
theorem delivery_found (hs : s.Keyed) {event user : UUID} {d : VkNotificationDelivery}
    (hready : keyReady t (keyed event user) s.vkNotificationDeliveries = true)
    (hrow : (view t s.vkNotificationDeliveries).filter (keyed event user) = [d]) :
    (s.delivery (event, user)).read t = some d ∧ (s.delivery (event, user)).lockedByOther t = false := by
  obtain ⟨hview, hp⟩ := List.mem_filter.mp (hrow ▸ List.mem_singleton_self d)
  have hread : (s.delivery (event, user)).read t = some d := pair_of_keyed hp ▸ (mem_view_iff hs.deliveries).mp hview
  refine ⟨hread, ?_⟩
  rcases cellOf_mem_or_empty VkNotificationDelivery.pair (event, user) s.vkNotificationDeliveries with hmem | hempty
  · cases hlocked : (s.delivery (event, user)).lockedByOther t with
    | false => rfl
    | true =>
      have hnot := keyReady_iff.mp hready _ hmem hlocked d (Cell.read_mem_versions hread)
      rw [hp] at hnot
      cases hnot
  · rw [Store.delivery, hempty]
    rfl

theorem delivery_insert (hs : s.Keyed) {d : VkNotificationDelivery}
    (hno : ∀ d' ∈ versions s.vkNotificationDeliveries, d'.pair ≠ d.pair) (pair : UUID × UUID) :
    cellOf VkNotificationDelivery.pair pair (insert t d s.vkNotificationDeliveries) =
      if d.pair = pair then ⟨none, some (t, d)⟩ else s.delivery pair :=
  cellOf_insert hs.deliveries hno pair

theorem exec_delivery (hs : s.Keyed) (h : (database hashtext).exec t w c s = some (r, s')) (pair : UUID × UUID) :
    (s.delivery pair).Step t (deliveryDeed w c r pair) (s'.delivery pair) := by
  have hstep := exec_deliveries h
  unfold Store.delivery
  generalize s'.vkNotificationDeliveries = after at hstep
  cases hstep with
  | same => exact .same
  | committed => exact cellOf_commit hs.deliveries pair ▸ Cell.step_commit rfl
  | rolledBack hr => exact cellOf_rollback hs.deliveries pair ▸ Cell.step_rollback hr
  | @claimed event user peer hready hnew =>
    have hno := delivery_absent hs hready hnew
    rw [delivery_insert (d := ⟨event, user, peer, .pending, 1, none, w.now, none⟩) hs hno]
    split
    · rename_i heq
      subst heq
      exact .created (.mk peer) (cellOf_eq_empty hno)
    · exact .same
  | @reclaimed event user peer d hready hrow hsent =>
    obtain ⟨hread, hfree⟩ := delivery_found hs hready hrow
    rw [cellOf_update hs.deliveries (f := reclaimed w peer) fun _ => rfl]
    by_cases hpair : pair = (event, user)
    · subst hpair
      refine Cell.step_write (.inr hfree) fun d' hread' hp => ?_
      obtain rfl : d = d' := Option.some.inj (hread.symm.trans hread')
      obtain ⟨rfl, rfl⟩ := Prod.mk.inj (pair_of_keyed hp)
      exact .reclaimed peer hsent
    · -- the claim is of another pair
      have hother : ∀ d', (s.delivery pair).read t = some d' → keyed event user d' ≠ true := fun d' hread' hp =>
        hpair ((view_of_cell hs.deliveries hread').2.symm.trans (pair_of_keyed hp))
      refine Cell.step_write (.inl ?_) fun d' hread' hp => absurd hp (hother d' hread')
      rw [Option.any_eq_false]
      exact fun d' hread' => by simpa using hother d' hread'
  | markedSent hready =>
    rw [cellOf_update hs.deliveries (f := sent w) fun _ => rfl]
    refine Cell.step_write (ready_cell _ _ hready) fun d hread hp => ?_
    obtain ⟨rfl, rfl⟩ := Prod.mk.inj (pair_of_keyed hp)
    exact .markedSent _
  | @markedFailed event user category hready =>
    rw [cellOf_update hs.deliveries (f := failed w category) fun _ => rfl]
    refine Cell.step_write (ready_cell _ _ hready) fun d hread hp => ?_
    obtain ⟨rfl, rfl⟩ := Prod.mk.inj (pair_of_keyed hp)
    exact .markedFailed _ _

theorem exec_commit {r : Except Exn Unit} (h : (database hashtext).exec t w .commit s = some (r, s')) :
    s' = s.commit t := by
  obtain ⟨-, -, rfl⟩ := execCall_cases h
  rfl

/-- A transaction that has ended holds nothing. -/
theorem not_held_of_ends (h : (database hashtext).exec t w c s = some (r, s')) (hc : c.ends = true) :
    (∀ row, ¬ Held t row s'.userVks) ∧ (∀ row, ¬ Held t row s'.vkConfirmations) ∧
      ∀ row, ¬ Held t row s'.vkNotificationDeliveries := by
  obtain ⟨-, -, rfl⟩ := execCall_cases h
  cases c with
  | commit => exact ⟨fun _ hheld => hheld.of_commit.2 rfl, fun _ hheld => hheld.of_commit.2 rfl,
      fun _ hheld => hheld.of_commit.2 rfl⟩
  | rollback | close => exact ⟨fun _ hheld => hheld.of_rollback.2 rfl, fun _ hheld => hheld.of_rollback.2 rfl,
      fun _ hheld => hheld.of_rollback.2 rfl⟩
  | _ => cases hc

section Ends
variable (hs : s.Keyed) (t : Tid)
include hs

theorem userVk_commit (x : UUID) : (s.commit t).userVk x = (s.userVk x).commit t := cellOf_commit hs.userVks x

theorem userVk_rollback (x : UUID) : (s.rollback t).userVk x = (s.userVk x).rollback t := cellOf_rollback hs.userVks x

theorem confirmation_commit (y : UUID) : (s.commit t).confirmation y = (s.confirmation y).commit t :=
  cellOf_commit hs.vkConfirmations y

theorem confirmation_rollback (y : UUID) : (s.rollback t).confirmation y = (s.confirmation y).rollback t :=
  cellOf_rollback hs.vkConfirmations y

theorem delivery_commit (pair : UUID × UUID) : (s.commit t).delivery pair = (s.delivery pair).commit t :=
  cellOf_commit hs.deliveries pair

theorem delivery_rollback (pair : UUID × UUID) : (s.rollback t).delivery pair = (s.delivery pair).rollback t :=
  cellOf_rollback hs.deliveries pair

theorem rollback_userVk (x : UUID) : (s.userVk x).Step t .killed ((s.rollback t).userVk x) :=
  userVk_rollback hs t x ▸ Cell.step_rollback trivial

theorem rollback_confirmation (y : UUID) : (s.confirmation y).Step t .killed ((s.rollback t).confirmation y) :=
  confirmation_rollback hs t y ▸ Cell.step_rollback trivial

theorem rollback_delivery (pair : UUID × UUID) : (s.delivery pair).Step t .killed ((s.rollback t).delivery pair) :=
  delivery_rollback hs t pair ▸ Cell.step_rollback trivial

end Ends

end Cells

end VkService
