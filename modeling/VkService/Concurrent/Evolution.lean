import VkService.Concurrent.Provenance
import VkService.Concurrent.Views
import VkService.Concurrent.Ledger
import VkService.Concurrent.Attempts

/-! What the tables never undo. Whatever the interleaving, rows are only added and go forward,
and every state that anybody sees keeps the schema and the meaning of the states. -/
namespace VkService
open PyStr Effects Effects.Machine RowStore UserVkRepository VkConfirmationRepository VkNotificationDeliveryRepository

section Rows

/-- A binding keeps its identity. Once removed it stays as it is. Once it has a peer it goes on
having one, though another confirmation can put its own in the place; and it does not go back to
PENDING. -/
structure UserVk.Becomes (r r' : UserVk) : Prop where
  id : r'.id = r.id
  userId : r'.userId = r.userId
  createdAt : r'.createdAt = r.createdAt
  removed : r.live = false → r' = r
  linked : r.vkPeerId ≠ none → r'.vkPeerId ≠ none
  left : r.state ≠ .pending → r'.state ≠ .pending

/-- A code keeps everything but `used_at`, which is not taken away. -/
structure VkConfirmation.Becomes (c c' : VkConfirmation) : Prop where
  core : c'.core = c.core
  createdAt : c'.createdAt = c.createdAt
  used : c.usedAt ≠ none → c'.usedAt ≠ none

/-- A ledger row keeps its key, and its attempts do not decrease. Once SENT it stays as it is,
and once FAILED it does not go back to PENDING. -/
structure VkNotificationDelivery.Becomes (d d' : VkNotificationDelivery) : Prop where
  pair : d'.pair = d.pair
  attempts : d.attempts ≤ d'.attempts
  settled : d.status ≠ .pending → d'.status ≠ .pending
  sent : d.status = .sent → d' = d

/-- Every row is still there, in a later version; the journal has only grown. -/
structure Tables.Becomes (T T' : Tables) : Prop where
  bindings : ∀ r ∈ T.userVks, ∃ r' ∈ T'.userVks, r.Becomes r'
  codes : ∀ c ∈ T.vkConfirmations, ∃ c' ∈ T'.vkConfirmations, c.Becomes c'
  journal : T.vkLogs.Sublist T'.vkLogs
  ledger : ∀ d ∈ T.vkNotificationDeliveries, ∃ d' ∈ T'.vkNotificationDeliveries, d.Becomes d'

theorem UserVk.Becomes.trans {r r' r'' : UserVk} (h : r.Becomes r') (h' : r'.Becomes r'') : r.Becomes r'' where
  id := h'.id.trans h.id
  userId := h'.userId.trans h.userId
  createdAt := h'.createdAt.trans h.createdAt
  removed hr := by
    obtain rfl := h.removed hr
    exact h'.removed hr
  linked := h'.linked ∘ h.linked
  left := h'.left ∘ h.left

theorem VkConfirmation.Becomes.trans {c c' c'' : VkConfirmation} (h : c.Becomes c') (h' : c'.Becomes c'') :
    c.Becomes c'' where
  core := h'.core.trans h.core
  createdAt := h'.createdAt.trans h.createdAt
  used := h'.used ∘ h.used

end Rows

section Writes
variable {w : World} {c : Call} {r : Except Exn c.Reply}

/-- An UPDATE of a binding takes it forward, if it does not set PENDING. -/
theorem RewritesUserVk.becomes {row row' : UserVk} (h : RewritesUserVk w row c r row')
    (hstate : ∀ x, c ≠ .userVkSetState x .pending) : row.Becomes row' := by
  have hlive : row.live = true := by cases h <;> assumption
  have hremoved : row.live = false → row' = row := fun hdead => by rw [hlive] at hdead; cases hdead
  cases h with
  | activated =>
    exact ⟨rfl, rfl, rfl, hremoved, fun _ => by simp [UserVkRepository.activated], fun _ => by
      simp [UserVkRepository.activated]⟩
  | stateSet _ state =>
    refine ⟨rfl, rfl, rfl, hremoved, id, fun _ hpending => ?_⟩
    exact hstate row.id (congrArg _ (show state = .pending from hpending))
  | softDeleted => exact ⟨rfl, rfl, rfl, hremoved, id, id⟩

theorem UsesUp.becomes {conf conf' : VkConfirmation} (h : UsesUp w conf c r conf') : conf.Becomes conf' := by
  cases h with
  | marked => exact ⟨rfl, rfl, fun _ => by simp [VkConfirmationRepository.used]⟩
  | invalidated => exact ⟨rfl, rfl, fun _ => by simp [VkConfirmationRepository.used]⟩

theorem RewritesDelivery.attempts_le {d d' : VkNotificationDelivery} (h : RewritesDelivery w d c r d') :
    d'.pair = d.pair ∧ d.attempts ≤ d'.attempts := by
  cases h with
  | reclaimed => exact ⟨rfl, Nat.le_succ _⟩
  | markedSent => exact ⟨rfl, le_rfl⟩
  | markedFailed => exact ⟨rfl, le_rfl⟩

/-- The permission events set ACTIVE or BLOCKED. -/
theorem RequestCall.state_ne_pending {settings : VkSettings} {request : Request} {h : CallHistory} {x : UUID}
    {state : BindingState} (hcall : RequestCall settings request h (.userVkSetState x state)) : state ≠ .pending := by
  cases request with
  | block vkPeerId =>
    cases hcall with
    | set hh => simp
  | unblock vkPeerId =>
    cases hcall with
    | set hh => simp
  | _ => cases hcall

end Writes

section Runs
variable {hashtext : String → Int} {settings : VkSettings} {pool : Tid → Request} {T : Tables} {s s₁ : Run}
  {cond : Move Tid World → Run → Prop}

theorem bindings_go_on (x : UUID) (row : UserVk) :
    KeptBy settings pool T cond (userVkCell hashtext x) row.Becomes := by
  refine ⟨fun hreach hcalls hP hw => hP.trans (RewritesUserVk.becomes hw fun y heq => ?_)⟩
  subst heq
  exact hcalls.allowed.state_ne_pending rfl

theorem codes_go_on (y : UUID) (conf : VkConfirmation) :
    KeptBy settings pool T cond (confirmationCell hashtext y) conf.Becomes :=
  ⟨fun _ _ hP hw => hP.trans (UsesUp.becomes hw)⟩

theorem attempts_go_on (pair : UUID × UUID) (n : Nat) :
    KeptBy settings pool T cond (deliveryCell hashtext pair) fun d => d.pair = pair ∧ n ≤ d.attempts :=
  ⟨fun _ _ hP hw => ⟨(RewritesDelivery.attempts_le hw).1.trans hP.1, hP.2.trans (RewritesDelivery.attempts_le hw).2⟩⟩

/-- The committed rows of the ledger. During an attempt the row is PENDING again, but only for
the session that makes it. -/
theorem deliveries_go_on (hT : T.Wf) (hstart : Reaches hashtext cond (launch settings pool (.ofTables T)) s₁)
    (hreach : Reaches hashtext cond s₁ s) {d : VkNotificationDelivery}
    (hd : (s₁.shared.delivery d.pair).committed = some d) :
    ∃ d', (s.shared.delivery d.pair).committed = some d' ∧ d.Becomes d' := by
  obtain ⟨d', hd', hpair, hattempts⟩ := (attempts_go_on d.pair d.attempts).later hT hstart hreach ⟨d, hd, rfl, le_rfl⟩
  refine ⟨d', hd', hpair, hattempts, fun hsettled => ?_, fun hsent => ?_⟩
  · obtain ⟨d'', hd'', hsettled'⟩ := settled_stays hT hstart hreach ⟨d, hd, hsettled⟩
    exact Option.some.inj (hd''.symm.trans hd') ▸ hsettled'
  · exact Option.some.inj (hd'.symm.trans (sent_final hT hstart hreach hd hsent))

/-- The committed journal only grows. -/
theorem journal_grows (hstart : Reaches hashtext cond (launch settings pool (.ofTables T)) s₁)
    (hreach : Reaches hashtext cond s₁ s) : s₁.shared.committed.vkLogs.Sublist s.shared.committed.vkLogs := by
  refine reach_induction (database hashtext)
    (I := fun s => s₁.shared.committed.vkLogs.Sublist s.shared.committed.vkLogs) (List.Sublist.refl _) ?_ ?_ hreach
  · intro s t w c k r next hreach hinv _ _ hexec
    have happ : Appended s.shared.vkLogs := vkLogs_appended (hstart.trans hreach)
    refine hinv.trans ?_
    have hstep := exec_vkLogs hexec
    show (snapshot s.shared.vkLogs).Sublist (snapshot next.vkLogs)
    generalize next.vkLogs = after at hstep
    cases hstep with
    | same => exact .refl _
    | committed =>
      rw [snapshot_commit]
      exact happ.snapshot_sublist_view t
    | rolledBack =>
      rw [snapshot_rollback]
    | logged =>
      rw [snapshot_insert]
  · intro s t c k hreach hinv _ _
    refine hinv.trans ?_
    show (snapshot s.shared.vkLogs).Sublist (snapshot (rollback t s.shared.vkLogs))
    rw [snapshot_rollback]

/-- Between any two states of a run, whatever the interleaving, nothing committed is undone. -/
theorem rows_go_on (hT : T.Wf) (hstart : Reaches hashtext cond (launch settings pool (.ofTables T)) s₁)
    (hreach : Reaches hashtext cond s₁ s) : s₁.shared.committed.Becomes s.shared.committed := by
  have hkeyed₁ := (reaches_sound hT hstart).keyed
  have hkeyed := (reaches_sound hT (hstart.trans hreach)).keyed
  refine ⟨fun row hrow => ?_, fun conf hconf => ?_, journal_grows hstart hreach, fun d hd => ?_⟩
  · have hcell := (committed_userVk hkeyed₁).mp hrow
    obtain ⟨row', hcell', hbecomes⟩ := (bindings_go_on row.id row).later hT hstart hreach
      ⟨row, hcell, rfl, rfl, rfl, fun _ => rfl, id, id⟩
    exact ⟨row', (committed_userVk hkeyed).mpr (hbecomes.id ▸ hcell'), hbecomes⟩
  · have hcell := (committed_confirmation hkeyed₁).mp hconf
    obtain ⟨conf', hcell', hbecomes⟩ := (codes_go_on conf.id conf).later hT hstart hreach ⟨conf, hcell, rfl, rfl, id⟩
    have hid : conf'.id = conf.id := congrArg (·.1) hbecomes.core
    exact ⟨conf', (committed_confirmation hkeyed).mpr (hid ▸ hcell'), hbecomes⟩
  · obtain ⟨d', hcell', hbecomes⟩ := deliveries_go_on hT hstart hreach ((committed_delivery hkeyed₁).mp hd)
    exact ⟨d', (committed_delivery hkeyed).mpr (hbecomes.pair ▸ hcell'), hbecomes⟩

/-- PENDING is the state of the bindings without a peer. -/
def UserVk.StateFits (r : UserVk) : Prop := r.state = .pending ↔ r.vkPeerId = none

theorem states_fit (hT : T.Wf) (hfits : ∀ r ∈ T.userVks, r.StateFits)
    (hreach : Reaches hashtext cond (launch settings pool (.ofTables T)) s) (x : UUID) :
    ∀ row ∈ (s.shared.userVk x).versions, row.StateFits := by
  refine reaches_induction (I := fun s => ∀ row ∈ (s.shared.userVk x).versions, row.StateFits) hT .refl ?_ ?_ ?_ hreach
  · intro row hrow
    have hkeyed := Store.keyed_ofTables hT
    have hcommitted : ((Store.ofTables T).userVk x).committed = some row := by
      rcases Cell.mem_versions.mp hrow with hc | ⟨t, hp⟩
      · exact hc
      · cases (pending_cellOf_ofRows x T.userVks).symm.trans hp
    have hid := id_of_userVk hkeyed hrow
    have hmem := (committed_userVk hkeyed).mpr (hid ▸ hcommitted)
    rw [Store.committed_ofTables] at hmem
    exact hfits row hmem
  · intro s t w c k r next hreach hinv _ hcalls
    refine (exec_userVk hcalls.sound.keyed hcalls.exec x).forall_versions hinv (fun row hnew => ?_)
      fun row row' hrow hfits hw => ?_
    · cases hnew with
      | mk userId => exact iff_of_true rfl rfl
    · cases hw with
      | activated => exact iff_of_false (by simp [UserVkRepository.activated]) (by simp [UserVkRepository.activated])
      | stateSet _ state =>
        obtain ⟨vkPeerId, b, hpool, hid, hhistory⟩ := hcalls.allowed.stateSetting
        -- the event has found this very row by its peer
        obtain ⟨row₀, hcommitted, hlinked⟩ := events_found_linked hT hreach t vkPeerId vkPeerId b hpool
          (hhistory ▸ List.mem_singleton_self _)
        rw [hid, id_of_userVk hcalls.sound.keyed hrow] at hcommitted
        exact iff_of_false hcalls.allowed.state_ne_pending (linked_settles hT hreach x row₀ hcommitted hlinked row hrow)
      | softDeleted => exact hfits
  · intro s t hreach hinv
    exact (rollback_userVk (reaches_sound hT hreach).keyed t x).forall_versions hinv (fun _ h => h.elim)
      fun _ _ _ _ h => h.elim

/-- Whatever the interleaving, what is committed and what each transaction sees satisfies the
schema, and a binding is PENDING exactly when it has no peer. -/
theorem seen_tables_consistent (hashtext : String → Int) (settings : VkSettings) (pool : Tid → Request) (T : Tables)
    (hT : T.Wf) (hfits : ∀ r ∈ T.userVks, r.StateFits) (s : Run)
    (hreach : Reaches hashtext anyMove (launch settings pool (.ofTables T)) s) :
    (s.shared.committed.Wf ∧ ∀ r ∈ s.shared.committed.userVks, r.StateFits) ∧
      ∀ t, (s.shared.view t).Wf ∧ ∀ r ∈ (s.shared.view t).userVks, r.StateFits := by
  have hlawful := reaches_lawful hT hreach
  have hkeyed := hlawful.keyed
  refine ⟨⟨hlawful.committed_wf, fun r hr => ?_⟩, fun t => ⟨hlawful.view_wf t, fun r hr => ?_⟩⟩
  · exact states_fit hT hfits hreach r.id r (Cell.committed_mem ((committed_userVk hkeyed).mp hr))
  · exact states_fit hT hfits hreach r.id r (Cell.read_mem_versions ((mem_view_iff hkeyed.userVks).mp hr))

end Runs

section Example

/-- A session issues a code; after its commit another one confirms it. -/
private def issuedFirst : Option Run :=
  (database fun _ => 0).runMoves (List.replicate 10 (.step 0 (.still 0)))
    (launch .least issuedThenConfirmed (.ofTables .empty))

private theorem issuedFirst_isSome : issuedFirst.isSome = true := by decide +kernel

private def linkedThen : Option Run :=
  (database fun _ => 0).runMoves (List.replicate 10 (.step 1 (.still 0))) (issuedFirst.get issuedFirst_isSome)

private theorem linkedThen_isSome : linkedThen.isSome = true := by decide +kernel

private theorem issuedFirst_reached : Reaches (fun _ => 0) anyMove
    (launch .least issuedThenConfirmed (.ofTables .empty)) (issuedFirst.get issuedFirst_isSome) :=
  reach_of_runMoves _ (Option.some_get issuedFirst_isSome).symm

private theorem linkedThen_reached : Reaches (fun _ => 0) anyMove (issuedFirst.get issuedFirst_isSome)
    (linkedThen.get linkedThen_isSome) :=
  reach_of_runMoves _ (Option.some_get linkedThen_isSome).symm

/-- The pending row goes on to the linked one. -/
theorem rows_go_on_linked :
    (issuedFirst.get issuedFirst_isSome).shared.committed.Becomes (linkedThen.get linkedThen_isSome).shared.committed :=
  rows_go_on Tables.empty_wf issuedFirst_reached linkedThen_reached

/-- The confirmation has activated the binding and not committed it yet. -/
private def linkingNow : Option Run :=
  (database fun _ => 0).runMoves (List.replicate 7 (.step 1 (.still 0))) (issuedFirst.get issuedFirst_isSome)

private theorem linkingNow_isSome : linkingNow.isSome = true := by decide +kernel

/-- The session that links sees its own version, any other one the committed row; both fit. -/
theorem seen_tables_consistent_linked :
    ((linkingNow.get linkingNow_isSome).shared.view 1).userVks.map (·.vkPeerId) = [some 5] ∧
      ((linkingNow.get linkingNow_isSome).shared.view 2).userVks.map (·.vkPeerId) = [none] ∧
      ∀ t, ((linkingNow.get linkingNow_isSome).shared.view t).Wf ∧
        ∀ r ∈ ((linkingNow.get linkingNow_isSome).shared.view t).userVks, r.StateFits :=
  ⟨by decide +kernel, by decide +kernel, (seen_tables_consistent (fun _ => 0) .least issuedThenConfirmed .empty Tables.empty_wf
    (fun r hr => by cases hr) _ (issuedFirst_reached.trans (reach_of_runMoves _ (Option.some_get linkingNow_isSome).symm))).2⟩

end Example
end VkService
