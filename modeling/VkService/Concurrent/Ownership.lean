import VkService.Concurrent.Steps
import VkService.Domain.Schema
import VkService.Promises.Requests

/-! What holds of the store in every run: each row has its own cell, and a version that is
not committed yet was written by a call of the transaction that holds it. -/
namespace VkService
open PyStr Effects Effects.Prog Machine RowStore UserVkRepository VkConfirmationRepository
  VkNotificationDeliveryRepository

/-- The columns of a code that no statement changes. -/
def VkConfirmation.core (c : VkConfirmation) : UUID × UUID × Str × Time := (c.id, c.userVkId, c.code, c.expiresAt)

/-- The columns of a binding that no statement changes. -/
def UserVk.core (r : UserVk) : UUID × UUID × Time := (r.id, r.userId, r.createdAt)

def VkNotificationDelivery.pair (d : VkNotificationDelivery) : UUID × UUID := (d.eventUuid, d.userId)

/-- The store as functions from keys to cells. -/
structure Store.Keyed (s : Store) : Prop where
  userVks : RowStore.Keyed UserVk.id s.userVks
  userVkCores : RowStore.Keyed UserVk.core s.userVks
  vkConfirmations : RowStore.Keyed VkConfirmation.id s.vkConfirmations
  codes : RowStore.Keyed VkConfirmation.code s.vkConfirmations
  confirmationCores : RowStore.Keyed VkConfirmation.core s.vkConfirmations
  deliveries : RowStore.Keyed VkNotificationDelivery.pair s.vkNotificationDeliveries

namespace Store

/-- The binding, the code and the ledger row of a key. -/
def userVk (s : Store) (recordId : UUID) : Cell Tid UserVk := cellOf UserVk.id recordId s.userVks

def confirmation (s : Store) (confirmationId : UUID) : Cell Tid VkConfirmation :=
  cellOf VkConfirmation.id confirmationId s.vkConfirmations

def delivery (s : Store) (pair : UUID × UUID) : Cell Tid VkNotificationDelivery :=
  cellOf VkNotificationDelivery.pair pair s.vkNotificationDeliveries

end Store

section Keys
variable {hashtext : String → Int} {t : Tid} {w : World} {c : Call} {s s' : Store} {r : Except Exn c.Reply} {T : Tables}

theorem Store.keyed_ofTables (hT : T.Wf) : (Store.ofTables T).Keyed where
  userVks := keyed_ofRows hT.userVkIds
  userVkCores := keyed_ofRows (List.Nodup.of_map Prod.fst (by simpa [UserVk.core, Function.comp_def] using hT.userVkIds))
  vkConfirmations := keyed_ofRows hT.confirmationIds
  codes := keyed_ofRows hT.codes
  confirmationCores := keyed_ofRows
    (List.Nodup.of_map Prod.fst (by simpa [VkConfirmation.core, Function.comp_def] using hT.confirmationIds))
  deliveries := keyed_ofRows hT.deliveryKeys

theorem newId_userVk (w : World) (s : Store) : ∀ r ∈ versions s.userVks, r.id ≠ (s.newIds w).userVk := by
  intro r hr heq
  exact w.newId_fresh _ (heq ▸ List.mem_map_of_mem (f := fun r : UserVk => r.id) hr)

theorem newId_vkConfirmation (w : World) (s : Store) :
    ∀ r ∈ versions s.vkConfirmations, r.id ≠ (s.newIds w).vkConfirmation := by
  intro r hr heq
  exact w.newId_fresh _ (heq ▸ List.mem_map_of_mem (f := fun r : VkConfirmation => r.id) hr)

theorem UserVksStep.keyed {h : Heap Tid UserVk} (hs : s.Keyed) (hstep : UserVksStep t w s c r h) :
    RowStore.Keyed UserVk.id h ∧ RowStore.Keyed UserVk.core h := by
  cases hstep with
  | same => exact ⟨hs.userVks, hs.userVkCores⟩
  | committed => exact ⟨hs.userVks.commit, hs.userVkCores.commit⟩
  | rolledBack => exact ⟨hs.userVks.rollback, hs.userVkCores.rollback⟩
  | created =>
    have hnew := newId_userVk w s
    exact ⟨hs.userVks.insert hnew, hs.userVkCores.insert fun r hr heq => hnew r hr (congrArg Prod.fst heq)⟩
  | activated => exact ⟨hs.userVks.update fun _ => rfl, hs.userVkCores.update fun _ => rfl⟩
  | stateSet => exact ⟨hs.userVks.update fun _ => rfl, hs.userVkCores.update fun _ => rfl⟩
  | softDeleted => exact ⟨hs.userVks.update fun _ => rfl, hs.userVkCores.update fun _ => rfl⟩

theorem VkConfirmationsStep.keyed {h : Heap Tid VkConfirmation} (hs : s.Keyed)
    (hstep : VkConfirmationsStep t w s c r h) :
    RowStore.Keyed VkConfirmation.id h ∧ RowStore.Keyed VkConfirmation.code h ∧
      RowStore.Keyed VkConfirmation.core h := by
  cases hstep with
  | same => exact ⟨hs.vkConfirmations, hs.codes, hs.confirmationCores⟩
  | committed => exact ⟨hs.vkConfirmations.commit, hs.codes.commit, hs.confirmationCores.commit⟩
  | rolledBack => exact ⟨hs.vkConfirmations.rollback, hs.codes.rollback, hs.confirmationCores.rollback⟩
  | @codeCreated _ code _ hready hview _ =>
    have hnew := newId_vkConfirmation w s
    have hcode := hs.codes.absent (p := (·.code == code)) (fun r r' heq => by simp [heq]) hready hview
    exact ⟨hs.vkConfirmations.insert hnew, hs.codes.insert fun r hr heq => by simpa [heq] using hcode r hr,
      hs.confirmationCores.insert fun r hr heq => hnew r hr (congrArg Prod.fst heq)⟩
  | markedUsed =>
    exact ⟨hs.vkConfirmations.update fun _ => rfl, hs.codes.update fun _ => rfl, hs.confirmationCores.update fun _ => rfl⟩
  | invalidated =>
    exact ⟨hs.vkConfirmations.update fun _ => rfl, hs.codes.update fun _ => rfl, hs.confirmationCores.update fun _ => rfl⟩

theorem DeliveriesStep.keyed {h : Heap Tid VkNotificationDelivery} (hs : s.Keyed) (hstep : DeliveriesStep t w s c r h) :
    RowStore.Keyed VkNotificationDelivery.pair h := by
  cases hstep with
  | same => exact hs.deliveries
  | committed => exact hs.deliveries.commit
  | rolledBack => exact hs.deliveries.rollback
  | @claimed event user peer hready hnew =>
    have hview : (view t s.vkNotificationDeliveries).any (keyed event user) = false := by
      rw [List.any_eq_false]
      intro d hd hkeyed
      exact List.filter_eq_nil_iff.mp hnew d hd hkeyed
    have habsent := hs.deliveries.absent (p := keyed event user)
      (fun d d' heq => by simp [keyed, (Prod.mk.inj heq).1, (Prod.mk.inj heq).2]) hready hview
    refine hs.deliveries.insert fun d hd heq => ?_
    have hnot := habsent d hd
    simp [keyed, (Prod.mk.inj heq).1, (Prod.mk.inj heq).2] at hnot
  | reclaimed => exact hs.deliveries.update fun _ => rfl
  | markedSent => exact hs.deliveries.update fun _ => rfl
  | markedFailed => exact hs.deliveries.update fun _ => rfl

/-- Every step keeps one cell for each key. -/
theorem Store.Keyed.exec (hs : s.Keyed) (h : (database hashtext).exec t w c s = some (r, s')) : s'.Keyed where
  userVks := ((exec_userVks h).keyed hs).1
  userVkCores := ((exec_userVks h).keyed hs).2
  vkConfirmations := ((exec_vkConfirmations h).keyed hs).1
  codes := ((exec_vkConfirmations h).keyed hs).2.1
  confirmationCores := ((exec_vkConfirmations h).keyed hs).2.2
  deliveries := (exec_deliveries h).keyed hs

theorem Store.Keyed.rollback (hs : s.Keyed) : (s.rollback t).Keyed where
  userVks := hs.userVks.rollback
  userVkCores := hs.userVkCores.rollback
  vkConfirmations := hs.vkConfirmations.rollback
  codes := hs.codes.rollback
  confirmationCores := hs.confirmationCores.rollback
  deliveries := hs.deliveries.rollback

end Keys
/-! ### Owners of uncommitted versions -/

/-- The call has written this version of a binding, up to what it wrote. -/
inductive WritesUserVk (r : UserVk) : CallEvent → Prop
  | created (row : UserVk) (hid : row.id = r.id) : WritesUserVk r ⟨.userVkCreate r.userId, .ok row⟩
  | activated (vkPeerId : PeerId) (sn dn : Option String) (row : UserVk) :
      WritesUserVk r ⟨.userVkActivate r.id vkPeerId sn dn, .ok row⟩
  | stateSet (state : BindingState) (reply : Except Exn (Option UserVk)) :
      WritesUserVk r ⟨.userVkSetState r.id state, reply⟩
  | softDeleted (reply : Except Exn Bool) : WritesUserVk r ⟨.userVkSoftDelete r.userId, reply⟩

inductive WritesConfirmation (c : VkConfirmation) : CallEvent → Prop
  | created (row : VkConfirmation) (hid : row.id = c.id) :
      WritesConfirmation c ⟨.confirmationCreate c.userVkId c.code c.expiresAt, .ok row⟩
  | used : WritesConfirmation c ⟨.confirmationMarkUsed c.id, .ok ()⟩
  | invalidated (n : Nat) : WritesConfirmation c ⟨.confirmationInvalidatePrevious c.userVkId, .ok n⟩

inductive WritesDelivery (d : VkNotificationDelivery) : CallEvent → Prop
  | claimed (vkPeerId : PeerId) (row : VkNotificationDelivery) :
      WritesDelivery d ⟨.claimAttempt d.eventUuid d.userId vkPeerId, .ok (some row)⟩
  | marked {c : Call} (hc : MarksOf d.eventUuid d.userId c) (reply : Except Exn c.Reply) : WritesDelivery d ⟨c, reply⟩

/-- Every uncommitted version has been written by its holder. -/
structure Owned {α : Type} (s : Sys Call Call.Reply Exn α Tid Store) : Prop where
  userVks : ∀ t r, Held t r s.shared.userVks → ∃ e ∈ s.history t, WritesUserVk r e
  vkConfirmations : ∀ t c, Held t c s.shared.vkConfirmations → ∃ e ∈ s.history t, WritesConfirmation c e
  deliveries : ∀ t d, Held t d s.shared.vkNotificationDeliveries → ∃ e ∈ s.history t, WritesDelivery d e

section Owners
variable {hashtext : String → Int} {t t' : Tid} {w : World} {c : Call} {s s' : Store} {r : Except Exn c.Reply}

theorem UserVksStep.held {h : Heap Tid UserVk} (hstep : UserVksStep t w s c r h) {row : UserVk}
    (hheld : Held t' row h) : Held t' row s.userVks ∨ t' = t ∧ WritesUserVk row ⟨c, r⟩ := by
  cases hstep with
  | same => exact .inl hheld
  | committed => exact .inl hheld.of_commit.1
  | rolledBack => exact .inl hheld.of_rollback.1
  | created =>
    rcases hheld.of_insert with hold | ⟨rfl, rfl⟩
    · exact .inl hold
    · exact .inr ⟨rfl, .created _ rfl⟩
  | activated =>
    rcases hheld.of_update with hold | ⟨rfl, row₀, -, hp, rfl⟩
    · exact .inl hold
    · simp only [liveWithId, Bool.and_eq_true, beq_iff_eq] at hp
      obtain ⟨rfl, -⟩ := hp
      exact .inr ⟨rfl, .activated _ _ _ _⟩
  | stateSet =>
    rcases hheld.of_update with hold | ⟨rfl, row₀, -, hp, rfl⟩
    · exact .inl hold
    · simp only [liveWithId, Bool.and_eq_true, beq_iff_eq] at hp
      obtain ⟨rfl, -⟩ := hp
      exact .inr ⟨rfl, .stateSet _ _⟩
  | softDeleted =>
    rcases hheld.of_update with hold | ⟨rfl, row₀, -, hp, rfl⟩
    · exact .inl hold
    · simp only [liveOfUser, Bool.and_eq_true, beq_iff_eq] at hp
      obtain ⟨rfl, -⟩ := hp
      exact .inr ⟨rfl, .softDeleted _⟩

theorem VkConfirmationsStep.held {h : Heap Tid VkConfirmation} (hstep : VkConfirmationsStep t w s c r h)
    {row : VkConfirmation} (hheld : Held t' row h) :
    Held t' row s.vkConfirmations ∨ t' = t ∧ WritesConfirmation row ⟨c, r⟩ := by
  cases hstep with
  | same => exact .inl hheld
  | committed => exact .inl hheld.of_commit.1
  | rolledBack => exact .inl hheld.of_rollback.1
  | codeCreated =>
    rcases hheld.of_insert with hold | ⟨rfl, rfl⟩
    · exact .inl hold
    · exact .inr ⟨rfl, .created _ rfl⟩
  | markedUsed =>
    rcases hheld.of_update with hold | ⟨rfl, row₀, -, hp, rfl⟩
    · exact .inl hold
    · obtain rfl : row₀.id = _ := by simpa using hp
      exact .inr ⟨rfl, .used⟩
  | invalidated =>
    rcases hheld.of_update with hold | ⟨rfl, row₀, -, hp, rfl⟩
    · exact .inl hold
    · simp only [unusedOf, Bool.and_eq_true, beq_iff_eq] at hp
      obtain ⟨rfl, -⟩ := hp
      exact .inr ⟨rfl, .invalidated _⟩

theorem DeliveriesStep.held {h : Heap Tid VkNotificationDelivery} (hstep : DeliveriesStep t w s c r h)
    {row : VkNotificationDelivery} (hheld : Held t' row h) :
    Held t' row s.vkNotificationDeliveries ∨ t' = t ∧ WritesDelivery row ⟨c, r⟩ := by
  cases hstep with
  | same => exact .inl hheld
  | committed => exact .inl hheld.of_commit.1
  | rolledBack => exact .inl hheld.of_rollback.1
  | claimed =>
    rcases hheld.of_insert with hold | ⟨rfl, rfl⟩
    · exact .inl hold
    · exact .inr ⟨rfl, .claimed _ _⟩
  | reclaimed =>
    rcases hheld.of_update with hold | ⟨rfl, row₀, -, hp, rfl⟩
    · exact .inl hold
    · simp only [VkNotificationDeliveryRepository.keyed, Bool.and_eq_true, beq_iff_eq] at hp
      obtain ⟨rfl, rfl⟩ := hp
      exact .inr ⟨rfl, .claimed _ _⟩
  | markedSent =>
    rcases hheld.of_update with hold | ⟨rfl, row₀, -, hp, rfl⟩
    · exact .inl hold
    · simp only [VkNotificationDeliveryRepository.keyed, Bool.and_eq_true, beq_iff_eq] at hp
      obtain ⟨rfl, rfl⟩ := hp
      exact .inr ⟨rfl, .marked (.inl rfl) _⟩
  | markedFailed =>
    rcases hheld.of_update with hold | ⟨rfl, row₀, -, hp, rfl⟩
    · exact .inl hold
    · simp only [VkNotificationDeliveryRepository.keyed, Bool.and_eq_true, beq_iff_eq] at hp
      obtain ⟨rfl, rfl⟩ := hp
      exact .inr ⟨rfl, .marked (.inr ⟨_, rfl⟩) _⟩

end Owners

theorem not_held_ofRows {ρ : Type} {rows : List ρ} {t : Tid} {r : ρ} : ¬ Held t r (ofRows rows) := by
  rintro ⟨c, hc, hpending⟩
  obtain ⟨r₀, -, rfl⟩ := List.mem_map.mp hc
  cases hpending

section Sound
variable {α : Type} {hashtext : String → Int} {programs : Tid → Py α} {T : Tables}
  {s : Sys Call Call.Reply Exn α Tid Store} {cond : Move Tid World → Sys Call Call.Reply Exn α Tid Store → Prop}

/-- What holds in every run, whatever the programs do. -/
structure Sound (s : Sys Call Call.Reply Exn α Tid Store) : Prop where
  keyed : s.shared.Keyed
  owned : Owned s

theorem Sound.advance (hs : Sound s) {t : Tid} {w : World} {c : Call} {k : Except Exn c.Reply → Py α}
    {r : Except Exn c.Reply} {next : Store} (hexec : (database hashtext).exec t w c s.shared = some (r, next)) :
    Sound (s.advance t c k r next) := by
  have hnew : (⟨c, r⟩ : CallEvent) ∈ (s.advance t c k r next).history t := by
    rw [Sys.history_advance_self]
    exact List.mem_cons_self
  refine ⟨hs.keyed.exec hexec, ⟨fun t' row hheld => ?_, fun t' row hheld => ?_, fun t' row hheld => ?_⟩⟩
  · rcases (exec_userVks hexec).held hheld with hold | ⟨rfl, hwrites⟩
    · obtain ⟨e, he, hwrites⟩ := hs.owned.userVks t' row hold
      exact ⟨e, s.mem_history_advance t c k r next he, hwrites⟩
    · exact ⟨_, hnew, hwrites⟩
  · rcases (exec_vkConfirmations hexec).held hheld with hold | ⟨rfl, hwrites⟩
    · obtain ⟨e, he, hwrites⟩ := hs.owned.vkConfirmations t' row hold
      exact ⟨e, s.mem_history_advance t c k r next he, hwrites⟩
    · exact ⟨_, hnew, hwrites⟩
  · rcases (exec_deliveries hexec).held hheld with hold | ⟨rfl, hwrites⟩
    · obtain ⟨e, he, hwrites⟩ := hs.owned.deliveries t' row hold
      exact ⟨e, s.mem_history_advance t c k r next he, hwrites⟩
    · exact ⟨_, hnew, hwrites⟩

theorem Sound.drop (hs : Sound s) (t : Tid) : Sound (s.drop t (s.shared.rollback t)) :=
  ⟨hs.keyed.rollback, ⟨fun t' row hheld => hs.owned.userVks t' row hheld.of_rollback.1,
    fun t' row hheld => hs.owned.vkConfirmations t' row hheld.of_rollback.1,
    fun t' row hheld => hs.owned.deliveries t' row hheld.of_rollback.1⟩⟩

theorem sound_start (hT : T.Wf) : Sound (Sys.start programs (Store.ofTables T)) :=
  ⟨Store.keyed_ofTables hT, ⟨fun _ _ hheld => absurd hheld not_held_ofRows,
    fun _ _ hheld => absurd hheld not_held_ofRows, fun _ _ hheld => absurd hheld not_held_ofRows⟩⟩

theorem sound_reach (hT : T.Wf) (hreach : (database hashtext).Reach cond (Sys.start programs (Store.ofTables T)) s) :
    Sound s :=
  reach_induction (database hashtext) (sound_start hT) (fun _ _ _ _ _ _ _ _ hs _ _ hexec => hs.advance hexec)
    (fun _ t _ _ _ hs _ _ => hs.drop t) hreach

end Sound

section Runs
variable {hashtext : String → Int} {settings : VkSettings} {pool : Tid → Request} {T : Tables} {s : Run}
  {cond : Move Tid World → Run → Prop}

/-- Every thread keeps to the order of calls of its request. -/
abbrev Orderly (settings : VkSettings) (pool : Tid → Request) : Run → Prop :=
  Conforming (fun t => RequestCall settings (pool t)) fun t => RequestEnd settings (pool t)

/-- Every thread of a run keeps to its order of calls, and to any other promise of its program. -/
theorem reaches_conforming {P : Tid → CallHistory → Call → Prop} {Q : Tid → CallHistory → Except Exn Answer → Prop}
    (hpool : ∀ t, Conforms (P t) (Q t) [] ((pool t).prog settings))
    (hreach : Reaches hashtext cond (launch settings pool (.ofTables T)) s) : Conforming P Q s :=
  conforming_reach (database hashtext) (conforming_start hpool) hreach

theorem reaches_orderly (hreach : Reaches hashtext cond (launch settings pool (.ofTables T)) s) :
    Orderly settings pool s :=
  reaches_conforming (fun t => request_conforms settings (pool t)) hreach

theorem reaches_sound (hT : T.Wf) (hreach : Reaches hashtext cond (launch settings pool (.ofTables T)) s) : Sound s :=
  sound_reach hT hreach

/-- One call of a thread in a run. -/
structure Calls (hashtext : String → Int) (settings : VkSettings) (pool : Tid → Request) (s : Run) (t : Tid) (w : World)
    (c : Call) (r : Except Exn c.Reply) (next : Store) : Prop where
  orderly : Orderly settings pool s
  sound : Sound s
  running : ∃ k, s.prog t = some (.call c k)
  allowed : RequestCall settings (pool t) (s.history t) c
  exec : (database hashtext).exec t w c s.shared = some (r, next)

/-- The invariant rule of the service, from any state reached. A step may be argued from the
order of the thread's calls, from what holds of every store and from what is known of the
states reached. -/
theorem reaches_induction {I : Run → Prop} {s₁ : Run} (hT : T.Wf)
    (hstart : Reaches hashtext cond (launch settings pool (.ofTables T)) s₁) (h0 : I s₁)
    (hstep : ∀ s t w c k r next, Reaches hashtext cond (launch settings pool (.ofTables T)) s → I s →
      cond (.step t w) s → Calls hashtext settings pool s t w c r next → I (s.advance t c k r next))
    (hkill : ∀ s t, Reaches hashtext cond (launch settings pool (.ofTables T)) s → I s →
      I (s.drop t (s.shared.rollback t)))
    (hreach : Reaches hashtext cond s₁ s) : I s := by
  refine reach_induction (database hashtext) h0 ?_ ?_ hreach
  · intro s t w c k r next hreach hinv hcond hp hexec
    have horderly := reaches_orderly (hstart.trans hreach)
    exact hstep s t w c k r next (hstart.trans hreach) hinv hcond
      ⟨horderly, reaches_sound hT (hstart.trans hreach), ⟨k, hp⟩, (horderly.rest t _ hp).1, hexec⟩
  · intro s t c k hreach hinv _ _
    exact hkill s t (hstart.trans hreach) hinv

/-- A call made on a run is one that its program allows. -/
theorem made_calls (hT : T.Wf) {e : CallEvent}
    (hmade : (database hashtext).MakesAt cond (launch settings pool (.ofTables T)) s t e s₁) :
    ∃ w next, cond (.step t w) s₁ ∧ Calls hashtext settings pool s₁ t w e.op e.reply next := by
  obtain ⟨hreach, w, k, next, hcond, hp, hexec, -⟩ := hmade
  have horderly := reaches_orderly hreach
  exact ⟨w, next, hcond, horderly, reaches_sound hT hreach, ⟨k, hp⟩, (horderly.rest t _ hp).1, hexec⟩

end Runs
end VkService
