import Mathlib.Data.List.Nodup
import Mathlib.Data.List.Pairwise
import VkService.Domain.Services

/-! What the primary keys, unique indexes and the foreign key promise, and the lookups
that are single-valued because of them. -/
namespace VkService
open PyStr

/-- The constraints of the schema. -/
structure Tables.Wf (T : Tables) : Prop where
  userVkIds : (T.userVks.map (·.id)).Nodup
  noClash : T.userVks.Pairwise fun a b => a.clashes b = false
  confirmationIds : (T.vkConfirmations.map (·.id)).Nodup
  codes : (T.vkConfirmations.map (·.code)).Nodup
  foreignKey : ∀ c ∈ T.vkConfirmations, ∃ r ∈ T.userVks, r.id = c.userVkId
  deliveryKeys : (T.vkNotificationDeliveries.map fun d => (d.eventUuid, d.userId)).Nodup

/-- The live row that holds a peer. -/
def peerRow (T : Tables) (vkPeerId : PeerId) : Option UserVk :=
  T.userVks.find? fun r => r.vkPeerId == some vkPeerId && r.live

/-- The live row of a user. -/
def userRow (T : Tables) (userId : UUID) : Option UserVk :=
  T.userVks.find? (UserVkRepository.liveOfUser userId)

def bindingRow (T : Tables) (recordId : UUID) : Option UserVk :=
  T.userVks.find? fun r => r.id == recordId

def codeRow (T : Tables) (code : Str) : Option VkConfirmation :=
  T.vkConfirmations.find? fun c => c.code == code

def deliveryRow (T : Tables) (eventUuid userId : UUID) : Option VkNotificationDelivery :=
  T.vkNotificationDeliveries.find? (VkNotificationDeliveryRepository.keyed eventUuid userId)

theorem Tables.empty_wf : Tables.empty.Wf := by
  constructor <;> simp [Tables.empty]

section Lookup
variable {ρ κ : Type}

theorem filter_of_unique {p : ρ → Bool} {rows : List ρ}
    (h : rows.Pairwise fun a b => ¬ (p a = true ∧ p b = true)) :
    rows.filter p = (rows.find? p).toList := by
  induction rows with
  | nil => rfl
  | cons r rows ih =>
    rw [List.pairwise_cons] at h
    cases hr : p r with
    | false => simp [hr, ih h.2]
    | true =>
      have hnone : rows.filter p = [] := by
        rw [List.filter_eq_nil_iff]
        intro b hb hpb
        exact h.1 b hb ⟨hr, hpb⟩
      simp [hr, hnone]

theorem oneOrNone_filter {p : ρ → Bool} {rows : List ρ}
    (h : rows.Pairwise fun a b => ¬ (p a = true ∧ p b = true)) :
    oneOrNone (rows.filter p) = .ok (rows.find? p) := by
  rw [filter_of_unique h]
  cases rows.find? p <;> rfl

theorem one_filter {p : ρ → Bool} {rows : List ρ}
    (h : rows.Pairwise fun a b => ¬ (p a = true ∧ p b = true)) :
    one (rows.filter p) = (rows.find? p).elim (.error .noResultFound) .ok := by
  rw [filter_of_unique h]
  cases rows.find? p <;> rfl

theorem find?_of_unique {p : ρ → Bool} {rows : List ρ}
    (h : rows.Pairwise fun a b => ¬ (p a = true ∧ p b = true)) {r : ρ} (hr : r ∈ rows) (hp : p r = true) :
    rows.find? p = some r := by
  induction rows with
  | nil => cases hr
  | cons a rows ih =>
    rw [List.pairwise_cons] at h
    rcases List.mem_cons.mp hr with rfl | hr
    · simp [hp]
    · have hne : p a = false := by
        by_contra ha
        exact h.1 r hr ⟨by simpa using ha, hp⟩
      simp [hne, ih h.2 hr]

/-- A condition that fixes a key without duplicates holds of one row at most. -/
theorem pairwise_of_key {rows : List ρ} {key : ρ → κ} (h : (rows.map key).Nodup) {p : ρ → Bool} {k : κ}
    (hp : ∀ r, p r = true → key r = k) : rows.Pairwise fun a b => ¬ (p a = true ∧ p b = true) := by
  rw [List.Nodup, List.pairwise_map] at h
  exact h.imp fun hab ⟨ha, hb⟩ => hab ((hp _ ha).trans (hp _ hb).symm)

theorem eq_of_key {rows : List ρ} {key : ρ → κ} (h : (rows.map key).Nodup) {a b : ρ}
    (ha : a ∈ rows) (hb : b ∈ rows) (hk : key a = key b) : a = b :=
  List.inj_on_of_nodup_map h ha hb hk

end Lookup

namespace Tables.Wf
open UserVkRepository VkConfirmationRepository VkNotificationDeliveryRepository
variable {T : Tables} (h : T.Wf)
include h

theorem pairwise_user (userId : UUID) :
    T.userVks.Pairwise fun a b => ¬ (liveOfUser userId a = true ∧ liveOfUser userId b = true) := by
  refine h.noClash.imp fun hab ⟨ha, hb⟩ => ?_
  simp only [liveOfUser, Bool.and_eq_true, beq_iff_eq] at ha hb
  simp [UserVk.clashes, ha, hb] at hab

theorem pairwise_peer (vkPeerId : PeerId) :
    T.userVks.Pairwise fun a b => ¬ ((a.vkPeerId == some vkPeerId && a.live) = true ∧
      (b.vkPeerId == some vkPeerId && b.live) = true) := by
  refine h.noClash.imp fun hab ⟨ha, hb⟩ => ?_
  simp only [Bool.and_eq_true, beq_iff_eq] at ha hb
  simp [UserVk.clashes, ha, hb] at hab

theorem pairwise_id (recordId : UUID) :
    T.userVks.Pairwise fun a b => ¬ ((a.id == recordId) = true ∧ (b.id == recordId) = true) :=
  pairwise_of_key h.userVkIds (k := recordId) fun _ hp => by simpa using hp

theorem pairwise_liveWithId (recordId : UUID) :
    T.userVks.Pairwise fun a b => ¬ (liveWithId recordId a = true ∧ liveWithId recordId b = true) := by
  refine pairwise_of_key h.userVkIds (p := liveWithId recordId) (k := recordId) fun _ hp => ?_
  simp only [liveWithId, Bool.and_eq_true, beq_iff_eq] at hp
  exact hp.1

theorem pairwise_code (code : Str) :
    T.vkConfirmations.Pairwise fun a b => ¬ ((a.code == code) = true ∧ (b.code == code) = true) :=
  pairwise_of_key h.codes (k := code) fun _ hp => by simpa using hp

theorem pairwise_delivery (eventUuid userId : UUID) :
    T.vkNotificationDeliveries.Pairwise fun a b =>
      ¬ (keyed eventUuid userId a = true ∧ keyed eventUuid userId b = true) :=
  pairwise_of_key h.deliveryKeys (k := (eventUuid, userId)) fun _ hp => by simpa [keyed] using hp

theorem getById_eq (recordId : UUID) : getById T recordId = .ok (bindingRow T recordId) :=
  oneOrNone_filter (h.pairwise_id recordId)

theorem getByUserId_eq (userId : UUID) : getByUserId T userId = .ok (userRow T userId) :=
  oneOrNone_filter (h.pairwise_user userId)

theorem getByPeerId_eq (vkPeerId : PeerId) : getByPeerId T vkPeerId = .ok (peerRow T vkPeerId) :=
  oneOrNone_filter (h.pairwise_peer vkPeerId)

theorem getByCode_eq (code : Str) : getByCode T code = .ok (codeRow T code) :=
  oneOrNone_filter (h.pairwise_code code)

theorem one_liveWithId (recordId : UUID) :
    one (T.userVks.filter (liveWithId recordId)) =
      (T.userVks.find? (liveWithId recordId)).elim (.error .noResultFound) .ok :=
  one_filter (h.pairwise_liveWithId recordId)

theorem find_delivery_eq (eventUuid userId : UUID) :
    oneOrNone (T.vkNotificationDeliveries.filter (keyed eventUuid userId)) =
      .ok (deliveryRow T eventUuid userId) :=
  oneOrNone_filter (h.pairwise_delivery eventUuid userId)

/-- Rows that the unique indexes exclude from each other are the same row. -/
theorem eq_of_clashes {a b : UserVk} (ha : a ∈ T.userVks) (hb : b ∈ T.userVks)
    (hab : a.clashes b = true) : a = b := by
  by_contra hne
  have : Std.Symm fun a b : UserVk => a.clashes b = false :=
    ⟨fun a b h => (UserVk.clashes_comm b a).trans h⟩
  have := h.noClash.forall ha hb hne
  simp [hab] at this

section Rows
variable {r : UserVk} (hr : r ∈ T.userVks)
include hr

theorem bindingRow_of_mem : bindingRow T r.id = some r :=
  find?_of_unique (h.pairwise_id r.id) hr (by simp)

theorem find?_liveWithId (hlive : r.live = true) : T.userVks.find? (liveWithId r.id) = some r :=
  find?_of_unique (h.pairwise_liveWithId r.id) hr (by simp [liveWithId, hlive])

theorem userRow_of_mem (hlive : r.live = true) : userRow T r.userId = some r :=
  find?_of_unique (h.pairwise_user r.userId) hr (by simp [liveOfUser, hlive])

theorem peerRow_of_mem (hlive : r.live = true) {vkPeerId : PeerId} (hpeer : r.vkPeerId = some vkPeerId) :
    peerRow T vkPeerId = some r :=
  find?_of_unique (h.pairwise_peer vkPeerId) hr (by simp [hlive, hpeer])

/-- Linking a live row to a peer that no other row holds collides with nothing. -/
theorem not_occupied {w : World} {vkPeerId : PeerId} {screenName displayName : Option String}
    (hlive : r.live = true) (hpeer : ∀ q, peerRow T vkPeerId = some q → q.id = r.id) :
    occupied T.userVks (activated w vkPeerId screenName displayName r) = false := by
  rw [occupied, List.any_eq_false]
  intro r' hr' hbad
  simp only [Bool.and_eq_true, bne_iff_ne, ne_eq, UserVk.clashes, Bool.or_eq_true, beq_iff_eq] at hbad
  obtain ⟨hid, ⟨-, hlive'⟩, huser | ⟨-, hp⟩⟩ := hbad
  · have huser : r.userId = r'.userId := huser
    have hab : r.clashes r' = true := by simp [UserVk.clashes, hlive, hlive', huser]
    exact hid (congrArg UserVk.id (h.eq_of_clashes hr hr' hab)).symm
  · exact hid (hpeer r' (h.peerRow_of_mem hr' hlive' hp.symm))

end Rows

theorem codeRow_of_mem {c : VkConfirmation} (hc : c ∈ T.vkConfirmations) : codeRow T c.code = some c :=
  find?_of_unique (h.pairwise_code c.code) hc (by simp)

end Tables.Wf

section Found
variable {T : Tables}

theorem bindingRow_some {recordId : UUID} {r : UserVk} (h : bindingRow T recordId = some r) :
    r ∈ T.userVks ∧ r.id = recordId :=
  ⟨List.mem_of_find?_eq_some h, by simpa using List.find?_some h⟩

theorem userRow_some {userId : UUID} {r : UserVk} (h : userRow T userId = some r) :
    r ∈ T.userVks ∧ r.userId = userId ∧ r.live = true := by
  have := List.find?_some h
  simp only [UserVkRepository.liveOfUser, Bool.and_eq_true, beq_iff_eq] at this
  exact ⟨List.mem_of_find?_eq_some h, this⟩

theorem peerRow_some {vkPeerId : PeerId} {r : UserVk} (h : peerRow T vkPeerId = some r) :
    r ∈ T.userVks ∧ r.vkPeerId = some vkPeerId ∧ r.live = true := by
  have := List.find?_some h
  simp only [Bool.and_eq_true, beq_iff_eq] at this
  exact ⟨List.mem_of_find?_eq_some h, this⟩

theorem codeRow_some {code : Str} {c : VkConfirmation} (h : codeRow T code = some c) :
    c ∈ T.vkConfirmations ∧ c.code = code :=
  ⟨List.mem_of_find?_eq_some h, by simpa using List.find?_some h⟩

theorem codeRow_none {code : Str} (h : codeRow T code = none) : ∀ c ∈ T.vkConfirmations, c.code ≠ code := by
  simpa [codeRow] using h

theorem userRow_none {userId : UUID} (h : userRow T userId = none) :
    ∀ r ∈ T.userVks, r.live = true → r.userId ≠ userId := by
  intro r hr hlive huser
  simpa [UserVkRepository.liveOfUser, hlive, huser] using List.find?_eq_none.mp h r hr

end Found
end VkService
