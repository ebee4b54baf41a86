import VkService.Domain.Calls
import VkService.Domain.Schema

/-! Every call keeps the constraints of the schema, whatever program issues it. -/
namespace VkService
open PyStr UserVkRepository VkConfirmationRepository VkNotificationDeliveryRepository

/-- The database hands out identifiers that no row has. -/
structure NewIds.Fresh (ids : NewIds) (T : Tables) : Prop where
  userVk : ids.userVk ∉ T.userVks.map (·.id)
  vkConfirmation : ids.vkConfirmation ∉ T.vkConfirmations.map (·.id)

section Keys
variable {ρ κ : Type} {rows : List ρ} {p : ρ → Bool} {f : ρ → ρ}

private theorem nodup_insert {key : ρ → κ} (h : (rows.map key).Nodup) {r : ρ} (hr : key r ∉ rows.map key) :
    ((rows ++ [r]).map key).Nodup := by
  simpa [List.concat_eq_append] using List.Nodup.concat hr h

private theorem nodup_update {key : ρ → κ} (h : (rows.map key).Nodup) (hf : ∀ r, key (f r) = key r) :
    ((rows.map fun r => if p r then f r else r).map key).Nodup := by
  have hmap : (rows.map fun r => if p r then f r else r).map key = rows.map key := by
    rw [List.map_map]
    refine List.map_congr_left fun r _ => ?_
    by_cases hp : p r = true <;> simp [hp, hf]
  rwa [hmap]

end Keys

namespace Tables.Wf
variable {T : Tables} (h : T.Wf)
include h

theorem insertUserVk {row : UserVk} (hid : row.id ∉ T.userVks.map (·.id))
    (hclash : T.userVks.any row.clashes = false) : (Change.apply T (.insertUserVk row)).Wf where
  userVkIds := nodup_insert h.userVkIds hid
  noClash := by
    refine List.pairwise_append.mpr ⟨h.noClash, by simp, fun a ha b hb => ?_⟩
    obtain rfl : b = row := by simpa using hb
    have := List.any_eq_false.mp hclash a ha
    simpa [UserVk.clashes_comm a] using this
  confirmationIds := h.confirmationIds
  codes := h.codes
  foreignKey c hc :=
    have ⟨r, hr, he⟩ := h.foreignKey c hc
    ⟨r, List.mem_append_left _ hr, he⟩
  deliveryKeys := h.deliveryKeys

/-- An UPDATE of bindings that keeps the identifiers and adds no collision. -/
theorem updateUserVk {p : UserVk → Bool} {f : UserVk → UserVk} (hid : ∀ r, (f r).id = r.id)
    (hclash : ∀ a ∈ T.userVks, ∀ b ∈ T.userVks, a.id ≠ b.id → a.clashes b = false → p a = true →
      (if p b then (f a).clashes (f b) else (f a).clashes b) = false) :
    (Change.apply T (.updateUserVk p f)).Wf where
  userVkIds := nodup_update h.userVkIds hid
  noClash := by
    have hpair := h.noClash.and (List.pairwise_map.mp h.userVkIds)
    refine List.pairwise_map.mpr (hpair.imp_of_mem fun {a b} ha hb ⟨hab, hne⟩ => ?_)
    by_cases hpa : p a = true
    · have := hclash a ha b hb hne hab hpa
      by_cases hpb : p b = true <;> simpa [hpa, hpb] using this
    · by_cases hpb : p b = true
      · have := hclash b hb a ha (Ne.symm hne) ((UserVk.clashes_comm b a).trans hab) hpb
        rw [if_neg hpa] at this
        simpa [hpa, hpb, UserVk.clashes_comm a] using this
      · simpa [hpa, hpb] using hab
  confirmationIds := h.confirmationIds
  codes := h.codes
  foreignKey c hc := by
    obtain ⟨r, hr, he⟩ := h.foreignKey c hc
    refine ⟨if p r then f r else r, List.mem_map_of_mem hr, ?_⟩
    by_cases hp : p r = true <;> simp [hp, hid, he]
  deliveryKeys := h.deliveryKeys

theorem insertVkConfirmation {row : VkConfirmation} (hid : row.id ∉ T.vkConfirmations.map (·.id))
    (hcode : T.vkConfirmations.any (·.code == row.code) = false)
    (hkey : T.userVks.any (·.id == row.userVkId) = true) :
    (Change.apply T (.insertVkConfirmation row)).Wf where
  userVkIds := h.userVkIds
  noClash := h.noClash
  confirmationIds := nodup_insert h.confirmationIds hid
  codes := nodup_insert h.codes (by simpa using hcode)
  foreignKey c hc := by
    rcases List.mem_append.mp hc with hc | hc
    · exact h.foreignKey c hc
    · obtain rfl : c = row := by simpa using hc
      exact (by simpa using hkey : ∃ r ∈ T.userVks, r.id = c.userVkId)
  deliveryKeys := h.deliveryKeys

theorem updateVkConfirmation {p : VkConfirmation → Bool} {f : VkConfirmation → VkConfirmation}
    (hf : ∀ c, (f c).id = c.id ∧ (f c).code = c.code ∧ (f c).userVkId = c.userVkId) :
    (Change.apply T (.updateVkConfirmation p f)).Wf where
  userVkIds := h.userVkIds
  noClash := h.noClash
  confirmationIds := nodup_update h.confirmationIds fun c => (hf c).1
  codes := nodup_update h.codes fun c => (hf c).2.1
  foreignKey c hc := by
    obtain ⟨c', hc', rfl⟩ := List.mem_map.mp hc
    obtain ⟨r, hr, he⟩ := h.foreignKey c' hc'
    refine ⟨r, hr, he.trans ?_⟩
    by_cases hp : p c' = true <;> simp [hp, hf]
  deliveryKeys := h.deliveryKeys

theorem insertVkLog (row : VkLog) : (Change.apply T (.insertVkLog row)).Wf :=
  ⟨h.userVkIds, h.noClash, h.confirmationIds, h.codes, h.foreignKey, h.deliveryKeys⟩

theorem insertDelivery {row : VkNotificationDelivery} (hrow : deliveryRow T row.eventUuid row.userId = none) :
    (Change.apply T (.insertDelivery row)).Wf where
  userVkIds := h.userVkIds
  noClash := h.noClash
  confirmationIds := h.confirmationIds
  codes := h.codes
  foreignKey := h.foreignKey
  deliveryKeys := by
    refine nodup_insert h.deliveryKeys fun hmem => ?_
    obtain ⟨d, hd, he⟩ := List.mem_map.mp hmem
    simp only [Prod.mk.injEq] at he
    have := List.find?_eq_none.mp hrow d hd
    simp [keyed, he] at this

theorem updateDelivery {p : VkNotificationDelivery → Bool} {f : VkNotificationDelivery → VkNotificationDelivery}
    (hf : ∀ d, (f d).eventUuid = d.eventUuid ∧ (f d).userId = d.userId) :
    (Change.apply T (.updateDelivery p f)).Wf where
  userVkIds := h.userVkIds
  noClash := h.noClash
  confirmationIds := h.confirmationIds
  codes := h.codes
  foreignKey := h.foreignKey
  deliveryKeys := nodup_update h.deliveryKeys fun d => by simp only [hf]

theorem create {w : World} {ids : NewIds} (hids : ids.Fresh T) (userId : UUID) :
    (Change.apply T (UserVkRepository.create w ids T userId).2).Wf := by
  unfold UserVkRepository.create
  dsimp only
  split
  · exact h
  · rename_i hfree
    exact h.insertUserVk hids.userVk (by simpa using hfree)

theorem activate (w : World) (recordId : UUID) (vkPeerId : PeerId) (screenName displayName : Option String) :
    (Change.apply T (UserVkRepository.activate w T recordId vkPeerId screenName displayName).2).Wf := by
  unfold UserVkRepository.activate
  rw [h.one_liveWithId]
  cases hfind : T.userVks.find? (liveWithId recordId) with
  | none => exact h
  | some r =>
    dsimp only [Option.elim]
    split
    · exact h
    · rename_i hfree
      refine h.updateUserVk (fun _ => rfl) fun a ha b hb hne hab hpa => ?_
      have hid : ∀ a, liveWithId recordId a = true → a.id = recordId := by
        intro a ha
        simp only [liveWithId, Bool.and_eq_true, beq_iff_eq] at ha
        exact ha.1
      have hr : r.id = recordId := hid r (List.find?_some hfind)
      obtain rfl : a = r := eq_of_key h.userVkIds ha (List.mem_of_find?_eq_some hfind)
        ((hid a hpa).trans hr.symm)
      -- the other row has another identifier, so the uniqueness check has looked at it
      rw [if_neg fun hpb => hne ((hid a hpa).trans (hid b hpb).symm)]
      simp only [occupied, Bool.not_eq_true, List.any_eq_false, Bool.and_eq_true, bne_iff_ne, not_and] at hfree
      exact hfree b hb (Ne.symm hne)

theorem setState (w : World) (recordId : UUID) (state : BindingState) :
    (Change.apply T (UserVkRepository.setState w T recordId state).2).Wf := by
  refine h.updateUserVk (fun _ => rfl) fun a _ b _ _ hab _ => ?_
  have hclash : ∀ a b, (withState w state a).clashes b = a.clashes b := fun _ _ => rfl
  split
  · rw [hclash, UserVk.clashes_comm, hclash, UserVk.clashes_comm]
    exact hab
  · rw [hclash]
    exact hab

theorem softDelete (w : World) (userId : UUID) :
    (Change.apply T (UserVkRepository.softDelete w T userId).2).Wf := by
  refine h.updateUserVk (fun _ => rfl) fun a _ b _ _ _ _ => ?_
  split <;> simp [UserVk.clashes, UserVk.live, deleted]

theorem createConfirmation {w : World} {ids : NewIds} (hids : ids.Fresh T) (userVkId : UUID) (code : Str)
    (expiresAt : Time) :
    (Change.apply T (VkConfirmationRepository.create w ids T userVkId code expiresAt).2).Wf := by
  unfold VkConfirmationRepository.create
  split
  · exact h
  · rename_i hfree
    simp only [Bool.not_eq_true, Bool.or_eq_false_iff, Bool.not_eq_false'] at hfree
    exact h.insertVkConfirmation hids.vkConfirmation hfree.1 hfree.2

theorem claimAttempt (w : World) (eventUuid userId : UUID) (vkPeerId : PeerId) :
    (Change.apply T (VkNotificationDeliveryRepository.claimAttempt w T eventUuid userId vkPeerId).2).Wf := by
  unfold VkNotificationDeliveryRepository.claimAttempt
  rw [h.find_delivery_eq]
  cases hfind : deliveryRow T eventUuid userId with
  | none => exact h.insertDelivery hfind
  | some d =>
    dsimp only
    split
    · exact h
    · exact h.updateDelivery fun _ => ⟨rfl, rfl⟩

/-- The constraints hold after any call. -/
theorem answer {w : World} {ids : NewIds} (hids : ids.Fresh T) (c : Call) :
    (Change.apply T (VkService.answer w ids T c).2).Wf := by
  cases c with
  | userVkCreate userId => exact h.create hids userId
  | userVkActivate recordId peer sn dn => exact h.activate w recordId peer sn dn
  | userVkSetState recordId state => exact h.setState w recordId state
  | userVkSoftDelete userId => exact h.softDelete w userId
  | confirmationCreate userVkId code exp => exact h.createConfirmation hids userVkId code exp
  | confirmationMarkUsed id => exact h.updateVkConfirmation fun _ => ⟨rfl, rfl, rfl⟩
  | confirmationInvalidatePrevious id => exact h.updateVkConfirmation fun _ => ⟨rfl, rfl, rfl⟩
  | logAction action status details => exact h.insertVkLog _
  | claimAttempt event user peer => exact h.claimAttempt w event user peer
  | markSent event user => exact h.updateDelivery fun _ => ⟨rfl, rfl⟩
  | markFailed event user category => exact h.updateDelivery fun _ => ⟨rfl, rfl⟩
  | _ => exact h

end Tables.Wf
end VkService
