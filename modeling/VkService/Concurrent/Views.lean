import VkService.Concurrent.Codes
import VkService.Storage.UniqueIndex

/-! Under READ COMMITTED every transaction sees tables that keep the constraints of the
schema, whatever the programs do. -/
namespace VkService
open PyStr Effects RowStore UserVkRepository VkConfirmationRepository

/-- What the unique indexes and the foreign key keep up between open transactions. -/
structure Store.Lawful (s : Store) : Prop where
  keyed : s.Keyed
  apart : Apart (fun a b : UserVk => a.clashes b = true) s.userVk
  committedKey : ∀ y c, (s.confirmation y).committed = some c → ∃ r, (s.userVk c.userVkId).committed = some r
  pendingKey : ∀ y t c, (s.confirmation y).pending = some (t, c) → ∃ r, (s.userVk c.userVkId).read t = some r

theorem clashes_symm {a b : UserVk} (h : a.clashes b = true) : b.clashes a = true :=
  (UserVk.clashes_comm b a).trans h

section Laws
variable {hashtext : String → Int} {t : Tid} {w : World} {c : Call} {s s' : Store} {r : Except Exn c.Reply} {T : Tables}

theorem Store.lawful_ofTables (hT : T.Wf) : (Store.ofTables T).Lawful where
  keyed := Store.keyed_ofTables hT
  apart := by
    refine .of_unheld (fun x => pending_cellOf_ofRows x _) fun {x y a b} hne ha hb hclash => ?_
    have hkeyed := Store.keyed_ofTables hT
    have hida : a.id = x := id_of_userVk hkeyed (Cell.committed_mem ha)
    have hidb : b.id = y := id_of_userVk hkeyed (Cell.committed_mem hb)
    have hmema : a ∈ T.userVks := by
      have := (committed_userVk hkeyed).mpr (hida ▸ ha)
      rwa [Store.committed_ofTables] at this
    have hmemb : b ∈ T.userVks := by
      have := (committed_userVk hkeyed).mpr (hidb ▸ hb)
      rwa [Store.committed_ofTables] at this
    obtain rfl := hT.eq_of_clashes hmema hmemb hclash
    exact hne (hida.symm.trans hidb)
  committedKey := by
    intro y conf hconf
    have hkeyed := Store.keyed_ofTables hT
    have hid : conf.id = y := id_of_confirmation hkeyed (Cell.committed_mem hconf)
    have hmem : conf ∈ T.vkConfirmations := by
      have := (committed_confirmation hkeyed).mpr (hid ▸ hconf)
      rwa [Store.committed_ofTables] at this
    obtain ⟨row, hrow, hrowid⟩ := hT.foreignKey conf hmem
    refine ⟨row, hrowid ▸ (committed_userVk hkeyed).mp ?_⟩
    rwa [Store.committed_ofTables]
  pendingKey := by
    intro y t conf hconf
    rw [show ((Store.ofTables T).confirmation y).pending = none from pending_cellOf_ofRows y _] at hconf
    cases hconf

/-- No version that another transaction holds collides with a key that is ready. -/
theorem ready_apart {p : UserVk → Bool} (hready : keyReady t p s.userVks = true) {x : UUID}
    (hlocked : (s.userVk x).lockedByOther t = true) : ∀ row ∈ (s.userVk x).versions, p row = false := by
  intro row hrow
  rcases cellOf_mem_or_empty UserVk.id x s.userVks with hmem | hempty
  · exact keyReady_iff.mp hready _ hmem hlocked row hrow
  · rw [Store.userVk, hempty] at hrow
    cases hrow

section Apart
variable (hs : s.Lawful)
include hs

theorem Store.Lawful.apart_created {userId : UUID}
    (hready : keyReady t (pendingRow w (s.newIds w).userVk userId).clashes s.userVks = true)
    (hfree : (RowStore.view t s.userVks).any (pendingRow w (s.newIds w).userVk userId).clashes = false) :
    Apart (fun a b : UserVk => a.clashes b = true)
      fun x => cellOf UserVk.id x (insert t (pendingRow w (s.newIds w).userVk userId) s.userVks) := by
  have hempty : cellOf UserVk.id (s.newIds w).userVk s.userVks = Cell.empty := cellOf_eq_empty (newId_userVk w s)
  have hinsert := cellOf_insert (t := t) (r := pendingRow w (s.newIds w).userVk userId) hs.keyed.userVks
    (newId_userVk w s)
  refine hs.apart.place (x := (s.newIds w).userVk) (t := t)
    (z := pendingRow w (s.newIds w).userVk userId) clashes_symm ?_ (fun x _ row hread => ?_)
    (fun x _ hlocked row hrow => ?_) ?_ fun x hne => ?_
  · rw [Store.userVk, hempty]
    rfl
  · simpa using List.any_eq_false.mp hfree row (view_of_cell hs.keyed.userVks hread).1
  · simpa using ready_apart hready hlocked row hrow
  · rw [hinsert, Store.userVk, hempty]
    exact if_pos rfl
  · rw [hinsert]
    exact if_neg fun heq => hne heq.symm

theorem Store.Lawful.apart_activated {recordId : UUID} {vkPeerId : PeerId} {sn dn : Option String} {row : UserVk}
    (hready : rowsReady t (liveWithId recordId) s.userVks = true)
    (hrow : (RowStore.view t s.userVks).filter (liveWithId recordId) = [row])
    (hkey : keyReady t (fun r => r.id != row.id && (activated w vkPeerId sn dn row).clashes r) s.userVks = true)
    (hfree : occupied (RowStore.view t s.userVks) (activated w vkPeerId sn dn row) = false) :
    Apart (fun a b : UserVk => a.clashes b = true)
      fun x => cellOf UserVk.id x (update t (liveWithId recordId) (activated w vkPeerId sn dn) s.userVks) := by
  obtain ⟨hview, hp⟩ := List.mem_filter.mp (hrow ▸ List.mem_singleton_self row)
  have hlive : ∀ {q : UserVk}, liveWithId recordId q = true → q.id = recordId := by
    intro q hq
    simp only [liveWithId, Bool.and_eq_true, beq_iff_eq] at hq
    exact hq.1
  have hread : (cellOf UserVk.id recordId s.userVks).read t = some row :=
    hlive hp ▸ (mem_view_iff hs.keyed.userVks).mp hview
  have hupdate := cellOf_update hs.keyed.userVks (t := t) (p := liveWithId recordId) (f := activated w vkPeerId sn dn)
    fun _ => rfl
  refine hs.apart.place (x := recordId) (t := t) (z := activated w vkPeerId sn dn row) clashes_symm
    ((ready_cell UserVk.id recordId hready).resolve_left (by simp [hread, hp]))
    (fun x hne q hq => ?_) (fun x hne hlocked q hq => ?_) ?_ fun x hne => ?_
  · obtain ⟨hmem, hqid⟩ := view_of_cell hs.keyed.userVks hq
    have hnot := List.any_eq_false.mp hfree q hmem
    simp only [Bool.and_eq_true, bne_iff_ne, not_and] at hnot
    exact hnot fun heq => hne (hqid.symm.trans (heq.trans (hlive hp)))
  · have hnot := ready_apart hkey hlocked q hq
    simp only [Bool.and_eq_false_iff, bne_eq_false_iff_eq] at hnot
    have hqid : q.id = x := id_of_userVk hs.keyed hq
    simpa using hnot.resolve_left fun heq => hne (hqid.symm.trans (heq.trans (hlive hp)))
  · rw [hupdate]
    simp [Cell.write, hread, hp, Store.userVk]
  · rw [hupdate]
    rcases Cell.write_cases t (liveWithId recordId) (activated w vkPeerId sn dn) (cellOf UserVk.id x s.userVks) with
      ⟨q, hq, hqp, -⟩ | ⟨-, heq⟩
    · exact absurd ((view_of_cell hs.keyed.userVks hq).2.symm.trans (hlive hqp)) hne
    · exact heq

theorem Store.Lawful.apart_exec (h : (database hashtext).exec t w c s = some (r, s')) :
    Apart (fun a b : UserVk => a.clashes b = true) s'.userVk := by
  have hstep := exec_userVks h
  unfold Store.userVk
  generalize s'.userVks = after at hstep ⊢
  cases hstep with
  | same => exact hs.apart
  | committed =>
    rw [funext fun x => cellOf_commit hs.keyed.userVks x]
    exact hs.apart.commit clashes_symm
  | rolledBack =>
    rw [funext fun x => cellOf_rollback hs.keyed.userVks x]
    exact hs.apart.rollback
  | created hready hfree => exact hs.apart_created hready hfree
  | activated hready hrow hkey hfree => exact hs.apart_activated hready hrow hkey hfree
  | @stateSet recordId state _ hready =>
    rw [funext fun x => cellOf_update hs.keyed.userVks (f := withState w state) (fun _ => rfl) x]
    exact hs.apart.write clashes_symm (fun x => ready_cell _ _ hready) fun _ _ h => h
  | @softDeleted userId _ hready =>
    rw [funext fun x => cellOf_update hs.keyed.userVks (f := deleted w) (fun _ => rfl) x]
    refine hs.apart.write clashes_symm (fun x => ready_cell _ _ hready) fun row q h => ?_
    simp [UserVk.clashes, UserVk.live, deleted] at h

/-- A code goes on naming a row: its transaction sees one while it holds the code. -/
theorem Store.Lawful.row_of_code {y : UUID} {conf : VkConfirmation} (hread : (s.confirmation y).read t = some conf) :
    ∃ row, (s.userVk conf.userVkId).read t = some row := by
  rcases Cell.read_cases hread with hp | ⟨hc, -⟩
  · exact hs.pendingKey y t conf hp
  · obtain ⟨row, hrow⟩ := hs.committedKey y conf hc
    exact Cell.read_of_committed hrow

theorem Store.Lawful.commit : (s.commit t).Lawful where
  keyed := ⟨hs.keyed.userVks.commit, hs.keyed.userVkCores.commit, hs.keyed.vkConfirmations.commit, hs.keyed.codes.commit,
    hs.keyed.confirmationCores.commit, hs.keyed.deliveries.commit⟩
  apart := by
    rw [funext fun x => userVk_commit hs.keyed t x]
    exact hs.apart.commit clashes_symm
  committedKey y conf hconf := by
    rw [confirmation_commit hs.keyed, Cell.committed_commit] at hconf
    rw [userVk_commit hs.keyed, Cell.committed_commit]
    exact hs.row_of_code hconf
  pendingKey y t' conf hconf := by
    rw [confirmation_commit hs.keyed] at hconf
    rw [userVk_commit hs.keyed]
    rcases Cell.commit_cases t (s.confirmation y) with ⟨_, -, heq⟩ | ⟨hno, heq⟩
    · rw [heq] at hconf
      cases hconf
    · rw [heq] at hconf
      obtain ⟨row, hrow⟩ := hs.pendingKey y t' conf hconf
      have hne : t' ≠ t := fun ht => hno conf (ht ▸ hconf)
      exact (Cell.step_commit (d := ⟨True, False, fun _ => False, fun _ _ => False⟩) trivial).read_stays hrow
        (fun ht => absurd ht hne) fun ht => absurd ht hne

theorem Store.Lawful.rollback : (s.rollback t).Lawful where
  keyed := hs.keyed.rollback
  apart := by
    rw [funext fun x => userVk_rollback hs.keyed t x]
    exact hs.apart.rollback
  committedKey y conf hconf := by
    rw [confirmation_rollback hs.keyed, Cell.committed_rollback] at hconf
    rw [userVk_rollback hs.keyed, Cell.committed_rollback]
    exact hs.committedKey y conf hconf
  pendingKey y t' conf hconf := by
    rw [confirmation_rollback hs.keyed] at hconf
    rcases Cell.rollback_cases t (s.confirmation y) with ⟨_, -, heq⟩ | ⟨hno, heq⟩
    · rw [heq] at hconf
      cases hconf
    · rw [heq] at hconf
      obtain ⟨row, hrow⟩ := hs.pendingKey y t' conf hconf
      have hne : t' ≠ t := fun ht => hno conf (ht ▸ hconf)
      exact (rollback_userVk hs.keyed t conf.userVkId).read_stays hrow (fun ht => absurd ht hne) fun ht => absurd ht hne

/-- Every step of the database keeps the laws. -/
theorem Store.Lawful.exec (h : (database hashtext).exec t w c s = some (r, s')) : s'.Lawful := by
  by_cases hcommit : c = .commit
  · subst hcommit
    exact exec_commit h ▸ hs.commit
  by_cases hroll : RolledBack c r
  · exact exec_rolledBack h hroll ▸ hs.rollback
  have hstays : ∀ {x t' row}, (s.userVk x).read t' = some row → ∃ row', (s'.userVk x).read t' = some row' :=
    fun hread => (exec_userVk hs.keyed h _).read_stays hread (fun _ hc => hcommit hc) fun _ hr => hroll hr
  refine ⟨hs.keyed.exec h, hs.apart_exec h, fun y conf hconf => ?_, fun y t' conf hconf => ?_⟩
  · rcases (exec_confirmation hs.keyed h y).committed_cases with heq | ⟨_, hc, -⟩
    · obtain ⟨row, hrow⟩ := hs.committedKey y conf (heq ▸ hconf)
      obtain ⟨row', -, hrow'⟩ := (exec_userVk hs.keyed h conf.userVkId).committed_stays hrow
      exact ⟨row', hrow'⟩
    · exact absurd hc hcommit
  · rcases (exec_confirmation hs.keyed h y).pending_cases hconf with ⟨hp, -⟩ | ⟨rfl, ⟨hd, -⟩ | ⟨conf₀, hd, hread, -⟩⟩
    · obtain ⟨row, hrow⟩ := hs.pendingKey y t' conf hp
      exact hstays hrow
    · cases hd with
      | mk userVkId code exp =>
        obtain ⟨-, change, hasks, -⟩ := exec_asks h
        cases hasks with
        | read hc => cases hc
        | codeCreated _ hrow =>
          obtain ⟨row, hview, hid⟩ := List.any_eq_true.mp hrow
          refine @hstays _ _ row ?_
          rw [← (by simpa using hid : row.id = userVkId)]
          exact (mem_view_iff hs.keyed.userVks).mp hview
    · have hsame : conf.userVkId = conf₀.userVkId := by cases hd <;> rfl
      rw [hsame]
      obtain ⟨row, hrow⟩ := hs.row_of_code hread
      exact hstays hrow

/-- What a transaction sees keeps the constraints of the schema. -/
theorem Store.Lawful.view_wf (t : Tid) : (s.view t).Wf where
  userVkIds := nodup_view hs.keyed.userVks
  noClash := by
    refine (List.pairwise_map.mp (nodup_view (t := t) hs.keyed.userVks)).imp_of_mem fun {a b} ha hb hne => ?_
    have hread := (mem_view_iff hs.keyed.userVks).mp ha
    have hread' := (mem_view_iff hs.keyed.userVks).mp hb
    simpa using hs.apart.read clashes_symm hne hread hread'
  confirmationIds := nodup_view hs.keyed.vkConfirmations
  codes := nodup_view hs.keyed.codes
  foreignKey := by
    intro conf hconf
    obtain ⟨row, hrow⟩ := hs.row_of_code ((mem_view_iff hs.keyed.vkConfirmations).mp hconf)
    exact ⟨row, view_of_cell hs.keyed.userVks hrow⟩
  deliveryKeys := nodup_view hs.keyed.deliveries

/-- So do the committed rows. -/
theorem Store.Lawful.committed_wf : s.committed.Wf :=
  Store.view_rollback_self 0 s ▸ hs.rollback.view_wf 0

end Apart
end Laws

/-- In every state of a run, of whatever programs, the store is lawful. -/
theorem reaches_lawful {α : Type} {hashtext : String → Int} {T : Tables} (hT : T.Wf) {pool : Tid → Py α}
    {cond : Move Tid World → Sys Call Call.Reply Exn α Tid Store → Prop} {s : Sys Call Call.Reply Exn α Tid Store}
    (hreach : (database hashtext).Reach cond (Sys.start pool (.ofTables T)) s) : s.shared.Lawful :=
  Machine.reach_induction (database hashtext) (I := fun s => s.shared.Lawful) (Store.lawful_ofTables hT)
    (fun _ _ _ _ _ _ _ _ hs _ _ hexec => hs.exec hexec) (fun _ _ _ _ _ hs _ _ => hs.rollback) hreach

end VkService
