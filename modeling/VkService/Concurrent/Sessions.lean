import VkService.Concurrent.Cells

/-! What a session has written. From a write to its end a session holds the cell it has
written, and its commit makes the version it holds the committed one. -/
namespace VkService
open PyStr Effects Effects.Machine RowStore

/-- The transaction is open: its session was not killed and has not ended it. -/
def Running (s : Run) (t : Tid) : Prop := ¬ Ended (s.history t) ∧ ∃ p, s.prog t = some p

def Committed (s : Run) (t : Tid) : Prop := ⟨.commit, .ok ()⟩ ∈ s.history t

section Sessions
variable {hashtext : String → Int} {settings : VkSettings} {pool : Tid → Request} {s : Run} {t t' : Tid} {w : World}
  {c : Call} {k : Except Exn c.Reply → Py Answer} {r : Except Exn c.Reply} {next : Store}

/-- A session that goes on running has not ended its transaction. -/
theorem Running.before (h : Running (s.advance t' c k r next) t)
    (hcalls : Calls hashtext settings pool s t' w c r next) :
    Running s t ∧ (t = t' → c.ends = false) := by
  obtain ⟨hrun, p, hp⟩ := h
  by_cases ht : t = t'
  · subst ht
    rw [Sys.history_advance_self, ended_cons, not_or] at hrun
    obtain ⟨k', hp'⟩ := hcalls.running
    refine ⟨⟨hrun.2, _, hp'⟩, fun _ => ?_⟩
    cases c <;> first | rfl | simp at hrun
  · rw [Sys.history_advance_ne _ _ _ _ _ _ ht] at hrun
    rw [Sys.advance_prog_ne _ _ _ _ _ _ ht] at hp
    exact ⟨⟨hrun, p, hp⟩, fun h => absurd h ht⟩

/-- An open transaction stays open until its session makes a call that ends it. -/
theorem Running.advance (h : Running s t) (hc : t = t' → c.ends = false) : Running (s.advance t' c k r next) t := by
  obtain ⟨hnot, p, hp⟩ := h
  by_cases ht : t = t'
  · subst ht
    refine ⟨?_, k r, by simp⟩
    rw [Sys.history_advance_self, ended_cons, not_or]
    refine ⟨?_, hnot⟩
    have hc := hc rfl
    rintro (h | h | h) <;> rw [show c = _ from h] at hc <;> cases hc
  · exact ⟨by rwa [Sys.history_advance_ne _ _ _ _ _ _ ht], p, by rwa [Sys.advance_prog_ne _ _ _ _ _ _ ht]⟩

theorem Running.before_drop {next : Store} (h : Running (s.drop t' next) t) : Running s t ∧ t ≠ t' := by
  obtain ⟨hrun, p, hp⟩ := h
  by_cases ht : t = t'
  · subst ht
    simp at hp
  · rw [Sys.drop_prog_ne _ _ _ ht] at hp
    exact ⟨⟨hrun, p, hp⟩, ht⟩

/-- An event of a thread after a step is an old one, or its last call. -/
theorem mem_history_cases {e : CallEvent} (h : e ∈ (s.advance t' c k r next).history t) :
    e ∈ s.history t ∨ t = t' ∧ e = ⟨c, r⟩ := by
  by_cases ht : t = t'
  · subst ht
    rw [Sys.history_advance_self] at h
    exact (List.mem_cons.mp h).symm.imp id fun h => ⟨rfl, h⟩
  · rw [Sys.history_advance_ne _ _ _ _ _ _ ht] at h
    exact .inl h

theorem Committed.cases (h : Committed (s.advance t' c k r next) t) : Committed s t ∨ t = t' ∧ c = .commit := by
  rcases mem_history_cases h with h | ⟨ht, heq⟩
  · exact .inl h
  · cases heq
    exact .inr ⟨ht, rfl⟩

theorem Committed.ended (h : Committed s t) : Ended (s.history t) := ⟨_, h, .inl rfl⟩

end Sessions

/-- A cell of the store, with what each call is for it. -/
structure StoreCell (hashtext : String → Int) (ρ : Type) where
  cell : Store → Cell Tid ρ
  deed : World → (c : Call) → Except Exn c.Reply → Deed ρ
  step {t w c s s'} {r : Except Exn c.Reply} (hs : s.Keyed) (h : (database hashtext).exec t w c s = some (r, s')) :
    (cell s).Step t (deed w c r) (cell s')
  killed {s} (hs : s.Keyed) (t : Tid) : (cell s).Step t .killed (cell (s.rollback t))
  commit {s} (hs : s.Keyed) (t : Tid) : cell (s.commit t) = (cell s).commit t
  unheld (T : Tables) : (cell (.ofTables T)).pending = none
  commits {w c} {r : Except Exn c.Reply} (h : (deed w c r).commits) : c = .commit
  rollsBack {w c} {r : Except Exn c.Reply} (h : (deed w c r).rollsBack) : RolledBack c r

section StoreCells
variable (hashtext : String → Int)

def userVkCell (x : UUID) : StoreCell hashtext UserVk where
  cell s := s.userVk x
  deed w c r := userVkDeed w c r x
  step hs h := exec_userVk hs h x
  killed hs t := rollback_userVk hs t x
  commit hs t := userVk_commit hs t x
  unheld _ := pending_cellOf_ofRows x _
  commits h := h
  rollsBack h := h

def confirmationCell (y : UUID) : StoreCell hashtext VkConfirmation where
  cell s := s.confirmation y
  deed w c r := confirmationDeed w c r y
  step hs h := exec_confirmation hs h y
  killed hs t := rollback_confirmation hs t y
  commit hs t := confirmation_commit hs t y
  unheld _ := pending_cellOf_ofRows y _
  commits h := h
  rollsBack h := h

def deliveryCell (pair : UUID × UUID) : StoreCell hashtext VkNotificationDelivery where
  cell s := s.delivery pair
  deed w c r := deliveryDeed w c r pair
  step hs h := exec_delivery hs h pair
  killed hs t := rollback_delivery hs t pair
  commit hs t := delivery_commit hs t pair
  unheld _ := pending_cellOf_ofRows pair _
  commits h := h
  rollsBack h := h

end StoreCells

section Runs
variable {hashtext : String → Int} {settings : VkSettings} {pool : Tid → Request} {T : Tables} {s s₁ : Run}
  {cond : Move Tid World → Run → Prop} {ρ : Type} {C : StoreCell hashtext ρ} {P : ρ → Prop}

/-- The repositories raise none of the services' own exceptions, in any run. -/
theorem reaches_honest (hT : T.Wf) (hreach : Reaches hashtext cond (launch settings pool (.ofTables T)) s) (t : Tid) :
    Honest (s.history t) := by
  refine reaches_induction (I := fun s => Honest (s.history t)) hT .refl (fun e he => by cases he) ?_
    (fun _ _ _ h => h) hreach
  intro s t' w c k r next _ hinv _ hcalls e he x hx
  rcases mem_history_cases he with he | ⟨-, rfl⟩
  · exact hinv e he x hx
  · obtain ⟨-, hreply, -⟩ := execCall_cases hcalls.exec
    exact answer_notOwn (hreply.symm.trans hx)

/-- No call of the run takes the property of rows away. -/
structure KeptBy (settings : VkSettings) (pool : Tid → Request) (T : Tables) (cond : Move Tid World → Run → Prop)
    (C : StoreCell hashtext ρ) (P : ρ → Prop) : Prop where
  keeps {s t w c} {r : Except Exn c.Reply} {next row row'}
    (hreach : Reaches hashtext cond (launch settings pool (.ofTables T)) s)
    (hcalls : Calls hashtext settings pool s t w c r next) (hP : P row) (hw : (C.deed w c r).rewrites row row') : P row'

theorem KeptBy.settles (hkept : KeptBy settings pool T cond C P) (hT : T.Wf)
    (hreach : Reaches hashtext cond (launch settings pool (.ofTables T)) s) : (C.cell s.shared).Settles P := by
  refine reaches_induction (I := fun s => (C.cell s.shared).Settles P) hT .refl
    (Cell.settles_of_unheld (C.unheld T)) ?_ ?_ hreach
  · intro s t w c k r next hreach hinv _ hcalls
    exact hinv.step (C.step hcalls.sound.keyed hcalls.exec) fun _ _ => hkept.keeps hreach hcalls
  · intro s t hreach hinv
    exact hinv.step (C.killed (reaches_sound hT hreach).keyed t) fun _ _ _ h => h.elim

/-- A committed row with such a property keeps it in every later state. -/
theorem KeptBy.later (hkept : KeptBy settings pool T cond C P) (hT : T.Wf)
    (hstart : Reaches hashtext cond (launch settings pool (.ofTables T)) s₁) (hreach : Reaches hashtext cond s₁ s)
    (h : ∃ row, (C.cell s₁.shared).committed = some row ∧ P row) :
    ∃ row, (C.cell s.shared).committed = some row ∧ P row := by
  refine reaches_induction (I := fun s => ∃ row, (C.cell s.shared).committed = some row ∧ P row) hT hstart h ?_ ?_ hreach
  · intro s t w c k r next hreach hinv _ hcalls
    exact (hkept.settles hT hreach).committed (C.step hcalls.sound.keyed hcalls.exec) hinv
  · intro s t hreach hinv
    exact (hkept.settles hT hreach).committed (C.killed (reaches_sound hT hreach).keyed t) hinv

/-- The events `E` of a session put a row with `P` into the cell, and no other call of the
session takes it out before the end. -/
structure WritesCell (settings : VkSettings) (pool : Tid → Request) (T : Tables) (cond : Move Tid World → Run → Prop)
    (C : StoreCell hashtext ρ) (P : ρ → Prop) (t : Tid) (E : CallEvent → Prop) : Prop where
  puts {s w c} {r : Except Exn c.Reply} {next} (hreach : Reaches hashtext cond (launch settings pool (.ofTables T)) s)
    (hcalls : Calls hashtext settings pool s t w c r next) (he : E ⟨c, r⟩) :
    ∃ row, (C.cell next).pending = some (t, row) ∧ P row
  opens {s w c} {r : Except Exn c.Reply} {next} (hcalls : Calls hashtext settings pool s t w c r next) (he : E ⟨c, r⟩) :
    ¬ Ended (s.history t)
  keeps {s w c} {r : Except Exn c.Reply} {next row row'} (hcalls : Calls hashtext settings pool s t w c r next)
    (he : ∃ e ∈ s.history t, E e) (hP : P row) (hw : (C.deed w c r).rewrites row row') : P row'
  stays {s w c} {r : Except Exn c.Reply} {next} (hcalls : Calls hashtext settings pool s t w c r next)
    (he : ∃ e ∈ s.history t, E e) (hc : c.ends = false) : ¬ RolledBack c r

variable {t : Tid} {E : CallEvent → Prop}

theorem WritesCell.held (hwrites : WritesCell settings pool T cond C P t E) (hT : T.Wf)
    (hreach : Reaches hashtext cond (launch settings pool (.ofTables T)) s) (he : ∃ e ∈ s.history t, E e)
    (hrun : Running s t) : ∃ row, (C.cell s.shared).pending = some (t, row) ∧ P row := by
  refine reaches_induction (I := fun s => (∃ e ∈ s.history t, E e) → Running s t →
    ∃ row, (C.cell s.shared).pending = some (t, row) ∧ P row) hT .refl
    (fun ⟨_, he, _⟩ => by cases he) ?_ ?_ hreach he hrun
  · rintro s t' w c k r next hreach hinv - hcalls ⟨e, he, hE⟩ hrun
    obtain ⟨hrun, hopen⟩ := hrun.before hcalls
    rcases mem_history_cases he with hold | ⟨rfl, rfl⟩
    · obtain ⟨row, hp, hP⟩ := hinv ⟨e, hold, hE⟩ hrun
      have hstep := C.step hcalls.sound.keyed hcalls.exec
      by_cases ht : t = t'
      · subst ht
        rcases hstep.own hp with ⟨row', hp', -, hrow⟩ | ⟨hcommit, -⟩ | ⟨hr, -⟩
        · exact ⟨row', hp', hrow.elim (fun h => h ▸ hP) fun hw => hwrites.keeps hcalls ⟨e, hold, hE⟩ hP hw⟩
        · have hends := hopen rfl
          rw [C.commits hcommit] at hends
          cases hends
        · exact absurd (C.rollsBack hr) (hwrites.stays hcalls ⟨e, hold, hE⟩ (hopen rfl))
      · exact ⟨row, hstep.other hp ht ▸ hp, hP⟩
    · exact hwrites.puts hreach hcalls hE
  · intro s t' hreach hinv he hrun
    obtain ⟨hrun, hne⟩ := hrun.before_drop
    obtain ⟨row, hp, hP⟩ := hinv he hrun
    exact ⟨row, (C.killed (reaches_sound hT hreach).keyed t').other hp hne ▸ hp, hP⟩

/-- The session commits only while its transaction is open. -/
abbrev CommitsOnce (hashtext : String → Int) (settings : VkSettings) (pool : Tid → Request) (T : Tables)
    (cond : Move Tid World → Run → Prop) (t : Tid) : Prop :=
  ∀ s w (r : Except Exn Unit) next, Reaches hashtext cond (launch settings pool (.ofTables T)) s →
    Calls hashtext settings pool s t w .commit r next → ¬ Ended (s.history t)

/-- What the session has written is committed with it, and stays. -/
theorem WritesCell.committed (hwrites : WritesCell settings pool T cond C P t E) (hT : T.Wf)
    (hkept : KeptBy settings pool T cond C P) (honce : CommitsOnce hashtext settings pool T cond t)
    (hreach : Reaches hashtext cond (launch settings pool (.ofTables T)) s) (he : ∃ e ∈ s.history t, E e)
    (hcommitted : Committed s t) : ∃ row, (C.cell s.shared).committed = some row ∧ P row := by
  refine reaches_induction (I := fun s => (∃ e ∈ s.history t, E e) → Committed s t →
    ∃ row, (C.cell s.shared).committed = some row ∧ P row) hT .refl
    (fun ⟨_, he, _⟩ => by cases he) ?_ ?_ hreach he hcommitted
  · rintro s t' w c k r next hreach hinv - hcalls ⟨e, he, hE⟩ hcommitted
    have hstep := C.step hcalls.sound.keyed hcalls.exec
    rcases hcommitted.cases with hbefore | ⟨rfl, rfl⟩
    · rcases mem_history_cases he with hold | ⟨rfl, rfl⟩
      · exact (hkept.settles hT hreach).committed hstep (hinv ⟨e, hold, hE⟩ hbefore)
      · exact absurd hbefore.ended (hwrites.opens hcalls hE)
    · rcases mem_history_cases he with hold | ⟨-, rfl⟩
      · -- the commit makes the version it holds visible
        obtain ⟨k', hp'⟩ := hcalls.running
        obtain ⟨row, hp, hP⟩ := hwrites.held hT hreach ⟨e, hold, hE⟩ ⟨honce _ _ _ _ hreach hcalls, _, hp'⟩
        refine ⟨row, ?_, hP⟩
        rw [Sys.advance_shared, exec_commit hcalls.exec, C.commit hcalls.sound.keyed, Cell.commit_of_pending hp]
      · obtain ⟨row, hp, -⟩ := hwrites.puts hreach hcalls hE
        rw [exec_commit hcalls.exec, C.commit hcalls.sound.keyed] at hp
        exact absurd hp (Cell.commit_not_pending t _ row)
  · intro s t' hreach hinv he hcommitted
    exact (hkept.settles hT hreach).committed (C.killed (reaches_sound hT hreach).keyed t') (hinv he hcommitted)

end Runs
end VkService
