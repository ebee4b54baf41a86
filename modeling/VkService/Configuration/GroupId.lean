import VkService.Text.PythonStr

/-! The setting `VK_GROUP_ID`. A placeholder has to mean that the group is not configured; the
check for it and the reading of the number are two recognizers of the same text. -/
namespace PyStr

/-- The runs of code points for which `str.isdigit` holds in Unicode 16. -/
def digitRuns : List (Nat × Nat) :=
  [(48, 57), (178, 179), (185, 185), (1632, 1641), (1776, 1785), (1984, 1993), (2406, 2415), (2534, 2543),
   (2662, 2671), (2790, 2799), (2918, 2927), (3046, 3055), (3174, 3183), (3302, 3311), (3430, 3439),
   (3558, 3567), (3664, 3673), (3792, 3801), (3872, 3881), (4160, 4169), (4240, 4249), (4969, 4977),
   (6112, 6121), (6160, 6169), (6470, 6479), (6608, 6618), (6784, 6793), (6800, 6809), (6992, 7001),
   (7088, 7097), (7232, 7241), (7248, 7257), (8304, 8304), (8308, 8313), (8320, 8329), (9312, 9320),
   (9332, 9340), (9352, 9360), (9450, 9450), (9461, 9469), (9471, 9471), (10102, 10110), (10112, 10120),
   (10122, 10130), (42528, 42537), (43216, 43225), (43264, 43273), (43472, 43481), (43504, 43513),
   (43600, 43609), (44016, 44025), (65296, 65305), (66720, 66729), (68160, 68163), (68912, 68921),
   (68928, 68937), (69216, 69224), (69714, 69722), (69734, 69743), (69872, 69881), (69942, 69951),
   (70096, 70105), (70384, 70393), (70736, 70745), (70864, 70873), (71248, 71257), (71360, 71369),
   (71376, 71395), (71472, 71481), (71904, 71913), (72016, 72025), (72688, 72697), (72784, 72793),
   (73040, 73049), (73120, 73129), (73552, 73561), (90416, 90425), (92768, 92777), (92864, 92873),
   (93008, 93017), (93552, 93561), (118000, 118009), (120782, 120831), (123200, 123209), (123632, 123641),
   (124144, 124153), (124401, 124410), (125264, 125273), (127232, 127242), (130032, 130041)]

def isDigitChar (c : Char) : Bool := digitRuns.any fun (first, last) => first ≤ c.toNat && c.toNat ≤ last

/-- `str.isdigit`. -/
def isDigit (s : Str) : Bool := !s.isEmpty && s.all isDigitChar

/-- `str.lstrip` of one character. -/
def lstripChar (x : Char) (s : Str) : Str := s.dropWhile (· == x)

def asciiValue (digits : Str) : Nat := digits.foldl (fun n c => 10 * n + (c.toNat - '0'.toNat)) 0

/-- A decimal integer literal: ASCII digits after at most one minus sign. -/
def IntLiteral (s : Str) (n : Int) : Prop :=
  ∃ digits : Str, digits ≠ [] ∧ (∀ c ∈ digits, c.isDigit = true) ∧
    (s = digits ∧ n = asciiValue digits ∨ s = '-' :: digits ∧ n = -asciiValue digits)

theorem isDigitChar_of_ascii {c : Char} (h : c.isDigit = true) : isDigitChar c = true := by
  simp only [Char.isDigit, ge_iff_le, Bool.and_eq_true, decide_eq_true_eq] at h
  have hfirst : 48 ≤ c.toNat := h.1
  have hlast : c.toNat ≤ 57 := h.2
  rw [isDigitChar, digitRuns, List.any_cons]
  simp [hfirst, hlast]

theorem minus_of_not_digit : isDigitChar '-' = false := by
  decide

theorem isDigit_iff {s : Str} : isDigit s = true ↔ s ≠ [] ∧ ∀ c ∈ s, isDigitChar c = true := by
  simp [isDigit]

/-- A text that passes `isdigit` once its minus signs are removed. -/
theorem isDigit_lstrip_iff {s : Str} : isDigit (lstripChar '-' s) = true ↔
    ∃ k digits, s = List.replicate k '-' ++ digits ∧ digits ≠ [] ∧ ∀ c ∈ digits, isDigitChar c = true := by
  rw [isDigit_iff]
  constructor
  · rintro ⟨hne, hdigits⟩
    refine ⟨(s.takeWhile (· == '-')).length, lstripChar '-' s, ?_, hne, hdigits⟩
    have hsigns : s.takeWhile (· == '-') = List.replicate (s.takeWhile (· == '-')).length '-' :=
      by
      refine List.eq_replicate_of_mem fun c hc => ?_
      have hminus := List.mem_takeWhile_imp hc
      exact eq_of_beq hminus
    rw [← hsigns]
    exact List.takeWhile_append_dropWhile.symm
  · rintro ⟨k, digits, rfl, hne, hdigits⟩
    have hrest : lstripChar '-' (List.replicate k '-' ++ digits) = digits := by
      induction k with
      | zero =>
        obtain ⟨c, rest, rfl⟩ := List.exists_cons_of_ne_nil hne
        have hc : (c == '-') = false := by
          rw [beq_eq_false_iff_ne]
          rintro rfl
          exact nomatch minus_of_not_digit.symm.trans (hdigits '-' (by simp))
        simp [lstripChar, hc]
      | succ k ih => rwa [List.replicate_succ, List.cons_append, lstripChar, List.dropWhile_cons_of_pos (by simp)]
    rw [hrest]
    exact ⟨hne, hdigits⟩

theorem IntLiteral.isDigit {s : Str} {n : Int} (h : IntLiteral s n) : PyStr.isDigit (lstripChar '-' s) = true := by
  rw [isDigit_lstrip_iff]
  obtain ⟨digits, hne, hdigits, ⟨rfl, -⟩ | ⟨rfl, -⟩⟩ := h
  · exact ⟨0, s, rfl, hne, fun c hc => isDigitChar_of_ascii (hdigits c hc)⟩
  · exact ⟨1, digits, rfl, hne, fun c hc => isDigitChar_of_ascii (hdigits c hc)⟩

end PyStr

namespace VkService
open PyStr

/-- What the field can be given. -/
inductive SettingValue where
  | str (s : Str)
  | int (n : Int)

def treatPlaceholderGroupIdAsUnset : SettingValue → SettingValue
  | .str s => if !isDigit (lstripChar '-' (strip s)) then .int 0 else .str s
  | value => value

/-- The field `vk_group_id`: the validator, then the integer reader of the settings library,
which has no result where it raises `ValidationError`. -/
def vkGroupId (parseInt : Str → Option Int) (value : SettingValue) : Option Int :=
  match treatPlaceholderGroupIdAsUnset value with
  | .int n => some n
  | .str s => parseInt s

def isGroupConfigured (vkGroupScreenName : Str) (vkGroupId : Int) : Bool :=
  !(strip vkGroupScreenName).isEmpty && decide (0 < vkGroupId)

/-- The integer reader accepts a literal with white space around it. A text of minus signs and
digits that is no literal is rejected. -/
structure ReadsIntegers (parseInt : Str → Option Int) : Prop where
  accepts : ∀ {s n}, IntLiteral (strip s) n → parseInt s = some n
  rejects : ∀ {s}, (∀ c ∈ strip s, c = '-' ∨ isDigitChar c = true) → (∀ n, ¬ IntLiteral (strip s) n) → parseInt s = none

def readDigits (digits : Str) : Option Int :=
  if !digits.isEmpty && digits.all Char.isDigit then some (asciiValue digits) else none

/-- Such a reader: ASCII digits after at most one minus sign. -/
def readInt (s : Str) : Option Int :=
  match strip s with
  | '-' :: digits => (readDigits digits).map (-·)
  | digits => readDigits digits

/-- What is promised of the setting: a number is that number, and anything else leaves the
group unconfigured. -/
def GroupIdRead (parseInt : Str → Option Int) (s : Str) : Prop :=
  ∃ n, vkGroupId parseInt (.str s) = some n ∧ (∀ m, IntLiteral (strip s) m → n = m) ∧
    ((∀ m, ¬ IntLiteral (strip s) m) → n = 0 ∧ ∀ screenName, isGroupConfigured screenName n = false)

/-- Digits that pass the check of the validator and make no literal: after two minus signs, or
not all of them ASCII. -/
def StrayDigits (s : Str) : Prop :=
  ∃ k digits, s = List.replicate k '-' ++ digits ∧ digits ≠ [] ∧ (∀ c ∈ digits, isDigitChar c = true) ∧
    (2 ≤ k ∨ ∃ c ∈ digits, c.isDigit = false)

theorem strayDigits_iff {s : Str} :
    StrayDigits s ↔ isDigit (lstripChar '-' s) = true ∧ ∀ n, ¬ IntLiteral s n := by
  constructor
  · rintro ⟨k, digits, hs, hne, hdigits, hstray⟩
    refine ⟨isDigit_lstrip_iff.mpr ⟨k, digits, hs, hne, hdigits⟩, fun n hliteral => ?_⟩
    obtain ⟨ascii, -, hascii, hform⟩ := hliteral
    have hminus : '-' ∉ ascii := fun hmem => nomatch hascii '-' hmem
    obtain htwo | ⟨c, hc, hother⟩ := hstray
    · obtain ⟨k, rfl⟩ := Nat.exists_eq_add_of_le' htwo
      have hs : s = '-' :: '-' :: (List.replicate k '-' ++ digits) := hs
      obtain ⟨rfl, -⟩ | ⟨rfl, -⟩ := hform
      · exact hminus (by rw [hs]; simp)
      · exact hminus (by rw [(List.cons.inj hs).2]; simp)
    · have hmem : c ∈ s := by
        rw [hs]
        exact List.mem_append_right _ hc
      have hnot : c ∉ ascii := fun hin => nomatch hother.symm.trans (hascii c hin)
      obtain ⟨rfl, -⟩ | ⟨rfl, -⟩ := hform
      · exact hnot hmem
      · obtain rfl | hin := List.mem_cons.mp hmem
        · exact nomatch minus_of_not_digit.symm.trans (hdigits _ hc)
        · exact hnot hin
  · rintro ⟨hcheck, hliteral⟩
    obtain ⟨k, digits, hs, hne, hdigits⟩ := isDigit_lstrip_iff.mp hcheck
    refine ⟨k, digits, hs, hne, hdigits, ?_⟩
    by_contra hplain
    simp only [not_or, not_le, not_exists, not_and, Bool.not_eq_false] at hplain
    obtain ⟨hk, hascii⟩ := hplain
    obtain rfl | rfl : k = 0 ∨ k = 1 := by omega
    · exact hliteral _ ⟨digits, hne, hascii, .inl ⟨hs, rfl⟩⟩
    · exact hliteral _ ⟨digits, hne, hascii, .inr ⟨hs, rfl⟩⟩

theorem readDigits_ascii {digits : Str} (hne : digits ≠ []) (hascii : ∀ c ∈ digits, c.isDigit = true) :
    readDigits digits = some (asciiValue digits : Int) := by
  have hall : digits.all Char.isDigit = true := List.all_eq_true.mpr hascii
  simp [readDigits, hne, hall]

theorem readDigits_other {digits : Str} (h : ¬ (digits ≠ [] ∧ ∀ c ∈ digits, c.isDigit = true)) :
    readDigits digits = none := by
  refine if_neg fun hall => h ?_
  simpa using hall

theorem readInt_reads : ReadsIntegers readInt where
  accepts := by
    rintro s n ⟨digits, hne, hascii, ⟨hs, rfl⟩ | ⟨hs, rfl⟩⟩
    · rw [readInt, hs]
      split
      next => exact nomatch hascii '-' (by simp)
      next => exact readDigits_ascii hne hascii
    · rw [readInt, hs]
      simp only [readDigits_ascii hne hascii, Option.map_some]
  rejects := by
    intro s _ hliteral
    rw [readInt]
    split
    next digits hs =>
      rw [readDigits_other fun h => hliteral _ ⟨digits, h.1, h.2, .inr ⟨hs, rfl⟩⟩, Option.map_none]
    next =>
      exact readDigits_other fun h => hliteral _ ⟨strip s, h.1, h.2, .inl ⟨rfl, rfl⟩⟩

section
variable {parseInt : Str → Option Int}

theorem vkGroupId_placeholder {s : Str} (h : isDigit (lstripChar '-' (strip s)) = false) :
    vkGroupId parseInt (.str s) = some 0 := by
  rw [vkGroupId, treatPlaceholderGroupIdAsUnset, h]
  rfl

theorem vkGroupId_number {s : Str} (h : isDigit (lstripChar '-' (strip s)) = true) :
    vkGroupId parseInt (.str s) = parseInt s := by
  rw [vkGroupId, treatPlaceholderGroupIdAsUnset, h]
  rfl

theorem isGroupConfigured_zero (screenName : Str) : isGroupConfigured screenName 0 = false := by
  simp [isGroupConfigured]

/-- The setting is read as promised unless its text is made of stray digits. -/
theorem groupIdRead_iff (hparse : ReadsIntegers parseInt) (s : Str) :
    GroupIdRead parseInt s ↔ ¬ StrayDigits (strip s) := by
  rw [strayDigits_iff]
  cases hcheck : isDigit (lstripChar '-' (strip s)) with
  | false =>
    have hliteral : ∀ m, ¬ IntLiteral (strip s) m := fun m hm => nomatch hcheck.symm.trans hm.isDigit
    refine iff_of_true ⟨0, vkGroupId_placeholder hcheck, fun m hm => (hliteral m hm).elim, fun _ => ?_⟩ ?_
    · exact ⟨rfl, isGroupConfigured_zero⟩
    · simp
  | true =>
    rw [GroupIdRead, vkGroupId_number hcheck]
    by_cases hliteral : ∃ m, IntLiteral (strip s) m
    · obtain ⟨n, hn⟩ := hliteral
      refine iff_of_true ⟨n, hparse.accepts hn, fun m hm => ?_, fun hnone => (hnone n hn).elim⟩
        fun hstray => hstray.2 n hn
      exact Option.some.inj ((hparse.accepts hn).symm.trans (hparse.accepts hm))
    · have hnone := not_exists.mp hliteral
      have hshape : ∀ c ∈ strip s, c = '-' ∨ isDigitChar c = true := by
        obtain ⟨k, digits, hs, -, hdigits⟩ := isDigit_lstrip_iff.mp hcheck
        intro c hc
        rw [hs, List.mem_append, List.mem_replicate] at hc
        exact hc.imp And.right (hdigits c)
      refine iff_of_false ?_ fun hstray => hstray ⟨rfl, hnone⟩
      rintro ⟨n, hread, -⟩
      rw [hparse.rejects hshape hnone] at hread
      cases hread

end

theorem groupIdRead_number : GroupIdRead readInt " -225\n".toList := by
  have hliteral : IntLiteral (strip " -225\n".toList) (-225) :=
    ⟨"225".toList, by decide, List.all_eq_true.mp (by decide), .inr ⟨by decide, by decide⟩⟩
  exact (groupIdRead_iff readInt_reads _).mpr fun hstray => (strayDigits_iff.mp hstray).2 _ hliteral

/-- Two minus signs, or a superscript digit, pass the check and stop the service. -/
theorem groupId_stops_service :
    ¬ (∀ parseInt, ReadsIntegers parseInt → ∀ s, GroupIdRead parseInt s) ∧
      vkGroupId readInt (.str "--5".toList) = none ∧ vkGroupId readInt (.str "²".toList) = none := by
  have hminus : vkGroupId readInt (.str "--5".toList) = none := by decide +kernel
  refine ⟨fun hread => ?_, hminus, by decide +kernel⟩
  obtain ⟨n, hn, -⟩ := hread readInt readInt_reads "--5".toList
  exact nomatch hminus.symm.trans hn

end VkService
