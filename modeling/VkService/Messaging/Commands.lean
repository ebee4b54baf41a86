import VkService.Domain.Handlers

/-! The link command, as users are told to write it and as the bot reads it: the first word
of a message is the command, the second the code. -/
namespace VkService
open PyStr

section Read
variable {text link command : Str} {rest : List Str}

theorem parseLinkCommand_noWords (h : split text = []) : parseLinkCommand text link = none := by
  rw [parseLinkCommand, split_strip, h]
  exact ite_self none

/-- Only the words of a message matter. -/
theorem parseLinkCommand_words (h : split text = command :: rest) : parseLinkCommand text link =
    if casefold command ≠ casefold link then none else some (rest.head?.getD []) := by
  have hnonempty : (strip text).isEmpty = false := by
    rw [Bool.eq_false_iff]
    intro hempty
    rw [← split_strip, List.isEmpty_iff.mp hempty, split_nil] at h
    exact nomatch h
  rw [parseLinkCommand, split_strip, h, hnonempty]
  cases rest <;> rfl

end Read

section Written
variable {link command lead sep code tail : Str}

/-- A token after the command is read whatever stands around the two. -/
theorem parseLinkCommand_message (hcommand : IsToken command) (hfold : casefold command = casefold link)
    (hcode : IsToken code) (hlead : ∀ c ∈ lead, isSpace c = true) (hsep : ∀ c ∈ sep, isSpace c = true) (hne : sep ≠ [])
    (htail : ∀ c ∈ tail.head?, isSpace c = true) :
    parseLinkCommand (lead ++ command ++ sep ++ code ++ tail) link = some code := by
  have hrest : ∀ c ∈ (sep ++ (code ++ tail)).head?, isSpace c = true := by
    obtain ⟨c, sep, rfl⟩ := List.exists_cons_of_ne_nil hne
    intro x hx
    cases hx
    exact hsep c (by simp)
  have hsplit : split (lead ++ command ++ sep ++ code ++ tail) = command :: code :: split tail := by
    simp only [List.append_assoc]
    rw [split_spaces_append hlead, split_token_rest hcommand hrest, split_spaces_append hsep, split_token_rest hcode htail]
  rw [parseLinkCommand_words hsplit]
  exact if_neg (not_not_intro hfold)

/-- The command, white space and a token are read as the token. -/
theorem parseLinkCommand_plain (hlink : IsToken link) (hsep : ∀ c ∈ sep, isSpace c = true) (hne : sep ≠ [])
    (hcode : IsToken code) : parseLinkCommand (link ++ sep ++ code) link = some code := by
  have hread := @parseLinkCommand_message link link [] sep code [] hlink rfl hcode (by simp) hsep hne (by simp)
  rwa [List.nil_append, List.append_nil] at hread

private theorem codeAlphabet_ascii : ∀ c ∈ codeAlphabet, c.toNat < 128 ∧ isSpace c = false := by
  have hall : codeAlphabet.all (fun c => decide (c.toNat < 128) && !isSpace c) = true := by decide
  intro c hc
  simpa using List.all_eq_true.mp hall c hc

/-- A letter of a code in either case is an ASCII character and no space. -/
theorem typed_ascii {c : Char} (h : c.toUpper ∈ codeAlphabet) : c.toNat < 128 ∧ isSpace c = false := by
  by_cases hlower : c.val ≥ 'a'.val ∧ c.val ≤ 'z'.val
  · have hge : 97 ≤ c.toNat := hlower.1
    have hle : c.toNat ≤ 122 := hlower.2
    refine ⟨by omega, ?_⟩
    simp only [isSpace, spaces, List.contains_eq_mem, List.mem_cons, List.not_mem_nil, or_false, decide_eq_false_iff_not]
    omega
  · have hsame : c.toUpper = c := by
      unfold Char.toUpper
      exact dif_neg hlower
    rw [hsame] at h
    exact codeAlphabet_ascii c h

variable {typed : Str} (hne : code ≠ []) (hcode : ∀ c ∈ code, c ∈ codeAlphabet) (htyped : typed.map Char.toUpper = code)
include hcode htyped

theorem typed_letter {c : Char} (hc : c ∈ typed) : c.toNat < 128 ∧ isSpace c = false :=
  typed_ascii (hcode _ (htyped ▸ List.mem_map_of_mem hc))

include hne in
theorem typed_isToken : IsToken typed where
  nonempty := by
    rintro rfl
    exact hne htyped.symm
  noSpace _ hc := (typed_letter hcode htyped hc).2

/-- The case of the letters does not matter. -/
theorem normalizeCode_typed : normalizeCode typed = code := by
  have hspace : ∀ c ∈ typed, isSpace c = false := fun c hc => (typed_letter hcode htyped hc).2
  rw [normalizeCode, strip_eq_self (fun c hc => hspace c (List.mem_of_head? hc))
    (fun c hc => hspace c (List.mem_of_getLast? hc)),
    upper_ascii fun c hc => (typed_letter hcode htyped hc).1, htyped]

end Written

/-- What users are told to send is read as the code they got, and a message is read as its
first two words. -/
theorem parseLinkCommand_reads (link : Str) :
    (IsToken link → ∀ lead command sep code typed tail : Str,
      IsToken command → casefold command = casefold link →
      code ≠ [] → (∀ c ∈ code, c ∈ codeAlphabet) → typed.map Char.toUpper = code →
      (∀ c ∈ lead, isSpace c = true) → sep ≠ [] → (∀ c ∈ sep, isSpace c = true) →
      (∀ c ∈ tail.head?, isSpace c = true) →
      (parseLinkCommand (lead ++ command ++ sep ++ typed ++ tail) link).map normalizeCode = some code) ∧
    ∀ text : Str, ∃ words, (∀ words', Words text words' ↔ words' = words) ∧
      (parseLinkCommand text link = none ↔
        words = [] ∨ ∃ first rest, words = first :: rest ∧ casefold first ≠ casefold link) ∧
      (parseLinkCommand text link = some [] ↔ ∃ first, words = [first] ∧ casefold first = casefold link) ∧
      ∀ first second rest, words = first :: second :: rest → casefold first = casefold link →
        parseLinkCommand text link = some second ∧ IsToken second := by
  refine ⟨?_, fun text => ⟨split text, fun _ => words_iff, ?_⟩⟩
  · intro _ lead command sep code typed tail hcommand hfold hne hcode htyped hlead hsep hspaces htail
    rw [parseLinkCommand_message hcommand hfold (typed_isToken hne hcode htyped) hlead hspaces hsep htail,
      Option.map_some, normalizeCode_typed hcode htyped]
  · have htokens := (words_split text).isToken
    cases hwords : split text with
    | nil =>
      rw [parseLinkCommand_noWords hwords]
      simp
    | cons first rest =>
      rw [hwords] at htokens
      rw [parseLinkCommand_words hwords]
      by_cases hfold : casefold first = casefold link
      · cases rest with
        | nil => simp [hfold]
        | cons second rest =>
          have hsecond : IsToken second := htokens second (by simp)
          simp [hfold, hsecond, hsecond.nonempty]
      · have hother : ∀ first' second rest', first :: rest = first' :: second :: rest' →
            casefold first' ≠ casefold link := by
          intro first' second rest' hsame
          rwa [← (List.cons.inj hsame).1]
        simp only [hfold, ne_eq, not_false_eq_true, if_true, reduceCtorEq, false_iff, true_iff, not_exists, not_and]
        refine ⟨.inr ⟨first, rest, rfl, hfold⟩, fun first' hsame => ?_, fun first' second rest' hsame hfirst =>
          (hother first' second rest' hsame hfirst).elim⟩
        rwa [← (List.cons.inj hsame).1]

/-- A code in lower case behind the command in upper case, the command alone, and another command. -/
theorem parseLinkCommand_reads_texts :
    (parseLinkCommand " ПРИВЯЗАТЬ \tab2C вот".toList "привязать".toList).map normalizeCode = some "AB2C".toList ∧
    parseLinkCommand " Привязать\n".toList "привязать".toList = some [] ∧
    parseLinkCommand "привязка AB2C".toList "привязать".toList = none := by
  have hread := parseLinkCommand_reads "привязать".toList
  refine ⟨?_, ?_, ?_⟩
  · exact hread.1 (isToken_of_check (by decide +kernel)) " ".toList "ПРИВЯЗАТЬ".toList " \t".toList "AB2C".toList "ab2C".toList
      " вот".toList (isToken_of_check (by decide +kernel)) (by decide +kernel) (by decide)
      (fun _ hc => List.contains_iff_mem.mp (List.all_eq_true.mp (by decide +kernel) _ hc)) (by decide +kernel)
      (List.all_eq_true.mp (by decide +kernel)) (by decide) (List.all_eq_true.mp (by decide +kernel))
      ((Option.all_eq_true _ _).mp (by decide +kernel))
  · obtain ⟨words, hwords, -, halone, -⟩ := hread.2 " Привязать\n".toList
    exact halone.mpr ⟨"Привязать".toList, ((hwords _).mp (words_iff.mpr (by decide +kernel))).symm, by decide +kernel⟩
  · obtain ⟨words, hwords, hnone, -⟩ := hread.2 "привязка AB2C".toList
    exact hnone.mpr (.inr ⟨"привязка".toList, ["AB2C".toList], ((hwords _).mp (words_iff.mpr (by decide +kernel))).symm,
      by decide +kernel⟩)

end VkService
