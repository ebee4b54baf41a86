import Mathlib.Data.List.TakeWhile
import VkService.Text.UnicodeCase

/-! Python strings as lists of code points: `strip`, `split`, `upper` and `casefold`. -/
namespace PyStr

abbrev Str := List Char

/-- The code points for which `str.isspace` holds. -/
def spaces : List Nat :=
  [9, 10, 11, 12, 13, 28, 29, 30, 31, 32, 133, 160, 5760, 8192, 8193, 8194, 8195, 8196, 8197, 8198,
   8199, 8200, 8201, 8202, 8232, 8233, 8239, 8287, 12288]

def isSpace (c : Char) : Bool := spaces.contains c.toNat

def lstrip (s : Str) : Str := s.dropWhile isSpace

def strip (s : Str) : Str := (lstrip (lstrip s).reverse).reverse

/-- `str.split` without a separator: the maximal runs of non-space characters. -/
def split (s : Str) : List Str := (s.splitOnP isSpace).filter (!·.isEmpty)

def upperChar (c : Char) : Str := (caseMap upperSpecial upperRuns c.toNat).map Char.ofNat

def casefoldChar (c : Char) : Str := (caseMap casefoldSpecial casefoldRuns c.toNat).map Char.ofNat

def upper (s : Str) : Str := s.flatMap upperChar

def casefold (s : Str) : Str := s.flatMap casefoldChar

def lowerChar (c : Char) : Str := (caseMap lowerSpecial lowerRuns c.toNat).map Char.ofNat

/-- `str.lower` of what follows `before`, which is given in reverse. A capital sigma is a final
one by the rule of Unicode about the text before and after it; the rule is a parameter. -/
def lowerAfter (finalSigma : Str → Str → Bool) (before : Str) : Str → Str
  | [] => []
  | c :: s =>
    (if c = 'Σ' then [if finalSigma before s then 'ς' else 'σ'] else lowerChar c) ++ lowerAfter finalSigma
    (c :: before) s

def lower (finalSigma : Str → Str → Bool) (s : Str) : Str := lowerAfter finalSigma [] s

/-- `str.replace` of one character. -/
def replaceChar (old new : Char) (s : Str) : Str := s.map fun c => if c = old then new else c

/-- A non-empty run without spaces. -/
structure IsToken (w : Str) : Prop where
  nonempty : w ≠ []
  noSpace : ∀ c ∈ w, isSpace c = false

theorem isToken_of_check {w : Str} (h : (!w.isEmpty && w.all fun c => !isSpace c) = true) : IsToken w := by
  simp only [Bool.and_eq_true, Bool.not_eq_eq_eq_not, Bool.not_true, List.isEmpty_eq_false_iff, List.all_eq_true] at h
  exact ⟨h.1, h.2⟩

theorem lstrip_eq_self {s : Str} (h : ∀ c ∈ s.head?, isSpace c = false) : lstrip s = s := by
  cases s with
  | nil => rfl
  | cons c s => simp [lstrip, h c (by simp)]

/-- Text that begins and ends with a non-space is not changed. -/
theorem strip_eq_self {s : Str} (hfirst : ∀ c ∈ s.head?, isSpace c = false)
    (hlast : ∀ c ∈ s.getLast?, isSpace c = false) : strip s = s := by
  rw [strip, lstrip_eq_self hfirst, lstrip_eq_self (by simpa using hlast), List.reverse_reverse]

theorem split_nil : split [] = [] := rfl

theorem split_token {w : Str} (h : IsToken w) : split w = [w] := by
  rw [split, List.splitOnP_eq_singleton h.noSpace]
  simp [h.nonempty]

/-- A space separates: the words before it and the words after it. -/
theorem split_append_space {sep : Char} (hsep : isSpace sep = true) (s rest : Str) :
    split (s ++ sep :: rest) = split s ++ split rest := by
  rw [split, List.splitOnP_append_cons _ _ hsep, List.filter_append]
  rfl

theorem split_token_append {w : Str} (h : IsToken w) {sep : Char} (hsep : isSpace sep = true) (rest : Str) :
    split (w ++ sep :: rest) = w :: split rest := by
  rw [split_append_space hsep, split_token h, List.singleton_append]

theorem split_space_cons {sep : Char} (hsep : isSpace sep = true) (rest : Str) :
    split (sep :: rest) = split rest :=
  split_append_space hsep [] rest

theorem split_spaces_append {ws : Str} (h : ∀ c ∈ ws, isSpace c = true) (rest : Str) :
    split (ws ++ rest) = split rest := by
  induction ws with
  | nil => rfl
  | cons c ws ih =>
    rw [List.cons_append, split_space_cons (h c (by simp))]
    exact ih fun c hc => h c (by simp [hc])

theorem split_append_spaces {ws : Str} (h : ∀ c ∈ ws, isSpace c = true) (s : Str) : split (s ++ ws) = split s := by
  cases ws with
  | nil => rw [List.append_nil]
  | cons c ws =>
    have hrest : split ws = [] := by
      have := split_spaces_append (fun c hc => h c (List.mem_cons_of_mem _ hc)) []
      rwa [List.append_nil] at this
    rw [split_append_space (h c (by simp)), hrest, List.append_nil]

theorem lstrip_spec (s : Str) : ∃ lead, (∀ c ∈ lead, isSpace c = true) ∧ s = lead ++ lstrip s :=
  ⟨s.takeWhile isSpace, fun _ hc => List.mem_takeWhile_imp hc, List.takeWhile_append_dropWhile.symm⟩

/-- `strip` takes white space from both ends, and nothing else. -/
theorem strip_spec (s : Str) : ∃ lead tail, (∀ c ∈ lead, isSpace c = true) ∧ (∀ c ∈ tail, isSpace c = true) ∧
    s = lead ++ strip s ++ tail := by
  obtain ⟨lead, hlead, hs⟩ := lstrip_spec s
  obtain ⟨tail, htail, hrev⟩ := lstrip_spec (lstrip s).reverse
  refine ⟨lead, tail.reverse, hlead, fun c hc => htail c (List.mem_reverse.mp hc), ?_⟩
  rw [strip, List.append_assoc, ← List.reverse_append, ← hrev, List.reverse_reverse]
  exact hs

theorem split_strip (s : Str) : split (strip s) = split s := by
  obtain ⟨lead, tail, hlead, htail, hs⟩ := strip_spec s
  have hsplit := congrArg split hs
  rw [split_append_spaces htail, split_spaces_append hlead] at hsplit
  exact hsplit.symm

/-- The words of a text: maximal runs without spaces, and only spaces between them. -/
inductive Words : Str → List Str → Prop
  | blank {text : Str} (h : ∀ c ∈ text, isSpace c = true) : Words text []
  | word {lead w rest : Str} {words : List Str} (hlead : ∀ c ∈ lead, isSpace c = true) (hw : IsToken w)
      (hrest : ∀ c ∈ rest.head?, isSpace c = true) (h : Words rest words) : Words (lead ++ w ++ rest) (w :: words)

theorem split_token_rest {w rest : Str} (hw : IsToken w) (hrest : ∀ c ∈ rest.head?, isSpace c = true) :
    split (w ++ rest) = w :: split rest := by
  cases rest with
  | nil => rw [List.append_nil, split_token hw, split_nil]
  | cons sep rest =>
    have hsep := hrest sep rfl
    rw [split_token_append hw hsep, split_space_cons hsep]

theorem Words.eq_split {text : Str} {words : List Str} (h : Words text words) : words = split text := by
  induction h with
  | @blank text h =>
    have := split_spaces_append h []
    rwa [List.append_nil, split_nil, eq_comm] at this
  | word hlead hw hrest _ ih => rw [List.append_assoc, split_spaces_append hlead, split_token_rest hw hrest, ih]

theorem Words.space_cons {c : Char} (hc : isSpace c = true) {text : Str} {words : List Str} (h : Words text words) :
    Words (c :: text) words := by
  cases h with
  | blank h => exact .blank (List.forall_mem_cons.mpr ⟨hc, h⟩)
  | word hlead hw hrest h => exact .word (List.forall_mem_cons.mpr ⟨hc, hlead⟩) hw hrest h

/-- `w` is the part of the current word that has been read. -/
private theorem words_split_from (text w : Str) (hw : ∀ c ∈ w, isSpace c = false) :
    Words (w ++ text) (split (w ++ text)) := by
  induction text generalizing w with
  | nil =>
    rw [List.append_nil]
    by_cases hnil : w = []
    · rw [hnil, split_nil]
      exact .blank fun _ hc => nomatch hc
    · have htoken : IsToken w := ⟨hnil, hw⟩
      rw [split_token htoken]
      have hword : Words ([] ++ w ++ []) [w] := .word (by simp) htoken (by simp) (.blank (by simp))
      rwa [List.nil_append, List.append_nil] at hword
  | cons c text ih =>
    cases hc : isSpace c with
    | false =>
      rw [List.append_cons]
      refine ih (w ++ [c]) fun x hx => ?_
      obtain hx | hx := List.mem_append.mp hx
      · exact hw x hx
      · rwa [List.mem_singleton.mp hx]
    | true =>
      have hrest : Words (c :: text) (split text) := (ih [] (fun _ hx => nomatch hx)).space_cons hc
      by_cases hnil : w = []
      · rwa [hnil, List.nil_append, split_space_cons hc]
      · have htoken : IsToken w := ⟨hnil, hw⟩
        rw [split_token_append htoken hc]
        have hword : Words ([] ++ w ++ c :: text) (w :: split text) := .word (by simp) htoken (by simpa using hc) hrest
        rwa [List.nil_append] at hword

/-- Every text has its words. -/
theorem words_split (text : Str) : Words text (split text) :=
  words_split_from text [] fun _ hc => nomatch hc

theorem words_iff {text : Str} {words : List Str} : Words text words ↔ words = split text :=
  ⟨Words.eq_split, fun h => h ▸ words_split text⟩

theorem Words.isToken {text : Str} {words : List Str} (h : Words text words) : ∀ w ∈ words, IsToken w := by
  induction h with
  | blank => exact fun _ hw => nomatch hw
  | word _ hw _ _ ih => exact List.forall_mem_cons.mpr ⟨hw, ih⟩

private theorem upper_table : ∀ n < 128,
    (caseMap upperSpecial upperRuns n).map Char.ofNat = [(Char.ofNat n).toUpper] := by
  decide +kernel

/-- On ASCII, `upper` is the ASCII upper case. -/
theorem upperChar_ascii {c : Char} (h : c.toNat < 128) : upperChar c = [c.toUpper] := by
  have ht := upper_table c.toNat h
  rwa [Char.ofNat_toNat] at ht

theorem upper_ascii {s : Str} (h : ∀ c ∈ s, c.toNat < 128) : upper s = s.map Char.toUpper := by
  induction s with
  | nil => rfl
  | cons c s ih =>
    rw [upper, List.flatMap_cons, upperChar_ascii (h c (by simp)), List.map_cons]
    exact congrArg (c.toUpper :: ·) (ih fun c hc => h c (by simp [hc]))

end PyStr
