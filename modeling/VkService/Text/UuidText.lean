import Mathlib.Algebra.Order.Group.Nat
import Mathlib.Algebra.Ring.Int.Defs
import VkService.Text.PythonStr

/-! UUIDs as text: `str` of one, and what the constructor `UUID` reads. The constructor leaves
the number to `int(text, 16)`, which reads more than hexadecimal digits. -/
namespace PyStr

/-- The zero of each run of ten decimal digits in Unicode 16. -/
def decimalZeros : List Nat :=
  [48, 1632, 1776, 1984, 2406, 2534, 2662, 2790, 2918, 3046, 3174, 3302, 3430, 3558, 3664, 3792, 3872,
   4160, 4240, 6112, 6160, 6470, 6608, 6784, 6800, 6992, 7088, 7232, 7248, 42528, 43216, 43264, 43472,
   43504, 43600, 44016, 65296, 66720, 68912, 68928, 69734, 69872, 69942, 70096, 70384, 70736, 70864,
   71248, 71360, 71376, 71386, 71472, 71904, 72016, 72688, 72784, 73040, 73120, 73552, 90416, 92768,
   92864, 93008, 93552, 118000, 120782, 120792, 120802, 120812, 120822, 123200, 123632, 124144, 124401,
   125264, 130032]

/-- A decimal digit of any script as the ASCII digit. -/
def asciiDigit (c : Char) : Char :=
  match decimalZeros.find? fun first => first ≤ c.toNat && c.toNat ≤ first + 9 with
  | some first => Char.ofNat ('0'.toNat + (c.toNat - first))
  | none => c

def hexValue (c : Char) : Option Nat :=
  if '0' ≤ c ∧ c ≤ '9' then some (c.toNat - '0'.toNat)
  else if 'a' ≤ c ∧ c ≤ 'f' then some (c.toNat - 'a'.toNat + 10)
  else if 'A' ≤ c ∧ c ≤ 'F' then some (c.toNat - 'A'.toNat + 10)
  else none

/-- Digits with single underscores between them. -/
def hexNat (read : Nat) (afterDigit : Bool) : Str → Option Nat
  | [] => if afterDigit then some read else none
  | c :: s =>
    if c = '_' then if afterDigit then hexNat read false s else none
    else (hexValue c).bind fun d => hexNat (16 * read + d) true s

/-- The prefix `0x`, and one underscore after it. -/
def dropHexPrefix : Str → Str
  | '0' :: x :: s =>
    if x = 'x' ∨ x = 'X' then
      match s with
      | '_' :: s => s
      | s => s
    else '0' :: x :: s
  | s => s

/-- What `int` skips around a number. The separators U+001C to U+001F are spaces for `str.isspace`
but not for `int`. -/
def isIntSpace (c : Char) : Bool := isSpace c && !(28 ≤ c.toNat && c.toNat ≤ 31)

def stripInt (s : Str) : Str := ((s.dropWhile isIntSpace).reverse.dropWhile isIntSpace).reverse

/-- `int(s, 16)`. -/
def hexInt (s : Str) : Option Int :=
  match (stripInt s).map asciiDigit with
  | '-' :: s => (hexNat 0 false (dropHexPrefix s)).map fun n => -(n : Int)
  | '+' :: s => (hexNat 0 false (dropHexPrefix s)).map Int.ofNat
  | s => (hexNat 0 false (dropHexPrefix s)).map Int.ofNat

/-- `str.replace` of a text by nothing; `skip` characters belong to an occurrence already found. -/
def removeText (text : Str) (skip : Nat) : Str → Str
  | [] => []
  | c :: s =>
    match skip with
    | skip + 1 => removeText text skip s
    | 0 => if text.isPrefixOf (c :: s) then removeText text (text.length - 1) s else c :: removeText text 0 s

def stripChars (chars : Str) (s : Str) : Str :=
  ((s.dropWhile chars.contains).reverse.dropWhile chars.contains).reverse

/-- The constructor `UUID` on a text. -/
def readUuid (s : Str) : Option Nat :=
  let hex := removeText "uuid:".toList 0 (removeText "urn:".toList 0 s)
  let hex := (stripChars "{}".toList hex).filter (· ≠ '-')
  if hex.length ≠ 32 then none
  else
    match hexInt hex with
    | some n => if 0 ≤ n ∧ n < 2 ^ 128 then some n.toNat else none
    | none => none

theorem readUuid_lt {s : Str} {n : Nat} (h : readUuid s = some n) : n < 2 ^ 128 := by
  unfold readUuid at h
  dsimp only at h
  split at h
  · cases h
  · split at h
    · rename_i m _
      split at h
      · rename_i hm
        obtain rfl := Option.some.inj h
        omega
      · cases h
    · cases h

def hexDigit (d : Nat) : Char := if d < 10 then Char.ofNat (48 + d) else Char.ofNat (87 + d)

/-- The last `k` hexadecimal digits of a number. -/
def hexDigits : (k : Nat) → Nat → Str
  | 0, _ => []
  | k + 1, n => hexDigits k (n / 16) ++ [hexDigit (n % 16)]

/-- `str` of a UUID: the digits in groups of 8, 4, 4, 4 and 12. -/
def uuidText (n : Nat) : Str :=
  let hex := hexDigits 32 n
  hex.take 8 ++ '-' :: (hex.drop 8).take 4 ++ '-' :: (hex.drop 12).take 4 ++ '-' :: (hex.drop 16).take 4 ++
    '-' :: hex.drop 20

@[simp] theorem length_hexDigits (k n : Nat) : (hexDigits k n).length = k := by
  induction k generalizing n with
  | zero => rfl
  | succ k ih => rw [hexDigits, List.length_append, ih, List.length_singleton]

theorem length_uuidText (n : Nat) : (uuidText n).length = 36 := by
  simp [uuidText]

private theorem hexDigit_table : ∀ d < 16, hexValue (hexDigit d) = some d ∧ isIntSpace (hexDigit d) = false ∧
    asciiDigit (hexDigit d) = hexDigit d ∧ hexDigit d ∉ "_-+xXu{}".toList := by
  decide

theorem mem_hexDigits {k n : Nat} {c : Char} (h : c ∈ hexDigits k n) : ∃ d < 16, c = hexDigit d := by
  induction k generalizing n with
  | zero => cases h
  | succ k ih =>
    obtain h | h := List.mem_append.mp h
    · exact ih h
    · exact ⟨n % 16, Nat.mod_lt _ (by decide), List.mem_singleton.mp h⟩

theorem not_mem_hexDigits {k n : Nat} {c : Char} (h : c ∈ "_-+xXu{}".toList) : c ∉ hexDigits k n := by
  intro hmem
  obtain ⟨d, hd, rfl⟩ := mem_hexDigits hmem
  exact (hexDigit_table d hd).2.2.2 h

/-- Reading goes through the digits of a number. -/
theorem hexNat_hexDigits {k n : Nat} (h : n < 16 ^ k) (read : Nat) (afterDigit : Bool) (s : Str) :
    hexNat read afterDigit (hexDigits k n ++ s) = hexNat (16 ^ k * read + n) (afterDigit || decide (0 < k)) s := by
  induction k generalizing n s with
  | zero =>
    obtain rfl : n = 0 := by omega
    simp [hexDigits]
  | succ k ih =>
    have hmod : n % 16 < 16 := Nat.mod_lt _ (by decide)
    obtain ⟨hvalue, -, -, hplain⟩ := hexDigit_table _ hmod
    have hunderscore : hexDigit (n % 16) ≠ '_' := fun heq => hplain (heq ▸ by decide)
    have hdiv : n / 16 < 16 ^ k := by
      rw [pow_succ] at h
      omega
    have hread : 16 * (16 ^ k * read + n / 16) + n % 16 = 16 ^ (k + 1) * read + n := by
      rw [pow_succ, Nat.mul_comm (16 ^ k) 16, Nat.mul_assoc]
      omega
    rw [hexDigits, List.append_assoc, ih hdiv, List.singleton_append, hexNat, if_neg hunderscore, hvalue,
      Option.bind_some, hread]
    simp

theorem hexNat_uuid {n : Nat} (h : n < 2 ^ 128) : hexNat 0 false (hexDigits 32 n) = some n := by
  have hread := hexNat_hexDigits (k := 32) h 0 false []
  rw [List.append_nil] at hread
  rw [hread]
  simp [hexNat]

private theorem filter_hex {n : Nat} {s : Str} (h : ∀ c ∈ s, c ∈ hexDigits 32 n) : s.filter (· ≠ '-') = s :=
  List.filter_eq_self.mpr fun c hc => decide_eq_true fun heq => not_mem_hexDigits (by decide) (heq ▸ h c hc)

/-- The digits of the text without its hyphens. -/
theorem filter_uuidText (n : Nat) : (uuidText n).filter (· ≠ '-') = hexDigits 32 n := by
  have htake : ∀ i j, ((hexDigits 32 n).drop i |>.take j).filter (· ≠ '-') = ((hexDigits 32 n).drop i).take j :=
    fun i j => filter_hex fun c hc => List.mem_of_mem_drop (List.mem_of_mem_take hc)
  have hfirst := htake 0 8
  rw [List.drop_zero] at hfirst
  have hlast : ((hexDigits 32 n).drop 20).filter (· ≠ '-') = (hexDigits 32 n).drop 20 :=
    filter_hex fun c hc => List.mem_of_mem_drop hc
  simp only [uuidText, List.filter_append, List.cons_append, List.append_assoc, List.filter_cons, hfirst, htake, hlast,
    ne_eq, not_true_eq_false, decide_false, Bool.false_eq_true, ↓reduceIte]
  have hjoin : ∀ i j, ((hexDigits 32 n).drop i).take j ++ (hexDigits 32 n).drop (i + j) = (hexDigits 32 n).drop i := by
    intro i j
    rw [← List.drop_drop, List.take_append_drop]
  rw [hjoin 16 4, hjoin 12 4, hjoin 8 4, List.take_append_drop]

theorem uuidText_inj {m n : Nat} (hm : m < 2 ^ 128) (hn : n < 2 ^ 128) (h : uuidText m = uuidText n) : m = n := by
  have hdigits : hexDigits 32 m = hexDigits 32 n := by
    rw [← filter_uuidText, h, filter_uuidText]
  have hread := hexNat_uuid hm
  rw [hdigits, hexNat_uuid hn] at hread
  exact (Option.some.inj hread).symm

theorem removeText_of_not_mem {x : Char} {text s : Str} (h : x ∉ s) : removeText (x :: text) 0 s = s := by
  induction s with
  | nil => rfl
  | cons c s ih =>
    obtain ⟨hc, hs⟩ : x ≠ c ∧ x ∉ s := by simpa using h
    have hprefix : (x :: text).isPrefixOf (c :: s) = false := by
      simp [List.isPrefixOf, hc]
    rw [removeText, hprefix, ih hs]
    rfl

/-- Nothing is stripped from a text without such characters. -/
theorem stripped_eq_self {p : Char → Bool} {s : Str} (h : ∀ c ∈ s, p c = false) :
    ((s.dropWhile p).reverse.dropWhile p).reverse = s := by
  have hdrop : ∀ t : Str, (∀ c ∈ t, p c = false) → t.dropWhile p = t := by
    intro t ht
    cases t with
    | nil => rfl
    | cons c t => exact List.dropWhile_cons_of_neg (by simp [ht c List.mem_cons_self])
  rw [hdrop s h, hdrop _ fun c hc => h c (List.mem_reverse.mp hc), List.reverse_reverse]

theorem stripChars_of_not_mem {chars s : Str} (h : ∀ c ∈ s, c ∉ chars) : stripChars chars s = s :=
  stripped_eq_self fun c hc => by simpa using h c hc

theorem mem_uuidText {n : Nat} {c : Char} (h : c ∈ uuidText n) : c = '-' ∨ c ∈ hexDigits 32 n := by
  by_cases hc : c = '-'
  · exact .inl hc
  · rw [← filter_uuidText]
    exact .inr (List.mem_filter.mpr ⟨h, decide_eq_true hc⟩)

theorem dropHexPrefix_of_not_mem {s : Str} (hlower : 'x' ∉ s) (hupper : 'X' ∉ s) : dropHexPrefix s = s := by
  unfold dropHexPrefix
  split
  next x s =>
    refine if_neg ?_
    rintro (rfl | rfl)
    · exact hlower (by simp)
    · exact hupper (by simp)
  next => rfl

/-- A text of plain digits is read as such. -/
theorem hexInt_plain {s : Str} (hspace : ∀ c ∈ s, isIntSpace c = false) (hascii : ∀ c ∈ s, asciiDigit c = c)
    (hplain : ∀ c ∈ "-+xX".toList, c ∉ s) : hexInt s = (hexNat 0 false s).map Int.ofNat := by
  have hstrip : stripInt s = s := stripped_eq_self hspace
  have hmap : s.map asciiDigit = s := (List.map_congr_left hascii).trans (List.map_id _)
  rw [hexInt, hstrip, hmap]
  split
  next => exact (hplain '-' (by decide) (by simp)).elim
  next => exact (hplain '+' (by decide) (by simp)).elim
  next => rw [dropHexPrefix_of_not_mem (hplain 'x' (by decide)) (hplain 'X' (by decide))]

example : hexInt (Char.ofNat 28 :: "1f".toList) = none := by decide

theorem hexInt_hexDigits {n : Nat} (h : n < 2 ^ 128) : hexInt (hexDigits 32 n) = some (n : Int) := by
  have hplain : ∀ c ∈ "-+xX".toList, c ∉ hexDigits 32 n := fun c hc => not_mem_hexDigits
    (List.mem_cons_of_mem '_' (List.mem_append_left "u{}".toList hc))
  have htable : ∀ c ∈ hexDigits 32 n, isIntSpace c = false ∧ asciiDigit c = c := by
    intro c hc
    obtain ⟨d, hd, rfl⟩ := mem_hexDigits hc
    exact ⟨(hexDigit_table d hd).2.1, (hexDigit_table d hd).2.2.1⟩
  rw [hexInt_plain (fun c hc => (htable c hc).1) (fun c hc => (htable c hc).2) hplain, hexNat_uuid h]
  rfl

/-- What `str` writes is read back. -/
theorem readUuid_uuidText {n : Nat} (h : n < 2 ^ 128) : readUuid (uuidText n) = some n := by
  have hplain : ∀ {x}, x ∈ "u{}".toList → x ∉ uuidText n := by
    intro x hx hmem
    obtain rfl | hmem := mem_uuidText hmem
    · exact absurd hx (by decide)
    · exact not_mem_hexDigits (List.mem_append_right "_-+xX".toList hx) hmem
  have hurn : removeText "urn:".toList 0 (uuidText n) = uuidText n := removeText_of_not_mem (hplain (by decide))
  have huuid : removeText "uuid:".toList 0 (uuidText n) = uuidText n := removeText_of_not_mem (hplain (by decide))
  have hbraces : stripChars "{}".toList (uuidText n) = uuidText n :=
    stripChars_of_not_mem fun c hc hmem => hplain (List.mem_cons_of_mem 'u' hmem) hc
  rw [readUuid, hurn, huuid, hbraces, filter_uuidText]
  simp only [length_hexDigits, ne_eq, not_true_eq_false, if_false, hexInt_hexDigits h]
  rw [if_pos (by omega), Int.toNat_natCast]

end PyStr
