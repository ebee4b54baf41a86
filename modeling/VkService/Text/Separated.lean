import Mathlib.Data.List.Basic
import VkService.Text.PythonStr

/-! Lists written in one text: items between separators, with white space around them. -/
namespace PyStr
variable {α β ε : Type}

/-- `[item.strip() for item in s.split(sep)]`. -/
def items (sep : Char) (s : Str) : List Str := (s.splitOn sep).map strip

/-- The same without the blank items. -/
def fields (sep : Char) (s : Str) : List Str := (items sep s).filter (!·.isEmpty)

/-- Read item after item; the first that has no value is reported. -/
def readItems (read : Str → Option α) : List Str → Except Str (List α)
  | [] => .ok []
  | item :: rest =>
    match read item with
    | none => .error item
    | some a => (readItems read rest).map (a :: ·)

section Items
variable {sep : Char} {s : Str}

/-- A text is cut where it was put together. -/
theorem items_intercalate {parts : List Str} (hne : parts ≠ []) (hsep : ∀ part ∈ parts, sep ∉ part) :
    items sep ([sep].intercalate parts) = parts.map strip := by
  rw [items, List.splitOn_intercalate sep hsep hne]

theorem fields_eq_nil : fields sep s = [] ↔ ∀ item ∈ items sep s, item = [] := by
  simp [fields]

end Items

section Read
variable {read : Str → Option α} {texts : List Str} {values : List α} {item : Str}

theorem readItems_ok : readItems read texts = .ok values ↔ texts.map read = values.map some := by
  induction texts generalizing values with
  | nil =>
    cases values with
    | nil => exact iff_of_true rfl rfl
    | cons a values => exact iff_of_false (fun h => by cases h) (fun h => by cases h)
  | cons text texts ih =>
    rw [readItems, List.map_cons]
    cases hread : read text with
    | none =>
      refine iff_of_false (fun h => by cases h) fun h => ?_
      cases values with
      | nil => cases h
      | cons a values => cases h
    | some a =>
      cases values with
      | nil =>
        refine iff_of_false (fun h => ?_) fun h => by cases h
        cases hrest : readItems read texts with
        | error e => simp [hrest, Except.map] at h
        | ok rest => simp [hrest, Except.map] at h
      | cons b values =>
        rw [List.map_cons, List.cons.injEq, Option.some.injEq, ← ih]
        cases hrest : readItems read texts with
        | error e => simp [Except.map]
        | ok rest => simp [Except.map]

/-- The reported item is the first one without a value. -/
theorem readItems_error : readItems read texts = .error item ↔
    ∃ before after, texts = before ++ item :: after ∧ read item = none ∧ ∀ text ∈ before, read text ≠ none := by
  induction texts with
  | nil => simp [readItems]
  | cons text texts ih =>
    rw [readItems]
    cases hread : read text with
    | none =>
      constructor
      · intro h
        obtain rfl : text = item := by simpa using h
        exact ⟨[], texts, rfl, hread, by simp⟩
      · rintro ⟨before, after, htexts, hnone, hbefore⟩
        cases before with
        | nil => simp_all
        | cons first before =>
          obtain ⟨rfl, -⟩ := List.cons.inj htexts
          exact absurd hread (hbefore _ (by simp))
    | some a =>
      have hrest : ((readItems read texts).map (a :: ·)) = .error item ↔ readItems read texts = .error item := by
        cases readItems read texts <;> simp [Except.map]
      rw [hrest, ih]
      constructor
      · rintro ⟨before, after, rfl, hnone, hbefore⟩
        exact ⟨text :: before, after, rfl, hnone, by simpa [hread] using hbefore⟩
      · rintro ⟨before, after, htexts, hnone, hbefore⟩
        cases before with
        | nil => simp_all
        | cons first before =>
          obtain ⟨-, rfl⟩ := List.cons.inj htexts
          exact ⟨before, after, rfl, hnone, fun text' h => hbefore text' (by simp [h])⟩

end Read
end PyStr
