import VkService.Text.PythonStr

/-! What is sent to the error monitoring: the event with its bodies dropped and its secrets
replaced, at any depth. -/
namespace VkService
open PyStr

/-- A tree of dictionaries with string keys, lists and scalars. -/
inductive Value (α : Type) where
  | str (s : Str)
  | scalar (a : α)
  | list (items : List (Value α))
  | dict (entries : List (Str × Value α))

def sensitiveKeys : List Str :=
  ["authorization", "cookie", "cookies", "service_key", "service-key", "x-service-key", "password",
    "postgres_password", "vk_group_token", "dsn"].map String.toList

def droppedKeys : List Str := ["data", "body"].map String.toList

def filtered : Str := "[Filtered]".toList

section Keys
variable (finalSigma : Str → Str → Bool)

def isSensitive (key : Str) : Bool :=
  (sensitiveKeys.map (replaceChar '-' '_')).contains (replaceChar '-' '_' (lower finalSigma key))

def isDropped (key : Str) : Bool := droppedKeys.contains (lower finalSigma key)

end Keys

variable {α : Type}

mutual
/-- `_sanitize`. -/
def sanitize (finalSigma : Str → Str → Bool) : Value α → Value α
  | .dict entries => .dict (sanitizeEntries finalSigma entries)
  | .list items => .list (sanitizeItems finalSigma items)
  | .str s => .str s
  | .scalar a => .scalar a

def sanitizeItems (finalSigma : Str → Str → Bool) : List (Value α) → List (Value α)
  | [] => []
  | item :: items => sanitize finalSigma item :: sanitizeItems finalSigma items

def sanitizeEntries (finalSigma : Str → Str → Bool) : List (Str × Value α) → List (Str × Value α)
  | [] => []
  | (key, item) :: entries =>
    if isDropped finalSigma key then sanitizeEntries finalSigma entries
    else (key, if isSensitive finalSigma key then .str filtered else sanitize finalSigma item) ::
      sanitizeEntries finalSigma entries
end

/-- Induction over a tree, from the values in a list or a dictionary to the whole. -/
@[elab_as_elim]
theorem Value.induct {motive : Value α → Prop} (str : ∀ s, motive (.str s)) (scalar : ∀ a, motive (.scalar a))
    (list : ∀ items, (∀ item ∈ items, motive item) → motive (.list items))
    (dict : ∀ entries, (∀ e ∈ entries, motive e.2) → motive (.dict entries)) (v : Value α) : motive v :=
  @Value.rec α motive (fun items => ∀ item ∈ items, motive item) (fun entries => ∀ e ∈ entries, motive e.2) (motive ·.2)
    str scalar list dict (fun _ h => nomatch h) (fun _ _ hitem hitems => List.forall_mem_cons.mpr ⟨hitem, hitems⟩)
    (fun _ h => nomatch h) (fun _ _ hentry hentries => List.forall_mem_cons.mpr ⟨hentry, hentries⟩) (fun _ _ h => h) v

variable {finalSigma : Str → Str → Bool}

/-- What an entry that is kept becomes. -/
def sanitizeEntry (finalSigma : Str → Str → Bool) (e : Str × Value α) : Str × Value α :=
  (e.1, if isSensitive finalSigma e.1 then .str filtered else sanitize finalSigma e.2)

theorem sanitizeItems_eq (items : List (Value α)) :
    sanitizeItems finalSigma items = items.map (sanitize finalSigma) := by
  induction items with
  | nil => rfl
  | cons item items ih => rw [sanitizeItems, ih, List.map_cons]

theorem sanitizeEntries_eq (entries : List (Str × Value α)) : sanitizeEntries finalSigma entries =
    (entries.filter (!isDropped finalSigma ·.1)).map (sanitizeEntry finalSigma) := by
  induction entries with
  | nil => rfl
  | cons e entries ih =>
    rw [sanitizeEntries, ih]
    by_cases h : isDropped finalSigma e.1 = true
    · rw [if_pos h, List.filter_cons_of_neg (by simp [h])]
    · rw [if_neg h, List.filter_cons_of_pos (by simp [h])]
      rfl

theorem mem_sanitizeEntries {entries : List (Str × Value α)} {key : Str} {w : Value α} :
    (key, w) ∈ sanitizeEntries finalSigma entries ↔ isDropped finalSigma key = false ∧ ∃ item, (key, item) ∈ entries ∧
      w = if isSensitive finalSigma key then .str filtered else sanitize finalSigma item := by
  rw [sanitizeEntries_eq, List.mem_map]
  constructor
  · rintro ⟨⟨key, item⟩, he, heq⟩
    obtain ⟨rfl, rfl⟩ := Prod.mk.inj heq
    rw [List.mem_filter, Bool.not_eq_true'] at he
    exact ⟨he.2, item, he.1, rfl⟩
  · rintro ⟨hkept, item, he, rfl⟩
    refine ⟨(key, item), List.mem_filter.mpr ⟨he, ?_⟩, rfl⟩
    rw [hkept]
    rfl

theorem map_fst_sanitizeEntries (entries : List (Str × Value α)) : (sanitizeEntries finalSigma entries).map Prod.fst =
    (entries.map Prod.fst).filter (!isDropped finalSigma ·) := by
  rw [sanitizeEntries_eq, List.map_map, List.filter_map]
  rfl

theorem sanitize_sanitize (v : Value α) : sanitize finalSigma (sanitize finalSigma v) = sanitize finalSigma v := by
  induction v using Value.induct with
  | str s => rfl
  | scalar a => rfl
  | list items ih =>
    simp only [sanitize, sanitizeItems_eq, List.map_map]
    exact congrArg Value.list (List.map_congr_left ih)
  | dict entries ih =>
    simp only [sanitize]
    refine congrArg Value.dict ?_
    induction entries with
    | nil => rfl
    | cons e entries ihe =>
      have hrest := ihe fun e' he' => ih e' (List.mem_cons_of_mem _ he')
      by_cases hdropped : isDropped finalSigma e.1 = true
      · rw [sanitizeEntries, if_pos hdropped, hrest]
      · rw [sanitizeEntries, if_neg hdropped, sanitizeEntries, if_neg hdropped, hrest]
        by_cases hsensitive : isSensitive finalSigma e.1 = true
        · simp only [if_pos hsensitive]
        · simp only [if_neg hsensitive, ih e (by simp)]

/-! Places in a tree -/

inductive Place where
  | key (key : Str)
  | index (i : Nat)

/-- The value at a path of keys and positions. -/
inductive At : Value α → List Place → Value α → Prop
  | here (v : Value α) : At v [] v
  | key {entries : List (Str × Value α)} {key : Str} {item v : Value α} {path : List Place}
      (hentry : (key, item) ∈ entries) (h : At item path v) : At (.dict entries) (.key key :: path) v
  | index {items : List (Value α)} {i : Nat} {item v : Value α} {path : List Place}
      (hitem : items[i]? = some item) (h : At item path v) : At (.list items) (.index i :: path) v

theorem At.eq_of_nil {t v : Value α} (h : At t [] v) : v = t := by
  cases h
  rfl

theorem At.of_str {s : Str} {v : Value α} {path : List Place} (h : At (.str s) path v) : path = [] ∧ v = .str s := by
  cases h
  exact ⟨rfl, rfl⟩

/-- No key on the path is sensitive or dropped. -/
def Visible (finalSigma : Str → Str → Bool) (path : List Place) : Prop :=
  ∀ key, .key key ∈ path → isSensitive finalSigma key = false ∧ isDropped finalSigma key = false

mutual
/-- Trees that differ only below sensitive or dropped keys. -/
inductive ShownAlike (finalSigma : Str → Str → Bool) : Value α → Value α → Prop
  | str (s : Str) : ShownAlike finalSigma (.str s) (.str s)
  | scalar (a : α) : ShownAlike finalSigma (.scalar a) (.scalar a)
  | list {items items' : List (Value α)} (h : ShownAlikeItems finalSigma items items') :
      ShownAlike finalSigma (.list items) (.list items')
  | dict {entries entries' : List (Str × Value α)} (h : ShownAlikeEntries finalSigma entries entries') :
      ShownAlike finalSigma (.dict entries) (.dict entries')

inductive ShownAlikeItems (finalSigma : Str → Str → Bool) : List (Value α) → List (Value α) → Prop
  | nil : ShownAlikeItems finalSigma [] []
  | cons {item item' : Value α} {items items' : List (Value α)} (hitem : ShownAlike finalSigma item item')
      (hitems : ShownAlikeItems finalSigma items items') : ShownAlikeItems finalSigma (item :: items) (item' :: items')

inductive ShownAlikeEntries (finalSigma : Str → Str → Bool) : List (Str × Value α) → List (Str × Value α) → Prop
  | nil : ShownAlikeEntries finalSigma [] []
  | hidden {key : Str} (item item' : Value α) {entries entries' : List (Str × Value α)}
      (hkey : isSensitive finalSigma key = true ∨ isDropped finalSigma key = true)
      (hentries : ShownAlikeEntries finalSigma entries entries') :
      ShownAlikeEntries finalSigma ((key, item) :: entries) ((key, item') :: entries')
  | cons {key : Str} {item item' : Value α} {entries entries' : List (Str × Value α)}
      (hitem : ShownAlike finalSigma item item') (hentries : ShownAlikeEntries finalSigma entries entries') :
      ShownAlikeEntries finalSigma ((key, item) :: entries) ((key, item') :: entries')
end

mutual
theorem ShownAlike.sanitize_eq {v v' : Value α} (h : ShownAlike finalSigma v v') :
    sanitize finalSigma v = sanitize finalSigma v' :=
  match h with
  | .str _ | .scalar _ => rfl
  | .list h => congrArg Value.list h.sanitize_eq
  | .dict h => congrArg Value.dict h.sanitize_eq

theorem ShownAlikeItems.sanitize_eq {items items' : List (Value α)} (h : ShownAlikeItems finalSigma items items') :
    sanitizeItems finalSigma items = sanitizeItems finalSigma items' :=
  match h with
  | .nil => rfl
  | .cons hitem hitems => congrArg₂ List.cons hitem.sanitize_eq hitems.sanitize_eq

theorem ShownAlikeEntries.sanitize_eq {entries entries' : List (Str × Value α)}
    (h : ShownAlikeEntries finalSigma entries entries') :
    sanitizeEntries finalSigma entries = sanitizeEntries finalSigma entries' := by
  cases h with
  | nil => rfl
  | hidden item item' hkey hentries =>
    rw [sanitizeEntries, sanitizeEntries, hentries.sanitize_eq]
    obtain hkey | hkey := hkey <;> simp only [hkey, if_true]
  | cons hitem hentries => rw [sanitizeEntries, sanitizeEntries, hentries.sanitize_eq, hitem.sanitize_eq]
end

theorem Visible.tail {place : Place} {path : List Place} (h : Visible finalSigma (place :: path)) :
    Visible finalSigma path :=
  fun key hkey => h key (List.mem_cons_of_mem _ hkey)

/-- What is not below a sensitive or dropped key stays where it is. -/
theorem At.sanitize {t v : Value α} {path : List Place} (h : At t path v) (hpath : Visible finalSigma path) :
    At (sanitize finalSigma t) path (VkService.sanitize finalSigma v) := by
  induction h with
  | here v => exact .here _
  | @key entries key item v path hentry h ih =>
    obtain ⟨hsensitive, hdropped⟩ := hpath key (by simp)
    refine .key (mem_sanitizeEntries.mpr ⟨hdropped, item, hentry, ?_⟩) (ih hpath.tail)
    rw [hsensitive]
    rfl
  | index hitem h ih =>
    rw [VkService.sanitize, sanitizeItems_eq]
    refine .index ?_ (ih hpath.tail)
    rw [List.getElem?_map, hitem, Option.map_some]

/-- Every place of the result is a place of the input. -/
theorem at_sanitize {t w : Value α} {path : List Place} (h : At (sanitize finalSigma t) path w) :
    (Visible finalSigma path ∧ ∃ v, At t path v ∧ w = sanitize finalSigma v) ∨
      (w = .str filtered ∧ ∃ front key v, path = front ++ [.key key] ∧ Visible finalSigma front ∧
        isSensitive finalSigma key = true ∧ At t path v) := by
  induction path generalizing t with
  | nil => exact .inl ⟨fun _ hkey => (List.not_mem_nil hkey).elim, t, .here t, h.eq_of_nil⟩
  | cons place path ih =>
    cases t with
    | str s => cases h
    | scalar a => cases h
    | list items =>
      rw [sanitize, sanitizeItems_eq] at h
      cases h with
      | index hitem h =>
        rw [List.getElem?_map, Option.map_eq_some_iff] at hitem
        obtain ⟨item, hitem, rfl⟩ := hitem
        obtain ⟨hpath, v, hv, hw⟩ | ⟨hw, front, key, v, rfl, hfront, hkey, hv⟩ := ih h
        · refine .inl ⟨fun key hmem => hpath key ?_, v, .index hitem hv, hw⟩
          simpa using hmem
        · refine .inr ⟨hw, .index _ :: front, key, v, rfl, fun key hmem => hfront key ?_, hkey, .index hitem hv⟩
          simpa using hmem
    | dict entries =>
      rw [sanitize] at h
      cases h with
      | @key _ key _ _ _ hkept h =>
        obtain ⟨hdropped, item, hentry, rfl⟩ := mem_sanitizeEntries.mp hkept
        by_cases hsensitive : isSensitive finalSigma key = true
        · rw [if_pos hsensitive] at h
          obtain ⟨rfl, rfl⟩ := h.of_str
          exact .inr ⟨rfl, [], key, item, rfl, fun _ hmem => (List.not_mem_nil hmem).elim, hsensitive, .key hentry (.here _)⟩
        · rw [if_neg hsensitive] at h
          have hkey : ∀ rest, Visible finalSigma rest → Visible finalSigma (.key key :: rest) := by
            intro rest hrest key' hmem
            obtain heq | hmem := List.mem_cons.mp hmem
            · cases heq
              exact ⟨Bool.eq_false_iff.mpr hsensitive, hdropped⟩
            · exact hrest key' hmem
          obtain ⟨hpath, v, hv, hw⟩ | ⟨hw, front, key', v, rfl, hfront, hkey', hv⟩ := ih h
          · exact .inl ⟨hkey _ hpath, v, .key hentry hv, hw⟩
          · exact .inr ⟨hw, .key key :: front, key', v, rfl, hkey _ hfront, hkey', .key hentry hv⟩

/-- A dictionary of the result comes from a dictionary of the input. -/
theorem dict_at_sanitize {t : Value α} {path : List Place} {entries' : List (Str × Value α)}
    (h : At (sanitize finalSigma t) path (.dict entries')) :
    ∃ entries, At t path (.dict entries) ∧ entries' = sanitizeEntries finalSigma entries := by
  obtain ⟨-, v, hv, hw⟩ | ⟨hw, -⟩ := at_sanitize h
  · cases v with
    | dict entries => exact ⟨entries, hv, Value.dict.inj hw⟩
    | str s => cases hw
    | scalar a => cases hw
    | list items => cases hw
  · cases hw

/-- The event is stripped of bodies and secrets at every depth, and of nothing else. -/
theorem sanitize_complete_minimal (finalSigma : Str → Str → Bool) (t : Value α) :
    (∀ path entries, At (sanitize finalSigma t) path (.dict entries) →
      (∀ e ∈ entries, lower finalSigma e.1 ∉ droppedKeys) ∧
      ∀ e ∈ entries, replaceChar '-' '_' (lower finalSigma e.1) ∈ sensitiveKeys.map (replaceChar '-' '_') →
        e.2 = .str filtered) ∧
    (∀ path, Visible finalSigma path →
      (∀ s, At t path (.str s) → At (sanitize finalSigma t) path (.str s)) ∧
      (∀ a, At t path (.scalar a) → At (sanitize finalSigma t) path (.scalar a)) ∧
      (∀ items, At t path (.list items) →
        ∃ items', At (sanitize finalSigma t) path (.list items') ∧ items'.length = items.length) ∧
      ∀ entries, At t path (.dict entries) → ∃ entries', At (sanitize finalSigma t) path (.dict entries') ∧
        entries'.map Prod.fst = (entries.map Prod.fst).filter (!isDropped finalSigma ·)) ∧
    (∀ path w, At (sanitize finalSigma t) path w → ∃ v, At t path v) ∧
    sanitize finalSigma (sanitize finalSigma t) = sanitize finalSigma t ∧
    ∀ t', ShownAlike finalSigma t t' → sanitize finalSigma t = sanitize finalSigma t' := by
  refine ⟨fun path entries' h => ?_, fun path hpath =>
    ⟨fun s h => ?_, fun a h => ?_, fun items h => ?_, fun entries h => ?_⟩,
    fun path w h => ?_, sanitize_sanitize t, fun t' h => h.sanitize_eq⟩
  · obtain ⟨entries, -, rfl⟩ := dict_at_sanitize h
    refine ⟨fun e he => ?_, fun e he hsensitive => ?_⟩
    · obtain ⟨hkept, -⟩ := mem_sanitizeEntries.mp he
      simpa [isDropped] using hkept
    · obtain ⟨-, item, -, hitem⟩ := mem_sanitizeEntries.mp he
      rwa [if_pos (by rw [isSensitive, List.contains_iff_mem]; exact hsensitive)] at hitem
  · exact h.sanitize hpath
  · exact h.sanitize hpath
  · exact ⟨_, h.sanitize hpath, by rw [sanitizeItems_eq, List.length_map]⟩
  · exact ⟨_, h.sanitize hpath, map_fst_sanitizeEntries entries⟩
  · obtain ⟨-, v, hv, -⟩ | ⟨-, -, -, v, -, -, -, hv⟩ := at_sanitize h
    · exact ⟨v, hv⟩
    · exact ⟨v, hv⟩

example : isSensitive (fun _ _ => false) "X-Service-Key".toList = true ∧
    isDropped (fun _ _ => false) "Body".toList = true ∧ isDropped (fun _ _ => false) "body_size".toList = false := by
  decide +kernel

end VkService
