import ArithLang.Proofs.Json.Numeral

/-!
The text of a value is read as that value. What is written is followed through the reader with what
may stand behind it; the fuel of the reader is bounded by the length of what is written.
-/

namespace ArithLang.Json

section Strings

variable {c : Char} {cs rest : List Char}

/-- A character that stands for itself. -/
theorem stringTail_cons (hquote : c ≠ '\x22') (hslash : c ≠ '\\') (hcontrol : ¬ c.toNat < 0x20) :
    stringTail none (c :: cs) = (stringTail none cs).map (push none c) := by
  rw [stringTail]
  · rw [if_neg hcontrol]
  · simpa using hquote
  · simp [hslash]
  · simp [hslash]

/-- A control that is written by its code. -/
theorem stringTail_code (hcontrol : c.toNat < 0x20) :
    stringTail none (['\\', 'u', '0', '0'] ++ hexPair c.toNat ++ cs) =
      (stringTail none cs).map (push none c) := by
  have codes : ∀ n < 0x20, hexCode? ('0' :: '0' :: hexPair n) = some n := by decide
  have hcode := codes _ hcontrol
  have hlow : isLowSurrogate c.toNat = false := by
    simp only [isLowSurrogate, Bool.and_eq_false_iff, decide_eq_false_iff_not]
    omega
  have hhigh : isHighSurrogate c.toNat = false := by
    simp only [isHighSurrogate, Bool.and_eq_false_iff, decide_eq_false_iff_not]
    omega
  rw [hexPair] at hcode
  simp [stringTail, hexPair, hcode, hlow, hhigh, Char.ofNat_toNat]

/-- A character is read from what is written for it. -/
theorem stringTail_escape (c : Char) :
    stringTail none (escape c ++ cs) = (stringTail none cs).map (push none c) := by
  unfold escape
  split
  · next h => obtain rfl | rfl := h <;> rfl
  · next h =>
    repeat' split
    · subst_vars; rfl
    · subst_vars; rfl
    · subst_vars; rfl
    · subst_vars; rfl
    · subst_vars; rfl
    · exact stringTail_code ‹_›
    · exact stringTail_cons (mt .inl h) (mt .inr h) ‹_›

theorem stringTail_flatMap (cs rest : List Char) :
    stringTail none (cs.flatMap escape ++ '\x22' :: rest) = some (some cs, rest) := by
  induction cs with
  | nil => rfl
  | cons c cs ih =>
    rw [List.flatMap_cons, List.append_assoc, stringTail_escape, ih]
    rfl

end Strings

/-- Values whose text reads as themselves: their numerals have a value, with no zero in front, and
all their strings are texts. -/
inductive Clean : Json → Prop
  | null : Clean null
  | bool (b : Bool) : Clean (bool b)
  | number {n : Numeral} : n.Digital → n.number?.isSome → ¬ n.Padded → Clean (number n)
  | string (s : String) : Clean (string s)
  | array {items : List Json} : (∀ item ∈ items, Clean item) → Clean (array items)
  | object {fields : List (String × Json)} :
    (∀ field ∈ fields, Clean field.2) → Clean (object fields)

variable {json : Json} {n : Numeral} {c : Char} {more cs : List Char} {fuel : Nat}

section Texts

theorem compact_array (items : List Json) :
    (array items).compact = '[' :: (writeItems [] items ++ [']']) := by
  rw [compact, write, ← writeItems_append, List.nil_append]

theorem compact_object (fields : List (String × Json)) :
    (object fields).compact = '\x7b' :: (writeFields [] fields ++ ['\x7d']) := by
  rw [compact, write, ← writeFields_append, List.nil_append]

theorem writeItems_cons (item next : Json) (items : List Json) :
    writeItems [] (item :: next :: items) =
      item.compact ++ ',' :: writeItems [] (next :: items) := by
  rw [writeItems, write_eq_compact_append]
  exact List.cons_ne_nil next items

theorem writeFields_single (key : String) (json : Json) :
    writeFields [] [(key, json)] = quote key.toList ++ ':' :: json.compact := by
  rw [writeFields, compact]

theorem writeFields_cons (key : String) (json : Json) (next : String × Json)
    (fields : List (String × Json)) :
    writeFields [] ((key, json) :: next :: fields) =
      quote key.toList ++ ':' :: (json.compact ++ ',' :: writeFields [] (next :: fields)) := by
  rw [writeFields, write_eq_compact_append]
  exact List.cons_ne_nil next fields

end Texts

theorem delimits_nil : Delimits [] :=
  fun _ h => (Option.not_mem_none _ h).elim

theorem delimits_cons (h : c ∈ [',', ']', '\x7d']) : Delimits (c :: cs) := by
  intro d hd
  cases hd
  simpa using h

/-- Items that are each read from what they are written as. -/
theorem mapM_map {α β : Type} (read : β → Option α) (write : α → β) (found : List α)
    (h : ∀ a ∈ found, read (write a) = some a) : (found.map write).mapM read = some found := by
  induction found with
  | nil => rfl
  | cons a others ih =>
    have ha := h a List.mem_cons_self
    have hothers := ih fun a ha => h a (List.mem_cons_of_mem _ ha)
    rw [List.map_cons, List.mapM_cons, ha, hothers]
    rfl

theorem skip_cons (h : isSpace c = false) : skip (c :: cs) = c :: cs :=
  List.dropWhile_cons_of_neg (ne_true_of_eq_false h)

/-- A numeral starts with a sign or a digit. -/
theorem text_eq_cons (h : n.Digital) :
    ∃ c cs, n.text = c :: cs ∧ (c = '-' ∨ c.isDigit = true) := by
  obtain ⟨c, cs, hc⟩ := List.exists_cons_of_ne_nil h.whole_ne
  have hdigit := h.whole c (hc ▸ List.mem_cons_self)
  rw [Numeral.text, hc]
  cases n.negative with
  | true => exact ⟨'-', _, rfl, .inl rfl⟩
  | false => exact ⟨c, _, rfl, .inr hdigit⟩

/-- What starts a numeral starts nothing else. -/
theorem not_mem_of_sign_or_digit (h : c = '-' ∨ c.isDigit = true) :
    c ∉ [' ', '\n', '\t', '\r', '[', ']', '\x7b', '\x22', 't', 'f', 'n'] := by
  have others : [' ', '\n', '\t', '\r', '[', ']', '\x7b', '\x22', 't', 'f', 'n'].all
      (fun c => !(c == '-' || c.isDigit)) = true := by decide
  intro hc
  have := List.all_eq_true.mp others c hc
  simp_all

/-- A numeral is read as nothing else. -/
theorem value_text (hd : n.Digital) (fuel : Nat) (more : List Char) :
    value (fuel + 1) (n.text ++ more) =
      (numeral (n.text ++ more)).map fun found => (number found.1, found.2) := by
  obtain ⟨c, cs, hc, hstart⟩ := text_eq_cons hd
  have hothers := not_mem_of_sign_or_digit hstart
  have hspace : isSpace c = false := by simp_all [isSpace]
  rw [hc, List.cons_append, value, skip_cons hspace]
  simp_all

theorem read?_text (hd : n.Digital) :
    read? n.text = if n.Padded then none else some (number n) := by
  have hvalue := value_text hd (2 * n.text.length + 1) []
  rw [numeral_text hd delimits_nil, List.append_nil] at hvalue
  rw [read?, hvalue]
  by_cases hp : n.Padded
  · rw [if_pos hp, if_pos hp]
    rfl
  · rw [if_neg hp, if_neg hp]
    rfl

/-- The text of a value starts with neither a space nor the end of an array, and is read as the
value, whatever delimits it. -/
structure Reads (json : Json) : Prop where
  head : ∃ c cs, json.compact = c :: cs ∧ isSpace c = false ∧ c ≠ ']'
  value_eq : ∀ fuel more, 2 * json.compact.length ≤ fuel + 1 → Delimits more →
    value fuel (json.compact ++ more) = some (json, more)

namespace Reads

/-- A text is read with at least one step. -/
theorem of_step (hhead : json.compact = c :: cs) (hc : isSpace c = false ∧ c ≠ ']')
    (hvalue : ∀ fuel more, 2 * cs.length ≤ fuel → Delimits more →
      value (fuel + 1) (c :: (cs ++ more)) = some (json, more)) : Reads json := by
  refine ⟨⟨c, cs, hhead, hc⟩, fun fuel more h hm => ?_⟩
  rw [hhead, List.length_cons] at h
  obtain ⟨fuel, rfl⟩ : ∃ f, fuel = f + 1 := ⟨fuel - 1, by omega⟩
  rw [hhead]
  exact hvalue fuel more (by omega) hm

theorem null : Reads null :=
  of_step rfl (by decide) fun _ _ _ _ => rfl

theorem bool (b : Bool) : Reads (bool b) := by
  cases b with
  | false => exact of_step rfl (by decide) fun _ _ _ _ => rfl
  | true => exact of_step rfl (by decide) fun _ _ _ _ => rfl

theorem string (s : String) : Reads (string s) := by
  have htext : (Json.string s).compact = '\x22' :: (s.toList.flatMap escape ++ ['\x22']) := by
    simp [compact, write, quote]
  refine of_step htext (by decide) fun fuel more _ _ => ?_
  rw [List.append_assoc, value, skip_cons rfl]
  simp [stringTail_flatMap]

theorem number (hd : n.Digital) (hp : ¬ n.Padded) : Reads (number n) := by
  obtain ⟨c, cs, hc, hstart⟩ := text_eq_cons hd
  have htext : (Json.number n).compact = n.text := List.append_nil _
  have hothers := not_mem_of_sign_or_digit hstart
  refine of_step (htext.trans hc) ⟨by simp_all [isSpace], by simp_all⟩ fun fuel more _ hm => ?_
  rw [← List.cons_append, ← hc, value_text hd, numeral_text hd hm, if_neg hp]
  rfl

/-- Items are read up to the end of their array. -/
theorem items (found : List Json) (hne : found ≠ []) (hr : ∀ item ∈ found, Reads item) :
    ∀ fuel more, 2 * (writeItems [] found).length ≤ fuel →
      Json.items fuel (writeItems [] found ++ ']' :: more) = some (found, more) := by
  -- The steps for one item leave two for each character of the others.
  induction found with
  | nil => exact absurd rfl hne
  | cons item others ih =>
    intro fuel more h
    have hitem := hr item List.mem_cons_self
    cases others with
    | nil =>
      obtain ⟨c, cs, hhead, -⟩ := hitem.head
      rw [writeItems, ← compact] at h ⊢
      obtain ⟨fuel, rfl⟩ : ∃ f, fuel = f + 1 :=
        ⟨fuel - 1, by rw [hhead, List.length_cons] at h; omega⟩
      rw [Json.items, hitem.value_eq fuel _ (by omega) (delimits_cons (by simp))]
      rfl
    | cons next others =>
      rw [writeItems_cons] at h ⊢
      rw [List.length_append, List.length_cons] at h
      obtain ⟨fuel, rfl⟩ : ∃ f, fuel = f + 1 := ⟨fuel - 1, by omega⟩
      have hothers := ih (List.cons_ne_nil _ _) (fun item h => hr item (List.mem_cons_of_mem _ h))
        fuel more (by omega)
      rw [List.append_assoc, List.cons_append, Json.items,
        hitem.value_eq fuel _ (by omega) (delimits_cons (by simp))]
      dsimp only
      rw [skip_cons rfl]
      simp only [hothers, Option.map_some]

theorem array (found : List Json) (hr : ∀ item ∈ found, Reads item) : Reads (array found) := by
  refine of_step (compact_array found) (by decide) fun fuel more h _ => ?_
  rw [List.append_assoc, value, skip_cons rfl]
  cases found with
  | nil => rfl
  | cons item others =>
    have hitems := items (item :: others) (List.cons_ne_nil _ _) hr fuel more
      (by rw [List.length_append] at h; omega)
    -- The first item rules out the end of an empty array.
    obtain ⟨c, cs, hc, hspace, hclose⟩ : ∃ c cs, writeItems [] (item :: others) = c :: cs ∧
        isSpace c = false ∧ c ≠ ']' := by
      obtain ⟨c, cs, hhead, hc⟩ := (hr item List.mem_cons_self).head
      cases others with
      | nil => exact ⟨c, cs, hhead, hc⟩
      | cons next others => exact ⟨c, _, by rw [writeItems_cons, hhead]; rfl, hc⟩
    rw [hc] at hitems ⊢
    simp_all [skip_cons]

theorem ofFields_some (found : List (String × Json)) :
    ofFields (found.map fun field => (some field.1, field.2)) = .object found := by
  have hmap := mapM_map (fun field : Option String × Json => field.1.map (·, field.2))
    (fun field : String × Json => (some field.1, field.2)) found fun _ _ => rfl
  rw [ofFields, hmap]

/-- Fields are read up to the end of their object. -/
theorem fields (found : List (String × Json)) (hne : found ≠ [])
    (hr : ∀ field ∈ found, Reads field.2) :
    ∀ fuel more, 2 * (writeFields [] found).length ≤ fuel →
      Json.fields fuel (writeFields [] found ++ '\x7d' :: more) =
        some (found.map fun field => (some field.1, field.2), more) := by
  induction found with
  | nil => exact absurd rfl hne
  | cons field others ih =>
    intro fuel more h
    obtain ⟨key, json⟩ := field
    have hjson : Reads json := hr (key, json) List.mem_cons_self
    cases others with
    | nil =>
      rw [writeFields_single] at h ⊢
      rw [List.length_append, List.length_cons] at h
      obtain ⟨fuel, rfl⟩ : ∃ f, fuel = f + 1 := ⟨fuel - 1, by omega⟩
      have hvalue := hjson.value_eq fuel ('\x7d' :: more) (by omega) (delimits_cons (by simp))
      simp only [quote, List.append_assoc, List.cons_append, List.nil_append]
      rw [Json.fields, skip_cons rfl]
      simp [stringTail_flatMap, skip_cons, isSpace, hvalue]
    | cons next others =>
      rw [writeFields_cons] at h ⊢
      rw [List.length_append, List.length_cons, List.length_append, List.length_cons] at h
      obtain ⟨fuel, rfl⟩ : ∃ f, fuel = f + 1 := ⟨fuel - 1, by omega⟩
      have hothers := ih (List.cons_ne_nil _ _)
        (fun field h => hr field (List.mem_cons_of_mem _ h)) fuel more (by omega)
      have hvalue := hjson.value_eq fuel
        (',' :: (writeFields [] (next :: others) ++ '\x7d' :: more)) (by omega)
        (delimits_cons (by simp))
      simp only [quote, List.append_assoc, List.cons_append, List.nil_append]
      rw [Json.fields, skip_cons rfl]
      simp [stringTail_flatMap, skip_cons, isSpace, hvalue, hothers]

theorem object (found : List (String × Json)) (hr : ∀ field ∈ found, Reads field.2) :
    Reads (object found) := by
  refine of_step (compact_object found) (by decide) fun fuel more h _ => ?_
  rw [List.append_assoc, value, skip_cons rfl]
  cases found with
  | nil => rfl
  | cons field others =>
    have hfields := fields (field :: others) (List.cons_ne_nil _ _) hr fuel more
      (by rw [List.length_append] at h; omega)
    obtain ⟨cs, hcs⟩ : ∃ cs, writeFields [] (field :: others) = '\x22' :: cs := by
      cases others with
      | nil => exact ⟨_, writeFields_single field.1 field.2⟩
      | cons next others => exact ⟨_, writeFields_cons field.1 field.2 next others⟩
    have hobject := ofFields_some (field :: others)
    rw [hcs] at hfields ⊢
    simp_all [skip_cons, isSpace]

end Reads

theorem Clean.reads (h : Clean json) : Reads json := by
  induction h with
  | null => exact .null
  | bool b => exact .bool b
  | number hd _ hp => exact .number hd hp
  | string s => exact .string s
  | array _ ih => exact .array _ ih
  | object _ ih => exact .object _ ih

/-- The compact text of a value is read as that value. -/
theorem read?_compact (h : Clean json) : read? json.compact = some json := by
  have hvalue := h.reads.value_eq (2 * json.compact.length + 2) [] (by omega) delimits_nil
  rw [List.append_nil] at hvalue
  rw [read?, hvalue]
  rfl

section Depth

mutual

/-- How deep containers nest. -/
def depth : Json → Nat
  | array items => depthItems items + 1
  | object fields => depthFields fields + 1
  | _ => 0

def depthItems : List Json → Nat
  | [] => 0
  | item :: items => max item.depth (depthItems items)

def depthFields : List (String × Json) → Nat
  | [] => 0
  | (_, value) :: fields => max value.depth (depthFields fields)

end

theorem depth_le_depthItems {item : Json} {found : List Json} (h : item ∈ found) :
    item.depth ≤ depthItems found := by
  induction h with
  | head => exact Nat.le_max_left _ _
  | tail _ _ ih => exact Nat.le_trans ih (Nat.le_max_right _ _)

theorem depth_le_depthFields {field : String × Json} {found : List (String × Json)}
    (h : field ∈ found) : field.2.depth ≤ depthFields found := by
  induction h with
  | head => exact Nat.le_max_left _ _
  | tail _ _ ih => exact Nat.le_trans ih (Nat.le_max_right _ _)

theorem areSound_iff (levels : Nat) (found : List Json) :
    areSound levels found = true ↔ ∀ item ∈ found, isSound levels item = true := by
  induction found with
  | nil => simp [areSound]
  | cons item others ih => simp [areSound, ih]

theorem haveSound_iff (levels : Nat) (found : List (String × Json)) :
    haveSound levels found = true ↔ ∀ field ∈ found, isSound levels field.2 = true := by
  induction found with
  | nil => simp [haveSound]
  | cons field others ih => simp [haveSound, ih]

/-- A value is refused for its depth only. -/
theorem Clean.isSound (h : Clean json) {levels : Nat} (hd : json.depth ≤ levels) :
    json.isSound levels = true := by
  induction h generalizing levels with
  | null | bool | string => rfl
  | number _ hv _ => exact hv
  | array _ ih =>
    rw [depth] at hd
    obtain ⟨levels, rfl⟩ : ∃ k, levels = k + 1 := ⟨levels - 1, by omega⟩
    rw [Json.isSound, areSound_iff]
    intro item hitem
    have := depth_le_depthItems hitem
    exact ih item hitem (by omega)
  | object _ ih =>
    rw [depth] at hd
    obtain ⟨levels, rfl⟩ : ∃ k, levels = k + 1 := ⟨levels - 1, by omega⟩
    rw [Json.isSound, haveSound_iff]
    intro field hfield
    have := depth_le_depthFields hfield
    exact ih field hfield (by omega)

end Depth

end ArithLang.Json
