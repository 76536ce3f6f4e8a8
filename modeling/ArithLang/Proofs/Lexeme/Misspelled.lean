import ArithLang.Proofs.Lexeme.Word

/-!
Where a word begins there are two ways on: a spelling that nothing goes on with, or an escape that is
wrong. Which it is, and what is wrong, is a matter of the text alone.
-/

namespace ArithLang

/-- The text goes on neither with a character of a word nor with an escape. -/
def endsWord (cs : List Char) : Bool :=
  cs.head?.all fun c => !Text.isIdentifierChar c && c != '\\'

/-- What is wrong with an escape, by the text after its backslash. Offsets count from the backslash. -/
inductive WrongEscape (first : Bool) : List Char → LexError → Prop
  | unmarked : cs.head? ≠ some 'u' → WrongEscape first cs ⟨.missingUnicodeEscape, 1⟩
  | short : digits.length < 4 → (∀ c ∈ digits, isDigitOf 16 c = true) →
      rest.head?.any (isDigitOf 16) = false → (digits = [] → rest.head? ≠ some '\x7b') →
      WrongEscape first ('u' :: (digits ++ rest)) ⟨.badEscape, 2⟩
  | unclosed : (∀ c ∈ digits, isDigitOf 16 c = true) → rest.head?.any (isDigitOf 16) = false →
      (digits ≠ [] → rest.head? ≠ some '\x7d') →
      WrongEscape first ('u' :: '\x7b' :: (digits ++ rest)) ⟨.badEscape, 3⟩
  | tooLarge : digits ≠ [] → (∀ c ∈ digits, isDigitOf 16 c = true) →
      0x10ffff < numberOf 16 digits →
      WrongEscape first ('u' :: '\x7b' :: (digits ++ '\x7d' :: rest)) ⟨.codePointOutOfBounds, 2⟩
  | misplaced : IsEscape spelling code → (∀ c, charOf? code = some c → mayStand first c = false) →
      WrongEscape first (spelling ++ rest) ⟨.invalidUnicodeEscape, 0⟩

/-- A text that begins like a word, up to the first escape that is wrong. -/
inductive Misspelled : (first : Bool) → List Char → LexError → Prop
  | here : WrongEscape first cs e → Misspelled first ('\\' :: cs) e
  | plain : mayStand first c = true → Misspelled false cs e →
      Misspelled first (c :: cs) (e.shift c.utf8Size)
  | escape : IsEscape spelling code → charOf? code = some c → mayStand first c = true →
      Misspelled false cs e →
      Misspelled first ('\\' :: spelling ++ cs) (e.shift (Text.byteLength ('\\' :: spelling)))

variable {first escaped : Bool} {cs text rest digits word : List Char} {code : Nat} {c : Char}
  {e : LexError}

/-! One step of the reading of a word, by what stands at its head. -/

theorem readSpelledWord_of_endsWord (h : endsWord cs = true) (first : Bool) :
    readSpelledWord first cs = ⟨[], cs, false, .ok []⟩ := by
  cases cs with
  | nil => rw [readSpelledWord]
  | cons c cs =>
    have h : (!Text.isIdentifierChar c && c != '\\') = true := h
    rw [Bool.and_eq_true, Bool.not_eq_true', bne_iff_ne] at h
    rw [readSpelledWord, if_neg (ne_true_of_eq_false h.1), if_neg h.2]

theorem readSpelledWord_of_plain (h : mayStand first c = true) (cs : List Char) :
    readSpelledWord first (c :: cs) = (readSpelledWord false cs).cons [c] false c := by
  rw [readSpelledWord, if_pos (isIdentifierChar_of_mayStand h)]

theorem readSpelledWord_of_escape {spelling : List Char} (he : IsEscape spelling code)
    (hc : charOf? code = some c) (h : mayStand first c = true) (cs : List Char) :
    readSpelledWord first ('\\' :: spelling ++ cs) =
      (readSpelledWord false cs).cons ('\\' :: spelling) true c := by
  have hread := he.read cs
  rw [List.cons_append, readSpelledWord, if_neg (ne_true_of_eq_false not_isIdentifierChar_backslash),
    if_pos rfl]
  simp only [hread, hc, Option.filter_some, h, if_true]

/-- A spelling that nothing goes on with is read as the word it spells. -/
theorem IsSpelled.read (h : IsSpelled first text word escaped) (hr : endsWord rest = true) :
    readSpelledWord first (text ++ rest) = ⟨text, rest, escaped, .ok word⟩ := by
  induction h with
  | nil => exact readSpelledWord_of_endsWord hr false
  | plain hc _ ih =>
    rw [List.cons_append, readSpelledWord_of_plain hc, ih]
    rfl
  | escape he hc hm _ ih =>
    rw [List.append_assoc, readSpelledWord_of_escape he hc hm, ih]
    rfl

theorem endsWord_rest_of_read (h : (readSpelledWord first cs).outcome = .ok word) :
    endsWord (readSpelledWord first cs).rest = true := by
  fun_induction readSpelledWord first cs generalizing word with
  | case1 => rfl
  | case2 _ _ _ _ ih =>
    obtain ⟨word, hw, rfl⟩ := WordReading.cons_eq_ok h
    exact ih hw
  | case3 | case4 => cases h
  | case5 =>
    rename_i ih
    obtain ⟨word, hw, rfl⟩ := WordReading.cons_eq_ok h
    exact ih hw
  | case6 first c cs hc hb =>
    change (!Text.isIdentifierChar c && c != '\\') = true
    rw [eq_false_of_ne_true hc, bne_iff_ne.2 hb]
    rfl

/-! What is wrong is found, and nothing else. -/

theorem takeWhile_of_head {p : Char → Bool} (hd : ∀ c ∈ digits, p c = true)
    (hr : rest.head?.any p = false) :
    (digits ++ rest).takeWhile p = digits ∧ (digits ++ rest).dropWhile p = rest := by
  cases rest with
  | nil =>
    rw [List.append_nil]
    exact ⟨List.takeWhile_eq_self_iff.2 hd, List.dropWhile_eq_nil_iff.2 hd⟩
  | cons r rest => exact takeWhile_stop hd hr rest

theorem head?_digits_ne {c : Char} (hd : ∀ d ∈ digits, isDigitOf 16 d = true)
    (hc : isDigitOf 16 c = false) (hr : digits = [] → rest.head? ≠ some c) :
    (digits ++ rest).head? ≠ some c := by
  cases digits with
  | nil => exact hr rfl
  | cons d ds =>
    rw [List.cons_append, List.head?_cons]
    rintro h
    cases h
    rw [hd c List.mem_cons_self] at hc
    cases hc

theorem readEscape_of_unmarked (h : cs.head? ≠ some 'u') :
    (readEscape cs).code = .error ⟨.missingUnicodeEscape, 1⟩ := by
  unfold readEscape
  split
  · exact absurd rfl h
  · exact absurd rfl h
  · rfl

theorem readEscape_of_four (h : cs.head? ≠ some '\x7b') :
    readEscape ('u' :: cs) = readFourDigits cs := by
  rw [readEscape]
  rintro cs rfl
  exact h rfl

theorem takeWhile_take_of_short (hl : digits.length < 4)
    (hd : ∀ c ∈ digits, isDigitOf 16 c = true) (hr : rest.head?.any (isDigitOf 16) = false) :
    ((digits ++ rest).take 4).takeWhile (isDigitOf 16) = digits := by
  rw [List.take_append, List.take_of_length_le (Nat.le_of_lt hl)]
  refine (takeWhile_of_head hd ?_).1
  cases rest with
  | nil =>
    rw [List.take_nil]
    rfl
  | cons r rest =>
    obtain ⟨n, hn⟩ : ∃ n, 4 - digits.length = n + 1 := ⟨4 - digits.length - 1, by omega⟩
    rw [hn]
    exact hr

theorem readEscape_of_short (hl : digits.length < 4) (hd : ∀ c ∈ digits, isDigitOf 16 c = true)
    (hr : rest.head?.any (isDigitOf 16) = false) (hb : digits = [] → rest.head? ≠ some '\x7b') :
    (readEscape ('u' :: (digits ++ rest))).code = .error ⟨.badEscape, 2⟩ := by
  rw [readEscape_of_four (head?_digits_ne hd (by decide) hb), readFourDigits]
  dsimp only
  rw [takeWhile_take_of_short hl hd hr, if_neg (Nat.ne_of_lt hl)]

theorem readEscape_of_unclosed (hd : ∀ c ∈ digits, isDigitOf 16 c = true)
    (hr : rest.head?.any (isDigitOf 16) = false) (hb : digits ≠ [] → rest.head? ≠ some '\x7d') :
    (readEscape ('u' :: '\x7b' :: (digits ++ rest))).code = .error ⟨.badEscape, 3⟩ := by
  obtain ⟨ht, hw⟩ := takeWhile_of_head hd hr
  rw [readEscape, readBracedCode]
  split
  · rw [ht, hw]
    cases rest with
    | nil => rfl
    | cons r rest =>
      have hno : ¬ (r = '\x7d' ∧ digits ≠ []) := fun h => hb h.2 (congrArg some h.1)
      simp only [if_neg hno]
  · rfl

theorem readEscape_of_tooLarge (hne : digits ≠ []) (hd : ∀ c ∈ digits, isDigitOf 16 c = true)
    (hl : 0x10ffff < numberOf 16 digits) (rest : List Char) :
    (readEscape ('u' :: '\x7b' :: (digits ++ '\x7d' :: rest))).code =
      .error ⟨.codePointOutOfBounds, 2⟩ := by
  obtain ⟨ht, hw⟩ := takeWhile_stop hd (show isDigitOf 16 '\x7d' = false by decide) rest
  have hc : (digits ++ '\x7d' :: rest).contains '\x7d' = true := by simp
  rw [readEscape, readBracedCode, if_pos hc, ht, hw]
  simp only [hne, ne_eq, not_false_eq_true, and_self, if_true, if_pos hl]

theorem WrongEscape.read (h : WrongEscape first cs e) :
    (readSpelledWord first ('\\' :: cs)).outcome = .error e := by
  have step {e : LexError} (h : (readEscape cs).code = .error e) :
      (readSpelledWord first ('\\' :: cs)).outcome = .error e := by
    rw [readSpelledWord, if_neg (ne_true_of_eq_false not_isIdentifierChar_backslash), if_pos rfl]
    simp only [h]
  cases h with
  | unmarked hu => exact step (readEscape_of_unmarked hu)
  | short hl hd hr hb => exact step (readEscape_of_short hl hd hr hb)
  | unclosed hd hr hb => exact step (readEscape_of_unclosed hd hr hb)
  | tooLarge hne hd hl => exact step (readEscape_of_tooLarge hne hd hl _)
  | @misplaced spelling code rest he hm =>
    have hno : (charOf? code).filter (mayStand first) = none := by
      rw [Option.filter_eq_none_iff]
      intro c hc
      rw [hm c hc]
      exact Bool.false_ne_true
    have hread := he.read rest
    rw [readSpelledWord, if_neg (ne_true_of_eq_false not_isIdentifierChar_backslash), if_pos rfl]
    simp only [hread, hno]

theorem Misspelled.read (h : Misspelled first cs e) :
    (readSpelledWord first cs).outcome = .error e := by
  induction h with
  | here h => exact h.read
  | plain hc _ ih =>
    rw [readSpelledWord_of_plain hc, WordReading.cons, ih]
    simp
  | escape he hc hm _ ih =>
    rw [readSpelledWord_of_escape he hc hm, WordReading.cons, ih]

theorem head?_dropWhile_any {p : Char → Bool} (cs : List Char) :
    (cs.dropWhile p).head?.any p = false := by
  have h := List.head?_dropWhile_not p cs
  generalize cs.dropWhile p = ds at h
  cases ds with
  | nil => rfl
  | cons d ds => simpa using h

theorem wrongEscape_of_braced (h : (readBracedCode cs).code = .error e) :
    WrongEscape first ('u' :: '\x7b' :: cs) e := by
  have split := List.takeWhile_append_dropWhile (p := isDigitOf 16) (l := cs)
  have hd : ∀ c ∈ cs.takeWhile (isDigitOf 16), isDigitOf 16 c = true :=
    List.all_eq_true.1 List.all_takeWhile
  have hr := head?_dropWhile_any (p := isDigitOf 16) cs
  generalize hdigits : cs.takeWhile (isDigitOf 16) = digits at split hd
  generalize hrest : cs.dropWhile (isDigitOf 16) = rest at split hr
  have unclosed (hb : digits ≠ [] → rest.head? ≠ some '\x7d') :
      WrongEscape first ('u' :: '\x7b' :: cs) ⟨.badEscape, 3⟩ := by
    rw [← split]
    exact .unclosed hd hr hb
  unfold readBracedCode at h
  rw [hdigits, hrest] at h
  split at h
  · cases rest with
    | nil =>
      cases h
      exact unclosed nofun
    | cons r rest =>
      dsimp only at h
      split at h
      · next hb =>
        obtain ⟨rfl, hne⟩ := hb
        dsimp only at h
        split at h
        · next hl =>
          cases h
          rw [← split]
          exact .tooLarge hne hd hl
        · cases h
      · next hb =>
        cases h
        exact unclosed fun hne hr => hb ⟨Option.some.inj hr, hne⟩
  · next hc =>
    cases h
    refine unclosed fun _ hr => hc ?_
    rw [← split]
    cases rest with
    | nil => cases hr
    | cons r rest =>
      cases hr
      simp

theorem wrongEscape_of_four (hb : cs.head? ≠ some '\x7b')
    (h : (readFourDigits cs).code = .error e) : WrongEscape first ('u' :: cs) e := by
  unfold readFourDigits at h
  dsimp only at h
  split at h
  · cases h
  · next hl =>
    cases h
    have hle : (cs.takeWhile (isDigitOf 16)).length < 4 := by
      by_contra hge
      refine hl ?_
      have hp : ((cs.takeWhile (isDigitOf 16)).take 4) <+: cs :=
        (List.take_prefix 4 _).trans (List.takeWhile_prefix _)
      have htake : (cs.takeWhile (isDigitOf 16)).take 4 = cs.take 4 := by
        have := List.prefix_iff_eq_take.1 hp
        rwa [List.length_take, Nat.min_eq_left (Nat.le_of_not_lt hge)] at this
      have hall : ∀ c ∈ cs.take 4, isDigitOf 16 c = true := by
        rw [← htake]
        intro c hc
        exact List.all_eq_true.1 List.all_takeWhile c (List.mem_of_mem_take hc)
      rw [List.takeWhile_eq_self_iff.2 hall, ← htake, List.length_take]
      omega
    have split := List.takeWhile_append_dropWhile (p := isDigitOf 16) (l := cs)
    have hshort : WrongEscape first ('u' :: (_ ++ cs.dropWhile (isDigitOf 16))) ⟨.badEscape, 2⟩ :=
      .short hle (List.all_eq_true.1 List.all_takeWhile) (head?_dropWhile_any cs) fun hnil => by
        rw [hnil, List.nil_append] at split
        rwa [split]
    rwa [split] at hshort

theorem wrongEscape_of_error (h : (readEscape cs).code = .error e) : WrongEscape first cs e := by
  unfold readEscape at h
  split at h
  · exact wrongEscape_of_braced h
  · next cs hb =>
    refine wrongEscape_of_four (fun hc => ?_) h
    cases cs with
    | nil => cases hc
    | cons c cs =>
      cases hc
      exact hb cs rfl
  · next hb hu =>
    cases h
    refine .unmarked fun hc => ?_
    cases cs with
    | nil => cases hc
    | cons c cs =>
      cases hc
      exact hu cs rfl

/-- A word that is not read to its end has an escape that is wrong. -/
theorem misspelled_of_error (hf : first = true → cs.head?.any startsWord = true)
    (h : (readSpelledWord first cs).outcome = .error e) : Misspelled first cs e := by
  fun_induction readSpelledWord first cs generalizing e with
  | case1 | case6 => cases h
  | case2 first c cs hc ih =>
    obtain ⟨e, he, rfl⟩ := WordReading.cons_eq_error h
    have := Misspelled.plain (mayStand_of_startsWord hc hf) (ih (by simp) he)
    simpa using this
  | case3 first cs escape error herror =>
    cases h
    exact .here (wrongEscape_of_error herror)
  | case4 first cs escape code hcode hnone =>
    cases h
    have hmis : WrongEscape first (_ ++ escape.rest) ⟨.invalidUnicodeEscape, 0⟩ :=
      .misplaced (isEscape_of_read hcode) fun c hc => by
        rw [Option.filter_eq_none_iff] at hnone
        exact eq_false_of_ne_true (hnone c hc)
    rw [readEscape_append] at hmis
    exact .here hmis
  | case5 first cs escape code hcode d hd _ =>
    rename_i ih
    obtain ⟨e, he, rfl⟩ := WordReading.cons_eq_error h
    obtain ⟨hchar, hstand⟩ := Option.filter_eq_some_iff.1 hd
    have := Misspelled.escape (isEscape_of_read hcode) hchar hstand (ih (by simp) he)
    rwa [List.cons_append, readEscape_append] at this

theorem readSpelledWord_eq_error_iff (hf : first = true → cs.head?.any startsWord = true) :
    (readSpelledWord first cs).outcome = .error e ↔ Misspelled first cs e :=
  ⟨misspelled_of_error hf, Misspelled.read⟩

end ArithLang
