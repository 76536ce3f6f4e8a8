import ArithLang.Proofs.Gap
import ArithLang.Proofs.Lexeme.Longest

/-!
Reading is local: a lexeme or a gap is read the same wherever the text after it is cut off.
-/

namespace ArithLang

theorem takeWhile_cut {p : Char → Bool} {cs us : List Char} (h : us <+: cs.dropWhile p) :
    (cs.takeWhile p ++ us).takeWhile p = cs.takeWhile p ∧
      (cs.takeWhile p ++ us).dropWhile p = us := by
  have hp : ∀ c ∈ cs.takeWhile p, p c = true := List.all_eq_true.1 List.all_takeWhile
  cases us with
  | nil =>
    rw [List.append_nil]
    exact ⟨List.takeWhile_eq_self_iff.2 hp, List.dropWhile_eq_nil_iff.2 hp⟩
  | cons u us =>
    obtain ⟨rest, hrest⟩ := h
    have hu := List.head?_dropWhile_not p cs
    rw [← hrest] at hu
    exact takeWhile_stop hp (by simpa using hu) us

theorem append_isPrefix {taken rest us cs : List Char} (h : taken ++ rest = cs) (hu : us <+: rest) :
    taken ++ us <+: cs := by
  subst h
  exact (List.prefix_append_right_inj taken).2 hu

/-- What the function takes from the beginning of a text it also takes if the rest is cut short. -/
def Local (f : List Char → List Char) : Prop :=
  ∀ taken rest us, f (taken ++ rest) = taken → us <+: rest → f (taken ++ us) = taken

theorem local_takeWhile (p : Char → Bool) : Local (List.takeWhile p) := by
  intro taken rest us h hu
  have hd := List.takeWhile_append_dropWhile (p := p) (l := taken ++ rest)
  rw [h, List.append_cancel_left_eq] at hd
  rw [← hd] at hu
  have := (takeWhile_cut hu).1
  rwa [h] at this

theorem local_if {p : Prop} [Decidable p] {f g : List Char → List Char} (hf : Local f)
    (hg : Local g) : Local fun cs => if p then f cs else g cs := by
  split
  · exact hf
  · exact hg

theorem local_nil : Local fun _ => [] := fun _ _ _ h _ => h

theorem local_point : Local fun cs => if cs.head? = some '.' then ['.'] else [] := by
  intro taken rest us h hu
  obtain ⟨more, rfl⟩ := hu
  dsimp only at h ⊢
  cases taken with
  | cons c taken =>
    rw [List.cons_append, List.head?_cons] at h ⊢
    exact h
  | nil =>
    rw [List.nil_append] at h ⊢
    refine if_neg fun hus => ?_
    rw [List.head?_append, hus, Option.some_or, if_pos rfl] at h
    cases h

theorem local_exponentMark : Local exponentMark := by
  intro taken rest us h hu
  obtain ⟨more, rfl⟩ := hu
  have hcases := DecimalParts.exponentMark_cases (taken ++ (us ++ more))
  rw [h] at hcases
  obtain rfl | ⟨e, he, rfl | rfl | rfl⟩ := hcases
  · cases us with
    | nil => rfl
    | cons e us =>
      by_cases he : e = 'e' ∨ e = 'E'
      · rw [List.nil_append, List.cons_append] at h
        cases hds : us ++ more with
        | nil => simp [exponentMark, hds, he] at h
        | cons d ds => by_cases hd : d = '+' ∨ d = '-' <;> simp [exponentMark, hds, he, hd] at h
      · cases us <;> simp [exponentMark, he]
  · cases us with
    | nil => simp [exponentMark, he]
    | cons d us =>
      by_cases hd : d = '+' ∨ d = '-'
      · simp [exponentMark, he, hd] at h
      · simp [exponentMark, he, hd]
  · simp [exponentMark, he]
  · simp [exponentMark, he]

theorem exists_take {f : List Char → List Char} (h : ∀ cs, f cs <+: cs) (cs : List Char) :
    ∃ taken rest, f cs = taken ∧ cs = taken ++ rest := by
  obtain ⟨rest, hrest⟩ := h cs
  exact ⟨f cs, rest, rfl, hrest.symm⟩

namespace DecimalParts

/-- Every part is taken from what the parts before it leave. -/
theorem split_of {whole point fraction mark power rest : List Char}
    (hw : (whole ++ (point ++ (fraction ++ (mark ++ (power ++ rest))))).takeWhile (isDigitOf 10) =
      whole)
    (hp : (if (point ++ (fraction ++ (mark ++ (power ++ rest)))).head? = some '.' then ['.'] else []) =
      point)
    (hf : (if point = [] then [] else
      (fraction ++ (mark ++ (power ++ rest))).takeWhile (isDigitOf 10)) = fraction)
    (hm : exponentMark (mark ++ (power ++ rest)) = mark)
    (hd : (if mark = [] then [] else (power ++ rest).takeWhile (isDigitOf 10)) = power) :
    split (whole ++ (point ++ (fraction ++ (mark ++ (power ++ rest))))) =
      ⟨whole, point, fraction, mark, power, rest⟩ := by
  have hdrop := List.takeWhile_append_dropWhile (p := isDigitOf 10)
    (l := whole ++ (point ++ (fraction ++ (mark ++ (power ++ rest)))))
  rw [hw, List.append_cancel_left_eq] at hdrop
  simp only [split, hw, hdrop, hp, List.drop_left, hf, hm, hd]

/-- What follows a decimal literal does not matter to its parts. -/
theorem split_cut {cs us : List Char} (h : us <+: (split cs).rest) :
    split ((split cs).taken ++ us) = { split cs with rest := us } := by
  obtain ⟨whole, cs, hw, rfl⟩ := exists_take (fun _ => List.takeWhile_prefix (isDigitOf 10)) cs
  obtain ⟨point, cs, hp, rfl⟩ := exists_take pointMark_isPrefix cs
  obtain ⟨fraction, cs, hf, rfl⟩ := exists_take
    (takeWhileIf_isPrefix (p := point = []) (isDigitOf 10)) cs
  obtain ⟨mark, cs, hm, rfl⟩ := exists_take exponentMark_isPrefix cs
  obtain ⟨power, rest, hd, rfl⟩ := exists_take
    (takeWhileIf_isPrefix (p := mark = []) (isDigitOf 10)) cs
  rw [split_of hw hp hf hm hd] at h ⊢
  have digits {p : Prop} [Decidable p] : Local fun cs =>
      if p then [] else cs.takeWhile (isDigitOf 10) := local_if local_nil (local_takeWhile _)
  have h₄ : power ++ us <+: power ++ rest := append_isPrefix rfl h
  have h₃ : mark ++ (power ++ us) <+: mark ++ (power ++ rest) := append_isPrefix rfl h₄
  have h₂ : fraction ++ (mark ++ (power ++ us)) <+: fraction ++ (mark ++ (power ++ rest)) :=
    append_isPrefix rfl h₃
  have := split_of (local_takeWhile _ _ _ _ hw (append_isPrefix rfl h₂)) (local_point _ _ _ hp h₂)
    (digits _ _ _ hf h₃) (local_exponentMark _ _ _ hm h₄) (digits _ _ _ hd h)
  simpa [taken] using this

end DecimalParts

variable {cs us : List Char} {l : Lexeme}

theorem startsName_cut (h : startsName cs = false) (hu : us <+: cs) : startsName us = false := by
  obtain ⟨more, rfl⟩ := hu
  cases us with
  | nil => rfl
  | cons => exact h

theorem readDecimal_cut (h : (readDecimal cs).outcome = .ok l) (hu : us <+: (readDecimal cs).rest) :
    readDecimal ((readDecimal cs).taken ++ us) = { readDecimal cs with rest := us } := by
  have hs := DecimalParts.split_cut hu
  change readDecimal ((DecimalParts.split cs).taken ++ us) = _
  unfold readDecimal at h ⊢
  rw [hs]
  dsimp only at h ⊢
  split at h
  · cases h
  · next hm =>
    split at h
    · cases h
    · next hn =>
      have hn := eq_false_of_ne_true hn
      simp only [if_neg hm, hn, startsName_cut hn hu]
      rfl

theorem readRadix_cut {radix : Nat} {c : Char} (h : (readRadix radix ('0' :: c :: cs)).outcome = .ok l)
    (hu : us <+: (readRadix radix ('0' :: c :: cs)).rest) :
    readRadix radix ((readRadix radix ('0' :: c :: cs)).taken ++ us) =
      { readRadix radix ('0' :: c :: cs) with rest := us } := by
  obtain ⟨ht, hd⟩ := takeWhile_cut hu
  unfold readRadix at h ⊢
  simp only [List.drop_succ_cons, List.drop_zero, List.take_succ_cons, List.take_zero,
    List.cons_append, List.nil_append] at h ht hd ⊢
  rw [ht, hd]
  split at h
  · cases h
  · next hne =>
    split at h
    · cases h
    · next hn =>
      have hn := eq_false_of_ne_true hn
      simp only [if_neg hne, hn, startsName_cut hn hu]

theorem readNumber_cut (h : (readNumber cs).outcome = .ok l) (hu : us <+: (readNumber cs).rest) :
    readNumber ((readNumber cs).taken ++ us) = { readNumber cs with rest := us } := by
  obtain ⟨c, cs, radix, rfl, hr, heq⟩ | ⟨heq, hne⟩ := readNumber_cases cs
  · rw [heq] at h hu ⊢
    rw [← readRadix_cut h hu]
    obtain ⟨_, _, radix', hcs, hr', heq'⟩ | ⟨-, hne⟩ :=
      readNumber_cases ((readRadix radix ('0' :: c :: cs)).taken ++ us)
    · cases hcs
      rw [heq', hr.unique hr']
    · exact absurd hr (hne c _ radix rfl)
  · rw [heq] at h hu ⊢
    have hp := append_isPrefix (readDecimal_append cs) hu
    rw [← readDecimal_cut h hu]
    obtain ⟨c, _, radix, hcs, hr, -⟩ | ⟨heq', -⟩ := readNumber_cases ((readDecimal cs).taken ++ us)
    · obtain ⟨more, hmore⟩ := hp
      rw [hcs] at hmore
      exact absurd hr (hne c _ radix hmore.symm)
    · exact heq'

/-- The character at which a word stops goes on with it neither by itself nor as an escape. -/
theorem readSpelledWord_cut {first : Bool} {word : List Char}
    (h : (readSpelledWord first cs).outcome = .ok word)
    (hu : us <+: (readSpelledWord first cs).rest) :
    readSpelledWord first ((readSpelledWord first cs).taken ++ us) =
      { readSpelledWord first cs with rest := us } := by
  fun_induction readSpelledWord first cs generalizing word with
  | case1 first =>
    cases List.prefix_nil.1 hu
    rw [List.append_nil, readSpelledWord]
  | case2 first c cs hc ih =>
    obtain ⟨word, hw, rfl⟩ := WordReading.cons_eq_ok h
    have := ih hw hu
    rw [WordReading.cons, List.append_assoc, List.singleton_append, readSpelledWord, if_pos hc, this]
    rfl
  | case3 | case4 => cases h
  | case5 first cs escape code hcode d hd _ =>
    rename_i ih
    obtain ⟨word, hw, rfl⟩ := WordReading.cons_eq_ok h
    have := ih hw hu
    have hread : readEscape (escape.taken ++ ((readSpelledWord false escape.rest).taken ++ us)) =
        ⟨escape.taken, (readSpelledWord false escape.rest).taken ++ us, .ok code⟩ :=
      (isEscape_of_read hcode).read _
    simp only [WordReading.cons, List.cons_append, List.append_assoc]
    rw [readSpelledWord, if_neg (by simp [not_isIdentifierChar_backslash]), if_pos rfl]
    simp only [hread, hd, this]
    rfl
  | case6 first c cs hc hb =>
    cases us with
    | nil => rw [List.append_nil, readSpelledWord]
    | cons u us =>
      obtain ⟨rfl, -⟩ := List.cons_prefix_cons.1 hu
      rw [List.nil_append, readSpelledWord, if_neg hc, if_neg hb]

theorem readWord_cut (h : (readWord cs).outcome = .ok l) (hu : us <+: (readWord cs).rest) :
    readWord ((readWord cs).taken ++ us) = { readWord cs with rest := us } := by
  cases hw : (readSpelledWord true cs).outcome with
  | error e => simp [readWord, hw] at h
  | ok word =>
    have := readSpelledWord_cut hw hu
    simp only [readWord] at this ⊢
    rw [this]

namespace Symbol

variable {functionBind : Bool} {symbol : Symbol}

theorem longest?_cut (h : longest? functionBind cs = some symbol)
    (hu : us <+: cs.drop symbol.text.toList.length) :
    longest? functionBind (symbol.text.toList ++ us) = some symbol := by
  obtain ⟨hs, before, after, hall, hbefore⟩ := List.find?_eq_some_iff_append.1 h
  refine List.find?_eq_some_iff_append.2 ⟨?_, before, after, hall, fun other hm => ?_⟩
  · rw [Bool.and_eq_true] at hs ⊢
    exact ⟨hs.1, List.isPrefixOf_iff_prefix.2 (List.prefix_append ..)⟩
  · have hno := hbefore other hm
    cases hc : other.isAllowed functionBind &&
        other.text.toList.isPrefixOf (symbol.text.toList ++ us) with
    | false => rfl
    | true =>
      obtain ⟨ha, hp⟩ := (Bool.and_eq_true _ _).mp hc
      have happend := List.prefix_iff_eq_append.1 (mem_of_longest? h).2.2
      have hp := (List.isPrefixOf_iff_prefix.1 hp).trans (append_isPrefix happend hu)
      rw [ha, List.isPrefixOf_iff_prefix.2 hp] at hno
      cases hno

end Symbol

section

variable {options : Options} {c : Char}

theorem readLexeme_of_word (hh : opensHiddenComment (c :: cs) = false) (hw : startsWord c = true) :
    readLexeme options (c :: cs) = readWord (c :: cs) := by
  rw [readLexeme, if_neg (ne_true_of_eq_false hh), if_pos hw]

theorem readLexeme_of_number (hh : opensHiddenComment (c :: cs) = false)
    (hw : startsWord c = false) (hn : startsNumber (c :: cs) = true) :
    readLexeme options (c :: cs) = readNumber (c :: cs) := by
  rw [readLexeme, if_neg (ne_true_of_eq_false hh), if_neg (ne_true_of_eq_false hw), if_pos hn]

theorem readLexeme_of_symbol {symbol : Symbol} (hh : opensHiddenComment (c :: cs) = false)
    (hw : startsWord c = false) (hn : startsNumber (c :: cs) = false)
    (hs : Symbol.longest? (options.hasPlugin .functionBind) (c :: cs) = some symbol) :
    readLexeme options (c :: cs) = symbol.read (c :: cs) := by
  rw [readLexeme, if_neg (ne_true_of_eq_false hh), if_neg (ne_true_of_eq_false hw),
    if_neg (ne_true_of_eq_false hn), hs]

/-- A lexeme is read the same if what follows it is cut short. -/
theorem readLexeme_cut (h : (readLexeme options cs).outcome = .ok l) (hl : l.1 ≠ .eof)
    (hu : us <+: (readLexeme options cs).rest) :
    readLexeme options ((readLexeme options cs).taken ++ us) =
      { readLexeme options cs with rest := us } := by
  have hne := readLexeme_taken_ne_nil h hl
  have hp := append_isPrefix (readLexeme_append options cs) hu
  have hh : opensHiddenComment ((readLexeme options cs).taken ++ us) = false := by
    rw [← Bool.not_eq_true]
    intro hh
    exact not_hidden_of_read h ((List.isPrefixOf_iff_prefix.1 hh).trans hp)
  cases cs with
  | nil => exact absurd rfl hne
  | cons c cs =>
    obtain ⟨ds, hds⟩ : ∃ ds, (readLexeme options (c :: cs)).taken ++ us = c :: ds := by
      cases ht : (readLexeme options (c :: cs)).taken with
      | nil => exact absurd ht hne
      | cons d taken =>
        rw [ht] at hp
        exact ⟨taken ++ us, congrArg (· :: _) (List.cons_prefix_cons.1 hp).1⟩
    have hr := lexemeReading options c cs
    rw [hds] at hh ⊢
    generalize readLexeme options (c :: cs) = r at h hu hp hds hr
    cases hr with
    | hidden | unexpected => cases h
    | word hw =>
      rw [readLexeme_of_word hh hw, ← hds]
      exact readWord_cut h hu
    | number hw hn =>
      obtain ⟨v, -, hv⟩ := isNumber_of_read hn h
      have hstart := startsNumber_of_isPrefix hv.startsNumber (List.prefix_append _ us)
      rw [hds] at hstart
      rw [readLexeme_of_number hh hw hstart, ← hds]
      exact readNumber_cut h hu
    | @symbol symbol hw hn hs =>
      change symbol.text.toList ++ us = c :: ds at hds
      have hlong := Symbol.longest?_cut hs hu
      have hstart : startsNumber (c :: ds) = false := by
        rw [← Bool.not_eq_true] at hn ⊢
        rw [← hds]
        exact fun hstart => hn (startsNumber_of_isPrefix hstart hp)
      rw [hds] at hlong
      rw [readLexeme_of_symbol hh hw hstart hlong, Symbol.read, Symbol.read, ← hds, List.drop_left]

end

section

variable {moduleCode broken : Bool}

theorem opensComment_mono (h : opensComment moduleCode broken us = true) (hu : us <+: cs) :
    opensComment moduleCode broken cs = true := by
  rw [opensComment_iff] at h ⊢
  exact h.imp (And.imp_right (·.trans hu)) (And.imp_right (·.trans hu))

theorem opensComment_of_unbroken (h : opensComment moduleCode false cs = true) (broken : Bool) :
    opensComment moduleCode broken cs = true := by
  rw [opensComment_iff] at h ⊢
  obtain ⟨hb, -⟩ | h := h
  · cases hb
  · exact .inr h

/-- What opens a comment stands on one line. -/
theorem opensComment_line (h : opensComment moduleCode broken cs = true) :
    opensComment moduleCode broken (line cs) = true := by
  rw [opensComment_iff] at h ⊢
  exact h.imp (And.imp_right (prefix_line · rfl)) (And.imp_right (prefix_line · rfl))

theorem blanks_cut (hu : us <+: afterBlanks cs) :
    blanks (blanks cs ++ us) = blanks cs ∧ afterBlanks (blanks cs ++ us) = us :=
  takeWhile_cut hu

theorem line_cut (hu : us <+: afterLine cs) :
    line (line cs ++ us) = line cs ∧ afterLine (line cs ++ us) = us :=
  takeWhile_cut hu

/-- A gap is passed over the same if what follows it is cut short. -/
theorem readGap_cut (hu : us <+: (readGap moduleCode broken cs).rest) :
    readGap moduleCode broken ((readGap moduleCode broken cs).taken ++ us) =
      ⟨(readGap moduleCode broken cs).taken, us⟩ := by
  fun_induction readGap moduleCode broken cs with
  | case1 broken cs rest broken' h after ih =>
    have hafter : after.taken ++ us <+: afterLine rest := append_isPrefix (readGap_append ..) hu
    have hrest : line rest ++ (after.taken ++ us) <+: rest :=
      append_isPrefix List.takeWhile_append_dropWhile hafter
    obtain ⟨hl, hal⟩ := line_cut hafter
    obtain ⟨hb, hab⟩ := blanks_cut hrest
    have ho : opensComment moduleCode broken' (line rest ++ (after.taken ++ us)) = true :=
      opensComment_mono (opensComment_line h) (List.prefix_append ..)
    have hread : readGap moduleCode broken' (after.taken ++ us) = ⟨after.taken, us⟩ := ih hu
    simp only [List.append_assoc]
    rw [readGap, hb, hab, if_pos ho, hl, hal, hread, ← List.append_assoc]
  | case2 broken cs rest broken' h =>
    obtain ⟨hb, hab⟩ := blanks_cut hu
    have hno : ¬ opensComment moduleCode broken' us = true := fun ho => h (opensComment_mono ho hu)
    rw [readGap, hb, hab, if_neg hno]

/-- What a gap ends before is read with no gap by itself. -/
theorem readGap_of_rest (hu : us <+: (readGap moduleCode broken cs).rest) :
    readGap moduleCode false us = ⟨[], us⟩ := by
  obtain ⟨hblank, hopens⟩ := readGap_stops moduleCode broken cs
  refine readGap_of_stopped ?_ (eq_false_of_ne_true fun ho => ?_)
  · obtain ⟨more, hrest⟩ := hu
    cases us with
    | nil => rfl
    | cons u us =>
      rw [← hrest] at hblank
      exact hblank
  · rw [opensComment_mono (opensComment_of_unbroken ho _) hu] at hopens
    cases hopens

end

end ArithLang
