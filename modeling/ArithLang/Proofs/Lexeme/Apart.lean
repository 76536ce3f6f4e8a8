import Mathlib.Data.List.Find
import ArithLang.Proofs.Lexeme.Cut
import ArithLang.Proofs.Lexeme.Misspelled

/-!
Blanks keep lexemes apart. No lexeme holds a blank or goes on over one, so a lexeme is read the same
with nothing after it and with a blank after it.
-/

namespace ArithLang

namespace Text

def blankChars : List Char :=
  [' ', '\t', '\n', '\x0b', '\x0c', '\r', '\u00a0', '\u1680', '\u180e', '\u2000', '\u2001', '\u2002',
    '\u2003', '\u2004', '\u2005', '\u2006', '\u2007', '\u2008', '\u2009', '\u200a', '\u2028',
    '\u2029', '\u202f', '\u205f', '\u3000', '\ufeff']

theorem mem_blankChars_of_between {c : Char} (hlo : '\u2000' ≤ c) (hhi : c ≤ '\u200a') :
    c ∈ blankChars := by
  have hlo : 0x2000 ≤ c.toNat := hlo
  have hhi : c.toNat ≤ 0x200a := hhi
  have all : ∀ i < 11, Char.ofNat (0x2000 + i) ∈ blankChars := by decide
  have := all (c.toNat - 0x2000) (by omega)
  rwa [Nat.add_sub_cancel' hlo, Char.ofNat_toNat] at this

theorem mem_blankChars {c : Char} (h : isBlank c = true) : c ∈ blankChars := by
  simp only [isBlank, isWhitespace, isLineBreak, Bool.or_eq_true, Bool.and_eq_true, beq_iff_eq,
    decide_eq_true_eq] at h
  by_cases hr : '\u2000' ≤ c ∧ c ≤ '\u200a'
  · exact mem_blankChars_of_between hr.1 hr.2
  · simp only [hr, or_false, or_assoc] at h
    rcases h with rfl | rfl | rfl | rfl | rfl | rfl | rfl | rfl | rfl | rfl | rfl | rfl | rfl | rfl |
      rfl <;> decide

end Text

/-- Nothing follows, or a blank does. -/
def isSetApart (rest : List Char) : Bool :=
  rest.head?.all Text.isBlank

variable {rest cs text : List Char} {options : Options} {l : Lexeme}

theorem mem_blankChars_of_setApart {c : Char} (h : isSetApart (c :: rest) = true) :
    c ∈ Text.blankChars :=
  Text.mem_blankChars h

theorem head?_any_of_setApart {p : Char → Bool} (hp : ∀ c ∈ Text.blankChars, p c = false)
    (h : isSetApart rest = true) : rest.head?.any p = false := by
  cases rest with
  | nil => rfl
  | cons c rest => exact hp c (mem_blankChars_of_setApart h)

/-- A class that no blank belongs to ends before what is set apart. -/
theorem head?_append_any {p : Char → Bool} (hp : ∀ c ∈ Text.blankChars, p c = false)
    (h : isSetApart rest = true) (cs : List Char) :
    (cs ++ rest).head?.any p = cs.head?.any p := by
  cases cs with
  | nil => exact head?_any_of_setApart hp h
  | cons => rfl

theorem forall_blank {p : Char → Bool} (h : Text.blankChars.any p = false) :
    ∀ c ∈ Text.blankChars, p c = false := by
  simpa using h

theorem not_isIdentifierChar_blank : ∀ c ∈ Text.blankChars, Text.isIdentifierChar c = false :=
  forall_blank (by decide +kernel)

theorem not_startsName_blank : ∀ c ∈ Text.blankChars, Text.isIdentifierStart c = false := by
  intro c hc
  refine eq_false_of_ne_true fun hs => ?_
  cases (not_isIdentifierChar_blank c hc).symm.trans (Text.isIdentifierChar_of_start hs)

theorem not_isDigitOf_blank (radix : Nat) : ∀ c ∈ Text.blankChars, isDigitOf radix c = false := by
  intro c hc
  have hno : ∀ c ∈ Text.blankChars, isDigitOf 16 c = false := forall_blank (by decide +kernel)
  rw [← Bool.not_eq_true]
  intro hd
  -- What is a digit in any radix is one in radix sixteen.
  have hd : isDigitOf 16 c = true := by
    unfold isDigitOf digitValue? at hd ⊢
    dsimp only at hd ⊢
    generalize (if c.isDigit then _ else _ : Nat) = value at hd ⊢
    split at hd
    · next h =>
      rw [if_pos ⟨h.2, h.2⟩]
      rfl
    · cases hd
  rw [hno c hc] at hd
  cases hd

/-- A text without blanks that a text begins with does not reach what is set apart. -/
theorem isPrefix_setApart (ht : ∀ c ∈ text, Text.isBlank c = false) (h : isSetApart rest = true) :
    text <+: cs ++ rest ↔ text <+: cs := by
  constructor
  · intro hp
    obtain hp | ⟨more, rfl⟩ := List.prefix_or_prefix_of_prefix hp (List.prefix_append cs rest)
    · exact hp
    · cases more with
      | nil => exact ⟨[], by simp⟩
      | cons c more =>
        obtain ⟨last, rfl⟩ := (List.prefix_append_right_inj cs).1 hp
        have hc := ht c (List.mem_append_right cs List.mem_cons_self)
        cases hc.symm.trans h
  · exact fun hp => hp.trans (List.prefix_append cs rest)

theorem isPrefixOf_setApart (ht : (text.all (!Text.isBlank ·)) = true) (h : isSetApart rest = true)
    (cs : List Char) : text.isPrefixOf (cs ++ rest) = text.isPrefixOf cs := by
  rw [Bool.eq_iff_iff, List.isPrefixOf_iff_prefix, List.isPrefixOf_iff_prefix]
  exact isPrefix_setApart (by simpa using ht) h

/-- What the function takes from the beginning of a text is the same if something set apart follows. -/
def Settled (f : List Char → List Char) : Prop :=
  ∀ cs rest, isSetApart rest = true → f (cs ++ rest) = f cs

theorem settled_takeWhile {p : Char → Bool} (hp : ∀ c ∈ Text.blankChars, p c = false) :
    Settled (List.takeWhile p) := by
  intro cs rest h
  induction cs with
  | nil =>
    cases rest with
    | nil => rfl
    | cons c rest => exact List.takeWhile_cons_of_neg (by simp [hp c (mem_blankChars_of_setApart h)])
  | cons c cs ih => rw [List.cons_append, List.takeWhile_cons, List.takeWhile_cons, ih]

theorem settled_digits {p : Prop} [Decidable p] :
    Settled fun cs => if p then [] else cs.takeWhile (isDigitOf 10) := by
  intro cs rest h
  dsimp only
  rw [settled_takeWhile (not_isDigitOf_blank 10) cs rest h]

theorem settled_point : Settled fun cs => if cs.head? = some '.' then ['.'] else [] := by
  intro cs rest h
  cases cs with
  | cons => rfl
  | nil =>
    cases rest with
    | nil => rfl
    | cons r rest =>
      have hno : ∀ c ∈ Text.blankChars, (c == '.') = false := forall_blank rfl
      refine if_neg fun hr => ?_
      exact ne_of_beq_false (hno r (mem_blankChars_of_setApart h)) (Option.some.inj hr)

theorem settled_exponentMark : Settled exponentMark := by
  intro cs rest h
  have he : ∀ c ∈ Text.blankChars, (c == 'e' || c == 'E') = false := forall_blank rfl
  have hs : ∀ c ∈ Text.blankChars, (c == '+' || c == '-') = false := forall_blank rfl
  cases rest with
  | nil => rw [List.append_nil]
  | cons r rest =>
    have he := he r (mem_blankChars_of_setApart h)
    have hs := hs r (mem_blankChars_of_setApart h)
    simp only [Bool.or_eq_false_iff, beq_eq_false_iff_ne] at he hs
    match cs with
    | [] => cases rest <;> simp [exponentMark, he]
    | [e] => simp [exponentMark, hs]
    | _ :: _ :: _ => rfl

namespace DecimalParts

theorem split_append_rest (h : isSetApart rest = true) (cs : List Char) :
    split (cs ++ rest) = { split cs with rest := (split cs).rest ++ rest } := by
  obtain ⟨whole, cs, hw, rfl⟩ := exists_take (fun _ => List.takeWhile_prefix (isDigitOf 10)) cs
  obtain ⟨point, cs, hp, rfl⟩ := exists_take pointMark_isPrefix cs
  obtain ⟨fraction, cs, hf, rfl⟩ := exists_take
    (takeWhileIf_isPrefix (p := point = []) (isDigitOf 10)) cs
  obtain ⟨mark, cs, hm, rfl⟩ := exists_take exponentMark_isPrefix cs
  obtain ⟨power, cs, hd, rfl⟩ := exists_take
    (takeWhileIf_isPrefix (p := mark = []) (isDigitOf 10)) cs
  have hw' := (settled_takeWhile (not_isDigitOf_blank 10) _ _ h).trans hw
  have hp' := (settled_point _ _ h).trans hp
  have hf' := (settled_digits (p := point = []) _ _ h).trans hf
  have hm' := (settled_exponentMark _ _ h).trans hm
  have hd' := (settled_digits (p := mark = []) _ _ h).trans hd
  simp only [List.append_assoc] at hw' hp' hf' hm' hd'
  rw [split_of hw hp hf hm hd]
  simp only [List.append_assoc]
  exact split_of hw' hp' hf' hm' hd'

end DecimalParts

theorem startsName_append (h : isSetApart rest = true) (cs : List Char) :
    startsName (cs ++ rest) = startsName cs :=
  head?_append_any not_startsName_blank h cs

theorem readDecimal_setApart (h : isSetApart rest = true) (cs : List Char) :
    readDecimal (cs ++ rest) = { readDecimal cs with rest := (readDecimal cs).rest ++ rest } := by
  simp only [readDecimal, DecimalParts.split_append_rest h, startsName_append h]
  rfl

theorem dropWhile_append_of_takeWhile {p : Char → Bool}
    (h : (cs ++ rest).takeWhile p = cs.takeWhile p) :
    (cs ++ rest).dropWhile p = cs.dropWhile p ++ rest := by
  refine (List.append_right_inj (cs.takeWhile p)).1 ?_
  rw [← List.append_assoc, List.takeWhile_append_dropWhile, ← h, List.takeWhile_append_dropWhile]

theorem readRadix_setApart (h : isSetApart rest = true) (radix : Nat) (c : Char) (cs : List Char) :
    readRadix radix ('0' :: c :: cs ++ rest) = { readRadix radix ('0' :: c :: cs) with
      rest := (readRadix radix ('0' :: c :: cs)).rest ++ rest } := by
  have ht := settled_takeWhile (not_isDigitOf_blank radix) cs rest h
  have hd := dropWhile_append_of_takeWhile ht
  simp only [readRadix, List.cons_append, List.drop_succ_cons, List.drop_zero, List.take_succ_cons,
    List.take_zero, ht, hd, startsName_append h]

/-- What names a radix is not set apart from the zero before it. -/
theorem NamesRadix.of_append {c : Char} {radix : Nat} {cs' : List Char} (hr : NamesRadix c radix)
    (h : isSetApart rest = true) (heq : cs ++ rest = '0' :: c :: cs') : ∃ cs', cs = '0' :: c :: cs' := by
  have hzero : '0' ∉ Text.blankChars := by decide
  have hmark : c ∉ Text.blankChars := by cases hr <;> decide
  match cs with
  | [] =>
    rw [List.nil_append] at heq
    rw [heq] at h
    exact absurd (mem_blankChars_of_setApart h) hzero
  | [_] =>
    have heq : rest = c :: cs' := (List.cons.inj heq).2
    rw [heq] at h
    exact absurd (mem_blankChars_of_setApart h) hmark
  | _ :: _ :: cs =>
    cases heq
    exact ⟨cs, rfl⟩

theorem readNumber_setApart (h : isSetApart rest = true) (cs : List Char) :
    readNumber (cs ++ rest) = { readNumber cs with rest := (readNumber cs).rest ++ rest } := by
  obtain ⟨c, cs, radix, rfl, hr, heq⟩ | ⟨heq, hne⟩ := readNumber_cases cs
  · rw [heq, ← readRadix_setApart h]
    obtain ⟨_, _, radix', hcs, hr', heq'⟩ | ⟨-, hne⟩ := readNumber_cases ('0' :: c :: cs ++ rest)
    · cases hcs
      rw [heq', hr.unique hr']
    · exact absurd hr (hne c _ radix rfl)
  · rw [heq, ← readDecimal_setApart h]
    obtain ⟨c, _, radix, hcs, hr, -⟩ | ⟨heq', -⟩ := readNumber_cases (cs ++ rest)
    · obtain ⟨cs', rfl⟩ := hr.of_append h hcs
      exact absurd hr (hne c cs' radix rfl)
    · exact heq'

theorem startsNumber_setApart (h : isSetApart rest = true) (c : Char) (cs : List Char) :
    startsNumber (c :: cs ++ rest) = startsNumber (c :: cs) := by
  by_cases hc : c = '.'
  · subst hc
    have := head?_append_any (not_isDigitOf_blank 10) h cs
    rw [List.cons_append]
    generalize cs ++ rest = ds at this
    cases cs <;> cases ds <;> exact this
  · rw [List.cons_append, startsNumber_cons hc, startsNumber_cons hc]

theorem endsWord_append (h : isSetApart rest = true) (hc : endsWord cs = true) :
    endsWord (cs ++ rest) = true := by
  cases cs with
  | cons => exact hc
  | nil =>
    have hslash : ∀ c ∈ Text.blankChars, (c == '\\') = false := forall_blank rfl
    cases rest with
    | nil => rfl
    | cons r rest =>
      have hr := mem_blankChars_of_setApart h
      change (!Text.isIdentifierChar r && !(r == '\\')) = true
      rw [not_isIdentifierChar_blank r hr, hslash r hr]
      rfl

theorem readWord_setApart (h : isSetApart rest = true) (hs : cs.head?.any startsWord = true)
    (hok : (readWord cs).outcome = .ok l) :
    readWord (cs ++ rest) = { readWord cs with rest := (readWord cs).rest ++ rest } := by
  cases hw : (readSpelledWord true cs).outcome with
  | error e => simp [readWord, hw] at hok
  | ok word =>
    have hspelled := isSpelled_of_read (fun _ => hs) hw
    have hends := endsWord_append h (endsWord_rest_of_read hw)
    have hread := hspelled.read hends
    rw [← List.append_assoc, readSpelledWord_append] at hread
    simp only [readWord, hread, hw]

namespace Symbol

theorem longest?_setApart (h : isSetApart rest = true) (functionBind : Bool) (cs : List Char) :
    longest? functionBind (cs ++ rest) = longest? functionBind cs := by
  have hno : ∀ symbol ∈ all, symbol.text.toList.all (!Text.isBlank ·) = true := by decide
  unfold longest?
  refine List.find?_congr fun symbol hm => ?_
  rw [isPrefixOf_setApart (hno symbol hm) h]

theorem read_append {symbol : Symbol} (hp : symbol.text.toList <+: cs) (rest : List Char) :
    symbol.read (cs ++ rest) = { symbol.read cs with rest := (symbol.read cs).rest ++ rest } := by
  rw [read, List.drop_append_of_le_length hp.length_le]
  rfl

end Symbol

/-- A lexeme is read the same if something set apart follows. -/
theorem readLexeme_setApart (h : isSetApart rest = true) (hne : cs ≠ [])
    (hok : (readLexeme options cs).outcome = .ok l) :
    readLexeme options (cs ++ rest) =
      { readLexeme options cs with rest := (readLexeme options cs).rest ++ rest } := by
  cases cs with
  | nil => contradiction
  | cons c cs =>
    have hh : opensHiddenComment (c :: cs ++ rest) = false := by
      rw [opensHiddenComment, isPrefixOf_setApart (by decide) h, ← Bool.not_eq_true]
      exact fun hh => not_hidden_of_read hok (List.isPrefixOf_iff_prefix.1 hh)
    have hr := lexemeReading options c cs
    rw [List.cons_append] at hh ⊢
    generalize readLexeme options (c :: cs) = r at hok hr
    cases hr with
    | hidden | unexpected => cases hok
    | word hw =>
      rw [readLexeme_of_word hh hw, ← List.cons_append]
      exact readWord_setApart h hw hok
    | number hw hn =>
      rw [← startsNumber_setApart h] at hn
      rw [readLexeme_of_number hh hw hn]
      exact readNumber_setApart h (c :: cs)
    | symbol hw hn hs =>
      have hp := (Symbol.mem_of_longest? hs).2.2
      rw [← startsNumber_setApart h] at hn
      rw [← Symbol.longest?_setApart h] at hs
      rw [readLexeme_of_symbol hh hw hn hs]
      exact Symbol.read_append hp rest

/-- What has been read as a lexeme is read as that lexeme before anything that is set apart. -/
theorem readLexeme_taken (h : isSetApart rest = true) (hok : (readLexeme options cs).outcome = .ok l)
    (hl : l.1 ≠ .eof) :
    readLexeme options ((readLexeme options cs).taken ++ rest) =
      { readLexeme options cs with rest } := by
  have hcut := readLexeme_cut hok hl List.nil_prefix
  rw [List.append_nil] at hcut
  have happend := readLexeme_setApart h (readLexeme_taken_ne_nil hok hl)
    ((congrArg Reading.outcome hcut).trans hok)
  rw [happend, hcut]
  rfl

end ArithLang
