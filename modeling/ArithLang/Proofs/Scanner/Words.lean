import ArithLang.Proofs.Lexeme.Misspelled
import ArithLang.Proofs.Scanner.Adjacent
import ArithLang.Proofs.Scanner.Cut

/-!
Words in a text. Where a word begins, a scan finds the word that is spelled there, or what is wrong
with its spelling, and it finds words nowhere else.
-/

namespace ArithLang

/-- The text begins with a spelling of a word that nothing goes on with. -/
structure BeginsWord (cs text word : List Char) (escaped : Bool) (rest : List Char) : Prop where
  append_eq : text ++ rest = cs
  spelled : IsSpelled true text word escaped
  ends : endsWord rest = true

/-- The token of a word. It is a keyword only if no character of the word is escaped. -/
structure Token.IsWord (t : Token) (word : String) (escaped : Bool) : Prop where
  value_eq : t.value = .text word
  isWord : t.kind.isWord = true
  keyword_iff : ∀ k ∈ Kind.words, t.kind = k ↔ k.label = word ∧ escaped = false

variable {cs text word rest : List Char} {escaped : Bool} {e : LexError} {options : Options}
  {t : Token}

theorem IsSpelled.startsWord (h : IsSpelled true text word escaped) (rest : List Char) :
    (text ++ rest).head?.any startsWord = true := by
  cases text with
  | nil => cases h
  | cons c text => exact h.head_eq

theorem keyword?_label {k : Kind} (hk : k ∈ Kind.words) : Kind.keyword? k.label = some k := by
  revert k
  decide

theorem Token.isWord_of_lexeme {word : String} (h : t.lexeme = (wordKind word escaped, .text word)) :
    t.IsWord word escaped := by
  obtain ⟨hkind, hvalue⟩ := Prod.mk.inj h
  refine ⟨hvalue, hkind ▸ isWord_wordKind word escaped, fun k hk => ?_⟩
  rw [hkind]
  constructor
  · rintro rfl
    cases escaped with
    | true =>
      have : Kind.name ∉ Kind.words := by decide
      exact absurd hk this
    | false =>
      unfold wordKind at hk ⊢
      cases hw : Kind.keyword? word with
      | none =>
        rw [hw] at hk
        have : Kind.name ∉ Kind.words := by decide
        exact absurd hk this
      | some k => exact ⟨(Kind.keyword?_mem hw).2, rfl⟩
  · rintro ⟨rfl, rfl⟩
    rw [wordKind, keyword?_label hk]
    rfl

/-- The text is read as a word exactly where it begins with the spelling of one. -/
theorem beginsWord_iff (h : cs.head?.any startsWord = true) :
    BeginsWord cs text word escaped rest ↔
      readSpelledWord true cs = ⟨text, rest, escaped, .ok word⟩ := by
  constructor
  · rintro ⟨rfl, hs, hr⟩
    exact hs.read hr
  · intro hread
    have hok : (readSpelledWord true cs).outcome = .ok word := by rw [hread]
    have happend := readSpelledWord_append true cs
    have hspelled := isSpelled_of_read (fun _ => h) hok
    have hends := endsWord_rest_of_read hok
    rw [hread] at happend hspelled hends
    exact ⟨happend, hspelled, hends⟩

theorem beginsWord_of_read (h : cs.head?.any startsWord = true)
    (hok : (readSpelledWord true cs).outcome = .ok word) :
    BeginsWord cs (readSpelledWord true cs).taken word (readSpelledWord true cs).escaped
      (readSpelledWord true cs).rest := by
  rw [beginsWord_iff h, ← hok]

/-- Where a word begins, either it is spelled well or something is wrong with it. -/
theorem beginsWord_or (h : cs.head?.any startsWord = true) :
    (∃ text word escaped rest, BeginsWord cs text word escaped rest) ∨ ∃ e, Misspelled true cs e := by
  cases ho : (readSpelledWord true cs).outcome with
  | error e => exact .inr ⟨e, misspelled_of_error (fun _ => h) ho⟩
  | ok word => exact .inl ⟨_, word, _, _, beginsWord_of_read h ho⟩

theorem readWord_eq_ok {l : Lexeme} (h : (readWord cs).outcome = .ok l) :
    ∃ word, (readSpelledWord true cs).outcome = .ok word ∧
      l = (wordKind (.ofList word) (readSpelledWord true cs).escaped, .text (.ofList word)) := by
  simp only [readWord] at h
  split at h
  · next word hword => exact ⟨word, hword, (Except.ok.inj h).symm⟩
  · cases h

theorem readWord_eq_error_iff :
    (readWord cs).outcome = .error e ↔ (readSpelledWord true cs).outcome = .error e := by
  simp only [readWord]
  split
  · next h => simp [h]
  · next h => simp [h]

theorem readLexeme_eq_word (h : cs.head?.any startsWord = true) :
    readLexeme options cs = readWord cs := by
  cases cs with
  | nil => cases h
  | cons c cs =>
    refine readLexeme_of_word (eq_false_of_ne_true fun hh => ?_) h
    have hc : '<' = c := (List.cons_prefix_cons.1 (List.isPrefixOf_iff_prefix.1 hh)).1
    subst hc
    have : startsWord '<' = false := by decide +kernel
    cases this.symm.trans h

namespace ScanState

variable {s s' : ScanState}

theorem escaped_next (s : ScanState) (options : Options) :
    (s.next options).2.escaped = (s.reading options).escaped.getD s.escaped := by
  rw [next_eq, passReading]
  split <;> rfl

/-- A scan at the spelling of a word. -/
theorem next_of_word (h : BeginsWord (s.gap options).rest text word escaped rest) :
    ∃ t s', s.next options = (.ok t, s') ∧ s.Finds options t s' ∧
      (s.reading options).taken = text ∧ t.IsWord (.ofList word) escaped ∧
        s'.rest = rest ∧ s'.escaped = escaped := by
  have hstart : (s.gap options).rest.head?.any startsWord = true :=
    h.append_eq ▸ h.spelled.startsWord rest
  have hread : s.reading options = ⟨text, rest, some escaped,
      .ok (wordKind (.ofList word) escaped, .text (.ofList word))⟩ := by
    rw [reading, readLexeme_eq_word hstart, readWord, (beginsWord_iff hstart).1 h]
  have hout := congrArg Reading.outcome hread
  obtain ⟨s', hn⟩ := next_of_outcome hout
  have hf := finds_of_next hn
  have hescaped := s.escaped_next options
  rw [hn, hread] at hescaped
  refine ⟨_, s', hn, hf, congrArg Reading.taken hread, Token.isWord_of_lexeme ?_, ?_, hescaped⟩
  · exact Except.ok.inj (hf.outcome_eq.symm.trans hout)
  · rw [hf.rest_eq, hread]

/-- A word that a scan finds is spelled where it is found. -/
theorem Finds.beginsWord (h : s.Finds options t s') (hk : t.kind.isWord = true) :
    ∃ word escaped,
      BeginsWord (s.gap options).rest (s.reading options).taken word escaped s'.rest ∧
        t.IsWord (.ofList word) escaped := by
  have hstart : (s.gap options).rest.head?.any startsWord = true :=
    (readLexeme_isWord h.outcome_eq).symm.trans hk
  have hread : s.reading options = readWord (s.gap options).rest := readLexeme_eq_word hstart
  obtain ⟨word, hword, hl⟩ := readWord_eq_ok (hread ▸ h.outcome_eq)
  rw [h.rest_eq, hread]
  exact ⟨word, _, beginsWord_of_read hstart hword, Token.isWord_of_lexeme hl⟩

theorem next_eq_error_iff : (s.next options).1 = .error (e.shift (s.startPlace options).offset) ↔
    (s.reading options).outcome = .error e := by
  cases hn : s.next options with
  | mk r s' =>
    cases r with
    | ok t =>
      have := (finds_of_next hn).outcome_eq
      simp [this]
    | error e' =>
      obtain ⟨fault, hout, rfl⟩ := (fails_of_next hn).outcome_eq
      rw [hout, Except.error.injEq, Except.error.injEq]
      obtain ⟨_, m⟩ := fault
      obtain ⟨_, n⟩ := e
      simp [LexError.shift]

/-- A scan where a word begins fails just as the spelling is wrong. -/
theorem next_eq_error_iff_misspelled (h : (s.gap options).rest.head?.any startsWord = true) :
    (s.next options).1 = .error (e.shift (s.startPlace options).offset) ↔
      Misspelled true (s.gap options).rest e := by
  rw [next_eq_error_iff, reading, readLexeme_eq_word h, readWord_eq_error_iff,
    readSpelledWord_eq_error_iff fun _ => h]

end ScanState

namespace Scanner

end Scanner

end ArithLang
