import ArithLang.Proofs.Lexeme.Apart
import ArithLang.Proofs.Scanner.Adjacent
import ArithLang.Proofs.Scanner.Cut

/-!
The tokens of a text, written again with nothing but white space between them, are the same tokens:
what stood around them does not matter to what they are.
-/

namespace ArithLang

/-- Texts one after the other, each but the first with a gap of its own before it. -/
def Text.spaced (gaps texts : List (List Char)) : List Char :=
  (List.zipWith (· ++ ·) ([] :: gaps) texts).flatten

/-- The text is read as the lexeme wherever it is set apart from what follows. -/
structure ReadsApart (options : Options) (text : List Char) (l : Lexeme) : Prop where
  kind_ne_eof : l.1 ≠ .eof
  head : text.head?.any (!Text.isBlank ·) = true
  read : ∀ rest, isSetApart rest = true →
    (readLexeme options (text ++ rest)).outcome = .ok l ∧
      (readLexeme options (text ++ rest)).taken = text

/-- Lexemes that are set apart from each other by white space. -/
inductive Spaced (options : Options) : List Char → List Lexeme → Prop
  | nil : Spaced options [] []
  | cons : (∀ c ∈ gap, Text.isWhitespace c = true) → ReadsApart options text l →
      isSetApart rest = true → Spaced options rest ls → Spaced options (gap ++ text ++ rest) (l :: ls)

variable {options : Options} {gap text rest cs input : List Char} {l : Lexeme} {ls : List Lexeme}
  {t : Token} {ts : List Token} {gaps : List (List Char)}

theorem not_isLineBreak_of_isWhitespace {c : Char} (h : Text.isWhitespace c = true) :
    Text.isLineBreak c = false := by
  rw [← Bool.not_eq_true]
  intro hb
  obtain rfl | rfl | rfl | rfl := Text.isLineBreak_iff.1 hb <;> cases h

theorem isBlank_of_isWhitespace {c : Char} (h : Text.isWhitespace c = true) :
    Text.isBlank c = true := by
  rw [Text.isBlank, h]
  rfl

/-- White space in front of a lexeme is all of the gap before it. -/
theorem readGap_spaced {moduleCode : Bool} (hg : ∀ c ∈ gap, Text.isWhitespace c = true)
    (hh : cs.head?.any (!Text.isBlank ·) = true) (ho : opensHiddenComment cs = false) :
    readGap moduleCode false (gap ++ cs) = ⟨gap, cs⟩ := by
  cases cs with
  | nil => cases hh
  | cons c cs =>
    have hc : Text.isBlank c = false := by simpa using hh
    obtain ⟨hb, hab⟩ := takeWhile_stop (fun c h => isBlank_of_isWhitespace (hg c h)) hc cs
    have hbreak : Text.containsLineBreak gap = false := by
      rw [Text.containsLineBreak, List.any_eq_false]
      intro c h
      simp [not_isLineBreak_of_isWhitespace (hg c h)]
    have hno : ¬ opensComment moduleCode (false || Text.containsLineBreak gap) (c :: cs) = true := by
      simp [opensComment, hbreak, ho]
    rw [readGap, blanks, afterBlanks, hb, hab]
    exact if_neg hno

namespace ScanState

variable {s s' : ScanState}

theorem Finds.readsApart (h : s.Finds options t s') (hk : t.kind ≠ .eof) :
    ReadsApart options (s.reading options).taken t.lexeme where
  kind_ne_eof := hk
  head := by
    have hne := readLexeme_taken_ne_nil h.outcome_eq hk
    have hstop : (s.gap options).rest.head?.all (!Text.isBlank ·) = true := (readGap_stops _ _ _).1
    rw [← s.reading_append] at hstop
    change (s.reading options).taken ≠ [] at hne
    cases ht : (s.reading options).taken with
    | nil => exact absurd ht hne
    | cons c taken =>
      rw [ht] at hstop
      exact hstop
  read rest hr := by
    have := readLexeme_taken hr h.outcome_eq hk
    rw [reading, this]
    exact ⟨h.outcome_eq, rfl⟩

/-- A scan where a lexeme stands that is set apart on both sides. -/
theorem next_of_readsApart (hline : s.stop.line = s.place.line) (hrest : s.rest = gap ++ text ++ rest)
    (hg : ∀ c ∈ gap, Text.isWhitespace c = true) (ht : ReadsApart options text l)
    (hr : isSetApart rest = true) :
    ∃ t s', s.next options = (.ok t, s') ∧ t.lexeme = l ∧ s'.rest = rest ∧
      s'.stop.line = s'.place.line := by
  obtain ⟨hout, htaken⟩ := ht.read rest hr
  have hhead : (text ++ rest).head?.any (!Text.isBlank ·) = true := by
    have := ht.head
    cases text with
    | nil => cases this
    | cons => exact this
  have hgap : s.gap options = ⟨gap, text ++ rest⟩ := by
    rw [gap_of_line hline, hrest, List.append_assoc]
    refine readGap_spaced hg hhead (eq_false_of_ne_true fun ho => ?_)
    exact not_hidden_of_read hout (List.isPrefixOf_iff_prefix.1 ho)
  have hread : s.reading options = readLexeme options (text ++ rest) := by rw [reading, hgap]
  obtain ⟨s', hn⟩ := next_of_outcome (s := s) (by rw [hread]; exact hout)
  have hf := finds_of_next hn
  refine ⟨_, s', hn, ?_, ?_, hf.line_eq⟩
  · exact Except.ok.inj ((hf.outcome_eq.symm.trans (congrArg Reading.outcome hread)).trans hout)
  · have happend := readLexeme_append options (text ++ rest)
    rw [htaken] at happend
    rw [hf.rest_eq, hread]
    exact List.append_cancel_left happend

end ScanState

theorem Token.lexeme_of_eof (h : t.lexeme.Genuine) (hk : t.kind = .eof) :
    t.lexeme = Lexeme.mark .eof := by
  have := Lexeme.Genuine.eq_mark h
  unfold Token.lexeme at *
  rw [hk] at *
  exact this rfl (by decide)

/-- Lexemes that are set apart are found one after the other, and then the end. -/
theorem Spaced.yields {s : Scanner} (h : Spaced s.options cs ls) (hrest : s.state.rest = cs)
    (he : s.ended = false) (hline : s.state.stop.line = s.state.place.line) :
    ∃ ts : List Token, s.Yields (ts.map .ok) ∧ ts.map Token.lexeme = ls ++ [.mark .eof] := by
  generalize ho : s.options = options at h
  induction h generalizing s with
  | nil =>
    obtain ⟨t, s', hn, hk⟩ := ScanState.next_of_end s.options hrest
    have hlast : Scanner.isLast (.ok t) = true := beq_iff_eq.2 hk
    have hnext := Scanner.next?_of_next he (Scanner.next_of_state hn)
    refine ⟨[t], .more hnext (.done (Scanner.next?_of_ended hlast)), ?_⟩
    exact congrArg (· :: []) (Token.lexeme_of_eof (ScanState.finds_of_next hn).genuine hk)
  | cons hg ht hr hs ih =>
    subst ho
    obtain ⟨t, s', hn, hl, hrest', hline'⟩ :=
      ScanState.next_of_readsApart hline hrest hg ht hr
    have hlast : Scanner.isLast (.ok t) = false := beq_false_of_ne fun hk => ht.kind_ne_eof (hl ▸ hk)
    have hnext := Scanner.next?_of_next he (Scanner.next_of_state hn)
    obtain ⟨ts, hy, hts⟩ := ih (s := { s with state := s', ended := Scanner.isLast (.ok t) })
      hrest' hlast hline' rfl
    exact ⟨t :: ts, .more hnext hy, congrArg₂ _ hl hts⟩

theorem isSetApart_of_gap (hg : gap ≠ [] ∧ ∀ c ∈ gap, Text.isWhitespace c = true) (rest : List Char) :
    isSetApart (gap ++ rest) = true := by
  cases gap with
  | nil => exact absurd rfl hg.1
  | cons c gap => exact isBlank_of_isWhitespace (hg.2 c List.mem_cons_self)

variable {text : Token → List Char}

theorem spaced_zipWith (hl : gaps.length = ts.length)
    (hg : ∀ gap ∈ gaps, gap ≠ [] ∧ ∀ c ∈ gap, Text.isWhitespace c = true)
    (ht : ∀ t ∈ ts, ReadsApart options (text t) t.lexeme) :
    let cs := (List.zipWith (· ++ ·) gaps (ts.map text)).flatten
    isSetApart cs = true ∧ Spaced options cs (ts.map Token.lexeme) := by
  induction ts generalizing gaps with
  | nil =>
    cases gaps with
    | nil => exact ⟨rfl, .nil⟩
    | cons => cases hl
  | cons t ts ih =>
    cases gaps with
    | nil => cases hl
    | cons gap gaps =>
      rw [List.forall_mem_cons] at hg ht
      obtain ⟨hapart, hspaced⟩ := ih (Nat.succ.inj hl) hg.2 ht.2
      simp only [List.map_cons, List.zipWith_cons_cons, List.flatten_cons]
      refine ⟨?_, .cons hg.1.2 ht.1 hapart hspaced⟩
      rw [List.append_assoc]
      exact isSetApart_of_gap hg.1 _

theorem spaced_of_gaps (hl : gaps.length = ts.length - 1)
    (hg : ∀ gap ∈ gaps, gap ≠ [] ∧ ∀ c ∈ gap, Text.isWhitespace c = true)
    (ht : ∀ t ∈ ts, ReadsApart options (text t) t.lexeme) :
    Spaced options (Text.spaced gaps (ts.map text)) (ts.map Token.lexeme) := by
  cases ts with
  | nil => exact .nil
  | cons t ts =>
    rw [List.forall_mem_cons] at ht
    obtain ⟨hapart, hspaced⟩ := spaced_zipWith hl hg ht.2
    exact .cons (List.forall_mem_nil (Text.isWhitespace · = true)) ht.1 hapart hspaced

/-- The tokens of a text but the last, which is its end. -/
theorem readsApart_of_tokenize (h : tokenize input options = .ok ts) :
    (∀ t ∈ ts.dropLast, ReadsApart options (t.source input).toList t.lexeme) ∧
      ts.map Token.lexeme = ts.dropLast.map Token.lexeme ++ [.mark .eof] := by
  obtain ⟨rs, hy, -⟩ := Scanner.exists_yields (Scanner.start input options) rfl
  have hloc : (Scanner.start input options).state.Located input := ScanState.located_start input
  have hb : (Scanner.start input options).state.Between [] := ⟨rfl, rfl⟩
  obtain ⟨body, passed, r, s, _, rfl, hr, hp, -⟩ := hy.run rfl hb
  rw [Scanner.tokenize_eq hy, Scanner.gather_append] at h
  cases r with
  | error => cases h
  | ok last =>
    cases h
    rw [List.dropLast_concat, List.map_append]
    constructor
    · intro t ht
      obtain ⟨pre, post, rfl⟩ := List.append_of_mem ht
      have hmap : (pre ++ t :: post).map (.ok : Token → Except LexError Token) ++ [.ok last] =
          (pre ++ t :: (post ++ [last])).map .ok := by simp
      rw [hmap] at hy
      obtain ⟨s₀, s₁, hl, ho, hn, -⟩ := hy.exists_next hloc
      have hf := ScanState.finds_of_next (Scanner.next_eq hn).1
      rw [ho] at hf
      have := hf.readsApart (hp.bounds t ht).1
      rw [Token.source, hf.slice?_eq hl, Option.getD_some, String.toList_ofList]
      exact this
    · have hk : last.kind = .eof := eq_of_beq hr
      have hy : (Scanner.start input options).Yields ((body ++ [last]).map .ok) := by
        rw [List.map_append]
        exact hy
      obtain ⟨s₀, s₁, -, -, hn, -⟩ := hy.exists_next hloc
      have hf := ScanState.finds_of_next (Scanner.next_eq hn).1
      exact congrArg (_ ++ [·]) (Token.lexeme_of_eof hf.genuine hk)

/-- Tokens with white space between them, whatever stood there before, are the same tokens. -/
theorem tokenize_spaced (h : tokenize input options = .ok ts)
    (hl : gaps.length = ts.dropLast.length - 1)
    (hg : ∀ gap ∈ gaps, gap ≠ [] ∧ ∀ c ∈ gap, Text.isWhitespace c = true) :
    ∃ ts', tokenize (Text.spaced gaps (ts.dropLast.map fun t => (t.source input).toList)) options =
      .ok ts' ∧ ts'.map Token.lexeme = ts.map Token.lexeme := by
  obtain ⟨ht, hlast⟩ := readsApart_of_tokenize h
  have hs := spaced_of_gaps hl hg ht
  obtain ⟨ts', hy, hts⟩ := hs.yields (s := .start _ options) rfl rfl rfl
  exact ⟨ts', (Scanner.tokenize_eq hy).trans (Scanner.gather_eq_ok.2 rfl), hts.trans hlast.symm⟩

/-- A comment, a line break and no gap at all: the tokens stay when a tab stands for each. -/
theorem tokenize_spaced_tabs : ∃ ts ts', tokenize "a--b\n--> c\n>>>= .5".toList {} = .ok ts ∧
    (List.replicate 4 ['\t']).length = ts.dropLast.length - 1 ∧
    tokenize "a\t--\tb\t>>>=\t.5".toList {} = .ok ts' ∧
      ts'.map Token.lexeme = ts.map Token.lexeme := by
  have hok : (tokenize "a--b\n--> c\n>>>= .5".toList {}).toOption.any (fun ts =>
      ts.dropLast.length == 5 && (Text.spaced (List.replicate 4 ['\t'])
        (ts.dropLast.map fun t => (t.source "a--b\n--> c\n>>>= .5".toList).toList) ==
          "a\t--\tb\t>>>=\t.5".toList)) = true := by
    decide +kernel
  cases h : tokenize "a--b\n--> c\n>>>= .5".toList {} with
  | error e =>
    rw [h] at hok
    cases hok
  | ok ts =>
    rw [h] at hok
    obtain ⟨hlength, htext⟩ := (Bool.and_eq_true _ _).mp hok
    have hl : (List.replicate 4 ['\t']).length = ts.dropLast.length - 1 := by
      rw [eq_of_beq hlength]
      rfl
    obtain ⟨ts', hts, hlexemes⟩ := tokenize_spaced h hl fun gap hgap => by
      obtain rfl := List.eq_of_mem_replicate hgap
      exact ⟨List.cons_ne_nil _ _, List.all_eq_true.1 rfl⟩
    rw [eq_of_beq htext] at hts
    exact ⟨ts, ts', rfl, hl, hts, hlexemes⟩

end ArithLang
