import ArithLang.Proofs.Lexeme.Longest
import ArithLang.Proofs.Position
import ArithLang.Proofs.Scanner.Results

/-!
A text that is tokenized is cut into gaps and tokens without anything left over. Every token stands
where the gap before it ends, and is the longest lexeme there.
-/

namespace ArithLang

open Text (byteLength containsLineBreak)

/-- A token at the end of a gap, both after some text. It stands where no comment begins. -/
structure Stands (options : Options) (passed gap rest : List Char) (t : Token) : Prop where
  isGap : IsGap options.moduleCode false gap rest
  start_eq : t.start.offset = byteLength (passed ++ gap)
  opens_none : ¬ "<!--".toList <+: rest
  closes_none : containsLineBreak gap = true → ¬ "-->".toList <+: rest

/-- A token that is the longest lexeme at the head of a text. -/
structure Covers (options : Options) (text rest : List Char) (t : Token) : Prop where
  lexeme : IsLexeme (options.hasPlugin .functionBind) text t.lexeme
  longest : ∀ other l, other <+: text ++ rest →
    IsLexeme (options.hasPlugin .functionBind) other l → other <+: text
  stop_eq : t.stop.offset = t.start.offset + byteLength text

/-- A text, after what is passed already, as gaps and tokens in turn, up to a rest. -/
inductive Partitions (options : Options) :
    (passed text : List Char) → List Token → (passed' rest : List Char) → Prop
  | nil : Partitions options passed rest [] passed rest
  | token : Stands options passed gap (text ++ rest) t → Covers options text rest t →
      Partitions options (passed ++ gap ++ text) rest ts passed' rest' →
      Partitions options passed (gap ++ text ++ rest) (t :: ts) passed' rest'

/-- The end of the text, with nothing but a gap before it. -/
structure EndsAt (options : Options) (passed gap : List Char) (t : Token) : Prop
    extends Stands options passed gap [] t where
  lexeme_eq : t.lexeme = (.eof, .none)
  stop_eq : t.stop.offset = t.start.offset

/-- A scanner between two tokens: no line break has been passed since the last. -/
structure ScanState.Between (s : ScanState) (passed : List Char) : Prop where
  offset_eq : s.place.offset = byteLength passed
  line_eq : s.stop.line = s.place.line

section

variable {s s' : ScanState} {options : Options} {passed : List Char} {t : Token} {e : LexError}

theorem ScanState.Finds.stop_offset (h : s.Finds options t s') :
    t.stop.offset = t.start.offset + byteLength (s.reading options).taken := by
  rw [h.stop_eq, h.start_eq]
  exact Place.offset_pass _ _

namespace ScanState.Between

theorem gap_eq (h : s.Between passed) :
    s.gap options = readGap options.moduleCode false s.rest :=
  ScanState.gap_of_line h.line_eq

theorem startPlace_eq (h : s.Between passed) :
    (s.startPlace options).offset = byteLength (passed ++ (s.gap options).taken) := by
  rw [ScanState.startPlace, Place.offset_count, Place.offset_pass, h.offset_eq,
    Text.byteLength_append]

theorem isGap (h : s.Between passed) (options : Options) :
    IsGap options.moduleCode false (s.gap options).taken (s.gap options).rest := by
  rw [h.gap_eq]
  exact readGap_isGap ..

theorem stands (h : s.Between passed) (hf : s.Finds options t s') :
    Stands options passed (s.gap options).taken (s.gap options).rest t where
  isGap := h.isGap options
  start_eq := by
    rw [hf.start_eq, ← h.startPlace_eq]
    rfl
  opens_none := not_hidden_of_read hf.outcome_eq
  closes_none hbreak hclose := by
    rw [h.gap_eq] at hbreak hclose
    have hstop := (readGap_stops options.moduleCode false s.rest).2
    rw [hbreak] at hstop
    rw [opensComment_iff.2 (.inl ⟨Bool.or_true _, hclose⟩)] at hstop
    cases hstop

/-- What one scan does: it ends the text, or it cuts off one token. -/
theorem step (h : s.Between passed) (hf : s.Finds options t s') :
    t.kind = .eof ∧ EndsAt options passed s.rest t ∨
      t.kind ≠ .eof ∧ ∃ gap text, s.rest = gap ++ text ++ s'.rest ∧
        Stands options passed gap (text ++ s'.rest) t ∧ Covers options text s'.rest t ∧
        s'.Between (passed ++ gap ++ text) := by
  have hstands := h.stands hf
  have hgap := s.gap_append options
  have hreading := s.reading_append options
  rw [← hf.rest_eq] at hreading
  obtain ⟨hnil, hl⟩ | hl := isLexeme_of_read hf.outcome_eq
  · refine .inl ⟨(Prod.mk.inj hl).1, ?_⟩
    rw [hnil, List.append_nil] at hgap
    rw [hnil] at hreading hstands
    rw [hgap] at hstands
    refine ⟨hstands, hl, ?_⟩
    rw [hf.stop_offset, (List.append_eq_nil_iff.1 hreading).1, Text.byteLength_nil, Nat.add_zero]
  · refine .inr ⟨hl.kind_ne_eof, (s.gap options).taken, (s.reading options).taken, ?_, ?_,
      ⟨hl, fun other l hp ho => ?_, hf.stop_offset⟩, ?_⟩
    · rw [List.append_assoc, hreading, hgap]
    · rw [hreading]
      exact hstands
    · rw [hreading] at hp
      exact ho.prefix_taken hp hf.outcome_eq
    · constructor
      · rw [hf.place_eq, Place.offset_count, ScanState.stopPlace, Place.offset_pass,
          h.startPlace_eq, Text.byteLength_append (passed ++ _)]
      · have hstop : s'.stop = t.stop := congrArg Token.stop hf.token_eq
        rw [hstop, hf.stop_eq, hf.place_eq]
        rfl

/-- A scan that fails at an unexpected character stands on one that begins no lexeme. -/
theorem unexpected (h : s.Between passed) {ch : Char} {pos : Nat}
    (hf : s.Fails options ⟨.unexpectedCharacter ch, pos⟩ s') :
    ∃ gap rest, s.rest = gap ++ ch :: rest ∧ IsGap options.moduleCode false gap (ch :: rest) ∧
      pos = byteLength (passed ++ gap) ∧
        ∀ text l, ¬ IsLexeme (options.hasPlugin .functionBind) (ch :: text) l := by
  obtain ⟨⟨_, offset⟩, hout, heq⟩ := hf.outcome_eq
  cases heq
  obtain ⟨rfl, ⟨rest, hrest⟩, hnone⟩ := readLexeme_unexpected hout
  have hgap := s.gap_append options
  have hisGap := h.isGap options
  rw [hrest] at hgap hisGap
  exact ⟨_, rest, hgap.symm, hisGap, (Nat.zero_add _).trans h.startPlace_eq, hnone⟩

end ScanState.Between

end

namespace Partitions

variable {options : Options} {passed text passed' rest : List Char} {ts : List Token}

/-- Nothing of the text is lost. -/
theorem append_eq (h : Partitions options passed text ts passed' rest) :
    passed' ++ rest = passed ++ text := by
  induction h with
  | nil => rfl
  | token _ _ _ ih => simpa using ih

theorem byteLength_le (h : Partitions options passed text ts passed' rest) :
    byteLength passed ≤ byteLength passed' := by
  induction h with
  | nil => exact Nat.le_refl _
  | token _ _ _ ih =>
    rw [Text.byteLength_append, Text.byteLength_append] at ih
    omega

theorem bounds (h : Partitions options passed text ts passed' rest) : ∀ t ∈ ts,
    t.kind ≠ .eof ∧ byteLength passed ≤ t.start.offset ∧ t.start.offset < t.stop.offset ∧
      t.stop.offset ≤ byteLength passed' := by
  induction h with
  | nil => exact nofun
  | token hs hc hp ih =>
    have hlast := hp.byteLength_le
    have hstart := hs.start_eq
    have hstop := hc.stop_eq
    have hpos := Text.byteLength_pos hc.lexeme.ne_nil
    rw [List.forall_mem_cons]
    simp only [Text.byteLength_append] at hlast hstart ih
    refine ⟨⟨hc.lexeme.kind_ne_eof, by omega, by omega, by omega⟩, fun u hu => ?_⟩
    obtain ⟨hk, hlo, hlt, hhi⟩ := ih u hu
    exact ⟨hk, by omega, hlt, hhi⟩

theorem pairwise (h : Partitions options passed text ts passed' rest) :
    ts.Pairwise fun t u => t.stop.offset ≤ u.start.offset := by
  induction h with
  | nil => exact .nil
  | token hs hc hp ih =>
    refine .cons (fun u hu => ?_) ih
    have hlo := (hp.bounds u hu).2.1
    rw [Text.byteLength_append, ← hs.start_eq, ← hc.stop_eq] at hlo
    exact hlo

/-- What is cut off a text up to its end, with the end itself, stands in order within the text. -/
theorem ended {input gap : List Char} {last : Token}
    (h : Partitions options [] input ts passed' gap) (hend : EndsAt options passed' gap last) :
    input = passed' ++ gap ∧ last.start.offset = byteLength input ∧
      last.stop.offset = byteLength input ∧
        (∀ t ∈ ts, t.kind ≠ .eof ∧ t.start.offset < t.stop.offset) ∧
          (ts ++ [last]).Pairwise fun t u => t.stop.offset ≤ u.start.offset := by
  have hinput : input = passed' ++ gap := h.append_eq.symm
  have hstart := hend.start_eq
  rw [← hinput] at hstart
  refine ⟨hinput, hstart, hend.stop_eq.trans hstart, fun t ht => ?_, ?_⟩
  · obtain ⟨hk, -, hlt, -⟩ := h.bounds t ht
    exact ⟨hk, hlt⟩
  · refine List.pairwise_append.2 ⟨h.pairwise, List.pairwise_singleton .., ?_⟩
    intro t ht u hu
    cases List.mem_singleton.1 hu
    obtain ⟨-, -, -, hle⟩ := h.bounds t ht
    rw [hstart, hinput, Text.byteLength_append]
    exact Nat.le_trans hle (Nat.le_add_right ..)

end Partitions

/-- A stream that is not at its end: some tokens, each cut off the text, and a last result. -/
theorem Scanner.Yields.run {s : Scanner} {rs : List (Except LexError Token)} {passed : List Char}
    (h : s.Yields rs) (he : s.ended = false) (hb : s.state.Between passed) :
    ∃ body passed' r, ∃ s' s'' : ScanState, rs = body.map .ok ++ [r] ∧ isLast r = true ∧
      Partitions s.options passed s.state.rest body passed' s'.rest ∧ s'.Between passed' ∧
        s'.next s.options = (r, s'') := by
  induction h generalizing passed with
  | done hn => cases hn.symm.trans (next?_of_next he rfl)
  | @more r _ rs s hn hy ih =>
    obtain ⟨-, d, hd, rfl⟩ := next?_eq_some hn
    obtain ⟨hnext, hd⟩ := next_eq hd
    have hoptions : d.options = s.options := by rw [hd]
    cases hlast : isLast r with
    | true =>
      cases hy.eq_nil hlast
      exact ⟨[], passed, r, s.state, d.state, rfl, hlast, .nil, hb, hnext⟩
    | false =>
      cases r with
      | error e => cases hlast
      | ok t =>
        have hk : t.kind ≠ .eof := ne_of_beq_false hlast
        obtain ⟨heof, -⟩ | ⟨-, gap, text, hrest, hstands, hcovers, hb⟩ :=
          hb.step (ScanState.finds_of_next hnext)
        · exact absurd heof hk
        · obtain ⟨body, passed', r, s', s'', rfl, hr, hp, hb, hnext⟩ := ih hlast hb
          change Partitions d.options _ d.state.rest _ _ _ at hp
          change s'.next d.options = _ at hnext
          rw [hoptions] at hp hnext
          rw [hrest]
          exact ⟨t :: body, passed', r, s', s'', rfl, hr, .token hstands hcovers hp, hb, hnext⟩

end ArithLang
