import ArithLang.Diagnostic
import ArithLang.Proofs.Cursor.Standing
import ArithLang.Proofs.Lexeme.Fault
import ArithLang.Proofs.Parser.Recorded

/-!
Whatever stops the reading of a text is somewhere in the text: in front of one of its characters, which
the diagnostic marks, or at its end, where there is nothing to mark.
-/

namespace ArithLang

open Text (Boundary byteLength)

variable {input : List Char} {options : Options}

theorem ScanState.Fails.boundary {s s' : ScanState} {e : LexError} (h : s.Fails options e s')
    (hl : s.Located input) : Boundary input e.offset := by
  obtain ⟨passed, hp⟩ := hl.passed
  obtain ⟨fault, hf, rfl⟩ := h.outcome_eq
  have hb := (readLexeme_boundary hf).after (passed ++ (s.gap options).taken)
  have heq := hp.append_eq options
  rw [List.append_assoc, s.reading_append] at heq
  rw [heq, Nat.add_comm, ← (hp.startPlace options).offset_eq] at hb
  exact hb

theorem Scanner.Yields.boundary {s : Scanner} {rs : List (Except LexError Token)} {e : LexError}
    (h : s.Yields rs) (hl : s.state.Located input) (he : gather rs = .error e) :
    Boundary input e.offset := by
  induction h with
  | done => cases he
  | @more r _ rs _ hn _ ih =>
    obtain ⟨-, d, hd, rfl⟩ := next?_eq_some hn
    obtain ⟨hn, -⟩ := next_eq hd
    cases r with
    | error e' =>
      cases he
      exact (ScanState.fails_of_next hn).boundary hl
    | ok t =>
      refine ih (hl.next hn) ?_
      rw [gather] at he
      cases hg : gather rs with
      | error e' =>
        rw [hg] at he
        exact he
      | ok ts =>
        rw [hg] at he
        cases he

theorem boundary_of_tokenize {e : LexError} (h : tokenize input options = .error e) :
    Boundary input e.offset := by
  obtain ⟨rs, hy, -⟩ := Scanner.exists_yields (Scanner.start input options) rfl
  rw [Scanner.tokenize_eq hy] at h
  exact hy.boundary (ScanState.located_start input) h

/-- A parser beside itself, on a text in which all its tokens start. -/
def Lockstep.standing (input : List Char) (context : Context) : Lockstep TokenStream TokenStream :=
  { Lockstep.keeping (TokenStream.Standing input) context (fun _ _ _ h ha => h.advance ha) with
    layout := { Layout.same with start := fun x y => x = y ∧ x.IsIn input }
    start := by
      rintro c _ ⟨h, rfl⟩
      exact ⟨rfl, h.current.start⟩
    stop := by
      rintro c _ ⟨-, rfl⟩
      rfl
    raw := fun {p p'} h _ => by
      change p.raw = p'.raw
      rw [Parser.raw, Parser.raw, Parser.token, Parser.token, h.2]
    offsets_eq := by
      rintro a b _ _ ⟨rfl, -⟩ ⟨rfl, -⟩
      exact Iff.rfl }

theorem boundary_of_offsets {context : Context} {a b : Nat}
    (h : (Lockstep.standing input context).layout.Offsets a b) : Boundary input a := by
  cases h with
  | intro h => exact h.2.boundary

theorem boundary_of_call {s : TokenStream} (h : s.Standing input) {context : Context} {c : Call}
    {fault : SyntaxFault} {offset : Nat}
    (he : ((Parser.ofCursor s context).call c).1 = .error (.fault fault offset)) :
    Boundary input offset := by
  have start : (Lockstep.standing input context).Parsers
      (Lockstep.standing input context).cursor (.ofCursor s context) (.ofCursor s context) :=
    ⟨⟨h, rfl⟩, ⟨rfl, rfl⟩, .none⟩
  have ends := Lockstep.call start c
  rw [Parser.call, Parser.run] at he
  generalize c.step.run (.ofCursor s context) = r at ends he
  cases ends with
  | ok => cases he
  | fault hf =>
    cases he
    exact boundary_of_offsets hf
  | lexical => cases he
  | excused hx => exact hx.elim

theorem boundary_of_parseExpression {e : SyntaxError} (h : parseExpression input options = .error e) :
    Boundary input e.offset := by
  cases e with
  | lexical e => exact boundary_of_tokenize (Parser.tokenize_of_parseExpression_lexical h)
  | fault fault offset =>
    unfold parseExpression Parser.ofText? at h
    cases hs : TokenStream.open? input options with
    | error e =>
      rw [hs] at h
      cases h
    | ok s =>
      rw [hs] at h
      exact boundary_of_call (TokenStream.standing_of_open? hs) (c := .toEnd) h

/-- The failures in which the reading of a text may end: of all its tokens, or of one expression. -/
inductive Failure.Stops (input : List Char) (options : Options) : Failure → Prop
  | lexical : tokenize input options = .error e → Stops input options (.lexical e)
  | syntactic : parseExpression input options = .error e → Stops input options (.syntactic e)

theorem Failure.Stops.boundary {failure : Failure} (h : failure.Stops input options) :
    ∃ offset, failure.offset? = some offset ∧ Boundary input offset := by
  cases h with
  | lexical h => exact ⟨_, rfl, boundary_of_tokenize h⟩
  | syntactic h => exact ⟨_, rfl, boundary_of_parseExpression h⟩

namespace Diagnostic

variable {failure : Failure} {offset : Nat} {before after : List Char}

theorem label_ofFailure (file : Nat) (source : List Char) (h : failure.offset? = some offset) :
    ∃ message, (ofFailure file source failure).label = some (labelAt file source offset message) := by
  cases failure with
  | lexical e =>
    cases h
    exact ⟨_, rfl⟩
  | syntactic e =>
    cases h
    cases e with
    | lexical => exact ⟨_, rfl⟩
    | fault => exact ⟨_, rfl⟩
  | file | other => cases h

/-- In front of a character the label is that character; at the end it is empty. -/
theorem labelAt_append (file : Nat) (before after : List Char) (message : String) :
    labelAt file (before ++ after) (byteLength before) message =
      { file, start := byteLength before, stop := byteLength (before ++ after.take 1), message } := by
  have hmin : min (byteLength before) (byteLength (before ++ after)) = byteLength before :=
    Nat.min_eq_left (by rw [Text.byteLength_append]; exact Nat.le_add_right ..)
  rw [labelAt, hmin, Text.from?_append, Text.byteLength_append]
  cases after with
  | nil => rfl
  | cons c after => rfl

theorem byteLength_take_eq_iff : byteLength before = byteLength (before ++ after.take 1) ↔
    byteLength before = byteLength (before ++ after) := by
  cases after with
  | nil => rfl
  | cons c after =>
    have := c.utf8Size_pos
    simp only [List.take_succ_cons, Text.byteLength_append, Text.byteLength_cons]
    omega

/-- The diagnostic of whatever stops the reading of a text has a label: it starts at the offset of the
failure, which lies between two characters or at an end, and covers the character there, or nothing at
the end of the text. A lexical error has the same label whether or not a parser met it. -/
theorem label_of_stops (file : Nat) (h : failure.Stops input options) :
    ∃ before after label, input = before ++ after ∧ failure.offset? = some (byteLength before) ∧
      byteLength before ≤ byteLength input ∧ (ofFailure file input failure).label = some label ∧
      label.file = file ∧ label.start = byteLength before ∧
      label.stop = byteLength (before ++ after.take 1) ∧
      (label.start = label.stop ↔ byteLength before = byteLength input) ∧
      ∀ e, failure = .lexical e ∨ failure = .syntactic (.lexical e) →
        (ofFailure file input (.lexical e)).label = some label ∧
          (ofFailure file input (.syntactic (.lexical e))).label = some label := by
  obtain ⟨offset, ho, hb⟩ := h.boundary
  have hle := hb.le
  obtain ⟨before, after, rfl, rfl⟩ := hb
  obtain ⟨message, hl⟩ := label_ofFailure file (before ++ after) ho
  rw [labelAt_append] at hl
  refine ⟨before, after, _, rfl, ho, hle, hl, rfl, rfl, rfl, byteLength_take_eq_iff, ?_⟩
  rintro e (rfl | rfl)
  · exact ⟨hl, hl⟩
  · exact ⟨hl, hl⟩

/-- A number is directly followed by a letter of two bytes. -/
theorem label_of_stops_letter : ∃ e label,
    parseExpression "é = 1ß".toList {} = .error (.lexical e) ∧ e.fault = .nameAfterNumber ∧
      (ofFailure 0 "é = 1ß".toList (.syntactic (.lexical e))).label = some label ∧
      label.start = 6 ∧ label.stop = 8 := by
  have h : (parseExpression "é = 1ß".toList {}).map (fun _ => ()) =
      .error (.lexical { fault := .nameAfterNumber, offset := 6 }) := by
    decide +kernel
  cases he : parseExpression "é = 1ß".toList {} with
  | ok =>
    rw [he] at h
    cases h
  | error e =>
    rw [he] at h
    cases h
    obtain ⟨before, after, label, heq, ho, -, hl, -, hstart, hstop, -⟩ := label_of_stops 0 (.syntactic he)
    have hbefore : byteLength before = 6 := (Option.some.inj ho).symm
    have hafter := Text.from?_append before after
    rw [← heq, hbefore] at hafter
    cases hafter
    rw [Text.byteLength_append, hbefore] at hstop
    exact ⟨_, label, rfl, rfl, hl, hstart.trans hbefore, hstop⟩

end Diagnostic

end ArithLang
