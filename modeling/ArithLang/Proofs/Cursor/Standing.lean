import ArithLang.Proofs.Cursor.Stream
import ArithLang.Proofs.Scanner.Partition
import ArithLang.Proofs.Scanner.Positions

/-!
The cursor over a text stands on a token of the text. Moves, also those that fail, keep to that; so the
tokens that are passed lie in the text one after the other.
-/

namespace ArithLang

open TokenCursor (Passes)

/-- The token stands in a text, and covers some of it if it is not the end. -/
structure Token.StandsIn (t : Token) (input : List Char) : Prop where
  start : t.start.IsIn input
  stop : t.stop.IsIn input
  offset_lt : t.kind ≠ .eof → t.start.offset < t.stop.offset

/-- The text that a token covers. -/
def Token.source (input : List Char) (t : Token) : String :=
  .ofList ((Text.slice? input t.start.offset t.stop.offset).getD [])

/-- Tokens of a text, one after the other. -/
structure InOrder (input : List Char) (ts : List Token) : Prop where
  standsIn : ∀ t ∈ ts, t.StandsIn input ∧ t.start.offset < t.stop.offset
  pairwise : ts.Pairwise fun t u => t.stop.offset ≤ u.start.offset

theorem InOrder.sub {input : List Char} {ts us : List Token} (h : InOrder input ts)
    (hu : us <:+: ts) : InOrder input us where
  standsIn t ht := h.standsIn t (hu.subset ht)
  pairwise := h.pairwise.sublist hu.sublist

namespace ScanState

variable {s s' : ScanState} {input : List Char} {options : Options} {t : Token}

theorem startPlace_offset (s : ScanState) (options : Options) :
    s.place.offset ≤ (s.startPlace options).offset := by
  rw [startPlace, Place.offset_count, Place.offset_pass]
  exact Nat.le_add_right ..

theorem Finds.standsIn (h : s.Finds options t s') (hl : s.Located input) : t.StandsIn input := by
  have hl' := hl.finds h
  obtain rfl := h.token_eq
  refine ⟨hl'.start, hl'.stop, fun hk => ?_⟩
  rw [h.stop_offset]
  exact Nat.lt_add_of_pos_right (Text.byteLength_pos (readLexeme_taken_ne_nil h.outcome_eq hk))

theorem Finds.start_le (h : s.Finds options t s') : s.place.offset ≤ t.start.offset := by
  rw [h.start_eq]
  exact s.startPlace_offset options

theorem Finds.place_offset (h : s.Finds options t s') : s'.place.offset = t.stop.offset := by
  rw [h.place_eq, h.stop_eq]
  rfl

theorem Fails.place_offset {e : LexError} (h : s.Fails options e s') :
    s.place.offset ≤ s'.place.offset := by
  rw [h.place_eq, stopPlace, Place.offset_pass]
  exact Nat.le_trans (s.startPlace_offset options) (Nat.le_add_right ..)

end ScanState

namespace TokenStream

/-- What is so of a stream over a text as long as it is moved, whether or not its moves fail: the
scanner has stopped after the current token, or gone on in vain. -/
structure Standing (input : List Char) (s : TokenStream) : Prop where
  genuine : s.current.lexeme.Genuine
  input_eq : s.scanner.input = input
  located : s.scanner.state.Located input
  current : s.current.StandsIn input
  stop_eq : s.scanner.state.stop = s.current.stop
  stop_le : s.current.stop.offset ≤ s.scanner.state.place.offset

variable {input : List Char} {options : Options} {s s' : TokenStream} {ts : List Token}

theorem standing_of_scan {s : Scanner} {s' : TokenStream} (hi : s.input = input)
    (hl : s.state.Located input) (h : s.next = (.ok s'.current, s'.scanner)) :
    s'.Standing input := by
  obtain ⟨hn, hs⟩ := Scanner.next_eq h
  have hf := ScanState.finds_of_next hn
  refine ⟨hf.genuine, ?_, hl.next hn, hf.standsIn hl, ?_, Nat.le_of_eq hf.place_offset.symm⟩
  · rw [hs]
    exact hi
  · rw [← hf.token_eq]
    rfl

theorem standing_of_open? (h : open? input options = .ok s) : s.Standing input :=
  standing_of_scan rfl (ScanState.located_start input) (open?_eq_ok h)

theorem Standing.advance_ok (h : s.Standing input) (ha : s.advance = (.ok (), s')) :
    s'.Standing input :=
  standing_of_scan h.input_eq h.located (advance_eq_ok.1 ha)

theorem Standing.advance_error {e : LexError} (h : s.Standing input)
    (ha : s.advance = (.error e, s')) : s'.Standing input := by
  obtain ⟨hn, hc⟩ := advance_eq_error.1 ha
  obtain ⟨hn, hs⟩ := Scanner.next_eq hn
  have hf := ScanState.fails_of_next hn
  obtain ⟨hg, hi, hl, hcur, hstop, hle⟩ := h
  rw [← hc] at hg hcur hstop hle
  refine ⟨hg, ?_, hl.next hn, hcur, hf.stop_eq.trans hstop, Nat.le_trans hle hf.place_offset⟩
  rw [hs]
  exact hi

theorem Standing.advance {r : Except LexError Unit} (h : s.Standing input)
    (ha : TokenCursor.advance s = (r, s')) : s'.Standing input := by
  cases r with
  | ok => exact h.advance_ok ha
  | error e => exact h.advance_error ha

/-- After a move the last token is the one that was current, also if moves have failed before. -/
theorem Standing.lastStop_eq (h : s.Standing input) (ha : TokenCursor.advance s = (.ok (), s')) :
    TokenCursor.lastStop s' = s.current.stop := by
  have hf := ScanState.finds_of_next (Scanner.next_eq (advance_eq_ok.1 ha)).1
  exact hf.lastStop_eq.trans h.stop_eq

theorem Standing.stop_le_start (h : s.Standing input)
    (ha : TokenCursor.advance s = (.ok (), s')) :
    s.current.stop.offset ≤ s'.current.start.offset := by
  have hf := ScanState.finds_of_next (Scanner.next_eq (advance_eq_ok.1 ha)).1
  exact Nat.le_trans h.stop_le hf.start_le

theorem Standing.passes (h : s.Standing input) (hp : Passes s ts s') : s'.Standing input := by
  induction hp with
  | refl => exact h
  | step _ ha _ ih => exact ih (h.advance_ok ha)

theorem Standing.start_le (h : s.Standing input) (hp : Passes s ts s') :
    (∀ t ∈ ts, s.current.start.offset ≤ t.start.offset) ∧
      s.current.start.offset ≤ s'.current.start.offset := by
  induction hp with
  | refl => exact ⟨List.forall_mem_nil _, Nat.le_refl _⟩
  | @step s _ _ _ hk ha _ ih =>
    obtain ⟨ht, hs⟩ := ih (h.advance_ok ha)
    have hle := Nat.le_trans (Nat.le_of_lt (h.current.offset_lt hk)) (h.stop_le_start ha)
    refine ⟨List.forall_mem_cons.2 ⟨Nat.le_refl _, fun t hm => ?_⟩, Nat.le_trans hle hs⟩
    exact Nat.le_trans hle (ht t hm)

theorem Standing.inOrder (h : s.Standing input) (hp : Passes s ts s') : InOrder input ts := by
  induction hp with
  | refl => exact ⟨List.forall_mem_nil _, .nil⟩
  | @step s _ _ _ hk ha hp ih =>
    have hnext := h.advance_ok ha
    obtain ⟨hin, hpair⟩ := ih hnext
    refine ⟨List.forall_mem_cons.2 ⟨⟨h.current, h.current.offset_lt hk⟩, hin⟩, .cons ?_ hpair⟩
    intro t ht
    exact Nat.le_trans (h.stop_le_start ha) ((hnext.start_le hp).1 t ht)

theorem Standing.stop_of_passes (h : s.Standing input) (hp : Passes s ts s') (hn : ts ≠ []) :
    some (TokenCursor.lastStop s') = ts.getLast?.map (·.stop) := by
  induction hp with
  | refl => contradiction
  | @step s _ ts _ hk ha hp ih =>
    cases ts with
    | nil =>
      cases hp.eq_of_nil
      rw [h.lastStop_eq ha]
      rfl
    | cons t ts =>
      rw [ih (h.advance_ok ha) (List.cons_ne_nil t ts), List.getLast?_cons_cons]

theorem start_of_passes (hp : Passes s ts s') (hn : ts ≠ []) :
    some s.current.start = ts.head?.map (·.start) := by
  cases hp with
  | refl => contradiction
  | step => rfl

end TokenStream

end ArithLang
