import ArithLang.Proofs.Gap
import ArithLang.Proofs.Lexeme.Reading
import ArithLang.Scanner

/-! What one scan does, said once: the gap it passes, the lexeme it reads, the state it leaves. -/

namespace ArithLang.ScanState

variable {s s' : ScanState} {options : Options} {t : Token} {e : LexError}

/-- The gap that the next scan passes. -/
def gap (s : ScanState) (options : Options) : Gap :=
  readGap options.moduleCode (s.stop.line < s.place.line) s.rest

/-- The place at which the next token starts. -/
def startPlace (s : ScanState) (options : Options) : Place :=
  (s.place.pass (s.gap options).taken).count

def reading (s : ScanState) (options : Options) : Reading :=
  readLexeme options (s.gap options).rest

/-- The place after what the next scan reads. -/
def stopPlace (s : ScanState) (options : Options) : Place :=
  (s.startPlace options).pass (s.reading options).taken

/-- Where no line break has been passed since the last token. -/
theorem gap_of_line (h : s.stop.line = s.place.line) :
    s.gap options = readGap options.moduleCode false s.rest := by
  rw [gap, h, decide_eq_false (Nat.lt_irrefl _)]

/-- A scan that finds a token. -/
structure Finds (s : ScanState) (options : Options) (t : Token) (s' : ScanState) : Prop where
  outcome_eq : (s.reading options).outcome = .ok t.lexeme
  start_eq : t.start = (s.startPlace options).position
  stop_eq : t.stop = (s.stopPlace options).count.position
  place_eq : s'.place = (s.stopPlace options).count
  rest_eq : s'.rest = (s.reading options).rest
  token_eq : s'.token = t
  lastStop_eq : s'.lastStop = s.stop

/-- A scan that fails. -/
structure Fails (s : ScanState) (options : Options) (e : LexError) (s' : ScanState) : Prop where
  outcome_eq : ∃ fault, (s.reading options).outcome = .error fault ∧
    e = fault.shift (s.startPlace options).offset
  start_eq : s'.start = (s.startPlace options).position
  place_eq : s'.place = s.stopPlace options
  rest_eq : s'.rest = (s.reading options).rest
  stop_eq : s'.stop = s.stop
  lastStop_eq : s'.lastStop = s.stop

theorem next_eq (s : ScanState) (options : Options) :
    s.next options = (s.shift.passGap options.moduleCode).passReading (s.reading options) := rfl

theorem finds_of_next (h : s.next options = (.ok t, s')) : s.Finds options t s' := by
  rw [next_eq, passReading] at h
  split at h
  · next k v hr =>
    cases h
    exact ⟨hr, rfl, rfl, rfl, rfl, rfl, rfl⟩
  · cases h

theorem fails_of_next (h : s.next options = (.error e, s')) : s.Fails options e s' := by
  rw [next_eq, passReading] at h
  split at h
  · cases h
  · next fault hr =>
    cases h
    exact ⟨⟨fault, hr, rfl⟩, rfl, rfl, rfl, rfl, rfl⟩

theorem Finds.genuine (h : s.Finds options t s') : t.lexeme.Genuine :=
  readLexeme_genuine h.outcome_eq

theorem gap_append (s : ScanState) (options : Options) :
    (s.gap options).taken ++ (s.gap options).rest = s.rest :=
  readGap_append _ _ _

theorem reading_append (s : ScanState) (options : Options) :
    (s.reading options).taken ++ (s.reading options).rest = (s.gap options).rest :=
  readLexeme_append _ _

theorem Finds.length_lt (h : s.Finds options t s') (hk : t.kind ≠ .eof) :
    s'.rest.length < s.rest.length := by
  have hg := congrArg List.length (s.gap_append options)
  have hr := congrArg List.length (s.reading_append options)
  have ht := List.length_pos_iff.2 (readLexeme_taken_ne_nil h.outcome_eq hk)
  change 0 < (s.reading options).taken.length at ht
  rw [List.length_append] at hg hr
  rw [h.rest_eq]
  omega

end ArithLang.ScanState

namespace ArithLang.Scanner

variable {s s' : Scanner} {r : Except LexError Token}

theorem next_eq (h : s.next = (r, s')) :
    s.state.next s.options = (r, s'.state) ∧ s' = { s with state := s'.state } := by
  unfold next at h
  generalize s.state.next s.options = x at h
  obtain ⟨_, _⟩ := x
  cases h
  exact ⟨rfl, rfl⟩

theorem next_of_state {state : ScanState} (h : s.state.next s.options = (r, state)) :
    s.next = (r, { s with state }) := by
  rw [next, h]

end ArithLang.Scanner
