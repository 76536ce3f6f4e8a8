import ArithLang.Proofs.Cursor.TokenList
import ArithLang.Proofs.Parser.Calls
import ArithLang.Proofs.Parser.Derivation
import ArithLang.Proofs.Scanner.Results

/-!
Parsing a text while it is scanned and parsing the tokens recorded from it come to the same. The two
cursors show the same token and the same end of the token before it, and the list holds what the
scanner has yet to find; a move keeps that true or fails for both with the same error.
-/

namespace ArithLang

namespace TokenList

/-- A list on the first of some results. -/
def open? (input : List Char) : List (Except LexError Token) → Except LexError TokenList
  | [] => .ok { input, current := {}, ahead := [] }
  | .error e :: _ => .error e
  | .ok current :: ahead => .ok { input, current, ahead }

end TokenList

namespace Parser

/-- The answers to some calls, up to the first that fails for want of a token. -/
def answers {C : Type} [TokenCursor C] (p : Parser C) : List Call → List (Except SyntaxError Expr)
  | [] => []
  | c :: calls =>
    match p.call c with
    | (.error (.lexical e), _) => [.error (.lexical e)]
    | (r, q) => r :: q.answers calls

section

variable {C : Type} [TokenCursor C] {p : Parser C} {c : Call} {calls : List Call}

theorem answers_of_lexical {e : LexError} (h : (p.call c).1 = .error (.lexical e)) :
    p.answers (c :: calls) = [.error (.lexical e)] := by
  rw [answers]
  split
  · next heq =>
    rw [heq] at h
    cases h
    rfl
  · next hne heq =>
    rw [heq] at h
    exact absurd h (hne e)

theorem answers_of_ne (h : ∀ e, (p.call c).1 ≠ .error (.lexical e)) :
    p.answers (c :: calls) = (p.call c).1 :: (p.call c).2.answers calls := by
  rw [answers]
  split
  · next e _ heq =>
    rw [heq] at h
    exact absurd rfl (h e)
  · next heq => rw [heq]

end

end Parser

open Scanner (Yields gather)

/-- The list stands where the stream does, in the recording of its text. -/
structure Records (results : List (Except LexError Token)) (s : TokenStream) (l : TokenList) :
    Prop where
  current_eq : s.current = l.current
  lastStop_eq : s.scanner.state.lastStop = l.lastStop
  stop_eq : s.scanner.state.stop = l.current.stop
  input_eq : s.scanner.input = l.input
  ahead : s.Ahead l.ahead
  valid : LawfulCursor.Valid s
  results_eq : ∃ ts : List Token, results = ts.map .ok ++ .ok l.current :: l.ahead

namespace Records

variable {results rs : List (Except LexError Token)} {s s' : TokenStream} {l : TokenList}
  {e : LexError} {input : List Char} {options : Options}

theorem advance_ok (h : Records results s l) (hk : s.current.kind ≠ .eof)
    (ha : s.advance = (.ok (), s')) : ∃ l', l.advance = (.ok (), l') ∧ Records results s' l' ∧
      TokenCursor.ahead l' < TokenCursor.ahead l := by
  have hn := Scanner.next_eq (TokenStream.advance_eq_ok.1 ha)
  have hf := ScanState.finds_of_next hn.1
  obtain ⟨rs, hrs, hahead⟩ := h.ahead.advance_ok hk ha
  refine ⟨_, TokenList.advance_of_ok hrs, ⟨rfl, ?_, ?_, ?_, hahead, hf.genuine, ?_⟩, ?_⟩
  · exact hf.lastStop_eq.trans h.stop_eq
  · exact congrArg Token.stop hf.token_eq
  · rw [hn.2]
    exact h.input_eq
  · obtain ⟨ts, ht⟩ := h.results_eq
    refine ⟨ts ++ [l.current], ?_⟩
    rw [ht, hrs, List.map_append, List.append_assoc]
    rfl
  · rw [h.current_eq] at hk
    unfold TokenCursor.ahead
    rw [if_neg (c := (TokenCursor.current l).kind = .eof) hk]
    change _ < l.ahead.length + 1
    rw [hrs]
    split
    · exact Nat.succ_pos _
    · exact Nat.lt_succ_self _

theorem advance_error (h : Records results s l) (hk : s.current.kind ≠ .eof)
    (ha : s.advance = (.error e, s')) : l.advance = (.error e, l) ∧ gather results = .error e := by
  have hrs := h.ahead.advance_error hk ha
  refine ⟨TokenList.advance_of_error hrs, ?_⟩
  obtain ⟨ts, ht⟩ := h.results_eq
  rw [ht, hrs, Scanner.gather_append]
  rfl

theorem of_open? (h : TokenStream.open? input options = .ok s)
    (hy : (Scanner.start input options).Yields rs) :
    ∃ l, TokenList.open? input rs = .ok l ∧ Records rs s l := by
  have hn := Scanner.next_eq (TokenStream.open?_eq_ok h)
  have hf := ScanState.finds_of_next hn.1
  obtain ⟨rs, rfl, hahead⟩ := TokenStream.ahead_of_open? h hy
  refine ⟨_, rfl, rfl, hf.lastStop_eq, congrArg Token.stop hf.token_eq, ?_, hahead, hf.genuine,
    [], rfl⟩
  rw [hn.2]
  rfl

end Records

namespace Lockstep

/-- A stream and a recording of it, both with fuel enough. -/
def recorded (results : List (Except LexError Token)) : Lockstep TokenStream TokenList where
  layout := .same
  cursor := Records results
  stuck _ _ := True
  lexical e e' := e = e' ∧ gather results = .error e
  context x y := x = y
  fuel s l n n' := TokenCursor.ahead s ≤ n ∧ TokenCursor.ahead l ≤ n'
  excused _ := False
  kind_eq h := congrArg Token.kind h.current_eq
  value_eq h := congrArg Token.value h.current_eq
  start h := congrArg Token.start h.current_eq
  stop h := h.lastStop_eq
  raw {p p'} h _ := by
    have ht : p.token = p'.token := h.current_eq
    have hi : TokenCursor.input p.cursor = TokenCursor.input p'.cursor := h.input_eq
    change p.raw = p'.raw
    rw [Parser.raw, Parser.raw, ht, hi]
  offsets_eq := Layout.Offsets.eq_iff
  advance_ok {s s' l} h hk ha := by
    obtain ⟨l', ha', h', hl⟩ := h.advance_ok hk ha
    have hs := TokenCursor.ahead_lt h.valid hk ha
    refine ⟨l', ha', h', fun n n' => ⟨fun hf => ⟨?_, ?_⟩, fun hf => ⟨?_, ?_⟩⟩⟩
    · exact Nat.le_trans (Nat.le_of_lt hs) hf.1
    · exact Nat.le_trans (Nat.le_of_lt hl) hf.2
    · exact Nat.le_of_lt_succ (Nat.lt_of_lt_of_le hs hf.1)
    · exact Nat.le_of_lt_succ (Nat.lt_of_lt_of_le hl hf.2)
  advance_error {s s' l e} h hk ha := by
    obtain ⟨ha', hg⟩ := h.advance_error hk ha
    exact ⟨e, l, ha', ⟨rfl, hg⟩, trivial⟩
  fuel_remaining h := ⟨TokenCursor.ahead_le _, TokenCursor.ahead_le _⟩
  fuel_zero {s l n n'} h hf hk := by
    have hk' : (TokenCursor.current l).kind ≠ .eof := by
      change l.current.kind ≠ .eof
      rw [← h.current_eq]
      exact hk
    unfold TokenCursor.ahead at hf
    rw [if_neg hk, if_neg hk'] at hf
    have hs : 0 < TokenCursor.remaining s := Nat.succ_pos _
    have hl : 0 < TokenCursor.remaining l := Nat.succ_pos _
    omega
  inGenerator_eq h := by rw [h]
  strict_eq h := .inl (by rw [h])
  postfix_eq {p p'} h hx _ := by
    have ht : TokenCursor.current p.cursor = TokenCursor.current p'.cursor := h.current_eq
    have hi : TokenCursor.input p.cursor = TokenCursor.input p'.cursor := h.input_eq
    have hl : TokenCursor.lastStop p.cursor = TokenCursor.lastStop p'.cursor := h.lastStop_eq
    simp only [Parser.mayEndStatement, Parser.kind, Parser.token, TokenCursor.hasLineBreakBefore,
      hx, ht, hi, hl]

end Lockstep

namespace Parser

variable {results rs : List (Except LexError Token)} {p : Parser TokenStream} {p' : Parser TokenList}
  {input : List Char} {options : Options}

/-- One call: the same answer, and parsers that still correspond unless a token was wanting. -/
theorem call_recorded (h : (Lockstep.recorded results).Parsers (Records results) p p') (c : Call) :
    (∃ e, (p.call c).1 = .error (.lexical e) ∧ (p'.call c).1 = .error (.lexical e) ∧
      gather results = .error e) ∨
    (p.call c).1 = (p'.call c).1 ∧ (∀ e, (p.call c).1 ≠ .error (.lexical e)) ∧
      (Lockstep.recorded results).Parsers (Records results) (p.call c).2 (p'.call c).2 := by
  have ends := Lockstep.call h c
  rw [call, call, run, run]
  generalize c.step.run p = x at ends
  generalize c.step.run p' = y at ends
  cases ends with
  | ok he ho => exact .inr ⟨congrArg _ he.eq, by simp, ho.parsers⟩
  | fault hf ho => exact .inr ⟨congrArg _ (congrArg _ hf.eq), by simp, ho.parsers⟩
  | lexical he =>
    obtain ⟨rfl, hg⟩ := he
    exact .inl ⟨_, rfl, rfl, hg⟩
  | excused he => exact he.elim

theorem answers_recorded (h : (Lockstep.recorded results).Parsers (Records results) p p')
    (calls : List Call) : p.answers calls = p'.answers calls := by
  induction calls generalizing p p' with
  | nil => rfl
  | cons c calls ih =>
    obtain ⟨e, hp, hp', -⟩ | ⟨heq, hne, hq⟩ := call_recorded h c
    · rw [answers_of_lexical hp, answers_of_lexical hp']
    · rw [answers_of_ne hne, answers_of_ne (heq ▸ hne), heq, ih hq]

theorem parsers_of_open? {s : TokenStream} (h : TokenStream.open? input options = .ok s)
    (hy : (Scanner.start input options).Yields rs) (context : Context) :
    ∃ l, TokenList.open? input rs = .ok l ∧ (Lockstep.recorded rs).Parsers (Records rs)
      (ofCursor s context) (ofCursor l context) := by
  obtain ⟨l, hl, hr⟩ := Records.of_open? h hy
  exact ⟨l, hl, hr, rfl, .none⟩

theorem tokenize_of_parseExpression {e : Expr} (h : parseExpression input options = .ok e) :
    ∃ ts, tokenize input options = .ok ts := by
  obtain ⟨s, q, hs, hc⟩ := parseExpression_eq_ok.1 h
  obtain ⟨hp, hk⟩ := expressionToEnd_iff (TokenStream.valid_of_open? hs) |>.1 (call_eq_ok.1 hc)
  obtain ⟨ts, hr⟩ := hp.reads
  exact ⟨_, tokenize_of_passes hs hr.passes hk⟩

theorem tokenize_of_parseExpression_lexical {e : LexError}
    (h : parseExpression input options = .error (.lexical e)) :
    tokenize input options = .error e := by
  obtain ⟨rs, hy, -⟩ := Scanner.exists_yields (Scanner.start input options) rfl
  unfold parseExpression ofText? at h
  cases hs : TokenStream.open? input options with
  | error e' =>
    rw [hs] at h
    cases h
    rw [Scanner.tokenize_eq (TokenStream.yields_of_open? hs)]
    rfl
  | ok s =>
    rw [hs] at h
    have h : ((ofCursor s options.context).call .toEnd).1 = .error (.lexical e) := h
    obtain ⟨l, -, hl⟩ := parsers_of_open? hs hy options.context
    obtain ⟨e', he, -, hg⟩ | ⟨-, hne, -⟩ := call_recorded hl .toEnd
    · cases h.symm.trans he
      rw [Scanner.tokenize_eq hy, hg]
    · exact absurd h (hne e)

/-- What a text yields to its end, recorded, is as good to a parser as the text itself: all calls
answer the same, up to the first that fails for want of a token. A whole text that is an expression
can be tokenized, and where it fails for want of a token, so does its tokenization. -/
theorem recorded_eq_live (input : List Char) (options : Options) :
    ∃ rs, (Scanner.start input options).Yields rs ∧
      (∀ context : Context,
        (TokenStream.open? input options).map (fun s => (ofCursor s context).answers) =
          (TokenList.open? input rs).map (fun l => (ofCursor l context).answers)) ∧
      (∀ e, parseExpression input options = .ok e → ∃ ts, tokenize input options = .ok ts) ∧
      ∀ e, parseExpression input options = .error (.lexical e) →
        tokenize input options = .error e := by
  obtain ⟨rs, hy, -⟩ := Scanner.exists_yields (Scanner.start input options) rfl
  refine ⟨rs, hy, fun context => ?_, fun _ => tokenize_of_parseExpression,
    fun _ => tokenize_of_parseExpression_lexical⟩
  cases hs : TokenStream.open? input options with
  | error e =>
    rw [hy.unique (TokenStream.yields_of_open? hs)]
    rfl
  | ok s =>
    obtain ⟨l, hl, hp⟩ := parsers_of_open? hs hy context
    rw [hl]
    exact congrArg Except.ok (funext fun calls => answers_recorded hp calls)

theorem recorded_eq_live_missing : tokenize "a + 1x".toList {} =
    .error { fault := .nameAfterNumber, offset := 5 } := by
  have h : (match parseExpression "a + 1x".toList {} with
      | .error e => e == .lexical { fault := .nameAfterNumber, offset := 5 }
      | .ok _ => false) = true := by
    decide +kernel
  obtain ⟨rs, -, -, -, hlexical⟩ := recorded_eq_live "a + 1x".toList {}
  split at h
  · next heq =>
    cases eq_of_beq h
    exact hlexical _ heq
  · cases h

end Parser

end ArithLang
