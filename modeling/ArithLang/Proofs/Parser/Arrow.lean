import ArithLang.Proofs.Expr.Parameters
import ArithLang.Proofs.Parser.Placement

/-!
Arrow functions are refused where they could begin, and only there. The parser tells such places by an
offset that it has noted and never forgets. But it notes no offset beyond its token, and moves past every
one it has noted; so at an operand the note is of the current token just if the tokens that the call has
read say that an arrow function could begin there.
-/

namespace ArithLang

open Grammar Step
open TokenCursor (Passes)

namespace Kind

/-- A kind of token that stands before an operand and begins no expression of its own. -/
structure Joins (k : Kind) : Prop where
  leadsIn : k.leadsIn = false
  isParen : k.isParen = false
  ne_name : k ≠ .name
  ne_arrow : k ≠ .arrow
  ne_eof : k ≠ .eof

theorem joins_of_startsUnary {k : Kind} (h : k.startsUnary = true) : k.Joins := by
  constructor <;> cases k <;> cases h <;> decide

theorem joins_of_chainStrength? {k : Kind} {strength : Nat}
    (h : chainStrength? k = some strength) : k.Joins := by
  constructor <;> cases k <;> first | decide | cases h

end Kind

namespace Parser

variable {p q : Parser TokenStream} {input : List Char} {past : List Token} {t : Token}

/-- The note is of an earlier token, or of the current one if that may begin parameters. -/
def Behind (p : Parser TokenStream) : Prop :=
  ∀ offset ∈ p.arrowStart, offset < p.token.start.offset ∨
    offset = p.token.start.offset ∧ p.kind.opensParameters = true

/-- The note is of the current token. -/
def Noted (p : Parser TokenStream) : Prop := p.arrowStart = some p.token.start.offset

/-- Not at the arrow of an arrow function. -/
def Clear (past : List Token) (p : Parser TokenStream) : Prop :=
  p.kind = .arrow → ¬ EndInParameters past

theorem clear_of_ne (h : p.kind ≠ .arrow) : p.Clear past := fun hk => absurd hk h

theorem Moves.start_lt (hm : p.Moves q) (h : p.cursor.Standing input) (hk : p.kind ≠ .eof) :
    p.token.start.offset < q.token.start.offset :=
  Nat.lt_of_lt_of_le (h.current.offset_lt hk) (h.stop_le_start hm.advance_eq)

/-- A move leaves behind whatever has been noted. -/
theorem Behind.moves (h : p.Behind) (hm : p.Moves q) (hs : p.cursor.Standing input)
    (hk : p.kind ≠ .eof) : ∀ offset ∈ q.arrowStart, offset < q.token.start.offset := by
  intro offset ho
  rw [hm.arrowStart_eq] at ho
  have hlt := hm.start_lt hs hk
  obtain h | ⟨rfl, -⟩ := h offset ho
  · exact Nat.lt_trans h hlt
  · exact hlt

theorem marked_token (p : Parser TokenStream) : p.marked.token = p.token := by
  rw [token, marked_cursor, token]

theorem Behind.marked (h : p.Behind) : p.marked.Behind := by
  intro offset ho
  rw [kind, marked_token]
  unfold Parser.marked at ho
  split at ho
  · next hk =>
    cases ho
    exact .inr ⟨rfl, hk⟩
  · exact h offset ho

theorem noted_marked (h : p.Behind) : p.marked.Noted ↔ p.kind.opensParameters = true := by
  unfold Noted
  rw [marked_token]
  unfold Parser.marked
  split
  · next hk => exact iff_of_true rfl hk
  · next hk =>
    refine iff_of_false (fun ho => ?_) hk
    obtain hlt | ⟨-, ho⟩ := h _ ho
    · exact Nat.lt_irrefl _ hlt
    · exact hk ho

/-- At an operand: the note tells whether an arrow function could begin here. -/
structure Begins (past : List Token) (p : Parser TokenStream) : Prop where
  not_endInParameters : ¬ EndInParameters past
  noted_iff : p.Noted ↔ AtStart past ∧ p.kind.opensParameters = true

theorem begins_marked (h : p.Behind) (ha : AtStart past) : p.marked.Begins past := by
  refine ⟨ha.not_endInParameters, (noted_marked h).trans ?_⟩
  rw [show p.marked.kind = p.kind from congrArg Token.kind p.marked_token]
  exact (and_iff_right ha).symm

theorem begins_of_joins (ht : t.kind.Joins) (hn : ¬ p.Noted) : p.Begins (past ++ [t]) where
  not_endInParameters := not_endInParameters_concat ht.ne_name ht.isParen
  noted_iff := iff_of_false hn fun h => by simp [atStart_concat, ht.leadsIn] at h

end Parser

/-! How a call goes on from its first token. -/

namespace Arrow

variable {input : List Char} {origin : TokenStream}

/-- These tokens have been read since the start of a call. -/
structure Reached (input : List Char) (origin : TokenStream) (past : List Token)
    (p : Parser TokenStream) : Prop where
  passes : Passes origin past p.cursor
  ne_arrow : ∀ t ∈ past, t.kind ≠ .arrow
  standing : p.cursor.Standing input
  behind : p.Behind

/-- How a step may end, with what is so of the tokens read and of the parser left. Only at the arrow of
an arrow function it is refused as such. -/
inductive Ends (input : List Char) (origin : TokenStream) {α : Type}
    (A : List Token → Parser TokenStream → Prop) :
    EStateM.Result SyntaxError (Parser TokenStream) α → Prop
  | ok : Reached input origin past q → A past q → Ends input origin A (.ok a q)
  | arrow : Reached input origin past q → q.kind = .arrow → EndInParameters past →
      Ends input origin A
        (.error (.fault (.unsupported "arrow function") q.token.start.offset) q)
  | fault : Reached input origin past q → f ≠ .unsupported "arrow function" → q.Clear past →
      Ends input origin A (.error (.fault f offset) q)
  | lexical : Reached input origin past q → q.kind ≠ .arrow →
      TokenCursor.advance q.cursor = (.error e, d) →
      Ends input origin A (.error (.lexical e) { q with cursor := d })

/-- What has been read from there on is balanced, and is not followed by the arrow of an arrow
function. -/
def Rest (past now : List Token) (p : Parser TokenStream) : Prop :=
  ∃ ts, now = past ++ ts ∧ Balanced ts ∧ p.Clear now

variable {α β : Type} {A B : List Token → Parser TokenStream → Prop} {p q : Parser TokenStream}
  {past ts : List Token}

theorem Ends.bind {x : Step TokenStream α} {f : α → Step TokenStream β}
    (hx : Ends input origin A (x.run p))
    (hf : ∀ a now q, Reached input origin now q → A now q → Ends input origin B ((f a).run q)) :
    Ends input origin B ((x >>= f).run p) := by
  rw [EStateM.run_bind]
  generalize x.run p = r at hx
  cases hx with
  | ok hr ha => exact hf _ _ _ hr ha
  | arrow hr hk he => exact .arrow hr hk he
  | fault hr hf hc => exact .fault hr hf hc
  | lexical hr hk ha => exact .lexical hr hk ha

theorem Ends.imp {r : EStateM.Result SyntaxError (Parser TokenStream) α}
    (h : Ends input origin A r) (hAB : ∀ now q, A now q → B now q) : Ends input origin B r := by
  cases h with
  | ok hr ha => exact .ok hr (hAB _ _ ha)
  | arrow hr hk he => exact .arrow hr hk he
  | fault hr hf hc => exact .fault hr hf hc
  | lexical hr hk ha => exact .lexical hr hk ha

/-- One part read after the other. -/
theorem Ends.then {x : Step TokenStream α} {f : α → Step TokenStream β}
    (hx : Ends input origin (Rest past) (x.run p))
    (hf : ∀ a now q, Reached input origin now q → q.Clear now →
      Ends input origin (Rest now) ((f a).run q)) :
    Ends input origin (Rest past) ((x >>= f).run p) := by
  refine hx.bind fun a now q hr hrest => ?_
  obtain ⟨ts, rfl, hb, hc⟩ := hrest
  refine (hf a _ q hr hc).imp fun now q' hrest => ?_
  obtain ⟨us, rfl, hb', hc'⟩ := hrest
  exact ⟨ts ++ us, List.append_assoc .., hb.append hb', hc'⟩

namespace Reached

variable (h : Reached input origin past p)

include h

theorem pure {a : α} (ha : A past p) :
    Ends input origin A ((Pure.pure a : Step TokenStream α).run p) :=
  .ok h ha

theorem pure_rest {a : α} (hc : p.Clear past) :
    Ends input origin (Rest past) ((Pure.pure a : Step TokenStream α).run p) :=
  .ok h ⟨[], (List.append_nil _).symm, balanced_nil, hc⟩

theorem failAt {f : SyntaxFault} {offset : Nat} (hf : f ≠ .unsupported "arrow function")
    (hc : p.Clear past) :
    Ends input origin A ((Step.failAt f offset : Step TokenStream α).run p) :=
  .fault h hf hc

theorem failHere {f : SyntaxFault} (hf : f ≠ .unsupported "arrow function") (hc : p.Clear past) :
    Ends input origin A ((Step.failHere f : Step TokenStream α).run p) :=
  .fault h hf hc

theorem unexpected {expected : String} (hc : p.Clear past) :
    Ends input origin A ((Step.unexpected expected : Step TokenStream α).run p) :=
  .fault h nofun hc

theorem moves (hm : p.Moves q) (hk : p.kind ≠ .eof) (hk' : p.kind ≠ .arrow) :
    Reached input origin (past ++ [p.token]) q where
  passes := h.passes.trans (.single hk hm.advance_eq)
  ne_arrow t ht := by
    obtain ht | ht := List.mem_append.1 ht
    · exact h.ne_arrow t ht
    · rw [List.mem_singleton.1 ht]
      exact hk'
  standing := hm.standing h.standing
  behind offset ho := .inl (h.behind.moves hm h.standing hk offset ho)

theorem not_noted (hm : p.Moves q) (hk : p.kind ≠ .eof) : ¬ q.Noted := fun hn =>
  Nat.lt_irrefl _ (h.behind.moves hm h.standing hk _ hn)

theorem advance {f : Unit → Step TokenStream β} (hk : p.kind ≠ .eof) (hk' : p.kind ≠ .arrow)
    (hf : ∀ q, Reached input origin (past ++ [p.token]) q → ¬ q.Noted →
      Ends input origin B ((f ()).run q)) :
    Ends input origin B ((Step.advance >>= f).run p) := by
  rw [EStateM.run_bind, Step.run_advance]
  rcases ha : TokenCursor.advance p.cursor with ⟨_ | _, d⟩
  · exact .lexical h hk' ha
  · have hm : p.Moves { p with cursor := d } := ⟨ha, rfl, rfl⟩
    exact hf _ (h.moves hm hk hk') (h.not_noted hm hk)

/-- Moving past a token that is no parenthesis. -/
theorem advance_rest {f : Unit → Step TokenStream β} (hk : p.kind ≠ .eof) (hk' : p.kind ≠ .arrow)
    (hp : p.kind.isParen = false)
    (hf : ∀ q, Reached input origin (past ++ [p.token]) q → ¬ q.Noted →
      Ends input origin (Rest (past ++ [p.token])) ((f ()).run q)) :
    Ends input origin (Rest past) ((Step.advance >>= f).run p) := by
  refine h.advance hk hk' fun q hq hn => (hf q hq hn).imp fun now q' hrest => ?_
  obtain ⟨ts, rfl, hb, hc⟩ := hrest
  exact ⟨p.token :: ts, List.append_assoc .., (balanced_single hp).append hb, hc⟩

theorem operator {ofText? : String → Option α} {f : α → Step TokenStream β}
    (hk : p.kind ≠ .arrow) (hf : ∀ op, Ends input origin B ((f op).run p)) :
    Ends input origin B ((Step.operator ofText? >>= f).run p) := by
  rw [Step.run_operator_bind]
  split
  · exact hf _
  · exact h.unexpected (Parser.clear_of_ne hk)

theorem checkTarget {e : Expr} {place : String} {f : Unit → Step TokenStream β}
    (hc : p.Clear past) (hf : Ends input origin B ((f ()).run p)) :
    Ends input origin B ((Step.checkTarget e place >>= f).run p) := by
  rw [Step.run_checkTarget_bind]
  split
  · exact hf
  · exact h.failAt nofun hc

/-- Passing a token after which an expression begins, if it is the current one. -/
theorem eat {k : Kind} {f : Bool → Step TokenStream β} (hk : k.leadsIn = true)
    (hp : k.isParen = false)
    (hf : ∀ q, Reached input origin (past ++ [p.token]) q → AtStart (past ++ [p.token]) →
      Ends input origin (Rest (past ++ [p.token])) ((f true).run q))
    (hf' : Ends input origin (Rest past) ((f false).run p)) :
    Ends input origin (Rest past) ((Step.eat k >>= f).run p) := by
  rw [Step.run_eat_bind]
  split
  · next heq =>
    subst heq
    refine h.advance_rest (Parser.kind_ne hk nofun) (Parser.kind_ne hk nofun) hp fun q hq _ => ?_
    exact hf q hq (atStart_concat.2 hk)
  · exact hf'

theorem expect {k : Kind} {f : Unit → Step TokenStream β} (hk : k ≠ .eof) (hk' : k ≠ .arrow)
    (hp : k.isParen = false) (hc : p.Clear past)
    (hf : ∀ q, p.kind = k → Reached input origin (past ++ [p.token]) q →
      Ends input origin (Rest (past ++ [p.token])) ((f ()).run q)) :
    Ends input origin (Rest past) ((Step.expect k >>= f).run p) := by
  rw [Step.run_expect_bind]
  split
  · next heq =>
    subst heq
    exact h.advance_rest hk hk' hp fun q hq _ => hf q rfl hq
  · exact h.unexpected hc

end Reached

/-- So the steps of the next level end. -/
structure Inner (input : List Char) (origin : TokenStream) (inner : Nested TokenStream) : Prop where
  assignment {past : List Token} {p : Parser TokenStream} : Reached input origin past p →
    AtStart past → Ends input origin (Rest past) (inner.assignment.run p)
  unary {past : List Token} {p : Parser TokenStream} : Reached input origin past p →
    p.kind.startsUnary = true → Ends input origin (Rest past) (inner.unary.run p)
  climb {past : List Token} {p : Parser TokenStream} {left : Expr} {start : Position} {least : Nat} :
    Reached input origin past p → p.Clear past →
      Ends input origin (Rest past) ((inner.climb left start least).run p)

/-- An atom has been read: the tokens end in parameters just if an arrow function could begin with it. -/
def AtomRest (past : List Token) (p : Parser TokenStream) (now : List Token)
    (_ : Parser TokenStream) : Prop :=
  ∃ ts, now = past ++ ts ∧ Balanced ts ∧
    (EndInParameters now ↔ AtStart past ∧ p.kind.opensParameters = true)

namespace Reached

variable {inner : Nested TokenStream} (h : Reached input origin past p)

include h

theorem numberLiteral (hk : p.kind = .num) :
    Ends input origin (AtomRest past p) (numberLiteral.run p) := by
  rw [Grammar.numberLiteral, run_current_bind]
  split
  · exact h.unexpected (Parser.clear_of_ne (by simp [hk]))
  · rw [run_get_bind]
    refine h.advance (by simp [hk]) (by simp [hk]) fun q hq _ => ?_
    rw [run_infoFrom_bind]
    have hp : p.token.kind.isParen = false := by rw [Parser.token_kind, hk]; rfl
    refine hq.pure ⟨[p.token], rfl, balanced_single hp, iff_of_false ?_ ?_⟩
    · exact not_endInParameters_concat (Parser.kind_ne (f := id) hk (by decide)) hp
    · rw [hk]
      exact fun hs => absurd hs.2 (by decide)

theorem identifier (hk : p.kind = .name) :
    Ends input origin (AtomRest past p) (identifier.run p) := by
  rw [Grammar.identifier, run_current_bind]
  refine h.advance (by simp [hk]) (by simp [hk]) fun q hq _ => ?_
  rw [run_infoFrom_bind]
  have hp : p.token.kind.isParen = false := by rw [Parser.token_kind, hk]; rfl
  refine hq.pure ⟨[p.token], rfl, balanced_single hp, (IsParameters.name hk).endIn_iff.trans ?_⟩
  exact (and_iff_left (by rw [hk]; rfl)).symm

variable (hi : Inner input origin inner)

include hi

theorem listTail (n : Nat) (hc : p.Clear past) :
    Ends input origin (Rest past) ((listTail inner n).run p) := by
  induction n generalizing p past with
  | zero => exact h.pure_rest hc
  | succ n ih =>
    rw [Grammar.listTail]
    refine h.eat rfl rfl (fun q hq hs => ?_) (h.pure_rest hc)
    refine (hi.assignment hq hs).then fun item now r hr hc => ?_
    exact (ih hr hc).then fun items now s hs hc => hs.pure_rest hc

theorem sequence (hs : AtStart past) :
    Ends input origin (Rest past) ((sequence inner).run p) := by
  rw [Grammar.sequence, run_startPosition_bind]
  refine (hi.assignment h hs).then fun e now q hq hc => ?_
  rw [run_looksAt_bind]
  split
  · rw [run_remaining_bind]
    refine (hq.listTail hi _ hc).then fun items now r hr hc => ?_
    rw [run_infoFrom_bind]
    exact hr.pure_rest hc
  · exact hq.pure_rest hc

theorem parenthesized (hk : p.kind = .parenL) :
    Ends input origin (AtomRest past p) ((parenthesized inner).run p) := by
  rw [Grammar.parenthesized, run_startPosition_bind]
  refine h.advance (by simp [hk]) (by simp [hk]) fun q hq _ => ?_
  refine (hq.sequence hi (atStart_concat.2 (by rw [Parser.token_kind, hk]; rfl))).bind
    fun e now r hr hrest => ?_
  obtain ⟨ts, rfl, hb, hc⟩ := hrest
  rw [Step.run_expect_bind]
  split
  · next hk' =>
    refine hr.advance (by simp [hk']) (by simp [hk']) fun s hs _ => ?_
    have heq : past ++ [p.token] ++ ts ++ [r.token] = past ++ (p.token :: ts ++ [r.token]) := by
      simp
    refine hs.pure ⟨_, heq, hb.group hk hk', ?_⟩
    rw [heq, (IsParameters.group hk hb hk').endIn_iff]
    exact (and_iff_left (by rw [hk]; rfl)).symm
  · exact hr.unexpected hc

theorem atom (hc : ¬ EndInParameters past) :
    Ends input origin (AtomRest past p) ((atom inner).run p) := by
  rw [Grammar.atom, run_current_bind, Parser.token_kind]
  split
  · next hk => exact h.numberLiteral hk
  · next hk => exact h.identifier hk
  · next hk => exact h.parenthesized hi hk
  · exact h.unexpected fun _ => hc

theorem subscriptTail (start : Position) (n : Nat) (base : Expr) (hc : p.Clear past) :
    Ends input origin (Rest past) ((subscriptTail inner start n base).run p) := by
  induction n generalizing p past base with
  | zero => exact h.pure_rest hc
  | succ n ih =>
    rw [Grammar.subscriptTail]
    refine h.eat rfl rfl (fun q hq hs => ?_) (h.pure_rest hc)
    refine (hq.sequence hi hs).then fun property now r hr hc => ?_
    refine hr.expect (by decide) (by decide) rfl hc fun s hk hs => ?_
    rw [run_infoFrom_bind]
    refine ih hs _ fun _ => not_endInParameters_concat ?_ ?_
    · exact Parser.kind_ne (f := id) hk (by decide)
    · rw [Parser.token_kind, hk]
      rfl

theorem subscripts (hb : p.Begins past) :
    Ends input origin (Rest past) ((subscripts inner).run p) := by
  rw [Grammar.subscripts, run_startPosition_bind, run_get_bind]
  refine (h.atom hi hb.not_endInParameters).bind fun base now q hq hrest => ?_
  obtain ⟨ts, rfl, hts, hp⟩ := hrest
  have hnoted : p.Noted ↔ EndInParameters (past ++ ts) := hb.noted_iff.trans hp.symm
  rw [run_looksAt_bind]
  split
  · next ha =>
    simp only [Bool.and_eq_true, beq_iff_eq] at ha
    exact .arrow hq ha.2 (hnoted.1 ha.1)
  · next ha =>
    simp only [Bool.and_eq_true, beq_iff_eq, not_and'] at ha
    rw [run_remaining_bind]
    refine (hq.subscriptTail hi _ _ _ fun hk he => ha hk (hnoted.2 he)).imp fun now r hrest => ?_
    obtain ⟨us, rfl, hus, hc⟩ := hrest
    exact ⟨ts ++ us, List.append_assoc .., hts.append hus, hc⟩

theorem postfixed (hb : p.Begins past) :
    Ends input origin (Rest past) ((postfixed inner).run p) := by
  rw [Grammar.postfixed, run_startPosition_bind]
  refine (h.subscripts hi hb).then fun base now q hq hc => ?_
  rw [run_looksAtPostfix_bind]
  split
  · next ha =>
    have hk := Parser.isPostfix_of_atPostfix ha
    have hp : q.token.kind.isParen = false := by
      revert hk
      rw [Parser.token_kind]
      cases q.kind <;> decide
    refine hq.checkTarget hc (hq.operator (Parser.kind_ne hk (by decide)) fun op => ?_)
    refine hq.advance_rest (Parser.kind_ne hk (by decide)) (Parser.kind_ne hk (by decide)) hp fun r hr _ => ?_
    have hc' : r.Clear (now ++ [q.token]) := fun _ =>
      not_endInParameters_concat (Parser.kind_ne hk (by decide)) hp
    rw [run_infoFrom_bind, run_looksAtPostfix_bind]
    split
    · exact hr.failAt (by decide) hc'
    · exact hr.pure_rest hc'
  · exact hq.pure_rest hc

theorem operand (hb : p.Begins past) :
    Ends input origin (Rest past) ((operand inner).run p) := by
  rw [Grammar.operand, run_current_bind, Parser.token_kind]
  split
  · next hk => exact hi.unary h hk
  · exact h.postfixed hi hb

theorem prefixUpdate (hk : p.kind.startsUnary = true) :
    Ends input origin (Rest past) ((prefixUpdate inner).run p) := by
  have hj := Kind.joins_of_startsUnary hk
  rw [Grammar.prefixUpdate, run_startPosition_bind]
  refine h.operator hj.ne_arrow fun op => ?_
  refine h.advance_rest hj.ne_eof hj.ne_arrow hj.isParen fun q hq hn => ?_
  rw [run_current_bind]
  refine (hq.operand hi (Parser.begins_of_joins hj hn)).then fun e now r hr hc => ?_
  refine hr.checkTarget hc ?_
  rw [run_infoFrom_bind]
  exact hr.pure_rest hc

theorem prefixUnary (hk : p.kind.startsUnary = true) :
    Ends input origin (Rest past) ((prefixUnary inner).run p) := by
  have hj := Kind.joins_of_startsUnary hk
  rw [Grammar.prefixUnary, run_startPosition_bind]
  refine h.operator hj.ne_arrow fun op => ?_
  refine h.advance_rest hj.ne_eof hj.ne_arrow hj.isParen fun q hq hn => ?_
  rw [run_current_bind]
  refine (hq.operand hi (Parser.begins_of_joins hj hn)).then fun e now r hr hc => ?_
  rw [run_context_bind]
  split
  · exact hr.failAt (by decide) hc
  · rw [run_infoFrom_bind]
    exact hr.pure_rest hc

theorem unary (hk : p.kind.startsUnary = true) :
    Ends input origin (Rest past) ((unary inner).run p) := by
  rw [Grammar.unary, run_looksAt_bind]
  split
  · exact h.prefixUpdate hi hk
  · exact h.prefixUnary hi hk

omit hi in
theorem checkPowerBase {k : Kind} {left : Expr} {f : Unit → Step TokenStream β}
    (hk : p.kind ≠ .arrow) (hf : Ends input origin B ((f ()).run p)) :
    Ends input origin B ((checkPowerBase k left >>= f).run p) := by
  unfold Grammar.checkPowerBase
  split
  · split
    · exact h.failAt (by decide) (Parser.clear_of_ne hk)
    · exact hf
  · exact hf

omit hi in
theorem binaryNode {f : (Expr → Expr → Info → Expr) → Step TokenStream β} (hk : p.kind ≠ .arrow)
    (hf : ∀ node, Ends input origin B ((f node).run p)) :
    Ends input origin B ((binaryNode p.kind >>= f).run p) := by
  rw [Parser.run_binaryNode_bind]
  cases p.node? with
  | none => exact h.unexpected (Parser.clear_of_ne hk)
  | some node => exact hf node

theorem climb (n : Nat) {start : Position} {least : Nat} {left : Expr} (hc : p.Clear past) :
    Ends input origin (Rest past) ((climb inner start least n left).run p) := by
  induction n generalizing p past start least left with
  | zero => exact h.pure_rest hc
  | succ n ih =>
    rw [Grammar.climb, run_current_bind, Parser.token_kind]
    dsimp only
    split
    · exact h.pure_rest hc
    · next strength hk =>
      split
      · exact h.pure_rest hc
      · have hj := Kind.joins_of_chainStrength? hk
        refine h.checkPowerBase hj.ne_arrow (h.binaryNode hj.ne_arrow fun node => ?_)
        refine h.advance_rest hj.ne_eof hj.ne_arrow hj.isParen fun q hq hn => ?_
        rw [run_startPosition_bind]
        refine (hq.operand hi (Parser.begins_of_joins hj hn)).then fun first now r hr hc => ?_
        refine Ends.then ?_ fun right now s hs hc => ?_
        · split
          · exact hi.climb hr hc
          · exact ih hr hc
        · rw [run_infoFrom_bind]
          exact ih hs hc

theorem chain (hb : p.Begins past) : Ends input origin (Rest past) ((chain inner).run p) := by
  rw [Grammar.chain, run_startPosition_bind]
  refine (h.operand hi hb).then fun first now q hq hc => ?_
  rw [run_remaining_bind]
  exact hq.climb hi _ hc

theorem conditional (hb : p.Begins past) :
    Ends input origin (Rest past) ((conditional inner).run p) := by
  rw [Grammar.conditional, run_startPosition_bind]
  refine (h.chain hi hb).then fun test now q hq hc => ?_
  refine hq.eat rfl rfl (fun r hr hs => ?_) (hq.pure_rest hc)
  refine (hi.assignment hr hs).then fun consequent now s hs hc => ?_
  refine hs.expect (by decide) (by decide) rfl hc fun u hk hu => ?_
  refine (hi.assignment hu (atStart_concat.2 (by rw [Parser.token_kind, hk]; rfl))).then
    fun alternate now v hv hc => ?_
  exact hv.pure_rest hc

omit hi in
theorem marked : Reached input origin past p.marked :=
  ⟨p.marked_cursor.symm ▸ h.passes, h.ne_arrow, Parser.marked_standing h.standing, h.behind.marked⟩

theorem assignment (hs : AtStart past) :
    Ends input origin (Rest past) ((assignment inner).run p) := by
  by_cases hy : p.kind = .yieldWord ∧ p.context.inGenerator = true
  · rw [Grammar.assignment, run_current_bind, run_context_bind,
      if_pos (by simpa [Parser.kind] using hy)]
    exact h.failHere (by decide) (Parser.clear_of_ne (by simp [hy.1]))
  · rw [run_assignment_of hy]
    refine (h.marked.conditional hi (Parser.begins_marked h.behind hs)).then fun left now q hq hc => ?_
    rw [run_current_bind]
    split
    · next hk =>
      have hk : q.kind.isAssignment = true := hk
      have hleads : q.kind.leadsIn = true := by
        revert hk
        cases q.kind <;> decide
      have hp : q.kind.isParen = false := by
        revert hk
        cases q.kind <;> decide
      refine hq.operator (Parser.kind_ne hk (by decide)) fun op => hq.checkTarget hc ?_
      refine hq.advance_rest (Parser.kind_ne hk (by decide)) (Parser.kind_ne hk (by decide)) hp fun r hr _ => ?_
      refine (hi.assignment hr (atStart_concat.2 hleads)).then fun right now s hs hc => ?_
      exact hs.pure_rest hc
    · exact hq.pure_rest hc

end Reached

theorem inner_withLevels (levels : Nat) : Inner input origin (Nested.withLevels levels) := by
  induction levels with
  | zero =>
    refine ⟨fun h hs => ?_, fun h hk => ?_, fun h hc => ?_⟩
    · exact h.failHere nofun fun _ => hs.not_endInParameters
    · exact h.failHere nofun (Parser.clear_of_ne (Kind.joins_of_startsUnary hk).ne_arrow)
    · exact h.failHere nofun hc
  | succ levels ih =>
    refine ⟨fun h hs => h.assignment ih hs, fun h hk => h.unary ih hk, fun {past p _ _ _} h hc => ?_⟩
    rw [Nested.withLevels, run_remaining_bind]
    exact h.climb ih _ hc

theorem Reached.call (h : Reached input origin [] p) (c : Call) :
    Ends input origin (Rest []) (c.step.run p) := by
  have hs : AtStart [] := nofun
  cases c with
  | expression => exact h.sequence (inner_withLevels _) hs
  | toEnd =>
    change Ends input origin (Rest []) (Parser.expressionToEnd.run p)
    rw [Parser.expressionToEnd]
    refine (h.sequence (inner_withLevels _) hs).then fun e now q hq hc => ?_
    rw [run_looksAt_bind]
    split
    · exact hq.pure_rest hc
    · exact hq.unexpected hc

theorem reached_here (hs : p.cursor.Standing input) (hb : p.Behind) : Reached input p.cursor [] p :=
  ⟨.refl, nofun, hs, hb⟩

/-- No arrow has been passed; so only the current one can be that of an arrow function. -/
theorem Reached.arrow_iff (h : Reached input origin past p) (offset : Nat) :
    (∃ us t vs, past ++ [p.token] = us ++ t :: vs ∧ t.kind = .arrow ∧ t.start.offset = offset ∧
      EndInParameters us) ↔
    p.kind = .arrow ∧ p.token.start.offset = offset ∧ EndInParameters past := by
  constructor
  · rintro ⟨us, t, vs, heq, hk, ho, he⟩
    obtain ⟨as, rfl, has⟩ | ⟨as, rfl, has⟩ := List.append_eq_append_iff.1 heq
    · cases as with
      | nil =>
        obtain ⟨rfl, -⟩ := List.cons.inj has
        rw [List.append_nil] at he
        exact ⟨hk, ho, he⟩
      | cons a as => simp at has
    · cases as with
      | nil =>
        obtain ⟨rfl, -⟩ := List.cons.inj has
        rw [List.append_nil]
        exact ⟨hk, ho, he⟩
      | cons a as =>
        obtain ⟨rfl, -⟩ := List.cons.inj has
        exact absurd hk (h.ne_arrow t (by simp))
  · rintro ⟨hk, ho, he⟩
    exact ⟨past, p.token, [], rfl, hk, ho, he⟩

end Arrow

namespace Parser

open Arrow (Reached Ends)

variable {input : List Char} {p : Parser TokenStream}

/-- What a call leaves is again a place from which calls can be told so. -/
theorem behind_call (hs : p.cursor.Standing input) (hb : p.Behind) (c : Call) :
    (p.call c).2.cursor.Standing input ∧ (p.call c).2.Behind := by
  have h := (Arrow.reached_here hs hb).call c
  rw [call, run]
  generalize c.step.run p = r at h
  cases h with
  | ok hr | arrow hr | fault hr => exact ⟨hr.standing, hr.behind⟩
  | lexical hr _ ha =>
    refine ⟨hr.standing.advance ha, fun offset ho => ?_⟩
    have ht := (TokenStream.advance_eq_error.1 ha).2
    rw [kind, token, show TokenCursor.current _ = _ from ht]
    exact hr.behind offset ho

theorem behind_after (hs : p.cursor.Standing input) (hb : p.Behind) (calls : List Call) :
    (p.after calls).cursor.Standing input ∧ (p.after calls).Behind := by
  induction calls generalizing p with
  | nil => exact ⟨hs, hb⟩
  | cons c calls ih =>
    obtain ⟨hs, hb⟩ := behind_call hs hb c
    exact ih hs hb

/-- The answer that refuses an arrow function at this arrow. -/
def refusedArrow (offset : Nat) : Except SyntaxError Expr :=
  .error (.fault (.unsupported "arrow function") offset)

theorem told_by_tokens {origin : TokenStream} {past : List Token}
    (h : Reached input origin past p) {r : Except SyntaxError Expr}
    (key : ∀ offset, r = refusedArrow offset ↔
      p.kind = .arrow ∧ p.token.start.offset = offset ∧ EndInParameters past) :
    (∀ offset, r = refusedArrow offset ↔
      ∃ us t vs, past ++ [p.token] = us ++ t :: vs ∧ t.kind = .arrow ∧ t.start.offset = offset ∧
        EndInParameters us) ∧
    (∀ us last, past = us ++ [last] → last.kind ≠ .name → last.kind ≠ .parenR →
      ∀ offset, r ≠ refusedArrow offset) ∧
    ∀ us op operand, past = us ++ op :: operand → op.kind.Joins → IsParameters operand →
      ∀ offset, r ≠ refusedArrow offset := by
  refine ⟨fun offset => (key offset).trans (h.arrow_iff offset).symm, ?_, ?_⟩
  · rintro us last rfl hn hp offset hr
    refine not_endInParameters (fun t ht => ?_) ((key offset).1 hr).2.2
    obtain rfl : last = t := by simpa using ht
    exact ⟨hn, hp⟩
  · rintro us op operand rfl hj ho offset hr
    have he := ((key offset).1 hr).2.2
    rw [List.append_cons, ho.endIn_iff, atStart_concat, hj.leadsIn] at he
    cases he

/-- A call refuses an arrow function just if it has read, up to an arrow, what could be its parameters,
and where it could begin: a name, or parentheses with what is in them, as the first thing of the call
or after a token after which an expression without a comma begins. An arrow after anything else, or
after the operand of an operator, is not refused as such. -/
theorem call_arrow_iff {options : Options} {stream : TokenStream}
    (ho : TokenStream.open? input options = .ok stream) (context : Context) (before : List Call)
    (c : Call) {r : Except SyntaxError Expr} {q : Parser TokenStream}
    (h : ((ofCursor stream context).after before).call c = (r, q)) :
    ∃ ts d, Passes ((ofCursor stream context).after before).cursor ts d ∧
      (q.cursor = d ∨
        ∃ e, TokenCursor.advance d = (.error e, q.cursor) ∧ r = .error (.lexical e)) ∧
      (∀ offset, r = refusedArrow offset ↔
        ∃ us t vs, ts ++ [d.current] = us ++ t :: vs ∧ t.kind = .arrow ∧ t.start.offset = offset ∧
          EndInParameters us) ∧
      (∀ us last, ts = us ++ [last] → last.kind ≠ .name → last.kind ≠ .parenR →
        ∀ offset, r ≠ refusedArrow offset) ∧
      ∀ us op operand, ts = us ++ op :: operand → op.kind.Joins → IsParameters operand →
        ∀ offset, r ≠ refusedArrow offset := by
  have hstart : (ofCursor stream context).Behind := nofun
  obtain ⟨hs, hb⟩ := behind_after (p := ofCursor stream context) (TokenStream.standing_of_open? ho)
    hstart before
  generalize (ofCursor stream context).after before = p at h hs hb
  have hends := (Arrow.reached_here hs hb).call c
  rw [call, run] at h
  generalize c.step.run p = x at h hends
  cases hends with
  | ok hr ha =>
    cases h
    obtain ⟨_, -, -, hc⟩ := ha
    refine ⟨_, _, hr.passes, .inl rfl, told_by_tokens hr fun offset =>
      iff_of_false (fun heq => ?_) fun he => hc he.1 he.2.2⟩
    cases heq
  | arrow hr hk he =>
    cases h
    refine ⟨_, _, hr.passes, .inl rfl, told_by_tokens hr fun offset => ⟨fun hf => ?_, ?_⟩⟩
    · cases hf
      exact ⟨hk, rfl, he⟩
    · rintro ⟨-, rfl, -⟩
      rfl
  | fault hr hf hc =>
    cases h
    refine ⟨_, _, hr.passes, .inl rfl, told_by_tokens hr fun offset =>
      iff_of_false (fun heq => ?_) fun he => hc he.1 he.2.2⟩
    cases heq
    exact hf rfl
  | lexical hr hk ha =>
    cases h
    refine ⟨_, _, hr.passes, .inr ⟨_, ha, rfl⟩, told_by_tokens hr fun offset =>
      iff_of_false (fun heq => ?_) fun he => hk he.1⟩
    cases heq

/-- The second call refuses what the parentheses begin. -/
theorem call_arrow_iff_group : ∃ stream q ts d us t vs,
    TokenStream.open? "1 (b) => c".toList {} = .ok stream ∧
      ((ofCursor stream {}).after [.expression]).call .toEnd = (refusedArrow 6, q) ∧
      Passes ((ofCursor stream {}).after [.expression]).cursor ts d ∧
      ts ++ [d.current] = us ++ t :: vs ∧ t.kind = .arrow ∧ EndInParameters us := by
  have hok : (TokenStream.open? "1 (b) => c".toList {}).toOption.any (fun stream =>
      match (((ofCursor stream {}).after [.expression]).call .toEnd).1 with
      | .error e => e == .fault (.unsupported "arrow function") 6
      | .ok _ => false) = true := by
    decide +kernel
  obtain ⟨stream, ho, hok⟩ := TokenStream.exists_of_any hok
  rcases hc : ((ofCursor stream {}).after [.expression]).call .toEnd with ⟨e | _, q⟩
  · rw [hc] at hok
    obtain rfl := eq_of_beq hok
    obtain ⟨ts, d, hp, -, hiff, -⟩ := call_arrow_iff ho {} [.expression] .toEnd hc
    obtain ⟨us, t, vs, heq, hk, -, he⟩ := (hiff 6).1 rfl
    exact ⟨stream, q, ts, d, us, t, vs, ho, hc, hp, heq, hk, he⟩
  · rw [hc] at hok
    cases hok

end Parser

end ArithLang
