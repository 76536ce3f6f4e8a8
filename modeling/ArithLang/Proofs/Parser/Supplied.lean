import Mathlib.Data.List.Basic
import ArithLang.Proofs.Cursor.Standing
import ArithLang.Proofs.Parser.Calls
import ArithLang.Proofs.Token.Payload

/-!
A parser whose tokens carry what their kinds promise finds an operator wherever it looks one up and a
number wherever it reads one, and its trees hold no name and no literal without text.
-/

namespace ArithLang

/-- What the moves of a cursor keep true, so that its tokens carry what they promise. -/
structure Supply (C : Type) [TokenCursor C] where
  Holds : C → Prop
  keeps {c d : C} {r : Except LexError Unit} :
    Holds c → TokenCursor.advance c = (r, d) → Holds d
  carries {c : C} : Holds c → (TokenCursor.current c).Carries (TokenCursor.input c)

/-- Whether the fault may be a text's. Two of them only tokens that break their promise could bring. -/
def SyntaxFault.IsTextual : SyntaxFault → Prop
  | .unexpected expected _ => expected ≠ "operator" ∧ expected ≠ "number"
  | _ => True

namespace Expr

/-- A name or a literal has its text. -/
def HasText : Expr → Prop
  | number _ i => ∃ raw, i.extra.raw = some raw ∧ raw ≠ ""
  | identifier name _ => name ≠ ""
  | _ => True

theorem hasText_parenthesize (offset : Nat) (e : Expr) :
    (e.parenthesize offset).HasText ↔ e.HasText := by
  cases e <;> rfl

/-- Every name and every literal of the tree has its text. -/
def Filled (e : Expr) : Prop := e.Every HasText

variable {e : Expr}

theorem filled_of_children (h : e.HasText) (hc : e.children.Forall Filled) : e.Filled :=
  .intro h (List.forall_iff_forall_mem.1 hc)

theorem Filled.parenthesize (h : e.Filled) (offset : Nat) : (e.parenthesize offset).Filled := by
  obtain ⟨h, hc⟩ := every_iff.1 h
  refine every_iff.2 ⟨(hasText_parenthesize offset e).2 h, ?_⟩
  rwa [Expr.parenthesize, withExtra, children_withInfo]

end Expr

namespace Supply

open Grammar Step
open ArithLang.Expr (Filled filled_of_children)

variable {C : Type} [TokenCursor C] (S : Supply C)

/-- How a step may end, with what is so of the value. -/
inductive Ends {α : Type} (A : α → Prop) : EStateM.Result SyntaxError (Parser C) α → Prop
  | ok : A a → S.Holds q.cursor → Ends A (.ok a q)
  | fault : f.IsTextual → S.Holds q.cursor → Ends A (.error (.fault f o) q)
  | lexical : S.Holds q.cursor → Ends A (.error (.lexical e) q)

variable {S} {α β : Type} {A : α → Prop} {B : β → Prop} {p : Parser C}

theorem Ends.bind {x : Step C α} {f : α → Step C β} (hx : S.Ends A (x.run p))
    (hf : ∀ a q, A a → S.Holds q.cursor → S.Ends B ((f a).run q)) :
    S.Ends B ((x >>= f).run p) := by
  rw [EStateM.run_bind]
  generalize x.run p = u at hx
  cases hx with
  | ok ha h => exact hf _ _ ha h
  | fault hf h => exact .fault hf h
  | lexical h => exact .lexical h

theorem Ends.operator {ofText? : String → Option α} {f : α → Step C β}
    (ho : (p.operator? ofText?).isSome = true) (hf : ∀ op, S.Ends B ((f op).run p)) :
    S.Ends B ((Step.operator ofText? >>= f).run p) := by
  obtain ⟨op, ho⟩ := Option.isSome_iff_exists.1 ho
  rw [Step.run_operator_bind, ho]
  exact hf op

namespace Holds

variable (h : S.Holds p.cursor)

include h

theorem token : p.token.Carries (TokenCursor.input p.cursor) := S.carries h

theorem pure {a : α} (ha : A a) : S.Ends A ((Pure.pure a : Step C α).run p) := .ok ha h

theorem failAt {f : SyntaxFault} {offset : Nat} (hf : f.IsTextual) :
    S.Ends A ((Step.failAt f offset : Step C α).run p) :=
  .fault hf h

theorem failHere {f : SyntaxFault} (hf : f.IsTextual) :
    S.Ends A ((Step.failHere f : Step C α).run p) :=
  .fault hf h

theorem unexpected {expected : String} (he : expected ≠ "operator" ∧ expected ≠ "number") :
    S.Ends A ((Step.unexpected expected : Step C α).run p) :=
  .fault he h

theorem advance {f : Unit → Step C β} (hf : ∀ q, S.Holds q.cursor → S.Ends B ((f ()).run q)) :
    S.Ends B ((Step.advance >>= f).run p) := by
  rw [EStateM.run_bind, Step.run_advance]
  rcases ha : TokenCursor.advance p.cursor with ⟨_ | _, d⟩
  · exact .lexical (S.keeps h ha)
  · exact hf _ (S.keeps h ha)

theorem eat {k : Kind} {f : Bool → Step C β}
    (hf : ∀ q, S.Holds q.cursor → S.Ends B ((f true).run q))
    (hf' : S.Ends B ((f false).run p)) : S.Ends B ((Step.eat k >>= f).run p) := by
  rw [Step.run_eat_bind]
  split
  · exact h.advance hf
  · exact hf'

theorem expect {k : Kind} {f : Unit → Step C β}
    (hf : ∀ q, S.Holds q.cursor → S.Ends B ((f ()).run q)) :
    S.Ends B ((Step.expect k >>= f).run p) := by
  rw [Step.run_expect_bind]
  split
  · exact h.advance hf
  · exact h.unexpected (by cases k <;> decide)

theorem checkTarget {e : Expr} {place : String} {f : Unit → Step C β}
    (hf : S.Ends B ((f ()).run p)) : S.Ends B ((Step.checkTarget e place >>= f).run p) := by
  rw [Step.run_checkTarget_bind]
  split
  · exact hf
  · exact h.failAt trivial

theorem raw_ne_empty (hk : p.kind ≠ .eof) : p.raw ≠ "" := by
  obtain ⟨text, ht, hne⟩ := h.token.covers hk
  rw [Parser.raw, ht]
  exact fun he => hne (String.ofList_eq_empty_iff.1 he)

theorem numberLiteral (hk : p.kind = .num) : S.Ends Filled (numberLiteral.run p) := by
  have hfits := h.token.fits
  rw [Token.lexeme, show p.token.kind = .num from hk] at hfits
  rw [Grammar.numberLiteral, run_current_bind]
  generalize hv : p.token.value = value at hfits
  cases hfits with
  | mark hne => contradiction
  | text hc => cases hc
  | number =>
    simp only [Value.number?, run_get_bind]
    refine h.advance fun q hq => ?_
    rw [run_infoFrom_bind]
    exact hq.pure (filled_of_children ⟨p.raw, rfl, h.raw_ne_empty (by simp [hk])⟩ trivial)

theorem identifier (hk : p.kind = .name) : S.Ends Filled (identifier.run p) := by
  have hfits := h.token.fits
  have hnamed := h.token.named hk
  rw [Token.lexeme, show p.token.kind = .name from hk] at hfits
  rw [Grammar.identifier, run_current_bind]
  generalize p.token.value = value at hfits hnamed
  cases hfits with
  | mark _ hc => cases hc
  | text =>
    refine h.advance fun q hq => ?_
    rw [run_infoFrom_bind]
    exact hq.pure (filled_of_children (fun he => hnamed (congrArg Value.text he)) trivial)

end Holds

/-- So the steps of the next level end. -/
structure Inner (S : Supply C) (inner : Nested C) : Prop where
  assignment {p : Parser C} : S.Holds p.cursor → S.Ends Filled (inner.assignment.run p)
  unary {p : Parser C} : S.Holds p.cursor → p.kind.startsUnary = true →
    S.Ends Filled (inner.unary.run p)
  climb {p : Parser C} {left : Expr} {start : Position} {least : Nat} : S.Holds p.cursor →
    left.Filled → S.Ends Filled ((inner.climb left start least).run p)

namespace Holds

variable {inner : Nested C} (h : S.Holds p.cursor) (hi : S.Inner inner)

include h hi

theorem listTail (n : Nat) : S.Ends (∀ e ∈ ·, Filled e) ((listTail inner n).run p) := by
  induction n generalizing p with
  | zero => exact h.pure nofun
  | succ n ih =>
    rw [Grammar.listTail]
    refine h.eat (fun q hq => ?_) (h.pure nofun)
    refine (hi.assignment hq).bind fun e r he hr => ?_
    exact (ih hr).bind fun es s hes hs => hs.pure (List.forall_mem_cons.2 ⟨he, hes⟩)

theorem sequence : S.Ends Filled ((sequence inner).run p) := by
  rw [Grammar.sequence, run_startPosition_bind]
  refine (hi.assignment h).bind fun e q he hq => ?_
  rw [run_looksAt_bind]
  split
  · rw [run_remaining_bind]
    refine (hq.listTail hi _).bind fun es r hes hr => ?_
    rw [run_infoFrom_bind]
    exact hr.pure (.intro trivial (List.forall_mem_cons.2 ⟨he, hes⟩))
  · exact hq.pure he

theorem parenthesized : S.Ends Filled ((parenthesized inner).run p) := by
  rw [Grammar.parenthesized, run_startPosition_bind]
  refine h.advance fun q hq => (hq.sequence hi).bind fun e r he hr => ?_
  exact hr.expect fun s hs => hs.pure (he.parenthesize _)

theorem atom : S.Ends Filled ((atom inner).run p) := by
  rw [Grammar.atom, run_current_bind, Parser.token_kind]
  split
  · next hk => exact h.numberLiteral hk
  · next hk => exact h.identifier hk
  · exact h.parenthesized hi
  · exact h.unexpected (by decide)

theorem subscriptTail (start : Position) (n : Nat) {base : Expr} (hb : base.Filled) :
    S.Ends Filled ((subscriptTail inner start n base).run p) := by
  induction n generalizing p base with
  | zero => exact h.pure hb
  | succ n ih =>
    rw [Grammar.subscriptTail]
    refine h.eat (fun q hq => ?_) (h.pure hb)
    refine (hq.sequence hi).bind fun e r he hr => hr.expect fun s hs => ?_
    rw [run_infoFrom_bind]
    exact ih hs (filled_of_children trivial ⟨hb, he⟩)

theorem subscripts : S.Ends Filled ((subscripts inner).run p) := by
  rw [Grammar.subscripts, run_startPosition_bind, run_get_bind]
  refine (h.atom hi).bind fun e q he hq => ?_
  rw [run_looksAt_bind]
  split
  · exact hq.failHere trivial
  · rw [run_remaining_bind]
    exact hq.subscriptTail hi _ _ he

theorem postfixed : S.Ends Filled ((postfixed inner).run p) := by
  rw [Grammar.postfixed, run_startPosition_bind]
  refine (h.subscripts hi).bind fun e q he hq => ?_
  rw [run_looksAtPostfix_bind]
  split
  · next ha =>
    have hk : q.kind.isPostfix = true := ((Bool.and_eq_true _ _).mp ha).1
    refine hq.checkTarget (.operator (hq.token.acts.update hk) fun op => ?_)
    refine hq.advance fun r hr => ?_
    rw [run_infoFrom_bind, run_looksAtPostfix_bind]
    split
    · exact hr.failAt trivial
    · exact hr.pure (filled_of_children trivial he)
  · exact hq.pure he

theorem operand : S.Ends Filled ((operand inner).run p) := by
  rw [Grammar.operand, run_current_bind, Parser.token_kind]
  split
  · next hk => exact hi.unary h hk
  · exact h.postfixed hi

theorem prefixUpdate (hk : p.kind = .incDec) : S.Ends Filled ((prefixUpdate inner).run p) := by
  have hop : p.kind.isPostfix = true := by rw [hk]; rfl
  rw [Grammar.prefixUpdate, run_startPosition_bind]
  refine .operator (h.token.acts.update hop) fun op => h.advance fun q hq => ?_
  rw [run_current_bind]
  refine (hq.operand hi).bind fun e r he hr => hr.checkTarget ?_
  rw [run_infoFrom_bind]
  exact hr.pure (filled_of_children trivial he)

theorem prefixUnary (hk : p.kind.isPlainPrefix = true) : S.Ends Filled ((prefixUnary inner).run p) := by
  rw [Grammar.prefixUnary, run_startPosition_bind]
  refine .operator (h.token.acts.unary hk) fun op => h.advance fun q hq => ?_
  rw [run_current_bind]
  refine (hq.operand hi).bind fun e r he hr => ?_
  rw [run_context_bind]
  split
  · exact hr.failAt trivial
  · rw [run_infoFrom_bind]
    exact hr.pure (filled_of_children trivial he)

theorem unary (hk : p.kind.startsUnary = true) : S.Ends Filled ((unary inner).run p) := by
  rw [Grammar.unary, run_looksAt_bind]
  split
  · next hu => exact h.prefixUpdate hi (eq_of_beq hu)
  · next hu => exact h.prefixUnary hi ((Bool.and_eq_true _ _).mpr ⟨hk, by simpa using hu⟩)

omit hi in
theorem checkPowerBase {k : Kind} {left : Expr} {f : Unit → Step C β}
    (hf : S.Ends B ((f ()).run p)) : S.Ends B ((checkPowerBase k left >>= f).run p) := by
  unfold Grammar.checkPowerBase
  split
  · split
    · exact h.failAt trivial
    · exact hf
  · exact hf

omit hi in
theorem isSome_node? {strength : Nat} (hs : chainStrength? p.kind = some strength) :
    p.node?.isSome = true := by
  have hlogical := h.token.acts.logical
  have hbinary := h.token.acts.binary
  change p.kind.isLogical = true → (p.operator? LogicalOp.ofText?).isSome = true at hlogical
  change p.kind.isBinary = true → (p.operator? BinaryOp.ofText?).isSome = true at hbinary
  unfold Kind.isBinary at hbinary
  rw [hs] at hbinary
  unfold Parser.node?
  split
  · next hk => simpa using hlogical (hk ▸ rfl)
  · next hk => simpa using hlogical (hk ▸ rfl)
  · next ho ha =>
    have hno : p.kind.isLogical = false := by
      simp only [Kind.isLogical, Bool.or_eq_false_iff, beq_eq_false_iff_ne]
      exact ⟨ho, ha⟩
    simpa using hbinary (by rw [hno]; rfl)

omit hi in
theorem binaryNode {strength : Nat} (hs : chainStrength? p.kind = some strength)
    {f : (Expr → Expr → Info → Expr) → Step C β}
    (hf : ∀ node : Expr → Expr → Info → Expr,
      (∀ l r i, l.Filled → r.Filled → (node l r i).Filled) → S.Ends B ((f node).run p)) :
    S.Ends B ((binaryNode p.kind >>= f).run p) := by
  obtain ⟨node, hn⟩ := Option.isSome_iff_exists.1 (h.isSome_node? hs)
  rw [Parser.run_binaryNode_bind, hn]
  refine hf node fun l r i hl hr => ?_
  obtain ⟨op, -, rfl⟩ | ⟨op, -, rfl⟩ := Parser.node?_eq_some hn
  · exact filled_of_children trivial ⟨hl, hr⟩
  · exact filled_of_children trivial ⟨hl, hr⟩

theorem climb (n : Nat) {start : Position} {least : Nat} {left : Expr} (hl : left.Filled) :
    S.Ends Filled ((climb inner start least n left).run p) := by
  induction n generalizing p start least left with
  | zero => exact h.pure hl
  | succ n ih =>
    rw [Grammar.climb, run_current_bind, Parser.token_kind]
    dsimp only
    split
    · exact h.pure hl
    · next strength hk =>
      split
      · exact h.pure hl
      · refine h.checkPowerBase (h.binaryNode hk fun node hnode => h.advance fun q hq => ?_)
        rw [run_startPosition_bind]
        refine (hq.operand hi).bind fun e r he hr => ?_
        refine Ends.bind (A := Filled) ?_ fun t s ht hs => ?_
        · split
          · exact hi.climb hr he
          · exact ih hr he
        · rw [run_infoFrom_bind]
          exact ih hs (hnode _ _ _ hl ht)

theorem chain : S.Ends Filled ((chain inner).run p) := by
  rw [Grammar.chain, run_startPosition_bind]
  refine (h.operand hi).bind fun e q he hq => ?_
  rw [run_remaining_bind]
  exact hq.climb hi _ he

theorem conditional : S.Ends Filled ((conditional inner).run p) := by
  rw [Grammar.conditional, run_startPosition_bind]
  refine (h.chain hi).bind fun t q ht hq => hq.eat (fun r hr => ?_) (hq.pure ht)
  refine (hi.assignment hr).bind fun c s hc hs => hs.expect fun u hu => ?_
  refine (hi.assignment hu).bind fun a v ha hv => ?_
  exact hv.pure (filled_of_children trivial ⟨ht, hc, ha⟩)

theorem assignment : S.Ends Filled ((assignment inner).run p) := by
  rw [Grammar.assignment, run_current_bind, run_context_bind]
  split
  · exact h.failHere trivial
  · rw [run_bind_of_ok run_markArrowStart]
    have hm : S.Holds p.marked.cursor := p.marked_cursor ▸ h
    refine (hm.conditional hi).bind fun e q he hq => ?_
    rw [run_current_bind]
    split
    · next hk =>
      refine .operator (hq.token.acts.assignment hk) fun op => hq.checkTarget ?_
      refine hq.advance fun r hr => (hi.assignment hr).bind fun v s hv hs => ?_
      exact hs.pure (filled_of_children trivial ⟨he, hv⟩)
    · exact hq.pure he

end Holds

theorem inner_withLevels (n : Nat) : S.Inner (Nested.withLevels n) := by
  induction n with
  | zero =>
    exact ⟨fun h => h.failHere trivial, fun h _ => h.failHere trivial, fun h _ => h.failHere trivial⟩
  | succ n ih =>
    refine ⟨fun h => h.assignment ih, fun h hk => h.unary ih hk, fun {p _ _ _} h hl => ?_⟩
    rw [Nested.withLevels, run_remaining_bind]
    exact h.climb ih _ hl

theorem Holds.call (h : S.Holds p.cursor) (c : Call) : S.Ends Filled (c.step.run p) := by
  cases c with
  | expression => exact h.sequence (inner_withLevels _)
  | toEnd =>
    change S.Ends Filled (Parser.expressionToEnd.run p)
    rw [Parser.expressionToEnd]
    refine (h.sequence (inner_withLevels _)).bind fun e q he hq => ?_
    rw [run_looksAt_bind]
    split
    · exact hq.pure he
    · exact hq.unexpected (by decide)

end Supply

namespace TokenStream

/-- The tokens of a text, as a stream that is moved over it, whether or not its moves fail. -/
def supply (input : List Char) : Supply TokenStream where
  Holds s := s.Standing input ∧ s.current.Carries input
  keeps {s s' r} h ha := by
    obtain ⟨hs, hc⟩ := h
    refine ⟨hs.advance ha, ?_⟩
    cases r with
    | ok =>
      have hn := (Scanner.next_eq (advance_eq_ok.1 ha)).1
      exact (ScanState.finds_of_next hn).carries hs.located
    | error e =>
      rw [(advance_eq_error.1 ha).2]
      exact hc
  carries {s} h := by
    change s.current.Carries s.scanner.input
    rw [h.1.input_eq]
    exact h.2

theorem supply_of_open? {input : List Char} {options : Options} {s : TokenStream}
    (h : open? input options = .ok s) : (supply input).Holds s := by
  have hn := (Scanner.next_eq (open?_eq_ok h)).1
  exact ⟨standing_of_open? h, (ScanState.finds_of_next hn).carries (ScanState.located_start input)⟩

end TokenStream

namespace Parser

/-- Every token of a text carries what its kind promises. So no call of a parser over the text, whatever
the calls before it came to, misses an operator or a number, and no tree that it answers has a name or
a literal without text. -/
theorem tokens_agree (input : List Char) (options : Options) :
    (∀ scans t scanner', ((Scanner.start input options).after scans).next = (.ok t, scanner') →
      t.Carries input) ∧
    ∀ stream, TokenStream.open? input options = .ok stream →
      ∀ (context : Context) (before : List Call) (c : Call),
        (∀ fault offset, (((ofCursor stream context).after before).call c).1 =
          .error (.fault fault offset) → fault.IsTextual) ∧
        ∀ e, (((ofCursor stream context).after before).call c).1 = .ok e → e.Filled := by
  constructor
  · intro scans t scanner' hn
    have hf := ScanState.finds_of_next (Scanner.next_eq hn).1
    exact hf.carries (Scanner.located_after input options scans)
  · intro stream ho context before c
    have hh : (TokenStream.supply input).Holds ((ofCursor stream context).after before).cursor :=
      (after_keeps (fun _ _ _ => (TokenStream.supply input).keeps)
        (p := ofCursor stream context) (TokenStream.supply_of_open? ho) before).1
    have hends := hh.call c
    rw [call, run]
    generalize c.step.run ((ofCursor stream context).after before) = r at hends
    cases hends with
    | ok he => exact ⟨fun _ _ h => (by cases h), fun e h => Except.ok.inj h ▸ he⟩
    | fault hf =>
      refine ⟨fun fault offset h => ?_, fun _ h => (by cases h)⟩
      cases h
      exact hf
    | lexical => exact ⟨fun _ _ h => (by cases h), fun _ h => (by cases h)⟩

/-- The first call stops before an escape that is wrong, the second answers the literal after it. -/
theorem tokens_agree_literal : ∃ stream e,
    TokenStream.open? "(\\u 0x1F)".toList {} = .ok stream ∧
      stream.current.Carries "(\\u 0x1F)".toList ∧
      (((ofCursor stream {}).after [.expression]).call .toEnd).1 = .ok e ∧ e.Filled := by
  have hok : (TokenStream.open? "(\\u 0x1F)".toList {}).toOption.any (fun stream =>
      (((ofCursor stream {}).after [.expression]).call .toEnd).1.isOk) = true := by
    decide +kernel
  obtain ⟨htokens, hcalls⟩ := tokens_agree "(\\u 0x1F)".toList {}
  cases ho : TokenStream.open? "(\\u 0x1F)".toList {} with
  | error =>
    rw [ho] at hok
    cases hok
  | ok stream =>
    rw [ho] at hok
    change (((ofCursor stream {}).after [.expression]).call .toEnd).1.isOk = true at hok
    cases hc : (((ofCursor stream {}).after [.expression]).call .toEnd).1 with
    | error =>
      rw [hc] at hok
      cases hok
    | ok e =>
      exact ⟨stream, e, rfl, htokens 0 _ _ (TokenStream.open?_eq_ok ho), hc,
        (hcalls stream ho {} [.expression] .toEnd).2 e hc⟩

end Parser

end ArithLang
