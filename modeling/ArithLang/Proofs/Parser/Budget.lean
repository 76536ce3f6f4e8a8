import Mathlib.Data.List.Basic
import ArithLang.Proofs.Cursor.TokenList
import ArithLang.Proofs.Parser.Calls

/-!
How deep tokens can nest. Every level of nesting has a token of its own that begins it; so a parser does
not give up while fewer such tokens are left than levels.
-/

namespace ArithLang

/-- Whether a token of this kind can begin a level of nesting. -/
def Kind.nests (k : Kind) : Bool :=
  k == .parenL || k == .bracketL || k == .comma || k == .question || k == .colon ||
    k.isAssignment || k.startsUnary || k.isRightAssociative

namespace TokenList

/-- The tokens from the current one on that can begin a level. -/
def weight (list : TokenList) : Nat :=
  (.ok list.current :: list.ahead).countP fun r => r.toOption.any (·.kind.nests)

/-- At most so many tokens are left that can begin a level. -/
structure Within (m : Nat) (list : TokenList) : Prop where
  ends : Ends list.current list.ahead
  weight_le : list.weight ≤ m

variable {m n : Nat} {list list' : TokenList}

theorem Within.mono (h : list.Within m) (hmn : m ≤ n) : list.Within n :=
  ⟨h.ends, Nat.le_trans h.weight_le hmn⟩

theorem weight_eq (list : TokenList) : list.weight =
    list.ahead.countP (fun r => r.toOption.any (·.kind.nests)) +
      if list.current.kind.nests then 1 else 0 :=
  List.countP_cons

/-- A move goes past its token, which is one less to come if it can begin a level. -/
theorem Within.advance (h : list.Within m) (ha : list.advance = (.ok (), list')) :
    list'.Within (m - if list.current.kind.nests then 1 else 0) := by
  obtain ⟨he, hw⟩ := h
  cases hl : list.ahead with
  | nil =>
    cases (advance_of_nil hl).symm.trans ha
    have hk : list.current.kind = .eof := by rwa [hl] at he
    rw [hk]
    exact ⟨he, hw⟩
  | cons next rs =>
    cases next with
    | error => cases (advance_of_error hl).symm.trans ha
    | ok t =>
      cases (advance_of_ok hl).symm.trans ha
      rw [hl] at he
      rw [weight_eq, hl] at hw
      exact ⟨he, Nat.le_sub_of_add_le hw⟩

/-- Whatever a move comes to, there are not more left. -/
theorem Within.keeps {r : Except LexError Unit} (h : list.Within m) (ha : list.advance = (r, list')) :
    list'.Within m := by
  cases r with
  | ok => exact (h.advance ha).mono (Nat.sub_le ..)
  | error e =>
    unfold TokenList.advance at ha
    split at ha
    · cases ha
    · cases ha
    · cases ha
      exact h

theorem within_ofTokens (input : List Char) {ts : List Token}
    (h : ts.getLast?.map Token.kind = some .eof) :
    (ofTokens input ts).Within (ts.countP (·.kind.nests)) := by
  cases ts with
  | nil => cases h
  | cons t ts =>
    refine ⟨?_, Nat.le_of_eq ?_⟩
    · change Ends t (ts.map .ok)
      induction ts generalizing t with
      | nil => exact Option.some.inj h
      | cons u ts ih => exact ih u h
    · rw [weight_eq, List.countP_cons]
      change (ts.map Except.ok).countP _ + _ = _
      rw [List.countP_map]
      rfl

theorem Within.pos (h : list.Within m) (hn : list.current.kind.nests = true) : 0 < m := by
  refine Nat.lt_of_lt_of_le ?_ h.weight_le
  rw [weight_eq, if_pos hn]
  exact Nat.succ_pos _

end TokenList

namespace Budget

open Grammar Step

/-- The step has not given up for depth; if it has a value, at most so many tokens are left that can
begin a level. -/
inductive Ends {α : Type} (m : Nat) : EStateM.Result SyntaxError (Parser TokenList) α → Prop
  | ok : q.cursor.Within m → Ends m (.ok a q)
  | fault : f ≠ .nestedTooDeeply → Ends m (.error (.fault f o) q)
  | lexical : Ends m (.error (.lexical e) q)

variable {α β : Type} {m n : Nat} {p : Parser TokenList}

theorem Ends.mono {r : EStateM.Result SyntaxError (Parser TokenList) α} (h : Ends m r) (hmn : m ≤ n) :
    Ends n r := by
  cases h with
  | ok h => exact .ok (h.mono hmn)
  | fault hf => exact .fault hf
  | lexical => exact .lexical

theorem Ends.bind {x : Step TokenList α} {f : α → Step TokenList β} (hx : Ends m (x.run p))
    (hf : ∀ a q, q.cursor.Within m → Ends m ((f a).run q)) : Ends m ((x >>= f).run p) := by
  rw [EStateM.run_bind]
  generalize x.run p = r at hx
  cases hx with
  | ok h => exact hf _ _ h
  | fault hf => exact .fault hf
  | lexical => exact .lexical

/-! Moving on. At a token that can begin a level, one less is left after it. -/

section

variable (h : p.cursor.Within m)

include h

theorem pure {a : α} : Ends m ((Pure.pure a : Step TokenList α).run p) := .ok h

theorem advance {f : Unit → Step TokenList β}
    (hf : ∀ q : Parser TokenList, q.cursor.Within (m - if p.kind.nests then 1 else 0) →
      Ends m ((f ()).run q)) :
    Ends m ((Step.advance >>= f).run p) := by
  rw [EStateM.run_bind, Step.run_advance]
  rcases ha : TokenCursor.advance p.cursor with ⟨_ | _, d⟩
  · exact .lexical
  · exact hf _ (h.advance ha)

theorem pass {f : Unit → Step TokenList β}
    (hf : ∀ q : Parser TokenList, q.cursor.Within m → Ends m ((f ()).run q)) :
    Ends m ((Step.advance >>= f).run p) :=
  advance h fun q hq => hf q (hq.mono (Nat.sub_le ..))

theorem spend {f : Unit → Step TokenList β} (hn : p.kind.nests = true)
    (hf : ∀ n, n < m → ∀ q : Parser TokenList, q.cursor.Within n → Ends n ((f ()).run q)) :
    Ends m ((Step.advance >>= f).run p) := by
  refine advance h fun q hq => ?_
  rw [if_pos hn] at hq
  exact (hf _ (Nat.sub_lt (h.pos hn) Nat.one_pos) q hq).mono (Nat.sub_le ..)

theorem eat {k : Kind} {f : Bool → Step TokenList β} (hn : k.nests = true)
    (hf : ∀ n, n < m → ∀ q : Parser TokenList, q.cursor.Within n → Ends n ((f true).run q))
    (hf' : Ends m ((f false).run p)) : Ends m ((Step.eat k >>= f).run p) := by
  rw [Step.run_eat_bind]
  split
  · next hk => exact spend h (hk ▸ hn) hf
  · exact hf'

theorem expect {k : Kind} {f : Unit → Step TokenList β}
    (hf : ∀ q : Parser TokenList, q.cursor.Within m → Ends m ((f ()).run q)) :
    Ends m ((Step.expect k >>= f).run p) := by
  rw [Step.run_expect_bind]
  split
  · exact pass h hf
  · exact .fault (by simp)

end

theorem operator {ofText? : String → Option α} {f : α → Step TokenList β}
    (hf : ∀ op, Ends m ((f op).run p)) : Ends m ((Step.operator ofText? >>= f).run p) := by
  rw [Step.run_operator_bind]
  split
  · exact hf _
  · exact .fault (by simp)

theorem checkTarget {e : Expr} {place : String} {f : Unit → Step TokenList β}
    (hf : Ends m ((f ()).run p)) : Ends m ((Step.checkTarget e place >>= f).run p) := by
  rw [Step.run_checkTarget_bind]
  split
  · exact hf
  · exact .fault (by simp)

/-- The next level has levels for so many tokens. It begins with a token of its own, but at a prefix
operator, which is yet to come. -/
structure Inner (k : Nat) (inner : Nested TokenList) : Prop where
  assignment {m : Nat} {p : Parser TokenList} : p.cursor.Within m → m < k →
    Ends m (inner.assignment.run p)
  unary {m : Nat} {p : Parser TokenList} : p.cursor.Within m → p.kind.startsUnary = true → m ≤ k →
    Ends m (inner.unary.run p)
  climb {m : Nat} {p : Parser TokenList} {left : Expr} {start : Position} {least : Nat} :
    p.cursor.Within m → m < k → Ends m ((inner.climb left start least).run p)

theorem nests_of_startsUnary {k : Kind} (h : k.startsUnary = true) : k.nests = true := by
  simp [Kind.nests, h]

theorem nests_of_isAssignment {k : Kind} (h : k.isAssignment = true) : k.nests = true := by
  simp [Kind.nests, h]

theorem nests_of_isRightAssociative {k : Kind} (h : k.isRightAssociative = true) :
    k.nests = true := by
  simp [Kind.nests, h]

theorem numberLiteral (h : p.cursor.Within m) : Ends m (numberLiteral.run p) := by
  rw [Grammar.numberLiteral, run_current_bind]
  split
  · exact .fault (by simp)
  · exact pass h fun q hq => .ok hq

theorem identifier (h : p.cursor.Within m) : Ends m (identifier.run p) := by
  rw [Grammar.identifier, run_current_bind]
  exact pass h fun q hq => .ok hq

section

variable {k : Nat} {inner : Nested TokenList} (hi : Inner k inner)

include hi

theorem listTail (h : p.cursor.Within m) (hm : m ≤ k) (n : Nat) :
    Ends m ((listTail inner n).run p) := by
  induction n generalizing m p with
  | zero => exact pure h
  | succ n ih =>
    rw [Grammar.listTail]
    refine eat h rfl (fun m' hlt q hq => ?_) (pure h)
    have hlt : m' < k := Nat.lt_of_lt_of_le hlt hm
    refine (hi.assignment hq hlt).bind fun _ r hr => ?_
    exact (ih hr (Nat.le_of_lt hlt)).bind fun _ s hs => pure hs

theorem sequence (h : p.cursor.Within m) (hm : m < k) : Ends m ((sequence inner).run p) := by
  rw [Grammar.sequence, run_startPosition_bind]
  refine (hi.assignment h hm).bind fun _ q hq => ?_
  rw [run_looksAt_bind]
  split
  · rw [run_remaining_bind]
    exact (listTail hi hq (Nat.le_of_lt hm) _).bind fun _ r hr => pure hr
  · exact pure hq

theorem parenthesized (h : p.cursor.Within m) (hm : m ≤ k) (hk : p.kind = .parenL) :
    Ends m ((parenthesized inner).run p) := by
  rw [Grammar.parenthesized, run_startPosition_bind]
  refine spend h (hk ▸ rfl) fun m' hlt q hq => ?_
  refine (sequence hi hq (Nat.lt_of_lt_of_le hlt hm)).bind fun _ r hr => ?_
  exact expect hr fun s hs => pure hs

theorem atom (h : p.cursor.Within m) (hm : m ≤ k) : Ends m ((atom inner).run p) := by
  rw [Grammar.atom, run_current_bind, Parser.token_kind]
  split
  · exact numberLiteral h
  · exact identifier h
  · next hk => exact parenthesized hi h hm hk
  · exact .fault (by simp)

theorem subscriptTail (h : p.cursor.Within m) (hm : m ≤ k) (start : Position) (n : Nat)
    (base : Expr) : Ends m ((subscriptTail inner start n base).run p) := by
  induction n generalizing m p base with
  | zero => exact pure h
  | succ n ih =>
    rw [Grammar.subscriptTail]
    refine eat h rfl (fun m' hlt q hq => ?_) (pure h)
    have hlt : m' < k := Nat.lt_of_lt_of_le hlt hm
    refine (sequence hi hq hlt).bind fun _ r hr => expect hr fun s hs => ?_
    rw [run_infoFrom_bind]
    exact ih hs (Nat.le_of_lt hlt) _

theorem subscripts (h : p.cursor.Within m) (hm : m ≤ k) : Ends m ((subscripts inner).run p) := by
  rw [Grammar.subscripts, run_startPosition_bind, run_get_bind]
  refine (atom hi h hm).bind fun _ q hq => ?_
  rw [run_looksAt_bind]
  split
  · exact .fault (by simp)
  · rw [run_remaining_bind]
    exact subscriptTail hi hq hm _ _ _

theorem postfixed (h : p.cursor.Within m) (hm : m ≤ k) : Ends m ((postfixed inner).run p) := by
  rw [Grammar.postfixed, run_startPosition_bind]
  refine (subscripts hi h hm).bind fun _ q hq => ?_
  rw [run_looksAtPostfix_bind]
  split
  · refine checkTarget (operator fun _ => pass hq fun r hr => ?_)
    rw [run_infoFrom_bind, run_looksAtPostfix_bind]
    split
    · exact .fault (by simp)
    · exact pure hr
  · exact pure hq

theorem operand (h : p.cursor.Within m) (hm : m ≤ k) : Ends m ((operand inner).run p) := by
  rw [Grammar.operand, run_current_bind, Parser.token_kind]
  split
  · next hk => exact hi.unary h hk hm
  · exact postfixed hi h hm

theorem prefixUpdate (h : p.cursor.Within m) (hm : m ≤ k + 1) (hk : p.kind = .incDec) :
    Ends m ((prefixUpdate inner).run p) := by
  rw [Grammar.prefixUpdate, run_startPosition_bind]
  refine operator fun _ => spend h (hk ▸ rfl) fun m' hlt q hq => ?_
  rw [run_current_bind]
  refine (operand hi hq (Nat.le_of_lt_succ (Nat.lt_of_lt_of_le hlt hm))).bind fun _ r hr => ?_
  exact checkTarget (pure hr)

theorem prefixUnary (h : p.cursor.Within m) (hm : m ≤ k + 1) (hk : p.kind.startsUnary = true) :
    Ends m ((prefixUnary inner).run p) := by
  rw [Grammar.prefixUnary, run_startPosition_bind]
  refine operator fun _ => spend h (nests_of_startsUnary hk) fun m' hlt q hq => ?_
  rw [run_current_bind]
  refine (operand hi hq (Nat.le_of_lt_succ (Nat.lt_of_lt_of_le hlt hm))).bind fun _ r hr => ?_
  rw [run_context_bind]
  split
  · exact .fault (by simp)
  · exact pure hr

theorem unary (h : p.cursor.Within m) (hm : m ≤ k + 1) (hk : p.kind.startsUnary = true) :
    Ends m ((unary inner).run p) := by
  rw [Grammar.unary, run_looksAt_bind]
  split
  · next hu => exact prefixUpdate hi h hm (eq_of_beq hu)
  · exact prefixUnary hi h hm hk

omit hi in
theorem checkPowerBase {kind : Kind} {left : Expr} {f : Unit → Step TokenList β}
    (hf : Ends m ((f ()).run p)) : Ends m ((checkPowerBase kind left >>= f).run p) := by
  unfold Grammar.checkPowerBase
  split
  · split
    · exact .fault (by simp)
    · exact hf
  · exact hf

omit hi in
theorem binaryNode {f : (Expr → Expr → Info → Expr) → Step TokenList β}
    (hf : ∀ node, Ends m ((f node).run p)) : Ends m ((binaryNode p.kind >>= f).run p) := by
  rw [Parser.run_binaryNode_bind]
  cases p.node? with
  | none => exact .fault (by simp)
  | some node => exact hf node

theorem climb (h : p.cursor.Within m) (hm : m ≤ k) (start : Position) (least n : Nat) (left : Expr) :
    Ends m ((climb inner start least n left).run p) := by
  induction n generalizing m p start least left with
  | zero => exact pure h
  | succ n ih =>
    rw [Grammar.climb, run_current_bind, Parser.token_kind]
    dsimp only
    split
    · exact pure h
    · split
      · exact pure h
      · refine checkPowerBase (binaryNode fun node => ?_)
        -- an operator whose right operand is on the next level has a token for that level
        by_cases hright : p.kind.isRightAssociative = true
        · refine spend h (nests_of_isRightAssociative hright) fun m' hlt q hq => ?_
          have hlt : m' < k := Nat.lt_of_lt_of_le hlt hm
          rw [run_startPosition_bind]
          refine (operand hi hq (Nat.le_of_lt hlt)).bind fun first r hr => ?_
          rw [if_pos hright]
          refine (hi.climb hr hlt).bind fun right s hs => ?_
          rw [run_infoFrom_bind]
          exact ih hs (Nat.le_of_lt hlt) _ _ _
        · refine pass h fun q hq => ?_
          rw [run_startPosition_bind]
          refine (operand hi hq hm).bind fun first r hr => ?_
          rw [if_neg hright]
          refine (ih hr hm _ _ _).bind fun right s hs => ?_
          rw [run_infoFrom_bind]
          exact ih hs hm _ _ _

theorem chain (h : p.cursor.Within m) (hm : m ≤ k) : Ends m ((chain inner).run p) := by
  rw [Grammar.chain, run_startPosition_bind]
  refine (operand hi h hm).bind fun _ q hq => ?_
  rw [run_remaining_bind]
  exact climb hi hq hm _ _ _ _

theorem conditional (h : p.cursor.Within m) (hm : m ≤ k) : Ends m ((conditional inner).run p) := by
  rw [Grammar.conditional, run_startPosition_bind]
  refine (chain hi h hm).bind fun _ q hq => eat hq rfl (fun m' hlt r hr => ?_) (pure hq)
  have hlt : m' < k := Nat.lt_of_lt_of_le hlt hm
  refine (hi.assignment hr hlt).bind fun _ s hs => expect hs fun u hu => ?_
  exact (hi.assignment hu hlt).bind fun _ v hv => pure hv

theorem assignment (h : p.cursor.Within m) (hm : m ≤ k) : Ends m ((assignment inner).run p) := by
  rw [Grammar.assignment, run_current_bind, run_context_bind]
  split
  · exact .fault (by simp)
  · rw [run_bind_of_ok run_markArrowStart]
    have hmarked : p.marked.cursor.Within m := p.marked_cursor ▸ h
    refine (conditional hi hmarked hm).bind fun _ q hq => ?_
    rw [run_current_bind]
    split
    · next hk =>
      refine operator fun _ => checkTarget (spend hq (nests_of_isAssignment hk) fun m' hlt r hr => ?_)
      exact (hi.assignment hr (Nat.lt_of_lt_of_le hlt hm)).bind fun _ s hs => pure hs
    · exact pure hq

end

/-- So many levels serve so many tokens. -/
theorem inner_withLevels (n : Nat) : Inner n (Nested.withLevels n) := by
  induction n with
  | zero =>
    refine ⟨fun _ hm => absurd hm (Nat.not_lt_zero _), fun h hk hm => ?_,
      fun _ hm => absurd hm (Nat.not_lt_zero _)⟩
    exact absurd (h.pos (nests_of_startsUnary hk)) (Nat.not_lt_of_le hm)
  | succ n ih =>
    refine ⟨fun h hm => assignment ih h (Nat.le_of_lt_succ hm), fun h hk hm => unary ih h hm hk,
      fun {m p _ _ _} h hm => ?_⟩
    rw [Nested.withLevels, run_remaining_bind]
    exact climb ih h (Nat.le_of_lt_succ hm) _ _ _ _

/-- A call does not give up for depth while fewer tokens are left that can begin a level than there are
levels. -/
theorem call (h : p.cursor.Within m) (hm : m < maxNesting) (c : Call) : Ends m (c.step.run p) := by
  have hsequence : Ends m (Parser.expression.run p) := sequence (inner_withLevels _) h hm
  cases c with
  | expression => exact hsequence
  | toEnd =>
    change Ends m (Parser.expressionToEnd.run p)
    rw [Parser.expressionToEnd]
    refine hsequence.bind fun _ q hq => ?_
    rw [run_looksAt_bind]
    split
    · exact pure hq
    · exact .fault (by simp)

end Budget

namespace Parser

/-- A list that ends at `eof` and holds fewer tokens that can begin a level than there are levels is
never nested too deeply, whatever the calls before came to. -/
theorem call_ne_nestedTooDeeply (input : List Char) {ts : List Token}
    (hlast : ts.getLast?.map Token.kind = some .eof)
    (hcount : ts.countP (·.kind.nests) < maxNesting) (context : Context) (before : List Call)
    (c : Call) (offset : Nat) :
    (((ofCursor (TokenList.ofTokens input ts) context).after before).call c).1 ≠
      .error (.fault .nestedTooDeeply offset) := by
  have h := (after_keeps (fun _ _ _ => TokenList.Within.keeps)
    (p := ofCursor (TokenList.ofTokens input ts) context)
    (TokenList.within_ofTokens input hlast) before).1
  have ends := Budget.call h hcount c
  rw [call, run]
  generalize c.step.run ((ofCursor (TokenList.ofTokens input ts) context).after before) = r at ends
  intro heq
  cases ends with
  | ok => cases heq
  | fault hf =>
    cases heq
    exact hf rfl
  | lexical => cases heq

end Parser

end ArithLang
