import ArithLang.Proofs.Lockstep.Answers
import ArithLang.Proofs.Parser.Strict

/-!
Calls with every move of the cursor noted down. The notes change nothing, whatever the cursor; and they
show that the cursor is never moved at the end of the tokens, and only ever moved on.
-/

namespace ArithLang

open TokenCursor (Passes current)

/-- A cursor, and the tokens at which it has been moved, also in vain. -/
structure Trace (C : Type) where
  cursor : C
  moves : List Token

/-- Moves at these tokens lead from one cursor to another; but for the last one they succeed. -/
inductive TokenCursor.Moved {C : Type} [TokenCursor C] (c : C) : List Token → C → Prop
  | passed : Passes c ts d → Moved c ts d
  | failed : Passes c ts d → (current d).kind ≠ .eof → advance d = (.error e, d') →
      Moved c (ts ++ [current d]) d'

variable {C : Type} [TokenCursor C]

theorem TokenCursor.Passes.ne_eof {c d : C} {ts : List Token} (h : Passes c ts d) :
    ∀ t ∈ ts, t.kind ≠ .eof := by
  induction h with
  | refl => exact List.forall_mem_nil _
  | step hk _ _ ih => exact List.forall_mem_cons.2 ⟨hk, ih⟩

theorem TokenCursor.Moved.ne_eof {c d : C} {ts : List Token} (h : Moved c ts d) :
    ∀ t ∈ ts, t.kind ≠ .eof := by
  cases h with
  | passed hp => exact hp.ne_eof
  | failed hp hk =>
    refine List.forall_mem_append.2 ⟨hp.ne_eof, ?_⟩
    simpa using hk

instance : TokenCursor (Trace C) where
  current t := current t.cursor
  lastStop t := TokenCursor.lastStop t.cursor
  advance t :=
    let (result, cursor) := TokenCursor.advance t.cursor
    (result, { cursor, moves := t.moves ++ [current t.cursor] })
  input t := TokenCursor.input t.cursor
  remaining t := TokenCursor.remaining t.cursor

namespace Parser

/-- The parser with nothing noted down yet. -/
def traced (p : Parser C) : Parser (Trace C) :=
  { p with cursor := { cursor := p.cursor, moves := [] } }

/-- The parser without the notes. -/
def untraced (p : Parser (Trace C)) : Parser C := { p with cursor := p.cursor.cursor }

/-- The tokens at which a call moves the cursor. -/
def moves (p : Parser C) (c : Call) : List Token := (p.traced.call c).2.cursor.moves

end Parser

namespace Lockstep

/-- A parser that notes the moves from a cursor on, beside one that does not. -/
def tracing (origin : C) (context : Context) : Lockstep (Trace C) C where
  layout := .same
  cursor t c := t.cursor = c ∧ Passes origin t.moves c
  stuck t c := t.cursor = c ∧ TokenCursor.Moved origin t.moves c
  lexical e e' := e = e'
  context x y := x = context ∧ x = y
  fuel _ _ n n' := n = n'
  excused _ := False
  kind_eq h := h.1 ▸ rfl
  value_eq h := h.1 ▸ rfl
  start h := h.1 ▸ rfl
  stop h := h.1 ▸ rfl
  raw {p p'} h _ := by
    change p.raw = p'.raw
    rw [Parser.raw, Parser.raw, Parser.token, Parser.token, ← h.1]
    rfl
  offsets_eq := Layout.Offsets.eq_iff
  advance_ok {t d c} h hk ha := by
    obtain ⟨rfl, hp⟩ := h
    obtain ⟨hr, rfl⟩ := Prod.mk.inj ha
    have hm : TokenCursor.advance t.cursor = (.ok (), _) := Prod.ext hr rfl
    exact ⟨_, hm, ⟨rfl, hp.trans (.single hk hm)⟩, fun n n' => ⟨id, Nat.succ.inj⟩⟩
  advance_error {t d c e} h hk ha := by
    obtain ⟨rfl, hp⟩ := h
    obtain ⟨hr, rfl⟩ := Prod.mk.inj ha
    have hm : TokenCursor.advance t.cursor = (.error e, _) := Prod.ext hr rfl
    exact ⟨e, _, hm, rfl, rfl, .failed hp hk hm⟩
  fuel_remaining h := h.1 ▸ rfl
  fuel_zero _ hf _ := by rw [hf]
  inGenerator_eq h := by rw [h.2]
  strict_eq h := .inl (by rw [h.2])
  postfix_eq {p p'} h hx _ := by
    rw [Parser.mayEndStatement, Parser.mayEndStatement, Parser.kind, Parser.kind, Parser.token,
      Parser.token, hx.2, ← h.1]
    rfl

theorem exact_tracing (origin : C) (context : Context) : (tracing origin context).Exact where
  layout_eq := rfl
  lexical_eq := id
  not_excused := id

theorem parsers_traced (p : Parser C) :
    (tracing p.cursor p.context).Parsers (tracing p.cursor p.context).cursor p.traced p :=
  ⟨⟨rfl, .refl⟩, ⟨rfl, rfl⟩, Layout.optionRel_same _⟩

theorem untraced_eq {origin : C} {context : Context} {R : Trace C → C → Prop} {p : Parser (Trace C)}
    {p' : Parser C} (h : (tracing origin context).Parsers R p p') (hR : ∀ t c, R t c → t.cursor = c) :
    p.untraced = p' := by
  have hc := hR _ _ h.cursor
  have ha : p.arrowStart = p'.arrowStart := eq_of_optionRel h.arrowStart fun _ _ => Layout.Offsets.eq
  have hx : p.context = p'.context := h.context.2
  cases p'
  simp_all [Parser.untraced]

/-- Lists with the same trees in front are alike if what is behind is. -/
theorem AlikeItems.append {l : Layout} {es es' : List Expr} (hl : ∀ e : Expr, e.Alike l e)
    (h : AlikeItems l es es') (before : List Expr) : AlikeItems l (before ++ es) (before ++ es') := by
  induction before with
  | nil => exact h
  | cons e before ih => exact ih.cons (hl e)

/-- Every reading keeps parsers in lockstep that see the same positions. -/
theorem goal {C' : Type} [TokenCursor C'] {L : Lockstep C C'} {p : Parser C} {p' : Parser C'}
    (hl : L.layout = .same) (h : L.Parsers L.cursor p p') (n : Nat) (goal : Goal) {m m' : Nat}
    (hf : L.fuel p.cursor p'.cursor m m') :
    L.Ends (Expr.Alike L.layout) p p' ((goal.step n m).run p) ((goal.step n m').run p') := by
  have hi : Inner L (Nested.withLevels n) (Nested.withLevels n) := inner_withLevels (.inl rfl)
  have alike (e : Expr) : e.Alike L.layout e := hl ▸ e.alike_same
  have same (start : Position) : L.layout.start start start := by rw [hl]; rfl
  cases goal with
  | expression => exact sequence h hi
  | items start before =>
    refine (listTail h hi hf).bind fun es es' q q' hes hq => ?_
    rw [Step.run_infoFrom_bind, Step.run_infoFrom_bind]
    obtain ⟨pairs, hp, hfst, hsnd⟩ := hes.append alike before
    rw [hfst, hsnd]
    exact hq.parsers.pure (.sequence (hq.parsers.info (same start) alike_empty) hp)
  | assignment => exact assignment h hi
  | conditional => exact conditional h hi
  | chain => exact chain h hi
  | climb start least left => exact climb h hi hf (same start) (alike left)
  | operand => exact operand h hi
  | postfixed => exact postfixed h hi
  | subscripts => exact subscripts h hi
  | tail start base => exact subscriptTail h hi hf (same start) (alike base)
  | atom => exact atom h hi

end Lockstep

/-- A reading has only moved on where it succeeds, whatever its bound. -/
theorem Goal.reads {p q : Parser C} {n m : Nat} {e : Expr} (goal : Goal)
    (h : (goal.step n m).run p = .ok e q) : ∃ ts, p.Reads ts q := by
  have ends := Lockstep.goal rfl (Lockstep.parsers_traced p) n goal (m := m) rfl
  rw [h] at ends
  generalize (goal.step n m).run p.traced = r at ends
  cases ends with
  | ok _ ho => exact ⟨_, ho.parsers.cursor.2, ho.parsers.context.2.symm.trans ho.parsers.context.1⟩
  | excused he => exact he.elim

namespace Parser

/-- Noted down or not, a call does the same; its moves lead from where the cursor stands to where the
call leaves it. -/
theorem call_traced (p : Parser C) (c : Call) :
    (p.traced.call c).1 = (p.call c).1 ∧ (p.traced.call c).2.untraced = (p.call c).2 ∧
      TokenCursor.Moved p.cursor (p.moves c) (p.call c).2.cursor := by
  obtain ⟨heq, hleft⟩ := (Lockstep.exact_tracing p.cursor p.context).call (Lockstep.parsers_traced p) c
  obtain ⟨-, hs⟩ | ⟨-, hq⟩ := hleft
  · exact ⟨heq, Lockstep.untraced_eq hs fun _ _ h => h.1, hs.cursor.2⟩
  · exact ⟨heq, Lockstep.untraced_eq hq fun _ _ h => h.1, .passed hq.cursor.2⟩

end Parser

end ArithLang
