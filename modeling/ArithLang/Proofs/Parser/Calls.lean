import ArithLang.Proofs.Lockstep.Grammar

/-! Calls of one parser, one after the other, whatever they answer. -/

namespace ArithLang

/-- What a parser can be asked for. -/
inductive Call
  | expression
  | toEnd
  deriving DecidableEq, Repr

variable {C : Type} [TokenCursor C]

def Call.step : Call → Step C Expr
  | .expression => Parser.expression
  | .toEnd => Parser.expressionToEnd

namespace Parser

/-- The parser that a call leaves, also one that fails. -/
def call (p : Parser C) (call : Call) : Except SyntaxError Expr × Parser C := p.run call.step

theorem call_eq_ok {p q : Parser C} {c : Call} {e : Expr} :
    p.call c = (.ok e, q) ↔ c.step.run p = .ok e q := by
  rw [call, run]
  split
  · next h => simp [h]
  · next h => simp [h]

theorem exists_call_of_isOk {p : Parser C} {c : Call} (h : (p.call c).1.isOk = true) :
    ∃ e q, p.call c = (.ok e, q) := by
  rcases hc : p.call c with ⟨_ | e, q⟩
  · rw [hc] at h
    cases h
  · exact ⟨e, q, rfl⟩

/-- To read a whole text is one call to its end. -/
theorem parseExpression_eq_ok {input : List Char} {options : Options} {e : Expr} :
    parseExpression input options = .ok e ↔ ∃ stream q,
      TokenStream.open? input options = .ok stream ∧
        (ofCursor stream options.context).call .toEnd = (.ok e, q) := by
  unfold parseExpression ofText?
  cases ho : TokenStream.open? input options with
  | error => simp
  | ok stream =>
    change ((ofCursor stream options.context).call .toEnd).1 = .ok e ↔ _
    constructor
    · intro he
      exact ⟨stream, _, rfl, Prod.ext he rfl⟩
    · rintro ⟨_, q, hs, hc⟩
      cases hs
      rw [hc]

/-- The parser after some calls. -/
def after (p : Parser C) : List Call → Parser C
  | [] => p
  | c :: calls => (p.call c).2.after calls

end Parser

namespace Lockstep

variable {C C' : Type} [TokenCursor C] [TokenCursor C'] {L : Lockstep C C'}

theorem call {p : Parser C} {p' : Parser C'} (h : L.Parsers L.cursor p p') (c : Call) :
    L.Ends (Expr.Alike L.layout) p p' (c.step.run p) (c.step.run p') := by
  cases c with
  | expression => exact expression h
  | toEnd => exact expressionToEnd h

/-- A parser beside itself, with what every move of its cursor keeps true. -/
def keeping (Inv : C → Prop) (context : Context)
    (keeps : ∀ c r d, Inv c → TokenCursor.advance c = (r, d) → Inv d) : Lockstep C C where
  layout := .same
  cursor c c' := Inv c ∧ c = c'
  stuck c c' := Inv c ∧ c = c'
  lexical e e' := e = e'
  context x y := x = context ∧ y = context
  fuel _ _ n n' := n = n'
  excused _ := False
  kind_eq h := by rw [h.2]
  value_eq h := by rw [h.2]
  start h := by rw [h.2]; rfl
  stop h := by rw [h.2]; rfl
  raw {p p'} h _ := by
    change p.raw = p'.raw
    rw [Parser.raw, Parser.raw, Parser.token, Parser.token, h.2]
  offsets_eq := Layout.Offsets.eq_iff
  advance_ok {c d c'} h _ ha := by
    obtain ⟨h, rfl⟩ := h
    exact ⟨d, ha, ⟨keeps _ _ _ h ha, rfl⟩, fun n n' => ⟨id, Nat.succ.inj⟩⟩
  advance_error {c d c' e} h _ ha := by
    obtain ⟨h, rfl⟩ := h
    exact ⟨e, d, ha, rfl, keeps _ _ _ h ha, rfl⟩
  fuel_remaining h := by rw [h.2]
  fuel_zero _ hf _ := by rw [hf]
  inGenerator_eq h := by rw [h.1, h.2]
  strict_eq h := .inl (by rw [h.1, h.2])
  postfix_eq {p p'} h hx _ := by
    rw [Parser.mayEndStatement, Parser.mayEndStatement, Parser.kind, Parser.kind, Parser.token,
      Parser.token, h.2, hx.1, hx.2]

end Lockstep

namespace Parser

variable {C : Type} [TokenCursor C] {Inv : C → Prop} {p : Parser C}

/-- What every move of the cursor keeps true, calls keep true, whatever comes of them. -/
theorem call_keeps (keeps : ∀ c r d, Inv c → TokenCursor.advance c = (r, d) → Inv d)
    (h : Inv p.cursor) (c : Call) :
    Inv (p.call c).2.cursor ∧ (p.call c).2.context = p.context := by
  have start : (Lockstep.keeping Inv p.context keeps).Parsers
      (Lockstep.keeping Inv p.context keeps).cursor p p :=
    ⟨⟨h, rfl⟩, ⟨rfl, rfl⟩, Layout.optionRel_same _⟩
  have ends := Lockstep.call start c
  rw [call, run]
  generalize c.step.run p = r at ends
  cases ends with
  | ok _ ho | fault _ ho => exact ⟨ho.parsers.cursor.1, ho.parsers.context.1⟩
  | lexical _ hs => exact ⟨hs.cursor.1, hs.context.1⟩
  | excused he => exact he.elim

theorem after_keeps (keeps : ∀ c r d, Inv c → TokenCursor.advance c = (r, d) → Inv d)
    (h : Inv p.cursor) (calls : List Call) :
    Inv (p.after calls).cursor ∧ (p.after calls).context = p.context := by
  induction calls generalizing p with
  | nil => exact ⟨h, rfl⟩
  | cons c calls ih =>
    obtain ⟨hi, hc⟩ := call_keeps keeps h c
    rw [after, ← hc]
    exact ih hi

end Parser

end ArithLang
