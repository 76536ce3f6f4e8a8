import ArithLang.Proofs.Expr.Spelling

/-!
Trees with nothing said about where and how their nodes were written, but for which of them stand in
parentheses. All that a grammatical tree is judged by is there.
-/

namespace ArithLang

def Info.plain (i : Info) : Info := { extra := { parenthesized := i.extra.parenthesized } }

theorem Info.plain_of_bare {i : Info} (h : i.Bare) : i.plain = {} := by
  rw [plain, h]

namespace Expr

mutual

@[simp] def plain : Expr → Expr
  | number v i => number v i.plain
  | identifier name i => identifier name i.plain
  | member o p c i => member o.plain p.plain c i.plain
  | sequence es i => sequence (plainList es) i.plain
  | assignment op l r i => assignment op l.plain r.plain i.plain
  | conditional t c a i => conditional t.plain c.plain a.plain i.plain
  | logical op l r i => logical op l.plain r.plain i.plain
  | binary op l r i => binary op l.plain r.plain i.plain
  | unary op p a i => unary op p a.plain i.plain
  | update op p a i => update op p a.plain i.plain

def plainList : List Expr → List Expr
  | [] => []
  | e :: es => e.plain :: plainList es

end

@[simp] theorem plainList_eq_map (es : List Expr) : plainList es = es.map plain := by
  induction es with
  | nil => rfl
  | cons e es ih => rw [plainList, ih, List.map_cons]

theorem plain_withInfo (i : Info) (e : Expr) :
    (e.withInfo i).plain = e.plain.withInfo i.plain := by
  cases e <;> rfl

@[simp] theorem isParenthesized_plain (e : Expr) : e.plain.isParenthesized = e.isParenthesized := by
  cases e <;> rfl

@[simp] theorem isAssignable_plain (e : Expr) : e.plain.isAssignable = e.isAssignable := by
  cases e <;> rfl

@[simp] theorem isIdentifier_plain (e : Expr) : e.plain.isIdentifier = e.isIdentifier := by
  cases e <;> rfl

@[simp] theorem children_plain (e : Expr) : e.plain.children = e.children.map plain := by
  cases e <;> simp

@[simp] theorem opensWithParen_plain (e : Expr) : e.plain.opensWithParen = e.opensWithParen := by
  fun_induction opensWithParen e <;> simp_all [opensWithParen, Info.plain]

@[simp] theorem argumentNote?_plain (e : Expr) : e.plain.argumentNote? = e.argumentNote? := by
  cases e with
  | update _ isPrefix => cases isPrefix <;> simp [argumentNote?]
  | _ => simp [argumentNote?]

@[simp] theorem valueNote?_plain (e : Expr) : e.plain.valueNote? = e.valueNote? := by
  cases e <;> rfl

/-- A tree is told by its shape, its children and what its root says of itself. -/
theorem eq_of_plain {e e' : Expr} (h : e.plain = e'.plain) (hc : e.children = e'.children)
    (hi : e.info = e'.info) : e = e' := by
  cases e <;> cases e' <;> simp_all [info]

end Expr

end ArithLang
