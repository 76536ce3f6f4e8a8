import ArithLang.Proofs.Expr.Plain
import ArithLang.Proofs.Parser.Rules

/-! Trees that were built from the spelling of another. -/

namespace ArithLang

/-- A tree that was built anew from the spelling of another. -/
structure Expr.Rebuilds (e e' : Expr) : Prop where
  plain_eq : e'.plain = e.plain
  power_base : e.isPlainBase = true → e'.isPowerBase = true

namespace Expr.Rebuilds

variable {i j : Info} {e e' l l' r r' o o' t t' c c' a a' : Expr}

theorem plain_info (hi : i.Bare) (hj : j.Bare) : j.plain = i.plain := by
  rw [Info.plain_of_bare hi, Info.plain_of_bare hj]

theorem number {v : Number} (hi : i.Bare) (hj : j.Bare) :
    Rebuilds (.number v i) (.number v j) :=
  ⟨congrArg (Expr.number v) (plain_info hi hj), fun _ => rfl⟩

theorem identifier {name : String} (hi : i.Bare) (hj : j.Bare) :
    Rebuilds (.identifier name i) (.identifier name j) :=
  ⟨congrArg (Expr.identifier name) (plain_info hi hj), fun _ => rfl⟩

theorem member {computed : Bool} (hi : i.Bare) (hj : j.Bare) (ho : Rebuilds o o')
    (hr : Rebuilds r r') : Rebuilds (.member o r computed i) (.member o' r' computed j) where
  plain_eq := by simp [ho.plain_eq, hr.plain_eq, plain_info hi hj]
  power_base _ := rfl

theorem sequence {es es' : List Expr} (hi : i.Bare) (hj : j.Bare)
    (h : es'.map plain = es.map plain) : Rebuilds (.sequence es i) (.sequence es' j) where
  plain_eq := by simp [h, plain_info hi hj]
  power_base _ := rfl

theorem assignment {op : AssignOp} (hi : i.Bare) (hj : j.Bare) (hl : Rebuilds l l')
    (hr : Rebuilds r r') : Rebuilds (.assignment op l r i) (.assignment op l' r' j) where
  plain_eq := by simp [hl.plain_eq, hr.plain_eq, plain_info hi hj]
  power_base _ := rfl

theorem conditional (hi : i.Bare) (hj : j.Bare) (ht : Rebuilds t t') (hc : Rebuilds c c')
    (ha : Rebuilds a a') : Rebuilds (.conditional t c a i) (.conditional t' c' a' j) where
  plain_eq := by simp [ht.plain_eq, hc.plain_eq, ha.plain_eq, plain_info hi hj]
  power_base _ := rfl

theorem logical {op : LogicalOp} (hi : i.Bare) (hj : j.Bare) (hl : Rebuilds l l')
    (hr : Rebuilds r r') : Rebuilds (.logical op l r i) (.logical op l' r' j) where
  plain_eq := by simp [hl.plain_eq, hr.plain_eq, plain_info hi hj]
  power_base _ := rfl

theorem binary {op : BinaryOp} (hi : i.Bare) (hj : j.Bare) (hl : Rebuilds l l')
    (hr : Rebuilds r r') : Rebuilds (.binary op l r i) (.binary op l' r' j) where
  plain_eq := by simp [hl.plain_eq, hr.plain_eq, plain_info hi hj]
  power_base _ := rfl

theorem update {op : UpdateOp} {isPrefix : Bool} (hi : i.Bare) (hj : j.Bare)
    (ha : Rebuilds a a') : Rebuilds (.update op isPrefix a i) (.update op isPrefix a' j) where
  plain_eq := by simp [ha.plain_eq, plain_info hi hj]
  power_base _ := rfl

theorem isParenthesized_eq (h : Rebuilds e e') : e'.isParenthesized = e.isParenthesized := by
  rw [← isParenthesized_plain, h.plain_eq, isParenthesized_plain]

theorem isAssignable_eq (h : Rebuilds e e') : e'.isAssignable = e.isAssignable := by
  rw [← isAssignable_plain, h.plain_eq, isAssignable_plain]

theorem isIdentifier_eq (h : Rebuilds e e') : e'.isIdentifier = e.isIdentifier := by
  rw [← isIdentifier_plain, h.plain_eq, isIdentifier_plain]

theorem unary {op : UnaryOp} {isPrefix : Bool} {k : Kind} (hi : i.Bare)
    (hj : j.extra = Grammar.argumentExtra k a') (ha : Rebuilds a a')
    (hk : (k == .parenL) = a.opensWithParen) :
    Rebuilds (.unary op isPrefix a i) (.unary op isPrefix a' j) where
  plain_eq := by
    rw [plain, plain, ha.plain_eq, plain_info hi]
    rw [Info.Bare, hj]
    rfl
  power_base hp := by
    rw [isPlainBase, hi, Bool.false_or, Bool.and_comm] at hp
    rw [isPowerBase, hj, Grammar.argumentExtra, hk, ha.isParenthesized_eq, hp]
    rfl

theorem parenthesize {offset : Nat} (hi : i.extra.parenthesized = true) (h : Rebuilds e e') :
    Rebuilds (e.withInfo i) (e'.parenthesize offset) where
  plain_eq := by
    rw [Expr.parenthesize, withExtra, plain_withInfo, plain_withInfo, h.plain_eq, Info.plain,
      Info.plain, hi]
  power_base _ := by
    cases e' with
    | unary => exact Bool.or_true _
    | _ => rfl

end Expr.Rebuilds

end ArithLang
