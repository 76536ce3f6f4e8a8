import ArithLang.Proofs.Expr.Spelling

/-!
What is built and what is read for it: a tree with the right notes, and its spelling.
-/

namespace ArithLang

open Lexeme (mark)

/-- A well made tree and its spelling. -/
structure Written (strict : Bool) (m n : Nat) (e : Expr) (ts : List Lexeme) : Prop where
  spells : Spells m n e ts
  made : e.WellMade strict

theorem Info.bare_of_extra {i : Info} (h : i.extra = {}) : i.Bare := by
  rw [Bare, h]

theorem Expr.noted_of_extra {e : Expr} (h : e.extra = {}) (ha : e.argumentNote? = none)
    (hv : e.valueNote? = none) : e.Noted :=
  ⟨by rw [h, ha], by rw [h, hv]⟩

theorem Expr.noted_of_argument {e a : Expr} {k : Kind} (h : e.extra = Grammar.argumentExtra k a)
    (hk : (k == .parenL) = a.opensWithParen)
    (ha : e.argumentNote? = some (a.opensWithParen && !a.isParenthesized))
    (hv : e.valueNote? = none) : e.Noted where
  argument_eq := by rw [h, ha, Grammar.argumentExtra, hk]
  value_eq := by
    rw [h, hv]
    rfl

namespace Written

variable {strict : Bool} {m n : Nat} {i : Info} {e o l r t c a : Expr} {ts us vs : List Lexeme}

theorem number {v : Number} (hb : i.Bare) (ha : i.extra.parenthesizedArgument = none)
    (hv : i.extra.rawValue = some v) : Written strict m n (.number v i) [(.num, .number v)] where
  spells := .number hb
  made := .node trivial ⟨ha, hv⟩ nofun

theorem identifier {name : String} (hi : i.extra = {}) :
    Written strict m n (.identifier name i) [(.name, .text name)] where
  spells := .identifier (Info.bare_of_extra hi)
  made := .node trivial (Expr.noted_of_extra hi rfl rfl) nofun

theorem member (hi : i.extra = {}) (ho : o.standsUnderSubscript = true)
    (hl : Written strict (m + 1) n o ts) (hr : Written strict m m r us) :
    Written strict (m + 1) n (.member o r true i)
      (ts ++ mark .bracketL :: us ++ [mark .bracketR]) where
  spells := .member (Info.bare_of_extra hi) hl.spells hr.spells
  made := by
    refine .node ⟨rfl, ho⟩ (Expr.noted_of_extra hi rfl rfl) ?_
    simpa using ⟨hl.made, hr.made⟩

theorem sequence {parts : List (Expr × List Lexeme)} (hi : i.extra = {}) (hn : parts ≠ [])
    (hl : l.standsInList = true) (hw : Written strict n n l ts)
    (hp : ∀ part ∈ parts, part.1.standsInList = true ∧ Written strict n n part.1 part.2) :
    Written strict n n (.sequence (l :: parts.map Prod.fst) i)
      (ts ++ parts.flatMap fun part => mark .comma :: part.2) where
  spells := .sequence (Info.bare_of_extra hi) hw.spells fun part hm => (hp part hm).2.spells
  made := by
    have items : ∀ item ∈ l :: parts.map Prod.fst,
        item.standsInList = true ∧ item.WellMade strict := by
      intro item hm
      obtain rfl | hm := List.mem_cons.1 hm
      · exact ⟨hl, hw.made⟩
      · obtain ⟨part, hpart, rfl⟩ := List.mem_map.1 hm
        exact ⟨(hp part hpart).1, (hp part hpart).2.made⟩
    refine .node ⟨?_, fun item hm => (items item hm).1⟩ (Expr.noted_of_extra hi rfl rfl)
      fun item hm => (items item hm).2
    rw [List.length_cons, List.length_map]
    exact Nat.succ_le_succ (List.length_pos_iff.2 hn)

theorem assignment {op : AssignOp} (hi : i.extra = {}) (hl : l.isAssignable = true)
    (hr : r.standsInList = true) (hwl : Written strict (n + 1) (n + 1) l ts)
    (hwr : Written strict n n r us) :
    Written strict (n + 1) (n + 1) (.assignment op l r i) (ts ++ op.lexeme :: us) where
  spells := .assignment (Info.bare_of_extra hi) hwl.spells hwr.spells
  made := by
    refine .node ⟨hl, hr⟩ (Expr.noted_of_extra hi rfl rfl) ?_
    simpa using ⟨hwl.made, hwr.made⟩

theorem conditional (hi : i.extra = {}) (ht : t.standsInChain = true)
    (hc : c.standsInList = true) (ha : a.standsInList = true)
    (hwt : Written strict (n + 1) (n + 1) t ts) (hwc : Written strict n n c us)
    (hwa : Written strict n n a vs) :
    Written strict (n + 1) (n + 1) (.conditional t c a i)
      (ts ++ mark .question :: us ++ mark .colon :: vs) where
  spells := .conditional (Info.bare_of_extra hi) hwt.spells hwc.spells hwa.spells
  made := by
    refine .node ⟨ht, hc, ha⟩ (Expr.noted_of_extra hi rfl rfl) ?_
    simpa using ⟨hwt.made, hwc.made, hwa.made⟩

theorem postfixUpdate {op : UpdateOp} (hi : i.extra = {}) (ha : a.isAssignable = true)
    (hw : Written strict m n a ts) :
    Written strict m n (.update op false a i) (ts ++ [op.lexeme]) where
  spells := .postfixUpdate (Info.bare_of_extra hi) hw.spells
  made := by
    refine .node ha (Expr.noted_of_extra hi rfl rfl) ?_
    simpa using hw.made

theorem prefixUpdate {op : UpdateOp} {k : Kind} (hi : i.extra = Grammar.argumentExtra k a)
    (hk : (k == .parenL) = a.opensWithParen) (ha : a.isAssignable = true)
    (hw : Written strict m m a ts) :
    Written strict (m + 1) n (.update op true a i) (op.lexeme :: ts) where
  spells := .prefixUpdate (by rw [Info.Bare, hi]; rfl) hw.spells
  made := by
    refine .node ha (Expr.noted_of_argument hi hk rfl rfl) ?_
    simpa using hw.made

theorem unary {op : UnaryOp} {k : Kind} (hi : i.extra = Grammar.argumentExtra k a)
    (hk : (k == .parenL) = a.opensWithParen) (ha : a.standsUnderPrefix = true)
    (hd : (strict && op == .delete && a.isIdentifier) = false) (hw : Written strict m m a ts) :
    Written strict (m + 1) n (.unary op true a i) (op.lexeme :: ts) where
  spells := .unary (by rw [Info.Bare, hi]; rfl) hw.spells
  made := by
    refine .node ⟨rfl, ha, hd⟩ (Expr.noted_of_argument hi hk rfl rfl) ?_
    simpa using hw.made

theorem parenthesize {offset : Nat} (hw : Written strict m m e ts) :
    Written strict (m + 1) n (e.parenthesize offset) (mark .parenL :: ts ++ [mark .parenR]) where
  spells := .parenthesized rfl hw.spells
  made := hw.made.withInfo rfl rfl

end Written

end ArithLang
