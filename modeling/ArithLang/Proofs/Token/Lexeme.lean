import ArithLang.Lexeme.Symbol
import ArithLang.Operator
import ArithLang.Proofs.Expr.Grammatical

/-!
What a token says, wherever it stands: its kind and its value. In a genuine token the one fits the
other, so that the text of an operator alone tells its kind.
-/

namespace ArithLang

abbrev Lexeme := Kind × Value

def Token.lexeme (token : Token) : Lexeme := (token.kind, token.value)

namespace Lexeme

def mark (kind : Kind) : Lexeme := (kind, .none)

inductive Genuine : Lexeme → Prop
  | eof : Genuine (.eof, .none)
  | number : Genuine (.num, .number v)
  | name : Genuine (.name, .text s)
  | keyword : Kind.keyword? s = some k → Genuine (k, .text s)
  | symbol : symbol ∈ Symbol.all → Genuine (symbol.kind, symbol.value)

end Lexeme

namespace LogicalOp

def lexeme (op : LogicalOp) : Lexeme := (op.kind, .text op.text)

end LogicalOp

namespace BinaryOp

def lexeme (op : BinaryOp) : Lexeme := (op.kind, .text op.text)

end BinaryOp

namespace AssignOp

def kind : AssignOp → Kind
  | assign => .eq
  | _ => .assign

def lexeme (op : AssignOp) : Lexeme := (op.kind, .text op.text)

end AssignOp

namespace UnaryOp

def kind : UnaryOp → Kind
  | minus | plus => .plusMin
  | not | bitNot => .prefixOp
  | typeof => .typeofWord
  | void => .voidWord
  | delete => .deleteWord

def lexeme (op : UnaryOp) : Lexeme := (op.kind, .text op.text)

theorem kind_beq_parenL (op : UnaryOp) : (op.kind == .parenL) = false := by
  cases op <;> rfl

theorem kind_ne_yieldWord (op : UnaryOp) : op.kind ≠ .yieldWord := by
  cases op <;> exact nofun

end UnaryOp

namespace UpdateOp

def lexeme (op : UpdateOp) : Lexeme := (.incDec, .text op.text)

end UpdateOp

namespace Kind

/-- The kinds of words that are no names. -/
def words : List Kind := [inWord, yieldWord, deleteWord, typeofWord, voidWord]

theorem keyword?_mem {s : String} {k : Kind} (h : keyword? s = some k) :
    k ∈ words ∧ k.label = s := by
  unfold keyword? at h
  have hs := List.find?_some h
  exact ⟨List.mem_of_find?_eq_some h, eq_of_beq hs⟩

end Kind

namespace Lexeme

variable {k : Kind} {v : Value} {s : String}

theorem Genuine.text_of_name (h : Genuine (.name, v)) : ∃ s, v = .text s := by
  generalize hl : (Kind.name, v) = l at h
  cases h with
  | eof | number => cases hl
  | name => exact ⟨_, (Prod.mk.inj hl).2⟩
  | keyword hk => exact ⟨_, (Prod.mk.inj hl).2⟩
  | symbol hs =>
    have : ∀ symbol ∈ Symbol.all, symbol.kind ≠ .name := by decide
    exact absurd (Prod.mk.inj hl).1.symm (this _ hs)

/-- Brackets and the like carry nothing. -/
theorem Genuine.eq_mark (h : Genuine (k, v)) (hk : Symbol.carriesText k = false) (hn : k ≠ .num) :
    (k, v) = mark k := by
  generalize hl : (k, v) = l at h
  cases h with
  | eof => cases hl; rfl
  | number => cases hl; contradiction
  | name => cases hl; contradiction
  | keyword h =>
    cases hl
    have : ∀ k ∈ Kind.words, Symbol.carriesText k = true := by decide
    rw [this _ (Kind.keyword?_mem h).1] at hk
    cases hk
  | symbol =>
    cases hl
    rw [Symbol.value, if_neg (ne_true_of_eq_false hk)]
    rfl

/-- The kind that a text belongs to, if it is a symbol's or a keyword's. -/
def kindOf? (text : String) : Option Kind :=
  ((Symbol.all.find? (·.text == text)).map (·.kind)).or (Kind.keyword? text)

theorem Genuine.kindOf?_eq (h : Genuine (k, .text s)) (hk : k ≠ .name) : kindOf? s = some k := by
  generalize hl : (k, Value.text s) = l at h
  cases h with
  | eof | number => cases hl
  | name => cases hl; contradiction
  | keyword h =>
    cases hl
    obtain ⟨hm, rfl⟩ := Kind.keyword?_mem h
    have : ∀ k ∈ Kind.words, kindOf? k.label = some k := by decide
    exact this _ hm
  | @symbol symbol hs =>
    have : ∀ symbol ∈ Symbol.all, Symbol.carriesText symbol.kind = true →
      kindOf? symbol.text = some symbol.kind := by decide
    obtain ⟨rfl, hv⟩ := Prod.mk.inj hl
    rw [Symbol.value] at hv
    split at hv
    · next hc =>
      cases hv
      exact this _ hs hc
    · cases hv

/-- A token is told by its text, unless it is a name. -/
theorem Genuine.eq_of_kindOf? {k' : Kind} (h : Genuine (k, v)) (hk : k ≠ .name)
    (hv : v = .text s) (hs : kindOf? s = some k') : (k, v) = (k', .text s) := by
  subst hv
  have : some k' = some k := hs.symm.trans (h.kindOf?_eq hk)
  rw [Option.some.inj this]

theorem eq_text_of_find? {α : Type} {all : List α} {text : α → String} {a : α}
    (h : v.text?.bind (fun s => all.find? (text · == s)) = some a) : v = .text (text a) := by
  cases v with
  | text s =>
    have hs := List.find?_some h
    rw [eq_of_beq hs]
  | none | number => cases h

end Lexeme

open Lexeme (Genuine)

section

variable {k : Kind} {v : Value}

theorem LogicalOp.lexeme_of_ofText? {op : LogicalOp} (h : Genuine (k, v)) (hk : k ≠ .name)
    (hop : v.text?.bind ofText? = some op) : (k, v) = op.lexeme :=
  h.eq_of_kindOf? hk (Lexeme.eq_text_of_find? hop) (by cases op <;> decide)

theorem BinaryOp.lexeme_of_ofText? {op : BinaryOp} (h : Genuine (k, v)) (hk : k ≠ .name)
    (hop : v.text?.bind ofText? = some op) : (k, v) = op.lexeme :=
  h.eq_of_kindOf? hk (Lexeme.eq_text_of_find? hop) (by cases op <;> decide)

theorem AssignOp.lexeme_of_ofText? {op : AssignOp} (h : Genuine (k, v)) (hk : k ≠ .name)
    (hop : v.text?.bind ofText? = some op) : (k, v) = op.lexeme :=
  h.eq_of_kindOf? hk (Lexeme.eq_text_of_find? hop) (by cases op <;> decide)

theorem UnaryOp.lexeme_of_ofText? {op : UnaryOp} (h : Genuine (k, v)) (hk : k ≠ .name)
    (hop : v.text?.bind ofText? = some op) : (k, v) = op.lexeme :=
  h.eq_of_kindOf? hk (Lexeme.eq_text_of_find? hop) (by cases op <;> decide)

theorem UpdateOp.lexeme_of_ofText? {op : UpdateOp} (h : Genuine (k, v)) (hk : k ≠ .name)
    (hop : v.text?.bind ofText? = some op) : (k, v) = op.lexeme :=
  h.eq_of_kindOf? hk (Lexeme.eq_text_of_find? hop) (by cases op <;> decide)

end

end ArithLang
