import ArithLang.Proofs.Lexeme.Longest
import ArithLang.Proofs.Scanner.Positions

/-!
What tokens carry. The kind of a token tells the sort of its value; a token that can act as an
operator carries the text of one; and that text, where it is no name, is what the token covers.
-/

namespace ArithLang

namespace Kind

/-- The operators between two operands that make a logical node. -/
def isLogical (kind : Kind) : Bool := kind == .logicalOr || kind == .logicalAnd

/-- The operators between two operands that make a binary node. -/
def isBinary (kind : Kind) : Bool := (Grammar.chainStrength? kind).isSome && !kind.isLogical

/-- The operators before an operand that do not assign to it. -/
def isPlainPrefix (kind : Kind) : Bool := kind.startsUnary && kind != .incDec

end Kind

namespace Lexeme

/-- The value is of the sort that the kind calls for. -/
inductive Fits : Lexeme → Prop
  | number : Fits (.num, .number v)
  | text : Symbol.carriesText k = true → Fits (k, .text s)
  | mark : k ≠ .num → Symbol.carriesText k = false → Fits (k, .none)

/-- The value names an operator in every family that the kind has a part in. -/
structure Acts (l : Lexeme) : Prop where
  logical : l.1.isLogical = true → (l.2.text?.bind LogicalOp.ofText?).isSome = true
  binary : l.1.isBinary = true → (l.2.text?.bind BinaryOp.ofText?).isSome = true
  assignment : l.1.isAssignment = true → (l.2.text?.bind AssignOp.ofText?).isSome = true
  update : l.1.isPostfix = true → (l.2.text?.bind UpdateOp.ofText?).isSome = true
  unary : l.1.isPlainPrefix = true → (l.2.text?.bind UnaryOp.ofText?).isSome = true

variable {l : Lexeme}

theorem Genuine.fits (h : l.Genuine) : l.Fits := by
  cases h with
  | eof => exact .mark (by decide) rfl
  | number => exact .number
  | name => exact .text rfl
  | keyword hk =>
    have : ∀ k ∈ Kind.words, Symbol.carriesText k = true := by decide
    exact .text (this _ (Kind.keyword?_mem hk).1)
  | @symbol symbol hs =>
    unfold Symbol.value
    split
    · next hc => exact .text hc
    · next hc =>
      have : ∀ symbol ∈ Symbol.all, symbol.kind ≠ .num := by decide
      exact .mark (this _ hs) (eq_false_of_ne_true hc)

/-- A family of operators with the kinds that have a part in it. -/
theorem Genuine.operator {α : Type} {ofText? : String → Option α} (h : l.Genuine)
    (role : Kind → Bool)
    (hother : (role .eof || role .num || role .name) = false)
    (hwords : ∀ k ∈ Kind.words, role k = true → (ofText? k.label).isSome = true)
    (hsymbols : ∀ symbol ∈ Symbol.all, role symbol.kind = true →
      (symbol.value.text?.bind ofText?).isSome = true)
    (hr : role l.1 = true) : (l.2.text?.bind ofText?).isSome = true := by
  simp only [Bool.or_eq_false_iff] at hother
  obtain ⟨⟨heof, hnum⟩, hname⟩ := hother
  cases h with
  | eof => cases heof.symm.trans hr
  | number => cases hnum.symm.trans hr
  | name => cases hname.symm.trans hr
  | keyword hk =>
    obtain ⟨hm, rfl⟩ := Kind.keyword?_mem hk
    exact hwords _ hm hr
  | symbol hs => exact hsymbols _ hs hr

theorem Genuine.acts (h : l.Genuine) : l.Acts where
  logical := h.operator Kind.isLogical (by decide) (by decide) (by decide)
  binary := h.operator Kind.isBinary (by decide) (by decide) (by decide)
  assignment := h.operator Kind.isAssignment (by decide) (by decide) (by decide)
  update := h.operator Kind.isPostfix (by decide) (by decide) (by decide)
  unary := h.operator Kind.isPlainPrefix (by decide) (by decide) (by decide)

end Lexeme

variable {functionBind : Bool} {text word : List Char} {k : Kind} {s : String}

/-- A word without escapes is spelled by its characters. -/
theorem IsSpelled.eq_of_plain {first : Bool} (h : IsSpelled first text word false) : text = word := by
  generalize he : false = escaped at h
  induction h with
  | nil => rfl
  | plain _ _ ih => rw [ih he]
  | escape => cases he

theorem wordKind_ne_name {word : String} {escaped : Bool} (h : wordKind word escaped ≠ .name) :
    escaped = false := by
  cases escaped with
  | false => rfl
  | true => exact absurd rfl h

/-- What a lexeme that is no name carries as text is what it is written as. -/
theorem IsLexeme.text_eq (h : IsLexeme functionBind text (k, .text s)) (hk : k ≠ .name) :
    text = s.toList := by
  generalize hl : (k, Value.text s) = l at h
  cases h with
  | word hw =>
    cases hl
    rw [wordKind_ne_name hk] at hw
    rw [hw.eq_of_plain, String.toList_ofList]
  | number => cases hl
  | symbol =>
    obtain ⟨-, hv⟩ := Prod.mk.inj hl
    unfold Symbol.value at hv
    split at hv
    · cases hv
      rfl
    · cases hv

theorem IsSpelled.word_ne_nil {escaped : Bool} (h : IsSpelled true text word escaped) : word ≠ [] := by
  cases h <;> exact List.cons_ne_nil _ _

theorem IsLexeme.name_ne_empty (h : IsLexeme functionBind text (.name, .text s)) : s ≠ "" := by
  generalize hl : (Kind.name, Value.text s) = l at h
  cases h with
  | word hw =>
    cases (Prod.mk.inj hl).2
    exact fun he => hw.word_ne_nil (String.ofList_eq_empty_iff.1 he)
  | number => cases hl
  | symbol hm =>
    have : ∀ symbol ∈ Symbol.all, symbol.kind ≠ .name := by decide
    exact absurd (Prod.mk.inj hl).1.symm (this _ hm)

/-- What the kind of a token promises of its value and of the text that it covers. -/
structure Token.Carries (t : Token) (input : List Char) : Prop where
  fits : t.lexeme.Fits
  acts : t.lexeme.Acts
  covers : t.kind ≠ .eof →
    ∃ text, Text.slice? input t.start.offset t.stop.offset = some text ∧ text ≠ []
  written : t.kind ≠ .name → ∀ s, t.value = .text s →
    Text.slice? input t.start.offset t.stop.offset = some s.toList
  named : t.kind = .name → t.value ≠ .text ""

theorem ScanState.Finds.carries {s s' : ScanState} {input : List Char} {options : Options} {t : Token}
    (h : s.Finds options t s') (hl : s.Located input) : t.Carries input := by
  have hslice := h.slice?_eq hl
  have hlexeme := isLexeme_of_read h.outcome_eq
  refine ⟨h.genuine.fits, h.genuine.acts, fun hk => ⟨_, hslice, ?_⟩, fun hk s hv => ?_, fun hk hv => ?_⟩
  · exact readLexeme_taken_ne_nil h.outcome_eq hk
  · obtain ⟨-, he⟩ | hx := hlexeme
    · cases hv.symm.trans (Prod.mk.inj he).2
    · rw [Token.lexeme, hv] at hx
      rw [hslice, ← hx.text_eq hk]
      rfl
  · obtain ⟨-, he⟩ | hx := hlexeme
    · cases hk.symm.trans (Prod.mk.inj he).1
    · rw [Token.lexeme, hk, hv] at hx
      exact hx.name_ne_empty rfl

end ArithLang
