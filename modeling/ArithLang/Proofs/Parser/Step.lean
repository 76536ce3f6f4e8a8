import ArithLang.Parser.Grammar

/-!
What the small steps do, each said once: when a step succeeds, with which value, and which parser it
leaves. The rest of the theory cites these and does not look into the steps again.
-/

namespace ArithLang

namespace Parser

variable {C : Type} [TokenCursor C]

def token (p : Parser C) : Token := TokenCursor.current p.cursor

abbrev kind (p : Parser C) : Kind := p.token.kind

theorem token_kind (p : Parser C) : p.token.kind = p.kind := rfl

def lastStop (p : Parser C) : Position := TokenCursor.lastStop p.cursor

/-- What a node that ends at the last token knows about itself. -/
def infoFrom (p : Parser C) (start : Position) (extra : Extra) : Info :=
  { span := { start, stop := p.lastStop }, extra }

/-- Whether a statement could end before the current token. -/
def mayEndStatement (p : Parser C) : Bool :=
  p.context.statementTerminators &&
    (p.kind == .eof || p.kind == .braceR || TokenCursor.hasLineBreakBefore p.cursor)

/-- Whether the current token is a postfix operator of the expression before it. -/
def atPostfix (p : Parser C) : Bool := p.kind.isPostfix && !p.mayEndStatement

/-- The text of the current token as an operator of a family. -/
def operator? {α : Type} (p : Parser C) (ofText? : String → Option α) : Option α :=
  p.token.value.text?.bind ofText?

/-- The source text of the current token. -/
def raw (p : Parser C) : String :=
  .ofList ((Text.slice? (TokenCursor.input p.cursor) p.token.start.offset
    p.token.stop.offset).getD [])

/-- The parser after it has noted that an arrow function could start at its token. -/
def marked (p : Parser C) : Parser C :=
  if p.kind == .parenL || p.kind == .name then { p with arrowStart := some p.token.start.offset }
  else p

/-- One move of the cursor. -/
structure Moves (p q : Parser C) : Prop where
  advance_eq : TokenCursor.advance p.cursor = (.ok (), q.cursor)
  context_eq : q.context = p.context
  arrowStart_eq : q.arrowStart = p.arrowStart

theorem Moves.eq {p q : Parser C} (h : p.Moves q) : q = { p with cursor := q.cursor } := by
  obtain ⟨_, hc, ha⟩ := h
  cases q
  simp_all

@[simp] theorem marked_cursor (p : Parser C) : p.marked.cursor = p.cursor := by
  unfold marked; split <;> rfl

@[simp] theorem marked_context (p : Parser C) : p.marked.context = p.context := by
  unfold marked; split <;> rfl

end Parser

namespace Step

variable {C : Type} {α β : Type} {p q r : Parser C}

theorem bind_eq_ok {x : Step C α} {f : α → Step C β} {b : β} :
    (x >>= f).run p = .ok b r ↔ ∃ a q, x.run p = .ok a q ∧ (f a).run q = .ok b r := by
  rw [EStateM.run_bind]
  cases x.run p with
  | ok a q =>
    constructor
    · intro h
      exact ⟨a, q, rfl, h⟩
    · rintro ⟨_, _, h, hf⟩
      cases h
      exact hf
  | error e q => simp

theorem run_bind_of_ok {x : Step C α} {a : α} (h : x.run p = .ok a q) (f : α → Step C β) :
    (x >>= f).run p = (f a).run q := by
  rw [EStateM.run_bind, h]

theorem pure_eq_ok {a b : α} : (pure a : Step C α).run p = .ok b q ↔ a = b ∧ p = q := by
  rw [EStateM.run_pure, EStateM.Result.ok.injEq]

theorem failAt_eq_ok {fault : SyntaxFault} {offset : Nat} {a : α} :
    ¬ (failAt fault offset : Step C α).run p = .ok a q := nofun

theorem run_get_bind (f : Parser C → Step C β) : (get >>= f).run p = (f p).run p := rfl

theorem run_context_bind (f : Context → Step C β) :
    (context >>= f).run p = (f p.context).run p := rfl

theorem run_checkTarget_bind (e : Expr) (place : String) (f : Unit → Step C β) :
    (checkTarget e place >>= f).run p =
      if e.isAssignable then (f ()).run p
      else (failAt (.invalidTarget place) e.span.start.offset : Step C β).run p := by
  rw [EStateM.run_bind, checkTarget]
  cases e.isAssignable <;> rfl

theorem checkTarget_eq_ok {e : Expr} {place : String} {u : Unit} :
    (checkTarget e place : Step C Unit).run p = .ok u q ↔ e.isAssignable = true ∧ p = q := by
  unfold checkTarget
  split
  · next h => simp [h]
  · next h => simpa [h] using failAt_eq_ok

theorem run_checkTarget_of {e : Expr} (h : e.isAssignable = true) (place : String) :
    (checkTarget e place : Step C Unit).run p = .ok () p :=
  checkTarget_eq_ok.2 ⟨h, rfl⟩

variable [TokenCursor C]

theorem failHere_eq_ok {fault : SyntaxFault} {a : α} :
    ¬ (failHere fault : Step C α).run p = .ok a q := nofun

theorem unexpected_eq_ok {expected : String} {a : α} :
    ¬ (unexpected expected : Step C α).run p = .ok a q := nofun

/-! Steps that only look hand what they see to the step after them. -/

theorem run_current_bind (f : Token → Step C β) : (current >>= f).run p = (f p.token).run p := rfl

theorem run_startPosition_bind (f : Position → Step C β) :
    (startPosition >>= f).run p = (f p.token.start).run p := rfl

theorem run_remaining_bind (f : Nat → Step C β) :
    (remaining >>= f).run p = (f (TokenCursor.remaining p.cursor)).run p := rfl

theorem run_looksAt_bind (k : Kind) (f : Bool → Step C β) :
    (looksAt k >>= f).run p = (f (p.kind == k)).run p := rfl

theorem run_infoFrom_bind (start : Position) (extra : Extra) (f : Info → Step C β) :
    (infoFrom start extra >>= f).run p = (f (p.infoFrom start extra)).run p := rfl

theorem run_looksAtPostfix_bind (f : Bool → Step C β) :
    (Grammar.looksAtPostfix >>= f).run p = (f p.atPostfix).run p := by
  apply run_bind_of_ok
  rw [Grammar.looksAtPostfix, run_current_bind]
  change (if p.kind.isPostfix = true then _ else _ : Step C Bool).run p = _
  rw [Parser.atPostfix]
  cases p.kind.isPostfix with
  | true => rfl
  | false => rfl

theorem run_advance : (advance : Step C Unit).run p =
    match TokenCursor.advance p.cursor with
    | (.ok _, cursor) => .ok () { p with cursor }
    | (.error error, cursor) => .error (.lexical error) { p with cursor } := by
  rw [advance, EStateM.run_bind, EStateM.run_get]
  rcases h : TokenCursor.advance p.cursor with ⟨_ | _, _⟩ <;> simp only [h] <;> rfl

theorem advance_eq_ok {u : Unit} : (advance : Step C Unit).run p = .ok u q ↔ p.Moves q := by
  rw [run_advance]
  constructor
  · intro h
    split at h
    · next c hc =>
      obtain ⟨-, rfl⟩ := EStateM.Result.ok.inj h
      exact ⟨hc, rfl, rfl⟩
    · cases h
  · intro h
    simp only [h.advance_eq]
    rw [← h.eq]

theorem run_advance_of (hm : p.Moves q) : (advance : Step C Unit).run p = .ok () q :=
  advance_eq_ok.2 hm

theorem run_eat_bind (k : Kind) (f : Bool → Step C β) :
    (eat k >>= f).run p =
      if p.kind = k then (advance >>= fun _ => f true).run p else (f false).run p := by
  rw [EStateM.run_bind, eat, run_looksAt_bind]
  by_cases hk : p.kind = k
  · rw [if_pos hk, if_pos (beq_iff_eq.2 hk), EStateM.run_bind, EStateM.run_bind]
    cases (advance : Step C Unit).run p <;> rfl
  · rw [if_neg hk, if_neg (by simpa using hk)]
    rfl

theorem run_expect_bind (k : Kind) (f : Unit → Step C β) :
    (expect k >>= f).run p =
      if p.kind = k then (advance >>= f).run p
      else (unexpected s!"'{k.label}'" : Step C β).run p := by
  rw [EStateM.run_bind, expect, run_eat_bind]
  by_cases hk : p.kind = k
  · rw [if_pos hk, if_pos hk, EStateM.run_bind, EStateM.run_bind]
    cases (advance : Step C Unit).run p <;> rfl
  · rw [if_neg hk, if_neg hk]
    rfl

theorem run_operator_bind (ofText? : String → Option α) (f : α → Step C β) :
    (operator ofText? >>= f).run p =
      match p.operator? ofText? with
      | some op => (f op).run p
      | none => (unexpected "operator" : Step C β).run p := by
  rw [EStateM.run_bind, operator, run_current_bind, Parser.operator?]
  cases p.token.value.text?.bind ofText? <;> rfl

theorem run_operator_map_bind {γ : Type} (ofText? : String → Option α) (mk : α → γ)
    (f : γ → Step C β) :
    ((do return mk (← operator ofText?)) >>= f).run p =
      ((p.operator? ofText?).map mk).elim ((unexpected "operator" : Step C β).run p)
        fun a => (f a).run p := by
  rw [EStateM.run_bind, run_operator_bind]
  cases p.operator? ofText? <;> rfl

theorem eat_eq_ok {k : Kind} {b : Bool} :
    (eat k : Step C Bool).run p = .ok b q ↔
      p.kind = k ∧ p.Moves q ∧ b = true ∨ p.kind ≠ k ∧ p = q ∧ b = false := by
  rw [eat, run_looksAt_bind]
  split
  · next hk =>
    rw [bind_eq_ok]
    simp only [advance_eq_ok, pure_eq_ok]
    grind
  · next hk =>
    rw [pure_eq_ok]
    grind

theorem run_eat_of (hm : p.Moves q) : (eat p.kind : Step C Bool).run p = .ok true q :=
  eat_eq_ok.2 (.inl ⟨rfl, hm, rfl⟩)

theorem run_eat_of_ne {k : Kind} (hk : p.kind ≠ k) : (eat k : Step C Bool).run p = .ok false p :=
  eat_eq_ok.2 (.inr ⟨hk, rfl, rfl⟩)

theorem expect_eq_ok {k : Kind} {u : Unit} :
    (expect k : Step C Unit).run p = .ok u q ↔ p.kind = k ∧ p.Moves q := by
  rw [expect, bind_eq_ok]
  simp only [eat_eq_ok]
  constructor
  · rintro ⟨_, _, ⟨hk, hm, rfl⟩ | ⟨-, -, rfl⟩, h⟩
    · obtain ⟨-, rfl⟩ := pure_eq_ok.1 h
      exact ⟨hk, hm⟩
    · exact absurd h unexpected_eq_ok
  · rintro ⟨hk, hm⟩
    exact ⟨true, q, .inl ⟨hk, hm, rfl⟩, pure_eq_ok.2 ⟨rfl, rfl⟩⟩

theorem run_expect_of {k : Kind} (hk : p.kind = k) (hm : p.Moves q) :
    (expect k : Step C Unit).run p = .ok () q :=
  expect_eq_ok.2 ⟨hk, hm⟩

theorem operator_eq_ok {ofText? : String → Option α} {op : α} :
    (operator ofText? : Step C α).run p = .ok op q ↔ p.operator? ofText? = some op ∧ p = q := by
  rw [operator, run_current_bind]
  show _ ↔ p.token.value.text?.bind ofText? = _ ∧ _
  split
  · next h => simp [h]
  · next h => simpa [h] using unexpected_eq_ok

theorem run_markArrowStart : (markArrowStart p.token : Step C Unit).run p = .ok () p.marked := by
  unfold markArrowStart Parser.marked Parser.kind
  split <;> rfl

end Step

end ArithLang
