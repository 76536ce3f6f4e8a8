import ArithLang.Proofs.Cursor.Passes
import ArithLang.Proofs.Parser.Rules

/-! What a reading by the rules does to the cursor: it passes tokens, none of them `eof`. -/

namespace ArithLang

open LawfulCursor (Valid)
open TokenCursor (Passes ahead)

variable {C : Type} [TokenCursor C] {p q r : Parser C} {e : Expr} {n : Nat}

namespace Parser

/-- The parser `q` is left when these tokens have been read from `p` on. -/
structure Reads (p : Parser C) (ts : List Token) (q : Parser C) : Prop where
  passes : Passes p.cursor ts q.cursor
  context_eq : q.context = p.context

theorem Reads.refl (p : Parser C) : p.Reads [] p := ⟨.refl, rfl⟩

theorem Reads.trans {ts us : List Token} (h : p.Reads ts q) (h' : q.Reads us r) :
    p.Reads (ts ++ us) r :=
  ⟨h.passes.trans h'.passes, h'.context_eq.trans h.context_eq⟩

theorem Moves.reads (h : p.Moves q) (hk : p.kind ≠ .eof) : p.Reads [p.token] q :=
  ⟨.single hk h.advance_eq, h.context_eq⟩

theorem Reads.of_marked {ts : List Token} (h : p.marked.Reads ts q) : p.Reads ts q :=
  ⟨p.marked_cursor ▸ h.passes, h.context_eq.trans p.marked_context⟩

/-- The tokens that have been read, for what they say. -/
def ReadsAs (p : Parser C) (ls : List Lexeme) (q : Parser C) : Prop :=
  ∃ ts, p.Reads ts q ∧ ts.map Token.lexeme = ls

theorem ReadsAs.refl (p : Parser C) : p.ReadsAs [] p := ⟨[], .refl p, rfl⟩

theorem ReadsAs.trans {ls ms : List Lexeme} (h : p.ReadsAs ls q) (h' : q.ReadsAs ms r) :
    p.ReadsAs (ls ++ ms) r := by
  obtain ⟨ts, hr, rfl⟩ := h
  obtain ⟨us, hr', rfl⟩ := h'
  exact ⟨_, hr.trans hr', List.map_append⟩

theorem ReadsAs.context_eq {ls : List Lexeme} (h : p.ReadsAs ls q) : q.context = p.context := by
  obtain ⟨_, hr, _⟩ := h
  exact hr.context_eq

theorem ReadsAs.valid [LawfulCursor C] {ls : List Lexeme} (h : p.ReadsAs ls q)
    (hv : Valid p.cursor) : Valid q.cursor := by
  obtain ⟨_, hr, _⟩ := h
  exact hr.passes.valid hv

theorem ReadsAs.of_marked {ls : List Lexeme} (h : p.marked.ReadsAs ls q) : p.ReadsAs ls q := by
  obtain ⟨ts, hr, hl⟩ := h
  exact ⟨ts, hr.of_marked, hl⟩

/-- The first of the tokens that are read is the current one. -/
theorem ReadsAs.lexeme_eq {l : Lexeme} {ls : List Lexeme} (h : p.ReadsAs (l :: ls) q) :
    p.token.lexeme = l := by
  obtain ⟨ts, hr, hl⟩ := h
  cases ts with
  | nil => cases hl
  | cons t ts =>
    obtain ⟨rfl, -⟩ := List.cons.inj hl
    cases hr.passes
    rfl

theorem Moves.readsAs {l : Lexeme} (h : p.Moves q) (hk : p.kind ≠ .eof)
    (hl : p.token.lexeme = l) : p.ReadsAs [l] q :=
  ⟨_, h.reads hk, congrArg ([·]) hl⟩

/-- Moving past a bracket or the like. -/
theorem Moves.readsAs_mark [LawfulCursor C] {k : Kind} (h : p.Moves q) (hv : Valid p.cursor)
    (hk : p.kind = k) (hc : Symbol.carriesText k = false) (hn : k ≠ .num) (he : k ≠ .eof) :
    p.ReadsAs [.mark k] q := by
  subst hk
  exact h.readsAs he ((LawfulCursor.genuine hv).eq_mark hc hn)

theorem lexeme_ext {k : Kind} {v : Value} (hk : p.kind = k) (hv : p.token.value = v) :
    p.token.lexeme = (k, v) :=
  Prod.ext hk hv

theorem kind_eq_of_lexeme {l : Lexeme} (h : p.token.lexeme = l) : p.kind = l.1 :=
  (Prod.mk.inj h).1

theorem operator?_of_lexeme {α : Type} {k : Kind} {text : String}
    (h : p.token.lexeme = (k, .text text)) (f : String → Option α) : p.operator? f = f text := by
  rw [operator?, (Prod.mk.inj h).2]
  rfl

theorem node?_of_logical {op : LogicalOp} (h : p.token.lexeme = op.lexeme) :
    p.node? = some (.logical op) := by
  have hk : p.kind = op.kind := kind_eq_of_lexeme h
  have hop := operator?_of_lexeme h LogicalOp.ofText?
  rw [op.ofText?_text] at hop
  rw [node?, hk, hop]
  cases op <;> rfl

theorem node?_of_binary {op : BinaryOp} (h : p.token.lexeme = op.lexeme) :
    p.node? = some (.binary op) := by
  have hk : p.kind = op.kind := kind_eq_of_lexeme h
  have hop := operator?_of_lexeme h BinaryOp.ofText?
  rw [op.ofText?_text] at hop
  rw [node?, hk, hop]
  cases op <;> rfl

theorem kind_ne {β : Type} {k : Kind} {f : Kind → β} {b : β} (h : f p.kind = b) (hf : f k ≠ b) :
    p.kind ≠ k := by
  intro hk
  rw [hk] at h
  exact hf h

theorem isPostfix_of_atPostfix (h : p.atPostfix = true) : p.kind.isPostfix = true :=
  (Bool.and_eq_true_iff.1 h).1

end Parser

open ArithLang.Parser (kind_ne isPostfix_of_atPostfix)

/-- What is read lies between the parser before and the parser after. -/
theorem Parses.reads {goal : Goal} (h : Parses n goal p e q) : ∃ ts, p.Reads ts q := by
  induction h with
  | number hk _ hm => exact ⟨_, hm.reads (kind_ne (f := id) hk nofun)⟩
  | identifier hk hm => exact ⟨_, hm.reads (kind_ne (f := id) hk nofun)⟩
  | parenthesized hk hm _ hk' hm' ih =>
    obtain ⟨ts, h⟩ := ih
    have opened := hm.reads (kind_ne (f := id) hk nofun)
    have closed := hm'.reads (kind_ne (f := id) hk' nofun)
    exact ⟨_, opened.trans (h.trans closed)⟩
  | tailEnd | climbEnd | itemsEnd => exact ⟨[], .refl _⟩
  | tailMore hk hm _ hk' hm' _ ih ih' =>
    obtain ⟨ts, h⟩ := ih
    obtain ⟨us, h'⟩ := ih'
    have opened := hm.reads (kind_ne (f := id) hk nofun)
    have closed := hm'.reads (kind_ne (f := id) hk' nofun)
    exact ⟨_, opened.trans (h.trans (closed.trans h'))⟩
  | subscripts _ _ _ ih ih' | chain _ _ ih ih' =>
    obtain ⟨ts, h⟩ := ih
    obtain ⟨us, h'⟩ := ih'
    exact ⟨_, h.trans h'⟩
  | plain _ _ ih | operand _ _ ih | unconditional _ _ ih | single _ _ ih => exact ih
  | postfixUpdate _ ha _ _ hm _ ih =>
    obtain ⟨ts, h⟩ := ih
    exact ⟨_, h.trans (hm.reads (kind_ne (isPostfix_of_atPostfix ha) nofun))⟩
  | prefixUpdate hk _ hm _ _ ih =>
    obtain ⟨ts, h⟩ := ih
    exact ⟨_, (hm.reads (kind_ne (f := id) hk nofun)).trans h⟩
  | prefixUnary hk _ _ hm _ _ ih =>
    obtain ⟨ts, h⟩ := ih
    exact ⟨_, (hm.reads (kind_ne hk nofun)).trans h⟩
  | climbLeft hop _ hm _ _ _ ih ih' ih'' | climbRight hop _ hm _ _ _ ih ih' ih'' =>
    obtain ⟨ts, h⟩ := ih
    obtain ⟨us, h'⟩ := ih'
    obtain ⟨vs, h''⟩ := ih''
    have passed := hm.reads (kind_ne hop.strength_eq nofun)
    exact ⟨_, passed.trans (h.trans (h'.trans h''))⟩
  | conditional _ hk hm _ hk' hm' _ ih ih' ih'' =>
    obtain ⟨ts, h⟩ := ih
    obtain ⟨us, h'⟩ := ih'
    obtain ⟨vs, h''⟩ := ih''
    have opened := hm.reads (kind_ne (f := id) hk nofun)
    have closed := hm'.reads (kind_ne (f := id) hk' nofun)
    exact ⟨_, h.trans (opened.trans (h'.trans (closed.trans h'')))⟩
  | unassigned _ _ _ ih =>
    obtain ⟨ts, h⟩ := ih
    exact ⟨ts, h.of_marked⟩
  | assignment _ _ ha _ _ hm _ ih ih' =>
    obtain ⟨ts, h⟩ := ih
    obtain ⟨us, h'⟩ := ih'
    have passed := hm.reads (kind_ne ha nofun)
    exact ⟨_, h.of_marked.trans (passed.trans h')⟩
  | sequence _ _ _ ih ih' =>
    obtain ⟨ts, h⟩ := ih
    obtain ⟨us, h'⟩ := ih'
    exact ⟨_, h.trans h'⟩
  | itemsMore hk hm _ _ ih ih' =>
    obtain ⟨ts, h⟩ := ih
    obtain ⟨us, h'⟩ := ih'
    exact ⟨_, (hm.reads (kind_ne (f := id) hk nofun)).trans (h.trans h')⟩

theorem Parses.valid [LawfulCursor C] {goal : Goal} (h : Parses n goal p e q)
    (hv : Valid p.cursor) : Valid q.cursor := by
  obtain ⟨_, hr⟩ := h.reads
  exact hr.passes.valid hv

theorem Parses.ahead_le [LawfulCursor C] {goal : Goal} (h : Parses n goal p e q)
    (hv : Valid p.cursor) : ahead q.cursor ≤ ahead p.cursor := by
  obtain ⟨_, hr⟩ := h.reads
  exact hr.passes.ahead_le hv

theorem Parser.Moves.valid [LawfulCursor C] (h : p.Moves q) (hv : Valid p.cursor) :
    Valid q.cursor :=
  LawfulCursor.valid_advance hv h.advance_eq

theorem Parser.Moves.ahead_lt [LawfulCursor C] (h : p.Moves q) (hv : Valid p.cursor)
    (hk : p.kind ≠ .eof) : ahead q.cursor < ahead p.cursor :=
  TokenCursor.ahead_lt hv hk h.advance_eq

end ArithLang
