import ArithLang.Proofs.Parser.Climbing

/-!
Soundness of the rules: what is read is a grammatical tree with the right notes, and the tokens passed
are its spelling.
-/

namespace ArithLang

open LawfulCursor (Valid)
open Lexeme (mark)

/-- The cursor is valid, and names are judged by this. -/
structure Parser.Lawful {C : Type} [TokenCursor C] [LawfulCursor C] (strict : Bool)
    (p : Parser C) : Prop where
  valid : Valid p.cursor
  strict_eq : p.context.strict = strict

namespace Parser.Lawful

variable {C : Type} [TokenCursor C] [LawfulCursor C] {strict : Bool} {p q : Parser C}
  {ts : List Lexeme}

theorem moves (hp : p.Lawful strict) (hm : p.Moves q) : q.Lawful strict :=
  ⟨hm.valid hp.valid, hm.context_eq ▸ hp.strict_eq⟩

theorem reads (hp : p.Lawful strict) (hr : p.ReadsAs ts q) : q.Lawful strict :=
  ⟨hr.valid hp.valid, hr.context_eq ▸ hp.strict_eq⟩

theorem marked (hp : p.Lawful strict) : p.marked.Lawful strict where
  valid := by
    rw [marked_cursor]
    exact hp.valid
  strict_eq := by
    rw [marked_context]
    exact hp.strict_eq

end Parser.Lawful

namespace Goal

/-- What a reading by a goal makes of the tokens it passes. -/
def Yields {C : Type} [TokenCursor C] (strict : Bool) (n : Nat) (goal : Goal) (p : Parser C)
    (ts : List Lexeme) (e : Expr) (q : Parser C) : Prop :=
  match goal with
  | .expression => ∃ k, n = k + 1 ∧ Written strict k k e ts
  | .items _ before => ∀ k, n = k + 1 → ∃ (parts : List (Expr × List Lexeme)) (i : Info),
    (∀ part ∈ parts, part.1.standsInList = true ∧ Written strict k k part.1 part.2) ∧
    ts = parts.flatMap (fun part => mark .comma :: part.2) ∧
    e = .sequence (before ++ parts.map Prod.fst) i ∧ i.extra = {} ∧ (p.kind = .comma → parts ≠ [])
  | .assignment | .conditional => e.standsInList = true ∧ Written strict n n e ts
  | .chain => e.standsInChain = true ∧ Written strict n n e ts
  | .climb _ least left => ∀ m us, p.Climbing least left → Written strict m n left us →
    q.Climbing least e ∧ q.Stopped least ∧ Written strict m n e (us ++ ts)
  | .operand | .postfixed => e.standsUnderPrefix = true ∧ ∀ k, Written strict n k e ts
  | .subscripts | .atom => e.standsUnderSubscript = true ∧ ∀ k, Written strict n k e ts
  | .tail _ base => ∀ us, base.standsUnderSubscript = true → (∀ k, Written strict n k base us) →
    e.standsUnderSubscript = true ∧ ∀ k, Written strict n k e (us ++ ts)

variable {C : Type} [TokenCursor C] [LawfulCursor C]

/-- A reading that is sound. -/
def Sound (strict : Bool) (n : Nat) (goal : Goal) (p : Parser C) (e : Expr) (q : Parser C) : Prop :=
  p.Lawful strict → ∃ ts, p.ReadsAs ts q ∧ goal.Yields strict n p ts e q

end Goal

open ArithLang.Parser (kind_ne lexeme_ext ReadsAs)

theorem Written.head_eq {strict : Bool} {C : Type} [TokenCursor C] {p q : Parser C} {e : Expr}
    {m n : Nat} {ts : List Lexeme} (hw : Written strict m n e ts) (hr : p.ReadsAs ts q) :
    (p.kind == .parenL) = e.opensWithParen := by
  obtain ⟨t, us, rfl, ht, -⟩ := hw.spells.exists_head
  rw [← ht, ← hr.lexeme_eq]
  rfl

variable {C : Type} [TokenCursor C] [LawfulCursor C] {p p₁ p₂ p₃ p₄ q : Parser C}

/-! One rule after the other. -/

namespace Goal.Sound

variable {strict : Bool} {m n least strength : Nat} {start : Position}
  {e base first left right : Expr} {node : Expr → Expr → Info → Expr}

theorem number {v : Number} (hk : p.kind = .num) (hv : p.token.value = .number v)
    (hm : p.Moves q) : Sound strict n .atom p
      (.number v (q.infoFrom p.token.start { raw := some p.raw, rawValue := some v })) q := by
  intro _
  refine ⟨_, hm.readsAs (kind_ne (f := id) hk nofun) (lexeme_ext hk hv), rfl, fun k => ?_⟩
  exact .number rfl rfl rfl

theorem identifier (hk : p.kind = .name) (hm : p.Moves q) : Sound strict n .atom p
    (.identifier (p.token.value.text?.getD "") (q.infoFrom p.token.start {})) q := by
  intro hp
  obtain ⟨name, hn⟩ :=
    Lexeme.Genuine.text_of_name (lexeme_ext hk rfl ▸ LawfulCursor.genuine hp.valid)
  refine ⟨_, hm.readsAs (kind_ne (f := id) hk nofun) (lexeme_ext hk hn), rfl, fun k => ?_⟩
  rw [hn]
  exact .identifier rfl

/-- An expression between a bracket that opens and one that closes. -/
theorem between {k k' : Kind} (hp : p.Lawful strict) (opened : p.ReadsAs [mark k] p₁)
    (h : Sound strict n .expression p₁ e p₂)
    (closed : Valid p₂.cursor → p₂.ReadsAs [mark k'] q) :
    ∃ b ts, n = b + 1 ∧ p.ReadsAs (mark k :: ts ++ [mark k']) q ∧ Written strict b b e ts := by
  have hp₁ := hp.reads opened
  obtain ⟨ts, hr, b, rfl, hw⟩ := h hp₁
  exact ⟨b, ts, rfl, (opened.trans hr).trans (closed (hp₁.reads hr).valid), hw⟩

theorem parenthesized (hk : p.kind = .parenL) (hm : p.Moves p₁)
    (h : Sound strict n .expression p₁ e p₂) (hk' : p₂.kind = .parenR) (hm' : p₂.Moves q) :
    Sound strict n .atom p (e.parenthesize p.token.start.offset) q := by
  intro hp
  obtain ⟨b, ts, rfl, hr, hw⟩ := between hp (hm.readsAs_mark hp.valid hk rfl nofun nofun) h
    fun hv => hm'.readsAs_mark hv hk' rfl nofun nofun
  exact ⟨_, hr, Expr.standsUnderSubscript_parenthesize _ _, fun _ => hw.parenthesize⟩

theorem tailEnd : Sound strict n (.tail start base) p base p := by
  intro _
  refine ⟨[], .refl _, fun us hb hw => ⟨hb, fun k => ?_⟩⟩
  rw [List.append_nil]
  exact hw k

theorem tailMore (hk : p.kind = .bracketL) (hm : p.Moves p₁)
    (h : Sound strict n .expression p₁ right p₂) (hk' : p₂.kind = .bracketR) (hm' : p₂.Moves p₃)
    (h' : Sound strict n (.tail start (.member base right true (p₃.infoFrom start {}))) p₃ e q) :
    Sound strict n (.tail start base) p e q := by
  intro hp
  obtain ⟨b, ts, rfl, hr, hw⟩ := between hp (hm.readsAs_mark hp.valid hk rfl nofun nofun) h
    fun hv => hm'.readsAs_mark hv hk' rfl nofun nofun
  obtain ⟨us, hr', ht⟩ := h' (hp.reads hr)
  refine ⟨_, hr.trans hr', fun vs hb hbw => ?_⟩
  simpa using ht _ rfl fun k => (hbw k).member rfl hb hw

theorem subscripts (h : Sound strict n .atom p base p₁)
    (h' : Sound strict n (.tail start base) p₁ e q) : Sound strict n .subscripts p e q := by
  intro hp
  obtain ⟨ts, hr, hb, hw⟩ := h hp
  obtain ⟨us, hr', ht⟩ := h' (hp.reads hr)
  exact ⟨_, hr.trans hr', ht _ hb hw⟩

theorem plain (h : Sound strict n .subscripts p e q) : Sound strict n .postfixed p e q := by
  intro hp
  obtain ⟨ts, hr, hb, hw⟩ := h hp
  exact ⟨ts, hr, Expr.standsUnderPrefix_of_subscript hb, hw⟩

theorem postfixUpdate {op : UpdateOp} (h : Sound strict n .subscripts p base p₁)
    (ha : p₁.atPostfix = true) (ht : base.isAssignable = true)
    (hop : p₁.operator? UpdateOp.ofText? = some op) (hm : p₁.Moves q) :
    Sound strict n .postfixed p (.update op false base (q.infoFrom p.token.start {})) q := by
  intro hp
  obtain ⟨ts, hr, hb, hw⟩ := h hp
  have hk := Parser.isPostfix_of_atPostfix ha
  have hl := UpdateOp.lexeme_of_ofText? (LawfulCursor.genuine (hp.reads hr).valid)
    (kind_ne hk nofun) hop
  refine ⟨_, hr.trans (hm.readsAs (kind_ne hk nofun) hl), rfl, fun k => ?_⟩
  exact (hw k).postfixUpdate rfl ht

theorem prefixUpdate {op : UpdateOp} (hk : p.kind = .incDec)
    (hop : p.operator? UpdateOp.ofText? = some op) (hm : p.Moves p₁)
    (h : Sound strict n .operand p₁ base q) (ht : base.isAssignable = true) :
    Sound strict (n + 1) .operand p
      (.update op true base (q.infoFrom p.token.start (Grammar.argumentExtra p₁.kind base))) q := by
  intro hp
  obtain ⟨ts, hr, ha, hw⟩ := h (hp.moves hm)
  have hl := UpdateOp.lexeme_of_ofText? (LawfulCursor.genuine hp.valid)
    (kind_ne (f := id) hk nofun) hop
  refine ⟨_, (hm.readsAs (kind_ne (f := id) hk nofun) hl).trans hr, rfl, fun k => ?_⟩
  exact (hw _).prefixUpdate rfl ((hw 0).head_eq hr) ht

theorem prefixUnary {op : UnaryOp} (hk : p.kind.startsUnary = true)
    (hop : p.operator? UnaryOp.ofText? = some op) (hm : p.Moves p₁)
    (h : Sound strict n .operand p₁ base q)
    (hd : (q.context.strict && op == .delete && base.isIdentifier) = false) :
    Sound strict (n + 1) .operand p
      (.unary op true base (q.infoFrom p.token.start (Grammar.argumentExtra p₁.kind base))) q := by
  intro hp
  have hp₁ := hp.moves hm
  obtain ⟨ts, hr, ha, hw⟩ := h hp₁
  have hl := UnaryOp.lexeme_of_ofText? (LawfulCursor.genuine hp.valid) (kind_ne hk nofun) hop
  rw [(hp₁.reads hr).strict_eq] at hd
  refine ⟨_, (hm.readsAs (kind_ne hk nofun) hl).trans hr, rfl, fun k => ?_⟩
  exact (hw _).unary rfl ((hw 0).head_eq hr) ha hd

theorem climbEnd (hn : p.Stopped least) : Sound strict n (.climb start least left) p left p := by
  intro _
  refine ⟨[], .refl _, fun m us hc hw => ⟨hc, hn, ?_⟩⟩
  rwa [List.append_nil]

/-- The right operand of an operator, with all that binds tighter than `least`. -/
theorem rightOperand (hp : p.Lawful strict) (hk : p.kind ≠ .eof) (hm : p.Moves p₁)
    (h : Sound strict m .operand p₁ first p₂)
    (h' : Sound strict n (.climb start least first) p₂ right q) :
    ∃ ts, p.ReadsAs (p.token.lexeme :: ts) q ∧ q.Climbing least right ∧ q.Stopped least ∧
      Written strict m n right ts := by
  have hp₁ := hp.moves hm
  obtain ⟨ts, hr, hf, hw⟩ := h hp₁
  obtain ⟨us, hr', hc⟩ := h' (hp₁.reads hr)
  exact ⟨_, (hm.readsAs hk rfl).trans (hr.trans hr'), hc _ ts (.of_operand hf) (hw _)⟩

theorem climbLeft (hop : p.OperatorAt least strength left node)
    (hk : p.kind.isRightAssociative = false) (hm : p.Moves p₁)
    (h : Sound strict n .operand p₁ first p₂)
    (h' : Sound strict n (.climb p₁.token.start strength first) p₂ right p₃)
    (h'' : Sound strict n (.climb start least (node left right (p₃.infoFrom start {}))) p₃ e q) :
    Sound strict n (.climb start least left) p e q := by
  intro hp
  obtain ⟨ts, hr, hc, hstop, hw⟩ := rightOperand hp (kind_ne hop.strength_eq nofun) hm h h'
  obtain ⟨us, hr', hrest⟩ := h'' (hp.reads hr)
  refine ⟨_, hr.trans hr', fun m vs hcl hwl => ?_⟩
  obtain ⟨hc, hw⟩ := hop.extend hp.valid hk hcl hwl hc hstop hw _
  simpa using hrest m _ hc hw

theorem climbRight (hop : p.OperatorAt least strength left node)
    (hk : p.kind.isRightAssociative = true) (hm : p.Moves p₁)
    (h : Sound strict (n + 1) .operand p₁ first p₂)
    (h' : Sound strict n (.climb p₁.token.start (strength - 1) first) p₂ right p₃)
    (h'' : Sound strict (n + 1) (.climb start least (node left right (p₃.infoFrom start {}))) p₃ e q) :
    Sound strict (n + 1) (.climb start least left) p e q := by
  intro hp
  obtain ⟨ts, hr, hc, hstop, hw⟩ := rightOperand hp (kind_ne hop.strength_eq nofun) hm h h'
  obtain ⟨us, hr', hrest⟩ := h'' (hp.reads hr)
  refine ⟨_, hr.trans hr', fun m vs hcl hwl => ?_⟩
  obtain ⟨hc, hw⟩ := hop.extend_power hp.valid hk hcl hwl hc hstop hw _
  simpa using hrest m _ hc hw

theorem chain (h : Sound strict n .operand p first p₁)
    (h' : Sound strict n (.climb start least first) p₁ e q) : Sound strict n .chain p e q := by
  intro hp
  obtain ⟨ts, hr, hf, hw⟩ := h hp
  obtain ⟨us, hr', hrest⟩ := h' (hp.reads hr)
  obtain ⟨hc, -, hw⟩ := hrest _ ts (.of_operand hf) (hw _)
  exact ⟨_, hr.trans hr', hc.chain, hw⟩

theorem unconditional (h : Sound strict n .chain p e q) : Sound strict n .conditional p e q := by
  intro hp
  obtain ⟨ts, hr, hc, hw⟩ := h hp
  exact ⟨ts, hr, Expr.standsInList_of_chain hc, hw⟩

theorem conditional {test consequent alternate : Expr} (h : Sound strict (n + 1) .chain p test p₁)
    (hk : p₁.kind = .question) (hm : p₁.Moves p₂)
    (h' : Sound strict n .assignment p₂ consequent p₃) (hk' : p₃.kind = .colon)
    (hm' : p₃.Moves p₄) (h'' : Sound strict n .assignment p₄ alternate q) :
    Sound strict (n + 1) .conditional p
      (.conditional test consequent alternate (q.infoFrom p.token.start {})) q := by
  intro hp
  obtain ⟨ts, hr, ht, hwt⟩ := h hp
  have hp₁ := hp.reads hr
  have hp₂ := hp₁.moves hm
  obtain ⟨us, hr', hc, hwc⟩ := h' hp₂
  have hp₃ := hp₂.reads hr'
  obtain ⟨vs, hr'', ha, hwa⟩ := h'' (hp₃.moves hm')
  have opened := hm.readsAs_mark hp₁.valid hk rfl nofun nofun
  have closed := hm'.readsAs_mark hp₃.valid hk' rfl nofun nofun
  refine ⟨_, hr.trans (opened.trans (hr'.trans (closed.trans hr''))), rfl, ?_⟩
  simpa using Written.conditional rfl ht hc ha hwt hwc hwa

theorem unassigned (h : Sound strict n .conditional p.marked e q) :
    Sound strict n .assignment p e q := by
  intro hp
  obtain ⟨ts, hr, hw⟩ := h hp.marked
  exact ⟨ts, hr.of_marked, hw⟩

theorem assignment {op : AssignOp} (h : Sound strict (n + 1) .conditional p.marked left p₁)
    (hk : p₁.kind.isAssignment = true) (hop : p₁.operator? AssignOp.ofText? = some op)
    (ht : left.isAssignable = true) (hm : p₁.Moves p₂)
    (h' : Sound strict n .assignment p₂ right q) :
    Sound strict (n + 1) .assignment p
      (.assignment op left right (q.infoFrom p.token.start {})) q := by
  intro hp
  obtain ⟨ts, hr, -, hwl⟩ := h hp.marked
  have hr := hr.of_marked
  have hp₁ := hp.reads hr
  obtain ⟨us, hr', hc, hwr⟩ := h' (hp₁.moves hm)
  have hl := AssignOp.lexeme_of_ofText? (LawfulCursor.genuine hp₁.valid) (kind_ne hk nofun) hop
  refine ⟨_, hr.trans ((hm.readsAs (kind_ne hk nofun) hl).trans hr'), rfl, ?_⟩
  exact hwl.assignment rfl ht hc hwr

theorem single (h : Sound strict n .assignment p e q) : Sound strict (n + 1) .expression p e q := by
  intro hp
  obtain ⟨ts, hr, -, hw⟩ := h hp
  exact ⟨ts, hr, _, rfl, hw⟩

theorem sequence (h : Sound strict n .assignment p first p₁) (hk : p₁.kind = .comma)
    (h' : Sound strict (n + 1) (.items start [first]) p₁ e q) :
    Sound strict (n + 1) .expression p e q := by
  intro hp
  obtain ⟨ts, hr, hl, hw⟩ := h hp
  obtain ⟨us, hr', hy⟩ := h' (hp.reads hr)
  obtain ⟨parts, i, hparts, rfl, rfl, hi, hn⟩ := hy _ rfl
  exact ⟨_, hr.trans hr', _, rfl, hw.sequence hi (hn hk) hl hparts⟩

theorem itemsEnd {items : List Expr} (hk : p.kind ≠ .comma) :
    Sound strict n (.items start items) p (.sequence items (p.infoFrom start {})) p := by
  intro _
  refine ⟨[], .refl _, fun k _ => ⟨[], _, nofun, rfl,
    congrArg (Expr.sequence · _) (List.append_nil _).symm, ?_, fun hk' => absurd hk' hk⟩⟩
  rfl

theorem itemsMore {items : List Expr} (hk : p.kind = .comma) (hm : p.Moves p₁)
    (h : Sound strict n .assignment p₁ first p₂)
    (h' : Sound strict (n + 1) (.items start (items ++ [first])) p₂ e q) :
    Sound strict (n + 1) (.items start items) p e q := by
  intro hp
  have hp₁ := hp.moves hm
  obtain ⟨ts, hr, hl, hw⟩ := h hp₁
  obtain ⟨us, hr', hy⟩ := h' (hp₁.reads hr)
  obtain ⟨parts, i, hparts, rfl, rfl, hi, -⟩ := hy _ rfl
  have opened := hm.readsAs_mark hp.valid hk rfl nofun nofun
  refine ⟨_, opened.trans (hr.trans hr'), fun k hk' => ?_⟩
  cases hk'
  refine ⟨(first, ts) :: parts, i, List.forall_mem_cons.2 ⟨⟨hl, hw⟩, hparts⟩, rfl, ?_, hi, nofun⟩
  rw [List.append_assoc]
  rfl

end Goal.Sound

/-- Whatever is read is sound. -/
theorem Parses.sound {goal : Goal} {strict : Bool} {n : Nat} {e : Expr}
    (h : Parses n goal p e q) : goal.Sound strict n p e q := by
  induction h with
  | number hk hv hm => exact .number hk hv hm
  | identifier hk hm => exact .identifier hk hm
  | parenthesized hk hm _ hk' hm' ih => exact .parenthesized hk hm ih hk' hm'
  | tailEnd => exact .tailEnd
  | tailMore hk hm _ hk' hm' _ ih ih' => exact .tailMore hk hm ih hk' hm' ih'
  | subscripts _ _ _ ih ih' => exact .subscripts ih ih'
  | plain _ _ ih => exact .plain ih
  | postfixUpdate _ ha ht hop hm _ ih => exact .postfixUpdate ih ha ht hop hm
  | operand _ _ ih => exact ih
  | prefixUpdate hk hop hm _ ht ih => exact .prefixUpdate hk hop hm ih ht
  | prefixUnary hk _ hop hm _ hd ih => exact .prefixUnary hk hop hm ih hd
  | climbEnd hn => exact .climbEnd hn
  | climbLeft hop hk hm _ _ _ ih ih' ih'' => exact .climbLeft hop hk hm ih ih' ih''
  | climbRight hop hk hm _ _ _ ih ih' ih'' => exact .climbRight hop hk hm ih ih' ih''
  | chain _ _ ih ih' => exact .chain ih ih'
  | unconditional _ _ ih => exact .unconditional ih
  | conditional _ hk hm _ hk' hm' _ ih ih' ih'' =>
    exact .conditional ih hk hm ih' hk' hm' ih''
  | unassigned _ _ _ ih => exact .unassigned ih
  | assignment _ _ hk hop ht hm _ ih ih' => exact .assignment ih hk hop ht hm ih'
  | single _ _ ih => exact .single ih
  | sequence _ hk _ ih ih' => exact .sequence ih hk ih'
  | itemsEnd hk => exact .itemsEnd hk
  | itemsMore hk hm _ _ ih ih' => exact .itemsMore hk hm ih ih'

end ArithLang
