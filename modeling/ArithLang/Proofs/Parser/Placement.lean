import ArithLang.Proofs.Expr.Sited
import ArithLang.Proofs.Parser.Correctness

/-!
The rules put every node where it stands: what is read for a tree are the tokens of its site, and in them
are the tokens of its parts.
-/

namespace ArithLang

open Lexeme (mark)

namespace Parser

variable {p q : Parser TokenStream} {input : List Char} {start : Position} {ts us : List Token}

/-- These tokens have been read since the parser was at the start. -/
def Since (input : List Char) (start : Position) (us : List Token) (p : Parser TokenStream) : Prop :=
  ∃ p₀ : Parser TokenStream, p₀.cursor.Standing input ∧ p₀.token.start = start ∧ p₀.Reads us p

theorem since_here (h : p.cursor.Standing input) : p.Since input p.token.start [] :=
  ⟨p, h, rfl, .refl p⟩

theorem Since.reads (h : p.Since input start us) (hr : p.Reads ts q) :
    q.Since input start (us ++ ts) := by
  obtain ⟨p₀, hs, hp, hu⟩ := h
  exact ⟨p₀, hs, hp, hu.trans hr⟩

theorem Since.covers {extra : Extra} (h : p.Since input start us) (hn : us ≠ []) :
    (p.infoFrom start extra).span.Covers us := by
  obtain ⟨p₀, hs, rfl, hu⟩ := h
  exact ⟨TokenStream.start_of_passes hu.passes hn, hs.stop_of_passes hu.passes hn⟩

/-- Tokens read from here on. -/
theorem covers {extra : Extra} (h : p.cursor.Standing input) (hr : p.Reads ts q) (hn : ts ≠ []) :
    (q.infoFrom p.token.start extra).span.Covers ts := by
  have := (since_here h).reads hr
  rw [List.nil_append] at this
  exact this.covers hn

theorem Moves.standing (hm : p.Moves q) (h : p.cursor.Standing input) : q.cursor.Standing input :=
  h.advance hm.advance_eq

theorem Reads.standing (hr : p.Reads ts q) (h : p.cursor.Standing input) :
    q.cursor.Standing input :=
  h.passes hr.passes

theorem marked_standing (h : p.cursor.Standing input) : p.marked.cursor.Standing input := by
  rw [marked_cursor]
  exact h

theorem raw_eq (h : p.cursor.Standing input) : p.raw = p.token.source input := by
  rw [raw, Token.source, ← h.input_eq]
  rfl

/-- The token at a bracket or the like. -/
theorem lexeme_mark {k : Kind} (h : p.cursor.Standing input) (hk : p.kind = k)
    (hc : Symbol.carriesText k = false) (hn : k ≠ .num) : p.token.lexeme = mark k := by
  subst hk
  exact h.genuine.eq_mark hc hn

end Parser

/-- What one more operator makes of its operands. -/
theorem Parser.OperatorAt.Family.sited {p : Parser TokenStream} {strength m n m' n' levels : Nat}
    {node : Expr → Expr → Info → Expr} {l r : Expr} {i : Info} {input : List Char}
    {ts us : List Token} (h : OperatorAt.Family p strength node)
    (hs : Spells m n (node l r i) ((ts ++ p.token :: us).map Token.lexeme)) (hi : i.extra = {})
    (hspan : i.span.Covers (ts ++ p.token :: us)) (hl : Sited input levels m n l ts)
    (hr : Sited input levels m' n' r us) :
    Sited input levels m n (node l r i) (ts ++ p.token :: us) := by
  cases h with
  | logical ht | binary ht =>
    exact .infixed ht hs rfl rfl (Expr.fresh_of_extra hi rfl rfl hspan) hl hr

/-- The token at which a tree was read tells whether it begins with a parenthesis. -/
theorem Sited.head_eq {p q : Parser TokenStream} {input : List Char} {levels m n : Nat} {e : Expr}
    {ts : List Token} (h : Sited input levels m n e ts) (hr : p.Reads ts q) :
    (p.kind == .parenL) = e.opensWithParen := by
  obtain ⟨t, us, hls, ht, -⟩ := h.spells.exists_head
  have hp : p.token.lexeme = t := Parser.ReadsAs.lexeme_eq ⟨ts, hr, hls⟩
  rw [← ht, ← hp]
  rfl

namespace Goal

open ArithLang.Parser (Since)

/-- What a reading by a goal makes of the tokens it passes, within so many levels. -/
def Places (input : List Char) (levels n : Nat) (goal : Goal) (p : Parser TokenStream)
    (ts : List Token) (e : Expr) : Prop :=
  match goal with
  | .expression => ∃ k, n = k + 1 ∧ (k ≤ levels → Sited input levels k k e ts)
  | .items start before => ∀ k us, n = k + 1 → p.Since input start us →
    SitedItems input levels k before us → Sited input levels k k e (us ++ ts)
  | .assignment | .conditional | .chain => n ≤ levels → Sited input levels n n e ts
  | .climb start _ left => ∀ m us, p.Since input start us → Sited input levels m n left us →
    Sited input levels m n e (us ++ ts)
  | .operand | .postfixed | .subscripts | .atom =>
    n ≤ levels → ∀ k ≤ levels, Sited input levels n k e ts
  | .tail start base => ∀ us, p.Since input start us → (∀ k ≤ levels, Sited input levels n k base us) →
    ∀ k ≤ levels, Sited input levels n k e (us ++ ts)

/-- A reading that puts every node where it stands. -/
def Placed (input : List Char) (levels n : Nat) (goal : Goal) (p : Parser TokenStream) (e : Expr)
    (q : Parser TokenStream) : Prop :=
  p.cursor.Standing input → ∃ ts, p.Reads ts q ∧ goal.Places input levels n p ts e

end Goal

open ArithLang.Parser (kind_ne lexeme_ext lexeme_mark)

variable {p p₁ p₂ p₃ p₄ q : Parser TokenStream}

/-! One rule after the other. -/

namespace Goal.Placed

variable {input : List Char} {levels m n least strength : Nat} {start : Position}
  {e base first left right : Expr} {node : Expr → Expr → Info → Expr}

theorem number {v : Number} (hk : p.kind = .num) (hv : p.token.value = .number v)
    (hm : p.Moves q) : Placed input levels n .atom p
      (.number v (q.infoFrom p.token.start { raw := some p.raw, rawValue := some v })) q := by
  intro hp
  have hr := hm.reads (kind_ne (f := id) hk nofun)
  refine ⟨_, hr, fun hn k hk' => ?_⟩
  rw [Parser.raw_eq hp]
  exact .number (lexeme_ext hk hv) (Parser.covers hp hr (List.cons_ne_nil _ _)) rfl hn hk'

theorem identifier (hk : p.kind = .name) (hm : p.Moves q) : Placed input levels n .atom p
    (.identifier (p.token.value.text?.getD "") (q.infoFrom p.token.start {})) q := by
  intro hp
  obtain ⟨name, hname⟩ := Lexeme.Genuine.text_of_name (lexeme_ext hk rfl ▸ hp.genuine)
  have hr := hm.reads (kind_ne (f := id) hk nofun)
  refine ⟨_, hr, fun hn k hk' => ?_⟩
  have hname : p.token.value = .text name := hname
  rw [hname]
  exact .identifier (lexeme_ext hk hname) (Parser.covers hp hr (List.cons_ne_nil _ _)) rfl hn hk'

/-- An expression between a bracket that opens and one that closes. -/
theorem between {k k' : Kind} (hp : p.cursor.Standing input) (hk : p.kind = k) (hm : p.Moves p₁)
    (h : Placed input levels n .expression p₁ e p₂) (hk' : p₂.kind = k') (hm' : p₂.Moves q)
    (hb : Symbol.carriesText k = false ∧ k ≠ .num ∧ k ≠ .eof)
    (hb' : Symbol.carriesText k' = false ∧ k' ≠ .num ∧ k' ≠ .eof) :
    ∃ b us, n = b + 1 ∧ p.Reads (p.token :: us ++ [p₂.token]) q ∧ p.token.lexeme = mark k ∧
      p₂.token.lexeme = mark k' ∧ (b ≤ levels → Sited input levels b b e us) := by
  have hp₁ := hm.standing hp
  obtain ⟨us, hr, b, hn, hs⟩ := h hp₁
  have opened := hm.reads (hk ▸ hb.2.2)
  have closed := hm'.reads (hk' ▸ hb'.2.2)
  exact ⟨b, us, hn, opened.trans (hr.trans closed), lexeme_mark hp hk hb.1 hb.2.1,
    lexeme_mark (hr.standing hp₁) hk' hb'.1 hb'.2.1, hs⟩

theorem parenthesized (hk : p.kind = .parenL) (hm : p.Moves p₁)
    (h : Placed input levels n .expression p₁ e p₂) (hk' : p₂.kind = .parenR) (hm' : p₂.Moves q) :
    Placed input levels n .atom p (e.parenthesize p.token.start.offset) q := by
  intro hp
  obtain ⟨b, us, rfl, hr, hl, hl', hs⟩ :=
    between hp hk hm h hk' hm' ⟨rfl, nofun, nofun⟩ ⟨rfl, nofun, nofun⟩
  refine ⟨_, hr, fun hn k hle => ?_⟩
  exact (hs (Nat.le_of_succ_le hn)).parenthesize hl hl' hn hle

theorem tailEnd : Placed input levels n (.tail start base) p base p := by
  intro _
  refine ⟨[], .refl _, fun us _ hb k hk => ?_⟩
  rw [List.append_nil]
  exact hb k hk

theorem tailMore (hk : p.kind = .bracketL) (hm : p.Moves p₁)
    (h : Placed input levels n .expression p₁ right p₂) (hk' : p₂.kind = .bracketR)
    (hm' : p₂.Moves p₃)
    (h' : Placed input levels n (.tail start (.member base right true (p₃.infoFrom start {}))) p₃ e q) :
    Placed input levels n (.tail start base) p e q := by
  intro hp
  obtain ⟨b, us, rfl, hr, hl, hl', hs⟩ :=
    between hp hk hm h hk' hm' ⟨rfl, nofun, nofun⟩ ⟨rfl, nofun, nofun⟩
  obtain ⟨vs, hr', hrest⟩ := h' (hr.standing hp)
  refine ⟨_, hr.trans hr', fun ts hts hbase k hle => ?_⟩
  have hts' := hts.reads hr
  rw [← List.append_assoc]
  refine hrest _ hts' (fun k hle => ?_) k hle
  have hb := hbase k hle
  exact hb.member hl hl' rfl (hts'.covers (by simp)) (hs (Nat.le_of_succ_le hb.left_le))

theorem subscripts (h : Placed input levels n .atom p base p₁)
    (h' : Placed input levels n (.tail p.token.start base) p₁ e q) :
    Placed input levels n .subscripts p e q := by
  intro hp
  obtain ⟨ts, hr, hb⟩ := h hp
  obtain ⟨us, hr', ht⟩ := h' (hr.standing hp)
  refine ⟨_, hr.trans hr', fun hn => ht ts ?_ (hb hn)⟩
  exact (Parser.since_here hp).reads hr

theorem postfixUpdate {op : UpdateOp} (h : Placed input levels n .subscripts p base p₁)
    (ha : p₁.atPostfix = true) (hop : p₁.operator? UpdateOp.ofText? = some op) (hm : p₁.Moves q) :
    Placed input levels n .postfixed p (.update op false base (q.infoFrom p.token.start {})) q := by
  intro hp
  obtain ⟨ts, hr, hb⟩ := h hp
  have hk := Parser.isPostfix_of_atPostfix ha
  have hl := UpdateOp.lexeme_of_ofText? (hr.standing hp).genuine (kind_ne hk nofun) hop
  have hr' := hr.trans (hm.reads (kind_ne hk nofun))
  refine ⟨_, hr', fun hn k hle => ?_⟩
  exact (hb hn k hle).postfixUpdate hl rfl (Parser.covers hp hr' (by simp))

theorem prefixUpdate {op : UpdateOp} (hk : p.kind = .incDec)
    (hop : p.operator? UpdateOp.ofText? = some op) (hm : p.Moves p₁)
    (h : Placed input levels n .operand p₁ base q) : Placed input levels (n + 1) .operand p
      (.update op true base (q.infoFrom p.token.start (Grammar.argumentExtra p₁.kind base))) q := by
  intro hp
  obtain ⟨ts, hr, ha⟩ := h (hm.standing hp)
  have hl := UpdateOp.lexeme_of_ofText? hp.genuine (kind_ne (f := id) hk nofun) hop
  have hr' := (hm.reads (kind_ne (f := id) hk nofun)).trans hr
  refine ⟨_, hr', fun hn k hle => ?_⟩
  have hn' := Nat.le_of_succ_le hn
  have ha := ha hn' n hn'
  exact ha.prefixUpdate hl rfl (ha.head_eq hr) (Parser.covers hp hr' (List.cons_ne_nil _ _)) hn hle

theorem prefixUnary {op : UnaryOp} (hk : p.kind.startsUnary = true)
    (hop : p.operator? UnaryOp.ofText? = some op) (hm : p.Moves p₁)
    (h : Placed input levels n .operand p₁ base q) : Placed input levels (n + 1) .operand p
      (.unary op true base (q.infoFrom p.token.start (Grammar.argumentExtra p₁.kind base))) q := by
  intro hp
  obtain ⟨ts, hr, ha⟩ := h (hm.standing hp)
  have hl := UnaryOp.lexeme_of_ofText? hp.genuine (kind_ne hk nofun) hop
  have hr' := (hm.reads (kind_ne hk nofun)).trans hr
  refine ⟨_, hr', fun hn k hle => ?_⟩
  have hn' := Nat.le_of_succ_le hn
  have ha := ha hn' n hn'
  exact ha.unary hl rfl (ha.head_eq hr) (Parser.covers hp hr' (List.cons_ne_nil _ _)) hn hle

theorem climbEnd : Placed input levels n (.climb start least left) p left p := by
  intro _
  refine ⟨[], .refl _, fun m us _ hs => ?_⟩
  rwa [List.append_nil]

/-- The right operand of an operator. -/
theorem rightOperand (hp : p.cursor.Standing input)
    (h : Placed input levels m .operand p first p₂)
    (h' : Placed input levels n (.climb p.token.start least first) p₂ right q) :
    ∃ ts, p.Reads ts q ∧ (m ≤ levels → n ≤ levels → Sited input levels m n right ts) := by
  obtain ⟨ts, hr, hf⟩ := h hp
  obtain ⟨us, hr', hc⟩ := h' (hr.standing hp)
  refine ⟨_, hr.trans hr', fun hm hn => hc m ts ?_ (hf hm n hn)⟩
  exact (Parser.since_here hp).reads hr

theorem climbLeft (hop : p.OperatorAt least strength left node)
    (hk : p.kind.isRightAssociative = false) (hm : p.Moves p₁)
    (h : Placed input levels n .operand p₁ first p₂)
    (h' : Placed input levels n (.climb p₁.token.start strength first) p₂ right p₃)
    (h'' : Placed input levels n (.climb start least (node left right (p₃.infoFrom start {}))) p₃ e q) :
    Placed input levels n (.climb start least left) p e q := by
  intro hp
  have hp₁ := hm.standing hp
  obtain ⟨ts, hr, hs⟩ := rightOperand hp₁ h h'
  have hr := (hm.reads (kind_ne hop.strength_eq nofun)).trans hr
  obtain ⟨vs, hr', hrest⟩ := h'' (hr.standing hp)
  refine ⟨_, hr.trans hr', fun m us hus hl => ?_⟩
  have hus' := hus.reads hr
  rw [← List.append_assoc]
  refine hrest m _ hus' ?_
  have hs := hs hl.right_le hl.right_le
  have hf := hop.family hp.genuine
  refine hf.sited ?_ rfl (hus'.covers (by simp)) hl hs
  rw [List.map_append]
  exact hf.spells hk (Info.bare_of_extra rfl) hl.spells hs.spells

theorem climbRight (hop : p.OperatorAt least strength left node)
    (hk : p.kind.isRightAssociative = true) (hm : p.Moves p₁)
    (h : Placed input levels (n + 1) .operand p₁ first p₂)
    (h' : Placed input levels n (.climb p₁.token.start (strength - 1) first) p₂ right p₃)
    (h'' : Placed input levels (n + 1)
      (.climb start least (node left right (p₃.infoFrom start {}))) p₃ e q) :
    Placed input levels (n + 1) (.climb start least left) p e q := by
  intro hp
  obtain ⟨ts, hr, hs⟩ := rightOperand (hm.standing hp) h h'
  have hr := (hm.reads (kind_ne hop.strength_eq nofun)).trans hr
  obtain ⟨vs, hr', hrest⟩ := h'' (hr.standing hp)
  refine ⟨_, hr.trans hr', fun m us hus hl => ?_⟩
  have hus' := hus.reads hr
  rw [← List.append_assoc]
  refine hrest m _ hus' ?_
  have hs := hs hl.right_le (Nat.le_of_succ_le hl.right_le)
  have hf := hop.family hp.genuine
  refine hf.sited ?_ rfl (hus'.covers (by simp)) hl hs
  rw [List.map_append]
  exact hf.spells_power hk (Info.bare_of_extra rfl) hl.spells hs.spells

theorem chain (h : Placed input levels n .operand p first p₁)
    (h' : Placed input levels n (.climb p.token.start least first) p₁ e q) :
    Placed input levels n .chain p e q := by
  intro hp
  obtain ⟨ts, hr, hs⟩ := rightOperand hp h h'
  exact ⟨ts, hr, fun hn => hs hn hn⟩

theorem conditional {test consequent alternate : Expr}
    (h : Placed input levels (n + 1) .chain p test p₁) (hk : p₁.kind = .question)
    (hm : p₁.Moves p₂) (h' : Placed input levels n .assignment p₂ consequent p₃)
    (hk' : p₃.kind = .colon) (hm' : p₃.Moves p₄)
    (h'' : Placed input levels n .assignment p₄ alternate q) :
    Placed input levels (n + 1) .conditional p
      (.conditional test consequent alternate (q.infoFrom p.token.start {})) q := by
  intro hp
  obtain ⟨ts, hr, ht⟩ := h hp
  have hp₁ := hr.standing hp
  have hp₂ := hm.standing hp₁
  obtain ⟨us, hr', hc⟩ := h' hp₂
  have hp₃ := hr'.standing hp₂
  obtain ⟨vs, hr'', ha⟩ := h'' (hm'.standing hp₃)
  have opened := hm.reads (kind_ne (f := id) hk nofun)
  have closed := hm'.reads (kind_ne (f := id) hk' nofun)
  have hread := hr.trans (opened.trans (hr'.trans (closed.trans hr'')))
  refine ⟨_, hread, fun hn => ?_⟩
  have hn' := Nat.le_of_succ_le hn
  exact (ht hn).conditional (lexeme_mark hp₁ hk rfl nofun) (lexeme_mark hp₃ hk' rfl nofun) rfl
    (Parser.covers hp hread (by simp)) (hc hn') (ha hn')

theorem unassigned (h : Placed input levels n .conditional p.marked e q) :
    Placed input levels n .assignment p e q := by
  intro hp
  obtain ⟨ts, hr, hs⟩ := h (Parser.marked_standing hp)
  exact ⟨ts, hr.of_marked, hs⟩

theorem assignment {op : AssignOp} (h : Placed input levels (n + 1) .conditional p.marked left p₁)
    (hk : p₁.kind.isAssignment = true) (hop : p₁.operator? AssignOp.ofText? = some op)
    (hm : p₁.Moves p₂) (h' : Placed input levels n .assignment p₂ right q) :
    Placed input levels (n + 1) .assignment p
      (.assignment op left right (q.infoFrom p.token.start {})) q := by
  intro hp
  obtain ⟨ts, hr, hl⟩ := h (Parser.marked_standing hp)
  have hr := hr.of_marked
  have hp₁ := hr.standing hp
  obtain ⟨us, hr', hs⟩ := h' (hm.standing hp₁)
  have hop := AssignOp.lexeme_of_ofText? hp₁.genuine (kind_ne hk nofun) hop
  have hread := hr.trans ((hm.reads (kind_ne hk nofun)).trans hr')
  refine ⟨_, hread, fun hn => ?_⟩
  exact (hl hn).assignment hop rfl (Parser.covers hp hread (by simp)) (hs (Nat.le_of_succ_le hn))

theorem single (h : Placed input levels n .assignment p e q) :
    Placed input levels (n + 1) .expression p e q := by
  intro hp
  obtain ⟨ts, hr, hs⟩ := h hp
  exact ⟨ts, hr, n, rfl, hs⟩

theorem sequence (h : Placed input levels n .assignment p first p₁)
    (h' : Placed input levels (n + 1) (.items p.token.start [first]) p₁ e q) :
    Placed input levels (n + 1) .expression p e q := by
  intro hp
  obtain ⟨ts, hr, hs⟩ := h hp
  obtain ⟨us, hr', hitems⟩ := h' (hr.standing hp)
  refine ⟨_, hr.trans hr', n, rfl, fun hn => ?_⟩
  exact hitems n ts rfl ((Parser.since_here hp).reads hr) (.single (hs hn))

theorem itemsEnd {items : List Expr} :
    Placed input levels n (.items start items) p (.sequence items (p.infoFrom start {})) p := by
  intro _
  refine ⟨[], .refl _, fun k us _ hus hs => ?_⟩
  rw [List.append_nil]
  exact hs.sequence rfl (hus.covers hs.ne_nil)

theorem itemsMore {items : List Expr} (hk : p.kind = .comma) (hm : p.Moves p₁)
    (h : Placed input levels n .assignment p₁ first p₂)
    (h' : Placed input levels (n + 1) (.items start (items ++ [first])) p₂ e q) :
    Placed input levels (n + 1) (.items start items) p e q := by
  intro hp
  obtain ⟨ts, hr, hs⟩ := h (hm.standing hp)
  have hr := (hm.reads (kind_ne (f := id) hk nofun)).trans hr
  obtain ⟨vs, hr', hitems⟩ := h' (hr.standing hp)
  refine ⟨_, hr.trans hr', fun k us hn hus hl => ?_⟩
  cases hn
  rw [← List.append_assoc]
  exact hitems n _ rfl (hus.reads hr)
    (hl.snoc (lexeme_mark hp hk rfl nofun) (hs hl.levels_le))

end Goal.Placed

/-- Whatever is read is placed. -/
theorem Parses.placed {goal : Goal} {input : List Char} {levels n : Nat} {e : Expr}
    (h : Parses n goal p e q) : goal.Placed input levels n p e q := by
  induction h with
  | number hk hv hm => exact .number hk hv hm
  | identifier hk hm => exact .identifier hk hm
  | parenthesized hk hm _ hk' hm' ih => exact .parenthesized hk hm ih hk' hm'
  | tailEnd => exact .tailEnd
  | tailMore hk hm _ hk' hm' _ ih ih' => exact .tailMore hk hm ih hk' hm' ih'
  | subscripts _ _ _ ih ih' => exact .subscripts ih ih'
  | plain _ _ ih => exact ih
  | postfixUpdate _ ha _ hop hm _ ih => exact .postfixUpdate ih ha hop hm
  | operand _ _ ih => exact ih
  | prefixUpdate hk hop hm _ _ ih => exact .prefixUpdate hk hop hm ih
  | prefixUnary hk _ hop hm _ _ ih => exact .prefixUnary hk hop hm ih
  | climbEnd => exact .climbEnd
  | climbLeft hop hk hm _ _ _ ih ih' ih'' => exact .climbLeft hop hk hm ih ih' ih''
  | climbRight hop hk hm _ _ _ ih ih' ih'' => exact .climbRight hop hk hm ih ih' ih''
  | chain _ _ ih ih' => exact .chain ih ih'
  | unconditional _ _ ih => exact ih
  | conditional _ hk hm _ hk' hm' _ ih ih' ih'' =>
    exact .conditional ih hk hm ih' hk' hm' ih''
  | unassigned _ _ _ ih => exact .unassigned ih
  | assignment _ _ hk hop _ hm _ ih ih' => exact .assignment ih hk hop hm ih'
  | single _ _ ih => exact .single ih
  | sequence _ _ _ ih ih' => exact .sequence ih ih'
  | itemsEnd => exact .itemsEnd
  | itemsMore hk hm _ _ ih ih' => exact .itemsMore hk hm ih ih'

namespace Parser

theorem standing_after {input : List Char} {p : Parser TokenStream} (h : p.cursor.Standing input)
    (calls : List Call) : (p.after calls).cursor.Standing input :=
  (after_keeps (fun _ _ _ => TokenStream.Standing.advance) h calls).1

/-- The tokens that a call has passed are those of a site of the tree that it answers. -/
theorem call_sited {input : List Char} {p q : Parser TokenStream} (hs : p.cursor.Standing input)
    {c : Call} {e : Expr} (h : p.call c = (.ok e, q)) :
    ∃ x : Site, x.expr = e ∧ TokenCursor.Passes p.cursor x.all q.cursor ∧ InOrder input x.all ∧
      x.Every (Site.Read input (maxNesting - 1)) := by
  obtain ⟨hp, -⟩ := (call_iff hs.genuine).1 h
  obtain ⟨ts, hr, k, hk, hplaced⟩ := Parses.placed hp hs
  cases hk
  obtain ⟨-, -, -, x, rfl, rfl, hx⟩ := hplaced (Nat.le_refl _)
  exact ⟨x, rfl, hr.passes, hs.inOrder hr.passes, hx⟩

/-- Whatever tree a call answers, and whatever the calls before it have answered, the tokens that the
call has passed are those of a site of the tree, and every node stands right in the text: it reaches
from its first token to its last, its children lie in it one after the other, its parentheses around
it, and a literal has its source text. -/
theorem call_located {input : List Char} {options : Options} {stream : TokenStream}
    (ho : TokenStream.open? input options = .ok stream) (context : Context) (before : List Call)
    (c : Call) {e : Expr} {q : Parser TokenStream}
    (h : ((ofCursor stream context).after before).call c = (.ok e, q)) :
    ∃ x : Site, x.expr = e ∧
      TokenCursor.Passes ((ofCursor stream context).after before).cursor x.all q.cursor ∧
        InOrder input x.all ∧ x.Every (Site.Located input) := by
  have hs := standing_after (p := ofCursor stream context) (TokenStream.standing_of_open? ho) before
  obtain ⟨x, hx, hp, hin, he⟩ := call_sited hs h
  refine ⟨x, hx, hp, hin, ?_⟩
  refine he.imp_sub (List.infix_refl _) (fun x parts h => h.toLaid) fun x parts hsub h => ?_
  exact h.toLaid.located (hin.sub hsub)

/-- The first call fails at the escape; the third answers the tree after it. -/
theorem call_located_escape : ∃ stream e q, ∃ x : Site,
    TokenStream.open? "a \\u\n(b)[7]".toList {} = .ok stream ∧
      ((ofCursor stream {}).after [.expression, .expression]).call .toEnd = (.ok e, q) ∧
      e.span = { start := ⟨5, 2, 0⟩, stop := ⟨11, 2, 6⟩ } ∧ x.expr = e ∧
      x.Every (Site.Located "a \\u\n(b)[7]".toList) := by
  have hok : (TokenStream.open? "a \\u\n(b)[7]".toList {}).toOption.any (fun stream =>
      (((ofCursor stream {}).after [.expression, .expression]).call .toEnd).1.toOption.any fun e =>
        e.span == { start := ⟨5, 2, 0⟩, stop := ⟨11, 2, 6⟩ }) = true := by
    decide +kernel
  cases ho : TokenStream.open? "a \\u\n(b)[7]".toList {} with
  | error =>
    rw [ho] at hok
    cases hok
  | ok stream =>
    rw [ho] at hok
    change Option.any _ (Except.toOption (((ofCursor stream {}).after _).call .toEnd).1) = true at hok
    rcases hc : ((ofCursor stream {}).after [.expression, .expression]).call .toEnd with ⟨_ | e, q⟩
    · rw [hc] at hok
      cases hok
    · rw [hc] at hok
      obtain ⟨x, hx, -, -, he⟩ := call_located ho {} [.expression, .expression] .toEnd hc
      exact ⟨stream, e, q, x, rfl, hc, eq_of_beq hok, hx, he⟩

end Parser

end ArithLang
