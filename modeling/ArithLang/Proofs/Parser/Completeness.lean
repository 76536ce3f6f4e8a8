import ArithLang.Proofs.Parser.Completes

/-!
Completeness of the rules: from the spelling of a grammatical tree the rules build that tree again.
-/

namespace ArithLang

open Grammar (chainStrength?)
open Lexeme (mark)
open TokenCursor (current Shows)

variable {C : Type} [TokenCursor C] {x : Context} {m n : Nat} {e : Expr} {l : Lexeme}
  {ls : List Lexeme} {p : Parser C} {c : C}

/-! One kind of node after the other. -/

section

variable {i : Info}

theorem PrimaryReads.of_atom (hr : ∀ p : Parser C, ∀ c, p.context = x → p.Faces ls c →
    ∃ e' q, Rebuilt x e c e' q ∧ p.kind.startsUnary = false ∧ Parses m .atom p e' q) :
    PrimaryReads C x m e ls := by
  intro p c hx hf ha
  obtain ⟨e', q, hr, hk, hp⟩ := hr p c hx hf
  refine ⟨e', q, hr, hk, fun f r ht => .subscripts hp ?_ ht⟩
  rintro ⟨-, hk⟩
  rw [hr.kind_eq] at hk
  exact ha hk

theorem PrimaryReads.number {v : Number} (hi : i.Bare) :
    PrimaryReads C x m (.number v i) [(.num, .number v)] := by
  refine .of_atom fun p c hx hf => ?_
  obtain ⟨q, hm, hq, hf'⟩ := hf.moves
  obtain ⟨hk, hv⟩ := Prod.mk.inj hf.lexeme_eq
  have hk : p.kind = .num := hk
  refine ⟨_, q, ⟨.number hi ?_, hf'.eq_of_nil, hq.trans hx⟩, ?_, .number hk hv hm⟩
  · rfl
  · rw [hk]
    rfl

theorem PrimaryReads.identifier {name : String} (hi : i.Bare) :
    PrimaryReads C x m (.identifier name i) [(.name, .text name)] := by
  refine .of_atom fun p c hx hf => ?_
  obtain ⟨q, hm, hq, hf'⟩ := hf.moves
  obtain ⟨hk, hv⟩ := Prod.mk.inj hf.lexeme_eq
  have hk : p.kind = .name := hk
  have hp := Parses.identifier (n := m) hk hm
  rw [hv] at hp
  refine ⟨_, q, ⟨.identifier hi ?_, hf'.eq_of_nil, hq.trans hx⟩, ?_, hp⟩
  · rfl
  · rw [hk]
    rfl

/-- An expression between a bracket that opens and one that closes. -/
theorem ExpressionReads.between {k k' : Kind} (h : ExpressionReads C x m e ls)
    (hk' : k'.endsExpression = true) (hx : p.context = x)
    (hf : p.Faces (mark k :: ls ++ [mark k']) c) :
    ∃ e' p₁ p₂ q, Rebuilt x e c e' q ∧ p.kind = k ∧ p.Moves p₁ ∧
      Parses (m + 1) .expression p₁ e' p₂ ∧ p₂.kind = k' ∧ p₂.Moves q := by
  obtain ⟨p₁, hm, hx₁, hf₁⟩ := hf.moves
  have hx₁ := hx₁.trans hx
  obtain ⟨d, hfd, hsd, hd⟩ := hf₁.split
  have hkd : (current d).kind = k' := (Prod.mk.inj hsd.of_cons.1).1
  obtain ⟨e', p₂, hr, hp⟩ := h p₁ d hx₁ hfd (by rw [hkd, hk'])
  obtain ⟨q, hm', hxq, hfq⟩ := (hd p₂ hr.cursor_eq (hr.context_eq.trans hx₁.symm)).moves
  exact ⟨e', p₁, p₂, q, ⟨hr.rebuilds, hfq.eq_of_nil, hxq.trans hr.context_eq⟩,
    Parser.kind_eq_of_lexeme hf.lexeme_eq, hm, hp, hr.kind_eq.trans hkd, hm'⟩

theorem PrimaryReads.parenthesized (hi : i.extra.parenthesized = true)
    (h : ExpressionReads C x m e ls) :
    PrimaryReads C x (m + 1) (e.withInfo i) (mark .parenL :: ls ++ [mark .parenR]) := by
  refine .of_atom fun p c hx hf => ?_
  obtain ⟨e', p₁, p₂, q, hr, hk, hm, hp, hk', hm'⟩ := h.between rfl hx hf
  refine ⟨_, q, ⟨hr.rebuilds.parenthesize hi, hr.cursor_eq, hr.context_eq⟩, ?_,
    .parenthesized hk hm hp hk' hm'⟩
  rw [hk]
  rfl

theorem PrimaryReads.member {o r : Expr} {us : List Lexeme} (hi : i.Bare)
    (ho : PrimaryReads C x (m + 1) o ls) (hr : ExpressionReads C x m r us) :
    PrimaryReads C x (m + 1) (.member o r true i)
      (ls ++ mark .bracketL :: us ++ [mark .bracketR]) := by
  intro p c hx hf ha
  rw [List.append_assoc] at hf
  obtain ⟨d, hfd, hsd, hd⟩ := hf.split
  have hkd : (current d).kind = .bracketL := (Prod.mk.inj hsd.of_cons.1).1
  obtain ⟨o', p₁, ho, hk, hobject⟩ := ho p d hx hfd (by rw [hkd]; exact nofun)
  obtain ⟨r', p₂, p₃, q, hr, hk₁, hm, hp, hk₃, hm'⟩ :=
    hr.between rfl ho.context_eq (hd p₁ ho.cursor_eq (ho.context_eq.trans hx.symm))
  refine ⟨_, q, ⟨.member hi ?_ ho.rebuilds hr.rebuilds, hr.cursor_eq, hr.context_eq⟩, hk,
    fun f s ht => hobject f s (.tailMore hk₁ hm hp hk₃ hm' ht)⟩
  rfl

theorem OperandReads.postfixUpdate {a : Expr} {op : UpdateOp} (hi : i.Bare) (hw : Spells m n a ls)
    (ht : a.isAssignable = true) (h : PrimaryReads C x m a ls) :
    OperandReads C x m (.update op false a i) (ls ++ [op.lexeme]) := by
  intro p c hx hf ho
  obtain ⟨d, hfd, hsd, hd⟩ := hf.split
  have hkd : (current d).kind = .incDec := (Prod.mk.inj hsd.of_cons.1).1
  obtain ⟨a', p₁, ha, hk, hobject⟩ := h p d hx hfd (by rw [hkd]; exact nofun)
  have hx₁ := ha.context_eq.trans hx.symm
  have hf₁ := hd p₁ ha.cursor_eq hx₁
  have hpost : p₁.atPostfix = true := by
    obtain ⟨us, t, rfl, hclose⟩ := hw.exists_last ht
    rw [List.append_assoc] at hf
    exact hf.atPostfix hclose rfl hfd.shows hsd ha.cursor_eq hx₁
  obtain ⟨q, hm, hxq, hfq⟩ := hf₁.moves
  have hop : p₁.operator? UpdateOp.ofText? = some op :=
    (Parser.operator?_of_lexeme hf₁.lexeme_eq _).trans op.ofText?_text
  have hsub := hobject _ _ (.tailEnd (by rw [ha.kind_eq, hkd]; exact nofun))
  have hq : q.kind.endsOperand = true := by
    rw [← ho, ← hfq.eq_of_nil]
    rfl
  refine ⟨_, q, ⟨.update hi ?_ ha.rebuilds, hfq.eq_of_nil, hxq.trans ha.context_eq⟩,
    .operand hk (.postfixUpdate hsub hpost (ha.rebuilds.isAssignable_eq.trans ht) hop hm
      (Parser.atPostfix_of_ends hq))⟩
  rfl

theorem OperandReads.prefixUpdate {a : Expr} {op : UpdateOp} (hi : i.Bare)
    (ht : a.isAssignable = true) (h : OperandReads C x m a ls) :
    OperandReads C x (m + 1) (.update op true a i) (op.lexeme :: ls) := by
  intro p c hx hf ho
  obtain ⟨p₁, hm, hx₁, hf₁⟩ := hf.moves
  obtain ⟨a', q, ha, hp⟩ := h p₁ c (hx₁.trans hx) hf₁ ho
  have hop : p.operator? UpdateOp.ofText? = some op :=
    (Parser.operator?_of_lexeme hf.lexeme_eq _).trans op.ofText?_text
  refine ⟨_, q, ⟨.update hi ?_ ha.rebuilds, ha.cursor_eq, ha.context_eq⟩,
    .prefixUpdate (Parser.kind_eq_of_lexeme hf.lexeme_eq) hop hm hp
      (ha.rebuilds.isAssignable_eq.trans ht)⟩
  rfl

theorem OperandReads.unary {a : Expr} {op : UnaryOp} (hi : i.Bare) (hw : Spells m m a ls)
    (hd : (x.strict && op == .delete && a.isIdentifier) = false) (h : OperandReads C x m a ls) :
    OperandReads C x (m + 1) (.unary op true a i) (op.lexeme :: ls) := by
  intro p c hx hf ho
  obtain ⟨p₁, hm, hx₁, hf₁⟩ := hf.moves
  obtain ⟨a', q, ha, hp⟩ := h p₁ c (hx₁.trans hx) hf₁ ho
  have hk : p.kind = op.kind := Parser.kind_eq_of_lexeme hf.lexeme_eq
  have hop : p.operator? UnaryOp.ofText? = some op :=
    (Parser.operator?_of_lexeme hf.lexeme_eq _).trans op.ofText?_text
  have hk₁ : (p₁.kind == .parenL) = a.opensWithParen := by
    obtain ⟨t, us, rfl, ht, -⟩ := hw.exists_head
    rw [← ht, Parser.kind_eq_of_lexeme hf₁.lexeme_eq]
  rw [← ha.context_eq, ← ha.rebuilds.isIdentifier_eq] at hd
  refine ⟨_, q, ⟨.unary hi ?_ ha.rebuilds hk₁, ha.cursor_eq, ha.context_eq⟩,
    .prefixUnary ?_ ?_ hop hm hp hd⟩
  · rfl
  · rw [hk]
    cases op <;> rfl
  · rw [hk]
    cases op <;> exact nofun

theorem ChainReads.upTo {op : Lexeme} {us : List Lexeme} {node : Expr → Expr → Info → Expr}
    {strength least : Nat} (h : ChainReads C x m n e ls) (hl : e.StandsLeftOf op.1 strength)
    (hs : chainStrength? op.1 = some strength) (hless : least < strength)
    (hnode : ∀ p : Parser C, p.token.lexeme = op → p.node? = some node) (hx : p.context = x)
    (hf : p.Faces (ls ++ op :: us) c) :
    ∃ e' first p₁ q q', e.Rebuilds e' ∧ Parses m .operand p first p₁ ∧
      (∀ f r, Parses n (.climb p.token.start least e') q f r →
        Parses n (.climb p.token.start least first) p₁ f r) ∧
      q.OperatorAt least strength e' node ∧ q.kind = op.1 ∧ q.Moves q' ∧ q'.context = x ∧
      q'.Faces us c := by
  obtain ⟨d, hfd, hsd, hd⟩ := hf.split
  have hkd : (current d).kind = op.1 := (Prod.mk.inj hsd.of_cons.1).1
  obtain ⟨e', q, first, p₁, hr, hp, hc⟩ := h p d least hx hfd
    (Kind.endsOperand_of_strength (hkd ▸ hs))
    (fun s he => Nat.lt_of_lt_of_le hless (hl.strength_le s he)) (by
      intro next hn
      rw [hkd, hs] at hn
      cases hn
      exact hl.toEndsBefore)
  have hq := hd q hr.cursor_eq (hr.context_eq.trans hx.symm)
  obtain ⟨q', hm, hxq, hfq⟩ := hq.moves
  have hk : q.kind = op.1 := Parser.kind_eq_of_lexeme hq.lexeme_eq
  refine ⟨e', first, p₁, q, q', hr.rebuilds, hp, hc, ⟨?_, hless, ?_, hnode q hq.lexeme_eq⟩, hk, hm,
    hxq.trans hr.context_eq, hfq⟩
  · rw [hk, hs]
  · intro hexp
    exact hr.rebuilds.power_base (hl.base (hk.symm.trans hexp))

/-- An operator that leaves the next one of its strength to the left operand. -/
theorem ChainReads.leftAssociative {r : Expr} {op : Lexeme} {us : List Lexeme}
    {node : Expr → Expr → Info → Expr} {strength : Nat} (hk : op.1.isRightAssociative = false)
    (hs : chainStrength? op.1 = some strength)
    (hnode : ∀ p : Parser C, p.token.lexeme = op → p.node? = some node)
    (hb : (node e r i).bareStrength? = some strength)
    (hm : ∀ e' r' j, j.Bare → e.Rebuilds e' → r.Rebuilds r' →
      (node e r i).Rebuilds (node e' r' j))
    (hl : e.StandsLeftOf op.1 strength) (hr : r.StandsRightOf op.1 strength)
    (h : ChainReads C x m n e ls) (h' : ChainReads C x n n r us) :
    ChainReads C x m n (node e r i) (ls ++ op :: us) := by
  intro p c least hx hf ho hless hends
  obtain ⟨e', first, p₁, q, q', he, hp, hc, hop, hkq, hmq, hx', hf'⟩ :=
    h.upTo hl hs (hless _ hb) hnode hx hf
  have hne : op.1 ≠ .exponent := by
    intro hexp
    rw [hexp] at hk
    cases hk
  have hlt : ∀ s, r.bareStrength? = some s → strength < s := by
    intro s hrs
    exact (hr.strength_lt s hrs).resolve_right fun hexp => hne hexp.1
  have hle : ∀ next, chainStrength? (current c).kind = some next → next ≤ strength := by
    intro next hn
    exact (hends next hn).strength_le strength hb
  obtain ⟨r', q'', first', p₂, hr', hp', hc'⟩ := h' q' c strength hx' hf' ho hlt (by
    intro next hn
    refine ⟨fun s hrs => Nat.le_trans (hle next hn) (Nat.le_of_lt (hlt s hrs)), fun hpow => ?_⟩
    have := hlt 10 (Expr.bareStrength?_of_power hpow)
    have := hle next hn
    omega)
  refine ⟨_, q'', first, p₁, ⟨hm e' r' _ ?_ he hr'.rebuilds, hr'.cursor_eq, hr'.context_eq⟩, hp,
    fun f s ht => hc f s (.climbLeft hop (hkq ▸ hk) hmq hp' (hc' _ _ (.climbEnd ?_)) ht)⟩
  · rfl
  · rw [hr'.kind_eq]
    exact hle

theorem ChainReads.logical {r : Expr} {op : LogicalOp} {us : List Lexeme} (hi : i.Bare)
    (hl : e.StandsLeftOf op.kind op.strength) (hr : r.StandsRightOf op.kind op.strength)
    (h : ChainReads C x m n e ls) (h' : ChainReads C x n n r us) :
    ChainReads C x m n (.logical op e r i) (ls ++ op.lexeme :: us) := by
  refine .leftAssociative ?_ op.chainStrength?_kind (fun p => Parser.node?_of_logical) ?_
    (fun _ _ _ hj he hr => .logical hi hj he hr) hl hr h h'
  · cases op <;> rfl
  · exact Expr.bareStrength?_logical hi

theorem ChainReads.binary {r : Expr} {op : BinaryOp} {us : List Lexeme} (hi : i.Bare)
    (hne : op ≠ .exp) (hl : e.StandsLeftOf op.kind op.strength)
    (hr : r.StandsRightOf op.kind op.strength) (h : ChainReads C x m n e ls)
    (h' : ChainReads C x n n r us) :
    ChainReads C x m n (.binary op e r i) (ls ++ op.lexeme :: us) := by
  refine .leftAssociative ?_ op.chainStrength?_kind (fun p => Parser.node?_of_binary) ?_
    (fun _ _ _ hj he hr => .binary hi hj he hr) hl hr h h'
  · cases op <;> first | rfl | contradiction
  · exact Expr.bareStrength?_binary hi

/-- The right operand of `**` takes what its operator would, so no `**` is left to follow. -/
theorem ChainReads.power {r : Expr} {us : List Lexeme} (hi : i.Bare)
    (hl : e.StandsLeftOf .exponent 10) (hr : r.StandsRightOf .exponent 10)
    (h : ChainReads C x m (n + 1) e ls) (h' : ChainReads C x (n + 1) n r us) :
    ChainReads C x m (n + 1) (.binary .exp e r i) (ls ++ BinaryOp.exp.lexeme :: us) := by
  intro p c least hx hf ho hless hends
  have hb : (Expr.binary .exp e r i).bareStrength? = some 10 := Expr.bareStrength?_binary hi
  obtain ⟨e', first, p₁, q, q', he, hp, hc, hop, hkq, hmq, hx', hf'⟩ :=
    h.upTo hl rfl (hless _ hb) (fun p => Parser.node?_of_binary) hx hf
  have hle : ∀ s, r.bareStrength? = some s → 10 ≤ s := by
    intro s hrs
    have := hr.strength_lt s hrs
    omega
  have hlt : ∀ next, chainStrength? (current c).kind = some next → next < 10 := by
    intro next hn
    refine Nat.lt_of_le_of_ne ((hends next hn).strength_le 10 hb) ((hends next hn).power ?_)
    rw [Expr.isBarePower_exp hi]
  obtain ⟨r', q'', first', p₂, hr', hp', hc'⟩ := h' q' c 9 hx' hf' ho hle (by
    intro next hn
    have := hlt next hn
    refine ⟨fun s hrs => ?_, fun _ => Nat.ne_of_lt this⟩
    have := hle s hrs
    omega)
  refine ⟨_, q'', first, p₁, ⟨.binary hi ?_ he hr'.rebuilds, hr'.cursor_eq, hr'.context_eq⟩, hp,
    fun f s ht => hc f s (.climbRight hop ?_ hmq hp' (hc' _ _ (.climbEnd ?_)) ht)⟩
  · rfl
  · rw [hkq]
    rfl
  · rw [hr'.kind_eq]
    intro next hn
    exact Nat.le_of_lt_succ (hlt next hn)

theorem ItemReads.conditional {t a : Expr} {us vs : List Lexeme} (hi : i.Bare)
    (hw : Spells (n + 1) (n + 1) t ls) (ht : ChainReads C x (n + 1) (n + 1) t ls)
    (hc : ItemReads C x n e us) (ha : ItemReads C x n a vs) :
    ItemReads C x (n + 1) (.conditional t e a i)
      (ls ++ mark .question :: us ++ mark .colon :: vs) := by
  intro p c hx hf hk
  rw [List.append_assoc] at hf
  have hy : ¬ (p.kind = .yieldWord ∧ p.context.inGenerator = true) := by
    obtain ⟨d, hfd, -⟩ := hf.split
    exact hw.not_yield hfd
  obtain ⟨d, hfd, hsd, hd⟩ := hf.marked.split
  have hkd : (current d).kind = .question := (Prod.mk.inj hsd.of_cons.1).1
  obtain ⟨t', p₁, ht', hp⟩ := ht.chain (p.marked_context.trans hx) hfd (by rw [hkd]; rfl)
    (by rw [hkd]; rfl)
  obtain ⟨p₂, hm, hx₂, hf₂⟩ := (hd p₁ ht'.cursor_eq
    (ht'.context_eq.trans (p.marked_context.trans hx).symm)).moves
  have hx₂ := hx₂.trans ht'.context_eq
  obtain ⟨d', hfd', hsd', hd'⟩ := hf₂.split
  have hkd' : (current d').kind = .colon := (Prod.mk.inj hsd'.of_cons.1).1
  obtain ⟨e', p₃, hc', hp'⟩ := hc p₂ d' hx₂ hfd' (by rw [hkd']; rfl)
  obtain ⟨p₄, hm', hx₄, hf₄⟩ := (hd' p₃ hc'.cursor_eq (hc'.context_eq.trans hx₂.symm)).moves
  obtain ⟨a', q, ha', hp''⟩ := ha p₄ c (hx₄.trans hc'.context_eq) hf₄ hk
  refine ⟨_, q, ⟨.conditional hi ?_ ht'.rebuilds hc'.rebuilds ha'.rebuilds, ha'.cursor_eq,
    ha'.context_eq⟩, .unassigned hy (.conditional hp (ht'.kind_eq.trans hkd) hm hp'
      (hc'.kind_eq.trans hkd') hm' hp'') ?_⟩
  · rfl
  · rw [ha'.kind_eq]
    exact (Kind.endsItem_iff.1 hk).2.2.2

theorem ItemReads.assignment {r : Expr} {op : AssignOp} {us : List Lexeme} (hi : i.Bare)
    (hw : Spells (n + 1) (n + 1) e ls) (ht : e.isAssignable = true)
    (h : ChainReads C x (n + 1) (n + 1) e ls) (h' : ItemReads C x n r us) :
    ItemReads C x (n + 1) (.assignment op e r i) (ls ++ op.lexeme :: us) := by
  intro p c hx hf hk
  have hy : ¬ (p.kind = .yieldWord ∧ p.context.inGenerator = true) := by
    obtain ⟨d, hfd, -⟩ := hf.split
    exact hw.not_yield hfd
  have ha : op.kind.isAssignment = true := by
    cases op <;> rfl
  obtain ⟨d, hfd, hsd, hd⟩ := hf.marked.split
  have hkd : (current d).kind = op.kind := (Prod.mk.inj hsd.of_cons.1).1
  obtain ⟨e', p₁, he, hp⟩ := h.conditional (p.marked_context.trans hx) hfd
    (Kind.endsOperand_of_assignment (hkd ▸ ha)) (by rw [hkd]; cases op <;> rfl)
    (by rw [hkd]; cases op <;> exact nofun)
  have hf₁ := hd p₁ he.cursor_eq (he.context_eq.trans (p.marked_context.trans hx).symm)
  obtain ⟨p₂, hm, hx₂, hf₂⟩ := hf₁.moves
  have hop : p₁.operator? AssignOp.ofText? = some op :=
    (Parser.operator?_of_lexeme hf₁.lexeme_eq _).trans op.ofText?_text
  obtain ⟨r', q, hr, hp'⟩ := h' p₂ c (hx₂.trans he.context_eq) hf₂ hk
  refine ⟨_, q, ⟨.assignment hi ?_ he.rebuilds hr.rebuilds, hr.cursor_eq, hr.context_eq⟩,
    .assignment hy hp ?_ hop (he.rebuilds.isAssignable_eq.trans ht) hm hp'⟩
  · rfl
  · rw [he.kind_eq, hkd, ha]

/-- The tokens of the items after the first, each with the comma before it. -/
theorem ItemReads.items {parts : List (Expr × List Lexeme)}
    (h : ∀ part ∈ parts, ItemReads C x n part.1 part.2) (start : Position) (es : List Expr)
    (hx : p.context = x) (hf : p.Faces (parts.flatMap fun part => mark .comma :: part.2) c)
    (hk : (current c).kind.endsExpression = true) :
    ∃ es' q, es'.map Expr.plain = parts.map (fun part => part.1.plain) ∧ q.cursor = c ∧
      q.context = x ∧ Parses (n + 1) (.items start es) p
        (.sequence (es ++ es') (q.infoFrom start {})) q := by
  induction parts generalizing p es with
  | nil =>
    refine ⟨[], p, rfl, hf.eq_of_nil, hx, ?_⟩
    rw [List.append_nil]
    apply Parses.itemsEnd
    rw [Parser.kind, Parser.token, hf.eq_of_nil]
    exact (Kind.endsExpression_iff.1 hk).2
  | cons part parts ih =>
    rw [List.flatMap_cons] at hf
    obtain ⟨p₁, hm, hx₁, hf₁⟩ := hf.moves
    have hx₁ := hx₁.trans hx
    obtain ⟨d, hfd, hsd, hd⟩ := hf₁.split
    have hkd : (current d).kind.endsItem = true := by
      cases parts with
      | nil =>
        rw [hsd.eq_of_nil]
        exact (Kind.endsExpression_iff.1 hk).1
      | cons =>
        rw [(Prod.mk.inj hsd.of_cons.1).1]
        rfl
    obtain ⟨e', p₂, hr, hp⟩ := h part List.mem_cons_self p₁ d hx₁ hfd hkd
    obtain ⟨es', q, he, hq, hxq, hps⟩ := ih
      (fun part hpart => h part (List.mem_cons_of_mem _ hpart)) (es ++ [e']) hr.context_eq
      (hd p₂ hr.cursor_eq (hr.context_eq.trans hx₁.symm))
    refine ⟨e' :: es', q, ?_, hq, hxq, ?_⟩
    · rw [List.map_cons, List.map_cons, he, hr.rebuilds.plain_eq]
    · rw [List.append_assoc] at hps
      exact .itemsMore (Parser.kind_eq_of_lexeme hf.lexeme_eq) hm hp hps

theorem ExpressionReads.sequence {parts : List (Expr × List Lexeme)} (hi : i.Bare)
    (hne : parts ≠ []) (h : ItemReads C x n e ls)
    (hs : ∀ part ∈ parts, ItemReads C x n part.1 part.2) :
    ExpressionReads C x n (.sequence (e :: parts.map Prod.fst) i)
      (ls ++ parts.flatMap fun part => mark .comma :: part.2) := by
  intro p c hx hf hk
  obtain ⟨d, hfd, hsd, hd⟩ := hf.split
  have hkd : (current d).kind = .comma := by
    cases parts with
    | nil => contradiction
    | cons => exact (Prod.mk.inj hsd.of_cons.1).1
  obtain ⟨e', p₁, hr, hp⟩ := h p d hx hfd (by rw [hkd]; rfl)
  obtain ⟨es', q, he, hq, hxq, hps⟩ := ItemReads.items hs p.token.start [e']
    hr.context_eq (hd p₁ hr.cursor_eq (hr.context_eq.trans hx.symm)) hk
  refine ⟨_, q, ⟨.sequence hi ?_ ?_, hq, hxq⟩, .sequence hp (hr.kind_eq.trans hkd) hps⟩
  · rfl
  · rw [List.singleton_append, List.map_cons, List.map_cons, he, hr.rebuilds.plain_eq,
      List.map_map]
    rfl

end

/-- From the spelling of a grammatical tree the rules build the tree again. -/
theorem Spells.completes (h : Spells m n e ls) (hg : e.Grammatical x.strict) :
    Completes C x m n e ls := by
  induction h with
  | number hi => exact .of_primary (.number hi) (.number hi)
  | identifier hi => exact .of_primary (.identifier hi) (.identifier hi)
  | member hi ho hp iho ihp =>
    obtain ⟨⟨-, hs⟩, hc⟩ := Expr.every_iff.1 hg
    simp only [Expr.children, List.forall_mem_cons] at hc
    exact .of_primary (.member hi ho hp)
      (.member hi ((iho hc.1).primary hs) ((ihp hc.2.1).expression rfl))
  | @sequence first ts n i parts hi hf hs ihf ihs =>
    obtain ⟨⟨hl, hitems⟩, hc⟩ := Expr.every_iff.1 hg
    simp only [Expr.children, List.forall_mem_cons, List.forall_mem_map] at hc hitems
    refine .of_expression (Expr.standsInList_sequence.trans hi)
      (.sequence hi ?_ ((ihf hc.1).item rfl hitems.1) ?_)
    · rintro rfl
      simp at hl
    · intro part hpart
      exact (ihs part hpart (hc.2 part hpart)).item rfl (hitems.2 part hpart)
  | assignment hi hl hr ihl ihr =>
    obtain ⟨⟨ht, hs⟩, hc⟩ := Expr.every_iff.1 hg
    simp only [Expr.children, List.forall_mem_cons] at hc
    have hchain := Expr.standsInChain_of_operand (Expr.standsUnderPrefix_of_assignable ht)
    exact .of_item (Expr.standsInChain_assignment.trans hi)
      (.assignment hi hl ht ((ihl hc.1).chain hchain) ((ihr hc.2.1).item rfl hs))
  | conditional hi ht hc ha iht ihc iha =>
    obtain ⟨⟨hst, hsc, hsa⟩, hch⟩ := Expr.every_iff.1 hg
    simp only [Expr.children, List.forall_mem_cons] at hch
    exact .of_item (Expr.standsInChain_conditional.trans hi)
      (.conditional hi ht ((iht hch.1).chain hst) ((ihc hch.2.1).item rfl hsc)
        ((iha hch.2.2.1).item rfl hsa))
  | logical hi hl hr ihl ihr =>
    obtain ⟨⟨hsl, hsr⟩, hc⟩ := Expr.every_iff.1 hg
    simp only [Expr.children, List.forall_mem_cons] at hc
    exact .of_chain (.logical hi hl hr) (Expr.standsUnderPrefix_logical.trans hi)
      (.logical hi hsl hsr ((ihl hc.1).chain hsl.chain) ((ihr hc.2.1).chain hsr.chain))
  | binary hi hne hl hr ihl ihr =>
    obtain ⟨⟨hsl, hsr⟩, hc⟩ := Expr.every_iff.1 hg
    simp only [Expr.children, List.forall_mem_cons] at hc
    exact .of_chain (.binary hi hne hl hr) (Expr.standsUnderPrefix_binary.trans hi)
      (.binary hi hne hsl hsr ((ihl hc.1).chain hsl.chain) ((ihr hc.2.1).chain hsr.chain))
  | power hi hl hr ihl ihr =>
    obtain ⟨⟨hsl, hsr⟩, hc⟩ := Expr.every_iff.1 hg
    simp only [Expr.children, List.forall_mem_cons] at hc
    exact .of_chain (.power hi hl hr) (Expr.standsUnderPrefix_binary.trans hi)
      (.power hi hsl hsr ((ihl hc.1).chain hsl.chain) ((ihr hc.2.1).chain hsr.chain))
  | unary hi ha iha =>
    obtain ⟨⟨-, hs, hd⟩, hc⟩ := Expr.every_iff.1 hg
    simp only [Expr.children, List.forall_mem_cons] at hc
    exact .of_operand (.unary hi ha) (Expr.standsUnderSubscript_unary.trans hi)
      (.unary hi ha hd ((iha hc.1).operand hs))
  | prefixUpdate hi ha iha =>
    obtain ⟨ht, hc⟩ := Expr.every_iff.1 hg
    simp only [Expr.children, List.forall_mem_cons] at hc
    exact .of_operand (.prefixUpdate hi ha) (Expr.standsUnderSubscript_update.trans hi)
      (.prefixUpdate hi ht ((iha hc.1).operand (Expr.standsUnderPrefix_of_assignable ht)))
  | postfixUpdate hi ha iha =>
    obtain ⟨ht, hc⟩ := Expr.every_iff.1 hg
    simp only [Expr.children, List.forall_mem_cons] at hc
    exact .of_operand (.postfixUpdate hi ha) (Expr.standsUnderSubscript_update.trans hi)
      (.postfixUpdate hi ha ht ((iha hc.1).primary (Expr.standsUnderSubscript_of_assignable ht)))
  | parenthesized hi he ihe =>
    rw [Expr.grammatical_withInfo] at hg
    exact .of_primary (.parenthesized hi he) (.parenthesized hi ((ihe hg).expression rfl))

end ArithLang
