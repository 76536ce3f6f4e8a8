import ArithLang.Proofs.Expr.Site
import ArithLang.Proofs.Expr.Written

/-! What is built and the tokens that were read for it, node by node. -/

namespace ArithLang

open Lexeme (mark)

namespace Expr

/-- The node without the parentheses that enclose just it. -/
def bare (e : Expr) : Expr :=
  e.withExtra { e.extra with parenthesized := false, parenStart := none }

theorem bare_parenthesize (offset : Nat) (e : Expr) : (e.parenthesize offset).bare = e.bare := by
  cases e <;> rfl

theorem bare_of_extra {e : Expr} (h : e.extra.parenthesized = false)
    (hs : e.extra.parenStart = none) : e.bare = e := by
  rw [bare, ← h, ← hs]
  exact e.withInfo_info

/-- A node as it is built, when nothing encloses it. -/
structure Fresh (input : List Char) (ts : List Token) (e : Expr) : Prop where
  parenthesized_eq : e.extra.parenthesized = false
  parenStart_eq : e.extra.parenStart = none
  raw_eq : e.extra.raw = e.valueNote?.bind fun _ => ts.head?.map (·.source input)
  rawValue_eq : e.extra.rawValue = e.valueNote?
  argument_eq : e.extra.parenthesizedArgument = e.argumentNote?
  covers : e.span.Covers ts

variable {input : List Char} {ts : List Token} {e : Expr}

theorem fresh_of_extra (h : e.extra = {}) (ha : e.argumentNote? = none)
    (hv : e.valueNote? = none) (hc : e.span.Covers ts) : e.Fresh input ts := by
  refine ⟨?_, ?_, ?_, ?_, ?_, hc⟩ <;> rw [h]
  · rw [hv]
    rfl
  · rw [hv]
  · rw [ha]

/-- A prefix operation notes whether its operand only looks parenthesized. -/
theorem fresh_of_argument {k : Kind} {a : Expr} (h : e.extra = Grammar.argumentExtra k a)
    (hk : (k == .parenL) = a.opensWithParen)
    (ha : e.argumentNote? = some (a.opensWithParen && !a.isParenthesized))
    (hv : e.valueNote? = none) (hc : e.span.Covers ts) : e.Fresh input ts := by
  refine ⟨?_, ?_, ?_, ?_, ?_, hc⟩ <;> rw [h, Grammar.argumentExtra]
  · rw [hv]
    rfl
  · rw [hv]
  · rw [hk, ha]

end Expr

/-- A site where the node's own tokens spell it within so many levels. -/
structure Site.Read (input : List Char) (levels : Nat) (x : Site) (parts : List Site) : Prop
    extends x.Laid input parts where
  spells : ∃ m n, m ≤ levels ∧ n ≤ levels ∧ Spells m n x.expr.bare (x.own.map Token.lexeme)

/-- A tree and the tokens that were read for it. -/
structure Sited (input : List Char) (levels m n : Nat) (e : Expr) (ts : List Token) : Prop where
  spells : Spells m n e (ts.map Token.lexeme)
  left_le : m ≤ levels
  right_le : n ≤ levels
  site : ∃ x : Site, x.expr = e ∧ x.all = ts ∧ x.Every (Site.Read input levels)

namespace Sited

variable {input : List Char} {levels m n : Nat} {e o l r t c a : Expr} {i : Info}
  {ts us vs : List Token} {u u' : Token}

/-- A node that no parentheses enclose. -/
theorem node (parts : List Site) (hs : Spells m n e (ts.map Token.lexeme)) (hm : m ≤ levels)
    (hn : n ≤ levels) (hf : e.Fresh input ts) (hc : e.children = parts.map Site.expr)
    (hi : Interleaves e.marks (parts.map Site.all) ts)
    (hparts : ∀ y ∈ parts, y.Every (Site.Read input levels)) : Sited input levels m n e ts where
  spells := hs
  left_le := hm
  right_le := hn
  site := by
    obtain ⟨hb, hp, hraw, hvalue, hargument, hspan⟩ := hf
    refine ⟨{ expr := e, own := ts }, rfl, List.append_nil _, .intro ⟨⟨hc, hi, ?_, ?_, rfl, hb, hp,
      hspan, hraw, hvalue, hargument⟩, ?_⟩ hparts⟩
    · exact List.forall_mem_nil _
    · exact List.forall_mem_nil _
    · rw [Expr.bare_of_extra hb hp]
      exact ⟨m, n, hm, hn, hs⟩

theorem number {v : Number} (hu : u.lexeme = (.num, .number v)) (hspan : i.span.Covers [u])
    (hi : i.extra = { raw := some (u.source input), rawValue := some v }) (hm : m ≤ levels)
    (hn : n ≤ levels) : Sited input levels m n (.number v i) [u] := by
  have hls : [u].map Token.lexeme = [(.num, .number v)] := congrArg ([·]) hu
  have hb : i.Bare := congrArg Extra.parenthesized hi
  refine node [] (hls ▸ .number hb) hm hn ⟨hb, ?_, ?_, ?_, ?_, hspan⟩ rfl (.last hls)
    (List.forall_mem_nil _)
  · exact congrArg Extra.parenStart hi
  · exact congrArg Extra.raw hi
  · exact congrArg Extra.rawValue hi
  · exact congrArg Extra.parenthesizedArgument hi

theorem identifier {name : String} (hu : u.lexeme = (.name, .text name)) (hspan : i.span.Covers [u])
    (hi : i.extra = {}) (hm : m ≤ levels) (hn : n ≤ levels) :
    Sited input levels m n (.identifier name i) [u] := by
  have hls : [u].map Token.lexeme = [(.name, .text name)] := congrArg ([·]) hu
  exact node [] (hls ▸ .identifier (Info.bare_of_extra hi)) hm hn
    (Expr.fresh_of_extra hi rfl rfl hspan) rfl (.last hls) (List.forall_mem_nil _)

theorem member (ho : u.lexeme = mark .bracketL) (hc : u'.lexeme = mark .bracketR) (hi : i.extra = {})
    (hspan : i.span.Covers (ts ++ (u :: us ++ [u']))) (h : Sited input levels (m + 1) n o ts)
    (h' : Sited input levels m m r us) :
    Sited input levels (m + 1) n (.member o r true i) (ts ++ (u :: us ++ [u'])) := by
  obtain ⟨hs, hm, hn, x, rfl, rfl, hx⟩ := h
  obtain ⟨hs', -, -, y, rfl, rfl, hy⟩ := h'
  refine node [x, y] ?_ hm hn (Expr.fresh_of_extra hi rfl rfl hspan) rfl ?_ ?_
  · simpa [ho, hc] using hs.member (Info.bare_of_extra hi) hs'
  · have : Interleaves [[], [mark .bracketL], [mark .bracketR]] [x.all, y.all]
        ([] ++ x.all ++ ([u] ++ y.all ++ [u'])) :=
      .cons rfl (.cons (congrArg ([·]) ho) (.last (congrArg ([·]) hc)))
    simpa using this
  · simpa using ⟨hx, hy⟩

/-- Two operands with an operator between them. -/
theorem infixed {op : Lexeme} (hu : u.lexeme = op)
    (hs : Spells m n e ((ts ++ u :: us).map Token.lexeme)) (hm : e.marks = [[], [op], []])
    (hc : e.children = [l, r]) (hf : e.Fresh input (ts ++ u :: us))
    {m' n' : Nat} (h : Sited input levels m n l ts) (h' : Sited input levels m' n' r us) :
    Sited input levels m n e (ts ++ u :: us) := by
  obtain ⟨-, hml, hnl, x, rfl, rfl, hx⟩ := h
  obtain ⟨-, -, -, y, rfl, rfl, hy⟩ := h'
  refine node [x, y] hs hml hnl hf hc ?_ ?_
  · have : Interleaves [[], [op], []] [x.all, y.all] ([] ++ x.all ++ ([u] ++ y.all ++ [])) :=
      .cons rfl (.cons (congrArg ([·]) hu) (.last rfl))
    rw [hm]
    simpa using this
  · simpa using ⟨hx, hy⟩

theorem assignment {op : AssignOp} (hu : u.lexeme = op.lexeme) (hi : i.extra = {})
    (hspan : i.span.Covers (ts ++ u :: us)) (h : Sited input levels (n + 1) (n + 1) l ts)
    (h' : Sited input levels n n r us) :
    Sited input levels (n + 1) (n + 1) (.assignment op l r i) (ts ++ u :: us) := by
  refine infixed hu ?_ rfl rfl (Expr.fresh_of_extra hi rfl rfl hspan) h h'
  simpa [hu] using Spells.assignment (Info.bare_of_extra hi) h.spells h'.spells

theorem conditional (hu : u.lexeme = mark .question) (hu' : u'.lexeme = mark .colon)
    (hi : i.extra = {}) (hspan : i.span.Covers (ts ++ u :: (us ++ u' :: vs)))
    (h : Sited input levels (n + 1) (n + 1) t ts) (h' : Sited input levels n n c us)
    (h'' : Sited input levels n n a vs) :
    Sited input levels (n + 1) (n + 1) (.conditional t c a i) (ts ++ u :: (us ++ u' :: vs)) := by
  obtain ⟨hs, hm, hn, x, rfl, rfl, hx⟩ := h
  obtain ⟨hs', -, -, y, rfl, rfl, hy⟩ := h'
  obtain ⟨hs'', -, -, z, rfl, rfl, hz⟩ := h''
  refine node [x, y, z] ?_ hm hn (Expr.fresh_of_extra hi rfl rfl hspan) rfl ?_ ?_
  · simpa [hu, hu'] using hs.conditional (Info.bare_of_extra hi) hs' hs''
  · have : Interleaves [[], [mark .question], [mark .colon], []] [x.all, y.all, z.all]
        ([] ++ x.all ++ ([u] ++ y.all ++ ([u'] ++ z.all ++ []))) :=
      .cons rfl (.cons (congrArg ([·]) hu) (.cons (congrArg ([·]) hu') (.last rfl)))
    simpa using this
  · simpa using ⟨hx, hy, hz⟩

/-- An operator before its operand. -/
theorem prefixed {op : Lexeme} (hu : u.lexeme = op) (hs : Spells m n e ((u :: ts).map Token.lexeme))
    (hm : m ≤ levels) (hn : n ≤ levels) (hmarks : e.marks = [[op], []]) (hc : e.children = [a])
    (hf : e.Fresh input (u :: ts)) {m' n' : Nat} (h : Sited input levels m' n' a ts) :
    Sited input levels m n e (u :: ts) := by
  obtain ⟨-, -, -, x, rfl, rfl, hx⟩ := h
  refine node [x] hs hm hn hf hc ?_ ?_
  · have : Interleaves [[op], []] [x.all] ([u] ++ x.all ++ []) :=
      .cons (congrArg ([·]) hu) (.last rfl)
    rw [hmarks]
    simpa using this
  · simpa using hx

theorem unary {op : UnaryOp} {k : Kind} (hu : u.lexeme = op.lexeme)
    (hi : i.extra = Grammar.argumentExtra k a) (hk : (k == .parenL) = a.opensWithParen)
    (hspan : i.span.Covers (u :: ts)) (hm : m + 1 ≤ levels) (hn : n ≤ levels)
    (h : Sited input levels m m a ts) :
    Sited input levels (m + 1) n (.unary op true a i) (u :: ts) := by
  refine prefixed hu ?_ hm hn rfl rfl (Expr.fresh_of_argument hi hk rfl rfl hspan) h
  rw [List.map_cons, hu]
  exact .unary (by rw [Info.Bare, hi]; rfl) h.spells

theorem prefixUpdate {op : UpdateOp} {k : Kind} (hu : u.lexeme = op.lexeme)
    (hi : i.extra = Grammar.argumentExtra k a) (hk : (k == .parenL) = a.opensWithParen)
    (hspan : i.span.Covers (u :: ts)) (hm : m + 1 ≤ levels) (hn : n ≤ levels)
    (h : Sited input levels m m a ts) :
    Sited input levels (m + 1) n (.update op true a i) (u :: ts) := by
  refine prefixed hu ?_ hm hn rfl rfl (Expr.fresh_of_argument hi hk rfl rfl hspan) h
  rw [List.map_cons, hu]
  exact .prefixUpdate (by rw [Info.Bare, hi]; rfl) h.spells

theorem postfixUpdate {op : UpdateOp} (hu : u.lexeme = op.lexeme) (hi : i.extra = {})
    (hspan : i.span.Covers (ts ++ [u])) (h : Sited input levels m n a ts) :
    Sited input levels m n (.update op false a i) (ts ++ [u]) := by
  obtain ⟨hs, hm, hn, x, rfl, rfl, hx⟩ := h
  refine node [x] ?_ hm hn (Expr.fresh_of_extra hi rfl rfl hspan) rfl ?_ ?_
  · simpa [hu] using hs.postfixUpdate (Info.bare_of_extra hi)
  · have : Interleaves [[], [op.lexeme]] [x.all] ([] ++ x.all ++ [u]) :=
      .cons rfl (.last (congrArg ([·]) hu))
    simpa using this
  · simpa using hx

/-- A pair of parentheses around a node. -/
theorem parenthesize (hu : u.lexeme = mark .parenL) (hu' : u'.lexeme = mark .parenR)
    (hm : m + 1 ≤ levels) (hn : n ≤ levels) (h : Sited input levels m m e ts) :
    Sited input levels (m + 1) n (e.parenthesize u.start.offset) (u :: ts ++ [u']) := by
  obtain ⟨hs, -, -, x, rfl, rfl, hx⟩ := h
  refine ⟨?_, hm, hn, x.enclose u u', rfl, x.all_enclose u u', ?_⟩
  · have := hs.parenthesized (n := n) (i := (x.expr.parenthesize u.start.offset).info) ?_
    · simpa [hu, hu', Expr.parenthesize, Expr.withExtra] using this
    · exact congrArg Extra.parenthesized (Expr.extra_parenthesize _ _)
  · cases hx with
    | intro h hparts =>
      refine .intro ⟨h.toLaid.enclose hu hu', ?_⟩ hparts
      rw [Site.enclose, Expr.bare_parenthesize]
      exact h.spells

end Sited

theorem Sited.ne_nil {input : List Char} {levels m n : Nat} {e : Expr} {ts : List Token}
    (h : Sited input levels m n e ts) : ts ≠ [] := by
  obtain ⟨l, ls, hl, -⟩ := h.spells.exists_head
  rintro rfl
  cases hl

/-- The items of a comma list and the tokens that were read for them, the commas included. -/
inductive SitedItems (input : List Char) (levels n : Nat) : List Expr → List Token → Prop
  | single : Sited input levels n n e ts → SitedItems input levels n [e] ts
  | snoc : SitedItems input levels n es ts → comma.lexeme = mark .comma →
      Sited input levels n n e us →
      SitedItems input levels n (es ++ [e]) (ts ++ comma :: us)

namespace SitedItems

variable {input : List Char} {levels n : Nat} {es : List Expr} {ts : List Token}

/-- The first item, and the others with the commas before them. -/
theorem exists_sites (h : SitedItems input levels n es ts) :
    ∃ (x : Site) (parts : List (Token × Site)), es = x.expr :: parts.map (·.2.expr) ∧
      ts = x.all ++ parts.flatMap (fun part => part.1 :: part.2.all) ∧
        (n ≤ levels ∧ Spells n n x.expr (x.all.map Token.lexeme)) ∧
          x.Every (Site.Read input levels) ∧ ∀ part ∈ parts, part.1.lexeme = mark .comma ∧
            Spells n n part.2.expr (part.2.all.map Token.lexeme) ∧
              part.2.Every (Site.Read input levels) := by
  induction h with
  | single h =>
    obtain ⟨hs, hn, -, x, rfl, rfl, hx⟩ := h
    exact ⟨x, [], rfl, by simp, ⟨hn, hs⟩, hx, List.forall_mem_nil _⟩
  | @snoc _ _ _ _ comma _ hc h ih =>
    obtain ⟨x, parts, rfl, rfl, hs, hx, hp⟩ := ih
    obtain ⟨hs', -, -, y, rfl, rfl, hy⟩ := h
    refine ⟨x, parts ++ [(comma, y)], by simp, by simp, hs, hx, ?_⟩
    intro part hm
    obtain hm | hm := List.mem_append.1 hm
    · exact hp part hm
    · cases List.mem_singleton.1 hm
      exact ⟨hc, hs', hy⟩

theorem levels_le (h : SitedItems input levels n es ts) : n ≤ levels := by
  obtain ⟨-, -, -, -, ⟨hn, -⟩, -⟩ := h.exists_sites
  exact hn

theorem ne_nil (h : SitedItems input levels n es ts) : ts ≠ [] := by
  cases h with
  | single h => exact h.ne_nil
  | snoc => simp

theorem interleaves {parts : List (Token × Site)}
    (h : ∀ part ∈ parts, part.1.lexeme = mark .comma) :
    Interleaves (parts.map (fun _ => [mark .comma]) ++ [[]]) (parts.map (·.2.all))
      (parts.flatMap fun part => part.1 :: part.2.all) := by
  induction parts with
  | nil => exact .last rfl
  | cons part parts ih =>
    obtain ⟨hc, hp⟩ := List.forall_mem_cons.1 h
    have : Interleaves ([mark .comma] :: (parts.map (fun _ => [mark .comma]) ++ [[]]))
        (part.2.all :: parts.map (·.2.all))
        ([part.1] ++ part.2.all ++ parts.flatMap fun part => part.1 :: part.2.all) :=
      .cons (congrArg ([·]) hc) (ih hp)
    simpa using this

theorem lexemes {parts : List (Token × Site)} (h : ∀ part ∈ parts, part.1.lexeme = mark .comma) :
    (parts.flatMap fun part => part.1 :: part.2.all).map Token.lexeme =
      (parts.map fun part => (part.2.expr, part.2.all.map Token.lexeme)).flatMap
        fun part => mark .comma :: part.2 := by
  induction parts with
  | nil => rfl
  | cons part parts ih =>
    obtain ⟨hc, hp⟩ := List.forall_mem_cons.1 h
    simp only [List.flatMap_cons, List.map_cons, List.map_append, hc, ih hp]

theorem sequence {i : Info} (h : SitedItems input levels n es ts) (hi : i.extra = {})
    (hspan : i.span.Covers ts) : Sited input levels n n (.sequence es i) ts := by
  obtain ⟨x, parts, rfl, rfl, ⟨hn, hs⟩, hx, hp⟩ := h.exists_sites
  have hcommas : ∀ part ∈ parts, part.1.lexeme = mark .comma := fun part hm => (hp part hm).1
  refine .node (x :: parts.map (·.2)) ?_ hn hn (Expr.fresh_of_extra hi rfl rfl hspan) ?_ ?_ ?_
  · have hspells : ∀ part ∈ parts.map fun part => (part.2.expr, part.2.all.map Token.lexeme),
        Spells n n part.1 part.2 := by
      rw [List.forall_mem_map]
      exact fun part hm => (hp part hm).2.1
    have := Spells.sequence (Info.bare_of_extra hi) hs hspells
    rw [List.map_map] at this
    rw [List.map_append, lexemes hcommas]
    exact this
  · simp
  · have : Interleaves ([] :: (parts.map (fun _ => [mark .comma]) ++ [[]]))
        (x.all :: parts.map (·.2.all))
        ([] ++ x.all ++ parts.flatMap fun part => part.1 :: part.2.all) :=
      .cons rfl (interleaves hcommas)
    simpa [Function.comp_def] using this
  · rw [List.forall_mem_cons, List.forall_mem_map]
    exact ⟨hx, fun part hm => (hp part hm).2.2⟩

end SitedItems

end ArithLang
