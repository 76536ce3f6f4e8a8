import ArithLang.Proofs.Expr.Moved
import ArithLang.Proofs.Expr.Unique
import ArithLang.Proofs.Parser.Placement

/-!
The text of a node, read by itself, is that node again. It may have been read at any depth and as an
operand of anything; the levels it took are there for it alone.
-/

namespace ArithLang

open LawfulCursor (Valid)
open TokenCursor (Passes current)

/-- What is spelled within some levels is spelled within more of them. A tree that holds together less
than a chain does has the same levels throughout. -/
theorem Spells.mono {m n m' n' : Nat} {e : Expr} {ls : List Lexeme} {strict : Bool}
    (h : Spells m n e ls) (hg : e.Grammatical strict) (hm : m ≤ m') (hn : n ≤ n')
    (hs : m' = n' ∨ e.standsInChain = true) : Spells m' n' e ls := by
  induction h generalizing m' n' with
  | number hi => exact .number hi
  | identifier hi => exact .identifier hi
  | member hi _ _ ih ih' =>
    obtain ⟨⟨-, hsub⟩, hc⟩ := Expr.every_iff.1 hg
    simp only [Expr.children, List.forall_mem_cons] at hc
    obtain ⟨k, rfl, hm'⟩ := Expr.exists_level hm
    have hchain := Expr.standsInChain_of_operand (Expr.standsUnderPrefix_of_subscript hsub)
    exact .member hi (ih hc.1 hm hn (.inr hchain)) (ih' hc.2.1 hm' hm' (.inl rfl))
  | @sequence i n first ts parts hi hf hp ih ih' =>
    obtain ⟨-, hc⟩ := Expr.every_iff.1 hg
    simp only [Expr.children, List.forall_mem_cons, List.forall_mem_map] at hc
    obtain rfl | hs := hs
    · exact .sequence hi (ih hc.1 hm hm (.inl rfl)) fun part hpart =>
        ih' part hpart (hc.2 part hpart) hm hm (.inl rfl)
    · cases hs.symm.trans (Expr.standsInChain_sequence.trans hi)
  | assignment hi _ _ ih ih' =>
    obtain ⟨-, hc⟩ := Expr.every_iff.1 hg
    simp only [Expr.children, List.forall_mem_cons] at hc
    obtain ⟨k, rfl, hm'⟩ := Expr.exists_level hm
    obtain rfl | hs := hs
    · exact .assignment hi (ih hc.1 hm hm (.inl rfl)) (ih' hc.2.1 hm' hm' (.inl rfl))
    · cases hs.symm.trans (Expr.standsInChain_assignment.trans hi)
  | conditional hi _ _ _ ih ih' ih'' =>
    obtain ⟨-, hc⟩ := Expr.every_iff.1 hg
    simp only [Expr.children, List.forall_mem_cons] at hc
    obtain ⟨k, rfl, hm'⟩ := Expr.exists_level hm
    obtain rfl | hs := hs
    · exact .conditional hi (ih hc.1 hm hm (.inl rfl)) (ih' hc.2.1 hm' hm' (.inl rfl))
        (ih'' hc.2.2.1 hm' hm' (.inl rfl))
    · cases hs.symm.trans (Expr.standsInChain_conditional.trans hi)
  | logical hi _ _ ih ih' =>
    obtain ⟨hstands, hc⟩ := Expr.every_iff.1 hg
    simp only [Expr.children, List.forall_mem_cons] at hc
    exact .logical hi (ih hc.1 hm hn (.inr hstands.1.chain)) (ih' hc.2.1 hn hn (.inl rfl))
  | binary hi hop _ _ ih ih' =>
    obtain ⟨hstands, hc⟩ := Expr.every_iff.1 hg
    simp only [Expr.children, List.forall_mem_cons] at hc
    exact .binary hi hop (ih hc.1 hm hn (.inr hstands.1.chain)) (ih' hc.2.1 hn hn (.inl rfl))
  | power hi _ _ ih ih' =>
    obtain ⟨hstands, hc⟩ := Expr.every_iff.1 hg
    simp only [Expr.children, List.forall_mem_cons] at hc
    obtain ⟨k, rfl, hn'⟩ := Expr.exists_level hn
    exact .power hi (ih hc.1 hm hn (.inr hstands.1.chain))
      (ih' hc.2.1 hn hn' (.inr hstands.2.chain))
  | unary hi _ ih =>
    obtain ⟨-, hc⟩ := Expr.every_iff.1 hg
    obtain ⟨k, rfl, hm'⟩ := Expr.exists_level hm
    exact .unary hi (ih (hc _ List.mem_cons_self) hm' hm' (.inl rfl))
  | prefixUpdate hi _ ih =>
    obtain ⟨-, hc⟩ := Expr.every_iff.1 hg
    obtain ⟨k, rfl, hm'⟩ := Expr.exists_level hm
    exact .prefixUpdate hi (ih (hc _ List.mem_cons_self) hm' hm' (.inl rfl))
  | postfixUpdate hi _ ih =>
    obtain ⟨hassign, hc⟩ := Expr.every_iff.1 hg
    have hchain := Expr.standsInChain_of_operand (Expr.standsUnderPrefix_of_assignable hassign)
    exact .postfixUpdate hi (ih (hc _ List.mem_cons_self) hm hn (.inr hchain))
  | parenthesized hi _ ih =>
    obtain ⟨k, rfl, hm'⟩ := Expr.exists_level hm
    exact .parenthesized hi (ih ((Expr.grammatical_withInfo _ _).1 hg) hm' hm' (.inl rfl))

/-- The text of a token that stands in a part of a text is the same in the part alone. -/
theorem Token.source_relativeTo {t : Token} {before part after : List Char}
    (h : t.StandsIn (before ++ part ++ after)) (hlt : t.start.offset < t.stop.offset)
    (hs : Text.byteLength before ≤ t.start.offset)
    (he : t.stop.offset ≤ Text.byteLength (before ++ part)) :
    (t.relativeTo (Text.endPosition before)).source part = t.source (before ++ part ++ after) := by
  obtain ⟨a, source, b, hinput, hstart, hstop⟩ := h.start.between h.stop (Nat.le_of_lt hlt)
  rw [hstart] at hs
  rw [hstop] at he
  obtain ⟨p, rfl⟩ := Text.isPrefix_of_byteLength_le (u := before ++ part ++ after)
    ⟨part ++ after, (List.append_assoc ..).symm⟩ ⟨source ++ b, by rw [hinput, List.append_assoc]⟩ hs
  obtain ⟨r, hr⟩ := Text.isPrefix_of_byteLength_le (u := before ++ part ++ after)
    ⟨b, hinput.symm⟩ ⟨after, rfl⟩ he
  obtain rfl : p ++ source ++ r = part := by
    rw [List.append_assoc, List.append_assoc, List.append_cancel_left_eq, ← List.append_assoc] at hr
    exact hr
  have hsource : Text.slice? (before ++ (p ++ source ++ r) ++ after) t.start.offset t.stop.offset =
      some source := by
    rw [hinput, hstart, hstop]
    exact Text.slice?_endPosition ..
  have hsource' : Text.slice? (p ++ source ++ r) (t.start.offset - Text.byteLength before)
      (t.stop.offset - Text.byteLength before) = some source := by
    rw [hstart, hstop, List.append_assoc before]
    change Text.slice? _ (Text.byteLength (before ++ p) - _) (Text.byteLength (before ++ _) - _) = _
    rw [Text.byteLength_append, Text.byteLength_append, Nat.add_sub_cancel_left,
      Nat.add_sub_cancel_left]
    exact Text.slice?_endPosition ..
  rw [Token.source, Token.source, hsource]
  exact congrArg (fun source => String.ofList (source.getD [])) hsource'

namespace Site

variable {x : Site} {P : Site → List Site → Prop} {ts : List Token}

/-- Every node of a tree has a site among the tokens of the tree. -/
theorem Every.nodes {input : List Char} (h : x.Every P)
    (hP : ∀ x parts, P x parts → x.Laid input parts) (hx : x.all <:+: ts) :
    x.expr.Every fun n => ∃ y : Site, y.expr = n ∧ y.all <:+: ts ∧ y.Every P := by
  induction h with
  | @intro x parts h hparts ih =>
    refine .intro ⟨x, rfl, hx, h, hparts⟩ ?_
    rw [(hP x parts h).children_eq, List.forall_mem_map]
    intro y hy
    exact ih y hy (((hP x parts h).parts_sub y hy).trans (x.own_sub.trans hx))

end Site

namespace Expr

variable {P Q : Expr → Prop} {e : Expr}

theorem Every.down (h : e.Every P) : e.Every fun n => n.Every P := by
  induction h with
  | intro h hc ih => exact ⟨⟨h, hc⟩, ih⟩

theorem Every.and (h : e.Every P) (h' : e.Every Q) : e.Every fun n => P n ∧ Q n := by
  induction h with
  | intro h _ ih =>
    obtain ⟨hq, hc⟩ := every_iff.1 h'
    exact ⟨⟨h, hq⟩, fun c hm => ih c hm (hc c hm)⟩

end Expr

namespace Parser

variable {input : List Char} {options : Options} {stream d : TokenStream} {ts : List Token} {e : Expr}

/-- A whole text that spells a tree is read as one of its shape, on all the tokens of the text. -/
theorem parseExpression_of_spells (ho : TokenStream.open? input options = .ok stream)
    (hp : Passes stream ts d) (hd : d.current.kind = .eof)
    (hw : Spells (maxNesting - 1) (maxNesting - 1) e (ts.map Token.lexeme))
    (hg : e.Grammatical options.context.strict) :
    ∃ x : Site, parseExpression input options = .ok x.expr ∧ x.expr.plain = e.plain ∧ x.all = ts ∧
      x.expr.Grammatical options.context.strict ∧ x.Every (Site.Laid input) := by
  have hs := TokenStream.standing_of_open? ho
  have hf : (ofCursor stream options.context).Faces (ts.map Token.lexeme) d := ⟨⟨ts, hp, rfl⟩, nofun⟩
  have hk : (current d).kind.endsExpression = true := by
    change d.current.kind.endsExpression = true
    rw [hd]
    rfl
  obtain ⟨t, q, hr, hparse⟩ := (hw.completes hg).expression rfl _ d rfl hf hk
  have hc : (ofCursor stream options.context).call .toEnd = (.ok t, q) :=
    (call_iff hs.genuine).2 ⟨hparse, fun _ => hr.kind_eq.trans hd⟩
  obtain ⟨x, rfl, hx, -, hread⟩ := call_sited hs hc
  rw [hr.cursor_eq] at hx
  refine ⟨x, parseExpression_eq_ok.2 ⟨stream, q, ho, hc⟩, hr.rebuilds.plain_eq, hx.unique hp hd hd,
    grammatical_of_call hs.genuine hc, hread.imp fun _ _ h => h.toLaid⟩

/-- What is read from the text of a node. -/
theorem parseExpression_of_site {y : Site} (ho : TokenStream.open? input options = .ok stream)
    (hp : Passes stream ts d) (hin : InOrder input ts) (hsub : y.all <:+: ts)
    (hy : y.Every (Site.Read input (maxNesting - 1)))
    (hg : y.expr.Grammatical options.context.strict) : ∃ text,
      Text.slice? input y.expr.span.start.offset y.expr.span.stop.offset = some text ∧
        parseExpression text options = .ok (y.expr.relativeTo y.expr.span.start).bare := by
  obtain ⟨parts, hread⟩ : ∃ parts, y.Read input (maxNesting - 1) parts := by
    cases hy with
    | intro h => exact ⟨_, h⟩
  have hown := hin.sub (y.own_sub.trans hsub)
  have hloc := hread.toLaid.located (hin.sub hsub)
  obtain ⟨hfirst, hlast⟩ := hread.span
  obtain ⟨before, part, after, rfl, hstart, hstop⟩ :=
    hloc.start_isIn.between hloc.stop_isIn (Nat.le_of_lt hloc.offset_lt)
  have hge := hown.start_le hfirst
  have hle := hown.le_stop hlast
  rw [hstart] at hfirst hge
  rw [hstop] at hlast hle
  refine ⟨part, ?_, ?_⟩
  · rw [hstart, hstop]
    exact Text.slice?_endPosition ..
  obtain ⟨us, vs, rfl⟩ := y.own_sub.trans hsub
  obtain ⟨_, hp, -⟩ := hp.split
  obtain ⟨s, hus, hp⟩ := hp.split
  obtain ⟨s', d', ho', hp', hd'⟩ :=
    TokenStream.open_cut ((TokenStream.scanned_of_open? ho).passes hus) hp hfirst hlast hle
  obtain ⟨m, n, hm, hn, hw⟩ := hread.spells
  have hg' : y.expr.bare.Grammatical options.context.strict := (Expr.grammatical_withInfo _ _).2 hg
  have hw' := hw.mono hg' hm hn (.inl rfl)
  obtain ⟨x, hparse, hplain, hall, hgx, hx⟩ := parseExpression_of_spells ho' hp' hd'
    (List.map_map.symm ▸ hw') hg'
  have hmoved : (y.relativeTo (Text.endPosition before)).bare.Every (Site.Laid part) := by
    refine ((hy.imp fun _ _ h => h.toLaid).relativeTo fun t ht => ?_).bare
    obtain ⟨ht', hlt⟩ := hown.standsIn t ht
    exact Token.source_relativeTo ht' hlt (hge t ht) (hle t ht)
  have heq : x.expr = (y.expr.relativeTo (Text.endPosition before)).bare := by
    refine hx.expr_eq hmoved hgx ?_ ?_
    · rw [hplain, Site.bare, Site.relativeTo, Expr.bare_relativeTo, Expr.plain_relativeTo]
    · rw [hall, Site.bare, Site.relativeTo, Site.all, List.nil_append, List.append_nil]
  rw [hparse, heq, hstart]

/-- Every node of a tree is read from its own text as it is in the tree: with the same notes at every
node below, at positions as counted from where it starts, and without the parentheses around it. -/
theorem parseExpression_slice {t : Expr} (h : parseExpression input options = .ok t) :
    t.Every fun n => ∃ text,
      Text.slice? input n.span.start.offset n.span.stop.offset = some text ∧
        parseExpression text options = .ok (n.relativeTo n.span.start).bare := by
  obtain ⟨stream, q, ho, hc⟩ := parseExpression_eq_ok.1 h
  have hs := TokenStream.standing_of_open? ho
  obtain ⟨x, rfl, hp, hin, hx⟩ := call_sited hs hc
  have hg := grammatical_of_call hs.genuine hc
  have hnodes := hx.nodes (fun _ _ h => h.toLaid) (List.infix_refl _)
  refine (hnodes.and hg.down).imp ?_
  rintro _ ⟨⟨y, rfl, hsub, hy⟩, hg⟩
  exact parseExpression_of_site ho hp hin hsub hy hg

/-- The sum stands on the second line, in parentheses of its own. -/
theorem parseExpression_slice_sum : ∃ t, ∃ n ∈ t.children,
    parseExpression "a =\n (b + c)".toList {} = .ok t ∧
      n.span = ⟨⟨6, 2, 2⟩, ⟨11, 2, 7⟩⟩ ∧ n.isParenthesized = true ∧
        parseExpression "b + c".toList {} = .ok (n.relativeTo ⟨6, 2, 2⟩).bare := by
  have hok : (match parseExpression "a =\n (b + c)".toList {} with
      | .ok (.assignment _ _ n _) => n.span == ⟨⟨6, 2, 2⟩, ⟨11, 2, 7⟩⟩ && n.isParenthesized
      | _ => false) = true := by
    decide +kernel
  split at hok
  · next op l n i heq =>
    obtain ⟨hspan, hparen⟩ := (Bool.and_eq_true _ _).mp hok
    have hspan := eq_of_beq hspan
    have hm : n ∈ (Expr.assignment op l n i).children := by simp
    obtain ⟨-, hc⟩ := Expr.every_iff.1 (parseExpression_slice heq)
    obtain ⟨⟨text, hs, hp⟩, -⟩ := Expr.every_iff.1 (hc n hm)
    rw [hspan] at hs hp
    have htext : Text.slice? "a =\n (b + c)".toList 6 11 = some "b + c".toList := by decide +kernel
    cases htext.symm.trans hs
    exact ⟨_, n, hm, heq, hspan, hparen, hp⟩
  · cases hok

end Parser

end ArithLang
