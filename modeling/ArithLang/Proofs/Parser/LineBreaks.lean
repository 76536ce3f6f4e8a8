import ArithLang.Proofs.Lockstep.Answers
import ArithLang.Proofs.Parser.Onset
import ArithLang.Proofs.Parser.Placement

/-!
Where a line break ends an expression. If the surrounding grammar has terminators, `++` and `--` are
postfix operators only on the line of the token before them; and that is all that terminators do.
-/

namespace ArithLang

namespace Text

variable {cs gap t : List Char} {start stop n : Nat}

theorem suffix_of_from? (h : from? cs n = some t) : t <:+ cs := by
  fun_induction from? cs n with
  | case1 => cases h; exact List.suffix_refl _
  | case2 | case4 => cases h
  | case3 c cs _ _ ih => exact (ih h).trans (List.suffix_cons c cs)

theorem infix_of_slice? (h : slice? cs start stop = some gap) : gap <:+: cs := by
  unfold slice? at h
  split at h
  · obtain ⟨t, ht, hgap⟩ := Option.bind_eq_some_iff.1 h
    obtain ⟨u, rfl, -⟩ := upTo?_eq_some.1 hgap
    exact (List.prefix_append gap u).isInfix.trans (suffix_of_from? ht).isInfix
  · cases h

end Text

/-- The text between two tokens, with the comments in it. -/
def Token.between? (input : List Char) (t u : Token) : Option (List Char) :=
  Text.slice? input t.stop.offset u.start.offset

theorem TokenCursor.Passes.exists_last {C : Type} [TokenCursor C] {c c' : C} {ts : List Token}
    (h : Passes c ts c') (hn : ts ≠ []) :
    ∃ us d, ts = us ++ [current d] ∧ Passes c us d ∧ advance d = (.ok (), c') := by
  obtain ⟨us, t, rfl⟩ : ∃ us t, ts = us ++ [t] := ⟨_, _, (List.dropLast_concat_getLast hn).symm⟩
  obtain ⟨d, hd, hlast⟩ := h.split
  cases hlast with
  | step _ ha hnil =>
    cases hnil
    exact ⟨us, d, rfl, hd, ha⟩

/-- After a move the cursor tells whether the text between the two tokens holds a line break. -/
theorem TokenStream.Standing.between {input : List Char} {s s' : TokenStream}
    (h : s.Standing input) (ha : TokenCursor.advance s = (.ok (), s')) :
    ∃ gap, s.current.between? input s'.current = some gap ∧
      TokenCursor.hasLineBreakBefore s' = Text.containsLineBreak gap := by
  have h' := h.advance_ok ha
  obtain ⟨a, gap, b, hi, hstop, hstart⟩ :=
    h.current.stop.between h'.current.start (h.stop_le_start ha)
  have hgap : s.current.between? input s'.current = some gap := by
    rw [Token.between?, hi, hstop, hstart]
    exact Text.slice?_endPosition a gap b
  refine ⟨gap, hgap, ?_⟩
  rw [TokenCursor.hasLineBreakBefore, h.lastStop_eq ha, show TokenCursor.input s' = input from h'.input_eq]
  exact congrArg (Option.any Text.containsLineBreak) hgap

namespace Expr

/-- A postfix operator is among the tokens, with no line break between it and the token before it. -/
def Attached (input : List Char) (ts : List Token) : Expr → Prop
  | update op false _ i => ∃ us t u vs gap, ts = us ++ t :: u :: vs ∧ u.lexeme = op.lexeme ∧
      u.stop = i.span.stop ∧ t.between? input u = some gap ∧ Text.containsLineBreak gap = false
  | _ => True

variable {input : List Char} {ts us : List Token} {e : Expr}

theorem Attached.mono (h : e.Attached input ts) (hsub : ts <:+: us) : e.Attached input us := by
  obtain ⟨xs, ys, rfl⟩ := hsub
  match e, h with
  | update op false a i, ⟨vs, t, u, ws, gap, hts, hu⟩ =>
    exact ⟨xs ++ vs, t, u, ws ++ ys, gap, by simp [hts], hu⟩
  | update op true a i, _ => trivial
  | number .., _ | identifier .., _ | member .., _ | sequence .., _ | assignment .., _
  | conditional .., _ | logical .., _ | binary .., _ | unary .., _ => trivial

/-- Every postfix operator of a tree is attached to the token before it. -/
abbrev AllAttached (input : List Char) (ts : List Token) (e : Expr) : Prop :=
  e.Every (Attached input ts)

theorem AllAttached.append (h : e.AllAttached input ts) (us : List Token) :
    e.AllAttached input (ts ++ us) :=
  h.imp fun _ hn => hn.mono (List.prefix_append ts us).isInfix

theorem AllAttached.prepend (h : e.AllAttached input ts) (us : List Token) :
    e.AllAttached input (us ++ ts) :=
  h.imp fun _ hn => hn.mono (List.suffix_append us ts).isInfix

theorem AllAttached.parenthesize (h : e.AllAttached input ts) (offset : Nat) :
    (e.parenthesize offset).AllAttached input ts := by
  obtain ⟨hn, hc⟩ := h
  refine ⟨?_, (children_withInfo _ e).symm ▸ hc⟩
  cases e with
  | update op isPrefix => cases isPrefix <;> exact hn
  | _ => trivial

theorem AllAttached.node {C : Type} [TokenCursor C] {p : Parser C} {l r : Expr} {i : Info}
    {node : Expr → Expr → Info → Expr} (hop : p.node? = some node) (hl : l.AllAttached input ts)
    (hr : r.AllAttached input ts) : (node l r i).AllAttached input ts := by
  obtain ⟨op, -, rfl⟩ | ⟨op, -, rfl⟩ := Parser.node?_eq_some hop
  all_goals
    refine ⟨trivial, ?_⟩
    rw [children, List.forall_mem_cons, List.forall_mem_singleton]
    exact ⟨hl, hr⟩

end Expr

open ArithLang.Parser (kind_ne isPostfix_of_atPostfix)
open ArithLang.Expr (AllAttached)

/-- What a reading of these tokens makes of the postfix operators among them. -/
def Goal.Attaches (input : List Char) (ts : List Token) (e : Expr) : Goal → Prop
  | .climb _ _ left | .tail _ left =>
    ∀ us, left.AllAttached input us → e.AllAttached input (us ++ ts)
  | .items _ before =>
    ∀ us, (∀ item ∈ before, item.AllAttached input us) → e.AllAttached input (us ++ ts)
  | _ => ts ≠ [] ∧ e.AllAttached input ts

variable {input : List Char}

namespace Parser

variable {p q : Parser TokenStream} {ts : List Token} {e : Expr}

/-- With terminators, a postfix operator is one on the line of the token before it. -/
theorem exists_between (hs : p.cursor.Standing input) (hx : p.context.statementTerminators = true)
    (hr : p.Reads ts q) (hn : ts ≠ []) (ha : q.atPostfix = true) :
    ∃ us t gap, ts = us ++ [t] ∧ t.between? input q.token = some gap ∧
      Text.containsLineBreak gap = false := by
  obtain ⟨us, d, rfl, hd, hm⟩ := hr.passes.exists_last hn
  obtain ⟨gap, hgap, hb⟩ := (hs.passes hd).between hm
  refine ⟨us, _, gap, rfl, hgap, ?_⟩
  rw [atPostfix, mayEndStatement, hr.context_eq, hx, hb] at ha
  simp_all

end Parser

theorem Parses.attaches {n : Nat} {goal : Goal} {p q : Parser TokenStream} {e : Expr}
    (h : Parses n goal p e q) (hs : p.cursor.Standing input)
    (hx : p.context.statementTerminators = true) :
    ∃ ts, p.Reads ts q ∧ goal.Attaches input ts e := by
  induction h with
  | number hk _ hm | identifier hk hm =>
    exact ⟨_, hm.reads (kind_ne (f := id) hk nofun), List.cons_ne_nil _ _, trivial, nofun⟩
  | parenthesized hk hm _ hk' hm' ih =>
    have opened := hm.reads (kind_ne (f := id) hk nofun)
    have closed := hm'.reads (kind_ne (f := id) hk' nofun)
    obtain ⟨ts, hr, -, he⟩ := ih (hm.standing hs) (opened.context_eq ▸ hx)
    refine ⟨_, opened.trans (hr.trans closed), List.cons_ne_nil _ _, ?_⟩
    exact ((he.parenthesize _).append _).prepend _
  | tailEnd => exact ⟨[], .refl _, fun us h => by rwa [List.append_nil]⟩
  | tailMore hk hm _ hk' hm' _ ih ih' =>
    have opened := hm.reads (kind_ne (f := id) hk nofun)
    obtain ⟨ts, hr, -, he⟩ := ih (hm.standing hs) (opened.context_eq ▸ hx)
    have closed := hm'.reads (kind_ne (f := id) hk' nofun)
    have before := opened.trans (hr.trans closed)
    obtain ⟨us, hr', hmore⟩ := ih' (before.standing hs) (before.context_eq ▸ hx)
    refine ⟨_, before.trans hr', fun vs hb => ?_⟩
    rw [← List.append_assoc]
    refine hmore _ ⟨trivial, ?_⟩
    rw [Expr.children, List.forall_mem_cons, List.forall_mem_singleton]
    exact ⟨hb.append _, ((he.append _).prepend _).prepend _⟩
  | subscripts _ _ _ ih ih' =>
    obtain ⟨ts, hr, hn, he⟩ := ih hs hx
    obtain ⟨us, hr', hmore⟩ := ih' (hr.standing hs) (hr.context_eq ▸ hx)
    exact ⟨_, hr.trans hr', by simp [hn], hmore _ he⟩
  | plain _ _ ih | operand _ _ ih | unconditional _ _ ih | single _ _ ih => exact ih hs hx
  | postfixUpdate _ ha _ hop hm _ ih =>
    obtain ⟨ts, hr, hn, he⟩ := ih hs hx
    have passed := hm.reads (kind_ne (isPostfix_of_atPostfix ha) nofun)
    refine ⟨_, hr.trans passed, by simp, ?_, ?_⟩
    · obtain ⟨us, t, gap, rfl, hgap, hb⟩ := Parser.exists_between hs hx hr hn ha
      have hk := isPostfix_of_atPostfix ha
      have hs' := hr.standing hs
      refine ⟨us, t, _, [], gap, List.append_assoc .., ?_, (hs'.lastStop_eq hm.advance_eq).symm, hgap, hb⟩
      exact UpdateOp.lexeme_of_ofText? hs'.genuine (kind_ne hk nofun) hop
    · rw [Expr.children, List.forall_mem_singleton]
      exact he.append _
  | prefixUpdate hk _ hm _ _ ih =>
    have passed := hm.reads (kind_ne (f := id) hk nofun)
    obtain ⟨ts, hr, -, he⟩ := ih (hm.standing hs) (passed.context_eq ▸ hx)
    refine ⟨_, passed.trans hr, List.cons_ne_nil _ _, trivial, ?_⟩
    rw [Expr.children, List.forall_mem_singleton]
    exact he.prepend _
  | prefixUnary hk _ _ hm _ _ ih =>
    have passed := hm.reads (kind_ne hk nofun)
    obtain ⟨ts, hr, -, he⟩ := ih (hm.standing hs) (passed.context_eq ▸ hx)
    refine ⟨_, passed.trans hr, List.cons_ne_nil _ _, trivial, ?_⟩
    rw [Expr.children, List.forall_mem_singleton]
    exact he.prepend _
  | climbEnd => exact ⟨[], .refl _, fun us h => by rwa [List.append_nil]⟩
  | climbLeft hop _ hm _ _ _ ih ih' ih'' | climbRight hop _ hm _ _ _ ih ih' ih'' =>
    have passed := hm.reads (kind_ne hop.strength_eq nofun)
    obtain ⟨ts, hr, -, hfirst⟩ := ih (hm.standing hs) (passed.context_eq ▸ hx)
    have before := passed.trans hr
    obtain ⟨us, hr', hright⟩ := ih' (before.standing hs) (before.context_eq ▸ hx)
    have before := before.trans hr'
    obtain ⟨vs, hr'', hrest⟩ := ih'' (before.standing hs) (before.context_eq ▸ hx)
    refine ⟨_, before.trans hr'', fun ws hl => ?_⟩
    rw [← List.append_assoc]
    exact hrest _ (.node hop.node_eq (hl.append _)
      ((hright _ (hfirst.prepend _)).prepend _))
  | chain _ _ ih ih' =>
    obtain ⟨ts, hr, hn, hfirst⟩ := ih hs hx
    obtain ⟨us, hr', hrest⟩ := ih' (hr.standing hs) (hr.context_eq ▸ hx)
    exact ⟨_, hr.trans hr', by simp [hn], hrest _ hfirst⟩
  | conditional _ hk hm _ hk' hm' _ ih ih' ih'' =>
    obtain ⟨ts, hr, hn, htest⟩ := ih hs hx
    have before := hr.trans (hm.reads (kind_ne (f := id) hk nofun))
    obtain ⟨us, hr', -, hconsequent⟩ := ih' (before.standing hs) (before.context_eq ▸ hx)
    have before := before.trans (hr'.trans (hm'.reads (kind_ne (f := id) hk' nofun)))
    obtain ⟨vs, hr'', -, halternate⟩ := ih'' (before.standing hs) (before.context_eq ▸ hx)
    refine ⟨_, before.trans hr'', by simp, trivial, ?_⟩
    simp only [Expr.children, List.forall_mem_cons]
    exact ⟨((htest.append _).append _).append _, ((hconsequent.append _).prepend _).append _,
      halternate.prepend _, nofun⟩
  | @unassigned _ _ _ p _ _ _ ih =>
    obtain ⟨ts, hr, he⟩ := ih (Parser.marked_standing hs) (p.marked_context.symm ▸ hx)
    exact ⟨ts, hr.of_marked, he⟩
  | @assignment _ _ _ _ _ _ _ p _ _ hk _ _ hm _ ih ih' =>
    obtain ⟨ts, hr, hn, hleft⟩ := ih (Parser.marked_standing hs) (p.marked_context.symm ▸ hx)
    have before := hr.of_marked.trans (hm.reads (kind_ne hk nofun))
    obtain ⟨us, hr', -, hright⟩ := ih' (before.standing hs) (before.context_eq ▸ hx)
    refine ⟨_, before.trans hr', by simp, trivial, ?_⟩
    rw [Expr.children, List.forall_mem_cons, List.forall_mem_singleton]
    exact ⟨(hleft.append _).append _, hright.prepend _⟩
  | sequence _ _ _ ih ih' =>
    obtain ⟨ts, hr, hn, hfirst⟩ := ih hs hx
    obtain ⟨us, hr', hrest⟩ := ih' (hr.standing hs) (hr.context_eq ▸ hx)
    refine ⟨_, hr.trans hr', by simp [hn], hrest _ ?_⟩
    simpa using hfirst
  | itemsEnd => exact ⟨[], .refl _, fun us h => by rw [List.append_nil]; exact ⟨trivial, h⟩⟩
  | itemsMore hk hm _ _ ih ih' =>
    have passed := hm.reads (kind_ne (f := id) hk nofun)
    obtain ⟨ts, hr, -, hitem⟩ := ih (hm.standing hs) (passed.context_eq ▸ hx)
    have before := passed.trans hr
    obtain ⟨us, hr', hrest⟩ := ih' (before.standing hs) (before.context_eq ▸ hx)
    refine ⟨_, before.trans hr', fun vs hb => ?_⟩
    rw [← List.append_assoc]
    refine hrest _ fun item hm => ?_
    obtain hm | hm := List.mem_append.1 hm
    · exact (hb item hm).append _
    · rw [List.mem_singleton.1 hm]
      exact (hitem.prepend _).prepend _

/-- No `++` or `--` among these results of a scanner has a line break between it and the token before
it. -/
def Unbroken (input : List Char) (rs : List (Except LexError Token)) : Prop :=
  ∀ us t u vs, rs = us ++ .ok t :: .ok u :: vs → u.kind = .incDec →
    ∀ gap, t.between? input u = some gap → Text.containsLineBreak gap = false

/-- In a text of one line no token stands after a line break. -/
theorem unbroken_of_line (h : Text.containsLineBreak input = false)
    (rs : List (Except LexError Token)) : Unbroken input rs := by
  intro us t u vs _ _ gap hgap
  obtain ⟨a, b, rfl⟩ := Text.infix_of_slice? hgap
  rw [Text.containsLineBreak_append, Text.containsLineBreak_append] at h
  simp_all

theorem Unbroken.tail {r : Except LexError Token} {rs : List (Except LexError Token)}
    (h : Unbroken input (r :: rs)) : Unbroken input rs :=
  fun us t u vs heq => h (r :: us) t u vs (congrArg (r :: ·) heq)

namespace TokenStream

variable {s s' : TokenStream} {rs : List (Except LexError Token)}

/-- From the current token on no `++` or `--` stands after a line break. -/
structure Smooth (input : List Char) (s : TokenStream) : Prop where
  standing : s.Standing input
  unbroken : s.current.kind.isPostfix = true → TokenCursor.hasLineBreakBefore s = false
  ahead : ∃ rs, s.Ahead rs ∧ Unbroken input (.ok s.current :: rs)

theorem Smooth.advance_ok (h : s.Smooth input) (hk : s.current.kind ≠ .eof)
    (ha : TokenCursor.advance s = (.ok (), s')) : s'.Smooth input := by
  obtain ⟨hs, -, rs, hahead, hu⟩ := h
  obtain ⟨rs', rfl, hahead'⟩ := hahead.advance_ok hk ha
  refine ⟨hs.advance_ok ha, fun hk' => ?_, rs', hahead', hu.tail⟩
  obtain ⟨gap, hgap, hb⟩ := hs.between ha
  rw [hb]
  refine hu [] _ _ rs' rfl ?_ gap hgap
  revert hk'
  cases s'.current.kind <;> decide

theorem Smooth.mayEndStatement_eq {p : Parser TokenStream} (h : p.cursor.Smooth input)
    (hk : p.kind.isPostfix = true) : p.mayEndStatement = false := by
  rw [Parser.mayEndStatement, h.unbroken hk]
  revert hk
  cases p.kind <;> simp [Kind.isPostfix]

/-- The stream as if it had been opened at its current token. -/
def afresh (s : TokenStream) : TokenStream :=
  { s with scanner.state.lastStop := s.current.start }

theorem sameAhead_afresh (s : TokenStream) : TokenCursor.SameAhead s s.afresh :=
  ⟨rfl, rfl, rfl⟩

theorem Standing.afresh (h : s.Standing input) : s.afresh.Standing input :=
  ⟨h.genuine, h.input_eq, ⟨h.located.passed, h.located.start, h.located.stop, h.current.start⟩,
    h.current, h.stop_eq, h.stop_le⟩

theorem Ahead.afresh (h : s.Ahead rs) : s.afresh.Ahead rs := by
  obtain ⟨he, hnil, hy⟩ := h
  refine ⟨he, hnil, fun hk => ?_⟩
  have hnext : s.afresh.scanner.next? = s.scanner.next? :=
    (Scanner.next?_of_next (s := s.afresh.scanner) he rfl).trans
      (Scanner.next?_of_next (s := s.scanner) he rfl).symm
  cases hy hk with
  | done hn => exact absurd ((Scanner.next?_of_next he rfl).symm.trans hn) nofun
  | more hn hrest => exact .more (hnext.trans hn) hrest

theorem Smooth.afresh (hs : s.Standing input) (h : s.Ahead rs)
    (hu : Unbroken input (.ok s.current :: rs)) : s.afresh.Smooth input := by
  refine ⟨hs.afresh, fun _ => ?_, rs, h.afresh, hu⟩
  obtain ⟨a, b, hi, hstart⟩ := Position.isIn_iff.1 hs.current.start
  have hgap : Text.slice? s.scanner.input s.current.start.offset s.current.start.offset =
      some [] := by
    rw [hs.input_eq, hi, hstart]
    simpa using Text.slice?_endPosition a [] b
  exact congrArg (Option.any Text.containsLineBreak) hgap

end TokenStream

/-- Two parsers of one stream whose contexts may differ in whether statements have terminators. -/
def Lockstep.terminated (input : List Char) : Lockstep TokenStream TokenStream where
  layout := .same
  cursor s s' := s.Smooth input ∧ s = s'
  stuck _ _ := True
  lexical e e' := e = e'
  context x y := x.strict = y.strict ∧ x.inGenerator = y.inGenerator
  fuel _ _ n n' := n = n'
  excused _ := False
  kind_eq h := by rw [h.2]
  value_eq h := by rw [h.2]
  start h := by rw [h.2]; rfl
  stop h := by rw [h.2]; rfl
  raw {p p'} h _ := by
    change p.raw = p'.raw
    rw [Parser.raw, Parser.raw, Parser.token, Parser.token, h.2]
  offsets_eq := Layout.Offsets.eq_iff
  advance_ok {s d s'} h hk ha := by
    obtain ⟨h, rfl⟩ := h
    exact ⟨d, ha, ⟨h.advance_ok hk ha, rfl⟩, fun n n' => ⟨id, Nat.succ.inj⟩⟩
  advance_error {s d s' e} h _ ha := by
    obtain ⟨-, rfl⟩ := h
    exact ⟨e, d, ha, rfl, trivial⟩
  fuel_remaining h := by rw [h.2]
  fuel_zero _ hf _ := by rw [hf]
  inGenerator_eq h := h.2
  strict_eq h := .inl h.1
  postfix_eq h _ hk := by
    rw [h.1.mayEndStatement_eq hk, TokenStream.Smooth.mayEndStatement_eq (h.2 ▸ h.1)]
    exact (congrArg (fun s => s.current.kind.isPostfix) h.2).symm.trans hk

namespace Parser

/-- Terminators cut an expression only where `++` or `--` stands after a line break. With them every
postfix operator of a tree stands on the line of the token before it; and where no `++` or `--` of a
text stands after a line break, all calls answer with them as without, up to the first that fails for
want of a token. -/
theorem terminators_cut_lines (input : List Char) (options : Options) (context : Context) :
    (∀ stream before c e q, TokenStream.open? input options = .ok stream →
      context.statementTerminators = true →
      ((ofCursor stream context).after before).call c = (.ok e, q) →
        ∃ ts, TokenCursor.Passes ((ofCursor stream context).after before).cursor ts q.cursor ∧
          e.Every (Expr.Attached input ts)) ∧
    ∀ rs, (Scanner.start input options).Yields rs → Unbroken input rs → ∀ calls,
      (TokenStream.open? input options).map (fun stream =>
        (ofCursor stream { context with statementTerminators := true }).answers calls) =
      (TokenStream.open? input options).map (fun stream =>
        (ofCursor stream { context with statementTerminators := false }).answers calls) := by
  refine ⟨fun stream before c e q ho hx h => ?_, fun rs hy hu calls => ?_⟩
  · have hv := TokenStream.valid_of_open? ho
    have hs := standing_after (p := ofCursor stream context) (TokenStream.standing_of_open? ho) before
    obtain ⟨hp, -⟩ := (call_iff hs.genuine).1 h
    have hx' := context_after (p := ofCursor stream context) hv before
    obtain ⟨ts, hr, -, he⟩ := hp.attaches hs (hx' ▸ hx)
    exact ⟨ts, hr.passes, he⟩
  · cases ho : TokenStream.open? input options with
    | error => rfl
    | ok stream =>
      obtain ⟨rs, rfl, ha⟩ := TokenStream.ahead_of_open? ho hy
      have hs := TokenStream.standing_of_open? ho
      have same (x : Context) : (ofCursor stream x).SameAhead (ofCursor stream.afresh x) :=
        ⟨stream.sameAhead_afresh, rfl, rfl⟩
      have exact : (Lockstep.terminated input).Exact := ⟨rfl, id, id⟩
      refine congrArg Except.ok ?_
      dsimp only
      rw [(same _).answers_eq, (same _).answers_eq]
      refine exact.answers_eq ?_ calls
      exact ⟨⟨.afresh hs ha hu, rfl⟩, ⟨rfl, rfl⟩, Layout.optionRel_same _⟩

theorem terminators_cut_lines_update : ∃ stream e q ts,
    TokenStream.open? "a ++ * b".toList {} = .ok stream ∧
      (ofCursor stream { statementTerminators := true }).call .toEnd = (.ok e, q) ∧
      TokenCursor.Passes stream ts q.cursor ∧
      e.Every (Expr.Attached "a ++ * b".toList ts) ∧
      (ofCursor stream { statementTerminators := true }).answers [.toEnd] =
        (ofCursor stream {}).answers [.toEnd] := by
  have hok : (TokenStream.open? "a ++ * b".toList {}).toOption.any (fun stream =>
      ((ofCursor stream { statementTerminators := true }).call .toEnd).1.isOk) = true := by
    decide +kernel
  obtain ⟨stream, ho, hok⟩ := TokenStream.exists_of_any hok
  obtain ⟨e, q, hc⟩ := exists_call_of_isOk hok
  obtain ⟨hattached, hsame⟩ := terminators_cut_lines "a ++ * b".toList {}
    { statementTerminators := true }
  obtain ⟨ts, hp, he⟩ := hattached stream [] .toEnd e q ho rfl hc
  obtain ⟨rs, hy, -⟩ := Scanner.exists_yields (Scanner.start "a ++ * b".toList {}) rfl
  have hsame := hsame rs hy (unbroken_of_line (by decide) rs) [.toEnd]
  rw [ho] at hsame
  exact ⟨stream, e, q, ts, ho, hc, hp, he, Except.ok.inj hsame⟩

end Parser

end ArithLang
