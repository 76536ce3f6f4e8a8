import ArithLang.Proofs.Parser.Recorded
import ArithLang.Proofs.Parser.Strict
import ArithLang.Proofs.Scanner.Options

/-!
Options only refuse. The tokens of an expression are the same under all options that accept it, for no
two colons meet in a spelling; and a parser that is strict answers as one that is not, or refuses to
delete a name.
-/

namespace ArithLang

open Lexeme (mark)

namespace Lockstep

variable {C : Type} [TokenCursor C]

/-- A parser beside one at the same cursor that is no stricter. -/
def stricter : Lockstep C C :=
  { keeping (fun _ => True) {} (fun _ _ _ _ _ => trivial) with
    context := fun x y => x = { y with strict := x.strict } ∧ (y.strict = true → x.strict = true)
    excused := fun e => ∃ offset, e = .fault .deleteOfName offset
    inGenerator_eq := fun h => by rw [h.1]
    strict_eq := fun {x y} h => by
      cases hy : y.strict with
      | true => exact .inl (h.2 hy)
      | false => exact .inr ⟨rfl, fun offset => ⟨offset, rfl⟩⟩
    postfix_eq := fun {p p'} hc hx _ => by
      have ht : p.context.statementTerminators = p'.context.statementTerminators := by rw [hx.1]
      rw [Parser.mayEndStatement, Parser.mayEndStatement, Parser.kind, Parser.kind, Parser.token,
        Parser.token, hc.2, ht] }

end Lockstep

namespace Parser

variable {C : Type} [TokenCursor C] {p : Parser C} {x y : Context}

/-- A call in a stricter context answers the same, or refuses to delete a name. -/
theorem call_stricter (c : C) (hx : x = { y with strict := x.strict })
    (hs : y.strict = true → x.strict = true) (call : Call) :
    ((ofCursor c x).call call).1 = ((ofCursor c y).call call).1 ∨
      ∃ offset, ((ofCursor c x).call call).1 = .error (.fault .deleteOfName offset) := by
  have start : Lockstep.stricter.Parsers Lockstep.stricter.cursor (ofCursor c x) (ofCursor c y) :=
    ⟨⟨trivial, rfl⟩, ⟨hx, hs⟩, .none⟩
  have ends := Lockstep.call start call
  rw [Parser.call, Parser.call, run, run]
  generalize call.step.run (ofCursor c x) = r at ends
  generalize call.step.run (ofCursor c y) = r' at ends
  cases ends with
  | ok he => exact .inl (congrArg Except.ok he.eq)
  | fault ho =>
    cases ho.eq
    exact .inl rfl
  | lexical he =>
    cases he
    exact .inl rfl
  | excused he =>
    obtain ⟨offset, rfl⟩ := he
    exact .inr ⟨offset, rfl⟩

/-- A call that answers a tree in which no name is deleted answers it strictly too. Where names are
deleted, the strict call refuses one of them. -/
theorem call_strictly [LawfulCursor C] {q : Parser C} {t : Expr} (hv : LawfulCursor.Valid p.cursor)
    {c : Call} (h : p.call c = (.ok t, q)) :
    (p.strictly.call c).1 = .ok t ∧ (∀ offset, ¬ t.DeletesNameAt offset) ∨
      ∃ offset, t.DeletesNameAt offset ∧
        (p.strictly.call c).1 = .error (.fault .deleteOfName offset) := by
  obtain ⟨hp, hk⟩ := (call_iff hv).1 h
  have ends : StrictlyEnds t.DeletesNameAt t q (expression.run p.strictly) := hp.readsStrictly.ends hv
  have ends : StrictlyEnds t.DeletesNameAt t q (c.step.run p.strictly) := by
    cases c with
    | expression => exact ends
    | toEnd =>
      rw [Call.step, expressionToEnd]
      refine ends.bind (fun _ => id) ?_
      rw [Step.run_looksAt_bind, strictly_kind, if_pos (by simp [hk])]
      exact .same
  generalize hr : c.step.run p.strictly = r at ends
  cases ends with
  | same =>
    have hc : p.strictly.call c = (.ok t, q.strictly) := call_eq_ok.2 hr
    have hg : t.Grammatical true := grammatical_of_call (p := p.strictly) hv hc
    exact .inl ⟨congrArg Prod.fst hc, fun _ hd => hd.not_grammatical hg⟩
  | refused hd =>
    rw [call, run, hr]
    exact .inr ⟨_, hd, rfl⟩

/-- Reads to the end from where the tokens begin, if they do. -/
def readFrom (opened : Except LexError C) (context : Context) : Except SyntaxError Expr :=
  match opened with
  | .ok c => ((ofCursor c context).call .toEnd).1
  | .error e => .error (.lexical e)

theorem parseExpression_eq_readFrom (input : List Char) (o : Options) :
    parseExpression input o = readFrom (TokenStream.open? input o) o.context := by
  unfold parseExpression ofText? readFrom
  cases TokenStream.open? input o <;> rfl

theorem readFrom_stricter (opened : Except LexError C) (hx : x = { y with strict := x.strict })
    (hs : y.strict = true → x.strict = true) : readFrom opened x = readFrom opened y ∨
      ∃ offset, readFrom opened x = .error (.fault .deleteOfName offset) := by
  cases opened with
  | ok c => exact call_stricter c hx hs .toEnd
  | error e => exact .inl rfl

section

variable {input : List Char} {o o' : Options} {rs : List (Except LexError Token)} {t : Expr}

theorem readFrom_recorded (hy : (Scanner.start input o).Yields rs) (x : Context) :
    readFrom (TokenStream.open? input o) x = readFrom (TokenList.open? input rs) x := by
  cases hs : TokenStream.open? input o with
  | error e =>
    rw [hy.unique (TokenStream.yields_of_open? hs)]
    rfl
  | ok s =>
    obtain ⟨l, hl, hp⟩ := parsers_of_open? hs hy x
    rw [hl]
    obtain ⟨e, he, he', -⟩ | ⟨heq, -⟩ := call_recorded hp .toEnd
    · exact he.trans he'.symm
    · exact heq

/-- What options do to an expression, they do to its tokens or by strictness. -/
theorem parseExpression_of_yields (h : (Scanner.start input o).Yields rs)
    (h' : (Scanner.start input o').Yields rs) :
    parseExpression input o' = readFrom (TokenStream.open? input o) o'.context := by
  rw [parseExpression_eq_readFrom, readFrom_recorded h, readFrom_recorded h']

/-- In the tokens of an expression no two colons meet. -/
theorem yields_of_parseExpression (h : parseExpression input o = .ok t) :
    ∃ ts : List Token, (Scanner.start input o).Yields (ts.map .ok) ∧
      (ts.map Token.lexeme ++ [mark .colon]).IsChain Lexeme.Apart := by
  obtain ⟨s, q, hs, hc⟩ := parseExpression_eq_ok.1 h
  have hv := TokenStream.valid_of_open? hs
  obtain ⟨hp, hk⟩ := (call_iff hv).1 hc
  obtain ⟨_, ⟨ts, hr, rfl⟩, k, -, hw⟩ := hp.sound ⟨hv, rfl⟩
  have hk : q.token.kind = .eof := hk rfl
  refine ⟨_, yields_of_passes hs hr.passes hk, ?_⟩
  have hu : q.token.lexeme.Uncoloned := by
    rw [Lexeme.Uncoloned, Token.lexeme, hk]
    exact ⟨nofun, nofun⟩
  have hl := (hw.spells.colonsApart.concat hu).tail
  rw [List.map_append]
  exact hl

/-- What is an expression under some options is the same one under fewer, whatever the plugins. -/
theorem parseExpression_fewer (h : parseExpression input o = .ok t)
    (hm : o'.moduleCode = true → o.moduleCode = true) (hs : o'.strict = true → o.strict = true) :
    parseExpression input o' = .ok t := by
  obtain ⟨ts, hy, hc⟩ := yields_of_parseExpression h
  have hy' : (Scanner.start input o').Yields (ts.map .ok) := hy.of_apart hc hm
  have heq := parseExpression_of_yields hy hy'
  have hx : o'.context.strict = true → o.context.strict = true := by
    simp only [Options.context, Bool.or_eq_true]
    exact Or.imp hs hm
  rw [parseExpression_eq_readFrom] at h
  obtain hr | ⟨offset, hr⟩ := readFrom_stricter (TokenStream.open? input o) rfl hx
  · rw [heq, ← hr, h]
  · rw [h] at hr
    cases hr

/-- Strictness leaves the tokens as they are. -/
theorem parseExpression_withStrict (input : List Char) (o : Options) :
    parseExpression input (o.withStrict true) =
      readFrom (TokenStream.open? input (o.withStrict false)) (o.withStrict true).context := by
  obtain ⟨rs, hy, -⟩ := Scanner.exists_yields (Scanner.start input (o.withStrict false)) rfl
  have hy' : (Scanner.start input (o.withStrict true)).Yields rs := hy.of_same rfl rfl
  exact parseExpression_of_yields hy hy'

theorem parseExpression_strictly (h : parseExpression input (o.withStrict false) = .ok t) :
    parseExpression input (o.withStrict true) = .ok t ∧ (∀ offset, ¬ t.DeletesNameAt offset) ∨
      ∃ offset, t.DeletesNameAt offset ∧
        parseExpression input (o.withStrict true) = .error (.fault .deleteOfName offset) := by
  obtain ⟨s, q, hs, hc⟩ := parseExpression_eq_ok.1 h
  rw [parseExpression_withStrict, hs]
  exact call_strictly (TokenStream.valid_of_open? hs) hc

theorem parseExpression_stricter (input : List Char) (o : Options) :
    parseExpression input (o.withStrict true) = parseExpression input (o.withStrict false) ∨
      ∃ offset, parseExpression input (o.withStrict true) = .error (.fault .deleteOfName offset) := by
  rw [parseExpression_withStrict, parseExpression_eq_readFrom input (o.withStrict false)]
  exact readFrom_stricter _ rfl fun _ => rfl

end

end Parser

open ArithLang.Parser (parseExpression_fewer parseExpression_strictly parseExpression_stricter)

theorem Options.moduleCode_withPlugin (o : Options) (plugin : Plugin) :
    (o.withPlugin plugin).moduleCode = o.moduleCode := by
  unfold withPlugin
  split <;> rfl

theorem Options.strict_withPlugin (o : Options) (plugin : Plugin) :
    (o.withPlugin plugin).strict = o.strict := by
  unfold withPlugin
  split <;> rfl

/-- Two options that accept a text read the same tree in it. What is accepted in module code or
strictly is accepted without, the plugin for `::` changes nothing, and strictness alone only refuses
to delete a name: the tree stands if no name is deleted in it, and otherwise one of the nodes that do
is where the reading fails. -/
theorem parseExpression_options (input : List Char) (o o' : Options) :
    (∀ t t', parseExpression input o = .ok t → parseExpression input o' = .ok t' → t = t') ∧
    (∀ t, parseExpression input o = .ok t → (o'.moduleCode = true → o.moduleCode = true) →
      (o'.strict = true → o.strict = true) → parseExpression input o' = .ok t) ∧
    (∀ t, parseExpression input (o.withPlugin .functionBind) = .ok t ↔
      parseExpression input o = .ok t) ∧
    (∀ t, parseExpression input (o.withStrict false) = .ok t →
      ((∀ offset, ¬ t.DeletesNameAt offset) → parseExpression input (o.withStrict true) = .ok t) ∧
      ((∃ offset, t.DeletesNameAt offset) → ∃ offset, t.DeletesNameAt offset ∧
        parseExpression input (o.withStrict true) = .error (.fault .deleteOfName offset))) ∧
    ∀ e, parseExpression input (o.withStrict false) = .error e →
      parseExpression input (o.withStrict true) = .error e ∨
        ∃ offset, parseExpression input (o.withStrict true) =
          .error (.fault .deleteOfName offset) := by
  refine ⟨fun t t' h h' => ?_, fun t => parseExpression_fewer, fun t => ?_, fun t h => ?_,
    fun e h => ?_⟩
  · -- Both are read under no options at all.
    have plain : parseExpression input {} = .ok t := parseExpression_fewer h nofun nofun
    have plain' : parseExpression input {} = .ok t' := parseExpression_fewer h' nofun nofun
    exact Except.ok.inj (plain.symm.trans plain')
  · have hm := o.moduleCode_withPlugin .functionBind
    have hs := o.strict_withPlugin .functionBind
    constructor
    · intro h
      exact parseExpression_fewer h (by rw [hm]; exact id) (by rw [hs]; exact id)
    · intro h
      exact parseExpression_fewer h (by rw [hm]; exact id) (by rw [hs]; exact id)
  · obtain ⟨hok, hn⟩ | ⟨offset, hd, he⟩ := parseExpression_strictly h
    · exact ⟨fun _ => hok, fun ⟨offset, hd⟩ => absurd hd (hn offset)⟩
    · exact ⟨fun hn => absurd hd (hn offset), fun _ => ⟨offset, hd, he⟩⟩
  · rw [← h]
    exact parseExpression_stricter input o

theorem parseExpression_options_delete :
    (∃ t, parseExpression "b ? -a : 1".toList { moduleCode := true, plugins := [.functionBind] } =
      .ok t ∧ parseExpression "b ? -a : 1".toList {} = .ok t) ∧
    ∃ t offset, parseExpression "b ? delete (a) : 1".toList {} = .ok t ∧ t.DeletesNameAt offset ∧
      parseExpression "b ? delete (a) : 1".toList { strict := true } =
        .error (.fault .deleteOfName offset) := by
  constructor
  · have hok : (parseExpression "b ? -a : 1".toList
        { moduleCode := true, plugins := [.functionBind] }).isOk = true := by
      decide +kernel
    cases h : parseExpression "b ? -a : 1".toList
        { moduleCode := true, plugins := [.functionBind] } with
    | error =>
      rw [h] at hok
      cases hok
    | ok t =>
      obtain ⟨-, hfewer, -⟩ := parseExpression_options "b ? -a : 1".toList
        { moduleCode := true, plugins := [.functionBind] } {}
      exact ⟨t, rfl, hfewer t h nofun nofun⟩
  · have hok : (parseExpression "b ? delete (a) : 1".toList {}).isOk = true := by decide +kernel
    have hfail : (parseExpression "b ? delete (a) : 1".toList { strict := true }).isOk = false := by
      decide +kernel
    cases h : parseExpression "b ? delete (a) : 1".toList {} with
    | error =>
      rw [h] at hok
      cases hok
    | ok t =>
      obtain ⟨-, -, -, hstrict, -⟩ := parseExpression_options "b ? delete (a) : 1".toList {} {}
      obtain ⟨hkeeps, hrefuses⟩ := hstrict t h
      by_cases hd : ∃ offset, t.DeletesNameAt offset
      · obtain ⟨offset, hd, he⟩ := hrefuses hd
        exact ⟨t, offset, rfl, hd, he⟩
      · have hkept : parseExpression "b ? delete (a) : 1".toList { strict := true } = .ok t :=
          hkeeps (not_exists.1 hd)
        rw [hkept] at hfail
        cases hfail

end ArithLang
