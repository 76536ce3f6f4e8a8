import ArithLang.Proofs.Cursor.TokenList
import ArithLang.Proofs.Expr.Nesting
import ArithLang.Proofs.Parser.Calls
import ArithLang.Proofs.Parser.Completeness
import ArithLang.Proofs.Parser.Derivation
import ArithLang.Proofs.Parser.Soundness
import ArithLang.Proofs.Scanner.Results

/-! The parser and the grammar: the trees that a call answers are those that its tokens spell. -/

namespace ArithLang

open LawfulCursor (Valid)
open TokenCursor (Passes current)

namespace Parser

variable {C : Type} [TokenCursor C] [LawfulCursor C] {p q : Parser C} {e : Expr}

theorem call_iff {c : Call} (hv : Valid p.cursor) : p.call c = (.ok e, q) ↔
    Parses maxNesting .expression p e q ∧ (c = .toEnd → q.kind = .eof) := by
  rw [call_eq_ok]
  cases c with
  | expression => simpa [Call.step] using expression_iff hv
  | toEnd => simpa [Call.step] using expressionToEnd_iff hv

theorem valid_after (hv : Valid p.cursor) (calls : List Call) : Valid (p.after calls).cursor :=
  (after_keeps (fun _ _ _ => LawfulCursor.valid_advance) hv calls).1

theorem context_after (hv : Valid p.cursor) (calls : List Call) :
    (p.after calls).context = p.context :=
  (after_keeps (fun _ _ _ => LawfulCursor.valid_advance) hv calls).2

theorem grammatical_of_call (hv : Valid p.cursor) {c : Call} (h : p.call c = (.ok e, q)) :
    e.Grammatical p.context.strict := by
  obtain ⟨hp, -⟩ := (call_iff hv).1 h
  obtain ⟨_, -, k, hn, hw⟩ := hp.sound ⟨hv, rfl⟩
  exact hw.made.grammatical

/-- Whatever tree a call answers, the tokens it has passed are the spelling of that tree, and every
node of the tree meets the demands of the grammar. A call to the end leaves no token over. -/
theorem call_sound {input : List Char} {options : Options} {stream : TokenStream}
    (ho : TokenStream.open? input options = .ok stream) (context : Context) (before : List Call)
    (c : Call) {e : Expr} {q : Parser TokenStream}
    (h : ((ofCursor stream context).after before).call c = (.ok e, q)) :
    ∃ ts, Passes ((ofCursor stream context).after before).cursor ts q.cursor ∧
      Spells (maxNesting - 1) (maxNesting - 1) e (ts.map Token.lexeme) ∧
      e.Grammatical context.strict ∧ (c = .toEnd → q.kind = .eof ∧
        (before = [] → tokenize input options = .ok (ts ++ [q.token]))) := by
  have hv := TokenStream.valid_of_open? ho
  have hv' := valid_after (p := ofCursor stream context) hv before
  obtain ⟨hp, hk⟩ := (call_iff hv').1 h
  obtain ⟨_, ⟨ts, hr, rfl⟩, k, hn, hw⟩ := hp.sound ⟨hv', congrArg _ (context_after hv before)⟩
  cases hn
  refine ⟨ts, hr.passes, hw.spells, hw.made.grammatical, fun hc => ⟨hk hc, fun hb => ?_⟩⟩
  subst hb
  exact tokenize_of_passes ho hr.passes (hk hc)

theorem call_sound_power : ∃ stream e q ts,
    TokenStream.open? "-(a)[0] ** b".toList {} = .ok stream ∧
      (ofCursor stream {}).call .toEnd = (.ok e, q) ∧
      tokenize "-(a)[0] ** b".toList {} = .ok (ts ++ [q.token]) ∧
      Spells (maxNesting - 1) (maxNesting - 1) e (ts.map Token.lexeme) ∧ e.Grammatical false := by
  have hok : (parseExpression "-(a)[0] ** b".toList {}).isOk = true := by decide +kernel
  unfold parseExpression ofText? at hok
  cases ho : TokenStream.open? "-(a)[0] ** b".toList {} with
  | error =>
    rw [ho] at hok
    cases hok
  | ok stream =>
    rw [ho] at hok
    have hok : ((ofCursor stream {}).call .toEnd).1.isOk = true := hok
    rcases hc : (ofCursor stream {}).call .toEnd with ⟨_ | e, q⟩
    · rw [hc] at hok
      cases hok
    · obtain ⟨ts, -, hs, hg, hend⟩ := call_sound ho {} [] .toEnd hc
      exact ⟨stream, e, q, ts, rfl, hc, (hend rfl).2 rfl, hs, hg⟩

/-- A grammatical tree that needs no more levels than there are has a spelling, and from any spelling
of it a call answers the tree: the same nodes, parenthesized alike, with the right notes. -/
theorem call_complete {t : Expr} {context : Context} (hg : t.Grammatical context.strict)
    (hn : t.nesting ≤ maxNesting) :
    Spells (maxNesting - 1) (maxNesting - 1) t t.spelling ∧
      ∀ (ls : List Lexeme) (p : Parser C) (d : C) (c : Call),
        Spells (maxNesting - 1) (maxNesting - 1) t ls → Valid p.cursor → p.context = context →
          p.Faces ls d → (current d).kind.endsExpression = true →
            (c = .toEnd → (current d).kind = .eof) →
              ∃ t' q, p.call c = (.ok t', q) ∧ t'.plain = t.plain ∧ t'.WellMade context.strict ∧
                q.cursor = d := by
  refine ⟨hg.spells hn, fun ls p d c hw hv hx hf hk hc => ?_⟩
  obtain ⟨t', q, hr, hp⟩ := (hw.completes hg).expression rfl p d hx hf hk
  obtain ⟨_, -, _, -, hm⟩ := hp.sound ⟨hv, congrArg _ hx⟩
  refine ⟨t', q, (call_iff hv).2 ⟨hp, fun h => ?_⟩, hr.rebuilds.plain_eq, hm.made, hr.cursor_eq⟩
  rw [hr.kind_eq, hc h]

/-- The tokens of `(a)++`. -/
def updateTokens : TokenList where
  input := "(a)++".toList
  current := { kind := .parenL }
  ahead := [.ok { kind := .name, value := .text "a" }, .ok { kind := .parenR },
    .ok { kind := .incDec, value := .text "++" }, .ok {}]

theorem updateTokens_valid : updateTokens.Valid where
  genuine := Lexeme.Genuine.symbol (show ⟨"(", .parenL⟩ ∈ Symbol.all by decide)
  genuine_ahead := by
    simp only [updateTokens, List.mem_cons, Except.ok.injEq, List.not_mem_nil, or_false]
    rintro t (rfl | rfl | rfl | rfl)
    · exact .name
    · exact .symbol (show ⟨")", .parenR⟩ ∈ Symbol.all by decide)
    · exact .symbol (show ⟨"++", .incDec⟩ ∈ Symbol.all by decide)
    · exact .eof
  ends := rfl

theorem call_complete_update : ∃ t' q, (ofCursor updateTokens {}).call .toEnd = (.ok t', q) ∧
    t'.plain = .update .increment false
      (.identifier "a" { extra := { parenthesized := true } }) {} := by
  have hg : Expr.Grammatical ({} : Context).strict (.update .increment false
      (.identifier "a" { extra := { parenthesized := true } }) {}) := by
    refine .intro rfl ?_
    simp only [Expr.children, List.forall_mem_cons]
    exact ⟨.intro trivial nofun, nofun⟩
  obtain ⟨hw, hcomplete⟩ := call_complete (C := TokenList) hg (by decide +kernel)
  have hpasses : Passes updateTokens _ _ := .step (by decide) rfl
    (.step (by decide) rfl (.step (by decide) rfl (.step (by decide) rfl .refl)))
  obtain ⟨t', q, hc, ht, -⟩ := hcomplete _ (ofCursor updateTokens {}) _ .toEnd hw
    updateTokens_valid rfl ⟨⟨_, hpasses, rfl⟩, nofun⟩ rfl (fun _ => rfl)
  exact ⟨t', q, hc, ht⟩

end Parser

end ArithLang
