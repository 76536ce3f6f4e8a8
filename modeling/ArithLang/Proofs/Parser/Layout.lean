import Mathlib.Data.List.Basic
import ArithLang.Proofs.Cursor.TokenList
import ArithLang.Proofs.Parser.Recorded

/-!
Where tokens stand does not matter to a parser. Two lists of tokens with the same kinds and values, each
at starts that grow, are read as trees that differ in nothing but their layout, or both readings fail
for the same reason at the start of the same token.
-/

namespace ArithLang

/-! Trees without their layout. -/

/-- What a node says of itself apart from where it stands and how its digits were written. -/
def Info.unlaid (i : Info) : Info := { extra := { i.extra with parenStart := none, raw := none } }

theorem Info.Alike.unlaid_eq {l : Layout} {i j : Info} (h : i.Alike l j) : i.unlaid = j.unlaid := by
  obtain ⟨-, -, hp, -, ha, -, hv⟩ := h
  simp only [Info.unlaid, hp, ha, hv]

namespace Expr

mutual

def unlaid : Expr → Expr
  | number v i => number v i.unlaid
  | identifier name i => identifier name i.unlaid
  | member o p c i => member o.unlaid p.unlaid c i.unlaid
  | sequence es i => sequence (unlaidList es) i.unlaid
  | assignment op l r i => assignment op l.unlaid r.unlaid i.unlaid
  | conditional t c a i => conditional t.unlaid c.unlaid a.unlaid i.unlaid
  | logical op l r i => logical op l.unlaid r.unlaid i.unlaid
  | binary op l r i => binary op l.unlaid r.unlaid i.unlaid
  | unary op p a i => unary op p a.unlaid i.unlaid
  | update op p a i => update op p a.unlaid i.unlaid

def unlaidList : List Expr → List Expr
  | [] => []
  | e :: es => e.unlaid :: unlaidList es

end

theorem unlaidList_eq_map (es : List Expr) : unlaidList es = es.map unlaid := by
  induction es with
  | nil => rfl
  | cons e es ih => rw [unlaidList, ih, List.map_cons]

/-- Whatever the correspondence of positions, trees that are alike are the same but for their layout. -/
theorem Alike.unlaid_eq {l : Layout} {e e' : Expr} (h : e.Alike l e') : e.unlaid = e'.unlaid := by
  induction h with
  | number hi | identifier hi => rw [unlaid, unlaid, hi.unlaid_eq]
  | member hi _ _ ih ih' | assignment hi _ _ ih ih' | logical hi _ _ ih ih'
  | binary hi _ _ ih ih' => rw [unlaid, unlaid, hi.unlaid_eq, ih, ih']
  | sequence hi _ ih =>
    rw [unlaid, unlaid, hi.unlaid_eq, unlaidList_eq_map, unlaidList_eq_map, List.map_map,
      List.map_map]
    exact congrArg (Expr.sequence · _) (List.map_congr_left ih)
  | conditional hi _ _ _ ih ih' ih'' => rw [unlaid, unlaid, hi.unlaid_eq, ih, ih', ih'']
  | unary hi _ ih | update hi _ ih => rw [unlaid, unlaid, hi.unlaid_eq, ih]

end Expr

/-! Token lists that differ in their layout only. -/

/-- A finished list of tokens, each starting after the one before it. -/
structure Placed (ts : List Token) : Prop where
  increasing : ts.Pairwise fun t u => t.start.offset < u.start.offset
  ends : ts.getLast?.map Token.kind = some .eof

/-- The same kinds and values, wherever the tokens stand. -/
structure Relaid (ts ts' : List Token) : Prop where
  lexemes_eq : ts.map Token.lexeme = ts'.map Token.lexeme
  placed : Placed ts
  placed' : Placed ts'

/-- The start of a token in one list, and of the token at the same index in the other. -/
def SameStart (ts ts' : List Token) (x y : Position) : Prop :=
  ∃ (i : Nat) (t t' : Token), ts[i]? = some t ∧ ts'[i]? = some t' ∧ t.start = x ∧ t'.start = y

/-- The answers to a call that do not depend on the layout: trees that are the same but for it, or the
same fault at the starts of tokens at the same index. -/
inductive SameAnswer (ts ts' : List Token) :
    Except SyntaxError Expr → Except SyntaxError Expr → Prop
  | tree : e.unlaid = e'.unlaid → SameAnswer ts ts' (.ok e) (.ok e')
  | fault : SameStart ts ts' x y →
      SameAnswer ts ts' (.error (.fault f x.offset)) (.error (.fault f y.offset))

variable {ts ts' : List Token} {i j : Nat} {t u : Token}

theorem Placed.index_eq (h : Placed ts) (ht : ts[i]? = some t) (hu : ts[j]? = some u)
    (heq : t.start.offset = u.start.offset) : i = j := by
  obtain ⟨hi, rfl⟩ := List.getElem?_eq_some_iff.1 ht
  obtain ⟨hj, rfl⟩ := List.getElem?_eq_some_iff.1 hu
  have hlt := List.pairwise_iff_getElem.1 h.increasing
  obtain hij | rfl | hji := Nat.lt_trichotomy i j
  · exact absurd heq (Nat.ne_of_lt (hlt i j hi hj hij))
  · rfl
  · exact absurd heq.symm (Nat.ne_of_lt (hlt j i hj hi hji))

namespace Relaid

variable (h : Relaid ts ts')

include h

theorem length_eq : ts.length = ts'.length := by
  have := congrArg List.length h.lexemes_eq
  rwa [List.length_map, List.length_map] at this

theorem lexeme_eq {t' : Token} (ht : ts[i]? = some t) (ht' : ts'[i]? = some t') :
    t.lexeme = t'.lexeme := by
  have := congrArg (·[i]?) h.lexemes_eq
  simpa [ht, ht'] using this

theorem offset_eq_iff {a b a' b' : Position} (ha : SameStart ts ts' a a')
    (hb : SameStart ts ts' b b') : a.offset = b.offset ↔ a'.offset = b'.offset := by
  obtain ⟨i, t, t', ht, ht', rfl, rfl⟩ := ha
  obtain ⟨j, u, u', hu, hu', rfl, rfl⟩ := hb
  constructor
  · intro heq
    cases h.placed.index_eq ht hu heq
    rw [Option.some.inj (ht'.symm.trans hu')]
  · intro heq
    cases h.placed'.index_eq ht' hu' heq
    rw [Option.some.inj (ht.symm.trans hu)]

end Relaid

namespace TokenList

/-- The cursor stands at an index of the tokens, with all that follow ahead of it. -/
structure StandsAt (ts : List Token) (i : Nat) (l : TokenList) : Prop where
  current : ts[i]? = some l.current
  ahead : l.ahead = (ts.drop (i + 1)).map .ok

variable {l d : TokenList}

theorem standsAt_ofTokens (input : List Char) (h : ts ≠ []) :
    StandsAt ts 0 (ofTokens input ts) := by
  cases ts with
  | nil => contradiction
  | cons t ts => exact ⟨rfl, rfl⟩

/-- A move to the next index. Only on `eof` at the end of the list is there none. -/
theorem StandsAt.advance (h : StandsAt ts i l) (hp : Placed ts) (hk : l.current.kind ≠ .eof) :
    ∃ d, l.advance = (.ok (), d) ∧ StandsAt ts (i + 1) d := by
  cases hr : ts[i + 1]? with
  | none =>
    have hle := List.getElem?_eq_none_iff.1 hr
    obtain ⟨hlt, hc⟩ := List.getElem?_eq_some_iff.1 h.current
    have hlast : ts.getLast? = some l.current := by
      rw [List.getLast?_eq_getElem?, ← h.current]
      congr 1
      omega
    have heof := hp.ends
    rw [hlast] at heof
    exact absurd (Option.some.inj heof) hk
  | some next =>
    obtain ⟨hlt, rfl⟩ := List.getElem?_eq_some_iff.1 hr
    have hahead := h.ahead
    rw [List.drop_eq_getElem_cons hlt, List.map_cons] at hahead
    exact ⟨_, advance_of_ok hahead, hr, rfl⟩

end TokenList

open TokenList (StandsAt)

/-- Two cursors over relaid tokens, at the same index. -/
def Lockstep.relaid (h : Relaid ts ts') : Lockstep TokenList TokenList where
  layout := { start := SameStart ts ts', stop := fun _ _ => True, raw := fun _ _ => True }
  cursor l l' := ∃ i, StandsAt ts i l ∧ StandsAt ts' i l'
  stuck _ _ := False
  lexical _ _ := False
  context x y := x = y ∧ x.statementTerminators = false
  fuel _ _ n n' := n = n'
  excused _ := False
  kind_eq := fun ⟨_, hl, hl'⟩ => congrArg Prod.fst (h.lexeme_eq hl.current hl'.current)
  value_eq := fun ⟨_, hl, hl'⟩ => congrArg Prod.snd (h.lexeme_eq hl.current hl'.current)
  start := fun ⟨i, hl, hl'⟩ => ⟨i, _, _, hl.current, hl'.current, rfl, rfl⟩
  stop _ := trivial
  raw _ _ := trivial
  offsets_eq := by
    rintro _ _ _ _ ⟨ha⟩ ⟨hb⟩
    exact h.offset_eq_iff ha hb
  advance_ok {c d c'} hc hk ha := by
    obtain ⟨i, hl, hl'⟩ := hc
    have heq : c.current.kind = c'.current.kind :=
      congrArg Prod.fst (h.lexeme_eq hl.current hl'.current)
    obtain ⟨_, hd, hs⟩ := hl.advance h.placed hk
    obtain ⟨d', hd', hs'⟩ := hl'.advance h.placed' (heq ▸ hk)
    cases hd.symm.trans ha
    exact ⟨d', hd', ⟨i + 1, hs, hs'⟩, fun n n' => ⟨id, Nat.succ.inj⟩⟩
  advance_error {c d c' e} hc hk ha := by
    obtain ⟨_, hl, -⟩ := hc
    obtain ⟨_, hd, -⟩ := hl.advance h.placed hk
    cases hd.symm.trans ha
  fuel_remaining := by
    rintro c c' ⟨i, hl, hl'⟩
    change c.ahead.length + 1 = c'.ahead.length + 1
    rw [hl.ahead, hl'.ahead, List.length_map, List.length_map, List.length_drop, List.length_drop,
      h.length_eq]
  fuel_zero _ hf _ := by rw [hf]
  inGenerator_eq hx := by rw [hx.1]
  strict_eq hx := .inl (by rw [hx.1])
  postfix_eq {p p'} _ hx _ := by
    rw [Parser.mayEndStatement, Parser.mayEndStatement, ← hx.1, hx.2, Bool.false_and, Bool.false_and]

namespace Parser

/-- One call at the same index: the same answer, and parsers at one index again. -/
theorem call_relaid (h : Relaid ts ts') {p p' : Parser TokenList}
    (hp : (Lockstep.relaid h).Parsers (Lockstep.relaid h).cursor p p') (c : Call) :
    SameAnswer ts ts' (p.call c).1 (p'.call c).1 ∧
      (Lockstep.relaid h).Parsers (Lockstep.relaid h).cursor (p.call c).2 (p'.call c).2 := by
  have ends := Lockstep.call hp c
  rw [call, call, run, run]
  generalize c.step.run p = x at ends
  generalize c.step.run p' = y at ends
  cases ends with
  | ok he ho => exact ⟨.tree he.unlaid_eq, ho.parsers⟩
  | fault hf ho =>
    obtain ⟨hs⟩ := hf
    exact ⟨.fault hs, ho.parsers⟩
  | lexical he => exact he.elim
  | excused he => exact he.elim

theorem after_relaid (h : Relaid ts ts') {p p' : Parser TokenList}
    (hp : (Lockstep.relaid h).Parsers (Lockstep.relaid h).cursor p p') (calls : List Call) :
    (Lockstep.relaid h).Parsers (Lockstep.relaid h).cursor (p.after calls) (p'.after calls) := by
  induction calls generalizing p p' with
  | nil => exact hp
  | cons c calls ih => exact ih (call_relaid h hp c).2

/-- Tokens of the same kinds and values are read alike wherever they stand, in whatever texts, unless
the context ends statements at line breaks. So it is for every call, also after others. -/
theorem call_layout_free (h : Relaid ts ts') (input input' : List Char) {context : Context}
    (hc : context.statementTerminators = false) (before : List Call) (c : Call) :
    SameAnswer ts ts'
      (((ofCursor (TokenList.ofTokens input ts) context).after before).call c).1
      (((ofCursor (TokenList.ofTokens input' ts') context).after before).call c).1 := by
  have hne : ts ≠ [] := by
    rintro rfl
    cases h.placed.ends
  have hne' : ts' ≠ [] := by
    rintro rfl
    cases h.placed'.ends
  have hp : (Lockstep.relaid h).Parsers (Lockstep.relaid h).cursor
      (ofCursor (TokenList.ofTokens input ts) context)
      (ofCursor (TokenList.ofTokens input' ts') context) :=
    ⟨⟨0, TokenList.standsAt_ofTokens input hne, TokenList.standsAt_ofTokens input' hne'⟩, ⟨rfl, hc⟩,
      .none⟩
  exact (call_relaid h (after_relaid h hp before) c).1

/-- The tokens of `(a)=>`. -/
def arrowTokens (width : Nat) : List Token :=
  TokenList.spaced width
    [(.parenL, .none), (.name, .text "a"), (.parenR, .none), (.arrow, .none), (.eof, .none)]

/-- An arrow where a function could begin, found by comparing offsets. -/
theorem call_layout_free_arrow : Relaid (arrowTokens 1) (arrowTokens 3) ∧
    ∃ x y, SameStart (arrowTokens 1) (arrowTokens 3) x y ∧ x.offset = 3 ∧ y.offset = 9 ∧
      ((ofCursor (TokenList.ofTokens [] (arrowTokens 1)) {}).call .toEnd).1 =
        .error (.fault (.unsupported "arrow function") x.offset) ∧
      ((ofCursor (TokenList.ofTokens [] (arrowTokens 3)) {}).call .toEnd).1 =
        .error (.fault (.unsupported "arrow function") y.offset) := by
  have placed : ∀ width ∈ [1, 3], Placed (arrowTokens width) := by
    simp only [List.forall_mem_cons]
    exact ⟨⟨by decide, rfl⟩, ⟨by decide, rfl⟩, nofun⟩
  have h : Relaid (arrowTokens 1) (arrowTokens 3) :=
    ⟨rfl, placed 1 (by decide), placed 3 (by decide)⟩
  have hnear : ((ofCursor (TokenList.ofTokens [] (arrowTokens 1)) {}).call .toEnd).1.map
      (fun _ => ()) = .error (.fault (.unsupported "arrow function") 3) := by
    decide +kernel
  have hfar : ((ofCursor (TokenList.ofTokens [] (arrowTokens 3)) {}).call .toEnd).1.map
      (fun _ => ()) = .error (.fault (.unsupported "arrow function") 9) := by
    decide +kernel
  have hplain : ({} : Context).statementTerminators = false := rfl
  have hsame := call_layout_free h [] [] hplain [] .toEnd
  change SameAnswer _ _ ((ofCursor (TokenList.ofTokens [] (arrowTokens 1)) {}).call .toEnd).1
    ((ofCursor (TokenList.ofTokens [] (arrowTokens 3)) {}).call .toEnd).1 at hsame
  generalize ((ofCursor (TokenList.ofTokens [] (arrowTokens 1)) {}).call .toEnd).1 = r at *
  generalize ((ofCursor (TokenList.ofTokens [] (arrowTokens 3)) {}).call .toEnd).1 = r' at *
  cases hsame with
  | tree => cases hnear
  | fault hs =>
    obtain ⟨rfl, hx⟩ := SyntaxError.fault.inj (Except.error.inj hnear)
    obtain ⟨-, hy⟩ := SyntaxError.fault.inj (Except.error.inj hfar)
    exact ⟨h, _, _, hs, hx, hy, rfl, rfl⟩

end Parser

end ArithLang
