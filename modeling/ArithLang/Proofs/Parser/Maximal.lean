import ArithLang.Proofs.Parser.Placement
import ArithLang.Proofs.Parser.Recorded
import ArithLang.Proofs.Parser.Strict

/-!
An expression is read as far as it goes. No construct leaves a token behind that it could have gone on
with, so the token after an expression begins no more of it; and calls that follow one another go on
where the call before stopped.
-/

namespace ArithLang

open Lexeme (mark)
open TokenCursor (Passes)

namespace Expr

/-- Some node of the tree has the property. -/
inductive Has (P : Expr → Prop) : Expr → Prop
  | here : P e → Has P e
  | inside : c ∈ e.children → Has P c → Has P e

/-- A postfix operation that stops here. -/
def IsPostfixAt (stop : Position) : Expr → Prop
  | update _ false _ i => i.span.stop = stop
  | _ => False

end Expr

namespace Kind

/-- A chain that is bound by `least` does not go on with a token of this kind. -/
def StopsClimb (least : Nat) (k : Kind) : Prop :=
  k.isPostfix = false ∧ ∀ strength, Grammar.chainStrength? k = some strength → strength ≤ least

def StopsChain (k : Kind) : Prop := k.StopsClimb 0

def StopsBranch (k : Kind) : Prop := k.StopsChain ∧ k ≠ .question

def StopsItem (k : Kind) : Prop := k.StopsBranch ∧ k.isAssignment = false

def StopsExpression (k : Kind) : Prop := k.StopsItem ∧ k ≠ .comma

theorem strength_pos {k : Kind} {strength : Nat} (h : k.strength? = some strength) :
    0 < strength := by
  cases k <;> cases h <;> decide

theorem StopsChain.eq_inWord {k : Kind} (h : k.StopsChain) (hs : k.strength?.isSome = true) :
    k = .inWord := by
  obtain ⟨strength, hs⟩ := Option.isSome_iff_exists.1 hs
  by_contra hk
  have hle := h.2 strength (by rw [Grammar.chainStrength?, if_neg hk, hs])
  exact absurd (strength_pos hs) (Nat.not_lt_of_le hle)

end Kind

variable {C : Type} [TokenCursor C]

namespace Parser

variable {p p₀ p₁ q : Parser C} {e e' : Expr} {stops stops' : Kind → Prop} {ts : List Token}

/-- The last token that was read is a postfix operator of the tree. -/
def ReadsPostfix (p : Parser C) (e : Expr) (q : Parser C) : Prop :=
  ∃ us t, p.Reads (us ++ [t]) q ∧ t.kind = .incDec ∧ e.Has (·.IsPostfixAt q.lastStop)

/-- The token after a tree does not go on with it. Neither does a bracket, but after a postfix
operator, which nothing is subscripted by. -/
structure Leaves (stops : Kind → Prop) (p : Parser C) (e : Expr) (q : Parser C) : Prop where
  stops : stops q.kind
  bracket : q.kind = .bracketL → p.ReadsPostfix e q

theorem Leaves.imp (h : Leaves stops p e q) (hs : stops q.kind → stops' q.kind) :
    Leaves stops' p e q :=
  ⟨hs h.stops, h.bracket⟩

/-- What is so of a part that was read last is so of the whole. -/
theorem Leaves.within (h : Leaves stops p e q) (hr : p₀.Reads ts p)
    (he : ∀ P, e.Has P → e'.Has P) : Leaves stops p₀ e' q := by
  refine ⟨h.stops, fun hk => ?_⟩
  obtain ⟨us, t, hu, ht, hp⟩ := h.bracket hk
  refine ⟨ts ++ us, t, ?_, ht, he _ hp⟩
  rw [List.append_assoc]
  exact hr.trans hu

theorem Leaves.of_child (h : Leaves stops p e q) (hr : p₀.Reads ts p) (hc : e ∈ e'.children) :
    Leaves stops p₀ e' q :=
  h.within hr fun _ => .inside hc

theorem Leaves.of_ne (hs : stops q.kind) (hk : q.kind ≠ .bracketL) : Leaves stops p e q :=
  ⟨hs, fun h => absurd h hk⟩

theorem isPostfix_of_not_atPostfix (h : q.atPostfix = false)
    (hc : q.context.statementTerminators = false) : q.kind.isPostfix = false := by
  rw [atPostfix, mayEndStatement, hc, Bool.false_and, Bool.not_false, Bool.and_true] at h
  exact h

end Parser

open ArithLang.Parser (Leaves kind_ne isPostfix_of_not_atPostfix)

/-- What a reading by a goal says of the token that it leaves. -/
def Goal.Leaves (goal : Goal) (p : Parser C) (e : Expr) (q : Parser C) : Prop :=
  match goal with
  | .atom => True
  | .subscripts | .tail .. => q.kind ≠ .bracketL
  | .postfixed | .operand => Parser.Leaves (·.isPostfix = false) p e q
  | .climb _ least left => ∀ p₀ us, Parser.Reads p₀ us p →
    Parser.Leaves (·.isPostfix = false) p₀ left p → Parser.Leaves (Kind.StopsClimb least) p₀ e q
  | .chain => Parser.Leaves Kind.StopsChain p e q
  | .conditional => Parser.Leaves Kind.StopsBranch p e q
  | .assignment => Parser.Leaves Kind.StopsItem p e q
  | .items _ before => ∀ p₀ us, ∀ last ∈ before, Parser.Reads p₀ us p →
    Parser.Leaves Kind.StopsItem p₀ last p → Parser.Leaves Kind.StopsExpression p₀ e q
  | .expression => Parser.Leaves Kind.StopsExpression p e q

theorem Parses.leaves {n : Nat} {goal : Goal} {p q : Parser C} {e : Expr} (h : Parses n goal p e q)
    (hc : p.context.statementTerminators = false) : goal.Leaves p e q := by
  induction h with
  | number | identifier | parenthesized => trivial
  | tailEnd hk => exact hk
  | tailMore _ hm h _ hm' _ _ ih' =>
    obtain ⟨_, hr⟩ := h.reads
    refine ih' ?_
    rw [hm'.context_eq, hr.context_eq, hm.context_eq, hc]
  | subscripts h _ _ _ ih' =>
    obtain ⟨_, hr⟩ := h.reads
    exact ih' (hr.context_eq ▸ hc)
  | plain h ha ih =>
    obtain ⟨_, hr⟩ := h.reads
    exact .of_ne (isPostfix_of_not_atPostfix ha (hr.context_eq ▸ hc)) (ih hc)
  | @postfixUpdate _ _ _ p₁ op _ h ha _ hop hm ha' ih =>
    obtain ⟨ts, hr⟩ := h.reads
    have hk := Parser.isPostfix_of_atPostfix ha
    have hr' := hr.trans (hm.reads (kind_ne hk nofun))
    refine ⟨isPostfix_of_not_atPostfix ha' (hr'.context_eq ▸ hc), fun _ => ?_⟩
    refine ⟨ts, p₁.token, hr', ?_, .here rfl⟩
    rw [Parser.token_kind]
    revert hk
    cases p₁.kind <;> decide
  | operand _ _ ih => exact ih hc
  | prefixUpdate hk _ hm _ _ ih =>
    have hr := hm.reads (kind_ne (f := id) hk nofun)
    exact (ih (hr.context_eq ▸ hc)).of_child hr List.mem_cons_self
  | prefixUnary hk _ _ hm _ _ ih =>
    have hr := hm.reads (kind_ne hk nofun)
    exact (ih (hr.context_eq ▸ hc)).of_child hr List.mem_cons_self
  | climbEnd hs =>
    intro p₀ us _ hl
    exact hl.imp fun hk => ⟨hk, hs⟩
  | climbLeft hop _ hm h h' h'' ih ih' ih'' | climbRight hop _ hm h h' h'' ih ih' ih'' =>
    intro p₀ us hu _
    have passed := hm.reads (kind_ne hop.strength_eq nofun)
    obtain ⟨ts, hr⟩ := h.reads
    obtain ⟨vs, hr'⟩ := h'.reads
    have hc₁ := passed.context_eq ▸ hc
    have hc₂ := hr.context_eq ▸ hc₁
    have hright := ih' hc₂ _ _ hr (ih hc₁)
    refine ih'' (hr'.context_eq ▸ hc₂) p₀ _ (hu.trans (passed.trans (hr.trans hr'))) ?_
    refine (hright.imp And.left).of_child (hu.trans passed) ?_
    rw [Parser.node?_children hop.node_eq]
    exact List.mem_cons_of_mem _ List.mem_cons_self
  | chain h h' ih ih' =>
    obtain ⟨ts, hr⟩ := h.reads
    exact ih' (hr.context_eq ▸ hc) _ _ hr (ih hc)
  | unconditional _ hk ih => exact (ih hc).imp fun hs => ⟨hs, hk⟩
  | conditional h hk hm h' hk' hm' h'' _ _ ih =>
    obtain ⟨ts, hr⟩ := h.reads
    obtain ⟨us, hr'⟩ := h'.reads
    have opened := hm.reads (kind_ne (f := id) hk nofun)
    have closed := hm'.reads (kind_ne (f := id) hk' nofun)
    have before := hr.trans (opened.trans (hr'.trans closed))
    refine ((ih (before.context_eq ▸ hc)).of_child before ?_).imp And.left
    simp
  | @unassigned _ _ _ p _ _ hk ih =>
    have hl := ih (p.marked_context ▸ hc)
    exact (hl.imp fun hs => ⟨hs, hk⟩).within (Parser.Reads.refl p.marked).of_marked fun _ => id
  | assignment _ h hk _ _ hm _ _ ih =>
    obtain ⟨ts, hr⟩ := h.reads
    have before := hr.of_marked.trans (hm.reads (kind_ne hk nofun))
    exact (ih (before.context_eq ▸ hc)).of_child before (by simp)
  | single _ hk ih => exact (ih hc).imp fun hs => ⟨hs, hk⟩
  | sequence h _ _ ih ih' =>
    obtain ⟨ts, hr⟩ := h.reads
    exact ih' (hr.context_eq ▸ hc) _ _ _ List.mem_cons_self hr (ih hc)
  | itemsEnd hk =>
    intro p₀ us last hlast _ hl
    exact (hl.imp fun hs => ⟨hs, hk⟩).of_child (.refl _) hlast
  | itemsMore hk hm h _ ih ih' =>
    intro p₀ us _ _ hu _
    have passed := hm.reads (kind_ne (f := id) hk nofun)
    obtain ⟨ts, hr⟩ := h.reads
    have hc₁ := passed.context_eq ▸ hc
    have hl := ih hc₁
    refine ih' (hr.context_eq ▸ hc₁) p₀ _ _ (List.mem_append_right _ List.mem_cons_self)
      (hu.trans (passed.trans hr)) ?_
    exact hl.within (hu.trans passed) fun _ => id

namespace Parser

/-- Calls for an expression, one after the other, each with its tree and the tokens it has passed. -/
inductive ReadsBlocks : Parser C → List (Expr × List Token) → Parser C → Prop
  | nil : ReadsBlocks p [] p
  | cons : p.call .expression = (.ok e, p₁) → Passes p.cursor (p.token :: ts) p₁.cursor →
      ReadsBlocks p₁ blocks q → ReadsBlocks p ((e, p.token :: ts) :: blocks) q

variable {p q : Parser C} {e : Expr}

theorem ReadsBlocks.passes {blocks : List (Expr × List Token)} (h : ReadsBlocks p blocks q) :
    Passes p.cursor (blocks.flatMap Prod.snd) q.cursor := by
  induction h with
  | nil => exact .refl
  | cons _ hp _ ih => exact hp.trans ih

/-- A call that answers a tree has passed the current token at least. -/
theorem exists_passes_of_call [LawfulCursor C] (hv : LawfulCursor.Valid p.cursor) {c : Call}
    (h : p.call c = (.ok e, q)) : ∃ ts, Passes p.cursor (p.token :: ts) q.cursor := by
  obtain ⟨hp, -⟩ := (call_iff hv).1 h
  obtain ⟨_, ⟨ts, hr, rfl⟩, _, hn, hw⟩ := hp.sound ⟨hv, rfl⟩
  cases hn
  obtain ⟨t, us, hts, -⟩ := hw.spells.exists_head
  obtain ⟨t, us, rfl, -⟩ := List.map_eq_cons_iff.1 hts
  obtain ⟨rfl, -⟩ := hr.passes.current_eq
  exact ⟨us, hr.passes⟩

theorem answers_cons_ok {c : Call} {calls : List Call} {rs : List (Except SyntaxError Expr)}
    (h : p.answers (c :: calls) = .ok e :: rs) :
    ∃ q, p.call c = (.ok e, q) ∧ q.answers calls = rs := by
  rw [answers] at h
  split at h
  · cases h
  · next hc =>
    obtain ⟨rfl, rfl⟩ := List.cons.inj h
    exact ⟨_, hc, rfl⟩

theorem exists_blocks [LawfulCursor C] {es : List Expr} (hv : LawfulCursor.Valid p.cursor)
    (h : p.answers (List.replicate es.length .expression) = es.map .ok) :
    ∃ blocks q, ReadsBlocks p blocks q ∧ blocks.map Prod.fst = es := by
  induction es generalizing p with
  | nil => exact ⟨[], p, .nil, rfl⟩
  | cons e es ih =>
    rw [List.length_cons, List.replicate_succ, List.map_cons] at h
    obtain ⟨p₁, hc, h⟩ := answers_cons_ok h
    obtain ⟨us, hp⟩ := exists_passes_of_call hv hc
    obtain ⟨blocks, q, hb, rfl⟩ := ih (hp.valid hv) h
    exact ⟨_, q, .cons hc hp hb, rfl⟩

/-- An expression is read as far as it goes: what a call leaves would not go on with it. Calls that
follow one another read consecutive blocks of the tokens, each from the token on which the call before
has stopped; so no token is skipped or read twice. -/
theorem call_maximal {input : List Char} {options : Options} {stream : TokenStream}
    (ho : TokenStream.open? input options = .ok stream) (context : Context) (before : List Call) :
    (∀ e q, context.statementTerminators = false →
      ((ofCursor stream context).after before).call .expression = (.ok e, q) →
        q.kind ≠ .comma ∧ q.kind ≠ .question ∧ q.kind.isAssignment = false ∧
        q.kind.isPostfix = false ∧ (q.kind.strength?.isSome = true → q.kind = .inWord) ∧
        (q.kind = .bracketL → ∃ us t,
          Passes ((ofCursor stream context).after before).cursor (us ++ [t]) q.cursor ∧
            t.kind = .incDec ∧ e.Has (·.IsPostfixAt t.stop))) ∧
    ∀ es, ((ofCursor stream context).after before).answers (List.replicate es.length .expression) =
        es.map .ok →
      ∃ blocks q, ReadsBlocks ((ofCursor stream context).after before) blocks q ∧
        blocks.map Prod.fst = es ∧
        (before = [] → ∃ rest, (Scanner.start input options).Yields
          ((blocks.flatMap Prod.snd ++ [q.token]).map .ok ++ rest)) := by
  have hs := standing_after (p := ofCursor stream context) (TokenStream.standing_of_open? ho) before
  refine ⟨fun e q hx hc => ?_, fun es h => ?_⟩
  · obtain ⟨hp, -⟩ := (call_iff hs.genuine).1 hc
    have hx' := context_after (TokenStream.valid_of_open? ho) (p := ofCursor stream context) before
    have hl := hp.leaves (by rw [hx']; exact hx)
    obtain ⟨⟨⟨⟨hclimb, hquestion⟩, hassign⟩, hcomma⟩, hbracket⟩ := hl
    refine ⟨hcomma, hquestion, hassign, hclimb.1, Kind.StopsChain.eq_inWord hclimb, fun hk => ?_⟩
    obtain ⟨us, t, hr, ht, hpost⟩ := hbracket hk
    refine ⟨us, t, hr.passes, ht, ?_⟩
    have hstop := hs.stop_of_passes hr.passes (by simp)
    rw [List.getLast?_concat] at hstop
    have hstop : q.lastStop = t.stop := Option.some.inj hstop
    rwa [hstop] at hpost
  · obtain ⟨blocks, q, hb, he⟩ := exists_blocks hs.genuine h
    refine ⟨blocks, q, hb, he, ?_⟩
    rintro rfl
    obtain ⟨rs, hy, -⟩ := Scanner.exists_yields (Scanner.start input options) rfl
    obtain ⟨rs', rfl, ha⟩ := TokenStream.ahead_of_open? ho hy
    obtain ⟨us, -, heq⟩ := ha.passes hb.passes
    refine ⟨us, ?_⟩
    rw [heq] at hy
    rw [List.map_append, List.append_assoc]
    exact hy

/-- The bracket is left over: after `++` it subscripts nothing. -/
theorem call_maximal_update : ∃ stream e e' q,
    TokenStream.open? "1 (a)++[".toList {} = .ok stream ∧
      (ofCursor stream {}).answers [.expression, .expression] = [.ok e, .ok e'] ∧
      ((ofCursor stream {}).after [.expression]).call .expression = (.ok e', q) ∧
      q.kind = .bracketL ∧ (∃ t : Token, t.kind = .incDec ∧ e'.Has (·.IsPostfixAt t.stop)) ∧
      ∃ blocks q', ReadsBlocks (ofCursor stream {}) blocks q' ∧ blocks.map Prod.fst = [e, e'] := by
  have hok : (TokenStream.open? "1 (a)++[".toList {}).toOption.any (fun stream =>
      ((ofCursor stream {}).call .expression).1.isOk &&
        (((ofCursor stream {}).after [.expression]).call .expression).1.isOk &&
        (((ofCursor stream {}).after [.expression]).call .expression).2.kind == .bracketL) =
      true := by
    decide +kernel
  obtain ⟨stream, ho, hok⟩ := TokenStream.exists_of_any hok
  simp only [Bool.and_eq_true, beq_iff_eq] at hok
  obtain ⟨⟨hfirst, hsecond⟩, hk⟩ := hok
  obtain ⟨e, p, hc⟩ := exists_call_of_isOk hfirst
  obtain ⟨e', q, hc'⟩ := exists_call_of_isOk hsecond
  rw [hc'] at hk
  have ha : (ofCursor stream {}).answers [.expression, .expression] = [.ok e, .ok e'] := by
    rw [after, hc] at hc'
    have hc' : p.call .expression = (.ok e', q) := hc'
    simp only [answers, hc, hc']
  obtain ⟨-, hblocks⟩ := call_maximal ho {} []
  obtain ⟨hstops, -⟩ := call_maximal ho {} [.expression]
  obtain ⟨-, -, -, -, -, hbracket⟩ := hstops e' q rfl hc'
  obtain ⟨_, t, -, ht, hpost⟩ := hbracket hk
  obtain ⟨blocks, q', hb, he, -⟩ := hblocks [e, e'] ha
  exact ⟨stream, e, e', q, ho, ha, hc', hk, ⟨t, ht, hpost⟩, blocks, q', hb, he⟩

end Parser

end ArithLang
