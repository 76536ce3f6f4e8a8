import ArithLang.Proofs.Expr.Alike
import ArithLang.Proofs.Parser.Step

/-!
Two parsers side by side. As long as their cursors show tokens that correspond, the same step takes
both to corresponding ends: values that are alike, or the same fault at corresponding offsets. What a
correspondence is, is left open; a pair of cursors brings its own.
-/

namespace ArithLang

/-- How two kinds of cursor correspond, and what may be made of it. -/
structure Lockstep (C C' : Type) [TokenCursor C] [TokenCursor C'] where
  layout : Layout
  cursor : C → C' → Prop
  /-- The cursors after a move that failed. -/
  stuck : C → C' → Prop
  lexical : LexError → LexError → Prop
  context : Context → Context → Prop
  /-- Bounds that serve the two cursors equally well. -/
  fuel : C → C' → Nat → Nat → Prop
  /-- Errors of the first parser that say nothing about the second. -/
  excused : SyntaxError → Prop
  kind_eq {c : C} {c' : C'} : cursor c c' →
    (TokenCursor.current c).kind = (TokenCursor.current c').kind
  value_eq {c : C} {c' : C'} : cursor c c' →
    (TokenCursor.current c).value = (TokenCursor.current c').value
  start {c : C} {c' : C'} : cursor c c' →
    layout.start (TokenCursor.current c).start (TokenCursor.current c').start
  stop {c : C} {c' : C'} : cursor c c' →
    layout.stop (TokenCursor.lastStop c) (TokenCursor.lastStop c')
  raw {p : Parser C} {p' : Parser C'} : cursor p.cursor p'.cursor → p.kind = .num →
    layout.raw p.raw p'.raw
  offsets_eq {a b : Nat} {a' b' : Nat} : layout.Offsets a a' → layout.Offsets b b' →
    (a = b ↔ a' = b')
  advance_ok {c d : C} {c' : C'} : cursor c c' → (TokenCursor.current c).kind ≠ .eof →
    TokenCursor.advance c = (.ok (), d) → ∃ d', TokenCursor.advance c' = (.ok (), d') ∧
      cursor d d' ∧ ∀ n n', (fuel c c' n n' → fuel d d' n n') ∧
        (fuel c c' (n + 1) (n' + 1) → fuel d d' n n')
  advance_error {c d : C} {c' : C'} {e : LexError} : cursor c c' →
    (TokenCursor.current c).kind ≠ .eof → TokenCursor.advance c = (.error e, d) →
      ∃ e' d', TokenCursor.advance c' = (.error e', d') ∧ lexical e e' ∧ stuck d d'
  fuel_remaining {c : C} {c' : C'} : cursor c c' →
    fuel c c' (TokenCursor.remaining c) (TokenCursor.remaining c')
  fuel_zero {c : C} {c' : C'} {n n' : Nat} : cursor c c' → fuel c c' n n' →
    (TokenCursor.current c).kind ≠ .eof → (n = 0 ↔ n' = 0)
  inGenerator_eq {x y : Context} : context x y → x.inGenerator = y.inGenerator
  strict_eq {x y : Context} : context x y → x.strict = y.strict ∨
    y.strict = false ∧ ∀ offset, excused (.fault .deleteOfName offset)
  postfix_eq {p : Parser C} {p' : Parser C'} : cursor p.cursor p'.cursor →
    context p.context p'.context → p.kind.isPostfix = true →
      p.mayEndStatement = p'.mayEndStatement

namespace Lockstep

variable {C C' : Type} [TokenCursor C] [TokenCursor C'] (L : Lockstep C C')

/-- Parsers that correspond, their cursors by the given relation. -/
structure Parsers (R : C → C' → Prop) (p : Parser C) (p' : Parser C') : Prop where
  cursor : R p.cursor p'.cursor
  context : L.context p.context p'.context
  arrowStart : Option.Rel L.layout.Offsets p.arrowStart p'.arrowStart

/-- Steps have taken the parsers `p` and `p'` to `q` and `q'`. -/
structure Onward (p : Parser C) (p' : Parser C') (q : Parser C) (q' : Parser C') : Prop where
  parsers : L.Parsers L.cursor q q'
  fuel (n n' : Nat) : L.fuel p.cursor p'.cursor n n' → L.fuel q.cursor q'.cursor n n'

/-- The parsers have moved on, so that less fuel serves as well. -/
structure Past (p : Parser C) (p' : Parser C') (q : Parser C) (q' : Parser C') : Prop
    extends L.Onward p p' q q' where
  fuel_succ (n n' : Nat) :
    L.fuel p.cursor p'.cursor (n + 1) (n' + 1) → L.fuel q.cursor q'.cursor n n'

/-- How the same step may end for both parsers. -/
inductive Ends {α α' : Type} (A : α → α' → Prop) (p : Parser C) (p' : Parser C') :
    EStateM.Result SyntaxError (Parser C) α → EStateM.Result SyntaxError (Parser C') α' → Prop
  | ok : A a a' → L.Onward p p' q q' → Ends A p p' (.ok a q) (.ok a' q')
  | fault : L.layout.Offsets o o' → L.Onward p p' q q' →
      Ends A p p' (.error (.fault f o) q) (.error (.fault f o') q')
  | lexical : L.lexical e e' → L.Parsers L.stuck q q' →
      Ends A p p' (.error (.lexical e) q) (.error (.lexical e') q')
  | excused : L.excused e → Ends A p p' (.error e q) r

variable {L} {α α' β β' : Type} {A : α → α' → Prop} {B : β → β' → Prop}
  {p q r : Parser C} {p' q' r' : Parser C'}

theorem Onward.refl (h : L.Parsers L.cursor p p') : L.Onward p p' p p' := ⟨h, fun _ _ => id⟩

theorem Onward.trans (h : L.Onward p p' q q') (h' : L.Onward q q' r r') : L.Onward p p' r r' :=
  ⟨h'.parsers, fun n n' hf => h'.fuel n n' (h.fuel n n' hf)⟩

theorem Ends.after {x : EStateM.Result SyntaxError (Parser C) α}
    {y : EStateM.Result SyntaxError (Parser C') α'} (h : L.Ends A q q' x y)
    (ho : L.Onward p p' q q') : L.Ends A p p' x y := by
  cases h with
  | ok ha h => exact .ok ha (ho.trans h)
  | fault hf h => exact .fault hf (ho.trans h)
  | lexical he h => exact .lexical he h
  | excused he => exact .excused he

theorem Ends.bind {x : Step C α} {x' : Step C' α'} {f : α → Step C β} {f' : α' → Step C' β'}
    (hx : L.Ends A p p' (x.run p) (x'.run p'))
    (hf : ∀ a a' q q', A a a' → L.Onward p p' q q' →
      L.Ends B q q' ((f a).run q) ((f' a').run q')) :
    L.Ends B p p' ((x >>= f).run p) ((x' >>= f').run p') := by
  rw [EStateM.run_bind, EStateM.run_bind]
  generalize x.run p = u at hx
  generalize x'.run p' = v at hx
  cases hx with
  | ok ha h => exact (hf _ _ _ _ ha h).after h
  | fault hf h => exact .fault hf h
  | lexical he h => exact .lexical he h
  | excused he => exact .excused he

namespace Parsers

variable (h : L.Parsers L.cursor p p')

include h

theorem kind_eq : p.kind = p'.kind := L.kind_eq h.cursor

/-- Induction on bounds that serve alike. They run out together, unless nothing is left to be
bounded. -/
theorem fuel_induction {motive : Parser C → Parser C' → Nat → Nat → Prop}
    (eof : ∀ p p' n n', L.Parsers L.cursor p p' → p.kind = .eof → motive p p' n n')
    (zero : ∀ p p', L.Parsers L.cursor p p' → motive p p' 0 0)
    (succ : ∀ p p' n n', L.Parsers L.cursor p p' → L.fuel p.cursor p'.cursor (n + 1) (n' + 1) →
      (∀ {q q'}, L.Parsers L.cursor q q' → L.fuel q.cursor q'.cursor n n' → motive q q' n n') →
        motive p p' (n + 1) (n' + 1))
    {n n' : Nat} (hf : L.fuel p.cursor p'.cursor n n') : motive p p' n n' := by
  induction n generalizing n' p p' with
  | zero =>
    by_cases hk : p.kind = .eof
    · exact eof _ _ _ _ h hk
    · obtain rfl := (L.fuel_zero h.cursor hf hk).1 rfl
      exact zero _ _ h
  | succ n ih =>
    by_cases hk : p.kind = .eof
    · exact eof _ _ _ _ h hk
    · cases n' with
      | zero => exact absurd ((L.fuel_zero h.cursor hf hk).2 rfl) (Nat.succ_ne_zero n)
      | succ n' => exact succ _ _ _ _ h hf fun hq hf => ih hq hf

theorem value_eq : p.token.value = p'.token.value := L.value_eq h.cursor

theorem start : L.layout.start p.token.start p'.token.start := L.start h.cursor

theorem offsets : L.layout.Offsets p.token.start.offset p'.token.start.offset := .intro h.start

theorem description_eq : p.token.description = p'.token.description := by
  unfold Token.description
  rw [h.value_eq, show p.token.kind = p'.token.kind from h.kind_eq]

theorem operator?_eq (ofText? : String → Option α) : p.operator? ofText? = p'.operator? ofText? := by
  rw [Parser.operator?, h.value_eq]
  rfl

theorem atPostfix_eq : p.atPostfix = p'.atPostfix := by
  unfold Parser.atPostfix
  rw [← h.kind_eq]
  cases hk : p.kind.isPostfix with
  | true => rw [L.postfix_eq h.cursor h.context hk]
  | false => rfl

theorem arrowStart_iff : p.arrowStart = some p.token.start.offset ↔
    p'.arrowStart = some p'.token.start.offset := by
  have ha := h.arrowStart
  generalize p.arrowStart = x at ha
  generalize p'.arrowStart = y at ha
  cases ha with
  | some ha => simpa using L.offsets_eq ha h.offsets
  | none => simp

theorem marked : L.Onward p p' p.marked p'.marked := by
  unfold Parser.marked
  rw [← h.kind_eq]
  split
  · exact ⟨⟨h.cursor, h.context, .some h.offsets⟩, fun _ _ => id⟩
  · exact .refl h

/-- Nodes that end at the last tokens of both. -/
theorem info {a b : Position} {x y : Extra} (hs : L.layout.start a b) (hx : x.Alike L.layout y) :
    (p.infoFrom a x).Alike L.layout (p'.infoFrom b y) :=
  ⟨hs, L.stop h.cursor, hx⟩

theorem pure {a : α} {a' : α'} (ha : A a a') :
    L.Ends A p p' ((Pure.pure a : Step C α).run p) ((Pure.pure a' : Step C' α').run p') :=
  .ok ha (.refl h)

theorem failAt {f : SyntaxFault} {o o' : Nat} (ho : L.layout.Offsets o o') :
    L.Ends A p p' ((Step.failAt f o : Step C α).run p) ((Step.failAt f o' : Step C' α').run p') :=
  .fault ho (.refl h)

theorem failHere (f : SyntaxFault) :
    L.Ends A p p' ((Step.failHere f : Step C α).run p) ((Step.failHere f : Step C' α').run p') :=
  .fault h.offsets (.refl h)

theorem unexpected (expected : String) :
    L.Ends A p p' ((Step.unexpected expected : Step C α).run p)
      ((Step.unexpected expected : Step C' α').run p') := by
  change L.Ends A p p' (.error (.fault (.unexpected expected (.ofList p.token.description)) _) _) _
  rw [h.description_eq]
  exact .fault h.offsets (.refl h)

/-- Moving on, and what is done after it. -/
theorem advance {f : Unit → Step C β} {f' : Unit → Step C' β'} (hk : p.kind ≠ .eof)
    (hf : ∀ q q', L.Past p p' q q' → L.Ends B q q' ((f ()).run q) ((f' ()).run q')) :
    L.Ends B p p' ((Step.advance >>= f).run p) ((Step.advance >>= f').run p') := by
  rw [EStateM.run_bind, EStateM.run_bind, Step.run_advance, Step.run_advance]
  rcases ha : TokenCursor.advance p.cursor with ⟨_ | _, d⟩
  · obtain ⟨e', d', ha', he, hs⟩ := L.advance_error h.cursor hk ha
    rw [ha']
    exact .lexical he ⟨hs, h.context, h.arrowStart⟩
  · obtain ⟨d', ha', hd, hn⟩ := L.advance_ok h.cursor hk ha
    rw [ha']
    have past : L.Past p p' { p with cursor := d } { p' with cursor := d' } :=
      ⟨⟨⟨hd, h.context, h.arrowStart⟩, fun n n' => (hn n n').1⟩, fun n n' => (hn n n').2⟩
    exact (hf _ _ past).after past.toOnward

theorem eat {k : Kind} {f : Bool → Step C β} {f' : Bool → Step C' β'} (he : k ≠ .eof)
    (hf : p.kind = k → ∀ q q', L.Past p p' q q' →
      L.Ends B q q' ((f true).run q) ((f' true).run q'))
    (hf' : p.kind ≠ k → L.Ends B p p' ((f false).run p) ((f' false).run p')) :
    L.Ends B p p' ((Step.eat k >>= f).run p) ((Step.eat k >>= f').run p') := by
  rw [Step.run_eat_bind, Step.run_eat_bind, ← h.kind_eq]
  split
  · next hk => exact h.advance (hk ▸ he) (hf hk)
  · next hk => exact hf' hk

theorem expect {k : Kind} {f : Unit → Step C β} {f' : Unit → Step C' β'} (he : k ≠ .eof)
    (hf : ∀ q q', L.Past p p' q q' → L.Ends B q q' ((f ()).run q) ((f' ()).run q')) :
    L.Ends B p p' ((Step.expect k >>= f).run p) ((Step.expect k >>= f').run p') := by
  rw [Step.run_expect_bind, Step.run_expect_bind, ← h.kind_eq]
  split
  · next hk => exact h.advance (hk ▸ he) hf
  · exact h.unexpected _

theorem operator {ofText? : String → Option α} {f : α → Step C β} {f' : α → Step C' β'}
    (hf : ∀ op, p.operator? ofText? = some op →
      L.Ends B p p' ((f op).run p) ((f' op).run p')) :
    L.Ends B p p' ((Step.operator ofText? >>= f).run p) ((Step.operator ofText? >>= f').run p') := by
  rw [Step.run_operator_bind, Step.run_operator_bind, ← h.operator?_eq]
  split
  · next op ho => exact hf op ho
  · exact h.unexpected _

theorem checkTarget {e e' : Expr} {place : String} {f : Unit → Step C β} {f' : Unit → Step C' β'}
    (he : e.Alike L.layout e') (hf : e.isAssignable = true →
      L.Ends B p p' ((f ()).run p) ((f' ()).run p')) :
    L.Ends B p p' ((Step.checkTarget e place >>= f).run p)
      ((Step.checkTarget e' place >>= f').run p') := by
  rw [Step.run_checkTarget_bind, Step.run_checkTarget_bind, ← he.isAssignable_eq]
  split
  · next ha => exact hf ha
  · exact h.failAt (.intro he.start)

end Parsers

end Lockstep

end ArithLang
