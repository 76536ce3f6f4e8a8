import ArithLang.Proofs.Parser.Recursion
import ArithLang.Proofs.Parser.Trace

/-!
Where the tokens come to an end, so does the recursion of the grammar. The parser is bounded by the tokens
that remain; where these bring it nearer to the end, the bound makes no difference, and what is left is the
recursion laid open, which then has an end and one solution.
-/

namespace ArithLang

open TokenCursor (Passes ahead current)
open Grammar Step

variable {C : Type} [TokenCursor C]

/-- Cursors whose moves bring them nearer to the end of the tokens; moves lead to no others. -/
structure TokenCursor.Ending (V : C → Prop) : Prop where
  advance {c d : C} {r : Except LexError Unit} : V c → TokenCursor.advance c = (r, d) → V d
  ahead_lt {c d : C} : V c → (current c).kind ≠ .eof → TokenCursor.advance c = (.ok (), d) →
    ahead d < ahead c
  eof_of_ahead {c : C} : V c → ahead c = 0 → (current c).kind = .eof

theorem TokenCursor.ending_valid [LawfulCursor C] : Ending (LawfulCursor.Valid : C → Prop) where
  advance := LawfulCursor.valid_advance
  ahead_lt := TokenCursor.ahead_lt
  eof_of_ahead := TokenCursor.eof_of_ahead

namespace TokenCursor.Ending

variable {V : C → Prop} (hV : Ending V) {c d : C} {ts : List Token} {p q : Parser C}

include hV

theorem passes (h : Passes c ts d) (hv : V c) : V d ∧ ahead d + ts.length ≤ ahead c := by
  induction h with
  | refl => exact ⟨hv, Nat.le_refl _⟩
  | step hk ha _ ih =>
    obtain ⟨hd, hle⟩ := ih (hV.advance hv ha)
    have := hV.ahead_lt hv hk ha
    refine ⟨hd, ?_⟩
    rw [List.length_cons]
    omega

theorem goes (h : p.Goes q) (hv : V p.cursor) : V q.cursor ∧ ahead q.cursor ≤ ahead p.cursor := by
  obtain ⟨ts, h⟩ := h
  obtain ⟨hq, hle⟩ := hV.passes h.passes hv
  exact ⟨hq, Nat.le_of_add_right_le hle⟩

theorem goesPast (h : p.GoesPast q) (hv : V p.cursor) :
    V q.cursor ∧ ahead q.cursor < ahead p.cursor := by
  obtain ⟨t, ts, h⟩ := h
  obtain ⟨hq, hle⟩ := hV.passes h.passes hv
  rw [List.length_cons] at hle
  exact ⟨hq, by omega⟩

end TokenCursor.Ending

namespace Lockstep

variable {V : C → Prop}

/-- A parser beside itself, both with a bound that the tokens ahead do not exceed. -/
def ending (hV : TokenCursor.Ending V) (context : Context) : Lockstep C C where
  layout := .same
  cursor c c' := c = c' ∧ V c
  stuck c c' := c = c'
  lexical e e' := e = e'
  context x y := x = y ∧ x = context
  fuel c _ n n' := ahead c ≤ n ∧ ahead c ≤ n'
  excused _ := False
  kind_eq h := h.1 ▸ rfl
  value_eq h := h.1 ▸ rfl
  start h := h.1 ▸ rfl
  stop h := h.1 ▸ rfl
  raw {p p'} h _ := by
    change p.raw = p'.raw
    rw [Parser.raw, Parser.raw, Parser.token, Parser.token, h.1]
  offsets_eq := Layout.Offsets.eq_iff
  advance_ok {c d c'} h hk ha := by
    obtain ⟨rfl, hv⟩ := h
    have hlt := hV.ahead_lt hv hk ha
    exact ⟨d, ha, ⟨rfl, hV.advance hv ha⟩, fun n n' => ⟨by omega, by omega⟩⟩
  advance_error {c d c' e} h _ ha := by
    obtain ⟨rfl, -⟩ := h
    exact ⟨e, d, ha, rfl, rfl⟩
  fuel_remaining {c c'} h := by
    obtain ⟨rfl, -⟩ := h
    exact ⟨TokenCursor.ahead_le c, TokenCursor.ahead_le c⟩
  fuel_zero {c c' n n'} h hf hk := by
    have hpos : ahead c ≠ 0 := fun h0 => hk (hV.eof_of_ahead h.2 h0)
    omega
  inGenerator_eq h := by rw [h.1]
  strict_eq h := .inl (by rw [h.1])
  postfix_eq {p p'} h hx _ := by
    rw [Parser.mayEndStatement, Parser.mayEndStatement, Parser.kind, Parser.kind, Parser.token,
      Parser.token, h.1, hx.1]

theorem eq_of_ending {hV : TokenCursor.Ending V} {context : Context} {R : C → C → Prop}
    {p p' : Parser C} (h : (ending hV context).Parsers R p p') (hR : ∀ c c', R c c' → c = c') : p = p' := by
  have hc := hR _ _ h.cursor
  have ha : p.arrowStart = p'.arrowStart := eq_of_optionRel h.arrowStart fun _ _ => Layout.Offsets.eq
  have hx : p.context = p'.context := h.context.1
  cases p
  cases p'
  simp_all

end Lockstep

namespace Goal

variable {V : C → Prop} {p q : Parser C} {goal : Goal} {n m m' : Nat}

/-- Bounds that the tokens ahead do not exceed make no difference. -/
theorem step_eq_of_ahead (hV : TokenCursor.Ending V) (hv : V p.cursor) (hm : ahead p.cursor ≤ m)
    (hm' : ahead p.cursor ≤ m') : (goal.step n m).run p = (goal.step n m').run p := by
  have hp : (Lockstep.ending hV p.context).Parsers (Lockstep.ending hV p.context).cursor p p :=
    ⟨⟨rfl, hv⟩, ⟨rfl, rfl⟩, Layout.optionRel_same _⟩
  have hf : (Lockstep.ending hV p.context).fuel p.cursor p.cursor m m' := ⟨hm, hm'⟩
  have ends := Lockstep.goal rfl hp n goal hf
  generalize (goal.step n m).run p = r at ends ⊢
  generalize (goal.step n m').run p = r' at ends ⊢
  cases ends with
  | ok he ho => rw [he.eq, Lockstep.eq_of_ending ho.parsers fun _ _ h => h.1]
  | fault hf ho => rw [hf.eq, Lockstep.eq_of_ending ho.parsers fun _ _ h => h.1]
  | lexical he hs =>
    cases he
    rw [Lockstep.eq_of_ending hs fun _ _ h => h]
  | excused he => exact he.elim

/-- The reading of the parser by a goal, bounded by the tokens that remain. -/
def reading : Readings C := fun n goal => do goal.step n (← remaining)

theorem reading_goes (n : Nat) (goal : Goal) : (reading n goal : Step C Expr).Goes := by
  intro p e q h
  rw [reading, run_remaining_bind] at h
  exact goal.reads h

theorem run_reading (hV : TokenCursor.Ending V) (hv : V p.cursor) (hm : ahead p.cursor ≤ m) :
    (reading n goal).run p = (goal.step n m).run p := by
  rw [reading, run_remaining_bind]
  exact step_eq_of_ahead hV hv (TokenCursor.ahead_le _) hm

/-- What a construct is made of, if it is bound by `m + 1`: the turns of its loop that are left to it, and
other readings, bounded by the tokens that remain. -/
def bounded (goal : Goal) (n m : Nat) : Readings C := fun k g =>
  if g.rank = goal.rank ∧ k = n then g.step k m else reading k g

theorem bounded_goes (k : Nat) (g : Goal) : (goal.bounded n m k g : Step C Expr).Goes := by
  unfold bounded
  split
  · exact fun p e q h => g.reads h
  · exact reading_goes k g

theorem bounded_items (s s' : Position) (es es' : List Expr) :
    ((items s es).bounded n m n (items s' es') : Step C Expr) = (items s' es').step n m :=
  if_pos ⟨rfl, rfl⟩

theorem bounded_tail (s s' : Position) (e e' : Expr) :
    ((tail s e).bounded n m n (tail s' e') : Step C Expr) = (tail s' e').step n m :=
  if_pos ⟨rfl, rfl⟩

theorem bounded_climb (s s' : Position) (least least' : Nat) (e e' : Expr) :
    ((climb s least e).bounded n m n (climb s' least' e') : Step C Expr) =
      (climb s' least' e').step n m :=
  if_pos ⟨rfl, rfl⟩

theorem bounded_succ (g : Goal) : (goal.bounded (n + 1) m n g : Step C Expr) = reading n g :=
  if_neg fun h => Nat.succ_ne_self n h.2.symm

/-! What stands one level of nesting deeper is bounded by the tokens that remain. -/

theorem assignment_bounded (goal : Goal) (n m : Nat) : (Nested.withLevels n : Nested C).assignment =
    deeper n (goal.bounded n m · assignment) := by
  cases n with
  | zero => rfl
  | succ n => exact (bounded_succ assignment).symm

theorem unary_bounded (goal : Goal) (n m : Nat) : (Nested.withLevels n : Nested C).unary =
    deeper n fun k => prefixed (goal.bounded n m k operand) := by
  cases n with
  | zero => rfl
  | succ n => exact congrArg prefixed (bounded_succ operand).symm

theorem climb_bounded (goal : Goal) (n m : Nat) (left : Expr) (start : Position) (least : Nat) :
    (Nested.withLevels n : Nested C).climb left start least =
      deeper n (goal.bounded n m · (climb start least left)) := by
  cases n with
  | zero => rfl
  | succ n => exact (bounded_succ (climb start least left)).symm

theorem items_eq_body (start : Position) (before : List Expr) :
    ((items start before).step n (m + 1)).run p =
      (body ((items start before).bounded n m) n (items start before)).run p := by
  rw [step, listTail, body, ← assignment_bounded]
  simp only [bind_assoc]
  refine eat_congr (by decide) (fun q hq => ?_) ?_
  · rw [if_pos rfl, if_pos rfl, bind_assoc]
    refine run_bind_congr rfl fun item r hr => ?_
    rw [bounded_items, step]
    simp only [bind_assoc, pure_bind, List.append_assoc, List.singleton_append]
  · rw [if_neg Bool.false_ne_true, if_neg Bool.false_ne_true, pure_bind, List.append_nil]

theorem tail_eq_body (start : Position) (base : Expr) :
    ((tail start base).step n (m + 1)).run p =
      (body ((tail start base).bounded n m) n (tail start base)).run p := by
  rw [step, subscriptTail, body]
  refine eat_congr (by decide) (fun q hq => ?_) rfl
  refine run_bind_congr rfl fun property r hr => ?_
  refine expect_congr (by decide) fun s hs => ?_
  rw [run_infoFrom_bind, run_infoFrom_bind, bounded_tail]
  rfl

theorem climb_eq_body (start : Position) (least : Nat) (left : Expr) :
    ((climb start least left).step n (m + 1)).run p =
      (body ((climb start least left).bounded n m) n (climb start least left)).run p := by
  rw [step, Grammar.climb, body, run_current_bind, run_current_bind]
  obtain hs | ⟨strength, hs⟩ := (chainStrength? p.kind).eq_none_or_eq_some
  · simp only [Parser.token_kind, hs]
  simp only [Parser.token_kind, hs]
  split
  · rfl
  refine run_bind_congr rfl fun _ _ hc => ?_
  obtain ⟨-, rfl⟩ := checkPowerBase_eq_ok.1 hc
  refine run_bind_congr rfl fun node _ hc => ?_
  obtain ⟨-, rfl⟩ := binaryNode_eq_ok.1 hc
  refine run_bind_congr rfl fun _ q hq => ?_
  rw [run_startPosition_bind, run_startPosition_bind]
  refine run_bind_congr rfl fun first r hr => ?_
  refine run_bind_congr ?_ fun right t ht => ?_
  · rw [climb_bounded, bounded_climb]
    rfl
  · rw [run_infoFrom_bind, run_infoFrom_bind, bounded_climb]
    rfl

/-- Whatever the cursor, a construct is made of its parts as its body says, but for the bound. -/
theorem step_eq_body (goal : Goal) (n m : Nat) :
    (goal.step n (m + 1)).run p = (goal.body (goal.bounded n m) n).run p := by
  cases goal with
  | items start before => exact items_eq_body start before
  | climb start least left => exact climb_eq_body start least left
  | tail start base => exact tail_eq_body start base
  | operand =>
    rw [body, ← unary_bounded]
    rfl
  | expression | assignment | conditional =>
    rw [body, ← assignment_bounded]
    rfl
  | chain | postfixed | subscripts | atom => rfl

/-- Where the tokens come to an end, the readings of the parser solve the equations of the grammar. -/
theorem reading_eq_body (hV : TokenCursor.Ending V) (hv : V p.cursor) :
    (reading n goal).run p = (goal.body reading n).run p := by
  have hle := Nat.le_succ_of_le (TokenCursor.ahead_le p.cursor)
  rw [run_reading hV hv hle, step_eq_body]
  refine body_congr bounded_goes fun b hb => ?_
  unfold Activation.result bounded
  split
  · next h =>
    -- a loop that goes on is past a token, and the bound of where it was serves as well
    obtain ⟨hvb, hlt⟩ := hV.goesPast (hb.goesPast (Nat.le_of_eq h.1.symm)) hv
    exact (run_reading hV hvb (Nat.le_trans (Nat.le_of_lt hlt) (TokenCursor.ahead_le _))).symm
  · rfl

end Goal

namespace Activation

open Goal (reading)

/-- The recursion ends at a reading. What it comes to is what its construct makes of the readings of the
parser, to ask for one reading after the other comes to an end, and no other readings solve the same
equations. -/
structure Terminates (V : C → Prop) (a : Activation C) : Prop where
  unfold_eq : a.result reading = a.unfold reading
  acc : Acc (fun b a => a.Asks b) a
  unique (read : Readings C) :
    (∀ b : Activation C, V b.parser.cursor → b.result read = b.unfold read) →
      a.result read = a.result reading

variable {V : C → Prop} {a b : Activation C}

/-- The tokens ahead count more than the construct. -/
def size (a : Activation C) : Nat := ahead a.parser.cursor * 11 + a.goal.rank

theorem Proceeds.size_lt (h : a.Proceeds b) (hV : TokenCursor.Ending V) (hv : V a.parser.cursor) :
    V b.parser.cursor ∧ b.size < a.size := by
  have hr : b.goal.rank ≤ 10 := by cases b.goal <;> simp
  unfold size
  obtain hp | ⟨hg, hlt⟩ := h.goes
  · obtain ⟨hb, hlt⟩ := hV.goesPast hp hv
    exact ⟨hb, by omega⟩
  · obtain ⟨hb, hle⟩ := hV.goes hg hv
    exact ⟨hb, by omega⟩

theorem result_unique (hV : TokenCursor.Ending V) {read : Readings C}
    (h : ∀ b : Activation C, V b.parser.cursor → b.result read = b.unfold read)
    (hv : V a.parser.cursor) : a.result read = a.result reading := by
  induction hn : a.size using Nat.strongRecOn generalizing a with
  | ind n ih =>
    subst hn
    rw [h a hv]
    refine (Goal.reading_eq_body hV hv).trans ?_ |>.symm
    refine Goal.body_congr Goal.reading_goes fun b hb => ?_
    obtain ⟨hvb, hlt⟩ := hb.toProceeds.size_lt hV hv
    exact (ih _ hlt hvb rfl).symm

theorem acc_asks (hV : TokenCursor.Ending V) (hv : V a.parser.cursor) :
    Acc (fun b a => a.Asks b) a := by
  induction hn : a.size using Nat.strongRecOn generalizing a with
  | ind n ih =>
    subst hn
    refine .intro a fun b hb => ?_
    obtain ⟨hvb, hlt⟩ := hb.leadsTo.toProceeds.size_lt hV hv
    exact ih _ hlt hvb rfl

theorem terminates (hV : TokenCursor.Ending V) (hv : V a.parser.cursor) : a.Terminates V where
  unfold_eq := Goal.reading_eq_body hV hv
  acc := acc_asks hV hv
  unique _ h := result_unique hV h hv

/-- Over a lawful cursor, as that of a text, every reading terminates. -/
theorem terminates_of_valid [LawfulCursor C] (hv : LawfulCursor.Valid a.parser.cursor) :
    a.Terminates LawfulCursor.Valid :=
  terminates TokenCursor.ending_valid hv

end Activation

namespace TokenList

/-- The list holds tokens only, and the last one is `eof`. -/
def EndsAtEof (l : TokenList) : Prop :=
  ∃ ts : List Token, l.ahead = ts.map .ok ∧ (l.current :: ts).getLast?.map Token.kind = some .eof

/-- The tokens from the current one on, up to the first `eof`. -/
def upToEof (l : TokenList) : List Token :=
  (l.current :: l.ahead.filterMap Except.toOption).takeWhile (·.kind != .eof)

variable {l d : TokenList} {ts : List Token}

theorem endsAtEof_ofTokens (input : List Char) (h : ts.getLast?.map Token.kind = some .eof) :
    (ofTokens input ts).EndsAtEof := by
  cases ts with
  | nil => cases h
  | cons t ts => exact ⟨ts, rfl, h⟩

/-- Either the list is at its end, or a move goes on to the next token. -/
theorem EndsAtEof.cases (h : l.EndsAtEof) :
    l.current.kind = .eof ∧ l.advance = (.ok (), l) ∨
      ∃ t rs, l.ahead = .ok t :: rs ∧
        l.advance = (.ok (), { l with lastStop := l.current.stop, current := t, ahead := rs }) ∧
          EndsAtEof { l with lastStop := l.current.stop, current := t, ahead := rs } := by
  obtain ⟨ts, hl, hlast⟩ := h
  cases ts with
  | nil => exact .inl ⟨Option.some.inj hlast, advance_of_nil hl⟩
  | cons t ts =>
    refine .inr ⟨t, ts.map .ok, hl, advance_of_ok hl, ts, rfl, ?_⟩
    rw [List.getLast?_cons_cons] at hlast
    exact hlast

theorem ending_endsAtEof : TokenCursor.Ending EndsAtEof where
  advance {c d r} h ha := by
    obtain ⟨-, hc⟩ | ⟨t, rs, -, hc, hd⟩ := h.cases
    · cases hc.symm.trans ha
      exact h
    · cases hc.symm.trans ha
      exact hd
  ahead_lt {c d} h hk ha := by
    obtain ⟨he, -⟩ | ⟨t, rs, hl, hc, -⟩ := h.cases
    · exact absurd he hk
    · cases hc.symm.trans ha
      refine Nat.lt_of_le_of_lt (TokenCursor.ahead_le _) ?_
      rw [TokenCursor.ahead, if_neg hk]
      change rs.length + 1 < c.ahead.length + 1
      rw [hl]
      exact Nat.lt_succ_self _
  eof_of_ahead {c} _ h0 := by
    unfold TokenCursor.ahead at h0
    split at h0
    · assumption
    · cases h0

theorem EndsAtEof.upToEof_eq (h : l.EndsAtEof) (hp : Passes l ts d) :
    l.upToEof = ts ++ d.upToEof := by
  induction hp with
  | refl => rfl
  | @step c _ ts d hk ha _ ih =>
    obtain ⟨he, -⟩ | ⟨t, rs, hl, hc, hd⟩ := h.cases
    · exact absurd he hk
    · cases hc.symm.trans ha
      have hk : c.current.kind ≠ .eof := hk
      rw [List.cons_append, ← ih hd, upToEof, List.takeWhile_cons_of_pos (by simpa using hk), hl]
      rfl

/-- No move fails. -/
theorem EndsAtEof.passes (h : l.EndsAtEof) (hm : TokenCursor.Moved l ts d) : Passes l ts d := by
  cases hm with
  | passed hp => exact hp
  | failed hp _ ha =>
    obtain ⟨-, hc⟩ | ⟨t, rs, -, hc, -⟩ := (ending_endsAtEof.passes hp h).1.cases
    all_goals cases hc.symm.trans ha

end TokenList

namespace Parser

/-- The parser reads forward only, and never past the end. Whatever the cursor, a call moves it only at
tokens that are not `eof`, and its constructs are made of their parts as their bodies say. Where one
reading asks for another, and that for a third, and so on, no level of nesting is won back and no
threshold beyond ten is reached; and a construct as loose as the first stands past a token at least, so
that no loop and no cycle goes around at one place. Hence on tokens that end at `eof` the recursion ends,
and a call makes no more moves than there are tokens before it. -/
theorem reads_forward (cursor : C) (context : Context) :
    (∀ (calls : List Call) (c : Call),
      let p := (ofCursor cursor context).after calls
      (p.traced.call c).1 = (p.call c).1 ∧ (p.traced.call c).2.untraced = (p.call c).2 ∧
        TokenCursor.Moved p.cursor (p.moves c) (p.call c).2.cursor ∧
          ∀ t ∈ p.moves c, t.kind ≠ .eof) ∧
    ((expression : Step C Expr) = Goal.reading maxNesting .expression ∧
      (∀ (goal : Goal) (n m : Nat) (p : Parser C),
        (goal.step n (m + 1)).run p = (goal.body (goal.bounded n m) n).run p) ∧
      ∀ (goal : Goal) (n m k : Nat) (g : Goal), (goal.bounded n m k g : Step C Expr).Goes) ∧
    (∀ a b : Activation C, a.Asks b → a.goal.rank = b.goal.rank →
      a.goal.threshold ≤ b.goal.threshold) ∧
    (∀ a b : Activation C, Relation.TransGen Activation.Asks a b →
      b.levels ≤ a.levels ∧ b.goal.threshold ≤ max 10 a.goal.threshold ∧
        (a.goal.rank ≤ b.goal.rank → a.parser.GoesPast b.parser)) ∧
    ∀ (input : List Char) (ts : List Token), ts.getLast?.map Token.kind = some .eof →
      ∀ calls : List Call,
        let p := (ofCursor (TokenList.ofTokens input ts) context).after calls
        p.cursor.EndsAtEof ∧
        (∀ a : Activation TokenList, a.parser.cursor.EndsAtEof → a.Terminates TokenList.EndsAtEof) ∧
        ∀ c : Call, p.cursor.upToEof = p.moves c ++ (p.call c).2.cursor.upToEof ∧
          (p.moves c).length ≤ p.cursor.upToEof.length := by
  refine ⟨fun calls c => ?_,
    ⟨rfl, fun goal n m p => goal.step_eq_body n m, fun goal n m => Goal.bounded_goes⟩,
    fun a b h => h.leadsTo.threshold_ge, fun a b h => ?_, fun input ts hlast calls => ?_⟩
  · obtain ⟨hanswer, hparser, hmoved⟩ := call_traced ((ofCursor cursor context).after calls) c
    exact ⟨hanswer, hparser, hmoved, hmoved.ne_eof⟩
  · have hp := Activation.proceeds_of_transGen h
    exact ⟨hp.levels_le, hp.threshold_le, hp.goesPast⟩
  · have hV := TokenList.ending_endsAtEof
    obtain ⟨hends, -⟩ := after_keeps (p := ofCursor (TokenList.ofTokens input ts) context)
      (fun _ _ _ => hV.advance) (TokenList.endsAtEof_ofTokens input hlast) calls
    refine ⟨hends, fun a ha => Activation.terminates hV ha, fun c => ?_⟩
    obtain ⟨-, -, hmoved⟩ := call_traced ((ofCursor (TokenList.ofTokens input ts) context).after calls) c
    have heq := hends.upToEof_eq (hends.passes hmoved)
    refine ⟨heq, ?_⟩
    rw [heq, List.length_append]
    exact Nat.le_add_right ..

/-- The tokens of `-1`. -/
def negationTokens : List Token :=
  TokenList.spaced 1 [(.plusMin, .text "-"), (.num, .number (.int 1)), (.eof, .none)]

/-- The operand that is a negation asks for the operand behind the sign, which is past a token; and to
read it to the end takes two moves. -/
theorem reads_forward_negation :
    let p := ofCursor (TokenList.ofTokens [] negationTokens) {}
    let q := ofCursor p.cursor.advance.2 {}
    let a : Activation TokenList := ⟨1, .operand, p⟩
    let b : Activation TokenList := ⟨0, .operand, q⟩
    a.Asks b ∧ p.GoesPast q ∧ b.goal.threshold ≤ 10 ∧
      a.Terminates TokenList.EndsAtEof ∧ (p.call .toEnd).1.isOk = true ∧
      (∀ t ∈ p.moves .toEnd, t.kind ≠ .eof) ∧ (p.moves .toEnd).length = 2 ∧
      (p.moves .toEnd).length ≤ p.cursor.upToEof.length := by
  intro p q a b
  have hasks : a.Asks b := by
    refine ⟨Goal.reading, Goal.reading_goes, Activation.asksFor_of_fails fun read' _ e r h => ⟨r, ?_⟩⟩
    obtain ⟨rest, hrun⟩ : ∃ rest : Expr → Step TokenList Expr,
        a.unfold read' = (read' 0 .operand >>= rest).run q := ⟨_, rfl⟩
    have h : (read' 0 .operand).run q = .error e r := h
    rw [hrun, EStateM.run_bind, h]
  have hlast : negationTokens.getLast?.map Token.kind = some .eof := by decide
  obtain ⟨hmoves, -, -, hasked, hlist⟩ := reads_forward p.cursor {}
  obtain ⟨-, hle, hpast⟩ := hasked a b (.single hasks)
  obtain ⟨hends, hterminates, hcalls⟩ := hlist [] negationTokens hlast []
  have hok : (p.call .toEnd).1.isOk = true := by decide +kernel
  have htwo : (p.moves .toEnd).length = 2 := by decide +kernel
  exact ⟨hasks, hpast (Nat.le_refl _), hle, hterminates a hends, hok, (hmoves [] .toEnd).2.2.2, htwo,
    (hcalls .toEnd).2⟩

end Parser

end ArithLang
