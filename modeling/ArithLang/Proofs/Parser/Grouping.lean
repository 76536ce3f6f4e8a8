import ArithLang.Proofs.Cursor.TokenList
import ArithLang.Proofs.Expr.Grouping
import ArithLang.Proofs.Parser.Calls
import ArithLang.Proofs.Parser.Climbing
import ArithLang.Proofs.Parser.Derivation

/-!
The parser groups a chain as its operators say. Its loop takes one operator after the other, each with
what binds tighter; that is how a chain is grouped from the left.
-/

namespace ArithLang

open LawfulCursor (Valid)
open TokenCursor (ahead)
open ArithLang.Parser (kind_ne)

theorem Expr.powerFault?_eq_none {e : Expr} : e.powerFault? = none ↔ e.isPowerBase = true := by
  cases e with
  | unary op isPrefix argument i =>
    rw [powerFault?, isPowerBase, Bool.or_comm]
    split <;> simp_all
  | _ => exact iff_of_true rfl rfl

variable {C : Type} [TokenCursor C]

namespace Lockstep

/-- A parser beside itself, where the first may give up for being nested too deeply. -/
def shallower (context : Context) : Lockstep C C :=
  { keeping (fun _ => True) context (fun _ _ _ _ _ => trivial) with
    excused := fun e => ∃ offset, e = .fault .nestedTooDeeply offset
    strict_eq := fun h => .inl (by rw [h.1, h.2]) }

/-- An operand read with fewer levels of nesting left and with more. -/
theorem operand_shallower {m n : Nat} (h : m ≤ n) (p : Parser C) :
    (shallower p.context).Ends (Expr.Alike .same) p p
      ((Grammar.operand (Nested.withLevels m)).run p)
      ((Grammar.operand (Nested.withLevels n)).run p) := by
  have hp : (shallower p.context).Parsers (shallower p.context).cursor p p :=
    ⟨⟨trivial, rfl⟩, ⟨rfl, rfl⟩, Layout.optionRel_same _⟩
  exact operand hp (inner_withLevels (.inr ⟨h, fun offset => ⟨offset, rfl⟩⟩))

theorem eq_of_shallower {context : Context} {p q : Parser C}
    (h : (shallower context).Parsers (shallower context).cursor p q) : p = q := by
  have hc : p.cursor = q.cursor := h.cursor.2
  have hx : p.context = q.context := h.context.1.trans h.context.2.symm
  have ha : p.arrowStart = q.arrowStart :=
    eq_of_optionRel h.arrowStart fun _ _ => Layout.Offsets.eq
  cases p
  cases q
  simp_all

end Lockstep

namespace Parser

/-- An operand is read, with so many levels of nesting left. -/
structure ReadsOperand (k : Nat) (p : Parser C) (u : Operand) (q : Parser C) : Prop where
  run_eq : (Grammar.operand (Nested.withLevels k)).run p = .ok u.expr q
  start_eq : u.start = p.token.start
  stop_eq : u.stop = q.lastStop

/-- Links are read one after the other, each operand with so many levels of nesting left. -/
inductive ReadsLinks (k : Nat) : Parser C → List Link → Parser C → Prop
  | nil : ReadsLinks k p [] p
  | cons {p p₁ p₂ q : Parser C} {x : Link} {xs : List Link} :
      p.token.lexeme = x.op.lexeme → p.Moves p₁ → p₁.ReadsOperand k x.operand p₂ →
      ReadsLinks k p₂ xs q → ReadsLinks k p (x :: xs) q

/-- What comes of a chain that is grouped so: its tree, or the first fault in it; or the parser gives
up, if that is granted. -/
inductive Grouped (deep : Prop) (g : Grouping) (q : Parser C) :
    EStateM.Result SyntaxError (Parser C) Expr → Prop
  | ok : g.faults = [] → Grouped deep g q (.ok g.expr q)
  | fault : g.faults.head? = some o → Grouped deep g q (.error (.fault .ambiguousPower o) r)
  | tooDeep : deep → Grouped deep g q (.error (.fault .nestedTooDeeply o) r)

variable {p p₁ q r : Parser C}

omit [TokenCursor C] in
theorem Grouped.imp {deep deep' : Prop} {g : Grouping}
    {x : EStateM.Result SyntaxError (Parser C) Expr} (h : Grouped deep g q x) (hd : deep → deep') :
    Grouped deep' g q x := by
  cases h with
  | ok hg => exact .ok hg
  | fault hg => exact .fault hg
  | tooDeep h => exact .tooDeep (hd h)

omit [TokenCursor C] in
/-- A part of a chain is read before the rest. -/
theorem Grouped.bind {deep : Prop} {g g' : Grouping} {x : Step C Expr} {f : Expr → Step C Expr}
    (h : Grouped deep g q (x.run p)) (hg : g.faults <+: g'.faults)
    (hf : g.faults = [] → Grouped deep g' r ((f g.expr).run q)) :
    Grouped deep g' r ((x >>= f).run p) := by
  rw [EStateM.run_bind]
  generalize x.run p = y at h
  cases h with
  | ok hn => exact hf hn
  | fault ho =>
    obtain ⟨rest, hr⟩ := hg
    refine .fault ?_
    rw [← hr, List.head?_append, ho]
    rfl
  | tooDeep hd => exact .tooDeep hd

variable {k : Nat} {u : Operand} {xs ys links : List Link}

/-- With other levels of nesting left an operand is read alike, unless there are too few. -/
theorem ReadsOperand.grouped (h : p.ReadsOperand k u q) (n : Nat) :
    Grouped (n < k) (.operand u) q ((Grammar.operand (Nested.withLevels n)).run p) := by
  obtain hlt | hle := Nat.lt_or_ge n k
  · have ends := Lockstep.operand_shallower (Nat.le_of_lt hlt) p
    rw [h.run_eq] at ends
    generalize (Grammar.operand (Nested.withLevels n)).run p = y at ends
    cases ends with
    | ok he ho =>
      cases Lockstep.eq_of_shallower ho.parsers
      rw [he.eq]
      exact .ok rfl
    | excused he =>
      obtain ⟨offset, rfl⟩ := he
      exact .tooDeep hlt
  · have ends := Lockstep.operand_shallower hle p
    rw [h.run_eq] at ends
    generalize (Grammar.operand (Nested.withLevels n)).run p = y at ends
    cases ends with
    | ok he ho =>
      cases Lockstep.eq_of_shallower ho.parsers
      rw [← he.eq]
      exact .ok rfl

theorem ReadsLinks.split (h : p.ReadsLinks k (xs ++ ys) r) :
    ∃ q, p.ReadsLinks k xs q ∧ q.ReadsLinks k ys r := by
  induction xs generalizing p with
  | nil => exact ⟨p, .nil, h⟩
  | cons x xs ih =>
    cases h with
    | cons hx hm hu h =>
      obtain ⟨q, hxs, hys⟩ := ih h
      exact ⟨q, .cons hx hm hu hxs, hys⟩

/-- A chain that is grouped stops where its last token does. -/
theorem ReadsLinks.stop_eq {g : Grouping} (h : p.ReadsLinks k xs q) (hg : g.stop = p.lastStop) :
    (g.group xs).stop = q.lastStop := by
  fun_induction Grouping.group g xs generalizing p with
  | case1 g xs hn =>
    obtain rfl : xs = [] := Split.eq_nil_of_root? hn
    cases h
    exact hg
  | case2 g xs s hs _ ih =>
    rw [← Split.links_of_root? hs] at h
    obtain ⟨_, -, h⟩ := h.split
    cases h with
    | cons _ _ hu h => exact ih h hu.stop_eq

theorem chainStrength?_of_lexeme {op : ChainOp} (h : p.token.lexeme = op.lexeme) :
    Grammar.chainStrength? p.kind = some op.strength := by
  rw [kind_eq_of_lexeme h, op.chainStrength?_lexeme]

theorem ReadsLinks.stopped {bound : Nat} (h : p.ReadsLinks k xs q) (hq : q.Stopped bound)
    (hx : ∀ x ∈ xs.head?, x.op.strength ≤ bound) : p.Stopped bound := by
  cases h with
  | nil => exact hq
  | cons hl =>
    intro next hn
    cases (chainStrength?_of_lexeme hl).symm.trans hn
    exact hx _ rfl

section

variable [LawfulCursor C]

theorem ReadsOperand.parses (h : p.ReadsOperand k u q) (hv : Valid p.cursor) :
    Parses k .operand p u.expr q :=
  (Grammar.operand_iff (Nested.follows_withLevels k) hv).1 h.run_eq

theorem ReadsLinks.valid (h : p.ReadsLinks k xs q) (hv : Valid p.cursor) : Valid q.cursor := by
  induction h with
  | nil => exact hv
  | cons _ hm hu _ ih => exact ih ((hu.parses (hm.valid hv)).valid (hm.valid hv))

theorem ReadsLinks.length_le (h : p.ReadsLinks k xs q) (hv : Valid p.cursor) :
    xs.length ≤ ahead p.cursor := by
  induction h with
  | nil => exact Nat.zero_le _
  | cons hl hm hu _ ih =>
    have hv₁ := hm.valid hv
    have hp := hu.parses hv₁
    have := hm.ahead_lt hv (kind_ne (chainStrength?_of_lexeme hl) nofun)
    have := hp.ahead_le hv₁
    have := ih (hp.valid hv₁)
    rw [List.length_cons]
    omega

end

/-! The loop of the parser. -/

variable {inner : Nested C} {least strength fuel : Nat} {left : Expr}

theorem run_climb_of_stopped (h : p.Stopped least) (start : Position) :
    (Grammar.climb inner start least fuel left).run p = .ok left p := by
  cases fuel with
  | zero => rfl
  | succ fuel => exact Grammar.climb_succ_eq_ok.2 (.inl ⟨h, rfl, rfl⟩)

theorem run_checkPowerBase_of_fault {o : Nat} (hk : p.kind = .exponent)
    (h : left.powerFault? = some o) :
    (Grammar.checkPowerBase p.kind left).run p = .error (.fault .ambiguousPower o) p := by
  unfold Expr.powerFault? at h
  split at h
  · split at h
    · cases h
    · cases h
      rw [hk, Grammar.checkPowerBase, if_pos]
      · rfl
      · simp_all
  · cases h

theorem kind_of_power {op : ChainOp} (h : p.token.lexeme = op.lexeme) (hp : op.isPower = true) :
    p.kind = .exponent := by
  rw [kind_eq_of_lexeme h]
  cases eq_of_beq hp
  rfl

theorem run_climb_of_fault {op : ChainOp} {o : Nat} (h : p.token.lexeme = op.lexeme)
    (hlt : least < op.strength) (ho : op.fault? left = some o) (start : Position) :
    (Grammar.climb inner start least (fuel + 1) left).run p =
      .error (.fault .ambiguousPower o) p := by
  obtain ⟨hp, ho⟩ := Option.ite_none_right_eq_some.1 ho
  rw [Grammar.climb, Step.run_current_bind]
  simp only [token_kind, chainStrength?_of_lexeme h]
  rw [if_neg (Nat.not_le_of_lt hlt), EStateM.run_bind,
    run_checkPowerBase_of_fault (kind_of_power h hp) ho]

theorem operatorAt_of_lexeme {op : ChainOp} (h : p.token.lexeme = op.lexeme)
    (hlt : least < op.strength) (hn : op.fault? left = none) :
    p.OperatorAt least op.strength left op.node where
  strength_eq := chainStrength?_of_lexeme h
  least_lt := hlt
  base hk := by
    have hp : op.isPower = true := by
      rw [← op.isRightAssociative_lexeme, ← kind_eq_of_lexeme h, hk]
      rfl
    exact Expr.powerFault?_eq_none.1 ((if_pos hp).symm.trans hn)
  node_eq := by
    cases op with
    | logical op => exact node?_of_logical h
    | binary op => exact node?_of_binary h

/-- How many of the operators are `**`. Each may take a level of nesting. -/
def powers (links : List Link) : Nat := links.countP (·.op.isPower)

theorem powers_turn (x : Link) (xs ys : List Link) :
    powers (x :: (xs ++ ys)) = powers xs + powers ys + if x.op.isPower then 1 else 0 := by
  rw [powers, List.countP_cons, List.countP_append]
  rfl

/-- What the loop does with a right operand, it does with it on the next level if it is that of `**`. -/
theorem right_grouped {op : ChainOp} {g g' : Grouping} {d m : Nat}
    (hx : p.token.lexeme = op.lexeme) (hf : m ≤ fuel) (hr : m ≤ TokenCursor.remaining q.cursor)
    (h : ∀ n fuel, m ≤ fuel → Grouped (n < d) g' r
      ((Grammar.climb (Nested.withLevels n) g.start op.bound fuel g.expr).run q)) (n : Nat) :
    Grouped (n < d + if op.isPower then 1 else 0) g' r
      ((if p.kind.isRightAssociative then
        (Nested.withLevels n).climb g.expr g.start (op.strength - 1)
      else Grammar.climb (Nested.withLevels n) g.start op.strength fuel g.expr).run q) := by
  rw [kind_eq_of_lexeme hx, op.isRightAssociative_lexeme]
  cases hp : op.isPower with
  | false =>
    rw [ChainOp.bound_of_not_isPower hp] at h
    exact h n fuel hf
  | true =>
    rw [ChainOp.bound_of_isPower hp] at h
    cases n with
    | zero => exact .tooDeep (Nat.succ_pos _)
    | succ n => exact (h n _ hr).imp Nat.succ_lt_succ

/-- The part `g` of a chain is read, and the links after it follow. None of them is for the parser's
caller to take, and what follows them is. -/
structure ChainAt (k least : Nat) (p : Parser C) (g : Grouping) (links : List Link)
    (q : Parser C) : Prop where
  reads : p.ReadsLinks k links q
  faults_eq : g.faults = []
  stop_eq : g.stop = p.lastStop
  least_lt : ∀ x ∈ links, least < x.op.strength
  stopped : q.Stopped least

/-- A turn of the loop. The right operand is a chain of its own, and with it the part that is read
grows by an operator. -/
theorem ChainAt.turn {g : Grouping} {x : Link} (h : p.ChainAt k least g (x :: links) q) :
    ∃ p₁ p₂ p₃ xs ys, links = xs ++ ys ∧ p.token.lexeme = x.op.lexeme ∧ p.Moves p₁ ∧
      p₁.ReadsOperand k x.operand p₂ ∧ p₂.ChainAt k x.op.bound (.operand x.operand) xs p₃ ∧
      g.group (x :: links) = (Grouping.node x.op g (.group (.operand x.operand) xs)).group ys ∧
      ((Grouping.node x.op g (.group (.operand x.operand) xs)).faults = [] →
        p₃.ChainAt k least (.node x.op g (.group (.operand x.operand) xs)) ys q) := by
  obtain ⟨hlt, hlinks⟩ := List.forall_mem_cons.1 h.least_lt
  obtain ⟨xs, ys, rfl, hxs, hys⟩ := x.op.exists_taken links
  cases h.reads with
  | @cons _ p₁ p₂ _ _ _ hx hm hu hl =>
    obtain ⟨p₃, hl, hl'⟩ := hl.split
    have hstop : p₃.Stopped x.op.bound := by
      refine hl'.stopped (fun next hn => ?_) hys
      exact Nat.le_trans (h.stopped next hn) (ChainOp.le_bound hlt)
    refine ⟨p₁, p₂, p₃, xs, ys, rfl, hx, hm, hu, ⟨hl, rfl, hu.stop_eq, hxs, hstop⟩,
      g.group_turn hxs hys, fun hf => ?_⟩
    refine ⟨hl', hf, hl.stop_eq hu.stop_eq, fun y hy => ?_, h.stopped⟩
    exact hlinks y (List.mem_append_right _ hy)

variable [LawfulCursor C]

/-- The loop makes of a chain what its grouping says. -/
theorem ChainAt.grouped {g : Grouping} (h : p.ChainAt k least g links q) (hv : Valid p.cursor)
    (hf : links.length ≤ fuel) (n : Nat) : Grouped (n < k + powers links) (g.group links) q
      ((Grammar.climb (Nested.withLevels n) g.start least fuel g.expr).run p) := by
  -- The links of the right operand are fewer, and so are those that follow it.
  induction hn : links.length using Nat.strongRecOn generalizing p q g links least fuel n with
  | ind length ih =>
    cases links with
    | nil =>
      cases h.reads
      rw [Grouping.group_nil, run_climb_of_stopped h.stopped]
      exact .ok h.faults_eq
    | cons x links =>
      have hlt := h.least_lt x List.mem_cons_self
      obtain ⟨p₁, p₂, p₃, xs, ys, rfl, hx, hm, hu, hright, hgroup, hnext⟩ := h.turn
      have hfirst := Grouping.faults_prefix (.node x.op g (.group (.operand x.operand) xs)) ys
      rw [← hgroup, Grouping.faults, h.faults_eq, List.nil_append] at hfirst
      rw [List.length_cons, List.length_append] at hn hf
      cases fuel with
      | zero => cases hf
      | succ fuel =>
        cases hfault : x.op.fault? g.expr with
        | some o =>
          rw [hfault] at hfirst
          obtain ⟨rest, hr⟩ := hfirst
          rw [run_climb_of_fault hx hlt hfault]
          refine .fault ?_
          rw [← hr]
          rfl
        | none =>
          rw [hfault, Option.toList_none, List.nil_append] at hfirst
          have hv₁ := hm.valid hv
          have hv₂ := (hu.parses hv₁).valid hv₁
          have hremaining : xs.length ≤ TokenCursor.remaining p₂.cursor :=
            Nat.le_trans (hright.reads.length_le hv₂) (TokenCursor.ahead_le _)
          have hr := right_grouped hx (by omega : xs.length ≤ fuel) hremaining
            (fun n fuel hf => ih xs.length (by omega) hright hv₂ hf n rfl) n
          have hp := powers_turn x xs ys
          rw [Grammar.run_climb_succ (operatorAt_of_lexeme hx hlt hfault) hm, ← hu.start_eq]
          refine ((hu.grouped n).imp (by omega)).bind List.nil_prefix fun _ => ?_
          refine (hr.imp (by omega)).bind hfirst fun hn => ?_
          rw [Step.run_infoFrom_bind, hgroup, infoFrom, ← hright.reads.stop_eq hright.stop_eq]
          have hnode : (Grouping.node x.op g (.group (.operand x.operand) xs)).faults = [] := by
            rw [Grouping.faults, h.faults_eq, hfault, hn]
            rfl
          have hrest := ih ys.length (by omega) (hnext hnode) (hright.reads.valid hv₂)
            (by omega : ys.length ≤ fuel) n rfl
          exact hrest.imp (by omega)

/-- The tokens of `a * b ** c`. -/
def powerTokens : List Token :=
  [{ kind := .name, value := .text "a" }, { kind := .star, value := .text "*" },
    { kind := .name, value := .text "b" }, { kind := .exponent, value := .text "**" },
    { kind := .name, value := .text "c" }, {}]

/-- A parser that has passed so many of them. -/
def powerParser (passed : Nat) : Parser TokenList :=
  ofCursor
    { input := []
      current := powerTokens.getD passed {}
      ahead := (powerTokens.drop (passed + 1)).map .ok } {}

theorem powerParser_valid : (powerParser 0).cursor.Valid where
  genuine := .name
  genuine_ahead := by
    simp only [powerParser, ofCursor, powerTokens, List.drop, List.map, List.mem_cons,
      Except.ok.injEq, List.not_mem_nil, or_false]
    rintro t (rfl | rfl | rfl | rfl | rfl)
    · exact .symbol (show ⟨"*", .star⟩ ∈ Symbol.all by decide)
    · exact .name
    · exact .symbol (show ⟨"**", .exponent⟩ ∈ Symbol.all by decide)
    · exact .name
    · exact .eof
  ends := rfl

end Parser

end ArithLang
