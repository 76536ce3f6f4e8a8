import ArithLang.Proofs.Token.Lexeme

/-!
How a chain of operands is grouped. A chain is split at its last weakest operator, but where only the
strongest are left, at the first `**`; the two parts are grouped alike. The same trees come about from
the left, one operator after the other.
-/

namespace ArithLang

namespace Expr

/-- The offset at which a prefix operation is refused as the left operand of `**`. -/
def powerFault? : Expr → Option Nat
  | unary _ _ argument i =>
    if i.extra.parenthesized || i.extra.parenthesizedArgument == some true then none
    else some argument.span.start.offset
  | _ => none

end Expr

/-- An operator of a chain. -/
inductive ChainOp
  | logical : LogicalOp → ChainOp
  | binary : BinaryOp → ChainOp
  deriving DecidableEq, Repr

namespace ChainOp

def lexeme : ChainOp → Lexeme
  | logical op => op.lexeme
  | binary op => op.lexeme

def strength : ChainOp → Nat
  | logical op => op.strength
  | binary op => op.strength

def node : ChainOp → Expr → Expr → Info → Expr
  | logical op => .logical op
  | binary op => .binary op

def isPower (op : ChainOp) : Bool := op == .binary .exp

/-- The right operand takes the operators that are stronger than this. -/
def bound (op : ChainOp) : Nat := if op.isPower then op.strength - 1 else op.strength

/-- The offset at which an expression is refused as the left operand. -/
def fault? (op : ChainOp) (left : Expr) : Option Nat :=
  if op.isPower then left.powerFault? else none

theorem chainStrength?_lexeme (op : ChainOp) :
    Grammar.chainStrength? op.lexeme.1 = some op.strength := by
  cases op with
  | logical op => exact op.chainStrength?_kind
  | binary op => exact op.chainStrength?_kind

theorem strength_pos (op : ChainOp) : 0 < op.strength := by
  cases op with
  | logical op => exact op.strength_pos
  | binary op => exact op.strength_pos

theorem strength_le (op : ChainOp) : op.strength ≤ 10 := by
  obtain op | op := op <;> cases op <;> decide

theorem strength_of_isPower {op : ChainOp} (h : op.isPower = true) : op.strength = 10 := by
  rw [eq_of_beq h]
  rfl

theorem isRightAssociative_lexeme (op : ChainOp) :
    op.lexeme.1.isRightAssociative = op.isPower := by
  obtain op | op := op <;> cases op <;> rfl

theorem bound_of_isPower {op : ChainOp} (h : op.isPower = true) : op.bound = op.strength - 1 :=
  if_pos h

theorem bound_of_not_isPower {op : ChainOp} (h : op.isPower = false) : op.bound = op.strength :=
  if_neg (ne_true_of_eq_false h)

theorem bound_le (op : ChainOp) : op.bound ≤ op.strength := by
  unfold bound
  split <;> omega

theorem le_bound {op : ChainOp} {n : Nat} (h : n < op.strength) : n ≤ op.bound := by
  unfold bound
  split <;> omega

end ChainOp

/-- An operand as it stands in a chain, parentheses included. -/
structure Operand where
  expr : Expr
  start : Position
  stop : Position

/-- An operator and the operand after it. -/
structure Link where
  op : ChainOp
  operand : Operand

/-- The links that go with the right operand of an operator, and those that are left. -/
theorem ChainOp.exists_taken (op : ChainOp) (links : List Link) :
    ∃ xs ys, links = xs ++ ys ∧ (∀ x ∈ xs, op.bound < x.op.strength) ∧
      ∀ y ∈ ys.head?, y.op.strength ≤ op.bound := by
  refine ⟨links.takeWhile (op.bound < ·.op.strength), links.dropWhile (op.bound < ·.op.strength),
    List.takeWhile_append_dropWhile.symm, fun x hx => ?_, fun y hy => ?_⟩
  · simpa using List.all_eq_true.1 List.all_takeWhile x hx
  · have := List.head?_dropWhile_not (op.bound < ·.op.strength) links
    rw [Option.mem_def.1 hy] at this
    simpa using this

/-- A chain that is taken apart at one of its links. -/
structure Split where
  before : List Link
  link : Link
  after : List Link

namespace Split

def links (s : Split) : List Link := s.before ++ s.link :: s.after

/-- The same split of a longer chain. -/
def past (links : List Link) (s : Split) : Split := { s with before := links ++ s.before }

theorem past_past (xs ys : List Link) (s : Split) : (s.past ys).past xs = s.past (xs ++ ys) := by
  simp [past]

theorem links_past (xs : List Link) (s : Split) : (s.past xs).links = xs ++ s.links :=
  List.append_assoc ..

/-- At the first link with a property. -/
def atFirst? (p : Link → Bool) : List Link → Option Split
  | [] => none
  | x :: xs => if p x then some ⟨[], x, xs⟩ else (atFirst? p xs).map (past [x])

/-- At the last link with a property. -/
def atLast? (p : Link → Bool) : List Link → Option Split
  | [] => none
  | x :: xs => ((atLast? p xs).map (past [x])).or (if p x then some ⟨[], x, xs⟩ else none)

variable {p : Link → Bool} {xs ys : List Link} {x : Link} {s : Split}

theorem links_of_atFirst? (h : atFirst? p xs = some s) : s.links = xs := by
  induction xs generalizing s with
  | nil => cases h
  | cons x xs ih =>
    unfold atFirst? at h
    split at h
    · cases h
      rfl
    · obtain ⟨t, ht, rfl⟩ := Option.map_eq_some_iff.1 h
      rw [links_past, ih ht]
      rfl

theorem links_of_atLast? (h : atLast? p xs = some s) : s.links = xs := by
  induction xs generalizing s with
  | nil => cases h
  | cons x xs ih =>
    obtain h | ⟨-, h⟩ := Option.or_eq_some_iff.1 h
    · obtain ⟨t, ht, rfl⟩ := Option.map_eq_some_iff.1 h
      rw [links_past, ih ht]
      rfl
    · split at h
      · cases h
        rfl
      · cases h

theorem atLast?_eq_none : atLast? p xs = none ↔ ∀ x ∈ xs, p x = false := by
  induction xs with
  | nil => simp [atLast?]
  | cons x xs ih =>
    rw [List.forall_mem_cons, ← ih, atLast?]
    cases p x <;> simp

theorem atFirst?_cons (h : p x = true) : atFirst? p (x :: xs) = some ⟨[], x, xs⟩ := if_pos h

theorem atFirst?_cons_of_false (h : p x = false) :
    atFirst? p (x :: xs) = (atFirst? p xs).map (past [x]) :=
  if_neg (ne_true_of_eq_false h)

/-- A last link with a property is the last one of every longer chain. -/
theorem atLast?_append (xs : List Link) (h : atLast? p ys = some s) :
    atLast? p (xs ++ ys) = some (s.past xs) := by
  induction xs with
  | nil => exact h
  | cons x xs ih =>
    rw [List.cons_append, atLast?, ih, Option.map_some, past_past, Option.some_or]
    rfl

/-- No link after the first has the property. -/
theorem atLast?_cons (h : p x = true) (hxs : ∀ y ∈ xs, p y = false) :
    atLast? p (x :: xs) = some ⟨[], x, xs⟩ := by
  rw [atLast?, atLast?_eq_none.2 hxs, if_pos h]
  rfl

/-- The strength of a chain's weakest operator. -/
def least (xs : List Link) : Nat := (xs.map (·.op.strength)).min?.getD 0

/-- Where a chain is taken apart: at the last of its weakest operators, but where all are of the
greatest strength, at the first `**` if there is one. -/
def root? (xs : List Link) : Option Split :=
  if least xs < 10 then atLast? (·.op.strength == least xs) xs
  else (atFirst? (·.op.isPower) xs).or (atLast? (fun _ => true) xs)

theorem least_eq (hx : x ∈ xs) (h : ∀ y ∈ xs, x.op.strength ≤ y.op.strength) :
    least xs = x.op.strength := by
  have hm : (xs.map (·.op.strength)).min? = some x.op.strength :=
    List.min?_eq_some_iff.2 ⟨List.mem_map_of_mem hx, List.forall_mem_map.2 h⟩
  rw [least, hm]
  rfl

theorem exists_least (h : xs ≠ []) :
    ∃ x ∈ xs, x.op.strength = least xs ∧ ∀ y ∈ xs, x.op.strength ≤ y.op.strength := by
  obtain ⟨m, hm⟩ := Option.isSome_iff_exists.1
    (List.isSome_min?_of_ne_nil (mt List.map_eq_nil_iff.1 h : xs.map (·.op.strength) ≠ []))
  obtain ⟨hmem, hle⟩ := List.min?_eq_some_iff.1 hm
  obtain ⟨x, hx, rfl⟩ := List.mem_map.1 hmem
  have hle := List.forall_mem_map.1 hle
  exact ⟨x, hx, (least_eq hx hle).symm, hle⟩

theorem least_le (hx : x ∈ xs) : least xs ≤ x.op.strength := by
  obtain ⟨y, -, hy, hle⟩ := exists_least (List.ne_nil_of_mem hx)
  exact hy ▸ hle x hx

/-- In front of weaker operators stronger ones change nothing. -/
theorem least_append (hy : ys ≠ []) (h : ∀ x ∈ xs, least ys ≤ x.op.strength) :
    least (xs ++ ys) = least ys := by
  obtain ⟨y, hmem, hy, -⟩ := exists_least hy
  rw [← hy] at h ⊢
  refine least_eq (List.mem_append_right _ hmem) fun z hz => ?_
  obtain hz | hz := List.mem_append.1 hz
  · exact h z hz
  · exact hy ▸ least_le hz

theorem links_of_root? (h : root? xs = some s) : s.links = xs := by
  unfold root? at h
  split at h
  · exact links_of_atLast? h
  · obtain h | ⟨-, h⟩ := Option.or_eq_some_iff.1 h
    · exact links_of_atFirst? h
    · exact links_of_atLast? h

theorem exists_root (h : xs ≠ []) : ∃ s, root? xs = some s := by
  rw [← Option.ne_none_iff_exists']
  intro hn
  obtain ⟨x, hx, hl, -⟩ := exists_least h
  unfold root? at hn
  split at hn
  · exact absurd (atLast?_eq_none.1 hn x hx) (by simpa using hl)
  · exact absurd (atLast?_eq_none.1 (Option.or_eq_none_iff.1 hn).2 x hx) nofun

theorem eq_nil_of_root? (h : root? xs = none) : xs = [] := by
  cases xs with
  | nil => rfl
  | cons x xs =>
    obtain ⟨s, hs⟩ := exists_root (List.cons_ne_nil x xs)
    cases h.symm.trans hs

/-- A chain of which the first operator leaves nothing over is taken apart there. -/
theorem root?_cons (h : ∀ y ∈ xs, x.op.bound < y.op.strength) : root? (x :: xs) = some ⟨[], x, xs⟩ := by
  have hle : ∀ y ∈ x :: xs, x.op.strength ≤ y.op.strength := by
    rw [List.forall_mem_cons]
    refine ⟨Nat.le_refl _, fun y hy => ?_⟩
    have := h y hy
    unfold ChainOp.bound at this
    split at this <;> omega
  rw [root?, least_eq List.mem_cons_self hle]
  cases hp : x.op.isPower with
  | true =>
    rw [ChainOp.strength_of_isPower hp, if_neg (Nat.lt_irrefl _), atFirst?_cons hp]
    rfl
  | false =>
    rw [ChainOp.bound_of_not_isPower hp] at h
    split
    · refine atLast?_cons (beq_self_eq_true _) fun y hy => ?_
      exact beq_eq_false_iff_ne.2 (Nat.ne_of_gt (h y hy))
    · next hs =>
      -- Nothing is stronger than the greatest strength, so this is the only link.
      cases xs with
      | nil =>
        rw [atFirst?_cons_of_false hp]
        rfl
      | cons y _ =>
        have := h y List.mem_cons_self
        have := y.op.strength_le
        omega

/-- Whatever the first operator has taken, the rest of a chain is taken apart as if it stood alone. -/
theorem root?_append (hx : ∀ y ∈ xs, x.op.bound < y.op.strength)
    (hy : ∀ y ∈ ys.head?, y.op.strength ≤ x.op.bound) (h : root? ys = some s) :
    root? (x :: xs ++ ys) = some (s.past (x :: xs)) := by
  have hne : ys ≠ [] := by
    rintro rfl
    cases h
  obtain ⟨y, ys, rfl⟩ := List.exists_cons_of_ne_nil hne
  have hy : y.op.strength ≤ x.op.bound := hy y rfl
  have hl : least (y :: ys) ≤ y.op.strength := least_le List.mem_cons_self
  have hxb := x.op.bound_le
  have hle : ∀ z ∈ x :: xs, least (y :: ys) ≤ z.op.strength := by
    rw [List.forall_mem_cons]
    refine ⟨by omega, fun z hz => ?_⟩
    have := hx z hz
    omega
  rw [root?, least_append hne hle]
  unfold root? at h
  split at h
  · next hlt =>
    rw [if_pos hlt]
    exact atLast?_append _ h
  · next hlt =>
    rw [if_neg hlt]
    -- The first operator is of the greatest strength, so it has taken nothing and is no power.
    obtain rfl : xs = [] := List.eq_nil_iff_forall_not_mem.2 fun z hz => by
      have := hx z hz
      have := z.op.strength_le
      omega
    have hp : x.op.isPower = false := by
      refine eq_false_of_ne_true fun hp => ?_
      have := ChainOp.bound_of_isPower hp
      have := ChainOp.strength_of_isPower hp
      omega
    rw [List.singleton_append, atFirst?_cons_of_false hp]
    obtain h | ⟨hn, h⟩ := Option.or_eq_some_iff.1 h
    · rw [h]
      rfl
    · rw [hn]
      exact atLast?_append [x] h

end Split

/-- A chain with its operands grouped. -/
inductive Grouping
  | operand : Operand → Grouping
  | node : ChainOp → (left right : Grouping) → Grouping

namespace Grouping

def start : Grouping → Position
  | operand u => u.start
  | node _ l _ => l.start

def stop : Grouping → Position
  | operand u => u.stop
  | node _ _ r => r.stop

def expr : Grouping → Expr
  | operand u => u.expr
  | node op l r => op.node l.expr r.expr { span := ⟨l.start, r.stop⟩ }

/-- Where left operands are refused, in the order of the text. -/
def faults : Grouping → List Nat
  | operand _ => []
  | node op l r =>
    l.faults ++ (op.fault? l.expr).toList ++ r.faults

/-- Groups a chain, its first operand given as grouped before. -/
def group (first : Grouping) (links : List Link) : Grouping :=
  match _h : Split.root? links with
  | none => first
  | some s => node s.link.op (group first s.before) (group (operand s.link.operand) s.after)
termination_by links.length
decreasing_by
  all_goals
    have := congrArg List.length (Split.links_of_root? _h)
    simp only [Split.links, List.length_append, List.length_cons] at this
    omega

variable {first : Grouping} {links : List Link} {s : Split}

@[simp] theorem group_nil (first : Grouping) : group first [] = first := by
  rw [group]
  rfl

theorem group_of_root? (h : Split.root? links = some s) : group first links =
    node s.link.op (group first s.before) (group (operand s.link.operand) s.after) := by
  rw [group]
  split
  · next hn => cases hn.symm.trans h
  · next hs => cases hs.symm.trans h; rfl

/-- What is refused in the first operand is refused in the chain, before all else. -/
theorem faults_prefix (first : Grouping) (links : List Link) :
    first.faults <+: (group first links).faults := by
  fun_induction group first links with
  | case1 => exact List.prefix_rfl
  | case2 first links s h ih =>
    rw [faults, List.append_assoc]
    exact ih.trans (List.prefix_append _ _)

/-- The first operator of a chain takes what binds tighter, and the result goes on as the first operand
of the rest. -/
theorem group_turn (first : Grouping) {x : Link} {xs ys : List Link}
    (hx : ∀ y ∈ xs, x.op.bound < y.op.strength) (hy : ∀ y ∈ ys.head?, y.op.strength ≤ x.op.bound) :
    group first (x :: xs ++ ys) =
      group (node x.op first (group (operand x.operand) xs)) ys := by
  -- The root of what follows is the root of the whole, and only what stands before it is in question.
  induction hn : ys.length using Nat.strongRecOn generalizing ys with
  | ind n ih =>
    by_cases hne : ys = []
    · subst hne
      rw [List.append_nil, group_nil, group_of_root? (Split.root?_cons hx), group_nil]
    · obtain ⟨s, hs⟩ := Split.exists_root hne
      have hl := Split.links_of_root? hs
      have hb : s.before.length < n := by
        rw [← hn, ← hl, Split.links, List.length_append, List.length_cons]
        omega
      have hy' : ∀ y ∈ s.before.head?, y.op.strength ≤ x.op.bound := by
        intro y hm
        refine hy y ?_
        rw [← hl, Split.links, List.head?_append, Option.mem_def.1 hm]
        rfl
      rw [group_of_root? (Split.root?_append hx hy hs), group_of_root? hs, ← ih _ hb hy' rfl]
      rfl

end Grouping

end ArithLang
