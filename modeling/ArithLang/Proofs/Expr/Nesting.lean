import ArithLang.Proofs.Expr.Spelling

/-!
How deep a tree nests. A grammatical tree has a spelling within the levels of nesting that it needs,
and no spelling makes do with fewer.
-/

namespace ArithLang

open Lexeme (mark)

/-- The levels of nesting needed by the first operand of a tree and by the rest of it. -/
structure Levels where
  first : Nat
  rest : Nat

namespace Levels

def all (d : Levels) : Nat := max d.first d.rest

def both (d : Nat) : Levels := ⟨d, d⟩

end Levels

namespace Info

def enclose (i : Info) (ts : List Lexeme) : List Lexeme :=
  if i.extra.parenthesized then mark .parenL :: ts ++ [mark .parenR] else ts

/-- Within parentheses all is in the first operand, one level deeper. -/
def enter (i : Info) (d : Levels) : Levels :=
  if i.extra.parenthesized then ⟨d.all + 1, 0⟩ else d

variable {i : Info} {ts : List Lexeme} {d : Levels}

@[simp] theorem enclose_of_bare (h : i.Bare) : i.enclose ts = ts :=
  if_neg (ne_true_of_eq_false h)

@[simp] theorem enclose_of_parenthesized (h : i.extra.parenthesized = true) :
    i.enclose ts = mark .parenL :: ts ++ [mark .parenR] :=
  if_pos h

@[simp] theorem enter_of_bare (h : i.Bare) : i.enter d = d :=
  if_neg (ne_true_of_eq_false h)

@[simp] theorem enter_of_parenthesized (h : i.extra.parenthesized = true) :
    i.enter d = ⟨d.all + 1, 0⟩ :=
  if_pos h

theorem all_le_enter (i : Info) (d : Levels) : d.all ≤ (i.enter d).all := by
  unfold enter
  split
  · exact Nat.le_trans (Nat.le_succ _) (Nat.le_max_left ..)
  · exact Nat.le_refl _

end Info

namespace Expr

mutual

/-- A spelling with one pair of parentheses around each node that is marked. -/
@[simp] def spelling : Expr → List Lexeme
  | number v i => i.enclose [(.num, .number v)]
  | identifier name i => i.enclose [(.name, .text name)]
  | member object property _ i =>
    i.enclose (object.spelling ++ mark .bracketL :: property.spelling ++ [mark .bracketR])
  | sequence [] i => i.enclose []
  | sequence (e :: es) i => i.enclose (e.spelling ++ spellingList es)
  | assignment op left right i => i.enclose (left.spelling ++ op.lexeme :: right.spelling)
  | conditional test consequent alternate i =>
    i.enclose (test.spelling ++ mark .question :: consequent.spelling ++
      mark .colon :: alternate.spelling)
  | logical op left right i => i.enclose (left.spelling ++ op.lexeme :: right.spelling)
  | binary op left right i => i.enclose (left.spelling ++ op.lexeme :: right.spelling)
  | unary op _ argument i => i.enclose (op.lexeme :: argument.spelling)
  | update op true argument i => i.enclose (op.lexeme :: argument.spelling)
  | update op false argument i => i.enclose (argument.spelling ++ [op.lexeme])

def spellingList : List Expr → List Lexeme
  | [] => []
  | e :: es => mark .comma :: e.spelling ++ spellingList es

end

mutual

def levels : Expr → Levels
  | number _ i | identifier _ i => i.enter ⟨0, 0⟩
  | member object property _ i =>
    i.enter ⟨max object.levels.first (property.levels.all + 1), object.levels.rest⟩
  | sequence es i => i.enter (.both (levelsList es))
  | assignment _ left right i => i.enter (.both (max left.levels.all (right.levels.all + 1)))
  | conditional test consequent alternate i =>
    i.enter (.both (max test.levels.all
      (max consequent.levels.all alternate.levels.all + 1)))
  | logical _ left right i => i.enter ⟨left.levels.first, max left.levels.rest right.levels.all⟩
  | binary .exp left right i =>
    i.enter ⟨left.levels.first,
      max left.levels.rest (max right.levels.first (right.levels.rest + 1))⟩
  | binary _ left right i => i.enter ⟨left.levels.first, max left.levels.rest right.levels.all⟩
  | unary _ _ argument i | update _ true argument i => i.enter ⟨argument.levels.all + 1, 0⟩
  | update _ false argument i => i.enter argument.levels

def levelsList : List Expr → Nat
  | [] => 0
  | e :: es => max e.levels.all (levelsList es)

end

/-- How many levels of nesting a tree needs as an expression. -/
def nesting (e : Expr) : Nat := e.levels.all + 1

theorem exists_levels (e : Expr) : ∃ d, ∀ i, (e.withInfo i).levels = i.enter d := by
  cases e with
  | binary op => cases op <;> exact ⟨_, fun _ => rfl⟩
  | update op isPrefix => cases isPrefix <;> exact ⟨_, fun _ => rfl⟩
  | _ => exact ⟨_, fun _ => rfl⟩

theorem levels_binary {op : BinaryOp} {l r : Expr} {i : Info} (h : op ≠ .exp) :
    (binary op l r i).levels = i.enter ⟨l.levels.first, max l.levels.rest r.levels.all⟩ := by
  cases op <;> first | rfl | contradiction

theorem levelsList_le {es : List Expr} {n : Nat} (h : ∀ e ∈ es, e.levels.all ≤ n) :
    levelsList es ≤ n := by
  induction es with
  | nil => exact Nat.zero_le _
  | cons e es ih =>
    rw [List.forall_mem_cons] at h
    exact Nat.max_le.2 ⟨h.1, ih h.2⟩

end Expr

/-- The levels suffice for the first operand and for the rest. -/
structure Levels.Within (m n : Nat) (d : Levels) : Prop where
  first : d.first ≤ m
  rest : d.rest ≤ n

namespace Levels

variable {m n : Nat} {d : Levels}

theorem within_same : d.Within n n ↔ d.all ≤ n := by
  constructor
  · rintro ⟨hf, hr⟩
    exact Nat.max_le.2 ⟨hf, hr⟩
  · intro h
    obtain ⟨hf, hr⟩ := Nat.max_le.1 h
    exact ⟨hf, hr⟩

theorem within_both {k : Nat} (h : k ≤ n) : (both k).Within n n := ⟨h, h⟩

end Levels

namespace Spells

variable {m n : Nat} {e : Expr} {ts : List Lexeme}

open Levels

/-- Every spelling needs the levels that its tree needs. -/
theorem within (h : Spells m n e ts) : e.levels.Within m n := by
  induction h with
  | number hi | identifier hi =>
    rw [Expr.levels, Info.enter_of_bare hi]
    exact ⟨Nat.zero_le _, Nat.zero_le _⟩
  | member hi _ _ iho ihp =>
    rw [Expr.levels, Info.enter_of_bare hi]
    exact ⟨Nat.max_le.2 ⟨iho.first, Nat.succ_le_succ (within_same.1 ihp)⟩, iho.rest⟩
  | sequence hi _ _ ihf ihs =>
    rw [Expr.levels, Info.enter_of_bare hi]
    apply within_both
    refine Nat.max_le.2 ⟨within_same.1 ihf, Expr.levelsList_le ?_⟩
    rw [List.forall_mem_map]
    intro part hpart
    exact within_same.1 (ihs part hpart)
  | assignment hi _ _ ihl ihr =>
    rw [Expr.levels, Info.enter_of_bare hi]
    apply within_both
    exact Nat.max_le.2 ⟨within_same.1 ihl, Nat.succ_le_succ (within_same.1 ihr)⟩
  | conditional hi _ _ _ iht ihc iha =>
    rw [Expr.levels, Info.enter_of_bare hi]
    apply within_both
    have hca := Nat.max_le.2 ⟨within_same.1 ihc, within_same.1 iha⟩
    exact Nat.max_le.2 ⟨within_same.1 iht, Nat.succ_le_succ hca⟩
  | logical hi _ _ ihl ihr =>
    rw [Expr.levels, Info.enter_of_bare hi]
    exact ⟨ihl.first, Nat.max_le.2 ⟨ihl.rest, within_same.1 ihr⟩⟩
  | binary hi hne _ _ ihl ihr =>
    rw [Expr.levels_binary hne, Info.enter_of_bare hi]
    exact ⟨ihl.first, Nat.max_le.2 ⟨ihl.rest, within_same.1 ihr⟩⟩
  | power hi _ _ ihl ihr =>
    rw [Expr.levels, Info.enter_of_bare hi]
    have hr := Nat.max_le.2 ⟨ihr.first, Nat.succ_le_succ ihr.rest⟩
    exact ⟨ihl.first, Nat.max_le.2 ⟨ihl.rest, hr⟩⟩
  | unary hi _ iha | prefixUpdate hi _ iha =>
    rw [Expr.levels, Info.enter_of_bare hi]
    exact ⟨Nat.succ_le_succ (within_same.1 iha), Nat.zero_le _⟩
  | postfixUpdate hi _ iha =>
    rw [Expr.levels, Info.enter_of_bare hi]
    exact iha
  | @parenthesized _ e _ _ i hi _ ih =>
    obtain ⟨d, hd⟩ := e.exists_levels
    have hle := e.info.all_le_enter d
    rw [← hd, Expr.withInfo_info] at hle
    rw [hd, Info.enter_of_parenthesized hi]
    exact ⟨Nat.succ_le_succ (Nat.le_trans hle (within_same.1 ih)), Nat.zero_le _⟩

/-- Parentheses make a spelling of any place of what would stand there without them. -/
theorem enclose {i : Info} {d : Levels} (hd : (i.enter d).Within m n)
    (hp : m = n ∨ (e.withInfo i).standsInChain = true)
    (h : ∀ m n j, j.Bare → d.Within m n → (m = n ∨ (e.withInfo j).standsInChain = true) →
      Spells m n (e.withInfo j) ts) :
    Spells m n (e.withInfo i) (i.enclose ts) := by
  cases hi : i.extra.parenthesized with
  | false =>
    rw [Info.enter_of_bare hi] at hd
    rw [Info.enclose_of_bare hi]
    exact h m n i hi hd hp
  | true =>
    rw [Info.enter_of_parenthesized hi] at hd
    rw [Info.enclose_of_parenthesized hi]
    cases m with
    | zero => cases hd.first
    | succ m =>
      have hb : Spells m m (e.withInfo {}) ts :=
        h m m {} rfl (within_same.2 (Nat.le_of_succ_le_succ hd.first)) (.inl rfl)
      rw [← Expr.withInfo_withInfo {} i]
      exact .parenthesized hi hb

end Spells

namespace Expr

open Levels Spells

theorem spellingList_eq (es : List Expr) :
    spellingList es = (es.map fun e => (e, e.spelling)).flatMap fun part => mark .comma :: part.2 := by
  induction es with
  | nil => rfl
  | cons e es ih => rw [spellingList, ih, List.map_cons, List.flatMap_cons]

theorem le_levelsList {e : Expr} {es : List Expr} (h : e ∈ es) : e.levels.all ≤ levelsList es := by
  induction h with
  | head => exact Nat.le_max_left ..
  | tail _ _ ih => exact Nat.le_trans ih (Nat.le_max_right ..)

/-- What needs a level more than others leaves them the levels under it. -/
theorem exists_level {k m : Nat} (h : k + 1 ≤ m) : ∃ n, m = n + 1 ∧ k ≤ n := by
  cases m with
  | zero => cases h
  | succ n => exact ⟨n, rfl, Nat.le_of_succ_le_succ h⟩

/-- The tree is spelled by its spelling wherever the levels suffice. The two bounds may differ only
where an operand of a chain stands. -/
def Fits (e : Expr) : Prop :=
  ∀ m n, e.levels.Within m n → (m = n ∨ e.standsInChain = true) → Spells m n e e.spelling

namespace Fits

variable {e l r t c a : Expr} {i : Info} {m n : Nat} {isPrefix : Bool}

theorem same (h : e.Fits) (hd : e.levels.all ≤ n) : Spells n n e e.spelling :=
  h n n (within_same.2 hd) (.inl rfl)

theorem operand (h : e.Fits) (hs : e.standsInChain = true) (hf : e.levels.first ≤ m)
    (hr : e.levels.rest ≤ n) : Spells m n e e.spelling :=
  h m n ⟨hf, hr⟩ (.inr hs)

theorem number (v : Number) (i : Info) : (number v i).Fits := by
  intro m n hd hp
  rw [spelling]
  exact enclose (e := Expr.number v i) hd hp fun _ _ _ hj _ _ => .number hj

theorem identifier (name : String) (i : Info) : (identifier name i).Fits := by
  intro m n hd hp
  rw [spelling]
  exact enclose (e := Expr.identifier name i) hd hp fun _ _ _ hj _ _ => .identifier hj

theorem member (hs : e.standsUnderSubscript = true) (h : e.Fits) (h' : r.Fits) :
    (member e r true i).Fits := by
  intro m n hd hp
  rw [spelling]
  refine enclose (e := Expr.member e r true i) hd hp fun m n j hj hd _ => ?_
  obtain ⟨hf, hr⟩ := hd
  obtain ⟨hf, hr'⟩ := Nat.max_le.1 hf
  obtain ⟨m, rfl, hle⟩ := exists_level hr'
  exact .member hj
    (h.operand (standsInChain_of_operand (standsUnderPrefix_of_subscript hs)) hf hr)
    (h'.same hle)

theorem sequence {es : List Expr} (h : e.Fits) (hs : ∀ e ∈ es, e.Fits) :
    (sequence (e :: es) i).Fits := by
  intro m n hd hp
  rw [spelling, spellingList_eq]
  refine enclose (e := Expr.sequence (e :: es) i) hd hp fun m n j hj hd hp => ?_
  obtain rfl : m = n := hp.resolve_right (by simp [Expr.withInfo, hj.eq])
  obtain ⟨hf, hr⟩ := Nat.max_le.1 hd.first
  have hall : ∀ part ∈ es.map fun e => (e, e.spelling), Spells m m part.1 part.2 := by
    rw [List.forall_mem_map]
    intro e he
    exact (hs e he).same (Nat.le_trans (le_levelsList he) hr)
  have hspells := Spells.sequence hj (h.same hf) hall
  rw [List.map_map] at hspells
  have hid : (Prod.fst ∘ fun e : Expr => (e, e.spelling)) = id := rfl
  rwa [hid, List.map_id] at hspells

theorem assignment {op : AssignOp} (h : l.Fits) (h' : r.Fits) : (assignment op l r i).Fits := by
  intro m n hd hp
  rw [spelling]
  refine enclose (e := Expr.assignment op l r i) hd hp fun m n j hj hd hp => ?_
  obtain rfl : m = n := hp.resolve_right (by simp [Expr.withInfo, hj.eq])
  obtain ⟨hl, hr⟩ := Nat.max_le.1 hd.first
  obtain ⟨n, rfl, hle⟩ := exists_level hr
  exact .assignment hj (h.same hl) (h'.same hle)

theorem conditional (h : t.Fits) (h' : c.Fits) (h'' : a.Fits) : (conditional t c a i).Fits := by
  intro m n hd hp
  rw [spelling]
  refine enclose (e := Expr.conditional t c a i) hd hp fun m n j hj hd hp => ?_
  obtain rfl : m = n := hp.resolve_right (by simp [Expr.withInfo, hj.eq])
  obtain ⟨ht, hb⟩ := Nat.max_le.1 hd.first
  obtain ⟨n, rfl, hle⟩ := exists_level hb
  obtain ⟨hc, ha⟩ := Nat.max_le.1 hle
  exact .conditional hj (h.same ht) (h'.same hc) (h''.same ha)

theorem logical {op : LogicalOp} (hs : l.standsInChain = true) (h : l.Fits) (h' : r.Fits) :
    (logical op l r i).Fits := by
  intro m n hd hp
  rw [spelling]
  refine enclose (e := Expr.logical op l r i) hd hp fun m n j hj hd _ => ?_
  obtain ⟨hl, hr⟩ := Nat.max_le.1 hd.rest
  exact .logical hj (h.operand hs hd.first hl) (h'.same hr)

theorem power (hs : l.standsInChain = true) (hs' : r.standsInChain = true) (h : l.Fits)
    (h' : r.Fits) : (binary .exp l r i).Fits := by
  intro m n hd hp
  rw [spelling]
  refine enclose (e := Expr.binary .exp l r i) hd hp fun m n j hj hd _ => ?_
  obtain ⟨hl, hr⟩ := Nat.max_le.1 hd.rest
  obtain ⟨hf, hr⟩ := Nat.max_le.1 hr
  obtain ⟨n, rfl, hle⟩ := exists_level hr
  exact .power hj (h.operand hs hd.first hl) (h'.operand hs' hf hle)

theorem binary {op : BinaryOp} (hne : op ≠ .exp) (hs : l.standsInChain = true) (h : l.Fits)
    (h' : r.Fits) : (binary op l r i).Fits := by
  intro m n hd hp
  rw [spelling]
  rw [levels_binary hne] at hd
  refine enclose (e := Expr.binary op l r i) hd hp fun m n j hj hd _ => ?_
  obtain ⟨hl, hr⟩ := Nat.max_le.1 hd.rest
  exact .binary hj hne (h.operand hs hd.first hl) (h'.same hr)

theorem unary {op : UnaryOp} (h : a.Fits) : (unary op true a i).Fits := by
  intro m n hd hp
  rw [spelling]
  refine enclose (e := Expr.unary op true a i) hd hp fun m n j hj hd _ => ?_
  have hf : a.levels.all + 1 ≤ m := hd.first
  obtain ⟨m, rfl, hle⟩ := exists_level hf
  exact .unary hj (h.same hle)

theorem prefixUpdate {op : UpdateOp} (h : a.Fits) : (update op true a i).Fits := by
  intro m n hd hp
  rw [spelling]
  refine enclose (e := Expr.update op true a i) hd hp fun m n j hj hd _ => ?_
  have hf : a.levels.all + 1 ≤ m := hd.first
  obtain ⟨m, rfl, hle⟩ := exists_level hf
  exact .prefixUpdate hj (h.same hle)

theorem postfixUpdate {op : UpdateOp} (hs : a.standsInChain = true) (h : a.Fits) :
    (update op false a i).Fits := by
  intro m n hd hp
  rw [spelling]
  refine enclose (e := Expr.update op false a i) hd hp fun m n j hj hd _ => ?_
  exact .postfixUpdate hj (h.operand hs hd.first hd.rest)

end Fits

theorem Grammatical.fits {strict : Bool} {e : Expr} (h : e.Grammatical strict) : e.Fits := by
  induction h with
  | @intro e ho _ ih =>
    cases e with
    | number v i => exact .number v i
    | identifier name i => exact .identifier name i
    | member o r =>
      simp only [children, List.forall_mem_cons] at ih
      obtain ⟨rfl, hs⟩ := ho
      exact .member hs ih.1 ih.2.1
    | sequence es =>
      cases es with
      | nil => cases ho.1
      | cons e es =>
        simp only [children, List.forall_mem_cons] at ih
        exact .sequence ih.1 ih.2
    | assignment op l r =>
      simp only [children, List.forall_mem_cons] at ih
      exact .assignment ih.1 ih.2.1
    | conditional t c a =>
      simp only [children, List.forall_mem_cons] at ih
      exact .conditional ih.1 ih.2.1 ih.2.2.1
    | logical op l r =>
      simp only [children, List.forall_mem_cons] at ih
      exact .logical ho.1.chain ih.1 ih.2.1
    | binary op l r =>
      simp only [children, List.forall_mem_cons] at ih
      by_cases hop : op = .exp
      · subst hop
        exact .power ho.1.chain ho.2.chain ih.1 ih.2.1
      · exact .binary hop ho.1.chain ih.1 ih.2.1
    | unary op isPrefix a =>
      simp only [children, List.forall_mem_cons] at ih
      obtain ⟨rfl, -⟩ := ho
      exact .unary ih.1
    | update op isPrefix a =>
      simp only [children, List.forall_mem_cons] at ih
      cases isPrefix with
      | true => exact .prefixUpdate ih.1
      | false =>
        exact .postfixUpdate (standsInChain_of_operand (standsUnderPrefix_of_assignable ho)) ih.1

/-- A tree that meets the demands of the grammar is spelled within the levels that it needs. -/
theorem Grammatical.spells {strict : Bool} {e : Expr} (h : e.Grammatical strict) {n : Nat}
    (hn : e.nesting ≤ n + 1) : Spells n n e e.spelling :=
  h.fits.same (Nat.le_of_succ_le_succ hn)

theorem nesting_le {e : Expr} {n : Nat} {ts : List Lexeme} (h : Spells n n e ts) :
    e.nesting ≤ n + 1 :=
  Nat.succ_le_succ (within_same.1 h.within)

end Expr

end ArithLang
