import ArithLang.Expr

/-!
Trees that are alike but for their layout: the same nodes with the same names, values and notes, at
positions that correspond.
-/

namespace ArithLang

/-- How the positions and the source texts of one layout correspond to those of another. -/
structure Layout where
  start : Position → Position → Prop
  stop : Position → Position → Prop
  raw : String → String → Prop

namespace Layout

/-- The offsets of positions that correspond. -/
inductive Offsets (l : Layout) : Nat → Nat → Prop
  | intro : l.start x y → Offsets l x.offset y.offset

/-- Nothing differs. -/
def same : Layout := ⟨Eq, Eq, Eq⟩

theorem Offsets.eq {a b : Nat} (h : same.Offsets a b) : a = b := by
  cases h with
  | intro h => exact congrArg Position.offset h

theorem Offsets.eq_iff {a b a' b' : Nat} (h : same.Offsets a a') (h' : same.Offsets b b') :
    a = b ↔ a' = b' := by
  rw [h.eq, h'.eq]

theorem offsets_same (a : Nat) : same.Offsets a a := by
  have h : same.start { offset := a } { offset := a } := rfl
  exact .intro h

theorem optionRel_same (x : Option Nat) : Option.Rel same.Offsets x x := by
  cases x with
  | none => exact .none
  | some a => exact .some (offsets_same a)

end Layout

structure Extra.Alike (l : Layout) (x y : Extra) : Prop where
  parenthesized_eq : x.parenthesized = y.parenthesized
  parenStart : Option.Rel l.Offsets x.parenStart y.parenStart
  argument_eq : x.parenthesizedArgument = y.parenthesizedArgument
  raw : Option.Rel l.raw x.raw y.raw
  value_eq : x.rawValue = y.rawValue

structure Info.Alike (l : Layout) (i j : Info) : Prop where
  start : l.start i.span.start j.span.start
  stop : l.stop i.span.stop j.span.stop
  extra : i.extra.Alike l j.extra

theorem eq_of_optionRel {α : Type} {r : α → α → Prop} {x y : Option α} (h : Option.Rel r x y)
    (hr : ∀ a b, r a b → a = b) : x = y := by
  cases h with
  | some h => exact congrArg some (hr _ _ h)
  | none => rfl

theorem Extra.Alike.eq {x y : Extra} (h : x.Alike .same y) : x = y := by
  obtain ⟨hp, hs, ha, hr, hv⟩ := h
  have hs := eq_of_optionRel hs fun _ _ => Layout.Offsets.eq
  have hr := eq_of_optionRel hr fun _ _ => id
  cases x
  cases y
  simp_all

theorem Info.Alike.eq {i j : Info} (h : i.Alike .same j) : i = j := by
  obtain ⟨hs, ht, hx⟩ := h
  obtain ⟨⟨_, _⟩, _⟩ := i
  obtain ⟨⟨_, _⟩, _⟩ := j
  cases hs
  cases ht
  cases hx.eq
  rfl

theorem Extra.alike_same (x : Extra) : x.Alike .same x := by
  refine ⟨rfl, Layout.optionRel_same _, rfl, ?_, rfl⟩
  cases x.raw with
  | none => exact .none
  | some => exact .some rfl

theorem Info.alike_same (i : Info) : i.Alike .same i := ⟨rfl, rfl, Extra.alike_same _⟩

namespace Expr

inductive Alike (l : Layout) : Expr → Expr → Prop
  | number : i.Alike l j → Alike l (.number v i) (.number v j)
  | identifier : i.Alike l j → Alike l (.identifier name i) (.identifier name j)
  | member : i.Alike l j → Alike l o o' → Alike l r r' →
      Alike l (.member o r c i) (.member o' r' c j)
  | sequence {pairs : List (Expr × Expr)} : i.Alike l j → (∀ x ∈ pairs, Alike l x.1 x.2) →
      Alike l (.sequence (pairs.map Prod.fst) i) (.sequence (pairs.map Prod.snd) j)
  | assignment : i.Alike l j → Alike l e e' → Alike l r r' →
      Alike l (.assignment op e r i) (.assignment op e' r' j)
  | conditional : i.Alike l j → Alike l t t' → Alike l c c' → Alike l a a' →
      Alike l (.conditional t c a i) (.conditional t' c' a' j)
  | logical : i.Alike l j → Alike l e e' → Alike l r r' →
      Alike l (.logical op e r i) (.logical op e' r' j)
  | binary : i.Alike l j → Alike l e e' → Alike l r r' →
      Alike l (.binary op e r i) (.binary op e' r' j)
  | unary : i.Alike l j → Alike l a a' → Alike l (.unary op p a i) (.unary op p a' j)
  | update : i.Alike l j → Alike l a a' → Alike l (.update op p a i) (.update op p a' j)

variable {l : Layout} {e e' : Expr}

namespace Alike

theorem info (h : e.Alike l e') : e.info.Alike l e'.info := by
  cases h <;> assumption

theorem start (h : e.Alike l e') : l.start e.span.start e'.span.start := h.info.start

theorem isAssignable_eq (h : e.Alike l e') : e.isAssignable = e'.isAssignable := by
  cases h <;> rfl

theorem isIdentifier_eq (h : e.Alike l e') : e.isIdentifier = e'.isIdentifier := by
  cases h <;> rfl

theorem isParenthesized_eq (h : e.Alike l e') : e.isParenthesized = e'.isParenthesized :=
  h.info.extra.parenthesized_eq

theorem withInfo {i j : Info} (h : e.Alike l e') (hi : i.Alike l j) :
    (e.withInfo i).Alike l (e'.withInfo j) := by
  cases h with
  | number => exact .number hi
  | identifier => exact .identifier hi
  | member _ ho hr => exact .member hi ho hr
  | sequence _ hx => exact .sequence hi hx
  | assignment _ hl hr => exact .assignment hi hl hr
  | conditional _ ht hc ha => exact .conditional hi ht hc ha
  | logical _ hl hr => exact .logical hi hl hr
  | binary _ hl hr => exact .binary hi hl hr
  | unary _ ha => exact .unary hi ha
  | update _ ha => exact .update hi ha

theorem parenthesize {a b : Nat} (h : e.Alike l e') (ho : l.Offsets a b) :
    (e.parenthesize a).Alike l (e'.parenthesize b) := by
  obtain ⟨hs, ht, hx⟩ := h.info
  exact h.withInfo ⟨hs, ht, rfl, .some ho, hx.argument_eq, hx.raw, hx.value_eq⟩

end Alike

theorem Alike.eq (h : e.Alike .same e') : e = e' := by
  induction h with
  | number hi | identifier hi => rw [hi.eq]
  | member hi _ _ ih ih' | assignment hi _ _ ih ih' | logical hi _ _ ih ih'
  | binary hi _ _ ih ih' => rw [hi.eq, ih, ih']
  | sequence hi _ ih => rw [hi.eq, List.map_congr_left ih]
  | conditional hi _ _ _ ih ih' ih'' => rw [hi.eq, ih, ih', ih'']
  | unary hi _ ih | update hi _ ih => rw [hi.eq, ih]

theorem alike_same (e : Expr) : e.Alike .same e := by
  induction hn : sizeOf e using Nat.strongRecOn generalizing e with
  | ind n ih =>
    have hi := Info.alike_same e.info
    have child {c : Expr} (hc : sizeOf c < sizeOf e) : c.Alike .same c := ih _ (hn ▸ hc) c rfl
    cases e with
    | number => exact .number hi
    | identifier => exact .identifier hi
    | sequence es i =>
      have hes : ∀ x ∈ es.map fun e => (e, e), x.1.Alike .same x.2 := by
        intro x hx
        obtain ⟨e, he, rfl⟩ := List.mem_map.1 hx
        have := List.sizeOf_lt_of_mem he
        exact child (by simp only [sequence.sizeOf_spec]; omega)
      have hs := Alike.sequence (show i.Alike .same i from hi) hes
      rw [List.map_map, List.map_map] at hs
      simpa [Function.comp_def] using hs
    | member => exact .member hi (child (by simp; omega)) (child (by simp; omega))
    | assignment => exact .assignment hi (child (by simp; omega)) (child (by simp; omega))
    | logical => exact .logical hi (child (by simp; omega)) (child (by simp; omega))
    | binary => exact .binary hi (child (by simp; omega)) (child (by simp; omega))
    | conditional =>
      exact .conditional hi (child (by simp; omega)) (child (by simp; omega))
        (child (by simp; omega))
    | unary => exact .unary hi (child (by simp; omega))
    | update => exact .update hi (child (by simp; omega))

end Expr

end ArithLang
