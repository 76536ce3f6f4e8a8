import ArithLang.Proofs.Expr.Unique

/-!
Where an arrow function could begin, told by the tokens alone: with a name or with parentheses, where an
expression without a comma begins.
-/

namespace ArithLang

/-- Whether an expression without a comma begins after a token of this kind. -/
def Kind.leadsIn : Kind → Bool
  | .parenL | .bracketL | .comma | .question | .colon => true
  | k => k.isAssignment

/-- Whether a token of this kind begins what could be the parameters of an arrow function. -/
def Kind.opensParameters (k : Kind) : Bool := k == .parenL || k == .name

/-- As many parentheses close as are opened, and none before it is opened. -/
structure Balanced (ts : List Token) : Prop where
  opened_eq : opened ts = closed ts
  opened_le : ∀ us vs, ts = us ++ vs → opened vs ≤ closed vs

/-- After these tokens, or as the first, an expression without a comma begins. -/
def AtStart (ts : List Token) : Prop := ∀ t ∈ ts.getLast?, t.kind.leadsIn = true

/-- A name by itself, or parentheses with what is in them. -/
inductive IsParameters : List Token → Prop
  | name : t.kind = .name → IsParameters [t]
  | group : l.kind = .parenL → Balanced ts → r.kind = .parenR → IsParameters (l :: ts ++ [r])

/-- The tokens end in what could be the parameters of an arrow function. -/
def EndInParameters (ts : List Token) : Prop :=
  ∃ before parameters, ts = before ++ parameters ∧ AtStart before ∧ IsParameters parameters

variable {ts us hs : List Token} {t l r : Token}

theorem balanced_nil : Balanced [] where
  opened_eq := rfl
  opened_le us vs h := by
    obtain ⟨-, rfl⟩ := List.append_eq_nil_iff.1 h.symm
    exact Nat.le_refl 0

theorem balanced_single (h : t.kind.isParen = false) : Balanced [t] := by
  have hmark : IsMark [t.lexeme] := List.forall_mem_singleton.2 h
  obtain ⟨ho, hc⟩ := hmark.opened_eq (show [t].map Token.lexeme = [t.lexeme] from rfl)
  refine ⟨ho.trans hc.symm, fun us vs heq => ?_⟩
  rw [heq, opened_append] at ho
  exact Nat.le_trans (Nat.le_of_eq (Nat.eq_zero_of_add_eq_zero_left ho)) (Nat.zero_le _)

theorem Balanced.append (h : Balanced ts) (h' : Balanced us) : Balanced (ts ++ us) where
  opened_eq := by rw [opened_append, closed_append, h.opened_eq, h'.opened_eq]
  opened_le vs ws heq := by
    obtain ⟨as, rfl, hus⟩ | ⟨as, hts, rfl⟩ := List.append_eq_append_iff.1 heq
    · exact h'.opened_le as ws hus
    · rw [opened_append, closed_append, h'.opened_eq]
      exact Nat.add_le_add_right (h.opened_le vs as hts) _

theorem Balanced.group (hl : l.kind = .parenL) (h : Balanced ts) (hr : r.kind = .parenR) :
    Balanced (l :: ts ++ [r]) := by
  have hopened : opened [l] = 1 ∧ opened [r] = 0 := by simp [opened, hl, hr]
  have hclosed : closed [l] = 0 ∧ closed [r] = 1 := by simp [closed, hl, hr]
  have hall : opened ([l] ++ ts ++ [r]) = closed ([l] ++ ts ++ [r]) := by
    simp only [opened_append, closed_append, h.opened_eq, hopened, hclosed]
    omega
  refine ⟨hall, fun us vs heq => ?_⟩
  cases us with
  | nil =>
    rw [List.nil_append] at heq
    exact heq ▸ Nat.le_of_eq hall
  | cons u us =>
    obtain ⟨-, heq⟩ := List.cons.inj heq
    obtain ⟨as, rfl, hvs⟩ | ⟨as, hts, rfl⟩ := List.append_eq_append_iff.1 heq
    · have hle : opened as + opened vs = 0 := by rw [← opened_append, ← hvs, hopened.2]
      omega
    · have := h.opened_le us as hts
      simp only [opened_append, closed_append, hopened, hclosed]
      omega

/-- In balanced tokens no parenthesis is left open. -/
theorem Balanced.ne_append (h : Balanced ts) (hl : l.kind = .parenL) (hus : Balanced us)
    (before : List Token) : ts ≠ before ++ l :: us := by
  intro heq
  have hle := h.opened_le before (l :: us) heq
  have ho : opened (l :: us) = opened us + 1 := by simp [opened, hl]
  have hc : closed (l :: us) = closed us := by simp [closed, hl]
  rw [ho, hc, hus.opened_eq] at hle
  exact Nat.not_succ_le_self _ hle

/-- Only one parenthesis is the one that is closed at the end. -/
theorem Balanced.eq_of_append (h : Balanced ts) (h' : Balanced us) {before before' : List Token}
    {l l' : Token} (hl : l.kind = .parenL) (hl' : l'.kind = .parenL)
    (heq : before ++ l :: ts = before' ++ l' :: us) : before = before' := by
  obtain ⟨as, rfl, has⟩ | ⟨as, rfl, has⟩ := List.append_eq_append_iff.1 heq
  · cases as with
    | nil => rw [List.append_nil]
    | cons a as =>
      obtain ⟨-, rfl⟩ := List.cons.inj has
      exact absurd rfl (h.ne_append hl' h' as)
  · cases as with
    | nil => rw [List.append_nil]
    | cons a as =>
      obtain ⟨-, rfl⟩ := List.cons.inj has
      exact absurd rfl (h'.ne_append hl h as)

theorem IsParameters.last (h : IsParameters ts) :
    ∃ us t, ts = us ++ [t] ∧ (t.kind = .name ∨ t.kind = .parenR) := by
  cases h with
  | name ht => exact ⟨[], _, rfl, .inl ht⟩
  | group _ _ hr => exact ⟨_ :: _, _, rfl, .inr hr⟩

/-- What does not end in a name or in a parenthesis ends in no parameters. -/
theorem not_endInParameters (h : ∀ t ∈ ts.getLast?, t.kind ≠ .name ∧ t.kind ≠ .parenR) :
    ¬ EndInParameters ts := by
  rintro ⟨before, parameters, rfl, -, hp⟩
  obtain ⟨us, t, rfl, hk⟩ := hp.last
  obtain ⟨hn, hr⟩ := h t (by simp)
  exact hk.elim hn hr

theorem AtStart.not_endInParameters (h : AtStart ts) : ¬ EndInParameters ts := by
  refine ArithLang.not_endInParameters fun t ht => ?_
  have hk := h t ht
  constructor <;> intro h <;> rw [h] at hk <;> cases hk

theorem not_endInParameters_concat (hn : t.kind ≠ .name) (hp : t.kind.isParen = false) :
    ¬ EndInParameters (ts ++ [t]) := by
  refine not_endInParameters fun u hu => ?_
  obtain rfl : t = u := by simpa using hu
  refine ⟨hn, fun hr => ?_⟩
  rw [hr] at hp
  cases hp

theorem atStart_concat : AtStart (ts ++ [t]) ↔ t.kind.leadsIn = true := by
  simp [AtStart]

/-- Parameters at the end of the same tokens begin at the same place. -/
theorem IsParameters.eq_of_append {before before' : List Token} (h : IsParameters ts)
    (h' : IsParameters us) (heq : before ++ ts = before' ++ us) : before = before' := by
  have distinct {t r : Token} {xs ys : List Token} (ht : t.kind = .name) (hr : r.kind = .parenR) :
      xs ++ [t] ≠ ys ++ [r] := fun heq => by
    obtain ⟨-, heq⟩ := List.append_inj' heq rfl
    rw [(List.cons.inj heq).1, hr] at ht
    cases ht
  cases h with
  | name ht =>
    cases h' with
    | name => exact (List.append_inj' heq rfl).1
    | group _ _ hr => exact absurd ((List.append_assoc ..).trans heq.symm).symm (distinct ht hr)
  | group hl hb hr =>
    rw [← List.append_assoc] at heq
    cases h' with
    | name ht => exact absurd heq.symm (distinct ht hr)
    | group hl' hb' =>
      rw [← List.append_assoc] at heq
      exact hb.eq_of_append hb' hl hl' (List.append_inj' heq rfl).1

theorem IsParameters.endIn_iff (h : IsParameters ts) : EndInParameters (hs ++ ts) ↔ AtStart hs := by
  constructor
  · rintro ⟨before, parameters, heq, hb, hp⟩
    rw [h.eq_of_append hp heq]
    exact hb
  · intro hs'
    exact ⟨hs, ts, rfl, hs', h⟩

end ArithLang
