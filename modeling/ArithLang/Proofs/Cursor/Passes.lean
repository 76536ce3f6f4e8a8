import ArithLang.Cursor
import ArithLang.Proofs.Token.Lexeme

/-!
Moving along tokens. A lawful cursor shows genuine tokens and comes nearer to its end with every move,
and `remaining` tells how near; so whatever is bounded by `remaining` is bounded for good.
-/

namespace ArithLang

open TokenCursor (current advance remaining)

class LawfulCursor (C : Type) [TokenCursor C] where
  /-- The cursors that the laws are about; moving leads to no other. -/
  Valid : C → Prop
  valid_advance {c c' : C} {r : Except LexError Unit} : Valid c → advance c = (r, c') → Valid c'
  genuine {c : C} : Valid c → (current c).lexeme.Genuine
  remaining_pos {c : C} : Valid c → 0 < remaining c
  remaining_lt {c c' : C} : Valid c → (current c).kind ≠ .eof → advance c = (.ok (), c') →
    (current c').kind ≠ .eof → remaining c' < remaining c

namespace TokenCursor

variable {C : Type} [TokenCursor C]

/-- Moves from the first cursor to the last pass these tokens, none of them `eof`. -/
inductive Passes : C → List Token → C → Prop
  | refl : Passes c [] c
  | step : (current c).kind ≠ .eof → advance c = (.ok (), c₁) → Passes c₁ ts c' →
      Passes c (current c :: ts) c'

theorem Passes.single {c c' : C} (hk : (current c).kind ≠ .eof) (h : advance c = (.ok (), c')) :
    Passes c [current c] c' :=
  .step hk h .refl

theorem Passes.trans {c c₁ c₂ : C} {ts us : List Token} (h : Passes c ts c₁)
    (h' : Passes c₁ us c₂) : Passes c (ts ++ us) c₂ := by
  induction h with
  | refl => exact h'
  | step hk ha _ ih => exact .step hk ha (ih h')

theorem Passes.current_eq {c c' : C} {t : Token} {ts : List Token} (h : Passes c (t :: ts) c') :
    current c = t ∧ (current c).kind ≠ .eof := by
  cases h with
  | step hk => exact ⟨rfl, hk⟩

theorem Passes.eq_of_nil {c c' : C} (h : Passes c [] c') : c = c' := by
  cases h
  rfl

/-- The cursor at which the first part of what is passed ends. -/
theorem Passes.split {c c' : C} {ts us : List Token} (h : Passes c (ts ++ us) c') :
    ∃ d, Passes c ts d ∧ Passes d us c' := by
  induction ts generalizing c with
  | nil => exact ⟨c, .refl, h⟩
  | cons t ts ih =>
    cases h with
    | step hk ha h =>
      obtain ⟨d, hd, hu⟩ := ih h
      exact ⟨d, .step hk ha hd, hu⟩

/-- Up to `eof` there is one way to go. -/
theorem Passes.unique {c d d' : C} {ts us : List Token} (h : Passes c ts d) (h' : Passes c us d')
    (hd : (current d).kind = .eof) (hd' : (current d').kind = .eof) : ts = us := by
  induction h generalizing us with
  | refl =>
    cases h' with
    | refl => rfl
    | step hk => exact absurd hd hk
  | step hk ha _ ih =>
    cases h' with
    | refl => exact absurd hd' hk
    | step _ ha' h' =>
      cases ha.symm.trans ha'
      rw [ih h' hd]

/-- How many tokens may still come, `eof` apart. -/
def ahead (c : C) : Nat := if (current c).kind = .eof then 0 else remaining c

theorem ahead_le (c : C) : ahead c ≤ remaining c := by
  unfold ahead
  split
  · exact Nat.zero_le _
  · exact Nat.le_refl _

variable [LawfulCursor C]

open LawfulCursor (Valid)

theorem ahead_lt {c c' : C} (hv : Valid c) (hk : (current c).kind ≠ .eof)
    (h : advance c = (.ok (), c')) : ahead c' < ahead c := by
  unfold ahead
  rw [if_neg hk]
  split
  · exact LawfulCursor.remaining_pos hv
  · next hk' => exact LawfulCursor.remaining_lt hv hk h hk'

theorem eof_of_ahead {c : C} (hv : Valid c) (h : ahead c = 0) : (current c).kind = .eof := by
  unfold ahead at h
  split at h
  · assumption
  · have := LawfulCursor.remaining_pos hv
    omega

theorem Passes.valid {c c' : C} {ts : List Token} (h : Passes c ts c') (hv : Valid c) :
    Valid c' := by
  induction h with
  | refl => exact hv
  | step _ ha _ ih => exact ih (LawfulCursor.valid_advance hv ha)

theorem Passes.ahead_add_le {c c' : C} {ts : List Token} (h : Passes c ts c') (hv : Valid c) :
    ahead c' + ts.length ≤ ahead c := by
  induction h with
  | refl => exact Nat.le_refl _
  | step hk ha _ ih =>
    have := ih (LawfulCursor.valid_advance hv ha)
    have := ahead_lt hv hk ha
    rw [List.length_cons]
    omega

theorem Passes.ahead_le {c c' : C} {ts : List Token} (h : Passes c ts c') (hv : Valid c) :
    ahead c' ≤ ahead c :=
  Nat.le_of_add_right_le (h.ahead_add_le hv)

end TokenCursor

end ArithLang
