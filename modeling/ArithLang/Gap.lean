import ArithLang.Lexeme

/-!
Gaps between tokens: blanks and comments. A comment runs to just before the next line break. `<!--`
opens one except in module code; `-->` opens one only where a line break lies between it and the
token before.
-/

namespace ArithLang

def closesHiddenComment (cs : List Char) : Bool :=
  "-->".toList.isPrefixOf cs

/-- Whether a comment begins here, when `broken` says that a line break has been passed. -/
def opensComment (moduleCode broken : Bool) (cs : List Char) : Bool :=
  (broken && closesHiddenComment cs) || (!moduleCode && opensHiddenComment cs)

def blanks (cs : List Char) : List Char :=
  cs.takeWhile Text.isBlank

def afterBlanks (cs : List Char) : List Char :=
  cs.dropWhile Text.isBlank

/-- The rest of the line. -/
def line (cs : List Char) : List Char :=
  cs.takeWhile (!Text.isLineBreak ·)

def afterLine (cs : List Char) : List Char :=
  cs.dropWhile (!Text.isLineBreak ·)

theorem afterLine_lt_of_opensComment {moduleCode broken : Bool} {cs : List Char}
    (h : opensComment moduleCode broken cs = true) : (afterLine cs).length < cs.length := by
  cases cs with
  | nil => simp [opensComment, closesHiddenComment, opensHiddenComment] at h
  | cons c cs =>
    have hc : c = '-' ∨ c = '<' := by
      simp only [opensComment, closesHiddenComment, opensHiddenComment, Bool.or_eq_true,
        Bool.and_eq_true, List.isPrefixOf_iff_prefix] at h
      rcases h with ⟨_, h⟩ | ⟨_, h⟩
      · exact .inl (List.cons_prefix_cons.1 h).1.symm
      · exact .inr (List.cons_prefix_cons.1 h).1.symm
    have : Text.isLineBreak c = false := by rcases hc with rfl | rfl <;> rfl
    simp only [afterLine, List.dropWhile_cons, this, Bool.not_false, if_true, List.length_cons]
    exact Nat.lt_succ_of_le (List.dropWhile_suffix _).length_le

structure Gap where
  taken : List Char
  rest : List Char

/-- The gap at the head of a text. -/
def readGap (moduleCode broken : Bool) (cs : List Char) : Gap :=
  let rest := afterBlanks cs
  let broken := broken || Text.containsLineBreak (blanks cs)
  if opensComment moduleCode broken rest then
    let after := readGap moduleCode broken (afterLine rest)
    ⟨blanks cs ++ line rest ++ after.taken, after.rest⟩
  else ⟨blanks cs, rest⟩
  termination_by cs.length
  decreasing_by
    next h =>
    exact Nat.lt_of_lt_of_le (afterLine_lt_of_opensComment h) (List.dropWhile_suffix _).length_le

end ArithLang
