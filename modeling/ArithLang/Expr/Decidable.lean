import ArithLang.Expr

/-! Equality of trees is decidable: node by node, along lists of items. -/

namespace ArithLang.Expr

mutual

def decEq (e f : Expr) : Decidable (e = f) :=
  match e with
  | .number v i =>
    match f with
    | .number v' i' =>
      decidable_of_iff (v = v' ∧ i = i') (by simp)
    | .identifier .. | .member .. | .sequence .. | .assignment .. | .conditional ..
    | .logical .. | .binary .. | .unary .. | .update .. => isFalse nofun
  | .identifier n i =>
    match f with
    | .identifier n' i' =>
      decidable_of_iff (n = n' ∧ i = i') (by simp)
    | .number .. | .member .. | .sequence .. | .assignment .. | .conditional ..
    | .logical .. | .binary .. | .unary .. | .update .. => isFalse nofun
  | .member o1 p1 c i =>
    match f with
    | .member o2 p2 c' i' =>
      have := decEq o1 o2
      have := decEq p1 p2
      decidable_of_iff (o1 = o2 ∧ p1 = p2 ∧ c = c' ∧ i = i') (by simp)
    | .number .. | .identifier .. | .sequence .. | .assignment .. | .conditional ..
    | .logical .. | .binary .. | .unary .. | .update .. => isFalse nofun
  | .sequence l1 i =>
    match f with
    | .sequence l2 i' =>
      have := decEqList l1 l2
      decidable_of_iff (l1 = l2 ∧ i = i') (by simp)
    | .number .. | .identifier .. | .member .. | .assignment .. | .conditional ..
    | .logical .. | .binary .. | .unary .. | .update .. => isFalse nofun
  | .assignment op o1 p1 i =>
    match f with
    | .assignment op' o2 p2 i' =>
      have := decEq o1 o2
      have := decEq p1 p2
      decidable_of_iff (op = op' ∧ o1 = o2 ∧ p1 = p2 ∧ i = i') (by simp)
    | .number .. | .identifier .. | .member .. | .sequence .. | .conditional ..
    | .logical .. | .binary .. | .unary .. | .update .. => isFalse nofun
  | .conditional o1 p1 q1 i =>
    match f with
    | .conditional o2 p2 q2 i' =>
      have := decEq o1 o2
      have := decEq p1 p2
      have := decEq q1 q2
      decidable_of_iff (o1 = o2 ∧ p1 = p2 ∧ q1 = q2 ∧ i = i') (by simp)
    | .number .. | .identifier .. | .member .. | .sequence .. | .assignment ..
    | .logical .. | .binary .. | .unary .. | .update .. => isFalse nofun
  | .logical op o1 p1 i =>
    match f with
    | .logical op' o2 p2 i' =>
      have := decEq o1 o2
      have := decEq p1 p2
      decidable_of_iff (op = op' ∧ o1 = o2 ∧ p1 = p2 ∧ i = i') (by simp)
    | .number .. | .identifier .. | .member .. | .sequence .. | .assignment ..
    | .conditional .. | .binary .. | .unary .. | .update .. => isFalse nofun
  | .binary op o1 p1 i =>
    match f with
    | .binary op' o2 p2 i' =>
      have := decEq o1 o2
      have := decEq p1 p2
      decidable_of_iff (op = op' ∧ o1 = o2 ∧ p1 = p2 ∧ i = i') (by simp)
    | .number .. | .identifier .. | .member .. | .sequence .. | .assignment ..
    | .conditional .. | .logical .. | .unary .. | .update .. => isFalse nofun
  | .unary op p o1 i =>
    match f with
    | .unary op' p' o2 i' =>
      have := decEq o1 o2
      decidable_of_iff (op = op' ∧ p = p' ∧ o1 = o2 ∧ i = i') (by simp)
    | .number .. | .identifier .. | .member .. | .sequence .. | .assignment ..
    | .conditional .. | .logical .. | .binary .. | .update .. => isFalse nofun
  | .update op p o1 i =>
    match f with
    | .update op' p' o2 i' =>
      have := decEq o1 o2
      decidable_of_iff (op = op' ∧ p = p' ∧ o1 = o2 ∧ i = i') (by simp)
    | .number .. | .identifier .. | .member .. | .sequence .. | .assignment ..
    | .conditional .. | .logical .. | .binary .. | .unary .. => isFalse nofun

def decEqList (es fs : List Expr) : Decidable (es = fs) :=
  match es, fs with
  | [], [] => isTrue rfl
  | e :: es, f :: fs =>
    have := decEq e f
    have := decEqList es fs
    decidable_of_iff (e = f ∧ es = fs) (by simp)
  | [], _ :: _ | _ :: _, [] => isFalse nofun

end

instance : DecidableEq Expr := decEq

end ArithLang.Expr
