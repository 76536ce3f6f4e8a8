/-!
Texts are lists of characters; offsets into them count UTF-8 bytes.
An offset is usable only between two characters: `from?` and `slice?` answer `none` elsewhere.
-/

namespace ArithLang.Text

def byteLength : List Char → Nat
  | [] => 0
  | c :: cs => c.utf8Size + byteLength cs

@[simp] theorem byteLength_nil : byteLength [] = 0 := rfl

@[simp] theorem byteLength_cons (c : Char) (cs : List Char) :
    byteLength (c :: cs) = c.utf8Size + byteLength cs := rfl

@[simp] theorem byteLength_append (s t : List Char) :
    byteLength (s ++ t) = byteLength s + byteLength t := by
  induction s with
  | nil => simp
  | cons c s ih => simp [ih, Nat.add_assoc]

/-- The text from a byte offset on. -/
def from? : List Char → Nat → Option (List Char)
  | cs, 0 => some cs
  | [], _ + 1 => none
  | c :: cs, n + 1 => if c.utf8Size ≤ n + 1 then from? cs (n + 1 - c.utf8Size) else none

/-- The text before a byte offset. -/
def upTo? : List Char → Nat → Option (List Char)
  | _, 0 => some []
  | [], _ + 1 => none
  | c :: cs, n + 1 =>
    if c.utf8Size ≤ n + 1 then (upTo? cs (n + 1 - c.utf8Size)).map (c :: ·) else none

/-- The text between two byte offsets, the first not after the second. -/
def slice? (cs : List Char) (start stop : Nat) : Option (List Char) :=
  if start ≤ stop then (from? cs start).bind (upTo? · (stop - start)) else none

@[simp] theorem from?_zero (cs : List Char) : from? cs 0 = some cs := by
  cases cs <;> rfl

@[simp] theorem upTo?_zero (cs : List Char) : upTo? cs 0 = some [] := by
  cases cs <;> rfl

theorem from?_append (s t : List Char) : from? (s ++ t) (byteLength s) = some t := by
  induction s with
  | nil => simp
  | cons c s ih =>
    have pos := c.utf8Size_pos
    obtain ⟨n, hn⟩ : ∃ n, c.utf8Size + byteLength s = n + 1 := ⟨c.utf8Size + byteLength s - 1, by omega⟩
    simp only [List.cons_append, byteLength_cons, hn, from?]
    rw [if_pos (by omega), ← hn, Nat.add_sub_cancel_left, ih]

theorem upTo?_append (s t : List Char) : upTo? (s ++ t) (byteLength s) = some s := by
  induction s with
  | nil => simp
  | cons c s ih =>
    have pos := c.utf8Size_pos
    obtain ⟨n, hn⟩ : ∃ n, c.utf8Size + byteLength s = n + 1 := ⟨c.utf8Size + byteLength s - 1, by omega⟩
    simp only [List.cons_append, byteLength_cons, hn, upTo?]
    rw [if_pos (by omega), ← hn, Nat.add_sub_cancel_left, ih, Option.map_some]

/-- Slicing at the ends of a middle part gives that part. -/
theorem slice?_append (s t u : List Char) :
    slice? (s ++ t ++ u) (byteLength s) (byteLength s + byteLength t) = some t := by
  rw [slice?, if_pos (by omega), List.append_assoc, from?_append, Nat.add_sub_cancel_left]
  exact upTo?_append t u

end ArithLang.Text
