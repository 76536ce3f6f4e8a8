import ArithLang.Position
import ArithLang.Text

/-!
Positions as the text before them has them: the line breaks passed, and the characters since the last.
A place that passes a text piece by piece keeps to that, so long as no piece ends within a line break.
-/

namespace ArithLang

namespace Text

/-- The line breaks of a text; a carriage return and the line feed after it are one. -/
def lineBreaks : List Char → Nat
  | [] => 0
  | '\r' :: '\n' :: cs => lineBreaks cs + 1
  | c :: cs => lineBreaks cs + if isLineBreak c then 1 else 0

/-- What stands after the last line break. -/
def lastLine (cs : List Char) : List Char :=
  (cs.reverse.takeWhile (!isLineBreak ·)).reverse

/-- The position at the end of a text. -/
def endPosition (cs : List Char) : Position :=
  ⟨byteLength cs, 1 + lineBreaks cs, (lastLine cs).length⟩

/-- The position of an offset, which must lie between two characters. -/
def positionAt? (cs : List Char) (offset : Nat) : Option Position :=
  (upTo? cs offset).map endPosition

/-- No line break is cut in two where one text ends and the other begins. -/
def Seam (before after : List Char) : Prop :=
  before.getLast? = some '\r' → after.head? ≠ some '\n'

variable {s t u : List Char} {c : Char}

theorem byteLength_pos (h : s ≠ []) : 0 < byteLength s := by
  cases s with
  | nil => contradiction
  | cons c s => exact Nat.add_pos_left c.utf8Size_pos _

theorem upTo?_eq_some {cs : List Char} {n : Nat} :
    upTo? cs n = some s ↔ ∃ t, cs = s ++ t ∧ byteLength s = n := by
  constructor
  · intro h
    fun_induction upTo? cs n generalizing s with
    | case1 cs =>
      cases h
      exact ⟨cs, rfl, rfl⟩
    | case2 | case4 => cases h
    | case3 n c cs hle ih =>
      obtain ⟨s, hs, rfl⟩ := Option.map_eq_some_iff.1 h
      obtain ⟨t, rfl, hlen⟩ := ih hs
      refine ⟨t, rfl, ?_⟩
      rw [byteLength_cons, hlen]
      exact Nat.add_sub_cancel' hle
  · rintro ⟨t, rfl, rfl⟩
    exact upTo?_append s t

/-- Slicing at positions gives what stands between them. -/
theorem slice?_endPosition (s t u : List Char) :
    slice? (s ++ t ++ u) (endPosition s).offset (endPosition (s ++ t)).offset = some t := by
  change slice? _ (byteLength s) (byteLength (s ++ t)) = _
  rw [byteLength_append]
  exact slice?_append s t u

theorem seam_nil (t : List Char) : Seam [] t := by
  intro h
  cases h

theorem Seam.left (h : Seam s (t ++ u)) : Seam s t := by
  intro hs ht
  apply h hs
  rw [List.head?_append, ht, Option.some_or]

theorem seam_of_head (h : t.head?.all (!isLineBreak ·) = true) : Seam s t := by
  intro _ ht
  rw [ht] at h
  cases h

theorem seam_of_concat (h : c ≠ '\r') : Seam (s ++ [c]) t := by
  intro hs
  rw [List.getLast?_concat] at hs
  exact absurd (Option.some.inj hs) h

theorem lineBreaks_cons (h : c = '\r' → s.head? ≠ some '\n') :
    lineBreaks (c :: s) = lineBreaks s + if isLineBreak c then 1 else 0 := by
  rw [lineBreaks]
  rintro cs rfl rfl
  exact h rfl rfl

theorem lineBreaks_append (h : Seam s t) : lineBreaks (s ++ t) = lineBreaks s + lineBreaks t := by
  fun_induction lineBreaks s with
  | case1 => rw [List.nil_append, Nat.zero_add]
  | case2 s ih =>
    have hs : Seam s t := by
      intro hr
      apply h
      rw [List.getLast?_cons, List.getLast?_cons, hr]
      rfl
    rw [List.cons_append, List.cons_append, lineBreaks, ih hs, Nat.add_right_comm]
  | case3 c s hc ih =>
    have hs : Seam s t := by
      intro hr
      apply h
      rw [List.getLast?_cons, hr]
      rfl
    rw [List.cons_append, lineBreaks_cons, ih hs, Nat.add_right_comm]
    rintro rfl hn
    cases s with
    | nil => exact h rfl hn
    | cons d s =>
      cases hn
      exact hc s rfl rfl

theorem lineBreaks_eq_zero (h : containsLineBreak s = false) : lineBreaks s = 0 := by
  induction s with
  | nil => rfl
  | cons c s ih =>
    rw [containsLineBreak, List.any_cons, Bool.or_eq_false_iff] at h
    have hc : c ≠ '\r' := by
      rintro rfl
      cases h.1
    rw [lineBreaks_cons fun h => absurd h hc, ih h.2, h.1]
    rfl

theorem lastLine_append_of_unbroken (s : List Char) (h : containsLineBreak t = false) :
    lastLine (s ++ t) = lastLine s ++ t := by
  rw [lastLine, List.reverse_append, List.takeWhile_append_of_pos, List.reverse_append,
    List.reverse_reverse, lastLine]
  intro c hc
  simpa using List.any_eq_false.1 h c (List.mem_reverse.1 hc)

theorem lineBreaks_pos (h : containsLineBreak s = true) : 0 < lineBreaks s := by
  fun_induction lineBreaks s with
  | case1 => cases h
  | case2 => exact Nat.succ_pos _
  | case3 c s _ ih =>
    rw [containsLineBreak, List.any_cons, Bool.or_eq_true] at h
    obtain hc | hs := h
    · rw [if_pos hc]
      exact Nat.succ_pos _
    · exact Nat.add_pos_left (ih hs) _

theorem lastLine_append_of_broken (s : List Char) (h : containsLineBreak t = true) :
    lastLine (s ++ t) = lastLine t := by
  obtain ⟨c, hc, hb⟩ := List.any_eq_true.1 h
  rw [lastLine, lastLine, List.reverse_append, List.takeWhile_append, if_neg]
  intro hlen
  have hall := List.all_takeWhile (p := (!isLineBreak ·)) (l := t.reverse)
  rw [(List.takeWhile_prefix _).eq_of_length hlen, List.all_eq_true] at hall
  have := hall c (List.mem_reverse.2 hc)
  rw [hb] at this
  cases this

theorem lastLine_concat_of_break (s : List Char) (h : isLineBreak c = true) :
    lastLine (s ++ [c]) = [] := by
  rw [lastLine, List.reverse_append, List.reverse_singleton, List.singleton_append,
    List.takeWhile_cons_of_neg (by simp [h]), List.reverse_nil]

end Text

namespace Position

open Text

/-- The position is the one that its offset has in a text. -/
def IsIn (p : Position) (input : List Char) : Prop := positionAt? input p.offset = some p

variable {p q : Position} {input : List Char}

theorem isIn_iff : p.IsIn input ↔ ∃ s t, input = s ++ t ∧ p = endPosition s := by
  rw [IsIn, positionAt?, Option.map_eq_some_iff]
  constructor
  · rintro ⟨s, hs, rfl⟩
    obtain ⟨t, ht, -⟩ := upTo?_eq_some.1 hs
    exact ⟨s, t, ht, rfl⟩
  · rintro ⟨s, t, rfl, rfl⟩
    exact ⟨s, upTo?_append s t, rfl⟩

/-- Two positions, the first not after the second, cut a text in three. -/
theorem IsIn.between (hp : p.IsIn input) (hq : q.IsIn input) (h : p.offset ≤ q.offset) :
    ∃ s t u, input = s ++ t ++ u ∧ p = endPosition s ∧ q = endPosition (s ++ t) := by
  obtain ⟨s, t, rfl, rfl⟩ := isIn_iff.1 hp
  obtain ⟨s', u, ht, rfl⟩ := isIn_iff.1 hq
  obtain ⟨mid, rfl, rfl⟩ | ⟨back, rfl, rfl⟩ := List.append_eq_append_iff.1 ht
  · exact ⟨s, mid, u, (List.append_assoc ..).symm, rfl, rfl⟩
  · change byteLength (s' ++ back) ≤ byteLength s' at h
    rw [byteLength_append] at h
    cases back with
    | nil => exact ⟨s', [], t, by simp, by simp, by simp⟩
    | cons c back =>
      have := byteLength_pos (List.cons_ne_nil c back)
      omega

/-- A position as counted from another one before it: its line from that line on and, on that line
itself, its column from that column on. -/
def relativeTo (p origin : Position) : Position where
  offset := p.offset - origin.offset
  line := p.line - origin.line + 1
  column := if p.line = origin.line then p.column - origin.column else p.column

/-- From the end of a text, what follows it is counted as if nothing stood before. -/
theorem relativeTo_endPosition {s t : List Char} (h : Seam s t) :
    (endPosition (s ++ t)).relativeTo (endPosition s) = endPosition t := by
  have hoffset : byteLength (s ++ t) - byteLength s = byteLength t := by
    rw [byteLength_append, Nat.add_sub_cancel_left]
  have hline : 1 + lineBreaks (s ++ t) - (1 + lineBreaks s) + 1 = 1 + lineBreaks t := by
    rw [lineBreaks_append h]
    omega
  have hcolumn : (if 1 + lineBreaks (s ++ t) = 1 + lineBreaks s then
      (lastLine (s ++ t)).length - (lastLine s).length else (lastLine (s ++ t)).length) =
        (lastLine t).length := by
    rw [lineBreaks_append h]
    cases hb : containsLineBreak t with
    | true =>
      have := lineBreaks_pos hb
      rw [if_neg (by omega), lastLine_append_of_broken s hb]
    | false =>
      have hlast : lastLine t = t := lastLine_append_of_unbroken [] hb
      rw [lineBreaks_eq_zero hb, Nat.add_zero, if_pos rfl, lastLine_append_of_unbroken s hb,
        List.length_append, Nat.add_sub_cancel_left, hlast]
  exact (Position.mk.injEq ..).mpr ⟨hoffset, hline, hcolumn⟩

end Position

namespace Place

open Text

@[simp] theorem offset_count (place : Place) : place.count.offset = place.offset := rfl

/-- Passing a text moves the offset by its length in bytes. -/
theorem offset_pass (place : Place) (cs : List Char) :
    (place.pass cs).offset = place.offset + byteLength cs := by
  fun_induction pass place cs with
  | case1 => rfl
  | case2 place cs ih =>
    have hwidth : byteLength ('\r' :: '\n' :: cs) = 2 + byteLength cs :=
      Text.byteLength_append ['\r', '\n'] cs
    rw [ih, hwidth, breakLine, Nat.add_assoc]
  | case3 place c cs _ _ ih =>
    rw [ih, Text.byteLength_cons, breakLine, Nat.add_assoc]
  | case4 place c cs _ _ ih =>
    rw [ih, Text.byteLength_cons, step, Nat.add_assoc]

/-- The place is where it is after passing this text from the start on. -/
structure After (place : Place) (passed : List Char) : Prop where
  offset_eq : place.offset = byteLength passed
  line_eq : place.line = 1 + lineBreaks passed
  column_eq : place.column + place.uncounted = (lastLine passed).length

variable {place : Place} {passed cs : List Char} {c : Char}

theorem after_start : ({} : Place).After [] := ⟨rfl, rfl, rfl⟩

theorem After.count (h : place.After passed) : place.count.After passed :=
  ⟨h.offset_eq, h.line_eq, h.column_eq⟩

theorem After.position_eq (h : place.After passed) : place.count.position = endPosition passed := by
  obtain ⟨ho, hl, hc⟩ := h
  rw [endPosition, ← ho, ← hl, ← hc]
  rfl

theorem After.step (h : place.After passed) (hc : isLineBreak c = false) :
    (place.step c).After (passed ++ [c]) := by
  have hb : containsLineBreak [c] = false := by
    rw [containsLineBreak, List.any_cons, hc]
    rfl
  have seam : Seam passed [c] := seam_of_head (by simp [hc])
  constructor
  · rw [byteLength_append, ← h.offset_eq]
    rfl
  · rw [lineBreaks_append seam, lineBreaks_eq_zero hb, Nat.add_zero, ← h.line_eq]
    rfl
  · rw [lastLine_append_of_unbroken _ hb, List.length_append, ← h.column_eq]
    rfl

/-- Passing a line break, which may be two characters. -/
theorem After.breakLine (mark : List Char) (h : place.After passed) (seam : Seam passed (mark ++ [c]))
    (hc : isLineBreak c = true) (hm : lineBreaks (mark ++ [c]) = 1) :
    (place.breakLine (byteLength (mark ++ [c]))).After (passed ++ (mark ++ [c])) := by
  constructor
  · rw [byteLength_append passed, ← h.offset_eq]
    rfl
  · rw [lineBreaks_append seam, hm, ← Nat.add_assoc, ← h.line_eq]
    rfl
  · rw [← List.append_assoc, lastLine_concat_of_break _ hc]
    rfl

theorem After.pass (h : place.After passed) (seam : Seam passed cs) :
    (place.pass cs).After (passed ++ cs) := by
  fun_induction Place.pass place cs generalizing passed with
  | case1 =>
    rw [List.append_nil]
    exact h
  | case2 place cs ih =>
    have hb := h.breakLine ['\r'] (c := '\n') (Seam.left (u := cs) seam) rfl rfl
    have hn : Seam (passed ++ ['\r'] ++ ['\n']) cs := seam_of_concat (by decide)
    rw [List.append_assoc] at hn
    have := ih hb hn
    rwa [List.append_assoc] at this
  | case3 place c cs hcrlf hc ih =>
    have hb := h.breakLine [] (c := c) (Seam.left (u := cs) seam) hc (by
      rw [List.nil_append, lineBreaks_cons (by simp), hc]
      rfl)
    have := ih hb (by
      intro hr hn
      rw [List.nil_append, List.getLast?_concat] at hr
      cases hr
      obtain ⟨ds, rfl⟩ := List.head?_eq_some_iff.1 hn
      exact hcrlf ds rfl rfl)
    rwa [List.append_assoc] at this
  | case4 place c cs _ hc ih =>
    have hc := eq_false_of_ne_true hc
    have hr : c ≠ '\r' := by
      rintro rfl
      cases hc
    have := ih (h.step hc) (seam_of_concat hr)
    rwa [List.append_assoc] at this

end Place

end ArithLang
