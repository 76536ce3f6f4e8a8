import ArithLang.Gap

/-! Gaps: what is passed over between tokens, and where it stops. -/

namespace ArithLang

/-- The text is a gap in front of what follows: blanks, and comments that each run to just before
the next line break or the end. `-->` begins a comment only when a line break has been passed, which
`broken` says of what lies before. -/
inductive IsGap (moduleCode : Bool) : (broken : Bool) → List Char → List Char → Prop
  | nil : IsGap moduleCode broken [] rest
  | blank : Text.isBlank c = true → IsGap moduleCode (broken || Text.isLineBreak c) gap rest →
      IsGap moduleCode broken (c :: gap) rest
  | comment : moduleCode = false ∧ "<!--".toList <+: comment ∨
        broken = true ∧ "-->".toList <+: comment →
      Text.containsLineBreak comment = false → (gap ++ rest).head?.all Text.isLineBreak = true →
      IsGap moduleCode broken gap rest → IsGap moduleCode broken (comment ++ gap) rest

variable {moduleCode broken : Bool} {cs gap rest : List Char}

theorem readGap_append (moduleCode broken : Bool) (cs : List Char) :
    (readGap moduleCode broken cs).taken ++ (readGap moduleCode broken cs).rest = cs := by
  fun_induction readGap moduleCode broken cs with
  | case1 broken cs rest broken' _ after ih =>
    simp only [List.append_assoc, after, ih]
    rw [line, afterLine, List.takeWhile_append_dropWhile]
    exact List.takeWhile_append_dropWhile
  | case2 broken cs => exact List.takeWhile_append_dropWhile

theorem IsGap.blanks {bs : List Char} (hb : ∀ c ∈ bs, Text.isBlank c = true)
    (h : IsGap moduleCode (broken || Text.containsLineBreak bs) gap rest) :
    IsGap moduleCode broken (bs ++ gap) rest := by
  induction bs generalizing broken with
  | nil =>
    rw [Text.containsLineBreak_nil, Bool.or_false] at h
    exact h
  | cons c bs ih =>
    rw [List.forall_mem_cons] at hb
    refine .blank hb.1 (ih hb.2 ?_)
    rw [Bool.or_assoc]
    exact h

theorem opensComment_iff : opensComment moduleCode broken cs = true ↔
    broken = true ∧ "-->".toList <+: cs ∨ moduleCode = false ∧ "<!--".toList <+: cs := by
  simp [opensComment, closesHiddenComment, opensHiddenComment]

/-- A text without line breaks that a text begins with is on its first line. -/
theorem prefix_line {mark : List Char} (h : mark <+: cs)
    (hm : Text.containsLineBreak mark = false) : mark <+: line cs := by
  obtain ⟨rest, rfl⟩ := h
  rw [line, List.takeWhile_append_of_pos]
  · exact List.prefix_append ..
  · intro c hc
    simpa using List.any_eq_false.1 hm c hc

theorem containsLineBreak_line (cs : List Char) : Text.containsLineBreak (line cs) = false := by
  rw [Text.containsLineBreak, List.any_eq_false]
  intro c hc
  simpa using List.all_eq_true.1 List.all_takeWhile c hc

theorem head?_afterLine (cs : List Char) : (afterLine cs).head?.all Text.isLineBreak = true := by
  have h := List.head?_dropWhile_not (fun c => !Text.isLineBreak c) cs
  rw [afterLine]
  generalize List.dropWhile _ cs = ds at h
  cases ds with
  | nil => rfl
  | cons d ds => simpa using h

theorem readGap_isGap (moduleCode broken : Bool) (cs : List Char) :
    IsGap moduleCode broken (readGap moduleCode broken cs).taken
      (readGap moduleCode broken cs).rest := by
  fun_induction readGap moduleCode broken cs with
  | case1 broken cs rest broken' h after ih =>
    rw [List.append_assoc]
    refine .blanks (List.all_eq_true.1 List.all_takeWhile) (.comment ?_ (containsLineBreak_line _) ?_ ih)
    · obtain ⟨hb, hc⟩ | ⟨hm, hc⟩ := opensComment_iff.1 h
      · exact .inr ⟨hb, prefix_line hc rfl⟩
      · exact .inl ⟨hm, prefix_line hc rfl⟩
    · rw [readGap_append]
      exact head?_afterLine _
  | case2 broken cs =>
    have h : IsGap moduleCode (broken || Text.containsLineBreak (blanks cs)) [] (afterBlanks cs) :=
      .nil
    have := h.blanks (List.all_eq_true.1 List.all_takeWhile)
    rwa [List.append_nil] at this

/-- A gap is as long as can be: neither a blank nor a comment follows it. -/
theorem readGap_stops (moduleCode broken : Bool) (cs : List Char) :
    (readGap moduleCode broken cs).rest.head?.all (!Text.isBlank ·) = true ∧
      opensComment moduleCode
        (broken || Text.containsLineBreak (readGap moduleCode broken cs).taken)
        (readGap moduleCode broken cs).rest = false := by
  fun_induction readGap moduleCode broken cs with
  | case1 broken cs rest broken' _ after ih =>
    rw [Text.containsLineBreak_append, Text.containsLineBreak_append, containsLineBreak_line,
      Bool.or_false, ← Bool.or_assoc]
    exact ih
  | case2 broken cs rest broken' h =>
    refine ⟨?_, eq_false_of_ne_true h⟩
    have hd := List.head?_dropWhile_not Text.isBlank cs
    change (cs.dropWhile Text.isBlank).head?.all _ = true
    generalize cs.dropWhile Text.isBlank = ds at hd
    cases ds with
    | nil => rfl
    | cons d ds => simpa using hd

/-- Where neither a blank nor a comment follows there is no gap. -/
theorem readGap_of_stopped (hblank : cs.head?.all (!Text.isBlank ·) = true)
    (hopens : opensComment moduleCode broken cs = false) :
    readGap moduleCode broken cs = ⟨[], cs⟩ := by
  have hb : blanks cs = [] ∧ afterBlanks cs = cs := by
    cases cs with
    | nil => exact ⟨rfl, rfl⟩
    | cons c cs =>
      have : Text.isBlank c = false := by simpa using hblank
      exact ⟨List.takeWhile_cons_of_neg (by simp [this]), List.dropWhile_cons_of_neg (by simp [this])⟩
  obtain ⟨hb, ha⟩ := hb
  rw [readGap, hb, ha, Text.containsLineBreak_nil, Bool.or_false, hopens]
  rfl

end ArithLang
