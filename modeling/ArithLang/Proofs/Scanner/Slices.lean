import ArithLang.Proofs.Scanner.Bounds

/-!
What a scan cuts out of its text: to count a column, to look for a line break before an arrow, to see
what comes next, to copy a word piece by piece, to keep what a lexeme is written as. All of it can be
cut out, whatever the scans before came to.
-/

namespace ArithLang

open Text (Boundary byteLength slice?)

/-- The places at which a scan halts in a gap, one wherever blanks end. -/
def gapStops (moduleCode broken : Bool) (place : Place) (cs : List Char) : List Place :=
  let rest := afterBlanks cs
  let broken := broken || Text.containsLineBreak (blanks cs)
  let place := place.pass (blanks cs)
  if opensComment moduleCode broken rest then
    place :: gapStops moduleCode broken (place.count.pass (line rest)) (afterLine rest)
  else [place]
  termination_by cs.length
  decreasing_by
    next h =>
    exact Nat.lt_of_lt_of_le (afterLine_lt_of_opensComment h) (List.dropWhile_suffix _).length_le

/-- The slices that a reading takes at an escape, before what follows the backslash: the part of the
word that is not copied yet, from `piece` on, and for braces the text in which the second is looked
for. -/
def escapeSlices (length piece offset : Nat) (cs : List Char) : List (Nat × Nat) :=
  (piece, offset) :: if ['u', '\x7b'].isPrefixOf cs then [(offset + 3, length)] else []

/-- The slices that the reading of a word takes, at every escape and at the end. -/
def wordSlices (length : Nat) (first : Bool) (piece offset : Nat) : List Char → List (Nat × Nat)
  | [] => [(piece, offset)]
  | c :: cs =>
    if Text.isIdentifierChar c then wordSlices length false piece (offset + c.utf8Size) cs
    else if c = '\\' then
      let escape := readEscape cs
      let after := offset + byteLength (c :: escape.taken)
      if (escape.code.toOption.bind charOf?).any (mayStand first) then
        escapeSlices length piece offset cs ++ wordSlices length false after after escape.rest
      else escapeSlices length piece offset cs
    else [(piece, offset)]
  termination_by cs => cs.length
  decreasing_by
  · simp
  · exact Nat.lt_succ_of_le (length_rest_readEscape cs)

/-- The slices that a scan takes of a text of the given length. -/
def ScanState.slices (s : ScanState) (options : Options) (length : Nat) : List (Nat × Nat) :=
  let stops := gapStops options.moduleCode (s.stop.line < s.place.line) s.place s.rest
  let start := s.startPlace options
  let stop := s.stopPlace options
  let cs := (s.gap options).rest
  stops.flatMap (fun place =>
      [(place.columnOffset, place.offset), (place.offset, length), (s.stop.offset, place.offset)]) ++
    (if cs.head?.any startsWord then wordSlices length true start.offset start.offset cs else []) ++
    [(start.offset, stop.offset), (stop.columnOffset, stop.offset)]

variable {input passed cs : List Char} {place : Place}

/-- The last place is where the gap ends. -/
theorem getLast?_gapStops (moduleCode broken : Bool) (place : Place) (cs : List Char) :
    (gapStops moduleCode broken place cs).getLast?.map Place.offset =
      some (place.offset + byteLength (readGap moduleCode broken cs).taken) := by
  fun_induction gapStops moduleCode broken place cs with
  | case1 broken place cs rest broken' place' h ih =>
    rw [readGap, if_pos h]
    generalize gapStops _ _ _ _ = stops at ih
    cases stops with
    | nil => cases ih
    | cons stop stops =>
      rw [List.getLast?_cons_cons, ih]
      simp only [place', rest, broken', Place.offset_pass, Place.offset_count,
        Text.byteLength_append, Nat.add_assoc]
  | case2 broken place cs rest broken' place' h =>
    rw [readGap, if_neg h]
    simp only [List.getLast?_singleton, Option.map_some, place', Place.offset_pass]

theorem gapStops_counts (h : place.Counts passed) (moduleCode broken : Bool) :
    ∀ stop ∈ gapStops moduleCode broken place cs, place.offset ≤ stop.offset ∧
      ∃ taken rest, taken ++ rest = cs ∧ stop.Counts (passed ++ taken) := by
  fun_induction gapStops moduleCode broken place cs generalizing passed with
  | case1 broken place cs rest broken' place' _ =>
    rename_i ih
    have hp : place'.Counts (passed ++ blanks cs) := h.pass _
    have hle : place.offset ≤ place'.offset := by
      simp only [place', Place.offset_pass]
      exact Nat.le_add_right ..
    intro stop hs
    obtain rfl | hs := List.mem_cons.1 hs
    · exact ⟨hle, _, rest, List.takeWhile_append_dropWhile, hp⟩
    · obtain ⟨hle', taken, after, heq, hc⟩ := ih (hp.count.pass _) stop hs
      refine ⟨?_, blanks cs ++ line rest ++ taken, after, ?_, ?_⟩
      · rw [Place.offset_pass, Place.offset_count] at hle'
        omega
      · rw [List.append_assoc, heq, List.append_assoc, line, afterLine,
          List.takeWhile_append_dropWhile]
        exact List.takeWhile_append_dropWhile
      · rw [← List.append_assoc, ← List.append_assoc]
        exact hc
  | case2 broken place cs rest broken' place' =>
    intro stop hs
    obtain rfl := List.mem_singleton.1 hs
    refine ⟨?_, _, rest, List.takeWhile_append_dropWhile, h.pass _⟩
    simp only [place', Place.offset_pass]
    exact Nat.le_add_right ..

variable {first : Bool} {piece offset : Nat}

theorem cut_piece (hp : Boundary input piece) (hle : piece ≤ offset) (heq : passed ++ cs = input)
    (ho : offset = byteLength passed) : ∃ text, slice? input piece offset = some text :=
  hp.slice?_eq (ho ▸ Text.boundary_of_append heq) hle

theorem escapeSlices_cut (hp : Boundary input piece) (hle : piece ≤ offset)
    (heq : passed ++ '\\' :: cs = input) (ho : offset = byteLength passed) :
    ∀ slice ∈ escapeSlices (byteLength input) piece offset cs,
      ∃ text, slice? input slice.1 slice.2 = some text := by
  rw [escapeSlices, List.forall_mem_cons]
  refine ⟨cut_piece hp hle heq ho, ?_⟩
  split
  · next hu =>
    obtain ⟨cs, rfl⟩ := List.isPrefixOf_iff_prefix.1 hu
    simp only [List.forall_mem_singleton]
    have hb : Boundary input (offset + 3) := by
      have := Text.boundary_append (passed ++ ['\\', 'u', '\x7b']) cs
      rw [List.append_assoc, Text.byteLength_append] at this
      rw [← heq, ho]
      exact this
    exact hb.slice?_eq (Text.boundary_end input) hb.le
  · simp only [List.not_mem_nil, false_implies, implies_true]

theorem wordSlices_cut (hp : Boundary input piece) (hle : piece ≤ offset)
    (heq : passed ++ cs = input) (ho : offset = byteLength passed) :
    ∀ slice ∈ wordSlices (byteLength input) first piece offset cs,
      ∃ text, slice? input slice.1 slice.2 = some text := by
  fun_induction wordSlices (byteLength input) first piece offset cs generalizing passed with
  | case1 | case5 =>
    simp only [List.forall_mem_singleton]
    exact cut_piece hp hle heq ho
  | case2 first piece offset c cs _ ih =>
    have hpassed : passed ++ [c] ++ cs = input := by
      rw [List.append_assoc]
      exact heq
    have hoffset : offset + c.utf8Size = byteLength (passed ++ [c]) := by
      rw [Text.byteLength_append, ho]
      rfl
    exact ih hp (Nat.le_trans hle (Nat.le_add_right ..)) hpassed hoffset
  | case3 first piece offset cs escape _ _ after =>
    rename_i ih
    rw [List.forall_mem_append]
    have hpassed : passed ++ '\\' :: escape.taken ++ escape.rest = input := by
      rw [List.append_assoc, List.cons_append, readEscape_append]
      exact heq
    have hafter : after = byteLength (passed ++ '\\' :: escape.taken) := by
      rw [Text.byteLength_append, ← ho]
    exact ⟨escapeSlices_cut hp hle heq ho,
      ih (hafter ▸ Text.boundary_of_append hpassed) (Nat.le_refl _) hpassed hafter⟩
  | case4 => exact escapeSlices_cut hp hle heq ho

namespace ScanState

variable {s : ScanState} {options : Options}

/-- Where the gap ends. -/
theorem Tracked.startPlace (h : s.Tracked input) (options : Options) : ∃ passed,
    passed ++ (s.gap options).rest = input ∧ (s.startPlace options).Counts passed := by
  obtain ⟨passed, hp, hc⟩ := h.counts
  refine ⟨passed ++ (s.gap options).taken, ?_, (hc.pass _).count⟩
  rw [List.append_assoc, s.gap_append]
  exact hp

theorem Tracked.slices (h : s.Tracked input) (options : Options) :
    ∀ slice ∈ s.slices options (byteLength input),
      ∃ text, slice? input slice.1 slice.2 = some text := by
  obtain ⟨passed, hp, hc⟩ := h.counts
  obtain ⟨passed', hp', hc'⟩ := h.startPlace options
  have hstart := hc'.slices (s.gap options).rest
  have hstop := (hc'.pass (s.reading options).taken).slices (s.reading options).rest
  rw [hp'] at hstart
  rw [List.append_assoc, s.reading_append, hp'] at hstop
  obtain ⟨-, -, -, -, hstart, -⟩ := hstart
  obtain ⟨-, hcolumn, -, hcounted, hstop, -⟩ := hstop
  have hle : (s.startPlace options).offset ≤ (s.stopPlace options).offset := by
    rw [stopPlace, Place.offset_pass]
    exact Nat.le_add_right ..
  simp only [ScanState.slices, List.forall_mem_append, List.forall_mem_flatMap,
    List.forall_mem_cons]
  refine ⟨⟨fun place hm => ?_, ?_⟩, hstart.slice?_eq hstop hle, hcounted.slice?_eq hstop hcolumn,
    by simp⟩
  · obtain ⟨hle, taken, rest, heq, hplace⟩ := gapStops_counts hc _ _ place hm
    have := hplace.slices rest
    rw [List.append_assoc, heq, hp] at this
    obtain ⟨-, hcolumn, -, hcounted, hplace, -⟩ := this
    exact ⟨hcounted.slice?_eq hplace hcolumn, hplace.slice?_eq (Text.boundary_end input) hplace.le,
      h.located.stop.boundary.slice?_eq hplace (Nat.le_trans h.stop_le hle), by simp⟩
  · split
    · exact wordSlices_cut hstart (Nat.le_refl _) hp' hc'.offset_eq
    · simp

end ScanState

namespace Scanner

theorem tracked_after (input : List Char) (options : Options) (scans : Nat) :
    ((start input options).after scans).state.Tracked input := by
  induction scans with
  | zero => exact ScanState.tracked_start input
  | succ scans ih => exact ih.next (next_eq rfl).1

end Scanner

end ArithLang
