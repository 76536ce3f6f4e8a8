import ArithLang.Proofs.Boundary
import ArithLang.Proofs.Cursor.Standing

/-!
The bookkeeping of a scanner. However many scans were made and whatever came of them, its offsets lie
in the text in their order, and its column counts what it says it counts; so whatever a scan cuts out
of the text can be cut out.
-/

namespace ArithLang

open Text (Boundary byteLength slice?)

/-- The place has passed a text. Of it, the part before `lineStart` is left behind, the part up to
`columnOffset` is counted, and the last part is not counted yet. -/
def Place.Counts (place : Place) (passed : List Char) : Prop :=
  ∃ before counted ahead, passed = before ++ counted ++ ahead ∧
    place.lineStart = byteLength before ∧ place.columnOffset = byteLength (before ++ counted) ∧
      place.offset = byteLength passed ∧ place.column = counted.length ∧
        place.uncounted = ahead.length

namespace Place

variable {place : Place} {passed : List Char}

theorem counts_start : ({} : Place).Counts [] := ⟨[], [], [], rfl, rfl, rfl, rfl, rfl, rfl⟩

theorem Counts.offset_eq (h : place.Counts passed) : place.offset = byteLength passed := by
  obtain ⟨-, -, -, -, -, -, ho, -⟩ := h
  exact ho

theorem Counts.count (h : place.Counts passed) : place.count.Counts passed := by
  obtain ⟨before, counted, ahead, hp, hl, -, ho, hc, hu⟩ := h
  refine ⟨before, counted ++ ahead, [], ?_, hl, ?_, ho, ?_, rfl⟩
  · rw [hp, List.append_nil, List.append_assoc]
  · rw [← List.append_assoc, ← hp]
    exact ho
  · rw [List.length_append, ← hc, ← hu]
    rfl

theorem Counts.step (h : place.Counts passed) (c : Char) :
    (place.step c).Counts (passed ++ [c]) := by
  obtain ⟨before, counted, ahead, hp, hl, hn, ho, hc, hu⟩ := h
  refine ⟨before, counted, ahead ++ [c], ?_, hl, hn, ?_, hc, ?_⟩
  · rw [hp, List.append_assoc]
  · rw [Text.byteLength_append, ← ho]
    rfl
  · rw [List.length_append, ← hu]
    rfl

theorem Counts.breakLine (h : place.Counts passed) (cs : List Char) :
    (place.breakLine (byteLength cs)).Counts (passed ++ cs) := by
  have heq : place.offset + byteLength cs = byteLength (passed ++ cs) := by
    rw [Text.byteLength_append, h.offset_eq]
  refine ⟨passed ++ cs, [], [], ?_, heq, ?_, heq, rfl, rfl⟩
  · rw [List.append_nil, List.append_nil]
  · rw [List.append_nil]
    exact heq

theorem Counts.pass (h : place.Counts passed) (cs : List Char) :
    (place.pass cs).Counts (passed ++ cs) := by
  fun_induction Place.pass place cs generalizing passed with
  | case1 =>
    rw [List.append_nil]
    exact h
  | case2 place cs ih =>
    have := ih (h.breakLine ['\r', '\n'])
    rwa [List.append_assoc] at this
  | case3 place c cs _ _ ih =>
    have := ih (h.breakLine [c])
    rwa [List.append_assoc] at this
  | case4 place c cs _ _ ih =>
    have := ih (h.step c)
    rwa [List.append_assoc] at this

/-- What a place has counted and what it has not. -/
theorem Counts.slices (h : place.Counts passed) (rest : List Char) :
    place.lineStart ≤ place.columnOffset ∧ place.columnOffset ≤ place.offset ∧
      Boundary (passed ++ rest) place.lineStart ∧ Boundary (passed ++ rest) place.columnOffset ∧
        Boundary (passed ++ rest) place.offset ∧
          (slice? (passed ++ rest) place.lineStart place.columnOffset).map List.length =
            some place.column := by
  obtain ⟨before, counted, ahead, rfl, hl, hn, ho, hc, -⟩ := h
  rw [hl, hn, ho, hc]
  have hslice := Text.slice?_append before counted (ahead ++ rest)
  rw [← List.append_assoc, ← Text.byteLength_append] at hslice
  refine ⟨?_, ?_, ?_, ?_, Text.boundary_append _ _, ?_⟩
  · rw [Text.byteLength_append]
    exact Nat.le_add_right ..
  · rw [Text.byteLength_append (before ++ counted)]
    exact Nat.le_add_right ..
  · exact Text.boundary_of_prefix ⟨counted ++ ahead ++ rest, by simp⟩
  · exact Text.boundary_of_prefix ⟨ahead ++ rest, by simp⟩
  · rw [hslice, Option.map_some]

end Place

namespace ScanState

/-- The offsets of a scanner lie in its text, at boundaries and in order, and its column is the number
of characters of the line up to `columnOffset`. -/
structure Consistent (s : ScanState) (input : List Char) : Prop where
  lastStop_le : s.lastStop.offset ≤ s.start.offset
  start_le : s.start.offset ≤ s.place.offset
  stop_le : s.stop.offset ≤ s.place.offset
  place_le : s.place.offset ≤ byteLength input
  lineStart_le : s.place.lineStart ≤ s.place.columnOffset
  columnOffset_le : s.place.columnOffset ≤ s.place.offset
  boundary : ∀ offset ∈ [s.lastStop.offset, s.start.offset, s.stop.offset, s.place.offset,
    s.place.lineStart, s.place.columnOffset], Boundary input offset
  column_eq : (slice? input s.place.lineStart s.place.columnOffset).map List.length =
    some s.place.column

/-- What makes a state consistent and is kept by every scan. -/
structure Tracked (s : ScanState) (input : List Char) : Prop where
  located : s.Located input
  counts : ∃ passed, passed ++ s.rest = input ∧ s.place.Counts passed
  lastStop_le : s.lastStop.offset ≤ s.start.offset
  start_le : s.start.offset ≤ s.place.offset
  stop_le : s.stop.offset ≤ s.place.offset

variable {s s' : ScanState} {input passed : List Char} {options : Options} {t : Token} {e : LexError}

theorem Tracked.consistent (h : s.Tracked input) : s.Consistent input := by
  obtain ⟨passed, hp, hc⟩ := h.counts
  obtain ⟨hl, hn, hline, hcolumn, hplace, heq⟩ := hc.slices s.rest
  rw [hp] at hline hcolumn hplace heq
  refine ⟨h.lastStop_le, h.start_le, h.stop_le, hplace.le, hl, hn, ?_, heq⟩
  simp only [List.forall_mem_cons]
  exact ⟨h.located.lastStop.boundary, h.located.start.boundary, h.located.stop.boundary, hplace,
    hline, hcolumn, nofun⟩

theorem tracked_start (input : List Char) : ScanState.Tracked { rest := input } input :=
  ⟨located_start input, ⟨[], rfl, Place.counts_start⟩, Nat.le_refl _, Nat.le_refl _, Nat.le_refl _⟩

/-- The gap and what is read after it, counted. -/
theorem counts_stopPlace (h : s.place.Counts passed) (options : Options) :
    (s.stopPlace options).Counts
      (passed ++ (s.gap options).taken ++ (s.reading options).taken) :=
  (h.pass _).count.pass _

theorem append_reading (s : ScanState) (options : Options) (passed : List Char) :
    passed ++ (s.gap options).taken ++ (s.reading options).taken ++ (s.reading options).rest =
      passed ++ s.rest := by
  rw [List.append_assoc, s.reading_append, List.append_assoc, s.gap_append]

theorem Tracked.finds (h : s.Tracked input) (hf : s.Finds options t s') : s'.Tracked input := by
  obtain ⟨passed, hp, hc⟩ := h.counts
  have hstart : s'.start.offset = (s.startPlace options).offset := by
    rw [← show s'.token.start = s'.start from rfl, hf.token_eq, hf.start_eq]
    rfl
  have hstop : s'.stop.offset = s'.place.offset := by
    rw [← show s'.token.stop = s'.stop from rfl, hf.token_eq, hf.place_offset]
  refine ⟨h.located.finds hf, ⟨_, ?_, hf.place_eq ▸ (counts_stopPlace hc options).count⟩, ?_, ?_,
    Nat.le_of_eq hstop⟩
  · rw [hf.rest_eq, append_reading]
    exact hp
  · rw [hf.lastStop_eq, hstart]
    exact Nat.le_trans h.stop_le (s.startPlace_offset options)
  · rw [hstart, hf.place_eq, Place.offset_count, stopPlace, Place.offset_pass]
    exact Nat.le_add_right ..

theorem Tracked.fails (h : s.Tracked input) (hf : s.Fails options e s') : s'.Tracked input := by
  obtain ⟨passed, hp, hc⟩ := h.counts
  have hstart : s'.start.offset = (s.startPlace options).offset := by
    rw [hf.start_eq]
    rfl
  refine ⟨h.located.fails hf, ⟨_, ?_, hf.place_eq ▸ counts_stopPlace hc options⟩, ?_, ?_, ?_⟩
  · rw [hf.rest_eq, append_reading]
    exact hp
  · rw [hf.lastStop_eq, hstart]
    exact Nat.le_trans h.stop_le (s.startPlace_offset options)
  · rw [hstart, hf.place_eq, stopPlace, Place.offset_pass]
    exact Nat.le_add_right ..
  · rw [hf.stop_eq]
    exact Nat.le_trans h.stop_le hf.place_offset

theorem Tracked.next {r : Except LexError Token} (h : s.Tracked input)
    (hn : s.next options = (r, s')) : s'.Tracked input := by
  cases r with
  | ok t => exact h.finds (finds_of_next hn)
  | error e => exact h.fails (fails_of_next hn)

end ScanState

end ArithLang
