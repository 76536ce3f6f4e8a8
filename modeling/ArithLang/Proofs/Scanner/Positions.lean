import ArithLang.Proofs.Lexeme.Unbroken
import ArithLang.Proofs.Position
import ArithLang.Proofs.Scanner.Step

/-!
Every position that a scanner gives out is the one its offset has in the text, however many scans were
made and whatever came of them.
-/

namespace ArithLang

open Text (Seam endPosition positionAt?)

theorem Text.not_isLineBreak_of_not_isBlank {c : Char} (h : isBlank c = false) :
    isLineBreak c = false :=
  (Bool.or_eq_false_iff.1 h).2

/-- What holds no line break leaves the seam after it whole. -/
theorem Text.seam_of_unbroken {s t u : List Char} (h : Seam s (t ++ u))
    (ht : containsLineBreak t = false) : Seam (s ++ t) u := by
  induction t generalizing s with
  | nil =>
    rw [List.append_nil]
    exact h
  | cons c t ih =>
    obtain ⟨hc, ht⟩ := Bool.or_eq_false_iff.1 ht
    have hr : c ≠ '\r' := by
      rintro rfl
      cases hc
    have := ih (seam_of_concat (s := s) hr) ht
    rwa [List.append_assoc] at this

/-- What follows a gap does not begin with a line break. -/
theorem seam_of_readGap (passed : List Char) (moduleCode broken : Bool) (cs : List Char) :
    Seam passed (readGap moduleCode broken cs).rest := by
  refine Text.seam_of_head ?_
  have h := (readGap_stops moduleCode broken cs).1
  generalize (readGap moduleCode broken cs).rest = rest at h ⊢
  cases rest with
  | nil => rfl
  | cons c rest =>
    have hc : Text.isBlank c = false := by simpa using h
    simpa using Text.not_isLineBreak_of_not_isBlank hc

theorem Place.After.isIn {place : Place} {passed rest : List Char} (h : place.After passed) :
    place.count.position.IsIn (passed ++ rest) := by
  exact Position.isIn_iff.2 ⟨passed, rest, rfl, h.position_eq⟩

namespace ScanState

variable {s s' : ScanState} {input : List Char} {options : Options} {t : Token} {e : LexError}

theorem seam_of_gap (passed : List Char) (s : ScanState) (options : Options) :
    Seam passed ((s.reading options).taken ++ (s.reading options).rest) := by
  rw [s.reading_append options]
  exact seam_of_readGap passed _ _ _

/-- A scanner's place is that of the text it has passed, which does not end within a line break. -/
def Passed (s : ScanState) (input passed : List Char) : Prop :=
  passed ++ s.rest = input ∧ s.place.After passed ∧ Seam passed s.rest

structure Located (s : ScanState) (input : List Char) : Prop where
  passed : ∃ passed, s.Passed input passed
  start : s.start.IsIn input
  stop : s.stop.IsIn input
  lastStop : s.lastStop.IsIn input

theorem located_start (input : List Char) : ScanState.Located { rest := input } input := by
  have h : (default : Position).IsIn input := by
    change (Text.upTo? input 0).map endPosition = _
    rw [Text.upTo?_zero]
    rfl
  exact ⟨⟨[], rfl, Place.after_start, Text.seam_nil _⟩, h, h, h⟩

namespace Passed

variable {passed : List Char}

theorem startPlace (h : s.Passed input passed) (options : Options) :
    (s.startPlace options).After (passed ++ (s.gap options).taken) := by
  obtain ⟨-, hplace, hseam⟩ := h
  rw [← s.gap_append options] at hseam
  exact (hplace.pass hseam.left).count

theorem stopPlace (h : s.Passed input passed) (options : Options) :
    (s.stopPlace options).After (passed ++ (s.gap options).taken ++ (s.reading options).taken) := by
  exact (h.startPlace options).pass (seam_of_gap _ s options).left

theorem append_eq (h : s.Passed input passed) (options : Options) :
    passed ++ (s.gap options).taken ++ (s.reading options).taken ++ (s.reading options).rest =
      input := by
  rw [List.append_assoc, s.reading_append, List.append_assoc, s.gap_append]
  exact h.1

theorem start_isIn (h : s.Passed input passed) (options : Options) :
    (s.startPlace options).position.IsIn input := by
  rw [← h.append_eq options, List.append_assoc]
  exact (h.startPlace options).isIn

theorem stop_isIn (h : s.Passed input passed) (options : Options) :
    (s.stopPlace options).count.position.IsIn input := by
  rw [← h.append_eq options]
  exact (h.stopPlace options).isIn

/-- Any state that has gone on to where the reading stops. -/
theorem after (h : s.Passed input passed) (hrest : s'.rest = (s.reading options).rest)
    (hplace : s'.place.After
      (passed ++ (s.gap options).taken ++ (s.reading options).taken)) :
    s'.Passed input (passed ++ (s.gap options).taken ++ (s.reading options).taken) := by
  refine ⟨?_, hplace, ?_⟩
  · rw [hrest]
    exact h.append_eq options
  · rw [hrest]
    exact Text.seam_of_unbroken (seam_of_gap _ s options) (readLexeme_unbroken options _)

theorem finds (h : s.Passed input passed) (hf : s.Finds options t s') :
    s'.Passed input (passed ++ (s.gap options).taken ++ (s.reading options).taken) := by
  refine h.after hf.rest_eq ?_
  rw [hf.place_eq]
  exact (h.stopPlace options).count

end Passed

theorem Located.finds (h : s.Located input) (hf : s.Finds options t s') : s'.Located input := by
  obtain ⟨passed, hp⟩ := h.passed
  obtain rfl := hf.token_eq
  refine ⟨⟨_, hp.finds hf⟩, ?_, ?_, ?_⟩
  · have := hp.start_isIn options
    rw [← hf.start_eq] at this
    exact this
  · have := hp.stop_isIn options
    rw [← hf.stop_eq] at this
    exact this
  · exact hf.lastStop_eq ▸ h.stop

theorem Located.fails (h : s.Located input) (hf : s.Fails options e s') : s'.Located input := by
  obtain ⟨passed, hp⟩ := h.passed
  refine ⟨⟨_, hp.after hf.rest_eq ?_⟩, ?_, ?_, ?_⟩
  · rw [hf.place_eq]
    exact hp.stopPlace options
  · exact hf.start_eq ▸ hp.start_isIn options
  · exact hf.stop_eq ▸ h.stop
  · exact hf.lastStop_eq ▸ h.stop

/-- A found token covers what has been read for it. -/
theorem Finds.slice?_eq (h : s.Finds options t s') (hl : s.Located input) :
    Text.slice? input t.start.offset t.stop.offset = some (s.reading options).taken := by
  obtain ⟨passed, hp⟩ := hl.passed
  have hstart : t.start.offset = Text.byteLength (passed ++ (s.gap options).taken) := by
    rw [h.start_eq]
    exact (hp.startPlace options).offset_eq
  have hstop : t.stop.offset =
      Text.byteLength (passed ++ (s.gap options).taken) +
        Text.byteLength (s.reading options).taken := by
    rw [h.stop_eq, ← Text.byteLength_append]
    exact (hp.stopPlace options).offset_eq
  rw [hstart, hstop, ← hp.append_eq options]
  exact Text.slice?_append _ _ _

/-- One scan, whatever comes of it, keeps all positions in place. -/
theorem Located.next {r : Except LexError Token} (h : s.Located input)
    (hn : s.next options = (r, s')) : s'.Located input := by
  cases r with
  | ok t => exact h.finds (finds_of_next hn)
  | error e => exact h.fails (fails_of_next hn)

end ScanState

namespace Scanner

/-- The scanner after so many scans, each made whether or not those before it failed. -/
def after (scanner : Scanner) : Nat → Scanner
  | 0 => scanner
  | scans + 1 => (scanner.after scans).next.2

theorem located_after (input : List Char) (options : Options) (scans : Nat) :
    ((start input options).after scans).state.Located input := by
  induction scans with
  | zero => exact ScanState.located_start input
  | succ scans ih => exact ih.next (next_eq rfl).1

/-- Lines and columns are a function of the offset: of every token that any of any number of scans
gives out, and of where the token before it stopped. -/
theorem positions_eq (input : List Char) (options : Options) (scans : Nat) :
    let scanner := (start input options).after scans
    positionAt? input scanner.state.lastStop.offset = some scanner.state.lastStop ∧
      ∀ t scanner', scanner.next = (.ok t, scanner') →
        positionAt? input t.start.offset = some t.start ∧
          positionAt? input t.stop.offset = some t.stop := by
  refine ⟨(located_after input options scans).lastStop, ?_⟩
  intro t scanner' h
  have hn := (next_eq h).1
  have hl := (located_after input options scans).next hn
  obtain rfl := (ScanState.finds_of_next hn).token_eq
  exact ⟨hl.start, hl.stop⟩

/-- The second scan fails within an escape; the third goes on after what was passed. -/
theorem positions_eq_escape :
    let input := "é\r\n\\u\x7bx b".toList
    ∃ t scanner', ((start input {}).after 2).next = (.ok t, scanner') ∧
      (t.start = ⟨7, 2, 3⟩ ∧ positionAt? input 7 = some ⟨7, 2, 3⟩) ∧
        t.stop = ⟨8, 2, 4⟩ ∧ positionAt? input 8 = some ⟨8, 2, 4⟩ := by
  intro input
  have hok : ((start input {}).after 2).next.1.toOption.any
      (fun t => t.start == ⟨7, 2, 3⟩ && t.stop == ⟨8, 2, 4⟩) = true := by
    decide +kernel
  cases hn : ((start input {}).after 2).next with
  | mk r scanner' =>
    rw [hn] at hok
    cases r with
    | error => cases hok
    | ok t =>
      obtain ⟨hstart, hstop⟩ := (Bool.and_eq_true _ _).mp hok
      have h := (positions_eq input {} 2).2 t scanner' hn
      rw [eq_of_beq hstart, eq_of_beq hstop] at h
      exact ⟨t, scanner', rfl, ⟨eq_of_beq hstart, h.1⟩, eq_of_beq hstop, h.2⟩

end Scanner

end ArithLang
