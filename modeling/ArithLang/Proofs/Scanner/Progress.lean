import ArithLang.Proofs.Scanner.Words

/-!
How scans go on. Every scan gets ahead in its text, or it has come to the end or to a barrier: then all
that follow come to the same. A scanner may be asked for single tokens and for the items of its stream
in any order; only the items stop after the last one.
-/

namespace ArithLang

open Text (byteLength)

/-- A scanner may be asked for a token, or for the next item of its stream. -/
inductive Ask
  | token
  | item
  deriving DecidableEq, Repr

namespace Scanner

/-- What a scanner answers, and the scanner after it. -/
def ask (s : Scanner) : Ask → Option (Except LexError Token) × Scanner
  | .token => (some s.next.1, s.next.2)
  | .item => s.next?

/-- The scanner after it was asked so, whatever it answered. -/
def asked (s : Scanner) : List Ask → Scanner
  | [] => s
  | a :: asks => (s.ask a).2.asked asks

/-- What one scan comes to, and what all that follow come to if it does not get ahead. -/
inductive Progress (input : List Char) (s s' : Scanner) : Except LexError Token → Prop
  | ended : t.lexeme = (.eof, .none) → t.start.offset = byteLength input →
      t.stop.offset = byteLength input → (∀ asks, (s'.asked asks).next.1 = .ok t) →
      Progress input s s' (.ok t)
  | token : t.kind ≠ .eof → s.state.place.offset < s'.state.place.offset →
      Progress input s s' (.ok t)
  | error : e.fault.isBarrier = false → s.state.place.offset < s'.state.place.offset →
      Progress input s s' (.error e)
  | barrier : e.fault.isBarrier = true → e.offset = s'.state.place.offset →
      s.state.rest = gap ++ s'.state.rest →
      IsGap s.options.moduleCode (s.state.stop.line < s.state.place.line) gap s'.state.rest →
      s'.state.place.offset = s.state.place.offset + byteLength gap →
      (∀ asks, (s'.asked asks).next.1 = .error e ∧
        (s'.asked asks).state.place.offset = s'.state.place.offset) →
      Progress input s s' (.error e)

end Scanner

variable {options : Options} {cs : List Char} {r : Except LexError Token} {e : LexError} {t : Token}

/-- A reading that fails has taken something, unless it fails at a barrier. -/
theorem readLexeme_error (h : (readLexeme options cs).outcome = .error e) :
    e.fault.isBarrier = false ∧ (readLexeme options cs).taken ≠ [] ∨
      e.fault.isBarrier = true ∧ e.offset = 0 ∧ (readLexeme options cs).taken = [] := by
  cases cs with
  | nil => cases h
  | cons c cs =>
    have hr := lexemeReading options c cs
    generalize readLexeme options (c :: cs) = reading at h hr
    cases hr with
    | hidden | unexpected =>
      cases h
      exact .inr ⟨rfl, rfl, rfl⟩
    | word hw =>
      have hf := readSpelledWord_fault (readWord_eq_error_iff.1 h)
      exact .inl ⟨hf, readSpelledWord_taken_ne_nil hw⟩
    | number _ hn => exact .inl ⟨readNumber_fault h, readNumber_taken_ne_nil hn⟩
    | symbol => cases h

/-- A text that begins like an old comment begins with a symbol. -/
theorem not_closes_of_error (h : (readLexeme options cs).outcome = .error e) :
    ¬ "-->".toList <+: cs := by
  rintro ⟨rest, rfl⟩
  have hr := lexemeReading options '-' ('-' :: '>' :: rest)
  change (readLexeme options ('-' :: '-' :: '>' :: rest)).outcome = _ at h
  generalize readLexeme options ('-' :: '-' :: '>' :: rest) = reading at h hr
  cases hr with
  | hidden hh => simp [opensHiddenComment] at hh
  | word hw => cases hw.symm.trans (show startsWord '-' = false by decide +kernel)
  | number _ hn => cases hn
  | symbol => cases h
  | unexpected _ _ hs =>
    have hminus := List.find?_eq_none.1 hs ⟨"-", .plusMin⟩ (by decide)
    simp [Symbol.isAllowed] at hminus

namespace ScanState

variable {s s' : ScanState}

/-- A scan from here takes nothing, whatever the scans before it came to. -/
structure AtRest (s : ScanState) (options : Options) : Prop where
  counted : s.place.count = s.place
  gap_eq : ∀ broken, readGap options.moduleCode broken s.rest = ⟨[], s.rest⟩
  taken_eq : (readLexeme options s.rest).taken = []

namespace AtRest

variable (h : s.AtRest options)

include h

theorem reading_eq : s.reading options = readLexeme options s.rest := by
  rw [reading, gap, h.gap_eq]

theorem startPlace_eq : s.startPlace options = s.place := by
  rw [startPlace, gap, h.gap_eq]
  exact h.counted

theorem stopPlace_eq : s.stopPlace options = s.place := by
  rw [stopPlace, h.startPlace_eq, h.reading_eq, h.taken_eq]
  rfl

theorem rest_eq : (s.reading options).rest = s.rest := by
  have happend := readLexeme_append options s.rest
  rw [h.taken_eq] at happend
  rw [h.reading_eq]
  exact happend

/-- It stays where it is. -/
theorem next (hn : s.next options = (r, s')) :
    s'.AtRest options ∧ s'.place = s.place ∧ s'.rest = s.rest := by
  have hstate : s'.place = s.place ∧ s'.rest = s.rest := by
    cases r with
    | ok t =>
      have hf := finds_of_next hn
      rw [hf.place_eq, hf.rest_eq, h.stopPlace_eq, h.rest_eq]
      exact ⟨h.counted, rfl⟩
    | error e =>
      have hf := fails_of_next hn
      rw [hf.place_eq, hf.rest_eq, h.stopPlace_eq, h.rest_eq]
      exact ⟨rfl, rfl⟩
  obtain ⟨hp, hr⟩ := hstate
  refine ⟨⟨?_, ?_, ?_⟩, hp, hr⟩
  · rw [hp]
    exact h.counted
  · rw [hr]
    exact h.gap_eq
  · rw [hr]
    exact h.taken_eq

end AtRest

/-- A scan that leaves the scanner at rest, where it has found what it read. -/
structure Halts (s : ScanState) (options : Options) (s' : ScanState) : Prop
    extends AtRest s' options where
  place_eq : s'.place = s.startPlace options
  rest_eq : s'.rest = (s.gap options).rest

/-- It stays there, whatever it was asked for since. -/
theorem Halts.next {u : ScanState} (h : s.Halts options s') (hn : s'.next options = (r, u)) :
    s.Halts options u := by
  obtain ⟨hu, hp, hr⟩ := h.toAtRest.next hn
  exact ⟨hu, hp.trans h.place_eq, hr.trans h.rest_eq⟩

/-- The next scan comes to the same. -/
theorem Halts.next_eq (h : s.Halts options s') : (s'.next options).1 = (s.next options).1 := by
  have hreading : s'.reading options = s.reading options := by
    rw [h.reading_eq, h.rest_eq]
    rfl
  have hstart : s'.startPlace options = s.startPlace options := by
    rw [h.startPlace_eq, h.place_eq]
  have hstop : s'.stopPlace options = s.stopPlace options := by
    rw [stopPlace, stopPlace, hstart, hreading]
  cases ho : (s.reading options).outcome with
  | ok l =>
    obtain ⟨_, hn⟩ := next_of_outcome ho
    obtain ⟨_, hn'⟩ := next_of_outcome (s := s') (hreading ▸ ho)
    rw [hn, hn', hstart, hstop]
  | error e =>
    rw [next_eq_error_iff.2 ho, ← hstart]
    exact next_eq_error_iff.2 (hreading ▸ ho)

/-- A scan that finds the end of the text. -/
theorem Finds.halts (h : s.Finds options t s') (hnil : (s.gap options).rest = []) :
    s.Halts options s' := by
  have happend := s.reading_append options
  rw [hnil] at happend
  obtain ⟨htaken, hrest⟩ := List.append_eq_nil_iff.1 happend
  have hrest : s'.rest = [] := h.rest_eq.trans hrest
  have hplace : s'.place = s.startPlace options := by
    rw [h.place_eq, stopPlace, htaken]
    rfl
  refine ⟨⟨?_, fun broken => ?_, ?_⟩, hplace, hrest.trans hnil.symm⟩
  · rw [hplace]
    rfl
  · rw [hrest]
    exact readGap_of_stopped rfl (by simp [opensComment, closesHiddenComment, opensHiddenComment])
  · rw [hrest]
    rfl

/-- A scan that fails at a barrier. -/
theorem Fails.halts (h : s.Fails options e s') (hb : e.fault.isBarrier = true) :
    s.Halts options s' ∧ e.offset = s'.place.offset := by
  obtain ⟨fault, hout, rfl⟩ := h.outcome_eq
  obtain ⟨hf, -⟩ | ⟨-, hoffset, htaken⟩ := readLexeme_error hout
  · cases hf.symm.trans hb
  · have happend := s.reading_append options
    change (s.reading options).taken = [] at htaken
    rw [htaken] at happend
    have hrest : s'.rest = (s.gap options).rest := h.rest_eq.trans happend
    have hplace : s'.place = s.startPlace options := by
      rw [h.place_eq, stopPlace, htaken]
      rfl
    change (readLexeme options (s.gap options).rest).outcome = _ at hout
    refine ⟨⟨⟨?_, fun broken => ?_, ?_⟩, hplace, hrest⟩, ?_⟩
    · rw [hplace]
      rfl
    · rw [hrest]
      obtain ⟨hblank, hopens⟩ := readGap_stops options.moduleCode (s.stop.line < s.place.line) s.rest
      refine readGap_of_stopped hblank (eq_false_of_ne_true fun ho => ?_)
      obtain ⟨-, hclose⟩ | hopen := opensComment_iff.1 ho
      · exact not_closes_of_error hout hclose
      · cases hopens.symm.trans (opensComment_iff.2 (.inr hopen))
    · rw [hrest]
      exact htaken
    · rw [hplace]
      simp [LexError.shift, hoffset]

end ScanState

namespace Scanner

variable {s s' : Scanner} {input : List Char} {a : Ask} {asks : List Ask}

/-- Either way it is a scan that is made, unless the stream has ended. -/
theorem ask_cases (s : Scanner) (a : Ask) :
    a = .item ∧ s.ended = true ∧ s.ask a = (none, s) ∨
      ∃ d, s.ask a = (some s.next.1, d) ∧ d.state = s.next.2.state ∧ d.options = s.options ∧
        d.ended = if a = .item then isLast s.next.1 else s.ended := by
  have hn : s.next = (s.next.1, s.next.2) := rfl
  have hoptions := congrArg Scanner.options (next_eq hn).2
  cases a with
  | token => exact .inr ⟨_, rfl, rfl, hoptions, ended_of_next hn⟩
  | item =>
    cases he : s.ended with
    | true => exact .inl ⟨rfl, rfl, next?_of_ended he⟩
    | false => exact .inr ⟨_, next?_of_next he rfl, rfl, hoptions, rfl⟩

/-- What every scan keeps true, calls keep true. -/
theorem asked_keeps {Inv : ScanState → Prop}
    (keeps : ∀ state r state', Inv state → state.next s.options = (r, state') → Inv state')
    (h : Inv s.state) (asks : List Ask) :
    Inv (s.asked asks).state ∧ (s.asked asks).options = s.options := by
  induction asks generalizing s with
  | nil => exact ⟨h, rfl⟩
  | cons a asks ih =>
    rw [asked]
    obtain ⟨-, -, ha⟩ | ⟨d, ha, hstate, hoptions, -⟩ := s.ask_cases a
    · rw [ha]
      exact ih keeps h
    · rw [ha, ← hoptions]
      refine ih (s := d) (hoptions ▸ keeps) ?_
      rw [hstate]
      exact keeps _ _ _ h (next_eq rfl).1

/-- After a scan that leaves the scanner at rest every other comes to the same. -/
theorem asked_of_halts (h : s.state.Halts s.options s'.state) (ho : s'.options = s.options)
    (asks : List Ask) :
    (s'.asked asks).next.1 = s.next.1 ∧ (s'.asked asks).state.place = s'.state.place := by
  obtain ⟨h', hoptions⟩ := asked_keeps (s := s') (fun _ _ _ hi hn => hi.next (ho ▸ hn)) h asks
  refine ⟨?_, h'.place_eq.trans h.place_eq.symm⟩
  change ((s'.asked asks).state.next (s'.asked asks).options).1 = (s.state.next s.options).1
  rw [hoptions, ho]
  exact h'.next_eq

/-- The last item of the stream ends it. -/
theorem ended_ask_iff : (s.ask a).2.ended = true ↔
    s.ended = true ∨ a = .item ∧ ∃ r, s.next?.1 = some r ∧ isLast r = true := by
  cases a with
  | token =>
    have he : s.next.2.ended = s.ended := ended_of_next rfl
    simp [ask, he]
  | item =>
    rw [ask]
    cases he : s.ended with
    | true => simp [next?_of_ended he, he]
    | false => simp [next?_of_next he rfl]

/-- The stream has ended once one of its items was the last, and not before. -/
theorem ended_asked_iff : (s.asked asks).ended = true ↔
    s.ended = true ∨ ∃ earlier later r, asks = earlier ++ .item :: later ∧
      (s.asked earlier).next?.1 = some r ∧ isLast r = true := by
  induction asks generalizing s with
  | nil => simp [asked]
  | cons a asks ih =>
    rw [asked, ih, ended_ask_iff]
    constructor
    · rintro ((he | ⟨rfl, r, hn, hr⟩) | ⟨earlier, later, r, rfl, hn, hr⟩)
      · exact .inl he
      · exact .inr ⟨[], asks, r, rfl, hn, hr⟩
      · exact .inr ⟨a :: earlier, later, r, rfl, hn, hr⟩
    · rintro (he | ⟨earlier, later, r, heq, hn, hr⟩)
      · exact .inl (.inl he)
      · cases earlier with
        | nil =>
          obtain ⟨rfl, -⟩ := List.cons.inj heq
          exact .inl (.inr ⟨rfl, r, hn, hr⟩)
        | cons b earlier =>
          obtain ⟨rfl, rfl⟩ := List.cons.inj heq
          exact .inr ⟨earlier, later, r, rfl, hn, hr⟩

/-- A scan from a place in the text makes progress or comes to rest. -/
theorem progress_next (h : s.state.Located input) : Progress input s s.next.2 s.next.1 := by
  obtain ⟨hnext, hs⟩ := next_eq (show s.next = (s.next.1, s.next.2) from rfl)
  have hoptions := congrArg Scanner.options hs
  obtain ⟨passed, hp⟩ := h.passed
  cases hr : s.next.1 with
  | ok t =>
    rw [hr] at hnext
    have hf := ScanState.finds_of_next hnext
    obtain ⟨hnil, hl⟩ | hl := isLexeme_of_read hf.outcome_eq
    · have hlater := asked_of_halts (hf.halts hnil) hoptions
      have hinput := hp.append_eq s.options
      rw [List.append_assoc, s.state.reading_append, hnil, List.append_nil] at hinput
      have hstart : t.start.offset = byteLength input := by
        rw [hf.start_eq, ← hinput]
        exact (hp.startPlace s.options).offset_eq
      have htaken := s.state.reading_append s.options
      rw [hnil] at htaken
      refine .ended hl hstart ?_ fun asks => (hlater asks).1.trans hr
      rw [hf.stop_offset, (List.append_eq_nil_iff.1 htaken).1, hstart]
      rfl
    · refine .token hl.kind_ne_eof ?_
      rw [hf.place_offset]
      exact Nat.lt_of_le_of_lt hf.start_le ((hf.standsIn h).offset_lt hl.kind_ne_eof)
  | error e =>
    rw [hr] at hnext
    have hf := ScanState.fails_of_next hnext
    cases hb : e.fault.isBarrier with
    | true =>
      obtain ⟨hhalts, hoffset⟩ := hf.halts hb
      have hlater := asked_of_halts hhalts hoptions
      have hrest : s.state.rest = (s.state.gap s.options).taken ++ s.next.2.state.rest := by
        rw [hhalts.rest_eq, s.state.gap_append]
      refine .barrier hb hoffset hrest ?_ ?_ fun asks =>
        ⟨(hlater asks).1.trans hr, congrArg Place.offset (hlater asks).2⟩
      · rw [hhalts.rest_eq]
        exact readGap_isGap ..
      · rw [hhalts.place_eq, ScanState.startPlace, Place.offset_count, Place.offset_pass]
    | false =>
      obtain ⟨fault, hout, rfl⟩ := hf.outcome_eq
      obtain ⟨-, htaken⟩ | ⟨hfault, -⟩ := readLexeme_error hout
      · refine .error hb ?_
        rw [hf.place_eq, ScanState.stopPlace, Place.offset_pass]
        exact Nat.lt_of_le_of_lt (s.state.startPlace_offset s.options)
          (Nat.lt_add_of_pos_right (Text.byteLength_pos htaken))
      · cases hb.symm.trans hfault

/-- However a scanner of a text was asked before, its next scan makes progress or comes to rest. Its
stream goes on with what that scan finds, unless it has yielded its last item; it holds at most one more
item than the text has characters. -/
theorem scans_progress (input : List Char) (options : Options) (asks : List Ask) :
    let s := (start input options).asked asks
    Progress input s s.next.2 s.next.1 ∧
      (s.next?.1 = none ↔ ∃ earlier later r, asks = earlier ++ .item :: later ∧
        ((start input options).asked earlier).next?.1 = some r ∧ isLast r = true) ∧
      (s.next?.1 = none → s.next?.2 = s) ∧
      (∀ r, s.next?.1 = some r → r = s.next.1 ∧ s.next?.2.state = s.next.2.state) ∧
      ∃ rs, s.Yields rs ∧ rs.length ≤ input.length + 1 := by
  intro s
  obtain ⟨hl, -⟩ := asked_keeps (s := start input options)
    (fun _ _ _ hi hn => ScanState.Located.next hi hn) (ScanState.located_start input) asks
  refine ⟨progress_next hl, ?_⟩
  have hended : s.ended = true ↔ _ := ended_asked_iff
  cases he : s.ended with
  | true =>
    have hn := next?_of_ended he
    refine ⟨⟨fun _ => ?_, fun _ => congrArg Prod.fst hn⟩, fun _ => congrArg Prod.snd hn,
      fun r hr => ?_, [], .done hn, Nat.zero_le _⟩
    · exact (hended.1 he).resolve_left Bool.false_ne_true
    · cases (congrArg Prod.fst hn).symm.trans hr
  | false =>
    have hn := next?_of_next he (show s.next = (s.next.1, s.next.2) from rfl)
    obtain ⟨rs, hy, hlen⟩ := exists_yields s he
    obtain ⟨passed, happend, -⟩ := hl.passed
    refine ⟨⟨fun hnone => ?_, fun hlast => ?_⟩, fun hnone => ?_, fun r hr => ?_, rs, hy, ?_⟩
    · cases (congrArg Prod.fst hn).symm.trans hnone
    · cases he.symm.trans (hended.2 (.inr hlast))
    · cases (congrArg Prod.fst hn).symm.trans hnone
    · obtain rfl := Option.some.inj ((congrArg Prod.fst hn).symm.trans hr)
      exact ⟨rfl, congrArg (fun p => p.2.state) hn⟩
    · refine Nat.le_trans hlen (Nat.succ_le_succ ?_)
      rw [← happend, List.length_append]
      exact Nat.le_add_left ..

/-- A character that begins nothing stops the scanner, however it is asked; once the error has been an
item, there are no more. -/
theorem scans_progress_barrier :
    let s := (start "x #".toList {}).asked [.token, .item, .item]
    (∀ asks, (s.next.2.asked asks).next.1 = .error ⟨.unexpectedCharacter '#', 2⟩) ∧
      s.next?.1 = none ∧ s.next?.2 = s := by
  intro s
  have hr : s.next.1.map (fun _ => ()) = .error ⟨.unexpectedCharacter '#', 2⟩ := by decide +kernel
  obtain ⟨hp, hn, hsame, -⟩ := scans_progress "x #".toList {} [.token, .item, .item]
  have hlast : ((start "x #".toList {}).asked [.token]).next?.1.any isLast = true := by decide +kernel
  obtain ⟨r, hitem, hlast⟩ := (Option.any_eq_true ..).1 hlast
  have hnone : s.next?.1 = none := hn.2 ⟨[.token], [.item], r, rfl, hitem, hlast⟩
  refine ⟨fun asks => ?_, hnone, hsame hnone⟩
  change Progress _ s s.next.2 s.next.1 at hp
  generalize s.next.1 = r at hp hr
  cases hp with
  | ended | token => cases hr
  | error hb => cases hr; cases hb
  | barrier _ _ _ _ _ hlater => cases hr; exact (hlater asks).1

end Scanner

end ArithLang
