import ArithLang.Proofs.Cursor.Standing
import ArithLang.Proofs.Lexeme.Cut

/-!
A part of a text that reaches from the start of a token to the stop of one holds the same tokens when
it is read by itself, at positions counted from where it begins.
-/

namespace ArithLang

open Text (Seam byteLength endPosition)
open TokenCursor (Passes)

namespace Token

/-- The token at positions as counted from another one. -/
def relativeTo (t : Token) (origin : Position) : Token :=
  { t with start := t.start.relativeTo origin, stop := t.stop.relativeTo origin }

end Token

theorem Text.isPrefix_of_byteLength_le {s t u : List Char} (hs : s <+: u) (ht : t <+: u)
    (h : byteLength s ≤ byteLength t) : s <+: t := by
  obtain hst | ⟨more, rfl⟩ := List.prefix_or_prefix_of_prefix hs ht
  · exact hst
  · cases more with
    | nil => exact ⟨[], by simp⟩
    | cons c more =>
      have := byteLength_pos (List.cons_ne_nil c more)
      rw [byteLength_append] at h
      omega

namespace ScanState

/-- A scanner over a text beside one over a part of it, both between tokens at the same place of the
part. -/
structure Cut (before part after : List Char) (s s' : ScanState) : Prop where
  seam : Seam before part
  passed : ∃ p, s.Passed (before ++ part ++ after) (before ++ p) ∧ s'.Passed part p
  line_eq : s.stop.line = s.place.line
  line_eq' : s'.stop.line = s'.place.line

variable {s s' u : ScanState} {before part after p r : List Char} {options : Options} {t : Token}

theorem next_of_outcome {l : Lexeme} (h : (s.reading options).outcome = .ok l) :
    ∃ u, s.next options = (.ok ⟨l.1, l.2, (s.startPlace options).position,
      (s.stopPlace options).count.position⟩, u) := by
  rw [next_eq, passReading, h]
  exact ⟨_, rfl⟩

theorem Finds.line_eq (h : s.Finds options t u) : u.stop.line = u.place.line := by
  have : u.stop = t.stop := congrArg Token.stop h.token_eq
  rw [this, h.stop_eq, h.place_eq]
  rfl

/-- What a scan finds at a place of a text. -/
structure Finds.At (s : ScanState) (options : Options) (t : Token) (passed : List Char) : Prop where
  start_eq : t.start = endPosition passed
  stop_eq : t.stop = endPosition (passed ++ (s.reading options).taken)

theorem Finds.at (hf : s.Finds options t u) (hs : (s.startPlace options).After p) :
    At s options t p where
  start_eq := hf.start_eq.trans hs.position_eq
  stop_eq := hf.stop_eq.trans (hs.pass (seam_of_gap _ s options).left).position_eq

theorem Finds.passed {input : List Char} (hf : s.Finds options t u)
    (hs : (s.startPlace options).After p)
    (happend : p ++ (s.reading options).taken ++ (s.reading options).rest = input) :
    u.Passed input (p ++ (s.reading options).taken) := by
  refine ⟨?_, ?_, ?_⟩
  · rw [hf.rest_eq]
    exact happend
  · rw [hf.place_eq]
    exact (hs.pass (seam_of_gap _ s options).left).count
  · rw [hf.rest_eq]
    exact Text.seam_of_unbroken (seam_of_gap _ s options) (readLexeme_unbroken options _)

/-- What a part of the text still has after a token that stands in it. -/
theorem Finds.exists_rest (hf : s.Finds options t u) (hs : (s.startPlace options).After p)
    (happend : p ++ (s.reading options).taken ++ (s.reading options).rest = before ++ part ++ after)
    (ht : t.stop.offset ≤ byteLength (before ++ part)) :
    ∃ r, p ++ (s.reading options).taken ++ r = before ++ part ∧
      (s.reading options).rest = r ++ after := by
  rw [(hf.at hs).stop_eq] at ht
  obtain ⟨r, hr⟩ := Text.isPrefix_of_byteLength_le ⟨_, happend⟩ ⟨after, rfl⟩ ht
  rw [← hr, List.append_assoc _ r] at happend
  exact ⟨r, hr, List.append_cancel_left happend⟩

/-- Both read the same lexeme where they both stand before it. -/
theorem Cut.of_start (hseam : Seam before part) (hf : s.Finds options t u) (hk : t.kind ≠ .eof)
    (hs : (s.startPlace options).After (before ++ p)) (hs' : (s'.startPlace options).After p)
    (hrest : (s.reading options).rest = r ++ after)
    (hgap : (s'.gap options).rest = (s.reading options).taken ++ r)
    (hpart : part = p ++ (s.reading options).taken ++ r) :
    ∃ u', s'.next options = (.ok (t.relativeTo (endPosition before)), u') ∧
      Cut before part after u u' := by
  have hread : s'.reading options = { s.reading options with rest := r } := by
    rw [reading, hgap]
    refine readLexeme_cut hf.outcome_eq hk ?_
    change r <+: (s.reading options).rest
    rw [hrest]
    exact List.prefix_append r after
  have hout : (s'.reading options).outcome = .ok t.lexeme := by
    rw [hread]
    exact hf.outcome_eq
  have htaken : (s'.reading options).taken = (s.reading options).taken := by rw [hread]
  obtain ⟨u', hn⟩ := next_of_outcome hout
  have hf' := finds_of_next hn
  have ht := hf.at hs
  have ht' := hf'.at hs'
  have hparts : part = p ++ ((s.reading options).taken ++ r) := by rw [hpart, List.append_assoc]
  have hstart : t.start.relativeTo (endPosition before) = endPosition p := by
    rw [ht.start_eq]
    exact Position.relativeTo_endPosition (hparts ▸ hseam).left
  have hstop : t.stop.relativeTo (endPosition before) =
      endPosition (p ++ (s.reading options).taken) := by
    rw [ht.stop_eq, List.append_assoc]
    exact Position.relativeTo_endPosition (hpart ▸ hseam).left
  refine ⟨u', ?_, hseam, ⟨_, ?_, hf'.passed hs' ?_⟩, hf.line_eq, hf'.line_eq⟩
  · rw [hn, Token.relativeTo, hstart, hstop, ← htaken, ← ht'.start_eq, ← ht'.stop_eq]
    rfl
  · rw [htaken, ← List.append_assoc]
    refine hf.passed hs ?_
    rw [hrest, hpart]
    simp
  · rw [hread]
    exact hpart.symm

/-- A token that both scanners have before them within the part. -/
theorem Cut.next (h : Cut before part after s s') (hf : s.Finds options t u) (hk : t.kind ≠ .eof)
    (ht : t.stop.offset ≤ byteLength (before ++ part)) :
    ∃ u', s'.next options = (.ok (t.relativeTo (endPosition before)), u') ∧
      Cut before part after u u' := by
  obtain ⟨hseam, ⟨p, hp, hp'⟩, hline, hline'⟩ := h
  have hs := hp.startPlace options
  have happend := hp.append_eq options
  obtain ⟨r, hr, hrest⟩ := hf.exists_rest hs happend ht
  have hpart : part = p ++ ((s.gap options).taken ++ ((s.reading options).taken ++ r)) := by
    simpa using hr.symm
  have hrest' : s'.rest = (s.gap options).taken ++ ((s.reading options).taken ++ r) := by
    have := hp'.1
    rw [hpart, List.append_cancel_left_eq] at this
    exact this
  have hgap : s'.gap options = ⟨(s.gap options).taken, (s.reading options).taken ++ r⟩ := by
    have hread := s.reading_append options
    rw [gap_of_line hline', hrest']
    rw [gap_of_line hline] at hread ⊢
    refine readGap_cut ?_
    rw [← hread, hrest, ← List.append_assoc]
    exact List.prefix_append ..
  have hs' := hp'.startPlace options
  rw [hgap] at hs'
  rw [List.append_assoc] at hs
  refine of_start hseam hf hk hs hs' hrest (by rw [hgap]) ?_
  rw [hpart]
  simp

/-- The first token of the part. -/
theorem Cut.first (hloc : s.Located (before ++ part ++ after)) (hf : s.Finds options t u)
    (hk : t.kind ≠ .eof) (hstart : t.start = endPosition before)
    (ht : t.stop.offset ≤ byteLength (before ++ part)) :
    ∃ u', ScanState.next { rest := part } options =
      (.ok (t.relativeTo (endPosition before)), u') ∧ Cut before part after u u' := by
  obtain ⟨passed, hp⟩ := hloc.passed
  have hs := hp.startPlace options
  have happend := hp.append_eq options
  obtain rfl : passed ++ (s.gap options).taken = before := by
    have hlen := congrArg Position.offset ((hf.at hs).start_eq.symm.trans hstart)
    have hpre : passed ++ (s.gap options).taken <+: before ++ part ++ after :=
      ⟨_, (List.append_assoc ..).symm.trans happend⟩
    have hpre' : before <+: before ++ part ++ after := ⟨_, (List.append_assoc ..).symm⟩
    have hle := Text.isPrefix_of_byteLength_le hpre hpre' (Nat.le_of_eq hlen)
    have hge := Text.isPrefix_of_byteLength_le hpre' hpre (Nat.le_of_eq hlen.symm)
    exact hle.eq_of_length (Nat.le_antisymm hle.length_le hge.length_le)
  obtain ⟨r, hr, hrest⟩ := hf.exists_rest hs happend ht
  obtain rfl : (s.reading options).taken ++ r = part := by
    rw [List.append_assoc] at hr
    exact List.append_cancel_left hr
  have hgap : (s.reading options).taken ++ r <+: (s.gap options).rest := by
    rw [← s.reading_append, hrest, ← List.append_assoc]
    exact List.prefix_append ..
  have hgap' : ScanState.gap { rest := (s.reading options).taken ++ r } options =
      ⟨[], (s.reading options).taken ++ r⟩ := by
    rw [gap_of_line rfl]
    exact readGap_of_rest hgap
  have hseam := seam_of_readGap (passed ++ (s.gap options).taken) options.moduleCode
    (s.stop.line < s.place.line) s.rest
  obtain ⟨more, hmore⟩ := hgap
  refine of_start (p := []) ?_ hf hk ?_ ?_ hrest (by rw [hgap']) rfl
  · change Seam _ (s.gap options).rest at hseam
    rw [← hmore] at hseam
    exact hseam.left
  · rw [List.append_nil]
    exact hs
  · rw [startPlace, hgap']
    exact Place.after_start.count

/-- At the end of a text there is nothing but the end. -/
theorem next_of_end (options : Options) (h : s.rest = []) :
    ∃ t u, s.next options = (.ok t, u) ∧ t.kind = .eof := by
  have hgap : (s.gap options).rest = [] :=
    (List.append_eq_nil_iff.1 ((s.gap_append options).trans h)).2
  have hout : (s.reading options).outcome = .ok (.eof, .none) := by
    rw [reading, hgap]
    rfl
  obtain ⟨u, hn⟩ := next_of_outcome hout
  exact ⟨_, u, hn, rfl⟩

end ScanState

namespace TokenStream

/-- The current token is what a scan of the text has found. -/
structure Scanned (input : List Char) (options : Options) (s : TokenStream) : Prop where
  finds : ∃ state : ScanState, state.Located input ∧ state.Finds options s.current s.scanner.state
  options_eq : s.scanner.options = options

variable {input before part after : List Char} {options : Options} {s s' u d : TokenStream}
  {t : Token} {ts : List Token}

theorem scanned_of_scan (scanner : Scanner) (hl : scanner.state.Located input)
    (h : scanner.next = (.ok s.current, s.scanner)) : s.Scanned input scanner.options := by
  obtain ⟨hn, hs⟩ := Scanner.next_eq h
  refine ⟨⟨_, hl, ScanState.finds_of_next hn⟩, ?_⟩
  rw [hs]

theorem scanned_of_open? (h : open? input options = .ok s) : s.Scanned input options :=
  scanned_of_scan (.start input options) (ScanState.located_start input) (open?_eq_ok h)

theorem Scanned.passes (h : s.Scanned input options) (hp : Passes s ts d) :
    d.Scanned input options := by
  induction hp with
  | refl => exact h
  | step _ ha _ ih =>
    refine ih ?_
    obtain ⟨⟨state, hl, hf⟩, rfl⟩ := h
    exact scanned_of_scan _ (hl.finds hf) (advance_eq_ok.1 ha)

/-- A stream over a text beside one over a part of it, both on the same token of the part. -/
structure Cut (before part after : List Char) (s s' : TokenStream) : Prop where
  state : s.scanner.state.Cut before part after s'.scanner.state
  place_eq : s.scanner.state.place.offset = s.current.stop.offset
  options_eq : s'.scanner.options = s.scanner.options
  current_eq : s'.current = s.current.relativeTo (endPosition before)

theorem Cut.advance (h : Cut before part after s s') (ha : s.advance = (.ok (), u))
    (hk : u.current.kind ≠ .eof) (ht : u.current.stop.offset ≤ byteLength (before ++ part)) :
    ∃ u', s'.advance = (.ok (), u') ∧ Cut before part after u u' := by
  obtain ⟨hstate, -, hoptions, -⟩ := h
  obtain ⟨hn, hs⟩ := Scanner.next_eq (advance_eq_ok.1 ha)
  have hf := ScanState.finds_of_next hn
  obtain ⟨state', hn', hcut⟩ := hstate.next hf hk ht
  rw [← hoptions] at hn'
  refine ⟨⟨{ s'.scanner with state := state' }, u.current.relativeTo (endPosition before)⟩,
    advance_eq_ok.2 (Scanner.next_of_state hn'), hcut, hf.place_offset, ?_, rfl⟩
  rw [hs]
  exact hoptions

theorem Cut.passes_current (h : Cut before part after s s') (hk : s.current.kind ≠ .eof)
    (ha : s'.advance = (.ok (), u)) (hp : Passes u ts d) :
    Passes s' (s.current.relativeTo (endPosition before) :: ts) d := by
  have hkind : s'.current.kind ≠ .eof := by
    rw [h.current_eq]
    exact hk
  rw [← h.current_eq]
  exact .step hkind ha hp

/-- Where the part ends, its stream is at its end. -/
theorem Cut.advance_last (h : Cut before part after s s')
    (ht : s.current.stop.offset = byteLength (before ++ part)) :
    ∃ u', s'.advance = (.ok (), u') ∧ u'.current.kind = .eof := by
  obtain ⟨⟨-, ⟨p, hp, hp'⟩, -, -⟩, hplace, -, -⟩ := h
  have hrest : s'.scanner.state.rest = [] := by
    have hlen := hp.2.1.offset_eq
    rw [hplace, ht, ← hp'.1, ← List.append_assoc, Text.byteLength_append (before ++ p)] at hlen
    cases hr : s'.scanner.state.rest with
    | nil => rfl
    | cons c rest =>
      have := Text.byteLength_pos (List.cons_ne_nil c rest)
      rw [hr] at hlen
      omega
  obtain ⟨t, state', hn, hk⟩ := ScanState.next_of_end s'.scanner.options hrest
  exact ⟨⟨{ s'.scanner with state := state' }, t⟩, advance_eq_ok.2 (Scanner.next_of_state hn), hk⟩

/-- Both streams pass the same tokens up to the end of the part. -/
theorem Cut.passes (h : Cut before part after s s') (hp : Passes s (t :: ts) d)
    (hle : ∀ u ∈ t :: ts, u.stop.offset ≤ byteLength (before ++ part))
    (hlast : (t :: ts).getLast?.map (·.stop.offset) = some (byteLength (before ++ part))) :
    ∃ d', Passes s' ((t :: ts).map (·.relativeTo (endPosition before))) d' ∧
      d'.current.kind = .eof := by
  induction ts generalizing s s' t with
  | nil =>
    cases hp with
    | step hk ha hp =>
      obtain ⟨d', ha', hk'⟩ := h.advance_last (Option.some.inj hlast)
      exact ⟨d', h.passes_current hk ha' .refl, hk'⟩
  | cons t' ts ih =>
    cases hp with
    | step hk ha hp =>
      obtain ⟨rfl, hk'⟩ := hp.current_eq
      obtain ⟨u', ha', hcut⟩ := h.advance ha hk' (hle _ (List.mem_cons_of_mem _ List.mem_cons_self))
      obtain ⟨d', hd, hk''⟩ := ih hcut hp (fun u hu => hle u (List.mem_cons_of_mem _ hu)) hlast
      exact ⟨d', h.passes_current hk ha' hd, hk''⟩

/-- The tokens from where a part of the text begins to where it ends are those of the part. -/
theorem open_cut (hs : s.Scanned (before ++ part ++ after) options) (hp : Passes s ts d)
    (hstart : some (endPosition before) = ts.head?.map (·.start))
    (hstop : some (endPosition (before ++ part)) = ts.getLast?.map (·.stop))
    (hle : ∀ u ∈ ts, u.stop.offset ≤ byteLength (before ++ part)) :
    ∃ s' d', open? part options = .ok s' ∧
      Passes s' (ts.map (·.relativeTo (endPosition before))) d' ∧ d'.current.kind = .eof := by
  cases ts with
  | nil => cases hstart
  | cons t ts =>
    obtain ⟨rfl, hk⟩ := hp.current_eq
    obtain ⟨⟨state, hl, hf⟩, rfl⟩ := hs
    obtain ⟨state', hn, hcut⟩ :=
      ScanState.Cut.first hl hf hk (Option.some.inj hstart).symm (hle _ List.mem_cons_self)
    have hnext := Scanner.next_of_state (s := .start part s.scanner.options) hn
    have hcut : Cut before part after s
        ⟨{ Scanner.start part s.scanner.options with state := state' },
          s.current.relativeTo (endPosition before)⟩ := ⟨hcut, hf.place_offset, rfl, rfl⟩
    have hlast := congrArg (Option.map (·.offset)) hstop.symm
    rw [Option.map_map] at hlast
    obtain ⟨d', hd, hk'⟩ := hcut.passes hp hle hlast
    refine ⟨_, d', ?_, hd, hk'⟩
    rw [open?, hnext]

end TokenStream

end ArithLang
