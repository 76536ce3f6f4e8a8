import ArithLang.Proofs.Expr.Colons
import ArithLang.Proofs.Lexeme.Cut
import ArithLang.Proofs.Scanner.Results

/-!
What the options change in the tokens of a text. Strictness changes nothing; module code only refuses
what other code passes over; and the plugin for `::` matters only where two colons meet.
-/

namespace ArithLang

open Lexeme (ColonsApart)

variable {o o' : Options} {cs : List Char}

/-- In module code a gap that does not stop before `<!--` is the same as in other code. -/
theorem readGap_of_module {broken : Bool} (h : ¬ "<!--".toList <+: (readGap true broken cs).rest) :
    readGap false broken cs = readGap true broken cs := by
  fun_induction readGap true broken cs with
  | case1 broken cs rest broken' ho after ih =>
    have ho' : opensComment false broken' rest = true := by
      rw [opensComment_iff] at ho ⊢
      obtain ho | ⟨hm, -⟩ := ho
      · exact .inl ho
      · cases hm
    rw [readGap, if_pos ho', ih h]
  | case2 broken cs rest broken' ho =>
    have ho' : ¬ opensComment false broken' rest = true := by
      rw [opensComment_iff] at ho ⊢
      rintro (hc | ⟨-, hc⟩)
      · exact ho (.inl hc)
      · exact h hc
    rw [readGap, if_neg ho']

theorem readGap_colon (moduleCode broken : Bool) (cs : List Char) :
    readGap moduleCode broken (':' :: cs) = ⟨[], ':' :: cs⟩ := by
  have hb : blanks (':' :: cs) = [] ∧ afterBlanks (':' :: cs) = ':' :: cs := ⟨rfl, rfl⟩
  have ho : ¬ opensComment moduleCode (broken || false) (':' :: cs) = true := by
    simp [opensComment, closesHiddenComment, opensHiddenComment]
  rw [readGap, hb.1, hb.2]
  exact if_neg ho

theorem readLexeme_of_plugin (h : o.hasPlugin .functionBind = o'.hasPlugin .functionBind)
    (cs : List Char) : readLexeme o cs = readLexeme o' cs := by
  cases cs with
  | nil => rfl
  | cons c cs => rw [readLexeme, readLexeme, h]

namespace Symbol

theorem text_of_doubleColon :
    ∀ symbol ∈ all, symbol.kind = .doubleColon → symbol.text.toList = "::".toList := by
  decide

/-- Only two colons in a row are read differently with the plugin and without. -/
theorem longest?_of_apart (h : ¬ "::".toList <+: cs) (functionBind functionBind' : Bool) :
    longest? functionBind cs = longest? functionBind' cs := by
  rw [longest?, longest?, ← List.head?_filter, ← List.head?_filter]
  refine congrArg List.head? (List.filter_congr fun symbol hm => ?_)
  by_cases hk : symbol.kind = .doubleColon
  · have hp : symbol.text.toList.isPrefixOf cs = false := by
      rw [← Bool.not_eq_true, List.isPrefixOf_iff_prefix, text_of_doubleColon symbol hm hk]
      exact h
    rw [hp, Bool.and_false, Bool.and_false]
  · have hk : (symbol.kind != .doubleColon) = true := bne_iff_ne.2 hk
    rw [isAllowed, isAllowed, hk, Bool.true_or, Bool.true_or]

end Symbol

theorem readLexeme_of_apart (h : ¬ "::".toList <+: cs) (o o' : Options) :
    readLexeme o cs = readLexeme o' cs := by
  cases cs with
  | nil => rfl
  | cons c cs => rw [readLexeme, readLexeme, Symbol.longest?_of_apart h]

theorem readLexeme_colon (h : o.hasPlugin .functionBind = false) (cs : List Char) :
    readLexeme o (':' :: cs) =
      { taken := [':'], rest := cs, outcome := .ok (.colon, .none) } := by
  rw [readLexeme, h]
  rfl

theorem readLexeme_doubleColon (h : o.hasPlugin .functionBind = true) (cs : List Char) :
    (readLexeme o (':' :: ':' :: cs)).outcome = .ok (.doubleColon, .text "::") := by
  rw [readLexeme, h]
  rfl

namespace ScanState

variable {s s' u : ScanState} {t t' : Token}

theorem next_congr (hg : s.gap o = s.gap o') (hr : s.reading o = s.reading o') :
    s.next o = s.next o' := by
  have hpass : s.shift.passGap o.moduleCode = s.shift.passGap o'.moduleCode := by
    have hg : readGap o.moduleCode (s.shift.lastStop.line < s.shift.place.line) s.shift.rest =
        readGap o'.moduleCode (s.shift.lastStop.line < s.shift.place.line) s.shift.rest := hg
    rw [passGap, passGap, hg]
  rw [next_eq, next_eq, hpass, hr]

/-- What strictness does to a scan. -/
theorem next_of_same (hm : o.moduleCode = o'.moduleCode)
    (hp : o.hasPlugin .functionBind = o'.hasPlugin .functionBind) (s : ScanState) :
    s.next o = s.next o' := by
  have hg : s.gap o = s.gap o' := by rw [gap, gap, hm]
  exact next_congr hg (by rw [reading, reading, hg, readLexeme_of_plugin hp])

theorem gap_of_module (h : s.Finds o t s') (hm : o'.moduleCode = true → o.moduleCode = true) :
    s.gap o' = s.gap o := by
  rw [gap, gap]
  cases hm' : o'.moduleCode with
  | true => rw [hm hm']
  | false =>
    cases hmo : o.moduleCode with
    | false => rfl
    | true =>
      refine readGap_of_module ?_
      have := not_hidden_of_read h.outcome_eq
      rwa [gap, hmo] at this

/-- A token found where no two colons meet is found under other options too. -/
theorem next_of_apart (h : s.next o = (.ok t, s'))
    (hm : o'.moduleCode = true → o.moduleCode = true) (hc : ¬ "::".toList <+: (s.gap o).rest) :
    s.next o' = (.ok t, s') := by
  have hg := gap_of_module (finds_of_next h) hm
  rw [← h]
  exact next_congr hg (by rw [reading, reading, hg, readLexeme_of_apart hc])

/-- Where two colons meet, with the plugin they are one token, and without it two. -/
theorem Finds.colons (h : s.Finds o t s') (hp : "::".toList <+: (s.gap o).rest) :
    t.kind = .doubleColon ∨ t.kind = .colon ∧ ∀ u u', s'.Finds o u u' → u.kind = .colon := by
  obtain ⟨cs, hcs⟩ := hp
  have hcs : (s.gap o).rest = ':' :: ':' :: cs := hcs.symm
  have hr : s.reading o = readLexeme o (':' :: ':' :: cs) := by rw [reading, hcs]
  have hk := h.outcome_eq
  cases hf : o.hasPlugin .functionBind with
  | true =>
    rw [hr, readLexeme_doubleColon hf] at hk
    exact .inl (congrArg Prod.fst (Except.ok.inj hk)).symm
  | false =>
    rw [readLexeme_colon hf] at hr
    rw [hr] at hk
    refine .inr ⟨(congrArg Prod.fst (Except.ok.inj hk)).symm, fun u u' hu => ?_⟩
    have hrest : s'.rest = ':' :: cs := by rw [h.rest_eq, hr]
    have hgap : (s'.gap o).rest = ':' :: cs := by rw [gap, hrest, readGap_colon]
    have hk := hu.outcome_eq
    rw [reading, hgap, readLexeme_colon hf] at hk
    exact (congrArg Prod.fst (Except.ok.inj hk)).symm

end ScanState

namespace Scanner

/-- The scanner where it stands, under other options. -/
def withOptions (s : Scanner) (options : Options) : Scanner := { s with options }

variable {s s' d : Scanner} {r : Except LexError Token} {ts : List Token} {t : Token}

theorem ended_of_next?_eq_none (h : s.next? = (none, s')) : s.ended = true := by
  by_cases he : s.ended = true
  · exact he
  · rw [next?, if_neg he] at h
    cases h

theorem next?_withOptions_none (h : s.next? = (none, s')) (o : Options) :
    (s.withOptions o).next? = (none, s.withOptions o) := by
  have he : s.ended = true := ended_of_next?_eq_none h
  exact next?_of_ended (s := s.withOptions o) he

/-- A scan that comes to the same under other options, as a step of the stream. -/
theorem next?_withOptions (h : s.next? = (some r, s'))
    (hn : ∀ state, s.state.next s.options = (r, state) → s.state.next o = (r, state)) :
    (s.withOptions o).next? = (some r, s'.withOptions o) ∧ s'.options = s.options := by
  obtain ⟨he, d, hd, rfl⟩ := next?_eq_some h
  obtain ⟨hs, hd⟩ := next_eq hd
  generalize d.state = state at hs hd
  subst hd
  have hnext : (s.withOptions o).next = (r, withOptions { s with state } o) :=
    next_of_state (hn state hs)
  exact ⟨next?_of_next (s := s.withOptions o) he hnext, rfl⟩

theorem Yields.of_same {rs : List (Except LexError Token)} (h : s.Yields rs)
    (hm : s.options.moduleCode = o.moduleCode)
    (hp : s.options.hasPlugin .functionBind = o.hasPlugin .functionBind) :
    (s.withOptions o).Yields rs := by
  induction h with
  | done hn => exact .done (next?_withOptions_none hn o)
  | more hn _ ih =>
    obtain ⟨hn', ho⟩ := next?_withOptions hn fun state hs => by
      rw [← ScanState.next_of_same hm hp]
      exact hs
    rw [← ho] at hm hp
    exact .more hn' (ih hm hp)

/-- Where a stream goes on with tokens among which no two colons meet, none meet in the text. -/
theorem Yields.not_colons (h : Yields { d with ended := isLast (.ok t) } (ts.map .ok))
    (hts : (t.lexeme :: (ts.map Token.lexeme ++ [Lexeme.mark .colon])).IsChain Lexeme.Apart)
    {s : ScanState} (hf : s.Finds d.options t d.state) : ¬ "::".toList <+: (s.gap d.options).rest := by
  intro hp
  obtain hk | ⟨hk, hnext⟩ := hf.colons hp
  · cases ts with
    | nil => exact (List.isChain_cons_cons.1 hts).1.1 hk
    | cons u ts => exact (List.isChain_cons_cons.1 hts).1.1 hk
  · cases ts with
    | nil => exact (List.isChain_cons_cons.1 hts).1.2 ⟨hk, rfl⟩
    | cons u ts =>
      cases h with
      | more hn =>
        obtain ⟨-, d', hd, -⟩ := next?_eq_some hn
        have hu := hnext _ _ (ScanState.finds_of_next (next_eq hd).1)
        exact (List.isChain_cons_cons.1 hts).1.2 ⟨hk, hu⟩

/-- Tokens among which no two colons meet are yielded under other options too. -/
theorem Yields.of_apart (h : s.Yields (ts.map .ok))
    (hts : (ts.map Token.lexeme ++ [Lexeme.mark .colon]).IsChain Lexeme.Apart)
    (hm : o.moduleCode = true → s.options.moduleCode = true) :
    (s.withOptions o).Yields (ts.map .ok) := by
  induction ts generalizing s with
  | nil =>
    cases h with
    | done hn => exact .done (next?_withOptions_none hn o)
  | cons t ts ih =>
    cases h with
    | more hn h =>
      obtain ⟨-, d, hd, rfl⟩ := next?_eq_some hn
      obtain ⟨hs, hd⟩ := next_eq hd
      have ho : d.options = s.options := by rw [hd]
      have hc : ¬ "::".toList <+: (s.state.gap s.options).rest := by
        rw [← ho] at hs ⊢
        exact h.not_colons hts (ScanState.finds_of_next hs)
      obtain ⟨hn', -⟩ := next?_withOptions hn fun state hs =>
        ScanState.next_of_apart hs hm hc
      rw [← ho] at hm
      exact .more hn' (ih h hts.tail hm)

end Scanner

end ArithLang
