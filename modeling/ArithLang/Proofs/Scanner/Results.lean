import ArithLang.Proofs.Cursor.Stream

/-!
All that a scanner finds, as a stream: tokens up to `eof`, or up to the first error. The stream of a
text is finite, and `tokenize` gathers it.
-/

namespace ArithLang

namespace Scanner

/-- The results that a scanner still yields before its stream ends. -/
inductive Yields : Scanner → List (Except LexError Token) → Prop
  | done : s.next? = (none, s') → Yields s []
  | more : s.next? = (some r, s') → Yields s' rs → Yields s (r :: rs)

/-- The tokens of a stream, or the error that ends it. -/
def gather : List (Except LexError Token) → Except LexError (List Token)
  | [] => .ok []
  | .error e :: _ => .error e
  | .ok t :: rs => (gather rs).map (t :: ·)

variable {s s' : Scanner} {r : Except LexError Token} {rs : List (Except LexError Token)}

theorem next?_of_ended (h : s.ended = true) : s.next? = (none, s) := by
  rw [next?, if_pos h]

theorem next?_of_next (h : s.ended = false) (hn : s.next = (r, s')) :
    s.next? = (some r, { s' with ended := isLast r }) := by
  rw [next?, if_neg (ne_true_of_eq_false h), hn]

theorem next?_eq_some (h : s.next? = (some r, s')) :
    s.ended = false ∧ ∃ d, s.next = (r, d) ∧ s' = { d with ended := isLast r } := by
  unfold next? at h
  split at h
  · cases h
  · next he =>
    cases h
    exact ⟨eq_false_of_ne_true he, _, rfl, rfl⟩

theorem Yields.eq_nil (h : Yields s rs) (he : s.ended = true) : rs = [] := by
  cases h with
  | done => rfl
  | more hn => cases (next?_of_ended he).symm.trans hn

theorem Yields.unique {rs' : List (Except LexError Token)} (h : Yields s rs) (h' : Yields s rs') :
    rs = rs' := by
  induction h generalizing rs' with
  | done hn =>
    cases h' with
    | done => rfl
    | more hn' => cases hn.symm.trans hn'
  | more hn _ ih =>
    cases h' with
    | done hn' => cases hn.symm.trans hn'
    | more hn' h' =>
      cases hn.symm.trans hn'
      rw [ih h']

/-- Every stream ends. -/
theorem exists_yields (s : Scanner) (he : s.ended = false) :
    ∃ rs, s.Yields rs ∧ rs.length ≤ s.state.rest.length + 1 := by
  generalize hn : s.state.rest.length = n
  induction n using Nat.strongRecOn generalizing s with
  | ind n ih =>
    rcases hx : s.next with ⟨r, d⟩
    have hd := next?_of_next he hx
    cases hr : isLast r with
    | true =>
      exact ⟨[r], .more hd (.done (next?_of_ended hr)), Nat.succ_le_succ (Nat.zero_le n)⟩
    | false =>
      cases r with
      | error e => cases hr
      | ok t =>
        have hlt := (ScanState.finds_of_next (next_eq hx).1).length_lt (ne_of_beq_false hr)
        rw [hn] at hlt
        obtain ⟨rs, hy, hl⟩ := ih _ hlt { d with ended := false } rfl rfl
        rw [hr] at hd
        exact ⟨_, .more hd hy, Nat.succ_le_succ (Nat.le_trans hl hlt)⟩

theorem Yields.collect_eq (h : s.Yields rs) {limit : Nat} (hl : rs.length ≤ limit) :
    s.collect limit = gather rs := by
  induction h generalizing limit with
  | done hn =>
    cases limit with
    | zero => rfl
    | succ limit => rw [collect, hn]; rfl
  | @more r _ _ _ hn _ ih =>
    cases limit with
    | zero => cases hl
    | succ limit =>
      rw [collect, hn]
      cases r with
      | error e => rfl
      | ok t =>
        simp only [gather]
        rw [ih (Nat.le_of_succ_le_succ hl)]

theorem Yields.of_next (h : s.Yields rs) (he : s.ended = false) (hn : s.next = (r, s')) :
    ∃ rs', rs = r :: rs' ∧ Yields { s' with ended := isLast r } rs' := by
  have hs := next?_of_next he hn
  cases h with
  | done hd => cases hs.symm.trans hd
  | more hm h =>
    cases hs.symm.trans hm
    exact ⟨_, rfl, h⟩

theorem ended_of_next (hn : s.next = (r, s')) : s'.ended = s.ended := by
  rw [(next_eq hn).2]

theorem tokenize_eq {input : List Char} {options : Options} (h : (start input options).Yields rs) :
    tokenize input options = gather rs := by
  obtain ⟨rs', h', hl⟩ := exists_yields (start input options) rfl
  rw [← h.unique h'] at hl
  exact h.collect_eq hl

end Scanner

namespace TokenStream

open Scanner (Yields gather isLast)
open TokenCursor (Passes)

/-- What the stream holds after its current token. -/
structure Ahead (s : TokenStream) (rs : List (Except LexError Token)) : Prop where
  ended_eq : s.scanner.ended = false
  eq_nil : s.current.kind = .eof → rs = []
  yields : s.current.kind ≠ .eof → s.scanner.Yields rs

variable {s s' : TokenStream} {e : LexError} {rs us : List (Except LexError Token)}
  {ts : List Token} {input : List Char} {options : Options}

theorem ahead_of_scanner {d : Scanner} (hd : d.ended = false)
    (h : Yields { d with ended := isLast (.ok t) } rs) : Ahead ⟨d, t⟩ rs := by
  refine ⟨hd, fun hk => ?_, fun hk => ?_⟩
  · refine h.eq_nil ?_
    simpa [isLast] using hk
  · rw [show isLast (.ok t) = false from beq_false_of_ne hk] at h
    rwa [← hd] at h

theorem Ahead.advance_ok (h : Ahead s rs) (hk : s.current.kind ≠ .eof)
    (ha : s.advance = (.ok (), s')) : ∃ rs', rs = .ok s'.current :: rs' ∧ Ahead s' rs' := by
  have hn := advance_eq_ok.1 ha
  obtain ⟨rs', rfl, h'⟩ := (h.yields hk).of_next h.ended_eq hn
  exact ⟨rs', rfl, ahead_of_scanner ((Scanner.ended_of_next hn).trans h.ended_eq) h'⟩

theorem Ahead.advance_error (h : Ahead s rs) (hk : s.current.kind ≠ .eof)
    (ha : s.advance = (.error e, s')) : rs = [.error e] := by
  obtain ⟨rs', rfl, h'⟩ := (h.yields hk).of_next h.ended_eq (advance_eq_error.1 ha).1
  rw [h'.eq_nil rfl]

theorem ahead_of_open? (h : open? input options = .ok s)
    (hy : (Scanner.start input options).Yields rs) :
    ∃ rs', rs = .ok s.current :: rs' ∧ Ahead s rs' := by
  have hn := open?_eq_ok h
  obtain ⟨rs', rfl, h'⟩ := hy.of_next rfl hn
  exact ⟨rs', rfl, ahead_of_scanner (Scanner.ended_of_next hn) h'⟩

theorem yields_of_open? (h : open? input options = .error e) :
    (Scanner.start input options).Yields [.error e] := by
  unfold open? at h
  split at h
  · cases h
  · next hn =>
    cases h
    exact .more (Scanner.next?_of_next rfl hn) (.done (Scanner.next?_of_ended rfl))

/-- Moving along the stream passes what it holds. -/
theorem Ahead.passes (h : Ahead s rs) (hp : Passes s ts s') :
    ∃ us, Ahead s' us ∧ .ok s.current :: rs = ts.map .ok ++ .ok s'.current :: us := by
  induction hp generalizing rs with
  | refl => exact ⟨rs, h, rfl⟩
  | step hk ha _ ih =>
    obtain ⟨rs', rfl, h'⟩ := h.advance_ok hk ha
    obtain ⟨us, hu, heq⟩ := ih h'
    exact ⟨us, hu, congrArg (_ :: ·) heq⟩

end TokenStream

namespace Scanner

theorem gather_append (ts : List Token) (rs : List (Except LexError Token)) :
    gather (ts.map .ok ++ rs) = (gather rs).map (ts ++ ·) := by
  induction ts with
  | nil =>
    rw [List.map_nil, List.nil_append]
    cases gather rs <;> rfl
  | cons t ts ih =>
    rw [List.map_cons, List.cons_append, gather, ih]
    cases gather rs <;> rfl

end Scanner

/-- A stream that has been passed up to `eof` held no error. -/
theorem yields_of_passes {input : List Char} {options : Options} {s s' : TokenStream}
    {ts : List Token} (h : TokenStream.open? input options = .ok s)
    (hp : TokenCursor.Passes s ts s') (hk : s'.current.kind = .eof) :
    (Scanner.start input options).Yields ((ts ++ [s'.current]).map .ok) := by
  obtain ⟨rs, hy, -⟩ := Scanner.exists_yields (Scanner.start input options) rfl
  obtain ⟨rs', rfl, ha⟩ := TokenStream.ahead_of_open? h hy
  obtain ⟨us, hu, heq⟩ := ha.passes hp
  rw [heq, hu.eq_nil hk] at hy
  rw [List.map_append]
  exact hy

/-- A stream that has been passed up to `eof` is the text's list of tokens. -/
theorem tokenize_of_passes {input : List Char} {options : Options} {s s' : TokenStream}
    {ts : List Token} (h : TokenStream.open? input options = .ok s)
    (hp : TokenCursor.Passes s ts s') (hk : s'.current.kind = .eof) :
    tokenize input options = .ok (ts ++ [s'.current]) := by
  rw [Scanner.tokenize_eq (yields_of_passes h hp hk), List.map_append, Scanner.gather_append]
  rfl

end ArithLang
