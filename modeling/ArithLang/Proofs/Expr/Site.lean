import ArithLang.Proofs.Cursor.Standing
import ArithLang.Proofs.Expr.Plain

/-!
Where trees stand: every node with the tokens of the parentheses that enclose just it and the tokens of
its own, in which its children stand with theirs.
-/

namespace ArithLang

open Lexeme (mark)

/-- What stands before, between and after the children of a node. -/
@[simp] def Expr.marks : Expr → List (List Lexeme)
  | number v _ => [[(.num, .number v)]]
  | identifier name _ => [[(.name, .text name)]]
  | member .. => [[], [mark .bracketL], [mark .bracketR]]
  | sequence items _ => [] :: items.tail.map (fun _ => [mark .comma]) ++ [[]]
  | assignment op .. => [[], [op.lexeme], []]
  | conditional .. => [[], [mark .question], [mark .colon], []]
  | logical op .. => [[], [op.lexeme], []]
  | binary op .. => [[], [op.lexeme], []]
  | unary op .. => [[op.lexeme], []]
  | update op isPrefix .. => if isPrefix then [[op.lexeme], []] else [[], [op.lexeme]]

@[simp] theorem Expr.marks_withInfo (i : Info) (e : Expr) : (e.withInfo i).marks = e.marks := by
  cases e <;> rfl

@[simp] theorem Expr.marks_plain (e : Expr) : e.plain.marks = e.marks := by
  cases e <;> simp [Function.comp_def]

theorem Expr.extra_parenthesize (offset : Nat) (e : Expr) : (e.parenthesize offset).extra =
    { e.extra with parenthesized := true, parenStart := some offset } := by
  cases e <;> rfl

theorem Expr.span_parenthesize (offset : Nat) (e : Expr) :
    (e.parenthesize offset).span = e.span := by
  cases e <;> rfl

/-- Marks and parts in turn, a mark first and a mark last. -/
inductive Interleaves : List (List Lexeme) → List (List Token) → List Token → Prop
  | last : ts.map Token.lexeme = m → Interleaves [m] [] ts
  | cons {ts part us : List Token} : ts.map Token.lexeme = m → Interleaves ms parts us →
      Interleaves (m :: ms) (part :: parts) (ts ++ part ++ us)

namespace Interleaves

variable {ms : List (List Lexeme)} {parts : List (List Token)} {ts : List Token}

theorem parts_sub (h : Interleaves ms parts ts) : ∀ part ∈ parts, part <:+: ts := by
  induction h with
  | last => exact List.forall_mem_nil _
  | @cons _ _ _ ts _ us _ _ ih =>
    rw [List.forall_mem_cons]
    exact ⟨⟨ts, us, rfl⟩, fun p hp => (ih p hp).trans (List.suffix_append ..).isInfix⟩

/-- The parts follow one another as the tokens do. -/
theorem pairwise {R : Token → Token → Prop} (h : Interleaves ms parts ts) (ht : ts.Pairwise R) :
    parts.Pairwise fun p q => ∀ t ∈ p, ∀ u ∈ q, R t u := by
  induction h with
  | last => exact .nil
  | cons _ hi ih =>
    obtain ⟨-, hu, hacross⟩ := List.pairwise_append.1 ht
    refine .cons (fun q hq t ht u hu => ?_) (ih hu)
    exact hacross t (List.mem_append_right _ ht) u ((hi.parts_sub q hq).subset hu)

end Interleaves

/-- The span reaches from where the first token starts to where the last stops. -/
structure Span.Covers (span : Span) (ts : List Token) : Prop where
  start_eq : some span.start = ts.head?.map (·.start)
  stop_eq : some span.stop = ts.getLast?.map (·.stop)

/-- A node and its tokens. -/
structure Site where
  expr : Expr
  /-- The parentheses before the node that enclose just it. -/
  opening : List Token := []
  own : List Token
  closing : List Token := []

namespace Site

def all (x : Site) : List Token := x.opening ++ x.own ++ x.closing

/-- The node of a site, with the sites of its children, has just these tokens; it knows where they stand
and what they leave unsaid. -/
structure Laid (input : List Char) (x : Site) (parts : List Site) : Prop where
  children_eq : x.expr.children = parts.map expr
  own : Interleaves x.expr.marks (parts.map all) x.own
  opening_eq : ∀ t ∈ x.opening, t.lexeme = mark .parenL
  closing_eq : ∀ t ∈ x.closing, t.lexeme = mark .parenR
  length_eq : x.closing.length = x.opening.length
  parenthesized_eq : x.expr.isParenthesized = !x.opening.isEmpty
  parenStart_eq : x.expr.extra.parenStart = x.opening.head?.map (·.start.offset)
  span : x.expr.span.Covers x.own
  raw_eq : x.expr.extra.raw = x.expr.valueNote?.bind fun _ => x.own.head?.map (·.source input)
  rawValue_eq : x.expr.extra.rawValue = x.expr.valueNote?
  argument_eq : x.expr.extra.parenthesizedArgument = x.expr.argumentNote?

/-- What is so of a site and its parts, and of every site below. -/
inductive Every (P : Site → List Site → Prop) : Site → Prop
  | intro : P x parts → (∀ y ∈ parts, Every P y) → Every P x

variable {P Q : Site → List Site → Prop} {x : Site} {parts : List Site} {input : List Char}

theorem Every.imp (h : x.Every P) (hPQ : ∀ x parts, P x parts → Q x parts) : x.Every Q := by
  induction h with
  | intro h _ ih => exact ⟨hPQ _ _ h, ih⟩

/-- The site with a pair of parentheses more. -/
def enclose (x : Site) (u u' : Token) : Site where
  expr := x.expr.parenthesize u.start.offset
  opening := u :: x.opening
  own := x.own
  closing := x.closing ++ [u']

theorem all_enclose (x : Site) (u u' : Token) : (x.enclose u u').all = u :: x.all ++ [u'] := by
  simp [all, enclose]

theorem Laid.enclose {u u' : Token} (h : x.Laid input parts) (hu : u.lexeme = mark .parenL)
    (hu' : u'.lexeme = mark .parenR) : (x.enclose u u').Laid input parts := by
  obtain ⟨hc, hown, hopen, hclose, hlen, -, -, hspan, hraw, hvalue, hargument⟩ := h
  constructor
  · exact (Expr.children_withInfo _ _).trans hc
  · exact (Expr.marks_withInfo _ _).symm ▸ hown
  · exact List.forall_mem_cons.2 ⟨hu, hopen⟩
  · intro t ht
    obtain ht | ht := List.mem_append.1 ht
    · exact hclose t ht
    · cases List.mem_singleton.1 ht
      exact hu'
  · simp [Site.enclose, hlen]
  · exact Expr.isParenthesized_withInfo _ _
  · exact congrArg Extra.parenStart (Expr.extra_parenthesize _ _)
  · exact (Expr.span_parenthesize _ _).symm ▸ hspan
  · rw [Site.enclose, Expr.extra_parenthesize, Expr.parenthesize, Expr.withExtra,
      Expr.valueNote?_withInfo]
    exact hraw
  · rw [Site.enclose, Expr.extra_parenthesize, Expr.parenthesize, Expr.withExtra,
      Expr.valueNote?_withInfo]
    exact hvalue
  · rw [Site.enclose, Expr.extra_parenthesize, Expr.parenthesize, Expr.withExtra,
      Expr.argumentNote?_withInfo]
    exact hargument

theorem own_sub (x : Site) : x.own <:+: x.all := ⟨x.opening, x.closing, rfl⟩

theorem Laid.parts_sub (h : x.Laid input parts) : ∀ y ∈ parts, y.all <:+: x.own := by
  intro y hy
  exact h.own.parts_sub _ (List.mem_map_of_mem hy)

/-- What is so of every site whose tokens lie among some tokens. -/
theorem Every.imp_sub {ts : List Token} (h : x.Every P) (hx : x.all <:+: ts)
    (hP : ∀ x parts, P x parts → x.Laid input parts)
    (hPQ : ∀ x parts, x.all <:+: ts → P x parts → Q x parts) : x.Every Q := by
  induction h with
  | @intro x parts h _ ih =>
    refine ⟨hPQ x parts hx h, fun y hy => ih y hy ?_⟩
    exact ((hP x parts h).parts_sub y hy).trans ((own_sub x).trans hx)

/-- A node whose tokens lie in a text stands right in it. -/
structure Located (input : List Char) (x : Site) (parts : List Site) : Prop
    extends x.Laid input parts where
  offset_lt : x.expr.span.start.offset < x.expr.span.stop.offset
  start_isIn : x.expr.span.start.IsIn input
  stop_isIn : x.expr.span.stop.IsIn input
  /-- The node's parentheses lie outside its span. -/
  opening_le : ∀ t ∈ x.opening, t.stop.offset ≤ x.expr.span.start.offset
  le_closing : ∀ t ∈ x.closing, x.expr.span.stop.offset ≤ t.start.offset
  parenStart_lt : ∀ offset, x.expr.extra.parenStart = some offset →
    offset < x.expr.span.start.offset
  /-- Its children lie within it with their parentheses, one after the other. -/
  within : ∀ y ∈ parts, ∀ t ∈ y.all,
    x.expr.span.start.offset ≤ t.start.offset ∧ t.stop.offset ≤ x.expr.span.stop.offset
  pairwise : parts.Pairwise fun y z => ∀ t ∈ y.all, ∀ u ∈ z.all, t.stop.offset ≤ u.start.offset
  raw_isSource : ∀ value, x.expr.valueNote? = some value → ∃ raw,
    Text.slice? input x.expr.span.start.offset x.expr.span.stop.offset = some raw ∧
      x.expr.extra.raw = some (.ofList raw) ∧ x.expr.extra.rawValue = some value

end Site

namespace InOrder

variable {input : List Char} {ts : List Token} {first last : Position}

theorem start_le (h : InOrder input ts) (hf : some first = ts.head?.map (·.start)) :
    ∀ t ∈ ts, first.offset ≤ t.start.offset := by
  cases ts with
  | nil => cases hf
  | cons t ts =>
    cases hf
    have hlt := (h.standsIn t List.mem_cons_self).2
    rw [List.forall_mem_cons]
    refine ⟨Nat.le_refl _, fun u hu => ?_⟩
    exact Nat.le_trans (Nat.le_of_lt hlt) (List.rel_of_pairwise_cons h.pairwise hu)

theorem le_stop (h : InOrder input ts) (hl : some last = ts.getLast?.map (·.stop)) :
    ∀ t ∈ ts, t.stop.offset ≤ last.offset := by
  obtain ⟨u, hu, rfl⟩ := Option.map_eq_some_iff.1 hl.symm
  obtain ⟨us, rfl⟩ := List.getLast?_eq_some_iff.1 hu
  intro t ht
  obtain ht | ht := List.mem_append.1 ht
  · have hle := (List.pairwise_append.1 h.pairwise).2.2 t ht u List.mem_cons_self
    have hlt := (h.standsIn u (List.mem_append_right _ List.mem_cons_self)).2
    exact Nat.le_trans hle (Nat.le_of_lt hlt)
  · cases List.mem_singleton.1 ht
    exact Nat.le_refl _

theorem exists_start (h : InOrder input ts) (hf : some first = ts.head?.map (·.start)) :
    ∃ t ∈ ts, t.start = first ∧ t.StandsIn input ∧ t.start.offset < t.stop.offset := by
  obtain ⟨t, ht, rfl⟩ := Option.map_eq_some_iff.1 hf.symm
  have hm := List.mem_of_head? ht
  exact ⟨t, hm, rfl, h.standsIn t hm⟩

theorem exists_stop (h : InOrder input ts) (hl : some last = ts.getLast?.map (·.stop)) :
    ∃ t ∈ ts, t.stop = last ∧ t.StandsIn input := by
  obtain ⟨t, ht, rfl⟩ := Option.map_eq_some_iff.1 hl.symm
  have hm := List.mem_of_getLast? ht
  exact ⟨t, hm, rfl, (h.standsIn t hm).1⟩

end InOrder

namespace Site

variable {x : Site} {parts : List Site} {input : List Char}

/-- A literal's own token is all there is between its ends. -/
theorem Laid.own_of_value (h : x.Laid input parts) {value : Number}
    (hv : x.expr.valueNote? = some value) : ∃ t, x.own = [t] := by
  obtain ⟨hc, hown, -⟩ := h
  cases he : x.expr with
  | number v i =>
    rw [he] at hown hc
    cases List.map_eq_nil_iff.1 hc.symm
    cases hown with
    | last ht =>
      obtain ⟨t, ht, -⟩ := List.map_eq_singleton_iff.1 ht
      exact ⟨t, ht⟩
  | _ =>
    rw [he] at hv
    cases hv

theorem Laid.located (h : x.Laid input parts) (ht : InOrder input x.all) :
    x.Located input parts := by
  have hown := ht.sub x.own_sub
  obtain ⟨first, hfirst, hstart, hin, hlt⟩ := hown.exists_start h.span.start_eq
  obtain ⟨last, hlast, hstop, hin'⟩ := hown.exists_stop h.span.stop_eq
  have hle := hown.le_stop h.span.stop_eq first hfirst
  have hacross : ∀ t ∈ x.opening, t.stop.offset ≤ x.expr.span.start.offset := by
    intro t hm
    have hp := List.pairwise_append.1 (List.pairwise_append.1 ht.pairwise).1
    rw [← hstart]
    exact hp.2.2 t hm first hfirst
  constructor
  · exact h
  · rw [← hstart]
    exact Nat.lt_of_lt_of_le hlt hle
  · rw [← hstart]
    exact hin.start
  · rw [← hstop]
    exact hin'.stop
  · exact hacross
  · intro t hm
    rw [← hstop]
    exact (List.pairwise_append.1 ht.pairwise).2.2 last (List.mem_append_right _ hlast) t hm
  · intro offset hoffset
    rw [h.parenStart_eq, Option.map_eq_some_iff] at hoffset
    obtain ⟨t, hm, rfl⟩ := hoffset
    have hm := List.mem_of_head? hm
    have hall : t ∈ x.all := List.mem_append_left _ (List.mem_append_left _ hm)
    exact Nat.lt_of_lt_of_le (ht.standsIn t hall).2 (hacross t hm)
  · intro y hy t hm
    have hm := (h.parts_sub y hy).subset hm
    exact ⟨hown.start_le h.span.start_eq t hm, hown.le_stop h.span.stop_eq t hm⟩
  · exact List.pairwise_map.1 (h.own.pairwise hown.pairwise)
  · intro value hv
    obtain ⟨t, ht⟩ := h.own_of_value hv
    have hs := h.span.start_eq
    have he := h.span.stop_eq
    have hr := h.raw_eq
    rw [ht] at hs he hr
    rw [Option.some.inj hs, Option.some.inj he, hr, hv]
    have hm := hown.standsIn t (ht ▸ List.mem_singleton_self t)
    obtain ⟨a, raw, b, rfl, hs, he⟩ := hm.1.start.between hm.1.stop (Nat.le_of_lt hm.2)
    have hsource : Text.slice? (a ++ raw ++ b) t.start.offset t.stop.offset = some raw := by
      rw [hs, he]
      exact Text.slice?_endPosition a raw b
    refine ⟨raw, hsource, ?_, h.rawValue_eq.trans hv⟩
    change some (t.source _) = _
    rw [Token.source, hsource]
    rfl

end Site

end ArithLang
