import ArithLang.Proofs.Expr.Sited

/-!
Tokens leave no choice where a tree of a given shape stands: the tokens that are no parentheses tell the
parts of a node from one another, and a node has as many parentheses after it as before it.
-/

namespace ArithLang

open Lexeme (mark)

theorem map_eq_of_map_eq {α β γ : Type} {f : α → β} {g : α → γ} {xs ys : List α}
    (h : xs.map f = ys.map f) (hg : ∀ x ∈ xs, ∀ y ∈ ys, f x = f y → g x = g y) :
    xs.map g = ys.map g := by
  induction xs generalizing ys with
  | nil =>
    cases List.map_eq_nil_iff.1 h.symm
    rfl
  | cons x xs ih =>
    cases ys with
    | nil => cases h
    | cons y ys =>
      obtain ⟨hx, hxs⟩ := List.cons.inj h
      rw [List.map_cons, List.map_cons, hg x List.mem_cons_self y List.mem_cons_self hx]
      rw [ih hxs fun x hx y hy => hg x (List.mem_cons_of_mem _ hx) y (List.mem_cons_of_mem _ hy)]

def Kind.isParen (k : Kind) : Bool := k == .parenL || k == .parenR

/-- How many tokens there are but for parentheses. -/
def weight (ts : List Token) : Nat := ts.countP fun t => !t.kind.isParen

def opened (ts : List Token) : Nat := ts.countP (·.kind == .parenL)

def closed (ts : List Token) : Nat := ts.countP (·.kind == .parenR)

@[simp] theorem weight_append (ts us : List Token) : weight (ts ++ us) = weight ts + weight us :=
  List.countP_append

@[simp] theorem opened_append (ts us : List Token) : opened (ts ++ us) = opened ts + opened us :=
  List.countP_append

@[simp] theorem closed_append (ts us : List Token) : closed (ts ++ us) = closed ts + closed us :=
  List.countP_append

section

variable {ts us ts' us' : List Token} {u u' : Token}

theorem weight_of_paren (h : ∀ t ∈ ts, t.kind.isParen = true) : weight ts = 0 :=
  List.countP_eq_zero.2 fun t ht => by simp [h t ht]

theorem opened_of_kind (h : ∀ t ∈ ts, t.kind = .parenL) : opened ts = ts.length ∧ closed ts = 0 :=
  ⟨List.countP_eq_length.2 fun t ht => by simp [h t ht],
    List.countP_eq_zero.2 fun t ht => by simp [h t ht]⟩

theorem closed_of_kind (h : ∀ t ∈ ts, t.kind = .parenR) : opened ts = 0 ∧ closed ts = ts.length :=
  ⟨List.countP_eq_zero.2 fun t ht => by simp [h t ht],
    List.countP_eq_length.2 fun t ht => by simp [h t ht]⟩

/-- Where a token that is no parenthesis comes next, a list is told by the number of such tokens. -/
theorem append_inj_of_weight (h : ts ++ u :: us = ts' ++ u' :: us')
    (hw : weight ts = weight ts') (hu : u.kind.isParen = false) (hu' : u'.kind.isParen = false) :
    ts = ts' ∧ u :: us = u' :: us' := by
  induction ts generalizing ts' with
  | nil =>
    cases ts' with
    | nil => exact ⟨rfl, h⟩
    | cons t ts' =>
      cases (List.cons.inj h).1
      simp [weight, hu] at hw
  | cons t ts ih =>
    cases ts' with
    | nil =>
      cases (List.cons.inj h).1
      simp [weight, hu'] at hw
    | cons t' ts' =>
      obtain ⟨rfl, hts⟩ := List.cons.inj h
      have hw : weight [t] + weight ts = weight [t] + weight ts' := by
        rw [← weight_append, ← weight_append]
        exact hw
      obtain ⟨rfl, hus⟩ := ih hts (Nat.add_left_cancel hw)
      exact ⟨rfl, hus⟩

end

/-- A mark stands between any two parts. -/
inductive Divided : List (List Lexeme) → Prop
  | single : Divided [m]
  | last : Divided [m, []]
  | cons : Divided ((l :: m') :: ms) → Divided (m :: (l :: m') :: ms)

/-- A mark comes first, or next after the first part. -/
inductive Led : List (List Lexeme) → Prop
  | first : Led ((l :: m) :: ms)
  | second : Led ([] :: (l :: m) :: ms)

section

variable {l : Lexeme} {m : List Lexeme} {ms : List (List Lexeme)} {ts us : List Token}
  {parts parts' : List (List Token)}

/-- Marks are no parentheses. -/
def IsMark (m : List Lexeme) : Prop := ∀ l ∈ m, l.1.isParen = false

theorem isMark_nil : IsMark [] := List.forall_mem_nil _

theorem IsMark.kind (h : IsMark m) (ht : ts.map Token.lexeme = m) :
    ∀ t ∈ ts, t.kind.isParen = false := by
  intro t hm
  exact h t.lexeme (ht ▸ List.mem_map_of_mem hm)

theorem IsMark.weight_eq (h : IsMark m) (ht : ts.map Token.lexeme = m) : weight ts = m.length := by
  rw [← ht, List.length_map]
  exact List.countP_eq_length.2 fun t hm => by simp [h.kind ht t hm]

theorem IsMark.opened_eq (h : IsMark m) (ht : ts.map Token.lexeme = m) :
    opened ts = 0 ∧ closed ts = 0 := by
  have hk := h.kind ht
  simp only [Kind.isParen, Bool.or_eq_false_iff] at hk
  exact ⟨List.countP_eq_zero.2 fun t hm => by simp [(hk t hm).1],
    List.countP_eq_zero.2 fun t hm => by simp [(hk t hm).2]⟩

namespace Interleaves

theorem weight_congr {us : List Token} (hm : ∀ m ∈ ms, IsMark m) (h : Interleaves ms parts ts)
    (h' : Interleaves ms parts' us) (hw : parts.map weight = parts'.map weight) :
    weight ts = weight us := by
  induction h generalizing parts' us with
  | last ht =>
    cases h' with
    | last ht' =>
      have hm := hm _ List.mem_cons_self
      rw [hm.weight_eq ht, hm.weight_eq ht']
    | cons => cases hw
  | cons ht _ ih =>
    cases h' with
    | last => cases hw
    | cons ht' h' =>
      rw [List.forall_mem_cons] at hm
      obtain ⟨hpart, hparts⟩ := List.cons.inj hw
      rw [weight_append, weight_append, weight_append, weight_append, hm.1.weight_eq ht,
        hm.1.weight_eq ht', hpart, ih hm.2 h' hparts]

theorem opened_eq_closed (h : Interleaves ms parts ts) (hm : ∀ m ∈ ms, IsMark m)
    (hp : ∀ part ∈ parts, opened part = closed part) : opened ts = closed ts := by
  induction h with
  | last ht =>
    obtain ⟨ho, hc⟩ := (hm _ List.mem_cons_self).opened_eq ht
    rw [ho, hc]
  | cons ht _ ih =>
    rw [List.forall_mem_cons] at hm hp
    obtain ⟨ho, hc⟩ := hm.1.opened_eq ht
    simp only [opened_append, closed_append, ho, hc, hp.1, ih hm.2 hp.2]

/-- A first mark that is not empty comes first. -/
theorem exists_head (h : Interleaves ((l :: m) :: ms) parts ts) :
    ∃ u us, ts = u :: us ∧ u.lexeme = l := by
  cases h with
  | last ht =>
    obtain ⟨u, us, rfl, hu, -⟩ := List.map_eq_cons_iff.1 ht
    exact ⟨u, us, rfl, hu⟩
  | cons ht =>
    obtain ⟨u, us, rfl, hu, -⟩ := List.map_eq_cons_iff.1 ht
    exact ⟨u, _, rfl, hu⟩

/-- What comes before the second mark. -/
theorem exists_first {m' : List Lexeme} (h : Interleaves (m :: m' :: ms) parts ts) :
    ∃ us part parts' vs, ts = us ++ (part ++ vs) ∧ parts = part :: parts' ∧
      us.map Token.lexeme = m ∧ Interleaves (m' :: ms) parts' vs := by
  cases h with
  | cons ht h => exact ⟨_, _, _, _, List.append_assoc .., rfl, ht, h⟩

/-- The parts of some tokens are told by how many tokens they have but for parentheses. -/
theorem unique (hd : Divided ms) (hm : ∀ m ∈ ms, IsMark m) (h : Interleaves ms parts ts)
    (h' : Interleaves ms parts' ts) (hw : parts.map weight = parts'.map weight) : parts = parts' := by
  have single {m : List Lexeme} {parts : List (List Token)} {ts : List Token}
      (h : Interleaves [m] parts ts) : parts = [] ∧ ts.map Token.lexeme = m := by
    cases h with
    | last ht => exact ⟨rfl, ht⟩
    | cons _ h => cases h
  induction hd generalizing parts parts' ts with
  | single => rw [(single h).1, (single h').1]
  | last =>
    obtain ⟨us, part, rest, vs, rfl, rfl, hus, hi⟩ := h.exists_first
    obtain ⟨us', part', rest', vs', hts, rfl, hus', hi'⟩ := h'.exists_first
    obtain ⟨rfl, hvs⟩ := single hi
    obtain ⟨rfl, hvs'⟩ := single hi'
    have hlen := congrArg List.length (hus.trans hus'.symm)
    rw [List.length_map, List.length_map] at hlen
    obtain ⟨-, hpart⟩ := List.append_inj hts hlen
    rw [List.map_eq_nil_iff.1 hvs, List.map_eq_nil_iff.1 hvs', List.append_nil,
      List.append_nil] at hpart
    rw [hpart]
  | cons _ ih =>
    rw [List.forall_mem_cons] at hm
    obtain ⟨us, part, rest, vs, rfl, rfl, hus, hi⟩ := h.exists_first
    obtain ⟨us', part', rest', vs', hts, rfl, hus', hi'⟩ := h'.exists_first
    have hlen := congrArg List.length (hus.trans hus'.symm)
    rw [List.length_map, List.length_map] at hlen
    obtain ⟨-, hts⟩ := List.append_inj hts hlen
    obtain ⟨hpart, hrest⟩ := List.cons.inj hw
    obtain ⟨u, vs, rfl, rfl⟩ := hi.exists_head
    obtain ⟨u', vs', rfl, hu'⟩ := hi'.exists_head
    have hmark := (List.forall_mem_cons.1 hm.2).1 _ List.mem_cons_self
    obtain ⟨rfl, hvs⟩ := append_inj_of_weight hts hpart hmark (by
      rw [← hu'] at hmark
      exact hmark)
    rw [← hvs] at hi'
    rw [ih hm.2 hi hi' hrest]

/-- Nothing but parts and marks stands among the tokens of a node, so these are no more with
parentheses around them than without. -/
theorem eq_nil_of_led (hd : Led ms) (hm : ∀ m ∈ ms, IsMark m) {before after : List Token}
    (h : Interleaves ms parts (before ++ ts ++ after)) (h' : Interleaves ms parts' ts)
    (hw : parts.map weight = parts'.map weight) (hp : ∀ part ∈ parts, opened part = closed part)
    (hp' : ∀ part ∈ parts', opened part = closed part)
    (hbefore : ∀ t ∈ before, t.kind = .parenL) : before = [] := by
  cases hd with
  | first =>
    obtain ⟨u, us, hts, hu⟩ := h.exists_head
    cases before with
    | nil => rfl
    | cons t before =>
      obtain ⟨rfl, -⟩ := List.cons.inj hts
      have hmark := (List.forall_mem_cons.1 hm).1 _ List.mem_cons_self
      rw [← hu] at hmark
      change t.kind.isParen = false at hmark
      rw [hbefore t List.mem_cons_self] at hmark
      cases hmark
  | second =>
    rw [List.forall_mem_cons] at hm
    have hmark := (List.forall_mem_cons.1 hm.2).1 _ List.mem_cons_self
    obtain ⟨_, part, rest, vs, hts, rfl, hus, hi⟩ := h.exists_first
    obtain ⟨_, part', rest', vs', rfl, rfl, hus', hi'⟩ := h'.exists_first
    cases List.map_eq_nil_iff.1 hus
    cases List.map_eq_nil_iff.1 hus'
    obtain ⟨u, vs, rfl, hu⟩ := hi.exists_head
    obtain ⟨u', vs', rfl, hu'⟩ := hi'.exists_head
    have hpart : weight part = weight (before ++ part') := by
      have hzero : weight before = 0 := weight_of_paren fun t ht => by rw [hbefore t ht]; rfl
      rw [weight_append, hzero, Nat.zero_add]
      exact (List.cons.inj hw).1
    have hts : part ++ u :: vs = (before ++ part') ++ u' :: (vs' ++ after) := by simpa using hts.symm
    have hk := (congrArg (·.1.isParen) hu).trans hmark
    have hk' := (congrArg (·.1.isParen) hu').trans hmark
    obtain ⟨rfl, -⟩ := append_inj_of_weight hts hpart hk hk'
    have heven := hp _ List.mem_cons_self
    have heven' := hp' _ List.mem_cons_self
    obtain ⟨ho, hc⟩ := opened_of_kind hbefore
    rw [opened_append, closed_append, ho, hc] at heven
    exact List.eq_nil_of_length_eq_zero (by omega)

end Interleaves

end

namespace Expr

variable {strict : Bool} {e : Expr}

theorem marks_isMark (e : Expr) : ∀ m ∈ e.marks, IsMark m := by
  cases e with
  | number | identifier => simp [IsMark, Kind.isParen]
  | member | conditional => simp [IsMark, mark, Kind.isParen]
  | sequence items =>
    simp only [marks, List.cons_append, List.forall_mem_cons, List.forall_mem_append,
      List.forall_mem_map]
    simp [IsMark, mark, Kind.isParen]
  | assignment op | logical op | binary op | unary op =>
    have hop : IsMark [op.lexeme] := List.forall_mem_singleton.2 (by cases op <;> rfl)
    simp [hop, isMark_nil]
  | update op isPrefix =>
    have hop : IsMark [op.lexeme] := List.forall_mem_singleton.2 (by cases op <;> rfl)
    cases isPrefix <;> simp [hop, isMark_nil]

theorem marks_divided (e : Expr) : Divided e.marks := by
  cases e with
  | number | identifier => exact .single
  | member => exact .cons (.cons .single)
  | sequence items =>
    have h (l : Lexeme) (es : List Expr) (m : List Lexeme) :
        Divided (m :: (es.map (fun _ => [l]) ++ [[]])) := by
      induction es generalizing m with
      | nil => exact .last
      | cons _ _ ih => exact .cons (ih _)
    exact h _ _ _
  | assignment | logical | binary => exact .cons .last
  | conditional => exact .cons (.cons .last)
  | unary => exact .last
  | update _ isPrefix =>
    cases isPrefix with
    | true => exact .last
    | false => exact .cons .single

theorem Obeys.led (h : e.Obeys strict) : Led e.marks := by
  cases e with
  | number | identifier | unary => exact .first
  | member | assignment | conditional | logical | binary => exact .second
  | sequence items =>
    match items, h.1 with
    | _ :: _ :: _, _ => exact .second
  | update _ isPrefix =>
    cases isPrefix with
    | true => exact .first
    | false => exact .second

end Expr

theorem Span.Covers.unique {span span' : Span} {ts : List Token} (h : span.Covers ts)
    (h' : span'.Covers ts) : span = span' :=
  (Span.mk.injEq ..).mpr ⟨Option.some.inj (h.start_eq.trans h'.start_eq.symm),
    Option.some.inj (h.stop_eq.trans h'.stop_eq.symm)⟩

namespace Site

variable {x y : Site} {input : List Char} {parts parts' : List Site} {strict : Bool}

namespace Laid

theorem opening_kind (h : x.Laid input parts) : ∀ t ∈ x.opening, t.kind = .parenL :=
  fun t ht => congrArg Prod.fst (h.opening_eq t ht)

theorem closing_kind (h : x.Laid input parts) : ∀ t ∈ x.closing, t.kind = .parenR :=
  fun t ht => congrArg Prod.fst (h.closing_eq t ht)

theorem opened_eq_closed (h : x.Laid input parts)
    (hp : ∀ y ∈ parts, opened y.all = closed y.all) : opened x.all = closed x.all := by
  obtain ⟨ho, ho'⟩ := opened_of_kind h.opening_kind
  obtain ⟨hc, hc'⟩ := closed_of_kind h.closing_kind
  have hown := h.own.opened_eq_closed x.expr.marks_isMark (List.forall_mem_map.2 hp)
  rw [all, opened_append, opened_append, closed_append, closed_append, ho, ho', hc, hc', hown,
    h.length_eq]
  omega

theorem weight_eq (h : x.Laid input parts) : weight x.all = weight x.own := by
  have ho : weight x.opening = 0 := weight_of_paren fun t ht => by rw [h.opening_kind t ht]; rfl
  have hc : weight x.closing = 0 := weight_of_paren fun t ht => by rw [h.closing_kind t ht]; rfl
  rw [all, weight_append, weight_append, ho, hc, Nat.zero_add, Nat.add_zero]

theorem map_plain (hx : x.Laid input parts) (hy : y.Laid input parts')
    (h : x.expr.plain = y.expr.plain) :
    parts.map (·.expr.plain) = parts'.map (·.expr.plain) := by
  have := congrArg Expr.children h
  rw [Expr.children_plain, Expr.children_plain, hx.children_eq, hy.children_eq, List.map_map,
    List.map_map] at this
  exact this

theorem marks_eq (h : x.expr.plain = y.expr.plain) : x.expr.marks = y.expr.marks := by
  rw [← Expr.marks_plain, h, Expr.marks_plain]

/-- What a node says of itself is there in its shape and its tokens. -/
theorem info_eq (hx : x.Laid input parts) (hy : y.Laid input parts')
    (hp : x.expr.plain = y.expr.plain) (ho : x.opening = y.opening) (hown : x.own = y.own) :
    x.expr.info = y.expr.info := by
  have hvalue : x.expr.valueNote? = y.expr.valueNote? := by
    rw [← Expr.valueNote?_plain, hp, Expr.valueNote?_plain]
  have hargument : x.expr.argumentNote? = y.expr.argumentNote? := by
    rw [← Expr.argumentNote?_plain, hp, Expr.argumentNote?_plain]
  have hspan : x.expr.span = y.expr.span := (hown ▸ hx.span).unique hy.span
  have hparenthesized : x.expr.extra.parenthesized = y.expr.extra.parenthesized :=
    hx.parenthesized_eq.trans (ho ▸ hy.parenthesized_eq.symm)
  have hstart : x.expr.extra.parenStart = y.expr.extra.parenStart := by
    rw [hx.parenStart_eq, hy.parenStart_eq, ho]
  have hraw : x.expr.extra.raw = y.expr.extra.raw := by
    rw [hx.raw_eq, hy.raw_eq, hvalue, hown]
  have hextra : x.expr.extra = y.expr.extra :=
    (Extra.mk.injEq ..).mpr ⟨hparenthesized, hstart,
      hx.argument_eq.trans (hargument.trans hy.argument_eq.symm), hraw,
      hx.rawValue_eq.trans (hvalue.trans hy.rawValue_eq.symm)⟩
  exact (Info.mk.injEq ..).mpr ⟨hspan, hextra⟩

/-- A node has its own tokens where it has fewer parentheses around it than another would. -/
theorem own_eq_of_le (hx : x.Laid input parts) (hy : y.Laid input parts')
    (hp : x.expr.plain = y.expr.plain) (hl : Led x.expr.marks) (ha : x.all = y.all)
    (hw : parts.map (fun z => weight z.all) = parts'.map fun z => weight z.all)
    (he : ∀ z ∈ parts, opened z.all = closed z.all)
    (he' : ∀ z ∈ parts', opened z.all = closed z.all)
    (hle : x.opening.length ≤ y.opening.length) : x.opening = y.opening ∧ x.own = y.own := by
  have hall : x.opening ++ (x.own ++ x.closing) = y.opening ++ (y.own ++ y.closing) := by
    simpa [all] using ha
  have hle' : x.closing.length ≤ y.closing.length := by rwa [hx.length_eq, hy.length_eq]
  obtain ⟨before, hbefore⟩ := List.prefix_of_prefix_length_le ⟨_, hall⟩ (List.prefix_append ..) hle
  have hsuffix : x.closing <:+ y.all := ⟨x.opening ++ x.own, ha⟩
  obtain ⟨after, hafter⟩ := List.suffix_of_suffix_length_le hsuffix ⟨y.opening ++ y.own, rfl⟩ hle'
  have hown : x.own = before ++ y.own ++ after := by
    rw [← hbefore, ← hafter, List.append_assoc, List.append_cancel_left_eq, ← List.append_assoc,
      ← List.append_assoc, List.append_cancel_right_eq] at hall
    exact hall
  have hown' := hy.own
  rw [← marks_eq hp] at hown'
  have hnil : before = [] := by
    refine Interleaves.eq_nil_of_led hl x.expr.marks_isMark (hown ▸ hx.own) hown' ?_
      (List.forall_mem_map.2 he) (List.forall_mem_map.2 he') fun t ht => ?_
    · rw [List.map_map, List.map_map]
      exact hw
    · exact hy.opening_kind t (hbefore ▸ List.mem_append_right _ ht)
  subst hnil
  have hlen := hy.length_eq
  rw [← hbefore, ← hafter, List.append_nil, List.length_append, hx.length_eq] at hlen
  have hnil' : after = [] := List.eq_nil_of_length_eq_zero (by omega)
  subst hnil'
  rw [List.append_nil] at hbefore
  rw [List.nil_append, List.append_nil] at hown
  exact ⟨hbefore, hown⟩

end Laid

theorem Every.opened_eq_closed (h : x.Every (Laid input)) : opened x.all = closed x.all := by
  induction h with
  | intro h _ ih => exact h.opened_eq_closed ih

/-- Trees of one shape have as many tokens but for parentheses. -/
theorem Every.weight_eq (hx : x.Every (Laid input)) (hy : y.Every (Laid input))
    (h : x.expr.plain = y.expr.plain) : weight x.all = weight y.all := by
  induction hx generalizing y with
  | intro hx _ ih =>
    cases hy with
    | intro hy hparts =>
      have hmap := map_eq_of_map_eq (g := fun z => weight z.all) (hx.map_plain hy h)
        fun z hz z' hz' => ih z hz (hparts z' hz')
      have hown := hy.own
      rw [← Laid.marks_eq h] at hown
      rw [hx.weight_eq, hy.weight_eq]
      refine Interleaves.weight_congr (Expr.marks_isMark _) hx.own hown ?_
      rw [List.map_map, List.map_map]
      exact hmap

/-- Two trees of one shape that stand on the same tokens are one. -/
theorem Every.expr_eq (hx : x.Every (Laid input)) (hy : y.Every (Laid input))
    (hg : x.expr.Grammatical strict) (hp : x.expr.plain = y.expr.plain) (ha : x.all = y.all) :
    x.expr = y.expr := by
  induction hx generalizing y with
  | @intro x parts hx hparts ih =>
    cases hy with
    | @intro _ parts' hy hparts' =>
      obtain ⟨hobeys, hchildren⟩ := Expr.every_iff.1 hg
      have hmap := hx.map_plain hy hp
      have hmarks := Laid.marks_eq hp
      have hw := map_eq_of_map_eq (g := fun z => weight z.all) hmap
        fun z hz z' hz' => (hparts z hz).weight_eq (hparts' z' hz')
      have he := fun z hz => (hparts z hz).opened_eq_closed
      have he' := fun z hz => (hparts' z hz).opened_eq_closed
      obtain ⟨hopen, hown⟩ : x.opening = y.opening ∧ x.own = y.own := by
        obtain hle | hle := Nat.le_total x.opening.length y.opening.length
        · exact hx.own_eq_of_le hy hp hobeys.led ha hw he he' hle
        · obtain ⟨hopen, hown⟩ :=
            hy.own_eq_of_le hx hp.symm (hmarks ▸ hobeys.led) ha.symm hw.symm he' he hle
          exact ⟨hopen.symm, hown.symm⟩
      have hall : parts.map all = parts'.map all := by
        refine Interleaves.unique x.expr.marks_divided x.expr.marks_isMark hx.own ?_ ?_
        · rw [hmarks, hown]
          exact hy.own
        · rw [List.map_map, List.map_map]
          exact hw
      have hpairs : (parts.map fun z => (z.expr.plain, z.all)) =
          parts'.map fun z => (z.expr.plain, z.all) := by
        rw [← List.zip_map', ← List.zip_map', hmap, hall]
      have hexprs : parts.map expr = parts'.map expr := by
        refine map_eq_of_map_eq hpairs fun z hz z' hz' h => ?_
        obtain ⟨hp, ha⟩ := Prod.mk.inj h
        have hg := hchildren z.expr (hx.children_eq ▸ List.mem_map_of_mem hz)
        exact ih z hz (hparts' z' hz') hg hp ha
      refine Expr.eq_of_plain hp ?_ (hx.info_eq hy hp hopen hown)
      rw [hx.children_eq, hy.children_eq, hexprs]

end Site

end ArithLang
