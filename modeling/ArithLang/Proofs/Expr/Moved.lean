import ArithLang.Proofs.Expr.Plain
import ArithLang.Proofs.Expr.Sited
import ArithLang.Proofs.Scanner.Cut

/-! Trees at positions as they are counted from another one, and the sites of such trees. -/

namespace ArithLang

variable {origin : Position}

def Span.relativeTo (span : Span) (origin : Position) : Span :=
  ⟨span.start.relativeTo origin, span.stop.relativeTo origin⟩

def Extra.relativeTo (extra : Extra) (origin : Position) : Extra :=
  { extra with parenStart := extra.parenStart.map (· - origin.offset) }

def Info.relativeTo (i : Info) (origin : Position) : Info :=
  ⟨i.span.relativeTo origin, i.extra.relativeTo origin⟩

namespace Expr

mutual

/-- The tree with all positions as counted from another one. -/
@[simp] def relativeTo (origin : Position) : Expr → Expr
  | number v i => number v (i.relativeTo origin)
  | identifier name i => identifier name (i.relativeTo origin)
  | member o p c i => member (o.relativeTo origin) (p.relativeTo origin) c (i.relativeTo origin)
  | sequence es i => sequence (relativeToList origin es) (i.relativeTo origin)
  | assignment op l r i =>
    assignment op (l.relativeTo origin) (r.relativeTo origin) (i.relativeTo origin)
  | conditional t c a i =>
    conditional (t.relativeTo origin) (c.relativeTo origin) (a.relativeTo origin) (i.relativeTo origin)
  | logical op l r i => logical op (l.relativeTo origin) (r.relativeTo origin) (i.relativeTo origin)
  | binary op l r i => binary op (l.relativeTo origin) (r.relativeTo origin) (i.relativeTo origin)
  | unary op p a i => unary op p (a.relativeTo origin) (i.relativeTo origin)
  | update op p a i => update op p (a.relativeTo origin) (i.relativeTo origin)

def relativeToList (origin : Position) : List Expr → List Expr
  | [] => []
  | e :: es => e.relativeTo origin :: relativeToList origin es

end

@[simp] theorem relativeToList_eq_map (es : List Expr) :
    relativeToList origin es = es.map (relativeTo origin) := by
  induction es with
  | nil => rfl
  | cons e es ih => rw [relativeToList, ih, List.map_cons]

variable {e e' : Expr}

@[simp] theorem info_relativeTo (e : Expr) :
    (e.relativeTo origin).info = e.info.relativeTo origin := by
  cases e <;> rw [relativeTo] <;> rfl

@[simp] theorem children_relativeTo (e : Expr) :
    (e.relativeTo origin).children = e.children.map (relativeTo origin) := by
  cases e <;> simp

@[simp] theorem plain_info_relativeTo (i : Info) : (i.relativeTo origin).plain = i.plain := rfl

mutual

theorem plain_relativeTo : ∀ e : Expr, (e.relativeTo origin).plain = e.plain
  | number .. | identifier .. => by simp
  | member l r _ _ | assignment _ l r _ | logical _ l r _ | binary _ l r _ => by
    simp [plain_relativeTo l, plain_relativeTo r]
  | sequence es _ => by rw [relativeTo, plain, plain, plainList_relativeToList es]; rfl
  | conditional t c a _ => by simp [plain_relativeTo t, plain_relativeTo c, plain_relativeTo a]
  | unary _ _ a _ | update _ _ a _ => by simp [plain_relativeTo a]

theorem plainList_relativeToList :
    ∀ es : List Expr, plainList (relativeToList origin es) = plainList es
  | [] => rfl
  | e :: es => by
    rw [relativeToList, plainList, plainList, plain_relativeTo e, plainList_relativeToList es]

end

theorem extra_relativeTo (e : Expr) : (e.relativeTo origin).extra = e.extra.relativeTo origin :=
  congrArg Info.extra (info_relativeTo e)

theorem span_relativeTo (e : Expr) : (e.relativeTo origin).span = e.span.relativeTo origin :=
  congrArg Info.span (info_relativeTo e)

theorem marks_relativeTo (e : Expr) : (e.relativeTo origin).marks = e.marks := by
  rw [← marks_plain, plain_relativeTo, marks_plain]

theorem argumentNote?_relativeTo (e : Expr) :
    (e.relativeTo origin).argumentNote? = e.argumentNote? := by
  rw [← argumentNote?_plain, plain_relativeTo, argumentNote?_plain]

theorem valueNote?_relativeTo (e : Expr) : (e.relativeTo origin).valueNote? = e.valueNote? := by
  rw [← valueNote?_plain, plain_relativeTo, valueNote?_plain]

theorem isParenthesized_relativeTo (e : Expr) :
    (e.relativeTo origin).isParenthesized = e.isParenthesized := by
  rw [← isParenthesized_plain, plain_relativeTo, isParenthesized_plain]

theorem extra_bare (e : Expr) :
    e.bare.extra = { e.extra with parenthesized := false, parenStart := none } := by
  cases e <;> rfl

theorem span_bare (e : Expr) : e.bare.span = e.span := by
  cases e <;> rfl

theorem bare_relativeTo (e : Expr) : (e.relativeTo origin).bare = e.bare.relativeTo origin := by
  cases e <;> simp [bare, withExtra, withInfo, extra, info, Info.relativeTo, Extra.relativeTo]

end Expr

theorem Interleaves.map {ms : List (List Lexeme)} {parts : List (List Token)} {ts : List Token}
    (f : Token → Token) (hf : ∀ t, (f t).lexeme = t.lexeme) (h : Interleaves ms parts ts) :
    Interleaves ms (parts.map (List.map f)) (ts.map f) := by
  have hmap (us : List Token) : (us.map f).map Token.lexeme = us.map Token.lexeme := by
    rw [List.map_map]
    exact List.map_congr_left fun t _ => hf t
  induction h with
  | last hm => exact .last ((hmap _).trans hm)
  | cons hm _ ih =>
    rw [List.map_append, List.map_append]
    exact .cons ((hmap _).trans hm) ih

theorem Span.Covers.relativeTo {span : Span} {ts : List Token} (h : span.Covers ts) :
    (span.relativeTo origin).Covers (ts.map (·.relativeTo origin)) where
  start_eq := by
    have := congrArg (Option.map (Position.relativeTo · origin)) h.start_eq
    rw [Option.map_map] at this
    rw [List.head?_map, Option.map_map]
    exact this
  stop_eq := by
    have := congrArg (Option.map (Position.relativeTo · origin)) h.stop_eq
    rw [Option.map_map] at this
    rw [List.getLast?_map, Option.map_map]
    exact this

namespace Site

variable {x : Site} {parts : List Site} {input input' : List Char}

def relativeTo (x : Site) (origin : Position) : Site where
  expr := x.expr.relativeTo origin
  opening := x.opening.map (·.relativeTo origin)
  own := x.own.map (·.relativeTo origin)
  closing := x.closing.map (·.relativeTo origin)

theorem all_relativeTo (x : Site) :
    (x.relativeTo origin).all = x.all.map (·.relativeTo origin) := by
  simp [all, relativeTo]

/-- The site without the parentheses that enclose just its node. -/
def bare (x : Site) : Site where
  expr := x.expr.bare
  own := x.own

theorem Laid.bare (h : x.Laid input parts) : x.bare.Laid input parts := by
  obtain ⟨hc, hown, -, -, -, -, -, hspan, hraw, hvalue, hargument⟩ := h
  constructor
  · exact (Expr.children_withInfo _ _).trans hc
  · exact (Expr.marks_withInfo _ _).symm ▸ hown
  · exact List.forall_mem_nil _
  · exact List.forall_mem_nil _
  · rfl
  · exact congrArg Extra.parenthesized (Expr.extra_bare _)
  · exact congrArg Extra.parenStart (Expr.extra_bare _)
  · exact (Expr.span_bare _).symm ▸ hspan
  · rw [Site.bare, Expr.extra_bare, Expr.bare, Expr.withExtra, Expr.valueNote?_withInfo]
    exact hraw
  · rw [Site.bare, Expr.extra_bare, Expr.bare, Expr.withExtra, Expr.valueNote?_withInfo]
    exact hvalue
  · rw [Site.bare, Expr.extra_bare, Expr.bare, Expr.withExtra, Expr.argumentNote?_withInfo]
    exact hargument

/-- What is laid in one text is laid in another where its tokens have the same source. -/
theorem Laid.relativeTo (h : x.Laid input parts)
    (hs : ∀ t ∈ x.own, (t.relativeTo origin).source input' = t.source input) :
    (x.relativeTo origin).Laid input' (parts.map (·.relativeTo origin)) := by
  obtain ⟨hc, hown, hopen, hclose, hlen, hp, hstart, hspan, hraw, hvalue, hargument⟩ := h
  constructor
  · rw [Site.relativeTo, Expr.children_relativeTo, hc, List.map_map, List.map_map]
    rfl
  · have hall : (parts.map (·.relativeTo origin)).map all =
        (parts.map all).map (List.map (·.relativeTo origin)) := by
      rw [List.map_map, List.map_map]
      exact List.map_congr_left fun y _ => y.all_relativeTo
    rw [hall, Site.relativeTo, Expr.marks_relativeTo]
    exact hown.map _ fun _ => rfl
  · exact List.forall_mem_map.2 hopen
  · exact List.forall_mem_map.2 hclose
  · simpa [Site.relativeTo] using hlen
  · simpa [Site.relativeTo, Expr.isParenthesized_relativeTo] using hp
  · rw [Site.relativeTo, Expr.extra_relativeTo, Extra.relativeTo, hstart, Option.map_map,
      List.head?_map, Option.map_map]
    rfl
  · exact (Expr.span_relativeTo _).symm ▸ hspan.relativeTo
  · rw [Site.relativeTo, Expr.extra_relativeTo, Expr.valueNote?_relativeTo, Extra.relativeTo, hraw,
      List.head?_map, Option.map_map]
    refine congrArg (Option.bind _) (funext fun _ => Option.map_congr fun t ht => ?_)
    exact (hs t (List.mem_of_head? ht)).symm
  · rw [Site.relativeTo, Expr.extra_relativeTo, Expr.valueNote?_relativeTo]
    exact hvalue
  · rw [Site.relativeTo, Expr.extra_relativeTo, Expr.argumentNote?_relativeTo]
    exact hargument

theorem Every.relativeTo (h : x.Every (Laid input))
    (hs : ∀ t ∈ x.own, (t.relativeTo origin).source input' = t.source input) :
    (x.relativeTo origin).Every (Laid input') := by
  induction h with
  | @intro x parts h _ ih =>
    refine .intro (h.relativeTo hs) (List.forall_mem_map.2 fun y hy => ih y hy fun t ht => hs t ?_)
    exact (h.parts_sub y hy).subset (y.own_sub.subset ht)

theorem Every.bare (h : x.Every (Laid input)) : x.bare.Every (Laid input) := by
  cases h with
  | intro h hparts => exact .intro h.bare hparts

end Site

end ArithLang
