import ArithLang.Expr.Reader
import ArithLang.Expr.Writer
import ArithLang.Proofs.Expr.Grammatical
import ArithLang.Proofs.Json.Number
import ArithLang.Proofs.Json.Reading

/-!
Trees are read back from their JSON text. What a node says of itself stands under keys that no kind of
node uses for its own fields, so both are found whatever stands beside them.
-/

namespace ArithLang

/-- A number that JSON text keeps: an integer, or a finite float whose text is read as that float. -/
def Number.Faithful : Number → Prop
  | .int _ => True
  | .float x =>
    x.isFinite = true ∧
      ((Json.read? (Number.float x).toJson.compact).bind Json.number?) = some (.float x)

namespace Json

variable {key : String} {own fields : List (String × Json)}

theorem filter_of_mem {field : String × Json} (h : field ∈ fields)
    (hkeys : (fields.map Prod.fst).Nodup) : fields.filter (·.1 == field.1) = [field] := by
  induction fields with
  | nil => exact (List.not_mem_nil h).elim
  | cons first fields ih =>
    obtain ⟨hfirst, hkeys⟩ := List.nodup_cons.mp hkeys
    obtain rfl | h := List.mem_cons.mp h
    · have hrest : fields.filter (·.1 == field.1) = [] := by
        simp only [List.filter_eq_nil_iff, beq_iff_eq]
        exact fun other hother heq => hfirst (heq ▸ List.mem_map_of_mem hother)
      simp [hrest]
    · have hne : first.1 ≠ field.1 := fun heq => hfirst (heq ▸ List.mem_map_of_mem h)
      simp [hne, ih h hkeys]

theorem only?_append (h : ∀ field ∈ own, field.1 ≠ key) :
    only? key (own ++ fields) = only? key fields := by
  have hown : own.filter (·.1 == key) = [] := by simpa using h
  rw [only?, List.filter_append, hown, List.nil_append, only?]

theorem atMostOnce?_append (h : ∀ field ∈ own, field.1 ≠ key) :
    atMostOnce? key (own ++ fields) = atMostOnce? key fields := by
  have hown : own.filter (·.1 == key) = [] := by simpa using h
  rw [atMostOnce?, List.filter_append, hown, List.nil_append, atMostOnce?]

/-- The keys that say where a node stands and how it was written. -/
def infoKeys : List String := ["start", "end", "loc", "extra"]

theorem info?_append (h : ∀ field ∈ own, field.1 ∉ infoKeys) :
    info? (own ++ fields) = info? fields := by
  have hkey (key : String) (hk : key ∈ infoKeys) : ∀ field ∈ own, field.1 ≠ key :=
    fun field hf heq => h field hf (heq ▸ hk)
  rw [info?, span?, atMostOnce?_append (hkey "extra" (by decide)),
    only?_append (hkey "start" (by decide)), only?_append (hkey "end" (by decide)),
    only?_append (hkey "loc" (by decide))]
  rfl

theorem filter_optionalField {α : Type} (key' : String) (write : α → Json) (o : Option α) :
    (optionalField key' write o).filter (·.1 == key) =
      if key' = key then optionalField key' write o else [] := by
  cases o <;> simp [optionalField, List.filter_cons]

theorem atMostOnce?_of_filter {α : Type} {write : α → Json} {o : Option α}
    (h : fields.filter (·.1 == key) = optionalField key write o) :
    atMostOnce? key fields = some (o.map write) := by
  rw [atMostOnce?, h]
  cases o <;> rfl

theorem orNull_eq {α : Type} {read : Json → Option α} {json : Json} {a : α}
    (hnull : read null = none) (h : read json = some a) : orNull read json = some (some a) := by
  cases json with
  | null =>
    rw [hnull] at h
    cases h
  | _ => exact congrArg (Option.map some) h

theorem orDefault?_map {α : Type} (read : Json → Option α) (write : α → Json) (o : Option α)
    (h : ∀ a ∈ o, orNull read (write a) = some (some a)) :
    orDefault? (orNull read) none (o.map write) = some o := by
  cases o with
  | none => rfl
  | some a => exact h a rfl

end Json

/-- Every count is one of 64 bits. -/
structure Position.Fits (position : Position) : Prop where
  offset : position.offset < wordSize
  line : position.line < wordSize
  column : position.column < wordSize

/-- What JSON text keeps of a node: counts of 64 bits and faithful numbers. -/
structure Info.Fits (i : Info) : Prop where
  start : i.span.start.Fits
  stop : i.span.stop.Fits
  parenStart : ∀ offset ∈ i.extra.parenStart, offset < wordSize
  rawValue : ∀ value ∈ i.extra.rawValue, value.Faithful

open Json

section Reading

variable {position : Position} {extra : Extra} {i : Info} {v : Number}

/-- Every faithful number is written as a numeral that reads as it. -/
theorem Number.Faithful.exists_numeral (h : v.Faithful) :
    ∃ n : Numeral, v.toJson = .number n ∧ n.Digital ∧ ¬ n.Padded ∧ n.number? = some v := by
  cases v with
  | int n =>
    obtain ⟨hd, hp⟩ := digital_toDigits n.toInt.natAbs (n.toInt < 0)
    exact ⟨_, rfl, hd, hp, number?_ofInt n⟩
  | float x =>
    obtain ⟨hx, hread⟩ := h
    have hd := jsonStyle.numeral_digital x
    have hjson : (Number.float x).toJson = .number (jsonStyle.numeral x) := if_pos hx
    have htext : (Json.number (jsonStyle.numeral x)).compact = (jsonStyle.numeral x).text :=
      List.append_nil _
    rw [hjson, htext, read?_text hd] at hread
    by_cases hp : (jsonStyle.numeral x).Padded
    · rw [if_pos hp] at hread
      cases hread
    · rw [if_neg hp] at hread
      exact ⟨_, hjson, hd, hp, hread⟩

theorem Number.Faithful.number?_toJson (h : v.Faithful) : v.toJson.number? = some v := by
  obtain ⟨n, hjson, -, -, hvalue⟩ := h.exists_numeral
  rw [hjson]
  exact hvalue

theorem Position.Fits.place?_toJson (h : position.Fits) :
    place? position.toJson = some (position.line, position.column) := by
  simp [place?, Position.toJson, pair?, only?, nat?_ofNat h.line, nat?_ofNat h.column]

theorem Info.Fits.span?_fields (h : i.Fits) : span? i.fields = some i.span := by
  have hstart : only? "start" i.fields = some (ofNat i.span.start.offset) := by
    unfold Info.fields
    split <;> rfl
  have hend : only? "end" i.fields = some (ofNat i.span.stop.offset) := by
    unfold Info.fields
    split <;> rfl
  have hloc : only? "loc" i.fields = some i.span.locationJson := by
    unfold Info.fields
    split <;> rfl
  have hpair : pair? "start" "end" place? i.span.locationJson =
      some ((i.span.start.line, i.span.start.column), (i.span.stop.line, i.span.stop.column)) := by
    simp [Span.locationJson, pair?, only?, h.start.place?_toJson, h.stop.place?_toJson]
  rw [span?, hstart, hend, hloc]
  simp [nat?_ofNat h.start.offset, nat?_ofNat h.stop.offset, hpair]

/-- Every field of `extra` is found under its key, if it is written. -/
theorem Extra.exists_fields (extra : Extra) :
    ∃ fields, extra.toJson = .object fields ∧ extraKeys.mapM (atMostOnce? · fields) =
      some [if extra.parenthesized then some (.bool true) else none,
        extra.parenStart.map .ofNat, extra.parenthesizedArgument.map .bool,
        extra.raw.map .string, extra.rawValue.map Number.toJson] := by
  let mark := if extra.parenthesized then some (Json.bool true) else none
  let fields := optionalField "parenthesized" id mark ++
    optionalField "parenStart" Json.ofNat extra.parenStart ++
    optionalField "parenthesizedArgument" Json.bool extra.parenthesizedArgument ++
    optionalField "raw" Json.string extra.raw ++
    optionalField "rawValue" Number.toJson extra.rawValue
  have hjson : extra.toJson = .object fields := by
    have hmark : optionalField "parenthesized" id mark =
        if extra.parenthesized then [("parenthesized", .bool true)] else [] := by
      cases h : extra.parenthesized <;> simp [mark, h, optionalField]
    rw [Extra.toJson, ← hmark]
  have hmark : atMostOnce? "parenthesized" fields = some (mark.map id) :=
    atMostOnce?_of_filter (by simp [fields, filter_optionalField])
  have hstart : atMostOnce? "parenStart" fields = some (extra.parenStart.map Json.ofNat) :=
    atMostOnce?_of_filter (by simp [fields, filter_optionalField])
  have hargument : atMostOnce? "parenthesizedArgument" fields =
      some (extra.parenthesizedArgument.map Json.bool) :=
    atMostOnce?_of_filter (by simp [fields, filter_optionalField])
  have hraw : atMostOnce? "raw" fields = some (extra.raw.map Json.string) :=
    atMostOnce?_of_filter (by simp [fields, filter_optionalField])
  have hvalue : atMostOnce? "rawValue" fields = some (extra.rawValue.map Number.toJson) :=
    atMostOnce?_of_filter (by simp [fields, filter_optionalField])
  refine ⟨fields, hjson, ?_⟩
  simp [extraKeys, hmark, hstart, hargument, hraw, hvalue, mark]

theorem Info.Fits.extra?_toJson (h : i.Fits) : extra? i.extra.toJson = some i.extra := by
  obtain ⟨fields, hjson, hfields⟩ := i.extra.exists_fields
  have hparenthesized : orDefault? bool? false
      (if i.extra.parenthesized then some (.bool true) else none) = some i.extra.parenthesized := by
    cases i.extra.parenthesized <;> rfl
  have hstart := orDefault?_map nat? .ofNat i.extra.parenStart
    fun offset ho => orNull_eq rfl (nat?_ofNat (h.parenStart offset ho))
  have hargument := orDefault?_map bool? .bool i.extra.parenthesizedArgument
    fun _ _ => rfl
  have hraw := orDefault?_map string? .string i.extra.raw fun _ _ => rfl
  have hvalue := orDefault?_map number? Number.toJson i.extra.rawValue
    fun value hv => orNull_eq rfl (h.rawValue value hv).number?_toJson
  rw [hjson, extra?, hfields]
  simp [extraOf?, hparenthesized, hstart, hargument, hraw, hvalue]

theorem Info.Fits.info?_fields (h : i.Fits) : info? i.fields = some i := by
  have hextra : atMostOnce? "extra" i.fields =
      some (if i.extra = {} then none else some i.extra.toJson) := by
    unfold Info.fields
    split <;> rfl
  have hread : orDefault? extra? {} (if i.extra = {} then none else some i.extra.toJson) =
      some i.extra := by
    split
    · next heq => rw [heq]; rfl
    · exact h.extra?_toJson
  rw [info?, h.span?_fields, hextra]
  simp [hread]

end Reading

section Clean

variable {position : Position} {i : Info} {v : Number}

theorem clean_ofNat {n : Nat} (h : n < wordSize) : (ofNat n).Clean := by
  rw [ofNat_eq]
  exact .number (digital_toDigits n false).1 (Numeral.isSome_number?_toDigits h)
    (digital_toDigits n false).2

theorem Number.Faithful.clean_toJson (h : v.Faithful) : v.toJson.Clean := by
  obtain ⟨n, hjson, hd, hp, hvalue⟩ := h.exists_numeral
  rw [hjson]
  exact .number hd (Option.isSome_of_eq_some hvalue) hp

theorem Position.Fits.clean_toJson (h : position.Fits) : position.toJson.Clean :=
  .object (by simp [clean_ofNat h.line, clean_ofNat h.column])

theorem clean_optionalField {α : Type} {key : String} {write : α → Json} {o : Option α}
    (h : ∀ a ∈ o, (write a).Clean) : ∀ field ∈ optionalField key write o, field.2.Clean := by
  cases o with
  | none => exact fun _ hf => (List.not_mem_nil hf).elim
  | some a => simpa [optionalField] using h

theorem Info.Fits.clean_extra (h : i.Fits) : i.extra.toJson.Clean := by
  refine .object fun field hf => ?_
  simp only [List.mem_append, or_assoc] at hf
  obtain hf | hf | hf | hf | hf := hf
  · split at hf
    · rw [List.mem_singleton.mp hf]
      exact .bool true
    · exact (List.not_mem_nil hf).elim
  · exact clean_optionalField (fun offset ho => clean_ofNat (h.parenStart offset ho)) field hf
  · exact clean_optionalField (fun b _ => .bool b) field hf
  · exact clean_optionalField (fun s _ => .string s) field hf
  · exact clean_optionalField (fun value hv => (h.rawValue value hv).clean_toJson) field hf

theorem Info.Fits.clean_fields (h : i.Fits) : ∀ field ∈ i.fields, field.2.Clean := by
  have hloc : i.span.locationJson.Clean :=
    .object (by simp [h.start.clean_toJson, h.stop.clean_toJson])
  intro field hf
  rw [Info.fields, List.mem_append] at hf
  obtain hf | hf := hf
  · simp only [List.mem_cons, List.not_mem_nil, or_false] at hf
    obtain rfl | rfl | rfl := hf
    · exact clean_ofNat h.start.offset
    · exact clean_ofNat h.stop.offset
    · exact hloc
  · split at hf
    · exact (List.not_mem_nil hf).elim
    · rw [List.mem_singleton.mp hf]
      exact h.clean_extra

end Clean

namespace Expr

variable {e : Expr}

/-- What a node says of itself is kept by JSON text. -/
structure Portable (e : Expr) : Prop where
  info : e.info.Fits
  value : ∀ v ∈ e.valueNote?, v.Faithful

theorem toJsonList_eq_map (items : List Expr) : toJsonList items = items.map toJson := by
  induction items with
  | nil => rfl
  | cons item items ih => rw [toJsonList, ih, List.map_cons]

/-- The fields of a node that only its kind has. -/
def ownFields : Expr → List (String × Json)
  | number v _ => [("value", v.toJson)]
  | identifier name _ => [("name", .string name)]
  | member o p c _ => [("object", o.toJson), ("property", p.toJson), ("computed", .bool c)]
  | sequence es _ => [("expressions", .array (es.map toJson))]
  | assignment op l r _ =>
    [("operator", .string op.text), ("left", l.toJson), ("right", r.toJson)]
  | conditional t c a _ =>
    [("test", t.toJson), ("consequent", c.toJson), ("alternate", a.toJson)]
  | logical op l r _ => [("left", l.toJson), ("operator", .string op.text), ("right", r.toJson)]
  | binary op l r _ => [("left", l.toJson), ("operator", .string op.text), ("right", r.toJson)]
  | unary op p a _ =>
    [("operator", .string op.text), ("prefix", .bool p), ("argument", a.toJson)]
  | update op p a _ =>
    [("operator", .string op.text), ("prefix", .bool p), ("argument", a.toJson)]

theorem toJson_eq (e : Expr) : e.toJson = node e.kindName e.ownFields e.info := by
  cases e with
  | sequence items i => rw [toJson, toJsonList_eq_map]; rfl
  | _ => rfl

/-- A node has each of its own fields once, beside those that every node has. -/
theorem ownFields_keys (e : Expr) : (e.ownFields.map Prod.fst).Nodup ∧
    ∀ field ∈ e.ownFields, field.1 ∉ "type" :: infoKeys := by
  cases e <;> simp [ownFields, infoKeys]

theorem clean_ownFields (h : e.Portable) (hc : ∀ c ∈ e.children, c.toJson.Clean) :
    ∀ field ∈ e.ownFields, field.2.Clean := by
  cases e with
  | number v i => simpa [ownFields] using (h.value v rfl).clean_toJson
  | identifier | assignment | logical | binary => simp_all [ownFields, Clean.string]
  | member => simp_all [ownFields, Clean.bool]
  | sequence => simp_all [ownFields, Clean.array]
  | conditional => simp_all [ownFields]
  | unary | update => simp_all [ownFields, Clean.string, Clean.bool]

theorem clean_toJson (h : e.Every Portable) : e.toJson.Clean := by
  induction h with
  | @intro e he _ ih =>
    rw [toJson_eq]
    refine .object fun field hf => ?_
    obtain rfl | hf := List.mem_cons.mp hf
    · exact .string e.kindName
    · exact (List.mem_append.mp hf).elim (clean_ownFields he ih field)
        (he.info.clean_fields field)

section Nodes

variable {field : String × Json} {levels : Nat}

theorem mem_infoKeys (i : Info) : ∀ field ∈ i.fields, field.1 ∈ infoKeys := by
  unfold Info.fields
  split <;> simp [infoKeys]

theorem only?_type (e : Expr) :
    only? "type" (("type", .string e.kindName) :: e.ownFields ++ e.info.fields) =
      some (.string e.kindName) := by
  have hrest : (e.ownFields ++ e.info.fields).filter (·.1 == "type") = [] := by
    simp only [List.filter_eq_nil_iff, beq_iff_eq]
    rintro field hf htype
    obtain hf | hf := List.mem_append.mp hf
    · exact e.ownFields_keys.2 field hf (htype ▸ List.mem_cons_self)
    · exact absurd (htype ▸ mem_infoKeys e.info field hf) (by decide)
  simp [only?, hrest]

/-- A node's own fields are found in it. -/
theorem only?_own (hf : field ∈ e.ownFields) :
    only? field.1 (("type", .string e.kindName) :: e.ownFields ++ e.info.fields) =
      some field.2 := by
  have hkey := e.ownFields_keys.2 field hf
  have htype : ("type" == field.1) = false := by
    rw [beq_eq_false_iff_ne]
    exact fun h => hkey (h ▸ List.mem_cons_self)
  have hinfo : e.info.fields.filter (·.1 == field.1) = [] := by
    simp only [List.filter_eq_nil_iff, beq_iff_eq]
    intro other hother h
    exact hkey (List.mem_cons_of_mem _ (h ▸ mem_infoKeys e.info other hother))
  simp [only?, htype, hinfo, filter_of_mem hf e.ownFields_keys.1]

theorem info?_node (hi : e.info.Fits) :
    info? (("type", .string e.kindName) :: e.ownFields ++ e.info.fields) = some e.info := by
  rw [info?_append, hi.info?_fields]
  intro field hf
  obtain rfl | hf := List.mem_cons.mp hf
  · exact (by decide : "type" ∉ infoKeys)
  · exact fun hk => e.ownFields_keys.2 field hf (List.mem_cons_of_mem _ hk)

/-- A node is read back if its own fields are, where it stands and how it was written being known. -/
theorem ofJson?_of_fields (nested : Bool) (hi : e.info.Fits) (hd : e.toJson.depth ≤ levels)
    (hread : ∀ k fields, info? fields = some e.info →
      (∀ field ∈ e.ownFields, only? field.1 fields = some field.2) →
      (∀ field ∈ e.ownFields, field.2.depth ≤ k) →
      ofFields? (ofJson? k true) e.kindName fields = some e) :
    ofJson? levels nested e.toJson = some e := by
  rw [toJson_eq, node] at hd ⊢
  rw [depth] at hd
  obtain ⟨k, rfl⟩ : ∃ k, levels = k + 1 := ⟨levels - 1, by omega⟩
  rw [ofJson?, only?_type]
  refine hread k _ (info?_node hi) (fun field hf => only?_own hf) fun field hf => ?_
  have := depth_le_depthFields
    (List.mem_append_left e.info.fields (List.mem_cons_of_mem ("type", .string e.kindName) hf))
  omega

end Nodes

/-- A tree is read back from its JSON value, if there are levels enough. -/
theorem ofJson?_toJson (h : e.Every Portable) {levels : Nat} (nested : Bool)
    (hd : e.toJson.depth ≤ levels) : ofJson? levels nested e.toJson = some e := by
  induction h generalizing levels nested with
  | @intro e he _ ih =>
    refine ofJson?_of_fields nested he.info hd fun k fields hinfo hfield hk => ?_
    cases e with
    | number v i =>
      have hv := (he.value v rfl).number?_toJson
      simp_all [ofFields?, ownFields, kindName, info]
    | sequence items i =>
      -- The array takes a level of its own, which the reader does not count.
      have hdepth : depthItems (items.map toJson) < k := hk _ List.mem_cons_self
      have hitems : (items.map toJson).mapM (ofJson? k true) = some items := by
        refine mapM_map _ _ _ fun item hitem => ih item hitem true (Nat.le_of_lt ?_)
        exact Nat.lt_of_le_of_lt (depth_le_depthItems (List.mem_map_of_mem hitem)) hdepth
      simp_all [ofFields?, ownFields, kindName, info]
    | _ => simp_all [ofFields?, ownFields, kindName, info, string?, bool?, named?]

/-- Trees whose text can be read: each node is kept, and the text nests no deeper than it may. -/
structure Storable (e : Expr) : Prop where
  portable : e.Every Portable
  depth_le : e.toJson.depth ≤ maxDepth

theorem Storable.ofText?_compact (h : e.Storable) : ofText? e.toJson.compact = some e := by
  have hclean := clean_toJson h.portable
  rw [ofText?, read?_compact hclean]
  exact (if_pos (hclean.isSound h.depth_le)).trans (ofJson?_toJson h.portable false h.depth_le)

end Expr

end ArithLang
