import SearchFilter.Proofs.JsonText
import SearchFilter.Proofs.Lexing
import SearchFilter.Proofs.NumberRange
import SearchFilter.Proofs.TermChanges
import SearchFilter.Query.JsonForm

/-!
# Queries in JSON

A query is read back from its own JSON text, without the places of its terms, as long as the text is not
nested too deep. What a literal is shows in how it is written: a text has quotes, a whole number has
neither a point nor a power of ten, and a double has one of them. Of a double it is assumed that its text
is read as this double.
-/

namespace SearchFilter

open Json

/-! ### Nesting -/

mutual

/-- How deep lists and objects are nested in the text of a value. -/
def Json.depth : Json → Nat
  | .array items => Json.depths items + 1
  | .object fields => Json.fieldDepths fields + 1
  | _ => 0

/-- How deep lists and objects are nested in some items. -/
def Json.depths : List Json → Nat
  | [] => 0
  | item :: items => max item.depth (Json.depths items)

/-- How deep lists and objects are nested in some fields. -/
def Json.fieldDepths : List (String × Json) → Nat
  | [] => 0
  | (_, value) :: fields => max value.depth (Json.fieldDepths fields)

end

theorem Json.depths_map_string (texts : List String) : Json.depths (texts.map .string) = 0 := by
  induction texts with
  | nil => rfl
  | cons text texts ih =>
    show max 0 (Json.depths (texts.map .string)) = 0
    rw [ih, Nat.max_self]

theorem Literal.depth_toJson (v : Literal) : v.toJson.depth = 0 := by
  cases v <;> rfl

theorem Term.depth_toJson (t : Term) : t.toJson.depth = 2 := by
  simp [Term.toJson, Json.depth, Json.fieldDepths, Json.depths_map_string, Literal.depth_toJson]

theorem Node.depth_toJson_group (c : Connective) (children : List Node) :
    (Node.group c children).toJson.depth = Json.depths (Node.toJsons children) + 2 := by
  simp [Node.toJson, Json.depth, Json.fieldDepths]

/-! ### Literals -/

/-- A double that is read back from the number it is written as. -/
def Binary64.Survives (x : Binary64) : Prop :=
  ((Source.numeral? x.toJsonText).bind fun read => read.1.toBinary64?) = some x

instance (x : Binary64) : Decidable x.Survives := inferInstanceAs (Decidable (_ = _))

-- The digits of a number are rounded before they are scaled, so that not every double survives.
example : Binary64.Survives ⟨0x3FB999999999999A⟩ ∧ ¬ Binary64.Survives (.ofNat (38 * 10 ^ 23)) := by
  decide +kernel

theorem Binary64.Survives.toBinary64?_numeral {x : Binary64} (h : x.Survives) :
    x.numeral.toBinary64? = some x := by
  have read := Numeral.numeral?_chars_append x.wellFormed_numeral .nothing
  rw [List.append_nil, Binary64.chars_numeral] at read
  rwa [Binary64.Survives, read] at h

/-- A literal that is read back: a double is finite and is itself read back. -/
def Literal.Survives (v : Literal) : Prop :=
  ∀ x, v = .float x → x.isFinite = true ∧ x.Survives

/-- A literal comes back as what it was. -/
theorem Literal.Survives.ofSource?_toJson {v : Literal} (h : v.Survives) :
    Literal.ofSource? v.toJson.source = some v := by
  cases v with
  | string s => rfl
  | integer n => rw [Literal.toJson, Json.source, Literal.ofSource?, Numeral.toInt64?_ofInt]
  | float x =>
    obtain ⟨finite, survives⟩ := h x rfl
    have fractional : x.numeral.toInt64? = none := by
      rw [Numeral.toInt64?, x.isWhole_numeral]
      rfl
    rw [Literal.toJson, Json.source, if_pos finite, Literal.ofSource?, fractional]
    exact congrArg (Option.map Literal.float) survives.toBinary64?_numeral
  | boolean b => rfl
  | null => rfl

/-- A literal can be kept at any depth. -/
theorem Literal.Survives.isKept_toJson {v : Literal} (h : v.Survives) (depth : Nat) :
    v.toJson.source.isKept depth = true := by
  cases v with
  | string s => rfl
  | integer n => exact Numeral.isSome_toBinary64?_ofInt n
  | float x =>
    obtain ⟨finite, survives⟩ := h x rfl
    rw [Literal.toJson, Json.source, if_pos finite, Source.isKept, survives.toBinary64?_numeral]
    rfl
  | boolean b => rfl
  | null => rfl

/-! ### Terms -/

theorem Comparator.ofName?_name (c : Comparator) : Comparator.ofName? c.name = some c := by
  cases c <;> decide

theorem Connective.ofKeyword?_keyword (c : Connective) : Connective.ofKeyword? c.keyword = some c := by
  cases c <;> decide

theorem mapM_text?_sources (texts : List String) :
    (Json.sources (texts.map .string)).mapM Source.text? = some texts := by
  rw [Json.sources_eq_map, List.map_map, List.mapM_map]
  exact (mapM_eq_some fun _ _ => rfl).trans (congrArg some (List.map_id' texts))

theorem areKept_sources_string (texts : List String) (depth : Nat) :
    Source.areKept depth (Json.sources (texts.map .string)) = true := by
  induction texts with
  | nil => rfl
  | cons text texts ih =>
    show (true && Source.areKept depth (Json.sources (texts.map .string))) = true
    rw [ih, Bool.true_and]

/-- The fields of a term after its tag. -/
def Term.jsonFields (t : Term) : List (String × Json) :=
  [("field", .array (t.field.segments.map .string)), ("comparator", .string t.comparator.name),
    ("value", t.value.toJson), ("negated", .bool t.negated)]

/-- A term is read back from its fields, without its place. -/
theorem Term.ofSource?_fields {t : Term} (h : t.value.Survives) :
    Term.ofSource? (Json.object t.jsonFields).source = some t.placeless := by
  have parts := @record?_object t.jsonFields ["span"] ["field", "comparator", "value", "negated", "span"]
    rfl (by decide)
  have comparator : (keptCaseName? (Json.string t.comparator.name).source).bind Comparator.ofName? =
    some t.comparator := t.comparator.ofName?_name
  have segments := mapM_text?_sources t.field.segments
  rw [Term.ofSource?, parts]
  simp only [Term.jsonFields, List.map_cons, List.map_nil, List.cons_append, List.nil_append,
    Option.bind_eq_bind, Option.bind_some, comparator, h.ofSource?_toJson]
  show ((Json.sources (t.field.segments.map .string)).mapM Source.text?).bind _ = _
  rw [segments]
  rfl

/-- A term can be kept where two more levels may be nested. -/
theorem Term.isKept_toJson {t : Term} (h : t.value.Survives) {depth : Nat} (deep : 2 ≤ depth) :
    t.toJson.source.isKept depth = true := by
  obtain ⟨depth, rfl⟩ := Nat.exists_eq_add_of_le' deep
  have value := h.isKept_toJson (depth + 1)
  have segments := areKept_sources_string t.field.segments depth
  simp [Term.toJson, Json.source, Json.fieldSources, Source.isKept, Source.fieldsKept, value, segments]

/-! ### Parts -/

/-- A part is taken apart into its tag and what else is written. -/
theorem tagged?_object (tag : String) {fields : List (String × Json)} (other : "type" ∉ fields.map Prod.fst) :
    tagged? (Json.object (("type", .string tag) :: fields)).source =
      some (.string (some tag), (Json.object fields).source) := by
  have names : ∀ field ∈ fieldSources fields, field.1 ≠ some "type" := by
    rw [fieldSources_eq_map]
    rintro field hf same
    obtain ⟨written, hw, rfl⟩ := List.mem_map.mp hf
    exact other (Option.some.inj same ▸ List.mem_map_of_mem hw)
  have rest : (fieldSources fields).filter (fun field => field.1 = some "type") = [] :=
    List.filter_eq_nil_iff.mpr fun field hf => by simpa using names field hf
  have kept : (fieldSources fields).filter (fun field => field.1 ≠ some "type") = fieldSources fields :=
    List.filter_eq_self.mpr fun field hf => by simpa using names field hf
  rw [Json.source, fieldSources, tagged?, Source.only?, List.filter_cons, List.filter_cons, rest, kept]
  rfl

/-- The fields of a group after its tag. -/
def Group.jsonFields (g : Group) : List (String × Json) :=
  [("connective", .string g.connective.keyword), ("children", .array (Node.toJsons g.children))]

/-- The connective and the parts of a group are found, by any rule that takes a text for a name. -/
theorem groupParts?_fields {name? : Source → Option String}
    (text : ∀ s : String, name? (.string (some s)) = some s) (g : Group) :
    groupParts? name? (Json.object g.jsonFields).source =
      some (g.connective, Json.sources (Node.toJsons g.children)) := by
  have parts := @record?_object g.jsonFields [] ["connective", "children"] rfl (by decide)
  have connective : (name? (Json.string g.connective.keyword).source).bind Connective.ofKeyword? =
      some g.connective := by
    rw [Json.source, text]
    exact g.connective.ofKeyword?_keyword
  rw [groupParts?, parts]
  simp only [Group.jsonFields, List.map_cons, List.map_nil, List.append_nil, Option.bind_eq_bind,
    Option.bind_some, connective]
  rfl

namespace Node

theorem ofSource?_term {t : Term} (h : t.value.Survives) (numbered : Bool) (depth : Nat) :
    Node.ofSource? numbered (depth + 1) t.toJson.source = some (.term t.placeless) := by
  have parts : tagged? t.toJson.source = some (.string (some "term"), (Json.object t.jsonFields).source) :=
    tagged?_object "term" (by simp)
  rw [Node.ofSource?, parts]
  show (Term.ofSource? (Json.object t.jsonFields).source).bind _ = _
  rw [Term.ofSource?_fields h]
  rfl

theorem ofSource?_group {c : Connective} {children read : List Node} {depth : Nat}
    (h : (Json.sources (toJsons children)).mapM (Node.ofSource? true depth) = some read) (numbered : Bool) :
    Node.ofSource? numbered (depth + 1) (Node.group c children).toJson.source = some (.group c read) := by
  let g : Group := ⟨c, children⟩
  have parts : tagged? (Node.group c children).toJson.source =
      some (.string (some "group"), (Json.object g.jsonFields).source) :=
    tagged?_object "group" (by simp)
  have group := @groupParts?_fields keptCaseName? (fun _ => rfl) g
  rw [Node.ofSource?, parts]
  show ((groupParts? keptCaseName? (Json.object g.jsonFields).source).bind _) = _
  rw [group]
  show ((Json.sources (toJsons children)).mapM (Node.ofSource? true depth)).bind _ = _
  rw [h]
  rfl

/-- Parts are read back one by one, each without its places. -/
theorem mapM_ofSource?_toJsons {nodes : List Node} (h : ∀ t ∈ allTerms nodes, t.value.Survives) :
    ∀ {depth : Nat} (numbered : Bool), Json.depths (toJsons nodes) ≤ depth →
      (Json.sources (toJsons nodes)).mapM (Node.ofSource? numbered depth) =
        some (mapAllTerms Term.placeless nodes) := by
  induction nodes using Node.induction with
  | nil => exact fun _ _ => rfl
  | term t nodes ih =>
    intro depth numbered deep
    rw [allTerms, List.forall_mem_append] at h
    rw [toJsons, Json.depths, toJson, Term.depth_toJson] at deep
    obtain ⟨depth, rfl⟩ : ∃ k, depth = k + 1 := ⟨depth - 1, by omega⟩
    have first := ofSource?_term (h.1 t List.mem_cons_self) numbered depth
    have rest := ih h.2 numbered (Nat.le_trans (Nat.le_max_right _ _) deep)
    rw [toJsons, Json.sources, List.mapM_cons, toJson, first, rest]
    rfl
  | group c children nodes ihChildren ih =>
    intro depth numbered deep
    rw [allTerms, List.forall_mem_append] at h
    rw [toJsons, Json.depths, depth_toJson_group] at deep
    obtain ⟨depth, rfl⟩ : ∃ k, depth = k + 1 := ⟨depth - 1, by omega⟩
    have first := @ofSource?_group c _ _ _ (@ihChildren h.1 depth true (by omega)) numbered
    have rest := ih h.2 numbered (Nat.le_trans (Nat.le_max_right _ _) deep)
    rw [toJsons, Json.sources, List.mapM_cons, first, rest]
    rfl

theorem isKept_group {c : Connective} {children : List Node} {depth : Nat}
    (h : Source.areKept depth (Json.sources (toJsons children)) = true) :
    (Node.group c children).toJson.source.isKept (depth + 2) = true := by
  simp [Node.toJson, Json.source, Json.fieldSources, Source.isKept, Source.fieldsKept, h]

/-- Parts that are not nested too deep can be kept in full. -/
theorem areKept_toJsons {nodes : List Node} (h : ∀ t ∈ allTerms nodes, t.value.Survives) :
    ∀ {depth : Nat}, Json.depths (toJsons nodes) ≤ depth →
      Source.areKept depth (Json.sources (toJsons nodes)) = true := by
  induction nodes using Node.induction with
  | nil => exact fun _ => rfl
  | term t nodes ih =>
    intro depth deep
    rw [allTerms, List.forall_mem_append] at h
    rw [toJsons, Json.depths, toJson, Term.depth_toJson] at deep
    have first := Term.isKept_toJson (h.1 t List.mem_cons_self) (Nat.le_trans (Nat.le_max_left _ _) deep)
    have rest := ih h.2 (Nat.le_trans (Nat.le_max_right _ _) deep)
    rw [toJsons, Json.sources, Source.areKept, toJson, first, rest]
    rfl
  | group c children nodes ihChildren ih =>
    intro depth deep
    rw [allTerms, List.forall_mem_append] at h
    rw [toJsons, Json.depths, depth_toJson_group] at deep
    obtain ⟨depth, rfl⟩ : ∃ k, depth = k + 2 := ⟨depth - 2, by omega⟩
    have first := @isKept_group c _ _ (ihChildren h.1 (by omega : _ ≤ depth))
    have rest := ih h.2 (Nat.le_trans (Nat.le_max_right _ _) deep)
    rw [toJsons, Json.sources, Source.areKept, first, rest]
    rfl

end Node

/-! ### Queries -/

theorem Group.depth_toJson (g : Group) : g.toJson.depth = Json.depths (Node.toJsons g.children) + 2 := by
  simp [Group.toJson, Json.depth, Json.fieldDepths]

/-- A query is read back from its JSON text, without the places of its terms, if its doubles are finite
and read back and the text is not nested too deep. -/
theorem Group.ofJsonText?_compact {g : Group}
    (finite : ∀ t ∈ g.terms, ∀ x, t.value = .float x → x.isFinite = true)
    (survives : ∀ t ∈ g.terms, ∀ x, t.value = .float x → x.Survives)
    (shallow : g.toJson.depth ≤ 127) :
    Group.ofJsonText? g.toJson.compact = some (g.mapTerms Term.placeless) := by
  have literals : ∀ t ∈ Node.allTerms g.children, t.value.Survives :=
    fun t ht x float => ⟨finite t ht x float, survives t ht x float⟩
  rw [Group.depth_toJson] at shallow
  have parts := @groupParts?_fields caseName? (fun _ => rfl) g
  have kept : Source.areKept (maxDepth - 2) (Json.sources (Node.toJsons g.children)) = true :=
    Node.areKept_toJsons literals (Nat.le_sub_of_add_le shallow)
  have children : (Json.sources (Node.toJsons g.children)).mapM (Node.ofSource? false maxDepth) = _ :=
    Node.mapM_ofSource?_toJsons literals false (Nat.le_trans (Nat.le_add_right _ 2) shallow)
  rw [Group.ofJsonText?, read?_compact]
  show ((groupParts? caseName? (Json.object g.jsonFields).source).bind _) = _
  rw [parts]
  show (if Source.areKept (maxDepth - 2) (Json.sources (Node.toJsons g.children)) = true then
    ((Json.sources (Node.toJsons g.children)).mapM (Node.ofSource? false maxDepth)).bind _ else none) = _
  rw [if_pos kept, children]
  rfl

/-- A tree with literals of every kind, a text that is spelt like a number, empty groups, a field without
a name, and terms that have a place. -/
theorem Group.ofJsonText?_compact_mixed :
    let digits : Term := ⟨⟨["a\"", ""]⟩, .eq, .string "12", true, ⟨3, 9, 1, 4⟩⟩
    let least : Term := ⟨⟨[]⟩, .lt, .integer Int64.minValue, false, .nowhere⟩
    let tenth : Term := ⟨⟨["é\n"]⟩, .ge, .float ⟨0x3FB999999999999A⟩, false, ⟨0, 7, 2, 1⟩⟩
    let absent : Term := ⟨⟨["x"]⟩, .eq, .null, false, .nowhere⟩
    let truth : Term := ⟨⟨["y"]⟩, .le, .boolean false, true, ⟨1, 2, 1, 2⟩⟩
    let g : Group := ⟨.or, [.term digits, .group .and [], .group .or [.term least,
      .group .and [.term tenth, .group .or [.term absent], .term truth]]]⟩
    g.toJson.depth = 10 ∧
      Group.ofJsonText? g.toJson.compact = some (g.mapTerms Term.placeless) ∧
      (g.mapTerms Term.placeless).terms.map Term.value =
        [.string "12", .integer Int64.minValue, .float ⟨0x3FB999999999999A⟩, .null, .boolean false] := by
  intro digits least tenth absent truth g
  have terms : g.terms = [digits, least, tenth, absent, truth] := rfl
  have float : ∀ t ∈ g.terms, ∀ x, t.value = .float x → x = ⟨0x3FB999999999999A⟩ := by
    rw [terms]
    simp only [List.forall_mem_cons]
    refine ⟨nofun, nofun, ?_, nofun, nofun, nofun⟩
    rintro x ⟨⟩
    rfl
  have depth : g.toJson.depth = 10 := by decide
  refine ⟨depth, Group.ofJsonText?_compact ?_ ?_ (by omega), rfl⟩
  · intro t ht x h
    rw [float t ht x h]
    decide
  · intro t ht x h
    rw [float t ht x h]
    decide +kernel

end SearchFilter
