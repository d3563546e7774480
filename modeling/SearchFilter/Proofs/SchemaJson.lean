import SearchFilter.Proofs.JsonText
import SearchFilter.Schema.File

/-!
# Schemas in JSON

A schema is read back from its own JSON text, with every name, flag and relation it has. What is left out
is written as `null` and read as left out; what has a default is always written, so that the default
never stands for anything else.
-/

namespace SearchFilter

open Document Json

/-! ### Parts -/

/-- A text that may be left out is read back. -/
theorem Document.optional?_ofString? (s : Option String) :
    optional? text? (some (Json.ofString? s).source) = some s := by
  cases s <;> rfl

/-- A part that may be left out is read back, if it is read back where it is given and is never
`null`. -/
theorem Document.optional?_getD {β : Type} {read? : Source → Option β} {write : β → Json}
    (read : ∀ x, read? (write x).source = some x) (present : ∀ x, (write x).source.isNull = false)
    (part : Option β) : optional? read? (some ((part.map write).getD .null).source) = some part := by
  cases part with
  | none => rfl
  | some x =>
    show (do if ← some (write x).source.isNull then some none else (read? (write x).source).map some) = _
    rw [present, read]
    rfl

/-- A list of parts is read back, if each part is. -/
theorem Document.list?_array {β : Type} {read? : Source → Option β} {write : β → Json}
    (read : ∀ x, read? (write x).source = some x) (parts : List β) :
    list? read? (Json.array (parts.map write)).source = some parts := by
  show ((Json.array (parts.map write)).source.items.bind fun items => items.mapM read?) = _
  rw [Json.source, Json.sources_eq_map, List.map_map]
  show (parts.map (source ∘ write)).mapM read? = some parts
  rw [List.mapM_map]
  exact (mapM_eq_some fun x _ => read x).trans (congrArg some (List.map_id' parts))

/-- The parts of a record that is written with all of its fields, in order. -/
theorem fieldsOf?_object {shapes : List (String × Shape)} {fields : List (String × Json)}
    (names : fields.map Prod.fst = shapes.map Prod.fst) (distinct : (shapes.map Prod.fst).Nodup) :
    fieldsOf? shapes (Json.object fields).source = some (fields.map fun field => some field.2.source) := by
  have parts := record?_object [] ((List.append_nil _).trans names) distinct
  rwa [List.map_nil, List.append_nil] at parts

/-! ### Definitions -/

theorem RelationDefinition.ofDocument?_toJson (r : RelationDefinition) :
    RelationDefinition.ofDocument? r.toJson.source = some r := by
  rw [RelationDefinition.ofDocument?, RelationDefinition.toJson, fieldsOf?_object]
  · rfl
  · rfl
  · decide

theorem ColumnDefinition.ofDocument?_toJson (c : ColumnDefinition) :
    ColumnDefinition.ofDocument? c.toJson.source = some c := by
  have relation := optional?_getD RelationDefinition.ofDocument?_toJson (fun _ => rfl) c.relation
  rw [ColumnDefinition.ofDocument?, ColumnDefinition.toJson, fieldsOf?_object]
  · simp only [List.map_cons, List.map_nil, Option.bind_eq_bind, Option.bind_some, optional?_ofString?,
      relation]
    rfl
  · rfl
  · decide

theorem EntityDefinition.ofDocument?_toJson (e : EntityDefinition) :
    EntityDefinition.ofDocument? e.toJson.source = some e := by
  have columns := list?_array ColumnDefinition.ofDocument?_toJson e.columns
  rw [EntityDefinition.ofDocument?, EntityDefinition.toJson, fieldsOf?_object]
  · simp only [List.map_cons, List.map_nil, Option.bind_eq_bind, Option.bind_some, optional?_ofString?,
      default?, columns]
    rfl
  · rfl
  · decide

theorem Definition.ofDocument?_toJson (d : Definition) :
    Definition.ofDocument? d.toJson.source = some d := by
  have entities := list?_array EntityDefinition.ofDocument?_toJson d.entities
  rw [Definition.ofDocument?, Definition.toJson, fieldsOf?_object]
  · simp only [List.map_cons, List.map_nil, Option.bind_eq_bind, Option.bind_some, entities]
    rfl
  · rfl
  · decide

/-- A schema is read back from its JSON text, and the text makes the same catalog as the schema. -/
theorem Definition.read_compact (d : Definition) :
    Definition.read .json d.toJson.compact = .ok d ∧
      Catalog.ofJsonText? d.toJson.compact = some (Catalog.ofDefinition d) := by
  have text : Definition.ofJsonText? d.toJson.compact = some d := by
    rw [Definition.ofJsonText?, read?_compact]
    exact Definition.ofDocument?_toJson d
  constructor
  · rw [Definition.read, Definition.ofText?, text]
  · rw [Catalog.ofJsonText?, text]
    rfl

end SearchFilter
