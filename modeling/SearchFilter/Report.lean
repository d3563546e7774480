import SearchFilter.Statement

/-!
# Reports

A statement as it is shown: as SQL text with its values below, or as JSON.
-/

namespace SearchFilter

/-- The values with their placeholders, a line each. -/
def valueLines (d : Dialect) : Nat → List Value → String
  | _, [] => ""
  | n, v :: vs => "\n  " ++ d.placeholder n ++ " = " ++ v.shown ++ valueLines d (n + 1) vs

/-- The SQL text, and its values below. -/
def Statement.textReport (s : Statement) (d : Dialect) : String :=
  let rendered := s.render d
  rendered.sql ++ valueLines d 0 rendered.values

/-- A join as JSON, its fields in alphabetical order. -/
def Join.toJson (j : Join) : Json := .object
  [("relation_property", .string j.property), ("source_alias", .string j.sourceAlias),
    ("source_column", .string j.sourceColumn), ("target_alias", .string j.targetAlias),
    ("target_column", .string j.targetColumn), ("target_table", .string j.targetTable)]

/-- A keyed value as JSON. -/
def Binding.toJson (b : Binding) : Json := .object
  [("key", .string b.key), ("value", b.value.toJson)]

/-- The statement as indented JSON, all fields in alphabetical order. -/
def Statement.jsonReport (s : Statement) (d : Dialect) : String :=
  let rendered := s.render d
  Json.pretty (.object
    [("bindings", .array (s.scope.bindings.map Binding.toJson)), ("dialect", .string d.name),
      ("joins", .array (s.scope.joins.map Join.toJson)),
      ("params", .array (rendered.values.map Value.toJson)), ("sql", .string rendered.sql)])

end SearchFilter
