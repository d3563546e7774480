import SearchFilter.Query.Tree

/-!
# Notices

What happens while a filter is applied and is worth telling, though it is no error.
-/

namespace SearchFilter

/-- Something worth telling. -/
inductive Notice where
  /-- A text was read as a query of so many terms. -/
  | queryRead (text : String) (terms : Nat)
  /-- A text is being applied to an entity. -/
  | filterApplied (text entity : String)
  /-- The field of a term is not known, and the term is left out. -/
  | fieldUnknown (t : Term)
  /-- The field of a term is not known on the related entity, and the term is left out. -/
  | relatedFieldUnknown (t : Term)
  /-- A relation was followed before. -/
  | joinReused (source property tableAlias : String)
  /-- A relation is followed for the first time. -/
  | joinPlanned (source property table tableAlias : String)
  /-- A join was asked for that is there already. -/
  | joinRepeated (source property : String)

/-- The wording of a notice. -/
def Notice.message : Notice → String
  | queryRead text terms =>
    "Parsed filter \x60" ++ text ++ "\x60 into " ++ String.ofList (Digits.ofNat terms) ++ " term(s)"
  | filterApplied text entity =>
    "Applying filter \x60" ++ text ++ "\x60 to entity '" ++ entity ++ "'"
  | fieldUnknown t =>
    "Skipping unknown field '" ++ t.field.text ++ "' in \x60" ++ t.text ++ "\x60"
  | relatedFieldUnknown t =>
    "Skipping unresolved relation field '" ++ t.field.text ++ "' in \x60" ++ t.text ++ "\x60"
  | joinReused source property tableAlias =>
    "Reusing join " ++ source ++ "." ++ property ++ " as '" ++ tableAlias ++ "'"
  | joinPlanned source property table tableAlias =>
    "Joining " ++ source ++ "." ++ property ++ " to '" ++ table ++ "' as '" ++ tableAlias ++ "'"
  | joinRepeated source property => "Join " ++ source ++ "." ++ property ++ " already registered"

end SearchFilter
