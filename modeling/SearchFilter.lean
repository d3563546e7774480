import SearchFilter.Command
import SearchFilter.Condition.Compile
import SearchFilter.Condition.Field
import SearchFilter.Condition.Notice
import SearchFilter.Condition.Predicate
import SearchFilter.Condition.Scope
import SearchFilter.Connective
import SearchFilter.Json.Basic
import SearchFilter.Json.Source
import SearchFilter.Main
import SearchFilter.Number.Binary64
import SearchFilter.Number.Decimal
import SearchFilter.Number.Shortest
import SearchFilter.Proofs.Aliases
import SearchFilter.Proofs.BareWords
import SearchFilter.Proofs.ByteOrder
import SearchFilter.Proofs.Calls
import SearchFilter.Proofs.Clauses
import SearchFilter.Proofs.ConditionReader
import SearchFilter.Proofs.ConditionText
import SearchFilter.Proofs.Conjunction
import SearchFilter.Proofs.Contents
import SearchFilter.Proofs.Derivations
import SearchFilter.Proofs.Emission
import SearchFilter.Proofs.Fields
import SearchFilter.Proofs.Grammar
import SearchFilter.Proofs.InPlace
import SearchFilter.Proofs.Joins
import SearchFilter.Proofs.JsonText
import SearchFilter.Proofs.Keys
import SearchFilter.Proofs.Layout
import SearchFilter.Proofs.Lexemes
import SearchFilter.Proofs.Lexing
import SearchFilter.Proofs.Literals
import SearchFilter.Proofs.Matching
import SearchFilter.Proofs.Meaning
import SearchFilter.Proofs.Negation
import SearchFilter.Proofs.Nesting
import SearchFilter.Proofs.NumberRange
import SearchFilter.Proofs.NumberedNames
import SearchFilter.Proofs.Numerals
import SearchFilter.Proofs.Overflow
import SearchFilter.Proofs.Precedence
import SearchFilter.Proofs.Printing
import SearchFilter.Proofs.Resolution
import SearchFilter.Proofs.Rounding
import SearchFilter.Proofs.Run
import SearchFilter.Proofs.SchemaJson
import SearchFilter.Proofs.SearchedWords
import SearchFilter.Proofs.Shape
import SearchFilter.Proofs.ShortestDecimals
import SearchFilter.Proofs.Spans
import SearchFilter.Proofs.SqlText
import SearchFilter.Proofs.StatementText
import SearchFilter.Proofs.TermChanges
import SearchFilter.Proofs.TermText
import SearchFilter.Proofs.TextSearch
import SearchFilter.Proofs.TreeJson
import SearchFilter.Proofs.TreeMeaning
import SearchFilter.Proofs.TypeNames
import SearchFilter.Proofs.UnknownFields
import SearchFilter.Proofs.Validity
import SearchFilter.Query.Derivation
import SearchFilter.Query.Error
import SearchFilter.Query.JsonForm
import SearchFilter.Query.Literal
import SearchFilter.Query.Matcher
import SearchFilter.Query.Reading
import SearchFilter.Query.Term
import SearchFilter.Query.Tree
import SearchFilter.Report
import SearchFilter.Schema.Catalog
import SearchFilter.Schema.Definition
import SearchFilter.Schema.Entity
import SearchFilter.Schema.File
import SearchFilter.Schema.ScalarType
import SearchFilter.Sql.Dialect
import SearchFilter.Sql.Expr
import SearchFilter.Sql.Select
import SearchFilter.Sql.Value
import SearchFilter.Statement
import SearchFilter.Text.Blank
import SearchFilter.Text.CaseData
import SearchFilter.Text.Casing
import SearchFilter.Yaml.Node
import SearchFilter.Yaml.Place
import SearchFilter.Yaml.Scalar
import SearchFilter.Yaml.Tag
import SearchFilter.Yaml.Token
