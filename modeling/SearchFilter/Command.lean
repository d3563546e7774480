import SearchFilter.Query.JsonForm
import SearchFilter.Report
import SearchFilter.Schema.File

/-!
# Commands

What can be asked for on the command line: to write a filter as SQL, to show the tree of a filter,
and to show the entities of a schema. Arguments are read before anything is run.
-/

namespace SearchFilter

/-- A filter to be written as SQL. -/
structure RenderRequest where
  /-- The path of the schema file. -/
  schema : String
  /-- The entity the filter is about. -/
  entity : String
  /-- The filter. -/
  query : String
  /-- The name of the dialect. -/
  dialect : String
  /-- How many rows at most. -/
  limit : Option UInt64
  /-- How many rows are passed over. -/
  offset : Option UInt64
  /-- The report is JSON. -/
  json : Bool
  deriving DecidableEq

/-- What is asked for. -/
inductive Command where
  /-- A filter as SQL. -/
  | render (request : RenderRequest)
  /-- The tree of a filter. -/
  | tree (query : String)
  /-- The entities of a schema. -/
  | schema (path : String)
  /-- The version of the program. -/
  | version
  deriving DecidableEq

/-! ### Arguments -/

/-- An option: its name after two hyphens, and its value after an equals sign if there is one. -/
def longOption? (arg : String) : Option (String × Option String) :=
  match arg.toList with
  | '-' :: '-' :: cs =>
    let name := String.ofList (cs.takeWhile (· ≠ '='))
    match cs.dropWhile (· ≠ '=') with
    | [] => some (name, none)
    | _ :: value => some (name, some (String.ofList value))
  | _ => none

/-- An argument that cannot be the value of the option before it: it starts with a hyphen and is
more than that. -/
def looksLikeOption (arg : String) : Bool :=
  match arg.toList with
  | '-' :: _ :: _ => true
  | _ => false

/-- The options of a command with their values, in order; a switch has the empty value. Nothing else
is accepted, but two hyphens may stand at the end. -/
def options? (valued switches : List String) : List String → Option (List (String × String))
  | [] => some []
  | ["--"] => some []
  | arg :: args => do
    match ← longOption? arg with
    | (name, some value) =>
      if name ∈ valued then return (name, value) :: (← options? valued switches args) else none
    | (name, none) =>
      if name ∈ switches then return (name, "") :: (← options? valued switches args)
      else if name ∈ valued then
        match args with
        | value :: args =>
          if looksLikeOption value then none
          else return (name, value) :: (← options? valued switches args)
        | [] => none
      else none

/-- The options of a command, each given once at most. -/
def distinctOptions? (valued switches args : List String) : Option (List (String × String)) :=
  (options? valued switches args).filter fun found => (found.map (·.1)).Nodup

/-- A number of 64 bits in decimal digits, after a plus sign or none. -/
def readUInt64? (text : String) : Option UInt64 :=
  match readSign text.toList with
  | (true, _) => none
  | (false, ds) =>
    let n := Digits.toNat ds
    if ds ≠ [] ∧ ds.all Char.isDigit ∧ n < UInt64.size then some (UInt64.ofNat n) else none

/-- The number an option gives, if it is given. -/
def optionNumber? (found : List (String × String)) (name : String) : Option (Option UInt64) :=
  match found.lookup name with
  | some text => (readUInt64? text).map some
  | none => some none

/-- The dialect that is meant if none is named. -/
def RenderRequest.defaultDialect : String := "postgres"

/-- The options of a request that have a value. -/
def RenderRequest.valuedOptions : List String :=
  ["schema", "entity", "query", "dialect", "limit", "offset"]

/-- The request that arguments make. -/
def RenderRequest.ofArgs? (args : List String) : Option RenderRequest := do
  let found ← distinctOptions? valuedOptions ["json"] args
  let limit ← optionNumber? found "limit"
  let offset ← optionNumber? found "offset"
  some
    { schema := ← found.lookup "schema"
      entity := ← found.lookup "entity"
      query := ← found.lookup "query"
      dialect := (found.lookup "dialect").getD defaultDialect
      limit := limit
      offset := offset
      json := (found.lookup "json").isSome }

/-- The value of the only option of a command. -/
def onlyOption? (name : String) (args : List String) : Option String := do
  (← distinctOptions? [name] [] args).lookup name

/-- An argument that asks for the version. -/
def asksForVersion (arg : String) : Bool := arg = "--version" || "-V".toList.isPrefixOf arg.toList

/-- The command that arguments make. -/
def Command.ofArgs? : List String → Option Command
  | [] => none
  | first :: args =>
    if asksForVersion first then some version
    else if first = "render" then (RenderRequest.ofArgs? args).map render
    else if first = "ast" then (onlyOption? "query" args).map tree
    else if first = "schema" then (onlyOption? "schema" args).map schema
    else none

/-! ### Running -/

/-- Why a command fails. -/
inductive CommandError where
  /-- The schema file is refused. -/
  | file (error : FileError)
  /-- The filter cannot be applied. -/
  | filter (error : FilterError)
  /-- The filter cannot be read. -/
  | unreadable (error : SyntaxError)
  /-- There is no such dialect. -/
  | unknownDialect (name : String)
  deriving DecidableEq

/-- The wording of a failure. -/
def CommandError.message : CommandError → String
  | file error => error.message
  | filter error => "Failed to compile the filter: " ++ error.message
  | unreadable error => "Failed to parse the filter expression: " ++ error.message
  | unknownDialect name => "Unknown SQL dialect: " ++ name

/-- The report that is asked for. The file is judged first, then the dialect, the entity and the
filter. -/
def RenderRequest.run (r : RenderRequest) (file : Option String) : Except CommandError String := do
  let catalog ← (Catalog.load r.schema file).mapError .file
  let some dialect := Dialect.ofName? r.dialect | .error (.unknownDialect r.dialect)
  let some entity := catalog.entity? r.entity | .error (.filter (.unknownEntity r.entity))
  let (applied, _) := (Statement.new entity.table).applyFilter catalog r.entity r.query
  let statement := { ← applied.mapError .filter with limit := r.limit, offset := r.offset }
  .ok (if r.json then statement.jsonReport dialect else statement.textReport dialect)

namespace Command

/-- The file that a command reads. -/
def file? : Command → Option String
  | render request => some request.schema
  | schema path => some path
  | tree _ => none
  | version => none

/-- What a command prints, given the text of the file it reads if that can be read. -/
def run (command : Command) (file : Option String) : Except CommandError String :=
  match command with
  | render request => request.run file
  | tree query =>
    match Group.read query with
    | .ok g => .ok g.toJson.pretty
    | .error error => .error (.unreadable error)
  | schema path =>
    match Catalog.load path file with
    | .ok catalog => .ok catalog.toJson.pretty
    | .error error => .error (.file error)
  | version => .ok "sift 0.1.0"

end Command

/-! ### The program -/

/-- How the program ends. -/
inductive Outcome where
  /-- A line, or several, printed. -/
  | printed (text : String)
  /-- A command that failed. -/
  | failed (error : CommandError)
  /-- Arguments that make no command. -/
  | misused
  deriving DecidableEq

namespace Outcome

/-- The exit code. -/
def exitCode : Outcome → Nat
  | printed _ => 0
  | failed _ => 1
  | misused => 2

/-- What is printed. -/
def output : Outcome → String
  | printed text => text ++ "\n"
  | _ => ""

/-- The outcome of a command. -/
def ofResult : Except CommandError String → Outcome
  | .ok text => printed text
  | .error error => failed error

end Outcome

end SearchFilter
