import SearchFilter.Proofs.ConditionText
import SearchFilter.Proofs.Contents
import SearchFilter.Proofs.Run

/-!
# The text of a statement reads back as its names and placeholders

Names come unchecked from schemas and may hold quotes, blanks, parentheses or what looks like a
placeholder. The text of a statement is nevertheless taken apart where it was put together: its
quoted names are the names of the statement, in order, and its placeholders are counted from one,
as many as the statement has values. The text between names and values is the same for all
statements, so that it is enough that each piece of it closes its quotes and is kept apart from the
pieces around it (`Neat`); whole clauses are kept apart from what comes before them (`Clause`).
-/

namespace SearchFilter

/-! ### Names -/

namespace Piece

/-- The names among pieces, in order. -/
def names : List Piece → List String
  | [] => []
  | raw _ :: ps => names ps
  | name s :: ps => s :: names ps
  | bound _ :: ps => names ps

theorem names_solid (ps : List Piece) : names (solid ps) = names ps := by
  induction ps with
  | nil => rfl
  | cons x ps ih => cases x <;> simp [names, ih]

theorem names_map_piece (cs : List Content) :
    names (cs.map Content.piece) = cs.filterMap Content.name? := by
  induction cs with
  | nil => rfl
  | cons c cs ih => cases c <;> simp [names, Content.piece, Content.name?, List.filterMap_cons, ih]

end Piece

/-- The names of a statement, clause by clause. -/
def Select.names (s : Select) : List String := s.contents.filterMap Content.name?

theorem Select.names_pieces (d : Dialect) (s : Select) : Piece.names (s.pieces d) = s.names := by
  rw [← Piece.names_solid, s.solid_pieces d, Piece.names_map_piece]
  rfl

namespace SqlText

variable {d : Dialect}

/-! ### Names and placeholders among tokens -/

/-- The name, if the token is one. -/
def Token.name? : Token → Option String
  | name s => some s
  | _ => none

/-- The number that a placeholder shows, if any, if the token is one. -/
def Token.place? : Token → Option (Option Nat)
  | placeholder number => some number
  | _ => none

/-- What the placeholder of an index shows: its number counted from one, or nothing. -/
def shownNumber (d : Dialect) (index : Nat) : Option Nat :=
  match d with
  | .postgres => some (index + 1)
  | .mysql => none
  | .sqlite => none

theorem Token.of_isFixed {t : Token} (h : t.isFixed = true) : t.name? = none ∧ t.place? = none := by
  cases t with
  | name | placeholder | value => cases h
  | _ => exact ⟨rfl, rfl⟩

/-- Text that stands as it is holds neither names nor placeholders. -/
theorem filterMap_of_plain {s : String} (h : Plain d (.raw s)) (n : Nat) :
    (tokens d n (.raw s)).filterMap Token.name? = [] ∧
      (tokens d n (.raw s)).filterMap Token.place? = [] := by
  have fixed : ∀ t ∈ tokens d n (.raw s), t.isFixed = true := List.all_eq_true.mp h.2
  rw [List.filterMap_eq_nil_iff, List.filterMap_eq_nil_iff]
  exact ⟨fun t ht => (Token.of_isFixed (fixed t ht)).1, fun t ht => (Token.of_isFixed (fixed t ht)).2⟩

/-- The names in a text are those of its pieces. -/
theorem names_tokensFrom {ps : List Piece} (h : ∀ x ∈ ps, Plain d x) (n : Nat) :
    (tokensFrom d n ps).filterMap Token.name? = Piece.names ps := by
  induction ps generalizing n with
  | nil => rfl
  | cons x ps ih =>
    obtain ⟨plain, rest⟩ := List.forall_mem_cons.mp h
    rw [tokensFrom, List.filterMap_append, ih rest]
    cases x with
    | raw s => rw [(filterMap_of_plain plain n).1, List.nil_append, Piece.names]
    | name s => rw [tokens_name, Piece.names]; rfl
    | bound v => rw [tokens_bound, Piece.names]; rfl

/-- The placeholders in a text are counted from the number of values before it. -/
theorem places_tokensFrom {ps : List Piece} (h : ∀ x ∈ ps, Plain d x) (n : Nat) :
    (tokensFrom d n ps).filterMap Token.place? =
      (List.range (Piece.values ps).length).map fun i => shownNumber d (n + i) := by
  induction ps generalizing n with
  | nil => rfl
  | cons x ps ih =>
    obtain ⟨plain, rest⟩ := List.forall_mem_cons.mp h
    rw [tokensFrom, List.filterMap_append, ih rest]
    cases x with
    | raw s => rw [(filterMap_of_plain plain n).2, List.nil_append, Piece.values]; rfl
    | name s => rw [tokens_name, Piece.values]; rfl
    | bound v =>
      have number : (if d = .postgres then some (n + 1) else none) = shownNumber d n := by
        cases d <;> rfl
      have shifted : (fun i => shownNumber d (n + count (.bound v) + i)) =
          fun i => shownNumber d (n + (i + 1)) := by
        funext i
        rw [count, Nat.add_assoc, Nat.add_comm 1 i]
      rw [tokens_bound, number, Piece.values, List.length_cons, List.range_succ_eq_map, List.map_cons,
        List.map_map, shifted]
      rfl

/-- A text that can be read piece by piece reads back as the names of its pieces and as many
placeholders as they bind values. -/
theorem lex_contents {ps : List Piece} (h : Neat d ps) :
    ∃ ts, lex d (Piece.write d 0 ps) = some ts ∧ ts.filterMap Token.name? = Piece.names ps ∧
      ts.filterMap Token.place? = (List.range (Piece.values ps).length).map (shownNumber d) := by
  refine ⟨tokensFrom d 0 ps, lex_write h 0, names_tokensFrom h.plain 0, ?_⟩
  rw [places_tokensFrom h.plain 0]
  simp only [Nat.zero_add]

/-! ### Clauses -/

/-- Pieces that can be read one by one, and that nothing before them runs into. -/
structure Clause (d : Dialect) (ps : List Piece) : Prop where
  /-- They can be read one by one. -/
  neat : Neat d ps
  /-- They begin with text that is kept apart from what comes before. -/
  apart : ∀ x ∈ ps.head?, ∃ s, x = .raw s ∧ startsApart s = true

theorem Neat.nil : Neat d [] := ⟨nofun, .nil⟩

theorem Neat.append {xs ps : List Piece} (hx : Neat d xs) (h : Clause d ps) : Neat d (xs ++ ps) := by
  cases ps with
  | nil => rwa [List.append_nil]
  | cons x ps =>
    obtain ⟨s, rfl, apart⟩ := h.apart x rfl
    exact hx.append_raw apart h.neat

/-- Groups of pieces with commas between them. -/
theorem Neat.commaSeparated {groups : List (List Piece)} (h : ∀ ps ∈ groups, Neat d ps) :
    Neat d (Piece.commaSeparated groups) := by
  have comma : Separates d ", " [.comma] := by cases d <;> decide
  fun_induction Piece.commaSeparated groups with
  | case1 => exact .nil
  | case2 ps => exact h ps List.mem_cons_self
  | case3 ps rest _ ih =>
    obtain ⟨first, others⟩ := List.forall_mem_cons.mp h
    exact first.append_raw comma.2 ((ih others).raw_cons comma.1.1.1 comma.1.2)

namespace Clause

variable {s : String} {ps qs : List Piece} {us : List Token}

theorem nil : Clause d [] := ⟨.nil, nofun⟩

/-- A keyword with blanks around it, and what follows it. -/
theorem keyword (separates : Separates d s us) (h : Neat d ps) : Clause d (.raw s :: ps) := by
  refine ⟨h.raw_cons separates.1.1.1 separates.1.2, ?_⟩
  rintro x ⟨⟩
  exact ⟨s, rfl, separates.2⟩

theorem append (h : Clause d ps) (h' : Clause d qs) : Clause d (ps ++ qs) := by
  refine ⟨h.neat.append h', ?_⟩
  cases ps with
  | nil => exact h'.apart
  | cons x ps => exact h.apart

theorem flatMap {α : Type} {xs : List α} {f : α → List Piece} (h : ∀ x ∈ xs, Clause d (f x)) :
    Clause d (xs.flatMap f) := by
  induction xs with
  | nil => exact .nil
  | cons x xs ih =>
    obtain ⟨first, rest⟩ := List.forall_mem_cons.mp h
    rw [List.flatMap_cons]
    exact first.append (ih rest)

end Clause

/-! ### Parts of a statement -/

theorem neat_columnOf (table column : String) : Neat d ((Expr.columnOf table column).pieces d) :=
  (Spells.columnOf table column).neat

theorem neat_wildcard (table : String) : Neat d ((Expr.wildcard (some table)).pieces d) := by
  have dot : Separates d "." [.dot] := by cases d <;> decide
  have star : Fixed d "*" [.operator "*"] := by cases d <;> decide
  exact ((Spells.name table).separated dot (.raw star)).neat

/-- A table and its alias. -/
theorem neat_aliased (table tableAlias : String) :
    Neat d (TableSource.pieces ⟨⟨none, table⟩, some tableAlias⟩) := by
  have word : Separates d " AS " [.word "AS"] := by cases d <;> decide
  exact ((Spells.name table).separated word (.name tableAlias)).neat

theorem clause_join (j : Join) : Clause d ((Statement.joinClause j).pieces d) := by
  have join : Separates d " LEFT JOIN " [.word "LEFT", .word "JOIN"] := by cases d <;> decide
  have on : Separates d " ON " [.word "ON"] := by cases d <;> decide
  have eq : Separates d " = " [.operator "="] := by cases d <;> decide
  have condition := ((Spells.columnOf (d := d) j.targetAlias j.targetColumn).separated eq
    (.columnOf j.sourceAlias j.sourceColumn)).neat
  exact .keyword join ((neat_aliased j.targetTable j.targetAlias).append_raw on.2
    (condition.raw_cons on.1.1.1 on.1.2))

theorem neat_orderItem (table column : String) (direction : Option Direction) :
    Neat d (OrderItem.pieces d ⟨.columnOf table column, direction⟩) := by
  cases direction with
  | none =>
    rw [OrderItem.pieces, List.append_nil]
    exact neat_columnOf table column
  | some direction =>
    have word : Closes d (" " ++ direction.keyword) [.word direction.keyword] := by
      cases direction <;> cases d <;> decide
    exact ((Spells.columnOf table column).closed word).neat

theorem clause_paging {keyword : String} {us : List Token} (separates : Separates d keyword us)
    (n : Option UInt64) : Clause d (Select.clause d keyword (n.map Statement.pagingValue)) := by
  cases n with
  | none => exact .nil
  | some n => exact .keyword separates (Neat.singleton trivial)

/-- Conditions that hold nothing but predicates. -/
theorem clause_condition {s : Scope} (h : Expr.AreConditions s.conditions) :
    Clause d (Select.clause d " WHERE " (s.condition?.filter fun e => !e.isVacuous)) := by
  have word : Separates d " WHERE " [.word "WHERE"] := by cases d <;> decide
  rw [Scope.condition?]
  cases vacuous : Expr.areVacuous s.conditions with
  | true => exact .nil
  | false =>
    obtain ⟨f, -, ⟨ts, spells, -⟩, -⟩ := (Renders.ofConditions (d := d) s.conditions h).alone vacuous
    simp only [Bool.false_eq_true, if_false, Option.filter, Expr.isVacuous, vacuous, Bool.not_false,
      if_true]
    exact .keyword word spells.neat

theorem neat_columns (s : Statement) :
    Neat d (Piece.commaSeparated (s.build.columns.map (Expr.pieces d))) := by
  refine .commaSeparated fun ps hps => ?_
  obtain ⟨e, he, rfl⟩ := List.mem_map.mp hps
  rw [Statement.build] at he
  split at he
  · rw [List.mem_singleton.mp he]
    exact neat_wildcard s.rootAlias
  · obtain ⟨column, -, rfl⟩ := List.mem_map.mp he
    exact neat_columnOf s.rootAlias column

theorem clause_source (s : Statement) : Clause d (Select.sourcePieces s.build.source) := by
  have word : Separates d " FROM " [.word "FROM"] := by cases d <;> decide
  show Clause d (List.flatMap _ [_])
  rw [List.flatMap_singleton]
  exact .keyword word (neat_aliased s.table s.rootAlias)

theorem clause_joins (s : Statement) : Clause d (s.build.joins.flatMap (JoinClause.pieces d)) := by
  refine .flatMap fun clause hj => ?_
  obtain ⟨j, -, rfl⟩ := List.mem_map.mp hj
  exact clause_join j

theorem clause_order (s : Statement) : Clause d (Select.orderPieces d s.build.order) := by
  have words : Separates d " ORDER BY " [.word "ORDER", .word "BY"] := by cases d <;> decide
  have items : ∀ ps ∈ s.build.order.map (OrderItem.pieces d), Neat d ps := by
    intro ps hps
    obtain ⟨item, ho, rfl⟩ := List.mem_map.mp hps
    obtain ⟨⟨column, direction⟩, -, rfl⟩ := List.mem_map.mp ho
    exact neat_orderItem s.rootAlias column direction
  cases h : s.build.order with
  | nil => exact .nil
  | cons item rest =>
    rw [h] at items
    exact .keyword words (.commaSeparated items)

/-- A statement whose conditions are predicates can be read piece by piece. -/
theorem neat_build (s : Statement) (h : Expr.AreConditions s.scope.conditions) :
    Neat d (s.build.pieces d) := by
  have select : Opens d "SELECT " [.word "SELECT"] := by cases d <;> decide
  have limit : Separates d " LIMIT " [.word "LIMIT"] := by cases d <;> decide
  have offset : Separates d " OFFSET " [.word "OFFSET"] := by cases d <;> decide
  have start : Neat d (.raw "SELECT " :: _) := (neat_columns s).raw_cons select.1.1 select.2
  rw [Select.pieces_eq]
  exact (((((start.append (clause_source s)).append (clause_joins s)).append
    (clause_condition h)).append (clause_order s)).append (clause_paging limit s.limit)).append
      (clause_paging offset s.offset)

end SqlText

/-! ### Runs -/

namespace Expr

theorem areConditions_append {xs ys : List Link} (hx : AreConditions xs) (hy : AreConditions ys) :
    AreConditions (xs ++ ys) := by
  induction xs with
  | nil => exact hy
  | cons link xs ih =>
    obtain ⟨c, e⟩ := link
    exact ⟨hx.1, ih hx.2⟩

theorem PredicateOn.isCondition {table : String} {e : Expr} (h : e.PredicateOn table) :
    e.IsCondition := by
  cases e with
  | chain links => exact absurd rfl (h.ne_chain links)
  | _ => exact ⟨table, h⟩

end Expr

/-- The links of a query hold nothing but predicates. -/
theorem Setting.areConditions_links (setting : Setting) (joins : List Join) (nodes : List Node) :
    ∀ c n, Expr.AreConditions (setting.links joins c nodes n) := by
  induction nodes using Node.induction with
  | nil =>
    intro c n
    rw [links]
    trivial
  | term t nodes ih =>
    intro c n
    rw [links, nodeLinks, predicate?]
    refine Expr.areConditions_append ?_ (ih c _)
    cases setting.column? t.field with
    | none => trivial
    | some column => exact ⟨(predicateOn_predicate ..).isCondition, trivial⟩
  | group inner children nodes ihChildren ih =>
    intro c n
    rw [links, nodeLinks]
    exact Expr.areConditions_append ⟨ihChildren inner n, trivial⟩ (ih c _)

/-- Compiling a query adds nothing but predicates. -/
theorem Scope.areConditions_compile {s : Scope} (h : Expr.AreConditions s.conditions)
    (catalog : Catalog) (entity : Entity) (g : Group) :
    Expr.AreConditions (s.compile catalog entity g).1.conditions := by
  rw [compile_spec]
  dsimp only
  split
  · exact Setting.areConditions_links ..
  · exact Expr.areConditions_append h ⟨Setting.areConditions_links .., trivial⟩

/-- Whatever was done to a new statement and whatever names its tables, aliases and columns have, its
text reads back as tokens whose quoted names are the names of the statement, in order, and whose
placeholders are counted from one where they show a number, as many as the statement has values. -/
theorem Statement.run_lex (table rootAlias : String) (steps : List Step) (d : Dialect) :
    let s := (aliased table rootAlias).run steps
    ∃ ts, SqlText.lex d (s.render d).sql = some ts ∧
      ts.filterMap SqlText.Token.name? = s.build.names ∧
      ts.filterMap SqlText.Token.place? =
        (List.range (s.render d).values.length).map (SqlText.shownNumber d) := by
  intro s
  have conditions : Expr.AreConditions s.scope.conditions := by
    refine run_scope (P := fun scope => Expr.AreConditions scope.conditions) ?_ steps _ trivial
    exact fun scope catalog entity g h => Scope.areConditions_compile h catalog entity g
  obtain ⟨ts, lexed, names, places⟩ := SqlText.lex_contents (SqlText.neat_build s conditions)
  rw [Select.names_pieces] at names
  exact ⟨ts, lexed, names, places⟩

/-- A table whose name holds quotes and what looks like a placeholder. -/
example :
    let text := (((Statement.new "a\" = $1").limitedTo 5).render .postgres).sql
    text = "SELECT \"a\"\" = $1\".* FROM \"a\"\" = $1\" AS \"a\"\" = $1\" LIMIT $1" ∧
      SqlText.lex .postgres text = some [.word "SELECT", .name "a\" = $1", .dot, .operator "*",
        .word "FROM", .name "a\" = $1", .word "AS", .name "a\" = $1", .word "LIMIT",
        .placeholder (some 1)] := by
  decide

end SearchFilter
