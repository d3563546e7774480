import SearchFilter.Proofs.StatementText

/-!
# The clauses of a statement

The tokens of a statement are cut into clauses at the words that begin one, outside of all parentheses
(`cut`); a subquery inside a condition is thus no clause. What stands between these words is `Inert`,
whatever names and values it holds. So the clauses of a statement are those that its run asked for, each
once, and in the order of the grammar (`Statement.run_clauses`). Only its paging may be wrong: an offset is
written whether or not there is a limit, and not all dialects admit that (`Dialect.admits`).
-/

namespace SearchFilter

/-! ### Clauses of a text -/

/-- What a clause of a statement says. -/
inductive ClauseKind where
  /-- What is returned. -/
  | columns
  /-- The table rows come from. -/
  | source
  /-- A table joined to it. -/
  | join
  /-- Which rows are returned. -/
  | condition
  /-- In which order. -/
  | order
  /-- How many at most. -/
  | limit
  /-- How many are passed over. -/
  | offset
  deriving DecidableEq

/-- Links are vacuous if they hold no predicate. -/
theorem Expr.areVacuous_iff (links : List Link) : areVacuous links = true ↔ linkPredicates links = [] := by
  induction links using Link.induction with
  | nil => exact iff_of_true rfl rfl
  | leaf c e links he ih =>
    rw [areVacuous, linkPredicates, isVacuous_of_ne_chain he, predicates_of_ne_chain he]
    exact iff_of_false Bool.false_ne_true (List.cons_ne_nil _ _)
  | chain c inner links ihInner ih =>
    rw [areVacuous, linkPredicates, isVacuous, predicates, Bool.and_eq_true, ihInner, ih,
      List.append_eq_nil_iff]

namespace SqlText

/-- The clause that a word begins. -/
def Token.clause? : Token → Option ClauseKind
  | word "SELECT" => some .columns
  | word "FROM" => some .source
  | word "LEFT" => some .join
  | word "WHERE" => some .condition
  | word "ORDER" => some .order
  | word "LIMIT" => some .limit
  | word "OFFSET" => some .offset
  | _ => none

/-- Tokens inside so many parentheses cut at each word that begins a clause outside of all of them: what
stands before the first such word, and the clauses without their words. -/
def cut : Nat → List Token → List Token × List (ClauseKind × List Token)
  | _, [] => ([], [])
  | n, t :: ts =>
    match t.clause?, n with
    | some kind, 0 => ([], (kind, (cut 0 ts).1) :: (cut 0 ts).2)
    | _, n => (t :: (cut (Reader.depthAfter n t) ts).1, (cut (Reader.depthAfter n t) ts).2)

/-- Tokens that begin no clause and close the parentheses they open. -/
def Inert (ts : List Token) : Prop :=
  ∀ n rest, cut n (ts ++ rest) = (ts ++ (cut n rest).1, (cut n rest).2)

namespace Inert

variable {ts us : List Token}

theorem nil : Inert [] := fun _ _ => rfl

theorem append (h : Inert ts) (h' : Inert us) : Inert (ts ++ us) := by
  intro n rest
  rw [List.append_assoc, h, h', List.append_assoc]

theorem parenthesized (h : Inert ts) : Inert (.opening :: (ts ++ [.closing])) := by
  intro n rest
  have inside : cut (n + 1) (ts ++ .closing :: rest) =
      (ts ++ .closing :: (cut n rest).1, (cut n rest).2) := h (n + 1) (.closing :: rest)
  have opened : cut n (.opening :: (ts ++ .closing :: rest)) =
      (.opening :: (cut (n + 1) (ts ++ .closing :: rest)).1,
        (cut (n + 1) (ts ++ .closing :: rest)).2) := rfl
  rw [List.cons_append, List.append_assoc, List.singleton_append, opened, inside, List.cons_append,
    List.append_assoc]
  rfl

/-- Groups of tokens with commas between them. -/
theorem intercalate {groups : List (List Token)} (h : ∀ ts ∈ groups, Inert ts) :
    Inert ([.comma].intercalate groups) := by
  have comma : Inert [.comma] := fun _ _ => rfl
  induction groups with
  | nil => exact nil
  | cons ts groups ih =>
    obtain ⟨first, others⟩ := List.forall_mem_cons.mp h
    cases groups with
    | nil => simpa using first
    | cons us groups =>
      rw [List.intercalate_cons_cons, List.append_assoc]
      exact first.append (comma.append (ih others))

end Inert

/-! ### Predicates -/

variable {d : Dialect}

theorem suppliedAll_append (ps qs : List Piece) :
    suppliedAll d (ps ++ qs) = suppliedAll d ps ++ suppliedAll d qs := List.flatMap_append

theorem suppliedAll_raw_cons {s : String} {us : List Token} (fixed : Fixed d s us) (ps : List Piece) :
    suppliedAll d (.raw s :: ps) = us ++ suppliedAll d ps := by
  rw [← fixed.2]
  rfl

/-- Text that ends with an opening parenthesis, pieces, and the closing one. -/
theorem suppliedAll_enclosed {s : String} {us : List Token} (fixed : Fixed d s us) (ps : List Piece) :
    suppliedAll d (.raw s :: ps ++ [.raw ")"]) = us ++ (suppliedAll d ps ++ [.closing]) := by
  have closing : Fixed d ")" [.closing] := by cases d <;> decide
  rw [List.cons_append, suppliedAll_raw_cons fixed, suppliedAll_append, suppliedAll_raw_cons closing]
  rfl

/-- A predicate begins no clause. -/
theorem inert_predicate {table : String} {e : Expr} (h : e.PredicateOn table) :
    Inert (suppliedAll d (e.pieces d)) := by
  -- no name and no value matters here, so that each text is cut as it stands
  induction h with
  | compare column op b =>
    have symbol : Separates d (" " ++ op.symbol ++ " ") [.operator op.symbol] := by
      cases op <;> cases d <;> decide
    have spells := (Spells.columnOf table column).separated symbol (.bound b.value)
    rw [Expr.pieces, Expr.pieces, spells.tokens]
    exact fun _ _ => rfl
  | like column b =>
    have word : Separates d " LIKE " [.word "LIKE"] := by cases d <;> decide
    have pattern : Spells d ((Expr.param b).pieces d) [.value b.value] := .bound b.value
    have spells := (Spells.columnOf table column).lowered.separated word pattern.lowered
    rw [Expr.pieces, spells.tokens]
    exact fun _ _ => rfl
  | isNull column negated => cases negated <;> cases d <;> exact fun _ _ => rfl
  | arrayContains column b => cases d <;> exact fun _ _ => rfl
  | jsonContains column b => cases d <;> exact fun _ _ => rfl
  | not _ ih =>
    have opening : Fixed d "NOT (" [.word "NOT", .opening] := by cases d <;> decide
    have word : Inert [.word "NOT"] := fun _ _ => rfl
    rw [Expr.pieces, suppliedAll_enclosed opening]
    exact word.append ih.parenthesized

/-! ### Chains -/

theorem inert_parenthesized {ps : List Piece} (h : Inert (suppliedAll d ps)) :
    Inert (suppliedAll d (Piece.parenthesized ps)) := by
  have opening : Fixed d "(" [.opening] := by cases d <;> decide
  rw [Piece.parenthesized, suppliedAll_enclosed opening]
  exact h.parenthesized

theorem inert_connected {ps qs : List Piece} (h : Inert (suppliedAll d ps)) (c : Connective)
    (h' : Inert (suppliedAll d qs)) :
    Inert (suppliedAll d (ps ++ .raw (" " ++ c.keyword ++ " ") :: qs)) := by
  have keyword : Fixed d (" " ++ c.keyword ++ " ") [.word c.keyword] := by
    cases c <;> cases d <;> decide
  have word : Inert [.word c.keyword] := by
    cases c <;> exact fun _ _ => rfl
  rw [suppliedAll_append, suppliedAll_raw_cons keyword]
  exact h.append (word.append h')

theorem inert_attach {j : Piece.Joined} {c : Connective} {ps : List Piece}
    (h : Inert (suppliedAll d j.pieces)) (h' : Inert (suppliedAll d ps)) :
    Inert (suppliedAll d (j.attach (c, ps)).pieces) := by
  obtain ⟨pieces, last⟩ := j
  cases last with
  | none => exact inert_connected h c h'
  | some c' =>
    by_cases same : c' = c
    · simp only [Piece.Joined.attach, if_pos same]
      exact inert_connected h c h'
    · simp only [Piece.Joined.attach, if_neg same]
      exact inert_connected (inert_parenthesized h) c h'

theorem inert_foldl_attach (links : List (Connective × List Piece)) : ∀ {j : Piece.Joined},
    Inert (suppliedAll d j.pieces) → (∀ link ∈ links, Inert (suppliedAll d link.2)) →
      Inert (suppliedAll d (links.foldl Piece.Joined.attach j).pieces) := by
  induction links with
  | nil => exact fun hj _ => hj
  | cons link links ih =>
    intro j hj h
    obtain ⟨first, others⟩ := List.forall_mem_cons.mp h
    exact ih (inert_attach hj first) others

theorem inert_joined {links : List (Connective × List Piece)}
    (h : ∀ link ∈ links, Inert (suppliedAll d link.2)) :
    Inert (suppliedAll d (Piece.joined links)) := by
  cases links with
  | nil => exact .nil
  | cons link links =>
    obtain ⟨first, others⟩ := List.forall_mem_cons.mp h
    exact inert_foldl_attach links first others

theorem inert_linkPieces_cons {c : Connective} {e : Expr} {links : List Link}
    (h : Inert (suppliedAll d (e.pieces d)))
    (rest : ∀ link ∈ Expr.linkPieces d links, Inert (suppliedAll d link.2)) :
    ∀ link ∈ Expr.linkPieces d (⟨c, e⟩ :: links), Inert (suppliedAll d link.2) := by
  rw [Expr.linkPieces]
  split
  · exact rest
  · refine List.forall_mem_cons.mpr ⟨?_, rest⟩
    dsimp only
    split
    · exact inert_parenthesized h
    · exact h

/-- The conditions of a chain begin no clause. -/
theorem inert_linkPieces {links : List Link} (h : Expr.AreConditions links) :
    ∀ link ∈ Expr.linkPieces d links, Inert (suppliedAll d link.2) := by
  induction links using Link.induction with
  | nil =>
    rw [Expr.linkPieces]
    exact List.forall_mem_nil _
  | leaf c e links he ih =>
    obtain ⟨⟨table, predicate⟩, rest⟩ : (∃ table, e.PredicateOn table) ∧ Expr.AreConditions links := by
      cases e with
      | chain inner => exact absurd rfl (he inner)
      | _ => exact h
    exact inert_linkPieces_cons (inert_predicate predicate) (ih rest)
  | chain c inner links ihInner ih =>
    refine inert_linkPieces_cons ?_ (ih h.2)
    rw [Expr.pieces]
    exact inert_joined (ihInner h.1)

/-! ### Clauses of a statement -/

/-- A column of a table. -/
def columnTokens (table column : String) : List Token := [.name table, .dot, .name column]

/-- A table and its alias. -/
def sourceTokens (table tableAlias : String) : List Token := [.name table, .word "AS", .name tableAlias]

/-- What is returned: all columns of a table if none is named. -/
def selectedTokens (table : String) : List String → List Token
  | [] => [.name table, .dot, .operator "*"]
  | columns => [.comma].intercalate (columns.map (columnTokens table))

/-- A join, after the word that begins it. -/
def joinTokens (j : Join) : List Token :=
  .word "JOIN" :: sourceTokens j.targetTable j.targetAlias ++
    .word "ON" :: columnTokens j.targetAlias j.targetColumn ++
    .operator "=" :: columnTokens j.sourceAlias j.sourceColumn

/-- An ordering by one column. -/
def orderItemTokens (table : String) (item : String × Option Direction) : List Token :=
  columnTokens table item.1 ++ item.2.toList.map fun direction => .word direction.keyword

/-- An ordering by some columns, after the word that begins it. -/
def orderTokens (table : String) (ordering : List (String × Option Direction)) : List Token :=
  .word "BY" :: [.comma].intercalate (ordering.map (orderItemTokens table))

/-- A limit or an offset. -/
def pagingTokens (n : UInt64) : List Token := [.value (Statement.capped n)]

/-- The clauses of a statement in their order. What is returned, and from where, is always said. -/
def layout (columns source : List Token) (joins : List (List Token))
    (condition order limit offset : Option (List Token)) : List (ClauseKind × List Token) :=
  (.columns, columns) :: (.source, source) :: (joins.map (.join, ·) ++
    (condition.toList.map (.condition, ·) ++ (order.toList.map (.order, ·) ++
      (limit.toList.map (.limit, ·) ++ offset.toList.map (.offset, ·)))))

theorem inert_columnTokens (table column : String) : Inert (columnTokens table column) := fun _ _ => rfl

theorem inert_sourceTokens (table tableAlias : String) : Inert (sourceTokens table tableAlias) :=
  fun _ _ => rfl

theorem inert_selectedTokens (table : String) (columns : List String) :
    Inert (selectedTokens table columns) := by
  cases columns with
  | nil => exact fun _ _ => rfl
  | cons column columns =>
    refine .intercalate fun ts hts => ?_
    obtain ⟨column, -, rfl⟩ := List.mem_map.mp hts
    exact inert_columnTokens table column

theorem inert_orderTokens (table : String) (ordering : List (String × Option Direction)) :
    Inert (orderTokens table ordering) := by
  have word : Inert [.word "BY"] := fun _ _ => rfl
  refine word.append (.intercalate fun ts hts => ?_)
  obtain ⟨⟨column, direction⟩, -, rfl⟩ := List.mem_map.mp hts
  refine (inert_columnTokens table column).append ?_
  rcases direction with _ | (_ | _)
  · exact .nil
  · exact fun _ _ => rfl
  · exact fun _ _ => rfl

/-! ### Their text -/

theorem suppliedAll_commaSeparated (groups : List (List Piece)) :
    suppliedAll d (Piece.commaSeparated groups) = [.comma].intercalate (groups.map (suppliedAll d)) := by
  have comma : Fixed d ", " [.comma] := by cases d <;> decide
  fun_induction Piece.commaSeparated groups with
  | case1 => rfl
  | case2 ps => simp
  | case3 ps rest nonempty ih =>
    obtain ⟨qs, rest, rfl⟩ := List.exists_cons_of_ne_nil nonempty
    rw [suppliedAll_append, suppliedAll_raw_cons comma, ih, List.map_cons, List.map_cons, List.map_cons,
      List.intercalate_cons_cons, List.append_assoc]

theorem suppliedAll_columns (s : Statement) :
    suppliedAll d (.raw "SELECT " :: Piece.commaSeparated (s.build.columns.map (Expr.pieces d))) =
      .word "SELECT" :: selectedTokens s.rootAlias s.columns := by
  have select : Fixed d "SELECT " [.word "SELECT"] := by cases d <;> decide
  rw [suppliedAll_raw_cons select, suppliedAll_commaSeparated, Statement.build, List.map_map]
  cases s.columns with
  | nil => cases d <;> rfl
  | cons column columns =>
    have named : ∀ column, suppliedAll d ((Expr.columnOf s.rootAlias column).pieces d) =
        columnTokens s.rootAlias column := fun column => (Spells.columnOf s.rootAlias column).tokens
    simp only [List.isEmpty_cons, Bool.false_eq_true, if_false, List.map_map, Function.comp_def, named]
    rfl

theorem suppliedAll_source (s : Statement) :
    suppliedAll d (Select.sourcePieces s.build.source) =
      .word "FROM" :: sourceTokens s.table s.rootAlias := by
  have word : Fixed d " FROM " [.word "FROM"] := by cases d <;> decide
  have as : Separates d " AS " [.word "AS"] := by cases d <;> decide
  show suppliedAll d (List.flatMap _ [_]) = _
  rw [List.flatMap_singleton, suppliedAll_raw_cons word]
  exact congrArg _ ((Spells.name s.table).separated as (.name s.rootAlias)).tokens

theorem suppliedAll_join (j : Join) :
    suppliedAll d ((Statement.joinClause j).pieces d) = .word "LEFT" :: joinTokens j := by
  have words : Fixed d " LEFT JOIN " [.word "LEFT", .word "JOIN"] := by cases d <;> decide
  have on : Separates d " ON " [.word "ON"] := by cases d <;> decide
  have eq : Separates d " = " [.operator "="] := by cases d <;> decide
  have as : Separates d " AS " [.word "AS"] := by cases d <;> decide
  have condition := (Spells.columnOf (d := d) j.targetAlias j.targetColumn).separated eq
    (.columnOf j.sourceAlias j.sourceColumn)
  have body := ((Spells.name j.targetTable).separated as (.name j.targetAlias)).separated on condition
  rw [JoinClause.pieces, List.cons_append, suppliedAll_raw_cons words]
  exact congrArg _ body.tokens

theorem suppliedAll_orderItem (table column : String) (direction : Option Direction) :
    suppliedAll d (OrderItem.pieces d ⟨.columnOf table column, direction⟩) =
      orderItemTokens table (column, direction) := by
  cases direction with
  | none =>
    rw [OrderItem.pieces, List.append_nil]
    exact (Spells.columnOf table column).tokens
  | some direction =>
    have word : Closes d (" " ++ direction.keyword) [.word direction.keyword] := by
      cases direction <;> cases d <;> decide
    exact ((Spells.columnOf table column).closed word).tokens

theorem suppliedAll_order {s : Statement} (ordered : s.ordering ≠ []) :
    suppliedAll d (Select.orderPieces d s.build.order) =
      .word "ORDER" :: orderTokens s.rootAlias s.ordering := by
  have words : Fixed d " ORDER BY " [.word "ORDER", .word "BY"] := by cases d <;> decide
  have pieces : Select.orderPieces d s.build.order =
      .raw " ORDER BY " :: Piece.commaSeparated (s.build.order.map (OrderItem.pieces d)) := by
    have items : s.build.order ≠ [] := fun empty => ordered (List.map_eq_nil_iff.mp empty)
    obtain ⟨item, rest, split⟩ := List.exists_cons_of_ne_nil items
    rw [split]
    rfl
  have items : (s.build.order.map (OrderItem.pieces d)).map (suppliedAll d) =
      s.ordering.map (orderItemTokens s.rootAlias) := by
    simp only [Statement.build, List.map_map]
    exact List.map_congr_left fun item _ => suppliedAll_orderItem s.rootAlias item.1 item.2
  rw [pieces, suppliedAll_raw_cons words, suppliedAll_commaSeparated, items]
  rfl

/-- The tokens of a scope's condition, if it holds a predicate. -/
def conditionTokens? (d : Dialect) (s : Scope) : Option (List Token) :=
  s.condition?.map fun e => suppliedAll d (e.pieces d)

theorem conditionTokens?_eq_none_iff (s : Scope) :
    conditionTokens? d s = none ↔ Expr.linkPredicates s.conditions = [] := by
  rw [conditionTokens?, Option.map_eq_none_iff, Scope.condition?, ← Expr.areVacuous_iff]
  split
  · next vacuous => exact iff_of_true rfl vacuous
  · next holds => exact iff_of_false (Option.some_ne_none _) holds

/-- The tokens of a condition state it. -/
theorem whole_conditionTokens? {s : Scope} (h : Expr.AreConditions s.conditions) :
    ∀ ts ∈ conditionTokens? d s, ∃ f, Expr.valueFrom predicateFormula none s.conditions = some f ∧
      Whole d ts f := by
  intro ts hts
  rw [conditionTokens?, Scope.condition?] at hts
  split at hts
  · cases hts
  · next holds =>
    cases hts
    obtain ⟨f, value, ⟨us, spells, whole⟩, -⟩ :=
      (Renders.ofConditions (d := d) s.conditions h).alone (Bool.eq_false_iff.mpr holds)
    rw [← spells.tokens] at whole
    exact ⟨f, value, whole⟩

/-! ### Cutting a statement -/

section Cut

variable {ts : List Token} {clauses : List (ClauseKind × List Token)}

/-- A clause is cut from what comes after it. -/
theorem cut_clause {w : Token} {kind : ClauseKind} {body : List Token} (word : w.clause? = some kind)
    (h : Inert body) (rest : cut 0 ts = ([], clauses)) :
    cut 0 (w :: (body ++ ts)) = ([], (kind, body) :: clauses) := by
  simp only [cut, word, h 0 ts, rest, List.append_nil]

theorem cut_joins (joins : List Join) (rest : cut 0 ts = ([], clauses)) :
    cut 0 (suppliedAll d ((joins.map Statement.joinClause).flatMap (JoinClause.pieces d)) ++ ts) =
      ([], (joins.map joinTokens).map (.join, ·) ++ clauses) := by
  induction joins with
  | nil => exact rest
  | cons j joins ih =>
    rw [List.map_cons, List.flatMap_cons, suppliedAll_append, suppliedAll_join, List.append_assoc,
      List.cons_append]
    exact cut_clause rfl (fun _ _ => rfl) ih

theorem cut_condition {s : Scope} (h : Expr.AreConditions s.conditions) (rest : cut 0 ts = ([], clauses)) :
    cut 0 (suppliedAll d (Select.clause d " WHERE " (s.condition?.filter fun e => !e.isVacuous)) ++ ts) =
      ([], (conditionTokens? d s).toList.map (.condition, ·) ++ clauses) := by
  have word : Fixed d " WHERE " [.word "WHERE"] := by cases d <;> decide
  rw [conditionTokens?, Scope.condition?]
  cases vacuous : Expr.areVacuous s.conditions with
  | true => exact rest
  | false =>
    simp only [Bool.false_eq_true, if_false, Option.filter, Expr.isVacuous, vacuous, Bool.not_false,
      if_true]
    rw [Select.clause, suppliedAll_raw_cons word, List.append_assoc, Expr.pieces]
    exact cut_clause rfl (inert_joined (inert_linkPieces h)) rest

/-- The tokens of an ordering, if there is one. -/
def orderTokens? (table : String) (ordering : List (String × Option Direction)) : Option (List Token) :=
  if ordering = [] then none else some (orderTokens table ordering)

theorem cut_order (s : Statement) (rest : cut 0 ts = ([], clauses)) :
    cut 0 (suppliedAll d (Select.orderPieces d s.build.order) ++ ts) =
      ([], (orderTokens? s.rootAlias s.ordering).toList.map (.order, ·) ++ clauses) := by
  by_cases ordered : s.ordering = []
  · rw [orderTokens?, if_pos ordered, Statement.build, ordered]
    exact rest
  · rw [orderTokens?, if_neg ordered, suppliedAll_order ordered]
    exact cut_clause rfl (inert_orderTokens _ _) rest

/-- A limit or an offset is cut. -/
theorem cut_paging {keyword : String} {w : Token} {kind : ClauseKind} (fixed : Fixed d keyword [w])
    (word : w.clause? = some kind) (n : Option UInt64) (rest : cut 0 ts = ([], clauses)) :
    cut 0 (suppliedAll d (Select.clause d keyword (n.map Statement.pagingValue)) ++ ts) =
      ([], (n.map pagingTokens).toList.map (kind, ·) ++ clauses) := by
  cases n with
  | none => exact rest
  | some n =>
    rw [Option.map_some, Statement.pagingValue_eq, Select.clause, suppliedAll_raw_cons fixed]
    exact cut_clause word (fun _ _ => rfl) rest

end Cut

/-- A text that can be read piece by piece reads as the tokens of its pieces, with their values. -/
theorem tokensOf_ofPieces {ps : List Piece} (h : Neat d ps) :
    tokensOf d (.ofPieces d ps) = some (suppliedAll d ps) := by
  have supplied := supply_tokensFrom [] ps h.plain []
  rw [List.nil_append, List.append_nil] at supplied
  rw [← supplied, tokensOf, Rendered.ofPieces, lex_write h]
  rfl

/-- The clauses of a statement are cut from its text. -/
theorem cut_build (s : Statement) (h : Expr.AreConditions s.scope.conditions) :
    cut 0 (suppliedAll d (s.build.pieces d)) =
      ([], layout (selectedTokens s.rootAlias s.columns) (sourceTokens s.table s.rootAlias)
        (s.scope.joins.map joinTokens) (conditionTokens? d s.scope) (orderTokens? s.rootAlias s.ordering)
        (s.limit.map pagingTokens) (s.offset.map pagingTokens)) := by
  have limit : Fixed d " LIMIT " [.word "LIMIT"] := by cases d <;> decide
  have offset : Fixed d " OFFSET " [.word "OFFSET"] := by cases d <;> decide
  -- from the last clause to the first
  have paging := cut_paging limit rfl s.limit (cut_paging offset rfl s.offset (Eq.refl (cut 0 [])))
  have ordered := cut_order (d := d) s paging
  have conditioned := cut_condition (d := d) h ordered
  have joined := cut_joins (d := d) s.scope.joins conditioned
  have whole := cut_clause (w := .word "SELECT") rfl (inert_selectedTokens s.rootAlias s.columns)
    (cut_clause (w := .word "FROM") rfl (inert_sourceTokens s.table s.rootAlias) joined)
  rw [Select.pieces_eq]
  iterate 6 rw [suppliedAll_append]
  rw [suppliedAll_columns, suppliedAll_source]
  simp only [List.append_assoc, List.append_nil, List.cons_append] at whole ⊢
  exact whole

end SqlText

/-! ### Grammars -/

namespace Dialect

/-- The paging clauses that the grammar of a dialect admits. An offset may stand without a limit, or before
it, only in PostgreSQL; in the others it is a part of the limit. -/
def admitsPaging (d : Dialect) : List ClauseKind → Bool
  | [] | [.limit] | [.limit, .offset] => true
  | [.offset] | [.offset, .limit] => d = .postgres
  | _ => false

/-- The clauses that the grammar of a dialect admits, in their order. -/
def admits (d : Dialect) : List ClauseKind → Bool
  | .columns :: .source :: rest =>
    match rest.dropWhile (· = .join) with
    | .condition :: .order :: paging => d.admitsPaging paging
    | .condition :: paging => d.admitsPaging paging
    | .order :: paging => d.admitsPaging paging
    | paging => d.admitsPaging paging
  | _ => false

/-- The clauses of a statement are admitted unless an offset stands where it may not. -/
theorem admits_layout_iff (d : Dialect) (columns source : List SqlText.Token)
    (joins : List (List SqlText.Token)) (condition order limit offset : Option (List SqlText.Token)) :
    d.admits ((SqlText.layout columns source joins condition order limit offset).map Prod.fst) = true ↔
      d = .postgres ∨ offset = none ∨ limit ≠ none := by
  have joined (rest : List ClauseKind) : (joins.map (fun _ => ClauseKind.join) ++ rest).dropWhile
      (· = .join) = rest.dropWhile (· = .join) := by
    refine List.dropWhile_append_of_pos fun kind hk => ?_
    obtain ⟨j, -, rfl⟩ := List.mem_map.mp hk
    rfl
  simp only [SqlText.layout, List.map_cons, List.map_append, List.map_map, Function.comp_def, admits, joined]
  cases condition <;> cases order <;> cases limit <;> cases offset <;> simp [admitsPaging]

end Dialect

/-! ### Runs -/

namespace Step

/-- The columns that are named, if the step names any. -/
def columns? : Step → Option (List String)
  | returning columns => some columns
  | _ => none

/-- The column that orders the rows, if the step adds one. -/
def ordering? : Step → Option (String × Option Direction)
  | orderedBy column direction => some (column, direction)
  | _ => none

/-- The limit, if the step sets one. -/
def limit? : Step → Option UInt64
  | limitedTo n => some n
  | _ => none

/-- The offset, if the step sets one. -/
def offset? : Step → Option UInt64
  | startingAt n => some n
  | _ => none

/-- Something was set if one of the steps sets it. -/
theorem findSome?_reverse_eq_none_iff {f : Step → Option UInt64} {make : UInt64 → Step}
    (sets : ∀ step n, f step = some n ↔ step = make n) (steps : List Step) :
    steps.reverse.findSome? f = none ↔ ¬∃ n, make n ∈ steps := by
  rw [List.findSome?_eq_none_iff]
  constructor
  · rintro none ⟨n, made⟩
    have some := (sets (make n) n).mpr rfl
    rw [none _ (List.mem_reverse.mpr made)] at some
    cases some
  · intro missing step hs
    cases hf : f step with
    | none => rfl
    | some n => exact absurd ⟨n, (sets step n).mp hf ▸ List.mem_reverse.mp hs⟩ missing

theorem limit?_eq_none_iff (steps : List Step) :
    steps.reverse.findSome? limit? = none ↔ ¬∃ n, .limitedTo n ∈ steps := by
  refine findSome?_reverse_eq_none_iff (fun step n => ?_) steps
  cases step <;> simp [limit?]

theorem offset?_eq_none_iff (steps : List Step) :
    steps.reverse.findSome? offset? = none ↔ ¬∃ n, .startingAt n ∈ steps := by
  refine findSome?_reverse_eq_none_iff (fun step n => ?_) steps
  cases step <;> simp [offset?]

end Step

namespace Statement

/-- What a step sets, and what it leaves as it was. -/
theorem after_settings (s : Statement) (step : Step) :
    (s.after step).table = s.table ∧
      (s.after step).columns = step.columns?.getD s.columns ∧
      (s.after step).ordering = s.ordering ++ step.ordering?.toList ∧
      (s.after step).limit = step.limit?.or s.limit ∧
      (s.after step).offset = step.offset?.or s.offset := by
  cases step with
  | filter catalog entity text =>
    have unordered : s.ordering = s.ordering ++ [] := (List.append_nil _).symm
    rw [after]
    split
    · next t applied =>
      obtain ⟨g, found, -, -, rfl⟩ := (applyFilter_eq_ok_iff ..).mp applied
      exact ⟨rfl, rfl, unordered, rfl, rfl⟩
    · exact ⟨rfl, rfl, unordered, rfl, rfl⟩
  | orderedBy column direction => exact ⟨rfl, rfl, rfl, rfl, rfl⟩
  | _ => exact ⟨rfl, rfl, (List.append_nil _).symm, rfl, rfl⟩

/-- What a run sets: all orderings count, but only the last columns, limit and offset. -/
theorem run_settings (table rootAlias : String) (steps : List Step) :
    let s := (aliased table rootAlias).run steps
    s.table = table ∧ s.columns = (steps.reverse.findSome? Step.columns?).getD [] ∧
      s.ordering = steps.filterMap Step.ordering? ∧ s.limit = steps.reverse.findSome? Step.limit? ∧
      s.offset = steps.reverse.findSome? Step.offset? := by
  induction steps using List.reverseRecOn with
  | nil => exact ⟨rfl, rfl, rfl, rfl, rfl⟩
  | append_singleton steps step ih =>
    intro s
    have last : s = ((aliased table rootAlias).run steps).after step := List.foldl_concat ..
    have latest {α : Type} (f : Step → Option α) : (steps ++ [step]).reverse.findSome? f =
        (f step).or (steps.reverse.findSome? f) := by
      rw [List.reverse_concat, List.findSome?_cons]
      cases f step <;> rfl
    have newest : [step].filterMap Step.ordering? = step.ordering?.toList := by
      cases h : step.ordering? <;> simp [h]
    obtain ⟨sameTable, columns, ordering, limit, offset⟩ :=
      after_settings ((aliased table rootAlias).run steps) step
    rw [last, sameTable, columns, ordering, limit, offset, ih.1, ih.2.1, ih.2.2.1, ih.2.2.2.1,
      ih.2.2.2.2, latest, latest, latest, List.filterMap_append, newest]
    refine ⟨rfl, ?_, rfl, rfl, rfl⟩
    cases step.columns? <;> rfl

/-- Whatever was done to a new statement, its text is a SELECT of the columns that were named last, FROM
the table with its alias, a LEFT JOIN for each join in the order they were registered, a WHERE if a
predicate was emitted, which states the conditions, an ORDER BY if a column orders the rows, a LIMIT
and an OFFSET if they were set, each with the value that was set last. The grammar of the dialect
admits this unless the dialect is not PostgreSQL and an offset was set but no limit. -/
theorem run_clauses (table rootAlias : String) (steps : List Step) (d : Dialect) :
    let s := (aliased table rootAlias).run steps
    ∃ ts condition, SqlText.tokensOf d (s.render d) = some ts ∧
      SqlText.cut 0 ts = ([], SqlText.layout
        (SqlText.selectedTokens rootAlias ((steps.reverse.findSome? Step.columns?).getD []))
        (SqlText.sourceTokens table rootAlias) (s.scope.joins.map SqlText.joinTokens) condition
        (SqlText.orderTokens? rootAlias (steps.filterMap Step.ordering?))
        ((steps.reverse.findSome? Step.limit?).map SqlText.pagingTokens)
        ((steps.reverse.findSome? Step.offset?).map SqlText.pagingTokens)) ∧
      (condition = none ↔ Expr.linkPredicates s.scope.conditions = []) ∧
      (∀ c ∈ condition, ∃ f, Expr.valueFrom SqlText.predicateFormula none s.scope.conditions = some f ∧
        SqlText.Whole d c f) ∧
      (d.admits ((SqlText.cut 0 ts).2.map Prod.fst) = true ↔
        d = .postgres ∨ ((∃ n, .startingAt n ∈ steps) → ∃ n, .limitedTo n ∈ steps)) := by
  intro s
  obtain ⟨root, conditions⟩ : s.rootAlias = rootAlias ∧ Expr.AreConditions s.scope.conditions := by
    refine run_scope (P := fun scope => scope.rootAlias = rootAlias ∧ Expr.AreConditions scope.conditions)
      ?_ steps _ ⟨rfl, trivial⟩
    rintro scope catalog entity g ⟨root, conditions⟩
    refine ⟨?_, Scope.areConditions_compile conditions catalog entity g⟩
    rw [scope.compile_spec catalog entity g]
    exact root
  obtain ⟨sameTable, columns, ordering, limit, offset⟩ := run_settings table rootAlias steps
  have cut := SqlText.cut_build (d := d) s conditions
  rw [root, sameTable, columns, ordering, limit, offset] at cut
  refine ⟨_, SqlText.conditionTokens? d s.scope,
    SqlText.tokensOf_ofPieces (SqlText.neat_build s conditions), cut,
    SqlText.conditionTokens?_eq_none_iff s.scope, SqlText.whole_conditionTokens? conditions, ?_⟩
  rw [cut, Dialect.admits_layout_iff, Option.map_eq_none_iff, ne_eq, Option.map_eq_none_iff,
    Step.limit?_eq_none_iff, Step.offset?_eq_none_iff, not_not, imp_iff_not_or]

/-- In MySQL and SQLite no offset may stand alone, but a statement can be made to have one. -/
theorem run_offset_alone :
    let s := (new "users").run [.startingAt 5]
    let kinds (d : Dialect) :=
      (SqlText.tokensOf d (s.render d)).map fun ts => (SqlText.cut 0 ts).2.map Prod.fst
    (s.render .mysql).sql = "SELECT `users`.* FROM `users` AS `users` OFFSET ?" ∧
      (s.render .sqlite).sql = "SELECT \"users\".* FROM \"users\" AS \"users\" OFFSET ?" ∧
      kinds .mysql = some [.columns, .source, .offset] ∧ kinds .sqlite = some [.columns, .source, .offset] ∧
      Dialect.admits .mysql [.columns, .source, .offset] = false ∧
      Dialect.admits .sqlite [.columns, .source, .offset] = false := by
  decide +kernel

end Statement

end SearchFilter
