import SearchFilter.Proofs.Keys
import SearchFilter.Proofs.StatementText
import SearchFilter.Proofs.TermChanges

/-!
# Literals never reach the text

Two queries that differ in nothing but the literals of their terms give statements with the same text:
what a user searches for is only ever passed on as a value. The reason is that the text is written
from pieces in which values are blank (`write_blank`), that an expression is turned into pieces
without looking at its values (`pieces_blanked`), and that a query with blank literals compiles to the
same expression, up to values (`blanked_links`). The values themselves stand where the terms are, so
that a term with the same literal in both queries is run with the same value.
-/

namespace SearchFilter

/-! ### Blank values -/

namespace Expr

mutual

/-- An expression with all its values blank. -/
def blanked : Expr → Expr
  | value _ => value .null
  | param b => param ⟨b.key, .null⟩
  | compare left op right => compare left.blanked op right.blanked
  | call name args => call name (argsBlanked args)
  | like subject pattern => like subject.blanked pattern.blanked
  | isNull subject negated => isNull subject.blanked negated
  | not e => not e.blanked
  | arrayContains array element => arrayContains array.blanked element.blanked
  | jsonContains target candidate => jsonContains target.blanked candidate.blanked
  | chain links => chain (linksBlanked links)
  | ident qualifier name => ident qualifier name
  | wildcard qualifier => wildcard qualifier

/-- Arguments with all their values blank. -/
def argsBlanked : List Expr → List Expr
  | [] => []
  | arg :: args => arg.blanked :: argsBlanked args

/-- Links with all their values blank. -/
def linksBlanked : List Link → List Link
  | [] => []
  | ⟨c, e⟩ :: links => ⟨c, e.blanked⟩ :: linksBlanked links

end

theorem argsBlanked_eq (args : List Expr) : argsBlanked args = args.map blanked := by
  induction args with
  | nil => rfl
  | cons arg args ih => rw [argsBlanked, ih, List.map_cons]

theorem linksBlanked_eq (links : List Link) : linksBlanked links = links.map (Link.mapExpr blanked) := by
  induction links with
  | nil => rfl
  | cons link links ih =>
    obtain ⟨c, e⟩ := link
    rw [linksBlanked, ih, List.map_cons]
    rfl

theorem areVacuous_linksBlanked (links : List Link) :
    areVacuous (linksBlanked links) = areVacuous links := by
  induction links using Link.induction with
  | nil => rfl
  | leaf c e links he ih =>
    have leaf : ∀ inner, e.blanked ≠ .chain inner := by
      cases e with
      | chain inner => exact absurd rfl (he inner)
      | _ => exact nofun
    rw [linksBlanked, areVacuous, areVacuous, ih, isVacuous_of_ne_chain he, isVacuous_of_ne_chain leaf]
  | chain c inner links ihInner ih =>
    rw [linksBlanked, areVacuous, areVacuous, ih, blanked, isVacuous, isVacuous, ihInner]

theorem isVacuous_blanked (e : Expr) : e.blanked.isVacuous = e.isVacuous := by
  cases e with
  | chain links => exact areVacuous_linksBlanked links
  | _ => rfl

theorem isCompound_blanked (e : Expr) : e.blanked.isCompound = e.isCompound := by
  cases e with
  | chain links =>
    have same : (fun link : Link => !link.expr.isVacuous) ∘ Link.mapExpr blanked =
        fun link => !link.expr.isVacuous := by
      funext link
      simp only [Function.comp_apply, Link.mapExpr, isVacuous_blanked]
    rw [blanked, isCompound, isCompound, surviving, surviving, linksBlanked_eq, List.filter_map,
      List.length_map, same]
  | _ => rfl

end Expr

namespace Piece

/-- A piece with its value blank. -/
def blank : Piece → Piece
  | raw s => raw s
  | name s => name s
  | bound _ => bound .null

/-- The text of pieces does not depend on their values. -/
theorem write_blank (d : Dialect) (ps : List Piece) (n : Nat) :
    write d n (ps.map blank) = write d n ps := by
  induction ps generalizing n with
  | nil => rfl
  | cons x ps ih => cases x <;> simp only [List.map_cons, blank, write, ih]

theorem map_blank_parenthesized (ps : List Piece) :
    (parenthesized ps).map blank = parenthesized (ps.map blank) := by
  simp [parenthesized, blank]

theorem map_blank_commaSeparated (groups : List (List Piece)) :
    (commaSeparated groups).map blank = commaSeparated (groups.map (List.map blank)) := by
  fun_induction commaSeparated groups with
  | case1 => rfl
  | case2 ps => rfl
  | case3 ps rest more ih =>
    cases rest with
    | nil => exact absurd rfl more
    | cons qs rest => simp [commaSeparated, blank, ih]

/-- What has been written of a chain, with all values blank. -/
def Joined.blank (j : Joined) : Joined := ⟨j.pieces.map Piece.blank, j.last⟩

theorem Joined.blank_attach (j : Joined) (link : Connective × List Piece) :
    (j.attach link).blank = j.blank.attach (link.1, link.2.map Piece.blank) := by
  obtain ⟨pieces, last⟩ := j
  cases last with
  | none => simp [Joined.blank, Joined.attach, Piece.blank]
  | some c =>
    by_cases h : c = link.1 <;>
      simp [Joined.blank, Joined.attach, Piece.blank, h, map_blank_parenthesized]

theorem map_blank_joined (links : List (Connective × List Piece)) :
    (joined links).map blank = joined (links.map fun link => (link.1, link.2.map blank)) := by
  have attached : ∀ (links : List (Connective × List Piece)) (j : Joined),
      (links.foldl Joined.attach j).blank =
        (links.map fun link => (link.1, link.2.map blank)).foldl Joined.attach j.blank := by
    intro links
    induction links with
    | nil => exact fun j => rfl
    | cons link links ih =>
      intro j
      rw [List.foldl_cons, ih, Joined.blank_attach, List.map_cons, List.foldl_cons]
  cases links with
  | nil => rfl
  | cons link links => exact congrArg Joined.pieces (attached links ⟨link.2, none⟩)

end Piece

namespace Expr

theorem linkPieces_blanked (d : Dialect) (links : List Link)
    (h : ∀ link ∈ links, link.expr.blanked.pieces d = (link.expr.pieces d).map Piece.blank) :
    linkPieces d (linksBlanked links) =
      (linkPieces d links).map fun link => (link.1, link.2.map Piece.blank) := by
  induction links with
  | nil => rfl
  | cons link links ih =>
    obtain ⟨c, e⟩ := link
    obtain ⟨first, rest⟩ := List.forall_mem_cons.mp h
    rw [linksBlanked, linkPieces, linkPieces, isVacuous_blanked, isCompound_blanked, ih rest, first]
    cases e.isVacuous with
    | true => rfl
    | false => cases e.isCompound <;> simp [Piece.map_blank_parenthesized]

/-- An expression is turned into pieces without looking at its values. -/
theorem pieces_blanked (d : Dialect) (e : Expr) :
    e.blanked.pieces d = (e.pieces d).map Piece.blank := by
  induction e using Expr.induction with
  | ident qualifier name => cases qualifier <;> rfl
  | wildcard qualifier => cases qualifier <;> rfl
  | value v => rfl
  | param b => rfl
  | compare left op right ihLeft ihRight => simp [blanked, pieces, ihLeft, ihRight, Piece.blank]
  | call name args ih =>
    have mapped : args.map (pieces d ∘ blanked) = args.map (List.map Piece.blank ∘ pieces d) :=
      List.map_congr_left ih
    simp only [blanked, pieces, argsBlanked_eq, argPieces_eq, List.map_cons, List.map_append,
      Piece.map_blank_commaSeparated, List.map_map, mapped]
    rfl
  | like subject pattern ihSubject ihPattern =>
    simp [blanked, pieces, ihSubject, ihPattern, Piece.blank]
  | isNull subject negated ih => simp [blanked, pieces, ih, Piece.blank]
  | not e ih => simp [blanked, pieces, ih, Piece.blank]
  | arrayContains array element ihArray ihElement =>
    cases d <;> simp [blanked, pieces, Dialect.arrayContains, ihArray, ihElement, Piece.blank]
  | jsonContains target candidate ihTarget ihCandidate =>
    cases d <;> simp [blanked, pieces, Dialect.jsonContains, ihTarget, ihCandidate, Piece.blank]
  | chain links ih =>
    rw [blanked, pieces, pieces, linkPieces_blanked d links ih, Piece.map_blank_joined]

end Expr

/-! ### Statements with blank values -/

/-- A scope with all values of its conditions blank. -/
def Scope.blanked (s : Scope) : Scope := { s with conditions := Expr.linksBlanked s.conditions }

theorem Scope.map_blank_condition (s : Scope) (d : Dialect) :
    (Select.clause d " WHERE " (s.condition?.filter fun e => !e.isVacuous)).map Piece.blank =
      Select.clause d " WHERE " (s.blanked.condition?.filter fun e => !e.isVacuous) := by
  unfold condition? Scope.blanked
  rw [Expr.areVacuous_linksBlanked]
  cases vacuous : Expr.areVacuous s.conditions with
  | true => rfl
  | false =>
    have written := Expr.pieces_blanked d (.chain s.conditions)
    rw [Expr.blanked] at written
    simp [Option.filter, Expr.isVacuous, Expr.areVacuous_linksBlanked, vacuous, Select.clause, written,
      Piece.blank]

namespace Statement

/-- A statement with all values of its conditions blank. -/
def blanked (s : Statement) : Statement := { s with scope := s.scope.blanked }

/-- The text of a statement does not depend on the values of its conditions. -/
theorem sql_blanked (s : Statement) (d : Dialect) : (s.blanked.render d).sql = (s.render d).sql := by
  have idempotent : Piece.blank ∘ Piece.blank = Piece.blank := by
    funext x
    cases x <;> rfl
  have condition : (Select.clause d " WHERE " (s.blanked.build.condition.filter
      fun e => !e.isVacuous)).map Piece.blank =
        (Select.clause d " WHERE " (s.build.condition.filter fun e => !e.isVacuous)).map Piece.blank := by
    show (Select.clause d " WHERE " (s.scope.blanked.condition?.filter
      fun e => !e.isVacuous)).map Piece.blank = _
    rw [← Scope.map_blank_condition, List.map_map, idempotent]
    rfl
  show Piece.write d 0 (s.blanked.build.pieces d) = Piece.write d 0 (s.build.pieces d)
  rw [← Piece.write_blank d (s.blanked.build.pieces d), ← Piece.write_blank d (s.build.pieces d),
    Select.pieces_eq, Select.pieces_eq]
  simp only [List.map_append, condition]
  rfl

end Statement

/-! ### Queries with blank literals -/

/-- A term of which just the field, the comparator, the negation and whether it has a value are
kept. -/
def Term.outline (t : Term) : Term :=
  { t with value := if t.value.isNull then .null else .boolean true, span := .nowhere }

/-- A query whose literals are blank, except that it can be told which of them are `null`. -/
def Group.outline (g : Group) : Group := g.mapTerms Term.outline

theorem Term.isNull_outline (t : Term) : t.outline.value.isNull = t.value.isNull := by
  unfold outline
  cases h : t.value.isNull <;> rfl

theorem Term.keeps_outline : Term.Keeps outline := ⟨fun _ => rfl, isNull_outline⟩

theorem comparison_blanked (target : Expr) (category : Category) (comparator : Comparator) (key : String)
    (v w : Value) : (comparison target category comparator key v).blanked =
      (comparison target category comparator key w).blanked := by
  unfold comparison
  split <;> rfl

/-- The predicates of a term and of its outline differ in nothing but values. -/
theorem Term.predicate_outline (t : Term) (tableAlias column : String) (category : Category) (n : Nat) :
    (t.outline.predicate tableAlias column category n).blanked =
      (t.predicate tableAlias column category n).blanked := by
  unfold predicate
  rw [isNull_outline]
  cases t.value.isNull with
  | true => rfl
  | false =>
    have same := comparison_blanked (.columnOf tableAlias column) category t.comparator
      (parameterKey (n + 1)) (.ofLiteral t.outline.value) (.ofLiteral t.value)
    show (if t.negated then _ else _ : Expr).blanked = (if t.negated then _ else _ : Expr).blanked
    cases t.negated with
    | true => exact congrArg Expr.not same
    | false => exact same

/-- A query and its outline are compiled to the same scope, up to values. -/
theorem Scope.compile_outline (s : Scope) (catalog : Catalog) (entity : Entity) (g : Group) :
    (s.compile catalog entity g.outline).1.blanked = (s.compile catalog entity g).1.blanked := by
  let setting : Setting := ⟨catalog, entity, s.rootAlias⟩
  have terms : g.outline.terms = g.terms.map Term.outline := Node.allTerms_mapAllTerms ..
  have links : ∀ joins, Expr.linksBlanked
      (setting.links joins g.outline.connective g.outline.children s.bound) =
        Expr.linksBlanked (setting.links joins g.connective g.children s.bound) := by
    intro joins
    rw [Expr.linksBlanked_eq, Expr.linksBlanked_eq]
    refine setting.links_mapTerms Term.keeps_outline ?_ Term.predicate_outline joins g.children _ _
    intro links
    rw [Expr.blanked, Expr.linksBlanked_eq]
  rw [compile_spec, compile_spec, terms, setting.followAll_map Term.keeps_outline,
    setting.keyCount_map Term.keeps_outline]
  unfold blanked
  dsimp only
  congr 1
  split
  · exact links _
  · rw [Expr.linksBlanked_eq, Expr.linksBlanked_eq, List.map_append, List.map_append]
    congr 1
    simp only [List.map_cons, List.map_nil, Link.mapExpr, Expr.blanked]
    rw [links]

/-! ### Values of a query -/

/-- The value of a predicate has a key. -/
theorem Expr.PredicateOn.keyed {table : String} {e : Expr} (h : e.PredicateOn table) :
    ∀ l ∈ e.leaves, l.key.isSome = true := by
  induction h with
  | not _ ih => exact ih
  | isNull column negated => exact nofun
  | _ => exact List.forall_mem_cons.mpr ⟨rfl, nofun⟩

/-- All values of predicates have keys. -/
theorem Expr.keyed_of_areConditions (links : List Link) :
    AreConditions links → ∀ l ∈ (chain links).leaves, l.key.isSome = true := by
  have cons : ∀ c e links, (chain (⟨c, e⟩ :: links)).leaves = e.leaves ++ (chain links).leaves :=
    fun c e links => List.filterMap_append
  induction links using Link.induction with
  | nil => exact fun _ => nofun
  | leaf c e links he ih =>
    intro h
    obtain ⟨⟨table, predicate⟩, rest⟩ : (∃ table, e.PredicateOn table) ∧ AreConditions links := by
      cases e with
      | chain inner => exact absurd rfl (he inner)
      | _ => exact h
    rw [cons, List.forall_mem_append]
    exact ⟨predicate.keyed, ih rest⟩
  | chain c inner links ihInner ih =>
    intro h
    rw [cons, List.forall_mem_append]
    exact ⟨ihInner h.1, ih h.2⟩

theorem values_keyedBindings (terms : List (Term × Column)) (n : Nat) :
    (keyedBindings terms n).map Binding.value =
      terms.map fun (t, column) => t.boundValue column.category := by
  refine List.ext_getElem (by simp [keyedBindings]) fun i _ _ => ?_
  simp [keyedBindings]

/-- The links of a query hold the values of its terms, in order. -/
theorem Setting.values_links (setting : Setting) (joins : List Join) (c : Connective)
    (nodes : List Node) (n : Nat) :
    (Expr.chain (setting.links joins c nodes n)).leaves.map Leaf.value =
      (setting.keyed (Node.allTerms nodes)).map fun (t, column) => t.boundValue column.category := by
  rw [Leaf.map_value_eq (Expr.keyed_of_areConditions _ (setting.areConditions_links joins nodes c n)),
    ← Expr.bindings_eq, Expr.bindings, setting.bindings_links, values_keyedBindings]

/-- Terms with the same outline and the same literal bind the same value. -/
theorem Term.boundValue_eq {t t' : Term} (outline : t.outline = t'.outline) (literal : t.value = t'.value)
    (category : Category) : t.boundValue category = t'.boundValue category := by
  have comparator : t.comparator = t'.comparator := congrArg (fun t => t.comparator) outline
  unfold boundValue
  rw [comparator, literal]

/-- Queries with the same outline bind the values of corresponding terms on the same columns. -/
theorem Scope.boundTerms_outline (s : Scope) (catalog : Catalog) (entity : Entity) {g g' : Group}
    (same : g.outline = g'.outline) :
    List.Forall₂ (fun p p' => p.1.outline = p'.1.outline ∧ p.2 = p'.2)
      (s.boundTerms catalog entity g.terms) (s.boundTerms catalog entity g'.terms) := by
  have terms : g.terms.map Term.outline = g'.terms.map Term.outline := by
    have same := congrArg Group.terms same
    simpa only [Group.terms, Group.outline, Group.mapTerms, Node.allTerms_mapAllTerms] using same
  have outlines : (s.boundTerms catalog entity g.terms).map (Prod.map Term.outline id) =
      (s.boundTerms catalog entity g'.terms).map (Prod.map Term.outline id) := by
    rw [boundTerms_eq, boundTerms_eq, ← Setting.keyed_map _ Term.keeps_outline, terms,
      Setting.keyed_map _ Term.keeps_outline]
  have equal : List.Forall₂ (fun p p' => Prod.map Term.outline id p = Prod.map Term.outline id p')
      (s.boundTerms catalog entity g.terms) (s.boundTerms catalog entity g'.terms) := by
    rw [← List.forall₂_map_right_iff, ← List.forall₂_map_left_iff, outlines]
    exact List.forall₂_refl _
  exact equal.imp fun p p' pair => Prod.mk.inj pair

namespace Statement

/-- The statement with a query compiled into its scope. -/
def compiled (s : Statement) (catalog : Catalog) (entity : Entity) (g : Group) : Statement :=
  { s with scope := (s.scope.compile catalog entity g).1 }

/-- After a query was compiled into it, a statement has the values of its earlier conditions, those of
the query's terms, in order, and its limit and offset. -/
theorem values_compiled (s : Statement) (catalog : Catalog) (entity : Entity) (g : Group)
    (d : Dialect) :
    ((s.compiled catalog entity g).render d).values =
      (Expr.chain s.scope.conditions).leaves.map Leaf.value ++
        (s.scope.boundTerms catalog entity g.terms).map
          (fun (t, column) => t.boundValue column.category) ++
        (s.limit.toList ++ s.offset.toList).map capped := by
  let setting : Setting := ⟨catalog, entity, s.scope.rootAlias⟩
  let links := setting.links (setting.followAll s.scope.joins g.terms) g.connective g.children
    s.scope.bound
  have leaves : (Expr.chain (s.scope.compile catalog entity g).1.conditions).leaves =
      (Expr.chain s.scope.conditions).leaves ++ (Expr.chain links).leaves := by
    rw [Scope.compile_spec]
    cases hs : s.scope.isEmpty with
    | true =>
      rw [List.isEmpty_iff.mp hs]
      rfl
    | false =>
      show (Expr.linkContents (s.scope.conditions ++ [⟨.and, .chain links⟩])).filterMap _ = _
      rw [Expr.linkContents_eq, List.flatMap_append, List.filterMap_append, ← Expr.linkContents_eq,
        List.flatMap_singleton]
      rfl
  show Piece.values ((s.compiled catalog entity g).build.pieces d) = _
  rw [← Piece.values_solid, Select.solid_pieces, Piece.values_map_piece, leaves_build, List.map_append]
  show (Expr.chain (s.scope.compile catalog entity g).1.conditions).leaves.map Leaf.value ++ _ = _
  rw [leaves, List.map_append, setting.values_links, Scope.boundTerms_eq, List.map_map]
  rfl

/-- Compile two queries into one statement that have the same shape, connectives, fields, comparators
and negations, and literals of which corresponding ones are both `null` or both not. The joins, the keys
and the text are then the same in every dialect. The values are those of earlier conditions, of the
terms, and of limit and offset; corresponding terms are compared with the same column, and have the
same value if they have the same literal. -/
theorem literals_stay_out (s : Statement) (catalog : Catalog) (entity : Entity) (g g' : Group)
    (same : g.outline = g'.outline) (d : Dialect) :
    let done := s.compiled catalog entity g
    let done' := s.compiled catalog entity g'
    let terms := s.scope.boundTerms catalog entity g.terms
    let terms' := s.scope.boundTerms catalog entity g'.terms
    let earlier := (Expr.chain s.scope.conditions).leaves.map Leaf.value
    let paging := (s.limit.toList ++ s.offset.toList).map capped
    let bound : Term × Column → Value := fun (t, column) => t.boundValue column.category
    done.scope.joins = done'.scope.joins ∧
      done.scope.bindings.map Binding.key = done'.scope.bindings.map Binding.key ∧
      (done.render d).sql = (done'.render d).sql ∧
      (done.render d).values.length = (done'.render d).values.length ∧
      (done.render d).values = earlier ++ terms.map bound ++ paging ∧
      (done'.render d).values = earlier ++ terms'.map bound ++ paging ∧
      List.Forall₂ (fun p p' => p.1.outline = p'.1.outline ∧ p.2 = p'.2 ∧
        (p.1.value = p'.1.value → bound p = bound p')) terms terms' := by
  intro done done' terms terms' earlier paging bound
  have scope : done.scope.blanked = done'.scope.blanked := by
    show (s.scope.compile catalog entity g).1.blanked = (s.scope.compile catalog entity g').1.blanked
    rw [← Scope.compile_outline, same, Scope.compile_outline]
  have corresponding := s.scope.boundTerms_outline catalog entity same
  have count : terms.length = terms'.length := corresponding.length_eq
  have values : (done.render d).values = earlier ++ terms.map bound ++ paging :=
    s.values_compiled catalog entity g d
  have values' : (done'.render d).values = earlier ++ terms'.map bound ++ paging :=
    s.values_compiled catalog entity g' d
  refine ⟨congrArg (fun scope => scope.joins) scope, ?_, ?_, ?_, values, values',
    corresponding.imp ?_⟩
  · show (s.scope.compile catalog entity g).1.bindings.map Binding.key =
      (s.scope.compile catalog entity g').1.bindings.map Binding.key
    rw [Scope.bindings_compile, Scope.bindings_compile, List.map_append, List.map_append,
      keys_keyedBindings, keys_keyedBindings, count]
  · have blank : done.blanked = done'.blanked := congrArg (fun scope => { s with scope := scope }) scope
    rw [← sql_blanked, blank, sql_blanked]
  · rw [values, values']
    simp only [List.length_append, List.length_map, count]
  · rintro ⟨t, column⟩ ⟨t', column'⟩ ⟨outline, columns⟩
    refine ⟨outline, columns, fun literal => ?_⟩
    cases columns
    exact Term.boundValue_eq outline literal column.category

/-- A text and a number searched for in the same text column, after an earlier filter. -/
theorem literals_stay_out_quoted :
    let users : Entity := ⟨"User", "users", [.make "name" (.scalar .text), .make "age" (.scalar .integer),
      .make "town" (.relation ⟨"Town", "town_id", "id"⟩)], by decide⟩
    let towns : Entity := ⟨"Town", "towns", [.make "tags" (.array .text)], by decide⟩
    let catalog : Catalog := ⟨[towns, users]⟩
    let adults : Group := ⟨.and, [.term (.make ⟨["age"]⟩ .ge (.integer 18))]⟩
    let query (name : Literal) : Group := ⟨.or, [.term (.make ⟨["town", "tags"]⟩ .eq (.string "sea")),
      .group .and [.term (Term.make ⟨["name"]⟩ .eq name).negate, .term (.make ⟨["age"]⟩ .eq .null)]]⟩
    let s := ((aliased "users" "u").compiled catalog users adults).limitedTo 5
    let done (name : Literal) := (s.compiled catalog users (query name)).render .postgres
    (query (.string "' OR $1")).outline = (query (.integer 7)).outline ∧
      (done (.string "' OR $1")).sql = (done (.integer 7)).sql ∧
      (done (.integer 7)).sql = "SELECT \"u\".* FROM \"users\" AS \"u\"" ++
        " LEFT JOIN \"towns\" AS \"towns\" ON \"towns\".\"id\" = \"u\".\"town_id\"" ++
        " WHERE \"u\".\"age\" >= $1 AND ($2 = ANY(\"towns\".\"tags\") OR" ++
        " (NOT (LOWER(\"u\".\"name\") LIKE LOWER($3)) AND \"u\".\"age\" IS NULL)) LIMIT $4" ∧
      (done (.string "' OR $1")).values = [.int 18, .string "sea", .string "%' OR $1%", .int 5] ∧
      (done (.integer 7)).values = [.int 18, .string "sea", .string "%7%", .int 5] := by
  intro users towns catalog adults query s done
  obtain ⟨-, -, sql, -⟩ := literals_stay_out s catalog users (query (.string "' OR $1"))
    (query (.integer 7)) rfl .postgres
  exact ⟨rfl, sql, by decide +kernel, by decide, by decide⟩

end Statement

end SearchFilter
