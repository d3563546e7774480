import Mathlib.Data.List.Basic
import SearchFilter.Proofs.Meaning
import SearchFilter.Statement

/-!
# What a text holds

Besides words and symbols an SQL text holds names and places of values. Which ones, and in which
order, is said twice: by the expression, whose bindings are collected without any dialect, and by the
pieces that a dialect writes, with conditions left out that hold no predicate, operands put in
parentheses afterwards and the parts of a test in an order of its own. Here both are shown to agree:
the pieces of an expression, less the text between them, are its contents (`solid_pieces`).
-/

namespace SearchFilter

/-- A value in an expression, under a key or bound by its place alone. -/
structure Leaf where
  /-- The key, if there is one. -/
  key : Option String
  /-- The value. -/
  value : Value

/-- The binding of a value under a key. -/
def Leaf.binding? (l : Leaf) : Option Binding := l.key.map fun key => ⟨key, l.value⟩

/-- A name or a value in an SQL text. -/
inductive Content where
  /-- A name. -/
  | name (s : String)
  /-- A value. -/
  | leaf (l : Leaf)

namespace Content

/-- The name, if it is one. -/
def name? : Content → Option String
  | name s => some s
  | leaf _ => none

/-- The value, if it is one. -/
def leaf? : Content → Option Leaf
  | name _ => none
  | leaf l => some l

/-- How it is written. -/
def piece : Content → Piece
  | name s => .name s
  | leaf l => .bound l.value

/-- A name after its qualifier. -/
def qualified (qualifier : Option String) (s : String) : List Content :=
  qualifier.toList.map name ++ [name s]

end Content

namespace Expr

/-! ### Induction -/

/-- What holds of an expression if it holds of its parts holds of all. -/
@[elab_as_elim]
theorem induction {P : Expr → Prop}
    (ident : ∀ qualifier name, P (.ident qualifier name))
    (wildcard : ∀ qualifier, P (.wildcard qualifier))
    (value : ∀ v, P (.value v)) (param : ∀ b, P (.param b))
    (compare : ∀ left op right, P left → P right → P (.compare left op right))
    (call : ∀ name args, (∀ arg ∈ args, P arg) → P (.call name args))
    (like : ∀ subject pattern, P subject → P pattern → P (.like subject pattern))
    (isNull : ∀ subject negated, P subject → P (.isNull subject negated))
    (not : ∀ e, P e → P (.not e))
    (arrayContains : ∀ array element, P array → P element → P (.arrayContains array element))
    (jsonContains : ∀ target candidate, P target → P candidate → P (.jsonContains target candidate))
    (chain : ∀ links : List Link, (∀ link ∈ links, P link.expr) → P (.chain links)) (e : Expr) : P e := by
  refine @Expr.rec P (fun link => P link.expr) (fun args => ∀ arg ∈ args, P arg)
    (fun links => ∀ link ∈ links, P link.expr) ident wildcard value param compare call like isNull not arrayContains jsonContains chain
    ?_ ?_ ?_ ?_ ?_ e
  · exact fun _ _ h => h
  · exact fun _ h => nomatch h
  · exact fun _ _ first rest => List.forall_mem_cons.mpr ⟨first, rest⟩
  · exact fun _ h => nomatch h
  · exact fun _ _ first rest => List.forall_mem_cons.mpr ⟨first, rest⟩

/-! ### The contents of an expression -/

mutual

/-- The names and values of an expression, the values in the order in which bindings are collected. -/
def contents : Expr → List Content
  | ident qualifier name => Content.qualified qualifier name
  | wildcard qualifier => qualifier.toList.map .name
  | value v => [.leaf ⟨none, v⟩]
  | param b => [.leaf ⟨some b.key, b.value⟩]
  | compare left _ right => left.contents ++ right.contents
  | call _ args => argContents args
  | like subject pattern => subject.contents ++ pattern.contents
  | isNull subject _ => subject.contents
  | not e => e.contents
  | arrayContains array element => element.contents ++ array.contents
  | jsonContains target candidate => target.contents ++ candidate.contents
  | chain links => linkContents links

/-- The names and values of arguments. -/
def argContents : List Expr → List Content
  | [] => []
  | arg :: args => arg.contents ++ argContents args

/-- The names and values of links. -/
def linkContents : List Link → List Content
  | [] => []
  | ⟨_, e⟩ :: links => e.contents ++ linkContents links

end

/-- The values of an expression. -/
def leaves (e : Expr) : List Leaf := e.contents.filterMap Content.leaf?

theorem argBindings_eq (args : List Expr) : argBindings args = args.flatMap bindings := by
  induction args with
  | nil => rfl
  | cons arg args ih => rw [argBindings, ih, List.flatMap_cons]

theorem linkBindings_eq (links : List Link) :
    linkBindings links = links.flatMap fun link => link.expr.bindings := by
  induction links with
  | nil => rfl
  | cons link links ih =>
    obtain ⟨c, e⟩ := link
    rw [linkBindings, ih, List.flatMap_cons]

theorem argContents_eq (args : List Expr) : argContents args = args.flatMap contents := by
  induction args with
  | nil => rfl
  | cons arg args ih => rw [argContents, ih, List.flatMap_cons]

theorem linkContents_eq (links : List Link) :
    linkContents links = links.flatMap fun link => link.expr.contents := by
  induction links with
  | nil => rfl
  | cons link links ih =>
    obtain ⟨c, e⟩ := link
    rw [linkContents, ih, List.flatMap_cons]

/-- The bindings of an expression are its values under keys. -/
theorem bindings_eq (e : Expr) : e.bindings = e.leaves.filterMap Leaf.binding? := by
  unfold leaves
  induction e using Expr.induction with
  | ident qualifier name =>
    cases qualifier <;> rfl
  | wildcard qualifier => cases qualifier <;> rfl
  | value v => rfl
  | param b => rfl
  | compare left op right ihLeft ihRight =>
    simp only [bindings, contents, List.filterMap_append, ihLeft, ihRight]
  | call name args ih =>
    simp only [bindings, contents, argBindings_eq, argContents_eq, List.filterMap_flatMap]
    exact List.flatMap_congr ih
  | like subject pattern ihSubject ihPattern =>
    simp only [bindings, contents, List.filterMap_append, ihSubject, ihPattern]
  | isNull subject negated ih => exact ih
  | not e ih => exact ih
  | arrayContains array element ihArray ihElement =>
    simp only [bindings, contents, List.filterMap_append, ihArray, ihElement]
  | jsonContains target candidate ihTarget ihCandidate =>
    simp only [bindings, contents, List.filterMap_append, ihTarget, ihCandidate]
  | chain links ih =>
    simp only [bindings, contents, linkBindings_eq, linkContents_eq, List.filterMap_flatMap]
    exact List.flatMap_congr ih

/-- What holds no condition holds nothing. -/
theorem linkContents_eq_nil (links : List Link) : areVacuous links = true → linkContents links = [] := by
  induction links using Link.induction with
  | nil => exact fun _ => rfl
  | leaf c e links he ih =>
    intro h
    rw [areVacuous, isVacuous_of_ne_chain he] at h
    cases h
  | chain c inner links ihInner ih =>
    intro h
    rw [areVacuous, isVacuous, Bool.and_eq_true] at h
    rw [linkContents, contents, ihInner h.1, ih h.2, List.append_nil]

theorem contents_eq_nil {e : Expr} (h : e.isVacuous = true) : e.contents = [] := by
  cases e with
  | chain links => exact linkContents_eq_nil links h
  | _ => cases h

end Expr

/-! ### The contents of pieces -/

namespace Piece

/-- A name or the place of a value. -/
def isSolid : Piece → Bool
  | raw _ => false
  | name _ => true
  | bound _ => true

/-- Pieces without the text between names and values. -/
def solid (ps : List Piece) : List Piece := ps.filter isSolid

@[simp] theorem solid_nil : solid [] = [] := rfl

@[simp] theorem solid_raw (s : String) (ps : List Piece) : solid (raw s :: ps) = solid ps := rfl

@[simp] theorem solid_name (s : String) (ps : List Piece) : solid (name s :: ps) = name s :: solid ps := rfl

@[simp] theorem solid_bound (v : Value) (ps : List Piece) : solid (bound v :: ps) = bound v :: solid ps := rfl

@[simp] theorem solid_append (xs ys : List Piece) : solid (xs ++ ys) = solid xs ++ solid ys :=
  List.filter_append xs ys

@[simp] theorem solid_parenthesized (ps : List Piece) : solid (parenthesized ps) = solid ps := by
  simp [parenthesized]

@[simp] theorem solid_commaSeparated (groups : List (List Piece)) :
    solid (commaSeparated groups) = groups.flatMap solid := by
  fun_induction commaSeparated groups with
  | case1 => rfl
  | case2 ps => simp
  | case3 ps rest _ ih => simp [ih]

theorem solid_attach (j : Joined) (link : Connective × List Piece) :
    solid (j.attach link).pieces = solid j.pieces ++ solid link.2 := by
  unfold Joined.attach
  cases j.last with
  | none => simp
  | some c => by_cases h : c = link.1 <;> simp [h]

theorem solid_foldl_attach (links : List (Connective × List Piece)) (j : Joined) :
    solid (links.foldl Joined.attach j).pieces =
      solid j.pieces ++ links.flatMap fun link => solid link.2 := by
  induction links generalizing j with
  | nil => simp
  | cons link links ih => rw [List.foldl_cons, ih, solid_attach, List.flatMap_cons, List.append_assoc]

@[simp] theorem solid_joined (links : List (Connective × List Piece)) :
    solid (joined links) = links.flatMap fun link => solid link.2 := by
  cases links with
  | nil => rfl
  | cons link links => exact solid_foldl_attach links ⟨link.2, none⟩

@[simp] theorem solid_qualified (qualifier : Option String) (s : String) :
    solid (qualified qualifier (name s)) = (Content.qualified qualifier s).map Content.piece := by
  cases qualifier <;> rfl

end Piece

namespace Expr

theorem argPieces_eq (d : Dialect) (args : List Expr) : argPieces d args = args.map (pieces d) := by
  induction args with
  | nil => rfl
  | cons arg args ih => rw [argPieces, ih, List.map_cons]

/-- The text of links holds what they hold, those without conditions left out. -/
theorem solid_linkPieces (d : Dialect) (links : List Link)
    (h : ∀ link ∈ links, Piece.solid (link.expr.pieces d) = link.expr.contents.map Content.piece) :
    ((linkPieces d links).flatMap fun link => Piece.solid link.2) =
      (linkContents links).map Content.piece := by
  induction links with
  | nil => rfl
  | cons link links ih =>
    obtain ⟨c, e⟩ := link
    obtain ⟨first, rest⟩ := List.forall_mem_cons.mp h
    rw [linkPieces, linkContents, List.map_append, ← ih rest, ← first]
    cases vacuous : e.isVacuous with
    | true =>
      rw [if_pos rfl, first, contents_eq_nil vacuous]
      rfl
    | false => cases compound : e.isCompound <;> simp

/-- Whatever the dialect, the pieces of an expression hold its names and values, in order. -/
theorem solid_pieces (d : Dialect) (e : Expr) :
    Piece.solid (e.pieces d) = e.contents.map Content.piece := by
  induction e using Expr.induction with
  | ident qualifier name => simp [pieces, contents]
  | wildcard qualifier => cases qualifier <;> rfl
  | value v => rfl
  | param b => rfl
  | compare left op right ihLeft ihRight => simp [pieces, contents, ihLeft, ihRight]
  | call name args ih =>
    simp only [pieces, contents, argPieces_eq, argContents_eq, Piece.solid_append, Piece.solid_raw,
      Piece.solid_commaSeparated, List.flatMap_map, List.map_flatMap]
    rw [Piece.solid_nil, List.append_nil]
    exact List.flatMap_congr ih
  | like subject pattern ihSubject ihPattern => simp [pieces, contents, ihSubject, ihPattern]
  | isNull subject negated ih => simp [pieces, contents, ih]
  | not e ih => simp [pieces, contents, ih]
  | arrayContains array element ihArray ihElement =>
    cases d <;> simp [pieces, contents, Dialect.arrayContains, ihArray, ihElement]
  | jsonContains target candidate ihTarget ihCandidate =>
    cases d <;> simp [pieces, contents, Dialect.jsonContains, ihTarget, ihCandidate]
  | chain links ih =>
    rw [pieces, contents, Piece.solid_joined]
    exact solid_linkPieces d links ih

end Expr

/-! ### The contents of a statement -/

/-- The names of a table and its alias. -/
def TableSource.contents (t : TableSource) : List Content :=
  Content.qualified t.table.schema t.table.name ++ t.tableAlias.toList.map .name

theorem TableSource.solid_pieces (t : TableSource) :
    Piece.solid t.pieces = t.contents.map Content.piece := by
  unfold TableSource.pieces TableSource.contents
  cases t.tableAlias <;> simp [Content.piece]

namespace Select

/-- The names and values of a statement, clause by clause. -/
def contents (s : Select) : List Content :=
  s.columns.flatMap Expr.contents ++ s.source.toList.flatMap TableSource.contents ++
    s.joins.flatMap (fun j => j.source.contents ++ j.condition.contents) ++
    s.condition.toList.flatMap Expr.contents ++ s.order.flatMap (fun o => o.expr.contents) ++
    s.limit.toList.flatMap Expr.contents ++ s.offset.toList.flatMap Expr.contents

/-- The pieces of where rows come from. -/
def sourcePieces (source : Option TableSource) : List Piece :=
  source.toList.flatMap fun t => .raw " FROM " :: t.pieces

/-- The pieces of how rows are ordered. -/
def orderPieces (d : Dialect) : List OrderItem → List Piece
  | [] => []
  | items => .raw " ORDER BY " :: Piece.commaSeparated (items.map (OrderItem.pieces d))

theorem pieces_eq (d : Dialect) (s : Select) :
    s.pieces d = .raw "SELECT " :: Piece.commaSeparated (s.columns.map (Expr.pieces d)) ++
      sourcePieces s.source ++ s.joins.flatMap (JoinClause.pieces d) ++
      clause d " WHERE " (s.condition.filter fun e => !e.isVacuous) ++ orderPieces d s.order ++
      clause d " LIMIT " s.limit ++ clause d " OFFSET " s.offset := by
  unfold pieces
  congr 4
  · congr 2
    cases s.source with
    | none => rfl
    | some t => exact (List.append_nil _).symm
  · cases s.order <;> rfl

theorem solid_columns (d : Dialect) (columns : List Expr) :
    Piece.solid (Piece.commaSeparated (columns.map (Expr.pieces d))) =
      (columns.flatMap Expr.contents).map Content.piece := by
  rw [Piece.solid_commaSeparated, List.flatMap_map, List.map_flatMap]
  exact List.flatMap_congr fun e _ => e.solid_pieces d

theorem solid_sourcePieces (source : Option TableSource) :
    Piece.solid (sourcePieces source) =
      (source.toList.flatMap TableSource.contents).map Content.piece := by
  cases source with
  | none => rfl
  | some t => simp [sourcePieces, t.solid_pieces]

theorem solid_joins (d : Dialect) (joins : List JoinClause) :
    Piece.solid (joins.flatMap (JoinClause.pieces d)) =
      (joins.flatMap fun j => j.source.contents ++ j.condition.contents).map Content.piece := by
  rw [Piece.solid, List.filter_flatMap, List.map_flatMap]
  refine List.flatMap_congr fun j _ => ?_
  show Piece.solid (j.pieces d) = _
  simp [JoinClause.pieces, TableSource.solid_pieces, Expr.solid_pieces]

theorem solid_orderPieces (d : Dialect) (items : List OrderItem) :
    Piece.solid (orderPieces d items) = (items.flatMap fun o => o.expr.contents).map Content.piece := by
  have each : ∀ o ∈ items, Piece.solid (o.pieces d) = o.expr.contents.map Content.piece := by
    intro o _
    unfold OrderItem.pieces
    cases o.direction <;> simp [Expr.solid_pieces]
  cases items with
  | nil => rfl
  | cons o rest =>
    rw [orderPieces, Piece.solid_raw, Piece.solid_commaSeparated, List.flatMap_map, List.map_flatMap]
    · exact List.flatMap_congr each
    · exact nofun

theorem solid_clause (d : Dialect) (keyword : String) (e : Option Expr) :
    Piece.solid (clause d keyword e) = (e.toList.flatMap Expr.contents).map Content.piece := by
  cases e with
  | none => rfl
  | some e => simp [clause, Expr.solid_pieces]

/-- A condition that holds no predicate is left out, and holds nothing. -/
theorem contents_filter (e : Option Expr) :
    (e.filter fun e => !e.isVacuous).toList.flatMap Expr.contents =
      e.toList.flatMap Expr.contents := by
  cases e with
  | none => rfl
  | some e =>
    cases vacuous : e.isVacuous with
    | true => simp [Option.filter, vacuous, Expr.contents_eq_nil vacuous]
    | false => simp [Option.filter, vacuous]

/-- Whatever the dialect, the pieces of a statement hold its names and values, in order. -/
theorem solid_pieces (d : Dialect) (s : Select) :
    Piece.solid (s.pieces d) = s.contents.map Content.piece := by
  simp only [pieces_eq, contents, Piece.solid_append, Piece.solid_raw, List.map_append, solid_columns,
    solid_sourcePieces, solid_joins, solid_orderPieces, solid_clause, contents_filter]

end Select

/-! ### Values -/

namespace Piece

theorem values_solid (ps : List Piece) : values (solid ps) = values ps := by
  induction ps with
  | nil => rfl
  | cons x ps ih => cases x <;> simp [values, ih]

theorem values_append (xs ys : List Piece) : values (xs ++ ys) = values xs ++ values ys := by
  induction xs with
  | nil => rfl
  | cons x xs ih => cases x <;> simp [values, ih]

theorem values_map_piece (cs : List Content) :
    values (cs.map Content.piece) = (cs.filterMap Content.leaf?).map Leaf.value := by
  induction cs with
  | nil => rfl
  | cons c cs ih => cases c <;> simp [values, Content.piece, Content.leaf?, List.filterMap_cons, ih]

end Piece

/-- The values of an expression are bound in the order of its leaves. -/
theorem Expr.values_pieces (d : Dialect) (e : Expr) :
    Piece.values (e.pieces d) = e.leaves.map Leaf.value := by
  rw [← Piece.values_solid, e.solid_pieces d, Piece.values_map_piece]
  rfl

/-- Values that all have keys are those of their bindings. -/
theorem Leaf.map_value_eq {ls : List Leaf} (keyed : ∀ l ∈ ls, l.key.isSome = true) :
    ls.map Leaf.value = (ls.filterMap Leaf.binding?).map Binding.value := by
  induction ls with
  | nil => rfl
  | cons l ls ih =>
    obtain ⟨first, rest⟩ := List.forall_mem_cons.mp keyed
    obtain ⟨key, known⟩ := Option.isSome_iff_exists.mp first
    have binding : l.binding? = some ⟨key, l.value⟩ := by rw [binding?, known, Option.map_some]
    rw [List.map_cons, ih rest, List.filterMap_cons_some binding, List.map_cons]

namespace Statement

/-- A paging number as a value, at most the greatest one of 64 bits with a sign. -/
def capped (n : UInt64) : Value := .int (.ofNat (min n.toNat 0x7fffffffffffffff))

theorem pagingValue_eq (n : UInt64) : pagingValue n = .value (capped n) := by
  rw [pagingValue, capped]
  congr 2
  split
  · next small =>
    have lt : n.toNat < 0x8000000000000000 := small
    have same : min n.toNat 0x7fffffffffffffff = n.toNat := by omega
    rw [same, ← UInt64.toInt64_ofNat', UInt64.ofNat_toNat]
  · next large =>
    have ge : ¬n.toNat < 0x8000000000000000 := large
    have same : min n.toNat 0x7fffffffffffffff = 0x7fffffffffffffff := by omega
    rw [same]
    decide

/-- The values of a statement are those of its conditions, and its limit and offset. -/
theorem leaves_build (s : Statement) :
    s.build.contents.filterMap Content.leaf? =
      (Expr.chain s.scope.conditions).leaves ++
        (s.limit.toList ++ s.offset.toList).map fun n => ⟨none, capped n⟩ := by
  have columns : (s.build.columns.flatMap Expr.contents).filterMap Content.leaf? = [] := by
    rw [List.filterMap_flatMap, List.flatMap_eq_nil_iff, build]
    split
    · intro e he
      rw [List.mem_singleton.mp he]
      rfl
    · intro e he
      obtain ⟨name, -, rfl⟩ := List.mem_map.mp he
      rfl
  have joins : (s.build.joins.flatMap fun j => j.source.contents ++ j.condition.contents).filterMap
      Content.leaf? = [] := by
    rw [List.filterMap_flatMap, List.flatMap_eq_nil_iff]
    intro clause hj
    obtain ⟨j, -, rfl⟩ := List.mem_map.mp hj
    rfl
  have condition : (s.build.condition.toList.flatMap Expr.contents).filterMap Content.leaf? =
      (Expr.chain s.scope.conditions).leaves := by
    show (s.scope.condition?.toList.flatMap Expr.contents).filterMap Content.leaf? = _
    rw [Scope.condition?]
    split
    · next vacuous =>
      rw [Expr.leaves, Expr.contents, Expr.linkContents_eq_nil _ vacuous]
      rfl
    · rw [Option.toList_some, List.flatMap_singleton]
      rfl
  have order : (s.build.order.flatMap fun o => o.expr.contents).filterMap Content.leaf? = [] := by
    rw [List.filterMap_flatMap, List.flatMap_eq_nil_iff]
    intro item ho
    obtain ⟨o, -, rfl⟩ := List.mem_map.mp ho
    rfl
  have paging : ∀ n : Option UInt64,
      ((n.map pagingValue).toList.flatMap Expr.contents).filterMap Content.leaf? =
        n.toList.map fun n => ⟨none, capped n⟩ := by
    intro n
    cases n with
    | none => rfl
    | some n =>
      rw [Option.map_some, pagingValue_eq]
      rfl
  simp only [Select.contents, List.filterMap_append, columns, joins, condition, order]
  rw [List.map_append, ← paging, ← paging]
  simp only [build, Option.toList_some, List.flatMap_singleton, List.nil_append, List.append_nil,
    List.append_assoc]
  rfl

/-- Whatever was rendered before and whatever the dialect, an expression binds the values of its
leaves, of which those under keys are its bindings, in the same order. So a statement whose
conditions bind no value by its place alone is run with the values of its bindings, then the limit,
then the offset, each capped, and with the same values in every dialect. -/
theorem render_values :
    (∀ (d : Dialect) (before : List Piece) (e : Expr),
      (Rendered.ofPieces d (before ++ e.pieces d)).values =
          (Rendered.ofPieces d before).values ++ e.leaves.map Leaf.value ∧
        e.bindings = e.leaves.filterMap Leaf.binding?) ∧
      ∀ s : Statement, (∀ l ∈ (Expr.chain s.scope.conditions).leaves, l.key.isSome = true) →
        ∀ d, (s.render d).values = s.scope.bindings.map Binding.value ++
          (s.limit.toList ++ s.offset.toList).map capped := by
  refine ⟨fun d before e => ⟨?_, e.bindings_eq⟩, fun s keyed d => ?_⟩
  · show Piece.values (before ++ e.pieces d) = _
    rw [Piece.values_append, e.values_pieces d]
    rfl
  · show Piece.values (s.build.pieces d) = _
    have bindings : s.scope.bindings =
        (Expr.chain s.scope.conditions).leaves.filterMap Leaf.binding? := by
      rw [← Expr.bindings_eq]
      rfl
    rw [← Piece.values_solid, Select.solid_pieces, Piece.values_map_piece, leaves_build, List.map_append,
      Leaf.map_value_eq keyed, bindings, List.map_map]
    rfl

/-- A statement with a join, columns, an order and a nested condition, limited to more rows than can
be counted with a sign. -/
theorem render_values_paged :
    let s : Statement :=
      ⟨"users", ⟨"u", [⟨.or, .chain []⟩,
          ⟨.and, .arrayContains (.columnOf "u" "tags") (.param ⟨"p1", .string "a"⟩)⟩,
          ⟨.or, .chain [⟨.and, .not (.compare (.columnOf "towns" "size") .lt (.param ⟨"p2", .int 7⟩))⟩]⟩],
        [⟨"u", "town", "towns", "towns", "town_id", "id"⟩], 2⟩,
        ["id"], [("id", some .descending)], some 0xffffffffffffffff, some 3⟩
    (∀ l ∈ (Expr.chain s.scope.conditions).leaves, l.key.isSome = true) ∧
      ∀ d, (s.render d).values = [.string "a", .int 7, .int 0x7fffffffffffffff, .int 3] := by
  intro s
  have keyed : ∀ l ∈ (Expr.chain s.scope.conditions).leaves, l.key.isSome = true := by decide
  exact ⟨keyed, fun d => (render_values.2 s keyed d).trans (by decide)⟩

end Statement

end SearchFilter
