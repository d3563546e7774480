import SearchFilter.Proofs.Emission
import SearchFilter.Proofs.Validity

/-!
# Which columns paths name

In a catalog that was accepted, the schema alone says what a path is. It names a column if it is the
name of one of the entity's own, or the names of a relation and of a column of the entity that the
relation leads to; relations themselves are not compared with values. Looking a path up finds these
columns and no others. A path that goes on after a relation joins the related table, whatever comes
after: every relation of an accepted catalog leads to an entity. All other paths leave the scope as it
is.
-/

namespace SearchFilter

/-! ### Accepted catalogs -/

namespace Catalog

/-- Entities of different names, every relation of which leads to one of them. -/
structure Closed (catalog : Catalog) : Prop where
  /-- No two entities have one name. -/
  names : (catalog.entities.map Entity.name).Nodup
  /-- Every relation leads to an entity. -/
  targets : ∀ e ∈ catalog.entities, ∀ c ∈ e.columns, ∀ relation, c.target? = some relation →
    relation.entity ∈ catalog.entities.map Entity.name

/-- No relation of the entity is reported exactly if all lead to some entity. -/
theorem dangling?_eq_none_iff {names : List String} {e : Entity} :
    dangling? names e = none ↔
      ∀ c ∈ e.columns, ∀ relation, c.target? = some relation → relation.entity ∈ names := by
  rw [dangling?, List.findSome?_eq_none_iff]
  refine forall₂_congr fun c _ => ?_
  rw [danglingColumn?]
  cases c.target? with
  | none => simp
  | some relation => by_cases leads : relation.entity ∈ names <;> simp [leads]

/-- A catalog that was accepted is closed. -/
theorem closed_of_ofEntities {entities : List Entity} {catalog : Catalog}
    (made : ofEntities entities = .ok catalog) : catalog.Closed := by
  have distinct : (entities.map Entity.name).Nodup := by
    rw [ofEntities] at made
    split at made
    · cases made
    · next none => exact (firstRepeated?_eq_none_iff.mp none).1
  have sameNames : ∀ n, n ∈ (inOrder entities).map Entity.name ↔ n ∈ entities.map Entity.name :=
    fun n => ((List.mergeSort_perm _ _).map Entity.name).mem_iff
  rw [ofEntities_eq distinct] at made
  split at made
  · cases made
  · next sound =>
    cases made
    refine ⟨((List.mergeSort_perm _ _).map Entity.name).nodup_iff.mpr distinct, fun e he => ?_⟩
    rw [← dangling?_eq_none_iff, dangling?_congr sameNames]
    exact List.findSome?_eq_none_iff.mp sound e he

namespace Closed

variable {catalog : Catalog} (closed : catalog.Closed)

include closed

theorem entity?_eq_some_iff {name : String} {e : Entity} :
    catalog.entity? name = some e ↔ e ∈ catalog.entities ∧ e.name = name :=
  find?_eq_some_iff_of_nodup closed.names

theorem exists_target {e : Entity} (known : e ∈ catalog.entities) {c : Column} (hc : c ∈ e.columns)
    {relation : RelationTarget} (leads : c.target? = some relation) :
    ∃ target, catalog.entity? relation.entity = some target := by
  obtain ⟨target, ht, name⟩ := List.mem_map.mp (closed.targets e known c hc relation leads)
  exact ⟨target, closed.entity?_eq_some_iff.mpr ⟨ht, name⟩⟩

end Closed

end Catalog

/-! ### Paths -/

theorem Column.isRelation_iff {c : Column} : c.isRelation = true ↔ ∃ relation, c.target? = some relation :=
  Option.isSome_iff_exists

theorem Column.plain?_eq_some_iff {c column : Column} :
    c.plain? = some column ↔ c.isRelation = false ∧ c = column := by
  unfold plain?
  cases c.isRelation <;> simp

/-- A path goes on after a relation of the entity. -/
def Entity.Follows (e : Entity) (path : List String) (r : String) : Prop :=
  (∃ c ∈ e.columns, c.property = r ∧ c.isRelation = true) ∧ ∃ name more, path = r :: name :: more

theorem Entity.traversed?_eq_some_iff {e : Entity} {path : FieldPath} {r : String} :
    e.traversed? path = some r ↔ e.Follows path.segments r := by
  obtain ⟨segments⟩ := path
  unfold traversed? Follows
  rcases segments with _ | ⟨first, _ | ⟨name, more⟩⟩
  · simp
  · simp
  · simp only [Option.ite_none_right_eq_some, Option.some.injEq, Option.any_eq_true,
      Entity.column?_eq_some_iff, List.cons.injEq]
    constructor
    · rintro ⟨⟨c, ⟨hc, rfl⟩, related⟩, rfl⟩
      exact ⟨⟨c, hc, rfl, related⟩, name, more, rfl, rfl, rfl⟩
    · rintro ⟨⟨c, hc, rfl, related⟩, _, _, rfl, -⟩
      exact ⟨⟨c, ⟨hc, rfl⟩, related⟩, rfl⟩

/-- A relation of an entity, and the entity of the catalog that it leads to. -/
structure Traversal.IsOf (r : Traversal) (catalog : Catalog) (e : Entity) : Prop where
  /-- The relation is a column of the entity. -/
  column : ∃ c ∈ e.columns, c.property = r.property ∧ c.target? = some r.relation
  /-- It leads to an entity of the catalog. -/
  target : r.target ∈ catalog.entities
  /-- This is the entity that the relation names. -/
  name : r.target.name = r.relation.entity

/-- The columns that the paths from an entity name. -/
inductive Catalog.Names (catalog : Catalog) (e : Entity) : List String → Column → Prop where
  /-- One of its own. -/
  | own {column : Column} : column ∈ e.columns → column.isRelation = false →
    Names catalog e [column.property] column
  /-- One of an entity that a relation leads to. -/
  | related {r : Traversal} {column : Column} : r.IsOf catalog e → column ∈ r.target.columns →
    column.isRelation = false → Names catalog e [r.property, column.property] column

namespace Setting

/-- A path that does not go on after a relation follows none. -/
theorem traversal?_eq_none (setting : Setting) {path : FieldPath}
    (h : setting.entity.traversed? path = none) : setting.traversal? path = none := by
  obtain ⟨segments⟩ := path
  rw [Option.eq_none_iff_forall_ne_some]
  intro r found
  rcases segments with _ | ⟨first, _ | ⟨name, more⟩⟩
  · cases found
  · cases found
  · obtain ⟨c, hc, found⟩ := Option.bind_eq_some_iff.mp found
    obtain ⟨relation, leads, -⟩ := Option.bind_eq_some_iff.mp found
    have related : setting.entity.Follows (FieldPath.mk (first :: name :: more)).segments c.property := by
      obtain ⟨mem, same⟩ := Entity.column?_eq_some_iff.mp hc
      exact ⟨⟨c, mem, rfl, Column.isRelation_iff.mpr ⟨relation, leads⟩⟩, name, more, by rw [same]⟩
    have goesOn := Entity.traversed?_eq_some_iff.mpr related
    rw [h] at goesOn
    cases goesOn

variable (setting : Setting) (closed : setting.catalog.Closed)

include closed

/-- The relations that paths follow are those of the entity. -/
theorem traversal?_eq_some_iff {path : FieldPath} {r : Traversal} :
    setting.traversal? path = some r ↔
      r.IsOf setting.catalog setting.entity ∧ ∃ name more, path.segments = r.property :: name :: more := by
  obtain ⟨segments⟩ := path
  obtain ⟨property, relation, target⟩ := r
  unfold traversal?
  rcases segments with _ | ⟨first, _ | ⟨name, more⟩⟩
  · simp [FieldPath.rest]
  · simp [FieldPath.rest]
  · simp only [FieldPath.rest, FieldPath.head?, List.drop_succ_cons, List.drop_zero, List.head?_cons,
      Option.bind_some, Option.bind_eq_some_iff, Option.map_eq_some_iff, Traversal.mk.injEq,
      Entity.column?_eq_some_iff, closed.entity?_eq_some_iff, List.cons.injEq]
    constructor
    · rintro ⟨c, ⟨hc, rfl⟩, _, leads, _, ⟨known, named⟩, rfl, rfl, rfl⟩
      exact ⟨⟨⟨c, hc, rfl, leads⟩, known, named⟩, name, more, rfl, rfl, rfl⟩
    · rintro ⟨⟨⟨c, hc, rfl, leads⟩, known, named⟩, _, _, rfl, -⟩
      exact ⟨c, ⟨hc, rfl⟩, relation, leads, target, ⟨known, named⟩, rfl, rfl, rfl⟩

/-- A path follows a relation of an entity of the catalog as soon as it goes on after it. -/
theorem traversed?_eq (known : setting.entity ∈ setting.catalog.entities) (path : FieldPath) :
    setting.entity.traversed? path = (setting.traversal? path).map Traversal.property := by
  refine Option.ext fun r => ?_
  simp only [Entity.traversed?_eq_some_iff, Option.map_eq_some_iff, setting.traversal?_eq_some_iff closed]
  constructor
  · rintro ⟨⟨c, hc, rfl, related⟩, goesOn⟩
    obtain ⟨relation, leads⟩ := Column.isRelation_iff.mp related
    obtain ⟨target, found⟩ := closed.exists_target known hc leads
    obtain ⟨ht, name⟩ := closed.entity?_eq_some_iff.mp found
    exact ⟨⟨c.property, relation, target⟩, ⟨⟨⟨c, hc, rfl, leads⟩, ht, name⟩, goesOn⟩, rfl⟩
  · rintro ⟨r, ⟨⟨⟨c, hc, name, leads⟩, -, -⟩, goesOn⟩, rfl⟩
    exact ⟨⟨c, hc, name, Column.isRelation_iff.mpr ⟨_, leads⟩⟩, goesOn⟩

/-- The column of a path is the one that the path names. -/
theorem column?_eq_some_iff {path : FieldPath} {column : Column} :
    setting.column? path = some column ↔ setting.catalog.Names setting.entity path.segments column := by
  obtain ⟨segments⟩ := path
  rcases segments with _ | ⟨first, _ | ⟨name, _ | ⟨next, more⟩⟩⟩
  · constructor <;> rintro ⟨⟩
  · simp only [column?, FieldPath.rest, FieldPath.head?, List.drop_succ_cons, List.drop_zero,
      List.head?_cons, Option.bind_some, Option.bind_eq_some_iff, Entity.column?_eq_some_iff,
      Column.plain?_eq_some_iff]
    constructor
    · rintro ⟨c, ⟨hc, rfl⟩, plain, rfl⟩
      exact .own hc plain
    · rintro (⟨hc, plain⟩)
      exact ⟨column, ⟨hc, rfl⟩, plain, rfl⟩
  · simp only [column?, FieldPath.rest, List.drop_succ_cons, List.drop_zero, Option.bind_eq_some_iff,
      setting.traversal?_eq_some_iff closed, Entity.column?_eq_some_iff, Column.plain?_eq_some_iff]
    constructor
    · rintro ⟨r, ⟨relation, _, _, same⟩, c, ⟨hc, rfl⟩, plain, rfl⟩
      cases same
      exact .related relation hc plain
    · rintro (_ | ⟨relation, hc, plain⟩)
      exact ⟨_, ⟨relation, _, _, rfl⟩, column, ⟨hc, rfl⟩, plain, rfl⟩
  · constructor <;> rintro ⟨⟩

/-- A path that goes on after a relation is looked up with the join of this relation, and any other path
without a join. -/
theorem follow_cases (known : setting.entity ∈ setting.catalog.entities) (joins : List Join)
    (path : FieldPath) :
    (∀ r, setting.entity.Follows path.segments r →
      ∃ j, (setting.follow joins path).find? (fun j => j.follows setting.tableAlias r) = some j ∧
        setting.aliasIn (setting.follow joins path) path = j.targetAlias) ∧
      ((∀ r, ¬ setting.entity.Follows path.segments r) →
        setting.follow joins path = joins ∧ ∀ final, setting.aliasIn final path = setting.tableAlias) := by
  simp only [← Entity.traversed?_eq_some_iff, setting.traversed?_eq closed known, follow, aliasIn]
  cases setting.traversal? path with
  | none => exact ⟨nofun, fun _ => ⟨rfl, fun _ => rfl⟩⟩
  | some r =>
    obtain ⟨j, hj⟩ := r.exists_join?_follow setting.tableAlias joins
    refine ⟨?_, fun none => absurd rfl (none r.property)⟩
    rintro _ ⟨⟩
    refine ⟨j, hj, ?_⟩
    show r.aliasIn setting.tableAlias _ = j.targetAlias
    rw [Traversal.aliasIn, hj]
    rfl

end Setting

/-! ### Looking paths up -/

namespace Scope

section Outcomes

variable (s : Scope) (setting : Setting) (path : FieldPath)

theorem resolve_eq_resolved_iff {a : String} {column : Column} :
    (s.resolve setting.catalog setting.entity setting.tableAlias path).1 = .resolved a column ↔
      setting.column? path = some column ∧ a = setting.aliasIn (setting.follow s.joins path) path := by
  rw [(s.resolve_outcome setting path).2]
  cases setting.column? path with
  | some found => simp [eq_comm, and_comm]
  | none => cases (setting.entity.traversed? path).isSome <;> simp

theorem resolve_eq_unknownRelatedField_iff :
    (s.resolve setting.catalog setting.entity setting.tableAlias path).1 = .unknownRelatedField ↔
      (∃ r, setting.entity.traversed? path = some r) ∧ setting.column? path = none := by
  rw [(s.resolve_outcome setting path).2, ← Option.isSome_iff_exists]
  cases setting.column? path with
  | some found => simp
  | none => cases (setting.entity.traversed? path).isSome <;> simp

theorem resolve_eq_unknownField_iff :
    (s.resolve setting.catalog setting.entity setting.tableAlias path).1 = .unknownField ↔
      setting.entity.traversed? path = none ∧ setting.column? path = none := by
  rw [(s.resolve_outcome setting path).2]
  cases setting.column? path with
  | some found => simp
  | none => cases setting.entity.traversed? path <;> simp

end Outcomes

/-- In a catalog that was accepted, every relation of an entity leads to an entity. A path is resolved
exactly to the column that it names; if it names none, it is reported as a related field if it goes on
after a relation, and as a field otherwise. A path that goes on after a relation has a join of this
relation afterwards, and its column is that of the joined table; with any other path the scope stays as
it is, and the column is that of the entity's own table. Nothing but the joins ever changes. -/
theorem resolve_exact {entities : List Entity} {catalog : Catalog}
    (made : Catalog.ofEntities entities = .ok catalog) {e : Entity} (known : e ∈ catalog.entities)
    (s : Scope) (tableAlias : String) (path : FieldPath) :
    let found := s.resolve catalog e tableAlias path
    (∀ c ∈ e.columns, ∀ relation, c.target? = some relation →
        ∃ target, catalog.entity? relation.entity = some target) ∧
      (∀ column, (∃ a, found.1 = .resolved a column) ↔ catalog.Names e path.segments column) ∧
      (found.1 = .unknownRelatedField ↔
        (∃ r, e.Follows path.segments r) ∧ ∀ column, ¬ catalog.Names e path.segments column) ∧
      (found.1 = .unknownField ↔
        (∀ r, ¬ e.Follows path.segments r) ∧ ∀ column, ¬ catalog.Names e path.segments column) ∧
      (∀ r, e.Follows path.segments r → ∃ j, found.2.1.join? tableAlias r = some j ∧
        ∀ a column, found.1 = .resolved a column → a = j.targetAlias) ∧
      ((∀ r, ¬ e.Follows path.segments r) → found.2.1 = s ∧
        ∀ a column, found.1 = .resolved a column → a = tableAlias) ∧
      found.2.1 = { s with joins := found.2.1.joins } := by
  intro found
  let setting : Setting := ⟨catalog, e, tableAlias⟩
  have closed := Catalog.closed_of_ofEntities made
  have scope : found.2.1 = { s with joins := setting.follow s.joins path } :=
    (s.resolve_outcome setting path).1
  have resolved {a : String} {column : Column} : found.1 = .resolved a column ↔
      catalog.Names e path.segments column ∧ a = setting.aliasIn (setting.follow s.joins path) path := by
    rw [← setting.column?_eq_some_iff closed]
    exact s.resolve_eq_resolved_iff setting path
  have unnamed : setting.column? path = none ↔ ∀ column, ¬ catalog.Names e path.segments column := by
    simp only [← setting.column?_eq_some_iff closed, Option.eq_none_iff_forall_ne_some, setting]
  obtain ⟨joined, alone⟩ := setting.follow_cases closed known s.joins path
  refine ⟨fun c hc relation => closed.exists_target known hc, fun column => ?_, ?_, ?_, ?_, ?_, ?_⟩
  · simp only [resolved, exists_and_left, exists_eq, and_true]
  · rw [← unnamed]
    simp only [← Entity.traversed?_eq_some_iff]
    exact s.resolve_eq_unknownRelatedField_iff setting path
  · rw [← unnamed]
    simp only [← Entity.traversed?_eq_some_iff, ← Option.eq_none_iff_forall_ne_some]
    exact s.resolve_eq_unknownField_iff setting path
  · intro r follows
    obtain ⟨j, found, aliased⟩ := joined r follows
    refine ⟨j, ?_, fun a column h => (resolved.mp h).2.trans aliased⟩
    rw [scope]
    exact found
  · intro none
    obtain ⟨same, aliased⟩ := alone none
    refine ⟨?_, fun a column h => (resolved.mp h).2.trans (aliased _)⟩
    rw [scope, same]
  · rw [scope]

/-- A column of a related table whose name is taken already, and a relation that nothing comes after. -/
theorem resolve_exact_town :
    let users : Entity := ⟨"User", "users", [.make "age" (.scalar .integer),
      .make "town" (.relation ⟨"Town", "town_id", "id"⟩)], by decide⟩
    let size := Column.make "size" (.scalar .integer)
    let towns : Entity := ⟨"Town", "towns", [size], by decide⟩
    let s : Scope := .new "towns"
    let found (path : List String) := s.resolve ⟨[towns, users]⟩ users "towns" ⟨path⟩
    Catalog.ofEntities [towns, users] = .ok ⟨[towns, users]⟩ ∧ users ∈ [towns, users] ∧
      Catalog.Names ⟨[towns, users]⟩ users ["town", "size"] size ∧
      (found ["town", "size"]).1 = .resolved "towns_1" size ∧
      (∃ j, (found ["town", "size"]).2.1.join? "towns" "town" = some j ∧ "towns_1" = j.targetAlias) ∧
      (found ["town"]).2.1 = s := by
  intro users size towns s found
  have sorted : Catalog.inOrder [towns, users] = [towns, users] :=
    List.mergeSort_of_pairwise (by decide)
  have made : Catalog.ofEntities [towns, users] = .ok ⟨[towns, users]⟩ := by
    rw [Catalog.ofEntities_eq (by decide), sorted]
    rfl
  have known : users ∈ [towns, users] := by simp
  have resolved : (found ["town", "size"]).1 = .resolved "towns_1" size := by decide
  obtain ⟨-, named, -, -, joined, -⟩ := resolve_exact made known s "towns" ⟨["town", "size"]⟩
  obtain ⟨-, -, -, -, -, alone, -⟩ := resolve_exact made known s "towns" ⟨["town"]⟩
  have follows : users.Follows ["town", "size"] "town" :=
    ⟨⟨_, List.mem_cons_of_mem _ List.mem_cons_self, rfl, rfl⟩, "size", [], rfl⟩
  obtain ⟨j, registered, aliased⟩ := joined "town" follows
  refine ⟨made, known, (named size).mp ⟨_, resolved⟩, resolved, ⟨j, registered, aliased _ _ resolved⟩, ?_⟩
  refine (alone ?_).1
  rintro r ⟨-, _, _, goesOn⟩
  cases goesOn

end Scope

end SearchFilter
