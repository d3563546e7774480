import Mathlib.Data.List.Perm.Basic
import SearchFilter.Proofs.ByteOrder
import SearchFilter.Proofs.Resolution

/-!
# Which definitions make a catalog

A definition makes a catalog exactly if its entities have different names, the columns of each have
different names and a type or a relation, and every relation leads to an entity of the definition. If
several of these rules are broken, one fault is reported: that of the first entity in order, or, if each
entity is sound by itself, the first dangling relation of the entity that comes first by name. The order
of the entities matters for the fault but not for the catalog.
-/

namespace SearchFilter

/-! ### Rules for definitions -/

/-- The relation of the column leads to none of some entities. -/
def ColumnDefinition.Dangles (names : List String) (c : ColumnDefinition) : Prop :=
  ∃ r, c.relation = some r ∧ r.entity ∉ names

namespace Definition

/-- The names of the entities. -/
def names (d : Definition) : List String := d.entities.map EntityDefinition.name

/-- The rules that a definition follows to make a catalog. -/
structure Valid (d : Definition) : Prop where
  /-- No two entities have one name. -/
  names : d.names.Nodup
  /-- No two columns of an entity have one name. -/
  properties : ∀ e ∈ d.entities, (e.columns.map ColumnDefinition.property).Nodup
  /-- Every column has a type or a relation. -/
  typed : ∀ e ∈ d.entities, ∀ c ∈ e.columns, c.IsTyped
  /-- Every relation leads to an entity of the definition. -/
  targets : ∀ e ∈ d.entities, ∀ c ∈ e.columns, ∀ r, c.relation = some r → r.entity ∈ d.names

/-- The fault that is reported of a definition. -/
inductive Fault (d : Definition) : SchemaError → Prop where
  /-- That of the first faulty entity. -/
  | entity {before after : List EntityDefinition} {e : EntityDefinition} {error : SchemaError} :
      d.entities = before ++ e :: after → EntityDefinition.AllSound before → e.FaultAfter before error →
      Fault d error
  /-- All entities are sound. Of those with a relation that leads nowhere, the first one by the bytes of
  its name; of its relations, the first one that does. -/
  | relation {e : EntityDefinition} {before after : List ColumnDefinition} {c : ColumnDefinition}
      {r : RelationDefinition} : EntityDefinition.AllSound d.entities → e ∈ d.entities →
      (∀ other ∈ d.entities, (∃ c ∈ other.columns, c.Dangles d.names) →
        Text.bytes e.name ≤ Text.bytes other.name) →
      e.columns = before ++ c :: after → (∀ b ∈ before, ¬ b.Dangles d.names) →
      c.relation = some r → r.entity ∉ d.names →
      Fault d (.unknownRelationTarget e.name c.property r.entity)

end Definition

/-! ### Relations -/

/-- No declared type makes a column a relation. -/
theorem Category.ofTypeName_ne_relation {name : String} {listed : Bool} {target : RelationTarget} :
    Category.ofTypeName name listed ≠ .relation target := by
  unfold Category.ofTypeName
  split
  · exact nofun
  · dsimp only
    split
    · exact nofun
    · split <;> exact nofun

theorem ColumnDefinition.Describes.target? {c : ColumnDefinition} {column : Column}
    (h : c.Describes column) :
    column.target? = c.relation.map fun r => ⟨r.entity, r.localColumn, r.foreignColumn⟩ := by
  obtain ⟨property, physical, category, nullable⟩ := column
  rw [Column.target?]
  cases h.category with
  | relation relation => simp [relation]
  | type relation _ =>
    rw [relation]
    split
    · next same => exact absurd same Category.ofTypeName_ne_relation
    · rfl

namespace EntityDefinition

variable {e : EntityDefinition}

/-- The fault of the first relation that leads to none of some entities. -/
def dangling? (names : List String) (e : EntityDefinition) : Option SchemaError :=
  e.columns.findSome? fun c => c.relation.bind fun r =>
    if r.entity ∈ names then none else some (.unknownRelationTarget e.name c.property r.entity)

theorem Describes.dangling? {entity : Entity} (h : e.Describes entity) (names : List String) :
    Catalog.dangling? names entity = e.dangling? names := by
  refine (findSome?_of_forall₂ h.columns fun c column described => ?_).symm
  rw [Catalog.danglingColumn?, described.target?, described.property, h.name]
  cases c.relation <;> rfl

theorem dangling_eq_none_iff {names : List String} {c : ColumnDefinition} :
    (c.relation.bind fun r => if r.entity ∈ names then none else
      some (SchemaError.unknownRelationTarget e.name c.property r.entity)) = none ↔
        ¬ c.Dangles names := by
  unfold ColumnDefinition.Dangles
  cases c.relation with
  | none => simp
  | some r => by_cases known : r.entity ∈ names <;> simp [known]

theorem dangling?_eq_none_iff {names : List String} :
    e.dangling? names = none ↔ ∀ c ∈ e.columns, ¬ c.Dangles names := by
  rw [EntityDefinition.dangling?, List.findSome?_eq_none_iff]
  simp only [dangling_eq_none_iff]

theorem dangling?_eq_some_iff {names : List String} {error : SchemaError} :
    e.dangling? names = some error ↔ ∃ before c after r, e.columns = before ++ c :: after ∧
      (∀ b ∈ before, ¬ b.Dangles names) ∧ c.relation = some r ∧ r.entity ∉ names ∧
        error = .unknownRelationTarget e.name c.property r.entity := by
  rw [EntityDefinition.dangling?, List.findSome?_eq_some_iff]
  simp only [dangling_eq_none_iff]
  constructor
  · rintro ⟨before, c, after, split, found, none⟩
    obtain ⟨r, relation, reported⟩ := Option.bind_eq_some_iff.mp found
    split at reported
    · cases reported
    · next unknown =>
      cases reported
      exact ⟨before, c, after, r, split, none, relation, unknown, rfl⟩
  · rintro ⟨before, c, after, r, split, none, relation, unknown, rfl⟩
    refine ⟨before, c, after, split, ?_, none⟩
    rw [relation, Option.bind_some, if_neg unknown]

end EntityDefinition

/-! ### Catalogs -/

namespace Catalog

variable {entities : List Entity}

/-- Entities in ascending order of their names. -/
def inOrder (entities : List Entity) : List Entity := entities.mergeSort fun a b => a.name ≤ b.name

theorem mem_inOrder {entity : Entity} : entity ∈ inOrder entities ↔ entity ∈ entities :=
  (List.mergeSort_perm _ _).mem_iff

/-- Entities of different names are in strictly ascending order. -/
theorem pairwise_inOrder (distinct : (entities.map Entity.name).Nodup) :
    (inOrder entities).Pairwise fun a b => a.name < b.name := by
  have ascending : (inOrder entities).Pairwise fun a b => a.name ≤ b.name := by
    have sorted := @List.pairwise_mergeSort Entity (fun a b => decide (a.name ≤ b.name))
      (fun a b c hab hbc => decide_eq_true (le_trans (of_decide_eq_true hab) (of_decide_eq_true hbc)))
      (fun a b => by simpa using le_total a.name b.name) entities
    exact sorted.imp of_decide_eq_true
  have differ : (inOrder entities).Pairwise fun a b => a.name ≠ b.name := by
    rw [← List.pairwise_map]
    exact ((List.mergeSort_perm _ _).map Entity.name).nodup_iff.mpr distinct
  exact (ascending.and differ).imp fun h => lt_of_le_of_ne h.1 h.2

/-- The order in which entities are given makes no difference. -/
theorem inOrder_congr {others : List Entity} (same : entities.Perm others)
    (distinct : (entities.map Entity.name).Nodup) : inOrder entities = inOrder others := by
  refine List.Perm.eq_of_pairwise ?_ (pairwise_inOrder distinct)
    (pairwise_inOrder ((same.map Entity.name).nodup_iff.mp distinct)) ?_
  · intro a b _ _ less greater
    exact absurd greater (lt_asymm less)
  · exact (List.mergeSort_perm _ _).trans (same.trans (List.mergeSort_perm _ _).symm)

theorem dangling?_congr {names other : List String} (same : ∀ n, n ∈ names ↔ n ∈ other)
    (entity : Entity) : dangling? names entity = dangling? other entity := by
  unfold dangling? danglingColumn?
  simp only [same]

/-- Entities of different names make a catalog, or are refused for the first relation that leads to none
of them. -/
theorem ofEntities_eq (distinct : (entities.map Entity.name).Nodup) :
    ofEntities entities =
      match (inOrder entities).findSome? (dangling? (entities.map Entity.name)) with
      | some error => .error error
      | none => .ok ⟨inOrder entities⟩ := by
  have same : dangling? ((inOrder entities).map Entity.name) = dangling? (entities.map Entity.name) :=
    funext (dangling?_congr fun n => ((List.mergeSort_perm _ _).map Entity.name).mem_iff)
  rw [ofEntities, firstRepeated?_eq_none_iff.mpr ⟨distinct, fun _ _ => List.not_mem_nil⟩]
  simp only [← same]
  rfl

end Catalog

namespace EntityDefinition

theorem FaultAfter.not_allSound {prior : List EntityDefinition} {e : EntityDefinition}
    {error : SchemaError} (h : e.FaultAfter prior error) : ¬ AllSound (prior ++ [e]) := by
  rw [allSound_append_singleton]
  rintro ⟨-, new, sound⟩
  cases h with
  | repeated old => exact new old
  | own _ fault => exact not_sound_of_fault fault sound

theorem map_name {es : List EntityDefinition} {entities : List Entity}
    (h : List.Forall₂ Describes es entities) : entities.map Entity.name = es.map name := by
  induction h with
  | nil => rfl
  | cons described _ ih => rw [List.map_cons, List.map_cons, ih, described.name]

variable {es : List EntityDefinition} {entities : List Entity}

theorem firstDangling_eq_none_iff (described : List.Forall₂ Describes es entities) (names : List String) :
    (Catalog.inOrder entities).findSome? (Catalog.dangling? names) = none ↔
      ∀ e ∈ es, ∀ c ∈ e.columns, ¬ c.Dangles names := by
  rw [List.findSome?_eq_none_iff]
  constructor
  · intro none e he
    obtain ⟨entity, hentity, h⟩ := exists_right_of_forall₂ described he
    rw [← dangling?_eq_none_iff, ← h.dangling?]
    exact none entity (Catalog.mem_inOrder.mpr hentity)
  · intro none entity hentity
    obtain ⟨e, he, h⟩ := exists_left_of_forall₂ described (Catalog.mem_inOrder.mp hentity)
    rw [h.dangling?, dangling?_eq_none_iff]
    exact none e he

/-- The relation that is reported is one of the entity that comes first by name among those with a
relation that leads nowhere. -/
theorem exists_of_firstDangling (described : List.Forall₂ Describes es entities)
    (distinct : (es.map name).Nodup) {names : List String} {error : SchemaError}
    (found : (Catalog.inOrder entities).findSome? (Catalog.dangling? names) = some error) :
    ∃ e ∈ es, (∀ other ∈ es, (∃ c ∈ other.columns, c.Dangles names) → e.name ≤ other.name) ∧
      e.dangling? names = some error := by
  obtain ⟨before, entity, after, split, reported, none⟩ := List.findSome?_eq_some_iff.mp found
  have ordered := Catalog.pairwise_inOrder (map_name described ▸ distinct)
  rw [split, List.pairwise_append] at ordered
  have member : entity ∈ entities := by
    rw [← Catalog.mem_inOrder, split]
    exact List.mem_append_right _ List.mem_cons_self
  obtain ⟨e, he, h⟩ := exists_left_of_forall₂ described member
  refine ⟨e, he, fun other ho dangles => ?_, h.dangling? names ▸ reported⟩
  obtain ⟨place, hplace, hother⟩ := exists_right_of_forall₂ described ho
  rw [← Catalog.mem_inOrder, split, List.mem_append, List.mem_cons] at hplace
  rw [← h.name, ← hother.name]
  rcases hplace with earlier | rfl | later
  · -- an entity before it has no such relation
    obtain ⟨c, hc, dangles⟩ := dangles
    have missing := none place earlier
    rw [hother.dangling?, dangling?_eq_none_iff] at missing
    exact absurd dangles (missing c hc)
  · exact le_rfl
  · exact le_of_lt ((List.pairwise_cons.mp ordered.2.1).1 place later)

theorem firstDangling_eq_some_iff (described : List.Forall₂ Describes es entities)
    (distinct : (es.map name).Nodup) {names : List String} {error : SchemaError} :
    (Catalog.inOrder entities).findSome? (Catalog.dangling? names) = some error ↔
      ∃ e ∈ es, (∀ other ∈ es, (∃ c ∈ other.columns, c.Dangles names) → e.name ≤ other.name) ∧
        e.dangling? names = some error := by
  refine ⟨exists_of_firstDangling described distinct, ?_⟩
  rintro ⟨e, he, least, reported⟩
  have dangles {x : EntityDefinition} {error : SchemaError} (h : x.dangling? names = some error) :
      ∃ c ∈ x.columns, c.Dangles names := by
    by_contra none
    rw [dangling?_eq_none_iff.mpr fun c hc dangles => none ⟨c, hc, dangles⟩] at h
    cases h
  cases found : (Catalog.inOrder entities).findSome? (Catalog.dangling? names) with
  | none =>
    obtain ⟨c, hc, dangling⟩ := dangles reported
    exact absurd dangling ((firstDangling_eq_none_iff described names).mp found e he c hc)
  | some other =>
    -- the entity that is reported comes first too, so it is the same one
    obtain ⟨x, hx, first, same⟩ := exists_of_firstDangling described distinct found
    have names_eq : x.name = e.name := le_antisymm (first e he (dangles reported)) (least x hx (dangles same))
    obtain rfl := List.inj_on_of_nodup_map distinct hx he names_eq
    rw [← same, reported]

theorem resolveAll_eq_ok : resolveAll [] es = .ok entities ↔
    AllSound es ∧ List.Forall₂ Describes es entities :=
  @resolveAll_eq_ok_iff es entities [] [] ⟨List.nodup_nil, nofun⟩ fun _ => Iff.rfl

theorem resolveAll_eq_error {error : SchemaError} : resolveAll [] es = .error error ↔
    ∃ before e after, es = before ++ e :: after ∧ AllSound before ∧ e.FaultAfter before error :=
  @resolveAll_eq_error_iff es error [] [] ⟨List.nodup_nil, nofun⟩ fun _ => Iff.rfl

/-- Sound definitions of different names are resolved. -/
theorem AllSound.exists_entities (sound : AllSound es) : ∃ entities,
    resolveAll [] es = .ok entities ∧ List.Forall₂ Describes es entities := by
  cases resolved : resolveAll [] es with
  | ok entities => exact ⟨entities, rfl, (resolveAll_eq_ok.mp resolved).2⟩
  | error error =>
    obtain ⟨before, e, after, rfl, -, fault⟩ := resolveAll_eq_error.mp resolved
    rw [List.append_cons] at sound
    exact absurd sound.left fault.not_allSound

end EntityDefinition

/-- A column is found by its name. -/
theorem Entity.column?_eq_some_iff {e : Entity} {property : String} {column : Column} :
    e.column? property = some column ↔ column ∈ e.columns ∧ column.property = property :=
  find?_eq_some_iff_of_nodup e.distinct

/-- The catalog that a definition describes. -/
structure Definition.Describes (d : Definition) (catalog : Catalog) : Prop where
  /-- Its entities are those that are described, with their columns in order. -/
  entities : ∀ entity, entity ∈ catalog.entities ↔ ∃ e ∈ d.entities, e.Describes entity
  /-- They are in ascending order of the bytes of their names. -/
  ascending : (catalog.entities.map fun entity => Text.bytes entity.name).Pairwise (· < ·)
  /-- An entity is found by its name. -/
  lookup : ∀ name entity, catalog.entity? name = some entity ↔
    entity ∈ catalog.entities ∧ entity.name = name
  /-- Something is found exactly for the names that are defined. -/
  known : ∀ name, (catalog.entity? name).isSome = true ↔ name ∈ d.names
  /-- A column is found by its name. -/
  columns : ∀ entity ∈ catalog.entities, ∀ property column,
    entity.column? property = some column ↔ column ∈ entity.columns ∧ column.property = property

namespace Catalog

variable {d : Definition}

/-- Sound entities make a catalog, or are refused for the first relation that leads nowhere. -/
theorem ofDefinition_of_allSound (sound : EntityDefinition.AllSound d.entities) {entities : List Entity}
    (described : List.Forall₂ EntityDefinition.Describes d.entities entities) :
    ofDefinition d =
      match (inOrder entities).findSome? (dangling? d.names) with
      | some error => .error error
      | none => .ok ⟨inOrder entities⟩ := by
  have resolved : EntityDefinition.resolveAll [] d.entities = .ok entities :=
    EntityDefinition.resolveAll_eq_ok.mpr ⟨sound, described⟩
  have names := EntityDefinition.map_name described
  rw [ofDefinition, resolved]
  show ofEntities entities = _
  rw [ofEntities_eq (names ▸ sound.names), names]
  rfl

theorem allSound_of_ofDefinition {catalog : Catalog} (h : ofDefinition d = .ok catalog) :
    EntityDefinition.AllSound d.entities := by
  cases resolved : EntityDefinition.resolveAll [] d.entities with
  | ok entities => exact (EntityDefinition.resolveAll_eq_ok.mp resolved).1
  | error error =>
    rw [ofDefinition, resolved] at h
    cases h

theorem valid_iff : d.Valid ↔ EntityDefinition.AllSound d.entities ∧
    ∀ e ∈ d.entities, ∀ c ∈ e.columns, ¬ c.Dangles d.names := by
  constructor
  · intro h
    refine ⟨⟨h.names, fun e he => ⟨h.typed e he, h.properties e he⟩⟩, ?_⟩
    rintro e he c hc ⟨r, relation, unknown⟩
    exact unknown (h.targets e he c hc r relation)
  · rintro ⟨sound, none⟩
    refine ⟨sound.names, fun e he => (sound.each e he).distinct, fun e he => (sound.each e he).typed, ?_⟩
    intro e he c hc r relation
    by_contra unknown
    exact none e he c hc ⟨r, relation, unknown⟩

/-- A valid definition makes the catalog of the entities it describes, in order. -/
theorem ofDefinition_eq_ok_iff {catalog : Catalog} :
    ofDefinition d = .ok catalog ↔ d.Valid ∧ ∃ entities,
      List.Forall₂ EntityDefinition.Describes d.entities entities ∧ catalog = ⟨inOrder entities⟩ := by
  rw [valid_iff]
  constructor
  · intro h
    have sound := allSound_of_ofDefinition h
    obtain ⟨entities, -, described⟩ := sound.exists_entities
    rw [ofDefinition_of_allSound sound described] at h
    split at h
    · cases h
    · next none =>
      cases h
      refine ⟨⟨sound, ?_⟩, entities, described, rfl⟩
      exact (EntityDefinition.firstDangling_eq_none_iff described d.names).mp none
  · rintro ⟨⟨sound, none⟩, entities, described, rfl⟩
    rw [ofDefinition_of_allSound sound described,
      (EntityDefinition.firstDangling_eq_none_iff described d.names).mpr none]

/-- A definition that is not valid is refused for its fault. -/
theorem ofDefinition_eq_error_iff {error : SchemaError} :
    ofDefinition d = .error error ↔ d.Fault error := by
  cases resolved : EntityDefinition.resolveAll [] d.entities with
  | error other =>
    have refused : ofDefinition d = .error other := by
      rw [ofDefinition, resolved]
      rfl
    rw [refused]
    constructor
    · intro h
      cases h
      obtain ⟨before, e, after, split, sound, fault⟩ := EntityDefinition.resolveAll_eq_error.mp resolved
      exact .entity split sound fault
    · rintro (⟨split, sound, fault⟩ | ⟨sound, -, -, -, -, -, -⟩)
      · rw [EntityDefinition.resolveAll_eq_error.mpr ⟨_, _, _, split, sound, fault⟩] at resolved
        cases resolved
        rfl
      · obtain ⟨entities, found, -⟩ := sound.exists_entities
        rw [found] at resolved
        cases resolved
  | ok entities =>
    obtain ⟨sound, described⟩ := EntityDefinition.resolveAll_eq_ok.mp resolved
    have reported : ofDefinition d = .error error ↔
        (inOrder entities).findSome? (dangling? d.names) = some error := by
      rw [ofDefinition_of_allSound sound described]
      cases (inOrder entities).findSome? (dangling? d.names) <;> simp
    rw [reported, EntityDefinition.firstDangling_eq_some_iff described sound.names]
    simp only [EntityDefinition.dangling?_eq_some_iff, ← Text.bytes_le_iff]
    constructor
    · rintro ⟨e, he, least, before, c, after, r, split, none, relation, unknown, rfl⟩
      exact .relation sound he least split none relation unknown
    · rintro (⟨split, -, fault⟩ | ⟨-, he, least, split, none, relation, unknown⟩)
      · rw [split, List.append_cons] at sound
        exact absurd sound.left fault.not_allSound
      · exact ⟨_, he, least, _, _, _, _, split, none, relation, unknown, rfl⟩

/-- The catalog that is made is the one that is described. -/
theorem describes_of_ofDefinition {catalog : Catalog} (h : ofDefinition d = .ok catalog) :
    d.Describes catalog := by
  obtain ⟨valid, entities, described, rfl⟩ := ofDefinition_eq_ok_iff.mp h
  have names : entities.map Entity.name = d.names := EntityDefinition.map_name described
  have ordered := pairwise_inOrder (names ▸ valid.names)
  have lookup (name : String) (entity : Entity) :
      entity? ⟨inOrder entities⟩ name = some entity ↔ entity ∈ inOrder entities ∧ entity.name = name :=
    find?_eq_some_iff_of_nodup (List.pairwise_map.mpr (ordered.imp ne_of_lt))
  refine ⟨fun entity => ?_, ?_, lookup, fun name => ?_, fun entity _ property column => ?_⟩
  · rw [mem_inOrder]
    constructor
    · exact exists_left_of_forall₂ described
    · rintro ⟨e, he, h⟩
      obtain ⟨other, member, same⟩ := exists_right_of_forall₂ described he
      rw [← EntityDefinition.resolve_eq_ok_iff] at h same
      rw [h] at same
      cases same
      exact member
  · exact List.pairwise_map.mpr (ordered.imp Text.bytes_lt)
  · rw [Option.isSome_iff_exists, ← names, List.mem_map]
    simp only [lookup, mem_inOrder]
  · exact Entity.column?_eq_some_iff

/-- The order in which entities are defined makes no difference for the catalog. -/
theorem ofDefinition_perm {permuted : Definition} (same : permuted.entities.Perm d.entities)
    {catalog : Catalog} (h : ofDefinition d = .ok catalog) : ofDefinition permuted = .ok catalog := by
  obtain ⟨valid, entities, described, rfl⟩ := ofDefinition_eq_ok_iff.mp h
  obtain ⟨others, describes, perm⟩ := List.perm_comp_forall₂ same described
  have names := same.map EntityDefinition.name
  have distinct : permuted.names.Nodup := names.nodup_iff.mpr valid.names
  refine ofDefinition_eq_ok_iff.mpr ⟨?_, others, describes, ?_⟩
  · refine ⟨distinct, ?_, ?_, ?_⟩
    · exact fun e he => valid.properties e (same.mem_iff.mp he)
    · exact fun e he => valid.typed e (same.mem_iff.mp he)
    · exact fun e he c hc r relation =>
        names.mem_iff.mpr (valid.targets e (same.mem_iff.mp he) c hc r relation)
  · have named : others.map Entity.name = permuted.names := EntityDefinition.map_name describes
    rw [inOrder_congr perm (named ▸ distinct)]

/-- A definition makes a catalog exactly if it is valid; if not, its fault is reported. The catalog is
the one that is described, in whatever order the entities are defined. -/
theorem ofDefinition_spec (d : Definition) :
    ((∃ catalog, ofDefinition d = .ok catalog) ↔ d.Valid) ∧
      (∀ error, ofDefinition d = .error error ↔ d.Fault error) ∧
      ∀ catalog, ofDefinition d = .ok catalog →
        d.Describes catalog ∧
          ∀ permuted : Definition, permuted.entities.Perm d.entities →
            ofDefinition permuted = .ok catalog := by
  refine ⟨⟨?_, fun valid => ?_⟩, fun error => ofDefinition_eq_error_iff, fun catalog h => ⟨?_, ?_⟩⟩
  · rintro ⟨catalog, h⟩
    exact (ofDefinition_eq_ok_iff.mp h).1
  · obtain ⟨entities, -, described⟩ := (valid_iff.mp valid).1.exists_entities
    exact ⟨_, ofDefinition_eq_ok_iff.mpr ⟨valid, entities, described, rfl⟩⟩
  · exact describes_of_ofDefinition h
  · exact fun permuted same => ofDefinition_perm same h

/-- A valid definition whose entities do not stand in the order of their names: in either order they make
the catalog that is described. -/
theorem ofDefinition_spec_pair :
    let user : EntityDefinition := ⟨"User", some "users", [⟨"age", none, some "int", true, false, none⟩,
      ⟨"home", none, none, false, false, some ⟨"Address", "home_id", "id"⟩⟩]⟩
    let address : EntityDefinition := ⟨"Address", none, [⟨"city", none, some "text", false, false, none⟩]⟩
    Definition.Valid ⟨[user, address]⟩ ∧ ∃ catalog, ofDefinition ⟨[user, address]⟩ = .ok catalog ∧
      Definition.Describes ⟨[user, address]⟩ catalog ∧ ofDefinition ⟨[address, user]⟩ = .ok catalog := by
  intro user address
  have valid : Definition.Valid ⟨[user, address]⟩ := by
    refine ⟨by decide, by decide, ?_, ?_⟩
    · simp [user, address, ColumnDefinition.IsTyped]
    · simp [user, address, Definition.names]
  obtain ⟨made, -, described⟩ := ofDefinition_spec ⟨[user, address]⟩
  obtain ⟨catalog, h⟩ := made.mpr valid
  exact ⟨valid, catalog, h, (described catalog h).1, (described catalog h).2 _ (.swap user address [])⟩

end Catalog

end SearchFilter
