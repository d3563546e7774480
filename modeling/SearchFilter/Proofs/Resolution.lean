import Mathlib.Data.List.Forall2
import Mathlib.Data.List.Nodup
import SearchFilter.Schema.Catalog

/-!
# Entities from their definitions

What the definition of a column or of an entity describes, and the fault that is reported if it
describes nothing. Definitions of entities are taken in order, and the first one with a fault is
reported; a name that was used before counts as the first fault of an entity.
-/

namespace SearchFilter

/-! ### What a definition describes -/

namespace ColumnDefinition

/-- The column has a type or a relation. -/
def IsTyped (c : ColumnDefinition) : Prop := c.typeName.isSome = true ∨ c.relation.isSome = true

/-- What the column holds: a relation wins over a type. -/
inductive Holds (c : ColumnDefinition) : Category → Prop where
  /-- The key of a related entity. -/
  | relation {r : RelationDefinition} : c.relation = some r →
      Holds c (.relation ⟨r.entity, r.localColumn, r.foreignColumn⟩)
  /-- Values of the declared type. -/
  | type {name : String} : c.relation = none → c.typeName = some name →
      Holds c (.ofTypeName name c.array)

/-- A column is the one that the definition describes. -/
structure Describes (c : ColumnDefinition) (column : Column) : Prop where
  /-- It has the name queries use. -/
  property : column.property = c.property
  /-- It has its own name in the database, or the same. -/
  physical : column.physical = c.column.getD c.property
  /-- It holds what the definition says. -/
  category : c.Holds column.category
  /-- It may hold no value if the definition says so. -/
  nullable : column.nullable = c.nullable

end ColumnDefinition

namespace EntityDefinition

/-- An entity is the one that the definition describes, with its columns in order. -/
structure Describes (e : EntityDefinition) (entity : Entity) : Prop where
  /-- It has the name. -/
  name : entity.name = e.name
  /-- It has the table. -/
  table : entity.table = e.tableName
  /-- It has the columns. -/
  columns : List.Forall₂ ColumnDefinition.Describes e.columns entity.columns

/-- Every column has a type or a relation, and no two have one name. -/
structure Sound (e : EntityDefinition) : Prop where
  /-- Every column has a type or a relation. -/
  typed : ∀ c ∈ e.columns, c.IsTyped
  /-- No two columns have one name. -/
  distinct : (e.columns.map ColumnDefinition.property).Nodup

/-- The fault that is reported of an entity that is not sound. A missing type comes before a repeated
name, wherever the two stand. -/
inductive Fault (e : EntityDefinition) : SchemaError → Prop where
  /-- The first column without a type and without a relation. -/
  | untyped {before after : List ColumnDefinition} {c : ColumnDefinition} :
      e.columns = before ++ c :: after → (∀ b ∈ before, b.IsTyped) → ¬ c.IsTyped →
      Fault e (.missingType e.name c.property)
  /-- The first name of a column that stands before. -/
  | repeated {before after : List String} {property : String} : (∀ c ∈ e.columns, c.IsTyped) →
      e.columns.map ColumnDefinition.property = before ++ property :: after → before.Nodup →
      property ∈ before → Fault e (.duplicateProperty e.name property)

/-- The fault that is reported of an entity after some others: that of its name comes first. -/
inductive FaultAfter (prior : List EntityDefinition) (e : EntityDefinition) : SchemaError → Prop where
  /-- Another entity has the name. -/
  | repeated : e.name ∈ prior.map name → FaultAfter prior e (.duplicateEntity e.name)
  /-- The name is new, and the entity is not sound. -/
  | own {error : SchemaError} : e.name ∉ prior.map name → e.Fault error → FaultAfter prior e error

/-- Sound entities of different names. -/
structure AllSound (es : List EntityDefinition) : Prop where
  /-- No two entities have one name. -/
  names : (es.map name).Nodup
  /-- Each of them is sound. -/
  each : ∀ e ∈ es, e.Sound

end EntityDefinition

/-! ### Columns -/

namespace ColumnDefinition

variable {c : ColumnDefinition} {entity : String}

theorem resolve_eq_ok_iff {column : Column} : c.resolve entity = .ok column ↔ c.Describes column := by
  obtain ⟨property, physical, category, nullable⟩ := column
  constructor
  · intro h
    unfold resolve at h
    split at h
    · next r relation =>
      cases h
      exact ⟨rfl, rfl, .relation relation, rfl⟩
    · next name relation type =>
      cases h
      exact ⟨rfl, rfl, .type relation type, rfl⟩
    · cases h
  · rintro ⟨rfl, rfl, holds, rfl⟩
    cases holds with
    | relation relation =>
      unfold resolve
      rw [relation]
    | type relation type =>
      unfold resolve
      rw [relation, type]
      rfl

theorem resolve_eq_error_iff {error : SchemaError} :
    c.resolve entity = .error error ↔ ¬ c.IsTyped ∧ error = .missingType entity c.property := by
  unfold resolve IsTyped
  cases c.relation with
  | some r => simp
  | none =>
    cases c.typeName with
    | some name => simp
    | none => simp [eq_comm]

theorem isTyped_iff (entity : String) : c.IsTyped ↔ ∃ column, c.resolve entity = .ok column := by
  constructor
  · intro typed
    cases h : c.resolve entity with
    | ok column => exact ⟨column, rfl⟩
    | error error => exact absurd typed (resolve_eq_error_iff.mp h).1
  · rintro ⟨column, h⟩
    by_contra untyped
    rw [resolve_eq_error_iff.mpr ⟨untyped, rfl⟩] at h
    cases h

end ColumnDefinition

/-! ### Lists -/

section Lists

variable {α β : Type} {R : α → β → Prop} {xs : List α} {ys : List β}

/-- An item with what stands before it is the first one, or one of those after it. -/
theorem exists_split_cons {P : List α → α → Prop} {a : α} :
    (∃ before x after, a :: xs = before ++ x :: after ∧ P before x) ↔
      P [] a ∨ ∃ before x after, xs = before ++ x :: after ∧ P (a :: before) x := by
  constructor
  · rintro ⟨before, x, after, split, h⟩
    cases before with
    | nil =>
      cases split
      exact .inl h
    | cons b before =>
      cases split
      exact .inr ⟨before, x, after, rfl, h⟩
  · rintro (h | ⟨before, x, after, rfl, h⟩)
    · exact ⟨[], a, xs, rfl, h⟩
    · exact ⟨a :: before, x, after, rfl, h⟩

theorem exists_right_of_forall₂ (h : List.Forall₂ R xs ys) {x : α} (hx : x ∈ xs) :
    ∃ y ∈ ys, R x y := by
  induction h with
  | nil => cases hx
  | @cons a b _ _ related _ ih =>
    rcases List.mem_cons.mp hx with rfl | hx
    · exact ⟨b, List.mem_cons_self, related⟩
    · obtain ⟨y, hy, related⟩ := ih hx
      exact ⟨y, List.mem_cons_of_mem _ hy, related⟩

theorem exists_left_of_forall₂ (h : List.Forall₂ R xs ys) {y : β} (hy : y ∈ ys) :
    ∃ x ∈ xs, R x y :=
  exists_right_of_forall₂ (List.Forall₂.flip (R := flip R) h) hy

/-- Of items that have different names, the one of a name is found. -/
theorem find?_eq_some_iff_of_nodup {name : α → String} {n : String} {a : α} (distinct : (xs.map name).Nodup) :
    (xs.find? fun x => name x = n) = some a ↔ a ∈ xs ∧ name a = n := by
  constructor
  · intro h
    exact ⟨List.mem_of_find?_eq_some h, by simpa using List.find?_some h⟩
  · rintro ⟨ha, rfl⟩
    cases found : xs.find? fun x => name x = name a with
    | none => exact absurd (decide_eq_true rfl) (List.find?_eq_none.mp found a ha)
    | some b =>
      have same : name b = name a := by simpa using List.find?_some found
      rw [List.inj_on_of_nodup_map distinct (List.mem_of_find?_eq_some found) ha same]

theorem findSome?_of_forall₂ {γ : Type} {f : α → Option γ} {g : β → Option γ}
    (h : List.Forall₂ R xs ys) (same : ∀ x y, R x y → f x = g y) : xs.findSome? f = ys.findSome? g := by
  induction h with
  | nil => rfl
  | cons related _ ih => rw [List.findSome?_cons, List.findSome?_cons, same _ _ related, ih]

end Lists

section Except

variable {α β ε : Type} {f : α → Except ε β}

theorem mapM_eq_ok_iff {xs : List α} {ys : List β} :
    xs.mapM f = .ok ys ↔ List.Forall₂ (fun x y => f x = .ok y) xs ys := by
  induction xs generalizing ys with
  | nil => cases ys <;> simp [pure, Except.pure]
  | cons x xs ih =>
    rw [List.mapM_cons]
    cases hx : f x with
    | error error => cases ys <;> simp [bind, Except.bind, hx]
    | ok y =>
      cases rest : xs.mapM f with
      | error error => cases ys <;> simp [bind, Except.bind, hx, ← ih, rest]
      | ok zs => cases ys <;> simp [bind, Except.bind, pure, Except.pure, hx, ← ih, rest]

/-- The error is that of the first item that is refused. -/
theorem mapM_eq_error_iff {xs : List α} {error : ε} :
    xs.mapM f = .error error ↔ ∃ before x after, xs = before ++ x :: after ∧
      (∀ b ∈ before, ∃ y, f b = .ok y) ∧ f x = .error error := by
  induction xs with
  | nil => simp [pure, Except.pure]
  | cons x xs ih =>
    rw [List.mapM_cons, exists_split_cons]
    cases hx : f x with
    | error other =>
      constructor
      · intro h
        cases h
        exact .inl ⟨nofun, rfl⟩
      · rintro (⟨-, h⟩ | ⟨before, z, after, -, fine, -⟩)
        · cases h
          rfl
        · obtain ⟨y, hy⟩ := fine x List.mem_cons_self
          rw [hx] at hy
          cases hy
    | ok y =>
      have rest : (do let ys ← xs.mapM f; pure (y :: ys) : Except ε (List β)) = .error error ↔
          xs.mapM f = .error error := by
        cases xs.mapM f <;> simp [bind, Except.bind, pure, Except.pure]
      refine rest.trans (ih.trans ?_)
      simp [hx]

end Except

/-- A name is reported as repeated exactly if it is the first one that stands before. -/
theorem firstRepeated?_eq_some_iff {seen names : List String} {n : String} :
    firstRepeated? seen names = some n ↔ ∃ before x after, names = before ++ x :: after ∧
      before.Nodup ∧ (∀ m ∈ before, m ∉ seen) ∧ (x ∈ seen ∨ x ∈ before) ∧ x = n := by
  induction names generalizing seen with
  | nil => simp [firstRepeated?]
  | cons name names ih =>
    rw [firstRepeated?, exists_split_cons]
    by_cases known : name ∈ seen
    · simp [known]
    · rw [if_neg known, ih]
      have first : ¬ (name ∈ seen ∨ name ∈ []) := by simp [known]
      constructor
      · rintro ⟨before, x, after, split, distinct, new, old, rfl⟩
        refine .inr ⟨before, x, after, split, ?_, ?_, ?_, rfl⟩
        · exact List.nodup_cons.mpr ⟨fun h => new name h List.mem_cons_self, distinct⟩
        · exact List.forall_mem_cons.mpr ⟨known, fun m hm h => new m hm (List.mem_cons_of_mem _ h)⟩
        · grind
      · rintro (⟨-, -, old, -⟩ | ⟨before, x, after, split, distinct, new, old, rfl⟩)
        · exact absurd old first
        · rw [List.nodup_cons] at distinct
          refine ⟨before, x, after, split, distinct.2, ?_, ?_, rfl⟩
          · grind
          · grind

theorem firstRepeated?_eq_none_iff {seen names : List String} :
    firstRepeated? seen names = none ↔ names.Nodup ∧ ∀ n ∈ names, n ∉ seen := by
  induction names generalizing seen with
  | nil => simp [firstRepeated?]
  | cons name names ih =>
    rw [firstRepeated?, List.nodup_cons, List.forall_mem_cons]
    by_cases known : name ∈ seen
    · simp [known]
    · rw [if_neg known, ih]
      constructor
      · rintro ⟨distinct, new⟩
        refine ⟨⟨fun h => new name h List.mem_cons_self, distinct⟩, known, fun n hn h => ?_⟩
        exact new n hn (List.mem_cons_of_mem _ h)
      · rintro ⟨⟨absent, distinct⟩, -, new⟩
        refine ⟨distinct, fun n hn h => ?_⟩
        rcases List.mem_cons.mp h with rfl | h
        · exact absent hn
        · exact new n hn h

/-! ### Entities -/

/-- Columns make an entity unless a name is repeated; the first one that is repeated is reported. -/
theorem Entity.make_eq_error_iff {name table : String} {columns : List Column} {error : SchemaError} :
    Entity.make name table columns = .error error ↔ ∃ before property after,
      columns.map Column.property = before ++ property :: after ∧ before.Nodup ∧ property ∈ before ∧
        error = .duplicateProperty name property := by
  unfold Entity.make
  by_cases distinct : (columns.map Column.property).Nodup
  · rw [dif_pos distinct]
    constructor
    · exact nofun
    · rintro ⟨before, property, after, split, -, known, -⟩
      rw [split] at distinct
      exact absurd rfl ((List.nodup_append.mp distinct).2.2 property known property List.mem_cons_self)
  · rw [dif_neg distinct]
    cases first : firstRepeated? [] (columns.map Column.property) with
    | none => exact absurd (firstRepeated?_eq_none_iff.mp first).1 distinct
    | some found =>
      constructor
      · intro h
        cases h
        obtain ⟨before, x, after, split, distinct, -, known, rfl⟩ := firstRepeated?_eq_some_iff.mp first
        rcases known with known | known
        · cases known
        · exact ⟨before, x, after, split, distinct, known, rfl⟩
      · rintro ⟨before, property, after, split, distinct, known, rfl⟩
        have same : firstRepeated? [] (columns.map Column.property) = some property :=
          firstRepeated?_eq_some_iff.mpr
            ⟨before, property, after, split, distinct, fun _ _ => nofun, .inr known, rfl⟩
        rw [first] at same
        cases same
        rfl

theorem ColumnDefinition.map_property {cs : List ColumnDefinition} {columns : List Column}
    (h : List.Forall₂ Describes cs columns) :
    columns.map Column.property = cs.map ColumnDefinition.property := by
  induction h with
  | nil => rfl
  | cons column _ ih => rw [List.map_cons, List.map_cons, ih, column.property]

namespace EntityDefinition

variable {e : EntityDefinition}

theorem mapM_resolve_eq_ok_iff {columns : List Column} :
    e.columns.mapM (ColumnDefinition.resolve e.name) = .ok columns ↔
      List.Forall₂ ColumnDefinition.Describes e.columns columns := by
  rw [mapM_eq_ok_iff]
  simp only [ColumnDefinition.resolve_eq_ok_iff]

theorem mapM_resolve_eq_error_iff {error : SchemaError} :
    e.columns.mapM (ColumnDefinition.resolve e.name) = .error error ↔ ∃ before c after,
      e.columns = before ++ c :: after ∧ (∀ b ∈ before, b.IsTyped) ∧ ¬ c.IsTyped ∧
        error = .missingType e.name c.property := by
  rw [mapM_eq_error_iff]
  simp only [ColumnDefinition.resolve_eq_error_iff, ColumnDefinition.isTyped_iff e.name]

/-- The columns of an entity can be described exactly if each has a type or a relation. -/
theorem exists_columns_iff : (∃ columns, List.Forall₂ ColumnDefinition.Describes e.columns columns) ↔
    ∀ c ∈ e.columns, c.IsTyped := by
  constructor
  · rintro ⟨columns, described⟩ c hc
    obtain ⟨column, -, h⟩ := exists_right_of_forall₂ described hc
    exact (ColumnDefinition.isTyped_iff e.name).mpr ⟨column, ColumnDefinition.resolve_eq_ok_iff.mpr h⟩
  · intro typed
    simp only [← mapM_resolve_eq_ok_iff]
    cases resolved : e.columns.mapM (ColumnDefinition.resolve e.name) with
    | ok columns => exact ⟨columns, rfl⟩
    | error error =>
      obtain ⟨before, c, after, split, -, untyped, -⟩ := mapM_resolve_eq_error_iff.mp resolved
      exact absurd (typed c (split ▸ List.mem_append_right _ List.mem_cons_self)) untyped

/-- A definition of an entity is resolved to the entity it describes. -/
theorem resolve_eq_ok_iff {entity : Entity} : e.resolve = .ok entity ↔ e.Describes entity := by
  rw [resolve]
  cases resolved : e.columns.mapM (ColumnDefinition.resolve e.name) with
  | error error =>
    refine ⟨nofun, fun h => ?_⟩
    rw [mapM_resolve_eq_ok_iff.mpr h.columns] at resolved
    cases resolved
  | ok columns =>
    show Entity.make e.name e.tableName columns = .ok entity ↔ _
    unfold Entity.make
    constructor
    · intro h
      split at h
      · cases h
        exact ⟨rfl, rfl, mapM_resolve_eq_ok_iff.mp resolved⟩
      · cases h
    · intro h
      have same := mapM_resolve_eq_ok_iff.mpr h.columns
      rw [resolved] at same
      cases same
      rw [dif_pos entity.distinct, ← h.name, ← h.table]

/-- A definition of an entity is refused for its fault. -/
theorem resolve_eq_error_iff {error : SchemaError} : e.resolve = .error error ↔ e.Fault error := by
  rw [resolve]
  cases resolved : e.columns.mapM (ColumnDefinition.resolve e.name) with
  | error other =>
    constructor
    · intro h
      cases h
      obtain ⟨before, c, after, split, typed, untyped, rfl⟩ := mapM_resolve_eq_error_iff.mp resolved
      exact .untyped split typed untyped
    · rintro (⟨split, typed, untyped⟩ | ⟨typed, -, -, -⟩)
      · rw [mapM_resolve_eq_error_iff.mpr ⟨_, _, _, split, typed, untyped, rfl⟩] at resolved
        cases resolved
        rfl
      · obtain ⟨columns, described⟩ := exists_columns_iff.mpr typed
        rw [mapM_resolve_eq_ok_iff.mpr described] at resolved
        cases resolved
  | ok columns =>
    have described := mapM_resolve_eq_ok_iff.mp resolved
    have typed := exists_columns_iff.mp ⟨columns, described⟩
    show Entity.make e.name e.tableName columns = .error error ↔ _
    rw [Entity.make_eq_error_iff, ColumnDefinition.map_property described]
    constructor
    · rintro ⟨before, property, after, split, distinct, known, rfl⟩
      exact .repeated typed split distinct known
    · rintro (⟨split, -, untyped⟩ | ⟨-, split, distinct, known⟩)
      · exact absurd (typed _ (split ▸ List.mem_append_right _ List.mem_cons_self)) untyped
      · exact ⟨_, _, _, split, distinct, known, rfl⟩

theorem sound_iff : e.Sound ↔ ∃ entity, e.Describes entity := by
  constructor
  · rintro ⟨typed, distinct⟩
    obtain ⟨columns, described⟩ := exists_columns_iff.mpr typed
    rw [← ColumnDefinition.map_property described] at distinct
    exact ⟨⟨e.name, e.tableName, columns, distinct⟩, rfl, rfl, described⟩
  · rintro ⟨entity, h⟩
    refine ⟨exists_columns_iff.mp ⟨_, h.columns⟩, ?_⟩
    rw [← ColumnDefinition.map_property h.columns]
    exact entity.distinct

theorem not_sound_of_fault {error : SchemaError} (h : e.Fault error) : ¬ e.Sound := by
  rw [← resolve_eq_error_iff] at h
  rw [sound_iff]
  rintro ⟨entity, described⟩
  rw [resolve_eq_ok_iff.mpr described] at h
  cases h

theorem allSound_append_singleton {es : List EntityDefinition} :
    AllSound (es ++ [e]) ↔ AllSound es ∧ e.name ∉ es.map name ∧ e.Sound := by
  constructor
  · rintro ⟨names, each⟩
    rw [List.map_append, List.nodup_append] at names
    rw [List.forall_mem_append, List.forall_mem_singleton] at each
    exact ⟨⟨names.1, each.1⟩, fun h => names.2.2 _ h _ List.mem_cons_self rfl, each.2⟩
  · rintro ⟨⟨names, each⟩, new, sound⟩
    refine ⟨?_, List.forall_mem_append.mpr ⟨each, List.forall_mem_singleton.mpr sound⟩⟩
    rw [List.map_append]
    exact names.append (List.nodup_singleton _) (List.disjoint_singleton.mpr new)

theorem AllSound.left {xs ys : List EntityDefinition} (h : AllSound (xs ++ ys)) : AllSound xs where
  names := by
    have names := h.names
    rw [List.map_append] at names
    exact names.of_append_left
  each e he := h.each e (List.mem_append_left _ he)

theorem mem_names_append_singleton {prior : List EntityDefinition} {seen : List String}
    (known : ∀ n, n ∈ seen ↔ n ∈ prior.map name) (n : String) :
    n ∈ e.name :: seen ↔ n ∈ (prior ++ [e]).map name := by
  rw [List.map_append, List.mem_append, List.mem_cons, known, or_comm]
  simp

/-- Definitions are resolved one by one if they are sound and no two have one name, those of which the
names are known included. -/
theorem resolveAll_eq_ok_iff {es : List EntityDefinition} {entities : List Entity} :
    ∀ {prior : List EntityDefinition} {seen : List String}, AllSound prior →
      (∀ n, n ∈ seen ↔ n ∈ prior.map name) →
      (resolveAll seen es = .ok entities ↔
        AllSound (prior ++ es) ∧ List.Forall₂ Describes es entities) := by
  induction es generalizing entities with
  | nil =>
    intro prior seen sound _
    rw [resolveAll, List.append_nil, List.forall₂_nil_left_iff]
    simp [sound, eq_comm]
  | cons e es ih =>
    intro prior seen sound known
    rw [resolveAll, List.append_cons prior e es]
    by_cases taken : e.name ∈ seen
    · rw [if_pos taken]
      refine ⟨nofun, fun h => ?_⟩
      exact absurd ((known _).mp taken) (allSound_append_singleton.mp h.1.left).2.1
    · rw [if_neg taken]
      have new := fun h => taken ((known e.name).mpr h)
      cases resolved : e.resolve with
      | error error =>
        refine ⟨nofun, fun h => ?_⟩
        exact absurd (allSound_append_singleton.mp h.1.left).2.2
          (not_sound_of_fault (resolve_eq_error_iff.mp resolved))
      | ok entity =>
        have described := resolve_eq_ok_iff.mp resolved
        have sound := allSound_append_singleton.mpr ⟨sound, new, sound_iff.mpr ⟨entity, described⟩⟩
        have rest {others : List Entity} :=
          @ih others (prior ++ [e]) (e.name :: seen) sound (mem_names_append_singleton known)
        constructor
        · intro h
          cases others : resolveAll (e.name :: seen) es with
          | error error =>
            rw [others] at h
            cases h
          | ok entities =>
            rw [others] at h
            cases h
            obtain ⟨all, describe⟩ := rest.mp others
            exact ⟨all, .cons described describe⟩
        · rintro ⟨all, describe⟩
          cases describe with
          | @cons _ other _ others first describe =>
            rw [resolve_eq_ok_iff.mpr first] at resolved
            cases resolved
            rw [rest.mpr ⟨all, describe⟩]
            rfl

/-- Definitions are refused for the first one that is not sound or has a name that is known. -/
theorem resolveAll_eq_error_iff {es : List EntityDefinition} {error : SchemaError} :
    ∀ {prior : List EntityDefinition} {seen : List String}, AllSound prior →
      (∀ n, n ∈ seen ↔ n ∈ prior.map name) →
      (resolveAll seen es = .error error ↔ ∃ before e after, es = before ++ e :: after ∧
        AllSound (prior ++ before) ∧ e.FaultAfter (prior ++ before) error) := by
  induction es with
  | nil => simp [resolveAll]
  | cons e es ih =>
    intro prior seen sound known
    rw [resolveAll, exists_split_cons, List.append_nil]
    have before_sound {before : List EntityDefinition} (h : AllSound (prior ++ e :: before)) :
        e.name ∉ prior.map name ∧ e.Sound := by
      rw [List.append_cons] at h
      exact (allSound_append_singleton.mp h.left).2
    by_cases taken : e.name ∈ seen
    · rw [if_pos taken]
      have old := (known e.name).mp taken
      constructor
      · intro h
        cases h
        exact .inl ⟨sound, .repeated old⟩
      · rintro (⟨-, fault⟩ | ⟨before, x, after, -, sound, -⟩)
        · cases fault with
          | repeated _ => rfl
          | own new _ => exact absurd old new
        · exact absurd old (before_sound sound).1
    · rw [if_neg taken]
      have new := fun h => taken ((known e.name).mpr h)
      cases resolved : e.resolve with
      | error other =>
        have fault := resolve_eq_error_iff.mp resolved
        constructor
        · intro h
          cases h
          exact .inl ⟨sound, .own new fault⟩
        · rintro (⟨-, fault⟩ | ⟨before, x, after, -, sound, -⟩)
          · cases fault with
            | repeated old => exact absurd old new
            | own _ fault =>
              rw [resolve_eq_error_iff.mpr fault] at resolved
              cases resolved
              rfl
          · exact absurd (before_sound sound).2 (not_sound_of_fault fault)
      | ok entity =>
        have described := resolve_eq_ok_iff.mp resolved
        have fine := sound_iff.mpr ⟨entity, described⟩
        have sound := allSound_append_singleton.mpr ⟨sound, new, fine⟩
        have later : (do let entities ← resolveAll (e.name :: seen) es; .ok (entity :: entities)
            : Except SchemaError (List Entity)) = .error error ↔
              resolveAll (e.name :: seen) es = .error error := by
          cases resolveAll (e.name :: seen) es <;> simp [bind, Except.bind]
        have rest := ih sound (mem_names_append_singleton known)
        simp only [List.append_assoc, List.singleton_append] at rest
        refine later.trans (rest.trans ⟨.inr, ?_⟩)
        rintro (⟨-, fault⟩ | later)
        · cases fault with
          | repeated old => exact absurd old new
          | own _ fault => exact absurd fine (not_sound_of_fault fault)
        · exact later

end EntityDefinition

end SearchFilter
