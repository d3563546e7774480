import Mathlib.Data.List.Infix
import SearchFilter.Condition.Predicate

/-!
# Searching texts

A text column is searched for a value by `LOWER(column) LIKE LOWER(pattern)`, where the pattern is the
value between two `%`. Here LIKE is given its meaning (`Like`), and the search is compared with what it is
for: to find the texts that hold the value, letter case apart. It finds all of these. It finds nothing else
exactly if no character of the value is a wildcard (`Term.search_exact_iff`): a `%` or `_` in a value is
not escaped, so that it stands for other characters too.
-/

namespace SearchFilter

/-! ### Patterns -/

/-- A pattern and a text that it matches: `%` stands for any characters, `_` for any one, and every other
character for itself. -/
inductive Like : List Char → List Char → Prop where
  /-- An empty pattern matches an empty text. -/
  | nil : Like [] []
  /-- `%` stands for any characters. -/
  | run {pattern text : List Char} (skipped : List Char) : Like pattern text →
      Like ('%' :: pattern) (skipped ++ text)
  /-- `_` stands for any one character. -/
  | one {c : Char} {pattern text : List Char} : Like pattern text → Like ('_' :: pattern) (c :: text)
  /-- Any other character stands for itself. -/
  | char {c : Char} {pattern text : List Char} : c ≠ '%' → c ≠ '_' → Like pattern text →
      Like (c :: pattern) (c :: text)

namespace Like

variable {p q t u : List Char}

theorem append (h : Like p t) (h' : Like q u) : Like (p ++ q) (t ++ u) := by
  induction h with
  | nil => exact h'
  | run skipped _ ih =>
    rw [List.append_assoc]
    exact .run skipped ih
  | one _ ih => exact .one ih
  | char percent underscore _ ih => exact .char percent underscore ih

/-- What a pattern of two parts matches has two parts that they match. -/
theorem exists_append (h : Like (p ++ q) t) : ∃ a b, t = a ++ b ∧ Like p a ∧ Like q b := by
  induction p generalizing t with
  | nil => exact ⟨[], t, rfl, .nil, h⟩
  | cons c p ih =>
    generalize whole : c :: p ++ q = pattern at h
    cases h with
    | nil => cases whole
    | run skipped rest =>
      obtain ⟨rfl, rfl⟩ := List.cons.inj whole
      obtain ⟨a, b, rfl, left, right⟩ := ih rest
      exact ⟨skipped ++ a, b, (List.append_assoc ..).symm, .run skipped left, right⟩
    | one rest =>
      obtain ⟨rfl, rfl⟩ := List.cons.inj whole
      obtain ⟨a, b, rfl, left, right⟩ := ih rest
      exact ⟨_ :: a, b, rfl, .one left, right⟩
    | char percent underscore rest =>
      obtain ⟨rfl, rfl⟩ := List.cons.inj whole
      obtain ⟨a, b, rfl, left, right⟩ := ih rest
      exact ⟨c :: a, b, rfl, .char percent underscore left, right⟩

/-- `%` alone matches every text. -/
theorem percent (t : List Char) : Like ['%'] t := by
  have all := Like.run t .nil
  rwa [List.append_nil] at all

/-- A pattern between two `%` matches the texts with a part that it matches. -/
theorem between_iff : Like ('%' :: p ++ ['%']) t ↔ ∃ part, part <:+: t ∧ Like p part := by
  constructor
  · intro h
    generalize whole : '%' :: p ++ ['%'] = pattern at h
    cases h with
    | nil => cases whole
    | one rest => exact absurd (List.cons.inj whole).1 (by decide)
    | char percent => exact absurd (List.cons.inj whole).1.symm percent
    | run skipped rest =>
      obtain ⟨-, rfl⟩ := List.cons.inj whole
      obtain ⟨part, after, rfl, inside, -⟩ := rest.exists_append
      exact ⟨part, ⟨skipped, after, List.append_assoc ..⟩, inside⟩
  · rintro ⟨part, ⟨before, after, rfl⟩, inside⟩
    rw [List.append_assoc]
    exact .run before (inside.append (percent after))

/-- A pattern matches itself. -/
theorem refl (p : List Char) : Like p p := by
  induction p with
  | nil => exact .nil
  | cons c p ih =>
    by_cases percent : c = '%'
    · subst percent
      exact .run ['%'] ih
    · by_cases underscore : c = '_'
      · subst underscore
        exact .one ih
      · exact .char percent underscore ih

/-- A pattern without wildcards matches nothing else. -/
theorem eq_of_plain (h : Like p t) (plain : ∀ c ∈ p, c ≠ '%' ∧ c ≠ '_') : t = p := by
  induction h with
  | nil => rfl
  | run => exact absurd rfl (plain '%' List.mem_cons_self).1
  | one => exact absurd rfl (plain '_' List.mem_cons_self).2
  | char _ _ _ ih => rw [ih fun c hc => plain c (List.mem_cons_of_mem _ hc)]

end Like

/-- A text that a pattern matches, with nothing for each `%` and another character for each `_`. -/
def Like.filled : List Char → List Char
  | [] => []
  | c :: p => if c = '%' then filled p else if c = '_' then '%' :: filled p else c :: filled p

namespace Like

theorem filled_match (p : List Char) : Like p (filled p) := by
  induction p with
  | nil => exact .nil
  | cons c p ih =>
    rw [filled]
    split
    · next percent =>
      subst percent
      exact .run [] ih
    next percent =>
    split
    · next underscore =>
      subst underscore
      exact .one ih
    · next underscore => exact .char percent underscore ih

theorem length_filled_le (p : List Char) : (filled p).length ≤ p.length := by
  induction p with
  | nil => exact Nat.le_refl _
  | cons c p ih =>
    rw [filled]
    split
    · exact Nat.le_succ_of_le ih
    split
    · exact Nat.succ_le_succ ih
    · exact Nat.succ_le_succ ih

/-- Only a pattern without wildcards is left as it is. -/
theorem plain_of_filled_eq {p : List Char} (h : filled p = p) : ∀ c ∈ p, c ≠ '%' ∧ c ≠ '_' := by
  induction p with
  | nil => exact nofun
  | cons c p ih =>
    rw [filled] at h
    split at h
    · have shorter := length_filled_le p
      rw [h, List.length_cons] at shorter
      omega
    next percent =>
    split at h
    · next underscore => exact absurd ((List.cons.inj h).1.trans underscore) (by decide)
    · next underscore =>
      exact List.forall_mem_cons.mpr ⟨⟨percent, underscore⟩, ih (List.cons.inj h).2⟩

/-- A text that holds a pattern and is no longer is the pattern. -/
theorem plain_of_infix_filled {p : List Char} (h : p <:+: filled p) : ∀ c ∈ p, c ≠ '%' ∧ c ≠ '_' :=
  plain_of_filled_eq (h.eq_of_length_le (length_filled_le p)).symm

end Like

/-! ### Letter case -/

/-- How a database lowers letters: character by character, wildcards staying as they are. -/
structure Lowering where
  /-- The lower-case form of a character. -/
  char : Char → Char
  /-- `%` stays as it is. -/
  percent : char '%' = '%'
  /-- `_` stays as it is. -/
  underscore : char '_' = '_'

namespace Lowering

/-- A text with its letters lowered. -/
def text (l : Lowering) (s : String) : List Char := s.toList.map l.char

/-- The lowering of ASCII letters. -/
def ascii : Lowering := ⟨Char.toLower, rfl, rfl⟩

/-- What is left when wildcards are filled in is a lowered text again. -/
theorem exists_filled (l : Lowering) (v : String) : ∃ s, l.text s = Like.filled (l.text v) := by
  obtain ⟨cs, hcs⟩ : ∃ cs : List Char, cs.map l.char = Like.filled (v.toList.map l.char) := by
    induction v.toList with
    | nil => exact ⟨[], rfl⟩
    | cons c p ih =>
      obtain ⟨cs, hcs⟩ := ih
      rw [List.map_cons, Like.filled]
      split
      · exact ⟨cs, hcs⟩
      split
      · exact ⟨'%' :: cs, by rw [List.map_cons, l.percent, hcs]⟩
      · exact ⟨c :: cs, by rw [List.map_cons, hcs]⟩
  exact ⟨String.ofList cs, by rw [text, String.toList_ofList, hcs]; rfl⟩

end Lowering

/-! ### Searching -/

/-- A row that is tested. -/
structure Row where
  /-- The text of a column, if there is one, by the alias of its table and its name. -/
  text? : String → String → Option String

namespace Expr

/-- The text that an expression stands for in a row: that of a column or a bound value, or either of them
lowered. -/
def text? (l : Lowering) (row : Row) : Expr → Option (List Char)
  | ident (some table) column => (row.text? table column).map String.toList
  | param ⟨_, .string s⟩ => some s.toList
  | call "LOWER" [e] => (e.text? l row).map (List.map l.char)
  | _ => none

/-- The condition is a match of a text with a pattern, and in a row it holds. -/
def Finds (l : Lowering) (row : Row) : Expr → Prop
  | like subject pattern =>
    ∃ text ∈ subject.text? l row, ∃ p ∈ pattern.text? l row, Like p text
  | _ => False

end Expr

namespace Term

variable (l : Lowering) {t : Term} {v : String}

/-- On a text column, equality is a search for the text of the value between two `%`. -/
theorem predicate_text (equality : t.comparator = .eq) (present : t.value.isNull = false)
    (positive : t.negated = false) (tableAlias column : String) (issued : Nat) :
    t.predicate tableAlias column (.scalar .text) issued =
      .like (lowered (.columnOf tableAlias column)) (lowered (.param ⟨parameterKey (issued + 1),
        .string ("%" ++ (Value.ofLiteral t.value).text?.getD "" ++ "%")⟩)) := by
  rw [predicate, present, equality, positive]
  rfl

/-- An equality with a text is, on a text column, a search for the value between two `%`. -/
theorem predicate_search (equality : t.comparator = .eq) (value : t.value = .string v)
    (positive : t.negated = false) (tableAlias column : String) (issued : Nat) :
    t.predicate tableAlias column (.scalar .text) issued =
      .like (lowered (.columnOf tableAlias column))
        (lowered (.param ⟨parameterKey (issued + 1), .string ("%" ++ v ++ "%")⟩)) := by
  rw [predicate_text equality (by rw [value]; rfl) positive, value]
  rfl

/-- A search finds the texts with a part that the lowered value matches. -/
theorem finds_iff (equality : t.comparator = .eq) (value : t.value = .string v)
    (positive : t.negated = false) {tableAlias column : String} (issued : Nat) {row : Row} {s : String}
    (text : row.text? tableAlias column = some s) :
    (t.predicate tableAlias column (.scalar .text) issued).Finds l row ↔
      ∃ part, part <:+: l.text s ∧ Like (l.text v) part := by
  have subject : (lowered (.columnOf tableAlias column)).text? l row = some (l.text s) := by
    rw [lowered, Expr.text?, Expr.columnOf, Expr.text?, text]
    rfl
  have pattern (key : String) : (lowered (.param ⟨key, .string ("%" ++ v ++ "%")⟩)).text? l row =
      some ('%' :: l.text v ++ ['%']) := by
    rw [lowered, Expr.text?, Expr.text?, String.toList_append, String.toList_append]
    simp [Lowering.text, l.percent]
  rw [predicate_search equality value positive, Expr.Finds, subject, pattern, ← Like.between_iff]
  simp

/-- A search for a value finds every text that holds the value, letter case apart. It finds no other text
exactly if the lowered value has no wildcard in it. -/
theorem search_exact_iff (equality : t.comparator = .eq) (value : t.value = .string v)
    (positive : t.negated = false) (tableAlias column : String) (issued : Nat) :
    let e := t.predicate tableAlias column (.scalar .text) issued
    (∀ (row : Row) (s : String), row.text? tableAlias column = some s →
      l.text v <:+: l.text s → e.Finds l row) ∧
    ((∀ (row : Row) (s : String), row.text? tableAlias column = some s →
        (e.Finds l row ↔ l.text v <:+: l.text s)) ↔
      ∀ c ∈ l.text v, c ≠ '%' ∧ c ≠ '_') := by
  intro e
  have found (row : Row) (s : String) (text : row.text? tableAlias column = some s) :
      e.Finds l row ↔ ∃ part, part <:+: l.text s ∧ Like (l.text v) part :=
    finds_iff l equality value positive issued text
  have complete (row : Row) (s : String) (text : row.text? tableAlias column = some s)
      (holds : l.text v <:+: l.text s) : e.Finds l row :=
    (found row s text).mpr ⟨l.text v, holds, .refl _⟩
  refine ⟨complete, ?_, ?_⟩
  · -- the text with the wildcards filled in is found, and too short or too different to hold the value
    intro exact
    obtain ⟨s, filled⟩ := l.exists_filled v
    have finds : e.Finds l ⟨fun _ _ => some s⟩ := by
      rw [found _ s rfl, filled]
      exact ⟨_, List.infix_refl _, Like.filled_match _⟩
    have holds := (exact _ s rfl).mp finds
    rw [filled] at holds
    exact Like.plain_of_infix_filled holds
  · intro plain row s text
    refine ⟨fun finds => ?_, complete row s text⟩
    obtain ⟨part, inside, matched⟩ := (found row s text).mp finds
    rwa [matched.eq_of_plain plain] at inside

/-- A name is found in any letter case, and nothing but texts with the name in them. -/
theorem search_exact_name :
    let t : Term := ⟨⟨["name"]⟩, .eq, .string "Wick", false, .nowhere⟩
    let e := t.predicate "users" "name" (.scalar .text) 0
    e.Finds .ascii ⟨fun _ _ => some "JOHN WICKER"⟩ ∧
      ∀ (row : Row) (s : String), row.text? "users" "name" = some s →
        (e.Finds .ascii row ↔ Lowering.ascii.text "Wick" <:+: Lowering.ascii.text s) := by
  intro t e
  obtain ⟨complete, exact⟩ :=
    search_exact_iff .ascii (t := t) (v := "Wick") rfl rfl rfl "users" "name" 0
  have plain : (Lowering.ascii.text "Wick").all (fun c => c ≠ '%' ∧ c ≠ '_') = true := by decide
  refine ⟨complete _ "JOHN WICKER" rfl ⟨"john ".toList, "er".toList, by decide⟩, exact.mpr ?_⟩
  exact fun c hc => of_decide_eq_true (List.all_eq_true.mp plain c hc)

/-- A search for `50%` finds a text that does not hold it. -/
theorem search_percent_finds_more :
    let t : Term := ⟨⟨["rate"]⟩, .eq, .string "50%", false, .nowhere⟩
    let e := t.predicate "shops" "rate" (.scalar .text) 0
    e = .like (lowered (.columnOf "shops" "rate")) (lowered (.param ⟨"p1", .string "%50%%"⟩)) ∧
      e.Finds .ascii ⟨fun _ _ => some "1500 m"⟩ ∧
      ¬Lowering.ascii.text "50%" <:+: Lowering.ascii.text "1500 m" := by
  intro t e
  refine ⟨rfl, ?_, by decide⟩
  refine (finds_iff .ascii (t := t) (v := "50%") rfl rfl rfl 0 rfl).mpr ?_
  exact ⟨"50".toList, ⟨['1'], "0 m".toList, by decide⟩,
    .char (by decide) (by decide) (.char (by decide) (by decide) (.run [] .nil))⟩

end Term

end SearchFilter
