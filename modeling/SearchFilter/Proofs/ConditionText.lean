import SearchFilter.Proofs.ConditionReader
import SearchFilter.Proofs.Emission

/-!
# The text of a chain means what the chain means

A chain of conditions, whatever its connectives and however deep its scopes, is written so that the
reading of its text combines its predicates exactly as the chain does from left to right. A scope is
written as an operand: a single condition stands as it is, several stand in parentheses. Within a
chain the invariant is `Attached`: what has been written so far is a condition of its own, and it can
be followed by the connective that was written last.
-/

namespace SearchFilter

/-! ### Predicates -/

namespace Expr

mutual

/-- A predicate, or a chain that holds nothing but predicates, at any depth. -/
def IsCondition : Expr → Prop
  | chain links => AreConditions links
  | e => ∃ table, e.PredicateOn table

/-- Links that hold nothing but predicates, at any depth. -/
def AreConditions : List Link → Prop
  | [] => True
  | ⟨_, e⟩ :: links => e.IsCondition ∧ AreConditions links

end

mutual

/-- An expression as it stands in a text, where values have no keys. -/
def unkeyed : Expr → Expr
  | param b => .value b.value
  | compare left op right => compare left.unkeyed op right.unkeyed
  | call name args => call name (argsUnkeyed args)
  | like subject pattern => like subject.unkeyed pattern.unkeyed
  | isNull subject negated => isNull subject.unkeyed negated
  | not e => not e.unkeyed
  | arrayContains array element => arrayContains array.unkeyed element.unkeyed
  | jsonContains target candidate => jsonContains target.unkeyed candidate.unkeyed
  | chain links => chain (linksUnkeyed links)
  | ident qualifier name => ident qualifier name
  | wildcard qualifier => wildcard qualifier
  | value v => value v

/-- Arguments without keys. -/
def argsUnkeyed : List Expr → List Expr
  | [] => []
  | arg :: args => arg.unkeyed :: argsUnkeyed args

/-- Links without keys. -/
def linksUnkeyed : List Link → List Link
  | [] => []
  | ⟨c, e⟩ :: links => ⟨c, e.unkeyed⟩ :: linksUnkeyed links

end

/-- The value of a predicate, given those of the comparisons that may be negated in it. -/
def predicateValue {τ : Type} [Logic τ] (v : Expr → τ) : Expr → τ
  | not e => Logic.not (predicateValue v e)
  | e => v e

end Expr

/-! ### Values and formulas -/

namespace Expr

variable {τ : Type} [Logic τ]

theorem predicateValue_eval {α : Type} (w : α → τ) (v : Expr → Formula α) (e : Expr) :
    predicateValue (fun e => (v e).eval w) e = (predicateValue v e).eval w := by
  fun_induction predicateValue v e with
  | case1 e ih =>
    rw [predicateValue, ih]
    rfl
  | case2 e atom =>
    rw [predicateValue]
    exact atom

/-- Formulas can be combined first and evaluated afterwards. -/
theorem valueFrom_eval {α : Type} (w : α → τ) (v : Expr → Formula α) (links : List Link) :
    ∀ before : Option (Formula α),
      valueFrom (fun e => (v e).eval w) (before.map (Formula.eval w)) links =
        (valueFrom v before links).map (Formula.eval w) := by
  have merged : ∀ (c : Connective) (x y : Option (Formula α)),
      Option.merge c.combine (x.map (Formula.eval w)) (y.map (Formula.eval w)) =
        (Option.merge c.combine x y).map (Formula.eval w) := by
    intro c x y
    cases x <;> cases y <;> cases c <;> rfl
  induction links using Link.induction with
  | nil =>
    intro before
    rw [valueFrom, valueFrom]
  | leaf c e links he ih =>
    intro before
    rw [valueFrom, valueFrom, value?_of_ne_chain _ he, value?_of_ne_chain _ he, ← ih, ← merged]
    rfl
  | chain c inner links ihInner ih =>
    intro before
    rw [valueFrom, valueFrom, value?, value?, ← ih, ← merged, ← ihInner]
    rfl

/-- The value of a chain is that of its formula. -/
theorem valueFrom_predicateValue (v : Expr → τ) (links : List Link) :
    valueFrom (predicateValue v) none links =
      (valueFrom (predicateValue Formula.atom) none links).map (Formula.eval v) := by
  have predicate : predicateValue v = fun e => (predicateValue Formula.atom e).eval v :=
    funext fun e => predicateValue_eval v Formula.atom e
  rw [predicate]
  exact valueFrom_eval v (predicateValue Formula.atom) links none

/-! ### Links without conditions -/

/-- Links without conditions add nothing to the value of a chain. -/
theorem valueFrom_surviving (v : Expr → τ) (before : Option τ) (links : List Link) :
    valueFrom v before links = valueFrom v before (surviving links) := by
  induction links generalizing before with
  | nil => rfl
  | cons link links ih =>
    obtain ⟨c, e⟩ := link
    rw [surviving, List.filter_cons]
    split
    · rw [valueFrom, valueFrom]
      exact ih _
    · next vacuous =>
      rw [valueFrom, (value?_eq_none_iff v e).mpr (by simpa using vacuous), Option.merge_none_right]
      exact ih _

/-- Links without conditions add nothing to the text of a chain. -/
theorem linkPieces_surviving (d : Dialect) (links : List Link) :
    linkPieces d links = linkPieces d (surviving links) := by
  induction links with
  | nil => rfl
  | cons link links ih =>
    obtain ⟨c, e⟩ := link
    rw [surviving, List.filter_cons]
    split
    · rw [linkPieces, linkPieces, ih]
      rfl
    · next vacuous =>
      rw [linkPieces, if_pos (by simpa using vacuous)]
      exact ih

end Expr

namespace SqlText

variable {d : Dialect}

/-! ### The text of predicates -/

namespace Spells

theorem columnOf (table column : String) :
    Spells d ((Expr.columnOf table column).pieces d) [.name table, .dot, .name column] :=
  have dot : Separates d "." [.dot] := by cases d <;> decide
  (Spells.name table).separated dot (.name column)

theorem lowered {e : Expr} {ts : List Token} (h : Spells d (e.pieces d) ts) :
    Spells d ((lowered e).pieces d) (.word "LOWER" :: .opening :: (ts ++ [.closing])) :=
  have opens : Opens d ("LOWER" ++ "(") [.word "LOWER", .opening] := by cases d <;> decide
  have closes : Closes d ")" [.closing] := by cases d <;> decide
  (h.closed closes).opened opens

theorem parenthesized {ps : List Piece} {ts : List Token} (h : Spells d ps ts) :
    Spells d (Piece.parenthesized ps) (.opening :: (ts ++ [.closing])) :=
  have opens : Opens d "(" [.opening] := by cases d <;> decide
  have closes : Closes d ")" [.closing] := by cases d <;> decide
  (h.closed closes).opened opens

end Spells

/-- Pieces that are written as an operand. -/
def Written (d : Dialect) (ps : List Piece) (f : Formula Expr) : Prop :=
  ∃ ts, Spells d ps ts ∧ Operand d ts f

namespace Written

theorem compare (table column : String) (op : Operator) (b : Binding) :
    Written d ((Expr.compare (.columnOf table column) op (.param b)).pieces d)
      (.atom (.compare (.columnOf table column) op (.value b.value))) := by
  have symbol : Separates d (" " ++ op.symbol ++ " ") [.operator op.symbol] := by
    cases op <;> cases d <;> decide
  refine ⟨_, (Spells.columnOf table column).separated symbol (.bound b.value), ?_⟩
  refine .ofAtom (of_decide_eq_true rfl) (fun _ _ => rfl) rfl ?_
  cases op <;> rfl

theorem like (table column : String) (b : Binding) :
    Written d ((Expr.like (lowered (.columnOf table column)) (lowered (.param b))).pieces d)
      (.atom (.like (lowered (.columnOf table column)) (lowered (.value b.value)))) := by
  have word : Separates d " LIKE " [.word "LIKE"] := by cases d <;> decide
  have pattern : Spells d ((Expr.param b).pieces d) [.value b.value] := .bound b.value
  refine ⟨_, (Spells.columnOf table column).lowered.separated word pattern.lowered, ?_⟩
  exact .ofAtom (of_decide_eq_true rfl) (fun _ _ => rfl) rfl rfl

theorem isNull (table column : String) (negated : Bool) :
    Written d ((Expr.isNull (.columnOf table column) negated).pieces d)
      (.atom (.isNull (.columnOf table column) negated)) := by
  cases negated with
  | false =>
    have words : Closes d " IS NULL" [.word "IS", .word "NULL"] := by cases d <;> decide
    refine ⟨_, (Spells.columnOf table column).closed words, ?_⟩
    exact .ofAtom (of_decide_eq_true rfl) (fun _ _ => rfl) rfl rfl
  | true =>
    have words : Closes d " IS NOT NULL" [.word "IS", .word "NOT", .word "NULL"] := by
      cases d <;> decide
    refine ⟨_, (Spells.columnOf table column).closed words, ?_⟩
    exact .ofAtom (of_decide_eq_true rfl) (fun _ _ => rfl) rfl rfl

theorem arrayContains (table column : String) (b : Binding) :
    Written d ((Expr.arrayContains (.columnOf table column) (.param b)).pieces d)
      (.atom (.arrayContains (.columnOf table column) (.value b.value))) := by
  cases d with
  | postgres =>
    have words : Separates .postgres " = ANY(" [.operator "=", .word "ANY", .opening] := by decide
    have closes : Closes .postgres ")" [.closing] := by decide
    refine ⟨_, ((Spells.bound b.value).separated words (.columnOf table column)).closed closes, ?_⟩
    exact .ofAtom (of_decide_eq_true rfl) (fun _ _ => rfl) rfl rfl
  | mysql =>
    have words : Separates .mysql " MEMBER OF(" [.word "MEMBER", .word "OF", .opening] := by decide
    have closes : Closes .mysql ")" [.closing] := by decide
    refine ⟨_, ((Spells.bound b.value).separated words (.columnOf table column)).closed closes, ?_⟩
    exact .ofAtom (of_decide_eq_true rfl) (fun _ _ => rfl) rfl rfl
  | sqlite =>
    have words : Separates .sqlite " IN (SELECT value FROM json_each("
        [.word "IN", .opening, .word "SELECT", .word "value", .word "FROM", .word "json_each",
          .opening] := by decide
    have closes : Closes .sqlite "))" [.closing, .closing] := by decide
    refine ⟨_, ((Spells.bound b.value).separated words (.columnOf table column)).closed closes, ?_⟩
    exact .ofAtom (of_decide_eq_true rfl) (fun _ _ => rfl) rfl rfl

theorem jsonContains (table column : String) (b : Binding) :
    Written d ((Expr.jsonContains (.columnOf table column) (.param b)).pieces d)
      (.atom (.jsonContains (.columnOf table column) (.value b.value))) := by
  cases d with
  | postgres =>
    have symbol : Separates .postgres " @> " [.operator "@>"] := by decide
    have cast : Fixed .postgres "::text::jsonb"
        [.operator "::", .word "text", .operator "::", .word "jsonb"] := by decide
    -- the number of the placeholder ends at the colon
    have apart : Precedes .postgres (.bound b.value) (.raw "::text::jsonb") := by
      intro n
      rw [read_bound]
      exact .inr fun _ => ⟨':', ":text::jsonb".toList, rfl, rfl⟩
    show Written .postgres ((Expr.columnOf table column).pieces .postgres ++
      .raw " @> " :: [.bound b.value, .raw "::text::jsonb"]) _
    refine ⟨_, (Spells.columnOf table column).separated symbol (.bound_raw b.value apart cast), ?_⟩
    exact .ofAtom (of_decide_eq_true rfl) (fun _ _ => rfl) rfl rfl
  | mysql =>
    have opens : Opens .mysql "JSON_CONTAINS(" [.word "JSON_CONTAINS", .opening] := by decide
    have comma : Separates .mysql ", " [.comma] := by decide
    have closes : Closes .mysql ")" [.closing] := by decide
    refine ⟨_, (((Spells.columnOf table column).opened opens).separated comma
      (.bound b.value)).closed closes, ?_⟩
    exact .ofAtom (of_decide_eq_true rfl) (fun _ _ => rfl) rfl rfl
  | sqlite =>
    have opens : Opens .sqlite "EXISTS (SELECT 1 FROM json_each("
        [.word "EXISTS", .opening, .word "SELECT", .word "1", .word "FROM", .word "json_each",
          .opening] := by decide
    have words : Separates .sqlite ") WHERE json_each.value = json_extract("
        [.closing, .word "WHERE", .word "json_each", .dot, .word "value", .operator "=",
          .word "json_extract", .opening] := by decide
    have closes : Closes .sqlite ", '$'))" [.comma, .literal "$", .closing, .closing] := by decide
    refine ⟨_, (((Spells.columnOf table column).opened opens).separated words
      (.bound b.value)).closed closes, ?_⟩
    exact .ofAtom (of_decide_eq_true rfl) (fun _ _ => rfl) rfl rfl

theorem not {e : Expr} {f : Formula Expr} (h : Written d (e.pieces d) f) :
    Written d ((Expr.not e).pieces d) (.not f) := by
  have opens : Opens d "NOT (" [.word "NOT", .opening] := by cases d <;> decide
  have closes : Closes d ")" [.closing] := by cases d <;> decide
  obtain ⟨ts, spells, operand⟩ := h
  exact ⟨_, (spells.closed closes).opened opens, operand.whole.negated⟩

/-- A predicate is written as an operand. -/
theorem ofPredicate {table : String} {e : Expr} (h : e.PredicateOn table) :
    Written d (e.pieces d) (e.predicateValue fun e => .atom e.unkeyed) := by
  induction h with
  | compare column op b => exact .compare table column op b
  | like column b => exact .like table column b
  | isNull column negated => exact .isNull table column negated
  | arrayContains column b => exact .arrayContains table column b
  | jsonContains column b => exact .jsonContains table column b
  | not _ ih => exact ih.not

end Written

/-! ### Chains -/

/-- What has been written of a chain is a condition of its own, and it can be followed by the
connective that was written last, or by any if there was none. -/
structure Attached (d : Dialect) (j : Piece.Joined) (ts : List Token) (f : Formula Expr) : Prop where
  /-- It reads as the tokens. -/
  spells : Spells d j.pieces ts
  /-- They are a condition. -/
  whole : Whole d ts f
  /-- The connective can follow. -/
  leads : ∀ c, j.last = none ∨ j.last = some c → Leads d c ts f

namespace Attached

variable {j : Piece.Joined} {ts : List Token} {f g : Formula Expr} {ps : List Piece}

/-- The first condition of a chain. -/
theorem first (h : Written d ps f) : ∃ ts, Attached d ⟨ps, none⟩ ts f := by
  obtain ⟨ts, spells, operand⟩ := h
  exact ⟨ts, spells, operand.whole, fun c _ => operand.leads c⟩

/-- One more condition. -/
theorem attach (h : Attached d j ts f) (c : Connective) (h' : Written d ps g) :
    ∃ us, Attached d (j.attach (c, ps)) us (.combine c f g) := by
  -- what stands before the connective leads to it, in parentheses if the connective changes
  obtain ⟨before, us, attached, spells, wellFormed, leads⟩ : ∃ before us,
      j.attach (c, ps) = ⟨before ++ .raw (" " ++ c.keyword ++ " ") :: ps, some c⟩ ∧
        Spells d before us ∧ WellFormed us ∧ Leads d c us f := by
    obtain ⟨pieces, last⟩ := j
    cases last with
    | none => exact ⟨pieces, ts, rfl, h.spells, h.whole.wellFormed, h.leads c (.inl rfl)⟩
    | some c' =>
      by_cases same : c' = c
      · subst same
        refine ⟨pieces, ts, ?_, h.spells, h.whole.wellFormed, h.leads c' (.inr rfl)⟩
        simp only [Piece.Joined.attach, if_true]
      · have operand := h.whole.parenthesized
        refine ⟨_, _, ?_, h.spells.parenthesized, operand.wellFormed, operand.leads c⟩
        simp only [Piece.Joined.attach, if_neg same]
  have keyword : Separates d (" " ++ c.keyword ++ " ") [.word c.keyword] := by
    cases c <;> cases d <;> decide
  obtain ⟨vs, spells', operand⟩ := h'
  obtain ⟨whole, leads⟩ := leads.attach wellFormed operand
  refine ⟨us ++ .word c.keyword :: vs, ?_⟩
  rw [attached]
  refine ⟨spells.separated keyword spells', whole, ?_⟩
  rintro c' (absent | same)
  · cases absent
  · cases same
    exact leads

end Attached

/-- The formula of a predicate, as it stands in a text. -/
def predicateFormula : Expr → Formula Expr := Expr.predicateValue fun e => .atom e.unkeyed

/-- How links are written, after others and on their own. -/
structure Renders (d : Dialect) (links : List Link) : Prop where
  /-- After others they go on with the chain. -/
  after : ∀ {j ts f}, Attached d j ts f → ∃ us g,
    Expr.valueFrom predicateFormula (some f) links = some g ∧
      Attached d ((Expr.linkPieces d links).foldl .attach j) us g
  /-- On their own they are a condition, and an operand if there is only one of them. -/
  alone : Expr.areVacuous links = false → ∃ g,
    Expr.valueFrom predicateFormula none links = some g ∧
      (∃ ts, Spells d (Piece.joined (Expr.linkPieces d links)) ts ∧ Whole d ts g) ∧
      ((Expr.surviving links).length ≤ 1 → Written d (Piece.joined (Expr.linkPieces d links)) g)

namespace Renders

variable {c : Connective} {e : Expr} {links : List Link} {f : Formula Expr}

theorem nil : Renders d [] := by
  refine ⟨fun {j ts f} h => ⟨ts, f, ?_, h⟩, nofun⟩
  rw [Expr.valueFrom]

/-- A link without conditions is left out. -/
theorem skip (h : Renders d links) (vacuous : e.isVacuous = true)
    (value : e.value? predicateFormula = none) : Renders d (⟨c, e⟩ :: links) := by
  have pieces : Expr.linkPieces d (⟨c, e⟩ :: links) = Expr.linkPieces d links := by
    rw [Expr.linkPieces, if_pos vacuous]
  have surviving : Expr.surviving (⟨c, e⟩ :: links) = Expr.surviving links := by
    simp only [Expr.surviving, List.filter_cons, vacuous, Bool.not_true, Bool.false_eq_true, if_false]
  refine ⟨fun attached => ?_, fun holds => ?_⟩
  · rw [pieces, Expr.valueFrom, value, Option.merge_none_right]
    exact h.after attached
  · rw [pieces, surviving, Expr.valueFrom, value, Option.merge_none_right]
    rw [Expr.areVacuous, vacuous, Bool.true_and] at holds
    exact h.alone holds

/-- A link that is written as an operand goes on with the chain, or begins it. -/
theorem cons (h : Renders d links) (survives : e.isVacuous = false)
    (value : e.value? predicateFormula = some f)
    (written : Written d (if e.isCompound then Piece.parenthesized (e.pieces d) else e.pieces d) f) :
    Renders d (⟨c, e⟩ :: links) := by
  have pieces : Expr.linkPieces d (⟨c, e⟩ :: links) =
      (c, if e.isCompound then Piece.parenthesized (e.pieces d) else e.pieces d) ::
        Expr.linkPieces d links := by
    rw [Expr.linkPieces, if_neg (by rw [survives]; decide)]
  have surviving : Expr.surviving (⟨c, e⟩ :: links) = ⟨c, e⟩ :: Expr.surviving links := by
    simp only [Expr.surviving, List.filter_cons, survives, Bool.not_false, if_true]
  refine ⟨fun {j ts f'} attached => ?_, fun _ => ?_⟩
  · obtain ⟨us, attached⟩ := attached.attach c written
    rw [pieces, Expr.valueFrom, value, Option.merge_some_some, Formula.combine_eq]
    exact h.after attached
  · obtain ⟨ts, attached⟩ := Attached.first written
    obtain ⟨us, g, value', attached⟩ := h.after attached
    rw [pieces, surviving, Expr.valueFrom, value, Option.merge_none_left]
    refine ⟨g, value', ⟨us, attached.spells, attached.whole⟩, fun single => ?_⟩
    -- nothing survives after the link, so that it is all that is written
    have nothing : Expr.surviving links = [] :=
      List.length_eq_zero_iff.mp (Nat.le_zero.mp (Nat.le_of_succ_le_succ single))
    rw [Expr.valueFrom_surviving, nothing, Expr.valueFrom, Option.some.injEq] at value'
    rw [Expr.linkPieces_surviving, nothing, ← value']
    exact written

/-- All links are written so. -/
theorem ofConditions (links : List Link) (h : Expr.AreConditions links) : Renders d links := by
  induction links using Link.induction with
  | nil => exact .nil
  | leaf c e links he ih =>
    obtain ⟨⟨table, predicate⟩, rest⟩ : (∃ table, e.PredicateOn table) ∧ Expr.AreConditions links := by
      cases e with
      | chain inner => exact absurd rfl (he inner)
      | _ => exact h
    have single : e.isCompound = false := by
      cases e with
      | chain inner => exact absurd rfl (he inner)
      | _ => rfl
    refine (ih rest).cons (Expr.isVacuous_of_ne_chain he) (Expr.value?_of_ne_chain _ he) ?_
    rw [single]
    exact .ofPredicate predicate
  | chain c inner links ihInner ih =>
    obtain ⟨inside, rest⟩ := h
    cases vacuous : Expr.areVacuous inner with
    | true =>
      refine (ih rest).skip vacuous ?_
      exact (Expr.valueFrom_eq_none_iff predicateFormula none inner).mpr ⟨rfl, vacuous⟩
    | false =>
      obtain ⟨f, value, ⟨ts, spells, whole⟩, single⟩ := (ihInner inside).alone vacuous
      refine (ih rest).cons vacuous value ?_
      split
      · exact ⟨_, spells.parenthesized, whole.parenthesized⟩
      · next simple => exact single (by simpa [Expr.isCompound] using simple)

end Renders

/-! ### Reading a chain -/

/-- Pieces that read as a condition are read from their text and their values. -/
theorem readCondition_ofPieces {ps : List Piece} {ts : List Token} {f : Formula Expr}
    (spells : Spells d ps ts) (whole : Whole d ts f) :
    tokensOf d (.ofPieces d ps) = some ts ∧ readCondition d (.ofPieces d ps) = some f := by
  have tokens : tokensOf d (.ofPieces d ps) = some ts := by
    have supplied := supply_tokensFrom [] ps spells.neat.plain []
    rw [List.nil_append, List.append_nil] at supplied
    rw [← spells.tokens, ← supplied, tokensOf, Rendered.ofPieces, lex_write spells.neat]
    rfl
  refine ⟨tokens, ?_⟩
  obtain ⟨q, level, run, finish, formula⟩ := whole.reads []
  rw [← formula, readCondition, tokens]
  show ((Reader.start []).run? d ts).bind _ = _
  rw [run]
  show (q.finish? d).bind _ = _
  rw [finish]
  rfl

/-- The text of a chain that holds a predicate is well-formed, and it reads as a formula over the
chain's predicates that has the value of the chain, whatever values the predicates are given. -/
theorem readCondition_chain (d : Dialect) (links : List Link) (predicates : Expr.AreConditions links)
    (holds : Expr.areVacuous links = false) :
    let text := Rendered.ofPieces d (Expr.pieces d (.chain links))
    (∃ ts, tokensOf d text = some ts ∧ WellFormed ts) ∧
      ∃ f : Formula Expr, readCondition d text = some (f.map Expr.unkeyed) ∧
        ∀ {τ : Type} [Logic τ] (v : Expr → τ),
          Expr.value? (Expr.predicateValue v) (.chain links) = some (f.eval v) := by
  intro text
  obtain ⟨f, value, ⟨ts, spells, whole⟩, -⟩ := (Renders.ofConditions links predicates).alone holds
  obtain ⟨tokens, condition⟩ := readCondition_ofPieces spells whole
  rw [predicateFormula, Expr.valueFrom_predicateValue] at value
  obtain ⟨g, formula, rfl⟩ := Option.map_eq_some_iff.mp value
  refine ⟨⟨ts, tokens, whole.wellFormed⟩, g, condition, fun v => ?_⟩
  rw [Expr.value?, Expr.valueFrom_predicateValue, formula]
  rfl

/-- A disjunction is put in parentheses when a conjunction follows, and scopes without conditions
leave no trace. -/
theorem readCondition_mixed :
    let links : List Link :=
      [⟨.or, .chain []⟩, ⟨.and, .isNull (.columnOf "u" "a") false⟩,
        ⟨.or, .chain [⟨.and, .chain [⟨.or, .not (.compare (.columnOf "u" "b") .lt
          (.param ⟨"p1", .string "x"⟩))⟩]⟩]⟩,
        ⟨.and, .isNull (.columnOf "u" "c") true⟩]
    let text := Rendered.ofPieces .sqlite (Expr.pieces .sqlite (.chain links))
    text.sql = "(\"u\".\"a\" IS NULL OR NOT (\"u\".\"b\" < ?)) AND \"u\".\"c\" IS NOT NULL" ∧
      ∃ f : Formula Expr, readCondition .sqlite text = some (f.map Expr.unkeyed) ∧
        ∀ v : Expr → Truth,
          Expr.value? (Expr.predicateValue v) (.chain links) = some (f.eval v) := by
  intro links text
  obtain ⟨-, f, read, value⟩ := readCondition_chain .sqlite links
    ⟨trivial, ⟨"u", .isNull ..⟩, ⟨⟨⟨"u", .not (.compare ..)⟩, trivial⟩, trivial⟩,
      ⟨"u", .isNull ..⟩, trivial⟩ rfl
  exact ⟨by decide, f, read, value⟩

end SqlText

end SearchFilter
