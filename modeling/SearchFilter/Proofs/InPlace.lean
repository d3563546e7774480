import Mathlib.Data.List.Basic
import SearchFilter.Proofs.Contents

/-!
# Writing in place

SQL text can be written in one pass into a buffer, with nothing kept but what is there already: words,
names and placeholders go to the end of the text and values to the end of the values. Only a chain of
conditions reaches back. When its connective changes, what it has written so far is put in parentheses, and
the opening one goes to the byte offset at which the chain began, which may lie in the middle of a text that
other chains have begun and not ended. Such an offset could be wrong in two ways: no character ends there,
or text of something else stands behind it. Here it never is. The writer appends the text and the values of
the expression's pieces to any buffer, and nothing else (`Expr.writeInto_only_appends`), so that it writes
what `Select.render` writes.
-/

namespace SearchFilter

/-! ### Buffers -/

/-- The characters before a byte offset and those after it, if one of them ends there. -/
def Text.cutAt? : Nat → List Char → Option (List Char × List Char)
  | 0, cs => some ([], cs)
  | _ + 1, [] => none
  | n + 1, c :: cs =>
    if c.utf8Size ≤ n + 1 then
      (cutAt? (n + 1 - c.utf8Size) cs).map fun (before, after) => (c :: before, after)
    else none

theorem Text.cutAt?_append (before after : List Char) :
    cutAt? (String.ofList before).utf8ByteSize (before ++ after) = some (before, after) := by
  induction before with
  | nil =>
    cases after <;> rfl
  | cons c before ih =>
    have size : (String.ofList (c :: before)).utf8ByteSize =
        c.utf8Size + (String.ofList before).utf8ByteSize := by simp
    obtain ⟨n, hn⟩ : ∃ n, c.utf8Size + (String.ofList before).utf8ByteSize = n + 1 :=
      ⟨c.utf8Size + (String.ofList before).utf8ByteSize - 1, by have := c.utf8Size_pos; omega⟩
    have rest : n + 1 - c.utf8Size = (String.ofList before).utf8ByteSize := by omega
    rw [size, hn, List.cons_append, cutAt?, if_pos (by omega), rest, ih, Option.map_some]

namespace Rendered

/-- Text at the end. -/
def push (s : String) (r : Rendered) : Rendered := ⟨r.sql ++ s, r.values⟩

/-- One more value, and its placeholder at the end. -/
def bind (d : Dialect) (v : Value) (r : Rendered) : Rendered :=
  ⟨r.sql ++ d.placeholder r.values.length, r.values ++ [v]⟩

/-- A qualifier and a point at the end. -/
def qualify (d : Dialect) (qualifier : Option String) (r : Rendered) : Rendered :=
  match qualifier with
  | some q => (r.push (d.quote q)).push "."
  | none => r

/-- A character put in at a byte offset; there must be one that ends there. -/
def insert? (offset : Nat) (c : Char) (r : Rendered) : Option Rendered :=
  (Text.cutAt? offset r.sql.toList).map fun (before, after) =>
    ⟨String.ofList (before ++ c :: after), r.values⟩

/-- What goes before the next condition of a chain that began at an offset, when so many were written.
Those are put in parentheses if their connective was another one. -/
def connect? (offset written : Nat) (previous : Option Connective) (c : Connective) (r : Rendered) :
    Option Rendered :=
  if written = 0 then some r
  else
    (if previous.any (· ≠ c) then (r.insert? offset '(').map (push ")") else some r).map
      (push (" " ++ c.keyword ++ " "))

/-- Something written with parentheses around it if wanted. -/
def enclosed? (wanted : Bool) (write : Rendered → Option Rendered) (r : Rendered) : Option Rendered :=
  if wanted then (write (r.push "(")).map (push ")") else write r

end Rendered

namespace Expr

mutual

/-- An expression written at the end of a buffer. -/
def writeInto (d : Dialect) : Expr → Rendered → Option Rendered
  | ident qualifier name, r => some ((r.qualify d qualifier).push (d.quote name))
  | wildcard qualifier, r => some ((r.qualify d qualifier).push "*")
  | value v, r => some (r.bind d v)
  | param b, r => some (r.bind d b.value)
  | compare left op right, r => do
    let r ← left.writeInto d r
    right.writeInto d (r.push (" " ++ op.symbol ++ " "))
  | call name args, r => do
    let r ← writeArgs d args 0 (r.push (name ++ "("))
    return r.push ")"
  | like subject pattern, r => do
    let r ← subject.writeInto d r
    pattern.writeInto d (r.push " LIKE ")
  | isNull subject negated, r => do
    let r ← subject.writeInto d r
    return r.push (if negated then " IS NOT NULL" else " IS NULL")
  | not e, r => do
    let r ← e.writeInto d (r.push "NOT (")
    return r.push ")"
  | arrayContains array element, r => do
    let r ← element.writeInto d r
    match d with
    | .postgres =>
      let r ← array.writeInto d (r.push " = ANY(")
      return r.push ")"
    | .mysql =>
      let r ← array.writeInto d (r.push " MEMBER OF(")
      return r.push ")"
    | .sqlite =>
      let r ← array.writeInto d (r.push " IN (SELECT value FROM json_each(")
      return r.push "))"
  | jsonContains target candidate, r =>
    match d with
    | .postgres => do
      let r ← target.writeInto d r
      let r ← candidate.writeInto d (r.push " @> ")
      return r.push "::text::jsonb"
    | .mysql => do
      let r ← target.writeInto d (r.push "JSON_CONTAINS(")
      let r ← candidate.writeInto d (r.push ", ")
      return r.push ")"
    | .sqlite => do
      let r ← target.writeInto d (r.push "EXISTS (SELECT 1 FROM json_each(")
      let r ← candidate.writeInto d (r.push ") WHERE json_each.value = json_extract(")
      return r.push ", '$'))"
  | chain links, r => writeLinks d r.sql.utf8ByteSize links 0 none r

/-- Arguments with commas between them, when so many were written. -/
def writeArgs (d : Dialect) : List Expr → Nat → Rendered → Option Rendered
  | [], _, r => some r
  | arg :: args, written, r => do
    let r ← arg.writeInto d (if written = 0 then r else r.push ", ")
    writeArgs d args (written + 1) r

/-- Links of a chain that began at an offset, when so many were written, the last one after `previous`. -/
def writeLinks (d : Dialect) (offset : Nat) :
    List Link → Nat → Option Connective → Rendered → Option Rendered
  | [], _, _, r => some r
  | ⟨c, e⟩ :: links, written, previous, r =>
    if e.isVacuous then writeLinks d offset links written previous r
    else do
      let r ← r.connect? offset written previous c
      let r ← r.enclosed? e.isCompound (e.writeInto d)
      writeLinks d offset links (written + 1) (if written = 0 then previous else some c) r

end

end Expr

/-! ### What is appended -/

theorem Piece.write_append (d : Dialect) (xs ys : List Piece) (n : Nat) :
    write d n (xs ++ ys) = write d n xs ++ write d (n + (values xs).length) ys := by
  induction xs generalizing n with
  | nil => simp [write, values]
  | cons x xs ih =>
    cases x with
    | raw s => simp [write, values, ih, String.append_assoc]
    | name s => simp [write, values, ih, String.append_assoc]
    | bound v => simp [write, values, ih, String.append_assoc, Nat.add_assoc, Nat.add_comm 1]

theorem Piece.commaSeparated_cons (ps : List Piece) (rest : List (List Piece)) :
    commaSeparated (ps :: rest) = ps ++ rest.flatMap (raw ", " :: ·) := by
  induction rest generalizing ps with
  | nil => simp [commaSeparated]
  | cons next rest ih => rw [commaSeparated, ih, List.flatMap_cons, List.cons_append]; exact nofun

namespace Rendered

/-- A buffer with the text and the values of some pieces at its end. -/
def extended (d : Dialect) (ps : List Piece) (r : Rendered) : Rendered :=
  ⟨r.sql ++ Piece.write d r.values.length ps, r.values ++ Piece.values ps⟩

variable (d : Dialect) (r : Rendered)

@[simp] theorem extended_nil : r.extended d [] = r := by simp [extended, Piece.write, Piece.values]

@[simp] theorem extended_extended (xs ys : List Piece) :
    (r.extended d xs).extended d ys = r.extended d (xs ++ ys) := by
  simp [extended, Piece.write_append, Piece.values_append, String.append_assoc]

theorem push_eq (s : String) : r.push s = r.extended d [.raw s] := by
  simp [push, extended, Piece.write, Piece.values]

@[simp] theorem push_extended (ps : List Piece) (s : String) :
    (r.extended d ps).push s = r.extended d (ps ++ [.raw s]) := by
  rw [push_eq d, extended_extended]

@[simp] theorem extended_push (s : String) (ps : List Piece) :
    (r.push s).extended d ps = r.extended d (.raw s :: ps) := by
  rw [push_eq d, extended_extended, List.singleton_append]

theorem push_quote (s : String) : r.push (d.quote s) = r.extended d [.name s] := by
  simp [push, extended, Piece.write, Piece.values]

theorem bind_eq (v : Value) : r.bind d v = r.extended d [.bound v] := by
  simp [bind, extended, Piece.write, Piece.values]

theorem qualify_eq (qualifier : Option String) (last : Piece) :
    (r.qualify d qualifier).extended d [last] = r.extended d (Piece.qualified qualifier last) := by
  cases qualifier with
  | none => rfl
  | some q => simp [qualify, push_quote, Piece.qualified]

/-- What is put in where a text began stands before that text and leaves what was there before it. -/
theorem insert?_append (before after : String) (c : Char) (values : List Value) :
    insert? before.utf8ByteSize c ⟨before ++ after, values⟩ =
      some ⟨before ++ (String.singleton c ++ after), values⟩ := by
  have cut := Text.cutAt?_append before.toList after.toList
  rw [String.ofList_toList, ← String.toList_append] at cut
  rw [insert?, cut, Option.map_some]
  simp [String.ofList_append]

/-- What was appended is put in parentheses. -/
theorem insert?_extended (ps : List Piece) :
    ((r.extended d ps).insert? r.sql.utf8ByteSize '(').map (push ")") =
      some (r.extended d (Piece.parenthesized ps)) := by
  rw [extended, insert?_append, Option.map_some]
  simp [push, extended, Piece.parenthesized, Piece.write, Piece.write_append, Piece.values,
    Piece.values_append, String.append_assoc]

/-- One more condition of a chain, whatever was written before the chain began. -/
theorem connect?_extended (j : Piece.Joined) (written : Nat) (c : Connective) (ps : List Piece) :
    ((r.extended d j.pieces).connect? r.sql.utf8ByteSize (written + 1) j.last c).map (extended d ps) =
      some (r.extended d (j.attach (c, ps)).pieces) := by
  rw [connect?, if_neg (Nat.succ_ne_zero written), Piece.Joined.attach]
  cases j.last with
  | none => simp
  | some previous =>
    by_cases same : previous = c
    · simp [same]
    · simp [same, insert?_extended]

end Rendered

namespace Expr

variable {d : Dialect}

/-- Writing an expression appends its pieces to any buffer. -/
def Appends (d : Dialect) (e : Expr) : Prop := ∀ r, e.writeInto d r = some (r.extended d (e.pieces d))

theorem writeArgs_succ {args : List Expr} (h : ∀ arg ∈ args, arg.Appends d) (written : Nat)
    (r : Rendered) :
    writeArgs d args (written + 1) r =
      some (r.extended d ((argPieces d args).flatMap (.raw ", " :: ·))) := by
  induction args generalizing written r with
  | nil => simp [writeArgs, argPieces]
  | cons arg args ih =>
    obtain ⟨first, rest⟩ := List.forall_mem_cons.mp h
    simp [writeArgs, first _, ih rest, argPieces]

theorem writeArgs_zero {args : List Expr} (h : ∀ arg ∈ args, arg.Appends d) (r : Rendered) :
    writeArgs d args 0 r = some (r.extended d (Piece.commaSeparated (argPieces d args))) := by
  cases args with
  | nil => simp [writeArgs, argPieces, Piece.commaSeparated]
  | cons arg args =>
    obtain ⟨first, rest⟩ := List.forall_mem_cons.mp h
    simp [writeArgs, first _, writeArgs_succ rest, argPieces, Piece.commaSeparated_cons]

/-- A condition of a chain is written with parentheses around it if it is a chain of several. -/
theorem Appends.enclosed {e : Expr} (h : e.Appends d) (r : Rendered) :
    r.enclosed? e.isCompound (e.writeInto d) =
      some (r.extended d (if e.isCompound then Piece.parenthesized (e.pieces d) else e.pieces d)) := by
  rw [Rendered.enclosed?]
  split
  · simp [h _, Piece.parenthesized]
  · exact h r

/-- The links of a chain that has begun, over a buffer that holds what was there before the chain and the
conditions so far. -/
theorem writeLinks_succ {links : List Link} (h : ∀ link ∈ links, link.expr.Appends d) (written : Nat)
    (j : Piece.Joined) (r : Rendered) :
    writeLinks d r.sql.utf8ByteSize links (written + 1) j.last (r.extended d j.pieces) =
      some (r.extended d ((linkPieces d links).foldl Piece.Joined.attach j).pieces) := by
  induction links generalizing written j with
  | nil => rfl
  | cons link links ih =>
    obtain ⟨c, e⟩ := link
    obtain ⟨first, rest⟩ := List.forall_mem_cons.mp h
    rw [writeLinks, linkPieces]
    split
    · exact ih rest written j
    · have written_first := first.enclosed
      generalize (if e.isCompound then Piece.parenthesized (e.pieces d) else e.pieces d) = ps
        at written_first ⊢
      obtain ⟨r', connected, extended⟩ := Option.map_eq_some_iff.mp (r.connect?_extended d j written c ps)
      have next := ih rest (written + 1) (j.attach (c, ps))
      rw [← extended] at next
      simp only [connected, written_first, Option.bind_eq_bind, Option.bind_some]
      exact next

theorem writeLinks_zero {links : List Link} (h : ∀ link ∈ links, link.expr.Appends d) (r : Rendered) :
    writeLinks d r.sql.utf8ByteSize links 0 none r =
      some (r.extended d (Piece.joined (linkPieces d links))) := by
  induction links with
  | nil => simp [writeLinks, linkPieces, Piece.joined]
  | cons link links ih =>
    obtain ⟨c, e⟩ := link
    obtain ⟨first, rest⟩ := List.forall_mem_cons.mp h
    rw [writeLinks, linkPieces]
    split
    · exact ih rest
    · simp only [Rendered.connect?, first.enclosed, Option.bind_eq_bind, Option.bind_some, if_true]
      exact writeLinks_succ rest 0 ⟨_, none⟩ r

theorem appends (d : Dialect) (e : Expr) : e.Appends d := by
  induction e using Expr.induction with
  | ident qualifier name =>
    intro r
    rw [writeInto, pieces, Rendered.push_quote, Rendered.qualify_eq]
  | wildcard qualifier =>
    intro r
    rw [writeInto, pieces, Rendered.push_eq d, Rendered.qualify_eq]
  | value v => exact fun r => congrArg some (r.bind_eq d v)
  | param b => exact fun r => congrArg some (r.bind_eq d b.value)
  | compare left op right ihLeft ihRight =>
    intro r
    simp [writeInto, pieces, ihLeft _, ihRight _]
  | call name args ih =>
    intro r
    simp [writeInto, pieces, writeArgs_zero ih]
  | like subject pattern ihSubject ihPattern =>
    intro r
    simp [writeInto, pieces, ihSubject _, ihPattern _]
  | isNull subject negated ih =>
    intro r
    simp [writeInto, pieces, ih _]
  | not e ih =>
    intro r
    simp [writeInto, pieces, ih _]
  | arrayContains array element ihArray ihElement =>
    intro r
    cases d <;> simp [writeInto, pieces, Dialect.arrayContains, ihArray _, ihElement _]
  | jsonContains target candidate ihTarget ihCandidate =>
    intro r
    cases d <;> simp [writeInto, pieces, Dialect.jsonContains, ihTarget _, ihCandidate _]
  | chain links ih =>
    intro r
    rw [writeInto, pieces, writeLinks_zero ih]

/-- Writing an expression always succeeds and appends to the text and to the values of any buffer. What it
appends depends on the expression, the dialect and how many values there are, and is what its pieces are
written as. A parenthesis that is put in where a chain began leaves the text before the chain as it was. -/
theorem writeInto_only_appends (d : Dialect) (e : Expr) :
    (∃ (text : Nat → String) (values : List Value),
      (∀ n, text n = Piece.write d n (e.pieces d)) ∧ values = Piece.values (e.pieces d) ∧
      ∀ r : Rendered, ∃ r', e.writeInto d r = some r' ∧
        r'.sql = r.sql ++ text r.values.length ∧ r'.values = r.values ++ values ∧
        r.sql.toList <+: r'.sql.toList ∧ r.values <+: r'.values) ∧
    ∀ (before written : String) (values : List Value),
      Rendered.insert? before.utf8ByteSize '(' ⟨before ++ written, values⟩ =
        some ⟨before ++ ("(" ++ written), values⟩ := by
  refine ⟨⟨fun n => Piece.write d n (e.pieces d), Piece.values (e.pieces d), fun _ => rfl, rfl, ?_⟩, ?_⟩
  · intro r
    refine ⟨_, e.appends d r, rfl, rfl, ?_, List.prefix_append _ _⟩
    rw [Rendered.extended, String.toList_append]
    exact List.prefix_append _ _
  · exact fun before written values => Rendered.insert?_append before written '(' values

/-- Chains within chains, each with a change of connective, after text that is not ASCII and one value. -/
example :
    let column name := Expr.isNull (.columnOf "é" name) false
    let inner := Expr.chain [⟨.and, column "a"⟩, ⟨.or, .value (.int 1)⟩, ⟨.and, .chain []⟩, ⟨.and, column "b"⟩]
    let outer := Expr.chain [⟨.or, inner⟩, ⟨.and, .not inner⟩, ⟨.or, .value (.int 2)⟩]
    (outer.writeInto .postgres ⟨"π = $1 AND ", [.int 0]⟩).map Rendered.sql =
      some ("π = $1 AND (((\"é\".\"a\" IS NULL OR $2) AND \"é\".\"b\" IS NULL) AND " ++
        "NOT ((\"é\".\"a\" IS NULL OR $3) AND \"é\".\"b\" IS NULL)) OR $4") := by
  decide +kernel

end Expr

end SearchFilter
