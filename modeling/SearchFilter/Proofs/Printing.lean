import SearchFilter.Proofs.Numerals
import SearchFilter.Proofs.Precedence

/-!
# What is shown can be read

A normal query is read back from its own text, if quotes and backslashes in its values are written after
a backslash, and as it is shown if there are none. Groups that are shown inside a query stand in
parentheses, so no part of them is taken for a part of the query around them, and a value that is shown
without quotes is a word that means just this value.
-/

namespace SearchFilter

open Lexeme Text

/-! ### Numbers as words -/

theorem Lexeme.isNameStart_eq_false_of_isDigit {c : Char} (h : c.isDigit = true) :
    isNameStart c = false := by
  have digit : c.val ≤ '9'.val := of_decide_eq_true (Bool.and_eq_true_iff.mp h).2
  cases hs : isNameStart c with
  | false => rfl
  | true =>
    have letters : (decide ('A'.val ≤ c.val ∧ c.val ≤ 'Z'.val) ||
        (decide ('a'.val ≤ c.val) && decide (c.val ≤ 'z'.val)) || decide (c = '_')) = true := hs
    simp only [Bool.or_eq_true, Bool.and_eq_true, decide_eq_true_eq] at letters
    rcases letters with (⟨letter, -⟩ | ⟨letter, -⟩) | rfl
    · exact absurd (UInt32.le_trans letter digit) (by decide)
    · exact absurd (UInt32.le_trans letter digit) (by decide)
    · cases h

theorem readSign_of_isDigit {ds : List Char} (h : ∀ d ∈ ds, d.isDigit = true) :
    readSign ds = (false, ds) := by
  unfold readSign
  split
  · exact absurd (h '-' List.mem_cons_self) (by decide)
  · exact absurd (h '+' List.mem_cons_self) (by decide)
  · rfl

/-- The digits of an integer are read back. -/
theorem readInteger?_ofInt (k : Int) : readInteger? (Digits.ofInt k) = some k := by
  have digits (n : Nat) : Digits.ofNat n ≠ [] ∧ (Digits.ofNat n).all Char.isDigit = true :=
    ⟨Digits.ofNat_ne_nil n, List.all_eq_true.mpr Digits.isDigit_of_mem_ofNat⟩
  cases k with
  | ofNat n =>
    rw [readInteger?, Digits.ofInt, readSign_of_isDigit Digits.isDigit_of_mem_ofNat]
    simp only [if_pos (digits n), Digits.toNat_ofNat]
    rfl
  | negSucc n =>
    rw [readInteger?, Digits.ofInt]
    simp only [readSign, if_pos (digits (n + 1)), Digits.toNat_ofNat]
    rfl

theorem int64?_toInt (n : Int64) : int64? n.toInt = some n := by
  rw [int64?, if_pos ⟨n.minValue_le_toInt, n.toInt_le⟩, n.ofInt_toInt]

namespace Literal

/-- A word of characters of decimal numbers. -/
def IsDecimal (w : List Char) : Prop := w ≠ [] ∧ ∀ c ∈ w, isDecimalChar c = true

theorem isDecimal_of_readInteger? {w : List Char} {k : Int} (h : readInteger? w = some k) :
    IsDecimal w := by
  have sign : w = '-' :: (readSign w).2 ∨ w = '+' :: (readSign w).2 ∨ w = (readSign w).2 := by
    unfold readSign
    split
    · exact .inl rfl
    · exact .inr (.inl rfl)
    · exact .inr (.inr rfl)
  obtain ⟨nonempty, digits⟩ : (readSign w).2 ≠ [] ∧ (readSign w).2.all Char.isDigit = true := by
    unfold readInteger? at h
    dsimp only at h
    split at h
    · next found => exact found
    · cases h
  have decimal : ∀ c ∈ (readSign w).2, isDecimalChar c = true := by
    intro c hc
    simp only [isDecimalChar, List.all_eq_true.mp digits c hc, Bool.true_or]
  rcases sign with minus | plus | bare
  · rw [minus]
    exact ⟨List.cons_ne_nil _ _, List.forall_mem_cons.mpr ⟨rfl, decimal⟩⟩
  · rw [plus]
    exact ⟨List.cons_ne_nil _ _, List.forall_mem_cons.mpr ⟨rfl, decimal⟩⟩
  · rw [bare]
    exact ⟨nonempty, decimal⟩

theorem isDecimalChar_cases {c : Char} (h : isDecimalChar c = true) :
    c.isDigit = true ∨ c = '.' ∨ c = '-' ∨ c = '+' ∨ c = 'e' ∨ c = 'E' := by
  simpa only [isDecimalChar, Bool.or_eq_true, decide_eq_true_eq, or_assoc] using h

/-- No decimal number is spelt like a word that begins with another letter than `e`. -/
theorem IsDecimal.ne_word {w : List Char} (h : IsDecimal w) {x : Char} (letter : isNameStart x.toLower = true)
    (other : x.toLower ≠ 'e') (xs : List Char) : equalsIgnoringCase w (x :: xs) = false := by
  refine Bool.eq_false_iff.mpr fun same => ?_
  cases w with
  | nil => cases same
  | cons c w =>
    have first : c.toLower = x.toLower := (List.cons.inj (eq_of_beq same)).1
    rw [← first] at letter other
    have name := isNameStart_of_toLower letter
    rcases isDecimalChar_cases (h.2 c List.mem_cons_self) with digit | rfl | rfl | rfl | rfl | rfl
    · rw [isNameStart_eq_false_of_isDigit digit] at name
      cases name
    · cases name
    · cases name
    · cases name
    · exact other rfl
    · exact other rfl

/-- A decimal number holds nothing that ends a word or begins a comparator. -/
theorem IsDecimal.plain {w : List Char} (h : IsDecimal w) :
    ∀ c ∈ w, isBareChar c = true ∧ c ≠ '<' ∧ c ≠ '>' ∧ c ≠ '=' := by
  intro c hc
  have decimal := h.2 c hc
  refine ⟨?_, ?_, ?_, ?_⟩
  · cases hb : isBareChar c with
    | true => rfl
    | false =>
      simp only [isBareChar, isSpace, Bool.not_eq_false', Bool.or_eq_true, decide_eq_true_eq] at hb
      rcases hb with (((((rfl | rfl) | rfl) | rfl) | rfl) | rfl) | rfl <;> cases decimal
  · rintro rfl
    cases decimal
  · rintro rfl
    cases decimal
  · rintro rfl
    cases decimal

/-- A decimal number is none of the words with a meaning of their own. -/
theorem IsDecimal.ofBare_eq {w : List Char} (h : IsDecimal w) :
    ofBare w =
      match (readInteger? w).bind int64? with
      | some n => integer n
      | none =>
        match if looksDecimal w then Decimal.read? w else none with
        | some d => float d.toBinary64
        | none => string (String.ofList w) := by
  have notNull : equalsIgnoringCase w "null".toList = false := h.ne_word rfl (by decide) _
  have notTrue : equalsIgnoringCase w "true".toList = false := h.ne_word rfl (by decide) _
  have notFalse : equalsIgnoringCase w "false".toList = false := h.ne_word rfl (by decide) _
  rw [ofBare, notNull, notTrue, notFalse]
  rfl

/-- The digits of an integer are a word for it. -/
theorem ofBare_ofInt (n : Int64) :
    IsDecimal (Digits.ofInt n.toInt) ∧ ofBare (Digits.ofInt n.toInt) = .integer n := by
  have read := readInteger?_ofInt n.toInt
  have decimal := isDecimal_of_readInteger? read
  refine ⟨decimal, ?_⟩
  rw [decimal.ofBare_eq, read, Option.bind_some, int64?_toInt]

theorem isDecimal_of_ofBare {w : List Char} {x : Binary64} (h : ofBare w = .float x) : IsDecimal w := by
  unfold ofBare at h
  split at h
  · cases h
  split at h
  · cases h
  split at h
  · cases h
  split at h
  · cases h
  split at h
  · next d found =>
    split at found
    · next decimal =>
      obtain ⟨digit, all⟩ := Bool.and_eq_true_iff.mp decimal
      refine ⟨?_, List.all_eq_true.mp all⟩
      rintro rfl
      cases digit
    · cases found
  · cases h

end Literal

/-! ### Values and terms -/

/-- A text with a backslash before each quote and each backslash. -/
def escape (cs : List Char) : List Char :=
  cs.flatMap fun c => if c = '"' ∨ c = '\\' then ['\\', c] else [c]

theorem escaped_escape (cs : List Char) : Escaped cs (escape cs) := by
  induction cs with
  | nil => exact .nil
  | cons c cs ih =>
    rw [escape, List.flatMap_cons, ← escape]
    split
    · exact .backslash ih
    · next plain => exact .plain (fun h => plain (.inl h)) (fun h => plain (.inr h)) ih

theorem escape_eq_self {cs : List Char} (quote : '"' ∉ cs) (backslash : '\\' ∉ cs) : escape cs = cs := by
  induction cs with
  | nil => rfl
  | cons c cs ih =>
    rw [List.mem_cons, not_or] at quote backslash
    have plain : ¬(c = '"' ∨ c = '\\') :=
      not_or.mpr ⟨fun h => quote.1 h.symm, fun h => backslash.1 h.symm⟩
    rw [escape, List.flatMap_cons, ← escape, if_neg plain, ih quote.2 backslash.2]
    rfl

/-- A literal with its text escaped. -/
def Literal.escaped : Literal → Literal
  | .string s => .string (String.ofList (escape s.toList))
  | v => v

/-- A term with its value escaped. -/
def Term.escaped (t : Term) : Term := { t with value := t.value.escaped }

/-- A number that is shown as a word for it. -/
def Literal.IsShown (v : Literal) : Prop := ∀ x, v = .float x → Literal.ofBare x.toText = .float x

/-- A literal is written as it is shown, escaped, and no comparator goes on with it. -/
theorem Literal.IsShown.valueText {v : Literal} (h : v.IsShown) (c : Comparator) :
    ValueText v v.escaped.chars ∧ startsWith c.goesOn v.escaped.chars = false := by
  have word {w : List Char} (decimal : IsDecimal w) (same : ofBare w = v) :
      ValueText v w ∧ startsWith c.goesOn w = false := by
    have plain := decimal.plain
    constructor
    · rw [← same]
      exact .bare decimal.1 (List.all_eq_true.mpr fun c hc => (plain c hc).1)
    · cases w with
      | nil => rfl
      | cons x w =>
        obtain ⟨-, less, greater, equal⟩ := plain x List.mem_cons_self
        cases c <;> simp [startsWith, Comparator.goesOn, less, greater, equal]
  cases v with
  | string s =>
    constructor
    · have written := ValueText.quoted (escaped_escape s.toList)
      rw [String.ofList_toList] at written
      show ValueText (.string s) ('"' :: (String.ofList (escape s.toList)).toList ++ ['"'])
      rwa [String.toList_ofList]
    · cases c <;> rfl
  | integer n => exact word (ofBare_ofInt n).1 (ofBare_ofInt n).2
  | float x => exact word (isDecimal_of_ofBare (h x rfl)) (h x rfl)
  | boolean b =>
    cases b with
    | true => exact ⟨.bare (w := "true".toList) (by decide) (by decide), by cases c <;> rfl⟩
    | false => exact ⟨.bare (w := "false".toList) (by decide) (by decide), by cases c <;> rfl⟩
  | null => exact ⟨.bare (w := "null".toList) (by decide) (by decide), by cases c <;> rfl⟩

/-- A term that can be read back: its field is a path of names, and its value is shown. -/
structure Term.IsShown (t : Term) : Prop where
  /-- The field is a path of names. -/
  field : t.field.IsNamed
  /-- The value is shown as a word for it. -/
  value : t.value.IsShown

/-- A term is written as it is shown, with its value escaped. -/
theorem Term.IsShown.termText {t : Term} (h : t.IsShown) : TermText t.escaped.chars t := by
  obtain ⟨written, ends⟩ := h.value.valueText t.comparator
  have negation : NegationText t.negated (if t.negated then "NOT ".toList else []) := by
    cases t.negated with
    | true =>
      show NegationText true ("NOT".toList ++ [' '])
      exact .word rfl (List.cons_ne_nil _ _) rfl
    | false => exact .none
  have text := TermText.intro negation h.field written ends
  rw [Term.chars]
  simp only [List.append_assoc, List.cons_append]
  exact text

/-! ### Groups -/

theorem Node.joined_cons_cons (c : Connective) (x y : Node) (nodes : List Node) :
    Node.joined c (x :: y :: nodes) =
      x.chars ++ (' ' :: (c.keyword.toList ++ [' ']) ++ Node.joined c (y :: nodes)) := by
  simp [joined, joinedRest]

/-- A part of a query that is one operand as it is shown, with its values escaped. -/
def Node.IsOperand (node : Node) : Prop :=
  Operands (node.mapTerms Term.escaped).chars [node.mapTerms Term.placeless]

/-- Operands are shown with a connective between them. -/
theorem Node.joinedText (c : Connective) {nodes : List Node} (nonempty : nodes ≠ [])
    (h : ∀ node ∈ nodes, node.IsOperand) :
    JoinedText (fun cs node => Operands cs [node]) (Gap c)
      (Node.joined c (Node.mapAllTerms Term.escaped nodes)) (Node.mapAllTerms Term.placeless nodes) := by
  induction nodes with
  | nil => exact absurd rfl nonempty
  | cons x nodes ih =>
    rw [List.forall_mem_cons] at h
    cases nodes with
    | nil =>
      simp only [mapAllTerms, joined, joinedRest, List.append_nil]
      exact .one h.1
    | cons y nodes =>
      have rest := ih (List.cons_ne_nil _ _) h.2
      simp only [mapAllTerms] at rest ⊢
      rw [joined_cons_cons]
      exact .cons h.1 (Gap.shown c) rest

/-- Operands that are shown with a connective between them make a group of it. -/
theorem Node.exists_alternatives_joined (c : Connective) {nodes : List Node} (nonempty : nodes ≠ [])
    (h : ∀ node ∈ nodes, node.IsOperand) :
    ∃ rows, Alternatives (Node.joined c (Node.mapAllTerms Term.escaped nodes)) rows ∧
      Node.combine .or (rows.map (Node.combine .and)) =
        Node.combine c (Node.mapAllTerms Term.placeless nodes) := by
  have text := Node.joinedText c nonempty h
  cases c with
  | and => exact ⟨_, text.operands.alternatives, rfl⟩
  | or =>
    refine ⟨_, (text.map ([·]) fun _ _ operand => operand).alternatives, ?_⟩
    rw [List.map_map]
    exact congrArg (Node.combine .or) (List.map_id _)

theorem Node.mem_allTerms {nodes : List Node} {node : Node} (h : node ∈ nodes) {t : Term}
    (ht : t ∈ node.terms) : t ∈ Node.allTerms nodes := by
  obtain ⟨before, after, rfl⟩ := List.append_of_mem h
  rw [allTerms_append, allTerms]
  exact List.mem_append_right _ (List.mem_append_left _ ht)

theorem Node.length_mapAllTerms (f : Term → Term) (nodes : List Node) :
    (Node.mapAllTerms f nodes).length = nodes.length := by
  rw [mapAllTerms_eq, List.length_map]

/-- Each proper part is one operand as it is shown: a group of it stands in parentheses. -/
theorem Node.Proper.isOperand {node : Node} (proper : node.Proper) (h : ∀ t ∈ node.terms, t.IsShown) :
    node.IsOperand := by
  induction proper with
  | term t => exact .term (h t List.mem_cons_self).termText
  | @group c children two _ ih =>
    have nonempty : children ≠ [] := by
      rintro rfl
      cases two
    have operands : ∀ node ∈ children, node.IsOperand :=
      fun node hn => ih node hn fun t ht => h t (mem_allTerms hn ht)
    obtain ⟨rows, alternatives, same⟩ := Node.exists_alternatives_joined c nonempty operands
    have nested := alternatives.nested
    rw [same, combine_of_two_le c (by rwa [length_mapAllTerms])] at nested
    exact nested

/-! ### Queries -/

/-- A normal query is read from its text with the values escaped. -/
theorem Group.Normal.shape?_escaped {g : Group} (normal : g.Normal) (h : ∀ t ∈ g.terms, t.IsShown) :
    Group.shape? (g.mapTerms Term.escaped).chars = some (g.mapTerms Term.placeless) := by
  have operands : ∀ node ∈ g.children, node.IsOperand :=
    fun node hn => (normal.nested node hn).isOperand fun t ht => h t (Node.mem_allTerms hn ht)
  have whole (nonempty : g.children ≠ []) : Group.shape? (g.mapTerms Term.escaped).chars =
      some (ofNode (Node.combine g.connective (Node.mapAllTerms Term.placeless g.children))) := by
    obtain ⟨rows, alternatives, same⟩ := Node.exists_alternatives_joined g.connective nonempty operands
    rw [← same]
    exact alternatives.shape?
  rcases normal.root with rfl | ⟨t, rfl⟩ | two
  · show Group.shape? [] = some .empty
    rw [shape?_eq, ofChars?_of_blank (List.forall_mem_nil _)]
    rfl
  · exact whole (List.cons_ne_nil _ _)
  · rw [whole (List.ne_nil_of_length_pos (Nat.zero_lt_of_lt two)),
      Node.combine_of_two_le _ (by rwa [Node.length_mapAllTerms])]
    rfl

theorem Node.mapAllTerms_eq_self {f : Term → Term} {nodes : List Node}
    (h : ∀ t ∈ Node.allTerms nodes, f t = t) : Node.mapAllTerms f nodes = nodes := by
  induction nodes using Node.induction with
  | nil => rfl
  | term t nodes ih =>
    rw [allTerms, terms, List.forall_mem_append, List.forall_mem_singleton] at h
    rw [mapAllTerms, mapTerms, h.1, ih h.2]
  | group c children nodes ihChildren ih =>
    rw [allTerms, terms, List.forall_mem_append] at h
    rw [mapAllTerms, mapTerms, ihChildren h.1, ih h.2]

theorem Term.escaped_eq_self {t : Term}
    (h : ∀ s, t.value = .string s → '"' ∉ s.toList ∧ '\\' ∉ s.toList) : t.escaped = t := by
  obtain ⟨field, comparator, value, negated, span⟩ := t
  cases value with
  | string s =>
    obtain ⟨quote, backslash⟩ := h s rfl
    rw [escaped, Literal.escaped, escape_eq_self quote backslash, String.ofList_toList]
  | integer n => rfl
  | float x => rfl
  | boolean b => rfl
  | null => rfl

/-- A normal query is read back from its text with the values escaped, and from its text as it is if no
value holds a quote or a backslash, but for the places of the terms. Of the floats, this is said of those
that are shown as a word for themselves: a whole one is shown like an integer. -/
theorem Group.read_shown {g : Group} (normal : g.Normal)
    (floats : ∀ t ∈ g.terms, ∀ x, t.value = .float x → Literal.ofBare x.toText = .float x) :
    (∃ h, Group.read (g.mapTerms Term.escaped).text = .ok h ∧
      h.mapTerms Term.placeless = g.mapTerms Term.placeless) ∧
    ((∀ t ∈ g.terms, ∀ s, t.value = .string s → '"' ∉ s.toList ∧ '\\' ∉ s.toList) →
      ∃ h, Group.read g.text = .ok h ∧ h.mapTerms Term.placeless = g.mapTerms Term.placeless) := by
  have shape := normal.shape?_escaped fun t ht => ⟨normal.fields t ht, floats t ht⟩
  have escaped : ∃ h, Group.read (g.mapTerms Term.escaped).text = .ok h ∧
      h.mapTerms Term.placeless = g.mapTerms Term.placeless := by
    rw [shape?_eq, Option.map_eq_some_iff] at shape
    obtain ⟨h, found, same⟩ := shape
    refine ⟨h, read_eq_ok_iff.mpr ?_, same⟩
    rwa [text, String.toList_ofList]
  refine ⟨escaped, fun plain => ?_⟩
  have same : g.mapTerms Term.escaped = g := by
    rw [mapTerms, Node.mapAllTerms_eq_self fun t ht => Term.escaped_eq_self (plain t ht)]
  rwa [same] at escaped

/-- Fields that spell keywords, a value with a quote and a backslash at its end, the least integer, a
float, and groups in groups. -/
theorem Group.read_shown_mixed :
    let quoted : Term := ⟨⟨["not"]⟩, .eq, .string "é\"\\", true, .nowhere⟩
    let least : Term := ⟨⟨["and", "or"]⟩, .le, .integer Int64.minValue, false, .nowhere⟩
    let half : Term := ⟨⟨["or"]⟩, .gt, .float ⟨0x3FE0000000000000⟩, false, .nowhere⟩
    let absent : Term := ⟨⟨["x"]⟩, .eq, .null, true, .nowhere⟩
    let inner : Group := ⟨.and, [.term least, .group .or [.term half, .term absent]]⟩
    let g : Group := ⟨.or, [.term quoted, .group inner.connective inner.children]⟩
    inner.text = "and.or:<=-9223372036854775808 AND (or:>0.5 OR NOT x:null)" ∧
    (∃ h, Group.read inner.text = .ok h ∧
      h.mapTerms Term.placeless = inner.mapTerms Term.placeless) ∧
    (g.mapTerms Term.escaped).text =
      "NOT not:\"é\\\"\\\\\" OR (and.or:<=-9223372036854775808 AND (or:>0.5 OR NOT x:null))" ∧
    ∃ h, Group.read (g.mapTerms Term.escaped).text = .ok h ∧
      h.mapTerms Term.placeless = g.mapTerms Term.placeless := by
  intro quoted least half absent inner g
  have two (x y : Node) : 2 ≤ [x, y].length := Nat.le_refl 2
  have parts : ∀ node ∈ inner.children, node.Proper := by
    refine List.forall_mem_cons.mpr ⟨.term least, List.forall_mem_singleton.mpr (.group .or (two _ _) ?_)⟩
    exact List.forall_mem_cons.mpr ⟨.term half, List.forall_mem_singleton.mpr (.term absent)⟩
  have nested : ∀ node ∈ g.children, node.Proper :=
    List.forall_mem_cons.mpr ⟨.term quoted, List.forall_mem_singleton.mpr (.group .and (two _ _) parts)⟩
  have innerTerms : inner.terms = [least, half, absent] := rfl
  have fields : ∀ t ∈ quoted :: inner.terms, t.field.IsNamed := by
    unfold FieldPath.IsNamed
    decide +kernel
  have floats : ∀ t ∈ quoted :: inner.terms, ∀ x, t.value = .float x →
      Literal.ofBare x.toText = .float x := by
    rw [innerTerms]
    simp only [List.forall_mem_cons]
    refine ⟨nofun, nofun, ?_, nofun, nofun⟩
    rintro x ⟨⟩
    decide +kernel
  have texts : ∀ t ∈ inner.terms, ∀ s, t.value = .string s → '"' ∉ s.toList ∧ '\\' ∉ s.toList := by
    rw [innerTerms]
    simp only [List.forall_mem_cons]
    exact ⟨nofun, nofun, nofun, nofun⟩
  refine ⟨by decide +kernel, ?_, by decide +kernel, ?_⟩
  · exact (read_shown ⟨.inr (.inr (two _ _)), parts, (List.forall_mem_cons.mp fields).2⟩
      (List.forall_mem_cons.mp floats).2).2 texts
  · exact (read_shown (g := g) ⟨.inr (.inr (two _ _)), nested, fields⟩ floats).1

end SearchFilter
