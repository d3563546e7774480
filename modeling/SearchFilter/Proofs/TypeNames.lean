import Mathlib.Data.List.DropRight
import Mathlib.Data.List.TakeWhile
import Mathlib.Logic.Relation
import SearchFilter.Schema.Entity

/-!
# Spellings of type names

A type name may be written in any letter case, with blanks around it and with a length or precision in
parentheses after it. All of these are taken away in one order for a scalar and in another for an array,
where first the brackets or the underscore go. What is left is always the same: the part before the first
parenthesis, without the blanks around it, in capitals (`ScalarType.normalize_eq`). So neither the type
that a name declares nor the spelling of an array depends on how the name is written
(`Category.ofTypeName_spellings`).
-/

namespace SearchFilter

namespace Text

/-! ### Letters -/

/-- One of 26 characters in a row. -/
theorem exists_letter {first : Nat} {c : Char} (h : first ≤ c.toNat ∧ c.toNat < first + 26) :
    ∃ k < 26, c = Char.ofNat (first + k) := by
  refine ⟨c.toNat - first, by omega, ?_⟩
  rw [Nat.add_sub_cancel' h.1, Char.ofNat_toNat]

theorem toUpper_of_not_lower {c : Char} (h : ¬(97 ≤ c.toNat ∧ c.toNat < 97 + 26)) : c.toUpper = c := by
  refine dif_neg ?_
  rintro ⟨least, greatest⟩
  have least : 97 ≤ c.toNat := least
  have greatest : c.toNat ≤ 122 := greatest
  omega

theorem toLower_of_not_upper {c : Char} (h : ¬(65 ≤ c.toNat ∧ c.toNat < 65 + 26)) : c.toLower = c := by
  refine dif_neg ?_
  rintro ⟨least, greatest⟩
  have least : 65 ≤ c.toNat := least
  have greatest : c.toNat ≤ 90 := greatest
  omega

/-- A letter and its small form have the same capitals, and neither is blank or a parenthesis. -/
theorem toLower_spec (c : Char) : asciiCapitals c.toLower = asciiCapitals c ∧
    isBlank c.toLower = isBlank c ∧ (c.toLower = '(' ↔ c = '(') := by
  by_cases upper : 65 ≤ c.toNat ∧ c.toNat < 65 + 26
  · obtain ⟨k, small, rfl⟩ := exists_letter upper
    revert k
    decide
  · simp [toLower_of_not_upper upper]

theorem toUpper_spec (c : Char) : isBlank c.toUpper = isBlank c ∧ (c.toUpper = '(' ↔ c = '(') := by
  by_cases lower : 97 ≤ c.toNat ∧ c.toNat < 97 + 26
  · obtain ⟨k, small, rfl⟩ := exists_letter lower
    revert k
    decide
  · simp [toUpper_of_not_lower lower]

/-- Every character has capitals. They are blank if it is, and a parenthesis if it is one. -/
theorem asciiCapitals_spec (c : Char) : asciiCapitals c ≠ [] ∧
    ∀ x ∈ asciiCapitals c, isBlank x = isBlank c ∧ (x = '(' ↔ c = '(') := by
  unfold asciiCapitals
  split
  case h_11 => simp [toUpper_spec c]
  all_goals
    simp only [List.forall_mem_cons, List.not_mem_nil, false_implies, implies_true, and_true]
    decide

/-! ### Blanks around a text -/

theorem trimEnd_append_blanks {cs blanks : List Char} (h : ∀ c ∈ blanks, isBlank c = true) :
    trimEnd (cs ++ blanks) = trimEnd cs := by
  have reversed : ∀ c ∈ blanks.reverse, isBlank c = true := fun c hc => h c (List.mem_reverse.mp hc)
  rw [trimEnd, trimEnd, List.reverse_append, List.dropWhile_append_of_pos reversed]

theorem trimEnd_trimEnd (cs : List Char) : trimEnd (trimEnd cs) = trimEnd cs :=
  List.rdropWhile_idempotent isBlank cs

theorem trimEnd_concat {c : Char} (h : isBlank c = false) (cs : List Char) :
    trimEnd (cs ++ [c]) = cs ++ [c] :=
  List.rdropWhile_concat_neg isBlank cs c (by simp [h])

/-- Blanks around a text do not count. -/
theorem trim_padded {left right : List Char} (hl : ∀ c ∈ left, isBlank c = true)
    (hr : ∀ c ∈ right, isBlank c = true) (cs : List Char) :
    trim (left ++ cs ++ right) = trim cs := by
  rw [trim, trim, trimStart, trimStart, List.append_assoc, List.dropWhile_append_of_pos hl,
    List.dropWhile_append]
  split
  · next blank =>
    have nothing : right.dropWhile isBlank = [] := List.dropWhile_eq_nil_iff.mpr hr
    rw [nothing, List.isEmpty_iff.mp blank]
  · exact trimEnd_append_blanks hr

/-- A text is its trimmed form with blanks around it. -/
theorem exists_padded (cs : List Char) : ∃ left right, cs = left ++ trim cs ++ right ∧
    (∀ c ∈ left, isBlank c = true) ∧ ∀ c ∈ right, isBlank c = true := by
  refine ⟨cs.takeWhile isBlank, (trimStart cs).rtakeWhile isBlank, ?_, ?_, ?_⟩
  · rw [List.append_assoc]
    show cs = _ ++ ((trimStart cs).rdropWhile isBlank ++ _)
    rw [List.rdropWhile_append_rtakeWhile, trimStart, List.takeWhile_append_dropWhile]
  · exact fun c hc => List.mem_takeWhile_imp hc
  · exact fun c hc => List.mem_rtakeWhile_imp hc

theorem trim_trim (cs : List Char) : trim (trim cs) = trim cs := by
  obtain ⟨left, right, same, hl, hr⟩ := exists_padded cs
  rw [← trim_padded hl hr, ← same]

theorem trim_trimEnd (cs : List Char) : trim (trimEnd cs) = trim cs := by
  have blank : ∀ c ∈ cs.rtakeWhile isBlank, isBlank c = true := fun c hc => List.mem_rtakeWhile_imp hc
  have split : trimEnd cs ++ cs.rtakeWhile isBlank = cs := List.rdropWhile_append_rtakeWhile
  have same := trim_padded (show ∀ c ∈ [], isBlank c = true from nofun) blank (trimEnd cs)
  rwa [List.nil_append, split, eq_comm] at same

theorem trim_trimStart (cs : List Char) : trim (trimStart cs) = trim cs := by
  rw [trim, trimStart, trimStart, List.dropWhile_idempotent, trim, trimStart]

theorem trim_cons {c : Char} (h : isBlank c = false) (cs : List Char) :
    trim (c :: cs) = c :: trimEnd cs := by
  rw [trim, trimStart, List.dropWhile_cons_of_neg (by simp [h]), trimEnd, List.reverse_cons,
    List.dropWhile_append]
  split
  · next blank => simp [h, trimEnd, List.isEmpty_iff.mp blank]
  · simp [trimEnd]

theorem trim_append_brackets (cs : List Char) :
    trim (cs ++ ['[', ']']) = trimStart cs ++ ['[', ']'] := by
  have last (xs : List Char) : trimEnd (xs ++ ['[', ']']) = xs ++ ['[', ']'] := by
    have solid := trimEnd_concat (c := ']') rfl (xs ++ ['['])
    rwa [List.append_assoc] at solid
  rw [trim, trimStart, List.dropWhile_append]
  split
  · next blank =>
    rw [trimStart, List.isEmpty_iff.mp blank]
    exact last []
  · exact last _

/-! ### Capitals -/

/-- A test that capitals pass if their characters do stops at the same place of both. -/
theorem takeWhile_capitals {p : Char → Bool} (h : ∀ c, ∀ x ∈ asciiCapitals c, p x = p c)
    (cs : List Char) : (capitals cs).takeWhile p = capitals (cs.takeWhile p) := by
  induction cs with
  | nil => rfl
  | cons c cs ih =>
    have first : capitals (c :: cs) = asciiCapitals c ++ capitals cs := List.flatMap_cons
    rw [first]
    cases hc : p c with
    | true =>
      have all : ∀ x ∈ asciiCapitals c, p x = true := fun x hx => (h c x hx).trans hc
      rw [List.takeWhile_append_of_pos all, ih, List.takeWhile_cons_of_pos hc]
      exact List.flatMap_cons.symm
    | false =>
      obtain ⟨x, xs, hx⟩ := List.exists_cons_of_ne_nil (asciiCapitals_spec c).1
      have stop := (h c x (by simp [hx])).trans hc
      simp [hx, stop, hc, capitals]

theorem trimEnd_capitals (cs : List Char) : trimEnd (capitals cs) = capitals (trimEnd cs) := by
  induction cs using List.reverseRecOn with
  | nil => rfl
  | append_singleton cs c ih =>
    have last : capitals (cs ++ [c]) = capitals cs ++ asciiCapitals c := by simp [capitals]
    obtain ⟨nonempty, same⟩ := asciiCapitals_spec c
    rw [last]
    cases blank : isBlank c with
    | true =>
      rw [trimEnd_append_blanks fun x hx => (same x hx).1.trans blank, ih,
        trimEnd_append_blanks (List.forall_mem_singleton.mpr blank)]
    | false =>
      obtain ⟨xs, x, hx⟩ := (asciiCapitals c).eq_nil_or_concat.resolve_left nonempty
      have solid : isBlank x = false := (same x (by simp [hx])).1.trans blank
      rw [trimEnd_concat blank, last, hx, List.concat_eq_append, ← List.append_assoc, trimEnd_concat solid]

/-- The part of a text before the first parenthesis. -/
def beforeParenthesis (cs : List Char) : List Char := cs.takeWhile (· ≠ '(')

theorem beforeParenthesis_cons (c : Char) (cs : List Char) :
    beforeParenthesis (c :: cs) = if c = '(' then [] else c :: beforeParenthesis cs := by
  by_cases paren : c = '(' <;> simp [beforeParenthesis, paren]

theorem beforeParenthesis_append_of_not_mem {xs : List Char} (h : '(' ∉ xs) (ys : List Char) :
    beforeParenthesis (xs ++ ys) = xs ++ beforeParenthesis ys :=
  List.takeWhile_append_of_pos fun c hc => by
    rw [decide_eq_true_eq]
    rintro rfl
    exact h hc

theorem beforeParenthesis_append_of_mem {xs : List Char} (h : '(' ∈ xs) (ys : List Char) :
    beforeParenthesis (xs ++ ys) = beforeParenthesis xs := by
  obtain ⟨before, after, rfl, outside⟩ := List.eq_append_cons_of_mem h
  rw [List.append_assoc, beforeParenthesis_append_of_not_mem outside,
    beforeParenthesis_append_of_not_mem outside, List.cons_append, beforeParenthesis_cons,
    beforeParenthesis_cons, if_pos rfl, if_pos rfl]

theorem beforeParenthesis_of_not_mem {cs : List Char} (h : '(' ∉ cs) : beforeParenthesis cs = cs := by
  simpa [beforeParenthesis] using beforeParenthesis_append_of_not_mem h []

theorem beforeParenthesis_capitals (cs : List Char) :
    beforeParenthesis (capitals cs) = capitals (beforeParenthesis cs) := by
  refine takeWhile_capitals (fun c x hx => ?_) cs
  simp [((asciiCapitals_spec c).2 x hx).2]

theorem ne_paren_of_isBlank {c : Char} (h : isBlank c = true) : c ≠ '(' := by
  rintro rfl
  cases h

theorem paren_not_mem_of_blank {cs : List Char} (h : ∀ c ∈ cs, isBlank c = true) : '(' ∉ cs :=
  fun inside => ne_paren_of_isBlank (h '(' inside) rfl

/-- Blanks may be taken from the front of a text or of its part before the parenthesis. -/
theorem beforeParenthesis_trimStart (cs : List Char) :
    beforeParenthesis (trimStart cs) = trimStart (beforeParenthesis cs) := by
  induction cs with
  | nil => rfl
  | cons c cs ih =>
    rw [trimStart, trimStart] at *
    by_cases blank : isBlank c = true
    · rw [List.dropWhile_cons_of_pos blank, ih, beforeParenthesis_cons, if_neg (ne_paren_of_isBlank blank),
        List.dropWhile_cons_of_pos blank]
    · rw [List.dropWhile_cons_of_neg blank, beforeParenthesis_cons]
      split
      · rfl
      · exact (List.dropWhile_cons_of_neg blank).symm

theorem trimEnd_beforeParenthesis_append {blanks : List Char} (h : ∀ c ∈ blanks, isBlank c = true)
    (cs : List Char) : trimEnd (beforeParenthesis (cs ++ blanks)) = trimEnd (beforeParenthesis cs) := by
  by_cases paren : '(' ∈ cs
  · rw [beforeParenthesis_append_of_mem paren]
  · rw [beforeParenthesis_append_of_not_mem paren, beforeParenthesis_of_not_mem paren,
      beforeParenthesis_of_not_mem (paren_not_mem_of_blank h), trimEnd_append_blanks h]

/-- The part of a text before the first parenthesis is trimmed to the same whether the text was trimmed
before or not. -/
theorem trimEnd_beforeParenthesis_trim (cs : List Char) :
    trimEnd (beforeParenthesis (trim cs)) = trim (beforeParenthesis cs) := by
  have blank : ∀ c ∈ (trimStart cs).rtakeWhile isBlank, isBlank c = true :=
    fun c hc => List.mem_rtakeWhile_imp hc
  have split : trim cs ++ (trimStart cs).rtakeWhile isBlank = trimStart cs :=
    List.rdropWhile_append_rtakeWhile
  rw [← trimEnd_beforeParenthesis_append blank, split, beforeParenthesis_trimStart, trim]

end Text

namespace ScalarType

open Text

/-- What counts of a type name: the part before the first parenthesis, without the blanks around it, in
capitals. -/
theorem normalize_eq (name : String) :
    normalize name = String.ofList (capitals (trim (beforeParenthesis name.toList))) := by
  rw [normalize, ← trimEnd_beforeParenthesis_trim, ← trimEnd_capitals, ← beforeParenthesis_capitals]
  split
  · rfl
  · next absent =>
    have outside : '(' ∉ capitals (trim name.toList) := by simpa using absent
    rw [beforeParenthesis_of_not_mem outside, trimEnd_capitals, trim, trimEnd_trimEnd]

theorem normalize_padded {left right : List Char} (hl : ∀ c ∈ left, isBlank c = true)
    (hr : ∀ c ∈ right, isBlank c = true) (name : String) :
    normalize (String.ofList left ++ name ++ String.ofList right) = normalize name := by
  rw [normalize_eq, normalize_eq, String.toList_append, String.toList_append, String.toList_ofList,
    String.toList_ofList, List.append_assoc, beforeParenthesis_append_of_not_mem (paren_not_mem_of_blank hl)]
  congr 2
  by_cases paren : '(' ∈ name.toList
  · rw [beforeParenthesis_append_of_mem paren]
    have after : ∀ c ∈ [], isBlank c = true := nofun
    simpa using trim_padded hl after (beforeParenthesis name.toList)
  · rw [beforeParenthesis_append_of_not_mem paren, beforeParenthesis_of_not_mem paren,
      beforeParenthesis_of_not_mem (paren_not_mem_of_blank hr), ← List.append_assoc, trim_padded hl hr]

theorem normalize_trim (name : String) :
    normalize (String.ofList (trim name.toList)) = normalize name := by
  obtain ⟨left, right, same, hl, hr⟩ := exists_padded name.toList
  rw [← normalize_padded hl hr, ← String.ofList_append, ← String.ofList_append, ← same,
    String.ofList_toList]

/-- A length or precision after a name does not count, whatever it is. -/
theorem normalize_modified (name modifier : String) :
    normalize (name ++ "(" ++ modifier ++ ")") = normalize name := by
  rw [normalize_eq, normalize_eq]
  congr 3
  have text : (name ++ "(" ++ modifier ++ ")").toList =
      name.toList ++ '(' :: (modifier.toList ++ [')']) := by simp
  rw [text]
  by_cases paren : '(' ∈ name.toList
  · rw [beforeParenthesis_append_of_mem paren]
  · rw [beforeParenthesis_append_of_not_mem paren, beforeParenthesis_of_not_mem paren,
      beforeParenthesis_cons, if_pos rfl, List.append_nil]

theorem normalize_lowered (name : String) :
    normalize (String.ofList (name.toList.map Char.toLower)) = normalize name := by
  have blanks : isBlank ∘ Char.toLower = isBlank := funext fun c => (toLower_spec c).2.1
  have parens : (fun c => decide (c ≠ '(')) ∘ Char.toLower = fun c => decide (c ≠ '(') :=
    funext fun c => by simp [(toLower_spec c).2.2]
  have same (cs : List Char) : capitals (cs.map Char.toLower) = capitals cs := by
    rw [capitals, List.flatMap_map]
    exact List.flatMap_congr fun c _ => (toLower_spec c).1
  rw [normalize_eq, normalize_eq, String.toList_ofList, beforeParenthesis, List.takeWhile_map, parens,
    trim, trimStart, List.dropWhile_map, blanks, trimEnd, ← List.map_reverse, List.dropWhile_map, blanks,
    ← List.map_reverse, same]
  rfl

/-! ### Types by their names -/

/-- The names in the list are those of types it knows. -/
theorem ofCapitals?_ne_custom {name : String} {t : ScalarType} (h : ofCapitals? name = some t)
    (other : String) : t ≠ custom other := by
  obtain ⟨entry, found, rfl⟩ := Option.map_eq_some_iff.mp h
  have listed : ∀ entry ∈ names, entry.1 ≠ custom other := by simp [names]
  exact listed entry (List.mem_of_find?_eq_some found)

/-- Names of which the same counts declare the same type, if it is a known one. -/
theorem ofTypeName_congr {a b : String} (same : normalize b = normalize a)
    (known : ∀ other, ofTypeName a ≠ custom other) : ofTypeName b = ofTypeName a := by
  cases found : ofCapitals? (normalize a) with
  | none => exact absurd (by rw [ofTypeName, found]; rfl) (known (String.ofList (trim a.toList)))
  | some t => rw [ofTypeName, ofTypeName, same, found, Option.getD_some, Option.getD_some]

theorem ofTypeName_trim (name : String) :
    ofTypeName (String.ofList (trim name.toList)) = ofTypeName name := by
  rw [ofTypeName, ofTypeName, normalize_trim, String.toList_ofList, trim_trim]

/-- The name that a type is shown by declares it. -/
theorem ofTypeName_name (name : String) : ofTypeName (ofTypeName name).name = ofTypeName name := by
  cases found : ofCapitals? (normalize name) with
  | none =>
    have other : ofTypeName name = custom (String.ofList (trim name.toList)) := by
      rw [ofTypeName, found, Option.getD_none]
    rw [other, ScalarType.name, ofTypeName_trim, other]
  | some t =>
    have known := ofCapitals?_ne_custom found
    rw [ofTypeName, ofTypeName, found, Option.getD_some]
    cases t with
    | custom other => exact absurd rfl (known other)
    | _ => decide

/-- Another way to write a type name. -/
inductive Respelled : String → String → Prop where
  /-- In other letter case. -/
  | cased {a b : String} : b.toList.map Char.toLower = a.toList.map Char.toLower → Respelled a b
  /-- With blanks around it. -/
  | padded {a : String} {left right : List Char} : (∀ c ∈ left, isBlank c = true) →
      (∀ c ∈ right, isBlank c = true) →
      Respelled a (String.ofList left ++ a ++ String.ofList right)
  /-- With something in parentheses after it. -/
  | modified {a : String} (modifier : String) : Respelled a (a ++ "(" ++ modifier ++ ")")

theorem Respelled.normalize_eq {a b : String} (h : Respelled a b) : normalize b = normalize a := by
  cases h with
  | cased same => rw [← normalize_lowered, same, normalize_lowered]
  | padded hl hr => exact normalize_padded hl hr a
  | modified modifier => exact normalize_modified a modifier

/-- However often a name is written in another way, the same of it counts. -/
theorem normalize_respelled {a b : String} (h : Relation.ReflTransGen Respelled a b) :
    normalize b = normalize a := by
  induction h with
  | refl => rfl
  | tail _ step ih => rw [step.normalize_eq, ih]

end ScalarType

/-! ### Arrays -/

namespace Category

open Text ScalarType

/-- Brackets after a name make it that of an array. -/
theorem arrayElement?_brackets {name : String} (h : trim name.toList ≠ []) :
    arrayElement? (name ++ "[]") = some (String.ofList (trim name.toList)) := by
  have text : (name ++ "[]").toList = name.toList ++ ['[', ']'] := String.toList_append
  have suffix : ['[', ']'].isSuffixOf (trimStart name.toList ++ ['[', ']']) = true :=
    List.isSuffixOf_iff_suffix.mpr (List.suffix_append _ _)
  rw [arrayElement?, text, trim_append_brackets]
  simp [suffix, trim_trimStart, h]

/-- Brackets at the end of a text are not trimmed. -/
theorem brackets_suffix_trim {cs : List Char} (h : ['[', ']'] <:+ cs) : ['[', ']'] <:+ trim cs := by
  obtain ⟨before, rfl⟩ := h
  rw [trim_append_brackets]
  exact List.suffix_append _ _

/-- An underscore before a name makes it that of an array, if there are no brackets after it. -/
theorem arrayElement?_underscore {name : String} (h : trim name.toList ≠ [])
    (unbracketed : ¬['[', ']'] <:+ trim name.toList) :
    arrayElement? ("_" ++ name) = some (String.ofList (trim name.toList)) := by
  have text : ("_" ++ name).toList = '_' :: name.toList := String.toList_append
  have suffix : ¬['[', ']'].isSuffixOf ('_' :: trimEnd name.toList) = true := by
    rw [List.isSuffixOf_iff_suffix, List.suffix_cons_iff]
    rintro (same | inside)
    · cases same
    · rw [← trim_trimEnd] at unbracketed
      exact unbracketed (brackets_suffix_trim inside)
  rw [arrayElement?, text, trim_cons (c := '_') rfl]
  simp [suffix, trim_trimEnd, h]

theorem arrayElement?_eq_none {name : String} (unbracketed : ¬['[', ']'] <:+ trim name.toList)
    (plain : (trim name.toList).head? ≠ some '_') : arrayElement? name = none := by
  have suffix : ¬['[', ']'].isSuffixOf (trim name.toList) = true := by
    rwa [List.isSuffixOf_iff_suffix]
  rw [arrayElement?, if_neg suffix]
  split
  · next rest first => exact absurd (by rw [first]; rfl) plain
  · rfl

theorem ofTypeName_of_arrayElement? {declared name : String}
    (h : arrayElement? declared = some (String.ofList (trim name.toList))) (listed : Bool) :
    ofTypeName declared listed = .array (.ofTypeName name) := by
  rw [ofTypeName, h, ← ofTypeName_trim name]

/-- The name that a type is shown by declares it. A name of a known type declares the same type however
often its letter case is changed, blanks are put around it and something in parentheses is put after it.
And the three ways to declare an array of a type, brackets after its name, an underscore before it and a
mark beside it, agree. -/
theorem ofTypeName_spellings (name : String) :
    ScalarType.ofTypeName (ScalarType.ofTypeName name).name = .ofTypeName name ∧
    ((∀ other, ScalarType.ofTypeName name ≠ .custom other) →
      ∀ name', Relation.ReflTransGen Respelled name name' →
        ScalarType.ofTypeName name' = .ofTypeName name) ∧
    (trim name.toList ≠ [] → ¬['[', ']'] <:+ trim name.toList → (trim name.toList).head? ≠ some '_' →
      ScalarType.ofTypeName name ≠ .json → ∀ listed,
        ofTypeName (name ++ "[]") listed = .array (.ofTypeName name) ∧
        ofTypeName ("_" ++ name) listed = .array (.ofTypeName name) ∧
        ofTypeName name true = .array (.ofTypeName name)) := by
  refine ⟨ofTypeName_name name, fun known name' written => ?_, ?_⟩
  · exact ofTypeName_congr (normalize_respelled written) known
  · intro nonempty unbracketed plain scalar listed
    refine ⟨ofTypeName_of_arrayElement? (arrayElement?_brackets nonempty) listed,
      ofTypeName_of_arrayElement? (arrayElement?_underscore nonempty unbracketed) listed, ?_⟩
    rw [ofTypeName, arrayElement?_eq_none unbracketed plain]
    simp [isJson, scalar]

/-- A name with blanks around it and a length, the same name written in another way, and arrays of it. -/
theorem ofTypeName_spellings_varchar :
    let name := " Varchar(2)\n"
    let name' := "\t vARCHAR(2)\n(\u03c0)"
    ScalarType.ofTypeName name = .text ∧ ScalarType.ofTypeName name' = .text ∧
      ofTypeName (name ++ "[]") false = .array .text ∧ ofTypeName ("_" ++ name) false = .array .text ∧
      ofTypeName name true = .array .text := by
  intro name name'
  have text : ScalarType.ofTypeName name = .text := by decide +kernel
  obtain ⟨-, respelled, arrays⟩ := ofTypeName_spellings name
  have cased : Respelled name " vARCHAR(2)\n" := .cased (by decide +kernel)
  have padded : Respelled " vARCHAR(2)\n" "\t vARCHAR(2)\n" :=
    .padded (List.forall_mem_singleton.mpr (show isBlank '\t' = true by decide))
      (show ∀ c ∈ [], isBlank c = true from nofun)
  have modified : Respelled "\t vARCHAR(2)\n" name' := .modified "\u03c0"
  have written : Relation.ReflTransGen Respelled name name' :=
    ((Relation.ReflTransGen.single cased).tail padded).tail modified
  obtain ⟨brackets, underscore, listed⟩ :=
    arrays (by decide +kernel) (by decide +kernel) (by decide +kernel) (by rw [text]; decide) false
  rw [text] at brackets underscore listed
  exact ⟨text, (respelled (by simp [text]) name' written).trans text, brackets, underscore, listed⟩

end Category

end SearchFilter
