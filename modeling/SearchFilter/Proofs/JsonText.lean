import Mathlib.Data.List.Nodup
import SearchFilter.Proofs.Numerals

/-!
# What is written in JSON is read back

The compact text of a JSON value is read as this very value: strings with every character they hold,
numbers as they are spelt, items and fields in order. A double that is not finite is written as `null`
and read as such. Reading takes no more than the value, so the text of an item is not confused with what
follows it.
-/

namespace SearchFilter.Json

open Text

/-- A property of JSON values that items pass on to lists, and values of fields to objects. -/
@[elab_as_elim]
theorem induction {P : Json → Prop} (null : P null) (bool : ∀ b, P (bool b)) (int : ∀ n, P (int n))
    (float : ∀ x, P (float x)) (string : ∀ s, P (string s))
    (array : ∀ items, (∀ item ∈ items, P item) → P (array items))
    (object : ∀ fields : List (String × Json), (∀ field ∈ fields, P field.2) → P (object fields)) :
    ∀ j, P j
  | .null => null
  | .bool b => bool b
  | .int n => int n
  | .float x => float x
  | .string s => string s
  | .array items => array items fun item _ =>
    induction null bool int float string array object item
  | .object fields => object fields fun field _ =>
    induction null bool int float string array object field.2
decreasing_by
  · decreasing_tactic
  · obtain ⟨name, value⟩ := field
    have inside := List.sizeOf_lt_of_mem ‹(name, value) ∈ fields›
    simp at inside ⊢
    omega

/-! ### Strings -/

theorem hexToNat?_hexDigit : ∀ n < 32,
    Digits.hexToNat? ['0', '0', hexDigit (n / 16), hexDigit (n % 16)] = some n := by
  decide

/-- A short escape is read as its character. -/
theorem stringBody_short {e c : Char} (h : Source.shortEscape? e = some c) (cs : List Char) :
    Source.stringBody ('\\' :: e :: cs) =
      (Source.stringBody cs).map fun p => (c.toNat :: p.1, p.2) := by
  have letter : e ≠ 'u' := by
    rintro rfl
    cases h
  rw [Source.stringBody.eq_4 _ _ fun _ _ _ _ _ same _ => letter same, h]
  cases Source.stringBody cs <;> rfl

/-- A character that needs no escape is read as itself. -/
theorem stringBody_plain {c : Char} (quote : c ≠ '"') (backslash : c ≠ '\\') (printed : ¬ c.toNat < 32)
    (cs : List Char) :
    Source.stringBody (c :: cs) = (Source.stringBody cs).map fun p => (c.toNat :: p.1, p.2) := by
  rw [Source.stringBody.eq_5 _ _ quote (fun _ _ _ _ _ same _ => backslash same)
    (fun _ _ same _ => backslash same), if_neg (by simp [printed, backslash])]
  cases Source.stringBody cs <;> rfl

/-- What stands for a character is read as this character. -/
theorem stringBody_escape_append (c : Char) (cs : List Char) :
    Source.stringBody (escape c ++ cs) =
      (Source.stringBody cs).map fun p => (c.toNat :: p.1, p.2) := by
  unfold escape
  split
  · next h => exact stringBody_short (by rw [h]; rfl) cs
  split
  · next h => exact stringBody_short (by rw [h]; rfl) cs
  split
  · next h => exact stringBody_short (by rw [h]; rfl) cs
  split
  · next h => exact stringBody_short (by rw [h]; rfl) cs
  split
  · next h => exact stringBody_short (by rw [h]; rfl) cs
  split
  · next h => exact stringBody_short (by rw [h]; rfl) cs
  split
  · next h => exact stringBody_short (by rw [h]; rfl) cs
  split
  · next control =>
    show Source.stringBody ('\\' :: 'u' :: '0' :: '0' :: _ :: _ :: cs) = _
    rw [Source.stringBody, hexToNat?_hexDigit _ control]
    cases Source.stringBody cs <;> rfl
  · next quote backslash _ _ _ _ _ printed => exact stringBody_plain quote backslash printed cs

theorem stringBody_flatMap_escape (s rest : List Char) :
    Source.stringBody (s.flatMap escape ++ '"' :: rest) = some (s.map Char.toNat, rest) := by
  induction s with
  | nil => rfl
  | cons c s ih =>
    rw [List.flatMap_cons, List.append_assoc, stringBody_escape_append, ih]
    rfl

/-- No character is half of a surrogate pair. -/
theorem joinPairs_map_toNat (s : List Char) : Source.joinPairs (s.map Char.toNat) = some s := by
  induction s with
  | nil => rfl
  | cons c s ih =>
    have valid : c.toNat < 0xd800 ∨ 0xdfff < c.toNat ∧ c.toNat < 0x110000 := c.valid
    rw [List.map_cons, Source.joinPairs.eq_def]
    dsimp only
    rw [if_neg (by omega), if_neg (by omega), ih, Char.ofNat_toNat]
    rfl

/-- A text is read back from between its quotes. -/
theorem string?_append (s : String) (rest : List Char) :
    Source.string? (s.toList.flatMap escape ++ '"' :: rest) = some (some s, rest) := by
  rw [Source.string?, stringBody_flatMap_escape]
  show some ((Source.joinPairs _).map String.ofList, rest) = _
  rw [joinPairs_map_toNat, Option.map_some, String.ofList_toList]

/-! ### What is read -/

mutual

/-- What the text of a value is read as. -/
def source : Json → Source
  | null => .null
  | bool b => .bool b
  | int n => .number (.ofInt n)
  | float x => if x.isFinite then .number x.numeral else .null
  | string s => .string (some s)
  | array items => .array (sources items)
  | object fields => .object (fieldSources fields)

/-- What the texts of items are read as. -/
def sources : List Json → List Source
  | [] => []
  | item :: items => item.source :: sources items

/-- What the texts of fields are read as. -/
def fieldSources : List (String × Json) → List (Option String × Source)
  | [] => []
  | (name, value) :: fields => (some name, value.source) :: fieldSources fields

end

theorem sources_eq_map (items : List Json) : sources items = items.map source := by
  induction items with
  | nil => rfl
  | cons item items ih => rw [sources, ih, List.map_cons]

theorem fieldSources_eq_map (fields : List (String × Json)) :
    fieldSources fields = fields.map fun field => (some field.1, field.2.source) := by
  induction fields with
  | nil => rfl
  | cons field fields ih => rw [fieldSources, ih, List.map_cons]

/-! ### Numbers -/

/-- A character that begins a numeral begins no other value, and is no blank. -/
theorem Numeral.first_ne {c : Char} (h : c = '-' ∨ c.isDigit = true) : isSpace c = false ∧ c ≠ 'n' ∧
    c ≠ 't' ∧ c ≠ 'f' ∧ c ≠ '"' ∧ c ≠ '[' ∧ c ≠ '\x7b' ∧ c ≠ ']' := by
  rcases h with rfl | digit
  · decide
  · have blank : isSpace c = false := by
      refine Bool.eq_false_iff.mpr fun space => ?_
      simp only [isSpace, Bool.or_eq_true, decide_eq_true_eq] at space
      rcases space with ((rfl | rfl) | rfl) | rfl <;> cases digit
    refine ⟨blank, ?_, ?_, ?_, ?_, ?_, ?_, ?_⟩ <;> rintro rfl <;> cases digit

theorem skipSpaces_cons {c : Char} (h : isSpace c = false) (cs : List Char) :
    skipSpaces (c :: cs) = c :: cs :=
  List.dropWhile_cons_of_neg (Bool.eq_false_iff.mp h)

/-- A numeral is read as a value. -/
theorem value?_numeral {n : Numeral} (h : n.WellFormed) {rest : List Char} (follows : Follows rest)
    (fuel : Nat) : Source.value? (fuel + 1) (n.chars ++ rest) = some (.number n, rest) := by
  obtain ⟨c, cs, text, first⟩ := h.exists_chars_eq
  obtain ⟨blank, n, t, f, quote, bracket, brace, -⟩ := Numeral.first_ne first
  have read := Numeral.numeral?_chars_append h follows
  rw [text, List.cons_append] at read ⊢
  rw [Source.value?.eq_def]
  dsimp only
  rw [skipSpaces_cons blank]
  -- the first character decides what is read, and it begins nothing else
  split
  · next same => exact absurd (List.cons.inj same).1 n
  · next same => exact absurd (List.cons.inj same).1 t
  · next same => exact absurd (List.cons.inj same).1 f
  · next same => exact absurd (List.cons.inj same).1 quote
  · next same => exact absurd (List.cons.inj same).1 bracket
  · next same => exact absurd (List.cons.inj same).1 brace
  · rw [read]
    rfl

/-! ### Values -/

/-- A value is neither blank nor a closing bracket at its beginning. -/
theorem exists_chars_eq (j : Json) :
    ∃ c cs, j.chars = c :: cs ∧ isSpace c = false ∧ c ≠ ']' := by
  have number {n : Numeral} (h : n.WellFormed) :
      ∃ c cs, n.chars = c :: cs ∧ isSpace c = false ∧ c ≠ ']' := by
    obtain ⟨c, cs, text, first⟩ := h.exists_chars_eq
    obtain ⟨blank, -, -, -, -, -, -, bracket⟩ := Numeral.first_ne first
    exact ⟨c, cs, text, blank, bracket⟩
  cases j with
  | null => exact ⟨_, _, rfl, rfl, by decide⟩
  | bool b => cases b <;> exact ⟨_, _, rfl, rfl, by decide⟩
  | int n =>
    rw [chars, ← Numeral.chars_ofInt]
    exact number (Numeral.wellFormed_ofInt n)
  | float x =>
    rw [chars, floatChars]
    split
    · rw [← Binary64.chars_numeral]
      exact number x.wellFormed_numeral
    · exact ⟨_, _, rfl, rfl, by decide⟩
  | string s => exact ⟨_, _, rfl, rfl, by decide⟩
  | array items => cases items <;> exact ⟨_, _, rfl, rfl, by decide⟩
  | object fields => cases fields <;> exact ⟨_, _, rfl, rfl, by decide⟩

/-- The text of a value is read as this value, whatever may follow it. Each call is made at the beginning
of a text that is still to be read, so the length of the text bounds their depth. -/
def IsRead (j : Json) : Prop := ∀ fuel rest, j.chars.length ≤ fuel → Follows rest →
  Source.value? fuel (j.chars ++ rest) = some (j.source, rest)

/-- Items are read one by one, up to the closing bracket. -/
theorem items?_append (items : List Json) : ∀ (item : Json) (fuel : Nat) (rest : List Char),
    (∀ j ∈ item :: items, IsRead j) → (item.chars ++ itemChars items).length ≤ fuel →
      Source.items? fuel (item.chars ++ itemChars items ++ rest) =
        some (sources (item :: items), rest) := by
  induction items with
  | nil =>
    intro item fuel rest read bound
    simp only [itemChars, List.length_append, List.length_cons, List.length_nil] at bound
    cases fuel with
    | zero => omega
    | succ fuel =>
      have first := read item List.mem_cons_self fuel (']' :: rest) (by omega) (.bracket _)
      rw [itemChars, List.append_assoc, List.singleton_append, Source.items?, first]
      rfl
  | cons next items ih =>
    intro item fuel rest read bound
    simp only [itemChars, List.length_append, List.length_cons] at bound
    cases fuel with
    | zero => omega
    | succ fuel =>
      have first := read item List.mem_cons_self fuel (',' :: (next.chars ++ itemChars items ++ rest))
        (by omega) (.comma _)
      have others := ih next fuel rest (fun j hj => read j (List.mem_cons_of_mem _ hj))
        (by rw [List.length_append]; omega)
      rw [itemChars, List.append_assoc, List.cons_append, List.cons_append, Source.items?, first]
      simp only [Option.bind_eq_bind, Option.bind_some, skipSpaces_cons (c := ',') rfl, others, sources]

/-- Fields are read one by one, up to the closing brace. -/
theorem fields?_append (fields : List (String × Json)) :
    ∀ (name : String) (value : Json) (fuel : Nat) (rest : List Char),
      (∀ field ∈ (name, value) :: fields, IsRead field.2) →
      (quote name ++ ':' :: value.chars ++ fieldChars fields).length ≤ fuel →
      Source.fields? fuel (quote name ++ ':' :: value.chars ++ fieldChars fields ++ rest) =
        some (fieldSources ((name, value) :: fields), rest) := by
  have text (name : String) (value : Json) (rest : List Char) : quote name ++ ':' :: value.chars ++ rest =
      '"' :: (name.toList.flatMap escape ++ '"' :: ':' :: (value.chars ++ rest)) := by
    simp [quote]
  induction fields with
  | nil =>
    intro name value fuel rest read bound
    simp only [fieldChars, quote, List.length_append, List.length_cons, List.length_nil] at bound
    cases fuel with
    | zero => omega
    | succ fuel =>
      have first : Source.value? fuel (value.chars ++ '\x7d' :: rest) = some (value.source, '\x7d' :: rest) :=
        read (name, value) List.mem_cons_self fuel _ (by show value.chars.length ≤ _; omega) (.brace _)
      rw [fieldChars, List.append_assoc, List.singleton_append, text, Source.fields?, skipSpaces_cons rfl]
      simp only [string?_append, Option.bind_eq_bind, Option.bind_some, skipSpaces_cons (c := ':') rfl,
        first, skipSpaces_cons (c := '\x7d') rfl, fieldSources]
  | cons next fields ih =>
    obtain ⟨nextName, nextValue⟩ := next
    intro name value fuel rest read bound
    simp only [fieldChars, quote, List.length_append, List.length_cons, List.length_nil] at bound
    cases fuel with
    | zero => omega
    | succ fuel =>
      have others := ih nextName nextValue fuel rest
        (fun field hf => read field (List.mem_cons_of_mem _ hf))
        (by simp only [quote, List.length_append, List.length_cons, List.length_nil]; omega)
      have first : Source.value? fuel (value.chars ++
          ',' :: (quote nextName ++ ':' :: nextValue.chars ++ fieldChars fields ++ rest)) =
            some (value.source, _) :=
        read (name, value) List.mem_cons_self fuel _ (by show value.chars.length ≤ _; omega) (.comma _)
      rw [fieldChars, List.append_assoc, List.cons_append, List.cons_append, List.cons_append, text,
        Source.fields?, skipSpaces_cons rfl]
      simp only [string?_append, Option.bind_eq_bind, Option.bind_some, skipSpaces_cons (c := ':') rfl,
        first, skipSpaces_cons (c := ',') rfl, others, fieldSources]

/-- A text is never empty, so that at least one call is made. -/
theorem IsRead.of_succ {j : Json} (h : ∀ fuel rest, j.chars.length ≤ fuel + 1 → Follows rest →
    Source.value? (fuel + 1) (j.chars ++ rest) = some (j.source, rest)) : IsRead j := by
  intro fuel rest bound follows
  cases fuel with
  | succ fuel => exact h fuel rest bound follows
  | zero =>
    obtain ⟨c, cs, text, -⟩ := exists_chars_eq j
    rw [text] at bound
    cases bound

theorem isRead_array {items : List Json} (h : ∀ item ∈ items, IsRead item) : IsRead (array items) := by
  refine .of_succ fun fuel rest bound _ => ?_
  cases items with
  | nil => rfl
  | cons item items =>
    obtain ⟨c, cs, first, blank, bracket⟩ := exists_chars_eq item
    simp only [chars, List.length_append, List.length_cons] at bound
    have read := items?_append items item fuel rest h (by rw [List.length_append]; omega)
    rw [first, List.cons_append, List.cons_append] at read
    rw [chars, first, Source.value?, List.cons_append, List.cons_append, skipSpaces_cons rfl]
    simp only [List.cons_append, skipSpaces_cons blank]
    split
    · next same => exact absurd (List.cons.inj same).1 bracket
    · rw [read]
      rfl

theorem isRead_object {fields : List (String × Json)} (h : ∀ field ∈ fields, IsRead field.2) :
    IsRead (object fields) := by
  refine .of_succ fun fuel rest bound _ => ?_
  cases fields with
  | nil => rfl
  | cons field fields =>
    obtain ⟨name, value⟩ := field
    simp only [chars, List.length_append, List.length_cons] at bound
    have read := fields?_append fields name value fuel rest h
      (by simp only [List.length_append, List.length_cons]; omega)
    rw [quote] at read
    simp only [List.cons_append] at read
    rw [chars, quote, Source.value?, List.cons_append, List.cons_append, List.cons_append,
      skipSpaces_cons rfl]
    simp only [List.cons_append, skipSpaces_cons (c := '"') rfl]
    exact congrArg (Option.map fun p => (Source.object p.1, p.2)) read

/-- Every value is read back. -/
theorem isRead (j : Json) : IsRead j := by
  induction j using Json.induction with
  | null => exact .of_succ fun fuel rest _ _ => rfl
  | bool b => exact .of_succ fun fuel rest _ _ => by cases b <;> rfl
  | int n =>
    refine .of_succ fun fuel rest _ follows => ?_
    rw [chars, ← Numeral.chars_ofInt]
    exact value?_numeral (Numeral.wellFormed_ofInt n) follows fuel
  | float x =>
    refine .of_succ fun fuel rest _ follows => ?_
    rw [chars, floatChars, source]
    split
    · rw [← Binary64.chars_numeral]
      exact value?_numeral x.wellFormed_numeral follows fuel
    · rfl
  | string s =>
    refine .of_succ fun fuel rest _ _ => ?_
    have text : (string s).chars ++ rest = '"' :: (s.toList.flatMap escape ++ '"' :: rest) := by
      simp [chars, quote]
    rw [text, Source.value?, skipSpaces_cons rfl]
    simp only [string?_append]
    rfl
  | array items ih => exact isRead_array ih
  | object fields ih => exact isRead_object ih

/-- A whole text is read as the value it was written for. -/
theorem read?_compact (j : Json) : Source.read? j.compact = some j.source := by
  have read := isRead j (2 * j.chars.length + 2) [] (by omega) .nothing
  rw [List.append_nil] at read
  rw [Source.read?, compact, String.toList_ofList, read]
  rfl

/-! ### Records -/

section Records

variable {α : Type}

/-- What is read from each item of a list makes the list. -/
theorem mapM_eq_some {β : Type} {read? : α → Option β} {value : α → β} {xs : List α}
    (h : ∀ x ∈ xs, read? x = some (value x)) : xs.mapM read? = some (xs.map value) := by
  induction xs with
  | nil => rfl
  | cons x xs ih =>
    rw [List.forall_mem_cons] at h
    rw [List.mapM_cons, h.1, ih h.2]
    rfl

/-- Of fields with different names, the one of a name is found. -/
theorem only?_of_mem {fields : List (Option String × α)} {field : Option String × α}
    (distinct : (fields.map Prod.fst).Nodup) (h : field ∈ fields) :
    Source.only? field.1 fields = some (some field.2) := by
  have alone : (fields.filter fun other => other.1 = field.1) = [field] := by
    induction fields with
    | nil => cases h
    | cons first fields ih =>
      rw [List.map_cons, List.nodup_cons] at distinct
      rcases List.mem_cons.mp h with rfl | inside
      · have others : (fields.filter fun other => other.1 = field.1) = [] := by
          refine List.filter_eq_nil_iff.mpr fun other ho same => distinct.1 ?_
          exact of_decide_eq_true same ▸ List.mem_map_of_mem ho
        rw [List.filter_cons, if_pos (decide_eq_true rfl), others]
      · have other : first.1 ≠ field.1 := by
          intro same
          exact distinct.1 (same ▸ List.mem_map_of_mem inside)
        rw [List.filter_cons, if_neg (by simpa using other), ih distinct.2 inside]
  rw [Source.only?, alone]

theorem only?_of_not_mem {fields : List (Option String × α)} {name : Option String}
    (h : name ∉ fields.map Prod.fst) : Source.only? name fields = some none := by
  have none : (fields.filter fun other => other.1 = name) = [] := by
    refine List.filter_eq_nil_iff.mpr fun other ho same => h ?_
    exact of_decide_eq_true same ▸ List.mem_map_of_mem ho
  rw [Source.only?, none]

/-- The parts of a record are found under their names; some names may be missing at the end. -/
theorem record?_object {fields : List (String × Json)} (missing : List String) {names : List String}
    (all : fields.map Prod.fst ++ missing = names) (distinct : names.Nodup) :
    Source.record? names (object fields).source =
      some (fields.map (fun field => some field.2.source) ++ missing.map fun _ => none) := by
  subst all
  have keys : (fieldSources fields).map Prod.fst = (fields.map Prod.fst).map some := by
    rw [fieldSources_eq_map, List.map_map, List.map_map]
    rfl
  have whole : (fieldSources fields).all (·.1.isSome) = true := by
    rw [fieldSources_eq_map]
    simp
  have unique : ((fieldSources fields).map Prod.fst).Nodup := by
    rw [keys]
    exact (List.nodup_append.mp distinct).1.map fun _ _ => Option.some.inj
  have present : (fields.map Prod.fst).mapM (fun name => Source.only? (some name) (fieldSources fields)) =
      some (fields.map fun field => some field.2.source) := by
    rw [List.mapM_map]
    refine mapM_eq_some fun field hf => ?_
    have inside : (some field.1, field.2.source) ∈ fieldSources fields := by
      rw [fieldSources_eq_map]
      exact List.mem_map_of_mem hf
    exact only?_of_mem unique inside
  have absent : missing.mapM (fun name => Source.only? (some name) (fieldSources fields)) =
      some (missing.map fun _ => none) := by
    refine mapM_eq_some fun name hn => only?_of_not_mem ?_
    rw [keys, List.mem_map]
    rintro ⟨other, ho, same⟩
    exact (List.nodup_append.mp distinct).2.2 other ho name hn (Option.some.inj same)
  rw [source, Source.record?, if_pos whole, List.mapM_append, present, absent]
  rfl

end Records

end SearchFilter.Json
