import SearchFilter.Text.Blank
import SearchFilter.Text.CaseData

/-!
# Letter case

Comparison that ignores the case of ASCII letters, lower-casing of any text, and capitals as far as
they can be ASCII.
-/

namespace SearchFilter.Text

/-- Two texts are equal up to the case of ASCII letters. -/
def equalsIgnoringCase (a b : List Char) : Bool := a.map Char.toLower == b.map Char.toLower

/-! ### Lower case -/

/-- The lower-case form of one character, taken from the mapping runs. -/
def lowerChar (c : Char) : Char :=
  match lowerRuns.find? fun (first, last, step, _) =>
      first ≤ c.toNat && c.toNat ≤ last && (c.toNat - first) % step == 0 with
  | some (_, _, _, offset) => Char.ofNat (c.toNat + offset).toNat
  | none => c

/-- A letter that has case. -/
def isCased (c : Char) : Bool := inRanges casedRanges c.toNat

/-- A character that is skipped when looking for the edge of a word. -/
def isCaseIgnorable (c : Char) : Bool := inRanges caseIgnorableRanges c.toNat

/-- The first character that is not skipped is a cased letter. -/
def reachesCased (cs : List Char) : Bool :=
  match cs.dropWhile isCaseIgnorable with
  | [] => false
  | c :: _ => isCased c

/-- Lower-casing with the characters before the rest at hand, nearest first. A capital sigma that
ends a word becomes `ς`; the dotted capital `İ` becomes `i` and a combining dot. -/
def lowerFrom (before : List Char) : List Char → List Char
  | [] => []
  | c :: rest =>
    let lowered :=
      if c = 'Σ' then
        if reachesCased before && !reachesCased rest then ['ς'] else ['σ']
      else if c = 'İ' then ['i', '\u0307']
      else [lowerChar c]
    lowered ++ lowerFrom (c :: before) rest

/-- The lower-case form of a text. -/
def lowercase (s : String) : String := String.ofList (lowerFrom [] s.toList)

/-! ### Capitals -/

/-- The capitals of a character where they are ASCII. A character whose capitals are not ASCII is
left as it is. -/
def asciiCapitals (c : Char) : List Char :=
  match c with
  | 'ß' => ['S', 'S']
  | 'ı' => ['I']
  | 'ſ' => ['S']
  | 'ﬀ' => ['F', 'F']
  | 'ﬁ' => ['F', 'I']
  | 'ﬂ' => ['F', 'L']
  | 'ﬃ' => ['F', 'F', 'I']
  | 'ﬄ' => ['F', 'F', 'L']
  | 'ﬅ' => ['S', 'T']
  | 'ﬆ' => ['S', 'T']
  | _ => [c.toUpper]

/-- A text in capitals, as far as they are ASCII. -/
def capitals (cs : List Char) : List Char := cs.flatMap asciiCapitals

end SearchFilter.Text
