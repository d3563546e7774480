import SearchFilter.Yaml.Tag

/-!
# YAML tokens

A YAML text is taken apart into tokens. Indentation is made visible by tokens that begin and end
block collections. That a scalar is a key shows only at the colon after it, so the place where each
possible key began is remembered, and the marks of the key are put there when the colon comes.
-/

namespace SearchFilter.Yaml

/-- How a scalar is spelt. -/
inductive Style where
  /-- Without quotes. -/
  | plain
  /-- Between quotes. -/
  | quoted
  /-- As a block whose line ends count. -/
  | literal
  /-- As a block whose line ends are blanks. -/
  | folded
  deriving DecidableEq

/-- A token. -/
inductive Token where
  /-- The version of the language that a document wants. -/
  | version (major minor : Nat)
  /-- A short handle for the first part of tags. -/
  | handle (name : List Char) (meaning : TagText)
  /-- The mark `---`. -/
  | documentStart
  /-- The mark `...`. -/
  | documentEnd
  /-- A block sequence begins. -/
  | sequenceStart
  /-- A block mapping begins. -/
  | mappingStart
  /-- A block collection ends. -/
  | blockEnd
  /-- An opening bracket. -/
  | openBracket
  /-- A closing bracket. -/
  | closeBracket
  /-- An opening brace. -/
  | openBrace
  /-- A closing brace. -/
  | closeBrace
  /-- The hyphen of a block entry. -/
  | entry
  /-- A comma. -/
  | comma
  /-- A key begins. -/
  | key
  /-- A value begins. -/
  | value
  /-- The name of a node to be used again. -/
  | anchor (name : List Char)
  /-- A node that was named before. -/
  | reference (name : List Char)
  /-- A tag: its handle, and what follows the handle. -/
  | tag (handle : List Char) (suffix : TagText)
  /-- A scalar. -/
  | scalar (text : List Char) (style : Style)
  deriving DecidableEq

/-- A place where a key may have begun. -/
structure PossibleKey where
  /-- It must turn out to be a key. -/
  required : Bool
  /-- How many tokens come before it. -/
  number : Nat
  /-- Where it stands. -/
  index : Nat
  /-- The line it stands on. -/
  line : Nat
  /-- Its place on the line. -/
  column : Nat

/-- A text that is being taken apart. -/
structure Scanner where
  /-- The rest of the text. -/
  input : Input
  /-- The tokens so far. -/
  tokens : List Token
  /-- The indentation of the block at hand; `-1` outside all blocks. -/
  indent : Int
  /-- The indentation of the blocks around it. -/
  outer : List Int
  /-- For each open bracket or brace, and for the blocks, a place where a key may have begun; the
  innermost first. -/
  keys : List (Option PossibleKey)
  /-- A key may begin here. -/
  keyAllowed : Bool

namespace Scanner

/-- At the beginning of a text. -/
def start (cs : List Char) : Scanner := ⟨.ofChars cs, [], -1, [], [none], true⟩

/-- Inside brackets or braces. -/
def inFlow (s : Scanner) : Bool := 1 < s.keys.length

/-- One more token. -/
def emit (s : Scanner) (t : Token) : Scanner := { s with tokens := s.tokens ++ [t] }

/-- A token put before the tokens from a number on. -/
def insert (s : Scanner) (number : Nat) (t : Token) : Scanner :=
  { s with tokens := s.tokens.take number ++ t :: s.tokens.drop number }

/-- So many characters passed over. -/
def skip (s : Scanner) (n : Nat) : Scanner := { s with input := s.input.skip n }

/-- A mark of so many characters passed over and turned into a token. -/
def mark (s : Scanner) (n : Nat) (t : Token) : Scanner := (s.skip n).emit t

/-! ### Possible keys -/

/-- A possible key is past: the line is over, or it is too far behind. -/
def isPast (i : Input) (k : PossibleKey) : Bool := k.line < i.line || k.index + 1024 < i.index

/-- Possible keys that are past are forgotten; a required one is an error. -/
def forgetPast? (s : Scanner) : Option Scanner :=
  if s.keys.any fun key => key.any fun k => k.required && isPast s.input k then none
  else some { s with keys := s.keys.map fun key => key.filter fun k => !isPast s.input k }

/-- The possible key at hand is none; a required one is an error. -/
def dropKey? (s : Scanner) : Option Scanner :=
  match s.keys with
  | some k :: keys => if k.required then none else some { s with keys := none :: keys }
  | _ => some s

/-- A key may begin here, if one is allowed. In a block it must be one if it stands right at the
indentation. -/
def noteKey? (s : Scanner) : Option Scanner :=
  if s.keyAllowed then do
    let i := s.input
    let k : PossibleKey :=
      ⟨!s.inFlow && s.indent = i.column, s.tokens.length, i.index, i.line, i.column⟩
    let s ← s.dropKey?
    some { s with keys := some k :: s.keys.drop 1 }
  else some s

/-- A key may, or may not, begin from here on. -/
def allowKey (s : Scanner) (allowed : Bool) : Scanner := { s with keyAllowed := allowed }

/-! ### Indentation -/

/-- A block begins at a column, if it is deeper than the one at hand. -/
def indentTo (s : Scanner) (column : Nat) (number : Nat) (t : Token) : Scanner :=
  if !s.inFlow && s.indent < column then
    { s.insert number t with indent := column, outer := s.indent :: s.outer }
  else s

/-- Blocks that are deeper than a column end. -/
def closeTo (column : Int) : List Int → Scanner → Scanner
  | [], s => s
  | previous :: outer, s =>
    if column < s.indent then
      closeTo column outer { s.emit .blockEnd with indent := previous, outer := outer }
    else s

/-- Blocks that are deeper than a column end, outside of brackets. -/
def unindentTo (s : Scanner) (column : Int) : Scanner :=
  if s.inFlow then s else closeTo column s.outer s

/-! ### Blanks and comments -/

/-- The input after a byte order mark at the start of a line; the mark takes a column. -/
def afterOrderMark (i : Input) : Input :=
  if i.column = 0 && i.rest.head? = some '\ufeff' then i.skip 1 else i

/-- The input at the next token, and whether a line end was passed over. Tabs count as blanks where
no key may begin. -/
def nextToken (flow : Bool) : Nat → Input → Bool → Input × Bool
  | 0, i, allowed => (i, allowed)
  | fuel + 1, i, allowed =>
    let i := (afterOrderMark i).skipWhile fun c => c = ' ' || ((flow || !allowed) && c = '\t')
    let i := match i.rest with
      | '#' :: _ => i.skipWhile (!isBreak ·)
      | _ => i
    if !i.rest.isEmpty && endsLine i.rest then
      nextToken flow fuel i.takeBreak.2 (allowed || !flow)
    else (i, allowed)

/-- At the next token. -/
def advance (s : Scanner) : Scanner :=
  let (input, allowed) := nextToken s.inFlow (s.input.rest.length + 1) s.input s.keyAllowed
  { s with input := input, keyAllowed := allowed }

/-! ### Directives and tags -/

/-- A number of at most nine digits. -/
def smallNumber? (i : Input) : Option (Nat × Input) :=
  let (ds, i) := i.takeWhile Char.isDigit
  if ds.isEmpty || 9 < ds.length then none else some (Digits.toNat ds, i)

/-- A handle such as `!`, `!!` or `!name!`; without the last mark it is the first part of a tag. -/
def tagHandle? (i : Input) : Option (List Char × Input) :=
  match i.rest with
  | '!' :: _ =>
    let (name, i) := (i.skip 1).takeWhile isNameChar
    match i.rest with
    | '!' :: _ => some ('!' :: name ++ ['!'], i.skip 1)
    | _ => some ('!' :: name, i)
  | _ => none

/-- A directive after its percent sign. -/
def directive? (i : Input) : Option (Token × Input) := do
  let (name, i) := i.takeWhile isNameChar
  if !endsWord i.rest then none
  else if name = "YAML".toList then
    let (major, i) ← smallNumber? (i.skipWhile isBlank)
    match i.rest with
    | '.' :: _ =>
      let (minor, i) ← smallNumber? (i.skip 1)
      some (.version major minor, i)
    | _ => none
  else if name = "TAG".toList then
    let (handle, i) ← tagHandle? (i.skipWhile isBlank)
    let closed := handle = ['!'] || (1 < handle.length && handle.getLast? = some '!')
    match i.rest with
    | c :: _ =>
      if closed && isBlank c then
        let (meaning, i) ← TagText.readNonempty? true (i.skipWhile isBlank)
        if endsWord i.rest then some (.handle handle meaning, i) else none
      else none
    | [] => none
  else none

/-- The rest of a line holds nothing but a comment. -/
def restOfLine? (i : Input) : Option Input :=
  let i := i.skipWhile isBlank
  let i := match i.rest with
    | '#' :: _ => i.skipWhile (!isBreak ·)
    | _ => i
  if endsLine i.rest then some i.takeBreak.2 else none

/-- A tag: between angle brackets, after a handle, or after a single mark. -/
def tag? (i : Input) : Option (Token × Input) :=
  match i.rest with
  | '!' :: '<' :: _ => do
    let (text, i) ← TagText.readNonempty? true (i.skip 2)
    match i.rest with
    | '>' :: _ => some (.tag [] text, i.skip 1)
    | _ => none
  | _ => do
    let (handle, i) ← tagHandle? i
    if 1 < handle.length ∧ handle.getLast? = some '!' then
      let (text, i) ← TagText.readNonempty? false i
      some (.tag handle text, i)
    else
      let (text, i) ← TagText.read? false i
      let suffix := (TagText.ofAscii (handle.drop 1) ++ text).visible
      some (if suffix.isEmpty then .tag [] .lone else .tag ['!'] suffix, i)

/-- The name of an anchor or alias after its mark. -/
def anchorName? (i : Input) : Option (List Char × Input) :=
  let (name, i) := i.takeWhile isNameChar
  let ended := endsWord i.rest || match i.rest with
    | c :: _ => "?:,]%@\x60\x7d".toList.contains c
    | [] => true
  if name.isEmpty || !ended then none else some (name, i)

/-! ### One token after the other -/

/-- The scanner after all blocks have ended and no key is at hand. -/
def closeAll? (s : Scanner) : Option Scanner := do
  let s ← (s.unindentTo (-1)).dropKey?
  some (s.allowKey false)

/-- A collection in brackets or braces begins. -/
def openFlow? (s : Scanner) (t : Token) : Option Scanner := do
  let s ← s.noteKey?
  some (({ s with keys := none :: s.keys, keyAllowed := true }).mark 1 t)

/-- A collection in brackets or braces ends. -/
def closeFlow? (s : Scanner) (t : Token) : Option Scanner := do
  let s ← s.dropKey?
  let keys := if s.inFlow then s.keys.drop 1 else s.keys
  some (({ s with keys := keys, keyAllowed := false }).mark 1 t)

/-- An entry of a block sequence begins. -/
def blockHyphen? (s : Scanner) : Option Scanner := do
  if !s.inFlow && !s.keyAllowed then none
  else
    let s ← (s.indentTo s.input.column s.tokens.length .sequenceStart).dropKey?
    some ((s.allowKey true).mark 1 .entry)

/-- A key begins after a question mark. -/
def explicitKey? (s : Scanner) : Option Scanner := do
  if !s.inFlow && !s.keyAllowed then none
  else
    let s ← (s.indentTo s.input.column s.tokens.length .mappingStart).dropKey?
    some ((s.allowKey (!s.inFlow)).mark 1 .key)

/-- A value begins: that of the possible key at hand, or else that of a key marked as such. -/
def valueMark? (s : Scanner) : Option Scanner :=
  match s.keys with
  | some k :: keys =>
    let s := (s.insert k.number .key).indentTo k.column k.number .mappingStart
    some (({ s with keys := none :: keys, keyAllowed := false }).mark 1 .value)
  | _ =>
    if !s.inFlow && !s.keyAllowed then none
    else
      let s := s.indentTo s.input.column s.tokens.length .mappingStart
      some ((s.allowKey (!s.inFlow)).mark 1 .value)

/-- A scalar or a property of a node, which may begin a key. -/
def item? (s : Scanner) (read? : Input → Option (Token × Input)) : Option Scanner := do
  let s ← s.noteKey?
  let (t, input) ← read? s.input
  some (({ s with input := input, keyAllowed := false }).emit t)

/-- A plain scalar; a key may begin after it if it ends with a line. -/
def plainItem? (s : Scanner) : Option Scanner := do
  let s ← s.noteKey?
  let (text, input, broken) ←
    plain? s.inFlow (s.indent + 1).toNat (2 * s.input.rest.length + 2) s.input [] .none
  some (({ s with input := input, keyAllowed := broken }).emit (.scalar text .plain))

/-- A block scalar after its mark. -/
def blockItem? (s : Scanner) (literal : Bool) : Option Scanner := do
  let s ← s.dropKey?
  let (text, input) ← block? literal s.indent (s.input.skip 1)
  some (({ s with input := input, keyAllowed := true }).emit
    (.scalar text (if literal then .literal else .folded)))

/-- A scalar between quotes. -/
def quotedItem? (s : Scanner) (single : Bool) : Option Scanner :=
  s.item? fun i =>
    (quoted? single (i.rest.length + 1) (i.skip 1) []).map fun (text, i) =>
      (.scalar text .quoted, i)

/-- A directive line. -/
def directiveItem? (s : Scanner) : Option Scanner := do
  let s ← s.closeAll?
  let (t, input) ← directive? (s.input.skip 1)
  let input ← restOfLine? input
  some (({ s with input := input }).emit t)

/-- A plain scalar may begin with this character before this rest. -/
def beginsPlain (flow : Bool) (c : Char) (rest : List Char) : Bool :=
  !(isBlank c || isBreak c || "-?:,[]\x7b\x7d#&*!|>'\"%@\x60".toList.contains c) ||
    (c = '-' && !(match rest with
      | d :: _ => isBlank d
      | [] => false)) ||
    (!flow && (c = '?' || c = ':') && !endsWord rest)

/-- The next token, when the scanner stands at it and the text has not ended. -/
def token? (s : Scanner) (c : Char) (rest : List Char) : Option Scanner :=
  let flow := s.inFlow
  if s.input.column = 0 && c = '%' then s.directiveItem?
  else if s.input.marksDocument "---".toList then s.closeAll?.map fun s => s.mark 3 .documentStart
  else if s.input.marksDocument "...".toList then s.closeAll?.map fun s => s.mark 3 .documentEnd
  else if c = '[' then s.openFlow? .openBracket
  else if c = '\x7b' then s.openFlow? .openBrace
  else if c = ']' then s.closeFlow? .closeBracket
  else if c = '\x7d' then s.closeFlow? .closeBrace
  else if c = ',' then s.dropKey?.map fun s => (s.allowKey true).mark 1 .comma
  else if c = '-' && endsWord rest then s.blockHyphen?
  else if c = '?' && (flow || endsWord rest) then s.explicitKey?
  else if c = ':' && (flow || endsWord rest) then s.valueMark?
  else if c = '*' then
    s.item? fun i => (anchorName? (i.skip 1)).map fun (name, i) => (.reference name, i)
  else if c = '&' then
    s.item? fun i => (anchorName? (i.skip 1)).map fun (name, i) => (.anchor name, i)
  else if c = '!' then
    s.item? fun i => (tag? i).filter fun (_, i) =>
      endsWord i.rest || (flow && i.rest.head? = some ',')
  else if c = '|' && !flow then s.blockItem? true
  else if c = '>' && !flow then s.blockItem? false
  else if c = '\'' then s.quotedItem? true
  else if c = '"' then s.quotedItem? false
  else if beginsPlain flow c rest then s.plainItem?
  else none

/-- All tokens from here on, at most so many. -/
def run? : Nat → Scanner → Option (List Token)
  | 0, _ => none
  | fuel + 1, s => do
    let s ← s.advance.forgetPast?
    match s.input.rest with
    | [] =>
      let s ← s.closeAll?
      some s.tokens
    | c :: rest =>
      let s := s.unindentTo s.input.column
      run? fuel (← s.token? c rest)

end Scanner

/-- The tokens of a text. -/
def tokens? (text : String) : Option (List Token) :=
  let cs := text.toList
  if cs.all isAllowed then Scanner.run? (cs.length + 1) (.start cs) else none

end SearchFilter.Yaml
