import ContractAbi.Json.Reader
import ContractAbi.Text.Blank

/-!
# Object literals

Named parameters are written as object literals the way programmers write them: keys without
quotes, single quotes, bare enumeration members, trailing commas, comments. Text that is JSON is
read as JSON, unless a number in it has too many digits. Anything else is read leniently: a missing
quote or comma is made up for, and what makes no sense is passed over.
-/

namespace ContractAbi.ObjectLiteral

/-! ### Gaps -/

/-- Where a gap between tokens is being read. -/
inductive Gap where
  | blank
  | lineComment
  | blockComment

def skip : Gap → List CodePoint → List CodePoint
  | .blank, '/' :: '/' :: cs => skip .lineComment cs
  | .blank, '/' :: '*' :: cs => skip .blockComment cs
  | .blank, c :: cs => if Text.isBlank c then skip .blank cs else c :: cs
  | .lineComment, c :: cs => if c = '\n' then skip .blank cs else skip .lineComment cs
  | .blockComment, '*' :: '/' :: cs => skip .blank cs
  | .blockComment, _ :: cs => skip .blockComment cs
  | _, [] => []

/-- Drops blanks and comments. -/
def skipGap (cs : List CodePoint) : List CodePoint :=
  skip .blank cs

/-! ### Quoted text -/

def isQuote (c : CodePoint) : Bool :=
  c = '"' || c = '\''

/-- What a backslash and this character stand for. -/
def escaped (c : CodePoint) : List CodePoint :=
  if isQuote c then [c]
  else if c = 'n' then ['\n']
  else if c = 'r' then ['\r']
  else if c = 't' then ['\t']
  else if c = 'b' then ['\x08']
  else ['\\', c]

/-- Puts characters in front of text that has been read. -/
def after (cs : List CodePoint) (read : Option (List CodePoint × List CodePoint)) :
    Option (List CodePoint × List CodePoint) :=
  read.map fun (text, rest) => (cs ++ text, rest)

/-- The text up to the closing quote `q`, if there is one. After a doubled backslash, further
backslashes are dropped, and a closing quote takes the place of the backslash. -/
def quoted? (q : CodePoint) : Bool → List CodePoint → Option (List CodePoint × List CodePoint)
  | _, [] => none
  | false, '\\' :: '\\' :: cs => quoted? q true cs
  | false, '\\' :: 'u' :: a :: b :: c :: d :: cs =>
    match Json.Reader.hexUnit? a b c d with
    | some n => after [.ofNat n] (quoted? q false cs)
    | none => after ['\\', 'u'] (quoted? q false (a :: b :: c :: d :: cs))
  | false, '\\' :: 'x' :: a :: b :: cs =>
    match Json.Reader.hexUnit? '0' '0' a b with
    | some n => after [.ofNat n] (quoted? q false cs)
    | none => after ['\\', 'x'] (quoted? q false (a :: b :: cs))
  | false, '\\' :: c :: cs => after (escaped c) (quoted? q false cs)
  | false, c :: cs => if c = q then some ([], cs) else after [c] (quoted? q false cs)
  | true, '\\' :: cs => quoted? q true cs
  | true, c :: cs =>
    if c = q then after [q] (quoted? q false cs) else after ['\\', c] (quoted? q false cs)

/-- Quoted text, without the blanks at its end if the last of them is a line feed. -/
def closed? (q : CodePoint) (cs : List CodePoint) : Option (List CodePoint × List CodePoint) :=
  (quoted? q false cs).map fun (text, rest) =>
    (if text.getLast? = some (.char '\n') then Text.trimRight text else text, rest)

/-- Whether a quoted text may end here: a delimiter, another quote or nothing follows. -/
def isBoundary (cs : List CodePoint) : Bool :=
  match skipGap cs with
  | [] => true
  | c :: _ => isQuote c || c = ',' || c = ';' || c = ':' || c = '}' || c = ']'

/-! ### Bare text -/

/-- Splits off bare text. In an array it ends at a comma, a bracket or a brace. Elsewhere brackets
belong to it, and so does a comma in parentheses. -/
def bareRun (inArray : Bool) : Nat → List CodePoint → List CodePoint × List CodePoint
  | _, [] => ([], [])
  | depth, c :: cs =>
    if c = '}' ∨ (c = ',' ∧ depth = 0) ∨ (c = ']' ∧ inArray) then ([], c :: cs)
    else
      let depth :=
        if inArray then 0 else if c = '(' then depth + 1 else if c = ')' then depth - 1 else depth
      let (run, rest) := bareRun inArray depth cs
      (c :: run, rest)

/-- Marks in front of a bare word do not belong to it. -/
def isMark (c : CodePoint) : Bool :=
  c.toNat < 0x80 && !c.isAlphanum

/-- Whether the whole text is a decimal number. -/
def isNumber (cs : List CodePoint) : Bool :=
  let body := match cs with
    | '-' :: rest => rest
    | _ => cs
  let rest := body.dropWhile CodePoint.isDigit
  body.head?.any CodePoint.isDigit && (Json.Reader.exponent (Json.Reader.fraction rest).2).2 = []

/-- Words that are values other than text, in any letter case. -/
def keyword? (cs : List CodePoint) : Option Json :=
  let word := Text.ofList (cs.map CodePoint.toLower)
  if word = "true" then some (.bool true)
  else if word = "false" then some (.bool false)
  else if word = "null" ∨ word = "none" then some .null
  else none

/-- Whether a comma and a letter follow at once. -/
def runsOn (rest : List CodePoint) : Bool :=
  match rest with
  | ',' :: c :: _ => c.isAlpha
  | _ => false

/-- Whether a number is too long to be read as one. -/
def isLong (word : List CodePoint) : Bool :=
  let digits := word.filter (· ≠ CodePoint.char '-')
  digits.all CodePoint.isDigit && Json.Reader.digitLimit < digits.length

/-- The value of bare text. A number that runs on into the next member is a word, and one that is
too long is a text. -/
def bareValue (run rest : List CodePoint) : Json :=
  let word := Text.trimRight run
  if isNumber word ∧ ¬ (word = run ∧ runsOn rest) then
    if isLong word then .str (Text.ofList word) else .real (.parse word)
  else (keyword? word).getD (.str (Text.ofList (word.dropWhile isMark)))

/-- Reads a value that is neither array nor object. Quoted text that does not end at a boundary has
lost its closing quote and is bare. -/
def atom (inArray : Bool) (cs : List CodePoint) : Json × List CodePoint :=
  match cs with
  | [] => (.str "", [])
  | c :: rest =>
    if isQuote c then
      match (closed? c rest).filter fun (_, after) => isBoundary after with
      | some (text, after) => (.str (Text.ofList text), after)
      | none =>
        let (run, after) := bareRun inArray 0 rest
        (.str (Text.ofList (Text.trimRight run)), after)
    else
      let (run, after) := bareRun inArray 0 cs
      (bareValue run after, after)

/-! ### Arrays and objects -/

/-- Reads a value, unless it is nested too deeply. -/
abbrev Value := Bool → List CodePoint → Option (Json × List CodePoint)

/-- The elements of an array after its bracket. An array whose closing bracket is missing ends at
a brace. The bound is the number of characters left. -/
def elements (value : Value) : Nat → List CodePoint → Option (List Json × List CodePoint)
  | 0, cs => some ([], cs)
  | bound + 1, cs =>
    match skipGap cs with
    | [] => some ([], [])
    | ']' :: rest => some ([], rest)
    | ',' :: rest => elements value bound rest
    | '}' :: rest => some ([], '}' :: rest)
    | cs => do
      let (item, rest) ← value true cs
      let (items, rest) ← elements value bound rest
      return (item :: items, rest)

def isKeyChar (c : CodePoint) : Bool :=
  c ≠ ':' && c ≠ ',' && c ≠ '}'

/-- Everything up to a colon, comma or brace, without the marks in front. -/
def bareKey (cs : List CodePoint) : List CodePoint × List CodePoint :=
  (Text.trimRight ((cs.takeWhile isKeyChar).dropWhile isMark), cs.dropWhile isKeyChar)

def key (cs : List CodePoint) : List CodePoint × List CodePoint :=
  match cs with
  | c :: rest => if isQuote c then (closed? c rest).getD (bareKey cs) else bareKey cs
  | [] => ([], [])

/-- Drops the comma or semicolon after a member. -/
def skipSeparator (cs : List CodePoint) : List CodePoint :=
  match skipGap cs with
  | ',' :: rest => rest
  | ';' :: rest => rest
  | rest => rest

/-- The members of an object after its brace, bounded like `elements`. A key without a colon is
passed over, and so is an array or an object in the place of a key. -/
def members (value : Value) : Nat → List CodePoint → Option (List (Text × Json) × List CodePoint)
  | 0, cs => some ([], cs)
  | bound + 1, cs =>
    match skipGap cs with
    | [] => some ([], [])
    | '}' :: rest => some ([], rest)
    | '[' :: rest => do
      let (_, rest) ← value false ('[' :: rest)
      members value bound (skipSeparator rest)
    | '{' :: rest => do
      let (_, rest) ← value false ('{' :: rest)
      members value bound (skipSeparator rest)
    | cs =>
      let (name, rest) := key cs
      match skipGap rest with
      | ':' :: rest => do
        let (item, rest) ← value false (skipGap rest)
        let (items, rest) ← members value bound (skipSeparator rest)
        return ((Text.ofList name, item) :: items, rest)
      | rest => members value bound (skipSeparator rest)

/-- What follows the next closing brace. -/
def afterBrace (cs : List CodePoint) : List CodePoint :=
  (cs.dropWhile (· ≠ CodePoint.char '}')).drop 1

/-- What braces hold. Doubled braces count once, and braces whose first item has no colon hold a
set rather than an object. -/
def braces (value : Value) (cs : List CodePoint) : Option (Json × List CodePoint) :=
  match skipGap cs with
  | [] => some (.obj [], [])
  | '}' :: rest => some (.obj [], rest)
  | '{' :: rest => do
    let (inner, rest) ← value false ('{' :: rest)
    return (inner, afterBrace rest)
  | cs =>
    match skipGap (key cs).2 with
    | ':' :: _ => do
      let (items, rest) ← members value cs.length cs
      return (.object items, rest)
    | rest => some (.arr [.str (Text.ofList (key cs).1)], afterBrace rest)

/-- Reads one value with at most `depth` arrays and objects around any part of it. -/
def value : Nat → Value
  | 0, _, '[' :: _ => none
  | 0, _, '{' :: _ => none
  | depth + 1, _, '[' :: cs => do
    let (items, rest) ← elements (value depth) cs.length cs
    return (.arr items, rest)
  | depth + 1, _, '{' :: cs => braces (value depth) cs
  | _, inArray, cs => some (atom inArray cs)

/-- What the text after a value makes of it. Of objects that follow each other directly the last
one counts, a comma between them makes a list, and anything else is passed over. -/
def continued (read : Value) : Nat → Json → List CodePoint → Option Json
  | 0, v, _ => some v
  | bound + 1, v, cs =>
    match skipGap cs with
    | [] => some v
    | ',' :: _ => some (.arr [v])
    | '{' :: rest => do
      let (v, rest) ← read false ('{' :: rest)
      continued read bound v rest
    | _ :: rest => continued read bound v rest

/-- How deep arrays and objects may be nested in text that is no JSON. -/
def nestingLimit : Nat := 490

/-- Reads text leniently. -/
def lenient? (cs : List CodePoint) : Option Json := do
  let read := value nestingLimit
  let (v, rest) ← read false (skipGap cs)
  continued read rest.length v rest

/-! ### Named parameters -/

/-- Why a text is no named parameter. -/
inductive Fault where
  | notBraced
  | unparsable
  | notObject
  | missingMember
deriving DecidableEq, Repr

def Fault.message : Fault → Text
  | .notBraced => "not brace-delimited"
  | .unparsable => "unparsable"
  | .notObject => "not an object"
  | .missingMember => "missing string \"name\" or \"type\""

/-- The value of a text: as JSON if it is that and its numbers can be read, else leniently. -/
def read? (cs : List CodePoint) : Option Json :=
  match Json.Reader.document cs with
  | .ok v => some v
  | .error fault => if fault.cause = .tooDeep then none else lenient? cs

/-- The texts under `name` and `type` of a value. -/
def nameAndType (v : Json) : Except Fault (Text × Text) :=
  match v with
  | .obj _ =>
    match (v.member? "name").bind Json.text?, (v.member? "type").bind Json.text? with
    | some name, some type => .ok (name, type)
    | _, _ => .error .missingMember
  | _ => .error .notObject

/-- Reads a trimmed text as a named parameter, giving its name and its type. -/
def parse (text : Text) : Except Fault (Text × Text) :=
  let cs := text.toList
  if cs.head? = some (.char '{') ∧ cs.getLast? = some (.char '}') then
    match read? cs with
    | some v => nameAndType v
    | none => .error .unparsable
  else .error .notBraced

end ContractAbi.ObjectLiteral
