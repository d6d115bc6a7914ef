import ContractAbi.Json.Basic

/-!
# Reading JSON

A reader for strict JSON text that also takes `NaN`, `Infinity` and `-Infinity` for numbers. A text
that is refused is refused with a cause and the place of the offending character.
-/

namespace ContractAbi.Json

namespace Reader

inductive Cause where
  | expectingValue
  | expectingName
  | expectingColon
  | expectingComma
  | extraData
  | unterminatedString
  | controlCharacter
  | badEscape
  | badUnicodeEscape
  | byteOrderMark
  | tooDeep
  | longNumber
deriving DecidableEq, Repr

/-- A cause, with the number of characters from the offending one to the end of the text. -/
structure Fault where
  cause : Cause
  left : Nat
deriving DecidableEq, Repr

/-- Refuses a text at the first character of what is left of it. -/
def refuse {α : Type} (cause : Cause) (rest : List CodePoint) : Except Fault α :=
  .error ⟨cause, rest.length⟩

def isSpace (c : CodePoint) : Bool :=
  c = ' ' || c = '\t' || c = '\n' || c = '\r'

def skipSpace (cs : List CodePoint) : List CodePoint :=
  cs.dropWhile isSpace

/-! ### Strings -/

def hexValue? (c : CodePoint) : Option Nat :=
  if '0' ≤ c ∧ c ≤ '9' then some (c.toNat - '0'.toNat)
  else if 'a' ≤ c ∧ c ≤ 'f' then some (c.toNat - 'a'.toNat + 10)
  else if 'A' ≤ c ∧ c ≤ 'F' then some (c.toNat - 'A'.toNat + 10)
  else none

/-- The number written by four hexadecimal digits. -/
def hexUnit? (a b c d : CodePoint) : Option Nat := do
  let a ← hexValue? a
  let b ← hexValue? b
  let c ← hexValue? c
  let d ← hexValue? d
  return ((a * 16 + b) * 16 + c) * 16 + d

def isHighSurrogate (n : Nat) : Bool := 0xd800 ≤ n && n < 0xdc00

def isLowSurrogate (n : Nat) : Bool := 0xdc00 ≤ n && n < 0xe000

/-- The character of a pair of surrogates. -/
def joinSurrogates (high low : Nat) : CodePoint :=
  .ofNat (0x10000 + (high - 0xd800) * 0x400 + (low - 0xdc00))

def shortEscape? (c : CodePoint) : Option CodePoint :=
  match c with
  | '"' => some '"'
  | '\\' => some '\\'
  | '/' => some '/'
  | 'b' => some '\x08'
  | 'f' => some '\x0c'
  | 'n' => some '\n'
  | 'r' => some '\r'
  | 't' => some '\t'
  | _ => none

/-- What a string is written with: characters, and UTF-16 units given by number. -/
inductive Piece where
  | char (c : CodePoint)
  | unit (n : Nat)
deriving DecidableEq, Repr

/-- Puts `p` in front of pieces that have been read. -/
def prepend (p : Piece) (result : Except Fault (List Piece × List CodePoint)) :
    Except Fault (List Piece × List CodePoint) :=
  result.map fun (ps, rest) => (p :: ps, rest)

/-- The pieces up to the closing quote of a string whose opening quote is `opening` characters
before the end of the text. A unit by number never ends the text. -/
def pieces (opening : Nat) : List CodePoint → Except Fault (List Piece × List CodePoint)
  | [] => .error ⟨.unterminatedString, opening⟩
  | '"' :: cs => .ok ([], cs)
  | ['\\'] => .error ⟨.unterminatedString, opening⟩
  | '\\' :: 'u' :: a :: b :: c :: d :: cs =>
    match hexUnit? a b c d with
    | some n =>
      if cs = [] then .error ⟨.badUnicodeEscape, 5⟩ else prepend (.unit n) (pieces opening cs)
    | none => .error ⟨.badUnicodeEscape, cs.length + 5⟩
  | '\\' :: 'u' :: cs => .error ⟨.badUnicodeEscape, cs.length + 1⟩
  | '\\' :: c :: cs =>
    match shortEscape? c with
    | some c' => prepend (.char c') (pieces opening cs)
    | none => .error ⟨.badEscape, cs.length + 2⟩
  | c :: cs =>
    if c.toNat < 0x20 then .error ⟨.controlCharacter, cs.length + 1⟩
    else prepend (.char c) (pieces opening cs)

/-- Joins pairs of surrogates that are given by number. `high` is a high one that waits for its low
one. Without that it stands alone. -/
def assemble : Option Nat → List Piece → List CodePoint
  | none, [] => []
  | some high, [] => [.ofNat high]
  | none, .char c :: ps => c :: assemble none ps
  | some high, .char c :: ps => .ofNat high :: c :: assemble none ps
  | none, .unit n :: ps =>
    if isHighSurrogate n then assemble (some n) ps else .ofNat n :: assemble none ps
  | some high, .unit n :: ps =>
    if isLowSurrogate n then joinSurrogates high n :: assemble none ps
    else if isHighSurrogate n then .ofNat high :: assemble (some n) ps
    else .ofNat high :: .ofNat n :: assemble none ps

/-- Reads a string after its opening quote. -/
def string (cs : List CodePoint) : Except Fault (Text × List CodePoint) := do
  let (ps, rest) ← pieces (cs.length + 1) cs
  return (Text.ofList (assemble none ps), rest)

/-! ### Numbers and words -/

/-- A point with at least one digit after it, if the text starts so. -/
def fraction (cs : List CodePoint) : List CodePoint × List CodePoint :=
  match cs with
  | '.' :: rest =>
    if rest.takeWhile CodePoint.isDigit = [] then ([], cs)
    else ('.' :: rest.takeWhile CodePoint.isDigit, rest.dropWhile CodePoint.isDigit)
  | _ => ([], cs)

def exponentSign (cs : List CodePoint) : List CodePoint × List CodePoint :=
  match cs with
  | '+' :: rest => (['+'], rest)
  | '-' :: rest => (['-'], rest)
  | _ => ([], cs)

/-- An exponent with at least one digit, if the text starts so. -/
def exponent (cs : List CodePoint) : List CodePoint × List CodePoint :=
  match cs with
  | e :: rest =>
    let (sign, digits) := exponentSign rest
    if (e = 'e' ∨ e = 'E') ∧ digits.takeWhile CodePoint.isDigit ≠ [] then
      (e :: sign ++ digits.takeWhile CodePoint.isDigit, digits.dropWhile CodePoint.isDigit)
    else ([], cs)
  | [] => ([], cs)

/-- A leading zero is a whole part of its own. -/
def whole (cs : List CodePoint) : List CodePoint × List CodePoint :=
  match cs with
  | '0' :: rest => (['0'], rest)
  | _ => (cs.takeWhile CodePoint.isDigit, cs.dropWhile CodePoint.isDigit)

/-- How many digits a whole number may have. -/
def digitLimit : Nat := 4300

def number (cs : List CodePoint) : Except Fault (Json × List CodePoint) :=
  let (sign, body) : List CodePoint × List CodePoint :=
    match cs with
    | '-' :: rest => (['-'], rest)
    | _ => ([], cs)
  let (digits, rest) := whole body
  if digits = [] then refuse .expectingValue cs
  else
    let (point, rest) := fraction rest
    let (power, rest) := exponent rest
    if point = [] ∧ power = [] then
      if digitLimit < digits.length then refuse .longNumber cs
      else .ok (.int (Text.signedDecimal (sign ++ digits)), rest)
    else .ok (.real (.parse (sign ++ digits ++ point ++ power)), rest)

def scalar (cs : List CodePoint) : Except Fault (Json × List CodePoint) :=
  match cs with
  | 'n' :: 'u' :: 'l' :: 'l' :: rest => .ok (.null, rest)
  | 't' :: 'r' :: 'u' :: 'e' :: rest => .ok (.bool true, rest)
  | 'f' :: 'a' :: 'l' :: 's' :: 'e' :: rest => .ok (.bool false, rest)
  | 'N' :: 'a' :: 'N' :: rest => .ok (.real .undefined, rest)
  | 'I' :: 'n' :: 'f' :: 'i' :: 'n' :: 'i' :: 't' :: 'y' :: rest =>
    .ok (.real (.infinity false), rest)
  | '-' :: 'I' :: 'n' :: 'f' :: 'i' :: 'n' :: 'i' :: 't' :: 'y' :: rest =>
    .ok (.real (.infinity true), rest)
  | _ => number cs

/-! ### Arrays and objects -/

/-- Reads one value off the front of a text. -/
abbrev ReadValue := List CodePoint → Except Fault (Json × List CodePoint)

/-- The elements of an array after its bracket, each read by `value`. The bound is the number of
characters left, which no array outlasts. -/
def elements (value : ReadValue) : Nat → List CodePoint → Except Fault (List Json × List CodePoint)
  | 0, cs => refuse .expectingValue cs
  | bound + 1, cs => do
    let (item, rest) ← value cs
    match skipSpace rest with
    | ']' :: rest => return ([item], rest)
    | ',' :: rest =>
      let (items, rest) ← elements value bound (skipSpace rest)
      return (item :: items, rest)
    | rest => refuse .expectingComma rest

def array (value : ReadValue) (cs : List CodePoint) : Except Fault (Json × List CodePoint) :=
  match skipSpace cs with
  | ']' :: rest => .ok (.arr [], rest)
  | cs => do
    let (items, rest) ← elements value cs.length cs
    return (.arr items, rest)

/-- The members of an object after its brace, bounded like `elements`. -/
def members (value : ReadValue) :
    Nat → List CodePoint → Except Fault (List (Text × Json) × List CodePoint)
  | bound + 1, '"' :: cs => do
    let (key, rest) ← string cs
    match skipSpace rest with
    | ':' :: rest =>
      let (item, rest) ← value (skipSpace rest)
      match skipSpace rest with
      | '}' :: rest => return ([(key, item)], rest)
      | ',' :: rest =>
        let (items, rest) ← members value bound (skipSpace rest)
        return ((key, item) :: items, rest)
      | rest => refuse .expectingComma rest
    | rest => refuse .expectingColon rest
  | _, cs => refuse .expectingName cs

def object (value : ReadValue) (cs : List CodePoint) : Except Fault (Json × List CodePoint) :=
  match skipSpace cs with
  | '}' :: rest => .ok (.obj [], rest)
  | cs => do
    let (items, rest) ← members value cs.length cs
    return (.object items, rest)

/-- Reads one value with at most `depth` arrays and objects around any part of it. -/
def value : Nat → List CodePoint → Except Fault (Json × List CodePoint)
  | _, '"' :: cs => do
    let (s, rest) ← string cs
    return (.str s, rest)
  | 0, '[' :: cs => .error ⟨.tooDeep, cs.length + 1⟩
  | 0, '{' :: cs => .error ⟨.tooDeep, cs.length + 1⟩
  | depth + 1, '[' :: cs => array (value depth) cs
  | depth + 1, '{' :: cs => object (value depth) cs
  | _, cs => scalar cs

/-- How deep arrays and objects may be nested. -/
def nestingLimit : Nat := 990

/-- Reads a whole text, blanks around the value included. -/
def document (cs : List CodePoint) : Except Fault Json :=
  if cs.head? = some (.char '\ufeff') then refuse .byteOrderMark cs
  else do
    let (v, rest) ← value nestingLimit (skipSpace cs)
    match skipSpace rest with
    | [] => return v
    | rest => refuse .extraData rest

end Reader

/-! ### Faults with their place -/

/-- Why and where a text is no JSON. Lines and columns count from one. -/
structure ParseError where
  cause : Reader.Cause
  position : Nat
  line : Nat
  column : Nat
deriving DecidableEq, Repr

def Reader.Cause.message : Reader.Cause → Text
  | .expectingValue => "Expecting value"
  | .expectingName => "Expecting property name enclosed in double quotes"
  | .expectingColon => "Expecting ':' delimiter"
  | .expectingComma => "Expecting ',' delimiter"
  | .extraData => "Extra data"
  | .unterminatedString => "Unterminated string starting at"
  | .controlCharacter => "Invalid control character at"
  | .badEscape => "Invalid \\escape"
  | .badUnicodeEscape => "Invalid \\uXXXX escape"
  | .byteOrderMark => "Unexpected UTF-8 BOM (decode using utf-8-sig)"
  | .tooDeep => "Nested too deeply"
  | .longNumber => "Too many digits"

def ParseError.message (e : ParseError) : Text :=
  e.cause.message ++ ": line " ++ toString e.line ++ " column " ++ toString e.column ++
    " (char " ++ toString e.position ++ ")"

/-- Places a fault in the text it was found in. -/
def ParseError.ofFault (cs : List CodePoint) (fault : Reader.Fault) : ParseError :=
  let before := cs.take (cs.length - fault.left)
  { cause := fault.cause
    position := before.length
    line := before.count (.char '\n') + 1
    column := (before.reverse.takeWhile (· ≠ CodePoint.char '\n')).length + 1 }

def parse (text : Text) : Except ParseError Json :=
  (Reader.document text.toList).mapError (ParseError.ofFault text.toList)

end ContractAbi.Json
