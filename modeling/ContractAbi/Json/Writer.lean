import ContractAbi.Json.Basic
import ContractAbi.Text.Hex

/-!
# Writing JSON

Indented by four spaces a level and in ASCII only: every other character is written by its UTF-16
units.
-/

namespace ContractAbi.Json

namespace Writer

/-- One UTF-16 unit by number. -/
def escapeUnit (n : Nat) : List CodePoint :=
  '\\' :: 'u' :: Text.hexDigits 4 n

def escapeChar (c : CodePoint) : List CodePoint :=
  let n := c.toNat
  if c = '"' then ['\\', '"']
  else if c = '\\' then ['\\', '\\']
  else if c = '\n' then ['\\', 'n']
  else if c = '\r' then ['\\', 'r']
  else if c = '\t' then ['\\', 't']
  else if c = '\x08' then ['\\', 'b']
  else if c = '\x0c' then ['\\', 'f']
  else if 0x20 ≤ n ∧ n ≤ 0x7e then [c]
  else if n < 0x10000 then escapeUnit n
  else escapeUnit (0xd800 + (n - 0x10000) / 0x400) ++ escapeUnit (0xdc00 + (n - 0x10000) % 0x400)

def string (s : Text) : List CodePoint :=
  .char '"' :: s.toList.flatMap escapeChar ++ [.char '"']

/-- Infinities and what is no number are written as words. -/
def real : Double → Text
  | .undefined => "NaN"
  | .infinity false => "Infinity"
  | .infinity true => "-Infinity"
  | x => x.text

/-- Starts a line at the given depth. -/
def newline (depth : Nat) : List CodePoint :=
  '\n' :: List.replicate (4 * depth) ' '

mutual

def value (depth : Nat) : Json → List CodePoint
  | null => Text.toList "null"
  | bool true => Text.toList "true"
  | bool false => Text.toList "false"
  | int n => Text.toList (toString n)
  | .real x => (real x).toList
  | str s => string s
  | arr [] => ['[', ']']
  | arr (item :: items) =>
    .char '[' :: newline (depth + 1) ++ value (depth + 1) item ++ moreItems (depth + 1) items ++
      newline depth ++ [.char ']']
  | obj [] => ['{', '}']
  | obj ((key, item) :: members) =>
    .char '{' :: newline (depth + 1) ++ string key ++ .char ':' :: .char ' ' ::
      value (depth + 1) item ++ moreMembers (depth + 1) members ++ newline depth ++ [.char '}']

/-- The elements after the first, each behind a comma and on a line of its own. -/
def moreItems (depth : Nat) : List Json → List CodePoint
  | [] => []
  | item :: items => .char ',' :: newline depth ++ value depth item ++ moreItems depth items

def moreMembers (depth : Nat) : List (Text × Json) → List CodePoint
  | [] => []
  | (key, item) :: members =>
    .char ',' :: newline depth ++ string key ++ .char ':' :: .char ' ' :: value depth item ++
      moreMembers depth members

end

end Writer

/-- The text of a value. -/
def render (v : Json) : Text :=
  Text.ofList (Writer.value 0 v)

end ContractAbi.Json
