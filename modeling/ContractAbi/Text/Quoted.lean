import ContractAbi.Text.Hex
import ContractAbi.Text.Printable

/-!
# Quoted text

`unquote` takes the quotes off an annotation argument, `quote` writes a single-quoted literal into
generated code, and `shown` is the form in which messages show a file name or an argument.
-/

namespace ContractAbi.Text

/-- Takes one `q` off each end of a text that has two. -/
def stripPair (q : CodePoint) (cs : List CodePoint) : List CodePoint :=
  match cs with
  | c :: rest => if c = q ∧ rest.getLast? = some q then rest.dropLast else cs
  | [] => cs

/-- Takes off one pair of double quotes, then one pair of single quotes. -/
def unquote (s : Text) : Text :=
  Text.ofList (stripPair '\'' (stripPair '"' s.toList))

/-- A backslash or single quote is written with a backslash before it. -/
def escapeQuoted : List CodePoint → List CodePoint
  | [] => []
  | c :: rest =>
    if c = '\\' ∨ c = '\'' then '\\' :: c :: escapeQuoted rest else c :: escapeQuoted rest

/-- A single-quoted literal. -/
def quote (s : Text) : Text :=
  Text.ofList (.char '\'' :: escapeQuoted s.toList ++ [.char '\''])

/-! ### Text shown in messages -/

/-- A character by its number, in two, four or eight hexadecimal digits. -/
def numberedChar (c : CodePoint) : List CodePoint :=
  let n := c.toNat
  if n < 0x100 then '\\' :: 'x' :: hexDigits 2 n
  else if n < 0x10000 then '\\' :: 'u' :: hexDigits 4 n
  else '\\' :: 'U' :: hexDigits 8 n

/-- A character inside the quotes `q`. What cannot be printed is shown by number. -/
def shownChar (q c : CodePoint) : List CodePoint :=
  if c = q ∨ c = '\\' then ['\\', c]
  else if c = '\n' then ['\\', 'n']
  else if c = '\r' then ['\\', 'r']
  else if c = '\t' then ['\\', 't']
  else if isPrintable c then [c]
  else numberedChar c

/-- The text in single quotes, or in double quotes if it has a single quote and no double one. -/
def shown (s : Text) : Text :=
  let cs := s.toList
  let q : CodePoint := if .char '\'' ∈ cs ∧ .char '"' ∉ cs then '"' else '\''
  Text.ofList (q :: cs.flatMap (shownChar q) ++ [q])

end ContractAbi.Text
