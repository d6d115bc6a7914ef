import ContractAbi.Name

/-!
# Fatal faults

What stops a transform. A fault says which declaration is at fault and how.
-/

namespace ContractAbi

/-- The annotation a type spelling comes from. -/
inductive SpellingKind where
  | method
  | event
deriving DecidableEq, Repr

def SpellingKind.word : SpellingKind → Text
  | method => "method"
  | event => "event"

inductive Fault where
  /-- A spelling in the annotations of `owner`'s member names no type. -/
  | unresolvedType (kind : SpellingKind) (owner member spelling : Text)
  /-- The program has no element for an annotated method. -/
  | declarationNotFound (owner method : Text)
  /-- A source's path, the type of an event's field or a name in a constant is something other than
  a text. -/
  | notText
  /-- A class or a decorator of a method has a list or an object for a name. -/
  | compositeName
  /-- The name of a function is neither a text nor empty and cannot be capitalised. -/
  | noCapital (name : Name)
  /-- A signature has a surrogate in it and cannot be encoded. -/
  | unencodable
deriving DecidableEq, Repr

def Fault.message : Fault → Text
  | unresolvedType kind owner member spelling =>
    "Invalid ABI type \"" ++ spelling ++ "\" in " ++ kind.word ++ " " ++ owner ++ "." ++ member
  | declarationNotFound owner method =>
    "Method " ++ owner ++ "." ++ method ++ " not found in the program."
  | notText => "not a text"
  | compositeName => "not a name"
  | noCapital name => "not a name: " ++ name.label
  | unencodable => "not encodable"

end ContractAbi
