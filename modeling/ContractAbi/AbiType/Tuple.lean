import ContractAbi.AbiType.Basic
import ContractAbi.Text.Blank

/-!
# Tuple types

A tuple type is spelled `tuple(member,…)[]`. Two member lists name a type: an address with an
amount, and an extended address with an amount.
-/

namespace ContractAbi.AbiType

/-- What stands between the parentheses of a tuple spelling. It is not empty and has no
parentheses of its own, and one line feed may follow the closing brackets. -/
def tupleBody? (spelling : Text) : Option (List CodePoint) :=
  match spelling.toList with
  | 't' :: 'u' :: 'p' :: 'l' :: 'e' :: '(' :: rest =>
    let body := rest.takeWhile fun (c : CodePoint) => c ≠ '(' ∧ c ≠ ')'
    let close := rest.dropWhile fun (c : CodePoint) => c ≠ '(' ∧ c ≠ ')'
    if body ≠ [] ∧ (close = Text.toList ")[]" ∨ close = Text.toList ")[]\n") then some body
    else none
  | _ => none

def isTuple (spelling : Text) : Bool :=
  (tupleBody? spelling).isSome

/-- The trimmed members of a tuple spelling, and none for any other spelling. -/
def tupleMembers (spelling : Text) : List Text :=
  match tupleBody? spelling with
  | some body => (body.splitOn (.char ',')).map fun part => Text.ofList (Text.trimChars part)
  | none => []

/-- The members that are no accepted spelling. A spelling that is no tuple is itself the answer. -/
def unknownMembers (spelling : Text) : List Text :=
  match tupleMembers spelling with
  | [] => [spelling]
  | members => members.filter fun m => !isSpelling m

/-- The members in canonical spelling, provided that each has one. -/
def canonicalMembers? (spelling : Text) : Option (List Text) :=
  match tupleMembers spelling with
  | [] => none
  | members => members.mapM canonicalSpelling?

def tupleText (members : List Text) : Text :=
  "tuple(" ++ Text.intercalate "," members ++ ")[]"

/-- The tuple spelling with canonical members. -/
def canonicalTuple? (spelling : Text) : Option Text :=
  (canonicalMembers? spelling).map tupleText

/-- The type named by a list of canonical members. -/
def ofTupleMembers? (members : List Text) : Option AbiType :=
  if members = [address.canonical, uint256.canonical] then some addressAmounts
  else if members = [extendedAddress.canonical, uint256.canonical] then some extendedAddressAmounts
  else none

def isAmounts (t : AbiType) : Bool :=
  t = addressAmounts || t = extendedAddressAmounts

/-- The type of a spelling: a tuple is read member by member, anything else is looked up. -/
def resolve? (spelling : Text) : Option AbiType :=
  if isTuple spelling then
    match (ofSpelling? spelling).filter isAmounts with
    | some t => some t
    | none => (canonicalMembers? spelling).bind ofTupleMembers?
  else ofSpelling? spelling

/-- The canonical spelling of whatever type the spelling resolves to. -/
def resolveCanonical? (spelling : Text) : Option Text :=
  (resolve? spelling).map canonical

/-- Whether an annotation argument is taken for a type rather than a name. -/
def looksLikeType (spelling : Text) : Bool :=
  isEnumQualified spelling || isSpelling spelling || (resolve? spelling).isSome

end ContractAbi.AbiType
