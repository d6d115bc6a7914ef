import ContractAbi.Declaration.Basic

/-!
# Declaration dumps

A dump is a JSON object that describes sources, their classes and the members of these. Loading
checks its shape and no more: names, paths and types may be any JSON value.
-/

namespace ContractAbi.Dump

inductive Member where
  | method (name : Name) (decorators : List Decorator)
  | field (f : Field)
deriving DecidableEq, Repr

structure Class where
  name : Name
  members : List Member
  decorators : List Decorator
  base : Json
deriving DecidableEq, Repr

structure Source where
  path : Json
  classes : List Class
  isLibrary : Bool
deriving DecidableEq, Repr

/-- Why a dump is refused. `place` says where, from the path down to the member. -/
inductive Fault where
  | missingKey (key place : Text)
  | badArguments (decorator place : Text)
  | unknownKind (kind place : Text)
  /-- A number, a boolean or null stands where a list is due. -/
  | notIterable
deriving DecidableEq, Repr

def Fault.message : Fault → Text
  | missingKey key place => "missing \"" ++ key ++ "\" in " ++ place
  | badArguments decorator place =>
    "decorator @" ++ decorator ++ " args must be a list of strings in " ++ place
  | unknownKind kind place => "unknown member kind \"" ++ kind ++ "\" in " ++ place
  | notIterable => "not a list"

/-! ### Loading -/

/-- The items of a value: an array's elements, an object's keys, a text's characters. -/
def items : Json → Except Fault (List Json)
  | .arr elements => .ok elements
  | .obj members => .ok (members.map fun m => .str m.1)
  | .str s => .ok (s.toList.map fun c => .str (.ofList [c]))
  | _ => .error .notIterable

def require (v : Json) (key place : Text) : Except Fault Json :=
  match v.member? key with
  | some value => .ok value
  | none => .error (.missingKey key place)

def optional (v : Json) (key : Text) (default : Json) : Json :=
  (v.member? key).getD default

/-- An array of texts. -/
def texts? : Json → Option (List Text)
  | .arr elements => elements.mapM Json.text?
  | _ => none

def loadDecorator (place : Text) (v : Json) : Except Fault Decorator := do
  let name ← require v "name" place
  match texts? (optional v "args" (.arr [])) with
  | some args => return { name, args }
  | none => throw (.badArguments name.label place)

/-- Whatever says nothing stands for no decorators. -/
def loadDecorators (place : Text) (v : Json) : Except Fault (List Decorator) := do
  if v.isTruthy then (← items v).mapM (loadDecorator place) else return []

def loadMember (place : Text) (v : Json) : Except Fault Member := do
  let kind ← require v "kind" place
  let name ← require v "name" place
  let place := place ++ "." ++ name.label
  let decorators ← loadDecorators place (optional v "decorators" (.arr []))
  if kind.isText "method" then return .method name decorators
  else if kind.isText "field" then
    return .field { name, type := optional v "type" .null, decorators }
  else throw (.unknownKind kind.label place)

def loadClass (place : Text) (v : Json) : Except Fault Class := do
  let name ← require v "name" place
  let place := place ++ ":" ++ name.label
  let members ← (← items (optional v "members" (.arr []))).mapM (loadMember place)
  let decorators ← loadDecorators place (optional v "decorators" (.arr []))
  return { name, members, decorators, base := optional v "extends" .null }

def loadSource (v : Json) : Except Fault Source := do
  let path ← require v "path" "source"
  let classes ← (← items (optional v "classes" (.arr []))).mapM (loadClass path.label)
  return { path, classes, isLibrary := (optional v "isLibrary" (.bool false)).isTruthy }

def load (v : Json) : Except Fault (List Source) := do
  (← items (← require v "sources" "declaration dump")).mapM loadSource

end ContractAbi.Dump
