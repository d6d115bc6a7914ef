import ContractAbi.AbiType.Tuple
import ContractAbi.Name
import ContractAbi.ObjectLiteral

/-!
# Parameters in annotations

An annotation argument is a bare type spelling or a named parameter. The first argument of
`@method` may instead be the name under which the method is called.
-/

namespace ContractAbi

inductive Param where
  | bare (spelling : Text)
  | named (name type : Text)
deriving DecidableEq, Repr

namespace Param

/-- The type as spelled in the annotation. -/
def type : Param → Text
  | bare spelling => spelling
  | named _ type => type

def name? : Param → Option Text
  | bare _ => none
  | named name _ => some name

/-- The text that a parameter stands for when it is taken for a method name. -/
def asName : Param → Text
  | bare spelling => spelling
  | named name _ => name

/-- An argument that is no object literal with a name and a type is a bare spelling. -/
def parse (argument : Text) : Param :=
  match ObjectLiteral.parse (Text.trim argument) with
  | .ok (name, type) => named name type
  | .error _ => bare (Text.trim argument)

def looksLikeType (p : Param) : Bool :=
  AbiType.looksLikeType p.type

end Param

/-- The arguments of `@method`. -/
inductive MethodArguments where
  | params (params : List Param)
  | renamed (name : Text) (params : List Param)
deriving DecidableEq, Repr

namespace MethodArguments

/-- Only the first argument decides: what does not look like a type is a name. A name that is also
an accepted spelling is taken for a type. -/
def parse (arguments : List Text) : MethodArguments :=
  match arguments.map Param.parse with
  | [] => params []
  | first :: rest =>
    if first.looksLikeType then params (first :: rest) else renamed first.asName rest

/-- The name under which the method is called, `declared` unless it is renamed. -/
def nameOr (declared : Name) : MethodArguments → Name
  | params _ => declared
  | renamed name _ => .str name

def toParams : MethodArguments → List Param
  | params ps => ps
  | renamed _ ps => ps

end MethodArguments

end ContractAbi
