import ContractAbi.AbiType.Hint
import ContractAbi.Call
import ContractAbi.Json.Writer
import ContractAbi.Name

/-!
# Manifests

The functions and events of one class or of a whole compilation unit, with their types resolved.
-/

namespace ContractAbi

/-- An input, an output or a value of an event. -/
structure AbiParam where
  name : Name
  type : AbiType
deriving DecidableEq, Repr

structure FunctionEntry where
  name : Name
  isView : Bool
  isPayable : Bool
  isOwnerOnly : Bool
  inputs : List AbiParam
  outputs : List AbiParam
  call : Call
  declared : Name
  emits : List Text
deriving DecidableEq, Repr

structure EventEntry where
  name : Name
  values : List AbiParam
deriving DecidableEq, Repr

structure Abi where
  functions : List FunctionEntry := []
  events : List EventEntry := []
deriving DecidableEq, Repr

/-! ### Names in a manifest -/

def AbiParam.isTextual (p : AbiParam) : Bool :=
  p.name.text?.isSome

def FunctionEntry.isTextual (f : FunctionEntry) : Bool :=
  f.name.text?.isSome && f.inputs.all AbiParam.isTextual && f.outputs.all AbiParam.isTextual

def EventEntry.isTextual (e : EventEntry) : Bool :=
  e.name.text?.isSome && e.values.all AbiParam.isTextual

/-- Whether all names are texts. -/
def Abi.isTextual (abi : Abi) : Bool :=
  abi.functions.all FunctionEntry.isTextual && abi.events.all EventEntry.isTextual

/-! ### The manifest file -/

def AbiParam.toJson (p : AbiParam) : Json :=
  .obj [("name", p.name), ("type", .str p.type.tag)]

def FunctionEntry.kind (f : FunctionEntry) : Text :=
  if f.isView then "View" else "Function"

/-- The published part of a function. Its call, its declared name and its events are not. -/
def FunctionEntry.toJson (f : FunctionEntry) : Json :=
  .obj [
    ("name", f.name),
    ("type", .str f.kind),
    ("payable", .bool f.isPayable),
    ("onlyOwner", .bool f.isOwnerOnly),
    ("inputs", .arr (f.inputs.map AbiParam.toJson)),
    ("outputs", .arr (f.outputs.map AbiParam.toJson))]

def EventEntry.toJson (e : EventEntry) : Json :=
  .obj [
    ("name", e.name),
    ("values", .arr (e.values.map AbiParam.toJson)),
    ("type", .str "Event")]

def Abi.toJson (abi : Abi) : Json :=
  .obj [
    ("functions", .arr (abi.functions.map FunctionEntry.toJson)),
    ("events", .arr (abi.events.map EventEntry.toJson))]

/-- The text of the manifest file. -/
def Abi.manifest (abi : Abi) : Text :=
  abi.toJson.render ++ "\n"

end ContractAbi
