import ContractAbi.Fragment.Constants
import ContractAbi.Text.Upper

/-!
# Type definitions

A module that declares the type of each event, the result of each call and the interface of a class.
-/

namespace ContractAbi.Fragment

def transactionModule : Text := "@btc-vision/transaction"

def rule : Text := "// ------------------------------------------------------------------"

def sectionHead (title : Text) : List Text :=
  [rule, "// " ++ title, rule]

def importLine (names : List Text) (library : Text) : Text :=
  "import \x7b " ++ Text.intercalate ", " (sortNames names) ++ " \x7d from '" ++ library ++ "';"

/-- The import lines for the names noted so far. -/
def imports (l : Layout) : List Text :=
  (if l.transactionImports = [] then [] else [importLine l.transactionImports transactionModule]) ++
    [importLine l.contractImports contractModule]

/-- `name: type` -/
def typed (p : AbiParam) : Render Text := do
  return p.name.label ++ ": " ++ (← Render.hint p.type)

def eventType (e : EventEntry) : Render (List Text) := do
  let values ← Render.nested <| e.values.mapM fun v => do
    Render.line ("readonly " ++ (← typed v) ++ ";")
  return ("export type " ++ e.name.label ++ "Event = \x7b") :: values ++ [("\x7d;" : Text)]

def resultFields (outputs : List AbiParam) : Render (List Text) := do
  if outputs = [] then
    return [← Render.line "\x7b\x7d,"]
  else
    let first ← Render.line "\x7b"
    let fields ← Render.nested <| outputs.mapM fun o => do Render.line ((← typed o) ++ ";")
    let last ← Render.line "\x7d,"
    return first :: fields ++ [last]

/-- The events of a call, as a union of those that the class declares. -/
def eventUnion (declared : List Name) (emits : List Text) : Text :=
  match emits.filter (fun e => declared.any (·.isText e)) with
  | [] => "OPNetEvent<never>[]"
  | events => "OPNetEvent<" ++ Text.intercalate " | " (events.map (· ++ "Event")) ++ ">[]"

/-- Whether a name can be capitalised: a text can, and what is empty stays as it is. -/
def hasCapital (name : Name) : Bool :=
  name.text?.isSome || !name.isTruthy

def capitalized (name : Name) : Render Text :=
  if hasCapital name then return Text.capitalize name.label else throw (.noCapital name)

def callResult (declared : List Name) (f : FunctionEntry) : Render (List Text) := do
  let name ← capitalized f.name
  let body ← Render.nested do
    let fields ← resultFields f.outputs
    return fields ++ [← Render.line (eventUnion declared f.emits)]
  return [("/**" : Text),
    " * @description Represents the result of the " ++ f.name.label ++ " function call.",
    " */",
    "export type " ++ name ++ " = CallResult<"] ++ body ++ [(">;" : Text)]

def interfaceMethod (f : FunctionEntry) : Render Text := do
  let params ← f.inputs.mapM typed
  let result ← capitalized f.name
  Render.line (f.name.label ++ "(" ++ Text.intercalate ", " params ++ "): Promise<" ++ result ++ ">;")

def interface (owner : Text) (functions : List FunctionEntry) : Render (List Text) := do
  let methods ← Render.nested (functions.mapM interfaceMethod)
  return ("export interface I" ++ owner ++ " extends IOP_NETContract \x7b") :: methods ++
    [("\x7d" : Text)]

/-- The definitions of a class. Each event and each result is followed by an empty line. -/
def definitions (owner : Text) (abi : Abi) : Render Text := do
  Render.startClass
  Render.importFromContracts ["CallResult", "OPNetEvent", "IOP_NETContract"]
  let events ← abi.events.mapM eventType
  let results ← abi.functions.mapM (callResult (abi.events.map (·.name)))
  let face ← interface owner abi.functions
  let body :=
    sectionHead "Event Definitions" ++ events.flatMap (· ++ [("" : Text)]) ++
    sectionHead "Call Results" ++ results.flatMap (· ++ [("" : Text)]) ++
    sectionHead ("I" ++ owner) ++ face
  return joinLines (imports (← get) ++ [("" : Text)] ++ body)

/-- Constants and definitions of a class. -/
def both (owner : Text) (abi : Abi) : Render (Text × Text) := do
  let constants ← constants owner abi
  let definitions ← definitions owner abi
  return (constants, definitions)

end ContractAbi.Fragment
