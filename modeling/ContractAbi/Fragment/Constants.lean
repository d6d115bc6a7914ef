import ContractAbi.Layout
import ContractAbi.Manifest.Basic
import ContractAbi.Text.Quoted

/-!
# ABI constants

A module that exports the events of a class and its ABI as constants.
-/

namespace ContractAbi.Fragment

def baseAbi : Text := "OP_NET_ABI"

def contractModule : Text := "opnet"

/-- A name as a literal. Only texts can be quoted. -/
def quoted (name : Name) : Render Text :=
  match name with
  | .str s => return Text.quote s
  | _ => throw .notText

def constantParam (p : AbiParam) : Render Text := do
  Render.line ("\x7b name: " ++ (← quoted p.name) ++ ", type: ABIDataTypes." ++ p.type.tag ++
    " \x7d,")

def constantParams (key : Text) (params : List AbiParam) : Render (List Text) := do
  if params = [] then
    return [← Render.line (key ++ ": [],")]
  else
    let first ← Render.line (key ++ ": [")
    let body ← Render.nested (params.mapM constantParam)
    let last ← Render.line "],"
    return first :: body ++ [last]

/-- An entry between braces. -/
def constantEntry (body : Render (List Text)) : Render (List Text) := do
  let first ← Render.line "\x7b"
  let lines ← Render.nested body
  let last ← Render.line "\x7d,"
  return first :: lines ++ [last]

def constantName (name : Name) : Render Text := do
  Render.line ("name: " ++ (← quoted name) ++ ",")

def constantFlag (name : Text) (isSet : Bool) : Render (List Text) := do
  if isSet then return [← Render.line (name ++ ": true,")] else return []

def constantFunction (f : FunctionEntry) : Render (List Text) :=
  constantEntry do
    let name ← constantName f.name
    let view ← constantFlag "constant" f.isView
    let payable ← constantFlag "payable" f.isPayable
    let inputs ← constantParams "inputs" f.inputs
    let outputs ← constantParams "outputs" f.outputs
    let type ← Render.line "type: BitcoinAbiTypes.Function,"
    return name :: view ++ payable ++ inputs ++ outputs ++ [type]

def constantEvent (e : EventEntry) : Render (List Text) :=
  constantEntry do
    let name ← constantName e.name
    let values ← constantParams "values" e.values
    let type ← Render.line "type: BitcoinAbiTypes.Event,"
    return name :: values ++ [type]

/-- The constants of a class. -/
def constants (owner : Text) (abi : Abi) : Render Text := do
  Render.startClass
  let eventsName := owner ++ "Events"
  let abiName := owner ++ "Abi"
  let events ← Render.nested (abi.events.mapM constantEvent)
  let functions ← Render.nested do
    let entries ← abi.functions.mapM constantFunction
    let ownEvents ← Render.line ("..." ++ eventsName ++ ",")
    let base ← Render.line ("..." ++ baseAbi ++ ",")
    return entries.flatten ++ [ownEvents, base]
  return joinLines <|
    ["import \x7b ABIDataTypes, BitcoinAbiTypes, " ++ baseAbi ++ " \x7d from '" ++ contractModule ++
      "';",
      "",
      "export const " ++ eventsName ++ " = ["] ++
    events.flatten ++
    [("];" : Text), "", "export const " ++ abiName ++ " = ["] ++
    functions ++
    [("];" : Text), "", "export default " ++ abiName ++ ";"]

end ContractAbi.Fragment
