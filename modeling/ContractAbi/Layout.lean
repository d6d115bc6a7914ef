import ContractAbi.AbiType.Hint
import ContractAbi.Distinct
import ContractAbi.Fault

/-!
# Layout of generated code

While code is rendered, the layout holds the indentation and the names to import. Rendering a class
starts by resetting it.
-/

namespace ContractAbi

structure Layout where
  level : Int := 0
  /-- One level of indentation. -/
  indentUnit : Text := "    "
  /-- Names imported from the transaction library. -/
  transactionImports : List Text := []
  /-- Names imported from the contract library. -/
  contractImports : List Text := []
deriving DecidableEq, Repr

namespace Layout

/-- A negative level indents no more than level zero. -/
def indent (l : Layout) : Text :=
  Text.join (List.replicate l.level.toNat l.indentUnit)

/-- An indented line. An empty line stays empty. -/
def line (l : Layout) (text : Text) : Text :=
  if text = "" then "" else l.indent ++ text

def reset (l : Layout) : Layout :=
  { l with level := 0, transactionImports := [], contractImports := [] }

def shift (l : Layout) (levels : Int) : Layout :=
  { l with level := l.level + levels }

end Layout

/-- Lines as a text, each ended by a line feed. -/
def joinLines (lines : List Text) : Text :=
  Text.intercalate "\n" lines ++ "\n"

/-- Names in alphabetical order. -/
def sortNames (names : List Text) : List Text :=
  names.mergeSort (fun a b => decide (a ≤ b))

/-! ### Rendering -/

/-- Rendering, which a fault may stop. What it did to the layout until then remains. -/
abbrev Render := ExceptT Fault (StateM Layout)

namespace Render

def startClass : Render Unit :=
  modify Layout.reset

def line (text : Text) : Render Text := do
  return (← get).line text

/-- Renders one level further in, where a fault leaves the layout. -/
def nested {α : Type} (body : Render α) : Render α := do
  modify (·.shift 1)
  let result ← body
  modify (·.shift (-1))
  return result

/-- A type hint, the names of which are noted for import. -/
def hint (t : AbiType) : Render Text := do
  modify fun l =>
    { l with transactionImports := appendAllNew l.transactionImports (AbiType.hintImports t.hint) }
  return t.hint

def importFromContracts (names : List Text) : Render Unit :=
  modify fun l => { l with contractImports := appendAllNew l.contractImports names }

end Render

end ContractAbi
