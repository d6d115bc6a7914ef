import ContractAbi.Layout
import ContractAbi.Manifest.Build

/-!
# Dispatch routines

A class with annotated methods gets a method `execute` that routes a selector to the method it
belongs to, and any other selector to the parent class.
-/

namespace ContractAbi

namespace Dispatch

def routineName : Text := "execute"

def marker : Text := "// auto-injected by transform"

def guardText (selector declared : Text) : Text :=
  "if (selector == " ++ selectorLiteral selector ++ ") return this." ++ declared ++ "(calldata);"

def guardLine (r : Record) : Render Text := do
  let call ← r.resolveCall
  Render.line (guardText call.selector r.declared.label)

/-- The routine's text. Of two records with one selector, the guard of the first one acts. -/
def routine (records : List Record) : Render Text := do
  Render.startClass
  let comment ← Render.line marker
  let first ← Render.line ("public override " ++ routineName ++
    "(selector: u32, calldata: Calldata): BytesWriter \x7b")
  modify (·.shift 1)
  let guards ← records.mapM guardLine
  let otherwise ← Render.line ("return super." ++ routineName ++ "(selector, calldata);")
  modify (·.shift (-1))
  let last ← Render.line "\x7d"
  return Text.intercalate "\n" (comment :: first :: guards ++ [otherwise, last])

end Dispatch

end ContractAbi
