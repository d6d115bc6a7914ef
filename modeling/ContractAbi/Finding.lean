import ContractAbi.Distinct
import ContractAbi.Name

/-!
# Findings

What a transform reports without stopping. Warnings are grouped by the construct they are about.
-/

namespace ContractAbi

inductive Finding where
  /-- No method emits a declared event. -/
  | unusedEvent (event owner : Name) (path : Json)
  /-- A method emits an event that is not declared. -/
  | undeclaredEvent (event owner method : Name)
  /-- A class with annotated methods has no declaration to receive its routine. -/
  | classMissing (owner : Name)
  /-- The routine took the place of a method. -/
  | executeReplaced (owner : Name) (path : Json)
deriving DecidableEq, Repr

inductive Severity where
  | warning
  | info
deriving DecidableEq, Repr

def Severity.word : Severity → Text
  | warning => "warning"
  | info => "info"

namespace Finding

def severity : Finding → Severity
  | unusedEvent .. => .warning
  | undeclaredEvent .. => .warning
  | classMissing .. => .warning
  | executeReplaced .. => .info

def code : Finding → Text
  | unusedEvent .. => "W001"
  | undeclaredEvent .. => "W002"
  | classMissing .. => "W003"
  | executeReplaced .. => "I001"

def message : Finding → Text
  | unusedEvent event owner _ =>
    "Event \"" ++ event.label ++ "\" (class " ++ owner.label ++
      ") is declared but never referenced by an @emit annotation."
  | undeclaredEvent event owner method =>
    owner.label ++ "." ++ method.label ++ " emits \"" ++ event.label ++
      "\", which is not a declared event."
  | classMissing owner =>
    "Class declaration not found for " ++ owner.label ++ "; execute was not injected."
  | executeReplaced owner _ => "Overwriting existing 'execute' in class " ++ owner.label

/-- The source the finding is about, empty if it is about none. -/
def path : Finding → Json
  | unusedEvent _ _ path => path
  | undeclaredEvent .. => .str ""
  | classMissing .. => .str ""
  | executeReplaced _ path => path

def construct : Finding → Text
  | unusedEvent .. => "event"
  | undeclaredEvent .. => "event"
  | classMissing .. => "execute"
  | executeReplaced .. => "execute"

def isWarning (f : Finding) : Bool :=
  f.severity = .warning

def text (f : Finding) : Text :=
  let place := if f.path.isTruthy then f.path.label ++ ": " else ""
  "[" ++ f.severity.word ++ "] " ++ place ++ f.message ++ " (" ++ f.code ++ ")"

/-! ### Reports -/

/-- The constructs that findings are about, in alphabetical order. -/
def constructs (findings : List Finding) : List Text :=
  (distinct (findings.map construct)).mergeSort (fun a b => decide (a ≤ b))

def about (construct : Text) (findings : List Finding) : List Finding :=
  findings.filter (·.construct = construct)

/-- One line on the number of warnings. -/
def summary (findings : List Finding) : Text :=
  let warnings := findings.filter isWarning
  if warnings = [] then "No transform warnings."
  else
    let counts := (constructs warnings).map fun c => toString (about c warnings).length ++ " " ++ c
    "Transform warnings: " ++ Text.intercalate ", " counts

def heading (title : Text) (count : Nat) : List Text :=
  ["", title ++ " (" ++ toString count ++ "):"]

/-- The lines of a report. Single findings, and notes at all, are for verbose reports. -/
def reportLines (verbose : Bool) (findings : List Finding) : List Text :=
  let warnings := findings.filter isWarning
  let notes := findings.filter (!·.isWarning)
  let warned :=
    if warnings = [] then []
    else heading "Transform warnings" warnings.length ++ (constructs warnings).flatMap fun c =>
      ("  " ++ c ++ ": " ++ toString (about c warnings).length ++ " occurrence(s)") ::
        if verbose then (about c warnings).map fun f => "    " ++ f.text else []
  let noted :=
    if notes = [] ∨ verbose = false then []
    else heading "Transform info" notes.length ++ notes.map fun f => ("  " : Text) ++ f.text
  warned ++ noted

def report (verbose : Bool) (findings : List Finding) : Text :=
  Text.join ((reportLines verbose findings).map (· ++ "\n"))

end Finding

end ContractAbi
