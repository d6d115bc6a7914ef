import ContractAbi.Catalog.Survey
import ContractAbi.Dispatch.Injector
import ContractAbi.Fragment.Definitions
import ContractAbi.OutputPath

/-!
# The transform

One pass over a codebase: survey, names, checks, selectors, manifests, routines, files. A
transformer may run any number of times and its findings add up. A run that fails before its files
leaves the members of every class, and what the last run produced, as they were.
-/

namespace ContractAbi

structure Settings where
  outputDir : Text := "./abis-output"
  /-- Whether constants and definitions are written besides the manifest. -/
  typescript : Bool := true
  verbose : Bool := false
deriving DecidableEq, Repr

/-- What a run produced besides files. -/
structure Output where
  catalog : Catalog
  unitAbi : Abi
  classAbis : List (Name × Abi)
  /-- The text of each class's routine. -/
  routines : List (Name × Text)

/-! ### Files -/

namespace Settings

def directory (s : Settings) : OutputPath :=
  .parse s.outputDir

def manifestPath (s : Settings) : Text :=
  (s.directory.file "abi.json").text

def fragmentPath (s : Settings) (name : Text) : Text :=
  ((s.directory.file "abis").file name).text

def constantsPath (s : Settings) (owner : Name) : Text :=
  s.fragmentPath (owner.label ++ ".abi.ts")

def definitionsPath (s : Settings) (owner : Name) : Text :=
  s.fragmentPath (owner.label ++ ".d.ts")

/-- Both fragments of every class that has functions. -/
def fragments (s : Settings) : List (Name × Abi) → Render (List (Text × Text))
  | [] => return []
  | (owner, abi) :: rest => do
    if abi.functions = [] then s.fragments rest
    else
      let (constants, definitions) ← Fragment.both owner.label abi
      return (s.constantsPath owner, constants) :: (s.definitionsPath owner, definitions) ::
        (← s.fragments rest)

/-- The texts of all files by path: the manifest and, if they are wanted, the fragments. -/
def files (s : Settings) (unitAbi : Abi) (classAbis : List (Name × Abi)) :
    Render (Table Text Text) := do
  let fragments ← if s.typescript then s.fragments classAbis else pure []
  return .ofPairs ((s.manifestPath, unitAbi.manifest) :: fragments)

end Settings

/-! ### Running -/

structure Transformer where
  settings : Settings := {}
  layout : Layout := {}
  findings : List Finding := []
  /-- What the last run produced that came to its files. -/
  last : Option Output := none

/-- Surveys the codebase and looks up the element of every record, in `program` or else in the
program of all declarations. The codebase keeps the handles given on the way. -/
def Codebase.survey (code : Codebase) (program : Option Program) :
    Codebase × Except Fault Catalog :=
  let (s, outcome) := Survey.visitSources { registry := { handles := code.handles } } 0 code.sources
  match outcome with
  | .error fault => ({ code with handles := s.registry.handles }, .error fault)
  | .ok () =>
    let (registry, program) : Registry × Except Fault Program :=
      match program with
      | some program => (s.registry, .ok program)
      | none => Program.ofSources s.registry code.sources
    let code := { code with handles := registry.handles }
    match program with
    | .error fault => (code, .error fault)
    | .ok program =>
      let (catalog, outcome) := s.catalog.resolveNames program
      (code, outcome.map fun () => catalog)

/-- Selectors and manifests of a catalog. -/
def Catalog.build (c : Catalog) : Except Fault (Catalog × Abi × List (Name × Abi)) := do
  let (c, outcome) := c.assignSelectors
  outcome
  let unitAbi ← c.unitAbi
  let classAbis ← c.classAbis
  return (c, unitAbi, classAbis)

namespace Transformer

/-- Runs the pass, with the given program if there is one. -/
def run (t : Transformer) (code : Codebase) (program : Option Program) :
    Transformer × Codebase × Except Fault (Output × Table Text Text) :=
  let (code, surveyed) := code.survey program
  match surveyed with
  | .error fault => (t, code, .error fault)
  | .ok catalog =>
    let t := { t with findings := t.findings ++ catalog.eventFindings }
    match catalog.build with
    | .error fault => (t, code, .error fault)
    | .ok (catalog, unitAbi, classAbis) =>
      let start : Injector := { code, layout := t.layout, findings := t.findings }
      let (s, injected) := start.injectAll catalog.classes catalog.byClass
      match injected with
      | .error fault =>
        ({ t with layout := s.layout, findings := s.findings }, s.code, .error fault)
      | .ok routines =>
        let output : Output := { catalog, unitAbi, classAbis, routines }
        let (files, layout) := (t.settings.files unitAbi classAbis).run.run s.layout
        ({ t with layout, findings := s.findings, last := some output }, s.code,
          files.map fun files => (output, files))

/-- The routines of the last run that came to its files. -/
def lastRoutines (t : Transformer) : List (Name × Text) :=
  (t.last.map (·.routines)).getD []

end Transformer

end ContractAbi
