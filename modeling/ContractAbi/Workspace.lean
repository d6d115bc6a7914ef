import ContractAbi.Declaration.Enroll
import ContractAbi.Transform

/-!
# Workspaces

The stages of the transform, one at a time and in any order, over one codebase. A stage that fails
keeps what it did before the fault.
-/

namespace ContractAbi

structure Workspace where
  code : Codebase := {}
  /-- An arena that outlives catalogs. -/
  shared : Arena := []
  /-- The arena of the present catalog, unless that uses the shared one. -/
  own : Arena := []
  usesShared : Bool := false
  catalog : Catalog := {}
  program : Program := {}
  layout : Layout := {}
  findings : List Finding := []

/-- Why a stage cannot be carried out. -/
inductive StepFault where
  | dump (fault : Dump.Fault)
  | fatal (fault : Fault)
  | outOfRange
  | noRecords
  /-- A field is in the place of a method. -/
  | notMethod
deriving DecidableEq, Repr

/-- A place in a list. A negative number counts from the end. -/
def place? (i : Int) (length : Nat) : Except StepFault Nat :=
  let i := if i < 0 then i + length else i
  if 0 ≤ i ∧ i < length then .ok i.toNat else .error .outOfRange

/-- The element at a place. -/
def itemAt {α : Type} (xs : List α) (i : Int) : Except StepFault α := do
  match xs[← place? i xs.length]? with
  | some x => return x
  | none => throw .outOfRange

namespace Workspace

/-! ### Places -/

def siteAt (w : Workspace) (source index : Int) : Except StepFault Site := do
  let number ← place? source w.code.sources.length
  let s ← itemAt w.code.sources source
  return ⟨number, ← place? index s.classes.length⟩

def classAt (w : Workspace) (site : Site) : Except StepFault Class :=
  match w.code.classAt? site with
  | some c => .ok c
  | none => .error .outOfRange

def memberAt (w : Workspace) (site : Site) (member : Int) : Except StepFault Member := do
  itemAt (← w.classAt site).members member

def methodAt (w : Workspace) (site : Site) (member : Int) : Except StepFault Method := do
  match ← w.memberAt site member with
  | .method m => return m
  | .field _ => throw .notMethod

/-! ### Registries -/

/-- The shared arena or that of the catalog, which may be the same. -/
def arena (w : Workspace) (shared : Bool) : Arena :=
  if shared || w.usesShared then w.shared else w.own

def registry (w : Workspace) (shared : Bool) : Registry :=
  ⟨w.code.handles, w.arena shared⟩

def setRegistry (w : Workspace) (shared : Bool) (r : Registry) : Workspace :=
  let w := { w with code.handles := r.handles }
  if shared || w.usesShared then { w with shared := r.arena } else { w with own := r.arena }

/-- Starts a new catalog. An empty shared arena is of no use to it, so it takes one of its own. -/
def newCatalog (w : Workspace) (shared : Bool) : Workspace :=
  { w with own := [], usesShared := shared && !w.shared.isEmpty, catalog := {} }

def register (w : Workspace) (shared : Bool) (m : Method) (owner : Name) : Nat × Workspace :=
  let (handle, r) := (w.registry shared).add m owner
  (handle, w.setRegistry shared r)

def registerAll (w : Workspace) (shared : Bool) : Workspace :=
  w.setRegistry shared ((w.registry shared).addSources w.code.sources)

/-- The methods of an arena with the handles that they hold now. -/
def registered (w : Workspace) (shared : Bool) : List (Option Nat × Name × Name) :=
  (w.arena shared).map fun m => (w.code.handles.get? m.key, m.name, m.owner)

/-- Takes the program of all declarations. -/
def nameAll (w : Workspace) : Workspace × Except Fault Unit :=
  match Program.ofSources (w.registry false) w.code.sources with
  | (r, .ok program) => ({ w.setRegistry false r with program }, .ok ())
  | (r, .error fault) => (w.setRegistry false r, .error fault)

/-! ### Declarations -/

def load (w : Workspace) (dump : Json) : Except Dump.Fault Workspace := do
  return { w with code := w.code.enroll (← Dump.load dump) }

def modifyMembers (w : Workspace) (site : Site) (f : List Member → List Member) : Workspace :=
  { w with code := w.code.modifyClass site fun c => { c with members := f c.members } }

/-- Replaces the decorators of a member. -/
def decorate (w : Workspace) (site : Site) (member : Int) (decorators : List Decorator) :
    Except StepFault Workspace := do
  let m ← w.memberAt site member
  let i ← place? member (← w.classAt site).members.length
  return w.modifyMembers site (·.set i (m.decorate decorators))

def removeMember (w : Workspace) (site : Site) (member : Int) : Except StepFault Workspace := do
  let i ← place? member (← w.classAt site).members.length
  return w.modifyMembers site (·.eraseIdx i)

/-! ### Surveys -/

def survey (w : Workspace) : Survey :=
  ⟨w.registry false, w.catalog⟩

def setSurvey (w : Workspace) (s : Survey) : Workspace :=
  { w.setRegistry false s.registry with catalog := s.catalog }

def visitAll (w : Workspace) : Workspace × Except Fault Unit :=
  let (s, outcome) := w.survey.visitSources 0 w.code.sources
  (w.setSurvey s, outcome)

def visitClass (w : Workspace) (site : Site) (c : Class) (path : Json) :
    Workspace × Except Fault Unit :=
  let (s, outcome) := w.survey.visitClass site c path
  (w.setSurvey s, outcome)

def visitMethod (w : Workspace) (m : Method) (owner : Name) : Workspace × Except Fault Unit :=
  let (s, outcome) := w.survey.visitMethod m owner
  (w.setSurvey s, outcome)

/-! ### Catalogs and manifests -/

def checkEvents (w : Workspace) : Workspace :=
  { w with findings := w.findings ++ w.catalog.eventFindings }

def resolveNames (w : Workspace) : Workspace × Except Fault Unit :=
  let (catalog, outcome) := w.catalog.resolveNames w.program
  ({ w with catalog }, outcome)

def assignSelectors (w : Workspace) : Workspace × Except Fault Unit :=
  let (catalog, outcome) := w.catalog.assignSelectors
  ({ w with catalog }, outcome)

def buildUnit (w : Workspace) : Workspace × Except Fault Abi :=
  let (catalog, outcome) := w.catalog.buildUnit
  ({ w with catalog }, outcome)

def buildClasses (w : Workspace) : Workspace × Except Fault (List (Name × Abi)) :=
  let (catalog, outcome) := w.catalog.buildClasses
  ({ w with catalog }, outcome)

/-! ### Routines -/

/-- Keeps the calls of the records that a routine gets to. -/
def settle (w : Workspace) (records : List Record) : Workspace :=
  { w with
    catalog := w.catalog.updateThose (Catalog.reached Record.failsToCall records) Record.settle }

def routine (w : Workspace) (owner : Name) : Workspace × Except Fault Text :=
  match w.catalog.lookUp owner with
  | .error fault => (w, .error fault)
  | .ok records =>
    let (result, layout) := (Dispatch.routine records).run.run w.layout
    ({ w.settle records with layout }, result)

def injector (w : Workspace) : Injector :=
  ⟨w.code, w.layout, w.findings⟩

def setInjector (w : Workspace) (s : Injector) : Workspace :=
  { w with code := s.code, layout := s.layout, findings := s.findings }

/-- Injects the routine of `owner`'s records into the class at `site`. -/
def inject (w : Workspace) (site : Site) (owner : Name) : Workspace × Except Fault Method :=
  match w.catalog.lookUp owner with
  | .error fault => (w, .error fault)
  | .ok records =>
    let (s, result) := w.injector.inject site records
    ((w.settle records).setInjector s, result)

/-- The records that injecting into all these classes gets to. -/
def reachedByInjection (classes : Table Json Visit) : List (Name × List Record) → List Record
  | [] => []
  | (owner, records) :: rest =>
    if (classes.get? owner.key).isNone then reachedByInjection classes rest
    else if records.any Record.failsToCall then Catalog.reached Record.failsToCall records
    else records ++ reachedByInjection classes rest

/-- Injects all routines, taking the classes in `emptied` for classes without records and those in
`hidden` for classes without a declaration. -/
def injectAll (w : Workspace) (emptied hidden : List Name) :
    Workspace × Except Fault (List (Name × Text)) :=
  let groups := w.catalog.byClass.map fun (owner, records) =>
    (owner, if emptied.any (·.key = owner.key) then [] else records)
  let classes : Table Json Visit :=
    ⟨w.catalog.classes.entries.filter fun (key, _) => !hidden.any (·.key = key)⟩
  let (s, result) := w.injector.injectAll classes groups
  let records := reachedByInjection classes groups
  ({ w with catalog := w.catalog.updateThose records Record.settle }.setInjector s, result)

/-! ### Fragments -/

/-- Both fragments of a manifest, under a class name. -/
def render (w : Workspace) (title : Text) (abi : Abi) :
    Workspace × Except StepFault (Text × Text) :=
  let (texts, layout) := (Fragment.both title abi).run.run w.layout
  ({ w with layout }, texts.mapError .fatal)

/-- The fragments of one class, under another name. -/
def classFragments (w : Workspace) (owner : Name) (title : Text) :
    Workspace × Except StepFault (Text × Text) :=
  let (w, result) := w.buildClasses
  match result with
  | .error fault => (w, .error (.fatal fault))
  | .ok abis =>
    if owner.isComposite then (w, .error (.fatal .compositeName))
    else match abis.find? (·.1.key = owner.key) with
      | none => (w, .error .noRecords)
      | some (_, abi) => w.render title abi

def unitFragments (w : Workspace) (title : Text) :
    Workspace × Except StepFault (Text × Text) :=
  let (w, result) := w.buildUnit
  match result with
  | .error fault => (w, .error (.fatal fault))
  | .ok abi => w.render title abi

/-- The fragment files of all classes, taking those in `emptied` for classes without functions. -/
def fragmentFiles (w : Workspace) (outputDir : Text) (emptied : List Name) :
    Workspace × Except StepFault (List (Text × Text)) :=
  let (w, result) := w.buildClasses
  match result with
  | .error fault => (w, .error (.fatal fault))
  | .ok abis =>
    let abis := abis.map fun (owner, abi) =>
      (owner, if emptied.any (·.key = owner.key) then {} else abi)
    let settings : Settings := { outputDir }
    let (files, _) := (settings.fragments abis).run.run {}
    (w, (files.map fun files => (Table.ofPairs files).entries).mapError .fatal)

end Workspace

end ContractAbi
