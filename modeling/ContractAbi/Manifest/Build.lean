import ContractAbi.Catalog.Check
import ContractAbi.Manifest.Basic

/-!
# From catalogs to manifests

Types are resolved here, and a spelling that names no type is fatal. So is a signature that cannot
be encoded. A record's signature and selector are computed once and then kept, whatever its
annotations become.
-/

namespace ContractAbi

def resolveType (kind : SpellingKind) (owner member : Name) (spelling : Text) :
    Except Fault AbiType :=
  match AbiType.resolve? spelling with
  | some type => .ok type
  | none => .error (.unresolvedType kind owner.label member.label spelling)

/-- A given name, or `stem` with the parameter's number if it is missing or empty. -/
def Param.nameOr (stem : Text) (number : Nat) (p : Param) : Text :=
  match p.name? with
  | some name => if name = "" then stem ++ toString number else name
  | none => stem ++ toString number

namespace Record

def resolveParam (r : Record) (p : Param) : Except Fault AbiType :=
  resolveType .method r.owner r.name p.type

/-- The parameters, numbered from `number` on. -/
def resolveParams (r : Record) (stem : Text) : Nat → List Param → Except Fault (List AbiParam)
  | _, [] => .ok []
  | number, p :: ps => do
    let type ← r.resolveParam p
    let rest ← r.resolveParams stem (number + 1) ps
    return ⟨.str (p.nameOr stem number), type⟩ :: rest

/-- The record's call, computed unless it has one. -/
def resolveCall (r : Record) : Except Fault Call :=
  match r.call with
  | some call => .ok call
  | none => do
    let types ← r.params.mapM r.resolveParam
    match Call.of r.name.label (types.map AbiType.canonical) with
    | some call => return call
    | none => throw .unencodable

def failsToCall (r : Record) : Bool :=
  match r.resolveCall with
  | .ok _ => false
  | .error _ => true

/-- The record with its call, if there is one. -/
def settle (r : Record) : Record :=
  match r.resolveCall with
  | .ok call => { r with call := some call }
  | .error _ => r

def function (r : Record) : Except Fault FunctionEntry := do
  let call ← r.resolveCall
  let inputs ← r.resolveParams "param" 1 r.params
  let outputs ← r.resolveParams "returnVal" 1 r.returns
  return {
    name := r.name
    isView := r.isView
    isPayable := r.isPayable
    isOwnerOnly := r.isOwnerOnly
    inputs
    outputs
    call
    declared := r.declared
    emits := r.emits }

def failsToBuild (r : Record) : Bool :=
  match r.function with
  | .ok _ => false
  | .error _ => true

end Record

def Event.entry (e : Event) : Except Fault EventEntry := do
  let values ← e.fields.mapM fun (field, spelling) => do
    let type ← resolveType .event e.owner field spelling
    return (⟨field, type⟩ : AbiParam)
  return { name := e.name, values }

namespace Catalog

/-- Settles every record, up to one that has no call. -/
def assignSelectors (c : Catalog) : Catalog × Except Fault Unit :=
  (c.updateThose (reached Record.failsToCall c.ordered) Record.settle,
    c.ordered.forM fun r => r.resolveCall.map fun _ => ())

/-- Every function and every event. -/
def unitAbi (c : Catalog) : Except Fault Abi := do
  let functions ← c.ordered.mapM Record.function
  let events ← c.events.mapM Event.entry
  return { functions, events }

/-- The functions of a class and the declared events that they emit, in order of first emission. -/
def classAbi (c : Catalog) (records : List Record) : Except Fault Abi := do
  let functions ← records.mapM Record.function
  let emitted := distinct (records.flatMap (·.emits))
  let events ← (emitted.filterMap fun e => c.event? (.str e)).mapM Event.entry
  return { functions, events }

def classAbis (c : Catalog) : Except Fault (List (Name × Abi)) :=
  c.byClass.mapM fun (owner, records) => do return (owner, ← c.classAbi records)

/-! ### Building one step at a time -/

/-- The records that building class by class gets to. -/
def reachedByClass (c : Catalog) : List (Name × List Record) → List Record
  | [] => []
  | (_, records) :: rest =>
    match c.classAbi records with
    | .ok _ => records ++ c.reachedByClass rest
    | .error _ => reached Record.failsToBuild records

/-- Builds the manifest of the unit and keeps the calls computed on the way. -/
def buildUnit (c : Catalog) : Catalog × Except Fault Abi :=
  (c.updateThose (reached Record.failsToBuild c.ordered) Record.settle, c.unitAbi)

/-- Builds the manifests of all classes and keeps the calls computed on the way. -/
def buildClasses (c : Catalog) : Catalog × Except Fault (List (Name × Abi)) :=
  (c.updateThose (c.reachedByClass c.byClass) Record.settle, c.classAbis)

end Catalog

end ContractAbi
