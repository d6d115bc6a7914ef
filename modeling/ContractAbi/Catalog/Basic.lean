import ContractAbi.Call
import ContractAbi.Declaration.Program
import ContractAbi.Distinct
import ContractAbi.Param

/-!
# The catalog of annotated methods and events

Records stand in the order in which their methods were first met. Everything that is written out is
grouped by class, the classes in the order of their first record.
-/

namespace ContractAbi

/-- What the annotations of one method declaration say. -/
structure Record where
  /-- The handle of the declaration. -/
  handle : Nat
  declared : Name
  owner : Name
  /-- The name under which the method is called. -/
  name : Name
  params : List Param := []
  returns : List Param := []
  emits : List Text := []
  isView : Bool := false
  isPayable : Bool := false
  isOwnerOnly : Bool := false
  /-- Signature and selector, once they have been computed. -/
  call : Option Call := none
  /-- The name of the program's element, once it has been looked up. -/
  internalName : Option Name := none
deriving DecidableEq, Repr

/-- What decorators say about a method. -/
structure Annotations where
  /-- Name and parameters from `@method`. -/
  method : Option (Name × List Param) := none
  /-- Return values from `@returns`. -/
  returns : Option (List Param) := none
  emits : List Text := []
  isView : Bool := false
  isPayable : Bool := false
  isOwnerOnly : Bool := false
deriving DecidableEq, Repr

/-- An event declared by a class. Field types are as spelled there. -/
structure Event where
  name : Name
  owner : Name
  path : Json
  fields : List (Name × Text)
deriving DecidableEq, Repr

/-- The name under which a class was first met, and where it was last met. -/
structure Visit where
  name : Name
  site : Site
  path : Json
deriving DecidableEq, Repr

structure Catalog where
  records : List Record := []
  /-- The classes met so far, by what their names are known by. -/
  classes : Table Json Visit := {}
  events : List Event := []
  /-- Events emitted by methods that have no record. -/
  strayEmits : List Text := []
  /-- Events and flags of methods, by handle, whose last visit a fault has stopped. They wait for
  the next one. -/
  held : Table Nat Annotations := {}
deriving Repr

namespace Catalog

/-- The classes that have records, each under the name of its first one. A record under a composite
name belongs to no class. -/
def owners (c : Catalog) : List Name :=
  firstOfEach Json.key ((c.records.map (·.owner)).filter (!·.isComposite))

def recordsOf (c : Catalog) (owner : Name) : List Record :=
  c.records.filter (·.owner.key = owner.key)

/-- The records of a class, which no composite name can be asked for. -/
def lookUp (c : Catalog) (owner : Name) : Except Fault (List Record) :=
  if owner.isComposite then .error .compositeName else .ok (c.recordsOf owner)

/-- The records class by class. -/
def byClass (c : Catalog) : List (Name × List Record) :=
  c.owners.map fun owner => (owner, c.recordsOf owner)

/-- All records in the order in which they are written out. -/
def ordered (c : Catalog) : List Record :=
  c.byClass.flatMap (·.2)

def isRecorded (c : Catalog) (handle : Nat) : Bool :=
  c.records.any (·.handle = handle)

/-- The record of the declaration with this handle. -/
def record? (c : Catalog) (handle : Int) : Option Record :=
  c.records.find? fun r => (r.handle : Int) = handle

/-- The first event of that name. -/
def event? (c : Catalog) (name : Name) : Option Event :=
  c.events.find? (·.name.key = name.key)

end Catalog

end ContractAbi
