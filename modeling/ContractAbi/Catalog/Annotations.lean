import ContractAbi.Catalog.Basic

/-!
# Annotations of a method

The decorators of a method are read in order. A later `@method` or `@returns` replaces an earlier
one, events add up, and a flag is set for good.
-/

namespace ContractAbi

namespace Annotations

/-- Takes one more decorator of a method called `declared` into account. -/
def add (declared : Name) (a : Annotations) (d : Decorator) : Annotations :=
  if d.name.isText "method" then
    let arguments := MethodArguments.parse d.unquoted
    { a with method := some (arguments.nameOr declared, arguments.toParams) }
  else if d.name.isText "returns" then { a with returns := some (d.unquoted.map Param.parse) }
  else if d.name.isText "emit" then { a with emits := appendAllNew a.emits d.unquoted }
  else if d.name.isText "view" then { a with isView := true }
  else if d.name.isText "payable" then { a with isPayable := true }
  else if d.name.isText "onlyOwner" then { a with isOwnerOnly := true }
  else a

/-- Takes decorators of a method called `declared` into account. -/
def addAll (declared : Name) (a : Annotations) (ds : List Decorator) : Annotations :=
  ds.foldl (add declared) a

def ofMethod (m : Method) : Annotations :=
  addAll m.name {} m.decorators

def isRecorded (a : Annotations) : Bool :=
  a.method.isSome || a.returns.isSome

/-- The part that goes on record at once. -/
def atOnce (a : Annotations) : Annotations :=
  { method := a.method, returns := a.returns }

/-- The part that is entered after the last decorator. -/
def atLast (a : Annotations) : Annotations :=
  { a with method := none, returns := none }

end Annotations

namespace Record

/-- The record of a method about which nothing has been said yet. -/
def blank (m : Method) (handle : Nat) (owner : Name) : Record :=
  { handle, owner, declared := m.name, name := m.name }

/-- Adds what annotations say. What they leave open stays as it was. -/
def merge (r : Record) (a : Annotations) : Record :=
  { r with
    name := (a.method.map (·.1)).getD r.name
    params := (a.method.map (·.2)).getD r.params
    returns := a.returns.getD r.returns
    emits := appendAllNew r.emits a.emits
    isView := r.isView || a.isView
    isPayable := r.isPayable || a.isPayable
    isOwnerOnly := r.isOwnerOnly || a.isOwnerOnly }

end Record

namespace Catalog

/-- Enters what the annotations of a method say. Without a record, its events are kept aside. -/
def enter (c : Catalog) (m : Method) (handle : Nat) (owner : Name) (a : Annotations) : Catalog :=
  if c.isRecorded handle then
    { c with records := c.records.map fun r => if r.handle = handle then r.merge a else r }
  else if a.isRecorded then
    { c with records := c.records ++ [(Record.blank m handle owner).merge a] }
  else { c with strayEmits := appendAllNew c.strayEmits a.emits }

/-! ### Visits that a fault stops -/

/-- Whether a decorator stops the visit: its name is composite, or it would put the method on record
for a class whose name is. -/
def stops (c : Catalog) (handle : Nat) (owner : Name) (d : Decorator) : Bool :=
  d.name.isComposite || (owner.isComposite && d.isRecording && !c.isRecorded handle)

/-- What was held for a method. -/
def heldFor (c : Catalog) (handle : Nat) : Annotations :=
  (c.held.get? handle).getD {}

/-- Enters the annotations of a method as far as they go on record at once, and holds the rest. -/
def hold (c : Catalog) (m : Method) (handle : Nat) (owner : Name) (a : Annotations) : Catalog :=
  { c.enter m handle owner a.atOnce with held := c.held.insert handle a.atLast }

/-- Puts a method on record that has nothing more than a name, from its decorator `d`. -/
def startRecord (c : Catalog) (m : Method) (handle : Nat) (owner : Name) (d : Decorator) : Catalog :=
  let name := ((Annotations.add m.name {} d).method.map (·.1)).getD m.name
  { c with records := c.records ++ [{ Record.blank m handle owner with name }] }

/-- Enters the annotations of a method up to a decorator that stops the visit. -/
def visit (c : Catalog) (m : Method) (handle : Nat) (owner : Name) : Catalog × Except Fault Unit :=
  let read := m.decorators.takeWhile (!c.stops handle owner ·)
  let a := Annotations.addAll m.name (c.heldFor handle) read
  match m.decorators.find? (c.stops handle owner) with
  | none => ({ c.enter m handle owner a with held := c.held.erase handle }, .ok ())
  | some d =>
    let c := c.hold m handle owner a
    (if d.name.isComposite then c else c.startRecord m handle owner d, .error .compositeName)

end Catalog

end ContractAbi
