import ContractAbi.Catalog.Basic
import ContractAbi.Finding

/-!
# Checks on a catalog

Events that are emitted but not declared, events that are declared but not emitted, and methods
that the program does not have.
-/

namespace ContractAbi

/-- Looks up the record's element. A record without one keeps the name that it has. -/
def Record.resolveName (p : Program) (r : Record) : Record :=
  match p.nameOf? (.int r.handle) with
  | some name => { r with internalName := some name }
  | none => r

def Record.isDropped (p : Program) (r : Record) : Bool :=
  (p.nameOf? (.int r.handle)).isNone

namespace Catalog

/-! ### Events -/

/-- Everything that some method emits. -/
def emitted (c : Catalog) : List Text :=
  c.strayEmits ++ c.ordered.flatMap (·.emits)

def isEmitted (c : Catalog) (event : Name) : Bool :=
  c.emitted.any event.isText

def isDeclared (c : Catalog) (event : Text) : Bool :=
  c.events.any (·.name.isText event)

/-- Emitted events that are not declared come first, then declared events that are not emitted. -/
def eventFindings (c : Catalog) : List Finding :=
  let undeclared := c.ordered.flatMap fun r =>
    (r.emits.filter (!c.isDeclared ·)).map fun e =>
      Finding.undeclaredEvent (.str e) r.owner r.name
  let unused := (c.events.filter (!c.isEmitted ·.name)).map fun e =>
    Finding.unusedEvent e.name e.owner e.path
  undeclared ++ unused

/-! ### Working through the records -/

/-- The records up to the first that fails, which is included. -/
def reached (fails : Record → Bool) : List Record → List Record
  | [] => []
  | r :: rs => r :: if fails r then [] else reached fails rs

/-- Changes those records that are among the given ones. -/
def updateThose (c : Catalog) (these : List Record) (f : Record → Record) : Catalog :=
  { c with records := c.records.map fun r => if r.handle ∈ these.map (·.handle) then f r else r }

/-- Gives every record the name of its element, up to a record that has none. -/
def resolveNames (c : Catalog) (p : Program) : Catalog × Except Fault Unit :=
  (c.updateThose (reached (Record.isDropped p) c.ordered) (Record.resolveName p),
    c.byClass.forM fun (owner, records) =>
      match records.find? (Record.isDropped p) with
      | some r => .error (.declarationNotFound owner.label r.name.label)
      | none => .ok ())

end Catalog

end ContractAbi
