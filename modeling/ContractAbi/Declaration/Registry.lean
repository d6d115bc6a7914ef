import ContractAbi.Declaration.Basic

/-!
# Handles of method declarations

An arena numbers the methods registered in it. The number is the method's handle, and it stays with
the method until another arena gives it a new one: a handle may therefore be stale.
-/

namespace ContractAbi

/-- A registered method, with the class it was registered for. -/
structure Registered where
  key : Nat
  name : Name
  owner : Name
deriving DecidableEq, Repr

abbrev Arena := List Registered

/-- An arena together with the handles that all methods hold at the moment. -/
structure Registry where
  handles : Table Nat Nat := {}
  arena : Arena := []
deriving Repr

namespace Registry

/-- The method's handle, if it is one of this arena. -/
def handleOf? (r : Registry) (m : Method) : Option Nat :=
  (r.handles.get? m.key).filter fun h => (r.arena[h]?).any (·.key == m.key)

/-- Registers a method unless this arena already has it, and gives its handle. -/
def add (r : Registry) (m : Method) (owner : Name) : Nat × Registry :=
  match r.handleOf? m with
  | some handle => (handle, r)
  | none =>
    (r.arena.length,
      { handles := r.handles.insert m.key r.arena.length
        arena := r.arena ++ [⟨m.key, m.name, owner⟩] })

/-- Registers the methods of a class. -/
def addClass (r : Registry) (c : Class) : Registry :=
  c.methods.foldl (fun r m => (r.add m c.name).2) r

def addSources (r : Registry) (sources : List Source) : Registry :=
  sources.foldl (fun r s => s.classes.foldl addClass r) r

end Registry

end ContractAbi
