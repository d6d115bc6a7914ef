import ContractAbi.Declaration.Registry
import ContractAbi.Fault

/-!
# Resolved programs

A program names the element that each method became. A method that has no name there was dropped.
-/

namespace ContractAbi

structure Program where
  /-- The names by what their handles are known by. -/
  names : Table Json Name := {}
deriving Repr

namespace Program

/-- The name under a handle. `null` names nothing. -/
def nameOf? (p : Program) (handle : Json) : Option Name :=
  (p.names.get? handle.key).filter (· ≠ .null)

def register (p : Program) (handle : Json) (name : Name) : Program :=
  ⟨p.names.insert handle.key name⟩

def ofPairs (pairs : List (Json × Name)) : Program :=
  pairs.foldl (fun p (handle, name) => p.register handle name) {}

/-- Everything before the last point, or the whole path if it has none. -/
def pathStem (path : Text) : Text :=
  let cs := path.toList.reverse
  if .char '.' ∈ cs then Text.ofList ((cs.dropWhile (· ≠ CodePoint.char '.')).drop 1).reverse
  else path

def elementName (stem : Text) (owner method : Name) : Text :=
  stem ++ "/" ++ owner.label ++ "#" ++ method.label

/-! ### The program of all declarations -/

/-- Names a method by its handle. A handle that the method already holds is taken as it is. -/
def nameMethod (stem : Text) (owner : Name) (state : Registry × Program) (m : Method) :
    Registry × Program :=
  let (r, p) := state
  let (handle, r) :=
    match r.handles.get? m.key with
    | some handle => (handle, r)
    | none => r.add m owner
  (r, p.register (.int handle) (.str (elementName stem owner m.name)))

def nameClass (stem : Text) (state : Registry × Program) (c : Class) : Registry × Program :=
  c.methods.foldl (nameMethod stem c.name) state

/-- Names every method of the sources, up to a source whose path is not a text. -/
def nameSources (state : Registry × Program) : List Source → Registry × Except Fault Program
  | [] => (state.1, .ok state.2)
  | s :: rest =>
    match s.path with
    | .str path => nameSources (s.classes.foldl (nameClass (pathStem path)) state) rest
    | _ => (state.1, .error .notText)

/-- The program in which every method of the sources has an element. -/
def ofSources (r : Registry) (sources : List Source) : Registry × Except Fault Program :=
  nameSources (r, {}) sources

end Program

end ContractAbi
