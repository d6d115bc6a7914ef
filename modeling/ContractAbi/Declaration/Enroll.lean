import ContractAbi.Dump

/-!
# From dumps to declarations

Every method of a loaded dump gets the next free key.
-/

namespace ContractAbi.Codebase

/-- Adds what `f` makes of each element, handing on the next free key. -/
def enrollEach {α β : Type} (f : Nat → α → β × Nat) : Nat → List α → List β × Nat
  | next, [] => ([], next)
  | next, x :: xs =>
    let (y, next) := f next x
    let (ys, next) := enrollEach f next xs
    (y :: ys, next)

def enrollMember (next : Nat) : Dump.Member → Member × Nat
  | .method name decorators => (.method { key := next, name, decorators }, next + 1)
  | .field f => (.field f, next)

def enrollClass (next : Nat) (c : Dump.Class) : Class × Nat :=
  let (members, next) := enrollEach enrollMember next c.members
  (⟨c.name, members, c.decorators, c.base⟩, next)

def enrollSource (next : Nat) (s : Dump.Source) : Source × Nat :=
  let (classes, next) := enrollEach enrollClass next s.classes
  (⟨s.path, classes, s.isLibrary⟩, next)

/-- Appends the sources of a dump. -/
def enroll (code : Codebase) (dump : List Dump.Source) : Codebase :=
  let (sources, nextKey) := enrollEach enrollSource code.nextKey dump
  { code with sources := code.sources ++ sources, nextKey }

def ofDump (dump : List Dump.Source) : Codebase :=
  ({} : Codebase).enroll dump

end ContractAbi.Codebase
