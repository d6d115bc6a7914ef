import ContractAbi.Catalog.Annotations

/-!
# Surveying declarations

A survey walks through classes, registers their methods and enters methods and events into the
catalog. Library sources are passed over.
-/

namespace ContractAbi

structure Survey where
  registry : Registry := {}
  catalog : Catalog := {}
deriving Repr

namespace Class

/-- The name of the event that a class declares: the first argument of its last `@event`, or else
its own name. A class whose name is `null` has none to give. -/
def eventName? (c : Class) : Option Name := do
  let last ← (c.decorators.filter (·.name.isText "event")).getLast?
  match last.unquoted.head? with
  | some name => return .str name
  | none => if c.name = .null then none else return c.name

/-- The type of an event field, if one is given. -/
def eventType? (f : Field) : Except Fault (Option Text) :=
  if f.type.isTruthy then
    match f.type with
    | .str s => .ok (some (Text.trim s))
    | _ => .error .notText
  else .ok none

/-- The fields that have a type. -/
def eventFields : List Field → Except Fault (List (Name × Text))
  | [] => .ok []
  | f :: fs => do
    let type ← eventType? f
    let rest ← eventFields fs
    return (type.map fun t => (f.name, t)).toList ++ rest

/-- The event that a class declares, if any. -/
def event? (c : Class) (path : Json) : Except Fault (Option Event) :=
  match c.eventName? with
  | none => .ok none
  | some name => do
    let fields ← eventFields c.fields
    return some { name, owner := c.name, path, fields }

end Class

namespace Source

/-- Whether a source belongs to the standard library, by its mark or else by its path. -/
def isStandard (s : Source) : Except Fault Bool :=
  if s.isLibrary then .ok true
  else match s.path with
    | .str path => .ok (isLibraryPath path)
    | _ => .error .notText

end Source

/-- Notes where a class is. Its place among the classes, and its name there, are those of the first
time. -/
def Catalog.meet (c : Catalog) (name : Name) (site : Site) (path : Json) : Catalog :=
  let first := ((c.classes.get? name.key).map (·.name)).getD name
  { c with classes := c.classes.insert name.key ⟨first, site, path⟩ }

namespace Survey

def visitMethod (s : Survey) (m : Method) (owner : Name) : Survey × Except Fault Unit :=
  let (handle, registry) := s.registry.add m owner
  let (catalog, outcome) := s.catalog.visit m handle owner
  (⟨registry, catalog⟩, outcome)

/-- Visits methods up to one that is at fault. -/
def visitMethods (s : Survey) (owner : Name) : List Method → Survey × Except Fault Unit
  | [] => (s, .ok ())
  | m :: ms =>
    match s.visitMethod m owner with
    | (s, .ok ()) => visitMethods s owner ms
    | (s, .error fault) => (s, .error fault)

/-- Notes where the class is, then enters its event, then its methods. -/
def visitClass (s : Survey) (site : Site) (c : Class) (path : Json) : Survey × Except Fault Unit :=
  if c.name.isComposite then (s, .error .compositeName)
  else
    let s := { s with catalog := s.catalog.meet c.name site path }
    match c.event? path with
    | .error fault => (s, .error fault)
    | .ok event =>
      let s := { s with catalog.events := s.catalog.events ++ event.toList }
      s.visitMethods c.name c.methods

/-- Visits classes, numbered from `index` on, up to one that is at fault. -/
def visitClasses (source : Nat) (path : Json) (s : Survey) :
    Nat → List Class → Survey × Except Fault Unit
  | _, [] => (s, .ok ())
  | index, c :: cs =>
    match s.visitClass ⟨source, index⟩ c path with
    | (s, .ok ()) => visitClasses source path s (index + 1) cs
    | (s, .error fault) => (s, .error fault)

/-- Visits the source numbered `number`, unless it is a library. -/
def visitSource (s : Survey) (number : Nat) (source : Source) : Survey × Except Fault Unit :=
  match source.isStandard with
  | .error fault => (s, .error fault)
  | .ok true => (s, .ok ())
  | .ok false => visitClasses number source.path s 0 source.classes

/-- Visits sources, numbered from `number` on, up to one that is at fault. -/
def visitSources (s : Survey) : Nat → List Source → Survey × Except Fault Unit
  | _, [] => (s, .ok ())
  | number, source :: rest =>
    match s.visitSource number source with
    | (s, .ok ()) => visitSources s (number + 1) rest
    | (s, .error fault) => (s, .error fault)

end Survey

end ContractAbi
