import ContractAbi.Dispatch.Routine

/-!
# Injecting routines

A routine takes the place of the first method `execute` of its class, or comes last. A field of that
name stays.
-/

namespace ContractAbi

/-- Puts a method in the place of the first method of its name, or at the end. Says whether it took
a place. -/
def Class.splice (c : Class) (m : Method) : Class × Bool :=
  match c.findMethod? m.name with
  | some i => ({ c with members := c.members.set i (.method m) }, true)
  | none => ({ c with members := c.members ++ [.method m] }, false)

/-- What injecting routines works on. -/
structure Injector where
  code : Codebase
  layout : Layout
  findings : List Finding
deriving Repr

namespace Injector

/-- Writes the routine of these records into the class at `site`. -/
def inject (s : Injector) (site : Site) (records : List Record) :
    Injector × Except Fault Method :=
  match (Dispatch.routine records).run.run s.layout with
  | (.error fault, layout) => ({ s with layout }, .error fault)
  | (.ok text, layout) =>
    let m : Method :=
      { key := s.code.nextKey, name := .str Dispatch.routineName, body := some text }
    let replaced := (s.code.classAt? site).toList.filter fun c => (c.splice m).2
    let code := { s.code.modifyClass site (fun c => (c.splice m).1) with nextKey := m.key + 1 }
    let findings := s.findings ++ replaced.map fun c => .executeReplaced c.name (.str "")
    ({ code, layout, findings }, .ok m)

/-- Injects the routine of every class with records, and gives their texts by class. -/
def injectAll (classes : Table Json Visit) (s : Injector) :
    List (Name × List Record) → Injector × Except Fault (List (Name × Text))
  | [] => (s, .ok [])
  | (_, []) :: rest => injectAll classes s rest
  | (owner, records) :: rest =>
    match classes.get? owner.key with
    | none => injectAll classes { s with findings := s.findings ++ [.classMissing owner] } rest
    | some visit =>
      match s.inject visit.site records with
      | (s, .error fault) => (s, .error fault)
      | (s, .ok m) =>
        let (s, result) := injectAll classes s rest
        (s, result.map ((owner, m.body.getD "") :: ·))

end Injector

end ContractAbi
