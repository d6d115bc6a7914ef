import ContractAbi.Name

/-!
# Declarations

The classes of one compilation unit. Every method declaration has a key of its own, by which it is
known however it is renamed, moved or taken out of its class.
-/

namespace ContractAbi

structure Decorator where
  name : Name
  args : List Text
deriving DecidableEq, Repr

/-- The arguments without their quotes. -/
def Decorator.unquoted (d : Decorator) : List Text :=
  d.args.map Text.unquote

/-- Only `@method` and `@returns` put a method on record. -/
def Decorator.isRecording (d : Decorator) : Bool :=
  d.name.isText "method" || d.name.isText "returns"

structure Method where
  key : Nat
  name : Name
  decorators : List Decorator := []
  /-- The text of a synthesized method. -/
  body : Option Text := none
deriving DecidableEq, Repr

structure Field where
  name : Name
  /-- The type as written in the source, if there is one. -/
  type : Json
  decorators : List Decorator
deriving DecidableEq, Repr

inductive Member where
  | method (m : Method)
  | field (f : Field)
deriving DecidableEq, Repr

namespace Member

def name : Member → Name
  | method m => m.name
  | field f => f.name

def method? : Member → Option Method
  | method m => some m
  | field _ => none

def field? : Member → Option Field
  | method _ => none
  | field f => some f

/-- The same member with other decorators. -/
def decorate (decorators : List Decorator) : Member → Member
  | method m => method { m with decorators }
  | field f => field { f with decorators }

/-- Whether this is a method, rather than a field, of that name. -/
def isMethodNamed (name : Name) (m : Member) : Bool :=
  m.method?.any (·.name = name)

end Member

structure Class where
  name : Name
  members : List Member
  decorators : List Decorator
  base : Json
deriving DecidableEq, Repr

namespace Class

def methods (c : Class) : List Method :=
  c.members.filterMap Member.method?

def fields (c : Class) : List Field :=
  c.members.filterMap Member.field?

/-- The place of the first method of that name. -/
def findMethod? (c : Class) (name : Name) : Option Nat :=
  c.members.findIdx? (Member.isMethodNamed name)

end Class

/-- Paths of the standard library start with this. -/
def libraryRoot : Text := "~lib/"

def isLibraryPath (path : Text) : Bool :=
  libraryRoot.toList.isPrefixOf path.toList

structure Source where
  path : Json
  classes : List Class
  isLibrary : Bool
deriving DecidableEq, Repr

/-- Where a class stands: the number of its source and its own number there. -/
structure Site where
  source : Nat
  index : Nat
deriving DecidableEq, Repr

/-- The sources of a compilation unit, and the handle that each registered method was last given.
Keys from `nextKey` on are free. -/
structure Codebase where
  sources : List Source := []
  handles : Table Nat Nat := {}
  nextKey : Nat := 0
deriving Repr

namespace Codebase

def classAt? (code : Codebase) (site : Site) : Option Class :=
  (code.sources[site.source]?).bind fun s => s.classes[site.index]?

def modifyClass (code : Codebase) (site : Site) (f : Class → Class) : Codebase :=
  { code with
    sources := code.sources.modify site.source fun s =>
      { s with classes := s.classes.modify site.index f } }

/-- All classes with their names and members, source by source. -/
def classes (code : Codebase) : List Class :=
  code.sources.flatMap (·.classes)

end Codebase

end ContractAbi
