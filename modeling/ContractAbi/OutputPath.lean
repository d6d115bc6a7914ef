import ContractAbi.Text.Basic

/-!
# Output paths

Paths with forward slashes. Empty components and `.` mean nothing, `..` is kept as it is, and an
absolute path joined to another replaces it.
-/

namespace ContractAbi

structure OutputPath where
  /-- The slashes in front of an absolute path. -/
  root : Text
  parts : List Text
deriving DecidableEq, Repr

namespace OutputPath

/-- Two leading slashes differ from one, more than two do not. -/
def rootOf (slashes : Nat) : Text :=
  match slashes with
  | 0 => ""
  | 2 => "//"
  | _ => "/"

def parse (text : Text) : OutputPath :=
  let cs := text.toList
  let parts := (cs.splitOn (.char '/')).map Text.ofList
  { root := rootOf (cs.takeWhile (· = CodePoint.char '/')).length
    parts := parts.filter fun part => part ≠ "" ∧ part ≠ "." }

def join (left right : OutputPath) : OutputPath :=
  if right.root = "" then ⟨left.root, left.parts ++ right.parts⟩ else right

def text (p : OutputPath) : Text :=
  if p.root = "" ∧ p.parts = [] then "." else p.root ++ Text.intercalate "/" p.parts

/-- The path of `name` in the directory `p`. -/
def file (p : OutputPath) (name : Text) : OutputPath :=
  p.join (parse name)

end OutputPath

end ContractAbi
