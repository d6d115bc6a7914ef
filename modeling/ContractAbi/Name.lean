import ContractAbi.Json.Basic

/-!
# Names

A name is a text as a rule, but a dump may put any JSON value in its place. It is then kept as it is
and written out wherever a text needs it.
-/

namespace ContractAbi

abbrev Name := Json

namespace Json

/-- What a name is known by. A truth value counts as the number one or zero, and a whole number is
the same whether or not it is written with a fraction. -/
def key : Name → Json
  | bool true => int 1
  | bool false => int 0
  | real x => (x.whole?.map int).getD (real x)
  | name => name

/-- Whether a list or an object stands in the place of a name. Nothing can be looked up by it. -/
def isComposite : Name → Bool
  | arr _ => true
  | obj _ => true
  | _ => false

/-- Whether a name is this text. -/
def isText (text : Text) (name : Name) : Bool :=
  name = str text

theorem eq_str_of_isText {text : Text} {name : Name} (own : name.isText text = true) :
    name = .str text := by
  simpa [isText] using own

end Json

end ContractAbi
