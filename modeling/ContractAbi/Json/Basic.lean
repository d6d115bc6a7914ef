import ContractAbi.Double.Shortest
import ContractAbi.Table
import ContractAbi.Text.Quoted

/-!
# JSON values
-/

namespace ContractAbi

inductive Json where
  | null
  | bool (b : Bool)
  | int (n : Int)
  /-- A number with a fraction or an exponent, or what stands for no number. -/
  | real (x : Double)
  | str (s : Text)
  | arr (items : List Json)
  | obj (members : List (Text × Json))
deriving Repr

namespace Json

/-- The object with these members. A key that is repeated keeps its first place and its last
value. -/
def object (members : List (Text × Json)) : Json :=
  obj (Table.ofPairs members).entries

/-- The member called `key`. -/
def member? (key : Text) : Json → Option Json
  | obj members => members.lookup key
  | _ => none

def text? : Json → Option Text
  | str s => some s
  | _ => none

/-- Whether a value given for a flag or a list says anything: `null`, `false`, zero and whatever is
empty do not. -/
def isTruthy : Json → Bool
  | null => false
  | bool b => b
  | int n => n ≠ 0
  | real x => !x.isZero
  | str s => s ≠ ""
  | arr items => !items.isEmpty
  | obj members => !members.isEmpty

/-! ### Equality -/

mutual

def decEq : (a b : Json) → Decidable (a = b)
  | null, b => match b with
    | null => isTrue rfl
    | bool _ | int _ | real _ | str _ | arr _ | obj _ => isFalse nofun
  | bool x, b => match b with
    | bool y => if same : x = y then isTrue (by rw [same]) else isFalse (by simpa using same)
    | null | int _ | real _ | str _ | arr _ | obj _ => isFalse nofun
  | int x, b => match b with
    | int y => if same : x = y then isTrue (by rw [same]) else isFalse (by simpa using same)
    | null | bool _ | real _ | str _ | arr _ | obj _ => isFalse nofun
  | real x, b => match b with
    | real y => if same : x = y then isTrue (by rw [same]) else isFalse (by simpa using same)
    | null | bool _ | int _ | str _ | arr _ | obj _ => isFalse nofun
  | str x, b => match b with
    | str y => if same : x = y then isTrue (by rw [same]) else isFalse (by simpa using same)
    | null | bool _ | int _ | real _ | arr _ | obj _ => isFalse nofun
  | arr xs, b => match b with
    | arr ys => match decEqItems xs ys with
      | isTrue same => isTrue (by rw [same])
      | isFalse different => isFalse (by simpa using different)
    | null | bool _ | int _ | real _ | str _ | obj _ => isFalse nofun
  | obj xs, b => match b with
    | obj ys => match decEqMembers xs ys with
      | isTrue same => isTrue (by rw [same])
      | isFalse different => isFalse (by simpa using different)
    | null | bool _ | int _ | real _ | str _ | arr _ => isFalse nofun

def decEqItems : (xs ys : List Json) → Decidable (xs = ys)
  | [], [] => isTrue rfl
  | [], _ :: _ => isFalse nofun
  | _ :: _, [] => isFalse nofun
  | x :: xs, y :: ys =>
    match decEq x y, decEqItems xs ys with
    | isTrue first, isTrue rest => isTrue (by rw [first, rest])
    | isFalse different, _ => isFalse fun same => different (List.cons.inj same).1
    | _, isFalse different => isFalse fun same => different (List.cons.inj same).2

def decEqMembers : (xs ys : List (Text × Json)) → Decidable (xs = ys)
  | [], [] => isTrue rfl
  | [], _ :: _ => isFalse nofun
  | _ :: _, [] => isFalse nofun
  | (k, x) :: xs, (l, y) :: ys =>
    if sameKey : k = l then
      match decEq x y, decEqMembers xs ys with
      | isTrue first, isTrue rest => isTrue (by rw [sameKey, first, rest])
      | isFalse different, _ =>
        isFalse fun same => different (Prod.mk.inj (List.cons.inj same).1).2
      | _, isFalse different => isFalse fun same => different (List.cons.inj same).2
    else isFalse fun same => sameKey (Prod.mk.inj (List.cons.inj same).1).1

end

instance : DecidableEq Json :=
  decEq

/-! ### Values in messages -/

mutual

/-- A value as it appears in a message inside another value. -/
def shown : Json → Text
  | null => "None"
  | bool true => "True"
  | bool false => "False"
  | int n => toString n
  | real x => x.text
  | str s => Text.shown s
  | arr items => "[" ++ Text.intercalate ", " (shownItems items) ++ "]"
  | obj members => "\x7b" ++ Text.intercalate ", " (shownMembers members) ++ "\x7d"

def shownItems : List Json → List Text
  | [] => []
  | item :: items => item.shown :: shownItems items

def shownMembers : List (Text × Json) → List Text
  | [] => []
  | (key, value) :: members => (Text.shown key ++ ": " ++ value.shown) :: shownMembers members

end

/-- A value as it appears in a message. A text stands there without quotes. -/
def label : Json → Text
  | str s => s
  | value => value.shown

end Json

end ContractAbi
