/-!
# Texts

A text is a list of code points. Nearly all of them are characters, but a surrogate, which is half a
pair in UTF-16, may stand there alone. Such a text can be told from any other but has no encoding.
-/

namespace ContractAbi

inductive CodePoint where
  | char (c : Char)
  /-- The surrogate numbered `0xd800 + n`. -/
  | surrogate (n : Fin 0x800)
deriving DecidableEq, Repr

instance : Coe Char CodePoint :=
  ⟨.char⟩

namespace CodePoint

def toNat : CodePoint → Nat
  | char c => c.toNat
  | surrogate n => 0xd800 + n

def ofNat (n : Nat) : CodePoint :=
  if range : 0xd800 ≤ n ∧ n < 0xe000 then surrogate ⟨n - 0xd800, by omega⟩ else char (.ofNat n)

def char? : CodePoint → Option Char
  | char c => some c
  | surrogate _ => none

instance : LE CodePoint :=
  ⟨fun a b => a.toNat ≤ b.toNat⟩

instance (a b : CodePoint) : Decidable (a ≤ b) :=
  inferInstanceAs (Decidable (a.toNat ≤ b.toNat))

theorem le_def {a b : CodePoint} : a ≤ b ↔ a.toNat ≤ b.toNat :=
  Iff.rfl

/-- Whether the code point is an ASCII digit. -/
def isDigit (c : CodePoint) : Bool :=
  c.char?.any Char.isDigit

def isAlpha (c : CodePoint) : Bool :=
  c.char?.any Char.isAlpha

def isAlphanum (c : CodePoint) : Bool :=
  c.char?.any Char.isAlphanum

def toLower : CodePoint → CodePoint
  | char c => c.toLower
  | c => c

@[simp] theorem toNat_char (c : Char) : (char c).toNat = c.toNat :=
  rfl

@[simp] theorem toNat_surrogate (n : Fin 0x800) : (surrogate n).toNat = 0xd800 + n :=
  rfl

/-- A character is no surrogate. -/
theorem toNat_char_cases (c : Char) :
    c.toNat < 0xd800 ∨ 0xdfff < c.toNat ∧ c.toNat < 0x110000 :=
  c.valid

theorem toNat_lt (c : CodePoint) : c.toNat < 0x110000 := by
  cases c with
  | char c =>
    have valid := toNat_char_cases c
    rw [toNat_char]
    omega
  | surrogate n =>
    have bound := n.isLt
    rw [toNat_surrogate]
    omega

@[simp] theorem ofNat_toNat (c : CodePoint) : ofNat c.toNat = c := by
  cases c with
  | char c =>
    have valid := toNat_char_cases c
    rw [toNat_char, ofNat, dif_neg (by omega), Char.ofNat_toNat]
  | surrogate n =>
    have bound := n.isLt
    rw [toNat_surrogate, ofNat, dif_pos (by omega)]
    simp

@[simp] theorem isDigit_char (c : Char) : (char c).isDigit = c.isDigit :=
  rfl

end CodePoint

structure Text where
  ofList ::
  toList : List CodePoint
deriving DecidableEq, Repr

namespace Text

/-- Characters as a text. If all of them are ASCII, they are their own bytes, and to evaluate these
takes a fraction of the time. -/
def ofString (s : String) : Text :=
  let bytes := s.toByteArray.data.toList
  if bytes.all (· < 0x80) then ⟨bytes.map fun b => .char (.ofNat b.toNat)⟩
  else ⟨s.toList.map .char⟩

instance : Coe String Text :=
  ⟨ofString⟩

instance : Append Text :=
  ⟨fun s t => ⟨s.toList ++ t.toList⟩⟩

/-- The numbers of the code points, by which texts are ordered. -/
def numbers (s : Text) : List Nat :=
  s.toList.map CodePoint.toNat

instance : LT Text :=
  ⟨fun s t => List.lt s.numbers t.numbers⟩

instance : LE Text :=
  ⟨fun s t => List.le s.numbers t.numbers⟩

instance (s t : Text) : Decidable (s ≤ t) :=
  List.decidableLE s.numbers t.numbers

def join (parts : List Text) : Text :=
  ⟨parts.flatMap toList⟩

def intercalate (separator : Text) (parts : List Text) : Text :=
  ⟨separator.toList.intercalate (parts.map toList)⟩

/-- The characters of the text, unless a surrogate is among them. -/
def string? (s : Text) : Option String :=
  (s.toList.mapM CodePoint.char?).map String.ofList

/-- Whether the text can be encoded. -/
def isEncodable (s : Text) : Bool :=
  s.string?.isSome

/-! ### Characters as texts -/

/-- Only ASCII characters have bytes below `0x80`, and one byte each. -/
theorem map_encodeChar {c : Char} (ascii : (String.utf8EncodeChar c).all (· < 0x80) = true) :
    (String.utf8EncodeChar c).map (fun b => CodePoint.char (.ofNat b.toNat)) = [.char c] := by
  have high (n : Nat) : ¬ UInt8.ofNat (n % 64 + 128) < 0x80 := by
    rw [UInt8.lt_iff_toNat_lt, UInt8.toNat_ofNat']
    change ¬ (n % 64 + 128) % 256 < 128
    omega
  unfold String.utf8EncodeChar at ascii ⊢
  dsimp only at ascii ⊢
  split
  · rename_i small
    have byte : (UInt8.ofNat c.val.toNat).toNat = c.toNat := by
      rw [UInt8.toNat_ofNat']
      exact Nat.mod_eq_of_lt (Nat.lt_of_le_of_lt small (by decide))
    rw [List.map_singleton, byte, Char.ofNat_toNat]
  · rename_i large
    rw [if_neg large] at ascii
    refine absurd (of_decide_eq_true (List.all_eq_true.mp ascii _ ?_)) (high c.val.toNat)
    split
    · simp
    · split <;> simp

theorem toList_ofString (s : String) : (ofString s).toList = s.toList.map .char := by
  have bytes : s.toByteArray.data.toList = s.toList.flatMap String.utf8EncodeChar := by
    have encoded := List.toList_data_toByteArray (l := s.toList.flatMap String.utf8EncodeChar)
    rwa [← List.utf8Encode, ← String.toByteArray_ofList, String.ofList_toList] at encoded
  unfold ofString
  dsimp only
  rw [bytes]
  split
  · rename_i ascii
    dsimp only
    generalize s.toList = cs at ascii
    induction cs with
    | nil => rfl
    | cons c cs ih =>
      rw [List.flatMap_cons, List.all_append, Bool.and_eq_true] at ascii
      rw [List.flatMap_cons, List.map_append, map_encodeChar ascii.1, ih ascii.2]
      rfl
  · rfl

@[simp] theorem ofString_inj {s t : String} : ofString s = ofString t ↔ s = t := by
  refine ⟨fun same => ?_, congrArg ofString⟩
  have lists := congrArg toList same
  rw [toList_ofString, toList_ofString, List.map_inj_right fun _ _ => CodePoint.char.inj] at lists
  exact String.toList_inj.mp lists

theorem ofString_append (s t : String) : ofString (s ++ t) = ofString s ++ ofString t := by
  have lists : (ofString (s ++ t)).toList = (ofString s).toList ++ (ofString t).toList := by
    simp [toList_ofString]
  exact congrArg ofList lists

/-! ### Lists of code points -/

@[simp] theorem toList_ofList (cs : List CodePoint) : (ofList cs).toList = cs :=
  rfl

@[simp] theorem ofList_toList (s : Text) : ofList s.toList = s :=
  rfl

theorem toList_inj {s t : Text} : s.toList = t.toList ↔ s = t := by
  cases s
  cases t
  simp

@[simp] theorem toList_append (s t : Text) : (s ++ t).toList = s.toList ++ t.toList :=
  rfl

@[simp] theorem toList_join (parts : List Text) : (join parts).toList = parts.flatMap toList :=
  rfl

@[simp] theorem toList_intercalate (separator : Text) (parts : List Text) :
    (intercalate separator parts).toList = separator.toList.intercalate (parts.map toList) :=
  rfl

theorem append_assoc (s t u : Text) : s ++ t ++ u = s ++ (t ++ u) := by
  simp [← toList_inj]

@[simp] theorem toList_empty : toList "" = [] :=
  rfl

theorem toList_eq_nil {s : Text} : s.toList = [] ↔ s = "" :=
  toList_inj (t := "")

@[simp] theorem empty_append (s : Text) : "" ++ s = s :=
  rfl

@[simp] theorem append_empty (s : Text) : s ++ "" = s := by
  simp [← toList_inj]

theorem append_eq_empty_iff {s t : Text} : s ++ t = "" ↔ s = "" ∧ t = "" := by
  simp [← toList_inj]

theorem append_right_inj (s : Text) {t u : Text} : s ++ t = s ++ u ↔ t = u := by
  simp [← toList_inj]

theorem append_left_inj (s : Text) {t u : Text} : t ++ s = u ++ s ↔ t = u := by
  simp [← toList_inj]

@[simp] theorem join_nil : join [] = "" :=
  rfl

@[simp] theorem join_cons (s : Text) (parts : List Text) : join (s :: parts) = s ++ join parts :=
  rfl

@[simp] theorem intercalate_singleton (separator s : Text) : intercalate separator [s] = s := by
  simp [← toList_inj, List.intercalate]

theorem intercalate_cons_cons (separator s t : Text) (parts : List Text) :
    intercalate separator (s :: t :: parts) =
      s ++ separator ++ intercalate separator (t :: parts) := by
  simp [← toList_inj, List.intercalate]

/-! ### Texts that can be encoded -/

theorem isEncodable_eq (s : Text) : s.isEncodable = s.toList.all fun c => c.char?.isSome := by
  rw [isEncodable, string?, Option.isSome_map]
  generalize s.toList = cs
  induction cs with
  | nil => rfl
  | cons c cs ih =>
    rw [List.mapM_cons, List.all_cons, ← ih]
    cases c.char? with
    | none => rfl
    | some _ => cases cs.mapM CodePoint.char? <;> rfl

theorem exists_char_of_isEncodable {s : Text} (encodable : s.isEncodable = true) {c : CodePoint}
    (member : c ∈ s.toList) : ∃ a, c = .char a := by
  rw [isEncodable_eq, List.all_eq_true] at encodable
  cases c with
  | char a => exact ⟨a, rfl⟩
  | surrogate n => cases encodable _ member

@[simp] theorem isEncodable_append (s t : Text) :
    (s ++ t).isEncodable = (s.isEncodable && t.isEncodable) := by
  simp [isEncodable_eq]

theorem isEncodable_intercalate {separator : Text} {parts : List Text}
    (between : separator.isEncodable = true) (each : ∀ s ∈ parts, s.isEncodable = true) :
    (intercalate separator parts).isEncodable = true := by
  match parts, each with
  | [], _ => rfl
  | [s], each => simpa using each
  | s :: t :: parts, each =>
    have rest := isEncodable_intercalate between fun u member => each u (List.mem_cons_of_mem s member)
    simp [intercalate_cons_cons, each s List.mem_cons_self, between, rest]

end Text

end ContractAbi
