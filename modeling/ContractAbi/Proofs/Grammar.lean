import ContractAbi.Json.Reader
import ContractAbi.Proofs.Hex

/-!
# The grammar of JSON

How a value may be written: white space stands anywhere between the tokens (`Gap`), every character
of a string is spelled as itself or by an escape (`Spells`), and a number is a `Numeral`. The reader
takes every text of a value off the front of a longer text (`value_of_written`).
-/

namespace ContractAbi.Json

/-! ### Tokens -/

structure Gap where
  chars : List CodePoint
  blank : ∀ c ∈ chars, c ∈ [.char ' ', .char '\t', .char '\n', .char '\r']

def Gap.empty : Gap where
  chars := []
  blank := by simp

/-- A letter after a backslash, with the character it stands for. -/
def shortEscapes : List (CodePoint × CodePoint) :=
  [('"', '"'), ('\\', '\\'), ('/', '/'), ('b', '\x08'), ('f', '\x0c'), ('n', '\n'), ('r', '\r'),
    ('t', '\t')]

/-- The texts for one character of a string. -/
inductive Spells (c : CodePoint) : List CodePoint → Prop where
  | plain (visible : 0x20 ≤ c.toNat) (quote : c ≠ '"') (backslash : c ≠ '\\') : Spells c [c]
  | short {e : CodePoint} (listed : (e, c) ∈ shortEscapes) : Spells c [.char '\\', e]
  | unit {digits : List CodePoint} (four : digits.length = 4)
      (value : Text.hexValue? digits = some c.toNat) : Spells c (.char '\\' :: .char 'u' :: digits)
  | pair {high low : List CodePoint} (beyond : 0x10000 ≤ c.toNat) (four : high.length = 4)
      (value : Text.hexValue? high = some (0xd800 + (c.toNat - 0x10000) / 0x400))
      (four' : low.length = 4)
      (value' : Text.hexValue? low = some (0xdc00 + (c.toNat - 0x10000) % 0x400)) :
    Spells c (.char '\\' :: .char 'u' :: (high ++ .char '\\' :: .char 'u' :: low))

/-- The texts of a string, one code point after the other. A high surrogate and a low one right
behind it are not both written by number, for they would be read as one character. -/
inductive SpellsAll : List CodePoint → List CodePoint → Prop where
  | nil : SpellsAll [] []
  | cons {c : CodePoint} {cs front back : List CodePoint} (first : Spells c front)
      (others : SpellsAll cs back)
      (apart : Reader.isHighSurrogate c.toNat = true → front = [c] ∨
        ∀ d ∈ cs.head?, Reader.isLowSurrogate d.toNat = true → back.head? = some d) :
    SpellsAll (c :: cs) (front ++ back)

/-- A string with one of its texts, which is without the quotes. -/
structure Spelling where
  string : Text
  text : List CodePoint
  spells : SpellsAll string.toList text

def IsDigits (cs : List CodePoint) : Prop :=
  cs ≠ [] ∧ ∀ c ∈ cs, c.isDigit = true

def IsWhole (cs : List CodePoint) : Prop :=
  cs = [.char '0'] ∨ IsDigits cs ∧ cs.head? ≠ some (.char '0')

theorem IsWhole.head {digits : List CodePoint} (isWhole : IsWhole digits) :
    ∃ d ds, digits = d :: ds ∧ d.isDigit = true := by
  rcases isWhole with rfl | ⟨⟨nonempty, digit⟩, -⟩
  · exact ⟨'0', [], rfl, by decide⟩
  · obtain ⟨d, ds, rfl⟩ := List.exists_cons_of_ne_nil nonempty
    exact ⟨d, ds, rfl, digit d List.mem_cons_self⟩

def IsFraction (cs : List CodePoint) : Prop :=
  cs = [] ∨ ∃ digits, IsDigits digits ∧ cs = .char '.' :: digits

def IsExponent (cs : List CodePoint) : Prop :=
  cs = [] ∨ ∃ (e : CodePoint) (sign digits : List CodePoint), (e = 'e' ∨ e = 'E') ∧
    sign ∈ [[], [.char '+'], [.char '-']] ∧ IsDigits digits ∧ cs = e :: (sign ++ digits)

/-- A number as it is written. -/
structure Numeral where
  isNegative : Bool
  whole : List CodePoint
  fraction : List CodePoint
  exponent : List CodePoint
  isWhole : IsWhole whole
  isFraction : IsFraction fraction
  isExponent : IsExponent exponent

namespace Numeral

def sign (n : Numeral) : List CodePoint :=
  if n.isNegative then [.char '-'] else []

def text (n : Numeral) : List CodePoint :=
  n.sign ++ (n.whole ++ (n.fraction ++ n.exponent))

def value (n : Numeral) : Json :=
  if n.fraction = [] ∧ n.exponent = [] then .int (Text.signedDecimal n.text)
  else .real (.parse n.text)

/-- A whole number of too many digits, which is written but not read. -/
def isLong (n : Numeral) : Bool :=
  n.fraction = [] && n.exponent = [] && Reader.digitLimit < n.whole.length

/-- A number starts with a digit, which may have a minus before it. -/
theorem head (n : Numeral) :
    ∃ d ds, n.text = d :: ds ∧
      (d.isDigit = true ∨ d = '-' ∧ ∃ e es, ds = e :: es ∧ e.isDigit = true) := by
  obtain ⟨w, ws, front, digit⟩ := n.isWhole.head
  unfold text sign
  rw [front]
  cases n.isNegative with
  | true => exact ⟨'-', _, rfl, Or.inr ⟨rfl, w, _, rfl, digit⟩⟩
  | false => exact ⟨w, _, rfl, Or.inl digit⟩

end Numeral

/-! ### Values -/

/-- A value with its text and the white space around it. -/
structure Item where
  before : Gap
  value : Json
  text : List CodePoint
  after : Gap

def Item.shown (i : Item) : List CodePoint :=
  i.before.chars ++ (i.text ++ i.after.chars)

/-- A member of an object. -/
structure Entry where
  before : Gap
  name : Spelling
  after : Gap
  item : Item

namespace Entry

def shown (e : Entry) : List CodePoint :=
  e.before.chars ++
    (.char '"' :: (e.name.text ++ (.char '"' :: (e.after.chars ++ (.char ':' :: e.item.shown)))))

def member (e : Entry) : Text × Json :=
  (e.name.string, e.item.value)

end Entry

def commas (texts : List (List CodePoint)) : List CodePoint :=
  [.char ','].intercalate texts

theorem commas_singleton (t : List CodePoint) : commas [t] = t :=
  List.intercalate_singleton

theorem commas_cons (t u : List CodePoint) (texts : List (List CodePoint)) :
    commas (t :: u :: texts) = t ++ .char ',' :: commas (u :: texts) := by
  simp [commas]

theorem commas_eq (t : List CodePoint) (texts : List (List CodePoint)) :
    commas (t :: texts) = t ++ texts.flatMap (.char ',' :: ·) := by
  induction texts generalizing t with
  | nil => rw [commas_singleton, List.flatMap_nil, List.append_nil]
  | cons u texts ih => rw [commas_cons, ih, List.flatMap_cons, List.cons_append]

theorem length_le_flatMap (texts : List (List CodePoint)) :
    texts.length ≤ (texts.flatMap (.char ',' :: ·)).length := by
  induction texts with
  | nil => exact Nat.zero_le _
  | cons t texts ih =>
    simp only [List.flatMap_cons, List.length_append, List.length_cons]
    omega

/-- The texts of a value with at most so many arrays and objects around any part. -/
inductive Written : Nat → Json → List CodePoint → Prop where
  | null (depth : Nat) : Written depth .null (Text.toList "null")
  | bool (depth : Nat) (b : Bool) :
    Written depth (.bool b) (Text.toList (if b then "true" else "false"))
  | undefined (depth : Nat) : Written depth (.real .undefined) (Text.toList "NaN")
  | infinity (depth : Nat) : Written depth (.real (.infinity false)) (Text.toList "Infinity")
  | minusInfinity (depth : Nat) : Written depth (.real (.infinity true)) (Text.toList "-Infinity")
  | number (depth : Nat) (n : Numeral) (short : n.isLong = false) : Written depth n.value n.text
  | str (depth : Nat) (s : Spelling) :
    Written depth (.str s.string) (.char '"' :: (s.text ++ [.char '"']))
  | emptyArr (depth : Nat) (gap : Gap) :
    Written (depth + 1) (.arr []) (.char '[' :: (gap.chars ++ [.char ']']))
  | arr {depth : Nat} {items : List Item} (nonempty : items ≠ [])
      (each : ∀ i ∈ items, Written depth i.value i.text) :
    Written (depth + 1) (.arr (items.map (·.value)))
      (.char '[' :: (commas (items.map (·.shown)) ++ [.char ']']))
  | emptyObj (depth : Nat) (gap : Gap) :
    Written (depth + 1) (.obj []) (.char '\x7b' :: (gap.chars ++ [.char '\x7d']))
  | obj {depth : Nat} {entries : List Entry} (nonempty : entries ≠ [])
      (each : ∀ e ∈ entries, Written depth e.item.value e.item.text) :
    Written (depth + 1) (.object (entries.map (·.member)))
      (.char '\x7b' :: (commas (entries.map (·.shown)) ++ [.char '\x7d']))

namespace Reader

/-! ### Reading strings -/

theorem hexUnit?_eq (a b c d : CodePoint) : hexUnit? a b c d = Text.hexValue? [a, b, c, d] := by
  have digit (c : CodePoint) : hexValue? c = Text.hexDigit? c := rfl
  unfold hexUnit? Text.hexValue?
  simp only [digit, List.foldlM_cons, List.foldlM_nil, Text.pushHexDigit]
  cases Text.hexDigit? a <;> cases Text.hexDigit? b <;> cases Text.hexDigit? c <;>
    cases Text.hexDigit? d <;> simp [Nat.mul_comm]

theorem pieces_unit {n opening : Nat} {digits cs rest : List CodePoint} {ps : List Piece}
    (four : digits.length = 4) (value : Text.hexValue? digits = some n)
    (read : pieces opening cs = .ok (ps, rest)) :
    pieces opening (.char '\\' :: .char 'u' :: (digits ++ cs)) = .ok (.unit n :: ps, rest) := by
  -- A unit by number never ends the text, but a text that has been read up to a quote goes on.
  have more : cs ≠ [] := by
    rintro rfl
    cases read
  match digits, four with
  | [a, b, c, d], _ =>
    rw [← hexUnit?_eq] at value
    simp [pieces, value, more, read, prepend, Except.map]

def startsLow : List Piece → Bool
  | .unit n :: _ => isLowSurrogate n
  | _ => false

/-- A high surrogate stands alone where no low one follows it. -/
theorem assemble_waiting (high : Nat) {ps : List Piece} (alone : startsLow ps = false) :
    assemble (some high) ps = .ofNat high :: assemble none ps := by
  match ps with
  | [] => rfl
  | .char c :: ps => rfl
  | .unit n :: ps =>
    have low : isLowSurrogate n = false := alone
    cases high' : isHighSurrogate n <;> simp [assemble, low, high']

theorem assemble_unit (c : CodePoint) {ps : List Piece}
    (apart : isHighSurrogate c.toNat = true → startsLow ps = false) :
    assemble none (.unit c.toNat :: ps) = c :: assemble none ps := by
  cases high : isHighSurrogate c.toNat with
  | false => simp [assemble, high]
  | true => simp [assemble, high, assemble_waiting _ (apart high)]

theorem assemble_pair {c : CodePoint} (beyond : 0x10000 ≤ c.toNat) (ps : List Piece) :
    assemble none (.unit (0xd800 + (c.toNat - 0x10000) / 0x400) ::
      .unit (0xdc00 + (c.toNat - 0x10000) % 0x400) :: ps) = c :: assemble none ps := by
  have bound := c.toNat_lt
  have high : isHighSurrogate (0xd800 + (c.toNat - 0x10000) / 0x400) = true := by
    simp only [isHighSurrogate, Bool.and_eq_true, decide_eq_true_eq]
    omega
  have low : isLowSurrogate (0xdc00 + (c.toNat - 0x10000) % 0x400) = true := by
    simp only [isLowSurrogate, Bool.and_eq_true, decide_eq_true_eq]
    omega
  have joined : joinSurrogates (0xd800 + (c.toNat - 0x10000) / 0x400)
      (0xdc00 + (c.toNat - 0x10000) % 0x400) = c := by
    have number : 0x10000 + (0xd800 + (c.toNat - 0x10000) / 0x400 - 0xd800) * 0x400 +
        (0xdc00 + (c.toNat - 0x10000) % 0x400 - 0xdc00) = c.toNat := by omega
    rw [joinSurrogates, number, CodePoint.ofNat_toNat]
  simp [assemble, high, low, joined]

theorem shortEscape?_of_listed {e c : CodePoint} (listed : (e, c) ∈ shortEscapes) :
    e ≠ 'u' ∧ shortEscape? e = some c := by
  simp only [shortEscapes, List.mem_cons, List.not_mem_nil, or_false, Prod.mk.injEq] at listed
  rcases listed with ⟨rfl, rfl⟩ | ⟨rfl, rfl⟩ | ⟨rfl, rfl⟩ | ⟨rfl, rfl⟩ | ⟨rfl, rfl⟩ | ⟨rfl, rfl⟩ |
    ⟨rfl, rfl⟩ | ⟨rfl, rfl⟩
  all_goals exact ⟨by decide, rfl⟩

theorem pieces_of_spells {c : CodePoint} {front cs rest : List CodePoint} {opening : Nat}
    {ps : List Piece} (spells : Spells c front) (read : pieces opening cs = .ok (ps, rest))
    (apart : isHighSurrogate c.toNat = true → front = [c] ∨ startsLow ps = false) :
    ∃ own, pieces opening (front ++ cs) = .ok (own ++ ps, rest) ∧
      assemble none (own ++ ps) = c :: assemble none ps ∧
      (startsLow (own ++ ps) = true →
        isLowSurrogate c.toNat = true ∧ front.head? = some (.char '\\')) := by
  cases spells with
  | plain visible quote backslash =>
    refine ⟨[.char c], ?_, rfl, nofun⟩
    rw [List.singleton_append, pieces, if_neg (by omega), read]
    · rfl
    all_goals simp [quote, backslash]
  | short listed =>
    obtain ⟨notUnit, value⟩ := shortEscape?_of_listed listed
    refine ⟨[.char c], ?_, rfl, nofun⟩
    simp [pieces, value, notUnit, read, prepend, Except.map]
  | unit four value =>
    refine ⟨[.unit c.toNat], pieces_unit four value read, assemble_unit c fun high => ?_,
      fun low => ⟨low, rfl⟩⟩
    exact (apart high).resolve_left (by simp)
  | pair beyond four value four' value' =>
    refine ⟨[.unit _, .unit _], ?_, assemble_pair beyond ps, fun low => ?_⟩
    · simpa using pieces_unit four value (pieces_unit four' value' read)
    · -- The first unit of a pair is a high surrogate.
      have bound := c.toNat_lt
      simp only [List.cons_append, startsLow, isLowSurrogate, Bool.and_eq_true,
        decide_eq_true_eq] at low
      omega

/-- Induction from the end of the text, with what the first piece of the rest may be. -/
theorem pieces_of_spellsAll {cs text : List CodePoint} (spells : SpellsAll cs text) (opening : Nat)
    (rest : List CodePoint) :
    ∃ ps, pieces opening (text ++ .char '"' :: rest) = .ok (ps, rest) ∧ assemble none ps = cs ∧
      (startsLow ps = true → text.head? = some (.char '\\') ∧
        ∃ d ∈ cs.head?, isLowSurrogate d.toNat = true) := by
  induction spells with
  | nil => exact ⟨[], rfl, rfl, nofun⟩
  | @cons c cs front back first _ apart ih =>
    obtain ⟨ps, read, assembled, start⟩ := ih
    have alone : isHighSurrogate c.toNat = true → front = [c] ∨ startsLow ps = false := by
      refine fun high => (apart high).imp_right fun itself => ?_
      refine Bool.eq_false_iff.mpr fun follows => ?_
      obtain ⟨escaped, d, next, low⟩ := start follows
      rw [itself d next low] at escaped
      cases escaped
      cases low
    obtain ⟨own, read, joined, start⟩ := pieces_of_spells first read alone
    refine ⟨own ++ ps, ?_, by rw [joined, assembled], fun low => ?_⟩
    · rw [List.append_assoc, read]
    · obtain ⟨here, escaped⟩ := start low
      refine ⟨?_, c, rfl, here⟩
      rw [List.head?_append, escaped]
      rfl

theorem string_of_spelling (s : Spelling) (rest : List CodePoint) :
    string (s.text ++ .char '"' :: rest) = .ok (s.string, rest) := by
  obtain ⟨ps, read, assembled, -⟩ :=
    pieces_of_spellsAll s.spells ((s.text ++ .char '"' :: rest).length + 1) rest
  rw [string, read]
  simp [bind, Except.bind, pure, Except.pure, assembled]

/-! ### Reading numbers -/

/-- What may follow a value inside an array or an object. -/
def isDelimiter (c : CodePoint) : Bool :=
  isSpace c || c = ',' || c = ']' || c = '\x7d'

theorem isDelimiter_iff {c : CodePoint} :
    isDelimiter c = true ↔ c ∈ [CodePoint.char ' ', .char '\t', .char '\n', .char '\r'] ++
      [.char ',', .char ']', .char '\x7d'] := by
  simp [isDelimiter, isSpace, or_assoc]

theorem ends_of_isDelimiter {c : CodePoint} (delimiter : isDelimiter c = true) :
    c.isDigit = false ∧ c ≠ '.' ∧ c ≠ 'e' ∧ c ≠ 'E' := by
  have listed := isDelimiter_iff.mp delimiter
  simp only [List.cons_append, List.nil_append, List.mem_cons, List.not_mem_nil, or_false] at listed
  rcases listed with rfl | rfl | rfl | rfl | rfl | rfl | rfl <;> decide

section Numbers

variable {c : CodePoint} {rest : List CodePoint}

theorem exponentSign_of {sign digits : List CodePoint} (isSign : sign ∈ [[], [.char '+'], [.char '-']])
    (isDigits : IsDigits digits) :
    exponentSign (sign ++ (digits ++ rest)) = (sign, digits ++ rest) := by
  obtain ⟨d, digits, rfl⟩ := List.exists_cons_of_ne_nil isDigits.1
  have digit : d.isDigit = true := isDigits.2 d List.mem_cons_self
  simp only [List.mem_cons, List.not_mem_nil, or_false] at isSign
  rcases isSign with rfl | rfl | rfl
  · unfold exponentSign
    split
    · next plus =>
      obtain rfl := (List.cons.inj plus).1
      cases digit
    · next minus =>
      obtain rfl := (List.cons.inj minus).1
      cases digit
    · rfl
  · rfl
  · rfl

theorem exponent_of {power : List CodePoint} (isExponent : IsExponent power)
    (delimiter : isDelimiter c = true) : exponent (power ++ c :: rest) = (power, c :: rest) := by
  obtain ⟨notDigit, -, lower, upper⟩ := ends_of_isDelimiter delimiter
  rcases isExponent with rfl | ⟨e, sign, digits, mark, isSign, isDigits, rfl⟩
  · simp [exponent, lower, upper]
  · simp only [List.cons_append, List.append_assoc, exponent, exponentSign_of isSign isDigits,
      Text.takeWhile_append_stop isDigits.2 notDigit,
      Text.dropWhile_append_stop isDigits.2 notDigit, mark, isDigits.1, ne_eq, not_false_eq_true,
      and_self, if_true]

theorem fraction_of {point : List CodePoint} (isFraction : IsFraction point)
    (notDigit : c.isDigit = false) (notPoint : c ≠ '.') :
    fraction (point ++ c :: rest) = (point, c :: rest) := by
  rcases isFraction with rfl | ⟨digits, isDigits, rfl⟩
  · simp [fraction, notPoint]
  · simp only [List.cons_append, fraction, Text.takeWhile_append_stop isDigits.2 notDigit,
      Text.dropWhile_append_stop isDigits.2 notDigit, isDigits.1, if_false]

theorem whole_of {digits : List CodePoint} (isWhole : IsWhole digits) (notDigit : c.isDigit = false) :
    whole (digits ++ c :: rest) = (digits, c :: rest) := by
  rcases isWhole with rfl | ⟨isDigits, notZero⟩
  · rfl
  · unfold whole
    split
    · next zero =>
      obtain ⟨d, digits, rfl⟩ := List.exists_cons_of_ne_nil isDigits.1
      exact absurd (congrArg some (List.cons.inj zero).1) notZero
    · rw [Text.takeWhile_append_stop isDigits.2 notDigit,
        Text.dropWhile_append_stop isDigits.2 notDigit]

/-- An exponent, or what comes after the number, ends the digits before it. -/
theorem exponent_ends {power : List CodePoint} (isExponent : IsExponent power)
    (delimiter : isDelimiter c = true) (rest : List CodePoint) :
    ∃ d ds, power ++ c :: rest = d :: ds ∧ d.isDigit = false ∧ d ≠ '.' := by
  rcases isExponent with rfl | ⟨e, sign, digits, mark, -, -, rfl⟩
  · obtain ⟨notDigit, notPoint, -⟩ := ends_of_isDelimiter delimiter
    exact ⟨c, rest, rfl, notDigit, notPoint⟩
  · refine ⟨e, _, rfl, ?_⟩
    rcases mark with rfl | rfl <;> decide

theorem fraction_ends {point : List CodePoint} (isFraction : IsFraction point)
    (notDigit : c.isDigit = false) (rest : List CodePoint) :
    ∃ d ds, point ++ c :: rest = d :: ds ∧ d.isDigit = false := by
  rcases isFraction with rfl | ⟨digits, -, rfl⟩
  · exact ⟨c, rest, rfl, notDigit⟩
  · exact ⟨'.', _, rfl, by decide⟩

theorem number_of (n : Numeral) (delimiter : isDelimiter c = true) :
    number (n.text ++ c :: rest) =
      if n.isLong then refuse .longNumber (n.text ++ c :: rest) else .ok (n.value, c :: rest) := by
  obtain ⟨d, ds, power, notDigit, notPoint⟩ := exponent_ends n.isExponent delimiter rest
  obtain ⟨d', ds', point, notDigit'⟩ := fraction_ends n.isFraction notDigit ds
  have digits : whole (n.whole ++ (n.fraction ++ (n.exponent ++ c :: rest))) =
      (n.whole, n.fraction ++ (n.exponent ++ c :: rest)) := by
    rw [power, point, whole_of n.isWhole notDigit']
  have places : fraction (n.fraction ++ (n.exponent ++ c :: rest)) =
      (n.fraction, n.exponent ++ c :: rest) := by
    rw [power, fraction_of n.isFraction notDigit notPoint]
  have scale : exponent (n.exponent ++ c :: rest) = (n.exponent, c :: rest) :=
    exponent_of n.isExponent delimiter
  obtain ⟨w, ws, front, digit⟩ := IsWhole.head n.isWhole
  have nonempty : n.whole ≠ [] := by simp [front]
  have notMinus : w ≠ '-' := by
    rintro rfl
    cases digit
  unfold number Numeral.isLong Numeral.value Numeral.text Numeral.sign
  cases n.isNegative with
  | true =>
    simp only [if_true, List.append_assoc, List.cons_append, List.nil_append, digits, nonempty,
      if_false, places, scale]
    split
    · next plain => simp [plain.1, plain.2]
    · next other => simp_all
  | false =>
    simp only [Bool.false_eq_true, if_false, List.append_assoc, List.nil_append]
    split
    · next minus =>
      rw [front] at minus
      exact absurd (List.cons.inj minus).1 notMinus
    · simp only [digits, nonempty, if_false, places, scale, List.nil_append]
      split
      · next plain => simp [plain.1, plain.2]
      · next other => simp_all

end Numbers

/-! ### Reading values -/

theorem value_eq_scalar {c : CodePoint} (notString : c ≠ '"') (notArray : c ≠ '[')
    (notObject : c ≠ '\x7b') (depth : Nat) (cs : List CodePoint) :
    value depth (c :: cs) = scalar (c :: cs) := by
  cases depth <;> simp [value, notString, notArray, notObject]

theorem value_of_numeral (n : Numeral) {c : CodePoint} (delimiter : isDelimiter c = true) (depth : Nat)
    (rest : List CodePoint) :
    value depth (n.text ++ c :: rest) =
      if n.isLong then refuse .longNumber (n.text ++ c :: rest) else .ok (n.value, c :: rest) := by
  rw [← number_of n delimiter]
  obtain ⟨d, ds, text, start⟩ := n.head
  rw [text, List.cons_append]
  rcases start with digit | ⟨rfl, e, es, rfl, digit⟩
  · have notOther (o : Char) (other : o.isDigit = false) : d ≠ o := by
      rintro rfl
      simp [other] at digit
    simp [value_eq_scalar, scalar, notOther]
  · have notWord : e ≠ 'I' := by
      rintro rfl
      cases digit
    simp [value_eq_scalar, scalar, notWord]

/-- `read` takes `text` for `v` wherever a delimiter follows. -/
def Takes (read : ReadValue) (v : Json) (text : List CodePoint) : Prop :=
  ∀ c rest, isDelimiter c = true → read (text ++ c :: rest) = .ok (v, c :: rest)

/-- A text of a value starts neither with white space nor with a closing bracket. -/
def Solid (text : List CodePoint) : Prop :=
  ∃ c cs, text = c :: cs ∧ isSpace c = false ∧ c ≠ ']'

theorem skipSpace_cons {c : CodePoint} (cs : List CodePoint) (solid : isSpace c = false) :
    skipSpace (c :: cs) = c :: cs := by
  simp [skipSpace, solid]

theorem skipSpace_gap (gap : Gap) {c : CodePoint} (solid : isSpace c = false) (rest : List CodePoint) :
    skipSpace (gap.chars ++ c :: rest) = c :: rest := by
  refine Text.dropWhile_append_stop (fun d member => ?_) solid
  simpa [isSpace, or_assoc] using gap.blank d member

theorem Solid.skipSpace_gap {text : List CodePoint} (solid : Solid text) (gap : Gap)
    (rest : List CodePoint) : skipSpace (gap.chars ++ (text ++ rest)) = text ++ rest := by
  obtain ⟨c, cs, rfl, notSpace, -⟩ := solid
  exact Reader.skipSpace_gap gap notSpace (cs ++ rest)

section Items

variable {read : ReadValue} {bound : Nat} {c : CodePoint}

/-- What comes after a gap is a delimiter, or the gap starts with one. -/
theorem Takes.before_gap {v : Json} {text : List CodePoint} (takes : Takes read v text) (gap : Gap)
    (delimiter : isDelimiter c = true) (rest : List CodePoint) :
    read (text ++ (gap.chars ++ c :: rest)) = .ok (v, gap.chars ++ c :: rest) := by
  cases chars : gap.chars with
  | nil => exact takes c rest delimiter
  | cons d ds =>
    have blank := gap.blank d (by simp [chars])
    exact takes d (ds ++ c :: rest)
      (isDelimiter_iff.mpr (List.mem_append_left _ blank))

theorem read_item {i : Item} (takes : Takes read i.value i.text) (solid : Solid i.text)
    (delimiter : isDelimiter c = true) (rest : List CodePoint) :
    read (skipSpace (i.shown ++ c :: rest)) = .ok (i.value, i.after.chars ++ c :: rest) := by
  simp only [Item.shown, List.append_assoc]
  rw [solid.skipSpace_gap, takes.before_gap i.after delimiter]

theorem elements_of_items {items : List Item} (nonempty : items ≠ [])
    (enough : items.length ≤ bound) (takes : ∀ i ∈ items, Takes read i.value i.text)
    (solid : ∀ i ∈ items, Solid i.text) (rest : List CodePoint) :
    elements read bound (skipSpace (commas (items.map (·.shown)) ++ .char ']' :: rest)) =
      .ok (items.map (·.value), rest) := by
  induction items generalizing bound with
  | nil => exact absurd rfl nonempty
  | cons item items ih =>
    obtain ⟨bound, rfl⟩ := Nat.exists_eq_add_one_of_ne_zero
      (Nat.ne_of_gt (Nat.lt_of_lt_of_le (Nat.zero_lt_succ _) enough))
    rw [List.forall_mem_cons] at takes solid
    have closed : isSpace ']' = false ∧ isSpace ',' = false := by decide
    rw [elements]
    cases items with
    | nil =>
      rw [List.map_singleton, commas_singleton, read_item takes.1 solid.1 (by decide)]
      simp only [bind, Except.bind, skipSpace_gap item.after closed.1]
      rfl
    | cons next items =>
      have later := ih (by simp) (Nat.le_of_succ_le_succ enough) takes.2 solid.2
      rw [List.map_cons] at later
      rw [List.map_cons, List.map_cons, commas_cons, List.append_assoc, List.cons_append,
        read_item takes.1 solid.1 (by decide)]
      simp only [bind, Except.bind, skipSpace_gap item.after closed.2, later]
      rfl

theorem members_of_entries {entries : List Entry} (nonempty : entries ≠ [])
    (enough : entries.length ≤ bound)
    (takes : ∀ e ∈ entries, Takes read e.item.value e.item.text)
    (solid : ∀ e ∈ entries, Solid e.item.text) (rest : List CodePoint) :
    members read bound (skipSpace (commas (entries.map (·.shown)) ++ .char '\x7d' :: rest)) =
      .ok (entries.map (·.member), rest) := by
  induction entries generalizing bound with
  | nil => exact absurd rfl nonempty
  | cons entry entries ih =>
    obtain ⟨bound, rfl⟩ := Nat.exists_eq_add_one_of_ne_zero
      (Nat.ne_of_gt (Nat.lt_of_lt_of_le (Nat.zero_lt_succ _) enough))
    rw [List.forall_mem_cons] at takes solid
    have opening : isSpace '"' = false := by decide
    have closed : isSpace '\x7d' = false ∧ isSpace ',' = false ∧ isSpace ':' = false := by decide
    have start (d : CodePoint) (rest : List CodePoint) : skipSpace (entry.shown ++ d :: rest) =
        .char '"' :: (entry.name.text ++ .char '"' :: (entry.after.chars ++ .char ':' ::
          (entry.item.shown ++ d :: rest))) := by
      simp only [Entry.shown, List.append_assoc, List.cons_append]
      exact skipSpace_gap _ opening _
    cases entries with
    | nil =>
      rw [List.map_singleton, commas_singleton, start, members, string_of_spelling]
      simp only [bind, Except.bind, skipSpace_gap entry.after closed.2.2]
      rw [read_item takes.1 solid.1 (by decide)]
      simp only [skipSpace_gap entry.item.after closed.1]
      rfl
    | cons next entries =>
      have later := ih (by simp) (Nat.le_of_succ_le_succ enough) takes.2 solid.2
      rw [List.map_cons] at later
      rw [List.map_cons, List.map_cons, commas_cons, List.append_assoc, List.cons_append, start,
        members, string_of_spelling]
      simp only [bind, Except.bind, skipSpace_gap entry.after closed.2.2]
      rw [read_item takes.1 solid.1 (by decide)]
      simp only [skipSpace_gap entry.item.after closed.2.1, later]
      rfl

theorem array_of_items {items : List Item} (nonempty : items ≠ [])
    (takes : ∀ i ∈ items, Takes read i.value i.text) (solid : ∀ i ∈ items, Solid i.text)
    (rest : List CodePoint) :
    array read (commas (items.map (·.shown)) ++ .char ']' :: rest) =
      .ok (.arr (items.map (·.value)), rest) := by
  have elements (bound : Nat) (enough : items.length ≤ bound) :=
    elements_of_items nonempty enough takes solid rest
  obtain ⟨item, items, rfl⟩ := List.exists_cons_of_ne_nil nonempty
  obtain ⟨c, cs, text, -, notClosed⟩ := solid item List.mem_cons_self
  have start : skipSpace (commas ((item :: items).map (·.shown)) ++ .char ']' :: rest) =
      item.text ++ (item.after.chars ++
        ((items.map (·.shown)).flatMap (.char ',' :: ·) ++ .char ']' :: rest)) := by
    simp only [List.map_cons, commas_eq, Item.shown, List.append_assoc]
    exact (solid item List.mem_cons_self).skipSpace_gap item.before _
  have long := length_le_flatMap (items.map (·.shown))
  unfold array
  split
  · next closed =>
    rw [start, text] at closed
    exact absurd (List.cons.inj closed).1 notClosed
  · rw [elements]
    · rfl
    · rw [List.length_map] at long
      rw [start, text]
      simp only [List.length_append, List.length_cons]
      omega

theorem object_of_entries {entries : List Entry} (nonempty : entries ≠ [])
    (takes : ∀ e ∈ entries, Takes read e.item.value e.item.text)
    (solid : ∀ e ∈ entries, Solid e.item.text) (rest : List CodePoint) :
    object read (commas (entries.map (·.shown)) ++ .char '\x7d' :: rest) =
      .ok (.object (entries.map (·.member)), rest) := by
  have members (bound : Nat) (enough : entries.length ≤ bound) :=
    members_of_entries nonempty enough takes solid rest
  obtain ⟨entry, entries, rfl⟩ := List.exists_cons_of_ne_nil nonempty
  have start : skipSpace (commas ((entry :: entries).map (·.shown)) ++ .char '\x7d' :: rest) =
      .char '"' :: (entry.name.text ++ .char '"' :: (entry.after.chars ++ .char ':' ::
        (entry.item.shown ++ ((entries.map (·.shown)).flatMap (.char ',' :: ·) ++ .char '\x7d' :: rest)))) := by
    simp only [List.map_cons, commas_eq, Entry.shown, List.append_assoc, List.cons_append]
    exact skipSpace_gap _ (by decide) _
  have long := length_le_flatMap (entries.map (·.shown))
  unfold object
  split
  · next closed =>
    rw [start] at closed
    cases closed
  · rw [members]
    · rfl
    · rw [List.length_map] at long
      rw [start]
      simp only [List.length_append, List.length_cons]
      omega

end Items

end Reader

theorem Written.solid {depth : Nat} {v : Json} {text : List CodePoint}
    (written : Written depth v text) :
    Reader.Solid text := by
  cases written with
  | number _ n _ =>
    obtain ⟨d, ds, text, start⟩ := n.head
    refine ⟨d, ds, text, ?_⟩
    rcases start with digit | ⟨rfl, -⟩
    · have inside : Reader.isDelimiter d = false := by
        refine Bool.eq_false_iff.mpr fun delimiter => ?_
        simp [(Reader.ends_of_isDelimiter delimiter).1] at digit
      simp only [Reader.isDelimiter, Bool.or_eq_false_iff, decide_eq_false_iff_not] at inside
      exact ⟨inside.1.1.1, inside.1.2⟩
    · decide
  | bool _ b => cases b <;> exact ⟨_, _, rfl, by decide, by decide⟩
  | _ => exact ⟨_, _, rfl, by decide, by decide⟩

namespace Reader

/-- Induction on the text: what is inside an array or an object is read one level further down. -/
theorem value_of_written {depth : Nat} {v : Json} {text : List CodePoint}
    (written : Written depth v text) {n : Nat} (deep : depth ≤ n) : Takes (value n) v text := by
  induction written generalizing n with
  | number _ m short =>
    intro c rest delimiter
    rw [value_of_numeral m delimiter n rest, short, if_neg Bool.false_ne_true]
  | str _ s =>
    intro c rest _
    simp [value, string_of_spelling, bind, Except.bind, pure, Except.pure]
  | emptyArr _ gap =>
    intro c rest _
    obtain ⟨n, rfl⟩ := Nat.exists_eq_add_of_le' (Nat.le_trans (Nat.le_add_left 1 _) deep)
    simp [value, array, skipSpace_gap gap (show isSpace ']' = false by decide)]
  | emptyObj _ gap =>
    intro c rest _
    obtain ⟨n, rfl⟩ := Nat.exists_eq_add_of_le' (Nat.le_trans (Nat.le_add_left 1 _) deep)
    simp [value, object, skipSpace_gap gap (show isSpace '\x7d' = false by decide)]
  | arr nonempty each ih =>
    intro c rest _
    obtain ⟨n, rfl⟩ := Nat.exists_eq_add_of_le' (Nat.le_trans (Nat.le_add_left 1 _) deep)
    have inside := array_of_items nonempty
      (fun i member => ih i member (Nat.le_of_succ_le_succ deep))
      (fun i member => (each i member).solid) (c :: rest)
    simpa [value] using inside
  | obj nonempty each ih =>
    intro c rest _
    obtain ⟨n, rfl⟩ := Nat.exists_eq_add_of_le' (Nat.le_trans (Nat.le_add_left 1 _) deep)
    have inside := object_of_entries nonempty
      (fun e member => ih e member (Nat.le_of_succ_le_succ deep))
      (fun e member => (each e member).solid) (c :: rest)
    simpa [value] using inside
  | bool _ b =>
    intro c rest _
    cases b <;> simp [value, scalar, Text.toList_ofString]
  | _ =>
    intro c rest _
    simp [value, scalar, Text.toList_ofString]

end Reader

end ContractAbi.Json
