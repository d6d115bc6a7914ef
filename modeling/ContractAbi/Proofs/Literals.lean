import ContractAbi.Param
import ContractAbi.Proofs.ReadBack
import ContractAbi.Proofs.Trimming

/-!
# Named parameters as they are written

A named parameter is written as JSON, in any of the ways JSON allows, or as a plain object literal:
keys without quotes, single quotes or none, perhaps a comma at the end. Each form has a reader of
its own (`document_of_entries`, `lenient?_of_fields`), and both give the same parameter. JSON with a
number that is too long falls to the lenient reader, which knows fewer escapes.
-/

namespace ContractAbi

/-! ### Around a literal -/

namespace Text

theorem unquote_eq_self {cs : List CodePoint} (double : cs.head? ≠ some (.char '"'))
    (single : cs.head? ≠ some (.char '\'')) : unquote (Text.ofList cs) = Text.ofList cs := by
  have same (q : CodePoint) (other : cs.head? ≠ some q) : stripPair q cs = cs := by
    cases cs with
    | nil => rfl
    | cons c cs =>
      have different : c ≠ q := by simpa using other
      simp [stripPair, different]
  rw [unquote, Text.toList_ofList, same _ double, same _ single]

end Text

/-- An argument in braces. -/
def ObjectLiteral.braced (front : Text.Blanks) (inside : List CodePoint) (back : Text.Blanks) : Text :=
  Text.ofList (front.chars ++ .char '\x7b' :: (inside ++ .char '\x7d' :: back.chars))

theorem Param.parse_braced (front back : Text.Blanks) {inside : List CodePoint} {v : Json}
    {name type : Text}
    (read : ObjectLiteral.read? (.char '\x7b' :: (inside ++ [.char '\x7d'])) = some v)
    (found : ObjectLiteral.nameAndType v = .ok (name, type)) :
    parse (Text.unquote (ObjectLiteral.braced front inside back)) = .named name type := by
  have unquoted (q : CodePoint) (quote : Text.isBlank q = false) (other : '\x7b' ≠ q) :
      (front.chars ++ .char '\x7b' :: (inside ++ .char '\x7d' :: back.chars)).head? ≠ some q := by
    cases chars : front.chars with
    | nil => simpa using other
    | cons c cs =>
      have blank := front.blank c (by simp [chars])
      simp only [List.cons_append, List.head?_cons, ne_eq, Option.some_inj]
      rintro rfl
      simp [quote] at blank
  have closed : (.char '\x7b' :: (inside ++ [.char '\x7d'])).getLast? = some (.char '\x7d') := by
    rw [← List.cons_append]
    exact List.getLast?_concat
  have trimmed : Text.IsTrimmed (.char '\x7b' :: (inside ++ [.char '\x7d'])) := by
    constructor
    · rintro c ⟨rfl⟩
      decide
    · rw [closed]
      rintro c ⟨rfl⟩
      decide
  have whole : .char '\x7b' :: (inside ++ .char '\x7d' :: back.chars) =
      .char '\x7b' :: (inside ++ [.char '\x7d']) ++ back.chars := by
    simp
  rw [ObjectLiteral.braced, Text.unquote_eq_self (unquoted _ (by decide) (by decide))
    (unquoted _ (by decide) (by decide)), parse, Text.trim, Text.toList_ofList, whole,
    Text.trimChars_blanks, Text.trimChars_eq_self trimmed]
  simp [ObjectLiteral.parse, closed, read, found]

/-! ### The last member of a name -/

/-- Of the pairs with one key, the last counts. -/
theorem Table.get?_ofPairs_eq {κ α : Type} [DecidableEq κ] (pairs : List (κ × α)) (k : κ) :
    (ofPairs pairs).get? k = ((pairs.filter (·.1 = k)).getLast?).map (·.2) := by
  have general (pairs : List (κ × α)) (t : Table κ α) :
      (pairs.foldl (fun t p => t.insert p.1 p.2) t).get? k =
        (((pairs.filter (·.1 = k)).getLast?).map (·.2)).or (t.get? k) := by
    induction pairs generalizing t with
    | nil => rfl
    | cons p pairs ih =>
      rw [List.foldl_cons, ih]
      by_cases same : p.1 = k
      · rw [same, get?_insert_self, List.filter_cons_of_pos (by simpa using same),
          List.getLast?_cons]
        cases (pairs.filter (·.1 = k)).getLast? <;> rfl
      · rw [get?_insert_of_ne _ _ (Ne.symm same), List.filter_cons_of_neg (by simpa using same)]
  rw [ofPairs, general]
  cases (pairs.filter (·.1 = k)).getLast? <;> rfl

theorem ObjectLiteral.nameAndType_object {members : List (Text × Json)} {name type : Text}
    (named : (members.filter (·.1 = Text.ofString "name")).getLast?.map (·.2) = some (.str name))
    (typed : (members.filter (·.1 = Text.ofString "type")).getLast?.map (·.2) = some (.str type)) :
    nameAndType (.object members) = .ok (name, type) := by
  have found (key : Text) :
      (Json.object members).member? key = (members.filter (·.1 = key)).getLast?.map (·.2) :=
    Table.get?_ofPairs_eq members key
  have name := found "name"
  have type := found "type"
  rw [named] at name
  rw [typed] at type
  unfold Json.object at name type
  unfold nameAndType Json.object
  dsimp only
  rw [name, type]
  rfl

/-! ### JSON -/

/-- The value of the last entry with this name. -/
def Json.lastValue? (name : Text) (entries : List Entry) : Option Json :=
  (entries.filter (·.name.string = name)).getLast?.map (·.item.value)

theorem Json.Spells.itself {c : CodePoint} (visible : 0x20 ≤ c.toNat ∧ c ≠ '"' ∧ c ≠ '\\') :
    Spells c [c] :=
  .plain visible.1 visible.2.1 visible.2.2

theorem Json.Reader.document_of_entries {depth : Nat} {entries : List Entry}
    (nonempty : entries ≠ []) (deep : depth < nestingLimit)
    (each : ∀ e ∈ entries, Written depth e.item.value e.item.text) :
    document (.char '\x7b' :: (commas (entries.map (·.shown)) ++ [.char '\x7d'])) =
      .ok (.object (entries.map (·.member))) := by
  have below : depth ≤ 989 := Nat.le_of_lt_succ deep
  have read := object_of_entries nonempty
    (fun e member => value_of_written (each e member) below)
    (fun e member => (each e member).solid) []
  have start : value nestingLimit
      (.char '\x7b' :: (commas (entries.map (·.shown)) ++ [.char '\x7d'])) =
        .ok (.object (entries.map (·.member)), []) := by
    rw [← read]
    rfl
  rw [document, if_neg (by simp), skipSpace_cons _ (by decide), start]
  rfl

/-! ### Plain object literals -/

namespace ObjectLiteral

/-- A member as it is written without double quotes: the name bare, the value bare or in single
quotes. -/
structure Field where
  before : Text.Blanks
  name : Text
  after : Text.Blanks
  between : Text.Blanks
  value : Text
  isQuoted : Bool
  behind : Text.Blanks

namespace Field

def valueText (f : Field) : List CodePoint :=
  if f.isQuoted then .char '\'' :: (f.value.toList ++ [.char '\'']) else f.value.toList

def shown (f : Field) : List CodePoint :=
  f.before.chars ++ (f.name.toList ++ (f.after.chars ++ (.char ':' :: (f.between.chars ++
    (f.valueText ++ f.behind.chars)))))

def member (f : Field) : Text × Json :=
  (f.name, .str f.value)

end Field

/-- Characters that stand for themselves in single quotes. -/
def IsPlain (cs : List CodePoint) : Prop :=
  ∀ c ∈ cs, c ≠ '\'' ∧ c ≠ '\\' ∧ c ≠ '\n'

/-- The characters of keys and of types that are no tuples: letters, digits and six marks. -/
def isInner (c : CodePoint) : Bool :=
  'a' ≤ c && c ≤ 'z' || 'A' ≤ c && c ≤ 'Z' || '0' ≤ c && c ≤ '9' || c = '_' || c = '.' || c = '[' ||
    c = ']' || c = '<' || c = '>'

/-- Whether a text without quotes is read as itself. -/
def isWord (cs : List CodePoint) : Bool :=
  cs.head?.any (fun c => !isMark c) && cs.all isInner && !isNumber cs && (keyword? cs).isNone

structure Field.IsReadable (f : Field) : Prop where
  name : isWord f.name.toList = true
  quoted : f.isQuoted = true → IsPlain f.value.toList
  bare : f.isQuoted = false → isWord f.value.toList = true

theorem isWord_iff {cs : List CodePoint} :
    isWord cs = true ↔ (∃ c rest, cs = c :: rest ∧ isMark c = false) ∧ (∀ c ∈ cs, isInner c = true) ∧
      isNumber cs = false ∧ keyword? cs = none := by
  cases cs <;> simp [isWord, and_assoc]

theorem isBlank_of_isInner {c : CodePoint} (inner : isInner c = true) : Text.isBlank c = false := by
  have visible : 0x21 ≤ c.toNat ∧ c.toNat ≤ 0x7e := by
    simp only [isInner, Bool.or_eq_true, Bool.and_eq_true, decide_eq_true_eq, CodePoint.le_def,
      CodePoint.toNat_char, Char.reduceToNat] at inner
    rcases inner with (((((letter | rfl) | rfl) | rfl) | rfl) | rfl) | rfl
    · omega
    all_goals decide
  simp only [Text.isBlank, Bool.or_eq_false_iff, Bool.and_eq_false_iff, decide_eq_false_iff_not,
    beq_eq_false_iff_ne]
  omega

theorem ne_of_isInner {c d : CodePoint} (inner : isInner d = true) (outer : isInner c = false) :
    d ≠ c := by
  rintro rfl
  simp [inner] at outer

theorem isPlain_of_isWord {cs : List CodePoint} (word : isWord cs = true) : IsPlain cs := by
  intro c member
  have inner := (isWord_iff.mp word).2.1 c member
  exact ⟨ne_of_isInner inner (by decide), ne_of_isInner inner (by decide),
    ne_of_isInner inner (by decide)⟩

theorem skip_blank {c : CodePoint} (notComment : c ≠ '/') (cs : List CodePoint) :
    skip .blank (c :: cs) = if Text.isBlank c then skip .blank cs else c :: cs := by
  rw [skip.eq_def]
  split <;> simp_all

theorem skipGap_blanks (gap : Text.Blanks) {c : CodePoint} (solid : Text.isBlank c = false)
    (notComment : c ≠ '/') (rest : List CodePoint) : skipGap (gap.chars ++ c :: rest) = c :: rest := by
  obtain ⟨chars, blank⟩ := gap
  unfold skipGap
  induction chars with
  | nil => rw [List.nil_append, skip_blank notComment, solid, if_neg Bool.false_ne_true]
  | cons d chars ih =>
    rw [List.forall_mem_cons] at blank
    have notSlash : d ≠ '/' := by
      rintro rfl
      exact absurd blank.1 (by decide)
    rw [List.cons_append, skip_blank notSlash, if_pos blank.1, ih blank.2]

theorem skipGap_cons {c : CodePoint} (solid : Text.isBlank c = false) (notComment : c ≠ '/')
    (rest : List CodePoint) : skipGap (c :: rest) = c :: rest :=
  skipGap_blanks .empty solid notComment rest

/-- A word starts with no blank and with none of the marks that mean something to the reader. -/
theorem start_of_isWord {cs : List CodePoint} (word : isWord cs = true) :
    ∃ d ds, cs = d :: ds ∧ Text.isBlank d = false ∧ isMark d = false ∧ isQuote d = false ∧
      ∀ e, isMark e = true → d ≠ e := by
  obtain ⟨⟨d, ds, rfl, notMark⟩, inner, -⟩ := isWord_iff.mp word
  have apart (e : CodePoint) (mark : isMark e = true) : d ≠ e := by
    rintro rfl
    simp [notMark] at mark
  have notQuote : isQuote d = false := by
    simp [isQuote, apart '"' (by decide), apart '\'' (by decide)]
  exact ⟨d, ds, rfl, isBlank_of_isInner (inner d List.mem_cons_self), notMark, notQuote, apart⟩

theorem skipGap_word {cs : List CodePoint} (word : isWord cs = true) (gap : Text.Blanks)
    (rest : List CodePoint) : skipGap (gap.chars ++ (cs ++ rest)) = cs ++ rest := by
  obtain ⟨d, ds, rfl, solid, -, -, apart⟩ := start_of_isWord word
  exact skipGap_blanks gap solid (apart '/' (by decide)) (ds ++ rest)

theorem trimRight_word {cs : List CodePoint} (word : isWord cs = true) (gap : Text.Blanks) :
    Text.trimRight (cs ++ gap.chars) = cs := by
  rw [Text.trimRight_blanks]
  exact Text.trimRight_eq_self fun c ends =>
    isBlank_of_isInner ((isWord_iff.mp word).2.1 c (List.mem_of_getLast? ends))

/-- What ends a member. -/
def IsEnd (c : CodePoint) : Prop :=
  c = ',' ∨ c = '\x7d'

theorem IsEnd.solid {c : CodePoint} (ends : IsEnd c) : Text.isBlank c = false ∧ c ≠ '/' := by
  rcases ends with rfl | rfl <;> decide

theorem quoted?_plain {cs : List CodePoint} (plain : IsPlain cs) (rest : List CodePoint) :
    quoted? '\'' false (cs ++ .char '\'' :: rest) = some (cs, rest) := by
  induction cs with
  | nil => simp [quoted?]
  | cons c cs ih =>
    obtain ⟨⟨notQuote, notEscape, -⟩, plain⟩ := List.forall_mem_cons.mp plain
    simp [quoted?, notQuote, notEscape, ih plain, after]

theorem atom_quoted {cs : List CodePoint} (plain : IsPlain cs) (gap : Text.Blanks) {c : CodePoint}
    (ends : IsEnd c) (rest : List CodePoint) :
    atom false (.char '\'' :: (cs ++ .char '\'' :: (gap.chars ++ c :: rest))) =
      (.str (Text.ofList cs), gap.chars ++ c :: rest) := by
  have whole : cs.getLast? ≠ some (.char '\n') := fun last =>
    (plain '\n' (List.mem_of_getLast? last)).2.2 rfl
  have closed : closed? '\'' (cs ++ .char '\'' :: (gap.chars ++ c :: rest)) =
      some (cs, gap.chars ++ c :: rest) := by
    simp [closed?, quoted?_plain plain, whole]
  have boundary : isBoundary (gap.chars ++ c :: rest) = true := by
    rw [isBoundary, skipGap_blanks gap ends.solid.1 ends.solid.2]
    rcases ends with rfl | rfl <;> rfl
  simp [atom, isQuote, closed, Option.filter_some, boundary]

theorem bareRun_append {cs : List CodePoint} {c : CodePoint}
    (inner : ∀ d ∈ cs, d ≠ '\x7d' ∧ d ≠ ',' ∧ d ≠ '(' ∧ d ≠ ')') (ends : IsEnd c)
    (rest : List CodePoint) :
    bareRun false 0 (cs ++ c :: rest) = (cs, c :: rest) := by
  induction cs with
  | nil => rcases ends with rfl | rfl <;> simp [bareRun]
  | cons d cs ih =>
    obtain ⟨⟨brace, comma, opening, closing⟩, inner⟩ := List.forall_mem_cons.mp inner
    simp [bareRun, brace, comma, opening, closing, ih inner]

theorem atom_bare {cs : List CodePoint} (word : isWord cs = true) (gap : Text.Blanks) {c : CodePoint}
    (ends : IsEnd c) (rest : List CodePoint) :
    atom false (cs ++ (gap.chars ++ c :: rest)) = (.str (Text.ofList cs), c :: rest) := by
  obtain ⟨-, inner, notNumber, notKeyword⟩ := isWord_iff.mp word
  have run : bareRun false 0 (cs ++ (gap.chars ++ c :: rest)) = (cs ++ gap.chars, c :: rest) := by
    rw [← List.append_assoc]
    refine bareRun_append (fun d member => ?_) ends rest
    rcases List.mem_append.mp member with letter | blank
    · have inner := inner d letter
      exact ⟨ne_of_isInner inner (by decide), ne_of_isInner inner (by decide),
        ne_of_isInner inner (by decide), ne_of_isInner inner (by decide)⟩
    · exact ⟨Text.Blanks.ne blank (by decide), Text.Blanks.ne blank (by decide),
        Text.Blanks.ne blank (by decide), Text.Blanks.ne blank (by decide)⟩
  have trimmed := trimRight_word word gap
  obtain ⟨d, ds, rfl, -, notMark, notQuote, -⟩ := start_of_isWord word
  rw [List.cons_append] at run ⊢
  simp only [atom, notQuote, Bool.false_eq_true, if_false, run, bareValue, trimmed]
  simp [notNumber, notKeyword, notMark]

theorem key_word {cs : List CodePoint} (word : isWord cs = true) (gap : Text.Blanks)
    (rest : List CodePoint) :
    key (cs ++ (gap.chars ++ .char ':' :: rest)) = (cs, .char ':' :: rest) := by
  obtain ⟨-, inner, -⟩ := isWord_iff.mp word
  have keyChars : ∀ d ∈ cs ++ gap.chars, isKeyChar d = true := by
    intro d member
    have apart (c : CodePoint) (solid : Text.isBlank c = false) (outer : isInner c = false) : d ≠ c :=
      (List.mem_append.mp member).elim (fun letter => ne_of_isInner (inner d letter) outer)
        fun blank => Text.Blanks.ne blank solid
    simp [isKeyChar, apart ':' (by decide) (by decide), apart ',' (by decide) (by decide),
      apart '\x7d' (by decide) (by decide)]
  have trimmed := trimRight_word word gap
  obtain ⟨d, ds, rfl, -, notMark, notQuote, -⟩ := start_of_isWord word
  have bare : bareKey (d :: ds ++ gap.chars ++ .char ':' :: rest) = (d :: ds, .char ':' :: rest) := by
    rw [bareKey, Text.takeWhile_append_stop keyChars (by decide),
      Text.dropWhile_append_stop keyChars (by decide), List.cons_append,
      List.dropWhile_cons_of_neg (by simp [notMark]), ← List.cons_append, trimmed]
  rw [← List.append_assoc]
  simpa [key, notQuote] using bare

theorem value_eq_atom {c : CodePoint} (notArray : c ≠ '[') (notObject : c ≠ '\x7b') (n : Nat)
    (inArray : Bool) (cs : List CodePoint) :
    value n inArray (c :: cs) = some (atom inArray (c :: cs)) := by
  cases n <;> simp [value, notArray, notObject]

/-- A value is read up to the blanks behind it, or up to its end if it is bare. -/
theorem value_field {f : Field} (readable : f.IsReadable) (n : Nat) {c : CodePoint} (ends : IsEnd c)
    (rest : List CodePoint) :
    ∃ gap : Text.Blanks, value n false (skipGap (f.between.chars ++ (f.valueText ++
      (f.behind.chars ++ c :: rest)))) = some (.str f.value, gap.chars ++ c :: rest) := by
  unfold Field.valueText
  cases quoted : f.isQuoted with
  | true =>
    refine ⟨f.behind, ?_⟩
    simp only [if_true, List.cons_append, List.append_assoc, List.nil_append]
    rw [skipGap_blanks f.between (by decide) (by decide), value_eq_atom (by decide) (by decide),
      atom_quoted (readable.quoted quoted) f.behind ends, Text.ofList_toList]
  | false =>
    refine ⟨.empty, ?_⟩
    have word := readable.bare quoted
    have read := atom_bare word f.behind ends rest
    obtain ⟨d, ds, text, -, -, -, apart⟩ := start_of_isWord word
    rw [if_neg Bool.false_ne_true, skipGap_word word]
    rw [Text.ofList_toList, text, List.cons_append] at read
    rw [text, List.cons_append, value_eq_atom (apart _ (by decide)) (apart _ (by decide)), read]
    rfl

theorem skipSeparator_blanks (gap : Text.Blanks) {c : CodePoint} (ends : IsEnd c)
    (rest : List CodePoint) :
    skipSeparator (gap.chars ++ c :: rest) = if c = ',' then rest else c :: rest := by
  rw [skipSeparator, skipGap_blanks gap ends.solid.1 ends.solid.2]
  rcases ends with rfl | rfl <;> rfl

theorem members_field {f : Field} (readable : f.IsReadable) {n bound : Nat} {c : CodePoint}
    (ends : IsEnd c) {rest rest' : List CodePoint} {items : List (Text × Json)}
    (later : members (value n) bound (if c = ',' then rest else c :: rest) = some (items, rest')) :
    members (value n) (bound + 1) (f.shown ++ c :: rest) = some (f.member :: items, rest') := by
  obtain ⟨gap, read⟩ := value_field readable n ends rest
  obtain ⟨d, ds, name, -, -, -, apart⟩ := start_of_isWord readable.name
  have named := key_word readable.name f.after
    (f.between.chars ++ (f.valueText ++ (f.behind.chars ++ c :: rest)))
  have start : skipGap (f.shown ++ c :: rest) = f.name.toList ++ (f.after.chars ++ .char ':' ::
      (f.between.chars ++ (f.valueText ++ (f.behind.chars ++ c :: rest)))) := by
    simp only [Field.shown, List.append_assoc, List.cons_append]
    exact skipGap_word readable.name f.before _
  rw [members, start]
  split
  · next text => simp [name] at text
  · next text => exact absurd (List.cons.inj (name ▸ text)).1 (apart _ (by decide))
  · next text => exact absurd (List.cons.inj (name ▸ text)).1 (apart _ (by decide))
  · next text => exact absurd (List.cons.inj (name ▸ text)).1 (apart _ (by decide))
  · simp (disch := decide) only [named, skipGap_cons, read, bind, Option.bind,
      skipSeparator_blanks gap ends, later, Text.ofList_toList]
    rfl

/-- The comma that may stand before the closing brace. -/
def closing : Option Text.Blanks → List CodePoint
  | none => []
  | some gap => .char ',' :: gap.chars

def fieldsText (fields : List Field) (trailing : Option Text.Blanks) : List CodePoint :=
  Json.commas (fields.map (·.shown)) ++ closing trailing

theorem members_closed (gap : Text.Blanks) (n bound : Nat) (rest : List CodePoint) :
    members (value n) (bound + 1) (gap.chars ++ .char '\x7d' :: rest) = some ([], rest) := by
  rw [members, skipGap_blanks gap (by decide) (by decide)]
  rfl

theorem members_of_fields {fields : List Field} (nonempty : fields ≠ [])
    (readable : ∀ f ∈ fields, f.IsReadable) {n bound : Nat} (enough : fields.length < bound)
    (trailing : Option Text.Blanks) (rest : List CodePoint) :
    members (value n) bound (fieldsText fields trailing ++ .char '\x7d' :: rest) =
      some (fields.map (·.member), rest) := by
  unfold fieldsText
  induction fields generalizing bound with
  | nil => exact absurd rfl nonempty
  | cons f fields ih =>
    rw [List.length_cons] at enough
    obtain ⟨bound, rfl⟩ := Nat.exists_eq_add_of_le' (show 2 ≤ bound by omega)
    rw [List.forall_mem_cons] at readable
    cases fields with
    | nil =>
      rw [List.map_singleton, Json.commas_singleton, List.append_assoc]
      cases trailing with
      | none => exact members_field readable.1 (Or.inr rfl) (members_closed .empty n bound rest)
      | some gap => exact members_field readable.1 (Or.inl rfl) (members_closed gap n bound rest)
    | cons next fields =>
      have later := ih (by simp) readable.2 (Nat.lt_of_succ_lt_succ enough)
      rw [List.map_cons, List.map_cons, Json.commas_cons, List.append_assoc, List.append_assoc]
      rw [List.map_cons, List.append_assoc] at later
      exact members_field readable.1 (Or.inl rfl) later

theorem braces_of_fields {fields : List Field} (nonempty : fields ≠ [])
    (readable : ∀ f ∈ fields, f.IsReadable) (n : Nat) (trailing : Option Text.Blanks) :
    braces (value n) (fieldsText fields trailing ++ [.char '\x7d']) =
      some (.object (fields.map (·.member)), []) := by
  have read (bound : Nat) (enough : fields.length < bound) :=
    members_of_fields nonempty readable (n := n) enough trailing []
  obtain ⟨f, fields, rfl⟩ := List.exists_cons_of_ne_nil nonempty
  have word := (readable f List.mem_cons_self).name
  obtain ⟨d, ds, name, -, -, -, apart⟩ := start_of_isWord word
  obtain ⟨tail, long, text⟩ : ∃ tail, fields.length < tail.length ∧
      fieldsText (f :: fields) trailing ++ [.char '\x7d'] =
        f.before.chars ++ (f.name.toList ++ (f.after.chars ++ .char ':' :: tail)) := by
    refine ⟨f.between.chars ++ (f.valueText ++ (f.behind.chars ++
      ((fields.map (·.shown)).flatMap (.char ',' :: ·) ++
        (closing trailing ++ [.char '\x7d'])))), ?_, ?_⟩
    · have more := Json.length_le_flatMap (fields.map (·.shown))
      rw [List.length_map] at more
      simp only [List.length_append, List.length_cons]
      omega
    · simp only [fieldsText, List.map_cons, Json.commas_eq, Field.shown, List.append_assoc,
        List.cons_append]
  have again : skipGap (f.name.toList ++ (f.after.chars ++ .char ':' :: tail)) =
      f.name.toList ++ (f.after.chars ++ .char ':' :: tail) := skipGap_word word .empty _
  have named := key_word word f.after tail
  obtain ⟨bound, length⟩ : ∃ bound,
      (f.name.toList ++ (f.after.chars ++ .char ':' :: tail)).length = bound + 1 :=
    Nat.exists_eq_add_one_of_ne_zero (by simp)
  -- The blanks in front are skipped here, and it makes no difference to the members.
  have same : members (value n) (bound + 1) (f.name.toList ++ (f.after.chars ++ .char ':' :: tail)) =
      some ((f :: fields).map (·.member), []) := by
    rw [← read (bound + 1)]
    · rw [text]
      simp only [members, skipGap_word word, again]
    · rw [← length]
      simp only [List.length_append, List.length_cons]
      omega
  unfold braces
  rw [text, skipGap_word word]
  split
  · next empty => simp at empty
  · next text => exact absurd (List.cons.inj (name ▸ text)).1 (apart _ (by decide))
  · next text => exact absurd (List.cons.inj (name ▸ text)).1 (apart _ (by decide))
  · simp (disch := decide) only [named, skipGap_cons, length, same, bind, Option.bind]
    rfl

theorem lenient?_of_fields {fields : List Field} (nonempty : fields ≠ [])
    (readable : ∀ f ∈ fields, f.IsReadable) (trailing : Option Text.Blanks) :
    lenient? (.char '\x7b' :: (fieldsText fields trailing ++ [.char '\x7d'])) =
      some (.object (fields.map (·.member))) := by
  have opening : skipGap (.char '\x7b' :: (fieldsText fields trailing ++ [.char '\x7d'])) =
      .char '\x7b' :: (fieldsText fields trailing ++ [.char '\x7d']) :=
    skipGap_cons (by decide) (by decide) _
  have read : value nestingLimit false
      (.char '\x7b' :: (fieldsText fields trailing ++ [.char '\x7d'])) =
        some (.object (fields.map (·.member)), []) := by
    rw [← braces_of_fields nonempty readable 489 trailing]
    rfl
  simp only [lenient?, opening, read, bind, Option.bind]
  rfl

theorem skipSpace_append (front : List CodePoint) {d : CodePoint}
    (solid : Json.Reader.isSpace d = false) (rest : List CodePoint) :
    ∃ e es, Json.Reader.skipSpace (front ++ d :: rest) = e :: es ∧ (e ∈ front ∨ e = d) := by
  unfold Json.Reader.skipSpace
  induction front with
  | nil => exact ⟨d, rest, by simp [solid], Or.inr rfl⟩
  | cons c front ih =>
    by_cases space : Json.Reader.isSpace c = true
    · obtain ⟨e, es, skipped, origin⟩ := ih
      refine ⟨e, es, ?_, origin.imp (List.mem_cons_of_mem c) id⟩
      rw [List.cons_append, List.dropWhile_cons_of_pos space, skipped]
    · refine ⟨c, front ++ d :: rest, ?_, Or.inl List.mem_cons_self⟩
      rw [List.cons_append, List.dropWhile_cons_of_neg space]

/-- No JSON member starts with a bare name, so a plain literal is never taken for JSON. -/
theorem document_of_fields {fields : List Field} (nonempty : fields ≠ [])
    (readable : ∀ f ∈ fields, f.IsReadable) (trailing : Option Text.Blanks) :
    ∃ fault, Json.Reader.document (.char '\x7b' :: (fieldsText fields trailing ++ [.char '\x7d'])) =
      .error fault ∧ fault.cause = .expectingName := by
  obtain ⟨f, fields, rfl⟩ := List.exists_cons_of_ne_nil nonempty
  obtain ⟨d, ds, name, -, -, -, apart⟩ :=
    start_of_isWord (readable f List.mem_cons_self).name
  have notSpace : Json.Reader.isSpace d = false := by
    simp [Json.Reader.isSpace, apart ' ' (by decide), apart '\t' (by decide), apart '\n' (by decide),
      apart '\r' (by decide)]
  obtain ⟨tail, text⟩ : ∃ tail, fieldsText (f :: fields) trailing ++ [.char '\x7d'] =
      f.before.chars ++ d :: tail := by
    simp only [fieldsText, List.map_cons, Json.commas_eq, Field.shown, List.append_assoc,
      List.cons_append, name]
    exact ⟨_, rfl⟩
  obtain ⟨e, es, skipped, first⟩ := skipSpace_append f.before.chars notSpace tail
  have other (q : CodePoint) (mark : isMark q = true) (solid : Text.isBlank q = false) : e ≠ q := by
    rcases first with blank | rfl
    · exact Text.Blanks.ne blank solid
    · exact apart q mark
  have read : Json.Reader.value Json.Reader.nestingLimit
      (.char '\x7b' :: (f.before.chars ++ d :: tail)) =
        .error ⟨.expectingName, (e :: es).length⟩ := by
    change Json.Reader.object (Json.Reader.value 989) _ = _
    rw [Json.Reader.object, skipped]
    simp [other '\x7d' (by decide) (by decide), other '"' (by decide) (by decide),
      Json.Reader.members, Json.Reader.refuse, bind, Except.bind]
  refine ⟨⟨.expectingName, (e :: es).length⟩, ?_, rfl⟩
  rw [text, Json.Reader.document, if_neg (by simp), Json.Reader.skipSpace_cons _ (by decide), read]
  rfl

theorem read?_of_fields {fields : List Field} (nonempty : fields ≠ [])
    (readable : ∀ f ∈ fields, f.IsReadable) (trailing : Option Text.Blanks) :
    read? (.char '\x7b' :: (fieldsText fields trailing ++ [.char '\x7d'])) =
      some (.object (fields.map (·.member))) := by
  obtain ⟨fault, refused, cause⟩ := document_of_fields nonempty readable trailing
  simp [read?, refused, cause, lenient?_of_fields nonempty readable trailing]

/-! ### Identifiers and spellings -/

def IsIdentifier (name : Text) : Prop :=
  ∃ c cs, name.toList = c :: cs ∧ c.isDigit = false ∧
    ∀ d ∈ c :: cs, d.isAlphanum = true ∨ d = '_' ∨ d = '$'

theorem IsIdentifier.isPlain {name : Text} (identifier : IsIdentifier name) :
    IsPlain name.toList := by
  obtain ⟨c, cs, text, -, letters⟩ := identifier
  rw [text]
  intro d member
  refine ⟨?_, ?_, ?_⟩
  all_goals
    rintro rfl
    exact absurd (letters _ member) (by decide)

theorem isWord_of_mem_spellings :
    ∀ p ∈ AbiType.spellings, AbiType.isTuple p.1 = false → isWord p.1.toList = true := by
  decide +kernel

theorem isWord_of_resolve? {type : Text} (known : (AbiType.resolve? type).isSome = true)
    (other : AbiType.isTuple type = false) : isWord type.toList = true := by
  rw [AbiType.resolve?_of_not_isTuple other] at known
  obtain ⟨t, named⟩ := Option.isSome_iff_exists.mp known
  exact isWord_of_mem_spellings (type, t) (AbiType.mem_spellings named) other

end ObjectLiteral

/-- A literal is read as the parameter it stands for, whatever blanks are around it and between its
tokens. In JSON the last members called `name` and `type` count, the others may be anything. -/
theorem Param.literals_are_read (front back : Text.Blanks) :
    (∀ (entries : List Json.Entry) (name type : Text),
      (∀ e ∈ entries, Json.Written 100 e.item.value e.item.text) →
      Json.lastValue? "name" entries = some (.str name) →
      Json.lastValue? "type" entries = some (.str type) →
      parse (Text.unquote (ObjectLiteral.braced front (Json.commas (entries.map (·.shown))) back)) =
        .named name type) ∧
    ∀ (f g : ObjectLiteral.Field) (trailing : Option Text.Blanks),
      f.name = "name" → f.isQuoted = true → ObjectLiteral.IsIdentifier f.value →
      g.name = "type" → (AbiType.resolve? g.value).isSome = true → AbiType.isTuple g.value = false →
      parse (Text.unquote (ObjectLiteral.braced front
        (ObjectLiteral.fieldsText [f, g] trailing) back)) = .named f.value g.value := by
  constructor
  · intro entries name type written named typed
    have nonempty : entries ≠ [] := by
      rintro rfl
      cases named
    have members (key : Text) :
        ((entries.map (·.member)).filter (·.1 = key)).getLast?.map (·.2) =
          Json.lastValue? key entries := by
      rw [List.filter_map, List.getLast?_map, Option.map_map]
      rfl
    have read := Json.Reader.document_of_entries nonempty (by decide) written
    refine parse_braced front back (v := .object (entries.map (·.member))) ?_ ?_
    · simp only [ObjectLiteral.read?, read]
    · exact ObjectLiteral.nameAndType_object ((members "name").trans named)
        ((members "type").trans typed)
  · intro f g trailing isName quoted identifier isType known other
    have word := ObjectLiteral.isWord_of_resolve? known other
    have readable : ∀ field ∈ [f, g], field.IsReadable := by
      simp only [List.forall_mem_cons, List.not_mem_nil, false_imp_iff, implies_true, and_true]
      constructor
      · exact ⟨by rw [isName]; decide, fun _ => identifier.isPlain, by simp [quoted]⟩
      · exact ⟨by rw [isType]; decide, fun _ => ObjectLiteral.isPlain_of_isWord word, fun _ => word⟩
    have read := ObjectLiteral.read?_of_fields (by simp) readable trailing
    refine parse_braced front back read ?_
    apply ObjectLiteral.nameAndType_object
    · simp [ObjectLiteral.Field.member, isName, isType]
    · simp [ObjectLiteral.Field.member, isName, isType]

namespace Clef

def space : Json.Gap where
  chars := [.char ' ']
  blank := by simp

/-- `name` with its second letter given by number. -/
def escapedName : Json.Spelling where
  string := "name"
  text := Text.toList "n\\u0061me"
  spells := by
    have byNumber : Json.Spells 'a' (Text.toList "\\u0061") :=
      .unit (show (Text.toList "0061").length = 4 from rfl) (by decide)
    have spelled := Json.SpellsAll.cons (.itself (c := 'n') (by decide)) (.cons byNumber
      (.cons (.itself (c := 'm') (by decide)) (.cons (.itself (c := 'e') (by decide)) .nil nofun)
        nofun) nofun) nofun
    simpa [Text.toList_ofString] using spelled

def numeral : Json.Numeral where
  isNegative := true
  whole := [.char '2']
  fraction := [.char '.', .char '5']
  exponent := [.char 'e', .char '3']
  isWhole := Or.inr ⟨by simp [Json.IsDigits], by decide⟩
  isFraction := Or.inr ⟨[.char '5'], by simp [Json.IsDigits], rfl⟩
  isExponent := Or.inr ⟨'e', [], [.char '3'], Or.inl rfl, by decide, by simp [Json.IsDigits], rfl⟩

def tags : List Json.Item :=
  [⟨.empty, numeral.value, numeral.text, .empty⟩, ⟨space, .arr [], Text.toList "[ ]", .empty⟩]

def textItem (value : Json.Spelling) : Json.Item where
  before := space
  value := .str value.string
  text := .char '"' :: (value.text ++ [.char '"'])
  after := .empty

def entries : List Json.Entry :=
  [⟨.empty, escapedName, .empty, textItem (.ofText "x" rfl)⟩,
    ⟨space, .ofText "tags" rfl, .empty,
      ⟨space, .arr (tags.map (·.value)),
        .char '[' :: (Json.commas (tags.map (·.shown)) ++ [.char ']']), .empty⟩⟩,
    ⟨space, .ofText "type" rfl, space, textItem (.ofText "u8" rfl)⟩,
    ⟨space, .ofText "name" rfl, .empty, textItem (.ofText "a\"𝄞" rfl)⟩]

theorem written : ∀ e ∈ entries, Json.Written 100 e.item.value e.item.text := by
  have inside : ∀ i ∈ tags, Json.Written 99 i.value i.text := by
    simp only [tags, List.forall_mem_cons, List.not_mem_nil, false_imp_iff, implies_true, and_true]
    exact ⟨.number 99 numeral (by decide), .emptyArr 98 space⟩
  simp only [entries, List.forall_mem_cons, List.not_mem_nil, false_imp_iff, implies_true, and_true]
  exact ⟨.str 100 _, .arr (by decide) inside, .str 100 _, .str 100 _⟩

def blank : Text.Blanks where
  chars := [.char '\u3000']
  blank := by simp [Text.isBlank]

def name : ObjectLiteral.Field where
  before := blank
  name := "name"
  after := .empty
  between := .empty
  value := "to"
  isQuoted := true
  behind := .empty

def type : ObjectLiteral.Field where
  before := blank
  name := "type"
  after := blank
  between := .empty
  value := "ABIDataTypes.ADDRESS"
  isQuoted := false
  behind := blank

end Clef

theorem Param.literals_of_clef :
    parse (Text.unquote ("\x7b\"n\\u0061me\": \"x\", \"tags\": [-2.5e3, [ ]], " ++
      "\"type\" : \"u8\", \"name\": \"a\\\"\\ud834\\udd1e\"\x7d\u3000")) = .named "a\"𝄞" "u8" ∧
    parse (Text.unquote
      "\x7b\u3000name:'to',\u3000type\u3000:ABIDataTypes.ADDRESS\u3000,\x7d\u3000") =
      .named "to" "ABIDataTypes.ADDRESS" := by
  obtain ⟨json, plain⟩ := literals_are_read .empty Clef.blank
  constructor
  · have text : ObjectLiteral.braced .empty (Json.commas (Clef.entries.map (·.shown))) Clef.blank =
        "\x7b\"n\\u0061me\": \"x\", \"tags\": [-2.5e3, [ ]], " ++
          "\"type\" : \"u8\", \"name\": \"a\\\"\\ud834\\udd1e\"\x7d\u3000" := by
      decide +kernel
    rw [← text]
    exact json Clef.entries "a\"𝄞" "u8" Clef.written (by decide) (by decide)
  · have text : ObjectLiteral.braced .empty
        (ObjectLiteral.fieldsText [Clef.name, Clef.type] (some .empty)) Clef.blank =
        "\x7b\u3000name:'to',\u3000type\u3000:ABIDataTypes.ADDRESS\u3000,\x7d\u3000" := by
      decide +kernel
    have identifier : ObjectLiteral.IsIdentifier "to" :=
      ⟨'t', [.char 'o'], by decide, by decide, by decide⟩
    rw [← text]
    exact plain Clef.name Clef.type (some .empty) rfl rfl identifier rfl (by decide) (by decide)

/-! ### Numbers that are too long -/

namespace ObjectLiteral

theorem isBlank_of_isDigit {c : CodePoint} (digit : c.isDigit = true) : Text.isBlank c = false := by
  cases c with
  | char c =>
    have between : 48 ≤ c.toNat ∧ c.toNat ≤ 57 := by
      simpa [Char.isDigit, UInt32.le_iff_toNat_le] using digit
    have inner : isInner c = true := by
      simp only [isInner, CodePoint.le_def, CodePoint.toNat_char]
      simp [between]
    exact isBlank_of_isInner inner
  | surrogate n => cases digit

/-- A number of too many digits is a text of its digits, unless it runs on. -/
theorem atom_overlong {digits : List CodePoint} (isDigits : Json.IsDigits digits)
    (long : Json.Reader.digitLimit < digits.length) (rest : List CodePoint)
    (apart : runsOn (.char ',' :: rest) = false) :
    atom false (digits ++ .char ',' :: rest) = (.str (Text.ofList digits), .char ',' :: rest) := by
  have apartFrom {c d : CodePoint} (member : d ∈ digits) (other : c.isDigit = false) : d ≠ c := by
    rintro rfl
    simp [isDigits.2 d member] at other
  have run : bareRun false 0 (digits ++ .char ',' :: rest) = (digits, .char ',' :: rest) :=
    bareRun_append (fun d member => ⟨apartFrom member (by decide), apartFrom member (by decide),
      apartFrom member (by decide), apartFrom member (by decide)⟩) (Or.inl rfl) rest
  have trimmed : Text.trimRight digits = digits := Text.trimRight_eq_self fun c ends =>
    isBlank_of_isDigit (isDigits.2 c (List.mem_of_getLast? ends))
  have whole : digits.dropWhile CodePoint.isDigit = [] := by simpa using isDigits.2
  have unsigned : digits.filter (· ≠ CodePoint.char '-') = digits := by
    rw [List.filter_eq_self]
    intro d member
    simpa using apartFrom member (c := '-') (by decide)
  obtain ⟨d, ds, rfl⟩ := List.exists_cons_of_ne_nil isDigits.1
  have digit : d.isDigit = true := isDigits.2 d List.mem_cons_self
  have notMinus : d ≠ '-' := apartFrom List.mem_cons_self (by decide)
  have notQuote : isQuote d = false := by
    simp [isQuote, apartFrom (c := '"') List.mem_cons_self (by decide),
      apartFrom (c := '\'') List.mem_cons_self (by decide)]
  have isNumber : isNumber (d :: ds) = true := by
    unfold isNumber
    simp [notMinus, whole, digit, Json.Reader.fraction, Json.Reader.exponent]
  have isLong : isLong (d :: ds) = true := by
    unfold isLong
    rw [unsigned, Bool.and_eq_true]
    exact ⟨List.all_eq_true.mpr isDigits.2, decide_eq_true long⟩
  rw [List.cons_append] at run ⊢
  simp only [atom, notQuote, Bool.false_eq_true, if_false, run, bareValue, trimmed]
  simp [isNumber, isLong, apart]

end ObjectLiteral

namespace Overlong

/-- What follows the number: another member with an escaped slash in its text, and a type. -/
def rest : List CodePoint :=
  Text.toList ",\"name\":\"a\\/b\",\"type\":\"u8\""

/-- The members of an object, the first of them a number of these digits. -/
def members (digits : List CodePoint) : List CodePoint :=
  .char '"' :: .char 'x' :: .char '"' :: .char ':' :: (digits ++ rest)

theorem members_closed (digits : List CodePoint) :
    members digits ++ [.char '\x7d'] =
      .char '"' :: .char 'x' :: .char '"' :: .char ':' :: (digits ++ (rest ++ [.char '\x7d'])) := by
  simp [members]

section

variable {digits : List CodePoint}

theorem document_members (isWhole : Json.IsWhole digits)
    (long : Json.Reader.digitLimit < digits.length) :
    Json.Reader.document (.char '\x7b' :: (members digits ++ [.char '\x7d'])) =
      Json.Reader.refuse .longNumber (digits ++ (rest ++ [.char '\x7d'])) := by
  let numeral : Json.Numeral := ⟨false, digits, [], [], isWhole, Or.inl rfl, Or.inl rfl⟩
  have isLong : numeral.isLong = true := decide_eq_true long
  have text : numeral.text = digits := List.append_nil digits
  obtain ⟨d, ds, front, digit⟩ := isWhole.head
  have number : Json.Reader.value 989 (digits ++ (rest ++ [.char '\x7d'])) =
      Json.Reader.refuse .longNumber (digits ++ (rest ++ [.char '\x7d'])) := by
    have read := Json.Reader.value_of_numeral numeral (c := ',') (by decide) 989
      (rest.tail ++ [.char '\x7d'])
    rw [isLong, if_pos rfl, text] at read
    exact read
  have start : Json.Reader.skipSpace (digits ++ (rest ++ [.char '\x7d'])) =
      digits ++ (rest ++ [.char '\x7d']) := by
    have solid : Json.Reader.isSpace d = false := by
      refine Bool.eq_false_iff.mpr fun space => ?_
      have ends := Json.Reader.ends_of_isDelimiter (c := d)
        (by simp [Json.Reader.isDelimiter, space])
      simp [digit] at ends
    rw [front]
    exact Json.Reader.skipSpace_cons _ solid
  have named : Json.Reader.string
      (.char 'x' :: .char '"' :: .char ':' :: (digits ++ (rest ++ [.char '\x7d']))) =
        .ok ("x", .char ':' :: (digits ++ (rest ++ [.char '\x7d']))) :=
    Json.Reader.string_of_spelling (.ofText "x" rfl) _
  have read (bound : Nat) : Json.Reader.members (Json.Reader.value 989) (bound + 1)
      (.char '"' :: .char 'x' :: .char '"' :: .char ':' :: (digits ++ (rest ++ [.char '\x7d']))) =
        Json.Reader.refuse .longNumber (digits ++ (rest ++ [.char '\x7d'])) := by
    rw [Json.Reader.members, named]
    simp (disch := decide) only [bind, Except.bind, Json.Reader.skipSpace_cons, start, number]
    rfl
  rw [members_closed]
  generalize digits ++ (rest ++ [.char '\x7d']) = value at read
  change ((Json.Reader.members (Json.Reader.value 989) (value.length + 4)
    (.char '"' :: .char 'x' :: .char '"' :: .char ':' :: value)).bind _).bind _ = _
  rw [read]
  rfl

theorem lenient?_members (isDigits : Json.IsDigits digits)
    (long : Json.Reader.digitLimit < digits.length) :
    ObjectLiteral.lenient? (.char '\x7b' :: (members digits ++ [.char '\x7d'])) =
      some (.object [("x", .str (Text.ofList digits)), ("name", .str "a\\/b"),
        ("type", .str "u8")]) := by
  have atom : ObjectLiteral.atom false (digits ++ (rest ++ [.char '\x7d'])) =
      (.str (Text.ofList digits), rest ++ [.char '\x7d']) := by
    have separated : rest ++ [.char '\x7d'] = .char ',' :: (rest.tail ++ [.char '\x7d']) := rfl
    rw [separated]
    exact ObjectLiteral.atom_overlong isDigits long _ (by decide)
  obtain ⟨d, ds, front⟩ := List.exists_cons_of_ne_nil isDigits.1
  have digit : d.isDigit = true := isDigits.2 d (by simp [front])
  have apart {c : CodePoint} (other : c.isDigit = false) : d ≠ c := by
    rintro rfl
    simp [digit] at other
  have item : ObjectLiteral.value 489 false
      (ObjectLiteral.skipGap (digits ++ (rest ++ [.char '\x7d']))) =
        some (.str (Text.ofList digits), rest ++ [.char '\x7d']) := by
    rw [← atom, front, List.cons_append,
      ObjectLiteral.skipGap_cons (ObjectLiteral.isBlank_of_isDigit digit) (apart (by decide)),
      ObjectLiteral.value_eq_atom (apart (by decide)) (apart (by decide))]
  have later (bound : Nat) : ObjectLiteral.members (ObjectLiteral.value 489) (bound + 3)
      (ObjectLiteral.skipSeparator (rest ++ [.char '\x7d'])) =
      some ([(("name" : Text), Json.str "a\\/b"), ("type", .str "u8")], []) := rfl
  rw [members_closed]
  generalize digits ++ (rest ++ [.char '\x7d']) = value at item
  have read (bound : Nat) : ObjectLiteral.members (ObjectLiteral.value 489) (bound + 4)
      (.char '"' :: .char 'x' :: .char '"' :: .char ':' :: value) =
        some ([(("x" : Text), Json.str (Text.ofList digits)), ("name", .str "a\\/b"), ("type", .str "u8")], []) := by
    change (ObjectLiteral.value 489 false (ObjectLiteral.skipGap value)).bind _ = _
    rw [item, Option.bind_some]
    dsimp only
    rw [later]
    rfl
  change ((ObjectLiteral.members (ObjectLiteral.value 489) (value.length + 4)
    (.char '"' :: .char 'x' :: .char '"' :: .char ':' :: value)).bind _).bind _ = _
  rw [read]
  rfl

theorem parse_members (isDigits : Json.IsDigits digits) (notZero : digits.head? ≠ some (.char '0'))
    (long : Json.Reader.digitLimit < digits.length) :
    Param.parse (Text.unquote (ObjectLiteral.braced .empty (members digits) .empty)) =
      .named "a\\/b" "u8" := by
  refine Param.parse_braced .empty .empty
    ((?_ : ObjectLiteral.read? _ = _).trans (lenient?_members isDigits long))
    (ObjectLiteral.nameAndType_object (by simp) (by simp))
  rw [ObjectLiteral.read?, document_members (Or.inr ⟨isDigits, notZero⟩) long]
  rfl

end

theorem isDigits_nines (n : Nat) : Json.IsDigits (List.replicate (n + 1) (.char '9')) := by
  refine ⟨by simp, fun c member => ?_⟩
  rw [List.eq_of_mem_replicate member]
  rfl

end Overlong

/-- JSON with a whole number of too many digits is read as if it were none, and then an escaped
slash stays as it is written. -/
theorem Param.long_number_keeps_escape :
    Json.SpellsAll (Text.toList "a/b") (Text.toList "a\\/b") ∧
      parse (Text.unquote (ObjectLiteral.braced .empty
        (Overlong.members (List.replicate 4301 (.char '9'))) .empty)) = .named "a\\/b" "u8" := by
  constructor
  · exact .cons (.itself (by decide)) (.cons (.short (by decide))
      (.cons (.itself (by decide)) .nil nofun) nofun) nofun
  · refine Overlong.parse_members (Overlong.isDigits_nines 4300) (by simp) ?_
    rw [List.length_replicate]
    decide

end ContractAbi
