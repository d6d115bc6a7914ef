import ContractAbi.Json.Writer
import ContractAbi.Manifest.Basic
import ContractAbi.Proofs.Grammar
import Mathlib.Data.List.Forall2

/-!
# Reading what is written

What the writer makes of a value without numbers and surrogates is one of the texts of that value
(`Fits.written`), and the writer uses ASCII only (`isAscii_value`). So a manifest can be read back,
and its text determines all that it publishes.
-/

namespace ContractAbi

namespace Json

/-! ### Strings -/

theorem Spells.of_escapeChar (c : CodePoint) : Spells c (Writer.escapeChar c) := by
  have bound := c.toNat_lt
  unfold Writer.escapeChar Writer.escapeUnit
  dsimp only
  iterate 7
    split
    · next same =>
      rw [same]
      exact .short (by decide)
  split
  · next printed => exact .plain printed.1 (by assumption) (by assumption)
  · split
    · next small =>
      exact .unit (Text.length_hexDigits_four small) (Text.hexValue?_hexDigits 4 c.toNat)
    · rw [List.cons_append, List.cons_append]
      exact .pair (by omega) (Text.length_hexDigits_four (by omega)) (Text.hexValue?_hexDigits 4 _)
        (Text.length_hexDigits_four (by omega)) (Text.hexValue?_hexDigits 4 _)

theorem isHighSurrogate_char (c : Char) :
    Reader.isHighSurrogate (CodePoint.char c).toNat = false := by
  have valid := CodePoint.toNat_char_cases c
  rw [CodePoint.toNat_char, Reader.isHighSurrogate, Bool.and_eq_false_iff, decide_eq_false_iff_not,
    decide_eq_false_iff_not]
  omega

theorem spellsAll_escaped {cs : List CodePoint} (chars : ∀ c ∈ cs, ∃ a, c = .char a) :
    SpellsAll cs (cs.flatMap Writer.escapeChar) := by
  induction cs with
  | nil => exact .nil
  | cons c cs ih =>
    rw [List.forall_mem_cons] at chars
    refine .cons (.of_escapeChar c) (ih chars.2) fun high => ?_
    obtain ⟨a, rfl⟩ := chars.1
    rw [isHighSurrogate_char] at high
    cases high

/-- The text that the writer gives a string. -/
def Spelling.ofText (s : Text) (encodable : s.isEncodable = true) : Spelling where
  string := s
  text := s.toList.flatMap Writer.escapeChar
  spells := spellsAll_escaped fun _ => Text.exists_char_of_isEncodable encodable

/-! ### Values -/

/-- Values without numbers and surrogates, in which no object repeats a key, with at most so many
arrays and objects around any part. -/
inductive Fits : Nat → Json → Prop where
  | null (depth : Nat) : Fits depth null
  | bool (depth : Nat) (b : Bool) : Fits depth (bool b)
  | str (depth : Nat) {s : Text} (encodable : s.isEncodable = true) : Fits depth (str s)
  | arr {depth : Nat} {items : List Json} (each : ∀ item ∈ items, Fits depth item) :
    Fits (depth + 1) (arr items)
  | obj {depth : Nat} {members : List (Text × Json)} (distinct : (members.map (·.1)).Nodup)
      (keys : ∀ m ∈ members, m.1.isEncodable = true) (each : ∀ m ∈ members, Fits depth m.2) :
    Fits (depth + 1) (obj members)

def Gap.newline (depth : Nat) : Gap where
  chars := Writer.newline depth
  blank := by simp [Writer.newline]

/-- The last item of an array ends with the line of the closing bracket. -/
theorem exists_items (depth : Nat) (closing : Gap) (v : Json) (vs : List Json) :
    ∃ items : List Item, items.map (·.value) = v :: vs ∧
      (∀ i ∈ items, i.text = Writer.value depth i.value) ∧
      commas (items.map (·.shown)) = Writer.newline depth ++ (Writer.value depth v ++
        (Writer.moreItems depth vs ++ closing.chars)) := by
  induction vs generalizing v with
  | nil =>
    refine ⟨[⟨.newline depth, v, Writer.value depth v, closing⟩], rfl, by simp, ?_⟩
    rw [List.map_singleton, commas_singleton]
    rfl
  | cons next vs ih =>
    obtain ⟨items, values, texts, shown⟩ := ih next
    refine ⟨⟨.newline depth, v, Writer.value depth v, .empty⟩ :: items, by simp [values],
      List.forall_mem_cons.mpr ⟨rfl, texts⟩, ?_⟩
    cases items with
    | nil => cases values
    | cons i items =>
      rw [List.map_cons, List.map_cons, commas_cons, ← List.map_cons, shown]
      simp [Item.shown, Gap.newline, Gap.empty, Writer.moreItems]

theorem exists_entries (depth : Nat) (closing : Gap) {m : Text × Json} {ms : List (Text × Json)}
    (keys : ∀ p ∈ m :: ms, p.1.isEncodable = true) :
    ∃ entries : List Entry, entries.map (·.member) = m :: ms ∧
      (∀ e ∈ entries, e.item.text = Writer.value depth e.item.value) ∧
      commas (entries.map (·.shown)) = Writer.newline depth ++ (Writer.string m.1 ++
        (.char ':' :: .char ' ' ::
          (Writer.value depth m.2 ++ (Writer.moreMembers depth ms ++ closing.chars)))) := by
  have entry (m : Text × Json) (key : m.1.isEncodable = true) (after : Gap) :
      ∃ e : Entry, e.member = m ∧ e.item.text = Writer.value depth e.item.value ∧
      e.shown = Writer.newline depth ++ (Writer.string m.1 ++ (.char ':' :: .char ' ' ::
        (Writer.value depth m.2 ++ after.chars))) := by
    refine ⟨⟨.newline depth, .ofText m.1 key, .empty,
      ⟨⟨[.char ' '], by simp⟩, m.2, Writer.value depth m.2, after⟩⟩, rfl, rfl, ?_⟩
    simp [Entry.shown, Item.shown, Gap.newline, Gap.empty, Spelling.ofText, Writer.string]
  induction ms generalizing m with
  | nil =>
    obtain ⟨e, member, text, shown⟩ := entry m (keys m List.mem_cons_self) closing
    refine ⟨[e], by simp [member], by simp [text], ?_⟩
    rw [List.map_singleton, commas_singleton, shown]
    rfl
  | cons next ms ih =>
    obtain ⟨e, member, text, first⟩ := entry m (keys m List.mem_cons_self) .empty
    obtain ⟨entries, members, texts, shown⟩ := ih fun p later => keys p (List.mem_cons_of_mem m later)
    refine ⟨e :: entries, by simp [member, members], List.forall_mem_cons.mpr ⟨text, texts⟩, ?_⟩
    cases entries with
    | nil => cases members
    | cons e' entries =>
      rw [List.map_cons, List.map_cons, commas_cons, ← List.map_cons, shown, first]
      simp [Gap.empty, Writer.moreMembers]

theorem Fits.written {n : Nat} {v : Json} (fits : v.Fits n) (depth : Nat) :
    Written n v (Writer.value depth v) := by
  induction fits generalizing depth with
  | null n => exact .null n
  | bool n b => cases b <;> exact .bool n _
  | str n encodable => exact .str n (.ofText _ encodable)
  | @arr n items each ih =>
    cases items with
    | nil => exact .emptyArr n .empty
    | cons v vs =>
      obtain ⟨items, values, texts, shown⟩ := exists_items (depth + 1) (.newline depth) v vs
      have each : ∀ i ∈ items, Written n i.value i.text := fun i member => by
        rw [texts i member]
        exact ih i.value (values ▸ List.mem_map_of_mem member) (depth + 1)
      have written := Written.arr (by rintro rfl; cases values) each
      rw [values, shown] at written
      simpa [Writer.value, Gap.newline] using written
  | @obj n members distinct keys each ih =>
    cases members with
    | nil => exact .emptyObj n .empty
    | cons m ms =>
      obtain ⟨entries, members, texts, shown⟩ :=
        exists_entries (depth + 1) (.newline depth) keys
      have each : ∀ e ∈ entries, Written n e.item.value e.item.text := fun e member => by
        rw [texts e member]
        exact ih e.member (members ▸ List.mem_map_of_mem member) (depth + 1)
      have written := Written.obj (by rintro rfl; cases members) each
      rw [members, shown, Json.object, Table.entries_ofPairs distinct] at written
      simpa [Writer.value, Gap.newline] using written

end Json

/-! ### ASCII -/

def IsAscii (cs : List CodePoint) : Prop :=
  ∀ c ∈ cs, c.toNat < 0x80

@[simp]
theorem isAscii_nil : IsAscii [] :=
  List.forall_mem_nil _

@[simp]
theorem isAscii_append {cs ds : List CodePoint} : IsAscii (cs ++ ds) ↔ IsAscii cs ∧ IsAscii ds :=
  List.forall_mem_append

@[simp]
theorem isAscii_cons {c : CodePoint} {cs : List CodePoint} :
    IsAscii (c :: cs) ↔ c.toNat < 0x80 ∧ IsAscii cs :=
  List.forall_mem_cons

namespace Json.Writer

@[simp]
theorem isAscii_escapeUnit (n : Nat) : IsAscii (escapeUnit n) := by
  have digits : IsAscii (Text.hexDigits 4 n) := by
    intro c member
    have hex := Text.isHexDigit_of_mem_hexDigits member
    refine Nat.lt_of_not_le fun large => ?_
    have beyond (d : CodePoint) (small : d.toNat < 0x80) : ¬ c ≤ d := by
      change ¬ c.toNat ≤ d.toNat
      omega
    simp [Text.isHexDigit, Text.hexDigit?, beyond '9' (by decide), beyond 'f' (by decide),
      beyond 'F' (by decide)] at hex
  simp [escapeUnit, digits]

theorem isAscii_escapeChar (c : CodePoint) : IsAscii (escapeChar c) := by
  unfold escapeChar
  dsimp only
  iterate 7
    split
    · simp
  split
  · next printed => simpa using Nat.lt_of_le_of_lt printed.2 (by decide)
  · split <;> simp

@[simp]
theorem isAscii_newline (depth : Nat) : IsAscii (newline depth) := by
  simp [IsAscii, newline]

@[simp]
theorem isAscii_string (s : Text) : IsAscii (string s) := by
  have escaped : IsAscii (s.toList.flatMap escapeChar) := fun c member => by
    obtain ⟨d, -, inside⟩ := List.mem_flatMap.mp member
    exact isAscii_escapeChar d c inside
  simp [string, escaped]

theorem isAscii_moreItems {depth : Nat} {items : List Json}
    (each : ∀ item ∈ items, IsAscii (value depth item)) : IsAscii (moreItems depth items) := by
  induction items with
  | nil => simp [moreItems]
  | cons item items ih =>
    rw [List.forall_mem_cons] at each
    simp [moreItems, each.1, ih each.2]

theorem isAscii_moreMembers {depth : Nat} {members : List (Text × Json)}
    (each : ∀ m ∈ members, IsAscii (value depth m.2)) : IsAscii (moreMembers depth members) := by
  induction members with
  | nil => simp [moreMembers]
  | cons m members ih =>
    rw [List.forall_mem_cons] at each
    simp [moreMembers, each.1, ih each.2]

theorem isAscii_value {n : Nat} {v : Json} (fits : v.Fits n) (depth : Nat) :
    IsAscii (value depth v) := by
  induction fits generalizing depth with
  | null => simp [value, Text.toList_ofString]
  | bool _ b => cases b <;> simp [value, Text.toList_ofString]
  | @str _ s _ => exact isAscii_string s
  | @arr n items each ih =>
    cases items with
    | nil => simp [value]
    | cons item items =>
      rw [List.forall_mem_cons] at ih
      have more := isAscii_moreItems fun v member => ih.2 v member (depth + 1)
      simp [value, ih.1 (depth + 1), more]
  | @obj n members distinct keys each ih =>
    cases members with
    | nil => simp [value]
    | cons m members =>
      rw [List.forall_mem_cons] at ih
      have more := isAscii_moreMembers fun p member => ih.2 p member (depth + 1)
      simp [value, ih.1 (depth + 1), more]

end Json.Writer

theorem Json.parse_render {v : Json} (fits : v.Fits Reader.nestingLimit) :
    parse (v.render ++ "\n") = .ok v := by
  have text : (v.render ++ "\n").toList = Writer.value 0 v ++ [.char '\n'] := by
    simp [render, Text.toList_ofString]
  have written := fits.written 0
  have head : (Writer.value 0 v ++ [CodePoint.char '\n']).head? ≠ some (.char '\ufeff') := by
    obtain ⟨c, cs, start, -⟩ := written.solid
    have ascii : c.toNat < 0x80 := Writer.isAscii_value fits 0 c (by simp [start])
    simp only [start, List.cons_append, List.head?_cons, ne_eq, Option.some_inj]
    rintro rfl
    exact absurd ascii (by decide)
  have solid : Reader.skipSpace (Writer.value 0 v ++ [.char '\n']) =
      Writer.value 0 v ++ [.char '\n'] :=
    written.solid.skipSpace_gap .empty [.char '\n']
  simp only [parse, text, Reader.document, head, if_false, solid,
    Reader.value_of_written written (Nat.le_refl _) '\n' [] (by decide), bind, Except.bind, pure,
    Except.pure]
  rfl

/-! ### Manifests -/

/-- Whether the name is a text that can be encoded. -/
def Json.isEncodable (name : Name) : Bool :=
  name.text?.any Text.isEncodable

def FunctionEntry.names (f : FunctionEntry) : List Name :=
  f.name :: (f.inputs.map (·.name) ++ f.outputs.map (·.name))

def EventEntry.names (e : EventEntry) : List Name :=
  e.name :: e.values.map (·.name)

/-- All names in a manifest. -/
def Abi.names (abi : Abi) : List Name :=
  abi.functions.flatMap FunctionEntry.names ++ abi.events.flatMap EventEntry.names

theorem Json.Fits.of_isEncodable {name : Name} (encodable : name.isEncodable = true) (n : Nat) :
    name.Fits n := by
  cases name with
  | str s => exact .str n encodable
  | _ => cases encodable

theorem AbiParam.fits_all {ps : List AbiParam}
    (encodable : ∀ name ∈ ps.map (·.name), name.isEncodable = true) (n : Nat) :
    (Json.arr (ps.map toJson)).Fits (n + 2) := by
  rw [List.forall_mem_map] at encodable
  refine .arr (List.forall_mem_map.mpr fun p member => .obj (by simp) ?_ ?_)
  · simp only [List.forall_mem_cons]
    decide
  · have tag : p.type.tag.isEncodable = true := by cases p.type <;> decide
    simp [Json.Fits.of_isEncodable (encodable p member), Json.Fits.str _ tag]

theorem FunctionEntry.fits {f : FunctionEntry}
    (encodable : ∀ name ∈ f.names, name.isEncodable = true) (n : Nat) : f.toJson.Fits (n + 3) := by
  rw [names, List.forall_mem_cons, List.forall_mem_append] at encodable
  obtain ⟨name, inputs, outputs⟩ := encodable
  have kind : f.kind.isEncodable = true := by
    unfold kind
    cases f.isView <;> decide
  refine .obj (by simp) ?_ ?_
  · simp only [List.forall_mem_cons]
    decide
  · simp [Json.Fits.of_isEncodable name, Json.Fits.str _ kind, Json.Fits.bool,
      AbiParam.fits_all inputs n, AbiParam.fits_all outputs n]

theorem EventEntry.fits {e : EventEntry}
    (encodable : ∀ name ∈ e.names, name.isEncodable = true) (n : Nat) : e.toJson.Fits (n + 3) := by
  rw [names, List.forall_mem_cons] at encodable
  have kind : (Json.str "Event").Fits (n + 2) := .str _ (by decide)
  refine .obj (by simp) ?_ ?_
  · simp only [List.forall_mem_cons]
    decide
  · simp [Json.Fits.of_isEncodable encodable.1, kind, AbiParam.fits_all encodable.2 n]

theorem Abi.fits {abi : Abi} (encodable : ∀ name ∈ abi.names, name.isEncodable = true) (n : Nat) :
    abi.toJson.Fits (n + 5) := by
  rw [names, List.forall_mem_append] at encodable
  simp only [List.forall_mem_flatMap] at encodable
  have functions : (Json.arr (abi.functions.map FunctionEntry.toJson)).Fits (n + 4) :=
    .arr (List.forall_mem_map.mpr fun f member => FunctionEntry.fits (encodable.1 f member) n)
  have events : (Json.arr (abi.events.map EventEntry.toJson)).Fits (n + 4) :=
    .arr (List.forall_mem_map.mpr fun e member => EventEntry.fits (encodable.2 e member) n)
  refine .obj (by simp) ?_ (by simp [functions, events])
  simp only [List.forall_mem_cons]
  decide

theorem AbiParam.toJson_injective : Function.Injective AbiParam.toJson := by
  rintro ⟨name, type⟩ ⟨name', type'⟩ same
  simpa [toJson, AbiType.tag_inj] using same

theorem EventEntry.toJson_injective : Function.Injective EventEntry.toJson := by
  rintro ⟨name, values⟩ ⟨name', values'⟩ same
  simpa [toJson, AbiParam.toJson_injective.list_map.eq_iff] using same

/-- Name, view, payable, owner only, inputs and outputs. -/
def FunctionEntry.published (f : FunctionEntry) :
    Name × Bool × Bool × Bool × List AbiParam × List AbiParam :=
  (f.name, f.isView, f.isPayable, f.isOwnerOnly, f.inputs, f.outputs)

theorem FunctionEntry.published_of_toJson {f g : FunctionEntry} (same : f.toJson = g.toJson) :
    f.published = g.published := by
  have view : f.kind = g.kind ↔ f.isView = g.isView := by
    unfold kind
    cases f.isView <;> cases g.isView <;> decide
  simpa [toJson, published, view, AbiParam.toJson_injective.list_map.eq_iff] using same

namespace Abi

theorem published_of_toJson {a b : Abi} (same : a.toJson = b.toJson) :
    a.functions.map FunctionEntry.published = b.functions.map FunctionEntry.published ∧
      a.events = b.events := by
  simp only [toJson, Json.obj.injEq, List.cons.injEq, Prod.mk.injEq, Json.arr.injEq, true_and,
    and_true] at same
  obtain ⟨functions, events⟩ := same
  refine ⟨?_, EventEntry.toJson_injective.list_map events⟩
  rw [← List.forall₂_eq_eq_eq, List.forall₂_map_left_iff, List.forall₂_map_right_iff] at functions ⊢
  exact functions.imp fun f g => FunctionEntry.published_of_toJson

theorem parse_manifest {abi : Abi} (encodable : ∀ name ∈ abi.names, name.isEncodable = true) :
    Json.parse abi.manifest = .ok abi.toJson :=
  Json.parse_render (abi.fits encodable 985)

/-- A manifest is ASCII and reads back as the value it was made of. Two manifests of one text publish
the same functions and events in the same order. -/
theorem manifest_reads_back {abi : Abi}
    (encodable : ∀ name ∈ abi.names, name.isEncodable = true) :
    IsAscii abi.manifest.toList ∧ Json.parse abi.manifest = .ok abi.toJson ∧
      ∀ other : Abi, (∀ name ∈ other.names, name.isEncodable = true) →
        other.manifest = abi.manifest →
        other.functions.map FunctionEntry.published = abi.functions.map FunctionEntry.published ∧
          other.events = abi.events := by
  refine ⟨?_, parse_manifest encodable, fun other encodable' same => ?_⟩
  · have written := Json.Writer.isAscii_value (abi.fits encodable 985) 0
    simpa [manifest, Json.render, Text.toList_ofString] using written
  · have parsed := parse_manifest encodable'
    rw [same, parse_manifest encodable] at parsed
    exact published_of_toJson (Except.ok.inj parsed).symm

/-- Names with quotes, a line break, a control character and characters of one and of two units. -/
def songbook : Abi where
  functions := [{
    name := .str "play \"𝄞\"\n", isView := true, isPayable := false, isOwnerOnly := true
    inputs := [⟨.str "é\\\x7f\x01", .uint256⟩], outputs := []
    call := ⟨"play(uint256)", "d99b1f05"⟩, declared := .str "play", emits := [] }]
  events := [⟨.str "Played", [⟨.str "\t", .addressAmounts⟩]⟩]

theorem manifest_of_songbook :
    IsAscii songbook.manifest.toList ∧ Json.parse songbook.manifest = .ok songbook.toJson ∧
      ∃ other : Abi, other ≠ songbook ∧ other.manifest = songbook.manifest ∧
        other.functions.map FunctionEntry.published =
          songbook.functions.map FunctionEntry.published ∧ other.events = songbook.events := by
  obtain ⟨ascii, read, lossless⟩ := manifest_reads_back
    (show ∀ name ∈ songbook.names, name.isEncodable = true by decide)
  -- Which events a function may emit is not published.
  let other : Abi := { songbook with
    functions := songbook.functions.map fun f => { f with emits := ["Played"] } }
  have same : other.manifest = songbook.manifest := rfl
  refine ⟨ascii, read, other, ?_, same, lossless other (by decide) same⟩
  intro equal
  have emits := congrArg (fun abi => abi.functions.map (·.emits)) equal
  exact absurd emits (by decide)

end Abi

end ContractAbi
