import ContractAbi.Param

/-!
# Quoted texts as literals

A single-quoted literal of the generated code is read glyph by glyph: a glyph is a character as it is
or a character behind a backslash. `quote` escapes what would end the literal early, so every text is
read back from the glyphs. It leaves line breaks as they are, and a literal may not go over a line.
-/

namespace ContractAbi.Text

/-- What stands between the quotes of a literal. -/
inductive Glyph where
  | raw (c : CodePoint)
  /-- A character behind a backslash. -/
  | escaped (c : CodePoint)
deriving DecidableEq, Repr

namespace Glyph

/-- What a backslash makes an escape by number or a line continuation. -/
def escapesOtherwise : List CodePoint :=
  [.char 'x', .char 'u', .char '\n', .char '\r', .char '\u2028', .char '\u2029']

/-- The character that a backslash and `c` stand for, escapes by number and line continuations
apart. -/
def escape? (c : CodePoint) : Option CodePoint :=
  match c with
  | 'b' => some (.char '\x08')
  | 't' => some (.char '\t')
  | 'n' => some (.char '\n')
  | 'v' => some (.char '\x0b')
  | 'f' => some (.char '\x0c')
  | 'r' => some (.char '\r')
  | _ =>
    if c.isDigit ∨ c ∈ escapesOtherwise then none else some c

def value? : Glyph → Option CodePoint
  | raw c => some c
  | escaped c => escape? c

/-- Whether a literal goes on at this glyph: an unescaped quote ends it, and a line break breaks it
off. -/
def goesOn : Glyph → Bool
  | raw c => c ≠ '\'' ∧ c ≠ '\n' ∧ c ≠ '\r'
  | escaped _ => true

/-- Splits a text into glyphs. A backslash at the end escapes nothing. -/
def split? : List CodePoint → Option (List Glyph)
  | [] => some []
  | [.char '\\'] => none
  | .char '\\' :: c :: cs => (split? cs).map (escaped c :: ·)
  | c :: cs => (split? cs).map (raw c :: ·)

end Glyph

namespace Literal

/-- The glyphs between the two quotes of a text. -/
def glyphs? (text : Text) : Option (List Glyph) :=
  match text.toList with
  | .char '\'' :: rest =>
    if rest.getLast? = some (.char '\'') then Glyph.split? rest.dropLast else none
  | _ => none

/-- The text that a single-quoted literal stands for. -/
def read? (text : Text) : Option Text := do
  let glyphs ← glyphs? text
  if glyphs.all Glyph.goesOn then return Text.ofList (← glyphs.mapM Glyph.value?) else none

end Literal

/-- How `quote` writes a character. -/
def glyphOf (c : CodePoint) : Glyph :=
  if c = '\\' ∨ c = '\'' then .escaped c else .raw c

theorem split?_escapeQuoted (cs : List CodePoint) :
    Glyph.split? (escapeQuoted cs) = some (cs.map glyphOf) := by
  induction cs with
  | nil => rfl
  | cons c cs ih =>
    unfold escapeQuoted glyphOf
    split
    · next special =>
      rw [Glyph.split?, ih, List.map_cons, if_pos special]
      rfl
    · next plain =>
      have front : Glyph.split? (c :: escapeQuoted cs) =
          (Glyph.split? (escapeQuoted cs)).map (.raw c :: ·) := by
        rw [Glyph.split?]
        all_goals simp_all
      rw [front, ih, List.map_cons, if_neg plain]
      rfl

theorem glyphs?_quote (v : Text) :
    Literal.glyphs? (quote v) = some (v.toList.map glyphOf) := by
  simp [Literal.glyphs?, quote, split?_escapeQuoted]

theorem value?_glyphOf (c : CodePoint) : (glyphOf c).value? = some c := by
  unfold glyphOf
  split
  · next special => rcases special with rfl | rfl <;> rfl
  · rfl

theorem mapM_value?_glyphOf (cs : List CodePoint) :
    (cs.map glyphOf).mapM Glyph.value? = some cs := by
  induction cs with
  | nil => rfl
  | cons c cs ih => simp [List.mapM_cons, value?_glyphOf, ih]

theorem goesOn_glyphOf (c : CodePoint) : (glyphOf c).goesOn = true ↔ c ≠ '\n' ∧ c ≠ '\r' := by
  unfold glyphOf
  split
  · next special => rcases special with rfl | rfl <;> decide
  · next plain => simp_all [Glyph.goesOn]

theorem all_goesOn (cs : List CodePoint) :
    (cs.map glyphOf).all Glyph.goesOn = true ↔ .char '\n' ∉ cs ∧ .char '\r' ∉ cs := by
  simp only [List.all_map, List.all_eq_true, Function.comp_apply, goesOn_glyphOf]
  constructor
  · intro each
    exact ⟨fun member => (each _ member).1 rfl, fun member => (each _ member).2 rfl⟩
  · rintro ⟨feed, back⟩ c member
    exact ⟨fun same => feed (same ▸ member), fun same => back (same ▸ member)⟩

/-- A quoted text stands between quotes with every quote inside escaped, and its escapes give the
text back. It is a literal if and only if the text has no line break. -/
theorem quote_is_literal_iff (v : Text) :
    (∃ glyphs, Literal.glyphs? (quote v) = some glyphs ∧ .raw '\'' ∉ glyphs ∧
      glyphs.mapM Glyph.value? = some v.toList) ∧
    Literal.read? (quote v) =
      if .char '\n' ∉ v.toList ∧ .char '\r' ∉ v.toList then some v else none := by
  refine ⟨⟨_, glyphs?_quote v, ?_, mapM_value?_glyphOf v.toList⟩, ?_⟩
  · intro member
    obtain ⟨c, -, same⟩ := List.mem_map.mp member
    unfold glyphOf at same
    split at same
    · cases same
    · next plain =>
      cases same
      exact plain (Or.inr rfl)
  · simp only [Literal.read?, glyphs?_quote, Option.bind_eq_bind, Option.bind_some,
      mapM_value?_glyphOf, all_goesOn]
    split <;> simp

/-- A parameter may have a name over two lines. -/
theorem broken_name_is_no_literal :
    Param.parse "\x7b\"name\": \"first\\nlast\", \"type\": \"u8\"\x7d" = .named "first\nlast" "u8" ∧
      Literal.read? (quote "first\nlast") = none := by
  decide +kernel

end ContractAbi.Text
