import ContractAbi.Proofs.Tuples
import Mathlib.Data.List.DropRight

/-!
# Blanks around a text

Trimming takes the blanks off both ends of a text and nothing else (`trim_eq_iff`). The members of a
tuple may therefore be written with any blanks around them: they are read back trimmed, in their
order (`tupleMembers_written`).
-/

namespace ContractAbi

namespace Text

structure Blanks where
  chars : List CodePoint
  blank : ∀ c ∈ chars, isBlank c = true

def Blanks.empty : Blanks where
  chars := []
  blank := by simp

theorem Blanks.ne {gap : Blanks} {c d : CodePoint} (member : d ∈ gap.chars)
    (solid : isBlank c = false) :
    d ≠ c := by
  rintro rfl
  simp [gap.blank d member] at solid

/-! ### What trimming removes -/

theorem trimRight_eq_rdropWhile (cs : List CodePoint) : trimRight cs = cs.rdropWhile isBlank :=
  rfl

theorem trimRight_blanks (cs : List CodePoint) (back : Blanks) :
    trimRight (cs ++ back.chars) = trimRight cs := by
  rw [trimRight, List.reverse_append, List.dropWhile_append_of_pos (by simpa using back.blank)]
  rfl

theorem exists_blanks_after (cs : List CodePoint) :
    ∃ back : Blanks, cs = trimRight cs ++ back.chars := by
  refine ⟨⟨cs.rtakeWhile isBlank, fun c => List.mem_rtakeWhile_imp⟩, ?_⟩
  rw [trimRight_eq_rdropWhile, List.rdropWhile_append_rtakeWhile]

theorem trimChars_blanks (front back : Blanks) (cs : List CodePoint) :
    trimChars (front.chars ++ (cs ++ back.chars)) = trimChars cs := by
  have none : back.chars.dropWhile isBlank = [] := List.dropWhile_eq_nil_iff.mpr back.blank
  unfold trimChars
  rw [List.dropWhile_append_of_pos front.blank, List.dropWhile_append]
  split
  · -- Where the text is all blank, what stands behind it is dropped from the front.
    rename_i blank
    rw [none, List.isEmpty_iff.mp blank]
  · exact trimRight_blanks _ back

theorem exists_blanks_around (cs : List CodePoint) :
    ∃ front back : Blanks, cs = front.chars ++ (trimChars cs ++ back.chars) := by
  obtain ⟨back, behind⟩ := exists_blanks_after (cs.dropWhile isBlank)
  refine ⟨⟨cs.takeWhile isBlank, fun c => List.mem_takeWhile_imp⟩, back, ?_⟩
  rw [trimChars, ← behind, List.takeWhile_append_dropWhile]

theorem mem_of_mem_trimChars {cs : List CodePoint} {c : CodePoint} (member : c ∈ trimChars cs) :
    c ∈ cs := by
  obtain ⟨front, back, whole⟩ := exists_blanks_around cs
  rw [whole]
  exact List.mem_append_right _ (List.mem_append_left _ member)

/-! ### What remains -/

/-- No blank stands at either end. -/
structure IsTrimmed (cs : List CodePoint) : Prop where
  first : ∀ c ∈ cs.head?, isBlank c = false
  last : ∀ c ∈ cs.getLast?, isBlank c = false

theorem trimRight_eq_self {cs : List CodePoint} (last : ∀ c ∈ cs.getLast?, isBlank c = false) :
    trimRight cs = cs := by
  rw [trimRight_eq_rdropWhile, List.rdropWhile_eq_self_iff]
  intro given
  simp [last _ (List.getLast?_eq_some_getLast given)]

theorem trimChars_eq_self {cs : List CodePoint} (trimmed : IsTrimmed cs) : trimChars cs = cs := by
  have front : cs.dropWhile isBlank = cs := by
    cases cs with
    | nil => rfl
    | cons c cs => exact List.dropWhile_cons_of_neg (by simp [trimmed.first c rfl])
  rw [trimChars, front, trimRight_eq_self trimmed.last]

theorem isTrimmed_trimChars (cs : List CodePoint) : IsTrimmed (trimChars cs) := by
  constructor
  · intro c starts
    -- Trimming the other end leaves the first character where it is.
    obtain ⟨back, behind⟩ := exists_blanks_after (cs.dropWhile isBlank)
    have first : (cs.dropWhile isBlank).head? = some c := by
      rw [behind, List.head?_append]
      exact Option.or_eq_some_iff.mpr (Or.inl starts)
    have solid := List.head?_dropWhile_not isBlank cs
    rwa [first] at solid
  · intro c ends
    obtain ⟨given, rfl⟩ := List.mem_getLast?_eq_getLast ends
    exact Bool.eq_false_iff.mpr (List.rdropWhile_last_not isBlank _ given)

/-- A text with blanks around it. -/
structure Padded where
  before : Blanks
  text : Text
  after : Blanks

def Padded.written (p : Padded) : Text :=
  Text.ofList (p.before.chars ++ (p.text.toList ++ p.after.chars))

theorem trim_written (p : Padded) : trim p.written = trim p.text := by
  rw [trim, Padded.written, Text.toList_ofList, trimChars_blanks, trim]

theorem trim_eq_iff {s core : Text} :
    trim s = core ↔ IsTrimmed core.toList ∧ ∃ p : Padded, p.text = core ∧ p.written = s := by
  constructor
  · rintro rfl
    obtain ⟨front, back, whole⟩ := exists_blanks_around s.toList
    refine ⟨?_, ⟨front, trim s, back⟩, rfl, ?_⟩
    · rw [trim, Text.toList_ofList]
      exact isTrimmed_trimChars s.toList
    · rw [Padded.written, trim, Text.toList_ofList, ← whole, Text.ofList_toList]
  · rintro ⟨trimmed, p, rfl, rfl⟩
    rw [trim_written, trim, trimChars_eq_self trimmed, Text.ofList_toList]

/-! ### Pieces between separators -/

theorem not_mem_of_mem_splitOn {cs piece : List CodePoint} {c : CodePoint}
    (member : piece ∈ cs.splitOn c) :
    c ∉ piece := by
  unfold List.splitOn at member
  induction cs generalizing piece with
  | nil =>
    obtain rfl : piece = [] := by simpa using member
    exact List.not_mem_nil
  | cons d cs ih =>
    rw [List.splitOnP_cons_eq_if_modifyHead] at member
    split at member
    · rcases List.mem_cons.mp member with rfl | later
      · exact List.not_mem_nil
      · exact ih later
    · rename_i other
      -- The first piece of the rest gains a character that is not the separator.
      obtain ⟨first, rest, split⟩ := List.exists_cons_of_ne_nil (List.splitOnP_ne_nil (· == c) cs)
      rw [split, List.modifyHead_cons] at member
      rw [split] at ih
      rcases List.mem_cons.mp member with rfl | later
      · have different : c ≠ d := by
          rintro rfl
          simp at other
        simp [different, ih List.mem_cons_self]
      · exact ih (List.mem_cons_of_mem _ later)

end Text

/-! ### Members of a tuple -/

namespace AbiType

/-- Nothing in the text divides it into members or ends the tuple. -/
def IsMemberText (text : Text) : Prop :=
  ∀ c ∈ text.toList, c ≠ ',' ∧ c ≠ '(' ∧ c ≠ ')'

theorem isMemberText_written {m : Text.Padded} (single : IsMemberText m.text) :
    IsMemberText m.written := by
  have apart (gap : Text.Blanks) : ∀ c ∈ gap.chars, c ≠ ',' ∧ c ≠ '(' ∧ c ≠ ')' :=
    fun c member => ⟨Text.Blanks.ne member (by decide), Text.Blanks.ne member (by decide),
      Text.Blanks.ne member (by decide)⟩
  intro c member
  rw [Text.Padded.written, Text.toList_ofList, List.mem_append, List.mem_append] at member
  rcases member with before | inside | after
  · exact apart m.before c before
  · exact single c inside
  · exact apart m.after c after

theorem isTuple_tupleText {members : List Text} (single : ∀ m ∈ members, IsMemberText m)
    (nonempty : Text.intercalate "," members ≠ "") : isTuple (tupleText members) = true := by
  refine isTuple_iff.mpr ⟨_, isTupleOf_tupleText.mpr ⟨rfl, nonempty, ?_⟩⟩
  rw [Text.toList_intercalate, forall_mem_intercalate (by simp [Text.toList_ofString])]
  intro word listed c member
  obtain ⟨m, own, rfl⟩ := List.mem_map.mp listed
  exact (single m own c member).2

theorem tupleMembers_written {members : List Text.Padded} (given : members ≠ [])
    (single : ∀ m ∈ members, IsMemberText m.text)
    (nonempty : Text.intercalate "," (members.map (·.written)) ≠ "") :
    tupleMembers (tupleText (members.map (·.written))) = members.map fun m => Text.trim m.text := by
  have written : ∀ w ∈ members.map (·.written), IsMemberText w := by
    intro w listed
    obtain ⟨m, own, rfl⟩ := List.mem_map.mp listed
    exact isMemberText_written (single m own)
  rw [tupleMembers_tupleText (by simpa using given) (isTuple_tupleText written nonempty)
    fun w listed comma => (written w listed ',' comma).1 rfl, List.map_map]
  exact List.map_congr_left fun m _ => Text.trim_written m

/-- A member is what trimming leaves of a piece between commas. -/
theorem exists_piece_of_mem_tupleMembers {spelling m : Text} (member : m ∈ tupleMembers spelling) :
    ∃ body, IsTupleOf body spelling ∧
      ∃ piece ∈ body.toList.splitOn (.char ','), Text.trim (.ofList piece) = m := by
  obtain ⟨body, tuple⟩ := isTuple_iff.mp (isTuple_iff_tupleMembers.mpr (List.ne_nil_of_mem member))
  rw [tuple.tupleMembers] at member
  exact ⟨body, tuple, List.mem_map.mp member⟩

theorem isTrimmed_of_mem_tupleMembers {spelling m : Text} (member : m ∈ tupleMembers spelling) :
    Text.IsTrimmed m.toList := by
  obtain ⟨body, -, piece, -, trimmed⟩ := exists_piece_of_mem_tupleMembers member
  exact (Text.trim_eq_iff.mp trimmed).1

theorem isMemberText_of_mem_tupleMembers {spelling m : Text}
    (member : m ∈ tupleMembers spelling) : IsMemberText m := by
  obtain ⟨body, tuple, piece, listed, rfl⟩ := exists_piece_of_mem_tupleMembers member
  -- The pieces hold what the body holds, less the commas.
  have comma : ∀ c ∈ [CodePoint.char ','], c ≠ '(' ∧ c ≠ ')' := by simp
  have flat : ∀ w ∈ body.toList.splitOn (.char ','), ∀ c ∈ w, c ≠ '(' ∧ c ≠ ')' := by
    rw [← forall_mem_intercalate comma, List.intercalate_splitOn]
    exact tuple.flat
  intro c inside
  rw [Text.trim, Text.toList_ofList, Text.toList_ofList] at inside
  have own := Text.mem_of_mem_trimChars inside
  refine ⟨?_, flat piece listed c own⟩
  rintro rfl
  exact Text.not_mem_of_mem_splitOn listed own

theorem tuple_text_round_trips :
    (∀ members : List Text.Padded, members ≠ [] → (∀ m ∈ members, IsMemberText m.text) →
      Text.intercalate "," (members.map (·.written)) ≠ "" →
      tupleMembers ("tuple(" ++ Text.intercalate "," (members.map (·.written)) ++ ")[]") =
        members.map fun m => Text.trim m.text) ∧
    (∀ spelling, ∀ m ∈ tupleMembers spelling, Text.IsTrimmed m.toList ∧ IsMemberText m) ∧
    ∀ s core, Text.trim s = core ↔
      Text.IsTrimmed core.toList ∧ ∃ p : Text.Padded, p.text = core ∧ p.written = s := by
  refine ⟨fun members given single nonempty => ?_, fun spelling m member => ?_, fun s core => ?_⟩
  · exact tupleMembers_written given single nonempty
  · exact ⟨isTrimmed_of_mem_tupleMembers member, isMemberText_of_mem_tupleMembers member⟩
  · exact Text.trim_eq_iff

def spacedMembers : List Text.Padded :=
  [⟨⟨[.char '\u2028', .char '\n'], by simp [Text.isBlank]⟩, "address",
      ⟨[.char '\u2003'], by simp [Text.isBlank]⟩⟩,
    ⟨.empty, "", .empty⟩,
    ⟨⟨[.char '\t'], by simp [Text.isBlank]⟩, "\x1cu 256 ", .empty⟩]

theorem round_trip_of_spaced_members :
    tupleMembers "tuple(\u2028\naddress\u2003,,\t\x1cu 256 )[]" =
        [("address" : Text), "", "u 256"] ∧
      Text.IsTrimmed (Text.toList "u 256") ∧ IsMemberText "u 256" := by
  obtain ⟨reads, entries, -⟩ := tuple_text_round_trips
  have text : "tuple(" ++ Text.intercalate "," (spacedMembers.map (·.written)) ++ ")[]" =
      "tuple(\u2028\naddress\u2003,,\t\x1cu 256 )[]" := by
    decide +kernel
  have members : tupleMembers "tuple(\u2028\naddress\u2003,,\t\x1cu 256 )[]" =
      [("address" : Text), "", "u 256"] := by
    rw [← text, reads spacedMembers (by simp [spacedMembers])
      (by simp [spacedMembers, IsMemberText, Text.toList_ofString]) (by decide +kernel)]
    decide +kernel
  have last : ("u 256" : Text) ∈ [("address" : Text), "", "u 256"] := by simp
  rw [← members] at last
  exact ⟨members, entries _ _ last⟩

end AbiType

end ContractAbi
