import ContractAbi.Call

/-!
# Reading hexadecimal digits

`hexValue?` reads digits back into a number, and so tells selectors apart: `selectorText_inj` shows
that two selectors are the same text only if they are the same word.
-/

namespace ContractAbi

namespace Text

section Span

variable {p : CodePoint → Bool} {xs rest : List CodePoint} {c : CodePoint}

theorem takeWhile_append_stop (all : ∀ x ∈ xs, p x = true) (stop : p c = false) :
    (xs ++ c :: rest).takeWhile p = xs := by
  rw [List.takeWhile_append_of_pos all, List.takeWhile_cons_of_neg (by simp [stop]), List.append_nil]

theorem dropWhile_append_stop (all : ∀ x ∈ xs, p x = true) (stop : p c = false) :
    (xs ++ c :: rest).dropWhile p = c :: rest := by
  rw [List.dropWhile_append_of_pos all, List.dropWhile_cons_of_neg (by simp [stop])]

end Span

def hexDigit? (c : CodePoint) : Option Nat :=
  if '0' ≤ c ∧ c ≤ '9' then some (c.toNat - '0'.toNat)
  else if 'a' ≤ c ∧ c ≤ 'f' then some (c.toNat - 'a'.toNat + 10)
  else if 'A' ≤ c ∧ c ≤ 'F' then some (c.toNat - 'A'.toNat + 10)
  else none

/-- Reads one more digit, after digits that stand for `n`. -/
def pushHexDigit (n : Nat) (c : CodePoint) : Option Nat :=
  (hexDigit? c).map (16 * n + ·)

/-- The number that these digits stand for, the first being the most significant. -/
def hexValue? (cs : List CodePoint) : Option Nat :=
  cs.foldlM pushHexDigit 0

def isHexDigit (c : CodePoint) : Bool :=
  (hexDigit? c).isSome

theorem hexDigit?_digitChar : ∀ d : Nat, d < 16 → hexDigit? d.digitChar = some d := by
  decide

theorem isHexDigit_of_mem_toDigits (n : Nat) : ∀ c ∈ Nat.toDigits 16 n, isHexDigit c = true := by
  induction n using Nat.base_induction 16 (by decide) with
  | single m small =>
    rw [Nat.toDigits_of_lt_base small]
    simp [isHexDigit, hexDigit?_digitChar m small]
  | digit m d small positive ih =>
    rw [← Nat.toDigits_append_toDigits (by decide) positive small, Nat.toDigits_of_lt_base small]
    intro c member
    rcases List.mem_append.mp member with front | last
    · exact ih c front
    · obtain rfl := List.mem_singleton.mp last
      simp [isHexDigit, hexDigit?_digitChar d small]

theorem hexValue?_toDigits (n : Nat) : hexValue? ((Nat.toDigits 16 n).map .char) = some n := by
  induction n using Nat.base_induction 16 (by decide) with
  | single m small =>
    simp [Nat.toDigits_of_lt_base small, hexValue?, pushHexDigit, hexDigit?_digitChar m small]
  | digit m d small positive ih =>
    rw [← Nat.toDigits_append_toDigits (by decide) positive small, Nat.toDigits_of_lt_base small]
    unfold hexValue? at ih ⊢
    simp [List.foldlM_append, ih, pushHexDigit, hexDigit?_digitChar d small]

/-- Zeros in front do not count. -/
theorem foldlM_zeros (k : Nat) :
    (List.replicate k (.char '0')).foldlM pushHexDigit 0 = some 0 := by
  induction k with
  | zero => rfl
  | succ k ih =>
    have zero : pushHexDigit 0 '0' = some 0 := by decide
    simpa [List.replicate_succ, zero] using ih

@[simp]
theorem hexValue?_hexDigits (width n : Nat) : hexValue? (hexDigits width n) = some n := by
  have digits := hexValue?_toDigits n
  unfold hexValue? at digits ⊢
  rw [hexDigits, List.map_append, List.map_replicate, List.foldlM_append, foldlM_zeros]
  exact digits

theorem isHexDigit_of_mem_hexDigits {width n : Nat} {c : CodePoint} (member : c ∈ hexDigits width n) :
    isHexDigit c = true := by
  obtain ⟨d, listed, rfl⟩ := List.mem_map.mp member
  rcases List.mem_append.mp listed with zero | digit
  · rw [(List.mem_replicate.mp zero).2]
    decide
  · exact isHexDigit_of_mem_toDigits n d digit

theorem length_hexDigits_of_le {width n : Nat} (narrow : (Nat.toDigits 16 n).length ≤ width) :
    (hexDigits width n).length = width := by
  simp only [hexDigits, List.length_map, List.length_append, List.length_replicate]
  omega

theorem length_hexDigits_four {n : Nat} (small : n < 0x10000) : (hexDigits 4 n).length = 4 :=
  length_hexDigits_of_le ((Nat.length_toDigits_le_iff (by decide) (by decide)).mpr small)

theorem length_hexDigits (word : UInt32) : (hexDigits 8 word.toNat).length = 8 :=
  length_hexDigits_of_le ((Nat.length_toDigits_le_iff (by decide) (by decide)).mpr word.toNat_lt)

end Text

namespace Call

/-- The word of the digest that is the selector of a signature, if that can be encoded. -/
def digestWord? (signature : Text) : Option UInt32 :=
  signature.string?.map fun s => (Sha256.digest s.toUTF8.toList).a

/-- A word as a selector. -/
def selectorText (word : UInt32) : Text :=
  .ofList (Text.hexDigits 8 word.toNat)

/-- The number that eight hexadecimal digits stand for. -/
def selectorValue? (selector : Text) : Option UInt32 :=
  if selector.toList.length = 8 then (Text.hexValue? selector.toList).map UInt32.ofNat else none

theorem selectorOf_eq (signature : Text) :
    selectorOf signature = (digestWord? signature).map selectorText := by
  rw [selectorOf, digestWord?, Option.map_map]
  rfl

theorem toList_selectorText (word : UInt32) :
    (selectorText word).toList = Text.hexDigits 8 word.toNat :=
  rfl

theorem length_selectorText (word : UInt32) : (selectorText word).toList.length = 8 :=
  Text.length_hexDigits word

@[simp]
theorem selectorValue?_selectorText (word : UInt32) :
    selectorValue? (selectorText word) = some word := by
  rw [selectorValue?, if_pos (length_selectorText word)]
  simp [toList_selectorText]

theorem hexValue?_selectorText_iff (word n : UInt32) :
    Text.hexValue? (selectorText word).toList = some n.toNat ↔
      selectorValue? (selectorText word) = some n := by
  rw [toList_selectorText, Text.hexValue?_hexDigits, selectorValue?_selectorText, Option.some_inj,
    Option.some_inj, UInt32.toNat_inj]

theorem isHexDigit_of_mem_selectorText {word : UInt32} {c : CodePoint}
    (member : c ∈ (selectorText word).toList) : Text.isHexDigit c = true :=
  Text.isHexDigit_of_mem_hexDigits member

theorem selectorText_ne_empty (word : UInt32) : selectorText word ≠ "" := by
  intro empty
  have length := length_selectorText word
  rw [empty] at length
  cases length

theorem selectorText_inj {v w : UInt32} : selectorText v = selectorText w ↔ v = w := by
  refine ⟨fun same => ?_, congrArg selectorText⟩
  have values := congrArg selectorValue? same
  simpa using values

/-- A call has the selector of its signature, and that is a word. -/
theorem of_eq_some {name : Text} {types : List Text} {call : Call} :
    Call.of name types = some call ↔
      call.signature = signatureOf name types ∧ selectorOf call.signature = some call.selector := by
  unfold Call.of ofSignature
  constructor
  · intro made
    obtain ⟨selector, encoded, rfl⟩ := Option.map_eq_some_iff.mp made
    exact ⟨rfl, encoded⟩
  · rintro ⟨signature, encoded⟩
    rw [← signature, encoded]
    rfl

theorem isSome_selectorOf (signature : Text) :
    (selectorOf signature).isSome = signature.isEncodable := by
  simp [selectorOf, Text.isEncodable]

theorem isSome_of (name : Text) (types : List Text) :
    (Call.of name types).isSome = (signatureOf name types).isEncodable := by
  rw [Call.of, ofSignature, Option.isSome_map, isSome_selectorOf]

theorem exists_selectorText {call : Call} (encoded : selectorOf call.signature = some call.selector) :
    ∃ word, digestWord? call.signature = some word ∧ call.selector = selectorText word := by
  rw [selectorOf_eq] at encoded
  obtain ⟨word, digest, same⟩ := Option.map_eq_some_iff.mp encoded
  exact ⟨word, digest, same.symm⟩

end Call

end ContractAbi
