import ContractAbi.AbiType.Tuple
import ContractAbi.Proofs.Signature
import Mathlib.Data.List.TakeWhile

/-!
# Tuple spellings

A tuple is known by its shape (`isTuple_iff`). Everything else that is asked of it is a question
about the types of its members, `memberTypes?`: whether they are known, what its canonical spelling
is, and whether it names a type itself.
-/

namespace ContractAbi.AbiType

open Signature (ofSpelling?_canonical canonical_ne_empty)

/-! ### Accepted spellings -/

theorem mem_spellings {spelling : Text} {t : AbiType} (named : ofSpelling? spelling = some t) :
    (spelling, t) ∈ spellings := by
  unfold ofSpelling? at named
  rw [List.lookup_eq_some_iff] at named
  obtain ⟨before, after, split, -⟩ := named
  rw [split]
  exact List.mem_append_right _ List.mem_cons_self

theorem trim_of_mem_spellings : ∀ p ∈ spellings, Text.trim p.1 = p.1 := by
  decide +kernel

theorem isEnumQualified_iff {spelling : Text} :
    isEnumQualified spelling = true ↔ ∃ rest, spelling = "ABIDataTypes." ++ rest := by
  unfold isEnumQualified enumQualifier
  rw [List.isPrefixOf_iff_prefix]
  constructor
  · rintro ⟨rest, whole⟩
    exact ⟨.ofList rest, by simp [← Text.toList_inj, ← whole]⟩
  · rintro ⟨rest, rfl⟩
    exact ⟨rest.toList, by simp⟩

theorem canonical_inj {s t : AbiType} : s.canonical = t.canonical ↔ s = t := by
  refine ⟨fun same => ?_, congrArg canonical⟩
  have named := ofSpelling?_canonical s
  rw [same, ofSpelling?_canonical t] at named
  exact (Option.some.inj named).symm

/-! ### The shape of a tuple -/

/-- The spelling is a tuple with this text between its parentheses. A line feed may follow it. -/
structure IsTupleOf (body spelling : Text) : Prop where
  text : spelling = "tuple(" ++ body ++ ")[]" ∨ spelling = "tuple(" ++ body ++ ")[]\n"
  nonempty : body ≠ ""
  flat : ∀ c ∈ body.toList, c ≠ '(' ∧ c ≠ ')'

theorem isTupleOf_of_tupleBody? {spelling : Text} {body : List CodePoint}
    (read : tupleBody? spelling = some body) : IsTupleOf (.ofList body) spelling := by
  unfold tupleBody? at read
  split at read
  · rename_i rest text
    dsimp only at read
    split at read
    · rename_i closed
      obtain ⟨nonempty, close⟩ := closed
      have whole := List.takeWhile_append_dropWhile
        (p := fun c : CodePoint => decide (c ≠ '(' ∧ c ≠ ')')) (l := rest)
      have inside : ∀ c ∈ rest.takeWhile (fun c : CodePoint => decide (c ≠ '(' ∧ c ≠ ')')),
          decide (c ≠ '(' ∧ c ≠ ')') = true :=
        fun c => List.mem_takeWhile_imp
      rw [Option.some.inj read] at nonempty whole inside
      refine ⟨?_, fun empty => nonempty (Text.toList_eq_nil.mpr empty), fun c member => ?_⟩
      · simp only [← Text.toList_inj, text]
        rcases close with close | close
        all_goals
          rw [close] at whole
          simp [← whole, Text.toList_ofString]
      · rw [Text.toList_ofList] at member
        exact of_decide_eq_true (inside c member)
    · cases read
  · cases read

theorem IsTupleOf.tupleBody? {body spelling : Text} (tuple : IsTupleOf body spelling) :
    tupleBody? spelling = some body.toList := by
  have inside : ∀ c ∈ body.toList, decide (c ≠ '(' ∧ c ≠ ')') = true :=
    fun c member => decide_eq_true (tuple.flat c member)
  have nonempty : body.toList ≠ [] := fun empty => tuple.nonempty (Text.toList_eq_nil.mp empty)
  have text : ∃ close, (close = Text.toList ")[]" ∨ close = Text.toList ")[]\n") ∧
      spelling.toList = .char 't' :: .char 'u' :: .char 'p' :: .char 'l' :: .char 'e' ::
        .char '(' :: (body.toList ++ close) := by
    rcases tuple.text with rfl | rfl
    · exact ⟨_, Or.inl rfl, by simp [Text.toList_ofString]⟩
    · exact ⟨_, Or.inr rfl, by simp [Text.toList_ofString]⟩
  obtain ⟨close, ends, text⟩ := text
  unfold AbiType.tupleBody?
  rw [text]
  dsimp only
  simp only [List.takeWhile_append_of_pos inside, List.dropWhile_append_of_pos inside]
  rcases ends with rfl | rfl <;> simp [nonempty, Text.toList_ofString]

theorem isTuple_iff {spelling : Text} :
    isTuple spelling = true ↔ ∃ body, IsTupleOf body spelling := by
  unfold isTuple
  rw [Option.isSome_iff_exists]
  constructor
  · rintro ⟨body, read⟩
    exact ⟨_, isTupleOf_of_tupleBody? read⟩
  · rintro ⟨body, tuple⟩
    exact ⟨_, tuple.tupleBody?⟩

theorem IsTupleOf.tupleMembers {body spelling : Text} (tuple : IsTupleOf body spelling) :
    tupleMembers spelling =
      (body.toList.splitOn (.char ',')).map fun piece => Text.trim (.ofList piece) := by
  unfold AbiType.tupleMembers
  rw [tuple.tupleBody?]
  simp [Text.trim]

theorem isTuple_iff_tupleMembers {spelling : Text} :
    isTuple spelling = true ↔ tupleMembers spelling ≠ [] := by
  unfold isTuple tupleMembers
  cases tupleBody? spelling <;> simp

theorem IsTupleOf.trim {body spelling : Text} (tuple : IsTupleOf body spelling) :
    IsTupleOf body (Text.trim spelling) := by
  refine ⟨Or.inl ?_, tuple.nonempty, tuple.flat⟩
  rcases tuple.text with rfl | rfl
  all_goals
    simp [← Text.toList_inj, Text.trim, Text.trimChars, Text.trimRight, Text.isBlank,
      Text.toList_ofString]

/-! ### The types of the members -/

theorem mapM_eq_some {α β : Type} {f : α → Option β} {xs : List α} {ys : List β} :
    xs.mapM f = some ys ↔ xs.map f = ys.map some := by
  induction xs generalizing ys with
  | nil => cases ys <;> simp
  | cons x xs ih => cases ys <;> simp [Option.bind_eq_some_iff, ← ih]

theorem isSome_mapM {α β : Type} (f : α → Option β) (xs : List α) :
    (xs.mapM f).isSome = xs.all fun x => (f x).isSome := by
  induction xs with
  | nil => rfl
  | cons x xs ih =>
    rw [List.mapM_cons, List.all_cons, ← ih]
    cases f x <;> cases xs.mapM f <;> rfl

/-- The types that the members of a tuple name, if each of them names one. -/
def memberTypes? (spelling : Text) : Option (List AbiType) :=
  if isTuple spelling then (tupleMembers spelling).mapM ofSpelling? else none

theorem memberTypes?_eq_some {spelling : Text} {ts : List AbiType} :
    memberTypes? spelling = some ts ↔
      isTuple spelling = true ∧ (tupleMembers spelling).map ofSpelling? = ts.map some := by
  unfold memberTypes?
  split
  · rename_i tuple
    simp [tuple, mapM_eq_some]
  · rename_i other
    simp [other]

theorem canonicalMembers?_eq (spelling : Text) :
    canonicalMembers? spelling = (memberTypes? spelling).map (·.map canonical) := by
  have each (members : List Text) :
      members.mapM canonicalSpelling? = (members.mapM ofSpelling?).map (·.map canonical) := by
    induction members with
    | nil => rfl
    | cons m ms ih =>
      rw [List.mapM_cons, List.mapM_cons, ih, canonicalSpelling?]
      cases ofSpelling? m <;> cases ms.mapM ofSpelling? <;> rfl
  unfold canonicalMembers? memberTypes?
  simp only [isTuple_iff_tupleMembers]
  split
  · rename_i missing
    simp [missing]
  · rename_i given
    rw [if_pos given, each]

theorem canonicalTuple?_eq (spelling : Text) :
    canonicalTuple? spelling =
      (memberTypes? spelling).map fun ts => tupleText (ts.map canonical) := by
  rw [canonicalTuple?, canonicalMembers?_eq, Option.map_map]
  rfl

theorem unknownMembers_eq_nil {spelling : Text} :
    unknownMembers spelling = [] ↔ (memberTypes? spelling).isSome = true := by
  unfold unknownMembers memberTypes?
  simp only [isTuple_iff_tupleMembers]
  split
  · rename_i missing
    simp [missing]
  · rename_i given
    rw [if_pos given, isSome_mapM]
    simp [isSpelling, Option.isSome_iff_ne_none]

/-! ### What a spelling names -/

theorem ofTupleMembers?_eq_some {ts : List AbiType} {t : AbiType} :
    ofTupleMembers? (ts.map canonical) = some t ↔
      t = addressAmounts ∧ ts = [address, uint256] ∨
      t = extendedAddressAmounts ∧ ts = [extendedAddress, uint256] := by
  have inj (us : List AbiType) : ts.map canonical = us.map canonical ↔ ts = us :=
    List.map_inj_right fun _ _ => canonical_inj.mp
  have plain := inj [address, uint256]
  have extended := inj [extendedAddress, uint256]
  rw [List.map_cons, List.map_singleton] at plain extended
  unfold ofTupleMembers?
  simp only [plain, extended]
  split
  · rename_i here
    simp [here, eq_comm]
  · rename_i other
    split
    · rename_i here
      simp [here, eq_comm]
    · rename_i neither
      simp [other, neither]

theorem ofTupleMembers?_of_mem_spellings :
    ∀ p ∈ spellings, isTuple p.1 = true →
      (canonicalMembers? p.1).bind ofTupleMembers? = some p.2 := by
  decide +kernel

/-- A tuple names what its members say, also where it is an accepted spelling itself. -/
theorem resolve?_of_isTuple {spelling : Text} (tuple : isTuple spelling = true) :
    resolve? spelling = (canonicalMembers? spelling).bind ofTupleMembers? := by
  unfold resolve?
  rw [if_pos tuple]
  split
  · rename_i t found
    obtain ⟨named, -⟩ := Option.filter_eq_some_iff.mp found
    exact (ofTupleMembers?_of_mem_spellings (spelling, t) (mem_spellings named) tuple).symm
  · rfl

theorem resolve?_of_not_isTuple {spelling : Text} (other : isTuple spelling = false) :
    resolve? spelling = ofSpelling? spelling := by
  simp [resolve?, other]

theorem resolve?_of_ofSpelling? {spelling : Text} {t : AbiType}
    (named : ofSpelling? spelling = some t) : resolve? spelling = some t := by
  cases tuple : isTuple spelling with
  | true =>
    rw [resolve?_of_isTuple tuple]
    exact ofTupleMembers?_of_mem_spellings (spelling, t) (mem_spellings named) tuple
  | false => rw [resolve?_of_not_isTuple tuple, named]

theorem resolve?_tuple_eq_some {spelling : Text} (tuple : isTuple spelling = true) {t : AbiType} :
    resolve? spelling = some t ↔
      t = addressAmounts ∧ memberTypes? spelling = some [address, uint256] ∨
      t = extendedAddressAmounts ∧ memberTypes? spelling = some [extendedAddress, uint256] := by
  rw [resolve?_of_isTuple tuple, canonicalMembers?_eq]
  cases memberTypes? spelling with
  | none => simp
  | some ts => simpa using ofTupleMembers?_eq_some

/-- A spelling that names a type names it without the blanks around it too. -/
theorem resolve?_trim {spelling : Text} {t : AbiType} (named : resolve? spelling = some t) :
    resolve? (Text.trim spelling) = some t := by
  cases shape : isTuple spelling with
  | true =>
    obtain ⟨body, tuple⟩ := isTuple_iff.mp shape
    have members : memberTypes? (Text.trim spelling) = memberTypes? spelling := by
      have shape' : isTuple (Text.trim spelling) = true := isTuple_iff.mpr ⟨body, tuple.trim⟩
      simp only [memberTypes?, shape, shape', tuple.tupleMembers, tuple.trim.tupleMembers]
    rw [resolve?_tuple_eq_some shape] at named
    rwa [resolve?_tuple_eq_some (isTuple_iff.mpr ⟨body, tuple.trim⟩), members]
  | false =>
    have known := named
    rw [resolve?_of_not_isTuple shape] at known
    rw [trim_of_mem_spellings (spelling, t) (mem_spellings known), named]

theorem looksLikeType_iff {spelling : Text} :
    looksLikeType spelling = true ↔
      isEnumQualified spelling = true ∨ ∃ t, resolve? spelling = some t := by
  simp only [looksLikeType, isSpelling, Bool.or_eq_true, Option.isSome_iff_exists, or_assoc]
  refine or_congr_right ⟨?_, Or.inr⟩
  rintro (⟨t, named⟩ | named)
  · exact ⟨t, resolve?_of_ofSpelling? named⟩
  · exact named

/-- The types that the pieces between the commas name. -/
def pieceTypes (body : Text) : List (Option AbiType) :=
  (body.toList.splitOn (.char ',')).map fun piece => ofSpelling? (Text.trim (.ofList piece))

theorem IsTupleOf.memberTypes?_eq_some {body spelling : Text} (tuple : IsTupleOf body spelling)
    {ts : List AbiType} : memberTypes? spelling = some ts ↔ pieceTypes body = ts.map some := by
  have shape : isTuple spelling = true := isTuple_iff.mpr ⟨body, tuple⟩
  rw [AbiType.memberTypes?_eq_some, tuple.tupleMembers, List.map_map]
  simp [shape, pieceTypes, Function.comp_def]

theorem resolution_is_lookup_of_pairs (spelling : Text) :
    (∀ body, IsTupleOf body spelling → ∀ t, resolve? spelling = some t ↔
      t = addressAmounts ∧ pieceTypes body = [some address, some uint256] ∨
      t = extendedAddressAmounts ∧ pieceTypes body = [some extendedAddress, some uint256]) ∧
    ((∀ body, ¬IsTupleOf body spelling) → resolve? spelling = ofSpelling? spelling) ∧
    (isTuple spelling = true →
      resolve? spelling = (canonicalMembers? spelling).bind ofTupleMembers?) ∧
    (looksLikeType spelling = true ↔
      (∃ rest, spelling = "ABIDataTypes." ++ rest) ∨ ∃ t, resolve? spelling = some t) := by
  refine ⟨fun body tuple t => ?_, fun other => ?_, resolve?_of_isTuple, ?_⟩
  · rw [resolve?_tuple_eq_some (isTuple_iff.mpr ⟨body, tuple⟩), tuple.memberTypes?_eq_some,
      tuple.memberTypes?_eq_some]
    rfl
  · apply resolve?_of_not_isTuple
    rw [Bool.eq_false_iff, ne_eq, isTuple_iff]
    rintro ⟨body, tuple⟩
    exact other body tuple
  · rw [looksLikeType_iff, isEnumQualified_iff]

theorem resolution_of_spaced_pair :
    pieceTypes "\u2003Address ,\tu256" = [some address, some uint256] ∧
      resolve? "tuple(\u2003Address ,\tu256)[]\n" = some addressAmounts := by
  have tuple : IsTupleOf "\u2003Address ,\tu256" "tuple(\u2003Address ,\tu256)[]\n" :=
    ⟨Or.inr (by simp [← Text.ofString_append]), by decide, by simp [Text.toList_ofString]⟩
  have types : pieceTypes "\u2003Address ,\tu256" = [some address, some uint256] := by
    decide +kernel
  exact ⟨types, ((resolution_is_lookup_of_pairs _).1 _ tuple _).mpr (Or.inl ⟨rfl, types⟩)⟩

theorem tuple_readings_agree (spelling : Text) :
    (unknownMembers spelling = [] ↔ (canonicalTuple? spelling).isSome = true) ∧
    (isTuple spelling = true ↔ tupleMembers spelling ≠ []) ∧
    ∀ t, isTuple spelling = true → resolve? spelling = some t →
      unknownMembers spelling = [] ∧ canonicalTuple? spelling = some t.canonical ∧
        resolveCanonical? spelling = some t.canonical := by
  refine ⟨?_, isTuple_iff_tupleMembers, fun t tuple named => ?_⟩
  · rw [unknownMembers_eq_nil, canonicalTuple?_eq, Option.isSome_map]
  · rw [unknownMembers_eq_nil, canonicalTuple?_eq, resolveCanonical?, named]
    rcases (resolve?_tuple_eq_some tuple).mp named with ⟨rfl, members⟩ | ⟨rfl, members⟩
    all_goals
      rw [members]
      exact ⟨rfl, by decide, rfl⟩

theorem readings_of_spaced_pair :
    unknownMembers "tuple(\u2003ExtendedAddress ,\tu256)[]\n" = [] ∧
      canonicalTuple? "tuple(\u2003ExtendedAddress ,\tu256)[]\n" =
        some extendedAddressAmounts.canonical ∧
      resolveCanonical? "tuple(\u2003ExtendedAddress ,\tu256)[]\n" =
        some extendedAddressAmounts.canonical :=
  (tuple_readings_agree _).2.2 _ (by decide +kernel) (by decide +kernel)

/-! ### Canonical spellings -/

theorem forall_mem_intercalate {α : Type} {P : α → Prop} {separator : List α}
    (between : ∀ c ∈ separator, P c) (words : List (List α)) :
    (∀ c ∈ separator.intercalate words, P c) ↔ ∀ w ∈ words, ∀ c ∈ w, P c := by
  induction words with
  | nil => simp
  | cons w ws ih =>
    cases ws with
    | nil => simp
    | cons v ws =>
      rw [List.intercalate_cons_cons, List.forall_mem_cons, ← ih]
      simp only [List.mem_append]
      grind

theorem isTupleOf_tupleText {members : List Text} {body : Text} :
    IsTupleOf body (tupleText members) ↔
      body = Text.intercalate "," members ∧ body ≠ "" ∧ ∀ c ∈ body.toList, c ≠ '(' ∧ c ≠ ')' := by
  constructor
  · rintro ⟨text, nonempty, flat⟩
    refine ⟨?_, nonempty, flat⟩
    simp only [tupleText, ← Text.toList_inj, Text.toList_append, List.append_assoc] at text ⊢
    rcases text with text | text
    · simpa [eq_comm] using text
    · -- Only one of the two sides ends with a line feed.
      have reversed := congrArg List.reverse text
      simp [Text.toList_ofString] at reversed
  · rintro ⟨rfl, nonempty, flat⟩
    exact ⟨Or.inl rfl, nonempty, flat⟩

theorem tupleMembers_tupleText {members : List Text} (given : members ≠ [])
    (tuple : isTuple (tupleText members) = true) (single : ∀ m ∈ members, .char ',' ∉ m.toList) :
    tupleMembers (tupleText members) = members.map Text.trim := by
  obtain ⟨body, whole⟩ := isTuple_iff.mp tuple
  obtain ⟨rfl, -⟩ := isTupleOf_tupleText.mp whole
  have comma : Text.toList "," = [.char ','] := rfl
  rw [whole.tupleMembers, Text.toList_intercalate, comma,
    List.splitOn_intercalate (CodePoint.char ',') (by simpa using single) (by simpa using given),
    List.map_map]
  simp [Function.comp_def]

theorem trim_canonical (t : AbiType) : Text.trim t.canonical = t.canonical :=
  trim_of_mem_spellings (t.canonical, t) (mem_spellings (ofSpelling?_canonical t))

/-- Only the spellings of amounts have commas and parentheses. -/
theorem flat_canonical_iff (t : AbiType) :
    (∀ c ∈ t.canonical.toList, c ≠ '(' ∧ c ≠ ')') ↔ isAmounts t = false := by
  cases t <;> simp [canonical, isAmounts, Text.toList_ofString]

theorem not_mem_canonical_of_not_isAmounts {t : AbiType} (single : isAmounts t = false) :
    .char ',' ∉ t.canonical.toList := by
  revert single
  cases t <;> decide

theorem isTuple_tupleText_canonical {ts : List AbiType} (given : ts ≠ []) :
    isTuple (tupleText (ts.map canonical)) = true ↔ ∀ t ∈ ts, isAmounts t = false := by
  have nonempty : Text.intercalate "," (ts.map canonical) ≠ "" := by
    obtain ⟨t, ts, rfl⟩ := List.exists_cons_of_ne_nil given
    cases ts with
    | nil => simpa using canonical_ne_empty t
    | cons u us =>
      simp [Text.intercalate_cons_cons, Text.append_eq_empty_iff, canonical_ne_empty]
  have flat : (∀ c ∈ (Text.intercalate "," (ts.map canonical)).toList, c ≠ '(' ∧ c ≠ ')') ↔
      ∀ t ∈ ts, isAmounts t = false := by
    rw [Text.toList_intercalate, forall_mem_intercalate (by simp [Text.toList_ofString])]
    simp [← flat_canonical_iff]
  rw [isTuple_iff, ← flat]
  simp [isTupleOf_tupleText, nonempty]

theorem memberTypes?_tupleText {ts : List AbiType} (given : ts ≠ [])
    (single : ∀ t ∈ ts, isAmounts t = false) :
    memberTypes? (tupleText (ts.map canonical)) = some ts := by
  have tuple := (isTuple_tupleText_canonical given).mpr single
  refine memberTypes?_eq_some.mpr ⟨tuple, ?_⟩
  rw [tupleMembers_tupleText (by simpa using given) tuple fun m member => ?_]
  · simp [Function.comp_def, trim_canonical, ofSpelling?_canonical]
  · obtain ⟨t, listed, rfl⟩ := List.mem_map.mp member
    exact not_mem_canonical_of_not_isAmounts (single t listed)

theorem ne_nil_of_memberTypes? {spelling : Text} {ts : List AbiType}
    (types : memberTypes? spelling = some ts) : ts ≠ [] := by
  obtain ⟨tuple, named⟩ := memberTypes?_eq_some.mp types
  have given := isTuple_iff_tupleMembers.mp tuple
  rintro rfl
  simp [given] at named

/-- A canonical spelling keeps its members, and is its own canonical spelling, unless a member names
amounts: it is no tuple then. -/
theorem canonical_spelling_is_tuple_iff {spelling c : Text}
    (found : canonicalTuple? spelling = some c) :
    (isTuple c = true ↔
      ∀ m ∈ tupleMembers spelling, ∀ t, ofSpelling? m = some t → isAmounts t = false) ∧
    (isTuple c = true → (tupleMembers c).length = (tupleMembers spelling).length ∧
      (tupleMembers c).map ofSpelling? = (tupleMembers spelling).map ofSpelling? ∧
      canonicalTuple? c = some c) ∧
    (isTuple c = false → tupleMembers c = [] ∧ canonicalTuple? c = none) := by
  rw [canonicalTuple?_eq, Option.map_eq_some_iff] at found
  obtain ⟨ts, types, rfl⟩ := found
  have given := ne_nil_of_memberTypes? types
  obtain ⟨-, named⟩ := memberTypes?_eq_some.mp types
  refine ⟨?_, fun tuple => ?_, fun other => ?_⟩
  · rw [isTuple_tupleText_canonical given]
    constructor
    · intro single m member t name
      have listed : some t ∈ ts.map some := by
        rw [← named, ← name]
        exact List.mem_map_of_mem member
      exact single t (by simpa using listed)
    · intro single t member
      have listed : some t ∈ (tupleMembers spelling).map ofSpelling? := by
        rw [named]
        exact List.mem_map_of_mem member
      obtain ⟨m, own, name⟩ := List.mem_map.mp listed
      exact single m own t name
  · have types' := memberTypes?_tupleText given ((isTuple_tupleText_canonical given).mp tuple)
    have named' := (memberTypes?_eq_some.mp types').2
    have same := named'.trans named.symm
    refine ⟨by simpa using congrArg List.length same, same, ?_⟩
    rw [canonicalTuple?_eq, types']
    rfl
  · have none : memberTypes? (tupleText (ts.map canonical)) = none := by
      simp [memberTypes?, other]
    rw [← Bool.not_eq_true, isTuple_iff_tupleMembers, not_not] at other
    exact ⟨other, by simp [canonicalTuple?_eq, none]⟩

theorem canonical_spelling_of_spaced_triple :
    canonicalTuple? "tuple( u256 ,Address,\u2003boolean)[]\n" =
        some ("tuple(uint256,address,bool)[]" : Text) ∧
      isTuple "tuple(uint256,address,bool)[]" = true ∧
      (tupleMembers "tuple(uint256,address,bool)[]").length =
        (tupleMembers "tuple( u256 ,Address,\u2003boolean)[]\n").length ∧
      canonicalTuple? "tuple(uint256,address,bool)[]" =
        some ("tuple(uint256,address,bool)[]" : Text) := by
  have found : canonicalTuple? "tuple( u256 ,Address,\u2003boolean)[]\n" =
      some ("tuple(uint256,address,bool)[]" : Text) := by
    decide +kernel
  obtain ⟨shape, kept, -⟩ := canonical_spelling_is_tuple_iff found
  have tuple := shape.mpr (by decide +kernel)
  exact ⟨found, tuple, (kept tuple).1, (kept tuple).2.2⟩

theorem nested_amounts_are_no_tuple :
    canonicalTuple? "tuple(AddressMap<u256>)[]" =
        some ("tuple(tuple(address,uint256)[])[]" : Text) ∧
      isTuple "tuple(tuple(address,uint256)[])[]" = false ∧
      canonicalTuple? "tuple(tuple(address,uint256)[])[]" = none := by
  decide +kernel

end ContractAbi.AbiType
