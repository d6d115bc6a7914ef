import ContractAbi.AbiType.Basic
import ContractAbi.Proofs.Hex

/-!
# Reading signatures

A signature is read from its end: its types stand between the last parenthesis and the one that
this closes, and the commas outside all inner parentheses part them. `read?_signatureOf` shows that
the name and the types come back, whatever the name is made of.
-/

namespace ContractAbi.Signature

/-- Reads a signature from its end, less the last parenthesis. `depth` parentheses have been closed
and not opened yet, `piece` has been read of a type, and `pieces` are the types behind it. -/
def scan (depth : Nat) (piece : List CodePoint) (pieces : List (List CodePoint)) :
    List CodePoint → Option (List CodePoint × List (List CodePoint))
  | [] => none
  | .char '(' :: rest =>
    match depth with
    | 0 => some (rest.reverse, piece :: pieces)
    | depth + 1 => scan depth (.char '(' :: piece) pieces rest
  | .char ')' :: rest => scan (depth + 1) (.char ')' :: piece) pieces rest
  | .char ',' :: rest =>
    match depth with
    | 0 => scan 0 [] (piece :: pieces) rest
    | depth + 1 => scan (depth + 1) (.char ',' :: piece) pieces rest
  | c :: rest => scan depth (c :: piece) pieces rest

/-- The types spelled by the pieces between the parentheses. A single empty piece is no type. -/
def types? : List (List CodePoint) → Option (List AbiType)
  | [[]] => some []
  | pieces => pieces.mapM fun piece => AbiType.ofSpelling? (Text.ofList piece)

/-- The name and the types of a signature. -/
def read? (signature : Text) : Option (Text × List AbiType) :=
  match signature.toList.reverse with
  | .char ')' :: rest => do
    let (name, pieces) ← scan 0 [] [] rest
    return (Text.ofList name, ← types? pieces)
  | _ => none

/-! ### Pieces that are read whole -/

/-- A text that the scan takes into the present piece, at any depth and before any rest. -/
def IsPiece (w : List CodePoint) : Prop :=
  ∀ depth piece pieces rest,
    scan depth piece pieces (w.reverse ++ rest) = scan depth (w ++ piece) pieces rest

def isPlain (c : CodePoint) : Bool :=
  c ≠ '(' && c ≠ ')' && c ≠ ','

theorem scan_plain {c : CodePoint} (plain : isPlain c = true) (depth : Nat) (piece : List CodePoint)
    (pieces : List (List CodePoint)) (rest : List CodePoint) :
    scan depth piece pieces (c :: rest) = scan depth (c :: piece) pieces rest := by
  obtain ⟨⟨opening, closing⟩, comma⟩ : (c ≠ '(' ∧ c ≠ ')') ∧ c ≠ ',' := by
    simpa [isPlain] using plain
  rw [scan] <;> simp_all

theorem isPiece_append {v w : List CodePoint} (hv : IsPiece v) (hw : IsPiece w) :
    IsPiece (v ++ w) := by
  intro depth piece pieces rest
  rw [List.reverse_append, List.append_assoc, hw, hv, List.append_assoc]

theorem isPiece_of_plain {w : List CodePoint} (plain : w.all isPlain = true) : IsPiece w := by
  induction w with
  | nil => intro depth piece pieces rest; rfl
  | cons c w ih =>
    rw [List.all_cons, Bool.and_eq_true] at plain
    have single : IsPiece [c] := fun depth piece pieces rest =>
      scan_plain plain.1 depth piece pieces rest
    exact isPiece_append single (ih plain.2)

/-- Inside parentheses a comma parts nothing. -/
theorem scan_inside {w : List CodePoint} (flat : w.all (fun c => c ≠ '(' && c ≠ ')') = true)
    (depth : Nat) (piece : List CodePoint) (pieces : List (List CodePoint)) (rest : List CodePoint) :
    scan (depth + 1) piece pieces (w.reverse ++ rest) =
      scan (depth + 1) (w ++ piece) pieces rest := by
  induction w generalizing rest with
  | nil => rfl
  | cons c w ih =>
    rw [List.all_cons, Bool.and_eq_true] at flat
    rw [List.reverse_cons, List.append_assoc, ih flat.2, List.singleton_append]
    by_cases comma : c = ','
    · subst comma; rfl
    · exact scan_plain (by simpa [isPlain, comma] using flat.1) _ _ _ _

theorem isPiece_parenthesized {w : List CodePoint}
    (flat : w.all (fun c => c ≠ '(' && c ≠ ')') = true) : IsPiece (.char '(' :: w ++ [.char ')']) := by
  intro depth piece pieces rest
  have reversed : (CodePoint.char '(' :: w ++ [CodePoint.char ')']).reverse ++ rest =
      .char ')' :: (w.reverse ++ .char '(' :: rest) := by simp
  rw [reversed, scan, scan_inside flat, scan]
  simp

theorem isPiece_tupleText {w : List CodePoint} (flat : w.all (fun c => c ≠ '(' && c ≠ ')') = true) :
    IsPiece (Text.toList "tuple" ++ (.char '(' :: w ++ [.char ')']) ++ Text.toList "[]") :=
  isPiece_append (isPiece_append (isPiece_of_plain (by decide)) (isPiece_parenthesized flat))
    (isPiece_of_plain (by decide))

/-- The parentheses of a canonical spelling balance, and its commas are inside them. -/
theorem isPiece_canonical (t : AbiType) : IsPiece t.canonical.toList := by
  cases t with
  | addressAmounts => exact isPiece_tupleText (w := Text.toList "address,uint256") (by decide)
  | extendedAddressAmounts =>
    exact isPiece_tupleText (w := Text.toList "extendedAddress,uint256") (by decide)
  | _ => exact isPiece_of_plain (by decide)

/-! ### Reading back -/

/-- The scan of joined pieces goes on with the first of them and has the others behind it. -/
theorem scan_joined (w : List CodePoint) (ws pieces : List (List CodePoint)) (rest : List CodePoint)
    (whole : ∀ v ∈ w :: ws, IsPiece v) :
    scan 0 [] pieces (([.char ','].intercalate (w :: ws)).reverse ++ rest) =
      scan 0 w (ws ++ pieces) rest := by
  -- The last piece is read first, so the induction takes pieces off the front.
  induction ws generalizing w rest with
  | nil => simpa using whole w List.mem_cons_self 0 [] pieces rest
  | cons v ws ih =>
    have reversed : ([.char ','].intercalate (w :: v :: ws)).reverse ++ rest =
        ([.char ','].intercalate (v :: ws)).reverse ++ .char ',' :: (w.reverse ++ rest) := by
      simp [List.intercalate_cons_cons]
    rw [reversed, ih v _ (fun u member => whole u (List.mem_cons_of_mem w member)), scan,
      whole w List.mem_cons_self, List.append_nil]
    rfl

theorem ofSpelling?_canonical (t : AbiType) : AbiType.ofSpelling? t.canonical = some t := by
  cases t <;> decide +kernel

theorem canonical_ne_empty (t : AbiType) : t.canonical ≠ "" := by
  cases t <;> decide

theorem mapM_ofSpelling? (ts : List AbiType) :
    (ts.map (·.canonical.toList)).mapM (fun w => AbiType.ofSpelling? (Text.ofList w)) = some ts := by
  induction ts with
  | nil => rfl
  | cons t ts ih => simp [ofSpelling?_canonical] at ih ⊢; simp [ih]

theorem types?_canonical (t : AbiType) (ts : List AbiType) :
    types? ((t :: ts).map (·.canonical.toList)) = some (t :: ts) := by
  rw [← mapM_ofSpelling? (t :: ts)]
  unfold types?
  split
  · rename_i blank
    have empty : t.canonical.toList = [] ∧ ts = [] := by simpa using blank
    exact absurd (Text.toList_eq_nil.mp empty.1) (canonical_ne_empty t)
  · rfl

theorem toList_signatureOf (name : Text) (types : List Text) :
    (Call.signatureOf name types).toList =
      name.toList ++
        .char '(' :: ([.char ','].intercalate (types.map Text.toList) ++ [.char ')']) := by
  have opening : Text.toList "(" = [.char '('] := rfl
  have comma : Text.toList "," = [.char ','] := rfl
  have closing : Text.toList ")" = [.char ')'] := rfl
  simp [Call.signatureOf, opening, comma, closing]

/-- The name and the types of a signature can be read off it. -/
theorem read?_signatureOf (name : Text) (ts : List AbiType) :
    read? (Call.signatureOf name (ts.map AbiType.canonical)) = some (name, ts) := by
  have reversed : (Call.signatureOf name (ts.map AbiType.canonical)).toList.reverse =
      .char ')' :: (([.char ','].intercalate (ts.map (·.canonical.toList))).reverse ++
        .char '(' :: name.toList.reverse) := by
    simp [toList_signatureOf, Function.comp_def]
  unfold read?
  rw [reversed]
  cases ts with
  | nil => simp [scan, types?]
  | cons t ts =>
    have whole : ∀ v ∈ t.canonical.toList :: ts.map (·.canonical.toList), IsPiece v := by
      intro v member
      obtain ⟨u, -, rfl⟩ : ∃ u ∈ t :: ts, u.canonical.toList = v := by simpa [eq_comm] using member
      exact isPiece_canonical u
    have found := types?_canonical t ts
    rw [List.map_cons] at found ⊢
    simp only [scan_joined _ _ _ _ whole, scan, List.append_nil, List.reverse_reverse]
    simp [found]

example : read? "a(b,(uint8,tuple(address,uint256)[])" =
    some (("a(b," : Text), [.uint8, .addressAmounts]) := by
  decide +kernel

theorem signatureOf_inj (n₁ n₂ : Text) (ts₁ ts₂ : List AbiType) :
    Call.signatureOf n₁ (ts₁.map AbiType.canonical) = Call.signatureOf n₂ (ts₂.map AbiType.canonical) ↔
      n₁ = n₂ ∧ ts₁ = ts₂ := by
  constructor
  · intro same
    have read := congrArg read? same
    simpa [read?_signatureOf] using read
  · rintro ⟨rfl, rfl⟩
    rfl

/-! ### Selectors -/

theorem isEncodable_canonical (t : AbiType) : t.canonical.isEncodable = true := by
  cases t <;> rfl

/-- Types are written in ASCII, so that whether a signature can be encoded depends on the name. -/
theorem isEncodable_signatureOf (name : Text) (ts : List AbiType) :
    (Call.signatureOf name (ts.map AbiType.canonical)).isEncodable = name.isEncodable := by
  have types : (Text.intercalate "," (ts.map AbiType.canonical)).isEncodable = true :=
    Text.isEncodable_intercalate rfl (List.forall_mem_map.mpr fun t _ => isEncodable_canonical t)
  have opening : Text.isEncodable "(" = true := rfl
  have closing : Text.isEncodable ")" = true := rfl
  simp [Call.signatureOf, types, opening, closing]

/-- Different texts whose digests start with the same word. -/
def Collide (s t : Text) : Prop :=
  s ≠ t ∧ ∃ word, Call.digestWord? s = some word ∧ Call.digestWord? t = some word

theorem exists_selector_iff (s t : Text) :
    (∃ k, Call.selectorOf s = some k ∧ Call.selectorOf t = some k) ↔
      (s = t ∧ s.isEncodable = true) ∨ Collide s t := by
  constructor
  · rintro ⟨k, first, second⟩
    by_cases equal : s = t
    · refine Or.inl ⟨equal, ?_⟩
      rw [← Call.isSome_selectorOf, first]
      rfl
    · refine Or.inr ⟨equal, ?_⟩
      rw [Call.selectorOf_eq, Option.map_eq_some_iff] at first second
      obtain ⟨v, digest, rfl⟩ := first
      obtain ⟨w, other, same⟩ := second
      exact ⟨v, digest, Call.selectorText_inj.mp same ▸ other⟩
  · rintro (⟨rfl, encodable⟩ | ⟨-, word, first, second⟩)
    · rw [← Call.isSome_selectorOf, Option.isSome_iff_exists] at encodable
      obtain ⟨k, encoded⟩ := encodable
      exact ⟨k, encoded, encoded⟩
    · exact ⟨Call.selectorText word, by rw [Call.selectorOf_eq, first]; rfl,
        by rw [Call.selectorOf_eq, second]; rfl⟩

/-- A signature determines the name and the types it was made of, and so does a selector unless two
signatures collide in the first word of their digests. -/
theorem signature_determines_method (n₁ n₂ : Text) (ts₁ ts₂ : List AbiType) :
    let s₁ := Call.signatureOf n₁ (ts₁.map AbiType.canonical)
    let s₂ := Call.signatureOf n₂ (ts₂.map AbiType.canonical)
    (s₁ = s₂ ↔ n₁ = n₂ ∧ ts₁ = ts₂) ∧
      ((∃ k, Call.selectorOf s₁ = some k ∧ Call.selectorOf s₂ = some k) ↔
        (n₁ = n₂ ∧ ts₁ = ts₂) ∧ n₁.isEncodable = true ∨ Collide s₁ s₂) := by
  have signatures := signatureOf_inj n₁ n₂ ts₁ ts₂
  refine ⟨signatures, ?_⟩
  rw [← signatures, ← isEncodable_signatureOf n₁ ts₁]
  exact exists_selector_iff _ _

end ContractAbi.Signature
