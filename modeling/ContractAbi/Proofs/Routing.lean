import ContractAbi.Proofs.Agreement
import ContractAbi.Proofs.Hex

/-!
# What routines do

A routine's text is read back line by line and run on a selector: its guards are tried from top to
bottom, and a call that no guard takes goes to the parent class. `read?_routineText` shows that the
guards read are the guards written.
-/

namespace ContractAbi.Routing

/-! ### Reading routines -/

/-- Where a call goes. -/
inductive Target where
  | own (method : Text)
  | parent
deriving DecidableEq, Repr

/-- Letters, digits, `_`, `$` and everything beyond ASCII. -/
def isNameChar (c : CodePoint) : Bool :=
  c.isAlphanum || c = '_' || c = '$' || 127 < c.toNat

def isIdentifier (name : Text) : Bool :=
  match name.toList with
  | [] => false
  | c :: cs => !c.isDigit && (c :: cs).all isNameChar

/-- A guard's digits and method, read from
`if (selector == 0x<digits>) return this.<method>(calldata);`. -/
def readGuard? (line : List CodePoint) : Option (Text × Text) := do
  let rest ← (Text.toList "if (selector == 0x").isPrefixOf? line
  let digits := Text.ofList (rest.takeWhile Text.isHexDigit)
  let rest ← (Text.toList ") return this.").isPrefixOf? (rest.dropWhile Text.isHexDigit)
  let method := Text.ofList (rest.takeWhile isNameChar)
  let rest := rest.dropWhile isNameChar
  if digits ≠ "" ∧ isIdentifier method = true ∧ rest = Text.toList "(calldata);" then
    some (digits, method)
  else none

/-- The guards of a body, up to the call of the parent class and the closing brace. -/
def readBody? : List (List CodePoint) → Option (List (Text × Text))
  | [] => none
  | line :: rest =>
    if line = Text.toList "return super.execute(selector, calldata);" then
      if rest = [Text.toList "\x7d"] then some [] else none
    else do
      let guard ← readGuard? line
      let guards ← readBody? rest
      return guard :: guards

/-- The guards of a routine, which starts with a comment and the head of the method. Indentation is
passed over. -/
def read? (text : Text) : Option (List (Text × Text)) :=
  match (text.toList.splitOn (.char '\n')).map (List.dropWhile (· = CodePoint.char ' ')) with
  | comment :: head :: body =>
    if comment.take 2 = Text.toList "//" ∧
        head = Text.toList
          "public override execute(selector: u32, calldata: Calldata): BytesWriter \x7b"
    then readBody? body
    else none
  | _ => none

/-- Tries guards from top to bottom. -/
def send (selector : UInt32) : List (Text × Text) → Target
  | [] => .parent
  | (digits, method) :: rest =>
    if Text.hexValue? digits.toList = some selector.toNat then .own method else send selector rest

/-- Where the routine with this text sends a call. -/
def route? (text : Text) (selector : UInt32) : Option Target :=
  (read? text).map (send selector)

/-! ### Reading back what was written -/

theorem isNameChar_of_isIdentifier {name : Text} (identifier : isIdentifier name = true) :
    ∀ c ∈ name.toList, isNameChar c = true := by
  unfold isIdentifier at identifier
  split at identifier
  · cases identifier
  · rename_i c cs chars
    rw [chars]
    exact List.all_eq_true.mp (Bool.and_eq_true_iff.mp identifier).2

/-- What a guard can be read from: some hexadecimal digits and an identifier. -/
def IsReadable (guard : Text × Text) : Prop :=
  guard.1 ≠ "" ∧ (∀ c ∈ guard.1.toList, Text.isHexDigit c = true) ∧ isIdentifier guard.2 = true

theorem toList_guardText (digits method : Text) :
    (Dispatch.guardText digits method).toList =
      Text.toList "if (selector == 0x" ++ (digits.toList ++ (Text.toList ") return this." ++
        (method.toList ++ Text.toList "(calldata);"))) := by
  -- The literals are generalised, or rewriting would evaluate them.
  have pieces (a b c d : Text) : (a ++ (b ++ digits) ++ c ++ method ++ d).toList =
      (a ++ b).toList ++ (digits.toList ++ (c.toList ++ (method.toList ++ d.toList))) := by
    simp
  have opening : "if (selector == " ++ "0x" = "if (selector == 0x" := by decide
  exact (pieces "if (selector == " "0x" ") return this." "(calldata);").trans (opening ▸ rfl)

theorem readGuard?_guardText {digits method : Text} (readable : IsReadable (digits, method)) :
    readGuard? (Dispatch.guardText digits method).toList = some (digits, method) := by
  obtain ⟨nonempty, hex, identifier⟩ := readable
  dsimp only at nonempty hex identifier
  have name := isNameChar_of_isIdentifier identifier
  have middle : Text.toList ") return this." = .char ')' :: Text.toList " return this." := by decide
  have last : Text.toList "(calldata);" = .char '(' :: Text.toList "calldata);" := by decide
  have taken (xs ys : List CodePoint) : xs.isPrefixOf? (xs ++ ys) = some ys :=
    List.isPrefixOf?_eq_some_iff_append_eq.mpr rfl
  rw [toList_guardText, readGuard?, taken, Option.bind_eq_bind, Option.bind_some]
  dsimp only
  rw [middle, List.cons_append, Text.takeWhile_append_stop hex (by decide),
    Text.dropWhile_append_stop hex (by decide), ← List.cons_append, ← middle, taken,
    Option.bind_some, last, Text.takeWhile_append_stop name (by decide),
    Text.dropWhile_append_stop name (by decide), Text.ofList_toList, Text.ofList_toList,
    if_pos ⟨nonempty, identifier, rfl⟩]

theorem readBody?_written (guards : List (Text × Text))
    (readable : ∀ guard ∈ guards, IsReadable guard) :
    readBody? (guards.map (fun (digits, method) => (Dispatch.guardText digits method).toList) ++
      [Text.toList "return super.execute(selector, calldata);", Text.toList "\x7d"]) = some guards := by
  induction guards with
  | nil => rfl
  | cons guard guards ih =>
    obtain ⟨digits, method⟩ := guard
    have read := readGuard?_guardText (readable _ List.mem_cons_self)
    have rest := ih fun guard member => readable guard (List.mem_cons_of_mem _ member)
    have other : (Dispatch.guardText digits method).toList ≠
        Text.toList "return super.execute(selector, calldata);" := by
      intro same
      have refused : readGuard? (Text.toList "return super.execute(selector, calldata);") = none := by
        decide
      rw [same, refused] at read
      cases read
    rw [List.map_cons, List.cons_append, readBody?, if_neg other, read, rest]
    rfl

/-! ### Lines -/

theorem noBreak_guardText {digits method : Text} (readable : IsReadable (digits, method)) :
    .char '\n' ∉ (Dispatch.guardText digits method).toList := by
  obtain ⟨-, hex, identifier⟩ := readable
  have opening : .char '\n' ∉ Text.toList "if (selector == 0x" := by decide
  have middle : .char '\n' ∉ Text.toList ") return this." := by decide
  have last : .char '\n' ∉ Text.toList "(calldata);" := by decide
  have inDigits : .char '\n' ∉ digits.toList := fun member => absurd (hex _ member) (by decide)
  have inMethod : .char '\n' ∉ method.toList := fun member =>
    absurd (isNameChar_of_isIdentifier identifier _ member) (by decide)
  rw [toList_guardText, List.mem_append, List.mem_append, List.mem_append, List.mem_append]
  rintro (inside | inside | inside | inside | inside)
  · exact opening inside
  · exact inDigits inside
  · exact middle inside
  · exact inMethod inside
  · exact last inside

theorem strip_append {indent text : Text} (blank : ∀ c ∈ indent.toList, c = ' ')
    (first : text.toList.head? ≠ some (.char ' ')) :
    (indent ++ text).toList.dropWhile (· = CodePoint.char ' ') = text.toList := by
  rw [Text.toList_append, List.dropWhile_append_of_pos fun c member => by simp [blank c member]]
  exact List.dropWhile_beq_eq_self_of_head?_ne first

theorem head?_guardText (digits method : Text) :
    (Dispatch.guardText digits method).toList.head? = some (.char 'i') := by
  have opening :
      Text.toList "if (selector == 0x" = .char 'i' :: Text.toList "f (selector == 0x" := by decide
  rw [toList_guardText, opening]
  rfl

section Routine

variable {indent : Text} {guards : List (Text × Text)}

theorem noBreak_routineLines (blank : ∀ c ∈ indent.toList, c = ' ')
    (readable : ∀ guard ∈ guards, IsReadable guard) :
    ∀ line ∈ (Dispatch.routineLines indent guards).map Text.toList, .char '\n' ∉ line := by
  have inIndent : .char '\n' ∉ indent.toList := fun member => absurd (blank _ member) (by decide)
  have comment : .char '\n' ∉ Dispatch.marker.toList := by decide
  have head : .char '\n' ∉ Dispatch.headLine.toList := by decide
  have parent : .char '\n' ∉ Dispatch.parentLine.toList := by decide
  have brace : .char '\n' ∉ Text.toList "\x7d" := by decide
  intro line member
  obtain ⟨text, listed, rfl⟩ := List.mem_map.mp member
  rcases List.mem_cons.mp listed with rfl | listed
  · exact comment
  rcases List.mem_cons.mp listed with rfl | listed
  · exact head
  rcases List.mem_append.mp listed with guard | listed
  · obtain ⟨⟨digits, method⟩, own, rfl⟩ := List.mem_map.mp guard
    rw [Text.toList_append, List.mem_append]
    rintro (inside | inside)
    · exact inIndent inside
    · exact noBreak_guardText (readable _ own) inside
  rcases List.mem_cons.mp listed with rfl | listed
  · rw [Text.toList_append, List.mem_append]
    rintro (inside | inside)
    · exact inIndent inside
    · exact parent inside
  · obtain rfl := List.mem_singleton.mp listed
    exact brace

theorem strip_routineLines (blank : ∀ c ∈ indent.toList, c = ' ') :
    ((Dispatch.routineLines indent guards).map Text.toList).map
        (List.dropWhile (· = CodePoint.char ' ')) =
      Dispatch.marker.toList :: Dispatch.headLine.toList ::
        (guards.map (fun (digits, method) => (Dispatch.guardText digits method).toList) ++
          [Dispatch.parentLine.toList, Text.toList "\x7d"]) := by
  have unindented {cs : List CodePoint} (first : cs.head? ≠ some (.char ' ')) :
      cs.dropWhile (· = CodePoint.char ' ') = cs :=
    List.dropWhile_beq_eq_self_of_head?_ne first
  have comment : Dispatch.marker.toList.head? ≠ some (.char ' ') := by decide
  have head : Dispatch.headLine.toList.head? ≠ some (.char ' ') := by decide
  have parent : Dispatch.parentLine.toList.head? ≠ some (.char ' ') := by decide
  have brace : (Text.toList "\x7d").head? ≠ some (.char ' ') := by decide
  have each : guards.map (fun (digits, method) =>
      (indent ++ Dispatch.guardText digits method).toList.dropWhile (· = CodePoint.char ' ')) =
      guards.map fun (digits, method) => (Dispatch.guardText digits method).toList := by
    refine List.map_congr_left fun guard _ => strip_append blank ?_
    rw [head?_guardText]
    decide
  rw [Dispatch.routineLines, List.map_map, List.map_cons, List.map_cons, List.map_append,
    List.map_map, List.map_cons, List.map_singleton, Function.comp_apply, Function.comp_apply,
    Function.comp_apply, Function.comp_apply, unindented comment, unindented head,
    strip_append blank parent, unindented brace, ← each]
  rfl

/-- The guards of a routine are read as they were written. -/
theorem read?_routineText (blank : ∀ c ∈ indent.toList, c = ' ')
    (readable : ∀ guard ∈ guards, IsReadable guard) :
    read? (Dispatch.routineText indent guards) = some guards := by
  have lineFeed : Text.toList "\n" = [.char '\n'] := by decide
  have comment : Dispatch.marker.toList.take 2 = Text.toList "//" := by decide
  have head : Dispatch.headLine =
      "public override execute(selector: u32, calldata: Calldata): BytesWriter \x7b" := rfl
  have split : (Dispatch.routineText indent guards).toList.splitOn (.char '\n') =
      (Dispatch.routineLines indent guards).map Text.toList := by
    rw [Dispatch.routineText, Text.toList_intercalate, lineFeed]
    exact List.splitOn_intercalate (CodePoint.char '\n') (noBreak_routineLines blank readable) (by
      simp [Dispatch.routineLines])
  unfold read?
  rw [split, strip_routineLines blank]
  dsimp only
  rw [if_pos ⟨comment, congrArg Text.toList head⟩]
  exact readBody?_written guards readable

end Routine

/-! ### Routing by selector -/

theorem isReadable_of_published {records : List Record} {functions : List FunctionEntry}
    (each : List.Forall₂ Record.Publishes records functions)
    (identifiers : ∀ r ∈ records, isIdentifier r.declared.label = true) :
    ∀ guard ∈ functions.map (fun f => (f.call.selector, f.declared.label)), IsReadable guard := by
  intro guard member
  obtain ⟨f, entry, rfl⟩ := List.mem_map.mp member
  obtain ⟨r, listed, published⟩ := exists_of_forall₂ each entry
  obtain ⟨word, selector⟩ := Record.exists_selectorText_of_published each f entry
  rw [selector, published.declared]
  exact ⟨Call.selectorText_ne_empty _, fun c => Call.isHexDigit_of_mem_selectorText,
    identifiers r listed⟩

/-- Trying the guards of functions from top to bottom finds the first function whose selector is the
given number. -/
theorem send_functions (selector : UInt32) {functions : List FunctionEntry}
    (words : ∀ f ∈ functions, ∃ word, f.call.selector = Call.selectorText word) :
    send selector (functions.map fun f => (f.call.selector, f.declared.label)) =
      match functions.find? fun f => Call.selectorValue? f.call.selector = some selector with
      | some f => .own f.declared.label
      | none => .parent := by
  induction functions with
  | nil => rfl
  | cons f functions ih =>
    have rest := ih fun f member => words f (List.mem_cons_of_mem _ member)
    have numeral : Text.hexValue? f.call.selector.toList = some selector.toNat ↔
        Call.selectorValue? f.call.selector = some selector := by
      obtain ⟨word, written⟩ := words f List.mem_cons_self
      rw [written]
      exact Call.hexValue?_selectorText_iff word selector
    rw [List.map_cons, send, List.find?_cons]
    by_cases hit : Call.selectorValue? f.call.selector = some selector
    · simp [hit, numeral]
    · simp [hit, numeral, rest]

/-- A routine calls the method of the first entry in the class's manifest that has the selector, and
leaves all other selectors to the parent class. -/
theorem routing_follows_manifest {t : Transformer} {code : Codebase} {program : Option Program}
    {output : Output} {files : Table Text Text} (reachable : t.Reachable)
    (success : (t.run code program).2.2 = .ok (output, files)) {owner : Name}
    (listed : owner ∈ output.catalog.owners)
    (identifiers : ∀ r ∈ output.catalog.recordsOf owner, isIdentifier r.declared.label = true) :
    ∃ abi text, output.classAbis.lookup owner = some abi ∧
      output.routines.lookup owner = some text ∧
      read? text = some (abi.functions.map fun f => (f.call.selector, f.declared.label)) ∧
      ∀ selector : UInt32, route? text selector = some
        (match abi.functions.find? fun f => Call.selectorValue? f.call.selector = some selector with
        | some f => .own f.declared.label
        | none => .parent) := by
  obtain ⟨abi, found, each, routine⟩ := Transformer.run_class success listed
  have blank : ∀ c ∈ t.layout.indentUnit.toList, c = ' ' := by
    have spaces : Text.toList "    " = List.replicate 4 (.char ' ') := by decide
    rw [reachable.indentUnit, spaces]
    exact fun c => List.eq_of_mem_replicate
  have read := read?_routineText blank (isReadable_of_published each identifiers)
  refine ⟨abi, _, found, routine, read, ?_⟩
  intro selector
  rw [route?, read, Option.map_some, send_functions selector
    (Record.exists_selectorText_of_published each)]

/-- Two methods share a selector here. -/
theorem routing_of_token : ∃ output files abi text,
    (({} : Transformer).run Transformer.token none).2.2 = .ok (output, files) ∧
      output.classAbis.lookup (.str "Token") = some abi ∧
      output.routines.lookup (.str "Token") = some text ∧
      read? text = some (abi.functions.map fun f => (f.call.selector, f.declared.label)) ∧
      ∀ selector : UInt32, route? text selector = some
        (match abi.functions.find? fun f => Call.selectorValue? f.call.selector = some selector with
        | some f => .own f.declared.label
        | none => .parent) := by
  obtain ⟨output, files, ran, owners, declared⟩ := Transformer.run_token
  have identifiers : ∀ r ∈ output.catalog.recordsOf (.str "Token"),
      isIdentifier r.declared.label = true := by
    have known : ∀ name ∈ [Json.str "transfer", Json.str "send"],
        isIdentifier name.label = true := by decide
    intro r member
    apply known
    rw [← declared]
    exact List.mem_map_of_mem member
  obtain ⟨abi, text, found⟩ := routing_follows_manifest (.fresh {}) ran (by simp [owners]) identifiers
  exact ⟨output, files, abi, text, ran, found⟩

end ContractAbi.Routing
