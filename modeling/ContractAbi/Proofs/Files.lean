import ContractAbi.Proofs.Agreement

/-!
# Files

Rendering a class starts by resetting the layout. So the constants and the definitions of a class
follow from its manifest and the unit of indentation, and the files of a run from its manifests. Paths
of constants and paths of definitions end in different ways: a file can only be shared by classes
whose names lead to the same path.
-/

namespace ContractAbi

/-! ### The files of a class -/

/-- The texts of the two files of a class. -/
structure ClassFiles where
  owner : Name
  constants : Text
  definitions : Text
deriving DecidableEq, Repr

namespace Fragment

/-- The text of a rendering, of which there is none if a fault stops it. -/
def textOf (x : Render Text) (l : Layout) : Text :=
  (x.run.run l).1.toOption.getD ""

theorem run_eq_textOf {x : Render Text} (ends : Render.Ends none x) (l : Layout) :
    (x.run.run l).1 = .ok (textOf x l) := by
  obtain ⟨text, ended⟩ := ends l
  rw [textOf, ended]
  rfl

/-- What is written for a class with this manifest. -/
def filesOf (l : Layout) (entry : Name × Abi) : ClassFiles where
  owner := entry.1
  constants := textOf (constants entry.1.label entry.2) l
  definitions := textOf (definitions entry.1.label entry.2) l

theorem both_run {l l' : Layout} (unit : l'.indentUnit = l.indentUnit) (owner : Name) (abi : Abi) :
    ((both owner.label abi).run.run l').1 = if abi.isTextual then
        .ok ((filesOf l (owner, abi)).constants, (filesOf l (owner, abi)).definitions)
      else .error .notText := by
  have ends := ends_both owner.label abi l'
  cases textual : abi.isTextual with
  | false =>
    rw [textual] at ends
    exact ends
  | true =>
    have constants := startsOver_constants owner.label abi
    have definitions := startsOver_definitions owner.label abi
    have kept := (constants.unit l').trans unit
    have first := ends_constants owner.label abi
    have second := ends_definitions owner.label abi
    rw [textual] at first
    rw [capitalFault?_of_isTextual textual] at second
    have quoted := run_eq_textOf first l
    have declared := run_eq_textOf second l
    rw [← constants.run_eq unit] at quoted
    rw [← definitions.run_eq kept] at declared
    unfold both
    rw [run_bind_ok (Prod.ext quoted rfl), run_bind_ok (Prod.ext declared rfl)]
    rfl

end Fragment

namespace Settings

/-- The files of a class with their paths. -/
def placed (s : Settings) (c : ClassFiles) : List (Text × Text) :=
  [(s.constantsPath c.owner, c.constants), (s.definitionsPath c.owner, c.definitions)]

/-- The table of the manifest and, if they are wanted, the files of these classes. -/
def table (s : Settings) (unitAbi : Abi) (classes : List ClassFiles) : Table Text Text :=
  .ofPairs ((s.manifestPath, unitAbi.manifest) ::
    if s.typescript then classes.flatMap s.placed else [])

theorem fragments_run (s : Settings) {abis : List (Name × Abi)}
    (nonempty : ∀ entry ∈ abis, entry.2.functions ≠ []) {l l' : Layout}
    (unit : l'.indentUnit = l.indentUnit) :
    ((s.fragments abis).run.run l').1 = if abis.all (·.2.isTextual) then
        .ok ((abis.map (Fragment.filesOf l)).flatMap s.placed)
      else .error .notText := by
  induction abis generalizing l' with
  | nil => rfl
  | cons entry rest ih =>
    obtain ⟨owner, abi⟩ := entry
    have first := Fragment.both_run unit owner abi
    have kept := Fragment.keepsUnit_both owner.label abi l'
    rw [fragments, if_neg (nonempty _ List.mem_cons_self), List.all_cons]
    cases textual : abi.isTextual with
    | false =>
      rw [textual] at first
      rw [run_bind_error (Prod.ext first rfl)]
      rfl
    | true =>
      rw [textual] at first
      rw [run_bind_ok (Prod.ext first rfl), Bool.true_and]
      have others := ih (fun entry member => nonempty entry (List.mem_cons_of_mem _ member))
        (kept.trans unit)
      cases all : rest.all (·.2.isTextual) with
      | false =>
        rw [all] at others
        rw [run_bind_error (Prod.ext others rfl)]
        rfl
      | true =>
        rw [all] at others
        rw [run_bind_ok (Prod.ext others rfl)]
        rfl

theorem files_run (s : Settings) (unitAbi : Abi) {abis : List (Name × Abi)}
    (nonempty : ∀ entry ∈ abis, entry.2.functions ≠ []) {l l' : Layout}
    (unit : l'.indentUnit = l.indentUnit) :
    ((s.files unitAbi abis).run.run l').1 =
      if s.typescript = true → abis.all (·.2.isTextual) = true then
        .ok (s.table unitAbi (abis.map (Fragment.filesOf l)))
      else .error .notText := by
  unfold files table
  cases s.typescript with
  | false => rfl
  | true =>
    have fragments := s.fragments_run nonempty unit
    cases all : abis.all (·.2.isTextual) with
    | false =>
      rw [all] at fragments
      exact congrArg Prod.fst (run_bind_error (Prod.ext fragments rfl))
    | true =>
      rw [all] at fragments
      exact congrArg Prod.fst (run_bind_ok (Prod.ext fragments rfl))

end Settings

/-! ### Paths -/

theorem splitOn_append_end (cs : List CodePoint) {ending : List CodePoint} {c : CodePoint}
    (whole : c ∉ ending) :
    ∃ front last, (cs ++ ending).splitOn c = front ++ [last ++ ending] := by
  induction cs with
  | nil => exact ⟨[], [], List.splitOn_eq_singleton whole⟩
  | cons d cs ih =>
    obtain ⟨front, last, split⟩ := ih
    unfold List.splitOn at split ⊢
    rw [List.cons_append, List.splitOnP_cons_eq_if_modifyHead, split]
    by_cases here : d = c
    · exact ⟨[] :: front, last, by simp [here]⟩
    · cases front with
      | nil => exact ⟨[], d :: last, by simp [here]⟩
      | cons part front => exact ⟨(d :: part) :: front, last, by simp [here]⟩

theorem suffix_intercalate (separator last : List CodePoint) (parts : List (List CodePoint)) :
    last <:+ separator.intercalate (parts ++ [last]) := by
  induction parts with
  | nil => simp [List.intercalate]
  | cons part parts ih =>
    obtain ⟨next, others, more⟩ : ∃ next others, parts ++ [last] = next :: others :=
      List.exists_cons_of_ne_nil (by simp)
    rw [List.cons_append, more, List.intercalate_cons_cons, ← more]
    exact ih.trans (List.suffix_append ..)

theorem ne_of_suffix {a b : Text} {x y : List CodePoint} (ends : x <:+ a.toList)
    (ends' : y <:+ b.toList) (shorter : x.length ≤ y.length) (apart : ¬x <:+ y) : a ≠ b := by
  rintro rfl
  exact apart (List.suffix_of_suffix_length_le ends ends' shorter)

namespace OutputPath

theorem suffix_text {p : OutputPath} {front : List Text} {last : Text}
    (parts : p.parts = front ++ [last]) : last.toList <:+ p.text.toList := by
  have named : ¬(p.root = "" ∧ p.parts = []) := by simp [parts]
  rw [text, if_neg named, Text.toList_append, Text.toList_intercalate, parts, List.map_append]
  exact (suffix_intercalate _ _ _).trans (List.suffix_append _ _)

theorem parts_parse (stem ending : Text) (whole : .char '/' ∉ ending.toList)
    (long : 2 ≤ ending.toList.length) : ∃ front last,
      (parse (stem ++ ending)).parts = front ++ [Text.ofList (last ++ ending.toList)] := by
  obtain ⟨front, last, split⟩ := splitOn_append_end stem.toList whole
  have named : Text.ofList (last ++ ending.toList) ≠ "" ∧
      Text.ofList (last ++ ending.toList) ≠ "." := by
    constructor <;> intro same <;> have chars := congrArg (·.toList.length) same
    all_goals
      rw [Text.toList_ofList, List.length_append] at chars
      have : (Text.toList "").length = 0 ∧ (Text.toList ".").length = 1 := by decide
      omega
  refine ⟨(front.map Text.ofList).filter fun part => part ≠ "" ∧ part ≠ ".", last, ?_⟩
  rw [parse, Text.toList_append, split, List.map_append, List.filter_append, List.map_singleton]
  generalize Text.ofList (last ++ ending.toList) = part at named ⊢
  simp [named]

/-- The name of a file ends its path. -/
theorem suffix_text_file (p : OutputPath) (stem ending : Text) (whole : .char '/' ∉ ending.toList)
    (long : 2 ≤ ending.toList.length) :
    ending.toList <:+ (p.file (stem ++ ending)).text.toList := by
  obtain ⟨front, last, parts⟩ := parts_parse stem ending whole long
  have ends (p : OutputPath) (front : List Text)
      (same : p.parts = front ++ [Text.ofList (last ++ ending.toList)]) :
      ending.toList <:+ p.text.toList := by
    have whole := suffix_text same
    rw [Text.toList_ofList] at whole
    exact (List.suffix_append last ending.toList).trans whole
  unfold file join
  split
  · exact ends _ (p.parts ++ front) (by rw [parts, List.append_assoc])
  · exact ends _ front parts

end OutputPath

namespace Settings

theorem suffix_constantsPath (s : Settings) (owner : Name) :
    Text.toList ".abi.ts" <:+ (s.constantsPath owner).toList :=
  OutputPath.suffix_text_file _ _ _ (by decide) (by decide)

theorem suffix_definitionsPath (s : Settings) (owner : Name) :
    Text.toList ".d.ts" <:+ (s.definitionsPath owner).toList :=
  OutputPath.suffix_text_file _ _ _ (by decide) (by decide)

theorem suffix_manifestPath (s : Settings) : Text.toList "abi.json" <:+ s.manifestPath.toList :=
  OutputPath.suffix_text_file _ "" _ (by decide) (by decide)

theorem constantsPath_ne_definitionsPath (s : Settings) (owner owner' : Name) :
    s.constantsPath owner ≠ s.definitionsPath owner' :=
  (ne_of_suffix (s.suffix_definitionsPath owner') (s.suffix_constantsPath owner) (by decide)
    (by decide)).symm

theorem manifestPath_ne_constantsPath (s : Settings) (owner : Name) :
    s.manifestPath ≠ s.constantsPath owner :=
  (ne_of_suffix (s.suffix_constantsPath owner) s.suffix_manifestPath (by decide) (by decide)).symm

theorem manifestPath_ne_definitionsPath (s : Settings) (owner : Name) :
    s.manifestPath ≠ s.definitionsPath owner :=
  (ne_of_suffix (s.suffix_definitionsPath owner) s.suffix_manifestPath (by decide) (by decide)).symm

/-! ### Reading files -/

theorem mem_placed {s : Settings} {c : ClassFiles} {p : Text × Text} :
    p ∈ s.placed c ↔ p = (s.constantsPath c.owner, c.constants) ∨
      p = (s.definitionsPath c.owner, c.definitions) := by
  simp [placed]

/-- A file of a class can be read back from its path if no other class has that path. -/
theorem get?_table {s : Settings} (wanted : s.typescript = true) (unitAbi : Abi)
    {classes : List ClassFiles} {c : ClassFiles} (listed : c ∈ classes) {p : Text × Text}
    (own : p ∈ s.placed c)
    (alone : ∀ other ∈ classes, other ≠ c → ∀ q ∈ s.placed other, q.1 ≠ p.1) :
    (s.table unitAbi classes).get? p.1 = some p.2 := by
  have manifest : s.manifestPath ≠ p.1 := by
    rcases mem_placed.mp own with same | same <;> rw [same] <;> dsimp only
    · exact s.manifestPath_ne_constantsPath c.owner
    · exact s.manifestPath_ne_definitionsPath c.owner
  unfold table
  rw [if_pos wanted]
  refine Table.get?_ofPairs (List.mem_cons_of_mem _ (List.mem_flatMap.mpr ⟨c, listed, own⟩)) ?_
  intro q member same
  rcases List.mem_cons.mp member with rfl | written
  · exact absurd same manifest
  obtain ⟨other, inside, placed⟩ := List.mem_flatMap.mp written
  by_cases here : other = c
  · subst here
    have apart := s.constantsPath_ne_definitionsPath other.owner other.owner
    rcases mem_placed.mp own with own | own <;> rcases mem_placed.mp placed with placed | placed <;>
      rw [own, placed] at same ⊢ <;> dsimp only at same
    · exact absurd same.symm apart
    · exact absurd same apart
  · exact absurd same (alone other inside here q placed)

end Settings

/-! ### Runs -/

/-- The texts of the files of every class. -/
def Output.classFiles (o : Output) (l : Layout) : List ClassFiles :=
  o.classAbis.map (Fragment.filesOf l)

namespace Transformer

variable {t : Transformer} {code : Codebase} {program : Option Program} {c : Catalog} {s : Injector}
  {output : Output} {files : Table Text Text}

theorem Stages.functions_ne_nil (stages : Stages t code program c s output) :
    ∀ entry ∈ output.classAbis, entry.2.functions ≠ [] := by
  intro entry member
  obtain ⟨-, -, manifests, -⟩ := Catalog.build_ok stages.unsettled stages.built
  obtain ⟨owner, listed, -, built⟩ := exists_of_forall₂ (Catalog.classAbis_eq_ok manifests) member
  obtain ⟨functions, made, built⟩ := bind_ok built
  obtain ⟨events, -, built⟩ := bind_ok built
  have nonempty : output.catalog.recordsOf owner ≠ [] :=
    (stages.ready _ (List.mem_map_of_mem listed)).1
  have length := (mapM_eq_ok.mp made).length_eq
  rw [← Except.ok.inj built]
  rintro rfl
  exact nonempty (List.length_eq_zero_iff.mp length)

/-- The files of a run, or the fault that stops it when it comes to them. -/
theorem Stages.outcome (stages : Stages t code program c s output) :
    (t.run code program).2.2 =
      if t.settings.typescript = true → output.classAbis.all (·.2.isTextual) = true then
        .ok (output, t.settings.table output.unitAbi (output.classFiles t.layout))
      else .error .notText := by
  have unit : s.layout.indentUnit = t.layout.indentUnit := by
    rw [stages.layout]
    split <;> rfl
  rw [stages.ran, t.settings.files_run output.unitAbi stages.functions_ne_nil unit]
  dsimp only
  split <;> rfl

theorem files_of_run_ok (h : (t.run code program).2.2 = .ok (output, files)) :
    files = t.settings.table output.unitAbi (output.classFiles t.layout) := by
  obtain ⟨c, s, stages⟩ := run_stages h
  rw [stages.outcome] at h
  split at h
  · exact (Prod.mk.inj (Except.ok.inj h)).2.symm
  · cases h

end Transformer

end ContractAbi
