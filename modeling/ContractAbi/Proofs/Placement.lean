import ContractAbi.Proofs.Files
import ContractAbi.Proofs.Misspelling

/-!
# Where files are put

A name without a slash is the last component of the path it is joined to, unchanged: the path of a
fragment is that of the folder, a slash and the name (`fragmentPath_eq`). So classes that are written
differently never share a file, whatever their names and the output directory are.
-/

namespace ContractAbi

namespace OutputPath

theorem parse_name (name : Text) (flat : .char '/' ∉ name.toList) (long : 2 ≤ name.toList.length) :
    parse name = ⟨"", [name]⟩ := by
  have start : name.toList.takeWhile (· = CodePoint.char '/') = [] := by
    rw [List.takeWhile_eq_nil_iff]
    intro inside here
    exact flat (of_decide_eq_true here ▸ List.getElem_mem inside)
  have named : name ≠ "" ∧ name ≠ "." := by
    constructor <;> rintro rfl <;> revert long <;> decide
  simp [parse, start, rootOf, List.splitOn_eq_singleton flat, named]

theorem file_name (p : OutputPath) (name : Text) (flat : .char '/' ∉ name.toList)
    (long : 2 ≤ name.toList.length) : p.file name = ⟨p.root, p.parts ++ [name]⟩ := by
  rw [file, parse_name name flat long, join, if_pos rfl]

theorem intercalate_concat (separator : Text) {front : List Text} (some : front ≠ [])
    (last : Text) :
    Text.intercalate separator (front ++ [last]) =
      Text.intercalate separator front ++ separator ++ last := by
  match front with
  | [s] => simp [Text.intercalate_cons_cons]
  | s :: t :: parts =>
    have rest := intercalate_concat separator (List.cons_ne_nil t parts) last
    rw [List.cons_append] at rest
    simp [Text.intercalate_cons_cons, rest, Text.append_assoc]

theorem text_concat (root : Text) {front : List Text} (some : front ≠ []) (name : Text) :
    text ⟨root, front ++ [name]⟩ = text ⟨root, front⟩ ++ "/" ++ name := by
  have deep : front ++ [name] ≠ [] := by simp
  simp only [text, some, deep, and_false, if_false]
  rw [intercalate_concat "/" some, Text.append_assoc, Text.append_assoc, Text.append_assoc]

end OutputPath

namespace Settings

/-- The path of the folder that the fragments are put into. -/
def folderPath (s : Settings) : Text :=
  (s.directory.file "abis").text

theorem fragmentPath_eq (s : Settings) (name : Text) (flat : .char '/' ∉ name.toList)
    (long : 2 ≤ name.toList.length) : s.fragmentPath name = s.folderPath ++ "/" ++ name := by
  rw [fragmentPath, folderPath, OutputPath.file_name _ name flat long,
    OutputPath.file_name _ "abis" (by decide) (by decide), OutputPath.text_concat _ (by simp)]

theorem fragmentPath_inj (s : Settings) (stem stem' ending : Text) (flat : .char '/' ∉ stem.toList)
    (flat' : .char '/' ∉ stem'.toList) (whole : .char '/' ∉ ending.toList)
    (long : 2 ≤ ending.toList.length)
    (same : s.fragmentPath (stem ++ ending) = s.fragmentPath (stem' ++ ending)) : stem = stem' := by
  have path (stem : Text) (flat : .char '/' ∉ stem.toList) :
      s.fragmentPath (stem ++ ending) = s.folderPath ++ "/" ++ (stem ++ ending) := by
    apply fragmentPath_eq
    · simp [flat, whole]
    · rw [Text.toList_append, List.length_append]
      omega
  rw [path stem flat, path stem' flat', Text.append_right_inj, Text.append_left_inj] at same
  exact same

theorem constantsPath_inj (s : Settings) {owner owner' : Name} (flat : .char '/' ∉ owner.label.toList)
    (flat' : .char '/' ∉ owner'.label.toList) (same : s.constantsPath owner = s.constantsPath owner') :
    owner.label = owner'.label := by
  unfold constantsPath at same
  exact s.fragmentPath_inj _ _ ".abi.ts" flat flat' (by decide) (by decide) same

theorem definitionsPath_inj (s : Settings) {owner owner' : Name}
    (flat : .char '/' ∉ owner.label.toList) (flat' : .char '/' ∉ owner'.label.toList)
    (same : s.definitionsPath owner = s.definitionsPath owner') : owner.label = owner'.label := by
  unfold definitionsPath at same
  exact s.fragmentPath_inj _ _ ".d.ts" flat flat' (by decide) (by decide) same

/-- Files of classes that are written differently have different paths. -/
theorem placed_apart (s : Settings) {c c' : ClassFiles} (flat : .char '/' ∉ c.owner.label.toList)
    (flat' : .char '/' ∉ c'.owner.label.toList) (apart : c.owner.label ≠ c'.owner.label) :
    ∀ p ∈ s.placed c, ∀ q ∈ s.placed c', p.1 ≠ q.1 := by
  intro p own q other same
  rcases mem_placed.mp own with rfl | rfl <;> rcases mem_placed.mp other with rfl | rfl <;>
    dsimp only at same
  · exact apart (s.constantsPath_inj flat flat' same)
  · exact s.constantsPath_ne_definitionsPath c.owner c'.owner same
  · exact s.constantsPath_ne_definitionsPath c'.owner c.owner same.symm
  · exact apart (s.definitionsPath_inj flat flat' same)

theorem nodup_placed (s : Settings) {classes : List ClassFiles}
    (flat : ∀ c ∈ classes, .char '/' ∉ c.owner.label.toList)
    (apart : (classes.map (·.owner.label)).Nodup) :
    ((classes.flatMap s.placed).map (·.1)).Nodup := by
  rw [List.map_flatMap, List.nodup_flatMap]
  constructor
  · intro c _
    simpa [placed] using s.constantsPath_ne_definitionsPath c.owner c.owner
  · refine (List.pairwise_map.mp apart).imp_of_mem fun {c c'} listed listed' different => ?_
    intro path own other
    obtain ⟨p, placed, rfl⟩ := List.mem_map.mp own
    obtain ⟨q, placed', same⟩ := List.mem_map.mp other
    exact s.placed_apart (flat c listed) (flat c' listed') different p placed q placed' same.symm

/-- The table of files has the manifest first, and then the two files of each class in turn. -/
theorem entries_table (s : Settings) (unitAbi : Abi) {classes : List ClassFiles}
    (flat : ∀ c ∈ classes, .char '/' ∉ c.owner.label.toList)
    (apart : (classes.map (·.owner.label)).Nodup) :
    (s.table unitAbi classes).keys.Nodup ∧
    (s.table unitAbi classes).entries = (s.manifestPath, unitAbi.manifest) ::
      if s.typescript then classes.flatMap s.placed else [] := by
  have nodup : (((s.manifestPath, unitAbi.manifest) ::
      if s.typescript then classes.flatMap s.placed else []).map (·.1)).Nodup := by
    rw [List.map_cons, List.nodup_cons]
    split
    · refine ⟨fun member => ?_, s.nodup_placed flat apart⟩
      obtain ⟨p, written, same⟩ := List.mem_map.mp member
      obtain ⟨c, -, own⟩ := List.mem_flatMap.mp written
      rcases mem_placed.mp own with rfl | rfl <;> dsimp only at same
      · exact s.manifestPath_ne_constantsPath c.owner same.symm
      · exact s.manifestPath_ne_definitionsPath c.owner same.symm
    · simp
  have entries := Table.entries_ofPairs nodup
  refine ⟨?_, entries⟩
  rw [Table.keys, table, entries]
  exact nodup

end Settings

namespace Transformer

variable {t : Transformer} {code : Codebase} {program : Option Program} {output : Output}
  {files : Table Text Text}

/-- The classes of a run are those whose names its records have. -/
theorem length_owners (success : (t.run code program).2.2 = .ok (output, files)) :
    output.catalog.owners.length = (distinct (output.catalog.records.map (·.owner.key))).length := by
  obtain ⟨g, same, kept⟩ := run_records success
  have plain : ∀ r ∈ output.catalog.records, r.owner.isComposite = false := by
    rw [same]
    intro r member
    obtain ⟨old, listed, rfl⟩ := List.mem_map.mp member
    obtain ⟨call, name, changed⟩ := kept old
    rw [changed]
    exact code.catalog_owners_plain old listed
  rw [← Catalog.owners_keys plain, List.length_map]

/-- Where no class with records has a slash in its name and no two of them are written alike, as no
two texts are, a run has one file for the manifest, which comes first, and two for each class, all
under paths of their own. -/
theorem files_are_kept_apart (success : (t.run code program).2.2 = .ok (output, files))
    (flat : ∀ owner ∈ output.catalog.owners, .char '/' ∉ owner.label.toList)
    (apart : ∀ owner ∈ output.catalog.owners, ∀ other ∈ output.catalog.owners,
      owner.label = other.label → owner = other) :
    files.entries.length = (if t.settings.typescript then
      1 + 2 * (distinct (output.catalog.records.map (·.owner.key))).length else 1) ∧
    files.keys.Nodup ∧
    files.entries.head? = some (t.settings.manifestPath, output.unitAbi.manifest) ∧
    (t.settings.typescript = true → ∀ owner ∈ output.catalog.owners, ∃ abi,
      output.classAbis.lookup owner = some abi ∧
      files.get? (t.settings.constantsPath owner) =
        some (Fragment.filesOf t.layout (owner, abi)).constants ∧
      files.get? (t.settings.definitionsPath owner) =
        some (Fragment.filesOf t.layout (owner, abi)).definitions) := by
  obtain ⟨-, manifests, -⟩ := run_ok success
  have owners : (output.classFiles t.layout).map (·.owner) = output.catalog.owners := by
    rw [← Catalog.classAbis_names manifests, Output.classFiles, List.map_map]
    rfl
  have labels : ((output.classFiles t.layout).map (·.owner.label)).Nodup := by
    have nodup := output.catalog.nodup_owners.map_on apart
    rwa [← owners, List.map_map] at nodup
  have slashes : ∀ c ∈ output.classFiles t.layout, .char '/' ∉ c.owner.label.toList :=
    fun c listed => flat c.owner (owners ▸ List.mem_map_of_mem listed)
  obtain ⟨nodup, entries⟩ := t.settings.entries_table output.unitAbi slashes labels
  rw [← files_of_run_ok success] at nodup entries
  refine ⟨?_, nodup, by rw [entries, List.head?_cons], fun wanted owner listed => ?_⟩
  · rw [entries, ← length_owners success, ← owners]
    split <;> simp [Settings.placed, List.length_flatMap, Nat.mul_comm, Nat.add_comm]
  · obtain ⟨abi, found, -⟩ := Catalog.classAbis_lookup manifests listed
    have member : Fragment.filesOf t.layout (owner, abi) ∈ output.classFiles t.layout := by
      obtain ⟨before, behind, split, -⟩ := List.lookup_eq_some_iff.mp found
      exact List.mem_map.mpr ⟨(owner, abi), by simp [split], rfl⟩
    have written : ∀ p ∈ t.settings.placed (Fragment.filesOf t.layout (owner, abi)),
        files.get? p.1 = some p.2 := by
      intro p own
      refine Table.get?_of_mem nodup ?_
      rw [entries, if_pos wanted]
      exact List.mem_cons_of_mem _ (List.mem_flatMap.mpr ⟨_, member, own⟩)
    refine ⟨abi, found, ?_⟩
    simpa [Settings.placed, Fragment.filesOf] using written

/-- Names that look like endings or like parts of a path. -/
def quay : List Dump.Source := [
  { path := .str "quay.ts", isLibrary := false
    classes := [
      { name := .str "Quay", base := .null, decorators := []
        members := [.method (.str "moor") [⟨.str "method", ["'uint256'"]⟩]] },
      { name := .str "Quay.d", base := .null, decorators := []
        members := [.method (.str "load") [⟨.str "method", []⟩]] },
      { name := .str "..", base := .null, decorators := []
        members := [.method (.str "leave") [⟨.str "returns", ["'bool'"]⟩]] }] }]

def quayside : Transformer where
  settings := { outputDir := "//out//./" }

theorem files_of_quay : ∃ output files,
    (quayside.run (.ofDump quay) none).2.2 = .ok (output, files) ∧
      output.catalog.owners = [.str "Quay", .str "Quay.d", .str ".."] ∧
      files.entries.length = 1 + 2 * 3 ∧ files.keys.Nodup ∧
      files.entries.head? = some (("//out/abi.json" : Text), output.unitAbi.manifest) ∧
      ∃ abi, output.classAbis.lookup (.str "..") = some abi ∧
        files.get? "//out/abis/...abi.ts" =
          some (Fragment.filesOf {} (.str "..", abi)).constants ∧
        files.get? "//out/abis/...d.ts" =
          some (Fragment.filesOf {} (.str "..", abi)).definitions := by
  obtain ⟨output, files, ran⟩ := run_completes quayside
    (show (Codebase.ofDump quay).isTextual = true by decide) (by decide +kernel)
  have facts : (quayside.run (.ofDump quay) none).2.2.toOption.all fun result =>
      result.1.catalog.owners = [.str "Quay", .str "Quay.d", .str ".."] ∧
      (distinct (result.1.catalog.records.map (·.owner.key))).length = 3 := by
    decide +kernel
  rw [ran] at facts
  obtain ⟨owners, three⟩ := of_decide_eq_true facts
  obtain ⟨length, nodup, first, written⟩ := files_are_kept_apart ran
    (by rw [owners]; decide) (by rw [owners]; decide)
  obtain ⟨abi, found, constants, definitions⟩ := written rfl (.str "..") (by rw [owners]; decide)
  have paths : quayside.settings.manifestPath = "//out/abi.json" ∧
      quayside.settings.constantsPath (.str "..") = "//out/abis/...abi.ts" ∧
      quayside.settings.definitionsPath (.str "..") = "//out/abis/...d.ts" := by
    decide +kernel
  rw [three] at length
  rw [paths.1] at first
  rw [paths.2.1] at constants
  rw [paths.2.2] at definitions
  exact ⟨output, files, ran, owners, length, nodup, first, abi, found, constants, definitions⟩

/-- One class is named by a text, the other by the number that the text is written like. -/
def lookalikes : List Dump.Source := [
  { path := .str "vault.ts", isLibrary := false
    classes := [
      { name := .str "1", base := .null, decorators := []
        members := [.method (.str "lock") [⟨.str "method", []⟩]] },
      { name := .int 1, base := .null, decorators := []
        members := [.method (.str "open") [⟨.str "method", []⟩]] }] }]

/-- Two classes with records whose names differ and have no slash share their files. -/
theorem lookalikes_share_files : ∃ output files,
    (({} : Transformer).run (.ofDump lookalikes) none).2.2 = .ok (output, files) ∧
      output.catalog.owners = [.str "1", .int 1] ∧
      (distinct (output.catalog.records.map (·.owner.key))).length = 2 ∧
      (∀ owner ∈ output.catalog.owners, .char '/' ∉ owner.label.toList) ∧
      files.keys =
        [("abis-output/abi.json" : Text), "abis-output/abis/1.abi.ts",
          "abis-output/abis/1.d.ts"] := by
  have facts : (({} : Transformer).run (.ofDump lookalikes) none).2.2.toOption.any fun result =>
      result.1.catalog.owners = [.str "1", .int 1] ∧
      (distinct (result.1.catalog.records.map (·.owner.key))).length = 2 ∧
      (∀ owner ∈ result.1.catalog.owners, .char '/' ∉ owner.label.toList) ∧
      result.2.keys =
        [("abis-output/abi.json" : Text), "abis-output/abis/1.abi.ts",
          "abis-output/abis/1.d.ts"] := by
    decide +kernel
  cases ran : (({} : Transformer).run (.ofDump lookalikes) none).2.2 with
  | error fault =>
    rw [ran] at facts
    cases facts
  | ok result =>
    rw [ran] at facts
    obtain ⟨output, files⟩ := result
    exact ⟨output, files, rfl, of_decide_eq_true facts⟩

end Transformer

end ContractAbi
