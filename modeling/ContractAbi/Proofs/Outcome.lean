import ContractAbi.Proofs.Textual

/-!
# How runs end

A run over code whose names are texts has four ways to end. The program may lack a method, a
spelling may name no type, a signature may have no encoding, and otherwise the run comes to its end.
`failure?_run` says which, and what comes first.
-/

namespace ContractAbi

namespace Catalog

/-! ### Names that are looked up -/

theorem IsTextual.owner_eq {c : Catalog} (textual : c.IsTextual) {owner : Name} {r : Record}
    (listed : owner ∈ c.owners) (own : r ∈ c.recordsOf owner) : r.owner = owner := by
  obtain ⟨member, same⟩ := List.mem_filter.mp own
  obtain ⟨first, met, rfl⟩ := exists_record_of_mem_owners listed
  obtain ⟨a, ha⟩ := Json.eq_str_of_text? (textual.owners r member)
  obtain ⟨b, hb⟩ := Json.eq_str_of_text? (textual.owners first met)
  rw [ha, hb] at same ⊢
  simpa [Json.key] using same

/-- Looking up names fails at the first record that the program has no name for. -/
theorem failure?_resolveNames {c : Catalog} (textual : c.IsTextual) (p : Program) :
    failure? (c.resolveNames p).2 =
      (c.ordered.find? (Record.isDropped p)).map fun r =>
        .declarationNotFound r.owner.label r.name.label := by
  rw [resolveNames, failure?_forM, ordered, List.find?_flatMap, List.map_findSome?]
  apply findSome?_congr
  intro group member
  obtain ⟨owner, listed, rfl⟩ := List.mem_map.mp member
  dsimp only [Function.comp]
  cases dropped : (c.recordsOf owner).find? (Record.isDropped p) with
  | none => rfl
  | some r =>
    -- The fault names the class as its first record does, which for texts is as any of them does.
    have same := textual.owner_eq listed (List.mem_of_find?_eq_some dropped)
    rw [Option.map_some, same]
    rfl

theorem IsTextual.mapRecords {c : Catalog} (textual : c.IsTextual) {g : Record → Record}
    (owner : ∀ r, (g r).owner = r.owner) (name : ∀ r, (g r).name = r.name) :
    (c.mapRecords g).IsTextual := by
  refine ⟨?_, ?_, textual.events⟩
  all_goals
    intro r member
    obtain ⟨old, before, rfl⟩ := List.mem_map.mp member
  · rw [owner]
    exact textual.owners old before
  · rw [name]
    exact textual.names old before

theorem IsTextual.settled {c : Catalog} (textual : c.IsTextual) : c.settled.IsTextual := by
  apply textual.mapRecords
  · exact fun r => by split <;> simp
  · exact fun r => by split <;> simp

end Catalog

/-! ### The program of all declarations -/

theorem Program.nameSources_completes {state : Registry × Program} {sources : List Source} :
    (∃ p, (nameSources state sources).2 = .ok p) ↔
      ∀ s ∈ sources, s.path.text?.isSome = true := by
  induction sources generalizing state with
  | nil => exact iff_of_true ⟨_, rfl⟩ nofun
  | cons source rest ih =>
    rw [List.forall_mem_cons]
    unfold nameSources
    split
    · rename_i path text
      rw [ih, text]
      exact (and_iff_right rfl).symm
    · rename_i other
      refine iff_of_false nofun fun texts => ?_
      obtain ⟨path, text⟩ := Json.eq_str_of_text? texts.1
      exact other path text

/-- The program of all declarations lacks no record. -/
theorem Codebase.programOr_none {code : Codebase} (walked : code.surveyed.2 = .ok ())
    (texts : ∀ s ∈ code.sources, s.path.text?.isSome = true) :
    ∃ p, code.programOr none = .ok p ∧ ∀ r ∈ code.catalog.records, r.isDropped p = false := by
  obtain ⟨p, named⟩ := Program.nameSources_completes.mpr texts
  refine ⟨p, named, ?_⟩
  intro r member
  have sound := surveyed_sound (Prod.ext rfl walked)
  obtain ⟨key, known, held⟩ := sound.registered r member
  rw [← map_method_elements, List.map_map] at known
  obtain ⟨e, listed, rfl⟩ := List.mem_map.mp known
  have holds : Program.Holds e.key r.handle (code.surveyed.1.registry, {}) := held.1
  have reached := Program.nameSources_reaches listed holds named
  unfold Program.Names at reached
  unfold Record.isDropped
  simpa using reached

/-! ### Outcomes -/

namespace Transformer

/-- A run fails at the first record that its program lacks, else at the first fault that building
meets, else not at all. -/
theorem failure?_run (t : Transformer) {code : Codebase} {program : Option Program} {p : Program}
    (textual : code.isTextual = true) (chosen : code.programOr program = .ok p) :
    failure? (t.run code program).2.2 =
      ((code.catalog.ordered.find? (Record.isDropped p)).map fun r =>
        Fault.declarationNotFound r.owner.label r.name.label).or code.catalog.fault? := by
  have walked := Codebase.surveyed_of_isTextual textual
  have named := Codebase.catalog_isTextual textual
  have lookup := Catalog.failure?_resolveNames named p
  have survey := Codebase.survey_of_programOr walked chosen
  rw [← lookup]
  cases found : (code.catalog.resolveNames p).2 with
  | error fault =>
    rw [found] at survey
    rw [run_of_survey_error survey]
    rfl
  | ok _ =>
    rw [found] at survey
    have unsettled := (Codebase.survey_ok survey).1
    have building := Catalog.failure?_build unsettled
    rw [Catalog.fault?_rename] at building
    rw [failure?_ok, Option.none_or, ← building]
    cases built : (code.catalog.mapRecords (code.catalog.rename p)).build with
    | error fault =>
      rw [run_of_build_error survey built]
      rfl
    | ok result =>
      obtain ⟨c', unit, classes⟩ := result
      obtain ⟨rfl, -, manifests, -⟩ := Catalog.build_ok unsettled built
      -- Only the files are left, and they stop at nothing but a name that is no text.
      have renamed := named.mapRecords (code.catalog.rename_owner p) (code.catalog.rename_name p)
      have files := t.settings.completes_files unit
        (Catalog.classAbis_isTextual renamed.settled manifests)
      obtain ⟨l, ran⟩ := run_of_build_ok (t := t) survey built
      obtain ⟨texts, written⟩ := files l
      rw [ran, written]
      rfl

/-- Without a program, a run fails only for types and signatures. -/
theorem failure?_run_none (t : Transformer) {code : Codebase} (textual : code.isTextual = true) :
    failure? (t.run code none).2.2 = code.catalog.fault? := by
  have texts : ∀ s ∈ code.sources, s.path.text?.isSome = true := fun s listed =>
    (Bool.and_eq_true_iff.mp (List.all_eq_true.mp textual s listed)).1
  obtain ⟨own, chosen, complete⟩ :=
    Codebase.programOr_none (Codebase.surveyed_of_isTextual textual) texts
  have present : code.catalog.ordered.find? (Record.isDropped own) = none := by
    rw [List.find?_eq_none]
    intro r member
    simp [complete r (Catalog.mem_records_of_mem_ordered member)]
  have outcome := t.failure?_run textual chosen
  rw [present, Option.map_none, Option.none_or] at outcome
  exact outcome

theorem run_completes (t : Transformer) {code : Codebase} (textual : code.isTextual = true)
    (faultless : code.catalog.fault? = none) :
    ∃ output files, (t.run code none).2.2 = .ok (output, files) := by
  obtain ⟨⟨output, files⟩, ran⟩ := failure?_eq_none.mp ((t.failure?_run_none textual).trans faultless)
  exact ⟨output, files, ran⟩

/-- How a run ends, with a given program and with the program of all declarations. The first record
that a given program lacks comes before all else. Then every record is called, in order, which fails
at the first of its parameters that names no type, or else at a name that cannot be encoded. Return
values and fields come last. If all names can be encoded, what is left is the first of all spellings
that names no type. -/
theorem run_fails_at_first_fault (t : Transformer) (code : Codebase)
    (textual : code.isTextual = true) :
    (∀ p : Program, failure? (t.run code (some p)).2.2 =
      ((code.catalog.ordered.find? (Record.isDropped p)).map fun r =>
        Fault.declarationNotFound r.owner.label r.name.label).or
      ((code.catalog.ordered.findSome? Record.callFault?).or
        ((code.catalog.laterSpellings.find? Spelling.isUnresolved).map Spelling.fault))) ∧
    failure? (t.run code none).2.2 =
      (code.catalog.ordered.findSome? Record.callFault?).or
        ((code.catalog.laterSpellings.find? Spelling.isUnresolved).map Spelling.fault) ∧
    (∀ owner method, (t.run code none).2.2 ≠ .error (.declarationNotFound owner method)) ∧
    ((∀ r ∈ code.catalog.ordered, r.name.label.isEncodable = true) →
      (code.catalog.ordered.findSome? Record.callFault?).or
          ((code.catalog.laterSpellings.find? Spelling.isUnresolved).map Spelling.fault) =
        (code.catalog.spellings.find? Spelling.isUnresolved).map Spelling.fault) := by
  have alone := t.failure?_run_none textual
  refine ⟨fun p => t.failure?_run textual rfl, alone, ?_, Catalog.fault?_of_isEncodable⟩
  intro owner method stopped
  rw [stopped] at alone
  rcases Catalog.fault?_cases alone.symm with ⟨s, -, -, same⟩ | same <;> cases same

/-- A return value, a field and a parameter that name no type, in this order. -/
def misspelled : Codebase where
  sources := [{
    path := .str "shop.ts"
    isLibrary := false
    classes := [
      { name := .str "Token", base := .null, decorators := []
        members := [
          .method { key := 0, name := .str "transfer", decorators := [
            ⟨.str "method", ["'address'", "'uint256'"]⟩, ⟨.str "returns", ["'coins'"]⟩] }] },
      { name := .str "Vault", base := .null, decorators := [⟨.str "event", []⟩]
        members := [
          .field { name := .str "amount", type := .str "u257", decorators := [] },
          .method { key := 1, name := .str "pay", decorators := [
            ⟨.str "method", ["'payOut'", "'address'", "'money'"]⟩] }] }] }]
  nextKey := 2

/-- The parameter is met first, and before it the first method that an empty program lacks. -/
theorem run_misspelled :
    misspelled.isTextual = true ∧
    (({} : Transformer).run misspelled (some {})).2.2 =
      .error (.declarationNotFound "Token" "transfer") ∧
    (({} : Transformer).run misspelled none).2.2 =
      .error (.unresolvedType .method "Vault" "payOut" "money") := by
  have textual : misspelled.isTextual = true := by decide
  have dropped : (misspelled.catalog.ordered.find? (Record.isDropped {})).map
      (fun r => Fault.declarationNotFound r.owner.label r.name.label) =
      some (.declarationNotFound "Token" "transfer") := by decide +kernel
  have unresolved : misspelled.catalog.ordered.findSome? Record.callFault? =
      some (.unresolvedType .method "Vault" "payOut" "money") := by decide +kernel
  obtain ⟨given, alone, -⟩ := run_fails_at_first_fault {} misspelled textual
  refine ⟨textual, failure?_eq_some.mp ?_, failure?_eq_some.mp ?_⟩
  · rw [given, dropped, Option.some_or]
  · rw [alone, unresolved, Option.some_or]

/-- A method without parameters whose name is half of a pair. -/
def halved : Codebase where
  sources := [{
    path := .str "halved.ts"
    isLibrary := false
    classes := [
      { name := .str "Token", base := .null, decorators := []
        members := [
          .method { key := 0, name := .str (.ofList [.surrogate 0]), decorators := [
            ⟨.str "method", []⟩] }] }] }]
  nextKey := 1

/-- All of its types resolve, for there are none, and no program lacks it. -/
theorem run_halved :
    halved.isTextual = true ∧ halved.catalog.spellings = [] ∧
    (({} : Transformer).run halved none).2.2 = .error .unencodable := by
  have textual : halved.isTextual = true := by decide
  refine ⟨textual, by decide +kernel, failure?_eq_some.mp ?_⟩
  rw [failure?_run_none {} textual]
  decide +kernel

end Transformer

end ContractAbi
