import ContractAbi.Proofs.Outcome

/-!
# Records and manifests agree

The entries of a class's manifest stand in the order of its records, and each has the call of its
record. Whoever computes the selector from the published name and types gets the one that is routed.
-/

namespace ContractAbi

/-- The entry that is published for a record. -/
structure Record.Publishes (r : Record) (f : FunctionEntry) : Prop where
  name : f.name = r.name
  declared : f.declared = r.declared
  types : r.HasTypes (f.inputs.map (·.type))
  stored : r.call = some f.call
  made : Call.of f.name.label (f.inputs.map (·.type.canonical)) = some f.call

theorem Record.IsSettled.publishes {r : Record} {f : FunctionEntry} (settled : r.IsSettled)
    (h : r.function = .ok f) : r.Publishes f := by
  obtain ⟨name, declared, -, types⟩ := function_ok h
  obtain ⟨stored, made⟩ := settled.function_call h
  exact ⟨name, declared, types, stored, made⟩

namespace Record

theorem Publishes.canonical {r : Record} {f : FunctionEntry} (published : r.Publishes f) :
    r.params.map (fun p => AbiType.resolveCanonical? p.type) =
      (f.inputs.map (·.type.canonical)).map some := by
  have types := congrArg (List.map (Option.map AbiType.canonical)) published.types
  simpa [Function.comp_def, AbiType.resolveCanonical?] using types

theorem exists_selectorText_of_published {records : List Record} {functions : List FunctionEntry}
    (each : List.Forall₂ Publishes records functions) :
    ∀ f ∈ functions, ∃ word, f.call.selector = Call.selectorText word := by
  intro f member
  obtain ⟨r, -, published⟩ := exists_of_forall₂ each member
  obtain ⟨word, -, selector⟩ := Call.exists_selectorText (Call.of_eq_some.mp published.made).2
  exact ⟨word, selector⟩

end Record

namespace Catalog

/-! ### The manifests of classes -/

theorem classAbi_functions {c : Catalog} {records : List Record} {abi : Abi}
    (h : c.classAbi records = .ok abi) (settled : ∀ r ∈ records, r.IsSettled) :
    List.Forall₂ Record.Publishes records abi.functions := by
  obtain ⟨functions, built, h⟩ := bind_ok h
  obtain ⟨events, -, h⟩ := bind_ok h
  cases h
  have each := (List.forall₂_and_left ..).mpr ⟨settled, mapM_eq_ok.mp built⟩
  exact each.imp fun r f ⟨own, entry⟩ => own.publishes entry

theorem classAbis_eq_ok {c : Catalog} {classes : List (Name × Abi)} (h : c.classAbis = .ok classes) :
    List.Forall₂ (fun owner entry => entry.1 = owner ∧ c.classAbi (c.recordsOf owner) = .ok entry.2)
      c.owners classes := by
  have each := mapM_eq_ok.mp h
  rw [byClass, List.forall₂_map_left_iff] at each
  refine each.imp fun owner entry built => ?_
  obtain ⟨abi, found, same⟩ := bind_ok built
  cases same
  exact ⟨rfl, found⟩

theorem classAbis_names {c : Catalog} {classes : List (Name × Abi)} (h : c.classAbis = .ok classes) :
    classes.map (·.1) = c.owners := by
  have names := (classAbis_eq_ok h).flip.imp fun entry owner built => built.1
  rwa [← List.forall₂_eq_eq_eq, List.forall₂_map_left_iff]

/-- Every class with records has a manifest, which is found under its name. -/
theorem classAbis_lookup {c : Catalog} {classes : List (Name × Abi)} (h : c.classAbis = .ok classes)
    {owner : Name} (listed : owner ∈ c.owners) :
    ∃ abi, classes.lookup owner = some abi ∧ c.classAbi (c.recordsOf owner) = .ok abi := by
  have each := classAbis_eq_ok h
  clear h
  generalize c.owners = owners at listed each
  induction each with
  | nil => cases listed
  | @cons first entry others entries here there ih =>
    obtain ⟨key, abi⟩ := entry
    obtain ⟨rfl, built⟩ := here
    by_cases same : owner = key
    · subst same
      exact ⟨abi, by simp, built⟩
    · obtain ⟨found, there, built⟩ := ih ((List.mem_cons.mp listed).resolve_left same)
      exact ⟨found, by rw [Table.lookup_cons, if_neg same, there], built⟩

end Catalog

namespace Transformer

theorem lookup_map_mk {β : Type} (g : Name → β) {names : List Name} {name : Name}
    (member : name ∈ names) : (names.map fun n => (n, g n)).lookup name = some (g name) := by
  induction names with
  | nil => cases member
  | cons first rest ih =>
    rw [List.map_cons, Table.lookup_cons]
    split
    · rename_i same
      rw [same]
    · rename_i different
      exact ih ((List.mem_cons.mp member).resolve_left different)

/-- The guards of records are the calls that are published for them. -/
theorem guards_eq {records : List Record} {functions : List FunctionEntry}
    (each : List.Forall₂ Record.Publishes records functions) :
    Dispatch.guards records = functions.map fun f => (f.call.selector, f.declared.label) := by
  induction each with
  | nil => rfl
  | cons first others ih =>
    unfold Dispatch.guards at ih ⊢
    rw [List.filterMap_cons, first.stored, Option.map_some, ih, List.map_cons, first.declared]

/-- What a run that came to its end has for a class with records: a manifest of its records in
order, and a routine with a guard for each of them. -/
theorem run_class {t : Transformer} {code : Codebase} {program : Option Program} {output : Output}
    {files : Table Text Text} (success : (t.run code program).2.2 = .ok (output, files))
    {owner : Name} (listed : owner ∈ output.catalog.owners) :
    ∃ abi, output.classAbis.lookup owner = some abi ∧
      List.Forall₂ Record.Publishes (output.catalog.recordsOf owner) abi.functions ∧
      output.routines.lookup owner = some (Dispatch.routineText t.layout.indentUnit
        (abi.functions.map fun f => (f.call.selector, f.declared.label))) := by
  obtain ⟨-, manifests, settled, routines⟩ := run_ok success
  obtain ⟨abi, found, built⟩ := Catalog.classAbis_lookup manifests listed
  have each := Catalog.classAbi_functions built fun r member =>
    settled r (Catalog.mem_ordered.mpr ⟨owner, listed, member⟩)
  refine ⟨abi, found, each, ?_⟩
  rw [routines, Catalog.byClass, List.map_map, ← guards_eq each]
  exact lookup_map_mk _ listed

/-- Each entry of a class's manifest has the call of its record, made of the names and types of
either. Its selector is the one that anyone makes of the published name and types, and the one in the
routine. -/
theorem published_calls_are_routed {t : Transformer} {code : Codebase} {program : Option Program}
    {output : Output} {files : Table Text Text}
    (success : (t.run code program).2.2 = .ok (output, files)) :
    output.classAbis.map (·.1) = output.catalog.owners ∧
    ∀ owner ∈ output.catalog.owners, ∃ abi, output.classAbis.lookup owner = some abi ∧
      List.Forall₂ (fun (r : Record) (f : FunctionEntry) =>
          f.call.signature = Call.signatureOf f.name.label (f.inputs.map (·.type.canonical)) ∧
          (∃ types, r.params.map (fun p => AbiType.resolveCanonical? p.type) = types.map some ∧
            f.call.signature = Call.signatureOf r.name.label types) ∧
          Call.selectorOf f.call.signature = some f.call.selector ∧
          r.call = some f.call)
        (output.catalog.recordsOf owner) abi.functions ∧
      output.routines.lookup owner = some (Dispatch.routineText t.layout.indentUnit
        (abi.functions.map fun f => (f.call.selector, f.declared.label))) := by
  obtain ⟨-, manifests, -⟩ := run_ok success
  refine ⟨Catalog.classAbis_names manifests, ?_⟩
  intro owner listed
  obtain ⟨abi, found, each, routine⟩ := run_class success listed
  refine ⟨abi, found, each.imp ?_, routine⟩
  intro r f published
  obtain ⟨signature, selector⟩ := Call.of_eq_some.mp published.made
  refine ⟨signature, ⟨_, published.canonical, ?_⟩, selector, published.stored⟩
  rw [← published.name]
  exact signature

/-- Two methods that are called by one signature, which they spell in different ways. -/
def token : Codebase where
  sources := [{
    path := .str "token.ts"
    isLibrary := false
    classes := [
      { name := .str "Token", base := .null, decorators := []
        members := [
          .method { key := 0, name := .str "transfer", decorators := [
            ⟨.str "method", ["'address'", "'uint256'"]⟩] },
          .method { key := 1, name := .str "send", decorators := [
            ⟨.str "method", ["'transfer'", "ABIDataTypes.ADDRESS", "'u256'"]⟩] }] }] }]
  nextKey := 2

theorem run_token : ∃ output files,
    (({} : Transformer).run token none).2.2 = .ok (output, files) ∧
      output.catalog.owners = [.str "Token"] ∧
      (output.catalog.recordsOf (.str "Token")).map (·.declared) =
        [.str "transfer", .str "send"] := by
  obtain ⟨output, files, ran⟩ := run_completes {} (show token.isTextual = true by decide)
    (by decide +kernel)
  obtain ⟨g, same, kept⟩ := run_records ran
  have owner (r : Record) : (g r).owner = r.owner := by
    obtain ⟨call, name, changed⟩ := kept r
    rw [changed]
  have declared (r : Record) : (g r).declared = r.declared := by
    obtain ⟨call, name, changed⟩ := kept r
    rw [changed]
  refine ⟨output, files, ran, ?_, ?_⟩
  · rw [same, Catalog.owners_mapRecords owner]
    decide +kernel
  · rw [same, Catalog.recordsOf_mapRecords owner, List.map_map]
    have names := List.map_congr_left (l := token.catalog.recordsOf (.str "Token")) fun r _ => declared r
    rw [Function.comp_def, names]
    decide +kernel

theorem published_calls_of_token : ∃ output files abi,
    (({} : Transformer).run token none).2.2 = .ok (output, files) ∧
      output.classAbis.lookup (.str "Token") = some abi ∧
      (output.catalog.recordsOf (.str "Token")).length = 2 ∧
      List.Forall₂ (fun (r : Record) (f : FunctionEntry) => r.call = some f.call ∧
          f.call.signature = Call.signatureOf f.name.label (f.inputs.map (·.type.canonical)))
        (output.catalog.recordsOf (.str "Token")) abi.functions := by
  obtain ⟨output, files, ran, owners, declared⟩ := run_token
  obtain ⟨-, classes⟩ := published_calls_are_routed ran
  obtain ⟨abi, found, each, -⟩ := classes (.str "Token") (by simp [owners])
  refine ⟨output, files, abi, ran, found, ?_, each.imp fun r f agree => ?_⟩
  · simpa using congrArg List.length declared
  · exact ⟨agree.2.2.2, agree.1⟩

end Transformer

end ContractAbi
