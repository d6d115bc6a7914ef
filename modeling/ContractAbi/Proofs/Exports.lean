import ContractAbi.Proofs.Emissions
import ContractAbi.Proofs.Outlines

/-!
# What definitions export

The definitions of a class refer to the types of its events and declare them. As the manifest of a
class has each event that the class emits and declares once, they refer to what they declare and
declare what they refer to. Types for the results of calls are named after functions, however, and
nothing keeps these names apart.
-/

namespace ContractAbi

/-! ### Sorted names -/

theorem mem_sortNames {names : List Text} {x : Text} : x ∈ sortNames names ↔ x ∈ names :=
  (List.mergeSort_perm names _).mem_iff

theorem Text.eq_of_numbers_eq {s t : Text} (same : s.numbers = t.numbers) : s = t := by
  rw [numbers, numbers,
    List.map_inj_right fun a b numbers => by rw [← a.ofNat_toNat, numbers, b.ofNat_toNat]] at same
  exact Text.toList_inj.mp same

theorem pairwise_sortNames {names : List Text} (nodup : names.Nodup) :
    (sortNames names).Pairwise (· < ·) := by
  have sorted : (sortNames names).Pairwise fun a b => decide (a ≤ b) = true := by
    refine List.pairwise_mergeSort (fun a b c first second => ?_) (fun a b => ?_) names
    · exact decide_eq_true (List.le_trans (of_decide_eq_true first) (of_decide_eq_true second))
    · have total : a ≤ b ∨ b ≤ a := List.le_total a.numbers b.numbers
      simpa using total
  have apart : (sortNames names).Nodup := (List.mergeSort_perm names _).nodup_iff.mpr nodup
  refine (sorted.and apart).imp fun {a b} both => ?_
  refine List.not_le.mp fun above => both.2 (Text.eq_of_numbers_eq ?_)
  exact List.le_antisymm (of_decide_eq_true both.1) above

/-! ### Events of a class -/

theorem Record.function_emits {r : Record} {f : FunctionEntry} (made : r.function = .ok f) :
    f.emits = r.emits := by
  obtain ⟨call, -, made⟩ := bind_ok made
  obtain ⟨inputs, -, made⟩ := bind_ok made
  obtain ⟨outputs, -, made⟩ := bind_ok made
  cases made
  rfl

/-- The manifest has no event twice, and none that no function emits. -/
structure Abi.ListsEvents (abi : Abi) : Prop where
  once : (abi.events.map (·.name)).Nodup
  emitted : ∀ e ∈ abi.events, ∃ f ∈ abi.functions, ∃ x ∈ f.emits, e.name = .str x

theorem Catalog.event?_name {c : Catalog} {x : Text} {e : Event}
    (found : c.event? (.str x) = some e) : e.name = .str x := by
  have named := List.find?_some found
  exact Json.key_eq_str.mp (of_decide_eq_true named)

theorem Catalog.classAbi_listsEvents {c : Catalog} {records : List Record} {abi : Abi}
    (built : c.classAbi records = .ok abi) : abi.ListsEvents := by
  obtain ⟨functions, made, built⟩ := bind_ok built
  obtain ⟨events, listed, built⟩ := bind_ok built
  cases built
  have entries := mapM_eq_ok.mp listed
  refine ⟨?_, fun entry member => ?_⟩
  · have names : events.map (·.name) = ((distinct (records.flatMap (·.emits))).filterMap fun x =>
        c.event? (.str x)).map (·.name) := by
      rw [← List.forall₂_eq_eq_eq, List.forall₂_map_left_iff, List.forall₂_map_right_iff]
      exact entries.flip.imp fun entry e made => (Event.entry_ok made).1
    refine names ▸ List.pairwise_map.mpr (List.pairwise_filterMap.mpr ?_)
    refine (nodup_distinct _).imp fun {x y} apart a first b second same => apart ?_
    rw [event?_name first, event?_name second] at same
    exact Json.str.inj same
  · obtain ⟨e, found, entered⟩ := exists_of_forall₂ entries member
    obtain ⟨x, emitted, found⟩ := List.mem_filterMap.mp found
    obtain ⟨r, recorded, own⟩ := List.mem_flatMap.mp (mem_distinct.mp emitted)
    obtain ⟨f, listed, function⟩ := exists_of_forall₂ (mapM_eq_ok.mp made).flip recorded
    refine ⟨f, listed, x, Record.function_emits function ▸ own, ?_⟩
    exact (Event.entry_ok entered).1.trans (event?_name found)

/-! ### Exports and imports -/

namespace Fragment

namespace Outline

/-- The types of events that results refer to are those that are exported, each of them once. -/
structure IsClosed (o : Outline) : Prop where
  once : (o.events.map (·.name)).Nodup
  named : ∀ x, x ∈ o.events.map (·.name) ↔ ∃ r ∈ o.results, x ∈ r.events

/-- What is imported is what the hints of these parameters need of the transaction library. -/
structure ImportsFor (params : List AbiParam) (o : Outline) : Prop where
  sorted : o.imports.Pairwise (· < ·)
  needed : ∀ x, x ∈ o.imports ↔
    x ∈ AbiType.importable ∧ ∃ p ∈ params, AbiType.hintBase p.type.hint = x
  line : o.importLine?.isSome = true ↔
    ∃ p ∈ params, AbiType.hintBase p.type.hint ∈ AbiType.importable

variable {title : Text} {abi : Abi}

theorem nodup_events (title : Text) (lists : abi.ListsEvents) :
    ((Outline.of title abi).events.map (·.name)).Nodup := by
  have apart := List.pairwise_map.mp lists.once
  refine List.pairwise_map.mpr (List.pairwise_map.mpr (apart.imp_of_mem ?_))
  intro a b first second different same
  obtain ⟨-, -, x, -, named⟩ := lists.emitted a first
  obtain ⟨-, -, y, -, named'⟩ := lists.emitted b second
  have labels : a.name.label = b.name.label := (Text.append_left_inj "Event").mp same
  rw [named, named'] at labels different
  exact different (congrArg Json.str labels)

theorem mem_events_resultType {declared : List Name} {f : FunctionEntry} {x : Text} :
    x ∈ (ResultType.of declared f).events ↔
      ∃ e ∈ f.emits, .str e ∈ declared ∧ x = e ++ "Event" := by
  have known (e : Text) : declared.any (·.isText e) = true ↔ .str e ∈ declared := by
    simp [Json.isText]
  constructor
  · intro member
    obtain ⟨e, kept, rfl⟩ := List.mem_map.mp member
    obtain ⟨emitted, present⟩ := List.mem_filter.mp kept
    exact ⟨e, emitted, (known e).mp present, rfl⟩
  · rintro ⟨e, emitted, present, rfl⟩
    exact List.mem_map_of_mem (List.mem_filter.mpr ⟨emitted, (known e).mpr present⟩)

theorem isClosed_of (lists : abi.ListsEvents) : (Outline.of title abi).IsClosed := by
  refine ⟨nodup_events title lists, fun x => ?_⟩
  simp only [Outline.of, List.mem_map, exists_exists_and_eq_and, mem_events_resultType]
  constructor
  · rintro ⟨e, listed, rfl⟩
    obtain ⟨f, own, y, emitted, named⟩ := lists.emitted e listed
    refine ⟨f, own, y, emitted, ⟨e, listed, named⟩, ?_⟩
    unfold EventType.of
    rw [named]
    rfl
  · rintro ⟨f, own, y, emitted, ⟨e, listed, named⟩, rfl⟩
    refine ⟨e, listed, ?_⟩
    unfold EventType.of
    rw [named]
    rfl

theorem mem_noted {p : AbiParam} {x : Text} :
    x ∈ noted p ↔ x ∈ AbiType.importable ∧ AbiType.hintBase p.type.hint = x := by
  unfold noted AbiType.hintImports
  split
  · rename_i inside
    rw [List.mem_singleton]
    exact ⟨fun same => ⟨same ▸ inside, same.symm⟩, fun both => both.2.symm⟩
  · rename_i outside
    simp only [List.not_mem_nil, false_iff, not_and]
    exact fun inside same => outside (same ▸ inside)

theorem importsFor_printed (title : Text) (abi : Abi) :
    (Outline.of title abi).ImportsFor (printed abi) := by
  have needed (x : Text) : x ∈ (Outline.of title abi).imports ↔
      x ∈ AbiType.importable ∧ ∃ p ∈ printed abi, AbiType.hintBase p.type.hint = x := by
    simp only [Outline.of, mem_sortNames, mem_distinct, List.mem_flatMap, mem_noted]
    constructor
    · rintro ⟨p, listed, inside, same⟩
      exact ⟨inside, p, listed, same⟩
    · rintro ⟨inside, p, listed, same⟩
      exact ⟨p, listed, inside, same⟩
  refine ⟨pairwise_sortNames (nodup_distinct _), needed, ?_⟩
  unfold importLine?
  constructor
  · intro present
    cases imports : (Outline.of title abi).imports with
    | nil => simp [imports] at present
    | cons x more =>
      obtain ⟨inside, p, listed, same⟩ := (needed x).mp (by simp [imports])
      exact ⟨p, listed, same ▸ inside⟩
  · rintro ⟨p, listed, inside⟩
    have member := (needed _).mpr ⟨inside, p, listed, rfl⟩
    rw [if_neg (List.ne_nil_of_mem member)]
    rfl

/-- Types of events are distinct anyway. -/
theorem nodup_exported_iff (lists : abi.ListsEvents) : (Outline.of title abi).exported.Nodup ↔
    (abi.functions.map fun f => Text.capitalize f.name.label).Nodup ∧
      (∀ e ∈ abi.events, ∀ f ∈ abi.functions,
        e.name.label ++ "Event" ≠ Text.capitalize f.name.label) ∧
      (∀ e ∈ abi.events, e.name.label ++ "Event" ≠ "I" ++ title) ∧
      ∀ f ∈ abi.functions, Text.capitalize f.name.label ≠ "I" ++ title := by
  have events := nodup_events title lists
  have results : (Outline.of title abi).results.map (·.name) =
      abi.functions.map fun f => Text.capitalize f.name.label := by
    simp [Outline.of, ResultType.of]
  have names : (Outline.of title abi).events.map (·.name) =
      abi.events.map fun e : EventEntry => e.name.label ++ ("Event" : Text) := by
    simp [Outline.of, EventType.of]
  rw [names] at events
  unfold exported
  rw [names, results, List.nodup_append, List.nodup_append]
  constructor
  · rintro ⟨⟨-, distinct, apart⟩, -, other⟩
    refine ⟨distinct, ?_, ?_, ?_⟩
    · intro e listed f own
      exact apart _ (List.mem_map_of_mem listed) _ (List.mem_map_of_mem own)
    · intro e listed
      refine other _ (List.mem_append_left _ ?_) _ (List.mem_singleton_self _)
      exact List.mem_map_of_mem listed
    · intro f own
      refine other _ (List.mem_append_right _ ?_) _ (List.mem_singleton_self _)
      exact List.mem_map_of_mem own
  · rintro ⟨distinct, apart, noEvent, noResult⟩
    refine ⟨⟨events, distinct, ?_⟩, by simp, ?_⟩
    · intro a first b second
      obtain ⟨e, listed, rfl⟩ := List.mem_map.mp first
      obtain ⟨f, own, rfl⟩ := List.mem_map.mp second
      exact apart e listed f own
    · intro a first b second
      rw [List.mem_singleton.mp second]
      rcases List.mem_append.mp first with event | result
      · obtain ⟨e, listed, rfl⟩ := List.mem_map.mp event
        exact noEvent e listed
      · obtain ⟨f, own, rfl⟩ := List.mem_map.mp result
        exact noResult f own

end Outline

variable {c : Catalog} {classes : List (Name × Abi)} {owner : Name} {abi : Abi}

theorem listsEvents_of_buildClasses (built : c.buildClasses.2 = .ok classes)
    (member : (owner, abi) ∈ classes) : abi.ListsEvents := by
  obtain ⟨_, -, -, made⟩ := exists_of_forall₂ (Catalog.classAbis_eq_ok built) member
  exact Catalog.classAbi_listsEvents made

/-- Whatever was recorded and whatever has been rendered before, the definitions of a class refer to
the types of events that they export and to no others, export each once, and import what their hints
need of the transaction library. There are none only if a function has a name that cannot be
capitalised. -/
theorem definitions_are_closed {c : Catalog} {classes : List (Name × Abi)} {owner : Name}
    {abi : Abi} (built : c.buildClasses.2 = .ok classes) (member : (owner, abi) ∈ classes)
    (title : Text) (l : Layout) :
    ((definitions title abi).run.run l).1 =
        (capitalFault? abi).elim (.ok ((Outline.of title abi).text l.indentUnit)) .error ∧
      (Outline.of title abi).IsClosed ∧ (Outline.of title abi).ImportsFor (printed abi) :=
  ⟨fst_definitions_run title abi l, Outline.isClosed_of (listsEvents_of_buildClasses built member),
    Outline.importsFor_printed title abi⟩

theorem exists_first_class {α : Type} (c : Catalog) (told : Abi → α) (owner : Name) (a : α)
    (made : (c.buildClasses.2.map fun classes => classes.head?.map fun entry =>
      (entry.1, told entry.2)) = .ok (some (owner, a))) :
    ∃ classes abi, c.buildClasses.2 = .ok classes ∧ (owner, abi) ∈ classes ∧ told abi = a := by
  obtain ⟨classes, built, made⟩ := map_ok made
  obtain ⟨⟨owner, abi⟩, first, same⟩ := Option.map_eq_some_iff.mp made
  cases same
  exact ⟨classes, abi, built, List.mem_of_head? first, rfl⟩

/-- A class that emits an event twice, one that is declared twice and one that is not declared. -/
def customs : Catalog where
  records := [
    { handle := 0, owner := .str "Customs", declared := .str "clear", name := .str "clear"
      params := [.bare "address"], returns := [.bare "AddressMap<u256>", .bare "bool"]
      emits := ["Cleared", "Lost"] },
    { handle := 1, owner := .str "Office", declared := .str "open", name := .str "open" },
    { handle := 2, owner := .str "Customs", declared := .str "seize", name := .str "seize"
      params := [.bare "address"], emits := ["Seized", "Cleared"] }]
  events := [
    { name := .str "Seized", owner := .str "Seized", path := .str "a.ts"
      fields := [(.str "goods", "u8"), (.str "signed", "SchnorrSignature")] },
    { name := .str "Seized", owner := .str "Taken", path := .str "b.ts", fields := [] },
    { name := .str "Cleared", owner := .str "Cleared", path := .str "b.ts", fields := [] }]

theorem buildClasses_customs : ∃ classes abi, customs.buildClasses.2 = .ok classes ∧
    (.str "Customs", abi) ∈ classes ∧
    (Outline.of "Customs" abi).exported =
      [("ClearedEvent" : Text), "SeizedEvent", "Clear", "Seize", "ICustoms"] ∧
    (printed abi).map (·.type.hint) =
      [("number" : Text), "SchnorrSignature", "AddressMap<bigint>", "boolean", "Address",
        "Address"] ∧
    capitalFault? abi = none := by
  obtain ⟨classes, abi, built, member, told⟩ := exists_first_class customs
    (fun abi => ((Outline.of "Customs" abi).exported, (printed abi).map (·.type.hint),
      capitalFault? abi))
    (.str "Customs") ([("ClearedEvent" : Text), "SeizedEvent", "Clear", "Seize", "ICustoms"],
      [("number" : Text), "SchnorrSignature", "AddressMap<bigint>", "boolean", "Address",
        "Address"], none)
    (by decide +kernel)
  simp only [Prod.mk.injEq] at told
  exact ⟨classes, abi, built, member, told⟩

theorem definitions_of_customs : ∃ classes abi, customs.buildClasses.2 = .ok classes ∧
    (.str "Customs", abi) ∈ classes ∧
    ((definitions "Customs" abi).run.run {}).1 = .ok ((Outline.of "Customs" abi).text "    ") ∧
    (Outline.of "Customs" abi).IsClosed ∧
    ∀ x, x ∈ (Outline.of "Customs" abi).imports ↔
      x ∈ [("Address" : Text), "AddressMap", "SchnorrSignature"] := by
  obtain ⟨classes, abi, built, member, -, hints, named⟩ := buildClasses_customs
  obtain ⟨text, closed, imports⟩ := definitions_are_closed built member "Customs" {}
  rw [named] at text
  refine ⟨classes, abi, built, member, text, closed, fun x => ?_⟩
  have bases : (printed abi).map (fun p => AbiType.hintBase p.type.hint) =
      [("number" : Text), "SchnorrSignature", "AddressMap", "boolean", "Address", "Address"] := by
    have each := congrArg (List.map AbiType.hintBase) hints
    rw [List.map_map] at each
    exact each.trans (by decide)
  have shared : AbiType.importable.filter (fun x : Text => x ∈ (printed abi).map fun p =>
      AbiType.hintBase p.type.hint) = [("Address" : Text), "AddressMap", "SchnorrSignature"] := by
    rw [bases]
    decide
  rw [imports.needed, ← shared, List.mem_filter, decide_eq_true_iff, List.mem_map]

/-- The names that the definitions of a class export are distinct if and only if those of the types
of results are, and none of these is the name of the type of an event or of the interface, nor is
one of an event that of the interface. -/
theorem exports_distinct_iff {c : Catalog} {classes : List (Name × Abi)} {owner : Name} {abi : Abi}
    (built : c.buildClasses.2 = .ok classes) (member : (owner, abi) ∈ classes) (title : Text)
    (l : Layout) :
    ((definitions title abi).run.run l).1 =
        (capitalFault? abi).elim (.ok ((Outline.of title abi).text l.indentUnit)) .error ∧
      ((Outline.of title abi).exported.Nodup ↔
        (abi.functions.map fun f => Text.capitalize f.name.label).Nodup ∧
        (∀ e ∈ abi.events, ∀ f ∈ abi.functions,
          e.name.label ++ "Event" ≠ Text.capitalize f.name.label) ∧
        (∀ e ∈ abi.events, e.name.label ++ "Event" ≠ "I" ++ title) ∧
        ∀ f ∈ abi.functions, Text.capitalize f.name.label ≠ "I" ++ title) :=
  ⟨fst_definitions_run title abi l,
    Outline.nodup_exported_iff (listsEvents_of_buildClasses built member)⟩

theorem exports_of_customs : ∃ classes abi, customs.buildClasses.2 = .ok classes ∧
    (.str "Customs", abi) ∈ classes ∧
    (Outline.of "Customs" abi).exported =
      [("ClearedEvent" : Text), "SeizedEvent", "Clear", "Seize", "ICustoms"] ∧
    (abi.functions.map fun f => Text.capitalize f.name.label).Nodup := by
  obtain ⟨classes, abi, built, member, exported, -⟩ := buildClasses_customs
  have distinct := (exports_distinct_iff built member "Customs" {}).2.mp (by rw [exported]; decide)
  exact ⟨classes, abi, built, member, exported, distinct.1⟩

/-- Two functions of one name, told apart by the types of their parameters. -/
def overloads : Catalog where
  records := [
    { handle := 0, owner := .str "A", declared := .str "run", name := .str "run"
      params := [.bare "u8"] },
    { handle := 1, owner := .str "A", declared := .str "run", name := .str "run"
      params := [.bare "u16"] }]

theorem overloads_export_a_name_twice : ∃ classes abi, overloads.buildClasses.2 = .ok classes ∧
    (.str "A", abi) ∈ classes ∧
    abi.functions.map (·.call.signature) = [("run(uint8)" : Text), "run(uint16)"] ∧
    (Outline.of "A" abi).exported = [("Run" : Text), "Run", "IA"] := by
  obtain ⟨classes, abi, built, member, told⟩ := exists_first_class overloads
    (fun abi => [abi.functions.map (·.call.signature), (Outline.of "A" abi).exported])
    (.str "A") [["run(uint8)", "run(uint16)"], ["Run", "Run", "IA"]] (by decide +kernel)
  simp only [List.cons.injEq, and_true] at told
  exact ⟨classes, abi, built, member, told.1, told.2⟩

end Fragment

end ContractAbi
