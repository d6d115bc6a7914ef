import ContractAbi.Proofs.Resolution
import ContractAbi.Transform

/-!
# Building manifests

`failure?_build` shows where building the manifests of a freshly surveyed catalog fails, and
`build_ok` what they hold when it does not.
-/

namespace ContractAbi

namespace Catalog

/-- The catalog with every record changed by `g`. -/
def mapRecords (c : Catalog) (g : Record → Record) : Catalog :=
  { c with records := c.records.map g }

/-! ### Changes that leave the classes of the records alone -/

section MapRecords

variable {c : Catalog} {g : Record → Record} (owner : ∀ r, (g r).owner = r.owner)
include owner

theorem owners_mapRecords : (c.mapRecords g).owners = c.owners := by
  have same : (c.records.map g).map (·.owner) = c.records.map (·.owner) := by simp [owner]
  unfold owners mapRecords
  rw [same]

theorem recordsOf_mapRecords (name : Name) :
    (c.mapRecords g).recordsOf name = (c.recordsOf name).map g := by
  simp [recordsOf, mapRecords, List.filter_map, Function.comp_def, owner]

theorem byClass_mapRecords :
    (c.mapRecords g).byClass = c.byClass.map fun (name, records) => (name, records.map g) := by
  simp [byClass, owners_mapRecords owner, recordsOf_mapRecords owner, Function.comp_def]

theorem ordered_mapRecords : (c.mapRecords g).ordered = c.ordered.map g := by
  simp [ordered, byClass_mapRecords owner, List.flatMap_map, List.map_flatMap]

/-! If the functions stay the same, so do the manifests. -/

theorem unitAbi_mapRecords (function : ∀ r, (g r).function = r.function) :
    (c.mapRecords g).unitAbi = c.unitAbi := by
  have functions : (c.ordered.map g).mapM Record.function = c.ordered.mapM Record.function := by
    rw [List.mapM_map]
    exact congrArg c.ordered.mapM (funext function)
  unfold unitAbi
  rw [ordered_mapRecords owner, functions]
  rfl

theorem classAbis_mapRecords (function : ∀ r, (g r).function = r.function)
    (emits : ∀ r, (g r).emits = r.emits) : (c.mapRecords g).classAbis = c.classAbis := by
  have one (records : List Record) : (c.mapRecords g).classAbi (records.map g) = c.classAbi records := by
    have functions : (records.map g).mapM Record.function = records.mapM Record.function := by
      rw [List.mapM_map]
      exact congrArg records.mapM (funext function)
    have emitted : (records.map g).flatMap (·.emits) = records.flatMap (·.emits) := by
      simp [List.flatMap_map, emits]
    unfold classAbi
    rw [functions, emitted]
    rfl
  rw [classAbis, byClass_mapRecords owner, List.mapM_map]
  refine congrArg c.byClass.mapM (funext fun group => ?_)
  exact congrArg (fun abi => abi >>= fun abi => pure (group.1, abi)) (one group.2)

end MapRecords

theorem updateThose_eq (c : Catalog) (these : List Record) (f : Record → Record) :
    c.updateThose these f =
      c.mapRecords fun r => if r.handle ∈ these.map (·.handle) then f r else r :=
  rfl

theorem reached_of_none {fails : Record → Bool} {rs : List Record}
    (none : ∀ r ∈ rs, fails r = false) : reached fails rs = rs := by
  induction rs with
  | nil => rfl
  | cons r rs ih =>
    rw [reached, none r List.mem_cons_self, ih fun s member => none s (List.mem_cons_of_mem r member)]
    rfl

theorem mem_ordered {c : Catalog} {r : Record} :
    r ∈ c.ordered ↔ ∃ name ∈ c.owners, r ∈ c.recordsOf name := by
  unfold ordered byClass
  rw [List.flatMap_map, List.mem_flatMap]

theorem mem_records_of_mem_ordered {c : Catalog} {r : Record} (member : r ∈ c.ordered) :
    r ∈ c.records := by
  obtain ⟨name, -, listed⟩ := mem_ordered.mp member
  exact (List.mem_filter.mp listed).1

end Catalog

/-! ### Settled records -/

namespace Record

/-- Settling a record gives it a call and changes nothing else. -/
theorem settle_eq (r : Record) : r.settle = { r with call := r.settle.call } := by
  unfold settle
  split <;> rfl

theorem settle_of_ok {r : Record} {call : Call} (h : r.resolveCall = .ok call) :
    r.settle = { r with call := some call } := by
  simp [settle, h]

theorem resolveCall_settle (r : Record) : r.settle.resolveCall = r.resolveCall := by
  cases called : r.resolveCall with
  | ok call =>
    rw [settle_of_ok called]
    rfl
  | error fault =>
    have same : r.settle = r := by simp [settle, called]
    rw [same, called]

@[simp]
theorem settle_owner (r : Record) : r.settle.owner = r.owner := by
  rw [settle_eq]

@[simp]
theorem settle_name (r : Record) : r.settle.name = r.name := by
  rw [settle_eq]

@[simp]
theorem paramSpellings_settle (r : Record) : r.settle.paramSpellings = r.paramSpellings := by
  rw [settle_eq]; rfl

@[simp]
theorem returnSpellings_settle (r : Record) : r.settle.returnSpellings = r.returnSpellings := by
  rw [settle_eq]; rfl

theorem failsToCall_eq (r : Record) : r.failsToCall = (failure? r.resolveCall).isSome := by
  unfold failsToCall
  cases r.resolveCall <;> rfl

/-- The record's call is the one that its name and its types determine. -/
def IsSettled (r : Record) : Prop :=
  ∃ types call, r.HasTypes types ∧ r.call = some call ∧
    Call.of r.name.label (types.map AbiType.canonical) = some call

theorem isSettled_settle {r : Record} (unsettled : r.call = none) (callable : r.callFault? = none) :
    r.settle.IsSettled := by
  obtain ⟨call, called⟩ := failure?_eq_none.mp ((failure?_resolveCall unsettled).trans callable)
  obtain ⟨types, typed, made⟩ := resolveCall_ok unsettled called
  rw [settle_of_ok called]
  exact ⟨types, call, typed, rfl, made⟩

theorem IsSettled.resolveCall_eq {r : Record} (settled : r.IsSettled) :
    ∃ call, r.call = some call ∧ r.resolveCall = .ok call := by
  obtain ⟨types, call, -, stored, -⟩ := settled
  exact ⟨call, stored, by rw [resolveCall, stored]⟩

/-- A settled record and its function entry have the same call, which the entry's own name and
types determine. -/
theorem IsSettled.function_call {r : Record} {f : FunctionEntry} (settled : r.IsSettled)
    (h : r.function = .ok f) :
    r.call = some f.call ∧
      Call.of f.name.label (f.inputs.map (·.type.canonical)) = some f.call := by
  obtain ⟨name, -, called, typed⟩ := function_ok h
  obtain ⟨types, call, params, stored, made⟩ := settled
  rw [resolveCall, stored] at called
  obtain rfl := Except.ok.inj called
  refine ⟨stored, ?_⟩
  rw [name, ← made, params.unique typed, List.map_map]
  rfl

end Record

/-! ### Building -/

namespace Catalog

/-- The spellings of return values and then those of fields. -/
def laterSpellings (c : Catalog) : List Spelling :=
  c.ordered.flatMap Record.returnSpellings ++ c.events.flatMap Event.spellings

/-- Every spelling of the catalog in the order in which building meets it. -/
def spellings (c : Catalog) : List Spelling :=
  c.ordered.flatMap Record.paramSpellings ++ c.laterSpellings

/-- The first fault that building meets. Every record that is written out has to have a call before
a return value or a field is looked at. -/
def fault? (c : Catalog) : Option Fault :=
  (c.ordered.findSome? Record.callFault?).or (Spelling.firstFault? c.laterSpellings)

theorem fault?_eq_none {c : Catalog} :
    c.fault? = none ↔
      Spelling.firstFault? c.spellings = none ∧
        ∀ r ∈ c.ordered, r.name.label.isEncodable = true := by
  simp only [fault?, spellings, Spelling.firstFault?_append, Spelling.firstFault?_flatMap,
    Option.or_eq_none_iff, List.findSome?_eq_none_iff, Record.callFault?_eq_none]
  grind

/-- The fault is about a type that is not there or about a name. -/
theorem fault?_cases {c : Catalog} {fault : Fault} (found : c.fault? = some fault) :
    (∃ s ∈ c.spellings, s.isUnresolved = true ∧ s.fault = fault) ∨ fault = .unencodable := by
  unfold fault? at found
  rcases Option.or_eq_some_iff.mp found with call | ⟨-, later⟩
  · obtain ⟨r, member, here⟩ := List.exists_of_findSome?_eq_some call
    rcases Option.or_eq_some_iff.mp here with param | ⟨-, name⟩
    · obtain ⟨s, listed, same⟩ := Spelling.exists_of_firstFault? param
      exact Or.inl ⟨s, List.mem_append_left _ (List.mem_flatMap.mpr ⟨r, member, listed⟩), same⟩
    · exact Or.inr (Fault.eq_of_unless name)
  · obtain ⟨s, listed, same⟩ := Spelling.exists_of_firstFault? later
    exact Or.inl ⟨s, List.mem_append_right _ listed, same⟩

theorem fault?_eq_unencodable {c : Catalog} :
    c.fault? = some .unencodable ↔
      c.ordered.findSome? Record.callFault? = some .unencodable := by
  unfold fault?
  cases c.ordered.findSome? Record.callFault? with
  | some fault => exact Iff.rfl
  | none =>
    refine iff_of_false (fun later => ?_) nofun
    obtain ⟨s, -, -, same⟩ := Spelling.exists_of_firstFault? later
    cases same

/-- If all names can be encoded, the first fault is that of the first spelling that names no type. -/
theorem fault?_of_isEncodable {c : Catalog}
    (encodable : ∀ r ∈ c.ordered, r.name.label.isEncodable = true) :
    c.fault? = Spelling.firstFault? c.spellings := by
  rw [fault?, spellings, Spelling.firstFault?_append, Spelling.firstFault?_flatMap]
  congr 1
  refine findSome?_congr fun r member => ?_
  rw [Record.callFault?, Fault.unless_eq_none.mpr (encodable r member), Option.or_none]

theorem fault?_mapRecords {c : Catalog} {g : Record → Record}
    (owner : ∀ r, (g r).owner = r.owner) (calls : ∀ r, (g r).callFault? = r.callFault?)
    (returns : ∀ r, (g r).returnSpellings = r.returnSpellings) :
    (c.mapRecords g).fault? = c.fault? := by
  unfold fault? laterSpellings
  rw [ordered_mapRecords owner, List.findSome?_map, List.flatMap_map]
  simp only [Function.comp_def, calls, returns]
  rfl

/-- No record has been settled yet. -/
def IsUnsettled (c : Catalog) : Prop :=
  ∀ r ∈ c.records, r.call = none

/-- The catalog after every record that is written out has been settled. -/
def settled (c : Catalog) : Catalog :=
  c.updateThose c.ordered Record.settle

theorem ordered_settled (c : Catalog) : c.settled.ordered = c.ordered.map Record.settle := by
  rw [settled, updateThose_eq, ordered_mapRecords fun r => by split <;> simp]
  refine List.map_congr_left fun r member => if_pos ?_
  exact List.mem_map_of_mem member

theorem failure?_assignSelectors {c : Catalog} (unsettled : c.IsUnsettled) :
    failure? c.assignSelectors.2 = c.ordered.findSome? Record.callFault? := by
  rw [assignSelectors, failure?_forM]
  refine findSome?_congr fun r member => ?_
  rw [failure?_map, Record.failure?_resolveCall (unsettled r (mem_records_of_mem_ordered member))]

theorem assignSelectors_ok {c : Catalog} (h : failure? c.assignSelectors.2 = none) :
    c.assignSelectors.1 = c.settled := by
  rw [assignSelectors, failure?_forM, List.findSome?_eq_none_iff] at h
  have none : ∀ r ∈ c.ordered, r.failsToCall = false := by
    intro r member
    have called := h r member
    rw [failure?_map] at called
    rw [Record.failsToCall_eq, called]
    rfl
  rw [assignSelectors, reached_of_none none, settled]

/-- Building the unit fails at a return value or at a field, once all records have calls. -/
theorem failure?_unitAbi {c : Catalog} (unsettled : c.IsUnsettled)
    (callable : c.ordered.findSome? Record.callFault? = none) :
    failure? c.settled.unitAbi = Spelling.firstFault? c.laterSpellings := by
  have functions : failure? (c.settled.ordered.mapM Record.function) =
      Spelling.firstFault? (c.ordered.flatMap Record.returnSpellings) := by
    rw [ordered_settled, failure?_mapM, List.findSome?_map, Spelling.firstFault?_flatMap]
    refine findSome?_congr fun r member => ?_
    have called := List.findSome?_eq_none_iff.mp callable r member
    have settled := Record.isSettled_settle (unsettled r (mem_records_of_mem_ordered member)) called
    obtain ⟨call, -, resolved⟩ := settled.resolveCall_eq
    have params := (Record.callFault?_eq_none.mp called).1
    rw [Function.comp, Record.failure?_function (failure?_eq_none.mpr ⟨call, resolved⟩)
      (by simpa using params), Record.returnSpellings_settle]
  have events : failure? (c.events.mapM Event.entry) =
      Spelling.firstFault? (c.events.flatMap Event.spellings) := by
    rw [failure?_mapM, Spelling.firstFault?_flatMap]
    exact findSome?_congr fun e _ => e.failure?_entry
  rw [laterSpellings, Spelling.firstFault?_append, ← functions, ← events, unitAbi]
  refine failure?_bind fun entries _ => ?_
  change failure? (c.events.mapM Event.entry >>= _) = _
  exact failure?_bind_of_none fun _ _ => rfl

/-- What a class has is part of what the unit has, so classes add no failure. -/
theorem failure?_classAbis {c : Catalog} (unit : failure? c.unitAbi = none) :
    failure? c.classAbis = none := by
  obtain ⟨abi, built⟩ := failure?_eq_none.mp unit
  obtain ⟨functions, hfunctions, built⟩ := bind_ok built
  obtain ⟨events, hevents, -⟩ := bind_ok built
  have function : ∀ r ∈ c.ordered, failure? r.function = none := by
    have none := failure?_eq_none.mpr ⟨_, hfunctions⟩
    rwa [failure?_mapM, List.findSome?_eq_none_iff] at none
  have event : ∀ e ∈ c.events, failure? e.entry = none := by
    have none := failure?_eq_none.mpr ⟨_, hevents⟩
    rwa [failure?_mapM, List.findSome?_eq_none_iff] at none
  rw [classAbis, failure?_mapM, List.findSome?_eq_none_iff]
  rintro ⟨name, records⟩ member
  have own : failure? (records.mapM Record.function) = none := by
    rw [failure?_mapM, List.findSome?_eq_none_iff]
    exact fun r listed => function r (List.mem_flatMap.mpr ⟨_, member, listed⟩)
  -- A class has only those events that are declared, and the unit has them all.
  have emitted : failure? (((distinct (records.flatMap (·.emits))).filterMap
      fun e => c.event? (.str e)).mapM Event.entry) = none := by
    rw [failure?_mapM, List.findSome?_eq_none_iff]
    intro e listed
    obtain ⟨_, _, found⟩ := List.mem_filterMap.mp listed
    exact event e (List.mem_of_find?_eq_some found)
  obtain ⟨fs, hfs⟩ := failure?_eq_none.mp own
  obtain ⟨es, hes⟩ := failure?_eq_none.mp emitted
  simp only [classAbi, hfs, hes, bind, Except.bind, pure, Except.pure, failure?_ok]

theorem build_eq (c : Catalog) :
    c.build = (do
      c.assignSelectors.2
      let unitAbi ← c.assignSelectors.1.unitAbi
      let classAbis ← c.assignSelectors.1.classAbis
      return (c.assignSelectors.1, unitAbi, classAbis)) :=
  rfl

theorem failure?_build {c : Catalog} (unsettled : c.IsUnsettled) :
    failure? c.build = c.fault? := by
  have assign := failure?_assignSelectors unsettled
  rw [fault?, ← assign, build_eq]
  refine failure?_bind fun _ assigned => ?_
  have none := failure?_eq_none.mpr ⟨_, assigned⟩
  have unit := failure?_unitAbi unsettled (assign.symm.trans none)
  rw [assignSelectors_ok none, ← unit]
  apply failure?_bind_of_none
  intro abi built
  rw [failure?_bind_of_none fun _ _ => rfl]
  exact failure?_classAbis (failure?_eq_none.mpr ⟨abi, built⟩)

/-- What building gives: every record that is written out settled, and the manifests of these. -/
theorem build_ok {c c' : Catalog} {unit : Abi} {classes : List (Name × Abi)}
    (unsettled : c.IsUnsettled) (h : c.build = .ok (c', unit, classes)) :
    c' = c.settled ∧ c'.unitAbi = .ok unit ∧ c'.classAbis = .ok classes ∧
      ∀ r ∈ c'.ordered, r.IsSettled := by
  rw [build_eq] at h
  obtain ⟨_, assigned, h⟩ := bind_ok h
  obtain ⟨unitAbi, hunit, h⟩ := bind_ok h
  obtain ⟨classAbis, hclasses, h⟩ := bind_ok h
  cases h
  have none := failure?_eq_none.mpr ⟨_, assigned⟩
  have same := assignSelectors_ok none
  refine ⟨same, hunit, hclasses, ?_⟩
  rw [same, ordered_settled]
  intro r member
  obtain ⟨raw, listed, rfl⟩ := List.mem_map.mp member
  rw [failure?_assignSelectors unsettled, List.findSome?_eq_none_iff] at none
  exact Record.isSettled_settle (unsettled raw (mem_records_of_mem_ordered listed)) (none raw listed)

end Catalog

end ContractAbi
