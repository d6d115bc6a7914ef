import ContractAbi.Proofs.Running

/-!
# Code whose names are texts

A dump may put any value in the place of a name. Where paths, names and types are texts, nothing
stops a survey (`surveyed_of_isTextual`), and all names in the catalog and its manifests are texts.
-/

namespace ContractAbi

def Method.isTextual (m : Method) : Bool :=
  m.name.text?.isSome && m.decorators.all (·.name.text?.isSome)

/-- A field need not have a type. -/
def Field.isTextual (f : Field) : Bool :=
  f.name.text?.isSome && (f.type = .null || f.type.text?.isSome)

def Class.isTextual (c : Class) : Bool :=
  c.name.text?.isSome && c.methods.all Method.isTextual && c.fields.all Field.isTextual

def Source.isTextual (s : Source) : Bool :=
  s.path.text?.isSome && s.classes.all Class.isTextual

/-- Whether all paths, names and types are texts. -/
def Codebase.isTextual (code : Codebase) : Bool :=
  code.sources.all Source.isTextual

theorem Json.eq_str_of_text? {x : Json} (h : x.text?.isSome = true) : ∃ s, x = .str s := by
  cases x with
  | str s => exact ⟨s, rfl⟩
  | _ => cases h

theorem Json.not_isComposite {x : Json} (h : x.text?.isSome = true) : x.isComposite = false := by
  obtain ⟨s, rfl⟩ := eq_str_of_text? h
  rfl

/-! ### Surveys that come to their end -/

theorem Class.eventFields_completes {fs : List Field} (textual : fs.all Field.isTextual = true) :
    ∃ fields, eventFields fs = .ok fields := by
  induction fs with
  | nil => exact ⟨[], rfl⟩
  | cons f fs ih =>
    rw [List.all_cons, Bool.and_eq_true] at textual
    obtain ⟨rest, others⟩ := ih textual.2
    have typed : ∃ type, eventType? f = .ok type := by
      have kind := (Bool.and_eq_true_iff.mp textual.1).2
      rw [Bool.or_eq_true, decide_eq_true_eq] at kind
      unfold eventType?
      rcases kind with missing | given
      · rw [missing]
        exact ⟨none, rfl⟩
      · obtain ⟨s, same⟩ := Json.eq_str_of_text? given
        rw [same]
        split
        · exact ⟨_, rfl⟩
        · exact ⟨none, rfl⟩
    obtain ⟨type, first⟩ := typed
    rw [eventFields, first, others]
    exact ⟨_, rfl⟩

theorem Class.event?_completes {c : Class} (textual : c.isTextual = true) (path : Json) :
    ∃ event, c.event? path = .ok event := by
  obtain ⟨fields, read⟩ := eventFields_completes (Bool.and_eq_true_iff.mp textual).2
  unfold event?
  split
  · exact ⟨none, rfl⟩
  · rw [read]
    exact ⟨_, rfl⟩

theorem Class.isVisitable_of_isTextual {c : Class} (textual : c.isTextual = true) (path : Json) :
    c.IsVisitable path := by
  have parts := Bool.and_eq_true_iff.mp (Bool.and_eq_true_iff.mp textual).1
  refine ⟨Json.not_isComposite parts.1, event?_completes textual path, fun m own d listed => ?_⟩
  have words := List.all_eq_true.mp parts.2 m own
  exact Json.not_isComposite (List.all_eq_true.mp (Bool.and_eq_true_iff.mp words).2 d listed)

theorem Source.isVisitable_of_isTextual {s : Source} (textual : s.isTextual = true) :
    s.IsVisitable := by
  have parts := Bool.and_eq_true_iff.mp textual
  obtain ⟨path, same⟩ := Json.eq_str_of_text? parts.1
  have known : ∃ standard, s.isStandard = .ok standard := by
    unfold isStandard
    rw [same]
    split <;> exact ⟨_, rfl⟩
  obtain ⟨standard, known⟩ := known
  cases standard with
  | true => exact Or.inl known
  | false =>
    refine Or.inr ⟨known, fun c declared => ?_⟩
    exact Class.isVisitable_of_isTextual (List.all_eq_true.mp parts.2 c declared) s.path

theorem Codebase.surveyed_of_isTextual {code : Codebase} (textual : code.isTextual = true) :
    code.surveyed.2 = .ok () :=
  Survey.visitSources_completes.mpr fun s listed =>
    Source.isVisitable_of_isTextual (List.all_eq_true.mp textual s listed)

/-! ### Names in a catalog -/

def Event.isTextual (e : Event) : Bool :=
  e.name.text?.isSome && e.fields.all (·.1.text?.isSome)

structure Catalog.IsTextual (c : Catalog) : Prop where
  owners : ∀ r ∈ c.records, r.owner.text?.isSome = true
  names : ∀ r ∈ c.records, r.name.text?.isSome = true
  events : ∀ e ∈ c.events, e.isTextual = true

/-- All names found so far are texts, and no annotations are held back that might bring in others. -/
structure Survey.IsTextual (s : Survey) : Prop where
  nothingHeld : s.catalog.held.entries = []
  catalog : s.catalog.IsTextual

namespace Annotations

/-- The name from `@method`, if there is one, is a text. -/
def IsTextual (a : Annotations) : Prop :=
  ∀ method, a.method = some method → method.1.text?.isSome = true

theorem add_isTextual {declared : Name} (named : declared.text?.isSome = true) {a : Annotations}
    (textual : a.IsTextual) (d : Decorator) : (a.add declared d).IsTextual := by
  unfold add
  split_ifs
  · rintro method same
    cases same
    unfold MethodArguments.nameOr
    split
    · exact named
    · rfl
  all_goals exact textual

theorem ofMethod_isTextual {m : Method} (textual : m.isTextual = true) :
    (ofMethod m).IsTextual := by
  have named := (Bool.and_eq_true_iff.mp textual).1
  exact List.foldlRecOn m.decorators (add m.name) (nofun : IsTextual {}) fun a textual d _ =>
    add_isTextual named textual d

end Annotations

theorem Record.merge_isTextual {r : Record} {a : Annotations} (named : r.name.text?.isSome = true)
    (textual : a.IsTextual) : (r.merge a).name.text?.isSome = true := by
  unfold merge
  cases given : a.method with
  | none => exact named
  | some method => exact textual method given

theorem Class.eventFields_isTextual {fs : List Field} {fields : List (Name × Text)}
    (textual : fs.all Field.isTextual = true) (h : eventFields fs = .ok fields) :
    fields.all (·.1.text?.isSome) = true := by
  induction fs generalizing fields with
  | nil => cases h; rfl
  | cons f fs ih =>
    rw [List.all_cons, Bool.and_eq_true] at textual
    obtain ⟨type, -, h⟩ := bind_ok h
    obtain ⟨rest, others, h⟩ := bind_ok h
    cases h
    have named := (Bool.and_eq_true_iff.mp textual.1).1
    rw [List.all_append, ih textual.2 others, Bool.and_true]
    cases type with
    | none => rfl
    | some text => simpa using named

theorem Class.eventName?_isTextual {c : Class} {name : Name} (own : c.name.text?.isSome = true)
    (h : c.eventName? = some name) : name.text?.isSome = true := by
  obtain ⟨last, -, h⟩ := Option.bind_eq_some_iff.mp h
  split at h
  · cases h
    rfl
  · split at h
    · cases h
    · cases h
      exact own

theorem Class.event?_isTextual {c : Class} {path : Json} {event : Option Event}
    (textual : c.isTextual = true) (h : c.event? path = .ok event) :
    ∀ e ∈ event.toList, e.isTextual = true := by
  unfold event? at h
  split at h
  · cases h
    nofun
  · rename_i name found
    obtain ⟨fields, read, h⟩ := bind_ok h
    cases h
    intro e member
    obtain rfl := List.mem_singleton.mp member
    have parts := Bool.and_eq_true_iff.mp textual
    have own := (Bool.and_eq_true_iff.mp parts.1).1
    have named := eventName?_isTextual own found
    exact Bool.and_eq_true_iff.mpr ⟨named, eventFields_isTextual parts.2 read⟩

namespace Survey

theorem visitMethod_isTextual {s s' : Survey} {m : Method} {owner : Name} (before : s.IsTextual)
    (textual : m.isTextual = true) (named : owner.text?.isSome = true)
    (h : s.visitMethod m owner = (s', .ok ())) : s'.IsTextual := by
  have declared := (Bool.and_eq_true_iff.mp textual).1
  have said := Annotations.ofMethod_isTextual textual
  obtain ⟨empty, before⟩ := before
  obtain ⟨-, catalog⟩ := visitMethod_ok empty h
  constructor <;> rw [catalog]
  refine ⟨?_, ?_, ?_⟩
  · intro r member
    rcases Catalog.mem_records_enter member with old | ⟨old, listed, -, rfl⟩ | rfl
    · exact before.owners r old
    · exact before.owners old listed
    · exact named
  · intro r member
    rcases Catalog.mem_records_enter member with old | ⟨old, listed, -, rfl⟩ | rfl
    · exact before.names r old
    · exact Record.merge_isTextual (before.names old listed) said
    · exact Record.merge_isTextual declared said
  · intro e member
    exact before.events e (Catalog.enter_events .. ▸ member)

theorem visitClass_isTextual {s s' : Survey} {site : Site} {c : Class} {path : Json}
    (before : s.IsTextual) (textual : c.isTextual = true)
    (h : s.visitClass site c path = (s', .ok ())) : s'.IsTextual := by
  obtain ⟨event, found, methods⟩ := visitClass_ok h
  have declared := Class.event?_isTextual textual found
  have parts := Bool.and_eq_true_iff.mp (Bool.and_eq_true_iff.mp textual).1
  refine visitMethods_keeps ?_ ?_ methods
  · intro m member s s' before visited
    exact visitMethod_isTextual before (List.all_eq_true.mp parts.2 m member) parts.1 visited
  · refine ⟨before.nothingHeld, before.catalog.owners, before.catalog.names, ?_⟩
    intro e member
    rcases List.mem_append.mp member with old | new
    · exact before.catalog.events e old
    · exact declared e new

end Survey

theorem Codebase.catalog_isTextual {code : Codebase} (textual : code.isTextual = true) :
    code.catalog.IsTextual := by
  have start : Survey.IsTextual { registry := { handles := code.handles } } :=
    ⟨rfl, nofun, nofun, nofun⟩
  have walked : code.surveyed = (code.surveyed.1, .ok ()) :=
    Prod.ext rfl (surveyed_of_isTextual textual)
  refine (Survey.visitSources_keeps ?_ start walked).catalog
  intro source listed c declared s s' site before visited
  have parts := Bool.and_eq_true_iff.mp (List.all_eq_true.mp textual source listed)
  exact Survey.visitClass_isTextual before (List.all_eq_true.mp parts.2 c declared) visited

/-! ### Names in manifests -/

theorem Record.resolveParams_isTextual {r : Record} {stem : Text} {number : Nat}
    {ps : List Param} {resolved : List AbiParam} (h : r.resolveParams stem number ps = .ok resolved) :
    resolved.all AbiParam.isTextual = true := by
  induction ps generalizing number resolved with
  | nil => cases h; rfl
  | cons p ps ih =>
    obtain ⟨type, -, h⟩ := bind_ok h
    obtain ⟨rest, others, h⟩ := bind_ok h
    cases h
    rw [List.all_cons, ih others]
    rfl

theorem Record.function_isTextual {r : Record} {f : FunctionEntry}
    (named : r.name.text?.isSome = true) (h : r.function = .ok f) : f.isTextual = true := by
  obtain ⟨call, -, h⟩ := bind_ok h
  obtain ⟨inputs, given, h⟩ := bind_ok h
  obtain ⟨outputs, returned, h⟩ := bind_ok h
  cases h
  simp [FunctionEntry.isTextual, named, resolveParams_isTextual given,
    resolveParams_isTextual returned]

theorem Event.entry_isTextual {e : Event} {entry : EventEntry} (textual : e.isTextual = true)
    (h : e.entry = .ok entry) : entry.isTextual = true := by
  obtain ⟨named, fields⟩ := Bool.and_eq_true_iff.mp textual
  obtain ⟨values, resolved, h⟩ := bind_ok h
  cases h
  refine Bool.and_eq_true_iff.mpr ⟨named, List.all_eq_true.mpr ?_⟩
  intro value member
  obtain ⟨field, listed, made⟩ := exists_of_mem_mapM resolved member
  obtain ⟨type, -, same⟩ := bind_ok made
  cases same
  exact List.all_eq_true.mp fields field listed

theorem Catalog.classAbi_isTextual {c : Catalog} {records : List Record} {abi : Abi}
    (textual : c.IsTextual) (listed : ∀ r ∈ records, r ∈ c.records)
    (h : c.classAbi records = .ok abi) : abi.isTextual = true := by
  obtain ⟨functions, built, h⟩ := bind_ok h
  obtain ⟨events, declared, h⟩ := bind_ok h
  cases h
  refine Bool.and_eq_true_iff.mpr ⟨List.all_eq_true.mpr ?_, List.all_eq_true.mpr ?_⟩
  · intro f member
    obtain ⟨r, own, made⟩ := exists_of_mem_mapM built member
    exact Record.function_isTextual (textual.names r (listed r own)) made
  · intro entry member
    obtain ⟨e, own, made⟩ := exists_of_mem_mapM declared member
    obtain ⟨_, _, found⟩ := List.mem_filterMap.mp own
    exact Event.entry_isTextual (textual.events e (List.mem_of_find?_eq_some found)) made

/-- All names in the manifests of a textual catalog are texts. -/
theorem Catalog.classAbis_isTextual {c : Catalog} {classes : List (Name × Abi)}
    (textual : c.IsTextual) (h : c.classAbis = .ok classes) :
    ∀ entry ∈ classes, entry.2.isTextual = true := by
  intro entry member
  obtain ⟨⟨owner, records⟩, group, made⟩ := exists_of_mem_mapM h member
  obtain ⟨_, _, same⟩ := List.mem_map.mp group
  cases same
  obtain ⟨abi, built, same⟩ := bind_ok made
  cases same
  exact classAbi_isTextual textual (fun r own => (List.mem_filter.mp own).1) built

end ContractAbi
