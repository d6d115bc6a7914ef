import ContractAbi.Proofs.Naming

/-!
# Running again

A routine that takes no annotated method's place leaves the annotations of its class as they are. So
a run over the codebase that another run has left finds the same annotations in the same places, and
puts the same routines where they already are.
-/

namespace ContractAbi

/-! ### Classes with routines -/

/-- The second class is the first one with routines in it, and none of them is in the place of an
annotated method. -/
structure Class.Hosts (c c' : Class) : Prop where
  name : c'.name = c.name
  decorators : c'.decorators = c.decorators
  fields : c'.fields = c.fields
  annotated : c'.methods.filter Method.isAnnotated = c.methods.filter Method.isAnnotated
  others : ∀ m ∈ c'.methods, m ∈ c.methods ∨ m.decorators = []
  unrouted : ∀ m ∈ c.methods.filter Method.isAnnotated, m.name ≠ .str Dispatch.routineName

namespace Class

variable {c c' : Class}

theorem hosts_self
    (unrouted : ∀ m ∈ c.methods.filter Method.isAnnotated, m.name ≠ .str Dispatch.routineName) :
    c.Hosts c :=
  ⟨rfl, rfl, rfl, rfl, fun _ own => Or.inl own, unrouted⟩

theorem Hosts.splice (hosts : c.Hosts c') {m : Method} (routine : m.IsRoutine) :
    c.Hosts (c'.splice m).1 := by
  obtain ⟨before, old, after, split, spliced, -, place⟩ := c'.methods_splice m
  have bare : m.isAnnotated = false := by simp [Method.isAnnotated, routine.bare]
  have replaced : old.filter Method.isAnnotated = [] := by
    refine List.filter_eq_nil_iff.mpr fun own inside annotated => ?_
    have listed : own ∈ c'.methods.filter Method.isAnnotated :=
      List.mem_filter.mpr ⟨by simp [split, inside], annotated⟩
    rcases place with ⟨rfl, -⟩ | ⟨first, named, rfl⟩
    · cases inside
    · rw [hosts.annotated] at listed
      rw [List.mem_singleton.mp inside] at listed
      exact hosts.unrouted first listed (named.trans routine.name)
  refine ⟨?_, ?_, ?_, ?_, ?_, hosts.unrouted⟩
  · rw [splice_eq, hosts.name]
  · rw [splice_eq, hosts.decorators]
  · rw [fields_splice, hosts.fields]
  · rw [← hosts.annotated, spliced, split]
    simp [bare, replaced]
  · intro own member
    rcases mem_methods_splice member with rfl | old
    · exact Or.inr routine.bare
    · exact hosts.others own old

theorem Hosts.eventName?_eq (hosts : c.Hosts c') : c'.eventName? = c.eventName? := by
  unfold eventName?
  rw [hosts.name, hosts.decorators]

theorem Hosts.event?_eq (hosts : c.Hosts c') (path : Json) : c'.event? path = c.event? path := by
  unfold event?
  rw [hosts.eventName?_eq, hosts.name, hosts.fields]

theorem Hosts.isVisitable (hosts : c.Hosts c') {path : Json} (visitable : c.IsVisitable path) :
    c'.IsVisitable path := by
  refine ⟨hosts.name ▸ visitable.name, hosts.event?_eq path ▸ visitable.event, ?_⟩
  intro m own d listed
  rcases hosts.others m own with old | bare
  · exact visitable.decorators m old d listed
  · rw [bare] at listed
    cases listed

end Class

/-! ### Codebases with routines -/

theorem forall₂_modify {α β : Type} {R : α → β → Prop} {xs : List α} {ys : List β} {f : β → β}
    (related : List.Forall₂ R xs ys) (keeps : ∀ x y, R x y → R x (f y)) (i : Nat) :
    List.Forall₂ R xs (ys.modify i f) := by
  induction related generalizing i with
  | nil => simp
  | cons first rest ih =>
    cases i with
    | zero => exact .cons (keeps _ _ first) rest
    | succ i => exact .cons first (ih i)

theorem forall₂_zipIdx {α β : Type} {R : α → β → Prop} {xs : List α} {ys : List β}
    (related : List.Forall₂ R xs ys) (n : Nat) :
    List.Forall₂ (fun p q => R p.1 q.1 ∧ q.2 = p.2) (xs.zipIdx n) (ys.zipIdx n) := by
  induction related generalizing n with
  | nil => exact .nil
  | cons first rest ih => exact .cons ⟨first, rfl⟩ (ih (n + 1))

/-- The second source is the first one with routines in its classes. Nothing is said about the classes
of a library. -/
structure Source.Hosts (s s' : Source) : Prop where
  path : s'.path = s.path
  isLibrary : s'.isLibrary = s.isLibrary
  classes : s.isPassedOver = false → List.Forall₂ Class.Hosts s.classes s'.classes

namespace Source

variable {s s' : Source}

theorem Hosts.isStandard_eq (hosts : s.Hosts s') : s'.isStandard = s.isStandard := by
  unfold isStandard
  rw [hosts.path, hosts.isLibrary]

theorem Hosts.isPassedOver_eq (hosts : s.Hosts s') : s'.isPassedOver = s.isPassedOver := by
  unfold isPassedOver
  rw [hosts.isStandard_eq]

theorem Hosts.isVisitable (hosts : s.Hosts s') (visitable : s.IsVisitable) : s'.IsVisitable := by
  unfold IsVisitable
  rw [hosts.isStandard_eq, hosts.path]
  refine visitable.imp id fun ⟨own, each⟩ => ⟨own, fun c' declared => ?_⟩
  have visited : s.isPassedOver = false := by simp [isPassedOver, own]
  obtain ⟨c, listed, same⟩ := exists_of_forall₂ (hosts.classes visited) declared
  exact same.isVisitable (each c listed)

end Source

structure Contract.Hosts (v v' : Contract) : Prop where
  site : v'.site = v.site
  path : v'.path = v.path
  declaration : v.declaration.Hosts v'.declaration

theorem Contract.Hosts.annotated_eq {v v' : Contract} (hosts : v.Hosts v') :
    v'.annotated = v.annotated := by
  rw [Contract.annotated_eq, Contract.annotated_eq, hosts.declaration.annotated]
  unfold Contract.name
  rw [hosts.declaration.name]

namespace Codebase

def Hosts (code code' : Codebase) : Prop :=
  List.Forall₂ Source.Hosts code.sources code'.sources

variable {code code' : Codebase}

theorem hosts_self (unrouted : ∀ p ∈ code.annotated, p.2.name ≠ .str Dispatch.routineName) :
    code.Hosts code := by
  refine List.forall₂_same.mpr fun s listed => ⟨rfl, rfl, fun visited => ?_⟩
  refine List.forall₂_same.mpr fun c declared => Class.hosts_self fun m member => ?_
  obtain ⟨own, annotated⟩ := List.mem_filter.mp member
  let e : Element :=
    { stem := Program.pathStem (s.path.text?.getD ""), owner := c.name, method := m
      isLibrary := s.isPassedOver }
  have element : e ∈ code.elements := List.mem_flatMap.mpr
    ⟨s, listed, List.mem_flatMap.mpr ⟨c, declared, List.mem_map_of_mem own⟩⟩
  have recorded : e.isRecorded = true := by simp [e, Element.isRecorded, visited, annotated]
  refine unrouted (c.name, m) ?_
  rw [← map_recorded]
  exact List.mem_map.mpr ⟨e, List.mem_filter.mpr ⟨element, recorded⟩, rfl⟩

theorem Hosts.spliced (hosts : code.Hosts code') (site : Site) {m : Method}
    (routine : m.IsRoutine) : code.Hosts (code'.spliced site m) := by
  have source (s s' : Source) (own : s.Hosts s') :
      s.Hosts { s' with classes := s'.classes.modify site.index fun c => (c.splice m).1 } :=
    ⟨own.path, own.isLibrary, fun visited =>
      forall₂_modify (own.classes visited) (fun c c' hosts => hosts.splice routine) site.index⟩
  exact forall₂_modify hosts source site.source

theorem hosts_run (t : Transformer) (program : Option Program)
    (unrouted : ∀ p ∈ code.annotated, p.2.name ≠ .str Dispatch.routineName) :
    code.Hosts (t.run code program).2.1 :=
  t.run_keeps (fun _ _ hosts => hosts) (fun _ site _ hosts routine _ => hosts.spliced site routine)
    program (hosts_self unrouted)

theorem Hosts.surveyed (hosts : code.Hosts code') (walked : code.surveyed.2 = .ok ()) :
    code'.surveyed.2 = .ok () := by
  refine Survey.visitSources_completes.mpr fun s' listed => ?_
  obtain ⟨s, declared, same⟩ := exists_of_forall₂ hosts listed
  exact same.isVisitable (Survey.visitSources_completes.mp walked s declared)

theorem Hosts.contracts (hosts : code.Hosts code') :
    List.Forall₂ Contract.Hosts code.contracts code'.contracts := by
  have source (number : Nat) {s s' : Source} (own : s.Hosts s') :
      List.Forall₂ Contract.Hosts (s.contracts number) (s'.contracts number) := by
    rw [Source.contracts_eq, Source.contracts_eq, own.isPassedOver_eq]
    cases passed : s.isPassedOver with
    | true => exact .nil
    | false =>
      refine List.rel_map ?_ (forall₂_zipIdx (own.classes passed) 0)
      rintro ⟨c, _⟩ ⟨c', _⟩ ⟨same, rfl⟩
      exact ⟨rfl, own.path, same⟩
  refine List.rel_flatMap (forall₂_zipIdx hosts 0) ?_
  rintro ⟨s, _⟩ ⟨s', number⟩ ⟨own, rfl⟩
  exact source number own

theorem Hosts.annotated_eq (hosts : code.Hosts code') : code'.annotated = code.annotated := by
  have each : List.Forall₂ Eq code.annotated code'.annotated := by
    refine List.rel_flatMap hosts.contracts fun v v' own => ?_
    rw [own.annotated_eq]
    exact List.forall₂_refl _
  rw [List.forall₂_eq_eq_eq] at each
  exact each.symm

theorem Hosts.last_site (hosts : code.Hosts code') (key : Json) :
    (code'.contracts.filter (·.name.key = key)).getLast?.map (·.site) =
      (code.contracts.filter (·.name.key = key)).getLast?.map (·.site) := by
  have named : List.Forall₂ Contract.Hosts (code.contracts.filter (·.name.key = key))
      (code'.contracts.filter (·.name.key = key)) := by
    refine List.rel_filter (fun v v' own => ?_) hosts.contracts
    have same : v'.name = v.name := own.declaration.name
    simp [same]
  have sites : (code'.contracts.filter (·.name.key = key)).map (·.site) =
      (code.contracts.filter (·.name.key = key)).map (·.site) := by
    rw [← List.forall₂_eq_eq_eq, List.forall₂_map_left_iff, List.forall₂_map_right_iff]
    exact named.flip.imp fun v' v own => own.site
  rw [← List.getLast?_map, ← List.getLast?_map, sites]

theorem Hosts.events_eq (hosts : code.Hosts code') (walked : code.surveyed.2 = .ok ()) :
    code'.catalog.events = code.catalog.events := by
  have before := (code.surveyed_sees walked).events
  have after := (code'.surveyed_sees (hosts.surveyed walked)).events
  have declared : List.Forall₂ Contract.Hosts
      (code.contracts.filter (·.declaration.eventName?.isSome))
      (code'.contracts.filter (·.declaration.eventName?.isSome)) := by
    refine List.rel_filter (fun v v' own => ?_) hosts.contracts
    simp [own.declaration.eventName?_eq]
  have middle : List.Forall₂ (fun v e => v.declaration.event? v.path = .ok (some e))
      (code.contracts.filter (·.declaration.eventName?.isSome)) code'.catalog.events := by
    refine forall₂_comp ?_ declared after
    intro v v' e own event
    rwa [own.declaration.event?_eq, own.path] at event
  have same : List.Forall₂ Eq code'.catalog.events code.catalog.events := by
    refine forall₂_comp ?_ middle.flip before
    intro e v e' event event'
    exact Option.some.inj (Except.ok.inj (event.symm.trans event'))
  rwa [List.forall₂_eq_eq_eq] at same

end Codebase

/-! ### What is published -/

/-- The record without its handle and its internal name. -/
def Record.unplaced (r : Record) : Record :=
  { r with handle := 0, internalName := none }

theorem Record.unplaced_settle (r : Record) : r.settle.unplaced = r.unplaced.settle := by
  have same : r.unplaced.resolveCall = r.resolveCall := rfl
  cases called : r.resolveCall with
  | ok call =>
    rw [settle_of_ok called, settle_of_ok (same.trans called)]
    rfl
  | error fault => simp [settle, called, same]

namespace Catalog

/-- What manifests and routines are made of. -/
def published (c : Catalog) : Catalog :=
  { records := c.records.map Record.unplaced, events := c.events }

theorem published_rename (c : Catalog) (p : Program) :
    (c.mapRecords (c.rename p)).published = c.published := by
  have records : (c.records.map (c.rename p)).map Record.unplaced =
      c.records.map Record.unplaced := by
    rw [List.map_map]
    refine List.map_congr_left fun r _ => ?_
    dsimp only [Function.comp]
    rw [rename_eq]
    rfl
  unfold published mapRecords
  rw [records]

theorem published_settled {c : Catalog} (plain : ∀ r ∈ c.records, r.owner.isComposite = false) :
    c.settled.published = c.published.mapRecords Record.settle := by
  have all : c.settled.records = c.records.map Record.settle := List.map_congr_left
    fun r member => if_pos (List.mem_map_of_mem (mem_ordered_of_plain plain member))
  have records : (c.records.map Record.settle).map Record.unplaced =
      (c.records.map Record.unplaced).map Record.settle := by
    simp [Record.unplaced_settle]
  unfold published mapRecords
  rw [all, records]
  rfl

theorem byClass_published (c : Catalog) :
    c.published.byClass = c.byClass.map fun g => (g.1, g.2.map Record.unplaced) :=
  byClass_mapRecords (c := c) fun _ => rfl

theorem fault?_published (c : Catalog) : c.published.fault? = c.fault? :=
  fault?_mapRecords (c := c) (fun _ => rfl) (fun _ => rfl) fun _ => rfl

theorem unitAbi_published (c : Catalog) : c.published.unitAbi = c.unitAbi :=
  unitAbi_mapRecords (c := c) (fun _ => rfl) fun _ => Record.function_of_call rfl rfl

theorem classAbis_published (c : Catalog) : c.published.classAbis = c.classAbis :=
  classAbis_mapRecords (c := c) (fun _ => rfl) (fun _ => Record.function_of_call rfl rfl) fun _ => rfl

theorem guards_unplaced (records : List Record) :
    Dispatch.guards (records.map Record.unplaced) = Dispatch.guards records := by
  unfold Dispatch.guards
  rw [List.filterMap_map]
  rfl

theorem byClass_related {c c' : Catalog} (same : c'.published = c.published) :
    List.Forall₂ (fun g g' => g'.1 = g.1 ∧ Dispatch.guards g'.2 = Dispatch.guards g.2)
      c.byClass c'.byClass := by
  have groups : c.byClass.map (fun g => (g.1, g.2.map Record.unplaced)) =
      c'.byClass.map fun g => (g.1, g.2.map Record.unplaced) := by
    rw [← byClass_published, ← byClass_published, same]
  rw [← List.forall₂_eq_eq_eq, List.forall₂_map_left_iff, List.forall₂_map_right_iff] at groups
  refine groups.imp fun g g' equal => ?_
  obtain ⟨owner, records⟩ := Prod.mk.inj equal
  refine ⟨owner.symm, ?_⟩
  rw [← guards_unplaced, ← records, guards_unplaced]

end Catalog

theorem Codebase.unplaced_records {code : Codebase} (fresh : code.IsFresh)
    (walked : code.surveyed.2 = .ok ()) : code.catalog.records.map Record.unplaced =
      code.annotated.map fun p => Record.ofMethod p.1 p.2 0 := by
  rw [← List.forall₂_eq_eq_eq, List.forall₂_map_left_iff, List.forall₂_map_right_iff]
  refine (records_of_isFresh fresh walked).flip.imp fun r p own => ?_
  rw [own.1]
  rfl

theorem Codebase.Hosts.published_eq {code code' : Codebase} (hosts : code.Hosts code')
    (fresh : code.IsFresh) (fresh' : code'.IsFresh) (walked : code.surveyed.2 = .ok ()) :
    code'.catalog.published = code.catalog.published := by
  unfold Catalog.published
  rw [unplaced_records fresh walked, unplaced_records fresh' (hosts.surveyed walked),
    hosts.annotated_eq, hosts.events_eq walked]

namespace Transformer

variable {t t' : Transformer} {code code' : Codebase} {program : Option Program}
  {output output' : Output} {files files' : Table Text Text}

theorem Stages.published_eq {c : Catalog} {s : Injector} (stages : Stages t code program c s output)
    (fresh : code.IsFresh) :
    output.catalog.published = code.catalog.published.mapRecords Record.settle := by
  obtain ⟨walked, p, -, -, rfl⟩ := Codebase.survey_eq_ok stages.surveyed
  obtain ⟨same, -, -, -⟩ := Catalog.build_ok stages.unsettled stages.built
  have plain : ∀ r ∈ (code.catalog.mapRecords (code.catalog.rename p)).records,
      r.owner.isComposite = false := by
    intro r member
    obtain ⟨old, listed, rfl⟩ := List.mem_map.mp member
    rw [Catalog.rename_owner]
    exact code.catalog_plain fresh walked old listed
  rw [same, Catalog.published_settled plain, Catalog.published_rename]

theorem Stages.same_manifests {c c' : Catalog} {s s' : Injector}
    (stages : Stages t code program c s output) (stages' : Stages t' code' none c' s' output')
    (hosts : code.Hosts code') (fresh : code.IsFresh) (fresh' : code'.IsFresh) :
    output'.catalog.published = output.catalog.published ∧ output'.unitAbi = output.unitAbi ∧
      output'.classAbis = output.classAbis := by
  have walked := (Codebase.survey_eq_ok stages.surveyed).1
  have same : output'.catalog.published = output.catalog.published := by
    rw [stages.published_eq fresh, stages'.published_eq fresh',
      hosts.published_eq fresh fresh' walked]
  obtain ⟨-, unit, classes, -⟩ := Catalog.build_ok stages.unsettled stages.built
  obtain ⟨-, unit', classes', -⟩ := Catalog.build_ok stages'.unsettled stages'.built
  rw [← Catalog.unitAbi_published] at unit unit'
  rw [← Catalog.classAbis_published] at classes classes'
  rw [same] at unit' classes'
  exact ⟨same, Except.ok.inj (unit'.symm.trans unit), Except.ok.inj (classes'.symm.trans classes)⟩

theorem texts_of_run_ok (fresh : code.IsFresh) (h : (t.run code none).2.2 = .ok (output, files)) :
    ∀ s ∈ code.sources, s.path.text?.isSome = true := by
  obtain ⟨p, chosen, -⟩ := run_internalName fresh h
  exact Program.nameSources_completes.mp ⟨p, chosen⟩

theorem faultless_of_run_ok (h : (t.run code program).2.2 = .ok (output, files)) :
    code.catalog.fault? = none := by
  obtain ⟨c, s, stages⟩ := run_stages h
  obtain ⟨-, p, -, -, rfl⟩ := Codebase.survey_eq_ok stages.surveyed
  rw [← code.catalog.fault?_rename p, ← Catalog.failure?_build stages.unsettled, stages.built]
  rfl

/-- A run without a program comes to its files if the survey ends, every path is a text and building
meets no fault. -/
theorem stages_of_faultless (t : Transformer) (walked : code.surveyed.2 = .ok ())
    (texts : ∀ s ∈ code.sources, s.path.text?.isSome = true)
    (faultless : code.catalog.fault? = none) : ∃ c s output, Stages t code none c s output := by
  -- The program of all declarations exists and lacks no record.
  obtain ⟨p, chosen, present⟩ := Codebase.programOr_none walked texts
  have named : (code.catalog.resolveNames p).2 = .ok () := Catalog.resolveNames_eq_ok.mpr
    fun r member => present r (Catalog.mem_records_of_mem_ordered member)
  have surveyed := Codebase.survey_of_programOr walked chosen
  rw [named] at surveyed
  have built : failure? (code.catalog.mapRecords (code.catalog.rename p)).build = none := by
    rw [Catalog.failure?_build (Codebase.survey_ok surveyed).1, Catalog.fault?_rename, faultless]
  obtain ⟨⟨c, unit, classes⟩, built⟩ := failure?_eq_none.mp built
  obtain ⟨s, output, stages, -⟩ := stages_of_build_ok (t := t) surveyed built
  exact ⟨_, s, output, stages⟩

/-- If a run over a codebase comes to its files, so does one over the same with routines. -/
theorem stages_of_hosts (t' : Transformer) (hosts : code.Hosts code') (fresh : code.IsFresh)
    (fresh' : code'.IsFresh) (h : (t.run code none).2.2 = .ok (output, files)) :
    ∃ c s output', Stages t' code' none c s output' := by
  have walked := surveyed_of_run_ok h
  refine stages_of_faultless t' (hosts.surveyed walked) ?_ ?_
  · intro s' listed
    obtain ⟨s, declared, same⟩ := exists_of_forall₂ hosts listed
    rw [same.path]
    exact texts_of_run_ok fresh h s declared
  · rw [← Catalog.fault?_published, hosts.published_eq fresh fresh' walked,
      Catalog.fault?_published, faultless_of_run_ok h]

/-! ### Files and routines -/

theorem Stages.same_files {c c' : Catalog} {s s' : Injector}
    (stages : Stages t code program c s output) (stages' : Stages t' code' none c' s' output')
    (settings : t'.settings = t.settings) (unit : t'.layout.indentUnit = t.layout.indentUnit)
    (published : output'.catalog.published = output.catalog.published)
    (unitAbi : output'.unitAbi = output.unitAbi) (classAbis : output'.classAbis = output.classAbis) :
    ((t'.settings.files output'.unitAbi output'.classAbis).run.run s'.layout).1 =
      ((t.settings.files output.unitAbi output.classAbis).run.run s.layout).1 := by
  have groups := Catalog.byClass_related published
  have layout := stages.layout
  have layout' := stages'.layout
  rw [settings, unitAbi, classAbis]
  by_cases none : output.catalog.byClass = []
  · -- Without classes there is nothing to lay out.
    obtain ⟨-, -, manifests, -⟩ := Catalog.build_ok stages.unsettled stages.built
    have empty : output.classAbis = [] := by
      unfold Catalog.classAbis at manifests
      rw [none] at manifests
      exact (Except.ok.inj manifests).symm
    rw [empty]
    unfold Settings.files
    cases t.settings.typescript <;> rfl
  · have none' : output'.catalog.byClass ≠ [] := by
      intro empty
      rw [empty, List.forall₂_nil_right_iff] at groups
      exact none groups
    rw [if_neg none] at layout
    rw [if_neg none'] at layout'
    rw [layout, layout', Layout.reset, Layout.reset, unit]

theorem Stages.routines_published {c : Catalog} {s : Injector}
    (stages : Stages t code program c s output) :
    output.routines = output.catalog.published.byClass.map fun g =>
      (g.1, Dispatch.routineText t.layout.indentUnit (Dispatch.guards g.2)) := by
  rw [stages.routines, Catalog.byClass_published, List.map_map]
  refine List.map_congr_left fun g _ => ?_
  dsimp only [Function.comp]
  rw [Catalog.guards_unplaced]

theorem Stages.same_routines {c c' : Catalog} {s s' : Injector}
    (stages : Stages t code program c s output) (stages' : Stages t' code' none c' s' output')
    (unit : t'.layout.indentUnit = t.layout.indentUnit)
    (published : output'.catalog.published = output.catalog.published) :
    output'.routines = output.routines := by
  rw [stages.routines_published, stages'.routines_published, unit, published]

end Transformer

/-! ### Members -/

def Member.unkeyed : Member → Member
  | method m => method { m with key := 0 }
  | field f => field f

/-- The class without the keys of its methods. -/
def Class.unkeyed (c : Class) : Class :=
  { c with members := c.members.map Member.unkeyed }

theorem Class.unkeyed_splice (c : Class) {m m' : Method} (name : m'.name = m.name)
    (decorators : m'.decorators = m.decorators) (body : m'.body = m.body) :
    (c.splice m').1.unkeyed = (c.splice m).1.unkeyed := by
  have same : (Member.method m').unkeyed = (Member.method m).unkeyed := by
    simp [Member.unkeyed, name, decorators, body]
  unfold unkeyed
  rcases c.exists_first m.name with none | ⟨before, own, after, members, named, first⟩
  · have alone : (c.splice m').1 = { c with members := c.members ++ [.method m'] } :=
      splice_of_none (name ▸ none)
    rw [splice_of_none none, alone]
    simp [same]
  · have alone : (c.splice m').1 = { c with members := before ++ .method m' :: after } :=
      splice_of_first members (named.trans name.symm) (name ▸ first)
    rw [splice_of_first members named first, alone]
    simp [same]

namespace Transformer

variable {t t' : Transformer} {code : Codebase} {output output' : Output}
  {files files' : Table Text Text}

theorem classAt?_rerun (h : (t.run code none).2.2 = .ok (output, files))
    (h' : (t'.run (t.run code none).2.1 none).2.2 = .ok (output', files'))
    (hosts : code.Hosts (t.run code none).2.1)
    (unit : t'.layout.indentUnit = t.layout.indentUnit)
    (published : output'.catalog.published = output.catalog.published) (site : Site) :
    ((t'.run (t.run code none).2.1 none).2.1.classAt? site).map Class.unkeyed =
      ((t.run code none).2.1.classAt? site).map Class.unkeyed := by
  have groups := Catalog.byClass_related published
  have places (g g' : Name × List Record) (same : g'.1 = g.1) :
      Injector.siteOf output'.catalog.classes g' = Injector.siteOf output.catalog.classes g := by
    rw [siteOf_eq h', siteOf_eq h, hosts.last_site, same]
  obtain ⟨unplaced, placed⟩ := run_classAt? h site
  obtain ⟨unplaced', placed'⟩ := run_classAt? h' site
  by_cases here : ∃ g ∈ output.catalog.byClass,
      Injector.siteOf output.catalog.classes g = some site
  · obtain ⟨g, grouped, place⟩ := here
    obtain ⟨g', grouped', owner, guards⟩ := exists_of_forall₂ groups.flip grouped
    obtain ⟨m, name, bare, body, result⟩ := placed g grouped place
    obtain ⟨m', name', bare', body', result'⟩ :=
      placed' g' grouped' ((places g g' owner).trans place)
    rw [unit, guards] at body'
    rw [result', result, Option.map_map, Option.map_map, Option.map_map]
    refine congrArg (Option.map · (code.classAt? site)) (funext fun c => ?_)
    dsimp only [Function.comp]
    rw [Class.splice_splice c (name'.trans name.symm)]
    exact c.unkeyed_splice (name'.trans name.symm) (bare'.trans bare.symm) (body'.trans body.symm)
  · rw [unplaced']
    intro g' grouped' place
    obtain ⟨g, grouped, owner, -⟩ := exists_of_forall₂ groups grouped'
    exact here ⟨g, grouped, (places g g' owner).symm.trans place⟩

/-- A second run over the same codebase changes nothing: it comes to its end, produces the same files
and the same routines, and leaves every class with the same members. -/
theorem rerun_changes_nothing {t t' : Transformer} {code : Codebase} {output : Output}
    {files : Table Text Text} (reachable : t.Reachable) (reachable' : t'.Reachable)
    (settings : t'.settings = t.settings) (loaded : code.Reachable)
    (unrouted : ∀ p ∈ code.annotated, p.2.name ≠ .str Dispatch.routineName)
    (h : (t.run code none).2.2 = .ok (output, files)) :
    ∃ output', (t'.run (t.run code none).2.1 none).2.2 = .ok (output', files) ∧
      output'.routines = output.routines ∧
      ∀ site, ((t'.run (t.run code none).2.1 none).2.1.classAt? site).map Class.unkeyed =
        ((t.run code none).2.1.classAt? site).map Class.unkeyed := by
  have hosts := Codebase.hosts_run t none unrouted
  have fresh := loaded.wellKeyed.fresh
  have fresh' := (loaded.run t none).wellKeyed.fresh
  have unit : t'.layout.indentUnit = t.layout.indentUnit :=
    reachable'.indentUnit.trans reachable.indentUnit.symm
  obtain ⟨c, s, stages⟩ := run_stages h
  obtain ⟨c', s', output', stages'⟩ := stages_of_hosts t' hosts fresh fresh' h
  obtain ⟨published, unitAbi, classAbis⟩ := stages.same_manifests stages' hosts fresh fresh'
  have written : ((t.settings.files output.unitAbi output.classAbis).run.run s.layout).1 =
      .ok files := by
    rw [stages.ran] at h
    obtain ⟨_, made, same⟩ := map_ok h
    rw [made, (Prod.mk.inj same).2]
  have h' : (t'.run (t.run code none).2.1 none).2.2 = .ok (output', files) := by
    rw [stages'.ran, stages.same_files stages' settings unit published unitAbi classAbis, written]
    rfl
  exact ⟨output', h', stages.same_routines stages' unit published,
    classAt?_rerun h h' hosts unit published⟩

/-- Two contracts of one name, one of them with a method `execute` that is not annotated, and a library
with one that is. -/
def bureau : List Dump.Source := [
  { path := .str "token.ts", isLibrary := false
    classes := [
      { name := .str "Token", base := .null, decorators := []
        members := [.method (.str "mint") [⟨.str "method", []⟩]] },
      { name := .str "Token", base := .null, decorators := []
        members := [
          .method (.str "execute") [],
          .method (.str "burn") [⟨.str "method", ["'uint256'"]⟩]] }] },
  { path := .str "~lib/base.ts", isLibrary := false
    classes := [
      { name := .str "Base", base := .null, decorators := []
        members := [.method (.str "execute") [⟨.str "method", []⟩]] }] }]

theorem rerun_of_bureau : ∃ output output' files,
    (({} : Transformer).run (.ofDump bureau) none).2.2 = .ok (output, files) ∧
      (({} : Transformer).run (({} : Transformer).run (.ofDump bureau) none).2.1 none).2.2 =
        .ok (output', files) ∧
      output'.routines = output.routines ∧
      ∀ site, ((({} : Transformer).run (({} : Transformer).run (.ofDump bureau) none).2.1
        none).2.1.classAt? site).map Class.unkeyed =
          ((({} : Transformer).run (.ofDump bureau) none).2.1.classAt? site).map Class.unkeyed := by
  obtain ⟨output, files, ran⟩ := run_completes {}
    (show (Codebase.ofDump bureau).isTextual = true by decide) (by decide +kernel)
  have unrouted : ∀ p ∈ (Codebase.ofDump bureau).annotated,
      p.2.name ≠ .str Dispatch.routineName := by decide +kernel
  obtain ⟨output', again, routines, members⟩ := rerun_changes_nothing (.fresh {}) (.fresh {}) rfl
    (.loaded bureau) unrouted ran
  exact ⟨output, output', files, ran, again, routines, members⟩

end Transformer

end ContractAbi
