import ContractAbi.Proofs.Building
import ContractAbi.Proofs.Rendering
import ContractAbi.Proofs.Surveying

/-!
# Runs of the transform

A run that builds its manifests also injects every routine, so only its files can still stop it:
`stages_of_build_ok`. What a run produced is collected in `Stages` and `run_ok`.
-/

namespace ContractAbi

namespace Catalog

/-! ### Classes with records -/

/-- Every record belongs to a class that was met. -/
def IsMet (c : Catalog) : Prop :=
  ∀ r ∈ c.records, c.classes.contains r.owner.key = true

theorem exists_record_of_mem_owners {c : Catalog} {owner : Name} (listed : owner ∈ c.owners) :
    ∃ r ∈ c.records, r.owner = owner := by
  have named := (List.mem_filter.mp (mem_of_mem_firstOfEach listed)).1
  exact List.mem_map.mp named

theorem recordsOf_ne_nil {c : Catalog} {owner : Name} (listed : owner ∈ c.owners) :
    c.recordsOf owner ≠ [] := by
  obtain ⟨r, member, rfl⟩ := exists_record_of_mem_owners listed
  exact List.ne_nil_of_mem (List.mem_filter.mpr ⟨member, by simp⟩)

theorem IsMet.contains {c : Catalog} (met : c.IsMet) {owner : Name} (listed : owner ∈ c.owners) :
    c.classes.contains owner.key = true := by
  obtain ⟨r, member, rfl⟩ := exists_record_of_mem_owners listed
  exact met r member

theorem IsMet.mapRecords {c : Catalog} (met : c.IsMet) {g : Record → Record}
    (owner : ∀ r, (g r).owner = r.owner) : (c.mapRecords g).IsMet := by
  intro r member
  obtain ⟨old, before, rfl⟩ := List.mem_map.mp member
  rw [owner]
  exact met old before

theorem IsMet.settled {c : Catalog} (met : c.IsMet) : c.settled.IsMet :=
  met.mapRecords fun r => by split <;> simp

/-! ### Looking up names -/

/-- What looking up names makes of a record. -/
def rename (c : Catalog) (p : Program) (r : Record) : Record :=
  if r.handle ∈ (reached (Record.isDropped p) c.ordered).map (·.handle) then r.resolveName p else r

/-- Looking up names changes the internal name of a record and nothing else. -/
theorem rename_eq (c : Catalog) (p : Program) (r : Record) :
    c.rename p r = { r with internalName := (c.rename p r).internalName } := by
  unfold rename Record.resolveName
  split
  · split <;> rfl
  · rfl

@[simp]
theorem rename_owner (c : Catalog) (p : Program) (r : Record) : (c.rename p r).owner = r.owner := by
  rw [rename_eq]

@[simp]
theorem rename_name (c : Catalog) (p : Program) (r : Record) : (c.rename p r).name = r.name := by
  rw [rename_eq]

@[simp]
theorem rename_call (c : Catalog) (p : Program) (r : Record) : (c.rename p r).call = r.call := by
  rw [rename_eq]

theorem fault?_rename (c : Catalog) (p : Program) :
    (c.mapRecords (c.rename p)).fault? = c.fault? := by
  apply fault?_mapRecords (c.rename_owner p)
  · intro r
    rw [rename_eq]
    rfl
  · intro r
    rw [rename_eq]
    rfl

theorem IsUnsettled.rename {c : Catalog} (unsettled : c.IsUnsettled) (p : Program) :
    (c.mapRecords (c.rename p)).IsUnsettled := by
  intro r member
  obtain ⟨old, before, rfl⟩ := List.mem_map.mp member
  rw [rename_call]
  exact unsettled old before

end Catalog

namespace Codebase

/-! ### Surveys -/

/-- What a survey that nothing stops finds in a codebase. -/
def catalog (code : Codebase) : Catalog :=
  code.surveyed.1.catalog

/-- The program of a run: the given one, or else the one in which all declarations have names. -/
def programOr (code : Codebase) (program : Option Program) : Except Fault Program :=
  match program with
  | some program => .ok program
  | none => (Program.ofSources code.surveyed.1.registry code.sources).2

/-- A survey gives out handles and does nothing else to a codebase. -/
theorem survey_eq (code : Codebase) (program : Option Program) :
    ∃ handles, (code.survey program).1 = { code with handles } := by
  unfold survey
  rcases Survey.visitSources { registry := { handles := code.handles } } 0 code.sources with
    ⟨s, outcome⟩
  cases outcome with
  | error fault => exact ⟨_, rfl⟩
  | ok _ =>
    cases program with
    | some p => exact ⟨_, rfl⟩
    | none =>
      dsimp only
      rcases Program.ofSources s.registry code.sources with ⟨registry, named⟩
      cases named <;> exact ⟨_, rfl⟩

theorem survey_sources (code : Codebase) (program : Option Program) :
    (code.survey program).1.sources = code.sources := by
  obtain ⟨handles, same⟩ := code.survey_eq program
  rw [same]

theorem survey_outcome (code : Codebase) (program : Option Program) :
    (code.survey program).2 = do
      code.surveyed.2
      let p ← code.programOr program
      (code.catalog.resolveNames p).2
      return code.catalog.mapRecords (code.catalog.rename p) := by
  rcases walked : code.surveyed with ⟨s, outcome⟩
  have run : Survey.visitSources { registry := { handles := code.handles } } 0 code.sources =
      (s, outcome) := walked
  unfold survey catalog programOr
  rw [run, walked]
  cases outcome with
  | error fault => rfl
  | ok _ =>
    cases program with
    | some p => cases (s.catalog.resolveNames p).2 <;> rfl
    | none =>
      rcases made : Program.ofSources s.registry code.sources with ⟨registry, named⟩
      dsimp only
      rw [made]
      cases named with
      | error fault => rfl
      | ok p => cases (s.catalog.resolveNames p).2 <;> rfl

theorem survey_of_walk_error {code : Codebase} {fault : Fault}
    (stopped : code.surveyed.2 = .error fault) (program : Option Program) :
    (code.survey program).2 = .error fault := by
  rw [survey_outcome, stopped]
  rfl

theorem survey_of_program_error {code : Codebase} {program : Option Program} {fault : Fault}
    (walked : code.surveyed.2 = .ok ()) (missing : code.programOr program = .error fault) :
    (code.survey program).2 = .error fault := by
  rw [survey_outcome, walked, missing]
  rfl

theorem survey_of_programOr {code : Codebase} {program : Option Program} {p : Program}
    (walked : code.surveyed.2 = .ok ()) (chosen : code.programOr program = .ok p) :
    (code.survey program).2 = (code.catalog.resolveNames p).2.map fun _ =>
      code.catalog.mapRecords (code.catalog.rename p) := by
  rw [survey_outcome, walked, chosen]
  cases found : (code.catalog.resolveNames p).2 <;> simp [bind, Except.bind, found] <;> rfl

theorem catalog_fresh {code : Codebase} (walked : code.surveyed.2 = .ok ()) :
    code.catalog.IsUnsettled ∧ code.catalog.IsMet := by
  have sound := surveyed_sound (Prod.ext rfl walked)
  exact ⟨sound.unsettled, sound.met⟩

/-- A survey that comes to its end has met all classes and looked up the names of all records. -/
theorem survey_eq_ok {code : Codebase} {program : Option Program} {c : Catalog}
    (h : (code.survey program).2 = .ok c) :
    code.surveyed.2 = .ok () ∧ ∃ p, code.programOr program = .ok p ∧
      (code.catalog.resolveNames p).2 = .ok () ∧
      c = code.catalog.mapRecords (code.catalog.rename p) := by
  rw [survey_outcome] at h
  obtain ⟨_, walked, h⟩ := bind_ok h
  obtain ⟨p, chosen, h⟩ := bind_ok h
  obtain ⟨_, named, h⟩ := bind_ok h
  exact ⟨walked, p, chosen, named, (Except.ok.inj h).symm⟩

/-- No record of a survey has a call yet, and all of them belong to classes that were met. -/
theorem survey_ok {code : Codebase} {program : Option Program} {c : Catalog}
    (h : (code.survey program).2 = .ok c) : c.IsUnsettled ∧ c.IsMet := by
  obtain ⟨walked, p, -, -, rfl⟩ := survey_eq_ok h
  obtain ⟨unsettled, met⟩ := catalog_fresh walked
  exact ⟨unsettled.rename p, met.mapRecords (code.catalog.rename_owner p)⟩

end Codebase

namespace Transformer

variable {t : Transformer} {code : Codebase} {program : Option Program}

/-! ### Outcomes -/

theorem run_eq_of_survey_error {fault : Fault} (h : (code.survey program).2 = .error fault) :
    t.run code program = (t, (code.survey program).1, .error fault) := by
  rcases surveyed : code.survey program with ⟨kept, outcome⟩
  rw [surveyed] at h
  subst h
  unfold run
  rw [surveyed]

theorem run_eq_of_build_error {c : Catalog} {fault : Fault} (h : (code.survey program).2 = .ok c)
    (built : c.build = .error fault) :
    t.run code program = ({ t with findings := t.findings ++ c.eventFindings },
      (code.survey program).1, .error fault) := by
  rcases surveyed : code.survey program with ⟨kept, outcome⟩
  rw [surveyed] at h
  subst h
  unfold run
  rw [surveyed]
  dsimp only
  rw [built]

theorem run_of_survey_error {fault : Fault} (h : (code.survey program).2 = .error fault) :
    (t.run code program).2.2 = .error fault := by
  rw [run_eq_of_survey_error h]

theorem run_of_build_error {c : Catalog} {fault : Fault} (h : (code.survey program).2 = .ok c)
    (built : c.build = .error fault) : (t.run code program).2.2 = .error fault := by
  rw [run_eq_of_build_error h built]

/-- Where a run over a catalog starts to inject routines. -/
def injector (t : Transformer) (code : Codebase) (program : Option Program) (c : Catalog) :
    Injector :=
  { code := (code.survey program).1, layout := t.layout
    findings := t.findings ++ c.eventFindings }

/-- The stages of a run that comes to its files: it surveys `c`, builds the manifests, ends the
injection of routines at `s` and goes on to the files. -/
structure Stages (t : Transformer) (code : Codebase) (program : Option Program) (c : Catalog)
    (s : Injector) (output : Output) : Prop where
  surveyed : (code.survey program).2 = .ok c
  unsettled : c.IsUnsettled
  built : c.build = .ok (output.catalog, output.unitAbi, output.classAbis)
  ready : ∀ group ∈ output.catalog.byClass, Injector.IsReady output.catalog.classes group
  injected : Injector.injectAll output.catalog.classes (t.injector code program c)
    output.catalog.byClass = (s, .ok output.routines)
  routines : output.routines = output.catalog.byClass.map fun (owner, records) =>
    (owner, Dispatch.routineText t.layout.indentUnit (Dispatch.guards records))
  layout : s.layout = if output.catalog.byClass = [] then t.layout else t.layout.reset
  ran : t.run code program =
    ({ t with
        layout := ((t.settings.files output.unitAbi output.classAbis).run.run s.layout).2
        findings := s.findings
        last := some output },
      s.code,
      ((t.settings.files output.unitAbi output.classAbis).run.run s.layout).1.map fun files =>
        (output, files))

/-- Once the manifests are built, every class with records gets its routine, and the run goes on to
its files. -/
theorem stages_of_build_ok {c c' : Catalog} {unit : Abi} {classes : List (Name × Abi)}
    (h : (code.survey program).2 = .ok c) (built : c.build = .ok (c', unit, classes)) :
    ∃ s output, Stages t code program c s output ∧ output.catalog = c' ∧ output.unitAbi = unit ∧
      output.classAbis = classes := by
  obtain ⟨unsettled, met⟩ := Codebase.survey_ok h
  obtain ⟨rfl, -, -, settled⟩ := Catalog.build_ok unsettled built
  -- Injection passes over empty and unmet classes, and stops at a record without a call.
  have ready : ∀ group ∈ c.settled.byClass, Injector.IsReady c.settled.classes group := by
    intro group member
    obtain ⟨owner, listed, rfl⟩ := List.mem_map.mp member
    refine ⟨Catalog.recordsOf_ne_nil listed, met.settled.contains listed, ?_⟩
    intro r own
    obtain ⟨call, stored, -⟩ :=
      (settled r (Catalog.mem_ordered.mpr ⟨owner, listed, own⟩)).resolveCall_eq
    exact Option.isSome_iff_exists.mpr ⟨call, stored⟩
  obtain ⟨texts, layout⟩ := Injector.injectAll_run (s := t.injector code program c) ready
  rcases injected : Injector.injectAll c.settled.classes (t.injector code program c)
    c.settled.byClass with ⟨s, outcome⟩
  rw [injected] at texts layout
  subst texts
  let routines := c.settled.byClass.map fun (owner, records) =>
    (owner, Dispatch.routineText t.layout.indentUnit (Dispatch.guards records))
  refine ⟨s, ⟨c.settled, unit, classes, routines⟩, ?_, rfl, rfl, rfl⟩
  refine ⟨h, unsettled, built, ready, injected, rfl, layout, ?_⟩
  unfold injector at injected
  rcases surveyed : code.survey program with ⟨kept, outcome⟩
  rw [surveyed] at h injected
  subst h
  unfold run
  rw [surveyed]
  dsimp only
  rw [built]
  dsimp only at injected ⊢
  rw [injected]
  rfl

theorem run_of_build_ok {c c' : Catalog} {unit : Abi} {classes : List (Name × Abi)}
    (h : (code.survey program).2 = .ok c) (built : c.build = .ok (c', unit, classes)) :
    ∃ l, (t.run code program).2.2 =
      ((t.settings.files unit classes).run.run l).1.map fun files =>
        ({ catalog := c', unitAbi := unit, classAbis := classes
           routines := c'.byClass.map fun (owner, records) =>
            (owner, Dispatch.routineText t.layout.indentUnit (Dispatch.guards records)) },
          files) := by
  obtain ⟨s, output, stages, rfl, rfl, rfl⟩ := stages_of_build_ok (t := t) h built
  refine ⟨s.layout, ?_⟩
  rw [stages.ran, ← stages.routines]

theorem run_stages {output : Output} {files : Table Text Text}
    (h : (t.run code program).2.2 = .ok (output, files)) :
    ∃ c s, Stages t code program c s output := by
  cases surveyed : (code.survey program).2 with
  | error fault =>
    rw [run_of_survey_error surveyed] at h
    cases h
  | ok c =>
    cases built : c.build with
    | error fault =>
      rw [run_of_build_error surveyed built] at h
      cases h
    | ok result =>
      obtain ⟨c', unit, classes⟩ := result
      obtain ⟨s, output', stages, -⟩ := stages_of_build_ok (t := t) surveyed built
      rw [stages.ran] at h
      obtain ⟨_, -, made⟩ := map_ok h
      cases made
      exact ⟨c, s, stages⟩

/-- What a run that came to its end produced: settled records, the manifests of these, and a routine
for each class. -/
theorem run_ok {output : Output} {files : Table Text Text}
    (h : (t.run code program).2.2 = .ok (output, files)) :
    (∃ c, (code.survey program).2 = .ok c ∧ output.catalog = c.settled) ∧
      output.catalog.classAbis = .ok output.classAbis ∧
      (∀ r ∈ output.catalog.ordered, r.IsSettled) ∧
      output.routines = output.catalog.byClass.map fun (owner, records) =>
        (owner, Dispatch.routineText t.layout.indentUnit (Dispatch.guards records)) := by
  obtain ⟨c, s, stages⟩ := run_stages h
  obtain ⟨same, -, manifests, settled⟩ := Catalog.build_ok stages.unsettled stages.built
  exact ⟨⟨c, stages.surveyed, same⟩, manifests, settled, stages.routines⟩

/-- The records of a run are those of the survey, with calls and internal names. -/
theorem run_records {output : Output} {files : Table Text Text}
    (h : (t.run code program).2.2 = .ok (output, files)) :
    ∃ g, output.catalog = code.catalog.mapRecords g ∧
      ∀ r, ∃ call name, g r = { r with call := call, internalName := name } := by
  obtain ⟨⟨c, surveyed, same⟩, -⟩ := run_ok h
  obtain ⟨-, p, -, -, rfl⟩ := Codebase.survey_eq_ok surveyed
  rw [same, Catalog.settled, Catalog.updateThose_eq]
  refine ⟨_, congrArg (fun records => { code.catalog with records }) List.map_map, ?_⟩
  intro r
  dsimp only [Function.comp]
  rw [Catalog.rename_eq]
  split
  · rw [Record.settle_eq]
    exact ⟨_, _, rfl⟩
  · exact ⟨_, _, rfl⟩

/-! ### Runs in a row -/

theorem run_keepsUnit (t : Transformer) (code : Codebase) (program : Option Program) :
    (t.run code program).1.layout.indentUnit = t.layout.indentUnit := by
  unfold run
  rcases code.survey program with ⟨kept, surveyed⟩
  cases surveyed with
  | error fault => rfl
  | ok c =>
    dsimp only
    cases c.build with
    | error fault => rfl
    | ok result =>
      obtain ⟨c', unit, classes⟩ := result
      dsimp only
      let start : Injector :=
        { code := kept, layout := t.layout, findings := t.findings ++ c.eventFindings }
      have injected := Injector.injectAll_keepsUnit c'.classes start c'.byClass
      rcases ran : Injector.injectAll c'.classes start c'.byClass with ⟨s, routines⟩
      rw [ran] at injected
      cases routines with
      | error fault => exact injected
      | ok routines => exact (t.settings.keepsUnit_files unit classes s.layout).trans injected

/-- The transformers there are: new ones, and what runs make of them. -/
inductive Reachable : Transformer → Prop where
  | fresh (settings : Settings) : Reachable { settings }
  | run {t : Transformer} (before : Reachable t) (code : Codebase) (program : Option Program) :
      Reachable (t.run code program).1

theorem Reachable.indentUnit (reachable : Reachable t) : t.layout.indentUnit = "    " := by
  induction reachable with
  | fresh settings => rfl
  | run before code program ih => exact (run_keepsUnit _ code program).trans ih

end Transformer

end ContractAbi
