import ContractAbi.Proofs.Embedding

/-!
# Libraries have no influence

Library methods get names in the program of all declarations, but no handle that a record holds. So a
run over code with more libraries ends like the run without them. It leaves every library class as it
is.
-/

namespace ContractAbi

/-- The second codebase has the sources of the first among libraries. No method of either has a
handle. -/
structure Codebase.Embeds (place : Nat → Nat) (code code' : Codebase) : Prop where
  injective : place.Injective
  sources : Source.Embedded place 0 code.sources 0 code'.sources
  fresh : code.IsFresh
  fresh' : code'.IsFresh
  unused : code.handles = {}
  unused' : code'.handles = {}

/-! ### Names -/

theorem Program.nameSources_of_no_text {sources : List Source}
    (missing : ¬∀ s ∈ sources, s.path.text?.isSome = true) (state : Registry × Program) :
    (nameSources state sources).2 = .error .notText := by
  induction sources generalizing state with
  | nil => exact absurd nofun missing
  | cons source rest ih =>
    unfold nameSources
    split
    · rename_i path text
      refine ih (fun texts => missing (List.forall_mem_cons.mpr ⟨?_, texts⟩)) _
      rw [text]
      rfl
    · rfl

theorem Catalog.rename_of_present {c : Catalog} {p : Program}
    (present : ∀ r ∈ c.ordered, r.isDropped p = false) {r : Record} (listed : r ∈ c.ordered) :
    c.rename p r = r.resolveName p := by
  unfold rename
  rw [reached_of_none present, if_pos (List.mem_map_of_mem listed)]

/-- A record of a first run is named after the method that has its handle. -/
theorem Codebase.nameOf?_record {code : Codebase} {p : Program} (fresh : code.IsFresh)
    (unused : code.handles = {}) (walked : code.surveyed.2 = .ok ())
    (chosen : code.programOr none = .ok p) {r : Record} (member : r ∈ code.catalog.records) :
    ∃ e, code.visited[r.handle]? = some e ∧ p.nameOf? (.int r.handle) = some (.str e.name) := by
  have records := records_of_isFresh fresh walked
  rw [← map_recorded, List.forall₂_map_left_iff] at records
  obtain ⟨e, recorded, -, has⟩ := exists_of_forall₂ records member
  obtain ⟨declared, recorded⟩ := List.mem_filter.mp recorded
  have visited : e ∈ code.visited :=
    List.mem_filter.mpr ⟨declared, (Bool.and_eq_true_iff.mp recorded).1⟩
  refine ⟨e, visited_getElem? fresh walked declared has, ?_⟩
  rw [Transformer.nameOf?_handle fresh walked chosen visited has, getLast?_holders declared]
  · rfl
  · intro other _ _
    rw [unused]
    nofun

namespace Codebase.Embeds

variable {place : Nat → Nat} {code code' : Codebase}

theorem surveyed (embeds : code.Embeds place code') :
    Survey.EndInStep place [] [] code.surveyed code'.surveyed := by
  refine embeds.sources.visitSources ⟨rfl, rfl, ⟨embeds.fresh, fun m _ => ?_⟩,
    ⟨embeds.fresh', fun m _ => ?_⟩⟩
  · rw [embeds.unused]
    rfl
  · rw [embeds.unused']
    rfl

theorem catalog_eq (embeds : code.Embeds place code') (walked : code.surveyed.2 = .ok ()) :
    code'.catalog = code.catalog.moved place :=
  (embeds.surveyed.inStep walked).catalog

theorem nameOf?_eq (embeds : code.Embeds place code') (walked : code.surveyed.2 = .ok ())
    {p p' : Program} (chosen : code.programOr none = .ok p) (chosen' : code'.programOr none = .ok p')
    {r : Record} (member : r ∈ code.catalog.records) :
    p'.nameOf? (.int r.handle) = p.nameOf? (.int r.handle) := by
  have walked' : code'.surveyed.2 = .ok () := embeds.surveyed.outcome.trans walked
  have member' : r ∈ code'.catalog.records := embeds.catalog_eq walked ▸ member
  obtain ⟨e, placed, name⟩ := nameOf?_record embeds.fresh embeds.unused walked chosen member
  obtain ⟨e', placed', name'⟩ := nameOf?_record embeds.fresh' embeds.unused' walked' chosen' member'
  -- The handle is a number among the visited methods, and these are the same but for their keys.
  have methods : code'.visited.map Element.unkeyed = code.visited.map Element.unkeyed :=
    embeds.sources.elements
  have same : some e'.unkeyed = some e.unkeyed := by
    have found := congrArg (·[r.handle]?) methods
    simpa only [List.getElem?_map, placed, placed', Option.map_some] using found
  have equal : e'.name = e.name := (congrArg Element.name (Option.some.inj same) :)
  rw [name, name', equal]

theorem survey_eq (embeds : code.Embeds place code') :
    (code'.survey none).2 = (code.survey none).2.map (Catalog.moved place) := by
  have inStep := embeds.surveyed
  cases walked : code.surveyed.2 with
  | error fault =>
    rw [survey_of_walk_error walked, survey_of_walk_error (inStep.outcome.trans walked)]
    rfl
  | ok _ =>
    have walked' : code'.surveyed.2 = .ok () := inStep.outcome.trans walked
    by_cases texts : ∀ s ∈ code.sources, s.path.text?.isSome = true
    · obtain ⟨p, chosen, present⟩ := programOr_none walked texts
      obtain ⟨p', chosen', present'⟩ := programOr_none walked' (embeds.sources.texts.mpr texts)
      have plain := code.catalog_plain embeds.fresh walked
      have listed : ∀ r ∈ code.catalog.records, r ∈ code.catalog.ordered :=
        fun _ => Catalog.mem_ordered_of_plain plain
      have all : ∀ r ∈ code.catalog.ordered, r.isDropped p = false :=
        fun r member => present r (Catalog.mem_records_of_mem_ordered member)
      have all' : ∀ r ∈ code'.catalog.ordered, r.isDropped p' = false :=
        fun r member => present' r (Catalog.mem_records_of_mem_ordered member)
      rw [survey_of_programOr walked chosen, survey_of_programOr walked' chosen',
        Catalog.resolveNames_eq_ok.mpr all, Catalog.resolveNames_eq_ok.mpr all']
      rw [embeds.catalog_eq walked] at all' ⊢
      have records : code.catalog.records.map ((code.catalog.moved place).rename p') =
          code.catalog.records.map (code.catalog.rename p) := by
        refine List.map_congr_left fun r member => ?_
        have resolved := Catalog.rename_of_present (c := code.catalog.moved place) all'
          (listed r member)
        rw [resolved, Catalog.rename_of_present all (listed r member)]
        unfold Record.resolveName
        rw [embeds.nameOf?_eq walked chosen chosen' member]
      exact congrArg (fun records => Except.ok
        { code.catalog with records, classes := (code.catalog.moved place).classes }) records
    · have missing : code.programOr none = .error .notText :=
        Program.nameSources_of_no_text texts _
      have missing' : code'.programOr none = .error .notText :=
        Program.nameSources_of_no_text (mt embeds.sources.texts.mp texts) _
      rw [survey_of_program_error walked missing, survey_of_program_error walked' missing']
      rfl

theorem classAt? (embeds : code.Embeds place code') (site : Site) :
    (code'.classAt? (site.moved place)).map Class.unkeyed =
      (code.classAt? site).map Class.unkeyed := by
  have within (code : Codebase) (site : Site) : (code.classAt? site).map Class.unkeyed =
      (code.sources[site.source]?.map Source.unkeyed).bind fun s => s.classes[site.index]? := by
    unfold Codebase.classAt?
    cases code.sources[site.source]? <;> simp [Source.unkeyed]
  obtain ⟨-, sources⟩ := embeds.sources.getElem? site.source
  rw [Nat.zero_add, Nat.sub_zero] at sources
  rw [within, within]
  exact congrArg (Option.bind · fun s => s.classes[site.index]?) sources

end Codebase.Embeds

/-! ### Manifests and routines -/

theorem Catalog.build_moved (place : Nat → Nat) (c : Catalog) :
    (c.moved place).build = c.build.map fun result => (result.1.moved place, result.2) := by
  have selectors : (c.moved place).assignSelectors =
      (c.assignSelectors.1.moved place, c.assignSelectors.2) := rfl
  have unit (c : Catalog) : (c.moved place).unitAbi = c.unitAbi := rfl
  have classes (c : Catalog) : (c.moved place).classAbis = c.classAbis := rfl
  unfold build
  rw [selectors]
  rcases c.assignSelectors with ⟨c, outcome⟩
  dsimp only
  rw [unit, classes]
  cases outcome with
  | error fault => rfl
  | ok _ =>
    cases c.unitAbi with
    | error fault => rfl
    | ok abi => cases c.classAbis <;> rfl

theorem Class.splice_eq_of_unkeyed {c c' : Class} {m m' : Method} (declared : c'.unkeyed = c.unkeyed)
    (routine : m'.unkeyed = m.unkeyed) :
    (c'.splice m').1.unkeyed = (c.splice m).1.unkeyed ∧ (c'.splice m').2 = (c.splice m).2 := by
  have both := c'.splice_unkeyed m'
  rw [declared, routine, c.splice_unkeyed] at both
  exact ⟨(Prod.mk.inj both).1.symm, (Prod.mk.inj both).2.symm⟩

theorem map_unkeyed_cases {found found' : Option Class}
    (same : found'.map Class.unkeyed = found.map Class.unkeyed) :
    found = none ∧ found' = none ∨
      ∃ c c', found = some c ∧ found' = some c' ∧ c'.unkeyed = c.unkeyed := by
  cases found <;> cases found' <;> simp_all

namespace Injector

/-- The second injector has got to where the first one has. -/
structure InStep (place : Nat → Nat) (s s' : Injector) : Prop where
  layout : s'.layout = s.layout
  findings : s'.findings = s.findings
  classes : ∀ site, (s'.code.classAt? (site.moved place)).map Class.unkeyed =
    (s.code.classAt? site).map Class.unkeyed

variable {place : Nat → Nat} {s s' : Injector}

theorem inject_inStep (injective : place.Injective) (same : InStep place s s') (site : Site)
    (records : List Record) :
    InStep place (s.inject site records).1 (s'.inject (site.moved place) records).1 ∧
      (s'.inject (site.moved place) records).2.map Method.unkeyed =
        (s.inject site records).2.map Method.unkeyed := by
  have here := same.classes site
  unfold inject
  rw [same.layout]
  rcases (Dispatch.routine records).run.run s.layout with ⟨result, layout⟩
  cases result with
  | error fault => exact ⟨⟨rfl, same.findings, same.classes⟩, rfl⟩
  | ok text =>
    let routine (s : Injector) : Method :=
      { key := s.code.nextKey, name := .str Dispatch.routineName, body := some text }
    have spliced {c c' : Class} (declared : c'.unkeyed = c.unkeyed) :=
      Class.splice_eq_of_unkeyed declared (show (routine s').unkeyed = (routine s).unkeyed from rfl)
    refine ⟨⟨rfl, ?_, fun other => ?_⟩, rfl⟩
    · have replaced : ((s'.code.classAt? (site.moved place)).toList.filter
            fun c => (c.splice (routine s')).2).map (·.name) =
          ((s.code.classAt? site).toList.filter fun c => (c.splice (routine s)).2).map (·.name) := by
        rcases map_unkeyed_cases here with ⟨absent, absent'⟩ | ⟨c, c', found, found', declared⟩
        · rw [absent, absent']
          rfl
        · have name : c'.name = c.name := (congrArg Class.name declared :)
          rw [found, found', Option.toList_some, Option.toList_some, List.filter_singleton,
            List.filter_singleton, (spliced declared).2]
          cases (c.splice (routine s)).2 <;> simp [name]
      have named := congrArg (List.map fun name => Finding.executeReplaced name (.str "")) replaced
      rw [List.map_map, List.map_map] at named
      exact congrArg₂ (· ++ ·) same.findings named
    · have changed := s.code.classAt?_modifyClass site other fun c => (c.splice (routine s)).1
      have changed' := s'.code.classAt?_modifyClass (site.moved place) (other.moved place)
        fun c => (c.splice (routine s')).1
      simp only [Site.moved_inj injective] at changed'
      refine (congrArg (Option.map Class.unkeyed) changed').trans
        (Eq.trans ?_ (congrArg (Option.map Class.unkeyed) changed).symm)
      split
      · rcases map_unkeyed_cases here with ⟨absent, absent'⟩ | ⟨c, c', found, found', declared⟩
        · rw [absent, absent']
          rfl
        · simpa [found, found'] using (spliced declared).1
      · exact same.classes other

theorem injectAll_inStep (injective : place.Injective) (classes : Table Json Visit)
    (same : InStep place s s') (groups : List (Name × List Record)) :
    InStep place (injectAll classes s groups).1
        (injectAll (classes.mapValues (Visit.moved place)) s' groups).1 ∧
      (injectAll (classes.mapValues (Visit.moved place)) s' groups).2 =
        (injectAll classes s groups).2 := by
  fun_induction injectAll classes s groups generalizing s' with
  | case1 => exact ⟨same, rfl⟩
  | case2 s owner rest ih =>
    rw [injectAll]
    exact ih same
  | case3 s owner records rest nonempty missing ih =>
    rw [injectAll, Table.get?_mapValues, missing]
    · exact ih ⟨same.layout, by simp [same.findings], same.classes⟩
    · exact nonempty
  | case4 s owner records rest nonempty visit found next fault stopped =>
    obtain ⟨step, outcome⟩ := inject_inStep injective same visit.site records
    rw [injectAll, Table.get?_mapValues, found]
    · rw [stopped] at step outcome
      rcases injected : s'.inject (visit.site.moved place) records with ⟨next', outcome'⟩
      rw [injected] at step outcome
      dsimp only [Option.map_some, Visit.moved]
      rw [injected]
      cases outcome' with
      | error fault' => exact ⟨step, congrArg Except.error (Except.error.inj outcome)⟩
      | ok m => cases outcome
    · exact nonempty
  | case5 s owner records rest nonempty visit found next m injected last result ran ih =>
    obtain ⟨step, outcome⟩ := inject_inStep injective same visit.site records
    rw [injectAll, Table.get?_mapValues, found]
    · rw [injected] at step outcome
      rcases injected' : s'.inject (visit.site.moved place) records with ⟨next', outcome'⟩
      rw [injected'] at step outcome
      dsimp only [Option.map_some, Visit.moved]
      rw [injected']
      cases outcome' with
      | error fault' => cases outcome
      | ok m' =>
        have body : m'.body = m.body := (congrArg Method.body (Except.ok.inj outcome) :)
        obtain ⟨others, routines⟩ := ih step
        rw [ran] at others routines
        exact ⟨others, by simp only [body, routines]⟩
    · exact nonempty

end Injector

/-! ### Runs -/

namespace Transformer

theorem run_of_embeds {place : Nat → Nat} {code code' : Codebase} (t : Transformer)
    (embeds : code.Embeds place code') :
    (t.run code' none).2.2 = (t.run code none).2.2.map (fun result =>
        ({ result.1 with catalog := result.1.catalog.moved place }, result.2)) ∧
      (t.run code' none).1.findings = (t.run code none).1.findings ∧
      (t.run code' none).1.lastRoutines = (t.run code none).1.lastRoutines := by
  cases surveyed : (code.survey none).2 with
  | error fault =>
    have surveyed' : (code'.survey none).2 = .error fault := by
      rw [embeds.survey_eq, surveyed]
      rfl
    rw [run_eq_of_survey_error surveyed, run_eq_of_survey_error surveyed']
    exact ⟨rfl, rfl, rfl⟩
  | ok c =>
    have surveyed' : (code'.survey none).2 = .ok (c.moved place) := by
      rw [embeds.survey_eq, surveyed]
      rfl
    cases built : c.build with
    | error fault =>
      have built' : (c.moved place).build = .error fault := by
        rw [c.build_moved, built]
        rfl
      rw [run_eq_of_build_error surveyed built, run_eq_of_build_error surveyed' built']
      exact ⟨rfl, rfl, rfl⟩
    | ok result =>
      obtain ⟨c', unit, abis⟩ := result
      have built' : (c.moved place).build = .ok (c'.moved place, unit, abis) := by
        rw [c.build_moved, built]
        rfl
      obtain ⟨s, output, stages, rfl, rfl, rfl⟩ := stages_of_build_ok (t := t) surveyed built
      obtain ⟨s', output', stages', catalog, unit, abis⟩ :=
        stages_of_build_ok (t := t) surveyed' built'
      have start : Injector.InStep place (t.injector code none c)
          (t.injector code' none (c.moved place)) := by
        refine ⟨rfl, rfl, fun site => ?_⟩
        have kept := Codebase.classAt?_congr (code.survey_sources none) site
        have kept' := Codebase.classAt?_congr (code'.survey_sources none) (site.moved place)
        dsimp only [injector]
        rw [kept, kept']
        exact embeds.classAt? site
      obtain ⟨same, routines⟩ := Injector.injectAll_inStep embeds.injective output.catalog.classes
        start output.catalog.byClass
      have injected := stages'.injected
      rw [catalog] at injected
      have reached : Injector.injectAll (output.catalog.classes.mapValues (Visit.moved place))
        (t.injector code' none (c.moved place)) output.catalog.byClass = (s', .ok output'.routines) :=
        injected
      rw [stages.injected, reached] at same routines
      have texts : output'.routines = output.routines := Except.ok.inj routines
      have made : output' = { output with catalog := output.catalog.moved place } := by
        cases output'
        cases catalog
        cases unit
        cases abis
        cases texts
        rfl
      rw [stages.ran, stages'.ran, unit, abis, same.layout]
      refine ⟨?_, same.findings, texts⟩
      rw [made]
      cases ((t.settings.files output.unitAbi output.classAbis).run.run s.layout).1 <;> rfl

theorem run_classAt?_of_isPassedOver (t : Transformer) {code : Codebase} (program : Option Program)
    {number : Nat} {s : Source} (placed : code.sources[number]? = some s)
    (library : s.isPassedOver = true) (index : Nat) :
    (t.run code program).2.1.classAt? ⟨number, index⟩ = s.classes[index]? := by
  have here : code.classAt? ⟨number, index⟩ = s.classes[index]? := by
    simp [Codebase.classAt?, placed]
  have surveyed := Codebase.classAt?_congr (code.survey_sources program) ⟨number, index⟩
  have outside : ∀ v ∈ code.contracts, v.site ≠ ⟨number, index⟩ := by
    intro v listed site
    obtain ⟨⟨s', number'⟩, numbered, inside⟩ := List.mem_flatMap.mp listed
    have placed' := List.mk_mem_zipIdx_iff_getElem?.mp numbered
    dsimp only at inside
    rw [Source.contracts_eq] at inside
    split at inside
    · cases inside
    · rename_i visited
      obtain ⟨_, -, rfl⟩ := List.mem_map.mp inside
      cases (Site.mk.inj site).1
      cases Option.some.inj (placed'.symm.trans placed)
      exact visited library
  rw [← here, ← surveyed]
  cases outcome : (code.survey program).2 with
  | error fault => rw [run_eq_of_survey_error outcome]
  | ok c =>
    cases built : c.build with
    | error fault => rw [run_eq_of_build_error outcome built]
    | ok result =>
      obtain ⟨c', unit, abis⟩ := result
      obtain ⟨injected, output, stages, -⟩ := stages_of_build_ok (t := t) outcome built
      have reached : (t.run code program).2.1 = (Injector.injectAll output.catalog.classes
          (t.injector code program c) output.catalog.byClass).1.code := by
        rw [stages.ran, stages.injected]
      rw [reached]
      refine Injector.injectAll_classAt?_of_ne stages.ready fun group _ found => ?_
      obtain ⟨walked, p, -, -, rfl⟩ := Codebase.survey_eq_ok stages.surveyed
      obtain ⟨same, -⟩ := Catalog.build_ok stages.unsettled stages.built
      rw [same] at found
      have last := ((code.surveyed_sees walked).sites group.1.key).symm.trans found
      obtain ⟨v, listed, site⟩ := Option.map_eq_some_iff.mp last
      exact outside v (List.mem_filter.mp (List.mem_of_getLast? listed)).1 site

end Transformer

/-! ### Dumps -/

namespace Dump

/-- The source has a text for its path and belongs to the standard library. -/
def Source.IsLibrary (s : Source) : Prop :=
  ∃ path, s.path = .str path ∧ (s.isLibrary = true ∨ isLibraryPath path = true)

/-- The second dump is the first with libraries put in. -/
inductive AddsLibraries : List Source → List Source → Prop where
  | nil : AddsLibraries [] []
  | keep (s : Source) {dump dump' : List Source} (added : AddsLibraries dump dump') :
      AddsLibraries (s :: dump) (s :: dump')
  | insert {s : Source} (library : s.IsLibrary) {dump dump' : List Source}
      (added : AddsLibraries dump dump') : AddsLibraries dump (s :: dump')

/-- Places behind a first source that keeps its own. -/
def behindFirst (place : Nat → Nat) : Nat → Nat
  | 0 => 0
  | i + 1 => place i + 1

theorem behindFirst_injective {place : Nat → Nat} (injective : place.Injective) :
    (behindFirst place).Injective := by
  intro i j same
  cases i <;> cases j <;> simp_all [behindFirst, injective.eq_iff]

theorem Source.IsLibrary.enrolled {s : Source} (library : s.IsLibrary) (next : Nat) :
    (Codebase.enrollSource next s).1.isStandard = .ok true ∧
      (Codebase.enrollSource next s).1.path.text?.isSome = true := by
  obtain ⟨path, text, marked⟩ := library
  have same : (Codebase.enrollSource next s).1.path = .str path := text
  have mark : (Codebase.enrollSource next s).1.isLibrary = s.isLibrary := rfl
  unfold ContractAbi.Source.isStandard
  rw [same, mark]
  rcases marked with marked | marked <;> simp [marked, Json.text?]

theorem AddsLibraries.embedded {dump dump' : List Source} (added : AddsLibraries dump dump') :
    ∃ place : Nat → Nat, place.Injective ∧ ∀ (shifted : Nat → Nat) (number number' next next' : Nat),
      (∀ i, shifted (number + i) = number' + place i) →
        Source.Embedded shifted number (Codebase.enrollEach Codebase.enrollSource next dump).1
          number' (Codebase.enrollEach Codebase.enrollSource next' dump').1 := by
  induction added with
  | nil =>
    refine ⟨id, Function.injective_id,
      fun shifted number number' next next' moved => .nil fun i => ?_⟩
    rw [moved i]
    exact Nat.le_add_right ..
  | keep s added ih =>
    obtain ⟨place, injective, rest⟩ := ih
    have same (next next' : Nat) : (Codebase.enrollSource next' s).1.unkeyed =
        (Codebase.enrollSource next s).1.unkeyed := by
      rw [Codebase.unkeyed_enrollSource, Codebase.unkeyed_enrollSource]
    refine ⟨behindFirst place, behindFirst_injective injective,
      fun shifted number number' next next' moved => ?_⟩
    refine .keep (moved 0) (same next next')
      (rest shifted _ _ _ _ fun i => ?_)
    have later := moved (i + 1)
    rw [behindFirst] at later
    rw [Nat.add_assoc, Nat.add_comm 1 i, later]
    omega
  | insert library added ih =>
    obtain ⟨place, injective, rest⟩ := ih
    refine ⟨fun i => place i + 1, fun i j same => injective (Nat.succ.inj same),
      fun shifted number number' next next' moved => ?_⟩
    obtain ⟨standard, text⟩ := library.enrolled next'
    refine .library standard text (rest shifted _ _ _ _ fun i => ?_)
    rw [moved i, Nat.add_assoc, Nat.add_comm 1]

theorem AddsLibraries.embeds {dump dump' : List Source} (added : AddsLibraries dump dump') :
    ∃ place, (Codebase.ofDump dump).Embeds place (.ofDump dump') := by
  obtain ⟨place, injective, embedded⟩ := added.embedded
  refine ⟨place, injective, embedded place 0 0 0 0 fun i => ?_, Codebase.isFresh_ofDump dump,
    Codebase.isFresh_ofDump dump', rfl, rfl⟩
  rw [Nat.zero_add, Nat.zero_add]

end Dump

namespace Transformer

/-- Libraries that are put among the sources change nothing. Without a program, a run has the same
outcome: the same fault, or the same records, routines and files. Its findings are the same too, and
the classes of every library stay as they are. -/
theorem libraries_change_nothing (t : Transformer) {dump dump' : List Dump.Source}
    (added : Dump.AddsLibraries dump dump') :
    (t.run (.ofDump dump') none).2.2.map
        (fun result => (result.1.catalog.records, result.1.routines, result.2)) =
      (t.run (.ofDump dump) none).2.2.map
        (fun result => (result.1.catalog.records, result.1.routines, result.2)) ∧
    (t.run (.ofDump dump') none).1.findings = (t.run (.ofDump dump) none).1.findings ∧
    (t.run (.ofDump dump') none).1.lastRoutines = (t.run (.ofDump dump) none).1.lastRoutines ∧
    ∀ number s, (Codebase.ofDump dump').sources[number]? = some s → s.isPassedOver = true →
      ∀ index, (t.run (.ofDump dump') none).2.1.classAt? ⟨number, index⟩ = s.classes[index]? := by
  obtain ⟨place, embeds⟩ := added.embeds
  obtain ⟨outcome, findings, routines⟩ := t.run_of_embeds embeds
  refine ⟨?_, findings, routines, fun number s placed library index =>
    t.run_classAt?_of_isPassedOver none placed library index⟩
  rw [outcome]
  cases (t.run (.ofDump dump) none).2.2 <;> rfl

/-- A contract that emits an event, and the event. -/
def orchard : List Dump.Source := [
  { path := .str "orchard.ts", isLibrary := false
    classes := [
      { name := .str "Picked", base := .null, decorators := [⟨.str "event", []⟩], members := [] },
      { name := .str "Orchard", base := .null, decorators := []
        members := [
          .method (.str "pick") [⟨.str "method", ["'uint256'"]⟩, ⟨.str "emit", ["'Picked'"]⟩]] }] }]

/-- The same among libraries, which have classes, events and methods of the same names. -/
def walledOrchard : List Dump.Source :=
  { path := .str "~lib/orchard.ts", isLibrary := false
    classes := [
      { name := .str "Orchard", base := .null, decorators := []
        members := [
          .method (.str "execute") [], .method (.str "pick") [⟨.str "method", ["'bool'"]⟩]] }] } ::
  orchard ++ [
  { path := .str "orchard.ts", isLibrary := true
    classes := [
      { name := .str "Picked", base := .null, decorators := [⟨.str "event", ["'Picked'"]⟩]
        members := [.field ⟨.str "count", .str "uint256", []⟩] }] }]

theorem libraries_of_walledOrchard : Dump.AddsLibraries orchard walledOrchard ∧
    ∃ output output' files,
      (({} : Transformer).run (.ofDump orchard) none).2.2 = .ok (output, files) ∧
      (({} : Transformer).run (.ofDump walledOrchard) none).2.2 = .ok (output', files) ∧
      output'.catalog.records = output.catalog.records ∧ output'.routines = output.routines ∧
      (({} : Transformer).run (.ofDump walledOrchard) none).1.findings =
        (({} : Transformer).run (.ofDump orchard) none).1.findings ∧
      ∀ number s, (Codebase.ofDump walledOrchard).sources[number]? = some s →
        s.isPassedOver = true → ∀ index,
          (({} : Transformer).run (.ofDump walledOrchard) none).2.1.classAt? ⟨number, index⟩ =
            s.classes[index]? := by
  have added : Dump.AddsLibraries orchard walledOrchard :=
    .insert ⟨_, rfl, Or.inr rfl⟩ (.keep _ (.insert ⟨_, rfl, Or.inl rfl⟩ .nil))
  obtain ⟨output, files, ran⟩ := run_completes {}
    (show (Codebase.ofDump orchard).isTextual = true by decide) (by decide +kernel)
  obtain ⟨outcome, findings, -, classes⟩ := libraries_change_nothing {} added
  rw [ran] at outcome
  obtain ⟨⟨output', files'⟩, ran', same⟩ := map_ok outcome
  simp only [Prod.mk.injEq] at same
  obtain ⟨records, routines, rfl⟩ := same
  exact ⟨added, output, output', files', ran, ran', records, routines, findings, classes⟩

end Transformer

end ContractAbi
