import ContractAbi.Proofs.Outcome
import ContractAbi.Proofs.Rewording
import ContractAbi.Proofs.Tuples

/-!
# The choice of spellings

Two codebases that differ only in how types are spelled lead to the same files and routines. Where
they also differ in the names of parameters, routines and calls are still the same.
-/

namespace ContractAbi

/-! ### Codebases that differ in their parameters -/

/-- The two spellings name one type. -/
def AbiType.Synonyms (spelling spelling' : Text) : Prop :=
  ∃ t, resolve? spelling = some t ∧ resolve? spelling' = some t

theorem AbiType.Synonyms.trim {spelling spelling' : Text} (synonyms : Synonyms spelling spelling') :
    Synonyms (Text.trim spelling) (Text.trim spelling') := by
  obtain ⟨t, named, named'⟩ := synonyms
  exact ⟨t, resolve?_trim named, resolve?_trim named'⟩

namespace Param

/-- The type may be spelled in another way. -/
def Respelled (p p' : Param) : Prop :=
  p = p' ∨ p.name? = p'.name? ∧ AbiType.Synonyms p.type p'.type

/-- A parameter that has a type may also have another name, or a name where there was none. -/
def Renamed (p p' : Param) : Prop :=
  p = p' ∨ AbiType.Synonyms p.type p'.type

end Param

section Alike

variable (R : Param → Param → Prop)

/-- The parameters in `@method` and `@returns` are related by `R`. -/
structure Decorator.Alike (d d' : Decorator) : Prop where
  name : d.name = d'.name
  args : d.args = d'.args ∨ d.isRecording = true ∧
    List.Forall₂ R (d.unquoted.map Param.parse) (d'.unquoted.map Param.parse)

structure Method.Alike (m m' : Method) : Prop where
  key : m.key = m'.key
  name : m.name = m'.name
  body : m.body = m'.body
  decorators : List.Forall₂ (Decorator.Alike R) m.decorators m'.decorators

/-- The types are the same, or spellings of one type as they stand or without the blanks around
them. -/
structure Field.Alike (f f' : Field) : Prop where
  name : f.name = f'.name
  type : f.type = f'.type ∨ ∃ s s', f.type = .str s ∧ f'.type = .str s' ∧
    (AbiType.Synonyms s s' ∨ AbiType.Synonyms (Text.trim s) (Text.trim s'))
  decorators : f.decorators = f'.decorators

inductive Member.Alike : Member → Member → Prop where
  | method {m m' : Method} (alike : m.Alike R m') : Alike (.method m) (.method m')
  | field {f f' : Field} (alike : f.Alike f') : Alike (.field f) (.field f')

structure Class.Alike (c c' : Class) : Prop where
  name : c.name = c'.name
  members : List.Forall₂ (Member.Alike R) c.members c'.members
  decorators : c.decorators = c'.decorators
  base : c.base = c'.base

structure Source.Alike (s s' : Source) : Prop where
  path : s.path = s'.path
  classes : List.Forall₂ (Class.Alike R) s.classes s'.classes
  isLibrary : s.isLibrary = s'.isLibrary

/-- The codebases are the same but for the parameters in annotations, which are related by `R`, and
the spellings of the types of fields. -/
structure Codebase.Alike (code code' : Codebase) : Prop where
  sources : List.Forall₂ (Source.Alike R) code.sources code'.sources
  handles : code.handles = code'.handles
  nextKey : code.nextKey = code'.nextKey

end Alike

variable {R : Param → Param → Prop}

theorem Class.Alike.methods {c c' : Class} (alike : c.Alike R c') :
    List.Forall₂ (Method.Alike R) c.methods c'.methods := by
  refine List.rel_filterMap ?_ alike.members
  rintro _ _ (same | same)
  · exact .some same
  · exact .none

theorem Class.Alike.fields {c c' : Class} (alike : c.Alike R c') :
    List.Forall₂ Field.Alike c.fields c'.fields := by
  refine List.rel_filterMap ?_ alike.members
  rintro _ _ (same | same)
  · exact .none
  · exact .some same

/-- Parameters that `R` relates have the same wording in `w`, and only those that have a type are
changed at all. -/
structure Rewording.Absorbs (w : Rewording) (R : Param → Param → Prop) : Prop where
  refl : ∀ p, R p p
  param : ∀ {p p' : Param}, R p p' → w.param p = w.param p'
  renamed : ∀ {p p' : Param}, R p p' → p.Renamed p'

namespace Rewording

theorem standardSpelling_eq {s s' : Text} (synonyms : AbiType.Synonyms s s') :
    AbiType.standardSpelling s = AbiType.standardSpelling s' := by
  obtain ⟨t, named, named'⟩ := synonyms
  rw [AbiType.standardSpelling_of_some named, AbiType.standardSpelling_of_some named']

theorem canonical_absorbs : canonical.Absorbs Param.Respelled where
  refl _ := Or.inl rfl
  param := by
    rintro p p' (rfl | ⟨names, synonyms⟩)
    · rfl
    · have types := standardSpelling_eq synonyms
      cases p <;> cases p' <;> cases names <;> simp_all [canonical, Param.type]
  renamed := by
    rintro p p' (same | ⟨-, synonyms⟩)
    · exact Or.inl same
    · exact Or.inr synonyms

theorem nameless_absorbs : nameless.Absorbs Param.Renamed where
  refl _ := Or.inl rfl
  param := by
    rintro p p' (rfl | synonyms)
    · rfl
    · have types := standardSpelling_eq synonyms
      obtain ⟨t, named, named'⟩ := synonyms
      simp [nameless, named, named', types]
  renamed := id

end Rewording

variable {w : Rewording}

/-! ### Annotations -/

section Params

variable (absorbs : w.Absorbs R)
include absorbs

theorem Decorator.Alike.params {d d' : Decorator} (alike : d.Alike R d') :
    List.Forall₂ R (d.unquoted.map Param.parse) (d'.unquoted.map Param.parse) := by
  rcases alike.args with same | ⟨-, related⟩
  · unfold unquoted
    rw [same]
    exact List.forall₂_same.mpr fun p _ => absorbs.refl p
  · exact related

theorem map_param_eq {ps ps' : List Param} (related : List.Forall₂ R ps ps') :
    ps.map w.param = ps'.map w.param := by
  rw [← List.forall₂_eq_eq_eq, List.forall₂_map_left_iff, List.forall₂_map_right_iff]
  exact related.imp fun _ _ => absorbs.param

/-- Only an argument that has no type can be taken for a name, and such an argument is not changed. -/
theorem MethodArguments.parse_alike {args args' : List Text}
    (related : List.Forall₂ R (args.map Param.parse) (args'.map Param.parse)) (declared : Name) :
    (parse args).nameOr declared = (parse args').nameOr declared ∧
      (parse args).toParams.map w.param = (parse args').toParams.map w.param := by
  unfold parse
  generalize args.map Param.parse = ps at related
  generalize args'.map Param.parse = ps' at related
  cases related with
  | nil => exact ⟨rfl, rfl⟩
  | @cons p p' ps ps' first rest =>
    have others := map_param_eq absorbs rest
    have all := map_param_eq absorbs (.cons first rest)
    dsimp only
    rcases absorbs.renamed first with rfl | ⟨t, named, named'⟩
    · split
      · exact ⟨rfl, all⟩
      · exact ⟨rfl, others⟩
    · have looks : p.looksLikeType = true := by
        simp [Param.looksLikeType, AbiType.looksLikeType, named]
      have looks' : p'.looksLikeType = true := by
        simp [Param.looksLikeType, AbiType.looksLikeType, named']
      rw [if_pos looks, if_pos looks']
      exact ⟨rfl, all⟩

end Params

theorem Decorator.Alike.unquoted {d d' : Decorator} (alike : d.Alike R d')
    (other : d.isRecording = false) : d.unquoted = d'.unquoted := by
  rcases alike.args with same | ⟨recording, -⟩
  · unfold Decorator.unquoted
    rw [same]
  · rw [other] at recording
    cases recording

namespace Annotations

variable (w) in
def reword (a : Annotations) : Annotations :=
  { a with
    method := a.method.map fun (name, ps) => (name, ps.map w.param)
    returns := a.returns.map (·.map w.param) }

theorem add_alike (absorbs : w.Absorbs R) {d d' : Decorator} (alike : d.Alike R d') (declared : Name)
    {a a' : Annotations} (same : a.reword w = a'.reword w) :
    (a.add declared d).reword w = (a'.add declared d').reword w := by
  have params := alike.params absorbs
  have arguments := MethodArguments.parse_alike absorbs params declared
  have returned := map_param_eq absorbs params
  simp only [reword, Annotations.mk.injEq] at same
  obtain ⟨method, returns, emits, view, payable, owner⟩ := same
  unfold add
  rw [← alike.name]
  split_ifs with method' returns' emit
  · simp [reword, arguments, returns, emits, view, payable, owner]
  · simp only [reword, method, emits, view, payable, owner, Option.map_some, returned]
  · have events := alike.unquoted (by simp [Decorator.isRecording, method', returns'])
    simp only [reword, method, returns, emits, view, payable, owner, events]
  all_goals simp only [reword, method, returns, emits, view, payable, owner]

theorem ofMethod_alike (absorbs : w.Absorbs R) {m m' : Method} (alike : m.Alike R m') :
    (ofMethod m).reword w = (ofMethod m').reword w := by
  have fold {ds ds' : List Decorator} (related : List.Forall₂ (Decorator.Alike R) ds ds')
      {a a' : Annotations} (same : a.reword w = a'.reword w) :
      (addAll m.name a ds).reword w = (addAll m.name a' ds').reword w := by
    induction related generalizing a a' with
    | nil => exact same
    | cons first rest ih => exact ih (add_alike absorbs first m.name same)
  unfold ofMethod
  rw [← alike.name]
  exact fold alike.decorators rfl

end Annotations

/-! ### Surveys -/

theorem Record.merge_reword (r : Record) (a : Annotations) :
    (r.merge a).reword w = (r.reword w).merge (a.reword w) := by
  unfold merge reword Annotations.reword
  cases a.method <;> cases a.returns <;> rfl

namespace Catalog

theorem isRecorded_reword (c : Catalog) (handle : Nat) :
    (c.reword w).isRecorded handle = c.isRecorded handle := by
  unfold isRecorded reword
  rw [List.any_map]
  rfl

theorem enter_reword (c : Catalog) (m : Method) (handle : Nat) (owner : Name) (a : Annotations) :
    (c.enter m handle owner a).reword w = (c.reword w).enter m handle owner (a.reword w) := by
  have recorded : (a.reword w).isRecorded = a.isRecorded := by
    simp [Annotations.isRecorded, Annotations.reword]
  unfold enter
  rw [isRecorded_reword, recorded]
  split
  · simp only [reword, List.map_map, Catalog.mk.injEq, and_true]
    refine List.map_congr_left fun r _ => ?_
    change (if r.handle = handle then r.merge a else r).reword w =
      if r.handle = handle then (r.reword w).merge (a.reword w) else r.reword w
    rw [apply_ite (Record.reword w), Record.merge_reword]
  · split
    · simp only [reword, List.map_append, List.map_cons, List.map_nil, Record.merge_reword]
      rfl
    · rfl

theorem any_stops_alike {c c' : Catalog} (same : c.reword w = c'.reword w) (handle : Nat)
    (owner : Name) {ds ds' : List Decorator} (related : List.Forall₂ (Decorator.Alike R) ds ds') :
    ds.any (c.stops handle owner) = ds'.any (c'.stops handle owner) := by
  have recorded : c.isRecorded handle = c'.isRecorded handle := by
    rw [← c.isRecorded_reword (w := w), same, c'.isRecorded_reword]
  induction related with
  | nil => rfl
  | cons first rest ih =>
    rw [List.any_cons, List.any_cons, ih]
    simp only [stops, Decorator.isRecording, recorded, first.name]

end Catalog

/-! ### Events -/

namespace Class

theorem eventType?_alike {f f' : Field} (alike : f.Alike f') :
    (eventType? f).map (Option.map AbiType.standardSpelling) =
      (eventType? f').map (Option.map AbiType.standardSpelling) := by
  rcases alike.type with same | ⟨s, s', text, text', synonyms⟩
  · unfold eventType?
    rw [same]
  · replace synonyms := synonyms.elim AbiType.Synonyms.trim id
    have standard := Rewording.standardSpelling_eq synonyms
    obtain ⟨t, named, named'⟩ := synonyms
    have given {s : Text} (named : AbiType.resolve? (Text.trim s) = some t) : s ≠ "" := by
      rintro rfl
      have blank : AbiType.resolve? (Text.trim "") = none := by decide
      rw [blank] at named
      cases named
    unfold eventType?
    simp [text, text', Json.isTruthy, given named, given named', Except.map, standard]

theorem eventFields_alike {fs fs' : List Field} (related : List.Forall₂ Field.Alike fs fs') :
    (eventFields fs).map (List.map fun (name, type) => (name, AbiType.standardSpelling type)) =
      (eventFields fs').map (List.map fun (name, type) => (name, AbiType.standardSpelling type)) := by
  induction related with
  | nil => rfl
  | @cons f f' fs fs' first rest ih =>
    have types := eventType?_alike first
    have names := first.name
    unfold eventFields
    rcases map_eq_map_cases types with ⟨fault, type, type'⟩ | ⟨given, given', type, type', same⟩
    · rw [type, type']
      rfl
    rcases map_eq_map_cases ih with
      ⟨fault, others, others'⟩ | ⟨fields, fields', others, others', equal⟩
    · rw [type, type', others, others']
      rfl
    rw [type, type', others, others']
    refine congrArg Except.ok ?_
    rw [List.map_append, List.map_append, equal, names]
    cases given <;> cases given' <;> simp_all

theorem event?_alike {c c' : Class} (alike : c.Alike R c') (path : Json) :
    (c.event? path).map (Option.map Event.standard) =
      (c'.event? path).map (Option.map Event.standard) := by
  have fields := eventFields_alike alike.fields
  have name : c.eventName? = c'.eventName? := by
    simp only [eventName?, alike.name, alike.decorators]
  unfold event?
  rw [← name, ← alike.name]
  cases c.eventName? with
  | none => rfl
  | some event =>
    rcases map_eq_map_cases fields with ⟨fault, read, read'⟩ | ⟨given, given', read, read', same⟩
    · rw [read, read']
    · rw [read, read']
      exact congrArg (fun fields => Except.ok (some (Event.mk event c.name path fields))) same

end Class

/-! ### Visits of sources -/

/-- Two visits stop at the same fault, or both come to their end in states that `P` relates. -/
def Agree {σ : Type} (P : σ → σ → Prop) (x y : σ × Except Fault Unit) : Prop :=
  x.2 = y.2 ∧ (x.2 = .ok () → P x.1 y.1)

theorem Agree.next {σ : Type} {P : σ → σ → Prop} {x y : σ × Except Fault Unit}
    {f g : σ → σ × Except Fault Unit} (agree : Agree P x y)
    (step : ∀ s s', P s s' → Agree P (f s) (g s')) : Agree P (andThen f x) (andThen g y) := by
  obtain ⟨s, outcome⟩ := x
  obtain ⟨s', outcome'⟩ := y
  obtain ⟨same, related⟩ := agree
  dsimp only at same related
  subst same
  cases outcome with
  | error fault => exact ⟨rfl, nofun⟩
  | ok _ => exact step s s' (related rfl)

namespace Survey

variable (w) in
/-- The surveys are the same up to a rewording, and nothing is held back in them. -/
structure Alike (s s' : Survey) : Prop where
  registry : s.registry = s'.registry
  nothingHeld : s.catalog.held.entries = []
  catalog : s.catalog.reword w = s'.catalog.reword w

theorem add_alike (r : Registry) {m m' : Method} (alike : m.Alike R m') (owner : Name) :
    r.add m owner = r.add m' owner := by
  simp only [Registry.add, Registry.handleOf?, alike.key, alike.name]

section Visits

variable (absorbs : w.Absorbs R)
include absorbs

theorem visitMethod_alike {s s' : Survey} (same : s.Alike w s') {m m' : Method}
    (alike : m.Alike R m') (owner : Name) :
    Agree (Alike w) (s.visitMethod m owner) (s'.visitMethod m' owner) := by
  have outcome : (s.visitMethod m owner).2 = (s'.visitMethod m' owner).2 := by
    rw [visitMethod_eq, visitMethod_eq, ← same.registry, ← add_alike s.registry alike owner,
      Catalog.visit_outcome, Catalog.visit_outcome,
      Catalog.any_stops_alike same.catalog _ owner alike.decorators]
  refine ⟨outcome, fun completed => ?_⟩
  have held : s'.catalog.held.entries = [] := by
    have held := congrArg Catalog.held same.catalog
    exact (congrArg Table.entries held.symm).trans same.nothingHeld
  obtain ⟨registry, catalog⟩ := visitMethod_ok same.nothingHeld (Prod.ext rfl completed)
  obtain ⟨registry', catalog'⟩ := visitMethod_ok held (Prod.ext rfl (outcome.symm.trans completed))
  have blank (h : Nat) : Record.blank m h owner = Record.blank m' h owner := by
    simp only [Record.blank, alike.name]
  refine ⟨?_, ?_, ?_⟩
  · rw [registry, registry', ← same.registry, add_alike s.registry alike owner]
  · rw [catalog]
  · have entered (h : Nat) : (s.catalog.enter m h owner (Annotations.ofMethod m)).reword w =
        (s'.catalog.enter m' h owner (Annotations.ofMethod m')).reword w := by
      rw [Catalog.enter_reword, Catalog.enter_reword, same.catalog,
        Annotations.ofMethod_alike absorbs alike]
      simp only [Catalog.enter, blank]
    rw [catalog, catalog', ← same.registry, ← add_alike s.registry alike owner]
    exact congrArg (fun c : Catalog => { c with held := {} }) (entered _)

theorem visitMethods_alike {s s' : Survey} (same : s.Alike w s') (owner : Name) {ms ms' : List Method}
    (related : List.Forall₂ (Method.Alike R) ms ms') :
    Agree (Alike w) (s.visitMethods owner ms) (s'.visitMethods owner ms') := by
  induction related generalizing s s' with
  | nil => exact ⟨rfl, fun _ => same⟩
  | cons first rest ih =>
    rw [visitMethods_cons, visitMethods_cons]
    exact (visitMethod_alike absorbs same first owner).next fun _ _ same => ih same

theorem visitClass_alike {s s' : Survey} (same : s.Alike w s') (site : Site) {c c' : Class}
    (alike : c.Alike R c') (path : Json) :
    Agree (Alike w) (s.visitClass site c path) (s'.visitClass site c' path) := by
  have events := Class.event?_alike alike path
  unfold visitClass
  rw [← alike.name]
  split
  · exact ⟨rfl, nofun⟩
  rcases map_eq_map_cases events with
    ⟨fault, stopped, stopped'⟩ | ⟨event, event', found, found', equal⟩
  · rw [stopped, stopped']
    exact ⟨rfl, nofun⟩
  · rw [found, found']
    dsimp only
    apply visitMethods_alike absorbs _ c.name alike.methods
    have met := congrArg (Catalog.meet · c.name site path) same.catalog
    have before : s.catalog.events.map Event.standard = s'.catalog.events.map Event.standard :=
      congrArg Catalog.events same.catalog
    have new : event.toList.map Event.standard = event'.toList.map Event.standard := by
      rw [← Option.toList_map, ← Option.toList_map, equal]
    have listed : (s.catalog.events ++ event.toList).map Event.standard =
        (s'.catalog.events ++ event'.toList).map Event.standard := by
      rw [List.map_append, List.map_append, before, new]
    exact ⟨same.registry, same.nothingHeld,
      congrArg₂ (fun (c : Catalog) events => { c with events }) met listed⟩

theorem visitClasses_alike (number : Nat) (path : Json) {s s' : Survey} (same : s.Alike w s')
    (index : Nat) {cs cs' : List Class} (related : List.Forall₂ (Class.Alike R) cs cs') :
    Agree (Alike w) (visitClasses number path s index cs)
      (visitClasses number path s' index cs') := by
  induction related generalizing s s' index with
  | nil => exact ⟨rfl, fun _ => same⟩
  | cons first rest ih =>
    rw [visitClasses_cons, visitClasses_cons]
    exact (visitClass_alike absorbs same _ first path).next fun _ _ same => ih same _

theorem visitSource_alike {s s' : Survey} (same : s.Alike w s') (number : Nat)
    {source source' : Source} (alike : source.Alike R source') :
    Agree (Alike w) (s.visitSource number source) (s'.visitSource number source') := by
  have standard : source.isStandard = source'.isStandard := by
    simp only [Source.isStandard, alike.path, alike.isLibrary]
  unfold visitSource
  rw [← standard, ← alike.path]
  split
  · exact ⟨rfl, nofun⟩
  · exact ⟨rfl, fun _ => same⟩
  · exact visitClasses_alike absorbs number source.path same 0 alike.classes

theorem visitSources_alike {s s' : Survey} (same : s.Alike w s') (number : Nat)
    {sources sources' : List Source} (related : List.Forall₂ (Source.Alike R) sources sources') :
    Agree (Alike w) (s.visitSources number sources) (s'.visitSources number sources') := by
  induction related generalizing s s' number with
  | nil => exact ⟨rfl, fun _ => same⟩
  | cons first rest ih =>
    rw [visitSources_cons, visitSources_cons]
    exact (visitSource_alike absorbs same number first).next fun _ _ same => ih same _

end Visits

end Survey

/-! ### The program of all declarations -/

namespace Program

theorem nameClass_alike (stem : Text) (state : Registry × Program) {c c' : Class}
    (alike : c.Alike R c') : nameClass stem state c = nameClass stem state c' := by
  unfold nameClass
  rw [← alike.name]
  refine List.rel_foldl (P := Eq) (R := Method.Alike R) ?_ rfl alike.methods
  rintro state _ rfl m m' same
  simp only [nameMethod, same.key, same.name, Survey.add_alike state.1 same c.name]

theorem nameSources_alike (state : Registry × Program) {sources sources' : List Source}
    (related : List.Forall₂ (Source.Alike R) sources sources') :
    nameSources state sources = nameSources state sources' := by
  induction related generalizing state with
  | nil => rfl
  | @cons source source' _ _ first rest ih =>
    unfold nameSources
    rw [← first.path]
    split
    · rename_i path _
      have classes : source.classes.foldl (nameClass (pathStem path)) state =
          source'.classes.foldl (nameClass (pathStem path)) state := by
        refine List.rel_foldl (P := Eq) (R := Class.Alike R) ?_ rfl first.classes
        rintro state _ rfl c c' same
        exact nameClass_alike _ state same
      rw [classes]
      exact ih _
    · rfl

end Program

namespace Codebase

variable {code code' : Codebase}

theorem surveyed_alike (absorbs : w.Absorbs R) (alike : code.Alike R code') :
    Agree (Survey.Alike w) code.surveyed code'.surveyed := by
  unfold surveyed
  rw [← alike.handles]
  exact Survey.visitSources_alike absorbs ⟨rfl, rfl, rfl⟩ 0 alike.sources

theorem programOr_alike (alike : code.Alike R code') (program : Option Program)
    (registry : code.surveyed.1.registry = code'.surveyed.1.registry) :
    code.programOr program = code'.programOr program := by
  unfold programOr Program.ofSources
  rw [registry, Program.nameSources_alike _ alike.sources]

/-- Surveys of codebases that are alike find the same up to the rewording. -/
theorem survey_alike (absorbs : w.Absorbs R) (alike : code.Alike R code')
    (program : Option Program) :
    (code.survey program).2.map (Catalog.reword w) =
      (code'.survey program).2.map (Catalog.reword w) := by
  obtain ⟨outcome, completed⟩ := surveyed_alike absorbs alike
  cases walked : code.surveyed.2 with
  | error fault =>
    rw [survey_of_walk_error walked, survey_of_walk_error (outcome.symm.trans walked)]
  | ok _ =>
    have walked' := outcome.symm.trans walked
    obtain ⟨registry, -, same⟩ := completed walked
    have programs := programOr_alike alike program registry
    cases chosen : code.programOr program with
    | error fault =>
      rw [survey_of_program_error walked chosen, survey_of_program_error walked' (programs ▸ chosen)]
    | ok p =>
      have named := congrArg (Catalog.resolveNames · p) same
      rw [Catalog.resolveNames_reword, Catalog.resolveNames_reword, Prod.mk.injEq] at named
      obtain ⟨renamed, found⟩ : (code.catalog.mapRecords (code.catalog.rename p)).reword w =
          (code'.catalog.mapRecords (code'.catalog.rename p)).reword w ∧
        (code.catalog.resolveNames p).2 = (code'.catalog.resolveNames p).2 := named
      rw [survey_of_programOr walked chosen, survey_of_programOr walked' (programs ▸ chosen),
        ← found]
      cases (code.catalog.resolveNames p).2 with
      | error fault => simp only [Except.map]
      | ok _ => exact congrArg Except.ok renamed

end Codebase

/-! ### Runs -/

namespace Transformer

variable {code code' : Codebase}

/-- Both runs stop at the same fault, or both write the same files. -/
theorem run_of_respelled (t : Transformer) (program : Option Program)
    (alike : code.Alike Param.Respelled code') :
    (t.run code program).2.2.map (fun (output, files) => (output.routines, files)) =
        (t.run code' program).2.2.map (fun (output, files) => (output.routines, files)) ∧
      (t.run code program).1.lastRoutines = (t.run code' program).1.lastRoutines := by
  unfold lastRoutines
  rcases stages_of_reworded (t := t) (code.survey_alike Rewording.canonical_absorbs alike program) with
    ⟨fault, failed, failed', kept, kept'⟩ |
    ⟨c, c', s, s', output, output', stages, stages', catalogs, routines, layout⟩
  · rw [failed, failed', kept, kept']
    exact ⟨rfl, rfl⟩
  · obtain ⟨-, unit, classes, -⟩ := Catalog.build_ok stages.unsettled stages.built
    obtain ⟨-, unit', classes', -⟩ := Catalog.build_ok stages'.unsettled stages'.built
    have units : output.unitAbi = output'.unitAbi := by
      rw [← Catalog.unitAbi_canonical, catalogs, Catalog.unitAbi_canonical, unit'] at unit
      exact (Except.ok.inj unit).symm
    have manifests : output.classAbis = output'.classAbis := by
      rw [← Catalog.classAbis_canonical, catalogs, Catalog.classAbis_canonical, classes'] at classes
      exact (Except.ok.inj classes).symm
    rw [stages.ran, stages'.ran, units, manifests, layout]
    refine ⟨?_, congrArg (fun routines => (some routines).getD []) routines⟩
    cases ((t.settings.files output'.unitAbi output'.classAbis).run.run s'.layout).1 with
    | error fault => rfl
    | ok files => exact congrArg (fun routines => Except.ok (routines, files)) routines

/-- Both runs stop at the same fault, or both come to their files with the same routines and
calls. -/
theorem run_of_renamed (t : Transformer) (program : Option Program)
    (alike : code.Alike Param.Renamed code') :
    (t.run code program).1.lastRoutines = (t.run code' program).1.lastRoutines ∧
      (t.run code program).1.last.map (·.catalog.records.map fun r => (r.handle, r.call)) =
        (t.run code' program).1.last.map (·.catalog.records.map fun r => (r.handle, r.call)) ∧
      ∀ fault, fault ≠ .notText →
        ((t.run code program).2.2 = .error fault ↔ (t.run code' program).2.2 = .error fault) := by
  unfold lastRoutines
  rcases stages_of_reworded (t := t) (code.survey_alike Rewording.nameless_absorbs alike program) with
    ⟨fault, failed, failed', kept, kept'⟩ |
    ⟨c, c', s, s', output, output', stages, stages', catalogs, routines, -⟩
  · rw [failed, failed', kept, kept']
    exact ⟨rfl, rfl, fun _ _ => Iff.rfl⟩
  · have calls : output.catalog.records.map (fun r => (r.handle, r.call)) =
        output'.catalog.records.map (fun r => (r.handle, r.call)) := by
      rw [← Catalog.calls_reword .nameless, catalogs, Catalog.calls_reword]
    -- From here on, the only fault is a name that is no text.
    have passes {code : Codebase} {c : Catalog} {s : Injector} {output : Output}
        (stages : Stages t code program c s output) {fault : Fault} (other : fault ≠ .notText) :
        (t.run code program).2.2 ≠ .error fault := by
      intro stopped
      rw [stages.ran] at stopped
      have stopped := failure?_eq_some.mpr stopped
      rw [failure?_map] at stopped
      exact other (t.settings.notText_of_files _ _ (failure?_eq_some.mp stopped))
    refine ⟨?_, ?_, fun fault other => iff_of_false (passes stages other) (passes stages' other)⟩
    · rw [stages.ran, stages'.ran]
      exact congrArg (fun routines => (some routines).getD []) routines
    · rw [stages.ran, stages'.ran]
      exact congrArg some calls

/-- Codebases that differ in how types are spelled lead to the same fault or to the same files and
routines. If parameters that have a type differ in their names as well, then the routines and the
call of every record are still the same, and so is a fault that stops the run before its files. -/
theorem spelling_choice_is_immaterial (t : Transformer) (program : Option Program)
    (code code' : Codebase) :
    (code.Alike Param.Respelled code' →
      (t.run code program).2.2.map (fun (output, files) => (output.routines, files)) =
          (t.run code' program).2.2.map (fun (output, files) => (output.routines, files)) ∧
        (t.run code program).1.lastRoutines = (t.run code' program).1.lastRoutines) ∧
    (code.Alike Param.Renamed code' →
      (t.run code program).1.lastRoutines = (t.run code' program).1.lastRoutines ∧
        (t.run code program).1.last.map (·.catalog.records.map fun r => (r.handle, r.call)) =
          (t.run code' program).1.last.map (·.catalog.records.map fun r => (r.handle, r.call)) ∧
        ∀ fault, fault ≠ .notText →
          ((t.run code program).2.2 = .error fault ↔ (t.run code' program).2.2 = .error fault)) :=
  ⟨t.run_of_respelled program, t.run_of_renamed program⟩

/-- A class that is an event and has a method, up to the types of its field, parameter and return
value. -/
def market (field param result : Text) : Codebase where
  sources := [{
    path := .str "market.ts"
    isLibrary := false
    classes := [
      { name := .str "Market", base := .null, decorators := [⟨.str "event", ["'Sold'"]⟩]
        members := [
          .field { name := .str "amount", type := .str field, decorators := [] },
          .method { key := 0, name := .str "sell", decorators := [
            ⟨.str "method", [param]⟩, ⟨.str "returns", [result]⟩] }] }] }]
  nextKey := 1

theorem market_alike {field field' param param' result result' : Text}
    (fields : AbiType.Synonyms (Text.trim field) (Text.trim field'))
    (params : R (Param.parse (Text.unquote param)) (Param.parse (Text.unquote param')))
    (results : R (Param.parse (Text.unquote result)) (Param.parse (Text.unquote result'))) :
    (market field param result).Alike R (market field' param' result') := by
  have method : Decorator.Alike R ⟨.str "method", [param]⟩ ⟨.str "method", [param']⟩ :=
    ⟨rfl, Or.inr ⟨rfl, .cons params .nil⟩⟩
  have returns : Decorator.Alike R ⟨.str "returns", [result]⟩ ⟨.str "returns", [result']⟩ :=
    ⟨rfl, Or.inr ⟨rfl, .cons results .nil⟩⟩
  refine ⟨.cons ⟨rfl, .cons ⟨rfl, ?_, rfl, rfl⟩ .nil, rfl⟩ .nil, rfl, rfl⟩
  exact .cons (.field ⟨rfl, Or.inr ⟨field, field', rfl, rfl, Or.inr fields⟩, rfl⟩)
    (.cons (.method ⟨rfl, rfl, rfl, .cons method (.cons returns .nil)⟩) .nil)

theorem spelling_choice_of_market :
    ((market "u256" "'u256'" "'AddressMap<u256>'").Alike Param.Respelled
        (market " uint256" "ABIDataTypes.UINT256" "'tuple(Address, u256)[]'") ∧
      ∃ output output' files,
        (({} : Transformer).run (market "u256" "'u256'" "'AddressMap<u256>'") none).2.2 =
          .ok (output, files) ∧
        (({} : Transformer).run
          (market " uint256" "ABIDataTypes.UINT256" "'tuple(Address, u256)[]'") none).2.2 =
          .ok (output', files) ∧
        output.routines = output'.routines) ∧
    (market "u256" "'u256'" "'bool'").Alike Param.Renamed
        (market "u256" "\x7b name: 'n', type: 'uint256' \x7d" "'boolean'") ∧
      (({} : Transformer).run (market "u256" "'u256'" "'bool'") none).1.lastRoutines =
        (({} : Transformer).run
          (market "u256" "\x7b name: 'n', type: 'uint256' \x7d" "'boolean'") none).1.lastRoutines := by
  have respelled : (market "u256" "'u256'" "'AddressMap<u256>'").Alike Param.Respelled
      (market " uint256" "ABIDataTypes.UINT256" "'tuple(Address, u256)[]'") :=
    market_alike ⟨.uint256, by decide +kernel, by decide +kernel⟩
      (Or.inr ⟨by decide +kernel, .uint256, by decide +kernel, by decide +kernel⟩)
      (Or.inr ⟨by decide +kernel, .addressAmounts, by decide +kernel, by decide +kernel⟩)
  have renamed : (market "u256" "'u256'" "'bool'").Alike Param.Renamed
      (market "u256" "\x7b name: 'n', type: 'uint256' \x7d" "'boolean'") :=
    market_alike ⟨.uint256, by decide +kernel, by decide +kernel⟩
      (Or.inr ⟨.uint256, by decide +kernel, by decide +kernel⟩)
      (Or.inr ⟨.bool, by decide +kernel, by decide +kernel⟩)
  refine ⟨⟨respelled, ?_⟩, renamed, ((spelling_choice_is_immaterial {} none _ _).2 renamed).1⟩
  obtain ⟨output, files, ran⟩ := run_completes {}
    (show (market "u256" "'u256'" "'AddressMap<u256>'").isTextual = true by decide) (by decide +kernel)
  have same := ((spelling_choice_is_immaterial {} none _ _).1 respelled).1
  rw [ran] at same
  obtain ⟨⟨output', files'⟩, ran', equal⟩ := map_ok same.symm
  obtain ⟨routines, rfl⟩ := Prod.mk.inj equal
  exact ⟨output, output', files', ran, ran', routines.symm⟩

end Transformer

end ContractAbi
