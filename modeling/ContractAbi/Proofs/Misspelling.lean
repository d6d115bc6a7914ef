import ContractAbi.Proofs.Libraries
import ContractAbi.Proofs.Merging
import ContractAbi.Proofs.Tuples

/-!
# Arguments of unknown type

A named argument of `@method` whose type is unknown stops every run, wherever it is a parameter. The
first argument may be none: unless its type looks like one, it is taken for the name of the method.
-/

namespace ContractAbi

/-! ### Parameters and names -/

namespace MethodArguments

variable {arguments : List Text} {p : Param}

theorem mem_toParams_parse {i : Nat} (argument : (arguments.map Param.parse)[i]? = some p)
    (kept : 0 < i ∨ p.looksLikeType = true) : p ∈ (parse arguments).toParams := by
  unfold parse
  cases read : arguments.map Param.parse with
  | nil => simp [read] at argument
  | cons first rest =>
    rw [read] at argument
    cases i with
    | zero =>
      obtain rfl : first = p := by simpa using argument
      have type := kept.resolve_left (Nat.lt_irrefl 0)
      simp [type, toParams]
    | succ i =>
      have later : p ∈ rest := List.mem_of_getElem? (by simpa using argument)
      dsimp only
      split <;> simp [toParams, later]

theorem parse_of_name (first : (arguments.map Param.parse)[0]? = some p)
    (name : p.looksLikeType = false) :
    parse arguments = .renamed p.asName (arguments.map Param.parse).tail := by
  unfold parse
  cases read : arguments.map Param.parse with
  | nil => simp [read] at first
  | cons q rest =>
    obtain rfl : q = p := by simpa [read] using first
    simp [name]

end MethodArguments

/-! ### Methods on record

A class may list a method that another class lists too, so a method may be visited again. -/

theorem Codebase.IsFresh.keysTell {code : Codebase} (fresh : code.IsFresh) :
    KeysTell code.methods :=
  fun _ member _ member' same => List.inj_on_of_nodup_map fresh member member' same

namespace Catalog

variable {c : Catalog} {m : Method} {handle : Nat} {owner : Name} {a : Annotations}

/-- The method with this handle is on record, with these parameters. -/
def Lists (c : Catalog) (handle : Nat) (params : List Param) : Prop :=
  ∃ r ∈ c.records, r.handle = handle ∧ r.params = params

theorem enter_lists {said : Name × List Param} (method : a.method = some said) :
    (c.enter m handle owner a).Lists handle said.2 := by
  unfold enter
  split
  · rename_i recorded
    obtain ⟨r, member, own⟩ := List.any_eq_true.mp recorded
    have own : r.handle = handle := by simpa using own
    refine ⟨r.merge a, List.mem_map.mpr ⟨r, member, if_pos own⟩, own, ?_⟩
    simp [Record.merge, method]
  · have recorded : a.isRecorded = true := by simp [Annotations.isRecorded, method]
    rw [if_pos recorded]
    exact ⟨_, List.mem_append_right _ List.mem_cons_self, rfl, by simp [Record.merge, method]⟩

theorem Lists.enter {other : Nat} {params : List Param} (listed : c.Lists other params)
    (apart : other ≠ handle) : (c.enter m handle owner a).Lists other params := by
  obtain ⟨r, member, rfl, same⟩ := listed
  refine ⟨r, ?_, rfl, same⟩
  unfold Catalog.enter
  split
  · exact List.mem_map.mpr ⟨r, member, if_neg apart⟩
  · split
    · exact List.mem_append_left _ member
    · exact member

end Catalog

namespace Survey

/-- Every one of these methods that has a `@method` is on record with the parameters of its last. -/
structure Enlists (ms : List Method) (s : Survey) : Prop where
  nothingHeld : s.catalog.held.entries = []
  listed : ∀ m ∈ ms, ∀ d, (sites "method" m.decorators).getLast? = some d →
    ∃ handle, s.registry.HasHandle m.key handle ∧
      s.catalog.Lists handle (MethodArguments.parse d.unquoted).toParams

variable {ms : List Method} {s s' : Survey}

theorem visitMethod_enlists {m : Method} {owner : Name} (enlists : s.Enlists ms)
    (tell : KeysTell (ms ++ [m])) (h : s.visitMethod m owner = (s', .ok ())) :
    s'.Enlists (ms ++ [m]) := by
  obtain ⟨registry, catalog⟩ := visitMethod_ok enlists.nothingHeld h
  have own := s.registry.add_hasHandle m owner
  rw [← registry] at own
  have self (d : Decorator) (last : (sites "method" m.decorators).getLast? = some d) :
      s'.catalog.Lists (s.registry.add m owner).1 (MethodArguments.parse d.unquoted).toParams := by
    have method : (Annotations.ofMethod m).method =
        some ((MethodArguments.parse d.unquoted).nameOr m.name,
          (MethodArguments.parse d.unquoted).toParams) := by
      rw [Annotations.ofMethod, Annotations.addAll_eq_ofSites, Annotations.ofSites, last]
      rfl
    rw [catalog]
    exact Catalog.enter_lists method
  refine ⟨by rw [catalog], fun m' member d last => ?_⟩
  rcases List.mem_append.mp member with old | new
  · obtain ⟨handle, has, listed⟩ := enlists.listed m' old d last
    have kept : s'.registry.HasHandle m'.key handle := registry ▸ Registry.hasHandle_add has m owner
    by_cases same : handle = (s.registry.add m owner).1
    · -- The method has been visited before, so the same is said of it once more.
      subst same
      obtain rfl := tell m' member m (by simp) (kept.key_eq own)
      exact ⟨_, own, self d last⟩
    · refine ⟨handle, kept, ?_⟩
      rw [catalog]
      exact listed.enter same
  · obtain rfl := List.mem_singleton.mp new
    exact ⟨_, own, self d last⟩

theorem visitMethods_enlists {owner : Name} {next : List Method} (enlists : s.Enlists ms)
    (tell : KeysTell (ms ++ next)) (h : s.visitMethods owner next = (s', .ok ())) :
    s'.Enlists (ms ++ next) := by
  induction next generalizing s ms with
  | nil =>
    cases h
    rwa [List.append_nil]
  | cons m next ih =>
    rw [visitMethods_cons] at h
    obtain ⟨mid, visited, h⟩ := andThen_ok h
    rw [List.append_cons] at tell ⊢
    have first := visitMethod_enlists enlists (tell.subset (List.subset_append_left _ _)) visited
    exact ih first tell h

theorem visitClass_enlists {site : Site} {c : Class} {path : Json} (enlists : s.Enlists ms)
    (tell : KeysTell (ms ++ c.methods)) (h : s.visitClass site c path = (s', .ok ())) :
    s'.Enlists (ms ++ c.methods) := by
  obtain ⟨event, -, methods⟩ := visitClass_ok h
  refine visitMethods_enlists ?_ tell methods
  exact ⟨enlists.nothingHeld, enlists.listed⟩

end Survey

namespace Codebase

variable {code : Codebase}

theorem surveyed_enlists (tell : KeysTell code.methods) (walked : code.surveyed.2 = .ok ()) :
    code.surveyed.1.Enlists (code.contracts.flatMap (·.declaration.methods)) := by
  have declared : code.contracts.flatMap (·.declaration.methods) ⊆ code.methods := by
    intro m member
    obtain ⟨v, visited, own⟩ := List.mem_flatMap.mp member
    exact mem_methods_of_classAt? (classAt?_of_mem_contracts visited) own
  refine Survey.visitAll_induction (P := fun us s =>
    KeysTell (us.flatMap (·.declaration.methods)) → s.Enlists (us.flatMap (·.declaration.methods)))
    (fun _ => ⟨rfl, nofun⟩) ?_ (surveyed_visitAll walked) (tell.subset declared)
  intro us v s s' before visited tell
  rw [List.flatMap_append, List.flatMap_singleton] at tell ⊢
  exact Survey.visitClass_enlists (before (tell.subset (List.subset_append_left _ _))) tell visited

theorem catalog_owners_plain (code : Codebase) :
    ∀ r ∈ code.catalog.records, r.owner.isComposite = false := by
  have books : (Survey.after { handles := code.handles } [.ofSources 0 code.sources]).Books _ :=
    Survey.after_books code.handles (by simp [Walk.isWhole])
  exact books.plain

/-- The type of a parameter is one of the spellings that a run looks up. -/
theorem exists_spelling (tell : KeysTell code.methods) (walked : code.surveyed.2 = .ok ())
    {v : Contract} (visited : v ∈ code.contracts) {m : Method} (own : m ∈ v.declaration.methods)
    {d : Decorator} (last : (sites "method" m.decorators).getLast? = some d) {p : Param}
    (param : p ∈ (MethodArguments.parse d.unquoted).toParams) :
    ∃ s ∈ code.catalog.spellings, s.text = p.type := by
  obtain ⟨handle, -, r, member, -, params⟩ := (surveyed_enlists tell walked).listed m
    (List.mem_flatMap.mpr ⟨v, visited, own⟩) d last
  have ordered := Catalog.mem_ordered_of_plain code.catalog_owners_plain member
  have spelled : r.spelling p ∈ r.paramSpellings := List.mem_map_of_mem (params ▸ param)
  refine ⟨r.spelling p, ?_, rfl⟩
  unfold Catalog.spellings
  exact List.mem_append_left _ (List.mem_flatMap.mpr ⟨r, ordered, spelled⟩)

end Codebase

/-! ### Faults -/

/-- Whether the fault is that there is no such type or no such declaration. -/
def Fault.isMissing : Fault → Bool
  | unresolvedType .. | declarationNotFound .. => true
  | notText | compositeName | noCapital _ | unencodable => false

theorem Class.eventFields_fault {fs : List Field} {fault : Fault}
    (h : eventFields fs = .error fault) : fault = .notText := by
  induction fs with
  | nil => cases h
  | cons f fs ih =>
    rw [eventFields, bind_eq_error] at h
    rcases h with here | ⟨type, -, h⟩
    · unfold eventType? at here
      grind
    · rcases bind_eq_error.mp h with later | ⟨_, -, made⟩
      · exact ih later
      · cases made

theorem Class.event?_fault {c : Class} {path : Json} {fault : Fault}
    (h : c.event? path = .error fault) : fault = .notText := by
  unfold event? at h
  split at h
  · cases h
  · rcases bind_eq_error.mp h with fields | ⟨_, -, made⟩
    · exact eventFields_fault fields
    · cases made

theorem Source.isStandard_fault {s : Source} {fault : Fault} (h : s.isStandard = .error fault) :
    fault = .notText := by
  unfold isStandard at h
  grind

/-- No fault that stops the visit is about something missing or about a signature. -/
def MissesNothing {σ : Type} (x : σ × Except Fault Unit) : Prop :=
  ∀ fault, x.2 = .error fault → fault.isMissing = false ∧ fault ≠ .unencodable

theorem MissesNothing.andThen {σ : Type} {f : σ → σ × Except Fault Unit}
    {x : σ × Except Fault Unit} (first : MissesNothing x) (second : ∀ s, MissesNothing (f s)) :
    MissesNothing (andThen f x) := by
  obtain ⟨s, outcome⟩ := x
  cases outcome with
  | error fault => exact first
  | ok _ => exact second s

namespace Survey

variable (s : Survey)

theorem visitMethods_missesNothing (owner : Name) (ms : List Method) :
    MissesNothing (s.visitMethods owner ms) := by
  induction ms generalizing s with
  | nil => exact nofun
  | cons m ms ih =>
    rw [visitMethods_cons]
    refine MissesNothing.andThen (fun fault stopped => ?_) ih
    rw [visitMethod_eq, Catalog.visit_outcome] at stopped
    split at stopped
    · cases stopped
      exact ⟨rfl, nofun⟩
    · cases stopped

theorem visitClass_missesNothing (site : Site) (c : Class) (path : Json) :
    MissesNothing (s.visitClass site c path) := by
  intro fault stopped
  unfold visitClass at stopped
  split at stopped
  · cases stopped
    exact ⟨rfl, nofun⟩
  · dsimp only at stopped
    split at stopped
    · rename_i early
      cases stopped
      rw [Class.event?_fault early]
      exact ⟨rfl, nofun⟩
    · exact visitMethods_missesNothing _ _ _ fault stopped

theorem visitClasses_missesNothing (number index : Nat) (path : Json) (cs : List Class) :
    MissesNothing (visitClasses number path s index cs) := by
  induction cs generalizing s index with
  | nil => exact nofun
  | cons c cs ih =>
    rw [visitClasses_cons]
    exact (s.visitClass_missesNothing _ c path).andThen fun next => ih next (index + 1)

theorem visitSource_missesNothing (number : Nat) (source : Source) :
    MissesNothing (s.visitSource number source) := by
  unfold visitSource
  split
  · rename_i early
    intro fault stopped
    cases stopped
    rw [Source.isStandard_fault early]
    exact ⟨rfl, nofun⟩
  · exact nofun
  · exact s.visitClasses_missesNothing number 0 source.path source.classes

theorem visitSources_missesNothing (number : Nat) (sources : List Source) :
    MissesNothing (s.visitSources number sources) := by
  induction sources generalizing s number with
  | nil => exact nofun
  | cons source rest ih =>
    rw [visitSources_cons]
    exact (s.visitSource_missesNothing number source).andThen fun next => ih next (number + 1)

end Survey

/-- Nothing in the sources stops a run before it looks for declarations and types. -/
structure Codebase.CanBeRead (code : Codebase) (program : Option Program) : Prop where
  visitable : ∀ s ∈ code.sources, s.IsVisitable
  paths : program = none → ∀ s ∈ code.sources, s.path.text?.isSome = true

theorem Codebase.canBeRead_of_isTextual {code : Codebase} (textual : code.isTextual = true)
    (program : Option Program) : code.CanBeRead program := by
  have each := List.all_eq_true.mp textual
  exact ⟨fun s listed => Source.isVisitable_of_isTextual (each s listed),
    fun _ s listed => (Bool.and_eq_true_iff.mp (each s listed)).1⟩

theorem Catalog.resolveNames_fault {c : Catalog} {p : Program} {fault : Fault}
    (h : (c.resolveNames p).2 = .error fault) : fault.isMissing = true := by
  rw [← failure?_eq_some, resolveNames, failure?_forM] at h
  obtain ⟨group, -, here⟩ := List.exists_of_findSome?_eq_some h
  dsimp only at here
  split at here <;> cases here
  rfl

/-- The program lacks no record, and the first record that cannot be called has a name that cannot
be encoded. -/
def Codebase.StopsAtName (code : Codebase) (program : Option Program) : Prop :=
  (∀ p, program = some p → ∀ r ∈ code.catalog.ordered, r.isDropped p = false) ∧
    code.catalog.ordered.findSome? Record.callFault? = some .unencodable

/-- What becomes of a run that would come to an unknown type: it is stopped by something that cannot
be read, by a signature that cannot be encoded or by something that is not there. -/
structure Codebase.IsStoppedBy (code : Codebase) (program : Option Program) (fault : Fault) :
    Prop where
  missing : fault.isMissing = true ↔ code.CanBeRead program ∧ ¬code.StopsAtName program
  unencodable : fault = .unencodable ↔ code.CanBeRead program ∧ code.StopsAtName program

namespace Transformer

variable {code : Codebase} {program : Option Program}

/-- Without a program, all declarations are taken to be there. -/
theorem present_iff (walked : code.surveyed.2 = .ok ()) (readable : code.CanBeRead program)
    {p : Program} (chosen : code.programOr program = .ok p) :
    (∀ q, program = some q → ∀ r ∈ code.catalog.ordered, r.isDropped q = false) ↔
      (code.catalog.resolveNames p).2 = .ok () := by
  rw [Catalog.resolveNames_eq_ok]
  cases program with
  | some q =>
    obtain rfl := Except.ok.inj chosen
    exact ⟨fun present => present q rfl, fun present _ same => Option.some.inj same ▸ present⟩
  | none =>
    obtain ⟨own, made, complete⟩ := Codebase.programOr_none walked (readable.paths rfl)
    obtain rfl := Except.ok.inj (made.symm.trans chosen)
    exact iff_of_true nofun fun r member => complete r (Catalog.mem_records_of_mem_ordered member)

theorem run_stops_of_unresolved (t : Transformer) {p : Program} (walked : code.surveyed.2 = .ok ())
    (readable : code.CanBeRead program) (chosen : code.programOr program = .ok p) {s : Spelling}
    (listed : s ∈ code.catalog.spellings) (unresolved : s.isUnresolved = true) :
    ∃ fault, (t.run code program).2.2 = .error fault ∧ code.IsStoppedBy program fault := by
  have survey := Codebase.survey_of_programOr walked chosen
  have present := present_iff walked readable chosen
  cases named : (code.catalog.resolveNames p).2 with
  | error fault =>
    rw [named] at survey present
    have missing := Catalog.resolveNames_fault named
    have dropped : ¬code.StopsAtName program := fun stops => nomatch present.mp stops.1
    refine ⟨fault, run_of_survey_error survey, iff_of_true missing ⟨readable, dropped⟩, ?_⟩
    refine iff_of_false (fun same => ?_) fun both => dropped both.2
    rw [same] at missing
    cases missing
  | ok _ =>
    rw [named] at survey present
    have building := Catalog.failure?_build (Codebase.survey_ok survey).1
    rw [Catalog.fault?_rename] at building
    have found : code.catalog.fault? ≠ none := fun none => by
      have resolved := Spelling.firstFault?_eq_none.mp (Catalog.fault?_eq_none.mp none).1 s listed
      rw [resolved] at unresolved
      cases unresolved
    obtain ⟨fault, first⟩ := Option.ne_none_iff_exists'.mp found
    rw [first, failure?_eq_some] at building
    have stops : code.StopsAtName program ↔ fault = .unencodable := by
      unfold Codebase.StopsAtName
      rw [present, ← Catalog.fault?_eq_unencodable, first]
      simp
    refine ⟨fault, run_of_build_error survey building, ?_⟩
    rcases Catalog.fault?_cases first with ⟨own, -, -, rfl⟩ | rfl
    · exact ⟨iff_of_true rfl ⟨readable, fun name => nomatch stops.mp name⟩,
        iff_of_false nofun fun both => nomatch stops.mp both.2⟩
    · exact ⟨iff_of_false nofun fun both => both.2 (stops.mpr rfl),
        iff_of_true rfl ⟨readable, stops.mpr rfl⟩⟩

/-- A run that would come to an unknown type comes to a fault, perhaps before. -/
theorem run_fails_of_unresolved (t : Transformer) (program : Option Program)
    (unresolved : code.surveyed.2 = .ok () → ∃ s ∈ code.catalog.spellings, s.isUnresolved = true) :
    ∃ fault, (t.run code program).2.2 = .error fault ∧ code.IsStoppedBy program fault := by
  have early {fault : Fault} (unreadable : ¬code.CanBeRead program)
      (other : fault.isMissing = false ∧ fault ≠ .unencodable) : code.IsStoppedBy program fault :=
    ⟨iff_of_false (by simp [other.1]) fun both => unreadable both.1,
      iff_of_false other.2 fun both => unreadable both.1⟩
  cases walked : code.surveyed.2 with
  | error fault =>
    refine ⟨fault, run_of_survey_error (Codebase.survey_of_walk_error walked program), ?_⟩
    refine early (fun readable => ?_) (Survey.visitSources_missesNothing _ _ _ fault walked)
    have ended : code.surveyed.2 = .ok () := Survey.visitSources_completes.mpr readable.visitable
    rw [walked] at ended
    cases ended
  | ok _ =>
    have visitable : ∀ s ∈ code.sources, s.IsVisitable := Survey.visitSources_completes.mp walked
    by_cases paths : program = none → ∀ s ∈ code.sources, s.path.text?.isSome = true
    · have chosen : ∃ p, code.programOr program = .ok p := by
        cases program with
        | some p => exact ⟨p, rfl⟩
        | none => exact Program.nameSources_completes.mpr (paths rfl)
      obtain ⟨p, chosen⟩ := chosen
      obtain ⟨s, listed, unknown⟩ := unresolved walked
      exact t.run_stops_of_unresolved walked ⟨visitable, paths⟩ chosen listed unknown
    · obtain ⟨rfl, missing⟩ := Classical.not_imp.mp paths
      have stopped : code.programOr none = .error .notText :=
        Program.nameSources_of_no_text missing _
      refine ⟨_, run_of_survey_error (Codebase.survey_of_program_error walked stopped), ?_⟩
      exact early (fun readable => paths readable.paths) ⟨rfl, nofun⟩

theorem unknown_type_is_fatal_or_name (t : Transformer) {code : Codebase}
    (tell : KeysTell code.methods) (program : Option Program) {v : Contract}
    (visited : v ∈ code.contracts) {m : Method} (own : m ∈ v.declaration.methods) {d : Decorator}
    (last : (sites "method" m.decorators).getLast? = some d) {i : Nat} {name type : Text}
    (argument : (d.unquoted.map Param.parse)[i]? = some (.named name type))
    (unknown : AbiType.resolve? type = none) :
    (0 < i ∨ (∃ rest, type = "ABIDataTypes." ++ rest) →
      .named name type ∈ (MethodArguments.parse d.unquoted).toParams ∧
      ∃ fault, (t.run code program).2.2 = .error fault ∧
        (fault.isMissing = true ↔ code.CanBeRead program ∧ ¬code.StopsAtName program) ∧
        (fault = .unencodable ↔ code.CanBeRead program ∧ code.StopsAtName program)) ∧
    (i = 0 → (∀ rest, type ≠ "ABIDataTypes." ++ rest) →
      MethodArguments.parse d.unquoted = .renamed name (d.unquoted.map Param.parse).tail) := by
  have shape : (Param.named name type).looksLikeType = true ↔
      ∃ rest, type = "ABIDataTypes." ++ rest := by
    rw [Param.looksLikeType, AbiType.looksLikeType_iff, ← AbiType.isEnumQualified_iff]
    simp [Param.type, unknown]
  constructor
  · intro kept
    have param := MethodArguments.mem_toParams_parse argument (kept.imp_right shape.mpr)
    obtain ⟨fault, failed, stopped⟩ := t.run_fails_of_unresolved program fun walked => by
      obtain ⟨s, listed, text⟩ := Codebase.exists_spelling tell walked visited own last param
      exact ⟨s, listed, by simp [Spelling.isUnresolved, text, Param.type, unknown]⟩
    exact ⟨param, fault, failed, stopped.missing, stopped.unencodable⟩
  · rintro rfl other
    refine MethodArguments.parse_of_name argument ?_
    rw [← Bool.not_eq_true, shape]
    rintro ⟨rest, same⟩
    exact other rest same

/-- One method whose `@method` has these arguments. -/
def remittance (arguments : List Text) : Codebase :=
  .ofDump [
    { path := .str "token.ts", isLibrary := false
      classes := [
        { name := .str "Token", base := .null, decorators := []
          members := [.method (.str "transfer") [⟨.str "method", arguments⟩]] }] }]

def misspelledArgument : Text :=
  "\x7b name: 'to', type: 'adress' \x7d"

theorem unknown_type_of_remittance :
    ∃ fault, (({} : Transformer).run (remittance ["'uint256'", misspelledArgument]) none).2.2 =
      .error fault ∧ fault.isMissing = true := by
  have textual : (remittance ["'uint256'", misspelledArgument]).isTextual = true := by decide
  obtain ⟨v, visited, m, own, last⟩ :
      ∃ v ∈ (remittance ["'uint256'", misspelledArgument]).contracts,
        ∃ m ∈ v.declaration.methods, (sites "method" m.decorators).getLast? =
          some ⟨.str "method", ["'uint256'", misspelledArgument]⟩ := by
    decide +kernel
  have argument : ((⟨.str "method", ["'uint256'", misspelledArgument]⟩ : Decorator).unquoted.map
      Param.parse)[1]? = some (.named "to" "adress") := by
    decide +kernel
  obtain ⟨-, fault, failed, missing, -⟩ := (unknown_type_is_fatal_or_name {}
    (Codebase.isFresh_ofDump _).keysTell none visited own last argument (by decide +kernel)).1
    (Or.inl Nat.one_pos)
  refine ⟨fault, failed, missing.mpr ⟨Codebase.canBeRead_of_isTextual textual none, ?_⟩⟩
  exact fun stops => absurd stops.2 (by decide +kernel)

/-- As the first argument it gives the method its name, and the run comes to its end. -/
theorem unknown_type_is_taken_for_name :
    (∃ v ∈ (remittance [misspelledArgument, "'uint256'"]).contracts,
      ∃ m ∈ v.declaration.methods,
        (sites "method" m.decorators).getLast?.map (fun d => d.unquoted.map Param.parse) =
          some [.named "to" "adress", .bare "uint256"]) ∧
    AbiType.resolve? "adress" = none ∧
    ∃ output files,
      (({} : Transformer).run (remittance [misspelledArgument, "'uint256'"]) none).2.2 =
        .ok (output, files) := by
  have textual : (remittance [misspelledArgument, "'uint256'"]).isTextual = true := by decide
  exact ⟨by decide +kernel, by decide +kernel, run_completes {} textual (by decide +kernel)⟩

end Transformer

end ContractAbi
