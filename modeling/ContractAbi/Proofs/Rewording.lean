import ContractAbi.Proofs.Running

/-!
# Rewording

A rewording writes parameters anew and keeps their types. Looking up names and settling records
commute with it. Where it keeps names too, the manifests of a reworded catalog are those of the
catalog itself.
-/

namespace ContractAbi

/-! ### Spellings -/

namespace AbiType

/-- The canonical spelling of a type. A spelling that names no type is left as it is. -/
def standardSpelling (spelling : Text) : Text :=
  (resolveCanonical? spelling).getD spelling

theorem resolve?_canonical (t : AbiType) : resolve? t.canonical = some t := by
  cases t <;> decide

theorem standardSpelling_of_some {spelling : Text} {t : AbiType}
    (named : resolve? spelling = some t) : standardSpelling spelling = t.canonical := by
  simp [standardSpelling, resolveCanonical?, named]

theorem standardSpelling_of_none {spelling : Text} (unnamed : resolve? spelling = none) :
    standardSpelling spelling = spelling := by
  simp [standardSpelling, resolveCanonical?, unnamed]

theorem resolve?_standardSpelling (spelling : Text) :
    resolve? (standardSpelling spelling) = resolve? spelling := by
  cases named : resolve? spelling with
  | none => rw [standardSpelling_of_none named, named]
  | some t => rw [standardSpelling_of_some named, resolve?_canonical]

end AbiType

open AbiType (standardSpelling)

theorem resolveType_standardSpelling (kind : SpellingKind) (owner member : Name)
    (spelling : Text) :
    resolveType kind owner member (standardSpelling spelling) =
      resolveType kind owner member spelling := by
  unfold resolveType
  rw [AbiType.resolve?_standardSpelling]
  cases named : AbiType.resolve? spelling with
  | none => rw [AbiType.standardSpelling_of_none named]
  | some t => rfl

namespace Spelling

def standard (s : Spelling) : Spelling :=
  { s with text := standardSpelling s.text }

/-- Of spellings that name no type, the first one is the same and is spelled the same. -/
theorem firstFault?_standard (spellings : List Spelling) :
    firstFault? (spellings.map standard) = firstFault? spellings := by
  rw [firstFault?_map]
  induction spellings with
  | nil => rfl
  | cons s rest ih =>
    rw [firstFault?_cons, List.findSome?_cons, ih]
    simp only [standard, resolveType_standardSpelling]
    cases failure? (resolveType s.kind s.owner s.member s.text) <;> rfl

end Spelling

/-- A way of writing parameters in which every type has its canonical spelling. -/
structure Rewording where
  param : Param → Param
  type_param : ∀ p, (param p).type = standardSpelling p.type

namespace Rewording

/-- Names stay as they are. -/
def canonical : Rewording where
  param
    | .bare spelling => .bare (standardSpelling spelling)
    | .named name type => .named name (standardSpelling type)
  type_param p := by cases p <;> rfl

/-- A parameter that has a type loses its name. -/
def nameless : Rewording where
  param p := if (AbiType.resolve? p.type).isSome then .bare (standardSpelling p.type) else p
  type_param p := by
    split
    · rfl
    · rename_i unnamed
      exact (AbiType.standardSpelling_of_none (by simpa using unnamed)).symm

theorem name?_canonical (p : Param) : (canonical.param p).name? = p.name? := by
  cases p <;> rfl

end Rewording

variable (w : Rewording)

/-! ### Records -/

namespace Record

def reword (r : Record) : Record :=
  { r with params := r.params.map w.param, returns := r.returns.map w.param }

variable (r : Record)

@[simp] theorem reword_handle : (r.reword w).handle = r.handle := rfl
@[simp] theorem reword_owner : (r.reword w).owner = r.owner := rfl
@[simp] theorem reword_call : (r.reword w).call = r.call := rfl

theorem resolveParam_reword (p : Param) :
    (r.reword w).resolveParam (w.param p) = r.resolveParam p := by
  unfold resolveParam
  rw [w.type_param, resolveType_standardSpelling]
  rfl

theorem resolveCall_reword : (r.reword w).resolveCall = r.resolveCall := by
  have types : (r.params.map w.param).mapM (r.reword w).resolveParam =
      r.params.mapM r.resolveParam := by
    rw [List.mapM_map]
    exact congrArg (r.params.mapM ·) (funext (r.resolveParam_reword w))
  unfold resolveCall
  cases called : r.call with
  | some call => simp [called]
  | none => simp only [reword_call, called]; exact congrArg (· >>= _) types

theorem settle_reword : (r.reword w).settle = r.settle.reword w := by
  unfold settle
  rw [resolveCall_reword]
  cases r.resolveCall <;> rfl

theorem resolveName_reword (p : Program) :
    (r.reword w).resolveName p = (r.resolveName p).reword w := by
  unfold resolveName
  rw [reword_handle]
  cases p.nameOf? (.int r.handle) <;> rfl

theorem spellings_reword (ps : List Param) :
    (ps.map w.param).map (r.reword w).spelling = (ps.map r.spelling).map Spelling.standard := by
  rw [List.map_map, List.map_map]
  refine List.map_congr_left fun p _ => ?_
  simp only [Function.comp, spelling, w.type_param]
  rfl

theorem resolveParams_canonical (stem : Text) (number : Nat) (ps : List Param) :
    (r.reword .canonical).resolveParams stem number (ps.map Rewording.canonical.param) =
      r.resolveParams stem number ps := by
  refine resolveParams_congr (List.forall₂_map_left_iff.mpr (List.forall₂_same.mpr ?_)) stem number
  intro p _
  exact ⟨r.resolveParam_reword .canonical p, Rewording.name?_canonical p⟩

theorem function_canonical : (r.reword .canonical).function = r.function :=
  function_congr rfl (r.resolveCall_reword .canonical) (r.resolveParams_canonical "param" 1 r.params)
    (r.resolveParams_canonical "returnVal" 1 r.returns)

end Record

/-! ### Events -/

namespace Event

def standard (e : Event) : Event :=
  { e with fields := e.fields.map fun (field, spelling) => (field, standardSpelling spelling) }

theorem spellings_standard (e : Event) :
    e.standard.spellings = e.spellings.map Spelling.standard := by
  simp [spellings, standard, Spelling.standard]

theorem entry_standard (e : Event) : e.standard.entry = e.entry := by
  unfold entry standard
  rw [List.mapM_map]
  simp only [Function.comp_def, resolveType_standardSpelling]

end Event

/-! ### Catalogs -/

namespace Catalog

/-- The catalog with its records reworded and the canonical spellings in its events. -/
def reword (c : Catalog) : Catalog :=
  { c with records := c.records.map (Record.reword w), events := c.events.map Event.standard }

variable (c : Catalog)

theorem byClass_reword :
    (c.reword w).byClass = c.byClass.map fun (owner, records) =>
      (owner, records.map (Record.reword w)) :=
  byClass_mapRecords (Record.reword_owner w)

theorem ordered_reword : (c.reword w).ordered = c.ordered.map (Record.reword w) :=
  ordered_mapRecords (Record.reword_owner w)

theorem fault?_reword : (c.reword w).fault? = c.fault? := by
  have calls (r : Record) : (r.reword w).callFault? = r.callFault? := by
    have params : (r.reword w).paramSpellings = r.paramSpellings.map Spelling.standard :=
      r.spellings_reword w r.params
    unfold Record.callFault?
    rw [params, Spelling.firstFault?_standard]
    rfl
  have returns (r : Record) :
      (r.reword w).returnSpellings = r.returnSpellings.map Spelling.standard :=
    r.spellings_reword w r.returns
  have later : (c.reword w).laterSpellings = c.laterSpellings.map Spelling.standard := by
    unfold laterSpellings
    rw [ordered_reword]
    simp only [List.map_append, List.map_flatMap, List.flatMap_map, returns, reword,
      Event.spellings_standard]
  unfold fault?
  rw [later, Spelling.firstFault?_standard, ordered_reword, List.findSome?_map]
  simp only [Function.comp_def, calls]

/-- Changing some of the records and rewording them come to the same in either order. -/
theorem updateThose_reword {f : Record → Record} (these : List Record)
    (commutes : ∀ r : Record, f (r.reword w) = (f r).reword w) :
    (c.reword w).updateThose (these.map (Record.reword w)) f = (c.updateThose these f).reword w := by
  have handles : (these.map (Record.reword w)).map (·.handle) = these.map (·.handle) := by
    rw [List.map_map]
    rfl
  unfold updateThose reword
  simp only [handles, List.map_map, Catalog.mk.injEq, and_true]
  refine List.map_congr_left fun r _ => ?_
  change (if (r.reword w).handle ∈ these.map (·.handle) then f (r.reword w) else r.reword w) =
    Record.reword w (if r.handle ∈ these.map (·.handle) then f r else r)
  rw [apply_ite (Record.reword w), ← commutes]
  rfl

theorem settled_reword : (c.reword w).settled = c.settled.reword w := by
  unfold settled
  rw [ordered_reword]
  exact c.updateThose_reword w c.ordered fun r => r.settle_reword w

/-! ### Looking up names -/

theorem reached_map {fails : Record → Bool} {g : Record → Record} (same : ∀ r, fails (g r) = fails r)
    (rs : List Record) : reached fails (rs.map g) = (reached fails rs).map g := by
  induction rs with
  | nil => rfl
  | cons r rs ih =>
    rw [List.map_cons, reached, reached, same]
    split
    · rfl
    · rw [ih, List.map_cons]

theorem resolveNames_reword (p : Program) :
    (c.reword w).resolveNames p = ((c.resolveNames p).1.reword w, (c.resolveNames p).2) := by
  have dropped (r : Record) : (r.reword w).isDropped p = r.isDropped p := rfl
  unfold resolveNames
  refine Prod.ext ?_ ?_
  · dsimp only
    rw [ordered_reword, reached_map dropped]
    exact c.updateThose_reword w _ fun r => r.resolveName_reword w p
  · have found (records : List Record) :
        (records.map (Record.reword w)).find? (Record.isDropped p) =
          (records.find? (Record.isDropped p)).map (Record.reword w) := by
      rw [List.find?_map]
      rfl
    dsimp only
    rw [byClass_reword, List.forM_eq_forM, List.forM_map]
    refine congrArg (forM c.byClass) (funext fun (owner, records) => ?_)
    dsimp only
    rw [found]
    cases records.find? (Record.isDropped p) <;> rfl

/-! ### Manifests -/

theorem mapM_function_canonical (records : List Record) :
    (records.map (Record.reword .canonical)).mapM Record.function = records.mapM Record.function := by
  rw [List.mapM_map]
  exact congrArg (records.mapM ·) (funext Record.function_canonical)

theorem mapM_entry_standard (events : List Event) :
    (events.map Event.standard).mapM Event.entry = events.mapM Event.entry := by
  rw [List.mapM_map]
  exact congrArg (events.mapM ·) (funext Event.entry_standard)

theorem unitAbi_canonical : (c.reword .canonical).unitAbi = c.unitAbi := by
  unfold unitAbi
  rw [ordered_reword, mapM_function_canonical]
  simp only [reword, mapM_entry_standard]

theorem event?_reword (name : Name) :
    (c.reword w).event? name = (c.event? name).map Event.standard := by
  unfold event? reword
  rw [List.find?_map]
  rfl

theorem classAbi_canonical (records : List Record) :
    (c.reword .canonical).classAbi (records.map (Record.reword .canonical)) = c.classAbi records := by
  have emits : (records.map (Record.reword .canonical)).flatMap (·.emits) =
      records.flatMap (·.emits) := by
    rw [List.flatMap_map]
    rfl
  have events (names : List Text) :
      names.filterMap (fun e => (c.reword .canonical).event? (.str e)) =
        (names.filterMap fun e => c.event? (.str e)).map Event.standard := by
    simp only [event?_reword, List.map_filterMap]
  unfold classAbi
  rw [mapM_function_canonical, emits]
  dsimp only
  rw [events, mapM_entry_standard]

theorem classAbis_canonical : (c.reword .canonical).classAbis = c.classAbis := by
  unfold classAbis
  rw [byClass_reword, List.mapM_map]
  simp only [Function.comp_def, classAbi_canonical]

/-! ### Routines -/

theorem guards_reword (records : List Record) :
    Dispatch.guards (records.map (Record.reword w)) = Dispatch.guards records := by
  unfold Dispatch.guards
  rw [List.filterMap_map]
  rfl

theorem routines_reword (indent : Text) :
    ((c.reword w).byClass.map fun (owner, records) =>
        (owner, Dispatch.routineText indent (Dispatch.guards records))) =
      c.byClass.map fun (owner, records) =>
        (owner, Dispatch.routineText indent (Dispatch.guards records)) := by
  rw [byClass_reword, List.map_map]
  refine List.map_congr_left fun (owner, records) _ => ?_
  dsimp only [Function.comp]
  rw [guards_reword]

theorem calls_reword : (c.reword w).records.map (fun r => (r.handle, r.call)) =
    c.records.map fun r => (r.handle, r.call) := by
  simp [reword]

end Catalog

/-! ### Runs -/

namespace Transformer

variable {w} {t : Transformer} {code code' : Codebase} {program : Option Program}

/-- Two runs that survey the same up to a rewording either stop at the same fault, or both come to
their files with the same routines and the same catalog up to that rewording. -/
theorem stages_of_reworded
    (same : (code.survey program).2.map (Catalog.reword w) =
      (code'.survey program).2.map (Catalog.reword w)) :
    (∃ fault, (t.run code program).2.2 = .error fault ∧ (t.run code' program).2.2 = .error fault ∧
      (t.run code program).1.last = t.last ∧ (t.run code' program).1.last = t.last) ∨
    ∃ c c' s s' output output', Stages t code program c s output ∧
      Stages t code' program c' s' output' ∧
      output.catalog.reword w = output'.catalog.reword w ∧
      output.routines = output'.routines ∧ s.layout = s'.layout := by
  rcases map_eq_map_cases same with
    ⟨fault, surveyed, surveyed'⟩ | ⟨c, c', surveyed, surveyed', reworded⟩
  · refine Or.inl ⟨fault, ?_⟩
    rw [run_eq_of_survey_error surveyed, run_eq_of_survey_error surveyed']
    exact ⟨rfl, rfl, rfl, rfl⟩
  · have building : failure? c.build = failure? c'.build := by
      rw [Catalog.failure?_build (Codebase.survey_ok surveyed).1,
        Catalog.failure?_build (Codebase.survey_ok surveyed').1, ← c.fault?_reword w, reworded,
        c'.fault?_reword w]
    cases built : c.build with
    | error fault =>
      rw [built] at building
      have failed := failure?_eq_some.mp building.symm
      refine Or.inl ⟨fault, ?_⟩
      rw [run_eq_of_build_error surveyed built, run_eq_of_build_error surveyed' failed]
      exact ⟨rfl, rfl, rfl, rfl⟩
    | ok result =>
      rw [built] at building
      obtain ⟨result', built'⟩ := failure?_eq_none.mp building.symm
      obtain ⟨s, output, stages, -⟩ := stages_of_build_ok (t := t) surveyed built
      obtain ⟨s', output', stages', -⟩ := stages_of_build_ok (t := t) surveyed' built'
      have catalogs : output.catalog.reword w = output'.catalog.reword w := by
        rw [(Catalog.build_ok stages.unsettled stages.built).1,
          (Catalog.build_ok stages'.unsettled stages'.built).1, ← Catalog.settled_reword,
          ← Catalog.settled_reword, reworded]
      have empty : output.catalog.byClass = [] ↔ output'.catalog.byClass = [] := by
        have groups := congrArg Catalog.byClass catalogs
        rw [Catalog.byClass_reword, Catalog.byClass_reword] at groups
        rw [← List.map_eq_nil_iff, groups, List.map_eq_nil_iff]
      refine Or.inr ⟨c, c', s, s', output, output', stages, stages', catalogs, ?_, ?_⟩
      · rw [stages.routines, stages'.routines, ← output.catalog.routines_reword w,
          ← output'.catalog.routines_reword w, catalogs]
      · rw [stages.layout, stages'.layout]
        simp only [empty]

end Transformer

end ContractAbi
