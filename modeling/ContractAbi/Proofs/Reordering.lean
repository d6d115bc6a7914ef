import ContractAbi.Proofs.Files
import ContractAbi.Proofs.Loading
import Mathlib.Data.List.Perm.Basic

/-!
# The order of sources and classes

Where no two contracts and no two events share a name, the records of a class are those of one
contract and every event is the only one of its name. So the order of the sources, and of the classes
in them, decides only in which order things are written: what is written for a class stays the same.
It does decide which of several classes has the last word about a file that they share.
-/

namespace ContractAbi

/-! ### Lists in another order -/

section Order

variable {α β ε κ : Type} [DecidableEq κ]

theorem filter_eq_of_perm {kind : α → κ} {xs ys : List α} (perm : ys.Perm xs)
    (apart : (xs.map kind).Nodup) (k : κ) :
    ys.filter (kind · = k) = xs.filter (kind · = k) := by
  have same := perm.filter (kind · = k)
  by_cases known : ∃ x ∈ xs, kind x = k
  · obtain ⟨x, member, rfl⟩ := known
    rw [filter_eq_singleton apart member] at same ⊢
    exact List.perm_singleton.mp same
  · have none : xs.filter (kind · = k) = [] := List.filter_eq_nil_iff.mpr
      fun x member here => known ⟨x, member, of_decide_eq_true here⟩
    rw [none] at same ⊢
    exact List.perm_nil.mp same

theorem find?_eq_of_perm {kind : α → κ} {xs ys : List α} (perm : ys.Perm xs)
    (apart : (xs.map kind).Nodup) (k : κ) : ys.find? (kind · = k) = xs.find? (kind · = k) := by
  rw [← List.head?_filter, ← List.head?_filter, filter_eq_of_perm perm apart]

theorem firstOfEach_perm {kind : α → κ} {xs ys : List α} (perm : ys.Perm xs)
    (apart : ∀ x ∈ xs, ∀ y ∈ xs, kind x = kind y → x = y) :
    (firstOfEach kind ys).Perm (firstOfEach kind xs) := by
  have nodup (zs : List α) : (firstOfEach kind zs).Nodup := by
    refine List.Nodup.of_map kind ?_
    rw [map_firstOfEach]
    exact nodup_distinct _
  have mem (zs : List α) (known : ∀ z ∈ zs, z ∈ xs) (z : α) : z ∈ firstOfEach kind zs ↔ z ∈ zs := by
    refine ⟨mem_of_mem_firstOfEach, fun member => ?_⟩
    have listed : kind z ∈ (firstOfEach kind zs).map kind := by
      rw [map_firstOfEach, mem_distinct]
      exact List.mem_map_of_mem member
    obtain ⟨first, found, same⟩ := List.mem_map.mp listed
    rwa [← apart first (known first (mem_of_mem_firstOfEach found)) z (known z member) same]
  rw [List.perm_ext_iff_of_nodup (nodup ys) (nodup xs)]
  intro z
  rw [mem ys (fun z => perm.mem_iff.mp), mem xs fun z => id, perm.mem_iff]

theorem mapM_perm {f : α → Except ε β} {xs xs' : List α} {ys : List β} (perm : xs'.Perm xs)
    (made : xs.mapM f = .ok ys) : ∃ ys', xs'.mapM f = .ok ys' ∧ ys'.Perm ys := by
  obtain ⟨ys', each, same⟩ := List.perm_comp_forall₂ perm (mapM_eq_ok.mp made)
  exact ⟨ys', mapM_eq_ok.mpr each, same⟩

theorem filterMap_eq_of_forall₂ {γ : Type} {f : α → Option γ} {g : β → γ} {p : α → Bool}
    {xs : List α} {ys : List β} (none : ∀ x, p x = false → f x = none)
    (each : List.Forall₂ (fun x y => f x = some (g y)) (xs.filter p) ys) :
    xs.filterMap f = ys.map g := by
  induction xs generalizing ys with
  | nil =>
    cases each
    rfl
  | cons x xs ih =>
    cases passes : p x with
    | false =>
      rw [List.filter_cons_of_neg (by simp [passes])] at each
      rw [List.filterMap_cons_none (none x passes), ih each]
    | true =>
      rw [List.filter_cons_of_pos passes] at each
      obtain ⟨y, ys, first, rest, rfl⟩ := List.forall₂_cons_left_iff.mp each
      rw [List.filterMap_cons_some first, ih rest, List.map_cons]

end Order

/-! ### Catalogs in another order -/

/-- The catalogs have the same classes, with the same records each, and the same events. Only the
order of classes and events may differ. -/
structure Catalog.Reorders (c c' : Catalog) : Prop where
  owners : c'.owners.Perm c.owners
  recordsOf : ∀ owner, c'.recordsOf owner = c.recordsOf owner
  events : c'.events.Perm c.events
  event? : ∀ name, c'.event? name = c.event? name

namespace Catalog.Reorders

variable {c c' : Catalog} (reorders : c.Reorders c')
include reorders

theorem byClass : c'.byClass.Perm c.byClass := by
  unfold Catalog.byClass
  simp only [reorders.recordsOf]
  exact reorders.owners.map _

theorem ordered : c'.ordered.Perm c.ordered :=
  reorders.byClass.flatMap_right _

theorem spellings : c'.spellings.Perm c.spellings :=
  (reorders.ordered.flatMap_right _).append
    ((reorders.ordered.flatMap_right _).append (reorders.events.flatMap_right _))

/-- The spellings and the names are the same in another order, so none of them is at fault. -/
theorem faultless (before : c.fault? = none) : c'.fault? = none := by
  rw [fault?_eq_none, Spelling.firstFault?_eq_none] at before ⊢
  exact ⟨fun spelling member => before.1 spelling (reorders.spellings.mem_iff.mp member),
    fun r member => before.2 r (reorders.ordered.mem_iff.mp member)⟩

theorem classAbis {abis : List (Name × Abi)} (made : c.classAbis = .ok abis) :
    ∃ abis', c'.classAbis = .ok abis' ∧ abis'.Perm abis := by
  have same : c'.classAbi = c.classAbi := by
    funext records
    unfold classAbi
    simp only [reorders.event?]
  unfold Catalog.classAbis at made ⊢
  rw [same]
  exact mapM_perm reorders.byClass made

theorem mapRecords {g : Record → Record} (owner : ∀ r, (g r).owner = r.owner) :
    (c.mapRecords g).Reorders (c'.mapRecords g) where
  owners := by
    rw [owners_mapRecords owner, owners_mapRecords owner]
    exact reorders.owners
  recordsOf name := by
    rw [recordsOf_mapRecords owner, recordsOf_mapRecords owner, reorders.recordsOf]
  events := reorders.events
  event? := reorders.event?

end Catalog.Reorders

/-! ### Outlines -/

/-- The records of the annotated methods, before any has a handle. -/
def Class.records (c : Class) : List Record :=
  (c.methods.filter Method.isAnnotated).map fun m => .ofMethod c.name m 0

theorem Class.records_unkeyed (c : Class) : c.unkeyed.records = c.records := by
  unfold records
  rw [methods_unkeyed, List.filter_map, List.map_map]
  rfl

theorem Class.owner_of_mem_records {c : Class} {r : Record} (member : r ∈ c.records) :
    r.owner = c.name := by
  obtain ⟨m, -, rfl⟩ := List.mem_map.mp member
  rfl

theorem Class.eventName?_of_event? {c : Class} {path : Json} {e : Event}
    (declared : c.event? path = .ok (some e)) : c.eventName? = some e.name := by
  unfold event? at declared
  cases named : c.eventName? with
  | none => simp [named] at declared
  | some name =>
    rw [named] at declared
    obtain ⟨fields, -, made⟩ := bind_ok declared
    rw [← Option.some.inj (Except.ok.inj made)]

/-- What matters of a contract apart from its place: the path and the class without keys. -/
def Contract.outline (v : Contract) : Json × Class :=
  (v.path, v.declaration.unkeyed)

def Source.outlines (s : Source) : List (Json × Class) :=
  if s.isPassedOver then [] else s.classes.map fun c => (s.path, c.unkeyed)

namespace Codebase

def outlines (code : Codebase) : List (Json × Class) :=
  code.contracts.map Contract.outline

theorem outlines_eq (code : Codebase) : code.outlines = code.sources.flatMap Source.outlines := by
  have source (p : Source × Nat) : (p.1.contracts p.2).map Contract.outline = p.1.outlines := by
    rw [Source.contracts_eq, Source.outlines]
    split
    · rfl
    · have classes := congrArg (List.map fun c => (p.1.path, Class.unkeyed c))
        (List.zipIdx_map_fst 0 p.1.classes)
      rw [List.map_map] at classes ⊢
      exact classes
  have sources := congrArg (List.flatMap Source.outlines) (List.zipIdx_map_fst 0 code.sources)
  rw [List.flatMap_map] at sources
  unfold outlines contracts
  rw [List.map_flatMap, ← sources]
  exact List.flatMap_congr fun p _ => source p

theorem outlines_ofDump (dump : List Dump.Source) :
    (ofDump dump).outlines = dump.flatMap (·.loaded.outlines) := by
  have unkeyed (s : Source) : s.unkeyed.outlines = s.outlines := by
    have passed : s.unkeyed.isPassedOver = s.isPassedOver := rfl
    unfold Source.outlines
    rw [passed]
    simp [Source.unkeyed, Function.comp_def, Class.unkeyed_unkeyed]
  have sources := congrArg (List.flatMap Source.outlines) (unkeyed_sources_ofDump dump)
  rw [List.flatMap_map, List.flatMap_map] at sources
  rw [outlines_eq, ← sources]
  exact List.flatMap_congr fun s _ => (unkeyed s).symm

variable {code : Codebase}

theorem published_records (fresh : code.IsFresh) (walked : code.surveyed.2 = .ok ()) :
    code.catalog.published.records = code.outlines.flatMap (·.2.records) := by
  have contract (v : Contract) : v.annotated.map (fun p => Record.ofMethod p.1 p.2 0) =
      v.outline.2.records := by
    rw [Contract.outline, Class.records_unkeyed, Contract.annotated_eq, List.map_map]
    rfl
  change code.catalog.records.map Record.unplaced = _
  rw [unplaced_records fresh walked, annotated, List.map_flatMap, outlines, List.flatMap_map]
  exact List.flatMap_congr fun v _ => contract v

theorem catalog_events (walked : code.surveyed.2 = .ok ()) :
    code.catalog.events = code.outlines.filterMap fun o => (o.2.event? o.1).toOption.join := by
  have unnamed (v : Contract) (bare : v.declaration.eventName?.isSome = false) :
      (v.declaration.event? v.path).toOption.join = none := by
    have none : v.declaration.eventName? = none := by simpa using bare
    simp [Class.event?, none, Except.toOption]
  have made := filterMap_eq_of_forall₂ (g := id) unnamed
    ((code.surveyed_sees walked).events.imp fun v e event => by simp [event, Except.toOption])
  rw [List.map_id] at made
  rw [outlines, List.filterMap_map]
  refine made.symm.trans (List.filterMap_congr fun v _ => ?_)
  simp [Contract.outline, Class.event?_unkeyed]

theorem catalog_event_names (walked : code.surveyed.2 = .ok ()) :
    code.catalog.events.map (·.name.key) =
      code.outlines.filterMap fun o => o.2.eventName?.map Json.key := by
  have unnamed (v : Contract) (bare : v.declaration.eventName?.isSome = false) :
      v.declaration.eventName?.map Json.key = none := by
    simpa using bare
  have made := filterMap_eq_of_forall₂ (g := fun e : Event => e.name.key) unnamed
    ((code.surveyed_sees walked).events.imp fun v e event => by
      simp [Class.eventName?_of_event? event])
  rw [outlines, List.filterMap_map]
  exact made.symm

theorem outlines_names (code : Codebase) :
    code.outlines.map (·.2.name.key) = code.contracts.map (·.name.key) := by
  unfold outlines
  rw [List.map_map]
  rfl

theorem outlines_eventNames (code : Codebase) :
    code.outlines.filterMap (fun o => o.2.eventName?.map Json.key) =
      code.contracts.filterMap fun v => v.declaration.eventName?.map Json.key := by
  unfold outlines
  rw [List.filterMap_map]
  rfl

/-- Contracts in another order give a catalog in another order. -/
theorem reorders_published {code' : Codebase} (fresh : code.IsFresh) (fresh' : code'.IsFresh)
    (walked : code.surveyed.2 = .ok ()) (walked' : code'.surveyed.2 = .ok ())
    (perm : code'.outlines.Perm code.outlines)
    (names : (code.contracts.map (·.name.key)).Nodup)
    (events : (code.contracts.filterMap fun v => v.declaration.eventName?.map Json.key).Nodup) :
    code.catalog.published.Reorders code'.catalog.published := by
  rw [← outlines_names] at names
  rw [← outlines_eventNames, ← catalog_event_names walked] at events
  have listed : code'.catalog.events.Perm code.catalog.events := by
    rw [catalog_events walked, catalog_events walked']
    exact perm.filterMap _
  refine ⟨?_, fun owner => ?_, listed, fun name => find?_eq_of_perm listed events name.key⟩
  · -- Records whose owners are known by the same are of one contract.
    refine firstOfEach_perm (List.Perm.filter _ (List.Perm.map _ ?_)) ?_
    · rw [published_records fresh walked, published_records fresh' walked']
      exact perm.flatMap_right _
    · intro x inside y inside' same
      have named (z : Name) (member : z ∈ (code.catalog.published.records.map (·.owner)).filter
          (!·.isComposite)) : ∃ o ∈ code.outlines, o.2.name = z := by
        obtain ⟨r, recorded, rfl⟩ := List.mem_map.mp (List.mem_filter.mp member).1
        rw [published_records fresh walked] at recorded
        obtain ⟨o, declared, own⟩ := List.mem_flatMap.mp recorded
        exact ⟨o, declared, (Class.owner_of_mem_records own).symm⟩
      obtain ⟨o, declared, rfl⟩ := named x inside
      obtain ⟨o', declared', rfl⟩ := named y inside'
      rw [List.inj_on_of_nodup_map names declared declared' same]
  · have own : ∀ o : Json × Class, ∀ r ∈ o.2.records, r.owner.key = o.2.name.key :=
      fun o r member => congrArg Json.key (Class.owner_of_mem_records member)
    unfold Catalog.recordsOf
    rw [published_records fresh walked, published_records fresh' walked',
      filter_flatMap_of_kind own, filter_flatMap_of_kind own, filter_eq_of_perm perm names]

end Codebase

/-! ### Dumps in another order -/

namespace Dump

structure Source.Reorders (s s' : Source) : Prop where
  path : s'.path = s.path
  isLibrary : s'.isLibrary = s.isLibrary
  classes : s'.classes.Perm s.classes

theorem Source.Reorders.symm {s s' : Source} (reorders : s.Reorders s') : s'.Reorders s :=
  ⟨reorders.path.symm, reorders.isLibrary.symm, reorders.classes.symm⟩

/-- The second dump has the sources of the first in some order, and each source has its classes in
some order. -/
def Reorders (dump dump' : List Source) : Prop :=
  ∃ middle, List.Forall₂ Source.Reorders dump middle ∧ dump'.Perm middle

namespace Reorders

variable {dump dump' : List Source} (reorders : Reorders dump dump')
include reorders

theorem symm : Reorders dump' dump := by
  obtain ⟨middle, each, perm⟩ := reorders
  obtain ⟨middle', each', perm'⟩ := List.perm_comp_forall₂ perm (each.flip)
  exact ⟨middle', each'.imp fun _ _ => Source.Reorders.symm, perm'.symm⟩

theorem exists_source {s' : Source} (member : s' ∈ dump') : ∃ s ∈ dump, s.Reorders s' := by
  obtain ⟨middle, each, perm⟩ := reorders
  exact exists_of_forall₂ each (perm.mem_iff.mp member)

end Reorders

end Dump

namespace Dump.Source.Reorders

variable {s s' : Dump.Source} (reorders : s.Reorders s')
include reorders

theorem isStandard_eq : s'.loaded.isStandard = s.loaded.isStandard := by
  unfold Source.isStandard loaded
  rw [reorders.path, reorders.isLibrary]

theorem outlines : s'.loaded.outlines.Perm s.loaded.outlines := by
  have passed : s'.loaded.isPassedOver = s.loaded.isPassedOver := by
    unfold Source.isPassedOver
    rw [reorders.isStandard_eq]
  have path : s'.loaded.path = s.loaded.path := reorders.path
  unfold Source.outlines
  rw [passed, path]
  split
  · exact .nil
  · exact (reorders.classes.map _).map _

theorem isVisitable (visitable : s.loaded.IsVisitable) : s'.loaded.IsVisitable := by
  have path : s'.loaded.path = s.loaded.path := reorders.path
  unfold ContractAbi.Source.IsVisitable
  rw [reorders.isStandard_eq, path]
  refine visitable.imp id fun h => ⟨h.1, fun c declared => h.2 c ?_⟩
  exact (reorders.classes.map Dump.Class.loaded).mem_iff.mp declared

end Dump.Source.Reorders

namespace Codebase

variable {dump dump' : List Dump.Source} (reorders : Dump.Reorders dump dump')
include reorders

theorem surveyed_of_reorders (walked : (ofDump dump).surveyed.2 = .ok ()) :
    (ofDump dump').surveyed.2 = .ok () := by
  rw [surveyed_ofDump] at walked ⊢
  intro s' member
  obtain ⟨s, declared, same⟩ := reorders.exists_source member
  exact same.isVisitable (walked s declared)

theorem texts_of_reorders (texts : ∀ s ∈ (ofDump dump).sources, s.path.text?.isSome = true) :
    ∀ s ∈ (ofDump dump').sources, s.path.text?.isSome = true := by
  have loaded := forall_sources_ofDump (P := fun s => s.path.text?.isSome = true).mp texts
  refine forall_sources_ofDump (P := fun s => s.path.text?.isSome = true).mpr fun s' member => ?_
  obtain ⟨s, declared, same⟩ := reorders.exists_source member
  have path : s'.loaded.path = s.loaded.path := same.path
  rw [path]
  exact loaded s declared

theorem outlines_of_reorders : (ofDump dump').outlines.Perm (ofDump dump).outlines := by
  obtain ⟨middle, each, perm⟩ := reorders
  rw [outlines_ofDump, outlines_ofDump]
  refine (perm.flatMap_right _).trans ?_
  clear perm
  induction each with
  | nil => exact .nil
  | cons first rest ih => exact first.outlines.append ih

end Codebase

/-! ### Runs -/

namespace Transformer

variable {t : Transformer} {code code' : Codebase} {program : Option Program} {c c' : Catalog}
  {s s' : Injector} {output output' : Output} {files files' : Table Text Text}

theorem Stages.reorders (stages : Stages t code none c s output)
    (stages' : Stages t code' none c' s' output') (fresh : code.IsFresh) (fresh' : code'.IsFresh)
    (catalogs : code.catalog.published.Reorders code'.catalog.published) :
    output'.routines.Perm output.routines ∧ output'.classAbis.Perm output.classAbis := by
  have same : output.catalog.published.Reorders output'.catalog.published := by
    rw [stages.published_eq fresh, stages'.published_eq fresh']
    exact catalogs.mapRecords Record.settle_owner
  refine ⟨?_, ?_⟩
  · rw [stages.routines_published, stages'.routines_published]
    exact same.byClass.map _
  · obtain ⟨-, -, manifests, -⟩ := Catalog.build_ok stages.unsettled stages.built
    obtain ⟨-, -, manifests', -⟩ := Catalog.build_ok stages'.unsettled stages'.built
    rw [← Catalog.classAbis_published] at manifests manifests'
    obtain ⟨abis, made, perm⟩ := same.classAbis manifests
    rwa [Except.ok.inj (made.symm.trans manifests')] at perm

/-- If a run over a dump comes to its end, so does one over the dump in another order. -/
theorem run_of_reorders {dump dump' : List Dump.Source} (reorders : Dump.Reorders dump dump')
    (names : ((Codebase.ofDump dump).contracts.map (·.name.key)).Nodup)
    (events : ((Codebase.ofDump dump).contracts.filterMap fun v =>
      v.declaration.eventName?.map Json.key).Nodup)
    (h : (t.run (.ofDump dump) none).2.2 = .ok (output, files)) :
    ∃ output' files', (t.run (.ofDump dump') none).2.2 = .ok (output', files') ∧
      output'.routines.Perm output.routines ∧ output'.classAbis.Perm output.classAbis := by
  have fresh := Codebase.isFresh_ofDump dump
  have fresh' := Codebase.isFresh_ofDump dump'
  have walked := surveyed_of_run_ok h
  have walked' := Codebase.surveyed_of_reorders reorders walked
  have catalogs := Codebase.reorders_published fresh fresh' walked walked'
    (Codebase.outlines_of_reorders reorders) names events
  have faultless : (Codebase.ofDump dump').catalog.fault? = none := by
    have before := faultless_of_run_ok h
    rw [← Catalog.fault?_published] at before ⊢
    exact catalogs.faultless before
  obtain ⟨c, s, stages⟩ := run_stages h
  obtain ⟨c', s', output', stages'⟩ := stages_of_faultless t walked'
    (Codebase.texts_of_reorders reorders (texts_of_run_ok fresh h)) faultless
  obtain ⟨routines, abis⟩ := stages.reorders stages' fresh fresh' catalogs
  have textual : t.settings.typescript = true → output'.classAbis.all (·.2.isTextual) = true := by
    intro wanted
    by_contra lacking
    rw [abis.all_eq] at lacking
    rw [stages.outcome, if_neg fun all => lacking (all wanted)] at h
    cases h
  exact ⟨output', _, stages'.outcome.trans (if_pos textual), routines, abis⟩

/-- Where no two contracts and no two events share a name, the order of sources and of the classes in
them decides neither whether a run comes to its end nor any text of a class. The routines are the
same and so are the texts for the files of each class. A file that belongs to one class only has the
same text in both runs. Classes may share a path, and then the last one has the file. -/
theorem class_texts_ignore_order (t : Transformer) {dump dump' : List Dump.Source}
    (reorders : Dump.Reorders dump dump')
    (names : ((Codebase.ofDump dump).contracts.map (·.name.key)).Nodup)
    (events : ((Codebase.ofDump dump).contracts.filterMap fun v =>
      v.declaration.eventName?.map Json.key).Nodup) :
    ((∃ result, (t.run (.ofDump dump) none).2.2 = .ok result) ↔
      ∃ result, (t.run (.ofDump dump') none).2.2 = .ok result) ∧
    ∀ output files output' files', (t.run (.ofDump dump) none).2.2 = .ok (output, files) →
      (t.run (.ofDump dump') none).2.2 = .ok (output', files') →
        output'.routines.Perm output.routines ∧
        (output'.classFiles t.layout).Perm (output.classFiles t.layout) ∧
        files = t.settings.table output.unitAbi (output.classFiles t.layout) ∧
        files' = t.settings.table output'.unitAbi (output'.classFiles t.layout) ∧
        (t.settings.typescript = true → ∀ c ∈ output.classFiles t.layout,
          ∀ p ∈ t.settings.placed c,
            (∀ other ∈ output.classFiles t.layout, other ≠ c →
              ∀ q ∈ t.settings.placed other, q.1 ≠ p.1) →
            files.get? p.1 = some p.2 ∧ files'.get? p.1 = some p.2) := by
  have perm := Codebase.outlines_of_reorders reorders
  have names' : ((Codebase.ofDump dump').contracts.map (·.name.key)).Nodup := by
    rw [← Codebase.outlines_names] at names ⊢
    exact (perm.map _).nodup_iff.mpr names
  have events' : ((Codebase.ofDump dump').contracts.filterMap fun v =>
      v.declaration.eventName?.map Json.key).Nodup := by
    rw [← Codebase.outlines_eventNames] at events ⊢
    exact (perm.filterMap _).nodup_iff.mpr events
  refine ⟨⟨?_, ?_⟩, ?_⟩
  · rintro ⟨⟨output, files⟩, ran⟩
    obtain ⟨output', files', ran', -⟩ := run_of_reorders reorders names events ran
    exact ⟨_, ran'⟩
  · rintro ⟨⟨output', files'⟩, ran'⟩
    obtain ⟨output, files, ran, -⟩ := run_of_reorders reorders.symm names' events' ran'
    exact ⟨_, ran⟩
  · intro output files output' files' ran ran'
    obtain ⟨_, _, again, routines, abis⟩ := run_of_reorders reorders names events ran
    obtain ⟨rfl, rfl⟩ := Prod.mk.inj (Except.ok.inj (again.symm.trans ran'))
    have classes := abis.map (Fragment.filesOf t.layout)
    have written := files_of_run_ok ran
    have written' := files_of_run_ok ran'
    refine ⟨routines, classes, written, written', fun wanted c listed p own alone => ?_⟩
    rw [written, written']
    refine ⟨Settings.get?_table wanted _ listed own alone,
      Settings.get?_table wanted _ (classes.mem_iff.mpr listed) own fun other inside => ?_⟩
    exact alone other (classes.mem_iff.mp inside)

/-- Two contracts, one of which emits the event of a third source, and a library. -/
def gallery : List Dump.Source := [
  { path := .str "gallery.ts", isLibrary := false
    classes := [
      { name := .str "Gallery", base := .null, decorators := []
        members := [
          .method (.str "sell") [⟨.str "method", ["'uint256'"]⟩, ⟨.str "emit", ["'Sold'"]⟩],
          .method (.str "owner") [⟨.str "returns", ["'address'"]⟩]] },
      { name := .str "Archive", base := .null, decorators := []
        members := [.method (.str "store") [⟨.str "method", ["'bytes32'"]⟩]] }] },
  { path := .str "~lib/gallery.ts", isLibrary := false
    classes := [{ name := .str "Gallery", base := .null, decorators := [], members := [] }] },
  { path := .str "events.ts", isLibrary := false
    classes := [
      { name := .str "Sold", base := .null, decorators := [⟨.str "event", []⟩]
        members := [.field ⟨.str "price", .str "uint256", []⟩] }] }]

def reversedGallery : List Dump.Source :=
  (gallery.map fun s => { s with classes := s.classes.reverse }).reverse

theorem texts_of_gallery : Dump.Reorders gallery reversedGallery ∧
    ((Codebase.ofDump gallery).contracts.map (·.name.key)).Nodup ∧
    ((Codebase.ofDump gallery).contracts.filterMap fun v =>
      v.declaration.eventName?.map Json.key).Nodup ∧
    ∃ output files output' files',
      (({} : Transformer).run (.ofDump gallery) none).2.2 = .ok (output, files) ∧
      (({} : Transformer).run (.ofDump reversedGallery) none).2.2 = .ok (output', files') ∧
      output'.routines.Perm output.routines ∧
      (output'.classFiles {}).Perm (output.classFiles {}) ∧ (output.classFiles {}).length = 2 ∧
      ∀ c ∈ output.classFiles {}, ∀ p ∈ ({} : Settings).placed c,
        files.get? p.1 = some p.2 ∧ files'.get? p.1 = some p.2 := by
  have reorders : Dump.Reorders gallery reversedGallery := by
    refine ⟨_, List.forall₂_map_right_iff.mpr ?_, List.reverse_perm _⟩
    exact List.forall₂_same.mpr fun s _ => ⟨rfl, rfl, List.reverse_perm _⟩
  have names : ((Codebase.ofDump gallery).contracts.map (·.name.key)).Nodup := by decide +kernel
  have events : ((Codebase.ofDump gallery).contracts.filterMap fun v =>
      v.declaration.eventName?.map Json.key).Nodup := by decide +kernel
  obtain ⟨output, files, ran⟩ := run_completes {}
    (show (Codebase.ofDump gallery).isTextual = true by decide) (by decide +kernel)
  obtain ⟨completes, texts⟩ := class_texts_ignore_order {} reorders names events
  obtain ⟨⟨output', files'⟩, ran'⟩ := completes.mp ⟨_, ran⟩
  obtain ⟨routines, classes, -, -, same⟩ := texts output files output' files' ran ran'
  have apart : (({} : Transformer).run (.ofDump gallery) none).2.2.toOption.all fun result =>
      (result.1.classFiles {}).length = 2 ∧ ((result.1.classFiles {}).map (·.owner)).Nodup ∧
      ∀ c ∈ result.1.classFiles {}, ∀ other ∈ result.1.classFiles {}, other.owner ≠ c.owner →
        ∀ p ∈ ({} : Settings).placed c, ∀ q ∈ ({} : Settings).placed other, q.1 ≠ p.1 := by
    decide +kernel
  rw [ran] at apart
  obtain ⟨two, distinct, paths⟩ := of_decide_eq_true apart
  refine ⟨reorders, names, events, output, files, output', files', ran, ran', routines, classes,
    two, ?_⟩
  intro c listed p own
  refine same rfl c listed p own fun other inside another q placed => ?_
  refine paths c listed other inside (fun named => another ?_) p own q placed
  exact List.inj_on_of_nodup_map distinct inside listed named

/-- Two contracts whose names differ but lead to the same paths. -/
def namesakes : List Dump.Source := [
  { path := .str "vault.ts", isLibrary := false
    classes := [
      { name := .str "Vault", base := .null, decorators := []
        members := [.method (.str "lock") [⟨.str "method", []⟩]] },
      { name := .str "./Vault", base := .null, decorators := []
        members := [.method (.str "open") [⟨.str "method", []⟩]] }] }]

def swappedNamesakes : List Dump.Source :=
  namesakes.map fun s => { s with classes := s.classes.reverse }

/-- The file at a path that two classes share has the text of the one that comes last. -/
theorem shared_file_follows_order : Dump.Reorders namesakes swappedNamesakes ∧
    ((Codebase.ofDump namesakes).contracts.map (·.name.key)).Nodup ∧
    ((Codebase.ofDump namesakes).contracts.filterMap fun v =>
      v.declaration.eventName?.map Json.key).Nodup ∧
    ∃ output files output' files',
      (({} : Transformer).run (.ofDump namesakes) none).2.2 = .ok (output, files) ∧
      (({} : Transformer).run (.ofDump swappedNamesakes) none).2.2 = .ok (output', files') ∧
      files.get? (({} : Settings).constantsPath (.str "Vault")) ≠
        files'.get? (({} : Settings).constantsPath (.str "Vault")) := by
  have reorders : Dump.Reorders namesakes swappedNamesakes := by
    refine ⟨_, List.forall₂_map_right_iff.mpr ?_, .refl _⟩
    exact List.forall₂_same.mpr fun s _ => ⟨rfl, rfl, List.reverse_perm _⟩
  obtain ⟨output, files, ran⟩ := run_completes {}
    (show (Codebase.ofDump namesakes).isTextual = true by decide) (by decide +kernel)
  obtain ⟨output', files', ran'⟩ := run_completes {}
    (show (Codebase.ofDump swappedNamesakes).isTextual = true by decide) (by decide +kernel)
  have differ : (({} : Transformer).run (.ofDump namesakes) none).2.2.toOption.map
      (·.2.get? (({} : Settings).constantsPath (.str "Vault"))) ≠
        (({} : Transformer).run (.ofDump swappedNamesakes) none).2.2.toOption.map
          (·.2.get? (({} : Settings).constantsPath (.str "Vault"))) := by decide +kernel
  rw [ran, ran'] at differ
  exact ⟨reorders, by decide +kernel, by decide +kernel, output, files, output', files', ran, ran',
    fun same => differ (congrArg some same)⟩

end Transformer

end ContractAbi
